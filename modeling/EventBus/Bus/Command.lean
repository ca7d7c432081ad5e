import EventBus.Bus.Error
import EventBus.Event.Query

/-!
What is asked of a bus, and what a bus reports. Consumers are known by number. Reports that
have a line of log are what an operator sees; the others record what was taken from the
queue, kept, and put into feeds, so that the whole course of a bus can be read off its
reports.
-/

namespace EventBus.Bus

abbrev ConsumerId := Nat

inductive Command where
  | publish (batch : List Event)
  | subscribe (id : ConsumerId) (query : Query)
  | unsubscribe (id : ConsumerId)
  deriving Repr

/-- A registered consumer, its replay limit already bounded by the bus. -/
structure Consumer where
  id : ConsumerId
  query : Query
  deriving Repr, Inhabited

/-- Why a batch is in a feed: a replay, or the fan-out of a publish, counted from zero. -/
inductive Origin where
  | replay
  | live (publish : Nat)
  deriving DecidableEq, Repr

inductive Notice where
  | started (workers maxReplay : Nat) (hasStore : Bool)
  | stopped (result : Except BusError Unit)
  | took (command : Command)
  | stored (batch : List Event)
  | alreadyRegistered (id : ConsumerId)
  | registered (consumer : Consumer)
  | unregistered (id : ConsumerId)
  | pruned (id : ConsumerId)
  | noWorker (task : String) (error : BusError)
  | queued (id : ConsumerId) (batch : List Event) (origin : Origin)
  | delivered (id : ConsumerId) (events : Nat)
  | timedOut (id : ConsumerId)
  | abandoned (id : ConsumerId) (error : BusError)
  | replayReadFailed (id : ConsumerId) (error : StoreError)
  | replayTimedOut (id : ConsumerId)
  | replayFinished (id : ConsumerId) (events : Nat)
  | store (notice : Store.Notice)
  /-- A line that a user of the bus adds to the log. -/
  | remark (line : String)

namespace Notice

def stoppedLine : Except BusError Unit → String
  | .ok () => "INFO bus stopped: all handles dropped"
  | .error .canceled => "INFO bus stopped: canceled"
  | .error error => "ERROR bus stopped error=" ++ error.message

def line? : Notice → Option String
  | .started workers maxReplay hasStore =>
      some ("INFO bus started workers=" ++ toString workers ++ " max_replay="
        ++ toString maxReplay ++ " store=" ++ toString hasStore)
  | .stopped result => some (stoppedLine result)
  | .took _ => none
  | .stored _ => none
  | .alreadyRegistered id => some ("WARN consumer already registered consumer=" ++ toString id)
  | .registered consumer =>
      some ("DEBUG consumer registered consumer=" ++ toString consumer.id ++ " replay="
        ++ toString consumer.query.replay ++ " limit=" ++ toString consumer.query.limit
        ++ " filter=" ++ consumer.query.filter.text)
  | .unregistered id => some ("DEBUG consumer unregistered consumer=" ++ toString id)
  | .pruned id => some ("DEBUG consumer pruned consumer=" ++ toString id)
  | .noWorker task error =>
      some ("WARN no worker available, dropping task=" ++ task ++ " error=" ++ error.message)
  | .queued .. => none
  | .delivered id events =>
      some ("DEBUG delivered consumer=" ++ toString id ++ " events=" ++ toString events)
  | .timedOut id => some ("WARN delivery timed out, batch dropped consumer=" ++ toString id)
  | .abandoned id error =>
      some ("DEBUG delivery abandoned consumer=" ++ toString id ++ " error=" ++ error.message)
  | .replayReadFailed id error =>
      some ("WARN replay read failed consumer=" ++ toString id ++ " error=" ++ error.message)
  | .replayTimedOut id =>
      some ("WARN replay delivery timed out, batch dropped consumer=" ++ toString id)
  | .replayFinished id events =>
      some ("DEBUG replay finished consumer=" ++ toString id ++ " events=" ++ toString events)
  | .store notice => some notice.line
  | .remark line => some line

end Notice

end EventBus.Bus
