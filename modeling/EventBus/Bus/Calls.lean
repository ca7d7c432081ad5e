import EventBus.Bus.Coordinator

/-!
What the outside does to a bus: calls on handles and subscriptions, starting and cancelling
it, and the passing of time. A call never waits. One that finds the queue full is given up
without an effect, except that an attempt to subscribe uses up the number of a consumer.
-/

namespace EventBus.Bus

variable {σ : Type}

inductive Sent where
  | ok
  | full
  | failed (error : BusError)
  deriving Repr

inductive Received where
  | batch (events : List Event)
  | pending
  /-- Nothing is there and nothing will come. -/
  | ended
  deriving Repr

def enqueue (bus : Bus σ) (command : Command) : Bus σ :=
  { bus with commands := bus.commands ++ [command] }.wakeReceiver

/-- How sending a command now would end. Being cancelled counts first. -/
def admission (bus : Bus σ) (canceled : Bool) : Sent :=
  if canceled then .failed .canceled
  else if bus.coordinator.isGone then .failed .closed
  else if commandPlaces ≤ bus.commands.length then .full
  else .ok

def send (bus : Bus σ) (canceled : Bool) (command : Command) : Sent × Bus σ :=
  match bus.admission canceled with
  | .ok => (.ok, bus.enqueue command)
  | refusal => (refusal, bus)

def publish (bus : Bus σ) (canceled : Bool) (batch : List Event) : Sent × Bus σ :=
  bus.send canceled (.publish batch)

def openFeed (bus : Bus σ) (id : ConsumerId) (places : Nat) : Bus σ :=
  { bus with feeds := bus.feeds ++ [(id, Feed.ofPlaces places)] }

/-- Subscribe with a feed of so many places. The answer has the number of the consumer. -/
def subscribe (bus : Bus σ) (canceled : Bool) (query : Query) (places : Nat) :
    Sent × ConsumerId × Bus σ :=
  let id := bus.nextId
  let bus := { bus with nextId := id + 1 }
  match bus.send canceled (.subscribe id query) with
  | (.ok, bus) => (.ok, id, bus.openFeed id places)
  | (refusal, bus) => (refusal, id, bus)

def unsubscribe (bus : Bus σ) (canceled : Bool) (id : ConsumerId) : Sent × Bus σ :=
  bus.send canceled (.unsubscribe id)

def isSubscribed (bus : Bus σ) (id : ConsumerId) : Bool :=
  (bus.feed? id).any (!·.closed)

/-- The reader of a feed goes; deliveries that wait for a place in it learn of that. -/
def closeFeed (bus : Bus σ) (id : ConsumerId) : Bus σ :=
  match bus.feed? id with
  | none => bus
  | some feed =>
      let (feed, tasks) := feed.close
      let bus := (bus.setFeed id feed).wakeTasks tasks
      if bus.senders = 0 then bus.wakeReceiver else bus

/-- Drop a subscription. The consumer is unregistered if the queue has a place for the command. -/
def dropSubscription (bus : Bus σ) (id : ConsumerId) : Bus σ :=
  if bus.isSubscribed id then (bus.send false (.unsubscribe id)).2.closeFeed id else bus

def receive (bus : Bus σ) (id : ConsumerId) : Received × Bus σ :=
  match bus.feed? id with
  | none => (.ended, bus)
  | some feed =>
      match feed.pop? with
      | some (batch, feed, next) => (.batch batch, (bus.setFeed id feed).wakeIf next)
      | none => (if bus.hasSender id then .pending else .ended, bus)

def addHandle (bus : Bus σ) : Bus σ := { bus with handles := bus.handles + 1 }

def dropHandle (bus : Bus σ) : Bus σ :=
  let bus := { bus with handles := bus.handles - 1 }
  if bus.senders = 0 then bus.wakeReceiver else bus

def start (bus : Bus σ) : Bus σ :=
  match bus.coordinator with
  | .idle => { bus with coordinator := .starting }.wake .coordinator
  | _ => bus

def dropCoordinator (bus : Bus σ) : Bus σ :=
  match bus.coordinator with
  | .idle => { bus with coordinator := .absent, commands := [] }
  | _ => bus

/-- The tasks that cancelling the bus wakes: those of the last consumer of the audience first. -/
def canceledTasks (bus : Bus σ) : List TaskId :=
  bus.audience.reverse.flatMap fun id =>
    match bus.feed? id with
    | some feed => if feed.canceled then [] else feed.watchers
    | none => []

def cancel (bus : Bus σ) : Bus σ :=
  if bus.canceled then bus
  else
    let bus := { bus with canceled := true }.wakeTasks bus.canceledTasks
    if bus.coordinator.isWaiting then bus.wake .coordinator else bus

def mapStore (bus : Bus σ) (f : σ → σ) : Bus σ := { bus with store? := bus.store?.map f }

/-- Time reaches an instant; whoever set a deadline up to it gets a turn. -/
def reach (bus : Bus σ) (now : Nat) : Bus σ :=
  let due := bus.timers.filter (·.1 ≤ now)
  due.foldl (fun bus timer => bus.wake timer.2)
    { bus with now, timers := bus.timers.filter (now < ·.1) }

def nextDeadline? (bus : Bus σ) : Option Nat := (bus.timers.map (·.1)).min?

end EventBus.Bus
