import EventBus.Store.Outbox

/-!
A history without a bound that remembers the calls made to it and can be told to fail its
writes.
-/

namespace EventBus

namespace Recorder

inductive Call where
  | reopen
  | close
  | write (events : Nat)
  | read (limit : Nat)
  deriving DecidableEq, Repr

def Call.text : Call → String
  | .reopen => "open"
  | .close => "close"
  | .write events => "write " ++ toString events
  | .read limit => "read " ++ toString limit

end Recorder

/-- All events, oldest first, all calls in order, and the error of every further write. -/
structure Recorder where
  events : List Event
  calls : List Recorder.Call
  writeError? : Option StoreError

namespace Recorder

def empty : Recorder := ⟨[], [], none⟩

def remember (recorder : Recorder) (call : Call) : Recorder :=
  { recorder with calls := recorder.calls ++ [call] }

/-- Keep a batch. The call is remembered before it can fail, unless its caller gave up. -/
def write (canceled : Bool) (batch : List Event) (recorder : Recorder) :
    Store.Answer Recorder Unit :=
  if canceled then ⟨.error .canceled, recorder, []⟩
  else
    let recorder := recorder.remember (.write batch.length)
    match recorder.writeError? with
    | some error => ⟨.error error, recorder, []⟩
    | none => ⟨.ok (), { recorder with events := recorder.events ++ batch }, []⟩

def matching (recorder : Recorder) (query : Query) : List Event :=
  (query.select recorder.events.reverse).take query.limit

/-- What a read leaves in a queue of its own. -/
def outbox (recorder : Recorder) (query : Query) : Outbox :=
  let events := recorder.matching query
  (Outbox.ofRoom (max events.length 1)).offerEach events

/-- Read stored events, each a batch of its own. -/
def read (canceled : Bool) (query : Query) (recorder : Recorder) :
    Store.Answer Recorder Stream :=
  if canceled then ⟨.error .canceled, recorder, []⟩
  else ⟨.ok (recorder.outbox query).stream, recorder.remember (.read query.limit), []⟩

/-- The queue has room for all that match, so that none is passed over. -/
theorem outbox_stream (recorder : Recorder) (query : Query) :
    (recorder.outbox query).stream = ⟨(recorder.matching query).map ([·]), true⟩ := by
  rw [outbox, Outbox.offerEach_ofRoom (Nat.le_max_left _ _)]
  exact Outbox.stream_ofRoom (Nat.le_max_left _ _)

instance : Store Recorder where
  reopen _ recorder := ⟨.ok (), recorder.remember .reopen, []⟩
  close _ recorder := ⟨.ok (), recorder.remember .close, []⟩
  write := write
  read := read

end Recorder

end EventBus
