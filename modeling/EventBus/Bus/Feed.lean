import EventBus.Bus.Command
import EventBus.Sync.Semaphore

/-!
The feed of one consumer: a queue of delivered batches with a bounded number of places. A
delivery that finds no free place waits for one, first come first served, until its
deadline. On each look, being cancelled counts first, then that the reader is gone, then
having been given a place, and the deadline last.
-/

namespace EventBus.Bus

abbrev TaskId := Nat

inductive Outcome where
  | delivered (events : Nat)
  | skipped
  | canceled
  | closed
  | timedOut
  deriving DecidableEq, Repr

/-- A delivery to one consumer: not begun, waiting for a place, or over. -/
inductive Leg where
  | fresh
  | waiting (selected : List Event) (deadline : Nat)
  | done (outcome : Outcome)
  deriving Repr

namespace Leg

def isDone : Leg → Bool
  | .done _ => true
  | _ => false

def outcome? : Leg → Option Outcome
  | .done outcome => some outcome
  | _ => none

/-- How many events a delivery put into the feed, when the next may follow it. -/
def passed? : Leg → Option Nat
  | .done (.delivered events) => some events
  | .done .skipped => some 0
  | .done .timedOut => some 0
  | _ => none

end Leg

structure Feed where
  queue : List (List Event)
  places : Semaphore TaskId
  /-- The reader is gone. -/
  closed : Bool
  /-- The consumer was taken out of the registry. -/
  canceled : Bool
  /-- Tasks to wake when the consumer is cancelled, in the order they began to wait. -/
  watchers : List TaskId

namespace Feed

/-- An empty feed with so many places, and one at least. -/
def ofPlaces (places : Nat) : Feed := ⟨[], .ofPermits (max 1 places), false, false, []⟩

def push (feed : Feed) (selected : List Event) : Feed :=
  { feed with queue := feed.queue ++ [selected] }

def offer (feed : Feed) (task : TaskId) (canceled : Bool) (now timeout : Nat)
    (selected : List Event) : Leg × Feed :=
  if selected.isEmpty then (.done .skipped, feed)
  else if canceled then (.done .canceled, feed)
  else if feed.closed then (.done .closed, feed)
  else match feed.places.take? with
    | some places =>
        (.done (.delivered selected.length), { feed with places }.push selected)
    | none =>
        if timeout = 0 then (.done .timedOut, feed)
        else (.waiting selected (now + timeout),
          { feed with
            places := feed.places.wait task
            watchers := feed.watchers ++ [task] })

/-- Stop waiting. The answer also says for which task a place is kept instead. -/
def leave (feed : Feed) (task : TaskId) : Feed × Option TaskId :=
  let (places, next) := feed.places.leave task
  ({ feed with places, watchers := feed.watchers.erase task }, next)

def retry (feed : Feed) (task : TaskId) (canceled : Bool) (now : Nat)
    (selected : List Event) (deadline : Nat) : Leg × Feed × Option TaskId :=
  if canceled then (.done .canceled, feed.leave task)
  else if feed.closed then (.done .closed, feed.leave task)
  else if feed.places.isGranted task then
    (.done (.delivered selected.length),
      { feed with
        places := feed.places.redeem task
        watchers := feed.watchers.erase task }.push selected, none)
  else if deadline ≤ now then (.done .timedOut, feed.leave task)
  else (.waiting selected deadline, feed, none)

/-- Take the oldest batch; its place may go to a task that waits. -/
def pop? (feed : Feed) : Option (List Event × Feed × Option TaskId) :=
  match feed.queue with
  | [] => none
  | batch :: queue =>
      let (places, next) := feed.places.release
      some (batch, { feed with queue, places }, next)

/-- The reader goes; whoever waits for a place learns of it. -/
def close (feed : Feed) : Feed × List TaskId :=
  ({ feed with closed := true, queue := [] }, feed.places.granted ++ feed.places.waiting)

end Feed

end EventBus.Bus
