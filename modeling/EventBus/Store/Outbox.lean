import EventBus.Store.Basic

/-!
The queue in which a read leaves its batches for the reader. Its room is fixed before the
first batch is put in, and a batch that finds no room is refused. Nothing is put in after the
read has answered, so that the reader finds the kept batches and then the end.
-/

namespace EventBus

structure Outbox where
  room : Nat
  batches : Array (List Event)

namespace Outbox

def ofRoom (room : Nat) : Outbox := ⟨room, #[]⟩

/-- One batch more, if there is room for it. -/
def offer? (outbox : Outbox) (batch : List Event) : Option Outbox :=
  if outbox.batches.size < outbox.room then
    some { outbox with batches := outbox.batches.push batch }
  else none

/-- Put in events, each a batch of its own, up to the first that is refused. -/
def offerUntilFull (outbox : Outbox) : List Event → Outbox
  | [] => outbox
  | event :: events =>
      match outbox.offer? [event] with
      | some outbox => outbox.offerUntilFull events
      | none => outbox

/-- Put in events, each a batch of its own, and pass over those that are refused. -/
def offerEach (outbox : Outbox) (events : List Event) : Outbox :=
  events.foldl (fun outbox event => (outbox.offer? [event]).getD outbox) outbox

def stream (outbox : Outbox) : Stream := ⟨outbox.batches.toList, true⟩

theorem offer?_of_lt {outbox : Outbox} (h : outbox.batches.size < outbox.room)
    (batch : List Event) :
    outbox.offer? batch = some { outbox with batches := outbox.batches.push batch } := by
  rw [offer?, if_pos h]

/-- Where there is room for all, all are put in. -/
theorem stream_offerUntilFull {outbox : Outbox} {events : List Event}
    (h : outbox.batches.size + events.length ≤ outbox.room) :
    (outbox.offerUntilFull events).stream =
      ⟨outbox.batches.toList ++ events.map ([·]), true⟩ := by
  induction events generalizing outbox with
  | nil => simp [offerUntilFull, stream]
  | cons event events ih =>
      rw [List.length_cons] at h
      rw [offerUntilFull, offer?_of_lt (by omega)]
      simp only
      rw [ih (by simp only [Array.size_push]; omega)]
      simp

/-- Where there is room for all, none is passed over. -/
theorem offerEach_eq_offerUntilFull {outbox : Outbox} {events : List Event}
    (h : outbox.batches.size + events.length ≤ outbox.room) :
    outbox.offerEach events = outbox.offerUntilFull events := by
  induction events generalizing outbox with
  | nil => rfl
  | cons event events ih =>
      rw [List.length_cons] at h
      have hoffer : outbox.offer? [event] =
          some { outbox with batches := outbox.batches.push [event] } :=
        offer?_of_lt (by omega) [event]
      rw [offerUntilFull, hoffer]
      simp only [offerEach, List.foldl_cons, hoffer, Option.getD_some]
      exact ih (by simp only [Array.size_push]; omega)

theorem offerEach_ofRoom {room : Nat} {events : List Event} (h : events.length ≤ room) :
    (ofRoom room).offerEach events = (ofRoom room).offerUntilFull events :=
  offerEach_eq_offerUntilFull (by simpa [ofRoom] using h)

/-- A queue made for so many events refuses none of them. -/
theorem stream_ofRoom {room : Nat} {events : List Event} (h : events.length ≤ room) :
    ((ofRoom room).offerUntilFull events).stream = ⟨events.map ([·]), true⟩ := by
  rw [stream_offerUntilFull (by simpa [ofRoom] using h)]
  simp [ofRoom]

end Outbox

end EventBus
