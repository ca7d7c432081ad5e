import EventBus.Store.Outbox

/-!
A history of fixed capacity kept in slots that are written round and round: once all are
full, each write replaces the oldest event. Reading goes from the newest event back.
-/

namespace EventBus

/-- Slots, the slot of the next write, and how many slots are filled. -/
structure Ring where
  capacity : Nat
  slots : Array (Option Event)
  next : Nat
  len : Nat
  closed : Bool

namespace Ring

def ofCapacity (capacity : Nat) : Ring :=
  ⟨capacity, Array.replicate capacity none, 0, 0, false⟩

def slotBack (ring : Ring) (back : Nat) : Nat :=
  (ring.next + ring.capacity - back) % ring.capacity

/-- Up to so many stored events, newest first. -/
def recent (ring : Ring) (n : Nat) : List Event :=
  (List.range' 1 (min n ring.len)).filterMap fun back =>
    (ring.slots[ring.slotBack back]?).join

def push (ring : Ring) (event : Event) : Ring :=
  { ring with
    slots := ring.slots.setIfInBounds ring.next (some event)
    next := (ring.next + 1) % ring.capacity
    len := min (ring.len + 1) ring.capacity }

/-- Write the events of a batch one after the other; without slots nothing is kept. -/
def pushAll (ring : Ring) (batch : List Event) : Ring :=
  if ring.capacity = 0 then ring else batch.foldl push ring

def reopen (canceled : Bool) (ring : Ring) : Store.Answer Ring Unit :=
  if canceled then ⟨.error .canceled, ring, []⟩
  else ⟨.ok (), { ring with closed := false }, []⟩

/-- Take the ring out of use; this always succeeds. -/
def close (_ : Bool) (ring : Ring) : Store.Answer Ring Unit :=
  ⟨.ok (), { ring with closed := true }, []⟩

def write (canceled : Bool) (batch : List Event) (ring : Ring) : Store.Answer Ring Unit :=
  if canceled then ⟨.error .canceled, ring, []⟩
  else if ring.closed then ⟨.error .closed, ring, []⟩
  else ⟨.ok (), ring.pushAll batch, []⟩

/-- The stored events that match a query, newest first. -/
def matching (ring : Ring) (query : Query) : List Event :=
  (query.select (ring.recent ring.capacity)).take query.limit

/-- What a read leaves in a queue of its own, which it stops filling when it is full. -/
def outbox (ring : Ring) (query : Query) : Outbox :=
  let events := ring.matching query
  (Outbox.ofRoom (max events.length 1)).offerUntilFull events

/-- Read stored events, each a batch of its own. -/
def read (canceled : Bool) (query : Query) (ring : Ring) : Store.Answer Ring Stream :=
  if canceled then ⟨.error .canceled, ring, []⟩
  else if ring.closed then ⟨.error .closed, ring, []⟩
  else ⟨.ok (ring.outbox query).stream, ring, []⟩

/-- The queue has room for all that match. -/
theorem outbox_stream (ring : Ring) (query : Query) :
    (ring.outbox query).stream = ⟨(ring.matching query).map ([·]), true⟩ :=
  Outbox.stream_ofRoom (Nat.le_max_left _ _)

instance : Store Ring := ⟨reopen, close, write, read⟩

end Ring

end EventBus
