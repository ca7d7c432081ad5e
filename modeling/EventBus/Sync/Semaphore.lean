/-!
A counter of permits with a queue. A permit that is given back goes to whoever has waited
longest and is kept for them until they take it up or give up, so no one who comes later
can overtake; a permit kept for someone who gives up passes on to the next.
-/

namespace EventBus

/-- Permits no one holds, those who wait, and those for whom a permit is kept. -/
structure Semaphore (κ : Type) where
  free : Nat
  waiting : List κ
  granted : List κ
  deriving Repr

namespace Semaphore

variable {κ : Type} [BEq κ]

def ofPermits (permits : Nat) : Semaphore κ := ⟨permits, [], []⟩

def take? (s : Semaphore κ) : Option (Semaphore κ) :=
  if s.free = 0 then none else some { s with free := s.free - 1 }

def wait (s : Semaphore κ) (who : κ) : Semaphore κ := { s with waiting := s.waiting ++ [who] }

/-- Give a permit back. The answer also says for whom it is kept now. -/
def release (s : Semaphore κ) : Semaphore κ × Option κ :=
  match s.waiting with
  | [] => ({ s with free := s.free + 1 }, none)
  | who :: rest => ({ s with waiting := rest, granted := s.granted ++ [who] }, some who)

def isGranted (s : Semaphore κ) (who : κ) : Bool := s.granted.contains who

def redeem (s : Semaphore κ) (who : κ) : Semaphore κ :=
  { s with granted := s.granted.erase who }

/-- Give up waiting; a permit kept meanwhile passes on. -/
def leave (s : Semaphore κ) (who : κ) : Semaphore κ × Option κ :=
  if s.isGranted who then (s.redeem who).release
  else ({ s with waiting := s.waiting.erase who }, none)

end Semaphore

end EventBus
