import EventBus.Bus.Error
import EventBus.Pool.Basic

/-!
A pool in use by many who ask for tokens at different times. Each request is a numbered
slot. Requests act one at a time, in the order in which they were made or woken, and time
moves only when no request can act.
-/

namespace EventBus.Pool

inductive Slot where
  /-- Asked, and not looked at yet. -/
  | asking (timeout : Nat) (canceled : Bool)
  | waiting (deadline : Nat)
  | held
  | released
  | failed (error : BusError)
  deriving Repr

/-- A pool, its slots, the slots that can act, the time, and whether the pool is cancelled. -/
structure Session where
  pool : Pool Nat
  slots : List Slot
  ready : List Nat
  now : Nat
  canceled : Bool
  deriving Repr

namespace Session

def ofSize (size : Nat) : Session := ⟨.ofSize size, [], [], 0, false⟩

/-- Let a slot act, unless it is about to. -/
def wake (session : Session) (slot : Nat) : Session :=
  if session.ready.contains slot then session
  else { session with ready := session.ready ++ [slot] }

def wakeIf (session : Session) : Option Nat → Session
  | some slot => session.wake slot
  | none => session

def put (session : Session) (n : Nat) (slot : Slot) : Session :=
  { session with slots := session.slots.set n slot }

/-- What becomes of a slot after its request has been looked at. -/
def settleSlot (session : Session) (n deadline : Nat) : Acquired → Session
  | .token => session.put n .held
  | .canceled => session.put n (.failed .canceled)
  | .timedOut => session.put n (.failed .timedOut)
  | .waiting => session.put n (.waiting deadline)

def act (session : Session) (n : Nat) : Session :=
  match session.slots[n]? with
  | some (.asking timeout canceled) =>
      let (acquired, pool) :=
        session.pool.request n (canceled || session.canceled) (0 < timeout)
      { session with pool }.settleSlot n (session.now + timeout) acquired
  | some (.waiting deadline) =>
      let (acquired, pool, next) :=
        session.pool.review n session.canceled (deadline ≤ session.now)
      ({ session with pool }.settleSlot n deadline acquired).wakeIf next
  | _ => session

def step? (session : Session) : Option Session :=
  match session.ready with
  | [] => none
  | n :: rest => some ({ session with ready := rest }.act n)

def settle : Nat → Session → Session
  | 0, session => session
  | fuel + 1, session =>
      match session.step? with
      | some session => settle fuel session
      | none => session

/-- Every slot acts at most twice between two changes from outside. -/
def settled (session : Session) : Session := settle (2 * session.slots.length + 2) session

def acquire (session : Session) (timeout : Nat) (canceled : Bool) : Session :=
  { session with slots := session.slots ++ [Slot.asking timeout canceled] }.wake session.slots.length

def release (session : Session) (n : Nat) : Session :=
  match session.slots[n]? with
  | some .held =>
      let (pool, next) := session.pool.release
      ({ session with pool }.put n .released).wakeIf next
  | _ => session

/-- The slots that wait, by number, with their deadlines. -/
def deadlines (session : Session) : List (Nat × Nat) :=
  session.slots.zipIdx.filterMap fun (slot, n) => match slot with
    | .waiting deadline => some (n, deadline)
    | _ => none

def cancel (session : Session) : Session :=
  session.deadlines.foldl (fun session (n, _) => session.wake n) { session with canceled := true }

def reach (session : Session) (now : Nat) : Session :=
  session.deadlines.foldl
    (fun session (n, deadline) => if deadline ≤ now then session.wake n else session)
    { session with now }

def nextDeadline? (session : Session) : Option Nat :=
  (session.deadlines.map (·.2)).min?

/-- Time passes from deadline to deadline, and slots act in between. -/
def advanceTo (goal : Nat) : Nat → Session → Session
  | 0, session => { session with now := goal }
  | fuel + 1, session =>
      match session.nextDeadline? with
      | some deadline =>
          if deadline ≤ goal then advanceTo goal fuel (session.reach deadline).settled
          else { session with now := goal }
      | none => { session with now := goal }

def advance (session : Session) (span : Nat) : Session :=
  advanceTo (session.now + span) (session.slots.length + 1) session

end Session

end EventBus.Pool
