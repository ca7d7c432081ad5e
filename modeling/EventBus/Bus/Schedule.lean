import EventBus.Bus.Calls

/-!
Taking turns. Whoever can act first does so first, and time passes only when no one can
act, from one deadline to the next.
-/

namespace EventBus.Bus

variable {σ : Type}

/-- The turn of an actor. A task that has ended has none. -/
def turn (bus : Bus σ) [Store σ] : Actor → Bus σ
  | .coordinator => bus.turnCoordinator
  | .task id =>
      match bus.tasks.lookup id with
      | none => bus
      | some (.fanOut publish batch legs) => bus.turnFanOut id publish batch legs
      | some (.replay consumer phase) => bus.turnReplay id consumer phase

def step? (bus : Bus σ) [Store σ] : Option (Bus σ) :=
  match bus.ready with
  | [] => none
  | actor :: rest => some ({ bus with ready := rest }.turn actor)

def isSettled (bus : Bus σ) : Bool := bus.ready.isEmpty

def settleFor [Store σ] : Nat → Bus σ → Bus σ
  | 0, bus => bus
  | fuel + 1, bus =>
      match bus.step? with
      | some bus => settleFor fuel bus
      | none => bus

/-- The loads of all that is kept under some key. -/
def total {α β : Type} (load : β → Nat) (entries : List (α × β)) : Nat :=
  entries.foldr (fun entry sum => load entry.2 + sum) 0

/-- How many turns a delivery may still give rise to. One that is overdue ends when it is looked
at, and another may take its place. -/
def Leg.load (now : Nat) : Leg → Nat
  | .fresh => 2
  | .waiting _ deadline => if deadline ≤ now then 2 else 1
  | .done _ => 0

def Task.load (now : Nat) : Task → Nat
  | .fanOut _ _ legs => 1 + total (Leg.load now) legs
  | .replay _ .starting => 3
  | .replay _ (.taking _ _) => 1
  | .replay _ (.sending selected deadline _ _) => 1 + (Leg.waiting selected deadline).load now

/-- Whoever watches a feed may be woken when it is cancelled. -/
def Feed.load (feed : Feed) : Nat :=
  (if feed.canceled then 0 else feed.watchers.length) + feed.places.granted.length

/-- A command starts one task at most, for no more consumers than there can be by then. -/
def queueLoad (consumers commands : Nat) : Nat := commands * (4 + 2 * (consumers + commands))

/-- A token that comes starts the task that waits for it. -/
def Coordinator.load (now : Nat) : Coordinator → Nat
  | .acquiring job _ => job.task.load now + 1
  | _ => 0

/-- A bound on the turns that can follow one another without anything from outside. Each takes an
actor out of the line, and whoever it wakes lightens one of the other loads. -/
def turnBound (bus : Bus σ) : Nat :=
  bus.ready.length + queueLoad bus.registry.length bus.commands.length
    + bus.coordinator.load bus.now + total (Task.load bus.now) bus.tasks + total Feed.load bus.feeds

def settle (bus : Bus σ) [Store σ] : Bus σ := settleFor bus.turnBound bus

def passUntil [Store σ] (goal : Nat) : Nat → Bus σ → Bus σ
  | 0, bus => { bus with now := goal }
  | fuel + 1, bus =>
      match bus.nextDeadline? with
      | some deadline =>
          if deadline ≤ goal then passUntil goal fuel (bus.reach deadline).settle
          else { bus with now := goal }
      | none => { bus with now := goal }

/-- So many milliseconds pass. Every deadline met lies later than the one before. -/
def pass (bus : Bus σ) [Store σ] (span : Nat) : Bus σ :=
  passUntil (bus.now + span) (span + 1) bus

end EventBus.Bus
