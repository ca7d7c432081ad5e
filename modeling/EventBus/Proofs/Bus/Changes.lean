import EventBus.Proofs.Bus.Ledger
import EventBus.Proofs.Sync.Permits
import Mathlib.Tactic.Common

/-!
What any step of a run does to the ledger, said once. A step is a few changes; who holds what
is accounted for change by change.
-/

namespace EventBus.Bus

namespace Notice

/-- Reports that do not tell who is subscribed, or what is put into a feed. -/
def isQuiet : Notice → Bool
  | .took (.subscribe _ _) => false
  | .took (.unsubscribe _) => false
  | .pruned _ => false
  | .queued .. => false
  | _ => true

end Notice

namespace Leg

def isWaiting : Leg → Bool
  | .waiting .. => true
  | _ => false

/-- What a delivery of these events has put into the feed. -/
def put (selected : List Event) : Leg → List (List Event)
  | .done (.delivered _) => [selected]
  | _ => []

end Leg

/-- How many of the deliveries wait for a place in the feed of the consumer. -/
def waitsFor (legs : List (Consumer × Leg)) (id : ConsumerId) : Nat :=
  legs.countP fun entry => entry.1.id == id && entry.2.isWaiting

theorem waitsFor_of_not_waiting {consumer : Consumer} {leg : Leg} (h : leg.isWaiting = false)
    (id : ConsumerId) : waitsFor [(consumer, leg)] id = 0 := by
  simp [waitsFor, h]

theorem waitsFor_waiting (consumer : Consumer) (selected : List Event) (deadline : Nat) :
    waitsFor [(consumer, .waiting selected deadline)] consumer.id = 1 := by
  simp [waitsFor, Leg.isWaiting]

theorem waitsFor_of_ne {consumer : Consumer} {id : ConsumerId} (leg : Leg) (h : id ≠ consumer.id) :
    waitsFor [(consumer, leg)] id = 0 := by
  simp [waitsFor, h.symm]

namespace Task

/-- The deliveries of a task. A replay has one at a time, and none between two batches. -/
def legs : Task → List (Consumer × Leg)
  | .fanOut _ _ legs => legs
  | .replay consumer (.sending selected deadline _ _) => [(consumer, .waiting selected deadline)]
  | .replay _ _ => []

/-- One delivery of a task goes on, the others stay as they are. -/
structure Turns (held held' : Task) (consumer : Consumer) (leg leg' : Leg) : Prop where
  consumers : held'.consumers = held.consumers
  mem : consumer ∈ held.consumers
  others : ∃ others : ConsumerId → Nat, ∀ id,
    waitsFor held.legs id = others id + waitsFor [(consumer, leg)] id ∧
      waitsFor held'.legs id = others id + waitsFor [(consumer, leg')] id

/-- A task goes on without a delivery that waits before or after. -/
structure Proceeds (held held' : Task) : Prop where
  consumers : held'.consumers = held.consumers
  waits : ∀ id, waitsFor held'.legs id = waitsFor held.legs id

end Task

/-- What a look at a delivery of a task does to the feed, and what it puts there. -/
inductive Look (task : TaskId) (canceled : Bool) (room : Room) :
    Leg → Leg → Room → List (List Event) → Prop where
  | stays (leg : Leg) (h : leg ≠ .fresh) : Look task canceled room leg leg room []
  | ends (outcome : Outcome) : Look task canceled room .fresh (.done outcome) room []
  | leaves (selected : List Event) (deadline : Nat) (outcome : Outcome) :
      Look task canceled room (.waiting selected deadline) (.done outcome)
        { room with places := (room.places.leave task).1 } []
  | waits (selected : List Event) (deadline : Nat) (hfull : room.places.free = 0) :
      Look task canceled room .fresh (.waiting selected deadline)
        { room with places := room.places.wait task } []
  | putsAtOnce {places : Semaphore TaskId} (selected : List Event) (hcanceled : canceled = false)
      (hopen : room.closed = false) (hplace : room.places.take? = some places) :
      Look task canceled room .fresh (.done (.delivered selected.length))
        { room with queue := room.queue ++ [selected], places } [selected]
  | putsAfterWait (selected : List Event) (deadline : Nat) (hcanceled : canceled = false)
      (hopen : room.closed = false) (hkept : room.places.isGranted task = true) :
      Look task canceled room (.waiting selected deadline) (.done (.delivered selected.length))
        { room with queue := room.queue ++ [selected], places := room.places.redeem task } [selected]

namespace Ledger

/-- A look at a delivery of a task, and what it does to the ledger. -/
inductive Looked (l : Ledger) (task : TaskId) (id : ConsumerId) (origin : Origin) (leg : Leg) :
    Leg → Ledger → Prop where
  | ended (outcome : Outcome) (h : leg = .done outcome) : Looked l task id origin leg leg l
  | without (outcome : Outcome) (h : l.room id = none) :
      Looked l task id origin leg (.done outcome) l
  | within {room leg' room' put} (h : l.room id = some room)
      (hlook : Look task (l.isCanceled id) room leg leg' room' put) :
      Looked l task id origin leg leg' ((l.setRoom id room').note (put.map (.queued id · origin)))

end Ledger

/-- What calls, and the readers of feeds, do. -/
inductive CallChange : Ledger → Ledger → Prop where
  | send {l command} (h : l.coordinator.isGone = false)
      (hcommand : ∀ id query, command ≠ .subscribe id query) :
      CallChange l (l.setCommands (l.commands ++ [command]))
  | subscribe {l id query} (h : l.coordinator.isGone = false) (places : Nat) :
      CallChange l
        ((l.setCommands (l.commands ++ [.subscribe id query])).openRoom id
          (Feed.ofPlaces places).room)
  | receive {l id batch queue places closed}
      (h : l.room id = some ⟨batch :: queue, places, closed⟩) :
      CallChange l (l.setRoom id ⟨queue, places.release.1, closed⟩)
  | close {l id room} (h : l.room id = some room) :
      CallChange l (l.setRoom id { room with closed := true, queue := [] })
  | cancel {l} : CallChange l { l with isCanceled := fun _ => true }

/-- What the coordinator does. -/
inductive CoordinatorChange : Ledger → Ledger → Prop where
  | start {l} (h : l.coordinator = .idle) : CoordinatorChange l (l.setCoordinator .starting)
  | begin {l} (h : l.coordinator = .starting) : CoordinatorChange l (l.setCoordinator .receiving)
  | discard {l} (h : l.coordinator = .idle) :
      CoordinatorChange l ((l.setCommands []).setCoordinator .absent)
  | stop {l} (h : l.coordinator = .receiving) (result : Except BusError Unit) :
      CoordinatorChange l (l.stop result)
  | publish {l batch rest} (h : l.coordinator = .receiving)
      (hcommands : l.commands = .publish batch :: rest) :
      CoordinatorChange l ((l.setCommands rest).note [.took (.publish batch)])
  | known {l id query rest} (h : l.coordinator = .receiving)
      (hcommands : l.commands = .subscribe id query :: rest)
      (hregistered : l.isRegistered id = true) :
      CoordinatorChange l ((l.setCommands rest).note [.took (.subscribe id query)])
  | enroll {l id query rest consumer} (h : l.coordinator = .receiving)
      (hcommands : l.commands = .subscribe id query :: rest) (hid : consumer.id = id) :
      CoordinatorChange l
        (((l.setCommands rest).note [.took (.subscribe id query)]).setRegistry
          (insertConsumer consumer l.registry))
  | expel {l id rest} (h : l.coordinator = .receiving)
      (hcommands : l.commands = .unsubscribe id :: rest) (hregistered : l.isRegistered id = true) :
      CoordinatorChange l (((l.setCommands rest).note [.took (.unsubscribe id)]).expel id)
  | ignore {l id rest} (h : l.coordinator = .receiving)
      (hcommands : l.commands = .unsubscribe id :: rest) (hnot : l.isRegistered id = false) :
      CoordinatorChange l ((l.setCommands rest).note [.took (.unsubscribe id)])
  | prune {l id} (h : l.coordinator = .receiving) (hroom : (l.room id).isSome = true) :
      CoordinatorChange l ((l.expel id).note [.pruned id])
  | ask {l : Ledger} {job : Job} (deadline : Nat) (h : l.coordinator = .receiving)
      (hheld : ∀ consumer ∈ job.consumers, l.isRegistered consumer.id = true)
      (hnone : l.pool.tokens.free = 0) :
      CoordinatorChange l
        ((l.setPool { l.pool with tokens := l.pool.tokens.wait () }).setCoordinator
          (.acquiring job deadline))
  | launch {l : Ledger} {job : Job} {tokens : Semaphore Unit} (h : l.coordinator = .receiving)
      (hheld : ∀ consumer ∈ job.consumers, l.isRegistered consumer.id = true)
      (htoken : l.pool.tokens.take? = some tokens) :
      CoordinatorChange l ((l.setPool { l.pool with tokens }).spawn job.task)
  | redeem {l job deadline} (h : l.coordinator = .acquiring job deadline)
      (hkept : l.pool.tokens.isGranted () = true) :
      CoordinatorChange l
        (((l.setPool { l.pool with tokens := l.pool.tokens.redeem () }).setCoordinator
          .receiving).spawn job.task)
  | desist {l job deadline} (h : l.coordinator = .acquiring job deadline) :
      CoordinatorChange l ((l.setPool (l.pool.leave ()).1).setCoordinator .receiving)

/-- What background tasks and the streams of their replays do. -/
inductive TaskChange : Ledger → Ledger → Prop where
  | look {l task held held' consumer origin leg leg' l'} (h : l.tasks.lookup task = some held)
      (hturn : held.Turns held' consumer leg leg')
      (hlook : l.Looked task consumer.id origin leg leg' l') :
      TaskChange l (l'.setTask task held')
  | proceed {l task held held'} (h : l.tasks.lookup task = some held)
      (hnext : held.Proceeds held') : TaskChange l (l.setTask task held')
  | finish {l task held} (h : l.tasks.lookup task = some held)
      (hdone : ∀ id, waitsFor held.legs id = 0) : TaskChange l (l.endTask task)

inductive Change : Ledger → Ledger → Prop where
  | report {l notices} (h : ∀ notice ∈ notices, notice.isQuiet = true) :
      Change l (l.note notices)
  | call {l l'} (change : CallChange l l') : Change l l'
  | coordinate {l l'} (change : CoordinatorChange l l') : Change l l'
  | work {l l'} (change : TaskChange l l') : Change l l'

inductive Changes : Ledger → Ledger → Prop where
  | refl (l : Ledger) : Changes l l
  | tail {first middle last} (changes : Changes first middle) (change : Change middle last) :
      Changes first last

namespace Changes

variable {l l₁ l₂ l₃ : Ledger}

theorem single (change : Change l₁ l₂) : Changes l₁ l₂ := .tail (.refl l₁) change

theorem call (change : CallChange l₁ l₂) : Changes l₁ l₂ := single (.call change)

theorem coordinate (change : CoordinatorChange l₁ l₂) : Changes l₁ l₂ := single (.coordinate change)

theorem work (change : TaskChange l₁ l₂) : Changes l₁ l₂ := single (.work change)

theorem of_eq (h : l₂ = l₁) : Changes l₁ l₂ := h ▸ .refl l₁

theorem report (l : Ledger) {notices : List Notice}
    (h : ∀ notice ∈ notices, notice.isQuiet = true) : Changes l (l.note notices) :=
  single (.report h)

theorem trans (first : Changes l₁ l₂) (second : Changes l₂ l₃) : Changes l₁ l₃ := by
  induction second with
  | refl => exact first
  | tail _ change ih => exact .tail ih change

/-- What each change preserves holds after many. -/
theorem invariant {P : Ledger → Prop} (changes : Changes l₁ l₂) (first : P l₁)
    (step : ∀ {l l'}, P l → Change l l' → P l') : P l₂ := by
  induction changes with
  | refl => exact first
  | tail _ change ih => exact step ih change

end Changes

end EventBus.Bus
