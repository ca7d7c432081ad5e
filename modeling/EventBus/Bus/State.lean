import EventBus.Bus.Feed
import EventBus.Pool.Basic

/-!
The whole state of a bus: handles, the queue of commands, the coordinator that takes them
one at a time, the registry of consumers, their feeds, the pool of workers, background
tasks, and the order in which tasks that can go on will do so. Nothing here runs by itself;
the other modules say what each task does when its turn comes.
-/

namespace EventBus.Bus

/-- How a bus is tuned. Times are in milliseconds. -/
structure Settings where
  workers : Nat
  maxReplay : Nat
  consumerTimeout : Nat
  workersTimeout : Nat
  deriving Repr

inductive ReplayPhase where
  | starting
  /-- Between two batches; when none is there, the stream may still yield one. -/
  | taking (rest : Stream) (sent : Nat)
  /-- A delivery waits for a place in the feed; the rest of the stream comes after it. -/
  | sending (selected : List Event) (deadline : Nat) (rest : Stream) (sent : Nat)

inductive Task where
  | fanOut (publish : Nat) (batch : List Event) (legs : List (Consumer × Leg))
  | replay (consumer : Consumer) (phase : ReplayPhase)

/-- The consumers that a task holds on to until it ends. -/
def Task.consumers : Task → List Consumer
  | .fanOut _ _ legs => legs.map (·.1)
  | .replay consumer _ => [consumer]

inductive Job where
  | fanOut (publish : Nat) (batch : List Event) (targets : List Consumer)
  | replay (consumer : Consumer)

namespace Job

def name : Job → String
  | .fanOut .. => "fan-out"
  | .replay _ => "replay"

def consumers : Job → List Consumer
  | .fanOut _ _ targets => targets
  | .replay consumer => [consumer]

def task : Job → Task
  | .fanOut publish batch targets => .fanOut publish batch (targets.map fun c => (c, .fresh))
  | .replay consumer => .replay consumer .starting

end Job

inductive Coordinator where
  /-- It was made and never started. -/
  | idle
  /-- It has been started and has not had its first turn. -/
  | starting
  | receiving
  | acquiring (job : Job) (deadline : Nat)
  | stopped (result : Except BusError Unit)
  /-- It was dropped without having been started. -/
  | absent

def Coordinator.isGone : Coordinator → Bool
  | .stopped _ => true
  | .absent => true
  | _ => false

inductive Actor where
  | coordinator
  | task (id : TaskId)
  deriving DecidableEq, Repr

end Bus

structure Bus (σ : Type) where
  settings : Bus.Settings
  store? : Option σ
  now : Nat
  /-- Handles that can publish and subscribe. -/
  handles : Nat
  nextId : Bus.ConsumerId
  canceled : Bool
  commands : List Bus.Command
  coordinator : Bus.Coordinator
  /-- How many publishes have been taken from the queue. -/
  publishes : Nat
  registry : List Bus.Consumer
  /-- Consumers to be told when the bus is cancelled, in the order in which they are kept. -/
  audience : List Bus.ConsumerId
  feeds : List (Bus.ConsumerId × Bus.Feed)
  pool : Pool Unit
  tasks : List (Bus.TaskId × Bus.Task)
  nextTask : Bus.TaskId
  /-- Those who can act, in the order of their turns. -/
  ready : List Bus.Actor
  /-- Deadlines in the order in which they were set, with who is woken by them. -/
  timers : List (Nat × Bus.Actor)
  history : List Bus.Notice

namespace Bus

variable {σ : Type}

def commandPlaces : Nat := 64

def create (settings : Settings) (store? : Option σ) : Bus σ where
  settings := settings
  store? := store?
  now := 0
  handles := 1
  nextId := 1
  canceled := false
  commands := []
  coordinator := .idle
  publishes := 0
  registry := []
  audience := []
  feeds := []
  pool := .ofSize settings.workers
  tasks := []
  nextTask := 0
  ready := []
  timers := []
  history := []

def note (bus : Bus σ) (notice : Notice) : Bus σ :=
  { bus with history := bus.history ++ [notice] }

def noteAll (bus : Bus σ) (notices : List Notice) : Bus σ :=
  { bus with history := bus.history ++ notices }

/-- Give an actor a turn, unless it is about to have one. -/
def wake (bus : Bus σ) (actor : Actor) : Bus σ :=
  if bus.ready.contains actor then bus else { bus with ready := bus.ready ++ [actor] }

def wakeTasks (bus : Bus σ) (tasks : List TaskId) : Bus σ :=
  tasks.foldl (fun bus task => bus.wake (.task task)) bus

/-- The coordinator waits for something that cancelling the bus puts an end to. -/
def Coordinator.isWaiting : Coordinator → Bool
  | .receiving => true
  | .acquiring .. => true
  | _ => false

def wakeReceiver (bus : Bus σ) : Bus σ :=
  match bus.coordinator with
  | .receiving => bus.wake .coordinator
  | _ => bus

def feed? (bus : Bus σ) (id : ConsumerId) : Option Feed := bus.feeds.lookup id

def setFeed (bus : Bus σ) (id : ConsumerId) (feed : Feed) : Bus σ :=
  { bus with feeds := bus.feeds.map fun entry => if entry.1 = id then (id, feed) else entry }

/-- The consumer has been cancelled, by itself or with the bus. -/
def isCanceled (bus : Bus σ) (id : ConsumerId) : Bool :=
  bus.canceled || (bus.feed? id).any (·.canceled)

def isRegistered (bus : Bus σ) (id : ConsumerId) : Bool := bus.registry.any (·.id == id)

def pendingJob? (bus : Bus σ) : Option Job :=
  match bus.coordinator with
  | .acquiring job _ => some job
  | _ => none

/-- The registry, a task or the coordinator still holds the consumer. -/
def isHeld (bus : Bus σ) (id : ConsumerId) : Bool :=
  bus.isRegistered id
    || bus.tasks.any (fun entry => entry.2.consumers.any (·.id == id))
    || (bus.pendingJob?).any (fun job => job.consumers.any (·.id == id))

def isQueued (bus : Bus σ) (id : ConsumerId) : Bool :=
  bus.commands.any fun
    | .subscribe other _ => other == id
    | _ => false

/-- Someone could still put a batch into the feed of the consumer. -/
def hasSender (bus : Bus σ) (id : ConsumerId) : Bool := bus.isHeld id || bus.isQueued id

/-- How many handles and subscriptions could still send a command. -/
def senders (bus : Bus σ) : Nat :=
  bus.handles + (bus.feeds.filter fun entry => !entry.2.closed).length

def setTimer (bus : Bus σ) (deadline : Nat) (actor : Actor) : Bus σ :=
  { bus with timers := bus.timers ++ [(deadline, actor)] }

def clearTimer (bus : Bus σ) (deadline : Nat) (actor : Actor) : Bus σ :=
  { bus with timers := bus.timers.erase (deadline, actor) }

def cancelConsumer (bus : Bus σ) (id : ConsumerId) : Bus σ :=
  if bus.isCanceled id then bus
  else match bus.feed? id with
    | none => bus
    | some feed => (bus.setFeed id { feed with canceled := true }).wakeTasks feed.watchers

/-- Take an element out of a list and put the last one in its place. -/
def swapOut (id : ConsumerId) (ids : List ConsumerId) : List ConsumerId :=
  match ids.getLast? with
  | none => []
  | some last =>
      if last = id then ids.dropLast
      else ids.dropLast.map fun other => if other = id then last else other

def letGo (bus : Bus σ) (id : ConsumerId) : Bus σ :=
  if bus.isHeld id || !bus.audience.contains id then bus
  else { bus with audience := swapOut id bus.audience }

def letGoAll (bus : Bus σ) (consumers : List Consumer) : Bus σ :=
  consumers.foldl (fun bus consumer => bus.letGo consumer.id) bus

def setTask (bus : Bus σ) (id : TaskId) (task : Task) : Bus σ :=
  { bus with tasks := bus.tasks.map fun entry => if entry.1 = id then (id, task) else entry }

def spawn (bus : Bus σ) (task : Task) : Bus σ :=
  { bus with
    tasks := bus.tasks ++ [(bus.nextTask, task)]
    nextTask := bus.nextTask + 1 }.wake (.task bus.nextTask)

/-- Give a worker token back; the coordinator gets a turn if it is kept for it. -/
def releaseToken (bus : Bus σ) : Bus σ :=
  let (pool, next) := bus.pool.release
  match next with
  | some () => { bus with pool }.wake .coordinator
  | none => { bus with pool }

/-- End a task: it lets go of its consumers and then gives its token back. -/
def finish (bus : Bus σ) (id : TaskId) (task : Task) : Bus σ :=
  ({ bus with tasks := bus.tasks.filter (·.1 != id) }.letGoAll task.consumers).releaseToken

end Bus

end EventBus
