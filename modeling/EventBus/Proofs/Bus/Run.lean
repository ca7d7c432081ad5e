import EventBus.Bus.Calls

/-!
Runs of a bus under any scheduling. A state of a run is a bus with the calls that have not
returned yet. A step is what one party does between two points at which it could be
suspended: a call gets its command into the queue or is given up, the coordinator takes one
command, a delivery is looked at once, the store changes, time goes by. Nothing says which
party comes next, so what holds of all runs holds whatever the order of turns.

Taking a publish, writing it and acting on the answer are one step, made when the answer
comes; the time of the write lies before the step, and the command is still in the queue
then. The queue is therefore not bounded here, which only adds runs. The answers of the
store are those of an arbitrary instance, and the store may change between any two calls.
-/

namespace EventBus.Bus

/-- A call to a handle that has not returned. A call to subscribe has its number already. -/
inductive Call where
  | publish (batch : List Event)
  | subscribe (id : ConsumerId) (query : Query) (places : Nat)
  | unsubscribe (id : ConsumerId)

namespace Call

def command : Call → Command
  | .publish batch => .publish batch
  | .subscribe id query _ => .subscribe id query
  | .unsubscribe id => .unsubscribe id

def number? : Call → Option ConsumerId
  | .subscribe id _ _ => some id
  | _ => none

end Call

/-- What is recorded of a run: what the outside sees, what the store answers, and what the
bus reports. -/
inductive Mark where
  /-- A call to subscribe took a number. -/
  | numbered (id : ConsumerId)
  /-- A call returned without an error: its command is in the queue. -/
  | sent (command : Command)
  /-- The subscription was dropped. -/
  | gone (id : ConsumerId)
  | received (id : ConsumerId) (batch : List Event)
  /-- What the store answered to the write of a publish. -/
  | wrote (batch : List Event) (result : Except StoreError Unit)
  /-- The stream of the replay to a consumer yielded a batch. -/
  | yielded (id : ConsumerId) (batch : List Event)
  /-- The delivery of a publish to a consumer was looked at for the first time. -/
  | attempted (publish : Nat) (id : ConsumerId)
  | noted (notice : Notice)

structure World (σ : Type) where
  bus : Bus σ
  calls : List Call

section Steps

variable {σ : Type}

/-- The command of a call enters the queue, and a subscription gets its feed. -/
def enter (bus : Bus σ) (call : Call) : Bus σ :=
  match call with
  | .subscribe id _ places => (bus.enqueue call.command).openFeed id places
  | _ => bus.enqueue call.command

/-- The bus once a command has been handled, or waits for a token. -/
def Handled.land : Handled σ → Bus σ
  | .next bus => bus
  | .waits bus => bus
  | .failed error bus => bus.stop (.error error)

def written (bus : Bus σ) [Store σ] : Command → List Mark
  | .publish batch =>
      match bus.store? with
      | none => []
      | some store => [.wrote batch (Store.write bus.canceled batch store).result]
  | _ => []

def yields (id : ConsumerId) : Except StoreError Stream → List Mark
  | .ok stream => stream.batches.map (.yielded id)
  | .error _ => []

def attempt (publish : Nat) (id : ConsumerId) : Leg → List Mark
  | .fresh => [.attempted publish id]
  | _ => []

namespace ReplayPhase

/-- What is left of the stream, once there is one. -/
def stream? : ReplayPhase → Option Stream
  | .starting => none
  | .taking rest _ => some rest
  | .sending _ _ rest _ => some rest

def setStream (stream : Stream) : ReplayPhase → ReplayPhase
  | .starting => .starting
  | .taking _ sent => .taking stream sent
  | .sending selected deadline _ sent => .sending selected deadline stream sent

end ReplayPhase

/-- One step of a run, with what is recorded of it besides the reports of the bus. -/
inductive Step [Store σ] : World σ → List Mark → World σ → Prop where
  | call {bus calls} (call : Call) (h : call.number? = none) :
      Step ⟨bus, calls⟩ [] ⟨bus, calls ++ [call]⟩
  | subscribe {bus calls} (query : Query) (places : Nat) :
      Step ⟨bus, calls⟩ [.numbered bus.nextId]
        ⟨{ bus with nextId := bus.nextId + 1 }, calls ++ [.subscribe bus.nextId query places]⟩
  | enter {bus before call after} (h : bus.coordinator.isGone = false) :
      Step ⟨bus, before ++ call :: after⟩ [.sent call.command] ⟨bus.enter call, before ++ after⟩
  /-- The call returns an error, or its caller has no more patience. -/
  | giveUp {bus before call after} : Step ⟨bus, before ++ call :: after⟩ [] ⟨bus, before ++ after⟩
  | receive {bus bus' calls id batch} (h : bus.receive id = (.batch batch, bus')) :
      Step ⟨bus, calls⟩ [.received id batch] ⟨bus', calls⟩
  | close {bus calls id} (h : bus.isSubscribed id = true) :
      Step ⟨bus, calls⟩ [.gone id] ⟨bus.closeFeed id, calls⟩
  | addHandle {bus calls} : Step ⟨bus, calls⟩ [] ⟨bus.addHandle, calls⟩
  | dropHandle {bus calls} : Step ⟨bus, calls⟩ [] ⟨bus.dropHandle, calls⟩
  | start {bus calls} : Step ⟨bus, calls⟩ [] ⟨bus.start, calls⟩
  | dropCoordinator {bus calls} : Step ⟨bus, calls⟩ [] ⟨bus.dropCoordinator, calls⟩
  | cancel {bus calls} : Step ⟨bus, calls⟩ [] ⟨bus.cancel, calls⟩
  | mapStore {bus calls} (f : σ → σ) : Step ⟨bus, calls⟩ [] ⟨bus.mapStore f, calls⟩
  | time {bus calls} (now : Nat) : Step ⟨bus, calls⟩ [] ⟨{ bus with now }, calls⟩
  /-- Someone else adds a line to the log. -/
  | remark {bus calls} (line : String) : Step ⟨bus, calls⟩ [] ⟨bus.note (.remark line), calls⟩
  /-- Who is to have a turn is no matter of a run. -/
  | schedule {bus calls} (ready : List Actor) (timers : List (Nat × Actor)) :
      Step ⟨bus, calls⟩ [] ⟨{ bus with ready, timers }, calls⟩
  | watch {bus calls id feed} (h : bus.feed? id = some feed) (watchers : List TaskId) :
      Step ⟨bus, calls⟩ [] ⟨bus.setFeed id { feed with watchers }, calls⟩
  | begin {bus calls} (h : bus.coordinator = .starting) : Step ⟨bus, calls⟩ [] ⟨bus.begin, calls⟩
  | take {bus calls command rest} (h : bus.coordinator = .receiving)
      (hcommands : bus.commands = command :: rest) :
      Step ⟨bus, calls⟩ (bus.written command) ⟨(bus.take command rest).land, calls⟩
  | interrupt {bus calls} (h : bus.coordinator = .receiving) (hcanceled : bus.canceled = true) :
      Step ⟨bus, calls⟩ [] ⟨bus.stop (.error .canceled), calls⟩
  | runOut {bus calls} (h : bus.coordinator = .receiving) (hcommands : bus.commands = [])
      (hsenders : bus.senders = 0) : Step ⟨bus, calls⟩ [] ⟨bus.stop (.ok ()), calls⟩
  | review {bus calls job deadline} (h : bus.coordinator = .acquiring job deadline) :
      Step ⟨bus, calls⟩ [] ⟨(bus.reviewAcquire job deadline).land, calls⟩
  | deliver {bus calls task publish batch seen consumer leg legs}
      (h : bus.tasks.lookup task = some (.fanOut publish batch (seen ++ (consumer, leg) :: legs))) :
      Step ⟨bus, calls⟩ (attempt publish consumer.id leg)
        ⟨(bus.deliver task publish batch seen consumer leg legs).2, calls⟩
  | report {bus calls task publish batch legs}
      (h : bus.tasks.lookup task = some (.fanOut publish batch legs))
      (hdone : legs.all (·.2.isDone) = true) :
      Step ⟨bus, calls⟩ [] ⟨bus.finishFanOut task publish batch legs, calls⟩
  | read {bus calls task consumer}
      (h : bus.tasks.lookup task = some (.replay consumer .starting)) :
      Step ⟨bus, calls⟩ (yields consumer.id (bus.readHistory task consumer).1)
        ⟨(bus.readHistory task consumer).2, calls⟩
  /-- A stream that is still open yields another batch. -/
  | yield {bus calls task consumer phase stream}
      (h : bus.tasks.lookup task = some (.replay consumer phase))
      (hstream : phase.stream? = some stream) (hopen : stream.ends = false)
      (batch : List Event) :
      Step ⟨bus, calls⟩ [.yielded consumer.id batch]
        ⟨bus.keepReplay task consumer
          (phase.setStream { stream with batches := stream.batches ++ [batch] }), calls⟩
  | hangUp {bus calls task consumer phase stream}
      (h : bus.tasks.lookup task = some (.replay consumer phase))
      (hstream : phase.stream? = some stream) :
      Step ⟨bus, calls⟩ []
        ⟨bus.keepReplay task consumer (phase.setStream { stream with ends := true }), calls⟩
  | send {bus calls task consumer batch batches ends sent}
      (h : bus.tasks.lookup task = some (.replay consumer (.taking ⟨batch :: batches, ends⟩ sent)))
      (hsated : bus.isSated consumer sent = false) :
      Step ⟨bus, calls⟩ [] ⟨(bus.sendBatch task consumer batch ⟨batches, ends⟩ sent).2, calls⟩
  | resend {bus calls task consumer selected deadline rest sent}
      (h : bus.tasks.lookup task = some (.replay consumer (.sending selected deadline rest sent))) :
      Step ⟨bus, calls⟩ []
        ⟨(bus.resendBatch task consumer selected deadline rest sent).2, calls⟩
  | quit {bus calls task consumer rest sent}
      (h : bus.tasks.lookup task = some (.replay consumer (.taking rest sent)))
      (hover : bus.isSated consumer sent = true ∨ rest = ⟨[], true⟩) :
      Step ⟨bus, calls⟩ [] ⟨bus.finishReplay task consumer sent, calls⟩

/-- What a bus reported on the way from one state to a later one. -/
def news (earlier later : Bus σ) : List Mark :=
  (later.history.drop earlier.history.length).map .noted

theorem news_of_history_eq {bus bus' : Bus σ} (h : bus'.history = bus.history) :
    news bus bus' = [] := by
  rw [news, h, List.drop_length]
  rfl

inductive Steps [Store σ] : World σ → List Mark → World σ → Prop where
  | refl (world : World σ) : Steps world [] world
  | tail {first trace middle marks last} (run : Steps first trace middle)
      (step : Step middle marks last) :
      Steps first (trace ++ marks ++ news middle.bus last.bus) last

/-- A run of a new bus, up to any point of it. -/
def Run [Store σ] (settings : Settings) (store? : Option σ) (trace : List Mark)
    (world : World σ) : Prop :=
  Steps ⟨create settings store?, []⟩ trace world

end Steps

end EventBus.Bus
