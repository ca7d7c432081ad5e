import EventBus.Proofs.Bus.Settled

/-!
What decides how long the coordinator waits and what it finds in the store: the time, how the bus
is tuned, the store, what the coordinator is at, and the commands that are still to be taken. Tasks
and the readers of feeds leave all of it alone, except that a replay reads the store. The
coordinator begins to wait for a token only where it takes a command, and the deadline that it sets
itself then is the timeout of the workers away. It calls the store only for a publish.
-/

namespace EventBus.Bus

structure Agenda (σ : Type) where
  now : Nat
  settings : Settings
  store? : Option σ
  coordinator : Coordinator
  commands : List Command

variable {σ : Type}

def agenda (bus : Bus σ) : Agenda σ :=
  ⟨bus.now, bus.settings, bus.store?, bus.coordinator, bus.commands⟩

variable {bus : Bus σ}

section Unseen

/-! What leaves the agenda as it is. -/

theorem agenda_foldl {α : Type} {f : Bus σ → α → Bus σ}
    (h : ∀ bus a, (f bus a).agenda = bus.agenda) (as : List α) (bus : Bus σ) :
    (as.foldl f bus).agenda = bus.agenda := by
  induction as generalizing bus with
  | nil => rfl
  | cons a as ih => rw [List.foldl_cons, ih, h]

@[simp] theorem agenda_wake (actor : Actor) : (bus.wake actor).agenda = bus.agenda := by
  unfold wake
  split <;> rfl

@[simp] theorem agenda_wakeTasks (tasks : List TaskId) :
    (bus.wakeTasks tasks).agenda = bus.agenda :=
  agenda_foldl (fun _ _ => agenda_wake _) tasks bus

@[simp] theorem agenda_wakeIf (task? : Option TaskId) :
    (bus.wakeIf task?).agenda = bus.agenda := by
  cases task? <;> simp [wakeIf]

@[simp] theorem agenda_wakeReceiver : bus.wakeReceiver.agenda = bus.agenda := by
  unfold wakeReceiver
  split <;> simp

@[simp] theorem agenda_setTimer (deadline : Nat) (actor : Actor) :
    (bus.setTimer deadline actor).agenda = bus.agenda := rfl

@[simp] theorem agenda_clearTimer (deadline : Nat) (actor : Actor) :
    (bus.clearTimer deadline actor).agenda = bus.agenda := rfl

@[simp] theorem agenda_note (notice : Notice) : (bus.note notice).agenda = bus.agenda := rfl

@[simp] theorem agenda_noteAll (notices : List Notice) :
    (bus.noteAll notices).agenda = bus.agenda := rfl

@[simp] theorem agenda_setFeed (id : ConsumerId) (feed : Feed) :
    (bus.setFeed id feed).agenda = bus.agenda := rfl

@[simp] theorem agenda_setTask (id : TaskId) (task : Task) :
    (bus.setTask id task).agenda = bus.agenda := rfl

@[simp] theorem agenda_letGo (id : ConsumerId) : (bus.letGo id).agenda = bus.agenda := by
  unfold letGo
  split <;> rfl

@[simp] theorem agenda_letGoAll (consumers : List Consumer) :
    (bus.letGoAll consumers).agenda = bus.agenda :=
  agenda_foldl (fun _ _ => agenda_letGo _) consumers bus

@[simp] theorem agenda_cancelConsumer (id : ConsumerId) :
    (bus.cancelConsumer id).agenda = bus.agenda := by
  unfold cancelConsumer
  split
  · rfl
  · split <;> simp

@[simp] theorem agenda_releaseToken : bus.releaseToken.agenda = bus.agenda := by
  unfold releaseToken
  dsimp only
  split
  · exact agenda_wake _
  · rfl

@[simp] theorem agenda_spawn (task : Task) : (bus.spawn task).agenda = bus.agenda := by
  unfold spawn
  exact agenda_wake _

@[simp] theorem agenda_finish (id : TaskId) (task : Task) :
    (bus.finish id task).agenda = bus.agenda := by
  unfold finish
  rw [agenda_releaseToken, agenda_letGoAll]
  rfl

@[simp] theorem agenda_dropHandle : bus.dropHandle.agenda = bus.agenda := by
  unfold dropHandle
  dsimp only
  split
  · exact agenda_wakeReceiver
  · rfl

@[simp] theorem agenda_cancel : bus.cancel.agenda = bus.agenda := by
  have hcanceled : ({ bus with canceled := true }.wakeTasks bus.canceledTasks).agenda = bus.agenda :=
    agenda_wakeTasks _
  unfold cancel
  dsimp only
  split
  · rfl
  · split
    · rw [agenda_wake, hcanceled]
    · exact hcanceled

@[simp] theorem agenda_closeFeed (id : ConsumerId) : (bus.closeFeed id).agenda = bus.agenda := by
  unfold closeFeed
  split
  · rfl
  · dsimp only
    split <;> simp

theorem agenda_receive (id : ConsumerId) : (bus.receive id).2.agenda = bus.agenda := by
  unfold receive
  split
  · rfl
  · split
    · simp
    · rfl

end Unseen

section Tasks

variable {task : TaskId} {consumer : Consumer}

theorem agenda_recordLeg (id : ConsumerId) (selected : List Event) (origin : Origin) (leg : Leg) :
    (bus.recordLeg id selected origin leg).agenda = bus.agenda := by
  unfold recordLeg
  split <;> rfl

theorem agenda_beginLeg (origin : Origin) (batch : List Event) :
    (bus.beginLeg task consumer origin batch).2.agenda = bus.agenda := by
  unfold beginLeg
  split
  · rfl
  · dsimp only
    split <;> simp [agenda_recordLeg]

theorem agenda_reviewLeg (origin : Origin) (selected : List Event) (deadline : Nat) :
    (bus.reviewLeg task consumer origin selected deadline).2.agenda = bus.agenda := by
  unfold reviewLeg
  split
  · rfl
  · dsimp only
    split <;> simp [agenda_recordLeg]

theorem agenda_advanceLeg (origin : Origin) (batch : List Event) (leg : Leg) :
    (bus.advanceLeg task consumer origin batch leg).2.agenda = bus.agenda := by
  cases leg with
  | fresh => exact agenda_beginLeg origin batch
  | waiting selected deadline => exact agenda_reviewLeg origin selected deadline
  | done _ => rfl

theorem agenda_deliver (publish : Nat) (batch : List Event) (seen : List (Consumer × Leg))
    (leg : Leg) (legs : List (Consumer × Leg)) :
    (bus.deliver task publish batch seen consumer leg legs).2.agenda = bus.agenda := by
  unfold deliver
  exact agenda_advanceLeg _ batch leg

theorem agenda_finishReplay (sent : Nat) :
    (bus.finishReplay task consumer sent).agenda = bus.agenda := by
  unfold finishReplay
  rw [agenda_finish, agenda_note]

theorem agenda_settleLeg (rest : Stream) (sent : Nat) (leg : Leg) :
    (bus.settleLeg task consumer rest sent leg).agenda = bus.agenda := by
  unfold settleLeg
  split <;> simp [keepReplay, agenda_finishReplay]

theorem agenda_sendBatch (batch : List Event) (rest : Stream) (sent : Nat) :
    (bus.sendBatch task consumer batch rest sent).2.agenda = bus.agenda := by
  unfold sendBatch
  exact (agenda_settleLeg rest sent _).trans (agenda_beginLeg _ _)

theorem agenda_resendBatch (selected : List Event) (deadline : Nat) (rest : Stream) (sent : Nat) :
    (bus.resendBatch task consumer selected deadline rest sent).2.agenda = bus.agenda := by
  have hreview := @agenda_reviewLeg σ bus task consumer .replay selected deadline
  unfold resendBatch
  split
  next h =>
    rw [h] at hreview
    exact (agenda_settleLeg rest sent _).trans hreview
  next h =>
    rw [h] at hreview
    exact hreview

theorem agenda_openStream (answer : Except StoreError Stream) :
    (bus.openStream task consumer answer).agenda = bus.agenda := by
  unfold openStream
  split <;> simp [keepReplay]

/-- The store once a replay to the consumer has read it. -/
def storeRead [Store σ] (bus : Bus σ) (consumer : Consumer) : Option σ :=
  bus.store?.map fun store => (Store.read (bus.isCanceled consumer.id) consumer.query store).store

theorem agenda_readHistory [Store σ] :
    (bus.readHistory task consumer).2.agenda
      = { bus.agenda with store? := bus.storeRead consumer } := by
  unfold readHistory storeRead
  split
  next hnone =>
    rw [agenda_openStream, hnone, Option.map_none, ← hnone]
    rfl
  next store hstore =>
    rw [agenda_openStream, agenda_noteAll, hstore]
    rfl

end Tasks

section Coordinator

variable {agenda agenda' : Agenda σ} {job : Job} {deadline : Nat}

namespace Agenda

def stop (agenda : Agenda σ) (result : Except BusError Unit) : Agenda σ :=
  { agenda with coordinator := .stopped result, commands := [] }

/-- The coordinator begins to wait for a token. -/
def ask (agenda : Agenda σ) (job : Job) : Agenda σ :=
  { agenda with coordinator := .acquiring job (agenda.now + agenda.settings.workersTimeout) }

/-- Once it is known whether there is a token: the coordinator goes on, or ends. -/
inductive Concludes (agenda : Agenda σ) : Agenda σ → Prop where
  | goesOn : Concludes agenda agenda
  | stops (result : Except BusError Unit) : Concludes agenda (agenda.stop result)

/-- What becomes of the agenda once a command has been taken. -/
inductive Handles (agenda : Agenda σ) : Agenda σ → Prop where
  | concludes {agenda' : Agenda σ} (h : Concludes agenda agenda') : Handles agenda agenda'
  | asks (job : Job) : Handles agenda (agenda.ask job)

end Agenda

theorem Agenda.Handles.commands (h : agenda.Handles agenda') :
    agenda'.commands = agenda.commands ∨ agenda'.commands = [] := by
  cases h with
  | concludes h =>
    cases h with
    | goesOn => exact Or.inl rfl
    | stops _ => exact Or.inr rfl
  | asks _ => exact Or.inl rfl

theorem Agenda.Handles.store? (h : agenda.Handles agenda') : agenda'.store? = agenda.store? := by
  cases h with
  | concludes h => cases h <;> rfl
  | asks _ => rfl

theorem agenda_stop (result : Except BusError Unit) :
    (bus.stop result).agenda = bus.agenda.stop result := by
  let canceled := bus.registry.foldl (fun bus consumer => bus.cancelConsumer consumer.id) bus
  have hcanceled : canceled.agenda = bus.agenda :=
    agenda_foldl (fun _ _ => agenda_cancelConsumer _) bus.registry bus
  have hcleared : ({ canceled with registry := [] }.letGoAll bus.registry).agenda = bus.agenda :=
    (agenda_letGoAll _).trans hcanceled
  exact congrArg (Agenda.stop · result) hcleared

theorem agenda_conclude (job : Job) (acquired : Acquired) :
    bus.agenda.Concludes (bus.conclude job acquired).land.agenda := by
  cases acquired with
  | token =>
    change bus.agenda.Concludes (bus.spawn job.task).agenda
    rw [agenda_spawn]
    exact .goesOn
  | waiting => exact .goesOn
  | timedOut =>
    change bus.agenda.Concludes ((bus.letGoAll job.consumers).note _).agenda
    rw [agenda_note, agenda_letGoAll]
    exact .goesOn
  | canceled =>
    cases job with
    | fanOut publish batch targets =>
      change bus.agenda.Concludes ((bus.letGoAll targets).stop (.error .canceled)).agenda
      rw [agenda_stop, agenda_letGoAll]
      exact .stops _
    | replay consumer =>
      change bus.agenda.Concludes (bus.letGoAll _).agenda
      rw [agenda_letGoAll]
      exact .goesOn

theorem agenda_acquire (h : bus.agenda = agenda) (job : Job) :
    agenda.Handles (bus.acquire job).land.agenda := by
  subst h
  unfold acquire
  split
  next => exact .asks job
  next acquired pool _ _ =>
    have hsame : ({ bus with pool } : Bus σ).agenda = bus.agenda := rfl
    have hconcluded := @agenda_conclude σ { bus with pool } job acquired
    rw [hsame] at hconcluded
    exact .concludes hconcluded

theorem agenda_pruneEach (consumers : List Consumer) :
    (bus.pruneEach consumers).agenda = bus.agenda := by
  induction consumers generalizing bus with
  | nil => rfl
  | cons consumer rest ih =>
    unfold pruneEach
    split
    · rw [ih, agenda_letGo, agenda_note]
      exact agenda_cancelConsumer consumer.id
    · exact ih

theorem agenda_fanOut (h : bus.agenda = agenda) (publish : Nat) (batch : List Event) :
    agenda.Handles (bus.fanOut publish batch).land.agenda := by
  have hpruned : bus.prune.agenda = agenda := (agenda_pruneEach bus.registry).trans h
  unfold fanOut
  dsimp only
  split
  · exact hpruned ▸ .concludes .goesOn
  · exact agenda_acquire hpruned _

/-- The store once the coordinator has taken the command: a publish is written. -/
def storeTaken [Store σ] (bus : Bus σ) : Command → Option σ
  | .publish batch => bus.store?.map fun store => (Store.write bus.canceled batch store).store
  | _ => bus.store?

theorem agenda_handlePublish [Store σ] (batch : List Event) :
    { bus.agenda with store? := bus.storeTaken (.publish batch) }.Handles
      (bus.handlePublish batch).land.agenda := by
  unfold handlePublish storeTaken
  dsimp only
  split
  next hnone =>
    apply agenda_fanOut
    rw [hnone, Option.map_none, ← hnone]
    rfl
  next store hstore =>
    rw [hstore]
    split
    · apply agenda_fanOut
      rfl
    · rw [Handled.land, agenda_stop]
      exact .concludes (.stops _)

theorem agenda_handleSubscribe (id : ConsumerId) (query : Query) :
    bus.agenda.Handles (bus.handleSubscribe id query).land.agenda := by
  unfold handleSubscribe
  split
  · exact .concludes .goesOn
  · dsimp only
    split
    · exact .concludes .goesOn
    · apply agenda_acquire
      rfl

theorem agenda_handleUnsubscribe (id : ConsumerId) :
    (bus.handleUnsubscribe id).land.agenda = bus.agenda := by
  unfold handleUnsubscribe
  split
  · rw [Handled.land, agenda_letGo, agenda_note, agenda_cancelConsumer]
    rfl
  · rfl

/-- The next command is taken, and what follows from it is between the coordinator and the pool. -/
theorem agenda_take [Store σ] (command : Command) (rest : List Command) :
    { bus.agenda with commands := rest, store? := bus.storeTaken command }.Handles
      (bus.take command rest).land.agenda := by
  let taken := { bus with commands := rest }.note (.took command)
  change { taken.agenda with store? := taken.storeTaken command }.Handles
    (taken.handle command).land.agenda
  cases command with
  | publish batch => exact agenda_handlePublish batch
  | subscribe id query => exact agenda_handleSubscribe id query
  | unsubscribe id =>
    have hsame : (taken.handle (.unsubscribe id)).land.agenda = taken.agenda :=
      agenda_handleUnsubscribe id
    rw [hsame]
    exact .concludes .goesOn

/-- The coordinator waits on, or it is over with the wait and does not begin another. -/
theorem agenda_review (job : Job) (deadline : Nat) :
    (bus.reviewAcquire job deadline).land = bus ∨
      { bus.agenda with coordinator := .receiving }.Concludes
        (bus.reviewAcquire job deadline).land.agenda := by
  unfold reviewAcquire
  split
  next => exact Or.inl rfl
  next acquired pool next? _ _ =>
    let freed : Bus σ :=
      { bus with pool, coordinator := .receiving }.clearTimer deadline .coordinator
    have hconcluded : freed.agenda.Concludes (freed.conclude job acquired).land.agenda :=
      agenda_conclude job acquired
    exact Or.inr hconcluded

end Coordinator

section Steps

/-- What a step can do to the agenda. -/
inductive Agenda.Moves (agenda : Agenda σ) : Agenda σ → Prop where
  | time (now : Nat) : Moves agenda { agenda with now }
  | store (store? : Option σ) : Moves agenda { agenda with store? }
  | enqueue (commands : List Command) : Moves agenda { agenda with commands }
  | start (h : agenda.coordinator = .idle) : Moves agenda { agenda with coordinator := .starting }
  | discard (h : agenda.coordinator = .idle) :
      Moves agenda { agenda with coordinator := .absent, commands := [] }
  | begin (h : agenda.coordinator = .starting) :
      Moves agenda { agenda with coordinator := .receiving }
  | take {rest : List Command} {store? : Option σ} {agenda' : Agenda σ}
      (h : agenda.coordinator = .receiving)
      (hnext : { agenda with commands := rest, store? }.Handles agenda') : Moves agenda agenda'
  | conclude {job : Job} {deadline : Nat} {agenda' : Agenda σ}
      (h : agenda.coordinator = .acquiring job deadline)
      (hnext : { agenda with coordinator := .receiving }.Concludes agenda') : Moves agenda agenda'

theorem Agenda.Moves.of_eq {agenda agenda' : Agenda σ} (h : agenda' = agenda) :
    agenda.Moves agenda' := by
  subst h
  exact .time _

/-- A wait for a token begins where a command is taken, and its deadline is set then. -/
theorem Agenda.Moves.acquiring {agenda agenda' : Agenda σ} {job : Job} {deadline : Nat}
    (move : agenda.Moves agenda') (h : agenda'.coordinator = .acquiring job deadline) :
    agenda.coordinator = .acquiring job deadline ∨
      agenda.coordinator = .receiving ∧
        deadline = agenda.now + agenda.settings.workersTimeout := by
  cases move with
  | time _ | store _ | enqueue _ => exact Or.inl h
  | start _ | discard _ | begin _ => cases h
  | take hreceiving hnext =>
    cases hnext with
    | concludes hnext =>
      cases hnext with
      | goesOn =>
        change agenda.coordinator = .acquiring job deadline at h
        exact Or.inl h
      | stops _ => cases h
    | asks _ =>
      cases h
      exact Or.inr ⟨hreceiving, rfl⟩
  | conclude _ hnext => cases hnext <;> cases h

theorem Agenda.Moves.settings {agenda agenda' : Agenda σ} (move : agenda.Moves agenda') :
    agenda'.settings = agenda.settings := by
  cases move with
  | take _ hnext =>
    cases hnext with
    | concludes hnext => cases hnext <;> rfl
    | asks _ => rfl
  | conclude _ hnext => cases hnext <;> rfl
  | _ => rfl

/-- A coordinator is started once. -/
theorem Agenda.Moves.started {agenda agenda' : Agenda σ} (move : agenda.Moves agenda')
    (h : agenda.coordinator ≠ .idle) : agenda'.coordinator ≠ .idle := by
  cases move with
  | time _ | store _ | enqueue _ => exact h
  | start _ | discard _ | begin _ => simp
  | take _ hnext =>
    cases hnext with
    | concludes hnext =>
      cases hnext with
      | goesOn => exact h
      | stops _ => simp [Agenda.stop]
    | asks _ => simp [Agenda.ask]
  | conclude _ hnext => cases hnext <;> simp [Agenda.stop]

theorem agenda_enter (call : Call) :
    (bus.enter call).agenda = { bus.agenda with commands := bus.commands ++ [call.command] } := by
  have hqueued : (bus.enqueue call.command).agenda
      = { bus.agenda with commands := bus.commands ++ [call.command] } := by
    unfold enqueue
    exact agenda_wakeReceiver
  cases call <;> exact hqueued

variable [Store σ] {world world' : World σ} {marks : List Mark}

theorem Step.agenda (step : Step world marks world') :
    world.bus.agenda.Moves world'.bus.agenda := by
  cases step with
  | call _ _ | subscribe _ _ | giveUp | addHandle | remark _ | schedule _ _
  | watch _ _ => exact .of_eq rfl
  | mapStore f => exact .store _
  | enter _ =>
    rw [agenda_enter]
    exact .enqueue _
  | @receive bus bus' _ id _ h =>
    have hread := @agenda_receive σ bus id
    rw [h] at hread
    exact .of_eq hread
  | close _ => exact .of_eq (agenda_closeFeed _)
  | dropHandle => exact .of_eq agenda_dropHandle
  | @start bus _ =>
    unfold Bus.start
    split
    next h =>
      rw [agenda_wake]
      exact .start h
    next => exact .of_eq rfl
  | @dropCoordinator bus _ =>
    unfold Bus.dropCoordinator
    split
    next h => exact .discard h
    next => exact .of_eq rfl
  | cancel => exact .of_eq agenda_cancel
  | time now => exact .time now
  | begin h => exact .begin h
  | take h _ => exact .take h (agenda_take _ _)
  | interrupt h _ | runOut h _ _ =>
    rw [agenda_stop]
    exact .take h (.concludes (.stops _))
  | review h =>
    rcases agenda_review _ _ with hsame | hconcluded
    · exact .of_eq (congrArg Bus.agenda hsame)
    · exact .conclude h hconcluded
  | deliver _ => exact .of_eq (agenda_deliver _ _ _ _ _)
  | report _ _ =>
    unfold finishFanOut
    rw [agenda_finish]
    exact .of_eq rfl
  | read _ =>
    rw [agenda_readHistory]
    exact .store _
  | yield _ _ _ _ | hangUp _ _ => exact .of_eq rfl
  | send _ _ => exact .of_eq (agenda_sendBatch _ _ _)
  | resend _ => exact .of_eq (agenda_resendBatch _ _ _ _)
  | quit _ _ => exact .of_eq (agenda_finishReplay _)

/-- A bus is tuned once, when it is made. -/
theorem Steps.settings {trace : List Mark} (steps : Steps world trace world') :
    world'.bus.settings = world.bus.settings := by
  induction steps with
  | refl => rfl
  | tail _ step ih => exact step.agenda.settings.trans ih

theorem Steps.started {trace : List Mark} (steps : Steps world trace world')
    (h : world.bus.coordinator ≠ .idle) : world'.bus.coordinator ≠ .idle := by
  induction steps with
  | refl => exact h
  | tail _ step ih => exact step.agenda.started ih

end Steps

end EventBus.Bus
