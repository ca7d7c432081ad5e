import EventBus.Proofs.Bus.Driven
import EventBus.Proofs.Bus.Load

/-!
Turns come to an end by themselves. No turn adds to the load of a bus, and each has its actor taken
off the line, so that the bound on turns is enough for a bus that is left alone: when it has settled
no one is left in line.
-/

namespace EventBus.Bus

variable {σ : Type} {bus bus' : Bus σ}

section FanOut

variable {task : TaskId} {publish : Nat} {batch : List Event} {consumer : Consumer} {leg : Leg}
  {seen legs : List (Consumer × Leg)}

theorem shifts_deliver
    (h : bus.tasks.lookup task = some (.fanOut publish batch (seen ++ (consumer, leg) :: legs))) :
    Shifts 0 0 bus (bus.deliver task publish batch seen consumer leg legs).2 := by
  have htasks : (bus.advanceLeg task consumer (.live publish) batch leg).2.tasks = bus.tasks :=
    (advanceLeg_ledger bus (.live publish) task consumer batch leg).tasks
  have hadvanced : Shifts _ _ bus (bus.advanceLeg task consumer (.live publish) batch leg).2 :=
    shifts_advanceLeg leg
  unfold deliver
  generalize bus.advanceLeg task consumer (.live publish) batch leg = advanced at htasks hadvanced
  obtain ⟨leg', bus'⟩ := advanced
  have hnow : bus'.now = bus.now := hadvanced.now
  rw [← htasks] at h
  refine (hadvanced.trans (shifts_setTask _ h)).weaken ?_
  simp only [Task.load, total_append, total_cons, total_nil, hnow]
  omega

theorem shifts_deliverAll (seen legs : List (Consumer × Leg)) (bus : Bus σ)
    (h : bus.tasks.lookup task = some (.fanOut publish batch (seen ++ legs))) :
    Shifts 0 0 bus (deliverAll task publish batch seen legs bus).2 := by
  induction legs generalizing seen bus with
  | nil => exact .refl bus
  | cons entry legs ih =>
    obtain ⟨consumer, leg⟩ := entry
    have hnow := lookup_deliver h
    rw [List.append_cons] at hnow
    exact (shifts_deliver h).trans (ih _ _ hnow)

theorem lookup_deliverAll (seen legs : List (Consumer × Leg)) (bus : Bus σ)
    (h : bus.tasks.lookup task = some (.fanOut publish batch (seen ++ legs))) :
    (deliverAll task publish batch seen legs bus).2.tasks.lookup task
      = some (.fanOut publish batch (deliverAll task publish batch seen legs bus).1) := by
  induction legs generalizing seen bus with
  | nil =>
    rw [List.append_nil] at h
    exact h
  | cons entry legs ih =>
    obtain ⟨consumer, leg⟩ := entry
    have hnow := lookup_deliver h
    rw [List.append_cons] at hnow
    exact ih _ _ hnow

theorem shifts_finishFanOut (h : bus.tasks.lookup task = some (.fanOut publish batch legs)) :
    Shifts ((Task.fanOut publish batch legs).load bus.now) 1 bus
      (bus.finishFanOut task publish batch legs) := by
  have hnoted : (bus.noteAll (fanOutNotices bus.canceled legs)).tasks.lookup task
      = some (.fanOut publish batch legs) := h
  exact (shifts_noteAll _).after (shifts_finish hnoted _)

theorem shifts_turnFanOut (h : bus.tasks.lookup task = some (.fanOut publish batch legs)) :
    Shifts 0 0 bus (bus.turnFanOut task publish batch legs) := by
  have hall := shifts_deliverAll [] legs bus h
  have hlookup := lookup_deliverAll [] legs bus h
  unfold turnFanOut
  dsimp only
  split
  next =>
    refine (hall.trans (shifts_finishFanOut hlookup)).weaken ?_
    simp only [Task.load]
    omega
  next => exact hall

end FanOut

section Replay

variable {task : TaskId} {consumer : Consumer} {phase : ReplayPhase} {rest : Stream} {sent : Nat}
  {leg : Leg} {batch selected : List Event} {deadline : Nat} {held : Task}

theorem shifts_finishReplay (h : bus.tasks.lookup task = some held) (sent : Nat) :
    Shifts (held.load bus.now) 1 bus (bus.finishReplay task consumer sent) := by
  have hnoted : (bus.note (.replayFinished consumer.id sent)).tasks.lookup task = some held := h
  exact (shifts_note _).after (shifts_finish hnoted _)

theorem shifts_keepReplay (h : bus.tasks.lookup task = some held) (phase : ReplayPhase) :
    Shifts (held.load bus.now) ((Task.replay consumer phase).load bus.now) bus
      (bus.keepReplay task consumer phase) :=
  shifts_setTask _ h

/-- What is left of a replay is no more than its delivery that was looked at. -/
theorem shifts_settleLeg (h : bus.tasks.lookup task = some held) (hleg : leg ≠ .fresh) :
    Shifts (held.load bus.now) (1 + leg.load bus.now) bus
      (bus.settleLeg task consumer rest sent leg) := by
  cases leg with
  | fresh => exact absurd rfl hleg
  | waiting selected deadline => exact shifts_keepReplay h (.sending selected deadline rest sent)
  | done outcome =>
    cases outcome with
    | delivered events => exact shifts_keepReplay h (.taking rest (sent + events))
    | skipped => exact shifts_keepReplay h (.taking rest sent)
    | timedOut =>
      have hnoted : (bus.note (.replayTimedOut consumer.id)).tasks.lookup task = some held := h
      exact (shifts_note _).after (shifts_keepReplay hnoted (.taking rest sent))
    | canceled | closed => exact shifts_finishReplay h sent

theorem shifts_sendBatch {before : Stream}
    (h : bus.tasks.lookup task = some (.replay consumer (.taking before sent))) :
    Shifts (bus.sendBatch task consumer batch rest sent).1.slack 2 bus
      (bus.sendBatch task consumer batch rest sent).2 := by
  have hlook := beginLeg_ledger bus .replay task consumer
    (batch.take (consumer.query.limit - sent))
  have hfresh := hlook.ne_fresh
  rw [← (show _ = bus.tasks from hlook.tasks)] at h
  have hbegun := @shifts_beginLeg σ bus task consumer .replay
    (batch.take (consumer.query.limit - sent))
  have hnow := hbegun.now
  unfold sendBatch
  generalize bus.beginLeg task consumer .replay (batch.take (consumer.query.limit - sent)) = begun
    at *
  refine (hbegun.trans (shifts_settleLeg h hfresh)).weaken ?_
  simp only [Leg.load, Task.load, hnow]
  omega

theorem shifts_resendBatch
    (h : bus.tasks.lookup task = some (.replay consumer (.sending selected deadline rest sent))) :
    Shifts (bus.resendBatch task consumer selected deadline rest sent).1.slack 0 bus
      (bus.resendBatch task consumer selected deadline rest sent).2 := by
  have hlook : bus.ledger.Looked task consumer.id .replay (.waiting selected deadline) _ _ :=
    reviewLeg_ledger bus .replay task consumer deadline
  rw [← (show _ = bus.tasks from hlook.tasks)] at h
  have hfresh := hlook.ne_fresh
  have hsame := hlook.leg_eq_of_not_done nofun
  have hreviewed := @shifts_reviewLeg σ bus task consumer .replay selected deadline
  unfold resendBatch
  generalize bus.reviewLeg task consumer .replay selected deadline = reviewed at *
  obtain ⟨leg, bus'⟩ := reviewed
  cases leg with
  | fresh => exact absurd rfl hfresh
  | waiting selected' deadline' =>
    cases hsame rfl
    exact hreviewed.weaken (by simp only [Leg.slack]; omega)
  | done outcome =>
    have hnow : bus'.now = bus.now := hreviewed.now
    have hsettled : Shifts _ _ bus' (bus'.settleLeg task consumer rest sent (.done outcome)) :=
      shifts_settleLeg h hfresh
    refine (hreviewed.trans hsettled).weaken ?_
    simp only [Task.load, Leg.load_done, hnow]
    omega

theorem shifts_watch (id : ConsumerId) : Shifts 0 1 bus (bus.watch task id) := by
  unfold watch
  split
  next => exact (Shifts.refl bus).weaken (Nat.zero_le _)
  next feed hfeed =>
    refine (shifts_setFeed _ hfeed).weaken ?_
    unfold Feed.load
    rw [List.length_append, List.length_singleton]
    dsimp only
    split <;> omega

theorem shifts_unwatch (id : ConsumerId) : Shifts 0 0 bus (bus.unwatch task id) := by
  unfold unwatch
  split
  next => exact .refl bus
  next feed hfeed =>
    have hwatchers : (feed.watchers.erase task).length ≤ feed.watchers.length :=
      List.erase_sublist.length_le
    refine (shifts_setFeed _ hfeed).weaken ?_
    unfold Feed.load
    dsimp only
    split <;> omega

/-- A replay has its own turn left, and room for one more delivery to wait. -/
theorem shifts_sendStream (ends : Bool) (batches : List (List Event)) (sent : Nat) (bus : Bus σ)
    (h : bus.tasks.lookup task = some (.replay consumer (.taking rest sent))) :
    Shifts 0 2 bus (sendStream task consumer ends batches sent bus) := by
  have hfinished : ∀ {rest sent} {bus : Bus σ},
      bus.tasks.lookup task = some (.replay consumer (.taking rest sent)) →
      Shifts 0 2 bus (bus.finishReplay task consumer sent) := fun h =>
    (shifts_finishReplay h _).weaken (by simp only [Task.load]; omega)
  induction batches generalizing rest sent bus with
  | nil =>
    unfold sendStream
    split
    · exact hfinished h
    · exact (shifts_watch consumer.id).weaken (by omega)
  | cons batch batches ih =>
    unfold sendStream
    split
    · exact hfinished h
    · have hsend : Shifts _ 2 bus (bus.sendBatch task consumer batch ⟨batches, ends⟩ sent).2 :=
        shifts_sendBatch h
      have hlookup : ∀ events,
          (bus.sendBatch task consumer batch ⟨batches, ends⟩ sent).1.passed? = some events →
          (bus.sendBatch task consumer batch ⟨batches, ends⟩ sent).2.tasks.lookup task
            = some (.replay consumer (.taking ⟨batches, ends⟩ (sent + events))) :=
        fun _ => lookup_sendBatch_of_passed h
      generalize bus.sendBatch task consumer batch ⟨batches, ends⟩ sent = result at *
      obtain ⟨leg, bus'⟩ := result
      dsimp only
      split
      next events hpassed =>
        have hslack : leg.slack = 2 := Leg.slack_of_passed hpassed
        refine (hsend.trans (ih _ bus' (hlookup events hpassed))).weaken ?_
        simp only [hslack]
        omega
      next => exact hsend.weaken (by omega)

theorem shifts_openStream (answer : Except StoreError Stream)
    (h : bus.tasks.lookup task = some (.replay consumer .starting)) :
    Shifts 2 0 bus (bus.openStream task consumer answer) := by
  unfold openStream
  split
  · exact (shifts_keepReplay h _).weaken (by simp only [Task.load]; omega)
  · exact (shifts_finish h _).weaken (by simp only [Task.load]; omega)
  · next error _ =>
    have hnoted : (bus.note (.replayReadFailed consumer.id error)).tasks.lookup task
        = some (.replay consumer .starting) := h
    exact ((shifts_note _).after (shifts_finish hnoted _)).weaken (by simp only [Task.load]; omega)

theorem shifts_readHistory [Store σ]
    (h : bus.tasks.lookup task = some (.replay consumer .starting)) :
    Shifts 2 0 bus (bus.readHistory task consumer).2 := by
  unfold readHistory
  split
  next => exact shifts_openStream (.ok ⟨[], true⟩) h
  next store hstore =>
    let answer := Store.read (bus.isCanceled consumer.id) consumer.query store
    let asked := { bus with store? := some answer.store }.noteAll (answer.notices.map .store)
    have hasked : Shifts 0 0 bus asked := shifts_of_burden rfl
    exact hasked.after (shifts_openStream answer.result h)

theorem shifts_startReplay [Store σ]
    (h : bus.tasks.lookup task = some (.replay consumer .starting)) :
    Shifts 0 0 bus (bus.startReplay task consumer) := by
  have hread : Shifts 2 0 bus (bus.readHistory task consumer).2 := shifts_readHistory h
  have hlookup : ∀ stream, (bus.readHistory task consumer).1 = .ok stream →
      (bus.readHistory task consumer).2.tasks.lookup task
        = some (.replay consumer (.taking stream 0)) :=
    fun _ hanswer => lookup_readHistory h hanswer
  unfold startReplay
  generalize bus.readHistory task consumer = result at *
  obtain ⟨answer, bus'⟩ := result
  cases answer with
  | ok stream =>
    exact (hread.trans (shifts_sendStream _ _ 0 bus' (hlookup stream rfl))).weaken (by omega)
  | error error => exact hread.weaken (by omega)

theorem shifts_resumeReplay
    (h : bus.tasks.lookup task = some (.replay consumer (.sending selected deadline rest sent))) :
    Shifts 0 0 bus (bus.resumeReplay task consumer selected deadline rest sent) := by
  have hresend : Shifts _ 0 bus
      (bus.resendBatch task consumer selected deadline rest sent).2 := shifts_resendBatch h
  have hlookup : ∀ events,
      (bus.resendBatch task consumer selected deadline rest sent).1.passed? = some events →
      (bus.resendBatch task consumer selected deadline rest sent).2.tasks.lookup task
        = some (.replay consumer (.taking rest (sent + events))) :=
    fun _ => lookup_resendBatch_of_passed h
  unfold resumeReplay
  generalize bus.resendBatch task consumer selected deadline rest sent = result at *
  obtain ⟨leg, bus'⟩ := result
  dsimp only
  split
  next events hpassed =>
    have hslack : leg.slack = 2 := Leg.slack_of_passed hpassed
    refine (hresend.trans (shifts_sendStream _ _ _ bus' (hlookup events hpassed))).weaken ?_
    simp only [hslack]
    omega
  next => exact hresend.weaken (by omega)

theorem shifts_turnReplay [Store σ]
    (h : bus.tasks.lookup task = some (.replay consumer phase)) :
    Shifts 0 0 bus (bus.turnReplay task consumer phase) := by
  cases phase with
  | starting => exact shifts_startReplay h
  | sending selected deadline rest sent => exact shifts_resumeReplay h
  | taking rest sent =>
    show Shifts _ _ bus (if bus.isCanceled consumer.id then
      (bus.unwatch task consumer.id).finishReplay task consumer sent else bus)
    split
    · have htasks : (bus.unwatch task consumer.id).tasks = bus.tasks := by
        unfold unwatch
        split <;> rfl
      rw [← htasks] at h
      refine ((shifts_unwatch consumer.id).after (shifts_finishReplay h sent)).weaken ?_
      simp only [Task.load]
      omega
    · exact .refl bus

end Replay

section Coordinator

variable {job : Job} {deadline : Nat} {coordinator : Coordinator} {commands : List Command}
  {registry : List Consumer} {audience : List ConsumerId} {pool : Pool Unit}

theorem queueLoad_mono {consumers consumers' : Nat} (h : consumers ≤ consumers') (commands : Nat) :
    queueLoad consumers commands ≤ queueLoad consumers' commands :=
  Nat.mul_le_mul_left _ (by omega)

theorem queueLoad_succ (consumers commands : Nat) :
    queueLoad consumers (commands + 1)
      = queueLoad consumers commands + (6 + 2 * consumers + 4 * commands) := by
  simp only [queueLoad, Nat.mul_add, Nat.add_mul]
  omega

theorem queueLoad_succ_consumers (consumers commands : Nat) :
    queueLoad (consumers + 1) commands = queueLoad consumers commands + 2 * commands := by
  simp only [queueLoad, Nat.mul_add]
  omega

theorem shifts_coordinate :
    Shifts (queueLoad bus.registry.length bus.commands.length + bus.coordinator.load bus.now)
      (queueLoad registry.length commands.length + coordinator.load bus.now) bus
      { bus with registry, audience, commands, coordinator, pool } where
  now := rfl
  keyed keyed := ⟨keyed.tasks, keyed.fresh, keyed.feeds⟩
  bound _ := by
    unfold turnBound
    dsimp only
    omega

theorem shifts_unregister (h : registry.length ≤ bus.registry.length) :
    Shifts 0 0 bus { bus with registry } := by
  refine shifts_coordinate.weaken ?_
  have := queueLoad_mono h bus.commands.length
  omega

theorem shifts_expel (id : ConsumerId) :
    Shifts 0 0 bus { bus with registry := bus.registry.filter (·.id != id) } :=
  shifts_unregister (List.length_filter_le _ _)

theorem shifts_stop (result : Except BusError Unit) : Shifts 0 0 bus (bus.stop result) := by
  have hcanceled : ∀ (consumers : List Consumer) (bus : Bus σ), Shifts 0 0 bus
      (consumers.foldl (fun bus consumer => bus.cancelConsumer consumer.id) bus) := by
    intro consumers
    induction consumers with
    | nil => exact fun bus => .refl bus
    | cons consumer consumers ih =>
      exact fun bus => (shifts_cancelConsumer consumer.id).trans (ih _)
  let canceled := bus.registry.foldl (fun bus consumer => bus.cancelConsumer consumer.id) bus
  let cleared := ({ canceled with registry := [] }.letGoAll bus.registry).note (.stopped result)
  have hcleared : Shifts 0 0 bus cleared :=
    ((hcanceled bus.registry bus).trans (shifts_unregister (Nat.zero_le _))).trans
      ((shifts_letGoAll bus.registry).trans (shifts_note _))
  have hstopped : Shifts 0 0 cleared
      { cleared with commands := [], coordinator := .stopped result } :=
    shifts_coordinate.weaken (by simp [queueLoad, Coordinator.load])
  exact hcleared.trans hstopped

theorem shifts_conclude (acquired : Acquired) :
    Shifts 0 (job.task.load bus.now + 1) bus (bus.conclude job acquired).land := by
  cases acquired with
  | token => exact shifts_spawn _
  | waiting => exact (Shifts.refl bus).weaken (Nat.zero_le _)
  | timedOut => exact ((shifts_letGoAll _).trans (shifts_note _)).weaken (Nat.zero_le _)
  | canceled =>
    cases job with
    | fanOut publish batch targets =>
      exact ((shifts_letGoAll targets).trans (shifts_stop _)).weaken (Nat.zero_le _)
    | replay consumer => exact (shifts_letGoAll _).weaken (Nat.zero_le _)

theorem shifts_acquire : Shifts 0 (job.task.load bus.now + 1) bus (bus.acquire job).land := by
  unfold acquire
  split
  next pool _ =>
    have hasks : Shifts 0 (job.task.load bus.now + 1) bus { bus with
        pool
        coordinator := .acquiring job (bus.now + bus.settings.workersTimeout) } :=
      shifts_coordinate.weaken (by simp only [Coordinator.load]; omega)
    exact hasks.trans (shifts_setTimer _ _)
  next acquired pool _ _ =>
    have hpool : Shifts 0 0 bus { bus with pool } := shifts_of_burden rfl
    exact hpool.after (@shifts_conclude σ { bus with pool } job acquired)

theorem shifts_pruneOne (id : ConsumerId) : Shifts 0 0 bus (bus.pruneOne id) := by
  have hexpelled : Shifts 0 0 bus _ :=
    (shifts_cancelConsumer id).trans (shifts_expel id)
  exact (hexpelled.trans (shifts_note (.pruned id))).trans (shifts_letGo id)

theorem shifts_pruneEach (consumers : List Consumer) :
    Shifts 0 0 bus (bus.pruneEach consumers) := by
  induction consumers generalizing bus with
  | nil => exact .refl bus
  | cons consumer consumers ih =>
    unfold pruneEach
    split
    · exact (shifts_pruneOne consumer.id).trans ih
    · exact ih

theorem load_fanOut (now publish : Nat) (batch : List Event) (targets : List Consumer) :
    (Job.fanOut publish batch targets).task.load now = 1 + 2 * targets.length := by
  induction targets with
  | nil => rfl
  | cons target targets ih =>
    simp only [Job.task, Task.load, List.map_cons, total_cons, List.length_cons, Leg.load] at ih ⊢
    omega

theorem shifts_fanOut (publish : Nat) (batch : List Event) :
    Shifts 0 (2 + 2 * bus.registry.length) bus (bus.fanOut publish batch).land := by
  have hpruned : Shifts 0 0 bus bus.prune := shifts_pruneEach bus.registry
  have hfewer : bus.prune.registry.length ≤ bus.registry.length := by
    have hprune : bus.prune.outline [] = (bus.outline []).prune := outline_prune
    rw [show bus.prune.registry = _ from congrArg Outline.registry hprune]
    exact List.length_filter_le _ _
  unfold fanOut
  dsimp only
  split
  · exact hpruned.weaken (Nat.zero_le _)
  · refine (hpruned.after shifts_acquire).weaken ?_
    rw [load_fanOut]
    omega

theorem shifts_handlePublish [Store σ] (batch : List Event) :
    Shifts 0 (2 + 2 * bus.registry.length) bus (bus.handlePublish batch).land := by
  let counted : Bus σ := { bus with publishes := bus.publishes + 1 }
  have hcounted : Shifts 0 0 bus counted := shifts_of_burden rfl
  unfold handlePublish
  dsimp only
  split
  next => exact hcounted.after (@shifts_fanOut σ counted bus.publishes batch)
  next store hstore =>
    let answer := Store.write bus.canceled batch store
    let asked :=
      { bus with publishes := bus.publishes + 1, store? := some answer.store }.noteAll
        (answer.notices.map .store)
    have hasked : Shifts 0 0 bus asked := shifts_of_burden rfl
    split
    · have hstored := hasked.trans (shifts_note (.stored batch))
      exact hstored.after (@shifts_fanOut σ (asked.note (.stored batch)) bus.publishes batch)
    · exact (hasked.trans (shifts_stop _)).weaken (Nat.zero_le _)

theorem shifts_handleSubscribe (id : ConsumerId) (query : Query) :
    Shifts 0 (4 + 2 * bus.commands.length) bus (bus.handleSubscribe id query).land := by
  unfold handleSubscribe
  split
  · exact (shifts_note _).weaken (Nat.zero_le _)
  · let consumer : Consumer := ⟨id, query.clampLimit bus.settings.maxReplay⟩
    let registered : Bus σ := { bus.note (.registered consumer) with
      registry := insertConsumer consumer bus.registry
      audience := bus.audience ++ [id] }
    have hone : (insertConsumer consumer bus.registry).length = bus.registry.length + 1 :=
      (insertConsumer_perm consumer bus.registry).length_eq
    have hregistered : Shifts 0 (2 * bus.commands.length) bus registered := by
      have hset : Shifts _ _ (bus.note (.registered consumer)) registered := shifts_coordinate
      refine ((shifts_note _).after hset).weaken ?_
      rw [hone, queueLoad_succ_consumers]
      simp only [note]
      omega
    dsimp only
    split
    · exact hregistered.weaken (by omega)
    · have hasked : Shifts 0 4 registered (registered.acquire (.replay consumer)).land :=
        @shifts_acquire σ registered (.replay consumer)
      exact (hregistered.trans hasked).weaken (by omega)

theorem shifts_handleUnsubscribe (id : ConsumerId) :
    Shifts 0 0 bus (bus.handleUnsubscribe id).land := by
  unfold handleUnsubscribe
  split
  · have hcanceled : Shifts 0 0 bus _ := (shifts_expel id).trans (shifts_cancelConsumer id)
    exact (hcanceled.trans (shifts_note (.unregistered id))).trans (shifts_letGo id)
  · exact .refl bus

/-- A command that is taken makes up for the task that it may start. -/
theorem shifts_take [Store σ] {command : Command} {rest : List Command}
    (h : bus.commands = command :: rest) : Shifts 0 0 bus (bus.take command rest).land := by
  let taken := { bus with commands := rest }.note (.took command)
  have htaken : Shifts (6 + 2 * bus.registry.length + 4 * rest.length) 0 bus taken := by
    have hrest : Shifts _ _ bus { bus with commands := rest } := shifts_coordinate
    refine (hrest.trans (shifts_note _)).weaken ?_
    rw [h, List.length_cons, queueLoad_succ]
    omega
  unfold take
  cases command with
  | publish batch =>
    have hhandled : Shifts 0 (2 + 2 * bus.registry.length) taken (taken.handlePublish batch).land :=
      @shifts_handlePublish σ taken _ batch
    exact (htaken.trans hhandled).weaken (by omega)
  | subscribe id query =>
    have hhandled : Shifts 0 (4 + 2 * rest.length) taken (taken.handleSubscribe id query).land :=
      @shifts_handleSubscribe σ taken id query
    exact (htaken.trans hhandled).weaken (by omega)
  | unsubscribe id =>
    have hhandled : Shifts 0 0 taken (taken.handleUnsubscribe id).land :=
      shifts_handleUnsubscribe id
    exact (htaken.trans hhandled).weaken (by omega)

theorem shifts_serve [Store σ] (commands : List Command) (bus : Bus σ)
    (h : bus.coordinator = .receiving) (hcommands : bus.commands = commands) :
    Shifts 0 0 bus (serve commands bus) := by
  induction commands generalizing bus with
  | nil =>
    unfold serve
    split
    · exact shifts_stop _
    · split
      · exact shifts_stop _
      · exact .refl bus
  | cons command rest ih =>
    unfold serve
    split
    · exact shifts_stop _
    · have htake := shifts_take hcommands
      have hcontinues : (bus.take command rest).Continues rest := continues_handle command h rfl
      split
      next served hnext =>
        rw [hnext] at htake hcontinues
        exact htake.trans (ih served hcontinues.1 hcontinues.2)
      next waiting hwaits =>
        rw [hwaits] at htake
        exact htake
      next error failed hfailed =>
        rw [hfailed] at htake
        exact htake

theorem shifts_reviewAcquire (h : bus.coordinator = .acquiring job deadline) :
    Shifts 0 0 bus (bus.reviewAcquire job deadline).land := by
  unfold reviewAcquire
  split
  next => exact .refl bus
  next acquired pool _ _ _ =>
    let freed : Bus σ := { bus with pool, coordinator := .receiving }
    have hfreed : Shifts (job.task.load bus.now + 1) 0 bus freed := by
      have hset : Shifts _ _ bus freed := shifts_coordinate
      refine hset.weaken ?_
      simp only [h, Coordinator.load]
      omega
    have hconcluded := @shifts_conclude σ (freed.clearTimer deadline .coordinator) job acquired
    have hcleared := hfreed.trans (shifts_clearTimer deadline .coordinator)
    refine (hcleared.trans hconcluded).weaken ?_
    show 0 + 0 + (job.task.load bus.now + 1) + 0 ≤ job.task.load bus.now + 1 + 0 + 0 + 0
    omega

theorem shifts_turnCoordinator [Store σ] : Shifts 0 0 bus bus.turnCoordinator := by
  unfold turnCoordinator
  split
  next h =>
    have hbegun : Shifts 0 0 bus bus.begin := by
      have hset : Shifts _ _ (bus.note _) bus.begin := shifts_coordinate
      refine ((shifts_note _).after hset).weaken ?_
      simp only [note, Coordinator.load]
      omega
    exact hbegun.trans (shifts_serve _ bus.begin rfl rfl)
  next h => exact shifts_serve _ _ h rfl
  next job deadline h =>
    have hreview := shifts_reviewAcquire h
    have hcontinues : (bus.reviewAcquire job deadline).Continues bus.commands := by
      unfold reviewAcquire
      split
      · trivial
      · exact continues_conclude _ _ rfl rfl
    unfold resume
    split
    next served hnext =>
      rw [hnext] at hreview hcontinues
      exact hreview.trans (shifts_serve _ served hcontinues.1 rfl)
    next waiting hwaits =>
      rw [hwaits] at hreview
      exact hreview
    next error failed hfailed =>
      rw [hfailed] at hreview
      exact hreview
  next => exact .refl bus

end Coordinator

section Turns

variable [Store σ]

/-- A turn adds nothing to what a bus can still be made to do. -/
theorem shifts_turn (actor : Actor) : Shifts 0 0 bus (bus.turn actor) := by
  cases actor with
  | coordinator => exact shifts_turnCoordinator
  | task id =>
    unfold turn
    split
    next h => cases h
    next task h =>
      cases h
      split
      next => exact .refl bus
      next publish batch legs h => exact shifts_turnFanOut h
      next consumer phase h => exact shifts_turnReplay h

theorem turnBound_step? (keyed : Keyed bus) (h : bus.step? = some bus') :
    Keyed bus' ∧ bus'.turnBound < bus.turnBound := by
  obtain ⟨actor, rest, hready, rfl⟩ := step?_eq_some h
  have hpopped : Keyed { bus with ready := rest } := ⟨keyed.tasks, keyed.fresh, keyed.feeds⟩
  have hturn := @shifts_turn σ { bus with ready := rest } _ actor
  have hless := @turnBound_ready σ bus rest
  have hmore := hturn.bound hpopped
  rw [hready, List.length_cons] at hless
  exact ⟨hturn.keyed hpopped, by omega⟩

theorem isSettled_settleFor (fuel : Nat) (keyed : Keyed bus) (hfuel : bus.turnBound ≤ fuel) :
    (settleFor fuel bus).isSettled = true := by
  induction fuel generalizing bus with
  | zero =>
    have hready : bus.ready.length ≤ bus.turnBound := by
      unfold turnBound
      omega
    have hnone : bus.ready.length = 0 := by omega
    exact List.isEmpty_iff.mpr (List.length_eq_zero_iff.mp hnone)
  | succ fuel ih =>
    unfold settleFor
    split
    next bus' h =>
      obtain ⟨hkeyed, hless⟩ := turnBound_step? keyed h
      exact ih hkeyed (by omega)
    next h =>
      unfold step? at h
      split at h
      next hready => exact List.isEmpty_iff.mpr hready
      next => cases h

theorem Driven.keyed (driven : Driven bus) : Keyed bus :=
  ⟨driven.reached.ledgerLaws.tokens.distinct, driven.reached.ledgerLaws.tokens.fresh,
    driven.vigil.distinct⟩

/-- There is fuel enough: once a bus has settled, no one has a turn to take. -/
theorem Driven.isSettled_settle (driven : Driven bus) : bus.settle.isSettled = true :=
  isSettled_settleFor _ driven.keyed (Nat.le_refl _)

end Turns

end EventBus.Bus
