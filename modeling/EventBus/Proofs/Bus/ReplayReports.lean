import EventBus.Proofs.Bus.ReplayLimit

/-!
What is reported of the replay to a consumer: each delivery that is over was put into the feed, or
it has timed out. What a replay does in one step is said once here, and a step of anyone else
leaves its task as it is and says nothing of it.
-/

namespace EventBus.Bus

/-- What became of a delivery of a replay. -/
inductive Turnout where
  | put (batch : List Event)
  | timedOut
  deriving Repr

def Turnout.batch? : Turnout → Option (List Event)
  | .put batch => some batch
  | .timedOut => none

/-- What the report tells of a delivery of the replay to the consumer. -/
def Notice.turnout? (id : ConsumerId) : Notice → Option Turnout
  | .queued other batch .replay => if other = id then some (.put batch) else none
  | .replayTimedOut other => if other = id then some .timedOut else none
  | _ => none

/-- What became of the deliveries of the replay to a consumer, one after the other. -/
def turnouts (id : ConsumerId) (trace : List Mark) : List Turnout :=
  (reported trace).filterMap (·.turnout? id)

/-- The feed gets what was put there, and nothing of what has timed out. -/
theorem replayed_eq_turnouts {trace : List Mark} {id : ConsumerId} :
    replayed id trace = (turnouts id trace).filterMap Turnout.batch? := by
  rw [turnouts, reported, List.filterMap_filterMap, List.filterMap_filterMap]
  refine List.filterMap_congr fun mark _ => ?_
  cases mark with
  | noted notice =>
    cases notice with
    | queued other batch origin =>
      cases origin with
      | live _ => rfl
      | replay =>
        by_cases hother : other = id <;> simp [Notice.turnout?, Turnout.batch?, hother]
    | replayTimedOut other =>
      by_cases hother : other = id <;> simp [Notice.turnout?, Turnout.batch?, hother]
    | _ => rfl
  | _ => rfl

/-- What goes on aside from a replay: its task stays as it is, and nothing is reported of its
deliveries. -/
structure Outline.Aside (task : TaskId) (id : ConsumerId) (o o' : Outline) : Prop where
  silent : ∃ notices, o'.history = o.history ++ notices ∧
    ∀ notice ∈ notices, notice.turnout? id = none
  task : o'.task task = o.task task
  nextTask : o.nextTask ≤ o'.nextTask

namespace Outline.Aside

variable {task other : TaskId} {id : ConsumerId} {o o' o₁ o₂ o₃ : Outline} {notices : List Notice}

theorem of_eq (hhistory : o'.history = o.history) (htask : o'.task = o.task)
    (hnextTask : o'.nextTask = o.nextTask) : o.Aside task id o' where
  silent := ⟨[], hhistory.trans (List.append_nil _).symm, nofun⟩
  task := congrFun htask task
  nextTask := Nat.le_of_eq hnextTask.symm

theorem of_same (h : o' = o) : o.Aside task id o' := h ▸ .of_eq rfl rfl rfl

theorem refl (o : Outline) : o.Aside task id o := .of_same rfl

theorem trans (first : o₁.Aside task id o₂) (second : o₂.Aside task id o₃) :
    o₁.Aside task id o₃ where
  silent := by
    obtain ⟨notices, hhistory, hsilent⟩ := first.silent
    obtain ⟨notices', hhistory', hsilent'⟩ := second.silent
    refine ⟨notices ++ notices', ?_, List.forall_mem_append.mpr ⟨hsilent, hsilent'⟩⟩
    rw [hhistory', hhistory, List.append_assoc]
  task := second.task.trans first.task
  nextTask := Nat.le_trans first.nextTask second.nextTask

theorem report (hhistory : o'.history = o.history ++ notices) (htask : o'.task = o.task)
    (hnextTask : o'.nextTask = o.nextTask) (h : ∀ notice ∈ notices, notice.turnout? id = none) :
    o.Aside task id o' where
  silent := ⟨notices, hhistory, h⟩
  task := congrFun htask task
  nextTask := Nat.le_of_eq hnextTask.symm

theorem setTask (h : other ≠ task) (held? : Option Task) :
    o.Aside task id (o.setTask other held?) where
  silent := ⟨[], (List.append_nil _).symm, nofun⟩
  task := Function.update_of_ne h.symm _ _
  nextTask := Nat.le_refl _

/-- A new task gets a number of its own. -/
theorem spawn (h : task < o.nextTask) (held : Task) : o.Aside task id (o.spawn held) where
  silent := ⟨[], (List.append_nil _).symm, nofun⟩
  task := Function.update_of_ne (Nat.ne_of_lt h) _ _
  nextTask := Nat.le_succ _

theorem known (aside : o.Aside task id o') (h : task < o.nextTask) : task < o'.nextTask :=
  Nat.lt_of_lt_of_le h aside.nextTask

end Outline.Aside

variable {σ : Type} {bus bus' : Bus σ} {calls : List Call} {task : TaskId} {id : ConsumerId}

section Coordinator

theorem note_aside (notice : Notice) (h : notice.turnout? id = none) :
    (bus.outline calls).Aside task id ((bus.note notice).outline calls) :=
  .report rfl rfl rfl (List.forall_mem_singleton.mpr h)

theorem stop_aside (result : Except BusError Unit) :
    (bus.outline calls).Aside task id ((bus.stop result).outline calls) := by
  rw [outline_stop]
  exact .report rfl rfl rfl (List.forall_mem_singleton.mpr rfl)

theorem conclude_aside (fresh : (bus.outline calls).Fresh) (h : task < bus.nextTask) (job : Job)
    (acquired : Acquired) :
    (bus.outline calls).Aside task id ((bus.conclude job acquired).land.outline calls) := by
  cases acquired with
  | token =>
    change (bus.outline calls).Aside task id ((bus.startJob job).outline calls)
    rw [outline_startJob job (fresh.task _ (Nat.le_refl _))]
    exact .spawn h _
  | waiting => exact .refl _
  | timedOut =>
    change (bus.outline calls).Aside task id ((bus.dropJob job).outline calls)
    rw [outline_dropJob]
    exact .report rfl rfl rfl (List.forall_mem_singleton.mpr rfl)
  | canceled =>
    have hletGo := @outline_letGoAll σ bus calls job.consumers
    cases job with
    | fanOut _ _ _ =>
      change (bus.outline calls).Aside task id
        (((bus.letGoAll _).stop (.error .canceled)).outline calls)
      rw [← hletGo]
      exact stop_aside _
    | replay _ =>
      change (bus.outline calls).Aside task id ((bus.letGoAll _).outline calls)
      rw [hletGo]
      exact .refl _

theorem acquire_aside (fresh : (bus.outline calls).Fresh) (h : task < bus.nextTask) (job : Job) :
    (bus.outline calls).Aside task id ((bus.acquire job).land.outline calls) := by
  unfold acquire
  split
  next => exact .of_eq rfl rfl rfl
  next acquired pool _ _ =>
    have hconcluded := @conclude_aside σ { bus with pool } calls task id fresh h job acquired
    exact hconcluded

theorem fanOut_aside (fresh : (bus.outline calls).Fresh) (h : task < bus.nextTask) (publish : Nat)
    (batch : List Event) :
    (bus.outline calls).Aside task id ((bus.fanOut publish batch).land.outline calls) := by
  have hpruned : bus.prune.outline calls = (bus.outline calls).prune := outline_prune
  have hprune : (bus.outline calls).Aside task id (bus.prune.outline calls) := by
    rw [hpruned]
    refine .report rfl rfl rfl fun notice hnotice => ?_
    obtain ⟨consumer, -, rfl⟩ := List.mem_map.mp hnotice
    rfl
  have hfresh : (bus.prune.outline calls).Fresh := by
    rw [hpruned]
    exact fresh.of_eq rfl rfl rfl rfl rfl
  unfold fanOut
  dsimp only
  split
  · exact hprune
  · exact hprune.trans (acquire_aside hfresh (hprune.known h) _)

theorem handlePublish_aside [Store σ] (fresh : (bus.outline calls).Fresh) (h : task < bus.nextTask)
    (batch : List Event) :
    (bus.outline calls).Aside task id ((bus.handlePublish batch).land.outline calls) := by
  let counted : Bus σ := { bus with publishes := bus.publishes + 1 }
  have hcounted : (bus.outline calls).Aside task id (counted.outline calls) := .of_eq rfl rfl rfl
  have hfresh : (counted.outline calls).Fresh := fresh.of_eq rfl rfl rfl rfl rfl
  unfold handlePublish
  dsimp only
  split
  next => exact hcounted.trans (fanOut_aside hfresh h _ _)
  next store hstore =>
    let answer := Store.write counted.canceled batch store
    let answered := { counted with store? := some answer.store }.noteAll (answer.notices.map .store)
    have hanswered : (bus.outline calls).Aside task id (answered.outline calls) := by
      refine .report rfl rfl rfl fun notice hnotice => ?_
      obtain ⟨_, -, rfl⟩ := List.mem_map.mp hnotice
      rfl
    split
    next hwrite =>
      have hstored := hanswered.trans (note_aside (.stored batch) rfl)
      have hfresh : ((answered.note (.stored batch)).outline calls).Fresh :=
        fresh.of_eq rfl rfl rfl rfl rfl
      exact hstored.trans (fanOut_aside hfresh h _ _)
    next => exact hanswered.trans (stop_aside _)

theorem handleSubscribe_aside (fresh : (bus.outline calls).Fresh) (h : task < bus.nextTask)
    (subscriber : ConsumerId) (query : Query) :
    (bus.outline calls).Aside task id
      ((bus.handleSubscribe subscriber query).land.outline calls) := by
  unfold handleSubscribe
  split
  · exact note_aside _ rfl
  · let consumer : Consumer := ⟨subscriber, query.clampLimit bus.settings.maxReplay⟩
    let enrolled := { bus.note (.registered consumer) with
      registry := insertConsumer consumer bus.registry
      audience := bus.audience ++ [subscriber] }
    have henrolled : (bus.outline calls).Aside task id (enrolled.outline calls) :=
      .report rfl rfl rfl (List.forall_mem_singleton.mpr rfl)
    dsimp only
    split
    · exact henrolled
    · have hfresh : (enrolled.outline calls).Fresh := fresh.of_eq rfl rfl rfl rfl rfl
      exact henrolled.trans (acquire_aside hfresh h _)

theorem handleUnsubscribe_aside (subscriber : ConsumerId) :
    (bus.outline calls).Aside task id ((bus.handleUnsubscribe subscriber).land.outline calls) := by
  unfold handleUnsubscribe
  split
  · rw [Handled.land, outline_letGo, outline_note, outline_cancelConsumer]
    exact .report rfl rfl rfl (List.forall_mem_singleton.mpr rfl)
  · exact .refl _

theorem take_aside [Store σ] (fresh : (bus.outline calls).Fresh) (h : task < bus.nextTask)
    (command : Command) (rest : List Command) :
    (bus.outline calls).Aside task id ((bus.take command rest).land.outline calls) := by
  let taken := { bus with commands := rest }.note (.took command)
  have htaken : (bus.outline calls).Aside task id (taken.outline calls) :=
    .report rfl rfl rfl (List.forall_mem_singleton.mpr rfl)
  have hfresh : (taken.outline calls).Fresh := fresh.of_eq rfl rfl rfl rfl rfl
  change (bus.outline calls).Aside task id ((taken.handle command).land.outline calls)
  refine htaken.trans ?_
  cases command with
  | publish batch => exact handlePublish_aside hfresh h batch
  | subscribe subscriber query => exact handleSubscribe_aside hfresh h subscriber query
  | unsubscribe subscriber => exact handleUnsubscribe_aside subscriber

theorem review_aside (fresh : (bus.outline calls).Fresh) (h : task < bus.nextTask) (job : Job)
    (deadline : Nat) :
    (bus.outline calls).Aside task id ((bus.reviewAcquire job deadline).land.outline calls) := by
  unfold reviewAcquire
  split
  next => exact .refl _
  next acquired pool _ _ _ =>
    let freed : Bus σ :=
      { bus with pool, coordinator := .receiving }.clearTimer deadline .coordinator
    have hfreed : (bus.outline calls).Aside task id (freed.outline calls) := .of_eq rfl rfl rfl
    have hfresh : (freed.outline calls).Fresh := fresh.of_eq rfl rfl rfl rfl rfl
    exact hfreed.trans (conclude_aside hfresh h job acquired)

end Coordinator

section Deliveries

variable {other : TaskId} {consumer : Consumer} {phase : ReplayPhase} {selected : List Event}
  {leg leg' : Leg} {origin : Origin} {marks : List Mark} {o o' : Outline}

/-- Another replay and every fan-out put something else into the feeds. -/
theorem Looked.aside {reader : ConsumerId}
    (hlook : Looked reader origin selected leg o marks leg' o')
    (h : reader ≠ id ∨ origin ≠ .replay) : o.Aside task id o' := by
  have frame := hlook.frame
  refine .report frame.history frame.task frame.nextTask ?_
  cases hlook with
  | without _ => exact nofun
  | put _ _ =>
    refine List.forall_mem_singleton.mpr ?_
    cases origin with
    | live _ => rfl
    | replay => exact if_neg (h.resolve_right fun hnot => hnot rfl)

theorem deliver_aside {publish : Nat} {batch : List Event} {seen legs : List (Consumer × Leg)}
    (h : bus.tasks.lookup other = some (.fanOut publish batch (seen ++ (consumer, leg) :: legs)))
    (hother : other ≠ task) :
    (bus.outline calls).Aside task id
      ((bus.deliver other publish batch seen consumer leg legs).2.outline calls) := by
  obtain ⟨notices, hlook⟩ := advanceLeg_looked bus calls (.live publish) other consumer batch leg
  have hheld : (bus.advanceLeg other consumer (.live publish) batch leg).2.tasks.lookup other
      = some (.fanOut publish batch (seen ++ (consumer, leg) :: legs)) :=
    (congrFun hlook.frame.task other).trans h
  unfold deliver
  dsimp only
  rw [outline_setTask _ hheld]
  exact (hlook.aside (Or.inr nofun)).trans (.setTask hother _)

theorem report_aside {publish : Nat} {batch : List Event} {legs : List (Consumer × Leg)}
    (hother : other ≠ task) :
    (bus.outline calls).Aside task id
      ((bus.finishFanOut other publish batch legs).outline calls) := by
  have hnoted : (bus.outline calls).Aside task id
      ((bus.noteAll (fanOutNotices bus.canceled legs)).outline calls) :=
    .report rfl rfl rfl
      (forall_mem_fanOutNotices (fun _ _ => rfl) (fun _ => rfl) (fun _ _ => rfl))
  rw [finishFanOut, outline_finish]
  exact hnoted.trans (.setTask hother _)

theorem finishReplay_aside (hother : other ≠ task) (sent : Nat) :
    (bus.outline calls).Aside task id ((bus.finishReplay other consumer sent).outline calls) := by
  rw [finishReplay, outline_finish]
  exact (note_aside _ rfl).trans (.setTask hother _)

theorem keepReplay_aside (h : bus.tasks.lookup other = some (.replay consumer phase))
    (hother : other ≠ task) (next : ReplayPhase) :
    (bus.outline calls).Aside task id ((bus.keepReplay other consumer next).outline calls) := by
  rw [keepReplay, outline_setTask _ h]
  exact .setTask hother _

theorem settleLeg_aside (h : bus.tasks.lookup other = some (.replay consumer phase))
    (hother : other ≠ task) (hid : consumer.id ≠ id) (rest : Stream) (sent : Nat) (leg : Leg) :
    (bus.outline calls).Aside task id
      ((bus.settleLeg other consumer rest sent leg).outline calls) := by
  unfold settleLeg
  split
  case h_1 => exact .refl _
  case h_5 =>
    have hnoted : (bus.note (.replayTimedOut consumer.id)).tasks.lookup other
        = some (.replay consumer phase) := h
    exact (note_aside (.replayTimedOut consumer.id) (if_neg hid)).trans
      (keepReplay_aside hnoted hother _)
  case h_6 | h_7 => exact finishReplay_aside hother sent
  all_goals exact keepReplay_aside h hother _

theorem openStream_aside (h : bus.tasks.lookup other = some (.replay consumer phase))
    (hother : other ≠ task) (answer : Except StoreError Stream) :
    (bus.outline calls).Aside task id ((bus.openStream other consumer answer).outline calls) := by
  unfold openStream
  split
  · exact keepReplay_aside h hother _
  · rw [outline_finish]
    exact .setTask hother _
  · rw [outline_finish]
    exact (note_aside _ rfl).trans (.setTask hother _)

theorem readHistory_aside [Store σ] (h : bus.tasks.lookup other = some (.replay consumer phase))
    (hother : other ≠ task) :
    (bus.outline calls).Aside task id ((bus.readHistory other consumer).2.outline calls) := by
  unfold readHistory
  split
  next => exact openStream_aside h hother _
  next store hstore =>
    let answer := Store.read (bus.isCanceled consumer.id) consumer.query store
    let answered := { bus with store? := some answer.store }.noteAll (answer.notices.map .store)
    have hanswered : (bus.outline calls).Aside task id (answered.outline calls) := by
      refine .report rfl rfl rfl fun notice hnotice => ?_
      obtain ⟨_, -, rfl⟩ := List.mem_map.mp hnotice
      rfl
    have hheld : answered.tasks.lookup other = some (.replay consumer phase) := h
    exact hanswered.trans (openStream_aside hheld hother _)

end Deliveries

section Steps

variable [Store σ] {other : TaskId} {consumer : Consumer} {phase : ReplayPhase}

/-- What a replay does in one step, from where it stands. -/
inductive ReplayStep (bus : Bus σ) (task : TaskId) (consumer : Consumer) :
    ReplayPhase → Bus σ → Prop where
  | read : ReplayStep bus task consumer .starting (bus.readHistory task consumer).2
  /-- Nothing comes to a stream that has ended. -/
  | stream {phase stream} (later : Stream) (hstream : phase.stream? = some stream)
      (h : stream.ends = true → later = stream) :
      ReplayStep bus task consumer phase (bus.keepReplay task consumer (phase.setStream later))
  | send {batch batches ends sent} (hsated : bus.isSated consumer sent = false) :
      ReplayStep bus task consumer (.taking ⟨batch :: batches, ends⟩ sent)
        (bus.sendBatch task consumer batch ⟨batches, ends⟩ sent).2
  | resend {selected deadline rest sent} :
      ReplayStep bus task consumer (.sending selected deadline rest sent)
        (bus.resendBatch task consumer selected deadline rest sent).2
  | quit {rest sent} (hover : bus.isSated consumer sent = true ∨ rest = ⟨[], true⟩) :
      ReplayStep bus task consumer (.taking rest sent) (bus.finishReplay task consumer sent)

/-- The replay to another consumer is no part of this one. -/
theorem ReplayStep.aside (step : ReplayStep bus other consumer phase bus')
    (h : bus.tasks.lookup other = some (.replay consumer phase)) (hother : other ≠ task)
    (hid : consumer.id ≠ id) : (bus.outline calls).Aside task id (bus'.outline calls) := by
  cases step with
  | read => exact readHistory_aside h hother
  | stream later _ _ => exact keepReplay_aside h hother _
  | quit _ => exact finishReplay_aside hother _
  | @send batch batches ends sent hsated =>
    obtain ⟨notices, hlook⟩ := beginLeg_looked bus calls .replay other consumer
      (batch.take (consumer.query.limit - sent))
    have hheld := (congrFun hlook.frame.task other).trans h
    exact (hlook.aside (Or.inl hid)).trans (settleLeg_aside hheld hother hid _ _ _)
  | @resend selected deadline rest sent =>
    obtain ⟨notices, hlook⟩ :=
      reviewLeg_looked bus calls .replay other consumer selected selected deadline
    have hheld := (congrFun hlook.frame.task other).trans h
    unfold resendBatch
    generalize bus.reviewLeg other consumer .replay selected deadline = reviewed at hlook hheld ⊢
    obtain ⟨leg, looked⟩ := reviewed
    cases leg with
    | done outcome =>
      exact (hlook.aside (Or.inl hid)).trans (settleLeg_aside hheld hother hid _ _ _)
    | fresh | waiting _ _ => exact hlook.aside (Or.inl hid)

/-- A step is one of a replay, or goes on aside from a given one. -/
theorem Step.replay_cases {world world' : World σ} {marks : List Mark}
    (step : Step world marks world') (fresh : world.outline.Fresh) (h : task < world.bus.nextTask)
    (hkind : ∀ publish batch legs,
      world.bus.tasks.lookup task ≠ some (.fanOut publish batch legs)) :
    world.outline.Aside task id world'.outline ∨
      ∃ other consumer phase, world.bus.tasks.lookup other = some (.replay consumer phase) ∧
        ReplayStep world.bus other consumer phase world'.bus := by
  cases step with
  | call _ _ | subscribe _ _ | giveUp | addHandle | mapStore _ | time _ | schedule _ _ =>
    exact Or.inl (.of_eq rfl rfl rfl)
  | enter _ =>
    unfold World.outline
    rw [outline_enter fresh]
    exact Or.inl (.of_eq rfl rfl rfl)
  | @receive _ _ calls _ _ hreceive =>
    obtain ⟨_, _, -, hsame⟩ := outline_receive calls hreceive
    unfold World.outline
    rw [hsame]
    exact Or.inl (.of_eq rfl rfl rfl)
  | close hclose =>
    rw [isSubscribed, Option.any_eq_true] at hclose
    obtain ⟨feed, hfeed, -⟩ := hclose
    unfold World.outline
    rw [outline_closeFeed hfeed]
    exact Or.inl (.of_eq rfl rfl rfl)
  | dropHandle => exact Or.inl (.of_same outline_dropHandle)
  | start =>
    refine Or.inl ?_
    unfold World.outline Bus.start
    dsimp only
    split
    · rw [outline_wake]
      exact .of_eq rfl rfl rfl
    · exact .refl _
  | dropCoordinator =>
    refine Or.inl ?_
    unfold World.outline Bus.dropCoordinator
    dsimp only
    split <;> exact .of_eq rfl rfl rfl
  | cancel => exact Or.inl (.of_same outline_cancel)
  | remark line => exact Or.inl (note_aside _ rfl)
  | watch hfeed _ => exact Or.inl (.of_same (outline_setFeed_of_shelf_eq _ hfeed rfl))
  | begin _ => exact Or.inl (.report rfl rfl rfl (List.forall_mem_singleton.mpr rfl))
  | take _ _ => exact Or.inl (take_aside fresh h _ _)
  | interrupt _ _ | runOut _ _ _ => exact Or.inl (stop_aside _)
  | review _ => exact Or.inl (review_aside fresh h _ _)
  | @deliver bus calls other publish batch seen consumer leg legs hfanOut =>
    refine Or.inl (deliver_aside hfanOut ?_)
    rintro rfl
    exact hkind _ _ _ hfanOut
  | report hfanOut _ =>
    refine Or.inl (report_aside ?_)
    rintro rfl
    exact hkind _ _ _ hfanOut
  | read hreplay => exact Or.inr ⟨_, _, _, hreplay, .read⟩
  | yield hreplay hstream hopen batch =>
    refine Or.inr ⟨_, _, _, hreplay, .stream _ hstream fun hends => ?_⟩
    rw [hopen] at hends
    cases hends
  | @hangUp _ _ _ _ _ stream hreplay hstream =>
    refine Or.inr ⟨_, _, _, hreplay, .stream _ hstream fun hends => ?_⟩
    rw [← hends]
  | send hreplay hsated => exact Or.inr ⟨_, _, _, hreplay, .send hsated⟩
  | resend hreplay => exact Or.inr ⟨_, _, _, hreplay, .resend⟩
  | quit hreplay hover => exact Or.inr ⟨_, _, _, hreplay, .quit hover⟩

end Steps

end EventBus.Bus
