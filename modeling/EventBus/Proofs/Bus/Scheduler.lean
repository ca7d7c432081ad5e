import EventBus.Bus.Schedule
import EventBus.Proofs.Bus.RegistryOrder
import EventBus.Proofs.Bus.StoreCalls

/-!
A bus that takes turns is a run: the turns of its parties and the passing of time go through steps
only. What holds of runs therefore holds of a bus that is left to itself. It calls its store itself,
so that the store it holds is the one that the recorded writes make; and no turn leaves a fan-out
half looked at.
-/

namespace EventBus.Bus

variable {σ : Type} {bus bus' bus'' : Bus σ}

/-- No fan-out is left with some of its deliveries looked at and others not. -/
def Outline.Rests (o : Outline) : Prop := ∀ publish, o.BetweenTurns publish

section Rests

variable {o o' : Outline} {marks : List Mark}

theorem Outline.Rests.of_task_eq (rests : o.Rests) (h : o'.task = o.task) : o'.Rests := by
  intro publish task batch legs hlegs
  rw [h] at hlegs
  exact rests publish task batch legs hlegs

theorem Outline.Rests.setTask (rests : o.Rests) {task : TaskId} {held? : Option Task}
    (h : ∀ publish batch legs, held? = some (.fanOut publish batch legs) →
      (∀ entry ∈ legs, entry.2 = .fresh) ∨ ∀ entry ∈ legs, entry.2 ≠ .fresh) :
    (o.setTask task held?).Rests := by
  intro publish other batch legs hlegs
  rw [Outline.setTask_task, Function.update_apply] at hlegs
  split at hlegs
  · exact h publish batch legs hlegs
  · exact rests publish other batch legs hlegs

/-- A delivery that is not looked at for the first time is one of a fan-out that has looked
at all of them. -/
theorem TaskMove.rests (move : TaskMove o marks o') (rests : o.Rests)
    (hquiet : ∀ publish id, .attempted publish id ∉ marks) : o'.Rests := by
  cases move with
  | @deliver task publish batch seen consumer leg legs marks leg' looked h hlook =>
      have hleg : leg ≠ .fresh := by
        rintro rfl
        exact hquiet publish consumer.id (by simp [attempt])
      have hbegun : ∀ entry ∈ seen ++ (consumer, leg) :: legs, entry.2 ≠ .fresh := by
        rcases rests publish task batch _ h with hfresh | hbegun
        · exact absurd (hfresh (consumer, leg) (by simp)) hleg
        · exact hbegun
      refine (rests.of_task_eq hlook.frame.task).setTask ?_
      intro publish' batch' legs' heq
      cases heq
      refine Or.inr fun entry hentry => ?_
      rcases List.mem_append.mp hentry with hseen | hentry
      · exact hbegun entry (List.mem_append_left _ hseen)
      · rcases List.mem_cons.mp hentry with rfl | hlegs
        · exact hlook.ne_fresh
        · exact hbegun entry (List.mem_append_right _ (List.mem_cons_of_mem _ hlegs))
  | read h => exact rests.setTask (by simp)
  | grow _ _ h hstream => exact rests.setTask (by simp)
  | send h hsend hlook hnext => exact (rests.of_task_eq hlook.frame.task).setTask (by simp)
  | finish h hend => exact rests.setTask (by simp)

theorem CoordinatorMove.rests (move : CoordinatorMove o marks o') (rests : o.Rests) :
    o'.Rests := by
  cases move with
  | @launch job deadline h =>
      have hspawned : (o.setTask o.nextTask (some job.task)).Rests := by
        refine rests.setTask ?_
        intro publish batch legs hjob
        cases job with
        | fanOut publish batch targets =>
            cases hjob
            exact Or.inl (by simp)
        | replay consumer => cases hjob
      exact hspawned.of_task_eq rfl
  | _ => exact rests.of_task_eq rfl

theorem Move.rests (move : Move o marks o') (rests : o.Rests)
    (hquiet : ∀ publish id, .attempted publish id ∉ marks) : o'.Rests := by
  cases move with
  | report _ => exact rests.of_task_eq rfl
  | call move => exact rests.of_task_eq move.frame.task
  | coordinate move => exact move.rests rests
  | work move => exact move.rests rests hquiet

theorem Moves.rests {trace : List Mark} (moves : Moves o trace o') (rests : o.Rests)
    (hquiet : ∀ publish id, .attempted publish id ∉ trace) : o'.Rests := by
  induction moves with
  | refl => exact rests
  | tail moves move ih =>
      refine move.rests (ih fun publish id h => ?_) fun publish id h => ?_
      · exact hquiet publish id (List.mem_append_left _ h)
      · exact hquiet publish id (List.mem_append_right _ h)

end Rests

section Reaches

theorem filter_isOfCall_news (earlier later : Bus σ) :
    (news earlier later).filter Mark.isOfCall = [] := by
  refine List.filter_eq_nil_iff.mpr fun mark hmark => ?_
  obtain ⟨notice, -, rfl⟩ := List.mem_map.mp hmark
  exact Bool.false_ne_true

variable [Store σ] {allowed : (σ → σ) → Prop} {seen more marks : List Mark}

/-- A bus comes to be another by steps that leave the calls under way alone. The outside sees so
much of it, and changes the store in the ways that are allowed. -/
def Leads (allowed : (σ → σ) → Prop) (seen : List Mark) (bus bus' : Bus σ) : Prop :=
  ∀ calls, ∃ trace, StoredSteps allowed ⟨bus, calls⟩ trace ⟨bus', calls⟩ ∧
    trace.filter Mark.isOfCall = seen

namespace Leads

theorem refl (bus : Bus σ) : Leads allowed [] bus bus := fun _ => ⟨[], .refl _, rfl⟩

theorem trans (first : Leads allowed seen bus bus') (second : Leads allowed more bus' bus'') :
    Leads allowed (seen ++ more) bus bus'' := by
  intro calls
  obtain ⟨trace, hfirst, hseen⟩ := first calls
  obtain ⟨trace', hsecond, hmore⟩ := second calls
  refine ⟨trace ++ trace', hfirst.trans hsecond, ?_⟩
  rw [List.filter_append, hseen, hmore]

theorem step (h : ∀ calls, Step ⟨bus, calls⟩ marks ⟨bus', calls⟩) (call : StoreCall bus bus' marks) :
    Leads allowed (marks.filter Mark.isOfCall) bus bus' := by
  refine fun calls => ⟨_, (StoredSteps.refl _).own (h calls) call, ?_⟩
  rw [List.nil_append, List.filter_append, filter_isOfCall_news, List.append_nil]

/-- The store changes in a way that is allowed. -/
theorem others {f : σ → σ} (h : allowed f) : Leads allowed [] bus (bus.mapStore f) :=
  fun _ => ⟨[], (StoredSteps.refl _).others h, rfl⟩

theorem fresh (leads : Leads allowed seen bus bus') (fresh : (bus.outline []).Fresh) :
    (bus'.outline []).Fresh := by
  obtain ⟨trace, stored, -⟩ := leads []
  exact (stored.steps.moves fresh).fresh fresh

end Leads

/-- A bus comes to be another by steps, the last of which leaves no fan-out half looked at. -/
structure Reaches (allowed : (σ → σ) → Prop) (seen : List Mark) (bus bus' : Bus σ) : Prop where
  leads : Leads allowed seen bus bus'
  rests : (bus.outline []).Fresh → (bus.outline []).Rests → (bus'.outline []).Rests

namespace Reaches

theorem refl (bus : Bus σ) : Reaches allowed [] bus bus := ⟨.refl bus, fun _ rests => rests⟩

theorem trans (first : Reaches allowed seen bus bus') (second : Reaches allowed more bus' bus'') :
    Reaches allowed (seen ++ more) bus bus'' where
  leads := first.leads.trans second.leads
  rests fresh rests := second.rests (first.leads.fresh fresh) (first.rests fresh rests)

theorem quiet (h : ∀ calls, Step ⟨bus, calls⟩ marks ⟨bus', calls⟩)
    (call : StoreCall bus bus' marks) (hquiet : ∀ publish id, .attempted publish id ∉ marks) :
    Reaches allowed (marks.filter Mark.isOfCall) bus bus' where
  leads := .step h call
  rests fresh rests := by
    obtain ⟨notices, hmoves⟩ := (h []).moves fresh
    exact hmoves.rests rests (by simpa using hquiet)

theorem step (h : ∀ calls, Step ⟨bus, calls⟩ [] ⟨bus', calls⟩) (hstore : bus'.store? = bus.store?) :
    Reaches allowed [] bus bus' :=
  quiet h (.nothing rfl (fun _ => rfl) hstore) (by simp)

theorem of_eq (h : bus = bus') : Reaches allowed [] bus bus' := h ▸ refl bus

end Reaches

end Reaches

section Turns

/-! Whose turn it is, and when, is left open by runs. -/

theorem wake_eq (bus : Bus σ) (actor : Actor) :
    bus.wake actor = { bus with ready := (bus.wake actor).ready } := by
  unfold wake
  split <;> rfl

theorem foldl_wake_eq {α : Type} (actor : α → Actor) (entries : List α) (bus : Bus σ) :
    entries.foldl (fun bus entry => bus.wake (actor entry)) bus = { bus with
      ready := (entries.foldl (fun bus entry => bus.wake (actor entry)) bus).ready } := by
  induction entries generalizing bus with
  | nil => rfl
  | cons entry entries ih =>
      rw [List.foldl_cons, ih, wake_eq]

theorem schedule_reaches [Store σ] {allowed : (σ → σ) → Prop} (bus : Bus σ) (ready : List Actor)
    (timers : List (Nat × Actor)) : Reaches allowed [] bus { bus with ready, timers } :=
  .step (fun _ => .schedule _ _) rfl

theorem time_reaches [Store σ] {allowed : (σ → σ) → Prop} (bus : Bus σ) (now : Nat) :
    Reaches allowed [] bus { bus with now } :=
  .step (fun _ => .time now) rfl

theorem reach_reaches [Store σ] {allowed : (σ → σ) → Prop} (bus : Bus σ) (now : Nat) :
    Reaches allowed [] bus (bus.reach now) := by
  refine (time_reaches bus now).trans ?_
  unfold reach
  dsimp only
  rw [foldl_wake_eq (fun timer : Nat × Actor => timer.2)]
  exact schedule_reaches _ _ _

end Turns

section Coordinator

/-- A command that was handled leaves the coordinator at work and the queue as it is. -/
def Handled.Continues (commands : List Command) : Handled σ → Prop
  | .next bus => bus.coordinator = .receiving ∧ bus.commands = commands
  | _ => True

theorem continues_of_outline {commands : List Command} {o : Outline}
    (h : bus.outline [] = o) (hcoordinator : o.coordinator = .receiving)
    (hcommands : o.commands = commands) : (Handled.next bus).Continues commands := by
  subst h
  exact ⟨hcoordinator, hcommands⟩

variable {commands : List Command}

theorem continues_conclude (job : Job) (acquired : Acquired) (h : bus.coordinator = .receiving)
    (hcommands : bus.commands = commands) : (bus.conclude job acquired).Continues commands := by
  have hletGo : (bus.letGoAll job.consumers).outline [] = bus.outline [] := outline_letGoAll _
  cases acquired with
  | token =>
      have hstart : (bus.startJob job).coordinator = bus.coordinator ∧
          (bus.startJob job).commands = bus.commands := by
        unfold startJob spawn
        rw [wake_eq]
        exact ⟨rfl, rfl⟩
      exact ⟨hstart.1.trans h, hstart.2.trans hcommands⟩
  | canceled =>
      cases job with
      | fanOut _ _ _ => trivial
      | replay consumer => exact continues_of_outline hletGo h hcommands
  | timedOut => exact continues_of_outline (outline_dropJob job) h hcommands
  | waiting => trivial

theorem continues_acquire (job : Job) (h : bus.coordinator = .receiving)
    (hcommands : bus.commands = commands) : (bus.acquire job).Continues commands := by
  unfold acquire
  split
  · trivial
  · apply continues_conclude
    · exact h
    · exact hcommands

theorem continues_fanOut (publish : Nat) (batch : List Event) (h : bus.coordinator = .receiving)
    (hcommands : bus.commands = commands) : (bus.fanOut publish batch).Continues commands := by
  have hprune : bus.prune.outline [] = (bus.outline []).prune := outline_prune
  have hcoordinator : bus.prune.coordinator = .receiving :=
    (congrArg Outline.coordinator hprune).trans h
  have hqueue : bus.prune.commands = commands := (congrArg Outline.commands hprune).trans hcommands
  unfold fanOut
  dsimp only
  split
  · exact ⟨hcoordinator, hqueue⟩
  · exact continues_acquire _ hcoordinator hqueue

variable [Store σ] {allowed : (σ → σ) → Prop}

theorem continues_handle (command : Command) (h : bus.coordinator = .receiving)
    (hcommands : bus.commands = commands) : (bus.handle command).Continues commands := by
  cases command with
  | publish batch =>
      show (bus.handlePublish batch).Continues commands
      unfold handlePublish
      dsimp only
      split
      · exact continues_fanOut _ _ h hcommands
      · split
        · exact continues_fanOut _ _ h hcommands
        · trivial
  | subscribe id query =>
      show (bus.handleSubscribe id query).Continues commands
      unfold handleSubscribe
      dsimp only
      split
      · exact ⟨h, hcommands⟩
      · split
        · exact ⟨h, hcommands⟩
        · exact continues_acquire _ h hcommands
  | unsubscribe id =>
      show (bus.handleUnsubscribe id).Continues commands
      unfold handleUnsubscribe
      split
      · refine continues_of_outline (outline_letGo id) ?_ ?_
        · rw [outline_note, outline_cancelConsumer]
          exact h
        · rw [outline_note, outline_cancelConsumer]
          exact hcommands
      · exact ⟨h, hcommands⟩

theorem not_attempted_written (command : Command) (publish : Nat) (id : ConsumerId) :
    .attempted publish id ∉ bus.written command := by
  cases command with
  | publish batch => cases hstore : bus.store? <;> simp [written, hstore]
  | _ => simp [written]

/-- The outside sees nothing of what is asked of the store. -/
theorem filter_isOfCall_written (command : Command) :
    (bus.written command).filter Mark.isOfCall = [] := by
  cases command with
  | publish batch => cases hstore : bus.store? <;> simp [written, hstore, Mark.isOfCall]
  | _ => rfl

theorem take_reaches {command : Command} {rest : List Command} (h : bus.coordinator = .receiving)
    (hcommands : bus.commands = command :: rest) :
    Reaches allowed [] bus (bus.take command rest).land := by
  rw [← @filter_isOfCall_written σ bus _ command]
  exact .quiet (fun _ => .take h hcommands) (storeCall_take command rest)
    (not_attempted_written command)

theorem stop_reaches {result : Except BusError Unit}
    (h : ∀ calls, Step ⟨bus, calls⟩ [] ⟨bus.stop result, calls⟩) :
    Reaches allowed [] bus (bus.stop result) :=
  .step h (congrArg Agenda.store? (agenda_stop result))

theorem begin_reaches (h : bus.coordinator = .starting) : Reaches allowed [] bus bus.begin :=
  .step (fun _ => .begin h) rfl

theorem serve_reaches (commands : List Command) (bus : Bus σ) (h : bus.coordinator = .receiving)
    (hcommands : bus.commands = commands) : Reaches allowed [] bus (serve commands bus) := by
  -- Each command that is handled leaves the coordinator at work, with the rest of the queue.
  induction commands generalizing bus with
  | nil =>
      unfold serve
      split
      next hcanceled => exact stop_reaches fun _ => .interrupt h hcanceled
      next =>
        split
        next hsenders => exact stop_reaches fun _ => .runOut h hcommands hsenders
        next => exact .refl bus
  | cons command rest ih =>
      unfold serve
      split
      next hcanceled => exact stop_reaches fun _ => .interrupt h hcanceled
      next =>
        have htake : Reaches allowed [] bus (bus.take command rest).land := take_reaches h hcommands
        have hcontinues : (bus.take command rest).Continues rest :=
          continues_handle command h rfl
        cases hhandled : bus.take command rest with
        | next served =>
            rw [hhandled] at htake hcontinues
            exact htake.trans (ih served hcontinues.1 hcontinues.2)
        | waits waiting =>
            rw [hhandled] at htake
            exact htake
        | failed error failed =>
            rw [hhandled] at htake
            exact htake

theorem review_reaches {job : Job} {deadline : Nat} (h : bus.coordinator = .acquiring job deadline) :
    Reaches allowed [] bus (bus.reviewAcquire job deadline).land := by
  refine .step (fun _ => .review h) ?_
  rcases @agenda_review σ bus job deadline with hsame | hconcluded
  · rw [hsame]
  · exact (Agenda.Handles.concludes hconcluded).store?

theorem resume_reaches {job : Job} {deadline : Nat} (h : bus.coordinator = .acquiring job deadline) :
    Reaches allowed [] bus (resume (bus.reviewAcquire job deadline)) := by
  have hreview : Reaches allowed [] bus (bus.reviewAcquire job deadline).land := review_reaches h
  have hcontinues : (bus.reviewAcquire job deadline).Continues bus.commands := by
    unfold reviewAcquire
    split
    · trivial
    · exact continues_conclude _ _ rfl rfl
  cases hhandled : bus.reviewAcquire job deadline with
  | next served =>
      rw [hhandled] at hreview hcontinues
      exact hreview.trans (serve_reaches _ served hcontinues.1 rfl)
  | waits waiting =>
      rw [hhandled] at hreview
      exact hreview
  | failed error failed =>
      rw [hhandled] at hreview
      exact hreview

theorem turnCoordinator_reaches (bus : Bus σ) : Reaches allowed [] bus bus.turnCoordinator := by
  unfold turnCoordinator
  split
  next h => exact (begin_reaches h).trans (serve_reaches _ bus.begin rfl rfl)
  next h => exact serve_reaches _ bus h rfl
  next job deadline h => exact resume_reaches h
  next => exact .refl bus

end Coordinator

section FanOut

variable {task : TaskId} {publish : Nat} {batch : List Event} {consumer : Consumer} {leg : Leg}
  {seen legs : List (Consumer × Leg)} {allowed : (σ → σ) → Prop}

/-- One delivery of a fan-out has been looked at, and no other task is touched. -/
theorem deliver_task
    (h : bus.tasks.lookup task = some (.fanOut publish batch (seen ++ (consumer, leg) :: legs))) :
    ∃ leg', leg' ≠ .fresh ∧
      (bus.deliver task publish batch seen consumer leg legs).1 = seen ++ [(consumer, leg')] ∧
      ((bus.deliver task publish batch seen consumer leg legs).2.outline []).task
        = Function.update (bus.outline []).task task
            (some (.fanOut publish batch (seen ++ (consumer, leg') :: legs))) := by
  obtain ⟨notices, hlook⟩ := advanceLeg_looked bus [] (.live publish) task consumer batch leg
  let advanced := bus.advanceLeg task consumer (.live publish) batch leg
  have hheld : advanced.2.tasks.lookup task
      = some (.fanOut publish batch (seen ++ (consumer, leg) :: legs)) :=
    (congrFun hlook.frame.task task).trans h
  refine ⟨advanced.1, hlook.ne_fresh, rfl, ?_⟩
  unfold deliver
  dsimp only
  rw [outline_setTask _ hheld, List.append_assoc]
  exact congrArg (Function.update · task _) hlook.frame.task

theorem filter_isOfCall_attempt (publish : Nat) (id : ConsumerId) (leg : Leg) :
    (attempt publish id leg).filter Mark.isOfCall = [] := by
  cases leg <;> rfl

theorem deliver_leads [Store σ]
    (h : bus.tasks.lookup task = some (.fanOut publish batch (seen ++ (consumer, leg) :: legs))) :
    Leads allowed [] bus (bus.deliver task publish batch seen consumer leg legs).2 := by
  rw [← filter_isOfCall_attempt publish consumer.id leg]
  exact .step (fun _ => .deliver h) (storeCall_deliver publish batch seen leg legs)

theorem report_reaches [Store σ] (h : bus.tasks.lookup task = some (.fanOut publish batch legs))
    (hdone : legs.all (·.2.isDone) = true) :
    Reaches allowed [] bus (bus.finishFanOut task publish batch legs) :=
  .step (fun _ => .report h hdone) (congrArg Agenda.store? (agenda_finish _ _))

/-- What looking at all deliveries of a fan-out comes to. -/
structure LooksAtAll [Store σ] (allowed : (σ → σ) → Prop) (task : TaskId) (publish : Nat)
    (batch : List Event) (bus : Bus σ) (result : List (Consumer × Leg) × Bus σ) : Prop where
  leads : Leads allowed [] bus result.2
  begun : ∀ entry ∈ result.1, entry.2 ≠ .fresh
  task : (result.2.outline []).task
    = Function.update (bus.outline []).task task (some (.fanOut publish batch result.1))

theorem deliverAll_looksAtAll [Store σ] (seen legs : List (Consumer × Leg)) (bus : Bus σ)
    (h : bus.tasks.lookup task = some (.fanOut publish batch (seen ++ legs)))
    (hseen : ∀ entry ∈ seen, entry.2 ≠ .fresh) :
    LooksAtAll allowed task publish batch bus (deliverAll task publish batch seen legs bus) := by
  -- The task holds the deliveries seen, as they are now, and those still to be looked at.
  induction legs generalizing seen bus with
  | nil =>
      rw [List.append_nil] at h
      have hheld : (bus.outline []).task task = some (.fanOut publish batch seen) := h
      have hself := Function.update_eq_self task (bus.outline []).task
      rw [hheld] at hself
      exact ⟨.refl bus, hseen, hself.symm⟩
  | cons entry legs ih =>
      obtain ⟨consumer, leg⟩ := entry
      obtain ⟨leg', hleg', hresult, htask⟩ := deliver_task h
      have hleads : Leads allowed [] bus (bus.deliver task publish batch seen consumer leg legs).2 :=
        deliver_leads h
      unfold deliverAll
      generalize bus.deliver task publish batch seen consumer leg legs = delivered at *
      obtain ⟨seen', bus'⟩ := delivered
      obtain rfl : seen' = seen ++ [(consumer, leg')] := hresult
      have hheld : bus'.tasks.lookup task
          = some (.fanOut publish batch (seen ++ [(consumer, leg')] ++ legs)) := by
        have hnow := congrFun htask task
        rw [Function.update_self] at hnow
        rw [List.append_assoc]
        exact hnow
      have hseen' : ∀ entry ∈ seen ++ [(consumer, leg')], entry.2 ≠ .fresh := by
        simpa [or_imp, forall_and, hleg'] using hseen
      have hall := ih (seen ++ [(consumer, leg')]) bus' hheld hseen'
      refine ⟨hleads.trans hall.leads, hall.begun, ?_⟩
      rw [hall.task, htask, Function.update_idem]

/-- The turn of a fan-out looks at all its deliveries. -/
theorem LooksAtAll.reaches [Store σ] {result : List (Consumer × Leg) × Bus σ}
    (hall : LooksAtAll allowed task publish batch bus result) :
    Reaches allowed [] bus result.2 where
  leads := hall.leads
  rests _ rests := by
    have hset : ((bus.outline []).setTask task (some (.fanOut publish batch result.1))).Rests := by
      refine rests.setTask ?_
      intro publish' batch' legs' heq
      cases heq
      exact Or.inr hall.begun
    exact hset.of_task_eq hall.task

theorem turnFanOut_reaches [Store σ]
    (h : bus.tasks.lookup task = some (.fanOut publish batch legs)) :
    Reaches allowed [] bus (bus.turnFanOut task publish batch legs) := by
  have hall : LooksAtAll allowed task publish batch bus
      (deliverAll task publish batch [] legs bus) :=
    deliverAll_looksAtAll [] legs bus h (by simp)
  unfold turnFanOut
  generalize deliverAll task publish batch [] legs bus = result at *
  obtain ⟨legs', bus'⟩ := result
  dsimp only
  split
  next hdone =>
    have hheld : bus'.tasks.lookup task = some (.fanOut publish batch legs') := by
      have hnow := congrFun hall.task task
      rwa [Function.update_self] at hnow
    exact hall.reaches.trans (report_reaches hheld hdone)
  next => exact hall.reaches

end FanOut

section Replay

variable {task : TaskId} {consumer : Consumer} {held : Task} {rest : Stream} {sent events : Nat}
  {leg : Leg} {allowed : (σ → σ) → Prop}

theorem lookup_settleLeg (h : bus.tasks.lookup task = some held)
    (hpassed : leg.passed? = some events) :
    (bus.settleLeg task consumer rest sent leg).tasks.lookup task
      = some (.replay consumer (.taking rest (sent + events))) := by
  cases leg with
  | fresh => cases hpassed
  | waiting _ _ => cases hpassed
  | done outcome =>
      cases outcome with
      | delivered _ =>
          cases hpassed
          exact lookup_map_replace _ h
      | skipped =>
          cases hpassed
          exact lookup_map_replace _ h
      | timedOut =>
          cases hpassed
          exact lookup_map_replace _ h
      | canceled => cases hpassed
      | closed => cases hpassed

theorem watch_reaches [Store σ] (bus : Bus σ) (task : TaskId) (id : ConsumerId) :
    Reaches allowed [] bus (bus.watch task id) := by
  unfold watch
  split
  next => exact .refl bus
  next feed hfeed => exact .step (fun _ => .watch hfeed _) rfl

theorem unwatch_reaches [Store σ] (bus : Bus σ) (task : TaskId) (id : ConsumerId) :
    Reaches allowed [] bus (bus.unwatch task id) := by
  unfold unwatch
  split
  next => exact .refl bus
  next feed hfeed => exact .step (fun _ => .watch hfeed _) rfl

theorem isCanceled_unwatch (bus : Bus σ) (task : TaskId) (id : ConsumerId) :
    (bus.unwatch task id).isCanceled id = bus.isCanceled id := by
  unfold unwatch
  split
  next => rfl
  next feed hfeed =>
    have hnow : (bus.setFeed id { feed with watchers := feed.watchers.erase task }).feed? id
        = some { feed with watchers := feed.watchers.erase task } :=
      lookup_map_replace _ hfeed
    unfold isCanceled
    rw [hnow, hfeed]
    rfl

theorem quit_reaches [Store σ]
    (h : bus.tasks.lookup task = some (.replay consumer (.taking rest sent)))
    (hover : bus.isSated consumer sent = true ∨ rest = ⟨[], true⟩) :
    Reaches allowed [] bus (bus.finishReplay task consumer sent) :=
  .step (fun _ => .quit h hover) (congrArg Agenda.store? (agenda_finishReplay sent))

theorem send_reaches_batch [Store σ] {batch : List Event} {batches : List (List Event)} {ends : Bool}
    (h : bus.tasks.lookup task = some (.replay consumer (.taking ⟨batch :: batches, ends⟩ sent)))
    (hsated : bus.isSated consumer sent = false) :
    Reaches allowed [] bus (bus.sendBatch task consumer batch ⟨batches, ends⟩ sent).2 :=
  .step (fun _ => .send h hsated) (congrArg Agenda.store? (agenda_sendBatch batch _ sent))

theorem lookup_sendBatch_of_passed {batch : List Event}
    (h : bus.tasks.lookup task = some held)
    (hpassed : (bus.sendBatch task consumer batch rest sent).1.passed? = some events) :
    (bus.sendBatch task consumer batch rest sent).2.tasks.lookup task
      = some (.replay consumer (.taking rest (sent + events))) := by
  obtain ⟨notices, hlook⟩ := beginLeg_looked bus [] .replay task consumer
    (batch.take (consumer.query.limit - sent))
  exact lookup_settleLeg ((congrFun hlook.frame.task task).trans h) hpassed

theorem sendStream_reaches [Store σ] (ends : Bool) (batches : List (List Event)) (sent : Nat)
    (bus : Bus σ)
    (h : bus.tasks.lookup task = some (.replay consumer (.taking ⟨batches, ends⟩ sent))) :
    Reaches allowed [] bus (sendStream task consumer ends batches sent bus) := by
  induction batches generalizing sent bus with
  | nil =>
      unfold sendStream
      split
      next hover =>
        rw [Bool.or_eq_true] at hover
        exact quit_reaches h (hover.imp_right fun hends => by rw [hends])
      next => exact watch_reaches bus task consumer.id
  | cons batch batches ih =>
      unfold sendStream
      split
      next hsated => exact quit_reaches h (Or.inl hsated)
      next hsated =>
        have hsend : Reaches allowed [] bus
            (bus.sendBatch task consumer batch ⟨batches, ends⟩ sent).2 :=
          send_reaches_batch h (Bool.eq_false_iff.mpr hsated)
        have hlookup : ∀ events,
            (bus.sendBatch task consumer batch ⟨batches, ends⟩ sent).1.passed? = some events →
            (bus.sendBatch task consumer batch ⟨batches, ends⟩ sent).2.tasks.lookup task
              = some (.replay consumer (.taking ⟨batches, ends⟩ (sent + events))) :=
          fun _ => lookup_sendBatch_of_passed h
        generalize bus.sendBatch task consumer batch ⟨batches, ends⟩ sent = result at *
        obtain ⟨leg, bus'⟩ := result
        dsimp only
        split
        next events hpassed => exact hsend.trans (ih _ bus' (hlookup events hpassed))
        next => exact hsend

theorem lookup_readHistory [Store σ] {stream : Stream} (h : bus.tasks.lookup task = some held)
    (hread : (bus.readHistory task consumer).1 = .ok stream) :
    (bus.readHistory task consumer).2.tasks.lookup task
      = some (.replay consumer (.taking stream 0)) := by
  unfold readHistory at hread ⊢
  split at hread <;> dsimp only at hread ⊢
  next hstore =>
    cases hread
    exact lookup_map_replace _ h
  next store hstore =>
    rw [hread]
    exact lookup_map_replace _ h

theorem not_attempted_yields (reader : ConsumerId) (answer : Except StoreError Stream)
    (publish : Nat) (id : ConsumerId) : .attempted publish id ∉ yields reader answer := by
  cases answer <;> simp [yields]

theorem filter_isOfCall_yields (id : ConsumerId) (answer : Except StoreError Stream) :
    (yields id answer).filter Mark.isOfCall = [] := by
  cases answer <;> simp [yields, Mark.isOfCall]

theorem read_reaches [Store σ]
    (h : bus.tasks.lookup task = some (.replay consumer .starting)) :
    Reaches allowed [] bus (bus.readHistory task consumer).2 := by
  rw [← filter_isOfCall_yields consumer.id (bus.readHistory task consumer).1]
  exact .quiet (fun _ => .read h) (storeCall_read h) (not_attempted_yields consumer.id _)

/-- A replay whose read has been answered delivers what it has found. -/
theorem sendHistory_reaches [Store σ]
    (h : bus.tasks.lookup task = some (.replay consumer .starting)) :
    Reaches allowed [] (bus.readHistory task consumer).2 (bus.startReplay task consumer) := by
  have hlookup : ∀ stream, (bus.readHistory task consumer).1 = .ok stream →
      (bus.readHistory task consumer).2.tasks.lookup task
        = some (.replay consumer (.taking stream 0)) :=
    fun _ hanswer => lookup_readHistory h hanswer
  unfold startReplay
  generalize bus.readHistory task consumer = result at *
  obtain ⟨answer, bus'⟩ := result
  cases answer with
  | ok stream => exact sendStream_reaches _ _ 0 bus' (hlookup stream rfl)
  | error error => exact .refl bus'

theorem startReplay_reaches [Store σ]
    (h : bus.tasks.lookup task = some (.replay consumer .starting)) :
    Reaches allowed [] bus (bus.startReplay task consumer) :=
  (read_reaches h).trans (sendHistory_reaches h)

theorem resend_reaches [Store σ] {selected : List Event} {deadline : Nat}
    (h : bus.tasks.lookup task = some (.replay consumer (.sending selected deadline rest sent))) :
    Reaches allowed [] bus (bus.resendBatch task consumer selected deadline rest sent).2 :=
  .step (fun _ => .resend h) (congrArg Agenda.store? (agenda_resendBatch selected deadline rest sent))

theorem lookup_resendBatch_of_passed {selected : List Event} {deadline : Nat}
    (h : bus.tasks.lookup task = some held)
    (hpassed :
      (bus.resendBatch task consumer selected deadline rest sent).1.passed? = some events) :
    (bus.resendBatch task consumer selected deadline rest sent).2.tasks.lookup task
      = some (.replay consumer (.taking rest (sent + events))) := by
  obtain ⟨notices, hlook⟩ :=
    reviewLeg_looked bus [] .replay task consumer selected selected deadline
  have hheld := (congrFun hlook.frame.task task).trans h
  unfold resendBatch at hpassed ⊢
  generalize bus.reviewLeg task consumer .replay selected deadline = reviewed at *
  obtain ⟨leg, bus'⟩ := reviewed
  cases leg with
  | done outcome => exact lookup_settleLeg hheld hpassed
  | _ => cases hpassed

theorem resumeReplay_reaches [Store σ] {selected : List Event} {deadline : Nat}
    (h : bus.tasks.lookup task = some (.replay consumer (.sending selected deadline rest sent))) :
    Reaches allowed [] bus (bus.resumeReplay task consumer selected deadline rest sent) := by
  have hresend : Reaches allowed [] bus
      (bus.resendBatch task consumer selected deadline rest sent).2 := resend_reaches h
  have hlookup : ∀ events,
      (bus.resendBatch task consumer selected deadline rest sent).1.passed? = some events →
      (bus.resendBatch task consumer selected deadline rest sent).2.tasks.lookup task
        = some (.replay consumer (.taking rest (sent + events))) :=
    fun _ => lookup_resendBatch_of_passed h
  unfold resumeReplay
  generalize bus.resendBatch task consumer selected deadline rest sent = result at *
  obtain ⟨leg, bus'⟩ := result
  dsimp only
  split
  next events hpassed =>
    exact hresend.trans (sendStream_reaches _ _ _ bus' (hlookup events hpassed))
  next => exact hresend

theorem turnReplay_reaches [Store σ] {phase : ReplayPhase}
    (h : bus.tasks.lookup task = some (.replay consumer phase)) :
    Reaches allowed [] bus (bus.turnReplay task consumer phase) := by
  cases phase with
  | starting => exact startReplay_reaches h
  | sending selected deadline rest sent => exact resumeReplay_reaches h
  | taking rest sent =>
      show Reaches allowed [] bus (if bus.isCanceled consumer.id then
        (bus.unwatch task consumer.id).finishReplay task consumer sent else bus)
      split
      next hcanceled =>
        have hunwatched : (bus.unwatch task consumer.id).tasks.lookup task
            = some (.replay consumer (.taking rest sent)) := by
          unfold unwatch
          split <;> exact h
        have hsated : (bus.unwatch task consumer.id).isSated consumer sent = true := by
          simp [isSated, isCanceled_unwatch, hcanceled]
        exact (unwatch_reaches bus task consumer.id).trans
          (quit_reaches hunwatched (Or.inl hsated))
      next => exact .refl bus

end Replay

section Time

variable [Store σ] {allowed : (σ → σ) → Prop}

theorem turn_reaches (bus : Bus σ) (actor : Actor) : Reaches allowed [] bus (bus.turn actor) := by
  cases actor with
  | coordinator => exact turnCoordinator_reaches bus
  | task id =>
      unfold turn
      split
      next => cases ‹Actor.task id = .coordinator›
      next task htask =>
        cases htask
        split
        next => exact .refl bus
        next publish batch legs h => exact turnFanOut_reaches h
        next consumer phase h => exact turnReplay_reaches h

theorem step?_reaches (h : bus.step? = some bus') : Reaches allowed [] bus bus' := by
  unfold step? at h
  cases hready : bus.ready with
  | nil =>
      rw [hready] at h
      cases h
  | cons actor rest =>
      rw [hready] at h
      cases h
      exact (schedule_reaches bus rest bus.timers).trans (turn_reaches _ actor)

theorem settleFor_reaches (fuel : Nat) (bus : Bus σ) :
    Reaches allowed [] bus (settleFor fuel bus) := by
  induction fuel generalizing bus with
  | zero => exact .refl bus
  | succ fuel ih =>
      unfold settleFor
      split
      next bus' h => exact (step?_reaches h).trans (ih bus')
      next => exact .refl bus

theorem settle_reaches (bus : Bus σ) : Reaches allowed [] bus bus.settle := settleFor_reaches _ bus

theorem passUntil_reaches (goal fuel : Nat) (bus : Bus σ) :
    Reaches allowed [] bus (passUntil goal fuel bus) := by
  have hwait : ∀ bus : Bus σ, Reaches allowed [] bus { bus with now := goal } :=
    fun bus => time_reaches bus goal
  induction fuel generalizing bus with
  | zero => exact hwait bus
  | succ fuel ih =>
      unfold passUntil
      split
      next deadline hdeadline =>
        split
        · exact ((reach_reaches bus deadline).trans (settle_reaches _)).trans (ih _)
        · exact hwait bus
      next => exact hwait bus

theorem pass_reaches (bus : Bus σ) (span : Nat) : Reaches allowed [] bus (bus.pass span) :=
  passUntil_reaches _ _ bus

end Time

end EventBus.Bus
