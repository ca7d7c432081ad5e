import EventBus.Proofs.Bus.Reached
import EventBus.Proofs.Bus.Vigil

/-!
A turn goes as far as its party can get. After it the party has nothing left to do until something
comes that it does not bring about itself, and it hears of whatever that may be. The loops of a
turn, over the commands in the queue, over the deliveries of a fan-out and over the batches of a
stream, end only where the next command, delivery or batch has to wait.
-/

namespace EventBus.Bus

variable {σ : Type} {bus bus' : Bus σ}

/-- The party has nothing to do, and hears of what could change that. -/
structure Sleeps (bus : Bus σ) (actor : Actor) : Prop where
  idle : ¬bus.Stirs actor
  hears : bus.Hears actor

theorem sleeps_of_ended {task : TaskId} (h : bus.tasks.lookup task = none) :
    bus.Sleeps (.task task) where
  idle := by
    rintro ⟨held, hheld, -⟩
    cases h.symm.trans hheld
  hears held hheld := by cases h.symm.trans hheld

theorem sleeps_of_task {task : TaskId} {held : Task} (h : bus.tasks.lookup task = some held)
    (hidle : ¬bus.TaskStirs task held) (hears : bus.TaskHears task held) :
    bus.Sleeps (.task task) where
  idle := by
    rintro ⟨other, hother, hstirs⟩
    cases h.symm.trans hother
    exact hidle hstirs
  hears other hother := by
    cases h.symm.trans hother
    exact hears

section Looks

variable {task : TaskId} {consumer : Consumer} {origin : Origin} {batch selected : List Event}
  {deadline : Nat} {canceled : Bool} {now : Nat} {leg leg' : Leg} {id : ConsumerId} {feed : Feed}

/-- One who goes on waiting has no reason not to. -/
theorem Feed.retry_waits
    (h : (feed.retry task canceled now selected deadline).1.isDone = false) :
    canceled = false ∧ feed.closed = false ∧ feed.places.isGranted task = false ∧ now < deadline ∧
      feed.retry task canceled now selected deadline = (.waiting selected deadline, feed, none) := by
  unfold Feed.retry at h ⊢
  split at h
  next => cases h
  next hlive =>
    rw [if_neg hlive]
    split at h
    next => cases h
    next hopen =>
      rw [if_neg hopen]
      split at h
      next => cases h
      next hkept =>
        rw [if_neg hkept]
        split at h
        next => cases h
        next hearly =>
          rw [if_neg hearly]
          exact ⟨Bool.eq_false_iff.mpr hlive, Bool.eq_false_iff.mpr hopen,
            Bool.eq_false_iff.mpr hkept, Nat.lt_of_not_le hearly, rfl⟩

/-- What a look at a delivery comes to, for the task that looks: the delivery is over, or has to
wait, and then the task is on the list of what could end the wait. -/
structure Glance (bus : Bus σ) (task : TaskId) (id : ConsumerId) (leg leg' : Leg) (bus' : Bus σ) :
    Prop where
  others : ∀ other, other ≠ id → bus'.feed? other = bus.feed? other
  idle : ¬bus'.LegStirs task id leg'
  watches : leg'.isWaiting = true → ∀ feed, bus'.feed? id = some feed → task ∈ feed.watchers
  timed : ∀ deadline,
    (leg'.isUntil deadline).toNat + bus.timers.count (deadline, .task task)
      ≤ (leg.isUntil deadline).toNat + bus'.timers.count (deadline, .task task)

theorem glance_done (bus : Bus σ) (task : TaskId) (id : ConsumerId) (leg : Leg)
    (outcome : Outcome) : Glance bus task id leg (.done outcome) bus where
  others _ _ := rfl
  idle := nofun
  watches := nofun
  timed _ := Nat.add_le_add_right (Nat.zero_le _) _

theorem wakeIf_eq (bus : Bus σ) (task? : Option TaskId) :
    bus.wakeIf task? = { bus with ready := (bus.wakeIf task?).ready } := by
  cases task? with
  | none => rfl
  | some task => exact wake_eq bus _

theorem exists_history_recordLeg (bus : Bus σ) (id : ConsumerId) (selected : List Event)
    (origin : Origin) (leg : Leg) :
    ∃ history, bus.recordLeg id selected origin leg = { bus with history } := by
  unfold recordLeg
  split <;> exact ⟨_, rfl⟩

/-- A delivery has to wait that is neither cancelled nor late, at an open feed where no place is kept
for it. -/
theorem not_legStirs_waiting (hlive : bus.isCanceled id = false) (hearly : bus.now < deadline)
    (hfeed : bus.feed? id = some feed) (hopen : feed.closed = false)
    (hkept : feed.places.isGranted task = false) :
    ¬bus.LegStirs task id (.waiting selected deadline) := by
  rintro (hcanceled | hdue | hserved)
  · exact Bool.eq_false_iff.mp hlive hcanceled
  · exact absurd hearly (Nat.not_lt_of_le hdue)
  · rcases hserved feed hfeed with hclosed | hgranted
    · exact Bool.eq_false_iff.mp hopen hclosed
    · exact Bool.eq_false_iff.mp hkept hgranted

/-- A first look at a delivery. No place is kept for the task in the feed. -/
theorem glance_beginLeg
    (hkept : ∀ feed, bus.feed? consumer.id = some feed → feed.places.isGranted task = false) :
    Glance bus task consumer.id .fresh (bus.beginLeg task consumer origin batch).1
      (bus.beginLeg task consumer origin batch).2 := by
  cases hfeed : bus.feed? consumer.id with
  | none =>
    rw [beginLeg, hfeed]
    exact glance_done ..
  | some feed =>
    have hlook := feed.offer_look task (bus.isCanceled consumer.id) bus.now
      bus.settings.consumerTimeout (consumer.query.select batch)
    rw [beginLeg, hfeed]
    dsimp only
    generalize hoffered : feed.offer task (bus.isCanceled consumer.id) bus.now
      bus.settings.consumerTimeout (consumer.query.select batch) = offered at hlook
    obtain ⟨leg, feed'⟩ := offered
    have hset : (bus.setFeed consumer.id feed').feed?
        = Function.update bus.feed? consumer.id (some feed') := feed?_setFeed feed' hfeed
    have hothers : ∀ other, other ≠ consumer.id →
        (bus.setFeed consumer.id feed').feed? other = bus.feed? other := fun other hother => by
      rw [hset, Function.update_of_ne hother]
    have hnow : (bus.setFeed consumer.id feed').feed? consumer.id = some feed' :=
      (congrFun hset consumer.id).trans (Function.update_self ..)
    obtain ⟨history, hrecorded⟩ := exists_history_recordLeg (bus.setFeed consumer.id feed')
      consumer.id (consumer.query.select batch) origin leg
    dsimp only
    rw [hrecorded]
    cases leg with
    | done outcome => exact ⟨hothers, nofun, nofun, fun _ => Nat.le_refl _⟩
    | fresh => exact absurd rfl hlook.1.ne_fresh
    | waiting selected deadline =>
      obtain ⟨hlive, hopen, hearly, hfeed'⟩ := Feed.offer_waits (congrArg Prod.fst hoffered)
      rw [hoffered] at hfeed'
      obtain rfl : feed' = _ := hfeed'
      have hlive' := (congrFun (isCanceled_setFeed _ hfeed hlook.2) consumer.id).trans hlive
      refine ⟨hothers, not_legStirs_waiting hlive' hearly hnow hopen (hkept feed hfeed),
        fun _ found hfound => ?_, fun other => ?_⟩
      · cases hnow.symm.trans hfound
        exact List.mem_append_right _ (List.mem_singleton_self task)
      · show _ ≤ 0 + (bus.timers ++ [(deadline, Actor.task task)]).count (other, .task task)
        rw [List.count_append, Nat.zero_add, Nat.add_comm]
        refine Nat.add_le_add_left ?_ _
        by_cases hother : deadline = other
        · subst hother
          simp [Leg.isUntil]
        · simp [Leg.isUntil, hother]

/-- Another look at a delivery that waits. The task is a watcher of the feed. -/
theorem glance_reviewLeg
    (hwatches : ∀ feed, bus.feed? consumer.id = some feed → task ∈ feed.watchers) :
    Glance bus task consumer.id (.waiting selected deadline)
      (bus.reviewLeg task consumer origin selected deadline).1
      (bus.reviewLeg task consumer origin selected deadline).2 := by
  cases hfeed : bus.feed? consumer.id with
  | none =>
    rw [reviewLeg, hfeed]
    exact glance_done ..
  | some feed =>
    have hwaits := @Feed.retry_waits task selected deadline (bus.isCanceled consumer.id) bus.now feed
    have hcanceled := (feed.retry_look task (bus.isCanceled consumer.id) bus.now selected deadline).2
    rw [reviewLeg, hfeed]
    dsimp only
    generalize feed.retry task (bus.isCanceled consumer.id) bus.now selected deadline = retried
      at hwaits hcanceled
    obtain ⟨leg, feed', next⟩ := retried
    have hset : (bus.setFeed consumer.id feed').feed?
        = Function.update bus.feed? consumer.id (some feed') := feed?_setFeed feed' hfeed
    have hothers : ∀ other, other ≠ consumer.id →
        (bus.setFeed consumer.id feed').feed? other = bus.feed? other := fun other hother => by
      rw [hset, Function.update_of_ne hother]
    have hnow : (bus.setFeed consumer.id feed').feed? consumer.id = some feed' :=
      (congrFun hset consumer.id).trans (Function.update_self ..)
    obtain ⟨history, hrecorded⟩ := exists_history_recordLeg (bus.setFeed consumer.id feed')
      consumer.id selected origin leg
    dsimp only
    rw [hrecorded, wakeIf_eq]
    cases hdone : leg.isDone with
    | true =>
      rw [if_pos rfl]
      cases leg with
      | fresh | waiting _ _ => cases hdone
      | done outcome =>
        refine ⟨hothers, nofun, nofun, fun other => ?_⟩
        show 0 + bus.timers.count (other, .task task) ≤ ((Leg.waiting selected deadline).isUntil
          other).toNat + (bus.timers.erase (deadline, Actor.task task)).count (other, .task task)
        by_cases hother : deadline = other
        · subst hother
          rw [List.count_erase_self]
          simp only [Leg.isUntil, BEq.rfl, Bool.toNat_true]
          omega
        · rw [List.count_erase_of_ne (by simpa using Ne.symm hother)]
          omega
    | false =>
      obtain ⟨hlive, hopen, hkept, hearly, hsame⟩ := hwaits hdone
      cases hsame
      have hlive' := (congrFun (isCanceled_setFeed feed hfeed rfl) consumer.id).trans hlive
      refine ⟨hothers, not_legStirs_waiting hlive' hearly hnow hopen hkept, fun _ found hfound => ?_,
        fun _ => Nat.le_refl _⟩
      cases hnow.symm.trans hfound
      exact hwatches feed hfeed

theorem glance_advanceLeg
    (hfresh : leg = .fresh → ∀ feed, bus.feed? consumer.id = some feed →
      feed.places.isGranted task = false)
    (hwatches : leg.isWaiting = true → ∀ feed, bus.feed? consumer.id = some feed →
      task ∈ feed.watchers) :
    Glance bus task consumer.id leg (bus.advanceLeg task consumer origin batch leg).1
      (bus.advanceLeg task consumer origin batch leg).2 := by
  cases leg with
  | fresh => exact glance_beginLeg (hfresh rfl)
  | waiting selected deadline => exact glance_reviewLeg (hwatches rfl)
  | done outcome => exact glance_done ..

end Looks

section FanOut

variable {task : TaskId} {publish : Nat} {batch : List Event} {consumer : Consumer}
  {leg leg' : Leg} {seen legs : List (Consumer × Leg)} {id : ConsumerId}

theorem legStirs_congr (hfeed : bus'.feed? id = bus.feed? id)
    (hcanceled : bus'.isCanceled = bus.isCanceled) (hnow : bus'.now = bus.now) :
    bus'.LegStirs task id leg ↔ bus.LegStirs task id leg := by
  cases leg with
  | fresh | done _ => exact Iff.rfl
  | waiting selected deadline =>
    unfold LegStirs Served
    rw [hfeed, hcanceled, hnow]

theorem waitsUntil_append_cons (seen : List (Consumer × Leg)) (consumer : Consumer) (leg : Leg)
    (legs : List (Consumer × Leg)) (deadline : Nat) :
    waitsUntil (seen ++ (consumer, leg) :: legs) deadline
      = waitsUntil (seen ++ legs) deadline + (leg.isUntil deadline).toNat := by
  unfold waitsUntil
  rw [List.countP_append, List.countP_append, List.countP_cons, ← Nat.add_assoc]
  cases leg.isUntil deadline <;> rfl

theorem ne_of_targets_distinct (h : ((seen ++ (consumer, leg) :: legs).map (·.1.id)).Nodup) :
    ∀ entry ∈ seen ++ legs, entry.1.id ≠ consumer.id := by
  rw [List.map_append, List.map_cons, List.nodup_middle, List.nodup_cons, ← List.map_append] at h
  exact fun entry hentry hsame => h.1 (hsame ▸ List.mem_map_of_mem hentry)

/-- Deliveries of the fan-out that have been looked at wait, and those to come are as they were. -/
theorem taskHears_deliver {looked : Bus σ}
    (glance : Glance bus task consumer.id leg leg' looked) (hnow : looked.now = bus.now)
    (hothers : ∀ entry ∈ seen ++ legs, entry.1.id ≠ consumer.id)
    (hears : bus.TaskHears task (.fanOut publish batch (seen ++ (consumer, leg) :: legs))) :
    looked.TaskHears task (.fanOut publish batch (seen ++ (consumer, leg') :: legs)) where
  watches id hwaits feed hfeed := by
    have hold : ∀ entry ∈ seen ++ legs, entry ∈ seen ++ (consumer, leg) :: legs :=
      fun entry h => List.perm_middle.mem_iff.mpr (List.mem_cons_of_mem _ h)
    cases hwaits with
    | place hentry hwaiting =>
      rcases List.mem_cons.mp (List.perm_middle.mem_iff.mp hentry) with hsame | hother
      · cases hsame
        exact glance.watches hwaiting feed hfeed
      · rw [glance.others _ (hothers _ hother)] at hfeed
        exact hears.watches _ (.place (hold _ hother) hwaiting) feed hfeed
  timed deadline hearly := by
    have hbefore := hears.timed deadline (hnow ▸ hearly)
    have hlook := glance.timed deadline
    change waitsUntil (seen ++ (consumer, leg) :: legs) deadline ≤ _ at hbefore
    show waitsUntil (seen ++ (consumer, leg') :: legs) deadline ≤ _
    rw [waitsUntil_append_cons] at hbefore ⊢
    omega
  listens := nofun

/-- The task hears the same however it is kept. -/
theorem TaskHears.of_bus {held : Task} (hears : bus.TaskHears task held)
    (hfeed : bus'.feed? = bus.feed?) (hnow : bus'.now = bus.now) (htimers : bus'.timers = bus.timers) :
    bus'.TaskHears task held := by
  refine hears.imp (fun id _ feed h => ⟨feed, hfeed ▸ h, fun h => h⟩) fun deadline hearly => ?_
  exact ⟨hnow ▸ hearly, Nat.le_of_eq (htimers ▸ rfl)⟩

theorem glance_deliver [Store σ] (reached : Reached bus)
    (h : bus.tasks.lookup task = some (.fanOut publish batch (seen ++ (consumer, leg) :: legs)))
    (hothers : ∀ entry ∈ seen ++ legs, entry.1.id ≠ consumer.id)
    (hears : bus.TaskHears task (.fanOut publish batch (seen ++ (consumer, leg) :: legs))) :
    Glance bus task consumer.id leg (bus.advanceLeg task consumer (.live publish) batch leg).1
      (bus.advanceLeg task consumer (.live publish) batch leg).2 := by
  have hmem : (consumer, leg) ∈ seen ++ (consumer, leg) :: legs :=
    List.mem_append_right _ List.mem_cons_self
  refine glance_advanceLeg ?_ fun hwaiting => hears.watches _ (.place hmem hwaiting)
  rintro rfl feed hfeed
  refine reached.not_granted h (List.countP_eq_zero.mpr fun entry hentry => ?_) hfeed
  rcases List.mem_cons.mp (List.perm_middle.mem_iff.mp hentry) with rfl | hother
  · simp [Leg.isWaiting]
  · simp [hothers entry hother]

/-- What the deliveries that a fan-out has looked at come to. -/
structure LooksRound (task : TaskId) (publish : Nat) (batch : List Event)
    (result : List (Consumer × Leg) × Bus σ) : Prop where
  hears : result.2.TaskHears task (.fanOut publish batch result.1)
  idle : ∀ entry ∈ result.1, ¬result.2.LegStirs task entry.1.id entry.2

theorem deliverAll_looksRound [Store σ] (seen legs : List (Consumer × Leg)) (bus : Bus σ)
    (reached : Reached bus)
    (h : bus.tasks.lookup task = some (.fanOut publish batch (seen ++ legs)))
    (hears : bus.TaskHears task (.fanOut publish batch (seen ++ legs)))
    (hidle : ∀ entry ∈ seen, ¬bus.LegStirs task entry.1.id entry.2) :
    LooksRound task publish batch (deliverAll task publish batch seen legs bus) := by
  -- Those seen wait on, whatever is looked at after them, for no two are of one consumer.
  induction legs generalizing seen bus with
  | nil =>
    rw [List.append_nil] at hears
    exact ⟨hears, hidle⟩
  | cons entry legs ih =>
    obtain ⟨consumer, leg⟩ := entry
    have hothers := ne_of_targets_distinct (reached.targets_distinct h)
    have hglance := glance_deliver reached h hothers hears
    have hlook := advanceLeg_ledger bus (.live publish) task consumer batch leg
    have hnow : (bus.advanceLeg task consumer (.live publish) batch leg).2.now = bus.now :=
      (@spares_advanceLeg σ bus task consumer (.live publish) batch leg).now
    have hcanceled : (bus.advanceLeg task consumer (.live publish) batch leg).2.isCanceled
        = bus.isCanceled := congrArg Ledger.isCanceled hlook.eq
    have hleads : Leads (fun _ => True) [] bus
        (bus.deliver task publish batch seen consumer leg legs).2 := deliver_leads h
    have hheld := lookup_deliver h
    have hhears := taskHears_deliver hglance hnow hothers hears
    rw [List.append_cons] at hheld hhears
    refine ih _ _ (hleads.reached reached) hheld (hhears.of_bus rfl rfl rfl) fun entry hentry => ?_
    rcases List.mem_append.mp hentry with hseen | hlast
    · have hother := hothers entry (List.mem_append_left _ hseen)
      have hsame : (bus.advanceLeg task consumer (.live publish) batch leg).2.LegStirs task
          entry.1.id entry.2 ↔ bus.LegStirs task entry.1.id entry.2 :=
        legStirs_congr (hglance.others _ hother) hcanceled hnow
      exact fun hstirs => hidle entry hseen (hsame.mp hstirs)
    · cases List.mem_singleton.mp hlast
      exact hglance.idle

theorem turnFanOut_sleeps [Store σ] (reached : Reached bus)
    (h : bus.tasks.lookup task = some (.fanOut publish batch legs))
    (hears : bus.Hears (.task task)) :
    (bus.turnFanOut task publish batch legs).Sleeps (.task task) := by
  have hround : LooksRound task publish batch (deliverAll task publish batch [] legs bus) :=
    deliverAll_looksRound [] legs bus reached h (hears _ h) nofun
  have hall : LooksAtAll (fun _ => True) task publish batch bus
      (deliverAll task publish batch [] legs bus) :=
    deliverAll_looksAtAll [] legs bus h nofun
  have hheld := congrFun hall.task task
  rw [Function.update_self] at hheld
  unfold turnFanOut
  dsimp only
  split
  next => exact sleeps_of_ended (lookup_finish _ task _)
  next hwaiting =>
    refine sleeps_of_task hheld ?_ hround.hears
    rintro (⟨entry, hentry, hstirs⟩ | hdone)
    · exact hround.idle entry hentry hstirs
    · exact hwaiting hdone

end FanOut

section Replay

variable {task : TaskId} {consumer : Consumer} {phase : ReplayPhase} {rest : Stream} {sent : Nat}
  {leg leg' : Leg} {selected : List Event} {deadline : Nat}

theorem sleeps_finishReplay (bus : Bus σ) (task : TaskId) (consumer : Consumer) (sent : Nat) :
    (bus.finishReplay task consumer sent).Sleeps (.task task) :=
  sleeps_of_ended (lookup_finishReplay bus task consumer sent)

/-- A replay whose delivery waits for a place. -/
theorem sleeps_of_sending
    (h : bus.tasks.lookup task = some (.replay consumer (.sending selected deadline rest sent)))
    (hidle : ¬bus.LegStirs task consumer.id (.waiting selected deadline))
    (hwatches : ∀ feed, bus.feed? consumer.id = some feed → task ∈ feed.watchers)
    (htimed : (deadline, .task task) ∈ bus.timers) : bus.Sleeps (.task task) := by
  refine sleeps_of_task h ?_ ⟨fun id hwaits => ?_, fun other _ => ?_, nofun⟩
  · rintro (⟨entry, hentry, hstirs⟩ | hdue)
    · cases List.mem_singleton.mp hentry
      exact hidle hstirs
    · exact hdue
  · cases hwaits with
    | place hentry hwaiting =>
      cases List.mem_singleton.mp hentry
      exact hwatches
  · by_cases hother : deadline = other
    · subst hother
      exact Nat.le_trans List.countP_le_length (List.count_pos_iff.mpr htimed)
    · have hnone : waitsUntil [(consumer, .waiting selected deadline)] other = 0 := by
        simp [waitsUntil, Leg.isUntil, hother]
      exact Nat.le_trans (Nat.le_of_eq hnone) (Nat.zero_le _)

/-- A delivery of a replay after which no other can follow is over for good, or waits. -/
theorem sleeps_settleLeg {looked : Bus σ} (h : looked.tasks.lookup task = some (.replay consumer phase))
    (glance : Glance bus task consumer.id .fresh leg looked) (hbegun : leg ≠ .fresh)
    (hpassed : leg.passed? = none) :
    (looked.settleLeg task consumer rest sent leg).Sleeps (.task task) := by
  cases leg with
  | fresh => exact absurd rfl hbegun
  | waiting selected deadline =>
    have hafter := glance.timed deadline
    have huntil : (Leg.waiting selected deadline).isUntil deadline = true := beq_self_eq_true deadline
    have hfresh : (Leg.fresh.isUntil deadline).toNat = 0 := rfl
    rw [huntil, Bool.toNat_true, hfresh, Nat.zero_add] at hafter
    refine sleeps_of_sending (lookup_map_replace _ h) glance.idle (glance.watches rfl)
      (List.count_pos_iff.mp ?_)
    exact Nat.le_trans (Nat.le_add_right 1 _) hafter
  | done outcome =>
    cases outcome with
    | delivered _ | skipped | timedOut => cases hpassed
    | canceled | closed => exact sleeps_finishReplay looked task consumer sent

theorem sleeps_watch {ends : Bool}
    (h : bus.tasks.lookup task = some (.replay consumer (.taking ⟨[], ends⟩ sent)))
    (hmore : ¬(bus.isSated consumer sent || ends) = true) :
    (bus.watch task consumer.id).Sleeps (.task task) := by
  rw [Bool.or_eq_true, isSated, Bool.or_eq_true, decide_eq_true_iff, not_or, not_or,
    Bool.not_eq_true ends] at hmore
  obtain ⟨⟨hwanted, hlive⟩, rfl⟩ := hmore
  have hwatched : ∀ feed, (bus.watch task consumer.id).feed? consumer.id = some feed →
      task ∈ feed.watchers := by
    intro feed hfeed
    unfold watch at hfeed
    split at hfeed
    next hnone => cases hnone.symm.trans hfeed
    next old hold =>
      rw [feed?_setFeed _ hold, Function.update_self] at hfeed
      cases hfeed
      exact List.mem_append_right _ (List.mem_singleton_self task)
  have hcanceled : (bus.watch task consumer.id).isCanceled = bus.isCanceled := by
    unfold watch
    split
    next => rfl
    next old hold => exact isCanceled_setFeed _ hold rfl
  have hheld : (bus.watch task consumer.id).tasks.lookup task
      = some (.replay consumer (.taking ⟨[], false⟩ sent)) := by
    unfold watch
    split <;> exact h
  refine sleeps_of_task hheld ?_ ⟨fun id hwaits => ?_, fun _ _ => Nat.zero_le _, ?_⟩
  · rintro (⟨entry, hentry, -⟩ | hdue)
    · cases hentry
    · exact hlive (hcanceled ▸ hdue)
  · cases hwaits with
    | place hentry _ => cases hentry
    | stream => exact hwatched
  · rintro consumer rest sent ⟨⟩
    exact ⟨rfl, Nat.lt_of_not_le hwanted⟩

variable [Store σ]

theorem lookup_readHistory_error {error : StoreError}
    (h : (bus.readHistory task consumer).1 = .error error) :
    (bus.readHistory task consumer).2.tasks.lookup task = none := by
  unfold readHistory at h ⊢
  split at h <;> dsimp only at h ⊢
  next => cases h
  next store hstore =>
    rw [h]
    cases error <;> exact lookup_finish _ task _

/-- A replay stops taking batches only for one that has to wait, or at the end of what is there. -/
theorem sendStream_sleeps (ends : Bool) (batches : List (List Event)) (sent : Nat) (bus : Bus σ)
    (reached : Reached bus)
    (h : bus.tasks.lookup task = some (.replay consumer (.taking ⟨batches, ends⟩ sent))) :
    (sendStream task consumer ends batches sent bus).Sleeps (.task task) := by
  induction batches generalizing sent bus with
  | nil =>
    unfold sendStream
    split
    next => exact sleeps_finishReplay bus task consumer sent
    next hmore => exact sleeps_watch h hmore
  | cons batch batches ih =>
    unfold sendStream
    split
    next => exact sleeps_finishReplay bus task consumer sent
    next hsated =>
      let part := batch.take (consumer.query.limit - sent)
      have hglance : Glance bus task consumer.id .fresh
          (bus.beginLeg task consumer .replay part).1 (bus.beginLeg task consumer .replay part).2 :=
        glance_beginLeg fun feed hfeed => reached.not_granted h rfl hfeed
      have hlook := beginLeg_ledger bus .replay task consumer part
      have hheld : (bus.beginLeg task consumer .replay part).2.tasks.lookup task
          = some (.replay consumer (.taking ⟨batch :: batches, ends⟩ sent)) :=
        (congrArg (List.lookup task) hlook.tasks).trans h
      have hsend : Leads (fun _ => True) [] bus
          (bus.sendBatch task consumer batch ⟨batches, ends⟩ sent).2 :=
        (send_reaches_batch h (Bool.eq_false_iff.mpr hsated)).leads
      dsimp only
      split
      next events hpassed =>
        exact ih _ _ (hsend.reached reached) (lookup_sendBatch_of_passed h hpassed)
      next hpassed => exact sleeps_settleLeg hheld hglance hlook.ne_fresh hpassed

theorem startReplay_sleeps (reached : Reached bus)
    (h : bus.tasks.lookup task = some (.replay consumer .starting)) :
    (bus.startReplay task consumer).Sleeps (.task task) := by
  have hread : Leads (fun _ => True) [] bus (bus.readHistory task consumer).2 :=
    (read_reaches h).leads
  unfold startReplay
  split
  next stream bus' hanswer =>
    have hbus : (bus.readHistory task consumer).2 = bus' := congrArg Prod.snd hanswer
    have hheld : (bus.readHistory task consumer).2.tasks.lookup task = _ :=
      lookup_readHistory h (congrArg Prod.fst hanswer)
    rw [hbus] at hread hheld
    exact sendStream_sleeps _ _ 0 bus' (hread.reached reached) hheld
  next error bus' hanswer =>
    have hended : (bus.readHistory task consumer).2.tasks.lookup task = none :=
      lookup_readHistory_error (congrArg Prod.fst hanswer)
    rw [show (bus.readHistory task consumer).2 = bus' from congrArg Prod.snd hanswer] at hended
    exact sleeps_of_ended hended

theorem Ledger.Looked.eq_leg_of_not_done {l l' : Ledger} {origin : Origin} {id : ConsumerId}
    (hlook : l.Looked task id origin leg leg' l') (hleg : leg ≠ .fresh)
    (hdone : leg'.isDone = false) : leg' = leg := by
  cases hlook with
  | ended _ _ => rfl
  | without _ _ => cases hdone
  | within _ hlook =>
    cases hlook with
    | stays _ _ => rfl
    | waits _ _ _ => exact absurd rfl hleg
    | _ => cases hdone

theorem resumeReplay_sleeps (reached : Reached bus)
    (h : bus.tasks.lookup task = some (.replay consumer (.sending selected deadline rest sent)))
    (hears : bus.Hears (.task task)) :
    (bus.resumeReplay task consumer selected deadline rest sent).Sleeps (.task task) := by
  obtain ⟨hwatches, htimed, -⟩ := hears _ h
  have hglance : Glance bus task consumer.id (.waiting selected deadline)
      (bus.reviewLeg task consumer .replay selected deadline).1
      (bus.reviewLeg task consumer .replay selected deadline).2 :=
    glance_reviewLeg (hwatches _ (.place (List.mem_singleton_self _) rfl))
  have hnow : (bus.reviewLeg task consumer .replay selected deadline).2.now = bus.now :=
    (@spares_reviewLeg σ bus task consumer .replay selected deadline).now
  have hlook : bus.ledger.Looked task consumer.id .replay (.waiting selected deadline) _ _ :=
    reviewLeg_ledger bus .replay task consumer deadline
  have hheld : (bus.reviewLeg task consumer .replay selected deadline).2.tasks.lookup task = _ :=
    (congrArg (List.lookup task) hlook.tasks).trans h
  have hresend : Leads (fun _ => True) [] bus
      (bus.resendBatch task consumer selected deadline rest sent).2 := (resend_reaches h).leads
  unfold resumeReplay
  unfold resendBatch at hresend ⊢
  generalize bus.reviewLeg task consumer .replay selected deadline = reviewed at *
  obtain ⟨leg, looked⟩ := reviewed
  cases leg with
  | fresh => exact absurd rfl hlook.ne_fresh
  | done outcome =>
    dsimp only
    split
    next events hpassed =>
      exact sendStream_sleeps _ _ _ _ (hresend.reached reached) (lookup_settleLeg hheld hpassed)
    next hpassed =>
      cases outcome with
      | delivered _ | skipped | timedOut => cases hpassed
      | canceled | closed => exact sleeps_finishReplay looked task consumer sent
  | waiting selected deadline =>
    cases hlook.eq_leg_of_not_done nofun rfl
    have hearly : bus.now < deadline :=
      Nat.lt_of_not_le fun hdue => hglance.idle (Or.inr (Or.inl (hnow ▸ hdue)))
    have hbefore : 1 ≤ bus.timers.count (deadline, .task task) :=
      Nat.le_trans (waitsUntil_pos (List.mem_singleton_self _)) (htimed deadline hearly)
    have hafter := hglance.timed deadline
    refine sleeps_of_sending hheld hglance.idle (hglance.watches rfl) (List.count_pos_iff.mp ?_)
    exact Nat.le_trans hbefore (Nat.le_of_add_le_add_left hafter)

theorem turnReplay_sleeps (reached : Reached bus)
    (h : bus.tasks.lookup task = some (.replay consumer phase)) (hears : bus.Hears (.task task)) :
    (bus.turnReplay task consumer phase).Sleeps (.task task) := by
  cases phase with
  | starting => exact startReplay_sleeps reached h
  | sending selected deadline rest sent => exact resumeReplay_sleeps reached h hears
  | taking rest sent =>
    show (if bus.isCanceled consumer.id then
      (bus.unwatch task consumer.id).finishReplay task consumer sent else bus).Sleeps _
    split
    next => exact sleeps_finishReplay _ task consumer sent
    next hlive =>
      refine sleeps_of_task h ?_ (hears _ h)
      rintro (⟨entry, hentry, -⟩ | hdue)
      · cases hentry
      · exact hlive hdue

end Replay

section Coordinator

variable {job : Job} {deadline : Nat}

theorem sleeps_stop (bus : Bus σ) (result : Except BusError Unit) :
    (bus.stop result).Sleeps .coordinator :=
  ⟨nofun, nofun⟩

/-- A coordinator that has to wait with a command does so with nothing else to do. -/
def Handled.Rests : Handled σ → Prop
  | .waits bus => bus.Sleeps .coordinator
  | _ => True

theorem rests_conclude {acquired : Acquired} (h : acquired ≠ .waiting) :
    (bus.conclude job acquired).Rests := by
  cases acquired with
  | token | timedOut => trivial
  | waiting => exact absurd rfl h
  | canceled => cases job <;> trivial

theorem sleeps_of_acquiring (h : bus.coordinator = .acquiring job deadline)
    (hlive : bus.canceled = false) (hearly : bus.now < deadline)
    (hgranted : bus.pool.tokens.granted = [])
    (htimer : (deadline, .coordinator) ∈ bus.timers) : bus.Sleeps .coordinator where
  idle hstirs := by
    rcases (coordinatorStirs_acquiring_iff h).mp hstirs with hcanceled | hdue | hkept
    · exact Bool.eq_false_iff.mp hlive hcanceled
    · exact absurd hearly (Nat.not_lt_of_le hdue)
    · exact hkept hgranted
  hears other until' h' _ := by
    cases h.symm.trans h'
    exact htimer

theorem rests_acquire (hgranted : bus.pool.tokens.granted = []) : (bus.acquire job).Rests := by
  unfold acquire
  split
  next pool hrequest =>
    obtain ⟨hlive, hpatient, htokens⟩ := Pool.patient_of_waits hrequest
    refine sleeps_of_acquiring rfl hlive ?_ ?_ (List.mem_append_right _ (List.mem_singleton_self _))
    · exact Nat.lt_add_of_pos_right (of_decide_eq_true hpatient)
    · exact (congrArg Semaphore.granted htokens).trans hgranted
  next acquired pool hwaits _ => exact rests_conclude hwaits

theorem pool_pruneEach (consumers : List Consumer) (bus : Bus σ) :
    (bus.pruneEach consumers).pool = bus.pool := by
  induction consumers generalizing bus with
  | nil => rfl
  | cons consumer consumers ih =>
    unfold pruneEach
    split
    · exact (ih _).trans (congrArg Ledger.pool (ledger_pruneOne consumer.id))
    · exact ih bus

theorem rests_fanOut (hgranted : bus.pool.tokens.granted = []) (publish : Nat)
    (batch : List Event) : (bus.fanOut publish batch).Rests := by
  have hpool : bus.prune.pool = bus.pool := pool_pruneEach bus.registry bus
  unfold fanOut
  dsimp only
  split
  · trivial
  · exact rests_acquire ((congrArg (fun pool : Pool Unit => pool.tokens.granted) hpool).trans hgranted)

theorem Pool.review_waits {pool pool' : Pool Unit} {canceled due : Bool} {next : Option Unit}
    (h : pool.review () canceled due = (.waiting, pool', next)) :
    canceled = false ∧ due = false ∧ pool.tokens.granted = [] := by
  unfold Pool.review at h
  split at h
  · cases h
  next hlive =>
    split at h
    · cases h
    next hkept =>
      split at h
      · cases h
      next hearly =>
        refine ⟨Bool.eq_false_iff.mpr hlive, Bool.eq_false_iff.mpr hearly, ?_⟩
        exact List.eq_nil_iff_forall_not_mem.mpr fun _ h => hkept (Semaphore.isGranted_iff.mpr h)

theorem rests_reviewAcquire (h : bus.coordinator = .acquiring job deadline)
    (hears : bus.Hears .coordinator) : (bus.reviewAcquire job deadline).Rests := by
  unfold reviewAcquire
  split
  next hreview =>
    obtain ⟨hlive, hdue, hgranted⟩ := Pool.review_waits hreview
    have hearly : bus.now < deadline := Nat.lt_of_not_le (of_decide_eq_false hdue)
    exact sleeps_of_acquiring h hlive hearly hgranted (hears job deadline h hearly)
  next acquired pool _ hwaits _ => exact rests_conclude hwaits

variable [Store σ]

theorem rests_take (hgranted : bus.pool.tokens.granted = []) (command : Command)
    (rest : List Command) : (bus.take command rest).Rests := by
  cases command with
  | publish batch =>
    show (handlePublish _ batch).Rests
    unfold handlePublish
    dsimp only
    split
    · refine rests_fanOut ?_ _ _
      exact hgranted
    · split
      · refine rests_fanOut ?_ _ _
        exact hgranted
      · trivial
  | subscribe id query =>
    show (handleSubscribe _ id query).Rests
    unfold handleSubscribe
    split
    · trivial
    · dsimp only
      split
      · trivial
      · refine rests_acquire ?_
        exact hgranted
  | unsubscribe id =>
    show (handleUnsubscribe _ id).Rests
    unfold handleUnsubscribe
    split <;> trivial

/-- The coordinator stops taking commands only when none is left, for one that has to wait, or for
good. -/
theorem serve_sleeps (commands : List Command) (bus : Bus σ) (reached : Reached bus)
    (h : bus.coordinator = .receiving) (hcommands : bus.commands = commands) :
    (serve commands bus).Sleeps .coordinator := by
  induction commands generalizing bus with
  | nil =>
    unfold serve
    split
    next => exact sleeps_stop bus _
    next hlive =>
      split
      next => exact sleeps_stop bus _
      next hsenders =>
        refine ⟨fun hstirs => ?_, fun job deadline hjob => absurd (h.symm.trans hjob) (by simp)⟩
        rcases (coordinatorStirs_receiving_iff h).mp hstirs with hcanceled | hsome | hnone
        · exact hlive hcanceled
        · exact hsome hcommands
        · exact hsenders hnone
  | cons command rest ih =>
    have hgranted : bus.pool.tokens.granted = [] := by
      refine reached.ledgerLaws.tokens.granted_eq_nil ?_
      show bus.coordinator.isAcquiring = false
      rw [h]
      rfl
    unfold serve
    split
    next => exact sleeps_stop bus _
    next hlive =>
      have htake : Leads (fun _ => True) [] bus (bus.take command rest).land :=
        (take_reaches h hcommands).leads
      have hcontinues : (bus.take command rest).Continues rest := continues_handle command h rfl
      have hrests := rests_take hgranted command rest
      split
      next served hserved =>
        rw [hserved] at htake hcontinues
        exact ih served (htake.reached reached) hcontinues.1 hcontinues.2
      next waiting hwaits =>
        rw [hwaits] at hrests
        exact hrests
      next error failed _ => exact sleeps_stop failed _

theorem turnCoordinator_sleeps (reached : Reached bus) (hears : bus.Hears .coordinator) :
    bus.turnCoordinator.Sleeps .coordinator := by
  unfold turnCoordinator
  split
  next h =>
    have hbegun : Leads (fun _ => True) [] bus bus.begin := (begin_reaches h).leads
    exact serve_sleeps _ bus.begin (hbegun.reached reached) rfl rfl
  next h => exact serve_sleeps _ bus reached h rfl
  next job deadline h =>
    have hreview : Leads (fun _ => True) [] bus (bus.reviewAcquire job deadline).land :=
      (review_reaches h).leads
    have hcontinues : (bus.reviewAcquire job deadline).Continues bus.commands := by
      unfold reviewAcquire
      split
      · trivial
      · exact continues_conclude _ _ rfl rfl
    have hrests := rests_reviewAcquire h hears
    unfold resume
    split
    next served hserved =>
      rw [hserved] at hreview hcontinues
      exact serve_sleeps _ served (hreview.reached reached) hcontinues.1 rfl
    next waiting hwaits =>
      rw [hwaits] at hrests
      exact hrests
    next error failed _ => exact sleeps_stop failed _
  next hstarting hreceiving hacquiring =>
    refine ⟨fun hstirs => ?_, fun job deadline h => absurd h (hacquiring job deadline)⟩
    cases hat : bus.coordinator with
    | starting => exact hstarting hat
    | receiving => exact hreceiving hat
    | acquiring job deadline => exact hacquiring job deadline hat
    | idle | absent | stopped _ =>
      change bus.CoordinatorStirs at hstirs
      rw [CoordinatorStirs, hat] at hstirs
      exact hstirs

end Coordinator

/-- Whoever has had a turn has nothing left to do, and hears of whatever could change that. -/
theorem turn_sleeps [Store σ] (reached : Reached bus) {actor : Actor} (hears : bus.Hears actor) :
    (bus.turn actor).Sleeps actor := by
  cases actor with
  | coordinator => exact turnCoordinator_sleeps reached hears
  | task id =>
    unfold turn
    dsimp only
    split
    next h => exact sleeps_of_ended h
    next publish batch legs h => exact turnFanOut_sleeps reached h hears
    next consumer phase h => exact turnReplay_sleeps reached h hears

end EventBus.Bus
