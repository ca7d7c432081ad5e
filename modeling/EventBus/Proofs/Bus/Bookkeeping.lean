import EventBus.Proofs.Bus.Refinement
import EventBus.Proofs.Bus.Standing

/-!
Every step of a run is a few changes of the ledger. This is where the functions of the bus meet
the changes; what is said of tokens, places and cancellation rests on the changes alone.
-/

namespace EventBus.Bus

variable {σ : Type} {bus : Bus σ}

section Calls

theorem ledger_enqueue (command : Command) :
    (bus.enqueue command).ledger = bus.ledger.setCommands (bus.commands ++ [command]) := by
  unfold enqueue
  rw [ledger_wakeReceiver]
  rfl

theorem enter_changes (bus : Bus σ) (call : Call) (h : bus.coordinator.isGone = false) :
    Changes bus.ledger (bus.enter call).ledger := by
  cases call with
  | subscribe id query places =>
      show Changes bus.ledger ((bus.enqueue (.subscribe id query)).openFeed id places).ledger
      rw [ledger_openFeed, ledger_enqueue]
      exact .call (.subscribe h places)
  | publish _ | unsubscribe _ =>
      show Changes bus.ledger (bus.enqueue _).ledger
      rw [ledger_enqueue]
      exact .call (.send h nofun)

theorem receive_changes {bus' : Bus σ} {id : ConsumerId} {batch : List Event}
    (h : bus.receive id = (.batch batch, bus')) : Changes bus.ledger bus'.ledger := by
  unfold receive at h
  split at h
  next => cases h
  next feed hfeed =>
    cases hqueue : feed.queue with
    | nil =>
        simp only [Feed.pop?, hqueue] at h
        split at h <;> cases h
    | cons first queue =>
        simp only [Feed.pop?, hqueue, Prod.mk.injEq, Received.batch.injEq] at h
        obtain ⟨rfl, rfl⟩ := h
        have hroom := room_of_feed? hfeed
        rw [Feed.room, hqueue] at hroom
        let popped : Feed := { feed with queue, places := feed.places.release.1 }
        have hpopped : (bus.setFeed id popped).ledger = bus.ledger.setRoom id popped.room :=
          ledger_setFeed popped hfeed rfl
        rw [ledger_wakeIf, hpopped]
        exact .call (.receive hroom)

theorem close_changes {id : ConsumerId} (h : bus.isSubscribed id = true) :
    Changes bus.ledger (bus.closeFeed id).ledger := by
  rw [isSubscribed, Option.any_eq_true] at h
  obtain ⟨feed, hfeed, -⟩ := h
  rw [ledger_closeFeed hfeed]
  exact .call (.close (room_of_feed? hfeed))

theorem cancel_changes (bus : Bus σ) : Changes bus.ledger bus.cancel.ledger := by
  rw [ledger_cancel]
  exact .call .cancel

theorem start_changes (bus : Bus σ) : Changes bus.ledger bus.start.ledger := by
  unfold start
  split
  next h =>
    rw [ledger_wake]
    exact .coordinate (.start h)
  next => exact .refl _

theorem dropCoordinator_changes (bus : Bus σ) :
    Changes bus.ledger bus.dropCoordinator.ledger := by
  unfold dropCoordinator
  split
  next h => exact .coordinate (.discard h)
  next => exact .refl _

end Calls

section Coordinator

theorem begin_changes (h : bus.coordinator = .starting) :
    Changes bus.ledger bus.begin.ledger := by
  let started : Notice := .started bus.pool.size bus.settings.maxReplay bus.store?.isSome
  have hquiet : ∀ notice ∈ [started], notice.isQuiet = true := by simp [started, Notice.isQuiet]
  exact (Changes.coordinate (.begin h)).trans (.report _ hquiet)

theorem stop_changes (h : bus.coordinator = .receiving) (result : Except BusError Unit) :
    Changes bus.ledger (bus.stop result).ledger := by
  rw [ledger_stop]
  exact .coordinate (.stop h result)

/-- Work for which there is a token is begun, without one it is dropped. -/
theorem conclude_changes {job : Job} {acquired : Acquired} (h : bus.coordinator = .receiving)
    (hacquired : acquired ≠ .token) : Changes bus.ledger (bus.conclude job acquired).land.ledger := by
  cases acquired with
  | token => exact absurd rfl hacquired
  | waiting => exact .refl _
  | timedOut =>
      show Changes bus.ledger ((bus.letGoAll job.consumers).note _).ledger
      rw [ledger_note, ledger_letGoAll]
      exact .report _ (by simp [Notice.isQuiet])
  | canceled =>
      cases job with
      | fanOut _ _ _ =>
          show Changes bus.ledger ((bus.letGoAll _).stop _).ledger
          rw [ledger_stop, ledger_letGoAll]
          exact .coordinate (.stop h _)
      | replay _ => exact .of_eq (ledger_letGoAll _)

theorem acquire_changes {job : Job} (h : bus.coordinator = .receiving)
    (hheld : ∀ consumer ∈ job.consumers, bus.isRegistered consumer.id = true) :
    Changes bus.ledger (bus.acquire job).land.ledger := by
  unfold acquire Pool.request
  by_cases hcanceled : bus.canceled = true
  · rw [if_pos hcanceled]
    exact conclude_changes h nofun
  · rw [if_neg hcanceled]
    cases htokens : bus.pool.tokens.take? with
    | some tokens =>
        show Changes bus.ledger ({ bus with pool := { bus.pool with tokens } }.spawn job.task).ledger
        rw [ledger_spawn]
        exact .coordinate (.launch h hheld htokens)
    | none =>
        by_cases hpatient : 0 < bus.settings.workersTimeout
        · rw [decide_eq_true hpatient, if_pos rfl]
          exact .coordinate (.ask _ h hheld (Semaphore.take?_eq_none_iff.mp htokens))
        · rw [decide_eq_false hpatient, if_neg nofun]
          exact conclude_changes h nofun

theorem review_changes {job : Job} {deadline : Nat} (h : bus.coordinator = .acquiring job deadline) :
    Changes bus.ledger (bus.reviewAcquire job deadline).land.ledger := by
  let without : Bus σ :=
    { bus with pool := (bus.pool.leave ()).1, coordinator := .receiving }.clearTimer deadline
      .coordinator
  have hfree : without.coordinator = .receiving := rfl
  have hdesist : Changes bus.ledger without.ledger := .coordinate (.desist h)
  unfold reviewAcquire Pool.review
  by_cases hcanceled : bus.canceled = true
  · rw [if_pos hcanceled]
    exact hdesist.trans (conclude_changes hfree nofun)
  · rw [if_neg hcanceled]
    by_cases hkept : bus.pool.tokens.isGranted () = true
    · rw [if_pos hkept]
      let redeemed : Bus σ :=
        { bus with
          pool := { bus.pool with tokens := bus.pool.tokens.redeem () }
          coordinator := .receiving }.clearTimer deadline .coordinator
      show Changes bus.ledger (redeemed.spawn job.task).ledger
      rw [ledger_spawn]
      exact .coordinate (.redeem h hkept)
    · rw [if_neg hkept]
      by_cases hdue : deadline ≤ bus.now
      · rw [decide_eq_true hdue, if_pos rfl]
        exact hdesist.trans (conclude_changes hfree nofun)
      · rw [decide_eq_false hdue, if_neg nofun]
        exact .refl _

theorem pruneEach_changes (consumers : List Consumer) (h : bus.coordinator = .receiving) :
    Changes bus.ledger (bus.pruneEach consumers).ledger := by
  induction consumers generalizing bus with
  | nil => exact .refl _
  | cons consumer rest ih =>
      unfold pruneEach
      split
      next hgone =>
        have hpruned : (bus.pruneOne consumer.id).ledger
            = (bus.ledger.expel consumer.id).note [.pruned consumer.id] :=
          ledger_pruneOne consumer.id
        have hreceiving : (bus.pruneOne consumer.id).coordinator = .receiving :=
          (congrArg Ledger.coordinator hpruned).trans h
        have hroom : (bus.ledger.room consumer.id).isSome = true := by
          obtain ⟨feed, hfeed, -⟩ := (Option.any_eq_true _ _).mp hgone
          rw [room_of_feed? hfeed]
          rfl
        have hfirst : Changes bus.ledger (bus.pruneOne consumer.id).ledger := by
          rw [hpruned]
          exact .coordinate (.prune h hroom)
        exact hfirst.trans (ih hreceiving)
      next => exact ih h

theorem fanOut_changes {publish : Nat} {batch : List Event} (h : bus.coordinator = .receiving) :
    Changes bus.ledger (bus.fanOut publish batch).land.ledger := by
  have hpruned : bus.prune.outline [] = (bus.outline []).prune := outline_prune
  have hreceiving : bus.prune.coordinator = .receiving :=
    (congrArg Outline.coordinator hpruned).trans h
  have hprune : Changes bus.ledger bus.prune.ledger := pruneEach_changes bus.registry h
  unfold fanOut
  dsimp only
  split
  · exact hprune
  · refine hprune.trans (acquire_changes hreceiving fun consumer hconsumer => ?_)
    exact List.any_eq_true.mpr ⟨consumer, hconsumer, beq_self_eq_true _⟩

theorem take_publish_changes [Store σ] {batch : List Event} {rest : List Command}
    (h : bus.coordinator = .receiving) (hcommands : bus.commands = .publish batch :: rest) :
    Changes bus.ledger (bus.take (.publish batch) rest).land.ledger := by
  cases hstore : bus.store? with
  | none =>
      have hcounted : Changes bus.ledger (bus.counted batch rest).ledger :=
        .coordinate (.publish h hcommands)
      rw [take_publish_of_unstored hstore]
      exact hcounted.trans (fanOut_changes h)
  | some store =>
      have hanswered : Changes bus.ledger (bus.answered batch rest store).ledger :=
        (Changes.coordinate (.publish h hcommands)).trans
          (.report _ (by simp [storeNotices, Notice.isQuiet]))
      cases hwrite : (Store.write bus.canceled batch store).result with
      | error error =>
          have hreceiving : (bus.answered batch rest store).coordinator = .receiving := h
          rw [take_publish_of_refused hstore hwrite]
          exact hanswered.trans (stop_changes hreceiving _)
      | ok =>
          have hstored : Changes (bus.answered batch rest store).ledger
              ((bus.answered batch rest store).note (.stored batch)).ledger :=
            .report _ (by simp [Notice.isQuiet])
          rw [take_publish_of_accepted hstore hwrite]
          exact (hanswered.trans hstored).trans (fanOut_changes h)

theorem take_subscribe_changes [Store σ] {id : ConsumerId} {query : Query} {rest : List Command}
    (h : bus.coordinator = .receiving) (hcommands : bus.commands = .subscribe id query :: rest) :
    Changes bus.ledger (bus.take (.subscribe id query) rest).land.ledger := by
  let taken := { bus with commands := rest }.note (.took (.subscribe id query))
  let consumer : Consumer := ⟨id, query.clampLimit bus.settings.maxReplay⟩
  let enrolled : Bus σ := { taken.note (.registered consumer) with
    registry := insertConsumer consumer bus.registry, audience := bus.audience ++ [id] }
  have htake : bus.take (.subscribe id query) rest
      = if bus.isRegistered id then .next (taken.note (.alreadyRegistered id))
        else if bus.store?.isNone || !consumer.query.replay || consumer.query.limit == 0 then
          .next enrolled
        else enrolled.acquire (.replay consumer) := rfl
  rw [htake]
  split
  next hregistered =>
    have hknown : CoordinatorChange bus.ledger _ := .known h hcommands hregistered
    exact (Changes.coordinate hknown).trans (.report _ (by simp [Notice.isQuiet]))
  next =>
    have hquiet : ∀ notice ∈ [Notice.registered consumer], notice.isQuiet = true := by
      simp [Notice.isQuiet]
    have henroll : CoordinatorChange bus.ledger (((bus.ledger.setCommands rest).note
        [.took (.subscribe id query)]).setRegistry (insertConsumer consumer bus.registry)) :=
      .enroll h hcommands rfl
    have henrolled : Changes bus.ledger enrolled.ledger :=
      (Changes.coordinate henroll).trans (.report _ hquiet)
    split
    · exact henrolled
    · refine henrolled.trans (acquire_changes h ?_)
      intro other hother
      obtain rfl := List.mem_singleton.mp hother
      have hmem := (insertConsumer_perm consumer bus.registry).mem_iff.mpr List.mem_cons_self
      exact List.any_eq_true.mpr ⟨consumer, hmem, beq_self_eq_true _⟩

/-- Taking an Unsubscribe expels its consumer; one that is not registered is ignored. -/
theorem ledger_take_unsubscribe [Store σ] (bus : Bus σ) (id : ConsumerId) (rest : List Command) :
    (bus.take (.unsubscribe id) rest).land.ledger
      = if bus.isRegistered id then
          (((bus.ledger.setCommands rest).note [.took (.unsubscribe id)]).expel id).note
            [.unregistered id]
        else (bus.ledger.setCommands rest).note [.took (.unsubscribe id)] := by
  let taken := { bus with commands := rest }.note (.took (.unsubscribe id))
  let removed : Bus σ := { taken with registry := bus.registry.filter (·.id != id) }
  have htake : bus.take (.unsubscribe id) rest
      = if bus.isRegistered id then
          .next (((removed.cancelConsumer id).note (.unregistered id)).letGo id)
        else .next taken := rfl
  rw [htake]
  split
  next =>
    have hexpelled : (removed.cancelConsumer id).ledger
        = ((bus.ledger.setCommands rest).note [.took (.unsubscribe id)]).expel id := by
      rw [ledger_cancelConsumer]
      rfl
    rw [Handled.land, ledger_letGo, ledger_note, hexpelled]
  next => rfl

theorem take_unsubscribe_changes [Store σ] {id : ConsumerId} {rest : List Command}
    (h : bus.coordinator = .receiving) (hcommands : bus.commands = .unsubscribe id :: rest) :
    Changes bus.ledger (bus.take (.unsubscribe id) rest).land.ledger := by
  rw [ledger_take_unsubscribe]
  split
  next hregistered =>
    have hexpel : CoordinatorChange bus.ledger _ := .expel h hcommands hregistered
    exact (Changes.coordinate hexpel).trans (.report _ (by simp [Notice.isQuiet]))
  next hnot => exact .coordinate (.ignore h hcommands (Bool.eq_false_iff.mpr hnot))

theorem take_changes [Store σ] {command : Command} {rest : List Command}
    (h : bus.coordinator = .receiving) (hcommands : bus.commands = command :: rest) :
    Changes bus.ledger (bus.take command rest).land.ledger := by
  cases command with
  | publish batch => exact take_publish_changes h hcommands
  | subscribe id query => exact take_subscribe_changes h hcommands
  | unsubscribe id => exact take_unsubscribe_changes h hcommands

end Coordinator

section Deliveries

theorem Feed.offer_look (feed : Feed) (task : TaskId) (canceled : Bool) (now timeout : Nat)
    (selected : List Event) :
    Look task canceled feed.room .fresh (feed.offer task canceled now timeout selected).1
        (feed.offer task canceled now timeout selected).2.room
        ((feed.offer task canceled now timeout selected).1.put selected) ∧
      (feed.offer task canceled now timeout selected).2.canceled = feed.canceled := by
  unfold offer
  split
  next => exact ⟨.ends _, rfl⟩
  next =>
    split
    next => exact ⟨.ends _, rfl⟩
    next hcanceled =>
      split
      next => exact ⟨.ends _, rfl⟩
      next hopen =>
        rw [Bool.not_eq_true] at hcanceled hopen
        split
        next places hplace => exact ⟨.putsAtOnce selected hcanceled hopen hplace, rfl⟩
        next hnone =>
          split
          next => exact ⟨.ends _, rfl⟩
          next => exact ⟨.waits _ _ (Semaphore.take?_eq_none_iff.mp hnone), rfl⟩

theorem Feed.retry_look (feed : Feed) (task : TaskId) (canceled : Bool) (now : Nat)
    (selected : List Event) (deadline : Nat) :
    Look task canceled feed.room (.waiting selected deadline)
        (feed.retry task canceled now selected deadline).1
        (feed.retry task canceled now selected deadline).2.1.room
        ((feed.retry task canceled now selected deadline).1.put selected) ∧
      (feed.retry task canceled now selected deadline).2.1.canceled = feed.canceled := by
  unfold retry
  split
  next => exact ⟨.leaves selected deadline _, rfl⟩
  next hcanceled =>
    split
    next => exact ⟨.leaves selected deadline _, rfl⟩
    next hopen =>
      rw [Bool.not_eq_true] at hcanceled hopen
      split
      next hkept => exact ⟨.putsAfterWait selected deadline hcanceled hopen hkept, rfl⟩
      next =>
        split
        next => exact ⟨.leaves selected deadline _, rfl⟩
        next => exact ⟨.stays _ nofun, rfl⟩

variable {id : ConsumerId} {origin : Origin} {selected : List Event}

theorem ledger_recordLeg (leg : Leg) :
    (bus.recordLeg id selected origin leg).ledger
      = bus.ledger.note ((leg.put selected).map (.queued id · origin)) := by
  unfold recordLeg Leg.put
  split <;> simp

variable (bus) (task : TaskId) (consumer : Consumer) (origin)

theorem beginLeg_ledger (batch : List Event) :
    bus.ledger.Looked task consumer.id origin .fresh
      (bus.beginLeg task consumer origin batch).1
      (bus.beginLeg task consumer origin batch).2.ledger := by
  unfold beginLeg
  split
  next hnone => exact .without _ (by simp [ledger, hnone])
  next feed hfeed =>
    obtain ⟨hlook, hcanceled⟩ := feed.offer_look task (bus.isCanceled consumer.id) bus.now
      bus.settings.consumerTimeout (consumer.query.select batch)
    have hlooked : bus.ledger.Looked task consumer.id origin _ _ _ :=
      .within (room_of_feed? hfeed) hlook
    rw [← ledger_setFeed _ hfeed hcanceled, ← ledger_recordLeg] at hlooked
    dsimp only
    split <;> exact hlooked

theorem reviewLeg_ledger (deadline : Nat) :
    bus.ledger.Looked task consumer.id origin (.waiting selected deadline)
      (bus.reviewLeg task consumer origin selected deadline).1
      (bus.reviewLeg task consumer origin selected deadline).2.ledger := by
  unfold reviewLeg
  split
  next hnone => exact .without _ (by simp [ledger, hnone])
  next feed hfeed =>
    obtain ⟨hlook, hcanceled⟩ :=
      feed.retry_look task (bus.isCanceled consumer.id) bus.now selected deadline
    have hlooked : bus.ledger.Looked task consumer.id origin _ _ _ :=
      .within (room_of_feed? hfeed) hlook
    rw [← ledger_setFeed _ hfeed hcanceled, ← ledger_recordLeg] at hlooked
    dsimp only
    split <;> simp only [ledger_clearTimer, ledger_wakeIf] <;> exact hlooked

theorem advanceLeg_ledger (batch : List Event) (leg : Leg) :
    bus.ledger.Looked task consumer.id origin leg
      (bus.advanceLeg task consumer origin batch leg).1
      (bus.advanceLeg task consumer origin batch leg).2.ledger := by
  cases leg with
  | fresh => exact beginLeg_ledger bus origin task consumer batch
  | waiting selected deadline => exact reviewLeg_ledger bus origin task consumer deadline
  | done outcome => exact .ended outcome rfl

variable {bus origin task consumer} {leg leg' : Leg} {l l' : Ledger}

theorem Ledger.Looked.tasks (hlook : l.Looked task id origin leg leg' l') : l'.tasks = l.tasks := by
  cases hlook <;> rfl

theorem Look.ne_fresh {canceled : Bool} {room room' : Room} {put : List (List Event)}
    (hlook : Look task canceled room leg leg' room' put) : leg' ≠ .fresh := by
  cases hlook with
  | stays leg h => exact h
  | _ => simp

theorem Ledger.Looked.ne_fresh (hlook : l.Looked task id origin leg leg' l') : leg' ≠ .fresh := by
  cases hlook with
  | ended outcome h => simp [h]
  | without _ _ => simp
  | within _ hlook => exact hlook.ne_fresh

/-- A delivery that goes on waiting changes nothing. -/
theorem Ledger.Looked.eq_of_not_done (hlook : l.Looked task id origin leg leg' l')
    (hleg : leg ≠ .fresh) (hdone : leg'.isDone = false) : l' = l := by
  cases hlook with
  | ended _ _ => rfl
  | without _ _ => cases hdone
  | within h hlook =>
      cases hlook with
      | stays leg _ => rw [List.map_nil, Ledger.note_nil, Ledger.setRoom_eq_self h]
      | waits _ _ _ => exact absurd rfl hleg
      | _ => cases hdone

theorem Ledger.Looked.leg_eq_of_not_done (hlook : l.Looked task id origin leg leg' l')
    (hleg : leg ≠ .fresh) (hdone : leg'.isDone = false) : leg' = leg := by
  cases hlook with
  | ended _ _ => rfl
  | without _ _ => cases hdone
  | within _ hlook =>
      cases hlook with
      | stays leg _ => rfl
      | waits _ _ _ => exact absurd rfl hleg
      | _ => cases hdone

theorem deliver_changes {publish : Nat} {batch : List Event} {seen legs : List (Consumer × Leg)}
    (h : bus.tasks.lookup task = some (.fanOut publish batch (seen ++ (consumer, leg) :: legs))) :
    Changes bus.ledger (bus.deliver task publish batch seen consumer leg legs).2.ledger := by
  have hlook := advanceLeg_ledger bus (.live publish) task consumer batch leg
  unfold deliver
  generalize bus.advanceLeg task consumer (.live publish) batch leg = advanced at hlook ⊢
  obtain ⟨leg', bus'⟩ := advanced
  have hturn : (Task.fanOut publish batch (seen ++ (consumer, leg) :: legs)).Turns
      (.fanOut publish batch (seen ++ [(consumer, leg')] ++ legs)) consumer leg leg' := by
    refine ⟨by simp [Task.consumers], by simp [Task.consumers], waitsFor (seen ++ legs), ?_⟩
    intro id
    simp only [Task.legs, waitsFor, List.countP_append, List.countP_cons, List.countP_nil]
    omega
  exact .work (.look h hturn hlook)

theorem waitsFor_eq_zero {legs : List (Consumer × Leg)} (h : legs.all (·.2.isDone) = true)
    (id : ConsumerId) : waitsFor legs id = 0 := by
  rw [waitsFor, List.countP_eq_zero]
  intro entry hentry
  have hdone := List.all_eq_true.mp h entry hentry
  obtain ⟨_, leg⟩ := entry
  cases leg with
  | done _ => simp [Leg.isWaiting]
  | _ => cases hdone

theorem report_changes {publish : Nat} {batch : List Event} {legs : List (Consumer × Leg)}
    (h : bus.tasks.lookup task = some (.fanOut publish batch legs))
    (hdone : legs.all (·.2.isDone) = true) :
    Changes bus.ledger (bus.finishFanOut task publish batch legs).ledger := by
  have hquiet : ∀ notice ∈ fanOutNotices bus.canceled legs, notice.isQuiet = true :=
    forall_mem_fanOutNotices (fun _ _ => rfl) (fun _ => rfl) (fun _ _ => rfl)
  rw [finishFanOut, ledger_finish, ledger_noteAll]
  exact (Changes.report _ hquiet).trans (.work (.finish h (waitsFor_eq_zero hdone)))

section Replay

variable {phase phase' : ReplayPhase} {rest : Stream} {sent : Nat}

/-- A replay has at most one delivery, and none of them waits between two batches. -/
theorem Task.turns_replay
    (h : ∀ id, waitsFor (Task.replay consumer phase).legs id = waitsFor [(consumer, leg)] id)
    (h' : ∀ id, waitsFor (Task.replay consumer phase').legs id = waitsFor [(consumer, leg')] id) :
    (Task.replay consumer phase).Turns (.replay consumer phase') consumer leg leg' where
  consumers := rfl
  mem := List.mem_singleton_self consumer
  others := ⟨fun _ => 0, fun id => by rw [h, h', Nat.zero_add, Nat.zero_add]; exact ⟨rfl, rfl⟩⟩

theorem finishReplay_changes (h : bus.tasks.lookup task = some (.replay consumer phase))
    (hphase : ∀ id, waitsFor (Task.replay consumer phase).legs id = 0) :
    Changes bus.ledger (bus.finishReplay task consumer sent).ledger := by
  rw [finishReplay, ledger_finish, ledger_note]
  exact (Changes.report _ (by simp [Notice.isQuiet])).trans (.work (.finish h hphase))

theorem settleLeg_changes (h : l.tasks.lookup task = some (.replay consumer phase))
    (hleg : ∀ id, waitsFor (Task.replay consumer phase).legs id = waitsFor [(consumer, leg)] id)
    (hlook : l.Looked task consumer.id .replay leg leg' bus.ledger) :
    Changes l (bus.settleLeg task consumer rest sent leg').ledger := by
  have hkeep : ∀ phase', (∀ id, waitsFor (Task.replay consumer phase').legs id
      = waitsFor [(consumer, leg')] id) →
      Changes l (bus.ledger.setTask task (.replay consumer phase')) :=
    fun phase' hleg' => .work (.look h (Task.turns_replay hleg hleg') hlook)
  have htaking : leg'.isWaiting = false → ∀ sent,
      Changes l (bus.ledger.setTask task (.replay consumer (.taking rest sent))) :=
    fun hwaiting sent => hkeep _ fun id => (waitsFor_of_not_waiting hwaiting id).symm
  have hend : leg'.isWaiting = false → Changes l (bus.finishReplay task consumer sent).ledger := by
    intro hwaiting
    let taking := bus.keepReplay task consumer (.taking rest sent)
    have hheld : taking.tasks.lookup task = some (.replay consumer (.taking rest sent)) :=
      lookup_map_replace _ (hlook.tasks ▸ h)
    have hlast : Changes taking.ledger (taking.finishReplay task consumer sent).ledger :=
      finishReplay_changes hheld fun _ => rfl
    have hsame : (taking.finishReplay task consumer sent).ledger
        = (bus.finishReplay task consumer sent).ledger := by
      rw [finishReplay, finishReplay, ledger_finish, ledger_finish, ledger_note, ledger_note]
      exact Ledger.endTask_setTask (bus.ledger.note [.replayFinished consumer.id sent]) task _
    rw [← hsame]
    exact (htaking hwaiting sent).trans hlast
  cases leg' with
  | fresh => exact absurd rfl hlook.ne_fresh
  | waiting selected' deadline => exact hkeep _ fun _ => rfl
  | done outcome =>
      cases outcome with
      | delivered events => exact htaking rfl _
      | skipped => exact htaking rfl _
      | canceled => exact hend rfl
      | closed => exact hend rfl
      | timedOut =>
          have hquiet : ∀ notice ∈ [Notice.replayTimedOut consumer.id], notice.isQuiet = true := by
            simp [Notice.isQuiet]
          exact (htaking rfl sent).trans (.report _ hquiet)

theorem sendBatch_changes {batch : List Event} {batches : List (List Event)} {ends : Bool}
    (h : bus.tasks.lookup task = some (.replay consumer (.taking ⟨batch :: batches, ends⟩ sent))) :
    Changes bus.ledger (bus.sendBatch task consumer batch ⟨batches, ends⟩ sent).2.ledger :=
  settleLeg_changes h (fun id => (waitsFor_of_not_waiting rfl id).symm)
    (beginLeg_ledger bus .replay task consumer _)

theorem resendBatch_changes {deadline : Nat}
    (h : bus.tasks.lookup task = some (.replay consumer (.sending selected deadline rest sent))) :
    Changes bus.ledger (bus.resendBatch task consumer selected deadline rest sent).2.ledger := by
  have hlook : bus.ledger.Looked task consumer.id .replay (.waiting selected deadline) _ _ :=
    reviewLeg_ledger bus .replay task consumer deadline
  unfold resendBatch
  generalize bus.reviewLeg task consumer .replay selected deadline = reviewed at hlook ⊢
  obtain ⟨leg, bus'⟩ := reviewed
  cases leg with
  | done outcome => exact settleLeg_changes h (fun _ => rfl) hlook
  | fresh | waiting _ _ => exact .of_eq (hlook.eq_of_not_done nofun rfl)

theorem keepReplay_changes (h : bus.tasks.lookup task = some (.replay consumer phase))
    (hlegs : (Task.replay consumer phase').legs = (Task.replay consumer phase).legs) :
    Changes bus.ledger (bus.keepReplay task consumer phase').ledger :=
  .work (.proceed h ⟨rfl, fun id => by rw [hlegs]⟩)

theorem legs_setStream (stream : Stream) :
    (Task.replay consumer (phase.setStream stream)).legs = (Task.replay consumer phase).legs := by
  cases phase <;> rfl

theorem openStream_changes (answer : Except StoreError Stream)
    (h : bus.tasks.lookup task = some (.replay consumer .starting)) :
    Changes bus.ledger (bus.openStream task consumer answer).ledger := by
  cases answer with
  | ok stream => exact keepReplay_changes h rfl
  | error error =>
      by_cases hcanceled : error = .canceled
      · subst hcanceled
        rw [openStream, ledger_finish]
        exact .work (.finish h fun _ => rfl)
      · rw [openStream, ledger_finish, ledger_note]
        · exact (Changes.report _ (by simp [Notice.isQuiet])).trans
            (.work (.finish h fun _ => rfl))
        · simpa using hcanceled

theorem readHistory_changes [Store σ]
    (h : bus.tasks.lookup task = some (.replay consumer .starting)) :
    Changes bus.ledger (bus.readHistory task consumer).2.ledger := by
  unfold readHistory
  split
  next => exact openStream_changes _ h
  next store hstore =>
    let answer := Store.read (bus.isCanceled consumer.id) consumer.query store
    let answered := { bus with store? := some answer.store }.noteAll (answer.notices.map .store)
    have hanswered : Changes bus.ledger answered.ledger :=
      .report _ (by simp [Notice.isQuiet])
    have hheld : answered.tasks.lookup task = some (.replay consumer .starting) := h
    exact hanswered.trans (openStream_changes answer.result hheld)

end Replay

end Deliveries

/-- Every step is a few changes of the ledger. -/
theorem Step.changes [Store σ] {world world' : World σ} {marks : List Mark}
    (step : Step world marks world') : Changes world.bus.ledger world'.bus.ledger := by
  cases step with
  | call _ _ | subscribe _ _ | giveUp | addHandle | mapStore _ | time _ | schedule _ _ =>
      exact .refl _
  | enter h => exact enter_changes _ _ h
  | receive h => exact receive_changes h
  | close h => exact close_changes h
  | dropHandle => exact .of_eq ledger_dropHandle
  | start => exact start_changes _
  | dropCoordinator => exact dropCoordinator_changes _
  | cancel => exact cancel_changes _
  | remark line => exact .report _ (by simp [Notice.isQuiet])
  | watch h watchers => exact .of_eq (ledger_setFeed_of_room_eq _ h rfl rfl)
  | begin h => exact begin_changes h
  | take h hcommands => exact take_changes h hcommands
  | interrupt h hcanceled => exact stop_changes h _
  | runOut h hcommands hsenders => exact stop_changes h _
  | review h => exact review_changes h
  | deliver h => exact deliver_changes h
  | report h hdone => exact report_changes h hdone
  | read h => exact readHistory_changes h
  | yield h hstream hopen batch => exact keepReplay_changes h (legs_setStream _)
  | hangUp h hstream => exact keepReplay_changes h (legs_setStream _)
  | send h hsated => exact sendBatch_changes h
  | resend h => exact resendBatch_changes h
  | quit h hover => exact finishReplay_changes h fun _ => rfl

theorem Steps.changes [Store σ] {first last : World σ} {trace : List Mark}
    (steps : Steps first trace last) : Changes first.bus.ledger last.bus.ledger := by
  induction steps with
  | refl => exact .refl _
  | tail _ step ih => exact ih.trans step.changes

theorem Run.ledgerLaws [Store σ] {settings : Settings} {store? : Option σ} {trace : List Mark}
    {world : World σ} (run : Run settings store? trace world) : LedgerLaws world.bus.ledger :=
  (Steps.changes run).invariant (create_ledgerLaws settings store?) LedgerLaws.change

end EventBus.Bus
