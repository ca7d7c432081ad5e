import EventBus.Proofs.Bus.Spares

/-!
Every turn leaves the other parties what they wait for: each function of the bus that is part of a
turn is put together of what does, and so is every turn as a whole.
-/

namespace EventBus.Bus

variable {σ : Type} {bus bus' bus'' : Bus σ} {busy : Option Actor} {ready : List Actor}

section Looks

variable {task : TaskId} {consumer : Consumer} {origin : Origin} {batch selected : List Event}
  {deadline : Nat} {canceled : Bool} {now timeout : Nat}

theorem Feed.offer_spares (feed : Feed) :
    FeedSpares busy ready feed (feed.offer task canceled now timeout selected).2 := by
  unfold Feed.offer
  split
  · exact .refl ..
  · split
    · exact .refl ..
    · split
      · exact .refl ..
      · split
        next places hplaces =>
          obtain ⟨-, -, hgranted⟩ := Semaphore.free_of_take? hplaces
          refine ⟨rfl, Or.inl, fun other _ h => Or.inl ?_, fun _ _ h => h⟩
          change other ∈ places.granted at h
          rwa [hgranted] at h
        next =>
          split
          · exact .refl ..
          · exact ⟨rfl, Or.inl, fun _ _ => Or.inl, fun _ _ h => List.mem_append_left _ h⟩

/-- One who begins to wait has no other reason to go on, and time left. -/
theorem Feed.offer_waits {feed : Feed}
    (h : (feed.offer task canceled now timeout batch).1 = .waiting selected deadline) :
    canceled = false ∧ feed.closed = false ∧ now < deadline ∧
      (feed.offer task canceled now timeout batch).2 = { feed with
        places := feed.places.wait task
        watchers := feed.watchers ++ [task] } := by
  unfold Feed.offer at h ⊢
  split at h
  · cases h
  next hsome =>
    rw [if_neg hsome]
    split at h
    · cases h
    next hlive =>
      rw [if_neg hlive]
      split at h
      · cases h
      next hopen =>
        rw [if_neg hopen]
        split at h
        · cases h
        next =>
          split at h
          · cases h
          next hpatient =>
            cases h
            refine ⟨Bool.eq_false_iff.mpr hlive, Bool.eq_false_iff.mpr hopen, ?_, ?_⟩
            · exact Nat.lt_add_of_pos_right (Nat.pos_of_ne_zero hpatient)
            · rw [if_neg hpatient]

theorem Feed.leave_spares {feed : Feed}
    (h : ∀ next, (feed.leave task).2 = some next → .task next ∈ ready) :
    FeedSpares (some (.task task)) ready feed (feed.leave task).1 where
  closed := rfl
  canceled := Or.inl
  granted other _ hother := (Semaphore.granted_leave hother).imp_right fun hnext => h other hnext
  watchers other hbusy hother := by
    have hne : other ≠ task := fun hsame => hbusy (hsame ▸ rfl)
    exact (List.mem_erase_of_ne hne).mpr hother

theorem Feed.retry_spares {feed : Feed}
    (h : ∀ next, (feed.retry task canceled now selected deadline).2.2 = some next →
      .task next ∈ ready) :
    FeedSpares (some (.task task)) ready feed
      (feed.retry task canceled now selected deadline).2.1 := by
  unfold Feed.retry at h ⊢
  split at h
  next hcanceled =>
    rw [if_pos hcanceled]
    exact Feed.leave_spares h
  next hcanceled =>
    rw [if_neg hcanceled]
    split at h
    next hclosed =>
      rw [if_pos hclosed]
      exact Feed.leave_spares h
    next hclosed =>
      rw [if_neg hclosed]
      split at h
      next hkept =>
        rw [if_pos hkept]
        refine ⟨rfl, Or.inl, fun other _ hother => Or.inl (List.mem_of_mem_erase hother), ?_⟩
        intro other hbusy hother
        have hne : other ≠ task := fun hsame => hbusy (hsame ▸ rfl)
        exact (List.mem_erase_of_ne hne).mpr hother
      next hkept =>
        rw [if_neg hkept]
        split at h
        next hdue =>
          rw [if_pos hdue]
          exact Feed.leave_spares h
        next hdue =>
          rw [if_neg hdue]
          exact .refl ..

theorem affairs_recordLeg (id : ConsumerId) (selected : List Event) (origin : Origin) (leg : Leg) :
    (bus.recordLeg id selected origin leg).affairs = bus.affairs := by
  unfold recordLeg
  split <;> rfl

theorem affairs_wakeIf (task? : Option TaskId) :
    (bus.wakeIf task?).affairs = bus.affairs.wakeIf task? := by
  cases task? with
  | none => rfl
  | some task =>
    show (bus.wake (.task task)).affairs = bus.affairs.wake (.task task)
    unfold wake
    by_cases h : bus.ready.contains (.task task) = true
    · rw [if_pos h, if_pos (show bus.affairs.ready.contains _ = true from h)]
    · rw [if_neg h, if_neg (show ¬bus.affairs.ready.contains _ = true from h)]
      rfl

/-- Who is given a place when a feed changes hands gets a turn. -/
theorem spares_setFeed_wakeIf {id : ConsumerId} {old feed : Feed} {task? : Option TaskId}
    (h : bus.feed? id = some old)
    (hfeed : ∀ ready, (∀ task, task? = some task → .task task ∈ ready) →
      FeedSpares busy ready old feed) :
    Spares busy bus ((bus.setFeed id feed).wakeIf task?) := by
  cases task? with
  | none => exact spares_setFeed h (List.Subset.refl _) (hfeed _ nofun)
  | some task =>
    show Spares busy bus ((bus.setFeed id feed).wake (.task task))
    rw [wake_eq]
    refine spares_setFeed h (fun other hother => mem_ready_wake.mpr (Or.inl hother))
      (hfeed _ fun other hother => ?_)
    exact mem_ready_wake.mpr (Or.inr (congrArg Actor.task (Option.some.inj hother).symm))

theorem spares_beginLeg : Spares busy bus (bus.beginLeg task consumer origin batch).2 := by
  unfold beginLeg
  split
  next => exact .refl bus
  next feed hfeed =>
    let offered := feed.offer task (bus.isCanceled consumer.id) bus.now
      bus.settings.consumerTimeout (consumer.query.select batch)
    have hset : Spares busy bus (bus.setFeed consumer.id offered.2) :=
      spares_setFeed hfeed (List.Subset.refl _) (Feed.offer_spares feed)
    have hrecorded : Spares busy bus ((bus.setFeed consumer.id offered.2).recordLeg consumer.id
        (consumer.query.select batch) origin offered.1) :=
      hset.trans (spares_of_affairs (affairs_recordLeg ..))
    dsimp only
    split
    next selected deadline hleg =>
      refine hrecorded.trans (spares_setTimer ?_)
      rw [hrecorded.now]
      exact (Feed.offer_waits hleg).2.2.1
    next => exact hrecorded

theorem spares_reviewLeg :
    Spares (some (.task task)) bus (bus.reviewLeg task consumer origin selected deadline).2 := by
  unfold reviewLeg
  split
  next => exact .refl bus
  next feed hfeed =>
    let retried := feed.retry task (bus.isCanceled consumer.id) bus.now selected deadline
    have hset : Spares (some (.task task)) bus
        ((bus.setFeed consumer.id retried.2.1).wakeIf retried.2.2) :=
      spares_setFeed_wakeIf hfeed fun _ => Feed.retry_spares
    have hrecorded : Spares (some (.task task)) bus
        (((bus.setFeed consumer.id retried.2.1).recordLeg consumer.id selected origin
          retried.1).wakeIf retried.2.2) := by
      refine hset.trans (spares_of_affairs ?_)
      rw [affairs_wakeIf, affairs_recordLeg, affairs_wakeIf]
    dsimp only
    split
    · exact hrecorded.trans (spares_clearTimer deadline _)
    · exact hrecorded

theorem spares_advanceLeg {leg : Leg} :
    Spares (some (.task task)) bus (bus.advanceLeg task consumer origin batch leg).2 := by
  cases leg with
  | fresh => exact spares_beginLeg
  | waiting selected deadline => exact spares_reviewLeg
  | done outcome => exact .refl bus

end Looks

section FanOut

variable {task : TaskId} {publish : Nat} {batch : List Event} {consumer : Consumer} {leg : Leg}
  {seen legs : List (Consumer × Leg)}

theorem spares_deliver
    (h : bus.tasks.lookup task = some (.fanOut publish batch (seen ++ (consumer, leg) :: legs))) :
    Spares (some (.task task)) bus (bus.deliver task publish batch seen consumer leg legs).2 := by
  have htasks : (bus.advanceLeg task consumer (.live publish) batch leg).2.tasks = bus.tasks :=
    (advanceLeg_ledger bus (.live publish) task consumer batch leg).tasks
  unfold deliver
  refine spares_advanceLeg.trans (spares_setTask (htasks ▸ h) ?_)
  simp [Task.consumers]

theorem spares_deliverAll (seen legs : List (Consumer × Leg)) (bus : Bus σ)
    (h : bus.tasks.lookup task = some (.fanOut publish batch (seen ++ legs))) :
    Spares (some (.task task)) bus (deliverAll task publish batch seen legs bus).2 := by
  induction legs generalizing seen bus with
  | nil => exact .refl bus
  | cons entry legs ih =>
    obtain ⟨consumer, leg⟩ := entry
    have hnow := lookup_deliver h
    rw [List.append_cons] at hnow
    exact (spares_deliver h).trans (ih _ _ hnow)

theorem spares_finishFanOut :
    Spares (some (.task task)) bus (bus.finishFanOut task publish batch legs) := by
  have hnoted : Spares (some (.task task)) bus
      (bus.noteAll (fanOutNotices bus.canceled legs)) := spares_of_affairs rfl
  exact hnoted.trans (spares_finish task _)

theorem spares_turnFanOut (h : bus.tasks.lookup task = some (.fanOut publish batch legs)) :
    Spares (some (.task task)) bus (bus.turnFanOut task publish batch legs) := by
  have hall := spares_deliverAll [] legs bus h
  unfold turnFanOut
  dsimp only
  split
  · exact hall.trans spares_finishFanOut
  · exact hall

end FanOut

section Replay

variable {task : TaskId} {consumer : Consumer} {phase : ReplayPhase} {rest : Stream} {sent : Nat}
  {leg : Leg} {batch selected : List Event} {deadline : Nat}

theorem spares_finishReplay (sent : Nat) :
    Spares (some (.task task)) bus (bus.finishReplay task consumer sent) :=
  (spares_note _).trans (spares_finish task _)

theorem spares_keepReplay (h : bus.tasks.lookup task = some (.replay consumer phase))
    (phase' : ReplayPhase) :
    Spares (some (.task task)) bus (bus.keepReplay task consumer phase') :=
  spares_setTask h rfl

theorem spares_settleLeg (h : bus.tasks.lookup task = some (.replay consumer phase)) :
    Spares (some (.task task)) bus (bus.settleLeg task consumer rest sent leg) := by
  cases leg with
  | fresh => exact .refl bus
  | waiting selected deadline => exact spares_keepReplay h _
  | done outcome =>
    cases outcome with
    | delivered _ | skipped => exact spares_keepReplay h _
    | timedOut =>
      have hnoted : (bus.note (.replayTimedOut consumer.id)).tasks.lookup task
          = some (.replay consumer phase) := h
      exact (spares_note _).trans (spares_keepReplay hnoted _)
    | canceled | closed => exact spares_finishReplay sent

theorem spares_sendBatch (h : bus.tasks.lookup task = some (.replay consumer phase)) :
    Spares (some (.task task)) bus (bus.sendBatch task consumer batch rest sent).2 := by
  have hlook := beginLeg_ledger bus .replay task consumer
    (batch.take (consumer.query.limit - sent))
  rw [← (show _ = bus.tasks from hlook.tasks)] at h
  exact spares_beginLeg.trans (spares_settleLeg h)

theorem spares_resendBatch (h : bus.tasks.lookup task = some (.replay consumer phase)) :
    Spares (some (.task task)) bus
      (bus.resendBatch task consumer selected deadline rest sent).2 := by
  have hlook : bus.ledger.Looked task consumer.id .replay (.waiting selected deadline) _ _ :=
    reviewLeg_ledger bus .replay task consumer deadline
  rw [← (show _ = bus.tasks from hlook.tasks)] at h
  have hreviewed : Spares (some (.task task)) bus
      (bus.reviewLeg task consumer .replay selected deadline).2 := spares_reviewLeg
  unfold resendBatch
  generalize bus.reviewLeg task consumer .replay selected deadline = reviewed at h hreviewed
  obtain ⟨leg, bus'⟩ := reviewed
  cases leg with
  | done outcome => exact hreviewed.trans (spares_settleLeg h)
  | fresh | waiting _ _ => exact hreviewed

theorem spares_watch (id : ConsumerId) : Spares busy bus (bus.watch task id) := by
  unfold watch
  split
  next => exact .refl bus
  next feed hfeed =>
    refine spares_setFeed hfeed (List.Subset.refl _) ?_
    exact ⟨rfl, Or.inl, fun _ _ => Or.inl, fun _ _ h => List.mem_append_left _ h⟩

theorem spares_unwatch (id : ConsumerId) :
    Spares (some (.task task)) bus (bus.unwatch task id) := by
  unfold unwatch
  split
  next => exact .refl bus
  next feed hfeed =>
    refine spares_setFeed hfeed (List.Subset.refl _) ⟨rfl, Or.inl, fun _ _ => Or.inl, ?_⟩
    intro other hbusy hother
    have hne : other ≠ task := fun hsame => hbusy (hsame ▸ rfl)
    exact (List.mem_erase_of_ne hne).mpr hother

theorem spares_sendStream (ends : Bool) (batches : List (List Event)) (sent : Nat) (bus : Bus σ)
    (h : bus.tasks.lookup task = some (.replay consumer phase)) :
    Spares (some (.task task)) bus (sendStream task consumer ends batches sent bus) := by
  induction batches generalizing sent bus phase with
  | nil =>
    unfold sendStream
    split
    · exact spares_finishReplay sent
    · exact spares_watch consumer.id
  | cons batch batches ih =>
    unfold sendStream
    split
    · exact spares_finishReplay sent
    · have hsend : Spares (some (.task task)) bus
          (bus.sendBatch task consumer batch ⟨batches, ends⟩ sent).2 := spares_sendBatch h
      have hlookup : ∀ events,
          (bus.sendBatch task consumer batch ⟨batches, ends⟩ sent).1.passed? = some events →
          (bus.sendBatch task consumer batch ⟨batches, ends⟩ sent).2.tasks.lookup task
            = some (.replay consumer (.taking ⟨batches, ends⟩ (sent + events))) :=
        fun _ => lookup_sendBatch_of_passed h
      generalize bus.sendBatch task consumer batch ⟨batches, ends⟩ sent = result at *
      obtain ⟨leg, bus'⟩ := result
      dsimp only
      split
      next events hpassed => exact hsend.trans (ih _ bus' (hlookup events hpassed))
      next => exact hsend

theorem spares_openStream (answer : Except StoreError Stream)
    (h : bus.tasks.lookup task = some (.replay consumer phase)) :
    Spares (some (.task task)) bus (bus.openStream task consumer answer) := by
  unfold openStream
  split
  · exact spares_keepReplay h _
  · exact spares_finish task _
  · exact (spares_note _).trans (spares_finish task _)

theorem spares_readHistory [Store σ]
    (h : bus.tasks.lookup task = some (.replay consumer phase)) :
    Spares (some (.task task)) bus (bus.readHistory task consumer).2 := by
  unfold readHistory
  split
  next => exact spares_openStream (.ok ⟨[], true⟩) h
  next store hstore =>
    let answer := Store.read (bus.isCanceled consumer.id) consumer.query store
    have hasked : Spares (some (.task task)) bus
        ({ bus with store? := some answer.store }.noteAll (answer.notices.map .store)) :=
      spares_of_affairs rfl
    exact hasked.trans (spares_openStream answer.result h)

theorem spares_startReplay [Store σ]
    (h : bus.tasks.lookup task = some (.replay consumer phase)) :
    Spares (some (.task task)) bus (bus.startReplay task consumer) := by
  have hread : Spares (some (.task task)) bus (bus.readHistory task consumer).2 :=
    spares_readHistory h
  have hlookup : ∀ stream, (bus.readHistory task consumer).1 = .ok stream →
      (bus.readHistory task consumer).2.tasks.lookup task
        = some (.replay consumer (.taking stream 0)) :=
    fun _ hanswer => lookup_readHistory h hanswer
  unfold startReplay
  generalize bus.readHistory task consumer = result at *
  obtain ⟨answer, bus'⟩ := result
  cases answer with
  | ok stream => exact hread.trans (spares_sendStream _ _ 0 bus' (hlookup stream rfl))
  | error error => exact hread

theorem spares_resumeReplay (h : bus.tasks.lookup task = some (.replay consumer phase)) :
    Spares (some (.task task)) bus
      (bus.resumeReplay task consumer selected deadline rest sent) := by
  have hresend : Spares (some (.task task)) bus
      (bus.resendBatch task consumer selected deadline rest sent).2 := spares_resendBatch h
  have hlookup : ∀ events,
      (bus.resendBatch task consumer selected deadline rest sent).1.passed? = some events →
      (bus.resendBatch task consumer selected deadline rest sent).2.tasks.lookup task
        = some (.replay consumer (.taking rest (sent + events))) :=
    fun _ => lookup_resendBatch_of_passed h
  unfold resumeReplay
  generalize bus.resendBatch task consumer selected deadline rest sent = result at *
  obtain ⟨leg, bus'⟩ := result
  dsimp only
  split
  next events hpassed => exact hresend.trans (spares_sendStream _ _ _ bus' (hlookup events hpassed))
  next => exact hresend

theorem spares_turnReplay [Store σ]
    (h : bus.tasks.lookup task = some (.replay consumer phase)) :
    Spares (some (.task task)) bus (bus.turnReplay task consumer phase) := by
  cases phase with
  | starting => exact spares_startReplay h
  | sending selected deadline rest sent => exact spares_resumeReplay h
  | taking rest sent =>
    show Spares _ bus (if bus.isCanceled consumer.id then
      (bus.unwatch task consumer.id).finishReplay task consumer sent else bus)
    split
    · exact (spares_unwatch consumer.id).trans (spares_finishReplay sent)
    · exact .refl bus

end Replay

section Coordinator

variable {job : Job} {deadline : Nat}

theorem spares_stop (result : Except BusError Unit) :
    Spares (some .coordinator) bus (bus.stop result) := by
  have hcanceled : ∀ (consumers : List Consumer) (bus : Bus σ), Spares (some .coordinator) bus
      (consumers.foldl (fun bus consumer => bus.cancelConsumer consumer.id) bus) := by
    intro consumers
    induction consumers with
    | nil => exact fun bus => .refl bus
    | cons consumer consumers ih =>
      exact fun bus => (spares_cancelConsumer consumer.id).trans (ih _)
  let canceled := bus.registry.foldl (fun bus consumer => bus.cancelConsumer consumer.id) bus
  let cleared := ({ canceled with registry := [] }.letGoAll bus.registry).note (.stopped result)
  have hcleared : Spares (some .coordinator) bus cleared :=
    ((hcanceled bus.registry bus).trans (spares_unregister (List.nil_subset _))).trans
      ((spares_letGoAll bus.registry).trans (spares_of_affairs rfl))
  have hstopped : Spares (some .coordinator) cleared
      { cleared with commands := [], coordinator := .stopped result } :=
    spares_coordinate nofun
  exact hcleared.trans hstopped

theorem spares_conclude {acquired : Acquired}
    (h : ∀ consumer ∈ job.consumers, consumer.id ∈ bus.audience) :
    Spares (some .coordinator) bus (bus.conclude job acquired).land := by
  cases acquired with
  | token => exact spares_spawn h
  | waiting => exact .refl bus
  | timedOut => exact (spares_letGoAll _).trans (spares_note _)
  | canceled =>
    cases job with
    | fanOut publish batch targets => exact (spares_letGoAll targets).trans (spares_stop _)
    | replay consumer => exact spares_letGoAll _

theorem Pool.patient_of_waits {pool pool' : Pool Unit} {canceled patient : Bool}
    (h : pool.request () canceled patient = (.waiting, pool')) :
    canceled = false ∧ patient = true ∧ pool'.tokens = pool.tokens.wait () := by
  unfold Pool.request at h
  split at h
  · cases h
  next hcanceled =>
    split at h
    · cases h
    · split at h
      next hpatient =>
        cases h
        exact ⟨Bool.eq_false_iff.mpr hcanceled, hpatient, rfl⟩
      next => cases h

theorem spares_acquire (h : ∀ consumer ∈ job.consumers, consumer.id ∈ bus.audience) :
    Spares (some .coordinator) bus (bus.acquire job).land := by
  unfold acquire
  split
  next pool hrequest =>
    obtain ⟨-, hpatient, -⟩ := Pool.patient_of_waits hrequest
    have hasks : Spares (some .coordinator) bus { bus with
        pool
        coordinator := .acquiring job (bus.now + bus.settings.workersTimeout) } := by
      refine spares_coordinate fun job' deadline hjob => ?_
      cases hjob
      exact h
    refine hasks.trans (spares_setTimer ?_)
    exact Nat.lt_add_of_pos_right (of_decide_eq_true hpatient)
  next acquired pool _ _ =>
    have hpool : Spares (some .coordinator) bus { bus with pool } :=
      spares_pool (List.Subset.refl _) fun hbusy => absurd rfl hbusy
    exact hpool.trans (spares_conclude h)

theorem spares_pruneOne (id : ConsumerId) : Spares busy bus (bus.pruneOne id) := by
  have hexpelled : Spares busy bus _ := (spares_cancelConsumer id).trans (spares_expel id)
  exact (hexpelled.trans (spares_note (.pruned id))).trans (spares_letGo id)

theorem spares_pruneEach (consumers : List Consumer) :
    Spares busy bus (bus.pruneEach consumers) := by
  induction consumers generalizing bus with
  | nil => exact .refl bus
  | cons consumer consumers ih =>
    unfold pruneEach
    split
    · exact (spares_pruneOne consumer.id).trans ih
    · exact ih

theorem spares_fanOut (attended : bus.Attended) (publish : Nat) (batch : List Event) :
    Spares (some .coordinator) bus (bus.fanOut publish batch).land := by
  have hpruned : Spares (some .coordinator) bus bus.prune := spares_pruneEach bus.registry
  unfold fanOut
  dsimp only
  split
  · exact hpruned
  · exact hpruned.trans (spares_acquire (hpruned.attended attended).registry)

theorem spares_handlePublish [Store σ] (attended : bus.Attended) (batch : List Event) :
    Spares (some .coordinator) bus (bus.handlePublish batch).land := by
  have hcounted : Spares (some .coordinator) bus { bus with publishes := bus.publishes + 1 } :=
    spares_of_affairs rfl
  unfold handlePublish
  dsimp only
  split
  next => exact hcounted.trans (spares_fanOut (hcounted.attended attended) _ _)
  next store hstore =>
    let answer := Store.write bus.canceled batch store
    let asked :=
      { bus with publishes := bus.publishes + 1, store? := some answer.store }.noteAll
        (answer.notices.map .store)
    have hasked : Spares (some .coordinator) bus asked := spares_of_affairs rfl
    split
    · have hstored := hasked.trans (spares_note (.stored batch))
      exact hstored.trans (spares_fanOut (hstored.attended attended) _ _)
    · exact hasked.trans (spares_stop _)

theorem spares_handleSubscribe (id : ConsumerId) (query : Query) :
    Spares (some .coordinator) bus (bus.handleSubscribe id query).land := by
  unfold handleSubscribe
  split
  · exact spares_note _
  · let consumer : Consumer := ⟨id, query.clampLimit bus.settings.maxReplay⟩
    have hregistered : Spares (some .coordinator) bus _ :=
      (spares_note (.registered consumer)).trans (spares_register consumer)
    dsimp only
    split
    · exact hregistered
    · refine hregistered.trans (spares_acquire fun other hother => ?_)
      cases List.mem_singleton.mp hother
      exact List.mem_append_right _ (List.mem_singleton_self _)

theorem spares_handleUnsubscribe (id : ConsumerId) :
    Spares (some .coordinator) bus (bus.handleUnsubscribe id).land := by
  unfold handleUnsubscribe
  split
  · have hcanceled : Spares (some .coordinator) bus _ :=
      (spares_expel id).trans (spares_cancelConsumer id)
    exact (hcanceled.trans (spares_note (.unregistered id))).trans (spares_letGo id)
  · exact .refl bus

theorem spares_take [Store σ] (attended : bus.Attended) (command : Command)
    (rest : List Command) : Spares (some .coordinator) bus (bus.take command rest).land := by
  have hrest : Spares (some .coordinator) bus { bus with commands := rest } :=
    spares_coordinate attended.pending
  have htaken := hrest.trans (spares_note (.took command))
  refine htaken.trans ?_
  cases command with
  | publish batch => exact spares_handlePublish (htaken.attended attended) batch
  | subscribe id query => exact spares_handleSubscribe id query
  | unsubscribe id => exact spares_handleUnsubscribe id

theorem spares_begin : Spares (some .coordinator) bus bus.begin := by
  let noted := bus.note (.started bus.pool.size bus.settings.maxReplay bus.store?.isSome)
  have hbegun : Spares (some .coordinator) noted { noted with coordinator := .receiving } :=
    spares_coordinate nofun
  exact .trans (spares_note _) hbegun

theorem spares_reviewAcquire (attended : bus.Attended)
    (h : bus.coordinator = .acquiring job deadline) :
    Spares (some .coordinator) bus (bus.reviewAcquire job deadline).land := by
  unfold reviewAcquire
  split
  next => exact .refl bus
  next acquired pool _ _ _ =>
    have hfreed : Spares (some .coordinator) bus { bus with pool, coordinator := .receiving } :=
      spares_coordinate nofun
    have hcleared := hfreed.trans (spares_clearTimer deadline .coordinator)
    exact hcleared.trans (spares_conclude (attended.pending job deadline h))

theorem spares_serve [Store σ] (commands : List Command) (bus : Bus σ)
    (attended : bus.Attended) : Spares (some .coordinator) bus (serve commands bus) := by
  induction commands generalizing bus with
  | nil =>
    unfold serve
    split
    · exact spares_stop _
    · split
      · exact spares_stop _
      · exact .refl bus
  | cons command rest ih =>
    unfold serve
    split
    · exact spares_stop _
    · have htake := spares_take attended command rest
      split
      next served hnext =>
        rw [hnext] at htake
        exact htake.trans (ih served (htake.attended attended))
      next waiting hwaits =>
        rw [hwaits] at htake
        exact htake
      next error failed hfailed =>
        rw [hfailed] at htake
        exact htake

theorem spares_turnCoordinator [Store σ] (attended : bus.Attended) :
    Spares (some .coordinator) bus bus.turnCoordinator := by
  unfold turnCoordinator
  split
  next => exact spares_begin.trans (spares_serve _ _ (spares_begin.attended attended))
  next => exact spares_serve _ _ attended
  next job deadline h =>
    have hreview := spares_reviewAcquire attended h
    unfold resume
    split
    next served hnext =>
      rw [hnext] at hreview
      exact hreview.trans (spares_serve _ served (hreview.attended attended))
    next waiting hwaits =>
      rw [hwaits] at hreview
      exact hreview
    next error failed hfailed =>
      rw [hfailed] at hreview
      exact hreview
  next => exact .refl bus

end Coordinator

/-- A turn as a whole leaves the other parties what they wait for. -/
theorem spares_turn [Store σ] (attended : bus.Attended) (actor : Actor) :
    Spares (some actor) bus (bus.turn actor) := by
  cases actor with
  | coordinator => exact spares_turnCoordinator attended
  | task id =>
    unfold turn
    split
    next h => cases h
    next task h =>
      cases h
      split
      next => exact .refl bus
      next publish batch legs h => exact spares_turnFanOut h
      next consumer phase h => exact spares_turnReplay h

end EventBus.Bus
