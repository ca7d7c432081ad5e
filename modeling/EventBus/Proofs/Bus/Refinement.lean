import EventBus.Proofs.Bus.Moves

/-!
Every step of a run is a few moves of the outline, and records what they record. This is
where the functions of the bus meet the moves; the laws of runs rest on the moves alone.
-/

namespace EventBus.Bus

variable {σ : Type} {bus : Bus σ} {calls : List Call}

theorem Outline.setCoordinator_eq (o : Outline) {coordinator : Coordinator}
    (h : o.coordinator = coordinator) : o.setCoordinator coordinator = o := by
  subst h
  rfl

section Calls

variable {id : ConsumerId}

theorem outline_enqueue (command : Command) (calls' : List Call) :
    (bus.enqueue command).outline calls'
      = { bus.outline calls' with commands := bus.commands ++ [command] } := by
  unfold enqueue
  rw [outline_wakeReceiver]
  rfl

theorem outline_enter {before after : List Call} {call : Call}
    (fresh : (bus.outline (before ++ call :: after)).Fresh) :
    (bus.enter call).outline (before ++ after)
      = (bus.outline (before ++ call :: after)).enter call (before ++ after) := by
  cases call with
  | subscribe id query places =>
      have hnone :
          ((bus.enqueue (.subscribe id query)).outline (before ++ after)).shelf id = none := by
        rw [outline_enqueue]
        apply fresh.unopened
        exact List.mem_filterMap.mpr ⟨.subscribe id query places, by simp [outline], rfl⟩
      have hopened := outline_openFeed places hnone
      rw [outline_enqueue] at hopened
      refine hopened.trans ?_
      have hshelf : Function.update (bus.outline (before ++ after)).shelf id (some ⟨[], false⟩)
          = fun other => if some id = some other then some ⟨[], false⟩
              else (bus.outline (before ++ after)).shelf other := by
        funext other
        rw [Function.update_apply]
        simp [eq_comm]
      exact congrArg (fun shelf : ConsumerId → Option Shelf =>
        { bus.outline (before ++ after) with
          commands := bus.commands ++ [Command.subscribe id query], shelf }) hshelf
  | _ => exact outline_enqueue _ _

theorem outline_receive {bus' : Bus σ} {batch : List Event} (calls : List Call)
    (h : bus.receive id = (.batch batch, bus')) :
    ∃ queue closed, (bus.outline calls).shelf id = some ⟨batch :: queue, closed⟩ ∧
      bus'.outline calls = (bus.outline calls).setShelf id ⟨queue, closed⟩ := by
  unfold receive at h
  split at h
  next => cases h
  next feed hfeed =>
    cases hqueue : feed.queue with
    | nil =>
        simp only [Feed.pop?, hqueue] at h
        split at h <;> cases h
    | cons first queue =>
        simp only [Feed.pop?, hqueue, Prod.mk.injEq, Received.batch.injEq] at h
        obtain ⟨rfl, rfl⟩ := h
        refine ⟨queue, feed.closed, ?_, ?_⟩
        · rw [shelf_of_feed? calls hfeed, Feed.shelf, hqueue]
        · rw [outline_wakeIf]
          exact outline_setFeed _ hfeed

end Calls

section Coordinator

variable (bus) (calls)

theorem conclude_moves {job : Job} {acquired : Acquired} (deadline : Nat)
    (hacquired : acquired ≠ .waiting) (h : bus.coordinator = .receiving)
    (fresh : (bus.outline calls).Fresh) :
    ∃ notices : List Notice, Moves ((bus.outline calls).setCoordinator (.acquiring job deadline))
      (notices.map .noted) ((bus.conclude job acquired).land.outline calls) := by
  -- The moves start from a wait for the token, even where none was needed.
  have hback : ((bus.outline calls).setCoordinator (.acquiring job deadline)).setCoordinator
      .receiving = bus.outline calls :=
    (bus.outline calls).setCoordinator_eq h
  cases acquired with
  | token =>
      refine ⟨[], ?_⟩
      have hjob : (bus.startJob job).outline calls = (bus.outline calls).spawn job.task :=
        outline_startJob job (fresh.task _ (Nat.le_refl _))
      rw [conclude, Handled.land, hjob, ← hback]
      exact .coordinate (.launch rfl)
  | canceled =>
      cases job with
      | fanOut publish batch targets =>
          refine ⟨[.stopped (.error .canceled)], ?_⟩
          rw [conclude, cutShort, Handled.land, outline_stop, outline_letGoAll]
          exact .coordinate (.stop rfl (Or.inl rfl))
      | replay consumer =>
          refine ⟨[], ?_⟩
          rw [conclude, cutShort, Handled.land, outline_letGoAll, ← hback]
          exact .coordinate (.abandon rfl)
  | timedOut =>
      refine ⟨[.noWorker job.name .timedOut], ?_⟩
      rw [conclude, Handled.land, outline_dropJob, ← hback]
      exact .coordinate (.drop rfl)
  | waiting => exact absurd rfl hacquired

theorem acquire_moves (job : Job) (h : bus.coordinator = .receiving)
    (fresh : (bus.outline calls).Fresh) :
    ∃ (deadline : Nat) (notices : List Notice),
      Moves ((bus.outline calls).setCoordinator (.acquiring job deadline))
        (notices.map .noted) ((bus.acquire job).land.outline calls) := by
  unfold acquire
  split
  next pool _ => exact ⟨bus.now + bus.settings.workersTimeout, [], .refl _⟩
  next acquired pool hacquired _ =>
    exact ⟨0, conclude_moves { bus with pool } calls 0 hacquired h fresh⟩

theorem fanOut_moves {publish : Nat} {batch : List Event} (h : bus.coordinator = .receiving)
    (fresh : (bus.outline calls).Fresh) :
    ∃ (next : Coordinator) (notices : List Notice),
      (bus.outline calls).prune.Launches publish batch next ∧
      Moves ((bus.outline calls).prune.setCoordinator next)
        (notices.map .noted) ((bus.fanOut publish batch).land.outline calls) := by
  have hpruned : bus.prune.outline calls = (bus.outline calls).prune := outline_prune
  have hreceiving : bus.prune.coordinator = .receiving :=
    (congrArg Outline.coordinator hpruned).trans h
  have hregistry : (bus.outline calls).prune.registry = bus.prune.registry :=
    (congrArg Outline.registry hpruned).symm
  unfold fanOut
  dsimp only
  split
  next hnothing =>
    refine ⟨.receiving, [], .nothing ?_, ?_⟩
    · rw [hregistry]
      simpa using hnothing
    · rw [← hpruned, Outline.setCoordinator_eq _ hreceiving]
      exact .refl _
  next htargets =>
    rw [Bool.or_eq_true, not_or, List.isEmpty_iff, List.isEmpty_iff] at htargets
    have hfresh : (bus.prune.outline calls).Fresh := by
      rw [hpruned]
      exact fresh.of_eq rfl rfl rfl rfl rfl
    obtain ⟨deadline, notices, hmoves⟩ :=
      acquire_moves bus.prune calls (.fanOut publish batch bus.prune.registry) hreceiving hfresh
    refine ⟨_, notices, .fanOut deadline (hregistry ▸ htargets.1) htargets.2, ?_⟩
    rw [hregistry, ← hpruned]
    exact hmoves

/-- A publish that was written, or need not be, goes on to prune and fan out. -/
theorem accept_moves {written : Bus σ} {batch : List Event} {rest : List Command}
    {notices : List Notice} (h : bus.coordinator = .receiving)
    (hcommands : bus.commands = .publish batch :: rest) (fresh : (bus.outline calls).Fresh)
    (hwritten : written.outline calls = (bus.outline calls).takePublish batch rest notices)
    (hplain : ∀ notice ∈ notices, notice.isPlain = true) :
    ∃ later : List Notice, Moves (bus.outline calls)
      ((if bus.store?.isSome then [.wrote batch (.ok ())] else []) ++ later.map .noted)
      ((written.fanOut bus.publishes batch).land.outline calls) := by
  have hreceiving : written.coordinator = .receiving :=
    (congrArg Outline.coordinator hwritten).trans h
  have hfresh : (written.outline calls).Fresh := by
    rw [hwritten]
    exact fresh.of_eq rfl rfl rfl rfl rfl
  obtain ⟨next, later, hnext, hlater⟩ := fanOut_moves written calls hreceiving hfresh
  rw [hwritten] at hnext hlater
  have hmoves := (Moves.coordinate (.accept h hcommands hplain hnext)).trans hlater
  rw [List.append_assoc, ← List.map_append] at hmoves
  exact ⟨_, hmoves⟩

theorem outline_took (command : Command) (rest : List Command) (notices : List Notice) :
    (({ bus with commands := rest }.note (.took command)).noteAll notices).outline calls
      = (bus.outline calls).take command rest notices := by
  simp [note, noteAll, outline, feed?, Outline.take]

section Publish

variable {bus calls} [Store σ] {batch : List Event} {rest : List Command} {store : σ}

/-- A publish has been taken and counted. -/
def counted (bus : Bus σ) (batch : List Event) (rest : List Command) : Bus σ :=
  { { bus with commands := rest }.note (.took (.publish batch)) with
    publishes := bus.publishes + 1 }

def storeNotices (bus : Bus σ) (batch : List Event) (store : σ) : List Notice :=
  (Store.write bus.canceled batch store).notices.map .store

/-- The store has answered to the write of a publish. -/
def answered (bus : Bus σ) (batch : List Event) (rest : List Command) (store : σ) : Bus σ :=
  { bus.counted batch rest with
    store? := some (Store.write bus.canceled batch store).store }.noteAll
      (bus.storeNotices batch store)

theorem outline_answered (hstore : bus.store? = some store) :
    (bus.answered batch rest store).outline calls
      = (bus.outline calls).takePublish batch rest (bus.storeNotices batch store) := by
  simp [answered, counted, note, noteAll, outline, feed?, hstore, Outline.takePublish, Outline.take]

theorem isPlain_storeNotices : ∀ notice ∈ bus.storeNotices batch store, notice.isPlain = true := by
  simp [storeNotices, Notice.isPlain]

theorem written_publish (hstore : bus.store? = some store) :
    bus.written (.publish batch)
      = [.wrote batch (Store.write bus.canceled batch store).result] := by
  simp [written, hstore]

theorem take_publish_of_unstored (hstore : bus.store? = none) :
    bus.take (.publish batch) rest = (bus.counted batch rest).fanOut bus.publishes batch := by
  simp only [take, handle, handlePublish, note, hstore, counted]

theorem take_publish_of_accepted (hstore : bus.store? = some store)
    (hwrite : (Store.write bus.canceled batch store).result = .ok ()) :
    bus.take (.publish batch) rest
      = ((bus.answered batch rest store).note (.stored batch)).fanOut bus.publishes batch := by
  simp only [take, handle, handlePublish, note, hstore, hwrite, answered, counted, storeNotices]

theorem take_publish_of_refused {error : StoreError} (hstore : bus.store? = some store)
    (hwrite : (Store.write bus.canceled batch store).result = .error error) :
    bus.take (.publish batch) rest = .failed (.ofStore error) (bus.answered batch rest store) := by
  simp only [take, handle, handlePublish, note, hstore, hwrite, answered, counted, storeNotices]

variable (h : bus.coordinator = .receiving) (hcommands : bus.commands = .publish batch :: rest)
include h hcommands

theorem take_unstored_moves (hstore : bus.store? = none) (fresh : (bus.outline calls).Fresh) :
    ∃ notices : List Notice, Moves (bus.outline calls)
      (bus.written (.publish batch) ++ notices.map .noted)
      ((bus.take (.publish batch) rest).land.outline calls) := by
  have hcounted : (bus.counted batch rest).outline calls
      = (bus.outline calls).takePublish batch rest [] := rfl
  have hwritten : bus.written (.publish batch) = [] := by simp [written, hstore]
  obtain ⟨later, hmoves⟩ := accept_moves bus calls h hcommands fresh hcounted (by simp)
  refine ⟨later, ?_⟩
  rw [take_publish_of_unstored hstore, hwritten]
  simpa [hstore] using hmoves

theorem take_accepted_moves (hstore : bus.store? = some store)
    (hwrite : (Store.write bus.canceled batch store).result = .ok ())
    (fresh : (bus.outline calls).Fresh) :
    ∃ notices : List Notice, Moves (bus.outline calls)
      (bus.written (.publish batch) ++ notices.map .noted)
      ((bus.take (.publish batch) rest).land.outline calls) := by
  have hstored : ((bus.answered batch rest store).note (.stored batch)).outline calls
      = (bus.outline calls).takePublish batch rest
          (bus.storeNotices batch store ++ [.stored batch]) := by
    rw [outline_note, outline_answered hstore]
    simp [Outline.note, Outline.takePublish, Outline.take]
  have hplain : ∀ notice ∈ bus.storeNotices batch store ++ [.stored batch],
      notice.isPlain = true := by
    simpa [or_imp, forall_and, Notice.isPlain] using isPlain_storeNotices
  obtain ⟨later, hmoves⟩ := accept_moves bus calls h hcommands fresh hstored hplain
  refine ⟨later, ?_⟩
  rw [take_publish_of_accepted hstore hwrite, written_publish hstore, hwrite]
  simpa [hstore] using hmoves

theorem take_refused_moves {error : StoreError} (hstore : bus.store? = some store)
    (hwrite : (Store.write bus.canceled batch store).result = .error error) :
    ∃ notices : List Notice, Moves (bus.outline calls)
      (bus.written (.publish batch) ++ notices.map .noted)
      ((bus.take (.publish batch) rest).land.outline calls) := by
  have hland : (bus.take (.publish batch) rest).land.outline calls
      = ((bus.outline calls).takePublish batch rest (bus.storeNotices batch store)).stop
          (.error (.ofStore error)) := by
    rw [take_publish_of_refused hstore hwrite, Handled.land, outline_stop, outline_answered hstore]
  refine ⟨.took (.publish batch) :: bus.storeNotices batch store
    ++ [.stopped (.error (.ofStore error))], ?_⟩
  rw [written_publish hstore, hwrite, hland]
  exact .coordinate (.refuse h hcommands (by simp [outline, hstore]) isPlain_storeNotices)

theorem take_publish_moves (fresh : (bus.outline calls).Fresh) :
    ∃ notices : List Notice, Moves (bus.outline calls)
      (bus.written (.publish batch) ++ notices.map .noted)
      ((bus.take (.publish batch) rest).land.outline calls) := by
  cases hstore : bus.store? with
  | none => exact take_unstored_moves h hcommands hstore fresh
  | some store =>
      cases hwrite : (Store.write bus.canceled batch store).result with
      | ok => exact take_accepted_moves h hcommands hstore hwrite fresh
      | error error => exact take_refused_moves h hcommands hstore hwrite

end Publish

theorem take_subscribe_moves {id : ConsumerId} {query : Query} {rest : List Command}
    [Store σ] (h : bus.coordinator = .receiving)
    (hcommands : bus.commands = .subscribe id query :: rest) (fresh : (bus.outline calls).Fresh) :
    ∃ notices : List Notice, Moves (bus.outline calls) (notices.map .noted)
      ((bus.take (.subscribe id query) rest).land.outline calls) := by
  let taken := { bus with commands := rest }.note (.took (.subscribe id query))
  let consumer : Consumer := ⟨id, query.clampLimit bus.settings.maxReplay⟩
  let enrolled : Bus σ := { taken.note (.registered consumer) with
    registry := insertConsumer consumer bus.registry, audience := bus.audience ++ [id] }
  have htake : bus.take (.subscribe id query) rest
      = if bus.isRegistered id then .next (taken.note (.alreadyRegistered id))
        else if bus.store?.isNone || !consumer.query.replay || consumer.query.limit == 0 then
          .next enrolled
        else enrolled.acquire (.replay consumer) := rfl
  by_cases hregistered : bus.isRegistered id = true
  · refine ⟨[.took (.subscribe id query), .alreadyRegistered id], ?_⟩
    have hknown : (taken.note (.alreadyRegistered id)).outline calls
        = (bus.outline calls).take (.subscribe id query) rest [.alreadyRegistered id] :=
      outline_took bus calls _ _ _
    rw [htake, if_pos hregistered, Handled.land, hknown]
    exact .coordinate (.known h hcommands hregistered)
  · have hnew : bus.registry.any (·.id == id) = false := Bool.not_eq_true _ ▸ hregistered
    have henrolled : enrolled.outline calls
        = ((bus.outline calls).take (.subscribe id query) rest [.registered consumer]).setRegistry
            (insertConsumer consumer bus.registry) :=
      congrArg (Outline.setRegistry · (insertConsumer consumer bus.registry))
        (outline_took bus calls _ _ [.registered consumer])
    have hreceiving : enrolled.coordinator = .receiving := h
    rw [htake, if_neg hregistered]
    split
    next =>
      refine ⟨[.took (.subscribe id query), .registered consumer], ?_⟩
      rw [Handled.land, ← Outline.setCoordinator_eq (enrolled.outline calls) hreceiving, henrolled]
      exact .coordinate (.enroll h hcommands hnew rfl (Or.inl rfl))
    next hwanted =>
      have hreplay : consumer.query.replay = true := by
        simp only [Bool.or_eq_true, Bool.not_eq_true', not_or, Bool.not_eq_false] at hwanted
        exact hwanted.1.2
      have hfresh : (enrolled.outline calls).Fresh := fresh.of_eq rfl rfl rfl rfl rfl
      obtain ⟨deadline, notices, hmoves⟩ :=
        acquire_moves enrolled calls (.replay consumer) hreceiving hfresh
      rw [henrolled] at hmoves
      have henroll : CoordinatorMove (bus.outline calls) _ _ :=
        .enroll h hcommands hnew rfl (Or.inr ⟨hreplay, deadline, rfl⟩)
      refine ⟨[.took (.subscribe id query), .registered consumer] ++ notices, ?_⟩
      rw [List.map_append]
      exact (Moves.coordinate henroll).trans hmoves

theorem take_unsubscribe_moves {id : ConsumerId} {rest : List Command}
    [Store σ] (h : bus.coordinator = .receiving)
    (hcommands : bus.commands = .unsubscribe id :: rest) :
    ∃ notices : List Notice, Moves (bus.outline calls) (notices.map .noted)
      ((bus.take (.unsubscribe id) rest).land.outline calls) := by
  let taken := { bus with commands := rest }.note (.took (.unsubscribe id))
  let removed : Bus σ := { taken with registry := bus.registry.filter (·.id != id) }
  have htake : bus.take (.unsubscribe id) rest
      = if bus.isRegistered id then
          .next (((removed.cancelConsumer id).note (.unregistered id)).letGo id)
        else .next taken := rfl
  have hexpel : ∀ notices : List Notice, (∀ notice ∈ notices, notice.isPlain = true) →
      Moves (bus.outline calls) ((Notice.took (.unsubscribe id) :: notices).map .noted)
        ((((taken.noteAll notices).outline calls).setRegistry
          (bus.registry.filter (·.id != id)))) := by
    intro notices hplain
    rw [outline_took]
    exact .coordinate (.expel h hcommands hplain)
  rw [htake]
  split
  next =>
    refine ⟨[.took (.unsubscribe id), .unregistered id], ?_⟩
    rw [Handled.land, outline_letGo, outline_note, outline_cancelConsumer]
    exact hexpel [.unregistered id] (by simp [Notice.isPlain])
  next hregistered =>
    have hkept : bus.registry.filter (·.id != id) = bus.registry := by
      rw [List.filter_eq_self]
      intro consumer hconsumer
      simp only [isRegistered, List.any_eq_true, not_exists, not_and] at hregistered
      simpa using hregistered consumer hconsumer
    refine ⟨[.took (.unsubscribe id)], ?_⟩
    have hmoves := hexpel [] (by simp)
    have hnoted : taken.noteAll [] = taken := by simp [noteAll]
    rw [hkept, hnoted] at hmoves
    exact hmoves

theorem take_moves {command : Command} {rest : List Command} [Store σ]
    (h : bus.coordinator = .receiving) (hcommands : bus.commands = command :: rest)
    (fresh : (bus.outline calls).Fresh) :
    ∃ notices : List Notice, Moves (bus.outline calls)
      (bus.written command ++ notices.map .noted) ((bus.take command rest).land.outline calls) := by
  cases command with
  | publish batch => exact take_publish_moves h hcommands fresh
  | subscribe id query => exact take_subscribe_moves bus calls h hcommands fresh
  | unsubscribe id => exact take_unsubscribe_moves bus calls h hcommands

theorem review_moves {job : Job} {deadline : Nat}
    (h : bus.coordinator = .acquiring job deadline) (fresh : (bus.outline calls).Fresh) :
    ∃ notices : List Notice, Moves (bus.outline calls) (notices.map .noted)
      ((bus.reviewAcquire job deadline).land.outline calls) := by
  unfold reviewAcquire
  split
  next => exact ⟨[], .refl _⟩
  next acquired pool _ hacquired _ =>
    let freed : Bus σ :=
      { bus with pool, coordinator := .receiving }.clearTimer deadline .coordinator
    have hfreed : (freed.outline calls).setCoordinator (.acquiring job deadline)
        = bus.outline calls :=
      (bus.outline calls).setCoordinator_eq h
    have hfresh : (freed.outline calls).Fresh := fresh.of_eq rfl rfl rfl rfl rfl
    rw [← hfreed]
    exact conclude_moves freed calls deadline hacquired rfl hfresh

end Coordinator

section Deliveries

/-- A look at a delivery, as far as the feed is concerned. -/
inductive Feed.Looked (selected : List Event) (leg : Leg) (feed : Feed) : Leg → Feed → Prop where
  | without {leg' feed'} (h : Leg.Looks selected leg leg') (hshelf : feed'.shelf = feed.shelf) :
      Looked selected leg feed leg' feed'
  | put {events feed'} (h : Leg.Puts selected leg events) (hopen : feed.closed = false)
      (hshelf : feed'.shelf = ⟨feed.queue ++ [events], false⟩) :
      Looked selected leg feed (.done (.delivered events.length)) feed'

theorem Feed.offer_looked (feed : Feed) (task : TaskId) (canceled : Bool) (now timeout : Nat)
    (selected : List Event) :
    Feed.Looked selected .fresh feed (feed.offer task canceled now timeout selected).1
      (feed.offer task canceled now timeout selected).2 := by
  unfold offer
  split
  next => exact .without (.ends _ _ rfl (by simp)) rfl
  next hselected =>
    have hne : selected ≠ [] := by simpa using hselected
    split
    next => exact .without (.ends _ _ rfl (by simp)) rfl
    next =>
      split
      next => exact .without (.ends _ _ rfl (by simp)) rfl
      next hopen =>
        have hopen : feed.closed = false := by simpa using hopen
        split
        next => exact .put (.atOnce hne) hopen (by rw [← hopen]; rfl)
        next =>
          split
          next => exact .without (.ends _ _ rfl (by simp)) rfl
          next => exact .without (.waits _ hne) rfl

theorem Feed.retry_looked (feed : Feed) (task : TaskId) (canceled : Bool) (now : Nat)
    (wanted selected : List Event) (deadline : Nat) :
    Feed.Looked wanted (.waiting selected deadline) feed
      (feed.retry task canceled now selected deadline).1
      (feed.retry task canceled now selected deadline).2.1 := by
  unfold retry
  split
  next => exact .without (.ends _ _ rfl (by simp)) rfl
  next =>
    split
    next => exact .without (.ends _ _ rfl (by simp)) rfl
    next hopen =>
      have hopen : feed.closed = false := by simpa using hopen
      split
      next => exact .put (.afterWait _ _) hopen (by rw [← hopen]; rfl)
      next =>
        split
        next => exact .without (.ends _ _ rfl (by simp)) rfl
        next => exact .without (.stays _ (by simp)) rfl

variable {id : ConsumerId} {origin : Origin} {wanted selected : List Event} {leg leg' : Leg}

theorem recordLeg_of_looks (h : Leg.Looks wanted leg leg') (hdone : leg.isDone = false) :
    bus.recordLeg id selected origin leg' = bus := by
  cases h with
  | waits _ _ => rfl
  | stays leg _ =>
      cases leg with
      | done _ => cases hdone
      | _ => rfl
  | ends leg outcome _ hfailed =>
      cases outcome with
      | delivered events => exact absurd rfl (hfailed events)
      | _ => rfl

/-- Putting a changed feed back and recording the delivery is a look at the outline. -/
theorem Looked.of_feed {feed feed' : Feed} (calls : List Call) (origin : Origin)
    (h : bus.feed? id = some feed)
    (hlook : Feed.Looked wanted leg feed leg' feed') (hdone : leg.isDone = false)
    (hselected : ∀ events, Leg.Puts wanted leg events → events = selected) :
    ∃ notices : List Notice,
      Looked id origin wanted leg (bus.outline calls) (notices.map .noted) leg'
      (((bus.setFeed id feed').recordLeg id selected origin leg').outline calls) := by
  cases hlook with
  | without hlooks hshelf =>
      refine ⟨[], ?_⟩
      rw [recordLeg_of_looks hlooks hdone, outline_setFeed_of_shelf_eq feed' h hshelf]
      exact .without hlooks
  | @put events _ hputs hopen hshelf =>
      have hqueue : (bus.outline calls).shelf id = some ⟨feed.queue, false⟩ := by
        rw [shelf_of_feed? calls h, Feed.shelf, hopen]
      obtain rfl := hselected events hputs
      refine ⟨[.queued id events origin], ?_⟩
      rw [recordLeg, outline_note, outline_setFeed feed' h, hshelf]
      exact .put hputs hqueue

variable (bus calls) (task : TaskId) (consumer : Consumer) (origin)

theorem beginLeg_looked (batch : List Event) :
    ∃ notices : List Notice, Looked consumer.id origin (consumer.query.select batch) .fresh
      (bus.outline calls) (notices.map .noted) (bus.beginLeg task consumer origin batch).1
      ((bus.beginLeg task consumer origin batch).2.outline calls) := by
  unfold beginLeg
  split
  next => exact ⟨[], .without (.ends _ _ rfl (by simp))⟩
  next feed hfeed =>
    have hlook := feed.offer_looked task (bus.isCanceled consumer.id) bus.now
      bus.settings.consumerTimeout (consumer.query.select batch)
    obtain ⟨notices, hlooked⟩ := Looked.of_feed calls origin hfeed hlook rfl
      (by rintro _ ⟨⟩; rfl)
    refine ⟨notices, ?_⟩
    dsimp only
    split <;> exact hlooked

theorem reviewLeg_looked (wanted selected : List Event) (deadline : Nat) :
    ∃ notices : List Notice, Looked consumer.id origin wanted (.waiting selected deadline)
      (bus.outline calls) (notices.map .noted)
      (bus.reviewLeg task consumer origin selected deadline).1
      ((bus.reviewLeg task consumer origin selected deadline).2.outline calls) := by
  unfold reviewLeg
  split
  next => exact ⟨[], .without (.ends _ _ rfl (by simp))⟩
  next feed hfeed =>
    have hlook :=
      feed.retry_looked task (bus.isCanceled consumer.id) bus.now wanted selected deadline
    obtain ⟨notices, hlooked⟩ := Looked.of_feed calls origin hfeed hlook rfl
      (by rintro _ ⟨⟩; rfl)
    refine ⟨notices, ?_⟩
    dsimp only
    split <;> simp only [outline_clearTimer, outline_wakeIf] <;> exact hlooked

theorem advanceLeg_looked (batch : List Event) (leg : Leg) :
    ∃ notices : List Notice, Looked consumer.id origin (consumer.query.select batch) leg
      (bus.outline calls) (notices.map .noted) (bus.advanceLeg task consumer origin batch leg).1
      ((bus.advanceLeg task consumer origin batch leg).2.outline calls) := by
  cases leg with
  | fresh => exact beginLeg_looked bus calls origin task consumer batch
  | waiting selected deadline =>
      exact reviewLeg_looked bus calls origin task consumer _ selected deadline
  | done outcome => exact ⟨[], .without (.stays _ (by simp))⟩

theorem deliver_moves {publish : Nat} {batch : List Event} {seen legs : List (Consumer × Leg)}
    (h : bus.tasks.lookup task = some (.fanOut publish batch (seen ++ (consumer, leg) :: legs))) :
    ∃ notices : List Notice, Moves (bus.outline calls)
      (attempt publish consumer.id leg ++ notices.map .noted)
      ((bus.deliver task publish batch seen consumer leg legs).2.outline calls) := by
  obtain ⟨notices, hlook⟩ := advanceLeg_looked bus calls (.live publish) task consumer batch leg
  let advanced := bus.advanceLeg task consumer (.live publish) batch leg
  have hheld : advanced.2.tasks.lookup task
      = some (.fanOut publish batch (seen ++ (consumer, leg) :: legs)) :=
    (congrFun hlook.frame.task task).trans h
  have hdeliver : (bus.deliver task publish batch seen consumer leg legs).2.outline calls
      = (advanced.2.outline calls).setTask task
          (some (.fanOut publish batch (seen ++ (consumer, advanced.1) :: legs))) := by
    rw [deliver, outline_setTask _ hheld, List.append_assoc, List.singleton_append]
  rw [hdeliver]
  exact ⟨notices, .work (.deliver h hlook)⟩

theorem forall_mem_fanOutNotices {P : Notice → Prop} {canceled : Bool}
    {legs : List (Consumer × Leg)} (hdelivered : ∀ id events, P (.delivered id events))
    (htimedOut : ∀ id, P (.timedOut id)) (habandoned : ∀ id error, P (.abandoned id error)) :
    ∀ notice ∈ fanOutNotices canceled legs, P notice := by
  induction legs with
  | nil => simp [fanOutNotices]
  | cons entry legs ih =>
      obtain ⟨consumer, leg⟩ := entry
      unfold fanOutNotices
      split
      · exact List.forall_mem_cons.mpr ⟨hdelivered _ _, ih⟩
      · exact List.forall_mem_cons.mpr ⟨htimedOut _, ih⟩
      · exact List.forall_mem_cons.mpr ⟨habandoned _ _, ih⟩
      · split
        · simp
        · exact List.forall_mem_cons.mpr ⟨habandoned _ _, ih⟩
      · exact ih

theorem report_moves {publish : Nat} {batch : List Event} {legs : List (Consumer × Leg)}
    (h : bus.tasks.lookup task = some (.fanOut publish batch legs))
    (hdone : legs.all (·.2.isDone) = true) :
    ∃ notices : List Notice, Moves (bus.outline calls) (notices.map .noted)
      ((bus.finishFanOut task publish batch legs).outline calls) := by
  have hplain : ∀ notice ∈ fanOutNotices bus.canceled legs, notice.isPlain = true :=
    forall_mem_fanOutNotices (fun _ _ => rfl) (fun _ => rfl) (fun _ _ => rfl)
  refine ⟨fanOutNotices bus.canceled legs, ?_⟩
  rw [finishFanOut, outline_finish, outline_noteAll, ← List.append_nil (List.map _ _)]
  exact (Moves.report _ hplain).tail (.work (.finish h hdone))

theorem finishReplay_moves {phase : ReplayPhase} {sent : Nat}
    (h : bus.tasks.lookup task = some (.replay consumer phase)) :
    Moves (bus.outline calls) [.noted (.replayFinished consumer.id sent)]
      ((bus.finishReplay task consumer sent).outline calls) := by
  have hplain : ∀ notice ∈ [Notice.replayFinished consumer.id sent], notice.isPlain = true := by
    simp [Notice.isPlain]
  rw [outline_finishReplay]
  exact (Moves.report _ hplain).tail (.work (.finish h trivial))

section Settle

variable {o : Outline} {phase : ReplayPhase} {rest : Stream} {marks : List Mark}

theorem settleLeg_moves (h : o.task task = some (.replay consumer phase))
    (hsend : phase.Sends consumer selected leg rest)
    (hlook : Looked consumer.id .replay selected leg o marks leg' (bus.outline calls)) :
    ∃ notices : List Notice, Moves o (marks ++ notices.map .noted)
      ((bus.settleLeg task consumer rest phase.sent leg').outline calls) := by
  have hheld : bus.tasks.lookup task = some (.replay consumer phase) :=
    (congrFun hlook.frame.task task).trans h
  have hkeep : ∀ next, ReplayPhase.Settles rest phase.sent leg' next →
      Moves o marks ((bus.keepReplay task consumer next).outline calls) := by
    intro next hnext
    rw [keepReplay, outline_setTask _ hheld]
    exact .work (.send h hsend hlook hnext)
  have hend : (∀ events, leg' ≠ .done (.delivered events)) →
      Moves o (marks ++ [.noted (.replayFinished consumer.id phase.sent)])
        ((bus.finishReplay task consumer phase.sent).outline calls) := by
    intro hfailed
    obtain ⟨rfl, hsame⟩ := hlook.eq_of_not_delivered hfailed
    rw [← hsame]
    exact finishReplay_moves bus calls task consumer hheld
  cases leg' with
  | fresh => exact absurd rfl hlook.ne_fresh
  | waiting selected' deadline =>
      exact ⟨[], (List.append_nil marks).symm ▸ hkeep _ (.waits selected' deadline)⟩
  | done outcome =>
      cases outcome with
      | delivered events => exact ⟨[], (List.append_nil marks).symm ▸ hkeep _ (.taken _ _ rfl)⟩
      | skipped => exact ⟨[], (List.append_nil marks).symm ▸ hkeep _ (.taken _ 0 rfl)⟩
      | canceled => exact ⟨[_], hend (by simp)⟩
      | closed => exact ⟨[_], hend (by simp)⟩
      | timedOut =>
          refine ⟨[.replayTimedOut consumer.id], ?_⟩
          have hnoted : (bus.note (.replayTimedOut consumer.id)).tasks.lookup task
              = some (.replay consumer phase) := hheld
          have hlate : ((bus.note (.replayTimedOut consumer.id)).keepReplay task consumer
                (.taking rest phase.sent)).outline calls
              = ((bus.keepReplay task consumer (.taking rest phase.sent)).outline calls).note
                  [.replayTimedOut consumer.id] := by
            rw [keepReplay, keepReplay, outline_setTask _ hnoted, outline_setTask _ hheld]
            rfl
          rw [settleLeg, hlate]
          exact (hkeep _ (.taken _ 0 rfl)).trans (.report _ (by simp [Notice.isPlain]))

end Settle

theorem sendBatch_moves {batch : List Event} {batches : List (List Event)} {ends : Bool}
    {sent : Nat}
    (h : bus.tasks.lookup task = some (.replay consumer (.taking ⟨batch :: batches, ends⟩ sent)))
    (hsated : bus.isSated consumer sent = false) :
    ∃ notices : List Notice, Moves (bus.outline calls) (notices.map .noted)
      ((bus.sendBatch task consumer batch ⟨batches, ends⟩ sent).2.outline calls) := by
  let cut := batch.take (consumer.query.limit - sent)
  have hwanted : sent < consumer.query.limit := by
    rw [isSated, Bool.or_eq_false_iff, decide_eq_false_iff_not] at hsated
    exact Nat.not_le.mp hsated.1
  obtain ⟨notices, hlook⟩ := beginLeg_looked bus calls .replay task consumer cut
  obtain ⟨later, hmoves⟩ := settleLeg_moves (bus.beginLeg task consumer .replay cut).2 calls task
    consumer h (.first batch batches ends sent hwanted) hlook
  refine ⟨notices ++ later, ?_⟩
  rw [List.map_append]
  exact hmoves

theorem resendBatch_moves {deadline : Nat} {rest : Stream} {sent : Nat}
    (h : bus.tasks.lookup task = some (.replay consumer (.sending selected deadline rest sent))) :
    ∃ notices : List Notice, Moves (bus.outline calls) (notices.map .noted)
      ((bus.resendBatch task consumer selected deadline rest sent).2.outline calls) := by
  obtain ⟨notices, hlook⟩ :=
    reviewLeg_looked bus calls .replay task consumer selected selected deadline
  unfold resendBatch
  split
  next outcome reviewed hreviewed =>
    rw [hreviewed] at hlook
    obtain ⟨later, hmoves⟩ :=
      settleLeg_moves reviewed calls task consumer h (.again selected deadline rest sent) hlook
    refine ⟨notices ++ later, ?_⟩
    rw [List.map_append]
    exact hmoves
  next leg reviewed hnot hreviewed =>
    rw [hreviewed] at hlook
    obtain ⟨-, hsame⟩ := hlook.eq_of_not_delivered (fun events hleg => hnot _ hleg)
    refine ⟨[], ?_⟩
    rw [hsame]
    exact .refl _

theorem failRead_moves (error : StoreError)
    (h : bus.tasks.lookup task = some (.replay consumer .starting)) :
    Moves (bus.outline calls) [.noted (.replayReadFailed consumer.id error)]
      (((bus.outline calls).note [.replayReadFailed consumer.id error]).setTask task none) := by
  have hplain : ∀ notice ∈ [Notice.replayReadFailed consumer.id error], notice.isPlain = true := by
    simp [Notice.isPlain]
  exact (Moves.report _ hplain).tail (.work (.finish h trivial))

theorem outline_openStream_error {error : StoreError} (hcanceled : error ≠ .canceled) :
    (bus.openStream task consumer (.error error)).outline calls
      = ((bus.outline calls).note [.replayReadFailed consumer.id error]).setTask task none := by
  rw [openStream, outline_finish, outline_note]
  simpa using hcanceled

/-- What the store yielded is recorded before what it reported. -/
theorem openStream_moves {o : Outline} {notices : List Notice} (answer : Except StoreError Stream)
    (h : bus.tasks.lookup task = some (.replay consumer .starting))
    (hnoted : bus.outline calls = o.note notices)
    (hplain : ∀ notice ∈ notices, notice.isPlain = true) :
    ∃ later : List Notice, Moves o
      (yields consumer.id answer ++ (notices ++ later).map .noted)
      ((bus.openStream task consumer answer).outline calls) := by
  have hheld : o.task task = some (.replay consumer .starting) :=
    (congrArg (Outline.task · task) hnoted).symm.trans h
  have hreport : Moves o (notices.map .noted) (bus.outline calls) := by
    rw [hnoted]
    exact .report o hplain
  cases answer with
  | ok stream =>
      have hread : Moves o (stream.batches.map (.yielded consumer.id))
          (o.setTask task (some (.replay consumer (.taking stream 0)))) :=
        .work (.read hheld)
      refine ⟨[], ?_⟩
      rw [openStream, keepReplay, outline_setTask _ h, hnoted, List.append_nil]
      exact hread.trans (.report _ hplain)
  | error error =>
      simp only [yields, List.nil_append]
      by_cases hcanceled : error = .canceled
      · subst hcanceled
        have hfinish : Moves (bus.outline calls) [] ((bus.outline calls).setTask task none) :=
          .work (.finish h trivial)
        refine ⟨[], ?_⟩
        rw [openStream, outline_finish, List.append_nil]
        simpa using hreport.trans hfinish
      · refine ⟨[.replayReadFailed consumer.id error], ?_⟩
        rw [outline_openStream_error bus calls task consumer hcanceled, List.map_append]
        exact hreport.trans (failRead_moves bus calls task consumer error h)

theorem readHistory_moves [Store σ]
    (h : bus.tasks.lookup task = some (.replay consumer .starting)) :
    ∃ notices : List Notice, Moves (bus.outline calls)
      (yields consumer.id (bus.readHistory task consumer).1 ++ notices.map .noted)
      ((bus.readHistory task consumer).2.outline calls) := by
  cases hstore : bus.store? with
  | none =>
      have hread : bus.readHistory task consumer
          = (.ok ⟨[], true⟩, bus.openStream task consumer (.ok ⟨[], true⟩)) := by
        simp [readHistory, hstore]
      have hnoted : bus.outline calls = (bus.outline calls).note [] := by simp [Outline.note]
      rw [hread]
      obtain ⟨later, hmoves⟩ := openStream_moves bus calls task consumer _ h hnoted (by simp)
      exact ⟨_, hmoves⟩
  | some store =>
      let answer := Store.read (bus.isCanceled consumer.id) consumer.query store
      let notices := answer.notices.map Notice.store
      let answered := { bus with store? := some answer.store }.noteAll notices
      have hread : bus.readHistory task consumer
          = (answer.result, answered.openStream task consumer answer.result) := by
        simp [readHistory, hstore, answer, answered, notices]
      have hnoted : answered.outline calls = (bus.outline calls).note notices := by
        simp [answered, noteAll, outline, feed?, hstore, Outline.note]
      have hplain : ∀ notice ∈ notices, notice.isPlain = true := by
        simp [notices, Notice.isPlain]
      rw [hread]
      obtain ⟨later, hmoves⟩ :=
        openStream_moves answered calls task consumer answer.result h hnoted hplain
      exact ⟨_, hmoves⟩

end Deliveries

theorem begin_moves (h : bus.coordinator = .starting) :
    ∃ notices : List Notice, Moves (bus.outline calls) (notices.map .noted)
      (bus.begin.outline calls) := by
  let started : Notice := .started bus.pool.size bus.settings.maxReplay bus.store?.isSome
  have hplain : ∀ notice ∈ [started], notice.isPlain = true := by simp [started, Notice.isPlain]
  have hfree : (bus.outline calls).coordinator.isFree = true := by
    show bus.coordinator.isFree = true
    rw [h]
    rfl
  refine ⟨[started], ?_⟩
  exact (Moves.coordinate (.ready hfree rfl)).trans (.report _ hplain)

theorem start_moves (bus : Bus σ) (calls : List Call) :
    Moves (bus.outline calls) [] (bus.start.outline calls) := by
  unfold start
  split
  next h =>
    have hfree : (bus.outline calls).coordinator.isFree = true := by
      show bus.coordinator.isFree = true
      rw [h]
      rfl
    rw [outline_wake]
    exact .coordinate (.ready hfree rfl)
  next => exact .refl _

theorem dropCoordinator_moves (bus : Bus σ) (calls : List Call) :
    Moves (bus.outline calls) [] (bus.dropCoordinator.outline calls) := by
  unfold dropCoordinator
  split
  next h =>
    have hfree : (bus.outline calls).coordinator.isFree = true := by
      show bus.coordinator.isFree = true
      rw [h]
      rfl
    exact .coordinate (.discard hfree)
  next => exact .refl _

theorem stop_moves {result : Except BusError Unit} (h : bus.coordinator = .receiving)
    (hresult : result = .error .canceled ∨ result = .ok () ∧ bus.commands = []) :
    Moves (bus.outline calls) [.noted (.stopped result)] ((bus.stop result).outline calls) := by
  have hgone : (bus.outline calls).coordinator.isGone = false := by
    show bus.coordinator.isGone = false
    rw [h]
    rfl
  rw [outline_stop]
  exact .coordinate (.stop hgone (hresult.imp_right fun ⟨hok, hcommands⟩ => ⟨hok, h, hcommands⟩))

theorem grow_moves {task : TaskId} {consumer : Consumer} {phase : ReplayPhase} {stream : Stream}
    (calls : List Call) (batches : List (List Event)) (ends : Bool)
    (h : bus.tasks.lookup task = some (.replay consumer phase))
    (hstream : phase.stream? = some stream) :
    Moves (bus.outline calls) (batches.map (.yielded consumer.id))
      ((bus.keepReplay task consumer
        (phase.setStream ⟨stream.batches ++ batches, ends⟩)).outline calls) := by
  rw [keepReplay, outline_setTask _ h]
  exact .work (.grow batches ends h hstream)

/-- Every step is a few moves of the outline. -/
theorem Step.moves [Store σ] {world world' : World σ} {marks : List Mark}
    (step : Step world marks world') (fresh : world.outline.Fresh) :
    ∃ notices : List Notice,
      Moves world.outline (marks ++ notices.map .noted) world'.outline := by
  cases step with
  | call call h => exact ⟨[], .call (.ask call h)⟩
  | subscribe query places => exact ⟨[], .call (.subscribe query places)⟩
  | enter h =>
      refine ⟨[], ?_⟩
      unfold World.outline
      rw [outline_enter fresh]
      exact .call (.enter rfl h)
  | giveUp => exact ⟨[], .call (.giveUp rfl)⟩
  | @receive _ _ calls _ _ h =>
      obtain ⟨queue, closed, hshelf, hsame⟩ := outline_receive calls h
      refine ⟨[], ?_⟩
      unfold World.outline
      rw [hsame]
      exact .call (.receive hshelf)
  | @close _ calls _ h =>
      rw [isSubscribed, Option.any_eq_true] at h
      obtain ⟨feed, hfeed, hopen⟩ := h
      have hopen : feed.closed = false := by simpa using hopen
      have hshelf := shelf_of_feed? calls hfeed
      rw [Feed.shelf, hopen] at hshelf
      refine ⟨[], ?_⟩
      unfold World.outline
      rw [outline_closeFeed hfeed]
      exact .call (.close hshelf)
  | addHandle => exact ⟨[], .refl _⟩
  | dropHandle => exact ⟨[], Moves.of_eq outline_dropHandle⟩
  | start => exact ⟨[], start_moves _ _⟩
  | dropCoordinator => exact ⟨[], dropCoordinator_moves _ _⟩
  | cancel => exact ⟨[], Moves.of_eq outline_cancel⟩
  | mapStore f => exact ⟨[], Moves.of_eq (outline_mapStore f)⟩
  | time now => exact ⟨[], .refl _⟩
  | remark line => exact ⟨[.remark line], .report _ (by simp [Notice.isPlain])⟩
  | schedule ready timers => exact ⟨[], .refl _⟩
  | watch h watchers => exact ⟨[], Moves.of_eq (outline_setFeed_of_shelf_eq _ h rfl)⟩
  | begin h => exact begin_moves h
  | take h hcommands => exact take_moves _ _ h hcommands fresh
  | interrupt h hcanceled => exact ⟨[_], stop_moves h (Or.inl rfl)⟩
  | runOut h hcommands hsenders => exact ⟨[_], stop_moves h (Or.inr ⟨rfl, hcommands⟩)⟩
  | review h => exact review_moves _ _ h fresh
  | deliver h => exact deliver_moves _ _ _ _ h
  | report h hdone => exact report_moves _ _ _ h hdone
  | read h => exact readHistory_moves _ _ _ _ h
  | yield h hstream hopen batch => exact ⟨[], grow_moves _ [batch] _ h hstream⟩
  | @hangUp _ calls _ _ _ _ h hstream =>
      have hmoves := grow_moves calls [] true h hstream
      rw [List.append_nil] at hmoves
      exact ⟨[], hmoves⟩
  | send h hsated => exact sendBatch_moves _ _ _ _ h hsated
  | resend h => exact resendBatch_moves _ _ _ _ h
  | quit h hover => exact ⟨[_], finishReplay_moves _ _ _ _ h⟩

theorem Step.reported_eq_nil [Store σ] {world world' : World σ} {marks : List Mark}
    (step : Step world marks world') : reported marks = [] := by
  cases step with
  | @take bus _ command _ _ _ =>
      cases command with
      | publish batch => cases hstore : bus.store? <;> simp [written, hstore]
      | _ => rfl
  | deliver _ => exact reported_attempt _ _ _
  | @read bus _ task consumer _ =>
      cases (bus.readHistory task consumer).1 with
      | ok stream => exact reported_yielded _ _
      | error error => rfl
  | _ => rfl

theorem create_fresh (settings : Settings) (store? : Option σ) :
    ((create settings store?).outline []).Fresh where
  task _ _ := rfl
  shelf _ _ := rfl
  lt _ h := absurd h (by simp [outline])
  nodup := List.nodup_nil
  unopened _ _ := rfl

theorem Steps.trans [Store σ] {first middle last : World σ} {trace trace' : List Mark}
    (earlier : Steps first trace middle) (later : Steps middle trace' last) :
    Steps first (trace ++ trace') last := by
  induction later with
  | refl => rwa [List.append_nil]
  | tail _ step ih =>
      rw [← List.append_assoc, ← List.append_assoc]
      exact ih.tail step

/-- What holds of moves holds of steps, reports included. -/
theorem Steps.moves [Store σ] {first last : World σ} {trace : List Mark}
    (steps : Steps first trace last) (fresh : first.outline.Fresh) :
    Moves first.outline trace last.outline := by
  induction steps with
  | refl => exact .refl _
  | @tail trace middle marks last steps step ih =>
      have hmiddle := ih
      obtain ⟨notices, hmoves⟩ := step.moves (hmiddle.fresh fresh)
      have hhistory : last.bus.history = middle.bus.history ++ notices := by
        have hlast := hmoves.history_eq
        rwa [reported_append, step.reported_eq_nil, List.nil_append,
          reported_noted] at hlast
      have hnews : news middle.bus last.bus = notices.map .noted := by
        rw [news, hhistory, List.drop_left]
      rw [hnews, List.append_assoc]
      exact hmiddle.trans hmoves

theorem Run.moves [Store σ] {settings : Settings} {store? : Option σ} {trace : List Mark}
    {world : World σ} (run : Run settings store? trace world) :
    Moves ((create settings store?).outline []) trace world.outline :=
  Steps.moves run (create_fresh settings store?)

end EventBus.Bus
