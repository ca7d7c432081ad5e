import EventBus.Proofs.Bus.Scheduler

/-!
What a party that is at work leaves to the others. It takes no one out of a line or off a timer
but itself, and whoever it gives a place or a token to, or cancels, gets a turn. All that the
functions of the bus are put together of is of this kind.
-/

namespace EventBus.Bus

variable {σ : Type} {bus bus' bus'' : Bus σ} {busy : Option Actor} {ready : List Actor}

/-- What becomes of a feed without harm to anyone but the party at work. -/
structure FeedSpares (busy : Option Actor) (ready : List Actor) (feed feed' : Feed) : Prop where
  closed : feed'.closed = feed.closed
  canceled : feed'.canceled = true → feed.canceled = true ∨
    ∀ task, busy ≠ some (.task task) → task ∈ feed.watchers → .task task ∈ ready
  granted : ∀ task, busy ≠ some (.task task) → task ∈ feed'.places.granted →
    task ∈ feed.places.granted ∨ .task task ∈ ready
  watchers : ∀ task, busy ≠ some (.task task) → task ∈ feed.watchers → task ∈ feed'.watchers

/-- Whoever could still be given something is in the audience of the bus. -/
structure Attended (bus : Bus σ) : Prop where
  registry : ∀ consumer ∈ bus.registry, consumer.id ∈ bus.audience
  tasks : ∀ entry ∈ bus.tasks, ∀ consumer ∈ entry.2.consumers, consumer.id ∈ bus.audience
  pending : ∀ job deadline, bus.coordinator = .acquiring job deadline →
    ∀ consumer ∈ job.consumers, consumer.id ∈ bus.audience

/-- What becomes of a bus without harm to anyone but the party at work. -/
structure Spares (busy : Option Actor) (bus bus' : Bus σ) : Prop where
  now : bus'.now = bus.now
  nextId : bus.nextId ≤ bus'.nextId
  canceled : bus'.canceled = bus.canceled
  ready : bus.ready ⊆ bus'.ready
  lookup : ∀ task held, busy ≠ some (.task task) → bus'.tasks.lookup task = some held →
    bus.tasks.lookup task = some held ∨ .task task ∈ bus'.ready ∧ ∃ job : Job, held = job.task
  feed : ∀ id, Option.Rel (FeedSpares busy bus'.ready) (bus.feed? id) (bus'.feed? id)
  keys : bus'.feeds.map (·.1) = bus.feeds.map (·.1)
  timers : ∀ timer, busy ≠ some timer.2 → bus.timers.count timer ≤ bus'.timers.count timer
  future : ∀ timer ∈ bus'.timers, timer ∈ bus.timers ∨ bus.now < timer.1
  attended : bus.Attended → bus'.Attended
  coordinator : busy ≠ some .coordinator →
    bus'.coordinator = bus.coordinator ∧ bus'.commands = bus.commands
  senders : busy ≠ some .coordinator → (bus.feeds.map (·.1)).Nodup → bus'.senders = bus.senders
  tokens : busy ≠ some .coordinator → bus'.pool.tokens.granted ≠ [] →
    bus.pool.tokens.granted ≠ [] ∨ .coordinator ∈ bus'.ready

theorem FeedSpares.refl (busy : Option Actor) (ready : List Actor) (feed : Feed) :
    FeedSpares busy ready feed feed :=
  ⟨rfl, Or.inl, fun _ _ => Or.inl, fun _ _ => id⟩

theorem FeedSpares.trans {ready' : List Actor} {feed feed' feed'' : Feed}
    (first : FeedSpares busy ready feed feed') (hready : ready ⊆ ready')
    (second : FeedSpares busy ready' feed' feed'') : FeedSpares busy ready' feed feed'' where
  closed := second.closed.trans first.closed
  canceled hcanceled := by
    rcases second.canceled hcanceled with hearlier | hwoken
    · exact (first.canceled hearlier).imp_right fun hwoken task hbusy h =>
        hready (hwoken task hbusy h)
    · exact Or.inr fun task hbusy h => hwoken task hbusy (first.watchers task hbusy h)
  granted task hbusy h := by
    rcases second.granted task hbusy h with hearlier | hwoken
    · exact (first.granted task hbusy hearlier).imp_right fun hwoken => hready hwoken
    · exact Or.inr hwoken
  watchers task hbusy h := second.watchers task hbusy (first.watchers task hbusy h)

namespace Spares

theorem refl (bus : Bus σ) : Spares busy bus bus where
  now := rfl
  nextId := Nat.le_refl _
  canceled := rfl
  ready := List.Subset.refl _
  lookup _ _ _ := Or.inl
  feed id := by
    cases bus.feed? id with
    | none => exact .none
    | some feed => exact .some (.refl ..)
  keys := rfl
  timers _ _ := Nat.le_refl _
  future _ := Or.inl
  attended := id
  coordinator _ := ⟨rfl, rfl⟩
  senders _ _ := rfl
  tokens _ := Or.inl

theorem trans (first : Spares busy bus bus') (second : Spares busy bus' bus'') :
    Spares busy bus bus'' where
  now := second.now.trans first.now
  nextId := Nat.le_trans first.nextId second.nextId
  canceled := second.canceled.trans first.canceled
  ready := List.Subset.trans first.ready second.ready
  lookup task held hbusy h := by
    rcases second.lookup task held hbusy h with hearlier | hnew
    · exact (first.lookup task held hbusy hearlier).imp_right fun hnew =>
        ⟨second.ready hnew.1, hnew.2⟩
    · exact Or.inr hnew
  feed id := by
    have hfirst := first.feed id
    have hsecond := second.feed id
    generalize bus.feed? id = feed? at *
    generalize bus'.feed? id = feed'? at *
    generalize bus''.feed? id = feed''? at *
    cases hfirst with
    | none => exact hsecond
    | some hfirst =>
      cases hsecond with
      | some hsecond => exact .some (hfirst.trans second.ready hsecond)
  keys := second.keys.trans first.keys
  timers timer hbusy := Nat.le_trans (first.timers timer hbusy) (second.timers timer hbusy)
  future timer h := by
    rcases second.future timer h with hearlier | hlater
    · exact first.future timer hearlier
    · exact Or.inr (first.now ▸ hlater)
  attended attended := second.attended (first.attended attended)
  coordinator hbusy := by
    obtain ⟨hfirst, hcommands⟩ := first.coordinator hbusy
    obtain ⟨hsecond, hcommands'⟩ := second.coordinator hbusy
    exact ⟨hsecond.trans hfirst, hcommands'.trans hcommands⟩
  senders hbusy hkeys :=
    (second.senders hbusy (first.keys ▸ hkeys)).trans (first.senders hbusy hkeys)
  tokens hbusy h := by
    rcases second.tokens hbusy h with hearlier | hwoken
    · exact (first.tokens hbusy hearlier).imp_right fun hwoken => second.ready hwoken
    · exact Or.inr hwoken

theorem of_eq (h : bus = bus') : Spares busy bus bus' := h ▸ refl bus

theorem feed_of_some (spares : Spares busy bus bus') {id : ConsumerId} {feed : Feed}
    (h : bus.feed? id = some feed) :
    ∃ feed', bus'.feed? id = some feed' ∧ FeedSpares busy bus'.ready feed feed' := by
  have hrel := spares.feed id
  rw [h] at hrel
  generalize bus'.feed? id = feed'? at hrel
  cases hrel with
  | some hfeed => exact ⟨_, rfl, hfeed⟩

theorem some_of_feed (spares : Spares busy bus bus') {id : ConsumerId} {feed' : Feed}
    (h : bus'.feed? id = some feed') :
    ∃ feed, bus.feed? id = some feed ∧ FeedSpares busy bus'.ready feed feed' := by
  have hrel := spares.feed id
  rw [h] at hrel
  generalize bus.feed? id = feed? at hrel
  cases hrel with
  | some hfeed => exact ⟨_, rfl, hfeed⟩

end Spares

section Parts

/-! What the functions of the bus are put together of. -/

/-- What the parties have to do with: all but the reports, the store, and how many publishes and
tasks there have been. -/
def affairs (bus : Bus σ) : Bus σ :=
  { bus with history := [], store? := none, publishes := 0, nextTask := 0 }

theorem spares_of_affairs (h : bus'.affairs = bus.affairs) : Spares busy bus bus' := by
  have same : Spares busy bus.affairs bus'.affairs := h ▸ .refl _
  have hattended : bus.Attended → bus'.Attended := fun attended =>
    let ⟨registry, tasks, pending⟩ :=
      same.attended ⟨attended.registry, attended.tasks, attended.pending⟩
    ⟨registry, tasks, pending⟩
  exact ⟨same.now, same.nextId, same.canceled, same.ready, same.lookup, same.feed, same.keys,
    same.timers, same.future, hattended, same.coordinator, same.senders, same.tokens⟩

theorem spares_note (notice : Notice) : Spares busy bus (bus.note notice) := spares_of_affairs rfl

theorem mem_ready_wake {actor other : Actor} :
    other ∈ (bus.wake actor).ready ↔ other ∈ bus.ready ∨ other = actor := by
  unfold wake
  split
  next h =>
    rw [List.contains_iff_mem] at h
    exact ⟨Or.inl, fun hother => hother.elim id fun hsame => hsame ▸ h⟩
  next => exact List.mem_append.trans (or_congr_right List.mem_singleton)

theorem mem_ready_wakeTasks {tasks : List TaskId} {other : Actor} :
    other ∈ (bus.wakeTasks tasks).ready ↔ other ∈ bus.ready ∨ ∃ task ∈ tasks, other = .task task := by
  induction tasks generalizing bus with
  | nil => simp [wakeTasks]
  | cons task tasks ih =>
    refine (@ih (bus.wake (.task task))).trans ?_
    rw [mem_ready_wake, or_assoc]
    simp only [List.mem_cons, or_and_right, exists_or, exists_eq_left]

theorem wakeTasks_eq (bus : Bus σ) (tasks : List TaskId) :
    bus.wakeTasks tasks = { bus with ready := (bus.wakeTasks tasks).ready } :=
  foldl_wake_eq Actor.task tasks bus

theorem spares_ready (h : bus.ready ⊆ ready) : Spares busy bus { bus with ready } :=
  { Spares.refl bus with
    ready := h
    lookup := fun _ _ _ => Or.inl
    feed := fun id => by
      show Option.Rel _ (bus.feed? id) (bus.feed? id)
      cases bus.feed? id with
      | none => exact .none
      | some feed => exact .some (.refl ..)
    attended := fun attended => ⟨attended.registry, attended.tasks, attended.pending⟩
    tokens := fun _ => Or.inl }

theorem spares_wake (actor : Actor) : Spares busy bus (bus.wake actor) := by
  rw [wake_eq]
  exact spares_ready fun other h => mem_ready_wake.mpr (Or.inl h)

theorem senders_setFeed {id : ConsumerId} {old feed : Feed} (hkeys : (bus.feeds.map (·.1)).Nodup)
    (h : bus.feed? id = some old) (hclosed : feed.closed = old.closed) :
    (bus.setFeed id feed).senders = bus.senders := by
  have hsame : ∀ entry ∈ bus.feeds,
      (!(if entry.1 = id then (id, feed) else entry).2.closed) = !entry.2.closed := by
    intro entry hentry
    split
    next hid =>
      have hheld : bus.feeds.lookup id = some entry.2 := hid ▸ lookup_of_mem hkeys hentry
      rw [hclosed, Option.some.inj (h.symm.trans hheld)]
    next => rfl
  unfold senders setFeed
  dsimp only
  rw [← List.countP_eq_length_filter, ← List.countP_eq_length_filter, List.countP_map]
  exact congrArg _ (List.countP_congr fun entry hentry => by simp [hsame entry hentry])

theorem keys_setFeed (bus : Bus σ) (id : ConsumerId) (feed : Feed) :
    (bus.setFeed id feed).feeds.map (·.1) = bus.feeds.map (·.1) :=
  keys_map_replace feed

theorem spares_setFeed {id : ConsumerId} {old feed : Feed} (h : bus.feed? id = some old)
    (hready : bus.ready ⊆ ready) (hfeed : FeedSpares busy ready old feed) :
    Spares busy bus { bus.setFeed id feed with ready } where
  now := rfl
  nextId := Nat.le_refl _
  canceled := rfl
  ready := hready
  lookup _ _ _ := Or.inl
  feed other := by
    show Option.Rel _ (bus.feed? other) ((bus.setFeed id feed).feed? other)
    rw [feed?_setFeed feed h]
    by_cases hother : other = id
    · subst hother
      rw [Function.update_self, h]
      exact .some hfeed
    · rw [Function.update_of_ne hother]
      cases bus.feed? other with
      | none => exact .none
      | some feed => exact .some (.refl ..)
  keys := keys_setFeed bus id feed
  timers _ _ := Nat.le_refl _
  future _ := Or.inl
  attended attended := ⟨attended.registry, attended.tasks, attended.pending⟩
  coordinator _ := ⟨rfl, rfl⟩
  senders _ hkeys := senders_setFeed hkeys h hfeed.closed
  tokens _ := Or.inl

theorem spares_setTimer {deadline : Nat} {actor : Actor} (h : bus.now < deadline) :
    Spares busy bus (bus.setTimer deadline actor) :=
  { Spares.refl bus with
    timers := fun timer _ => by
      show _ ≤ (bus.timers ++ [(deadline, actor)]).count timer
      rw [List.count_append]
      exact Nat.le_add_right _ _
    future := fun timer htimer => by
      rcases List.mem_append.mp htimer with hold | hnew
      · exact Or.inl hold
      · cases List.mem_singleton.mp hnew
        exact Or.inr h
    attended := fun attended => ⟨attended.registry, attended.tasks, attended.pending⟩ }

theorem spares_clearTimer (deadline : Nat) (actor : Actor) :
    Spares (some actor) bus (bus.clearTimer deadline actor) :=
  { Spares.refl bus with
    timers := fun timer hbusy => by
      have hother : timer ≠ (deadline, actor) := by
        rintro rfl
        exact hbusy rfl
      exact Nat.le_of_eq (List.count_erase_of_ne hother).symm
    future := fun timer htimer => Or.inl (List.mem_of_mem_erase htimer)
    attended := fun attended => ⟨attended.registry, attended.tasks, attended.pending⟩ }

/-- A task goes on with the consumers that it has. -/
theorem spares_setTask {task : TaskId} {held held' : Task} (h : bus.tasks.lookup task = some held)
    (hconsumers : held'.consumers = held.consumers) :
    Spares (some (.task task)) bus (bus.setTask task held') :=
  { Spares.refl bus with
    lookup := fun other found hbusy hfound => by
      have hother : other ≠ task := fun hsame => hbusy (hsame ▸ rfl)
      exact Or.inl ((lookup_map_replace_of_ne held' hother).symm.trans hfound)
    attended := fun attended => by
      refine ⟨attended.registry, fun entry hentry => ?_, attended.pending⟩
      obtain ⟨old, hold, rfl⟩ := List.mem_map.mp hentry
      split
      next =>
        rw [hconsumers]
        exact attended.tasks _ (mem_of_lookup h)
      next => exact attended.tasks old hold }

theorem mem_swapOut {id other : ConsumerId} {ids : List ConsumerId} (hne : other ≠ id)
    (hid : id ∈ ids) (h : other ∈ ids) : other ∈ swapOut id ids := by
  unfold swapOut
  split
  next hnone =>
    rw [List.getLast?_eq_none_iff.mp hnone] at h
    cases h
  next last hlast =>
    have hids := List.dropLast_append_getLast? last hlast
    rw [← hids] at hid h
    split
    next hsame =>
      refine (List.mem_append.mp h).resolve_right fun hmem => hne ?_
      exact (List.mem_singleton.mp hmem).trans hsame
    next hother =>
      rw [List.mem_map]
      rcases List.mem_append.mp h with hmem | hmem
      · exact ⟨other, hmem, if_neg hne⟩
      · refine ⟨id, ?_, (if_pos rfl).trans (List.mem_singleton.mp hmem).symm⟩
        refine (List.mem_append.mp hid).resolve_right fun hmem => hother ?_
        exact (List.mem_singleton.mp hmem).symm

theorem Attended.letGo (attended : bus.Attended) (id : ConsumerId) : (bus.letGo id).Attended := by
  unfold Bus.letGo
  split
  next => exact attended
  next hgoes =>
    rw [Bool.or_eq_true, not_or, Bool.not_eq_true, Bool.not_eq_true, Bool.not_eq_false'] at hgoes
    obtain ⟨hheld, hmem⟩ := hgoes
    rw [List.contains_iff_mem] at hmem
    rw [isHeld, Bool.or_eq_false_iff, Bool.or_eq_false_iff] at hheld
    obtain ⟨⟨hregistry, htasks⟩, hpending⟩ := hheld
    refine ⟨fun consumer hconsumer => ?_, fun entry hentry consumer hconsumer => ?_,
      fun job deadline hjob consumer hconsumer => ?_⟩
    · refine mem_swapOut ?_ hmem (attended.registry consumer hconsumer)
      simpa using List.any_eq_false.mp hregistry consumer hconsumer
    · refine mem_swapOut ?_ hmem (attended.tasks entry hentry consumer hconsumer)
      have hnone := List.any_eq_false.mp htasks entry hentry
      rw [Bool.not_eq_true] at hnone
      simpa using List.any_eq_false.mp hnone consumer hconsumer
    · refine mem_swapOut ?_ hmem (attended.pending job deadline hjob consumer hconsumer)
      have hjob' : bus.coordinator = .acquiring job deadline := hjob
      rw [pendingJob?, hjob', Option.any_some] at hpending
      simpa using List.any_eq_false.mp hpending consumer hconsumer

theorem spares_letGo (id : ConsumerId) : Spares busy bus (bus.letGo id) := by
  have hattended : bus.Attended → (bus.letGo id).Attended := fun attended => attended.letGo id
  unfold letGo at hattended ⊢
  split
  next => exact .refl bus
  next hgoes =>
    rw [if_neg hgoes] at hattended
    exact { Spares.refl bus with attended := hattended }

theorem spares_letGoAll (consumers : List Consumer) : Spares busy bus (bus.letGoAll consumers) := by
  induction consumers generalizing bus with
  | nil => exact .refl bus
  | cons consumer consumers ih => exact (spares_letGo consumer.id).trans ih

theorem spares_pool {pool : Pool Unit} (hready : bus.ready ⊆ ready)
    (h : busy ≠ some .coordinator → pool.tokens.granted ≠ [] →
      bus.pool.tokens.granted ≠ [] ∨ .coordinator ∈ ready) :
    Spares busy bus { bus with pool, ready } :=
  { Spares.refl bus with
    ready := hready
    lookup := fun _ _ _ => Or.inl
    feed := (spares_ready hready).feed
    attended := fun attended => ⟨attended.registry, attended.tasks, attended.pending⟩
    tokens := h }

/-- A token that is kept for the coordinator then gives it a turn. -/
theorem spares_releaseToken : Spares busy bus bus.releaseToken := by
  have hgranted := Semaphore.granted_release bus.pool.tokens
  unfold releaseToken Pool.release
  dsimp only
  split
  next hnext =>
    rw [wake_eq]
    refine spares_pool (fun other h => mem_ready_wake.mpr (Or.inl h)) fun _ _ => ?_
    exact Or.inr (mem_ready_wake.mpr (Or.inr rfl))
  next hnext =>
    refine spares_pool (List.Subset.refl _) fun _ h => Or.inl ?_
    rwa [hgranted, hnext, Option.toList_none, List.append_nil] at h

theorem spares_endTask (task : TaskId) :
    Spares (some (.task task)) bus { bus with tasks := bus.tasks.filter (·.1 != task) } :=
  { Spares.refl bus with
    lookup := fun other held hbusy h => by
      have hother : other ≠ task := fun hsame => hbusy (hsame ▸ rfl)
      rw [lookup_filter_ne, if_neg hother] at h
      exact Or.inl h
    attended := fun attended =>
      ⟨attended.registry, fun entry hentry => attended.tasks entry (List.mem_filter.mp hentry).1,
        attended.pending⟩ }

theorem spares_finish (task : TaskId) (held : Task) :
    Spares (some (.task task)) bus (bus.finish task held) :=
  ((spares_endTask task).trans (spares_letGoAll _)).trans spares_releaseToken

theorem spares_spawn {job : Job} (h : ∀ consumer ∈ job.consumers, consumer.id ∈ bus.audience) :
    Spares busy bus (bus.spawn job.task) := by
  unfold spawn
  rw [wake_eq]
  have hwoken {ready : List Actor} (hready : bus.ready ⊆ ready)
      (hturn : .task bus.nextTask ∈ ready) :
      Spares busy bus { bus with
        tasks := bus.tasks ++ [(bus.nextTask, job.task)]
        nextTask := bus.nextTask + 1
        ready } := by
    refine { spares_ready hready with lookup := ?_, attended := ?_ }
    · intro task held _ hheld
      change (bus.tasks ++ [(bus.nextTask, job.task)]).lookup task = some held at hheld
      rw [List.lookup_append, Option.or_eq_some_iff] at hheld
      rcases hheld with hold | ⟨-, hnew⟩
      · exact Or.inl hold
      · by_cases htask : task = bus.nextTask
        · subst htask
          rw [List.lookup_cons_self] at hnew
          exact Or.inr ⟨hturn, job, (Option.some.inj hnew).symm⟩
        · rw [lookup_cons_of_ne _ htask] at hnew
          cases hnew
    · refine fun attended => ⟨attended.registry, fun entry hentry => ?_, attended.pending⟩
      rcases List.mem_append.mp hentry with hold | hnew
      · exact attended.tasks entry hold
      · rw [List.mem_singleton.mp hnew, consumers_task]
        exact h
  exact hwoken (fun other h => mem_ready_wake.mpr (Or.inl h)) (mem_ready_wake.mpr (Or.inr rfl))

/-- Whoever waits for something of the consumer that is cancelled gets a turn. -/
theorem spares_cancelConsumer (id : ConsumerId) : Spares busy bus (bus.cancelConsumer id) := by
  unfold cancelConsumer
  split
  next => exact .refl bus
  next =>
    split
    next => exact .refl bus
    next feed hfeed =>
      rw [wakeTasks_eq]
      refine spares_setFeed hfeed (fun other h => mem_ready_wakeTasks.mpr (Or.inl h)) ?_
      refine ⟨rfl, fun _ => Or.inr fun task _ hwatches => ?_, fun _ _ => Or.inl, fun _ _ h => h⟩
      exact mem_ready_wakeTasks.mpr (Or.inr ⟨task, hwatches, rfl⟩)

theorem spares_register (consumer : Consumer) :
    Spares busy bus { bus with
      registry := insertConsumer consumer bus.registry
      audience := bus.audience ++ [consumer.id] } :=
  { Spares.refl bus with
    attended := fun attended => by
      refine ⟨fun other hother => List.mem_append.mpr ?_, fun entry hentry other hother => ?_,
        fun job deadline hjob other hother => ?_⟩
      · rcases List.mem_cons.mp ((insertConsumer_perm _ _).mem_iff.mp hother) with rfl | hold
        · exact Or.inr (List.mem_singleton_self _)
        · exact Or.inl (attended.registry other hold)
      · exact List.mem_append_left _ (attended.tasks entry hentry other hother)
      · exact List.mem_append_left _ (attended.pending job deadline hjob other hother) }

theorem spares_unregister {registry : List Consumer} (h : registry ⊆ bus.registry) :
    Spares busy bus { bus with registry } :=
  { Spares.refl bus with
    attended := fun attended =>
      ⟨fun consumer hconsumer => attended.registry consumer (h hconsumer), attended.tasks,
        attended.pending⟩ }

theorem spares_expel (id : ConsumerId) :
    Spares busy bus { bus with registry := bus.registry.filter (·.id != id) } :=
  spares_unregister (List.filter_subset_self _)

/-- What the coordinator is at is its own affair. -/
theorem spares_coordinate {coordinator : Coordinator} {commands : List Command} {pool : Pool Unit}
    (h : ∀ job deadline, coordinator = .acquiring job deadline →
      ∀ consumer ∈ job.consumers, consumer.id ∈ bus.audience) :
    Spares (some .coordinator) bus { bus with coordinator, commands, pool } :=
  { Spares.refl bus with
    attended := fun attended => ⟨attended.registry, attended.tasks, h⟩
    coordinator := fun hbusy => absurd rfl hbusy
    tokens := fun hbusy => absurd rfl hbusy }

end Parts

end EventBus.Bus
