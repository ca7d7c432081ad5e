import EventBus.Proofs.Bus.Reached
import EventBus.Proofs.Bus.Vigil

/-!
Whatever comes from outside wakes those whom it concerns. A command, and the end of the last who
could send one, wake a coordinator that waits for commands. The end of a subscription wakes those
who wait for a place in its feed. Cancelling the bus wakes the watchers of all consumers that could
still be given something. Time wakes those whose deadline it comes to.
-/

namespace EventBus.Bus

variable {σ : Type} {bus bus' : Bus σ} {busy : Option Actor} {ready : List Actor}
  {id : ConsumerId}

section Coordinator

theorem exists_ready_wakeReceiver (bus : Bus σ) :
    ∃ ready, bus.wakeReceiver = { bus with ready } ∧ bus.ready ⊆ ready ∧
      (bus.coordinator = .receiving → .coordinator ∈ ready) := by
  unfold wakeReceiver
  split
  next =>
    refine ⟨_, wake_eq bus _, fun other h => ?_, fun _ => ?_⟩
    · exact mem_ready_wake.mpr (Or.inl h)
    · exact mem_ready_wake.mpr (Or.inr rfl)
  next hother => exact ⟨bus.ready, rfl, List.Subset.refl _, fun h => absurd h hother⟩

theorem exists_ready_wakeTasks (bus : Bus σ) (tasks : List TaskId) :
    ∃ ready, bus.wakeTasks tasks = { bus with ready } ∧
      ∀ other, other ∈ ready ↔ other ∈ bus.ready ∨ ∃ task ∈ tasks, other = .task task :=
  ⟨_, wakeTasks_eq bus tasks, fun _ => mem_ready_wakeTasks⟩

/-- What there is for the coordinator to take changes from outside, and it gets a turn if it waits
for that. -/
theorem Vigil.affair (vigil : Vigil none bus) (spares : Spares (some .coordinator) bus bus')
    (hcoordinator : bus'.coordinator = bus.coordinator) (htimers : bus'.timers = bus.timers)
    (hpool : bus'.pool = bus.pool)
    (hreceiving : bus.coordinator = .receiving → bus'.commands ≠ [] ∨ bus'.senders = 0 →
      bus.CoordinatorStirs ∨ .coordinator ∈ bus'.ready) : Vigil none bus' := by
  refine ((vigil.begin .coordinator).spares spares).finish (fun hstirs => ?_) ?_
  · change bus'.CoordinatorStirs at hstirs
    have hwoken : bus.CoordinatorStirs ∨ .coordinator ∈ bus'.ready := by
      refine hstirs.imp_or hcoordinator spares.canceled hreceiving fun job deadline hat h => ?_
      rw [spares.now, hpool] at h
      exact Or.inl ((coordinatorStirs_acquiring_iff hat).mpr (Or.inr h))
    exact hwoken.elim (fun hearlier => spares.ready (vigil.awake .coordinator nofun hearlier)) id
  · intro job deadline hjob hearly
    rw [hcoordinator] at hjob
    rw [htimers]
    exact vigil.hears .coordinator nofun job deadline hjob (spares.now ▸ hearly)

theorem Vigil.wakeReceiver (vigil : Vigil none bus) (spares : Spares (some .coordinator) bus bus')
    (hcoordinator : bus'.coordinator = bus.coordinator) (htimers : bus'.timers = bus.timers)
    (hpool : bus'.pool = bus.pool) : Vigil none bus'.wakeReceiver := by
  obtain ⟨ready, hsame, hready, hreceiver⟩ := exists_ready_wakeReceiver bus'
  rw [hsame]
  refine vigil.affair (spares.trans (spares_ready hready)) hcoordinator htimers hpool fun h _ => ?_
  exact Or.inr (hreceiver (hcoordinator.trans h))

theorem Vigil.enqueue (vigil : Vigil none bus) (command : Command) :
    Vigil none (bus.enqueue command) := by
  have hqueued : Spares (some .coordinator) bus
      { bus with commands := bus.commands ++ [command] } :=
    spares_coordinate vigil.attended.pending
  exact vigil.wakeReceiver hqueued rfl rfl rfl

theorem Vigil.send (vigil : Vigil none bus) (canceled : Bool) (command : Command) :
    Vigil none (bus.send canceled command).2 := by
  unfold Bus.send
  split
  · exact vigil.enqueue command
  · exact vigil

theorem spares_handles (handles : Nat) : Spares (some .coordinator) bus { bus with handles } :=
  { Spares.refl bus with
    attended := fun attended => ⟨attended.registry, attended.tasks, attended.pending⟩
    senders := fun hbusy => absurd rfl hbusy }

theorem Vigil.addHandle (vigil : Vigil none bus) : Vigil none bus.addHandle := by
  refine vigil.affair (spares_handles _) rfl rfl rfl fun h hwaiting => Or.inl ?_
  refine (coordinatorStirs_receiving_iff h).mpr (Or.inr (hwaiting.imp_right fun hnone => ?_))
  exact absurd hnone (by simp [senders, Bus.addHandle])

theorem Vigil.dropHandle (vigil : Vigil none bus) : Vigil none bus.dropHandle := by
  let dropped : Bus σ := { bus with handles := bus.handles - 1 }
  have hdropped : Spares (some .coordinator) bus dropped := spares_handles _
  show Vigil none (if dropped.senders = 0 then dropped.wakeReceiver else dropped)
  split
  next => exact vigil.wakeReceiver hdropped rfl rfl rfl
  next hsome =>
    refine vigil.affair hdropped rfl rfl rfl fun h hwaiting => Or.inl ?_
    refine (coordinatorStirs_receiving_iff h).mpr (Or.inr (Or.inl ?_))
    exact hwaiting.resolve_right hsome

theorem Vigil.start (vigil : Vigil none bus) : Vigil none bus.start := by
  unfold Bus.start
  split
  next h =>
    have hstarted : Spares (some .coordinator) bus { bus with coordinator := .starting } :=
      spares_coordinate nofun
    refine ((vigil.begin .coordinator).spares (hstarted.trans (spares_wake _))).finish
      (fun _ => mem_ready_wake.mpr (Or.inr rfl)) ?_
    rw [wake_eq]
    nofun
  next => exact vigil

theorem Vigil.dropCoordinator (vigil : Vigil none bus) : Vigil none bus.dropCoordinator := by
  unfold Bus.dropCoordinator
  split
  next h =>
    have hdropped : Spares (some .coordinator) bus
        { bus with coordinator := .absent, commands := [] } :=
      spares_coordinate nofun
    exact ((vigil.begin .coordinator).spares hdropped).finish (fun hstirs => nomatch hstirs) nofun
  next => exact vigil

end Coordinator

section Waits

theorem Task.WaitsOn.exists_consumer {held : Task} (hwaits : held.WaitsOn id) :
    ∃ consumer ∈ held.consumers, consumer.id = id := by
  cases hwaits with
  | place hentry hwaiting => exact ⟨_, mem_consumers_of_mem_legs hentry, rfl⟩
  | stream => exact ⟨_, List.mem_singleton_self _, rfl⟩

/-- The tasks stay as they are, and whoever has a new reason to go on is woken. -/
theorem Vigil.intervene (vigil : Vigil none bus) (htasks : bus'.tasks = bus.tasks)
    (hready : bus.ready ⊆ bus'.ready)
    (hstirs : ∀ task held, bus.tasks.lookup task = some held → bus.TaskHears task held →
      bus'.TaskStirs task held → bus.TaskStirs task held ∨ .task task ∈ bus'.ready)
    (hhears : ∀ task held, bus.tasks.lookup task = some held → bus.TaskHears task held →
      bus'.TaskHears task held)
    (hcoordinator : bus'.CoordinatorStirs → bus.CoordinatorStirs ∨ .coordinator ∈ bus'.ready)
    (htimer : bus'.Hears .coordinator) (future : ∀ timer ∈ bus'.timers, bus'.now < timer.1)
    (attended : bus'.Attended) (distinct : (bus'.feeds.map (·.1)).Nodup)
    (numbered : ∀ id ∈ bus'.feeds.map (·.1), id < bus'.nextId) : Vigil none bus' where
  awake actor _ h := by
    cases actor with
    | coordinator =>
      exact (hcoordinator h).elim (fun h => hready (vigil.awake .coordinator nofun h)) id
    | task task =>
      obtain ⟨held, hheld, hwants⟩ := h
      rw [htasks] at hheld
      rcases hstirs task held hheld (vigil.hears (.task task) nofun held hheld) hwants with h | h
      · exact hready (vigil.awake (.task task) nofun ⟨held, hheld, h⟩)
      · exact h
  hears actor _ := by
    cases actor with
    | coordinator => exact htimer
    | task task =>
      intro held hheld
      rw [htasks] at hheld
      exact hhears task held hheld (vigil.hears (.task task) nofun held hheld)
  future := future
  attended := attended
  distinct := distinct
  numbered := numbered

/-- Cancelling the bus wakes the watchers of each consumer of the audience that has not been
cancelled before. -/
theorem Vigil.cancelAll (vigil : Vigil none bus) (standing : StandingLaw bus.ledger)
    (hready : bus.ready ⊆ ready)
    (hwoken : ∀ id ∈ bus.audience, ∀ feed, bus.feed? id = some feed → feed.canceled = false →
      ∀ task ∈ feed.watchers, .task task ∈ ready)
    (hcoordinator : bus.coordinator.isWaiting = true → .coordinator ∈ ready) :
    Vigil none { bus with canceled := true, ready } := by
  refine vigil.intervene rfl hready (fun task held hheld hears hstirs => ?_)
    (fun task held _ hears => ?_) (fun hstirs => ?_) (vigil.hears .coordinator nofun) vigil.future
    ⟨vigil.attended.registry, vigil.attended.tasks, vigil.attended.pending⟩ vigil.distinct
    vigil.numbered
  · refine hstirs.imp_or (fun id hwaits _ => ?_) (fun _ _ => Or.inl) fun _ _ _ => Or.inl
    obtain ⟨consumer, hconsumer, rfl⟩ := hwaits.exists_consumer
    refine or_iff_not_imp_left.mpr fun hlive => ?_
    rw [Bool.not_eq_true] at hlive
    have hregistered := standing.isRegistered hheld hconsumer hlive
    obtain ⟨room, hroom⟩ := Option.isSome_iff_exists.mp (standing.roomed _ hregistered)
    obtain ⟨feed, hfeed, -⟩ := Option.map_eq_some_iff.mp hroom
    refine hwoken consumer.id (vigil.attended.tasks _ (mem_of_lookup hheld) consumer hconsumer) feed
      hfeed ?_ task (hears.watches _ hwaits feed hfeed)
    exact Bool.eq_false_iff.mpr fun h =>
      Bool.eq_false_iff.mp hlive (isCanceled_iff.mpr (Or.inr ⟨feed, hfeed, h⟩))
  · exact hears.imp (fun _ _ feed hfeed => ⟨feed, hfeed, id⟩) fun _ hearly => ⟨hearly, Nat.le_refl _⟩
  · cases hat : bus.coordinator with
    | receiving | acquiring _ _ => exact Or.inr (hcoordinator (hat ▸ rfl))
    | _ =>
      unfold CoordinatorStirs at hstirs ⊢
      rw [hat] at hstirs ⊢
      exact Or.inl hstirs

theorem Vigil.cancel (vigil : Vigil none bus) (standing : StandingLaw bus.ledger) :
    Vigil none bus.cancel := by
  have hwatchers : ∀ id ∈ bus.audience, ∀ feed, bus.feed? id = some feed → feed.canceled = false →
      ∀ task ∈ feed.watchers, task ∈ bus.canceledTasks := by
    intro id hid feed hfeed hlive task htask
    refine List.mem_flatMap.mpr ⟨id, List.mem_reverse.mpr hid, ?_⟩
    simp [hfeed, hlive, htask]
  let canceled : Bus σ := { bus with canceled := true }
  obtain ⟨woken, hsame, hmem⟩ := canceled.exists_ready_wakeTasks bus.canceledTasks
  have hready : bus.ready ⊆ woken := fun other h => (hmem other).mpr (Or.inl h)
  have hwoken : ∀ id ∈ bus.audience, ∀ feed, bus.feed? id = some feed → feed.canceled = false →
      ∀ task ∈ feed.watchers, .task task ∈ woken := fun id hid feed hfeed hlive task h =>
    (hmem _).mpr (Or.inr ⟨task, hwatchers id hid feed hfeed hlive task h, rfl⟩)
  unfold Bus.cancel
  split
  next => exact vigil
  next =>
    dsimp only
    rw [show ({ bus with canceled := true } : Bus σ).wakeTasks bus.canceledTasks = _ from hsame]
    split
    next =>
      rw [wake_eq]
      refine vigil.cancelAll standing (fun other h => mem_ready_wake.mpr (Or.inl (hready h)))
        (fun id hid feed hfeed hlive task h => ?_) fun _ => mem_ready_wake.mpr (Or.inr rfl)
      exact mem_ready_wake.mpr (Or.inl (hwoken id hid feed hfeed hlive task h))
    next hidle =>
      exact vigil.cancelAll standing hready hwoken fun hwaiting => absurd hwaiting hidle

/-- Time wakes those whose deadline it comes to. -/
theorem Vigil.arrive {now : Nat} (vigil : Vigil none bus) (hnow : bus.now ≤ now)
    (hready : bus.ready ⊆ ready)
    (hwoken : ∀ timer ∈ bus.timers, timer.1 ≤ now → timer.2 ∈ ready) :
    Vigil none { bus with now, timers := bus.timers.filter (now < ·.1), ready } := by
  have hstays : ∀ timer : Nat × Actor, now < timer.1 → decide (now < timer.1) = true :=
    fun timer h => decide_eq_true h
  refine vigil.intervene rfl hready (fun task held _ hears hstirs => ?_)
    (fun task held _ hears => ?_) (fun hstirs => ?_) (fun job deadline hjob hearly => ?_)
    (fun timer htimer => ?_) ⟨vigil.attended.registry, vigil.attended.tasks, vigil.attended.pending⟩
    vigil.distinct vigil.numbered
  · refine hstirs.imp_or (fun _ _ => Or.inl) (fun deadline hwaits hdue => ?_) fun _ _ _ => Or.inl
    refine or_iff_not_imp_left.mpr fun hearly => hwoken (deadline, .task task) ?_ hdue
    exact List.count_pos_iff.mp
      (Nat.lt_of_lt_of_le hwaits (hears.timed deadline (Nat.lt_of_not_le hearly)))
  · refine hears.imp (fun _ _ feed hfeed => ⟨feed, hfeed, id⟩) fun deadline hearly => ?_
    refine ⟨Nat.lt_of_le_of_lt hnow hearly, Nat.le_of_eq (Eq.symm ?_)⟩
    exact List.count_filter (hstays (deadline, _) hearly)
  · refine hstirs.imp_or rfl rfl (fun hat hwaiting => ?_) fun job deadline hat hwaiting => ?_
    · exact Or.inl ((coordinatorStirs_receiving_iff hat).mpr (Or.inr hwaiting))
    · rcases hwaiting with hdue | htokens
      · by_cases hlate : deadline ≤ bus.now
        · exact Or.inl ((coordinatorStirs_acquiring_iff hat).mpr (Or.inr (Or.inl hlate)))
        · have htimer := vigil.hears .coordinator nofun job deadline hat (Nat.lt_of_not_le hlate)
          exact Or.inr (hwoken _ htimer hdue)
      · exact Or.inl ((coordinatorStirs_acquiring_iff hat).mpr (Or.inr (Or.inr htokens)))
  · have htimer := vigil.hears .coordinator nofun job deadline hjob (Nat.lt_of_le_of_lt hnow hearly)
    exact List.mem_filter.mpr ⟨htimer, hstays _ hearly⟩
  · exact of_decide_eq_true (List.mem_filter.mp htimer).2

theorem mem_ready_foldl_wake {α : Type} (actor : α → Actor) (entries : List α) (bus : Bus σ)
    {other : Actor} :
    other ∈ (entries.foldl (fun bus entry => bus.wake (actor entry)) bus).ready ↔
      other ∈ bus.ready ∨ ∃ entry ∈ entries, other = actor entry := by
  induction entries generalizing bus with
  | nil => simp
  | cons entry entries ih =>
    rw [List.foldl_cons, ih, mem_ready_wake, or_assoc]
    simp only [List.mem_cons, or_and_right, exists_or, exists_eq_left]

theorem Vigil.reach {now : Nat} (vigil : Vigil none bus) (hnow : bus.now ≤ now) :
    Vigil none (bus.reach now) := by
  unfold Bus.reach
  dsimp only
  rw [foldl_wake_eq (fun timer : Nat × Actor => timer.2)]
  refine vigil.arrive hnow (fun other h => ?_) fun timer htimer hdue => ?_
  · exact (mem_ready_foldl_wake _ _ _).mpr (Or.inl h)
  · refine (mem_ready_foldl_wake _ _ _).mpr (Or.inr ⟨timer, ?_, rfl⟩)
    exact List.mem_filter.mpr ⟨htimer, decide_eq_true hdue⟩

/-- Where no deadline is met, time goes by and nothing else happens. -/
theorem Vigil.wait {now : Nat} (vigil : Vigil none bus) (hnow : bus.now ≤ now)
    (hnone : ∀ timer ∈ bus.timers, now < timer.1) : Vigil none { bus with now } := by
  have hall : bus.timers.filter (now < ·.1) = bus.timers :=
    List.filter_eq_self.mpr fun timer htimer => decide_eq_true (hnone timer htimer)
  have harrived := vigil.arrive hnow (List.Subset.refl bus.ready)
    fun timer htimer hdue => absurd hdue (Nat.not_le_of_lt (hnone timer htimer))
  rwa [hall] at harrived

end Waits

section Feeds

variable {feed : Feed}

theorem Vigil.receive (vigil : Vigil none bus) (id : ConsumerId) :
    Vigil none (bus.receive id).2 := by
  unfold Bus.receive
  split
  next => exact vigil
  next feed hfeed =>
    split
    next batch popped next? hpop =>
      refine vigil.spares (spares_setFeed_wakeIf hfeed fun ready hready => ?_)
      unfold Feed.pop? at hpop
      split at hpop
      next => cases hpop
      next batch queue hqueue =>
        cases hpop
        refine ⟨rfl, Or.inl, fun task _ hgranted => ?_, fun _ _ h => h⟩
        have hkept : task ∈ feed.places.granted ++ feed.places.release.2.toList :=
          Semaphore.granted_release feed.places ▸ hgranted
        refine (List.mem_append.mp hkept).imp_right fun hnext => hready task ?_
        exact Option.mem_toList.mp hnext
    next => exact vigil

/-- Who looked at the feeds as they were finds the new one empty and open. -/
theorem feed?_openFeed {places : Nat} (h : id ∉ bus.feeds.map (·.1)) :
    (bus.openFeed id places).feed? = Function.update bus.feed? id (some (.ofPlaces places)) := by
  funext other
  show (bus.feeds ++ [(id, Feed.ofPlaces places)]).lookup other = _
  rw [List.lookup_append]
  by_cases hother : other = id
  · subst hother
    rw [Function.update_self, List.lookup_cons_self,
      List.lookup_eq_none_iff.mpr fun entry hentry => ?_, Option.none_or]
    exact bne_iff_ne.mpr fun hkey => h (hkey ▸ List.mem_map_of_mem hentry)
  · rw [Function.update_of_ne hother, lookup_cons_of_ne _ hother, List.lookup_nil, Option.or_none]
    rfl

/-- No one waits at a feed that is new. -/
theorem Vigil.openFeed (vigil : Vigil none bus) (reached : ∀ task held,
      bus.tasks.lookup task = some held → ∀ consumer ∈ held.consumers, consumer.id ≠ id)
    (hnew : id ∉ bus.feeds.map (·.1)) (hid : id < bus.nextId) (places : Nat) :
    Vigil none (bus.openFeed id places) := by
  have hfeed : (bus.openFeed id places).feed?
      = Function.update bus.feed? id (some (.ofPlaces places)) := feed?_openFeed hnew
  have hother : ∀ {task held}, bus.tasks.lookup task = some held → ∀ other, held.WaitsOn other →
      (bus.openFeed id places).feed? other = bus.feed? other := by
    intro task held hheld other hwaits
    obtain ⟨consumer, hconsumer, rfl⟩ := hwaits.exists_consumer
    rw [hfeed, Function.update_of_ne (reached task held hheld consumer hconsumer)]
  have hkeys : (bus.openFeed id places).feeds.map (·.1) = bus.feeds.map (·.1) ++ [id] :=
    List.map_append
  refine vigil.intervene rfl (List.Subset.refl _) (fun task held hheld _ hstirs => ?_)
    (fun task held hheld hears => ?_) (fun hstirs => ?_) (vigil.hears .coordinator nofun)
    vigil.future ⟨vigil.attended.registry, vigil.attended.tasks, vigil.attended.pending⟩ ?_ ?_
  · refine hstirs.imp_or (fun other hwaits hcanceled => Or.inl ?_) (fun _ _ => Or.inl)
      fun entry hentry hwaiting hserved => Or.inl fun feed hfeed => hserved feed ?_
    · rw [isCanceled_iff, hother hheld other hwaits] at hcanceled
      exact isCanceled_iff.mpr hcanceled
    · rwa [hother hheld _ (.place hentry hwaiting)]
  · refine hears.imp (fun other hwaits feed hfeed => ⟨feed, ?_, fun h => h⟩) fun _ hearly =>
      ⟨hearly, Nat.le_refl _⟩
    rwa [hother hheld other hwaits] at hfeed
  · refine hstirs.imp_or rfl rfl (fun hat hwaiting => Or.inl ?_) fun _ _ hat hwaiting => Or.inl ?_
    · refine (coordinatorStirs_receiving_iff hat).mpr (Or.inr (hwaiting.imp_right fun hnone => ?_))
      exact absurd hnone (by simp [senders, Bus.openFeed, Feed.ofPlaces])
    · exact (coordinatorStirs_acquiring_iff hat).mpr (Or.inr hwaiting)
  · rw [hkeys]
    exact vigil.distinct.append (List.nodup_singleton id) (by simpa using hnew)
  · rw [hkeys]
    intro other h
    rcases List.mem_append.mp h with hold | hlast
    · exact vigil.numbered other hold
    · exact List.mem_singleton.mp hlast ▸ hid

/-- Who waits for a place in a feed learns that its reader is gone. -/
theorem Vigil.close [Store σ] (vigil : Vigil none bus) (reached : Reached bus)
    (hfeed : bus.feed? id = some feed) (hready : bus.ready ⊆ ready)
    (hwoken : ∀ task ∈ feed.close.2, .task task ∈ ready)
    (hsenders : bus.coordinator = .receiving → (bus.setFeed id feed.close.1).senders = 0 →
      .coordinator ∈ ready) : Vigil none { bus.setFeed id feed.close.1 with ready } := by
  have hset : (bus.setFeed id feed.close.1).feed?
      = Function.update bus.feed? id (some feed.close.1) := feed?_setFeed _ hfeed
  have hcanceled : (bus.setFeed id feed.close.1).isCanceled = bus.isCanceled :=
    isCanceled_setFeed _ hfeed rfl
  have hkeys : (bus.setFeed id feed.close.1).feeds.map (·.1) = bus.feeds.map (·.1) :=
    keys_setFeed bus id _
  refine vigil.intervene rfl hready (fun task held hheld _ hstirs => ?_)
    (fun task held _ hears => ?_) (fun hstirs => ?_) (vigil.hears .coordinator nofun) vigil.future
    ⟨vigil.attended.registry, vigil.attended.tasks, vigil.attended.pending⟩ (hkeys ▸ vigil.distinct)
    (hkeys ▸ vigil.numbered)
  · refine hstirs.imp_or (fun other _ h => Or.inl ?_) (fun _ _ => Or.inl)
      fun entry hentry hwaiting hserved => ?_
    · exact congrFun hcanceled other ▸ h
    · by_cases hid : entry.1.id = id
      · refine Or.inr (hwoken task ?_)
        exact reached.mem_claims hheld hentry hwaiting (hid ▸ hfeed)
      · refine Or.inl fun found hfound => hserved found ?_
        show (bus.setFeed id feed.close.1).feed? entry.1.id = some found
        rwa [hset, Function.update_of_ne hid]
  · refine hears.imp (fun other _ found hfound => ?_) fun _ hearly => ⟨hearly, Nat.le_refl _⟩
    change (bus.setFeed id feed.close.1).feed? other = some found at hfound
    rw [hset] at hfound
    by_cases hother : other = id
    · subst hother
      rw [Function.update_self] at hfound
      cases hfound
      exact ⟨feed, hfeed, fun h => h⟩
    · rw [Function.update_of_ne hother] at hfound
      exact ⟨found, hfound, fun h => h⟩
  · refine hstirs.imp_or rfl rfl (fun hat hwaiting => ?_) fun _ _ hat hwaiting => Or.inl ?_
    · refine hwaiting.imp (fun hcommands => ?_) (hsenders hat)
      exact (coordinatorStirs_receiving_iff hat).mpr (Or.inr (Or.inl hcommands))
    · exact (coordinatorStirs_acquiring_iff hat).mpr (Or.inr hwaiting)

theorem Vigil.closeFeed [Store σ] (vigil : Vigil none bus) (reached : Reached bus)
    (id : ConsumerId) : Vigil none (bus.closeFeed id) := by
  unfold Bus.closeFeed
  split
  next => exact vigil
  next feed hfeed =>
    let closed := bus.setFeed id feed.close.1
    obtain ⟨woken, hsame, hmem⟩ := closed.exists_ready_wakeTasks feed.close.2
    have hready : bus.ready ⊆ woken := fun other h => (hmem other).mpr (Or.inl h)
    have hwoken : ∀ task ∈ feed.close.2, .task task ∈ woken :=
      fun task h => (hmem (.task task)).mpr (Or.inr ⟨task, h, rfl⟩)
    dsimp only
    rw [show (bus.setFeed id feed.close.1).wakeTasks feed.close.2 = _ from hsame]
    split
    next =>
      obtain ⟨more, hsame, hmore, hreceiver⟩ :=
        exists_ready_wakeReceiver { closed with ready := woken }
      rw [hsame]
      exact vigil.close reached hfeed (List.Subset.trans hready hmore)
        (fun task h => hmore (hwoken task h)) fun h _ => hreceiver h
    next hsome => exact vigil.close reached hfeed hready hwoken fun _ hnone => absurd hnone hsome

theorem Vigil.subscribe [Store σ] (vigil : Vigil none bus) (reached : Reached bus)
    (canceled : Bool) (query : Query) (places : Nat) :
    Vigil none (bus.subscribe canceled query places).2.2 := by
  let numbered : Bus σ := { bus with nextId := bus.nextId + 1 }
  have hnumbered : Spares none bus numbered :=
    { Spares.refl bus with
      nextId := Nat.le_succ _
      attended := fun attended => ⟨attended.registry, attended.tasks, attended.pending⟩ }
  have hvigil : Vigil none numbered := vigil.spares hnumbered
  have hnew : bus.nextId ∉ bus.feeds.map (·.1) :=
    fun h => Nat.lt_irrefl _ (vigil.numbered bus.nextId h)
  have hother : ∀ task held, bus.tasks.lookup task = some held →
      ∀ consumer ∈ held.consumers, consumer.id ≠ bus.nextId :=
    fun task held hheld consumer h => Nat.ne_of_lt (reached.number_lt hheld h)
  unfold Bus.subscribe Bus.send
  dsimp only
  cases numbered.admission canceled with
  | ok =>
    have hqueued := hvigil.enqueue (.subscribe bus.nextId query)
    obtain ⟨ready, hsame, -, -⟩ := exists_ready_wakeReceiver
      { numbered with commands := numbered.commands ++ [.subscribe bus.nextId query] }
    show Vigil none ((numbered.enqueue (.subscribe bus.nextId query)).openFeed bus.nextId places)
    unfold Bus.enqueue at hqueued ⊢
    rw [hsame] at hqueued ⊢
    exact hqueued.openFeed hother hnew (Nat.lt_succ_self _) places
  | full | failed _ => exact hvigil

theorem Vigil.dropSubscription [Store σ] (vigil : Vigil none bus) (reached : Reached bus)
    (id : ConsumerId) : Vigil none (bus.dropSubscription id) := by
  have hsent : Reaches (fun _ => True) _ bus (bus.send false (.unsubscribe id)).2 :=
    send_reaches bus false (.unsubscribe id) rfl
  unfold Bus.dropSubscription
  split
  · exact (vigil.send false (.unsubscribe id)).closeFeed (hsent.leads.reached reached) id
  · exact vigil

end Feeds

end EventBus.Bus
