import EventBus.Proofs.Bus.SparingTurns

/-!
No one is forgotten. Whoever has something to do is in the line of those who get a turn, and
whoever waits is on the list of what could end the wait: at the feed, which wakes its watchers when
their consumer is cancelled, and among the timers, which wake at the deadline. A party at work
keeps this for the others.
-/

namespace EventBus.Bus

variable {σ : Type} {bus bus' : Bus σ} {busy : Option Actor}

section Parties

def Leg.isUntil (deadline : Nat) : Leg → Bool
  | .waiting _ other => other == deadline
  | _ => false

/-- How many of the deliveries wait until the deadline. -/
def waitsUntil (legs : List (Consumer × Leg)) (deadline : Nat) : Nat :=
  legs.countP fun entry => entry.2.isUntil deadline

/-- To cancel the consumer would put an end to a wait of the task. -/
inductive Task.WaitsOn : Task → ConsumerId → Prop where
  | place {held : Task} {consumer : Consumer} {leg : Leg} (h : (consumer, leg) ∈ held.legs)
      (hwaiting : leg.isWaiting = true) : WaitsOn held consumer.id
  | stream {consumer : Consumer} {rest : Stream} {sent : Nat} :
      WaitsOn (.replay consumer (.taking rest sent)) consumer.id

/-- The wait of a task for a place in a feed is over, for a place or because there is none to be
had. -/
def Served (bus : Bus σ) (task : TaskId) (id : ConsumerId) : Prop :=
  ∀ feed, bus.feed? id = some feed → feed.closed = true ∨ feed.places.isGranted task = true

def LegStirs (bus : Bus σ) (task : TaskId) (id : ConsumerId) : Leg → Prop
  | .fresh => True
  | .waiting _ deadline => bus.isCanceled id = true ∨ deadline ≤ bus.now ∨ bus.Served task id
  | .done _ => False

/-- There is something to do for the task besides its deliveries. -/
def IsDue (bus : Bus σ) : Task → Prop
  | .fanOut _ _ legs => legs.all (·.2.isDone) = true
  | .replay _ .starting => True
  | .replay consumer (.taking _ _) => bus.isCanceled consumer.id = true
  | .replay _ (.sending ..) => False

def TaskStirs (bus : Bus σ) (task : TaskId) (held : Task) : Prop :=
  (∃ entry ∈ held.legs, bus.LegStirs task entry.1.id entry.2) ∨ bus.IsDue held

def CoordinatorStirs (bus : Bus σ) : Prop :=
  match bus.coordinator with
  | .starting => True
  | .receiving => bus.canceled = true ∨ bus.commands ≠ [] ∨ bus.senders = 0
  | .acquiring _ deadline =>
      bus.canceled = true ∨ deadline ≤ bus.now ∨ bus.pool.tokens.granted ≠ []
  | _ => False

/-- A turn would not be in vain. -/
def Stirs (bus : Bus σ) : Actor → Prop
  | .coordinator => bus.CoordinatorStirs
  | .task task => ∃ held, bus.tasks.lookup task = some held ∧ bus.TaskStirs task held

/-- What ends a wait of the task wakes it. -/
structure TaskHears (bus : Bus σ) (task : TaskId) (held : Task) : Prop where
  watches : ∀ id, held.WaitsOn id → ∀ feed, bus.feed? id = some feed → task ∈ feed.watchers
  timed : ∀ deadline, bus.now < deadline →
    waitsUntil held.legs deadline ≤ bus.timers.count (deadline, .task task)
  listens : ∀ consumer rest sent, held = .replay consumer (.taking rest sent) →
    rest = ⟨[], false⟩ ∧ sent < consumer.query.limit

/-- What ends a wait of the party wakes it. -/
def Hears (bus : Bus σ) : Actor → Prop
  | .coordinator => ∀ job deadline, bus.coordinator = .acquiring job deadline →
      bus.now < deadline → (deadline, .coordinator) ∈ bus.timers
  | .task task => ∀ held, bus.tasks.lookup task = some held → bus.TaskHears task held

/-- No one is forgotten but the party at work, which looks after itself. -/
structure Vigil (busy : Option Actor) (bus : Bus σ) : Prop where
  awake : ∀ actor, busy ≠ some actor → bus.Stirs actor → actor ∈ bus.ready
  hears : ∀ actor, busy ≠ some actor → bus.Hears actor
  future : ∀ timer ∈ bus.timers, bus.now < timer.1
  attended : bus.Attended
  distinct : (bus.feeds.map (·.1)).Nodup
  numbered : ∀ id ∈ bus.feeds.map (·.1), id < bus.nextId

end Parties

section Stirring

/-! Who has something to do had it before, or has a reason to be woken. -/

variable {task : TaskId} {held : Task} {id : ConsumerId} {woken : Prop}

theorem isCanceled_iff : bus.isCanceled id = true ↔
    bus.canceled = true ∨ ∃ feed, bus.feed? id = some feed ∧ feed.canceled = true := by
  unfold isCanceled
  rw [Bool.or_eq_true, Option.any_eq_true]

theorem waitsUntil_pos {legs : List (Consumer × Leg)} {consumer : Consumer} {selected : List Event}
    {deadline : Nat} (h : (consumer, .waiting selected deadline) ∈ legs) :
    0 < waitsUntil legs deadline :=
  List.countP_pos_iff.mpr ⟨_, h, beq_self_eq_true deadline⟩

theorem TaskStirs.imp_or (h : bus'.TaskStirs task held)
    (hcanceled : ∀ id, held.WaitsOn id → bus'.isCanceled id = true →
      bus.isCanceled id = true ∨ woken)
    (hdue : ∀ deadline, 0 < waitsUntil held.legs deadline → deadline ≤ bus'.now →
      deadline ≤ bus.now ∨ woken)
    (hserved : ∀ entry ∈ held.legs, entry.2.isWaiting = true → bus'.Served task entry.1.id →
      bus.Served task entry.1.id ∨ woken) : bus.TaskStirs task held ∨ woken := by
  rcases h with ⟨⟨consumer, leg⟩, hentry, hleg⟩ | hdone
  · cases leg with
    | fresh => exact Or.inl (Or.inl ⟨_, hentry, trivial⟩)
    | done _ => cases hleg
    | waiting selected deadline =>
      have hripe : bus.LegStirs task consumer.id (.waiting selected deadline) ∨ woken := by
        rcases hleg with hgone | hlate | hplace
        · exact (hcanceled _ (.place hentry rfl) hgone).imp_left Or.inl
        · exact (hdue deadline (waitsUntil_pos hentry) hlate).imp_left fun h => Or.inr (Or.inl h)
        · exact (hserved _ hentry rfl hplace).imp_left fun h => Or.inr (Or.inr h)
      exact hripe.imp_left fun h => Or.inl ⟨_, hentry, h⟩
  · cases held with
    | fanOut publish batch legs => exact Or.inl (Or.inr hdone)
    | replay consumer phase =>
      cases phase with
      | starting => exact Or.inl (Or.inr trivial)
      | sending _ _ _ _ => cases hdone
      | taking rest sent => exact (hcanceled _ .stream hdone).imp_left Or.inr

theorem TaskHears.imp (hears : bus.TaskHears task held)
    (hwatches : ∀ id, held.WaitsOn id → ∀ feed', bus'.feed? id = some feed' →
      ∃ feed, bus.feed? id = some feed ∧ (task ∈ feed.watchers → task ∈ feed'.watchers))
    (htimed : ∀ deadline, bus'.now < deadline → bus.now < deadline ∧
      bus.timers.count (deadline, .task task) ≤ bus'.timers.count (deadline, .task task)) :
    bus'.TaskHears task held where
  watches id hwaits feed' hfeed' := by
    obtain ⟨feed, hfeed, hkept⟩ := hwatches id hwaits feed' hfeed'
    exact hkept (hears.watches id hwaits feed hfeed)
  timed deadline hearly := by
    obtain ⟨hbefore, hcount⟩ := htimed deadline hearly
    exact Nat.le_trans (hears.timed deadline hbefore) hcount
  listens := hears.listens

theorem coordinatorStirs_receiving_iff (h : bus.coordinator = .receiving) :
    bus.CoordinatorStirs ↔ bus.canceled = true ∨ bus.commands ≠ [] ∨ bus.senders = 0 := by
  rw [CoordinatorStirs, h]

theorem coordinatorStirs_acquiring_iff {job : Job} {deadline : Nat}
    (h : bus.coordinator = .acquiring job deadline) : bus.CoordinatorStirs ↔
      bus.canceled = true ∨ deadline ≤ bus.now ∨ bus.pool.tokens.granted ≠ [] := by
  rw [CoordinatorStirs, h]

theorem CoordinatorStirs.imp_or (h : bus'.CoordinatorStirs)
    (hcoordinator : bus'.coordinator = bus.coordinator) (hcanceled : bus'.canceled = bus.canceled)
    (hreceiving : bus.coordinator = .receiving → bus'.commands ≠ [] ∨ bus'.senders = 0 →
      bus.CoordinatorStirs ∨ woken)
    (hacquiring : ∀ job deadline, bus.coordinator = .acquiring job deadline →
      deadline ≤ bus'.now ∨ bus'.pool.tokens.granted ≠ [] → bus.CoordinatorStirs ∨ woken) :
    bus.CoordinatorStirs ∨ woken := by
  cases hat : bus.coordinator with
  | starting =>
    refine Or.inl ?_
    rw [CoordinatorStirs, hat]
    trivial
  | receiving =>
    rcases (coordinatorStirs_receiving_iff (hcoordinator.trans hat)).mp h with hgone | hwaiting
    · exact Or.inl ((coordinatorStirs_receiving_iff hat).mpr (Or.inl (hcanceled ▸ hgone)))
    · exact hreceiving hat hwaiting
  | acquiring job deadline =>
    rcases (coordinatorStirs_acquiring_iff (hcoordinator.trans hat)).mp h with hgone | hwaiting
    · exact Or.inl ((coordinatorStirs_acquiring_iff hat).mpr (Or.inl (hcanceled ▸ hgone)))
    · exact hacquiring job deadline hat hwaiting
  | idle | absent | stopped _ =>
    rw [CoordinatorStirs, hcoordinator, hat] at h
    cases h

/-- A task that has just been started waits for nothing. -/
theorem taskHears_task (bus : Bus σ) (task : TaskId) (job : Job) : bus.TaskHears task job.task := by
  have hfresh : ∀ entry ∈ job.task.legs, entry.2 = .fresh := by
    cases job with
    | fanOut publish batch targets =>
      intro entry hentry
      obtain ⟨consumer, -, rfl⟩ := List.mem_map.mp hentry
      rfl
    | replay consumer => nofun
  refine ⟨fun id hwaits => ?_, fun deadline _ => ?_, fun consumer rest sent h => ?_⟩
  · generalize htask : job.task = held at hwaits hfresh
    cases hwaits with
    | place hentry hwaiting =>
      obtain rfl : _ = Leg.fresh := hfresh _ hentry
      cases hwaiting
    | stream => cases job <;> cases htask
  · have hnone : waitsUntil job.task.legs deadline = 0 := by
      refine List.countP_eq_zero.mpr fun entry hentry => ?_
      rw [hfresh entry hentry]
      exact Bool.false_ne_true
    rw [hnone]
    exact Nat.zero_le _
  · cases job <;> cases h

end Stirring

section Work

variable {actor : Actor} {task : TaskId} {id : ConsumerId} {held : Task}

/-- A party goes to work. -/
theorem Vigil.begin (vigil : Vigil none bus) (actor : Actor) : Vigil (some actor) bus :=
  { vigil with
    awake := fun other _ => vigil.awake other nofun
    hears := fun other _ => vigil.hears other nofun }

/-- A party that gets its turn goes to work. -/
theorem Vigil.pop {rest : List Actor} (vigil : Vigil none bus) (h : bus.ready = actor :: rest) :
    Vigil (some actor) { bus with ready := rest } where
  awake other hbusy hstirs := by
    have hready : other ∈ bus.ready := vigil.awake other nofun hstirs
    rw [h] at hready
    exact (List.mem_cons.mp hready).resolve_left fun hsame => hbusy (hsame ▸ rfl)
  hears other _ := by
    have hhears : bus.Hears other := vigil.hears other nofun
    cases other with
    | coordinator => exact hhears
    | task task =>
      intro held hheld
      obtain ⟨watches, timed, listens⟩ := hhears held hheld
      exact ⟨watches, timed, listens⟩
  future := vigil.future
  attended := ⟨vigil.attended.registry, vigil.attended.tasks, vigil.attended.pending⟩
  distinct := vigil.distinct
  numbered := vigil.numbered

/-- A party that has done what there was to do, and hears of what it waits for, is done. -/
theorem Vigil.finish (vigil : Vigil (some actor) bus) (hawake : bus.Stirs actor → actor ∈ bus.ready)
    (hhears : bus.Hears actor) : Vigil none bus :=
  { vigil with
    awake := fun other _ hstirs => by
      by_cases hother : other = actor
      · exact hother ▸ hawake (hother ▸ hstirs)
      · exact vigil.awake other (fun hsame => hother (Option.some.inj hsame).symm) hstirs
    hears := fun other _ => by
      by_cases hother : other = actor
      · exact hother ▸ hhears
      · exact vigil.hears other fun hsame => hother (Option.some.inj hsame).symm }

namespace Spares

theorem isCanceled (spares : Spares busy bus bus') (h : bus'.isCanceled id = true) :
    bus.isCanceled id = true ∨ ∃ feed, bus.feed? id = some feed ∧
      ∀ task, busy ≠ some (.task task) → task ∈ feed.watchers → .task task ∈ bus'.ready := by
  rcases isCanceled_iff.mp h with hbus | ⟨feed', hfeed', hcanceled⟩
  · exact Or.inl (isCanceled_iff.mpr (Or.inl (spares.canceled ▸ hbus)))
  · obtain ⟨feed, hfeed, hspares⟩ := spares.some_of_feed hfeed'
    rcases hspares.canceled hcanceled with hearlier | hwoken
    · exact Or.inl (isCanceled_iff.mpr (Or.inr ⟨feed, hfeed, hearlier⟩))
    · exact Or.inr ⟨feed, hfeed, hwoken⟩

theorem served (spares : Spares busy bus bus') (hbusy : busy ≠ some (.task task))
    (h : bus'.Served task id) : bus.Served task id ∨ .task task ∈ bus'.ready := by
  refine or_iff_not_imp_right.mpr fun hasleep feed hfeed => ?_
  obtain ⟨feed', hfeed', hspares⟩ := spares.feed_of_some hfeed
  rcases h feed' hfeed' with hclosed | hkept
  · exact Or.inl (hspares.closed ▸ hclosed)
  · refine Or.inr (Semaphore.isGranted_iff.mpr ?_)
    exact (hspares.granted task hbusy (Semaphore.isGranted_iff.mp hkept)).resolve_right hasleep

theorem taskStirs (spares : Spares busy bus bus') (hbusy : busy ≠ some (.task task))
    (hears : bus.TaskHears task held) (h : bus'.TaskStirs task held) :
    bus.TaskStirs task held ∨ .task task ∈ bus'.ready := by
  refine h.imp_or (fun id hwaits hcanceled => ?_) (fun deadline _ hdue => ?_) fun _ _ _ hserved => ?_
  · refine (spares.isCanceled hcanceled).imp_right ?_
    rintro ⟨feed, hfeed, hwoken⟩
    exact hwoken task hbusy (hears.watches id hwaits feed hfeed)
  · exact Or.inl (spares.now ▸ hdue)
  · exact spares.served hbusy hserved

theorem taskHears (spares : Spares busy bus bus') (hbusy : busy ≠ some (.task task))
    (hears : bus.TaskHears task held) : bus'.TaskHears task held := by
  refine hears.imp (fun id _ feed' hfeed' => ?_) fun deadline hearly => ?_
  · obtain ⟨feed, hfeed, hspares⟩ := spares.some_of_feed hfeed'
    exact ⟨feed, hfeed, hspares.watchers task hbusy⟩
  · exact ⟨spares.now ▸ hearly, spares.timers _ hbusy⟩

theorem coordinatorStirs (spares : Spares busy bus bus') (hbusy : busy ≠ some .coordinator)
    (hdistinct : (bus.feeds.map (·.1)).Nodup) (h : bus'.CoordinatorStirs) :
    bus.CoordinatorStirs ∨ .coordinator ∈ bus'.ready := by
  obtain ⟨hcoordinator, hcommands⟩ := spares.coordinator hbusy
  refine h.imp_or hcoordinator spares.canceled (fun hat hwaiting => ?_) fun job deadline hat hwaiting => ?_
  · rw [hcommands, spares.senders hbusy hdistinct] at hwaiting
    exact Or.inl ((coordinatorStirs_receiving_iff hat).mpr (Or.inr hwaiting))
  · rw [spares.now] at hwaiting
    rcases hwaiting with hdue | htokens
    · exact Or.inl ((coordinatorStirs_acquiring_iff hat).mpr (Or.inr (Or.inl hdue)))
    · refine (spares.tokens hbusy htokens).imp_left fun h => ?_
      exact (coordinatorStirs_acquiring_iff hat).mpr (Or.inr (Or.inr h))

end Spares

/-- What spares the others keeps the vigil. -/
theorem Vigil.spares (vigil : Vigil busy bus) (spares : Spares busy bus bus') :
    Vigil busy bus' where
  awake actor hbusy hstirs := by
    cases actor with
    | coordinator =>
      rcases spares.coordinatorStirs hbusy vigil.distinct hstirs with hearlier | hwoken
      · exact spares.ready (vigil.awake _ hbusy hearlier)
      · exact hwoken
    | task task =>
      obtain ⟨held, hheld, hstirs⟩ := hstirs
      rcases spares.lookup task held hbusy hheld with hold | ⟨hwoken, -⟩
      · have hhears := vigil.hears _ hbusy held hold
        rcases spares.taskStirs hbusy hhears hstirs with hearlier | hwoken
        · exact spares.ready (vigil.awake _ hbusy ⟨held, hold, hearlier⟩)
        · exact hwoken
      · exact hwoken
  hears actor hbusy := by
    cases actor with
    | coordinator =>
      intro job deadline hjob hearly
      rw [(spares.coordinator hbusy).1] at hjob
      have htimer := vigil.hears .coordinator hbusy job deadline hjob (spares.now ▸ hearly)
      exact List.count_pos_iff.mp
        (Nat.lt_of_lt_of_le (List.count_pos_iff.mpr htimer) (spares.timers _ hbusy))
    | task task =>
      intro held hheld
      rcases spares.lookup task held hbusy hheld with hold | ⟨-, job, rfl⟩
      · exact spares.taskHears hbusy (vigil.hears _ hbusy held hold)
      · exact taskHears_task bus' task job
  future timer htimer := by
    rw [spares.now]
    exact (spares.future timer htimer).elim (vigil.future timer) id
  attended := spares.attended vigil.attended
  distinct := spares.keys ▸ vigil.distinct
  numbered id hid := Nat.lt_of_lt_of_le (vigil.numbered id (spares.keys ▸ hid)) spares.nextId

end Work

end EventBus.Bus
