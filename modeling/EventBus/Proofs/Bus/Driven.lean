import EventBus.Proofs.Bus.Outside
import EventBus.Proofs.Bus.TurnEnds

/-!
A bus that is driven from outside, by calls, turns and the passing of time, forgets no one. So when
no one is in the line of those who get a turn, no party can go on: the rest of the program is that
of its runs.
-/

namespace EventBus.Bus

variable {σ : Type} {bus bus' : Bus σ}

section Idle

/-! A turn of a party that has nothing to do would leave the bus as it is. -/

theorem map_replace_self {α : Type} {entries : List (Nat × α)} {key : Nat} {value : α}
    (hdistinct : (entries.map (·.1)).Nodup) (h : entries.lookup key = some value) :
    (entries.map fun entry => if entry.1 = key then (key, value) else entry) = entries :=
  map_replace_eq_self fun _ hheld => Option.some.inj ((lookup_of_mem hdistinct hheld).symm.trans h)

variable {task : TaskId} {held : Task} {consumer : Consumer} {origin : Origin}
  {selected : List Event} {deadline : Nat}

theorem setTask_self (hdistinct : (bus.tasks.map (·.1)).Nodup)
    (h : bus.tasks.lookup task = some held) : bus.setTask task held = bus := by
  rw [setTask, map_replace_self hdistinct h]

theorem setFeed_self {id : ConsumerId} {feed : Feed} (hdistinct : (bus.feeds.map (·.1)).Nodup)
    (h : bus.feed? id = some feed) : bus.setFeed id feed = bus := by
  rw [setFeed, map_replace_self hdistinct h]

/-- A delivery that has to wait is left as it is. -/
theorem reviewLeg_eq_of_idle (hdistinct : (bus.feeds.map (·.1)).Nodup)
    (hidle : ¬bus.LegStirs task consumer.id (.waiting selected deadline)) :
    bus.reviewLeg task consumer origin selected deadline = (.waiting selected deadline, bus) := by
  obtain ⟨hlive, hearly, hunserved⟩ : bus.isCanceled consumer.id = false ∧ ¬deadline ≤ bus.now ∧
      ¬bus.Served task consumer.id := by
    simpa [LegStirs, not_or] using hidle
  obtain ⟨feed, hfeed, hopen, hkept⟩ : ∃ feed, bus.feed? consumer.id = some feed ∧
      feed.closed = false ∧ feed.places.isGranted task = false := by
    simpa [Served] using hunserved
  rw [reviewLeg, hfeed]
  simp [Feed.retry, hlive, hopen, hkept, hearly, recordLeg, wakeIf, Leg.isDone,
    setFeed_self hdistinct hfeed]

/-- So is a coordinator that has to wait for a token. -/
theorem reviewAcquire_eq_of_idle {job : Job} (h : bus.coordinator = .acquiring job deadline)
    (hidle : ¬bus.CoordinatorStirs) : bus.reviewAcquire job deadline = .waits bus := by
  rw [coordinatorStirs_acquiring_iff h, not_or, not_or, Bool.not_eq_true, not_not] at hidle
  obtain ⟨hlive, hearly, hnone⟩ := hidle
  simp [reviewAcquire, Pool.review, Semaphore.isGranted, hlive, hearly, hnone]

end Idle

variable [Store σ]

/-- Some run comes to the bus, and no one is forgotten. -/
structure Driven (bus : Bus σ) : Prop where
  reached : Reached bus
  vigil : Vigil none bus

theorem driven_create (settings : Settings) (store? : Option σ) :
    Driven (create settings store?) where
  reached := reached_create settings store?
  vigil :=
    { awake := fun actor _ hstirs => by
        cases actor with
        | coordinator => exact hstirs.elim
        | task task =>
          obtain ⟨held, hheld, -⟩ := hstirs
          cases hheld
      hears := fun actor _ => by cases actor <;> nofun
      future := nofun
      attended := ⟨nofun, nofun, nofun⟩
      distinct := List.nodup_nil
      numbered := nofun }

section Turns

variable {actor : Actor}

/-- The turn of a party that hears of what it waits for. -/
theorem Vigil.turn (vigil : Vigil (some actor) bus) (reached : Reached bus)
    (hears : bus.Hears actor) : Vigil none (bus.turn actor) := by
  obtain ⟨hidle, hhears⟩ := turn_sleeps reached hears
  exact (vigil.spares (spares_turn vigil.attended actor)).finish (fun h => absurd h hidle) hhears

theorem reached_turn (reached : Reached bus) (actor : Actor) : Reached (bus.turn actor) := by
  have hturn : Leads (fun _ => True) [] bus (bus.turn actor) := (turn_reaches bus actor).leads
  exact hturn.reached reached

namespace Driven

theorem turn (driven : Driven bus) (actor : Actor) : Driven (bus.turn actor) where
  reached := reached_turn driven.reached actor
  vigil := (driven.vigil.begin actor).turn driven.reached (driven.vigil.hears actor nofun)

theorem popped {rest : List Actor} (driven : Driven bus) (h : bus.ready = actor :: rest) :
    Driven ({ bus with ready := rest }.turn actor) := by
  have hpopped : Leads (fun _ => True) [] bus { bus with ready := rest } :=
    (schedule_reaches bus rest bus.timers).leads
  have reached : Reached { bus with ready := rest } := hpopped.reached driven.reached
  have hears : ({ bus with ready := rest } : Bus σ).Hears actor := by
    have hbefore := driven.vigil.hears actor nofun
    cases actor with
    | coordinator => exact hbefore
    | task task => exact fun held hheld => (hbefore held hheld).of_bus rfl rfl rfl
  exact ⟨reached_turn reached actor, (driven.vigil.pop h).turn reached hears⟩

end Driven

/-- Who is first in line gets a turn. -/
theorem step?_eq_some (h : bus.step? = some bus') :
    ∃ actor rest, bus.ready = actor :: rest ∧ bus' = { bus with ready := rest }.turn actor := by
  unfold step? at h
  split at h
  next => cases h
  next actor rest hready => exact ⟨actor, rest, hready, (Option.some.inj h).symm⟩

theorem now_turn (attended : bus.Attended) (actor : Actor) : (bus.turn actor).now = bus.now :=
  (spares_turn attended actor).now

theorem Driven.step? (driven : Driven bus) (h : bus.step? = some bus') :
    Driven bus' ∧ bus'.now = bus.now := by
  obtain ⟨actor, rest, hready, rfl⟩ := step?_eq_some h
  obtain ⟨registry, tasks, pending⟩ := driven.vigil.attended
  have attended : ({ bus with ready := rest } : Bus σ).Attended := ⟨registry, tasks, pending⟩
  exact ⟨driven.popped hready, now_turn attended actor⟩

theorem Driven.settleFor (fuel : Nat) (driven : Driven bus) :
    Driven (settleFor fuel bus) ∧ (Bus.settleFor fuel bus).now = bus.now := by
  induction fuel generalizing bus with
  | zero => exact ⟨driven, rfl⟩
  | succ fuel ih =>
    unfold Bus.settleFor
    split
    next bus' h =>
      obtain ⟨hdriven, hnow⟩ := driven.step? h
      obtain ⟨hsettled, hstill⟩ := ih hdriven
      exact ⟨hsettled, hstill.trans hnow⟩
    next => exact ⟨driven, rfl⟩

theorem Driven.settle (driven : Driven bus) : Driven bus.settle := (driven.settleFor _).1

theorem now_settle (driven : Driven bus) : bus.settle.now = bus.now := (driven.settleFor _).2

end Turns

section Time

theorem reached_reach (reached : Reached bus) (now : Nat) : Reached (bus.reach now) := by
  have hreach : Leads (fun _ => True) [] bus (bus.reach now) := (reach_reaches bus now).leads
  exact hreach.reached reached

/-- Each deadline that is met lies later than the one before, so no more of them are met than
there are milliseconds to go. -/
theorem Driven.passUntil {goal : Nat} (fuel : Nat) (driven : Driven bus) (hgoal : bus.now ≤ goal)
    (hfuel : goal < bus.now + fuel) : Driven (passUntil goal fuel bus) := by
  have hwait : ∀ {bus : Bus σ}, Driven bus → bus.now ≤ goal →
      (∀ timer ∈ bus.timers, goal < timer.1) → Driven { bus with now := goal } := by
    intro bus driven hnow hnone
    have htime : Leads (fun _ => True) [] bus { bus with now := goal } :=
      (time_reaches bus goal).leads
    exact ⟨htime.reached driven.reached, driven.vigil.wait hnow hnone⟩
  induction fuel generalizing bus with
  | zero => exact absurd hfuel (Nat.not_lt_of_le hgoal)
  | succ fuel ih =>
    unfold Bus.passUntil
    split
    next deadline hdeadline =>
      obtain ⟨hmem, hleast⟩ := List.min?_eq_some_iff.mp hdeadline
      obtain ⟨timer, htimer, rfl⟩ := List.mem_map.mp hmem
      have hlater := driven.vigil.future timer htimer
      split
      next hmet =>
        have hreached : Driven (bus.reach timer.1) :=
          ⟨reached_reach driven.reached _, driven.vigil.reach (Nat.le_of_lt hlater)⟩
        have hnow : (bus.reach timer.1).settle.now = timer.1 := by
          rw [now_settle hreached]
          unfold reach
          dsimp only
          rw [foldl_wake_eq (fun timer : Nat × Actor => timer.2)]
        refine ih hreached.settle (Nat.le_trans (Nat.le_of_eq hnow) hmet) ?_
        rw [hnow]
        omega
      next hbeyond =>
        refine hwait driven hgoal fun other hother => ?_
        exact Nat.lt_of_lt_of_le (Nat.lt_of_not_le hbeyond) (hleast _ (List.mem_map_of_mem hother))
    next hnone =>
      rw [nextDeadline?, List.min?_eq_none_iff, List.map_eq_nil_iff] at hnone
      exact hwait driven hgoal (hnone ▸ nofun)

theorem Driven.pass (driven : Driven bus) (span : Nat) : Driven (bus.pass span) :=
  driven.passUntil (span + 1) (Nat.le_add_right _ _) (by omega)

end Time

section Inputs

/-- Whatever is done to a bus from outside, no one is forgotten. -/
theorem Driven.perform (driven : Driven bus) (input : Input σ) : Driven (bus.perform input) := by
  have hreaches : Reaches (fun _ => True) _ bus (bus.perform input) :=
    perform_reaches bus input fun _ _ => trivial
  refine ⟨hreaches.leads.reached driven.reached, ?_⟩
  obtain ⟨reached, vigil⟩ := driven
  cases input with
  | publish canceled batch => exact vigil.send canceled _
  | subscribe canceled query places => exact vigil.subscribe reached canceled query places
  | unsubscribe canceled id => exact vigil.send canceled _
  | dropSubscription id => exact vigil.dropSubscription reached id
  | receive id => exact vigil.receive id
  | addHandle => exact vigil.addHandle
  | dropHandle => exact vigil.dropHandle
  | start => exact vigil.start
  | dropCoordinator => exact vigil.dropCoordinator
  | cancel => exact vigil.cancel reached.ledgerLaws.standing
  | mapStore f => exact vigil.spares (spares_of_affairs rfl)
  | remark line => exact vigil.spares (spares_note _)
  | turn actor => exact (Driven.turn ⟨reached, vigil⟩ actor).vigil
  | next =>
    show Vigil none (bus.step?.getD bus)
    cases h : bus.step? with
    | none => exact vigil
    | some bus' => exact (Driven.step? ⟨reached, vigil⟩ h).1.vigil
  | settle => exact (Driven.settle ⟨reached, vigil⟩).vigil
  | pass span => exact (Driven.pass ⟨reached, vigil⟩ span).vigil

theorem Driven.foldl_perform (driven : Driven bus) (inputs : List (Input σ)) :
    Driven (inputs.foldl Bus.perform bus) := by
  induction inputs generalizing bus with
  | nil => exact driven
  | cons input inputs ih => exact ih (driven.perform input)

end Inputs

section Rest

variable {task : TaskId} {held : Task}

omit [Store σ] in
theorem Vigil.idle (vigil : Vigil none bus) (hready : bus.ready = []) (actor : Actor) :
    ¬bus.Stirs actor := by
  intro hstirs
  have hmem := vigil.awake actor nofun hstirs
  rw [hready] at hmem
  cases hmem

theorem Vigil.settled (vigil : Vigil none bus) (laws : LedgerLaws bus.ledger)
    (hready : bus.ready = []) : Settled bus := by
  have hidle : ¬bus.CoordinatorStirs := vigil.idle hready .coordinator
  have hasleep : ∀ {task held}, bus.tasks.lookup task = some held → ¬bus.TaskStirs task held :=
    fun hheld hstirs => vigil.idle hready (.task _) ⟨_, hheld, hstirs⟩
  have hhears : ∀ {task held}, bus.tasks.lookup task = some held → bus.TaskHears task held :=
    fun hheld => vigil.hears (.task _) (Option.some_ne_none _).symm _ hheld
  have htasks : (bus.tasks.map (·.1)).Nodup := laws.tokens.distinct
  intro bus' advance
  cases advance with
  | begin h =>
    refine absurd ?_ hidle
    rw [CoordinatorStirs, h]
    trivial
  | take h hcommands _ =>
    refine absurd ((coordinatorStirs_receiving_iff h).mpr (Or.inr (Or.inl ?_))) hidle
    simp [hcommands]
  | interrupt h hcanceled =>
    exact absurd ((coordinatorStirs_receiving_iff h).mpr (Or.inl hcanceled)) hidle
  | runOut h _ hsenders =>
    exact absurd ((coordinatorStirs_receiving_iff h).mpr (Or.inr (Or.inr hsenders))) hidle
  | review h => rw [reviewAcquire_eq_of_idle h hidle, Handled.land]
  | @deliver task publish batch seen consumer leg legs h =>
    have hmem : (consumer, leg) ∈ seen ++ (consumer, leg) :: legs :=
      List.mem_append_right _ List.mem_cons_self
    have hstays : bus.advanceLeg task consumer (.live publish) batch leg = (leg, bus) := by
      have hleg : ¬bus.LegStirs task consumer.id leg :=
        fun hstirs => hasleep h (Or.inl ⟨_, hmem, hstirs⟩)
      cases leg with
      | fresh => exact absurd trivial hleg
      | done outcome => rfl
      | waiting selected deadline => exact reviewLeg_eq_of_idle vigil.distinct hleg
    rw [deliver, hstays]
    rw [List.append_cons] at h
    exact setTask_self htasks h
  | report h hdone => exact absurd (Or.inr hdone) (hasleep h)
  | send h _ =>
    obtain ⟨hrest, -⟩ := (hhears h).listens _ _ _ rfl
    cases hrest
  | @resend task consumer selected deadline rest sent h =>
    have hleg : ¬bus.LegStirs task consumer.id (.waiting selected deadline) :=
      fun hstirs => hasleep h (Or.inl ⟨_, List.mem_singleton_self _, hstirs⟩)
    rw [resendBatch, reviewLeg_eq_of_idle vigil.distinct hleg]
  | quit h hover =>
    obtain ⟨rfl, hwanted⟩ := (hhears h).listens _ _ _ rfl
    rcases hover with hsated | hends
    · rw [isSated, Bool.or_eq_true, decide_eq_true_iff] at hsated
      rcases hsated with henough | hcanceled
      · exact absurd hwanted (Nat.not_lt_of_le henough)
      · exact absurd (Or.inr hcanceled) (hasleep h)
    · cases hends

theorem Vigil.answered (vigil : Vigil none bus) (hready : bus.ready = []) : Answered bus := by
  intro bus' answer
  cases answer with
  | write h hcommands _ =>
    refine absurd ((coordinatorStirs_receiving_iff h).mpr (Or.inr (Or.inl ?_)))
      (vigil.idle hready .coordinator)
    simp [hcommands]
  | @read task consumer h =>
    exact absurd ⟨.replay consumer .starting, h, Or.inr trivial⟩ (vigil.idle hready (.task task))

/-- When no one is in line for a turn, no party can go on, and no answer of the store is missing. -/
theorem Driven.settled_of_isSettled (driven : Driven bus) (h : bus.isSettled = true) :
    Settled bus ∧ Answered bus := by
  have hready : bus.ready = [] := List.isEmpty_iff.mp h
  exact ⟨driven.vigil.settled driven.reached.ledgerLaws hready, driven.vigil.answered hready⟩

end Rest

end EventBus.Bus
