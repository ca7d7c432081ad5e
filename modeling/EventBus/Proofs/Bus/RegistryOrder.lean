import EventBus.Proofs.Bus.Laws

/-!
The registry, and with it the targets of every publish, are what the commands make of them
in the order in which they were taken from the queue.
-/

namespace EventBus.Bus

/-- The fan-out of a publish has looked at all its deliveries or at none of them, as it has
whenever its task does not have its turn. -/
def Outline.BetweenTurns (o : Outline) (publish : Nat) : Prop :=
  ∀ task batch legs, o.task task = some (.fanOut publish batch legs) →
    (∀ entry ∈ legs, entry.2 = .fresh) ∨ ∀ entry ∈ legs, entry.2 ≠ .fresh

variable {trace : List Mark} {o : Outline} {publish maxReplay : Nat} {batch : List Event}
  {targets : List Consumer} {id : ConsumerId}

/-- All targets are tried or none is. -/
theorem Fate.all_or_none (fate : Fate trace o publish batch targets) (h : o.BetweenTurns publish) :
    attempted publish trace = [] ∨ (attempted publish trace).Perm (targets.map (·.id)) := by
  cases fate with
  | running task legs hlegs htargets _ _ _ hattempted _ =>
      rcases h task batch legs hlegs with hfresh | hbegun
      · have hnone : reached Leg.isBegun legs = [] := by
          rw [reached, List.map_eq_nil_iff, List.filter_eq_nil_iff]
          intro entry hentry
          simp [hfresh entry hentry, Leg.isBegun]
        exact Or.inl (hnone ▸ hattempted).eq_nil
      · have hall : reached Leg.isBegun legs = targets.map (·.id) := by
          rw [← htargets, List.map_map, reached, List.filter_eq_self.mpr]
          · rfl
          · intro entry hentry
            have hleg := hbegun entry hentry
            obtain ⟨_, leg⟩ := entry
            cases leg with
            | fresh => exact absurd rfl hleg
            | _ => rfl
        exact Or.inr (hall ▸ hattempted)
  | finished _ _ hattempted _ => exact Or.inr hattempted
  | waiting _ _ _ _ hattempted _ => exact Or.inl hattempted
  | needless _ untouched => exact Or.inl untouched.attempted
  | dropped _ untouched => exact Or.inl untouched.attempted
  | interrupted _ untouched => exact Or.inl untouched.attempted

/-- A fan-out that is neither to come nor under way has tried all targets, or there is a reason
why it tried none. -/
theorem Fate.outcome (fate : Fate trace o publish batch targets) (hwaits : ¬o.Waits publish)
    (hworks : ∀ task, ¬o.Works task publish) :
    (attempted publish trace).Perm (targets.map (·.id)) ∨
      attempted publish trace = [] ∧ (targets = [] ∨ batch = [] ∨ NoWorker publish trace ∨
        o.coordinator = .stopped (.error .canceled)) := by
  cases fate with
  | waiting deadline h _ _ _ _ => exact absurd ⟨batch, targets, deadline, h⟩ hwaits
  | running task legs h _ _ _ _ _ _ => exact absurd ⟨batch, legs, h⟩ (hworks task)
  | finished _ _ hattempted _ => exact Or.inl hattempted
  | needless h untouched => exact Or.inr ⟨untouched.attempted, by tauto⟩
  | dropped h untouched => exact Or.inr ⟨untouched.attempted, by tauto⟩
  | interrupted h untouched => exact Or.inr ⟨untouched.attempted, by tauto⟩

theorem Targets.mem_iff {before : List Mark} (h : Targets maxReplay before batch targets)
    (consumer : Consumer) :
    consumer ∈ targets ↔ Enrolled maxReplay before consumer ∧ consumer.id ∉ gone before := by
  rw [h.enrolled, enrolled_append (by simp), prunedIn_iff rfl]
  simp

/-- A number is subscribed once, so that who is subscribed later is no target. -/
theorem not_target_of_later {before after : List Mark} {query : Query} (queue : QueueLaw trace o)
    (number : NumberLaw trace o) (htargets : Targets maxReplay before batch targets)
    (htrace : trace = before ++ .noted (.took (.publish batch)) :: after)
    (hlater : .noted (.took (.subscribe id query)) ∈ after) : id ∉ targets.map (·.id) := by
  intro hmem
  obtain ⟨consumer, hconsumer, rfl⟩ := List.mem_map.mp hmem
  obtain ⟨query', hearlier, -⟩ := ((htargets.mem_iff consumer).mp hconsumer).1.mem_taken
  subst htrace
  exact not_subscribed_again queue number hearlier query
    (mem_taken.mpr (List.mem_cons_of_mem _ hlater))

section Runs

variable {σ : Type} [Store σ] {settings : Settings} {store? : Option σ} {world : World σ}

/-- Numbers are used once. While the bus works, the registry holds who was subscribed and
neither unsubscribed nor pruned since. A publish whose write does not fail prunes who is
registered and gone, and its targets are who is registered then; its fan-out tries each of them
once or, for want of a worker or of something to do, none, and never reaches who is subscribed
later. -/
theorem Run.registry_follows_commands (run : Run settings store? trace world) :
    (numbers trace).Nodup ∧ (subscribers trace).Nodup ∧
    (∀ id, .noted (.alreadyRegistered id) ∉ trace) ∧
    (world.bus.coordinator.isGone = false →
      (world.bus.registry.map (·.id)).Nodup ∧
      ∀ consumer, consumer ∈ world.bus.registry ↔ Enrolled settings.maxReplay trace consumer) ∧
    ∀ before batch after, trace = before ++ .noted (.took (.publish batch)) :: after →
      (∀ error, (writes trace)[publishCount before]? ≠ some (batch, .error error)) →
      ∃ targets,
        Targets settings.maxReplay before batch targets ∧
        (∀ consumer, consumer ∈ targets ↔
          Enrolled settings.maxReplay before consumer ∧ consumer.id ∉ gone before) ∧
        (attempted (publishCount before) trace).Subperm (targets.map (·.id)) ∧
        (world.outline.BetweenTurns (publishCount before) →
          attempted (publishCount before) trace = [] ∨
            (attempted (publishCount before) trace).Perm (targets.map (·.id))) ∧
        (¬world.outline.Waits (publishCount before) →
          (∀ task, ¬world.outline.Works task (publishCount before)) →
          (attempted (publishCount before) trace).Perm (targets.map (·.id)) ∨
            attempted (publishCount before) trace = [] ∧
              (targets = [] ∨ batch = [] ∨ NoWorker (publishCount before) trace ∨
                world.bus.coordinator = .stopped (.error .canceled))) ∧
        ∀ id query, .noted (.took (.subscribe id query)) ∈ after →
          id ∉ fed (publishCount before) trace := by
  have laws := run.laws
  obtain ⟨hmaxReplay, -⟩ := run.constants
  refine ⟨laws.number.distinct, (List.nodup_append'.mp laws.number.once).1,
    laws.registry.never_known, ?_, ?_⟩
  · intro hopen
    exact ⟨laws.registry.distinct, hmaxReplay ▸ laws.registry.enrolled hopen⟩
  · intro before batch after htrace hwrote
    cases laws.fanOut.course before batch after htrace with
    | refused error hrefused _ => exact absurd hrefused (hwrote error)
    | served targets _ htargets fate =>
        rw [hmaxReplay] at htargets
        refine ⟨targets, htargets, htargets.mem_iff, fate.attempted_subperm, fate.all_or_none,
          fate.outcome, ?_⟩
        intro id query hlater hfed
        exact not_target_of_later laws.queue laws.number htargets htrace hlater
          (fate.fed_subperm.subset hfed)

end Runs

theorem first_publish_tries_registry :
    attempted 0 shortTrace = [1] ∧
      ∃ targets, Targets 10 (shortTrace.take 7) (shortBatch 1) targets ∧
        (attempted 0 shortTrace).Subperm (targets.map (·.id)) := by
  obtain ⟨world, run⟩ := exists_short_run
  obtain ⟨-, -, -, -, hpublishes⟩ := run.registry_follows_commands
  obtain ⟨targets, htargets, -, hattempted, -⟩ :=
    hpublishes (shortTrace.take 7) (shortBatch 1) (shortTrace.drop 8) rfl nofun
  exact ⟨rfl, targets, htargets, hattempted⟩

end EventBus.Bus
