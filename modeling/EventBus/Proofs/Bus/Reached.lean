import EventBus.Proofs.Bus.Inputs

/-!
What is known of a bus that some run comes to, whatever has been done to it so far: all the laws of
runs hold of it, and the tasks it has are those of consumers that have subscribed.
-/

namespace EventBus.Bus

variable {σ : Type} [Store σ] {bus bus' : Bus σ}

/-- Some run comes to the bus, with no call under way. -/
def Reached (bus : Bus σ) : Prop :=
  ∃ settings store? trace, Run settings store? trace ⟨bus, []⟩

variable {allowed : (σ → σ) → Prop} {seen : List Mark}

theorem Leads.reached (leads : Leads allowed seen bus bus') (reached : Reached bus) :
    Reached bus' := by
  obtain ⟨settings, store?, trace, run⟩ := reached
  obtain ⟨more, stored, -⟩ := leads []
  exact ⟨settings, store?, trace ++ more, Steps.trans run stored.steps⟩

theorem reached_create (settings : Settings) (store? : Option σ) :
    Reached (create settings store?) :=
  ⟨settings, store?, [], .refl _⟩

namespace Reached

theorem ledgerLaws (reached : Reached bus) : LedgerLaws bus.ledger := by
  obtain ⟨settings, store?, trace, run⟩ := reached
  exact run.ledgerLaws

theorem laws (reached : Reached bus) : ∃ trace, Laws trace (bus.outline []) := by
  obtain ⟨settings, store?, trace, run⟩ := reached
  exact ⟨trace, run.laws⟩

variable {task : TaskId} {held : Task} {consumer : Consumer} {publish : Nat} {batch : List Event}
  {legs : List (Consumer × Leg)} {feed : Feed}

/-- The number of a consumer that a task works for has been given out. -/
theorem number_lt (reached : Reached bus) (h : bus.tasks.lookup task = some held)
    (hconsumer : consumer ∈ held.consumers) : consumer.id < bus.nextId := by
  obtain ⟨trace, laws⟩ := reached.laws
  have htaken : ∃ query, .subscribe consumer.id query ∈ taken trace := by
    cases held with
    | fanOut publish batch legs =>
      obtain ⟨entry, hentry, rfl⟩ := List.mem_map.mp hconsumer
      obtain ⟨-, before, after, rfl, -, -, henrolled⟩ := laws.fanOut.of_task laws.queue h
      obtain ⟨query, hquery, -⟩ := (henrolled entry hentry).mem_taken
      rw [taken_append]
      exact ⟨query, List.mem_append_left _ hquery⟩
    | replay other phase =>
      cases List.mem_singleton.mp hconsumer
      obtain ⟨query, hquery, -⟩ := (laws.replay.works task _ phase h).known
      exact ⟨query, hquery⟩
  obtain ⟨query, hquery⟩ := htaken
  have hsubscriber : consumer.id ∈ subscribers trace :=
    List.mem_filterMap.mpr ⟨_, laws.queue.in_order.subset hquery, rfl⟩
  exact laws.number.lt _ (laws.number.numbered _ (List.mem_append_left _ hsubscriber))

/-- No consumer has two deliveries in a fan-out. -/
theorem targets_distinct (reached : Reached bus)
    (h : bus.tasks.lookup task = some (.fanOut publish batch legs)) :
    (legs.map (·.1.id)).Nodup := by
  obtain ⟨trace, laws⟩ := reached.laws
  have hheld : (bus.outline []).Works task publish := ⟨batch, legs, h⟩
  obtain ⟨before, batch', after, htrace, rfl⟩ :=
    exists_took_of_lt (laws.fanOut.lt_publishCount laws.queue hheld)
  cases laws.fanOut.course before batch' after htrace with
  | refused _ _ untouched => exact absurd hheld (untouched.works task)
  | served targets _ htargets fate =>
    obtain ⟨-, rfl, -⟩ := fate.running_of_task h
    simpa [Function.comp_def] using htargets.distinct

/-- No place is kept for a task that does not wait at the feed. -/
theorem not_granted (reached : Reached bus) (h : bus.tasks.lookup task = some held)
    (hwaits : waitsFor held.legs consumer.id = 0) (hfeed : bus.feed? consumer.id = some feed) :
    feed.places.isGranted task = false := by
  have hclaims := reached.ledgerLaws.places.claims task consumer.id
  rw [claims_of_room (room_of_feed? hfeed), waits_of_lookup h, hwaits] at hclaims
  rw [Bool.eq_false_iff, Ne, Semaphore.isGranted_iff]
  exact (Semaphore.claims_eq_zero_iff.mp hclaims).2

/-- Who waits for a place in a feed is on its list. -/
theorem mem_claims (reached : Reached bus) (h : bus.tasks.lookup task = some held)
    {entry : Consumer × Leg} (hentry : entry ∈ held.legs) (hwaiting : entry.2.isWaiting = true)
    (hfeed : bus.feed? entry.1.id = some feed) :
    task ∈ feed.places.granted ++ feed.places.waiting := by
  have hclaims : 0 < feed.places.claims task :=
    (reached.ledgerLaws.places.claims_pos_iff (room_of_feed? hfeed)).mpr
      ⟨held, h, entry, hentry, rfl, hwaiting⟩
  exact List.mem_append.mpr (List.mem_append.mp (List.count_pos_iff.mp hclaims)).symm

end Reached

end EventBus.Bus
