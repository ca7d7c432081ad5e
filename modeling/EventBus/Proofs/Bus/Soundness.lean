import EventBus.Proofs.Bus.Laws

/-!
What a subscription receives has a cause: a publish that was taken while the consumer was
registered, or the consumer's own replay.
-/

namespace EventBus.Bus

/-- What was put into the feed of a consumer, and why. -/
def deliveries (id : ConsumerId) (trace : List Mark) : List (List Event × Origin) :=
  trace.filterMap fun
    | .noted (.queued other events origin) => if other = id then some (events, origin) else none
    | _ => none

variable {id : ConsumerId} {trace : List Mark}

theorem map_fst_deliveries : (deliveries id trace).map (·.1) = queued id trace := by
  rw [deliveries, List.map_filterMap]
  apply List.filterMap_congr
  intro mark _
  cases mark with
  | noted notice =>
      cases notice with
      | queued other events origin => by_cases h : other = id <;> simp [h]
      | _ => rfl
  | _ => rfl

theorem count_live_deliveries (publish : Nat) :
    ((deliveries id trace).map (·.2)).count (.live publish) = (fed publish trace).count id := by
  induction trace with
  | nil => rfl
  | cons mark trace ih =>
      unfold deliveries fed at ih ⊢
      cases mark with
      | noted notice =>
          cases notice with
          | queued other events origin =>
              cases origin with
              | replay => by_cases h : other = id <;> simpa [h] using ih
              | live publish' =>
                  by_cases h : other = id <;> by_cases h' : publish' = publish <;>
                    simpa [h, h'] using ih
          | _ => exact ih
      | _ => exact ih

theorem exists_split_of_delivery {n : Nat} {events : List Event} {origin : Origin}
    (h : (deliveries id trace)[n]? = some (events, origin)) :
    ∃ before after, trace = before ++ .noted (.queued id events origin) :: after := by
  obtain ⟨mark, hmark, hread⟩ := List.mem_filterMap.mp (List.mem_of_getElem? h)
  have hqueued : mark = .noted (.queued id events origin) := by
    split at hread
    · split at hread
      next hid =>
        subst hid
        cases hread
        rfl
      next => cases hread
    · cases hread
  exact List.append_of_mem (hqueued ▸ hmark)

section Causes

variable {o : Outline} {maxReplay n : Nat} {batch : List Event}

/-- What was received was put into the feed for a reason that held by then, and holds still. -/
theorem Laws.caused_of_received (laws : Laws trace o) (h : (received id trace)[n]? = some batch) :
    ∃ consumer origin, consumer.id = id ∧ (deliveries id trace)[n]? = some (batch, origin) ∧
      Caused o.maxReplay o.stored trace consumer batch origin := by
  obtain ⟨rest, hqueued⟩ := laws.feed.prefix id
  have hnth : (queued id trace)[n]? = some batch := by
    obtain ⟨hlt, -⟩ := List.getElem?_eq_some_iff.mp h
    rw [← hqueued, List.getElem?_append_left hlt, h]
  rw [← map_fst_deliveries, List.getElem?_map] at hnth
  obtain ⟨⟨events, origin⟩, hdelivery, rfl⟩ := Option.map_eq_some_iff.mp hnth
  obtain ⟨before, after, htrace⟩ := exists_split_of_delivery hdelivery
  obtain ⟨consumer, hid, hcaused⟩ := laws.cause before id events origin after htrace
  exact ⟨consumer, origin, hid, hdelivery, htrace ▸ hcaused.append _⟩

/-- Only a consumer whose subscription was taken is given anything. -/
theorem Caused.known {consumer : Consumer} {stored : Bool} {origin : Origin}
    (h : Caused maxReplay stored trace consumer batch origin) : Known maxReplay trace consumer := by
  cases h with
  | replay hknown _ => exact hknown
  | live publish before source after htrace _ henrolled _ _ _ =>
      obtain ⟨query, hquery, hconsumer⟩ := henrolled.mem_taken
      have hknown : Known maxReplay before consumer := ⟨query, hquery, by rw [← hconsumer]⟩
      rw [htrace]
      exact hknown.append _

/-- A selection made with the clamped query is one of the query itself. -/
theorem select_of_known {consumer : Consumer} {query : Query}
    (h : consumer.query = query.clampLimit maxReplay) (source : List Event) :
    consumer.query.select source = query.select source := by
  rw [h]
  rfl

end Causes

section Runs

variable {σ : Type} [Store σ] {settings : Settings} {store? : Option σ} {world : World σ}

/-- Whatever a subscription receives is what its filter selects of one publish, taken while the
consumer was registered, or of the beginning of one batch that its own replay has read; and no
publish is put into its feed more than once. -/
theorem Run.received_has_cause (run : Run settings store? trace world) (id : ConsumerId) :
    (∀ publish, ((deliveries id trace).map (·.2)).count (.live publish) ≤ 1) ∧
    ∀ (n : Nat) (batch : List Event), (received id trace)[n]? = some batch →
      ∃ (query : Query) (source : List Event) (origin : Origin),
        .subscribe id query ∈ sent trace ∧
        (deliveries id trace)[n]? = some (batch, origin) ∧
        batch ≠ [] ∧ (∀ event ∈ batch, query.accepts event = true) ∧ batch.Sublist source ∧
        ((∃ before after,
            origin = .live (publishCount before) ∧
            trace = before ++ .noted (.took (.publish source)) :: after ∧
            Enrolled settings.maxReplay before ⟨id, query.clampLimit settings.maxReplay⟩ ∧
            batch = query.select source) ∨
          origin = .replay ∧ .yielded id source ∈ trace ∧
            ∃ most, batch = query.select (source.take most)) := by
  have laws := run.laws
  obtain ⟨hmaxReplay, -⟩ := run.constants
  constructor
  · intro publish
    rw [count_live_deliveries]
    exact List.nodup_iff_count_le_one.mp (laws.fanOut.fed_nodup laws.queue publish) id
  · intro n batch hreceived
    obtain ⟨consumer, origin, rfl, hdelivery, hcaused⟩ := laws.caused_of_received hreceived
    rw [hmaxReplay] at hcaused
    obtain ⟨query, hquery, hconsumer⟩ := hcaused.known
    have hsent : .subscribe consumer.id query ∈ sent trace := laws.queue.in_order.subset hquery
    have hself : consumer = ⟨consumer.id, query.clampLimit settings.maxReplay⟩ := by
      rw [← hconsumer]
    have hselected : ∀ source, batch = consumer.query.select source →
        batch = query.select source ∧ (∀ event ∈ batch, query.accepts event = true) ∧
          batch.Sublist source := by
      intro source hselect
      rw [select_of_known hconsumer] at hselect
      rw [hselect]
      exact ⟨rfl, fun _ hevent => (List.mem_filter.mp hevent).2, List.filter_sublist⟩
    cases hcaused with
    | live publish before source after htrace hcount henrolled _ hevents hne =>
        obtain ⟨hselect, haccepts, hsublist⟩ := hselected source hevents
        exact ⟨query, source, .live publish, hsent, hdelivery, hne, haccepts, hsublist,
          Or.inl ⟨before, after, by rw [hcount], htrace, hself ▸ henrolled, hselect⟩⟩
    | replay _ hreplayed =>
        obtain ⟨hne, source, most, hyielded, hevents⟩ := hreplayed
        obtain ⟨hselect, haccepts, hsublist⟩ := hselected _ hevents
        exact ⟨query, source, .replay, hsent, hdelivery, hne, haccepts,
          hsublist.trans (List.take_sublist _ _), Or.inr ⟨rfl, hyielded, most, hselect⟩⟩

end Runs

theorem first_received_has_cause :
    (received 1 shortTrace)[0]? = some (shortBatch 1) ∧
      ∃ query origin, .subscribe 1 query ∈ sent shortTrace ∧
        (deliveries 1 shortTrace)[0]? = some (shortBatch 1, origin) ∧
        ∀ event ∈ shortBatch 1, query.accepts event = true := by
  obtain ⟨world, run⟩ := exists_short_run
  obtain ⟨query, _, origin, hquery, horigin, -, haccepts, -⟩ :=
    (run.received_has_cause 1).2 0 (shortBatch 1) rfl
  exact ⟨rfl, query, origin, hquery, horigin, haccepts⟩

end EventBus.Bus
