import EventBus.Proofs.Bus.Soundness
import EventBus.Proofs.Bus.StoreCalls
import EventBus.Proofs.Store.RingHistory

/-!
Replay and fan-out side by side, for a bus that keeps its history in a ring. The replay to a new
consumer reads the ring some time after the consumer was registered, and a publish that was taken
in between is then both in the ring and fanned out to the consumer. Each occurrence of an event is
put into the feed once by either at most, and by both only in that case.
-/

namespace EventBus.Bus

/-- An event of the batch of a publish. Publishes are counted in the order in which they are taken. -/
structure Occurrence where
  publish : Nat
  place : Nat
  deriving DecidableEq

/-- An event that a ring was given, and what it was given for, unless it came from elsewhere. -/
structure Kept where
  event : Event
  source? : Option Occurrence

def occurrences (publish : Nat) (batch : List Event) : List Kept :=
  batch.zipIdx.map fun entry => ⟨entry.1, some ⟨publish, entry.2⟩⟩

/-- What the writes that have succeeded give to a ring, while the publish is taken. -/
def given (publish : Nat) (marks : List Mark) : List Kept :=
  (accepted marks).flatMap (occurrences publish)

/-- What a call of someone else gives to a ring. -/
def foreign (ring : Ring) (call : Ring.Call) : List Kept :=
  (Ring.added (call, (call.perform ring).1)).map (⟨·, none⟩)

/-- A run of a bus with a ring, and all that the ring was given in the course of it. Others may call
the ring at any time, but no one gets at it in another way. -/
inductive RingRun (settings : Settings) (capacity : Nat) :
    List Mark → World Ring → List Kept → Prop where
  | make : RingRun settings capacity [] ⟨create settings (some (.ofCapacity capacity)), []⟩ []
  | others {trace bus calls ring kept} (run : RingRun settings capacity trace ⟨bus, calls⟩ kept)
      (h : bus.store? = some ring) (call : Ring.Call) :
      RingRun settings capacity trace ⟨bus.mapStore fun ring => (call.perform ring).2, calls⟩
        (kept ++ foreign ring call)
  | step {trace world marks world' kept} (run : RingRun settings capacity trace world kept)
      (step : Step world marks world')
      (hown : marks = [] → world'.bus.store? = world.bus.store?) :
      RingRun settings capacity (trace ++ marks ++ news world.bus world'.bus) world'
        (kept ++ given (publishCount trace) marks)

section Sources

variable {publish : Nat} {batch : List Event} {kept : List Kept}

theorem map_event_occurrences : (occurrences publish batch).map (·.event) = batch := by
  rw [occurrences, List.map_map]
  exact List.zipIdx_map_fst 0 batch

theorem sources_occurrences :
    (occurrences publish batch).filterMap (·.source?)
      = (List.range batch.length).map (Occurrence.mk publish) := by
  have hplaces : batch.zipIdx.map (·.2) = List.range batch.length := by
    rw [List.range_eq_range']
    exact List.zipIdx_map_snd 0 batch
  rw [← hplaces, List.map_map, occurrences, List.filterMap_map]
  exact congrFun List.filterMap_eq_map _

theorem nodup_sources_occurrences : ((occurrences publish batch).filterMap (·.source?)).Nodup := by
  rw [sources_occurrences]
  refine List.nodup_range.map ?_
  intro place place' h
  exact (Occurrence.mk.inj h).2

theorem publish_of_mem_occurrences {occurrence : Occurrence}
    (h : occurrence ∈ (occurrences publish batch).filterMap (·.source?)) :
    occurrence.publish = publish := by
  rw [sources_occurrences] at h
  obtain ⟨place, -, rfl⟩ := List.mem_map.mp h
  rfl

/-- What a ring has for a query is part of what it was given, the last first. -/
theorem exists_snapshot {ring : Ring} {shut : Bool} (h : ring.Reflects (kept.map (·.event)) shut)
    (query : Query) :
    ∃ snapshot : List Kept, ring.matching query = snapshot.map (·.event) ∧
      snapshot.Sublist kept.reverse := by
  let most := min ring.capacity ring.len
  let held := (kept.reverse.take most).filter fun kept => query.accepts kept.event
  refine ⟨held.take query.limit, ?_, ?_⟩
  · have hrecent : ring.recent ring.capacity = (kept.reverse.take most).map (·.event) := by
      rw [h.recent_eq, ← List.map_reverse, List.map_take]
    rw [Ring.matching, hrecent, Query.select, List.filter_map, List.map_take]
    rfl
  · exact ((List.take_sublist _ _).trans List.filter_sublist).trans (List.take_sublist _ _)

end Sources

section Reads

/-- What the replay to a consumer has read is part of what the ring had been given by then, and the
consumer had been subscribed by then. -/
structure Snapshot (trace : List Mark) (kept : List Kept) (id : ConsumerId)
    (snapshot : List Kept) : Prop where
  yielded : yielded id trace = snapshot.map fun kept => [kept.event]
  sublist : snapshot.Sublist kept.reverse
  before : ∀ before batch after, trace = before ++ .yielded id batch :: after →
    (∃ query, .noted (.took (.subscribe id query)) ∈ before) ∧
    ∀ occurrence ∈ snapshot.filterMap (·.source?), occurrence.publish < publishCount before

variable {trace marks : List Mark} {id : ConsumerId} {kept more snapshot : List Kept}

theorem mem_yielded {batch : List Event} : batch ∈ yielded id trace ↔ .yielded id batch ∈ trace := by
  rw [yielded, List.mem_filterMap]
  constructor
  · rintro ⟨mark, hmark, hread⟩
    split at hread
    · split at hread
      next hid =>
        cases hread
        exact hid ▸ hmark
      next => cases hread
    · cases hread
  · exact fun h => ⟨_, h, if_pos rfl⟩

theorem Snapshot.none (h : Bus.yielded id trace = []) : Snapshot trace kept id [] where
  yielded := h
  sublist := List.nil_sublist _
  before before batch after htrace := by
    have hmem : batch ∈ Bus.yielded id trace :=
      mem_yielded.mpr (htrace ▸ List.mem_append_right _ List.mem_cons_self)
    rw [h] at hmem
    cases hmem

theorem Snapshot.given (h : Snapshot trace kept id snapshot) (more : List Kept) :
    Snapshot trace (kept ++ more) id snapshot where
  yielded := h.yielded
  sublist := by
    rw [List.reverse_append]
    exact h.sublist.trans (List.sublist_append_right _ _)
  before := h.before

/-- Nothing more is read. -/
theorem Snapshot.frame (h : Snapshot trace kept id snapshot) (hnone : Bus.yielded id marks = []) :
    Snapshot (trace ++ marks) kept id snapshot where
  yielded := by rw [yielded_append, hnone, List.append_nil, h.yielded]
  sublist := h.sublist
  before before batch after htrace := by
    rcases append_eq_append_cons htrace with ⟨earlier, hearlier, -⟩ | ⟨skipped, -, hlater⟩
    · exact h.before before batch earlier hearlier
    · have hmem : batch ∈ Bus.yielded id marks :=
        mem_yielded.mpr (hlater ▸ List.mem_append_right _ List.mem_cons_self)
      rw [hnone] at hmem
      cases hmem

/-- The one read of a replay. -/
theorem Snapshot.read {query : Query} (hunread : Bus.yielded id trace = [])
    (hsubscribed : .noted (.took (.subscribe id query)) ∈ trace)
    (hyielded : Bus.yielded id marks = snapshot.map fun kept => [kept.event])
    (hsublist : snapshot.Sublist kept.reverse)
    (hcounted : ∀ occurrence ∈ kept.filterMap (·.source?), occurrence.publish < publishCount trace) :
    Snapshot (trace ++ marks) kept id snapshot where
  yielded := by rw [yielded_append, hunread, List.nil_append, hyielded]
  sublist := hsublist
  before before batch after htrace := by
    rcases append_eq_append_cons htrace with ⟨earlier, hearlier, -⟩ | ⟨skipped, rfl, -⟩
    · have hmem : batch ∈ Bus.yielded id trace :=
        mem_yielded.mpr (hearlier ▸ List.mem_append_right _ List.mem_cons_self)
      rw [hunread] at hmem
      cases hmem
    · refine ⟨⟨query, List.mem_append_left _ hsubscribed⟩, fun occurrence hoccurrence => ?_⟩
      have hkept : occurrence ∈ kept.filterMap (·.source?) := by
        have hmem := (hsublist.filterMap (·.source?)).subset hoccurrence
        rwa [List.filterMap_reverse, List.mem_reverse] at hmem
      rw [publishCount_append]
      exact Nat.lt_add_right _ (hcounted occurrence hkept)

end Reads

section Rings

/-- What holds of a bus with a ring that was given so much. Every occurrence in the ring is there
once, for a publish that was taken before. -/
structure RingLaw (trace : List Mark) (bus : Bus Ring) (kept : List Kept) : Prop where
  reflects : ∃ ring shut, bus.store? = some ring ∧ ring.Reflects (kept.map (·.event)) shut
  whole : bus.Whole
  counted : ∀ occurrence ∈ kept.filterMap (·.source?), occurrence.publish < publishCount trace
  distinct : (kept.filterMap (·.source?)).Nodup
  reads : ∀ id, ∃ snapshot, Snapshot trace kept id snapshot

variable {settings : Settings} {capacity : Nat} {trace marks : List Mark} {world world' : World Ring}
  {bus bus' : Bus Ring} {kept : List Kept}

/-- A write is refused and changes nothing, or the whole batch is written. -/
theorem ring_write (canceled : Bool) (batch : List Event) (ring : Ring) :
    (∃ error, (Store.write canceled batch ring).result = .error error ∧
        (Store.write canceled batch ring).store = ring) ∨
      (Store.write canceled batch ring).result = .ok () ∧
        (Store.write canceled batch ring).store = ring.pushAll batch := by
  change (∃ error, (ring.write canceled batch).result = .error error ∧
      (ring.write canceled batch).store = ring) ∨
    (ring.write canceled batch).result = .ok () ∧
      (ring.write canceled batch).store = ring.pushAll batch
  unfold Ring.write
  split
  · exact Or.inl ⟨_, rfl, rfl⟩
  · split
    · exact Or.inl ⟨_, rfl, rfl⟩
    · exact Or.inr ⟨rfl, rfl⟩

/-- A read is refused, or answered at once and as a whole; it changes nothing. -/
theorem ring_read (canceled : Bool) (query : Query) (ring : Ring) :
    ((∃ error, (Store.read canceled query ring).result = .error error) ∨
      (Store.read canceled query ring).result = .ok ⟨(ring.matching query).map ([·]), true⟩) ∧
      (Store.read canceled query ring).store = ring := by
  change ((∃ error, (ring.read canceled query).result = .error error) ∨
    (ring.read canceled query).result = .ok ⟨(ring.matching query).map ([·]), true⟩) ∧
      (ring.read canceled query).store = ring
  unfold Ring.read
  split
  · exact ⟨Or.inl ⟨_, rfl⟩, rfl⟩
  · split
    · exact ⟨Or.inl ⟨_, rfl⟩, rfl⟩
    · exact ⟨Or.inr (congrArg Except.ok (ring.outbox_stream query)), rfl⟩

theorem ring_whole : Store.Whole Ring := by
  intro canceled query ring stream h
  obtain ⟨⟨error, hrefused⟩ | hanswer, -⟩ := ring_read canceled query ring
  · rw [hrefused] at h
    cases h
  · rw [hanswer] at h
    cases h
    rfl

theorem RingRun.run (run : RingRun settings capacity trace world kept) :
    Run settings (some (Ring.ofCapacity capacity)) trace world := by
  induction run with
  | make => exact .refl _
  | @others trace bus calls _ _ _ _ call ih =>
    have hstep := ih.tail (.mapStore fun ring => (call.perform ring).2)
    have hnews : news bus (bus.mapStore fun ring => (call.perform ring).2) = [] :=
      news_of_history_eq rfl
    rwa [hnews, List.append_nil, List.append_nil] at hstep
  | step _ step _ ih => exact ih.tail step

theorem sources_foreign (ring : Ring) (call : Ring.Call) :
    (foreign ring call).filterMap (·.source?) = [] := by
  simp [foreign]

theorem RingLaw.others {ring : Ring} (law : RingLaw trace bus kept) (h : bus.store? = some ring)
    (call : Ring.Call) :
    RingLaw trace (bus.mapStore fun ring => (call.perform ring).2) (kept ++ foreign ring call) := by
  have hsources : (kept ++ foreign ring call).filterMap (·.source?)
      = kept.filterMap (·.source?) := by
    rw [List.filterMap_append, sources_foreign, List.append_nil]
  refine ⟨?_, law.whole, hsources ▸ law.counted, hsources ▸ law.distinct, fun id => ?_⟩
  · obtain ⟨held, shut, hheld, hreflects⟩ := law.reflects
    cases h.symm.trans hheld
    have hmap : (foreign ring call).map (·.event) = Ring.added (call, (call.perform ring).1) := by
      rw [foreign, List.map_map]
      exact List.map_id _
    have hnext := hreflects.perform call
    rw [← hmap, ← List.map_append] at hnext
    exact ⟨(call.perform ring).2, _, by simp [mapStore, h], hnext⟩
  · obtain ⟨snapshot, hsnapshot⟩ := law.reads id
    exact ⟨snapshot, hsnapshot.given _⟩

/-- Of a publish that succeeds the ring is given each event once. -/
theorem RingLaw.write {batch : List Event} {ring : Ring} (law : RingLaw trace bus kept)
    (whole : bus'.Whole) (h : bus.store? = some ring) (hstore : bus'.store? = some (ring.pushAll batch))
    (hcount : publishCount (trace ++ marks) = publishCount trace + 1)
    (hyielded : ∀ id, yielded id marks = []) :
    RingLaw (trace ++ marks) bus' (kept ++ occurrences (publishCount trace) batch) := by
  refine ⟨?_, whole, ?_, ?_, fun id => ?_⟩
  · obtain ⟨held, shut, hheld, hreflects⟩ := law.reflects
    cases h.symm.trans hheld
    have hpushed := hreflects.pushAll batch
    rw [← @map_event_occurrences (publishCount trace) batch, ← List.map_append,
      map_event_occurrences] at hpushed
    exact ⟨_, shut, hstore, hpushed⟩
  · intro occurrence hoccurrence
    rw [hcount]
    rw [List.filterMap_append, List.mem_append] at hoccurrence
    rcases hoccurrence with hold | hnew
    · exact Nat.lt_succ_of_lt (law.counted occurrence hold)
    · rw [publish_of_mem_occurrences hnew]
      exact Nat.lt_succ_self _
  · rw [List.filterMap_append]
    refine law.distinct.append nodup_sources_occurrences fun occurrence hold hnew => ?_
    have hlt := law.counted occurrence hold
    rw [publish_of_mem_occurrences hnew] at hlt
    exact Nat.lt_irrefl _ hlt
  · obtain ⟨snapshot, hsnapshot⟩ := law.reads id
    exact ⟨snapshot, (hsnapshot.frame (hyielded id)).given _⟩

theorem RingLaw.frame (law : RingLaw trace bus kept) (whole : bus'.Whole)
    (hstore : bus'.store? = bus.store?) (hyielded : ∀ id, yielded id marks = []) :
    RingLaw (trace ++ marks) bus' kept := by
  refine ⟨hstore ▸ law.reflects, whole, ?_, law.distinct, fun id => ?_⟩
  · intro occurrence hoccurrence
    rw [publishCount_append]
    exact Nat.lt_add_right _ (law.counted occurrence hoccurrence)
  · obtain ⟨snapshot, hsnapshot⟩ := law.reads id
    exact ⟨snapshot, hsnapshot.frame (hyielded id)⟩

theorem RingLaw.read {consumer : Consumer} {query : Query} {snapshot : List Kept}
    (law : RingLaw trace bus kept) (whole : bus'.Whole) (hstore : bus'.store? = bus.store?)
    (hunread : yielded consumer.id trace = [])
    (hsubscribed : .noted (.took (.subscribe consumer.id query)) ∈ trace)
    (hyielded : yielded consumer.id marks = snapshot.map fun kept => [kept.event])
    (hothers : ∀ id, id ≠ consumer.id → yielded id marks = [])
    (hsublist : snapshot.Sublist kept.reverse) : RingLaw (trace ++ marks) bus' kept := by
  refine ⟨hstore ▸ law.reflects, whole, ?_, law.distinct, fun id => ?_⟩
  · intro occurrence hoccurrence
    rw [publishCount_append]
    exact Nat.lt_add_right _ (law.counted occurrence hoccurrence)
  · by_cases hid : id = consumer.id
    · subst hid
      exact ⟨snapshot, .read hunread hsubscribed hyielded hsublist law.counted⟩
    · obtain ⟨earlier, hearlier⟩ := law.reads id
      exact ⟨earlier, hearlier.frame (hothers id hid)⟩

/-- Every publish that is taken is written, whatever comes of it. -/
theorem publishCount_eq_writes {o : Outline} (law : QueueLaw trace o) (hstored : o.stored = true) :
    publishCount trace = (writes trace).length := by
  have hwritten := congrArg List.length (law.written hstored)
  rw [List.length_map] at hwritten
  exact hwritten.symm

theorem yielded_news (id : ConsumerId) (earlier later : Bus Ring) :
    yielded id (news earlier later) = [] := by
  rw [yielded, news, List.filterMap_map]
  exact List.filterMap_none _

theorem RingLaw.step (law : RingLaw trace world.bus kept)
    (run : Run settings (some (Ring.ofCapacity capacity)) trace world)
    (step : Step world marks world') (hown : marks = [] → world'.bus.store? = world.bus.store?) :
    RingLaw (trace ++ marks ++ news world.bus world'.bus) world'.bus
      (kept ++ given (publishCount trace) marks) := by
  have run' : Run settings (some (Ring.ofCapacity capacity)) _ world' := Steps.tail run step
  have whole := step.whole ring_whole law.whole
  have call := step.storeCall law.whole hown
  have hcount : publishCount (trace ++ marks ++ news world.bus world'.bus)
      = publishCount trace + (writes marks).length := by
    rw [publishCount_eq_writes run.laws.queue run.constants.2,
      publishCount_eq_writes run'.laws.queue run'.constants.2, writes_append, writes_append,
      writes_news, List.append_nil, List.length_append]
  generalize hnews : news world.bus world'.bus = reports at hcount ⊢
  have hreports : ∀ id, yielded id reports = [] := fun id => hnews ▸ yielded_news id _ _
  rw [List.append_assoc] at hcount ⊢
  cases call with
  | nothing hwrites hyielded hstore =>
    have hnone : given (publishCount trace) marks = [] := by
      rw [given, accepted, hwrites]
      rfl
    rw [hnone, List.append_nil]
    refine law.frame whole hstore fun id => ?_
    rw [yielded_append, hyielded, hreports]
    rfl
  | @write batch ring h hstore =>
    have hyielded : ∀ id, yielded id
        ([.wrote batch (Store.write world.bus.canceled batch ring).result] ++ reports) = [] := by
      intro id
      rw [yielded_append, hreports]
      rfl
    rcases ring_write world.bus.canceled batch ring with ⟨error, hresult, hkept⟩ | ⟨hresult, hkept⟩
    · rw [hkept, ← h] at hstore
      rw [hresult] at hyielded ⊢
      have hnone : given (publishCount trace) [.wrote batch (.error error)] = [] := rfl
      rw [hnone, List.append_nil]
      exact law.frame whole hstore hyielded
    · rw [hkept] at hstore
      rw [hresult] at hcount hyielded ⊢
      have hgiven : given (publishCount trace) [.wrote batch (.ok ())]
          = occurrences (publishCount trace) batch := List.append_nil _
      rw [hgiven]
      exact law.write whole h hstore hcount hyielded
  | @read task consumer ring h htask hstore =>
    obtain ⟨hanswer, hkept⟩ :=
      ring_read (world.bus.isCanceled consumer.id) consumer.query ring
    rw [hkept, ← h] at hstore
    rcases hanswer with ⟨error, hrefused⟩ | hanswer
    · rw [hrefused]
      have hnone : given (publishCount trace) (yields consumer.id (.error error)) = [] := rfl
      rw [hnone, List.append_nil]
      exact law.frame whole hstore hreports
    · obtain ⟨held, shut, hheld, hreflects⟩ := law.reflects
      cases h.symm.trans hheld
      obtain ⟨snapshot, hmatching, hsublist⟩ := exists_snapshot hreflects consumer.query
      rw [hanswer]
      have hbegun : world.outline.task task = some (.replay consumer .starting) := htask
      have hunread : yielded consumer.id trace = [] := by
        cases (run.limits.works task consumer _ hbegun).2 with
        | starting hyielded _ => exact hyielded
      obtain ⟨query, hquery, -⟩ := (run.laws.replay.works task consumer _ hbegun).known
      have hnone : given (publishCount trace)
          (yields consumer.id (.ok ⟨(ring.matching consumer.query).map ([·]), true⟩)) = [] := by
        simp [given, accepted, writes, yields]
      rw [hnone, List.append_nil]
      refine law.read whole hstore hunread (mem_taken.mp hquery) ?_ (fun id hid => ?_) hsublist
      · rw [yielded_append, hreports, List.append_nil, yields, yielded_yields, hmatching,
          List.map_map]
        rfl
      · rw [yielded_append, hreports, List.append_nil, yields, yielded_yields_of_ne _ hid]

theorem RingRun.law (run : RingRun settings capacity trace world kept) :
    RingLaw trace world.bus kept := by
  induction run with
  | make =>
    refine ⟨⟨_, false, rfl, Ring.ofCapacity_reflects capacity⟩, nofun, nofun, List.nodup_nil, ?_⟩
    exact fun id => ⟨[], .none rfl⟩
  | others _ h call ih => exact ih.others h call
  | step run step hown ih => exact ih.step run.run step hown

end Rings

section Feeds

variable {trace : List Mark} {id : ConsumerId} {o : Outline} {query : Query} {events : List Event}
  {publish : Nat}

theorem mem_deliveries {origin : Origin} :
    (events, origin) ∈ deliveries id trace ↔ .noted (.queued id events origin) ∈ trace := by
  constructor
  · intro h
    obtain ⟨n, hn⟩ := List.mem_iff_getElem?.mp h
    obtain ⟨before, after, rfl⟩ := exists_split_of_delivery hn
    exact List.mem_append_right _ List.mem_cons_self
  · exact fun h => List.mem_filterMap.mpr ⟨_, h, if_pos rfl⟩

/-- A fan-out gives a consumer what it selects of a publish that was taken after its Subscribe. -/
theorem Laws.live_delivery (laws : Laws trace o) (hquery : .subscribe id query ∈ taken trace)
    (h : (events, .live publish) ∈ deliveries id trace) :
    ∃ before batch after, trace = before ++ .noted (.took (.publish batch)) :: after ∧
      publishCount before = publish ∧ events = query.select batch ∧
      .subscribe id query ∈ taken before := by
  obtain ⟨earlier, later, htrace⟩ := List.append_of_mem (mem_deliveries.mp h)
  obtain ⟨consumer, rfl, hcaused⟩ := laws.cause earlier id events _ later htrace
  cases hcaused with
  | live publish before batch after hearlier hcount henrolled _ hevents _ =>
    obtain ⟨query', hquery', hconsumer⟩ := henrolled.mem_taken
    have hsplit : trace = before ++ .noted (.took (.publish batch)) ::
        (after ++ .noted (.queued consumer.id events (.live publish)) :: later) := by
      rw [htrace, hearlier, List.append_assoc, List.cons_append]
    have hknown : .subscribe consumer.id query' ∈ taken trace := by
      rw [hsplit, taken_append]
      exact List.mem_append_left _ hquery'
    obtain rfl := query_unique laws.number (laws.queue.in_order.subset hquery)
      (laws.queue.in_order.subset hknown)
    rw [select_of_known hconsumer] at hevents
    exact ⟨before, batch, _, hsplit, hcount, hevents, hquery'⟩

/-- What is taken before the Subscribe of a consumer is taken before all that follows the Subscribe. -/
theorem Laws.publishCount_le {before after earlier later : List Mark} {query' : Query}
    (laws : Laws trace o) (h : trace = before ++ .noted (.took (.subscribe id query')) :: after)
    (hearlier : trace = earlier ++ later) (hquery : .subscribe id query ∈ taken earlier) :
    publishCount before ≤ publishCount earlier := by
  rcases append_eq_append_cons (hearlier.symm.trans h) with ⟨kept, rfl, -⟩ | ⟨skipped, rfl, hlater⟩
  · rw [publishCount_append]
    exact Nat.le_add_right _ _
  · -- the Subscribe that came before would be followed by another one
    subst hearlier
    refine absurd (mem_taken.mpr ?_)
      (not_subscribed_again laws.queue laws.number hquery query')
    rw [hlater]
    exact List.mem_append_right _ List.mem_cons_self

/-- From a stream of single events a replay delivers single events. -/
theorem Drawn.singles {batches : List (List Event)} {snapshot : List Kept}
    (h : Drawn query batches (snapshot.map fun kept => [kept.event]))
    (hne : ∀ batch ∈ batches, batch ≠ []) :
    ∃ replayed : List Kept, batches = replayed.map (fun kept => [kept.event]) ∧
      replayed.Sublist snapshot := by
  obtain ⟨picked, hbatches, hpicked⟩ := List.sublistForall₂_iff.mp h
  obtain ⟨replayed, hreplayed, rfl⟩ := List.sublist_map_iff.mp hpicked
  refine ⟨replayed, ?_, hreplayed⟩
  clear h hpicked hreplayed
  induction replayed generalizing batches with
  | nil => exact List.forall₂_nil_right_iff.mp hbatches
  | cons kept replayed ih =>
    cases hbatches with
    | @cons batch _ batches _ hbatch hrest =>
      obtain ⟨hfirst, hothers⟩ := List.forall_mem_cons.mp hne
      obtain ⟨most, rfl⟩ := hbatch
      have hsingle : (query.select ([kept.event].take most)).Sublist [kept.event] :=
        List.filter_sublist.trans (List.take_sublist _ _)
      rw [(List.sublist_singleton.mp hsingle).resolve_left hfirst, ih hothers hrest]
      rfl

end Feeds

section Runs

variable {settings : Settings} {capacity : Nat} {trace : List Mark} {world : World Ring}
  {kept : List Kept} {id : ConsumerId} {query : Query}

/-- How often an occurrence was put into the feed of a consumer at most: by the fan-out of its
publish, which puts there what the consumer selects of the batch, and among what the replay put
there. -/
def timesPut (id : ConsumerId) (trace : List Mark) (replayed : List Kept)
    (occurrence : Occurrence) : Nat :=
  (fed occurrence.publish trace).count id + (replayed.filterMap (·.source?)).count occurrence

/-- A publish was taken between the Subscribe of the consumer and the read of its replay. -/
def TakenBeforeRead (trace : List Mark) (id : ConsumerId) (publish : Nat) : Prop :=
  ∃ before query between batch after,
    trace = before ++ .noted (.took (.subscribe id query)) :: between ++ .yielded id batch :: after ∧
    publishCount before ≤ publish ∧
    publish < publishCount (before ++ .noted (.took (.subscribe id query)) :: between)

/-- Of what comes by both, the fan-out tells that the publish was taken after the Subscribe, and
the replay that it was taken before the read. -/
theorem Laws.takenBeforeRead {o : Outline} {snapshot : List Kept} {occurrence : Occurrence}
    (laws : Laws trace o) (hquery : .subscribe id query ∈ taken trace)
    (hsnapshot : Snapshot trace kept id snapshot) (hfed : id ∈ fed occurrence.publish trace)
    (hread : occurrence ∈ snapshot.filterMap (·.source?)) :
    TakenBeforeRead trace id occurrence.publish := by
  rw [← List.count_pos_iff, ← count_live_deliveries, List.count_pos_iff, List.mem_map] at hfed
  obtain ⟨⟨events, origin⟩, hdelivery, rfl⟩ := hfed
  obtain ⟨earlier, batch, later, hearlier, hcount, -, hsubscribed⟩ :=
    laws.live_delivery hquery hdelivery
  have hyields : yielded id trace ≠ [] := by
    rw [hsnapshot.yielded, Ne, List.map_eq_nil_iff]
    rintro rfl
    cases hread
  obtain ⟨first, hfirst⟩ := List.exists_mem_of_ne_nil _ hyields
  obtain ⟨unread, rest, hrest⟩ := List.append_of_mem (mem_yielded.mp hfirst)
  obtain ⟨⟨query', hquery'⟩, hbefore⟩ := hsnapshot.before unread first rest hrest
  obtain ⟨before, between, rfl⟩ := List.append_of_mem hquery'
  refine ⟨before, query', between, first, rest, hrest, ?_, hbefore occurrence hread⟩
  have hsplit : trace = before ++ .noted (.took (.subscribe id query')) ::
      (between ++ .yielded id first :: rest) := by
    rw [hrest, List.append_assoc, List.cons_append]
  exact hcount ▸ laws.publishCount_le hsplit hearlier hsubscribed

/-- What a fan-out puts into a feed is what the consumer selects of its publish, taken after the
Subscribe of the consumer, and it is put there once. What the replay puts there are events that the
ring was given, the last first and none twice. So an occurrence is put there at most once by each,
and by both only if its publish was taken after the Subscribe and before the read of the replay. -/
theorem RingRun.put_once_by_each (run : RingRun settings capacity trace world kept)
    (hquery : .subscribe id query ∈ taken trace) :
    (∀ publish events, (events, .live publish) ∈ deliveries id trace →
      ∃ before batch after, trace = before ++ .noted (.took (.publish batch)) :: after ∧
        publishCount before = publish ∧ events = query.select batch) ∧
    ∃ replayed : List Kept,
      Bus.replayed id trace = replayed.map (fun kept => [kept.event]) ∧
      replayed.Sublist kept.reverse ∧
      ∀ occurrence : Occurrence,
        (fed occurrence.publish trace).count id ≤ 1 ∧
        (replayed.filterMap (·.source?)).count occurrence ≤ 1 ∧
        (1 < timesPut id trace replayed occurrence →
          TakenBeforeRead trace id occurrence.publish) := by
  have laws := run.run.laws
  obtain ⟨snapshot, hsnapshot⟩ := run.law.reads id
  have hwithin : Within trace ⟨id, query.clampLimit world.outline.maxReplay⟩ :=
    run.run.limits.within _ ⟨query, hquery, rfl⟩
  have hdrawn : Drawn query (Bus.replayed id trace) (yielded id trace) := hwithin.drawn
  rw [hsnapshot.yielded] at hdrawn
  obtain ⟨replayed, hreplayed, hpicked⟩ := hdrawn.singles fun _ => laws.ne_nil_of_replayed
  have hgiven := hpicked.trans hsnapshot.sublist
  refine ⟨?_, replayed, hreplayed, hgiven, fun occurrence => ?_⟩
  · intro publish events h
    obtain ⟨before, batch, after, htrace, hcount, hevents, -⟩ := laws.live_delivery hquery h
    exact ⟨before, batch, after, htrace, hcount, hevents⟩
  have hlive : (fed occurrence.publish trace).count id ≤ 1 :=
    List.nodup_iff_count_le_one.mp (laws.fanOut.fed_nodup laws.queue occurrence.publish) id
  have hdistinct : (replayed.filterMap (·.source?)).Nodup := by
    refine List.Nodup.sublist (hgiven.filterMap _) ?_
    rw [List.filterMap_reverse, List.nodup_reverse]
    exact run.law.distinct
  have hreplay := List.nodup_iff_count_le_one.mp hdistinct occurrence
  refine ⟨hlive, hreplay, fun htwice => ?_⟩
  have hfed : 0 < (fed occurrence.publish trace).count id := by
    unfold timesPut at htwice
    omega
  have hkept : 0 < (replayed.filterMap (·.source?)).count occurrence := by
    unfold timesPut at htwice
    omega
  have hread : occurrence ∈ snapshot.filterMap (·.source?) :=
    (hpicked.filterMap _).subset (List.count_pos_iff.mp hkept)
  exact laws.takenBeforeRead hquery hsnapshot (List.count_pos_iff.mp hfed) hread

end Runs

section Sample

/-- The replay to a consumer reads the ring after a publish was taken that is fanned out to it. -/
def overlapTrace : List Mark :=
  [.numbered 1, .sent (.subscribe 1 longQuery), .sent (.publish (shortBatch 1)),
    .noted (.started 2 10 true),
    .noted (.took (.subscribe 1 longQuery)), .noted (.registered ⟨1, longQuery⟩),
    .wrote (shortBatch 1) (.ok ()), .noted (.took (.publish (shortBatch 1))),
    .noted (.stored (shortBatch 1)),
    .yielded 1 (shortBatch 1), .noted (.queued 1 (shortBatch 1) .replay),
    .attempted 0 1, .noted (.queued 1 (shortBatch 1) (.live 0))]

theorem exists_overlap_run :
    ∃ world, RingRun ⟨2, 10, 5, 5⟩ 4 overlapTrace world (occurrences 0 (shortBatch 1)) := by
  have h : RingRun ⟨2, 10, 5, 5⟩ 4 [] _ [] := .make
  have h := h.step (.subscribe longQuery 4) fun _ => rfl
  have h := h.step (@Step.enter _ _ _ [] _ [] rfl) fun _ => rfl
  have h := h.step (.call (.publish (shortBatch 1)) rfl) fun _ => rfl
  have h := h.step (@Step.enter _ _ _ [] _ [] rfl) fun _ => rfl
  have h := h.step .start fun _ => rfl
  have h := h.step (.begin rfl) fun _ => rfl
  have h := h.step (.take rfl rfl) fun _ => rfl
  have h := h.step (.take rfl rfl) nofun
  have h := h.step (@Step.read _ _ _ _ 0 _ rfl) nofun
  have h := h.step (@Step.send _ _ _ _ 0 _ _ _ _ _ rfl rfl) fun _ => rfl
  have h := h.step (@Step.deliver _ _ _ _ 1 _ _ [] _ _ _ rfl) nofun
  exact ⟨_, h⟩

theorem timesPut_overlapTrace {replayed : List Kept}
    (h : Bus.replayed 1 overlapTrace = replayed.map fun kept => [kept.event])
    (hsublist : replayed.Sublist (occurrences 0 (shortBatch 1)).reverse) :
    timesPut 1 overlapTrace replayed ⟨0, 0⟩ = 2 := by
  rcases List.sublist_singleton.mp hsublist with rfl | rfl
  · cases h
  · rfl

theorem occurrence_put_twice :
    ¬ ∀ (settings : Settings) (capacity : Nat) (trace : List Mark) (world : World Ring)
      (kept : List Kept) (id : ConsumerId) (query : Query),
      RingRun settings capacity trace world kept → query.replay = true →
      .subscribe id query ∈ taken trace →
      ∃ replayed : List Kept,
        Bus.replayed id trace = replayed.map (fun kept => [kept.event]) ∧
        replayed.Sublist kept.reverse ∧
        ∀ (occurrence : Occurrence) (before after : List Mark),
          trace = before ++ .noted (.took (.subscribe id query)) :: after →
          publishCount before ≤ occurrence.publish →
          timesPut id trace replayed occurrence ≤ 1 := by
  intro h
  obtain ⟨world, run⟩ := exists_overlap_run
  obtain ⟨replayed, hreplayed, hsublist, honce⟩ :=
    h _ _ _ _ _ 1 longQuery run rfl (mem_taken.mpr (List.mem_of_getElem? (i := 4) rfl))
  have hput := honce ⟨0, 0⟩ (overlapTrace.take 4) (overlapTrace.drop 5) rfl (Nat.zero_le _)
  rw [timesPut_overlapTrace hreplayed hsublist] at hput
  exact absurd hput (by decide)

/-- The occurrence comes by both, since its publish was taken before the read. -/
theorem put_twice_by_overlap :
    longQuery.replay = true ∧
      ∃ replayed, Bus.replayed 1 overlapTrace = replayed.map (fun kept => [kept.event]) ∧
        timesPut 1 overlapTrace replayed ⟨0, 0⟩ = 2 ∧ TakenBeforeRead overlapTrace 1 0 := by
  obtain ⟨world, run⟩ := exists_overlap_run
  have hquery : .subscribe 1 longQuery ∈ taken overlapTrace :=
    mem_taken.mpr (List.mem_of_getElem? (i := 4) rfl)
  obtain ⟨-, replayed, hreplayed, hsublist, hput⟩ := run.put_once_by_each hquery
  have htwice := timesPut_overlapTrace hreplayed hsublist
  obtain ⟨-, -, hoverlap⟩ := hput ⟨0, 0⟩
  exact ⟨rfl, replayed, hreplayed, htwice, hoverlap (htwice ▸ by decide)⟩

end Sample

end EventBus.Bus
