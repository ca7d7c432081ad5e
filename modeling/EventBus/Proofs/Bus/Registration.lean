import EventBus.Proofs.Bus.CommandQueue
import EventBus.Proofs.Bus.Feeds

/-!
Numbers of consumers are used once, and the registry follows the commands: it holds who was
subscribed, has not been unsubscribed since and was not pruned since.
-/

namespace EventBus.Bus

/-- After `before`, and in the course of `after`, a publish was taken from the queue while the
subscription of the consumer was gone. -/
def PrunedIn (before after : List Mark) (id : ConsumerId) : Prop :=
  ∃ earlier batch later,
    after = earlier ++ .noted (.took (.publish batch)) :: later ∧ id ∈ gone (before ++ earlier)

/-- The subscription of the consumer was taken from the queue, and since then the consumer was
neither unsubscribed nor pruned. -/
def Enrolled (maxReplay : Nat) (trace : List Mark) (consumer : Consumer) : Prop :=
  ∃ before query after,
    trace = before ++ .noted (.took (.subscribe consumer.id query)) :: after ∧
    consumer.query = query.clampLimit maxReplay ∧
    .noted (.took (.unsubscribe consumer.id)) ∉ after ∧
    ¬PrunedIn before after consumer.id

/-- An entry of two lists put together is an entry of the first or of the second. -/
theorem append_eq_append_cons {α : Type} {first second before after : List α} {a : α}
    (h : first ++ second = before ++ a :: after) :
    (∃ kept, first = before ++ a :: kept ∧ after = kept ++ second) ∨
      ∃ skipped, before = first ++ skipped ∧ second = skipped ++ a :: after := by
  rcases List.append_eq_append_iff.mp h with ⟨skipped, hbefore, hsecond⟩ | ⟨kept, hfirst, hkept⟩
  · exact Or.inr ⟨skipped, hbefore, hsecond⟩
  · cases kept with
    | nil => exact Or.inr ⟨[], by simpa using hfirst.symm, hkept.symm⟩
    | cons b kept =>
        obtain ⟨rfl, rfl⟩ := List.cons_eq_cons.mp hkept
        exact Or.inl ⟨kept, hfirst, rfl⟩

variable {trace marks : List Mark} {maxReplay : Nat} {consumer : Consumer}

theorem prunedIn_append {before after : List Mark} {id : ConsumerId} :
    PrunedIn before (after ++ marks) id ↔
      PrunedIn before after id ∨ PrunedIn (before ++ after) marks id := by
  constructor
  · rintro ⟨earlier, batch, later, hmarks, hgone⟩
    rcases append_eq_append_cons hmarks with ⟨kept, rfl, rfl⟩ | ⟨skipped, rfl, rfl⟩
    · exact Or.inl ⟨earlier, batch, kept, rfl, hgone⟩
    · exact Or.inr ⟨skipped, batch, later, rfl, by rwa [List.append_assoc]⟩
  · rintro (⟨earlier, batch, later, rfl, hgone⟩ | ⟨earlier, batch, later, rfl, hgone⟩)
    · exact ⟨earlier, batch, later ++ marks, by simp, hgone⟩
    · exact ⟨after ++ earlier, batch, later, by simp, by rwa [← List.append_assoc]⟩

/-- Marks without a dropped subscription prune who was gone before, if a publish is among them. -/
theorem prunedIn_iff {id : ConsumerId} (h : gone marks = []) :
    PrunedIn trace marks id ↔
      (∃ batch, .noted (.took (.publish batch)) ∈ marks) ∧ id ∈ gone trace := by
  constructor
  · rintro ⟨earlier, batch, later, rfl, hgone⟩
    have hearlier : gone earlier = [] := by
      rw [gone_append, List.append_eq_nil_iff] at h
      exact h.1
    rw [gone_append, hearlier, List.append_nil] at hgone
    exact ⟨⟨batch, List.mem_append_right _ List.mem_cons_self⟩, hgone⟩
  · rintro ⟨⟨batch, hbatch⟩, hgone⟩
    obtain ⟨earlier, later, rfl⟩ := List.append_of_mem hbatch
    exact ⟨earlier, batch, later, rfl, by simp [gone_append, hgone]⟩

theorem not_prunedIn {id : ConsumerId} (h : ∀ batch, .noted (.took (.publish batch)) ∉ marks) :
    ¬PrunedIn trace marks id := by
  rintro ⟨earlier, batch, later, rfl, -⟩
  exact h batch (List.mem_append_right _ List.mem_cons_self)

/-- The command that enrolled a consumer drops no subscription. -/
theorem prunedIn_took {before after : List Mark} {id : ConsumerId} {command : Command} :
    PrunedIn (before ++ .noted (.took command) :: after) marks id ↔
      PrunedIn (before ++ after) marks id := by
  have hgone : ∀ earlier, gone (before ++ .noted (.took command) :: after ++ earlier)
      = gone (before ++ after ++ earlier) := by
    intro earlier
    simp only [gone_append]
    rfl
  unfold PrunedIn
  simp only [hgone]

theorem enrolled_append
    (h : ∀ query, .noted (.took (.subscribe consumer.id query)) ∉ marks) :
    Enrolled maxReplay (trace ++ marks) consumer ↔
      Enrolled maxReplay trace consumer ∧
        .noted (.took (.unsubscribe consumer.id)) ∉ marks ∧
        ¬PrunedIn trace marks consumer.id := by
  constructor
  · rintro ⟨before, query, after, htrace, hquery, hunsubscribed, hpruned⟩
    rcases append_eq_append_cons htrace with ⟨kept, rfl, rfl⟩ | ⟨skipped, -, rfl⟩
    · rw [List.mem_append, not_or] at hunsubscribed
      rw [prunedIn_append, not_or, ← prunedIn_took] at hpruned
      exact ⟨⟨before, query, kept, rfl, hquery, hunsubscribed.1, hpruned.1⟩,
        hunsubscribed.2, hpruned.2⟩
    · exact absurd (List.mem_append_right _ List.mem_cons_self) (h query)
  · rintro ⟨⟨before, query, after, rfl, hquery, hunsubscribed, hpruned⟩, hunsubscribed', hpruned'⟩
    refine ⟨before, query, after ++ marks, by simp, hquery, ?_, ?_⟩
    · rw [List.mem_append, not_or]
      exact ⟨hunsubscribed, hunsubscribed'⟩
    · rw [prunedIn_append, not_or, ← prunedIn_took]
      exact ⟨hpruned, hpruned'⟩

theorem enrolled_subscribe {id : ConsumerId} {query : Query} :
    Enrolled maxReplay (trace ++ [.noted (.took (.subscribe id query))]) consumer ↔
      consumer = ⟨id, query.clampLimit maxReplay⟩ ∨ Enrolled maxReplay trace consumer := by
  constructor
  · rintro ⟨before, query', after, htrace, hquery, hunsubscribed, hpruned⟩
    rcases append_eq_append_cons htrace with ⟨kept, rfl, rfl⟩ | ⟨skipped, -, hlast⟩
    · rw [List.mem_append, not_or] at hunsubscribed
      rw [prunedIn_append, not_or] at hpruned
      exact Or.inr ⟨before, query', kept, rfl, hquery, hunsubscribed.1, hpruned.1⟩
    · have hmem : Mark.noted (.took (.subscribe consumer.id query'))
          ∈ [Mark.noted (.took (.subscribe id query))] :=
        hlast ▸ List.mem_append_right _ List.mem_cons_self
      obtain ⟨consumerId, consumerQuery⟩ := consumer
      simp only [List.mem_singleton, Mark.noted.injEq, Notice.took.injEq,
        Command.subscribe.injEq] at hmem
      obtain ⟨rfl, rfl⟩ := hmem
      exact Or.inl (congrArg _ hquery)
  · rintro (rfl | ⟨before, query', after, rfl, hquery, hunsubscribed, hpruned⟩)
    · exact ⟨trace, query, [], rfl, rfl, List.not_mem_nil, not_prunedIn (by simp)⟩
    · refine ⟨before, query', after ++ [.noted (.took (.subscribe id query))], by simp, hquery,
        ?_, ?_⟩
      · simpa using hunsubscribed
      · rw [prunedIn_append, not_or]
        exact ⟨hpruned, not_prunedIn (by simp)⟩

/-- Who is enrolled was taken from the queue. -/
theorem Enrolled.mem_taken (h : Enrolled maxReplay trace consumer) :
    ∃ query, .subscribe consumer.id query ∈ taken trace ∧
      consumer.query = query.clampLimit maxReplay := by
  obtain ⟨before, query, after, rfl, hquery, -, -⟩ := h
  exact ⟨query, by simp [taken], hquery⟩

variable {o o' : Outline}

/-- Each number is used for one call, which enters the queue once at most. -/
structure NumberLaw (trace : List Mark) (o : Outline) : Prop where
  once : (subscribers trace ++ o.calls.filterMap Call.number?).Nodup
  numbered : ∀ id ∈ subscribers trace ++ o.calls.filterMap Call.number?, id ∈ numbers trace
  distinct : (numbers trace).Nodup
  lt : ∀ id ∈ numbers trace, id < o.nextId

theorem NumberLaw.frame (law : NumberLaw trace o) (hsent : sent marks = [])
    (hnumbers : numbers marks = []) (hcalls : o'.calls = o.calls) (hnextId : o'.nextId = o.nextId) :
    NumberLaw (trace ++ marks) o' := by
  have hsubscribers : subscribers (trace ++ marks) = subscribers trace := by
    rw [subscribers, sent_append, hsent, List.append_nil]
    rfl
  have hnumbers' : numbers (trace ++ marks) = numbers trace := by
    rw [numbers_append, hnumbers, List.append_nil]
  obtain ⟨honce, hnumbered, hdistinct, hlt⟩ := law
  rw [← hsubscribers, ← hcalls] at honce hnumbered
  rw [← hnumbers'] at hnumbered hdistinct hlt
  exact ⟨honce, hnumbered, hdistinct, hnextId ▸ hlt⟩

theorem NumberLaw.withCalls (law : NumberLaw trace o) {calls : List Call}
    (h : (calls.filterMap Call.number?).Sublist (o.calls.filterMap Call.number?)) :
    NumberLaw trace { o with calls } where
  once := law.once.sublist (h.append_left _)
  numbered id hid := law.numbered id ((h.append_left _).subset hid)
  distinct := law.distinct
  lt := law.lt

theorem NumberLaw.subscribe (law : NumberLaw trace o) (query : Query) (places : Nat) :
    NumberLaw (trace ++ [.numbered o.nextId])
      { o with
        nextId := o.nextId + 1
        calls := o.calls ++ [.subscribe o.nextId query places] } := by
  have hnew : o.nextId ∉ numbers trace := fun h => Nat.lt_irrefl _ (law.lt _ h)
  have hsubscribers : subscribers (trace ++ [.numbered o.nextId]) = subscribers trace := by
    rw [subscribers_append]
    exact List.append_nil _
  have hnumbers : numbers (trace ++ [.numbered o.nextId]) = numbers trace ++ [o.nextId] :=
    numbers_append
  have hcalls : (o.calls ++ [Call.subscribe o.nextId query places]).filterMap Call.number?
      = o.calls.filterMap Call.number? ++ [o.nextId] :=
    List.filterMap_append
  refine ⟨?_, ?_, ?_, ?_⟩
  · rw [hsubscribers, hcalls, ← List.append_assoc]
    refine List.nodup_append'.mpr ⟨law.once, List.nodup_singleton _, ?_⟩
    exact List.disjoint_singleton.mpr fun h => hnew (law.numbered _ h)
  · rw [hsubscribers, hcalls, hnumbers, ← List.append_assoc]
    intro id hid
    rcases List.mem_append.mp hid with h | h
    · exact List.mem_append_left _ (law.numbered id h)
    · exact List.mem_append_right _ h
  · rw [hnumbers]
    refine List.nodup_append'.mpr ⟨law.distinct, List.nodup_singleton _, ?_⟩
    exact List.disjoint_singleton.mpr hnew
  · rw [hnumbers]
    intro id hid
    rcases List.mem_append.mp hid with h | h
    · exact Nat.lt_succ_of_lt (law.lt id h)
    · rw [List.mem_singleton.mp h]
      exact Nat.lt_succ_self _

theorem NumberLaw.enter {before after : List Call} {call : Call} (law : NumberLaw trace o)
    (h : o.calls = before ++ call :: after) :
    NumberLaw (trace ++ [.sent call.command]) (o.enter call (before ++ after)) := by
  have hsubscribers : subscribers (trace ++ [.sent call.command])
      = subscribers trace ++ call.number?.toList := by
    rw [subscribers_append]
    cases call <;> rfl
  have hnumbers : numbers (trace ++ [.sent call.command]) = numbers trace := by
    rw [numbers_append]
    exact List.append_nil _
  have hperm : (subscribers (trace ++ [.sent call.command]) ++
        (before ++ after).filterMap Call.number?).Perm
      (subscribers trace ++ o.calls.filterMap Call.number?) := by
    rw [hsubscribers, h, List.append_assoc]
    apply List.Perm.append_left
    cases hnumber : call.number? with
    | none => simp [List.filterMap_cons_none hnumber]
    | some id =>
        rw [List.filterMap_append, List.filterMap_append, List.filterMap_cons_some hnumber,
          Option.toList_some, List.singleton_append]
        exact List.perm_middle.symm
  refine ⟨hperm.nodup_iff.mpr law.once, ?_, ?_, ?_⟩
  · rw [hnumbers]
    exact fun id hid => law.numbered id (hperm.subset hid)
  · rw [hnumbers]
    exact law.distinct
  · rw [hnumbers]
    exact law.lt

theorem NumberLaw.move (law : NumberLaw trace o) (move : Move o marks o') :
    NumberLaw (trace ++ marks) o' := by
  have hframe : (∀ mark ∈ marks, mark.isOfCall = false) → o'.calls = o.calls →
      o'.nextId = o.nextId → NumberLaw (trace ++ marks) o' :=
    fun hkind => law.frame (sent_eq_nil hkind) (numbers_eq_nil hkind)
  cases move with
  | report h => exact hframe (fun mark hmark => (kind_report h mark hmark).1) rfl rfl
  | call move =>
      cases move with
      | ask call h =>
          rw [List.append_nil]
          exact law.withCalls (by simp [h])
      | subscribe query places => exact law.subscribe query places
      | giveUp h =>
          rw [List.append_nil]
          apply law.withCalls
          rw [h]
          exact ((List.sublist_cons_self _ _).append_left _).filterMap _
      | enter h hopen => exact law.enter h
      | receive h => exact law.frame rfl rfl rfl rfl
      | close h => exact law.frame rfl rfl rfl rfl
  | coordinate move =>
      have frame := move.frame
      exact hframe (fun mark hmark => (frame.kind mark hmark).1) frame.calls frame.nextId
  | work move =>
      have frame := move.frame
      exact hframe (fun mark hmark => Mark.not_ofCall_of_ofTask (frame.kind mark hmark))
        frame.calls frame.nextId

section Registry

/-- That a command was taken, or that a number was known already. -/
def Mark.isOfRegistry : Mark → Bool
  | .noted (.took _) => true
  | .noted (.alreadyRegistered _) => true
  | _ => false

structure RegistryLaw (trace : List Mark) (o : Outline) : Prop where
  enrolled : o.coordinator.isGone = false →
    ∀ consumer, consumer ∈ o.registry ↔ Enrolled o.maxReplay trace consumer
  distinct : (o.registry.map (·.id)).Nodup
  never_known : ∀ id, .noted (.alreadyRegistered id) ∉ trace

theorem enrolled_append_of_silent (h : ∀ mark ∈ marks, mark.isOfRegistry = false) :
    Enrolled maxReplay (trace ++ marks) consumer ↔ Enrolled maxReplay trace consumer := by
  have hno : ∀ mark : Mark, mark.isOfRegistry = true → mark ∉ marks := by
    intro mark hmark hmem
    rw [h mark hmem] at hmark
    cases hmark
  rw [enrolled_append fun query => hno _ rfl]
  exact and_iff_left ⟨hno _ rfl, not_prunedIn fun batch => hno _ rfl⟩

theorem RegistryLaw.never_known_append (law : RegistryLaw trace o)
    (h : ∀ id, .noted (.alreadyRegistered id) ∉ marks) (id : ConsumerId) :
    .noted (.alreadyRegistered id) ∉ trace ++ marks := by
  rw [List.mem_append, not_or]
  exact ⟨law.never_known id, h id⟩

theorem RegistryLaw.frame (law : RegistryLaw trace o)
    (hmarks : ∀ mark ∈ marks, mark.isOfRegistry = false) (hregistry : o'.registry = o.registry)
    (hmaxReplay : o'.maxReplay = o.maxReplay)
    (hopen : o'.coordinator.isGone = false → o.coordinator.isGone = false) :
    RegistryLaw (trace ++ marks) o' := by
  refine ⟨?_, hregistry ▸ law.distinct, law.never_known_append fun _ hmem => ?_⟩
  · intro h consumer
    rw [enrolled_append_of_silent hmarks, hregistry, hmaxReplay]
    exact law.enrolled (hopen h) consumer
  · cases hmarks _ hmem

/-- The registry is given up with the coordinator. -/
theorem RegistryLaw.stop (law : RegistryLaw trace o) (hgone : o'.coordinator.isGone = true)
    (hdistinct : (o'.registry.map (·.id)).Nodup)
    (hknown : ∀ id, .noted (.alreadyRegistered id) ∉ marks) : RegistryLaw (trace ++ marks) o' where
  enrolled h := by
    rw [h] at hgone
    cases hgone
  distinct := hdistinct
  never_known := law.never_known_append hknown

theorem insertConsumer_perm (consumer : Consumer) (registry : List Consumer) :
    (insertConsumer consumer registry).Perm (consumer :: registry) := by
  induction registry with
  | nil => exact .refl _
  | cons other rest ih =>
      unfold insertConsumer
      split
      · exact .refl _
      · exact (ih.cons other).trans (.swap consumer other rest)

/-- A number that was subscribed by some point is not subscribed again after it. -/
theorem not_subscribed_again {before after : List Mark} {id : ConsumerId} {query : Query}
    (queue : QueueLaw (before ++ after) o) (number : NumberLaw (before ++ after) o)
    (h : .subscribe id query ∈ taken before) (query' : Query) :
    .subscribe id query' ∉ taken after := by
  intro hagain
  have honce : ((taken (before ++ after)).filterMap Command.subscriber?).Nodup :=
    (List.nodup_append'.mp number.once).1.sublist (queue.in_order.filterMap _).sublist
  rw [taken_append, List.filterMap_append] at honce
  have hbefore : id ∈ (taken before).filterMap Command.subscriber? :=
    List.mem_filterMap.mpr ⟨_, h, rfl⟩
  have hafter : id ∈ (taken after).filterMap Command.subscriber? :=
    List.mem_filterMap.mpr ⟨_, hagain, rfl⟩
  exact (List.nodup_append'.mp honce).2.2 hbefore hafter

/-- The number of a subscription that is next in the queue has not been taken before. -/
theorem not_taken_of_next {id : ConsumerId} {query : Query} {rest : List Command}
    (queue : QueueLaw trace o) (number : NumberLaw trace o) (h : o.coordinator = .receiving)
    (hcommands : o.commands = .subscribe id query :: rest) (query' : Query) :
    .subscribe id query' ∉ taken trace := by
  intro hmem
  have hopen := Coordinator.not_gone_of_isFree (Coordinator.isFree_of_receiving h)
  have honce := (List.nodup_append'.mp number.once).1
  have hnext : (Command.subscribe id query :: rest).filterMap Command.subscriber?
      = id :: rest.filterMap Command.subscriber? := rfl
  rw [subscribers, ← queue.queued hopen, hcommands, List.filterMap_append, hnext] at honce
  have hid : id ∈ (taken trace).filterMap Command.subscriber? :=
    List.mem_filterMap.mpr ⟨_, hmem, rfl⟩
  exact (List.nodup_append'.mp honce).2.2 hid List.mem_cons_self

theorem RegistryLaw.enroll {id : ConsumerId} {query : Query} (law : RegistryLaw trace o)
    (hopen : o.coordinator.isGone = false) (hnew : o.registry.any (·.id == id) = false)
    (hmaxReplay : o'.maxReplay = o.maxReplay)
    (hregistry : o'.registry = insertConsumer ⟨id, query.clampLimit o.maxReplay⟩ o.registry) :
    RegistryLaw (trace ++ [.noted (.took (.subscribe id query)),
      .noted (.registered ⟨id, query.clampLimit o.maxReplay⟩)]) o' := by
  let added : Consumer := ⟨id, query.clampLimit o.maxReplay⟩
  have hperm : o'.registry.Perm (added :: o.registry) := hregistry ▸ insertConsumer_perm _ _
  refine ⟨?_, ?_, law.never_known_append (by simp)⟩
  · intro _ consumer
    have hsilent : ∀ mark ∈ [Mark.noted (.registered added)], mark.isOfRegistry = false := by
      simp [Mark.isOfRegistry]
    have hsplit : trace ++ [.noted (.took (.subscribe id query)), .noted (.registered added)]
        = (trace ++ [.noted (.took (.subscribe id query))]) ++ [.noted (.registered added)] := by
      simp
    rw [hsplit, enrolled_append_of_silent hsilent, enrolled_subscribe, hmaxReplay, hperm.mem_iff,
      List.mem_cons, law.enrolled hopen]
  · rw [(hperm.map _).nodup_iff, List.map_cons, List.nodup_cons]
    refine ⟨?_, law.distinct⟩
    simpa using hnew

theorem noted_mem_map {notice : Notice} {notices : List Notice} :
    .noted notice ∈ notices.map Mark.noted ↔ notice ∈ notices := by
  simp

theorem not_mem_of_plain {notice : Notice} {notices : List Notice}
    (h : ∀ notice ∈ notices, notice.isPlain = true) (hnotice : notice.isPlain = false) :
    notice ∉ notices := by
  intro hmem
  rw [h notice hmem] at hnotice
  cases hnotice

/-- With plain reports, the command alone matters to the registry. -/
theorem noted_mem_took {command : Command} {notice : Notice} {notices : List Notice}
    (hplain : ∀ notice ∈ notices, notice.isPlain = true) (hnotice : notice.isPlain = false) :
    .noted notice ∈ (Notice.took command :: notices).map Mark.noted ↔ notice = .took command := by
  rw [noted_mem_map, List.mem_cons, or_iff_left (not_mem_of_plain hplain hnotice)]

theorem RegistryLaw.expel {id : ConsumerId} {notices : List Notice} (law : RegistryLaw trace o)
    (hopen : o.coordinator.isGone = false) (hplain : ∀ notice ∈ notices, notice.isPlain = true)
    (hmaxReplay : o'.maxReplay = o.maxReplay)
    (hregistry : o'.registry = o.registry.filter (·.id != id)) :
    RegistryLaw (trace ++ (Notice.took (.unsubscribe id) :: notices).map .noted) o' := by
  refine ⟨?_, ?_, law.never_known_append fun _ => ?_⟩
  · intro _ consumer
    have hsubscribed : ∀ query, Mark.noted (.took (.subscribe consumer.id query))
        ∉ (Notice.took (.unsubscribe id) :: notices).map .noted := by
      intro query
      rw [noted_mem_took hplain rfl]
      simp
    have hpruned : ¬PrunedIn trace ((Notice.took (.unsubscribe id) :: notices).map .noted)
        consumer.id := by
      apply not_prunedIn
      intro batch
      rw [noted_mem_took hplain rfl]
      simp
    have hunsubscribed : Mark.noted (.took (.unsubscribe consumer.id))
        ∈ (Notice.took (.unsubscribe id) :: notices).map .noted ↔ consumer.id = id := by
      rw [noted_mem_took hplain rfl]
      simp
    rw [enrolled_append hsubscribed, hunsubscribed, and_iff_left hpruned, hmaxReplay, hregistry,
      List.mem_filter, law.enrolled hopen, bne_iff_ne]
  · rw [hregistry]
    exact law.distinct.sublist (List.filter_sublist.map _)
  · rw [noted_mem_took hplain rfl]
    simp

theorem RegistryLaw.accept {batch : List Event} {notices : List Notice} (law : RegistryLaw trace o)
    (feed : FeedLaw trace o) (hopen : o.coordinator.isGone = false)
    (hplain : ∀ notice ∈ notices, notice.isPlain = true)
    (hmarks : marks = (if o.stored then [.wrote batch (.ok ())] else [])
      ++ (Notice.took (.publish batch) :: (notices ++ o.pruned)).map .noted)
    (hkind : ∀ mark ∈ marks, mark.isOfCall = false) (hmaxReplay : o'.maxReplay = o.maxReplay)
    (hregistry : o'.registry = o.registry.filter fun c => !o.isGone c.id) :
    RegistryLaw (trace ++ marks) o' := by
  have hmem : ∀ {notice : Notice}, notice.isPlain = false →
      (.noted notice ∈ marks ↔ notice = .took (.publish batch)) := by
    intro notice hnotice
    have hwrote : .noted notice ∉ (if o.stored then [Mark.wrote batch (.ok ())] else []) := by
      split <;> simp
    rw [hmarks, List.mem_append, or_iff_right hwrote,
      noted_mem_took (isPlain_of_mem_append_pruned hplain) hnotice]
  refine ⟨?_, ?_, law.never_known_append fun _ => ?_⟩
  · intro _ consumer
    have hsubscribed : ∀ query, .noted (.took (.subscribe consumer.id query)) ∉ marks := by
      intro query
      rw [hmem rfl]
      simp
    have hunsubscribed : .noted (.took (.unsubscribe consumer.id)) ∉ marks := by
      rw [hmem rfl]
      simp
    have hbatch : ∃ batch, .noted (.took (.publish batch)) ∈ marks :=
      ⟨batch, (hmem rfl).mpr rfl⟩
    rw [enrolled_append hsubscribed, and_iff_right hunsubscribed, prunedIn_iff (gone_eq_nil hkind),
      and_iff_right hbatch, hmaxReplay, hregistry, List.mem_filter, ← law.enrolled hopen,
      ← feed.isGone_iff, Bool.not_eq_true', Bool.not_eq_true]
  · rw [hregistry]
    exact law.distinct.sublist (List.filter_sublist.map _)
  · rw [hmem rfl]
    simp

theorem RegistryLaw.coordinate (law : RegistryLaw trace o) (queue : QueueLaw trace o)
    (number : NumberLaw trace o) (feed : FeedLaw trace o) (move : CoordinatorMove o marks o') :
    RegistryLaw (trace ++ marks) o' := by
  have hopen := move.not_gone
  have hkind : ∀ mark ∈ marks, mark.isOfCall = false :=
    fun mark hmark => (move.frame.kind mark hmark).1
  cases move with
  | ready h hnext => exact law.frame nofun rfl rfl fun _ => hopen
  | discard h => exact law.stop rfl law.distinct (by simp)
  | stop h hresult => exact law.stop rfl List.nodup_nil (by simp)
  | @refuse batch rest notices error h hcommands hstored hplain =>
      refine law.stop rfl List.nodup_nil ?_
      intro id hmem
      rcases List.mem_cons.mp hmem with hmem | hmem
      · cases hmem
      · rw [noted_mem_map, List.mem_append, List.mem_cons] at hmem
        rcases hmem with (hmem | hmem) | hmem
        · cases hmem
        · exact not_mem_of_plain hplain rfl hmem
        · simp at hmem
  | accept h hcommands hplain hnext => exact law.accept feed hopen hplain rfl hkind rfl rfl
  | @known id query rest h hcommands hregistered =>
      obtain ⟨consumer, hconsumer, hid⟩ := List.any_eq_true.mp hregistered
      obtain ⟨query', htaken, -⟩ := ((law.enrolled hopen consumer).mp hconsumer).mem_taken
      rw [beq_iff_eq.mp hid] at htaken
      exact absurd htaken (not_taken_of_next queue number h hcommands query')
  | enroll h hcommands hnew hconsumer hnext =>
      subst hconsumer
      exact law.enroll hopen hnew rfl rfl
  | expel h hcommands hplain => exact law.expel hopen hplain rfl rfl
  | launch h => exact law.frame nofun rfl rfl fun _ => hopen
  | drop h =>
      exact law.frame (by simp [Mark.isOfRegistry]) rfl rfl fun _ => hopen
  | abandon h => exact law.frame nofun rfl rfl fun _ => hopen

theorem isOfRegistry_of_call {mark : Mark} (h : mark.isOfCall = true) :
    mark.isOfRegistry = false := by
  cases mark with
  | noted _ => cases h
  | _ => rfl

theorem isOfRegistry_of_task {mark : Mark} (h : mark.isOfTask = true) :
    mark.isOfRegistry = false := by
  cases mark with
  | noted notice =>
      cases notice with
      | took _ => cases h
      | alreadyRegistered _ => cases h
      | _ => rfl
  | _ => rfl

theorem isOfRegistry_of_plain {notice : Notice} (h : notice.isPlain = true) :
    (Mark.noted notice).isOfRegistry = false := by
  cases notice with
  | took _ => cases h
  | alreadyRegistered _ => cases h
  | _ => rfl

theorem RegistryLaw.move (law : RegistryLaw trace o) (queue : QueueLaw trace o)
    (number : NumberLaw trace o) (feed : FeedLaw trace o) (move : Move o marks o') :
    RegistryLaw (trace ++ marks) o' := by
  cases move with
  | report h =>
      refine law.frame ?_ rfl rfl id
      intro mark hmark
      obtain ⟨notice, hnotice, rfl⟩ := List.mem_map.mp hmark
      exact isOfRegistry_of_plain (h notice hnotice)
  | call move =>
      have frame := move.frame
      exact law.frame (fun mark hmark => isOfRegistry_of_call (frame.kind mark hmark))
        frame.registry frame.maxReplay fun h => frame.coordinator ▸ h
  | coordinate move => exact law.coordinate queue number feed move
  | work move =>
      have frame := move.frame
      exact law.frame (fun mark hmark => isOfRegistry_of_task (frame.kind mark hmark))
        frame.registry frame.maxReplay fun h => frame.coordinator ▸ h

end Registry

end EventBus.Bus
