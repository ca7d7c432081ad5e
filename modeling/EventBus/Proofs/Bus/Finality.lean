import EventBus.Proofs.Bus.Bookkeeping
import EventBus.Proofs.Bus.Laws

/-!
Being unsubscribed is final. Three facts of single changes make it so: nothing undoes a
cancellation, a feed is given something only while its consumer is registered and not
cancelled, and who leaves the registry is cancelled. A task that still holds on to the consumer,
or waits at its full feed, therefore puts nothing more into it.
-/

namespace EventBus.Bus

section Silence

variable {l l' : Ledger} {id : ConsumerId}

theorem CoordinatorChange.not_gone (change : CoordinatorChange l l') :
    l.coordinator.isGone = false := by
  cases change with
  | start h | begin h | discard h | stop h | publish h | known h | enroll h | expel h | ignore h
  | prune h | ask _ h | launch h | redeem h | desist h =>
      rw [h]
      rfl

/-- A bus that has ended stays so. -/
theorem Change.gone (change : Change l l') (h : l.coordinator.isGone = true) :
    l'.coordinator.isGone = true := by
  cases change with
  | report _ => exact h
  | call change => cases change <;> exact h
  | coordinate change => exact absurd h (Bool.eq_false_iff.mp change.not_gone)
  | work change =>
      obtain ⟨-, -, hcoordinator⟩ := change.frame
      rwa [hcoordinator]

theorem Changes.silent (changes : Changes l l') (laws : LedgerLaws l)
    (h : l.isCanceled id = true ∨ l.coordinator.isGone = true) :
    ∃ notices, l'.history = l.history ++ notices ∧
      ∀ events origin, .queued id events origin ∉ notices := by
  have hboth : (∃ notices, l'.history = l.history ++ notices ∧
      ∀ events origin, .queued id events origin ∉ notices) ∧ LedgerLaws l' ∧
      (l'.isCanceled id = true ∨ l'.coordinator.isGone = true) := by
    induction changes with
    | refl => exact ⟨⟨[], (List.append_nil _).symm, nofun⟩, laws, h⟩
    | @tail middle last _ change ih =>
        obtain ⟨⟨notices, hhistory, hsilent⟩, laws, h⟩ := ih
        obtain ⟨news, hnews, hqueued⟩ := change.queued laws.standing
        refine ⟨⟨notices ++ news, ?_, ?_⟩, laws.change change,
          h.imp change.canceled change.gone⟩
        · rw [hnews, hhistory, List.append_assoc]
        · intro events origin hmem
          rcases List.mem_append.mp hmem with hmem | hmem
          · exact hsilent events origin hmem
          · obtain ⟨hcanceled, hregistered⟩ := hqueued id events origin hmem
            rcases h with h | h
            · rw [h] at hcanceled
              cases hcanceled
            · rw [Ledger.isRegistered, (laws.standing.gone h).1] at hregistered
              cases hregistered
  exact hboth.1

end Silence

section Others

variable {σ : Type} {bus : Bus σ}

/-- The registration of a consumer and whether it is cancelled are the same in both. -/
def SameStanding (bus bus' : Bus σ) (consumer : Consumer) : Prop :=
  (consumer ∈ bus'.registry ↔ consumer ∈ bus.registry) ∧
    bus'.isCanceled consumer.id = bus.isCanceled consumer.id

theorem take_unsubscribe_others [Store σ] (bus : Bus σ) (rest : List Command) {id : ConsumerId}
    {consumer : Consumer} (h : consumer.id ≠ id) :
    SameStanding bus (bus.take (.unsubscribe id) rest).land consumer := by
  have hledger := ledger_take_unsubscribe bus id rest
  have hregistry : (bus.take (.unsubscribe id) rest).land.registry = _ :=
    congrArg Ledger.registry hledger
  have hcanceled : (bus.take (.unsubscribe id) rest).land.isCanceled consumer.id = _ :=
    congrFun (congrArg Ledger.isCanceled hledger) consumer.id
  rw [SameStanding, hregistry, hcanceled]
  split
  next => exact ⟨by simp [Ledger.expel, ledger, h], isCanceled_expel_of_ne h⟩
  next => exact ⟨Iff.rfl, rfl⟩

theorem any_closed_ledger (id : ConsumerId) :
    (bus.feed? id).any (·.closed) = (bus.ledger.room id).any (·.closed) := by
  rw [ledger, Option.any_map]
  rfl

/-- Pruning cancels no one whose subscription is not gone. -/
theorem isCanceled_pruneEach {id : ConsumerId} (consumers : List Consumer)
    (h : ∀ consumer ∈ consumers, consumer.id = id → (bus.feed? id).any (·.closed) = false) :
    (bus.pruneEach consumers).isCanceled id = bus.isCanceled id := by
  induction consumers generalizing bus with
  | nil => rfl
  | cons consumer rest ih =>
      obtain ⟨hfirst, hrest⟩ := List.forall_mem_cons.mp h
      unfold pruneEach
      split
      next hgone =>
        have hpruned : (bus.pruneOne consumer.id).ledger
            = (bus.ledger.expel consumer.id).note [.pruned consumer.id] :=
          ledger_pruneOne consumer.id
        have hne : id ≠ consumer.id := by
          intro hid
          rw [← hid, hfirst hid.symm] at hgone
          cases hgone
        have hclosed : ((bus.pruneOne consumer.id).feed? id).any (·.closed)
            = (bus.feed? id).any (·.closed) := by
          rw [any_closed_ledger, any_closed_ledger, hpruned]
          rfl
        have hcanceled : (bus.pruneOne consumer.id).isCanceled id = bus.isCanceled id := by
          refine (congrFun (congrArg Ledger.isCanceled hpruned) id).trans ?_
          exact isCanceled_expel_of_ne hne
        refine Eq.trans (@ih (bus.pruneOne consumer.id) ?_) hcanceled
        rw [hclosed]
        exact hrest
      next => exact ih hrest

theorem mem_registry_prune (consumer : Consumer) :
    consumer ∈ bus.prune.registry ↔
      consumer ∈ bus.registry ∧ (bus.feed? consumer.id).any (·.closed) = false := by
  have hregistry : bus.prune.registry = (bus.outline []).prune.registry :=
    congrArg Outline.registry outline_prune
  rw [hregistry, Outline.prune_registry, List.mem_filter, Bool.not_eq_true', isGone_outline]
  rfl

theorem prune_others {consumer : Consumer}
    (h : bus.isRegistered consumer.id = true → (bus.feed? consumer.id).any (·.closed) = false) :
    SameStanding bus bus.prune consumer := by
  have hregistered : ∀ other ∈ bus.registry, other.id = consumer.id →
      bus.isRegistered consumer.id = true :=
    fun other hmem hid => List.any_eq_true.mpr ⟨other, hmem, beq_iff_eq.mpr hid⟩
  refine ⟨mem_registry_prune consumer |>.trans (and_iff_left_of_imp fun hmem => ?_), ?_⟩
  · exact h (hregistered consumer hmem rfl)
  · exact isCanceled_pruneEach bus.registry fun other hmem hid => h (hregistered other hmem hid)

end Others

theorem receive_of_queue {σ : Type} {bus : Bus σ} {id : ConsumerId} {feed : Feed} {batch : List Event}
    {rest : List (List Event)} (h : bus.feed? id = some feed) (hqueue : feed.queue = batch :: rest) :
    (bus.receive id).1 = .batch batch := by
  simp [receive, h, Feed.pop?, hqueue]

/-- Nothing more is due to the consumer: its Unsubscribe was taken from the queue after its
Subscribe, or it was pruned, or the bus has ended. An Unsubscribe of a number that was not
subscribed before is ignored, as that of any number nobody has. -/
inductive Ended {σ : Type} (trace : List Mark) (bus : Bus σ) (id : ConsumerId) : Prop where
  | unsubscribed (before after : List Mark) (query : Query)
      (htrace : trace = before ++ .noted (.took (.unsubscribe id)) :: after)
      (hsubscribed : .noted (.took (.subscribe id query)) ∈ before)
  | pruned (h : .noted (.pruned id) ∈ trace)
  | stopped (h : bus.coordinator.isGone = true)

section Runs

variable {σ : Type} [Store σ] {settings : Settings} {store? : Option σ} {trace later : List Mark}
  {world world' : World σ} {id : ConsumerId}

theorem mem_reported {notice : Notice} : notice ∈ reported trace ↔ .noted notice ∈ trace := by
  rw [reported, List.mem_filterMap]
  constructor
  · rintro ⟨mark, hmark, hread⟩
    cases mark with
    | noted _ => exact Option.some.inj hread ▸ hmark
    | _ => cases hread
  · exact fun h => ⟨_, h, rfl⟩

theorem Run.history_eq (run : Run settings store? trace world) :
    world.bus.history = reported trace :=
  run.moves.history_eq

/-- The reader of a feed that is still open gets what was put into it, in that order. -/
theorem Run.received_append_queue {feed : Feed} (run : Run settings store? trace world)
    (h : world.bus.feed? id = some feed) (hopen : feed.closed = false) :
    received id trace ++ feed.queue = queued id trace := by
  have hagrees := run.laws.feed id
  have hshelf : world.outline.shelf id = some ⟨feed.queue, false⟩ := by
    rw [World.outline, shelf_of_feed? _ h, Feed.shelf, hopen]
  rw [hshelf] at hagrees
  exact hagrees.1

theorem Run.isCanceled_of_unsubscribed {before after : List Mark} {query : Query}
    (run : Run settings store? trace world)
    (htrace : trace = before ++ .noted (.took (.unsubscribe id)) :: after)
    (hsubscribed : .noted (.took (.subscribe id query)) ∈ before) :
    world.bus.isCanceled id = true := by
  have hhistory : world.bus.ledger.history = reported trace := run.history_eq
  refine run.ledgerLaws.record.left (reported before) id (reported after) ?_ ⟨query, ?_⟩
  · rw [hhistory, htrace, reported_append, reported_cons]
    rfl
  · exact mem_reported.mpr hsubscribed

theorem Ended.silences (h : Ended trace world.bus id) (run : Run settings store? trace world) :
    world.bus.isCanceled id = true ∨ world.bus.coordinator.isGone = true := by
  have hhistory : world.bus.ledger.history = reported trace := run.history_eq
  cases h with
  | unsubscribed before after query htrace hsubscribed =>
      exact Or.inl (run.isCanceled_of_unsubscribed htrace hsubscribed)
  | pruned h => exact Or.inl (run.ledgerLaws.record.pruned id (hhistory ▸ mem_reported.mpr h))
  | stopped h => exact Or.inr h

theorem Ended.silent (h : Ended trace world.bus id) (run : Run settings store? trace world)
    (steps : Steps world later world') : queued id later = [] := by
  obtain ⟨notices, hhistory, hsilent⟩ := steps.changes.silent run.ledgerLaws (h.silences run)
  have hreported : world'.bus.history = world.bus.history ++ reported later :=
    (Steps.moves steps run.laws.fresh).history_eq
  have hnotices : reported later = notices :=
    List.append_cancel_left (hreported.symm.trans hhistory)
  rw [queued, List.filterMap_eq_nil_iff]
  intro mark hmark
  split
  next other events origin =>
    rw [if_neg]
    rintro rfl
    exact hsilent events origin (hnotices ▸ mem_reported.mpr hmark)
  next => rfl

/-- Once a consumer was unsubscribed or pruned, or the bus has ended, nothing is put into its feed
any more, whatever tasks still hold on to it. The reader still gets in order what was put there
before. Taking an Unsubscribe, or pruning, leaves the other consumers as they were. -/
theorem Run.unsubscribe_is_final (run : Run settings store? trace world) :
    (∀ id later world', Ended trace world.bus id → Steps world later world' →
      queued id later = [] ∧
      ∀ feed, world'.bus.feed? id = some feed → feed.closed = false →
        received id (trace ++ later) ++ feed.queue = queued id trace ∧
        ∀ batch rest, feed.queue = batch :: rest → (world'.bus.receive id).1 = .batch batch) ∧
    (∀ id rest consumer, consumer.id ≠ id →
      SameStanding world.bus (world.bus.take (.unsubscribe id) rest).land consumer) ∧
    ∀ consumer : Consumer, (world.bus.isRegistered consumer.id = true →
        (world.bus.feed? consumer.id).any (·.closed) = false) →
      SameStanding world.bus world.bus.prune consumer := by
  refine ⟨?_, ?_, fun _ => prune_others⟩
  · intro id later world' hended steps
    have hsilent := hended.silent run steps
    refine ⟨hsilent, fun feed hfeed hopen => ⟨?_, fun batch rest => receive_of_queue hfeed⟩⟩
    have hread : received id (trace ++ later) ++ feed.queue = queued id (trace ++ later) :=
      Run.received_append_queue (run.trans steps) hfeed hopen
    rwa [queued_append, hsilent, List.append_nil] at hread
  · exact fun id rest consumer hne => take_unsubscribe_others world.bus rest hne

end Runs

section Sample

/-- The course of a bus goes on where it has come to. -/
theorem Steps.onward {σ : Type} [Store σ] {first last : World σ} {trace : List Mark}
    (_ : Steps first trace last) : Steps last [] last := .refl last

def leavingTrace : List Mark :=
  [.numbered 1, .sent (.subscribe 1 shortQuery), .sent (.publish (shortBatch 1)),
    .sent (.publish (shortBatch 2)), .sent (.unsubscribe 1), .noted (.started 2 10 false),
    .noted (.took (.subscribe 1 shortQuery)), .noted (.registered ⟨1, shortQuery⟩),
    .noted (.took (.publish (shortBatch 1))),
    .attempted 0 1, .noted (.queued 1 (shortBatch 1) (.live 0)),
    .noted (.took (.publish (shortBatch 2))), .attempted 1 1,
    .noted (.took (.unsubscribe 1)), .noted (.unregistered 1)]

def leftTrace : List Mark := [.received 1 (shortBatch 1), .noted (.abandoned 1 .canceled)]

/-- A consumer leaves while a delivery waits at its full feed, and then reads on. -/
theorem exists_leaving_run : ∃ world world',
    Run ⟨2, 10, 5, 5⟩ (none : Option Recorder) leavingTrace world ∧
      Steps world leftTrace world' ∧
      ∃ feed, world'.bus.feed? 1 = some feed ∧ feed.queue = [] ∧ feed.closed = false := by
  have h : Run ⟨2, 10, 5, 5⟩ (none : Option Recorder) [] _ := Steps.refl _
  have h := h.tail (.subscribe shortQuery 1)
  have h := h.tail (@Step.enter _ _ _ [] _ [] rfl)
  have h := h.tail (.call (.publish (shortBatch 1)) rfl)
  have h := h.tail (@Step.enter _ _ _ [] _ [] rfl)
  have h := h.tail (.call (.publish (shortBatch 2)) rfl)
  have h := h.tail (@Step.enter _ _ _ [] _ [] rfl)
  have h := h.tail (.call (.unsubscribe 1) rfl)
  have h := h.tail (@Step.enter _ _ _ [] _ [] rfl)
  have h := h.tail .start
  have h := h.tail (.begin rfl)
  have h := h.tail (.take rfl rfl)
  have h := h.tail (.take rfl rfl)
  have h := h.tail (@Step.deliver _ _ _ _ 0 _ _ [] _ _ _ rfl)
  have h := h.tail (.take rfl rfl)
  have h := h.tail (@Step.deliver _ _ _ _ 1 _ _ [] _ _ _ rfl)
  have h := h.tail (.take rfl rfl)
  have later := h.onward.tail (@Step.receive _ _ _ _ _ 1 _ rfl)
  have later := later.tail (@Step.deliver _ _ _ _ 1 _ _ [] _ _ _ rfl)
  have later := later.tail (@Step.report _ _ _ _ 1 _ _ _ rfl rfl)
  exact ⟨_, _, h, later, _, rfl, rfl, rfl⟩

theorem nothing_queued_after_leaving :
    queued 1 leavingTrace = [shortBatch 1] ∧ queued 1 leftTrace = [] ∧
      received 1 (leavingTrace ++ leftTrace) = queued 1 leavingTrace := by
  obtain ⟨world, world', run, later, feed, hfeed, hqueue, hopen⟩ := exists_leaving_run
  have hended : Ended leavingTrace world.bus 1 :=
    .unsubscribed (leavingTrace.take 13) (leavingTrace.drop 14) shortQuery rfl
      (List.mem_of_getElem? (i := 6) rfl)
  obtain ⟨hsilent, hread⟩ := run.unsubscribe_is_final.1 1 _ world' hended later
  obtain ⟨hreceived, -⟩ := hread feed hfeed hopen
  rw [hqueue, List.append_nil] at hreceived
  exact ⟨rfl, hsilent, hreceived⟩

end Sample

end EventBus.Bus
