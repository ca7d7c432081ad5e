import EventBus.Proofs.Bus.Finality
import EventBus.Proofs.Bus.Settled

/-!
When a subscription comes to its end. A feed ends for its reader once it is empty and nobody could
put anything into it any more. The registry and the coordinator let go of a consumer that was
unsubscribed, and so does a replay to it, but a fan-out holds on to all its targets until the last
of its deliveries is over: the reader of a feed that nothing more will come to may have to wait
until a delivery to someone else has found room or has timed out.
-/

namespace EventBus.Bus

/-- The Unsubscribe of the consumer was taken from the queue, after its Subscribe. -/
def Unsubscribed (trace : List Mark) (id : ConsumerId) : Prop :=
  ∃ before query after, trace = before ++ .noted (.took (.unsubscribe id)) :: after ∧
    .noted (.took (.subscribe id query)) ∈ before

/-- The task has not let go of the consumer. -/
def Task.Holds (held : Task) (id : ConsumerId) : Prop := ∃ consumer ∈ held.consumers, consumer.id = id

section Jobs

variable {l l' : Ledger}

/-- Who is in the job for which the coordinator waits for a token is registered. -/
def JobLaw (l : Ledger) : Prop :=
  ∀ job deadline, l.coordinator = .acquiring job deadline →
    ∀ consumer ∈ job.consumers, l.isRegistered consumer.id = true

/-- No command is taken, and no one leaves the registry, while the coordinator waits. -/
theorem JobLaw.change (law : JobLaw l) (change : Change l l') : JobLaw l' := by
  cases change with
  | report _ => exact law
  | call change => cases change <;> exact law
  | coordinate change =>
    have hfree : ∀ {l' : Ledger}, l'.coordinator = .receiving → JobLaw l' := by
      intro l' h job deadline hacquiring
      rw [h] at hacquiring
      cases hacquiring
    cases change with
    | start _ | discard _ | stop _ _ => nofun
    | begin _ | redeem _ _ | desist _ => exact hfree rfl
    | publish h _ | known h _ _ | enroll h _ _ | expel h _ _ | ignore h _ _ | prune h _
    | launch h _ _ => exact hfree h
    | ask deadline _ hheld _ =>
      rintro _ _ ⟨⟩
      exact hheld
  | work change =>
    obtain ⟨hregistry, -, hcoordinator⟩ := change.frame
    intro job deadline hacquiring consumer hconsumer
    rw [Ledger.isRegistered, hregistry]
    exact law job deadline (hcoordinator ▸ hacquiring) consumer hconsumer

end Jobs

section Holders

variable {σ : Type} {bus : Bus σ} {id : ConsumerId} {task : TaskId} {held : Task}

theorem receive_of_empty {feed : Feed} (h : bus.feed? id = some feed) (hqueue : feed.queue = []) :
    (bus.receive id).1 = if bus.hasSender id then .pending else .ended := by
  simp [receive, h, Feed.pop?, hqueue]

variable [Store σ]

/-- A consumer that is cancelled is given up by its replay, unless that waits for the store, and
by no fan-out before the deliveries to the other targets are over. -/
theorem Settled.holds_canceled (settled : Settled bus) (laws : LedgerLaws bus.ledger)
    (hcanceled : bus.isCanceled id = true) (h : bus.tasks.lookup task = some held)
    (hholds : held.Holds id) :
    (∃ publish batch legs, held = .fanOut publish batch legs ∧
      (∀ entry ∈ legs, entry.1.id = id → entry.2.isDone = true) ∧
      ∃ entry ∈ legs, entry.2.isDone = false ∧ entry.1.id ≠ id ∧ bus.HasFullFeed entry.1.id) ∨
    ∃ consumer, consumer.id = id ∧ held = .replay consumer .starting := by
  have hover : ∀ entry ∈ held.legs, entry.1.id = id → entry.2.isDone = true := by
    rintro ⟨consumer, leg⟩ hleg rfl
    by_contra hgoes
    obtain ⟨-, feed, -, -, hgoing, -⟩ := settled.heldUp h hleg (Bool.eq_false_iff.mpr hgoes)
    rw [hcanceled] at hgoing
    cases hgoing
  cases held with
  | fanOut publish batch legs =>
    obtain ⟨entry, hentry, hgoes⟩ := settled.exists_not_done h
    refine Or.inl ⟨publish, batch, legs, rfl, hover, entry, hentry, hgoes, ?_, ?_⟩
    · intro hid
      rw [hover entry hentry hid] at hgoes
      cases hgoes
    · exact settled.hasFullFeed laws h hentry hgoes
  | replay consumer phase =>
    obtain ⟨_, hmem, hid⟩ := hholds
    cases List.mem_singleton.mp hmem
    cases phase with
    | starting => exact Or.inr ⟨consumer, hid, rfl⟩
    | taking rest sent =>
      obtain ⟨-, hgoing⟩ := settled.stream_open h
      rw [hid, hcanceled] at hgoing
      cases hgoing
    | sending selected deadline rest sent => cases hover _ (List.mem_singleton_self _) hid

end Holders

section Runs

variable {σ : Type} [Store σ] {settings : Settings} {store? : Option σ} {trace : List Mark}
  {world : World σ} {id : ConsumerId} {feed : Feed}

theorem Run.jobLaw (run : Run settings store? trace world) : JobLaw world.bus.ledger :=
  run.changes.invariant nofun JobLaw.change

namespace Unsubscribed

/-- The one Subscribe of the consumer lies before its Unsubscribe. -/
theorem not_registered (h : Unsubscribed trace id) (run : Run settings store? trace world) :
    world.bus.isRegistered id = false := by
  by_contra hregistered
  rw [Bool.not_eq_false] at hregistered
  obtain ⟨consumer, hmem, rfl⟩ := isRegistered_iff (l := world.bus.ledger).mp hregistered
  have laws := run.laws
  cases hgone : world.bus.coordinator.isGone with
  | true =>
    have hnone : world.bus.registry = [] := (run.ledgerLaws.standing.gone hgone).1
    have hmem : consumer ∈ world.bus.registry := hmem
    rw [hnone] at hmem
    cases hmem
  | false =>
    obtain ⟨before, query, after, rfl, hsubscribed⟩ := h
    obtain ⟨before', query', after', htrace, -, hstays, -⟩ :=
      (laws.registry.enrolled hgone consumer).mp hmem
    rcases append_eq_append_cons htrace with ⟨kept, -, rfl⟩ | ⟨skipped, -, hlater⟩
    · exact hstays (List.mem_append_right _ List.mem_cons_self)
    · refine not_subscribed_again laws.queue laws.number (mem_taken.mpr hsubscribed) query' ?_
      rw [mem_taken, hlater]
      exact List.mem_append_right _ List.mem_cons_self

theorem not_pending (h : Unsubscribed trace id) (run : Run settings store? trace world) :
    (world.bus.pendingJob?).any (fun job => job.consumers.any (·.id == id)) = false := by
  have hnot := h.not_registered run
  by_contra hpending
  rw [Bool.not_eq_false, Option.any_eq_true] at hpending
  obtain ⟨job, hjob, hany⟩ := hpending
  obtain ⟨consumer, hconsumer, hid⟩ := List.any_eq_true.mp hany
  unfold pendingJob? at hjob
  split at hjob
  next acquired deadline hacquiring =>
    cases hjob
    have hregistered : world.bus.isRegistered consumer.id = true :=
      run.jobLaw _ _ hacquiring consumer hconsumer
    rw [beq_iff_eq.mp hid, hnot] at hregistered
    cases hregistered
  next => cases hjob

theorem not_queued (h : Unsubscribed trace id) (run : Run settings store? trace world) :
    world.bus.isQueued id = false := by
  obtain ⟨before, query, after, rfl, hsubscribed⟩ := h
  have laws := run.laws
  by_contra hqueued
  rw [Bool.not_eq_false, isQueued, List.any_eq_true] at hqueued
  obtain ⟨command, hcommand, hid⟩ := hqueued
  cases hgone : world.bus.coordinator.isGone with
  | true =>
    have hnone : world.bus.commands = [] := (run.ledgerLaws.standing.gone hgone).2
    rw [hnone] at hcommand
    cases hcommand
  | false =>
    have honce := (List.nodup_append'.mp laws.number.once).1
    rw [subscribers, ← laws.queue.queued hgone, List.filterMap_append] at honce
    have htaken : id ∈ (taken (before ++ .noted (.took (.unsubscribe id)) :: after)).filterMap
        Command.subscriber? := by
      refine List.mem_filterMap.mpr ⟨.subscribe id query, ?_, rfl⟩
      exact mem_taken.mpr (List.mem_append_left _ hsubscribed)
    have hwaits : id ∈ world.bus.commands.filterMap Command.subscriber? := by
      refine List.mem_filterMap.mpr ⟨command, hcommand, ?_⟩
      cases command with
      | subscribe other _ => exact congrArg some (beq_iff_eq.mp hid)
      | publish _ | unsubscribe _ => cases hid
    exact (List.nodup_append'.mp honce).2.2 htaken hwaits

/-- Only a task may still hold on to a consumer that was unsubscribed. -/
theorem hasSender_iff (h : Unsubscribed trace id) (run : Run settings store? trace world) :
    world.bus.hasSender id = true ↔ ∃ entry ∈ world.bus.tasks, entry.2.Holds id := by
  simp only [hasSender, isHeld, h.not_registered run, h.not_pending run, h.not_queued run,
    Bool.false_or, Bool.or_false, List.any_eq_true, Task.Holds, beq_iff_eq]

end Unsubscribed

/-- The reader of an empty feed whose consumer was unsubscribed has to wait as long as a task holds
on to the consumer, and comes to the end after that. When no party can go on, such a task is a
fan-out that is done with the consumer and has a delivery to another one left, whose feed is full,
or the replay to the consumer, whose read the store has not answered. So the reader comes to the
end if the store has answered its calls and the feed of no other consumer is full. -/
theorem Run.drained_feed_ends (run : Run settings store? trace world)
    (settled : Settled world.bus) (hleft : Unsubscribed trace id)
    (hfeed : world.bus.feed? id = some feed) (hqueue : feed.queue = []) :
    ((world.bus.receive id).1 = .pending ∧ (∃ entry ∈ world.bus.tasks, entry.2.Holds id) ∨
      (world.bus.receive id).1 = .ended ∧ ∀ entry ∈ world.bus.tasks, ¬entry.2.Holds id) ∧
    (∀ entry ∈ world.bus.tasks, entry.2.Holds id →
      (∃ publish batch legs, entry.2 = .fanOut publish batch legs ∧
        (∀ leg ∈ legs, leg.1.id = id → leg.2.isDone = true) ∧
        ∃ leg ∈ legs, leg.2.isDone = false ∧ leg.1.id ≠ id ∧ world.bus.HasFullFeed leg.1.id) ∨
      ∃ consumer, consumer.id = id ∧ entry.2 = .replay consumer .starting) ∧
    (Answered world.bus → (∀ other, other ≠ id → ¬world.bus.HasFullFeed other) →
      (world.bus.receive id).1 = .ended) := by
  have laws := run.ledgerLaws
  obtain ⟨before, query, after, htrace, hsubscribed⟩ := hleft
  have hcanceled : world.bus.isCanceled id = true :=
    run.isCanceled_of_unsubscribed htrace hsubscribed
  have hsender := Unsubscribed.hasSender_iff ⟨before, query, after, htrace, hsubscribed⟩ run
  have hreceive := receive_of_empty hfeed hqueue
  have hlookup : ∀ entry ∈ world.bus.tasks, world.bus.tasks.lookup entry.1 = some entry.2 :=
    fun _ => lookup_of_mem laws.tokens.distinct
  have hholders := fun entry hentry =>
    settled.holds_canceled laws hcanceled (hlookup entry hentry)
  have hends : (∀ entry ∈ world.bus.tasks, ¬entry.2.Holds id) →
      (world.bus.receive id).1 = .ended := by
    intro hnone
    rw [hreceive, if_neg]
    rw [hsender]
    exact fun ⟨entry, hentry, hholds⟩ => hnone entry hentry hholds
  refine ⟨?_, hholders, fun answered hroom => hends fun entry hentry hholds => ?_⟩
  · by_cases hheld : ∃ entry ∈ world.bus.tasks, entry.2.Holds id
    · refine Or.inl ⟨?_, hheld⟩
      rw [hreceive, if_pos (hsender.mpr hheld)]
    · have hnone : ∀ entry ∈ world.bus.tasks, ¬entry.2.Holds id :=
        fun entry hentry hholds => hheld ⟨entry, hentry, hholds⟩
      exact Or.inr ⟨hends hnone, hnone⟩
  · rcases hholders entry hentry hholds with
      ⟨_, _, legs, -, -, leg, -, -, hother, hfull⟩ | ⟨consumer, -, hstarting⟩
    · exact hroom leg.1.id hother hfull
    · exact answered.not_starting (hstarting ▸ hlookup entry hentry)

end Runs

section Sample

def drainedTrace : List Mark :=
  [.numbered 1, .sent (.subscribe 1 shortQuery), .sent (.publish (shortBatch 1)),
    .numbered 2, .sent (.subscribe 2 shortQuery), .sent (.publish (shortBatch 2)),
    .sent (.unsubscribe 2), .noted (.started 2 10 false),
    .noted (.took (.subscribe 1 shortQuery)), .noted (.registered ⟨1, shortQuery⟩),
    .noted (.took (.publish (shortBatch 1))),
    .attempted 0 1, .noted (.queued 1 (shortBatch 1) (.live 0)), .noted (.delivered 1 1),
    .noted (.took (.subscribe 2 shortQuery)), .noted (.registered ⟨2, shortQuery⟩),
    .noted (.took (.publish (shortBatch 2))),
    .attempted 1 1, .attempted 1 2, .noted (.queued 2 (shortBatch 2) (.live 1)),
    .noted (.took (.unsubscribe 2)), .noted (.unregistered 2), .received 2 (shortBatch 2)]

theorem drainedTrace_unsubscribed : Unsubscribed drainedTrace 2 :=
  ⟨drainedTrace.take 20, shortQuery, drainedTrace.drop 21, rfl,
    List.mem_of_getElem? (i := 14) rfl⟩

def drainedBus : Bus Recorder :=
  { create ⟨2, 10, 5, 5⟩ none with
    nextId := 3
    coordinator := .receiving
    publishes := 2
    registry := [⟨1, shortQuery⟩]
    audience := [1, 2]
    feeds :=
      [(1, ⟨[shortBatch 1], ⟨0, [1], []⟩, false, false, [1]⟩), (2, ⟨[], ⟨8, [], []⟩, false, true, []⟩)]
    pool := ⟨2, ⟨1, [], []⟩⟩
    tasks :=
      [(1, .fanOut 1 (shortBatch 2)
        [(⟨1, shortQuery⟩, .waiting (shortBatch 2) 5), (⟨2, shortQuery⟩, .done (.delivered 1))])]
    nextTask := 2
    ready := [.coordinator, .task 0, .task 1]
    timers := [(5, .task 1)]
    history := reported drainedTrace }

/-- The bus once the commands have entered the queue. -/
def queuedBus : Bus Recorder :=
  { create ⟨2, 10, 5, 5⟩ none with
    nextId := 3
    commands :=
      [.subscribe 1 shortQuery, .publish (shortBatch 1), .subscribe 2 shortQuery,
        .publish (shortBatch 2), .unsubscribe 2]
    feeds := [(1, .ofPlaces 1), (2, .ofPlaces 8)] }

theorem queued_run : Run ⟨2, 10, 5, 5⟩ none (drainedTrace.take 7) ⟨queuedBus, []⟩ := by
  have h : Run ⟨2, 10, 5, 5⟩ (none : Option Recorder) [] _ := Steps.refl _
  have h := h.tail (.subscribe shortQuery 1)
  have h := h.tail (@Step.enter _ _ _ [] _ [] rfl)
  have h := h.tail (.call (.publish (shortBatch 1)) rfl)
  have h := h.tail (@Step.enter _ _ _ [] _ [] rfl)
  have h := h.tail (.subscribe shortQuery 8)
  have h := h.tail (@Step.enter _ _ _ [] _ [] rfl)
  have h := h.tail (.call (.publish (shortBatch 2)) rfl)
  have h := h.tail (@Step.enter _ _ _ [] _ [] rfl)
  have h := h.tail (.call (.unsubscribe 2) rfl)
  have h := h.tail (@Step.enter _ _ _ [] _ [] rfl)
  exact h

/-- A consumer leaves and reads the batch that it was given, while the delivery of the same batch
to another consumer waits for room. -/
theorem drained_run : Run ⟨2, 10, 5, 5⟩ none drainedTrace ⟨drainedBus, []⟩ := by
  have h := queued_run.onward
  have h := h.tail .start
  have h := h.tail (.begin rfl)
  have h := h.tail (.take rfl rfl)
  have h := h.tail (.take rfl rfl)
  have h := h.tail (@Step.deliver _ _ _ _ 0 _ _ [] _ _ _ rfl)
  have h := h.tail (@Step.report _ _ _ _ 0 _ _ _ rfl rfl)
  have h := h.tail (.take rfl rfl)
  have h := h.tail (.take rfl rfl)
  have h := h.tail (@Step.deliver _ _ _ _ 1 _ _ [] _ _ _ rfl)
  have h := h.tail (@Step.deliver _ _ _ _ 1 _ _ [_] _ _ _ rfl)
  have h := h.tail (.take rfl rfl)
  have h := h.tail (@Step.receive _ _ _ _ _ 2 _ rfl)
  exact Steps.trans queued_run h

theorem drainedBus_settled : Settled drainedBus := by
  refine settled_of_waiting nofun (fun _ => ⟨rfl, rfl, nofun⟩) nofun rfl rfl ?_
  intro seen consumer leg after hlegs
  -- the delivery to the first target waits, that to the second is over
  rcases seen with _ | ⟨first, _ | ⟨second, seen⟩⟩
  · cases hlegs
    rfl
  · cases hlegs
    rfl
  · cases seen <;> cases hlegs

theorem drainedBus_answered : Answered drainedBus :=
  answered_of_waiting (fun _ => rfl) rfl

theorem drained_feed_not_ended :
    ¬ ∀ (settings : Settings) (store? : Option Recorder) (trace : List Mark)
      (world : World Recorder) (id : ConsumerId) (feed : Feed),
      Run settings store? trace world → Settled world.bus → Answered world.bus →
      Unsubscribed trace id → world.bus.feed? id = some feed → feed.closed = false →
      feed.queue = [] → (world.bus.receive id).1 = .ended := by
  intro h
  have hended : (drainedBus.receive 2).1 = .ended :=
    h _ _ _ _ 2 _ drained_run drainedBus_settled drainedBus_answered drainedTrace_unsubscribed
      rfl rfl rfl
  have hpending : (drainedBus.receive 2).1 = .pending := rfl
  rw [hpending] at hended
  cases hended

/-- What keeps the reader waiting is the delivery to the other consumer. -/
theorem drained_feed_held_by_other :
    (drainedBus.receive 2).1 = .pending ∧ ∃ other, other ≠ 2 ∧ drainedBus.HasFullFeed other := by
  obtain ⟨-, -, hends⟩ :=
    drained_run.drained_feed_ends drainedBus_settled drainedTrace_unsubscribed rfl rfl
  refine ⟨rfl, ?_⟩
  by_contra hnone
  have hended := hends drainedBus_answered fun other hother hfull => hnone ⟨other, hother, hfull⟩
  cases hended

end Sample

end EventBus.Bus
