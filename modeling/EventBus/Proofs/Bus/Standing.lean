import EventBus.Proofs.Bus.Accounts
import EventBus.Proofs.Bus.Registration

/-!
Who may still be given something. A consumer that a task or the coordinator holds on to is in the
registry or has been cancelled, and leaves the registry only by being cancelled; nothing undoes
a cancellation, and a cancelled consumer is given nothing. The reports tell who was subscribed,
and for whom that is over.
-/

namespace EventBus.Bus

namespace Ledger

/-- The consumer is registered, or has been cancelled. -/
def Covers (l : Ledger) (id : ConsumerId) : Prop :=
  l.isRegistered id = true ∨ l.isCanceled id = true

end Ledger

structure StandingLaw (l : Ledger) : Prop where
  roomed : ∀ id, l.isRegistered id = true → (l.room id).isSome = true
  announced : ∀ id query, .subscribe id query ∈ l.commands → (l.room id).isSome = true
  working : ∀ entry ∈ l.tasks, ∀ consumer ∈ entry.2.consumers, l.Covers consumer.id
  pending : ∀ job deadline, l.coordinator = .acquiring job deadline →
    ∀ consumer ∈ job.consumers, l.Covers consumer.id
  unbegun : l.coordinator = .idle ∨ l.coordinator = .starting → l.registry = []
  gone : l.coordinator.isGone = true → l.registry = [] ∧ l.commands = []

/-- What the reports say of who was subscribed. -/
structure RecordLaw (l : Ledger) : Prop where
  taken : ∀ id query, .took (.subscribe id query) ∈ l.history → l.Covers id
  left : ∀ before id after, l.history = before ++ .took (.unsubscribe id) :: after →
    (∃ query, .took (.subscribe id query) ∈ before) → l.isCanceled id = true
  pruned : ∀ id, .pruned id ∈ l.history → l.isCanceled id = true

variable {l l' : Ledger} {id : ConsumerId}

section Cancellation

theorem isRegistered_iff : l.isRegistered id = true ↔ ∃ consumer ∈ l.registry, consumer.id = id := by
  simp [Ledger.isRegistered]

theorem isRegistered_expel {other : ConsumerId} :
    (l.expel id).isRegistered other = true ↔ l.isRegistered other = true ∧ other ≠ id := by
  simp only [isRegistered_iff, Ledger.expel, Ledger.setRegistry_registry, List.mem_filter,
    bne_iff_ne]
  constructor
  · rintro ⟨consumer, ⟨hmem, hne⟩, rfl⟩
    exact ⟨⟨consumer, hmem, rfl⟩, hne⟩
  · rintro ⟨⟨consumer, hmem, rfl⟩, hne⟩
    exact ⟨consumer, ⟨hmem, hne⟩, rfl⟩

theorem isCanceled_cancel (ids : ConsumerId → Bool) (h : l.isCanceled id = true) :
    (l.cancel ids).isCanceled id = true := by
  rw [Ledger.cancel_isCanceled, h, Bool.true_or]

theorem isCanceled_expel {other : ConsumerId} (h : l.isCanceled other = true) :
    (l.expel id).isCanceled other = true :=
  isCanceled_cancel (· == id) h

theorem isCanceled_expel_self (hroom : (l.room id).isSome = true) :
    (l.expel id).isCanceled id = true := by
  simp [Ledger.expel, hroom]

theorem isCanceled_expel_of_ne {other : ConsumerId} (h : other ≠ id) :
    (l.expel id).isCanceled other = l.isCanceled other := by
  simp [Ledger.expel, h]

/-- Nothing undoes a cancellation. -/
theorem Change.canceled (change : Change l l') (h : l.isCanceled id = true) :
    l'.isCanceled id = true := by
  cases change with
  | report _ => exact h
  | call change =>
      cases change with
      | cancel => rfl
      | _ => exact h
  | coordinate change =>
      cases change with
      | stop _ result => exact isCanceled_cancel l.isRegistered h
      | expel _ _ _ => exact isCanceled_expel h
      | @prune pruned _ _ =>
          show (l.expel pruned).isCanceled id = true
          exact isCanceled_expel h
      | _ => exact h
  | work change =>
      cases change with
      | look _ _ hlook =>
          rw [hlook.eq]
          exact h
      | _ => exact h

theorem covers_expel {other : ConsumerId} (hroom : (l.room id).isSome = true)
    (h : l.Covers other) : (l.expel id).Covers other := by
  by_cases hother : other = id
  · rw [hother]
    exact Or.inr (isCanceled_expel_self hroom)
  · rcases h with h | h
    · exact Or.inl (isRegistered_expel.mpr ⟨h, hother⟩)
    · exact Or.inr (isCanceled_expel h)

/-- Who leaves the registry is cancelled. -/
theorem Change.covers (change : Change l l') (standing : StandingLaw l) (h : l.Covers id) :
    l'.Covers id := by
  rcases h with hregistered | hcanceled
  case inr => exact Or.inr (change.canceled hcanceled)
  have h : l.Covers id := Or.inl hregistered
  cases change with
  | report _ => exact h
  | call change =>
      cases change with
      | cancel => exact Or.inr rfl
      | _ => exact h
  | coordinate change =>
      cases change with
      | @enroll id' query rest consumer _ _ _ =>
          obtain ⟨other, hmem, hid⟩ := isRegistered_iff.mp hregistered
          refine Or.inl (isRegistered_iff.mpr ⟨other, ?_, hid⟩)
          exact (insertConsumer_perm consumer l.registry).mem_iff.mpr (List.mem_cons_of_mem _ hmem)
      | stop _ result =>
          exact Or.inr (by simp [Ledger.stop, hregistered, standing.roomed id hregistered])
      | expel _ _ hexpelled => exact covers_expel (standing.roomed _ hexpelled) h
      | prune _ hroom => exact covers_expel hroom h
      | _ => exact h
  | work change =>
      cases change with
      | look _ _ hlook =>
          rw [hlook.eq]
          exact h
      | _ => exact h

end Cancellation

section Standing

/-- A task holds on to the same consumers until it ends. -/
theorem TaskChange.consumers (change : TaskChange l l') :
    ∀ entry ∈ l'.tasks, ∃ earlier ∈ l.tasks, entry.2.consumers = earlier.2.consumers := by
  have hset : ∀ {task held held'}, l.tasks.lookup task = some held →
      held'.consumers = held.consumers →
      ∀ entry ∈ (l.setTask task held').tasks,
        ∃ earlier ∈ l.tasks, entry.2.consumers = earlier.2.consumers := by
    intro task held held' h hconsumers entry hentry
    obtain ⟨earlier, hearlier, rfl⟩ := List.mem_map.mp hentry
    split
    · exact ⟨(task, held), mem_of_lookup h, hconsumers⟩
    · exact ⟨earlier, hearlier, rfl⟩
  cases change with
  | @look task held held' _ _ _ _ looked h hturn hlook =>
      have hsame : (looked.setTask task held').tasks = (l.setTask task held').tasks := by
        rw [hlook.eq]
        rfl
      rw [hsame]
      exact hset h hturn.consumers
  | proceed h hnext => exact hset h hnext.consumers
  | finish _ _ => exact fun entry hentry => ⟨entry, List.mem_of_mem_filter hentry, rfl⟩

theorem TaskChange.frame (change : TaskChange l l') :
    l'.registry = l.registry ∧ l'.commands = l.commands ∧ l'.coordinator = l.coordinator := by
  cases change with
  | look _ _ hlook =>
      rw [hlook.eq]
      exact ⟨rfl, rfl, rfl⟩
  | proceed _ _ | finish _ _ => exact ⟨rfl, rfl, rfl⟩

/-- Registry and coordinator stay as they are, and no task holds on to a new consumer. -/
theorem StandingLaw.frame (law : StandingLaw l) (change : Change l l')
    (hregistry : l'.registry = l.registry) (hcoordinator : l'.coordinator = l.coordinator)
    (hannounced : ∀ id query, .subscribe id query ∈ l'.commands →
      .subscribe id query ∈ l.commands ∨ (l'.room id).isSome = true)
    (hcommands : l.coordinator.isGone = true → l'.commands = l.commands)
    (hconsumers : ∀ entry ∈ l'.tasks, ∃ earlier ∈ l.tasks,
      entry.2.consumers = earlier.2.consumers) : StandingLaw l' where
  roomed id hid :=
    (change.roomStep id).isSome (law.roomed id (by rwa [Ledger.isRegistered, hregistry] at hid))
  announced id query hmem := by
    rcases hannounced id query hmem with hmem | hroom
    · exact (change.roomStep id).isSome (law.announced id query hmem)
    · exact hroom
  working entry hentry consumer hconsumer := by
    obtain ⟨earlier, hearlier, hsame⟩ := hconsumers entry hentry
    exact change.covers law (law.working earlier hearlier consumer (hsame ▸ hconsumer))
  pending job deadline h consumer hconsumer :=
    change.covers law (law.pending job deadline (hcoordinator ▸ h) consumer hconsumer)
  unbegun := by
    rw [hcoordinator, hregistry]
    exact law.unbegun
  gone hgone := by
    rw [hcoordinator] at hgone
    rw [hregistry, hcommands hgone]
    exact law.gone hgone

theorem StandingLaw.call (law : StandingLaw l) (change : CallChange l l') : StandingLaw l' := by
  have step : Change l l' := .call change
  have hsame : ∀ entry ∈ l.tasks, ∃ earlier ∈ l.tasks, entry.2.consumers = earlier.2.consumers :=
    fun entry hentry => ⟨entry, hentry, rfl⟩
  cases change with
  | send h hcommand =>
      refine law.frame step rfl rfl ?_ (fun hgone => absurd hgone (by simp [h])) hsame
      intro id query hmem
      rcases List.mem_append.mp hmem with hmem | hmem
      · exact Or.inl hmem
      · exact absurd (List.mem_singleton.mp hmem).symm (hcommand id query)
  | subscribe h places =>
      refine law.frame step rfl rfl ?_ (fun hgone => absurd hgone (by simp [h])) hsame
      intro id query hmem
      rcases List.mem_append.mp hmem with hmem | hmem
      · exact Or.inl hmem
      · cases List.mem_singleton.mp hmem
        exact Or.inr (by simp)
  | receive _ | close _ | cancel =>
      exact law.frame step rfl rfl (fun _ _ => Or.inl) (fun _ => rfl) hsame

/-- The coordinator is free to take a command afterwards. -/
theorem StandingLaw.receiving (law : StandingLaw l) (change : CoordinatorChange l l')
    (h : l'.coordinator = .receiving)
    (hroomed : ∀ id, l'.isRegistered id = true → (l.room id).isSome = true)
    (hcommands : l'.commands ⊆ l.commands)
    (hworking : ∀ entry ∈ l'.tasks, entry ∈ l.tasks ∨
      ∀ consumer ∈ entry.2.consumers, l.Covers consumer.id) : StandingLaw l' where
  roomed id hid := ((Change.coordinate change).roomStep id).isSome (hroomed id hid)
  announced id query hmem :=
    ((Change.coordinate change).roomStep id).isSome (law.announced id query (hcommands hmem))
  working entry hentry consumer hconsumer := by
    refine (Change.coordinate change).covers law ?_
    rcases hworking entry hentry with hentry | hcovers
    · exact law.working entry hentry consumer hconsumer
    · exact hcovers consumer hconsumer
  pending job deadline hpending := by
    rw [h] at hpending
    cases hpending
  unbegun hunbegun := by
    rw [h] at hunbegun
    rcases hunbegun with hunbegun | hunbegun <;> cases hunbegun
  gone hgone := by
    rw [h] at hgone
    cases hgone

theorem consumers_task (job : Job) : job.task.consumers = job.consumers := by
  cases job with
  | fanOut publish batch targets =>
      simp [Job.task, Job.consumers, Task.consumers, Function.comp_def]
  | replay consumer => rfl

/-- A new task holds on to the consumers of its job. -/
theorem covers_spawned {job : Job}
    (hjob : ∀ consumer ∈ job.consumers, l.Covers consumer.id) :
    ∀ entry ∈ l.tasks ++ [(l.nextTask, job.task)], entry ∈ l.tasks ∨
      ∀ consumer ∈ entry.2.consumers, l.Covers consumer.id := by
  intro entry hentry
  rcases List.mem_append.mp hentry with hentry | hentry
  · exact Or.inl hentry
  · rw [List.mem_singleton.mp hentry, consumers_task]
    exact Or.inr hjob

theorem StandingLaw.coordinate (law : StandingLaw l) (change : CoordinatorChange l l') :
    StandingLaw l' := by
  have step := change
  have hrest : ∀ {command rest}, l.commands = command :: rest → rest ⊆ l.commands := by
    intro command rest hcommands
    rw [hcommands]
    exact List.subset_cons_self command rest
  cases change with
  | start h =>
      exact ⟨law.roomed, law.announced, law.working, nofun, fun _ => law.unbegun (Or.inl h), nofun⟩
  | discard h =>
      exact ⟨law.roomed, nofun, law.working, nofun, nofun, fun _ => ⟨law.unbegun (Or.inl h), rfl⟩⟩
  | stop h result =>
      refine ⟨nofun, nofun, ?_, nofun, nofun, fun _ => ⟨rfl, rfl⟩⟩
      exact fun entry hentry consumer hconsumer =>
        (Change.coordinate step).covers law (law.working entry hentry consumer hconsumer)
  | ask deadline h hheld hnone =>
      refine ⟨law.roomed, law.announced, law.working, ?_, nofun, nofun⟩
      rintro _ _ ⟨⟩ consumer hconsumer
      exact Or.inl (hheld consumer hconsumer)
  | begin h =>
      exact law.receiving step rfl law.roomed (List.Subset.refl _) fun _ => Or.inl
  | publish h hcommands | known h hcommands _ | ignore h hcommands _ =>
      exact law.receiving step h law.roomed (hrest hcommands) fun _ => Or.inl
  | @enroll id query rest consumer h hcommands hid =>
      refine law.receiving step h ?_ (hrest hcommands) fun _ => Or.inl
      intro other hother
      obtain ⟨registered, hmem, rfl⟩ := isRegistered_iff.mp hother
      rcases List.mem_cons.mp ((insertConsumer_perm consumer l.registry).mem_iff.mp hmem)
        with rfl | hmem
      · exact hid ▸ law.announced id query (by simp [hcommands])
      · exact law.roomed _ (isRegistered_iff.mpr ⟨registered, hmem, rfl⟩)
  | expel h hcommands _ =>
      refine law.receiving step h ?_ (hrest hcommands) fun _ => Or.inl
      exact fun other hother => law.roomed other (isRegistered_expel.mp hother).1
  | prune h _ =>
      refine law.receiving step h ?_ (List.Subset.refl _) fun _ => Or.inl
      exact fun other hother => law.roomed other (isRegistered_expel.mp hother).1
  | launch h hheld htoken =>
      refine law.receiving step h law.roomed (List.Subset.refl _) (covers_spawned ?_)
      exact fun consumer hconsumer => Or.inl (hheld consumer hconsumer)
  | redeem h hkept =>
      exact law.receiving step rfl law.roomed (List.Subset.refl _)
        (covers_spawned (law.pending _ _ h))
  | desist h =>
      exact law.receiving step rfl law.roomed (List.Subset.refl _) fun _ => Or.inl

theorem StandingLaw.change (law : StandingLaw l) (change : Change l l') : StandingLaw l' := by
  cases change with
  | report _ => exact ⟨law.roomed, law.announced, law.working, law.pending, law.unbegun, law.gone⟩
  | call change => exact law.call change
  | coordinate change => exact law.coordinate change
  | work change =>
      obtain ⟨hregistry, hcommands, hcoordinator⟩ := change.frame
      refine law.frame (.work change) hregistry hcoordinator ?_ (fun _ => hcommands) change.consumers
      exact fun id query hmem => Or.inl (hcommands ▸ hmem)

/-- A consumer that a task holds on to is registered unless it has been cancelled. -/
theorem StandingLaw.isRegistered {task : TaskId} {held : Task} {consumer : Consumer}
    (law : StandingLaw l) (h : l.tasks.lookup task = some held)
    (hconsumer : consumer ∈ held.consumers) (hcanceled : l.isCanceled consumer.id = false) :
    l.isRegistered consumer.id = true :=
  (law.working _ (mem_of_lookup h) consumer hconsumer).resolve_right (by simp [hcanceled])

end Standing

section Record

namespace Notice

/-- Reports that do not tell who is subscribed. -/
def isMute : Notice → Bool
  | .queued .. => true
  | notice => notice.isQuiet

end Notice

/-- What is reported of a change is borne out by it. -/
structure Bears (l l' : Ledger) (notices : List Notice) : Prop where
  taken : ∀ id query, .took (.subscribe id query) ∈ notices → l'.Covers id
  left : ∀ before id after, notices = before ++ .took (.unsubscribe id) :: after →
    before = [] ∧ (l.Covers id → l'.isCanceled id = true)
  pruned : ∀ id, .pruned id ∈ notices → l'.isCanceled id = true

variable {notices : List Notice}

theorem Bears.mute (h : ∀ notice ∈ notices, notice.isMute = true) : Bears l l' notices where
  taken _ _ hmem := by cases h _ hmem
  left before id after hnotices := by
    cases h _ (hnotices ▸ List.mem_append_right before List.mem_cons_self)
  pruned _ hmem := by cases h _ hmem

theorem Bears.single {notice : Notice}
    (htaken : ∀ id query, notice = .took (.subscribe id query) → l'.Covers id)
    (hleft : ∀ id, notice = .took (.unsubscribe id) → l.Covers id → l'.isCanceled id = true)
    (hpruned : ∀ id, notice = .pruned id → l'.isCanceled id = true) : Bears l l' [notice] where
  taken id query hmem := htaken id query (List.mem_singleton.mp hmem).symm
  left before id after hnotices := by
    cases before with
    | nil =>
        obtain ⟨rfl, -⟩ := List.cons_eq_cons.mp hnotices
        exact ⟨rfl, hleft id rfl⟩
    | cons _ _ => simp at hnotices
  pruned id hmem := hpruned id (List.mem_singleton.mp hmem).symm

theorem Notice.isMute_of_isQuiet {notice : Notice} (h : notice.isQuiet = true) :
    notice.isMute = true := by
  cases notice with
  | queued _ _ _ => rfl
  | _ => exact h

theorem isMute_of_put {put : List (List Event)} {origin : Origin} :
    ∀ notice ∈ put.map (Notice.queued id · origin), notice.isMute = true := by
  intro notice hnotice
  obtain ⟨events, -, rfl⟩ := List.mem_map.mp hnotice
  rfl

theorem CoordinatorChange.bears (change : CoordinatorChange l l') (standing : StandingLaw l) :
    ∃ notices, l'.history = l.history ++ notices ∧ Bears l l' notices := by
  cases change with
  | start _ | begin _ | discard _ | ask _ _ _ _ | launch _ _ _ | redeem _ _ | desist _ =>
      exact ⟨[], (List.append_nil _).symm, .mute nofun⟩
  | stop _ _ => exact ⟨_, rfl, .mute (by simp [Notice.isMute, Notice.isQuiet])⟩
  | publish _ _ => exact ⟨_, rfl, .mute (by simp [Notice.isMute, Notice.isQuiet])⟩
  | known _ _ hregistered =>
      refine ⟨_, rfl, .single ?_ nofun nofun⟩
      rintro _ _ ⟨⟩
      exact Or.inl hregistered
  | @enroll id query rest consumer _ _ hid =>
      refine ⟨_, rfl, .single ?_ nofun nofun⟩
      rintro _ _ ⟨⟩
      have hmem := (insertConsumer_perm consumer l.registry).mem_iff.mpr List.mem_cons_self
      exact Or.inl (isRegistered_iff.mpr ⟨consumer, hmem, hid⟩)
  | expel _ _ hregistered =>
      refine ⟨_, rfl, .single nofun ?_ nofun⟩
      rintro _ ⟨⟩ -
      exact isCanceled_expel_self (standing.roomed _ hregistered)
  | ignore _ _ hnot =>
      refine ⟨_, rfl, .single nofun ?_ nofun⟩
      rintro _ ⟨⟩ hcovers
      exact hcovers.resolve_left (by simp [hnot])
  | prune _ hroom =>
      refine ⟨_, rfl, .single nofun nofun ?_⟩
      rintro _ ⟨⟩
      exact isCanceled_expel_self hroom

/-- Every change reports what it does to the standing of consumers, and no more than that. -/
theorem Change.bears (change : Change l l') (standing : StandingLaw l) :
    ∃ notices, l'.history = l.history ++ notices ∧ Bears l l' notices := by
  have hsilent : l.history = l.history ++ [] := (List.append_nil _).symm
  cases change with
  | report h => exact ⟨_, rfl, .mute fun notice hmem => Notice.isMute_of_isQuiet (h notice hmem)⟩
  | call change => cases change <;> exact ⟨[], hsilent, .mute nofun⟩
  | coordinate change => exact change.bears standing
  | work change =>
      cases change with
      | proceed _ _ | finish _ _ => exact ⟨[], hsilent, .mute nofun⟩
      | look _ _ hlook =>
          cases hlook with
          | ended _ _ | without _ _ => exact ⟨[], hsilent, .mute nofun⟩
          | within _ _ => exact ⟨_, rfl, .mute isMute_of_put⟩

theorem Look.not_canceled {task : TaskId} {canceled : Bool} {room room' : Room} {leg leg' : Leg}
    {put : List (List Event)} {events : List Event}
    (hlook : Look task canceled room leg leg' room' put) (h : events ∈ put) : canceled = false := by
  cases hlook with
  | putsAtOnce _ hcanceled _ _ => exact hcanceled
  | putsAfterWait _ _ hcanceled _ _ => exact hcanceled
  | stays _ _ | ends _ | leaves _ _ _ | waits _ _ _ => cases h

/-- Something is put into a feed only while its consumer is registered and not cancelled. -/
theorem Change.queued (change : Change l l') (standing : StandingLaw l) :
    ∃ notices, l'.history = l.history ++ notices ∧ ∀ id events origin,
      .queued id events origin ∈ notices → l.isCanceled id = false ∧ l.isRegistered id = true := by
  have hsilent : ∃ notices, l.history = l.history ++ notices ∧ ∀ id events origin,
      .queued id events origin ∈ notices → l.isCanceled id = false ∧ l.isRegistered id = true :=
    ⟨[], (List.append_nil _).symm, nofun⟩
  cases change with
  | report h =>
      refine ⟨_, rfl, ?_⟩
      intro id events origin hmem
      cases h _ hmem
  | call change => cases change <;> exact hsilent
  | coordinate change =>
      cases change with
      | stop _ _ | publish _ _ | known _ _ _ | enroll _ _ _ | expel _ _ _ | ignore _ _ _
      | prune _ _ => exact ⟨_, rfl, by simp⟩
      | _ => exact hsilent
  | work change =>
      cases change with
      | proceed _ _ | finish _ _ => exact hsilent
      | @look task held held' consumer _ _ _ looked h hturn hlook =>
          cases hlook with
          | ended _ _ | without _ _ => exact hsilent
          | within hroom hlook =>
              refine ⟨_, rfl, ?_⟩
              intro id events origin hmem
              obtain ⟨put, hput, hqueued⟩ := List.mem_map.mp hmem
              cases hqueued
              have hcanceled := hlook.not_canceled hput
              exact ⟨hcanceled, standing.isRegistered h hturn.mem hcanceled⟩

theorem RecordLaw.change (law : RecordLaw l) (standing : StandingLaw l) (change : Change l l') :
    RecordLaw l' := by
  obtain ⟨notices, hhistory, bears⟩ := change.bears standing
  refine ⟨?_, ?_, ?_⟩
  · intro id query hmem
    rw [hhistory] at hmem
    rcases List.mem_append.mp hmem with hmem | hmem
    · exact change.covers standing (law.taken id query hmem)
    · exact bears.taken id query hmem
  · rintro before id after hsplit ⟨query, hquery⟩
    rw [hhistory] at hsplit
    rcases append_eq_append_cons hsplit with ⟨kept, hkept, -⟩ | ⟨skipped, rfl, hskipped⟩
    · exact change.canceled (law.left before id kept hkept ⟨query, hquery⟩)
    · obtain ⟨rfl, hleft⟩ := bears.left skipped id after hskipped
      rw [List.append_nil] at hquery
      exact hleft (law.taken id query hquery)
  · intro id hmem
    rw [hhistory] at hmem
    rcases List.mem_append.mp hmem with hmem | hmem
    · exact change.canceled (law.pruned id hmem)
    · exact bears.pruned id hmem

end Record

/-- All that is kept count of. -/
structure LedgerLaws (l : Ledger) : Prop where
  tokens : TokenLaw l
  places : PlaceLaw l
  standing : StandingLaw l
  record : RecordLaw l

theorem LedgerLaws.change (laws : LedgerLaws l) (change : Change l l') : LedgerLaws l' where
  tokens := laws.tokens.change change
  places := laws.places.change laws.tokens change
  standing := laws.standing.change change
  record := laws.record.change laws.standing change

theorem create_ledgerLaws {σ : Type} (settings : Settings) (store? : Option σ) :
    LedgerLaws (create settings store?).ledger where
  tokens := ⟨List.nodup_nil, nofun, rfl, rfl⟩
  places := ⟨fun _ _ => rfl, nofun, nofun⟩
  standing := ⟨nofun, nofun, nofun, nofun, fun _ => rfl, nofun⟩
  record := by
    refine ⟨nofun, ?_, nofun⟩
    intro before id after h
    exact (List.append_ne_nil_of_right_ne_nil before (List.cons_ne_nil _ _) h.symm).elim

end EventBus.Bus
