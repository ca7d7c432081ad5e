import EventBus.Proofs.Bus.Laws
import EventBus.Store.Script
import Mathlib.Data.List.Forall2
import Mathlib.Data.List.Pairwise

/-!
A replay puts no more into a feed than was asked for, whatever the store yields and whatever
becomes of its deliveries. A batch of the stream is cut to what is still wanted before it is
filtered, and only what got into the feed counts as delivered; a batch whose delivery timed out
is passed over and never tried again.
-/

namespace EventBus.Bus

/-- The batches that the stream of the replay to a consumer has yielded. -/
def yielded (id : ConsumerId) (trace : List Mark) : List (List Event) :=
  trace.filterMap fun
    | .yielded other batch => if other = id then some batch else none
    | _ => none

/-- What was put into the feed of a consumer by its replay. -/
def replayed (id : ConsumerId) (trace : List Mark) : List (List Event) :=
  trace.filterMap fun
    | .noted (.queued other events .replay) => if other = id then some events else none
    | _ => none

/-- Each batch is what the query selects of the beginning of a batch of the source. The batches
of the source are taken in their order, and none twice. -/
def Drawn (query : Query) (batches source : List (List Event)) : Prop :=
  List.SublistForall₂ (fun batch whole => ∃ most, batch = query.select (whole.take most))
    batches source

section Readers

variable {trace marks : List Mark} {id other : ConsumerId}

theorem yielded_append : yielded id (trace ++ marks) = yielded id trace ++ yielded id marks :=
  List.filterMap_append

theorem replayed_append : replayed id (trace ++ marks) = replayed id trace ++ replayed id marks :=
  List.filterMap_append

theorem yielded_eq_nil (h : ∀ mark ∈ marks, mark.isOfTask = false) : yielded id marks = [] := by
  refine filterMap_eq_nil_of_kind (fun mark hkind => ?_) h
  cases mark with
  | yielded _ _ => cases hkind
  | _ => rfl

theorem replayed_eq_nil (h : ∀ mark ∈ marks, mark.isOfTask = false) : replayed id marks = [] := by
  refine filterMap_eq_nil_of_kind (fun mark hkind => ?_) h
  cases mark with
  | noted notice =>
      cases notice with
      | queued _ _ _ => cases hkind
      | _ => rfl
  | _ => rfl

theorem yielded_yields (batches : List (List Event)) :
    yielded id (batches.map (.yielded id)) = batches := by
  rw [yielded, List.filterMap_map]
  simp

theorem yielded_yields_of_ne (batches : List (List Event)) (h : other ≠ id) :
    yielded other (batches.map (.yielded id)) = [] := by
  simp [yielded, h.symm]

theorem replayed_yields (batches : List (List Event)) :
    replayed other (batches.map (.yielded id)) = [] := by
  simp [replayed]

end Readers

namespace Drawn

variable {query : Query} {batches source : List (List Event)}

theorem more (h : Drawn query batches source) (later : List (List Event)) :
    Drawn query batches (source ++ later) := by
  obtain ⟨picked, hpicked, hsublist⟩ := List.sublistForall₂_iff.mp h
  exact List.sublistForall₂_iff.mpr
    ⟨picked, hpicked, hsublist.trans (List.sublist_append_left source later)⟩

theorem snoc (h : Drawn query batches source) (whole : List Event) (most : Nat) :
    Drawn query (batches ++ [query.select (whole.take most)]) (source ++ [whole]) := by
  obtain ⟨picked, hpicked, hsublist⟩ := List.sublistForall₂_iff.mp h
  refine List.sublistForall₂_iff.mpr ⟨picked ++ [whole], ?_, hsublist.append_right [whole]⟩
  exact List.rel_append hpicked (.cons ⟨most, rfl⟩ .nil)

theorem select_append (first second : List Event) :
    query.select (first ++ second) = query.select first ++ query.select second :=
  List.filter_append first second

/-- What is drawn comes in the order of the source, and only what the query asks for. -/
theorem sublist_flatten (h : Drawn query batches source) :
    batches.flatten.Sublist (query.select source.flatten) := by
  induction h with
  | nil => exact List.nil_sublist _
  | cons hbatch _ ih =>
      obtain ⟨most, rfl⟩ := hbatch
      rw [List.flatten_cons, List.flatten_cons, select_append]
      exact ((List.take_sublist most _).filter _).append ih
  | cons_right _ ih =>
      rw [List.flatten_cons, select_append]
      exact ih.trans (List.sublist_append_right _ _)

theorem accepts (h : Drawn query batches source) :
    ∀ batch ∈ batches, ∀ event ∈ batch, query.accepts event = true := by
  induction h with
  | nil => exact nofun
  | cons hbatch _ ih =>
      obtain ⟨most, rfl⟩ := hbatch
      exact List.forall_mem_cons.mpr ⟨fun _ hevent => (List.mem_filter.mp hevent).2, ih⟩
  | cons_right _ ih => exact ih

end Drawn

/-- How far a replay has come with its stream, and that it stays within its limit. -/
inductive Draws (trace : List Mark) (consumer : Consumer) : ReplayPhase → Prop where
  | starting (hyielded : yielded consumer.id trace = [])
      (hreplayed : replayed consumer.id trace = []) : Draws trace consumer .starting
  | taking {used : List (List Event)} {rest : Stream} {sent : Nat}
      (hyielded : yielded consumer.id trace = used ++ rest.batches)
      (hdrawn : Drawn consumer.query (replayed consumer.id trace) used)
      (hsent : (replayed consumer.id trace).flatten.length = sent)
      (hlimit : sent ≤ consumer.query.limit) : Draws trace consumer (.taking rest sent)
  | sending {used : List (List Event)} {whole : List Event} {most : Nat} {selected : List Event}
      {deadline : Nat} {rest : Stream} {sent : Nat}
      (hyielded : yielded consumer.id trace = used ++ whole :: rest.batches)
      (hdrawn : Drawn consumer.query (replayed consumer.id trace) used)
      (hsent : (replayed consumer.id trace).flatten.length = sent)
      (hselected : selected = consumer.query.select (whole.take most))
      (hlimit : sent + selected.length ≤ consumer.query.limit) :
      Draws trace consumer (.sending selected deadline rest sent)

/-- What a consumer was given by its replay is within what it asked for. -/
structure Within (trace : List Mark) (consumer : Consumer) : Prop where
  drawn : Drawn consumer.query (replayed consumer.id trace) (yielded consumer.id trace)
  limit : (replayed consumer.id trace).flatten.length ≤ consumer.query.limit
  wanted : consumer.query.replay = false → replayed consumer.id trace = []

/-- A task replays to the consumer. -/
def Outline.Replays (o : Outline) (id : ConsumerId) (task : TaskId) : Prop :=
  ∃ consumer phase, o.task task = some (.replay consumer phase) ∧ consumer.id = id

/-- No replay to the consumer has begun. -/
structure Unreplayed (trace : List Mark) (o : Outline) (id : ConsumerId) : Prop where
  yielded : yielded id trace = []
  replayed : replayed id trace = []
  replays : ∀ task, ¬o.Replays id task

structure LimitLaw (trace : List Mark) (o : Outline) : Prop where
  unknown : ∀ id, (∀ query, .subscribe id query ∉ taken trace) → Unreplayed trace o id
  waits : ∀ consumer deadline, o.coordinator = .acquiring (.replay consumer) deadline →
    consumer.query.replay = true ∧ Unreplayed trace o consumer.id
  works : ∀ task consumer phase, o.task task = some (.replay consumer phase) →
    consumer.query.replay = true ∧ Draws trace consumer phase
  single : ∀ id task task', o.Replays id task → o.Replays id task' → task = task'
  within : ∀ consumer, Known o.maxReplay trace consumer → Within trace consumer

variable {trace marks : List Mark} {o o' : Outline} {id : ConsumerId} {consumer : Consumer}
  {phase next : ReplayPhase} {selected : List Event} {leg leg' : Leg} {rest : Stream}

section Draws

theorem Draws.sent_eq (h : Draws trace consumer phase) :
    (replayed consumer.id trace).flatten.length = phase.sent := by
  cases h with
  | starting _ hreplayed => simp [hreplayed, ReplayPhase.sent]
  | taking _ _ hsent _ => exact hsent
  | sending _ _ hsent _ _ => exact hsent

theorem Draws.sent_le (h : Draws trace consumer phase) : phase.sent ≤ consumer.query.limit := by
  cases h with
  | starting _ _ => exact Nat.zero_le _
  | taking _ _ _ hlimit => exact hlimit
  | sending _ _ _ _ hlimit => exact Nat.le_of_add_right_le hlimit

theorem Draws.within (h : Draws trace consumer phase) (hreplay : consumer.query.replay = true) :
    Within trace consumer where
  drawn := by
    cases h with
    | starting _ hreplayed =>
        rw [hreplayed]
        exact .nil
    | taking hyielded hdrawn _ _ =>
        rw [hyielded]
        exact hdrawn.more _
    | sending hyielded hdrawn _ _ _ =>
        rw [hyielded]
        exact hdrawn.more _
  limit := by
    rw [h.sent_eq]
    exact h.sent_le
  wanted hnot := by
    rw [hreplay] at hnot
    cases hnot

theorem Unreplayed.within (h : Unreplayed trace o consumer.id) : Within trace consumer where
  drawn := by
    rw [h.replayed]
    exact .nil
  limit := by
    rw [h.replayed]
    exact Nat.zero_le _
  wanted _ := h.replayed

/-- The next delivery of a replay is drawn from a batch that was not used before, and fits into
what is still wanted. -/
theorem Draws.sends (h : Draws trace consumer phase)
    (hsend : phase.Sends consumer selected leg rest) :
    leg.isDone = false ∧ phase.sent + selected.length ≤ consumer.query.limit ∧
      ∃ used whole most, yielded consumer.id trace = used ++ whole :: rest.batches ∧
        Drawn consumer.query (replayed consumer.id trace) used ∧
        selected = consumer.query.select (whole.take most) := by
  cases hsend with
  | first batch batches ends sent hwanted =>
      cases h with
      | taking hyielded hdrawn hsent hlimit =>
          have hlength : (consumer.query.select
              (batch.take (consumer.query.limit - sent))).length
                ≤ consumer.query.limit - sent :=
            Nat.le_trans (List.length_filter_le _ _) (List.length_take_le _ _)
          refine ⟨rfl, ?_, _, batch, _, hyielded, hdrawn, rfl⟩
          show sent + _ ≤ consumer.query.limit
          omega
  | again selected deadline rest sent =>
      cases h with
      | sending hyielded hdrawn hsent hselected hlimit =>
          exact ⟨rfl, hlimit, _, _, _, hyielded, hdrawn, hselected⟩

/-- A look at a delivery puts all the selected events into the feed, or none that would count. -/
theorem Looked.passed {origin : Origin} (hlook : Looked id origin selected leg o marks leg' o')
    (hleg : leg.WaitsWith selected) (hdone : leg.isDone = false) :
    (marks = [] ∧ ∀ events, leg'.passed? = some events → events = 0) ∨
      marks = [.noted (.queued id selected origin)] ∧
        leg' = .done (.delivered selected.length) := by
  cases hlook with
  | put hputs _ =>
      cases hputs with
      | atOnce _ => exact Or.inr ⟨rfl, rfl⟩
      | afterWait waiting deadline =>
          obtain ⟨rfl, -⟩ := hleg _ deadline rfl
          exact Or.inr ⟨rfl, rfl⟩
  | without hlooks =>
      refine Or.inl ⟨rfl, ?_⟩
      intro events hpassed
      cases hlooks with
      | waits _ _ => cases hpassed
      | stays leg _ =>
          cases leg with
          | done _ => cases hdone
          | _ => cases hpassed
      | ends leg outcome _ hfailed =>
          cases outcome with
          | delivered events => exact absurd rfl (hfailed events)
          | skipped | timedOut => exact (Option.some.inj hpassed).symm
          | canceled | closed => cases hpassed

/-- A replay that goes on after a look at a delivery has counted what got into the feed. -/
theorem Draws.settles (h : Draws trace consumer phase)
    (hsend : phase.Sends consumer selected leg rest) (hleg : leg.WaitsWith selected)
    (hlook : Looked consumer.id .replay selected leg o marks leg' o')
    (hnext : ReplayPhase.Settles rest phase.sent leg' next) :
    Draws (trace ++ marks) consumer next := by
  obtain ⟨hdone, hlimit, used, whole, most, hyielded, hdrawn, hselected⟩ := h.sends hsend
  have hsent := h.sent_eq
  have hused : yielded consumer.id trace = (used ++ [whole]) ++ rest.batches := by
    rw [hyielded, List.append_assoc, List.singleton_append]
  rcases hlook.passed hleg hdone with ⟨rfl, hnone⟩ | ⟨rfl, rfl⟩
  · rw [List.append_nil]
    cases hnext with
    | waits waiting deadline =>
        obtain ⟨rfl, -⟩ := hlook.waitsWith hleg waiting deadline rfl
        exact .sending hyielded hdrawn hsent hselected hlimit
    | taken leg' events hpassed =>
        obtain rfl := hnone events hpassed
        exact .taking hused (hdrawn.more _) hsent h.sent_le
  · have hqueued : replayed consumer.id [.noted (.queued consumer.id selected .replay)]
        = [selected] := by
      simp [replayed]
    have hsilent : yielded consumer.id [.noted (.queued consumer.id selected .replay)] = [] := rfl
    cases hnext with
    | taken leg' events hpassed =>
        obtain rfl : selected.length = events := Option.some.inj hpassed
        have hyields := hused
        rw [← List.append_nil (yielded _ _), ← hsilent, ← yielded_append] at hyields
        refine .taking hyields ?_ ?_ hlimit
        · rw [replayed_append, hqueued, hselected]
          exact hdrawn.snoc whole most
        · rw [replayed_append, hqueued, List.flatten_append, List.length_append, hsent,
            List.flatten_singleton]

/-- A replay begins with the stream that its read answered with. -/
theorem Draws.read (h : Draws trace consumer .starting) (stream : Stream) :
    Draws (trace ++ stream.batches.map (.yielded consumer.id)) consumer (.taking stream 0) := by
  cases h with
  | starting hyielded hreplayed =>
      have hnone : replayed consumer.id (trace ++ stream.batches.map (.yielded consumer.id)) = [] := by
        rw [replayed_append, hreplayed, replayed_yields]
        rfl
      refine @Draws.taking _ _ [] _ _ ?_ ?_ ?_ (Nat.zero_le _)
      · rw [yielded_append, hyielded, yielded_yields]
      · rw [hnone]
        exact .nil
      · rw [hnone]
        rfl

theorem Draws.grow {stream : Stream} {batches : List (List Event)} {ends : Bool}
    (h : Draws trace consumer phase) (hstream : phase.stream? = some stream) :
    Draws (trace ++ batches.map (.yielded consumer.id)) consumer
      (phase.setStream ⟨stream.batches ++ batches, ends⟩) := by
  have hyields : yielded consumer.id (trace ++ batches.map (.yielded consumer.id))
      = yielded consumer.id trace ++ batches := by
    rw [yielded_append, yielded_yields]
  have hsame : replayed consumer.id (trace ++ batches.map (.yielded consumer.id))
      = replayed consumer.id trace := by
    rw [replayed_append, replayed_yields, List.append_nil]
  cases h with
  | starting _ _ => cases hstream
  | taking hyielded hdrawn hsent hlimit =>
      cases hstream
      refine .taking ?_ (hsame ▸ hdrawn) (hsame ▸ hsent) hlimit
      rw [hyields, hyielded, List.append_assoc]
  | sending hyielded hdrawn hsent hselected hlimit =>
      cases hstream
      refine .sending ?_ (hsame ▸ hdrawn) (hsame ▸ hsent) hselected hlimit
      rw [hyields, hyielded, List.append_assoc, List.cons_append]

/-- Nothing is recorded of the replay to the consumer. -/
theorem Draws.frame (h : Draws trace consumer phase) (hyielded : yielded consumer.id marks = [])
    (hreplayed : replayed consumer.id marks = []) : Draws (trace ++ marks) consumer phase := by
  have hyields : yielded consumer.id (trace ++ marks) = yielded consumer.id trace := by
    rw [yielded_append, hyielded, List.append_nil]
  have hreplays : replayed consumer.id (trace ++ marks) = replayed consumer.id trace := by
    rw [replayed_append, hreplayed, List.append_nil]
  cases h with
  | starting hyielded hreplayed =>
      exact .starting (hyields.trans hyielded) (hreplays.trans hreplayed)
  | taking hyielded hdrawn hsent hlimit =>
      exact .taking (hyields.trans hyielded) (hreplays ▸ hdrawn) (hreplays ▸ hsent) hlimit
  | sending hyielded hdrawn hsent hselected hlimit =>
      exact .sending (hyields.trans hyielded) (hreplays ▸ hdrawn) (hreplays ▸ hsent) hselected
        hlimit

theorem Within.frame (h : Within trace consumer) (hyielded : yielded consumer.id marks = [])
    (hreplayed : replayed consumer.id marks = []) : Within (trace ++ marks) consumer := by
  have hyields : yielded consumer.id (trace ++ marks) = yielded consumer.id trace := by
    rw [yielded_append, hyielded, List.append_nil]
  have hreplays : replayed consumer.id (trace ++ marks) = replayed consumer.id trace := by
    rw [replayed_append, hreplayed, List.append_nil]
  obtain ⟨hdrawn, hlimit, hwanted⟩ := h
  rw [← hyields, ← hreplays] at hdrawn
  rw [← hreplays] at hlimit hwanted
  exact ⟨hdrawn, hlimit, hwanted⟩

end Draws

section Moves

variable {task task' : TaskId}

/-- A number is subscribed with one query only. -/
theorem query_unique {query query' : Query} (number : NumberLaw trace o)
    (h : .subscribe id query ∈ sent trace) (h' : .subscribe id query' ∈ sent trace) :
    query = query' := by
  have hpairs := List.pairwise_filterMap.mp (List.nodup_append'.mp number.once).1
  have hsymm : Std.Symm fun command command' : Command =>
      ∀ id, command.subscriber? = some id → ∀ id', command'.subscriber? = some id' → id ≠ id' :=
    ⟨fun _ _ hpair id hid id' hid' => (hpair id' hid' id hid).symm⟩
  by_contra hne
  exact hpairs.forall h h' (by simpa using hne) id rfl id rfl rfl

theorem Known.unique {other : Consumer} (queue : QueueLaw trace o) (number : NumberLaw trace o)
    (h : Known o.maxReplay trace consumer) (hother : Known o.maxReplay trace other)
    (hid : consumer.id = other.id) : consumer = other := by
  obtain ⟨query, hquery, hconsumer⟩ := h
  obtain ⟨query', hquery', hother⟩ := hother
  rw [← hid] at hquery'
  obtain ⟨_, _⟩ := consumer
  obtain ⟨_, _⟩ := other
  obtain rfl := query_unique number (queue.in_order.subset hquery) (queue.in_order.subset hquery')
  exact congrArg₂ Consumer.mk hid (hconsumer.trans hother.symm)

theorem Unreplayed.frame (h : Unreplayed trace o id) (hyielded : Bus.yielded id marks = [])
    (hreplayed : Bus.replayed id marks = [])
    (hreplays : ∀ task, o'.Replays id task → o.Replays id task) :
    Unreplayed (trace ++ marks) o' id where
  yielded := by rw [yielded_append, hyielded, h.yielded, List.append_nil]
  replayed := by rw [replayed_append, hreplayed, h.replayed, List.append_nil]
  replays task hheld := h.replays task (hreplays task hheld)

/-- Of a consumer known later the law tells already what it had before, which was nothing if its
Subscribe had not been taken. -/
theorem LimitLaw.within_of_known (law : LimitLaw trace o) (queue : QueueLaw (trace ++ marks) o')
    (number : NumberLaw (trace ++ marks) o') (hmaxReplay : o'.maxReplay = o.maxReplay)
    (hknown : Known o'.maxReplay (trace ++ marks) consumer) : Within trace consumer := by
  by_cases hearlier : ∃ query, .subscribe consumer.id query ∈ taken trace
  · obtain ⟨query, hquery⟩ := hearlier
    have hsame : Known o.maxReplay trace ⟨consumer.id, query.clampLimit o.maxReplay⟩ :=
      ⟨query, hquery, rfl⟩
    have hlater := hsame.append marks
    rw [← hmaxReplay] at hlater
    rw [Known.unique queue number hknown hlater rfl]
    exact law.within _ (hmaxReplay ▸ hsame)
  · exact (law.unknown consumer.id (not_exists.mp hearlier)).within

/-- What is not of a replay in the course of the move stays as it was. -/
theorem LimitLaw.carry (law : LimitLaw trace o) (queue : QueueLaw (trace ++ marks) o')
    (number : NumberLaw (trace ++ marks) o') (hmaxReplay : o'.maxReplay = o.maxReplay)
    (touched : ConsumerId → Prop) (htouched : ∀ id, touched id → ∃ task, o.Replays id task)
    (hsilent : ∀ id, ¬touched id → yielded id marks = [] ∧ replayed id marks = [])
    (hreplays : ∀ id task, o'.Replays id task → o.Replays id task)
    (hwaits : ∀ consumer deadline, o'.coordinator = .acquiring (.replay consumer) deadline →
      consumer.query.replay = true ∧ Unreplayed trace o consumer.id)
    (hworks : ∀ task consumer phase, o'.task task = some (.replay consumer phase) →
      o.task task = some (.replay consumer phase) ∧ ¬touched consumer.id ∨
        consumer.query.replay = true ∧ Draws (trace ++ marks) consumer phase)
    (hwithin : ∀ consumer, touched consumer.id → Known o'.maxReplay (trace ++ marks) consumer →
      Within (trace ++ marks) consumer) : LimitLaw (trace ++ marks) o' := by
  have hunreplayed : ∀ id, Unreplayed trace o id → Unreplayed (trace ++ marks) o' id := by
    intro id h
    have hid : ¬touched id := fun hid => (htouched id hid).elim h.replays
    obtain ⟨hyielded, hreplayed⟩ := hsilent id hid
    exact h.frame hyielded hreplayed (hreplays id)
  refine ⟨?_, ?_, ?_, ?_, ?_⟩
  · intro id hid
    refine hunreplayed id (law.unknown id fun query hquery => hid query ?_)
    rw [taken_append]
    exact List.mem_append_left _ hquery
  · intro consumer deadline h
    obtain ⟨hreplay, h⟩ := hwaits consumer deadline h
    exact ⟨hreplay, hunreplayed _ h⟩
  · intro task consumer phase h
    rcases hworks task consumer phase h with ⟨h, hid⟩ | h
    · obtain ⟨hreplay, hdraws⟩ := law.works task consumer phase h
      obtain ⟨hyielded, hreplayed⟩ := hsilent consumer.id hid
      exact ⟨hreplay, hdraws.frame hyielded hreplayed⟩
    · exact h
  · intro id task task' h h'
    exact law.single id task task' (hreplays id task h) (hreplays id task' h')
  · intro consumer hknown
    by_cases hid : touched consumer.id
    · exact hwithin consumer hid hknown
    · obtain ⟨hyielded, hreplayed⟩ := hsilent consumer.id hid
      exact (law.within_of_known queue number hmaxReplay hknown).frame hyielded hreplayed

/-- No replay yields or delivers anything, and none begins. -/
theorem LimitLaw.frame (law : LimitLaw trace o) (queue : QueueLaw (trace ++ marks) o')
    (number : NumberLaw (trace ++ marks) o') (hmaxReplay : o'.maxReplay = o.maxReplay)
    (hsilent : ∀ id, yielded id marks = [] ∧ replayed id marks = [])
    (hwaits : ∀ consumer deadline, o'.coordinator = .acquiring (.replay consumer) deadline →
      o.coordinator = .acquiring (.replay consumer) deadline ∨
        consumer.query.replay = true ∧ Unreplayed trace o consumer.id)
    (hworks : ∀ task consumer phase, o'.task task = some (.replay consumer phase) →
      o.task task = some (.replay consumer phase)) : LimitLaw (trace ++ marks) o' := by
  refine law.carry queue number hmaxReplay (fun _ => False) (fun _ h => h.elim)
    (fun id _ => hsilent id) ?_ ?_ ?_ (fun _ h => h.elim)
  · rintro id task ⟨consumer, phase, htask, hid⟩
    exact ⟨consumer, phase, hworks task consumer phase htask, hid⟩
  · intro consumer deadline h
    rcases hwaits consumer deadline h with h | h
    · exact law.waits consumer deadline h
    · exact h
  · intro task consumer phase h
    exact Or.inl ⟨hworks task consumer phase h, id⟩

/-- A replay that goes on is to the consumer that it was to. -/
theorem Outline.Replays.of_update {other : TaskId}
    (hother : o'.Replays id other) (h : o.task task = some (.replay consumer phase))
    (htask : o'.task = Function.update o.task task (some (.replay consumer next))) :
    o.Replays id other := by
  obtain ⟨consumer', phase', hother, hid⟩ := hother
  rw [htask, Function.update_apply] at hother
  split at hother
  next hsame =>
    cases hother
    exact ⟨consumer, phase, hsame ▸ h, hid⟩
  next => exact ⟨consumer', phase', hother, hid⟩

/-- A replay goes on. -/
theorem LimitLaw.advance (law : LimitLaw trace o) (replay : ReplayLaw trace o)
    (queue : QueueLaw (trace ++ marks) o') (number : NumberLaw (trace ++ marks) o')
    (h : o.task task = some (.replay consumer phase)) (hmaxReplay : o'.maxReplay = o.maxReplay)
    (hcoordinator : o'.coordinator = o.coordinator)
    (htask : o'.task = Function.update o.task task (some (.replay consumer next)))
    (hsilent : ∀ other, other ≠ consumer.id → yielded other marks = [] ∧ replayed other marks = [])
    (hdraws : Draws (trace ++ marks) consumer next) : LimitLaw (trace ++ marks) o' := by
  obtain ⟨hreplay, -⟩ := law.works task consumer phase h
  have hheld : o.Replays consumer.id task := ⟨consumer, phase, h, rfl⟩
  refine law.carry queue number hmaxReplay (· = consumer.id) ?_ hsilent ?_ ?_ ?_ ?_
  · rintro _ rfl
    exact ⟨task, hheld⟩
  · exact fun _ _ hother => hother.of_update h htask
  · intro consumer' deadline hwaits
    exact law.waits consumer' deadline (hcoordinator ▸ hwaits)
  · intro other consumer' phase' hother
    rw [htask, Function.update_apply] at hother
    split at hother
    next =>
      cases hother
      exact Or.inr ⟨hreplay, hdraws⟩
    next hne =>
      refine Or.inl ⟨hother, fun hid => hne ?_⟩
      exact law.single consumer.id other task ⟨consumer', phase', hother, hid⟩ hheld
  · intro consumer' hid hknown
    have hself := (replay.works task consumer phase h).known.append marks
    rw [← hmaxReplay] at hself
    rw [Known.unique queue number hknown hself hid]
    exact hdraws.within hreplay

theorem replayed_attempt (id : ConsumerId) (publish : Nat) (other : ConsumerId) (leg : Leg) :
    yielded id (attempt publish other leg) = [] ∧ replayed id (attempt publish other leg) = [] := by
  cases leg <;> exact ⟨rfl, rfl⟩

theorem Looked.replayed_of_ne {origin : Origin} {other : ConsumerId}
    (hlook : Looked id origin selected leg o marks leg' o')
    (h : other ≠ id ∨ origin ≠ .replay) : yielded other marks = [] ∧ replayed other marks = [] := by
  cases hlook with
  | without _ => exact ⟨rfl, rfl⟩
  | put _ _ =>
      refine ⟨rfl, ?_⟩
      cases origin with
      | live _ => rfl
      | replay =>
          have hne : id ≠ other := (h.resolve_right fun hnot => hnot rfl).symm
          simp [replayed, hne]

/-- A task that is no replay takes the place of none. -/
theorem Outline.replay_of_setTask {held? : Option Task}
    (h : (o.setTask task held?).task task' = some (.replay consumer phase))
    (hheld : ∀ consumer phase, held? ≠ some (.replay consumer phase)) :
    o.task task' = some (.replay consumer phase) := by
  rw [Outline.setTask_task, Function.update_apply] at h
  split at h
  · exact absurd h (hheld consumer phase)
  · exact h

theorem LimitLaw.work (law : LimitLaw trace o) (replay : ReplayLaw trace o)
    (queue : QueueLaw (trace ++ marks) o') (number : NumberLaw (trace ++ marks) o')
    (move : TaskMove o marks o') : LimitLaw (trace ++ marks) o' := by
  have frame := move.frame
  cases move with
  | @deliver task publish batch seen consumer leg legs marks leg' looked h hlook =>
      refine law.frame queue number frame.maxReplay ?_ ?_ ?_
      · intro id
        obtain ⟨hyielded, hreplayed⟩ : yielded id marks = [] ∧ replayed id marks = [] :=
          hlook.replayed_of_ne (Or.inr nofun)
        obtain ⟨hattempt, hattempt'⟩ := replayed_attempt id publish consumer.id leg
        rw [yielded_append, replayed_append, hattempt, hattempt', hyielded, hreplayed]
        exact ⟨rfl, rfl⟩
      · intro consumer' deadline hwaits
        exact Or.inl (frame.coordinator ▸ hwaits)
      · intro other consumer' phase hother
        have hearlier := Outline.replay_of_setTask hother nofun
        rwa [hlook.frame.task] at hearlier
  | @read task consumer stream h =>
      refine law.advance replay queue number h rfl rfl rfl ?_ ?_
      · exact fun other hother => ⟨yielded_yields_of_ne _ hother, replayed_yields _⟩
      · exact (law.works task consumer _ h).2.read stream
  | @grow task consumer phase stream batches ends h hstream =>
      refine law.advance replay queue number h rfl rfl rfl ?_ ?_
      · exact fun other hother => ⟨yielded_yields_of_ne _ hother, replayed_yields _⟩
      · exact (law.works task consumer phase h).2.grow hstream
  | @send task consumer phase selected leg rest marks leg' looked next h hsend hlook hnext =>
      have hleg := ((replay.works task consumer phase h).sends hsend).1
      have hdraws := (law.works task consumer phase h).2.settles hsend hleg hlook hnext
      refine law.advance replay queue number h frame.maxReplay frame.coordinator ?_ ?_ hdraws
      · exact congrArg (Function.update · task _) hlook.frame.task
      · exact fun other hother => hlook.replayed_of_ne (Or.inl hother)
  | finish h hend =>
      exact law.frame queue number rfl (fun _ => ⟨rfl, rfl⟩) (fun _ _ => Or.inl)
        fun _ _ _ hother => Outline.replay_of_setTask hother nofun

/-- A replay begins with nothing yielded and nothing delivered. -/
theorem LimitLaw.launch {job : Job} {deadline : Nat} (law : LimitLaw trace o)
    (replay : ReplayLaw trace o) (h : o.coordinator = .acquiring job deadline) :
    LimitLaw trace ((o.setCoordinator .receiving).spawn job.task) := by
  let launched := (o.setCoordinator .receiving).spawn job.task
  have hheld : ∀ task consumer phase, launched.task task = some (.replay consumer phase) →
      o.task task = some (.replay consumer phase) ∨
        task = o.nextTask ∧ phase = .starting ∧ job = .replay consumer := by
    intro task consumer phase htask
    rw [Outline.spawn_task, Outline.setTask_task, Function.update_apply] at htask
    split at htask
    next hnew =>
      cases job with
      | fanOut _ _ _ => cases htask
      | replay _ =>
          cases htask
          exact Or.inr ⟨hnew, rfl, rfl⟩
    next => exact Or.inl htask
  refine ⟨?_, nofun, ?_, ?_, law.within⟩
  · intro id hid
    obtain ⟨hyielded, hreplayed, hreplays⟩ := law.unknown id hid
    refine ⟨hyielded, hreplayed, ?_⟩
    rintro task ⟨consumer, phase, htask, rfl⟩
    rcases hheld task consumer phase htask with htask | ⟨-, -, rfl⟩
    · exact hreplays task ⟨consumer, phase, htask, rfl⟩
    · obtain ⟨query, hquery, -⟩ := replay.waits consumer deadline h
      exact hid query hquery
  · intro task consumer phase htask
    rcases hheld task consumer phase htask with htask | ⟨-, rfl, rfl⟩
    · exact law.works task consumer phase htask
    · obtain ⟨hreplay, hnone⟩ := law.waits consumer deadline h
      exact ⟨hreplay, .starting hnone.yielded hnone.replayed⟩
  · rintro id task task' ⟨consumer, phase, htask, rfl⟩ ⟨consumer', phase', htask', hid⟩
    have hnew : ∀ {task consumer phase}, o.task task = some (.replay consumer phase) →
        ∀ {other}, job = .replay other → consumer.id ≠ other.id := by
      rintro _ _ _ hearlier other rfl hid
      exact (law.waits other deadline h).2.replays _ ⟨_, _, hearlier, hid⟩
    rcases hheld task consumer phase htask with htask | ⟨rfl, -, hjob⟩ <;>
      rcases hheld task' consumer' phase' htask' with htask' | ⟨rfl, -, hjob'⟩
    · exact law.single consumer.id task task' ⟨consumer, phase, htask, rfl⟩
        ⟨consumer', phase', htask', hid⟩
    · exact absurd hid.symm (hnew htask hjob')
    · exact absurd hid (hnew htask' hjob)
    · rfl

theorem LimitLaw.coordinate (law : LimitLaw trace o) (laws : Laws trace o)
    (queue : QueueLaw (trace ++ marks) o') (number : NumberLaw (trace ++ marks) o')
    (move : CoordinatorMove o marks o') : LimitLaw (trace ++ marks) o' := by
  have hkind : ∀ mark ∈ marks, mark.isOfTask = false :=
    fun mark hmark => (move.frame.kind mark hmark).2
  have hsilent : ∀ id, yielded id marks = [] ∧ replayed id marks = [] :=
    fun id => ⟨yielded_eq_nil hkind, replayed_eq_nil hkind⟩
  have hmaxReplay := move.frame.maxReplay
  cases move with
  | launch h =>
      rw [List.append_nil]
      exact law.launch laws.replay h
  | enroll h hcommands hnew hconsumer hnext =>
      refine law.frame queue number hmaxReplay hsilent ?_ (fun _ _ _ => id)
      intro consumer deadline hwaits
      rcases hnext with rfl | ⟨hreplay, deadline', rfl⟩
      · cases hwaits
      · cases hwaits
        subst hconsumer
        refine Or.inr ⟨hreplay, law.unknown _ fun query => ?_⟩
        exact not_taken_of_next laws.queue laws.number h hcommands query
  | @ready next h hnext =>
      refine law.frame queue number hmaxReplay hsilent ?_ (fun _ _ _ => id)
      intro consumer deadline hwaits
      have hwaits : next = .acquiring (.replay consumer) deadline := hwaits
      rw [hwaits] at hnext
      cases hnext
  | accept h hcommands hplain hnext =>
      refine law.frame queue number hmaxReplay hsilent ?_ (fun _ _ _ => id)
      intro consumer deadline hwaits
      cases hnext <;> cases hwaits
  | known _ _ _ | expel _ _ _ =>
      exact law.frame queue number hmaxReplay hsilent (fun _ _ => Or.inl) (fun _ _ _ => id)
  | _ => exact law.frame queue number hmaxReplay hsilent nofun (fun _ _ _ => id)

theorem LimitLaw.move (law : LimitLaw trace o) (laws : Laws trace o) (move : Move o marks o') :
    LimitLaw (trace ++ marks) o' := by
  have queue := laws.queue.move move
  have number := laws.number.move move
  cases move with
  | report h =>
      have hkind := fun mark hmark => (kind_report h mark hmark).2
      exact law.frame queue number rfl (fun _ => ⟨yielded_eq_nil hkind, replayed_eq_nil hkind⟩)
        (fun _ _ => Or.inl) (fun _ _ _ => id)
  | call move =>
      have frame := move.frame
      have hkind : ∀ mark ∈ marks, mark.isOfTask = false :=
        fun mark hmark => Mark.not_ofTask_of_ofCall (frame.kind mark hmark)
      refine law.frame queue number frame.maxReplay
        (fun _ => ⟨yielded_eq_nil hkind, replayed_eq_nil hkind⟩) ?_ ?_
      · exact fun consumer deadline hwaits => Or.inl (frame.coordinator ▸ hwaits)
      · exact fun task consumer phase htask => frame.task ▸ htask
  | coordinate move => exact law.coordinate laws queue number move
  | work move => exact law.work laws.replay queue number move

end Moves

section Runs

variable {σ : Type} [Store σ] {settings : Settings} {store? : Option σ} {world : World σ}

theorem Laws.ne_nil_of_replayed {batch : List Event} (laws : Laws trace o)
    (h : batch ∈ replayed id trace) : batch ≠ [] := by
  obtain ⟨mark, hmark, hread⟩ := List.mem_filterMap.mp h
  split at hread
  · split at hread
    next hid =>
      cases hread
      obtain ⟨before, after, htrace⟩ := List.append_of_mem hmark
      obtain ⟨consumer, -, hcaused⟩ := laws.cause before _ _ _ after htrace
      cases hcaused with
      | replay _ hreplayed => exact hreplayed.1
    next => cases hread
  · cases hread

theorem Run.limits (run : Run settings store? trace world) : LimitLaw trace world.outline := by
  have hboth : Laws trace world.outline ∧ LimitLaw trace world.outline := by
    refine run.moves.invariant (P := fun trace o => Laws trace o ∧ LimitLaw trace o)
      ⟨create_laws, ?_⟩ fun ⟨laws, law⟩ move => ⟨laws.move move, law.move laws move⟩
    refine ⟨fun _ _ => ⟨rfl, rfl, nofun⟩, nofun, nofun, nofun, ?_⟩
    rintro consumer ⟨query, hquery, -⟩
    cases hquery
  exact hboth.2

/-- Whatever a store yields to the replay to a consumer, no more than the consumer's limit and
the bound of the bus comes into the feed, and nothing if no replay was asked for. What comes is
what the filter selects of the beginnings of batches of the stream, in their order and of none
twice. No replay ever counts more events than it may deliver, so that what is still wanted is
never less than nothing. -/
theorem Run.replay_within_limit (run : Run settings store? trace world) :
    (∀ id query, .subscribe id query ∈ sent trace →
      (replayed id trace).flatten.length ≤ min query.limit settings.maxReplay ∧
      (query.replay = false → replayed id trace = []) ∧
      (∀ batch ∈ replayed id trace, batch ≠ [] ∧ ∀ event ∈ batch, query.accepts event = true) ∧
      Drawn query (replayed id trace) (yielded id trace) ∧
      (replayed id trace).flatten.Sublist (query.select (yielded id trace).flatten)) ∧
    ∀ task consumer phase, world.bus.tasks.lookup task = some (.replay consumer phase) →
      phase.sent = (replayed consumer.id trace).flatten.length ∧
      phase.sent ≤ consumer.query.limit := by
  have laws := run.laws
  have law := run.limits
  obtain ⟨hmaxReplay, -⟩ := run.constants
  constructor
  · intro id query hsent
    let consumer : Consumer := ⟨id, query.clampLimit settings.maxReplay⟩
    have hwithin : Within trace consumer := by
      by_cases htaken : ∃ query', .subscribe id query' ∈ taken trace
      · obtain ⟨query', htaken⟩ := htaken
        obtain rfl := query_unique laws.number hsent (laws.queue.in_order.subset htaken)
        exact law.within consumer ⟨query, htaken, congrArg query.clampLimit hmaxReplay.symm⟩
      · have hnone : Unreplayed trace world.outline consumer.id :=
          law.unknown id (not_exists.mp htaken)
        exact hnone.within
    have hdrawn : Drawn query (replayed id trace) (yielded id trace) := hwithin.drawn
    refine ⟨hwithin.limit, hwithin.wanted, ?_, hdrawn, hdrawn.sublist_flatten⟩
    exact fun batch hbatch => ⟨laws.ne_nil_of_replayed hbatch, hdrawn.accepts batch hbatch⟩
  · intro task consumer phase htask
    obtain ⟨-, hdraws⟩ := law.works task consumer phase htask
    exact ⟨hdraws.sent_eq.symm, hdraws.sent_le⟩

end Runs

section Sample

def longQuery : Query := ⟨true, 5, .pass⟩

/-- A store whose streams ignore what was asked for. -/
def longScript : Script := ⟨⟨[shortBatch 1, shortBatch 2 ++ shortBatch 3, shortBatch 4], true⟩, none⟩

def replayTrace : List Mark :=
  [.numbered 1, .sent (.subscribe 1 longQuery), .noted (.started 1 2 true),
    .noted (.took (.subscribe 1 longQuery)), .noted (.registered ⟨1, longQuery.clampLimit 2⟩),
    .yielded 1 (shortBatch 1), .yielded 1 (shortBatch 2 ++ shortBatch 3), .yielded 1 (shortBatch 4),
    .noted (.queued 1 (shortBatch 1) .replay), .noted (.queued 1 (shortBatch 2) .replay),
    .noted (.replayFinished 1 2)]

theorem exists_replay_run : ∃ world, Run ⟨1, 2, 5, 5⟩ (some longScript) replayTrace world := by
  have h : Run ⟨1, 2, 5, 5⟩ (some longScript) [] _ := Steps.refl _
  have h := h.tail (.subscribe longQuery 4)
  have h := h.tail (@Step.enter _ _ _ [] _ [] rfl)
  have h := h.tail .start
  have h := h.tail (.begin rfl)
  have h := h.tail (.take rfl rfl)
  have h := h.tail (@Step.read _ _ _ _ 0 _ rfl)
  have h := h.tail (@Step.send _ _ _ _ 0 _ _ _ _ _ rfl rfl)
  have h := h.tail (@Step.send _ _ _ _ 0 _ _ _ _ _ rfl rfl)
  have h := h.tail (@Step.quit _ _ _ _ 0 _ _ _ rfl (Or.inl rfl))
  exact ⟨_, h⟩

theorem replay_cut_to_bound :
    replayed 1 replayTrace = [shortBatch 1, shortBatch 2] ∧
      (replayed 1 replayTrace).flatten.length ≤ min longQuery.limit 2 ∧
      Drawn longQuery (replayed 1 replayTrace) (yielded 1 replayTrace) := by
  obtain ⟨world, run⟩ := exists_replay_run
  have hsent : .subscribe 1 longQuery ∈ sent replayTrace := by simp [sent, replayTrace]
  obtain ⟨hlimit, -, -, hdrawn, -⟩ := run.replay_within_limit.1 1 longQuery hsent
  exact ⟨rfl, hlimit, hdrawn⟩

end Sample

end EventBus.Bus
