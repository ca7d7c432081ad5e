import EventBus.Proofs.Bus.FanOut

/-!
Why a batch is in a feed. It is what a consumer selects of a publish that was taken while
the consumer was registered, or of the beginning of a batch that the stream of its own
replay has yielded; nothing else is ever put into a feed.
-/

namespace EventBus.Bus

/-- The consumer is as its subscription, taken from the queue, asked for. -/
def Known (maxReplay : Nat) (trace : List Mark) (consumer : Consumer) : Prop :=
  ∃ query, .subscribe consumer.id query ∈ taken trace ∧
    consumer.query = query.clampLimit maxReplay

/-- The events are a selection from the beginning of a batch of the consumer's replay. -/
def Replayed (trace : List Mark) (consumer : Consumer) (selected : List Event) : Prop :=
  selected ≠ [] ∧ ∃ batch most, .yielded consumer.id batch ∈ trace ∧
    selected = consumer.query.select (batch.take most)

inductive Caused (maxReplay : Nat) (stored : Bool) (trace : List Mark) (consumer : Consumer)
    (events : List Event) : Origin → Prop where
  | live (publish : Nat) (before : List Mark) (batch : List Event) (after : List Mark)
      (htrace : trace = before ++ .noted (.took (.publish batch)) :: after)
      (hcount : publishCount before = publish) (henrolled : Enrolled maxReplay before consumer)
      (hwrote : stored = true → (writes trace)[publish]? = some (batch, .ok ()))
      (hevents : events = consumer.query.select batch) (hne : events ≠ []) :
      Caused maxReplay stored trace consumer events (.live publish)
  | replay (hknown : Known maxReplay trace consumer) (h : Replayed trace consumer events) :
      Caused maxReplay stored trace consumer events .replay

/-- A replay has its batches from its stream. -/
structure Replays (maxReplay : Nat) (trace : List Mark) (consumer : Consumer)
    (phase : ReplayPhase) : Prop where
  known : Known maxReplay trace consumer
  yielded : ∀ stream, phase.stream? = some stream →
    ∀ batch ∈ stream.batches, .yielded consumer.id batch ∈ trace
  selected : ∀ selected deadline rest sent, phase = .sending selected deadline rest sent →
    Replayed trace consumer selected

structure ReplayLaw (trace : List Mark) (o : Outline) : Prop where
  waits : ∀ consumer deadline, o.coordinator = .acquiring (.replay consumer) deadline →
    Known o.maxReplay trace consumer
  works : ∀ task consumer phase, o.task task = some (.replay consumer phase) →
    Replays o.maxReplay trace consumer phase

def CauseLaw (trace : List Mark) (o : Outline) : Prop :=
  ∀ before id events origin after,
    trace = before ++ .noted (.queued id events origin) :: after →
    ∃ consumer, consumer.id = id ∧ Caused o.maxReplay o.stored before consumer events origin

variable {trace marks : List Mark} {o o' : Outline} {maxReplay : Nat} {stored : Bool}
  {consumer : Consumer} {events selected : List Event} {origin : Origin} {phase : ReplayPhase}

section Growth

theorem Known.append (h : Known maxReplay trace consumer) (marks : List Mark) :
    Known maxReplay (trace ++ marks) consumer := by
  obtain ⟨query, hquery, hconsumer⟩ := h
  refine ⟨query, ?_, hconsumer⟩
  rw [taken_append]
  exact List.mem_append_left _ hquery

theorem Replayed.append (h : Replayed trace consumer selected) (marks : List Mark) :
    Replayed (trace ++ marks) consumer selected := by
  obtain ⟨hne, batch, most, hyielded, hselected⟩ := h
  exact ⟨hne, batch, most, List.mem_append_left _ hyielded, hselected⟩

theorem Caused.append (h : Caused maxReplay stored trace consumer events origin)
    (marks : List Mark) : Caused maxReplay stored (trace ++ marks) consumer events origin := by
  cases h with
  | replay hknown h => exact .replay (hknown.append marks) (h.append marks)
  | live publish before batch after htrace hcount henrolled hwrote hevents hne =>
      refine .live publish before batch (after ++ marks) ?_ hcount henrolled ?_ hevents hne
      · rw [htrace, List.append_assoc]
        rfl
      · intro h
        have hwrite := hwrote h
        obtain ⟨hlt, -⟩ := List.getElem?_eq_some_iff.mp hwrite
        rw [writes_append, List.getElem?_append_left hlt, hwrite]

theorem Replays.append (h : Replays maxReplay trace consumer phase) (marks : List Mark) :
    Replays maxReplay (trace ++ marks) consumer phase where
  known := h.known.append marks
  yielded stream hstream batch hbatch :=
    List.mem_append_left _ (h.yielded stream hstream batch hbatch)
  selected selected deadline rest sent hphase :=
    (h.selected selected deadline rest sent hphase).append marks

end Growth

section Replay

variable {task : TaskId} {leg leg' : Leg} {rest stream : Stream} {next : ReplayPhase}

/-- What a replay sends next, and what is left of its stream. -/
theorem Replays.sends (h : Replays maxReplay trace consumer phase)
    (hsend : phase.Sends consumer selected leg rest) :
    leg.WaitsWith selected ∧ (selected ≠ [] → Replayed trace consumer selected) ∧
      ∀ batch ∈ rest.batches, .yielded consumer.id batch ∈ trace := by
  cases hsend with
  | first batch batches ends sent hwanted =>
      have hyielded := h.yielded _ rfl
      refine ⟨nofun, ?_, fun batch hbatch => hyielded batch (List.mem_cons_of_mem _ hbatch)⟩
      exact fun hne => ⟨hne, batch, _, hyielded batch List.mem_cons_self, rfl⟩
  | again selected deadline rest sent =>
      have hselected := h.selected selected deadline rest sent rfl
      refine ⟨?_, fun _ => hselected, h.yielded _ rfl⟩
      rintro events deadline' ⟨⟩
      exact ⟨rfl, hselected.1⟩

theorem Replays.settles (h : Replays maxReplay trace consumer phase)
    (hsend : phase.Sends consumer selected leg rest) (hleg : leg'.WaitsWith selected)
    (hnext : ReplayPhase.Settles rest phase.sent leg' next) :
    Replays maxReplay trace consumer next := by
  obtain ⟨-, hreplayed, hrest⟩ := h.sends hsend
  cases hnext with
  | taken _ _ _ =>
      refine ⟨h.known, ?_, nofun⟩
      rintro stream ⟨⟩
      exact hrest
  | waits waiting deadline =>
      obtain ⟨rfl, hne⟩ := hleg waiting deadline rfl
      refine ⟨h.known, ?_, ?_⟩
      · rintro stream ⟨⟩
        exact hrest
      · rintro selected deadline' rest' sent' ⟨⟩
        exact hreplayed hne

theorem Replays.grow {batches : List (List Event)} {ends : Bool}
    (h : Replays maxReplay trace consumer phase) (hstream : phase.stream? = some stream) :
    Replays maxReplay (trace ++ batches.map (.yielded consumer.id)) consumer
      (phase.setStream ⟨stream.batches ++ batches, ends⟩) := by
  have hyielded : ∀ batch ∈ stream.batches ++ batches,
      .yielded consumer.id batch ∈ trace ++ batches.map (.yielded consumer.id) := by
    intro batch hbatch
    rcases List.mem_append.mp hbatch with hbatch | hbatch
    · exact List.mem_append_left _ (h.yielded stream hstream batch hbatch)
    · exact List.mem_append_right _ (List.mem_map_of_mem hbatch)
  cases phase with
  | starting => cases hstream
  | taking rest sent =>
      refine ⟨h.known.append _, ?_, nofun⟩
      rintro _ ⟨⟩
      exact hyielded
  | sending selected deadline rest sent =>
      refine ⟨h.known.append _, ?_, ?_⟩
      · rintro _ ⟨⟩
        exact hyielded
      · rintro _ _ _ _ ⟨⟩
        exact (h.selected _ _ _ _ rfl).append _

theorem ReplayLaw.frame (law : ReplayLaw trace o) (hmaxReplay : o'.maxReplay = o.maxReplay)
    (hwaits : ∀ consumer deadline, o'.coordinator = .acquiring (.replay consumer) deadline →
      o.coordinator = .acquiring (.replay consumer) deadline ∨
        Known o.maxReplay (trace ++ marks) consumer)
    (hworks : ∀ task consumer phase, o'.task task = some (.replay consumer phase) →
      o.task task = some (.replay consumer phase) ∨
        Replays o.maxReplay (trace ++ marks) consumer phase) :
    ReplayLaw (trace ++ marks) o' := by
  constructor
  · intro consumer deadline h
    rw [hmaxReplay]
    rcases hwaits consumer deadline h with h | h
    · exact (law.waits consumer deadline h).append marks
    · exact h
  · intro task consumer phase h
    rw [hmaxReplay]
    rcases hworks task consumer phase h with h | h
    · exact (law.works task consumer phase h).append marks
    · exact h

/-- Only one task changes. -/
theorem ReplayLaw.setTask {task? : Option Task} (law : ReplayLaw trace o)
    (hmaxReplay : o'.maxReplay = o.maxReplay) (hcoordinator : o'.coordinator = o.coordinator)
    (htask : o'.task = o.task)
    (h : ∀ consumer phase, task? = some (.replay consumer phase) →
      Replays o.maxReplay (trace ++ marks) consumer phase) :
    ReplayLaw (trace ++ marks) (o'.setTask task task?) := by
  refine law.frame hmaxReplay ?_ ?_
  · intro consumer deadline hwaits
    exact Or.inl (hcoordinator ▸ hwaits)
  · intro other consumer phase hworks
    rw [Outline.setTask_task] at hworks
    by_cases hother : other = task
    · subst hother
      rw [Function.update_self] at hworks
      exact Or.inr (h consumer phase hworks)
    · rw [Function.update_of_ne hother, htask] at hworks
      exact Or.inl hworks

theorem ReplayLaw.work (law : ReplayLaw trace o) (move : TaskMove o marks o') :
    ReplayLaw (trace ++ marks) o' := by
  cases move with
  | deliver h hlook =>
      have frame := hlook.frame
      exact law.setTask frame.maxReplay frame.coordinator frame.task nofun
  | finish h hend => exact law.setTask rfl rfl rfl nofun
  | read h =>
      refine law.setTask rfl rfl rfl ?_
      rintro _ _ ⟨⟩
      refine ⟨(law.works _ _ _ h).known.append _, ?_, nofun⟩
      rintro _ ⟨⟩ batch hbatch
      exact List.mem_append_right _ (List.mem_map_of_mem hbatch)
  | grow batches ends h hstream =>
      refine law.setTask rfl rfl rfl ?_
      rintro _ _ ⟨⟩
      exact (law.works _ _ _ h).grow hstream
  | send h hsend hlook hnext =>
      have frame := hlook.frame
      refine law.setTask frame.maxReplay frame.coordinator frame.task ?_
      rintro _ _ ⟨⟩
      have hreplays := law.works _ _ _ h
      have hwaiting := hlook.waitsWith (hreplays.sends hsend).1
      exact (hreplays.settles hsend hwaiting hnext).append _

/-- A consumer that is enrolled, and whose replay may now wait for a token, is as its
subscription asked for. -/
theorem ReplayLaw.enroll {id : ConsumerId} {query : Query} (law : ReplayLaw trace o)
    (hmaxReplay : o'.maxReplay = o.maxReplay) (htask : o'.task = o.task)
    (htaken : taken marks = [.subscribe id query])
    (hnext : o'.coordinator = .receiving ∨ ∃ deadline,
      o'.coordinator = .acquiring (.replay ⟨id, query.clampLimit o.maxReplay⟩) deadline) :
    ReplayLaw (trace ++ marks) o' := by
  refine law.frame hmaxReplay ?_ fun _ _ _ h => Or.inl (htask ▸ h)
  intro consumer deadline h
  rcases hnext with hnext | ⟨deadline, hnext⟩
  · rw [hnext] at h
    cases h
  · rw [hnext] at h
    cases h
    refine Or.inr ⟨query, ?_, rfl⟩
    simp [taken_append, htaken]

theorem ReplayLaw.launch {job : Job} {deadline : Nat} (law : ReplayLaw trace o)
    (h : o.coordinator = .acquiring job deadline) :
    ReplayLaw (trace ++ []) ((o.setCoordinator .receiving).spawn job.task) := by
  refine law.frame rfl nofun ?_
  intro task consumer phase hworks
  rw [Outline.spawn_task, Outline.setTask_task, Function.update_apply] at hworks
  split at hworks
  · cases job with
    | fanOut _ _ _ => cases hworks
    | replay consumer =>
        cases hworks
        exact Or.inr ⟨(law.waits _ _ h).append _, nofun, nofun⟩
  · exact Or.inl hworks

theorem ReplayLaw.coordinate (law : ReplayLaw trace o) (move : CoordinatorMove o marks o') :
    ReplayLaw (trace ++ marks) o' := by
  have hsame : ∀ {o' : Outline}, o'.maxReplay = o.maxReplay → o'.task = o.task →
      (∀ consumer deadline, o'.coordinator = .acquiring (.replay consumer) deadline →
        o.coordinator = .acquiring (.replay consumer) deadline) →
      ReplayLaw (trace ++ marks) o' := by
    intro o' hmaxReplay htask hwaits
    refine law.frame hmaxReplay (fun consumer deadline h => Or.inl (hwaits _ _ h)) ?_
    intro task consumer phase h
    exact Or.inl (htask ▸ h)
  cases move with
  | @ready next h hnext =>
      refine hsame rfl rfl ?_
      intro consumer deadline hwaits
      have hwaits : next = .acquiring (.replay consumer) deadline := hwaits
      rw [hwaits] at hnext
      cases hnext
  | accept h hcommands hplain hnext =>
      refine hsame rfl rfl ?_
      intro consumer deadline h
      cases hnext <;> cases h
  | enroll h hcommands hnew hconsumer hnext =>
      subst hconsumer
      exact law.enroll rfl rfl (by simp [taken]) (hnext.imp_right And.right)
  | launch h => exact law.launch h
  | known _ _ _ => exact hsame rfl rfl fun _ _ h => h
  | expel _ _ _ => exact hsame rfl rfl fun _ _ h => h
  | _ => exact hsame rfl rfl nofun

theorem ReplayLaw.move (law : ReplayLaw trace o) (move : Move o marks o') :
    ReplayLaw (trace ++ marks) o' := by
  cases move with
  | report h => exact law.frame rfl (fun _ _ h => Or.inl h) fun _ _ _ h => Or.inl h
  | call move =>
      have frame := move.frame
      refine law.frame frame.maxReplay ?_ ?_
      · intro consumer deadline h
        exact Or.inl (frame.coordinator ▸ h)
      · intro task consumer phase h
        exact Or.inl (frame.task ▸ h)
  | coordinate move => exact law.coordinate move
  | work move => exact law.work move

end Replay

section Deliveries

variable {task : TaskId} {publish : Nat} {batch : List Event} {legs : List (Consumer × Leg)}

/-- Only a publish that has been taken has a task. -/
theorem FanOutLaw.lt_publishCount (law : FanOutLaw trace o) (queue : QueueLaw trace o)
    (h : o.Works task publish) : publish < publishCount trace := by
  rw [publishCount_eq_publishes queue]
  by_contra hle
  exact (law.unborn publish (Nat.not_lt.mp hle)).works task h

/-- Who has a delivery in a fan-out was registered when the publish was taken. -/
theorem FanOutLaw.of_task (law : FanOutLaw trace o) (queue : QueueLaw trace o)
    (h : o.task task = some (.fanOut publish batch legs)) :
    (∀ entry ∈ legs, entry.2.WaitsWith (entry.1.query.select batch)) ∧
      ∃ before after, trace = before ++ .noted (.took (.publish batch)) :: after ∧
        publishCount before = publish ∧
        (o.stored = true → (writes trace)[publish]? = some (batch, .ok ())) ∧
        ∀ entry ∈ legs, Enrolled o.maxReplay before entry.1 := by
  have hheld : o.Works task publish := ⟨batch, legs, h⟩
  obtain ⟨before, batch', after, htrace, hcount⟩ :=
    exists_took_of_lt (law.lt_publishCount queue hheld)
  cases law.course before batch' after htrace with
  | refused _ _ untouched => exact absurd (hcount ▸ hheld) (untouched.works task)
  | served targets hwrote htargets fate =>
      rw [hcount] at hwrote fate
      obtain ⟨rfl, rfl, -, -, hwaiting, -, -⟩ := fate.running_of_task h
      refine ⟨hwaiting, before, after, htrace, hcount, hwrote, ?_⟩
      intro entry hentry
      have henrolled := (htargets.enrolled entry.1).mp (List.mem_map_of_mem hentry)
      rw [enrolled_append (by simp)] at henrolled
      exact henrolled.1

theorem CauseLaw.frame (law : CauseLaw trace o) (hmaxReplay : o'.maxReplay = o.maxReplay)
    (hstored : o'.stored = o.stored)
    (h : ∀ before id events origin after,
      marks = before ++ .noted (.queued id events origin) :: after →
      ∃ consumer, consumer.id = id ∧
        Caused o.maxReplay o.stored (trace ++ before) consumer events origin) :
    CauseLaw (trace ++ marks) o' := by
  intro before id events origin after htrace
  rw [hmaxReplay, hstored]
  rcases append_eq_append_cons htrace with ⟨kept, hkept, -⟩ | ⟨skipped, rfl, hskipped⟩
  · exact law before id events origin kept hkept
  · exact h skipped id events origin after hskipped

/-- Nothing is put into a feed. -/
theorem CauseLaw.silent (law : CauseLaw trace o) (hmaxReplay : o'.maxReplay = o.maxReplay)
    (hstored : o'.stored = o.stored)
    (h : ∀ id events origin, .noted (.queued id events origin) ∉ marks) :
    CauseLaw (trace ++ marks) o' := by
  refine law.frame hmaxReplay hstored ?_
  rintro before id events origin after rfl
  exact absurd (List.mem_append_right _ List.mem_cons_self) (h id events origin)

/-- A look at a delivery puts into the feed what there is a cause for. -/
theorem CauseLaw.looked {leg leg' : Leg} (law : CauseLaw trace o) (earlier : List Mark)
    (hlook : Looked consumer.id origin selected leg o marks leg' o')
    (hearlier : ∀ id events origin, .noted (.queued id events origin) ∉ earlier)
    (hleg : leg.WaitsWith selected)
    (h : selected ≠ [] → Caused o.maxReplay o.stored trace consumer selected origin) :
    CauseLaw (trace ++ (earlier ++ marks)) o' := by
  have frame := hlook.frame
  refine law.frame frame.maxReplay frame.stored ?_
  intro before id events origin' after hmarks
  rcases append_eq_append_cons hmarks with ⟨kept, rfl, -⟩ | ⟨skipped, rfl, hskipped⟩
  · exact absurd (List.mem_append_right _ List.mem_cons_self) (hearlier id events origin')
  · rcases hlook.recorded hleg with ⟨rfl, -⟩ | ⟨rfl, hne, -, -⟩
    · simp at hskipped
    · have hqueued : Mark.noted (.queued id events origin')
          ∈ [Mark.noted (.queued consumer.id selected origin)] :=
        hskipped ▸ List.mem_append_right _ List.mem_cons_self
      cases List.mem_singleton.mp hqueued
      exact ⟨consumer, rfl, (h hne).append _⟩

theorem CauseLaw.work (law : CauseLaw trace o) (queue : QueueLaw trace o)
    (fanOut : FanOutLaw trace o) (replay : ReplayLaw trace o) (move : TaskMove o marks o') :
    CauseLaw (trace ++ marks) o' := by
  cases move with
  | @deliver task publish batch seen consumer leg legs marks leg' o' h hlook =>
      obtain ⟨hwaiting, before, after, htrace, hcount, hwrote, henrolled⟩ := fanOut.of_task queue h
      have hmem : (consumer, leg) ∈ seen ++ (consumer, leg) :: legs :=
        List.mem_append_right _ List.mem_cons_self
      have hearlier : ∀ id events origin,
          .noted (.queued id events origin) ∉ attempt publish consumer.id leg := by
        intro id events origin
        cases leg <;> simp [attempt]
      have hlooked : CauseLaw (trace ++ (attempt publish consumer.id leg ++ marks)) o' :=
        law.looked _ hlook hearlier (hwaiting _ hmem) fun hne =>
          .live publish before batch after htrace hcount (henrolled _ hmem) hwrote rfl hne
      exact hlooked
  | read h => exact law.silent rfl rfl (by simp)
  | grow batches ends h hstream => exact law.silent rfl rfl (by simp)
  | @send _ _ _ _ _ _ _ _ o' _ h hsend hlook hnext =>
      have hreplays := replay.works _ _ _ h
      obtain ⟨hleg, hreplayed, -⟩ := hreplays.sends hsend
      have hlooked : CauseLaw (trace ++ marks) o' :=
        law.looked [] hlook (by simp) hleg fun hne => .replay hreplays.known (hreplayed hne)
      exact hlooked
  | finish h hend => exact law.silent rfl rfl (by simp)

theorem CauseLaw.move (law : CauseLaw trace o) (queue : QueueLaw trace o)
    (fanOut : FanOutLaw trace o) (replay : ReplayLaw trace o) (move : Move o marks o') :
    CauseLaw (trace ++ marks) o' := by
  cases move with
  | report h =>
      refine law.silent rfl rfl ?_
      intro id events origin hmem
      exact not_mem_of_plain h rfl (noted_mem_map.mp hmem)
  | call move =>
      have frame := move.frame
      refine law.silent frame.maxReplay frame.stored ?_
      intro id events origin hmem
      cases frame.kind _ hmem
  | coordinate move =>
      have frame := move.frame
      refine law.silent frame.maxReplay frame.stored ?_
      intro id events origin hmem
      cases (frame.kind _ hmem).2
  | work move => exact law.work queue fanOut replay move

end Deliveries

end EventBus.Bus
