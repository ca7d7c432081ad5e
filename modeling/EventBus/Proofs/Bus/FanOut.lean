import EventBus.Proofs.Bus.Registration
import Mathlib.Data.List.Induction
import Mathlib.Data.List.Perm.Subperm

/-!
What becomes of a publish that was taken from the queue. If its write fails, the bus ends
there. Otherwise its targets are who is registered then, and the fan-out either begins a
delivery to each of them or, when there is nothing to do or no worker to do it, to none.
-/

namespace EventBus.Bus

/-- How many publishes were taken from the queue. -/
def publishCount (trace : List Mark) : Nat := ((taken trace).filterMap Command.batch?).length

/-- The consumers to which the delivery of a publish has begun. -/
def attempted (publish : Nat) (trace : List Mark) : List ConsumerId :=
  trace.filterMap fun
    | .attempted other id => if other = publish then some id else none
    | _ => none

/-- The consumers into whose feeds the events of a publish were put. -/
def fed (publish : Nat) (trace : List Mark) : List ConsumerId :=
  trace.filterMap fun
    | .noted (.queued id _ (.live other)) => if other = publish then some id else none
    | _ => none

/-- No worker was to be had in time for the fan-out of a publish, the last one taken. -/
def NoWorker (publish : Nat) (trace : List Mark) : Prop :=
  ∃ before after, trace = before ++ .noted (.noWorker "fan-out" .timedOut) :: after ∧
    publishCount before = publish + 1

/-- The consumers that are registered once a publish has been taken and the registry pruned. -/
structure Targets (maxReplay : Nat) (before : List Mark) (batch : List Event)
    (targets : List Consumer) : Prop where
  enrolled : ∀ consumer, consumer ∈ targets ↔
    Enrolled maxReplay (before ++ [.noted (.took (.publish batch))]) consumer
  distinct : (targets.map (·.id)).Nodup

namespace Leg

def isBegun : Leg → Bool
  | .fresh => false
  | _ => true

def isDelivered : Leg → Bool
  | .done (.delivered _) => true
  | _ => false

/-- If the delivery waits, it is with these events. -/
def WaitsWith (selected : List Event) (leg : Leg) : Prop :=
  ∀ events deadline, leg = .waiting events deadline → events = selected ∧ events ≠ []

end Leg

/-- The consumers of the deliveries that have come to a certain point. -/
def reached (point : Leg → Bool) (legs : List (Consumer × Leg)) : List ConsumerId :=
  (legs.filter fun entry => point entry.2).map (·.1.id)

namespace Outline

/-- The fan-out of a publish waits for a token. -/
def Waits (o : Outline) (publish : Nat) : Prop :=
  ∃ batch targets deadline, o.coordinator = .acquiring (.fanOut publish batch targets) deadline

/-- A task makes the fan-out of a publish. -/
def Works (o : Outline) (task : TaskId) (publish : Nat) : Prop :=
  ∃ batch legs, o.task task = some (.fanOut publish batch legs)

end Outline

/-- No delivery of a publish has begun, and none will. -/
structure Untouched (trace : List Mark) (o : Outline) (publish : Nat) : Prop where
  works : ∀ task, ¬o.Works task publish
  waits : ¬o.Waits publish
  attempted : attempted publish trace = []
  fed : fed publish trace = []

inductive Fate (trace : List Mark) (o : Outline) (publish : Nat) (batch : List Event)
    (targets : List Consumer) : Prop where
  | needless (h : targets = [] ∨ batch = []) (untouched : Untouched trace o publish)
  | waiting (deadline : Nat)
      (h : o.coordinator = .acquiring (.fanOut publish batch targets) deadline)
      (hlast : publish + 1 = o.publishes)
      (hworks : ∀ task, ¬o.Works task publish)
      (hattempted : attempted publish trace = []) (hfed : fed publish trace = [])
  | running (task : TaskId) (legs : List (Consumer × Leg))
      (h : o.task task = some (.fanOut publish batch legs)) (htargets : legs.map (·.1) = targets)
      (hworks : ∀ other, o.Works other publish → other = task) (hwaits : ¬o.Waits publish)
      (hselected : ∀ entry ∈ legs, entry.2.WaitsWith (entry.1.query.select batch))
      (hattempted : (attempted publish trace).Perm (reached Leg.isBegun legs))
      (hfed : (fed publish trace).Perm (reached Leg.isDelivered legs))
  | finished (hworks : ∀ task, ¬o.Works task publish) (hwaits : ¬o.Waits publish)
      (hattempted : (attempted publish trace).Perm (targets.map (·.id)))
      (hfed : (fed publish trace).Subperm (targets.map (·.id)))
  | dropped (h : NoWorker publish trace) (untouched : Untouched trace o publish)
  | interrupted (h : o.coordinator = .stopped (.error .canceled))
      (untouched : Untouched trace o publish)

/-- What became of a publish that was taken after `before`. -/
inductive Course (trace : List Mark) (o : Outline) (before : List Mark) (batch : List Event) :
    Prop where
  | refused (error : StoreError)
      (hwrote : (writes trace)[publishCount before]? = some (batch, .error error))
      (untouched : Untouched trace o (publishCount before))
  | served (targets : List Consumer)
      (hwrote : o.stored = true → (writes trace)[publishCount before]? = some (batch, .ok ()))
      (htargets : Targets o.maxReplay before batch targets)
      (fate : Fate trace o (publishCount before) batch targets)

structure FanOutLaw (trace : List Mark) (o : Outline) : Prop where
  unborn : ∀ publish, o.publishes ≤ publish → Untouched trace o publish
  course : ∀ before batch after, trace = before ++ .noted (.took (.publish batch)) :: after →
    Course trace o before batch

variable {trace marks : List Mark} {o o' : Outline} {publish : Nat} {batch : List Event}
  {targets : List Consumer}

section Readers

theorem attempted_append :
    attempted publish (trace ++ marks) = attempted publish trace ++ attempted publish marks :=
  List.filterMap_append

theorem fed_append : fed publish (trace ++ marks) = fed publish trace ++ fed publish marks :=
  List.filterMap_append

theorem attempted_eq_nil (h : ∀ mark ∈ marks, mark.isOfTask = false) :
    attempted publish marks = [] := by
  refine filterMap_eq_nil_of_kind (fun mark hkind => ?_) h
  cases mark with
  | attempted _ _ => cases hkind
  | _ => rfl

theorem fed_eq_nil (h : ∀ mark ∈ marks, mark.isOfTask = false) : fed publish marks = [] := by
  refine filterMap_eq_nil_of_kind (fun mark hkind => ?_) h
  cases mark with
  | noted notice =>
      cases notice with
      | queued _ _ _ => cases hkind
      | _ => rfl
  | _ => rfl

theorem NoWorker.append (h : NoWorker publish trace) (marks : List Mark) :
    NoWorker publish (trace ++ marks) := by
  obtain ⟨before, after, rfl, hcount⟩ := h
  exact ⟨before, after ++ marks, by simp, hcount⟩

theorem publishCount_append :
    publishCount (trace ++ marks) = publishCount trace + publishCount marks := by
  rw [publishCount, taken_append, List.filterMap_append, List.length_append]
  rfl

/-- A publish that was counted was taken at some point. -/
theorem exists_took_of_lt (h : publish < publishCount trace) :
    ∃ before batch after, trace = before ++ .noted (.took (.publish batch)) :: after ∧
      publishCount before = publish := by
  induction trace using List.reverseRecOn with
  | nil => exact absurd h (Nat.not_lt_zero _)
  | append_singleton trace mark ih =>
      by_cases hearlier : publish < publishCount trace
      · obtain ⟨before, batch, after, rfl, hcount⟩ := ih hearlier
        exact ⟨before, batch, after ++ [mark], by simp, hcount⟩
      · rw [publishCount_append] at h
        have hmark : 0 < publishCount [mark] := by omega
        obtain ⟨batch, rfl⟩ : ∃ batch, mark = .noted (.took (.publish batch)) := by
          unfold publishCount taken at hmark
          cases mark with
          | noted notice =>
              cases notice with
              | took command =>
                  cases command with
                  | publish batch => exact ⟨batch, rfl⟩
                  | _ => exact absurd hmark (Nat.lt_irrefl _)
              | _ => exact absurd hmark (Nat.lt_irrefl _)
          | _ => exact absurd hmark (Nat.lt_irrefl _)
        have hone : publishCount [Mark.noted (.took (.publish batch))] = 1 := rfl
        exact ⟨trace, batch, [], rfl, by omega⟩

theorem publishCount_eq_publishes (queue : QueueLaw trace o) : publishCount trace = o.publishes :=
  queue.counted.symm

end Readers

section Frames

/-- A move that leaves the fan-out of a publish alone. -/
structure Leaves (publish : Nat) (marks : List Mark) (o o' : Outline) : Prop where
  attempted : attempted publish marks = []
  fed : fed publish marks = []
  task : ∀ task, o.Works task publish ∨ o'.Works task publish → o'.task task = o.task task
  coordinator : o'.coordinator = o.coordinator ∧ o'.publishes = o.publishes ∨
    ¬o.Waits publish ∧ ¬o'.Waits publish ∧ o.coordinator.isGone = false

/-- What is so of a publish before a move stays so, or becomes what the move makes of it. -/
structure Carries (publish : Nat) (trace marks : List Mark) (o o' : Outline) : Prop where
  untouched : Untouched trace o publish → Untouched (trace ++ marks) o' publish
  fate : ∀ batch targets, Fate trace o publish batch targets →
    Fate (trace ++ marks) o' publish batch targets

namespace Leaves

theorem works_iff (leaves : Leaves publish marks o o') (task : TaskId) :
    o'.Works task publish ↔ o.Works task publish := by
  constructor
  · intro h
    have htask := leaves.task task (Or.inr h)
    obtain ⟨batch, legs, h⟩ := h
    exact ⟨batch, legs, htask ▸ h⟩
  · intro h
    have htask := leaves.task task (Or.inl h)
    obtain ⟨batch, legs, h⟩ := h
    exact ⟨batch, legs, htask.trans h⟩

theorem waits_iff (leaves : Leaves publish marks o o') : o'.Waits publish ↔ o.Waits publish := by
  rcases leaves.coordinator with ⟨h, -⟩ | ⟨hbefore, hafter, -⟩
  · unfold Outline.Waits
    rw [h]
  · exact iff_of_false hafter hbefore

theorem attempted_eq (leaves : Leaves publish marks o o') :
    Bus.attempted publish (trace ++ marks) = Bus.attempted publish trace := by
  rw [attempted_append, leaves.attempted, List.append_nil]

theorem fed_eq (leaves : Leaves publish marks o o') :
    Bus.fed publish (trace ++ marks) = Bus.fed publish trace := by
  rw [fed_append, leaves.fed, List.append_nil]

theorem untouched (leaves : Leaves publish marks o o') (h : Untouched trace o publish) :
    Untouched (trace ++ marks) o' publish where
  works task := by rw [leaves.works_iff]; exact h.works task
  waits := by rw [leaves.waits_iff]; exact h.waits
  attempted := by rw [leaves.attempted_eq]; exact h.attempted
  fed := by rw [leaves.fed_eq]; exact h.fed

theorem carries (leaves : Leaves publish marks o o') : Carries publish trace marks o o' := by
  refine ⟨leaves.untouched, ?_⟩
  intro batch targets fate
  cases fate with
  | needless h untouched => exact .needless h (leaves.untouched untouched)
  | waiting deadline h hlast hworks hattempted hfed =>
      rcases leaves.coordinator with ⟨hcoordinator, hpublishes⟩ | ⟨hwaits, -, -⟩
      · refine .waiting deadline (hcoordinator.trans h) (hlast.trans hpublishes.symm) ?_ ?_ ?_
        · intro task
          rw [leaves.works_iff]
          exact hworks task
        · rw [leaves.attempted_eq, hattempted]
        · rw [leaves.fed_eq, hfed]
      · exact absurd ⟨batch, targets, deadline, h⟩ hwaits
  | running task legs h htargets hworks hwaits hselected hattempted hfed =>
      refine .running task legs ?_ htargets ?_ ?_ hselected ?_ ?_
      · exact (leaves.task task (Or.inl ⟨batch, legs, h⟩)).trans h
      · intro other
        rw [leaves.works_iff]
        exact hworks other
      · rwa [leaves.waits_iff]
      · rwa [leaves.attempted_eq]
      · rwa [leaves.fed_eq]
  | finished hworks hwaits hattempted hfed =>
      refine .finished ?_ ?_ ?_ ?_
      · intro task
        rw [leaves.works_iff]
        exact hworks task
      · rwa [leaves.waits_iff]
      · rwa [leaves.attempted_eq]
      · rwa [leaves.fed_eq]
  | dropped h untouched => exact .dropped (h.append marks) (leaves.untouched untouched)
  | interrupted h untouched =>
      rcases leaves.coordinator with ⟨hcoordinator, -⟩ | ⟨-, -, hopen⟩
      · exact .interrupted (hcoordinator.trans h) (leaves.untouched untouched)
      · rw [h] at hopen
        cases hopen

end Leaves

theorem Course.append {before : List Mark} (course : Course trace o before batch)
    (carries : Carries (publishCount before) trace marks o o') (hstored : o'.stored = o.stored)
    (hmaxReplay : o'.maxReplay = o.maxReplay) : Course (trace ++ marks) o' before batch := by
  have hwrites : ∀ {write}, (writes trace)[publishCount before]? = some write →
      (writes (trace ++ marks))[publishCount before]? = some write := by
    intro write hwrite
    obtain ⟨hlt, -⟩ := List.getElem?_eq_some_iff.mp hwrite
    rw [writes_append, List.getElem?_append_left hlt, hwrite]
  cases course with
  | refused error hwrote untouched =>
      exact .refused error (hwrites hwrote) (carries.untouched untouched)
  | served targets hwrote htargets fate =>
      refine .served targets ?_ (hmaxReplay ▸ htargets) (carries.fate _ _ fate)
      intro h
      exact hwrites (hwrote (hstored ▸ h))

/-- A move that takes no publish. -/
theorem FanOutLaw.frame (law : FanOutLaw trace o)
    (hcarries : ∀ publish, Carries publish trace marks o o')
    (hno : ∀ batch, .noted (.took (.publish batch)) ∉ marks)
    (hpublishes : o'.publishes = o.publishes) (hstored : o'.stored = o.stored) (hmaxReplay : o'.maxReplay = o.maxReplay) :
    FanOutLaw (trace ++ marks) o' := by
  constructor
  · intro publish hpublish
    exact (hcarries publish).untouched (law.unborn publish (hpublishes ▸ hpublish))
  · intro before batch after htrace
    rcases append_eq_append_cons htrace with ⟨kept, hkept, -⟩ | ⟨skipped, -, rfl⟩
    · exact (law.course before batch kept hkept).append (hcarries _) hstored hmaxReplay
    · exact absurd (List.mem_append_right _ List.mem_cons_self) (hno batch)

/-- A move that takes a publish. -/
theorem FanOutLaw.take (law : FanOutLaw trace o) (queue : QueueLaw trace o)
    (skipped rest : List Mark) (hmarks : marks = skipped ++ .noted (.took (.publish batch)) :: rest)
    (hskipped : taken skipped = []) (hrest : taken rest = [])
    (hleaves : ∀ publish, publish ≠ o.publishes → Leaves publish marks o o')
    (hpublishes : o'.publishes = o.publishes + 1)
    (hstored : o'.stored = o.stored) (hmaxReplay : o'.maxReplay = o.maxReplay)
    (hcourse : publishCount (trace ++ skipped) = o.publishes →
      Course (trace ++ marks) o' (trace ++ skipped) batch) :
    FanOutLaw (trace ++ marks) o' := by
  have hno : ∀ {marks} (batch : List Event), taken marks = [] →
      Mark.noted (.took (.publish batch)) ∉ marks := by
    intro marks batch hmarks hmem
    have htaken : Command.publish batch ∈ taken marks := List.mem_filterMap.mpr ⟨_, hmem, rfl⟩
    rw [hmarks] at htaken
    cases htaken
  constructor
  · intro publish hpublish
    have hpublish' : o.publishes < publish := by omega
    exact (hleaves publish (Nat.ne_of_gt hpublish')).untouched
      (law.unborn publish (Nat.le_of_lt hpublish'))
  · intro before batch' after htrace
    -- The publish was taken earlier, or it is the one that this move takes.
    rcases append_eq_append_cons htrace with ⟨kept, hkept, -⟩ | ⟨between, rfl, hbetween⟩
    · have hcount : publishCount before ≠ o.publishes := by
        have hone : publishCount (.noted (.took (.publish batch')) :: kept)
            = publishCount kept + 1 := rfl
        rw [← publishCount_eq_publishes queue, hkept, publishCount_append, hone]
        omega
      have hcarries : Carries _ trace marks o o' := (hleaves _ hcount).carries
      exact (law.course before batch' kept hkept).append hcarries hstored hmaxReplay
    · rw [hmarks, List.append_cons_inj_of_notMem (hno batch' hskipped) (hno batch' hrest)]
        at hbetween
      obtain ⟨rfl, hmark, -⟩ := hbetween
      cases hmark
      apply hcourse
      have hskipped' : publishCount skipped = 0 := by rw [publishCount, hskipped]; rfl
      rw [publishCount_append, publishCount_eq_publishes queue, hskipped']
      rfl

end Frames

section Deliveries

variable {id : ConsumerId} {origin : Origin} {selected : List Event} {leg leg' : Leg}
  {task : TaskId}

theorem Looked.waitsWith (hlook : Looked id origin selected leg o marks leg' o')
    (h : leg.WaitsWith selected) : leg'.WaitsWith selected := by
  cases hlook with
  | put _ _ => exact nofun
  | without hlooks =>
      cases hlooks with
      | waits deadline hselected =>
          rintro events deadline' ⟨⟩
          exact ⟨rfl, hselected⟩
      | stays leg hfresh => exact h
      | ends leg outcome _ _ => exact nofun

/-- A look puts the selected events into the feed or nothing. -/
theorem Looked.recorded (hlook : Looked id origin selected leg o marks leg' o')
    (h : leg.WaitsWith selected) :
    (marks = [] ∧ leg'.isDelivered = leg.isDelivered) ∨
      marks = [.noted (.queued id selected origin)] ∧ selected ≠ [] ∧
        leg.isDelivered = false ∧ leg'.isDelivered = true := by
  cases hlook with
  | put hputs _ =>
      cases hputs with
      | atOnce hselected => exact Or.inr ⟨rfl, hselected, rfl, rfl⟩
      | afterWait waiting deadline =>
          obtain ⟨rfl, hselected⟩ := h _ deadline rfl
          exact Or.inr ⟨rfl, hselected, rfl, rfl⟩
  | without hlooks =>
      refine Or.inl ⟨rfl, ?_⟩
      cases hlooks with
      | waits deadline _ => rfl
      | stays leg _ => rfl
      | ends leg outcome hdone hfailed =>
          cases leg with
          | done _ => cases hdone
          | _ =>
              cases outcome with
              | delivered events => exact absurd rfl (hfailed events)
              | _ => rfl

theorem Looked.isBegun (hlook : Looked id origin selected leg o marks leg' o') :
    leg'.isBegun = true := by
  have hfresh := hlook.ne_fresh
  cases leg' with
  | fresh => exact absurd rfl hfresh
  | _ => rfl

variable {consumer : Consumer} {seen legs : List (Consumer × Leg)} {point : Leg → Bool}

theorem reached_append_cons : reached point (seen ++ (consumer, leg) :: legs)
    = reached point seen ++ (if point leg then [consumer.id] else []) ++ reached point legs := by
  cases h : point leg <;> simp [reached, h]

theorem reached_replace (h : point leg' = point leg) :
    reached point (seen ++ (consumer, leg') :: legs)
      = reached point (seen ++ (consumer, leg) :: legs) := by
  rw [reached_append_cons, reached_append_cons, h]

theorem reached_replace_perm (hbefore : point leg = false) (hafter : point leg' = true) :
    (reached point (seen ++ (consumer, leg) :: legs) ++ [consumer.id]).Perm
      (reached point (seen ++ (consumer, leg') :: legs)) := by
  simp only [reached_append_cons, hbefore, hafter, if_true, Bool.false_eq_true, if_false,
    List.append_nil, List.append_assoc]
  exact (List.perm_append_comm).append_left _

theorem attempted_attempt (other : Nat) : attempted other (attempt publish id leg)
    = if other = publish ∧ leg.isBegun = false then [id] else [] := by
  cases leg with
  | fresh =>
      by_cases h : other = publish
      · simp [attempt, attempted, Leg.isBegun, h]
      · simp [attempt, attempted, h, Ne.symm h]
  | _ => simp [attempt, attempted, Leg.isBegun]

theorem fed_attempt (other : Nat) : fed other (attempt publish id leg) = [] := by
  cases leg <;> rfl

/-- A task that makes no fan-out of the publish, neither before nor after. -/
theorem leaves_setTask {old : Task} {task? : Option Task} (h : o.task task = some old)
    (hold : ∀ batch legs, old ≠ .fanOut publish batch legs)
    (hnew : ∀ batch legs, task? ≠ some (.fanOut publish batch legs))
    (htask : o'.task = o.task) (hcoordinator : o'.coordinator = o.coordinator)
    (hpublishes : o'.publishes = o.publishes) (hattempted : attempted publish marks = [])
    (hfed : fed publish marks = []) : Leaves publish marks o (o'.setTask task task?) := by
  refine ⟨hattempted, hfed, ?_, Or.inl ⟨hcoordinator, hpublishes⟩⟩
  intro other hworks
  have hne : other ≠ task := by
    rintro rfl
    rcases hworks with ⟨batch, legs, hworks⟩ | ⟨batch, legs, hworks⟩
    · rw [h] at hworks
      exact hold batch legs (Option.some.inj hworks)
    · rw [Outline.setTask_task, Function.update_self] at hworks
      exact hnew batch legs hworks
  rw [Outline.setTask_task, Function.update_of_ne hne, htask]

/-- Who has a delivery in a task of the fan-out finds the fan-out running. -/
theorem Fate.running_of_task {batch' : List Event} (fate : Fate trace o publish batch targets)
    (h : o.task task = some (.fanOut publish batch' legs)) :
    batch' = batch ∧ legs.map (·.1) = targets ∧
      (∀ other, o.Works other publish → other = task) ∧ ¬o.Waits publish ∧
      (∀ entry ∈ legs, entry.2.WaitsWith (entry.1.query.select batch)) ∧
      (attempted publish trace).Perm (reached Leg.isBegun legs) ∧
      (fed publish trace).Perm (reached Leg.isDelivered legs) := by
  have hheld : o.Works task publish := ⟨batch', legs, h⟩
  cases fate with
  | needless _ untouched => exact absurd hheld (untouched.works task)
  | waiting _ _ _ hworks _ _ => exact absurd hheld (hworks task)
  | finished hworks _ _ _ => exact absurd hheld (hworks task)
  | dropped _ untouched => exact absurd hheld (untouched.works task)
  | interrupted _ untouched => exact absurd hheld (untouched.works task)
  | running other legs' hother htargets hworks hwaits hselected hattempted hfed =>
      obtain rfl : task = other := hworks task hheld
      rw [h] at hother
      cases hother
      exact ⟨rfl, htargets, hworks, hwaits, hselected, hattempted, hfed⟩

theorem Looked.attempted_eq_nil (hlook : Looked id origin selected leg o marks leg' o') :
    attempted publish marks = [] := by
  cases hlook <;> simp [attempted]

theorem Looked.fed_eq_nil (hlook : Looked id origin selected leg o marks leg' o')
    (h : origin ≠ .live publish) : fed publish marks = [] := by
  cases hlook with
  | without _ => simp [fed]
  | put _ _ => cases origin <;> simp_all [fed]

section Counts

variable {batch : List Event}
  (hlook : Looked consumer.id (.live publish) (consumer.query.select batch) leg o marks leg' o')
include hlook

/-- The first look at a delivery begins it, and no later one does. -/
theorem attempted_deliver_perm
    (h : (attempted publish trace).Perm
      (reached Leg.isBegun (seen ++ (consumer, leg) :: legs))) :
    (attempted publish (trace ++ (attempt publish consumer.id leg ++ marks))).Perm
      (reached Leg.isBegun (seen ++ (consumer, leg') :: legs)) := by
  rw [attempted_append, attempted_append, hlook.attempted_eq_nil, List.append_nil,
    attempted_attempt]
  cases hleg : leg.isBegun with
  | true => simpa [reached_replace (hlook.isBegun.trans hleg.symm)] using h
  | false =>
      simp only [and_self, if_true]
      exact (h.append_right _).trans (reached_replace_perm hleg hlook.isBegun)

/-- A look puts events into the feed when it ends the delivery that way, and only then. -/
theorem fed_deliver_perm (hwaiting : leg.WaitsWith (consumer.query.select batch))
    (h : (fed publish trace).Perm (reached Leg.isDelivered (seen ++ (consumer, leg) :: legs))) :
    (fed publish (trace ++ (attempt publish consumer.id leg ++ marks))).Perm
      (reached Leg.isDelivered (seen ++ (consumer, leg') :: legs)) := by
  rw [fed_append, fed_append, fed_attempt, List.nil_append]
  rcases hlook.recorded hwaiting with ⟨rfl, hleg⟩ | ⟨rfl, -, hbefore, hafter⟩
  · simpa [fed, reached_replace hleg] using h
  · have hmarks : fed publish [.noted (.queued consumer.id (consumer.query.select batch)
        (.live publish))] = [consumer.id] := by simp [fed]
    rw [hmarks]
    exact (h.append_right _).trans (reached_replace_perm hbefore hafter)

end Counts

theorem Outline.Works.of_setTask {task? : Option Task} {other : TaskId}
    (h : (o.setTask task task?).Works other publish) (hne : other ≠ task) :
    o.Works other publish := by
  obtain ⟨batch, legs, h⟩ := h
  rw [Outline.setTask_task, Function.update_of_ne hne] at h
  exact ⟨batch, legs, h⟩

theorem carries_deliver
    (h : o.task task = some (.fanOut publish batch (seen ++ (consumer, leg) :: legs)))
    (hlook : Looked consumer.id (.live publish) (consumer.query.select batch) leg o marks leg' o')
    (other : Nat) :
    Carries other trace (attempt publish consumer.id leg ++ marks) o
      (o'.setTask task (some (.fanOut publish batch (seen ++ (consumer, leg') :: legs)))) := by
  have frame := hlook.frame
  -- A look concerns one publish; the fan-outs of all others are left alone.
  by_cases hother : other = publish
  · subst hother
    refine ⟨fun untouched => absurd ⟨_, _, h⟩ (untouched.works task), ?_⟩
    intro batch' targets fate
    obtain ⟨rfl, htargets, hworks, hwaits, hselected, hattempted, hfed⟩ := fate.running_of_task h
    have hwaiting : leg.WaitsWith (consumer.query.select batch) :=
      hselected (consumer, leg) (by simp)
    refine .running task _ (Function.update_self ..) ?_ ?_ ?_ ?_
      (attempted_deliver_perm hlook hattempted) (fed_deliver_perm hlook hwaiting hfed)
    · simpa using htargets
    · intro task' hworks'
      by_contra hne
      obtain ⟨batch, legs, hheld⟩ := hworks'.of_setTask hne
      exact hne (hworks task' ⟨batch, legs, frame.task ▸ hheld⟩)
    · rintro ⟨batch, targets, deadline, hwaits'⟩
      exact hwaits ⟨batch, targets, deadline, frame.coordinator ▸ hwaits'⟩
    · rw [List.forall_mem_append, List.forall_mem_cons] at hselected ⊢
      exact ⟨hselected.1, hlook.waitsWith hwaiting, hselected.2.2⟩
  · have hlive : Origin.live publish ≠ .live other := by simpa using Ne.symm hother
    apply Leaves.carries
    refine leaves_setTask h ?_ ?_ frame.task frame.coordinator frame.publishes ?_ ?_
    · rintro _ _ ⟨⟩
      exact hother rfl
    · rintro _ _ ⟨⟩
      exact hother rfl
    · rw [attempted_append, attempted_attempt, hlook.attempted_eq_nil]
      simp [hother]
    · rw [fed_append, fed_attempt, hlook.fed_eq_nil hlive, List.nil_append]

theorem reached_isBegun (h : legs.all (·.2.isDone) = true) :
    reached Leg.isBegun legs = (legs.map (·.1)).map (·.id) := by
  have hbegun : ∀ entry ∈ legs, entry.2.isBegun = true := by
    intro entry hentry
    have hdone := List.all_eq_true.mp h entry hentry
    obtain ⟨_, leg⟩ := entry
    cases leg with
    | done _ => rfl
    | _ => cases hdone
  rw [reached, List.filter_eq_self.mpr hbegun, List.map_map]
  rfl

theorem carries_finish {held : Task} (h : o.task task = some held) (hend : held.CanEnd)
    (other : Nat) : Carries other trace [] o (o.setTask task none) := by
  by_cases hheld : ∃ batch legs, held = .fanOut other batch legs
  · obtain ⟨batch, legs, rfl⟩ := hheld
    refine ⟨fun untouched => absurd ⟨_, _, h⟩ (untouched.works task), ?_⟩
    intro batch' targets fate
    obtain ⟨rfl, rfl, hworks, hwaits, -, hattempted, hfed⟩ := fate.running_of_task h
    rw [List.append_nil]
    refine .finished ?_ hwaits ?_ ?_
    · intro task' hworks'
      by_cases hne : task' = task
      · obtain ⟨batch, legs, hheld⟩ := hworks'
        simp [hne] at hheld
      · exact hne (hworks task' (hworks'.of_setTask hne))
    · exact hattempted.trans (.of_eq (reached_isBegun hend))
    · rw [List.map_map]
      exact ⟨_, hfed.symm, List.filter_sublist.map _⟩
  · have hold : ∀ batch legs, held ≠ .fanOut other batch legs :=
      fun batch legs heq => hheld ⟨batch, legs, heq⟩
    exact (leaves_setTask h hold (by simp) rfl rfl rfl rfl rfl).carries

theorem FanOutLaw.work (law : FanOutLaw trace o) (move : TaskMove o marks o') :
    FanOutLaw (trace ++ marks) o' := by
  have frame := move.frame
  have hno : ∀ batch, .noted (.took (.publish batch)) ∉ marks := by
    intro batch hmem
    cases frame.kind _ hmem
  refine law.frame ?_ hno frame.publishes frame.stored frame.maxReplay
  intro publish
  cases move with
  | deliver h hlook => exact carries_deliver h hlook publish
  | finish h hend => exact carries_finish h hend publish
  | read h =>
      exact (leaves_setTask h (by simp) (by simp) rfl rfl rfl (by simp [attempted])
        (by simp [fed])).carries
  | grow batches ends h hstream =>
      exact (leaves_setTask h (by simp) (by simp) rfl rfl rfl (by simp [attempted])
        (by simp [fed])).carries
  | send h hsend hlook hnext =>
      have frame := hlook.frame
      exact (leaves_setTask h (by simp) (by simp) frame.task frame.coordinator frame.publishes
        hlook.attempted_eq_nil (hlook.fed_eq_nil (by simp))).carries

end Deliveries

section Extent

theorem reached_subperm {legs : List (Consumer × Leg)} {point : Leg → Bool} {ids : List ConsumerId}
    (htargets : legs.map (·.1) = targets) (h : ids.Perm (reached point legs)) :
    ids.Subperm (targets.map (·.id)) := by
  rw [← htargets, List.map_map]
  exact ⟨_, h.symm, List.filter_sublist.map _⟩

/-- Deliveries of a publish begin for targets only, and once for each. -/
theorem Fate.attempted_subperm (fate : Fate trace o publish batch targets) :
    (attempted publish trace).Subperm (targets.map (·.id)) := by
  have hnone : attempted publish trace = [] →
      (attempted publish trace).Subperm (targets.map (·.id)) :=
    fun h => h ▸ List.nil_subperm
  cases fate with
  | running _ _ _ htargets _ _ _ hattempted _ => exact reached_subperm htargets hattempted
  | finished _ _ hattempted _ => exact hattempted.subperm
  | waiting _ _ _ _ hattempted _ => exact hnone hattempted
  | needless _ untouched => exact hnone untouched.attempted
  | dropped _ untouched => exact hnone untouched.attempted
  | interrupted _ untouched => exact hnone untouched.attempted

/-- A publish is put into feeds of targets only, and once into each. -/
theorem Fate.fed_subperm (fate : Fate trace o publish batch targets) :
    (fed publish trace).Subperm (targets.map (·.id)) := by
  have hnone : fed publish trace = [] → (fed publish trace).Subperm (targets.map (·.id)) :=
    fun h => h ▸ List.nil_subperm
  cases fate with
  | running _ _ _ htargets _ _ _ _ hfed => exact reached_subperm htargets hfed
  | finished _ _ _ hfed => exact hfed
  | waiting _ _ _ _ _ hfed => exact hnone hfed
  | needless _ untouched => exact hnone untouched.fed
  | dropped _ untouched => exact hnone untouched.fed
  | interrupted _ untouched => exact hnone untouched.fed

theorem FanOutLaw.fed_nodup (law : FanOutLaw trace o) (queue : QueueLaw trace o) (publish : Nat) :
    (fed publish trace).Nodup := by
  by_cases hlt : publish < publishCount trace
  · obtain ⟨before, batch, after, htrace, rfl⟩ := exists_took_of_lt hlt
    cases law.course before batch after htrace with
    | refused _ _ untouched => exact untouched.fed ▸ List.nodup_nil
    | served targets _ htargets fate =>
        obtain ⟨ids, hperm, hsublist⟩ := fate.fed_subperm
        exact hperm.nodup_iff.mp (htargets.distinct.sublist hsublist)
  · rw [publishCount_eq_publishes queue, Nat.not_lt] at hlt
    exact (law.unborn publish hlt).fed ▸ List.nodup_nil

end Extent

section Commands

theorem not_waits_of_isFree (h : o.coordinator.isFree = true) : ¬o.Waits publish := by
  rintro ⟨batch, targets, deadline, hwaits⟩
  rw [hwaits] at h
  cases h

theorem not_waits_of_isGone (h : o.coordinator.isGone = true) : ¬o.Waits publish := by
  rintro ⟨batch, targets, deadline, hwaits⟩
  rw [hwaits] at h
  cases h

theorem not_waits_of_replay {consumer : Consumer} {deadline : Nat}
    (h : o.coordinator = .acquiring (.replay consumer) deadline) : ¬o.Waits publish := by
  rintro ⟨batch, targets, deadline, hwaits⟩
  rw [hwaits] at h
  cases h

/-- The coordinator waits for no token for the publish, neither before nor after. -/
theorem leaves_coordinate (hkind : ∀ mark ∈ marks, mark.isOfTask = false)
    (htask : o'.task = o.task) (hbefore : ¬o.Waits publish) (hafter : ¬o'.Waits publish)
    (hopen : o.coordinator.isGone = false) : Leaves publish marks o o' :=
  ⟨attempted_eq_nil hkind, fed_eq_nil hkind, fun _ _ => by rw [htask],
    Or.inr ⟨hbefore, hafter, hopen⟩⟩

theorem Fate.waiting_of_waits (fate : Fate trace o publish batch targets) (h : o.Waits publish) :
    (∃ deadline, o.coordinator = .acquiring (.fanOut publish batch targets) deadline) ∧
      publish + 1 = o.publishes ∧ (∀ task, ¬o.Works task publish) ∧
      attempted publish trace = [] ∧ fed publish trace = [] := by
  cases fate with
  | waiting deadline hwaits hlast hworks hattempted hfed =>
      exact ⟨⟨deadline, hwaits⟩, hlast, hworks, hattempted, hfed⟩
  | needless _ untouched => exact absurd h untouched.waits
  | running _ _ _ _ _ hwaits _ _ _ => exact absurd h hwaits
  | finished _ hwaits _ _ => exact absurd h hwaits
  | dropped _ untouched => exact absurd h untouched.waits
  | interrupted _ untouched => exact absurd h untouched.waits

/-- The wait for a token ends in one way or another. -/
theorem carries_of_waits (h : o.Waits publish)
    (hfate : ∀ batch targets deadline,
      o.coordinator = .acquiring (.fanOut publish batch targets) deadline →
      publish + 1 = o.publishes → (∀ task, ¬o.Works task publish) →
      attempted publish (trace ++ marks) = [] → fed publish (trace ++ marks) = [] →
      Fate (trace ++ marks) o' publish batch targets)
    (hkind : ∀ mark ∈ marks, mark.isOfTask = false) : Carries publish trace marks o o' := by
  refine ⟨fun untouched => absurd h untouched.waits, ?_⟩
  intro batch targets fate
  obtain ⟨⟨deadline, hwaits⟩, hlast, hworks, hattempted, hfed⟩ := fate.waiting_of_waits h
  refine hfate batch targets deadline hwaits hlast hworks ?_ ?_
  · rw [attempted_append, hattempted, attempted_eq_nil hkind]
    rfl
  · rw [fed_append, hfed, fed_eq_nil hkind]
    rfl

theorem carries_stop {result : Except BusError Unit} (hopen : o.coordinator.isGone = false)
    (hresult : result = .error .canceled ∨
      result = .ok () ∧ o.coordinator = .receiving ∧ o.commands = []) (publish : Nat) :
    Carries publish trace [.noted (.stopped result)] o (o.stop result) := by
  have hkind : ∀ mark ∈ [Mark.noted (.stopped result)], mark.isOfTask = false := by
    simp [Mark.isOfTask, Notice.isQueued]
  have hafter : ¬(o.stop result).Waits publish := not_waits_of_isGone rfl
  by_cases hwaits : o.Waits publish
  · refine carries_of_waits hwaits ?_ hkind
    intro batch targets deadline h _ hworks hattempted hfed
    rcases hresult with rfl | ⟨-, hreceiving, -⟩
    · exact .interrupted rfl ⟨hworks, hafter, hattempted, hfed⟩
    · rw [h] at hreceiving
      cases hreceiving
  · exact Leaves.carries (leaves_coordinate hkind rfl hwaits hafter hopen)

theorem carries_launch {job : Job} {deadline : Nat} (fresh : o.Fresh)
    (h : o.coordinator = .acquiring job deadline) (publish : Nat) :
    Carries publish trace [] o ((o.setCoordinator .receiving).spawn job.task) := by
  have hfree : o.task o.nextTask = none := fresh.task _ (Nat.le_refl _)
  have hafter : ¬((o.setCoordinator .receiving).spawn job.task).Waits publish :=
    not_waits_of_isFree rfl
  have hothers : ∀ task, task ≠ o.nextTask →
      ((o.setCoordinator .receiving).spawn job.task).task task = o.task task :=
    fun task hne => Function.update_of_ne hne _ _
  have hspawned : ((o.setCoordinator .receiving).spawn job.task).task o.nextTask = some job.task :=
    Function.update_self ..
  by_cases hwaits : o.Waits publish
  · refine carries_of_waits hwaits ?_ nofun
    intro batch targets deadline' h' _ hworks hattempted hfed
    rw [h] at h'
    cases h'
    refine .running o.nextTask _ hspawned ?_ ?_ hafter ?_ ?_ ?_
    · rw [List.map_map]
      exact List.map_id _
    · rintro task ⟨batch', legs, htask⟩
      by_contra hne
      exact hworks task ⟨batch', legs, (hothers task hne).symm.trans htask⟩
    · intro entry hentry
      obtain ⟨consumer, -, rfl⟩ := List.mem_map.mp hentry
      exact nofun
    · rw [hattempted]
      simp [reached, List.filter_map, Leg.isBegun, Function.comp_def]
    · rw [hfed]
      simp [reached, List.filter_map, Leg.isDelivered, Function.comp_def]
  · have hopen := Coordinator.not_gone_of_acquiring h
    refine Leaves.carries ⟨rfl, rfl, ?_, Or.inr ⟨hwaits, hafter, hopen⟩⟩
    intro task hworks
    apply hothers
    rintro rfl
    rcases hworks with ⟨batch, legs, htask⟩ | ⟨batch, legs, htask⟩
    · rw [hfree] at htask
      cases htask
    · rw [hspawned] at htask
      cases job with
      | replay consumer => cases htask
      | fanOut publish' batch' targets =>
          cases htask
          exact hwaits ⟨_, _, _, h⟩

theorem carries_drop {job : Job} {deadline : Nat} (queue : QueueLaw trace o)
    (h : o.coordinator = .acquiring job deadline) (publish : Nat) :
    Carries publish trace [.noted (.noWorker job.name .timedOut)] o
      ((o.note [.noWorker job.name .timedOut]).setCoordinator .receiving) := by
  have hkind : ∀ mark ∈ [Mark.noted (.noWorker job.name .timedOut)], mark.isOfTask = false := by
    simp [Mark.isOfTask, Notice.isQueued]
  have hafter :
      ¬((o.note [.noWorker job.name .timedOut]).setCoordinator .receiving).Waits publish :=
    not_waits_of_isFree rfl
  by_cases hwaits : o.Waits publish
  · refine carries_of_waits hwaits ?_ hkind
    intro batch targets deadline' h' hlast hworks hattempted hfed
    rw [h] at h'
    cases h'
    refine .dropped ⟨trace, [], rfl, ?_⟩ ⟨hworks, hafter, hattempted, hfed⟩
    rw [publishCount_eq_publishes queue, hlast]
  · exact Leaves.carries (leaves_coordinate hkind rfl hwaits hafter
      (Coordinator.not_gone_of_acquiring h))

theorem QueueLaw.length_writes (queue : QueueLaw trace o) (h : o.stored = true) :
    (writes trace).length = o.publishes := by
  rw [queue.counted, ← queue.written h, List.length_map]

theorem FanOutLaw.refuse {rest : List Command} {notices : List Notice} {error : StoreError}
    (law : FanOutLaw trace o) (queue : QueueLaw trace o) (h : o.coordinator = .receiving)
    (hstored : o.stored = true) (hplain : ∀ notice ∈ notices, notice.isPlain = true)
    (hkind : ∀ mark ∈ Mark.wrote batch (.error error) :: (Notice.took (.publish batch) :: notices
      ++ [Notice.stopped (.error (.ofStore error))]).map .noted, mark.isOfTask = false) :
    FanOutLaw (trace ++ .wrote batch (.error error) :: (Notice.took (.publish batch) :: notices
        ++ [Notice.stopped (.error (.ofStore error))]).map .noted)
      ((o.takePublish batch rest notices).stop (.error (.ofStore error))) := by
  have hfree := Coordinator.isFree_of_receiving h
  have hbefore : ∀ publish, ¬o.Waits publish := fun _ => not_waits_of_isFree hfree
  have hleaves : ∀ publish, Leaves publish (.wrote batch (.error error) ::
      (Notice.took (.publish batch) :: notices
        ++ [Notice.stopped (.error (.ofStore error))]).map .noted) o ((o.takePublish batch rest notices).stop (.error (.ofStore error))) := fun publish =>
    leaves_coordinate hkind rfl (hbefore publish) (not_waits_of_isGone rfl)
      (Coordinator.not_gone_of_isFree hfree)
  have hplain' : ∀ notice ∈ notices ++ [.stopped (.error (.ofStore error))],
      notice.isPlain = true := by
    simpa [or_imp, forall_and, Notice.isPlain] using hplain
  refine law.take queue [.wrote batch (.error error)]
    ((notices ++ [Notice.stopped (.error (.ofStore error))]).map .noted) rfl rfl
    (taken_noted hplain') (fun publish _ => hleaves publish) rfl rfl rfl ?_
  intro hcount
  refine .refused error ?_ ?_
  · rw [hcount, ← queue.length_writes hstored, writes_append,
      List.getElem?_append_right (Nat.le_refl _), Nat.sub_self]
    rfl
  · rw [hcount]
    exact (hleaves _).untouched (law.unborn _ (Nat.le_refl _))

/-- Who is registered after a publish was taken and the registry pruned are its targets, for
nothing else that is reported with it touches the registry. -/
theorem RegistryLaw.targets_of_publish {wrote : List Mark} {notices : List Notice}
    (registry : RegistryLaw (trace ++ marks) o') (hopen : o'.coordinator.isGone = false)
    (hmarks : marks = wrote ++ (Notice.took (.publish batch) :: notices).map .noted)
    (hplain : ∀ notice ∈ notices, notice.isPlain = true) :
    Targets o'.maxReplay (trace ++ wrote) batch o'.registry := by
  refine ⟨fun consumer => ?_, registry.distinct⟩
  have hsilent : ∀ mark ∈ notices.map Mark.noted, mark.isOfRegistry = false := by
    intro mark hmark
    obtain ⟨notice, hnotice, rfl⟩ := List.mem_map.mp hmark
    exact isOfRegistry_of_plain (hplain notice hnotice)
  have hsplit : trace ++ marks
      = (trace ++ wrote ++ [.noted (.took (.publish batch))]) ++ notices.map .noted := by
    simp [hmarks]
  have henrolled := registry.enrolled hopen consumer
  rwa [hsplit, enrolled_append_of_silent hsilent] at henrolled

theorem FanOutLaw.accept {rest : List Command} {notices : List Notice} {next : Coordinator}
    (law : FanOutLaw trace o) (queue : QueueLaw trace o) (h : o.coordinator = .receiving)
    (hplain : ∀ notice ∈ notices, notice.isPlain = true)
    (hnext : (o.takePublish batch rest notices).prune.Launches o.publishes batch next)
    (hmarks : marks = (if o.stored then [.wrote batch (.ok ())] else [])
      ++ (Notice.took (.publish batch) :: (notices ++ o.pruned)).map .noted)
    (hkind : ∀ mark ∈ marks, mark.isOfTask = false)
    (ho' : o' = (o.takePublish batch rest notices).prune.setCoordinator next)
    (registry : RegistryLaw (trace ++ marks) o') : FanOutLaw (trace ++ marks) o' := by
  let wrote : List Mark := if o.stored then [.wrote batch (.ok ())] else []
  have hfree := Coordinator.isFree_of_receiving h
  have hbefore : ∀ publish, ¬o.Waits publish := fun _ => not_waits_of_isFree hfree
  have hwrote : taken wrote = [] := by
    unfold wrote
    split <;> rfl
  have hplain' := isPlain_of_mem_append_pruned (o := o) hplain
  subst ho'
  refine law.take queue wrote ((notices ++ o.pruned).map .noted) hmarks hwrote (taken_noted hplain')
    ?_ rfl rfl rfl ?_
  · intro publish hpublish
    refine leaves_coordinate hkind rfl (hbefore publish) ?_
      (Coordinator.not_gone_of_isFree hfree)
    rintro ⟨batch', targets, deadline, hwaits⟩
    cases hnext with
    | nothing _ => cases hwaits
    | fanOut _ _ _ =>
        cases hwaits
        exact hpublish rfl
  · intro hcount
    have hunborn := law.unborn _ (Nat.le_refl _)
    have hattempted : attempted o.publishes (trace ++ marks) = [] := by
      rw [attempted_append, hunborn.attempted, attempted_eq_nil hkind, List.append_nil]
    have hfed : fed o.publishes (trace ++ marks) = [] := by
      rw [fed_append, hunborn.fed, fed_eq_nil hkind, List.append_nil]
    refine .served _ ?_ (registry.targets_of_publish hnext.not_gone hmarks hplain') ?_
    · intro hstored
      have hstored : o.stored = true := hstored
      rw [hcount, ← queue.length_writes hstored, writes_append,
        List.getElem?_append_right (Nat.le_refl _), Nat.sub_self, hmarks, if_pos hstored]
      rfl
    · rw [hcount]
      cases hnext with
      | nothing hnothing =>
          exact .needless hnothing ⟨hunborn.works, not_waits_of_isFree rfl, hattempted, hfed⟩
      | fanOut deadline _ _ => exact .waiting deadline rfl rfl hunborn.works hattempted hfed

theorem FanOutLaw.coordinate (law : FanOutLaw trace o) (queue : QueueLaw trace o) (fresh : o.Fresh)
    (registry : RegistryLaw (trace ++ marks) o') (move : CoordinatorMove o marks o') :
    FanOutLaw (trace ++ marks) o' := by
  have frame := move.frame
  have hkind : ∀ mark ∈ marks, mark.isOfTask = false := fun mark hmark => (frame.kind mark hmark).2
  have hopen := move.not_gone
  have hbefore : o.coordinator = .receiving → ∀ publish, ¬o.Waits publish :=
    fun h _ => not_waits_of_isFree (Coordinator.isFree_of_receiving h)
  cases move with
  | ready h hnext =>
      exact law.frame (fun _ => Leaves.carries (leaves_coordinate hkind rfl (not_waits_of_isFree h)
        (not_waits_of_isFree hnext) hopen)) nofun rfl rfl rfl
  | discard h =>
      exact law.frame (fun _ => Leaves.carries (leaves_coordinate hkind rfl (not_waits_of_isFree h)
        (not_waits_of_isGone rfl) hopen)) nofun rfl rfl rfl
  | stop h hresult => exact law.frame (carries_stop h hresult) (by simp) rfl rfl rfl
  | refuse h hcommands hstored hplain => exact law.refuse queue h hstored hplain hkind
  | accept h hcommands hplain hnext => exact law.accept queue h hplain hnext rfl hkind rfl registry
  | known h hcommands hregistered =>
      have hbefore := hbefore h
      exact law.frame (fun publish => Leaves.carries (leaves_coordinate hkind rfl (hbefore publish)
        (hbefore publish) hopen)) (by simp) rfl rfl rfl
  | enroll h hcommands hnew hconsumer hnext =>
      have hbefore := hbefore h
      refine law.frame (fun publish => Leaves.carries (leaves_coordinate hkind rfl (hbefore publish)
        ?_ hopen)) (by simp) rfl rfl rfl
      rcases hnext with rfl | ⟨-, deadline, rfl⟩
      · exact not_waits_of_isFree rfl
      · exact not_waits_of_replay rfl
  | expel h hcommands hplain =>
      have hbefore := hbefore h
      refine law.frame (fun publish => Leaves.carries (leaves_coordinate hkind rfl (hbefore publish)
        (hbefore publish) hopen)) ?_ rfl rfl rfl
      intro batch hmem
      rw [noted_mem_took hplain rfl] at hmem
      cases hmem
  | launch h => exact law.frame (carries_launch fresh h) nofun rfl rfl rfl
  | drop h => exact law.frame (carries_drop queue h) (by simp) rfl rfl rfl
  | abandon h =>
      exact law.frame (fun _ => Leaves.carries (leaves_coordinate hkind rfl (not_waits_of_replay h)
        (not_waits_of_isFree rfl) hopen)) nofun rfl rfl rfl

theorem FanOutLaw.move (law : FanOutLaw trace o) (queue : QueueLaw trace o) (fresh : o.Fresh)
    (registry : RegistryLaw (trace ++ marks) o') (move : Move o marks o') :
    FanOutLaw (trace ++ marks) o' := by
  have hsame : (∀ mark ∈ marks, mark.isOfTask = false) → o'.task = o.task →
      o'.coordinator = o.coordinator → o'.publishes = o.publishes →
      ∀ publish, Carries publish trace marks o o' := by
    intro hkind htask hcoordinator hpublishes publish
    exact Leaves.carries ⟨attempted_eq_nil hkind, fed_eq_nil hkind, fun _ _ => by rw [htask],
      Or.inl ⟨hcoordinator, hpublishes⟩⟩
  cases move with
  | report h =>
      refine law.frame (hsame (fun mark hmark => (kind_report h mark hmark).2) rfl rfl rfl) ?_
        rfl rfl rfl
      intro batch hmem
      exact not_mem_of_plain h rfl (noted_mem_map.mp hmem)
  | call move =>
      have frame := move.frame
      have hkind : ∀ mark ∈ marks, mark.isOfTask = false :=
        fun mark hmark => Mark.not_ofTask_of_ofCall (frame.kind mark hmark)
      refine law.frame (hsame hkind frame.task frame.coordinator frame.publishes) ?_ frame.publishes
        frame.stored frame.maxReplay
      intro batch hmem
      cases frame.kind _ hmem
  | coordinate move => exact law.coordinate queue fresh registry move
  | work move => exact law.work move

end Commands

end EventBus.Bus
