import EventBus.Proofs.Bus.Moves

/-!
What is read off the trace of a run: commands that entered the queue and that were taken
from it, writes and their answers, deliveries, and what subscriptions received.
-/

namespace EventBus.Bus

namespace Command

def batch? : Command → Option (List Event)
  | .publish batch => some batch
  | _ => none

def subscriber? : Command → Option ConsumerId
  | .subscribe id _ => some id
  | _ => none

end Command

namespace Mark

@[simp] def sent? : Mark → Option Command
  | .sent command => some command
  | _ => none

@[simp] def taken? : Mark → Option Command
  | .noted (.took command) => some command
  | _ => none

@[simp] def write? : Mark → Option (List Event × Except StoreError Unit)
  | .wrote batch result => some (batch, result)
  | _ => none

@[simp] def number? : Mark → Option ConsumerId
  | .numbered id => some id
  | _ => none

@[simp] def gone? : Mark → Option ConsumerId
  | .gone id => some id
  | _ => none

end Mark

/-- The commands of the calls that returned without an error, in the order of the queue. -/
def sent (trace : List Mark) : List Command := trace.filterMap Mark.sent?

/-- The commands that the coordinator has taken from the queue. -/
def taken (trace : List Mark) : List Command := trace.filterMap Mark.taken?

def published (trace : List Mark) : List (List Event) := (sent trace).filterMap Command.batch?

def writes (trace : List Mark) : List (List Event × Except StoreError Unit) :=
  trace.filterMap Mark.write?

/-- The batch of a write that has succeeded. -/
def writtenBatch? : List Event × Except StoreError Unit → Option (List Event)
  | (batch, .ok ()) => some batch
  | (_, .error _) => none

/-- The batches that the store has accepted. -/
def accepted (trace : List Mark) : List (List Event) := (writes trace).filterMap writtenBatch?

/-- The numbers that calls to subscribe took. -/
def numbers (trace : List Mark) : List ConsumerId := trace.filterMap Mark.number?

/-- The numbers of the calls to subscribe that returned without an error. -/
def subscribers (trace : List Mark) : List ConsumerId := (sent trace).filterMap Command.subscriber?

/-- The consumers whose subscription was dropped. -/
def gone (trace : List Mark) : List ConsumerId := trace.filterMap Mark.gone?

section Silent

/-! Where nothing is to be read. -/

variable {α : Type} {read : Mark → Option α} {marks : List Mark}

/-- A reader that sees nothing in a mark of some kind sees nothing in many of them. -/
theorem filterMap_eq_nil_of_kind {kind : Mark → Bool} {value : Bool}
    (hread : ∀ mark, kind mark = value → read mark = none)
    (h : ∀ mark ∈ marks, kind mark = value) : marks.filterMap read = [] :=
  List.filterMap_eq_nil_iff.mpr fun mark hmark => hread mark (h mark hmark)

theorem Mark.not_ofCall_of_ofTask {mark : Mark} (h : mark.isOfTask = true) :
    mark.isOfCall = false := by
  cases mark with
  | noted _ => rfl
  | yielded _ _ => rfl
  | attempted _ _ => rfl
  | _ => cases h

theorem Mark.not_ofTask_of_ofCall {mark : Mark} (h : mark.isOfCall = true) :
    mark.isOfTask = false := by
  by_contra htask
  rw [Bool.not_eq_false] at htask
  rw [not_ofCall_of_ofTask htask] at h
  cases h

theorem kind_report {notices : List Notice} (h : ∀ notice ∈ notices, notice.isPlain = true) :
    ∀ mark ∈ notices.map Mark.noted, mark.isOfCall = false ∧ mark.isOfTask = false :=
  kind_noted fun notice hnotice => Notice.isQueued_of_isPlain (h notice hnotice)

end Silent

section Readers

variable {trace marks : List Mark} {notices : List Notice}

theorem taken_append : taken (trace ++ marks) = taken trace ++ taken marks := List.filterMap_append

theorem mem_taken {command : Command} : command ∈ taken trace ↔ .noted (.took command) ∈ trace := by
  rw [taken, List.mem_filterMap]
  constructor
  · rintro ⟨mark, hmark, hread⟩
    cases mark with
    | noted notice =>
      cases notice with
      | took _ => exact Option.some.inj hread ▸ hmark
      | _ => cases hread
    | _ => cases hread
  · exact fun h => ⟨_, h, rfl⟩

theorem sent_append : sent (trace ++ marks) = sent trace ++ sent marks := List.filterMap_append

theorem writes_append : writes (trace ++ marks) = writes trace ++ writes marks :=
  List.filterMap_append

theorem numbers_append : numbers (trace ++ marks) = numbers trace ++ numbers marks :=
  List.filterMap_append

theorem gone_append : gone (trace ++ marks) = gone trace ++ gone marks := List.filterMap_append

theorem subscribers_append :
    subscribers (trace ++ marks) = subscribers trace ++ subscribers marks := by
  rw [subscribers, sent_append, List.filterMap_append]
  rfl

theorem sent_eq_nil (h : ∀ mark ∈ marks, mark.isOfCall = false) : sent marks = [] := by
  refine filterMap_eq_nil_of_kind (fun mark hkind => ?_) h
  cases mark with
  | sent _ => cases hkind
  | _ => rfl

theorem sent_filter_isOfCall (trace : List Mark) :
    sent (trace.filter Mark.isOfCall) = sent trace := by
  rw [sent, sent, List.filterMap_filter]
  refine List.filterMap_congr fun mark _ => ?_
  cases mark <;> rfl

theorem numbers_eq_nil (h : ∀ mark ∈ marks, mark.isOfCall = false) : numbers marks = [] := by
  refine filterMap_eq_nil_of_kind (fun mark hkind => ?_) h
  cases mark with
  | numbered _ => cases hkind
  | _ => rfl

theorem gone_eq_nil (h : ∀ mark ∈ marks, mark.isOfCall = false) : gone marks = [] := by
  refine filterMap_eq_nil_of_kind (fun mark hkind => ?_) h
  cases mark with
  | gone _ => cases hkind
  | _ => rfl

theorem taken_eq_nil_of_task (h : ∀ mark ∈ marks, mark.isOfTask = true) : taken marks = [] := by
  refine filterMap_eq_nil_of_kind (fun mark hkind => ?_) h
  cases mark with
  | noted notice =>
      cases notice with
      | took _ => cases hkind
      | _ => rfl
  | _ => rfl

theorem writes_eq_nil_of_task (h : ∀ mark ∈ marks, mark.isOfTask = true) : writes marks = [] := by
  refine filterMap_eq_nil_of_kind (fun mark hkind => ?_) h
  cases mark with
  | wrote _ _ => cases hkind
  | _ => rfl

theorem writes_noted (notices : List Notice) : writes (notices.map .noted) = [] := by
  simp [writes]

theorem taken_noted (h : ∀ notice ∈ notices, notice.isPlain = true) :
    taken (notices.map .noted) = [] := by
  refine List.filterMap_eq_nil_iff.mpr fun mark hmark => ?_
  obtain ⟨notice, hnotice, rfl⟩ := List.mem_map.mp hmark
  have hplain := h notice hnotice
  cases notice with
  | took _ => cases hplain
  | _ => rfl

/-- Of a command with plain reports only the command was taken. -/
theorem taken_took (command : Command) (h : ∀ notice ∈ notices, notice.isPlain = true) :
    taken ((Notice.took command :: notices).map .noted) = [command] :=
  congrArg (command :: ·) (taken_noted h)

end Readers

/-- What the moves preserve holds at the end of them. -/
theorem Moves.invariant {o o' : Outline} {trace : List Mark} {P : List Mark → Outline → Prop}
    (moves : Moves o trace o') (first : P [] o)
    (step : ∀ {trace middle marks last}, P trace middle → Move middle marks last →
      P (trace ++ marks) last) : P trace o' := by
  induction moves with
  | refl => exact first
  | tail _ move ih => exact step ih move

end EventBus.Bus
