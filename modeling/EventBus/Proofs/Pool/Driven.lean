import EventBus.Proofs.Pool.Turns
import Mathlib.Data.List.Range
import Mathlib.Data.List.Perm.Subperm
import Mathlib.Order.Basic

/-!
A pool that is driven call by call is one of the runs under any scheduling. Each turn leaves
fewer turns to come: either one request less is to act, or one that asked or waited has come to
its end and a token passed on. So letting everyone act brings a session to rest, and each
deadline that is reached ends a wait.
-/

namespace EventBus.Pool

namespace Slot

/-- The request has no answer yet. -/
def isOpen : Slot → Bool
  | .asking _ _ | .waiting _ => true
  | _ => false

end Slot

namespace Session

variable {s s' : Session} {n m deadline goal : Nat} {old new : Slot}
  {tokens tokens' : Semaphore Nat}

def unanswered (s : Session) : Nat := s.slots.countP Slot.isOpen

/-- How many turns there can be until the session is at rest. -/
def load (s : Session) : Nat := s.ready.length + s.unanswered

section Turns

theorem length_ready_wakeIf_le (s : Session) (next : Option Nat) :
    (s.wakeIf next).ready.length ≤ s.ready.length + 1 := by
  unfold wakeIf wake
  split
  · split
    · exact Nat.le_succ _
    · simp
  · exact Nat.le_succ _

theorem unanswered_wakeIf (s : Session) (next : Option Nat) :
    (s.wakeIf next).unanswered = s.unanswered :=
  congrArg (·.countP Slot.isOpen) (roused_wakeIf s next).slots

theorem unanswered_put_le (hold : s.slots[n]? = some old) (hopen : old.isOpen = true)
    (new : Slot) : (s.put n new).unanswered ≤ s.unanswered := by
  have h := @countP_set_add n old new Slot.isOpen s.slots hold
  rw [if_pos hopen] at h
  unfold unanswered put
  dsimp only
  split at h <;> omega

theorem unanswered_put_lt (hold : s.slots[n]? = some old) (hopen : old.isOpen = true)
    (hnew : new.isOpen = false) : (s.put n new).unanswered < s.unanswered := by
  have h := @countP_set_add n old new Slot.isOpen s.slots hold
  rw [if_pos hopen, if_neg (Bool.eq_false_iff.mp hnew)] at h
  unfold unanswered put
  dsimp only
  omega

theorem Acted.now_eq (acted : Acted s n s') : s'.now = s.now := by
  cases acted with
  | leave _ _ => exact (roused_wakeIf _ _).now
  | _ => rfl

/-- A turn that is to be followed by one more than before has answered a request. -/
theorem Acted.load_le (acted : Acted s n s') : s'.load ≤ s.load := by
  cases acted with
  | refuse hslot _ | take hslot _ _ | wait hslot _ _ _ | lapse hslot _ _ _
  | redeem hslot _ _ => exact Nat.add_le_add_left (unanswered_put_le hslot rfl _) _
  | leave hslot error =>
    have hless : (s.put n (.failed error)).unanswered < s.unanswered :=
      unanswered_put_lt hslot rfl rfl
    have hready := length_ready_wakeIf_le
      (({ s with pool := (s.pool.leave n).1 } : Session).put n (.failed error)) (s.pool.leave n).2
    rw [load, unanswered_wakeIf]
    calc _ ≤ s.ready.length + 1 + (s.put n (.failed error)).unanswered :=
          Nat.add_le_add_right hready _
      _ = s.ready.length + ((s.put n (.failed error)).unanswered + 1) := by omega
      _ ≤ s.load := Nat.add_le_add_left hless _
  | keep _ _ _ _ | idle _ _ => exact Nat.le_refl _

theorem load_turn_lt (h : n ∈ s.ready) : (s.turn n).load < s.load := by
  have hacted := (acted { s with ready := s.ready.erase n } n).load_le
  refine hacted.trans_lt (Nat.add_lt_add_right ?_ _)
  rw [List.length_erase_of_mem h]
  exact Nat.sub_lt (List.length_pos_of_mem h) Nat.one_pos

theorem Sound.load_le (sound : Sound s) : s.load ≤ 2 * s.slots.length := by
  have hready : s.ready.length ≤ (List.range s.slots.length).length :=
    (sound.woken.nodup.subperm fun n hn =>
      List.mem_range.mpr (sound.woken.bound n hn)).length_le
  have hopen : s.unanswered ≤ s.slots.length := List.countP_le_length
  rw [List.length_range] at hready
  unfold load
  omega

end Turns

section Settling

theorem step?_eq_some (h : s.step? = some s') : ∃ n, n ∈ s.ready ∧ s' = s.turn n := by
  unfold step? at h
  split at h
  · cases h
  next n rest hready =>
    refine ⟨n, by simp [hready], ?_⟩
    have herase : s.ready.erase n = rest := by simp [hready]
    rw [turn, herase]
    exact (Option.some.inj h).symm

/-- What every turn keeps is kept while everyone acts. -/
theorem settle_induction {P : Session → Prop} (fuel : Nat) (h : P s)
    (hturn : ∀ {s n}, n ∈ s.ready → P s → P (s.turn n)) : P (settle fuel s) := by
  induction fuel generalizing s with
  | zero => exact h
  | succ fuel ih =>
    unfold settle
    cases hstep : s.step? with
    | none => exact h
    | some s' =>
      obtain ⟨n, hn, rfl⟩ := step?_eq_some hstep
      exact ih (hturn hn h)

theorem reaches_settled (s : Session) : s.Reaches s.settled :=
  settle_induction (P := s.Reaches) _ .refl fun hn h => h.tail (.turn hn)

theorem now_settled (s : Session) : s.settled.now = s.now :=
  settle_induction (P := fun later => later.now = s.now) _ rfl fun _ h =>
    (acted _ _).now_eq.trans h

theorem settle_atRest (fuel : Nat) (h : s.load ≤ fuel) : (settle fuel s).AtRest := by
  induction fuel generalizing s with
  | zero =>
    have hready : s.ready.length = 0 := Nat.eq_zero_of_le_zero ((Nat.le_add_right _ _).trans h)
    exact atRest_iff.mpr (List.eq_nil_of_length_eq_zero hready)
  | succ fuel ih =>
    unfold settle
    cases hstep : s.step? with
    | none => exact hstep
    | some s' =>
      obtain ⟨n, hn, rfl⟩ := step?_eq_some hstep
      exact ih (Nat.le_of_lt_succ ((load_turn_lt hn).trans_le h))

/-- Letting everyone act brings a session to rest. -/
theorem Sound.settled_atRest (sound : Sound s) : s.settled.AtRest :=
  settle_atRest _ (sound.load_le.trans (Nat.le_add_right _ 2))

end Settling

section Passing

/-- Before the first deadline time passes unnoticed. -/
theorem reach_eq
    (h : ∀ n deadline : Nat, s.slots[n]? = some (.waiting deadline) → goal < deadline) :
    s.reach goal = { s with now := goal } := by
  have hnone : ∀ entry ∈ s.deadlines, ¬ entry.2 ≤ goal := fun entry hentry =>
    Nat.not_le_of_lt (h entry.1 entry.2 (mem_deadlines.mp hentry))
  rw [reach_eq_foldl]
  generalize s.deadlines = entries at hnone
  induction entries with
  | nil => rfl
  | cons entry entries ih =>
    have hlater := hnone entry List.mem_cons_self
    rw [List.foldl_cons, if_neg (by simpa using hlater)]
    exact ih fun entry hentry => hnone entry (List.mem_cons_of_mem _ hentry)

theorem nextDeadline?_eq_some (h : s.nextDeadline? = some deadline) :
    (∃ n : Nat, s.slots[n]? = some (.waiting deadline)) ∧
      ∀ n d : Nat, s.slots[n]? = some (.waiting d) → deadline ≤ d := by
  obtain ⟨hmem, hmin⟩ := List.min?_eq_some_iff.mp h
  obtain ⟨⟨n, d⟩, hentry, rfl⟩ := List.mem_map.mp hmem
  refine ⟨⟨n, mem_deadlines.mp hentry⟩, fun n d hslot => ?_⟩
  exact hmin d (List.mem_map.mpr ⟨(n, d), mem_deadlines.mpr hslot, rfl⟩)

theorem nextDeadline?_eq_none (h : s.nextDeadline? = none) :
    s.slots[n]? ≠ some (.waiting deadline) := by
  intro hslot
  have hempty : s.deadlines = [] := by simpa [nextDeadline?] using h
  have hmem := mem_deadlines.mpr hslot
  rw [hempty] at hmem
  cases hmem

/-- The request still waits as it did, or there are fewer requests without an answer. -/
def WaitsOrFewer (n deadline bound : Nat) (s : Session) : Prop :=
  s.slots[n]? = some (.waiting deadline) ∧ s.unanswered ≤ bound ∨ s.unanswered < bound

theorem Acted.waits_or_fewer (acted : Acted s n s')
    (hwaiting : s.slots[m]? = some (.waiting deadline)) :
    s'.slots[m]? = some (.waiting deadline) ∨ s'.unanswered < s.unanswered := by
  have hother : ∀ {timeout canceled}, s.slots[n]? = some (.asking timeout canceled) →
      ∀ slot, (s.slots.set n slot)[m]? = some (.waiting deadline) := by
    intro timeout canceled hasking slot
    have hne : n ≠ m := by
      rintro rfl
      rw [hasking] at hwaiting
      cases hwaiting
    exact (List.getElem?_set_ne hne).trans hwaiting
  cases acted with
  | refuse hslot _ | take hslot _ _ | wait hslot _ _ _ | lapse hslot _ _ _ =>
    exact Or.inl (hother hslot _)
  | redeem hslot _ _ => exact Or.inr (unanswered_put_lt hslot rfl rfl)
  | leave hslot error =>
    refine Or.inr ?_
    rw [unanswered_wakeIf]
    exact @unanswered_put_lt s n _ (.failed error) hslot rfl rfl
  | keep _ _ _ _ | idle _ _ => exact Or.inl hwaiting

theorem Acted.unanswered_le (acted : Acted s n s') : s'.unanswered ≤ s.unanswered := by
  cases acted with
  | refuse hslot _ | take hslot _ _ | wait hslot _ _ _ | lapse hslot _ _ _
  | redeem hslot _ _ => exact unanswered_put_le hslot rfl _
  | leave hslot error =>
    rw [unanswered_wakeIf]
    exact @unanswered_put_le s n _ hslot rfl (.failed error)
  | keep _ _ _ _ | idle _ _ => exact Nat.le_refl _

theorem WaitsOrFewer.turn {bound : Nat} (h : WaitsOrFewer m deadline bound s) (n : Nat) :
    WaitsOrFewer m deadline bound (s.turn n) := by
  have hacted := acted { s with ready := s.ready.erase n } n
  have hle : (s.turn n).unanswered ≤ s.unanswered := hacted.unanswered_le
  rcases h with ⟨hwaiting, hbound⟩ | hfewer
  · rcases hacted.waits_or_fewer hwaiting with hwaits | hless
    · exact Or.inl ⟨hwaits, hle.trans hbound⟩
    · exact Or.inr (lt_of_lt_of_le hless hbound)
  · exact Or.inr (hle.trans_lt hfewer)

/-- A deadline that is reached ends a wait. -/
theorem Sound.unanswered_lt_of_due (sound : Sound (s.reach deadline))
    (h : s.slots[n]? = some (.waiting deadline)) :
    (s.reach deadline).settled.unanswered < s.unanswered := by
  have hreach := roused_reach s deadline
  have hstart : WaitsOrFewer n deadline s.unanswered (s.reach deadline) := by
    refine Or.inl ⟨?_, ?_⟩
    · rw [hreach.slots]
      exact h
    · rw [unanswered, hreach.slots]
      exact Nat.le_refl _
  have hend : WaitsOrFewer n deadline s.unanswered (s.reach deadline).settled :=
    settle_induction _ hstart fun _ h => h.turn _
  refine hend.resolve_left fun hstill => ?_
  have hsettled := sound.reaches (reaches_settled _)
  refine hsettled.not_stirs sound.settled_atRest (Or.inr ⟨deadline, hstill.1, Or.inr (Or.inr ?_)⟩)
  rw [now_settled, hreach.now]

theorem Sound.reaches_advanceTo (sound : Sound s) (rest : s.AtRest) (hgoal : s.now ≤ goal)
    (fuel : Nat) (hfuel : s.unanswered < fuel) : s.Reaches (advanceTo goal fuel s) := by
  induction fuel generalizing s with
  | zero => cases hfuel
  | succ fuel ih =>
    have hlater : ∀ n d : Nat, s.slots[n]? = some (.waiting d) → s.now < d := fun n d hslot =>
      Nat.lt_of_not_le fun hdue =>
        sound.not_stirs rest (Or.inr ⟨d, hslot, Or.inr (Or.inr hdue)⟩)
    have hquiet : (∀ n d : Nat, s.slots[n]? = some (.waiting d) → goal < d) →
        s.Reaches { s with now := goal } := by
      intro h
      have hstep : Step s (s.reach goal) := .reach hgoal
      rw [reach_eq h] at hstep
      exact .single hstep
    unfold advanceTo
    cases hnext : s.nextDeadline? with
    | none => exact hquiet fun n d hslot => absurd hslot (nextDeadline?_eq_none hnext)
    | some deadline =>
      obtain ⟨⟨n, hslot⟩, hmin⟩ := nextDeadline?_eq_some hnext
      dsimp only
      split
      next hdue =>
        have hreach : s.Reaches (s.reach deadline) := .single (.reach (hlater n _ hslot).le)
        have hsettled := hreach.trans (reaches_settled _)
        have hsound := sound.reaches hreach
        refine hsettled.trans (ih (sound.reaches hsettled) hsound.settled_atRest ?_ ?_)
        · rw [now_settled, (roused_reach s deadline).now]
          exact hdue
        · exact (hsound.unanswered_lt_of_due hslot).trans_le (Nat.le_of_lt_succ hfuel)
      next hdue =>
        exact hquiet fun n d hslot => (Nat.lt_of_not_le hdue).trans_le (hmin n d hslot)

/-- Letting time pass from deadline to deadline is a run. -/
theorem Sound.reaches_advance (sound : Sound s) (rest : s.AtRest) (span : Nat) :
    s.Reaches (s.advance span) :=
  sound.reaches_advanceTo rest (Nat.le_add_right _ _) _ (Nat.lt_succ_of_le List.countP_le_length)

end Passing

end Session

end EventBus.Pool
