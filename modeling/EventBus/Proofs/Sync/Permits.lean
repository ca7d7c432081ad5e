import EventBus.Sync.Semaphore
import Mathlib.Data.List.Count

/-!
Permits are neither lost nor made: giving one back, taking one up and giving up change the
number of those that no one holds by one at most, and keep count of who waits. No one waits
while a permit is free.
-/

namespace EventBus.Semaphore

variable {κ : Type} {s taken : Semaphore κ} {who other : κ}

/-- The permits that no one holds yet, those kept for someone included. -/
def spare (s : Semaphore κ) : Nat := s.free + s.granted.length

/-- How often someone waits for a permit or has one kept for them. -/
def claims [BEq κ] (s : Semaphore κ) (who : κ) : Nat := (s.waiting ++ s.granted).count who

/-- No one waits while a permit is free. -/
def Orderly (s : Semaphore κ) : Prop := s.waiting = [] ∨ s.free = 0

theorem take?_eq_none_iff : s.take? = none ↔ s.free = 0 := by
  simp [take?]

theorem free_of_take? (h : s.take? = some taken) :
    s.free = taken.free + 1 ∧ taken.waiting = s.waiting ∧ taken.granted = s.granted := by
  unfold take? at h
  split at h
  · cases h
  next hfree =>
    cases h
    exact ⟨(Nat.succ_pred hfree).symm, rfl, rfl⟩

theorem spare_of_take? (h : s.take? = some taken) : taken.spare + 1 = s.spare := by
  obtain ⟨hfree, -, hgranted⟩ := free_of_take? h
  unfold spare
  rw [hfree, hgranted]
  omega

theorem orderly_of_take? (h : s.take? = some taken) (orderly : s.Orderly) : taken.Orderly := by
  obtain ⟨hfree, hwaiting, -⟩ := free_of_take? h
  refine Or.inl (hwaiting.trans (orderly.resolve_right ?_))
  rw [hfree]
  exact Nat.succ_ne_zero _

theorem orderly_wait (h : s.free = 0) (who : κ) : (s.wait who).Orderly := Or.inr h

theorem spare_release (s : Semaphore κ) : s.release.1.spare = s.spare + 1 := by
  unfold release spare
  split <;> simp <;> omega

theorem orderly_release (orderly : s.Orderly) : s.release.1.Orderly := by
  unfold release
  split
  next h => exact Or.inl h
  next who rest h => exact Or.inr (orderly.resolve_left (by simp [h]))

/-- A permit that is given back is kept for whoever has waited longest. -/
theorem waiting_release (s : Semaphore κ) :
    s.waiting = s.release.2.toList ++ s.release.1.waiting := by
  unfold release
  split <;> simp [*]

theorem granted_release (s : Semaphore κ) :
    s.release.1.granted = s.granted ++ s.release.2.toList := by
  unfold release
  split <;> simp

variable [BEq κ]

theorem orderly_redeem (orderly : s.Orderly) (who : κ) : (s.redeem who).Orderly := orderly

theorem orderly_leave (orderly : s.Orderly) (who : κ) : (s.leave who).1.Orderly := by
  unfold leave
  split
  next => exact orderly_release (orderly_redeem orderly who)
  next =>
    rcases orderly with h | h
    · exact Or.inl (by simp [h])
    · exact Or.inr h

theorem claims_of_take? (h : s.take? = some taken) (who : κ) : taken.claims who = s.claims who := by
  obtain ⟨-, hwaiting, hgranted⟩ := free_of_take? h
  rw [claims, claims, hwaiting, hgranted]

theorem claims_release (s : Semaphore κ) (who : κ) : s.release.1.claims who = s.claims who := by
  unfold release claims
  split
  next h => rfl
  next first rest h =>
    rw [h]
    simp only [List.count_append, List.count_cons, List.count_nil]
    omega

/-- One who gives up leaves the others in line in their order. -/
theorem waiting_leave_sublist (s : Semaphore κ) (who : κ) :
    List.Sublist (s.leave who).1.waiting s.waiting := by
  unfold leave
  split
  next =>
    have hwaiting := waiting_release (s.redeem who)
    rw [show s.waiting = (s.redeem who).waiting from rfl, hwaiting]
    exact List.sublist_append_right _ _
  next => exact List.erase_sublist

/-- A permit passes on to no one but the first in line. -/
theorem waiting_of_leave (h : (s.leave who).2 = some other) :
    s.waiting = other :: (s.leave who).1.waiting := by
  unfold leave at h ⊢
  split at h
  next hgranted =>
    rw [if_pos hgranted, show s.waiting = (s.redeem who).waiting from rfl,
      waiting_release (s.redeem who), h]
    rfl
  next => cases h

theorem granted_leave (h : other ∈ (s.leave who).1.granted) :
    other ∈ s.granted ∨ (s.leave who).2 = some other := by
  unfold leave at h ⊢
  split at h
  next hgranted =>
    rw [granted_release, List.mem_append, Option.mem_toList] at h
    rw [if_pos hgranted]
    exact h.imp_left List.mem_of_mem_erase
  next => exact Or.inl h

variable [LawfulBEq κ]

theorem isGranted_iff : s.isGranted who = true ↔ who ∈ s.granted := by
  simp [isGranted]

theorem spare_redeem (h : s.isGranted who = true) : (s.redeem who).spare + 1 = s.spare := by
  have hmem := isGranted_iff.mp h
  have hpos := List.length_pos_of_mem hmem
  simp only [redeem, spare, List.length_erase_of_mem hmem]
  omega

theorem spare_leave (s : Semaphore κ) (who : κ) : (s.leave who).1.spare = s.spare := by
  unfold leave
  split
  next h => rw [spare_release, spare_redeem h]
  next => rfl

/-- One who gives up leaves no more permits kept than there were. -/
theorem length_granted_leave (s : Semaphore κ) (who : κ) :
    (s.leave who).1.granted.length ≤ s.granted.length := by
  unfold leave
  split
  next h =>
    have hmem := isGranted_iff.mp h
    have hpos := List.length_pos_of_mem hmem
    have hnext : (s.redeem who).release.2.toList.length ≤ 1 := by
      cases (s.redeem who).release.2 <;> simp
    rw [granted_release, List.length_append]
    simp only [redeem, List.length_erase_of_mem hmem] at hnext ⊢
    omega
  next => exact Nat.le_refl _

theorem claims_wait_self (s : Semaphore κ) (who : κ) :
    (s.wait who).claims who = s.claims who + 1 := by
  simp only [wait, claims, List.count_append, List.count_singleton_self]
  omega

theorem claims_wait_of_ne (s : Semaphore κ) (h : other ≠ who) :
    (s.wait who).claims other = s.claims other := by
  simp [wait, claims, List.count_append, h.symm]

theorem claims_redeem_self (h : s.isGranted who = true) :
    (s.redeem who).claims who + 1 = s.claims who := by
  have hpos := List.count_pos_iff.mpr (isGranted_iff.mp h)
  simp only [redeem, claims, List.count_append, List.count_erase_self]
  omega

theorem claims_redeem_of_ne (s : Semaphore κ) (h : other ≠ who) :
    (s.redeem who).claims other = s.claims other := by
  simp only [redeem, claims, List.count_append, List.count_erase_of_ne h]

theorem claims_leave_self (h : 0 < s.claims who) : (s.leave who).1.claims who + 1 = s.claims who := by
  unfold leave
  split
  next hgranted => rw [claims_release, claims_redeem_self hgranted]
  next hgranted =>
    have hnone : s.granted.count who = 0 :=
      List.count_eq_zero.mpr (isGranted_iff.not.mp hgranted)
    simp only [claims, List.count_append, hnone, List.count_erase_self] at h ⊢
    omega

theorem claims_leave_of_ne (s : Semaphore κ) (h : other ≠ who) :
    (s.leave who).1.claims other = s.claims other := by
  unfold leave
  split
  next => rw [claims_release, claims_redeem_of_ne s h]
  next => simp only [claims, List.count_append, List.count_erase_of_ne h]

theorem claims_eq_zero_iff : s.claims who = 0 ↔ who ∉ s.waiting ∧ who ∉ s.granted := by
  rw [claims, List.count_eq_zero, List.mem_append, not_or]

end EventBus.Semaphore
