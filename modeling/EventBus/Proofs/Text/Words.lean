import EventBus.Text.Word
import Mathlib.Data.List.Basic

/-!
Which texts are words. A word is written with one or more digits and perhaps a plus sign in front.
Zeros in front of the digits are harmless, however many: only the number that the digits stand for
has to be below the bound, and reading stops no sooner than that number exceeds it.
-/

namespace EventBus.Word

variable {cs : List Char} {n : Nat}

/-- One or more digits that stand for the number. -/
structure Decimal (digits : List Char) (n : Nat) : Prop where
  nonempty : digits ≠ []
  isDigit : ∀ c ∈ digits, c.isDigit = true
  value : Nat.ofDigitChars 10 digits 0 = n

/-- The text writes the number, which fits a word. -/
structure Writes (cs : List Char) (n : Nat) : Prop where
  decimal : Decimal cs n ∨ ∃ digits, cs = '+' :: digits ∧ Decimal digits n
  bounded : n < bound

theorem decimal_toDigits (n : Nat) : Decimal (Nat.toDigits 10 n) n where
  nonempty := Nat.toDigits_ne_nil
  isDigit _ hc := Nat.isDigit_of_mem_toDigits (by decide) (by decide) hc
  value := Nat.ofDigitChars_ten_toDigits

/-- Further digits never make a number smaller. -/
theorem le_ofDigitChars (digits : List Char) (start : Nat) :
    start ≤ Nat.ofDigitChars 10 digits start := by
  induction digits generalizing start with
  | nil => exact Nat.le_refl _
  | cons c digits ih =>
      rw [Nat.ofDigitChars_cons]
      exact Nat.le_trans (by omega) (ih _)

theorem readDigits_eq_ok_iff {start : Nat} (hstart : start < bound) :
    readDigits start cs = .ok n ↔
      (∀ c ∈ cs, c.isDigit = true) ∧ Nat.ofDigitChars 10 cs start = n ∧ n < bound := by
  induction cs generalizing start with
  | nil =>
      simp only [readDigits, Except.ok.injEq, List.not_mem_nil, false_implies, implies_true,
        true_and]
      exact ⟨fun h => ⟨h, h ▸ hstart⟩, fun h => h.1⟩
  | cons c cs ih =>
      rw [readDigits, List.forall_mem_cons, Nat.ofDigitChars_cons, Nat.mul_comm 10]
      by_cases hdigit : c.isDigit = true
      · rw [if_pos hdigit]
        by_cases hnext : start * 10 + (c.toNat - '0'.toNat) < bound
        · simp only [hnext, if_true, ih hnext, hdigit, true_and]
        · simp only [hnext, if_false, reduceCtorEq, false_iff]
          rintro ⟨-, rfl, hbound⟩
          exact hnext (Nat.lt_of_le_of_lt (le_ofDigitChars cs _) hbound)
      · simp [hdigit]

theorem readDigits_zero_iff (hcs : cs ≠ []) :
    readDigits 0 cs = .ok n ↔ Decimal cs n ∧ n < bound := by
  rw [readDigits_eq_ok_iff (by decide)]
  exact ⟨fun ⟨hdigits, hvalue, hbound⟩ => ⟨⟨hcs, hdigits, hvalue⟩, hbound⟩,
    fun ⟨h, hbound⟩ => ⟨h.isDigit, h.value, hbound⟩⟩

theorem not_decimal_plus (digits : List Char) : ¬Decimal ('+' :: digits) n := fun h =>
  absurd (h.isDigit '+' List.mem_cons_self) (by decide)

theorem writes_plus_iff {digits : List Char} :
    Writes ('+' :: digits) n ↔ Decimal digits n ∧ n < bound := by
  constructor
  · rintro ⟨hself | ⟨_, heq, hdecimal⟩, hbound⟩
    · exact absurd hself (not_decimal_plus digits)
    · cases heq
      exact ⟨hdecimal, hbound⟩
  · rintro ⟨hdecimal, hbound⟩
    exact ⟨Or.inr ⟨digits, rfl, hdecimal⟩, hbound⟩

theorem writes_of_ne_plus_iff (hplus : ∀ digits, cs ≠ '+' :: digits) :
    Writes cs n ↔ Decimal cs n ∧ n < bound := by
  constructor
  · rintro ⟨hself | ⟨digits, heq, -⟩, hbound⟩
    · exact ⟨hself, hbound⟩
    · exact absurd heq (hplus digits)
  · rintro ⟨hdecimal, hbound⟩
    exact ⟨Or.inl hdecimal, hbound⟩

/-- A text reads as a number exactly when it writes it. -/
theorem read_eq_ok_iff : read cs = .ok n ↔ Writes cs n := by
  unfold read
  split
  · rw [writes_of_ne_plus_iff (by simp)]
    simp only [reduceCtorEq, false_iff]
    exact fun h => h.1.nonempty rfl
  · rw [writes_plus_iff]
    simp only [reduceCtorEq, false_iff]
    exact fun h => h.1.nonempty rfl
  · next digits hmore =>
      have hdigits : digits ≠ [] := by
        rintro rfl
        exact hmore rfl
      rw [writes_plus_iff, readDigits_zero_iff hdigits]
  · next hempty _ hplus =>
      rw [writes_of_ne_plus_iff hplus, readDigits_zero_iff hempty]

end EventBus.Word
