import EventBus.Number.Binary64
import Mathlib.Tactic.Common

/-!
How binary64 values compare. What is not a number is equal to nothing, and equal values, the two
zeros among them, are told apart by no comparison with a third. The value nearest to an integer is
a number on the same side of zero, so integers on different sides never round to equal values.
-/

namespace EventBus.Binary64

theorem compare?_swap (x y : Binary64) : (compare? x y).map Ordering.swap = compare? y x := by
  cases x with
  | nan => cases y <;> rfl
  | infinite negative =>
      cases y with
      | infinite other => cases negative <;> cases other <;> rfl
      | _ => cases negative <;> rfl
  | finite =>
      cases y with
      | nan => rfl
      | infinite other => cases other <;> rfl
      | finite => exact congrArg some Std.OrientedOrd.eq_swap.symm

theorem equal_comm (x y : Binary64) : x.equal y = y.equal x := by
  rw [equal, equal, ← compare?_swap x y]
  cases compare? x y with
  | none => rfl
  | some order => cases order <;> rfl

theorem equal_self {x : Binary64} (h : x ≠ .nan) : x.equal x = true := by
  cases x with
  | nan => exact absurd rfl h
  | infinite negative => cases negative <;> rfl
  | finite => simp [equal, compare?]

/-- Equal values stand in one place of the order. -/
theorem compare?_eq_of_equal {x y : Binary64} (h : x.equal y = true) (z : Binary64) :
    compare? x z = compare? y z := by
  cases x with
  | nan => cases y <;> cases h
  | infinite negative =>
      cases y with
      | infinite other =>
          obtain rfl : negative = other := by
            cases negative <;> cases other <;> simp [equal, compare?] at h ⊢
          rfl
      | _ => cases negative <;> cases h
  | finite negative significand exponent =>
      cases y with
      | nan => cases h
      | infinite other => cases other <;> cases h
      | finite otherNegative otherSignificand otherExponent =>
          have hunits : (finite negative significand exponent).units =
              (finite otherNegative otherSignificand otherExponent).units :=
            Int.compare_eq_eq.mp (by simpa [equal, compare?] using h)
          cases z <;> simp only [compare?, hunits]

theorem compare?_eq_of_equal_right {x y : Binary64} (h : x.equal y = true) (z : Binary64) :
    compare? z x = compare? z y := by
  rw [← compare?_swap x z, ← compare?_swap y z, compare?_eq_of_equal h]

theorem div_le_roundQuotient (numerator divisor : Nat) :
    numerator / divisor ≤ roundQuotient numerator divisor := by
  unfold roundQuotient
  dsimp only
  split
  next => exact Nat.le_refl _
  next =>
    split
    next => exact Nat.le_succ _
    next =>
      split
      next => exact Nat.le_refl _
      next => exact Nat.le_succ _

/-- Scaling keeps the leading bit of an integer before the point. -/
theorem exponentOf_whole_le (n : Nat) : exponentOf n 1 ≤ n.log2 := by
  have hone : Nat.log2 1 = 0 := rfl
  unfold exponentOf
  dsimp only
  simp only [hone, precision, minExponent]
  split <;> omega

/-- A positive integer, scaled to the bits of a significand, is not rounded to nothing. -/
theorem roundQuotient_scaled_pos {n : Nat} (hpos : 0 < n) :
    0 < roundQuotient (scaled n 1 (exponentOf n 1)).1 (scaled n 1 (exponentOf n 1)).2 := by
  have hexponent := exponentOf_whole_le n
  refine Nat.lt_of_lt_of_le (Nat.div_pos ?_ ?_) (div_le_roundQuotient _ _)
  · unfold scaled
    split
    next =>
      rw [Nat.shiftLeft_eq]
      exact Nat.mul_pos hpos (Nat.two_pow_pos _)
    next hnonnegative =>
      rw [Nat.one_shiftLeft]
      calc 2 ^ (exponentOf n 1).toNat ≤ 2 ^ n.log2 := Nat.pow_le_pow_right (by decide) (by omega)
        _ ≤ n := Nat.log2_self_le (by omega)
  · unfold scaled
    split
    next => exact Nat.one_pos
    next =>
      rw [Nat.one_shiftLeft]
      exact Nat.two_pow_pos _

/-- The value nearest to an integer other than zero is infinite or has a positive significand. -/
theorem ofQuotient_whole (negative : Bool) {n : Nat} (hpos : 0 < n) :
    ofQuotient negative n 1 = .infinite negative ∨
      ∃ significand exponent, 0 < significand ∧
        ofQuotient negative n 1 = .finite negative significand exponent := by
  have hround := roundQuotient_scaled_pos hpos
  rw [ofQuotient, if_neg (by omega)]
  dsimp only
  generalize roundQuotient _ _ = significand at hround ⊢
  obtain ⟨kept, exponent, hkept, hpair⟩ : ∃ kept exponent, 0 < kept ∧
      (if significand = Nat.pow 2 precision then
        (Nat.pow 2 (precision - 1), exponentOf n 1 + 1)
      else (significand, exponentOf n 1)) = (kept, exponent) := by
    split
    next => exact ⟨_, _, Nat.two_pow_pos _, rfl⟩
    next => exact ⟨_, _, hround, rfl⟩
  rw [hpair]
  dsimp only
  split
  next => exact Or.inl rfl
  next => exact Or.inr ⟨kept, exponent, hkept, rfl⟩

theorem ofInt_ne_nan (n : Int) : ofInt n ≠ .nan := by
  rcases Nat.eq_zero_or_pos n.natAbs with hzero | hpos
  · simp [ofInt, ofQuotient, hzero, zero]
  · rcases ofQuotient_whole (decide (n < 0)) hpos with h | ⟨_, _, -, h⟩ <;> simp [ofInt, h]

theorem units_pos {significand : Nat} (hpos : 0 < significand) (exponent : Int) :
    0 < (finite false significand exponent).units := by
  rw [units, Nat.shiftLeft_eq]
  exact Int.natCast_pos.mpr (Nat.mul_pos hpos (Nat.two_pow_pos _))

theorem units_nonpos (significand : Nat) (exponent : Int) :
    (finite true significand exponent).units ≤ 0 :=
  Int.neg_nonpos_of_nonneg (Int.natCast_nonneg _)

/-- Rounding keeps integers on different sides of zero apart. -/
theorem ofInt_less_ofInt {m n : Int} (hm : m < 0) (hn : 0 < n) :
    (ofInt m).less (ofInt n) = true := by
  have hbelow := ofQuotient_whole (decide (m < 0)) (n := m.natAbs) (by omega)
  have habove := ofQuotient_whole (decide (n < 0)) (n := n.natAbs) (by omega)
  rw [← ofInt, decide_eq_true hm] at hbelow
  rw [← ofInt, decide_eq_false (by omega)] at habove
  rcases hbelow with hbelow | ⟨low, lowExponent, -, hbelow⟩ <;>
    rcases habove with habove | ⟨high, highExponent, hpos, habove⟩ <;> rw [hbelow, habove]
  · rfl
  · rfl
  · rfl
  · have hunits : (finite true low lowExponent).units < (finite false high highExponent).units :=
      Int.lt_of_le_of_lt (units_nonpos low lowExponent) (units_pos hpos highExponent)
    simpa [less, compare?] using Int.compare_eq_lt.mpr hunits

end EventBus.Binary64
