import EventBus.Pattern.Predicate
import EventBus.Proofs.Json.Equality
import EventBus.Proofs.Json.NumberRange
import EventBus.Proofs.Number.Comparison

/-!
Numbers as literals. Two numbers are compared as signed words if both are such, else as unsigned
words if both are such, else by their nearest binary64 values. On the numbers that are read from
texts the three ways make one equality: integers are equal only to themselves, also where they
round to one value, and numbers that are equal have equal values, so that a numeric constraint
finds whatever a literal finds.
-/

namespace EventBus

namespace Binary64

theorem ne_nan_of_isFinite {x : Binary64} (h : x.isFinite = true) : x ≠ .nan := by
  rintro rfl
  cases h

theorem equal_eq_false_of_less {x y : Binary64} (h : x.less y = true) : x.equal y = false := by
  rw [less, beq_iff_eq] at h
  rw [equal, h]
  rfl

end Binary64

namespace Number

open Json (IsWord)

theorem signedWord?_eq_some_iff {a : Number} {x : Int} :
    a.signedWord? = some x ↔
      a = .int x ∧ -(Nat.pow 2 63 : Nat) ≤ x ∧ x < (Nat.pow 2 63 : Nat) := by
  cases a with
  | float => simp [signedWord?]
  | int n =>
      rw [signedWord?, Option.ite_none_right_eq_some, Number.int.injEq, Option.some.injEq]
      constructor
      · rintro ⟨hrange, rfl⟩
        exact ⟨rfl, hrange⟩
      · rintro ⟨rfl, hrange⟩
        exact ⟨hrange, rfl⟩

theorem unsignedWord?_eq_some_iff {a : Number} {x : Nat} :
    a.unsignedWord? = some x ↔ a = .int x ∧ x < Nat.pow 2 64 := by
  cases a with
  | float => simp [unsignedWord?]
  | int n =>
      rw [unsignedWord?, Option.ite_none_right_eq_some, Number.int.injEq, Option.some.injEq]
      constructor
      · rintro ⟨hrange, rfl⟩
        exact ⟨by omega, by omega⟩
      · rintro ⟨rfl, hrange⟩
        exact ⟨⟨Int.natCast_nonneg _, Int.ofNat_lt.mpr hrange⟩, rfl⟩

theorem equal_float_left (x : Binary64) (b : Number) :
    (Number.float x).equal b = x.equal b.toBinary64 := rfl

theorem equal_float_right (a : Number) (x : Binary64) :
    a.equal (.float x) = a.toBinary64.equal x := by
  rw [equal, signedWord?.eq_def (.float x), unsignedWord?.eq_def (.float x)]
  cases a.signedWord? <;> cases a.unsignedWord? <;> rfl

/-- Integers of 64 bits are compared exactly. Only one below zero and one beyond the signed words
have no words of one kind, and their values are on different sides of zero. -/
theorem equal_int {m n : Int} (hm : IsWord m) (hn : IsWord n) :
    (Number.int m).equal (.int n) = (m == n) := by
  rw [equal]
  split
  next x y hx hy =>
    cases (signedWord?_eq_some_iff.mp hx).1
    cases (signedWord?_eq_some_iff.mp hy).1
    rfl
  next hsigned =>
    split
    next x y hx hy =>
      cases (unsignedWord?_eq_some_iff.mp hx).1
      cases (unsignedWord?_eq_some_iff.mp hy).1
      rw [Bool.eq_iff_iff, beq_iff_eq, beq_iff_eq, Int.natCast_inj]
    next hunsigned =>
      have hnotSigned : ¬((m < (Nat.pow 2 63 : Nat)) ∧ n < (Nat.pow 2 63 : Nat)) := fun hboth =>
        hsigned m n (signedWord?_eq_some_iff.mpr ⟨rfl, hm.1, hboth.1⟩)
          (signedWord?_eq_some_iff.mpr ⟨rfl, hn.1, hboth.2⟩)
      have hnotUnsigned : ¬(0 ≤ m ∧ 0 ≤ n) := by
        rintro ⟨hleft, hright⟩
        obtain ⟨x, rfl⟩ := Int.eq_ofNat_of_zero_le hleft
        obtain ⟨y, rfl⟩ := Int.eq_ofNat_of_zero_le hright
        exact hunsigned x y (unsignedWord?_eq_some_iff.mpr ⟨rfl, Int.ofNat_lt.mp hm.2⟩)
          (unsignedWord?_eq_some_iff.mpr ⟨rfl, Int.ofNat_lt.mp hn.2⟩)
      have hne : (m == n) = false := by
        rw [beq_eq_false_iff_ne]
        rintro rfl
        omega
      have hpositive : 0 < (Nat.pow 2 63 : Nat) := Nat.two_pow_pos 63
      have hsides : (m < 0 ∧ 0 < n) ∨ (n < 0 ∧ 0 < m) := by omega
      rw [hne]
      rcases hsides with ⟨hbelow, habove⟩ | ⟨hbelow, habove⟩
      · exact Binary64.equal_eq_false_of_less (Binary64.ofInt_less_ofInt hbelow habove)
      · exact (Binary64.equal_comm _ _).trans
          (Binary64.equal_eq_false_of_less (Binary64.ofInt_less_ofInt hbelow habove))

theorem toBinary64_ne_nan {a : Number} (h : a.InRange) : a.toBinary64 ≠ .nan := by
  cases a with
  | int n => exact Binary64.ofInt_ne_nan n
  | float x => exact Binary64.ne_nan_of_isFinite h

theorem equal_self {a : Number} (h : a.InRange) : a.equal a = true := by
  cases a with
  | int n => rw [equal_int h h, beq_self_eq_true]
  | float x => exact Binary64.equal_self (Binary64.ne_nan_of_isFinite h)

theorem equal_comm {a b : Number} (ha : a.InRange) (hb : b.InRange) : a.equal b = b.equal a := by
  cases a with
  | int m =>
      cases b with
      | int n => rw [equal_int ha hb, equal_int hb ha, Bool.beq_comm]
      | float y => rw [equal_float_right, equal_float_left, Binary64.equal_comm]
  | float x => rw [equal_float_left, equal_float_right, Binary64.equal_comm]

/-- Equal numbers have equal values. -/
theorem toBinary64_equal_of_equal {a b : Number} (ha : a.InRange) (hb : b.InRange)
    (h : a.equal b = true) : a.toBinary64.equal b.toBinary64 = true := by
  cases a with
  | float x => exact h
  | int m =>
      cases b with
      | float y => rwa [equal_float_right] at h
      | int n =>
          rw [equal_int ha hb, beq_iff_eq] at h
          rw [h]
          exact Binary64.equal_self (toBinary64_ne_nan hb)

end Number

namespace Predicate

open Json (IsWord)

/-- Equality of number literals, on the numbers that documents hold: it is reflexive and symmetric,
it is exact on integers, and a numeric constraint to the value of a literal finds every number that
the literal finds. -/
theorem literalEqual_number_laws :
    (∀ (cs : List Char) (document : Json) (a : Number), Json.ofChars? cs = some document →
      .number a ∈ document.nodes → a.InRange) ∧
    (∀ a : Number, a.InRange → literalEqual (.number a) (.number a) = true) ∧
    (∀ a b : Number, a.InRange → b.InRange →
      literalEqual (.number a) (.number b) = literalEqual (.number b) (.number a)) ∧
    (∀ m n : Int, IsWord m → IsWord n →
      (literalEqual (.number (.int m)) (.number (.int n)) = true ↔ m = n)) ∧
    ∀ a b : Number, a.InRange → b.InRange → literalEqual (.number a) (.number b) = true →
      accepts (.numeric [⟨.equal, a.toBinary64⟩]) (.number b) = true := by
  refine ⟨fun cs document a hread => Json.numbersInRange_of_ofChars? hread a,
    fun a => Number.equal_self, fun a b => Number.equal_comm, fun m n hm hn => ?_,
    fun a b ha hb hequal => ?_⟩
  · rw [literalEqual, Number.equal_int hm hn, beq_iff_eq]
  · have hvalues := Number.toBinary64_equal_of_equal ha hb hequal
    rw [Binary64.equal_comm] at hvalues
    simpa [accepts, Comparison.accepts, Relation.holds] using hvalues

/-- Two integers that round to one value are told apart, as are those on either side of the signed
words, while the value that both round to is found by the literal of either. -/
theorem near_integers_told_apart :
    let even : Number := .int 9007199254740992
    let odd : Number := .int 9007199254740993
    let rounded : Number := .float odd.toBinary64
    Json.ofChars? "[9007199254740993,9007199254740992.0]".toList =
      some (.array [.number odd, .number rounded]) ∧
    even.toBinary64 = odd.toBinary64 ∧
    literalEqual (.number odd) (.number even) = false ∧
    literalEqual (.number (.int 9223372036854775807)) (.number (.int 9223372036854775808)) =
      false ∧
    literalEqual (.number (.int (-1))) (.number (.int 18446744073709551615)) = false ∧
    literalEqual (.number odd) (.number odd) = true ∧
    literalEqual (.number odd) (.number rounded) = literalEqual (.number rounded) (.number odd) ∧
    accepts (.numeric [⟨.equal, odd.toBinary64⟩]) (.number rounded) = true := by
  intro even odd rounded
  obtain ⟨hrange, hself, hcomm, hexact, hfound⟩ := literalEqual_number_laws
  have hread : Json.ofChars? "[9007199254740993,9007199254740992.0]".toList =
      some (.array [.number odd, .number rounded]) := by decide +kernel
  have hodd : odd.InRange := hrange _ _ odd hread (by simp [Json.nodes, Json.nodesOfItems])
  have hrounded : rounded.InRange :=
    hrange _ _ rounded hread (by simp [Json.nodes, Json.nodesOfItems])
  have hapart {m n : Int} (hm : IsWord m) (hn : IsWord n) (hne : m ≠ n) :
      literalEqual (.number (.int m)) (.number (.int n)) = false :=
    Bool.eq_false_iff.mpr fun hequal => hne ((hexact m n hm hn).mp hequal)
  exact ⟨hread, by decide, hapart (by decide) (by decide) (by decide),
    hapart (by decide) (by decide) (by decide), hapart (by decide) (by decide) (by decide),
    hself odd hodd, hcomm odd rounded hodd hrounded, hfound odd rounded hodd hrounded (by decide)⟩

end Predicate

end EventBus
