import EventBus.Json.Reader
import EventBus.Json.Writer
import Mathlib.Data.List.Basic
import Mathlib.Data.List.TakeWhile

/-!
Numbers in text. A number ends where a character follows that it cannot go on with, so what a text
reads as alone it reads as in front of any such character. The digits of a whole number read back
as the number.
-/

namespace EventBus.Json

/-- A text that no number in front of it goes on into. -/
def Stops : List Char → Prop
  | [] => True
  | c :: _ => c.isDigit = false ∧ c ≠ '.' ∧ c ≠ 'e' ∧ c ≠ 'E'

section Parts

variable {cs left rest : List Char}

theorem digitRun_append (hstops : Stops rest) (cs : List Char) :
    digitRun (cs ++ rest) = ((digitRun cs).1, (digitRun cs).2 ++ rest) := by
  induction cs with
  | nil =>
      cases rest with
      | nil => rfl
      | cons c rest => simp [digitRun, hstops.1]
  | cons c cs ih =>
      simp only [digitRun, Prod.mk.injEq] at ih
      by_cases hdigit : c.isDigit = true
      · simp [digitRun, hdigit, ih]
      · simp [digitRun, hdigit]

theorem wholePart?_append (hstops : Stops rest) {whole : List Char}
    (h : wholePart? cs = some (whole, left)) :
    wholePart? (cs ++ rest) = some (whole, left ++ rest) := by
  unfold wholePart? at h ⊢
  rw [digitRun_append hstops]
  generalize digitRun cs = run at h ⊢
  rcases run with ⟨digits, after⟩
  split at h
  · cases h
  · cases h
  · next hempty hzero =>
      obtain ⟨rfl, rfl⟩ : digits = whole ∧ after = left := by simpa using h
      split
      · next heq => exact absurd (congrArg Prod.fst heq) (by simpa using hempty)
      · next heq => exact absurd (congrArg Prod.fst heq) (by simpa using hzero _ _)
      · rfl

theorem fractionPart?_of_ne {c : Char} (h : c ≠ '.') (cs : List Char) :
    fractionPart? (c :: cs) = some (none, c :: cs) := by
  simp [fractionPart?, h]

theorem fractionPart?_append (hstops : Stops rest) {fraction? : Option (List Char)}
    (h : fractionPart? cs = some (fraction?, left)) :
    fractionPart? (cs ++ rest) = some (fraction?, left ++ rest) := by
  rcases cs with _ | ⟨c, cs⟩
  · cases h
    rcases rest with _ | ⟨d, rest⟩
    · rfl
    · exact fractionPart?_of_ne hstops.2.1 rest
  · by_cases hpoint : c = '.'
    · subst hpoint
      simp only [List.cons_append, fractionPart?, digitRun_append hstops] at h ⊢
      generalize digitRun cs = run at h ⊢
      rcases run with ⟨_ | ⟨d, digits⟩, after⟩
      · cases h
      · cases h
        rfl
    · rw [fractionPart?_of_ne hpoint] at h
      cases h
      exact fractionPart?_of_ne hpoint _

/-- The digits of an exponent whose sign has been read. -/
def exponentDigits? (negative : Bool) (cs : List Char) : Option (Option Int × List Char) :=
  match digitRun cs with
  | ([], _) => none
  | (digits, rest) =>
      some (some (if negative then -(digitsValue digits : Int) else digitsValue digits), rest)

theorem exponentDigits?_append (hstops : Stops rest) {negative : Bool} {exponent? : Option Int}
    (h : exponentDigits? negative cs = some (exponent?, left)) :
    exponentDigits? negative (cs ++ rest) = some (exponent?, left ++ rest) := by
  unfold exponentDigits? at h ⊢
  rw [digitRun_append hstops]
  generalize digitRun cs = run at h ⊢
  rcases run with ⟨_ | ⟨d, digits⟩, after⟩
  · cases h
  · cases h
    rfl

theorem exponentPart?_minus {c : Char} (h : c = 'e' ∨ c = 'E') (cs : List Char) :
    exponentPart? (c :: '-' :: cs) = exponentDigits? true cs := by
  rcases hrun : digitRun cs with ⟨_ | ⟨d, digits⟩, after⟩ <;>
    simp [exponentPart?, h, exponentDigits?, hrun]

theorem exponentPart?_plus {c : Char} (h : c = 'e' ∨ c = 'E') (cs : List Char) :
    exponentPart? (c :: '+' :: cs) = exponentDigits? false cs := by
  rcases hrun : digitRun cs with ⟨_ | ⟨d, digits⟩, after⟩ <;>
    simp [exponentPart?, h, exponentDigits?, hrun]

theorem exponentPart?_digits {c d : Char} (h : c = 'e' ∨ c = 'E') (hminus : d ≠ '-')
    (hplus : d ≠ '+') (cs : List Char) :
    exponentPart? (c :: d :: cs) = exponentDigits? false (d :: cs) := by
  rcases hrun : digitRun (d :: cs) with ⟨_ | ⟨d, digits⟩, after⟩ <;>
    simp [exponentPart?, h, exponentDigits?, hminus, hplus, hrun]

theorem exponentPart?_of_ne {c : Char} (h : ¬(c = 'e' ∨ c = 'E')) (cs : List Char) :
    exponentPart? (c :: cs) = some (none, c :: cs) := by
  simp only [exponentPart?, h, if_false]

theorem exponentPart?_append (hstops : Stops rest) {exponent? : Option Int}
    (h : exponentPart? cs = some (exponent?, left)) :
    exponentPart? (cs ++ rest) = some (exponent?, left ++ rest) := by
  rcases cs with _ | ⟨c, cs⟩
  · cases h
    rcases rest with _ | ⟨d, rest⟩
    · rfl
    · exact exponentPart?_of_ne (by simp [hstops.2.2]) rest
  · by_cases hsign : c = 'e' ∨ c = 'E'
    · rcases cs with _ | ⟨d, cs⟩
      · simp [exponentPart?, hsign, digitRun] at h
      · by_cases hminus : d = '-'
        · subst hminus
          rw [exponentPart?_minus hsign] at h
          exact (exponentPart?_minus hsign _).trans (exponentDigits?_append hstops h)
        · by_cases hplus : d = '+'
          · subst hplus
            rw [exponentPart?_plus hsign] at h
            exact (exponentPart?_plus hsign _).trans (exponentDigits?_append hstops h)
          · rw [exponentPart?_digits hsign hminus hplus] at h
            exact (exponentPart?_digits hsign hminus hplus _).trans
              (exponentDigits?_append hstops h)
    · rw [exponentPart?_of_ne hsign] at h
      cases h
      exact exponentPart?_of_ne hsign _

theorem numberText?_append (hstops : Stops rest) {written : NumberText}
    (h : numberText? cs = some (written, left)) :
    numberText? (cs ++ rest) = some (written, left ++ rest) := by
  simp only [numberText?, Option.bind_eq_bind, Option.bind_eq_some_iff, Prod.exists] at h
  obtain ⟨whole, afterWhole, hwhole, fraction?, afterFraction, hfraction, exponent?, after,
    hexponent, hwritten⟩ := h
  cases hwritten
  simp [numberText?, wholePart?_append hstops hwhole, fractionPart?_append hstops hfraction,
    exponentPart?_append hstops hexponent]

end Parts

section Numbers

variable {cs left rest : List Char} {n : Number}

/-- A number whose sign has been read. -/
def unsigned? (negative : Bool) (cs : List Char) : Option (Number × List Char) :=
  (numberText? cs).bind fun read => (read.1.value? negative).map (·, read.2)

theorem number?_minus (cs : List Char) : number? ('-' :: cs) = unsigned? true cs := by
  simp only [number?, Option.bind_eq_bind, unsigned?, Option.map_eq_bind]
  rfl

theorem number?_of_ne {c : Char} (h : c ≠ '-') (cs : List Char) :
    number? (c :: cs) = unsigned? false (c :: cs) := by
  unfold number?
  split
  · next heq => exact absurd (List.cons.inj heq).1 h
  · simp only [Option.bind_eq_bind, unsigned?, Option.map_eq_bind]
    rfl

theorem unsigned?_append (hstops : Stops rest) {negative : Bool}
    (h : unsigned? negative cs = some (n, left)) :
    unsigned? negative (cs ++ rest) = some (n, left ++ rest) := by
  simp only [unsigned?, Option.bind_eq_some_iff, Option.map_eq_some_iff, Prod.exists,
    Prod.mk.injEq] at h ⊢
  obtain ⟨written, after, htext, value, hvalue, rfl, rfl⟩ := h
  exact ⟨written, _, numberText?_append hstops htext, value, hvalue, rfl, rfl⟩

/-- A number reads the same in front of a text that it does not go on into. -/
theorem number?_append (hstops : Stops rest) (h : number? cs = some (n, left)) :
    number? (cs ++ rest) = some (n, left ++ rest) := by
  rcases cs with _ | ⟨c, cs⟩
  · cases h
  · by_cases hminus : c = '-'
    · subst hminus
      rw [number?_minus] at h
      exact (number?_minus _).trans (unsigned?_append hstops h)
    · rw [number?_of_ne hminus] at h
      exact (number?_of_ne hminus _).trans (unsigned?_append hstops h)

/-- A number starts with a minus or a digit. -/
theorem number?_start (h : number? cs = some (n, left)) :
    ∃ c more, cs = c :: more ∧ (c = '-' ∨ c.isDigit = true) := by
  rcases cs with _ | ⟨c, cs⟩
  · cases h
  · refine ⟨c, cs, rfl, ?_⟩
    by_contra hstart
    rw [not_or] at hstart
    rw [number?_of_ne hstart.1] at h
    simp [unsigned?, numberText?, wholePart?, digitRun, hstart.2] at h

end Numbers

section Integers

theorem digitsValue_toDigits (n : Nat) : digitsValue (Nat.toDigits 10 n) = n := by
  simpa only [digitsValue, Nat.ofDigitChars, Nat.mul_comm]
    using Nat.ofDigitChars_ten_toDigits (n := n)

theorem digitRun_toDigits (n : Nat) :
    digitRun (Nat.toDigits 10 n) = (Nat.toDigits 10 n, []) := by
  have hdigits : ∀ c ∈ Nat.toDigits 10 n, c.isDigit = true :=
    fun c hc => Nat.isDigit_of_mem_toDigits (by decide) (by decide) hc
  simp only [digitRun, Prod.mk.injEq]
  exact ⟨List.takeWhile_eq_self_iff.mpr hdigits, List.dropWhile_eq_nil_iff.mpr hdigits⟩

/-- Only zero is written with a zero in front. -/
theorem head?_toDigits_ne_zero {n : Nat} (hpos : 0 < n) :
    (Nat.toDigits 10 n).head? ≠ some '0' := by
  induction n using Nat.strongRecOn with
  | ind n ih =>
      rcases Nat.lt_or_ge n 10 with hlt | hge
      · simp only [Nat.toDigits_of_lt_base hlt, List.head?_cons, ne_eq, Option.some.injEq,
          Nat.digitChar_eq_zero]
        omega
      · rw [Nat.toDigits_of_base_le (by decide) hge,
          List.head?_append_of_ne_nil _ Nat.toDigits_ne_nil]
        exact ih (n / 10) (by omega) (by omega)

theorem wholePart?_toDigits (n : Nat) :
    wholePart? (Nat.toDigits 10 n) = some (Nat.toDigits 10 n, []) := by
  rw [wholePart?, digitRun_toDigits]
  split
  · next heq => exact absurd (congrArg Prod.fst heq) Nat.toDigits_ne_nil
  · next c more left heq =>
      have hdigits : Nat.toDigits 10 n = '0' :: c :: more := congrArg Prod.fst heq
      rcases Nat.eq_zero_or_pos n with rfl | hpos
      · cases hdigits
      · exact absurd (by rw [hdigits]; rfl) (head?_toDigits_ne_zero hpos)
  · rfl

theorem numberText?_toDigits (n : Nat) :
    numberText? (Nat.toDigits 10 n) = some (⟨Nat.toDigits 10 n, [], 0, true⟩, []) := by
  simp [numberText?, wholePart?_toDigits, fractionPart?, exponentPart?]

theorem value?_nonnegative {digits : List Char} (h : digitsValue digits < Nat.pow 2 64) :
    NumberText.value? ⟨digits, [], 0, true⟩ false = some (.int (digitsValue digits)) := by
  unfold NumberText.value?
  dsimp only
  rw [if_pos rfl, if_neg Bool.false_ne_true, if_pos h]

theorem value?_negative {digits : List Char} (hpos : 0 < digitsValue digits)
    (h : digitsValue digits ≤ Nat.pow 2 63) :
    NumberText.value? ⟨digits, [], 0, true⟩ true = some (.int (-(digitsValue digits : Int))) := by
  unfold NumberText.value?
  dsimp only
  rw [if_pos rfl, if_pos rfl, if_pos ⟨hpos, h⟩]

/-- The integer fits 64 bits, signed or not. -/
def IsWord (n : Int) : Prop := -(Nat.pow 2 63 : Nat) ≤ n ∧ n < (Nat.pow 2 64 : Nat)

instance (n : Int) : Decidable (IsWord n) := inferInstanceAs (Decidable (_ ∧ _))

/-- An integer that fits 64 bits reads back as itself. -/
theorem number?_integerChars {n : Int} (h : IsWord n) :
    number? (integerChars n) = some (.int n, []) := by
  obtain ⟨hleast, hmost⟩ := h
  cases n with
  | ofNat n =>
      have hbound : digitsValue (Nat.toDigits 10 n) < Nat.pow 2 64 := by
        rw [digitsValue_toDigits]
        exact Int.ofNat_lt.mp hmost
      obtain ⟨c, more, hdigits⟩ : ∃ c more, Nat.toDigits 10 n = c :: more :=
        List.exists_cons_of_ne_nil Nat.toDigits_ne_nil
      have hdigit : c.isDigit = true := Nat.isDigit_of_mem_toDigits (b := 10) (n := n) (by decide)
        (by decide) (by simp [hdigits])
      have hminus : c ≠ '-' := by
        rintro rfl
        exact absurd hdigit (by decide)
      rw [integerChars, hdigits, number?_of_ne hminus, ← hdigits, unsigned?, numberText?_toDigits,
        Option.bind_some, value?_nonnegative hbound, digitsValue_toDigits]
      rfl
  | negSucc n =>
      have hpos : 0 < digitsValue (Nat.toDigits 10 (n + 1)) := by
        rw [digitsValue_toDigits]
        exact Nat.succ_pos n
      have hbound : digitsValue (Nat.toDigits 10 (n + 1)) ≤ Nat.pow 2 63 := by
        rw [digitsValue_toDigits]
        rw [Int.negSucc_eq] at hleast
        exact Int.ofNat_le.mp (Int.neg_le_neg_iff.mp hleast)
      rw [integerChars, number?_minus, unsigned?, numberText?_toDigits, Option.bind_some,
        value?_negative hpos hbound, digitsValue_toDigits]
      rfl

end Integers

end EventBus.Json
