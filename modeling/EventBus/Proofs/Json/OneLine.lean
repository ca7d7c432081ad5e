import EventBus.Json.Writer
import EventBus.Proofs.Json.Canonical

/-!
Written JSON is one line. Strings have their control characters escaped, and nothing else that is
written has any, so no character of the text of a value comes before the space.
-/

namespace EventBus.Json

/-- No character comes before the space: no line ends and no other control character is there. -/
def Plain (cs : List Char) : Prop := ∀ c ∈ cs, 32 ≤ c.toNat

instance (cs : List Char) : Decidable (Plain cs) :=
  List.decidableBAll (fun c : Char => 32 ≤ c.toNat) cs

theorem plain_append {cs ds : List Char} : Plain (cs ++ ds) ↔ Plain cs ∧ Plain ds :=
  List.forall_mem_append

theorem plain_cons {c : Char} {cs : List Char} : Plain (c :: cs) ↔ 32 ≤ c.toNat ∧ Plain cs :=
  List.forall_mem_cons

theorem plain_nil : Plain [] := by simp [Plain]

theorem Plain.of_subset {cs ds : List Char} (h : Plain ds) (hsubset : cs ⊆ ds) : Plain cs :=
  fun c hc => h c (hsubset hc)

theorem plain_replicate_zero (n : Nat) : Plain (List.replicate n '0') := by
  intro c hc
  obtain rfl := List.eq_of_mem_replicate hc
  decide

theorem plain_toDigits (n : Nat) : Plain (Nat.toDigits 10 n) := by
  intro c hc
  have hdigit := Nat.isDigit_of_mem_toDigits (by decide) (by decide) hc
  simp only [Char.isDigit, Bool.and_eq_true, decide_eq_true_eq] at hdigit
  exact Nat.le_trans (by decide) (UInt32.le_iff_toNat_le.mp hdigit.1)

theorem plain_hexChar (n : Nat) : 32 ≤ (hexChar n).toNat := by
  have hall : ∀ m < 16, 32 ≤ (Nat.digitChar m).toNat := by decide
  exact hall _ (Nat.mod_lt n (by decide))

theorem plain_escaped (c : Char) : Plain (escaped c) := by
  unfold escaped
  repeat' split
  all_goals simp only [plain_cons, plain_nil, and_true, plain_hexChar]
  all_goals first | decide | omega

theorem plain_stringChars (s : String) : Plain (stringChars s) := by
  rw [stringChars, plain_append, plain_cons]
  refine ⟨⟨by decide, fun c hc => ?_⟩, by decide⟩
  obtain ⟨d, -, hd⟩ := List.mem_flatMap.mp hc
  exact plain_escaped d c hd

theorem plain_decimal (decimal : Shortest.Decimal) : Plain (decimal.text numberLayout).toList := by
  have hdigits := plain_toDigits decimal.digits
  have hsuffix : Plain numberLayout.wholeSuffix.toList := by decide
  have hexponents : Plain numberLayout.negativeExponent.toList ∧
      Plain numberLayout.positiveExponent.toList := by decide
  have hpoint : 32 ≤ '.'.toNat := by decide
  have hzero : 32 ≤ '0'.toNat := by decide
  -- The four layouts: whole, with a point inside, with zeros in front, with an exponent.
  simp only [Shortest.Decimal.text]
  split
  · simp only [String.toList_append, String.toList_ofList, plain_append]
    exact ⟨⟨hdigits, plain_replicate_zero _⟩, hsuffix⟩
  · split
    · simp only [String.toList_ofList, plain_append, plain_cons]
      exact ⟨hdigits.of_subset (List.take_subset _ _), hpoint,
        hdigits.of_subset (List.drop_subset _ _)⟩
    · split
      · simp only [String.toList_ofList, plain_append, plain_cons, List.cons_append]
        exact ⟨hzero, hpoint, plain_replicate_zero _, hdigits⟩
      · simp only [String.toList_append, String.toList_ofList, Shortest.digitsText, plain_append]
        refine ⟨⟨?_, ?_⟩, plain_toDigits _⟩
        · split
          next first second rest hmore =>
            rw [hmore, plain_cons] at hdigits
            exact plain_cons.mpr ⟨hdigits.1, plain_cons.mpr ⟨hpoint, hdigits.2⟩⟩
          next => exact hdigits
        · split
          · exact hexponents.1
          · exact hexponents.2

theorem plain_numberChars (n : Number) : Plain (numberChars n) := by
  cases n with
  | int n =>
      cases n with
      | ofNat n => exact plain_toDigits n
      | negSucc n => exact plain_cons.mpr ⟨by decide, plain_toDigits _⟩
  | float x =>
      cases x with
      | finite negative significand exponent =>
          have hsign : Plain (if negative then "-" else "").toList := by
            cases negative <;> decide
          rw [numberChars, Shortest.text?]
          split
          · simp only [Option.getD_some, String.toList_append, plain_append]
            exact ⟨⟨hsign, by decide⟩, by decide⟩
          · simp only [Option.getD_some, String.toList_append, plain_append]
            exact ⟨hsign, plain_decimal _⟩
      | infinite negative => exact (by decide : Plain "null".toList)
      | nan => exact (by decide : Plain "null".toList)

theorem plain_itemsChars {items : List Json} (h : ∀ item ∈ items, Plain item.chars) :
    Plain (itemsChars items) := by
  induction items with
  | nil => decide
  | cons item items ih =>
      rw [itemsChars, plain_append, plain_cons]
      exact ⟨⟨by decide, h item List.mem_cons_self⟩,
        ih fun other hother => h other (List.mem_cons_of_mem _ hother)⟩

theorem plain_entriesChars {entries : List (String × Json)}
    (h : ∀ entry ∈ entries, Plain entry.2.chars) : Plain (entriesChars entries) := by
  induction entries with
  | nil => decide
  | cons entry entries ih =>
      obtain ⟨key, value⟩ := entry
      rw [entriesChars, plain_append, plain_append, plain_cons, plain_cons]
      exact ⟨⟨⟨by decide, plain_stringChars key⟩, by decide, h _ List.mem_cons_self⟩,
        ih fun other hother => h other (List.mem_cons_of_mem _ hother)⟩

/-- Every character of the text of a value fits on a line. -/
theorem plain_chars (value : Json) : Plain value.chars := by
  induction value using partsInduction with
  | scalar value hscalar =>
      cases value with
      | null => decide
      | bool value => cases value <;> decide
      | number n => exact plain_numberChars n
      | string s => exact plain_stringChars s
      | array items => simp [isScalar] at hscalar
      | object entries => simp [isScalar] at hscalar
  | array items ih =>
      cases items with
      | nil => decide
      | cons item items =>
          rw [chars, plain_append, plain_cons]
          exact ⟨⟨by decide, ih item List.mem_cons_self⟩,
            plain_itemsChars fun other hother => ih other (List.mem_cons_of_mem _ hother)⟩
  | object entries ih =>
      cases entries with
      | nil => decide
      | cons entry entries =>
          obtain ⟨key, value⟩ := entry
          rw [chars, plain_append, plain_append, plain_cons, plain_cons]
          exact ⟨⟨⟨by decide, plain_stringChars key⟩, by decide, ih _ List.mem_cons_self⟩,
            plain_entriesChars fun other hother => ih other (List.mem_cons_of_mem _ hother)⟩

end EventBus.Json
