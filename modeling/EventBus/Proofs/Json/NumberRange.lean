import EventBus.Proofs.Json.NumberReading
import EventBus.Proofs.Json.Walk

/-!
Which numbers there are. A number that is read is an integer of 64 bits, signed or not, or a finite
binary64 value. A document holds no others: reading keeps each number as it is read, and putting
entries in order makes no new ones.
-/

namespace EventBus

namespace Number

/-- A number as it is read: an integer of 64 bits, signed or not, or a finite binary64 value. -/
def InRange : Number → Prop
  | .int n => Json.IsWord n
  | .float x => x.isFinite = true

instance : (n : Number) → Decidable n.InRange
  | .int n => inferInstanceAs (Decidable (Json.IsWord n))
  | .float x => inferInstanceAs (Decidable (x.isFinite = true))

theorem inRange_of_value? {written : Json.NumberText} {negative : Bool} {n : Number}
    (h : written.value? negative = some n) : n.InRange := by
  have hrounded {x : Binary64} (hvalue : (if x.isFinite then some (Number.float x) else none) =
      some n) : n.InRange := by
    obtain ⟨hfinite, hn⟩ := Option.ite_none_right_eq_some.mp hvalue
    cases hn
    exact hfinite
  unfold Json.NumberText.value? at h
  dsimp only at h
  split at h
  next =>
    split at h
    next =>
      split at h
      next hbound =>
        cases h
        exact ⟨Int.neg_le_neg (Int.ofNat_le.mpr hbound.2), by omega⟩
      next => exact hrounded h
    next =>
      split at h
      next hbound =>
        cases h
        exact ⟨by omega, Int.ofNat_lt.mpr hbound⟩
      next => exact hrounded h
  next => exact hrounded h

theorem inRange_of_number? {cs rest : List Char} {n : Number}
    (h : Json.number? cs = some (n, rest)) : n.InRange := by
  obtain ⟨negative, written, hvalue⟩ :
      ∃ negative written, Json.NumberText.value? written negative = some n := by
    unfold Json.number? at h
    split at h
    all_goals
      simp only [Option.bind_eq_bind, Option.bind_eq_some_iff, Prod.exists] at h
      obtain ⟨written, _, -, _, hvalue, hpair⟩ := h
      cases hpair
      exact ⟨_, written, hvalue⟩
  exact inRange_of_value? hvalue

end Number

namespace Json

/-- All numbers in the value, at any depth, are in range. -/
def NumbersInRange (value : Json) : Prop := ∀ n, .number n ∈ value.nodes → n.InRange

theorem numbersInRange_number {n : Number} (h : n.InRange) : NumbersInRange (.number n) := by
  intro m hm
  cases List.mem_singleton.mp hm
  exact h

theorem numbersInRange_array {items : List Json} :
    NumbersInRange (.array items) ↔ ∀ item ∈ items, item.NumbersInRange := by
  constructor
  · exact fun h item hitem n hn => h n (mem_nodes_array.mpr (Or.inr ⟨item, hitem, hn⟩))
  · intro h n hn
    rcases mem_nodes_array.mp hn with heq | ⟨item, hitem, hinner⟩
    · cases heq
    · exact h item hitem n hinner

theorem numbersInRange_object {entries : List (String × Json)} :
    NumbersInRange (.object entries) ↔ ∀ entry ∈ entries, entry.2.NumbersInRange := by
  constructor
  · exact fun h entry hentry n hn => h n (mem_nodes_object.mpr (Or.inr ⟨entry, hentry, hn⟩))
  · intro h n hn
    rcases mem_nodes_object.mp hn with heq | ⟨entry, hentry, hinner⟩
    · cases heq
    · exact h entry hentry n hinner

section Reading

variable {read : List Char → Option (Json × List Char)} {good : Json → Prop}

/-- What holds of each value that is read holds of the items of an array. -/
theorem forall_of_items? (hread : ∀ {cs item rest}, read cs = some (item, rest) → good item)
    {fuel : Nat} {cs rest : List Char} {items : List Json}
    (h : items? read fuel cs = some (items, rest)) : ∀ item ∈ items, good item := by
  induction fuel generalizing cs items with
  | zero => cases h
  | succ fuel ih =>
      simp only [items?, Option.bind_eq_bind, Option.bind_eq_some_iff, Prod.exists] at h
      obtain ⟨item, after, hitem, hmore⟩ := h
      split at hmore
      · cases hmore
        exact List.forall_mem_singleton.mpr (hread hitem)
      · obtain ⟨_, hlater, heq⟩ := Option.bind_eq_some_iff.mp hmore
        cases heq
        exact List.forall_mem_cons.mpr ⟨hread hitem, ih hlater⟩
      · cases hmore

/-- What holds of each value that is read holds of the values under the keys of an object. -/
theorem forall_of_entries? (hread : ∀ {cs item rest}, read cs = some (item, rest) → good item)
    {fuel : Nat} {cs rest : List Char} {entries : List (String × Json)}
    (h : entries? read fuel cs = some (entries, rest)) : ∀ entry ∈ entries, good entry.2 := by
  induction fuel generalizing cs entries with
  | zero => cases h
  | succ fuel ih =>
      simp only [entries?, Option.bind_eq_bind, Option.bind_eq_some_iff, Prod.exists] at h
      obtain ⟨key, _, -, value, after, hvalue, hmore⟩ := h
      split at hmore
      · cases hmore
        exact List.forall_mem_singleton.mpr (hread hvalue)
      · obtain ⟨_, hlater, heq⟩ := Option.bind_eq_some_iff.mp hmore
        cases heq
        exact List.forall_mem_cons.mpr ⟨hread hvalue, ih hlater⟩
      · cases hmore

theorem good_of_map {α : Type} {found? : Option α} {form : α → Json × List Char} {value : Json}
    {rest : List Char} (hform : ∀ found, found? = some found → good (form found).1)
    (h : found?.map form = some (value, rest)) : good value := by
  obtain ⟨found, hfound, hpair⟩ := Option.map_eq_some_iff.mp h
  have hgood := hform found hfound
  rwa [hpair] at hgood

/-- A value without parts that is no number holds no number. -/
theorem numbersInRange_of_nodes {value : Json} (hnodes : value.nodes = [value])
    (h : ∀ n, value ≠ .number n) : value.NumbersInRange := by
  intro n hn
  rw [hnodes, List.mem_singleton] at hn
  exact absurd hn.symm (h n)

theorem numbersInRange_of_value? {depth : Nat} {cs rest : List Char} {value : Json}
    (h : value? depth cs = some (value, rest)) : value.NumbersInRange := by
  induction depth using Nat.strong_induction_on generalizing cs rest value with
  | _ depth ih =>
      rw [value?.eq_def] at h
      split at h
      next => exact good_of_map (fun _ _ => numbersInRange_of_nodes rfl (by simp)) h
      next => exact good_of_map (fun _ _ => numbersInRange_of_nodes rfl (by simp)) h
      next => exact good_of_map (fun _ _ => numbersInRange_of_nodes rfl (by simp)) h
      next => exact good_of_map (fun _ _ => numbersInRange_of_nodes rfl (by simp)) h
      next => cases h
      next inner _ =>
        split at h
        next =>
          cases h
          exact numbersInRange_array.mpr (by simp)
        next =>
          refine good_of_map (fun _ hitems => numbersInRange_array.mpr ?_) h
          exact forall_of_items? (fun hitem => ih inner (Nat.lt_succ_self _) hitem) hitems
      next => cases h
      next inner _ =>
        split at h
        next =>
          cases h
          exact numbersInRange_object.mpr (by simp)
        next =>
          refine good_of_map (fun _ hentries => numbersInRange_object.mpr ?_) h
          exact forall_of_entries? (fun hvalue => ih inner (Nat.lt_succ_self _) hvalue) hentries
      next =>
        refine good_of_map (fun _ hnumber => numbersInRange_number ?_) h
        exact Number.inRange_of_number? hnumber

end Reading

theorem mem_of_mem_canonicalEntries {sorted entries : List (String × Json)}
    {entry : String × Json} (h : entry ∈ canonicalEntries sorted entries) :
    entry ∈ sorted ∨ ∃ written ∈ entries, entry.2 = canonical written.2 := by
  induction entries generalizing sorted with
  | nil => exact Or.inl h
  | cons first entries ih =>
      obtain ⟨key, value⟩ := first
      rw [canonicalEntries] at h
      rcases ih h with hsorted | ⟨written, hwritten, heq⟩
      · rcases mem_insert hsorted with rfl | hold
        · exact Or.inr ⟨(key, value), List.mem_cons_self, rfl⟩
        · exact Or.inl hold
      · exact Or.inr ⟨written, List.mem_cons_of_mem _ hwritten, heq⟩

/-- Putting entries in order makes no numbers. -/
theorem numbersInRange_canonical {value : Json} (h : value.NumbersInRange) :
    (canonical value).NumbersInRange := by
  induction value using partsInduction with
  | scalar value hscalar =>
      have hsame : canonical value = value := by cases value <;> simp_all [isScalar, canonical]
      rwa [hsame]
  | array items ih =>
      rw [canonical, canonicalItems_eq_map, numbersInRange_array]
      intro item hitem
      obtain ⟨written, hwritten, rfl⟩ := List.mem_map.mp hitem
      exact ih written hwritten (numbersInRange_array.mp h written hwritten)
  | object entries ih =>
      rw [canonical, numbersInRange_object]
      intro entry hentry
      rcases mem_of_mem_canonicalEntries hentry with hnone | ⟨written, hwritten, heq⟩
      · cases hnone
      · rw [heq]
        exact ih written hwritten (numbersInRange_object.mp h written hwritten)

/-- A document that is read holds only numbers in range. -/
theorem numbersInRange_of_ofChars? {cs : List Char} {value : Json}
    (h : ofChars? cs = some value) : value.NumbersInRange := by
  simp only [ofChars?, Option.bind_eq_bind, Option.bind_eq_some_iff, Prod.exists] at h
  obtain ⟨read, rest, hread, hend⟩ := h
  split at hend
  · cases hend
    exact numbersInRange_canonical (numbersInRange_of_value? hread)
  · cases hend

end Json

end EventBus
