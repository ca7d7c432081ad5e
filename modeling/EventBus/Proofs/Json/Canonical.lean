import EventBus.Json.Reader
import Mathlib.Data.String.Basic
import Mathlib.Tactic.Common

/-!
Canonical values. Where keys ascend, a look-up by key finds every entry, so entries and
look-ups say the same of an object. All values that are read from text are canonical, since
reading ends with sorting: inserting entries one after the other keeps their keys ascending.
-/

namespace EventBus.Json

/-- Induction over the parts of a value, with one case for all scalars. -/
@[elab_as_elim]
theorem partsInduction {motive : Json → Prop}
    (scalar : ∀ value, value.isScalar = true → motive value)
    (array : ∀ items, (∀ item ∈ items, motive item) → motive (.array items))
    (object : ∀ entries, (∀ entry ∈ entries, motive entry.2) → motive (.object entries)) :
    ∀ value, motive value
  | .null => scalar _ rfl
  | .bool _ => scalar _ rfl
  | .number _ => scalar _ rfl
  | .string _ => scalar _ rfl
  | .array items => array items fun item _ => partsInduction scalar array object item
  | .object entries =>
      object entries fun entry _ => partsInduction scalar array object entry.2
termination_by value => sizeOf value
decreasing_by
  · have := List.sizeOf_lt_of_mem ‹item ∈ items›
    simp only [Json.array.sizeOf_spec]
    omega
  · have := List.sizeOf_lt_of_mem ‹entry ∈ entries›
    cases entry
    simp only [Json.object.sizeOf_spec, Prod.mk.sizeOf_spec] at *
    omega

theorem mem_of_lookup {key : String} {entries : List (String × Json)} {value : Json}
    (h : lookup key entries = some value) : (key, value) ∈ entries := by
  induction entries with
  | nil => simp [lookup] at h
  | cons entry rest ih =>
      obtain ⟨first, held⟩ := entry
      rw [lookup] at h
      split at h
      next hkey =>
        cases h
        simp [hkey]
      next => exact List.mem_cons_of_mem _ (ih h)

theorem lookup_eq_none_iff {key : String} {entries : List (String × Json)} :
    lookup key entries = none ↔ ∀ entry ∈ entries, entry.1 ≠ key := by
  induction entries with
  | nil => simp [lookup]
  | cons entry rest ih =>
      obtain ⟨first, held⟩ := entry
      rw [lookup]
      split
      next hkey => simp [hkey]
      next hkey => simp [hkey, ih]

/-- Where keys ascend, a look-up finds each entry. -/
theorem lookup_eq_some_iff {key : String} {entries : List (String × Json)} {value : Json}
    (h : Ascending entries) : lookup key entries = some value ↔ (key, value) ∈ entries := by
  refine ⟨mem_of_lookup, ?_⟩
  intro hmem
  induction entries with
  | nil => simp at hmem
  | cons entry rest ih =>
      obtain ⟨first, held⟩ := entry
      obtain ⟨hfirst, hrest⟩ := List.pairwise_cons.mp h
      rw [lookup]
      rcases List.mem_cons.mp hmem with heq | hlater
      · cases heq
        simp
      · have hne : first ≠ key := ne_of_lt (hfirst _ hlater)
        rw [if_neg hne]
        exact ih hrest hlater

theorem canonicalItems_iff {items : List Json} :
    CanonicalItems items ↔ ∀ item ∈ items, Canonical item := by
  induction items with
  | nil => simp [CanonicalItems]
  | cons item rest ih => simp [CanonicalItems, ih]

theorem canonicalEntries_iff {entries : List (String × Json)} :
    CanonicalEntries entries ↔ ∀ entry ∈ entries, Canonical entry.2 := by
  induction entries with
  | nil => simp [CanonicalEntries]
  | cons entry rest ih => simp [CanonicalEntries, ih]

mutual

/-- Whether a value is canonical can be computed. -/
def decideCanonical : (value : Json) → Decidable (Canonical value)
  | .null => isTrue trivial
  | .bool _ => isTrue trivial
  | .number _ => isTrue trivial
  | .string _ => isTrue trivial
  | .array items => decideCanonicalItems items
  | .object entries =>
      @instDecidableAnd _ _
        (inferInstanceAs (Decidable (entries.Pairwise fun a b => a.1 < b.1)))
        (decideCanonicalEntries entries)

def decideCanonicalItems : (items : List Json) → Decidable (CanonicalItems items)
  | [] => isTrue trivial
  | item :: rest => @instDecidableAnd _ _ (decideCanonical item) (decideCanonicalItems rest)

def decideCanonicalEntries : (entries : List (String × Json)) → Decidable (CanonicalEntries entries)
  | [] => isTrue trivial
  | (_, value) :: rest =>
      @instDecidableAnd _ _ (decideCanonical value) (decideCanonicalEntries rest)

end

instance (value : Json) : Decidable (Canonical value) := decideCanonical value

theorem mem_insert {key : String} {value : Json} {entries : List (String × Json)}
    {entry : String × Json} (h : entry ∈ insert key value entries) :
    entry = (key, value) ∨ entry ∈ entries := by
  induction entries with
  | nil => simpa [insert] using h
  | cons first rest ih =>
      obtain ⟨k, v⟩ := first
      rw [insert] at h
      split at h
      · rcases List.mem_cons.mp h with heq | hrest
        · exact Or.inl heq
        · exact Or.inr (List.mem_cons_of_mem _ hrest)
      · split at h
        · exact List.mem_cons.mp h
        · rcases List.mem_cons.mp h with heq | hrest
          · exact Or.inr (heq ▸ List.mem_cons_self)
          · exact (ih hrest).imp_right (List.mem_cons_of_mem _)

theorem ascending_insert {key : String} {value : Json} {entries : List (String × Json)}
    (h : Ascending entries) : Ascending (insert key value entries) := by
  induction entries with
  | nil => simp [insert, Ascending]
  | cons first rest ih =>
      obtain ⟨k, v⟩ := first
      obtain ⟨hfirst, hrest⟩ := List.pairwise_cons.mp h
      rw [insert]
      split
      next hsame =>
        subst hsame
        exact List.pairwise_cons.mpr ⟨hfirst, hrest⟩
      next hne =>
        split
        next hless =>
          refine List.pairwise_cons.mpr ⟨?_, h⟩
          intro entry hentry
          rcases List.mem_cons.mp hentry with rfl | hlater
          · exact hless
          · exact hless.trans (hfirst entry hlater)
        next hnot =>
          have hgreater : k < key := lt_of_le_of_ne (not_lt.mp hnot) (Ne.symm hne)
          refine List.pairwise_cons.mpr ⟨?_, ih hrest⟩
          intro entry hentry
          rcases mem_insert hentry with rfl | hlater
          · exact hgreater
          · exact hfirst entry hlater

/-- An entry put in is found under its key, and the others are found as before. -/
theorem lookup_insert {key other : String} {value : Json} {entries : List (String × Json)} :
    lookup other (insert key value entries) =
      if key = other then some value else lookup other entries := by
  induction entries with
  | nil => simp [insert, lookup]
  | cons first rest ih =>
      obtain ⟨k, v⟩ := first
      rw [insert]
      split
      next hsame =>
        subst hsame
        by_cases hkey : key = other <;> simp [lookup, hkey]
      next hne =>
        split
        next => by_cases hkey : key = other <;> simp [lookup, hkey]
        next =>
          rw [lookup, lookup, ih]
          by_cases hkey : key = other
          · subst hkey
            simp [Ne.symm hne]
          · simp [hkey]

/-- Where keys ascend, the look-ups tell the entries and their order. -/
theorem eq_of_lookup_eq {entries others : List (String × Json)} (hentries : Ascending entries)
    (hothers : Ascending others) (h : ∀ key, lookup key entries = lookup key others) :
    entries = others := by
  have hmem : ∀ entry, entry ∈ entries ↔ entry ∈ others := by
    rintro ⟨key, value⟩
    rw [← lookup_eq_some_iff hentries, ← lookup_eq_some_iff hothers, h]
  have hnodup {held : List (String × Json)} (hheld : Ascending held) : held.Nodup :=
    hheld.imp fun hless => by
      rintro rfl
      exact lt_irrefl _ hless
  have hperm := (List.perm_ext_iff_of_nodup (hnodup hentries) (hnodup hothers)).mpr hmem
  exact hperm.eq_of_pairwise (fun _ _ _ _ hless hmore => absurd hmore (lt_asymm hless))
    hentries hothers

/-- Sorting entries into sorted ones leaves them sorted, with canonical values throughout. -/
theorem canonicalEntries_sorted {entries sorted : List (String × Json)}
    (hvalues : ∀ entry ∈ entries, Canonical (canonical entry.2)) (hsorted : Ascending sorted)
    (hheld : ∀ entry ∈ sorted, Canonical entry.2) :
    Ascending (canonicalEntries sorted entries) ∧
      ∀ entry ∈ canonicalEntries sorted entries, Canonical entry.2 := by
  induction entries generalizing sorted with
  | nil => exact ⟨hsorted, hheld⟩
  | cons first rest ih =>
      obtain ⟨key, value⟩ := first
      rw [canonicalEntries]
      apply ih (fun entry hentry => hvalues entry (List.mem_cons_of_mem _ hentry))
        (ascending_insert hsorted)
      intro entry hentry
      rcases mem_insert hentry with rfl | hold
      · exact hvalues (key, value) List.mem_cons_self
      · exact hheld entry hold

theorem canonicalItems_eq_map (items : List Json) : canonicalItems items = items.map canonical := by
  induction items with
  | nil => rfl
  | cons item rest ih => simp [canonicalItems, ih]

theorem canonical_canonical (value : Json) : Canonical (canonical value) := by
  induction value using partsInduction with
  | scalar value h => cases value <;> simp_all [isScalar, canonical, Canonical]
  | array items ih =>
      simp only [canonical, Canonical, canonicalItems_iff, canonicalItems_eq_map]
      intro item hitem
      obtain ⟨original, horiginal, rfl⟩ := List.mem_map.mp hitem
      exact ih original horiginal
  | object entries ih =>
      simp only [canonical, Canonical, canonicalEntries_iff]
      exact canonicalEntries_sorted ih List.Pairwise.nil (by simp)

/-- A key after all others goes to the end. -/
theorem insert_eq_append {key : String} {value : Json} {entries : List (String × Json)}
    (h : ∀ entry ∈ entries, entry.1 < key) :
    insert key value entries = entries ++ [(key, value)] := by
  induction entries with
  | nil => rfl
  | cons first rest ih =>
      obtain ⟨k, v⟩ := first
      obtain ⟨hfirst, hrest⟩ := List.forall_mem_cons.mp h
      have hne : key ≠ k := ne_of_gt hfirst
      rw [insert, if_neg hne, if_neg (not_lt_of_gt hfirst), ih hrest, List.cons_append]

theorem canonicalEntries_eq_append {entries sorted : List (String × Json)}
    (hvalues : ∀ entry ∈ entries, canonical entry.2 = entry.2)
    (hascending : Ascending (sorted ++ entries)) :
    canonicalEntries sorted entries = sorted ++ entries := by
  induction entries generalizing sorted with
  | nil => rw [canonicalEntries, List.append_nil]
  | cons first rest ih =>
      obtain ⟨key, value⟩ := first
      obtain ⟨hvalue, hrest⟩ := List.forall_mem_cons.mp hvalues
      have hlast : ∀ entry ∈ sorted, entry.1 < key := fun entry hentry =>
        (List.pairwise_append.mp hascending).2.2 entry hentry _ List.mem_cons_self
      rw [canonicalEntries, hvalue, insert_eq_append hlast, ih hrest (by simpa using hascending),
        List.append_assoc, List.singleton_append]

/-- Sorting leaves a canonical value as it is. -/
theorem canonical_eq_self {value : Json} (h : Canonical value) : canonical value = value := by
  induction value using partsInduction with
  | scalar value hscalar => cases value <;> simp_all [isScalar, canonical]
  | array items ih =>
      have hitems := canonicalItems_iff.mp h
      have hsame : items.map canonical = items.map id :=
        List.map_congr_left fun item hitem => ih item hitem (hitems item hitem)
      rw [canonical, canonicalItems_eq_map, hsame, List.map_id]
  | object entries ih =>
      obtain ⟨hascending, hentries⟩ := h
      have hvalues : ∀ entry ∈ entries, canonical entry.2 = entry.2 := fun entry hentry =>
        ih entry hentry (canonicalEntries_iff.mp hentries entry hentry)
      have hsame : canonicalEntries [] entries = [] ++ entries :=
        canonicalEntries_eq_append hvalues hascending
      rw [canonical, hsame, List.nil_append]

/-- Whatever is read from text is canonical. -/
theorem canonical_of_ofChars? {cs : List Char} {value : Json} (h : ofChars? cs = some value) :
    Canonical value := by
  unfold ofChars? at h
  obtain ⟨⟨first, rest⟩, -, hend⟩ := Option.bind_eq_some_iff.mp h
  by_cases hatEnd : atEnd rest = true
  · simp only [hatEnd, if_true, pure, Option.some.injEq] at hend
    rw [← hend]
    exact canonical_canonical first
  · simp [hatEnd] at hend

end EventBus.Json
