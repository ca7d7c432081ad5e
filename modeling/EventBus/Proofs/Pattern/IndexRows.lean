import EventBus.Proofs.Json.Walk
import EventBus.Proofs.Pattern.PathText

/-!
The rows of an event against walks in it. A row stands for a walk to a scalar or an empty
container, under the text of its keys. Over keys without a slash a branch therefore means
the same on the rows as on the event itself: presence asks for any walk along its path, and
every other leaf asks for a walk to a value that it accepts and that has a row.
-/

namespace EventBus.Index

open Json (Reaches)

/-- A value that gets a row under a path: a scalar, or under a key also an empty container. -/
def HasRow (path : List String) (leaf : Json) : Prop :=
  leaf.isLeaf = true ∧ (leaf.isScalar = true ∨ path ≠ [])

theorem rowsAt_scalar {path : List String} {value : Json} (h : value.isScalar = true) :
    rowsAt path value = [⟨joinPath path, value⟩] := by
  cases value <;> simp_all [Json.isScalar, rowsAt]

theorem mem_rowsAt_array {path : List String} {items : List Json} {row : Row} :
    row ∈ rowsAt path (.array items) ↔
      (items = [] ∧ path ≠ [] ∧ row = ⟨joinPath path, .array []⟩) ∨
        ∃ item ∈ items, row ∈ rowsAt path item := by
  have hitems : ∀ items, row ∈ rowsOfItems path items ↔ ∃ item ∈ items, row ∈ rowsAt path item := by
    intro items
    induction items with
    | nil => simp [rowsOfItems]
    | cons item items ih => simp [rowsOfItems, ih]
  cases items with
  | nil => by_cases hpath : path = [] <;> simp [rowsAt, hpath]
  | cons item items => simp [rowsAt, hitems]

theorem mem_rowsAt_object {path : List String} {entries : List (String × Json)} {row : Row} :
    row ∈ rowsAt path (.object entries) ↔
      (entries = [] ∧ path ≠ [] ∧ row = ⟨joinPath path, .object []⟩) ∨
        ∃ entry ∈ entries, row ∈ rowsAt (path ++ [entry.1]) entry.2 := by
  have hentries : ∀ entries, row ∈ rowsOfEntries path entries ↔
      ∃ entry ∈ entries, row ∈ rowsAt (path ++ [entry.1]) entry.2 := by
    intro entries
    induction entries with
    | nil => simp [rowsOfEntries]
    | cons entry entries ih =>
        obtain ⟨key, value⟩ := entry
        simp [rowsOfEntries, ih]
  cases entries with
  | nil => by_cases hpath : path = [] <;> simp [rowsAt, hpath]
  | cons entry entries => simp [rowsAt, hentries]

/-- Rows stand for walks to leaves. -/
theorem mem_rowsAt_iff {path : List String} {value : Json} {row : Row} :
    row ∈ rowsAt path value ↔ ∃ keys leaf, Reaches keys value leaf ∧
      HasRow (path ++ keys) leaf ∧ row = ⟨joinPath (path ++ keys), leaf⟩ := by
  induction value using Json.partsInduction generalizing path with
  | scalar value h =>
      rw [rowsAt_scalar h, List.mem_singleton]
      simp only [Json.reaches_scalar_iff h]
      constructor
      · rintro rfl
        exact ⟨[], value, ⟨rfl, rfl⟩, ⟨Json.isLeaf_of_isScalar h, Or.inl h⟩, by simp⟩
      · rintro ⟨keys, leaf, ⟨rfl, rfl⟩, -, hrow⟩
        simpa using hrow
  | array items ih =>
      rw [mem_rowsAt_array]
      simp only [Json.reaches_array_iff]
      constructor
      · rintro (⟨rfl, hpath, rfl⟩ | ⟨item, hitem, hrow⟩)
        · exact ⟨[], .array [], Or.inl ⟨rfl, rfl⟩, ⟨rfl, Or.inr (by simpa)⟩, by simp⟩
        · obtain ⟨keys, leaf, hreach, hrest⟩ := (ih item hitem).mp hrow
          exact ⟨keys, leaf, Or.inr ⟨item, hitem, hreach⟩, hrest⟩
      · rintro ⟨keys, leaf, ⟨rfl, rfl⟩ | ⟨item, hitem, hreach⟩, hleaf, rfl⟩
        · obtain ⟨hempty, hscalar | hpath⟩ := hleaf
          · simp [Json.isScalar] at hscalar
          · have hnone : items = [] := List.isEmpty_iff.mp hempty
            exact Or.inl ⟨hnone, by simpa using hpath, by simp [hnone]⟩
        · exact Or.inr ⟨item, hitem, (ih item hitem).mpr ⟨keys, leaf, hreach, hleaf, rfl⟩⟩
  | object entries ih =>
      rw [mem_rowsAt_object]
      simp only [Json.reaches_object_iff]
      constructor
      · rintro (⟨rfl, hpath, rfl⟩ | ⟨entry, hentry, hrow⟩)
        · exact ⟨[], .object [], Or.inl ⟨rfl, rfl⟩, ⟨rfl, Or.inr (by simpa)⟩, by simp⟩
        · obtain ⟨keys, leaf, hreach, hrest⟩ := (ih entry hentry).mp hrow
          refine ⟨entry.1 :: keys, leaf, Or.inr ⟨entry, hentry, keys, rfl, hreach⟩, ?_⟩
          simpa using hrest
      · rintro ⟨keys, leaf, ⟨rfl, rfl⟩ | ⟨entry, hentry, rest, rfl, hreach⟩, hleaf, rfl⟩
        · obtain ⟨hempty, hscalar | hpath⟩ := hleaf
          · simp [Json.isScalar] at hscalar
          · have hnone : entries = [] := List.isEmpty_iff.mp hempty
            exact Or.inl ⟨hnone, by simpa using hpath, by simp [hnone]⟩
        · refine Or.inr ⟨entry, hentry, (ih entry hentry).mpr ⟨rest, leaf, hreach, ?_, ?_⟩⟩
          · simpa using hleaf
          · simp

/-- The rows of an object stand under one key at least. -/
theorem mem_rows_object_iff {entries : List (String × Json)} {row : Row} :
    row ∈ rows (.object entries) ↔ ∃ keys leaf, keys ≠ [] ∧
      Reaches keys (.object entries) leaf ∧ leaf.isLeaf = true ∧ row = ⟨joinPath keys, leaf⟩ := by
  rw [rows, mem_rowsAt_iff]
  simp only [List.nil_append, HasRow]
  constructor
  · rintro ⟨keys, leaf, hreach, ⟨hleaf, hscalar | hkeys⟩, hrow⟩
    · refine ⟨keys, leaf, ?_, hreach, hleaf, hrow⟩
      rintro rfl
      cases hreach
      simp [Json.isScalar] at hscalar
    · exact ⟨keys, leaf, hkeys, hreach, hleaf, hrow⟩
  · rintro ⟨keys, leaf, hkeys, hreach, hleaf, hrow⟩
    exact ⟨keys, leaf, hreach, ⟨hleaf, Or.inr hkeys⟩, hrow⟩

section Branches

variable {entries : List (String × Json)} {path : List String}

/-- A row at or below a path is a walk along the path: a walk to a leaf passes along it, and
where it leads, some walk leads on to a leaf. -/
theorem any_isAtOrBelow_rows_iff (hpath : path ≠ []) (hkeys : ∀ key ∈ path, SlashFree key)
    (hevent : ∀ key ∈ (Json.object entries).keys, SlashFree key) :
    ((rows (.object entries)).any fun row => isAtOrBelow (joinPath path) row.path) = true ↔
      ∃ target, Reaches path (.object entries) target := by
  rw [List.any_eq_true]
  constructor
  · rintro ⟨row, hrow, hbelow⟩
    obtain ⟨keys, leaf, hnonempty, hreach, -, rfl⟩ := mem_rows_object_iff.mp hrow
    have hfree : ∀ key ∈ keys, SlashFree key := fun key hkey =>
      hevent key (hreach.subset_keys hkey)
    obtain ⟨more, rfl⟩ := (isAtOrBelow_joinPath_iff hpath hnonempty hkeys hfree).mp hbelow
    obtain ⟨target, htarget, -⟩ := Json.reaches_append_iff.mp hreach
    exact ⟨target, htarget⟩
  · rintro ⟨target, htarget⟩
    obtain ⟨more, leaf, hmore, hleaf⟩ := Json.exists_reaches_leaf target
    have hreach : Reaches (path ++ more) (.object entries) leaf :=
      Json.reaches_append_iff.mpr ⟨target, htarget, hmore⟩
    have hnonempty : path ++ more ≠ [] := by simp [hpath]
    have hfree : ∀ key ∈ path ++ more, SlashFree key := fun key hkey =>
      hevent key (hreach.subset_keys hkey)
    refine ⟨_, mem_rows_object_iff.mpr ⟨_, leaf, hnonempty, hreach, hleaf, rfl⟩, ?_⟩
    exact (isAtOrBelow_joinPath_iff hpath hnonempty hkeys hfree).mpr (List.prefix_append _ _)

/-- A row of exactly a path is a walk along the path to a leaf. -/
theorem any_at_path_rows_iff (hpath : path ≠ []) (hkeys : ∀ key ∈ path, SlashFree key)
    (hevent : ∀ key ∈ (Json.object entries).keys, SlashFree key) (test : Json → Bool) :
    (((rows (.object entries)).filter fun row => row.path == joinPath path).any
        fun row => test row.value) = true ↔
      ∃ leaf, Reaches path (.object entries) leaf ∧ leaf.isLeaf = true ∧ test leaf = true := by
  simp only [List.any_eq_true, List.mem_filter, beq_iff_eq]
  constructor
  · rintro ⟨row, ⟨hrow, htext⟩, htest⟩
    obtain ⟨keys, leaf, hnonempty, hreach, hleaf, rfl⟩ := mem_rows_object_iff.mp hrow
    have hfree : ∀ key ∈ keys, SlashFree key := fun key hkey =>
      hevent key (hreach.subset_keys hkey)
    obtain rfl := (joinPath_inj hpath hnonempty hkeys hfree).mp htext
    exact ⟨leaf, hreach, hleaf, htest⟩
  · rintro ⟨leaf, hreach, hleaf, htest⟩
    exact ⟨_, ⟨mem_rows_object_iff.mpr ⟨path, leaf, hpath, hreach, hleaf, rfl⟩, rfl⟩, htest⟩

end Branches

/-- What a branch says of an event, by walks and without any text of a path. -/
def Branch.Holds (branch : Branch) (event : Json) : Prop :=
  match branch.predicate with
  | .present want => (∃ target, Reaches branch.path event target) ↔ want = true
  | predicate => ∃ leaf, Reaches branch.path event leaf ∧ leaf.isLeaf = true ∧
      predicate.accepts leaf = true

/-- Matching rows by the text of their paths means walking in the event. -/
theorem accepts_rows_iff_holds (entries : List (String × Json)) (branch : Branch)
    (hpath : branch.path ≠ []) (hkeys : ∀ key ∈ branch.path, SlashFree key)
    (hevent : ∀ key ∈ (Json.object entries).keys, SlashFree key) :
    branch.accepts (rows (.object entries)) = true ↔ branch.Holds (.object entries) := by
  obtain ⟨path, predicate⟩ := branch
  cases predicate with
  | present want =>
      simp only [Branch.accepts, Branch.Holds, Branch.pathText, beq_iff_eq]
      rw [Bool.eq_iff_iff, any_isAtOrBelow_rows_iff hpath hkeys hevent]
  | _ => exact any_at_path_rows_iff hpath hkeys hevent _

/-- Two keys lead to a number through an array in an array, past a key that only starts the
same. -/
theorem nested_number_found_in_rows :
    let event : List (String × Json) :=
      [("a", .array [.object [("b", .array [.null, .number (.int 7)]), ("bc", .null)]])]
    let branch : Branch := ⟨["a", "b"], .literal (.number (.int 7))⟩
    branch.accepts (rows (.object event)) = true := by
  intro event branch
  have hinner : Reaches ["b"] (.object [("b", .array [.null, .number (.int 7)]), ("bc", .null)])
      (.number (.int 7)) := by
    refine .entry List.mem_cons_self (.item ?_ (.here _))
    simp
  have hreach : Reaches ["a", "b"] (.object event) (.number (.int 7)) :=
    .entry List.mem_cons_self (.item List.mem_cons_self hinner)
  refine (accepts_rows_iff_holds event branch (by simp [branch]) (by decide) (by decide)).mpr ?_
  exact ⟨_, hreach, rfl, by decide⟩

end EventBus.Index
