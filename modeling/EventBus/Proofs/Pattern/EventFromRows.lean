import EventBus.Proofs.Pattern.MissingObjects

/-!
An event back from its rows. Each row is cut at its slashes, and its value put under the keys that
this gives, in objects made on the way. Where no key has a slash and no array stands in the event,
the rows together say of each key what stands under it and what does not, so whatever their order
the event comes back. Elements of an array would all be put in one place.
-/

namespace EventBus

namespace Json

/-- The value put under keys of another, in objects made where there are none. What stands in the
way and is no object stays. -/
def put (value : Json) : List String → Json → Json
  | [], _ => value
  | key :: keys, .object entries =>
      .object (insert key (put value keys ((lookup key entries).getD (.object []))) entries)
  | _ :: _, held => held

/-- Values put under their keys one after the other. -/
def putAll (leaves : List (List String × Json)) (held : Json) : Json :=
  leaves.foldl (fun held leaf => put leaf.2 leaf.1 held) held

/-- What stands under a key, by the keys that lead on from there. -/
def under (key : String) (leaves : List (List String × Json)) : List (List String × Json) :=
  leaves.filterMap fun leaf =>
    match leaf.1 with
    | [] => none
    | first :: rest => if first = key then some (rest, leaf.2) else none

theorem mem_under_iff {key : String} {leaves : List (List String × Json)} {keys : List String}
    {value : Json} : (keys, value) ∈ under key leaves ↔ (key :: keys, value) ∈ leaves := by
  rw [under, List.mem_filterMap]
  constructor
  · rintro ⟨⟨path, leaf⟩, hmem, hrest⟩
    cases path with
    | nil => cases hrest
    | cons first rest =>
        by_cases hfirst : first = key
        · subst hfirst
          simp only [if_true, Option.some.injEq, Prod.mk.injEq] at hrest
          obtain ⟨rfl, rfl⟩ := hrest
          exact hmem
        · simp [hfirst] at hrest
  · intro hmem
    exact ⟨_, hmem, by simp⟩

theorem putAll_eq_of_same {leaves : List (List String × Json)} {held value : Json}
    (h : ∀ leaf ∈ leaves, leaf = ([], value)) (hnone : leaves = [] → held = value) :
    putAll leaves held = value := by
  induction leaves generalizing held with
  | nil => exact hnone rfl
  | cons leaf leaves ih =>
      obtain ⟨hleaf, hleaves⟩ := List.forall_mem_cons.mp h
      rw [putAll, List.foldl_cons, hleaf]
      exact ih hleaves fun _ => rfl

/-- Into an object the values go key by key: under each there is what was put under it, if
anything was, on top of what it had. -/
theorem putAll_object {leaves : List (List String × Json)} (hkeys : ∀ leaf ∈ leaves, leaf.1 ≠ [])
    {entries : List (String × Json)} (hentries : Ascending entries) :
    ∃ others, putAll leaves (.object entries) = .object others ∧ Ascending others ∧
      ∀ key, lookup key others =
        if under key leaves = [] then lookup key entries
        else some (putAll (under key leaves) ((lookup key entries).getD (.object []))) := by
  induction leaves generalizing entries with
  | nil => exact ⟨entries, rfl, hentries, fun key => rfl⟩
  | cons leaf leaves ih =>
      obtain ⟨hleaf, hlater⟩ := List.forall_mem_cons.mp hkeys
      obtain ⟨path, value⟩ := leaf
      obtain ⟨first, rest, rfl⟩ := List.exists_cons_of_ne_nil hleaf
      obtain ⟨others, hput, hothers, hlookup⟩ := ih hlater
        (ascending_insert hentries)
      refine ⟨others, hput, hothers, fun key => ?_⟩
      rw [hlookup, lookup_insert]
      by_cases hkey : first = key
      · subst hkey
        have hunder : under first ((first :: rest, value) :: leaves) =
            (rest, value) :: under first leaves := by simp [under]
        rw [hunder, if_pos rfl, if_neg (List.cons_ne_nil _ _), Option.getD_some, putAll, putAll,
          List.foldl_cons]
        split
        next hnone => rw [hnone, List.foldl_nil]
        next => rfl
      · have hunder : under key ((first :: rest, value) :: leaves) = under key leaves := by
          simp [under, hkey]
        rw [hunder, if_neg hkey]

end Json

namespace Index

open Json (Reaches putAll under)

/-- The list has the leaves that walks in a value lead to, by the keys of the walks. Whether it has
an empty container that stands under no key is left open. -/
structure Lists (leaves : List (List String × Json)) (value : Json) : Prop where
  sound : ∀ leaf ∈ leaves, Reaches leaf.1 value leaf.2 ∧ leaf.2.isLeaf = true
  complete : ∀ keys leaf, Reaches keys value leaf → HasRow keys leaf → (keys, leaf) ∈ leaves

namespace Lists

variable {leaves : List (List String × Json)} {entries : List (String × Json)}

theorem keys_ne_nil (lists : Lists leaves (.object entries)) (h : entries ≠ []) :
    ∀ leaf ∈ leaves, leaf.1 ≠ [] := by
  intro leaf hleaf hnone
  obtain ⟨hreach, hempty⟩ := lists.sound leaf hleaf
  obtain ⟨-, hvalue⟩ | ⟨_, _, _, hcons, -⟩ := Json.reaches_object_iff.mp hreach
  · rw [hvalue, Json.isLeaf, List.isEmpty_iff] at hempty
    exact h hempty
  · simp [hnone] at hcons

theorem under_eq_nil (lists : Lists leaves (.object entries)) {key : String}
    (h : Json.lookup key entries = none) : under key leaves = [] := by
  refine List.eq_nil_iff_forall_not_mem.mpr ?_
  rintro ⟨keys, value⟩ hmem
  obtain ⟨hreach, -⟩ := lists.sound _ (Json.mem_under_iff.mp hmem)
  obtain ⟨hnil, -⟩ | ⟨entry, hentry, _, hsame, -⟩ := Json.reaches_object_iff.mp hreach
  · cases hnil
  · exact Json.lookup_eq_none_iff.mp h entry hentry (List.cons.inj hsame).1.symm

/-- Under a key of an object the list has the leaves of what stands there, and one of them at
least. -/
theorem under_child (lists : Lists leaves (.object entries))
    (hcanonical : (Json.object entries).Canonical) {key : String} {child : Json}
    (h : Json.lookup key entries = some child) :
    Lists (under key leaves) child ∧ under key leaves ≠ [] := by
  have hat : Json.at? [key] (.object entries) = some child := by
    simp [Json.at?, Json.get?, h]
  have hpast (keys : List String) (leaf : Json) :
      Reaches (key :: keys) (.object entries) leaf ↔ Reaches keys child leaf :=
    Json.reaches_append_iff_of_at? hcanonical hat
  have hmem (keys : List String) (leaf : Json) (hreach : Reaches keys child leaf)
      (hleaf : leaf.isLeaf = true) : (keys, leaf) ∈ under key leaves :=
    Json.mem_under_iff.mpr (lists.complete _ _ ((hpast _ _).mpr hreach)
      ⟨hleaf, Or.inr (List.cons_ne_nil _ _)⟩)
  refine ⟨⟨fun leaf hleaf => ?_, fun keys leaf hreach hrow => hmem keys leaf hreach hrow.1⟩, ?_⟩
  · exact (lists.sound _ (Json.mem_under_iff.mp hleaf)).imp_left (hpast _ _).mp
  · obtain ⟨keys, leaf, hreach, hleaf⟩ := Json.exists_reaches_leaf child
    exact List.ne_nil_of_mem (hmem keys leaf hreach hleaf)

end Lists

/-- A value without arrays is put together again from its leaves. -/
theorem putAll_leaves {value : Json} (hcanonical : value.Canonical)
    (harrays : ∀ node ∈ value.nodes, node.isArray = false)
    {leaves : List (List String × Json)} (lists : Lists leaves value) :
    putAll leaves (.object []) = value := by
  induction value using Json.partsInduction generalizing leaves with
  | scalar value hscalar =>
      have hmem : ([], value) ∈ leaves :=
        lists.complete [] value (.here value) ⟨Json.isLeaf_of_isScalar hscalar, Or.inl hscalar⟩
      refine Json.putAll_eq_of_same (fun leaf hleaf => ?_) fun hnone => ?_
      · obtain ⟨hkeys, hvalue⟩ := (Json.reaches_scalar_iff hscalar).mp (lists.sound leaf hleaf).1
        exact Prod.ext hkeys hvalue
      · simp [hnone] at hmem
  | array items =>
      have hnot := harrays _ (Json.mem_nodes_array.mpr (Or.inl rfl))
      cases hnot
  | object entries ih =>
      by_cases hempty : entries = []
      · subst hempty
        refine Json.putAll_eq_of_same (fun leaf hleaf => ?_) fun _ => rfl
        obtain ⟨hkeys, hvalue⟩ | ⟨entry, hentry, -⟩ :=
          Json.reaches_object_iff.mp (lists.sound leaf hleaf).1
        · exact Prod.ext hkeys hvalue
        · cases hentry
      · obtain ⟨others, hput, hothers, hlookup⟩ :=
          Json.putAll_object (lists.keys_ne_nil hempty) List.Pairwise.nil
        have hsame : others = entries := by
          refine Json.eq_of_lookup_eq hothers hcanonical.1 fun key => ?_
          rw [hlookup]
          cases hchild : Json.lookup key entries with
          | none => rw [lists.under_eq_nil hchild, if_pos rfl, Json.lookup]
          | some child =>
              obtain ⟨hlists, hsome⟩ := lists.under_child hcanonical hchild
              have hmem := Json.mem_of_lookup hchild
              have hback := ih _ hmem (Json.canonicalEntries_iff.mp hcanonical.2 _ hmem)
                (fun node hnode => harrays node
                  (Json.mem_nodes_object.mpr (Or.inr ⟨_, hmem, hnode⟩))) hlists
              rw [if_neg hsome, Json.lookup, Option.getD_none, hback]
        rw [hput, hsame]

/-- The keys that a path was joined from, when none of them has a slash. -/
def splitPath (text : String) : List String := (text.toList.splitOn '/').map String.ofList

theorem splitPath_joinPath {path : List String} (hpath : path ≠ [])
    (hkeys : ∀ key ∈ path, SlashFree key) : splitPath (joinPath path) = path := by
  obtain ⟨key, path, rfl⟩ := List.exists_cons_of_ne_nil hpath
  rw [splitPath, toList_joinPath_cons]
  induction path generalizing key with
  | nil =>
      have hkey : '/' ∉ key.toList := hkeys key List.mem_cons_self
      simp [furtherText, List.splitOn_eq_singleton hkey]
  | cons next path ih =>
      obtain ⟨hkey, hlater⟩ := List.forall_mem_cons.mp hkeys
      have htext : furtherText (next :: path) = '/' :: (next.toList ++ furtherText path) := rfl
      rw [htext, List.splitOn_append_cons_self_of_not_mem hkey, List.map_cons,
        String.ofList_toList, ih next (List.cons_ne_nil _ _) hlater]

/-- The values of rows put under the keys of their paths, starting with an object that has
nothing. -/
def rebuild (rows : List Row) : Json :=
  putAll (rows.map fun row => (splitPath row.path, row.value)) (.object [])

/-- An event as it is read, without arrays and with keys that paths can be cut at again. -/
structure Plain (event : Json) : Prop where
  isObject : ∃ entries, event = .object entries
  canonical : event.Canonical
  noArrays : ∀ node ∈ event.nodes, node.isArray = false
  slashFree : ∀ key ∈ event.keys, SlashFree key

/-- The rows of a plain event give it back, in whatever order and however often they stand. -/
theorem Plain.rebuild_eq {event : Json} (plain : Plain event) {listed : List Row}
    (h : ∀ row, row ∈ listed ↔ row ∈ rows event) : rebuild listed = event := by
  obtain ⟨entries, rfl⟩ := plain.isObject
  have hsplit {keys : List String} {leaf : Json} (hkeys : keys ≠ [])
      (hreach : Reaches keys (.object entries) leaf) : splitPath (joinPath keys) = keys :=
    splitPath_joinPath hkeys fun key hkey => plain.slashFree key (hreach.subset_keys hkey)
  refine putAll_leaves plain.canonical plain.noArrays ⟨?_, ?_⟩
  · intro leaf hleaf
    obtain ⟨row, hrow, rfl⟩ := List.mem_map.mp hleaf
    obtain ⟨keys, value, hkeys, hreach, hvalue, rfl⟩ := mem_rows_object_iff.mp ((h row).mp hrow)
    rw [hsplit hkeys hreach]
    exact ⟨hreach, hvalue⟩
  · intro keys leaf hreach hrow
    have hkeys : keys ≠ [] := by
      rintro rfl
      obtain ⟨-, hscalar | hnone⟩ := hrow
      · cases hreach
        cases hscalar
      · exact hnone rfl
    have hmem := mem_rows_object_iff.mpr ⟨keys, leaf, hkeys, hreach, hrow.1, rfl⟩
    refine List.mem_map.mpr ⟨_, (h _).mpr hmem, ?_⟩
    rw [hsplit hkeys hreach]

theorem Plain.eq_of_rows_perm {event other : Json} (plain : Plain event) (hother : Plain other)
    (h : (rows event).Perm (rows other)) : event = other := by
  have hback := plain.rebuild_eq fun row => Iff.rfl
  rw [← hback, hother.rebuild_eq fun row => h.mem_iff]

end Index

end EventBus
