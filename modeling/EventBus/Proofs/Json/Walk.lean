import EventBus.Proofs.Json.Canonical
import Mathlib.Data.List.Basic

/-!
Walking a JSON value. Keys lead through objects either one by one, as a look-up does, or
with free steps into the elements of arrays on the way. The first kind of walk has one end
at most. The second may have many, and every walk can be carried on to a scalar or an empty
container. Where no array stands in between, the two kinds end at the same values.
-/

namespace EventBus.Json

/-- A scalar, or a container with nothing in it. -/
def isLeaf : Json → Bool
  | .array items => items.isEmpty
  | .object entries => entries.isEmpty
  | _ => true

theorem isLeaf_of_isScalar {value : Json} (h : value.isScalar = true) : value.isLeaf = true := by
  cases value <;> simp_all [isScalar, isLeaf]

/-- The keys lead from a value to another through the entries of objects, with steps from an
array to any of its items wherever one comes. -/
inductive Reaches : List String → Json → Json → Prop where
  | here (value : Json) : Reaches [] value value
  | item {keys : List String} {items : List Json} {item target : Json}
      (hitem : item ∈ items) (h : Reaches keys item target) :
      Reaches keys (.array items) target
  | entry {keys : List String} {entries : List (String × Json)} {key : String}
      {value target : Json} (hentry : (key, value) ∈ entries) (h : Reaches keys value target) :
      Reaches (key :: keys) (.object entries) target

theorem reaches_scalar_iff {keys : List String} {value target : Json}
    (h : value.isScalar = true) : Reaches keys value target ↔ keys = [] ∧ target = value := by
  constructor
  · intro hreach
    cases hreach with
    | here => exact ⟨rfl, rfl⟩
    | item => simp [isScalar] at h
    | entry => simp [isScalar] at h
  · rintro ⟨rfl, rfl⟩
    exact .here _

theorem reaches_array_iff {keys : List String} {items : List Json} {target : Json} :
    Reaches keys (.array items) target ↔
      (keys = [] ∧ target = .array items) ∨ ∃ item ∈ items, Reaches keys item target := by
  constructor
  · intro hreach
    cases hreach with
    | here => exact Or.inl ⟨rfl, rfl⟩
    | item hitem h => exact Or.inr ⟨_, hitem, h⟩
  · rintro (⟨rfl, rfl⟩ | ⟨item, hitem, h⟩)
    · exact .here _
    · exact .item hitem h

theorem reaches_object_iff {keys : List String} {entries : List (String × Json)}
    {target : Json} :
    Reaches keys (.object entries) target ↔
      (keys = [] ∧ target = .object entries) ∨
        ∃ entry ∈ entries, ∃ rest, keys = entry.1 :: rest ∧ Reaches rest entry.2 target := by
  constructor
  · intro hreach
    cases hreach with
    | here => exact Or.inl ⟨rfl, rfl⟩
    | entry hentry h => exact Or.inr ⟨_, hentry, _, rfl, h⟩
  · rintro (⟨rfl, rfl⟩ | ⟨entry, hentry, rest, rfl, h⟩)
    · exact .here _
    · exact .entry hentry h

theorem not_reaches_of_lookup_eq_none {key : String} {entries : List (String × Json)}
    (h : lookup key entries = none) (target : Json) :
    ¬ Reaches [key] (.object entries) target := by
  rw [reaches_object_iff]
  rintro (⟨hnil, -⟩ | ⟨entry, hentry, rest, hkey, -⟩)
  · cases hnil
  · exact lookup_eq_none_iff.mp h entry hentry (List.cons.inj hkey).1.symm

/-- A walk over two stretches of keys passes through a value in between. -/
theorem reaches_append_iff {first second : List String} {value target : Json} :
    Reaches (first ++ second) value target ↔
      ∃ middle, Reaches first value middle ∧ Reaches second middle target := by
  constructor
  · generalize hkeys : first ++ second = keys
    intro hreach
    induction hreach generalizing first with
    | here value =>
        obtain ⟨rfl, rfl⟩ := List.append_eq_nil_iff.mp hkeys
        exact ⟨value, .here value, .here value⟩
    | item hitem _ ih =>
        obtain ⟨middle, hbefore, hafter⟩ := ih hkeys
        exact ⟨middle, .item hitem hbefore, hafter⟩
    | entry hentry h ih =>
        cases first with
        | nil =>
            rw [List.nil_append] at hkeys
            subst hkeys
            exact ⟨_, .here _, .entry hentry h⟩
        | cons key first =>
            obtain ⟨rfl, htail⟩ := List.cons.inj hkeys
            obtain ⟨middle, hbefore, hafter⟩ := ih htail
            exact ⟨middle, .entry hentry hbefore, hafter⟩
  · rintro ⟨middle, hbefore, hafter⟩
    induction hbefore with
    | here => exact hafter
    | item hitem _ ih => exact .item hitem (ih hafter)
    | entry hentry _ ih => exact .entry hentry (ih hafter)

/-- From every value some keys lead to a scalar or an empty container. -/
theorem exists_reaches_leaf (value : Json) :
    ∃ keys leaf, Reaches keys value leaf ∧ leaf.isLeaf = true := by
  induction value using partsInduction with
  | scalar value h => exact ⟨[], value, .here value, isLeaf_of_isScalar h⟩
  | array items ih =>
      cases items with
      | nil => exact ⟨[], .array [], .here _, rfl⟩
      | cons item items =>
          obtain ⟨keys, leaf, hreach, hleaf⟩ := ih item (by simp)
          exact ⟨keys, leaf, .item (by simp) hreach, hleaf⟩
  | object entries ih =>
      cases entries with
      | nil => exact ⟨[], .object [], .here _, rfl⟩
      | cons entry entries =>
          obtain ⟨keys, leaf, hreach, hleaf⟩ := ih entry (by simp)
          exact ⟨entry.1 :: keys, leaf, .entry (by simp) hreach, hleaf⟩

mutual

/-- A value and all it is made of, at any depth. -/
def nodes : Json → List Json
  | .array items => .array items :: nodesOfItems items
  | .object entries => .object entries :: nodesOfEntries entries
  | scalar => [scalar]

def nodesOfItems : List Json → List Json
  | [] => []
  | item :: rest => nodes item ++ nodesOfItems rest

def nodesOfEntries : List (String × Json) → List Json
  | [] => []
  | (_, value) :: rest => nodes value ++ nodesOfEntries rest

end

theorem mem_nodes_array {items : List Json} {node : Json} :
    node ∈ nodes (.array items) ↔ node = .array items ∨ ∃ item ∈ items, node ∈ item.nodes := by
  have hitems : ∀ items, node ∈ nodesOfItems items ↔ ∃ item ∈ items, node ∈ item.nodes := by
    intro items
    induction items with
    | nil => simp [nodesOfItems]
    | cons item rest ih => simp [nodesOfItems, ih]
  rw [nodes, List.mem_cons, hitems]

theorem mem_nodes_object {entries : List (String × Json)} {node : Json} :
    node ∈ nodes (.object entries) ↔
      node = .object entries ∨ ∃ entry ∈ entries, node ∈ entry.2.nodes := by
  have hentries : ∀ entries,
      node ∈ nodesOfEntries entries ↔ ∃ entry ∈ entries, node ∈ entry.2.nodes := by
    intro entries
    induction entries with
    | nil => simp [nodesOfEntries]
    | cons entry rest ih =>
        obtain ⟨key, value⟩ := entry
        simp [nodesOfEntries, ih]
  rw [nodes, List.mem_cons, hentries]

/-- The parts of a document are parts of whatever holds it. -/
theorem mem_nodes_trans {whole part node : Json} (hpart : part ∈ whole.nodes)
    (hnode : node ∈ part.nodes) : node ∈ whole.nodes := by
  induction whole using partsInduction with
  | scalar value hscalar =>
      have hnodes : value.nodes = [value] := by
        cases value <;> simp [isScalar] at hscalar <;> rfl
      rw [hnodes, List.mem_singleton] at hpart
      exact hpart ▸ hnode
  | array items ih =>
      rcases mem_nodes_array.mp hpart with rfl | ⟨item, hitem, hinner⟩
      · exact hnode
      · exact mem_nodes_array.mpr (Or.inr ⟨item, hitem, ih item hitem hinner⟩)
  | object entries ih =>
      rcases mem_nodes_object.mp hpart with rfl | ⟨entry, hentry, hinner⟩
      · exact hnode
      · exact mem_nodes_object.mpr (Or.inr ⟨entry, hentry, ih entry hentry hinner⟩)

theorem Reaches.mem_nodes {keys : List String} {value target : Json}
    (h : Reaches keys value target) : target ∈ value.nodes := by
  induction h with
  | here value => cases value <;> simp [nodes]
  | item hitem _ ih => exact mem_nodes_array.mpr (Or.inr ⟨_, hitem, ih⟩)
  | entry hentry _ ih => exact mem_nodes_object.mpr (Or.inr ⟨_, hentry, ih⟩)

def ownKeys : Json → List String
  | .object entries => entries.map Prod.fst
  | _ => []

/-- The keys of all objects in a value. -/
def keys (value : Json) : List String := value.nodes.flatMap ownKeys

theorem Reaches.subset_keys {path : List String} {value target : Json}
    (h : Reaches path value target) : path ⊆ value.keys := by
  intro key hkey
  simp only [keys, List.mem_flatMap]
  induction h with
  | here => simp at hkey
  | item hitem _ ih =>
      obtain ⟨node, hnode, hown⟩ := ih hkey
      exact ⟨node, mem_nodes_array.mpr (Or.inr ⟨_, hitem, hnode⟩), hown⟩
  | entry hentry _ ih =>
      rcases List.mem_cons.mp hkey with rfl | hlater
      · exact ⟨_, mem_nodes_object.mpr (Or.inl rfl), List.mem_map_of_mem hentry⟩
      · obtain ⟨node, hnode, hown⟩ := ih hlater
        exact ⟨node, mem_nodes_object.mpr (Or.inr ⟨_, hentry, hnode⟩), hown⟩

/-- The value that look-ups of the keys one after the other lead to. -/
def at? : List String → Json → Option Json
  | [], value => some value
  | key :: keys, value => (value.get? key).bind (at? keys)

theorem exists_object_of_at?_cons {key : String} {keys : List String} {value found : Json}
    (h : at? (key :: keys) value = some found) : ∃ entries, value = .object entries := by
  cases value with
  | object entries => exact ⟨entries, rfl⟩
  | _ => simp [at?, get?] at h

/-- Look-ups lead to one value only: a walk over the same keys and more goes on from there. -/
theorem reaches_append_iff_of_at? {path : List String} {value middle : Json}
    (hcanonical : Canonical value) (hat : at? path value = some middle) {keys : List String}
    {target : Json} : Reaches (path ++ keys) value target ↔ Reaches keys middle target := by
  induction path generalizing value with
  | nil =>
      cases hat
      rfl
  | cons key path ih =>
      cases value with
      | object entries =>
          obtain ⟨hascending, hentries⟩ := hcanonical
          rw [at?, get?] at hat
          obtain ⟨held, hlookup, hrest⟩ := Option.bind_eq_some_iff.mp hat
          have hmem := mem_of_lookup hlookup
          rw [← ih (canonicalEntries_iff.mp hentries _ hmem) hrest]
          constructor
          · intro hreach
            cases hreach with
            | entry hentry h =>
                have hsame := (lookup_eq_some_iff hascending).mpr hentry
                rw [hlookup] at hsame
                cases hsame
                exact h
          · exact fun h => .entry hmem h
      | _ => simp [at?, get?] at hat

theorem Reaches.of_at? {path : List String} {value target : Json} (hcanonical : Canonical value)
    (hat : at? path value = some target) : Reaches path value target := by
  have h := (reaches_append_iff_of_at? hcanonical hat).mpr (.here target)
  rwa [List.append_nil] at h

/-- An array, if the value is one, has only scalars in it. -/
def hasScalarItems : Json → Bool
  | .array items => items.all isScalar
  | _ => true

/-- Where arrays hold only scalars, a walk ends where look-ups of its keys lead, or at an item
of the array there. -/
theorem Reaches.at?_of_scalarItems {path : List String} {value target : Json}
    (h : Reaches path value target) (hcanonical : Canonical value)
    (hitems : ∀ node ∈ value.nodes, node.hasScalarItems = true) :
    ∃ found, at? path value = some found ∧
      (target = found ∨ ∃ items, found = .array items ∧ target ∈ items) := by
  induction h with
  | here value => exact ⟨value, rfl, Or.inl rfl⟩
  | item hitem h _ =>
      have hscalars := hitems _ (mem_nodes_array.mpr (Or.inl rfl))
      have hscalar := List.all_eq_true.mp hscalars _ hitem
      obtain ⟨rfl, rfl⟩ := (reaches_scalar_iff hscalar).mp h
      exact ⟨_, rfl, Or.inr ⟨_, rfl, hitem⟩⟩
  | entry hentry _ ih =>
      obtain ⟨hascending, hentries⟩ := hcanonical
      obtain ⟨found, hat, htarget⟩ := ih (canonicalEntries_iff.mp hentries _ hentry)
        (fun node hnode => hitems node (mem_nodes_object.mpr (Or.inr ⟨_, hentry, hnode⟩)))
      refine ⟨found, ?_, htarget⟩
      rw [at?, get?, (lookup_eq_some_iff hascending).mpr hentry]
      exact hat

end EventBus.Json
