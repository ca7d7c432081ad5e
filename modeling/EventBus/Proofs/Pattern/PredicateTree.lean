import EventBus.Pattern.Index
import EventBus.Proofs.Json.Walk

/-!
Predicates as trees. Fields lead to further predicates by key, members of a disjunction lead
to further ones without. The branches of a predicate are what its fields lead to, each under
the keys that lead there, and matching is looking at an entry for each field and at a
candidate for each disjunction.
-/

namespace EventBus.Predicate

open Index (branches branchesAt branchesOfEntries)

/-- Induction over the parts of a predicate, with one case for all that have none. -/
@[elab_as_elim]
theorem partsInduction {motive : Predicate → Prop}
    (pass : motive .pass)
    (literal : ∀ value, motive (.literal value))
    (startsWith : ∀ start, motive (.startsWith start))
    (present : ∀ want, motive (.present want))
    (numeric : ∀ comparisons, motive (.numeric comparisons))
    (anyOf : ∀ members, (∀ member ∈ members, motive member) → motive (.anyOf members))
    (fields : ∀ entries, (∀ entry ∈ entries, motive entry.2) → motive (.fields entries)) :
    ∀ predicate, motive predicate
  | .pass => pass
  | .literal value => literal value
  | .startsWith start => startsWith start
  | .present want => present want
  | .numeric comparisons => numeric comparisons
  | .anyOf members => anyOf members fun member _ =>
      partsInduction pass literal startsWith present numeric anyOf fields member
  | .fields entries => fields entries fun entry _ =>
      partsInduction pass literal startsWith present numeric anyOf fields entry.2
termination_by predicate => sizeOf predicate
decreasing_by
  · have := List.sizeOf_lt_of_mem ‹member ∈ members›
    simp only [Predicate.anyOf.sizeOf_spec]
    omega
  · have := List.sizeOf_lt_of_mem ‹entry ∈ entries›
    cases entry
    simp only [Predicate.fields.sizeOf_spec, Prod.mk.sizeOf_spec] at *
    omega

mutual

/-- A predicate and all it is made of, at any depth. -/
def nodes : Predicate → List Predicate
  | .anyOf members => .anyOf members :: nodesOfMembers members
  | .fields entries => .fields entries :: nodesOfEntries entries
  | other => [other]

/-- The nodes of the members of a disjunction. -/
def nodesOfMembers : List Predicate → List Predicate
  | [] => []
  | member :: members => nodes member ++ nodesOfMembers members

/-- The nodes of the predicates of fields. -/
def nodesOfEntries : List (String × Predicate) → List Predicate
  | [] => []
  | (_, child) :: entries => nodes child ++ nodesOfEntries entries

end

theorem mem_nodes_self (predicate : Predicate) : predicate ∈ predicate.nodes := by
  cases predicate <;> simp [nodes]

theorem mem_nodes_anyOf {members : List Predicate} {node : Predicate} :
    node ∈ nodes (.anyOf members) ↔
      node = .anyOf members ∨ ∃ member ∈ members, node ∈ member.nodes := by
  have hmembers : ∀ members,
      node ∈ nodesOfMembers members ↔ ∃ member ∈ members, node ∈ member.nodes := by
    intro members
    induction members with
    | nil => simp [nodesOfMembers]
    | cons member members ih => simp [nodesOfMembers, ih]
  rw [nodes, List.mem_cons, hmembers]

theorem mem_nodes_fields {entries : List (String × Predicate)} {node : Predicate} :
    node ∈ nodes (.fields entries) ↔
      node = .fields entries ∨ ∃ entry ∈ entries, node ∈ entry.2.nodes := by
  have hentries : ∀ entries,
      node ∈ nodesOfEntries entries ↔ ∃ entry ∈ entries, node ∈ entry.2.nodes := by
    intro entries
    induction entries with
    | nil => simp [nodesOfEntries]
    | cons entry entries ih =>
        obtain ⟨key, child⟩ := entry
        simp [nodesOfEntries, ih]
  rw [nodes, List.mem_cons, hentries]

/-- The parts of a predicate are parts of whatever holds it. -/
theorem mem_nodes_trans {whole part node : Predicate} (hpart : part ∈ whole.nodes)
    (hnode : node ∈ part.nodes) : node ∈ whole.nodes := by
  induction whole using partsInduction with
  | anyOf members ih =>
      rcases mem_nodes_anyOf.mp hpart with rfl | ⟨member, hmember, hinner⟩
      · exact hnode
      · exact mem_nodes_anyOf.mpr (Or.inr ⟨member, hmember, ih member hmember hinner⟩)
  | fields entries ih =>
      rcases mem_nodes_fields.mp hpart with rfl | ⟨entry, hentry, hinner⟩
      · exact hnode
      · exact mem_nodes_fields.mpr (Or.inr ⟨entry, hentry, ih entry hentry hinner⟩)
  | _ =>
      rw [nodes, List.mem_singleton] at hpart
      · exact hpart ▸ hnode
      all_goals simp

/-- The keys of the fields themselves. -/
def ownKeys : Predicate → List String
  | .fields entries => entries.map Prod.fst
  | _ => []

/-- The keys of all fields in a predicate. -/
def keys (predicate : Predicate) : List String := predicate.nodes.flatMap ownKeys

theorem mem_keys_of_field {entries : List (String × Predicate)} {entry : String × Predicate}
    (hentry : entry ∈ entries) : entry.1 ∈ keys (.fields entries) := by
  simp only [keys, List.mem_flatMap]
  exact ⟨_, mem_nodes_self _, List.mem_map_of_mem hentry⟩

theorem keys_subset_of_field {entries : List (String × Predicate)} {entry : String × Predicate}
    (hentry : entry ∈ entries) : entry.2.keys ⊆ keys (.fields entries) := by
  intro key hkey
  simp only [keys, List.mem_flatMap] at hkey ⊢
  obtain ⟨node, hnode, hown⟩ := hkey
  exact ⟨node, mem_nodes_fields.mpr (Or.inr ⟨entry, hentry, hnode⟩), hown⟩

theorem anyAccepts_iff {members : List Predicate} {value : Json} :
    anyAccepts members value = true ↔ ∃ member ∈ members, member.accepts value = true := by
  induction members with
  | nil => simp [anyAccepts]
  | cons member members ih => simp [anyAccepts, ih]

theorem accepts_anyOf_iff {members : List Predicate} {value : Json} :
    accepts (.anyOf members) value = true ↔
      ∃ candidate ∈ candidates value, ∃ member ∈ members, member.accepts candidate = true := by
  simp [accepts, anyAccepts_iff]

theorem allAccept_iff {entries : List (String × Predicate)} {object : List (String × Json)} :
    allAccept entries object = true ↔
      ∀ entry ∈ entries, entry.2.acceptsField (Json.lookup entry.1 object) = true := by
  induction entries with
  | nil => simp [allAccept]
  | cons entry entries ih =>
      obtain ⟨key, child⟩ := entry
      rw [allAccept, Bool.and_eq_true, ih, List.forall_mem_cons]
      apply and_congr_left
      intro _
      cases Json.lookup key object <;> rfl

theorem asksAbsence_iff {predicate : Predicate} :
    predicate.asksAbsence = true ↔ predicate = .present false := by
  cases predicate with
  | present want => cases want <;> simp [asksAbsence]
  | _ => simp [asksAbsence]

/-- Only a value that is there can be an object. -/
theorem acceptsField_fields_iff {entries : List (String × Predicate)} {found : Option Json} :
    acceptsField (.fields entries) found = true ↔ ∃ object, found = some (.object object) ∧
      ∀ entry ∈ entries, entry.2.acceptsField (Json.lookup entry.1 object) = true := by
  cases found with
  | none => simp [acceptsField, asksAbsence]
  | some value => cases value <;> simp [acceptsField, accepts, allAccept_iff]

/-- The branches of fields are those of each field, under its key. -/
theorem mem_branchesAt_fields {path : List String} {entries : List (String × Predicate)}
    {branch : Index.Branch} :
    branch ∈ branchesAt path (.fields entries) ↔
      ∃ entry ∈ entries, branch ∈ branchesAt (path ++ [entry.1]) entry.2 := by
  rw [branchesAt]
  induction entries with
  | nil => simp [branchesOfEntries]
  | cons entry entries ih =>
      obtain ⟨key, child⟩ := entry
      simp [branchesOfEntries, ih]

/-- Branches under a path are the branches of the predicate with the path before their keys. -/
theorem mem_branchesAt_iff {path : List String} {predicate : Predicate}
    {branch : Index.Branch} :
    branch ∈ branchesAt path predicate ↔
      ∃ inner ∈ branches predicate, branch = ⟨path ++ inner.path, inner.predicate⟩ := by
  unfold branches
  induction predicate using partsInduction generalizing path branch with
  | pass => simp [branchesAt]
  | fields entries ih =>
      simp only [mem_branchesAt_fields, List.nil_append]
      constructor
      · rintro ⟨entry, hentry, hbranch⟩
        obtain ⟨inner, hinner, rfl⟩ := (ih entry hentry).mp hbranch
        refine ⟨⟨entry.1 :: inner.path, inner.predicate⟩, ⟨entry, hentry, ?_⟩, by simp⟩
        exact (ih entry hentry).mpr ⟨inner, hinner, by simp⟩
      · rintro ⟨outer, ⟨entry, hentry, houter⟩, rfl⟩
        obtain ⟨inner, hinner, rfl⟩ := (ih entry hentry).mp houter
        exact ⟨entry, hentry, (ih entry hentry).mpr ⟨inner, hinner, by simp⟩⟩
  | _ => simp [branchesAt]

theorem mem_branches_fields {entries : List (String × Predicate)} {branch : Index.Branch} :
    branch ∈ branches (.fields entries) ↔
      ∃ entry ∈ entries, ∃ inner ∈ branches entry.2,
        branch = ⟨entry.1 :: inner.path, inner.predicate⟩ := by
  rw [branches, mem_branchesAt_fields]
  simp [mem_branchesAt_iff]

/-- What becomes a branch: neither fields nor the predicate that accepts everything. -/
def isLeaf : Predicate → Bool
  | .pass => false
  | .fields _ => false
  | _ => true

theorem branches_leaf {predicate : Predicate} (h : predicate.isLeaf = true) :
    branches predicate = [⟨[], predicate⟩] := by
  cases predicate <;> simp_all [isLeaf, branches, branchesAt]

/-- A branch ends at a leaf of the predicate, by keys of the predicate. -/
theorem leaf_of_branch {predicate : Predicate} {branch : Index.Branch}
    (h : branch ∈ branches predicate) :
    branch.predicate ∈ predicate.nodes ∧ branch.predicate.isLeaf = true ∧
      branch.path ⊆ predicate.keys := by
  induction predicate using partsInduction generalizing branch with
  | pass => simp [branches, branchesAt] at h
  | fields entries ih =>
      obtain ⟨entry, hentry, inner, hinner, rfl⟩ := mem_branches_fields.mp h
      obtain ⟨hnode, hleaf, hpath⟩ := ih entry hentry hinner
      refine ⟨mem_nodes_fields.mpr (Or.inr ⟨entry, hentry, hnode⟩), hleaf, ?_⟩
      rw [List.cons_subset]
      exact ⟨mem_keys_of_field hentry, List.Subset.trans hpath (keys_subset_of_field hentry)⟩
  | _ =>
      rw [branches_leaf rfl, List.mem_singleton] at h
      subst h
      exact ⟨mem_nodes_self _, rfl, List.nil_subset _⟩

/-- Without keys a branch is the whole predicate. -/
theorem predicate_of_branch_nil {predicate : Predicate} {branch : Index.Branch}
    (h : branch ∈ branches predicate) (hpath : branch.path = []) :
    branch.predicate = predicate := by
  cases predicate with
  | pass => simp [branches, branchesAt] at h
  | fields entries =>
      obtain ⟨entry, -, inner, -, rfl⟩ := mem_branches_fields.mp h
      simp at hpath
  | _ =>
      rw [branches_leaf rfl, List.mem_singleton] at h
      rw [h]

end EventBus.Predicate
