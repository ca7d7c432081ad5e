import EventBus.Proofs.Pattern.DocumentParts
import EventBus.Proofs.Pattern.IndexAgreement
import EventBus.Sql.Select

/-!
What the rows forget where no array stands. Direct matching insists that an object stands
wherever an inner field map looks into one; flattening keeps the leaves of a field map and
forgets the map itself, so a field map that is empty, or that asks for nothing but absence,
accepts rows of an event without the object. That is all that gets lost: of an event without
arrays whose rows are accepted, direct matching accepts exactly those that have an object
wherever one is looked into.
-/

namespace EventBus.Json

def isArray : Json → Bool
  | .array _ => true
  | _ => false

theorem hasScalarItems_of_not_isArray {value : Json} (h : value.isArray = false) :
    value.hasScalarItems = true := by
  cases value <;> simp_all [isArray, hasScalarItems]

end EventBus.Json

namespace EventBus.Predicate

open Index (branches)

mutual

/-- Where a predicate looks into an object, by the keys that lead there. -/
def objectPaths : Predicate → List (List String)
  | .fields entries => [] :: objectPathsOfEntries entries
  | _ => []

def objectPathsOfEntries : List (String × Predicate) → List (List String)
  | [] => []
  | (key, child) :: entries => child.objectPaths.map (key :: ·) ++ objectPathsOfEntries entries

end

theorem forall_objectPaths_fields {entries : List (String × Predicate)}
    {property : List String → Prop} :
    (∀ path ∈ objectPaths (.fields entries), property path) ↔
      property [] ∧ ∀ entry ∈ entries, ∀ path ∈ entry.2.objectPaths, property (entry.1 :: path) := by
  have hentries : ∀ entries, (∀ path ∈ objectPathsOfEntries entries, property path) ↔
      ∀ entry ∈ entries, ∀ path ∈ entry.2.objectPaths, property (entry.1 :: path) := by
    intro entries
    induction entries with
    | nil => simp [objectPathsOfEntries]
    | cons entry entries ih =>
        obtain ⟨key, child⟩ := entry
        simp [objectPathsOfEntries, or_imp, forall_and, ih]
  rw [objectPaths, List.forall_mem_cons, hentries]

/-- The keys lead from what a look-up found to an object. -/
def StandsAt (found : Option Json) (path : List String) : Prop :=
  ∃ entries, found.bind (Json.at? path) = some (.object entries)

theorem standsAt_nil_iff {found : Option Json} :
    StandsAt found [] ↔ ∃ entries, found = some (.object entries) := by
  cases found <;> simp [StandsAt, Json.at?]

theorem standsAt_cons_iff {object : List (String × Json)} {key : String} {path : List String} :
    StandsAt (some (.object object)) (key :: path) ↔ StandsAt (Json.lookup key object) path :=
  Iff.rfl

/-- What is accepted has an object wherever the predicate looks into one. -/
theorem standsAt_of_acceptsField {predicate : Predicate} {found : Option Json}
    (h : predicate.acceptsField found = true) :
    ∀ path ∈ predicate.objectPaths, StandsAt found path := by
  induction predicate using partsInduction generalizing found with
  | fields entries ih =>
      obtain ⟨object, rfl, hentries⟩ := acceptsField_fields_iff.mp h
      rw [forall_objectPaths_fields]
      refine ⟨standsAt_nil_iff.mpr ⟨object, rfl⟩, ?_⟩
      intro entry hentry path hpath
      exact standsAt_cons_iff.mpr (ih entry hentry (hentries entry hentry) path hpath)
  | _ => simp [objectPaths]

/-- Branches that are satisfied one by one make up the predicate where no object is missing. -/
theorem acceptsField_of_standsAt {predicate : Predicate} (hpass : .pass ∉ predicate.nodes)
    {found : Option Json} (hstands : ∀ path ∈ predicate.objectPaths, StandsAt found path)
    (h : ∀ branch ∈ branches predicate,
      branch.predicate.acceptsField (found.bind (Json.at? branch.path)) = true) :
    predicate.acceptsField found = true := by
  induction predicate using partsInduction generalizing found with
  | pass => exact absurd (mem_nodes_self _) hpass
  | fields entries ih =>
      obtain ⟨hself, hinner⟩ := forall_objectPaths_fields.mp hstands
      obtain ⟨object, rfl⟩ := standsAt_nil_iff.mp hself
      rw [acceptsField_fields_iff]
      refine ⟨object, rfl, ?_⟩
      intro entry hentry
      apply ih entry hentry
      · exact fun hnode => hpass (mem_nodes_fields.mpr (Or.inr ⟨entry, hentry, hnode⟩))
      · exact hinner entry hentry
      · intro inner hbranch
        exact h ⟨entry.1 :: inner.path, inner.predicate⟩
          (mem_branches_fields.mpr ⟨entry, hentry, inner, hbranch, rfl⟩)
  | _ =>
      rw [branches_leaf rfl] at h
      have hself := h _ (List.mem_singleton_self _)
      cases found <;> exact hself

end EventBus.Predicate

namespace EventBus.Index

/-- Of an event without arrays whose rows are accepted, direct matching accepts exactly those
that have an object wherever a field map of the pattern looks into one. -/
theorem accepts_iff_objects_of_accepts_rows (document : Json)
    (fields : List (String × Predicate)) (entries : List (String × Json))
    (hdocument : Pattern.compile document = .ok (.fields fields))
    (hcanonical : (Json.object entries).Canonical)
    (harrays : ∀ node ∈ (Json.object entries).nodes, node.isArray = false)
    (hkeys : ∀ key ∈ Predicate.keys (.fields fields), SlashFree key)
    (hevent : ∀ key ∈ (Json.object entries).keys, SlashFree key)
    (h : accepts (branches (.fields fields)) (rows (.object entries)) = true) :
    Predicate.accepts (.fields fields) (.object entries) = true ↔
      ∀ path ∈ Predicate.objectPaths (.fields fields),
        ∃ inner, Json.at? path (.object entries) = some (.object inner) := by
  have hpass := Pattern.pass_not_mem_nodes_of_compile hdocument
  have hsatisfied : ∀ branch ∈ branches (.fields fields),
      branch.predicate.acceptsField (Json.at? branch.path (.object entries)) = true := by
    intro branch hbranch
    obtain ⟨entry, -, inner, -, rfl⟩ := Predicate.mem_branches_fields.mp hbranch
    obtain ⟨-, hleaf, hpath⟩ := Predicate.leaf_of_branch hbranch
    apply acceptsField_of_accepts_rows (List.cons_ne_nil _ _) (fun key hkey => hkeys key (hpath hkey))
      hleaf hcanonical
    · exact fun node hnode => Json.hasScalarItems_of_not_isArray (harrays node hnode)
    · intro _ items hat
      have hnode := (Json.Reaches.of_at? hcanonical hat).mem_nodes
      exact absurd (harrays _ hnode) (by simp [Json.isArray])
    · exact hevent
    · exact List.all_eq_true.mp h _ hbranch
  constructor
  · intro (haccepts : Predicate.acceptsField (.fields fields) (some (.object entries)) = true)
    exact Predicate.standsAt_of_acceptsField haccepts
  · intro hobjects
    have haccepts : Predicate.acceptsField (.fields fields) (some (.object entries)) = true :=
      Predicate.acceptsField_of_standsAt hpass hobjects hsatisfied
    exact haccepts

/-- The absence of `b` is found in the rows in both cases, in an object and where none is. -/
theorem present_object_accepted_with_rows :
    let fields : List (String × Predicate) :=
      [("a", .fields [("b", .present false), ("c", .fields [])]), ("d", .startsWith "x")]
    let entries : List (String × Json) :=
      [("a", .object [("c", .object [("e", .null)])]), ("d", .string "xy")]
    accepts (branches (.fields fields)) (rows (.object entries)) = true ∧
      (Predicate.accepts (.fields fields) (.object entries) = true ↔
        ∀ path ∈ Predicate.objectPaths (.fields fields),
          ∃ inner, Json.at? path (.object entries) = some (.object inner)) := by
  intro fields entries
  let document : Json := .object
    [("a", .object [("b", .object [("exists", .bool false)]), ("c", .object [])]),
      ("d", .object [("prefix", .string "x")])]
  have hrows : accepts (branches (.fields fields)) (rows (.object entries)) = true := by decide
  exact ⟨hrows, accepts_iff_objects_of_accepts_rows document fields entries rfl (by decide)
    (by decide) (by decide) (by decide) hrows⟩

/-- Rows are not free of false matches without arrays: a field map without fields has no branch,
so that the rows of an event whose field holds a number are accepted. -/
theorem number_accepted_for_object_in_rows :
    ¬ ∀ (tables : Sql.Tables) (since : Instant) (document : Json) (predicate : Predicate)
      (entries : List (String × Json)),
      (∃ statement, Sql.compileDocument tables since document = .ok statement) →
      Pattern.compile document = .ok predicate →
      (Json.object entries).Canonical →
      (∀ node ∈ (Json.object entries).nodes, node.isArray = false) →
      (∀ key ∈ predicate.keys, SlashFree key) →
      (∀ key ∈ (Json.object entries).keys, SlashFree key) →
      accepts (branches predicate) (rows (.object entries)) = true →
      predicate.accepts (.object entries) = true := by
  intro h
  have haccepts := h ⟨"events", "fields"⟩ ⟨0, 0⟩ (.object [("a", .object [])])
    (.fields [("a", .fields [])]) [("a", .number (.int 1))] ⟨_, rfl⟩ rfl (by decide) (by decide)
    (by decide) (by decide) (by decide)
  revert haccepts
  decide

end EventBus.Index
