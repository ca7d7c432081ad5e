import EventBus.Proofs.Pattern.IndexRows
import EventBus.Proofs.Pattern.PredicateTree

/-!
The index against direct matching. What a predicate accepts directly, its branches accept on
the rows, whatever arrays the event holds. The way back needs more: a row forgets whether it
came out of an array, and a field map leaves nothing behind but its leaves. Where arrays hold
scalars only and stand under disjunctions or demands of presence only, and where every inner
field map has a leaf that notices when its object is missing, both say the same.
-/

namespace EventBus.Predicate

open Index (branches)
open Json (Reaches)

/-- A test that only scalars pass. -/
def isScalarTest : Predicate → Bool
  | .literal _ => true
  | .startsWith _ => true
  | .numeric _ => true
  | _ => false

/-- The members of a disjunction, if it is one, are tests of scalars or ask for absence. -/
def hasPlainMembers : Predicate → Bool
  | .anyOf members => members.all fun member => member.isScalarTest || member.asksAbsence
  | _ => true

theorem isScalar_of_literalEqual {expected value : Json} (h : literalEqual expected value = true) :
    value.isScalar = true := by
  cases expected <;> cases value <;> simp_all [literalEqual, Json.isScalar]

theorem isScalar_of_accepts {predicate : Predicate} (htest : predicate.isScalarTest = true)
    {value : Json} (h : predicate.accepts value = true) : value.isScalar = true := by
  cases predicate with
  | literal expected => exact isScalar_of_literalEqual (by simpa [accepts] using h)
  | startsWith start => cases value <;> simp_all [accepts, Json.isScalar]
  | numeric comparisons => cases value <;> simp_all [accepts, Json.isScalar]
  | _ => simp [isScalarTest] at htest

theorem reaches_of_mem_candidates {value candidate : Json} (h : candidate ∈ candidates value) :
    Reaches [] value candidate := by
  cases value with
  | array items => exact .item h (.here candidate)
  | _ =>
      obtain rfl := List.mem_singleton.mp h
      exact .here _

theorem candidates_scalar {value : Json} (h : value.isScalar = true) :
    candidates value = [value] := by
  cases value <;> simp_all [Json.isScalar, candidates]

/-- What a disjunction of plain members accepts, it accepts for a scalar. -/
theorem exists_scalar_of_anyOf {members : List Predicate}
    (hplain : hasPlainMembers (.anyOf members) = true) {value : Json}
    (h : accepts (.anyOf members) value = true) :
    ∃ scalar ∈ candidates value, scalar.isScalar = true ∧
      accepts (.anyOf members) scalar = true := by
  obtain ⟨candidate, hcandidate, member, hmember, haccepts⟩ := accepts_anyOf_iff.mp h
  have hkind := List.all_eq_true.mp hplain member hmember
  rw [Bool.or_eq_true] at hkind
  have hscalar : candidate.isScalar = true := by
    rcases hkind with htest | habsent
    · exact isScalar_of_accepts htest haccepts
    · rw [asksAbsence_iff.mp habsent] at haccepts
      simp [accepts] at haccepts
  refine ⟨candidate, hcandidate, hscalar, ?_⟩
  exact accepts_anyOf_iff.mpr
    ⟨candidate, by simp [candidates_scalar hscalar], member, hmember, haccepts⟩

/-- A leaf that accepts a value, other than for its presence, accepts a scalar in it. -/
theorem exists_scalar_of_accepts {leaf : Predicate} (hleaf : leaf.isLeaf = true)
    (hplain : leaf.hasPlainMembers = true) (hpresent : ∀ want, leaf ≠ .present want)
    {value : Json} (h : leaf.accepts value = true) :
    ∃ scalar, Reaches [] value scalar ∧ scalar.isScalar = true ∧ leaf.accepts scalar = true := by
  cases leaf with
  | pass => simp [isLeaf] at hleaf
  | fields entries => simp [isLeaf] at hleaf
  | present want => exact absurd rfl (hpresent want)
  | anyOf members =>
      obtain ⟨scalar, hmem, hscalar, haccepts⟩ := exists_scalar_of_anyOf hplain h
      exact ⟨scalar, reaches_of_mem_candidates hmem, hscalar, haccepts⟩
  | _ => exact ⟨value, .here value, isScalar_of_accepts rfl h, h⟩

end EventBus.Predicate

namespace EventBus.Index

open Json (Reaches)

/-- Direct matching has found what a branch asks for: a value that it accepts where its keys
lead, or an object without its last key where it asks for absence. -/
def Branch.SettledBy (branch : Branch) (event : Json) : Prop :=
  (∃ found, Json.at? branch.path event = some found ∧ branch.predicate.accepts found = true) ∨
    (branch.predicate = .present false ∧ ∃ front key object, branch.path = front ++ [key] ∧
      Json.at? front event = some (.object object) ∧ Json.lookup key object = none)

theorem Branch.SettledBy.under_key {inner : Branch} {held : Json} (h : inner.SettledBy held)
    {key : String} {object : List (String × Json)} (hlookup : Json.lookup key object = some held) :
    Branch.SettledBy ⟨key :: inner.path, inner.predicate⟩ (.object object) := by
  have hstep (keys : List String) :
      Json.at? (key :: keys) (.object object) = Json.at? keys held := by
    rw [Json.at?, Json.get?, hlookup, Option.bind_some]
  rcases h with ⟨found, hat, haccepts⟩ | ⟨habsent, front, last, inside, hpath, hat, hnone⟩
  · exact Or.inl ⟨found, by rw [hstep, hat], haccepts⟩
  · exact Or.inr ⟨habsent, key :: front, last, inside, by simp [hpath], by rw [hstep, hat], hnone⟩

theorem Branch.SettledBy.exists_object {branch : Branch} {event : Json}
    (h : branch.SettledBy event) (hpath : branch.path ≠ []) :
    ∃ entries, event = .object entries := by
  rcases h with ⟨found, hat, -⟩ | ⟨-, front, key, object, -, hat, -⟩
  · obtain ⟨key, keys, hkeys⟩ := List.exists_cons_of_ne_nil hpath
    rw [hkeys] at hat
    exact Json.exists_object_of_at?_cons hat
  · cases front with
    | nil => exact ⟨object, Option.some.inj hat⟩
    | cons first front => exact Json.exists_object_of_at?_cons hat

/-- What a predicate accepts settles all its branches. -/
theorem settledBy_of_accepts {predicate : Predicate} {event : Json}
    (h : predicate.accepts event = true) :
    ∀ branch ∈ branches predicate, branch.SettledBy event := by
  induction predicate using Predicate.partsInduction generalizing event with
  | pass => simp [branches, branchesAt]
  | fields entries ih =>
      intro branch hbranch
      have hfound : Predicate.acceptsField (.fields entries) (some event) = true := h
      obtain ⟨object, hobject, hentries⟩ := Predicate.acceptsField_fields_iff.mp hfound
      cases hobject
      obtain ⟨entry, hentry, inner, hinner, rfl⟩ := Predicate.mem_branches_fields.mp hbranch
      have hfield := hentries entry hentry
      cases hlookup : Json.lookup entry.1 object with
      | some held =>
          rw [hlookup] at hfield
          exact (ih entry hentry hfield inner hinner).under_key hlookup
      | none =>
          rw [hlookup] at hfield
          have habsent := Predicate.asksAbsence_iff.mp hfield
          rw [habsent, Predicate.branches_leaf rfl, List.mem_singleton] at hinner
          subst hinner
          exact Or.inr ⟨rfl, [], entry.1, object, rfl, rfl, hlookup⟩
  | _ =>
      intro branch hbranch
      rw [Predicate.branches_leaf rfl, List.mem_singleton] at hbranch
      subst hbranch
      exact Or.inl ⟨event, rfl, h⟩

/-- A walk to a scalar that a branch accepts gives the branch a row, also at the root. -/
theorem any_rows_of_reaches_scalar {path : List String} {event scalar : Json}
    (hreach : Reaches path event scalar) (hscalar : scalar.isScalar = true)
    {test : Json → Bool} (htest : test scalar = true) :
    (((rows event).filter fun row => row.path == joinPath path).any
      fun row => test row.value) = true := by
  have hrow : (⟨joinPath path, scalar⟩ : Row) ∈ rows event :=
    mem_rowsAt_iff.mpr
      ⟨path, scalar, hreach, ⟨Json.isLeaf_of_isScalar hscalar, Or.inl hscalar⟩, rfl⟩
  simp only [List.any_eq_true, List.mem_filter, beq_iff_eq]
  exact ⟨_, ⟨hrow, rfl⟩, htest⟩

theorem accepts_of_not_present {branch : Branch} (h : ∀ want, branch.predicate ≠ .present want)
    (rows : List Row) :
    branch.accepts rows = (rows.filter fun row => row.path == joinPath branch.path).any
      fun row => branch.predicate.accepts row.value := by
  obtain ⟨path, predicate⟩ := branch
  cases predicate with
  | present want => exact absurd rfl (h want)
  | _ => rfl

/-- A settled branch accepts the rows. A value found by look-ups is reached by a walk, and
next to an object without the last key no walk along the whole path starts. -/
theorem accepts_rows_of_settled {branch : Branch} {event : Json}
    (hsettled : branch.SettledBy event) (hleaf : branch.predicate.isLeaf = true)
    (hplain : branch.predicate.hasPlainMembers = true)
    (hroot : ∀ want, branch.predicate = .present want → branch.path ≠ [])
    (hcanonical : event.Canonical) (hkeys : ∀ key ∈ branch.path, SlashFree key)
    (hevent : ∀ key ∈ event.keys, SlashFree key) : branch.accepts (rows event) = true := by
  obtain ⟨path, predicate⟩ := branch
  by_cases hpresent : ∃ want, predicate = .present want
  · obtain ⟨want, rfl⟩ := hpresent
    have hpath := hroot want rfl
    obtain ⟨entries, rfl⟩ := hsettled.exists_object hpath
    simp only [Branch.accepts, Branch.pathText, beq_iff_eq]
    rw [Bool.eq_iff_iff, any_isAtOrBelow_rows_iff hpath hkeys hevent]
    rcases hsettled with ⟨found, hat, hwant⟩ | ⟨habsent, front, key, object, rfl, hat, hnone⟩
    · have hreach := Reaches.of_at? hcanonical hat
      exact iff_of_true ⟨found, hreach⟩ hwant
    · cases habsent
      refine iff_of_false ?_ Bool.false_ne_true
      rintro ⟨target, htarget⟩
      rw [Json.reaches_append_iff_of_at? hcanonical hat] at htarget
      exact Json.not_reaches_of_lookup_eq_none hnone target htarget
  · have hother : ∀ want, predicate ≠ .present want := by
      intro want heq
      exact hpresent ⟨want, heq⟩
    rw [accepts_of_not_present hother]
    rcases hsettled with ⟨found, hat, haccepts⟩ | ⟨habsent, -⟩
    · obtain ⟨scalar, hreach, hscalar, htest⟩ :=
        Predicate.exists_scalar_of_accepts hleaf hplain hother haccepts
      have hwalk : Reaches path event scalar := by
        have h := (Json.reaches_append_iff_of_at? hcanonical hat).mpr hreach
        rwa [List.append_nil] at h
      exact any_rows_of_reaches_scalar hwalk hscalar htest
    · exact absurd habsent (hother false)

/-- The rows of an event never hide what a predicate accepts directly, whatever arrays the
event holds. Keys are free of slashes, members of disjunctions are tests of scalars or ask for
absence, and the predicate is not itself a demand of presence, which has no key to look at. -/
theorem accepts_rows_of_accepts (predicate : Predicate) (event : Json)
    (hpresent : ∀ want, predicate ≠ .present want)
    (hmembers : ∀ node ∈ predicate.nodes, node.hasPlainMembers = true)
    (hcanonical : event.Canonical) (hkeys : ∀ key ∈ predicate.keys, SlashFree key)
    (hevent : ∀ key ∈ event.keys, SlashFree key) (h : predicate.accepts event = true) :
    accepts (branches predicate) (rows event) = true := by
  rw [accepts, List.all_eq_true]
  intro branch hbranch
  obtain ⟨hnode, hleaf, hpath⟩ := Predicate.leaf_of_branch hbranch
  have hroot (want : Bool) (hwant : branch.predicate = .present want) : branch.path ≠ [] := by
    intro hnil
    rw [Predicate.predicate_of_branch_nil hbranch hnil] at hwant
    exact hpresent want hwant
  exact accepts_rows_of_settled (settledBy_of_accepts h branch hbranch) hleaf
    (hmembers _ hnode) hroot hcanonical (fun key hkey => hkeys key (hpath hkey)) hevent

theorem scattered_pattern_found_in_rows :
    let predicate : Predicate := .fields
      [("a", .fields [("b", .anyOf [.startsWith "x", .present false])]), ("c", .present false),
        ("d", .present true)]
    let event : Json := .object
      [("a", .object [("b", .array [.null, .string "xy"]), ("e", .array [.object []])]),
        ("d", .array [.array []])]
    predicate.accepts event = true ∧ accepts (branches predicate) (rows event) = true := by
  intro predicate event
  have hdirect : predicate.accepts event = true := by decide
  exact ⟨hdirect, accepts_rows_of_accepts predicate event (by simp [predicate]) (by decide)
    (by decide) (by decide) (by decide) hdirect⟩

/-- Without arrays of containers, what a branch finds in the rows stands where look-ups of its
keys lead, or is an item of an array there. -/
theorem acceptsField_of_accepts_rows {entries : List (String × Json)} {branch : Branch}
    (hpath : branch.path ≠ []) (hkeys : ∀ key ∈ branch.path, SlashFree key)
    (hleaf : branch.predicate.isLeaf = true)
    (hcanonical : (Json.object entries).Canonical)
    (hitems : ∀ node ∈ (Json.object entries).nodes, node.hasScalarItems = true)
    (hplain : branch.predicate.isScalarTest = true →
      ∀ items, Json.at? branch.path (.object entries) ≠ some (.array items))
    (hevent : ∀ key ∈ (Json.object entries).keys, SlashFree key)
    (h : branch.accepts (rows (.object entries)) = true) :
    branch.predicate.acceptsField (Json.at? branch.path (.object entries)) = true := by
  obtain ⟨path, predicate⟩ := branch
  by_cases hpresent : ∃ want, predicate = .present want
  · obtain ⟨want, rfl⟩ := hpresent
    simp only [Branch.accepts, Branch.pathText, beq_iff_eq] at h
    rw [Bool.eq_iff_iff, any_isAtOrBelow_rows_iff hpath hkeys hevent] at h
    cases hat : Json.at? path (.object entries) with
    | some found => exact h.mp ⟨found, Reaches.of_at? hcanonical hat⟩
    | none =>
        cases want with
        | false => rfl
        | true =>
            obtain ⟨target, hreach⟩ := h.mpr rfl
            obtain ⟨found, hfound, -⟩ := hreach.at?_of_scalarItems hcanonical hitems
            rw [hat] at hfound
            cases hfound
  · have hother : ∀ want, predicate ≠ .present want := by
      intro want heq
      exact hpresent ⟨want, heq⟩
    rw [accepts_of_not_present hother, any_at_path_rows_iff hpath hkeys hevent] at h
    obtain ⟨leaf, hreach, -, haccepts⟩ := h
    obtain ⟨found, hat, htarget⟩ := hreach.at?_of_scalarItems hcanonical hitems
    simp only at hat ⊢
    rw [hat]
    rcases htarget with rfl | ⟨items, rfl, hitem⟩
    · exact haccepts
    · have hnode := (Reaches.of_at? hcanonical hat).mem_nodes
      have hscalar := List.all_eq_true.mp (hitems _ hnode) leaf hitem
      cases predicate with
      | pass => simp [Predicate.isLeaf] at hleaf
      | fields fields => simp [Predicate.isLeaf] at hleaf
      | present want => exact absurd rfl (hother want)
      | anyOf members =>
          obtain ⟨candidate, hcandidate, hmember⟩ := Predicate.accepts_anyOf_iff.mp haccepts
          rw [Predicate.candidates_scalar hscalar, List.mem_singleton] at hcandidate
          subst hcandidate
          exact Predicate.accepts_anyOf_iff.mpr ⟨candidate, hitem, hmember⟩
      | _ => exact absurd hat (hplain rfl items)

/-- A field map that leaves a trace when its object is missing: a leaf in it asks for more than
absence. -/
def Grounded : Predicate → Prop
  | .fields entries => ∃ branch ∈ branches (.fields entries), branch.predicate.asksAbsence = false
  | _ => True

/-- A branch of fields starts with a key of theirs, and its look-ups with the look-up of it. -/
theorem acceptsField_fields_of_branches {entries : List (String × Predicate)}
    (object : List (String × Json))
    (hchildren : ∀ entry ∈ entries, ∀ found : Option Json,
      (∀ branch ∈ branches entry.2,
        branch.predicate.acceptsField (found.bind (Json.at? branch.path)) = true) →
      entry.2.acceptsField found = true)
    (h : ∀ branch ∈ branches (.fields entries),
      branch.predicate.acceptsField (Json.at? branch.path (.object object)) = true) :
    Predicate.accepts (.fields entries) (.object object) = true := by
  rw [Predicate.accepts, Predicate.allAccept_iff]
  intro entry hentry
  apply hchildren entry hentry
  intro inner hinner
  exact h ⟨entry.1 :: inner.path, inner.predicate⟩
    (Predicate.mem_branches_fields.mpr ⟨entry, hentry, inner, hinner, rfl⟩)

/-- Where every field map leaves a trace, branches that are satisfied one by one make up the
predicate. A missing object contradicts the leaf that leaves the trace. -/
theorem acceptsField_of_branches {predicate : Predicate} (hpass : .pass ∉ predicate.nodes)
    (hgrounded : ∀ node ∈ predicate.nodes, Grounded node) {found : Option Json}
    (h : ∀ branch ∈ branches predicate,
      branch.predicate.acceptsField (found.bind (Json.at? branch.path)) = true) :
    predicate.acceptsField found = true := by
  induction predicate using Predicate.partsInduction generalizing found with
  | pass => exact absurd (Predicate.mem_nodes_self _) hpass
  | fields entries ih =>
      have hchildren (entry : String × Predicate) (hentry : entry ∈ entries)
          (found : Option Json) (hinner : ∀ branch ∈ branches entry.2,
            branch.predicate.acceptsField (found.bind (Json.at? branch.path)) = true) :
          entry.2.acceptsField found = true := by
        have hbelow (node : Predicate) (hnode : node ∈ entry.2.nodes) :
            node ∈ Predicate.nodes (.fields entries) :=
          Predicate.mem_nodes_fields.mpr (Or.inr ⟨entry, hentry, hnode⟩)
        exact ih entry hentry (fun hnode => hpass (hbelow _ hnode))
          (fun node hnode => hgrounded node (hbelow node hnode)) hinner
      by_cases hobject : ∃ object, found = some (.object object)
      · obtain ⟨object, rfl⟩ := hobject
        exact acceptsField_fields_of_branches object hchildren h
      · obtain ⟨branch, hbranch, htrace⟩ := hgrounded _ (Predicate.mem_nodes_self _)
        obtain ⟨entry, -, inner, -, rfl⟩ := Predicate.mem_branches_fields.mp hbranch
        have hmissing : found.bind (Json.at? (entry.1 :: inner.path)) = none := by
          cases found with
          | none => rfl
          | some value =>
              cases hat : Json.at? (entry.1 :: inner.path) value with
              | none => exact hat
              | some held =>
                  obtain ⟨object, rfl⟩ := Json.exists_object_of_at?_cons hat
                  exact absurd ⟨object, rfl⟩ hobject
        have habsent := h _ hbranch
        rw [hmissing, Predicate.acceptsField, htrace] at habsent
        cases habsent
  | _ =>
      rw [Predicate.branches_leaf rfl] at h
      have hself := h _ (List.mem_singleton_self _)
      cases found <;> exact hself

/-- On the fragment the rows are meant for they say exactly what direct matching says. Arrays
hold only scalars and do not stand at the path of a test of scalars, and every field map below
the root has a leaf that asks for more than absence. -/
theorem accepts_rows_eq_accepts (fields : List (String × Predicate))
    (entries : List (String × Json))
    (hpass : .pass ∉ Predicate.nodes (.fields fields))
    (hmembers : ∀ node ∈ Predicate.nodes (.fields fields), node.hasPlainMembers = true)
    (hgrounded : ∀ field ∈ fields, ∀ node ∈ field.2.nodes, Grounded node)
    (hcanonical : (Json.object entries).Canonical)
    (hitems : ∀ node ∈ (Json.object entries).nodes, node.hasScalarItems = true)
    (hplain : ∀ branch ∈ branches (.fields fields), branch.predicate.isScalarTest = true →
      ∀ items, Json.at? branch.path (.object entries) ≠ some (.array items))
    (hkeys : ∀ key ∈ Predicate.keys (.fields fields), SlashFree key)
    (hevent : ∀ key ∈ (Json.object entries).keys, SlashFree key) :
    accepts (branches (.fields fields)) (rows (.object entries)) =
      Predicate.accepts (.fields fields) (.object entries) := by
  have hroot : ∀ branch ∈ branches (.fields fields), branch.path ≠ [] := by
    intro branch hbranch
    obtain ⟨entry, -, inner, -, rfl⟩ := Predicate.mem_branches_fields.mp hbranch
    simp
  have hfree (branch : Branch) (hbranch : branch ∈ branches (.fields fields)) :
      ∀ key ∈ branch.path, SlashFree key := fun key hkey =>
    hkeys key ((Predicate.leaf_of_branch hbranch).2.2 hkey)
  rw [Bool.eq_iff_iff, accepts, List.all_eq_true]
  constructor
  · intro haccepts
    apply acceptsField_fields_of_branches
    · intro field hfield found
      have hbelow (node : Predicate) (hnode : node ∈ field.2.nodes) :
          node ∈ Predicate.nodes (.fields fields) :=
        Predicate.mem_nodes_fields.mpr (Or.inr ⟨field, hfield, hnode⟩)
      exact acceptsField_of_branches (fun hnode => hpass (hbelow _ hnode))
        (hgrounded field hfield)
    · intro branch hbranch
      exact acceptsField_of_accepts_rows (hroot branch hbranch) (hfree branch hbranch)
        (Predicate.leaf_of_branch hbranch).2.1 hcanonical hitems (hplain branch hbranch) hevent
        (haccepts branch hbranch)
  · intro haccepts branch hbranch
    obtain ⟨hnode, hleaf, -⟩ := Predicate.leaf_of_branch hbranch
    exact accepts_rows_of_settled (settledBy_of_accepts haccepts branch hbranch) hleaf
      (hmembers _ hnode) (fun _ _ => hroot branch hbranch) hcanonical (hfree branch hbranch)
      hevent

theorem array_item_agrees_in_rows :
    let fields : List (String × Predicate) :=
      [("a", .fields [("b", .literal .null), ("e", .present false)]),
        ("t", .anyOf [.startsWith "x"])]
    let entries : List (String × Json) :=
      [("a", .object [("b", .null), ("bc", .array [])]), ("t", .array [.null, .string "xy"])]
    accepts (branches (.fields fields)) (rows (.object entries)) =
      Predicate.accepts (.fields fields) (.object entries) := by
  intro fields entries
  have hgrounded : ∀ field ∈ fields, ∀ node ∈ field.2.nodes, Grounded node := by
    simp [fields, Predicate.nodes, Predicate.nodesOfEntries, Predicate.nodesOfMembers, Grounded,
      branches, branchesAt, branchesOfEntries, Predicate.asksAbsence]
  have hplain : ∀ branch ∈ branches (.fields fields), branch.predicate.isScalarTest = true →
      ∀ items, Json.at? branch.path (.object entries) ≠ some (.array items) := by
    simp [fields, entries, branches, branchesAt, branchesOfEntries, Predicate.isScalarTest,
      Json.at?, Json.get?, Json.lookup]
  exact accepts_rows_eq_accepts fields entries
    (by simp [fields, Predicate.nodes, Predicate.nodesOfEntries, Predicate.nodesOfMembers])
    (by decide) hgrounded (by decide) (by decide) hplain (by decide) (by decide)

end EventBus.Index
