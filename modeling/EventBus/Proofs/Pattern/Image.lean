import EventBus.Proofs.Pattern.CompiledParts

/-!
The predicates that documents stand for. A document leaves its mark on what it compiles to: it can
name no predicate without a demand, no disjunction inside a disjunction, no fields under a special
key, and no threshold that is not finite. These are the only limits, since every other predicate
can be written as a document that compiles back to it. Fields are kept by key, so lists of fields
count here only with keys that ascend, and values only with finite numbers, as texts have them.
-/

namespace EventBus.Json

/-- The keys of each object ascend and all numbers are finite, as in every value read from text. -/
structure Proper (value : Json) : Prop where
  canonical : value.Canonical
  finite : ∀ n, .number n ∈ value.nodes → n.toBinary64.isFinite = true

theorem nodes_of_isScalar {value : Json} (h : value.isScalar = true) : value.nodes = [value] := by
  cases value <;> simp [isScalar] at h <;> rfl

theorem proper_of_isScalar {value : Json} (h : value.isScalar = true)
    (hfinite : ∀ n, value = .number n → n.toBinary64.isFinite = true) : value.Proper where
  canonical := by
    cases value <;> simp [isScalar] at h <;> trivial
  finite n hn := by
    rw [nodes_of_isScalar h, List.mem_singleton] at hn
    exact hfinite n hn.symm

theorem proper_array_iff {items : List Json} :
    Proper (.array items) ↔ ∀ item ∈ items, item.Proper := by
  constructor
  · intro h item hitem
    refine ⟨canonicalItems_iff.mp h.canonical item hitem, fun n hn => h.finite n ?_⟩
    exact mem_nodes_array.mpr (Or.inr ⟨item, hitem, hn⟩)
  · intro h
    refine ⟨canonicalItems_iff.mpr fun item hitem => (h item hitem).canonical, fun n hn => ?_⟩
    rcases mem_nodes_array.mp hn with hself | ⟨item, hitem, hinner⟩
    · cases hself
    · exact (h item hitem).finite n hinner

theorem proper_object_iff {entries : List (String × Json)} :
    Proper (.object entries) ↔ Ascending entries ∧ ∀ entry ∈ entries, entry.2.Proper := by
  constructor
  · intro h
    obtain ⟨hascending, hentries⟩ := h.canonical
    refine ⟨hascending, fun entry hentry => ?_⟩
    refine ⟨canonicalEntries_iff.mp hentries entry hentry, fun n hn => h.finite n ?_⟩
    exact mem_nodes_object.mpr (Or.inr ⟨entry, hentry, hn⟩)
  · rintro ⟨hascending, h⟩
    have hentries := canonicalEntries_iff.mpr fun entry hentry => (h entry hentry).canonical
    refine ⟨⟨hascending, hentries⟩, fun n hn => ?_⟩
    rcases mem_nodes_object.mp hn with hself | ⟨entry, hentry, hinner⟩
    · cases hself
    · exact (h entry hentry).finite n hinner

theorem Proper.of_mem_nodes {whole part : Json} (h : whole.Proper) (hpart : part ∈ whole.nodes) :
    part.Proper := by
  induction whole using partsInduction with
  | scalar value hscalar =>
      rw [nodes_of_isScalar hscalar, List.mem_singleton] at hpart
      exact hpart ▸ h
  | array items ih =>
      rcases mem_nodes_array.mp hpart with rfl | ⟨item, hitem, hinner⟩
      · exact h
      · exact ih item hitem (proper_array_iff.mp h item hitem) hinner
  | object entries ih =>
      rcases mem_nodes_object.mp hpart with rfl | ⟨entry, hentry, hinner⟩
      · exact h
      · exact ih entry hentry ((proper_object_iff.mp h).2 entry hentry) hinner

end EventBus.Json

namespace EventBus

/-- The keys under which a document holds a constraint on a single value. -/
def Pattern.specialKeys : List String := ["prefix", "exists", "numeric"]

namespace Predicate

/-- No part is without a demand, literals hold scalars, thresholds are finite, no disjunction is a
member of a disjunction, and no field has a special key. -/
structure Writable (predicate : Predicate) : Prop where
  demanding : .pass ∉ predicate.nodes
  scalar : ∀ value, .literal value ∈ predicate.nodes → value.isScalar = true
  finite : ∀ all, .numeric all ∈ predicate.nodes → ∀ c ∈ all, c.threshold.isFinite = true
  flat : ∀ members, .anyOf members ∈ predicate.nodes → ∀ inner, .anyOf inner ∉ members
  plain : ∀ entries, .fields entries ∈ predicate.nodes →
    ∀ entry ∈ entries, entry.1 ∉ Pattern.specialKeys

/-- Fields are listed in the order of their keys, each once, and literals are values a text can
hold. -/
structure Proper (predicate : Predicate) : Prop where
  ascending : ∀ entries, .fields entries ∈ predicate.nodes →
    entries.Pairwise fun a b => a.1 < b.1
  literals : ∀ value, .literal value ∈ predicate.nodes → value.Proper

theorem Writable.of_mem_nodes {whole part : Predicate} (h : whole.Writable)
    (hpart : part ∈ whole.nodes) : part.Writable where
  demanding hnode := h.demanding (mem_nodes_trans hpart hnode)
  scalar value hnode := h.scalar value (mem_nodes_trans hpart hnode)
  finite all hnode := h.finite all (mem_nodes_trans hpart hnode)
  flat members hnode := h.flat members (mem_nodes_trans hpart hnode)
  plain entries hnode := h.plain entries (mem_nodes_trans hpart hnode)

theorem Proper.of_mem_nodes {whole part : Predicate} (h : whole.Proper)
    (hpart : part ∈ whole.nodes) : part.Proper where
  ascending entries hnode := h.ascending entries (mem_nodes_trans hpart hnode)
  literals value hnode := h.literals value (mem_nodes_trans hpart hnode)

theorem mem_nodes_of_member {members : List Predicate} {member : Predicate}
    (h : member ∈ members) : member ∈ nodes (.anyOf members) :=
  mem_nodes_anyOf.mpr (Or.inr ⟨member, h, mem_nodes_self member⟩)

theorem mem_nodes_of_field {entries : List (String × Predicate)} {entry : String × Predicate}
    (h : entry ∈ entries) : entry.2 ∈ nodes (.fields entries) :=
  mem_nodes_fields.mpr (Or.inr ⟨entry, h, mem_nodes_self entry.2⟩)

/-- A comparison as it stands in a document, the sign before the threshold. -/
def comparisonSides (comparison : Comparison) : List Json :=
  [.string comparison.relation.sign, .number (.float comparison.threshold)]

mutual

/-- The predicate as a document. No document asks for nothing, so null stands in for the one
predicate that does. -/
def document : Predicate → Json
  | .pass => .null
  | .literal value => value
  | .startsWith start => .object [("prefix", .string start)]
  | .present want => .object [("exists", .bool want)]
  | .numeric comparisons => .object [("numeric", .array (comparisons.flatMap comparisonSides))]
  | .anyOf members => .array (documents members)
  | .fields entries => .object (fieldDocuments entries)

def documents : List Predicate → List Json
  | [] => []
  | member :: members => member.document :: documents members

def fieldDocuments : List (String × Predicate) → List (String × Json)
  | [] => []
  | (key, child) :: entries => (key, child.document) :: fieldDocuments entries

end

theorem documents_eq_map (members : List Predicate) : documents members = members.map document := by
  induction members with
  | nil => rfl
  | cons member members ih => rw [documents, ih, List.map_cons]

theorem fieldDocuments_eq_map (entries : List (String × Predicate)) :
    fieldDocuments entries = entries.map fun entry => (entry.1, entry.2.document) := by
  induction entries with
  | nil => rfl
  | cons entry entries ih =>
      obtain ⟨key, child⟩ := entry
      rw [fieldDocuments, ih, List.map_cons]

end Predicate

namespace Pattern

section Writing

theorem ofSign?_sign (relation : Relation) : Relation.ofSign? relation.sign = some relation := by
  cases relation <;> rfl

theorem comparisons_flatMap_comparisonSides (all : List Comparison) :
    comparisons (all.flatMap Predicate.comparisonSides) = .ok all := by
  induction all with
  | nil => rfl
  | cons first all ih =>
      have hfirst : comparison (.string first.relation.sign) (.number (.float first.threshold)) =
          .ok first := by
        simp only [comparison, ofSign?_sign]
        rfl
      rw [List.flatMap_cons, Predicate.comparisonSides, List.cons_append, List.cons_append,
        List.nil_append, comparisons, hfirst, ih]
      rfl

theorem length_comparisonSides (all : List Comparison) :
    (all.flatMap Predicate.comparisonSides).length = 2 * all.length := by
  induction all with
  | nil => rfl
  | cons first all ih =>
      rw [List.flatMap_cons, List.length_append, ih, Predicate.comparisonSides]
      simp only [List.length_cons, List.length_nil]
      omega

theorem numeric_comparisonSides (all : List Comparison) :
    numeric (.array (all.flatMap Predicate.comparisonSides)) = .ok (.numeric all) := by
  have heven : ¬ (all.flatMap Predicate.comparisonSides).length % 2 = 1 := by
    rw [length_comparisonSides]
    omega
  rw [numeric, if_neg heven, comparisons_flatMap_comparisonSides]
  rfl

theorem mapM_map_eq_ok {ε α β : Type} {f : β → Except ε α} {g : α → β} {as : List α}
    (h : ∀ a ∈ as, f (g a) = .ok a) : (as.map g).mapM f = .ok as := by
  induction as with
  | nil => rfl
  | cons a as ih =>
      obtain ⟨hfirst, hlater⟩ := List.forall_mem_cons.mp h
      rw [List.map_cons, List.mapM_cons, hfirst, ih hlater]
      rfl

theorem ofEntries_eq_fields_iff {entries : List (String × Json)} :
    Form.ofEntries entries = .fields ↔ ∀ entry ∈ entries, entry.1 ∉ specialKeys := by
  have hlookups : Form.ofEntries entries = .fields ↔
      Json.lookup "prefix" entries = none ∧ Json.lookup "exists" entries = none ∧
        Json.lookup "numeric" entries = none := by
    unfold Form.ofEntries
    cases Json.lookup "prefix" entries <;> cases Json.lookup "exists" entries <;>
      cases Json.lookup "numeric" entries <;> simp
  simp only [hlookups, Json.lookup_eq_none_iff, specialKeys, List.mem_cons, List.not_mem_nil,
    or_false, not_or, forall_and]

theorem compileMember_eq_compile {item : Json} (h : ∀ inner, item ≠ .array inner) :
    compileMember item = compile item := by
  cases item with
  | array inner => exact absurd rfl (h inner)
  | _ => rfl

/-- Only disjunctions are written as arrays. -/
theorem document_ne_array {predicate : Predicate} (h : predicate.Writable)
    (hanyOf : ∀ members, predicate ≠ .anyOf members) (items : List Json) :
    predicate.document ≠ .array items := by
  cases predicate with
  | anyOf members => exact absurd rfl (hanyOf members)
  | literal value =>
      have hscalar := h.scalar value (Predicate.mem_nodes_self _)
      rintro rfl
      cases hscalar
  | _ => simp [Predicate.document]

theorem compile_document {predicate : Predicate} (h : predicate.Writable) :
    compile predicate.document = .ok predicate := by
  induction predicate using Predicate.partsInduction with
  | pass => exact absurd (Predicate.mem_nodes_self _) h.demanding
  | literal value =>
      have hscalar := h.scalar value (Predicate.mem_nodes_self _)
      cases value with
      | array items => cases hscalar
      | object entries => cases hscalar
      | _ => rfl
  | startsWith start => rfl
  | present want => rfl
  | numeric comparisons => exact numeric_comparisonSides comparisons
  | anyOf members ih =>
      have hmember : ∀ member ∈ members, compileMember member.document = .ok member := by
        intro member hmem
        have hpart := h.of_mem_nodes (Predicate.mem_nodes_of_member hmem)
        have hplain : ∀ inner, member ≠ .anyOf inner := by
          rintro inner rfl
          exact h.flat members (Predicate.mem_nodes_self _) inner hmem
        rw [compileMember_eq_compile (document_ne_array hpart hplain)]
        exact ih member hmem hpart
      rw [Predicate.document, compile, compileMembers_eq_mapM, Predicate.documents_eq_map,
        mapM_map_eq_ok hmember]
      rfl
  | fields entries ih =>
      have hform : Form.ofEntries (Predicate.fieldDocuments entries) = .fields := by
        rw [ofEntries_eq_fields_iff, Predicate.fieldDocuments_eq_map, List.forall_mem_map]
        exact h.plain entries (Predicate.mem_nodes_self _)
      have hentry : ∀ entry ∈ entries,
          (compile entry.2.document).map (fun child => (entry.1, child)) = .ok entry := by
        intro entry hmem
        rw [ih entry hmem (h.of_mem_nodes (Predicate.mem_nodes_of_field hmem))]
        rfl
      rw [Predicate.document, compile_object, hform, compileFields_eq_mapM,
        Predicate.fieldDocuments_eq_map]
      simp only
      rw [mapM_map_eq_ok hentry]
      rfl

/-- What is written holds no more than the predicate does: keys in their order, and numbers of its
literals and thresholds. -/
theorem proper_document {predicate : Predicate} (h : predicate.Writable)
    (hproper : predicate.Proper) : predicate.document.Proper := by
  have hstring (text : String) : (Json.string text).Proper := Json.proper_of_isScalar rfl nofun
  have hsingle {key : String} {value : Json} (hvalue : value.Proper) :
      (Json.object [(key, value)]).Proper := by
    rw [Json.proper_object_iff, List.forall_mem_singleton]
    exact ⟨List.pairwise_singleton _ _, hvalue⟩
  induction predicate using Predicate.partsInduction with
  | pass => exact absurd (Predicate.mem_nodes_self _) h.demanding
  | literal value => exact hproper.literals value (Predicate.mem_nodes_self _)
  | startsWith start => exact hsingle (hstring start)
  | present want => exact hsingle (Json.proper_of_isScalar rfl nofun)
  | numeric comparisons =>
      apply hsingle
      rw [Json.proper_array_iff, List.forall_mem_flatMap]
      intro c hc
      have hthreshold := h.finite comparisons (Predicate.mem_nodes_self _) c hc
      have hnumber : (Json.number (.float c.threshold)).Proper := by
        apply Json.proper_of_isScalar rfl
        rintro n ⟨⟩
        exact hthreshold
      rw [Predicate.comparisonSides, List.forall_mem_cons, List.forall_mem_singleton]
      exact ⟨hstring _, hnumber⟩
  | anyOf members ih =>
      rw [Predicate.document, Json.proper_array_iff, Predicate.documents_eq_map,
        List.forall_mem_map]
      intro member hmem
      have hpart := Predicate.mem_nodes_of_member hmem
      exact ih member hmem (h.of_mem_nodes hpart) (hproper.of_mem_nodes hpart)
  | fields entries ih =>
      rw [Predicate.document, Json.proper_object_iff, Predicate.fieldDocuments_eq_map,
        List.forall_mem_map]
      constructor
      · exact List.pairwise_map.mpr (hproper.ascending entries (Predicate.mem_nodes_self _))
      · intro entry hmem
        have hpart := Predicate.mem_nodes_of_field hmem
        exact ih entry hmem (h.of_mem_nodes hpart) (hproper.of_mem_nodes hpart)

end Writing

section Reading

variable {document : Json} {predicate : Predicate}

theorem compileFields_keys {entries : List (String × Json)} {fields : List (String × Predicate)}
    (h : compileFields entries = .ok fields) : fields.map Prod.fst = entries.map Prod.fst := by
  induction entries generalizing fields with
  | nil =>
      cases h
      rfl
  | cons entry entries ih =>
      obtain ⟨key, value⟩ := entry
      obtain ⟨first, hfirst, h⟩ := bind_eq_ok_iff.mp h
      obtain ⟨others, hothers, h⟩ := bind_eq_ok_iff.mp h
      cases h
      rw [List.map_cons, List.map_cons, ih hothers]

/-- What a document compiles to, by what it is. -/
theorem cases_of_compile (h : compile document = .ok predicate) :
    (document.isScalar = true ∧ predicate = .literal document) ∨
      (∃ members, predicate = .anyOf members) ∨
      (∃ start, predicate = .startsWith start) ∨ (∃ want, predicate = .present want) ∨
      (∃ all, predicate = .numeric all) ∨
      ∃ entries fields, document = .object entries ∧ Form.ofEntries entries = .fields ∧
        compileFields entries = .ok fields ∧ predicate = .fields fields := by
  cases document with
  | array items =>
      obtain ⟨members, -, rfl⟩ := map_eq_ok_iff.mp h
      simp
  | object entries =>
      rw [compile_object] at h
      cases hform : Form.ofEntries entries with
      | start value =>
          rw [hform] at h
          cases value <;> cases h
          simp
      | present value =>
          rw [hform] at h
          cases value <;> cases h
          simp
      | numeric value =>
          rw [hform] at h
          obtain ⟨items, all, -, -, rfl⟩ := numeric_eq_ok h
          simp
      | fields =>
          rw [hform] at h
          obtain ⟨fields, hfields, rfl⟩ := map_eq_ok_iff.mp h
          simp [hform, hfields]
  | _ =>
      cases h
      simp [Json.isScalar]

/-- Fields come from an object without special keys, under its own keys. -/
theorem entries_of_compile {fields : List (String × Predicate)}
    (h : compile document = .ok (.fields fields)) :
    ∃ entries, document = .object entries ∧ fields.map Prod.fst = entries.map Prod.fst ∧
      ∀ entry ∈ entries, entry.1 ∉ specialKeys := by
  rcases cases_of_compile h with ⟨-, hof⟩ | ⟨_, hof⟩ | ⟨_, hof⟩ | ⟨_, hof⟩ | ⟨_, hof⟩ |
    ⟨entries, found, rfl, hform, hfound, hof⟩
  all_goals cases hof
  exact ⟨entries, rfl, compileFields_keys hfound, ofEntries_eq_fields_iff.mp hform⟩

theorem literal_of_compile {value : Json} (h : compile document = .ok (.literal value)) :
    document = value ∧ value.isScalar = true := by
  rcases cases_of_compile h with ⟨hscalar, hof⟩ | ⟨_, hof⟩ | ⟨_, hof⟩ | ⟨_, hof⟩ | ⟨_, hof⟩ |
    ⟨_, _, -, -, -, hof⟩
  all_goals cases hof
  exact ⟨rfl, hscalar⟩

theorem writable_of_compile (hproper : document.Proper)
    (h : compile document = .ok predicate) : predicate.Writable where
  demanding := pass_not_mem_nodes_of_compile h
  scalar value hnode := by
    obtain ⟨part, -, hpart⟩ := exists_part_of_node h hnode
    exact (literal_of_compile hpart).2
  finite all hnode c hc := by
    obtain ⟨n, hn, hthreshold⟩ := number_of_threshold h hnode hc
    rw [hthreshold]
    exact hproper.finite n hn
  flat members hnode inner hinner := member_ne_anyOf h hnode hinner inner rfl
  plain fields hnode entry hentry := by
    obtain ⟨part, -, hpart⟩ := exists_part_of_node h hnode
    obtain ⟨entries, -, hkeys, hplain⟩ := entries_of_compile hpart
    have hkey : entry.1 ∈ entries.map Prod.fst := hkeys ▸ List.mem_map_of_mem hentry
    obtain ⟨source, hsource, hsame⟩ := List.mem_map.mp hkey
    exact hsame ▸ hplain source hsource

theorem proper_of_compile (hproper : document.Proper)
    (h : compile document = .ok predicate) : predicate.Proper where
  ascending fields hnode := by
    obtain ⟨part, hmem, hpart⟩ := exists_part_of_node h hnode
    obtain ⟨entries, rfl, hkeys, -⟩ := entries_of_compile hpart
    have hascending := (Json.proper_object_iff.mp (hproper.of_mem_nodes hmem)).1
    have hsorted : (fields.map Prod.fst).Pairwise (· < ·) :=
      hkeys ▸ List.pairwise_map.mpr hascending
    exact List.pairwise_map.mp hsorted
  literals value hnode := by
    obtain ⟨part, hmem, hpart⟩ := exists_part_of_node h hnode
    obtain ⟨rfl, -⟩ := literal_of_compile hpart
    exact hproper.of_mem_nodes hmem

end Reading

/-- Documents compile to exactly the writable predicates. Whatever a document compiles to is
writable, and a writable predicate, written as a document, is compiled to itself. -/
theorem compile_image :
    (∀ document predicate, document.Proper → compile document = .ok predicate →
      predicate.Proper ∧ predicate.Writable) ∧
    (∀ predicate, predicate.Writable → compile predicate.document = .ok predicate ∧
      (predicate.Proper → predicate.document.Proper)) ∧
    ∀ predicate, predicate.Proper →
      (predicate.Writable ↔ ∃ document, document.Proper ∧ compile document = .ok predicate) := by
  refine ⟨fun document predicate hproper h =>
    ⟨proper_of_compile hproper h, writable_of_compile hproper h⟩,
    fun predicate h => ⟨compile_document h, proper_document h⟩, fun predicate hproper => ?_⟩
  constructor
  · exact fun h => ⟨predicate.document, proper_document h hproper, compile_document h⟩
  · rintro ⟨document, hdocument, h⟩
    exact writable_of_compile hdocument h

section Sample

def sampleDocument (bound : Number) : Json := .object [
  ("a", .array [.null, .object [("prefix", .string "x")],
    .object [("b", .array [.string "y"])]]),
  ("c", .object [("exists", .bool false)]),
  ("d", .object [("numeric", .array [.string ">=", .number bound])])]

def sampleWritten : Predicate := .fields [
  ("a", .anyOf [.literal .null, .startsWith "x", .fields [("b", .anyOf [.literal (.string "y")])]]),
  ("c", .present false), ("d", .numeric [⟨.atLeast, .ofInt 1⟩])]

/-- An array with fields in it that hold an array, under a key beside special forms. The bound is
written as the binary number it became, and the document that differs in this compiles to the same
predicate. -/
theorem sample_compiles_when_written :
    (sampleDocument (.int 1)).Proper ∧
      compile (sampleDocument (.int 1)) = .ok sampleWritten ∧ sampleWritten.Writable ∧
      sampleWritten.document = sampleDocument (.float (.ofInt 1)) ∧
      compile (sampleDocument (.float (.ofInt 1))) = .ok sampleWritten := by
  obtain ⟨hread, hwritten, -⟩ := compile_image
  have hproper : (sampleDocument (.int 1)).Proper := by
    refine ⟨by decide, fun n hn => ?_⟩
    have hnumber : n = .int 1 := by
      simpa [sampleDocument, Json.nodes, Json.nodesOfEntries, Json.nodesOfItems] using hn
    rw [hnumber]
    decide
  have hcompile : compile (sampleDocument (.int 1)) = .ok sampleWritten := by rfl
  obtain ⟨-, hwritable⟩ := hread _ _ hproper hcompile
  exact ⟨hproper, hcompile, hwritable, rfl, (hwritten sampleWritten hwritable).1⟩

end Sample

end Pattern

end EventBus
