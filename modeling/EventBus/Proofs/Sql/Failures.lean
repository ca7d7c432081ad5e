import EventBus.Proofs.Pattern.PredicateTree
import EventBus.Proofs.Sql.Branches

/-!
Which predicates have no query. A row holds a single value, so a constraint on the fields of an
object cannot stand inside a disjunction. Nothing else fails: a disjunction of values is never
looked into, but its members are literals, and presence and absence have no leaf.
-/

namespace EventBus.Predicate

/-- A disjunction with a constraint on fields among its members, or among the members of a
disjunction in it, at any depth. -/
inductive NestsFields : Predicate → Prop where
  | here {members : List Predicate} {entries : List (String × Predicate)}
      (hmember : .fields entries ∈ members) : NestsFields (.anyOf members)
  | deeper {members inner : List Predicate} (hmember : .anyOf inner ∈ members)
      (hinner : NestsFields (.anyOf inner)) : NestsFields (.anyOf members)

theorem nestsFields_anyOf_iff {members : List Predicate} :
    NestsFields (.anyOf members) ↔
      ∃ member ∈ members, (∃ entries, member = .fields entries) ∨ member.NestsFields := by
  constructor
  · intro h
    cases h with
    | here hmember => exact ⟨_, hmember, Or.inl ⟨_, rfl⟩⟩
    | deeper hmember hinner => exact ⟨_, hmember, Or.inr hinner⟩
  · rintro ⟨member, hmember, ⟨entries, rfl⟩ | hinner⟩
    · exact .here hmember
    · cases member with
      | anyOf inner => exact .deeper hmember hinner
      | _ => cases hinner

theorem not_nestsFields {predicate : Predicate} (h : ∀ members, predicate ≠ .anyOf members) :
    ¬ predicate.NestsFields := by
  intro hnests
  cases hnests <;> exact h _ rfl

end EventBus.Predicate

namespace EventBus.Sql

open Predicate (NestsFields nestsFields_anyOf_iff not_nestsFields)

namespace Condition

theorem mapM_eq_none_iff {α β : Type} {f : α → Option β} {as : List α} :
    as.mapM f = none ↔ ∃ a ∈ as, f a = none := by
  induction as with
  | nil => simp
  | cons a as ih =>
      rw [List.mapM_cons]
      cases hfirst : f a with
      | none => simp [hfirst]
      | some b =>
          rw [List.exists_mem_cons_iff, hfirst]
          cases hlater : as.mapM f <;> simp [hlater] at ih ⊢ <;> exact ih

/-- Members that are all values have conditions of their own as well, if nothing asks for them. -/
theorem ofLeaves?_ne_none_of_listedAll? {members : List Predicate} {values : List Json}
    (h : listedAll? members = some values) : ofLeaves? members ≠ none := by
  rw [ofLeaves?_eq_mapM, Ne, mapM_eq_none_iff]
  rintro ⟨member, hmember, hnone⟩
  obtain ⟨value, -, hvalue⟩ := exists_of_forall₂ (forall₂_of_listedAll? h).flip hmember
  cases member with
  | literal held => cases held <;> cases hnone
  | _ => cases hvalue

theorem ofLeaf?_anyOf_eq_none_iff {members : List Predicate} :
    ofLeaf? (.anyOf members) = none ↔ ∃ member ∈ members, ofLeaf? member = none := by
  rw [← mapM_eq_none_iff, ← ofLeaves?_eq_mapM]
  cases members with
  | nil => simp [ofLeaf?, ofLeaves?]
  | cons member members =>
      rw [ofLeaf?]
      -- a list of values does not look into its members, so these must have conditions anyway
      cases hlisted : listedAll? (member :: members) with
      | none => simp
      | some values => simpa using ofLeaves?_ne_none_of_listedAll? hlisted

/-- A leaf lacks a condition for the fields in it and for nothing else. -/
theorem ofLeaf?_eq_none_iff {leaf : Predicate} :
    ofLeaf? leaf = none ↔ (∃ entries, leaf = .fields entries) ∨ leaf.NestsFields := by
  induction leaf using Predicate.partsInduction with
  | fields entries => simp [ofLeaf?]
  | anyOf members ih =>
      have hnone : ofLeaf? (.anyOf members) = none ↔ NestsFields (.anyOf members) := by
        rw [ofLeaf?_anyOf_eq_none_iff, nestsFields_anyOf_iff]
        exact exists_congr fun member => and_congr_right fun hmember => ih member hmember
      simpa using hnone
  | literal value => cases value <;> simp [ofLeaf?, not_nestsFields]
  | present want => cases want <;> simp [ofLeaf?, not_nestsFields]
  | numeric comparisons => cases comparisons <;> simp [ofLeaf?, not_nestsFields]
  | _ => simp [ofLeaf?, not_nestsFields]

end Condition

namespace Select

/-- A branch fails when its predicate nests fields; a branch is never one of fields itself. -/
theorem ofBranches_cons {branch : Index.Branch} (hleaf : branch.predicate.isLeaf = true)
    (branches : List Index.Branch) :
    (branch.predicate.NestsFields →
      ofBranches (branch :: branches) = .error (.nestedFieldMap branch.pathText)) ∧
    (¬ branch.predicate.NestsFields → ∀ error,
      ofBranches (branch :: branches) = .error error ↔ ofBranches branches = .error error) := by
  by_cases hpresent : ∃ want, branch.predicate = .present want
  · obtain ⟨path, predicate⟩ := branch
    obtain ⟨want, rfl⟩ := hpresent
    refine ⟨fun hnests => absurd hnests (not_nestsFields (by simp)), fun _ error => ?_⟩
    rw [ofBranches_cons_present]
    cases ofBranches branches <;> simp [Except.map]
  · rw [ofBranches_cons_leaf (not_exists.mp hpresent)]
    have hnone : Condition.ofLeaf? branch.predicate = none ↔ branch.predicate.NestsFields := by
      rw [Condition.ofLeaf?_eq_none_iff, or_iff_right]
      rintro ⟨entries, hentries⟩
      simp [hentries, Predicate.isLeaf] at hleaf
    constructor
    · intro hnests
      rw [hnone.mpr hnests]
    · intro hplain error
      obtain ⟨condition, hcondition⟩ := Option.ne_none_iff_exists'.mp (mt hnone.mp hplain)
      rw [hcondition]
      cases ofBranches branches <;> simp [Except.map]

theorem exists_ofBranches_eq_error_iff {branches : List Index.Branch}
    (hleaves : ∀ branch ∈ branches, branch.predicate.isLeaf = true) :
    (∃ error, ofBranches branches = .error error) ↔
      ∃ branch ∈ branches, branch.predicate.NestsFields := by
  induction branches with
  | nil => simp [ofBranches]
  | cons first branches ih =>
      obtain ⟨hfails, hpasses⟩ := ofBranches_cons (hleaves first List.mem_cons_self) branches
      have hlater := ih fun branch hbranch => hleaves branch (List.mem_cons_of_mem _ hbranch)
      by_cases hnests : first.predicate.NestsFields
      · exact iff_of_true ⟨_, hfails hnests⟩ ⟨first, List.mem_cons_self, hnests⟩
      · simp only [hpasses hnests, hlater, List.exists_mem_cons_iff, hnests, false_or]

/-- A query fails at the first of its branches that nests fields. -/
theorem ofBranches_eq_error_iff {branches : List Index.Branch}
    (hleaves : ∀ branch ∈ branches, branch.predicate.isLeaf = true) {error : QueryError} :
    ofBranches branches = .error error ↔
      ∃ before branch after, branches = before ++ branch :: after ∧
        (∀ earlier ∈ before, ¬ earlier.predicate.NestsFields) ∧
        branch.predicate.NestsFields ∧ error = .nestedFieldMap branch.pathText := by
  induction branches with
  | nil => simp [ofBranches]
  | cons first branches ih =>
      obtain ⟨hfails, hpasses⟩ := ofBranches_cons (hleaves first List.mem_cons_self) branches
      have hlater := ih fun branch hbranch => hleaves branch (List.mem_cons_of_mem _ hbranch)
      by_cases hnests : first.predicate.NestsFields
      · rw [hfails hnests]
        constructor
        · intro h
          cases h
          exact ⟨[], first, branches, rfl, by simp, hnests, rfl⟩
        · rintro ⟨before, branch, after, hsplit, hbefore, -, rfl⟩
          cases before with
          | nil =>
              cases hsplit
              rfl
          | cons earlier before =>
              cases hsplit
              exact absurd hnests (hbefore _ List.mem_cons_self)
      · rw [hpasses hnests error, hlater]
        constructor
        · rintro ⟨before, branch, after, rfl, hbefore, hbranch, rfl⟩
          refine ⟨first :: before, branch, after, rfl, ?_, hbranch, rfl⟩
          exact List.forall_mem_cons.mpr ⟨hnests, hbefore⟩
        · rintro ⟨before, branch, after, hsplit, hbefore, hbranch, rfl⟩
          cases before with
          | nil =>
              cases hsplit
              exact absurd hbranch hnests
          | cons earlier before =>
              cases hsplit
              refine ⟨before, branch, after, rfl, ?_, hbranch, rfl⟩
              exact (List.forall_mem_cons.mp hbefore).2

end Select

theorem compilePredicate_eq_error_iff {tables : Tables} {since : Instant} {predicate : Predicate}
    {error : QueryError} :
    compilePredicate tables since predicate = .error error ↔
      Select.ofBranches (Index.branches predicate) = .error error := by
  unfold compilePredicate Select.ofPredicate
  cases Select.ofBranches (Index.branches predicate) <;> simp [Except.map]

theorem compilePredicate_ne_pattern (tables : Tables) (since : Instant) (predicate : Predicate)
    (error : PatternError) : compilePredicate tables since predicate ≠ .error (.pattern error) := by
  rw [Ne, compilePredicate_eq_error_iff, Select.ofBranches_eq_error_iff fun branch hbranch =>
    (Predicate.leaf_of_branch hbranch).2.1]
  rintro ⟨before, branch, after, -, -, -, herror⟩
  cases herror

/-- A predicate has no query exactly when one of its branches is a disjunction that nests fields,
and the error then tells the path of the first branch of that kind. A document has no query for a
reason of its own exactly when it is no pattern, with the reason it is none, and otherwise has the
query of the predicate it stands for, or the error of that. -/
theorem compile_fails_exactly_at_nested_fields (tables : Tables) (since : Instant) :
    (∀ predicate,
      ((∃ error, compilePredicate tables since predicate = .error error) ↔
        ∃ branch ∈ Index.branches predicate, branch.predicate.NestsFields) ∧
      ∀ error, compilePredicate tables since predicate = .error error ↔
        ∃ before branch after, Index.branches predicate = before ++ branch :: after ∧
          (∀ earlier ∈ before, ¬ earlier.predicate.NestsFields) ∧
          branch.predicate.NestsFields ∧ error = .nestedFieldMap branch.pathText) ∧
    ∀ document,
      (∀ error, compileDocument tables since document = .error (.pattern error) ↔
        Pattern.compile document = .error error) ∧
      ∀ predicate, Pattern.compile document = .ok predicate →
        compileDocument tables since document = compilePredicate tables since predicate := by
  constructor
  · intro predicate
    have hleaves : ∀ branch ∈ Index.branches predicate, branch.predicate.isLeaf = true :=
      fun branch hbranch => (Predicate.leaf_of_branch hbranch).2.1
    simp only [compilePredicate_eq_error_iff]
    exact ⟨Select.exists_ofBranches_eq_error_iff hleaves,
      fun error => Select.ofBranches_eq_error_iff hleaves⟩
  · intro document
    unfold compileDocument
    constructor
    · intro error
      cases Pattern.compile document with
      | error reason => simp
      | ok predicate => simpa using compilePredicate_ne_pattern tables since predicate error
    · intro predicate hcompile
      rw [hcompile]

section Sample

def sampleNested : Predicate := .anyOf [.literal .null, .fields [("d", .literal (.bool true))]]

def sampleFailing : Predicate := .fields [
  ("a", .anyOf [.literal (.number (.int 1)), .literal (.number (.int 2))]),
  ("b", .fields [("c", sampleNested)]), ("e", .anyOf [.fields []])]

/-- Two branches of the document nest fields, and the first of them is named; the branch before
it is a plain list of values. In the second predicate the fields stand one disjunction deeper. -/
theorem first_nested_fields_named :
    let document := Json.object [("a", .array [.number (.int 1), .number (.int 2)]),
      ("b", .object [("c", .array [.null, .object [("d", .bool true)]])]),
      ("e", .array [.object []])]
    let deep := Predicate.fields [("f", .anyOf [.present true, .anyOf [.fields []]])]
    let tables : Tables := ⟨"events", "fields"⟩
    compileDocument tables ⟨0, 0⟩ document = .error (.nestedFieldMap "b/c") ∧
      compilePredicate tables ⟨0, 0⟩ deep = .error (.nestedFieldMap "f") := by
  intro document deep tables
  obtain ⟨hpredicates, hdocuments⟩ := compile_fails_exactly_at_nested_fields tables ⟨0, 0⟩
  have hcompile : Pattern.compile document = .ok sampleFailing := by rfl
  constructor
  · rw [(hdocuments document).2 sampleFailing hcompile, (hpredicates sampleFailing).2]
    refine ⟨[⟨["a"], _⟩], ⟨["b", "c"], sampleNested⟩, [⟨["e"], _⟩], rfl, ?_, ?_, rfl⟩
    · simp [nestsFields_anyOf_iff, not_nestsFields]
    · exact .here (List.mem_cons_of_mem _ List.mem_cons_self)
  · rw [(hpredicates deep).2]
    refine ⟨[], ⟨["f"], .anyOf [.present true, .anyOf [.fields []]]⟩, [], rfl, by simp, ?_, rfl⟩
    exact .deeper (List.mem_cons_of_mem _ List.mem_cons_self) (.here List.mem_cons_self)

end Sample

end EventBus.Sql
