import EventBus.Proofs.Number.Comparison
import EventBus.Proofs.Pattern.CompiledParts
import EventBus.Proofs.Pattern.IndexAgreement
import EventBus.Proofs.Sql.Selection

/-!
What the condition of a leaf means for a value of the index. Where stored values compare the way
predicates compare them, the condition holds of every value that the leaf accepts. It holds of more
in two places: a numeric constraint without comparisons becomes a test for null, and a member of a
disjunction that asks for presence becomes a truth, also for an empty array, which has no element
that a member could accept. The condition of any other leaf holds of what the leaf accepts and of
nothing else.
-/

namespace EventBus.Sql

open Relational (Check Database Operand Oracle Reads Scope Truth)

/-- A stored value compares as predicates do: equality is that of literals, a number compares with
numbers only and as they do, text patterns match texts with the case of letters, and nothing but
null is null. -/
structure ComparesStored (value : Json) (truth : Check Json → Truth) : Prop where
  equal : ∀ right, right ≠ .null →
    (truth (.compare .equal right) = some true ↔ Predicate.literalEqual right value = true)
  number : ∀ relation x, truth (.compare relation (.number (.float x))) = some true ↔
    ∃ n, value = .number n ∧ relation.holds n.toBinary64 x = true
  like : ∀ pattern, truth (.like (.string pattern) '\\') = some true ↔
    ∃ text, value = .string text ∧ Like.matches? '\\' pattern text = some true
  isNull : truth .isNull = some true ↔ value = .null
  isNotNull : truth .isNotNull = some true ↔ value ≠ .null

/-- The truths of a store in which values compare as predicates compare them. -/
def storedTruth (value : Json) : Check Json → Truth
  | .compare .equal right => some (Predicate.literalEqual right value)
  | .compare relation (.number x) =>
      match value with
      | .number n => some (relation.holds n.toBinary64 x.toBinary64)
      | _ => some false
  | .compare _ _ => none
  | .isNull => some (value == .null)
  | .isNotNull => some (value != .null)
  | .like (.string pattern) mark =>
      match value with
      | .string text => Like.matches? mark pattern text
      | _ => some false
  | .like _ _ => none

theorem comparesStored_storedTruth (value : Json) : ComparesStored value (storedTruth value) where
  equal right _ := by simp [storedTruth]
  number relation x := by
    cases value with
    | number n =>
        cases relation with
        | equal =>
            have hequal : Number.equal (.float x) n = x.equal n.toBinary64 := by cases n <;> rfl
            simp [storedTruth, Predicate.literalEqual, hequal, Relation.holds, Binary64.equal_comm]
        | _ => simp [storedTruth, Number.toBinary64]
    | _ => cases relation <;> simp [storedTruth, Predicate.literalEqual]
  like pattern := by cases value <;> simp [storedTruth]
  isNull := by simp [storedTruth]
  isNotNull := by simp [storedTruth]

/-- What the condition of a leaf lets through although the leaf need not accept it. -/
inductive LetsThrough : Predicate → Json → Prop where
  | unbounded {value : Json} (hnull : value ≠ .null) (hnumber : ∀ n, value ≠ .number n) :
      LetsThrough (.numeric []) value
  | unboundedMember {members : List Predicate} {value : Json} (hmember : .numeric [] ∈ members)
      (hnull : value ≠ .null) (hnumber : ∀ n, value ≠ .number n) :
      LetsThrough (.anyOf members) value
  | presentMember {members : List Predicate} (hmember : .present true ∈ members) :
      LetsThrough (.anyOf members) (.array [])

section Leaves

variable {value : Json} {truth : Check Json → Truth}

theorem leafHolds_literal_iff (hstored : ComparesStored value truth) (expected : Json) :
    LeafHolds truth (.literal expected) ↔ Predicate.accepts (.literal expected) value = true := by
  rw [LeafHolds, Predicate.accepts]
  cases expected with
  | null =>
      rw [literalCheck, hstored.isNull]
      cases value <;> simp [Predicate.literalEqual]
  | _ => exact hstored.equal _ (by simp)

theorem leafHolds_startsWith_iff (hstored : ComparesStored value truth) (start : String) :
    LeafHolds truth (.startsWith start) ↔ Predicate.accepts (.startsWith start) value = true := by
  rw [LeafHolds, hstored.like]
  simp only [Like.matches?_startingWith, Option.some.injEq]
  cases value <;> simp [Predicate.accepts]

/-- Comparisons ask for a number, and of it what the predicate asks. -/
theorem leafHolds_numeric_iff (hstored : ComparesStored value truth) {first : Comparison}
    {rest : List Comparison} (hfinite : ∀ c ∈ first :: rest, c.threshold.isFinite = true) :
    LeafHolds truth (.numeric (first :: rest)) ↔
      Predicate.accepts (.numeric (first :: rest)) value = true := by
  have hcompare : LeafHolds truth (.numeric (first :: rest)) ↔
      ∀ c ∈ first :: rest, ∃ n, value = .number n ∧ c.accepts n.toBinary64 = true := by
    rw [LeafHolds]
    refine forall₂_congr fun c hc => ?_
    rw [Condition.thresholdParam, if_pos (hfinite c hc), hstored.number]
    rfl
  rw [hcompare]
  cases value with
  | number n => simp [Predicate.accepts]
  | _ =>
      refine iff_of_false (fun hall => ?_) (by simp [Predicate.accepts])
      obtain ⟨n, hn, -⟩ := hall first List.mem_cons_self
      cases hn

theorem leafHolds_unbounded_iff (hstored : ComparesStored value truth) :
    LeafHolds truth (.numeric []) ↔
      Predicate.accepts (.numeric []) value = true ∨ LetsThrough (.numeric []) value := by
  rw [LeafHolds, hstored.isNotNull]
  constructor
  · intro hnull
    cases value with
    | number n => exact Or.inl rfl
    | _ => exact Or.inr (.unbounded hnull (by simp))
  · rintro (haccepts | hthrough)
    · rintro rfl
      simp [Predicate.accepts] at haccepts
    · cases hthrough with
      | unbounded hnull _ => exact hnull

/-- A leaf that is no disjunction. -/
structure Single (leaf : Predicate) : Prop where
  not_anyOf : ∀ members, leaf ≠ .anyOf members
  not_fields : ∀ entries, leaf ≠ .fields entries
  finite : ∀ all, leaf = .numeric all → ∀ c ∈ all, c.threshold.isFinite = true

theorem leafHolds_single_iff (hstored : ComparesStored value truth) {leaf : Predicate}
    (hsingle : Single leaf) :
    LeafHolds truth leaf ↔ leaf.accepts value = true ∨ LetsThrough leaf value := by
  have hexact (hnone : ¬ LetsThrough leaf value)
      (hiff : LeafHolds truth leaf ↔ leaf.accepts value = true) :
      LeafHolds truth leaf ↔ leaf.accepts value = true ∨ LetsThrough leaf value := by
    rw [hiff, or_iff_left hnone]
  cases leaf with
  | pass => exact hexact (by rintro ⟨⟩) (by simp [LeafHolds, Predicate.accepts])
  | literal expected => exact hexact (by rintro ⟨⟩) (leafHolds_literal_iff hstored expected)
  | startsWith start => exact hexact (by rintro ⟨⟩) (leafHolds_startsWith_iff hstored start)
  | present want => exact hexact (by rintro ⟨⟩) (by simp [LeafHolds, Predicate.accepts])
  | numeric all =>
      cases all with
      | nil => exact leafHolds_unbounded_iff hstored
      | cons first rest =>
          exact hexact (by rintro ⟨⟩) (leafHolds_numeric_iff hstored (hsingle.finite _ rfl))
  | anyOf members => exact absurd rfl (hsingle.not_anyOf members)
  | fields entries => exact absurd rfl (hsingle.not_fields entries)

/-- Of the single leaves only a demand of presence accepts an empty array. -/
theorem eq_present_of_accepts_nil {leaf : Predicate} (hsingle : Single leaf) (hpass : leaf ≠ .pass)
    (h : leaf.accepts (.array []) = true) : leaf = .present true := by
  cases leaf with
  | pass => exact absurd rfl hpass
  | literal expected => cases expected <;> simp [Predicate.accepts, Predicate.literalEqual] at h
  | present want => simpa [Predicate.accepts] using h
  | anyOf members => exact absurd rfl (hsingle.not_anyOf members)
  | _ => simp [Predicate.accepts] at h

/-- What passes through a member passes through the disjunction, where the member accepts it or
not. -/
theorem LetsThrough.of_member {members : List Predicate} {member : Predicate}
    (hmember : member ∈ members) (hsingle : Single member) (h : LetsThrough member value) :
    LetsThrough (.anyOf members) value := by
  cases h with
  | unbounded hnull hnumber => exact .unboundedMember hmember hnull hnumber
  | unboundedMember => exact absurd rfl (hsingle.not_anyOf _)
  | presentMember => exact absurd rfl (hsingle.not_anyOf _)

theorem leafHolds_anyOf_iff (hstored : ComparesStored value truth) (hleaf : value.isLeaf = true)
    {members : List Predicate} (hsingle : ∀ member ∈ members, Single member)
    (hpass : .pass ∉ members) :
    LeafHolds truth (.anyOf members) ↔
      Predicate.accepts (.anyOf members) value = true ∨ LetsThrough (.anyOf members) value := by
  have hmembers : LeafHolds truth (.anyOf members) ↔
      ∃ member ∈ members, member.accepts value = true ∨ LetsThrough member value := by
    rw [LeafHolds, memberHolds_iff]
    exact exists_congr fun member => and_congr_right fun hmember =>
      leafHolds_single_iff hstored (hsingle member hmember)
  rw [hmembers, Predicate.accepts_anyOf_iff]
  constructor
  · rintro ⟨member, hmember, haccepts | hthrough⟩
    · by_cases hempty : value = .array []
      · subst hempty
        have hpresent := eq_present_of_accepts_nil (hsingle member hmember)
          (fun h => hpass (h ▸ hmember)) haccepts
        exact Or.inr (.presentMember (hpresent ▸ hmember))
      · refine Or.inl ⟨value, ?_, member, hmember, haccepts⟩
        cases value <;> simp_all [Predicate.candidates, Json.isLeaf]
    · exact Or.inr (hthrough.of_member hmember (hsingle member hmember))
  · rintro (⟨candidate, hcandidate, member, hmember, haccepts⟩ | hthrough)
    · have hsame : candidate = value := by
        cases value <;> simp_all [Predicate.candidates, Json.isLeaf]
      exact ⟨member, hmember, Or.inl (hsame ▸ haccepts)⟩
    · cases hthrough with
      | unboundedMember hmember hnull hnumber =>
          exact ⟨_, hmember, Or.inr (.unbounded hnull hnumber)⟩
      | presentMember hmember => exact ⟨_, hmember, Or.inl rfl⟩

end Leaves

section Conditions

/-- The leaves of a compiled document, when its numbers are finite. -/
theorem single_of_compile {document : Json} {pattern leaf : Predicate}
    (hfinite : ∀ n, .number n ∈ document.nodes → n.toBinary64.isFinite = true)
    (hcompile : Pattern.compile document = .ok pattern) (hnode : leaf ∈ pattern.nodes)
    (hanyOf : ∀ members, leaf ≠ .anyOf members) {condition : Condition}
    (hcondition : Condition.ofLeaf? leaf = some condition) : Single leaf where
  not_anyOf := hanyOf
  not_fields := by
    rintro entries rfl
    simp [Condition.ofLeaf?] at hcondition
  finite := by
    rintro all rfl c hc
    obtain ⟨n, hn, hthreshold⟩ := Pattern.number_of_threshold hcompile hnode hc
    rw [hthreshold]
    exact hfinite n hn

/-- The members of a disjunction that has a condition have conditions of their own. -/
theorem exists_ofLeaf?_of_member {members : List Predicate} {condition : Condition}
    (h : Condition.ofLeaf? (.anyOf members) = some condition) {member : Predicate}
    (hmember : member ∈ members) : ∃ part, Condition.ofLeaf? member = some part := by
  rcases Condition.ofLeaf?_anyOf h with ⟨rfl, -⟩ | ⟨value, values, -, hparts⟩ |
    ⟨first, rest, -, hparts⟩
  · cases hmember
  · obtain ⟨held, -, hlisted⟩ := Condition.exists_of_forall₂ hparts.flip hmember
    obtain ⟨rfl, -⟩ := literal_of_listed? hlisted
    cases held <;> exact ⟨_, rfl⟩
  · obtain ⟨part, -, hof⟩ := Condition.exists_of_forall₂ hparts.flip hmember
    exact ⟨part, hof⟩

/-- For every branch of a compiled document and every row of an event, the condition of the branch,
read from its text about the column of stored values, holds exactly when the leaf accepts the value
of the row, or when it is let through by a numeric constraint without comparisons, which asks only
that it be not null, or by a demand of presence in a disjunction, which asks nothing of an empty
array. -/
theorem leaf_condition_holds_iff {document : Json} {pattern : Predicate} {branch : Index.Branch}
    (hfinite : ∀ n, .number n ∈ document.nodes → n.toBinary64.isFinite = true)
    (hcompile : Pattern.compile document = .ok pattern)
    (hbranch : branch ∈ Index.branches pattern) {condition : Condition}
    (hcondition : Condition.ofLeaf? branch.predicate = some condition) {event : Json}
    {row : Index.Row} (hrow : row ∈ Index.rows event) {column source : String}
    (hcolumn : Reads column [] (Operand.column source Relational.storedColumn).tokens)
    (db : Database) {oracle : Oracle} {scope : Scope}
    (hstored : ComparesStored row.value (oracle (scope.record source))) :
    ∃ read, Relational.Condition.read? (condition.sql column) condition.params = some read ∧
      (read.Holds db oracle scope ↔
        branch.predicate.accepts row.value = true ∨ LetsThrough branch.predicate row.value) := by
  obtain ⟨path, leaf⟩ := branch
  obtain ⟨hnode, -, -⟩ := Predicate.leaf_of_branch hbranch
  have hread := Relational.Condition.read?_of_reads (Condition.reads_ofLeaf? hcolumn hcondition)
  refine ⟨_, hread, ?_⟩
  rw [Relational.Condition.Holds, Relational.storedColumn, Condition.truth_tree hcondition,
    and_iff_right rfl]
  obtain ⟨keys, value, -, ⟨hvalue, -⟩, hrowValue⟩ := Index.mem_rowsAt_iff.mp hrow
  have hrowLeaf : row.value.isLeaf = true := by rw [hrowValue]; exact hvalue
  by_cases hanyOf : ∃ members, leaf = .anyOf members
  · obtain ⟨members, rfl⟩ := hanyOf
    have hmembers (member : Predicate) (hmember : member ∈ members) : member ∈ pattern.nodes :=
      Predicate.mem_nodes_trans hnode
        (Predicate.mem_nodes_anyOf.mpr (Or.inr ⟨member, hmember, Predicate.mem_nodes_self member⟩))
    refine leafHolds_anyOf_iff hstored hrowLeaf (fun member hmember => ?_) fun hpass =>
      Pattern.pass_not_mem_nodes_of_compile hcompile (hmembers _ hpass)
    obtain ⟨part, hpart⟩ := exists_ofLeaf?_of_member hcondition hmember
    exact single_of_compile hfinite hcompile (hmembers member hmember)
      (Pattern.member_ne_anyOf hcompile hnode hmember) hpart
  · exact leafHolds_single_iff hstored (single_of_compile hfinite hcompile hnode
      (fun members h => hanyOf ⟨members, h⟩) hcondition)

/-- A number that is large enough passes a disjunction of a text and a bound, another text does
not. -/
theorem bound_in_disjunction_read_back :
    let document : Json := .object [("n", .array [.string "a",
      .object [("numeric", .array [.string ">=", .number (.int 10)])]])]
    let event : Json := .object [("n", .array [.number (.int 12), .string "b"])]
    let oracle : Oracle := fun record => storedTruth (record.value "value")
    let scope (value : Json) : Scope := [("t0", [("value", value)])]
    ∃ pattern branch condition read, Pattern.compile document = .ok pattern ∧
      branch ∈ Index.branches pattern ∧
      Condition.ofLeaf? branch.predicate = some condition ∧
      Relational.Condition.read? (condition.sql "t0.value") condition.params = some read ∧
      ⟨"n", .number (.int 12)⟩ ∈ Index.rows event ∧ ⟨"n", .string "b"⟩ ∈ Index.rows event ∧
      read.Holds [] oracle (scope (.number (.int 12))) ∧
      ¬ read.Holds [] oracle (scope (.string "b")) := by
  intro document event oracle scope
  have hcolumn : Reads "t0.value" [] (Operand.column "t0" Relational.storedColumn).tokens :=
    ⟨_, _, rfl, rfl, rfl⟩
  have hfinite : ∀ n, .number n ∈ document.nodes → n.toBinary64.isFinite = true := by
    intro n hn
    obtain rfl : n = .int 10 := by
      simpa [document, Json.nodes, Json.nodesOfEntries, Json.nodesOfItems] using hn
    rfl
  let bound : Comparison := ⟨.atLeast, Number.toBinary64 (.int 10)⟩
  let leaf : Predicate := .anyOf [.literal (.string "a"), .numeric [bound]]
  have hcompile : Pattern.compile document = .ok (.fields [("n", leaf)]) := rfl
  have hbranch : ⟨["n"], leaf⟩ ∈ Index.branches (.fields [("n", leaf)]) := List.mem_cons_self
  have hcondition : Condition.ofLeaf? leaf =
      some (.any [.equals (.string "a"), .compares bound []]) := rfl
  have hstored (value : Json) : ComparesStored value (oracle (Scope.record (scope value) "t0")) :=
    comparesStored_storedTruth value
  have hnumber : ⟨"n", .number (.int 12)⟩ ∈ Index.rows event := List.mem_cons_self
  have htext : ⟨"n", .string "b"⟩ ∈ Index.rows event := List.mem_cons_of_mem _ List.mem_cons_self
  obtain ⟨read, hread, hholds⟩ := leaf_condition_holds_iff hfinite hcompile hbranch hcondition
    hnumber hcolumn [] (hstored (.number (.int 12)))
  obtain ⟨other, hother, hfails⟩ := leaf_condition_holds_iff hfinite hcompile hbranch hcondition
    htext hcolumn [] (hstored (.string "b"))
  obtain rfl : read = other := Option.some.inj (hread.symm.trans hother)
  refine ⟨_, _, _, read, hcompile, hbranch, hcondition, hread, hnumber, htext,
    hholds.mpr (Or.inl rfl), ?_⟩
  rw [hfails]
  rintro (haccepts | hthrough)
  · exact absurd haccepts (by decide)
  · cases hthrough with
    | unboundedMember hmember => simp at hmember

/-- A numeric constraint without comparisons finds a text, which it does not accept, and a demand
of presence in a disjunction finds an empty array, which the disjunction does not accept. -/
theorem conditions_wider_than_leaves :
    let empty : Json := .object [("a", .object [("numeric", .array [])])]
    let present : Json := .object [("a", .array [.object [("exists", .bool true)]])]
    let oracle : Oracle := fun record => storedTruth (record.value "value")
    let scope (value : Json) : Scope := [("t0", [("value", value)])]
    let wider (document value : Json) : Prop := ∃ pattern branch condition read,
      Pattern.compile document = .ok pattern ∧ branch ∈ Index.branches pattern ∧
        Condition.ofLeaf? branch.predicate = some condition ∧
        Relational.Condition.read? (condition.sql "t0.value") condition.params = some read ∧
        ⟨"a", value⟩ ∈ Index.rows (.object [("a", value)]) ∧
        ComparesStored value (oracle (Scope.record (scope value) "t0")) ∧
        read.Holds [] oracle (scope value) ∧ branch.predicate.accepts value = false
    wider empty (.string "x") ∧ wider present (.array []) := by
  intro empty present oracle scope wider
  have hempty : wider empty (.string "x") :=
    ⟨_, ⟨["a"], .numeric []⟩, .isNotNull, .last (.test (.column "t0" "value") .isNotNull), rfl,
      List.mem_cons_self, rfl, rfl, List.mem_cons_self, comparesStored_storedTruth _, rfl, rfl⟩
  have hpresent : wider present (.array []) := by
    refine ⟨_, ⟨["a"], .anyOf [.present true]⟩, .any [.always],
      .last (.group (.last (.group (.last (equalNumbers 1 1))))), rfl, List.mem_cons_self, rfl, rfl,
      List.mem_cons_self, comparesStored_storedTruth _, rfl, rfl⟩
  exact ⟨hempty, hpresent⟩

end Conditions

end EventBus.Sql
