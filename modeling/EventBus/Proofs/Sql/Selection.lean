import EventBus.Proofs.Sql.QueryMeaning

/-!
Which events a compiled pattern selects, said of the rows of each event alone. The text that a
pattern compiles to, read with its parameters and run over tables filled by storing events, answers
with the events for which every branch finds a newer row, and no branch that asks for absence
finds any. How stored values compare is left open.
-/

namespace EventBus.Sql

open Relational (Atom Check Database Operand Oracle Record Scope Truth)

/-- What a literal asks: null is not equal to anything, and is asked for by itself. -/
def literalCheck : Json → Check Json
  | .null => .isNull
  | value => .compare .equal value

mutual

/-- The condition that a leaf is on the value of a row, by the truth of each check on that
value. -/
def LeafHolds (truth : Check Json → Truth) : Predicate → Prop
  | .pass => True
  | .literal value => truth (literalCheck value) = some true
  | .startsWith start => truth (.like (.string (Like.startingWith start)) '\\') = some true
  | .present want => want = true
  | .numeric [] => truth .isNotNull = some true
  | .numeric (first :: rest) => ∀ comparison ∈ first :: rest,
      truth (.compare comparison.relation (Condition.thresholdParam comparison.threshold)) =
        some true
  | .anyOf members => MemberHolds truth members
  | .fields _ => False

def MemberHolds (truth : Check Json → Truth) : List Predicate → Prop
  | [] => False
  | member :: members => LeafHolds truth member ∨ MemberHolds truth members

end

theorem memberHolds_iff {truth : Check Json → Truth} {members : List Predicate} :
    MemberHolds truth members ↔ ∃ member ∈ members, LeafHolds truth member := by
  induction members with
  | nil => simp [MemberHolds]
  | cons member members ih => simp only [MemberHolds, ih, List.mem_cons, exists_eq_or_imp]

/-- What a branch asks of a row, other than that it be new. -/
def Finds (truth : Check Json → Truth) (branch : Index.Branch) (row : Index.Row) : Prop :=
  match branch.predicate with
  | .present _ => Index.isAtOrBelow branch.pathText row.path = true
  | leaf => row.path = branch.pathText ∧ LeafHolds truth leaf

/-- The event has an index row newer than an instant of which something holds. -/
def Stored.HasNewRow (since : Instant) (event : Stored) (holds : Index.Row → Prop) : Prop :=
  ∃ row ∈ Index.rows event.event, since.text < event.ts.text ∧ holds row

/-- The event is one that a pattern asks for. -/
structure Stored.Selected (oracle : Oracle) (since : Instant) (pattern : Predicate)
    (event : Stored) : Prop where
  isNew : event.HasNewRow since fun _ => True
  found : ∀ branch ∈ Index.branches pattern, branch.predicate ≠ .present false →
    event.HasNewRow since fun row => Finds (oracle (event.record row)) branch row
  absent : ∀ branch ∈ Index.branches pattern, branch.predicate = .present false →
    ∀ row ∈ Index.rows event.event, ¬ Index.isAtOrBelow branch.pathText row.path = true

section Deciding

mutual

def LeafHolds.decide (truth : Check Json → Truth) :
    (leaf : Predicate) → Decidable (LeafHolds truth leaf)
  | .pass => .isTrue trivial
  | .literal _ | .startsWith _ | .present _ | .numeric [] => inferInstanceAs (Decidable (_ = _))
  | .numeric (_ :: _) => inferInstanceAs (Decidable (∀ comparison ∈ _, _))
  | .anyOf members => MemberHolds.decide truth members
  | .fields _ => .isFalse id

def MemberHolds.decide (truth : Check Json → Truth) :
    (members : List Predicate) → Decidable (MemberHolds truth members)
  | [] => .isFalse id
  | member :: members =>
      @instDecidableOr _ _ (LeafHolds.decide truth member) (MemberHolds.decide truth members)

end

instance (truth : Check Json → Truth) (leaf : Predicate) : Decidable (LeafHolds truth leaf) :=
  LeafHolds.decide truth leaf

instance (truth : Check Json → Truth) (row : Index.Row) :
    (branch : Index.Branch) → Decidable (Finds truth branch row)
  | ⟨_, .present _⟩ => inferInstanceAs (Decidable (_ = _))
  | ⟨_, .pass⟩ | ⟨_, .literal _⟩ | ⟨_, .startsWith _⟩ | ⟨_, .numeric _⟩ | ⟨_, .anyOf _⟩
  | ⟨_, .fields _⟩ => inferInstanceAs (Decidable (_ ∧ LeafHolds truth _))

instance (event : Stored) (since : Instant) (holds : Index.Row → Prop) [DecidablePred holds] :
    Decidable (event.HasNewRow since holds) :=
  inferInstanceAs (Decidable (∃ row ∈ _, _))

theorem asksAbsence_eq_false_iff {predicate : Predicate} :
    predicate.asksAbsence = false ↔ predicate ≠ .present false := by
  rw [← Bool.not_eq_true, Predicate.asksAbsence_iff]

instance (oracle : Oracle) (since : Instant) (pattern : Predicate) (event : Stored) :
    Decidable (event.Selected oracle since pattern) :=
  decidable_of_iff
    (event.HasNewRow since (fun _ => True) ∧
      (∀ branch ∈ Index.branches pattern, branch.predicate.asksAbsence = false →
        event.HasNewRow since fun row => Finds (oracle (event.record row)) branch row) ∧
      ∀ branch ∈ Index.branches pattern, branch.predicate.asksAbsence = true →
        ∀ row ∈ Index.rows event.event, ¬ Index.isAtOrBelow branch.pathText row.path = true) <| by
    simp only [asksAbsence_eq_false_iff, Predicate.asksAbsence_iff]
    exact ⟨fun ⟨hnew, hfound, hnone⟩ => ⟨hnew, hfound, hnone⟩,
      fun h => ⟨h.isNew, h.found, h.absent⟩⟩

end Deciding

section Leaves

variable {db : Database} {oracle : Oracle} {scope : Scope} {source : String}

theorem holds_valueTest (check : Check Operand) :
    (Atom.test (.column source "value") check).Holds db oracle scope ↔
      oracle (scope.record source) (check.map (·.eval scope)) = some true := Iff.rfl

theorem truth_last {before : Truth} (atom : Atom) :
    (Relational.Condition.last atom).truth db oracle scope before = some true ↔
      before = some true ∧ atom.Holds db oracle scope := by
  rw [Relational.Condition.truth, Truth.and_eq_true]
  rfl

theorem holds_equalNumbers (a b : Nat) :
    (equalNumbers a b).Holds db oracle scope ↔ a = b := by
  simp only [equalNumbers, Atom.Holds, Atom.truth, Operand.test, Operand.eval, Check.map,
    Check.truth, Relational.compareValues, Relational.holdsBetween, Option.some.injEq,
    decide_eq_true_eq, Int.ofNat_inj]

theorem literal_of_listed? {member : Predicate} {value : Json}
    (h : Condition.listed? member = some value) :
    member = .literal value ∧ literalCheck value = .compare .equal value := by
  cases member with
  | literal held =>
      cases held <;> simp only [Condition.listed?, Option.some.injEq, reduceCtorEq] at h <;>
        exact h ▸ ⟨rfl, rfl⟩
  | _ => simp [Condition.listed?] at h

theorem Condition.truth_tree {before : Truth} {leaf : Predicate} {condition : Condition}
    (h : ofLeaf? leaf = some condition) :
    (tree (.column source "value") condition).truth db oracle scope before = some true ↔
      before = some true ∧ LeafHolds (oracle (scope.record source)) leaf := by
  induction leaf using Predicate.partsInduction generalizing condition before with
  | pass =>
      cases h
      rw [tree, truth_last, holds_equalNumbers, LeafHolds]
      simp
  | literal value =>
      cases value <;> cases h <;> rw [tree, truth_last, LeafHolds, holds_valueTest] <;> rfl
  | startsWith start =>
      cases h
      rw [tree, truth_last, holds_valueTest, LeafHolds]
      rfl
  | present want =>
      cases want <;> cases h <;> rw [tree, truth_last, holds_equalNumbers, LeafHolds] <;> simp
  | numeric comparisons =>
      cases comparisons with
      | nil =>
          cases h
          rw [tree, truth_last, holds_valueTest, LeafHolds]
          rfl
      | cons first rest =>
          cases h
          rw [tree, Relational.Condition.truth_all, LeafHolds, ← List.map_cons, List.forall_mem_map]
          rfl
  | anyOf members ih =>
      rw [LeafHolds, memberHolds_iff]
      -- Nothing to choose from, a list of plain values, or one group for each member.
      rcases ofLeaf?_anyOf h with ⟨rfl, rfl⟩ | ⟨value, values, rfl, hparts⟩ |
        ⟨first, rest, rfl, hparts⟩
      · rw [tree, truth_last, holds_equalNumbers]
        simp
      · rw [tree, truth_last, Atom.holds_isIn]
        refine and_congr_right fun _ =>
          exists_iff_of_forall₂ hparts fun member _ value hlisted => ?_
        obtain ⟨rfl, hcheck⟩ := literal_of_listed? hlisted
        rw [LeafHolds, hcheck]
        exact Iff.rfl
      · have hgroups : (Atom.group (.any (.group (tree (.column source "value") first))
            (groups (.column source "value") rest))).Holds db oracle scope ↔
              ∃ condition ∈ first :: rest,
                (tree (.column source "value") condition).Holds db oracle scope := by
          refine (Relational.Condition.holds_any _ _).trans ?_
          simp only [groups_eq_map, List.mem_cons, List.mem_map, exists_eq_or_imp,
            exists_exists_and_eq_and]
          rfl
        rw [tree, truth_last, hgroups]
        refine and_congr_right fun _ =>
          exists_iff_of_forall₂ hparts fun member hmember part hof => ?_
        rw [Relational.Condition.Holds, ih member hmember hof]
        exact and_iff_right rfl
  | fields entries => simp [ofLeaf?] at h

end Leaves

section Events

variable {tables : Tables} {events index : String} {stored : List Stored} {oracle : Oracle}
  {db : Database} {scope : Scope} {event : Stored} {row : Index.Row} {since : Instant} {n : Nat}

/-- The tests of a joined copy ask for a new row that the branch finds. -/
theorem holds_joinedAtom {branch : Index.Branch} {joined : Joined}
    (hstands : Select.Stands branch joined)
    (hrecord : scope.record (aliasName n) = event.record row) :
    (joined.atom since.text n).Holds db oracle scope ↔
      since.text < event.ts.text ∧ Finds (oracle (event.record row)) branch row := by
  cases hstands with
  | present path =>
      refine (Relational.Condition.holds_all _ _).trans ?_
      rw [List.forall_mem_cons, List.forall_mem_singleton, holds_newerAtom hrecord, copyColumn,
        holds_atOrBelowAtom hrecord]
      rfl
  | leaf hleaf hcondition =>
      have hfinds : Finds (oracle (event.record row)) branch row ↔
          row.path = branch.pathText ∧
            LeafHolds (oracle (event.record row)) branch.predicate := by
        obtain ⟨path, predicate⟩ := branch
        cases predicate with
        | present want => exact absurd rfl (hleaf want)
        | _ => exact Iff.rfl
      have hnewer : (newerAtom since.text n).truth db oracle scope = some true ↔
          since.text < event.ts.text := holds_newerAtom hrecord
      have hpath : (Atom.test (copyColumn n "path")
          (.compare .equal (.value (.string branch.pathText)))).truth db oracle scope = some true ↔
            row.path = branch.pathText := holds_atPath hrecord
      refine (Condition.truth_tree hcondition).trans ?_
      rw [hfinds, hrecord, Truth.and_eq_true, Truth.and_eq_true, hnewer, hpath, and_assoc,
        and_assoc]
      exact and_iff_right rfl

/-- The tests of all copies ask the rows chosen for them, one by one. -/
theorem holds_joinedAtoms {branches : List Index.Branch} {joined : List Joined}
    (hstands : List.Forall₂ Select.Stands branches joined) {rows : List Index.Row}
    (hlength : rows.length = joined.length)
    (hrecord : ∀ m row, rows[m]? = some row →
      scope.record (aliasName (n + m)) = event.record row) :
    (∀ atom ∈ joinedAtoms since.text n joined, atom.Holds db oracle scope) ↔
      List.Forall₂ (fun branch row => since.text < event.ts.text ∧
        Finds (oracle (event.record row)) branch row) branches rows := by
  induction hstands generalizing n rows with
  | nil =>
      obtain rfl := List.eq_nil_of_length_eq_zero hlength
      simp [joinedAtoms]
  | @cons branch joined branches rest hfirst _ ih =>
      cases rows with
      | nil => cases hlength
      | cons row rows =>
          have hlater := @ih (n + 1) rows (Nat.succ.inj hlength) fun m other hother => by
            rw [Nat.add_assoc, Nat.add_comm 1 m]
            exact hrecord (m + 1) other hother
          rw [joinedAtoms, List.forall_mem_cons, hlater, List.forall₂_cons]
          exact and_congr_left fun _ => holds_joinedAtom hfirst (hrecord 0 row rfl)

/-- Rows can be chosen for all branches when there is one for each. -/
theorem exists_forall₂_iff {R : Index.Branch → Index.Row → Prop} {branches : List Index.Branch}
    {all : List Index.Row} :
    (∃ rows, (∀ row ∈ rows, row ∈ all) ∧ List.Forall₂ R branches rows) ↔
      ∀ branch ∈ branches, ∃ row ∈ all, R branch row := by
  induction branches with
  | nil => simp
  | cons branch branches ih =>
      rw [List.forall_mem_cons, ← ih]
      constructor
      · rintro ⟨rows, hrows, hrelated⟩
        cases hrelated with
        | @cons _ row _ rows hfirst hlater =>
            exact ⟨⟨row, hrows row List.mem_cons_self, hfirst⟩, rows,
              fun other hother => hrows other (List.mem_cons_of_mem _ hother), hlater⟩
      · rintro ⟨⟨row, hrow, hfirst⟩, rows, hrows, hlater⟩
        exact ⟨row :: rows, List.forall_mem_cons.mpr ⟨hrow, hrows⟩, .cons hfirst hlater⟩

section Rows

variable (named : tables.Named events index) (hids : (stored.map (·.id)).Nodup)
  (hevent : event ∈ stored)

include named hids hevent

/-- The filter asks the joined copies for their branches, and the event for absent paths. -/
theorem holds_filter {query : Select} {first : Index.Row} {rest : List Index.Row} :
    (query.tree events index since.text).filter.Holds (filled events index stored) oracle
        (eventScope events event (first :: rest)) ↔
      (∀ atom ∈ (if query.joined.isEmpty then [.group (.last (newerAtom since.text 0))]
          else joinedAtoms since.text 0 query.joined),
        atom.Holds (filled events index stored) oracle (eventScope events event (first :: rest))) ∧
      ∀ path ∈ query.absent, ∀ row ∈ Index.rows event.event,
        ¬ Index.isAtOrBelow path row.path = true := by
  rw [Select.tree, Relational.Condition.holds_allOf, Select.atoms, List.forall_mem_append,
    List.forall_mem_map]
  exact and_congr_right fun _ => forall₂_congr fun path _ =>
    holds_absentAtom named.distinct hids hevent (record_eventScope rfl) path

/-- Without a branch the filter asks one row to be new. -/
theorem holds_filter_of_bare {query : Select} (hjoined : query.joined = []) {row : Index.Row} :
    (query.tree events index since.text).filter.Holds (filled events index stored) oracle
        (eventScope events event [row]) ↔
      since.text < event.ts.text ∧ ∀ path ∈ query.absent, ∀ row ∈ Index.rows event.event,
        ¬ Index.isAtOrBelow path row.path = true := by
  have hnewer : (newerAtom since.text 0).Holds (filled events index stored) oracle
      (eventScope events event [row]) ↔ since.text < event.ts.text :=
    holds_newerAtom (record_eventScope rfl)
  rw [holds_filter named hids hevent, hjoined, ← hnewer]
  refine and_congr_left fun _ => ?_
  exact List.forall_mem_singleton.trans (Relational.Condition.holds_last _)

/-- With branches the filter asks each row for its branch. -/
theorem holds_filter_of_joined {branches : List Index.Branch} {query : Select}
    (hstands : List.Forall₂ Select.Stands branches query.joined) (hjoined : query.joined ≠ [])
    {rows : List Index.Row} (hlength : rows.length = query.joined.length) :
    (query.tree events index since.text).filter.Holds (filled events index stored) oracle
        (eventScope events event rows) ↔
      List.Forall₂ (fun branch row => since.text < event.ts.text ∧
        Finds (oracle (event.record row)) branch row) branches rows ∧
      ∀ path ∈ query.absent, ∀ row ∈ Index.rows event.event,
        ¬ Index.isAtOrBelow path row.path = true := by
  obtain ⟨joined, more, hsplit⟩ := List.exists_cons_of_ne_nil hjoined
  obtain ⟨first, rest, rfl⟩ := List.exists_cons_of_length_eq_add_one
    (hlength.trans (congrArg List.length hsplit))
  rw [holds_filter named hids hevent]
  refine and_congr_left fun _ => ?_
  rw [if_neg (by simpa using hjoined)]
  refine holds_joinedAtoms hstands hlength fun m row hrow => ?_
  rw [Nat.zero_add]
  exact record_eventScope hrow

/-- The rows that a query chooses for an event can be chosen when the event has a new row, each
branch finds one, and the absent paths have none. -/
theorem exists_rows_iff {branches : List Index.Branch} {query : Select}
    (hstands : List.Forall₂ Select.Stands branches query.joined) :
    (∃ rows : List Index.Row, rows.length = query.joined.length - 1 + 1 ∧
        (∀ row ∈ rows, row ∈ Index.rows event.event) ∧
        (query.tree events index since.text).filter.Holds (filled events index stored) oracle
          (eventScope events event rows)) ↔
      event.HasNewRow since (fun _ => True) ∧
        (∀ branch ∈ branches,
          event.HasNewRow since fun row => Finds (oracle (event.record row)) branch row) ∧
        ∀ path ∈ query.absent, ∀ row ∈ Index.rows event.event,
          ¬ Index.isAtOrBelow path row.path = true := by
  by_cases hjoined : query.joined = []
  · obtain rfl : branches = [] := by
      rw [hjoined] at hstands
      exact List.forall₂_nil_right_iff.mp hstands
    constructor
    · rintro ⟨rows, hlength, hrows, hholds⟩
      rw [hjoined] at hlength
      obtain ⟨row, rfl⟩ := List.length_eq_one_iff.mp hlength
      obtain ⟨hnewer, habsent⟩ := (holds_filter_of_bare named hids hevent hjoined).mp hholds
      exact ⟨⟨row, hrows row List.mem_cons_self, hnewer, trivial⟩, by simp, habsent⟩
    · rintro ⟨⟨row, hrow, hnewer, -⟩, -, habsent⟩
      exact ⟨[row], by rw [hjoined]; rfl, by simpa using hrow,
        (holds_filter_of_bare named hids hevent hjoined).mpr ⟨hnewer, habsent⟩⟩
  · have hcount : query.joined.length - 1 + 1 = query.joined.length :=
      Nat.succ_pred_eq_of_pos (List.length_pos_iff.mpr hjoined)
    rw [hcount]
    constructor
    · rintro ⟨rows, hlength, hrows, hholds⟩
      obtain ⟨hrelated, habsent⟩ :=
        (holds_filter_of_joined named hids hevent hstands hjoined hlength).mp hholds
      have hfound := exists_forall₂_iff.mp ⟨rows, hrows, hrelated⟩
      have hbranches : branches ≠ [] := by
        rintro rfl
        exact hjoined (List.forall₂_nil_left_iff.mp hstands)
      obtain ⟨branch, hbranch⟩ := List.exists_mem_of_ne_nil branches hbranches
      obtain ⟨row, hrow, hnewer, -⟩ := hfound branch hbranch
      exact ⟨⟨row, hrow, hnewer, trivial⟩, hfound, habsent⟩
    · rintro ⟨-, hfound, habsent⟩
      obtain ⟨rows, hrows, hrelated⟩ := exists_forall₂_iff.mpr hfound
      have hlength : rows.length = query.joined.length :=
        hrelated.length_eq.symm.trans hstands.length_eq
      exact ⟨rows, hlength, hrows,
        (holds_filter_of_joined named hids hevent hstands hjoined hlength).mpr
          ⟨hrelated, habsent⟩⟩

end Rows

theorem project_eventScope (query : Select) (since : String) {rows : List Index.Row} {more : Nat}
    (hlength : rows.length = more + 1) (hnot : ∀ n < rows.length, events ≠ aliasName n) :
    (query.tree events index since).project (eventScope events event rows) = event.answer := by
  obtain ⟨first, rest, rfl⟩ := List.exists_cons_of_length_eq_add_one hlength
  have hfirst : (eventScope events event (first :: rest)).record (aliasName 0) =
      event.record first := record_eventScope rfl
  have hevent : (eventScope events event (first :: rest)).record events = event.answer :=
    record_events hnot
  simp only [Relational.Query.project, Select.tree, Select.columns, List.map_cons, List.map_nil,
    hfirst, hevent]
  rfl

/-- What a query looks for is what the branches of its pattern ask for. -/
theorem selected_iff {pattern : Predicate} {query : Select}
    (habsent : query.absent = ((Index.branches pattern).filter fun branch =>
      branch.predicate.asksAbsence).map (·.pathText)) :
    event.Selected oracle since pattern ↔
      event.HasNewRow since (fun _ => True) ∧
        (∀ branch ∈ (Index.branches pattern).filter fun branch => !branch.predicate.asksAbsence,
          event.HasNewRow since fun row => Finds (oracle (event.record row)) branch row) ∧
        ∀ path ∈ query.absent, ∀ row ∈ Index.rows event.event,
          ¬ Index.isAtOrBelow path row.path = true := by
  simp only [habsent, List.forall_mem_map, List.mem_filter, Bool.not_eq_true',
    asksAbsence_eq_false_iff, Predicate.asksAbsence_iff, and_imp]
  exact ⟨fun h => ⟨h.isNew, h.found, h.absent⟩, fun ⟨hnew, hfound, hnone⟩ => ⟨hnew, hfound, hnone⟩⟩

/-- The answers of a query are the events that it selects. -/
theorem mem_answers_tree (named : tables.Named events index) (hids : (stored.map (·.id)).Nodup)
    {pattern : Predicate} {query : Select} (hquery : Select.ofPredicate pattern = .ok query)
    (hnot : ∀ n < query.joined.length - 1 + 1, events ≠ aliasName n) {answer : Record} :
    answer ∈ (query.tree events index since.text).answers (filled events index stored) oracle ↔
      ∃ event ∈ stored, answer = event.answer ∧ event.Selected oracle since pattern := by
  obtain ⟨hstands, habsent⟩ := Select.of_ofBranches_eq_ok hquery
  rw [Relational.Query.mem_answers]
  constructor
  · rintro ⟨scope, hscope, hholds, rfl⟩
    obtain ⟨event, hevent, rows, hlength, hrows, rfl⟩ := (mem_scopes named hids hnot _).mp hscope
    refine ⟨event, hevent, project_eventScope _ _ hlength (by rwa [hlength]), ?_⟩
    exact (selected_iff habsent).mpr
      ((exists_rows_iff named hids hevent hstands).mp ⟨rows, hlength, hrows, hholds⟩)
  · rintro ⟨event, hevent, rfl, hselected⟩
    obtain ⟨rows, hlength, hrows, hholds⟩ :=
      (exists_rows_iff named hids hevent hstands).mpr ((selected_iff habsent).mp hselected)
    exact ⟨eventScope events event rows,
      (mem_scopes named hids hnot _).mpr ⟨event, hevent, rows, hlength, hrows, rfl⟩, hholds,
      (project_eventScope _ _ hlength (by rwa [hlength])).symm⟩

end Events

/-- How many copies of the index table the query of a pattern joins: one for each branch that does
not ask for absence, and one when there is no such branch. -/
def copyCount (pattern : Predicate) : Nat :=
  max 1 ((Index.branches pattern).filter fun branch => !branch.predicate.asksAbsence).length

/-- For every pattern that compiles and every instant, the text of the query, read with its
parameters, selects of the events stored with different ids those that the pattern asks for: each
is found once, and by nothing but its own index rows. The events table may not be called what one
of the joined copies of the index is. -/
theorem compiled_query_selects {tables : Tables} {events index : String}
    (named : tables.Named events index) {stored : List Stored}
    (hids : (stored.map (·.id)).Nodup) {pattern : Predicate} {since : Instant}
    {statement : Statement} (hcompiled : compilePredicate tables since pattern = .ok statement)
    (hname : ∀ n < copyCount pattern, events ≠ aliasName n) (oracle : Oracle) :
    ∃ db answers,
      Database.runAll? [] (createTables tables ++ stored.flatMap (·.statements tables)) = some db ∧
        db.answers? oracle statement = some answers ∧ answers.Nodup ∧
        ∀ answer, answer ∈ answers ↔
          ∃ event ∈ stored, answer = event.answer ∧ event.Selected oracle since pattern := by
  obtain ⟨query, hquery, hstatement⟩ : ∃ query, Select.ofPredicate pattern = .ok query ∧
      query.statement tables since = statement := by
    unfold compilePredicate at hcompiled
    cases hquery : Select.ofPredicate pattern with
    | error error => rw [hquery] at hcompiled; cases hcompiled
    | ok query =>
        rw [hquery] at hcompiled
        exact ⟨query, rfl, Except.ok.inj hcompiled⟩
  obtain ⟨hstands, -⟩ := Select.of_ofBranches_eq_ok hquery
  have hcount : copyCount pattern = query.joined.length - 1 + 1 := by
    rw [copyCount, hstands.length_eq]
    omega
  rw [hcount] at hname
  have hread : Relational.Query.read? statement = some (query.tree events index since.text) := by
    rw [← hstatement]
    exact Select.read?_statement named hstands since
  have hnamed : (query.tree events index since.text).isNamed (filled events index stored) = true :=
    isNamed_tree _ _ named (by rwa [Nat.add_comm]) since.text
  refine ⟨_, _, runAll?_statements named hids, ?_, List.nodup_dedup _,
    fun answer => mem_answers_tree named hids hquery hname⟩
  rw [Database.answers?, hread, Option.bind_some, if_pos hnamed]
  rfl

/-- Of three events the query finds the one that is new, has what the pattern names, and has
nothing where the pattern asks for absence. -/
theorem compiled_query_finds_one_of_three :
    let tables : Tables := ⟨"Events", "fields"⟩
    let pattern : Predicate := .fields [("gone", .present false),
      ("kind", .anyOf [.literal (.string "a"), .startsWith "b"]), ("meta", .present true)]
    let fits : Stored := ⟨"1", ⟨86400, 0⟩,
      .object [("kind", .string "bc"), ("meta", .object [("n", .null)])]⟩
    let gone : Stored := ⟨"2", ⟨86400, 0⟩,
      .object [("gone", .bool true), ("kind", .string "a"), ("meta", .null)]⟩
    let old : Stored := ⟨"3", ⟨0, 0⟩, fits.event⟩
    ∃ statement db answers, compilePredicate tables ⟨5, 0⟩ pattern = .ok statement ∧
      Database.runAll? [] (createTables tables ++
        [fits, gone, old].flatMap (·.statements tables)) = some db ∧
      db.answers? (fun record check => check.truth (record.value "value")) statement =
        some answers ∧
      fits.answer ∈ answers ∧ gone.answer ∉ answers ∧ old.answer ∉ answers := by
  intro tables pattern fits gone old
  have named : Tables.Named ⟨"Events", "fields"⟩ "events" "fields" := ⟨rfl, rfl, by decide⟩
  have hids : ([fits, gone, old].map (·.id)).Nodup := by decide
  have hname : ∀ n < copyCount pattern, "events" ≠ aliasName n := by decide
  obtain ⟨statement, hcompiled⟩ :
      ∃ statement, compilePredicate tables ⟨5, 0⟩ pattern = .ok statement := ⟨_, rfl⟩
  obtain ⟨db, answers, hrun, hanswers, -, hmem⟩ := compiled_query_selects named hids hcompiled
    hname fun record check => check.truth (record.value "value")
  refine ⟨statement, db, answers, hcompiled, hrun, hanswers, ?_⟩
  simp only [hmem]
  decide

end EventBus.Sql
