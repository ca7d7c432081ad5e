import EventBus.Proofs.Sql.QueryText
import EventBus.Sql.Insert
import Mathlib.Data.List.SplitLengths

/-!
Values and their places. A statement is run with its values in order, the first of them for the
first question mark of the text, so a value that is missing or out of order would go to the place
of another. Every part of a statement takes as many values as come with it, and what is put
together from such parts takes their values one part after another.
-/

namespace EventBus.Sql

/-- How many values a text takes. -/
def marks (text : String) : Nat := text.toList.count '?'

/-- A text takes the values that come with it, and no others. -/
def Takes (text : String) (params : List Json) : Prop := marks text = params.length

theorem map_eq_map_of_forall₂ {α β γ : Type} {R : α → β → Prop} {as : List α} {bs : List β}
    (h : List.Forall₂ R as bs) {f : α → γ} {g : β → γ}
    (hsame : ∀ a ∈ as, ∀ b, R a b → f a = g b) : as.map f = bs.map g := by
  induction h with
  | nil => rfl
  | @cons a b as bs hfirst _ ih =>
      obtain ⟨hhead, htail⟩ := List.forall_mem_cons.mp hsame
      rw [List.map_cons, List.map_cons, hhead b hfirst, ih htail]

section Texts

variable {separator : String}

theorem marks_append (text more : String) : marks (text ++ more) = marks text + marks more := by
  simp [marks, String.toList_append, List.count_append]

theorem joinWith_concat {parts : List String} (hparts : parts ≠ []) (last : String) :
    joinWith separator (parts ++ [last]) = joinWith separator parts ++ separator ++ last := by
  induction parts with
  | nil => exact absurd rfl hparts
  | cons part parts ih =>
      cases parts with
      | nil => rfl
      | cons next parts =>
          have hlater := ih (List.cons_ne_nil _ _)
          simp only [List.cons_append, joinWith] at hlater ⊢
          rw [hlater]
          simp only [String.append_assoc]

theorem Takes.append {text more : String} {params others : List Json} (h : Takes text params)
    (hmore : Takes more others) : Takes (text ++ more) (params ++ others) := by
  rw [Takes, marks_append, List.length_append, h, hmore]

theorem Takes.joinWith_map (hseparator : Takes separator []) {α : Type} {items : List α}
    (part : α → Fragment) (h : ∀ item ∈ items, Takes (part item).sql (part item).params) :
    Takes (joinWith separator (items.map fun item => (part item).sql))
      (items.flatMap fun item => (part item).params) := by
  induction items with
  | nil => rfl
  | cons item items ih =>
      obtain ⟨hitem, hitems⟩ := List.forall_mem_cons.mp h
      cases items with
      | nil => simpa [joinWith] using hitem
      | cons next items =>
          have htakes := (hitem.append hseparator).append (ih hitems)
          rw [List.append_nil] at htakes
          exact htakes

/-- Cut at the places of each part, the values are the values of each part. -/
theorem splitLengths_params {parts : List Fragment}
    (h : ∀ part ∈ parts, Takes part.sql part.params) :
    ((parts.map (·.sql)).map marks).splitLengths (parts.flatMap (·.params)) =
      parts.map (·.params) := by
  induction parts with
  | nil => rfl
  | cons part parts ih =>
      obtain ⟨hpart, hparts⟩ := List.forall_mem_cons.mp h
      rw [List.map_cons, List.map_cons, List.splitLengths_cons, List.flatMap_cons, hpart,
        List.take_left, List.drop_left, ih hparts, List.map_cons]

theorem marks_aliasName (n : Nat) : marks (aliasName n) = 0 := by
  rw [marks, aliasName_toList, List.count_eq_zero]
  intro hmark
  rcases List.mem_cons.mp hmark with hmark | hmark
  · cases hmark
  · have hdigit : Char.isDigit '?' = true :=
      Nat.isDigit_of_mem_toDigits (by decide) (by decide) hmark
    cases hdigit

theorem takes_column (n : Nat) {name : String} (hname : marks name = 0) :
    Takes (aliasName n ++ name) [] := by
  rw [Takes, marks_append, marks_aliasName, hname, List.length_nil]

end Texts

section Conditions

variable {column : String}

namespace Condition

theorem takes_comparisonSql (hcolumn : Takes column []) (comparison : Comparison) :
    Takes (comparisonSql column comparison) [thresholdParam comparison.threshold] := by
  have hsign : Takes (" " ++ comparison.relation.sign ++ " ?")
      [thresholdParam comparison.threshold] := by
    cases comparison.relation <;> rfl
  have htakes := hcolumn.append hsign
  simp only [comparisonSql, String.append_assoc] at htakes ⊢
  exact htakes

theorem takes_placeholders (values : List Json) : Takes (placeholders values.length) values := by
  have hcomma : Takes "," [] := rfl
  have hmark (value : Json) : Takes "?" [value] := rfl
  have hmarks := Takes.joinWith_map hcomma (fun value => ⟨"?", [value]⟩)
    fun value (_ : value ∈ values) => hmark value
  rw [List.flatMap_singleton', List.map_const'] at hmarks
  exact hmarks

theorem takes_compares (hcolumn : Takes column []) (first : Comparison)
    (rest : List Comparison) :
    Takes (sql column (.compares first rest)) (Condition.compares first rest).params := by
  have hand : Takes " AND " [] := rfl
  have hjoined := Takes.joinWith_map hand
    (fun comparison => ⟨comparisonSql column comparison, [thresholdParam comparison.threshold]⟩)
    fun comparison (_ : comparison ∈ first :: rest) => takes_comparisonSql hcolumn comparison
  rw [← List.map_eq_flatMap] at hjoined
  rw [sql, params]
  exact hjoined

theorem takes_isIn (hcolumn : Takes column []) (values : List Json) :
    Takes (sql column (.isIn values)) (Condition.isIn values).params := by
  have hin : Takes " IN (" [] := rfl
  have hclose : Takes ")" [] := rfl
  have htakes := ((hcolumn.append hin).append (takes_placeholders values)).append hclose
  rw [List.append_nil] at htakes
  rw [sql, params]
  exact htakes

theorem takes_any {conditions : List Condition}
    (h : ∀ condition ∈ conditions, Takes (sql column condition) condition.params) :
    Takes (sql column (.any conditions)) (Condition.any conditions).params := by
  have hopen : Takes "(" [] := rfl
  have hclose : Takes ")" [] := rfl
  have hor : Takes " OR " [] := rfl
  have hpart : ∀ condition ∈ conditions,
      Takes ("(" ++ sql column condition ++ ")") condition.params := by
    intro condition hcondition
    have htakes := (hopen.append (h condition hcondition)).append hclose
    rwa [List.append_nil] at htakes
  have hparts := Takes.joinWith_map hor
    (fun condition => ⟨"(" ++ sql column condition ++ ")", condition.params⟩) hpart
  rw [← sqlParts_eq_map, ← paramsOfAll_eq_flatMap] at hparts
  have htakes := (hopen.append hparts).append hclose
  rw [List.append_nil] at htakes
  rw [sql, params]
  exact htakes

/-- Every condition takes its own values, whatever it nests. -/
theorem takes_sql (hcolumn : Takes column []) :
    ∀ condition, Takes (sql column condition) condition.params
  | .always | .never => by
      simp only [sql, params]
      rfl
  | .isNull | .isNotNull | .equals _ | .like _ => by
      simp only [sql, params]
      exact hcolumn.append (by rfl)
  | .compares first rest => takes_compares hcolumn first rest
  | .isIn values => takes_isIn hcolumn values
  | .any conditions => takes_any fun condition _ => takes_sql hcolumn condition

mutual

/-- The values of a leaf, in the order of its parts. -/
def leafValues : Predicate → List Json
  | .literal .null => []
  | .literal value => [value]
  | .startsWith start => [.string (Like.startingWith start)]
  | .numeric comparisons => comparisons.map fun comparison => thresholdParam comparison.threshold
  | .anyOf members => memberValues members
  | _ => []

def memberValues : List Predicate → List Json
  | [] => []
  | member :: members => leafValues member ++ memberValues members

end

theorem memberValues_eq_flatMap (members : List Predicate) :
    memberValues members = members.flatMap leafValues := by
  induction members with
  | nil => rfl
  | cons member members ih => rw [memberValues, ih, List.flatMap_cons]

theorem leafValues_of_listed? {member : Predicate} {value : Json}
    (h : listed? member = some value) : leafValues member = [value] := by
  cases member with
  | literal held => cases held <;> cases h <;> rfl
  | _ => cases h

theorem flatMap_eq_of_forall₂ {α β : Type} {R : α → β → Prop} {as : List α} {bs : List β}
    (h : List.Forall₂ R as bs) {f : α → List Json} {g : β → List Json}
    (hsame : ∀ a ∈ as, ∀ b, R a b → g b = f a) : bs.flatMap g = as.flatMap f := by
  have hmaps := map_eq_map_of_forall₂ h fun a ha b hab => (hsame a ha b hab).symm
  rw [List.flatMap_def, List.flatMap_def, hmaps]

/-- A disjunction is written in one of three ways, and has the values of its members in each. -/
theorem params_eq_leafValues {leaf : Predicate} {condition : Condition}
    (h : ofLeaf? leaf = some condition) : condition.params = leafValues leaf := by
  induction leaf using Predicate.partsInduction generalizing condition with
  | literal value => cases value <;> cases h <;> rfl
  | present want => cases want <;> cases h <;> rfl
  | numeric comparisons => cases comparisons <;> cases h <;> rfl
  | anyOf members ih =>
      rw [leafValues, memberValues_eq_flatMap]
      rcases ofLeaf?_anyOf h with ⟨rfl, rfl⟩ | ⟨value, values, rfl, hvalues⟩ |
        ⟨first, rest, rfl, hparts⟩
      · rfl
      · rw [params, ← List.flatMap_singleton' (value :: values)]
        exact flatMap_eq_of_forall₂ hvalues fun member _ value hlisted =>
          (leafValues_of_listed? hlisted).symm
      · rw [params, paramsOfAll_eq_flatMap]
        exact flatMap_eq_of_forall₂ hparts fun member hmember condition hof =>
          ih member hmember hof
  | fields entries => cases h
  | _ =>
      cases h
      rfl

end Condition

end Conditions

section Queries

/-- What one conjunct of a query is for. -/
inductive Asked where
  /-- Any new row, when nothing is joined. -/
  | newRow
  /-- A row for a branch, in the joined copy of the index with this number. -/
  | row (n : Nat) (branch : Index.Branch)
  /-- No row for a branch. -/
  | noRow (branch : Index.Branch)

namespace Asked

/-- The text of the conjunct; a branch whose leaf has no condition has none. -/
def text? (index : String) : Asked → Option String
  | .newRow => some "(t0.ts > ?)"
  | .row n ⟨_, .present _⟩ =>
      some ("(" ++ aliasName n ++ ".ts > ? AND " ++ atOrBelow (aliasName n ++ ".path") ++ ")")
  | .row n ⟨_, leaf⟩ => (Condition.ofLeaf? leaf).map fun condition =>
      "(" ++ aliasName n ++ ".ts > ? AND " ++ aliasName n ++ ".path = ? AND "
        ++ condition.sql (aliasName n ++ ".value") ++ ")"
  | .noRow _ => some ("NOT EXISTS (SELECT 1 FROM " ++ index
      ++ " AS x WHERE x.eid = t0.eid AND " ++ atOrBelow "x.path" ++ ")")

/-- The values of the conjunct, in order. -/
def values (since : String) : Asked → List Json
  | .newRow => [.string since]
  | .row _ ⟨path, .present _⟩ =>
      [.string since, .string (Index.joinPath path), .string (Like.below (Index.joinPath path))]
  | .row _ ⟨path, leaf⟩ =>
      .string since :: .string (Index.joinPath path) :: Condition.leafValues leaf
  | .noRow branch => [.string branch.pathText, .string (Like.below branch.pathText)]

/-- A fragment has the text and the values of a conjunct. -/
def IsFragment (index since : String) (asked : Asked) (fragment : Fragment) : Prop :=
  asked.text? index = some fragment.sql ∧ asked.values since = fragment.params

end Asked

/-- The conjuncts of a query in order: one for each branch that a copy is joined for, and then one
for each branch that asks for absence. -/
def asked (branches : List Index.Branch) : List Asked :=
  let joined := branches.filter fun branch => !branch.predicate.asksAbsence
  let absent := branches.filter fun branch => branch.predicate.asksAbsence
  (if joined.isEmpty then [.newRow] else joined.mapIdx .row) ++ absent.map .noRow

variable {index since : String} {branches : List Index.Branch}

theorem isFragment_of_stands {branch : Index.Branch} {joined : Joined}
    (h : Select.Stands branch joined) (n : Nat) :
    (Asked.row n branch).IsFragment index since (joined.fragment since n) := by
  cases h with
  | present path => exact ⟨rfl, rfl⟩
  | leaf hleaf hcondition =>
      obtain ⟨path, leaf⟩ := branch
      have hvalues := Condition.params_eq_leafValues hcondition
      cases leaf with
      | present want => exact absurd rfl (hleaf want)
      | _ =>
          simp only at hcondition hvalues
          simp only [Asked.IsFragment, Asked.text?, Asked.values, Joined.fragment, hcondition,
            hvalues, Option.map_some, Index.Branch.pathText, and_self]

theorem isFragment_rows {joined : List Joined} (h : List.Forall₂ Select.Stands branches joined)
    (n : Nat) :
    List.Forall₂ (Asked.IsFragment index since)
      (branches.mapIdx fun i branch => .row (n + i) branch) (joinedFragments since n joined) := by
  induction h generalizing n with
  | nil => exact .nil
  | cons hfirst _ ih =>
      have hlater := ih (n + 1)
      simp only [Nat.add_right_comm n 1] at hlater
      rw [List.mapIdx_cons]
      exact .cons (isFragment_of_stands hfirst n) hlater

/-- The conditions of a query are the conjuncts that its branches ask for. -/
theorem isFragment_fragments {query : Select} (h : Select.ofBranches branches = .ok query) :
    List.Forall₂ (Asked.IsFragment index since) (asked branches)
      (query.fragments index since) := by
  obtain ⟨hjoined, habsent⟩ := Select.of_ofBranches_eq_ok h
  have hrows : List.Forall₂ (Asked.IsFragment index since) _ _ := isFragment_rows hjoined 0
  simp only [Nat.zero_add] at hrows
  have hnoRows : List.Forall₂ (Asked.IsFragment index since)
      ((branches.filter fun branch => branch.predicate.asksAbsence).map .noRow)
      (query.absent.map (absentFragment index)) := by
    rw [habsent, List.map_map, List.forall₂_map_left_iff, List.forall₂_map_right_iff,
      List.forall₂_same]
    exact fun branch _ => ⟨rfl, rfl⟩
  unfold asked Select.fragments
  refine List.rel_append ?_ hnoRows
  generalize branches.filter (fun branch => !branch.predicate.asksAbsence) = joins at *
  generalize query.joined = joined at *
  -- with nothing joined, the instant is asked for alone
  cases hjoined with
  | nil => exact .cons ⟨rfl, rfl⟩ .nil
  | cons => exact hrows

theorem takes_atOrBelow {column : String} (hcolumn : Takes column []) (path : String) :
    Takes (atOrBelow column) (atOrBelowParams path) := by
  have hopen : Takes "(" [] := rfl
  have hor : Takes " = ? OR " [.string path] := rfl
  have hlike : Takes " LIKE ? ESCAPE '\\')" [.string (Like.below path)] := rfl
  exact (((hopen.append hcolumn).append hor).append hcolumn).append hlike

theorem takes_joinedFragment (joined : Joined) (n : Nat) :
    Takes (joined.fragment since n).sql (joined.fragment since n).params := by
  have hopen : Takes "(" [] := rfl
  have hclose : Takes ")" [] := rfl
  have hnewer : Takes ".ts > ? AND " [.string since] := rfl
  have halias : Takes (aliasName n) [] := marks_aliasName n
  have hstart := (hopen.append halias).append hnewer
  cases joined with
  | present path =>
      have hname : marks ".path" = 0 := rfl
      have hpath := takes_atOrBelow (takes_column n hname) path
      have htakes := (hstart.append hpath).append hclose
      rw [List.append_nil] at htakes
      exact htakes
  | leaf path condition =>
      have hpath : Takes ".path = ? AND " [.string path] := rfl
      have hname : marks ".value" = 0 := rfl
      have hvalue := Condition.takes_sql (takes_column n hname) condition
      have htakes := (((hstart.append halias).append hpath).append hvalue).append hclose
      rw [List.append_nil] at htakes
      exact htakes

theorem takes_absentFragment (hindex : Takes index []) (path : String) :
    Takes (absentFragment index path).sql (absentFragment index path).params := by
  have hopen : Takes "NOT EXISTS (SELECT 1 FROM " [] := rfl
  have hwhere : Takes " AS x WHERE x.eid = t0.eid AND " [] := rfl
  have hclose : Takes ")" [] := rfl
  have hpath : Takes "x.path" [] := rfl
  have htakes := (((hopen.append hindex).append hwhere).append
    (takes_atOrBelow hpath path)).append hclose
  rw [List.append_nil] at htakes
  exact htakes

theorem takes_joinedFragments (joined : List Joined) (n : Nat) :
    ∀ part ∈ joinedFragments since n joined, Takes part.sql part.params := by
  induction joined generalizing n with
  | nil => simp [joinedFragments]
  | cons first joined ih =>
      rw [joinedFragments, List.forall_mem_cons]
      exact ⟨takes_joinedFragment first n, ih (n + 1)⟩

theorem takes_fragments (hindex : Takes index []) (query : Select) :
    ∀ part ∈ query.fragments index since, Takes part.sql part.params := by
  rw [Select.fragments, List.forall_mem_append]
  constructor
  · split
    · simp only [List.forall_mem_singleton]
      rfl
    · exact takes_joinedFragments query.joined 0
  · simp only [List.forall_mem_map]
    exact fun path _ => takes_absentFragment hindex path

/-- The lines of a query before its conditions. -/
def Select.leadingLines (query : Select) (tables : Tables) : List String :=
  ["SELECT DISTINCT t0.eid AS eid, " ++ tables.events ++ ".event AS event",
    "FROM " ++ tables.index ++ " AS t0"] ++ query.joinLines tables.index ++
    ["JOIN " ++ tables.events ++ " ON " ++ tables.events ++ ".eid = t0.eid"]

theorem Select.statement_sql (query : Select) (tables : Tables) (since : Instant) :
    (query.statement tables since).sql =
      joinWith "\n" (query.leadingLines tables) ++ "\n" ++
        ("WHERE " ++ joinWith " AND\n  "
          ((query.fragments tables.index since.text).map (·.sql))) := by
  rw [← joinWith_concat (by simp [leadingLines])]
  simp only [statement, leadingLines, List.append_assoc, List.cons_append, List.nil_append]

theorem marks_leadingLine {tables : Tables} (hevents : marks tables.events = 0)
    (hindex : marks tables.index = 0) (query : Select) :
    ∀ line ∈ query.leadingLines tables, marks line = 0 := by
  have hcopies : ∀ line ∈ query.joinLines tables.index, marks line = 0 := by
    unfold Select.joinLines
    rw [List.forall_mem_map]
    intro n _
    simp only [marks_append, hindex, marks_aliasName]
    rfl
  simp only [Select.leadingLines, List.forall_mem_append, List.forall_mem_cons]
  refine ⟨⟨⟨?_, ?_, by simp⟩, hcopies⟩, ?_, by simp⟩
  all_goals
    simp only [marks_append, hevents, hindex]
    rfl

theorem marks_leadingLines {tables : Tables} (hevents : marks tables.events = 0)
    (hindex : marks tables.index = 0) (query : Select) :
    marks (joinWith "\n" (query.leadingLines tables) ++ "\n") = 0 := by
  have hnewline : Takes "\n" [] := rfl
  have hlines := Takes.joinWith_map hnewline (fun line => ⟨line, []⟩)
    (marks_leadingLine hevents hindex query)
  have hnone : (query.leadingLines tables).flatMap (fun _ => ([] : List Json)) = [] := by simp
  simp only [List.map_id', hnone] at hlines
  exact hlines.append hnewline

theorem takes_statement {tables : Tables} (hevents : marks tables.events = 0)
    (hindex : marks tables.index = 0) (query : Select) (since : Instant) :
    Takes (query.statement tables since).sql (query.statement tables since).params := by
  have hleading : Takes (joinWith "\n" (query.leadingLines tables) ++ "\n") [] :=
    marks_leadingLines hevents hindex query
  have hwhere : Takes "WHERE " [] := rfl
  have hand : Takes " AND\n  " [] := rfl
  have hfragments : ∀ part ∈ query.fragments tables.index since.text,
      Takes part.sql part.params := takes_fragments hindex query
  have hconditions := Takes.joinWith_map hand id hfragments
  rw [Select.statement_sql]
  exact hleading.append (hwhere.append hconditions)

end Queries

section Insertions

theorem takes_indexInsert {index : String} (hindex : Takes index []) (eid ts : String)
    (rows : List Index.Row) :
    Takes ("INSERT INTO " ++ index ++ " (eid,ts,path,value) VALUES "
        ++ joinWith ", " (List.replicate rows.length "(?,?,?,?)"))
      (rows.flatMap (rowParams eid ts)) := by
  have hinsert : Takes "INSERT INTO " [] := rfl
  have hvalues : Takes " (eid,ts,path,value) VALUES " [] := rfl
  have hcomma : Takes ", " [] := rfl
  have hrow (row : Index.Row) : Takes "(?,?,?,?)" (rowParams eid ts row) := rfl
  have hrows := Takes.joinWith_map hcomma (fun row => ⟨"(?,?,?,?)", rowParams eid ts row⟩)
    fun row (_ : row ∈ rows) => hrow row
  rw [List.map_const'] at hrows
  exact ((hinsert.append hindex).append hvalues).append hrows

theorem takes_eventInsert {events : String} (hevents : Takes events []) (eid event : Json) :
    Takes ("INSERT INTO " ++ events ++ " (eid,event) VALUES (?,?)") [eid, event] := by
  have hinsert : Takes "INSERT INTO " [] := rfl
  have hvalues : Takes " (eid,event) VALUES (?,?)" [eid, event] := rfl
  exact (hinsert.append hevents).append hvalues

theorem takes_insertStatements {tables : Tables} (hevents : marks tables.events = 0)
    (hindex : marks tables.index = 0) (ts : Instant) (eid : String) (event : Json) :
    ∀ statement ∈ insertStatements tables ts eid event,
      Takes statement.sql statement.params := by
  have hevent := takes_eventInsert hevents (.string eid) (.string event.text)
  unfold insertStatements
  simp only
  split
  · simpa only [List.forall_mem_singleton] using hevent
  · simp only [List.forall_mem_cons]
    exact ⟨takes_indexInsert hindex eid ts.text _, hevent, by simp⟩

end Insertions

/-- Values meet their places. With table names that hold no question mark, every statement has as
many question marks as values. Cut at the question marks of each condition of its text, the values
of a query are those that each branch asks for: the instant, the path and what lies below it or
what its leaf holds for the branches that are joined, and after these the path and what lies below
it for each branch that asks for absence. -/
theorem placeholders_meet_values {tables : Tables} (hevents : '?' ∉ tables.events.toList)
    (hindex : '?' ∉ tables.index.toList) :
    (∀ since predicate statement, compilePredicate tables since predicate = .ok statement →
      marks statement.sql = statement.params.length ∧
        ∃ before conjuncts, marks before = 0 ∧
          statement.sql = before ++ ("WHERE " ++ joinWith " AND\n  " conjuncts) ∧
          conjuncts.map some = (asked (Index.branches predicate)).map (·.text? tables.index) ∧
          (conjuncts.map marks).splitLengths statement.params =
            (asked (Index.branches predicate)).map (·.values since.text)) ∧
    ∀ ts eid event, ∀ statement ∈ insertStatements tables ts eid event,
      marks statement.sql = statement.params.length := by
  have hevents : marks tables.events = 0 := List.count_eq_zero.mpr hevents
  have hindex : marks tables.index = 0 := List.count_eq_zero.mpr hindex
  refine ⟨?_, fun ts eid event => takes_insertStatements hevents hindex ts eid event⟩
  intro since predicate statement hcompile
  obtain ⟨query, hquery, rfl⟩ := Pattern.map_eq_ok_iff.mp hcompile
  have hfragments : List.Forall₂ (Asked.IsFragment tables.index since.text) _ _ :=
    isFragment_fragments hquery
  refine ⟨takes_statement hevents hindex query since, _, _,
    marks_leadingLines hevents hindex query, query.statement_sql tables since, ?_, ?_⟩
  · rw [List.map_map]
    exact (map_eq_map_of_forall₂ hfragments fun _ _ _ h => h.1).symm
  · rw [Select.statement, splitLengths_params (takes_fragments hindex query)]
    exact (map_eq_map_of_forall₂ hfragments fun _ _ _ h => h.2).symm

section Sample

def sampleBranches : Predicate := .fields [
  ("a", .anyOf [.literal (.number (.int 1)), .anyOf [.startsWith "x", .literal .null]]),
  ("b", .present false), ("c", .present true),
  ("d", .numeric [⟨.less, .ofInt 5⟩, ⟨.atLeast, .ofInt 1⟩]),
  ("e", .anyOf [.literal (.string "u"), .literal (.string "?")])]

/-- Five branches of all kinds. The one that asks for absence is the second, and its values come
last; a question mark among the values is no place for one. -/
theorem values_cut_by_branch :
    let tables : Tables := ⟨"events", "fields"⟩
    let since : Instant := ⟨0, 0⟩
    ∃ statement before conjuncts,
      compilePredicate tables since sampleBranches = .ok statement ∧
      marks statement.sql = 17 ∧ statement.params.length = 17 ∧
      statement.sql = before ++ ("WHERE " ++ joinWith " AND\n  " conjuncts) ∧
      (conjuncts.map marks).splitLengths statement.params =
        [[.string since.text, .string "a", .number (.int 1), .string "x%"],
          [.string since.text, .string "c", .string "c/%"],
          [.string since.text, .string "d", .number (.float (.ofInt 5)),
            .number (.float (.ofInt 1))],
          [.string since.text, .string "e", .string "u", .string "?"],
          [.string "b", .string "b/%"]] := by
  intro tables since
  have hevents : '?' ∉ tables.events.toList := by decide
  have hindex : '?' ∉ tables.index.toList := by decide
  obtain ⟨hqueries, -⟩ := placeholders_meet_values hevents hindex
  obtain ⟨statement, hcompile⟩ :
      ∃ statement, compilePredicate tables since sampleBranches = .ok statement := ⟨_, rfl⟩
  obtain ⟨hmarks, before, conjuncts, -, hsql, -, hcut⟩ :=
    hqueries since sampleBranches statement hcompile
  have hlength : statement.params.length = 17 := by
    cases hcompile
    rfl
  exact ⟨statement, before, conjuncts, hcompile, hmarks.trans hlength, hlength, hsql, hcut⟩

end Sample

end EventBus.Sql
