import EventBus.Proofs.Pattern.PredicateTree
import EventBus.Proofs.Relational.Reader
import EventBus.Proofs.Sql.Branches
import Mathlib.Data.List.Forall2

/-!
What the text of a query is read as. The query of branches joins copies of the index table under
names of their own to the events table, and its filter holds one group of tests for each joined
copy and one test of absence for each absent path. The text reads as exactly that, with every
parameter where the query has it, whatever the texts and numbers of the pattern.
-/

namespace EventBus.Relational

open Sql (Fragment)

/-- A piece of text is read with its own parameters. -/
def ReadsPart (part : Fragment) (ts : List Token) : Prop := Reads part.sql part.params ts

theorem Reads.joinWith {separator : String} {between : List Token}
    (hseparator : Joint separator [] between) {parts : List Fragment} {tokens : List (List Token)}
    (h : List.Forall₂ ReadsPart parts tokens) :
    Reads (Sql.joinWith separator (parts.map (·.sql))) (parts.flatMap (·.params))
      (separated between tokens) := by
  induction h with
  | nil => exact ⟨[], .between, rfl, rfl, rfl⟩
  | @cons part ts parts tokens hpart hrest ih =>
      cases hrest with
      | nil => simpa [Sql.joinWith, separated, ReadsPart] using hpart
      | cons hnext hlater =>
          have hjoined := hpart.joined hseparator ih
          rw [← String.append_assoc] at hjoined
          exact hjoined

theorem Reads.joinWith_map {separator : String} {between : List Token}
    (hseparator : Joint separator [] between) {α : Type} {items : List α} (part : α → Fragment)
    (tokens : α → List Token)
    (h : ∀ item ∈ items, ReadsPart (part item) (tokens item)) :
    Reads (Sql.joinWith separator (items.map fun item => (part item).sql))
      (items.flatMap fun item => (part item).params) (separated between (items.map tokens)) := by
  have hall : List.Forall₂ ReadsPart (items.map part) (items.map tokens) := by
    rw [List.forall₂_map_left_iff, List.forall₂_map_right_iff, List.forall₂_same]
    exact h
  have hjoined := Reads.joinWith hseparator hall
  rw [List.map_map, List.flatMap_map] at hjoined
  exact hjoined

theorem Reads.inParens {text : String} {params : List Json} {ts : List Token}
    (h : Reads text params ts) : Reads ("(" ++ text ++ ")") params (inParens ts) := by
  have hopen : Closed "(" [] [.openParen] := ⟨_, rfl, rfl⟩
  have hclose : Reads ")" [] [.closeParen] := ⟨_, _, rfl, rfl, rfl⟩
  have hread := Reads.append_closed hopen (h.append hclose rfl)
  rw [← String.append_assoc, List.append_nil] at hread
  exact hread

/-- A text that is one name on its own is so within other text. -/
theorem Reads.of_lex_name {text name : String} (h : lex text = [.name name]) :
    Reads text [] [.name name] := by
  refine ⟨_, _, rfl, ?_, congrArg (bind? · []) h⟩
  rw [lex] at h
  cases hmode : (scan .between text.toList).2 with
  | quoted cs =>
      rw [hmode, Mode.close] at h
      obtain ⟨-, hlast⟩ := List.append_inj' (h.trans (List.nil_append _).symm) rfl
      cases hlast
  | _ => rfl

end EventBus.Relational

namespace EventBus.Sql

open Relational (Reads ReadsPart Token Keyword Operand Atom Check Source Join Column scan lex bind?
  separated inParens StartsApart Joint Closed)

section Names

theorem aliasName_toList (n : Nat) : (aliasName n).toList = 't' :: Nat.toDigits 10 n := by
  rw [aliasName, String.toList_append]
  exact congrArg (List.cons 't') String.toList_ofList

theorem aliasName_inj {m n : Nat} : aliasName m = aliasName n ↔ m = n := by
  constructor
  · intro h
    have hlists := congrArg String.toList h
    rw [aliasName_toList, aliasName_toList] at hlists
    have hvalue := congrArg (Nat.ofDigitChars 10 · 0) (List.cons.inj hlists).2
    simpa [Nat.ofDigitChars_toDigits] using hvalue
  · rintro rfl
    rfl

/-- No keyword has a digit as its second character. -/
theorem ofWord?_digit_second {c d : Char} {cs : List Char} (hd : d.isDigit = true) :
    Keyword.ofWord? (String.ofList (c :: d :: cs)) = none := by
  have hwords : ∀ keyword : Keyword, (keyword.word.toList[1]?).any Char.isDigit = false := by
    intro keyword
    cases keyword <;> rfl
  rw [Keyword.ofWord?, List.find?_eq_none]
  intro keyword _ hword
  have hkeyword := hwords keyword
  rw [beq_iff_eq.mp hword, String.toList_ofList] at hkeyword
  simp [hd] at hkeyword

theorem toLower_of_isDigit {c : Char} (h : c.isDigit = true) : c.toLower = c := by
  simp only [Char.isDigit, Bool.and_eq_true, decide_eq_true_eq] at h
  unfold Char.toLower
  split
  · next hupper => exact absurd (UInt32.le_trans hupper.1 h.2) (by decide)
  · rfl

theorem reads_aliasName (n : Nat) : Reads (aliasName n) [] [.name (aliasName n)] := by
  have hdigit : ∀ c ∈ Nat.toDigits 10 n, c.isDigit = true := fun c hc =>
    Nat.isDigit_of_mem_toDigits (by decide) (by decide) hc
  have hword : ∀ c ∈ 't' :: Nat.toDigits 10 n, Relational.isWordChar c = true := by
    intro c hc
    rcases List.mem_cons.mp hc with rfl | hc
    · rfl
    · simp [Relational.isWordChar, Char.isAlphanum, hdigit c hc]
  have hlower : ('t' :: Nat.toDigits 10 n).map Char.toLower = 't' :: Nat.toDigits 10 n := by
    rw [List.map_cons, List.map_congr_left fun c hc => toLower_of_isDigit (hdigit c hc),
      List.map_id']
    rfl
  have hsome : Nat.toDigits 10 n ≠ [] := Nat.toDigits_ne_nil
  obtain ⟨d, ds, hdigits⟩ := List.exists_cons_of_ne_nil hsome
  have htoken : Relational.wordToken ('t' :: Nat.toDigits 10 n) = .name (aliasName n) := by
    have hnone : Keyword.ofWord? (String.ofList ('t' :: d :: ds)) = none :=
      ofWord?_digit_second (hdigit d (by simp [hdigits]))
    rw [← hdigits, ← aliasName_toList, String.ofList_toList] at hnone
    rw [Relational.wordToken, ← aliasName_toList, String.ofList_toList, hnone]
    rfl
  have hread := Reads.word rfl hword
  rw [hlower, htoken, ← aliasName_toList, String.ofList_toList] at hread
  exact hread

end Names

section Conditions

/-- A test of two whole numbers, which stands for a truth. -/
def equalNumbers (a b : Nat) : Atom := .test (.number a) (.compare .equal (.number b))

namespace Condition

def comparisonAtom (column : Operand) (comparison : Comparison) : Atom :=
  .test column (.compare comparison.relation (.value (thresholdParam comparison.threshold)))

mutual

/-- The tests that a condition is written as. Of lists and disjunctions only those with members
are written. -/
def tree (column : Operand) : Condition → Relational.Condition
  | .always => .last (equalNumbers 1 1)
  | .never => .last (equalNumbers 1 0)
  | .isNull => .last (.test column .isNull)
  | .isNotNull => .last (.test column .isNotNull)
  | .equals value => .last (.test column (.compare .equal (.value value)))
  | .like pattern => .last (.test column (.like (.value (.string pattern)) '\\'))
  | .compares first rest =>
      .all (comparisonAtom column first) (rest.map (comparisonAtom column))
  | .isIn [] => .last (equalNumbers 1 0)
  | .isIn (value :: values) => .last (.isIn column value values)
  | .any [] => .last (equalNumbers 1 0)
  | .any (condition :: conditions) =>
      .last (.group (.any (.group (tree column condition)) (groups column conditions)))

def groups (column : Operand) : List Condition → List Atom
  | [] => []
  | condition :: conditions => .group (tree column condition) :: groups column conditions

end

theorem groups_eq_map (column : Operand) (conditions : List Condition) :
    groups column conditions = conditions.map fun condition => .group (tree column condition) := by
  induction conditions with
  | nil => rfl
  | cons condition conditions ih => rw [groups, ih, List.map_cons]

theorem sqlParts_eq_map (column : String) (conditions : List Condition) :
    sqlParts column conditions =
      conditions.map fun condition => "(" ++ sql column condition ++ ")" := by
  induction conditions with
  | nil => rfl
  | cons condition conditions ih => rw [sqlParts, ih, List.map_cons]

theorem paramsOfAll_eq_flatMap (conditions : List Condition) :
    paramsOfAll conditions = conditions.flatMap params := by
  induction conditions with
  | nil => rfl
  | cons condition conditions ih => rw [paramsOfAll, ih, List.flatMap_cons]

theorem reads_mark (value : Json) : Reads "?" [value] [.value value] := ⟨_, _, rfl, rfl, rfl⟩

theorem reads_placeholders (values : List Json) :
    Reads (placeholders values.length) values (Relational.valuesTokens values) := by
  have hcomma : Joint "," [] [.comma] := ⟨rfl, _, rfl, rfl⟩
  have hmarks := Reads.joinWith_map hcomma (fun value => ⟨"?", [value]⟩)
    (fun value => [.value value]) fun value (_ : value ∈ values) => reads_mark value
  rw [List.flatMap_singleton', List.map_const'] at hmarks
  exact hmarks

theorem reads_comparisonSql {column : String} {operand : Operand}
    (hcolumn : Reads column [] operand.tokens) (comparison : Comparison) :
    Reads (comparisonSql column comparison) [thresholdParam comparison.threshold]
      (comparisonAtom operand comparison).tokens := by
  obtain ⟨relation, threshold⟩ := comparison
  have hcheck : Reads (" " ++ (relation.sign ++ " ?")) [thresholdParam threshold]
      [.relation relation, .value (thresholdParam threshold)] := by
    cases relation <;> exact ⟨_, _, rfl, rfl, rfl⟩
  have hapart : StartsApart " " := rfl
  have hread := hcolumn.append hcheck (hapart.append _)
  simp only [comparisonSql, String.append_assoc]
  exact hread

variable {column : String} {operand : Operand}

theorem reads_compares (hcolumn : Reads column [] operand.tokens) (first : Comparison)
    (rest : List Comparison) :
    Reads (sql column (.compares first rest)) (Condition.compares first rest).params
      (tree operand (.compares first rest)).tokens := by
  have hand : Joint " AND " [] [.keyword .and] := ⟨rfl, _, rfl, rfl⟩
  have hjoined := Reads.joinWith_map hand
    (fun comparison => ⟨comparisonSql column comparison, [thresholdParam comparison.threshold]⟩)
    (fun comparison => (comparisonAtom operand comparison).tokens)
    fun comparison (_ : comparison ∈ first :: rest) => reads_comparisonSql hcolumn comparison
  rw [← List.map_eq_flatMap] at hjoined
  rw [sql, params, tree, Relational.Condition.tokens_all, ← List.map_cons, List.map_map]
  exact hjoined

theorem reads_isIn (hcolumn : Reads column [] operand.tokens) (value : Json)
    (values : List Json) :
    Reads (sql column (.isIn (value :: values))) (Condition.isIn (value :: values)).params
      (tree operand (.isIn (value :: values))).tokens := by
  have hin : Joint " IN (" [] [.keyword .in, .openParen] := ⟨rfl, _, rfl, rfl⟩
  have hclose : Reads ")" [] [.closeParen] := ⟨_, _, rfl, rfl, rfl⟩
  have hread := hcolumn.joined hin ((reads_placeholders (value :: values)).append hclose rfl)
  rw [List.append_nil] at hread
  simp only [sql, params, tree, String.append_assoc]
  exact hread

theorem reads_any (first : Condition) (rest : List Condition)
    (h : ∀ condition ∈ first :: rest,
      Reads (sql column condition) condition.params (tree operand condition).tokens) :
    Reads (sql column (.any (first :: rest))) (Condition.any (first :: rest)).params
      (tree operand (.any (first :: rest))).tokens := by
  have hor : Joint " OR " [] [.keyword .or] := ⟨rfl, _, rfl, rfl⟩
  have hjoined := Reads.joinWith_map hor
    (fun condition => ⟨"(" ++ sql column condition ++ ")", condition.params⟩)
    (fun condition => inParens (tree operand condition).tokens)
    fun condition hcondition => (h condition hcondition).inParens
  rw [← sqlParts_eq_map, ← paramsOfAll_eq_flatMap] at hjoined
  have hread := hjoined.inParens
  rw [sql, params, tree, Relational.Condition.tokens, Atom.tokens, Relational.Condition.tokens_any,
    groups_eq_map]
  have htokens : (.group (tree operand first) :: rest.map fun condition =>
      Atom.group (tree operand condition)).map Atom.tokens =
        (first :: rest).map fun condition => inParens (tree operand condition).tokens := by
    simp [Atom.tokens]
  rw [htokens]
  exact hread

/-- The condition of a leaf, about a column that is read as an operand, is read as its tree. -/
theorem reads_ofLeaf? (hcolumn : Reads column [] operand.tokens) {leaf : Predicate}
    {condition : Condition} (h : ofLeaf? leaf = some condition) :
    Reads (sql column condition) condition.params (tree operand condition).tokens := by
  have hfixed : ∀ {text : String} {params : List Json} {ts : List Token},
      Reads text params ts → StartsApart text →
        Reads (column ++ text) params (operand.tokens ++ ts) :=
    fun htext hapart => hcolumn.append htext hapart
  induction leaf using Predicate.partsInduction generalizing condition with
  | pass =>
      cases h
      simp only [sql, params, tree]
      exact ⟨_, _, rfl, rfl, rfl⟩
  | literal value =>
      cases value <;> cases h <;> simp only [sql, params, tree] <;>
        exact hfixed ⟨_, _, rfl, rfl, rfl⟩ rfl
  | startsWith start =>
      cases h
      simp only [sql, params, tree]
      exact hfixed ⟨_, _, rfl, rfl, rfl⟩ rfl
  | present want =>
      cases want <;> cases h <;> simp only [sql, params, tree] <;> exact ⟨_, _, rfl, rfl, rfl⟩
  | numeric comparisons =>
      cases comparisons with
      | nil =>
          cases h
          simp only [sql, params, tree]
          exact hfixed ⟨_, _, rfl, rfl, rfl⟩ rfl
      | cons first rest =>
          cases h
          exact reads_compares hcolumn first rest
  | anyOf members ih =>
      rcases ofLeaf?_anyOf h with ⟨-, rfl⟩ | ⟨value, values, rfl, -⟩ | ⟨first, rest, rfl, hparts⟩
      · simp only [sql, params, tree]
        exact ⟨_, _, rfl, rfl, rfl⟩
      · exact reads_isIn hcolumn value values
      · refine reads_any first rest fun condition hcondition => ?_
        obtain ⟨member, hmember, hof⟩ := exists_of_forall₂ hparts hcondition
        exact ih member hmember hof
  | fields entries => simp [ofLeaf?] at h

end Condition

end Conditions

section Queries

/-- The tables have different names to SQL. -/
structure Tables.Named (tables : Tables) (events index : String) : Prop where
  events_lex : lex tables.events = [.name events]
  index_lex : lex tables.index = [.name index]
  distinct : events ≠ index

/-- A column of a joined copy of the index. -/
def copyColumn (n : Nat) (name : String) : Operand := .column (aliasName n) name

def newerAtom (since : String) (n : Nat) : Atom :=
  .test (copyColumn n "ts") (.compare .greater (.value (.string since)))

/-- The tests of a path condition that also holds below the path. -/
def atOrBelowAtom (column : Operand) (path : String) : Atom :=
  .group (.any (.test column (.compare .equal (.value (.string path))))
    [.test column (.like (.value (.string (Like.below path))) '\\')])

def Joined.atom (since : String) (n : Nat) : Joined → Atom
  | .present path =>
      .group (.all (newerAtom since n) [atOrBelowAtom (copyColumn n "path") path])
  | .leaf path condition =>
      .group (.and (newerAtom since n)
        (.and (.test (copyColumn n "path") (.compare .equal (.value (.string path))))
          (condition.tree (copyColumn n "value"))))

def joinedAtoms (since : String) : Nat → List Joined → List Atom
  | _, [] => []
  | n, joined :: rest => joined.atom since n :: joinedAtoms since (n + 1) rest

/-- The test that two names stand for records of one event. -/
def sameEvent (name other : String) : Atom :=
  .test (.column name "eid") (.compare .equal (.column other "eid"))

def absentAtom (index path : String) : Atom :=
  .notExists index "x" (.all (sameEvent "x" (aliasName 0))
    [atOrBelowAtom (.column "x" "path") path])

namespace Select

def atoms (query : Select) (index since : String) : List Atom :=
  (if query.joined.isEmpty then [.group (.last (newerAtom since 0))]
    else joinedAtoms since 0 query.joined) ++ query.absent.map (absentAtom index)

def copyJoin (index : String) (n : Nat) : Join :=
  ⟨⟨index, some (aliasName n)⟩, .last (sameEvent (aliasName n) (aliasName 0))⟩

def eventsJoin (events : String) : Join :=
  ⟨⟨events, none⟩, .last (sameEvent events (aliasName 0))⟩

def firstCopy (index : String) : Source := ⟨index, some (aliasName 0)⟩

def columns (events : String) : List Column :=
  [⟨aliasName 0, "eid", "eid"⟩, ⟨events, "event", "event"⟩]

/-- The query that the statement of a selection is read as. -/
def tree (query : Select) (events index since : String) : Relational.Query where
  columns := columns events
  first := firstCopy index
  joins := (List.range' 1 (query.joined.length - 1)).map (copyJoin index) ++ [eventsJoin events]
  filter := .allOf (query.atoms index since)

end Select

section Parts

variable {since : String}

theorem reads_copyColumn (n : Nat) {name text : String} (hname : Reads text [] [.dot, .name name])
    (hapart : StartsApart text) : Reads (aliasName n ++ text) [] (copyColumn n name).tokens :=
  (reads_aliasName n).append hname hapart

theorem reads_atOrBelow {column : String} {operand : Operand}
    (hcolumn : Reads column [] operand.tokens) (path : String) :
    Reads (atOrBelow column) (atOrBelowParams path) (atOrBelowAtom operand path).tokens := by
  have hor : Joint " = ? OR " [.string path]
      [.relation .equal, .value (.string path), .keyword .or] := ⟨rfl, _, rfl, rfl⟩
  have hlike : Reads " LIKE ? ESCAPE '\\'" [.string (Like.below path)]
      [.keyword .like, .value (.string (Like.below path)), .keyword .escape, .text ['\\']] :=
    ⟨_, _, rfl, rfl, rfl⟩
  refine (hcolumn.joined hor (hcolumn.append hlike rfl)).inParens.of_eq ?_ rfl ?_
  · simp only [atOrBelow, String.append_assoc]
    rfl
  · simp [atOrBelowAtom, Atom.tokens, Relational.Condition.any, Relational.Condition.tokens,
      Check.tokens, Operand.tokens]

theorem reads_fragment (n : Nat) {branch : Index.Branch} {joined : Joined}
    (hstands : Select.Stands branch joined) :
    ReadsPart (joined.fragment since n) (joined.atom since n).tokens := by
  have hnewer : Joint ".ts > ? AND " [.string since]
      [.dot, .name "ts", .relation .greater, .value (.string since), .keyword .and] :=
    ⟨rfl, _, rfl, rfl⟩
  have halias := reads_aliasName n
  cases hstands with
  | present path =>
      have hpath : Reads (aliasName n ++ ".path") [] (copyColumn n "path").tokens :=
        reads_copyColumn n ⟨_, _, rfl, rfl, rfl⟩ rfl
      refine (halias.joined hnewer (reads_atOrBelow hpath _)).inParens.of_eq ?_ rfl ?_
      · simp only [Joined.fragment, String.append_assoc]
      · simp [Joined.atom, newerAtom, copyColumn, Atom.tokens, Relational.Condition.all,
          Relational.Condition.tokens, Operand.tokens, Check.tokens]
  | @leaf _ condition _ hcondition =>
      have hvalue : Reads (aliasName n ++ ".value") [] (copyColumn n "value").tokens :=
        reads_copyColumn n ⟨_, _, rfl, rfl, rfl⟩ rfl
      have hpath : Joint ".path = ? AND " [.string branch.pathText]
          [.dot, .name "path", .relation .equal, .value (.string branch.pathText),
            .keyword .and] := ⟨rfl, _, rfl, rfl⟩
      have hrest := halias.joined hpath (Condition.reads_ofLeaf? hvalue hcondition)
      refine (halias.joined hnewer hrest).inParens.of_eq ?_ rfl ?_
      · simp only [Joined.fragment, String.append_assoc]
      · simp [Joined.atom, newerAtom, copyColumn, Atom.tokens, Relational.Condition.tokens,
          Operand.tokens, Check.tokens]

theorem reads_absentFragment {index indexText : String}
    (hindex : Reads indexText [] [.name index]) (path : String) :
    ReadsPart (absentFragment indexText path) (absentAtom index path).tokens := by
  have hopen : Closed "NOT EXISTS (SELECT 1 FROM " []
      [.keyword .not, .keyword .exists, .openParen, .keyword .select, .number 1,
        .keyword .from] := ⟨_, rfl, rfl⟩
  have hwhere : Joint " AS x WHERE x.eid = t0.eid AND " []
      [.keyword .as, .name "x", .keyword .where, .name "x", .dot, .name "eid", .relation .equal,
        .name (aliasName 0), .dot, .name "eid", .keyword .and] := ⟨rfl, _, rfl, rfl⟩
  have hclose : Reads ")" [] [.closeParen] := ⟨_, _, rfl, rfl, rfl⟩
  have hpath : Reads "x.path" [] (Operand.column "x" "path").tokens := ⟨_, _, rfl, rfl, rfl⟩
  have hrest := (reads_atOrBelow hpath path).append hclose rfl
  refine (Reads.append_closed hopen (hindex.joined hwhere hrest)).of_eq ?_ ?_ ?_
  · unfold absentFragment
    simp only [String.append_assoc]
  · exact List.append_nil _
  · simp [absentAtom, sameEvent, Atom.tokens, Relational.Condition.all,
      Relational.Condition.tokens, Operand.tokens, Check.tokens, inParens]

theorem forall₂_joinedFragments {branches : List Index.Branch} {joined : List Joined}
    (h : List.Forall₂ Select.Stands branches joined) (n : Nat) :
    List.Forall₂ ReadsPart
      (joinedFragments since n joined) ((joinedAtoms since n joined).map Atom.tokens) := by
  induction h generalizing n with
  | nil => exact .nil
  | cons hfirst _ ih => exact .cons (reads_fragment n hfirst) (ih (n + 1))

end Parts

namespace Select

variable {tables : Tables} {events index : String} {branches : List Index.Branch} {query : Select}

theorem atoms_ne_nil (index since : String) : query.atoms index since ≠ [] := by
  cases hjoined : query.joined <;> simp [atoms, hjoined, joinedAtoms]

theorem forall₂_fragments (named : tables.Named events index)
    (hjoined : List.Forall₂ Stands branches query.joined) (since : String) :
    List.Forall₂ ReadsPart
      (query.fragments tables.index since) ((query.atoms index since).map Atom.tokens) := by
  have hindex := Reads.of_lex_name named.index_lex
  have habsent : List.Forall₂ ReadsPart
      (query.absent.map (absentFragment tables.index))
      ((query.absent.map (absentAtom index)).map Atom.tokens) := by
    rw [List.map_map, List.forall₂_map_left_iff, List.forall₂_map_right_iff, List.forall₂_same]
    exact fun path _ => reads_absentFragment hindex path
  have hbare : Reads "(t0.ts > ?)" [.string since]
      (Atom.group (.last (newerAtom since 0))).tokens := ⟨_, _, rfl, rfl, rfl⟩
  rw [fragments, atoms, List.map_append]
  refine List.rel_append ?_ habsent
  split
  · exact .cons hbare .nil
  · exact forall₂_joinedFragments hjoined 0

theorem reads_copyJoin (named : tables.Named events index) (n : Nat) :
    Reads ("JOIN " ++ tables.index ++ " AS " ++ aliasName n ++ " ON " ++ aliasName n
      ++ ".eid = t0.eid") [] (copyJoin index n).tokens := by
  have hjoin : Closed "JOIN " [] [.keyword .join] := ⟨_, rfl, rfl⟩
  have has : Joint " AS " [] [.keyword .as] := ⟨rfl, _, rfl, rfl⟩
  have hon : Joint " ON " [] [.keyword .on] := ⟨rfl, _, rfl, rfl⟩
  have hend : Reads ".eid = t0.eid" [] [.dot, .name "eid", .relation .equal,
      .name (aliasName 0), .dot, .name "eid"] := ⟨_, _, rfl, rfl, rfl⟩
  have halias := reads_aliasName n
  refine (Reads.append_closed hjoin ((Reads.of_lex_name named.index_lex).joined has
    (halias.joined hon (halias.append hend rfl)))).of_eq ?_ rfl ?_
  · simp only [String.append_assoc]
  · simp [copyJoin, Join.tokens, Source.tokens, sameEvent, Relational.Condition.tokens, Atom.tokens,
      Operand.tokens, Check.tokens]

theorem reads_eventsJoin (named : tables.Named events index) :
    Reads ("JOIN " ++ tables.events ++ " ON " ++ tables.events ++ ".eid = t0.eid") []
      (eventsJoin events).tokens := by
  have hjoin : Closed "JOIN " [] [.keyword .join] := ⟨_, rfl, rfl⟩
  have hon : Joint " ON " [] [.keyword .on] := ⟨rfl, _, rfl, rfl⟩
  have hend : Reads ".eid = t0.eid" [] [.dot, .name "eid", .relation .equal,
      .name (aliasName 0), .dot, .name "eid"] := ⟨_, _, rfl, rfl, rfl⟩
  have hevents := Reads.of_lex_name named.events_lex
  refine (Reads.append_closed hjoin (hevents.joined hon (hevents.append hend rfl))).of_eq ?_ rfl ?_
  · simp only [String.append_assoc]
  · simp [eventsJoin, Join.tokens, Source.tokens, sameEvent, Relational.Condition.tokens,
      Atom.tokens, Operand.tokens, Check.tokens]

theorem reads_columns (named : tables.Named events index) :
    Reads ("SELECT DISTINCT t0.eid AS eid, " ++ tables.events ++ ".event AS event") []
      ([.keyword .select, .keyword .distinct] ++
        separated [.comma] ((columns events).map Column.tokens)) := by
  have hopen : Closed "SELECT DISTINCT t0.eid AS eid, " []
      [.keyword .select, .keyword .distinct, .name (aliasName 0), .dot, .name "eid",
        .keyword .as, .name "eid", .comma] := ⟨_, rfl, rfl⟩
  have hend : Reads ".event AS event" [] [.dot, .name "event", .keyword .as, .name "event"] :=
    ⟨_, _, rfl, rfl, rfl⟩
  refine (Reads.append_closed hopen
    ((Reads.of_lex_name named.events_lex).append hend rfl)).of_eq ?_ rfl ?_
  · simp only [String.append_assoc]
  · simp [columns, separated, Column.tokens]

theorem reads_from (named : tables.Named events index) :
    Reads ("FROM " ++ tables.index ++ " AS t0") []
      (.keyword .from :: (firstCopy index).tokens) := by
  have hfrom : Closed "FROM " [] [.keyword .from] := ⟨_, rfl, rfl⟩
  have hend : Reads " AS t0" [] [.keyword .as, .name (aliasName 0)] := ⟨_, _, rfl, rfl, rfl⟩
  refine (Reads.append_closed hfrom
    ((Reads.of_lex_name named.index_lex).append hend rfl)).of_eq ?_ rfl rfl
  simp only [String.append_assoc]

theorem reads_where (named : tables.Named events index)
    (hjoined : List.Forall₂ Stands branches query.joined) (since : String) :
    Reads ("WHERE " ++ joinWith " AND\n  " ((query.fragments tables.index since).map (·.sql)))
      ((query.fragments tables.index since).flatMap (·.params))
      (.keyword .where :: (query.tree events index since).filter.tokens) := by
  have hwhere : Closed "WHERE " [] [.keyword .where] := ⟨_, rfl, rfl⟩
  have hand : Joint " AND\n  " [] [.keyword .and] := ⟨rfl, _, rfl, rfl⟩
  have hall := Reads.joinWith hand (forall₂_fragments named hjoined since)
  refine (Reads.append_closed hwhere hall).of_eq rfl rfl ?_
  obtain ⟨first, rest, hatoms⟩ := List.exists_cons_of_ne_nil (query.atoms_ne_nil index since)
  rw [tree, hatoms, Relational.Condition.allOf, Relational.Condition.tokens_all]
  rfl

/-- The whole statement is read as the query, line by line. -/
theorem reads_statement (named : tables.Named events index)
    (hjoined : List.Forall₂ Stands branches query.joined) (since : Instant) :
    Reads (query.statement tables since).sql (query.statement tables since).params
      (query.tree events index since.text).tokens := by
  have hline : Joint "\n" [] [] := ⟨rfl, _, rfl, rfl⟩
  have hcopies : List.Forall₂ ReadsPart
      ((query.joinLines tables.index).map fun line => ⟨line, []⟩)
      ((List.range' 1 (query.joined.length - 1)).map fun n => (copyJoin index n).tokens) := by
    rw [joinLines, List.map_map, List.forall₂_map_left_iff, List.forall₂_map_right_iff,
      List.forall₂_same]
    exact fun n _ => reads_copyJoin named n
  have hhead : List.Forall₂ ReadsPart
      [⟨"SELECT DISTINCT t0.eid AS eid, " ++ tables.events ++ ".event AS event", []⟩,
        ⟨"FROM " ++ tables.index ++ " AS t0", []⟩]
      [[.keyword .select, .keyword .distinct] ++
          separated [.comma] ((columns events).map Column.tokens),
        .keyword .from :: (firstCopy index).tokens] :=
    .cons (reads_columns named) (.cons (reads_from named) .nil)
  have htail : List.Forall₂ ReadsPart
      [⟨"JOIN " ++ tables.events ++ " ON " ++ tables.events ++ ".eid = t0.eid", []⟩,
        ⟨"WHERE " ++ joinWith " AND\n  "
            ((query.fragments tables.index since.text).map (·.sql)),
          (query.fragments tables.index since.text).flatMap (·.params)⟩]
      [(eventsJoin events).tokens,
        .keyword .where :: (query.tree events index since.text).filter.tokens] :=
    .cons (reads_eventsJoin named) (.cons (reads_where named hjoined since.text) .nil)
  have hlines := Reads.joinWith hline (List.rel_append (List.rel_append hhead hcopies) htail)
  refine hlines.of_eq ?_ ?_ ?_
  · simp only [statement, List.map_append, List.map_cons, List.map_nil, List.map_map,
      Function.comp_def, List.map_id']
  · simp [statement]
  · rw [Relational.separated_nil]
    simp [Relational.Query.tokens, tree, List.flatMap_def, List.map_map, Function.comp_def]

/-- Reading the statement of a query gives the query. -/
theorem read?_statement (named : tables.Named events index)
    (hjoined : List.Forall₂ Stands branches query.joined) (since : Instant) :
    Relational.Query.read? (query.statement tables since) =
      some (query.tree events index since.text) :=
  Relational.Query.read?_of_reads (reads_statement named hjoined since) (by simp [tree, columns])

end Select

end Queries

end EventBus.Sql
