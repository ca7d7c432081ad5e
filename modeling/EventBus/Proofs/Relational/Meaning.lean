import EventBus.Proofs.Json.Equality
import EventBus.Proofs.Relational.Reader
import EventBus.Proofs.Sql.LikeMeaning
import Mathlib.Data.List.Dedup

/-!
What statements mean over tables. A truth is true, false or unknown, and a row is selected when
its condition is true. A query takes every choice of one record from each of its tables for which
the conditions of the joins and the filter are true, and answers with the columns of those, none
twice. How values of the column that holds what was stored compare is left open: it is given from
outside, for each record and each comparison.
-/

namespace EventBus.Relational

/-- True, false, or unknown when none. -/
abbrev Truth := Option Bool

namespace Truth

def and : Truth → Truth → Truth
  | some false, _ => some false
  | _, some false => some false
  | some true, some true => some true
  | _, _ => none

def or : Truth → Truth → Truth
  | some true, _ => some true
  | _, some true => some true
  | some false, some false => some false
  | _, _ => none

theorem and_eq_true {a b : Truth} : a.and b = some true ↔ a = some true ∧ b = some true := by
  rcases a with _ | _ | _ <;> rcases b with _ | _ | _ <;> decide

theorem or_eq_true {a b : Truth} : a.or b = some true ↔ a = some true ∨ b = some true := by
  rcases a with _ | _ | _ <;> rcases b with _ | _ | _ <;> decide

end Truth

/-- Values by the names of their columns. -/
abbrev Record := List (String × Json)

def Record.value (record : Record) (name : String) : Json := (record.lookup name).getD .null

structure Table where
  name : String
  columns : List ColumnKind
  records : List Record

abbrev Database := List Table

namespace Database

def table? (db : Database) (name : String) : Option Table :=
  db.find? fun table => table.name == name

def records (db : Database) (name : String) : List Record :=
  match db.table? name with
  | some table => table.records
  | none => []

def columns? (db : Database) (name : String) : Option (List String) :=
  (db.table? name).map fun table => table.columns.map (·.name)

end Database

section Conditions

def holdsBetween {α : Type} [LT α] [DecidableLT α] [DecidableEq α] (relation : Relation)
    (a b : α) : Bool :=
  match relation with
  | .less => a < b
  | .atMost => a < b || a = b
  | .greater => b < a
  | .atLeast => b < a || a = b
  | .equal => a = b

/-- How two values compare: texts by their characters and whole numbers by size. Nothing is known
of null, and of a pair of any other kind. -/
def compareValues (relation : Relation) : Json → Json → Truth
  | .string a, .string b => some (holdsBetween relation a b)
  | .number (.int a), .number (.int b) => some (holdsBetween relation a b)
  | _, _ => none

def Check.truth (value : Json) : Check Json → Truth
  | .compare relation right => compareValues relation value right
  | .isNull => some (value == .null)
  | .isNotNull => some (value != .null)
  | .like (.string pattern) mark =>
      match value with
      | .string text => Like.matches? mark pattern text
      | _ => none
  | .like _ _ => none

def Check.map {α β : Type} (f : α → β) : Check α → Check β
  | .compare relation right => .compare relation (f right)
  | .isNull => .isNull
  | .isNotNull => .isNotNull
  | .like pattern mark => .like (f pattern) mark

/-- The record that each name in a query stands for, the nearest first. -/
abbrev Scope := List (String × Record)

def Scope.record (scope : Scope) (source : String) : Record := (scope.lookup source).getD []

def Operand.eval (scope : Scope) : Operand → Json
  | .value param => param
  | .number n => .number (.int n)
  | .column source name => (scope.record source).value name

/-- The column of the values that were stored. -/
def storedColumn : String := "value"

/-- The truth of each check on the stored value of a record. -/
abbrev Oracle := Record → Check Json → Truth

def Operand.test (oracle : Oracle) (scope : Scope) (left : Operand) (check : Check Json) : Truth :=
  match left with
  | .column source name =>
      if name = storedColumn then oracle (scope.record source) check
      else check.truth ((scope.record source).value name)
  | left => check.truth (left.eval scope)

/-- A list of values asks for equality with one of them. -/
def Operand.testAny (oracle : Oracle) (scope : Scope) (left : Operand) : List Json → Truth
  | [] => some false
  | param :: params =>
      (left.test oracle scope (.compare .equal param)).or (left.testAny oracle scope params)

variable (db : Database) (oracle : Oracle)

mutual

def Atom.truth (scope : Scope) : Atom → Truth
  | .test left check => left.test oracle scope (check.map (·.eval scope))
  | .isIn left first rest => left.testAny oracle scope (first :: rest)
  | .group condition => condition.truth scope (some true)
  | .notExists table label condition =>
      some <| !(db.records table).any fun record =>
        condition.truth ((label, record) :: scope) (some true) == some true

/-- The truth of a condition whose first tests come after others joined to them by AND. -/
def Condition.truth (scope : Scope) (before : Truth) : Condition → Truth
  | .last atom => before.and (atom.truth scope)
  | .and atom rest => rest.truth scope (before.and (atom.truth scope))
  | .or atom rest => (before.and (atom.truth scope)).or (rest.truth scope (some true))

end

def Atom.Holds (scope : Scope) (atom : Atom) : Prop := atom.truth db oracle scope = some true

def Condition.Holds (scope : Scope) (condition : Condition) : Prop :=
  condition.truth db oracle scope (some true) = some true

instance (scope : Scope) (condition : Condition) : Decidable (condition.Holds db oracle scope) :=
  inferInstanceAs (Decidable (_ = _))

variable {db oracle} {scope : Scope}

theorem Condition.truth_all {before : Truth} (first : Atom) (rest : List Atom) :
    (all first rest).truth db oracle scope before = some true ↔
      before = some true ∧ ∀ atom ∈ first :: rest, atom.Holds db oracle scope := by
  induction rest generalizing first before with
  | nil => simp [all, Condition.truth, Truth.and_eq_true, Atom.Holds]
  | cons next rest ih =>
      simp only [all, Condition.truth, ih, Truth.and_eq_true, and_assoc, List.forall_mem_cons,
        Atom.Holds]

theorem Condition.holds_all (first : Atom) (rest : List Atom) :
    (all first rest).Holds db oracle scope ↔
      ∀ atom ∈ first :: rest, atom.Holds db oracle scope := by
  rw [Condition.Holds, truth_all]
  exact and_iff_right rfl

theorem Condition.holds_allOf (atoms : List Atom) :
    (allOf atoms).Holds db oracle scope ↔ ∀ atom ∈ atoms, atom.Holds db oracle scope := by
  cases atoms with
  | nil => exact iff_of_true rfl fun _ hmem => absurd hmem List.not_mem_nil
  | cons first rest => exact holds_all first rest

theorem Condition.holds_last (atom : Atom) :
    (Condition.last atom).Holds db oracle scope ↔ atom.Holds db oracle scope := by
  rw [Condition.Holds, Condition.truth, Truth.and_eq_true]
  exact and_iff_right rfl

theorem Condition.holds_any (first : Atom) (rest : List Atom) :
    (any first rest).Holds db oracle scope ↔
      ∃ atom ∈ first :: rest, atom.Holds db oracle scope := by
  induction rest generalizing first with
  | nil => simp [any, Condition.Holds, Condition.truth, Truth.and_eq_true, Atom.Holds]
  | cons next rest ih =>
      have hnext := ih next
      simp only [any, Condition.Holds, Condition.truth, Truth.or_eq_true, Truth.and_eq_true,
        true_and, List.mem_cons, exists_eq_or_imp, Atom.Holds] at hnext ⊢
      rw [hnext]

theorem Atom.holds_isIn (left : Operand) (first : Json) (rest : List Json) :
    (Atom.isIn left first rest).Holds db oracle scope ↔
      ∃ param ∈ first :: rest, left.test oracle scope (.compare .equal param) = some true := by
  rw [Atom.Holds, Atom.truth]
  generalize first :: rest = params
  induction params with
  | nil => simp [Operand.testAny]
  | cons param params ih =>
      simp only [Operand.testAny, Truth.or_eq_true, ih, List.mem_cons, exists_eq_or_imp]

theorem Atom.holds_notExists (table label : String) (condition : Condition) :
    (Atom.notExists table label condition).Holds db oracle scope ↔
      ∀ record ∈ db.records table, ¬ condition.Holds db oracle ((label, record) :: scope) := by
  simp [Atom.Holds, Atom.truth, Condition.Holds]

end Conditions

section Queries

variable (db : Database) (oracle : Oracle)

/-- Each choice so far together with each record of one more table. -/
def Join.extend (scopes : List Scope) (join : Join) : List Scope :=
  scopes.flatMap fun scope =>
    ((db.records join.source.table).map fun record => scope ++ [(join.source.name, record)]).filter
      fun scope => join.condition.Holds db oracle scope

def Query.scopes (query : Query) : List Scope :=
  query.joins.foldl (Join.extend db oracle)
    ((db.records query.first.table).map fun record => [(query.first.name, record)])

def Query.project (query : Query) (scope : Scope) : Record :=
  query.columns.map fun column => (column.label, (scope.record column.source).value column.name)

def Query.answers (query : Query) : List Record :=
  ((query.scopes db oracle |>.filter fun scope => query.filter.Holds db oracle scope).map
    query.project).dedup

variable {db oracle}

theorem Join.mem_extend {scopes : List Scope} {join : Join} {scope : Scope} :
    scope ∈ join.extend db oracle scopes ↔
      ∃ before ∈ scopes, ∃ record ∈ db.records join.source.table,
        scope = before ++ [(join.source.name, record)] ∧ join.condition.Holds db oracle scope := by
  simp only [Join.extend, List.mem_flatMap, List.mem_filter, List.mem_map, decide_eq_true_eq]
  constructor
  · rintro ⟨before, hbefore, ⟨record, hrecord, rfl⟩, hholds⟩
    exact ⟨before, hbefore, record, hrecord, rfl, hholds⟩
  · rintro ⟨before, hbefore, record, hrecord, rfl, hholds⟩
    exact ⟨before, hbefore, ⟨record, hrecord, rfl⟩, hholds⟩

theorem Query.mem_answers {query : Query} {answer : Record} :
    answer ∈ query.answers db oracle ↔
      ∃ scope ∈ query.scopes db oracle, query.filter.Holds db oracle scope ∧
        answer = query.project scope := by
  simp only [Query.answers, List.mem_dedup, List.mem_map, List.mem_filter, decide_eq_true_eq]
  constructor
  · rintro ⟨scope, ⟨hscope, hholds⟩, rfl⟩
    exact ⟨scope, hscope, hholds, rfl⟩
  · rintro ⟨scope, hscope, hholds, rfl⟩
    exact ⟨scope, ⟨hscope, hholds⟩, rfl⟩

end Queries

section Names

/-- The columns under each name in a query. -/
abbrev Frame := List (String × List String)

def Operand.isNamed (frame : Frame) : Operand → Bool
  | .column source name => (frame.lookup source).any (·.contains name)
  | _ => true

@[simp] theorem Operand.isNamed_value (frame : Frame) (param : Json) :
    (Operand.value param).isNamed frame = true := rfl

@[simp] theorem Operand.isNamed_number (frame : Frame) (n : Nat) :
    (Operand.number n).isNamed frame = true := rfl

def Check.isNamed (frame : Frame) : Check Operand → Bool
  | .compare _ right => right.isNamed frame
  | .like pattern _ => pattern.isNamed frame
  | _ => true

variable (db : Database)

mutual

def Atom.isNamed (frame : Frame) : Atom → Bool
  | .test left check => left.isNamed frame && check.isNamed frame
  | .isIn left _ _ => left.isNamed frame
  | .group condition => condition.isNamed frame
  | .notExists table label condition =>
      match db.columns? table with
      | some columns => condition.isNamed ((label, columns) :: frame)
      | none => false

def Condition.isNamed (frame : Frame) : Condition → Bool
  | .last atom => atom.isNamed frame
  | .and atom rest => atom.isNamed frame && rest.isNamed frame
  | .or atom rest => atom.isNamed frame && rest.isNamed frame

end

variable {db} {frame : Frame}

theorem Condition.isNamed_all (first : Atom) (rest : List Atom) :
    (all first rest).isNamed db frame = (first :: rest).all (·.isNamed db frame) := by
  induction rest generalizing first with
  | nil => simp [all, Condition.isNamed]
  | cons next rest ih => simp only [all, Condition.isNamed, ih, List.all_cons]

theorem Condition.isNamed_any (first : Atom) (rest : List Atom) :
    (any first rest).isNamed db frame = (first :: rest).all (·.isNamed db frame) := by
  induction rest generalizing first with
  | nil => simp [any, Condition.isNamed]
  | cons next rest ih => simp only [any, Condition.isNamed, ih, List.all_cons]

variable (db)

/-- The frame with one more table, under a name that is not yet taken. -/
def Source.addTo? (source : Source) (frame : Frame) : Option Frame :=
  match db.columns? source.table with
  | some columns =>
      if (frame.lookup source.name).isNone then some (frame ++ [(source.name, columns)]) else none
  | none => none

/-- The frame after all joins; the condition of each may use the tables up to its own. -/
def joinFrame? (frame : Frame) : List Join → Option Frame
  | [] => some frame
  | join :: joins =>
      match join.source.addTo? db frame with
      | some frame => if join.condition.isNamed db frame then joinFrame? frame joins else none
      | none => none

/-- Every table and column of the query is there, and no two of its tables have one name. -/
def Query.isNamed (query : Query) : Bool :=
  match (query.first.addTo? db []).bind fun frame => joinFrame? db frame query.joins with
  | some frame =>
      query.filter.isNamed db frame &&
        query.columns.all fun column => (Operand.column column.source column.name).isNamed frame
  | none => false

theorem Query.isNamed_of_frame {query : Query}
    (hframe : ((query.first.addTo? db []).bind fun frame =>
      joinFrame? db frame query.joins) = some frame)
    (hfilter : query.filter.isNamed db frame = true)
    (hcolumns : query.columns.all (fun column =>
      (Operand.column column.source column.name).isNamed frame) = true) :
    query.isNamed db = true := by
  simp only [Query.isNamed, hframe, hfilter, hcolumns, Bool.and_self]

end Names

/-- The answers to a statement; none when it is no query over these tables. -/
def Database.answers? (db : Database) (oracle : Oracle) (statement : Sql.Statement) :
    Option (List Record) :=
  (Query.read? statement).bind fun query =>
    if query.isNamed db then some (query.answers db oracle) else none

section Commands

def isTextOrNull : Json → Bool
  | .string _ => true
  | .null => true
  | _ => false

/-- A new record fits a column: text in a column of texts, and a key that is new. -/
def ColumnKind.accepts (column : ColumnKind) (others : List Record) (record : Record) : Bool :=
  (!column.isText || isTextOrNull (record.value column.name)) &&
    (!column.isKey || (record.value column.name != .null &&
      others.all fun other => other.value column.name != record.value column.name))

/-- The record that a row of values makes; columns that get no value are null. -/
def Table.record (table : Table) (columns : List String) (row : List Json) : Record :=
  table.columns.map fun column => (column.name, Record.value (columns.zip row) column.name)

def Table.insert? (columns : List String) (table : Table) (row : List Json) : Option Table :=
  if row.length = columns.length ∧
      table.columns.all (·.accepts table.records (table.record columns row)) = true then
    some { table with records := table.records ++ [table.record columns row] }
  else none

namespace Database

def run? (db : Database) : Command → Option Database
  | .create name columns =>
      if (db.table? name).isNone = true ∧ (columns.map (·.name)).Nodup then
        some (db ++ [⟨name, columns, []⟩])
      else none
  | .insert name columns rows =>
      match db.table? name with
      | some table =>
          if columns.Nodup ∧ columns ⊆ table.columns.map (·.name) then
            (rows.foldlM (Table.insert? columns) table).map fun filled =>
              List.map (fun other => if other.name = name then filled else other) db
          else none
      | none => none

/-- Run statements in order; none when one of them is no command, or is refused. -/
def runAll? (db : Database) (statements : List Sql.Statement) : Option Database :=
  statements.foldlM (fun db statement => (Command.read? statement).bind db.run?) db

theorem run?_insert {db : Database} {name : String} {columns : List String}
    {rows : List (List Json)} {table filled : Table} (htable : db.table? name = some table)
    (hcolumns : columns.Nodup ∧ columns ⊆ table.columns.map (·.name))
    (hfilled : rows.foldlM (Table.insert? columns) table = some filled) :
    db.run? (.insert name columns rows) =
      some (List.map (fun other => if other.name = name then filled else other) db) := by
  simp only [run?, htable, if_pos hcolumns, hfilled, Option.map_some]

theorem runAll?_of_read {statements : List Sql.Statement} {commands : List Command}
    (h : statements.map Command.read? = commands.map some) (db : Database) :
    db.runAll? statements = commands.foldlM run? db := by
  induction statements generalizing commands db with
  | nil =>
      obtain rfl : commands = [] := by simpa using h.symm
      rfl
  | cons statement statements ih =>
      cases commands with
      | nil => cases h
      | cons command commands =>
          obtain ⟨hfirst, hrest⟩ := List.cons.inj h
          rw [runAll?, List.foldlM_cons, List.foldlM_cons, hfirst, Option.bind_some]
          exact congrArg _ (funext fun next => ih hrest next)

theorem runAll?_append (db : Database) (first second : List Sql.Statement) :
    db.runAll? (first ++ second) = (db.runAll? first).bind (·.runAll? second) :=
  List.foldlM_append

end Database

end Commands

end EventBus.Relational
