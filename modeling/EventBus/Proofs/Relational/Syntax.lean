import EventBus.Proofs.Relational.Tokens
import EventBus.Sql.Statement

/-!
Statements as trees, and the tokens they are written with. A condition is a row of tests with AND
or OR between them, where AND binds closer, so each text has one tree.
-/

namespace EventBus.Relational

inductive Operand where
  | value (value : Json)
  | number (n : Nat)
  | column (source name : String)
  deriving Repr

/-- What is asked of one value. -/
inductive Check (α : Type) where
  | compare (relation : Relation) (right : α)
  | isNull
  | isNotNull
  | like (pattern : α) (escape : Char)
  deriving Repr

mutual

inductive Atom where
  | test (left : Operand) (check : Check Operand)
  /-- One of the values, of which there is at least one. -/
  | isIn (left : Operand) (first : Json) (rest : List Json)
  | group (condition : Condition)
  /-- No row of the table, under a name, meets the condition. -/
  | notExists (table label : String) (condition : Condition)

inductive Condition where
  | last (atom : Atom)
  | and (atom : Atom) (rest : Condition)
  | or (atom : Atom) (rest : Condition)

end

/-- A table in a query, with another name for it there or under its own. -/
structure Source where
  table : String
  label? : Option String
  deriving Repr

def Source.name (source : Source) : String := source.label?.getD source.table

structure Join where
  source : Source
  condition : Condition

structure Column where
  source : String
  name : String
  label : String
  deriving Repr

structure Query where
  columns : List Column
  first : Source
  joins : List Join
  filter : Condition

structure ColumnKind where
  name : String
  isText : Bool
  isKey : Bool
  deriving Repr, DecidableEq

inductive Command where
  | create (table : String) (columns : List ColumnKind)
  | insert (table : String) (columns : List String) (rows : List (List Json))
  deriving Repr

def Condition.all (first : Atom) : List Atom → Condition
  | [] => .last first
  | next :: rest => .and first (all next rest)

/-- All of the tests; with none, a test that is always met. -/
def Condition.allOf : List Atom → Condition
  | [] => .last (.test (.number 1) (.compare .equal (.number 1)))
  | first :: rest => all first rest

def Condition.any (first : Atom) : List Atom → Condition
  | [] => .last first
  | next :: rest => .or first (any next rest)

section Tokens

def separated (separator : List Token) : List (List Token) → List Token
  | [] => []
  | [ts] => ts
  | ts :: next :: rest => ts ++ (separator ++ separated separator (next :: rest))

theorem separated_map_cons {α : Type} (separator : List Token) (f : α → List Token) (a b : α)
    (rest : List α) : separated separator ((a :: b :: rest).map f) =
      f a ++ (separator ++ separated separator ((b :: rest).map f)) := rfl

theorem separated_nil (parts : List (List Token)) : separated [] parts = parts.flatten := by
  induction parts with
  | nil => rfl
  | cons part parts ih =>
      cases parts with
      | nil => simp [separated]
      | cons next parts => simp only [separated, ih, List.flatten_cons, List.nil_append]

def inParens (ts : List Token) : List Token := .openParen :: ts ++ [.closeParen]

def Operand.tokens : Operand → List Token
  | .value param => [.value param]
  | .number n => [.number n]
  | .column source name => [.name source, .dot, .name name]

def Check.tokens : Check Operand → List Token
  | .compare relation right => .relation relation :: right.tokens
  | .isNull => [.keyword .is, .keyword .null]
  | .isNotNull => [.keyword .is, .keyword .not, .keyword .null]
  | .like pattern escape => .keyword .like :: pattern.tokens ++ [.keyword .escape, .text [escape]]

def valuesTokens (values : List Json) : List Token :=
  separated [.comma] (values.map fun value => [.value value])

mutual

def Atom.tokens : Atom → List Token
  | .test left check => left.tokens ++ check.tokens
  | .isIn left first rest => left.tokens ++ .keyword .in :: inParens (valuesTokens (first :: rest))
  | .group condition => inParens condition.tokens
  | .notExists table label condition =>
      [.keyword .not, .keyword .exists] ++
        inParens ([.keyword .select, .number 1, .keyword .from, .name table, .keyword .as,
          .name label, .keyword .where] ++ condition.tokens)

def Condition.tokens : Condition → List Token
  | .last atom => atom.tokens
  | .and atom rest => atom.tokens ++ .keyword .and :: rest.tokens
  | .or atom rest => atom.tokens ++ .keyword .or :: rest.tokens

end

theorem Condition.tokens_all (first : Atom) (rest : List Atom) :
    (all first rest).tokens = separated [.keyword .and] ((first :: rest).map Atom.tokens) := by
  induction rest generalizing first with
  | nil => rfl
  | cons next rest ih =>
      rw [all, Condition.tokens, ih]
      rfl

theorem Condition.tokens_any (first : Atom) (rest : List Atom) :
    (any first rest).tokens = separated [.keyword .or] ((first :: rest).map Atom.tokens) := by
  induction rest generalizing first with
  | nil => rfl
  | cons next rest ih =>
      rw [any, Condition.tokens, ih]
      rfl

def Source.tokens (source : Source) : List Token :=
  .name source.table ::
    match source.label? with
    | some label => [.keyword .as, .name label]
    | none => []

def Join.tokens (join : Join) : List Token :=
  .keyword .join :: join.source.tokens ++ .keyword .on :: join.condition.tokens

def Column.tokens (column : Column) : List Token :=
  [.name column.source, .dot, .name column.name, .keyword .as, .name column.label]

def Query.tokens (query : Query) : List Token :=
  [.keyword .select, .keyword .distinct] ++ separated [.comma] (query.columns.map Column.tokens)
    ++ .keyword .from :: query.first.tokens ++ query.joins.flatMap Join.tokens
    ++ .keyword .where :: query.filter.tokens

def ColumnKind.tokens (column : ColumnKind) : List Token :=
  .name column.name :: (if column.isText then [.keyword .text] else [])
    ++ if column.isKey then [.keyword .primary, .keyword .key] else []

def Command.tokens : Command → List Token
  | .create table columns =>
      [.keyword .create, .keyword .table, .name table]
        ++ inParens (separated [.comma] (columns.map ColumnKind.tokens))
  | .insert table columns rows =>
      [.keyword .insert, .keyword .into, .name table]
        ++ inParens (separated [.comma] (columns.map fun column => [.name column]))
        ++ .keyword .values :: separated [.comma] (rows.map fun row => inParens (valuesTokens row))

end Tokens

end EventBus.Relational
