import EventBus.Pattern.Document
import EventBus.Sql.Condition
import EventBus.Time.Instant

/-!
Patterns as queries over two tables. The events table holds whole events by id, and the
index table a row for each value of an event under its path. A query joins one copy of the
index for each branch of a pattern on the id of the event, so that an event is found only
when every branch finds a row; a branch that asks for absence becomes a condition that no
row stands at its path.
-/

namespace EventBus.Sql

inductive QueryError where
  | pattern (error : PatternError)
  | nestedFieldMap (path : String)
  deriving Repr

def QueryError.message : QueryError → String
  | .pattern error => "parse error: " ++ error.message
  | .nestedFieldMap path => "field map in leaf position at '" ++ path ++ "' cannot be indexed"

structure Tables where
  events : String
  index : String
  deriving Repr

inductive Joined where
  /-- A row at the path or below it. -/
  | present (path : String)
  /-- A row at the path whose value meets a condition. -/
  | leaf (path : String) (condition : Condition)
  deriving Repr

/-- A query: joined copies of the index, and paths that must have no row. -/
structure Select where
  joined : List Joined
  absent : List String
  deriving Repr

/-- Split branches into joined copies and absent paths. -/
def Select.ofBranches : List Index.Branch → Except QueryError Select
  | [] => .ok ⟨[], []⟩
  | branch :: branches =>
      match branch.predicate with
      | .present false => do
          let rest ← ofBranches branches
          return { rest with absent := branch.pathText :: rest.absent }
      | .present true => do
          let rest ← ofBranches branches
          return { rest with joined := .present branch.pathText :: rest.joined }
      | predicate =>
          match Condition.ofLeaf? predicate with
          | none => .error (.nestedFieldMap branch.pathText)
          | some condition => do
              let rest ← ofBranches branches
              return { rest with joined := .leaf branch.pathText condition :: rest.joined }

def Select.ofPredicate (predicate : Predicate) : Except QueryError Select :=
  ofBranches (Index.branches predicate)

/-- A path condition that also holds below the path. -/
def atOrBelow (column : String) : String :=
  "(" ++ column ++ " = ? OR " ++ column ++ " LIKE ? ESCAPE '\\')"

def atOrBelowParams (path : String) : List Json := [.string path, .string (Like.below path)]

def aliasName (n : Nat) : String := "t" ++ toString n

def Joined.fragment (since : String) (n : Nat) : Joined → Fragment
  | .present path =>
      { sql := "(" ++ aliasName n ++ ".ts > ? AND " ++ atOrBelow (aliasName n ++ ".path") ++ ")"
        params := .string since :: atOrBelowParams path }
  | .leaf path condition =>
      { sql := "(" ++ aliasName n ++ ".ts > ? AND " ++ aliasName n ++ ".path = ? AND "
          ++ condition.sql (aliasName n ++ ".value") ++ ")"
        params := .string since :: .string path :: condition.params }

def joinedFragments (since : String) : Nat → List Joined → List Fragment
  | _, [] => []
  | n, joined :: rest => joined.fragment since n :: joinedFragments since (n + 1) rest

def absentFragment (index path : String) : Fragment where
  sql := "NOT EXISTS (SELECT 1 FROM " ++ index ++ " AS x WHERE x.eid = t0.eid AND "
    ++ atOrBelow "x.path" ++ ")"
  params := atOrBelowParams path

namespace Select

/-- The conditions of a query. A query that joins nothing still looks at one copy. -/
def fragments (query : Select) (index since : String) : List Fragment :=
  (if query.joined.isEmpty then [⟨"(t0.ts > ?)", [.string since]⟩]
    else joinedFragments since 0 query.joined) ++ query.absent.map (absentFragment index)

def joinLines (query : Select) (index : String) : List String :=
  (List.range' 1 (query.joined.length - 1)).map fun n =>
    "JOIN " ++ index ++ " AS " ++ aliasName n ++ " ON " ++ aliasName n ++ ".eid = t0.eid"

/-- The statement of a query for events newer than an instant. -/
def statement (query : Select) (tables : Tables) (since : Instant) : Statement :=
  let fragments := query.fragments tables.index since.text
  let lines :=
    ["SELECT DISTINCT t0.eid AS eid, " ++ tables.events ++ ".event AS event",
      "FROM " ++ tables.index ++ " AS t0"]
    ++ query.joinLines tables.index
    ++ ["JOIN " ++ tables.events ++ " ON " ++ tables.events ++ ".eid = t0.eid",
      "WHERE " ++ joinWith " AND\n  " (fragments.map (·.sql))]
  { sql := joinWith "\n" lines, params := fragments.flatMap (·.params) }

end Select

def compilePredicate (tables : Tables) (since : Instant) (predicate : Predicate) :
    Except QueryError Statement :=
  (Select.ofPredicate predicate).map (·.statement tables since)

def compileDocument (tables : Tables) (since : Instant) (document : Json) :
    Except QueryError Statement :=
  match Pattern.compile document with
  | .error error => .error (.pattern error)
  | .ok predicate => compilePredicate tables since predicate

end EventBus.Sql
