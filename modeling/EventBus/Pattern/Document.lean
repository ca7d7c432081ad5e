import EventBus.Pattern.Predicate

/-!
Pattern documents. An array is a disjunction over leaves, an object with one of three
special keys is a constraint on a single value, any other object constrains its fields,
and a scalar stands for itself. A document that is none of these is refused with the first
offending part in order of keys and positions.
-/

namespace EventBus

inductive PatternError where
  | badPrefix (value : Json)
  | badExists (value : Json)
  | badNumeric (value : Json)
  | oddNumeric (size : Nat)
  | badRelation (value : Json)
  | unknownRelation (name : String)
  | badThreshold (value : Json)
  | nestedArray (value : Json)
  deriving Repr

def PatternError.message : PatternError → String
  | .badPrefix value => "bad prefix: " ++ value.text
  | .badExists value => "bad exists value: " ++ value.text
  | .badNumeric value => "bad numeric: " ++ value.text
  | .oddNumeric size =>
      "bad numeric array size " ++ toString size ++ ": relations and thresholds must pair up"
  | .badRelation value => "bad numeric relation: " ++ value.text
  | .unknownRelation name => "unknown numeric relation '" ++ name ++ "'"
  | .badThreshold value => "bad numeric threshold: " ++ value.text
  | .nestedArray value => "arrays are not valid inside arrays: " ++ value.text

namespace Pattern

def comparison (name threshold : Json) : Except PatternError Comparison :=
  match name with
  | .string sign =>
      match Relation.ofSign? sign with
      | none => .error (.unknownRelation sign)
      | some relation =>
          match threshold with
          | .number n => .ok ⟨relation, n.toBinary64⟩
          | other => .error (.badThreshold other)
  | other => .error (.badRelation other)

def comparisons : List Json → Except PatternError (List Comparison)
  | name :: threshold :: rest => do
      let first ← comparison name threshold
      let others ← comparisons rest
      return first :: others
  | _ => .ok []

def numeric : Json → Except PatternError Predicate
  | .array items =>
      if items.length % 2 = 1 then .error (.oddNumeric items.length)
      else (comparisons items).map .numeric
  | other => .error (.badNumeric other)

/-- A constraint on a single value, by the first special key the object has. -/
def special? (entries : List (String × Json)) : Option (Except PatternError Predicate) :=
  match Json.lookup "prefix" entries with
  | some (.string start) => some (.ok (.startsWith start))
  | some other => some (.error (.badPrefix other))
  | none =>
      match Json.lookup "exists" entries with
      | some (.bool want) => some (.ok (.present want))
      | some other => some (.error (.badExists other))
      | none => (Json.lookup "numeric" entries).map numeric

mutual

def compile : Json → Except PatternError Predicate
  | .array items => (compileMembers items).map .anyOf
  | .object entries =>
      match special? entries with
      | some result => result
      | none => (compileFields entries).map .fields
  | scalar => .ok (.literal scalar)

/-- The members of a disjunction, which are no arrays. -/
def compileMembers : List Json → Except PatternError (List Predicate)
  | [] => .ok []
  | .array items :: _ => .error (.nestedArray (.array items))
  | item :: items => do
      let member ← compile item
      let members ← compileMembers items
      return member :: members

def compileFields : List (String × Json) → Except PatternError (List (String × Predicate))
  | [] => .ok []
  | (key, value) :: entries => do
      let child ← compile value
      let children ← compileFields entries
      return (key, child) :: children

end

def accepts (document value : Json) : Except PatternError Bool :=
  (compile document).map (·.accepts value)

end Pattern

end EventBus
