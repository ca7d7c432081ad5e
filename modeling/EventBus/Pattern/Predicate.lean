import EventBus.Json.Writer

/-!
Compiled patterns: a closed tree of constraints on a JSON value, and what it means for a
value to satisfy one. A field that is absent satisfies only the demand to be absent, and
an array satisfies a disjunction when one of its elements does.
-/

namespace EventBus

inductive Relation where
  | less
  | atMost
  | greater
  | atLeast
  | equal
  deriving DecidableEq, Repr

namespace Relation

def sign : Relation → String
  | .less => "<"
  | .atMost => "<="
  | .greater => ">"
  | .atLeast => ">="
  | .equal => "="

def ofSign? (s : String) : Option Relation :=
  if s = "<" then some .less
  else if s = "<=" then some .atMost
  else if s = ">" then some .greater
  else if s = ">=" then some .atLeast
  else if s = "=" then some .equal
  else none

/-- The relation holds; with a NaN none does. -/
def holds (relation : Relation) (x threshold : Binary64) : Bool :=
  match relation with
  | .less => x.less threshold
  | .atMost => x.atMost threshold
  | .greater => threshold.less x
  | .atLeast => threshold.atMost x
  | .equal => x.equal threshold

end Relation

structure Comparison where
  relation : Relation
  threshold : Binary64
  deriving DecidableEq, Repr

def Comparison.accepts (comparison : Comparison) (x : Binary64) : Bool :=
  comparison.relation.holds x comparison.threshold

inductive Predicate where
  | pass
  | literal (value : Json)
  | startsWith (start : String)
  /-- The field is there, or is not. -/
  | present (want : Bool)
  | numeric (comparisons : List Comparison)
  /-- A value, or an element of an array, that satisfies a member. -/
  | anyOf (members : List Predicate)
  /-- An object each of whose named fields satisfies its predicate. -/
  | fields (entries : List (String × Predicate))
  deriving Repr, Inhabited

namespace Predicate

def kind : Predicate → String
  | .pass => "pass"
  | .literal _ => "literal"
  | .startsWith _ => "prefix"
  | .present _ => "exists"
  | .numeric _ => "numeric"
  | .anyOf _ => "any_of"
  | .fields _ => "field_map"

/-- Equality of scalars; arrays and objects equal nothing. -/
def literalEqual : Json → Json → Bool
  | .number a, .number b => a.equal b
  | .string a, .string b => a == b
  | .bool a, .bool b => a == b
  | .null, .null => true
  | _, _ => false

/-- What a disjunction looks at: the elements of an array, or the value itself. -/
def candidates : Json → List Json
  | .array items => items
  | other => [other]

def asksAbsence : Predicate → Bool
  | .present false => true
  | _ => false

mutual

def accepts : Predicate → Json → Bool
  | .pass, _ => true
  | .literal expected, value => literalEqual expected value
  | .startsWith start, .string s => start.toList.isPrefixOf s.toList
  | .startsWith _, _ => false
  | .present want, _ => want
  | .numeric comparisons, .number n => comparisons.all (·.accepts n.toBinary64)
  | .numeric _, _ => false
  | .anyOf members, value => (candidates value).any (anyAccepts members)
  | .fields entries, .object object => allAccept entries object
  | .fields _, _ => false

def anyAccepts : List Predicate → Json → Bool
  | [], _ => false
  | member :: members, value => member.accepts value || anyAccepts members value

/-- Every named field, absent or not, satisfies its predicate. -/
def allAccept : List (String × Predicate) → List (String × Json) → Bool
  | [], _ => true
  | (key, child) :: entries, object =>
      (match Json.lookup key object with
        | some value => child.accepts value
        | none => child.asksAbsence) && allAccept entries object

end

/-- A field that may be absent satisfies the predicate. -/
def acceptsField (predicate : Predicate) : Option Json → Bool
  | some value => predicate.accepts value
  | none => predicate.asksAbsence

def describeComparison (comparison : Comparison) : Json :=
  .object [("relation", .string comparison.relation.sign),
    ("threshold", .number (.float comparison.threshold))]

mutual

/-- The tree as a JSON value, each node under the name of its form. -/
def describe : Predicate → Json
  | .pass => .string "pass"
  | .literal value => .object [("literal", value)]
  | .startsWith start => .object [("prefix", .string start)]
  | .present want => .object [("exists", .bool want)]
  | .numeric comparisons => .object [("numeric", .array (comparisons.map describeComparison))]
  | .anyOf members => .object [("any_of", .array (describeMembers members))]
  | .fields entries => .object [("field_map", .object (describeEntries entries))]

def describeMembers : List Predicate → List Json
  | [] => []
  | member :: members => member.describe :: describeMembers members

def describeEntries : List (String × Predicate) → List (String × Json)
  | [] => []
  | (key, child) :: entries => (key, child.describe) :: describeEntries entries

end

def text (predicate : Predicate) : String := predicate.describe.text

end Predicate

end EventBus
