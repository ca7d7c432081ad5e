import EventBus.Pattern.Index
import EventBus.Sql.Like
import EventBus.Sql.Statement

/-!
Conditions on one stored value. A leaf of a pattern is turned into a condition, and a
condition into SQL about a column. A disjunction of non-null literals becomes a list
membership; a disjunction that holds an object constraint has no condition, since a row
holds single values.
-/

namespace EventBus.Sql

inductive Condition where
  | always
  | never
  | isNull
  | isNotNull
  | equals (value : Json)
  | like (pattern : String)
  /-- All the comparisons, of which there is at least one. -/
  | compares (first : Comparison) (rest : List Comparison)
  | isIn (values : List Json)
  | any (conditions : List Condition)
  deriving Repr, Inhabited

namespace Condition

def comparisonSql (column : String) (comparison : Comparison) : String :=
  column ++ " " ++ comparison.relation.sign ++ " ?"

/-- A threshold as a parameter; one that is not finite has no JSON number and is null. -/
def thresholdParam (x : Binary64) : Json := if x.isFinite then .number (.float x) else .null

mutual

def sql (column : String) : Condition → String
  | .always => "1 = 1"
  | .never => "1 = 0"
  | .isNull => column ++ " IS NULL"
  | .isNotNull => column ++ " IS NOT NULL"
  | .equals _ => column ++ " = ?"
  | .like _ => column ++ " LIKE ? ESCAPE '\\'"
  | .compares first rest => joinWith " AND " ((first :: rest).map (comparisonSql column))
  | .isIn values => column ++ " IN (" ++ placeholders values.length ++ ")"
  | .any conditions => "(" ++ joinWith " OR " (sqlParts column conditions) ++ ")"

def sqlParts (column : String) : List Condition → List String
  | [] => []
  | condition :: conditions => ("(" ++ sql column condition ++ ")") :: sqlParts column conditions

end

mutual

def params : Condition → List Json
  | .equals value => [value]
  | .like pattern => [.string pattern]
  | .compares first rest => (first :: rest).map fun c => thresholdParam c.threshold
  | .isIn values => values
  | .any conditions => paramsOfAll conditions
  | _ => []

def paramsOfAll : List Condition → List Json
  | [] => []
  | condition :: conditions => params condition ++ paramsOfAll conditions

end

def listed? : Predicate → Option Json
  | .literal .null => none
  | .literal value => some value
  | _ => none

/-- The values of members that are all literals other than null. -/
def listedAll? : List Predicate → Option (List Json)
  | [] => some []
  | member :: members => do return (← listed? member) :: (← listedAll? members)

mutual

/-- The condition of a leaf; none when a constraint on fields stands in it. -/
def ofLeaf? : Predicate → Option Condition
  | .pass => some .always
  | .literal .null => some .isNull
  | .literal value => some (.equals value)
  | .startsWith start => some (.like (Like.startingWith start))
  | .present true => some .always
  | .present false => some .never
  | .numeric [] => some .isNotNull
  | .numeric (first :: rest) => some (.compares first rest)
  | .anyOf [] => some .never
  | .anyOf (member :: members) =>
      match listedAll? (member :: members) with
      | some values => some (.isIn values)
      | none => (ofLeaves? (member :: members)).map .any
  | .fields _ => none

def ofLeaves? : List Predicate → Option (List Condition)
  | [] => some []
  | member :: members => do return (← ofLeaf? member) :: (← ofLeaves? members)

end

end Condition

end EventBus.Sql
