import EventBus.Number.Binary64

/-!
JSON values. Numbers are exact integers or binary64 values. Objects are lists of entries;
a value is canonical when the keys of each of its objects ascend strictly, which is how
values are kept once read, and the order of keys is the order of their code points.
-/

namespace EventBus

inductive Number where
  | int (value : Int)
  | float (value : Binary64)
  deriving DecidableEq, Repr, Inhabited

inductive Json where
  | null
  | bool (value : Bool)
  | number (value : Number)
  | string (value : String)
  | array (items : List Json)
  | object (entries : List (String × Json))
  deriving Repr, Inhabited

namespace Number

def toBinary64 : Number → Binary64
  | .int n => .ofInt n
  | .float x => x

/-- The integer, if it fits a signed word of 64 bits. -/
def signedWord? : Number → Option Int
  | .int n => if -(Nat.pow 2 63 : Nat) ≤ n ∧ n < (Nat.pow 2 63 : Nat) then some n else none
  | .float _ => none

/-- The integer, if it fits an unsigned word of 64 bits. -/
def unsignedWord? : Number → Option Nat
  | .int n => if 0 ≤ n ∧ n < (Nat.pow 2 64 : Nat) then some n.toNat else none
  | .float _ => none

/--
Equality of numbers as literals use it: of signed words if both are such, else of unsigned
words if both are such, and all other pairs are compared by their nearest binary64 values.
-/
def equal (a b : Number) : Bool :=
  match a.signedWord?, b.signedWord? with
  | some x, some y => x == y
  | _, _ =>
      match a.unsignedWord?, b.unsignedWord? with
      | some x, some y => x == y
      | _, _ => a.toBinary64.equal b.toBinary64

end Number

namespace Json

mutual

def same : Json → Json → Bool
  | .null, .null => true
  | .bool a, .bool b => a == b
  | .number a, .number b => a == b
  | .string a, .string b => a == b
  | .array a, .array b => sameItems a b
  | .object a, .object b => sameEntries a b
  | _, _ => false

def sameItems : List Json → List Json → Bool
  | [], [] => true
  | a :: as, b :: bs => same a b && sameItems as bs
  | _, _ => false

def sameEntries : List (String × Json) → List (String × Json) → Bool
  | [], [] => true
  | (k, a) :: as, (l, b) :: bs => k == l && same a b && sameEntries as bs
  | _, _ => false

end

instance : BEq Json := ⟨same⟩

def lookup (key : String) : List (String × Json) → Option Json
  | [] => none
  | (k, v) :: rest => if k = key then some v else lookup key rest

def get? (key : String) : Json → Option Json
  | .object entries => lookup key entries
  | _ => none

/-- Put an entry into entries with ascending keys, replacing one of the same key. -/
def insert (key : String) (value : Json) : List (String × Json) → List (String × Json)
  | [] => [(key, value)]
  | (k, v) :: rest =>
      if key = k then (key, value) :: rest
      else if key < k then (key, value) :: (k, v) :: rest
      else (k, v) :: insert key value rest

mutual

/-- Entries of every object in ascending order of keys, the last entry of a key kept. -/
def canonical : Json → Json
  | .array items => .array (canonicalItems items)
  | .object entries => .object (canonicalEntries [] entries)
  | other => other

def canonicalItems : List Json → List Json
  | [] => []
  | item :: rest => canonical item :: canonicalItems rest

/-- The entries in canonical form, added to others already in order. -/
def canonicalEntries (sorted : List (String × Json)) :
    List (String × Json) → List (String × Json)
  | [] => sorted
  | (key, value) :: rest => canonicalEntries (insert key (canonical value) sorted) rest

end

def Ascending (entries : List (String × Json)) : Prop :=
  entries.Pairwise fun a b => a.1 < b.1

mutual

def Canonical : Json → Prop
  | .array items => CanonicalItems items
  | .object entries => Ascending entries ∧ CanonicalEntries entries
  | _ => True

def CanonicalItems : List Json → Prop
  | [] => True
  | item :: rest => Canonical item ∧ CanonicalItems rest

def CanonicalEntries : List (String × Json) → Prop
  | [] => True
  | (_, value) :: rest => Canonical value ∧ CanonicalEntries rest

end

mutual

/-- How many arrays and objects nest in one another. -/
def depth : Json → Nat
  | .array items => depthItems items + 1
  | .object entries => depthEntries entries + 1
  | _ => 0

def depthItems : List Json → Nat
  | [] => 0
  | item :: rest => max (depth item) (depthItems rest)

def depthEntries : List (String × Json) → Nat
  | [] => 0
  | (_, value) :: rest => max (depth value) (depthEntries rest)

end

def isScalar : Json → Bool
  | .array _ => false
  | .object _ => false
  | _ => true

end Json

end EventBus
