import EventBus.Pattern.Predicate

/-!
Patterns and events taken apart by field path. A predicate becomes one branch for each leaf
reached through its fields, and an event one row for each scalar it holds and for each
empty container under a key. Elements of an array stand under the path of the array, so
the rows remember less than the event did.
-/

namespace EventBus.Index

def joinPath : List String → String
  | [] => ""
  | [key] => key
  | key :: next :: keys => key ++ "/" ++ joinPath (next :: keys)

def dropLeading? : List Char → List Char → Option (List Char)
  | [], cs => some cs
  | _ :: _, [] => none
  | p :: ps, c :: cs => if p = c then dropLeading? ps cs else none

/-- A path equals another or continues it after a slash. -/
def isAtOrBelow (path row : String) : Bool :=
  match dropLeading? path.toList row.toList with
  | some [] => true
  | some (c :: _) => c == '/'
  | none => false

/-- A leaf of a predicate and the keys that lead to it. -/
structure Branch where
  path : List String
  predicate : Predicate
  deriving Repr

/-- A value of an event under its path. -/
structure Row where
  path : String
  value : Json
  deriving Repr

def Branch.pathText (branch : Branch) : String := joinPath branch.path

/-- Some row satisfies the branch; presence looks below the path as well. -/
def Branch.accepts (branch : Branch) (rows : List Row) : Bool :=
  match branch.predicate with
  | .present want => rows.any (fun row => isAtOrBelow branch.pathText row.path) == want
  | predicate => (rows.filter fun row => row.path == branch.pathText).any
      fun row => predicate.accepts row.value

mutual

def branchesAt (path : List String) : Predicate → List Branch
  | .pass => []
  | .fields entries => branchesOfEntries path entries
  | leaf => [⟨path, leaf⟩]

def branchesOfEntries (path : List String) : List (String × Predicate) → List Branch
  | [] => []
  | (key, child) :: entries => branchesAt (path ++ [key]) child ++ branchesOfEntries path entries

end

def branches (predicate : Predicate) : List Branch := branchesAt [] predicate

mutual

def rowsAt (path : List String) : Json → List Row
  | .object [] => if path.isEmpty then [] else [⟨joinPath path, .object []⟩]
  | .array [] => if path.isEmpty then [] else [⟨joinPath path, .array []⟩]
  | .object (entry :: entries) => rowsOfEntries path (entry :: entries)
  | .array (item :: items) => rowsOfItems path (item :: items)
  | scalar => [⟨joinPath path, scalar⟩]

def rowsOfEntries (path : List String) : List (String × Json) → List Row
  | [] => []
  | (key, value) :: entries => rowsAt (path ++ [key]) value ++ rowsOfEntries path entries

def rowsOfItems (path : List String) : List Json → List Row
  | [] => []
  | item :: items => rowsAt path item ++ rowsOfItems path items

end

def rows (event : Json) : List Row := rowsAt [] event

def accepts (branches : List Branch) (rows : List Row) : Bool :=
  branches.all (·.accepts rows)

end EventBus.Index
