import EventBus.Toml.Basic

/-!
Tables while they are being filled. A table remembers how it came about, because that
decides what may still be added to it: one that was only passed through by a header can be
given a header of its own, one made by a dotted key can be extended by dotted keys beside
it, and one that has been defined is closed to both. A list of tables is extended by
further headers, and what follows belongs to its last table.
-/

namespace EventBus.Toml

inductive Origin where
  | passedThrough
  | dotted
  | defined
  deriving DecidableEq, Repr

inductive Node where
  | value (value : Value)
  | table (origin : Origin) (entries : List (String × Node))
  | tables (elements : List (List (String × Node)))
  deriving Repr

abbrev Entries := List (String × Node)

namespace Entries

def find? (key : String) (entries : Entries) : Option Node := List.lookup key entries

/-- Put a node under a key, at its old place or at the end. -/
def put (key : String) (node : Node) : Entries → Entries
  | [] => [(key, node)]
  | (k, n) :: rest => if k = key then (key, node) :: rest else (k, n) :: put key node rest

def remove (key : String) (entries : Entries) : Entries := entries.filter (·.1 != key)

/-- A table met on the way of a dotted key is open to it unless it has been defined. -/
def isOpen (isDotted : Bool) (origin : Origin) : Bool := !isDotted || origin != .defined

/--
Change the table at the end of a path, making tables that are missing on the way. The
change is told how that table came about. The way leads into the last of several tables.
-/
def update (isDotted : Bool) (change : Origin → Entries → Option Entries) :
    List String → Origin → Entries → Option Entries
  | [], origin, entries => change origin entries
  | key :: path, _, entries =>
      match find? key entries with
      | none =>
          let origin := if isDotted then .dotted else .passedThrough
          (update isDotted change path origin []).map fun child =>
            put key (.table origin child) entries
      | some (.value _) => none
      | some (.table origin child) =>
          if isOpen isDotted origin then
            (update isDotted change path origin child).map fun child =>
              put key (.table origin child) entries
          else none
      | some (.tables elements) =>
          match elements.getLast? with
          | none => none
          | some last =>
              (update isDotted change path .defined last).map fun last =>
                put key (.tables (elements.dropLast ++ [last])) entries

/-- Put a value under the last of the keys; nothing may be there yet. -/
def addValue (isDotted : Bool) (key : String) (value : Value) (origin : Origin)
    (entries : Entries) : Option Entries :=
  if isDotted && origin != .dotted then none
  else if (find? key entries).isSome then none
  else some (entries ++ [(key, .value value)])

def add? (path : List String) (value : Value) (entries : Entries) : Option Entries :=
  match path.getLast? with
  | none => none
  | some key =>
      let before := path.dropLast
      update true (addValue (!before.isEmpty) key value) before .defined entries

end Entries

mutual

def Node.toValue : Node → Value
  | .value value => value
  | .table _ entries => .table (toValues entries)
  | .tables elements => .array (toTables elements)

def toValues : List (String × Node) → List (String × Value)
  | [] => []
  | (key, node) :: rest => (key, node.toValue) :: toValues rest

def toTables : List (List (String × Node)) → List Value
  | [] => []
  | entries :: rest => .table (toValues entries) :: toTables rest

end

inductive Opening where
  | root
  | table (path : List String)
  /-- One more of a list of tables. -/
  | element (path : List String)
  deriving Repr

/-- A document read so far: finished tables, and the one that lines are added to. -/
structure Document where
  root : Entries
  opening : Opening
  current : Entries

namespace Document

def start : Document := ⟨[], .root, []⟩

/-- Change the table that holds the last key of a path. -/
def updateParent (path : List String) (change : String → Entries → Option Entries)
    (root : Entries) : Option Entries :=
  match path.getLast? with
  | none => none
  | some key => Entries.update false (fun _ => change key) path.dropLast .defined root

def close? (document : Document) : Option Entries :=
  match document.opening with
  | .root => some document.current
  | .table path =>
      updateParent path
        (fun key entries => some (Entries.put key (.table .defined document.current) entries))
        document.root
  | .element path =>
      updateParent path
        (fun key entries =>
          match Entries.find? key entries with
          | none => some (Entries.put key (.tables [document.current]) entries)
          | some (.tables elements) =>
              some (Entries.put key (.tables (elements ++ [document.current])) entries)
          | some _ => none)
        document.root

/-- What is at a path: the node there, or none when the way is open and nothing is there. -/
def at? : List String → Entries → Option (Option Node)
  | [], _ => none
  | [key], entries => some (Entries.find? key entries)
  | key :: path, entries =>
      match Entries.find? key entries with
      | none => some none
      | some (.value _) => none
      | some (.table _ child) => at? path child
      | some (.tables elements) => elements.getLast?.bind (at? path)

/-- Take a table out that is given a header of its own now. -/
def takeOut? (path : List String) (root : Entries) : Option Entries :=
  updateParent path (fun key entries => some (Entries.remove key entries)) root

/-- A header of a table. What is there already must only have been passed through. -/
def openTable? (document : Document) (path : List String) : Option Document := do
  let root ← document.close?
  match ← at? path root with
  | none => return ⟨← takeOut? path root, .table path, []⟩
  | some (.table .passedThrough entries) => return ⟨← takeOut? path root, .table path, entries⟩
  | some _ => none

def openElement? (document : Document) (path : List String) : Option Document := do
  let root ← document.close?
  match ← at? path root with
  | none => return ⟨root, .element path, []⟩
  | some (.tables _) => return ⟨root, .element path, []⟩
  | some _ => none

def add? (document : Document) (path : List String) (value : Value) : Option Document :=
  (Entries.add? path value document.current).map fun current => { document with current }

def finish? (document : Document) : Option (List (String × Value)) :=
  document.close?.map toValues

end Document

end EventBus.Toml
