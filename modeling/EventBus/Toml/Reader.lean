import EventBus.Toml.Scalar
import EventBus.Toml.Tree

/-!
Reading TOML documents. A document is a list of lines, each of them empty, a key with a
value, or a header; a value may go on over several lines. Arrays and inline tables nest to
a limit, and so do the parts of a key.
-/

namespace EventBus.Toml

/-- How deep values may nest, and how many parts a key may have. -/
def maxDepth : Nat := 79

def isBareChar (c : Char) : Bool := c.isAlphanum || c == '-' || c == '_'

def simpleKey? : List Char → Option (List Char × List Char)
  | [] => none
  | c :: cs =>
      if c = '"' ∨ c = '\'' then lineString? (c :: cs)
      else if isBareChar c then
        some ((c :: cs).takeWhile isBareChar, (c :: cs).dropWhile isBareChar)
      else none

/-- A key of so many parts at most, with the blanks around it, and the text after it. -/
def key? : Nat → List Char → Option (List String × List Char)
  | 0, _ => none
  | most + 1, cs => do
      let (part, rest) ← simpleKey? (skipSpace cs)
      match skipSpace rest with
      | '.' :: rest =>
          let (parts, rest) ← key? most rest
          return (String.ofList part :: parts, rest)
      | rest => return ([String.ofList part], rest)

def skipBlanks? (inComment : Bool) : List Char → Option (List Char)
  | [] => some []
  | '\n' :: rest => skipBlanks? false rest
  | '\r' :: '\n' :: rest => skipBlanks? false rest
  | c :: rest =>
      if inComment then if isTextChar c then skipBlanks? true rest else none
      else if c = '#' then skipBlanks? true rest
      else if isSpace c then skipBlanks? false rest
      else some (c :: rest)

/-- Items after one another, each read by the given reader, up to the closing bracket. -/
def items? (read : List Char → Option (Value × List Char)) :
    Nat → List Char → Option (List Value × List Char)
  | 0, _ => none
  | fuel + 1, cs => do
      match ← skipBlanks? false cs with
      | ']' :: rest => return ([], rest)
      | cs =>
          let (item, rest) ← read cs
          match ← skipBlanks? false rest with
          | ']' :: rest => return ([item], rest)
          | ',' :: rest =>
              let (items, rest) ← items? read fuel rest
              return (item :: items, rest)
          | _ => none

def keyValue? (read : List Char → Option (Value × List Char)) (cs : List Char) :
    Option ((List String × Value) × List Char) := do
  let (path, rest) ← key? maxDepth cs
  let (value, rest) ← read (skipSpace (← word? ['='] rest))
  return ((path, value), rest)

def inlineEntries? (read : List Char → Option (Value × List Char)) :
    Nat → Entries → List Char → Option (Entries × List Char)
  | 0, _, _ => none
  | fuel + 1, entries, cs => do
      let ((path, value), rest) ← keyValue? read cs
      let entries ← Entries.add? path value entries
      match skipSpace rest with
      | '\x7d' :: rest => return (entries, rest)
      | ',' :: rest => inlineEntries? read fuel entries rest
      | _ => none

def value? : Nat → List Char → Option (Value × List Char)
  | 0, '[' :: _ => none
  | 0, '\x7b' :: _ => none
  | depth + 1, '[' :: rest =>
      (items? (value? depth) (rest.length + 1) rest).map fun (items, rest) =>
        (.array items, rest)
  | depth + 1, '\x7b' :: rest =>
      match skipSpace rest with
      | '\x7d' :: rest => some (.table [], rest)
      | rest =>
          (inlineEntries? (value? depth) (rest.length + 1) [] rest).map fun (entries, rest) =>
            (.table (toValues entries), rest)
  | _, cs => scalarValue? cs

/-- Text after the end of a line, before which blanks and a comment may stand. -/
def lineEnd? (cs : List Char) : Option (List Char) :=
  let rest := match skipSpace cs with
    | '#' :: rest => rest.dropWhile isTextChar
    | rest => rest
  match rest with
  | [] => some []
  | '\n' :: rest => some rest
  | '\r' :: '\n' :: rest => some rest
  | _ => none

inductive Line where
  | empty
  | entry (path : List String) (value : Value)
  | header (path : List String)
  | elementHeader (path : List String)
  deriving Repr

def lineStart? : List Char → Option (Line × List Char)
  | [] => some (.empty, [])
  | '[' :: '[' :: cs => do
      let (path, rest) ← key? maxDepth cs
      return (.elementHeader path, ← word? [']', ']'] rest)
  | '[' :: cs => do
      let (path, rest) ← key? maxDepth cs
      return (.header path, ← word? [']'] rest)
  | c :: cs =>
      if c = '#' ∨ c = '\n' ∨ c = '\r' then some (.empty, c :: cs)
      else (keyValue? (value? maxDepth) (c :: cs)).map fun ((path, value), rest) =>
        (.entry path value, rest)

def line? (cs : List Char) : Option (Line × List Char) := do
  let (line, rest) ← lineStart? (skipSpace cs)
  return (line, ← lineEnd? rest)

def lines? : Nat → List Char → Option (List Line)
  | _, [] => some []
  | 0, _ => none
  | fuel + 1, cs => do
      let (line, rest) ← line? cs
      return line :: (← lines? fuel rest)

def Document.addLine? (document : Document) : Line → Option Document
  | .empty => some document
  | .entry path value => document.add? path value
  | .header path => document.openTable? path
  | .elementHeader path => document.openElement? path

def dropByteOrderMark : List Char → List Char
  | c :: cs => if c.toNat = 0xFEFF then cs else c :: cs
  | [] => []

def read? (s : String) : Option (List (String × Value)) := do
  let cs := dropByteOrderMark s.toList
  let lines ← lines? (cs.length + 1) cs
  (← lines.foldlM Document.addLine? Document.start).finish?

end EventBus.Toml
