/-!
What a request is aimed at: a path and possibly a query, taken from the text of a URI. The
text is a path of its own, or a scheme and an authority with a path after them, or an
authority alone, which has no path. What follows a number sign is left out unread.
-/

namespace EventBus

structure Target where
  path : List Char
  query? : Option (List Char)
  deriving DecidableEq, Repr

namespace Target

def maxBytes : Nat := 65534

def maxScheme : Nat := 64

/-- The most colons between two brackets or outside of them. -/
def maxColons : Nat := 8

/-- A character of a path. Quotes and braces are let through although they should be escaped. -/
def isPathChar (c : Char) : Bool :=
  let n := c.toNat
  n == 0x21 || n == 0x22 || (0x24 ≤ n && n ≤ 0x3B) || n == 0x3D || (0x40 ≤ n && n ≤ 0x5F)
    || 0x61 ≤ n

def isQueryChar (c : Char) : Bool :=
  let n := c.toNat
  n == 0x21 || (0x24 ≤ n && n ≤ 0x3B) || n == 0x3D || 0x3F ≤ n

def isSchemeChar (c : Char) : Bool :=
  c.isAlphanum || c == '+' || c == '-' || c == '.' || c == '~'

def isPlainChar (c : Char) : Bool :=
  c.isAlphanum || "!$&'()*+,-.;=_~".toList.contains c

/-- A path with its query. An empty path after an authority stands for the root. -/
def ofPath? (cs : List Char) : Option Target :=
  let shown := cs.takeWhile (· != '#')
  let path := shown.takeWhile (· != '?')
  let query? := match shown.dropWhile (· != '?') with
    | [] => none
    | _ :: query => some query
  if path.all isPathChar && (query?.getD []).all isQueryChar then
    some ⟨if path.isEmpty then ['/'] else path, query?⟩
  else none

inductive Scheme where
  | absent
  | tooLong
  | present (rest : List Char)
  deriving Repr

def scheme (cs : List Char) : Scheme :=
  let name := cs.takeWhile isSchemeChar
  match cs.dropWhile isSchemeChar with
  | ':' :: '/' :: '/' :: rest => if maxScheme < name.length then .tooLong else .present rest
  | _ => .absent

structure Scan where
  colons : Nat
  opened : Bool
  closed : Bool
  /-- A percent sign stands outside of the user's name and of brackets. -/
  percent : Bool
  endsAtSign : Bool

def Scan.start : Scan := ⟨0, false, false, false, false⟩

def Scan.isComplete (scan : Scan) : Bool :=
  scan.opened == scan.closed && scan.colons ≤ 1 && !scan.endsAtSign && !scan.percent

def Scan.see? (scan : Scan) (c : Char) : Option Scan :=
  let scan := { scan with endsAtSign := false }
  if c = ':' then
    if maxColons ≤ scan.colons then none else some { scan with colons := scan.colons + 1 }
  else if c = '[' then
    if scan.percent || scan.opened then none else some { scan with opened := true }
  else if c = ']' then
    if !scan.opened || scan.closed then none
    else some { scan with closed := true, colons := 0, percent := false }
  else if c = '@' then some { scan with endsAtSign := true, colons := 0, percent := false }
  else if c = '%' then some { scan with percent := true }
  else if isPlainChar c then some scan
  else none

def afterAuthority? (scan : Scan) : List Char → Option (List Char)
  | [] => if scan.isComplete then some [] else none
  | c :: cs =>
      if c = '/' ∨ c = '?' ∨ c = '#' then if scan.isComplete then some (c :: cs) else none
      else (scan.see? c).bind fun scan => afterAuthority? scan cs

def ofAbsolute? (cs : List Char) : Option Target :=
  match scheme cs with
  | .tooLong => none
  | .absent =>
      match afterAuthority? Scan.start cs with
      | some [] => some ⟨[], none⟩
      | _ => none
  | .present rest =>
      match afterAuthority? Scan.start rest with
      | some path => if path.length = rest.length then none else ofPath? path
      | none => none

def ofChars? (cs : List Char) : Option Target :=
  match cs with
  | [] => none
  | ['*'] => some ⟨['*'], none⟩
  | '/' :: _ => ofPath? cs
  | _ => ofAbsolute? cs

def ofText? (s : String) : Option Target :=
  if maxBytes < s.utf8ByteSize then none else ofChars? s.toList

end Target

end EventBus
