import EventBus.Number.Binary64
import EventBus.Toml.Basic

/-!
Reading TOML strings, numbers and dates.
-/

namespace EventBus.Toml

def isSpace (c : Char) : Bool := c == ' ' || c == '\t'

def skipSpace (cs : List Char) : List Char := cs.dropWhile isSpace

/-- A character that may stand in text unescaped, quotes apart: tab, and all but controls. -/
def isTextChar (c : Char) : Bool := c == '\t' || (32 ≤ c.toNat && c.toNat != 127)

def digit? (base : Nat) (c : Char) : Option Nat :=
  let value? :=
    if '0' ≤ c ∧ c ≤ '9' then some (c.toNat - '0'.toNat)
    else if 'a' ≤ c ∧ c ≤ 'f' then some (c.toNat - 'a'.toNat + 10)
    else if 'A' ≤ c ∧ c ≤ 'F' then some (c.toNat - 'A'.toNat + 10)
    else none
  value?.filter (· < base)

def digitsValue? (base : Nat) (digits : List Char) : Option Nat :=
  digits.foldlM (fun n c => (digit? base c).map (n * base + ·)) 0

def scalar? (digits : List Char) : Option Char := do
  let n ← digitsValue? 16 digits
  if n < 0xD800 ∨ (0xE000 ≤ n ∧ n < 0x110000) then return Char.ofNat n else none

def shortEscape? (c : Char) : Option Char :=
  if c = 'b' then some (Char.ofNat 8)
  else if c = 't' then some '\t'
  else if c = 'n' then some '\n'
  else if c = 'f' then some (Char.ofNat 12)
  else if c = 'r' then some '\r'
  else if c = '"' then some '"'
  else if c = '\\' then some '\\'
  else none

def consChar (c : Char) (read : List Char × List Char) : List Char × List Char :=
  (c :: read.1, read.2)

def basicRest? : List Char → Option (List Char × List Char)
  | [] => none
  | '"' :: rest => some ([], rest)
  | '\\' :: 'u' :: a :: b :: c :: d :: rest =>
      (scalar? [a, b, c, d]).bind fun x => (basicRest? rest).map (consChar x)
  | '\\' :: 'U' :: a :: b :: c :: d :: e :: f :: g :: h :: rest =>
      (scalar? [a, b, c, d, e, f, g, h]).bind fun x => (basicRest? rest).map (consChar x)
  | '\\' :: c :: rest => (shortEscape? c).bind fun x => (basicRest? rest).map (consChar x)
  | c :: rest =>
      if isTextChar c && c != '\\' then (basicRest? rest).map (consChar c) else none

def literalRest? : List Char → Option (List Char × List Char)
  | [] => none
  | '\'' :: rest => some ([], rest)
  | c :: rest => if isTextChar c then (literalRest? rest).map (consChar c) else none

inductive LinesMode where
  | text
  /-- After a backslash at the end of a line: blanks up to the line's end. -/
  | lineEnd
  /-- After that: blanks and line ends, which do not count. -/
  | indent
  deriving DecidableEq, Repr

/-- Up to two marks that stand before the three that close a string. -/
def closingMarks (mark : Char) : List Char → List Char × List Char
  | a :: b :: rest =>
      if a = mark ∧ b = mark then ([mark, mark], rest)
      else if a = mark then ([mark], b :: rest)
      else ([], a :: b :: rest)
  | [a] => if a = mark then ([mark], []) else ([], [a])
  | [] => ([], [])

def basicLinesRest? : LinesMode → List Char → Option (List Char × List Char)
  | _, [] => none
  | .lineEnd, '\n' :: rest => basicLinesRest? .indent rest
  | .lineEnd, '\r' :: '\n' :: rest => basicLinesRest? .indent rest
  | .lineEnd, c :: rest => if isSpace c then basicLinesRest? .lineEnd rest else none
  | _, '"' :: '"' :: '"' :: rest => some (closingMarks '"' rest)
  | _, '\\' :: 'u' :: a :: b :: c :: d :: rest =>
      (scalar? [a, b, c, d]).bind fun x => (basicLinesRest? .text rest).map (consChar x)
  | _, '\\' :: 'U' :: a :: b :: c :: d :: e :: f :: g :: h :: rest =>
      (scalar? [a, b, c, d, e, f, g, h]).bind fun x =>
        (basicLinesRest? .text rest).map (consChar x)
  | _, '\\' :: c :: rest =>
      if isSpace c ∨ c = '\n' ∨ c = '\r' then basicLinesRest? .lineEnd (c :: rest)
      else (shortEscape? c).bind fun x => (basicLinesRest? .text rest).map (consChar x)
  | mode, '\r' :: '\n' :: rest =>
      if mode = .indent then basicLinesRest? .indent rest
      else (basicLinesRest? .text rest).map (consChar '\n')
  | mode, c :: rest =>
      if mode = .indent ∧ (isSpace c ∨ c = '\n') then basicLinesRest? .indent rest
      else if (isTextChar c && c != '\\') || c == '\n' then
        (basicLinesRest? .text rest).map (consChar c)
      else none

def literalLinesRest? : List Char → Option (List Char × List Char)
  | [] => none
  | '\'' :: '\'' :: '\'' :: rest => some (closingMarks '\'' rest)
  | '\r' :: '\n' :: rest => (literalLinesRest? rest).map (consChar '\n')
  | c :: rest =>
      if isTextChar c || c == '\n' then (literalLinesRest? rest).map (consChar c) else none

/-- Text after a line end, which does not count at the start of a string over several lines. -/
def dropNewline : List Char → List Char
  | '\n' :: rest => rest
  | '\r' :: '\n' :: rest => rest
  | cs => cs

def lineString? : List Char → Option (List Char × List Char)
  | '"' :: rest => basicRest? rest
  | '\'' :: rest => literalRest? rest
  | _ => none

def string? : List Char → Option (List Char × List Char)
  | '"' :: '"' :: '"' :: rest => basicLinesRest? .text (dropNewline rest)
  | '\'' :: '\'' :: '\'' :: rest => literalLinesRest? (dropNewline rest)
  | cs => lineString? cs

/-- Digits with single underscores between them, after a digit; and the text after them. -/
def moreDigits? (base : Nat) : List Char → Option (List Char × List Char)
  | '_' :: c :: rest =>
      if (digit? base c).isSome then (moreDigits? base rest).map (consChar c) else none
  | c :: rest =>
      if (digit? base c).isSome then (moreDigits? base rest).map (consChar c)
      else if c = '_' then none
      else some ([], c :: rest)
  | [] => some ([], [])

def digits? (base : Nat) : List Char → Option (List Char × List Char)
  | c :: rest =>
      if (digit? base c).isSome then (moreDigits? base rest).map (consChar c) else none
  | [] => none

/-- A decimal number without its sign: a lone zero, or digits that do not start with zero. -/
def decimal? : List Char → Option (List Char × List Char)
  | '0' :: rest => some (['0'], rest)
  | cs => digits? 10 cs

def sign : List Char → Option Bool × List Char
  | '-' :: rest => (some true, rest)
  | '+' :: rest => (some false, rest)
  | cs => (none, cs)

def integerOf? (negative : Bool) (n : Nat) : Option Value :=
  if negative then if n ≤ Nat.pow 2 63 then some (.integer (-(n : Int))) else none
  else if n < Nat.pow 2 63 then some (.integer n) else none

def based? (base : Nat) (cs : List Char) : Option (Value × List Char) := do
  let (digits, rest) ← digits? base cs
  return (← integerOf? false (← digitsValue? base digits), rest)

def fractionPart? : List Char → Option (Option (List Char) × List Char)
  | '.' :: rest => (digits? 10 rest).map fun (digits, rest) => (some digits, rest)
  | cs => some (none, cs)

def exponentPart? : List Char → Option (Option Int × List Char)
  | c :: rest =>
      if c = 'e' ∨ c = 'E' then do
        let (sign?, rest) := sign rest
        let (digits, rest) ← digits? 10 rest
        let n ← digitsValue? 10 digits
        return (some (if sign? = some true then -(n : Int) else n), rest)
      else some (none, c :: rest)
  | [] => some (none, [])

/-- A decimal number with a sign, a fraction or an exponent. One too large is refused. -/
def number? (cs : List Char) : Option (Value × List Char) := do
  let (sign?, rest) := sign cs
  let negative := sign? = some true
  let (whole, rest) ← decimal? rest
  let (fraction?, rest) ← fractionPart? rest
  let (exponent?, rest) ← exponentPart? rest
  if fraction?.isNone && exponent?.isNone then
    return (← integerOf? negative (← digitsValue? 10 whole), rest)
  else
    let fraction := fraction?.getD []
    let digits ← digitsValue? 10 (whole ++ fraction)
    let x := Binary64.ofDecimal negative digits (exponent?.getD 0 - fraction.length)
    if x = .infinite false then none
    else return (.fraction (String.ofList (cs.take (cs.length - rest.length))), rest)

def word? (word cs : List Char) : Option (List Char) :=
  if word.isPrefixOf cs then some (cs.drop word.length) else none

def notFinite? (cs : List Char) : Option (Value × List Char) := do
  let rest := (sign cs).2
  let after ← (word? "inf".toList rest).or (word? "nan".toList rest)
  return (.fraction (String.ofList (cs.take (cs.length - after.length))), after)

def exactly? (count : Nat) (cs : List Char) : Option (Nat × List Char) := do
  let digits := cs.take count
  if digits.length = count then return (← digitsValue? 10 digits, cs.drop count) else none

def twoDigits? (least most : Nat) (cs : List Char) : Option (Nat × List Char) := do
  let (n, rest) ← exactly? 2 cs
  if least ≤ n ∧ n ≤ most then return (n, rest) else none

def lastDay (year month : Nat) : Nat :=
  if month = 2 then
    if year % 4 = 0 ∧ (year % 100 ≠ 0 ∨ year % 400 = 0) then 29 else 28
  else if month = 4 ∨ month = 6 ∨ month = 9 ∨ month = 11 then 30
  else 31

def day? (cs : List Char) : Option (List Char) := do
  let (year, rest) ← exactly? 4 cs
  let (month, rest) ← twoDigits? 1 12 (← word? ['-'] rest)
  let (_, rest) ← twoDigits? 1 (lastDay year month) (← word? ['-'] rest)
  return rest

def time? (cs : List Char) : Option (List Char) := do
  let (_, rest) ← twoDigits? 0 23 cs
  let (_, rest) ← twoDigits? 0 59 (← word? [':'] rest)
  let (_, rest) ← twoDigits? 0 60 (← word? [':'] rest)
  match rest with
  | '.' :: c :: after => if c.isDigit then return after.dropWhile Char.isDigit else return rest
  | _ => return rest

def offset? : List Char → Option (List Char)
  | 'Z' :: rest => some rest
  | 'z' :: rest => some rest
  | '+' :: rest => do
      let (_, rest) ← twoDigits? 0 23 rest
      let (_, rest) ← twoDigits? 0 59 (← word? [':'] rest)
      return rest
  | '-' :: rest => do
      let (_, rest) ← twoDigits? 0 23 rest
      let (_, rest) ← twoDigits? 0 59 (← word? [':'] rest)
      return rest
  | _ => none

def timeAfterDay (cs : List Char) : List Char :=
  match cs with
  | c :: rest =>
      if c = 'T' ∨ c = 't' ∨ c = ' ' then
        match time? rest with
        | some rest => (offset? rest).getD rest
        | none => cs
      else cs
  | [] => cs

def dateEnd? (cs : List Char) : Option (List Char) :=
  match day? cs with
  | some rest => some (timeAfterDay rest)
  | none => time? cs

def date? (cs : List Char) : Option (Value × List Char) := do
  let rest ← dateEnd? cs
  return (.date (String.ofList (cs.take (cs.length - rest.length))), rest)

def numeral? (cs : List Char) : Option (Value × List Char) :=
  match date? cs with
  | some found => some found
  | none =>
      match cs with
      | '0' :: 'x' :: rest => based? 16 rest
      | '0' :: 'o' :: rest => based? 8 rest
      | '0' :: 'b' :: rest => based? 2 rest
      | _ => (notFinite? cs).or (number? cs)

def scalarValue? : List Char → Option (Value × List Char)
  | [] => none
  | c :: cs =>
      if c = '"' ∨ c = '\'' then
        (string? (c :: cs)).map fun (s, rest) => (.string (String.ofList s), rest)
      else if c = 't' then (word? "rue".toList cs).map (Value.boolean true, ·)
      else if c = 'f' then (word? "alse".toList cs).map (Value.boolean false, ·)
      else numeral? (c :: cs)

end EventBus.Toml
