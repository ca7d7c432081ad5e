import EventBus.Json.Basic
import EventBus.Text.Utf8

/-!
Reading JSON text. The reader keeps the entries of an object as written; putting them in
order and dropping repeated keys is a second step. Arrays and objects may nest to a limit
that the caller gives. Beside the reader of values stands a skipper that checks the
grammar of a value and nothing else, neither nesting nor the size of numbers nor the
pairing of surrogate escapes.
-/

namespace EventBus.Json

def maxDepth : Nat := 127

def skipSpace : List Char → List Char
  | c :: rest => if c = ' ' ∨ c = '\t' ∨ c = '\n' ∨ c = '\r' then skipSpace rest else c :: rest
  | [] => []

def hexDigit? (c : Char) : Option Nat :=
  if '0' ≤ c ∧ c ≤ '9' then some (c.toNat - '0'.toNat)
  else if 'a' ≤ c ∧ c ≤ 'f' then some (c.toNat - 'a'.toNat + 10)
  else if 'A' ≤ c ∧ c ≤ 'F' then some (c.toNat - 'A'.toNat + 10)
  else none

def hexFour? (a b c d : Char) : Option Nat := do
  return ((← hexDigit? a) * 16 + (← hexDigit? b)) * 256 + (← hexDigit? c) * 16 + (← hexDigit? d)

def shortEscape? (c : Char) : Option Char :=
  if c = '"' then some '"'
  else if c = '\\' then some '\\'
  else if c = '/' then some '/'
  else if c = 'b' then some (Char.ofNat 8)
  else if c = 'f' then some (Char.ofNat 12)
  else if c = 'n' then some '\n'
  else if c = 'r' then some '\r'
  else if c = 't' then some '\t'
  else none

/-- The rest of a string after its opening quote, and the text after its closing quote. -/
def stringRest? : List Char → Option (List Char × List Char)
  | [] => none
  | '"' :: rest => some ([], rest)
  | '\\' :: 'u' :: a :: b :: c :: d :: rest => do
      let unit ← hexFour? a b c d
      if 0xD800 ≤ unit ∧ unit < 0xDC00 then
        match rest with
        | '\\' :: 'u' :: e :: f :: g :: h :: rest =>
            let low ← hexFour? e f g h
            if 0xDC00 ≤ low ∧ low < 0xE000 then
              let (cs, after) ← stringRest? rest
              return (Char.ofNat (0x10000 + (unit - 0xD800) * 1024 + (low - 0xDC00)) :: cs, after)
            else none
        | _ => none
      else if 0xDC00 ≤ unit ∧ unit < 0xE000 then none
      else
        let (cs, after) ← stringRest? rest
        return (Char.ofNat unit :: cs, after)
  | '\\' :: c :: rest => do
      let c ← shortEscape? c
      let (cs, after) ← stringRest? rest
      return (c :: cs, after)
  | c :: rest =>
      if c.toNat < 32 ∨ c = '\\' then none
      else do
        let (cs, after) ← stringRest? rest
        return (c :: cs, after)

def digitsValue (digits : List Char) : Nat :=
  digits.foldl (fun n c => n * 10 + (c.toNat - '0'.toNat)) 0

def digitRun (cs : List Char) : List Char × List Char :=
  (cs.takeWhile Char.isDigit, cs.dropWhile Char.isDigit)

structure NumberText where
  whole : List Char
  fraction : List Char
  exponent : Int
  /-- Neither a fraction nor an exponent is written. -/
  isWhole : Bool

/-- The whole part of a number: one zero, or digits that do not start with zero. -/
def wholePart? (cs : List Char) : Option (List Char × List Char) :=
  match digitRun cs with
  | ([], _) => none
  | ('0' :: _ :: _, _) => none
  | run => some run

def fractionPart? : List Char → Option (Option (List Char) × List Char)
  | '.' :: cs =>
      match digitRun cs with
      | ([], _) => none
      | (digits, rest) => some (some digits, rest)
  | cs => some (none, cs)

def exponentPart? : List Char → Option (Option Int × List Char)
  | c :: cs =>
      if c = 'e' ∨ c = 'E' then
        let (negative, cs) : Bool × List Char := match cs with
          | '-' :: cs => (true, cs)
          | '+' :: cs => (false, cs)
          | cs => (false, cs)
        match digitRun cs with
        | ([], _) => none
        | (digits, rest) =>
            let n : Int := digitsValue digits
            some (some (if negative then -n else n), rest)
      else some (none, c :: cs)
  | [] => some (none, [])

def numberText? (cs : List Char) : Option (NumberText × List Char) := do
  let (whole, rest) ← wholePart? cs
  let (fraction?, rest) ← fractionPart? rest
  let (exponent?, rest) ← exponentPart? rest
  return (⟨whole, fraction?.getD [], exponent?.getD 0, fraction?.isNone && exponent?.isNone⟩, rest)

/--
The number that a text stands for. Integers from -2^63 to 2^64-1 are exact; a minus zero
and all other numbers are rounded, and one too large to be finite is refused.
-/
def NumberText.value? (written : NumberText) (negative : Bool) : Option Number :=
  let rounded (digits : List Char) (exponent : Int) : Option Number :=
    let x := Binary64.ofDecimal negative (digitsValue digits) exponent
    if x.isFinite then some (.float x) else none
  if written.isWhole then
    let n := digitsValue written.whole
    if negative then
      if 0 < n ∧ n ≤ Nat.pow 2 63 then some (.int (-(n : Int))) else rounded written.whole 0
    else if n < Nat.pow 2 64 then some (.int n)
    else rounded written.whole 0
  else
    rounded (written.whole ++ written.fraction) (written.exponent - written.fraction.length)

def number? : List Char → Option (Number × List Char)
  | '-' :: cs => do
      let (written, rest) ← numberText? cs
      return (← written.value? true, rest)
  | cs => do
      let (written, rest) ← numberText? cs
      return (← written.value? false, rest)

def word? (word cs : List Char) : Option (List Char) :=
  if word.isPrefixOf cs then some (cs.drop word.length) else none

/-- Items after one another, each read by the given reader, up to the closing bracket. -/
def items? (read : List Char → Option (Json × List Char)) :
    Nat → List Char → Option (List Json × List Char)
  | 0, _ => none
  | fuel + 1, cs => do
      let (item, rest) ← read (skipSpace cs)
      match skipSpace rest with
      | ']' :: rest => return ([item], rest)
      | ',' :: rest =>
          let (items, rest) ← items? read fuel rest
          return (item :: items, rest)
      | _ => none

def key? (cs : List Char) : Option (String × List Char) :=
  match skipSpace cs with
  | '"' :: cs => do
      let (key, rest) ← stringRest? cs
      match skipSpace rest with
      | ':' :: rest => return (String.ofList key, skipSpace rest)
      | _ => none
  | _ => none

def entries? (read : List Char → Option (Json × List Char)) :
    Nat → List Char → Option (List (String × Json) × List Char)
  | 0, _ => none
  | fuel + 1, cs => do
      let (key, rest) ← key? cs
      let (value, rest) ← read rest
      match skipSpace rest with
      | '\x7d' :: rest => return ([(key, value)], rest)
      | ',' :: rest =>
          let (entries, rest) ← entries? read fuel rest
          return ((key, value) :: entries, rest)
      | _ => none

/-- A value that starts the text and nests no deeper than allowed, and the text after it. -/
def value? : Nat → List Char → Option (Json × List Char)
  | _, 'n' :: rest => (word? "ull".toList rest).map (Json.null, ·)
  | _, 't' :: rest => (word? "rue".toList rest).map (Json.bool true, ·)
  | _, 'f' :: rest => (word? "alse".toList rest).map (Json.bool false, ·)
  | _, '"' :: rest => (stringRest? rest).map fun (s, rest) => (Json.string (String.ofList s), rest)
  | 0, '[' :: _ => none
  | depth + 1, '[' :: rest =>
      match skipSpace rest with
      | ']' :: rest => some (.array [], rest)
      | rest => (items? (value? depth) (rest.length + 1) rest).map fun (items, rest) =>
          (Json.array items, rest)
  | 0, '\x7b' :: _ => none
  | depth + 1, '\x7b' :: rest =>
      match skipSpace rest with
      | '\x7d' :: rest => some (.object [], rest)
      | rest => (entries? (value? depth) (rest.length + 1) rest).map fun (entries, rest) =>
          (Json.object entries, rest)
  | _, cs => (number? cs).map fun (n, rest) => (Json.number n, rest)

/-- The first value of a text, its entries as written, and the text after it. -/
def leading? (depth : Nat) (cs : List Char) : Option (Json × List Char) :=
  value? depth (skipSpace cs)

def atEnd (cs : List Char) : Bool := (skipSpace cs).isEmpty

def ofChars? (cs : List Char) : Option Json := do
  let (value, rest) ← leading? maxDepth cs
  if atEnd rest then return value.canonical else none

def ofText? (s : String) : Option Json := ofChars? s.toList

def ofBytes? (bytes : List UInt8) : Option Json :=
  match Utf8.decode bytes with
  | .ok cs => ofChars? cs
  | .error _ => none

/-- The text after a string whose opening quote has been read; escapes may be unpaired. -/
def skipString? : List Char → Option (List Char)
  | [] => none
  | '"' :: rest => some rest
  | '\\' :: 'u' :: a :: b :: c :: d :: rest => do
      let _ ← hexFour? a b c d
      skipString? rest
  | '\\' :: c :: rest => do
      let _ ← shortEscape? c
      skipString? rest
  | c :: rest => if c.toNat < 32 ∨ c = '\\' then none else skipString? rest

def skipNumber? : List Char → Option (List Char)
  | '-' :: cs => (numberText? cs).map (·.2)
  | cs => (numberText? cs).map (·.2)

inductive Expect where
  | value
  | firstItem
  | firstEntry
  | entry
  | next

/--
The text after a value of any nesting. The open containers are kept as a list, true for an
object, and every step uses up at least one character.
-/
def skipFrom? : Nat → Expect → List Bool → List Char → Option (List Char)
  | 0, _, _, _ => none
  | fuel + 1, expect, stack, cs =>
      match expect, stack, skipSpace cs with
      | .next, [], _ => some cs
      | .next, isObject :: stack, ',' :: rest =>
          skipFrom? fuel (if isObject then .entry else .value) (isObject :: stack) rest
      | .next, false :: stack, ']' :: rest => skipFrom? fuel .next stack rest
      | .next, true :: stack, '\x7d' :: rest => skipFrom? fuel .next stack rest
      | .next, _ :: _, _ => none
      | .firstItem, false :: stack, ']' :: rest => skipFrom? fuel .next stack rest
      | .firstItem, stack, rest => skipFrom? fuel .value stack rest
      | .firstEntry, true :: stack, '\x7d' :: rest => skipFrom? fuel .next stack rest
      | .firstEntry, stack, rest => skipFrom? fuel .entry stack rest
      | .entry, stack, '"' :: rest => do
          match skipSpace (← skipString? rest) with
          | ':' :: rest => skipFrom? fuel .value stack rest
          | _ => none
      | .entry, _, _ => none
      | .value, stack, 'n' :: rest => (word? "ull".toList rest).bind (skipFrom? fuel .next stack)
      | .value, stack, 't' :: rest => (word? "rue".toList rest).bind (skipFrom? fuel .next stack)
      | .value, stack, 'f' :: rest => (word? "alse".toList rest).bind (skipFrom? fuel .next stack)
      | .value, stack, '"' :: rest => (skipString? rest).bind (skipFrom? fuel .next stack)
      | .value, stack, '[' :: rest => skipFrom? fuel .firstItem (false :: stack) rest
      | .value, stack, '\x7b' :: rest => skipFrom? fuel .firstEntry (true :: stack) rest
      | .value, stack, rest => (skipNumber? rest).bind (skipFrom? fuel .next stack)

/-- The text after a value that is only checked against the grammar. -/
def skip? (cs : List Char) : Option (List Char) :=
  skipFrom? (2 * cs.length + 2) .value [] cs

end EventBus.Json
