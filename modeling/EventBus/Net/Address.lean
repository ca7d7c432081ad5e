import EventBus.Text.Word

/-!
Socket addresses as text: four decimal bytes or, in brackets, eight groups of hexadecimal
digits, and a port. One run of zero groups may be left out, and the last two groups may be
written as four decimal bytes. A zone may follow the groups. Written, the longest run of
two or more zero groups is left out, the first of several equally long.
-/

namespace EventBus

inductive Address where
  | v4 (a b c d : Nat) (port : Nat)
  | v6 (groups : List Nat) (zone : Nat) (port : Nat)
  deriving DecidableEq, Repr, Inhabited

namespace Address

def digit? (base : Nat) (c : Char) : Option Nat :=
  let value? :=
    if '0' ≤ c ∧ c ≤ '9' then some (c.toNat - '0'.toNat)
    else if 'a' ≤ c ∧ c ≤ 'f' then some (c.toNat - 'a'.toNat + 10)
    else if 'A' ≤ c ∧ c ≤ 'F' then some (c.toNat - 'A'.toNat + 10)
    else none
  value?.filter (· < base)

def isDigitIn (base : Nat) (c : Char) : Bool := (digit? base c).isSome

def valueOf (base : Nat) (digits : List Char) : Nat :=
  digits.foldl (fun n c => n * base + (digit? base c).getD 0) 0

/-- A number of up to so many digits below a bound, and what follows it. -/
def number? (base maxDigits bound : Nat) (zeros : Bool) (cs : List Char) :
    Option (Nat × List Char) :=
  let digits := cs.takeWhile (isDigitIn base)
  let n := valueOf base digits
  if digits.isEmpty || maxDigits < digits.length then none
  else if !zeros && 1 < digits.length && digits.head? == some '0' then none
  else if n < bound then some (n, cs.dropWhile (isDigitIn base))
  else none

def after? (expected : Char) : List Char → Option (List Char)
  | c :: cs => if c = expected then some cs else none
  | [] => none

def byte? (cs : List Char) : Option (Nat × List Char) := number? 10 3 256 false cs

def bytes? (cs : List Char) : Option ((Nat × Nat × Nat × Nat) × List Char) := do
  let (a, cs) ← byte? cs
  let (b, cs) ← byte? (← after? '.' cs)
  let (c, cs) ← byte? (← after? '.' cs)
  let (d, cs) ← byte? (← after? '.' cs)
  return ((a, b, c, d), cs)

/-- A number of any length below a bound; zeros may stand in front. -/
def counter? (bound : Nat) (cs : List Char) : Option (Nat × List Char) :=
  number? 10 cs.length bound true cs

def port? (cs : List Char) : Option (Nat × List Char) := do counter? 65536 (← after? ':' cs)

def separated? (first : Bool) (cs : List Char) : Option (List Char) :=
  if first then some cs else after? ':' cs

/--
Up to so many groups and what follows them, and whether the last two were written as four
bytes, which needs room for two.
-/
def groups (first : Bool) : Nat → List Char → List Nat × Bool × List Char
  | 0, cs => ([], false, cs)
  | room + 1, cs =>
      match if room = 0 then none else (separated? first cs).bind bytes? with
      | some ((a, b, c, d), rest) => ([a * 256 + b, c * 256 + d], true, rest)
      | none =>
          match (separated? first cs).bind (number? 16 4 65536 true) with
          | some (group, rest) =>
              let (more, embedded, rest) := groups false room rest
              (group :: more, embedded, rest)
          | none => ([], false, cs)

/-- Eight groups, of which a run of zeros may have been left out. -/
def eightGroups? (cs : List Char) : Option (List Nat × List Char) :=
  let (head, embedded, rest) := groups true 8 cs
  if head.length = 8 then some (head, rest)
  else if embedded then none
  else match rest with
    | ':' :: ':' :: rest =>
        let (tail, _, rest) := groups true (7 - head.length) rest
        some (head ++ List.replicate (8 - head.length - tail.length) 0 ++ tail, rest)
    | _ => none

def zone (cs : List Char) : Nat × List Char :=
  match (after? '%' cs).bind (counter? (Nat.pow 2 32)) with
  | some found => found
  | none => (0, cs)

def readV4? (cs : List Char) : Option (Address × List Char) := do
  let ((a, b, c, d), cs) ← bytes? cs
  let (port, cs) ← port? cs
  return (.v4 a b c d port, cs)

def readV6? (cs : List Char) : Option (Address × List Char) := do
  let (found, cs) ← eightGroups? (← after? '[' cs)
  let (zone, cs) := zone cs
  let (port, cs) ← port? (← after? ']' cs)
  return (.v6 found zone port, cs)

def read? (s : String) : Option Address :=
  match (readV4? s.toList).or (readV6? s.toList) with
  | some (address, []) => some address
  | _ => none

def groupText (n : Nat) : String := String.ofList (Nat.toDigits 16 n)

def groupsText (groups : List Nat) : String := String.intercalate ":" (groups.map groupText)

def bytesText (a b c d : Nat) : String :=
  String.intercalate "." [toString a, toString b, toString c, toString d]

def zeroRun (groups : List Nat) : Nat := (groups.takeWhile (· == 0)).length

def longestRun (groups : List Nat) : Nat × Nat :=
  (List.range groups.length).foldl
    (fun best start =>
      let run := zeroRun (groups.drop start)
      if best.2 < run then (start, run) else best)
    (0, 0)

def hostText (groups : List Nat) : String :=
  match groups with
  | [0, 0, 0, 0, 0, 0xFFFF, g, h] =>
      "::ffff:" ++ bytesText (g / 256) (g % 256) (h / 256) (h % 256)
  | _ =>
      let (start, run) := longestRun groups
      if 1 < run then
        groupsText (groups.take start) ++ "::" ++ groupsText (groups.drop (start + run))
      else groupsText groups

def text : Address → String
  | .v4 a b c d port => bytesText a b c d ++ ":" ++ toString port
  | .v6 groups zone port =>
      "[" ++ hostText groups ++ (if zone = 0 then "" else "%" ++ toString zone) ++ "]:"
        ++ toString port

end Address

end EventBus
