import EventBus.Toml.Basic

/-!
Writing TOML strings. There are four ways to write one: between quotes with escapes or
between apostrophes without, and each on one line or over several. A string is written the
first way, in this order, in which nothing has to be escaped: quotes on one line,
apostrophes on one line, quotes over several, apostrophes over several; failing all, it is
written between quotes with escapes.
-/

namespace EventBus.Toml

structure Traits where
  hasControl : Bool
  hasBackslash : Bool
  hasNewline : Bool
  /-- The longest run of quotes. -/
  quotes : Nat
  /-- The longest run of apostrophes. -/
  apostrophes : Nat
  deriving DecidableEq, Repr

def isControl (c : Char) : Bool :=
  (c.toNat < 32 && c != '\t' && c != '\n') || c.toNat == 127

def longestRun (mark : Char) (run : Nat) : List Char → Nat
  | [] => run
  | c :: cs => if c = mark then longestRun mark (run + 1) cs else max run (longestRun mark 0 cs)

def Traits.of (cs : List Char) : Traits where
  hasControl := cs.any isControl
  hasBackslash := cs.contains '\\'
  hasNewline := cs.contains '\n'
  quotes := longestRun '"' 0 cs
  apostrophes := longestRun '\'' 0 cs

inductive Quoting where
  | basic
  | literal
  | basicLines
  | literalLines
  deriving DecidableEq, Repr

def Traits.quoting (traits : Traits) : Quoting :=
  if !traits.hasControl && !traits.hasBackslash && traits.quotes == 0 && !traits.hasNewline then
    .basic
  else if !traits.hasControl && traits.apostrophes == 0 && !traits.hasNewline then .literal
  else if !traits.hasControl && !traits.hasBackslash && traits.quotes ≤ 2 then .basicLines
  else if !traits.hasControl && traits.apostrophes ≤ 2 then .literalLines
  else if traits.hasNewline then .basicLines
  else .basic

def hexChar (n : Nat) : Char := (Nat.digitChar (n % 16)).toUpper

/-- A character other than a quote or a line feed between quotes. -/
def escaped (c : Char) : List Char :=
  if c.toNat = 8 then ['\\', 'b']
  else if c = '\t' then ['\\', 't']
  else if c.toNat = 12 then ['\\', 'f']
  else if c = '\r' then ['\\', 'r']
  else if c = '\\' then ['\\', '\\']
  else if isControl c then ['\\', 'u', '0', '0', hexChar (c.toNat / 16), hexChar c.toNat]
  else [c]

def basicChars (cs : List Char) : List Char :=
  cs.flatMap fun c =>
    if c = '"' then ['\\', '"'] else if c = '\n' then ['\\', 'n'] else escaped c

/--
Characters between quotes over several lines. Two quotes in a row stand for themselves and
a third is escaped; the count starts anew after every escape.
-/
def basicLinesChars (quotes : Nat) : List Char → List Char
  | [] => []
  | c :: cs =>
      if c = '"' then
        if quotes = 2 then '\\' :: '"' :: basicLinesChars 0 cs
        else '"' :: basicLinesChars (quotes + 1) cs
      else if c = '\n' then '\n' :: basicLinesChars 0 cs
      else escaped c ++ basicLinesChars 0 cs

/-- A line feed in front of text that has one of its own, which is not part of the text. -/
def leadingNewline (traits : Traits) : List Char := if traits.hasNewline then ['\n'] else []

def stringChars (cs : List Char) : List Char :=
  let traits := Traits.of cs
  match traits.quoting with
  | .basic => '"' :: basicChars cs ++ ['"']
  | .literal => '\'' :: cs ++ ['\'']
  | .basicLines =>
      "\"\"\"".toList ++ leadingNewline traits ++ basicLinesChars 0 cs ++ "\"\"\"".toList
  | .literalLines => "'''".toList ++ leadingNewline traits ++ cs ++ "'''".toList

def stringText (s : String) : String := String.ofList (stringChars s.toList)

def maxInteger : Nat := Nat.pow 2 63 - 1

/-- A written count, if it is not too large. -/
def natText? (n : Nat) : Option String := if n ≤ maxInteger then some (toString n) else none

def entryLine (key value : String) : String := key ++ " = " ++ value ++ "\n"

def headerLine (key : String) : String := "\n[" ++ key ++ "]\n"

end EventBus.Toml
