import EventBus.Text.Blank
import EventBus.Text.Word
import EventBus.Time.Instant

/-!
Lengths of time as text: numbers with units, one after the other, such as one minute and
thirty seconds. A number may have a fraction; blanks may stand anywhere but inside the name
of a unit. Written, a length is split into years, months, days and so on, and parts that
are zero are left out. A year has 365.25 days here and a month 30.44.
-/

namespace EventBus

inductive TimeUnit where
  | nanosecond
  | microsecond
  | millisecond
  | second
  | minute
  | hour
  | day
  | week
  | month
  | year
  deriving DecidableEq, Repr

namespace TimeUnit

def microSign : Char := Char.ofNat 0xB5

def all : List TimeUnit :=
  [nanosecond, microsecond, millisecond, second, minute, hour, day, week, month, year]

def names : TimeUnit → List String
  | .nanosecond => ["nanos", "nsec", "ns"]
  | .microsecond => ["usec", "us", String.ofList [microSign, 's']]
  | .millisecond => ["millis", "msec", "ms"]
  | .second => ["seconds", "second", "secs", "sec", "s"]
  | .minute => ["minutes", "minute", "min", "mins", "m"]
  | .hour => ["hours", "hour", "hrs", "hr", "h"]
  | .day => ["days", "day", "d"]
  | .week => ["weeks", "week", "wk", "wks", "w"]
  | .month => ["months", "month", "M"]
  | .year => ["years", "year", "yr", "yrs", "y"]

def ofName? (name : String) : Option TimeUnit := all.find? fun unit => unit.names.contains name

/-- A unit in seconds, or in nanoseconds if it is shorter than a second. -/
def scale : TimeUnit → Nat × Nat
  | .nanosecond => (0, 1)
  | .microsecond => (0, 1000)
  | .millisecond => (0, 1000000)
  | .second => (1, 0)
  | .minute => (60, 0)
  | .hour => (3600, 0)
  | .day => (86400, 0)
  | .week => (604800, 0)
  | .month => (2630016, 0)
  | .year => (31557600, 0)

/-- What a fraction of the unit is counted in: nanoseconds up to the minute, then seconds. -/
def fractionScale : TimeUnit → Nat × Nat
  | .second => (0, 1000000000)
  | .minute => (0, 60000000000)
  | unit => unit.scale

end TimeUnit

namespace Span

def zero : Span := ⟨0, 0⟩

def add? (span : Span) (seconds nanos : Nat) : Option Span :=
  let total := span.nanos + nanos
  let seconds := span.seconds + seconds + total / Instant.nanosPerSecond
  if total < Word.bound ∧ seconds < Word.bound then
    some ⟨seconds, total % Instant.nanosPerSecond⟩
  else none

def times? (n : Nat) (scale : Nat × Nat) : Option (Nat × Nat) :=
  if n * scale.1 < Word.bound ∧ n * scale.2 < Word.bound then some (n * scale.1, n * scale.2)
  else none

/-- A number as written: the whole part, and the fraction as a quotient. -/
structure Amount where
  whole : Nat
  fraction? : Option (Nat × Nat)
  deriving Repr

def addAmount? (span : Span) (amount : Amount) (unit : TimeUnit) : Option Span := do
  let (seconds, nanos) ← times? amount.whole unit.scale
  let span ← span.add? seconds nanos
  match amount.fraction? with
  | none => return span
  | some (numerator, denominator) =>
      let (seconds, nanos) ← times? numerator unit.fractionScale
      span.add? (seconds / denominator) (nanos / denominator)

/-- Add an amount of the unit with a name, whose letters are held backwards. -/
def addNamed? (span : Span) (amount : Amount) (letters : List Char) : Option Span :=
  (TimeUnit.ofName? (String.ofList letters.reverse)).bind (span.addAmount? amount)

def moreDigits? (n : Nat) (c : Char) : Option Nat :=
  let next := n * 10 + (c.toNat - '0'.toNat)
  if next < Word.bound then some next else none

def isUnitLetter (c : Char) : Bool := c.isAlpha || c == TimeUnit.microSign

inductive Reading where
  | start
  | between
  | whole (n : Nat)
  | fraction (whole numerator denominator : Nat)
  | unit (amount : Amount) (letters : List Char)
  deriving Repr

def readFrom? (span : Span) : Reading → List Char → Option Span
  | .start, [] => none
  | .between, [] => some span
  | .whole _, [] => none
  | .fraction .., [] => none
  | .unit amount letters, [] => span.addNamed? amount letters
  | .start, c :: cs =>
      if c.isDigit then readFrom? span (.whole (c.toNat - '0'.toNat)) cs
      else if isBlank c then readFrom? span .start cs
      else none
  | .between, c :: cs =>
      if c.isDigit then readFrom? span (.whole (c.toNat - '0'.toNat)) cs
      else if isBlank c then readFrom? span .between cs
      else none
  | .whole n, c :: cs =>
      if c.isDigit then (moreDigits? n c).bind fun n => readFrom? span (.whole n) cs
      else if isBlank c then readFrom? span (.whole n) cs
      else if isUnitLetter c then readFrom? span (.unit ⟨n, none⟩ [c]) cs
      else if c = '.' then readFrom? span (.fraction n 0 1) cs
      else none
  | .fraction n numerator denominator, c :: cs =>
      if c.isDigit then
        if denominator * 10 < Word.bound then
          (moreDigits? numerator c).bind fun numerator =>
            readFrom? span (.fraction n numerator (denominator * 10)) cs
        else none
      else if isBlank c then readFrom? span (.fraction n numerator denominator) cs
      else if isUnitLetter c ∧ denominator ≠ 1 then
        readFrom? span (.unit ⟨n, some (numerator, denominator)⟩ [c]) cs
      else none
  | .unit amount letters, c :: cs =>
      if c.isDigit then
        (span.addNamed? amount letters).bind fun span =>
          readFrom? span (.whole (c.toNat - '0'.toNat)) cs
      else if isBlank c then
        (span.addNamed? amount letters).bind fun span => readFrom? span .between cs
      else if isUnitLetter c then readFrom? span (.unit amount (c :: letters)) cs
      else none

/-- The length of time a text stands for. A lone zero needs no unit. -/
def read? (s : String) : Option Span :=
  if s = "0" then some zero else readFrom? zero .start s.toList

/-- A number with the short name of its unit, if it is not zero. -/
def part (n : Nat) (unit : String) : List String := if n = 0 then [] else [toString n ++ unit]

def partPlural (n : Nat) (unit : String) : List String :=
  if n = 0 then [] else [toString n ++ unit ++ if n = 1 then "" else "s"]

def parts (span : Span) : List String :=
  let inYear := span.seconds % 31557600
  let inMonth := inYear % 2630016
  let inDay := inMonth % 86400
  partPlural (span.seconds / 31557600) "year"
    ++ partPlural (inYear / 2630016) "month"
    ++ partPlural (inMonth / 86400) "day"
    ++ part (inDay / 3600) "h"
    ++ part (inDay % 3600 / 60) "m"
    ++ part (inDay % 60) "s"
    ++ part (span.nanos / 1000000) "ms"
    ++ part (span.nanos / 1000 % 1000) "us"
    ++ part (span.nanos % 1000) "ns"

def text (span : Span) : String :=
  if span = zero then "0s" else String.intercalate " " span.parts

end Span

end EventBus
