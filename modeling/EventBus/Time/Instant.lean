/-!
Points of civil time in UTC. An instant is a number of seconds since 1970 and a number of
nanoseconds; a nanosecond count of a thousand million and more stands for a leap second,
which belongs to the last second of a minute and is written as second 60. The text has a
fixed width for years of four digits, so that it sorts like time.
-/

namespace EventBus

/-- Seconds since 1970 and nanoseconds. -/
structure Instant where
  seconds : Int
  nanos : Nat
  deriving DecidableEq, Repr, Inhabited

structure Span where
  seconds : Nat
  nanos : Nat
  deriving DecidableEq, Repr, Inhabited

structure Date where
  year : Int
  month : Nat
  day : Nat
  deriving DecidableEq, Repr

namespace Date

/--
The date a number of days after 1970-01-01. Years are counted from March, so that the leap
day is the last of its year, in eras of four hundred years.
-/
def ofDays (days : Int) : Date :=
  let shifted := days + 719468
  let era := shifted / 146097
  let dayOfEra := (shifted % 146097).toNat
  let yearOfEra :=
    (dayOfEra - dayOfEra / 1460 + dayOfEra / 36524 - dayOfEra / 146096) / 365
  let dayOfYear := dayOfEra - (365 * yearOfEra + yearOfEra / 4 - yearOfEra / 100)
  let marchMonth := (5 * dayOfYear + 2) / 153
  let month := if marchMonth < 10 then marchMonth + 3 else marchMonth - 9
  { year := yearOfEra + era * 400 + (if month ≤ 2 then 1 else 0)
    month := month
    day := dayOfYear - (153 * marchMonth + 2) / 5 + 1 }

end Date

namespace Instant

def nanosPerSecond : Nat := 1000000000

def secondsPerDay : Nat := 86400

/-- The first second of the calendar, at the start of the year -262143. -/
def firstSecond : Int := -8334601228800

/-- The last second of the calendar, at the end of the year 262142. -/
def lastSecond : Int := 8210266876799

/-- The instant lies within the calendar, and is a leap second only at the end of a minute. -/
def isValid (t : Instant) : Bool :=
  firstSecond ≤ t.seconds && t.seconds ≤ lastSecond && t.nanos < 2 * nanosPerSecond
    && (t.nanos < nanosPerSecond || t.seconds % 60 == 59)

/-- Order in time; within one second a leap second is later. -/
def isBefore (t u : Instant) : Bool :=
  t.seconds < u.seconds || (t.seconds == u.seconds && t.nanos < u.nanos)

/-- The longest step a clock can take: as many milliseconds as a signed word of 64 bits holds. -/
def longestStep : Span := ⟨9223372036854775, 807000000⟩

/--
Later by a span, unless the calendar ends before. A step of less than a second may stay
inside a leap second; every other step forgets it.
-/
def add? (t : Instant) (step : Span) : Option Instant :=
  let leaves : Bool := 0 < step.seconds
    || (0 < step.nanos && 2 * nanosPerSecond ≤ t.nanos + step.nanos)
  if nanosPerSecond ≤ t.nanos && !leaves then some ⟨t.seconds, t.nanos + step.nanos⟩
  else
    let nanos := (if nanosPerSecond ≤ t.nanos then t.nanos - nanosPerSecond else t.nanos) + step.nanos
    let seconds := t.seconds + step.seconds + (nanos / nanosPerSecond : Nat)
    if seconds ≤ lastSecond then some ⟨seconds, nanos % nanosPerSecond⟩ else none

def padded (width n : Nat) : List Char :=
  let digits := Nat.toDigits 10 n
  List.replicate (width - digits.length) '0' ++ digits

/-- A year: four digits, or a sign and at least four digits. -/
def yearChars (year : Int) : List Char :=
  if 0 ≤ year ∧ year ≤ 9999 then padded 4 year.natAbs
  else (if year < 0 then '-' else '+') :: padded 4 year.natAbs

def chars (t : Instant) : List Char :=
  let date := Date.ofDays (t.seconds / secondsPerDay)
  let second := (t.seconds % secondsPerDay).toNat
  let leap := if nanosPerSecond ≤ t.nanos then 1 else 0
  yearChars date.year ++ '-' :: padded 2 date.month ++ '-' :: padded 2 date.day
    ++ 'T' :: padded 2 (second / 3600) ++ ':' :: padded 2 (second / 60 % 60)
    ++ ':' :: padded 2 (second % 60 + leap)
    ++ '.' :: padded 9 (t.nanos % nanosPerSecond) ++ ['Z']

def text (t : Instant) : String := String.ofList t.chars

end Instant

end EventBus
