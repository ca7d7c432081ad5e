/-!
Binary floating point numbers of 64 bits as exact data. A finite number is a signed
significand times a power of two, and every finite number is a whole multiple of the
least positive one, so comparisons are comparisons of integers. Reading a number is one
rounding of an exact quotient to the nearest representable value, ties to the even
significand. No machine arithmetic is involved, so everything here can be computed with
and reasoned about.
-/

namespace EventBus

/-- A binary64 value. A finite value is the significand times two to the exponent. -/
inductive Binary64 where
  | finite (negative : Bool) (significand : Nat) (exponent : Int)
  | infinite (negative : Bool)
  | nan
  deriving DecidableEq, Repr, Inhabited

namespace Binary64

def precision : Nat := 53

def minExponent : Int := -1074

def maxExponent : Int := 971

def zero (negative : Bool) : Binary64 := .finite negative 0 minExponent

/-- A finite value counted in units of the least positive value. -/
def units : Binary64 → Int
  | .finite false significand exponent =>
      (significand <<< (exponent - minExponent).toNat : Nat)
  | .finite true significand exponent =>
      -(significand <<< (exponent - minExponent).toNat : Nat)
  | _ => 0

def isFinite : Binary64 → Bool
  | .finite .. => true
  | _ => false

/-- Order of two values; a NaN is unordered with everything. -/
def compare? : Binary64 → Binary64 → Option Ordering
  | .nan, _ => none
  | _, .nan => none
  | .infinite a, .infinite b =>
      some (if a = b then .eq else if a then .lt else .gt)
  | .infinite a, .finite .. => some (if a then .lt else .gt)
  | .finite .., .infinite b => some (if b then .gt else .lt)
  | x@(.finite ..), y@(.finite ..) => some (Ord.compare x.units y.units)

/-- Numeric equality: the two zeros are equal and a NaN equals nothing. -/
def equal (x y : Binary64) : Bool := compare? x y == some .eq

def less (x y : Binary64) : Bool := compare? x y == some .lt

def atMost (x y : Binary64) : Bool := less x y || equal x y

/--
Nearest integer to a quotient, a tie going to the even neighbour. The divisor is positive.
-/
def roundQuotient (numerator divisor : Nat) : Nat :=
  let quotient := numerator / divisor
  let twice := 2 * (numerator % divisor)
  if twice < divisor then quotient
  else if divisor < twice then quotient + 1
  else if quotient % 2 = 0 then quotient else quotient + 1

def scaled (numerator divisor : Nat) (exponent : Int) : Nat × Nat :=
  if exponent < 0 then (numerator <<< (-exponent).toNat, divisor)
  else (numerator, divisor <<< exponent.toNat)

/--
The exponent at which the integer part of a positive quotient has exactly the bits of a
significand, or the least exponent when the quotient is smaller than that.
-/
def exponentOf (numerator divisor : Nat) : Int :=
  let guess := (numerator.log2 : Int) - divisor.log2 - precision
  let (n, d) := scaled numerator divisor guess
  let exact := if n / d < Nat.pow 2 precision then guess else guess + 1
  max exact minExponent

/-- The value nearest to a quotient; too large a quotient becomes an infinity. -/
def ofQuotient (negative : Bool) (numerator divisor : Nat) : Binary64 :=
  if numerator = 0 then zero negative
  else
    let exponent := exponentOf numerator divisor
    let (n, d) := scaled numerator divisor exponent
    let significand := roundQuotient n d
    let (significand, exponent) :=
      if significand = Nat.pow 2 precision then (Nat.pow 2 (precision - 1), exponent + 1)
      else (significand, exponent)
    if maxExponent < exponent then .infinite negative
    else .finite negative significand exponent

def ofInt (n : Int) : Binary64 := ofQuotient (decide (n < 0)) n.natAbs 1

/--
The value nearest to decimal digits times a power of ten. Powers far outside the range of
the format are decided by their size alone, without forming the number.
-/
def ofDecimal (negative : Bool) (digits : Nat) (exponent : Int) : Binary64 :=
  if digits = 0 then zero negative
  else
    let places : Int := (Nat.toDigits 10 digits).length + exponent
    if 400 < places then .infinite negative
    else if places < -400 then zero negative
    else if exponent < 0 then ofQuotient negative digits (Nat.pow 10 (-exponent).toNat)
    else ofQuotient negative (digits * Nat.pow 10 exponent.toNat) 1

end Binary64

end EventBus
