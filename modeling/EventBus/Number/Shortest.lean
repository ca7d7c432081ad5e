import EventBus.Number.Binary64

/-!
The fewest decimal digits that read back to a given binary64 value. The reals that round
to the value form an interval. For one digit, two digits and so on, the two decimal
numbers of that many digits around the value are tested for lying in the interval; the
first length with a hit wins, of two hits the nearer, and of two equally near ones the
even one. How the digits are laid out as text is a separate choice, made by a record.
-/

namespace EventBus.Shortest

/-- A positive decimal number: digits times a power of ten. -/
structure Decimal where
  digits : Nat
  exponent : Int
  deriving DecidableEq, Repr

def scaleTen (numerator divisor : Nat) (exponent : Int) : Nat × Nat :=
  if exponent < 0 then (numerator, divisor * Nat.pow 10 (-exponent).toNat)
  else (numerator * Nat.pow 10 exponent.toNat, divisor)

/-- The power of ten of the leading digit of a positive fraction. -/
def leadingPower (numerator divisor : Nat) : Int :=
  if divisor ≤ numerator then (Nat.toDigits 10 (numerator / divisor)).length - 1
  else
    let length := (Nat.toDigits 10 (divisor / numerator)).length
    if divisor ≤ numerator * Nat.pow 10 (length - 1) then -((length : Int) - 1)
    else -(length : Int)

/--
Four times the value, and the ends of its rounding interval on the same scale, as
multiples of a power of two: below the least significand of a binade the gap is halved.
-/
def interval (significand : Nat) (exponent : Int) : Nat × Nat × Nat :=
  let below :=
    if significand = Nat.pow 2 (Binary64.precision - 1) ∧ Binary64.minExponent < exponent then 1
    else 2
  (4 * significand - below, 4 * significand, 4 * significand + 2)

/--
The decimal of a given grid that reads back, if there is one. The numbers passed are the
ends of the interval and its middle counted in grid steps of size `step`.
-/
def onGrid (low middle high step : Nat) (closed : Bool) : Option Nat :=
  let floor := middle / step
  let inside (digits : Nat) : Bool :=
    if closed then low ≤ digits * step && digits * step ≤ high
    else low < digits * step && digits * step < high
  let up := floor + 1
  match inside floor, inside up with
  | false, false => none
  | true, false => some floor
  | false, true => some up
  | true, true =>
      let toFloor := middle - floor * step
      let toUp := up * step - middle
      if toFloor < toUp then some floor
      else if toUp < toFloor then some up
      else if floor % 2 = 0 then some floor else some up

def dropZeros : Nat → Decimal → Decimal
  | 0, decimal => decimal
  | fuel + 1, decimal =>
      if decimal.digits ≠ 0 ∧ decimal.digits % 10 = 0 then
        dropZeros fuel ⟨decimal.digits / 10, decimal.exponent + 1⟩
      else decimal

def search (significand : Nat) (exponent power : Int) : List Nat → Option Decimal
  | [] => none
  | count :: counts =>
      let grid : Int := power - count + 1
      let (low, middle, high) := interval significand exponent
      let factor : Nat × Nat :=
        let (n, d) := scaleTen 1 1 (-grid)
        if exponent - 2 < 0 then (n, d <<< (2 - exponent).toNat)
        else (n <<< (exponent - 2).toNat, d)
      match onGrid (low * factor.1) (middle * factor.1) (high * factor.1) factor.2
          (significand % 2 = 0) with
      | some digits => some ⟨digits, grid⟩
      | none => search significand exponent power counts

/-- The shortest decimal that reads back to a positive finite value. -/
def ofFinite (significand : Nat) (exponent : Int) : Decimal :=
  let (n, d) : Nat × Nat :=
    if exponent < 0 then (significand, 1 <<< (-exponent).toNat)
    else (significand <<< exponent.toNat, 1)
  let found := search significand exponent (leadingPower n d) (List.range' 1 17)
  dropZeros 20 (found.getD ⟨significand, 0⟩)

/--
How digits become text: plain notation is used while the decimal point stands within the
given distance of the first digit, and an exponent otherwise.
-/
structure Layout where
  /-- Most digits before the point in plain notation. -/
  maxWhole : Int
  /-- Most zeros between the point and the first digit in plain notation. -/
  maxLeadingZeros : Int
  positiveExponent : String
  negativeExponent : String
  /-- What follows a whole number in plain notation. -/
  wholeSuffix : String

def digitsText (n : Nat) : String := String.ofList (Nat.toDigits 10 n)

def Decimal.text (decimal : Decimal) (layout : Layout) : String :=
  let digits := Nat.toDigits 10 decimal.digits
  let point : Int := digits.length + decimal.exponent
  if 0 ≤ decimal.exponent ∧ point ≤ layout.maxWhole then
    String.ofList (digits ++ List.replicate decimal.exponent.toNat '0') ++ layout.wholeSuffix
  else if 0 < point ∧ point ≤ layout.maxWhole then
    String.ofList (digits.take point.toNat ++ '.' :: digits.drop point.toNat)
  else if point ≤ 0 ∧ -point ≤ layout.maxLeadingZeros then
    String.ofList ('0' :: '.' :: List.replicate (-point).toNat '0' ++ digits)
  else
    let exponent := point - 1
    let separator := if exponent < 0 then layout.negativeExponent else layout.positiveExponent
    let mantissa := match digits with
      | first :: second :: rest => first :: '.' :: second :: rest
      | short => short
    String.ofList mantissa ++ separator ++ digitsText exponent.natAbs

def text? (layout : Layout) : Binary64 → Option String
  | .finite negative significand exponent =>
      let sign := if negative then "-" else ""
      if significand = 0 then some (sign ++ "0" ++ layout.wholeSuffix)
      else some (sign ++ (ofFinite significand exponent).text layout)
  | _ => none

end EventBus.Shortest
