/-!
Unsigned words of 64 bits in decimal. A plus sign may stand in front; digits are taken one
by one, and the first thing that is wrong decides the error.
-/

namespace EventBus.Word

def bound : Nat := Nat.pow 2 64

inductive Fault where
  | empty
  | notDigit
  | tooLarge
  deriving DecidableEq, Repr

def Fault.message : Fault → String
  | .empty => "cannot parse integer from empty string"
  | .notDigit => "invalid digit found in string"
  | .tooLarge => "number too large to fit in target type"

def readDigits (n : Nat) : List Char → Except Fault Nat
  | [] => .ok n
  | c :: cs =>
      if c.isDigit then
        let next := n * 10 + (c.toNat - '0'.toNat)
        if next < bound then readDigits next cs else .error .tooLarge
      else .error .notDigit

def read : List Char → Except Fault Nat
  | [] => .error .empty
  | ['+'] => .error .notDigit
  | '+' :: cs => readDigits 0 cs
  | cs => readDigits 0 cs

def read? (cs : List Char) : Option Nat := (read cs).toOption

end EventBus.Word
