import EventBus.Json.Basic
import EventBus.Number.Shortest

/-!
Compact JSON text. Control characters below the space, the quote and the backslash are
escaped and all else stands for itself. Fractional numbers are written with the fewest
digits that read back and always show a fraction or an exponent; a number that is not
finite is written as null.
-/

namespace EventBus.Json

/-- Fractions are plain while the number has at most sixteen digits before the point and
at most four zeros after it. -/
def numberLayout : Shortest.Layout where
  maxWhole := 16
  maxLeadingZeros := 4
  positiveExponent := "e+"
  negativeExponent := "e-"
  wholeSuffix := ".0"

def integerChars : Int → List Char
  | .ofNat n => Nat.toDigits 10 n
  | .negSucc n => '-' :: Nat.toDigits 10 (n + 1)

def numberChars : Number → List Char
  | .int n => integerChars n
  | .float x => ((Shortest.text? numberLayout x).getD "null").toList

def hexChar (n : Nat) : Char := Nat.digitChar (n % 16)

def escaped (c : Char) : List Char :=
  if c = '"' then ['\\', '"']
  else if c = '\\' then ['\\', '\\']
  else if c = '\n' then ['\\', 'n']
  else if c = '\r' then ['\\', 'r']
  else if c = '\t' then ['\\', 't']
  else if c.toNat = 8 then ['\\', 'b']
  else if c.toNat = 12 then ['\\', 'f']
  else if c.toNat < 32 then ['\\', 'u', '0', '0', hexChar (c.toNat / 16), hexChar c.toNat]
  else [c]

def stringChars (s : String) : List Char := '"' :: s.toList.flatMap escaped ++ ['"']

mutual

def chars : Json → List Char
  | .null => "null".toList
  | .bool true => "true".toList
  | .bool false => "false".toList
  | .number n => numberChars n
  | .string s => stringChars s
  | .array [] => ['[', ']']
  | .array (item :: items) => '[' :: chars item ++ itemsChars items
  | .object [] => ['\x7b', '\x7d']
  | .object ((key, value) :: entries) =>
      '\x7b' :: stringChars key ++ ':' :: chars value ++ entriesChars entries

/-- The items after the first, each with its comma, and the closing bracket. -/
def itemsChars : List Json → List Char
  | [] => [']']
  | item :: items => ',' :: chars item ++ itemsChars items

def entriesChars : List (String × Json) → List Char
  | [] => ['\x7d']
  | (key, value) :: entries =>
      ',' :: stringChars key ++ ':' :: chars value ++ entriesChars entries

end

def text (value : Json) : String := String.ofList value.chars

end EventBus.Json
