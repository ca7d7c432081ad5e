import EventBus.Text.Utf8

/-!
Queries as lists of names and values. Pairs are separated by ampersands and an empty one is
left out; a plus sign is a space, and a percent sign with two hexadecimal digits is a byte.
Bytes that are no text are replaced.
-/

namespace EventBus.Form

def hexValue? (b : UInt8) : Option UInt8 :=
  if 0x30 ≤ b ∧ b ≤ 0x39 then some (b - 0x30)
  else if 0x41 ≤ b ∧ b ≤ 0x46 then some (b - 0x37)
  else if 0x61 ≤ b ∧ b ≤ 0x66 then some (b - 0x57)
  else none

/-- Escaped bytes, taken literally where the escape is incomplete. -/
def unescape : List UInt8 → List UInt8
  | 0x25 :: a :: b :: rest =>
      match hexValue? a, hexValue? b with
      | some high, some low => (high * 16 + low) :: unescape rest
      | _, _ => 0x25 :: unescape (a :: b :: rest)
  | b :: rest => b :: unescape rest
  | [] => []

def spaced (bytes : List UInt8) : List UInt8 := bytes.map fun b => if b = 0x2B then 0x20 else b

def text (bytes : List UInt8) : String :=
  String.ofList (Utf8.decodeLossy (unescape (spaced bytes)))

def splitOn (separator : UInt8) : List UInt8 → List (List UInt8)
  | [] => [[]]
  | b :: rest =>
      if b = separator then [] :: splitOn separator rest
      else match splitOn separator rest with
        | [] => [[b]]
        | first :: others => (b :: first) :: others

/-- A name and a value; without an equals sign the value is empty. -/
def pair (bytes : List UInt8) : String × String :=
  let value := match bytes.dropWhile (· != 0x3D) with
    | [] => []
    | _ :: value => value
  (text (bytes.takeWhile (· != 0x3D)), text value)

def pairs (query : List Char) : List (String × String) :=
  ((splitOn 0x26 (Utf8.encode query)).filter (!·.isEmpty)).map pair

end EventBus.Form
