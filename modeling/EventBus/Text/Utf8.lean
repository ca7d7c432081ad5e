/-!
Text as bytes. Decoding either gives the characters or says where the first byte stands
that cannot be read and how many bytes belong to the broken sequence; input that ends
inside a sequence is told apart from input that is wrong. Encoding is the inverse.
-/

namespace EventBus.Utf8

/-- Where reading stopped. Without a length the input ended too early. -/
structure Fault where
  index : Nat
  length? : Option Nat
  deriving DecidableEq, Repr

def Fault.message (fault : Fault) : String :=
  match fault.length? with
  | some length =>
      "invalid utf-8 sequence of " ++ toString length ++ " bytes from index " ++ toString fault.index
  | none => "incomplete utf-8 byte sequence from index " ++ toString fault.index

def isTail (b : UInt8) : Bool := 0x80 ≤ b && b ≤ 0xBF

def tailBits (b : UInt8) : Nat := b.toNat % 64

/-- The second byte of a sequence of three keeps out short forms and surrogates. -/
def secondOfThree (first second : UInt8) : Bool :=
  if first = 0xE0 then 0xA0 ≤ second && second ≤ 0xBF
  else if first = 0xED then 0x80 ≤ second && second ≤ 0x9F
  else isTail second

/-- The second byte of a sequence of four keeps out short forms and numbers past the last. -/
def secondOfFour (first second : UInt8) : Bool :=
  if first = 0xF0 then 0x90 ≤ second && second ≤ 0xBF
  else if first = 0xF4 then 0x80 ≤ second && second ≤ 0x8F
  else isTail second

/-- The characters of the bytes, the first of which stands at the given index. -/
def decodeFrom (index : Nat) : List UInt8 → Except Fault (List Char)
  | [] => .ok []
  | a :: rest =>
      if a < 0x80 then (decodeFrom (index + 1) rest).map (Char.ofNat a.toNat :: ·)
      else if 0xC2 ≤ a ∧ a ≤ 0xDF then
        match rest with
        | [] => .error ⟨index, none⟩
        | b :: rest =>
            if isTail b then
              (decodeFrom (index + 2) rest).map
                (Char.ofNat (a.toNat % 32 * 64 + tailBits b) :: ·)
            else .error ⟨index, some 1⟩
      else if 0xE0 ≤ a ∧ a ≤ 0xEF then
        match rest with
        | [] => .error ⟨index, none⟩
        | b :: rest =>
            if secondOfThree a b then
              match rest with
              | [] => .error ⟨index, none⟩
              | c :: rest =>
                  if isTail c then
                    (decodeFrom (index + 3) rest).map
                      (Char.ofNat (a.toNat % 16 * 4096 + tailBits b * 64 + tailBits c) :: ·)
                  else .error ⟨index, some 2⟩
            else .error ⟨index, some 1⟩
      else if 0xF0 ≤ a ∧ a ≤ 0xF4 then
        match rest with
        | [] => .error ⟨index, none⟩
        | b :: rest =>
            if secondOfFour a b then
              match rest with
              | [] => .error ⟨index, none⟩
              | c :: rest =>
                  if isTail c then
                    match rest with
                    | [] => .error ⟨index, none⟩
                    | d :: rest =>
                        if isTail d then
                          (decodeFrom (index + 4) rest).map
                            (Char.ofNat (a.toNat % 8 * 262144 + tailBits b * 4096
                              + tailBits c * 64 + tailBits d) :: ·)
                        else .error ⟨index, some 3⟩
                  else .error ⟨index, some 2⟩
            else .error ⟨index, some 1⟩
      else .error ⟨index, some 1⟩

def decode (bytes : List UInt8) : Except Fault (List Char) := decodeFrom 0 bytes

def replacement : Char := Char.ofNat 0xFFFD

/-- Decoding with a bound on the number of faults. -/
def decodeLossyFor : Nat → List UInt8 → List Char
  | 0, _ => []
  | fuel + 1, bytes =>
      match decode bytes with
      | .ok cs => cs
      | .error fault =>
          let before := match decode (bytes.take fault.index) with
            | .ok cs => cs
            | .error _ => []
          match fault.length? with
          | none => before ++ [replacement]
          | some length =>
              before ++ replacement :: decodeLossyFor fuel (bytes.drop (fault.index + length))

/-- The characters of the bytes, a replacement for each broken sequence. -/
def decodeLossy (bytes : List UInt8) : List Char := decodeLossyFor (bytes.length + 1) bytes

def encode (cs : List Char) : List UInt8 := cs.flatMap String.utf8EncodeChar

end EventBus.Utf8
