import EventBus.Text.Utf8
import Mathlib.Tactic.Common

/-!
Decoding reads exactly what encoding writes. A sequence of bytes stands for a character when its
first byte says how many follow and none of the numbers left out is written; the decoder takes
one such sequence after another, and a character is encoded as the only one that stands for it.
So bytes are text just when they are the encoding of some characters, and no encoding of a
character starts that of another.
-/

namespace EventBus.Utf8

/-- The bytes of one character, given by its number. -/
inductive Sequence : Nat → List UInt8 → Prop where
  | one {a : UInt8} (ha : a < 0x80) : Sequence a.toNat [a]
  | two {a b : UInt8} (ha : 0xC2 ≤ a ∧ a ≤ 0xDF) (hb : isTail b = true) :
      Sequence (a.toNat % 32 * 64 + tailBits b) [a, b]
  | three {a b c : UInt8} (ha : 0xE0 ≤ a ∧ a ≤ 0xEF) (hb : secondOfThree a b = true)
      (hc : isTail c = true) :
      Sequence (a.toNat % 16 * 4096 + tailBits b * 64 + tailBits c) [a, b, c]
  | four {a b c d : UInt8} (ha : 0xF0 ≤ a ∧ a ≤ 0xF4) (hb : secondOfFour a b = true)
      (hc : isTail c = true) (hd : isTail d = true) :
      Sequence (a.toNat % 8 * 262144 + tailBits b * 4096 + tailBits c * 64 + tailBits d)
        [a, b, c, d]

theorem Sequence.of_eq {m n : Nat} {bytes : List UInt8} (h : Sequence m bytes) (hnumber : m = n) :
    Sequence n bytes := hnumber ▸ h

section Bytes

theorem isTail_iff {b : UInt8} : isTail b = true ↔ 128 ≤ b.toNat ∧ b.toNat ≤ 191 := by
  simp [isTail, UInt8.le_iff_toNat_le]

/-- What may follow a first byte after which the range of a byte starts late, or one after which it
ends early. -/
theorem narrowed_iff {a b late start early stop : UInt8} (hstart : 128 ≤ start.toNat)
    (hstop : stop.toNat ≤ 191) (hfirst : late ≠ early) :
    (if a = late then decide (start ≤ b) && decide (b ≤ 0xBF)
      else if a = early then decide (0x80 ≤ b) && decide (b ≤ stop) else isTail b) = true ↔
      (128 ≤ b.toNat ∧ b.toNat ≤ 191) ∧ (a.toNat = late.toNat → start.toNat ≤ b.toNat) ∧
        (a.toNat = early.toNat → b.toNat ≤ stop.toNat) := by
  simp only [← UInt8.toNat_inj, ne_eq] at hfirst ⊢
  split
  · simp only [UInt8.le_iff_toNat_le, UInt8.reduceToNat, Bool.and_eq_true, decide_eq_true_eq]
    omega
  · split
    · simp only [UInt8.le_iff_toNat_le, UInt8.reduceToNat, Bool.and_eq_true, decide_eq_true_eq]
      omega
    · rw [isTail_iff]
      omega

theorem secondOfThree_iff {a b : UInt8} :
    secondOfThree a b = true ↔ (128 ≤ b.toNat ∧ b.toNat ≤ 191) ∧
      (a.toNat = 224 → 160 ≤ b.toNat) ∧ (a.toNat = 237 → b.toNat ≤ 159) :=
  narrowed_iff (by decide) (by decide) (by decide)

theorem secondOfFour_iff {a b : UInt8} :
    secondOfFour a b = true ↔ (128 ≤ b.toNat ∧ b.toNat ≤ 191) ∧
      (a.toNat = 240 → 144 ≤ b.toNat) ∧ (a.toNat = 244 → b.toNat ≤ 143) :=
  narrowed_iff (by decide) (by decide) (by decide)

end Bytes

theorem toNat_ofNat {n : Nat} (h : n.isValidChar) : (Char.ofNat n).val.toNat = n := by
  rw [Char.ofNat, dif_pos h]
  rfl

/-- A byte is known by its number. -/
theorem ofNat_eq_iff {n : Nat} {b : UInt8} (h : n < 256) : UInt8.ofNat n = b ↔ n = b.toNat := by
  rw [← UInt8.toNat_inj, UInt8.toNat_ofNat', Nat.mod_eq_of_lt h]

/-- A character is encoded as the sequence that stands for it. -/
theorem encodeChar_of_sequence {n : Nat} {bytes : List UInt8} (h : Sequence n bytes) :
    String.utf8EncodeChar (Char.ofNat n) = bytes := by
  cases h with
  | @one a ha =>
      have hless : a.toNat < 128 := UInt8.lt_iff_toNat_lt.mp ha
      have hvalid : a.toNat.isValidChar := Or.inl (by omega)
      simp only [String.utf8EncodeChar, toNat_ofNat hvalid, if_pos (show a.toNat ≤ 127 by omega)]
      simp
  | @two a b ha hb =>
      simp only [UInt8.le_iff_toNat_le, UInt8.reduceToNat, isTail_iff] at ha hb
      unfold tailBits
      generalize hn : a.toNat % 32 * 64 + b.toNat % 64 = n
      have hvalid : n.isValidChar := Or.inl (by omega)
      simp only [String.utf8EncodeChar, toNat_ofNat hvalid, if_neg (show ¬ n ≤ 127 by omega),
        if_pos (show n ≤ 2047 by omega), List.cons.injEq, and_true]
      exact ⟨(ofNat_eq_iff (by omega)).mpr (by omega), (ofNat_eq_iff (by omega)).mpr (by omega)⟩
  | @three a b c ha hb hc =>
      simp only [UInt8.le_iff_toNat_le, UInt8.reduceToNat, isTail_iff, secondOfThree_iff]
        at ha hb hc
      unfold tailBits
      generalize hn : a.toNat % 16 * 4096 + b.toNat % 64 * 64 + c.toNat % 64 = n
      have hvalid : n.isValidChar := by
        unfold Nat.isValidChar
        omega
      simp only [String.utf8EncodeChar, toNat_ofNat hvalid, if_neg (show ¬ n ≤ 127 by omega),
        if_neg (show ¬ n ≤ 2047 by omega), if_pos (show n ≤ 65535 by omega), List.cons.injEq,
        and_true]
      exact ⟨(ofNat_eq_iff (by omega)).mpr (by omega), (ofNat_eq_iff (by omega)).mpr (by omega),
        (ofNat_eq_iff (by omega)).mpr (by omega)⟩
  | @four a b c d ha hb hc hd =>
      simp only [UInt8.le_iff_toNat_le, UInt8.reduceToNat, isTail_iff, secondOfFour_iff]
        at ha hb hc hd
      unfold tailBits
      generalize hn : a.toNat % 8 * 262144 + b.toNat % 64 * 4096 + c.toNat % 64 * 64
        + d.toNat % 64 = n
      have hvalid : n.isValidChar := by
        unfold Nat.isValidChar
        omega
      simp only [String.utf8EncodeChar, toNat_ofNat hvalid, if_neg (show ¬ n ≤ 127 by omega),
        if_neg (show ¬ n ≤ 2047 by omega), if_neg (show ¬ n ≤ 65535 by omega), List.cons.injEq,
        and_true]
      exact ⟨(ofNat_eq_iff (by omega)).mpr (by omega), (ofNat_eq_iff (by omega)).mpr (by omega),
        (ofNat_eq_iff (by omega)).mpr (by omega), (ofNat_eq_iff (by omega)).mpr (by omega)⟩

/-- Every character has a sequence, which is its encoding. -/
theorem sequence_encodeChar (c : Char) : Sequence c.toNat (String.utf8EncodeChar c) := by
  have hvalid : c.toNat.isValidChar := c.valid
  have hvalue : c.val.toNat = c.toNat := rfl
  simp only [Nat.isValidChar] at hvalid
  have hbyte : ∀ m < 256, (UInt8.ofNat m).toNat = m := fun m hm => by
    rw [UInt8.toNat_ofNat', Nat.mod_eq_of_lt hm]
  simp only [String.utf8EncodeChar, hvalue]
  generalize c.toNat = n at hvalid
  split
  next hone =>
    refine (Sequence.one ?_).of_eq (hbyte n (by omega))
    rw [UInt8.lt_iff_toNat_lt, hbyte n (by omega)]
    exact Nat.lt_succ_of_le hone
  next hone =>
    split
    next htwo =>
      refine (Sequence.two ?_ ?_).of_eq ?_ <;>
        simp only [UInt8.le_iff_toNat_le, UInt8.reduceToNat, isTail_iff, tailBits,
          hbyte (n / 64 % 32 + 192) (by omega), hbyte (n % 64 + 128) (by omega)] <;> omega
    next htwo =>
      split
      next hthree =>
        refine (Sequence.three ?_ ?_ ?_).of_eq ?_ <;>
          simp only [UInt8.le_iff_toNat_le, UInt8.reduceToNat, isTail_iff, secondOfThree_iff,
            tailBits, hbyte (n / 4096 % 16 + 224) (by omega), hbyte (n / 64 % 64 + 128) (by omega),
            hbyte (n % 64 + 128) (by omega)] <;> omega
      next hthree =>
        refine (Sequence.four ?_ ?_ ?_ ?_).of_eq ?_ <;>
          simp only [UInt8.le_iff_toNat_le, UInt8.reduceToNat, isTail_iff, secondOfFour_iff,
            tailBits, hbyte (n / 262144 % 8 + 240) (by omega),
            hbyte (n / 4096 % 64 + 128) (by omega), hbyte (n / 64 % 64 + 128) (by omega),
            hbyte (n % 64 + 128) (by omega)] <;> omega

/-- The decoder takes the sequence of a character as that character. -/
theorem decodeFrom_sequence {n : Nat} {bytes : List UInt8} (h : Sequence n bytes) (index : Nat)
    (rest : List UInt8) : decodeFrom index (bytes ++ rest) =
      (decodeFrom (index + bytes.length) rest).map (Char.ofNat n :: ·) := by
  cases h with
  | @one a ha =>
      rw [List.singleton_append, decodeFrom.eq_def]
      simp only [if_pos ha, List.length_singleton]
  | @two a b ha hb =>
      have hone : ¬ a < 0x80 := by
        simp only [UInt8.le_iff_toNat_le, UInt8.lt_iff_toNat_lt, UInt8.reduceToNat] at ha ⊢
        omega
      rw [List.cons_append, List.singleton_append, decodeFrom.eq_def]
      simp only [if_neg hone, if_pos ha, if_pos hb, List.length_cons, List.length_nil]
  | @three a b c ha hb hc =>
      have hone : ¬ a < 0x80 ∧ ¬ (0xC2 ≤ a ∧ a ≤ 0xDF) := by
        simp only [UInt8.le_iff_toNat_le, UInt8.lt_iff_toNat_lt, UInt8.reduceToNat] at ha ⊢
        omega
      rw [List.cons_append, List.cons_append, List.singleton_append, decodeFrom.eq_def]
      simp only [if_neg hone.1, if_neg hone.2, if_pos ha, if_pos hb, if_pos hc, List.length_cons,
        List.length_nil]
  | @four a b c d ha hb hc hd =>
      have hone : ¬ a < 0x80 ∧ ¬ (0xC2 ≤ a ∧ a ≤ 0xDF) ∧ ¬ (0xE0 ≤ a ∧ a ≤ 0xEF) := by
        simp only [UInt8.le_iff_toNat_le, UInt8.lt_iff_toNat_lt, UInt8.reduceToNat] at ha ⊢
        omega
      rw [List.cons_append, List.cons_append, List.cons_append, List.singleton_append,
        decodeFrom.eq_def]
      simp only [if_neg hone.1, if_neg hone.2.1, if_neg hone.2.2, if_pos ha, if_pos hb, if_pos hc,
        if_pos hd, List.length_cons, List.length_nil]

/-- After the encoding of a text the decoder goes on with what follows it. -/
theorem decodeFrom_encode_append (index : Nat) (cs : List Char) (rest : List UInt8) :
    decodeFrom index (encode cs ++ rest) =
      (decodeFrom (index + (encode cs).length) rest).map (cs ++ ·) := by
  induction cs generalizing index with
  | nil => cases h : decodeFrom index rest <;> simp [encode, h, Except.map]
  | cons c cs ih =>
      have hencode : encode (c :: cs) = String.utf8EncodeChar c ++ encode cs := List.flatMap_cons
      rw [hencode, List.append_assoc, decodeFrom_sequence (sequence_encodeChar c), ih,
        Char.ofNat_toNat, List.length_append, ← Nat.add_assoc]
      cases decodeFrom (index + (String.utf8EncodeChar c).length + (encode cs).length) rest <;> rfl

theorem decodeFrom_encode (index : Nat) (cs : List Char) :
    decodeFrom index (encode cs) = .ok cs := by
  have hread := decodeFrom_encode_append index cs []
  rw [List.append_nil] at hread
  rw [hread, decodeFrom, Except.map, List.append_nil]

/-- What the decoder takes for the first character is carried on to the whole. -/
theorem encode_of_taken {n index : Nat} {first rest : List UInt8} {cs : List Char}
    (hfirst : Sequence n first)
    (hrest : ∀ {cs}, decodeFrom index rest = .ok cs → encode cs = rest)
    (h : (decodeFrom index rest).map (Char.ofNat n :: ·) = .ok cs) : encode cs = first ++ rest := by
  cases hdecoded : decodeFrom index rest with
  | error fault =>
      rw [hdecoded] at h
      cases h
  | ok later =>
      rw [hdecoded] at h
      cases h
      have hencode : encode (Char.ofNat n :: later) =
          String.utf8EncodeChar (Char.ofNat n) ++ encode later := List.flatMap_cons
      rw [hencode, encodeChar_of_sequence hfirst, hrest hdecoded]

theorem encode_of_decodeFrom {index : Nat} {bytes : List UInt8} {cs : List Char}
    (h : decodeFrom index bytes = .ok cs) : encode cs = bytes := by
  -- The four branches that read a character; every other one reports a fault.
  fun_induction decodeFrom index bytes generalizing cs with
  | case1 index =>
      cases h
      rfl
  | case2 index a rest ha ih => exact encode_of_taken (.one ha) ih h
  | case4 index a hone ha b rest hb ih => exact encode_of_taken (.two ha hb) ih h
  | case8 index a hone htwo ha b hb c rest hc ih => exact encode_of_taken (.three ha hb hc) ih h
  | case14 index a hone htwo hthree ha b hb c hc d rest hd ih =>
      exact encode_of_taken (.four ha hb hc hd) ih h
  | _ => cases h

/-- Bytes are read as some characters just when they are what these characters are written as. -/
theorem decode_eq_ok_iff {bytes : List UInt8} {cs : List Char} :
    decode bytes = .ok cs ↔ encode cs = bytes :=
  ⟨encode_of_decodeFrom, fun h => h ▸ decodeFrom_encode 0 cs⟩

theorem encode_injective {cs ds : List Char} (h : encode cs = encode ds) : cs = ds := by
  have hread := decode_eq_ok_iff.mpr h
  rw [decode, decodeFrom_encode] at hread
  exact Except.ok.inj hread.symm

theorem encode_append (cs ds : List Char) : encode (cs ++ ds) = encode cs ++ encode ds :=
  List.flatMap_append

/-- Where the encoding of a text starts with that of another, the text starts with the other. -/
theorem of_encode_eq_append {ds cs : List Char} {rest : List UInt8}
    (h : encode ds = encode cs ++ rest) : ∃ es, ds = cs ++ es ∧ rest = encode es := by
  have hread := decodeFrom_encode 0 ds
  rw [h, decodeFrom_encode_append] at hread
  cases hrest : decodeFrom (0 + (encode cs).length) rest with
  | error fault =>
      rw [hrest] at hread
      cases hread
  | ok es =>
      rw [hrest] at hread
      exact ⟨es, (Except.ok.inj hread).symm, (encode_of_decodeFrom hrest).symm⟩

end EventBus.Utf8
