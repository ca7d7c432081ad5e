import EventBus.Proofs.Text.Words
import EventBus.Time.SpanText
import Mathlib.Algebra.GroupWithZero.Nat

/-!
Written lengths of time read back. Reading adds the amounts that stand in the text one after the
other, and of those that are written none is left over in the next smaller unit, so together they
are the whole again. No sum on the way is too large, since none exceeds the whole.
-/

namespace EventBus.Span

/-- The seconds fit a word, and the nanoseconds are less than a second. -/
structure Valid (span : Span) : Prop where
  seconds_lt : span.seconds < Word.bound
  nanos_lt : span.nanos < Instant.nanosPerSecond

theorem valid_zero : Valid zero := ⟨by decide, by decide⟩

section Results

variable {span next : Span}

theorem valid_of_add? {seconds nanos : Nat} (h : span.add? seconds nanos = some next) :
    next.Valid := by
  simp only [add?] at h
  split at h
  next hbounds =>
    cases h
    exact ⟨hbounds.2, Nat.mod_lt _ (by decide)⟩
  next => cases h

theorem valid_of_addAmount? {amount : Amount} {unit : TimeUnit}
    (h : span.addAmount? amount unit = some next) : next.Valid := by
  obtain ⟨⟨seconds, nanos⟩, -, h⟩ := Option.bind_eq_some_iff.mp h
  obtain ⟨middle, hmiddle, h⟩ := Option.bind_eq_some_iff.mp h
  split at h
  · cases h
    exact valid_of_add? hmiddle
  · obtain ⟨⟨seconds, nanos⟩, -, h⟩ := Option.bind_eq_some_iff.mp h
    exact valid_of_add? h

theorem valid_of_addNamed? {amount : Amount} {letters : List Char}
    (h : span.addNamed? amount letters = some next) : next.Valid := by
  obtain ⟨unit, -, h⟩ := Option.bind_eq_some_iff.mp h
  exact valid_of_addAmount? h

theorem valid_of_readFrom? {reading : Reading} {cs : List Char} (hspan : span.Valid)
    (h : readFrom? span reading cs = some next) : next.Valid := by
  induction cs generalizing span reading with
  | nil =>
      cases reading with
      | between =>
          cases h
          exact hspan
      | unit amount letters => exact valid_of_addNamed? h
      | _ => cases h
  | cons c cs ih =>
      cases reading with
      | start =>
          rw [readFrom?] at h
          repeat' split at h
          · exact ih hspan h
          · exact ih hspan h
          · cases h
      | between =>
          rw [readFrom?] at h
          repeat' split at h
          · exact ih hspan h
          · exact ih hspan h
          · cases h
      | whole n =>
          rw [readFrom?] at h
          repeat' split at h
          · obtain ⟨n, -, h⟩ := Option.bind_eq_some_iff.mp h
            exact ih hspan h
          · exact ih hspan h
          · exact ih hspan h
          · exact ih hspan h
          · cases h
      | fraction n numerator denominator =>
          rw [readFrom?] at h
          repeat' split at h
          · obtain ⟨numerator, -, h⟩ := Option.bind_eq_some_iff.mp h
            exact ih hspan h
          · cases h
          · exact ih hspan h
          · exact ih hspan h
          · cases h
      | unit amount letters =>
          rw [readFrom?] at h
          repeat' split at h
          · obtain ⟨span, hadd, h⟩ := Option.bind_eq_some_iff.mp h
            exact ih (valid_of_addNamed? hadd) h
          · obtain ⟨span, hadd, h⟩ := Option.bind_eq_some_iff.mp h
            exact ih (valid_of_addNamed? hadd) h
          · exact ih hspan h
          · cases h

theorem valid_of_read? {s : String} (h : read? s = some span) : span.Valid := by
  unfold read? at h
  split at h
  · cases h
    exact valid_zero
  · exact valid_of_readFrom? valid_zero h

end Results

/-- A number with the name of a unit. -/
structure Piece where
  count : Nat
  name : String
  unit : TimeUnit

namespace Piece

def text (piece : Piece) : String := toString piece.count ++ piece.name

/-- The name is one of the unit, made of letters only, and the number fits a word. -/
structure Sound (piece : Piece) : Prop where
  named : TimeUnit.ofName? piece.name = some piece.unit
  nonempty : piece.name.toList ≠ []
  letters : ∀ c ∈ piece.name.toList, isUnitLetter c = true ∧ c.isDigit = false ∧ isBlank c = false
  count_lt : piece.count < Word.bound

def addTo? (span : Span) (piece : Piece) : Option Span :=
  span.addAmount? ⟨piece.count, none⟩ piece.unit

end Piece

section Reading

variable {span : Span}

theorem readFrom?_digits {digits : List Char} (h : ∀ c ∈ digits, c.isDigit = true) {n : Nat}
    (hbound : Nat.ofDigitChars 10 digits n < Word.bound) (cs : List Char) :
    readFrom? span (.whole n) (digits ++ cs) =
      readFrom? span (.whole (Nat.ofDigitChars 10 digits n)) cs := by
  induction digits generalizing n with
  | nil => rfl
  | cons c digits ih =>
      obtain ⟨hdigit, hlater⟩ := List.forall_mem_cons.mp h
      rw [Nat.ofDigitChars_cons, Nat.mul_comm 10] at hbound ⊢
      have hnext : n * 10 + (c.toNat - '0'.toNat) < Word.bound :=
        Nat.lt_of_le_of_lt (Word.le_ofDigitChars digits _) hbound
      have hmore : moreDigits? n c = some (n * 10 + (c.toNat - '0'.toNat)) := if_pos hnext
      rw [List.cons_append, readFrom?, if_pos hdigit, hmore, Option.bind_some, ih hlater hbound]

theorem readFrom?_letters {letters : List Char}
    (h : ∀ c ∈ letters, isUnitLetter c = true ∧ c.isDigit = false ∧ isBlank c = false)
    (amount : Amount) (before cs : List Char) :
    readFrom? span (.unit amount before) (letters ++ cs) =
      readFrom? span (.unit amount (letters.reverse ++ before)) cs := by
  induction letters generalizing before with
  | nil => rfl
  | cons c letters ih =>
      obtain ⟨⟨hletter, hdigit, hblank⟩, hlater⟩ := List.forall_mem_cons.mp h
      simp [readFrom?, hletter, hdigit, hblank, ih hlater]

/-- A number with its unit is read up to the last letter of the unit. -/
theorem readFrom?_piece {piece : Piece} (sound : piece.Sound) {reading : Reading}
    (hreading : reading = .start ∨ reading = .between) (cs : List Char) :
    readFrom? span reading (piece.text.toList ++ cs) =
      readFrom? span (.unit ⟨piece.count, none⟩ piece.name.toList.reverse) cs := by
  have htext : piece.text.toList ++ cs =
      Nat.toDigits 10 piece.count ++ (piece.name.toList ++ cs) := by
    simp [Piece.text]
  obtain ⟨hnonempty, hdigits, hvalue⟩ := Word.decimal_toDigits piece.count
  obtain ⟨d, digits, hdigitsCons⟩ := List.exists_cons_of_ne_nil hnonempty
  obtain ⟨l, letters, hlettersCons⟩ := List.exists_cons_of_ne_nil sound.nonempty
  have hletters := sound.letters
  rw [hdigitsCons] at hdigits hvalue
  rw [hlettersCons] at hletters
  obtain ⟨hfirst, hmore⟩ := List.forall_mem_cons.mp hdigits
  obtain ⟨⟨hletter, hdigit, hblank⟩, hlater⟩ := List.forall_mem_cons.mp hletters
  rw [Nat.ofDigitChars_cons, Nat.mul_zero, Nat.zero_add] at hvalue
  have hwhole (later : List Char) : readFrom? span reading (d :: later) =
      readFrom? span (.whole (d.toNat - '0'.toNat)) later := by
    rcases hreading with rfl | rfl <;> rw [readFrom?, if_pos hfirst]
  have hunit (n : Nat) (later : List Char) : readFrom? span (.whole n) (l :: later) =
      readFrom? span (.unit ⟨n, none⟩ [l]) later := by
    simp [readFrom?, hletter, hdigit, hblank]
  rw [htext, hdigitsCons, hlettersCons, List.cons_append, hwhole,
    readFrom?_digits hmore (hvalue.symm ▸ sound.count_lt), hvalue, List.cons_append, hunit,
    readFrom?_letters hlater, List.reverse_cons]

theorem addNamed?_piece {piece : Piece} (sound : piece.Sound) (span : Span) :
    span.addNamed? ⟨piece.count, none⟩ piece.name.toList.reverse = piece.addTo? span := by
  rw [addNamed?, List.reverse_reverse, String.ofList_toList, sound.named, Option.bind_some]
  rfl

/-- Pieces with blanks between them are added one after the other. -/
theorem readFrom?_pieces {piece : Piece} {pieces : List Piece}
    (h : ∀ p ∈ piece :: pieces, p.Sound) {reading : Reading}
    (hreading : reading = .start ∨ reading = .between) :
    readFrom? span reading (String.intercalate " " ((piece :: pieces).map (·.text))).toList =
      (piece :: pieces).foldlM Piece.addTo? span := by
  induction pieces generalizing piece reading span with
  | nil =>
      obtain ⟨sound, -⟩ := List.forall_mem_cons.mp h
      have htext : (String.intercalate " " ([piece].map (·.text))).toList =
          piece.text.toList ++ [] := by simp
      rw [htext, readFrom?_piece sound hreading, readFrom?, addNamed?_piece sound]
      simp
  | cons next pieces ih =>
      obtain ⟨sound, hlater⟩ := List.forall_mem_cons.mp h
      have htext : (String.intercalate " " ((piece :: next :: pieces).map (·.text))).toList =
          piece.text.toList ++
            ' ' :: (String.intercalate " " ((next :: pieces).map (·.text))).toList := by
        simp [String.toList_intercalate]
      have hblank : ' '.isDigit = false ∧ isBlank ' ' = true := by decide
      rw [htext, readFrom?_piece sound hreading, readFrom?, addNamed?_piece sound, hblank.1,
        hblank.2, List.foldlM_cons]
      exact congrArg (Option.bind _) (funext fun span => ih hlater (Or.inr rfl))

end Reading

section Sums

namespace Piece

def seconds (piece : Piece) : Nat := piece.count * piece.unit.scale.1

def nanos (piece : Piece) : Nat := piece.count * piece.unit.scale.2

end Piece

theorem addTo?_eq {span : Span} {piece : Piece}
    (hseconds : span.seconds + piece.seconds < Word.bound)
    (hnanos : span.nanos + piece.nanos < Instant.nanosPerSecond) :
    piece.addTo? span = some ⟨span.seconds + piece.seconds, span.nanos + piece.nanos⟩ := by
  have hbound : Instant.nanosPerSecond < Word.bound := by decide
  have htimes : times? piece.count piece.unit.scale = some (piece.seconds, piece.nanos) :=
    if_pos ⟨show piece.seconds < _ by omega, show piece.nanos < _ by omega⟩
  have hquotient : (span.nanos + piece.nanos) / Instant.nanosPerSecond = 0 :=
    Nat.div_eq_of_lt hnanos
  have hadd : span.add? piece.seconds piece.nanos =
      some ⟨span.seconds + piece.seconds, span.nanos + piece.nanos⟩ := by
    simp only [add?, hquotient, Nat.add_zero, Nat.mod_eq_of_lt hnanos]
    exact if_pos ⟨by omega, hseconds⟩
  rw [Piece.addTo?, addAmount?, htimes]
  simp [hadd]

/-- While the sums stay small, pieces add up. -/
theorem foldlM_addTo?_eq {pieces : List Piece} {span : Span}
    (hseconds : span.seconds + (pieces.map (·.seconds)).sum < Word.bound)
    (hnanos : span.nanos + (pieces.map (·.nanos)).sum < Instant.nanosPerSecond) :
    pieces.foldlM Piece.addTo? span =
      some ⟨span.seconds + (pieces.map (·.seconds)).sum,
        span.nanos + (pieces.map (·.nanos)).sum⟩ := by
  induction pieces generalizing span with
  | nil => rfl
  | cons piece pieces ih =>
      rw [List.map_cons, List.sum_cons] at hseconds hnanos
      have hadd : piece.addTo? span =
          some ⟨span.seconds + piece.seconds, span.nanos + piece.nanos⟩ :=
        addTo?_eq (by omega) (by omega)
      rw [List.foldlM_cons, hadd, Option.bind_eq_bind, Option.bind_some,
        ih (by simpa [Nat.add_assoc] using hseconds) (by simpa [Nat.add_assoc] using hnanos)]
      simp [Nat.add_assoc]

/-- Pieces of no length add nothing. -/
theorem sum_map_filter {f : Piece → Nat} (h : ∀ p, p.count = 0 → f p = 0) (pieces : List Piece) :
    ((pieces.filter fun p => p.count != 0).map f).sum = (pieces.map f).sum := by
  induction pieces with
  | nil => rfl
  | cons piece pieces ih =>
      by_cases hzero : piece.count = 0
      · simp [hzero, h piece hzero, ih]
      · simp [hzero, ih]

end Sums

section Written

def plural (name : String) (n : Nat) : String := name ++ if n = 1 then "" else "s"

/-- All pieces of a length, those of no length among them. -/
def pieces (span : Span) : List Piece :=
  let inYear := span.seconds % 31557600
  let inMonth := inYear % 2630016
  let inDay := inMonth % 86400
  [⟨span.seconds / 31557600, plural "year" (span.seconds / 31557600), .year⟩,
    ⟨inYear / 2630016, plural "month" (inYear / 2630016), .month⟩,
    ⟨inMonth / 86400, plural "day" (inMonth / 86400), .day⟩,
    ⟨inDay / 3600, "h", .hour⟩,
    ⟨inDay % 3600 / 60, "m", .minute⟩,
    ⟨inDay % 60, "s", .second⟩,
    ⟨span.nanos / 1000000, "ms", .millisecond⟩,
    ⟨span.nanos / 1000 % 1000, "us", .microsecond⟩,
    ⟨span.nanos % 1000, "ns", .nanosecond⟩]

def written (span : Span) : List Piece := span.pieces.filter fun p => p.count != 0

theorem partPlural_eq_part (n : Nat) (name : String) :
    partPlural n name = part n (plural name n) := by
  simp [partPlural, part, plural, String.append_assoc]

theorem parts_eq_map_text (span : Span) : span.parts = span.written.map (·.text) := by
  have hcons (n : Nat) (name : String) (unit : TimeUnit) (later : List Piece) :
      ((Piece.mk n name unit :: later).filter fun p => p.count != 0).map (·.text) =
        part n name ++ (later.filter fun p => p.count != 0).map (·.text) := by
    by_cases hzero : n = 0 <;> simp [hzero, part, Piece.text]
  simp only [written, pieces, hcons, parts, partPlural_eq_part, List.filter_nil, List.map_nil,
    List.append_assoc, List.append_nil]

theorem sound_of_mem_names {piece : Piece} (hname : piece.name ∈ piece.unit.names)
    (hcount : piece.count < Word.bound) : piece.Sound := by
  have hall : ∀ unit ∈ TimeUnit.all, ∀ name ∈ unit.names,
      TimeUnit.ofName? name = some unit ∧ name.toList ≠ [] ∧
        name.toList.all (fun c => isUnitLetter c && !c.isDigit && !isBlank c) = true := by
    decide
  have hunit : piece.unit ∈ TimeUnit.all := by
    cases piece.unit <;> decide
  obtain ⟨hnamed, hnonempty, hletters⟩ := hall _ hunit _ hname
  exact ⟨hnamed, hnonempty, by simpa [and_assoc] using hletters, hcount⟩

theorem plural_mem_names (n : Nat) :
    plural "year" n ∈ TimeUnit.year.names ∧ plural "month" n ∈ TimeUnit.month.names ∧
      plural "day" n ∈ TimeUnit.day.names := by
  unfold plural
  split <;> decide

theorem sound_of_mem_pieces {span : Span} (valid : span.Valid) : ∀ p ∈ span.pieces, p.Sound := by
  have hbound : Word.bound = 18446744073709551616 := by decide
  have hseconds : span.seconds < 18446744073709551616 := hbound ▸ valid.seconds_lt
  have hnanos : span.nanos < 1000000000 := valid.nanos_lt
  have hnames : ∀ p ∈ span.pieces, p.name ∈ p.unit.names := by
    simp only [pieces, List.forall_mem_cons, List.not_mem_nil, false_implies, implies_true,
      and_true]
    exact ⟨(plural_mem_names _).1, (plural_mem_names _).2.1, (plural_mem_names _).2.2,
      by decide, by decide, by decide, by decide, by decide, by decide⟩
  have hcounts : ∀ p ∈ span.pieces, p.count < Word.bound := by
    simp only [pieces, List.forall_mem_cons, List.not_mem_nil, false_implies, implies_true,
      and_true, hbound]
    omega
  exact fun p hp => sound_of_mem_names (hnames p hp) (hcounts p hp)

-- Both are stated for rewriting: summing by unfolding would multiply out the units in seconds.
theorem sum_map_nil (f : Piece → Nat) : (([] : List Piece).map f).sum = 0 := by
  rw [List.map_nil, List.sum_nil]

theorem sum_map_cons (f : Piece → Nat) (piece : Piece) (pieces : List Piece) :
    ((piece :: pieces).map f).sum = f piece + (pieces.map f).sum := by
  rw [List.map_cons, List.sum_cons]

/-- The pieces cover the length: what each leaves over is less than its unit. -/
theorem sum_pieces (span : Span) :
    (span.pieces.map (·.seconds)).sum = span.seconds ∧
      (span.pieces.map (·.nanos)).sum = span.nanos := by
  simp only [pieces, sum_map_cons, sum_map_nil, Piece.seconds, Piece.nanos, TimeUnit.scale]
  omega

theorem sum_written (span : Span) :
    (span.written.map (·.seconds)).sum = span.seconds ∧
      (span.written.map (·.nanos)).sum = span.nanos := by
  have hseconds := sum_map_filter (f := Piece.seconds)
    (fun p hp => by rw [Piece.seconds, hp, Nat.zero_mul]) span.pieces
  have hnanos := sum_map_filter (f := Piece.nanos)
    (fun p hp => by rw [Piece.nanos, hp, Nat.zero_mul]) span.pieces
  exact ⟨hseconds.trans (sum_pieces span).1, hnanos.trans (sum_pieces span).2⟩

end Written

theorem readFrom?_written {span : Span} (valid : span.Valid) (h : span ≠ zero) :
    readFrom? zero .start (String.intercalate " " span.parts).toList = some span := by
  obtain ⟨hseconds, hnanos⟩ := sum_written span
  have hsound : ∀ p ∈ span.written, p.Sound := fun p hp =>
    sound_of_mem_pieces valid p (List.mem_of_mem_filter hp)
  have hadd : span.written.foldlM Piece.addTo? zero = some span := by
    rw [foldlM_addTo?_eq]
    · simp [zero, hseconds, hnanos]
    · simpa [zero, hseconds] using valid.seconds_lt
    · simpa [zero, hnanos] using valid.nanos_lt
  rw [parts_eq_map_text]
  cases hpieces : span.written with
  | nil =>
      rw [hpieces] at hseconds hnanos
      exact absurd (congrArg₂ mk hseconds.symm hnanos.symm) h
  | cons piece pieces =>
      rw [hpieces] at hsound hadd
      rw [readFrom?_pieces hsound (Or.inl rfl), hadd]

/-- A written length of time reads back. -/
theorem read?_text {span : Span} (valid : span.Valid) : read? span.text = some span := by
  by_cases hzero : span = zero
  · subst hzero
    decide
  · have hread := readFrom?_written valid hzero
    -- A lone zero is read in a way of its own, and it is no sum of pieces.
    have hlone : String.intercalate " " span.parts ≠ "0" := by
      intro hsame
      rw [hsame] at hread
      exact absurd hread (by simp [readFrom?])
    rw [text, if_neg hzero, read?, if_neg hlone, hread]

end EventBus.Span
