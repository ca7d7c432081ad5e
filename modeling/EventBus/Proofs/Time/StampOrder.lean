import EventBus.Proofs.Time.Calendar
import Mathlib.Data.List.Forall2
import Mathlib.Data.Nat.Init
import Mathlib.Data.String.Basic

/-!
Times as texts sort like times. Each part of a text is a number of a fixed width, and such numbers
sort by size; between two texts the first part that differs decides, and the parts come in the
order in which they count. A leap second is the second 60 of its minute, so it comes after all
other seconds of the minute and before the next.
-/

namespace EventBus.Instant

section Padding

variable {width n a b : Nat}

theorem append_lt_append_of_length_eq {as bs : List Char} (h : as < bs)
    (hlength : as.length = bs.length) (cs ds : List Char) : as ++ cs < bs ++ ds := by
  induction as generalizing bs with
  | nil =>
      obtain rfl := List.eq_nil_of_length_eq_zero hlength.symm
      cases h
  | cons a as ih =>
      cases bs with
      | nil => cases hlength
      | cons b bs =>
          rw [List.cons_lt_cons_iff] at h
          rw [List.cons_append, List.cons_append, List.cons_lt_cons_iff]
          rcases h with hfirst | ⟨rfl, hrest⟩
          · exact Or.inl hfirst
          · exact Or.inr ⟨rfl, ih hrest (Nat.succ.inj hlength)⟩

/-- The last digit stands after the others, which are padded to one place less. -/
theorem padded_succ (h : 0 < width) (n : Nat) :
    padded (width + 1) n = padded width (n / 10) ++ [Nat.digitChar (n % 10)] := by
  rcases Nat.lt_or_ge n 10 with hsmall | hlarge
  · have hzeros : List.replicate width '0' = List.replicate (width - 1) '0' ++ ['0'] := by
      rw [← List.replicate_succ', Nat.sub_add_cancel h]
    simp only [padded, Nat.toDigits_of_lt_base hsmall, Nat.div_eq_of_lt hsmall, Nat.toDigits_zero,
      Nat.mod_eq_of_lt hsmall, List.length_singleton, Nat.add_sub_cancel, hzeros]
  · simp only [padded, Nat.toDigits_of_base_le (by decide) hlarge, List.length_append,
      List.length_singleton, Nat.add_sub_add_right, List.append_assoc]

theorem length_padded (h : 0 < width) (hn : n < 10 ^ width) : (padded width n).length = width := by
  have hdigits := (Nat.length_toDigits_le_iff (by decide : 1 < 10) h).mpr hn
  rw [padded, List.length_append, List.length_replicate, Nat.sub_add_cancel hdigits]

theorem digitChar_lt (h : a < b) (hb : b < 10) : Nat.digitChar a < Nat.digitChar b := by
  have hall : ∀ b < 10, ∀ a < b, Nat.digitChar a < Nat.digitChar b := by decide
  exact hall b hb a h

/-- Numbers of one width sort by size. -/
theorem padded_lt (hwidth : 0 < width) (h : a < b) (hb : b < 10 ^ width) :
    padded width a < padded width b := by
  induction width, hwidth using Nat.le_induction generalizing a b with
  | base =>
      have hlast : b < 10 := hb
      simp only [padded, Nat.toDigits_of_lt_base hlast, Nat.toDigits_of_lt_base (h.trans hlast),
        List.length_singleton, Nat.sub_self, List.replicate_zero, List.nil_append]
      exact List.cons_lt_cons_iff.mpr (Or.inl (digitChar_lt h hlast))
  | succ width hwidth ih =>
      have hrest : b / 10 < 10 ^ width := by
        rw [Nat.div_lt_iff_lt_mul (by decide), ← Nat.pow_succ]
        exact hb
      rw [padded_succ hwidth, padded_succ hwidth]
      rcases Nat.lt_or_eq_of_le (Nat.div_le_div_right h.le) with hless | hsame
      · refine append_lt_append_of_length_eq (ih hless hrest) ?_ _ _
        rw [length_padded hwidth hrest, length_padded hwidth (hless.trans hrest)]
      · rw [hsame]
        refine List.append_left_lt (List.cons_lt_cons_iff.mpr (Or.inl (digitChar_lt ?_ ?_)))
        · omega
        · exact Nat.mod_lt b (by decide)

end Padding

section Layouts

/-- Numbers written one after the other, each with so many digits and a sign after it. -/
def render : List (Nat × Char) → List Nat → List Char
  | (width, sign) :: layout, n :: values => padded width n ++ sign :: render layout values
  | _, _ => []

/-- There are as many numbers as the layout has parts, and none has too many digits. -/
def Fits (layout : List (Nat × Char)) (values : List Nat) : Prop :=
  List.Forall₂ (fun part n => 0 < part.1 ∧ n < 10 ^ part.1) layout values

variable {layout : List (Nat × Char)} {values as bs : List Nat}

/-- How long a text of the layout is. -/
def extent : List (Nat × Char) → Nat
  | [] => 0
  | (width, _) :: layout => width + 1 + extent layout

theorem length_render (h : Fits layout values) : (render layout values).length = extent layout := by
  induction h with
  | nil => rfl
  | @cons part n layout values hfirst _ ih =>
      rw [render, List.length_append, List.length_cons, length_padded hfirst.1 hfirst.2, ih, extent]
      omega

/-- The first number that differs decides the order of the texts. -/
theorem render_lt (has : Fits layout as) (hbs : Fits layout bs) (h : as < bs) :
    render layout as < render layout bs := by
  induction has generalizing bs with
  | nil =>
      cases hbs
      cases h
  | @cons part a layout as hfirst _ ih =>
      cases hbs with
      | @cons _ b _ bs hother hrest =>
          rw [render, render]
          rcases List.cons_lt_cons_iff.mp h with hless | ⟨rfl, hlater⟩
          · refine append_lt_append_of_length_eq (padded_lt hfirst.1 hless hother.2) ?_ _ _
            rw [length_padded hfirst.1 hfirst.2, length_padded hother.1 hother.2]
          · exact List.append_left_lt (List.cons_lt_cons_iff.mpr (Or.inr ⟨rfl, ih hrest hlater⟩))

end Layouts

section Parts

/-- The date of the day on which an instant lies. -/
def date (t : Instant) : Date := Date.ofDays (t.seconds / secondsPerDay)

def secondOfDay (t : Instant) : Nat := (t.seconds % secondsPerDay).toNat

def hour (t : Instant) : Nat := t.secondOfDay / 3600

def minute (t : Instant) : Nat := t.secondOfDay / 60 % 60

/-- The second of the minute, 60 in a leap second. -/
def second (t : Instant) : Nat :=
  t.secondOfDay % 60 + if nanosPerSecond ≤ t.nanos then 1 else 0

def fraction (t : Instant) : Nat := t.nanos % nanosPerSecond

/-- An instant that the calendar has, in a year of four digits. -/
structure IsDated (t : Instant) : Prop where
  valid : t.isValid = true
  year_nonneg : 0 ≤ t.date.year
  year_le : t.date.year ≤ 9999

instance (t : Instant) : Decidable t.IsDated :=
  decidable_of_iff (t.isValid = true ∧ 0 ≤ t.date.year ∧ t.date.year ≤ 9999)
    ⟨fun ⟨hvalid, hnonneg, hle⟩ => ⟨hvalid, hnonneg, hle⟩,
      fun h => ⟨h.valid, h.year_nonneg, h.year_le⟩⟩

variable {t u : Instant}

theorem isBefore_iff :
    t.isBefore u = true ↔ t.seconds < u.seconds ∨ t.seconds = u.seconds ∧ t.nanos < u.nanos := by
  simp [isBefore]

/-- A leap second is at the end of a minute. -/
theorem IsDated.nanos_lt (h : t.IsDated) : t.nanos < nanosPerSecond ∨
    t.nanos < 2 * nanosPerSecond ∧ t.secondOfDay % 60 = 59 := by
  have hvalid := h.valid
  simp only [isValid, Bool.and_eq_true, Bool.or_eq_true, decide_eq_true_eq, beq_iff_eq] at hvalid
  obtain ⟨⟨-, hnanos⟩, hleap⟩ := hvalid
  unfold secondOfDay secondsPerDay
  omega

/-- The parts of a text, by their widths and what follows them. -/
def stampLayout : List (Nat × Char) :=
  [(4, '-'), (2, '-'), (2, 'T'), (2, ':'), (2, ':'), (2, '.'), (9, 'Z')]

/-- The numbers in the text of an instant. -/
def parts (t : Instant) : List Nat :=
  [t.date.year.natAbs, t.date.month, t.date.day, t.hour, t.minute, t.second, t.fraction]

theorem IsDated.chars_eq (h : t.IsDated) : t.chars = render stampLayout t.parts := by
  have hyear : yearChars t.date.year = padded 4 t.date.year.natAbs :=
    if_pos ⟨h.year_nonneg, h.year_le⟩
  simp only [stampLayout, parts, render]
  rw [← hyear]
  simp only [chars, List.append_assoc, List.cons_append]
  rfl

theorem IsDated.fits (h : t.IsDated) : Fits stampLayout t.parts := by
  have hyear : t.date.year.natAbs < 10 ^ 4 := by
    have hnonneg := h.year_nonneg
    have hle := h.year_le
    omega
  have hmonth : t.date.month < 10 ^ 2 := Nat.lt_of_le_of_lt (Date.month_ofDays_le _) (by decide)
  have hday : t.date.day < 10 ^ 2 := Nat.lt_of_le_of_lt (Date.day_ofDays_le _) (by decide)
  have hhour : t.hour < 10 ^ 2 := by
    unfold hour secondOfDay secondsPerDay
    omega
  have hminute : t.minute < 10 ^ 2 := Nat.lt_of_lt_of_le (Nat.mod_lt _ (by decide)) (by decide)
  have hsecond : t.second < 10 ^ 2 := by
    unfold second
    split <;> omega
  have hfraction : t.fraction < 10 ^ 9 := Nat.mod_lt _ (by decide)
  simp only [Fits, stampLayout, parts, List.forall₂_cons, List.forall₂_nil_left_iff, and_true]
  exact ⟨⟨by decide, hyear⟩, ⟨by decide, hmonth⟩, ⟨by decide, hday⟩, ⟨by decide, hhour⟩,
    ⟨by decide, hminute⟩, ⟨by decide, hsecond⟩, by decide, hfraction⟩

/-- Within a day the time of an instant ascends with it. -/
theorem IsDated.clock_lt (ht : t.IsDated) (hu : u.IsDated) (h : t.isBefore u = true)
    (hday : t.seconds / secondsPerDay = u.seconds / secondsPerDay) :
    t.hour < u.hour ∨ t.hour = u.hour ∧ (t.minute < u.minute ∨ t.minute = u.minute ∧
      (t.second < u.second ∨ t.second = u.second ∧ t.fraction < u.fraction)) := by
  have htnanos := ht.nanos_lt
  have hunanos := hu.nanos_lt
  have hseconds : t.secondOfDay < u.secondOfDay ∨
      t.secondOfDay = u.secondOfDay ∧ t.nanos < u.nanos := by
    rw [isBefore_iff] at h
    unfold secondOfDay
    unfold secondsPerDay at hday ⊢
    omega
  unfold hour minute second fraction
  unfold nanosPerSecond at *
  repeat' split
  all_goals omega

theorem IsDated.parts_lt (ht : t.IsDated) (hu : u.IsDated) (h : t.isBefore u = true) :
    t.parts < u.parts := by
  have hdays : t.seconds / secondsPerDay < u.seconds / secondsPerDay ∨
      t.seconds / secondsPerDay = u.seconds / secondsPerDay := by
    rw [isBefore_iff] at h
    unfold secondsPerDay
    omega
  simp only [parts, List.cons_lt_cons_iff, List.not_lt_nil, and_false, or_false]
  rcases hdays with hearlier | hsame
  · have hdates : t.date.Before u.date := Date.ofDays_before hearlier
    have hnonneg := ht.year_nonneg
    rcases hdates with hyear | ⟨hyear, hmonth | ⟨hmonth, hday⟩⟩
    · exact Or.inl (by omega)
    · exact Or.inr ⟨by rw [hyear], Or.inl hmonth⟩
    · exact Or.inr ⟨by rw [hyear], Or.inr ⟨hmonth, Or.inl hday⟩⟩
  · have hdates : t.date = u.date := congrArg Date.ofDays hsame
    rw [hdates]
    exact Or.inr ⟨rfl, Or.inr ⟨rfl, Or.inr ⟨rfl, ht.clock_lt hu h hsame⟩⟩⟩

theorem IsDated.length_text (h : t.IsDated) : t.text.length = 30 := by
  rw [text, String.length_ofList, h.chars_eq, length_render h.fits]
  rfl

/-- The texts of two instants are in the order of the instants. -/
theorem IsDated.text_lt_iff (ht : t.IsDated) (hu : u.IsDated) :
    t.text < u.text ↔ t.isBefore u = true := by
  have hless : ∀ {t u : Instant}, t.IsDated → u.IsDated → t.isBefore u = true →
      t.text < u.text := by
    intro t u ht hu h
    rw [String.lt_iff_toList_lt, text, text, String.toList_ofList, String.toList_ofList,
      ht.chars_eq, hu.chars_eq]
    exact render_lt ht.fits hu.fits (ht.parts_lt hu h)
  refine ⟨fun h => ?_, hless ht hu⟩
  by_contra hnot
  have hlater : u.isBefore t = true ∨ t = u := by
    rw [isBefore_iff] at hnot ⊢
    obtain ⟨tseconds, tnanos⟩ := t
    obtain ⟨useconds, unanos⟩ := u
    simp only [Instant.mk.injEq] at hnot ⊢
    omega
  rcases hlater with hlater | rfl
  · exact lt_asymm h (hless hu ht hlater)
  · exact lt_irrefl _ h

end Parts

end EventBus.Instant
