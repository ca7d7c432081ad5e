import EventBus.Time.Instant
import Mathlib.Tactic.Common

/-!
Dates ascend with the days they stand for. A day of an era lies in one of its centuries, in one of
the cycles of four years in that century and in one of the years of that cycle; counted so, the
quotients that give its year come out even, and the rest is the day of the year.
-/

namespace EventBus.Date

/-- Order of dates: by year, then by month, then by day. -/
def Before (a b : Date) : Prop :=
  a.year < b.year ∨
    a.year = b.year ∧ (a.month < b.month ∨ a.month = b.month ∧ a.day < b.day)

/-- Days of an era of four hundred years that begins in March. -/
def eraLength : Nat := 146097

def yearOfEra (dayOfEra : Nat) : Nat :=
  (dayOfEra - dayOfEra / 1460 + dayOfEra / 36524 - dayOfEra / 146096) / 365

/-- The day of an era with which a year begins. -/
def yearStart (year : Nat) : Nat := 365 * year + year / 4 - year / 100

def dayOfYear (dayOfEra : Nat) : Nat := dayOfEra - yearStart (yearOfEra dayOfEra)

/-- The date of a day of a year that begins in March. -/
def ofMarch (year : Int) (dayOfYear : Nat) : Date :=
  let marchMonth := (5 * dayOfYear + 2) / 153
  let month := if marchMonth < 10 then marchMonth + 3 else marchMonth - 9
  { year := year + (if month ≤ 2 then 1 else 0)
    month := month
    day := dayOfYear - (153 * marchMonth + 2) / 5 + 1 }

section Eras

variable {day later century cycle year rest : Nat}

/-- A day of an era by its century, its cycle of four years, its year and the days after that. A
year has a last day more when it ends its cycle, unless the cycle ends a century that is not the
last. -/
structure Counted (day century cycle year rest : Nat) : Prop where
  sum : day = 36524 * century + 1461 * cycle + 365 * year + rest
  century_lt : century < 4
  cycle_lt : cycle < 25
  year_lt : year < 4
  rest_lt : rest < 365 ∨ rest = 365 ∧ year = 3 ∧ (cycle ≠ 24 ∨ century = 3)

theorem exists_counted (h : day < eraLength) :
    ∃ century cycle year rest, Counted day century cycle year rest := by
  unfold eraLength at h
  let century := min (day / 36524) 3
  let left := day - 36524 * century
  let year := min (left % 1461 / 365) 3
  refine ⟨century, left / 1461, year, left % 1461 - 365 * year, ?_, ?_, ?_, ?_, ?_⟩ <;> omega

theorem Counted.yearOfEra_eq (h : Counted day century cycle year rest) :
    yearOfEra day = 100 * century + 4 * cycle + year := by
  obtain ⟨hsum, hcentury, hcycle, hyear, hrest⟩ := h
  -- One more for a day late in its cycle, since the cycles of the quotient are a day short.
  let extra := (24 * century + cycle + 365 * year + rest) / 1460
  have hcycles : day / 1460 = 25 * century + cycle + extra := by omega
  have hcenturies : day / 36524 = century + day / 146096 := by
    have hlast : day < 36524 * (century + 1) ∨ day = 146096 ∧ century = 3 := by omega
    rcases hlast with hlast | ⟨rfl, rfl⟩
    · have hwhole : day / 36524 = century := by omega
      omega
    · rfl
  have hextra : extra ≤ rest ∧ rest - extra < 365 := by omega
  have hsplit : day - day / 1460 + day / 36524 - day / 146096
      = rest - extra + 365 * (100 * century + 4 * cycle + year) := by omega
  rw [yearOfEra, hsplit, Nat.add_mul_div_left _ _ (by decide), Nat.div_eq_of_lt hextra.2,
    Nat.zero_add]

theorem Counted.yearStart_add (h : Counted day century cycle year rest) :
    yearStart (yearOfEra day) + rest = day := by
  rw [h.yearOfEra_eq]
  obtain ⟨hsum, hcentury, hcycle, hyear, hrest⟩ := h
  unfold yearStart
  omega

theorem yearOfEra_lt (h : day < eraLength) : yearOfEra day < 400 := by
  obtain ⟨century, cycle, year, rest, hcounted⟩ := exists_counted h
  rw [hcounted.yearOfEra_eq]
  obtain ⟨-, hcentury, hcycle, hyear, -⟩ := hcounted
  omega

theorem yearStart_add_dayOfYear (h : day < eraLength) :
    yearStart (yearOfEra day) + dayOfYear day = day := by
  obtain ⟨_, _, _, _, hcounted⟩ := exists_counted h
  have hsum := hcounted.yearStart_add
  unfold dayOfYear
  omega

theorem dayOfYear_le (h : day < eraLength) : dayOfYear day ≤ 365 := by
  obtain ⟨_, _, _, _, hcounted⟩ := exists_counted h
  have hsum := hcounted.yearStart_add
  have hrest := hcounted.rest_lt
  unfold dayOfYear
  omega

theorem yearOfEra_mono (h : day ≤ later) (hlater : later < eraLength) :
    yearOfEra day ≤ yearOfEra later := by
  unfold eraLength at hlater
  refine Nat.div_le_div_right ?_
  omega

/-- A later day is in a later year, or is a later day of the same one. -/
theorem year_lt_or_day_lt (h : day < later) (hlater : later < eraLength) :
    yearOfEra day < yearOfEra later ∨
      yearOfEra day = yearOfEra later ∧ dayOfYear day < dayOfYear later := by
  rcases Nat.lt_or_eq_of_le (yearOfEra_mono (Nat.le_of_lt h) hlater) with hyear | hyear
  · exact Or.inl hyear
  · have hday := yearStart_add_dayOfYear (Nat.lt_trans h hlater)
    have hlaterDay := yearStart_add_dayOfYear hlater
    rw [hyear] at hday
    exact Or.inr ⟨hyear, by omega⟩

end Eras

section Months

variable {year later : Int} {day laterDay : Nat}

theorem month_ofMarch_le (h : day ≤ 365) : (ofMarch year day).month ≤ 12 := by
  dsimp only [ofMarch]
  split <;> omega

theorem day_ofMarch_le (year : Int) (day : Nat) : (ofMarch year day).day ≤ 31 := by
  dsimp only [ofMarch]
  omega

theorem before_ofMarch_of_day (h : day < laterDay) (hlater : laterDay ≤ 365) :
    (ofMarch year day).Before (ofMarch year laterDay) := by
  have hmonths : (5 * day + 2) / 153 ≤ (5 * laterDay + 2) / 153 ∧
      (5 * laterDay + 2) / 153 < 12 := by omega
  rcases Nat.lt_or_eq_of_le hmonths.1 with hmonth | hmonth
  · dsimp only [Before, ofMarch]
    repeat' split
    all_goals omega
  · have hday : day - (153 * ((5 * day + 2) / 153) + 2) / 5
        < laterDay - (153 * ((5 * day + 2) / 153) + 2) / 5 := by omega
    dsimp only [Before, ofMarch]
    rw [← hmonth]
    exact Or.inr ⟨rfl, Or.inr ⟨rfl, Nat.succ_lt_succ hday⟩⟩

/-- January and February belong to the calendar year after, and still come before all of it that
is in the next March year. -/
theorem before_ofMarch_of_year (h : year < later) (hday : day ≤ 365) (hlater : laterDay ≤ 365) :
    (ofMarch year day).Before (ofMarch later laterDay) := by
  have hmonths : (5 * day + 2) / 153 < 12 ∧ (5 * laterDay + 2) / 153 < 12 := by omega
  dsimp only [Before, ofMarch]
  repeat' split
  all_goals omega

end Months

section Days

variable {days later : Int}

/-- The year in which a day lies when years begin in March. -/
def marchYear (days : Int) : Int :=
  yearOfEra ((days + 719468) % 146097).toNat + (days + 719468) / 146097 * 400

def marchDay (days : Int) : Nat := dayOfYear ((days + 719468) % 146097).toNat

theorem ofDays_eq (days : Int) : ofDays days = ofMarch (marchYear days) (marchDay days) := rfl

theorem dayOfEra_lt (days : Int) : ((days + 719468) % 146097).toNat < eraLength := by
  unfold eraLength
  omega

theorem marchDay_le (days : Int) : marchDay days ≤ 365 := dayOfYear_le (dayOfEra_lt days)

theorem marchYear_lt_or_marchDay_lt (h : days < later) :
    marchYear days < marchYear later ∨
      marchYear days = marchYear later ∧ marchDay days < marchDay later := by
  have hyear := yearOfEra_lt (dayOfEra_lt days)
  rcases Int.lt_or_eq_of_le (Int.ediv_le_ediv (show (0 : Int) < 146097 by decide)
      (show days + 719468 ≤ later + 719468 by omega)) with hera | hera
  · left
    unfold marchYear
    omega
  · have hday : ((days + 719468) % 146097).toNat < ((later + 719468) % 146097).toNat := by omega
    unfold marchYear marchDay
    rw [hera]
    rcases year_lt_or_day_lt hday (dayOfEra_lt later) with hless | ⟨hsame, hless⟩
    · exact Or.inl (by omega)
    · exact Or.inr ⟨by rw [hsame], hless⟩

/-- The calendar is monotone: a later day has a later date. -/
theorem ofDays_before (h : days < later) : (ofDays days).Before (ofDays later) := by
  rw [ofDays_eq, ofDays_eq]
  rcases marchYear_lt_or_marchDay_lt h with hyear | ⟨hyear, hday⟩
  · exact before_ofMarch_of_year hyear (marchDay_le days) (marchDay_le later)
  · rw [hyear]
    exact before_ofMarch_of_day hday (marchDay_le later)

theorem month_ofDays_le (days : Int) : (ofDays days).month ≤ 12 :=
  month_ofMarch_le (marchDay_le days)

theorem day_ofDays_le (days : Int) : (ofDays days).day ≤ 31 := day_ofMarch_le _ _

/-- The last day of February in a year divisible by four hundred. -/
example : ofDays 11016 = ⟨2000, 2, 29⟩ := by decide

end Days

end EventBus.Date
