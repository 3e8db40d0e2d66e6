import Mathlib
import SlideDeck.Calendar.Civil

/-!
Dates and day counts are two views of one calendar: each date of a month has its own count, and each
count is that of a date. The count goes by years that begin in March; weekdays and days of the year are
stated by years that begin in January.
-/

namespace SlideDeck.Calendar

theorem isLeap_iff (year : Int) :
    isLeap year = true ↔ year % 4 = 0 ∧ (year % 100 ≠ 0 ∨ year % 400 = 0) := by
  simp [isLeap]

def yearLength (year : Int) : Nat := if isLeap year then 366 else 365

def daysBeforeYear (year : Int) : Int :=
  365 * (year - 1) + (year - 1) / 4 - (year - 1) / 100 + (year - 1) / 400

theorem daysBeforeYear_succ (year : Int) :
    daysBeforeYear (year + 1) = daysBeforeYear year + yearLength year := by
  have leap := isLeap_iff year
  simp only [daysBeforeYear, yearLength]
  split
  · rename_i long
    rw [leap] at long
    omega
  · rename_i short
    rw [leap] at short
    omega

theorem monotone_daysBeforeYear : Monotone daysBeforeYear := by
  apply monotone_int_of_le_succ
  intro year
  rw [daysBeforeYear_succ]
  exact Int.le_add_of_nonneg_right (Int.natCast_nonneg _)

namespace Date

def InMonth (d : Date) : Prop := 1 ≤ d.day ∧ d.day ≤ monthLength d.year d.month

/-- Days of the year up to the date: those of the months before, and those of its own. -/
def yearDay (d : Date) : Nat := ((List.range d.month).map (monthLength d.year)).sum + d.day

/-- Days since the last one before year one. That year began with a Monday. -/
def dayNumber (d : Date) : Int := daysBeforeYear d.year + d.yearDay

theorem InMonth.month {d : Date} (inMonth : d.InMonth) : 1 ≤ d.month ∧ d.month ≤ 12 := by
  obtain ⟨first, last⟩ := inMonth
  unfold monthLength at last
  split at last <;> omega

theorem InMonth.day_le {d : Date} (inMonth : d.InMonth) : d.day ≤ 31 := by
  apply inMonth.2.trans
  unfold monthLength
  split <;> (try split) <;> omega

theorem isValid_iff {d : Date} : d.isValid = true ↔ minYear ≤ d.year ∧ d.year ≤ maxYear ∧ d.InMonth := by
  simp [isValid, InMonth, and_assoc]

/-- The years of the count begin in March; what is counted are the days before them. -/
theorem toDays_eq_march (d : Date) :
    d.toDays = daysBeforeYear ((if d.month ≤ 2 then d.year - 1 else d.year) + 1) +
      daysBeforeMonth ((d.month + 9) % 12) + d.day - 719469 := by
  unfold toDays
  generalize (if d.month ≤ 2 then d.year - 1 else d.year) = year
  dsimp only
  unfold daysBeforeYear
  omega

section Era

def yearStart (y : Nat) : Nat := 365 * y + y / 4 - y / 100 + y / 400

theorem daysBeforeYear_era (era : Int) {y : Nat} (inEra : y ≤ 400) :
    daysBeforeYear (era * 400 + y + 1) = era * 146097 + yearStart y := by
  unfold daysBeforeYear yearStart
  omega

theorem yearStart_succ (era : Int) {y : Nat} (inEra : y < 400) :
    yearStart (y + 1) = yearStart y + yearLength (era * 400 + y + 1) := by
  have here := daysBeforeYear_era era inEra.le
  have next : daysBeforeYear (era * 400 + (y + 1 : Nat) + 1) = era * 146097 + yearStart (y + 1) :=
    daysBeforeYear_era era inEra
  rw [Nat.cast_succ, ← add_assoc, daysBeforeYear_succ, here] at next
  omega

/-- About where a day of an era would be if no year had a leap day. -/
def withoutLeapDays (n : Nat) : Nat := n - n / 1460 + n / 36524 - n / 146096

theorem monotone_withoutLeapDays : Monotone withoutLeapDays := by
  apply monotone_nat_of_le_succ
  intro n
  unfold withoutLeapDays
  omega

theorem withoutLeapDays_yearStart : ∀ y < 400,
    365 * y ≤ withoutLeapDays (yearStart y) ∧
      withoutLeapDays (yearStart (y + 1) - 1) < 365 * (y + 1) := by
  decide +kernel

theorem yearOfEra_eq {n y : Nat} (inEra : y < 400) (first : yearStart y ≤ n)
    (last : n < yearStart (y + 1)) : withoutLeapDays n / 365 = y := by
  have low := monotone_withoutLeapDays first
  have high := monotone_withoutLeapDays (Nat.le_sub_one_of_lt last)
  obtain ⟨start, finish⟩ := withoutLeapDays_yearStart y inEra
  omega

theorem monthOfYear_eq {month day : Nat} (inMonth : day < daysBeforeMonth (month + 1) - daysBeforeMonth month) :
    (5 * (daysBeforeMonth month + day) + 2) / 153 = month := by
  unfold daysBeforeMonth at *
  omega

theorem exists_monthOfYear {dayOfYear : Nat} (inYear : dayOfYear < 366) :
    ∃ month < 12, daysBeforeMonth month ≤ dayOfYear ∧ dayOfYear < daysBeforeMonth (month + 1) := by
  refine ⟨(5 * dayOfYear + 2) / 153, by omega, ?_, ?_⟩ <;> (unfold daysBeforeMonth; omega)

/-- Every day of an era is in one of its years. -/
theorem exists_yearOfEra {n : Nat} (inEra : n < 146097) :
    ∃ y < 400, yearStart y ≤ n ∧ n < yearStart (y + 1) := by
  have reached : ∃ y, n < yearStart (y + 1) := ⟨399, inEra⟩
  refine ⟨Nat.find reached, ?_, ?_, Nat.find_spec reached⟩
  · exact Nat.lt_succ_of_le (Nat.find_min' reached inEra)
  · cases least : Nat.find reached with
    | zero => exact Nat.zero_le n
    | succ y =>
        have earlier : y < Nat.find reached := by omega
        exact Nat.le_of_not_lt (Nat.find_min reached earlier)

end Era

/-- A day by the years that begin in March. All is counted from zero. -/
structure MarchDay where
  era : Int
  year : Nat
  month : Nat
  day : Nat
  year_lt : year < 400
  month_lt : month < 12
  day_lt : day < daysBeforeMonth (month + 1) - daysBeforeMonth month
  /-- The last month ends with the year. -/
  within : daysBeforeMonth month + day < yearStart (year + 1) - yearStart year

namespace MarchDay

def dayOfEra (p : MarchDay) : Nat := yearStart p.year + daysBeforeMonth p.month + p.day

def days (p : MarchDay) : Int := p.era * 146097 + p.dayOfEra - 719468

def date (p : MarchDay) : Date :=
  let month := if p.month < 10 then p.month + 3 else p.month - 9
  ⟨p.era * 400 + p.year + if month ≤ 2 then 1 else 0, month, p.day + 1⟩

theorem inMonth_date (p : MarchDay) : p.date.InMonth := by
  obtain ⟨era, year, month, day, inEra, inYear, inMonth, within⟩ := p
  rw [yearStart_succ era inEra, yearLength] at within
  simp only [InMonth, date, monthLength]
  interval_cases month <;> simp [daysBeforeMonth] at inMonth within ⊢ <;> grind

theorem toDays_date (p : MarchDay) : p.date.toDays = p.days := by
  obtain ⟨era, year, month, day, inEra, inYear, -, -⟩ := p
  have start := daysBeforeYear_era era inEra.le
  rw [toDays_eq_march]
  simp only [date, days, dayOfEra]
  interval_cases month <;> simp [daysBeforeMonth, start] <;> omega

theorem dayOfEra_lt (p : MarchDay) : p.dayOfEra < 146097 := by
  have within := p.within
  have inEra := p.year_lt
  unfold dayOfEra
  unfold yearStart at *
  omega

theorem ofDays_days (p : MarchDay) : ofDays p.days = p.date := by
  have era : (p.days + 719468) / 146097 = p.era := by
    have inEra := p.dayOfEra_lt
    unfold days
    omega
  have place : ((p.days + 719468) % 146097).toNat = p.dayOfEra := by
    have inEra := p.dayOfEra_lt
    unfold days
    omega
  have year : withoutLeapDays p.dayOfEra / 365 = p.year := by
    have within := p.within
    apply yearOfEra_eq p.year_lt <;> (unfold dayOfEra; omega)
  have dayOfYear : p.dayOfEra - (365 * p.year + p.year / 4 - p.year / 100) =
      daysBeforeMonth p.month + p.day := by
    have inEra := p.year_lt
    unfold dayOfEra yearStart
    omega
  have month : (5 * (daysBeforeMonth p.month + p.day) + 2) / 153 = p.month :=
    monthOfYear_eq p.day_lt
  unfold withoutLeapDays at year
  simp only [ofDays, date, era, place, year, dayOfYear, month, Nat.add_sub_cancel_left]

theorem exists_days (n : Int) : ∃ p : MarchDay, p.days = n := by
  have inEra : ((n + 719468) % 146097).toNat < 146097 := by omega
  obtain ⟨year, year_lt, first, last⟩ := exists_yearOfEra inEra
  obtain ⟨dayOfYear, split⟩ := Nat.exists_eq_add_of_le first
  have within : dayOfYear < yearStart (year + 1) - yearStart year := by omega
  have short : dayOfYear < 366 := by
    unfold yearStart at within
    omega
  obtain ⟨month, month_lt, before, after⟩ := exists_monthOfYear short
  obtain ⟨day, rfl⟩ := Nat.exists_eq_add_of_le before
  refine ⟨⟨(n + 719468) / 146097, year, month, day, year_lt, month_lt, by omega, within⟩, ?_⟩
  simp only [days, dayOfEra]
  omega

theorem exists_date {d : Date} (inMonth : d.InMonth) : ∃ p : MarchDay, p.date = d := by
  obtain ⟨first, last⟩ := inMonth.month
  obtain ⟨start, finish⟩ := inMonth
  obtain ⟨year, month, day⟩ := d
  obtain ⟨day, rfl⟩ := Nat.exists_eq_add_of_le' start
  -- January and February belong to the year before
  obtain ⟨era, y, inEra, rfl⟩ : ∃ (era : Int) (y : Nat), y < 400 ∧
      year = era * 400 + y + if month ≤ 2 then 1 else 0 :=
    ⟨(year - if month ≤ 2 then 1 else 0) / 400, ((year - if month ≤ 2 then 1 else 0) % 400).toNat,
      by omega, by omega⟩
  have next := yearStart_succ era inEra
  refine ⟨⟨era, y, (month + 9) % 12, day, inEra, by omega, ?_, ?_⟩, ?_⟩
  · interval_cases month <;> simp [monthLength, daysBeforeMonth] at finish ⊢ <;> (try split at finish) <;> omega
  · rw [next, yearLength]
    interval_cases month <;> simp [monthLength, daysBeforeMonth] at finish ⊢ <;> grind
  · simp only [date]
    interval_cases month <;> simp

end MarchDay

section Views

theorem inMonth_ofDays (n : Int) : (ofDays n).InMonth := by
  obtain ⟨p, rfl⟩ := MarchDay.exists_days n
  rw [p.ofDays_days]
  exact p.inMonth_date

theorem toDays_ofDays (n : Int) : (ofDays n).toDays = n := by
  obtain ⟨p, rfl⟩ := MarchDay.exists_days n
  rw [p.ofDays_days, p.toDays_date]

theorem ofDays_toDays {d : Date} (inMonth : d.InMonth) : ofDays d.toDays = d := by
  obtain ⟨p, rfl⟩ := MarchDay.exists_date inMonth
  rw [p.toDays_date, p.ofDays_days]

end Views

section January

variable {d : Date}

theorem toDays_eq (inMonth : d.InMonth) : d.toDays = d.dayNumber - 719163 := by
  have next := daysBeforeYear_succ d.year
  obtain ⟨first, last⟩ := inMonth.month
  rw [toDays_eq_march]
  obtain ⟨year, month, day⟩ := d
  simp only [dayNumber, yearDay, yearLength] at next ⊢
  interval_cases month <;> simp [monthLength, daysBeforeMonth, List.range_succ, next] <;> grind

theorem ordinal_eq (inMonth : d.InMonth) : d.ordinal = d.yearDay := by
  have first : (Date.mk d.year 1 1).InMonth := ⟨Nat.le_refl 1, Nat.one_le_ofNat⟩
  have one : (Date.mk d.year 1 1).yearDay = 1 := rfl
  have later : 1 ≤ d.yearDay := inMonth.1.trans (Nat.le_add_left _ _)
  rw [ordinal, toDays_eq inMonth, toDays_eq first, dayNumber, dayNumber, one]
  dsimp only
  omega

theorem sinceSunday_eq (inMonth : d.InMonth) : (d.sinceSunday : Int) = d.dayNumber % 7 := by
  rw [sinceSunday, toDays_eq inMonth]
  omega

theorem yearDay_le (inMonth : d.InMonth) : d.yearDay ≤ yearLength d.year := by
  obtain ⟨first, last⟩ := inMonth.month
  obtain ⟨start, finish⟩ := inMonth
  obtain ⟨year, month, day⟩ := d
  simp only [yearDay, yearLength]
  interval_cases month <;> simp [monthLength, List.range_succ] at finish ⊢ <;> grind

theorem le_year_iff (inMonth : d.InMonth) (year : Int) : year ≤ d.year ↔ daysBeforeYear year < d.dayNumber := by
  have first : 1 ≤ d.yearDay := inMonth.1.trans (Nat.le_add_left _ _)
  have last := yearDay_le inMonth
  have next := daysBeforeYear_succ d.year
  constructor
  · intro reached
    have before := monotone_daysBeforeYear reached
    unfold dayNumber
    omega
  · intro counted
    by_contra early
    have after := monotone_daysBeforeYear (show d.year + 1 ≤ year by omega)
    unfold dayNumber at counted
    omega

end January

end Date

namespace Moment

variable {m : Moment} {n : Int}

theorem isValid_iff : m.isValid = true ↔
    (minYear ≤ m.date.year ∧ m.date.year ≤ maxYear) ∧ m.date.InMonth ∧
      m.hour < 24 ∧ m.minute < 60 ∧ m.second < 60 := by
  simp [isValid, Date.isValid_iff, and_assoc]

theorem toSeconds_ofSeconds (n : Int) : (ofSeconds n).toSeconds = n := by
  simp only [toSeconds, ofSeconds, Date.toDays_ofDays]
  omega

theorem ofSeconds_toSeconds (valid : m.isValid = true) : ofSeconds m.toSeconds = m := by
  obtain ⟨-, inMonth, hour, minute, second⟩ := isValid_iff.mp valid
  have day : m.toSeconds / 86400 = m.date.toDays := by
    unfold toSeconds
    omega
  have rest : (m.toSeconds % 86400).toNat = (m.hour * 60 + m.minute) * 60 + m.second := by
    unfold toSeconds
    omega
  simp only [ofSeconds, day, rest, Date.ofDays_toDays inMonth]
  congr <;> omega

/-- The count of a moment is accepted and read back as it, and nothing else is accepted. -/
theorem ofSeconds?_eq_some_iff : ofSeconds? n = some m ↔ m.isValid = true ∧ m.toSeconds = n := by
  constructor
  · intro accepted
    simp only [ofSeconds?, Option.ite_none_right_eq_some, Option.some.injEq] at accepted
    obtain ⟨inRange, rfl⟩ := accepted
    refine ⟨isValid_iff.mpr ⟨by simpa using inRange, Date.inMonth_ofDays _, ?_⟩, toSeconds_ofSeconds n⟩
    simp only [ofSeconds]
    omega
  · rintro ⟨valid, rfl⟩
    obtain ⟨inRange, -⟩ := isValid_iff.mp valid
    simp [ofSeconds?, ofSeconds_toSeconds valid, inRange]

def minSeconds : Int := -8334601228800

def maxSeconds : Int := 8210266876799

theorem isSome_ofSeconds? : (ofSeconds? n).isSome = true ↔ minSeconds ≤ n ∧ n ≤ maxSeconds := by
  have inMonth := Date.inMonth_ofDays (n / 86400)
  have days := Date.toDays_eq inMonth
  have first := Date.le_year_iff inMonth minYear
  have last := Date.le_year_iff inMonth (maxYear + 1)
  rw [Date.toDays_ofDays] at days
  have year : (ofSeconds n).date.year = (Date.ofDays (n / 86400)).year := rfl
  simp only [ofSeconds?, Bool.and_eq_true, decide_eq_true_eq, Option.isSome_ite, year, minSeconds, maxSeconds]
  simp only [minYear, maxYear, daysBeforeYear] at first last ⊢
  omega

end Moment

end SlideDeck.Calendar
