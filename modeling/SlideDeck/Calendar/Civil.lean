/-!
The Gregorian calendar without a beginning, and moments counted in seconds from the start of 1970. A
year is taken to begin in March, so that the leap day is its last.
-/

namespace SlideDeck.Calendar

structure Date where
  year : Int
  /-- From one. -/
  month : Nat
  day : Nat
  deriving DecidableEq, Repr, Inhabited

structure Moment where
  date : Date
  hour : Nat
  minute : Nat
  second : Nat
  deriving DecidableEq, Repr, Inhabited

def isLeap (year : Int) : Bool := year % 4 = 0 && (year % 100 ≠ 0 || year % 400 = 0)

def monthLength (year : Int) (month : Nat) : Nat :=
  match month with
  | 1 | 3 | 5 | 7 | 8 | 10 | 12 => 31
  | 4 | 6 | 9 | 11 => 30
  | 2 => if isLeap year then 29 else 28
  | _ => 0

def minYear : Int := -262143

def maxYear : Int := 262142

def Date.isValid (d : Date) : Bool :=
  minYear ≤ d.year && d.year ≤ maxYear && 1 ≤ d.day && d.day ≤ monthLength d.year d.month

namespace Date

/-- How many days lie between the start of March and that of the month. -/
def daysBeforeMonth (fromMarch : Nat) : Nat := (153 * fromMarch + 2) / 5

def toDays (d : Date) : Int :=
  let fromMarch := (d.month + 9) % 12
  let year := if d.month ≤ 2 then d.year - 1 else d.year
  let era := year / 400
  let yearOfEra := year % 400
  let dayOfYear : Int := daysBeforeMonth fromMarch + d.day - 1
  era * 146097 + yearOfEra * 365 + yearOfEra / 4 - yearOfEra / 100 + dayOfYear - 719468

def ofDays (days : Int) : Date :=
  let shifted := days + 719468
  let era := shifted / 146097
  let dayOfEra := (shifted % 146097).toNat
  let yearOfEra := (dayOfEra - dayOfEra / 1460 + dayOfEra / 36524 - dayOfEra / 146096) / 365
  let dayOfYear := dayOfEra - (365 * yearOfEra + yearOfEra / 4 - yearOfEra / 100)
  let fromMarch := (5 * dayOfYear + 2) / 153
  let month := if fromMarch < 10 then fromMarch + 3 else fromMarch - 9
  { year := era * 400 + yearOfEra + if month ≤ 2 then 1 else 0
    month
    day := dayOfYear - daysBeforeMonth fromMarch + 1 }

/-- From one. -/
def ordinal (d : Date) : Nat := (d.toDays - Date.toDays ⟨d.year, 1, 1⟩).toNat + 1

def sinceSunday (d : Date) : Nat := ((d.toDays + 4) % 7).toNat

def sinceMonday (d : Date) : Nat := ((d.toDays + 3) % 7).toNat

/-- The week of the year, the first one beginning with the first day that is `since` zero. -/
def week (d : Date) (since : Nat) : Nat := (d.ordinal + 6 - since) / 7

def thursday (d : Date) : Date := ofDays (d.toDays - d.sinceMonday + 3)

/-- A week belongs to the year that its Thursday is in. -/
def isoYear (d : Date) : Int := d.thursday.year

def isoWeek (d : Date) : Nat := (d.thursday.ordinal - 1) / 7 + 1

end Date

namespace Moment

def isValid (m : Moment) : Bool := m.date.isValid && m.hour < 24 && m.minute < 60 && m.second < 60

def toSeconds (m : Moment) : Int :=
  m.date.toDays * 86400 + ((m.hour * 60 + m.minute) * 60 + m.second : Nat)

def ofSeconds (seconds : Int) : Moment :=
  let rest := (seconds % 86400).toNat
  { date := .ofDays (seconds / 86400)
    hour := rest / 3600
    minute := rest / 60 % 60
    second := rest % 60 }

/-- The moment so many seconds from the start of 1970, if its year is in range. -/
def ofSeconds? (seconds : Int) : Option Moment :=
  let m := ofSeconds seconds
  if minYear ≤ m.date.year && m.date.year ≤ maxYear then some m else none

end Moment

end SlideDeck.Calendar
