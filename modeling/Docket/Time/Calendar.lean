/-! # Calendar days

Days of the Gregorian calendar, extended to all years, and their numbers counted from
1 January 1970. Years are counted from March inside the computation, so that the leap day is the
last day of its year.
-/

namespace Docket.Time

structure Date where
  year : Int
  month : Nat
  day : Nat
deriving DecidableEq

def isLeap (year : Int) : Bool := year % 4 == 0 && (year % 100 != 0 || year % 400 == 0)

def daysInMonth (year : Int) (month : Nat) : Nat :=
  if month = 2 then (if isLeap year then 29 else 28)
  else if month = 4 ∨ month = 6 ∨ month = 9 ∨ month = 11 then 30
  else 31

def isCovered (year : Int) : Bool := decide (-262143 ≤ year ∧ year ≤ 262142)

namespace Date

def Valid (d : Date) : Prop :=
  1 ≤ d.month ∧ d.month ≤ 12 ∧ 1 ≤ d.day ∧ d.day ≤ daysInMonth d.year d.month

instance (d : Date) : Decidable d.Valid := inferInstanceAs (Decidable (_ ∧ _))

/-- Days from 1 January 1970, negative before it. -/
def dayNumber (d : Date) : Int :=
  let year := if d.month ≤ 2 then d.year - 1 else d.year
  let month : Int := if d.month ≤ 2 then d.month + 9 else d.month - 3
  365 * year + year / 4 - year / 100 + year / 400 + (153 * month + 2) / 5 + d.day - 719469

/-- The day with a given number. A period of 400 years has 146097 days. -/
def ofDayNumber (n : Int) : Date :=
  let fromMarch := n + 719468
  let period := fromMarch / 146097
  let inPeriod := fromMarch % 146097
  let year := (inPeriod - inPeriod / 1460 + inPeriod / 36524 - inPeriod / 146096) / 365
  let inYear := inPeriod - (365 * year + year / 4 - year / 100)
  let month := (5 * inYear + 2) / 153
  let day := inYear - (153 * month + 2) / 5 + 1
  if month < 10 then ⟨400 * period + year, (month + 3).toNat, day.toNat⟩
  else ⟨400 * period + year + 1, (month - 9).toNat, day.toNat⟩

end Date

end Docket.Time
