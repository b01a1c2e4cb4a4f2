/-!
Days of the Gregorian calendar, counted from 1970-01-01.
-/
namespace AccessPolicy.Calendar

structure Date where
  year : Int
  month : Nat
  day : Nat
deriving DecidableEq, Repr

def isLeapYear (year : Int) : Bool :=
  year % 4 == 0 && (year % 100 != 0 || year % 400 == 0)

/-- Days from 1970-01-01 to the first day of a year. -/
def daysBeforeYear (year : Int) : Int :=
  let past := year - 1
  365 * past + past / 4 - past / 100 + past / 400 - 719162

def monthLengths (leap : Bool) : List Nat :=
  [31, if leap then 29 else 28, 31, 30, 31, 30, 31, 31, 30, 31, 30, 31]

def totalDays : List Nat → Nat
  | [] => 0
  | length :: lengths => length + totalDays lengths

def firstYear : Int := -262143

def lastYear : Int := 262142

/-- The number of a day; none when the calendar has no such day. -/
def Date.number? (date : Date) : Option Int :=
  let lengths := monthLengths (isLeapYear date.year)
  match lengths[date.month - 1]? with
  | none => none
  | some length =>
    if firstYear ≤ date.year ∧ date.year ≤ lastYear ∧ 1 ≤ date.month ∧ 1 ≤ date.day ∧
        date.day ≤ length then
      some (daysBeforeYear date.year + totalDays (lengths.take (date.month - 1)) + (date.day - 1))
    else none

/-- The year that a day falls in: the years have 146097 days in 400, and the estimate from that
rate is off by one year at most. -/
def yearOf (number : Int) : Int :=
  let estimate := (number + 719162) * 400 / 146097 + 1
  if number < daysBeforeYear estimate then estimate - 1
  else if daysBeforeYear (estimate + 1) ≤ number then estimate + 1
  else estimate

/-- Splits a count of days into whole months and the days that are left. -/
def splitMonths (month days : Nat) : List Nat → Nat × Nat
  | [] => (month, days)
  | length :: lengths =>
    if days < length then (month, days) else splitMonths (month + 1) (days - length) lengths

def Date.ofNumber (number : Int) : Date :=
  let year := yearOf number
  let (month, days) :=
    splitMonths 1 (number - daysBeforeYear year).toNat (monthLengths (isLeapYear year))
  ⟨year, month, days + 1⟩

end AccessPolicy.Calendar
