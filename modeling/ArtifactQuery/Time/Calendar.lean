/-!
# The civil calendar

Dates of the Gregorian calendar, extended to all years, counted in days from 1970-01-01.

* `CivilDate.Valid`: the month and the day exist.
* `CivilDate.toDays`, `CivilDate.ofDays`: a date as a count of days, and back.

Both directions count years from March, so that a leap day comes last, in cycles of 400 years of
146097 days. In such a year the months of five pairs 31-30 begin every 153 days.
-/

namespace ArtifactQuery

/-- A day of the calendar. -/
structure CivilDate where
  year : Int
  month : Nat
  day : Nat
  deriving DecidableEq, Repr

namespace CivilDate

/-- Whether the year has a 29th of February. -/
def isLeapYear (y : Int) : Bool := y % 4 = 0 ∧ (y % 100 ≠ 0 ∨ y % 400 = 0)

/-- The number of days of a month. -/
def daysInMonth (y : Int) (m : Nat) : Nat :=
  if m = 2 then (if isLeapYear y then 29 else 28)
  else if m = 4 ∨ m = 6 ∨ m = 9 ∨ m = 11 then 30
  else 31

/-- The month and the day exist. -/
def Valid (d : CivilDate) : Prop :=
  1 ≤ d.month ∧ d.month ≤ 12 ∧ 1 ≤ d.day ∧ d.day ≤ daysInMonth d.year d.month

instance (d : CivilDate) : Decidable d.Valid := inferInstanceAs (Decidable (_ ∧ _))

/-- Days from 0000-03-01 to 1970-01-01. -/
def epoch : Int := 719468

/-- Days of 400 years. -/
def cycle : Int := 146097

/-- Days from the first of March to the first day of the `m`-th month after it. -/
def monthStart (m : Int) : Int := (153 * m + 2) / 5

/-- Days from the first of March of a cycle's first year to that of its `y`-th. -/
def yearStart (y : Int) : Int := 365 * y + y / 4 - y / 100

/-- Days since 1970-01-01. -/
def toDays (d : CivilDate) : Int :=
  let y := if d.month ≤ 2 then d.year - 1 else d.year
  let m : Int := (d.month + 9) % 12
  cycle * (y / 400) + yearStart (y % 400) + monthStart m + (d.day - 1) - epoch

/-- The date so many days after 1970-01-01. -/
def ofDays (n : Int) : CivilDate :=
  let z := n + epoch
  let dayOfCycle := z % cycle
  let y := (dayOfCycle - dayOfCycle / 1460 + dayOfCycle / 36524 - dayOfCycle / 146096) / 365
  let dayOfYear := dayOfCycle - yearStart y
  let m := (5 * dayOfYear + 2) / 153
  let month := if m < 10 then m + 3 else m - 9
  { year := 400 * (z / cycle) + y + (if month ≤ 2 then 1 else 0)
    month := month.toNat
    day := (dayOfYear - monthStart m + 1).toNat }

end CivilDate

end ArtifactQuery
