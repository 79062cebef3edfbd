/-!
    Dates of the Gregorian calendar and their day numbers.

    The first of January of year 1 is day 1. `Date.ordinal` counts the days up to a date and
    `Date.ofOrdinal` goes back by cycles of four hundred, one hundred and four years and then by the
    months of the year found. Weeks start on Monday; the first week of a year is the one that holds
    its first Thursday. -/

namespace FleetLabels.Calendar

structure Date where
  year : Nat
  month : Nat
  day : Nat
  deriving DecidableEq, Inhabited, Repr

def isLeap (y : Nat) : Bool := y % 4 == 0 && (y % 100 != 0 || y % 400 == 0)

def daysInMonth (y m : Nat) : Nat :=
  if m == 2 then (if isLeap y then 29 else 28)
  else if m == 4 || m == 6 || m == 9 || m == 11 then 30
  else 31

/-- The days of all years before `y`, for `y ≥ 1`. -/
def daysBeforeYear (y : Nat) : Nat :=
  let p := y - 1
  p * 365 + p / 4 - p / 100 + p / 400

/-- The days of year `y` before its month `m`. -/
def daysBeforeMonth (y : Nat) : Nat → Nat
  | 0 => 0
  | m + 1 => if m == 0 then 0 else daysBeforeMonth y m + daysInMonth y m

namespace Date

/-- What keeps three numbers from being a date. -/
inductive Flaw where
  | year (y : Nat)
  | month
  | day
  deriving DecidableEq, Repr

/-- The first flaw of a would-be date, looking at year, month and day in turn. -/
def flaw? (d : Date) : Option Flaw :=
  if d.year < 1 ∨ 9999 < d.year then some (.year d.year)
  else if d.month < 1 ∨ 12 < d.month then some .month
  else if d.day < 1 ∨ daysInMonth d.year d.month < d.day then some .day
  else none

/-- A date of the years 1 to 9999. -/
def isValid (d : Date) : Bool := d.flaw?.isNone

/-- The number of days up to and including the date. -/
def ordinal (d : Date) : Nat := daysBeforeYear d.year + daysBeforeMonth d.year d.month + d.day

/-- The year of a day number, and the days of that year before it. -/
def yearOfOrdinal (n : Nat) : Nat × Nat :=
  let z := n - 1
  let r := z % 146097
  let n100 := min 3 (r / 36524)
  let r100 := r - n100 * 36524
  let n4 := r100 / 1461
  let r4 := r100 % 1461
  let n1 := min 3 (r4 / 365)
  (400 * (z / 146097) + 100 * n100 + 4 * n4 + n1 + 1, r4 - n1 * 365)

/-- The month, from `m` on, in which the `k`-th day counted from its start lies, and the day of
    that month. -/
def monthFrom (y : Nat) : Nat → Nat → Nat → Nat × Nat
  | 0, m, k => (m, k + 1)
  | fuel + 1, m, k =>
    if k < daysInMonth y m then (m, k + 1) else monthFrom y fuel (m + 1) (k - daysInMonth y m)

/-- The date with a day number. -/
def ofOrdinal (n : Nat) : Date :=
  let (y, k) := yearOfOrdinal n
  let (m, d) := monthFrom y 11 1 k
  ⟨y, m, d⟩

/-- Days since Monday. -/
def weekday (d : Date) : Nat := (d.ordinal + 6) % 7

/-- The day number of the Monday of the first week of a year. -/
def firstMonday (y : Nat) : Nat :=
  let first : Date := ⟨y, 1, 1⟩
  if 3 < first.weekday then first.ordinal - first.weekday + 7 else first.ordinal - first.weekday

/-- The number of weeks of a year: fifty-three when it starts on a Thursday, or on a Wednesday and
    is a leap year. -/
def weeksIn (y : Nat) : Nat :=
  let w := (Date.mk y 1 1).weekday
  if w == 3 || (w == 2 && isLeap y) then 53 else 52

/-- The date of a day (1 to 7) of a week of a year. -/
def ofWeek? (y w d : Nat) : Option Date :=
  if y < 1 ∨ w < 1 ∨ weeksIn y < w ∨ d < 1 ∨ 7 < d then none
  else
    let date := ofOrdinal (firstMonday y + (w - 1) * 7 + (d - 1))
    if date.isValid then some date else none

example : (Date.mk 2024 2 29).ordinal = 738945 ∧ ofOrdinal 738945 = ⟨2024, 2, 29⟩ := by decide
example : ofWeek? 2020 53 7 = some ⟨2021, 1, 3⟩ := by decide

end Date

end FleetLabels.Calendar
