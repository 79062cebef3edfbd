import FleetLabels.Calendar.Moment
import Mathlib.Tactic.Common

/-!
    Days and their numbers.

    The year of a day number is found cycle by cycle, and the month by going through the months of
    the year; the days left over in each step stay fewer than the year, or the month, has. So the date
    of a day number is a date of the calendar and has that day number, and a reading of a wall clock is
    the reading of the date and the time of day that it shows. -/

namespace FleetLabels.Calendar

/-! ### Years -/

/-- The days of a year. -/
def daysInYear (y : Nat) : Nat := if isLeap y then 366 else 365

theorem isLeap_iff {y : Nat} : isLeap y = true ↔ y % 4 = 0 ∧ (y % 100 ≠ 0 ∨ y % 400 = 0) := by
  simp [isLeap]

/-- The days before the year that follows `q` cycles of four hundred years, `a` of one hundred, `b` of
    four, and `c` years. -/
theorem daysBeforeYear_cycles {a b c : Nat} (q : Nat) (ha : a ≤ 3) (hb : b ≤ 24) (hc : c ≤ 3) :
    daysBeforeYear (400 * q + 100 * a + 4 * b + c + 1) =
      146097 * q + 36524 * a + 1461 * b + 365 * c := by
  simp only [daysBeforeYear]
  omega

/-- Such a year is a leap year when it ends a cycle of four years, but not when it ends one of one
    hundred, unless that is the last of four. -/
theorem isLeap_cycles {a b c : Nat} (q : Nat) (ha : a ≤ 3) (hb : b ≤ 24) (hc : c ≤ 3) :
    isLeap (400 * q + 100 * a + 4 * b + c + 1) = true ↔ c = 3 ∧ (b = 24 → a = 3) := by
  rw [isLeap_iff]
  omega

/-- The days before a year and the days of it that are left over make up the day number, and the
    days left over are fewer than the year has. -/
theorem yearOfOrdinal_spec {n y k : Nat} (hn : 1 ≤ n) (h : Date.yearOfOrdinal n = (y, k)) :
    1 ≤ y ∧ daysBeforeYear y + k + 1 = n ∧ k < daysInYear y := by
  simp only [Date.yearOfOrdinal, Prod.mk.injEq] at h
  generalize hq : (n - 1) / 146097 = q at h
  generalize hr : (n - 1) % 146097 = r at h
  generalize ha : min 3 (r / 36524) = a at h
  generalize hb : (r - a * 36524) / 1461 = b at h
  generalize hs : (r - a * 36524) % 1461 = s at h
  generalize hc : min 3 (s / 365) = c at h
  obtain ⟨rfl, rfl⟩ := h
  have ha3 : a ≤ 3 := by omega
  have hb24 : b ≤ 24 := by omega
  have hc3 : c ≤ 3 := by omega
  have hdays := daysBeforeYear_cycles q ha3 hb24 hc3
  have hleap := isLeap_cycles q ha3 hb24 hc3
  refine ⟨by omega, by omega, ?_⟩
  rw [daysInYear]
  split
  · omega
  · rename_i hcommon
    rw [hleap] at hcommon
    omega

/-! ### Months -/

theorem daysBeforeMonth_succ {y m : Nat} (hm : 1 ≤ m) :
    daysBeforeMonth y (m + 1) = daysBeforeMonth y m + daysInMonth y m := by
  rw [daysBeforeMonth, if_neg (by simpa using Nat.one_le_iff_ne_zero.mp hm)]

/-- The twelve months make up the year. -/
theorem daysBeforeMonth_end (y : Nat) : daysBeforeMonth y 13 = daysInYear y := by
  simp only [daysBeforeMonth, daysInMonth, daysInYear]
  cases isLeap y <;> rfl

/-- The day that is found lies in its month, and counts the same from the start of the year. -/
theorem monthFrom_spec {y fuel m k last : Nat} (hm : 1 ≤ m) (hlast : last = m + fuel)
    (hk : daysBeforeMonth y m + k < daysBeforeMonth y (last + 1)) :
    m ≤ (Date.monthFrom y fuel m k).1 ∧ (Date.monthFrom y fuel m k).1 ≤ last ∧
      1 ≤ (Date.monthFrom y fuel m k).2 ∧
      (Date.monthFrom y fuel m k).2 ≤ daysInMonth y (Date.monthFrom y fuel m k).1 ∧
      daysBeforeMonth y (Date.monthFrom y fuel m k).1 + (Date.monthFrom y fuel m k).2 =
        daysBeforeMonth y m + k + 1 := by
  have hnext := daysBeforeMonth_succ (y := y) hm
  induction fuel generalizing m k with
  | zero =>
    obtain rfl : last = m := hlast
    simp only [Date.monthFrom]
    omega
  | succ fuel ih =>
    rw [Date.monthFrom]
    split
    · simp only
      omega
    · obtain ⟨hge, hle, hfirst, hday, hsum⟩ := ih (m := m + 1) (k := k - daysInMonth y m) (by omega)
        (by omega) (by omega) (daysBeforeMonth_succ (by omega))
      exact ⟨by omega, hle, hfirst, hday, by omega⟩

/-! ### Dates -/

namespace Date

/-- The date of a day number is a date of the calendar and has the day number. -/
theorem ofOrdinal_spec {n : Nat} (hn : 1 ≤ n) :
    1 ≤ (ofOrdinal n).month ∧ (ofOrdinal n).month ≤ 12 ∧ 1 ≤ (ofOrdinal n).day ∧
      (ofOrdinal n).day ≤ daysInMonth (ofOrdinal n).year (ofOrdinal n).month ∧
      (ofOrdinal n).ordinal = n := by
  cases hyear : yearOfOrdinal n with
  | mk y k =>
    obtain ⟨-, hsum, hk⟩ := yearOfOrdinal_spec hn hyear
    have hmonths : daysBeforeMonth y 1 + k < daysBeforeMonth y (12 + 1) := by
      rw [daysBeforeMonth_end, show daysBeforeMonth y 1 = 0 from rfl, Nat.zero_add]
      exact hk
    have htwelve : 12 = 1 + 11 := rfl
    obtain ⟨hge, hle, hfirst, hlast, hday⟩ := monthFrom_spec Nat.le.refl htwelve hmonths
    have hdate : ofOrdinal n = ⟨y, (monthFrom y 11 1 k).1, (monthFrom y 11 1 k).2⟩ := by
      rw [ofOrdinal, hyear]
    rw [show daysBeforeMonth y 1 = 0 from rfl, Nat.zero_add] at hday
    rw [hdate, ordinal]
    refine ⟨hge, hle, hfirst, hlast, ?_⟩
    dsimp only
    omega

theorem daysInMonth_le (y m : Nat) : daysInMonth y m ≤ 31 := by
  unfold daysInMonth
  repeat' split
  all_goals omega

theorem isValid_iff {d : Date} : d.isValid = true ↔
    (1 ≤ d.year ∧ d.year ≤ 9999) ∧ (1 ≤ d.month ∧ d.month ≤ 12) ∧
      1 ≤ d.day ∧ d.day ≤ daysInMonth d.year d.month := by
  unfold isValid flaw?
  split
  · simp
    omega
  · split
    · simp
      omega
    · split
      · simp
        omega
      · simp
        omega

/-- The date of a day number of the years 1 to 9999 is valid. -/
theorem isValid_ofOrdinal {n : Nat} (hn : 1 ≤ n) (hyear : 1 ≤ (ofOrdinal n).year)
    (hlast : (ofOrdinal n).year ≤ 9999) : (ofOrdinal n).isValid = true := by
  obtain ⟨hmonth, htwelve, hday, hend, -⟩ := ofOrdinal_spec hn
  exact isValid_iff.mpr ⟨⟨hyear, hlast⟩, ⟨hmonth, htwelve⟩, hday, hend⟩

end Date

/-! ### Readings of wall clocks -/

theorem Clock.micros_ofMicros (n : Nat) : (Clock.ofMicros n).micros = n := by
  simp only [Clock.ofMicros, Clock.micros]
  omega

theorem Clock.isValid_iff {c : Clock} :
    c.isValid = true ↔ c.hour < 24 ∧ c.minute < 60 ∧ c.second < 60 := by
  unfold isValid flaw?
  split
  · simp
    omega
  · split
    · simp
      omega
    · split
      · simp
        omega
      · simp
        omega

/-- The time of day that a reading shows is one. -/
theorem isValid_clockOf (wall : Int) : (clockOf wall).isValid = true := by
  have hlow : 0 ≤ wall % dayLength := Int.emod_nonneg wall (by decide)
  have hhigh : wall % dayLength < dayLength := Int.emod_lt_of_pos wall (by decide)
  rw [Clock.isValid_iff]
  dsimp only [clockOf, Clock.ofMicros]
  rw [dayLength] at hlow hhigh ⊢
  omega

/-- Before the start of year 1 all readings show a day of that year. -/
theorem nonneg_of_year {wall : Int} (h : 2 ≤ (dateOf wall).year) : 0 ≤ wall := by
  by_contra hneg
  have hday : (wall / dayLength + 1).toNat = 0 := by
    rw [dayLength]
    omega
  rw [dateOf, hday] at h
  exact absurd h (by decide)

/-- A reading is the one of the date and the time of day that it shows. -/
theorem wallOf_dateOf {wall : Int} (h : 0 ≤ wall) : wallOf (dateOf wall) (clockOf wall) = wall := by
  have hday : 0 ≤ wall / dayLength := Int.ediv_nonneg h (by decide)
  have hrest : 0 ≤ wall % dayLength := Int.emod_nonneg wall (by decide)
  have hsplit := Int.mul_ediv_add_emod wall dayLength
  obtain ⟨-, -, -, -, hordinal⟩ := Date.ofOrdinal_spec (n := (wall / dayLength + 1).toNat) (by omega)
  rw [wallOf, dateOf, clockOf, hordinal, Clock.micros_ofMicros, Int.toNat_of_nonneg (by omega),
    Int.toNat_of_nonneg hrest, Int.add_sub_cancel, Int.mul_comm]
  exact hsplit

theorem wallOf_whole (d : Date) (c : Clock) :
    wallOf d { c with micro := 0 } = wallOf d c - c.micro := by
  simp only [wallOf, Clock.micros]
  omega

/-- Without its microseconds, a reading is floored to the second. -/
theorem wallOf_floored {wall : Int} (h : 0 ≤ wall) :
    wallOf (dateOf wall) { clockOf wall with micro := 0 } = wall - wall % 1000000 := by
  have hmicro : ((clockOf wall).micro : Int) = wall % 1000000 := by
    rw [clockOf, dayLength]
    dsimp only [Clock.ofMicros]
    omega
  rw [wallOf_whole, wallOf_dateOf h, hmicro]

end FleetLabels.Calendar
