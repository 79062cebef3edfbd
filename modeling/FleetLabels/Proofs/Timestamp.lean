import FleetLabels.Proofs.Days
import FleetLabels.Proofs.Digits

/-!
    Timestamps that are written in UTC are read back.

    The text of a moment is that of a date and a whole-second time of day with a `Z` behind. Reading
    goes through it field by field: no field's digits run into the next, the separators stand where
    they are looked for, and the date and the time are ones that the reader accepts. What is read is
    the moment, floored to the second; its text is the same again. -/

namespace FleetLabels

/-! ### Trimming -/

/-- A text without blanks at its ends stays as it is. -/
theorem Text.trim_eq_self {x z : Char} (hx : isBlank x = false) (hz : isBlank z = false)
    (mid : List Char) : trim (x :: (mid ++ [z])) = x :: (mid ++ [z]) := by
  have hlast : (x :: (mid ++ [z])).reverse = z :: (x :: mid).reverse := by simp
  rw [trim, List.dropWhile_cons_of_neg (by simp [hx]), hlast,
    List.dropWhile_cons_of_neg (by simp [hz]), ← hlast, List.reverse_reverse]

/-- The characters of ASCII behind the space are no blanks. -/
theorem Text.isBlank_eq_false {c : Char} (hlow : 33 ≤ c.toNat) (hhigh : c.toNat ≤ 126) :
    isBlank c = false := by
  simp only [isBlank, Bool.or_eq_false_iff, Bool.and_eq_false_iff, decide_eq_false_iff_not,
    beq_eq_false_iff_ne]
  omega

namespace Calendar

theorem isBlank_of_isDigit {c : Char} (h : isDigit c = true) : Text.isBlank c = false := by
  have hrange := toNat_of_isDigit h
  exact Text.isBlank_eq_false (by omega) (by omega)

/-- A padded number starts with a digit. -/
theorem padded_cons {k n : Nat} (hk : 0 < k) (hn : n < 10 ^ k) :
    ∃ c ds, (padded k n).toList = c :: ds ∧ isDigit c = true := by
  have hlen := length_padded hk hn
  cases hds : (padded k n).toList with
  | nil =>
    rw [hds] at hlen
    exact absurd hlen (Nat.ne_of_lt hk)
  | cons c ds => exact ⟨c, ds, rfl, isDigit_of_mem_padded (hds ▸ List.mem_cons_self)⟩

/-! ### Dates -/

variable {d : Date} {c : Clock} {rest : List Char}

theorem toList_text (d : Date) : d.text.toList = (padded 4 d.year).toList ++
    '-' :: ((padded 2 d.month).toList ++ '-' :: (padded 2 d.day).toList) := by
  simp [Date.text]

/-- The numbers of a valid date fit the digits that they are written in. -/
theorem fits_of_isValid (hd : d.isValid = true) :
    d.year < 10 ^ 4 ∧ d.month < 10 ^ 2 ∧ d.day < 10 ^ 2 := by
  obtain ⟨⟨-, hyear⟩, ⟨-, hmonth⟩, -, hday⟩ := Date.isValid_iff.mp hd
  have hmax := Date.daysInMonth_le d.year d.month
  omega

theorem length_text (hd : d.isValid = true) : d.text.toList.length = 10 := by
  obtain ⟨hyear, hmonth, hday⟩ := fits_of_isValid hd
  rw [toList_text, List.length_append, List.length_cons, List.length_append, List.length_cons,
    length_padded (by decide) hyear, length_padded (by decide) hmonth,
    length_padded (by decide) hday]

/-- The month starts with a digit, so that no week of a year is meant. -/
theorem text_append (hd : d.isValid = true) (rest : List Char) :
    ∃ m ms, (padded 2 d.month).toList = m :: ms ∧ m ≠ 'W' ∧ d.text.toList ++ rest =
      (padded 4 d.year).toList ++ '-' :: m :: (ms ++ '-' :: ((padded 2 d.day).toList ++ rest)) := by
  obtain ⟨-, hmonth, -⟩ := fits_of_isValid hd
  obtain ⟨m, ms, hms, hm⟩ := padded_cons (by decide) hmonth
  refine ⟨m, ms, hms, ?_, ?_⟩
  · rintro rfl
    cases hm
  · rw [toList_text, hms]
    simp

theorem separatorAt_text (hd : d.isValid = true) (x : Char) (rest : List Char) :
    separatorAt (d.text.toList ++ x :: rest) = 10 := by
  obtain ⟨hyear, -, -⟩ := fits_of_isValid hd
  have hfour := length_padded (by decide) hyear
  have hlen : (d.text.toList ++ x :: rest).length ≠ 7 := by
    rw [List.length_append, length_text hd]
    omega
  obtain ⟨m, ms, -, hm, htext⟩ := text_append hd (x :: rest)
  have hdash : (d.text.toList ++ x :: rest)[4]? = some '-' := by
    rw [htext, List.getElem?_append_right (by omega), hfour]
    rfl
  have hweek : (d.text.toList ++ x :: rest)[5]? = some m := by
    rw [htext, List.getElem?_append_right (by omega), hfour]
    rfl
  rw [separatorAt, if_neg (by simpa using hlen), hdash, hweek, if_pos (by simp), if_neg (by simpa using hm)]

theorem readDate_text (hd : d.isValid = true) (rest : List Char) :
    readDate 10 (d.text.toList ++ rest) = some d := by
  obtain ⟨hyear, hmonth, hday⟩ := fits_of_isValid hd
  obtain ⟨m, ms, hms, hm, htext⟩ := text_append hd rest
  have hreadYear := takeNumber_padded (by decide) hyear
    ('-' :: m :: (ms ++ '-' :: ((padded 2 d.day).toList ++ rest)))
  have hreadMonth := takeNumber_padded (by decide) hmonth ('-' :: ((padded 2 d.day).toList ++ rest))
  have hreadDay := takeNumber_padded (by decide) hday rest
  rw [hms, List.cons_append] at hreadMonth
  rw [htext, readDate, hreadYear]
  simp [hm, hreadMonth, hreadDay, hd]

/-! ### Times of day -/

theorem toList_clockText (h : c.micro = 0) : c.text.toList = (padded 2 c.hour).toList ++
    ':' :: ((padded 2 c.minute).toList ++ ':' :: (padded 2 c.second).toList) := by
  simp [Clock.text, h]

/-- A field with a colon and more behind it is followed by the next field. -/
theorem readFields_colon {left n : Nat} {fields : List Nat} {cs rest : List Char}
    (h : takeNumber 2 cs = some (n, ':' :: rest)) (hrest : rest ≠ []) :
    readFields.go (left + 1) true fields cs = readFields.go left true (fields ++ [n]) rest := by
  rw [readFields.go, h]
  simp [hrest]

theorem readFields_end {left n : Nat} {fields : List Nat} {cs : List Char}
    (h : takeNumber 2 cs = some (n, [])) :
    readFields.go (left + 1) true fields cs =
      some (readFields.finish (fields ++ [n]) 0, false) := by
  rw [readFields.go, h]
  rfl

theorem readFields_text (hc : c.isValid = true) (h : c.micro = 0) :
    readFields c.text.toList = some (c, false) := by
  obtain ⟨hhour, hminute, hsecond⟩ := Clock.isValid_iff.mp hc
  have hreadSecond := takeNumber_padded (k := 2) (n := c.second) (by decide) (by omega) []
  rw [List.append_nil] at hreadSecond
  obtain ⟨s, ss, hss, -⟩ := padded_cons (k := 2) (n := c.second) (by decide) (by omega)
  rw [toList_clockText h, readFields,
    readFields_colon (takeNumber_padded (by decide) (by omega) _) (by simp),
    readFields_colon (takeNumber_padded (by decide) (by omega) _) (by simp [hss]),
    readFields_end hreadSecond]
  cases c
  cases h
  rfl

theorem not_mark_of_mem_text (h : c.micro = 0) {x : Char} (hx : x ∈ c.text.toList) :
    x ≠ '+' ∧ x ≠ '-' ∧ x ≠ 'Z' := by
  have hdigits : ∀ n, x ∈ (padded 2 n).toList → x ≠ '+' ∧ x ≠ '-' ∧ x ≠ 'Z' := by
    intro n hn
    have hdigit := isDigit_of_mem_padded hn
    refine ⟨?_, ?_, ?_⟩ <;> (rintro rfl; cases hdigit)
  rw [toList_clockText h] at hx
  simp only [List.mem_append, List.mem_cons] at hx
  rcases hx with hx | rfl | hx | rfl | hx
  · exact hdigits _ hx
  · decide
  · exact hdigits _ hx
  · decide
  · exact hdigits _ hx

theorem readTime_text (hc : c.isValid = true) (h : c.micro = 0) :
    readTime (c.text.toList ++ "+00:00".toList) = some (c, some 0) := by
  have hmarks : ∀ x ∈ c.text.toList, (!(x == '+' || x == '-' || x == 'Z')) = true := by
    intro x hx
    obtain ⟨hplus, hminus, hzulu⟩ := not_mark_of_mem_text h hx
    simp [hplus, hminus, hzulu]
  have htake : (c.text.toList ++ "+00:00".toList).takeWhile
      (fun x => !(x == '+' || x == '-' || x == 'Z')) = c.text.toList := by
    rw [List.takeWhile_append_of_pos hmarks]
    exact List.append_nil _
  have hdrop : (c.text.toList ++ "+00:00".toList).dropWhile
      (fun x => !(x == '+' || x == '-' || x == 'Z')) = '+' :: ['0', '0', ':', '0', '0'] := by
    rw [List.dropWhile_append_of_pos hmarks]
    rfl
  have hoffset : readOffset false ['0', '0', ':', '0', '0'] = some 0 := by decide
  rw [readTime]
  dsimp only
  rw [htake, hdrop, readFields_text hc h]
  simp only [Option.bind_eq_bind, Option.bind_some, hc, Bool.not_true, Bool.false_eq_true, if_false]
  change (readOffset false ['0', '0', ':', '0', '0']).bind (fun a => some (c, some a)) = _
  rw [hoffset]
  rfl

/-! ### Moments -/

/-- The moment in UTC, floored to the second. -/
def Moment.floored (t : Moment) : Moment := ⟨t.instant - t.instant % 1000000, 0⟩

/-- A date and a time of day that are written with the offset zero are read back. -/
theorem read?_text (hd : d.isValid = true) (hc : c.isValid = true) (h : c.micro = 0) :
    Stamp.read? (d.text.toList ++ 'T' :: (c.text.toList ++ "+00:00".toList)) =
      some ⟨wallOf d c, some 0⟩ := by
  have hdrop : (d.text.toList ++ 'T' :: (c.text.toList ++ "+00:00".toList)).drop 10 =
      'T' :: (c.text.toList ++ "+00:00".toList) := List.drop_left' (length_text hd)
  rw [Stamp.read?, separatorAt_text hd]
  simp only [hdrop, readDate_text hd, readTime_text hc h]
  rfl

namespace Moment

theorem withoutZulu_zulu (cs : List Char) : withoutZulu (cs ++ ['Z']) = cs ++ "+00:00".toList := by
  simp [withoutZulu]

/-- In four-digit years the text of a moment is that of a date and of a whole second. -/
theorem utcText_eq {t : Moment} (h : 1000 ≤ (dateOf t.instant).year) :
    t.utcText = (dateOf t.instant).text ++ "T" ++
      { clockOf t.instant with micro := 0 }.text ++ "Z" := by
  rw [utcText, Date.text, Clock.text, toString_eq_padded (k := 3) h]
  simp only [beq_self_eq_true, if_true, String.append_assoc, String.empty_append]

theorem toList_utcText {t : Moment} (h : 1000 ≤ (dateOf t.instant).year) :
    t.utcText.toList = (dateOf t.instant).text.toList ++
      'T' :: { clockOf t.instant with micro := 0 }.text.toList ++ ['Z'] := by
  rw [utcText_eq h, String.toList_append, String.toList_append, String.toList_append,
    List.append_assoc (dateOf t.instant).text.toList]
  rfl

/-- There are no blanks around the text of a moment. -/
theorem trim_utcText {t : Moment} (hlow : 1000 ≤ (dateOf t.instant).year)
    (hhigh : (dateOf t.instant).year ≤ 9999) : Text.trim t.utcText.toList = t.utcText.toList := by
  obtain ⟨y, ys, hys, hy⟩ := padded_cons (k := 4) (n := (dateOf t.instant).year) (by decide)
    (by omega)
  rw [toList_utcText hlow, toList_text, hys]
  exact Text.trim_eq_self (isBlank_of_isDigit hy) (by decide) _

/-- The text of a moment in a four-digit year is read as the moment, floored to the second. -/
theorem read?_utcText {t : Moment} (hlow : 1000 ≤ (dateOf t.instant).year)
    (hhigh : (dateOf t.instant).year ≤ 9999) : read? t.utcText = some t.floored := by
  have hpast : 0 ≤ t.instant := nonneg_of_year (by omega)
  have hday : 0 ≤ t.instant / dayLength := Int.ediv_nonneg hpast (by decide)
  have hdate : (dateOf t.instant).isValid = true := by
    rw [dateOf] at hlow hhigh ⊢
    exact Date.isValid_ofOrdinal (by omega) (by omega) hhigh
  have hclock : ({ clockOf t.instant with micro := 0 } : Clock).isValid = true :=
    isValid_clockOf t.instant
  rw [read?, trim_utcText hlow hhigh, toList_utcText hlow, withoutZulu_zulu, List.append_assoc,
    List.cons_append, read?_text hdate hclock rfl, wallOf_floored hpast]
  rfl

theorem instant_floored (t : Moment) : t.floored.instant = t.instant - t.instant % 1000000 :=
  Int.sub_zero _

/-- What is floored has the same text. -/
theorem utcText_floored (t : Moment) : t.floored.utcText = t.utcText := by
  have hdate : dateOf t.floored.instant = dateOf t.instant := by
    rw [dateOf, dateOf, instant_floored, dayLength]
    congr 3
    omega
  have hmicros : (t.floored.instant % dayLength).toNat =
      (t.instant % dayLength).toNat - (t.instant % dayLength).toNat % 1000000 := by
    rw [instant_floored, dayLength]
    omega
  have hclock : clockOf t.floored.instant = { clockOf t.instant with micro := 0 } := by
    rw [clockOf, clockOf, hmicros]
    generalize (t.instant % dayLength).toNat = n
    simp only [Clock.ofMicros, Clock.mk.injEq]
    omega
  rw [utcText, utcText, hdate, hclock]

end Moment

end Calendar

end FleetLabels
