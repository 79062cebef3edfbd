import FleetLabels.Proofs.RoundTrip

/-!
    Timestamps that are ordered as text.

    Numbers that are padded to one width stand in the order of their digits, so that a row of such
    fields is ordered by its first field, then by the second, and so on. Dates are ordered in the same
    way by year, month and day, and this is the order of their day numbers. Hence the texts of two
    moments in four-digit years stand in the order of the whole seconds that the moments lie in. -/

namespace FleetLabels

namespace Calendar

/-! ### Numbers of one width -/

section Digits

variable {ds es rs ss : List Char} {k m n : Nat}

/-- The first digit counts as often as there are numbers that the others can spell. -/
theorem numberOf_cons (c : Char) (ds : List Char) :
    numberOf (c :: ds) = digitValue c * 10 ^ ds.length + numberOf ds := by
  rw [numberOf_eq_ofDigitChars, numberOf_eq_ofDigitChars, Nat.ofDigitChars_cons,
    Nat.ofDigitChars_eq_ofDigitChars_zero, Nat.mul_zero, Nat.zero_add, Nat.mul_comm (10 ^ ds.length)]
  rfl

theorem numberOf_lt (hds : ∀ c ∈ ds, isDigit c = true) : numberOf ds < 10 ^ ds.length := by
  induction ds with
  | nil => exact Nat.one_pos
  | cons c ds ih =>
    have hfirst := digitValue_lt (hds c List.mem_cons_self)
    have hrest := ih fun d hd => hds d (List.mem_cons_of_mem c hd)
    have hbound : (digitValue c + 1) * 10 ^ ds.length ≤ 10 * 10 ^ ds.length :=
      Nat.mul_le_mul_right _ hfirst
    rw [Nat.succ_mul] at hbound
    rw [numberOf_cons, List.length_cons, Nat.pow_succ']
    omega

/-- Of two numbers in two places the first place decides, and the second one where they agree there. -/
theorem mul_add_lt_iff {a b p : Nat} (hm : m < p) (hn : n < p) :
    a * p + m < b * p + n ↔ a < b ∨ a = b ∧ m < n := by
  have hstep : ∀ {x y : Nat}, x < y → x * p + p ≤ y * p := by
    intro x y hxy
    rw [← Nat.succ_mul]
    exact Nat.mul_le_mul_right p hxy
  rcases Nat.lt_trichotomy a b with hab | rfl | hba
  · have := hstep hab
    omega
  · omega
  · have := hstep hba
    omega

theorem lt_iff_digitValue_lt {c d : Char} (hc : isDigit c = true) (hd : isDigit d = true) :
    c < d ↔ digitValue c < digitValue d := by
  have hcval := toNat_of_isDigit hc
  have hdval := toNat_of_isDigit hd
  change c.toNat < d.toNat ↔ c.toNat - 48 < d.toNat - 48
  omega

theorem digitValue_inj {c d : Char} (hc : isDigit c = true) (hd : isDigit d = true) :
    digitValue c = digitValue d ↔ c = d := by
  refine ⟨fun h => ?_, congrArg digitValue⟩
  rw [← digitChar_digitValue hc, h, digitChar_digitValue hd]

/-- As many digits come first exactly when they spell the smaller number. -/
theorem lt_iff_numberOf_lt (hlen : ds.length = es.length) (hds : ∀ c ∈ ds, isDigit c = true)
    (hes : ∀ c ∈ es, isDigit c = true) : ds < es ↔ numberOf ds < numberOf es := by
  induction ds generalizing es with
  | nil =>
    obtain rfl := List.length_eq_zero_iff.mp hlen.symm
    exact iff_of_false (List.not_lt_nil []) (Nat.lt_irrefl _)
  | cons c ds ih =>
    cases es with
    | nil => cases hlen
    | cons e es =>
      rw [List.forall_mem_cons] at hds hes
      have hrest : ds.length = es.length := Nat.succ.inj hlen
      have hbound : numberOf es < 10 ^ ds.length := hrest ▸ numberOf_lt hes.2
      rw [List.cons_lt_cons_iff, ih hrest hds.2 hes.2, lt_iff_digitValue_lt hds.1 hes.1,
        ← digitValue_inj hds.1 hes.1, numberOf_cons, numberOf_cons, ← hrest,
        mul_add_lt_iff (numberOf_lt hds.2) hbound]

/-- Texts of one length decide the order of what begins with them, unless they are the same. -/
theorem append_lt_append_iff (hlen : ds.length = es.length) :
    ds ++ rs < es ++ ss ↔ ds < es ∨ ds = es ∧ rs < ss := by
  induction ds generalizing es with
  | nil =>
    obtain rfl := List.length_eq_zero_iff.mp hlen.symm
    simp
  | cons d ds ih =>
    cases es with
    | nil => cases hlen
    | cons e es =>
      rw [List.cons_append, List.cons_append, List.cons_lt_cons_iff, List.cons_lt_cons_iff,
        ih (Nat.succ.inj hlen), List.cons.injEq]
      simp only [and_or_left, and_assoc, or_assoc]

/-- Numbers that are padded to one width decide the order of what begins with them, unless they are
    the same. -/
theorem padded_append_lt_iff (hk : 0 < k) (hm : m < 10 ^ k) (hn : n < 10 ^ k) :
    (padded k m).toList ++ rs < (padded k n).toList ++ ss ↔ m < n ∨ m = n ∧ rs < ss := by
  have hlen : (padded k m).toList.length = (padded k n).toList.length :=
    (length_padded hk hm).trans (length_padded hk hn).symm
  have hinj : (padded k m).toList = (padded k n).toList ↔ m = n := by
    refine ⟨fun h => ?_, fun h => h ▸ rfl⟩
    rw [← numberOf_padded k m, h, numberOf_padded]
  rw [append_lt_append_iff hlen, hinj, lt_iff_numberOf_lt hlen (fun _ => isDigit_of_mem_padded)
    fun _ => isDigit_of_mem_padded, numberOf_padded, numberOf_padded]

end Digits

/-! ### Dates -/

section Dates

variable {d e : Date} {rs ss : List Char} {y z m n : Nat}

theorem daysBeforeYear_succ (hy : 1 ≤ y) :
    daysBeforeYear (y + 1) = daysBeforeYear y + daysInYear y := by
  obtain ⟨x, rfl⟩ : ∃ x, y = x + 1 := ⟨y - 1, by omega⟩
  have hcentury : 100 ∣ x + 1 → 4 ∣ x + 1 := Nat.dvd_trans (by decide)
  have hcycle : 400 ∣ x + 1 → 100 ∣ x + 1 := Nat.dvd_trans (by decide)
  have hfewer : x / 100 ≤ x / 4 := Nat.div_le_div_left (by decide) (by decide)
  have hleap : isLeap (x + 1) = true ↔ 4 ∣ x + 1 ∧ (¬ 100 ∣ x + 1 ∨ 400 ∣ x + 1) := by
    rw [isLeap_iff, Nat.dvd_iff_mod_eq_zero, Nat.dvd_iff_mod_eq_zero, Nat.dvd_iff_mod_eq_zero]
  simp only [daysBeforeYear, daysInYear, hleap, Nat.add_sub_cancel, Nat.succ_div]
  generalize x / 4 = a at *
  generalize x / 100 = b at *
  generalize x / 400 = c at *
  split_ifs <;> omega

/-- An earlier year is over before a later one starts. -/
theorem daysBeforeYear_le (hy : 1 ≤ y) (h : y < z) :
    daysBeforeYear y + daysInYear y ≤ daysBeforeYear z := by
  induction z, h using Nat.le_induction with
  | base => rw [daysBeforeYear_succ hy]
  | succ z hyz ih =>
    rw [daysBeforeYear_succ (by omega)]
    exact Nat.le_add_right_of_le ih

theorem daysBeforeMonth_le (y : Nat) (hm : 1 ≤ m) (h : m < n) :
    daysBeforeMonth y m + daysInMonth y m ≤ daysBeforeMonth y n := by
  induction n, h using Nat.le_induction with
  | base => rw [daysBeforeMonth_succ hm]
  | succ n hmn ih =>
    rw [daysBeforeMonth_succ (by omega)]
    exact Nat.le_add_right_of_le ih

namespace Date

/-- The order of dates by year, month and day. -/
def Before (d e : Date) : Prop :=
  d.year < e.year ∨ d.year = e.year ∧ (d.month < e.month ∨ d.month = e.month ∧ d.day < e.day)

theorem before_or_before (d e : Date) : d.Before e ∨ d = e ∨ e.Before d := by
  obtain ⟨y, m, n⟩ := d
  obtain ⟨z, l, k⟩ := e
  simp only [Before, mk.injEq]
  omega

/-- A day of the calendar lies in its year. -/
theorem dayOfYear_le (hd : d.isValid = true) :
    1 ≤ daysBeforeMonth d.year d.month + d.day ∧
      daysBeforeMonth d.year d.month + d.day ≤ daysInYear d.year := by
  obtain ⟨-, ⟨hmonth, htwelve⟩, hday, hlast⟩ := isValid_iff.mp hd
  have hmonths := daysBeforeMonth_le d.year hmonth (Nat.lt_succ_of_le htwelve)
  rw [daysBeforeMonth_end] at hmonths
  omega

theorem ordinal_lt_of_before (hd : d.isValid = true) (he : e.isValid = true) (h : d.Before e) :
    d.ordinal < e.ordinal := by
  obtain ⟨⟨hyear, -⟩, ⟨hmonth, -⟩, -, hday⟩ := isValid_iff.mp hd
  have hd := dayOfYear_le hd
  have he' := dayOfYear_le he
  rw [ordinal, ordinal]
  rcases h with hyears | ⟨hyears, hmonths | ⟨hmonths, hdays⟩⟩
  · have := daysBeforeYear_le hyear hyears
    omega
  · have := daysBeforeMonth_le d.year hmonth hmonths
    obtain ⟨-, -, hfirst, -⟩ := isValid_iff.mp he
    rw [← hyears]
    omega
  · rw [← hyears, ← hmonths]
    omega

/-- Dates of the calendar stand in the order of their day numbers. -/
theorem before_iff (hd : d.isValid = true) (he : e.isValid = true) :
    d.Before e ↔ d.ordinal < e.ordinal := by
  refine ⟨ordinal_lt_of_before hd he, fun h => ?_⟩
  rcases before_or_before d e with hbefore | rfl | hafter
  · exact hbefore
  · exact absurd h (Nat.lt_irrefl _)
  · exact absurd (ordinal_lt_of_before he hd hafter) (Nat.lt_asymm h)

theorem ordinal_inj (hd : d.isValid = true) (he : e.isValid = true) :
    d.ordinal = e.ordinal ↔ d = e := by
  refine ⟨fun h => ?_, congrArg ordinal⟩
  rcases before_or_before d e with hbefore | heq | hafter
  · exact absurd h (Nat.ne_of_lt (ordinal_lt_of_before hd he hbefore))
  · exact heq
  · exact absurd h.symm (Nat.ne_of_lt (ordinal_lt_of_before he hd hafter))

end Date

/-- Dates decide the order of what begins with their texts, unless they are the same. -/
theorem text_append_lt_iff (hd : d.isValid = true) (he : e.isValid = true) :
    d.text.toList ++ rs < e.text.toList ++ ss ↔ d.ordinal < e.ordinal ∨ d = e ∧ rs < ss := by
  obtain ⟨hdyear, hdmonth, hdday⟩ := fits_of_isValid hd
  obtain ⟨heyear, hemonth, heday⟩ := fits_of_isValid he
  rw [← Date.before_iff hd he, Date.Before, toList_text, toList_text]
  simp only [List.append_assoc, List.cons_append]
  rw [padded_append_lt_iff (by decide) hdyear heyear, List.cons_lt_cons_self,
    padded_append_lt_iff (by decide) hdmonth hemonth, List.cons_lt_cons_self,
    padded_append_lt_iff (by decide) hdday heday]
  obtain ⟨y, m, n⟩ := d
  obtain ⟨z, l, k⟩ := e
  rw [Date.mk.injEq]
  simp only [and_or_left, and_assoc, or_assoc]

end Dates

/-! ### Times of day -/

section Clocks

variable {c b : Clock} {rs ss : List Char}

/-- Whole seconds of a day decide the order of what begins with their texts, unless they are the
    same. -/
theorem clockText_append_lt_iff (hc : c.isValid = true) (hb : b.isValid = true) (hcm : c.micro = 0)
    (hbm : b.micro = 0) :
    c.text.toList ++ rs < b.text.toList ++ ss ↔ c.micros < b.micros ∨ c = b ∧ rs < ss := by
  obtain ⟨hchour, hcminute, hcsecond⟩ := Clock.isValid_iff.mp hc
  obtain ⟨hbhour, hbminute, hbsecond⟩ := Clock.isValid_iff.mp hb
  rw [toList_clockText hcm, toList_clockText hbm]
  simp only [List.append_assoc, List.cons_append]
  rw [padded_append_lt_iff (by decide) (by omega) (by omega), List.cons_lt_cons_self,
    padded_append_lt_iff (by decide) (by omega) (by omega), List.cons_lt_cons_self,
    padded_append_lt_iff (by decide) (by omega) (by omega)]
  have hmicros : c.micros < b.micros ↔ c.hour < b.hour ∨ c.hour = b.hour ∧
      (c.minute < b.minute ∨ c.minute = b.minute ∧ c.second < b.second) := by
    rw [Clock.micros, Clock.micros]
    omega
  have hclock : c = b ↔ c.hour = b.hour ∧ c.minute = b.minute ∧ c.second = b.second := by
    obtain ⟨h, m, s, u⟩ := c
    obtain ⟨i, n, t, v⟩ := b
    cases hcm
    cases hbm
    simp
  rw [hmicros, hclock]
  simp only [and_or_left, and_assoc, or_assoc]

end Clocks

/-! ### Moments -/

theorem Clock.micros_lt {c : Clock} (hc : c.isValid = true) (h : c.micro = 0) :
    (c.micros : Int) < dayLength := by
  obtain ⟨hhour, hminute, hsecond⟩ := isValid_iff.mp hc
  rw [micros, dayLength]
  omega

/-- Readings are ordered by their dates, and on one date by the time of day. -/
theorem wallOf_lt_iff {d e : Date} {c b : Clock} (hd : d.isValid = true) (he : e.isValid = true)
    (hc : (c.micros : Int) < dayLength) (hb : (b.micros : Int) < dayLength) :
    wallOf d c < wallOf e b ↔ d.ordinal < e.ordinal ∨ d = e ∧ c.micros < b.micros := by
  rw [← Date.ordinal_inj hd he, wallOf, wallOf]
  rw [dayLength] at hc hb ⊢
  omega

namespace Moment

/-- A moment in a year of four digits, in UTC. -/
def InFourDigits (t : Moment) : Prop :=
  1000 ≤ (dateOf t.instant).year ∧ (dateOf t.instant).year ≤ 9999

instance (t : Moment) : Decidable t.InFourDigits := inferInstanceAs (Decidable (_ ∧ _))

variable {s t : Moment}

theorem InFourDigits.nonneg (h : t.InFourDigits) : 0 ≤ t.instant :=
  nonneg_of_year (by have := h.1; omega)

theorem InFourDigits.isValid (h : t.InFourDigits) : (dateOf t.instant).isValid = true := by
  have hday : 0 ≤ t.instant / dayLength := Int.ediv_nonneg h.nonneg (by decide)
  obtain ⟨hlow, hhigh⟩ := h
  rw [dateOf] at hlow hhigh ⊢
  exact Date.isValid_ofOrdinal (by omega) (by omega) hhigh

/-- The texts of moments stand in the order of the whole seconds that the moments lie in. -/
theorem utcText_lt_iff (hs : s.InFourDigits) (ht : t.InFourDigits) :
    s.utcText < t.utcText ↔ s.instant / 1000000 < t.instant / 1000000 := by
  have hsclock : ({ clockOf s.instant with micro := 0 } : Clock).isValid = true :=
    isValid_clockOf s.instant
  have htclock : ({ clockOf t.instant with micro := 0 } : Clock).isValid = true :=
    isValid_clockOf t.instant
  have hwalls := wallOf_lt_iff hs.isValid ht.isValid (Clock.micros_lt hsclock rfl)
    (Clock.micros_lt htclock rfl)
  rw [wallOf_floored hs.nonneg, wallOf_floored ht.nonneg] at hwalls
  rw [String.lt_iff, toList_utcText hs.1, toList_utcText ht.1, List.append_assoc,
    List.append_assoc, text_append_lt_iff hs.isValid ht.isValid, List.cons_append, List.cons_append,
    List.cons_lt_cons_self, clockText_append_lt_iff hsclock htclock rfl rfl]
  simp only [List.lt_irrefl, and_false, or_false]
  rw [← hwalls]
  omega

end Moment

end Calendar

/-! ### Timestamps of manifests -/

namespace Manifest

open Calendar

variable {d e : Datum} {a b : Moment}

/-- The text that a timestamp is written as, if one is given. -/
def rewritten (d : Datum) : Reading (Option String) := (timestamp? d).map (Option.map Moment.utcText)

theorem rewritten_of_timestamp? (h : timestamp? d = .ok (some a)) :
    rewritten d = .ok (some a.utcText) := by
  rw [rewritten, h]
  rfl

/-- Timestamps in four-digit years are written as texts that are accepted again, keep the instant up to
    the whole second that it lies in, and stay as they are from then on. The order of the texts is that
    of the whole seconds, whatever the timestamps were given as. -/
theorem rewritten_keeps_seconds_and_order (ha : timestamp? d = .ok (some a))
    (hb : timestamp? e = .ok (some b)) (hayear : a.InFourDigits) (hbyear : b.InFourDigits) :
    ∃ s t, rewritten d = .ok (some s) ∧ rewritten e = .ok (some t) ∧
      (∃ again, timestamp? (.text s) = .ok (some again) ∧
        again.instant = a.instant / 1000000 * 1000000) ∧
      rewritten (.text s) = .ok (some s) ∧
      (s ≤ t ↔ a.instant / 1000000 ≤ b.instant / 1000000) := by
  have hread : timestamp? (.text a.utcText) = .ok (some a.floored) :=
    timestamp?_of_read? (Moment.read?_utcText hayear.1 hayear.2)
  have hagain : rewritten (.text a.utcText) = .ok (some a.utcText) := by
    rw [rewritten_of_timestamp? hread, Moment.utcText_floored]
  refine ⟨a.utcText, b.utcText, rewritten_of_timestamp? ha, rewritten_of_timestamp? hb,
    ⟨a.floored, hread, ?_⟩, hagain, ?_⟩
  · rw [Moment.instant_floored]
    omega
  · rw [← String.not_lt, Moment.utcText_lt_iff hbyear hayear, Int.not_lt]

end Manifest

namespace Sample

/-- The last evening of February, half an hour west of UTC. -/
def evening : String := "2024-02-29T23:59:59.75-00:30"

/-- The next morning, five and a half hours and fifteen seconds east of UTC. -/
def morning : String := "2024-03-01T06:00+05:30:15"

end Sample

open Sample Calendar in
/-- The text of the evening comes before that of the morning. Both name the first half hour of March,
    and there the evening is fourteen seconds later: so is its text, once both are written in UTC. -/
theorem evening_rewritten_after_morning :
    Manifest.timestamp? (.text evening) = .ok (some ⟨63844847999750000, -1800000000⟩) ∧
      Manifest.timestamp? (.text morning) = .ok (some ⟨63844869600000000, 19815000000⟩) ∧
      evening ≤ morning ∧
      ∃ s t, Manifest.rewritten (.text evening) = .ok (some s) ∧
        Manifest.rewritten (.text morning) = .ok (some t) ∧ s = "2024-03-01T00:29:59Z" ∧
        Manifest.rewritten (.text s) = .ok (some s) ∧ ¬ s ≤ t := by
  have hevening : Manifest.timestamp? (.text evening) =
      .ok (some ⟨63844847999750000, -1800000000⟩) :=
    Manifest.timestamp?_of_read? (by decide +kernel)
  have hmorning : Manifest.timestamp? (.text morning) =
      .ok (some ⟨63844869600000000, 19815000000⟩) :=
    Manifest.timestamp?_of_read? (by decide +kernel)
  obtain ⟨s, t, hs, ht, -, hagain, horder⟩ := Manifest.rewritten_keeps_seconds_and_order hevening
    hmorning (by decide +kernel) (by decide +kernel)
  refine ⟨hevening, hmorning, by decide, s, t, hs, ht, ?_, hagain, ?_⟩
  · rw [Manifest.rewritten_of_timestamp? hevening] at hs
    cases hs
    decide +kernel
  · rw [horder]
    decide

end FleetLabels
