import FleetLabels.Calendar.Reading
import FleetLabels.Text.Quoted
import Mathlib.Tactic.Ring

/-!
    Digits: a number that is written in digits is read back.

    A decimal number is its digits from the most significant on, with zeros in front when it is padded
    to a width; reading as many digits as were written gives the number and leaves what stands behind
    it. Digits without a superfluous zero at their front are those of the number they spell. A
    hexadecimal number of a fixed width tells the number modulo a power of sixteen. -/

namespace FleetLabels

/-! ### Decimal digits -/

namespace Calendar

theorem numberOf_eq_ofDigitChars (ds : List Char) : numberOf ds = Nat.ofDigitChars 10 ds 0 := by
  rw [numberOf, Nat.ofDigitChars_eq_foldl]
  congr 1
  funext n c
  rw [Nat.mul_comm n 10]
  rfl

theorem isDigit_of_mem_toDigits {n : Nat} {c : Char} (h : c ∈ Nat.toDigits 10 n) : isDigit c = true :=
  Nat.isDigit_of_mem_toDigits (by decide) (by decide) h

/-- The text of a number begins with a digit. -/
theorem toDigits_cons (n : Nat) : ∃ d ds, Nat.toDigits 10 n = d :: ds ∧ isDigit d = true := by
  obtain ⟨d, ds, hds⟩ := List.exists_cons_of_ne_nil (Nat.toDigits_ne_nil (n := n) (b := 10))
  exact ⟨d, ds, hds, isDigit_of_mem_toDigits (hds ▸ List.mem_cons_self)⟩

theorem length_padded {k n : Nat} (hk : 0 < k) (hn : n < 10 ^ k) : (padded k n).toList.length = k := by
  have hlen := (Nat.length_toDigits_le_iff (by decide) hk).mpr hn
  rw [padded, String.toList_ofList, List.length_append, List.length_replicate]
  omega

theorem isDigit_of_mem_padded {k n : Nat} {c : Char} (h : c ∈ (padded k n).toList) :
    isDigit c = true := by
  rw [padded, String.toList_ofList, List.mem_append] at h
  rcases h with h | h
  · rw [List.eq_of_mem_replicate h]
    decide
  · exact isDigit_of_mem_toDigits h

theorem numberOf_padded (k n : Nat) : numberOf (padded k n).toList = n := by
  rw [numberOf_eq_ofDigitChars, padded, String.toList_ofList, Nat.ofDigitChars_append,
    Nat.ofDigitChars_replicate_zero, Nat.mul_zero, Nat.ofDigitChars_ten_toDigits]

/-- A padded number is read back when as many digits are taken as it was padded to. -/
theorem takeNumber_padded {k n : Nat} (hk : 0 < k) (hn : n < 10 ^ k) (rest : List Char) :
    takeNumber k ((padded k n).toList ++ rest) = some (n, rest) := by
  have hlen := length_padded hk hn
  have htake : ((padded k n).toList ++ rest).take k = (padded k n).toList :=
    List.take_left' hlen
  have hdrop : ((padded k n).toList ++ rest).drop k = rest := List.drop_left' hlen
  have hall : (padded k n).toList.all isDigit = true :=
    List.all_eq_true.mpr fun c hc => isDigit_of_mem_padded hc
  simp only [takeNumber, htake, hdrop, hlen, hall, beq_self_eq_true, Bool.and_self, if_true,
    numberOf_padded]

/-- A number that fills the width is not padded. -/
theorem toString_eq_padded {k n : Nat} (hn : 10 ^ k ≤ n) : toString n = padded (k + 1) n := by
  have hlen : k < (Nat.toDigits 10 n).length := by
    rcases Nat.eq_zero_or_pos k with rfl | hk
    · exact Nat.length_toDigits_pos
    · by_contra hle
      have := (Nat.length_toDigits_le_iff (by decide) hk).mp (Nat.le_of_not_lt hle)
      omega
  have hnone : k + 1 - (Nat.toDigits 10 n).length = 0 := by omega
  rw [padded, hnone, List.replicate_zero, List.nil_append, Nat.toString_eq_ofList_toDigits]

theorem numberOf_toDigits (n : Nat) : numberOf (Nat.toDigits 10 n) = n := by
  rw [numberOf_eq_ofDigitChars, Nat.ofDigitChars_ten_toDigits]

theorem toNat_of_isDigit {c : Char} (h : isDigit c = true) : 48 ≤ c.toNat ∧ c.toNat ≤ 57 := by
  simp only [isDigit, Bool.and_eq_true, decide_eq_true_eq] at h
  exact h

theorem digitValue_lt {c : Char} (h : isDigit c = true) : digitValue c < 10 := by
  have := toNat_of_isDigit h
  unfold digitValue
  omega

theorem digitChar_digitValue {c : Char} (h : isDigit c = true) : Nat.digitChar (digitValue c) = c := by
  obtain ⟨hlow, hhigh⟩ := toNat_of_isDigit h
  apply Char.toNat_inj.mp
  rw [digitValue, Nat.toNat_digitChar_of_lt_ten (by omega)]
  omega

/-- Reading digits on behind a number that is not zero writes them behind its own. -/
theorem toDigits_foldl {n : Nat} (hn : 0 < n) {ds : List Char} (hds : ∀ c ∈ ds, isDigit c = true) :
    Nat.toDigits 10 (ds.foldl (fun n c => n * 10 + digitValue c) n) = Nat.toDigits 10 n ++ ds := by
  induction ds generalizing n with
  | nil => rw [List.foldl_nil, List.append_nil]
  | cons c ds ih =>
    have hc := hds c List.mem_cons_self
    have hsmall := digitValue_lt hc
    have hstep : Nat.toDigits 10 (n * 10 + digitValue c) = Nat.toDigits 10 n ++ [c] := by
      rw [Nat.mul_comm, ← Nat.toDigits_append_toDigits (by decide) hn hsmall,
        Nat.toDigits_of_lt_base hsmall, digitChar_digitValue hc]
    rw [List.foldl_cons, ih (by omega) fun d hd => hds d (List.mem_cons_of_mem _ hd), hstep,
      List.append_assoc, List.singleton_append]

/-- Digits without a superfluous zero at their front are those of the number that they spell. -/
theorem toDigits_numberOf {ds : List Char} (hne : ds ≠ []) (hds : ∀ c ∈ ds, isDigit c = true)
    (hzero : ds.head? = some '0' → ds = ['0']) : Nat.toDigits 10 (numberOf ds) = ds := by
  obtain ⟨c, ds, rfl⟩ := List.exists_cons_of_ne_nil hne
  by_cases hc : c = '0'
  · rw [hzero (by rw [hc, List.head?_cons])]
    rfl
  · have hdigit := hds c List.mem_cons_self
    have hpos : 0 < digitValue c := by
      have hlow := (toNat_of_isDigit hdigit).1
      have hne : c.toNat ≠ 48 := fun h => hc (Char.toNat_inj.mp h)
      unfold digitValue
      omega
    have hsmall := digitValue_lt hdigit
    rw [numberOf, List.foldl_cons, Nat.zero_mul, Nat.zero_add,
      toDigits_foldl hpos fun d hd => hds d (List.mem_cons_of_mem _ hd),
      Nat.toDigits_of_lt_base hsmall, digitChar_digitValue hdigit, List.singleton_append]

/-- The digits of a number that is not zero do not begin with a zero. -/
theorem head?_toDigits_ne {n : Nat} (hn : 0 < n) : (Nat.toDigits 10 n).head? ≠ some '0' := by
  induction n using Nat.strongRecOn with
  | ind n ih =>
    by_cases hsmall : n < 10
    · rw [Nat.toDigits_of_lt_base hsmall, List.head?_cons]
      intro h
      have hnat := congrArg Char.toNat (Option.some.inj h)
      rw [Nat.toNat_digitChar_of_lt_ten hsmall] at hnat
      change 48 + n = 48 at hnat
      omega
    · have hsplit : Nat.toDigits 10 n = Nat.toDigits 10 (n / 10) ++ Nat.toDigits 10 (n % 10) := by
        rw [Nat.toDigits_append_toDigits (by decide) (by omega) (Nat.mod_lt n (by decide)),
          Nat.div_add_mod]
      obtain ⟨c, cs, hcs, -⟩ := toDigits_cons (n / 10)
      have hfront := ih (n / 10) (by omega) (by omega)
      rw [hcs] at hfront
      rw [hsplit, hcs]
      exact hfront

end Calendar

/-! ### Hexadecimal digits -/

namespace Text

/-- The number below sixteen that a hexadecimal digit stands for. -/
def hexValue (d : Char) : Nat := if d.toNat < 58 then d.toNat - 48 else d.toNat - 87

/-- The number that hexadecimal digits spell. -/
def hexNumber (ds : List Char) : Nat := ds.foldl (fun n d => n * 16 + hexValue d) 0

theorem hexValue_hexDigit : ∀ d, d < 16 → hexValue (hexDigit d) = d := by decide

theorem length_hexDigits (k n : Nat) : (hexDigits k n).length = k := by
  induction k generalizing n with
  | zero => rfl
  | succ k ih => rw [hexDigits, List.length_append, ih, List.length_singleton]

theorem hexNumber_hexDigits (k n : Nat) : hexNumber (hexDigits k n) = n % 16 ^ k := by
  induction k generalizing n with
  | zero => rw [hexDigits, Nat.pow_zero, Nat.mod_one]; rfl
  | succ k ih =>
    have hlast := hexValue_hexDigit (n % 16) (Nat.mod_lt n (by decide))
    have hfront : (hexDigits k (n / 16)).foldl (fun n d => n * 16 + hexValue d) 0 =
        n / 16 % 16 ^ k := ih (n / 16)
    rw [hexNumber, hexDigits, List.foldl_append, hfront, List.foldl_cons, List.foldl_nil, hlast,
      Nat.pow_succ', Nat.mod_mul]
    ring

theorem hexDigit_visible : ∀ d, d < 16 → 32 ≤ (hexDigit d).toNat ∧ (hexDigit d).toNat < 127 := by
  decide

theorem visible_of_mem_hexDigits {k n : Nat} {c : Char} (h : c ∈ hexDigits k n) :
    32 ≤ c.toNat ∧ c.toNat < 127 := by
  induction k generalizing n with
  | zero => exact absurd h List.not_mem_nil
  | succ k ih =>
    rw [hexDigits, List.mem_append, List.mem_singleton] at h
    rcases h with h | rfl
    · exact ih h
    · exact hexDigit_visible _ (Nat.mod_lt n (by decide))

end Text

end FleetLabels
