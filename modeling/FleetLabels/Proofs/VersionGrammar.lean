import FleetLabels.Proofs.Digits
import FleetLabels.Proofs.Timestamp
import FleetLabels.Version
import Mathlib.Data.List.DropRight

/-!
    The grammar of versions.

    A version is spelled as one to three numbers with dots between them, then a pre-release behind a
    hyphen, if there is one, then a build behind a plus sign, if there is one. `Spelled` says so, apart
    from any reader. The reader passes over what is free of digits, and accepts the rest exactly when
    it is a spelling.

    Each part is read to its end before the next begins, for none can be continued by what may stand
    behind it: the digits of a number end at a dot or at a sign, the identifiers of a pre-release hold
    no plus sign. So the text has only one reading. -/

namespace FleetLabels

namespace Version

open Calendar

/-! ### The grammar -/

/-- A number as it is written, without a superfluous zero. -/
def decimal (n : Nat) : List Char := Nat.toDigits 10 n

/-- The numbers of a version as they are written; those that are missing are zero. -/
inductive Core : List Char → Version → Prop
  | one (M : Nat) : Core (decimal M) ⟨M, 0, 0⟩
  | two (M m : Nat) : Core (decimal M ++ '.' :: decimal m) ⟨M, m, 0⟩
  | three (M m p : Nat) : Core (decimal M ++ '.' :: (decimal m ++ '.' :: decimal p)) ⟨M, m, p⟩

/-- Identifiers are made of letters, digits and hyphens. -/
def IdentifierChar (c : Char) : Prop := c.isAlphanum = true ∨ c = '-'

instance : DecidablePred IdentifierChar := fun c =>
  inferInstanceAs (Decidable (c.isAlphanum = true ∨ c = '-'))

/-- An identifier of a build. -/
def BuildIdentifier (id : List Char) : Prop := id ≠ [] ∧ ∀ c ∈ id, IdentifierChar c

/-- An identifier of a pre-release is one of a build, and a number as it is written if it is all
    digits. -/
def PreIdentifier (id : List Char) : Prop :=
  BuildIdentifier id ∧ ((∀ c ∈ id, isDigit c = true) → ∃ n, id = decimal n)

/-- Identifiers with dots between them; there is at least one. -/
def Dotted (P : List Char → Prop) (cs : List Char) : Prop :=
  ∃ ids, ids ≠ [] ∧ (∀ id ∈ ids, P id) ∧ cs = ['.'].intercalate ids

/-- What may follow the numbers. -/
inductive Suffix : List Char → Prop
  | nothing : Suffix []
  | pre {p : List Char} (hp : Dotted PreIdentifier p) : Suffix ('-' :: p)
  | build {b : List Char} (hb : Dotted BuildIdentifier b) : Suffix ('+' :: b)
  | both {p b : List Char} (hp : Dotted PreIdentifier p) (hb : Dotted BuildIdentifier b) :
      Suffix ('-' :: (p ++ '+' :: b))

/-- A text that spells a version, from its first digit to its end. -/
def Spelled (cs : List Char) (v : Version) : Prop :=
  ∃ core suffix, Core core v ∧ Suffix suffix ∧ cs = core ++ suffix

/-- A text without the blanks around it and without its longest front that is free of digits. -/
def stripped (s : String) : List Char := (Text.trim s.toList).dropWhile fun c => !isDigit c

/-! ### Numbers -/

theorem takeWhile_decimal (n : Nat) (rest : List Char) :
    (decimal n ++ rest).takeWhile isDigit = decimal n ++ rest.takeWhile isDigit :=
  List.takeWhile_append_of_pos fun _ hc => isDigit_of_mem_toDigits hc

theorem dropWhile_decimal (n : Nat) (rest : List Char) :
    (decimal n ++ rest).dropWhile isDigit = rest.dropWhile isDigit :=
  List.dropWhile_append_of_pos fun _ hc => isDigit_of_mem_toDigits hc

/-- Digits are a number as it is written if they do not begin with a superfluous zero. -/
theorem exists_decimal_iff {ds : List Char} :
    (∃ n, ds = decimal n) ↔
      ds ≠ [] ∧ (∀ c ∈ ds, isDigit c = true) ∧ (ds.head? = some '0' → ds = ['0']) := by
  constructor
  · rintro ⟨n, rfl⟩
    refine ⟨Nat.toDigits_ne_nil, fun c hc => isDigit_of_mem_toDigits hc, fun hhead => ?_⟩
    rcases Nat.eq_zero_or_pos n with rfl | hn
    · rfl
    · exact absurd hhead (head?_toDigits_ne hn)
  · rintro ⟨hne, hdigits, hzero⟩
    exact ⟨numberOf ds, (toDigits_numberOf hne hdigits hzero).symm⟩

/-- A number is read when it stands at the front and no digit follows it. -/
theorem numeral_eq_some_iff {cs rest : List Char} {n : Nat} :
    numeral cs = some (n, rest) ↔ cs = decimal n ++ rest ∧ rest.takeWhile isDigit = [] := by
  constructor
  · intro h
    unfold numeral at h
    split at h
    · cases h
    · cases h
    · rename_i hne hzero
      obtain ⟨rfl, rfl⟩ := Prod.mk.inj (Option.some.inj h)
      have hdigits : ∀ c ∈ cs.takeWhile isDigit, isDigit c = true := fun c hc =>
        List.mem_takeWhile_imp hc
      have hone : (cs.takeWhile isDigit).head? = some '0' → cs.takeWhile isDigit = ['0'] := by
        intro hhead
        obtain ⟨ds, hds⟩ := List.head?_eq_some_iff.mp hhead
        cases ds with
        | nil => exact hds
        | cons d ds => exact absurd hds (hzero d ds)
      rw [decimal, toDigits_numberOf hne hdigits hone, List.takeWhile_append_dropWhile]
      refine ⟨rfl, List.takeWhile_eq_nil_iff.mpr fun hrest => ?_⟩
      simpa using List.dropWhile_get_zero_not isDigit cs hrest
  · rintro ⟨rfl, hrest⟩
    obtain ⟨hne, -, hzero⟩ := exists_decimal_iff.mp ⟨n, rfl⟩
    have hfront : (decimal n ++ rest).takeWhile isDigit = decimal n := by
      rw [takeWhile_decimal, hrest, List.append_nil]
    have hback : (decimal n ++ rest).dropWhile isDigit = rest := by
      have := List.takeWhile_append_dropWhile (p := isDigit) (l := rest)
      rwa [hrest, List.nil_append, ← dropWhile_decimal n] at this
    unfold numeral
    split
    · rename_i hnil
      exact absurd (hfront.symm.trans hnil) hne
    · rename_i d ds hcons
      rw [hfront] at hcons
      rw [hcons] at hzero
      exact absurd (hzero rfl) (by simp)
    · rw [hfront, hback, decimal, numberOf_toDigits]

/-! ### Numbers with dots between them -/

/-- Numbers as they are written, with dots between them. -/
def written (ns : List Nat) : List Char := ['.'].intercalate (ns.map decimal)

theorem written_singleton (n : Nat) : written [n] = decimal n := by
  rw [written, List.map_singleton, List.intercalate_singleton]

theorem written_cons (n m : Nat) (ns : List Nat) :
    written (n :: m :: ns) = decimal n ++ '.' :: written (m :: ns) := by
  rw [written, List.map_cons, List.map_cons, List.intercalate_cons_cons, List.append_assoc,
    List.singleton_append, written, List.map_cons]

/-- Behind a number the reading goes on exactly when a dot follows it. -/
theorem numerals_succ_eq_some_iff {more : Nat} {cs rest : List Char} {ns : List Nat} :
    numerals (more + 1) cs = some (ns, rest) ↔
      (∃ n, ns = [n] ∧ numeral cs = some (n, rest) ∧ rest.head? ≠ some '.') ∨
      ∃ n ms tail, ns = n :: ms ∧ numeral cs = some (n, '.' :: tail) ∧
        numerals more tail = some (ms, rest) := by
  cases hread : numeral cs with
  | none => simp [numerals, hread]
  | some p =>
    obtain ⟨n, tail⟩ := p
    by_cases hdot : tail.head? = some '.'
    · obtain ⟨tail, rfl⟩ := List.head?_eq_some_iff.mp hdot
      simp only [numerals, hread, Option.map_eq_some_iff, Option.some.injEq, Prod.mk.injEq,
        List.cons.injEq, true_and]
      constructor
      · rintro ⟨⟨ms, rest⟩, hmore, rfl, rfl⟩
        exact .inr ⟨n, ms, tail, rfl, ⟨rfl, rfl⟩, hmore⟩
      · rintro (⟨n, -, ⟨-, rfl⟩, hne⟩ | ⟨n, ms, tail, rfl, ⟨rfl, rfl⟩, hmore⟩)
        · exact absurd List.head?_cons hne
        · exact ⟨(ms, rest), hmore, rfl, rfl⟩
    · have hstop : numerals (more + 1) cs = some ([n], tail) := by
        unfold numerals
        rw [hread]
        split
        · rename_i h
          cases h
        · rename_i h
          cases h
          exact absurd List.head?_cons hdot
        · rename_i h
          cases h
          rfl
      simp only [hstop, Option.some.injEq, Prod.mk.injEq]
      constructor
      · rintro ⟨rfl, rfl⟩
        exact .inl ⟨n, rfl, ⟨rfl, rfl⟩, hdot⟩
      · rintro (⟨n, rfl, ⟨rfl, rfl⟩, -⟩ | ⟨n, ms, rest, -, ⟨-, rfl⟩, -⟩)
        · exact ⟨rfl, rfl⟩
        · exact absurd List.head?_cons hdot

/-- As many numbers are read as stand there, and no more than are wanted: behind fewer there is
    neither a digit nor a dot. -/
theorem numerals_eq_some_iff {more : Nat} {cs rest : List Char} {ns : List Nat} :
    numerals more cs = some (ns, rest) ↔
      ns ≠ [] ∧ ns.length ≤ more + 1 ∧ cs = written ns ++ rest ∧ rest.takeWhile isDigit = [] ∧
        (ns.length ≤ more → rest.head? ≠ some '.') := by
  induction more generalizing cs ns with
  | zero =>
    simp only [numerals, Option.map_eq_some_iff, Prod.mk.injEq]
    constructor
    · rintro ⟨⟨n, tail⟩, hread, rfl, rfl⟩
      obtain ⟨hcs, hrest⟩ := numeral_eq_some_iff.mp hread
      refine ⟨List.cons_ne_nil _ _, Nat.le_refl _, ?_, hrest, fun h => absurd h (by simp)⟩
      rw [written_singleton, hcs]
    · rintro ⟨hne, hlen, hcs, hrest, -⟩
      obtain ⟨n, ms, rfl⟩ := List.exists_cons_of_ne_nil hne
      obtain rfl : ms = [] := List.eq_nil_of_length_eq_zero (by simpa using hlen)
      rw [written_singleton] at hcs
      exact ⟨(n, rest), numeral_eq_some_iff.mpr ⟨hcs, hrest⟩, rfl, rfl⟩
  | succ more ih =>
    -- of the numbers wanted, the first is read here, and the others are those behind the dot
    rw [numerals_succ_eq_some_iff]
    constructor
    · rintro (⟨n, rfl, hread, hstop⟩ | ⟨n, ms, tail, rfl, hread, hmore⟩)
      · obtain ⟨hcs, hrest⟩ := numeral_eq_some_iff.mp hread
        refine ⟨List.cons_ne_nil _ _, by simp, ?_, hrest, fun _ => hstop⟩
        rw [written_singleton, hcs]
      · obtain ⟨hcs, -⟩ := numeral_eq_some_iff.mp hread
        obtain ⟨hne, hlen, htail, hrest, hstop⟩ := ih.mp hmore
        obtain ⟨m, ms, rfl⟩ := List.exists_cons_of_ne_nil hne
        refine ⟨List.cons_ne_nil _ _, Nat.succ_le_succ hlen, ?_, hrest,
          fun h => hstop (Nat.le_of_succ_le_succ h)⟩
        rw [written_cons, hcs, htail, List.append_assoc, List.cons_append]
    · rintro ⟨hne, hlen, hcs, hrest, hstop⟩
      obtain ⟨n, ms, rfl⟩ := List.exists_cons_of_ne_nil hne
      cases ms with
      | nil =>
        rw [written_singleton] at hcs
        exact .inl ⟨n, rfl, numeral_eq_some_iff.mpr ⟨hcs, hrest⟩, hstop (by simp)⟩
      | cons m ms =>
        rw [written_cons, List.append_assoc, List.cons_append] at hcs
        refine .inr ⟨n, m :: ms, written (m :: ms) ++ rest, rfl,
          numeral_eq_some_iff.mpr ⟨hcs, rfl⟩, ih.mpr ⟨List.cons_ne_nil _ _,
            Nat.le_of_succ_le_succ hlen, rfl, hrest, fun h => hstop (Nat.succ_le_succ h)⟩⟩

theorem core_iff {cs : List Char} {v : Version} :
    Core cs v ↔ ∃ ns, ns ≠ [] ∧ ns.length ≤ 3 ∧ cs = written ns ∧
      v = ⟨ns.getD 0 0, ns.getD 1 0, ns.getD 2 0⟩ := by
  constructor
  · intro h
    cases h with
    | one M => exact ⟨[M], by simp, by simp, (written_singleton M).symm, rfl⟩
    | two M m => exact ⟨[M, m], by simp, by simp, by rw [written_cons, written_singleton], rfl⟩
    | three M m p =>
      exact ⟨[M, m, p], by simp, by simp, by rw [written_cons, written_cons, written_singleton], rfl⟩
  · rintro ⟨ns, hne, hlen, rfl, rfl⟩
    match ns with
    | [M] => simpa [written_singleton] using Core.one M
    | [M, m] => simpa [written_cons, written_singleton] using Core.two M m
    | [M, m, p] => simpa [written_cons, written_singleton] using Core.three M m p
    | _ :: _ :: _ :: _ :: _ =>
      simp only [List.length_cons] at hlen
      omega

/-! ### What follows the numbers -/

theorem isIdentifierChar_iff {c : Char} : isIdentifierChar c = true ↔ IdentifierChar c := by
  have halphanum : c.isAlphanum = ((c.isUpper || c.isLower) || isDigit c) := rfl
  have hlower : c.isLower = ('a' ≤ c && c ≤ 'z') := rfl
  have hupper : c.isUpper = ('A' ≤ c && c ≤ 'Z') := by
    refine Bool.eq_iff_iff.mpr (decide_eq_true_iff.trans ?_)
    exact (Bool.and_eq_true_iff.trans (and_congr decide_eq_true_iff decide_eq_true_iff)).symm
  simp only [isIdentifierChar, IdentifierChar, halphanum, hlower, hupper, Bool.or_eq_true, beq_iff_eq]
  tauto

theorem toNat_of_isIdentifierChar {c : Char} (h : isIdentifierChar c = true) :
    45 ≤ c.toNat ∧ c.toNat ≤ 122 := by
  simp only [isIdentifierChar, Bool.or_eq_true, Bool.and_eq_true, decide_eq_true_eq, beq_iff_eq] at h
  rcases h with ((hdigit | ⟨hlow, hhigh⟩) | ⟨hlow, hhigh⟩) | rfl
  · have := toNat_of_isDigit hdigit
    omega
  · exact ⟨Nat.le_trans (by decide) (show 97 ≤ c.toNat from hlow), hhigh⟩
  · exact ⟨Nat.le_trans (by decide) (show 65 ≤ c.toNat from hlow),
      Nat.le_trans (show c.toNat ≤ 90 from hhigh) (by decide)⟩
  · decide

theorem isBuildIdentifier_iff {id : List Char} : isBuildIdentifier id = true ↔ BuildIdentifier id := by
  simp only [isBuildIdentifier, BuildIdentifier, Bool.and_eq_true, Bool.not_eq_true',
    List.isEmpty_eq_false_iff, List.all_eq_true, isIdentifierChar_iff]

theorem isPreIdentifier_iff {id : List Char} : isPreIdentifier id = true ↔ PreIdentifier id := by
  rw [isPreIdentifier, Bool.and_eq_true, isBuildIdentifier_iff, PreIdentifier]
  refine and_congr_right fun hbuild => ?_
  have hlong : 1 < id.length ∧ id.head? = some '0' ↔ ¬ (id.head? = some '0' → id = ['0']) := by
    obtain ⟨c, cs, rfl⟩ := List.exists_cons_of_ne_nil hbuild.1
    rw [Classical.not_imp, and_comm]
    refine and_congr_right fun hhead => ?_
    obtain rfl := Option.some.inj hhead
    cases cs <;> simp
  have hrefused : (id.all isDigit && decide (id.length > 1) && id.head? == some '0') = true ↔
      (∀ c ∈ id, isDigit c = true) ∧ ¬ (id.head? = some '0' → id = ['0']) := by
    rw [Bool.and_eq_true, Bool.and_eq_true, and_assoc, List.all_eq_true, decide_eq_true_eq,
      beq_iff_eq, gt_iff_lt, hlong]
  have hne := hbuild.1
  rw [Bool.not_eq_true', ← Bool.not_eq_true, hrefused, exists_decimal_iff]
  tauto

/-- The pieces between the dots are the identifiers. -/
theorem areIdentifiers_iff {ok : List Char → Bool} {P : List Char → Prop}
    (hok : ∀ id, ok id = true ↔ P id) (hbuild : ∀ id, P id → BuildIdentifier id) {cs : List Char} :
    areIdentifiers ok cs = true ↔ Dotted P cs := by
  rw [areIdentifiers, List.all_eq_true]
  constructor
  · intro h
    exact ⟨Text.split '.' cs, Text.split_ne_nil '.' cs, fun id hid => (hok id).mp (h id hid),
      (Text.intercalate_split '.' cs).symm⟩
  · rintro ⟨ids, hne, hids, rfl⟩ id hid
    have hdot (id : List Char) (hid : id ∈ ids) : '.' ∉ id := fun hmem =>
      absurd ((hbuild id (hids id hid)).2 '.' hmem) (by decide)
    rw [Text.split_intercalate hne hdot] at hid
    exact (hok id).mpr (hids id hid)

theorem Dotted.mono {P Q : List Char → Prop} (h : ∀ id, P id → Q id) {cs : List Char} :
    Dotted P cs → Dotted Q cs := by
  rintro ⟨ids, hne, hids, rfl⟩
  exact ⟨ids, hne, fun id hid => h id (hids id hid), rfl⟩

/-- What holds of a dot and of the characters of identifiers holds throughout. -/
theorem Dotted.forall_mem {Q : Char → Prop} (hdot : Q '.')
    (hchar : ∀ c, IdentifierChar c → Q c) {cs : List Char} (h : Dotted BuildIdentifier cs) :
    ∀ c ∈ cs, Q c := by
  obtain ⟨ids, -, hids, rfl⟩ := h
  exact Text.forall_mem_intercalate hdot fun id hid c hc => hchar c ((hids id hid).2 c hc)

theorem isSuffix_iff {cs : List Char} : isSuffix cs = true ↔ Suffix cs := by
  have hpre {p : List Char} : areIdentifiers isPreIdentifier p = true ↔ Dotted PreIdentifier p :=
    areIdentifiers_iff (fun _ => isPreIdentifier_iff) fun _ h => h.1
  have hbuild {b : List Char} : areIdentifiers isBuildIdentifier b = true ↔ Dotted BuildIdentifier b :=
    areIdentifiers_iff (fun _ => isBuildIdentifier_iff) fun _ h => h
  -- the pre-release ends at the first plus sign, for there is none in it
  have hplus {p : List Char} (hp : Dotted PreIdentifier p) : '+' ∉ p := by
    have hchar (c : Char) (hc : IdentifierChar c) : c ≠ '+' := by
      rintro rfl
      exact absurd hc (by decide)
    exact fun hmem => (hp.mono fun _ h => h.1).forall_mem (by decide) hchar '+' hmem rfl
  constructor
  · intro h
    unfold isSuffix at h
    split at h
    · exact .nothing
    · exact .build (hbuild.mp h)
    · split at h
      · exact .pre (hpre.mp h)
      · rename_i p b hsplit
        obtain ⟨-, rfl⟩ := Text.splitFirst?_eq_some_iff.mp hsplit
        rw [Bool.and_eq_true] at h
        exact .both (hpre.mp h.1) (hbuild.mp h.2)
    · cases h
  · rintro (_ | hp | hb | ⟨hp, hb⟩)
    · rfl
    · rw [isSuffix, Text.splitFirst?_eq_none_iff.mpr (hplus hp)]
      exact hpre.mpr hp
    · exact hbuild.mpr hb
    · rw [isSuffix, Text.splitFirst?_eq_some_iff.mpr ⟨hplus hp, rfl⟩]
      exact Bool.and_eq_true_iff.mpr ⟨hpre.mpr hp, hbuild.mpr hb⟩

/-- What follows the numbers could not go on with them. -/
theorem Suffix.stops {cs : List Char} (h : Suffix cs) :
    cs.takeWhile isDigit = [] ∧ cs.head? ≠ some '.' := by
  cases h <;> exact ⟨rfl, by simp⟩

/-! ### What is passed over -/

theorem isBlank_of_identifierChar {c : Char} (h : IdentifierChar c) : Text.isBlank c = false := by
  have hrange := toNat_of_isIdentifierChar (isIdentifierChar_iff.mpr h)
  exact Text.isBlank_eq_false (by omega) (by omega)

/-- A spelling begins with a digit. -/
theorem Spelled.cons {cs : List Char} {v : Version} (h : Spelled cs v) :
    ∃ d ds, cs = d :: ds ∧ isDigit d = true := by
  obtain ⟨core, suffix, hcore, -, rfl⟩ := h
  obtain ⟨M, rest, rfl⟩ : ∃ M rest, core = decimal M ++ rest := by
    cases hcore with
    | one M => exact ⟨M, [], (List.append_nil _).symm⟩
    | two M m => exact ⟨M, _, rfl⟩
    | three M m p => exact ⟨M, _, rfl⟩
  obtain ⟨d, ds, hds, hd⟩ := toDigits_cons M
  exact ⟨d, ds ++ rest ++ suffix, by rw [decimal, hds, List.cons_append, List.cons_append], hd⟩

/-- No blank stands in a spelling. -/
theorem Spelled.not_isBlank {cs : List Char} {v : Version} (h : Spelled cs v) :
    ∀ c ∈ cs, Text.isBlank c = false := by
  obtain ⟨core, suffix, hcore, hsuffix, rfl⟩ := h
  have hdecimal (n : Nat) : ∀ c ∈ decimal n, Text.isBlank c = false :=
    fun c hc => isBlank_of_isDigit (isDigit_of_mem_toDigits hc)
  have hdotted {cs : List Char} (h : Dotted BuildIdentifier cs) : ∀ c ∈ cs, Text.isBlank c = false :=
    h.forall_mem (Q := fun c => Text.isBlank c = false) rfl fun _ => isBlank_of_identifierChar
  refine List.forall_mem_append.mpr ⟨?_, ?_⟩
  · obtain ⟨ns, -, -, rfl, -⟩ := core_iff.mp hcore
    refine Text.forall_mem_intercalate (P := fun c => Text.isBlank c = false) rfl fun ds hds => ?_
    obtain ⟨n, -, rfl⟩ := List.mem_map.mp hds
    exact hdecimal n
  · cases hsuffix with
    | nothing => exact fun c hc => absurd hc List.not_mem_nil
    | pre hp => exact List.forall_mem_cons.mpr ⟨rfl, hdotted (hp.mono fun _ h => h.1)⟩
    | build hb => exact List.forall_mem_cons.mpr ⟨rfl, hdotted hb⟩
    | both hp hb =>
      exact List.forall_mem_cons.mpr ⟨rfl, List.forall_mem_append.mpr
        ⟨hdotted (hp.mono fun _ h => h.1), List.forall_mem_cons.mpr ⟨rfl, hdotted hb⟩⟩⟩

theorem not_isDigit_of_isBlank {c : Char} (h : Text.isBlank c = true) : (!isDigit c) = true := by
  rw [Bool.not_eq_true', ← Bool.not_eq_true]
  intro hdigit
  exact Bool.false_ne_true ((isBlank_of_isDigit hdigit).symm.trans h)

/-- Passing over the front and dropping the blanks at the end do not hinder each other. -/
theorem dropWhile_rdropWhile (cs : List Char) :
    (cs.rdropWhile Text.isBlank).dropWhile (fun c => !isDigit c) =
      (cs.dropWhile fun c => !isDigit c).rdropWhile Text.isBlank := by
  induction cs using List.reverseRecOn with
  | nil => rfl
  | append_singleton cs c ih =>
    by_cases hblank : Text.isBlank c = true
    · rw [List.rdropWhile_concat_pos _ _ _ hblank, ih, List.dropWhile_append]
      split_ifs with hnone
      · have hpassed : [c].dropWhile (fun c => !isDigit c) = [] :=
          List.dropWhile_cons_of_pos (not_isDigit_of_isBlank hblank)
        rw [List.isEmpty_iff.mp hnone, hpassed]
      · rw [List.rdropWhile_concat_pos _ _ _ hblank]
    · rw [List.rdropWhile_concat_neg _ _ _ hblank, List.dropWhile_append]
      split_ifs with hnone
      · cases hdigit : isDigit c <;> simp [hdigit, List.rdropWhile_singleton, hblank]
      · rw [List.rdropWhile_concat_neg _ _ _ hblank]

/-- The blanks in front are passed over in any case. -/
theorem stripped_eq (s : String) :
    stripped s = (s.toList.dropWhile fun c => !isDigit c).rdropWhile Text.isBlank := by
  have hfront (cs : List Char) : (cs.dropWhile Text.isBlank).dropWhile (fun c => !isDigit c) =
      cs.dropWhile fun c => !isDigit c := by
    conv_rhs => rw [← List.takeWhile_append_dropWhile (p := Text.isBlank) (l := cs)]
    rw [List.dropWhile_append_of_pos fun c hc => not_isDigit_of_isBlank (List.mem_takeWhile_imp hc)]
  rw [← hfront, ← dropWhile_rdropWhile]
  rfl

/-- What is free of digits may stand in front. -/
theorem stripped_append {pre : String} (hpre : ∀ c ∈ pre.toList, isDigit c = false) (s : String) :
    stripped (pre ++ s) = stripped s := by
  rw [stripped_eq, stripped_eq, String.toList_append,
    List.dropWhile_append_of_pos fun c hc => by rw [hpre c hc]; rfl]

/-- What was taken off a text is free of digits in front and blank behind. -/
theorem exists_toList_eq (s : String) :
    ∃ pre post, s.toList = pre ++ stripped s ++ post ∧ (∀ c ∈ pre, isDigit c = false) ∧
      ∀ c ∈ post, Text.isBlank c = true := by
  refine ⟨s.toList.takeWhile fun c => !isDigit c,
    (s.toList.dropWhile fun c => !isDigit c).rtakeWhile Text.isBlank, ?_, fun c hc => ?_,
    fun c hc => List.mem_rtakeWhile_imp hc⟩
  · rw [stripped_eq, List.append_assoc, List.rdropWhile_append_rtakeWhile,
      List.takeWhile_append_dropWhile]
  · simpa using List.mem_takeWhile_imp hc

/-- A spelling is what is left of a text that holds it, with nothing but what is free of digits in
    front and blanks behind. -/
theorem Spelled.stripped_eq {cs : List Char} {v : Version} (h : Spelled cs v) {s : String}
    {pre post : List Char} (hs : s.toList = pre ++ cs ++ post)
    (hpre : ∀ c ∈ pre, isDigit c = false) (hpost : ∀ c ∈ post, Text.isBlank c = true) :
    stripped s = cs := by
  obtain ⟨d, ds, hds, hd⟩ := h.cons
  have hfront : (pre ++ cs ++ post).dropWhile (fun c => !isDigit c) = cs ++ post := by
    rw [List.append_assoc, List.dropWhile_append_of_pos fun c hc => by rw [hpre c hc]; rfl, hds,
      List.cons_append, List.dropWhile_cons_of_neg (by simp [hd])]
  have hlast : cs.rdropWhile Text.isBlank = cs :=
    List.rdropWhile_eq_self_iff.mpr fun hne hb =>
      Bool.false_ne_true ((h.not_isBlank _ (List.getLast_mem hne)).symm.trans hb)
  have hback : (cs ++ post).rdropWhile Text.isBlank = cs := by
    rw [List.rdropWhile, List.reverse_append,
      List.dropWhile_append_of_pos fun c hc => hpost c (List.mem_reverse.mp hc)]
    exact hlast
  rw [Version.stripped_eq, hs, hfront, hback]

/-! ### Reading -/

/-- The reader accepts what the grammar spells. -/
theorem read?_eq_some_iff {s : String} {v : Version} :
    read? s = some v ↔ Spelled (stripped s) v := by
  constructor
  · intro h
    unfold read? at h
    split at h
    · cases h
    · rename_i ns rest hnumerals
      split_ifs at h with hsuffix
      obtain ⟨hne, hlen, hcs, -, -⟩ := numerals_eq_some_iff.mp hnumerals
      exact ⟨written ns, rest, core_iff.mpr ⟨ns, hne, hlen, rfl, (Option.some.inj h).symm⟩,
        isSuffix_iff.mp hsuffix, hcs⟩
  · rintro ⟨core, suffix, hcore, hsuffix, hcs⟩
    obtain ⟨ns, hne, hlen, rfl, rfl⟩ := core_iff.mp hcore
    have hnumerals : numerals 2 (stripped s) = some (ns, suffix) :=
      numerals_eq_some_iff.mpr ⟨hne, hlen, hcs, hsuffix.stops.1, fun _ => hsuffix.stops.2⟩
    unfold read?
    rw [← stripped, hnumerals]
    exact if_pos (isSuffix_iff.mpr hsuffix)

/-- A text spells one version at most. -/
theorem Spelled.unique {cs : List Char} {v w : Version} (hv : Spelled cs v) (hw : Spelled cs w) :
    v = w := by
  have hlist : (String.ofList cs).toList = [] ++ cs ++ [] := by simp
  have hstripped : stripped (String.ofList cs) = cs := hv.stripped_eq hlist (by simp) (by simp)
  have hread : some v = some w := by
    rw [← read?_eq_some_iff.mpr (hstripped.symm ▸ hv), ← read?_eq_some_iff.mpr (hstripped.symm ▸ hw)]
  exact Option.some.inj hread

theorem ofDatum_text_eq_ok_iff {s : String} {v : Version} :
    ofDatum (.text s) = .ok v ↔ Spelled (stripped s) v := by
  rw [← read?_eq_some_iff]
  cases hread : read? s <;> simp [ofDatum, hread]

theorem ofDatum_text_eq_error_iff {s : String} :
    ofDatum (.text s) = .error ⟨.text s⟩ ↔ ∀ v, ¬ Spelled (stripped s) v := by
  simp only [← read?_eq_some_iff, ← Option.eq_none_iff_forall_ne_some]
  cases hread : read? s <;> simp [ofDatum, hread]

/-- A text is read as the version that it spells, and refused when it spells none. What is free of
    digits in front of it, blanks behind it, a pre-release, a build and numbers that are zero and left
    out are all the same to the version. -/
theorem ofDatum_text_iff_spelled (s : String) (v : Version) :
    (ofDatum (.text s) = .ok v ↔ Spelled (stripped s) v) ∧
    (ofDatum (.text s) = .error ⟨.text s⟩ ↔ ∀ w, ¬ Spelled (stripped s) w) ∧
    (∀ pre : String, (∀ c ∈ pre.toList, isDigit c = false) →
      (ofDatum (.text (pre ++ s)) = .ok v ↔ ofDatum (.text s) = .ok v)) ∧
    (ofDatum (.text s) = .ok v ↔ ∃ pre core suffix post, s.toList = pre ++ (core ++ suffix) ++ post ∧
      (∀ c ∈ pre, isDigit c = false) ∧ Core core v ∧ Suffix suffix ∧
        ∀ c ∈ post, Text.isBlank c = true) := by
  refine ⟨ofDatum_text_eq_ok_iff, ofDatum_text_eq_error_iff, ?_, ?_⟩
  · intro pre hpre
    rw [ofDatum_text_eq_ok_iff, ofDatum_text_eq_ok_iff, stripped_append hpre]
  · rw [ofDatum_text_eq_ok_iff]
    constructor
    · rintro ⟨core, suffix, hcore, hsuffix, hcs⟩
      obtain ⟨pre, post, hs, hpre, hpost⟩ := exists_toList_eq s
      rw [hcs] at hs
      exact ⟨pre, core, suffix, post, hs, hpre, hcore, hsuffix, hpost⟩
    · rintro ⟨pre, core, suffix, post, hs, hpre, hcore, hsuffix, hpost⟩
      have hspelled : Spelled (core ++ suffix) v := ⟨core, suffix, hcore, hsuffix, rfl⟩
      rwa [hspelled.stripped_eq hs hpre hpost]

/-- A platform's own name in front and its marks behind leave the version as it is. -/
theorem release_with_marks_read :
    ofDatum (.text "v1.27-eks-2d98532+k3s1\n") = .ok ⟨1, 27, 0⟩ ∧
      (∀ c ∈ "release-".toList, isDigit c = false) ∧
      ofDatum (.text ("release-" ++ "v1.27-eks-2d98532+k3s1\n")) = .ok ⟨1, 27, 0⟩ := by
  obtain ⟨-, -, hfronted, hread⟩ := ofDatum_text_iff_spelled "v1.27-eks-2d98532+k3s1\n" ⟨1, 27, 0⟩
  have hcore : Core "1.27".toList ⟨1, 27, 0⟩ := by
    have htext : decimal 1 ++ '.' :: decimal 27 = "1.27".toList := by decide
    exact htext ▸ Core.two 1 27
  have hsuffix : Suffix "-eks-2d98532+k3s1".toList := isSuffix_iff.mp (by decide)
  have hfront : ("release-".toList.all fun c => !isDigit c) = true := by decide
  have hblank : "\n".toList.all Text.isBlank = true := by decide
  have hplain := hread.mpr ⟨['v'], _, _, "\n".toList, by decide, by simp [isDigit], hcore, hsuffix,
    List.all_eq_true.mp hblank⟩
  have hrelease : ∀ c ∈ "release-".toList, isDigit c = false := fun c hc => by
    simpa using List.all_eq_true.mp hfront c hc
  exact ⟨hplain, hrelease, (hfronted "release-" hrelease).mpr hplain⟩

example : read? "v1.02.3" = none := by decide

end Version

end FleetLabels
