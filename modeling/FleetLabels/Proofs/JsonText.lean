import FleetLabels.Json.Text
import FleetLabels.Proofs.Digits
import Mathlib.Data.List.Nodup

/-!
    Compact JSON text tells documents apart.

    The text of a document says where it ends, as long as no digit follows, so that texts can be put one
    behind the other: two documents with texts that go on as one text are the same but for the order of
    members, and what goes on is the same (`Json.told`). Characters of a string are read back from
    their escapes (`Json.readChar`), numbers end with their last digit, lists and objects with their
    closing bracket, and the first character tells which of these there is (`Json.lead`).

    The text has visible ASCII characters and spaces only. -/

namespace FleetLabels.Json

/-! ### Characters -/

/-- The character of a short escape. -/
def unescaped (c : Char) : Char :=
  if c = 'n' then '\n'
  else if c = 'r' then '\r'
  else if c = 't' then '\t'
  else if c = 'b' then Char.ofNat 8
  else if c = 'f' then Char.ofNat 12
  else c

/-- The character that one UTF-16 unit or a pair of them spells, and what stands behind it. The second
    unit of a pair has an escape of its own. -/
def readUnits (cs : List Char) : Char × List Char :=
  let high := Text.hexNumber (cs.take 4)
  if 0xD800 ≤ high ∧ high < 0xDC00 then
    let next := (cs.drop 4).drop 2
    let low := Text.hexNumber (next.take 4)
    (Char.ofNat (0x10000 + (high - 0xD800) * 0x400 + (low - 0xDC00)), next.drop 4)
  else (Char.ofNat high, cs.drop 4)

/-- The first character of a string, and what stands behind it. -/
def readChar : List Char → Char × List Char
  | [] => ('"', [])
  | [c] => (c, [])
  | c :: d :: rest =>
    if c = '\\' then (if d = 'u' then readUnits rest else (unescaped d, rest)) else (c, d :: rest)

theorem readChar_plain {c : Char} (h : c ≠ '\\') (rest : List Char) :
    readChar (c :: rest) = (c, rest) := by
  cases rest with
  | nil => rfl
  | cons d rest => rw [readChar, if_neg h]

theorem readChar_unitEscape (n : Nat) (rest : List Char) :
    readChar (unitEscape n ++ rest) = readUnits (Text.hexDigits 4 n ++ rest) := rfl

theorem take_hexDigits (k n : Nat) (rest : List Char) :
    (Text.hexDigits k n ++ rest).take k = Text.hexDigits k n :=
  List.take_left' (Text.length_hexDigits k n)

theorem drop_hexDigits (k n : Nat) (rest : List Char) :
    (Text.hexDigits k n ++ rest).drop k = rest :=
  List.drop_left' (Text.length_hexDigits k n)

theorem readUnits_single {c : Char} (h : c.toNat < 0x10000) (rest : List Char) :
    readUnits (Text.hexDigits 4 c.toNat ++ rest) = (c, rest) := by
  have hhigh : Text.hexNumber (Text.hexDigits 4 c.toNat) = c.toNat := by
    rw [Text.hexNumber_hexDigits]
    exact Nat.mod_eq_of_lt h
  have hvalid : ¬ (0xD800 ≤ c.toNat ∧ c.toNat < 0xDC00) := by
    have hc : c.toNat < 0xD800 ∨ 0xDFFF < c.toNat ∧ c.toNat < 0x110000 := c.valid
    omega
  simp only [readUnits, take_hexDigits, drop_hexDigits, hhigh, if_neg hvalid, Char.ofNat_toNat]

theorem toNat_lt (c : Char) : c.toNat < 0x110000 := by
  have hc : c.toNat < 0xD800 ∨ 0xDFFF < c.toNat ∧ c.toNat < 0x110000 := c.valid
  omega

theorem readUnits_pair {c : Char} (h : 0x10000 ≤ c.toNat) (rest : List Char) :
    readUnits (Text.hexDigits 4 (0xD800 + (c.toNat - 0x10000) / 0x400) ++
      (unitEscape (0xDC00 + (c.toNat - 0x10000) % 0x400) ++ rest)) = (c, rest) := by
  have hbound := toNat_lt c
  have hhigh : Text.hexNumber (Text.hexDigits 4 (0xD800 + (c.toNat - 0x10000) / 0x400)) =
      0xD800 + (c.toNat - 0x10000) / 0x400 := by
    rw [Text.hexNumber_hexDigits]
    exact Nat.mod_eq_of_lt (by omega)
  have hlow : Text.hexNumber (Text.hexDigits 4 (0xDC00 + (c.toNat - 0x10000) % 0x400)) =
      0xDC00 + (c.toNat - 0x10000) % 0x400 := by
    rw [Text.hexNumber_hexDigits]
    exact Nat.mod_eq_of_lt (by omega)
  have hpair : 0xD800 ≤ 0xD800 + (c.toNat - 0x10000) / 0x400 ∧
      0xD800 + (c.toNat - 0x10000) / 0x400 < 0xDC00 := by omega
  have hcode : 0x10000 + (0xD800 + (c.toNat - 0x10000) / 0x400 - 0xD800) * 0x400 +
      (0xDC00 + (c.toNat - 0x10000) % 0x400 - 0xDC00) = c.toNat := by omega
  have hnext (n : Nat) : (unitEscape n ++ rest).drop 2 = Text.hexDigits 4 n ++ rest := rfl
  simp only [readUnits, take_hexDigits, drop_hexDigits, hhigh, if_pos hpair, hnext, hlow, hcode,
    Char.ofNat_toNat]

/-- Every character is read back from its escape. -/
theorem readChar_escapeChar (c : Char) (rest : List Char) :
    readChar (escapeChar c ++ rest) = (c, rest) := by
  have hcode {n : Nat} (h : c.toNat = n) : c = Char.ofNat n := by rw [← h, Char.ofNat_toNat]
  rw [escapeChar]
  split_ifs with hquote hline hreturn htab hback hfeed hvisible hsingle
  · rcases hquote with rfl | rfl <;> rfl
  · rw [hline]; rfl
  · rw [hreturn]; rfl
  · rw [htab]; rfl
  · rw [hcode hback]; rfl
  · rw [hcode hfeed]; rfl
  · exact readChar_plain (fun h => hquote (.inr h)) rest
  · rw [readChar_unitEscape, readUnits_single hsingle]
  · rw [List.append_assoc, readChar_unitEscape, readUnits_pair (Nat.le_of_not_lt hsingle)]

theorem escapeChar_append {c d : Char} {r q : List Char}
    (h : escapeChar c ++ r = escapeChar d ++ q) : c = d ∧ r = q := by
  have hread := congrArg readChar h
  rw [readChar_escapeChar, readChar_escapeChar] at hread
  exact Prod.mk.inj hread

/-- No character is written with a quote in front. -/
theorem escapeChar_ne_quote (c : Char) (r q : List Char) : escapeChar c ++ r ≠ '"' :: q := by
  intro h
  have hread := congrArg readChar h
  rw [readChar_escapeChar, readChar_plain (by decide)] at hread
  obtain ⟨rfl, rfl⟩ := Prod.mk.inj hread
  -- the quote itself stands behind a backslash
  have hlead := congrArg List.head? h
  simp [escapeChar] at hlead

/-! ### Strings -/

theorem escaped_append {cs ds : List Char} {r q : List Char}
    (h : cs.flatMap escapeChar ++ '"' :: r = ds.flatMap escapeChar ++ '"' :: q) :
    cs = ds ∧ r = q := by
  induction cs generalizing ds with
  | nil =>
    cases ds with
    | nil => exact ⟨rfl, (List.cons.inj h).2⟩
    | cons d ds =>
      rw [List.flatMap_cons, List.append_assoc] at h
      exact absurd h.symm (escapeChar_ne_quote d _ _)
  | cons c cs ih =>
    cases ds with
    | nil =>
      rw [List.flatMap_cons, List.append_assoc] at h
      exact absurd h (escapeChar_ne_quote c _ _)
    | cons d ds =>
      rw [List.flatMap_cons, List.flatMap_cons, List.append_assoc, List.append_assoc] at h
      obtain ⟨rfl, hrest⟩ := escapeChar_append h
      obtain ⟨rfl, rfl⟩ := ih hrest
      exact ⟨rfl, rfl⟩

/-- The text of a string ends with its closing quote. -/
theorem stringText_append {s t : String} {r q : List Char}
    (h : stringText s ++ r = stringText t ++ q) : s = t ∧ r = q := by
  simp only [stringText, List.cons_append, List.append_assoc, List.cons.injEq, true_and,
    List.nil_append] at h
  obtain ⟨hchars, rfl⟩ := escaped_append h
  exact ⟨String.toList_inj.mp hchars, rfl⟩

/-! ### Integers -/

/-- No digit comes first. -/
def Ends (r : List Char) : Prop := ∀ c ∈ r.head?, c.isDigit = false

theorem ends_nil : Ends [] := by
  intro c hc
  cases hc

theorem ends_cons {c : Char} (h : c.isDigit = false) (r : List Char) : Ends (c :: r) := by
  intro d hd
  obtain rfl := Option.some.inj hd
  exact h

theorem takeWhile_digits {ds r : List Char} (hds : ∀ c ∈ ds, c.isDigit = true) (hr : Ends r) :
    (ds ++ r).takeWhile Char.isDigit = ds := by
  rw [List.takeWhile_append_of_pos hds]
  cases r with
  | nil => simp
  | cons c r => simp [hr c rfl]

theorem toDigits_append {m n : Nat} {r q : List Char} (hr : Ends r) (hq : Ends q)
    (h : Nat.toDigits 10 m ++ r = Nat.toDigits 10 n ++ q) : m = n ∧ r = q := by
  have hdigits (k : Nat) : ∀ c ∈ Nat.toDigits 10 k, c.isDigit = true :=
    fun c hc => Calendar.isDigit_of_mem_toDigits hc
  have hsame : Nat.toDigits 10 m = Nat.toDigits 10 n := by
    rw [← takeWhile_digits (hdigits m) hr, h, takeWhile_digits (hdigits n) hq]
  have hnumber := congrArg (fun ds => Nat.ofDigitChars 10 ds 0) hsame
  simp only [Nat.ofDigitChars_ten_toDigits] at hnumber
  rw [hsame] at h
  exact ⟨hnumber, List.append_cancel_left h⟩

/-- No number of digits begins with the minus sign. -/
theorem minus_ne_toDigits (n : Nat) (r q : List Char) : '-' :: r ≠ Nat.toDigits 10 n ++ q := by
  intro h
  obtain ⟨d, ds, hds, hdigit⟩ := Calendar.toDigits_cons n
  rw [hds, List.cons_append] at h
  rw [← (List.cons.inj h).1] at hdigit
  exact absurd hdigit (by decide)

/-- The text of an integer ends with its last digit. -/
theorem intText_append {m n : Int} {r q : List Char} (hr : Ends r) (hq : Ends q)
    (h : intText m ++ r = intText n ++ q) : m = n ∧ r = q := by
  rw [intText, intText] at h
  split_ifs at h with hm hn hn
  · obtain ⟨hsize, hrest⟩ := toDigits_append hr hq (List.cons.inj h).2
    exact ⟨by omega, hrest⟩
  · exact absurd h (minus_ne_toDigits _ _ _)
  · exact absurd h.symm (minus_ne_toDigits _ _ _)
  · obtain ⟨hsize, hrest⟩ := toDigits_append hr hq h
    exact ⟨by omega, hrest⟩

/-! ### Items between brackets -/

section Items

variable {α β : Type} {text : α → List Char} {image : α → β}

/-- The text of an item tells its image, wherever the text goes on without a digit. -/
def Told (text : α → List Char) (image : α → β) (x : α) : Prop :=
  ∀ y r q, Ends r → Ends q → text x ++ r = text y ++ q → image x = image y ∧ r = q

theorem joined_cons (sep x : List Char) (xs : List (List Char)) :
    joined sep (x :: xs) = x ++ xs.flatMap fun y => sep ++ y := by
  induction xs generalizing x with
  | nil => simp [joined]
  | cons y rest ih =>
    have hstep : joined sep (x :: y :: rest) = x ++ (sep ++ joined sep (y :: rest)) := rfl
    rw [hstep, ih, List.flatMap_cons, List.append_assoc]

variable {close : Char} (hcomma : close ≠ ',') (hdigit : close.isDigit = false)

include hdigit in
theorem ends_items (xs : List α) (r : List Char) :
    Ends ((xs.flatMap fun x => ',' :: text x) ++ close :: r) := by
  cases xs with
  | nil => exact ends_cons hdigit r
  | cons x rest => exact ends_cons (by decide) _

include hcomma hdigit in
/-- Items that each have a comma in front are told up to the bracket that closes them. -/
theorem items_told {xs ys : List α} {r q : List Char} (htold : ∀ x ∈ xs, Told text image x)
    (h : (xs.flatMap fun x => ',' :: text x) ++ close :: r =
      (ys.flatMap fun y => ',' :: text y) ++ close :: q) :
    xs.map image = ys.map image ∧ r = q := by
  induction xs generalizing ys with
  | nil =>
    cases ys with
    | nil => exact ⟨rfl, (List.cons.inj h).2⟩
    | cons y ys => exact absurd (List.cons.inj h).1 hcomma
  | cons x xs ih =>
    cases ys with
    | nil => exact absurd (List.cons.inj h).1.symm hcomma
    | cons y ys =>
      rw [List.flatMap_cons, List.flatMap_cons, List.cons_append, List.cons_append,
        List.cons_append, List.cons_append, List.append_assoc, List.append_assoc] at h
      obtain ⟨himage, hrest⟩ := htold x List.mem_cons_self y _ _ (ends_items hdigit xs r)
        (ends_items hdigit ys q) (List.cons.inj h).2
      obtain ⟨himages, hend⟩ := ih (fun z hz => htold z (List.mem_cons_of_mem x hz)) hrest
      exact ⟨by rw [List.map_cons, List.map_cons, himage, himages], hend⟩

include hcomma hdigit in
/-- Items with commas between them are told up to the bracket that closes them, when no item begins
    with that bracket. -/
theorem joined_told {xs ys : List α} {r q : List Char} (htold : ∀ x ∈ xs, Told text image x)
    (hopen : ∀ y r q, text y ++ r ≠ close :: q)
    (h : joined [','] (xs.map text) ++ close :: r = joined [','] (ys.map text) ++ close :: q) :
    xs.map image = ys.map image ∧ r = q := by
  cases xs with
  | nil =>
    cases ys with
    | nil => exact ⟨rfl, (List.cons.inj h).2⟩
    | cons y ys =>
      rw [List.map_cons, joined_cons, List.append_assoc] at h
      exact absurd h.symm (hopen y _ _)
  | cons x xs =>
    cases ys with
    | nil =>
      rw [List.map_cons, joined_cons, List.append_assoc] at h
      exact absurd h (hopen x _ _)
    | cons y ys =>
      simp only [List.map_cons, joined_cons, List.append_assoc, List.flatMap_map,
        List.singleton_append] at h
      obtain ⟨himage, hrest⟩ := htold x List.mem_cons_self y _ _ (ends_items hdigit xs r)
        (ends_items hdigit ys q) h
      obtain ⟨himages, hend⟩ := items_told hcomma hdigit
        (fun z hz => htold z (List.mem_cons_of_mem x hz)) hrest
      exact ⟨by rw [List.map_cons, List.map_cons, himage, himages], hend⟩

end Items

/-! ### Documents -/

mutual

/-- The document with the members of all its objects in the order of their keys. -/
def ordered : Json → Json
  | .list items => .list (orderedItems items)
  | .object members => .object (sortMembers (orderedMembers members))
  | .null => .null
  | .bool b => .bool b
  | .int n => .int n
  | .text s => .text s

def orderedItems : List Json → List Json
  | [] => []
  | x :: rest => x.ordered :: orderedItems rest

def orderedMembers : List (String × Json) → List (String × Json)
  | [] => []
  | (k, x) :: rest => (k, x.ordered) :: orderedMembers rest

end

theorem orderedItems_eq (items : List Json) : orderedItems items = items.map ordered := by
  induction items with
  | nil => rfl
  | cons x rest ih => rw [orderedItems, ih, List.map_cons]

theorem orderedMembers_eq (members : List (String × Json)) :
    orderedMembers members = members.map fun m => (m.1, m.2.ordered) := by
  induction members with
  | nil => rfl
  | cons m rest ih =>
    obtain ⟨k, x⟩ := m
    rw [orderedMembers, ih, List.map_cons]

theorem compactItems_eq (items : List Json) : compactItems items = items.map compact := by
  induction items with
  | nil => rfl
  | cons x rest ih => rw [compactItems, ih, List.map_cons]

theorem compactMembers_eq (members : List (String × Json)) :
    compactMembers members = members.map fun m => (m.1, m.2.compact) := by
  induction members with
  | nil => rfl
  | cons m rest ih =>
    obtain ⟨k, x⟩ := m
    rw [compactMembers, ih, List.map_cons]

/-- Members are sorted by their keys alone. -/
theorem sortMembers_map {α β : Type} (f : α → β) (ms : List (String × α)) :
    sortMembers (ms.map fun m => (m.1, f m.2)) = (sortMembers ms).map fun m => (m.1, f m.2) := by
  rw [sortMembers, sortMembers]
  exact (List.map_mergeSort (f := fun m : String × α => (m.1, f m.2)) fun _ _ _ _ => rfl).symm

/-- The text of a member of an object. -/
def memberText (m : String × Json) : List Char := stringText m.1 ++ ':' :: m.2.compact

theorem compact_list (items : List Json) :
    (Json.list items).compact = '[' :: (joined [','] (items.map compact) ++ [']']) := by
  rw [compact, compactItems_eq]
  rfl

theorem compact_object (members : List (String × Json)) :
    (Json.object members).compact =
      '\x7b' :: (joined [','] ((sortMembers members).map memberText) ++ ['\x7d']) := by
  rw [compact, compactMembers_eq, sortMembers_map, List.map_map]
  rfl

theorem ordered_list (items : List Json) :
    (Json.list items).ordered = .list (items.map ordered) := by
  rw [ordered, orderedItems_eq]

theorem ordered_object (members : List (String × Json)) :
    (Json.object members).ordered =
      .object ((sortMembers members).map fun m => (m.1, m.2.ordered)) := by
  rw [ordered, orderedMembers_eq, sortMembers_map]

/-- What the first character of a text shows. -/
inductive Lead where
  | null
  | bool
  | number
  | text
  | list
  | object
  | closing
  deriving DecidableEq

def leadOf (c : Char) : Lead :=
  if c = 'n' then .null
  else if c = 't' ∨ c = 'f' then .bool
  else if c = '"' then .text
  else if c = '[' then .list
  else if c = '\x7b' then .object
  else if c = ']' ∨ c = '\x7d' then .closing
  else .number

/-- What a document is. -/
def lead : Json → Lead
  | .null => .null
  | .bool _ => .bool
  | .int _ => .number
  | .text _ => .text
  | .list _ => .list
  | .object _ => .object

theorem leadOf_digit {c : Char} (h : c.isDigit = true) : leadOf c = .number := by
  have hne (d : Char) (hd : d.isDigit = false) : c ≠ d := by
    rintro rfl
    rw [hd] at h
    cases h
  simp [leadOf, hne]

theorem leadOf_intText (n : Int) : ∃ c rest, intText n = c :: rest ∧ leadOf c = .number := by
  rw [intText]
  split_ifs
  · exact ⟨'-', _, rfl, by decide⟩
  · obtain ⟨d, ds, hds, hdigit⟩ := Calendar.toDigits_cons n.natAbs
    exact ⟨d, ds, hds, leadOf_digit hdigit⟩

/-- The first character of a text tells what the document is. -/
theorem lead_compact (a : Json) : ∃ c rest, a.compact = c :: rest ∧ leadOf c = a.lead := by
  cases a with
  | null => exact ⟨'n', "ull".toList, by decide, by decide⟩
  | bool b =>
    cases b with
    | false => exact ⟨'f', "alse".toList, by decide, by decide⟩
    | true => exact ⟨'t', "rue".toList, by decide, by decide⟩
  | int n => exact leadOf_intText n
  | text s => exact ⟨'"', _, rfl, rfl⟩
  | list items => exact ⟨'[', _, compact_list items, rfl⟩
  | object members => exact ⟨'\x7b', _, compact_object members, rfl⟩

theorem lead_eq {a b : Json} {r q : List Char} (h : a.compact ++ r = b.compact ++ q) :
    a.lead = b.lead := by
  obtain ⟨c, as, ha, hac⟩ := lead_compact a
  obtain ⟨d, bs, hb, hbd⟩ := lead_compact b
  rw [ha, hb] at h
  rw [← hac, ← hbd, (List.cons.inj h).1]

/-- No document begins with a closing bracket. -/
theorem compact_ne_closing {close : Char} (hclose : leadOf close = .closing) (a : Json)
    (r q : List Char) : a.compact ++ r ≠ close :: q := by
  intro h
  obtain ⟨c, as, ha, hac⟩ := lead_compact a
  rw [ha] at h
  rw [(List.cons.inj h).1, hclose] at hac
  cases a <;> cases hac

theorem member_told {m : String × Json} (h : Told compact ordered m.2) :
    Told memberText (fun m => (m.1, m.2.ordered)) m := by
  intro y r q hr hq heq
  rw [memberText, memberText, List.append_assoc, List.append_assoc] at heq
  obtain ⟨hkey, hrest⟩ := stringText_append heq
  obtain ⟨hvalue, hend⟩ := h y.2 r q hr hq (List.cons.inj hrest).2
  exact ⟨Prod.ext hkey hvalue, hend⟩

theorem told_bool (b : Bool) : Told compact ordered (.bool b) := by
  intro y r q _ _ h
  cases y <;> cases lead_eq h
  rename_i c
  cases b <;> cases c <;> simp_all [compact, ordered]

theorem told_list {items : List Json} (h : ∀ x ∈ items, Told compact ordered x) :
    Told compact ordered (.list items) := by
  intro y r q _ _ heq
  cases y <;> cases lead_eq heq
  rename_i others
  rw [compact_list, compact_list, List.cons_append, List.cons_append, List.append_assoc,
    List.append_assoc] at heq
  obtain ⟨hitems, hend⟩ := joined_told (by decide) (by decide) h
    (compact_ne_closing (by decide)) (List.cons.inj heq).2
  exact ⟨by rw [ordered_list, ordered_list, hitems], hend⟩

theorem told_object {members : List (String × Json)} (h : ∀ m ∈ members, Told compact ordered m.2) :
    Told compact ordered (.object members) := by
  intro y r q _ _ heq
  cases y <;> cases lead_eq heq
  rename_i others
  rw [compact_object, compact_object, List.cons_append, List.cons_append, List.append_assoc,
    List.append_assoc] at heq
  have htold : ∀ m ∈ sortMembers members, Told memberText (fun m => (m.1, m.2.ordered)) m :=
    fun m hm => member_told (h m (List.mem_mergeSort.mp hm))
  have hopen : ∀ (m : String × Json) r q, memberText m ++ r ≠ '\x7d' :: q := by
    intro m r q hm
    exact absurd (List.cons.inj hm).1 (by decide)
  obtain ⟨hmembers, hend⟩ := joined_told (by decide) (by decide) htold hopen (List.cons.inj heq).2
  exact ⟨by rw [ordered_object, ordered_object, hmembers], hend⟩

mutual

/-- The text of a document tells it apart from every other, up to the order of members, and tells where
    it ends. -/
theorem told : ∀ a : Json, Told compact ordered a
  | .null => by
    intro y r q _ _ h
    cases y <;> cases lead_eq h
    exact ⟨rfl, List.append_cancel_left h⟩
  | .bool b => told_bool b
  | .int n => by
    intro y r q hr hq h
    cases y <;> cases lead_eq h
    obtain ⟨rfl, hend⟩ := intText_append hr hq h
    exact ⟨rfl, hend⟩
  | .text s => by
    intro y r q _ _ h
    cases y <;> cases lead_eq h
    obtain ⟨rfl, hend⟩ := stringText_append h
    exact ⟨rfl, hend⟩
  | .list items => told_list (told_items items)
  | .object members => told_object (told_members members)

theorem told_items : ∀ items : List Json, ∀ x ∈ items, Told compact ordered x
  | [] => List.forall_mem_nil _
  | x :: rest => List.forall_mem_cons.mpr ⟨told x, told_items rest⟩

theorem told_members : ∀ members : List (String × Json), ∀ m ∈ members, Told compact ordered m.2
  | [] => List.forall_mem_nil _
  | (_, x) :: rest => List.forall_mem_cons.mpr ⟨told x, told_members rest⟩

end

/-- Documents with one text are the same but for the order of members. -/
theorem ordered_eq_of_compact_eq {a b : Json} (h : a.compact = b.compact) :
    a.ordered = b.ordered := by
  have htext : a.compact ++ [] = b.compact ++ [] := congrArg (· ++ []) h
  exact (told a b [] [] ends_nil ends_nil htext).1

/-! ### Members -/

/-- The members of an object; other documents have none. -/
def members : Json → List (String × Json)
  | .object ms => ms
  | _ => []

/-- What stands under a key of an object. -/
def get? (k : String) (a : Json) : Option Json := (a.members.find? fun m => m.1 == k).map (·.2)

/-- No key of an object stands twice in it. -/
def Keyed (a : Json) : Prop := (a.members.map (·.1)).Nodup

theorem mem_of_get? {a : Json} {k : String} {x : Json} (h : a.get? k = some x) :
    (k, x) ∈ a.members := by
  obtain ⟨⟨l, y⟩, hfind, rfl⟩ := Option.map_eq_some_iff.mp h
  obtain rfl : l = k := by simpa using List.find?_some hfind
  exact List.mem_of_find?_eq_some hfind

theorem get?_of_mem {a : Json} (ha : a.Keyed) {k : String} {x : Json} (h : (k, x) ∈ a.members) :
    a.get? k = some x := by
  cases hget : a.get? k with
  | none =>
    have hnone := List.find?_eq_none.mp (Option.map_eq_none_iff.mp hget) _ h
    exact absurd (beq_self_eq_true k) hnone
  | some y =>
    have hsame := List.inj_on_of_nodup_map ha (mem_of_get? hget) h rfl
    rw [(Prod.mk.inj hsame).2]

/-- Objects that are the same but for the order of members have members with the same keys. -/
theorem exists_member {a b : Json} (h : a.ordered = b.ordered) {k : String} {x : Json}
    (hx : (k, x) ∈ a.members) : ∃ y, (k, y) ∈ b.members ∧ x.ordered = y.ordered := by
  cases a with
  | object ms =>
    cases b with
    | object ns =>
      rw [ordered_object, ordered_object, Json.object.injEq] at h
      have hmem : (k, x.ordered) ∈ (sortMembers ms).map fun m => (m.1, m.2.ordered) :=
        List.mem_map.mpr ⟨(k, x), List.mem_mergeSort.mpr hx, rfl⟩
      rw [h] at hmem
      obtain ⟨⟨l, y⟩, hy, heq⟩ := List.mem_map.mp hmem
      obtain ⟨rfl, hvalue⟩ := Prod.mk.inj heq
      exact ⟨y, List.mem_mergeSort.mp hy, hvalue.symm⟩
    | _ => simp [ordered] at h
  | _ => exact absurd hx List.not_mem_nil

section SameKeys

variable {a b : Json} (h : a.ordered = b.ordered) (hb : b.Keyed) {k : String}

include h hb

theorem get?_of_ordered_eq {x : Json} (hx : a.get? k = some x) :
    ∃ y, b.get? k = some y ∧ x.ordered = y.ordered := by
  obtain ⟨y, hy, heq⟩ := exists_member h (mem_of_get? hx)
  exact ⟨y, get?_of_mem hb hy, heq⟩

/-- A text under a key of both is one text. -/
theorem text_eq {s t : String} (hs : a.get? k = some (.text s)) (ht : b.get? k = some (.text t)) :
    s = t := by
  obtain ⟨y, hy, heq⟩ := get?_of_ordered_eq h hb hs
  obtain rfl := Option.some.inj (hy.symm.trans ht)
  exact Json.text.inj heq

/-- A list under a key of both has the same items, as far as the documents of items tell. -/
theorem list_eq {α : Type} {f : α → Json} (hf : ∀ x y, (f x).ordered = (f y).ordered → x = y)
    {xs ys : List α} (hxs : a.get? k = some (.list (xs.map f)))
    (hys : b.get? k = some (.list (ys.map f))) : xs = ys := by
  obtain ⟨y, hy, heq⟩ := get?_of_ordered_eq h hb hxs
  obtain rfl := Option.some.inj (hy.symm.trans hys)
  rw [ordered_list, ordered_list, Json.list.injEq, List.map_map, List.map_map] at heq
  exact List.map_injective_iff.mpr hf heq

/-- A count that is there in the first is there in the second. -/
theorem count_of_some {n : Nat} {count : Option Nat} (hn : a.get? k = some (.int n))
    (hcount : b.get? k = count.map fun m => .int m) : count = some n := by
  obtain ⟨y, hy, heq⟩ := get?_of_ordered_eq h hb hn
  rw [hcount] at hy
  obtain ⟨m, rfl, rfl⟩ := Option.map_eq_some_iff.mp hy
  exact congrArg some (Int.ofNat.inj (Json.int.inj heq)).symm

end SameKeys

/-- A count under a key of both is one count, or absent in both. -/
theorem count_eq {a b : Json} (h : a.ordered = b.ordered) (ha : a.Keyed) (hb : b.Keyed) {k : String}
    {m n : Option Nat} (hm : a.get? k = m.map fun i => .int i)
    (hn : b.get? k = n.map fun i => .int i) : m = n := by
  cases hmcase : m with
  | some i => exact (count_of_some h hb (by rw [hm, hmcase]; rfl) hn).symm
  | none =>
    cases hncase : n with
    | none => rfl
    | some i =>
      have hsome := count_of_some h.symm ha (by rw [hn, hncase]; rfl) hm
      exact absurd (hmcase.symm.trans hsome) (Option.some_ne_none i).symm

/-! ### Visible characters -/

/-- A visible ASCII character or a space. -/
def Visible (c : Char) : Prop := 32 ≤ c.toNat ∧ c.toNat < 127

instance (c : Char) : Decidable (Visible c) :=
  inferInstanceAs (Decidable (32 ≤ c.toNat ∧ c.toNat < 127))

theorem visible_of_all {cs : List Char} (h : (cs.all fun c => decide (Visible c)) = true) :
    ∀ c ∈ cs, Visible c := fun c hc => of_decide_eq_true (List.all_eq_true.mp h c hc)

theorem visible_unitEscape (n : Nat) : ∀ c ∈ unitEscape n, Visible c := by
  intro c hc
  rw [unitEscape, List.mem_cons, List.mem_cons] at hc
  rcases hc with rfl | rfl | hc
  · decide
  · decide
  · exact Text.visible_of_mem_hexDigits hc

theorem visible_escapeChar (c : Char) : ∀ d ∈ escapeChar c, Visible d := by
  rw [escapeChar]
  split_ifs with hquote hline hreturn htab hback hfeed hvisible hsingle
  · rcases hquote with rfl | rfl <;> exact visible_of_all rfl
  · exact visible_of_all rfl
  · exact visible_of_all rfl
  · exact visible_of_all rfl
  · exact visible_of_all rfl
  · exact visible_of_all rfl
  · exact List.forall_mem_singleton.mpr hvisible
  · exact visible_unitEscape _
  · exact List.forall_mem_append.mpr ⟨visible_unitEscape _, visible_unitEscape _⟩

theorem visible_stringText (s : String) : ∀ c ∈ stringText s, Visible c := by
  have hchars : ∀ c ∈ s.toList.flatMap escapeChar, Visible c := by
    intro c hc
    obtain ⟨d, -, hd⟩ := List.mem_flatMap.mp hc
    exact visible_escapeChar d c hd
  exact List.forall_mem_cons.mpr
    ⟨by decide, List.forall_mem_append.mpr ⟨hchars, visible_of_all rfl⟩⟩

theorem visible_intText (n : Int) : ∀ c ∈ intText n, Visible c := by
  have hdigits : ∀ c ∈ Nat.toDigits 10 n.natAbs, Visible c := by
    intro c hc
    have hrange := Calendar.toNat_of_isDigit (Calendar.isDigit_of_mem_toDigits hc)
    exact ⟨by omega, by omega⟩
  rw [intText]
  split_ifs
  · exact List.forall_mem_cons.mpr ⟨by decide, hdigits⟩
  · exact hdigits

theorem visible_joined {sep : List Char} (hsep : ∀ c ∈ sep, Visible c) {xs : List (List Char)}
    (h : ∀ x ∈ xs, ∀ c ∈ x, Visible c) : ∀ c ∈ joined sep xs, Visible c := by
  cases xs with
  | nil => exact fun c hc => absurd hc List.not_mem_nil
  | cons x rest =>
    rw [joined_cons]
    refine List.forall_mem_append.mpr ⟨h x List.mem_cons_self, fun c hc => ?_⟩
    obtain ⟨y, hy, hc⟩ := List.mem_flatMap.mp hc
    rcases List.mem_append.mp hc with hc | hc
    · exact hsep c hc
    · exact h y (List.mem_cons_of_mem x hy) c hc

theorem visible_memberText {m : String × Json} (h : ∀ c ∈ m.2.compact, Visible c) :
    ∀ c ∈ memberText m, Visible c :=
  List.forall_mem_append.mpr
    ⟨visible_stringText m.1, List.forall_mem_cons.mpr ⟨by decide, h⟩⟩

theorem visible_list {items : List Json} (h : ∀ x ∈ items, ∀ c ∈ x.compact, Visible c) :
    ∀ c ∈ (Json.list items).compact, Visible c := by
  rw [compact_list]
  refine List.forall_mem_cons.mpr ⟨by decide, List.forall_mem_append.mpr ⟨?_, visible_of_all rfl⟩⟩
  exact visible_joined (visible_of_all rfl) (List.forall_mem_map.mpr h)

theorem visible_object {members : List (String × Json)}
    (h : ∀ m ∈ members, ∀ c ∈ m.2.compact, Visible c) :
    ∀ c ∈ (Json.object members).compact, Visible c := by
  rw [compact_object]
  refine List.forall_mem_cons.mpr ⟨by decide, List.forall_mem_append.mpr ⟨?_, visible_of_all rfl⟩⟩
  refine visible_joined (visible_of_all rfl) (List.forall_mem_map.mpr fun m hm => ?_)
  exact visible_memberText (h m (List.mem_mergeSort.mp hm))

mutual

/-- A compact text has no other characters than the visible ASCII characters and the space. -/
theorem visible_compact : ∀ a : Json, ∀ c ∈ a.compact, Visible c
  | .null => visible_of_all rfl
  | .bool false => visible_of_all rfl
  | .bool true => visible_of_all rfl
  | .int n => visible_intText n
  | .text s => visible_stringText s
  | .list items => visible_list (visible_items items)
  | .object members => visible_object (visible_members members)

theorem visible_items : ∀ items : List Json, ∀ x ∈ items, ∀ c ∈ x.compact, Visible c
  | [] => List.forall_mem_nil _
  | x :: rest => List.forall_mem_cons.mpr ⟨visible_compact x, visible_items rest⟩

theorem visible_members :
    ∀ members : List (String × Json), ∀ m ∈ members, ∀ c ∈ m.2.compact, Visible c
  | [] => List.forall_mem_nil _
  | (_, x) :: rest => List.forall_mem_cons.mpr ⟨visible_compact x, visible_members rest⟩

end

end FleetLabels.Json
