import FleetLabels.Manifest
import FleetLabels.Proofs.Attempt

/-!
    Readings that decide whether what they read is sound.

    A manifest has the right shape when mappings, lists and texts stand where they are expected; what
    says nothing may stand in place of each. On such data a reading never fails for the shape: it
    *decides* a proposition when it has a value where that holds and finds a broken rule where it does
    not (`Reading.Decides`). Readings one after the other decide all of what each of them decides,
    and so do the readings of the items of a list. -/

namespace FleetLabels

/-! ### Shapes -/

namespace Datum

/-- The value at a text key, null where there is none. -/
def valueAt (key : String) (d : Datum) : Datum := (d.get? key).getD .null

def IsMapping (d : Datum) : Prop := ∃ entries, d = .mapping entries

/-- A mapping, or nothing that is said. -/
def IsSection (d : Datum) : Prop := d.isGiven = true → d.IsMapping

/-- A text, or nothing that is said. -/
def IsTextual (d : Datum) : Prop := d.isGiven = true → ∃ s, d = .text s

/-- A text that is not empty. -/
def IsName (d : Datum) : Prop := ∃ s, s ≠ "" ∧ d = .text s

/-- A list of mappings of some shape, or nothing that is said. -/
def IsListOf (shaped : Datum → Prop) (d : Datum) : Prop :=
  d.isGiven = true → ∃ items, d = .list items ∧ ∀ x ∈ items, x.IsMapping ∧ shaped x

/-- The items of a list; other values have none. -/
def elements : Datum → List Datum
  | .list items => items
  | _ => []

theorem IsMapping.mapping (entries : List (Scalar × Datum)) : (Datum.mapping entries).IsMapping :=
  ⟨entries, rfl⟩

theorem IsTextual.isGiven_iff {d : Datum} (h : d.IsTextual) : d.isGiven = true ↔ d.IsName := by
  constructor
  · intro hgiven
    obtain ⟨s, rfl⟩ := h hgiven
    refine ⟨s, ?_, rfl⟩
    rintro rfl
    cases hgiven
  · rintro ⟨s, hs, rfl⟩
    simpa [isGiven, Scalar.isGiven] using hs

theorem IsTextual.text (s : String) : (Datum.text s).IsTextual := fun _ => ⟨s, rfl⟩

theorem IsTextual.null : Datum.null.IsTextual := nofun

theorem IsListOf.null (shaped : Datum → Prop) : Datum.null.IsListOf shaped := nofun

theorem IsListOf.singleton {shaped : Datum → Prop} {entries : List (Scalar × Datum)}
    (h : shaped (.mapping entries)) : (Datum.list [.mapping entries]).IsListOf shaped := by
  intro _
  refine ⟨_, rfl, fun x hx => ?_⟩
  obtain rfl := List.mem_singleton.mp hx
  exact ⟨.mapping entries, h⟩

theorem elements_of_not_given {d : Datum} (h : d.isGiven = false) : d.elements = [] := by
  cases d with
  | scalar s => rfl
  | mapping entries => rfl
  | list items => simpa [isGiven, elements] using h

theorem get?_of_not_given {d : Datum} (h : d.isGiven = false) (key : String) : d.get? key = none := by
  cases d with
  | scalar s => rfl
  | list items => rfl
  | mapping entries =>
    have hnone : entries = [] := by simpa [isGiven] using h
    rw [hnone]
    rfl

end Datum

/-! ### Deciding -/

/-- A reading has a value where the proposition holds, and finds a broken rule where it does not. -/
def Reading.Decides {α : Type} (r : Reading α) (P : Prop) : Prop :=
  ((∃ a, r = .ok a) ∧ P) ∨ ((∃ rule, r = .error (.invalid rule)) ∧ ¬ P)

namespace Reading.Decides

variable {α β : Type} {P Q : Prop} {r : Reading α} {f : α → Reading β}

theorem ok (a : α) (h : P) : Decides (.ok a : Reading α) P := .inl ⟨⟨a, rfl⟩, h⟩

theorem invalid (rule : Invalid) (h : ¬ P) : Decides (.error (.invalid rule) : Reading α) P :=
  .inr ⟨⟨rule, rfl⟩, h⟩

theorem congr (h : r.Decides P) (hiff : P ↔ Q) : r.Decides Q := by
  rcases h with ⟨hok, hP⟩ | ⟨hinvalid, hP⟩
  · exact .inl ⟨hok, hiff.mp hP⟩
  · exact .inr ⟨hinvalid, fun hQ => hP (hiff.mpr hQ)⟩

/-- There is a value exactly where the proposition holds. -/
theorem ok_iff (h : r.Decides P) : (∃ a, r = .ok a) ↔ P := by
  rcases h with ⟨hok, hP⟩ | ⟨⟨rule, hrule⟩, hP⟩
  · exact iff_of_true hok hP
  · refine iff_of_false ?_ hP
    rintro ⟨a, ha⟩
    cases hrule.symm.trans ha

/-- Where there is no value, a rule is broken. -/
theorem exists_rule (h : r.Decides P) (hP : ¬ P) : ∃ rule, r = .error (.invalid rule) := by
  rcases h with ⟨-, hP'⟩ | ⟨hrule, -⟩
  · exact absurd hP' hP
  · exact hrule

theorem bind (hr : r.Decides P) (hf : ∀ a, r = .ok a → (f a).Decides Q) :
    Decides (r >>= f) (P ∧ Q) := by
  rcases hr with ⟨⟨a, rfl⟩, hP⟩ | ⟨⟨rule, rfl⟩, hP⟩
  · exact (hf a rfl).congr (and_iff_right hP).symm
  · exact invalid rule fun h => hP h.1

theorem done (a : α) : Decides (pure a : Reading α) True := .ok a trivial

/-- What follows decides nothing more. -/
theorem bind_free (hr : r.Decides P) (hf : ∀ a, r = .ok a → (f a).Decides True) :
    Decides (r >>= f) P :=
  (hr.bind hf).congr (and_iff_left trivial)

theorem mapM {f : β → Reading α} {P : β → Prop} {xs : List β} (h : ∀ x ∈ xs, (f x).Decides (P x)) :
    Decides (xs.mapM f) (∀ x ∈ xs, P x) := by
  induction xs with
  | nil => exact ok [] fun x hx => absurd hx List.not_mem_nil
  | cons x rest ih =>
    have hfirst := h x List.mem_cons_self
    have hrest := ih fun y hy => h y (List.mem_cons_of_mem x hy)
    rw [List.mapM_cons]
    refine (hfirst.bind fun b _ => hrest.bind_free fun bs _ => done (b :: bs)).congr ?_
    rw [List.forall_mem_cons]

end Reading.Decides

namespace Manifest

open Reading (Decides)

variable {α β : Type} {P : Prop} {d : Datum} {key : String}

/-! ### Members -/

theorem member?_eq (h : d.IsMapping) : member? key d = .ok (d.get? key) := by
  obtain ⟨entries, rfl⟩ := h
  rfl

/-- Only mappings have members. -/
theorem isMapping_of_member? {v : Option Datum} (h : member? key d = .ok v) : d.IsMapping := by
  cases d with
  | mapping entries => exact .mapping entries
  | scalar s => cases h
  | list xs => cases h

theorem isMapping_of_memberOr {missing v : Datum} (h : memberOr missing key d = .ok v) :
    d.IsMapping := by
  cases d with
  | mapping entries => exact .mapping entries
  | scalar s => cases h
  | list xs => cases h

theorem memberOr_eq (h : d.IsMapping) (missing : Datum) :
    memberOr missing key d = .ok ((d.get? key).getD missing) := by
  rw [memberOr, member?_eq h]
  rfl

theorem member_eq (h : d.IsMapping) : member key d = .ok (d.valueAt key) := memberOr_eq h .null

/-- A section that says nothing has no members. -/
theorem part_eq (h : d.IsMapping) (hsection : (d.valueAt key).IsSection) :
    ∃ s, part key d = .ok s ∧ s.IsMapping ∧ ∀ k, s.valueAt k = (d.valueAt key).valueAt k := by
  rw [part, member_eq h]
  cases hgiven : (d.valueAt key).isGiven with
  | true => exact ⟨d.valueAt key, by simp [Except.map, hgiven], hsection hgiven, fun _ => rfl⟩
  | false =>
    refine ⟨.mapping [], by simp [Except.map, hgiven], .mapping [], fun k => ?_⟩
    rw [Datum.valueAt, Datum.valueAt, Datum.get?_of_not_given hgiven]
    rfl

/-- The value that was read is the one that stands there. -/
theorem member_eq_ok {v : Datum} (h : member key d = .ok v) : v = d.valueAt key := by
  cases d with
  | mapping entries => cases h; rfl
  | scalar s => cases h
  | list xs => cases h

/-- Reading a member of a mapping decides nothing. -/
theorem member_bind (h : d.IsMapping) {f : Datum → Reading β} (hf : (f (d.valueAt key)).Decides P) :
    Decides (member key d >>= f) P := by
  rw [member_eq h]
  exact hf

theorem memberOr_bind (h : d.IsMapping) {missing : Datum} {f : Datum → Reading β}
    (hf : (f ((d.get? key).getD missing)).Decides P) : Decides (memberOr missing key d >>= f) P := by
  rw [memberOr_eq h]
  exact hf

/-! ### Values -/

/-- A required text is there and is not empty. -/
theorem required_eq_ok {rule : Invalid} {s : String} (h : required rule d = .ok s) :
    s ≠ "" ∧ d = .text s := by
  unfold required at h
  by_cases hgiven : d.isGiven = true
  · rw [if_pos hgiven] at h
    split at h
    · cases h
      refine ⟨?_, rfl⟩
      rintro rfl
      cases hgiven
    · cases h
  · rw [if_neg hgiven] at h
    cases h

theorem required_decides (rule : Invalid) (h : d.IsTextual) :
    (required rule d).Decides d.IsName := by
  unfold required
  by_cases hgiven : d.isGiven = true
  · obtain ⟨s, rfl⟩ := h hgiven
    rw [if_pos hgiven]
    exact .ok s (h.isGiven_iff.mp hgiven)
  · rw [if_neg hgiven]
    exact .invalid rule fun hname => hgiven (h.isGiven_iff.mpr hname)

theorem optional_decides (h : d.IsTextual) : (optional d).Decides True := by
  unfold optional
  by_cases hgiven : d.isGiven = true
  · obtain ⟨s, rfl⟩ := h hgiven
    rw [if_pos hgiven]
    exact .ok s trivial
  · rw [if_neg hgiven]
    exact .ok "" trivial

theorem choice_decides (what : String) (choices : List (String × α)) (d : Datum) :
    (choice what choices d).Decides (∃ c ∈ choices, d = .text c.1) := by
  by_cases htext : ∃ s, d = .text s
  · obtain ⟨s, rfl⟩ := htext
    cases hfind : choices.find? fun c => c.1 == s with
    | some c =>
      obtain rfl : c.1 = s := by simpa using List.find?_some hfind
      have hchoice : choice what choices (.text c.1) = .ok c.2 := by simp [choice, hfind]
      rw [hchoice]
      exact .ok c.2 ⟨c, List.mem_of_find?_eq_some hfind, rfl⟩
    | none =>
      have hchoice : choice what choices (.text s) =
          .error (.invalid (.choice what (.text s) (choices.map Prod.fst))) := by
        simp [choice, hfind]
      rw [hchoice]
      refine .invalid _ ?_
      rintro ⟨c, hc, heq⟩
      obtain rfl : s = c.1 := by simpa using heq
      exact List.find?_eq_none.mp hfind c hc (beq_self_eq_true _)
  · have hnone : ¬ ∃ c ∈ choices, d = .text c.1 := fun ⟨c, _, hc⟩ => htext ⟨c.1, hc⟩
    unfold choice
    split
    · exact absurd ⟨_, rfl⟩ htext
    · exact .invalid _ hnone

/-- A member that names one of the choices; a missing one names none, as no choice has the empty
    name. -/
theorem exists_choice_iff {name : α → String} {all : List α} (hall : ∀ a, a ∈ all)
    (hname : ∀ a, name a ≠ "") :
    (∃ c ∈ all.map fun a => (name a, a), (d.get? key).getD (.text "") = .text c.1) ↔
      ∃ a, d.valueAt key = .text (name a) := by
  have hdefault : ∀ a, (d.get? key).getD (.text "") = .text (name a) ↔
      d.valueAt key = .text (name a) := by
    intro a
    rw [Datum.valueAt]
    cases d.get? key with
    | some v => rfl
    | none => simp [(hname a).symm]
  simp [hall, hdefault]

/-- A count, or null. -/
def IsCount (d : Datum) : Prop := d = .null ∨ ∃ n : Nat, d = .int n

theorem count?_decides (what : String) (d : Datum) : (count? what d).Decides (IsCount d) := by
  unfold count?
  split
  · exact .ok none (.inl rfl)
  · rename_i n
    by_cases hn : n < 0
    · rw [if_pos hn]
      refine .invalid _ ?_
      rintro (h | ⟨m, hm⟩)
      · cases h
      · cases hm
        omega
    · rw [if_neg hn]
      refine .ok _ (.inr ⟨n.toNat, ?_⟩)
      rw [Int.toNat_of_nonneg (by omega)]
  · rename_i hnull hint
    refine .invalid _ ?_
    rintro (rfl | ⟨n, rfl⟩)
    · exact hnull rfl
    · exact hint _ rfl

/-- What was read as a count is what stands there. -/
theorem count?_eq_ok {what : String} {b : Option Nat} (h : count? what d = .ok b) :
    d = b.elim .null fun n => .int n := by
  unfold count? at h
  split at h
  · cases h
    rfl
  · rename_i i
    by_cases hi : i < 0
    · rw [if_pos hi] at h
      cases h
    · rw [if_neg hi] at h
      cases h
      rw [Option.elim_some, Int.toNat_of_nonneg (by omega)]
  · cases h

/-- A timestamp, or nothing that is said. -/
def IsTime (d : Datum) : Prop :=
  d = .null ∨ d = .text "" ∨ (∃ t, d = .scalar (.stamp t)) ∨
    ∃ s m, d = .text s ∧ Calendar.Moment.read? s = some m

theorem timestamp?_decides (d : Datum) : (timestamp? d).Decides (IsTime d) := by
  unfold timestamp?
  split
  · exact .ok none (.inl rfl)
  · rename_i t
    exact .ok _ (.inr (.inr (.inl ⟨t, rfl⟩)))
  · rename_i s
    by_cases hempty : s.isEmpty = true
    · rw [if_pos hempty]
      obtain rfl : s = "" := by simpa using hempty
      exact .ok none (.inr (.inl rfl))
    · rw [if_neg hempty]
      cases hread : Calendar.Moment.read? s with
      | some m => exact .ok _ (.inr (.inr (.inr ⟨s, m, rfl, hread⟩)))
      | none =>
        refine .invalid _ ?_
        rintro (h | h | ⟨t, h⟩ | ⟨u, m, h, hm⟩)
        · cases h
        · cases h
          exact hempty rfl
        · cases h
        · cases h
          cases hread.symm.trans hm
  · rename_i hnull hstamp htext
    refine .invalid _ ?_
    rintro (rfl | rfl | ⟨t, rfl⟩ | ⟨s, m, rfl, -⟩)
    · exact hnull rfl
    · exact htext _ rfl
    · exact hstamp t rfl
    · exact htext s rfl

/-! ### Lists -/

variable {shaped : Datum → Prop}

theorem items_eq (h : d.IsListOf shaped) : items d = .ok d.elements := by
  rw [items]
  cases hgiven : d.isGiven with
  | true =>
    obtain ⟨xs, rfl, -⟩ := h hgiven
    rfl
  | false => simp [Datum.elements_of_not_given hgiven]

theorem shaped_of_mem (h : d.IsListOf shaped) : ∀ x ∈ d.elements, x.IsMapping ∧ shaped x := by
  intro x hx
  cases hgiven : d.isGiven with
  | true =>
    obtain ⟨xs, rfl, hxs⟩ := h hgiven
    exact hxs x hx
  | false =>
    rw [Datum.elements_of_not_given hgiven] at hx
    cases hx

theorem each_eq {read : Datum → Reading α} (hd : d.IsMapping) (h : (d.valueAt key).IsListOf shaped) :
    each read key d = (d.valueAt key).elements.mapM read := by
  rw [each, member_eq hd]
  exact congrArg (· >>= fun xs => xs.mapM read) (items_eq h)

/-- The items of a list decide together. -/
theorem items_decide {read : Datum → Reading α} {sound : Datum → Prop}
    (hread : ∀ x, x.IsMapping → shaped x → (read x).Decides (sound x)) (h : d.IsListOf shaped) :
    Decides (do (← items d).mapM read) (∀ x ∈ d.elements, sound x) := by
  rw [items_eq h]
  refine Decides.mapM fun x hx => ?_
  obtain ⟨hmapping, hshaped⟩ := shaped_of_mem h x hx
  exact hread x hmapping hshaped

theorem each_decides {read : Datum → Reading α} {sound : Datum → Prop}
    (hread : ∀ x, x.IsMapping → shaped x → (read x).Decides (sound x)) (hd : d.IsMapping)
    (h : (d.valueAt key).IsListOf shaped) :
    (each read key d).Decides (∀ x ∈ (d.valueAt key).elements, sound x) :=
  member_bind hd (items_decide hread h)

end Manifest

end FleetLabels
