import FleetLabels.Proofs.Attempt
import FleetLabels.Proofs.Table
import Mathlib.Data.List.Perm.Basic

/-!
    Tables that are filled from the members of a list.

    Each member has a list of entries, and what the members have together is one list after the other.
    When a step puts the entries of a member behind those of a table, or fails where a key would come
    twice, then so do the steps for a whole list with what its members have together
    (`Table.Appends.run`). In another order the members have the same entries in another order. -/

namespace FleetLabels

/-! ### What the members of a list have together -/

section Together

variable {α β γ : Type} {R : β → List γ → Prop} {as bs : List β} {es : List γ}

/-- What the members of a list have, one behind the other. -/
def Together (R : β → List γ → Prop) (bs : List β) (es : List γ) : Prop :=
  ∃ ess, List.Forall₂ R bs ess ∧ es = ess.flatten

theorem together_nil : Together R [] es ↔ es = [] := by
  constructor
  · rintro ⟨_, hR, rfl⟩
    cases hR
    rfl
  · rintro rfl
    exact ⟨[], .nil, rfl⟩

theorem together_cons {b : β} :
    Together R (b :: bs) es ↔ ∃ ds fs, R b ds ∧ Together R bs fs ∧ es = ds ++ fs := by
  constructor
  · rintro ⟨_, hR, rfl⟩
    obtain ⟨ds, ess, hb, hbs, rfl⟩ := List.forall₂_cons_left_iff.mp hR
    exact ⟨ds, _, hb, ⟨ess, hbs, rfl⟩, rfl⟩
  · rintro ⟨ds, _, hb, ⟨ess, hbs, rfl⟩, rfl⟩
    exact ⟨ds :: ess, .cons hb hbs, rfl⟩

theorem together_append :
    Together R (as ++ bs) es ↔ ∃ ds fs, Together R as ds ∧ Together R bs fs ∧ es = ds ++ fs := by
  induction as generalizing es with
  | nil => simp [together_nil]
  | cons a rest ih =>
    simp only [List.cons_append, together_cons, ih]
    constructor
    · rintro ⟨ds, _, ha, ⟨fs, gs, hrest, hbs, rfl⟩, rfl⟩
      exact ⟨_, gs, ⟨ds, fs, ha, hrest, rfl⟩, hbs, (List.append_assoc ds fs gs).symm⟩
    · rintro ⟨_, gs, ⟨ds, fs, ha, hrest, rfl⟩, hbs, rfl⟩
      exact ⟨ds, _, ha, ⟨fs, gs, hrest, hbs, rfl⟩, List.append_assoc ds fs gs⟩

/-- What the members of several lists have list by list, they have altogether. -/
theorem together_flatMap {f : α → List β} {xs : List α} :
    Together (fun x => Together R (f x)) xs es ↔ Together R (xs.flatMap f) es := by
  induction xs generalizing es with
  | nil => rw [List.flatMap_nil, together_nil, together_nil]
  | cons x rest ih => simp only [together_cons, ih, List.flatMap_cons, together_append]

/-- In another order, the members have the same things in another order. -/
theorem Together.of_perm (h : Together R as es) (hperm : as.Perm bs) :
    ∃ fs, Together R bs fs ∧ fs.Perm es := by
  obtain ⟨ess, hR, rfl⟩ := h
  obtain ⟨fss, hR', hperm'⟩ := List.perm_comp_forall₂ hperm.symm hR
  exact ⟨_, ⟨fss, hR', rfl⟩, hperm'.flatten⟩

end Together

/-! ### Tables that are filled step by step -/

namespace Table

variable {α β ε : Type}

/-- A step that puts what a member has behind the entries of a table, unless a key would come twice. -/
def Appends (step : Table String α → β → Except ε (Table String α))
    (R : β → List (String × α) → Prop) : Prop :=
  ∀ found b t, found.keys.Nodup →
    (step found b = .ok t ↔ ∃ es, R b es ∧ t.entries = found.entries ++ es ∧ t.keys.Nodup)

/-- An entry that is set unless its key is known comes behind those of the table. -/
theorem setNew_eq_ok_iff {found t : Table String α} (hfound : found.keys.Nodup) (key : String) (a : α)
    (known : ε) :
    (if found.contains key then .error known else .ok (found.set key a)) = Except.ok t ↔
      t.entries = found.entries ++ [(key, a)] ∧ t.keys.Nodup := by
  split
  · rename_i hknown
    refine iff_of_false nofun ?_
    rintro ⟨hentries, ht⟩
    exact (nodup_keys_iff_of_entries hentries hfound).mp ht (mem_keys_iff.mpr hknown)
  · rename_i hknown
    have hentries := entries_set_of_new (fun hmem => hknown (mem_keys_iff.mp hmem)) a
    constructor
    · intro heq
      cases heq
      exact ⟨hentries, nodup_keys_set hfound _ _⟩
    · rintro ⟨heq, -⟩
      exact congrArg Except.ok (congrArg Table.mk (hentries.trans heq.symm))

/-- Such steps one after the other put what the members have together behind the entries. -/
theorem Appends.run {step : Table String α → β → Except ε (Table String α)}
    {R : β → List (String × α) → Prop} (h : Appends step R) :
    Appends (fun found bs => bs.foldlM step found) (Together R) := by
  -- by induction on the members, for all tables that they can find: of these only the keys matter
  intro found bs t hfound
  change bs.foldlM step found = .ok t ↔ _
  induction bs generalizing found with
  | nil =>
    simp only [List.foldlM_nil, together_nil, exists_eq_left, List.append_nil]
    constructor
    · intro heq
      cases heq
      exact ⟨rfl, hfound⟩
    · rintro ⟨heq, -⟩
      exact congrArg Except.ok (congrArg Table.mk heq.symm)
  | cons b rest ih =>
    rw [List.foldlM_cons]
    constructor
    · intro hrun
      obtain ⟨mid, hmid, hrest⟩ := Attempt.of_bind_eq_ok hrun
      obtain ⟨ds, hb, hds, hkeys⟩ := (h found b mid hfound).mp hmid
      obtain ⟨fs, hfs, hentries, ht⟩ := (ih mid hkeys).mp hrest
      refine ⟨ds ++ fs, together_cons.mpr ⟨ds, fs, hb, hfs, rfl⟩, ?_, ht⟩
      rw [hentries, hds, List.append_assoc]
    · rintro ⟨_, hes, hentries, ht⟩
      obtain ⟨ds, fs, hb, hfs, rfl⟩ := together_cons.mp hes
      rw [← List.append_assoc] at hentries
      have hkeys : ((found.entries ++ ds).map (·.1)).Nodup := by
        rw [keys, hentries, List.map_append] at ht
        exact ht.of_append_left
      have hmid := (h found b ⟨found.entries ++ ds⟩ hfound).mpr ⟨ds, hb, rfl, hkeys⟩
      exact Attempt.bind_eq_ok hmid ((ih _ hkeys).mpr ⟨fs, hfs, hentries, ht⟩)

end Table

end FleetLabels
