import FleetLabels.Proofs.RoundTrip
import FleetLabels.Proofs.Selection

/-!
    The counts that constraints allow.

    The bounds that are stated are compared when a constraint is made. The minimum that stands for a
    missing one comes in later, when resources are counted, and is compared with nothing. So a constraint
    that is made allows some count, unless it states the maximum 0 and no minimum (`Constraint.Barred`).
    Bounds that leave no count in any other way are refused, wherever the constraint is made from. -/

namespace FleetLabels

namespace Constraint

variable {c : Constraint}

/-! ### Counts between two bounds -/

/-- At most no resource is wanted, and no minimum is stated. -/
def Barred (c : Constraint) : Prop := c.minCount = none ∧ c.maxCount = some 0

instance (c : Constraint) : Decidable c.Barred := inferInstanceAs (Decidable (_ ∧ _))

/-- If any count is allowed, the least one is. -/
theorem exists_allows_iff :
    (∃ n, c.allows n = true) ↔ ∀ m, c.maxCount = some m → c.effectiveMin ≤ m := by
  simp only [allows_iff, effectiveMin]
  constructor
  · rintro ⟨n, hlow, hhigh⟩ m hm
    exact hlow.trans (hhigh m hm)
  · intro h
    exact ⟨_, le_rfl, h⟩

/-- With stated bounds in order, only the minimum that is not stated may exceed the maximum. -/
theorem effectiveMin_le_iff (h : ∀ m n, c.minCount = some m → c.maxCount = some n → m ≤ n) :
    (∀ m, c.maxCount = some m → c.effectiveMin ≤ m) ↔ ¬ c.Barred := by
  rw [effectiveMin, Barred]
  cases hlow : c.minCount with
  | none =>
    cases hhigh : c.maxCount with
    | none => simp
    | some n => simp [Nat.one_le_iff_ne_zero]
  | some m => simpa using fun n => h m n hlow

/-- A constraint that allows no count is satisfied by no listing. -/
theorem not_satisfied (h : ∀ n, c.allows n = false) {e : Evaluator} {items : List Listed}
    {x : ConstraintResult} {calls : List ScriptCall} (heval : e.evaluate c items = .ok (x, calls)) :
    x.satisfied = false := by
  obtain ⟨⟨found, asked⟩, -, heval⟩ := Attempt.of_bind_eq_ok heval
  cases found with
  | ok rs =>
    cases heval
    exact h rs.length
  | error f =>
    cases heval
    rfl

/-! ### Making constraints -/

namespace Fields

/-- The manifest that states the fields. -/
def manifest (f : Fields) : Datum :=
  .mapping [(.text "group", f.group), (.text "version", f.version), (.text "kind", f.kind),
    (.text "namespace", f.space), (.text "labelFilters", f.labelFilters),
    (.text "fieldFilters", f.fieldFilters), (.text "minCount", f.minCount),
    (.text "maxCount", f.maxCount), (.text "script", f.script)]

theorem ofManifest_manifest (f : Fields) : ofManifest f.manifest = .ok f := rfl

/-- The fields state a minimum and a maximum, or leave them out. -/
def States (f : Fields) (low high : Option Int) : Prop :=
  f.minCount = low.elim .null .int ∧ f.maxCount = high.elim .null .int

/-- The bounds that were read are the stated ones. -/
theorem counts_of_bounds {f : Fields} {low high : Option Nat} (h : f.bounds = .ok (low, high)) :
    f.States (low.map Int.ofNat) (high.map Int.ofNat) := by
  obtain ⟨a, ha, h⟩ := Attempt.of_bind_eq_ok h
  obtain ⟨b, hb, h⟩ := Attempt.of_bind_eq_ok h
  have hboth : (a, b) = (low, high) := by
    split at h
    · split at h
      · cases h
      · exact Except.ok.inj h
    · exact Except.ok.inj h
  cases hboth
  rw [States, Manifest.count?_eq_ok ha, Manifest.count?_eq_ok hb]
  cases low <;> cases high <;> exact ⟨rfl, rfl⟩

theorem States.unique {f : Fields} {low high low' high' : Option Int} (h : f.States low high)
    (h' : f.States low' high') : low = low' ∧ high = high' := by
  have hinj : ∀ {a b : Option Int}, a.elim .null .int = b.elim Datum.null .int → a = b := by
    rintro (_ | a) (_ | b) hab <;> cases hab <;> rfl
  exact ⟨hinj (h.1.symm.trans h'.1), hinj (h.2.symm.trans h'.2)⟩

end Fields

/-- The two ways in which fields become a constraint: they are put together, or read from a manifest
    that has them. -/
inductive Made (f : Fields) : Reading Constraint → Prop where
  | assembled : Made f (ofFields f)
  | read {d : Datum} (h : Fields.ofManifest d = .ok f) : Made f (ofManifest d)

variable {f : Fields} {r : Reading Constraint}

theorem ofFields_decides (h : Shaped f.manifest) : (ofFields f).Decides (Sound f.manifest) := by
  unfold ofFields
  refine ((Fields.scope_decides h.group h.version h.kind h.space).bind
    fun _ _ => (Manifest.optional_decides h.script).bind
    fun _ _ => (Fields.labels_decide h.labelFilters).bind
    fun _ _ => (Fields.fields_decide h.fieldFilters).bind
    fun _ _ => Fields.bounds_decides.bind_free fun _ _ => .done _).congr ?_
  constructor
  · rintro ⟨⟨hkind, hversion⟩, -, hlabels, hfields, hmin, hmax, hordered⟩
    exact ⟨hkind, hversion, hlabels, hfields, hmin, hmax, hordered⟩
  · intro hsound
    exact ⟨⟨hsound.kind, hsound.version⟩, trivial, hsound.labelFilters, hsound.fieldFilters,
      hsound.minCount, hsound.maxCount, hsound.ordered⟩

/-- Both ways decide the same about the fields. -/
theorem Made.decides (hmade : Made f r) (h : Shaped f.manifest) : r.Decides (Sound f.manifest) := by
  cases hmade with
  | assembled => exact ofFields_decides h
  | @read d hf =>
    have hsame : ofManifest d = ofManifest f.manifest := by
      rw [ofManifest, hf, ofManifest, Fields.ofManifest_manifest]
    rw [hsame]
    exact ofManifest_decides (.mapping _) h

/-- What is read from a manifest is what its fields are put together to. -/
theorem Made.ofFields_eq_ok (hmade : Made f r) (hr : r = .ok c) : ofFields f = .ok c := by
  cases hmade with
  | assembled => exact hr
  | read hf =>
    obtain ⟨other, hother, h⟩ := Attempt.of_bind_eq_ok hr
    cases hf.symm.trans hother
    obtain ⟨_, hlabels, h⟩ := Attempt.of_bind_eq_ok h
    obtain ⟨_, hfields, h⟩ := Attempt.of_bind_eq_ok h
    obtain ⟨_, hscope, h⟩ := Attempt.of_bind_eq_ok h
    obtain ⟨_, hscript, hbounds⟩ := Attempt.of_bind_eq_ok h
    exact Attempt.bind_eq_ok hscope (Attempt.bind_eq_ok hscript
      (Attempt.bind_eq_ok hlabels (Attempt.bind_eq_ok hfields hbounds)))

/-- Either way the bounds are those that the fields state. -/
theorem Made.bounds (hmade : Made f r) (hr : r = .ok c) : f.bounds = .ok (c.minCount, c.maxCount) := by
  obtain ⟨_, -, h⟩ := Attempt.of_bind_eq_ok (hmade.ofFields_eq_ok hr)
  obtain ⟨_, -, h⟩ := Attempt.of_bind_eq_ok h
  obtain ⟨_, -, h⟩ := Attempt.of_bind_eq_ok h
  obtain ⟨_, -, h⟩ := Attempt.of_bind_eq_ok h
  obtain ⟨bounds, hbounds, h⟩ := Attempt.of_bind_eq_ok h
  cases h
  exact hbounds

theorem Made.exists_allows_iff (hmade : Made f r) (hr : r = .ok c) :
    (∃ n, c.allows n = true) ↔ ¬ c.Barred := by
  rw [Constraint.exists_allows_iff, effectiveMin_le_iff (Fields.bounds_eq_ok (hmade.bounds hr))]

/-- Stated bounds that leave no count make no constraint, but for the maximum 0 alone. -/
theorem Made.ne_ok (hmade : Made f r) {low high : Option Int} (h : f.States low high)
    (hnone : ∀ n : Nat, withinBounds n (low.getD 1) high = false)
    (hbar : ¬ (low = none ∧ high = some 0)) : r ≠ .ok c := by
  intro hr
  -- what is stated is what the constraint was made with
  obtain ⟨rfl, rfl⟩ := h.unique (Fields.counts_of_bounds (hmade.bounds hr))
  have hallows : ∀ n, c.allows n = false := by
    intro n
    rw [← hnone n, allows, effectiveMin]
    cases c.minCount <;> cases c.maxCount <;> rfl
  refine mt (hmade.exists_allows_iff hr).mpr (by simp [hallows]) fun hbarred => ?_
  exact hbar (by simp [hbarred.1, hbarred.2])

/-- However it is made, a constraint allows some count, and its minimum is not above its maximum,
    unless it states the maximum 0 and no minimum; then nothing satisfies it. Whole numbers that leave no
    count in another way make no constraint, and where the fields have the right shape a broken rule
    is found. -/
theorem allows_some_unless_barred (hmade : Made f r) :
    (∀ c, r = .ok c →
      ((∃ n, c.allows n = true) ↔ ¬ c.Barred) ∧
      ((∀ m, c.maxCount = some m → c.effectiveMin ≤ m) ↔ ¬ c.Barred) ∧
      (c.Barred → ∀ (e : Evaluator) items x calls, e.evaluate c items = .ok (x, calls) →
        x.satisfied = false)) ∧
    ∀ low high, f.States low high → (∀ n : Nat, withinBounds n (low.getD 1) high = false) →
      ¬ (low = none ∧ high = some 0) →
      (∀ c, r ≠ .ok c) ∧ (Shaped f.manifest → ∃ rule, r = .error (.invalid rule)) := by
  constructor
  · intro c hr
    have hallows := hmade.exists_allows_iff hr
    refine ⟨hallows, ?_, fun hbarred e items x calls => not_satisfied ?_⟩
    · rw [← Constraint.exists_allows_iff, hallows]
    · simpa using mt hallows.mp (not_not.mpr hbarred)
  · intro low high hstates hnone hbar
    have hrefused : ∀ c, r ≠ .ok c := fun c => hmade.ne_ok hstates hnone hbar
    refine ⟨hrefused, fun hshaped => ?_⟩
    have hdecides := hmade.decides hshaped
    refine hdecides.exists_rule fun hsound => ?_
    obtain ⟨c, hc⟩ := hdecides.ok_iff.mpr hsound
    exact hrefused c hc

end Constraint

namespace Sample

/-- Asks for pods, between two bounds. -/
def podCount (minCount maxCount : Datum) : Constraint.Fields :=
  ⟨.null, .text "v1", .text "Pod", .null, .null, .null, minCount, maxCount, .null⟩

/-- Wants at most no pod, and says nothing about the least. -/
def podless : Constraint := ⟨⟨"", "v1", "Pod", ""⟩, [], [], none, some 0, ""⟩

theorem podCount_shaped (minCount maxCount : Datum) :
    Constraint.Shaped (podCount minCount maxCount).manifest where
  group := .null
  version := .text "v1"
  kind := .text "Pod"
  space := .null
  labelFilters := .null _
  fieldFilters := .null _
  script := .null

end Sample

open Sample in
/-- With the maximum 0 and no minimum both ways make a constraint, which allows no count. -/
theorem podless_made_and_unsatisfiable :
    Constraint.ofFields (podCount .null (.int 0)) = .ok podless ∧
      Constraint.ofManifest (podCount .null (.int 0)).manifest = .ok podless ∧
      (podCount .null (.int 0)).States none (some 0) ∧ podless.maxCount = some 0 ∧
      podless.effectiveMin = 1 ∧ ∀ n, podless.allows n = false := by
  refine ⟨rfl, rfl, ⟨rfl, rfl⟩, rfl, rfl, fun n => ?_⟩
  rw [← Bool.not_eq_true, Constraint.allows_iff]
  rintro ⟨hlow, hhigh⟩
  exact absurd (hlow.trans (hhigh 0 rfl)) (by decide)

open Sample in
/-- With the minimum 0 beside it the maximum 0 allows a count, and below the minimum 2 it is refused. -/
theorem podCount_allows_or_refused :
    (∃ c n, Constraint.ofManifest (podCount (.int 0) (.int 0)).manifest = .ok c ∧
      c.allows n = true) ∧
    (∃ rule, Constraint.ofFields (podCount (.int 2) (.int 0)) = .error (.invalid rule)) := by
  have hread := Constraint.Made.read (Constraint.Fields.ofManifest_manifest (podCount (.int 0) (.int 0)))
  obtain ⟨hmade, -⟩ := Constraint.allows_some_unless_barred hread
  obtain ⟨hallows, -⟩ := hmade ⟨⟨"", "v1", "Pod", ""⟩, [], [], some 0, some 0, ""⟩ rfl
  obtain ⟨n, hn⟩ := hallows.mpr (by decide)
  have hassembled := Constraint.Made.assembled (f := podCount (.int 2) (.int 0))
  obtain ⟨-, hrefused⟩ := Constraint.allows_some_unless_barred hassembled
  have hnone : ∀ n : Nat, withinBounds n 2 (some 0) = false := by
    intro n
    simp only [withinBounds, Option.all_some, Bool.and_eq_false_iff, decide_eq_false_iff_not]
    omega
  obtain ⟨-, hrule⟩ := hrefused (some 2) (some 0) ⟨rfl, rfl⟩ hnone (by simp)
  exact ⟨⟨_, n, rfl, hn⟩, hrule (podCount_shaped _ _)⟩

end FleetLabels
