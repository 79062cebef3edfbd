import FleetLabels.Version.Requirement

/-!
    The order behind the six comparisons of versions.

    Two versions stand to each other as their numbers do, the major one first, and this is a total
    order. A comparison accepts one or two of the three ways to stand to each other; so the comparisons
    fall into three pairs, of which one accepts what the other does not.

    A requirement that cannot be compared is not met, whichever comparison it asks for: there the pairs
    are no complements, for both of a pair fail. -/

namespace FleetLabels

open Std

namespace Version

/-- The order of versions by their numbers. -/
def Less (u v : Version) : Prop :=
  u.major < v.major ∨
    u.major = v.major ∧ (u.minor < v.minor ∨ u.minor = v.minor ∧ u.patch < v.patch)

instance : TransCmp compare :=
  inferInstanceAs (TransCmp (compareLex (compareOn Version.major)
    (compareLex (compareOn Version.minor) (compareOn Version.patch))))

theorem compare_eq_lt_iff {u v : Version} : u.compare v = .lt ↔ u.Less v := by
  simp only [compare, Less, Ordering.then_eq_lt, Nat.compare_eq_lt, Nat.compare_eq_eq]

theorem compare_eq_eq_iff {u v : Version} : u.compare v = .eq ↔ u = v := by
  obtain ⟨M, m, p⟩ := u
  obtain ⟨N, n, q⟩ := v
  simp only [compare, Ordering.then_eq_eq, Nat.compare_eq_eq, mk.injEq]

end Version

namespace Comparison

/-- The comparison that accepts what this one does not. -/
def complement : Comparison → Comparison
  | .equal => .notEqual
  | .notEqual => .equal
  | .greater => .atMost
  | .atMost => .greater
  | .less => .atLeast
  | .atLeast => .less

theorem accepts_complement (c : Comparison) (o : Ordering) :
    c.complement.accepts o = !c.accepts o := by
  cases c <;> cases o <;> rfl

/-- The comparison that accepts a single way to stand to each other. -/
def exactly : Ordering → Comparison
  | .lt => .less
  | .eq => .equal
  | .gt => .greater

theorem accepts_exactly (o p : Ordering) : (exactly o).accepts p = (p == o) := by
  cases o <;> rfl

theorem holds_of_ok {c : Comparison} {x y : Datum} {u v : Version} (hx : Version.ofDatum x = .ok u)
    (hy : Version.ofDatum y = .ok v) : c.holds x y = .ok (c.accepts (u.compare v)) := by
  rw [holds, hx, hy]
  rfl

/-- The first value that names no version is the one that is complained of. -/
theorem holds_eq_error {x y : Datum}
    (h : ∀ u v, ¬ (Version.ofDatum x = .ok u ∧ Version.ofDatum y = .ok v)) :
    ∃ e, (Version.ofDatum x = .error e ∨ Version.ofDatum y = .error e) ∧
      ∀ c : Comparison, c.holds x y = .error e := by
  cases hx : Version.ofDatum x with
  | error e =>
    refine ⟨e, .inl rfl, fun c => ?_⟩
    rw [holds, hx]
    rfl
  | ok u =>
    cases hy : Version.ofDatum y with
    | error e =>
      refine ⟨e, .inr rfl, fun c => ?_⟩
      rw [holds, hx, hy]
      rfl
    | ok v => exact absurd ⟨hx, hy⟩ (h u v)

end Comparison

namespace Requirement

/-- What a cluster reports compares as asked with what is required. A requirement is evaluated so with
    the text that it states. -/
def Meets (c : Comparison) (cluster required : Datum) : Prop :=
  (resultOf c cluster required).satisfied = true

/-- How the comparisons fare between values that name versions. -/
structure Ordered (x y z : Datum) (u v : Version) : Prop where
  one : (Meets .less x y ∧ ¬ Meets .equal x y ∧ ¬ Meets .greater x y) ∨
    (¬ Meets .less x y ∧ Meets .equal x y ∧ ¬ Meets .greater x y) ∨
    (¬ Meets .less x y ∧ ¬ Meets .equal x y ∧ Meets .greater x y)
  swap : Meets .less x y ↔ Meets .greater y x
  less_trans : Meets .less x y → Meets .less y z → Meets .less x z
  equal_trans : Meets .equal x y → Meets .equal y z → Meets .equal x z
  notEqual : Meets .notEqual x y ↔ ¬ Meets .equal x y
  atLeast : Meets .atLeast x y ↔ ¬ Meets .less x y
  atMost : Meets .atMost x y ↔ ¬ Meets .greater x y
  less : Meets .less x y ↔ u.Less v
  equal : Meets .equal x y ↔ u = v
  silent : ∀ c, (resultOf c x y).failure = none

variable {c : Comparison} {x y z : Datum} {u v w : Version}

theorem resultOf_of_ok (hx : Version.ofDatum x = .ok u) (hy : Version.ofDatum y = .ok v) :
    resultOf c x y = ⟨c.accepts (u.compare v), x, none⟩ := by
  rw [resultOf, Comparison.holds_of_ok hx hy]

theorem meets_iff (hx : Version.ofDatum x = .ok u) (hy : Version.ofDatum y = .ok v) :
    Meets c x y ↔ c.accepts (u.compare v) = true := by
  rw [Meets, resultOf_of_ok hx hy]

theorem meets_complement (hx : Version.ofDatum x = .ok u) (hy : Version.ofDatum y = .ok v) :
    Meets c.complement x y ↔ ¬ Meets c x y := by
  rw [meets_iff hx hy, meets_iff hx hy, Comparison.accepts_complement, Bool.not_eq_true',
    Bool.not_eq_true]

theorem meets_exactly (hx : Version.ofDatum x = .ok u) (hy : Version.ofDatum y = .ok v)
    (o : Ordering) : Meets (.exactly o) x y ↔ u.compare v = o := by
  rw [meets_iff hx hy, Comparison.accepts_exactly, beq_iff_eq]

theorem ordered (hx : Version.ofDatum x = .ok u) (hy : Version.ofDatum y = .ok v)
    (hz : Version.ofDatum z = .ok w) : Ordered x y z u v := by
  have hless : Meets .less x y ↔ u.compare v = .lt := meets_exactly hx hy .lt
  have hequal : Meets .equal x y ↔ u.compare v = .eq := meets_exactly hx hy .eq
  have hgreater : Meets .greater x y ↔ u.compare v = .gt := meets_exactly hx hy .gt
  have hyz := meets_exactly hy hz
  have hxz := meets_exactly hx hz
  have hyx := meets_exactly hy hx
  exact {
    one := by
      rw [hless, hequal, hgreater]
      cases u.compare v <;> simp
    swap := hless.trans (OrientedCmp.gt_iff_lt.symm.trans (hyx .gt).symm)
    less_trans := fun h h' => (hxz .lt).mpr (TransCmp.lt_trans (hless.mp h) ((hyz .lt).mp h'))
    equal_trans := fun h h' => (hxz .eq).mpr (TransCmp.eq_trans (hequal.mp h) ((hyz .eq).mp h'))
    notEqual := meets_complement (c := .equal) hx hy
    atLeast := meets_complement (c := .less) hx hy
    atMost := meets_complement (c := .greater) hx hy
    less := hless.trans Version.compare_eq_lt_iff
    equal := hequal.trans Version.compare_eq_eq_iff
    silent := fun c => by rw [resultOf_of_ok hx hy] }

/-- Without two versions no comparison is met, and the same is complained of in each. -/
theorem resultOf_of_error (h : ∀ u v, ¬ (Version.ofDatum x = .ok u ∧ Version.ofDatum y = .ok v)) :
    ∃ e, (Version.ofDatum x = .error e ∨ Version.ofDatum y = .error e) ∧
      ∀ c, resultOf c x y = ⟨false, x, some e.message⟩ := by
  obtain ⟨e, he, hholds⟩ := Comparison.holds_eq_error h
  exact ⟨e, he, fun c => by rw [resultOf, hholds]⟩

theorem not_meets_both (c : Comparison) (x y : Datum) : ¬ (Meets c x y ∧ Meets c.complement x y) := by
  rintro ⟨hmeets, hother⟩
  by_cases h : ∃ u v, Version.ofDatum x = .ok u ∧ Version.ofDatum y = .ok v
  · obtain ⟨u, v, hx, hy⟩ := h
    exact (meets_complement hx hy).mp hother hmeets
  · obtain ⟨e, -, hfails⟩ := resultOf_of_error fun u v huv => h ⟨u, v, huv⟩
    rw [Meets, hfails] at hmeets
    cases hmeets

/-- The comparisons make one total order of the values that name versions, the order of their numbers,
    and none is met where a value names no version. -/
theorem comparisons_ordered_or_failed (x y z : Datum) :
    (∀ u v w, Version.ofDatum x = .ok u → Version.ofDatum y = .ok v → Version.ofDatum z = .ok w →
      Ordered x y z u v) ∧
    ((∀ u v, ¬ (Version.ofDatum x = .ok u ∧ Version.ofDatum y = .ok v)) →
      ∃ e, (Version.ofDatum x = .error e ∨ Version.ofDatum y = .error e) ∧
        ∀ c, resultOf c x y = ⟨false, x, some e.message⟩) ∧
    ∀ c, ¬ (Meets c x y ∧ Meets c.complement x y) :=
  ⟨fun _ _ _ hx hy hz => ordered hx hy hz, resultOf_of_error, fun c => not_meets_both c x y⟩

/-- Versions are compared by their numbers and not as text, and what is no version is like none. -/
theorem nine_before_ten :
    Version.ofDatum (.text "v1.9.0") = .ok ⟨1, 9, 0⟩ ∧
      Version.ofDatum (.text "1.10") = .ok ⟨1, 10, 0⟩ ∧
      Meets .less (.text "v1.9.0") (.text "1.10") ∧
      (∀ u v, ¬ (Version.ofDatum (.text "latest") = .ok u ∧ Version.ofDatum (.text "1.10") = .ok v)) ∧
      ∀ c, ¬ Meets c (.text "latest") (.text "1.10") := by
  have hnine : Version.ofDatum (.text "v1.9.0") = .ok ⟨1, 9, 0⟩ := rfl
  have hten : Version.ofDatum (.text "1.10") = .ok ⟨1, 10, 0⟩ := rfl
  have hnone : ∀ u v,
      ¬ (Version.ofDatum (.text "latest") = .ok u ∧ Version.ofDatum (.text "1.10") = .ok v) := by
    rintro u v ⟨h, -⟩
    cases h
  have hless : Meets .less (.text "v1.9.0") (.text "1.10") :=
    ((comparisons_ordered_or_failed _ _ (.text "1.10")).1 _ _ _ hnine hten hten).less.mpr
      (.inr ⟨rfl, .inl (by decide)⟩)
  obtain ⟨e, -, hfails⟩ :=
    (comparisons_ordered_or_failed (.text "latest") (.text "1.10") (.text "")).2.1 hnone
  refine ⟨hnine, hten, hless, hnone, fun c hmeets => ?_⟩
  rw [Meets, hfails] at hmeets
  cases hmeets

end Requirement

end FleetLabels
