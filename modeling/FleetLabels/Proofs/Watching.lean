import FleetLabels.Proofs.Matches
import FleetLabels.Proofs.Sorting
import Mathlib.Data.String.Basic

/-!
    What event sources find.

    An event source selects what the constraint selects that says the same about scope, labels and script,
    and filters by no field and bounds no count (`EventSource.wanted`). The source allows any count and the
    constraint wants one resource at least, and yet the source has matched something exactly when the
    constraint is satisfied. What a source collects is what the constraint selects, sorted by namespace and
    name (`RememberingEvaluator.watch_agrees`). A runtime that remembers its runs starts
    from the same ones for both. -/

namespace FleetLabels

open Std

/-! ### The constraint behind an event source -/

namespace EventSource

/-- What an event source says about its resources, as a constraint without bounds and field filters. -/
def wanted (s : EventSource) : Constraint where
  scope := s.constraint.scope
  labelFilters := s.constraint.labelFilters
  fieldFilters := []
  minCount := none
  maxCount := none
  script := s.constraint.script

/-- The fields of an event source as those of a constraint that states no bounds. -/
def Fields.unbounded (f : Fields) : Constraint.Fields := { f.selection with minCount := .null }

/-- The two ways in which fields become an event source: they are put together, or read from a manifest
    that has them. -/
inductive Made (f : Fields) : Reading EventSource → Prop where
  | assembled : Made f (ofFields f)
  | read {d : Datum} (h : Fields.ofManifest d = .ok f) : Made f (ofManifest d)

variable {f : Fields} {r : Reading EventSource} {s : EventSource}

/-- What was read from a manifest can be put together. -/
theorem Made.ofFields_eq_ok (hmade : Made f r) (hr : r = .ok s) : ofFields f = .ok s := by
  cases hmade with
  | assembled => exact hr
  | read hf =>
    obtain ⟨other, hother, h⟩ := Attempt.of_bind_eq_ok hr
    cases hf.symm.trans hother
    obtain ⟨_, -, h⟩ := Attempt.of_bind_eq_ok h
    exact h

/-- An event source filters by no field and allows any count, and its fields without bounds make the
    constraint that it says the same as. -/
theorem Made.selects (hmade : Made f r) (hr : r = .ok s) :
    s.constraint = { s.wanted with minCount := some 0 } ∧
      Constraint.ofFields f.unbounded = .ok s.wanted := by
  obtain ⟨name, -, h⟩ := Attempt.of_bind_eq_ok (hmade.ofFields_eq_ok hr)
  obtain ⟨c, hc, h⟩ := Attempt.of_bind_eq_ok h
  cases h
  obtain ⟨scope, hscope, hc⟩ := Attempt.of_bind_eq_ok hc
  obtain ⟨script, hscript, hc⟩ := Attempt.of_bind_eq_ok hc
  obtain ⟨labels, hlabels, hc⟩ := Attempt.of_bind_eq_ok hc
  -- no field filters are stated, and the bounds are those of every event source
  cases hc
  exact ⟨rfl, Attempt.bind_eq_ok hscope (Attempt.bind_eq_ok hscript
    (Attempt.bind_eq_ok hlabels rfl))⟩

end EventSource

/-! ### Sorting by name -/

/-- Namespaces are compared first, and names where these are equal. -/
def Resource.compareNames (a b : Resource) : Ordering :=
  (compare a.space b.space).then (compare a.name b.name)

instance : TransCmp Resource.compareNames :=
  inferInstanceAs (TransCmp (compareLex (compareOn Resource.space) (compareOn Resource.name)))

theorem sortedByName_eq (rs : List Resource) :
    sortedByName rs = rs.mergeSort fun a b => a.compareNames b != .gt := rfl

/-- A list in the order of namespaces and, within these, names. Resources that share both stand in the
    order that they had. -/
structure ByName (rs sorted : List Resource) : Prop where
  perm : sorted.Perm rs
  ordered : sorted.Pairwise fun a b => a.space < b.space ∨ a.space = b.space ∧ a.name ≤ b.name
  tied : ∀ space name, (sorted.filter fun r => r.space = space ∧ r.name = name) =
    rs.filter fun r => r.space = space ∧ r.name = name

theorem byName_sortedByName (rs : List Resource) : ByName rs (sortedByName rs) where
  perm := List.mergeSort_perm rs _
  ordered := by
    rw [sortedByName_eq]
    refine (pairwise_mergeSort_cmp rs).imp fun {a b} h => ?_
    rw [Resource.compareNames, Ordering.isLE_then_iff_or, LawfulEqOrd.compare_eq_iff_eq,
      LawfulBCmp.isLE_iff_le] at h
    exact h.imp_left compareOfLessAndEq_eq_lt.mp
  tied space name := by
    rw [sortedByName_eq]
    refine filter_tied_mergeSort_cmp (fun a b ha hb => ?_) rs
    obtain ⟨haspace, haname⟩ := of_decide_eq_true ha
    obtain ⟨hbspace, hbname⟩ := of_decide_eq_true hb
    rw [Resource.compareNames, haspace, hbspace, haname, hbname]
    exact Ordering.then_eq_eq.mpr ⟨ReflOrd.compare_self, ReflOrd.compare_self⟩

/-! ### Watching -/

/-- One resource or more is what a constraint without bounds wants. -/
theorem EventSource.allows_wanted (s : EventSource) (n : Nat) : s.wanted.allows n = true ↔ 0 < n := by
  rw [Constraint.allows_iff]
  exact and_iff_left nofun

namespace RememberingEvaluator

variable {e : RememberingEvaluator} {s : EventSource} {rs found : List Resource}
  {calls : List ScriptCall}

/-- What an event source finds agrees with how the constraint fares that says the same. -/
structure Agrees (e : RememberingEvaluator) (s : EventSource) (rs : List Resource) (m : EventMatch)
    (x : ConstraintResult) : Prop where
  source : m.source = s.name
  count : m.count = x.count
  fault : m.fault = x.fault
  matched : m.matched = true ↔ x.satisfied = true
  /-- Where there is no fault the constraint selects resources, in the order in which they are listed, and
      collecting them sorts them. -/
  collected : m.fault = none → ∃ found calls,
    e.select s.wanted (rs.map .resource) = .ok ⟨.ok found, calls⟩ ∧ found.Sublist rs ∧
      m.count = found.length ∧ (s.collect = true → ByName found m.resources)
  uncollected : s.collect = false ∨ m.fault ≠ none → m.resources = []

/-- An event source selects what the constraint selects. -/
theorem select_wanted (h : s.constraint = { s.wanted with minCount := some 0 }) (items : List Listed) :
    e.select s.constraint items = e.select s.wanted items := by
  rw [h]
  rfl

theorem agrees_of_found
    (hselect : e.select s.wanted (rs.map .resource) = .ok ⟨.ok found, calls⟩) :
    Agrees e s rs ⟨s.name, found.length, if s.collect then sortedByName found else [], none⟩
      (.counted s.wanted found.length) where
  source := rfl
  count := rfl
  fault := rfl
  matched := by
    rw [ConstraintResult.counted, EventSource.allows_wanted]
    exact decide_eq_true_iff
  collected _ := by
    have hsublist : found.Sublist rs := eq_matchesIn_of_select hselect ▸ matchesIn_sublist
    refine ⟨found, calls, hselect, hsublist, rfl, fun hcollect => ?_⟩
    dsimp only
    rw [if_pos hcollect]
    exact byName_sortedByName _
  uncollected hnone := by
    rcases hnone with hcollect | hfault
    · simp [hcollect]
    · exact absurd rfl hfault

theorem agrees_of_fault (e : RememberingEvaluator) (s : EventSource) (rs : List Resource) (f : Fault) :
    Agrees e s rs ⟨s.name, 0, [], some f⟩ (.failed s.wanted f) where
  source := rfl
  count := rfl
  fault := rfl
  matched := iff_of_false nofun nofun
  collected := nofun
  uncollected _ := rfl

theorem watch_of_found (h : s.constraint = { s.wanted with minCount := some 0 })
    (hselect : e.select s.wanted (rs.map .resource) = .ok ⟨.ok found, calls⟩) :
    e.watch s (rs.map .resource) =
      .ok (⟨s.name, found.length, if s.collect then sortedByName found else [], none⟩, calls) := by
  rw [watch, select_wanted h, hselect]
  rfl

theorem watch_of_fault (h : s.constraint = { s.wanted with minCount := some 0 }) {f : Fault}
    (hselect : e.select s.wanted (rs.map .resource) = .ok ⟨.error f, calls⟩) :
    e.watch s (rs.map .resource) = .ok (⟨s.name, 0, [], some f⟩, calls) := by
  rw [watch, select_wanted h, hselect]
  rfl

/-- However an event source was made, it finds on resources what agrees with the constraint that its own
    fields make without bounds, with the same script runs, and finds as much when it collects as when it
    does not. -/
theorem watch_agrees {f : EventSource.Fields} {r : Reading EventSource}
    (hmade : EventSource.Made f r) (hr : r = .ok s) (e : RememberingEvaluator) (rs : List Resource) :
    Constraint.ofFields f.unbounded = .ok s.wanted ∧
      ∃ x calls, e.evaluate s.wanted (rs.map .resource) = .ok (x, calls) ∧
        ∀ collect, ∃ m, e.watch { s with collect := collect } (rs.map .resource) = .ok (m, calls) ∧
          Agrees e { s with collect := collect } rs m x := by
  obtain ⟨hconstraint, hwanted⟩ := hmade.selects hr
  refine ⟨hwanted, ?_⟩
  obtain ⟨⟨result, calls⟩, hselect⟩ := e.exists_select s.wanted rs
  cases result with
  | ok found =>
    refine ⟨_, _, evaluate_of_found hselect, fun collect => ⟨_, ?_, agrees_of_found hselect⟩⟩
    exact watch_of_found (s := { s with collect := collect }) hconstraint hselect
  | error f =>
    refine ⟨_, _, evaluate_of_fault hselect, fun collect => ⟨_, ?_, agrees_of_fault e _ rs f⟩⟩
    exact watch_of_fault (s := { s with collect := collect }) hconstraint hselect

end RememberingEvaluator

namespace Evaluator

/-- What an event source finds agrees with how the constraint fares that says the same. -/
abbrev Agrees (e : Evaluator) (s : EventSource) (rs : List Resource) (m : EventMatch)
    (x : ConstraintResult) : Prop :=
  e.forgetful.Agrees s rs m x

/-- Without a memory an event source always agrees with the constraint that says the same. -/
theorem watch_agrees_with_evaluate {s : EventSource} {f : EventSource.Fields}
    {r : Reading EventSource} (hmade : EventSource.Made f r) (hr : r = .ok s) (e : Evaluator)
    (rs : List Resource) :
    Constraint.ofFields f.unbounded = .ok s.wanted ∧
      ∃ x calls, e.evaluate s.wanted (rs.map .resource) = .ok (x, calls) ∧
        ∀ collect, ∃ m, e.watch { s with collect := collect } (rs.map .resource) = .ok (m, calls) ∧
          Agrees e { s with collect := collect } rs m x :=
  e.forgetful.watch_agrees hmade hr rs

end Evaluator

namespace Sample

/-- Watches pods that a script accepts, and collects them. -/
def podWatchFields : EventSource.Fields :=
  ⟨.text "pods", .null, .text "v1", .text "Pod", .null, .null, .text "probe", .bool true⟩

def podWatch : EventSource :=
  ⟨"pods", ⟨⟨"", "v1", "Pod", ""⟩, [], [], some 0, none, "probe"⟩, true⟩

end Sample

open Sample in
/-- Two pods are found and collected by name, and satisfy the constraint. With a slow pod among them there
    is a fault on both sides, and nothing is collected. -/
theorem pods_watched_and_wanted :
    EventSource.ofFields podWatchFields = .ok podWatch ∧
      (∃ m x calls,
        Evaluator.watch ⟨.builtin, some prober⟩ podWatch ([pod "two" [], pod "one" []].map .resource) =
          .ok (m, calls) ∧
        Evaluator.evaluate ⟨.builtin, some prober⟩ podWatch.wanted
          ([pod "two" [], pod "one" []].map .resource) = .ok (x, calls) ∧
        x.satisfied = true ∧ m.matched = true ∧ m.count = 2 ∧
        ByName [pod "two" [], pod "one" []] m.resources) ∧
      ∃ m calls,
        Evaluator.watch ⟨.builtin, some prober⟩ podWatch ([pod "two" [], pod "slow" []].map .resource) =
          .ok (m, calls) ∧
        m.fault = some (.script (.failed "Pod slow" "timed out")) ∧ m.matched = false ∧
        m.resources = [] := by
  have hmade : EventSource.ofFields podWatchFields = .ok podWatch := rfl
  refine ⟨hmade, ?_, ?_⟩
  · obtain ⟨-, x, calls, hx, hwatch⟩ := Evaluator.watch_agrees_with_evaluate .assembled hmade
      ⟨.builtin, some prober⟩ [pod "two" [], pod "one" []]
    obtain ⟨m, hm, hagrees⟩ := hwatch true
    have hsatisfied : x.satisfied = true := by
      cases hx
      rfl
    have hfault : m.fault = none := by
      rw [hagrees.fault]
      cases hx
      rfl
    obtain ⟨found, others, hfound, -, hcount, hsorted⟩ := hagrees.collected hfault
    cases hfound
    exact ⟨m, x, calls, hm, hx, hsatisfied, hagrees.matched.mpr hsatisfied, hcount, hsorted rfl⟩
  · obtain ⟨-, x, calls, hx, hwatch⟩ := Evaluator.watch_agrees_with_evaluate .assembled hmade
      ⟨.builtin, some prober⟩ [pod "two" [], pod "slow" []]
    obtain ⟨m, hm, hagrees⟩ := hwatch true
    have hfault : m.fault = some (.script (.failed "Pod slow" "timed out")) := by
      rw [hagrees.fault]
      cases hx
      rfl
    refine ⟨m, calls, hm, hfault, ?_, hagrees.uncollected (.inr (by simp [hfault]))⟩
    simp [EventMatch.matched, hfault]

end FleetLabels
