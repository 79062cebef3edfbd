import FleetLabels.Proofs.Selection

/-!
    What a constraint matches.

    Where nothing stands in the way of a count (`Evaluator.Decided`), a constraint matches those of its
    candidates that its script accepts (`Evaluator.matchesIn`), in the order in which they are listed.
    Where something does, it matches nothing and has a fault. A script is run up to the first candidate
    that it gives no verdict on, so the order of a listing decides which candidates are looked at and which
    fault is met. It does not decide whether there is one, nor what is counted
    (`Evaluator.fares_alike_in_any_order`). -/

namespace FleetLabels

namespace Evaluator

variable {e : Evaluator} {c : Constraint} {rs ts found : List Resource} {calls : List ScriptCall}

/-- Nothing stands in the way of a count: all fields are supported, and the script, if there is one,
    gives a verdict on every candidate. -/
structure Decided (e : Evaluator) (c : Constraint) (rs : List Resource) : Prop where
  fields : e.Supports c
  script : c.script ≠ "" →
    ∀ r ∈ c.candidatesIn rs, ∃ b, Script.Judges c.script r e.runtime (.ok b)

/-- The candidates that a constraint accepts, in their order and as often as they come. -/
def matchesIn (e : Evaluator) (c : Constraint) (rs : List Resource) : List Resource :=
  (c.candidatesIn rs).filter fun r => e.Accepts c r

/-! ### Selecting and counting -/

theorem select_of_decided (h : e.Decided c rs) :
    e.select c (rs.map .resource) =
      .ok ⟨.ok (e.matchesIn c rs), e.callsOn c.script (c.candidatesIn rs)⟩ :=
  select_of_judged h.fields h.script

/-- What stands in the way of a count is a fault of the selection. -/
theorem select_of_not_decided (h : ¬ e.Decided c rs) :
    ∃ f calls, e.select c (rs.map .resource) = .ok ⟨.error f, calls⟩ := by
  rcases select_cases e c rs with ⟨pre, f, post, hsplit, hpre, hf⟩ |
    ⟨hsupports, hscript, pre, r, post, f, hsplit, hpre, hr⟩ | ⟨hsupports, hjudged⟩
  · exact ⟨_, _, select_of_unsupported hsplit hpre hf _⟩
  · exact ⟨_, _, select_of_unjudged hsupports hscript hsplit hpre hr⟩
  · exact absurd ⟨hsupports, hjudged⟩ h

/-- A selection that succeeds has found the matches. -/
theorem eq_matchesIn_of_select (h : e.select c (rs.map .resource) = .ok ⟨.ok found, calls⟩) :
    e.Decided c rs ∧ found = e.matchesIn c rs := by
  by_cases hd : e.Decided c rs
  · rw [select_of_decided hd] at h
    cases h
    exact ⟨hd, rfl⟩
  · obtain ⟨f, others, hfault⟩ := select_of_not_decided hd
    rw [hfault] at h
    cases h

theorem evaluate_of_decided (h : e.Decided c rs) :
    e.evaluate c (rs.map .resource) =
      .ok (.counted c (e.matchesIn c rs).length, e.callsOn c.script (c.candidatesIn rs)) :=
  evaluate_of_found (select_of_decided h)

theorem evaluate_of_not_decided (h : ¬ e.Decided c rs) :
    ∃ f calls, e.evaluate c (rs.map .resource) = .ok (.failed c f, calls) := by
  obtain ⟨f, calls, hselect⟩ := select_of_not_decided h
  exact ⟨f, calls, evaluate_of_fault hselect⟩

/-! ### Listings in another order -/

theorem Decided.of_perm (hd : e.Decided c rs) (h : rs.Perm ts) : e.Decided c ts where
  fields := hd.fields
  script hscript r hr := hd.script hscript r ((h.filter _).mem_iff.mpr hr)

theorem matchesIn_perm (h : rs.Perm ts) : (e.matchesIn c rs).Perm (e.matchesIn c ts) :=
  (h.filter _).filter _

/-- Without a script a constraint has one result on all orders of a listing. -/
theorem evaluate_of_no_script (h : rs.Perm ts) (hscript : c.script = "") :
    (e.evaluate c (rs.map .resource)).map Prod.fst =
      (e.evaluate c (ts.map .resource)).map Prod.fst := by
  rcases select_cases e c rs with ⟨pre, f, post, hsplit, hpre, hf⟩ |
    ⟨-, hnonempty, -⟩ | ⟨hsupports, hjudged⟩
  · -- the fault is found before anything is listed
    rw [evaluate_of_fault (select_of_unsupported hsplit hpre hf _),
      evaluate_of_fault (select_of_unsupported hsplit hpre hf _)]
  · exact absurd hscript hnonempty
  · have hd : e.Decided c rs := ⟨hsupports, hjudged⟩
    rw [evaluate_of_decided hd, evaluate_of_decided (hd.of_perm h), (matchesIn_perm h).length_eq]
    rfl

/-- On all orders of a listing a constraint is satisfied or not, with one count, and has a fault or not.
    What it selects, where it does, are the same resources in another order. Without a script its results
    are the same altogether. -/
theorem fares_alike_in_any_order (e : Evaluator) (c : Constraint) (h : rs.Perm ts) :
    ∃ x y calls more, e.evaluate c (rs.map .resource) = .ok (x, calls) ∧
      e.evaluate c (ts.map .resource) = .ok (y, more) ∧
      x.satisfied = y.satisfied ∧ x.count = y.count ∧ (x.fault = none ↔ y.fault = none) ∧
      (∀ found calls, e.select c (rs.map .resource) = .ok ⟨.ok found, calls⟩ →
        ∃ others more, e.select c (ts.map .resource) = .ok ⟨.ok others, more⟩ ∧ others.Perm found) ∧
      (c.script = "" → x = y) := by
  have hwhole : ∀ {x y calls more}, e.evaluate c (rs.map .resource) = .ok (x, calls) →
      e.evaluate c (ts.map .resource) = .ok (y, more) → c.script = "" → x = y := by
    intro x y calls more hx hy hscript
    have hresults := evaluate_of_no_script (e := e) h hscript
    rw [hx, hy] at hresults
    exact Except.ok.inj hresults
  have hselected : ∀ found calls, e.select c (rs.map .resource) = .ok ⟨.ok found, calls⟩ →
      ∃ others more, e.select c (ts.map .resource) = .ok ⟨.ok others, more⟩ ∧ others.Perm found := by
    intro found calls hfound
    obtain ⟨hd, rfl⟩ := eq_matchesIn_of_select hfound
    exact ⟨_, _, select_of_decided (hd.of_perm h), (matchesIn_perm h).symm⟩
  by_cases hd : e.Decided c rs
  · have hx := evaluate_of_decided hd
    have hy := evaluate_of_decided (hd.of_perm h)
    have hcount : (e.matchesIn c rs).length = (e.matchesIn c ts).length := (matchesIn_perm h).length_eq
    refine ⟨_, _, _, _, hx, hy, ?_, hcount, Iff.rfl, hselected, hwhole hx hy⟩
    exact congrArg c.allows hcount
  · obtain ⟨f, calls, hx⟩ := evaluate_of_not_decided hd
    obtain ⟨g, more, hy⟩ := evaluate_of_not_decided fun hts => hd (hts.of_perm h.symm)
    have hboth : (ConstraintResult.failed c f).fault = none ↔ (ConstraintResult.failed c g).fault = none :=
      iff_of_false nofun nofun
    exact ⟨_, _, _, _, hx, hy, rfl, rfl, hboth, hselected, hwhole hx hy⟩

end Evaluator

namespace Sample

/-- A pod with some labels. -/
def pod (name : String) (labels : List (String × String)) : Resource :=
  ⟨"v1", "Pod", name, "", Table.ofList labels, .null⟩

/-- Wants one pod that its script accepts. -/
def probed : Constraint := ⟨⟨"", "v1", "Pod", ""⟩, [], [], none, none, "probe"⟩

/-- Accepts pods, but fails on the slow one and refuses the odd one. -/
def prober : ScriptRuntime := fun _ r =>
  if r.name = "slow" then .failed "timed out"
  else if r.name = "odd" then .refused "odd"
  else .value (.bool true)

/-- One pod that is accepted and two without a verdict. -/
def probedPods : List Resource := [pod "fine" [], pod "slow" [], pod "odd" []]

end Sample

open Sample in
/-- Two pods are without a verdict, and whichever is listed first gives the fault. In both orders the
    constraint is not satisfied and counts nothing. -/
theorem slow_or_odd_first :
    probedPods.Perm probedPods.reverse ∧
      ∃ x y calls more,
        Evaluator.evaluate ⟨.builtin, some prober⟩ probed (probedPods.map .resource) =
          .ok (x, calls) ∧
        Evaluator.evaluate ⟨.builtin, some prober⟩ probed (probedPods.reverse.map .resource) =
          .ok (y, more) ∧
        x.fault = some (.script (.failed "Pod slow" "timed out")) ∧
        y.fault = some (.script (.refused "odd")) ∧
        x.satisfied = y.satisfied ∧ x.count = y.count := by
  have hperm : probedPods.Perm probedPods.reverse := (List.reverse_perm probedPods).symm
  obtain ⟨x, y, calls, more, hx, hy, hsatisfied, hcount, -⟩ :=
    Evaluator.fares_alike_in_any_order ⟨.builtin, some prober⟩ probed hperm
  refine ⟨hperm, x, y, calls, more, hx, hy, ?_, ?_, hsatisfied, hcount⟩
  · cases hx
    rfl
  · cases hy
    rfl

end FleetLabels
