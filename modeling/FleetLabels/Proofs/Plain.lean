import FleetLabels.Proofs.Lookups

/-!
    Evaluation without a view.

    Seen by itself, a constraint is evaluated on a listing of its own (`plainConstraint`) and a
    requirement on a version read for it (`plainRequirement`). On a steady source this is all there is
    to a verdict: a classifier alone has one such result for each of its constraints and requirements
    (`Classification.Plain`), and classifiers that share a view have the verdicts that each has alone.
    What is shared shows in the calls only. -/

namespace FleetLabels

namespace Classification

variable {e : Evaluator} {src : Source} {cluster : Cluster} {c : Classifier} {r : Classification}

/-- How a constraint fares on a listing of its own. -/
def plainConstraint (e : Evaluator) (src : Source) (cluster : Cluster) (d : Constraint) :
    Except Abrupt ConstraintResult :=
  match src.list 0 d.scope with
  | .error text => .ok (.failed d (.listing d.describe cluster.key text))
  | .ok items => (e.evaluate d items).map Prod.fst

/-- How a requirement fares on a version read for it. -/
def plainRequirement (src : Source) (cluster : Cluster) (q : Requirement) : RequirementResult :=
  match View.readVersion src cluster with
  | .error text => ⟨false, .text "", some text⟩
  | .ok version => q.evaluate version

theorem evaluateConstraint_fresh (e : Evaluator) (src : Source) (cluster : Cluster)
    (d : Constraint) : (evaluateConstraint e src cluster d .fresh).1 =
      plainConstraint e src cluster d := by
  rw [evaluateConstraint, plainConstraint, View.list]
  cases hask : src.list 0 d.scope with
  | error text => simp [View.fresh, hask]
  | ok items =>
    cases heval : e.evaluate d items <;> simp [View.fresh, hask, heval, Except.map]

theorem evaluateRequirements_fresh (src : Source) (cluster : Cluster) (qs : List Requirement) :
    (evaluateRequirements src cluster qs .fresh).1.1 = qs.map (plainRequirement src cluster) := by
  cases qs with
  | nil => rfl
  | cons q rest =>
    rw [evaluateRequirements, if_neg (by simp), View.versionOf]
    cases hread : View.readVersion src cluster <;> simp only [View.fresh] <;>
      exact List.map_congr_left fun p _ => by simp only [plainRequirement, hread]

/-- Alone on a steady source, a classifier has the verdict that its plain results make up. -/
theorem classify_eq_plain (hs : src.Steady) (c : Classifier) :
    (classify e src cluster c).1 =
      (c.constraints.mapM (plainConstraint e src cluster)).map fun xs =>
        ofResults c cluster xs (c.requirements.map (plainRequirement src cluster))
          (evaluateRequirements src cluster c.requirements .fresh).1.2 := by
  obtain ⟨heach, hend⟩ := Viewing.each_of_blind (fun d => evaluateConstraint_blind (e := e) hs d)
    c.constraints .fresh (View.fresh_faithful src cluster)
  simp only [evaluateConstraint_fresh] at heach
  rw [classify, classifyIn, ← heach]
  cases hstep : Viewing.each (evaluateConstraint e src cluster) c.constraints .fresh with
  | mk result w =>
    cases result with
    | error a => rfl
    | ok xs =>
      rw [hstep] at hend
      obtain ⟨hrequirements, -⟩ := evaluateRequirements_blind c.requirements w hend
      simp only [hrequirements, Except.map, evaluateRequirements_fresh]

/-- A verdict that is made up of one plain result for each constraint and each requirement, in order. -/
structure Plain (e : Evaluator) (src : Source) (cluster : Cluster) (c : Classifier)
    (r : Classification) : Prop where
  byClassifier : r.classifier = c
  onCluster : r.cluster = cluster
  constraints : List.Forall₂ (fun d x => plainConstraint e src cluster d = .ok x) c.constraints
    r.constraints
  requirements : r.requirements = c.requirements.map (plainRequirement src cluster)
  matched : r.matched = true ↔
    (∀ x ∈ r.constraints, x.satisfied = true) ∧ ∀ x ∈ r.requirements, x.satisfied = true
  failures : r.matched = true → r.failures = []

/-- A requirement that is met has no failure. -/
theorem failure_of_plainRequirement {q : Requirement}
    (h : (plainRequirement src cluster q).satisfied = true) :
    (plainRequirement src cluster q).failure = none := by
  cases hread : View.readVersion src cluster with
  | error text =>
    simp only [plainRequirement, hread] at h
    cases h
  | ok version =>
    cases hholds : q.comparison.holds version (.text q.version) with
    | error u =>
      simp only [plainRequirement, hread, Requirement.evaluate, Requirement.resultOf, hholds] at h
      cases h
    | ok b => simp only [plainRequirement, hread, Requirement.evaluate, Requirement.resultOf, hholds]

theorem plain_of_classify (hs : src.Steady) (h : (classify e src cluster c).1 = .ok r) :
    Plain e src cluster c r := by
  have hverdict := h
  rw [classify_eq_plain hs] at h
  cases hxs : c.constraints.mapM (plainConstraint e src cluster) with
  | error a => rw [hxs] at h; cases h
  | ok xs =>
    rw [hxs] at h
    cases h
    have hmatched : ∀ rs fs, (ofResults c cluster xs rs fs).matched = true ↔
        (∀ x ∈ xs, x.satisfied = true) ∧ ∀ x ∈ rs, x.satisfied = true := by
      intro rs fs
      simp only [ofResults, Bool.and_eq_true, List.all_eq_true]
    refine ⟨rfl, rfl, Attempt.forall₂_of_mapM hxs, rfl, hmatched _ _, fun hmatch => ?_⟩
    obtain ⟨-, hmet⟩ := (hmatched _ _).mp hmatch
    rw [failures_of_classifyIn hverdict]
    refine .inl ?_
    rintro (⟨x, hx, hfault⟩ | ⟨x, hx, hfailure⟩)
    · exact Bool.noConfusion (hmatch.symm.trans (not_matched_of_fault hverdict hx hfault))
    · obtain ⟨q, hq, rfl⟩ := List.mem_map.mp hx
      exact hfailure (failure_of_plainRequirement (hmet _ hx))

/-- Classifiers that share a view of a steady source have the verdicts that each has alone, and these
    are made up of plain results. Where no listing fails, each scope is asked for once, when it first
    comes up. When the run breaks off, it does so as the first classifier that breaks off alone. -/
theorem classifyAll_refines_plain (e : Evaluator) (src : Source) (cluster : Cluster)
    (cs : List Classifier) (hs : src.Steady) :
    (∀ rs, (classifyAll e src cluster cs).1 = .ok rs →
      List.Forall₂ (fun c r => (classify e src cluster c).1 = .ok r) cs rs ∧
      ((∀ s ∈ scopesOf cs, ∀ text, src.list 0 s ≠ .error text) →
        (classifyAll e src cluster cs).2.listCalls = (scopesOf cs).eraseDups)) ∧
    (∀ c r, (classify e src cluster c).1 = .ok r → Plain e src cluster c r) ∧
    ∀ a, (classifyAll e src cluster cs).1 = .error a → ∃ pre c post, cs = pre ++ c :: post ∧
      (∀ d ∈ pre, ∃ r, (classify e src cluster d).1 = .ok r) ∧
      (classify e src cluster c).1 = .error a := by
  have hrun : (classifyAll e src cluster cs).1 = cs.mapM fun c => (classify e src cluster c).1 :=
    classifyAll_eq_mapM hs cs
  refine ⟨fun rs hrs => ⟨?_, fun hsound => ?_⟩, fun c r => plain_of_classify hs, fun a ha => ?_⟩
  · rw [hrun] at hrs
    exact Attempt.forall₂_of_mapM hrs
  · refine (classifyAll_evaluated hrs).counted.distinct fun s hmem i text hfail => ?_
    rw [hs i 0] at hfail
    exact hsound s hmem text hfail
  · rw [hrun] at ha
    rcases Attempt.all_ok_or_first_error (fun c => (classify e src cluster c).1) cs with
      hall | ⟨pre, c, post, b, rfl, hpre, hc⟩
    · obtain ⟨c, hc, hfail⟩ := Attempt.exists_of_mapM_eq_error ha
      obtain ⟨r, hr⟩ := hall c hc
      rw [hr] at hfail
      cases hfail
    · rw [Attempt.mapM_eq_error hpre hc] at ha
      cases ha
      exact ⟨pre, c, post, rfl, hpre, hc⟩

end Classification

open Sample in
/-- Two classifiers that look at the same scopes list each once and match; where pods are listed badly,
    the first that looks at them breaks off, as it does alone. -/
theorem gate_and_lock_share_listings :
    (∃ r t v, Classification.classifyAll engine.evaluator empty north [gate "gate", gate "lock"] =
        (.ok [r, t], v) ∧ v.listCalls = [pods, services] ∧ r.matched = true ∧ r.failures = [] ∧
        (Classification.classify engine.evaluator empty north (gate "lock")).1 = .ok t) ∧
      ∃ pre c post, [red, probe, blue] = pre ++ c :: post ∧
        (Classification.classify engine.evaluator corrupted north c).1 = .error ⟨"boom"⟩ := by
  have hempty : empty.Steady := fun _ _ _ => rfl
  have hcorrupted : corrupted.Steady := fun _ _ _ => rfl
  obtain ⟨hends, hplain, -⟩ := Classification.classifyAll_refines_plain engine.evaluator empty north
    [gate "gate", gate "lock"] hempty
  obtain ⟨-, -, hbreaks⟩ := Classification.classifyAll_refines_plain engine.evaluator corrupted north
    [red, probe, blue] hcorrupted
  obtain ⟨halone, hcalls⟩ := hends _ rfl
  obtain ⟨hgate, hlock⟩ := List.forall₂_cons.mp halone
  refine ⟨⟨_, _, _, rfl, hcalls fun s _ text hfail => ?_, rfl, (hplain _ _ hgate).failures rfl,
    (List.forall₂_cons.mp hlock).1⟩, ?_⟩
  · cases hfail
  · obtain ⟨pre, c, post, hsplit, -, hc⟩ := hbreaks ⟨"boom"⟩ rfl
    exact ⟨pre, c, post, hsplit, hc⟩

end FleetLabels
