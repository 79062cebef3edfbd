import FleetLabels.Proofs.Accounting
import FleetLabels.Proofs.FailedStatus
import FleetLabels.Proofs.Lookups
import Mathlib.Algebra.BigOperators.Group.List.Basic

/-!
    Failures counted against errors.

    The counter of a classifier's failures grows by its messages, and messages and errors do not quite
    go together: a refusal without a text is an error without a message, and when the version of a
    cluster cannot be read all requirements share one message. On a cluster whose evaluation ends,
    messages with these two make up the errors (`Classification.Tallied`), since every view of a run
    holds no other version than the one that is read (`View.Versioned`). So a pass adds its errors to
    the counter unless it met one of the two (`Metrics.failuresOf_grows_by_errors_unless_short`). -/

namespace FleetLabels

/-! ### The version that a view holds -/

namespace View

variable {src : Source} {cluster : Cluster} {v : View}

/-- A view holds no version, or what reading the version gives. -/
def Versioned (src : Source) (cluster : Cluster) (v : View) : Prop :=
  ∀ answer, v.version = some answer → answer = readVersion src cluster

theorem fresh_versioned (src : Source) (cluster : Cluster) : Versioned src cluster .fresh :=
  fun _ h => nomatch h

theorem Versioned.list (h : Versioned src cluster v) (s : Scope) :
    Versioned src cluster (v.list src s).2 := by
  rw [View.list]
  cases v.listings.get? s with
  | some items => exact h
  | none => cases src.list v.listCalls.length s <;> exact h

theorem Versioned.versionOf (h : Versioned src cluster v) :
    (v.versionOf src cluster).1 = readVersion src cluster ∧
      Versioned src cluster (v.versionOf src cluster).2 := by
  rw [View.versionOf]
  cases hkept : v.version with
  | some answer => exact ⟨h answer hkept, h⟩
  | none => exact ⟨rfl, fun answer hanswer => (Option.some.inj hanswer).symm⟩

end View

/-! ### Messages and errors of one classification -/

namespace Classification

variable {e : Evaluator} {src : Source} {cluster : Cluster} {c : Classifier} {v : View}
  {r : Classification}

/-- The number of results, of constraints and of requirements, that carry an error. -/
def errors (r : Classification) : Nat :=
  (r.constraints.countP fun x => x.fault.isSome) + r.requirements.countP fun x => x.failure.isSome

/-- The number of constraints whose error is a refusal without a text. -/
def unspoken (r : Classification) : Nat :=
  r.constraints.countP fun x => x.fault = some (.script (.refused ""))

/-- Of so many requirements, those that share the message of another one: all but one, when the version
    of the cluster cannot be read. -/
def sharedOf (src : Source) (cluster : Cluster) (n : Nat) : Nat :=
  match View.readVersion src cluster with
  | .error _ => n - 1
  | .ok _ => 0

/-- The number of requirements that share the message of another one. -/
def sharing (src : Source) (r : Classification) : Nat :=
  sharedOf src r.cluster r.requirements.length

/-- The messages, with the errors that have none of their own, are as many as the errors. -/
def Tallied (src : Source) (r : Classification) : Prop :=
  r.failures.length + (r.unspoken + r.sharing src) = r.errors

theorem constraintFailure?_isSome_iff {x : ConstraintResult} :
    (constraintFailure? x).isSome = true ↔
      x.fault.isSome = true ∧ x.fault ≠ some (.script (.refused "")) := by
  rw [Option.isSome_iff_ne_none, ne_eq, constraintFailure?_eq_none]
  cases x.fault <;> simp

/-- The errors of constraints have a message each, but for refusals without a text. -/
theorem length_constraintFailures (xs : List ConstraintResult) :
    (xs.filterMap constraintFailure?).length +
        (xs.countP fun x => x.fault = some (.script (.refused ""))) =
      xs.countP fun x => x.fault.isSome := by
  rw [List.length_filterMap_eq_countP]
  induction xs with
  | nil => rfl
  | cons x rest ih =>
    simp only [List.countP_cons, constraintFailure?_isSome_iff, decide_eq_true_eq]
    by_cases hunspoken : x.fault = some (.script (.refused ""))
    · simp only [hunspoken, Option.isSome_some, ne_eq, not_true, and_false, if_false, if_true]
      omega
    · simp only [hunspoken, ne_eq, not_false_eq_true, and_true, if_false]
      omega

/-- When the version was read, each requirement with an error has a message. -/
theorem length_requirementFailures (qs : List Requirement) (version : Datum) :
    ((qs.zip (qs.map fun q => q.evaluate version)).filterMap
        fun p => requirementFailure? p.1 p.2).length =
      (qs.map fun q => q.evaluate version).countP fun x => x.failure.isSome := by
  rw [zip_evaluate, List.filterMap_map, List.length_filterMap_eq_countP, List.countP_map]
  refine List.countP_congr fun q _ => ?_
  rw [Option.isSome_iff_ne_none, Function.comp_apply, Function.comp_apply,
    Option.isSome_iff_ne_none]
  exact (requirementFailure?_eq_none q version).not

/-- A view that holds the version lets the requirements see the one that is read. -/
theorem tallied_evaluateRequirements (h : View.Versioned src cluster v) (qs : List Requirement) :
    (evaluateRequirements src cluster qs v).1.2.length +
        sharedOf src cluster (evaluateRequirements src cluster qs v).1.1.length =
      ((evaluateRequirements src cluster qs v).1.1.countP fun x => x.failure.isSome) ∧
      View.Versioned src cluster (evaluateRequirements src cluster qs v).2 := by
  obtain ⟨hversion, hnext⟩ := h.versionOf
  rw [sharedOf]
  cases qs with
  | nil => exact ⟨by cases View.readVersion src cluster <;> rfl, h⟩
  | cons q rest =>
    rw [evaluateRequirements, if_neg (by simp)]
    cases hstep : v.versionOf src cluster with
    | mk result w =>
      rw [hstep] at hversion hnext
      rw [← hversion]
      cases result with
      | error text =>
        refine ⟨?_, hnext⟩
        have hall : ((q :: rest).map fun _ => (⟨false, .text "", some text⟩ : RequirementResult)).countP
            (fun x => x.failure.isSome) = rest.length + 1 := by
          refine (List.countP_eq_length.mpr fun x hx => ?_).trans (List.length_map _)
          obtain ⟨_, _, rfl⟩ := List.mem_map.mp hx
          rfl
        simp only [hall, List.length_map, List.length_cons, List.length_nil]
        omega
      | ok version => exact ⟨length_requirementFailures (q :: rest) version, hnext⟩

theorem evaluateConstraint_versioned (d : Constraint) (v : View)
    (h : View.Versioned src cluster v) :
    View.Versioned src cluster (evaluateConstraint e src cluster d v).2 := by
  have hnext := h.list d.scope
  rw [evaluateConstraint]
  cases hstep : v.list src d.scope with
  | mk result w =>
    rw [hstep] at hnext
    cases result with
    | error text => exact hnext
    | ok items =>
      cases heval : e.evaluate d items <;> simp only [heval] <;> exact hnext

/-- One classifier: its verdict is tallied, and the view goes on holding the version. -/
theorem tallied_classifyIn (h : View.Versioned src cluster v) :
    View.Versioned src cluster (classifyIn e src cluster c v).2 ∧
      ∀ r, (classifyIn e src cluster c v).1 = .ok r → r.Tallied src := by
  have hresults := Viewing.each_keeps (I := View.Versioned src cluster)
    (evaluateConstraint_versioned (e := e)) c.constraints h
  rw [classifyIn]
  cases hstep : Viewing.each (evaluateConstraint e src cluster) c.constraints v with
  | mk result w =>
    rw [hstep] at hresults
    cases result with
    | error a =>
      refine ⟨hresults, fun r hr => ?_⟩
      cases hr
    | ok results =>
      have hw : View.Versioned src cluster w := hresults
      obtain ⟨hrequirements, hnext⟩ := tallied_evaluateRequirements hw c.requirements
      refine ⟨hnext, fun r hr => ?_⟩
      have hparts : ofResults c cluster results (evaluateRequirements src cluster c.requirements w).1.1
          (evaluateRequirements src cluster c.requirements w).1.2 = r := Except.ok.inj hr
      subst hparts
      have hconstraints := length_constraintFailures results
      simp only [Tallied, errors, unspoken, sharing, ofResults, List.length_append]
      omega

/-- All verdicts of a run that ends are tallied. -/
theorem tallied_classifyAll {cs : List Classifier} {rs : List Classification}
    (h : (classifyAll e src cluster cs).1 = .ok rs) : ∀ r ∈ rs, r.Tallied src := by
  have hstep : ∀ (done : List Classifier) given v c r,
      (View.Versioned src cluster v ∧ ∀ q ∈ given, q.Tallied src) →
      (classifyIn e src cluster c v).1 = .ok r →
      View.Versioned src cluster (classifyIn e src cluster c v).2 ∧
        ∀ q ∈ given ++ [r], q.Tallied src := by
    rintro done given v c r ⟨hv, hgiven⟩ hr
    obtain ⟨hnext, htallied⟩ := tallied_classifyIn (e := e) (c := c) hv
    refine ⟨hnext, fun q hq => ?_⟩
    rcases List.mem_append.mp hq with hq | hq
    · exact hgiven q hq
    · exact List.mem_singleton.mp hq ▸ htallied r hr
  have hrun := @Viewing.each_relates _ _ (classifyIn e src cluster)
    (fun _ rs v => View.Versioned src cluster v ∧ ∀ r ∈ rs, r.Tallied src) hstep cs rs .fresh h [] []
    ⟨View.fresh_versioned src cluster, fun r hr => nomatch hr⟩
  exact hrun.2

end Classification

/-! ### Messages and errors of a call -/

namespace PassCall

/-- The evaluation of none of the clusters breaks off. -/
def Unbroken (q : PassCall) : Prop :=
  ∀ k ∈ q.clusters, ∃ rs,
    (Classification.classifyAll q.engine.evaluator (q.source k) k q.classifiers).1 = .ok rs

/-- The number of a classifier's results, over all clusters, that carry an error. -/
def errors (q : PassCall) (name : String) : Nat :=
  ((q.verdicts name).map Classification.errors).sum

/-- The number of those errors that have no message of their own. -/
def short (q : PassCall) (name : String) : Nat :=
  ((q.verdicts name).map fun r => r.unspoken + r.sharing (q.source r.cluster)).sum

/-- On some cluster a script was refused without a text on a constraint of the classifier, or the
    version could not be read for at least two of its requirements. -/
def FallsShort (q : PassCall) (name : String) : Prop :=
  ∃ r ∈ q.verdicts name,
    (∃ x ∈ r.constraints, x.fault = some (.script (.refused ""))) ∨
      ((∃ text, View.readVersion (q.source r.cluster) r.cluster = .error text) ∧
        2 ≤ r.requirements.length)

variable {q : PassCall} {name : String} {r : Classification}

/-- A verdict of an accepted call is a classification of one of its clusters. -/
theorem mem_verdicts (h : q.Accepted) (hr : r ∈ q.verdicts name) :
    ∃ k ∈ q.clusters, r.cluster = k ∧
      r ∈ q.engine.classifications (q.source k) q.classifiers k := by
  have hmem := (verdicts_perm h name).mem_iff.mpr hr
  obtain ⟨k, hk, hrk⟩ := Engine.mem_allClassifications.mp (List.mem_filter.mp hmem).1
  exact ⟨k, hk, Engine.cluster_of_mem hrk, hrk⟩

theorem tallied_verdicts (h : q.Accepted) (hunbroken : q.Unbroken) (hr : r ∈ q.verdicts name) :
    r.Tallied (q.source r.cluster) := by
  obtain ⟨k, hk, rfl, hmem⟩ := mem_verdicts h hr
  obtain ⟨rs, hrs⟩ := hunbroken _ hk
  rw [Engine.classifications, hrs] at hmem
  exact Classification.tallied_classifyAll hrs r hmem

/-- Over all clusters, messages and errors without one are as many as the errors. -/
theorem sum_failures (h : q.Accepted) (hunbroken : q.Unbroken) (name : String) :
    ((q.verdicts name).map fun r => r.failures.length).sum + q.short name = q.errors name := by
  rw [short, ← List.sum_map_add, errors]
  exact congrArg List.sum (List.map_congr_left fun r hr => tallied_verdicts h hunbroken hr)

theorem sharing_eq_zero_iff (src : Source) (r : Classification) :
    r.sharing src = 0 ↔ ¬ ((∃ text, View.readVersion src r.cluster = .error text) ∧
      2 ≤ r.requirements.length) := by
  rw [Classification.sharing, Classification.sharedOf]
  cases View.readVersion src r.cluster with
  | error text =>
    simp only [Except.error.injEq, exists_eq', true_and]
    omega
  | ok version => simp

theorem short_eq_zero_iff (q : PassCall) (name : String) :
    q.short name = 0 ↔ ¬ q.FallsShort name := by
  rw [short, List.sum_eq_zero_iff_forall_eq_nat, List.forall_mem_map, FallsShort, not_exists]
  refine forall_congr' fun r => ?_
  rw [not_and, not_or, Nat.add_eq_zero_iff, sharing_eq_zero_iff, Classification.unspoken,
    List.countP_eq_zero]
  simp only [decide_eq_true_eq, not_exists, not_and]

end PassCall

/-- For a pass over clusters whose evaluations end, the counter of a classifier grows by its errors less
    those that have no message of their own; so it grows by its errors, whatever their pattern, unless
    a script was refused without a text or the version of a cluster could not be read for two or more
    requirements. -/
theorem Metrics.failuresOf_grows_by_errors_unless_short (m : Metrics) (q : PassCall) (h : q.Accepted)
    (hunbroken : q.Unbroken) (c : Classifier) (hc : c ∈ q.classifiers) :
    (q.verdicts c.name).length = q.clusters.length ∧
      (m.record q.result).failuresOf c.name + q.short c.name =
        m.failuresOf c.name + q.errors c.name ∧
      ((m.record q.result).failuresOf c.name = m.failuresOf c.name + q.errors c.name ↔
        ¬ q.FallsShort c.name) := by
  have hevaluates : q.Evaluates c.name := ⟨h, List.mem_map_of_mem hc⟩
  have hgrowth := failuresOf_record m q c.name
  have htally := PassCall.sum_failures h hunbroken c.name
  refine ⟨?_, by omega, ?_⟩
  · rw [PassCall.length_verdicts, if_pos hevaluates]
  · rw [← PassCall.short_eq_zero_iff]
    omega

namespace Sample

/-- Matches between two versions. -/
def picky : Classifier :=
  ⟨"picky", [], [], [⟨"1.20.0", .atLeast⟩, ⟨"1.30.0", .less⟩], none, none, List.nodup_nil⟩

/-- A call of one classifier on one cluster. -/
def single (src : Source) (c : Classifier) : PassCall where
  engine := engine
  source := fun _ => src
  classifiers := [c]
  clusters := [north]
  finished := [north]
  finished_perm := List.Perm.refl _

def pickyCall : PassCall := single empty picky

def judgeCall : PassCall := single occupied judge

end Sample

open Sample in
/-- Where the version is unknown, both requirements fail with an error and the counter shows one. -/
theorem picky_errors_counted_once :
    pickyCall.Accepted ∧ pickyCall.Unbroken ∧ pickyCall.errors "picky" = 2 ∧
      (Metrics.zero.record pickyCall.result).failuresOf "picky" = 1 := by
  refine ⟨by decide, fun k _ => ⟨_, rfl⟩, ?_, ?_⟩
  · decide +kernel
  · decide +kernel

open Sample in
/-- Where scripts cannot run, the error of the one constraint has its message and is counted. -/
theorem judge_error_counted :
    judgeCall.Accepted ∧ judgeCall.Unbroken ∧ judge ∈ judgeCall.classifiers ∧
      judgeCall.errors "judge" = 1 ∧
      (Metrics.zero.record judgeCall.result).failuresOf "judge" = 1 := by
  have haccepted : judgeCall.Accepted := by decide
  have hunbroken : judgeCall.Unbroken := fun k _ => ⟨_, rfl⟩
  have hmem : judge ∈ judgeCall.classifiers := List.mem_cons_self
  have herrors : judgeCall.errors "judge" = 1 := by decide +kernel
  have hshort : judgeCall.short "judge" = 0 := by decide +kernel
  have hzero : Metrics.zero.failuresOf "judge" = 0 := rfl
  have hname : judge.name = "judge" := rfl
  obtain ⟨-, hgrowth, -⟩ := Metrics.failuresOf_grows_by_errors_unless_short .zero judgeCall haccepted
    hunbroken judge hmem
  rw [hname] at hgrowth
  exact ⟨haccepted, hunbroken, hmem, herrors, by omega⟩

end FleetLabels
