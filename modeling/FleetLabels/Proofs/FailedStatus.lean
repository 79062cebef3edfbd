import FleetLabels.Proofs.Judgement
import FleetLabels.Proofs.Verdicts

/-!
    When a status tells of an error.

    Every error has a text, except a script's own refusal, whose text is the runtime's and may be
    empty. An error without a text is no failure. A classifier that is not being deleted has therefore
    failed on a cluster exactly when an error was met there and not all of its errors are refusals
    without a text (`Classification.Hushed`). One with only such errors does not match, holds nothing,
    and counts as provisioned. -/

namespace FleetLabels

/-! ### Texts of errors -/

theorem append_ne_empty {s : String} (h : s ≠ "") (t : String) : s ++ t ≠ "" :=
  fun heq => h (String.append_eq_empty_iff.mp heq).1

theorem ScriptFault.message_ne_empty {f : ScriptFault} (h : f ≠ .refused "") : f.message ≠ "" := by
  cases f with
  | noRuntime => decide
  | failed resource text =>
    repeat refine append_ne_empty ?_ _
    decide
  | refused text => exact fun ht => h (congrArg ScriptFault.refused ht)
  | noMatching => decide
  | matchingKind kind => exact append_ne_empty (by decide) kind
  | answerKind kind => exact append_ne_empty (by decide) kind

theorem Fault.message_ne_empty {f : Fault} (h : f ≠ .script (.refused "")) : f.message ≠ "" := by
  cases f with
  | unsupportedField field kind supported =>
    repeat refine append_ne_empty ?_ _
    decide
  | script f => exact ScriptFault.message_ne_empty fun hf => h (congrArg Fault.script hf)
  | listing scope cluster text =>
    repeat refine append_ne_empty ?_ _
    decide

/-- Only a refusal without a text tells nothing. -/
theorem Fault.isTold_iff (f : Fault) : f.isTold = true ↔ f ≠ .script (.refused "") := by
  rw [isTold, Bool.not_eq_true', String.isEmpty_eq_false_iff]
  refine ⟨fun h hf => h ?_, Fault.message_ne_empty⟩
  rw [hf]
  rfl

theorem Version.Unreadable.message_ne_empty (u : Version.Unreadable) : u.message ≠ "" :=
  append_ne_empty (by decide) _

/-! ### Errors and failures of a classification -/

namespace Classification

variable {e : Evaluator} {src : Source} {cluster : Cluster} {c : Classifier} {v : View}
  {r : Classification}

/-- Some result of a classification carries an error. -/
def Erred (r : Classification) : Prop :=
  (∃ x ∈ r.constraints, x.fault ≠ none) ∨ ∃ x ∈ r.requirements, x.failure ≠ none

/-- A classification met errors, and all of them are refusals of scripts without a text. -/
structure Hushed (r : Classification) : Prop where
  erred : ∃ x ∈ r.constraints, x.fault ≠ none
  refused : ∀ x ∈ r.constraints, ∀ f, x.fault = some f → f = .script (.refused "")
  readable : ∀ x ∈ r.requirements, x.failure = none

theorem constraintFailure?_eq_none {x : ConstraintResult} :
    constraintFailure? x = none ↔ ∀ f, x.fault = some f → f = .script (.refused "") := by
  rw [constraintFailure?, ConstraintResult.toldFault?, Option.map_eq_none_iff,
    Option.filter_eq_none_iff]
  refine forall_congr' fun f => imp_congr_right fun _ => ?_
  rw [Fault.isTold_iff, not_not]

/-- A requirement adds to the failures exactly when a version was not readable. -/
theorem requirementFailure?_eq_none (q : Requirement) (version : Datum) :
    requirementFailure? q (q.evaluate version) = none ↔ (q.evaluate version).failure = none := by
  rw [Requirement.evaluate, Requirement.resultOf]
  cases hholds : q.comparison.holds version (.text q.version) with
  | ok b => exact ⟨fun _ => rfl, fun _ => rfl⟩
  | error u =>
    have htext : (!u.message.isEmpty) = true := by
      rw [Bool.not_eq_true', String.isEmpty_eq_false_iff]
      exact u.message_ne_empty
    simp only [requirementFailure?, Option.filter_some, htext, if_true, Option.map_some,
      reduceCtorEq]

theorem zip_evaluate (qs : List Requirement) (version : Datum) :
    qs.zip (qs.map fun q => q.evaluate version) = qs.map fun q => (q, q.evaluate version) := by
  have h := List.zip_map' (l := qs) (f := id) (g := fun q => q.evaluate version)
  rwa [List.map_id] at h

theorem evaluateRequirements_failures (qs : List Requirement) (v : View) :
    (evaluateRequirements src cluster qs v).1.2 = [] ↔
      ∀ x ∈ (evaluateRequirements src cluster qs v).1.1, x.failure = none := by
  cases qs with
  | nil => exact ⟨fun _ x hx => (List.not_mem_nil hx).elim, fun _ => rfl⟩
  | cons q rest =>
    rw [evaluateRequirements, if_neg (by simp)]
    cases hstep : v.versionOf src cluster with
    | mk result w =>
      cases result with
      | error text =>
        refine ⟨fun h => absurd h (List.cons_ne_nil text []), fun h => ?_⟩
        exact absurd (h _ List.mem_cons_self) (Option.some_ne_none text)
      | ok version =>
        simp only [zip_evaluate, List.filterMap_eq_nil_iff, List.forall_mem_map,
          requirementFailure?_eq_none]

/-- Every error is a refusal without a text when there is no error, or when all are hushed. -/
theorem refused_and_readable_iff :
    (∀ x ∈ r.constraints, ∀ f, x.fault = some f → f = .script (.refused "")) ∧
      (∀ x ∈ r.requirements, x.failure = none) ↔ ¬ r.Erred ∨ r.Hushed := by
  constructor
  · rintro ⟨hrefused, hreadable⟩
    by_cases hfault : ∃ x ∈ r.constraints, x.fault ≠ none
    · exact .inr ⟨hfault, hrefused, hreadable⟩
    · refine .inl ?_
      rintro (h | ⟨x, hx, hx'⟩)
      · exact hfault h
      · exact hx' (hreadable x hx)
  · rintro (herred | hhushed)
    · refine ⟨fun x hx f hf => ?_, fun x hx => ?_⟩
      · exact absurd (.inl ⟨x, hx, hf ▸ Option.some_ne_none f⟩) herred
      · by_contra hx'
        exact herred (.inr ⟨x, hx, hx'⟩)
    · exact ⟨hhushed.refused, hhushed.readable⟩

/-- A verdict without failures met no error, or only hushed ones. -/
theorem failures_of_classifyIn (h : (classifyIn e src cluster c v).1 = .ok r) :
    r.failures = [] ↔ ¬ r.Erred ∨ r.Hushed := by
  rw [← refused_and_readable_iff]
  obtain ⟨results, w, -, rfl⟩ := classifyIn_ok h
  simp only [ofResults, List.append_eq_nil_iff, List.filterMap_eq_nil_iff,
    constraintFailure?_eq_none, evaluateRequirements_failures]

/-! ### Errors and matches -/

theorem evaluate_ok {d : Constraint} {items : List Listed} {out : ConstraintResult × List ScriptCall}
    (h : e.evaluate d items = .ok out) :
    (∃ n, out.1 = .counted d n) ∨ ∃ f, out.1 = .failed d f := by
  obtain ⟨s, -, hs⟩ := Attempt.of_bind_eq_ok h
  cases hs
  cases s.found with
  | ok rs => exact .inl ⟨rs.length, rfl⟩
  | error f => exact .inr ⟨f, rfl⟩

/-- A constraint was either counted or failed. -/
theorem evaluateConstraint_ok {d : Constraint} {x : ConstraintResult}
    (h : (evaluateConstraint e src cluster d v).1 = .ok x) :
    (∃ n, x = .counted d n) ∨ ∃ f, x = .failed d f := by
  rw [evaluateConstraint] at h
  cases hstep : v.list src d.scope with
  | mk result w =>
    rw [hstep] at h
    cases result with
    | error text => cases h; exact .inr ⟨_, rfl⟩
    | ok items =>
      cases heval : e.evaluate d items with
      | error a => simp only [heval] at h; cases h
      | ok out => simp only [heval] at h; cases h; exact evaluate_ok heval

/-- A constraint with an error is not satisfied, whether the error has a text or not. -/
theorem not_matched_of_fault (h : (classifyIn e src cluster c v).1 = .ok r)
    {x : ConstraintResult} (hx : x ∈ r.constraints) (hfault : x.fault ≠ none) :
    r.matched = false := by
  obtain ⟨results, w, hresults, rfl⟩ := classifyIn_ok h
  obtain ⟨d, -, u, hu⟩ := exists_left_of_forall₂ (Viewing.forall₂_of_each hresults) hx
  have hsatisfied : x.satisfied = false := by
    rcases evaluateConstraint_ok hu with ⟨n, rfl⟩ | ⟨f, rfl⟩
    · exact absurd rfl hfault
    · rfl
  have hall : results.all (·.satisfied) = false :=
    List.all_eq_false.mpr ⟨x, hx, by simp [hsatisfied]⟩
  simp only [ofResults, hall, Bool.false_and]

end Classification

/-! ### Errors and statuses of a pass -/

namespace Engine

variable {e : Engine} {src : Source} {source : Cluster → Source} {cs : List Classifier}
  {clusters : List Cluster} {k : Cluster} {r : Classification}

/-- A classification met an error, or the evaluation of its cluster broke off. -/
def Failing (e : Engine) (src : Source) (cs : List Classifier) (k : Cluster)
    (r : Classification) : Prop :=
  r.Erred ∨ ∃ a, (Classification.classifyAll e.evaluator src k cs).1 = .error a

/-- A classification comes from a classifier's evaluation, or the evaluation of all broke off. -/
theorem classifyIn_or_broken (hr : r ∈ e.classifications src cs k) :
    ((∀ a, (Classification.classifyAll e.evaluator src k cs).1 ≠ .error a) ∧
        ∃ c v, (Classification.classifyIn e.evaluator src k c v).1 = .ok r) ∨
      ∃ a c, (Classification.classifyAll e.evaluator src k cs).1 = .error a ∧
        r = Classification.broken k a c := by
  rw [classifications] at hr
  cases hall : (Classification.classifyAll e.evaluator src k cs).1 with
  | error a =>
    rw [hall] at hr
    obtain ⟨c, -, rfl⟩ := List.mem_map.mp hr
    exact .inr ⟨a, c, rfl, rfl⟩
  | ok rs =>
    rw [hall] at hr
    obtain ⟨c, -, v, hv⟩ := exists_left_of_forall₂ (Viewing.forall₂_of_each hall) hr
    refine .inl ⟨fun a ha => ?_, c, v, hv⟩
    cases ha

/-- A classification has failures exactly when it is failing and not hushed. -/
theorem failures_ne_nil_iff (hr : r ∈ e.classifications src cs k) :
    r.failures ≠ [] ↔ e.Failing src cs k r ∧ ¬ r.Hushed := by
  rcases classifyIn_or_broken hr with ⟨hsound, c, v, hv⟩ | ⟨a, c, hall, rfl⟩
  · rw [ne_eq, Classification.failures_of_classifyIn hv, not_or, not_not]
    refine and_congr_left fun _ => ⟨.inl, ?_⟩
    rintro (herred | ⟨a, ha⟩)
    · exact herred
    · exact absurd ha (hsound a)
  · refine ⟨fun _ => ⟨.inr ⟨a, hall⟩, fun hhushed => ?_⟩, fun _ => List.cons_ne_nil _ _⟩
    obtain ⟨x, hx, -⟩ := hhushed.erred
    cases hx

theorem not_matched_of_hushed (hr : r ∈ e.classifications src cs k) (hhushed : r.Hushed) :
    r.matched = false := by
  rcases classifyIn_or_broken hr with ⟨-, c, v, hv⟩ | ⟨a, c, -, rfl⟩
  · obtain ⟨x, hx, hfault⟩ := hhushed.erred
    exact Classification.not_matched_of_fault hv hx hfault
  · rfl

section Status

variable {a : Option Arbitration} (hdeleted : r.classifier.isDeleted = false)

include hdeleted in
theorem status_eq_failed (hr : r ∈ e.classifications src cs k) {q : MatchRecord} :
    (StatusReport.settledStatus r q a).1 = .failed ↔ e.Failing src cs k r ∧ ¬ r.Hushed :=
  (StatusReport.settledStatus_eq_failed hdeleted).trans (failures_ne_nil_iff hr)

include hdeleted in
/-- A hushed classification holds nothing and has no failures, so that nothing is left to apply. -/
theorem status_of_hushed (hr : r ∈ e.classifications src cs k) {b : Arbitration}
    (hhushed : r.Hushed) :
    (StatusReport.settledStatus r (StatusReport.recordOf r (some b)) a).1 = .provisioned := by
  have hfailures : r.failures = [] := by
    by_contra hne
    exact ((failures_ne_nil_iff hr).mp hne).2 hhushed
  have hmanaged : (StatusReport.recordOf r (some b)).managed = [] := by
    refine (StatusReport.recordOf_unarbitrated fun hmatched => ?_).1
    rw [not_matched_of_hushed hr hhushed] at hmatched
    cases hmatched
  refine congrArg Prod.fst (StatusReport.settledStatus_eq_provisioned hdeleted hfailures ?_)
  rw [hmanaged]
  exact fun key hkey => absurd hkey List.not_mem_nil

end Status

/-- The status of a classifier that is not being deleted tells of the errors on a cluster, unless all
    of them are refusals without a text. Then nothing is left to be seen of them. -/
theorem run_fails_on_errors_unless_hushed (e : Engine) (source : Cluster → Source)
    (cs : List Classifier) (clusters : List Cluster) (hnames : (cs.map Classifier.name).Nodup)
    (hkeys : (clusters.map Cluster.key).Nodup) :
    ∃ p, e.run source cs clusters = .ok p ∧ ∀ c ∈ cs, c.isDeleted = false → ∀ k ∈ clusters,
      ∃ r t, p.find? c.name k.key = some r ∧ p.reportsOf c.name k.key = [t] ∧
        (t.status = .failed ↔ r.failures ≠ []) ∧
        ((t.status = .failed ↔ e.Failing (source k) cs k r) ↔ ¬ r.Hushed) ∧
        (r.Hushed → t.status = .provisioned) := by
  refine ⟨e.settled source cs clusters, run_eq_settled hnames hkeys, fun c hc hdeleted k hk => ?_⟩
  obtain ⟨r, hr, rfl⟩ := exists_classification e (source k) k hc
  obtain ⟨t, ht, hstatus⟩ := exists_report hnames hkeys hk hr
  refine ⟨r, t, find?_settled hnames hkeys hk hr, ht, ?_⟩
  rw [hstatus]
  refine ⟨StatusReport.settledStatus_eq_failed hdeleted, ?_, status_of_hushed hdeleted hr⟩
  rw [status_eq_failed hdeleted hr]
  refine ⟨fun h hhushed => ?_, fun h => and_iff_left h⟩
  exact (h.mpr (.inl (.inl hhushed.erred))).2 hhushed

end Engine

/-! ### A script that refuses without a text -/

namespace Sample

/-- Wants a script to accept a pod. -/
def judge : Classifier :=
  ⟨"judge", [⟨"env", "live"⟩], [⟨⟨"", "v1", "Pod", ""⟩, [], [], none, none, "s"⟩], [], none, none,
    List.pairwise_singleton _ _⟩

def occupied : Source :=
  ⟨fun _ _ => .ok [.resource ⟨"v1", "Pod", "p", "", Table.empty, .mapping []⟩], none⟩

/-- Scripts are refused without a text. -/
def mute : Engine := ⟨⟨.builtin, some fun _ _ => .refused ""⟩, .byCreation⟩

/-- The verdict on `judge`: one error, and no failure. -/
def hushed : Classification :=
  ⟨judge, north, false, [.failed ⟨⟨"", "v1", "Pod", ""⟩, [], [], none, none, "s"⟩
    (.script (.refused ""))], [], []⟩

end Sample

open Sample in
theorem judge_provisioned_despite_error :
    ∃ p, mute.run (fun _ => occupied) [judge] [north] = .ok p ∧
      p.find? "judge" north.key = some hushed ∧
      mute.Failing occupied [judge] north hushed ∧
      (p.reportsOf "judge" north.key).map Report.status = [.provisioned] := by
  have hnames : ([judge].map Classifier.name).Nodup := by decide
  have hkeys : ([north].map Cluster.key).Nodup := by decide
  have hr : hushed ∈ mute.classifications occupied [judge] north := List.mem_singleton.mpr rfl
  have herred : hushed.Erred := .inl ⟨_, List.mem_cons_self, Option.some_ne_none _⟩
  have hhushed : hushed.Hushed := by
    refine ⟨⟨_, List.mem_cons_self, Option.some_ne_none _⟩, fun x hx f hf => ?_, fun x hx => ?_⟩
    · rw [List.mem_singleton.mp hx] at hf
      exact (Option.some.inj hf).symm
    · cases hx
  have hfound := @Engine.find?_settled mute (fun _ => occupied) _ _ _ _ hnames hkeys
    List.mem_cons_self hr
  obtain ⟨t, ht, hstatus⟩ := @Engine.exists_report mute (fun _ => occupied) _ _ _ _ hnames hkeys
    List.mem_cons_self hr
  rw [Engine.status_of_hushed rfl hr hhushed] at hstatus
  refine ⟨_, Engine.run_eq_settled hnames hkeys, hfound, .inl herred, ?_⟩
  exact (congrArg (List.map Report.status) ht).trans (congrArg (fun s => [s]) hstatus)

open Sample in
/-- Where scripts cannot run at all, the error has a text and the status tells of it. -/
theorem judge_failed_without_runtime :
    ∃ p t, engine.run (fun _ => occupied) [judge] [north] = .ok p ∧
      p.reportsOf "judge" north.key = [t] ∧ t.status = .failed := by
  have hnames : ([judge].map Classifier.name).Nodup := by decide
  have hkeys : ([north].map Cluster.key).Nodup := by decide
  obtain ⟨p, hrun, hp⟩ := Engine.run_fails_on_errors_unless_hushed engine (fun _ => occupied) [judge]
    [north] hnames hkeys
  obtain ⟨r, t, hfound, ht, hfailed, -⟩ := hp judge List.mem_cons_self rfl north List.mem_cons_self
  have hr : engine.alone occupied north judge ∈ engine.classifications occupied [judge] north :=
    List.mem_singleton.mpr rfl
  have hexpected := @Engine.find?_settled engine (fun _ => occupied) _ _ _ _ hnames hkeys
    List.mem_cons_self hr
  rw [Engine.run_eq_settled hnames hkeys] at hrun
  obtain rfl := Except.ok.inj hrun
  obtain rfl : r = engine.alone occupied north judge :=
    Option.some.inj (hfound.symm.trans hexpected)
  exact ⟨_, t, Engine.run_eq_settled hnames hkeys, ht, hfailed.mpr (List.cons_ne_nil _ _)⟩

end FleetLabels
