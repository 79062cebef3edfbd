import FleetLabels.Proofs.Plain

/-!
    Failing closed.

    Answers may be lost: a listing, a version or a run of a script that succeeded now fails, or gives
    what cannot be read (`Classification.Loses`). A failure is a fault and never counts as finding
    nothing, so that what is met on the answers that are left is met on all of them, with the same
    results. Losing answers can take a match away and never makes one. -/

namespace FleetLabels

/-! ### Scripts -/

/-- Resources that are sifted to the end are sifted alike by a judge that knows more verdicts. -/
theorem Script.sift_of_loses {judge judge' : Resource → Except ScriptFault Bool}
    (hloses : ∀ r, judge' r = judge r ∨ ∃ f, judge' r = .error f) {before rs found : List Resource}
    (h : (Script.sift (fun _ => judge') before rs).1 = .ok found) :
    (Script.sift (fun _ => judge) before rs).1 = .ok found := by
  induction rs generalizing before found with
  | nil => exact h
  | cons r rest ih =>
    rw [Script.sift] at h ⊢
    rcases hloses r with hsame | ⟨f, hfail⟩
    · rw [hsame] at h
      cases hverdict : judge r with
      | error f =>
        simp only [hverdict] at h
        cases h
      | ok accepted =>
        simp only [hverdict] at h ⊢
        cases hrest : (Script.sift (fun _ => judge') (before ++ [r]) rest).1 with
        | error f =>
          rw [hrest] at h
          cases h
        | ok others =>
          rw [hrest] at h
          rw [ih hrest]
          exact h
    · simp only [hfail] at h
      cases h

namespace Classification

variable {e e' : Evaluator} {src src' : Source} {cluster : Cluster} {c : Classifier}
  {r : Classification}

/-- Of the answers behind `e` and `src`, those behind `e'` and `src'` have lost some: each is the same
    or a failure. A script that gives no verdict and a version that cannot be read count as failures. -/
structure Loses (e e' : Evaluator) (src src' : Source) : Prop where
  registry : e'.registry = e.registry
  scripts : ∀ script r, Script.run e'.runtime script r = Script.run e.runtime script r ∨
    ∃ f, Script.run e'.runtime script r = .error f
  listings : ∀ n s, src'.list n s = src.list n s ∨ ∃ text, src'.list n s = .error text
  version : src'.version = src.version ∨
    ∀ d, src'.version = some (.ok d) → ∃ u, Version.ofDatum d = .error u

/-! ### Constraints -/

theorem found_of_loses (h : Loses e e' src src') {script : String} {rs found : List Resource}
    (hfound : (e'.judge script rs).found = .ok found) : (e.judge script rs).found = .ok found := by
  rw [Evaluator.judge_eq] at hfound ⊢
  split at hfound
  · rename_i hempty
    rw [if_pos hempty]
    exact hfound
  · rename_i hscript
    rw [if_neg hscript]
    cases hsift : (Script.sift (fun _ => Script.run e'.runtime script) [] rs).1 with
    | error f =>
      simp only [hsift] at hfound
      cases hfound
    | ok others =>
      simp only [hsift] at hfound
      simp only [Script.sift_of_loses (h.scripts script) hsift]
      exact hfound

/-- A constraint's result by the resources that it selects. -/
def resultOf (d : Constraint) : Except Fault (List Resource) → ConstraintResult
  | .ok rs => .counted d rs.length
  | .error f => .failed d f

theorem evaluate_eq_resultOf (e : Evaluator) (d : Constraint) (items : List Listed) :
    (e.evaluate d items).map Prod.fst =
      match unsupported? d.scope.kind (e.supportedFields d.scope) d.fieldFilters with
      | some f => .ok (.failed d f)
      | none => (candidates d.scope items).map fun rs =>
          resultOf d (e.judge d.script (passing d.labelFilters d.fieldFilters rs)).found := by
  rw [Evaluator.evaluate_eq, Evaluator.select_eq]
  cases unsupported? d.scope.kind (e.supportedFields d.scope) d.fieldFilters with
  | some f => rfl
  | none => cases candidates d.scope items <;> rfl

/-- A constraint that is satisfied on the answers that are left has the same result on all of them. -/
theorem evaluate_of_loses (h : Loses e e' src src') {d : Constraint} {items : List Listed}
    {x : ConstraintResult} (hx : (e'.evaluate d items).map Prod.fst = .ok x)
    (hsatisfied : x.satisfied = true) : (e.evaluate d items).map Prod.fst = .ok x := by
  have hfields : e'.supportedFields d.scope = e.supportedFields d.scope := by
    rw [Evaluator.supportedFields, Evaluator.supportedFields, h.registry]
  rw [evaluate_eq_resultOf, hfields] at hx
  rw [evaluate_eq_resultOf]
  cases hfield : unsupported? d.scope.kind (e.supportedFields d.scope) d.fieldFilters with
  | some f =>
    simp only [hfield] at hx ⊢
    exact hx
  | none =>
    simp only [hfield] at hx ⊢
    cases hitems : candidates d.scope items with
    | error a =>
      rw [hitems] at hx
      cases hx
    | ok rs =>
      rw [hitems] at hx
      cases hfound : (e'.judge d.script (passing d.labelFilters d.fieldFilters rs)).found with
      | error f =>
        simp only [Except.map, hfound] at hx
        cases hx
        cases hsatisfied
      | ok found =>
        simp only [Except.map, hfound] at hx
        simp only [Except.map, found_of_loses h hfound]
        exact hx

/-- A listing that fails leaves its constraint unsatisfied, also where nothing is wanted. -/
theorem plainConstraint_of_loses (h : Loses e e' src src') {d : Constraint} {x : ConstraintResult}
    (hx : plainConstraint e' src' cluster d = .ok x) (hsatisfied : x.satisfied = true) :
    plainConstraint e src cluster d = .ok x := by
  rw [plainConstraint] at hx ⊢
  rcases h.listings 0 d.scope with hsame | ⟨text, hfail⟩
  · rw [hsame] at hx
    cases hlist : src.list 0 d.scope with
    | error text =>
      simp only [hlist] at hx
      exact hx
    | ok items =>
      simp only [hlist] at hx
      exact evaluate_of_loses h hx hsatisfied
  · simp only [hfail] at hx
    cases hx
    cases hsatisfied

/-! ### Requirements -/

theorem plainRequirement_of_loses (h : Loses e e' src src') {q : Requirement}
    (hmet : (plainRequirement src' cluster q).satisfied = true) :
    plainRequirement src cluster q = plainRequirement src' cluster q := by
  rcases h.version with hsame | hlost
  · rw [plainRequirement, plainRequirement, View.readVersion, View.readVersion, hsame]
  · cases hversion : src'.version with
    | none =>
      simp only [plainRequirement, View.readVersion, hversion] at hmet
      cases hmet
    | some answer =>
      cases answer with
      | error text =>
        simp only [plainRequirement, View.readVersion, hversion, Except.mapError] at hmet
        cases hmet
      | ok d =>
        obtain ⟨u, hu⟩ := hlost d hversion
        simp only [plainRequirement, View.readVersion, hversion, Except.mapError,
          Requirement.evaluate, Requirement.resultOf, Comparison.holds, hu, bind, Except.bind] at hmet
        cases hmet

/-! ### Verdicts -/

/-- Verdicts that match are the same when their results are. -/
theorem Plain.eq_of_matched {t : Classification} (hr : Plain e src cluster c r)
    (ht : Plain e' src' cluster c t) (hconstraints : r.constraints = t.constraints)
    (hrequirements : r.requirements = t.requirements) (hmatched : t.matched = true) : r = t := by
  have hmatched' : r.matched = true := by
    rw [hr.matched, hconstraints, hrequirements]
    exact ht.matched.mp hmatched
  have hfailures := (hr.failures hmatched').trans (ht.failures hmatched).symm
  have hclassifier := hr.byClassifier.trans ht.byClassifier.symm
  have hcluster := hr.onCluster.trans ht.onCluster.symm
  cases r
  cases t
  cases hmatched
  cases hmatched'
  cases hconstraints
  cases hrequirements
  cases hfailures
  cases hclassifier
  cases hcluster
  rfl

/-- A classifier that matches on the answers that are left matches on all of them, and has the very
    same results: losing answers makes no match. In particular it does not break off. -/
theorem classify_eq_of_loses (e e' : Evaluator) (src src' : Source) (cluster : Cluster)
    (c : Classifier) (h : Loses e e' src src') (hs : src.Steady) (hs' : src'.Steady)
    (r : Classification) (hr : (classify e' src' cluster c).1 = .ok r)
    (hmatched : r.matched = true) : (classify e src cluster c).1 = .ok r := by
  have hplain' := plain_of_classify hs' hr
  obtain ⟨hsatisfied, hmet⟩ := hplain'.matched.mp hmatched
  have hresults : c.constraints.mapM (plainConstraint e src cluster) = .ok r.constraints :=
    Attempt.mapM_of_forall₂ hplain'.constraints fun d x hx hdx =>
      plainConstraint_of_loses h hdx (hsatisfied x hx)
  have hrequirements : c.requirements.map (plainRequirement src cluster) = r.requirements := by
    rw [hplain'.requirements]
    refine List.map_congr_left fun q hq => plainRequirement_of_loses h (hmet _ ?_)
    rw [hplain'.requirements]
    exact List.mem_map_of_mem hq
  cases hverdict : (classify e src cluster c).1 with
  | error a =>
    rw [classify_eq_plain hs, hresults] at hverdict
    cases hverdict
  | ok t =>
    have hplain := plain_of_classify hs hverdict
    rw [classify_eq_plain hs, hresults] at hverdict
    cases hverdict
    rw [hplain.eq_of_matched hplain' rfl hrequirements hmatched]

end Classification

/-! ### Services that are lost -/

namespace Sample

def nodes : Scope := ⟨"", "v1", "Node", ""⟩

/-- Every script accepts every resource. -/
def frank : Evaluator := ⟨.builtin, some fun _ _ => .value (.bool true)⟩

/-- Of the scripts only `s` still gives a verdict. -/
def shy : Evaluator :=
  ⟨.builtin, some fun script _ => .value (if script = "s" then .bool true else .text "yes")⟩

/-- One pod, nothing else, and a version. -/
def sighted : Source :=
  ⟨fun _ s => .ok (if s = pods then [.resource ⟨"v1", "Pod", "p", "", Table.empty, .mapping []⟩]
    else []), some (.ok (.text "v1.27.3"))⟩

/-- Services can no longer be listed, and the version no longer be read. -/
def dimmed : Source :=
  ⟨fun n s => if s = services then .error "boom" else sighted.list n s,
    some (.ok (.text "unknown"))⟩

/-- Wants pods that a script accepts, and nothing in another scope. -/
def guard (s : Scope) : Classifier :=
  ⟨"guard", [], [⟨pods, [], [], none, none, "s"⟩, ⟨s, [], [], some 0, some 0, ""⟩], [], none, none,
    List.nodup_nil⟩

end Sample

open Sample in
/-- Wanting no nodes is met though other answers are lost, and so it is met when none is. -/
theorem guard_matches_on_what_is_left :
    ∃ r, (Classification.classify shy dimmed north (guard nodes)).1 = .ok r ∧ r.matched = true ∧
      (Classification.classify frank sighted north (guard nodes)).1 = .ok r := by
  have hloses : Classification.Loses frank shy sighted dimmed := by
    refine ⟨rfl, fun script r => ?_, fun n s => ?_, .inr fun d hd => ?_⟩
    · by_cases hscript : script = "s"
      · exact .inl (by simp [Script.run, frank, shy, hscript])
      · exact .inr ⟨.answerKind "str", by simp [Script.run, shy, hscript, Script.verdict,
          Datum.kindName]⟩
    · by_cases hs : s = services
      · exact .inr ⟨"boom", if_pos hs⟩
      · exact .inl (if_neg hs)
    · cases hd
      exact ⟨⟨.text "unknown"⟩, rfl⟩
  exact ⟨_, rfl, rfl, Classification.classify_eq_of_loses frank shy sighted dimmed north
    (guard nodes) hloses (fun _ _ _ => rfl) (fun _ _ _ => rfl) _ rfl rfl⟩

open Sample in
/-- Wanting no services is met where there are none, and not where they cannot be listed. -/
example :
    ((Classification.classify shy sighted north (guard services)).1.map (·.matched)).toOption =
        some true ∧
      ((Classification.classify shy dimmed north (guard services)).1.map (·.matched)).toOption =
        some false :=
  ⟨rfl, rfl⟩

end FleetLabels
