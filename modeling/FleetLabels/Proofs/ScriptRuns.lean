import FleetLabels.Proofs.Matches

/-!
    The runs of a script.

    A script costs a run for every resource that it is asked about. An evaluation runs it on the candidates
    of the constraint, one after another, up to the first that it gives no verdict on, and on nothing else
    (`RememberingEvaluator.Runs`). Resources that are no candidates leave no trace, neither in the runs nor
    in the result, and nor does what the runtime would answer where it is not asked
    (`RememberingEvaluator.runs_on_candidates_alone`).

    This is said of runtimes that may remember their runs and answer anew when a resource that is listed
    twice comes up again. -/

namespace FleetLabels

/-! ### What is sifted -/

namespace Script

/-- Only the verdicts on what was judged make a difference, each after those before it. -/
theorem sift_congr {judge judge' : List Resource → Resource → Except ScriptFault Bool}
    {before rs : List Resource} (h : ∀ pre r post, (sift judge before rs).2 = pre ++ r :: post →
      judge' (before ++ pre) r = judge (before ++ pre) r) :
    sift judge' before rs = sift judge before rs := by
  induction rs generalizing before with
  | nil => rfl
  | cons r rest ih =>
    -- the first resource is judged in any case, and the rest where there is a verdict on it
    have hr : judge' before r = judge before r := by
      obtain ⟨post, hpost⟩ : ∃ post, (sift judge before (r :: rest)).2 = r :: post := by
        rw [sift]
        split <;> exact ⟨_, rfl⟩
      have hfirst := h [] r post hpost
      rwa [List.append_nil] at hfirst
    rw [sift, sift, hr]
    cases hverdict : judge before r with
    | error f => rfl
    | ok accepted =>
      have hrest : sift judge' (before ++ [r]) rest = sift judge (before ++ [r]) rest := by
        refine ih fun pre q post hsplit => ?_
        rw [List.append_assoc]
        refine h (r :: pre) q post ?_
        rw [sift, hverdict]
        exact congrArg (r :: ·) hsplit
      rw [hrest]

end Script

/-! ### Resources that are no candidates -/

namespace Constraint

/-- Another inventory in which resources that are no candidates may be new, left out, or changed into
    others that are none either. -/
inductive Amended (c : Constraint) : List Resource → List Resource → Prop where
  | nil : Amended c [] []
  | kept {rs ts : List Resource} (r : Resource) (h : Amended c rs ts) : Amended c (r :: rs) (r :: ts)
  | added {rs ts : List Resource} {t : Resource} (ht : ¬ c.Candidate t) (h : Amended c rs ts) :
      Amended c rs (t :: ts)
  | removed {rs ts : List Resource} {r : Resource} (hr : ¬ c.Candidate r) (h : Amended c rs ts) :
      Amended c (r :: rs) ts
  | changed {rs ts : List Resource} {r t : Resource} (hr : ¬ c.Candidate r) (ht : ¬ c.Candidate t)
      (h : Amended c rs ts) : Amended c (r :: rs) (t :: ts)

theorem candidatesIn_cons_of_not {c : Constraint} {r : Resource} (hr : ¬ c.Candidate r)
    (rs : List Resource) : c.candidatesIn (r :: rs) = c.candidatesIn rs :=
  List.filter_cons_of_neg (by simpa using hr)

theorem Amended.candidatesIn_eq {c : Constraint} {rs ts : List Resource} (h : c.Amended rs ts) :
    c.candidatesIn rs = c.candidatesIn ts := by
  induction h with
  | nil => rfl
  | kept r _ ih =>
    simp only [candidatesIn, List.filter_cons] at ih ⊢
    rw [ih]
  | added ht _ ih => rw [candidatesIn_cons_of_not ht, ih]
  | removed hr _ ih => rw [candidatesIn_cons_of_not hr, ih]
  | changed hr ht _ ih => rw [candidatesIn_cons_of_not hr, candidatesIn_cons_of_not ht, ih]

end Constraint

/-! ### Runs -/

namespace RememberingRuntime

/-- A runtime gives a verdict on a resource after it was run on others. -/
def Decides (answer : RememberingRuntime) (script : String) (before : List Resource) (r : Resource) :
    Prop :=
  ∃ b, Script.Judges script r (some (answer (before.map fun q => (script, q)))) (.ok b)

/-- A runtime that is run on resources one after another gives a verdict on each. -/
def DecidesAll (answer : RememberingRuntime) (script : String) (rs : List Resource) : Prop :=
  ∀ pre r post, rs = pre ++ r :: post → answer.Decides script pre r

end RememberingRuntime

namespace RememberingEvaluator

variable {registry : Registry} {answer other : RememberingRuntime} {c : Constraint}
  {rs pre : List Resource} {script : String} {r : Resource} {s : Selection}

/-- The runs that an evaluation has to make. There are none without a script or with a field that is not
    supported. Otherwise the script is run on the candidates, in their order and as often as they come:
    on all of them when it gives a verdict on each, and else up to the first that it gives none on. -/
structure Runs (registry : Registry) (answer : RememberingRuntime) (c : Constraint)
    (rs : List Resource) (calls : List ScriptCall) : Prop where
  idle : c.script = "" ∨ (∃ f ∈ c.fieldFilters, f.field ∉ registry.fieldsIn c.scope) → calls = []
  through : (∀ f ∈ c.fieldFilters, f.field ∈ registry.fieldsIn c.scope) → c.script ≠ "" →
    answer.DecidesAll c.script (c.candidatesIn rs) →
    calls = (c.candidatesIn rs).map fun r => (c.script, r)
  cut : (∀ f ∈ c.fieldFilters, f.field ∈ registry.fieldsIn c.scope) → c.script ≠ "" →
    ∀ pre r post, c.candidatesIn rs = pre ++ r :: post → answer.DecidesAll c.script pre →
      ¬ answer.Decides c.script pre r → calls = (pre ++ [r]).map fun q => (c.script, q)

/-- Where there is no verdict there is a fault. -/
theorem exists_fault_of_not_decides (registry : Registry) (h : ¬ answer.Decides script pre r) :
    ∃ f, Judges ⟨registry, some answer⟩ script pre r (.error f) := by
  cases hrun : run ⟨registry, some answer⟩ script pre r with
  | error f => exact ⟨f, run_eq_iff.mp hrun⟩
  | ok b => exact absurd ⟨b, run_eq_iff.mp hrun⟩ h

theorem callsOn_eq (hscript : script ≠ "") (rs : List Resource) :
    callsOn ⟨registry, some answer⟩ script rs = rs.map fun r => (script, r) :=
  if_pos ⟨hscript, rfl⟩

theorem calls_judge (hscript : script ≠ "") (rs : List Resource) :
    (judge ⟨registry, some answer⟩ script rs).calls =
      (Script.sift (run ⟨registry, some answer⟩ script) [] rs).2.map fun r => (script, r) := by
  rw [judge_of_sift hscript rfl, callsOn_eq hscript]

/-- The runs that a selection notes are those that it has to make. -/
theorem runs_of_select
    (h : select ⟨registry, some answer⟩ c (rs.map .resource) = .ok s) :
    Runs registry answer c rs s.calls := by
  constructor
  case idle =>
    intro hidle
    rw [select_resources] at h
    cases hfield : unsupported? c.scope.kind (registry.fieldsIn c.scope) c.fieldFilters with
    | some f =>
      rw [hfield] at h
      cases h
      rfl
    | none =>
      rw [hfield] at h
      cases h
      rcases hidle with hscript | ⟨f, hf, hunsupported⟩
      · rw [judge, if_pos (by simpa using hscript)]
      · exact absurd (unsupported?_eq_none.mp hfield f hf) hunsupported
  case through =>
    intro hsupports hscript hall
    rw [select_of_judged (e := ⟨registry, some answer⟩) hsupports fun _ => hall] at h
    cases h
    exact callsOn_eq hscript _
  case cut =>
    intro hsupports hscript pre r post hsplit hpre hr
    obtain ⟨f, hf⟩ := exists_fault_of_not_decides registry hr
    rw [select_of_unjudged (e := ⟨registry, some answer⟩) hsupports hscript hsplit hpre hf] at h
    cases h
    exact callsOn_eq hscript _

/-- A runtime that answers the runs of a script alike leads to the same. -/
theorem judge_of_same_answers
    (h : ∀ pre k post, (judge ⟨registry, some answer⟩ script rs).calls = pre ++ k :: post →
      other pre k.1 k.2 = answer pre k.1 k.2) :
    judge ⟨registry, some other⟩ script rs = judge ⟨registry, some answer⟩ script rs := by
  by_cases hscript : script = ""
  · rw [judge, judge, if_pos (by simpa using hscript), if_pos (by simpa using hscript)]
  have hsift : Script.sift (run ⟨registry, some other⟩ script) [] rs =
      Script.sift (run ⟨registry, some answer⟩ script) [] rs := by
    refine Script.sift_congr fun pre r post hsplit => ?_
    have hanswer := h (pre.map fun q => (script, q)) (script, r) (post.map fun q => (script, q)) <| by
      rw [calls_judge hscript, hsplit, List.map_append, List.map_cons]
    simp only [run, Script.run, Option.map_some, List.nil_append, hanswer]
  rw [judge, judge, hsift]
  rfl

theorem select_of_same_answers
    (hs : select ⟨registry, some answer⟩ c (rs.map .resource) = .ok s)
    (h : ∀ pre k post, s.calls = pre ++ k :: post → other pre k.1 k.2 = answer pre k.1 k.2) :
    select ⟨registry, some other⟩ c (rs.map .resource) =
      select ⟨registry, some answer⟩ c (rs.map .resource) := by
  rw [select_resources] at hs
  rw [select_resources, select_resources]
  cases hfield : unsupported? c.scope.kind (registry.fieldsIn c.scope) c.fieldFilters with
  | some f => rfl
  | none =>
    rw [hfield] at hs
    cases hs
    exact congrArg Except.ok (judge_of_same_answers h)

/-- How a constraint fares depends on what is selected. -/
theorem evaluate_congr {e e' : RememberingEvaluator} {items items' : List Listed}
    (h : e'.select c items' = e.select c items) : e'.evaluate c items' = e.evaluate c items := by
  rw [evaluate, evaluate, h]

/-- With a runtime an evaluation ends, and makes the runs that it has to make. It ends with the same, and
    makes the same runs, on every inventory that has other resources where these are no candidates, and
    with every runtime that answers these runs alike. An `Evaluator` is the case of a runtime that
    remembers nothing. -/
theorem runs_on_candidates_alone (registry : Registry) (answer : RememberingRuntime)
    (c : Constraint) (rs : List Resource) :
    ∃ x calls, evaluate ⟨registry, some answer⟩ c (rs.map .resource) = .ok (x, calls) ∧
      Runs registry answer c rs calls ∧
      (∀ ts, c.Amended rs ts →
        evaluate ⟨registry, some answer⟩ c (ts.map .resource) = .ok (x, calls)) ∧
      ∀ other : RememberingRuntime,
        (∀ pre k post, calls = pre ++ k :: post → other pre k.1 k.2 = answer pre k.1 k.2) →
        evaluate ⟨registry, some other⟩ c (rs.map .resource) = .ok (x, calls) := by
  obtain ⟨s, hs⟩ := exists_select ⟨registry, some answer⟩ c rs
  obtain ⟨x, heval⟩ : ∃ x,
      evaluate ⟨registry, some answer⟩ c (rs.map .resource) = .ok (x, s.calls) := by
    rw [evaluate, hs]
    exact ⟨_, rfl⟩
  refine ⟨x, s.calls, heval, runs_of_select hs, fun ts hts => ?_, fun other hother => ?_⟩
  · exact (evaluate_congr (select_congr hts.candidatesIn_eq.symm)).trans heval
  · exact (evaluate_congr (select_of_same_answers hs hother)).trans heval

end RememberingEvaluator

namespace Sample

/-- Wants one pod of the team that its script accepts. -/
def judged : Constraint :=
  ⟨⟨"", "v1", "Pod", ""⟩, [⟨"team", .equal, "core"⟩], [], none, none, "judge"⟩

def corePod (name : String) : Resource := pod name [("team", "core")]

/-- Accepts twice whatever it is asked about, and fails from then on. -/
def tiring : RememberingRuntime := fun before _ _ =>
  if before.length < 2 then .value (.bool true) else .failed "tired"

end Sample

open Sample in
/-- A pod that is listed three times is accepted twice, and the third run is the last. When a pod of
    another team is put among them the script is run no more often. -/
theorem third_run_is_the_last :
    judged.Amended [corePod "one", corePod "one", corePod "one", corePod "two"]
        [corePod "one", pod "three" [("team", "web")], corePod "one", corePod "one", corePod "two"] ∧
      ∃ x, RememberingEvaluator.evaluate ⟨.builtin, some tiring⟩ judged
        ([corePod "one", pod "three" [("team", "web")], corePod "one", corePod "one",
          corePod "two"].map .resource) =
          .ok (x, [("judge", corePod "one"), ("judge", corePod "one"), ("judge", corePod "one")]) := by
  have hamended : judged.Amended [corePod "one", corePod "one", corePod "one", corePod "two"]
      [corePod "one", pod "three" [("team", "web")], corePod "one", corePod "one", corePod "two"] :=
    .kept _ (.added (by decide) (.kept _ (.kept _ (.kept _ .nil))))
  obtain ⟨x, calls, -, hruns, hothers, -⟩ :=
    RememberingEvaluator.runs_on_candidates_alone .builtin tiring judged
      [corePod "one", corePod "one", corePod "one", corePod "two"]
  have hcalls : calls =
      [("judge", corePod "one"), ("judge", corePod "one"), ("judge", corePod "one")] := by
    refine hruns.cut (fun f hf => absurd hf List.not_mem_nil) (by decide)
      [corePod "one", corePod "one"] (corePod "one") [corePod "two"] rfl ?_ ?_
    · intro a q b hsplit
      have hlength := congrArg List.length hsplit
      simp only [List.length_append, List.length_cons, List.length_nil] at hlength
      refine ⟨true, .answered (if_pos ?_) (.outright true)⟩
      rw [List.length_map]
      omega
    · rintro ⟨b, hb⟩
      cases Script.run_eq_iff.mpr hb
  subst hcalls
  exact ⟨hamended, x, hothers _ hamended⟩

end FleetLabels
