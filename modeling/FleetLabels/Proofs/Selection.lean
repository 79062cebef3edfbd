import FleetLabels.Draft
import FleetLabels.Proofs.Attempt

/-!
    What a constraint selects, and how it fares.

    The candidates of a constraint are the resources in its scope that pass each of its filters
    (`Constraint.Candidate`), and what comes of a script on a candidate is a verdict or a fault
    (`Script.Judges`). An evaluation always ends, with a fault where a field is not supported or the
    script gives no verdict on a candidate, and with the number of accepted candidates everywhere else
    (`RememberingEvaluator.evaluate_fares`). How a constraint has to fare is said of its draft
    (`Constraint.Draft.Fares`).

    A runtime may remember its runs and answer anew when a resource that is listed twice comes up again,
    so each candidate is judged after those before it. For an `Evaluator`, whose runtime remembers
    nothing, a candidate is judged by itself. -/

namespace FleetLabels

/-! ### Filters -/

/-- A label passes `Equal` when it is there with the stated value, and `Different` when it is not. -/
def LabelFilter.Passes (f : LabelFilter) (r : Resource) : Prop :=
  match f.operation with
  | .equal => r.labels.get? f.key = some f.value
  | .different => r.labels.get? f.key ≠ some f.value

/-- A field passes `Equal` when it reads as the stated value, and `Different` when it does not. -/
def FieldFilter.Passes (f : FieldFilter) (r : Resource) : Prop :=
  match f.operation with
  | .equal => selectorText (r.field f.field) = f.value
  | .different => selectorText (r.field f.field) ≠ f.value

theorem LabelFilter.accepts_iff {f : LabelFilter} {r : Resource} :
    f.accepts r = true ↔ f.Passes r := by
  rw [accepts, Passes]
  cases r.labels.get? f.key <;> cases f.operation <;> simp [Operation.accepts]

theorem FieldFilter.accepts_iff {f : FieldFilter} {r : Resource} :
    f.accepts r = true ↔ f.Passes r := by
  rw [accepts, Passes]
  cases f.operation <;> simp [Operation.accepts]

/-! ### Candidates -/

namespace Constraint

/-- A resource is in the scope of a constraint and passes all its filters. -/
structure Candidate (c : Constraint) (r : Resource) : Prop where
  group : r.group = c.scope.group
  version : r.version = c.scope.version
  kind : r.kind = c.scope.kind
  space : r.space = c.scope.space
  labels : ∀ f ∈ c.labelFilters, f.Passes r
  fields : ∀ f ∈ c.fieldFilters, f.Passes r

theorem candidate_iff {c : Constraint} {r : Resource} :
    (r.scope == c.scope && (c.labelFilters.all (·.accepts r) && c.fieldFilters.all (·.accepts r))) =
      true ↔ c.Candidate r := by
  simp only [Bool.and_eq_true, beq_iff_eq, List.all_eq_true, LabelFilter.accepts_iff,
    FieldFilter.accepts_iff]
  constructor
  · rintro ⟨hscope, hlabels, hfields⟩
    exact ⟨congrArg Scope.group hscope, congrArg Scope.version hscope, congrArg Scope.kind hscope,
      congrArg Scope.space hscope, hlabels, hfields⟩
  · intro h
    refine ⟨?_, h.labels, h.fields⟩
    rw [Resource.scope, h.group, h.version, h.kind, h.space]

instance (c : Constraint) (r : Resource) : Decidable (c.Candidate r) :=
  decidable_of_iff _ candidate_iff

/-- The candidates among resources, in their order and as often as they come. -/
def candidatesIn (c : Constraint) (rs : List Resource) : List Resource :=
  rs.filter fun r => c.Candidate r

end Constraint

theorem Datum.text?_eq_some_iff {d : Datum} {s : String} : d.text? = some s ↔ d = .text s := by
  constructor
  · intro h
    unfold text? at h
    split at h
    · rw [Option.some.inj h]
    · cases h
  · rintro rfl
    rfl

namespace Constraint.Draft

/-- A resource goes by the names of a draft and passes all its filters. -/
structure Candidate (d : Draft) (r : Resource) : Prop where
  group : d.scope.group = .text r.group
  version : d.scope.version = .text r.version
  kind : d.scope.kind = .text r.kind
  space : d.scope.space = .text r.space
  labels : ∀ f ∈ d.labelFilters, f.Passes r
  fields : ∀ f ∈ d.fieldFilters, f.Passes r

theorem candidate_iff {d : Draft} {r : Resource} :
    (d.scope.fits r && (d.labelFilters.all (·.accepts r) && d.fieldFilters.all (·.accepts r))) =
      true ↔ d.Candidate r := by
  simp only [Scope.Draft.fits, Bool.and_eq_true, beq_iff_eq, Datum.text?_eq_some_iff, List.all_eq_true,
    LabelFilter.accepts_iff, FieldFilter.accepts_iff]
  constructor
  · rintro ⟨⟨⟨⟨hgroup, hversion⟩, hkind⟩, hspace⟩, hlabels, hfields⟩
    exact ⟨hgroup, hversion, hkind, hspace, hlabels, hfields⟩
  · intro h
    exact ⟨⟨⟨⟨h.group, h.version⟩, h.kind⟩, h.space⟩, h.labels, h.fields⟩

instance (d : Draft) (r : Resource) : Decidable (d.Candidate r) :=
  decidable_of_iff _ candidate_iff

/-- The candidates among resources, in their order and as often as they come. -/
def candidatesIn (d : Draft) (rs : List Resource) : List Resource :=
  rs.filter fun r => d.Candidate r

end Constraint.Draft

/-- The names of a scope. -/
def Scope.draft (s : Scope) : Scope.Draft :=
  ⟨.text s.group, .text s.version, .text s.kind, .text s.space⟩

namespace Constraint

/-- A constraint as one that was accepted with its names. -/
def draft (c : Constraint) : Draft :=
  ⟨c.scope.draft, c.labelFilters, c.fieldFilters, c.minCount, c.maxCount, c.script⟩

theorem candidate_draft {c : Constraint} {r : Resource} : c.draft.Candidate r ↔ c.Candidate r := by
  have hname {a b : String} : Datum.text a = .text b ↔ b = a := by
    rw [Datum.scalar.injEq, Scalar.text.injEq, eq_comm]
  constructor
  · intro h
    exact ⟨hname.mp h.group, hname.mp h.version, hname.mp h.kind, hname.mp h.space, h.labels, h.fields⟩
  · intro h
    exact ⟨hname.mpr h.group, hname.mpr h.version, hname.mpr h.kind, hname.mpr h.space, h.labels,
      h.fields⟩

theorem candidatesIn_draft (c : Constraint) (rs : List Resource) :
    c.draft.candidatesIn rs = c.candidatesIn rs :=
  List.filter_congr fun _ _ => decide_eq_decide.mpr candidate_draft

end Constraint

/-- A listing of resources is gone through to its end. -/
theorem resourcesWhere_resources (wanted : Resource → Bool) (rs : List Resource) :
    resourcesWhere wanted (rs.map .resource) = .ok (rs.filter wanted) := by
  induction rs with
  | nil => rfl
  | cons r rest ih =>
    rw [List.map_cons, resourcesWhere, ih, List.filter_cons]
    rfl

theorem withinBounds_iff {count low : Nat} {high : Option Nat} :
    withinBounds count low (high.map fun n => (n : Int)) = true ↔
      low ≤ count ∧ ∀ n, high = some n → count ≤ n := by
  rw [withinBounds, Bool.and_eq_true, decide_eq_true_iff, Int.ofNat_le]
  cases high <;> simp

/-- A count is allowed when it lies between the bounds, the lower one being 1 where none is stated. -/
theorem Constraint.allows_iff {c : Constraint} {count : Nat} :
    c.allows count = true ↔ c.minCount.getD 1 ≤ count ∧ ∀ n, c.maxCount = some n → count ≤ n :=
  withinBounds_iff

theorem passing_filter {labels : List LabelFilter} {fields : List FieldFilter}
    {wanted : Resource → Bool} {p : Resource → Prop} [DecidablePred p]
    (h : ∀ {r}, (wanted r && (labels.all (·.accepts r) && fields.all (·.accepts r))) = true ↔ p r)
    (rs : List Resource) : passing labels fields (rs.filter wanted) = rs.filter fun r => p r := by
  rw [passing, List.filter_filter]
  refine List.filter_congr fun r _ => ?_
  rw [Bool.and_comm, Bool.eq_iff_iff, h, decide_eq_true_iff]

/-- What passes the filters among the resources of the scope are the candidates. -/
theorem passing_eq_candidatesIn (c : Constraint) (rs : List Resource) :
    passing c.labelFilters c.fieldFilters (rs.filter fun r => r.scope == c.scope) =
      c.candidatesIn rs :=
  passing_filter Constraint.candidate_iff rs

theorem Constraint.Draft.passing_eq_candidatesIn (d : Draft) (rs : List Resource) :
    passing d.labelFilters d.fieldFilters (rs.filter d.scope.fits) = d.candidatesIn rs :=
  passing_filter candidate_iff rs

/-! ### Scripts -/

namespace Script

/-- What a value says: a truth value says itself, a mapping the truth value that it has as `matching`,
    and everything else is a fault. -/
inductive Says : Datum → Except ScriptFault Bool → Prop where
  | outright (b : Bool) : Says (.bool b) (.ok b)
  | matching {entries : List (Scalar × Datum)} {b : Bool}
      (h : Datum.lookup "matching" entries = some (.bool b)) : Says (.mapping entries) (.ok b)
  | noMatching {entries : List (Scalar × Datum)} (h : Datum.lookup "matching" entries = none) :
      Says (.mapping entries) (.error .noMatching)
  | matchingKind {entries : List (Scalar × Datum)} {d : Datum}
      (h : Datum.lookup "matching" entries = some d) (hd : ∀ b, d ≠ .bool b) :
      Says (.mapping entries) (.error (.matchingKind d.kindName))
  | answerKind {d : Datum} (hbool : ∀ b, d ≠ .bool b) (hmapping : ∀ entries, d ≠ .mapping entries) :
      Says d (.error (.answerKind d.kindName))

/-- What comes of a script on a resource: without a runtime, and where the runtime fails or refuses, a
    fault, and otherwise what its answer says. -/
inductive Judges (script : String) (r : Resource) :
    Option ScriptRuntime → Except ScriptFault Bool → Prop where
  | noRuntime : Judges script r none (.error .noRuntime)
  | failed {answer : ScriptRuntime} {text : String} (h : answer script r = .failed text) :
      Judges script r (some answer) (.error (.failed r.describe text))
  | refused {answer : ScriptRuntime} {text : String} (h : answer script r = .refused text) :
      Judges script r (some answer) (.error (.refused text))
  | answered {answer : ScriptRuntime} {d : Datum} {x : Except ScriptFault Bool}
      (h : answer script r = .value d) (hd : Says d x) : Judges script r (some answer) x

variable {runtime : Option ScriptRuntime} {script : String} {r : Resource}
  {x : Except ScriptFault Bool}

theorem verdict_eq_iff {d : Datum} : verdict d = x ↔ Says d x := by
  constructor
  · rintro rfl
    unfold verdict
    split
    · exact .outright _
    · split
      · rename_i h
        exact .noMatching h
      · rename_i h
        exact .matching h
      · rename_i hd h
        exact .matchingKind h hd
    · rename_i hbool hmapping
      exact .answerKind hbool hmapping
  · rintro (b | h | h | ⟨h, hd⟩ | ⟨hbool, hmapping⟩)
    · rfl
    · rw [verdict, h]
    · rw [verdict, h]
    · rw [verdict, h]
      split
      · rename_i heq
        cases heq
      · rename_i heq
        exact absurd (Option.some.inj heq) (hd _)
      · rename_i heq
        rw [Option.some.inj heq]
    · unfold verdict
      split
      · exact absurd rfl (hbool _)
      · exact absurd rfl (hmapping _)
      · rfl

theorem run_eq_iff : run runtime script r = x ↔ Judges script r runtime x := by
  constructor
  · rintro rfl
    unfold run
    split
    · exact .noRuntime
    · split
      · rename_i h
        exact .answered h (verdict_eq_iff.mp rfl)
      · rename_i h
        exact .failed h
      · rename_i h
        exact .refused h
  · rintro (_ | h | h | ⟨h, hd⟩)
    · rfl
    · simp only [run, h]
    · simp only [run, h]
    · simp only [run, h]
      exact verdict_eq_iff.mpr hd

/-- One thing comes of a script on a resource. -/
theorem Judges.unique {y : Except ScriptFault Bool} (hx : Judges script r runtime x)
    (hy : Judges script r runtime y) : x = y :=
  (run_eq_iff.mpr hx).symm.trans (run_eq_iff.mpr hy)

instance (b : Bool) : Decidable (Judges script r runtime (.ok b)) :=
  decidable_of_iff ((run runtime script r).toOption = some b) <| by
    rw [← run_eq_iff]
    cases run runtime script r <;> simp [Except.toOption]

/-! ### Sifting -/

/-- The resources that are accepted, each of them after those before it. -/
def accepted (accepts : List Resource → Resource → Bool) (rs : List Resource) : List Resource :=
  (rs.zipIdx.filter fun x => accepts (rs.take x.2) x.1).map Prod.fst

theorem accepted_cons (accepts : List Resource → Resource → Bool) (r : Resource)
    (rest : List Resource) :
    accepted accepts (r :: rest) =
      if accepts [] r then r :: accepted (fun before => accepts (r :: before)) rest
      else accepted (fun before => accepts (r :: before)) rest := by
  have hrest : (((rest.zipIdx 1).filter fun x => accepts ((r :: rest).take x.2) x.1).map Prod.fst) =
      accepted (fun before => accepts (r :: before)) rest := by
    rw [List.zipIdx_succ, List.filter_map, List.map_map]
    rfl
  rw [accepted, List.zipIdx_cons, List.filter_cons, ← hrest]
  exact apply_ite (List.map Prod.fst) ..

theorem accepted_sublist (accepts : List Resource → Resource → Bool) (rs : List Resource) :
    (accepted accepts rs).Sublist rs := by
  have h := (List.filter_sublist (l := rs.zipIdx)
    (p := fun x => accepts (rs.take x.2) x.1)).map Prod.fst
  rwa [List.zipIdx_map_fst] at h

/-- Where it does not matter what came before, those that pass are accepted. -/
theorem accepted_eq_filter (p : Resource → Bool) (rs : List Resource) :
    accepted (fun _ => p) rs = rs.filter p := by
  have h : ((rs.zipIdx.map Prod.fst).filter p) = accepted (fun _ => p) rs := List.filter_map
  rw [← h, List.zipIdx_map_fst]

variable {judge : List Resource → Resource → Except ScriptFault Bool} {before rs : List Resource}

/-- A judge that is put one resource after another gives a verdict on each. -/
def Decides (judge : List Resource → Resource → Except ScriptFault Bool)
    (before rs : List Resource) : Prop :=
  ∀ pre r post, rs = pre ++ r :: post → ∃ b, judge (before ++ pre) r = .ok b

theorem decides_cons :
    Decides judge before (r :: rs) ↔
      (∃ b, judge before r = .ok b) ∧ Decides judge (before ++ [r]) rs := by
  constructor
  · intro h
    refine ⟨by simpa using h [] r rs rfl, fun pre q post hsplit => ?_⟩
    rw [List.append_assoc]
    exact h (r :: pre) q post (congrArg (r :: ·) hsplit)
  · rintro ⟨hr, hrest⟩ (_ | ⟨t, pre⟩) q post hsplit
    · cases hsplit
      rwa [List.append_nil]
    · cases hsplit
      have hq := hrest pre q post rfl
      rwa [List.append_assoc] at hq

/-- Resources with a verdict on each are sifted to the end. -/
theorem sift_of_decides (h : Decides judge before rs) :
    sift judge before rs =
      (.ok (accepted (fun pre r => judge (before ++ pre) r = .ok true) rs), rs) := by
  induction rs generalizing before with
  | nil => rfl
  | cons r rest ih =>
    obtain ⟨⟨b, hr⟩, hrest⟩ := decides_cons.mp h
    have hsift := ih hrest
    simp only [List.append_assoc, List.singleton_append] at hsift
    simp only [sift, hr, hsift, accepted_cons, List.append_nil, Except.map, Except.ok.injEq,
      decide_eq_true_eq]

/-- The first resource without a verdict ends the sifting. -/
theorem sift_of_first {pre post : List Resource} {f : ScriptFault}
    (hpre : Decides judge before pre) (hr : judge (before ++ pre) r = .error f) :
    sift judge before (pre ++ r :: post) = (.error f, pre ++ [r]) := by
  induction pre generalizing before with
  | nil =>
    rw [List.append_nil] at hr
    simp only [List.nil_append, sift, hr]
  | cons q rest ih =>
    obtain ⟨⟨v, hq⟩, hrest⟩ := decides_cons.mp hpre
    have hsift : sift judge (before ++ [q]) (rest ++ r :: post) = (.error f, rest ++ [r]) :=
      ih hrest (by rwa [List.append_assoc])
    simp only [List.cons_append, sift, hq, hsift]
    rfl

/-- Without a verdict on each there is a first resource without one. -/
theorem exists_first_of_not_decides (h : ¬ Decides judge before rs) :
    ∃ pre r post f, rs = pre ++ r :: post ∧ Decides judge before pre ∧
      judge (before ++ pre) r = .error f := by
  induction rs generalizing before with
  | nil => exact absurd (fun pre r post hsplit => by simp at hsplit) h
  | cons r rest ih =>
    cases hr : judge before r with
    | error f =>
      exact ⟨[], r, rest, f, rfl, fun pre q post hsplit => by simp at hsplit, by simpa using hr⟩
    | ok b =>
      have hrest : ¬ Decides judge (before ++ [r]) rest := fun hrest =>
        h (decides_cons.mpr ⟨⟨b, hr⟩, hrest⟩)
      obtain ⟨pre, q, post, f, rfl, hpre, hq⟩ := ih hrest
      refine ⟨r :: pre, q, post, f, rfl, decides_cons.mpr ⟨⟨b, hr⟩, hpre⟩, ?_⟩
      rwa [List.append_assoc] at hq

end Script

/-! ### Selections -/

/-- Where all fields are supported, none is reported. -/
theorem unsupported?_eq_none {kind : String} {supported : List String} {fs : List FieldFilter} :
    unsupported? kind supported fs = none ↔ ∀ f ∈ fs, f.field ∈ supported := by
  simp [unsupported?]

theorem unsupported?_of_first {kind : String} {supported : List String} {pre post : List FieldFilter}
    {f : FieldFilter} (hpre : ∀ g ∈ pre, g.field ∈ supported) (hf : f.field ∉ supported) :
    unsupported? kind supported (pre ++ f :: post) =
      some (.unsupportedField f.field kind supported) := by
  have hfirst : (pre ++ f :: post).find? (fun g => !supported.contains g.field) = some f := by
    refine List.find?_eq_some_iff_append.mpr ⟨by simpa using hf, pre, post, rfl, fun g hg => ?_⟩
    simpa using hpre g hg
  rw [unsupported?, hfirst]
  rfl

namespace RememberingEvaluator

/-- The script goes through the candidates, unless a field is not supported. -/
theorem select_resources (e : RememberingEvaluator) (c : Constraint) (rs : List Resource) :
    e.select c (rs.map .resource) =
      match unsupported? c.scope.kind (e.registry.fieldsIn c.scope) c.fieldFilters with
      | some f => .ok ⟨.error f, []⟩
      | none => .ok (e.judge c.script (c.candidatesIn rs)) := by
  rw [select, candidates, resourcesWhere_resources, ← passing_eq_candidatesIn]
  rfl

theorem exists_select (e : RememberingEvaluator) (c : Constraint) (rs : List Resource) :
    ∃ s, e.select c (rs.map .resource) = .ok s := by
  rw [select_resources]
  cases unsupported? c.scope.kind (e.registry.fieldsIn c.scope) c.fieldFilters with
  | some f => exact ⟨_, rfl⟩
  | none => exact ⟨_, rfl⟩

/-- What is selected depends on the candidates alone. -/
theorem select_congr {e : RememberingEvaluator} {c : Constraint} {rs ts : List Resource}
    (h : c.candidatesIn rs = c.candidatesIn ts) :
    e.select c (rs.map .resource) = e.select c (ts.map .resource) := by
  rw [select_resources, select_resources, h]

variable {e : RememberingEvaluator} {c : Constraint} {rs pre post : List Resource} {r : Resource}
  {script : String} {f : ScriptFault}

/-- All fields that a constraint filters by are supported. -/
def Supports (e : RememberingEvaluator) (c : Constraint) : Prop :=
  ∀ f ∈ c.fieldFilters, f.field ∈ e.registry.fieldsIn c.scope

/-- What comes of a script on a resource after it was run on others. -/
def Judges (e : RememberingEvaluator) (script : String) (before : List Resource) (r : Resource)
    (x : Except ScriptFault Bool) : Prop :=
  Script.Judges script r (e.runtime.map fun answer => answer (before.map fun q => (script, q))) x

/-- A script that is run on one resource after another gives a verdict on each. -/
def JudgesAll (e : RememberingEvaluator) (script : String) (rs : List Resource) : Prop :=
  ∀ pre r post, rs = pre ++ r :: post → ∃ b, e.Judges script pre r (.ok b)

/-- A candidate that comes after others is accepted when there is no script, or the script says so. -/
def Accepts (e : RememberingEvaluator) (script : String) (before : List Resource) (r : Resource) :
    Prop :=
  script = "" ∨ e.Judges script before r (.ok true)

instance (e : RememberingEvaluator) (script : String) (before : List Resource) (r : Resource)
    (b : Bool) : Decidable (e.Judges script before r (.ok b)) :=
  inferInstanceAs (Decidable (Script.Judges ..))

instance (e : RememberingEvaluator) (script : String) (before : List Resource) (r : Resource) :
    Decidable (e.Accepts script before r) :=
  inferInstanceAs (Decidable (_ ∨ _))

/-- The candidates that are accepted, each of them after those before it. -/
def acceptedBy (e : RememberingEvaluator) (script : String) (rs : List Resource) : List Resource :=
  Script.accepted (fun before r => e.Accepts script before r) rs

/-- The candidates of a constraint that its script accepts. -/
def matchesIn (e : RememberingEvaluator) (c : Constraint) (rs : List Resource) : List Resource :=
  e.acceptedBy c.script (c.candidatesIn rs)

/-- The runs of a script on resources. -/
def callsOn (e : RememberingEvaluator) (script : String) (rs : List Resource) : List ScriptCall :=
  if script ≠ "" ∧ e.runtime.isSome then rs.map fun r => (script, r) else []

theorem run_eq_iff {before : List Resource} {x : Except ScriptFault Bool} :
    e.run script before r = x ↔ e.Judges script before r x :=
  Script.run_eq_iff

theorem decides_iff : Script.Decides (e.run script) [] rs ↔ e.JudgesAll script rs := by
  simp only [Script.Decides, JudgesAll, List.nil_append, run_eq_iff]

theorem matchesIn_sublist : (e.matchesIn c rs).Sublist rs := by
  rw [matchesIn, acceptedBy]
  exact (Script.accepted_sublist ..).trans List.filter_sublist

theorem judge_of_sift {found : Except ScriptFault (List Resource)} {asked : List Resource}
    (hscript : script ≠ "") (h : Script.sift (e.run script) [] rs = (found, asked)) :
    e.judge script rs = ⟨found.mapError .script, e.callsOn script asked⟩ := by
  rw [judge, if_neg (by simpa using hscript), h, callsOn]
  simp only [ne_eq, hscript, not_false_eq_true, true_and]

theorem select_of_unsupported {pre post : List FieldFilter} {f : FieldFilter}
    (hsplit : c.fieldFilters = pre ++ f :: post)
    (hpre : ∀ g ∈ pre, g.field ∈ e.registry.fieldsIn c.scope)
    (hf : f.field ∉ e.registry.fieldsIn c.scope) (items : List Listed) :
    e.select c items =
      .ok ⟨.error (.unsupportedField f.field c.scope.kind (e.registry.fieldsIn c.scope)), []⟩ := by
  rw [select, hsplit, unsupported?_of_first hpre hf]

/-- Where all fields are supported, the script goes through the candidates. -/
theorem select_of_supports (h : e.Supports c) (rs : List Resource) :
    e.select c (rs.map .resource) = .ok (e.judge c.script (c.candidatesIn rs)) := by
  rw [select_resources, unsupported?_eq_none.mpr h]

theorem select_of_unjudged (h : e.Supports c) (hscript : c.script ≠ "")
    (hsplit : c.candidatesIn rs = pre ++ r :: post) (hpre : e.JudgesAll c.script pre)
    (hr : e.Judges c.script pre r (.error f)) :
    e.select c (rs.map .resource) =
      .ok ⟨.error (.script f), e.callsOn c.script (pre ++ [r])⟩ := by
  have hsift : Script.sift (e.run c.script) [] (pre ++ r :: post) = (.error f, pre ++ [r]) :=
    Script.sift_of_first (decides_iff.mpr hpre) (run_eq_iff.mpr hr)
  rw [select_of_supports h, hsplit, judge_of_sift hscript hsift]
  rfl

theorem select_of_judged (h : e.Supports c)
    (hjudged : c.script ≠ "" → e.JudgesAll c.script (c.candidatesIn rs)) :
    e.select c (rs.map .resource) =
      .ok ⟨.ok (e.matchesIn c rs), e.callsOn c.script (c.candidatesIn rs)⟩ := by
  rw [select_of_supports h, matchesIn, acceptedBy]
  by_cases hscript : c.script = ""
  · have hall : Script.accepted (fun before r => e.Accepts c.script before r) (c.candidatesIn rs) =
        c.candidatesIn rs := by
      simp only [Accepts, hscript, true_or, decide_true]
      rw [Script.accepted_eq_filter, List.filter_true]
    have hidle : e.callsOn c.script (c.candidatesIn rs) = [] := if_neg fun h => h.1 hscript
    rw [hall, hidle, judge, if_pos (by simpa using hscript)]
  · rw [judge_of_sift hscript (Script.sift_of_decides (decides_iff.mpr (hjudged hscript)))]
    simp only [List.nil_append, run_eq_iff, Accepts, hscript, false_or, Except.mapError]

theorem evaluate_of_fault {items : List Listed} {f : Fault} {calls : List ScriptCall}
    (h : e.select c items = .ok ⟨.error f, calls⟩) :
    e.evaluate c items = .ok (.failed c f, calls) := by
  rw [evaluate, h]
  rfl

theorem evaluate_of_found {items : List Listed} {calls : List ScriptCall}
    (h : e.select c items = .ok ⟨.ok rs, calls⟩) :
    e.evaluate c items = .ok (.counted c rs.length, calls) := by
  rw [evaluate, h]
  rfl

/-- Either a first field is not supported, or a first candidate is not judged, or nothing stands in the
    way of the count. -/
theorem select_cases (e : RememberingEvaluator) (c : Constraint) (rs : List Resource) :
    (∃ pre f post, c.fieldFilters = pre ++ f :: post ∧
      (∀ g ∈ pre, g.field ∈ e.registry.fieldsIn c.scope) ∧
      f.field ∉ e.registry.fieldsIn c.scope) ∨
    (e.Supports c ∧ c.script ≠ "" ∧ ∃ pre r post f, c.candidatesIn rs = pre ++ r :: post ∧
      e.JudgesAll c.script pre ∧ e.Judges c.script pre r (.error f)) ∨
    (e.Supports c ∧ (c.script ≠ "" → e.JudgesAll c.script (c.candidatesIn rs))) := by
  cases hfind : c.fieldFilters.find? fun f => !(e.registry.fieldsIn c.scope).contains f.field with
  | some f =>
    obtain ⟨hf, pre, post, hsplit, hpre⟩ := List.find?_eq_some_iff_append.mp hfind
    exact .inl ⟨pre, f, post, hsplit, fun g hg => by simpa using hpre g hg, by simpa using hf⟩
  | none =>
    have hsupports : e.Supports c := fun f hf => by simpa using List.find?_eq_none.mp hfind f hf
    by_cases hjudged : c.script ≠ "" → e.JudgesAll c.script (c.candidatesIn rs)
    · exact .inr (.inr ⟨hsupports, hjudged⟩)
    · obtain ⟨hscript, hnot⟩ := Classical.not_imp.mp hjudged
      obtain ⟨pre, r, post, f, hsplit, hpre, hr⟩ :=
        Script.exists_first_of_not_decides (mt decides_iff.mp hnot)
      exact .inr (.inl ⟨hsupports, hscript, pre, r, post, f, hsplit, decides_iff.mp hpre,
        run_eq_iff.mp hr⟩)

/-- A selection that succeeds has found the matches. -/
theorem eq_matchesIn_of_select {found : List Resource} {calls : List ScriptCall}
    (h : e.select c (rs.map .resource) = .ok ⟨.ok found, calls⟩) : found = e.matchesIn c rs := by
  rcases select_cases e c rs with ⟨pre, f, post, hsplit, hpre, hf⟩ |
    ⟨hsupports, hscript, pre, r, post, f, hsplit, hpre, hr⟩ | ⟨hsupports, hjudged⟩
  · rw [select_of_unsupported hsplit hpre hf] at h
    cases h
  · rw [select_of_unjudged hsupports hscript hsplit hpre hr] at h
    cases h
  · rw [select_of_judged hsupports hjudged] at h
    cases h
    rfl

/-! ### How a constraint fares -/

/-- How a draft has to fare on resources. It carries a fault exactly when a field is not supported or the
    script gives no verdict on a candidate, and then it is not satisfied. The fault is that of the first
    such field, or else of the first such candidate. Without a fault the accepted candidates are counted,
    and the bounds decide. -/
structure Fares (e : RememberingEvaluator) (d : Constraint.Draft) (rs : List Resource)
    (x : ConstraintOutcome) : Prop where
  faulty : x.fault ≠ none ↔ (∃ f ∈ d.fieldFilters, f.field ∉ e.registry.fieldsNamed d.scope) ∨
    d.script ≠ "" ∧ ∃ pre r post, d.candidatesIn rs = pre ++ r :: post ∧
      ¬ ∃ b, e.Judges d.script pre r (.ok b)
  closed : x.fault ≠ none → x.satisfied = false ∧ x.count = 0
  unsupported : ∀ pre f post, d.fieldFilters = pre ++ f :: post →
    (∀ g ∈ pre, g.field ∈ e.registry.fieldsNamed d.scope) →
    f.field ∉ e.registry.fieldsNamed d.scope →
    x.fault = some (.unsupportedField f.field d.scope.kind.plain (e.registry.fieldsNamed d.scope))
  unjudged : (∀ f ∈ d.fieldFilters, f.field ∈ e.registry.fieldsNamed d.scope) → d.script ≠ "" →
    ∀ pre r post f, d.candidatesIn rs = pre ++ r :: post → e.JudgesAll d.script pre →
      e.Judges d.script pre r (.error f) → x.fault = some (.script f)
  counted : x.fault = none →
    x.count = (e.acceptedBy d.script (d.candidatesIn rs)).length ∧
    (x.satisfied = true ↔
      d.minCount.getD 1 ≤ x.count ∧ ∀ n, d.maxCount = some n → x.count ≤ n)

section Evaluated

variable {x : ConstraintResult} {calls : List ScriptCall}
  (heval : e.evaluate c (rs.map .resource) = .ok (x, calls))

include heval

theorem fault_of_unsupported {pre post : List FieldFilter} {f : FieldFilter}
    (hsplit : c.fieldFilters = pre ++ f :: post)
    (hpre : ∀ g ∈ pre, g.field ∈ e.registry.fieldsIn c.scope)
    (hf : f.field ∉ e.registry.fieldsIn c.scope) :
    x.fault = some (.unsupportedField f.field c.scope.kind (e.registry.fieldsIn c.scope)) := by
  rw [evaluate_of_fault (select_of_unsupported hsplit hpre hf _)] at heval
  cases heval
  rfl

theorem fault_of_unjudged (h : e.Supports c) (hscript : c.script ≠ "")
    (hsplit : c.draft.candidatesIn rs = pre ++ r :: post) (hpre : e.JudgesAll c.script pre)
    (hr : e.Judges c.script pre r (.error f)) : x.fault = some (.script f) := by
  rw [Constraint.candidatesIn_draft] at hsplit
  rw [evaluate_of_fault (select_of_unjudged h hscript hsplit hpre hr)] at heval
  cases heval
  rfl

end Evaluated

/-- Evaluating a constraint on resources never breaks off, and the constraint fares as it has to,
    whatever the registry, the runtime and the resources are. -/
theorem evaluate_fares (e : RememberingEvaluator) (c : Constraint) (rs : List Resource) :
    ∃ x calls, e.evaluate c (rs.map .resource) = .ok (x, calls) ∧ x.constraint = c ∧
      e.Fares c.draft rs x.outcome := by
  have hcandidates := c.candidatesIn_draft rs
  rcases select_cases e c rs with ⟨pre, f, post, hsplit, hpre, hf⟩ |
    ⟨hsupports, hscript, pre, r, post, f, hsplit, hpre, hr⟩ | ⟨hsupports, hjudged⟩
  · have heval := evaluate_of_fault (select_of_unsupported hsplit hpre hf (rs.map .resource))
    have hmem : f ∈ c.fieldFilters := by simp [hsplit]
    exact ⟨_, _, heval, rfl, {
      faulty := ⟨fun _ => .inl ⟨f, hmem, hf⟩, fun _ => nofun⟩
      closed := fun _ => ⟨rfl, rfl⟩
      unsupported := fun _ _ _ => fault_of_unsupported heval
      unjudged := fun h hs _ _ _ _ => fault_of_unjudged heval h hs
      counted := nofun }⟩
  · have heval := evaluate_of_fault (select_of_unjudged hsupports hscript hsplit hpre hr)
    have hnone : ¬ ∃ b, e.Judges c.script pre r (.ok b) := by
      rintro ⟨b, hb⟩
      cases Script.Judges.unique hb hr
    exact ⟨_, _, heval, rfl, {
      faulty := ⟨fun _ => .inr ⟨hscript, pre, r, post, hcandidates.trans hsplit, hnone⟩,
        fun _ => nofun⟩
      closed := fun _ => ⟨rfl, rfl⟩
      unsupported := fun _ _ _ => fault_of_unsupported heval
      unjudged := fun h hs _ _ _ _ => fault_of_unjudged heval h hs
      counted := nofun }⟩
  · have heval := evaluate_of_found (select_of_judged hsupports hjudged)
    have hcount : e.matchesIn c rs = e.acceptedBy c.script (c.draft.candidatesIn rs) := by
      rw [matchesIn, hcandidates]
    refine ⟨_, _, heval, rfl, {
      faulty := ⟨fun h => absurd rfl h, ?_⟩
      closed := fun h => absurd rfl h
      unsupported := fun _ _ _ => fault_of_unsupported heval
      unjudged := fun h hs _ _ _ _ => fault_of_unjudged heval h hs
      counted := fun _ => ⟨congrArg List.length hcount, Constraint.allows_iff⟩ }⟩
    rintro (⟨f, hf, hfield⟩ | ⟨hscript, pre, r, post, hsplit, hnone⟩)
    · exact absurd (hsupports f hf) hfield
    · exact absurd (hjudged hscript pre r post (hcandidates.symm.trans hsplit)) hnone

end RememberingEvaluator

/-! ### Runtimes that remember nothing -/

namespace Evaluator

variable {e : Evaluator} {c : Constraint} {rs pre post : List Resource} {r : Resource}
  {script : String}

/-- All fields that a constraint filters by are supported. -/
def Supports (e : Evaluator) (c : Constraint) : Prop :=
  ∀ f ∈ c.fieldFilters, f.field ∈ e.supportedFields c.scope

/-- A constraint accepts a candidate when it has no script, or its script says so. -/
def Accepts (e : Evaluator) (c : Constraint) (r : Resource) : Prop :=
  c.script = "" ∨ Script.Judges c.script r e.runtime (.ok true)

instance (e : Evaluator) (c : Constraint) (r : Resource) : Decidable (e.Accepts c r) :=
  inferInstanceAs (Decidable (_ ∨ _))

/-- The runs of a script on resources. -/
def callsOn (e : Evaluator) (script : String) (rs : List Resource) : List ScriptCall :=
  e.forgetful.callsOn script rs

/-- Nothing that came before makes a difference to a runtime without a memory. -/
theorem judges_forgetful {before : List Resource} {x : Except ScriptFault Bool} :
    e.forgetful.Judges script before r x ↔ Script.Judges script r e.runtime x := by
  rw [← RememberingEvaluator.run_eq_iff, run_forgetful, Script.run_eq_iff]

theorem judgesAll_forgetful : e.forgetful.JudgesAll script rs ↔
    ∀ r ∈ rs, ∃ b, Script.Judges script r e.runtime (.ok b) := by
  simp only [RememberingEvaluator.JudgesAll, judges_forgetful]
  constructor
  · intro h r hr
    obtain ⟨pre, post, hsplit⟩ := List.append_of_mem hr
    exact h pre r post hsplit
  · rintro h pre r post rfl
    exact h r (List.mem_append_right _ List.mem_cons_self)

theorem matchesIn_forgetful : e.forgetful.matchesIn c rs =
    (c.candidatesIn rs).filter fun r => e.Accepts c r := by
  simp only [RememberingEvaluator.matchesIn, RememberingEvaluator.acceptedBy,
    RememberingEvaluator.Accepts, judges_forgetful]
  exact Script.accepted_eq_filter ..

theorem select_of_unsupported {pre post : List FieldFilter} {f : FieldFilter}
    (hsplit : c.fieldFilters = pre ++ f :: post)
    (hpre : ∀ g ∈ pre, g.field ∈ e.supportedFields c.scope)
    (hf : f.field ∉ e.supportedFields c.scope) (items : List Listed) :
    e.select c items =
      .ok ⟨.error (.unsupportedField f.field c.scope.kind (e.supportedFields c.scope)), []⟩ :=
  RememberingEvaluator.select_of_unsupported (e := e.forgetful) hsplit hpre hf items

theorem select_of_unjudged {f : ScriptFault} (h : e.Supports c) (hscript : c.script ≠ "")
    (hsplit : c.candidatesIn rs = pre ++ r :: post)
    (hpre : ∀ q ∈ pre, ∃ b, Script.Judges c.script q e.runtime (.ok b))
    (hr : Script.Judges c.script r e.runtime (.error f)) :
    e.select c (rs.map .resource) =
      .ok ⟨.error (.script f), e.callsOn c.script (pre ++ [r])⟩ :=
  RememberingEvaluator.select_of_unjudged h hscript hsplit (judgesAll_forgetful.mpr hpre)
    (judges_forgetful.mpr hr)

theorem select_of_judged (h : e.Supports c) (hjudged : c.script ≠ "" →
      ∀ r ∈ c.candidatesIn rs, ∃ b, Script.Judges c.script r e.runtime (.ok b)) :
    e.select c (rs.map .resource) =
      .ok ⟨.ok ((c.candidatesIn rs).filter fun r => e.Accepts c r),
        e.callsOn c.script (c.candidatesIn rs)⟩ := by
  rw [← matchesIn_forgetful]
  exact RememberingEvaluator.select_of_judged h fun hscript =>
    judgesAll_forgetful.mpr (hjudged hscript)

theorem evaluate_of_fault {items : List Listed} {f : Fault} {calls : List ScriptCall}
    (h : e.select c items = .ok ⟨.error f, calls⟩) :
    e.evaluate c items = .ok (.failed c f, calls) :=
  RememberingEvaluator.evaluate_of_fault h

theorem evaluate_of_found {items : List Listed} {calls : List ScriptCall}
    (h : e.select c items = .ok ⟨.ok rs, calls⟩) :
    e.evaluate c items = .ok (.counted c rs.length, calls) :=
  RememberingEvaluator.evaluate_of_found h

/-- Either a first field is not supported, or a first candidate is not judged, or nothing stands in the
    way of the count. -/
theorem select_cases (e : Evaluator) (c : Constraint) (rs : List Resource) :
    (∃ pre f post, c.fieldFilters = pre ++ f :: post ∧
      (∀ g ∈ pre, g.field ∈ e.supportedFields c.scope) ∧ f.field ∉ e.supportedFields c.scope) ∨
    (e.Supports c ∧ c.script ≠ "" ∧ ∃ pre r post f, c.candidatesIn rs = pre ++ r :: post ∧
      (∀ q ∈ pre, ∃ b, Script.Judges c.script q e.runtime (.ok b)) ∧
      Script.Judges c.script r e.runtime (.error f)) ∨
    (e.Supports c ∧ (c.script ≠ "" →
      ∀ r ∈ c.candidatesIn rs, ∃ b, Script.Judges c.script r e.runtime (.ok b))) := by
  have h := RememberingEvaluator.select_cases e.forgetful c rs
  simp only [judgesAll_forgetful, judges_forgetful] at h
  exact h

/-- How a constraint has to fare on resources, with a script that judges each candidate by itself. -/
structure Fares (e : Evaluator) (c : Constraint) (rs : List Resource) (x : ConstraintResult) :
    Prop where
  constraint : x.constraint = c
  faulty : x.fault ≠ none ↔ (∃ f ∈ c.fieldFilters, f.field ∉ e.supportedFields c.scope) ∨
    c.script ≠ "" ∧ ∃ r ∈ c.candidatesIn rs, ¬ ∃ b, Script.Judges c.script r e.runtime (.ok b)
  closed : x.fault ≠ none → x.satisfied = false ∧ x.count = 0
  unsupported : ∀ pre f post, c.fieldFilters = pre ++ f :: post →
    (∀ g ∈ pre, g.field ∈ e.supportedFields c.scope) → f.field ∉ e.supportedFields c.scope →
    x.fault = some (.unsupportedField f.field c.scope.kind (e.supportedFields c.scope))
  unjudged : (∀ f ∈ c.fieldFilters, f.field ∈ e.supportedFields c.scope) → c.script ≠ "" →
    ∀ pre r post f, c.candidatesIn rs = pre ++ r :: post →
      (∀ q ∈ pre, ∃ b, Script.Judges c.script q e.runtime (.ok b)) →
      Script.Judges c.script r e.runtime (.error f) → x.fault = some (.script f)
  counted : x.fault = none →
    x.count = ((c.candidatesIn rs).filter fun r => e.Accepts c r).length ∧
    (x.satisfied = true ↔
      c.minCount.getD 1 ≤ x.count ∧ ∀ n, c.maxCount = some n → x.count ≤ n)

theorem exists_unjudged_forgetful :
    (∃ pre r post, rs = pre ++ r :: post ∧ ¬ ∃ b, e.forgetful.Judges script pre r (.ok b)) ↔
      ∃ r ∈ rs, ¬ ∃ b, Script.Judges script r e.runtime (.ok b) := by
  have h := not_congr (@judgesAll_forgetful e rs script)
  simpa only [RememberingEvaluator.JudgesAll, judges_forgetful, not_forall, exists_prop] using h

theorem fares_of_forgetful {x : ConstraintResult} (hconstraint : x.constraint = c)
    (h : e.forgetful.Fares c.draft rs x.outcome) : e.Fares c rs x where
  constraint := hconstraint
  faulty := by
    rw [← c.candidatesIn_draft]
    exact h.faulty.trans (or_congr Iff.rfl (and_congr_right fun _ => exists_unjudged_forgetful))
  closed := h.closed
  unsupported := h.unsupported
  unjudged hsupports hscript pre r post f hsplit hpre hr :=
    h.unjudged hsupports hscript pre r post f ((c.candidatesIn_draft rs).trans hsplit)
      (judgesAll_forgetful.mpr hpre) (judges_forgetful.mpr hr)
  counted hnone := by
    rw [← matchesIn_forgetful, RememberingEvaluator.matchesIn, ← c.candidatesIn_draft]
    exact h.counted hnone

/-- Without a memory a constraint fares as it has to when each candidate is judged by itself. -/
theorem evaluate_fares (e : Evaluator) (c : Constraint) (rs : List Resource) :
    ∃ x calls, e.evaluate c (rs.map .resource) = .ok (x, calls) ∧ e.Fares c rs x := by
  obtain ⟨x, calls, heval, hconstraint, hfares⟩ := e.forgetful.evaluate_fares c rs
  exact ⟨x, calls, heval, fares_of_forgetful hconstraint hfares⟩

end Evaluator

end FleetLabels
