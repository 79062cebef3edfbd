import FleetLabels.Draft
import FleetLabels.Proofs.Reading
import FleetLabels.Proofs.Selection

/-!
    Drafts and the constraints that they make.

    A constraint is read where its draft is accepted with texts for names (`Constraint.ofFields_iff_draft`,
    `Constraint.ofManifest_iff_draft`), and the draft is evaluated as the constraint is
    (`RememberingEvaluator.evaluateDraft_draft`). A draft with other names is accepted as well. It has no
    candidates, and it fares as it has to, unless group, version or kind is a list or a mapping, which
    breaks the evaluation off (`RememberingEvaluator.draft_fares`). -/

namespace FleetLabels

/-! ### Reading -/

namespace Manifest

variable {d : Datum} {s : String}

/-- A text is read from a value that is one. -/
theorem text_eq_ok_iff :
    (match d with | .scalar (.text s) => .ok s | _ => .error .shape : Reading String) = .ok s ↔
      d = .text s := by
  constructor
  · intro h
    split at h
    · rw [Except.ok.inj h]
    · cases h
  · rintro rfl
    rfl

theorem required_eq_ok_iff {rule : Invalid} :
    required rule d = .ok s ↔ stated rule d = .ok (.text s) := by
  unfold required stated
  by_cases hgiven : d.isGiven = true
  · rw [if_pos hgiven, if_pos hgiven, Except.ok.injEq]
    exact text_eq_ok_iff
  · rw [if_neg hgiven, if_neg hgiven]
    exact iff_of_false nofun nofun

theorem optional_eq_ok_iff : optional d = .ok s ↔ orEmpty d = .text s := by
  unfold optional orEmpty
  by_cases hgiven : d.isGiven = true
  · rw [if_pos hgiven, if_pos hgiven]
    exact text_eq_ok_iff
  · rw [if_neg hgiven, if_neg hgiven, Except.ok.injEq, Datum.scalar.injEq, Scalar.text.injEq]

end Manifest

namespace Constraint

variable {f : Fields} {s : Scope} {c : Constraint}

theorem Fields.scope_eq_ok_iff : f.scope = .ok s ↔ f.names = .ok s.draft := by
  simp only [scope, names, Attempt.bind_eq_ok_iff, Manifest.required_eq_ok_iff,
    Manifest.optional_eq_ok_iff]
  constructor
  · rintro ⟨kind, hkind, version, hversion, group, hgroup, space, hspace, h⟩
    cases h
    refine ⟨_, hkind, _, hversion, ?_⟩
    rw [hgroup, hspace]
    rfl
  · rintro ⟨kind, hkind, version, hversion, h⟩
    obtain ⟨hgroup, rfl, rfl, hspace⟩ := Scope.Draft.mk.inj (Except.ok.inj h)
    exact ⟨_, hkind, _, hversion, _, hgroup, _, hspace, rfl⟩

/-- Fields make a constraint where they are accepted with texts for names. -/
theorem ofFields_iff_draft : ofFields f = .ok c ↔ Draft.ofFields f = .ok c.draft := by
  simp only [ofFields, Draft.ofFields, Attempt.bind_eq_ok_iff, Fields.scope_eq_ok_iff]
  constructor
  · rintro ⟨scope, hscope, script, hscript, labels, hlabels, fields, hfields, bounds, hbounds, h⟩
    cases h
    exact ⟨_, hscope, _, hscript, _, hlabels, _, hfields, _, hbounds, rfl⟩
  · rintro ⟨names, hnames, script, hscript, labels, hlabels, fields, hfields, bounds, hbounds, h⟩
    obtain ⟨rfl, rfl, rfl, hlow, hhigh, rfl⟩ := Draft.mk.inj (Except.ok.inj h)
    refine ⟨_, hnames, _, hscript, _, hlabels, _, hfields, _, hbounds, ?_⟩
    rw [hlow, hhigh]
    rfl

/-- A manifest describes a constraint where it is accepted with texts for names. -/
theorem ofManifest_iff_draft {d : Datum} :
    ofManifest d = .ok c ↔ Draft.ofManifest d = .ok c.draft := by
  simp only [ofManifest, Draft.ofManifest, Attempt.bind_eq_ok_iff, Fields.scope_eq_ok_iff]
  refine exists_congr fun f => and_congr_right fun _ => ?_
  constructor
  · rintro ⟨labels, hlabels, fields, hfields, scope, hscope, script, hscript, bounds, hbounds, h⟩
    cases h
    exact ⟨_, hlabels, _, hfields, _, hscope, _, hscript, _, hbounds, rfl⟩
  · rintro ⟨labels, hlabels, fields, hfields, names, hnames, script, hscript, bounds, hbounds, h⟩
    obtain ⟨rfl, rfl, rfl, hlow, hhigh, rfl⟩ := Draft.mk.inj (Except.ok.inj h)
    refine ⟨_, hlabels, _, hfields, _, hnames, _, hscript, _, hbounds, ?_⟩
    rw [hlow, hhigh]
    rfl

/-- A draft whose names are texts is the draft of a constraint. -/
theorem Draft.typed?_eq_some_iff {d : Draft} : d.typed? = some c ↔ d = c.draft := by
  constructor
  · intro h
    obtain ⟨s, hs, rfl⟩ := Option.map_eq_some_iff.mp h
    obtain ⟨⟨group, version, kind, space⟩, labelFilters, fieldFilters, low, high, script⟩ := d
    simp only [Scope.Draft.typed?, Option.bind_eq_bind, Option.bind_eq_some_iff, Datum.text?_eq_some_iff,
      Option.pure_def, Option.some.injEq] at hs
    obtain ⟨_, rfl, _, rfl, _, rfl, _, rfl, rfl⟩ := hs
    rfl
  · rintro rfl
    rfl

end Constraint

/-! ### Evaluating -/

theorem Scope.draft_fits (s : Scope) (r : Resource) : s.draft.fits r = (r.scope == s) := by
  rw [Bool.eq_iff_iff]
  simp only [Draft.fits, draft, Datum.text?, Bool.and_eq_true, beq_iff_eq, Option.some.injEq, and_assoc]
  obtain ⟨group, version, kind, space⟩ := s
  simp only [Resource.scope, mk.injEq, eq_comm]

theorem Scope.Draft.unkeyed?_eq_none_iff {s : Scope.Draft} :
    s.unkeyed? = none ↔ ∀ v ∈ [s.group, s.version, s.kind], v.isKey = true := by
  simp [unkeyed?]

theorem Registry.fieldsNamed_draft (r : Registry) (s : Scope) :
    r.fieldsNamed s.draft = r.fieldsIn s := rfl

/-- The names of a candidate are texts, so that without texts for names there is none. -/
theorem Constraint.Draft.candidatesIn_of_untyped {d : Constraint.Draft} (h : d.typed? = none)
    (rs : List Resource) : d.candidatesIn rs = [] := by
  refine List.filter_eq_nil_iff.mpr fun r _ hr => ?_
  have hcandidate : d.Candidate r := of_decide_eq_true hr
  simp [typed?, Scope.Draft.typed?, Datum.text?, hcandidate.group, hcandidate.version,
    hcandidate.kind, hcandidate.space] at h

namespace RememberingEvaluator

theorem selectDraft_draft (e : RememberingEvaluator) (c : Constraint) (items : List Listed) :
    e.selectDraft c.draft items = e.select c items := by
  have hfits : c.draft.scope.fits = fun r => r.scope == c.scope := funext c.scope.draft_fits
  have hfields : e.registry.fieldsNamed c.draft.scope = e.registry.fieldsIn c.scope :=
    e.registry.fieldsNamed_draft c.scope
  rw [selectDraft, hfits, hfields]
  rfl

/-- A draft fares as the constraint does that it makes. -/
theorem evaluateDraft_draft (e : RememberingEvaluator) (c : Constraint) (items : List Listed) :
    e.evaluateDraft c.draft items = (e.evaluate c items).map fun x => (x.1.outcome, x.2) := by
  rw [evaluateDraft, selectDraft_draft, evaluate]
  cases e.select c items with
  | error a => rfl
  | ok s =>
    obtain ⟨found, calls⟩ := s
    cases found <;> rfl

variable {e : RememberingEvaluator} {d : Constraint.Draft}

theorem evaluateDraft_of_unkeyed {v : Datum} (h : d.scope.unkeyed? = some v) (items : List Listed) :
    ∃ a, e.evaluateDraft d items = .error a := by
  rw [evaluateDraft, selectDraft, h]
  exact ⟨_, rfl⟩

theorem judge_nil (e : RememberingEvaluator) (script : String) : e.judge script [] = ⟨.ok [], []⟩ := by
  rw [judge]
  by_cases hscript : script.isEmpty = true
  · rw [if_pos hscript]
  · rw [if_neg hscript]
    exact congrArg (Selection.mk (.ok [])) (ite_self [])

/-- Without candidates the script is not run, and the first field that is not supported decides, or
    else the bounds do. -/
theorem evaluateDraft_of_no_candidates (hkeys : d.scope.unkeyed? = none) {rs : List Resource}
    (h : d.candidatesIn rs = []) :
    e.evaluateDraft d (rs.map .resource) =
      match unsupported? d.scope.kind.plain (e.registry.fieldsNamed d.scope) d.fieldFilters with
      | some f => .ok (⟨false, 0, some f⟩, [])
      | none => .ok (⟨d.allows 0, 0, none⟩, []) := by
  have hpassing : passing d.labelFilters d.fieldFilters (rs.filter d.scope.fits) = [] := by
    rw [d.passing_eq_candidatesIn, h]
  rw [evaluateDraft, selectDraft, hkeys, resourcesWhere_resources]
  cases unsupported? d.scope.kind.plain (e.registry.fieldsNamed d.scope) d.fieldFilters with
  | some f => rfl
  | none =>
    dsimp only [bind, Except.bind, pure, Except.pure]
    rw [hpassing, judge_nil]
    rfl

theorem fares_of_untyped (hkeys : d.scope.unkeyed? = none) (htyped : d.typed? = none)
    (rs : List Resource) :
    ∃ x calls, e.evaluateDraft d (rs.map .resource) = .ok (x, calls) ∧ e.Fares d rs x := by
  have hcandidates := d.candidatesIn_of_untyped htyped rs
  have hsplit : ∀ pre r post, d.candidatesIn rs ≠ pre ++ r :: post := by simp [hcandidates]
  rw [evaluateDraft_of_no_candidates hkeys hcandidates]
  cases hfields :
    unsupported? d.scope.kind.plain (e.registry.fieldsNamed d.scope) d.fieldFilters with
  | some f =>
    refine ⟨_, _, rfl, {
      faulty := ⟨fun _ => .inl ?_, fun _ => nofun⟩
      closed := fun _ => ⟨rfl, rfl⟩
      unsupported := fun pre g post hg hpre hnot => ?_
      unjudged := fun _ _ pre r post _ hr => absurd hr (hsplit pre r post)
      counted := nofun }⟩
    · have hnone := mt unsupported?_eq_none.mpr (hfields.trans_ne nofun)
      simpa using hnone
    · rw [← hfields, hg, unsupported?_of_first hpre hnot]
  | none =>
    have hsupports := unsupported?_eq_none.mp hfields
    refine ⟨_, _, rfl, {
      faulty := ⟨fun h => absurd rfl h, ?_⟩
      closed := fun h => absurd rfl h
      unsupported := fun pre g post hg _ hnot => absurd (hsupports g (by simp [hg])) hnot
      unjudged := fun _ _ pre r post _ hr => absurd hr (hsplit pre r post)
      counted := fun _ => ⟨by rw [hcandidates]; rfl, withinBounds_iff⟩ }⟩
    rintro (⟨f, hf, hnot⟩ | ⟨-, pre, r, post, hr, -⟩)
    · exact absurd (hsupports f hf) hnot
    · exact absurd hr (hsplit pre r post)

/-- On resources the evaluation of a draft breaks off exactly when its group, version or kind cannot be
    looked up. Everywhere else the draft fares as it has to, whatever the registry, the runtime and the
    resources are. The runtime may answer two runs on equal resources differently. -/
theorem draft_fares (e : RememberingEvaluator) (d : Constraint.Draft) (rs : List Resource) :
    (∃ v ∈ [d.scope.group, d.scope.version, d.scope.kind], v.isKey = false) ∧
        (∃ a, e.evaluateDraft d (rs.map .resource) = .error a) ∨
      (∀ v ∈ [d.scope.group, d.scope.version, d.scope.kind], v.isKey = true) ∧
        ∃ x calls, e.evaluateDraft d (rs.map .resource) = .ok (x, calls) ∧ e.Fares d rs x := by
  cases hkeys : d.scope.unkeyed? with
  | some v =>
    have hv := List.find?_some (p := fun d : Datum => !d.isKey) hkeys
    exact .inl ⟨⟨v, List.mem_of_find?_eq_some hkeys, by simpa using hv⟩,
      evaluateDraft_of_unkeyed hkeys _⟩
  | none =>
    refine .inr ⟨Scope.Draft.unkeyed?_eq_none_iff.mp hkeys, ?_⟩
    cases htyped : d.typed? with
    | some c =>
      obtain rfl := Constraint.Draft.typed?_eq_some_iff.mp htyped
      obtain ⟨x, calls, heval, -, hfares⟩ := e.evaluate_fares c rs
      refine ⟨x.outcome, calls, ?_, hfares⟩
      rw [evaluateDraft_draft, heval]
      rfl
    | none => exact fares_of_untyped hkeys htyped rs

end RememberingEvaluator

namespace Sample

/-- Names its kind by a list. -/
def listedKind : Datum :=
  .mapping [(.text "group", .text ""), (.text "version", .text "v1"), (.text "kind", .list [.text "Pod"])]

end Sample

open Sample in
/-- A constraint that names its kind by a list is accepted, and its evaluation breaks off even where there
    is nothing to evaluate it on. -/
theorem listed_kind_breaks_off :
    ∃ d, Constraint.Draft.ofManifest listedKind = .ok d ∧
      RememberingEvaluator.evaluateDraft ⟨.builtin, none⟩ d [] =
        .error ⟨"unhashable type: 'list'"⟩ :=
  ⟨_, rfl, rfl⟩

end FleetLabels
