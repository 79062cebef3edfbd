import FleetLabels.Proofs.Selection

/-!
    What API versions name.

    The API version of a scope joins its group and version with a slash, and the API version of a
    resource is split at its first slash. The two meet where the scope is legible (`Scope.Legible`): no
    slash stands in the group, nor, where the group is empty, in the version. A constraint on such a scope
    covers the resources of its API version, kind and namespace, and one that is not legible covers none
    of them, though messages name both alike. -/

namespace FleetLabels

/-- Group and version are what stands around the first slash; a text without a slash is a version. -/
theorem splitApiVersion_eq_iff {s group version : String} :
    splitApiVersion s = (group, version) ↔
      ('/' ∉ group.toList ∧ s = group ++ "/" ++ version) ∨
        ('/' ∉ s.toList ∧ group = "" ∧ version = s) := by
  have hjoined : s = group ++ "/" ++ version ↔
      s.toList = group.toList ++ '/' :: version.toList := by
    rw [← String.toList_inj]
    simp
  rw [splitApiVersion, hjoined]
  cases hsplit : Text.splitFirst? '/' s.toList with
  | none =>
    have hnone := Text.splitFirst?_eq_none_iff.mp hsplit
    have hnot : s.toList ≠ group.toList ++ '/' :: version.toList := by
      intro h
      exact hnone (by simp [h])
    simp [hnone, hnot, eq_comm]
  | some p =>
    obtain ⟨a, b⟩ := p
    obtain ⟨ha, hs⟩ := Text.splitFirst?_eq_some_iff.mp hsplit
    have hslash : '/' ∈ s.toList := by simp [hs]
    simp only [hslash, not_true, false_and, or_false, Prod.mk.injEq]
    rw [← Text.splitFirst?_eq_some_iff, hsplit]
    simp [← String.toList_inj]

namespace Scope

/-- Group and version are told apart in the API version: no slash is taken for the one between them. -/
def Legible (s : Scope) : Prop :=
  '/' ∉ s.group.toList ∧ (s.group = "" → '/' ∉ s.version.toList)

instance (s : Scope) : Decidable s.Legible := inferInstanceAs (Decidable (_ ∧ _))

/-- What a legible scope joins is what is split again. -/
theorem splitApiVersion_apiVersion {s : Scope} :
    splitApiVersion s.apiVersion = (s.group, s.version) ↔ s.Legible := by
  rw [splitApiVersion_eq_iff, apiVersion, Legible]
  by_cases hgroup : s.group = ""
  · have hshort : s.version ≠ "/" ++ s.version := by
      intro h
      simpa using congrArg String.length h
    simp [hgroup, hshort]
  · simp [hgroup]

end Scope

namespace Constraint

/-- A resource has the API version, the kind and the namespace that the constraint states. -/
def Names (c : Constraint) (r : Resource) : Prop :=
  r.apiVersion = c.scope.apiVersion ∧ r.kind = c.scope.kind ∧ r.space = c.scope.space

/-- Two constraints state one API version, kind and namespace. -/
def SameIdentity (c d : Constraint) : Prop :=
  c.scope.apiVersion = d.scope.apiVersion ∧ c.scope.kind = d.scope.kind ∧ c.scope.space = d.scope.space

instance (c : Constraint) (r : Resource) : Decidable (c.Names r) :=
  inferInstanceAs (Decidable (_ ∧ _))

instance (c d : Constraint) : Decidable (c.SameIdentity d) := inferInstanceAs (Decidable (_ ∧ _))

variable {c d : Constraint} {r : Resource}

/-- Messages name both constraints alike. -/
theorem SameIdentity.describe_eq (h : c.SameIdentity d) : c.describe = d.describe := by
  obtain ⟨hversion, hkind, hspace⟩ := h
  simp only [describe, Scope.describe, hversion, hkind, hspace]

end Constraint

/-- A resource is in a scope when its API version splits into the group and version of the scope, and
    its kind and namespace are those of the scope. -/
theorem Listed.inScope_eq_true_iff {s : Scope} {r : Resource} :
    inScope s (.resource r) = .ok true ↔
      splitApiVersion r.apiVersion = (s.group, s.version) ∧ r.kind = s.kind ∧ r.space = s.space := by
  obtain ⟨group, version, kind, space⟩ := s
  simp only [inScope, Except.ok.injEq, beq_iff_eq, Resource.scope, Scope.mk.injEq, Resource.group,
    Resource.version, Prod.ext_iff, and_assoc]

/-- What is taken from a listing are its resources in the scope. -/
theorem mem_candidates_iff {s : Scope} {items : List Listed} {rs : List Resource}
    (h : candidates s items = .ok rs) {r : Resource} :
    r ∈ rs ↔ .resource r ∈ items ∧ Listed.inScope s (.resource r) = .ok true := by
  induction items generalizing rs with
  | nil =>
    cases h
    simp
  | cons item rest ih =>
    cases item with
    | corrupt text => cases h
    | resource q =>
      obtain ⟨ts, hts, h⟩ := Attempt.of_bind_eq_ok h
      obtain rfl : (if q.scope == s then q :: ts else ts) = rs := Except.ok.inj h
      have hq : Listed.inScope s (.resource q) = .ok true ↔ q.scope == s := by
        rw [Listed.inScope, Except.ok.injEq]
      rw [List.mem_cons, Listed.resource.injEq, or_and_right, ← ih hts]
      by_cases hscope : q.scope == s
      · rw [if_pos hscope, List.mem_cons]
        refine or_congr_left ⟨fun heq => ⟨heq, ?_⟩, And.left⟩
        rw [heq, hq]
        exact hscope
      · rw [if_neg hscope]
        refine (or_iff_right ?_).symm
        rintro ⟨rfl, hin⟩
        exact hscope (hq.mp hin)

namespace Constraint

variable {c d : Constraint} {r : Resource}

theorem inScope_of_names (h : c.Names r) :
    Listed.inScope c.scope (.resource r) = .ok true ↔ c.scope.Legible := by
  obtain ⟨hversion, hkind, hspace⟩ := h
  rw [Listed.inScope_eq_true_iff, hversion, Scope.splitApiVersion_apiVersion]
  simp [hkind, hspace]

theorem scope_eq_of_sameIdentity (h : c.SameIdentity d) (hc : c.scope.Legible) :
    c.scope = d.scope ↔ d.scope.Legible := by
  obtain ⟨hversion, hkind, hspace⟩ := h
  constructor
  · intro heq
    rwa [← heq]
  · intro hd
    -- both are split from the one API version
    have hsplit := Scope.splitApiVersion_apiVersion.mpr hc
    rw [hversion, Scope.splitApiVersion_apiVersion.mpr hd, Prod.mk.injEq] at hsplit
    obtain ⟨hgroup, hnumber⟩ := hsplit
    calc c.scope = ⟨c.scope.group, c.scope.version, c.scope.kind, c.scope.space⟩ := rfl
      _ = ⟨d.scope.group, d.scope.version, d.scope.kind, d.scope.space⟩ := by
        rw [hgroup, hnumber, hkind, hspace]

/-- What an illegible constraint covers has an API version that begins with a slash. -/
theorem inScope_of_not_legible (h : ¬ c.scope.Legible) (r : Resource) :
    Listed.inScope c.scope (.resource r) = .ok true ↔ c.scope.group = "" ∧
      r.apiVersion = "/" ++ c.scope.version ∧ r.kind = c.scope.kind ∧ r.space = c.scope.space := by
  rw [Listed.inScope_eq_true_iff, splitApiVersion_eq_iff]
  refine Iff.trans (and_congr_left fun _ => ?_) and_assoc
  constructor
  · rintro (⟨hgroup, hversion⟩ | ⟨hslash, hgroup, hversion⟩)
    · have hempty : c.scope.group = "" := by
        by_contra hne
        exact h ⟨hgroup, fun heq => absurd heq hne⟩
      simpa [hempty] using hversion
    · rw [← hversion] at hslash
      exact absurd ⟨by simp [hgroup], fun _ => hslash⟩ h
  · rintro ⟨hgroup, hversion⟩
    simp [hgroup, hversion]

/-- Of the resources that it names a constraint covers all when its scope is legible, and none when it
    is not, and so it takes all or none of them from a listing: all that an illegible one may cover has
    its API version behind a slash. Legible constraints of one identity have one scope, and a legible and
    an illegible one have not. -/
theorem covers_named_unless_illegible (c : Constraint) :
    (∀ r, c.Names r → (Listed.inScope c.scope (.resource r) = .ok true ↔ c.scope.Legible) ∧
      ∀ items rs, candidates c.scope items = .ok rs → .resource r ∈ items →
        (r ∈ rs ↔ c.scope.Legible)) ∧
    (∀ d, c.SameIdentity d → c.scope.Legible → (c.scope = d.scope ↔ d.scope.Legible)) ∧
    (¬ c.scope.Legible → ∀ r, Listed.inScope c.scope (.resource r) = .ok true ↔ c.scope.group = "" ∧
      r.apiVersion = "/" ++ c.scope.version ∧ r.kind = c.scope.kind ∧ r.space = c.scope.space) := by
  refine ⟨fun r hnames => ?_, fun _ => scope_eq_of_sameIdentity, inScope_of_not_legible⟩
  have hscope := inScope_of_names hnames
  refine ⟨hscope, fun items rs hrs hitem => ?_⟩
  rw [mem_candidates_iff hrs, and_iff_right hitem, hscope]

end Constraint

/-! ### A version with a slash in it -/

namespace Sample

/-- Asks for a deployment. -/
def deploymentsOf (group version : String) : Datum :=
  .mapping [(.text "group", .text group), (.text "version", .text version),
    (.text "kind", .text "Deployment")]

def deployments : Constraint := ⟨⟨"apps", "v1", "Deployment", ""⟩, [], [], none, none, ""⟩

/-- Has the group written into the version. -/
def muddled : Constraint := ⟨⟨"", "apps/v1", "Deployment", ""⟩, [], [], none, none, ""⟩

def deployed : Resource := ⟨"apps/v1", "Deployment", "web", "", Table.empty, .null⟩

theorem deployments_accepted : Constraint.ofManifest (deploymentsOf "apps" "v1") = .ok deployments :=
  rfl

theorem muddled_accepted : Constraint.ofManifest (deploymentsOf "" "apps/v1") = .ok muddled := rfl

end Sample

open Sample in
/-- With the group written into the version a constraint is accepted, and messages name it as the one
    that has them apart. It does not cover the deployment that both of them name. -/
theorem deployed_named_and_not_covered :
    Constraint.ofManifest (deploymentsOf "" "apps/v1") = .ok muddled ∧
      Constraint.ofManifest (deploymentsOf "apps" "v1") = .ok deployments ∧
      muddled.SameIdentity deployments ∧ muddled.describe = deployments.describe ∧
      muddled.scope ≠ deployments.scope ∧ muddled.Names deployed ∧
      Listed.inScope muddled.scope (.resource deployed) = .ok false ∧
      Listed.inScope deployments.scope (.resource deployed) = .ok true := by
  refine ⟨muddled_accepted, deployments_accepted, by decide, ?_, by decide, by decide, rfl, rfl⟩
  exact Constraint.SameIdentity.describe_eq (by decide)

open Sample in
/-- With group and version apart it covers the deployment, and has another scope. -/
theorem deployed_covered_when_apart :
    deployments.Names deployed ∧
      Listed.inScope deployments.scope (.resource deployed) = .ok true ∧
      deployments.SameIdentity muddled ∧ deployments.scope ≠ muddled.scope := by
  obtain ⟨hnamed, hsame, -⟩ := Constraint.covers_named_unless_illegible deployments
  have hlegible : deployments.scope.Legible := by decide
  have hillegible : ¬ muddled.scope.Legible := by decide
  have hnames : deployments.Names deployed := by decide
  have hidentity : deployments.SameIdentity muddled := by decide
  refine ⟨hnames, (hnamed deployed hnames).1.mpr hlegible, hidentity, fun heq => ?_⟩
  exact hillegible ((hsame muddled hidentity hlegible).mp heq)

end FleetLabels
