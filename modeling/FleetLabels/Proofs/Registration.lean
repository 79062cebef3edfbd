import FleetLabels.Proofs.Runs
import FleetLabels.Proofs.Selection

/-!
    Registered kinds, and the fields that constraints on them filter by.

    A registry knows of each kind what its last registration says (`Registry.lookup_registered`), and so
    a field can be used in a filter when it is common to all kinds or declared there
    (`Kind.Selectable`). An evaluator that is given a registry goes by it, unless nothing was ever
    registered: then it takes the kinds that every cluster knows, and lets more pass than the registry
    (`Evaluator.refuses_unregistered_unless_bare`). -/

namespace FleetLabels

/-! ### Registrations -/

namespace Kind

/-- The last registration of a kind. -/
def lastOf? (ks : List Kind) (n : KindName) : Option Kind := (ks.filter fun k => k.name = n).getLast?

/-- A field that resources of a kind can be selected by after registrations: one common to all, or one
    that the last registration of the kind declares. -/
def Selectable (ks : List Kind) (n : KindName) (field : String) : Prop :=
  field ∈ commonFields ∨ ∃ k, lastOf? ks n = some k ∧ field ∈ k.selectors

variable {ks js : List Kind} {n : KindName} {k : Kind} {field : String}

@[simp] theorem mem_fields : field ∈ k.fields ↔ field ∈ commonFields ∨ field ∈ k.selectors := by
  rw [fields, fieldSet, List.mem_mergeSort, List.mem_eraseDups, List.mem_append]

theorem lastOf?_append :
    lastOf? (ks ++ js) n = (lastOf? js n).or (lastOf? ks n) := by
  rw [lastOf?, List.filter_append, List.getLast?_append]
  rfl

theorem lastOf?_eq_none : lastOf? ks n = none ↔ ∀ k ∈ ks, k.name ≠ n := by
  simp [lastOf?]

/-- What comes last is not covered by what was registered before it. -/
theorem lastOf?_of_behind (hk : k.name = n) (hjs : ∀ j ∈ js, j.name ≠ n) :
    lastOf? (ks ++ k :: js) n = some k := by
  have hnone : lastOf? js n = none := lastOf?_eq_none.mpr hjs
  have hhead : lastOf? [k] n = some k := by simp [lastOf?, hk]
  rw [List.append_cons, lastOf?_append, lastOf?_append, hnone, hhead]
  rfl

/-- Without a registration only the common fields are left. -/
theorem selectable_of_unregistered (h : ∀ k ∈ ks, k.name ≠ n) :
    Selectable ks n field ↔ field ∈ commonFields := by
  rw [Selectable, lastOf?_eq_none.mpr h]
  simp

end Kind

namespace Registry

variable {r : Registry} {ks : List Kind} {n : KindName} {field : String}

/-- A registration changes what is known of its kind and nothing else. -/
@[simp] theorem lookup_register (r : Registry) (k : Kind) (n : KindName) :
    (r.register k).lookup n = if k.name = n then some k else r.lookup n :=
  Table.get?_set r.table k.name n k

/-- After registrations the last one of a kind is known, and what was known before where there is
    none. -/
theorem lookup_registered (r : Registry) (ks : List Kind) (n : KindName) :
    (ks.foldl register r).lookup n = (Kind.lastOf? ks n).or (r.lookup n) := by
  have hstep : ∀ (r : Registry) (k : Kind), (r.register k).lookup n =
      (Option.guard (fun k : Kind => k.name = n) k).or (r.lookup n) := by
    intro r k
    rw [lookup_register]
    by_cases hk : k.name = n <;> simp [Option.guard, hk]
  have hrun := foldl_latest (f := fun r => lookup r n) hstep r ks
  rwa [List.filterMap_eq_filter] at hrun

theorem lookup_ofList (ks : List Kind) (n : KindName) : (ofList ks).lookup n = Kind.lastOf? ks n := by
  rw [ofList, lookup_registered]
  exact Option.or_none

theorem mem_supportedFields_ofList :
    field ∈ (ofList ks).supportedFields n ↔ Kind.Selectable ks n field := by
  rw [supportedFields, lookup_ofList, Kind.Selectable]
  cases Kind.lastOf? ks n <;> simp

/-- Only the registry in which nothing was ever registered is empty. -/
theorem size_ofList_eq_zero_iff : (ofList ks).size = 0 ↔ ks = [] := by
  constructor
  · intro hsize
    have hentries : (ofList ks).table.entries = [] := List.length_eq_zero_iff.mp hsize
    have hnone : ∀ n, Kind.lastOf? ks n = none := by
      intro n
      rw [← lookup_ofList, lookup, Table.get?, hentries]
      rfl
    refine List.eq_nil_iff_forall_not_mem.mpr fun k hk => ?_
    exact Kind.lastOf?_eq_none.mp (hnone k.name) k hk rfl
  · rintro rfl
    rfl

end Registry

/-! ### Refused filters -/

/-- The name of the kind whose resources are in a scope. -/
def Scope.kindName (s : Scope) : KindName := ⟨some s.group, s.version, s.kind⟩

namespace Evaluator

variable {e : Evaluator} {c : Constraint} {items : List Listed} {ks : List Kind}
  {runtime : Option ScriptRuntime}

/-- A constraint is refused on a listing because it filters by a field that is not supported. -/
def RefusesField (e : Evaluator) (c : Constraint) (items : List Listed) : Prop :=
  ∃ field kind supported calls,
    e.select c items = .ok ⟨.error (.unsupportedField field kind supported), calls⟩

/-- No script finds a field at fault. -/
theorem judge_ne_unsupportedField (e : Evaluator) (script : String) (rs : List Resource)
    (field kind : String) (supported : List String) :
    (e.judge script rs).found ≠ .error (.unsupportedField field kind supported) := by
  rw [judge_eq]
  split
  · intro h
    cases h
  · intro h
    cases hfound : (Script.sift (fun _ => Script.run e.runtime script) [] rs).1 with
    | ok found => simp [hfound, Except.mapError] at h
    | error f => simp [hfound, Except.mapError] at h

/-- Fields are looked at before anything that is listed. -/
theorem refusesField_iff : e.RefusesField c items ↔ ¬ e.Supports c := by
  simp only [RefusesField, select_eq]
  rw [Supports, ← @unsupported?_eq_none c.scope.kind]
  cases hfield : unsupported? c.scope.kind (e.supportedFields c.scope) c.fieldFilters with
  | some f =>
    obtain ⟨filter, -, rfl⟩ := Option.map_eq_some_iff.mp hfield
    exact iff_of_true ⟨_, _, _, _, rfl⟩ (Option.some_ne_none _)
  | none =>
    refine iff_of_false ?_ (not_not.mpr rfl)
    rintro ⟨field, kind, supported, calls, hselect⟩
    obtain ⟨rs, -, hjudge⟩ := Attempt.of_bind_eq_ok hselect
    exact judge_ne_unsupportedField e _ _ field kind supported
      (congrArg Selection.found (Except.ok.inj hjudge))

/-- An evaluator that is given registered kinds goes by them. -/
theorem registry_ofList (h : ks ≠ []) (runtime : Option ScriptRuntime) :
    (ofRegistry (some (.ofList ks)) runtime).registry = .ofList ks := by
  have hsize : (Registry.ofList ks).size ≠ 0 := mt Registry.size_ofList_eq_zero_iff.mp h
  simp [ofRegistry, hsize]

theorem supports_iff_of_registry (h : e.registry = .ofList ks) :
    e.Supports c ↔ ∀ f ∈ c.fieldFilters, Kind.Selectable ks c.scope.kindName f.field := by
  simp only [Supports, supportedFields, h]
  exact forall₂_congr fun f _ => Registry.mem_supportedFields_ofList

/-- Nothing was registered, and the constraint filters by fields that kinds known to every cluster have
    and not all of which are common. -/
def Unheeded (ks : List Kind) (c : Constraint) : Prop :=
  ks = [] ∧ (∀ f ∈ c.fieldFilters, Kind.Selectable Kind.builtin c.scope.kindName f.field) ∧
    ∃ f ∈ c.fieldFilters, f.field ∉ commonFields

/-- Whatever is listed, a constraint is refused for a field exactly when it filters by one that the
    registrations do not make selectable, unless nothing was registered and the kinds known to every
    cluster let all its filters pass. In place of a registry with nothing in it those kinds are taken. -/
theorem refuses_unregistered_unless_bare (ks : List Kind) (runtime : Option ScriptRuntime)
    (c : Constraint) (items : List Listed) :
    ((¬ (ofRegistry (some (.ofList ks)) runtime).RefusesField c items ↔
        ∀ f ∈ c.fieldFilters, Kind.Selectable ks c.scope.kindName f.field) ↔ ¬ Unheeded ks c) ∧
    (¬ (ofRegistry (some (.ofList [])) runtime).RefusesField c items ↔
      ∀ f ∈ c.fieldFilters, Kind.Selectable Kind.builtin c.scope.kindName f.field) := by
  have hbuiltin : (ofRegistry (some (.ofList [])) runtime).Supports c ↔
      ∀ f ∈ c.fieldFilters, Kind.Selectable Kind.builtin c.scope.kindName f.field :=
    supports_iff_of_registry rfl
  rw [refusesField_iff, not_not, refusesField_iff, not_not]
  refine ⟨?_, hbuiltin⟩
  by_cases hbare : ks = []
  · subst hbare
    have hcommon : ∀ field, Kind.Selectable [] c.scope.kindName field ↔ field ∈ commonFields :=
      fun field => Kind.selectable_of_unregistered fun k hk => absurd hk List.not_mem_nil
    simp only [hbuiltin, hcommon, Unheeded, true_and]
    constructor
    · rintro hiff ⟨hall, f, hf, hfield⟩
      exact hfield (hiff.mp hall f hf)
    · intro hheeded
      refine ⟨fun hall f hf => ?_, fun hall f hf => .inl (hall f hf)⟩
      by_contra hfield
      exact hheeded ⟨hall, f, hf, hfield⟩
  · have hsupports := supports_iff_of_registry (c := c) (registry_ofList hbare runtime)
    exact iff_of_true hsupports fun h => hbare h.1

end Evaluator

namespace Sample

/-- Asks for a pod on one node. -/
def pinned : Constraint :=
  ⟨⟨"", "v1", "Pod", ""⟩, [], [⟨"spec.nodeName", .equal, "n1"⟩], none, none, ""⟩

/-- Pods, with the fields that are declared of them. -/
def podKind (fields : List String) : Kind := .of "" "v1" "Pod" fields true

end Sample

open Sample in
/-- Where nothing was registered a pod can be asked for by its node all the same. -/
theorem pinned_allowed_by_bare_registry :
    ¬ (Evaluator.ofRegistry (some (.ofList [])) none).RefusesField pinned [] ∧
      ∃ f ∈ pinned.fieldFilters, ¬ Kind.Selectable [] pinned.scope.kindName f.field := by
  constructor
  · have hbuiltin : (Evaluator.ofRegistry (some (.ofList [])) none).registry = .ofList Kind.builtin :=
      rfl
    rw [Evaluator.refusesField_iff, not_not, Evaluator.supports_iff_of_registry hbuiltin]
    intro f hf
    obtain rfl := List.mem_singleton.mp hf
    exact .inr ⟨_, rfl, by decide⟩
  · refine ⟨_, List.mem_singleton_self _, ?_⟩
    rintro (hcommon | ⟨k, hk, -⟩)
    · exact absurd hcommon (by decide)
    · cases hk

open Sample in
/-- Where pods were registered it depends on the last registration of them. -/
theorem pinned_refused_after_plain_registration :
    (Evaluator.ofRegistry (some (.ofList [podKind ["spec.nodeName"], podKind []])) none).RefusesField
        pinned [] ∧
      ¬ (Evaluator.ofRegistry (some (.ofList [podKind [], podKind ["spec.nodeName"]])) none).RefusesField
        pinned [] := by
  have hallowed (first last : List String) :
      ¬ (Evaluator.ofRegistry (some (.ofList [podKind first, podKind last])) none).RefusesField
          pinned [] ↔ "spec.nodeName" ∈ commonFields ∨ "spec.nodeName" ∈ last := by
    obtain ⟨hiff, -⟩ := Evaluator.refuses_unregistered_unless_bare [podKind first, podKind last] none
      pinned []
    rw [hiff.mpr fun h => absurd h.1 (by simp)]
    simp [pinned, Kind.Selectable, Kind.lastOf?, Scope.kindName, podKind, Kind.of]
  exact ⟨not_not.mp (mt (hallowed _ _).mp (by decide)), (hallowed _ _).mpr (by decide)⟩

end FleetLabels
