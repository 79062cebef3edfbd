import FleetLabels.Config
import FleetLabels.Proofs.Reading
import FleetLabels.Proofs.Registration

/-!
    Kinds that a configuration declares, and the constraints that ask for them.

    A declaration and a constraint name one kind when they state one version, one kind and one group,
    of which a group that says nothing is the core group (`Datum.SameKind`). The last declaration of its
    kind says by which fields a constraint may filter, unless its group is null: such a declaration is
    taken, yet reaches no constraint, and what stands before it or is known to every cluster counts
    (`Config.declared_fields_reach_unless_null`). -/

namespace FleetLabels

/-! ### The last of its kind in a list -/

/-- An item with a property that no item behind it has. -/
def IsLast {α : Type} (p : α → Prop) (as : List α) (a : α) : Prop :=
  ∃ before after, as = before ++ a :: after ∧ p a ∧ ∀ b ∈ after, ¬ p b

/-- If any item has the property, there is a last one. -/
theorem exists_isLast {α : Type} {p : α → Prop} {as : List α} (h : ∃ a ∈ as, p a) :
    ∃ a, IsLast p as a := by
  induction as with
  | nil => simp at h
  | cons b rest ih =>
    by_cases hrest : ∃ a ∈ rest, p a
    · obtain ⟨a, before, after, rfl, ha, hafter⟩ := ih hrest
      exact ⟨a, b :: before, after, rfl, ha, hafter⟩
    · obtain ⟨a, ha, hpa⟩ := h
      rcases List.mem_cons.mp ha with rfl | ha
      · exact ⟨a, [], rest, rfl, hpa, fun c hc hpc => hrest ⟨c, hc, hpc⟩⟩
      · exact absurd ⟨a, ha, hpa⟩ hrest

theorem IsLast.mem {α : Type} {p : α → Prop} {as : List α} {a : α} (h : IsLast p as a) :
    a ∈ as ∧ p a := by
  obtain ⟨before, after, rfl, ha, -⟩ := h
  exact ⟨by simp, ha⟩

theorem IsLast.unique {α : Type} {p : α → Prop} {as : List α} {a b : α} (ha : IsLast p as a)
    (hb : IsLast p as b) : a = b := by
  classical
  have hfilter : ∀ {c}, IsLast p as c → (as.filter p).getLast? = some c := by
    rintro c ⟨before, after, rfl, hc, hafter⟩
    have hnone : after.filter p = [] := by simpa [List.filter_eq_nil_iff] using hafter
    simp [List.filter_append, hc, hnone]
  exact Option.some.inj ((hfilter ha).symm.trans (hfilter hb))

/-- What is paired with an item stands in its place. -/
theorem split_of_forall₂ {α β : Type} {R : α → β → Prop} {before after : List α} {a : α} {bs : List β}
    (h : List.Forall₂ R (before ++ a :: after) bs) :
    ∃ front b back, bs = front ++ b :: back ∧ R a b ∧ List.Forall₂ R after back := by
  induction before generalizing bs with
  | nil =>
    obtain ⟨b, back, hab, hafter, rfl⟩ := List.forall₂_cons_left_iff.mp h
    exact ⟨[], b, back, rfl, hab, hafter⟩
  | cons c rest ih =>
    obtain ⟨d, others, -, hothers, rfl⟩ := List.forall₂_cons_left_iff.mp h
    obtain ⟨front, b, back, rfl, hab, hafter⟩ := ih hothers
    exact ⟨d :: front, b, back, rfl, hab, hafter⟩

/-! ### What manifests name -/

namespace Datum

/-- The group of a manifest; one that says nothing is the core group, which has the empty name. -/
def StatesGroup (d : Datum) (group : String) : Prop :=
  d.valueAt "group" = .text group ∨ group = "" ∧ (d.valueAt "group").isGiven = false

/-- The kind that a manifest names, be it one that declares the kind or a constraint on it. -/
structure Names (d : Datum) (n : KindName) : Prop where
  group : ∃ g, n.group = some g ∧ d.StatesGroup g
  version : d.valueAt "version" = .text n.version
  kind : d.valueAt "kind" = .text n.kind

/-- Two manifests name one kind. -/
def SameKind (d m : Datum) : Prop := ∃ n, d.Names n ∧ m.Names n

/-- The group is written out as null. -/
def NullGroup (d : Datum) : Prop := d.get? "group" = some .null

/-- A declaration of the kind that a constraint is on, with a group that is not null. -/
def Reaches (d m : Datum) : Prop := d.SameKind m ∧ ¬ d.NullGroup

/-- A field is among those that a declaration of a kind lists. -/
def Declares (d : Datum) (field : String) : Prop :=
  ∃ xs, Manifest.items (d.valueAt "fieldSelectors") = .ok xs ∧ .text field ∈ xs

variable {d m : Datum} {n : KindName} {g : String}

theorem text_isGiven_eq_false {s : String} : (Datum.text s).isGiven = false ↔ s = "" := by
  simp [isGiven, Scalar.isGiven]

theorem StatesGroup.unique {h : String} (hg : d.StatesGroup g) (hh : d.StatesGroup h) : g = h := by
  rcases hg with hg | ⟨rfl, hg⟩ <;> rcases hh with hh | ⟨rfl, hh⟩
  · exact Scalar.text.inj (Datum.scalar.inj (hg.symm.trans hh))
  · rw [hg] at hh
    exact text_isGiven_eq_false.mp hh
  · rw [hh] at hg
    exact (text_isGiven_eq_false.mp hg).symm
  · rfl

theorem Names.unique {o : KindName} (hn : d.Names n) (ho : d.Names o) : n = o := by
  obtain ⟨⟨g, hg, hgroup⟩, hversion, hkind⟩ := hn
  obtain ⟨⟨h, hh, hgroup'⟩, hversion', hkind'⟩ := ho
  obtain ⟨group, version, kind⟩ := n
  obtain ⟨group', version', kind'⟩ := o
  cases hg
  cases hh
  cases hversion.symm.trans hversion'
  cases hkind.symm.trans hkind'
  rw [hgroup.unique hgroup']

end Datum

/-! ### What manifests are read as -/

theorem Manifest.optional_eq_ok {d : Datum} {s : String} (h : optional d = .ok s) :
    d = .text s ∨ s = "" ∧ d.isGiven = false := by
  unfold optional at h
  by_cases hgiven : d.isGiven = true
  · rw [if_pos hgiven] at h
    split at h
    · cases h
      exact .inl rfl
    · cases h
  · rw [if_neg hgiven] at h
    cases h
    exact .inr ⟨rfl, by simpa using hgiven⟩

/-- A constraint is on the kind that its manifest names. -/
theorem Constraint.names_of_ofManifest {m : Datum} {c : Constraint} (h : ofManifest m = .ok c) :
    m.Names c.scope.kindName := by
  obtain ⟨f, hfields, h⟩ := Attempt.of_bind_eq_ok h
  obtain ⟨_, -, h⟩ := Attempt.of_bind_eq_ok h
  obtain ⟨_, -, h⟩ := Attempt.of_bind_eq_ok h
  obtain ⟨scope, hscope, h⟩ := Attempt.of_bind_eq_ok h
  obtain ⟨_, -, h⟩ := Attempt.of_bind_eq_ok h
  obtain ⟨_, -, h⟩ := Attempt.of_bind_eq_ok h
  cases h
  obtain ⟨_, hmember, -⟩ := Attempt.of_bind_eq_ok hfields
  obtain ⟨entries, rfl⟩ := Manifest.isMapping_of_memberOr hmember
  cases hfields
  obtain ⟨kind, hkind, hscope⟩ := Attempt.of_bind_eq_ok hscope
  obtain ⟨version, hversion, hscope⟩ := Attempt.of_bind_eq_ok hscope
  obtain ⟨group, hgroup, hscope⟩ := Attempt.of_bind_eq_ok hscope
  obtain ⟨_, -, hscope⟩ := Attempt.of_bind_eq_ok hscope
  cases hscope
  exact ⟨⟨group, rfl, Manifest.optional_eq_ok hgroup⟩, (Manifest.required_eq_ok hversion).2,
    (Manifest.required_eq_ok hkind).2⟩

namespace Kind

variable {d : Datum} {k : Kind} {n : KindName} {field : String}

theorem groupOf_eq_ok {d : Datum} {group : Option String} (h : groupOf d = .ok group) :
    d = group.elim .null .text := by
  unfold groupOf at h
  split at h <;> cases h <;> rfl

theorem fieldOf_eq_ok {d : Datum} {s : String} (h : fieldOf d = .ok s) : d = .text s := by
  unfold fieldOf at h
  split at h <;> cases h
  rfl

theorem mem_iff_declares {fields : List String}
    (h : Manifest.each fieldOf "fieldSelectors" d = .ok fields) :
    field ∈ fields ↔ d.Declares field := by
  obtain ⟨v, hv, h⟩ := Attempt.of_bind_eq_ok h
  obtain ⟨xs, hxs, hfields⟩ := Attempt.of_bind_eq_ok h
  obtain rfl := Manifest.member_eq_ok hv
  have hmap : xs.map id = fields.map .text :=
    Attempt.map_eq_map_of_mapM hfields fun _ _ => fieldOf_eq_ok
  rw [List.map_id] at hmap
  rw [Datum.Declares, hxs]
  simp [hmap]

/-- What a declaration is read as. -/
structure ReadFrom (d : Datum) (k : Kind) : Prop where
  group : (d.get? "group").getD (.text "") = k.name.group.elim .null .text
  version : d.valueAt "version" = .text k.name.version
  kind : d.valueAt "kind" = .text k.name.kind
  selectors : ∀ field, field ∈ k.selectors ↔ d.Declares field

theorem readFrom_of_ofManifest (h : ofManifest d = .ok k) : ReadFrom d k := by
  unfold ofManifest at h
  dsimp only at h
  split at h
  · rename_i hgiven
    obtain ⟨g, hg, h⟩ := Attempt.of_bind_eq_ok h
    have hd := Manifest.isMapping_of_memberOr hg
    obtain ⟨group, hgroup, h⟩ := Attempt.of_bind_eq_ok h
    obtain ⟨v, hv, h⟩ := Attempt.of_bind_eq_ok h
    obtain ⟨version, hversion, h⟩ := Attempt.of_bind_eq_ok h
    obtain ⟨κ, hκ, h⟩ := Attempt.of_bind_eq_ok h
    obtain ⟨kind, hkind, h⟩ := Attempt.of_bind_eq_ok h
    obtain ⟨namespaced, -, h⟩ := Attempt.of_bind_eq_ok h
    obtain ⟨fields, hfields, h⟩ := Attempt.of_bind_eq_ok h
    cases h
    obtain rfl := Manifest.member_eq_ok hv
    obtain rfl := Manifest.member_eq_ok hκ
    rw [Manifest.memberOr_eq hd] at hg
    cases hg
    -- version and kind were found to say something before they are read
    have hsaid : ∀ key s, (d.get? key).any Datum.isGiven = true →
        Manifest.optional (d.valueAt key) = .ok s → d.valueAt key = .text s := by
      intro key s hany hread
      refine (Manifest.optional_eq_ok hread).resolve_right fun hnot => ?_
      rw [Datum.valueAt] at hnot
      cases hget : d.get? key with
      | none => simp [hget] at hany
      | some v => simp_all
    rw [Bool.and_eq_true] at hgiven
    exact ⟨groupOf_eq_ok hgroup, hsaid _ _ hgiven.1 hversion, hsaid _ _ hgiven.2 hkind,
      fun _ => mem_iff_declares hfields⟩
  · cases h

theorem ReadFrom.nullGroup (h : ReadFrom d k) (hgroup : k.name.group = none) : d.NullGroup := by
  have hnull := h.group
  rw [hgroup] at hnull
  rw [Datum.NullGroup]
  cases hget : d.get? "group" with
  | none => rw [hget] at hnull; cases hnull
  | some v => rw [hget] at hnull; exact congrArg some hnull

theorem ReadFrom.names {g : String} (h : ReadFrom d k) (hgroup : k.name.group = some g) :
    d.Names k.name ∧ ¬ d.NullGroup := by
  have hstated := h.group
  rw [hgroup] at hstated
  refine ⟨⟨⟨g, hgroup, ?_⟩, h.version, h.kind⟩, fun hnull => ?_⟩
  · rw [Datum.StatesGroup, Datum.valueAt]
    cases hget : d.get? "group" with
    | none => rw [hget] at hstated; cases hstated; exact .inr ⟨rfl, rfl⟩
    | some v => rw [hget] at hstated; exact .inl hstated
  · rw [hnull] at hstated
    cases hstated

/-- A declaration is registered under the name that it states, unless its group is null. -/
theorem ReadFrom.name_eq_iff (h : ReadFrom d k) (hn : n.group.isSome = true) :
    k.name = n ↔ d.Names n ∧ ¬ d.NullGroup := by
  cases hgroup : k.name.group with
  | none =>
    refine iff_of_false ?_ fun hnamed => hnamed.2 (h.nullGroup hgroup)
    rintro rfl
    simp [hgroup] at hn
  | some g =>
    obtain ⟨hnames, hnull⟩ := h.names hgroup
    constructor
    · rintro rfl
      exact ⟨hnames, hnull⟩
    · intro hnamed
      exact hnames.unique hnamed.1

end Kind

/-! ### The registry of a configuration -/

/-- The kinds of a configuration are registered behind those that every cluster knows. -/
theorem Config.registry_eq_ok {c : Config} {r : Registry} (h : c.registry = .ok r) :
    ∃ ks, List.Forall₂ Kind.ReadFrom c.settings.resourceKinds ks ∧
      r = .ofList (Kind.builtin ++ ks) := by
  have hrun : ∀ (ds : List Datum) (start r : Registry),
      ds.foldlM (fun r d => (Kind.ofManifest d).map r.register) start = .ok r →
      ∃ ks, List.Forall₂ Kind.ReadFrom ds ks ∧ r = ks.foldl Registry.register start := by
    intro ds
    induction ds with
    | nil =>
      intro start r h
      cases h
      exact ⟨[], .nil, rfl⟩
    | cons d rest ih =>
      intro start r h
      rw [List.foldlM_cons] at h
      obtain ⟨next, hnext, hrest⟩ := Attempt.of_bind_eq_ok h
      cases hk : Kind.ofManifest d with
      | error f => rw [hk] at hnext; cases hnext
      | ok k =>
        rw [hk] at hnext
        cases hnext
        obtain ⟨ks, hks, rfl⟩ := ih _ _ hrest
        exact ⟨k :: ks, .cons (Kind.readFrom_of_ofManifest hk) hks, rfl⟩
  obtain ⟨ks, hks, rfl⟩ := hrun _ _ _ h
  refine ⟨ks, hks, ?_⟩
  rw [Registry.ofList, List.foldl_append]
  rfl

namespace Kind

variable {ds : List Datum} {ks : List Kind} {m d : Datum} {n : KindName} {k : Kind}

/-- What reaches a constraint is what is registered for its kind. -/
theorem ReadFrom.reaches_iff (h : ReadFrom d k) (hm : m.Names n) : d.Reaches m ↔ k.name = n := by
  obtain ⟨g, hgroup, -⟩ := hm.group
  rw [h.name_eq_iff (by simp [hgroup]), Datum.Reaches]
  refine and_congr_left fun _ => ⟨?_, fun hd => ⟨n, hd, hm⟩⟩
  rintro ⟨o, hd, ho⟩
  rwa [hm.unique ho]

theorem lastOf?_of_isLast (hks : List.Forall₂ ReadFrom ds ks) (hm : m.Names n)
    (hlast : IsLast (·.Reaches m) ds d) :
    ∃ k, ReadFrom d k ∧ lastOf? (builtin ++ ks) n = some k := by
  obtain ⟨before, after, rfl, hd, hafter⟩ := hlast
  obtain ⟨front, k, back, rfl, hk, hback⟩ := split_of_forall₂ hks
  refine ⟨k, hk, ?_⟩
  rw [← List.append_assoc]
  refine lastOf?_of_behind ((hk.reaches_iff hm).mp hd) fun j hj hname => ?_
  obtain ⟨b, hb, hread⟩ := exists_left_of_forall₂ hback hj
  exact hafter b hb ((hread.reaches_iff hm).mpr hname)

theorem lastOf?_of_unreached (hks : List.Forall₂ ReadFrom ds ks) (hm : m.Names n)
    (hnone : ∀ d ∈ ds, ¬ d.Reaches m) : lastOf? (builtin ++ ks) n = lastOf? builtin n := by
  have hks' : lastOf? ks n = none := by
    refine lastOf?_eq_none.mpr fun j hj hname => ?_
    obtain ⟨b, hb, hread⟩ := exists_left_of_forall₂ hks hj
    exact hnone b hb ((hread.reaches_iff hm).mpr hname)
  rw [lastOf?_append, hks', Option.none_or]

end Kind

/-! ### What a constraint may filter by -/

/-- Constraints on a scope may filter by a field: none that has no other filters is refused. -/
def Evaluator.MayUse (e : Evaluator) (s : Scope) (field : String) : Prop :=
  ∀ c : Constraint, c.scope = s → (∀ f ∈ c.fieldFilters, f.field = field) →
    ∀ items, ¬ e.RefusesField c items

theorem Evaluator.mayUse_iff {e : Evaluator} {s : Scope} {field : String} :
    e.MayUse s field ↔ field ∈ e.supportedFields s := by
  constructor
  · intro hmay
    have hallowed := hmay ⟨s, [], [⟨field, .equal, ""⟩], none, none, ""⟩ rfl (by simp) []
    rw [refusesField_iff, not_not] at hallowed
    exact hallowed _ (List.mem_singleton_self _)
  · rintro hfield c rfl hc items
    rw [refusesField_iff, not_not]
    intro f hf
    rwa [hc f hf]

/-- A constraint is refused for those of its fields that constraints on its scope may not use. -/
theorem Evaluator.refusesField_iff_exists {e : Evaluator} {c : Constraint} {items : List Listed} :
    e.RefusesField c items ↔ ∃ f ∈ c.fieldFilters, ¬ e.MayUse c.scope f.field := by
  rw [refusesField_iff, Supports]
  simp [mayUse_iff]

/-- A field may be used by the constraints on a declared kind. -/
def Datum.Admits (d : Datum) (field : String) : Prop := field ∈ commonFields ∨ d.Declares field

/-- A field may be used by a constraint under declarations: it is common to all kinds, or listed by the
    last declaration that reaches the constraint, or no declaration reaches the constraint and the kind
    is known to every cluster with that field. -/
inductive Offers (ds : List Datum) (m : Datum) (field : String) : Prop where
  | common (h : field ∈ commonFields)
  | declared {d : Datum} (hlast : IsLast (·.Reaches m) ds d) (h : d.Declares field)
  | builtin {n : KindName} (hnone : ∀ d ∈ ds, ¬ d.Reaches m) (hn : m.Names n)
      (h : Kind.Selectable Kind.builtin n field)

/-- Constraints may use what the declarations of a configuration offer them. -/
theorem Config.mayUse_iff_offers {c : Config} {r : Registry} {m : Datum} {k : Constraint}
    {field : String} (hr : c.registry = .ok r) (hm : Constraint.ofManifest m = .ok k)
    (runtime : Option ScriptRuntime) :
    (Evaluator.ofRegistry (some r) runtime).MayUse k.scope field ↔
      Offers c.settings.resourceKinds m field := by
  obtain ⟨ks, hks, rfl⟩ := registry_eq_ok hr
  have hn := Constraint.names_of_ofManifest hm
  have hselectable : (Evaluator.ofRegistry (some (.ofList (Kind.builtin ++ ks))) runtime).MayUse
      k.scope field ↔ Kind.Selectable (Kind.builtin ++ ks) k.scope.kindName field := by
    rw [Evaluator.mayUse_iff, Evaluator.supportedFields,
      Evaluator.registry_ofList (by simp [Kind.builtin])]
    exact Registry.mem_supportedFields_ofList
  rw [hselectable, Kind.Selectable]
  by_cases hreached : ∃ d ∈ c.settings.resourceKinds, d.Reaches m
  · obtain ⟨d, hlast⟩ := exists_isLast hreached
    obtain ⟨κ, hκ, hof⟩ := Kind.lastOf?_of_isLast hks hn hlast
    simp only [hof, Option.some.injEq, exists_eq_left', hκ.selectors]
    constructor
    · rintro (hcommon | hdeclared)
      · exact .common hcommon
      · exact .declared hlast hdeclared
    · rintro (hcommon | ⟨hlast', hdeclared⟩ | ⟨hnone, -, -⟩)
      · exact .inl hcommon
      · exact .inr (hlast.unique hlast' ▸ hdeclared)
      · obtain ⟨b, hb, hreaches⟩ := hreached
        exact absurd hreaches (hnone b hb)
  · have hnone : ∀ d ∈ c.settings.resourceKinds, ¬ d.Reaches m :=
      fun d hd hreaches => hreached ⟨d, hd, hreaches⟩
    rw [Kind.lastOf?_of_unreached hks hn hnone]
    constructor
    · exact fun hbuiltin => .builtin hnone hn hbuiltin
    · rintro (hcommon | ⟨hlast, -⟩ | ⟨-, hn', hbuiltin⟩)
      · exact .inl hcommon
      · exact absurd hlast.mem.2 (hnone _ hlast.mem.1)
      · rwa [hn.unique hn']

/-- The last declaration of its kind has a group that is null, and the fields that it declares are not
    those that are offered without it. -/
def Eclipsed (ds : List Datum) (m d : Datum) : Prop :=
  d.NullGroup ∧ ¬ ∀ field, Offers ds m field ↔ d.Admits field

/-- A declaration whose group is not null offers what it admits if it is the last of its kind. -/
theorem offers_iff_admits {ds : List Datum} {m d : Datum} {field : String}
    (hlast : IsLast (·.SameKind m) ds d) (hnull : ¬ d.NullGroup) :
    Offers ds m field ↔ d.Admits field := by
  have hreaches : IsLast (·.Reaches m) ds d := by
    obtain ⟨before, after, hsplit, hd, hafter⟩ := hlast
    exact ⟨before, after, hsplit, ⟨hd, hnull⟩, fun b hb h => hafter b hb h.1⟩
  constructor
  · rintro (hcommon | ⟨hlast', hdeclared⟩ | ⟨hnone, -, -⟩)
    · exact .inl hcommon
    · exact .inr (hreaches.unique hlast' ▸ hdeclared)
    · exact absurd hreaches.mem.2 (hnone d hreaches.mem.1)
  · rintro (hcommon | hdeclared)
    · exact .common hcommon
    · exact .declared hreaches hdeclared

/-- Under a configuration that gives a registry, a constraint may filter by the common fields and by
    those that the last declaration of its kind lists, unless that declaration has null for its group and
    lists other fields than are offered without it. What is offered are always the fields of the last
    declaration whose group is not null, or else those that every cluster knows of the kind. -/
theorem Config.declared_fields_reach_unless_null {c : Config} {r : Registry} {m : Datum}
    {k : Constraint} (hr : c.registry = .ok r) (hm : Constraint.ofManifest m = .ok k)
    (runtime : Option ScriptRuntime) :
    (∀ d, IsLast (·.SameKind m) c.settings.resourceKinds d →
      ((∀ field, (Evaluator.ofRegistry (some r) runtime).MayUse k.scope field ↔ d.Admits field) ↔
        ¬ Eclipsed c.settings.resourceKinds m d)) ∧
    (∀ field, (Evaluator.ofRegistry (some r) runtime).MayUse k.scope field ↔
      Offers c.settings.resourceKinds m field) ∧
    ∀ items, (Evaluator.ofRegistry (some r) runtime).RefusesField k items ↔
      ∃ f ∈ k.fieldFilters, ¬ (Evaluator.ofRegistry (some r) runtime).MayUse k.scope f.field := by
  have hoffers : ∀ field, (Evaluator.ofRegistry (some r) runtime).MayUse k.scope field ↔
      Offers c.settings.resourceKinds m field := fun _ => mayUse_iff_offers hr hm runtime
  refine ⟨fun d hlast => ?_, hoffers, fun _ => Evaluator.refusesField_iff_exists⟩
  simp only [hoffers, Eclipsed, not_and, not_not]
  constructor
  · exact fun hadmits _ => hadmits
  · intro heclipsed field
    by_cases hnull : d.NullGroup
    · exact heclipsed hnull field
    · exact offers_iff_admits hlast hnull

namespace Sample

/-- Declares widgets with one field. -/
def widgetKind (group : Datum) (field : String) : Datum :=
  .mapping [(.text "group", group), (.text "version", .text "v1"), (.text "kind", .text "Widget"),
    (.text "fieldSelectors", .list [.text field])]

/-- Asks for widgets of one size. -/
def sized : Datum :=
  .mapping [(.text "version", .text "v1"), (.text "kind", .text "Widget"),
    (.text "fieldFilters", .list [.mapping [(.text "field", .text "spec.size"),
      (.text "operation", .text "Equal"), (.text "value", .text "1")]])]

def sizedWidgets : Constraint :=
  ⟨⟨"", "v1", "Widget", ""⟩, [], [⟨"spec.size", .equal, "1"⟩], none, none, ""⟩

/-- A configuration that only declares kinds. -/
def declaring (kinds : List Datum) : Config :=
  ⟨⟨.int 4, "creation", kinds, .text "INFO", .null⟩, .empty, .empty⟩

theorem sized_accepted : Constraint.ofManifest sized = .ok sizedWidgets := rfl

theorem sized_names : sized.Names ⟨some "", "v1", "Widget"⟩ :=
  ⟨⟨"", rfl, .inr ⟨rfl, rfl⟩⟩, rfl, rfl⟩

theorem widgetKind_sameKind {group : Datum} (h : group = .null ∨ group = .text "") (field : String) :
    (widgetKind group field).SameKind sized := by
  refine ⟨_, ⟨⟨"", rfl, ?_⟩, rfl, rfl⟩, sized_names⟩
  rcases h with rfl | rfl
  · exact .inr ⟨rfl, rfl⟩
  · exact .inl rfl

end Sample

open Sample in
/-- Widgets that are declared with null for their group cannot be asked for by the field that was
    declared of them. -/
theorem sized_refused_under_null_group :
    ∃ r, (declaring [widgetKind .null "spec.size"]).registry = .ok r ∧
      Constraint.ofManifest sized = .ok sizedWidgets ∧
      IsLast (·.SameKind sized) [widgetKind .null "spec.size"] (widgetKind .null "spec.size") ∧
      (widgetKind .null "spec.size").Admits "spec.size" ∧
      ¬ (Evaluator.ofRegistry (some r) none).MayUse sizedWidgets.scope "spec.size" ∧
      (Evaluator.ofRegistry (some r) none).RefusesField sizedWidgets [] := by
  obtain ⟨r, hr⟩ : ∃ r, (declaring [widgetKind .null "spec.size"]).registry = .ok r := ⟨_, rfl⟩
  have hsame := widgetKind_sameKind (.inl rfl) "spec.size"
  have hmay : ¬ (Evaluator.ofRegistry (some r) none).MayUse sizedWidgets.scope "spec.size" := by
    rw [Config.mayUse_iff_offers hr sized_accepted]
    rintro (hcommon | ⟨hlast, -⟩ | ⟨-, hn, hbuiltin⟩)
    · exact absurd hcommon (by decide)
    · obtain rfl := List.mem_singleton.mp hlast.mem.1
      exact hlast.mem.2.2 rfl
    · rw [← sized_names.unique hn, Kind.selectable_of_unregistered (by decide)] at hbuiltin
      exact absurd hbuiltin (by decide)
  refine ⟨r, hr, sized_accepted, ⟨[], [], rfl, hsame, nofun⟩, .inr ⟨_, rfl, by simp⟩, hmay, ?_⟩
  exact Evaluator.refusesField_iff_exists.mpr ⟨_, List.mem_singleton_self _, hmay⟩

open Sample in
/-- Widgets that are declared once more with the empty group can be asked for by the field of that
    declaration, and no more by the field of the one before. -/
theorem sized_refused_after_redeclaration :
    ∃ r, (declaring [widgetKind (.text "") "spec.size", widgetKind (.text "") "spec.colour"]).registry =
        .ok r ∧
      (Evaluator.ofRegistry (some r) none).MayUse sizedWidgets.scope "spec.colour" ∧
      (Evaluator.ofRegistry (some r) none).RefusesField sizedWidgets [] := by
  obtain ⟨r, hr⟩ : ∃ r, (declaring [widgetKind (.text "") "spec.size",
      widgetKind (.text "") "spec.colour"]).registry = .ok r := ⟨_, rfl⟩
  obtain ⟨hadmits, -, hrefuses⟩ := Config.declared_fields_reach_unless_null hr sized_accepted none
  have hsame := widgetKind_sameKind (.inr rfl) "spec.colour"
  have hlast : IsLast (·.SameKind sized)
      [widgetKind (.text "") "spec.size", widgetKind (.text "") "spec.colour"]
      (widgetKind (.text "") "spec.colour") := ⟨[_], [], rfl, hsame, nofun⟩
  have hmay := (hadmits _ hlast).mpr fun h => absurd h.1 nofun
  refine ⟨r, hr, (hmay _).mpr (.inr ⟨_, rfl, by simp⟩),
    (hrefuses _).mpr ⟨_, List.mem_singleton_self _, ?_⟩⟩
  rw [hmay]
  rintro (hcommon | ⟨xs, hxs, hfield⟩)
  · exact absurd hcommon (by decide)
  · cases hxs
    simp at hfield

end FleetLabels
