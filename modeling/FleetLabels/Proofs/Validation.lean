import FleetLabels.Proofs.Ownership
import FleetLabels.Proofs.Reading

/-!
    The manifests that describe a classifier.

    On manifests of the right shape, reading a classifier decides whether the manifest is sound
    (`Classifier.ofManifest_decides`): the decision about a part is the one its own reading makes, and
    the parts are put together as the readings are.

    The version that a requirement states is turned to text before it is looked at, so that what is
    shown as a text that is not empty counts as stated. A version that is null or an empty collection
    is shown as such a text: this is the one place where less is decided than should be. -/

namespace FleetLabels

/-! ### Values that are shown as nothing -/

namespace Decimal

theorem layout_ne_nil {ds : List Char} (h : ds ≠ []) (k : Int) : layout ds k ≠ [] := by
  unfold layout
  split
  · cases ds with
    | nil => exact absurd rfl h
    | cons d rest => cases rest <;> simp
  · split <;> simp

theorem Double.text_ne_empty (x : Double) : x.text ≠ "" := by
  have hdigits : (shortest x).1 ≠ [] := Nat.toDigits_ne_nil
  have hlayout := layout_ne_nil hdigits (shortest x).2
  unfold Double.text
  dsimp only
  split
  · split <;> simp [String.append_eq_empty_iff]
  · split <;> simp [String.append_eq_empty_iff, hlayout]

end Decimal

theorem toString_int_ne_empty (n : Int) : toString n ≠ "" := by
  cases n with
  | ofNat m =>
    intro hm
    rw [show toString (Int.ofNat m) = toString m from rfl, Nat.toString_eq_ofList_toDigits] at hm
    exact Nat.toDigits_ne_nil (String.ofList_eq_empty_iff.mp hm)
  | negSucc m =>
    intro hm
    rw [show toString (Int.negSucc m) = "-" ++ toString (m + 1) from rfl] at hm
    exact absurd (String.append_eq_empty_iff.mp hm).1 (by decide)

/-- Only the empty text is shown as nothing. -/
theorem Datum.plain_eq_empty_iff {d : Datum} : d.plain = "" ↔ d = .text "" := by
  cases d with
  | list items => simp [Datum.plain, Datum.quoted, String.append_eq_empty_iff]
  | mapping entries => simp [Datum.plain, Datum.quoted, String.append_eq_empty_iff]
  | scalar s =>
    cases s with
    | null => simp [Datum.plain, Scalar.plain, Scalar.quoted]
    | bool b => cases b <;> simp [Datum.plain, Scalar.plain, Scalar.quoted]
    | int n => exact iff_of_false (toString_int_ne_empty n) (by simp)
    | float x => simp [Datum.plain, Scalar.plain, Scalar.quoted, Decimal.Double.text_ne_empty]
    | text t => simp [Datum.plain, Scalar.plain]
    | date t => simp [Datum.plain, Scalar.plain, Calendar.Date.text, String.append_eq_empty_iff]
    | stamp t => simp [Datum.plain, Scalar.plain, Calendar.Stamp.isoText, String.append_eq_empty_iff]

/-! ### Labels and filters -/

open Reading (Decides)

/-- A label has a key that is not empty. -/
def Label.Sound (d : Datum) : Prop := (d.valueAt "key").IsName

def Label.Shaped (d : Datum) : Prop := (d.valueAt "key").IsTextual

theorem Label.ofManifest_decides {d : Datum} (hd : d.IsMapping) (h : Label.Shaped d) :
    (Label.ofManifest d).Decides (Label.Sound d) :=
  Manifest.member_bind hd ((Manifest.required_decides _ h).bind_free fun _ _ =>
    Manifest.member_bind hd (.done _))

/-- The key of a label is the one that its manifest has. -/
theorem Label.key_of_ofManifest {d : Datum} {l : Label} (h : Label.ofManifest d = .ok l) :
    d.valueAt "key" = .text l.key := by
  obtain ⟨v, hv, h⟩ := Attempt.of_bind_eq_ok h
  obtain ⟨key, hkey, h⟩ := Attempt.of_bind_eq_ok h
  obtain ⟨_, -, h⟩ := Attempt.of_bind_eq_ok h
  cases h
  rw [← Manifest.member_eq_ok hv]
  exact (Manifest.required_eq_ok hkey).2

namespace Operation

/-- How both kinds of filter are read: what is looked at stands at `key`. -/
def reading {α : Type} (rule : Invalid) (key : String) (build : String → Operation → String → α)
    (d : Datum) : Reading α := do
  let name ← Manifest.required rule (← Manifest.member key d)
  let operation ← Operation.ofDatum (← Manifest.memberOr (.text "") "operation" d)
  return build name operation (Manifest.valueText (← Manifest.member "value" d))

/-- A filter names what it looks at, and one of the operations. -/
def Sound (key : String) (d : Datum) : Prop :=
  (d.valueAt key).IsName ∧ ∃ o : Operation, d.valueAt "operation" = .text o.name

def Shaped (key : String) (d : Datum) : Prop := (d.valueAt key).IsTextual

variable {α : Type} {rule : Invalid} {key : String} {build : String → Operation → String → α}
  {d : Datum}

theorem ofDatum_decides : (ofDatum ((d.get? "operation").getD (.text ""))).Decides
    (∃ o : Operation, d.valueAt "operation" = .text o.name) :=
  (Manifest.choice_decides _ _ _).congr
    (Manifest.exists_choice_iff (by rintro (_ | _) <;> simp) (by rintro (_ | _) <;> decide))

theorem reading_decides (hd : d.IsMapping) (h : Shaped key d) :
    (reading rule key build d).Decides (Sound key d) :=
  Manifest.member_bind hd ((Manifest.required_decides _ h).bind fun _ _ =>
    Manifest.memberOr_bind hd (ofDatum_decides.bind_free fun _ _ =>
      Manifest.member_bind hd (.done _)))

/-- What a filter that was read looks at has a name. -/
theorem reading_eq_ok {a : α} (h : reading rule key build d = .ok a) :
    ∃ name o value, name ≠ "" ∧ a = build name o value := by
  obtain ⟨_, -, h⟩ := Attempt.of_bind_eq_ok h
  obtain ⟨name, hname, h⟩ := Attempt.of_bind_eq_ok h
  obtain ⟨_, -, h⟩ := Attempt.of_bind_eq_ok h
  obtain ⟨o, -, h⟩ := Attempt.of_bind_eq_ok h
  obtain ⟨value, -, h⟩ := Attempt.of_bind_eq_ok h
  cases h
  exact ⟨name, o, _, (Manifest.required_eq_ok hname).1, rfl⟩

end Operation

theorem LabelFilter.ofManifest_eq :
    ofManifest = Operation.reading .filterKey "key" LabelFilter.mk := rfl

theorem FieldFilter.ofManifest_eq :
    ofManifest = Operation.reading .filterField "field" FieldFilter.mk := rfl

/-! ### Constraints -/

namespace Constraint

/-- A constraint has a kind and a version, sound filters, and counts of which the maximum is at least
    the minimum when both are given. -/
structure Sound (d : Datum) : Prop where
  kind : (d.valueAt "kind").IsName
  version : (d.valueAt "version").IsName
  labelFilters : ∀ f ∈ (d.valueAt "labelFilters").elements, Operation.Sound "key" f
  fieldFilters : ∀ f ∈ (d.valueAt "fieldFilters").elements, Operation.Sound "field" f
  minCount : Manifest.IsCount (d.valueAt "minCount")
  maxCount : Manifest.IsCount (d.valueAt "maxCount")
  ordered : ∀ m n : Nat, d.valueAt "minCount" = .int m → d.valueAt "maxCount" = .int n → m ≤ n

structure Shaped (d : Datum) : Prop where
  group : (d.valueAt "group").IsTextual
  version : (d.valueAt "version").IsTextual
  kind : (d.valueAt "kind").IsTextual
  space : (d.valueAt "namespace").IsTextual
  labelFilters : (d.valueAt "labelFilters").IsListOf (Operation.Shaped "key")
  fieldFilters : (d.valueAt "fieldFilters").IsListOf (Operation.Shaped "field")
  script : (d.valueAt "script").IsTextual

namespace Fields

variable {f : Fields}

theorem ofManifest_eq {d : Datum} (h : d.IsMapping) :
    ofManifest d = .ok ⟨d.valueAt "group", d.valueAt "version", d.valueAt "kind",
      d.valueAt "namespace", d.valueAt "labelFilters", d.valueAt "fieldFilters",
      d.valueAt "minCount", d.valueAt "maxCount", d.valueAt "script"⟩ := by
  obtain ⟨entries, rfl⟩ := h
  rfl

theorem labels_decide (h : f.labelFilters.IsListOf (Operation.Shaped "key")) :
    f.labels.Decides (∀ x ∈ f.labelFilters.elements, Operation.Sound "key" x) := by
  rw [labels, LabelFilter.ofManifest_eq]
  exact Manifest.items_decide (fun _ => Operation.reading_decides) h

theorem fields_decide (h : f.fieldFilters.IsListOf (Operation.Shaped "field")) :
    f.fields.Decides (∀ x ∈ f.fieldFilters.elements, Operation.Sound "field" x) := by
  rw [fields, FieldFilter.ofManifest_eq]
  exact Manifest.items_decide (fun _ => Operation.reading_decides) h

theorem scope_decides (hgroup : f.group.IsTextual) (hversion : f.version.IsTextual)
    (hkind : f.kind.IsTextual) (hspace : f.space.IsTextual) :
    f.scope.Decides (f.kind.IsName ∧ f.version.IsName) :=
  (Manifest.required_decides _ hkind).bind fun _ _ =>
    (Manifest.required_decides _ hversion).bind_free fun _ _ =>
      (Manifest.optional_decides hgroup).bind_free fun _ _ =>
        (Manifest.optional_decides hspace).bind_free fun _ _ => .done _

theorem bounds_decides :
    f.bounds.Decides (Manifest.IsCount f.minCount ∧ Manifest.IsCount f.maxCount ∧
      ∀ m n : Nat, f.minCount = .int m → f.maxCount = .int n → m ≤ n) := by
  refine (Manifest.count?_decides _ _).bind fun low hlow =>
    (Manifest.count?_decides _ _).bind fun high hhigh => ?_
  rw [Manifest.count?_eq_ok hlow, Manifest.count?_eq_ok hhigh]
  cases low with
  | none => exact .ok _ (by simp)
  | some m =>
    cases high with
    | none => exact .ok _ (by simp)
    | some n =>
      dsimp only
      by_cases hlt : n < m
      · rw [if_pos hlt]
        exact .invalid _ fun h => absurd (h m n rfl rfl) (by omega)
      · rw [if_neg hlt]
        refine .ok _ ?_
        intro a b ha hb
        cases ha
        cases hb
        omega

end Fields

theorem ofManifest_decides {d : Datum} (hd : d.IsMapping) (h : Shaped d) :
    (ofManifest d).Decides (Sound d) := by
  unfold ofManifest
  rw [Fields.ofManifest_eq hd]
  refine ((Fields.labels_decide h.labelFilters).bind
    fun _ _ => (Fields.fields_decide h.fieldFilters).bind
    fun _ _ => (Fields.scope_decides h.group h.version h.kind h.space).bind
    fun _ _ => (Manifest.optional_decides h.script).bind
    fun _ _ => Fields.bounds_decides.bind_free fun _ _ => .done _).congr ?_
  constructor
  · rintro ⟨hlabels, hfields, ⟨hkind, hversion⟩, -, hmin, hmax, hordered⟩
    exact ⟨hkind, hversion, hlabels, hfields, hmin, hmax, hordered⟩
  · intro hsound
    exact ⟨hsound.labelFilters, hsound.fieldFilters, ⟨hsound.kind, hsound.version⟩, trivial,
      hsound.minCount, hsound.maxCount, hsound.ordered⟩

end Constraint

/-! ### Requirements -/

namespace Requirement

/-- A version is stated: it is there and it is neither null nor empty. -/
def Stated (version : Option Datum) : Prop :=
  ∃ v, version = some v ∧ v ≠ .null ∧ v ≠ .text "" ∧ v ≠ .list [] ∧ v ≠ .mapping []

/-- A version is shown as a text that is not empty. -/
def Shown (version : Option Datum) : Prop := ∃ v, version = some v ∧ v ≠ .text ""

/-- A version says nothing and is shown as a text that is not empty all the same. -/
def Hollow (version : Option Datum) : Prop :=
  version = some .null ∨ version = some (.list []) ∨ version = some (.mapping [])

theorem stated_iff {version : Option Datum} : Stated version ↔ Shown version ∧ ¬ Hollow version := by
  cases version with
  | none => simp [Stated, Shown]
  | some v =>
    simp only [Stated, Shown, Hollow, Option.some.injEq, exists_eq_left', not_or]
    tauto

/-- A requirement has a version, in the given sense, and one of the comparisons. -/
def Sound (stated : Option Datum → Prop) (d : Datum) : Prop :=
  stated (d.get? "version") ∧ ∃ c : Comparison, d.valueAt "comparison" = .text c.name

/-- The version that is compared with: what stands there, turned to text. -/
def versionText (d : Datum) : String := ((d.get? "version").map Datum.plain).getD ""

theorem versionText_ne_empty_iff {d : Datum} : versionText d ≠ "" ↔ Shown (d.get? "version") := by
  rw [versionText, Shown]
  cases d.get? "version" with
  | none => simp
  | some v => simp [Datum.plain_eq_empty_iff]

theorem ofManifest_eq {d : Datum} (hd : d.IsMapping) :
    ofManifest d = (do
      return ⟨versionText d, ← comparisonOf (.text (versionText d))
        ((d.get? "comparison").getD (.text ""))⟩) := by
  rw [ofManifest, Manifest.member?_eq hd, Manifest.memberOr_eq hd, versionText]
  cases d.get? "version" <;> rfl

/-- A requirement has the text of the version that its manifest states, which is not empty. -/
theorem version_of_ofManifest {d : Datum} {q : Requirement} (h : ofManifest d = .ok q) :
    versionText d = q.version ∧ q.version ≠ "" := by
  have hd : d.IsMapping := by
    obtain ⟨_, hmember, -⟩ := Attempt.of_bind_eq_ok h
    exact Manifest.isMapping_of_member? hmember
  rw [ofManifest_eq hd] at h
  obtain ⟨_, hcomparison, h⟩ := Attempt.of_bind_eq_ok h
  cases h
  refine ⟨rfl, fun hempty => ?_⟩
  dsimp only at hempty
  rw [hempty] at hcomparison
  cases hcomparison

theorem comparisonOf_decides (version : String) {d : Datum} :
    (comparisonOf (.text version) ((d.get? "comparison").getD (.text ""))).Decides
      (version ≠ "" ∧ ∃ c : Comparison, d.valueAt "comparison" = .text c.name) := by
  unfold comparisonOf
  by_cases hversion : version = ""
  · rw [if_neg (by simp [hversion, Datum.isGiven, Scalar.isGiven])]
    exact .invalid _ fun h => h.1 hversion
  · rw [if_pos (by simp [hversion, Datum.isGiven, Scalar.isGiven])]
    refine (Manifest.choice_decides _ _ _).congr ?_
    rw [and_iff_right hversion]
    exact Manifest.exists_choice_iff (by rintro (_ | _) <;> simp) (by rintro (_ | _) <;> decide)

theorem ofManifest_decides {d : Datum} (hd : d.IsMapping) : (ofManifest d).Decides (Sound Shown d) := by
  rw [ofManifest_eq hd, Sound, ← versionText_ne_empty_iff]
  exact (comparisonOf_decides _).bind_free fun _ _ => .done _

end Requirement

/-! ### Classifiers -/

namespace Classifier

theorem firstRepeated?_eq_none {seen xs : List String} (hnodup : xs.Nodup)
    (hseen : ∀ x ∈ xs, x ∉ seen) : firstRepeated? seen xs = none := by
  induction xs generalizing seen with
  | nil => rfl
  | cons x rest ih =>
    obtain ⟨hx, hrest⟩ := List.nodup_cons.mp hnodup
    rw [firstRepeated?, if_neg (hseen x List.mem_cons_self)]
    refine ih hrest fun y hy => ?_
    rw [List.mem_cons, not_or]
    exact ⟨fun heq => hx (heq ▸ hy), hseen y (List.mem_cons_of_mem x hy)⟩

/-- A classifier is what its metadata and its spec read as. -/
structure ReadFrom (metadata spec : Datum) (c : Classifier) : Prop where
  name : Manifest.required .classifierName (metadata.valueAt "name") = .ok c.name
  labels : Manifest.each Label.ofManifest "classifierLabels" spec = .ok c.labels
  constraints :
    Manifest.each Constraint.ofManifest "deployedResourceConstraints" spec = .ok c.constraints
  requirements :
    Manifest.each Requirement.ofManifest "kubernetesVersionConstraints" spec = .ok c.requirements
  created : Manifest.timestamp? (metadata.valueAt "creationTimestamp") = .ok c.created
  deleted : Manifest.timestamp? (metadata.valueAt "deletionTimestamp") = .ok c.deleted

theorem readFrom_of_ofManifest {d : Datum} {c : Classifier} (h : ofManifest d = .ok c) :
    ∃ metadata spec, Manifest.part "metadata" d = .ok metadata ∧
      Manifest.part "spec" d = .ok spec ∧ c.ReadFrom metadata spec := by
  obtain ⟨metadata, hmetadata, h⟩ := Attempt.of_bind_eq_ok h
  obtain ⟨spec, hspec, h⟩ := Attempt.of_bind_eq_ok h
  obtain ⟨nameValue, hnameValue, h⟩ := Attempt.of_bind_eq_ok h
  obtain ⟨labels, hlabels, h⟩ := Attempt.of_bind_eq_ok h
  obtain ⟨constraints, hconstraints, h⟩ := Attempt.of_bind_eq_ok h
  obtain ⟨requirements, hrequirements, h⟩ := Attempt.of_bind_eq_ok h
  obtain ⟨name, hname, h⟩ := Attempt.of_bind_eq_ok h
  obtain ⟨createdValue, hcreatedValue, h⟩ := Attempt.of_bind_eq_ok h
  obtain ⟨deletedValue, hdeletedValue, h⟩ := Attempt.of_bind_eq_ok h
  obtain ⟨created, hcreated, h⟩ := Attempt.of_bind_eq_ok h
  obtain ⟨deleted, hdeleted, h⟩ := Attempt.of_bind_eq_ok h
  rw [Manifest.member_eq_ok hnameValue] at hname
  rw [Manifest.member_eq_ok hcreatedValue] at hcreated
  rw [Manifest.member_eq_ok hdeletedValue] at hdeleted
  refine ⟨metadata, spec, hmetadata, hspec, ?_⟩
  split at h
  · cases h
  · cases h
    exact ⟨hname, hlabels, hconstraints, hrequirements, hcreated, hdeleted⟩

/-- The keys that were read are the ones that stand in the manifest. -/
theorem keys_of_mapM {xs : List Datum} {labels : List Label}
    (h : xs.mapM Label.ofManifest = .ok labels) :
    xs.map (Datum.valueAt "key") = (labels.map Label.key).map Datum.text := by
  rw [List.map_map]
  exact Attempt.map_eq_map_of_mapM h fun _ _ => Label.key_of_ofManifest

/-- With labels that were read, putting a classifier together decides about its times and its keys. -/
theorem assemble_decides {xs : List Datum} {labels : List Label}
    (hlabels : xs.mapM Label.ofManifest = .ok labels) (name : String) (constraints : List Constraint)
    (requirements : List Requirement) (created deleted : Datum) :
    (assemble name labels constraints requirements created deleted).Decides
      (Manifest.IsTime created ∧ Manifest.IsTime deleted ∧
        (xs.map (Datum.valueAt "key")).Nodup) := by
  have hkeys : (xs.map (Datum.valueAt "key")).Nodup ↔ (labels.map Label.key).Nodup := by
    rw [keys_of_mapM hlabels]
    exact List.nodup_map_iff fun a b h => by cases h; rfl
  rw [hkeys]
  refine (Manifest.timestamp?_decides _).bind fun _ _ =>
    (Manifest.timestamp?_decides _).bind fun _ _ => ?_
  split
  · rename_i key hrepeated
    refine .invalid _ fun hnodup => ?_
    rw [firstRepeated?_eq_none hnodup fun _ _ => List.not_mem_nil] at hrepeated
    cases hrepeated
  · rename_i hrepeated
    exact .ok _ (nodup_of_firstRepeated? hrepeated).1

/-- The labels that a manifest lists. -/
def labelsOf (d : Datum) : List Datum := ((d.valueAt "spec").valueAt "classifierLabels").elements

def constraintsOf (d : Datum) : List Datum :=
  ((d.valueAt "spec").valueAt "deployedResourceConstraints").elements

def requirementsOf (d : Datum) : List Datum :=
  ((d.valueAt "spec").valueAt "kubernetesVersionConstraints").elements

/-- A manifest describes a classifier: it has a name, its labels, constraints and requirements are
    sound, no two labels have one key, and its times are times. -/
structure Sound (stated : Option Datum → Prop) (d : Datum) : Prop where
  name : ((d.valueAt "metadata").valueAt "name").IsName
  labels : ∀ l ∈ labelsOf d, Label.Sound l
  distinct : ((labelsOf d).map (Datum.valueAt "key")).Nodup
  constraints : ∀ c ∈ constraintsOf d, Constraint.Sound c
  requirements : ∀ q ∈ requirementsOf d, Requirement.Sound stated q
  created : Manifest.IsTime ((d.valueAt "metadata").valueAt "creationTimestamp")
  deleted : Manifest.IsTime ((d.valueAt "metadata").valueAt "deletionTimestamp")

/-- Mappings, lists and texts stand where they are expected. -/
structure Shaped (d : Datum) : Prop where
  mapping : d.IsMapping
  metadata : (d.valueAt "metadata").IsSection
  spec : (d.valueAt "spec").IsSection
  name : ((d.valueAt "metadata").valueAt "name").IsTextual
  labels : ((d.valueAt "spec").valueAt "classifierLabels").IsListOf Label.Shaped
  constraints : ((d.valueAt "spec").valueAt "deployedResourceConstraints").IsListOf Constraint.Shaped
  requirements :
    ((d.valueAt "spec").valueAt "kubernetesVersionConstraints").IsListOf fun _ => True

variable {d : Datum}

/-- Reading a classifier decides whether its manifest is sound, where a version only has to be shown
    as something. -/
theorem ofManifest_decides (h : Shaped d) :
    (ofManifest d).Decides (Sound Requirement.Shown d) := by
  obtain ⟨metadata, hmetadata, hdata, hdataValue⟩ := Manifest.part_eq h.mapping h.metadata
  obtain ⟨spec, hspec, hspecified, hspecValue⟩ := Manifest.part_eq h.mapping h.spec
  have hname := h.name
  have hlabels := h.labels
  have hconstraints := h.constraints
  have hrequirements := h.requirements
  rw [← hdataValue] at hname
  rw [← hspecValue] at hlabels hconstraints hrequirements
  have hassemble : ∀ name labels constraints requirements,
      Manifest.each Label.ofManifest "classifierLabels" spec = .ok labels →
      Decides (do
        let created ← Manifest.member "creationTimestamp" metadata
        let deleted ← Manifest.member "deletionTimestamp" metadata
        assemble name labels constraints requirements created deleted)
      (Manifest.IsTime (metadata.valueAt "creationTimestamp") ∧
        Manifest.IsTime (metadata.valueAt "deletionTimestamp") ∧
        ((spec.valueAt "classifierLabels").elements.map (Datum.valueAt "key")).Nodup) := by
    intro name labels constraints requirements hread
    rw [Manifest.each_eq hspecified hlabels] at hread
    exact Manifest.member_bind hdata (Manifest.member_bind hdata (assemble_decides hread _ _ _ _ _))
  unfold ofManifest
  rw [hmetadata, hspec]
  refine (Manifest.member_bind hdata <|
    (Manifest.each_decides (fun _ => Label.ofManifest_decides) hspecified hlabels).bind
    fun _ hread => (Manifest.each_decides (fun _ => Constraint.ofManifest_decides) hspecified
      hconstraints).bind
    fun _ _ => (Manifest.each_decides (fun _ hd _ => Requirement.ofManifest_decides hd) hspecified
      hrequirements).bind
    fun _ _ => (Manifest.required_decides _ hname).bind
    fun _ _ => hassemble _ _ _ _ hread).congr ?_
  simp only [hdataValue, hspecValue]
  constructor
  · rintro ⟨hlabels, hconstraints, hrequirements, hname, hcreated, hdeleted, hdistinct⟩
    exact ⟨hname, hlabels, hdistinct, hconstraints, hrequirements, hcreated, hdeleted⟩
  · intro hsound
    exact ⟨hsound.labels, hsound.constraints, hsound.requirements, hsound.name, hsound.created,
      hsound.deleted, hsound.distinct⟩

/-- With stated versions, a manifest is sound where no version is hollow. -/
theorem sound_stated_iff : Sound Requirement.Stated d ↔
    Sound Requirement.Shown d ∧ ∀ q ∈ requirementsOf d, ¬ Requirement.Hollow (q.get? "version") := by
  constructor
  · intro h
    refine ⟨{ h with requirements := fun q hq => ?_ }, fun q hq => ?_⟩
    · exact ⟨(Requirement.stated_iff.mp (h.requirements q hq).1).1, (h.requirements q hq).2⟩
    · exact (Requirement.stated_iff.mp (h.requirements q hq).1).2
  · rintro ⟨h, hollow⟩
    refine { h with requirements := fun q hq => ?_ }
    exact ⟨Requirement.stated_iff.mpr ⟨(h.requirements q hq).1, hollow q hq⟩, (h.requirements q hq).2⟩

/-- The versions that clusters are compared with are the listed ones, each turned to text. -/
theorem versions_of_ofManifest {c : Classifier} (h : Shaped d) (hc : ofManifest d = .ok c) :
    c.requirements.map Requirement.version = (requirementsOf d).map Requirement.versionText := by
  obtain ⟨spec, hspec, hspecified, hspecValue⟩ := Manifest.part_eq h.mapping h.spec
  have hrequirements := h.requirements
  rw [← hspecValue] at hrequirements
  obtain ⟨_, other, -, hother, hread⟩ := readFrom_of_ofManifest hc
  obtain rfl : spec = other := by
    rw [hspec] at hother
    cases hother
    rfl
  have heach := hread.requirements
  rw [Manifest.each_eq hspecified hrequirements, hspecValue] at heach
  exact (Attempt.map_eq_map_of_mapM heach fun _ _ hq => (Requirement.version_of_ofManifest hq).1).symm

/-- Reading a classifier from a manifest of the right shape succeeds exactly on the sound ones, and
    finds a broken rule in every other, as long as no version of an otherwise sound manifest is
    hollow: such a manifest is taken, and clusters are compared with the text of what stands there. -/
theorem ofManifest_ok_iff_sound_unless_hollow (h : Shaped d) :
    (((∃ c, ofManifest d = .ok c) ↔ Sound Requirement.Stated d) ↔
      ¬ (Sound Requirement.Shown d ∧
        ∃ q ∈ requirementsOf d, Requirement.Hollow (q.get? "version"))) ∧
    ((∃ c, ofManifest d = .ok c) ↔ Sound Requirement.Shown d) ∧
    ((¬ ∃ c, ofManifest d = .ok c) → ∃ rule, ofManifest d = .error (.invalid rule)) ∧
    ∀ c, ofManifest d = .ok c →
      c.requirements.map Requirement.version = (requirementsOf d).map Requirement.versionText := by
  have hdecides := ofManifest_decides h
  refine ⟨?_, hdecides.ok_iff, fun hno => hdecides.exists_rule (mt hdecides.ok_iff.mpr hno),
    fun c => versions_of_ofManifest h⟩
  rw [hdecides.ok_iff, sound_stated_iff]
  simp only [not_and, not_exists]
  tauto

end Classifier

/-- A classifier that asks for a version of the platform and for two or three web servers. -/
def Sample.webManifest (version : Datum) : Datum :=
  .mapping [
    (.text "metadata", .mapping [(.text "name", .text "web"),
      (.text "creationTimestamp", .text "2024-02-29T12:30:00.5+02:00")]),
    (.text "spec", .mapping [
      (.text "classifierLabels",
        .list [.mapping [(.text "key", .text "tier"), (.text "value", .text "web")]]),
      (.text "deployedResourceConstraints", .list [.mapping [(.text "group", .text "apps"),
        (.text "version", .text "v1"), (.text "kind", .text "Deployment"),
        (.text "labelFilters", .list [.mapping [(.text "key", .text "app"),
          (.text "operation", .text "Equal"), (.text "value", .text "nginx")]]),
        (.text "minCount", .int 2), (.text "maxCount", .int 3)]]),
      (.text "kubernetesVersionConstraints", .list [.mapping [(.text "version", version),
        (.text "comparison", .text "GreaterThan")]])])]

theorem Sample.webManifest_shaped (version : Datum) :
    Classifier.Shaped (Sample.webManifest version) where
  mapping := .mapping _
  metadata := fun _ => .mapping _
  spec := fun _ => .mapping _
  name := .text "web"
  labels := .singleton (.text "tier")
  constraints := .singleton {
    group := .text "apps"
    version := .text "v1"
    kind := .text "Deployment"
    space := .null
    labelFilters := .singleton (.text "app")
    fieldFilters := .null _
    script := .null }
  requirements := .singleton trivial

open Sample in
/-- With a version that is stated the web servers' manifest is taken, and sound. -/
theorem web_taken_with_version :
    Classifier.Shaped (webManifest (.text "v1.27.0")) ∧
      (∃ c, Classifier.ofManifest (webManifest (.text "v1.27.0")) = .ok c) ∧
      Classifier.Sound Requirement.Stated (webManifest (.text "v1.27.0")) := by
  have hshaped := webManifest_shaped (.text "v1.27.0")
  have htaken : ∃ c, Classifier.ofManifest (webManifest (.text "v1.27.0")) = .ok c := ⟨_, rfl⟩
  refine ⟨hshaped, htaken, ?_⟩
  refine ((Classifier.ofManifest_ok_iff_sound_unless_hollow hshaped).1.mpr ?_).mp htaken
  rintro ⟨-, q, hq, hollow⟩
  obtain rfl := List.mem_singleton.mp hq
  rcases hollow with h | h | h <;> cases h

open Sample in
/-- With a version that is null the manifest is taken too, although it states none: the version that
    clusters are compared with is the text of null, and the requirement itself would be refused. -/
theorem web_taken_with_null_version :
    Classifier.Shaped (webManifest .null) ∧
      ((Classifier.ofManifest (webManifest .null)).toOption.map fun c =>
        c.requirements.map Requirement.version) = some ["None"] ∧
      ¬ Classifier.Sound Requirement.Stated (webManifest .null) ∧
      Requirement.comparisonOf .null (.text "GreaterThan") =
        .error (.invalid .requirementVersion) := by
  refine ⟨webManifest_shaped .null, rfl, fun h => ?_, rfl⟩
  obtain ⟨⟨v, hv, hnull, -⟩, -⟩ := h.requirements _ List.mem_cons_self
  cases hv
  exact hnull rfl

end FleetLabels
