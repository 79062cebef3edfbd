import FleetLabels.Proofs.Timestamp
import FleetLabels.Proofs.Validation

/-!
    Manifests that are written and read again.

    What a manifest was accepted for, the classifier keeps: names and keys that have to be there are
    not empty, keys are pairwise different, and bounds are in order (`Classifier.WellFormed`). A
    classifier that keeps this is written in a form that is accepted again, part by part, and every part
    reads as what was written. Only times lose something: their text is in UTC and in whole seconds. -/

namespace FleetLabels

/-! ### What is kept -/

/-- The bounds of a constraint are in order and what it has to name is named. -/
structure Constraint.WellFormed (c : Constraint) : Prop where
  kind : c.scope.kind ≠ ""
  version : c.scope.version ≠ ""
  labelFilters : ∀ f ∈ c.labelFilters, f.key ≠ ""
  fieldFilters : ∀ f ∈ c.fieldFilters, f.field ≠ ""
  ordered : ∀ m n, c.minCount = some m → c.maxCount = some n → m ≤ n

structure Classifier.WellFormed (c : Classifier) : Prop where
  name : c.name ≠ ""
  labels : ∀ l ∈ c.labels, l.key ≠ ""
  constraints : ∀ d ∈ c.constraints, d.WellFormed
  requirements : ∀ q ∈ c.requirements, q.version ≠ ""

variable {d : Datum}

theorem Label.key_ne_empty {l : Label} (h : Label.ofManifest d = .ok l) : l.key ≠ "" := by
  obtain ⟨_, -, h⟩ := Attempt.of_bind_eq_ok h
  obtain ⟨key, hkey, h⟩ := Attempt.of_bind_eq_ok h
  obtain ⟨_, -, h⟩ := Attempt.of_bind_eq_ok h
  cases h
  exact (Manifest.required_eq_ok hkey).1

theorem LabelFilter.key_ne_empty {f : LabelFilter} (h : LabelFilter.ofManifest d = .ok f) :
    f.key ≠ "" := by
  rw [LabelFilter.ofManifest_eq] at h
  obtain ⟨key, _, _, hkey, rfl⟩ := Operation.reading_eq_ok h
  exact hkey

theorem FieldFilter.field_ne_empty {f : FieldFilter} (h : FieldFilter.ofManifest d = .ok f) :
    f.field ≠ "" := by
  rw [FieldFilter.ofManifest_eq] at h
  obtain ⟨field, _, _, hfield, rfl⟩ := Operation.reading_eq_ok h
  exact hfield

/-- Each item of a list that was read was read. -/
theorem Manifest.exists_of_items {α : Type} {read : Datum → Reading α} {xs : List α}
    (h : (do (← items d).mapM read) = .ok xs) : ∀ x ∈ xs, ∃ item, read item = .ok x := by
  intro x hx
  obtain ⟨_, -, h⟩ := Attempt.of_bind_eq_ok h
  obtain ⟨item, -, hitem⟩ := Attempt.exists_of_mapM h hx
  exact ⟨item, hitem⟩

theorem Manifest.exists_of_each {α : Type} {read : Datum → Reading α} {key : String} {xs : List α}
    (h : each read key d = .ok xs) : ∀ x ∈ xs, ∃ item, read item = .ok x := by
  obtain ⟨_, -, h⟩ := Attempt.of_bind_eq_ok h
  exact exists_of_items h

namespace Constraint

theorem Fields.scope_eq_ok {f : Fields} {s : Scope} (h : f.scope = .ok s) :
    s.kind ≠ "" ∧ s.version ≠ "" := by
  obtain ⟨kind, hkind, h⟩ := Attempt.of_bind_eq_ok h
  obtain ⟨version, hversion, h⟩ := Attempt.of_bind_eq_ok h
  obtain ⟨_, -, h⟩ := Attempt.of_bind_eq_ok h
  obtain ⟨_, -, h⟩ := Attempt.of_bind_eq_ok h
  cases h
  exact ⟨(Manifest.required_eq_ok hkind).1, (Manifest.required_eq_ok hversion).1⟩

theorem Fields.bounds_eq_ok {f : Fields} {low high : Option Nat} (h : f.bounds = .ok (low, high)) :
    ∀ m n, low = some m → high = some n → m ≤ n := by
  obtain ⟨a, -, h⟩ := Attempt.of_bind_eq_ok h
  obtain ⟨b, -, h⟩ := Attempt.of_bind_eq_ok h
  rintro m n rfl rfl
  split at h
  · split at h
    · cases h
    · cases h
      omega
  · rename_i hnone
    cases h
    exact absurd rfl (hnone m n rfl)

theorem wellFormed_of_ofManifest {c : Constraint} (h : ofManifest d = .ok c) : c.WellFormed := by
  obtain ⟨f, -, h⟩ := Attempt.of_bind_eq_ok h
  obtain ⟨labels, hlabels, h⟩ := Attempt.of_bind_eq_ok h
  obtain ⟨fields, hfields, h⟩ := Attempt.of_bind_eq_ok h
  obtain ⟨scope, hscope, h⟩ := Attempt.of_bind_eq_ok h
  obtain ⟨_, -, h⟩ := Attempt.of_bind_eq_ok h
  obtain ⟨⟨low, high⟩, hbounds, h⟩ := Attempt.of_bind_eq_ok h
  cases h
  obtain ⟨hkind, hversion⟩ := Fields.scope_eq_ok hscope
  refine ⟨hkind, hversion, ?_, ?_, Fields.bounds_eq_ok hbounds⟩
  · intro x hx
    obtain ⟨_, hread⟩ := Manifest.exists_of_items hlabels x hx
    exact LabelFilter.key_ne_empty hread
  · intro x hx
    obtain ⟨_, hread⟩ := Manifest.exists_of_items hfields x hx
    exact FieldFilter.field_ne_empty hread

end Constraint

theorem Classifier.wellFormed_of_ofManifest {c : Classifier} (h : ofManifest d = .ok c) :
    c.WellFormed := by
  obtain ⟨metadata, spec, -, -, hread⟩ := readFrom_of_ofManifest h
  refine ⟨(Manifest.required_eq_ok hread.name).1, ?_, ?_, ?_⟩
  · intro l hl
    obtain ⟨_, hlabel⟩ := Manifest.exists_of_each hread.labels l hl
    exact Label.key_ne_empty hlabel
  · intro k hk
    obtain ⟨_, hconstraint⟩ := Manifest.exists_of_each hread.constraints k hk
    exact Constraint.wellFormed_of_ofManifest hconstraint
  · intro q hq
    obtain ⟨_, hrequirement⟩ := Manifest.exists_of_each hread.requirements q hq
    exact (Requirement.version_of_ofManifest hrequirement).2

/-! ### What is written -/

namespace Json

theorem itemsToData_eq (xs : List Json) : itemsToData xs = xs.map toDatum := by
  induction xs with
  | nil => rfl
  | cons x rest ih => rw [itemsToData, ih, List.map_cons]

/-- A list is written item by item. -/
theorem toDatum_list {α : Type} (toJson : α → Json) (xs : List α) :
    (Json.list (xs.map toJson)).toDatum = .list (xs.map fun x => (toJson x).toDatum) := by
  rw [toDatum, itemsToData_eq, List.map_map]
  rfl

end Json

namespace Manifest

theorem required_text (rule : Invalid) {s : String} (h : s ≠ "") : required rule (.text s) = .ok s := by
  rw [required, if_pos (by simpa [Datum.isGiven, Scalar.isGiven] using h)]

theorem optional_text (s : String) : optional (.text s) = .ok s := by
  unfold optional
  split
  · rfl
  · rename_i h
    obtain rfl : s = "" := by simpa [Datum.isGiven, Scalar.isGiven] using h
    rfl

theorem items_list (xs : List Datum) : items (.list xs) = .ok xs := by
  cases xs <;> rfl

/-- A list of which every item is read back is read back. -/
theorem items_written {α : Type} {read : Datum → Reading α} {toJson : α → Json} {xs : List α}
    (h : ∀ x ∈ xs, read (toJson x).toDatum = .ok x) :
    (do (← items (Json.list (xs.map toJson)).toDatum).mapM read) = .ok xs := by
  rw [Json.toDatum_list, items_list]
  exact Attempt.mapM_map_eq_ok h

theorem count?_written (what : String) (b : Option Nat) :
    count? what (b.elim .null fun n => .int n) = .ok b := by
  cases b with
  | none => rfl
  | some n => rw [Option.elim_some, count?, if_neg (by omega), Int.toNat_natCast]

/-- A text that names a moment is a timestamp. -/
theorem timestamp?_of_read? {s : String} {t : Calendar.Moment} (h : Calendar.Moment.read? s = some t) :
    timestamp? (.text s) = .ok (some t) := by
  have hgiven : s.isEmpty = false := by
    rw [← Bool.not_eq_true, String.isEmpty_iff]
    rintro rfl
    cases h
  rw [timestamp?, hgiven, h]
  rfl

end Manifest

theorem Label.ofManifest_toJson {l : Label} (h : l.key ≠ "") :
    ofManifest l.toJson.toDatum = .ok l := by
  have hkey := Manifest.required_text .labelKey h
  change (do
    let key ← Manifest.required .labelKey (.text l.key)
    return Label.mk key l.value) = _
  rw [hkey]
  rfl

theorem Operation.ofDatum_name (o : Operation) : ofDatum (.text o.name) = .ok o := by
  cases o <;> rfl

/-- A filter is read from a mapping that holds what it consists of. -/
theorem Operation.reading_written {α : Type} {rule : Invalid} {key name : String} {value : Datum}
    {build : String → Operation → String → α} {o : Operation} (hd : d.IsMapping) (h : name ≠ "")
    (hname : d.valueAt key = .text name) (ho : d.get? "operation" = some (.text o.name))
    (hvalue : d.valueAt "value" = value) :
    reading rule key build d = .ok (build name o (Manifest.valueText value)) := by
  refine Attempt.bind_eq_ok (Manifest.member_eq hd) ?_
  rw [hname]
  refine Attempt.bind_eq_ok (Manifest.required_text rule h) ?_
  refine Attempt.bind_eq_ok (Manifest.memberOr_eq hd _) ?_
  rw [ho]
  refine Attempt.bind_eq_ok (ofDatum_name o) (Attempt.bind_eq_ok (Manifest.member_eq hd) ?_)
  rw [hvalue]
  rfl

theorem LabelFilter.ofManifest_toJson {f : LabelFilter} (h : f.key ≠ "") :
    ofManifest f.toJson.toDatum = .ok f := by
  rw [ofManifest_eq]
  exact Operation.reading_written (.mapping _) h rfl rfl rfl

theorem FieldFilter.ofManifest_toJson {f : FieldFilter} (h : f.field ≠ "") :
    ofManifest f.toJson.toDatum = .ok f := by
  rw [ofManifest_eq]
  exact Operation.reading_written (.mapping _) h rfl rfl rfl

namespace Constraint

/-- The parts that a constraint is written as; a count that is not set is left out. -/
theorem fields_toJson (c : Constraint) : Fields.ofManifest c.toJson.toDatum =
    .ok ⟨.text c.scope.group, .text c.scope.version, .text c.scope.kind, .text c.scope.space,
      (Json.list (c.labelFilters.map LabelFilter.toJson)).toDatum,
      (Json.list (c.fieldFilters.map FieldFilter.toJson)).toDatum,
      c.minCount.elim .null fun n => .int n, c.maxCount.elim .null fun n => .int n,
      .text c.script⟩ := by
  obtain ⟨scope, labels, fields, low, high, script⟩ := c
  cases low <;> cases high <;> rfl

theorem ofManifest_toJson {c : Constraint} (h : c.WellFormed) :
    ofManifest c.toJson.toDatum = .ok c := by
  have hlabels := Manifest.items_written fun f hf => LabelFilter.ofManifest_toJson (h.labelFilters f hf)
  have hfields := Manifest.items_written fun f hf => FieldFilter.ofManifest_toJson (h.fieldFilters f hf)
  refine Attempt.bind_eq_ok (fields_toJson c) ?_
  refine Attempt.bind_eq_ok hlabels (Attempt.bind_eq_ok hfields ?_)
  refine Attempt.bind_eq_ok (a := c.scope) ?_ ?_
  · exact Attempt.bind_eq_ok (Manifest.required_text _ h.kind)
      (Attempt.bind_eq_ok (Manifest.required_text _ h.version)
        (Attempt.bind_eq_ok (Manifest.optional_text _)
          (Attempt.bind_eq_ok (Manifest.optional_text _) rfl)))
  refine Attempt.bind_eq_ok (Manifest.optional_text c.script) ?_
  refine Attempt.bind_eq_ok (a := (c.minCount, c.maxCount)) ?_ rfl
  refine Attempt.bind_eq_ok (Manifest.count?_written _ _)
    (Attempt.bind_eq_ok (Manifest.count?_written _ _) ?_)
  split
  · rename_i m n hm hn
    rw [if_neg (by have := h.ordered m n hm hn; omega)]
  · rfl

end Constraint

theorem Requirement.ofManifest_toJson {q : Requirement} (h : q.version ≠ "") :
    ofManifest q.toJson.toDatum = .ok q := by
  have hcomparison : comparisonOf (.text q.version) (.text q.comparison.name) = .ok q.comparison := by
    rw [comparisonOf, if_pos (by simpa [Datum.isGiven, Scalar.isGiven] using h)]
    cases q.comparison <;> rfl
  have hmapping : q.toJson.toDatum.IsMapping := .mapping _
  rw [ofManifest_eq hmapping]
  exact Attempt.bind_eq_ok hcomparison rfl

/-! ### Classifiers -/

namespace Classifier

open Calendar

/-- A classifier is read when its metadata and its spec are. -/
theorem ofManifest_of_readFrom {metadata spec : Datum} {c : Classifier}
    (hmetadata : Manifest.part "metadata" d = .ok metadata) (hdata : metadata.IsMapping)
    (hspec : Manifest.part "spec" d = .ok spec) (h : c.ReadFrom metadata spec) :
    ofManifest d = .ok c := by
  refine Attempt.bind_eq_ok hmetadata (Attempt.bind_eq_ok hspec ?_)
  refine Attempt.bind_eq_ok (Manifest.member_eq hdata) (Attempt.bind_eq_ok h.labels ?_)
  refine Attempt.bind_eq_ok h.constraints (Attempt.bind_eq_ok h.requirements ?_)
  refine Attempt.bind_eq_ok h.name (Attempt.bind_eq_ok (Manifest.member_eq hdata) ?_)
  refine Attempt.bind_eq_ok (Manifest.member_eq hdata) (Attempt.bind_eq_ok h.created ?_)
  refine Attempt.bind_eq_ok h.deleted ?_
  split
  · rename_i hrepeated
    rw [firstRepeated?_eq_none c.distinct fun _ _ => List.not_mem_nil] at hrepeated
    cases hrepeated
  · rfl

/-- The classifier with its times in UTC and floored to the second. -/
def floored (c : Classifier) : Classifier :=
  { c with created := c.created.map Moment.floored, deleted := c.deleted.map Moment.floored }

/-- A time of a classifier. -/
def HasTime (c : Classifier) (t : Moment) : Prop := c.created = some t ∨ c.deleted = some t

/-- A time of a four-digit year is read back, floored. -/
theorem timestamp?_written {time : Option Moment} (h : ∀ t, time = some t →
      1000 ≤ (dateOf t.instant).year ∧ (dateOf t.instant).year ≤ 9999) :
    Manifest.timestamp? (time.elim .null fun t => .text t.utcText) =
      .ok (time.map Moment.floored) := by
  cases time with
  | none => rfl
  | some t =>
    obtain ⟨hlow, hhigh⟩ := h t rfl
    exact Manifest.timestamp?_of_read? (Moment.read?_utcText hlow hhigh)

/-- The metadata that a classifier is written with; a time that is not set is left out. -/
theorem part_toJson (c : Classifier) : ∃ metadata, metadata.IsMapping ∧
    Manifest.part "metadata" c.toJson.toDatum = .ok metadata ∧
    metadata.valueAt "name" = .text c.name ∧
    metadata.valueAt "creationTimestamp" = c.created.elim .null (fun t => .text t.utcText) ∧
    metadata.valueAt "deletionTimestamp" = c.deleted.elim .null (fun t => .text t.utcText) := by
  obtain ⟨name, labels, constraints, requirements, created, deleted, distinct⟩ := c
  cases created <;> cases deleted <;> exact ⟨_, .mapping _, rfl, rfl, rfl, rfl⟩

/-- A classifier with times in four-digit years is read back, with its times floored. -/
theorem ofManifest_toJson {c : Classifier} (h : c.WellFormed) (hyears : ∀ t, c.HasTime t →
      1000 ≤ (dateOf t.instant).year ∧ (dateOf t.instant).year ≤ 9999) :
    ofManifest c.toJson.toDatum = .ok c.floored := by
  obtain ⟨metadata, hmapping, hmetadata, hname, hcreated, hdeleted⟩ := part_toJson c
  have hspec : Manifest.part "spec" c.toJson.toDatum = .ok c.specJson.toDatum := rfl
  refine ofManifest_of_readFrom hmetadata hmapping hspec ?_
  constructor
  case name =>
    rw [hname]
    exact Manifest.required_text _ h.name
  case labels => exact Manifest.items_written fun l hl => Label.ofManifest_toJson (h.labels l hl)
  case constraints =>
    exact Manifest.items_written fun k hk => Constraint.ofManifest_toJson (h.constraints k hk)
  case requirements =>
    exact Manifest.items_written fun q hq => Requirement.ofManifest_toJson (h.requirements q hq)
  case created =>
    rw [hcreated]
    exact timestamp?_written fun t ht => hyears t (.inl ht)
  case deleted =>
    rw [hdeleted]
    exact timestamp?_written fun t ht => hyears t (.inr ht)

/-- Floored times are written like the times themselves. -/
theorem toJson_floored (c : Classifier) : c.floored.toJson = c.toJson := by
  obtain ⟨name, labels, constraints, requirements, created, deleted, distinct⟩ := c
  cases created <;> cases deleted <;> simp [floored, toJson, Moment.utcText_floored, specJson]

/-- Flooring changes a time exactly when it has a part of a second. -/
theorem map_instant_floored {time : Option Moment} :
    (time.map Moment.floored).map Moment.instant = time.map Moment.instant ↔
      ∀ t, time = some t → t.instant % 1000000 = 0 := by
  cases time with
  | none => simp
  | some t =>
    simp only [Option.map_some, Option.some.injEq, Moment.instant_floored, forall_eq']
    omega

theorem same_floored {c : Classifier} :
    c.floored.same c = true ↔ ∀ t, c.HasTime t → t.instant % 1000000 = 0 := by
  have htimes : c.floored.same c = true ↔
      (c.floored.created.map Moment.instant = c.created.map Moment.instant ∧
        c.floored.deleted.map Moment.instant = c.deleted.map Moment.instant) := by
    simp [same, floored]
  rw [htimes, floored, map_instant_floored, map_instant_floored]
  simp only [HasTime]
  constructor
  · rintro ⟨hcreated, hdeleted⟩ t (ht | ht)
    · exact hcreated t ht
    · exact hdeleted t ht
  · intro h
    exact ⟨fun t ht => h t (.inl ht), fun t ht => h t (.inr ht)⟩

/-- What is written of a classifier that was read is accepted and gives the classifier back, with its
    times floored to the second; hash and manifest are the same again. So nothing is lost exactly when
    no time has a part of a second. -/
theorem manifest_roundTrip {c : Classifier} (hc : ofManifest d = .ok c)
    (hyears : ∀ t, c.HasTime t →
      1000 ≤ (dateOf t.instant).year ∧ (dateOf t.instant).year ≤ 9999) :
    ∃ again, ofManifest c.toJson.toDatum = .ok again ∧ again = c.floored ∧ again.hash = c.hash ∧
      again.toJson = c.toJson ∧
      (again.same c = true ↔ ∀ t, c.HasTime t → t.instant % 1000000 = 0) :=
  ⟨c.floored, ofManifest_toJson (wellFormed_of_ofManifest hc) hyears, rfl, rfl, toJson_floored c,
    same_floored⟩

end Classifier

/-- The web servers' classifier, created half past ten in UTC and half a second. -/
def Sample.web : Classifier :=
  ⟨"web", [⟨"tier", "web"⟩],
    [⟨⟨"apps", "v1", "Deployment", ""⟩, [⟨"app", .equal, "nginx"⟩], [], some 2, some 3, ""⟩],
    [⟨"v1.27.0", .greater⟩], some ⟨63844806600500000, 7200000000⟩, none, by decide⟩

open Sample in
/-- Written and read again, the web servers' classifier has lost its half second. -/
theorem web_loses_half_a_second :
    Classifier.ofManifest (webManifest (.text "v1.27.0")) = .ok web ∧
      (∀ t, web.HasTime t → 1000 ≤ (Calendar.dateOf t.instant).year ∧
        (Calendar.dateOf t.instant).year ≤ 9999) ∧
      ∃ again, Classifier.ofManifest web.toJson.toDatum = .ok again ∧
        again.created = some ⟨63844799400000000, 0⟩ ∧ again.hash = web.hash ∧
        again.same web = false := by
  have htaken : (Classifier.ofManifest (webManifest (.text "v1.27.0"))).toOption = some web := by
    decide +kernel
  have hread : Classifier.ofManifest (webManifest (.text "v1.27.0")) = .ok web := by
    cases h : Classifier.ofManifest (webManifest (.text "v1.27.0")) with
    | error r =>
      rw [h] at htaken
      cases htaken
    | ok c =>
      rw [h] at htaken
      exact congrArg Except.ok (Option.some.inj htaken)
  have hyears : ∀ t, web.HasTime t → 1000 ≤ (Calendar.dateOf t.instant).year ∧
      (Calendar.dateOf t.instant).year ≤ 9999 := by
    rintro t (ht | ht)
    · cases ht
      decide
    · cases ht
  obtain ⟨again, hagain, heq, hhash, -, hsame⟩ := Classifier.manifest_roundTrip hread hyears
  refine ⟨hread, hyears, again, hagain, heq ▸ rfl, hhash, ?_⟩
  rw [← Bool.not_eq_true, hsame]
  intro h
  exact absurd (h _ (.inl rfl)) (by decide)

end FleetLabels
