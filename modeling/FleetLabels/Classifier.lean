import FleetLabels.Constraint
import FleetLabels.Digest
import FleetLabels.Json.Text
import FleetLabels.Version.Requirement

/-!
    Classifiers: what a cluster must have, and the labels it then gets.

    A classifier matches a cluster when all its constraints and requirements are met, and wants each
    of its labels on every cluster that it matches. Its keys are pairwise different, which is part of
    what it is. A classifier with a deletion time is on its way out: it is still evaluated and gives up
    its labels.

    The hash of a classifier covers its spec and neither its name nor its times. -/

namespace FleetLabels

open Calendar

structure Label where
  key : String
  value : String
  deriving DecidableEq, Inhabited, Repr

namespace Label

def ofManifest (d : Datum) : Reading Label := do
  let key ← Manifest.required .labelKey (← Manifest.member "key" d)
  return ⟨key, Manifest.valueText (← Manifest.member "value" d)⟩

def toJson (l : Label) : Json := .object [("key", .text l.key), ("value", .text l.value)]

end Label

structure Classifier where
  name : String
  labels : List Label
  constraints : List Constraint
  requirements : List Requirement
  created : Option Moment
  deleted : Option Moment
  /-- the keys of the labels are pairwise different -/
  distinct : (labels.map Label.key).Nodup
  deriving DecidableEq, Repr

instance : Inhabited Classifier := ⟨⟨"", [], [], [], none, none, List.Pairwise.nil⟩⟩

/-- The first text of a list that stands in it before. -/
def firstRepeated? : List String → List String → Option String
  | _, [] => none
  | seen, x :: rest => if x ∈ seen then some x else firstRepeated? (x :: seen) rest

theorem nodup_of_firstRepeated? {seen xs : List String} (h : firstRepeated? seen xs = none) :
    xs.Nodup ∧ ∀ x ∈ xs, x ∉ seen := by
  induction xs generalizing seen with
  | nil => exact ⟨List.nodup_nil, fun x hx => absurd hx List.not_mem_nil⟩
  | cons x rest ih =>
    rw [firstRepeated?] at h
    split at h
    · cases h
    · rename_i hx
      obtain ⟨hrest, hseen⟩ := ih h
      refine ⟨List.nodup_cons.mpr ⟨fun hmem => hseen x hmem List.mem_cons_self, hrest⟩, ?_⟩
      rintro y (_ | ⟨_, hy⟩)
      · exact hx
      · exact fun hmem => hseen y hy (List.mem_cons_of_mem _ hmem)

namespace Classifier

def isDeleted (c : Classifier) : Bool := c.deleted.isSome

/-- The value that a classifier wants at a key. -/
def wanted? (c : Classifier) (key : String) : Option String :=
  (c.labels.find? fun l => l.key == key).map Label.value

/-- Whether two classifiers agree in all but the offsets that their times are written with. -/
def same (a b : Classifier) : Bool :=
  a.name == b.name && a.labels == b.labels && a.constraints == b.constraints &&
    a.requirements == b.requirements &&
    a.created.map Moment.instant == b.created.map Moment.instant &&
    a.deleted.map Moment.instant == b.deleted.map Moment.instant

/-- The spec, in the form of a manifest. -/
def specJson (c : Classifier) : Json :=
  .object [("deployedResourceConstraints", .list (c.constraints.map Constraint.toJson)),
    ("kubernetesVersionConstraints", .list (c.requirements.map Requirement.toJson)),
    ("classifierLabels", .list (c.labels.map Label.toJson))]

/-- The manifest, with times in UTC and whole seconds. -/
def toJson (c : Classifier) : Json :=
  let time (key : String) (t : Option Moment) : List (String × Json) :=
    match t with
    | some m => [(key, .text m.utcText)]
    | none => []
  .object [("kind", .text "Classifier"),
    ("metadata", .object (("name", .text c.name) :: time "creationTimestamp" c.created ++
      time "deletionTimestamp" c.deleted)),
    ("spec", c.specJson)]

/-- The text that the hash of a classifier is taken of. -/
def hashedText (c : Classifier) : List Char := c.specJson.compact

def hash (c : Classifier) : String := Digest.hexOfText c.hashedText

/-- A classifier whose spec is read, with its times; its keys have to be pairwise different. -/
def assemble (name : String) (labels : List Label) (constraints : List Constraint)
    (requirements : List Requirement) (created deleted : Datum) : Reading Classifier := do
  let created ← Manifest.timestamp? created
  let deleted ← Manifest.timestamp? deleted
  match h : firstRepeated? [] (labels.map Label.key) with
  | some key => .error (.invalid (.repeatedLabel name key))
  | none =>
    return ⟨name, labels, constraints, requirements, created, deleted, (nodup_of_firstRepeated? h).1⟩

/-- The spec comes first, then the name and the times. -/
def ofManifest (d : Datum) : Reading Classifier := do
  let metadata ← Manifest.part "metadata" d
  let spec ← Manifest.part "spec" d
  let name ← Manifest.member "name" metadata
  let labels ← Manifest.each Label.ofManifest "classifierLabels" spec
  let constraints ← Manifest.each Constraint.ofManifest "deployedResourceConstraints" spec
  let requirements ← Manifest.each Requirement.ofManifest "kubernetesVersionConstraints" spec
  let name ← Manifest.required .classifierName name
  assemble name labels constraints requirements (← Manifest.member "creationTimestamp" metadata)
    (← Manifest.member "deletionTimestamp" metadata)

/-- The parts of a classifier before they are checked; a missing one is null. -/
structure Fields where
  name : Datum
  labels : Datum
  constraints : Datum
  requirements : Datum
  created : Datum
  deleted : Datum

/-- The name comes first, then the spec and the times. -/
def ofFields (f : Fields) : Reading Classifier := do
  let name ← Manifest.required .classifierName f.name
  let labels ← (← Manifest.items f.labels).mapM Label.ofManifest
  let constraints ← (← Manifest.items f.constraints).mapM Constraint.ofManifest
  let requirements ← (← Manifest.items f.requirements).mapM Requirement.ofManifest
  assemble name labels constraints requirements f.created f.deleted

/-- The classifier, deleted at a time. -/
def deletedAt (c : Classifier) (time : Datum) : Reading Classifier := do
  return { c with deleted := ← Manifest.timestamp? time }

end Classifier

end FleetLabels
