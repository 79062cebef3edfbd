import FleetLabels.Evaluation

/-!
    Constraints as they are accepted.

    Group, version, kind and namespace of a constraint are declared as texts. Accepting one only asks of
    version and kind that they say something, so any value may stand for a name. A draft is a constraint
    with the names that it was given, its filters and its script being those of a constraint; where the
    names are texts it is typed (`Constraint.Draft.typed?`), and it is evaluated like the constraint that
    it makes.

    Group, version and kind are looked up together to find the fields of the kind. A list or a mapping
    among them cannot be looked up, which breaks the evaluation off. Any other value that is no text is
    the name of nothing. -/

namespace FleetLabels

namespace Datum

/-- The text that a value is, if it is one. -/
def text? : Datum → Option String
  | .scalar (.text s) => some s
  | _ => none

/-- Whether a value can be looked up. -/
def isKey : Datum → Bool
  | .scalar _ => true
  | _ => false

end Datum

namespace Manifest

/-- A value that has to say something. -/
def stated (rule : Invalid) (d : Datum) : Reading Datum :=
  if d.isGiven then .ok d else .error (.invalid rule)

/-- A value that may be left out. -/
def orEmpty (d : Datum) : Datum := if d.isGiven then d else .text ""

end Manifest

/-- The names of a scope as they were given. -/
structure Scope.Draft where
  group : Datum
  version : Datum
  kind : Datum
  space : Datum

namespace Scope.Draft

/-- The scope of the names, which have to be texts. -/
def typed? (s : Draft) : Option Scope := do
  return ⟨← s.group.text?, ← s.version.text?, ← s.kind.text?, ← s.space.text?⟩

/-- Whether these are the names of a resource. -/
def fits (s : Draft) (r : Resource) : Bool :=
  s.group.text? == some r.group && s.version.text? == some r.version &&
    s.kind.text? == some r.kind && s.space.text? == some r.space

/-- The first of group, version and kind that cannot be looked up. -/
def unkeyed? (s : Draft) : Option Datum := [s.group, s.version, s.kind].find? fun d => !d.isKey

end Scope.Draft

/-- The fields that the resources of a named kind can be selected by. Only texts name a kind that is
    registered. -/
def Registry.fieldsNamed (r : Registry) (s : Scope.Draft) : List String :=
  match s.group.text?, s.version.text?, s.kind.text? with
  | some group, some version, some kind => r.supportedFields ⟨some group, version, kind⟩
  | _, _, _ => commonFields

structure Constraint.Draft where
  scope : Scope.Draft
  labelFilters : List LabelFilter
  fieldFilters : List FieldFilter
  minCount : Option Nat
  maxCount : Option Nat
  /-- empty when there is no script -/
  script : String

namespace Constraint

/-- The names of a scope, of which kind and version have to be stated. -/
def Fields.names (f : Fields) : Reading Scope.Draft := do
  let kind ← Manifest.stated .constraintKind f.kind
  let version ← Manifest.stated .constraintVersion f.version
  return ⟨Manifest.orEmpty f.group, version, kind, Manifest.orEmpty f.space⟩

namespace Draft

/-- The names come first, then filters and bounds. -/
def ofFields (f : Fields) : Reading Draft := do
  let scope ← f.names
  let script ← Manifest.optional f.script
  let labels ← f.labels
  let fields ← f.fields
  let (low, high) ← f.bounds
  return ⟨scope, labels, fields, low, high, script⟩

/-- The filters come first, then names and bounds. -/
def ofManifest (d : Datum) : Reading Draft := do
  let f ← Fields.ofManifest d
  let labels ← f.labels
  let fields ← f.fields
  let scope ← f.names
  let script ← Manifest.optional f.script
  let (low, high) ← f.bounds
  return ⟨scope, labels, fields, low, high, script⟩

/-- The constraint with a scope in the place of the names. -/
def inScope (d : Draft) (s : Scope) : Constraint :=
  ⟨s, d.labelFilters, d.fieldFilters, d.minCount, d.maxCount, d.script⟩

/-- The constraint of a draft whose names are texts. -/
def typed? (d : Draft) : Option Constraint := d.scope.typed?.map d.inScope

/-- Whether a count satisfies the constraint. -/
def allows (d : Draft) (count : Nat) : Bool :=
  withinBounds count (d.minCount.getD 1) (d.maxCount.map fun n => (n : Int))

end Draft

end Constraint

/-- How a constraint fared: whether it is satisfied, how many resources passed, and its fault. -/
structure ConstraintOutcome where
  satisfied : Bool
  count : Nat
  fault : Option Fault
  deriving DecidableEq, Repr

def ConstraintResult.outcome (r : ConstraintResult) : ConstraintOutcome :=
  ⟨r.satisfied, r.count, r.fault⟩

namespace RememberingEvaluator

/-- The resources of a listing that a draft selects. -/
def selectDraft (e : RememberingEvaluator) (d : Constraint.Draft) (listing : List Listed) :
    Except Abrupt Selection :=
  match d.scope.unkeyed? with
  | some v => .error ⟨"unhashable type: " ++ Text.quote v.kindName⟩
  | none =>
    match unsupported? d.scope.kind.plain (e.registry.fieldsNamed d.scope) d.fieldFilters with
    | some f => .ok ⟨.error f, []⟩
    | none => do
      let rs ← resourcesWhere d.scope.fits listing
      return e.judge d.script (passing d.labelFilters d.fieldFilters rs)

/-- How a draft fares on a listing, with the script runs that it took. -/
def evaluateDraft (e : RememberingEvaluator) (d : Constraint.Draft) (listing : List Listed) :
    Except Abrupt (ConstraintOutcome × List ScriptCall) := do
  let s ← e.selectDraft d listing
  return (match s.found with
    | .ok rs => ⟨d.allows rs.length, rs.length, none⟩
    | .error f => ⟨false, 0, some f⟩, s.calls)

end RememberingEvaluator

end FleetLabels
