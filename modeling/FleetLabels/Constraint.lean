import FleetLabels.Filter

/-!
    Constraints on the resources deployed in a cluster.

    A constraint counts the resources of its scope that pass its filters and its script, and bounds
    the count. Without a minimum one resource is wanted, without a maximum there is no upper bound.

    A constraint is read from a manifest, or put together from `Fields`; both follow the same rules
    and differ in which of several flaws is found first. -/

namespace FleetLabels

structure Constraint where
  scope : Scope
  labelFilters : List LabelFilter
  fieldFilters : List FieldFilter
  minCount : Option Nat
  maxCount : Option Nat
  /-- empty when there is no script -/
  script : String
  deriving DecidableEq, Inhabited, Repr

/-- Whether a count lies between a minimum and a maximum, if there is one. -/
def withinBounds (count minCount : Int) (maxCount : Option Int) : Bool :=
  minCount ≤ count && maxCount.all (count ≤ ·)

namespace Constraint

/-- The least count that satisfies the constraint. -/
def effectiveMin (c : Constraint) : Nat := c.minCount.getD 1

/-- Whether a count satisfies the constraint. -/
def allows (c : Constraint) (count : Nat) : Bool :=
  withinBounds count c.effectiveMin (c.maxCount.map fun n => (n : Int))

def describe (c : Constraint) : String := c.scope.describe

/-- The counts that satisfy the constraint, as messages show them. -/
def boundsText (c : Constraint) : String :=
  "[" ++ toString c.effectiveMin ++ ", " ++
    (match c.maxCount with | some n => toString n | none => "inf") ++ "]"

def toJson (c : Constraint) : Json :=
  let count (key : String) (bound : Option Nat) : List (String × Json) :=
    match bound with
    | some n => [(key, .int n)]
    | none => []
  .object ([("group", .text c.scope.group), ("version", .text c.scope.version),
    ("kind", .text c.scope.kind), ("namespace", .text c.scope.space),
    ("labelFilters", .list (c.labelFilters.map LabelFilter.toJson)),
    ("fieldFilters", .list (c.fieldFilters.map FieldFilter.toJson)),
    ("script", .text c.script)] ++ count "minCount" c.minCount ++ count "maxCount" c.maxCount)

/-- The parts of a constraint before they are checked; a missing one is null. -/
structure Fields where
  group : Datum
  version : Datum
  kind : Datum
  space : Datum
  labelFilters : Datum
  fieldFilters : Datum
  minCount : Datum
  maxCount : Datum
  script : Datum

namespace Fields

/-- The scope, of which kind and version have to be given. -/
def scope (f : Fields) : Reading Scope := do
  let kind ← Manifest.required .constraintKind f.kind
  let version ← Manifest.required .constraintVersion f.version
  return ⟨← Manifest.optional f.group, version, kind, ← Manifest.optional f.space⟩

def labels (f : Fields) : Reading (List LabelFilter) := do
  (← Manifest.items f.labelFilters).mapM LabelFilter.ofManifest

def fields (f : Fields) : Reading (List FieldFilter) := do
  (← Manifest.items f.fieldFilters).mapM FieldFilter.ofManifest

/-- The two bounds, of which the maximum is at least the minimum when both are given. -/
def bounds (f : Fields) : Reading (Option Nat × Option Nat) := do
  let low ← Manifest.count? "minCount" f.minCount
  let high ← Manifest.count? "maxCount" f.maxCount
  match low, high with
  | some m, some n => if n < m then .error (.invalid (.emptyRange n m)) else .ok (low, high)
  | _, _ => .ok (low, high)

def ofManifest (d : Datum) : Reading Fields := do
  return {
    group := ← Manifest.member "group" d
    version := ← Manifest.member "version" d
    kind := ← Manifest.member "kind" d
    space := ← Manifest.member "namespace" d
    labelFilters := ← Manifest.member "labelFilters" d
    fieldFilters := ← Manifest.member "fieldFilters" d
    minCount := ← Manifest.member "minCount" d
    maxCount := ← Manifest.member "maxCount" d
    script := ← Manifest.member "script" d }

end Fields

/-- The scope comes first, then filters and bounds. -/
def ofFields (f : Fields) : Reading Constraint := do
  let scope ← f.scope
  let script ← Manifest.optional f.script
  let labels ← f.labels
  let fields ← f.fields
  let (low, high) ← f.bounds
  return ⟨scope, labels, fields, low, high, script⟩

/-- The filters come first, then scope and bounds. -/
def ofManifest (d : Datum) : Reading Constraint := do
  let f ← Fields.ofManifest d
  let labels ← f.labels
  let fields ← f.fields
  let scope ← f.scope
  let script ← Manifest.optional f.script
  let (low, high) ← f.bounds
  return ⟨scope, labels, fields, low, high, script⟩

end Constraint

end FleetLabels
