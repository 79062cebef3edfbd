import FleetLabels.Constraint

/-!
    Event sources: resources of interest.

    An event source selects resources as a constraint does, without bounds on their number, and may
    collect them. -/

namespace FleetLabels

structure EventSource where
  name : String
  /-- what is selected -/
  constraint : Constraint
  /-- whether the selected resources are kept -/
  collect : Bool
  deriving DecidableEq, Inhabited, Repr

namespace EventSource

/-- The parts of an event source before they are checked; a missing one is null. -/
structure Fields where
  name : Datum
  group : Datum
  version : Datum
  kind : Datum
  space : Datum
  labelFilters : Datum
  script : Datum
  collect : Datum

/-- What an event source selects, with any count allowed. -/
def Fields.selection (f : Fields) : Constraint.Fields where
  group := f.group
  version := f.version
  kind := f.kind
  space := f.space
  labelFilters := f.labelFilters
  fieldFilters := .null
  minCount := .int 0
  maxCount := .null
  script := f.script

def Fields.ofManifest (d : Datum) : Reading Fields := do
  let metadata ← Manifest.part "metadata" d
  let spec ← Manifest.part "spec" d
  return {
    name := ← Manifest.member "name" metadata
    group := ← Manifest.member "group" spec
    version := ← Manifest.member "version" spec
    kind := ← Manifest.member "kind" spec
    space := ← Manifest.member "namespace" spec
    labelFilters := ← Manifest.member "labelFilters" spec
    script := ← Manifest.member "script" spec
    collect := ← Manifest.member "collectResources" spec }

/-- The name comes first, then what is selected. -/
def ofFields (f : Fields) : Reading EventSource := do
  let name ← Manifest.required .eventSourceName f.name
  return ⟨name, ← Constraint.ofFields f.selection, f.collect.isGiven⟩

/-- The filters come first, then the name and what is selected. -/
def ofManifest (d : Datum) : Reading EventSource := do
  let f ← Fields.ofManifest d
  let _ ← f.selection.labels
  ofFields f

end EventSource

end FleetLabels
