import FleetLabels.Manifest
import FleetLabels.Scope

/-!
    Resources: the objects that live in a cluster.

    A resource is known by its API version, kind, namespace and name. Its labels are texts, and every
    other field is looked up in the manifest by a path of keys with dots between them. -/

namespace FleetLabels

structure Resource where
  apiVersion : String
  kind : String
  name : String
  /-- the namespace, empty for a resource of the whole cluster -/
  space : String
  labels : Table String String
  manifest : Datum
  deriving Inhabited

namespace Resource

def group (r : Resource) : String := (splitApiVersion r.apiVersion).1

def version (r : Resource) : String := (splitApiVersion r.apiVersion).2

def scope (r : Resource) : Scope := ⟨r.group, r.version, r.kind, r.space⟩

/-- The resource as messages name it. -/
def describe (r : Resource) : String :=
  if r.space.isEmpty then r.kind ++ " " ++ r.name else r.kind ++ " " ++ r.space ++ "/" ++ r.name

/-- What makes a resource the one that it is; labels and other fields do not. -/
def identity (r : Resource) : String × String × String × String :=
  (r.apiVersion, r.kind, r.name, r.space)

/-- A resource with what its manifest says of it. A name that is there but says nothing, such as null,
    is outside the modelled domain and read as the empty one. -/
def ofManifest (d : Datum) : Reading Resource := do
  let metadata ← Manifest.part "metadata" d
  return {
    apiVersion := ← Manifest.optional (← Manifest.member "apiVersion" d)
    kind := ← Manifest.optional (← Manifest.member "kind" d)
    name := ← Manifest.optional (← Manifest.member "name" metadata)
    space := ← Manifest.optional (← Manifest.member "namespace" metadata)
    labels := ← Manifest.labels (← Manifest.member "labels" metadata)
    manifest := d }

/-- The value at the end of a path, null where there is none. Name and namespace are the resource's
    own, also when the manifest leaves them out. -/
def field (r : Resource) (path : String) : Datum :=
  if path = "metadata.name" then .text r.name
  else if path = "metadata.namespace" then .text r.space
  else r.manifest.walk ((Text.split '.' path.toList).map String.ofList)

end Resource

/-- A value as field selectors see it: nothing for null, and truth values in lower case. -/
def selectorText : Datum → String
  | .scalar .null => ""
  | .scalar (.bool b) => if b then "true" else "false"
  | d => d.plain

end FleetLabels
