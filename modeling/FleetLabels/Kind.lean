import FleetLabels.Manifest

/-!
    Kinds of resources and the fields that they can be selected by.

    Every kind can be selected by name and namespace. A registry knows further fields of the kinds
    registered in it, of which the last registration of a kind counts. -/

namespace FleetLabels

/-- What names a kind. The group is missing when it was declared as null, and such a kind is not the
    one of the empty group. -/
structure KindName where
  group : Option String
  version : String
  kind : String
  deriving DecidableEq, Inhabited, Repr

structure Kind where
  name : KindName
  /-- whether resources of the kind live in namespaces, as it was declared -/
  namespaced : Datum
  /-- the fields that the kind declares -/
  selectors : List String
  deriving Inhabited

/-- The fields that every resource can be selected by. -/
def commonFields : List String := ["metadata.name", "metadata.namespace"]

namespace Kind

/-- Fields together with the common ones, each once, in code point order. -/
def fieldSet (fields : List String) : List String :=
  (commonFields ++ fields).eraseDups.mergeSort fun a b => decide (a ≤ b)

/-- The fields that resources of the kind can be selected by, sorted. -/
def fields (k : Kind) : List String := fieldSet k.selectors

def of (group version kind : String) (fields : List String) (namespaced : Bool) : Kind :=
  ⟨⟨some group, version, kind⟩, .bool namespaced, fields⟩

/-- The group of a declared kind; one that is missing is empty. A group that is neither null nor a text
    is outside the modelled domain. -/
def groupOf (d : Datum) : Reading (Option String) :=
  match d with
  | .scalar .null => .ok none
  | .scalar (.text s) => .ok (some s)
  | _ => .error .shape

/-- The name of a field; a value that is no text is outside the modelled domain. -/
def fieldOf (d : Datum) : Reading String :=
  match d with
  | .scalar (.text s) => .ok s
  | _ => .error .shape

/-- A declaration has to be a mapping with version and kind. -/
def ofManifest (d : Datum) : Reading Kind := do
  let given (key : String) := (d.get? key).any Datum.isGiven
  if given "version" && given "kind" then
    let group ← groupOf (← Manifest.memberOr (.text "") "group" d)
    let version ← Manifest.optional (← Manifest.member "version" d)
    let kind ← Manifest.optional (← Manifest.member "kind" d)
    let namespaced ← Manifest.memberOr (.bool true) "namespaced" d
    let fields ← Manifest.each fieldOf "fieldSelectors" d
    return ⟨⟨group, version, kind⟩, namespaced, fields⟩
  else .error (.invalid (.kindIdentity d))

/-- The kinds that every cluster knows. -/
def builtin : List Kind := [
  of "" "v1" "Pod" ["spec.nodeName", "spec.restartPolicy", "spec.schedulerName",
    "spec.serviceAccountName", "spec.hostNetwork", "status.phase", "status.podIP",
    "status.nominatedNodeName"] true,
  of "" "v1" "Node" ["spec.unschedulable"] false,
  of "" "v1" "Namespace" ["status.phase"] false,
  of "" "v1" "Secret" ["type"] true,
  of "" "v1" "Event" ["involvedObject.kind", "involvedObject.namespace", "involvedObject.name",
    "involvedObject.uid", "involvedObject.apiVersion", "involvedObject.resourceVersion",
    "involvedObject.fieldPath", "reason", "reportingComponent", "type"] true,
  of "" "v1" "ReplicationController" ["status.replicas"] true,
  of "" "v1" "ConfigMap" [] true,
  of "" "v1" "Service" [] true,
  of "" "v1" "ServiceAccount" [] true,
  of "" "v1" "PersistentVolume" [] false,
  of "" "v1" "PersistentVolumeClaim" [] true,
  of "apps" "v1" "Deployment" [] true,
  of "apps" "v1" "StatefulSet" [] true,
  of "apps" "v1" "DaemonSet" [] true,
  of "apps" "v1" "ReplicaSet" ["status.replicas"] true,
  of "batch" "v1" "Job" ["status.successful"] true,
  of "batch" "v1" "CronJob" [] true,
  of "apiextensions.k8s.io" "v1" "CustomResourceDefinition" [] false]

/-- Group, version and kind in turn by code point; a missing group comes before every other. -/
def compareNames (a b : KindName) : Ordering :=
  (compare a.group b.group).then ((compare a.version b.version).then (compare a.kind b.kind))

end Kind

structure Registry where
  table : Table KindName Kind
  deriving Inhabited

namespace Registry

def empty : Registry := ⟨Table.empty⟩

def register (r : Registry) (k : Kind) : Registry := ⟨r.table.set k.name k⟩

def ofList (ks : List Kind) : Registry := ks.foldl register empty

/-- The registry of the kinds that every cluster knows. -/
def builtin : Registry := ofList Kind.builtin

def lookup (r : Registry) (name : KindName) : Option Kind := r.table.get? name

def contains (r : Registry) (name : KindName) : Bool := (r.lookup name).isSome

def size (r : Registry) : Nat := r.table.size

/-- The fields that resources of a kind can be selected by. -/
def supportedFields (r : Registry) (name : KindName) : List String :=
  match r.lookup name with
  | some k => k.fields
  | none => commonFields

/-- All kinds by name. They have no order when some of them have a group and others have none. -/
def kinds? (r : Registry) : Option (List Kind) :=
  let ks := r.table.values
  if ks.any (fun k => k.name.group.isNone) && ks.any (fun k => k.name.group.isSome) then none
  else some (ks.mergeSort fun a b => Kind.compareNames a.name b.name != .gt)

end Registry

end FleetLabels
