import FleetLabels.Json.Basic
import FleetLabels.Manifest

/-!
    Clusters of the fleet.

    A cluster is told apart by its type, namespace and name. Its key joins the three and names the
    cluster wherever something is kept by cluster. The labels are the ones that the cluster carries
    now, and are no part of what it is. -/

namespace FleetLabels

inductive ClusterType where
  | capi
  | sveltos
  deriving DecidableEq, Inhabited, Repr

namespace ClusterType

def name : ClusterType → String
  | .capi => "Capi"
  | .sveltos => "Sveltos"

/-- The name in lower case, as keys and report names begin. -/
def lowerName : ClusterType → String
  | .capi => "capi"
  | .sveltos => "sveltos"

def choices : List (String × ClusterType) := [.capi, .sveltos].map fun t => (t.name, t)

end ClusterType

structure Cluster where
  space : String
  name : String
  type : ClusterType
  labels : Table String String
  deriving DecidableEq, Inhabited, Repr

namespace Cluster

def key (c : Cluster) : String := c.type.lowerName ++ ":" ++ c.space ++ "--" ++ c.name

/-- Clusters are sorted by the names of their types, then by namespace and name. -/
def sortKey (c : Cluster) : String × String × String := (c.type.name, c.space, c.name)

def compare (a b : Cluster) : Ordering :=
  (Ord.compare a.type.name b.type.name).then
    ((Ord.compare a.space b.space).then (Ord.compare a.name b.name))

/-- Whether two clusters are one, whatever labels they carry. -/
def same (a b : Cluster) : Bool := a.sortKey == b.sortKey

def toJson (c : Cluster) : Json :=
  .object [("namespace", .text c.space), ("name", .text c.name), ("clusterType", .text c.type.name)]

/-- The name comes first, then the type. -/
def ofManifest (d : Datum) : Reading Cluster := do
  let space ← Manifest.optional (← Manifest.memberOr (.text "default") "namespace" d)
  let name ← Manifest.required .clusterName (← Manifest.member "name" d)
  let type ← Manifest.choice "cluster type" ClusterType.choices
    (← Manifest.memberOr (.text ClusterType.capi.name) "type" d)
  let labels ← Manifest.labels (← Manifest.member "labels" d)
  return ⟨space, name, type, labels⟩

end Cluster

end FleetLabels
