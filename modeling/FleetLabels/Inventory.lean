import FleetLabels.Cluster
import FleetLabels.Resource
import FleetLabels.Yaml.Stream

/-!
    Inventories: the resources of the clusters at one point in time.

    Resources are kept by the key of their cluster, in the order in which they were added. The
    versions of the clusters are kept beside them. -/

namespace FleetLabels

structure Inventory where
  resources : Table String (List Resource)
  deriving Inhabited

namespace Inventory

def empty : Inventory := ⟨Table.empty⟩

def addResource (inv : Inventory) (key : String) (r : Resource) : Inventory :=
  ⟨inv.resources.alter key fun rs => rs.getD [] ++ [r]⟩

/-- The inventory with one more resource, read from its manifest. -/
def add (key : String) (inv : Inventory) (d : Datum) : Reading Inventory :=
  (Resource.ofManifest d).map (inv.addResource key)

/-- All resources of a cluster. -/
def all (inv : Inventory) (c : Cluster) : List Resource := (inv.resources.get? c.key).getD []

/-- The resources of a cluster in a scope. -/
def list (inv : Inventory) (c : Cluster) (s : Scope) : List Resource :=
  (inv.all c).filter fun r => r.scope == s

/-- The keys of the clusters that have resources, in code point order. -/
def clusters (inv : Inventory) : List String :=
  inv.resources.keys.mergeSort fun a b => decide (a ≤ b)

/-- Manifests for each cluster. -/
def ofManifests (manifests : List (String × Datum)) : Reading Inventory :=
  manifests.foldlM (fun inv m => do
    match m.2.items? with
    | some ds => ds.foldlM (add m.1) inv
    | none => .error .shape) empty

/-- Why documents make no inventory. -/
inductive Fault where
  | manifest (r : Refusal)
  | stream (f : Yaml.Fault)

/-- The manifests that a document holds: the items of a list, or the document itself. A document
    that says nothing holds none. -/
def manifestsOf (d : Datum) : Reading (List Datum) :=
  if !d.isGiven then .ok []
  else do
    match ← Manifest.member "kind" d with
    | .scalar (.text "List") => Manifest.items (← Manifest.member "items" d)
    | _ => return [d]

/-- The inventory with the resources of a document. -/
def addDocument (key : String) (inv : Inventory) (d : Datum) : Reading Inventory := do
  (← manifestsOf d).foldlM (add key) inv

/-- The inventory with the resources of a stream; a flaw of an earlier document comes first. -/
def addStream (key : String) (inv : Inventory) (s : Yaml.Stream) : Except Fault Inventory :=
  s.items.foldlM (fun inv item => do
    (addDocument key inv (← item.mapError .stream)).mapError .manifest) inv

/-- A stream of documents for each cluster. -/
def ofStreams (streams : List (String × Yaml.Stream)) : Except Fault Inventory :=
  streams.foldlM (fun inv s => addStream s.1 inv s.2) empty

end Inventory

/-- The versions that are known of clusters, by their keys. -/
abbrev VersionTable := Table String Datum

/-- The version of a cluster, or why there is none. -/
def VersionTable.versionOf (t : VersionTable) (c : Cluster) : Except String Datum :=
  match t.get? c.key with
  | some v => .ok v
  | none => .error ("no version reported for cluster " ++ c.key)

end FleetLabels
