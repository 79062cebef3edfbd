import FleetLabels.Resource

/-!
    Objects of an API client.

    A client object has typed fields instead of a manifest. Written out, it holds the fields that are
    set: a pod's spec always with its list of containers. An object goes into an inventory only when
    its API version and kind are set. -/

namespace FleetLabels

structure ClientObject where
  /-- the type of the object, as the client names it -/
  model : String
  apiVersion : Datum
  kind : Datum
  metadata : Datum
  nodeName : Datum
  hostNetwork : Datum
  unschedulable : Datum
  phase : Datum
  type : Datum

namespace ClientObject

/-- Why an object has no place in an inventory. -/
inductive Fault where
  | unplaced (model : String)
  | manifest (r : Refusal)

/-- What is said of an object without API version or kind. -/
def unplacedMessage (model : String) : String :=
  model ++ " has no apiVersion/kind set; cannot place it in the inventory"

/-- The members that are set. -/
def present (members : List (String × Datum)) : List (Scalar × Datum) :=
  (members.filter fun m => match m.2 with | .scalar .null => false | _ => true).map
    fun m => (.text m.1, m.2)

/-- A section of the members that are set, if there are any, after those that come with it. -/
def sectionOf (fixed members : List (String × Datum)) : Datum :=
  let set := present members
  if set.isEmpty then .null else .mapping (present fixed ++ set)

def toManifest (o : ClientObject) : Datum :=
  let metadata := match o.metadata with
    | .mapping entries => .mapping (entries.filter fun e => match e.2 with
        | .scalar .null => false
        | _ => true)
    | d => d
  let podSpec := sectionOf [("containers", .list [])]
    [("hostNetwork", o.hostNetwork), ("nodeName", o.nodeName)]
  let spec := match podSpec with
    | .scalar .null => sectionOf [] [("unschedulable", o.unschedulable)]
    | d => d
  .mapping (present [("apiVersion", o.apiVersion), ("kind", o.kind), ("metadata", metadata),
    ("spec", spec), ("status", sectionOf [] [("phase", o.phase)]), ("type", o.type)])

/-- The resource that an object stands for. -/
def toResource (o : ClientObject) : Except Fault Resource :=
  if o.apiVersion.isGiven && o.kind.isGiven then
    (Resource.ofManifest o.toManifest).mapError .manifest
  else .error (.unplaced o.model)

end ClientObject

end FleetLabels
