import FleetLabels.Json.Basic
import FleetLabels.Resource

/-!
    Filters on labels and fields of resources.

    A filter compares an actual text with the one it states. A label that a resource does not carry
    is different from every text; a field that is missing reads as the empty text. -/

namespace FleetLabels

inductive Operation where
  | equal
  | different
  deriving DecidableEq, Inhabited, Repr

namespace Operation

def name : Operation → String
  | .equal => "Equal"
  | .different => "Different"

def choices : List (String × Operation) := [.equal, .different].map fun o => (o.name, o)

def ofDatum (d : Datum) : Reading Operation := Manifest.choice "operation" choices d

def accepts (o : Operation) (actual stated : String) : Bool :=
  match o with
  | .equal => actual == stated
  | .different => actual != stated

end Operation

structure LabelFilter where
  key : String
  operation : Operation
  value : String
  deriving DecidableEq, Inhabited, Repr

structure FieldFilter where
  field : String
  operation : Operation
  value : String
  deriving DecidableEq, Inhabited, Repr

namespace LabelFilter

def ofManifest (d : Datum) : Reading LabelFilter := do
  let key ← Manifest.required .filterKey (← Manifest.member "key" d)
  let operation ← Operation.ofDatum (← Manifest.memberOr (.text "") "operation" d)
  return ⟨key, operation, Manifest.valueText (← Manifest.member "value" d)⟩

def toJson (f : LabelFilter) : Json :=
  .object [("key", .text f.key), ("operation", .text f.operation.name), ("value", .text f.value)]

def accepts (f : LabelFilter) (r : Resource) : Bool :=
  match r.labels.get? f.key with
  | some actual => f.operation.accepts actual f.value
  | none => f.operation == .different

end LabelFilter

namespace FieldFilter

def ofManifest (d : Datum) : Reading FieldFilter := do
  let field ← Manifest.required .filterField (← Manifest.member "field" d)
  let operation ← Operation.ofDatum (← Manifest.memberOr (.text "") "operation" d)
  return ⟨field, operation, Manifest.valueText (← Manifest.member "value" d)⟩

def toJson (f : FieldFilter) : Json :=
  .object [("field", .text f.field), ("operation", .text f.operation.name), ("value", .text f.value)]

def accepts (f : FieldFilter) (r : Resource) : Bool :=
  f.operation.accepts (selectorText (r.field f.field)) f.value

end FieldFilter

/-- The resources that pass every filter. -/
def passing (labels : List LabelFilter) (fields : List FieldFilter) (rs : List Resource) :
    List Resource :=
  rs.filter fun r => labels.all (·.accepts r) && fields.all (·.accepts r)

end FleetLabels
