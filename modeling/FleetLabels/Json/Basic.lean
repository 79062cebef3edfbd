import FleetLabels.Datum.Basic

/-!
    JSON documents, as manifests and reports are written.

    Objects are lists of members. A document holds no numbers but integers, and can be read back as
    a manifest value. -/

namespace FleetLabels

inductive Json where
  | null
  | bool (b : Bool)
  | int (n : Int)
  | text (s : String)
  | list (items : List Json)
  | object (members : List (String × Json))
  deriving Inhabited, Repr

namespace Json

def texts (xs : List String) : Json := .list (xs.map .text)

/-- An object whose members are all texts. -/
def textObject (xs : List (String × String)) : Json := .object (xs.map fun x => (x.1, .text x.2))

/-- A missing text is null. -/
def optionalText : Option String → Json
  | none => .null
  | some s => .text s

mutual

/-- The document as a value that a manifest may hold. -/
def toDatum : Json → Datum
  | .null => .null
  | .bool b => .bool b
  | .int n => .int n
  | .text s => .text s
  | .list items => .list (itemsToData items)
  | .object members => .mapping (membersToData members)

def itemsToData : List Json → List Datum
  | [] => []
  | x :: rest => x.toDatum :: itemsToData rest

def membersToData : List (String × Json) → List (Scalar × Datum)
  | [] => []
  | (k, x) :: rest => (.text k, x.toDatum) :: membersToData rest

end

end Json

end FleetLabels
