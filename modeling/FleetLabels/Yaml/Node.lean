import FleetLabels.Yaml.Plain

/-!
    Nodes: the trees that YAML documents are.

    A node is a scalar, a list or a mapping. A key `<<` puts the entries of other mappings before
    those of its own mapping, which override them. Keys that are no scalars are at fault.

    The value of a node is there when no part of it is at fault. Of several faults the one nearest
    to the root counts, and the first one among those equally near. -/

namespace FleetLabels.Yaml

inductive Node where
  | leaf (l : Leaf)
  | list (items : List Node)
  | mapping (entries : List (Leaf × Node))
  /-- a mapping that would have to merge what is no mapping -/
  | unmerged
  deriving Inhabited

namespace Node

/-! ### Composing nodes -/

def empty : Node := .leaf (.value .null)

def isMerge : Node → Bool
  | .leaf .merge => true
  | _ => false

/-- The scalar that a key is. -/
def asKey : Node → Leaf
  | .leaf .equals => .value (.text "=")
  | .leaf l => l
  | _ => .flawed .malformed

/-- The entries of a mapping, or of several, of which the first one overrides the others. -/
def merged? : Node → Option (List (Leaf × Node))
  | .mapping es => some es
  | .list items => do
    let parts ← items.mapM fun
      | .mapping es => some es
      | _ => none
    return parts.reverse.flatten
  | _ => none

/-- The mapping of some entries, after the entries that it merges. -/
def ofEntries (es : List (Node × Node)) : Node :=
  let (merges, own) := es.partition fun e => e.1.isMerge
  match merges.mapM fun e => e.2.merged? with
  | some parts => .mapping (parts.flatten ++ own.map fun e => (e.1.asKey, e.2))
  | none => .unmerged

/-- A collection with its tag, which has to be the tag of its kind. -/
def tagged (kind : String) (tag : Option String) (n : Node) : Node :=
  if tag.all fun t => t == "!" || t == coreTag ++ kind then n
  else .leaf (.flawed .malformed)

/-- A scalar with its tag. Only what is written plainly can stand for anything but text, unless the
    tag says so. -/
def ofScalar (tag : Option String) (plain : Bool) (cs : List Char) : Node :=
  let fitting (p : Scalar → Bool) : Leaf :=
    match Leaf.ofPlain cs with
    | .value s => if p s then .value s else .flawed .malformed
    | .flawed f => .flawed f
    | _ => .flawed .malformed
  match tag with
  | none => .leaf (if plain then .ofPlain cs else .value (.text (String.ofList cs)))
  | some "!" => .leaf (.ofPlain cs)
  | some "tag:yaml.org,2002:str" => .leaf (.value (.text (String.ofList cs)))
  | some "tag:yaml.org,2002:null" => .leaf (.value .null)
  | some "tag:yaml.org,2002:bool" => .leaf (fitting fun | .bool _ => true | _ => false)
  | some "tag:yaml.org,2002:int" => .leaf (fitting fun | .int _ => true | _ => false)
  | some "tag:yaml.org,2002:float" => .leaf (fitting fun | .float _ => true | _ => false)
  | some "tag:yaml.org,2002:timestamp" =>
    .leaf (fitting fun | .date _ => true | .stamp _ => true | _ => false)
  | some _ => .leaf (.flawed .malformed)

/-! ### Values -/

/-- At every depth the first fault of either. -/
def overlay : List (Option Fault) → List (Option Fault) → List (Option Fault)
  | a :: as, b :: bs => (a.orElse fun _ => b) :: overlay as bs
  | as, [] => as
  | [], bs => bs

mutual

/-- The first fault at every depth. -/
def faults : Node → List (Option Fault)
  | .leaf l => [l.fault?]
  | .list items => none :: itemFaults items
  | .mapping entries => none :: entryFaults entries
  | .unmerged => [none, some .malformed]

def itemFaults : List Node → List (Option Fault)
  | [] => []
  | n :: rest => overlay n.faults (itemFaults rest)

def entryFaults : List (Leaf × Node) → List (Option Fault)
  | [] => []
  | (k, n) :: rest => overlay (overlay [k.fault?] n.faults) (entryFaults rest)

end

mutual

/-- The value, null in the places of faults. -/
def datum : Node → Datum
  | .leaf l => .scalar l.scalar
  | .list items => .list (itemData items)
  | .mapping entries => .mapping (entryData [] entries)
  | .unmerged => .null

def itemData : List Node → List Datum
  | [] => []
  | n :: rest => n.datum :: itemData rest

/-- The entries put into a mapping one after the other, so that the last of a key counts. -/
def entryData (found : List (Scalar × Datum)) : List (Leaf × Node) → List (Scalar × Datum)
  | [] => found
  | (k, n) :: rest => entryData (Datum.insert found k.scalar n.datum) rest

end

/-- The value, or the fault that counts. -/
def value (n : Node) : Except Fault Datum :=
  match n.faults.findSome? id with
  | some f => .error f
  | none => .ok n.datum

end Node

end FleetLabels.Yaml
