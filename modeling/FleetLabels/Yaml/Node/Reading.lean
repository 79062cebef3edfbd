import FleetLabels.Yaml.Node
import FleetLabels.Yaml.Token

/-!
    Reading nodes from tokens.

    An anchor names a node for the rest of its document, and an alias stands for it.

    The readers run down a fuel that `Node.read?` takes from the number of tokens: a call passes a
    token or leads to one that does. Where a token is needed and there is none, nothing is read. -/

namespace FleetLabels.Yaml.Node

/-- The tokens that are left, and the nodes that have names. -/
structure Reader where
  tokens : List Token
  anchors : List (List Char × Node)

namespace Reader

/-- The anchor and the tag before a node, in either order. -/
def properties (r : Reader) : Option (List Char) × Option String × Reader :=
  match r.tokens with
  | .anchor a :: .tag t :: rest => (some a, some t, { r with tokens := rest })
  | .tag t :: .anchor a :: rest => (some a, some t, { r with tokens := rest })
  | .anchor a :: rest => (some a, none, { r with tokens := rest })
  | .tag t :: rest => (none, some t, { r with tokens := rest })
  | _ => (none, none, r)

/-- A node gets its name, which must be new. -/
def name (anchor : Option (List Char)) (n : Node) (r : Reader) : Option (Node × Reader) :=
  match anchor with
  | none => some (n, r)
  | some a =>
    if (r.anchors.lookup a).isSome then none
    else some (n, { r with anchors := (a, n) :: r.anchors })

/-- After an item of a flow collection comes a comma, which is passed, or the end. -/
def endItem (close : Token) (r : Reader) : Option Reader :=
  match r.tokens with
  | t :: rest =>
    if t == .flowEntry then some { r with tokens := rest }
    else if t == close then some r
    else none
  | [] => none

end Reader

/-- Where a node stands. A list in a block mapping needs no indentation of its own, and flow
    collections hold no blocks. -/
inductive Place where
  | block
  | blockMapping
  | flow
  deriving DecidableEq

/-- The tokens before which a part of a block mapping is left out. -/
def blockMappingEnds : List Token := [.key, .value, .blockEnd]

mutual

def readNode (p : Place) : Nat → Reader → Option (Node × Reader)
  | 0, _ => none
  | fuel + 1, r =>
    match r.tokens with
    | .alias a :: rest => (r.anchors.lookup a).map fun n => (n, { r with tokens := rest })
    | _ => do
      let (anchor, tag, r) := r.properties
      let (n, r) ← readContent p tag (anchor.isSome || tag.isSome) fuel r
      r.name anchor n

/-- A node behind its anchor and its tag; a node that has one of them may be empty. -/
def readContent (p : Place) (tag : Option String) (mayBeEmpty : Bool) :
    Nat → Reader → Option (Node × Reader)
  | 0, _ => none
  | fuel + 1, r =>
    let rest : Reader := { r with tokens := r.tokens.tail }
    let list (x : Option (List Node × Reader)) := x.map fun x => (tagged "seq" tag (.list x.1), x.2)
    let mapping (x : Option (List (Node × Node) × Reader)) :=
      x.map fun x => (tagged "map" tag (ofEntries x.1), x.2)
    let other := if mayBeEmpty then some (ofScalar tag true [], r) else none
    match r.tokens with
    | [] => none
    | .scalar cs plain :: _ => some (ofScalar tag plain cs, rest)
    | .flowSequence :: _ => list (readFlowItems fuel rest)
    | .flowMapping :: _ => mapping (readFlowEntries fuel rest)
    | .blockEntry :: _ => if p == .blockMapping then list (readIndentless fuel r) else other
    | .blockSequence :: _ => if p == .flow then other else list (readItems fuel rest)
    | .blockMapping :: _ => if p == .flow then other else mapping (readEntries fuel rest)
    | _ => other

/-- A node, or the empty one before some tokens. -/
def readUnless (ends : List Token) (p : Place) : Nat → Reader → Option (Node × Reader)
  | 0, _ => none
  | fuel + 1, r =>
    match r.tokens with
    | [] => none
    | t :: _ => if ends.contains t then some (empty, r) else readNode p fuel r

/-- What a key maps to: the node behind the mark for it, or the empty one. -/
def readMapped (ends : List Token) (p : Place) : Nat → Reader → Option (Node × Reader)
  | 0, _ => none
  | fuel + 1, r =>
    match r.tokens with
    | [] => none
    | .value :: rest => readUnless ends p fuel { r with tokens := rest }
    | _ => some (empty, r)

/-- The items of a block list up to its end. -/
def readItems : Nat → Reader → Option (List Node × Reader)
  | 0, _ => none
  | fuel + 1, r =>
    match r.tokens with
    | .blockEntry :: rest => do
      let (n, r) ← readUnless [.blockEntry, .blockEnd] .block fuel { r with tokens := rest }
      let (ns, r) ← readItems fuel r
      return (n :: ns, r)
    | .blockEnd :: rest => some ([], { r with tokens := rest })
    | _ => none

/-- The items of a list that is not indented further than the mapping that holds it. -/
def readIndentless : Nat → Reader → Option (List Node × Reader)
  | 0, _ => none
  | fuel + 1, r =>
    match r.tokens with
    | .blockEntry :: rest => do
      let ends := .blockEntry :: blockMappingEnds
      let (n, r) ← readUnless ends .block fuel { r with tokens := rest }
      let (ns, r) ← readIndentless fuel r
      return (n :: ns, r)
    | [] => none
    | _ => some ([], r)

/-- The entries of a block mapping up to its end. -/
def readEntries : Nat → Reader → Option (List (Node × Node) × Reader)
  | 0, _ => none
  | fuel + 1, r =>
    match r.tokens with
    | .key :: rest => do
      let (k, r) ← readUnless blockMappingEnds .blockMapping fuel { r with tokens := rest }
      let (n, r) ← readMapped blockMappingEnds .blockMapping fuel r
      let (es, r) ← readEntries fuel r
      return ((k, n) :: es, r)
    | .blockEnd :: rest => some ([], { r with tokens := rest })
    | _ => none

/-- The items of a flow list up to its end; a key among them makes a mapping of one entry. -/
def readFlowItems : Nat → Reader → Option (List Node × Reader)
  | 0, _ => none
  | fuel + 1, r =>
    match r.tokens with
    | .flowSequenceEnd :: rest => some ([], { r with tokens := rest })
    | tokens => do
      let (n, r) ← if tokens.head? == some .key then do
          let r := { r with tokens := tokens.tail }
          let (k, r) ← readUnless [.value, .flowEntry, .flowSequenceEnd] .flow fuel r
          let (n, r) ← readMapped [.flowEntry, .flowSequenceEnd] .flow fuel r
          pure (ofEntries [(k, n)], r)
        else readNode .flow fuel r
      let (ns, r) ← readFlowItems fuel (← r.endItem .flowSequenceEnd)
      return (n :: ns, r)

/-- The entries of a flow mapping up to its end; a node without a mark is a key of its own. -/
def readFlowEntries : Nat → Reader → Option (List (Node × Node) × Reader)
  | 0, _ => none
  | fuel + 1, r =>
    match r.tokens with
    | .flowMappingEnd :: rest => some ([], { r with tokens := rest })
    | tokens => do
      let (k, n, r) ← if tokens.head? == some .key then do
          let r := { r with tokens := tokens.tail }
          let (k, r) ← readUnless [.value, .flowEntry, .flowMappingEnd] .flow fuel r
          let (n, r) ← readMapped [.flowEntry, .flowMappingEnd] .flow fuel r
          pure (k, n, r)
        else do
          let (k, r) ← readNode .flow fuel r
          pure (k, empty, r)
      let (es, r) ← readFlowEntries fuel (← r.endItem .flowMappingEnd)
      return ((k, n) :: es, r)

end

/-- The node at the front of some tokens, and the tokens behind it. -/
def read? (ts : List Token) : Option (Node × List Token) :=
  (readNode .block (3 * ts.length + 3) ⟨ts, []⟩).map fun x => (x.1, x.2.tokens)

end FleetLabels.Yaml.Node
