import FleetLabels.Yaml.Node.Reading
import FleetLabels.Yaml.Stream

/-!
    YAML text.

    `read` gives the documents of a text with their values. The first document may start without a
    mark, every other one starts with `---`, before which there may be directives, and any one may
    end with `...`. Reading stops where the text is no YAML; what comes before is there. -/

namespace FleetLabels.Yaml

/-- The tokens behind directives, of which only one may tell the version of the language. -/
def passDirectives (versions : Nat) : List Token → Option (List Token)
  | .directive version :: rest =>
    let versions := if version then versions + 1 else versions
    if 1 < versions then none else passDirectives versions rest
  | ts => some ts

/-- The tokens that come after a document that is empty. -/
def endsDocument : Token → Bool
  | .directive _ => true
  | .documentStart => true
  | .documentEnd => true
  | .streamEnd => true
  | _ => false

/-- The node of a document behind its mark. -/
def readContent (ts : List Token) : Option (Node × List Token) :=
  if ts.head?.any endsDocument then some (.empty, ts) else Node.read? ts

/-- The next document, and the tokens behind it, unless the text ends before it. -/
def nextDocument (first : Bool) (ts : List Token) : Option (Option (Node × List Token)) :=
  if first && !ts.head?.any (fun t => endsDocument t && t != .documentEnd) then
    (Node.read? ts).map some
  else
    let ts := if first then ts else ts.dropWhile (· == .documentEnd)
    if ts.head? == some .streamEnd then some none
    else do
      match ← passDirectives 0 ts with
      | .documentStart :: rest => (readContent rest).map some
      | _ => none

/-- The documents from here on. A document is there when something comes after it. -/
def documentsOf : Nat → Bool → List Token → Stream
  | 0, _, _ => ⟨[], false⟩
  | fuel + 1, first, ts =>
    match nextDocument first ts with
    | none => ⟨[], false⟩
    | some none => ⟨[], true⟩
    | some (some (n, rest)) =>
      match rest with
      | [] => ⟨[], false⟩
      | t :: after =>
        let rest := if t == .documentEnd then after else rest
        let later := documentsOf fuel false rest
        ⟨n.value :: later.documents, later.complete⟩

/-- The documents of a text. -/
def read (s : String) : Stream :=
  let ts := Token.scan s.toList
  documentsOf (ts.length + 1) true ts

end FleetLabels.Yaml
