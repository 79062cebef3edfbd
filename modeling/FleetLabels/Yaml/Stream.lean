import FleetLabels.Yaml.Fault

/-!
    Streams of YAML documents.

    A stream is read document by document. A document that is well written may still hold no value,
    and the text may break off after some documents; what comes before is there all the same. -/

namespace FleetLabels.Yaml

structure Stream where
  /-- the documents that are well written, with their values -/
  documents : List (Except Fault Datum)
  /-- whether these are all documents of the text -/
  complete : Bool

namespace Stream

def ofValues (ds : List Datum) : Stream := ⟨ds.map .ok, true⟩

/-- All documents one after the other, and then the end, which has to be the end of the text. -/
def items (s : Stream) : List (Except Fault Datum) :=
  s.documents ++ if s.complete then [] else [.error .malformed]

/-- The values of all documents. -/
def values (s : Stream) : Except Fault (List Datum) := s.items.mapM id

/-- The value of a stream of one document, null when it has none. -/
def single (s : Stream) : Except Fault Datum :=
  match s.items with
  | [] => .ok .null
  | [d] => d
  | _ => .error .malformed

end Stream

end FleetLabels.Yaml
