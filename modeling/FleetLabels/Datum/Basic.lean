import FleetLabels.Calendar.Moment
import FleetLabels.Decimal.Shortest

/-!
    Values as they come out of manifests and scripts.

    A value is a scalar, a list or a mapping. Mappings keep the order of their entries; their keys
    are scalars, and two keys are the same when they are equal as numbers or equal outright, so
    `yes` and `1` collide and `1` and `"1"` do not. `Datum.get?` looks a text key up. -/

namespace FleetLabels

open Calendar Decimal

inductive Scalar where
  | null
  | bool (b : Bool)
  | int (n : Int)
  | float (x : Double)
  | text (s : String)
  | date (d : Date)
  | stamp (t : Stamp)
  deriving DecidableEq, Inhabited, Repr

inductive Datum where
  | scalar (s : Scalar)
  | list (items : List Datum)
  | mapping (entries : List (Scalar × Datum))
  deriving Inhabited, Repr

namespace Scalar

/-- The integer that a boolean or a number stands for. -/
def integer? : Scalar → Option Int
  | .bool b => some (if b then 1 else 0)
  | .int n => some n
  | .float x => x.integer?
  | _ => none

/-- Whether two scalars are one key of a mapping. -/
def sameKey (a b : Scalar) : Bool :=
  match a.integer?, b.integer? with
  | some m, some n => m == n
  | _, _ => a == b

/-- Whether a scalar says something: null, false, zero and the empty text do not. -/
def isGiven : Scalar → Bool
  | .null => false
  | .bool b => b
  | .int n => n != 0
  | .float x => !x.isZero
  | .text s => !s.isEmpty
  | .date _ => true
  | .stamp _ => true

end Scalar

namespace Datum

abbrev null : Datum := .scalar .null
abbrev bool (b : Bool) : Datum := .scalar (.bool b)
abbrev int (n : Int) : Datum := .scalar (.int n)
abbrev text (s : String) : Datum := .scalar (.text s)

/-- Whether a value says something: the scalars that do not, and the empty list and mapping, stand
    for a missing value. -/
def isGiven : Datum → Bool
  | .scalar s => s.isGiven
  | .list items => !items.isEmpty
  | .mapping entries => !entries.isEmpty

/-- The entry of a text key. -/
def lookup (key : String) (entries : List (Scalar × Datum)) : Option Datum :=
  (entries.find? (fun e => e.1 == .text key)).map (·.2)

/-- The value at a text key of a mapping; nothing elsewhere. -/
def get? (key : String) : Datum → Option Datum
  | .mapping entries => lookup key entries
  | _ => none

/-- The value at the end of a path of text keys, null where the path leaves the mappings. -/
def walk : List String → Datum → Datum
  | [], d => d
  | key :: rest, d =>
    match d.get? key with
    | some v => walk rest v
    | none => .null

/-- What a value yields when gone through: the items of a list, the keys of a mapping, the
    characters of a text. -/
def items? : Datum → Option (List Datum)
  | .list items => some items
  | .mapping entries => some (entries.map fun e => .scalar e.1)
  | .scalar (.text s) => some (s.toList.map fun c => .text (String.singleton c))
  | _ => none

/-- The entries with one more; a key that is there already keeps its place and spelling. -/
def insert (entries : List (Scalar × Datum)) (key : Scalar) (value : Datum) :
    List (Scalar × Datum) :=
  if entries.any (fun e => e.1.sameKey key) then
    entries.map fun e => if e.1.sameKey key then (e.1, value) else e
  else entries ++ [(key, value)]

end Datum

end FleetLabels
