import FleetLabels.Calendar.Reading
import FleetLabels.Datum.Text
import FleetLabels.Text.Split

/-!
    Versions of a cluster's platform.

    A version is read from text such as `v1.27.3-rc.1+build`: whatever stands before the first digit
    is passed over, one to three numbers follow, of which missing ones are zero, and a pre-release
    and a build part have to be well formed and count for nothing. Versions are ordered number by
    number. -/

namespace FleetLabels

open Calendar

structure Version where
  major : Nat
  minor : Nat
  patch : Nat
  deriving DecidableEq, Inhabited, Repr

namespace Version

/-- A number without a superfluous zero at its front, and what follows it. -/
def numeral (cs : List Char) : Option (Nat × List Char) :=
  match cs.takeWhile isDigit with
  | [] => none
  | '0' :: _ :: _ => none
  | ds => some (numberOf ds, cs.dropWhile isDigit)

/-- A number and up to `more` others, each after a dot. -/
def numerals : Nat → List Char → Option (List Nat × List Char)
  | 0, cs => (numeral cs).map fun p => ([p.1], p.2)
  | more + 1, cs =>
    match numeral cs with
    | none => none
    | some (n, '.' :: rest) => (numerals more rest).map fun p => (n :: p.1, p.2)
    | some (n, rest) => some ([n], rest)

/-- The characters of the identifiers in the parts after the numbers. -/
def isIdentifierChar (c : Char) : Bool :=
  isDigit c || ('a' ≤ c && c ≤ 'z') || ('A' ≤ c && c ≤ 'Z') || c == '-'

def isBuildIdentifier (cs : List Char) : Bool := !cs.isEmpty && cs.all isIdentifierChar

/-- A pre-release identifier that is a number has no superfluous zero. -/
def isPreIdentifier (cs : List Char) : Bool :=
  isBuildIdentifier cs && !(cs.all isDigit && cs.length > 1 && cs.head? == some '0')

/-- Whether identifiers with dots between them make up the text. -/
def areIdentifiers (ok : List Char → Bool) (cs : List Char) : Bool := (Text.split '.' cs).all ok

/-- Whether the text after the numbers is a pre-release part, a build part, both or nothing. -/
def isSuffix : List Char → Bool
  | [] => true
  | '+' :: build => areIdentifiers isBuildIdentifier build
  | '-' :: rest =>
    match Text.splitFirst? '+' rest with
    | none => areIdentifiers isPreIdentifier rest
    | some (pre, build) =>
      areIdentifiers isPreIdentifier pre && areIdentifiers isBuildIdentifier build
  | _ => false

/-- The version that a text names. -/
def read? (s : String) : Option Version :=
  match numerals 2 ((Text.trim s.toList).dropWhile fun c => !isDigit c) with
  | none => none
  | some (ns, rest) =>
    if isSuffix rest then some ⟨ns.getD 0 0, ns.getD 1 0, ns.getD 2 0⟩ else none

def compare (a b : Version) : Ordering :=
  (Ord.compare a.major b.major).then
    ((Ord.compare a.minor b.minor).then (Ord.compare a.patch b.patch))

/-- A value that names no version. -/
structure Unreadable where
  given : Datum
  deriving Repr

/-- A value that is no text is shown as the text of its text. -/
def Unreadable.message (u : Unreadable) : String :=
  "cannot parse version " ++ Text.quote (match u.given with
    | .scalar (.text s) => s
    | d => d.quoted)

/-- The version that a value names; only texts name one. -/
def ofDatum (d : Datum) : Except Unreadable Version :=
  match d with
  | .scalar (.text s) => match read? s with
    | some v => .ok v
    | none => .error ⟨d⟩
  | _ => .error ⟨d⟩

end Version

end FleetLabels
