import FleetLabels.Calendar.Reading
import FleetLabels.Text.Split
import FleetLabels.Yaml.Fault
import FleetLabels.Yaml.Written

/-!
    What plain scalars stand for.

    A plain scalar is a truth value, a number, null, a date or a time when it has the form of one,
    and text otherwise. Numbers may have underscores among their digits, integers may be written in
    base two, eight or sixteen, and both kinds of numbers in places of sixty, as `1:30:00`. A form
    that no value answers to, such as the thirtieth of February, is a fault.

    Two plain scalars have a meaning of their own as keys: `<<` merges another mapping, and `=` is
    the text `=`. -/

namespace FleetLabels.Yaml

open Calendar Decimal

/-- A scalar of a document, or what is wrong with it. -/
inductive Leaf where
  | value (s : Scalar)
  | flawed (f : Fault)
  /-- the key that merges another mapping -/
  | merge
  /-- the equals sign -/
  | equals
  deriving DecidableEq, Repr

/-- What is wrong with a scalar that stands for a value. -/
def Leaf.fault? : Leaf → Option Fault
  | .value _ => none
  | .flawed f => some f
  | .merge => some .malformed
  | .equals => some .malformed

/-- The scalar itself, null where there is none. -/
def Leaf.scalar : Leaf → Scalar
  | .value s => s
  | _ => .null

def Leaf.ofExcept : Except Fault Scalar → Leaf
  | .ok s => .value s
  | .error f => .flawed f

/-- The text that tags of the language itself begin with. -/
def coreTag : String := "tag:yaml.org,2002:"

namespace Plain

/-- The sign at the front, if there is one, and what follows it. -/
def takeSign : List Char → Bool × List Char
  | '-' :: cs => (true, cs)
  | '+' :: cs => (false, cs)
  | cs => (false, cs)

/-- Digits with underscores among them. -/
def isPlace (c : Char) : Bool := isDigit c || c == '_'

def startsWithDigit (cs : List Char) : Bool := cs.head?.any isDigit

/-- The number that digits spell in a base, underscores aside. -/
def numberIn (base : Nat) (cs : List Char) : Nat :=
  (cs.filterMap hexValue?).foldl (fun n d => n * base + d) 0

/-- A place of sixty after the first one: one digit, or two up to 59. -/
def isSixtieth : List Char → Bool
  | [d] => isDigit d
  | [t, d] => '0' ≤ t && t ≤ '5' && isDigit d
  | _ => false

/-- The places of a number in base sixty, two at least. -/
def sixties? (cs : List Char) : Option (List Nat) :=
  match Text.split ':' cs with
  | first :: place :: places =>
    if startsWithDigit first && first.all isPlace && (place :: places).all isSixtieth then
      some ((first :: place :: places).map (numberIn 10))
    else none
  | _ => none

def bool? (cs : List Char) : Option Bool :=
  let s := String.ofList cs
  if ["yes", "Yes", "YES", "true", "True", "TRUE", "on", "On", "ON"].contains s then some true
  else if ["no", "No", "NO", "false", "False", "FALSE", "off", "Off", "OFF"].contains s then
    some false
  else none

def isNull (cs : List Char) : Bool :=
  ["~", "null", "Null", "NULL", ""].contains (String.ofList cs)

/-- The power of ten at the end of a number, whose sign must be written. -/
def power? : List Char → Option Int
  | [] => some 0
  | e :: sign :: ds =>
    if (e == 'e' || e == 'E') && !ds.isEmpty && ds.all isDigit then
      if sign == '-' then some (-(numberOf ds : Int))
      else if sign == '+' then some (numberOf ds)
      else none
    else none
  | _ => none

/-- A number from its digits before the point and what follows the point. -/
def decimal? (negative : Bool) (whole rest : List Char) : Option Double :=
  let fraction := (rest.takeWhile isPlace).filter isDigit
  (power? (rest.dropWhile isPlace)).map fun e =>
    .ofDecimal negative (numberIn 10 (whole ++ fraction)) (e - fraction.length)

/-- A number in base sixty whose last place has a fraction. -/
def sixtyFloat (negative : Bool) (places : List Nat) (fraction : List Char) : Double :=
  let fraction := fraction.filter isDigit
  let last := Double.ofDecimal false
    (places.getLastD 0 * Nat.pow 10 fraction.length + numberOf fraction) (-(fraction.length : Int))
  let numbers := last.toFloat :: (places.dropLast.reverse.map fun n =>
    (Double.ofDecimal false n 0).toFloat)
  let sum := numbers.foldl (fun (s : Float × Nat) x => (s.1 + x * s.2.toFloat, s.2 * 60)) (0.0, 1)
  .ofFloat (if negative then -sum.1 else sum.1)

/-- A number with a point. -/
def float? (cs : List Char) : Option Double :=
  let (negative, body) := takeSign cs
  match Text.splitFirst? '.' body with
  | none => none
  | some ([], rest) =>
    if ["inf", "Inf", "INF"].contains (String.ofList rest) then some (.infinity negative)
    else if body.length != cs.length then none
    else if ["nan", "NaN", "NAN"].contains (String.ofList rest) then some .notANumber
    else if startsWithDigit rest then decimal? false [] rest
    else none
  | some (whole, rest) =>
    if startsWithDigit whole && whole.all isPlace then decimal? negative whole rest
    else
      match sixties? whole with
      | some places => if rest.all isPlace then some (sixtyFloat negative places rest) else none
      | none => none

/-- The size of an integer, or the fault that there are no digits in it. -/
def natural? : List Char → Option (Except Fault Nat)
  | '0' :: 'b' :: ds => based 2 (fun c => c == '0' || c == '1') ds
  | '0' :: 'x' :: ds => based 16 (fun c => (hexValue? c).isSome) ds
  | '0' :: ds =>
    if ds.all fun c => ('0' ≤ c && c ≤ '7') || c == '_' then some (.ok (numberIn 8 ds)) else none
  | cs =>
    if startsWithDigit cs && cs.all isPlace then some (.ok (numberIn 10 cs))
    else (sixties? cs).map fun places => .ok (places.foldl (fun n d => n * 60 + d) 0)
where
  based (base : Nat) (p : Char → Bool) (ds : List Char) : Option (Except Fault Nat) :=
    if ds.isEmpty || !ds.all fun c => p c || c == '_' then none
    else if ds.all (· == '_') then some (.error (.noDigits base))
    else some (.ok (numberIn base ds))

def int? (cs : List Char) : Option (Except Fault Int) :=
  let (negative, body) := takeSign cs
  (natural? body).map fun r => r.map fun n => if negative then -(n : Int) else n

/-- One digit or two. -/
def takeShort (cs : List Char) : Option (Nat × List Char) :=
  (takeNumber 2 cs).orElse fun _ => takeNumber 1 cs

/-- A character that has to come next, passed. -/
def passMark (mark : Char) : List Char → Option (List Char)
  | c :: cs => if c == mark then some cs else none
  | [] => none

/-- The offset at the end of a time, in microseconds, if it tells one. -/
def zone? (cs : List Char) : Option (Option Int) :=
  match cs.dropWhile fun c => c == ' ' || c == '\t' with
  | [] => if cs.isEmpty then some none else none
  | ['Z'] => some (some 0)
  | sign :: rest =>
    if sign == '-' || sign == '+' then do
      let (h, rest) ← takeShort rest
      let m ← if rest.isEmpty then some 0 else do
        let (m, rest) ← takeNumber 2 (← passMark ':' rest)
        if rest.isEmpty then some m else none
      let span : Int := (h * 60 + m) * 60000000
      return some (if sign == '-' then -span else span)
    else none

/-- The date at the front, and whether its month and day have two digits each. -/
def takeDate (cs : List Char) : Option (Date × Bool × List Char) := do
  let (y, rest) ← takeNumber 4 cs
  let (m, rest) ← takeShort (← passMark '-' rest)
  let (d, rest) ← takeShort (← passMark '-' rest)
  return (⟨y, m, d⟩, rest.length + 10 == cs.length, rest)

/-- The time of day at the front. -/
def takeClock (cs : List Char) : Option (Clock × List Char) := do
  let (h, rest) ← takeShort cs
  let (m, rest) ← takeNumber 2 (← passMark ':' rest)
  let (s, rest) ← takeNumber 2 (← passMark ':' rest)
  match rest with
  | '.' :: rest =>
    let ds := (rest.takeWhile isDigit).take 6
    return (⟨h, m, s, numberOf ds * Nat.pow 10 (6 - ds.length)⟩, rest.dropWhile isDigit)
  | rest => return (⟨h, m, s, 0⟩, rest)

/-- A stamp, unless one of its parts is out of range: the offset, the date and the time are looked
    at in turn. -/
def stamp (d : Date) (c : Clock) (offset : Option Int) : Except Fault Scalar := do
  if let some span := offset then
    unless span.natAbs < dayLength.natAbs do throw (.offset span)
  if let some f := d.flaw? then throw (.date f)
  if let some f := c.flaw? then throw (.clock f)
  return .stamp ⟨wallOf d c, offset⟩

/-- A date, or a date and a time with `T` or space between them. -/
def timestamp? (cs : List Char) : Option (Except Fault Scalar) := do
  let (d, full, rest) ← takeDate cs
  if rest.isEmpty then
    if !full then none
    else match d.flaw? with
      | some f => some (.error (.date f))
      | none => some (.ok (.date d))
  else
    let gap := rest.takeWhile fun c => c == ' ' || c == '\t'
    let rest ← if gap.isEmpty then (passMark 'T' rest).orElse fun _ => passMark 't' rest
      else some (rest.drop gap.length)
    let (c, rest) ← takeClock rest
    let offset ← zone? rest
    return stamp d c offset

end Plain

/-- What a plain scalar stands for. -/
def Leaf.ofPlain (cs : List Char) : Leaf :=
  if let some b := Plain.bool? cs then .value (.bool b)
  else if let some x := Plain.float? cs then .value (.float x)
  else if let some r := Plain.int? cs then .ofExcept (r.map .int)
  else if cs == ['<', '<'] then .merge
  else if Plain.isNull cs then .value .null
  else if let some r := Plain.timestamp? cs then .ofExcept r
  else if cs == ['='] then .equals
  else .value (.text (String.ofList cs))

example : Leaf.ofPlain "010".toList = .value (.int 8) := by decide
example : Leaf.ofPlain "-1:30".toList = .value (.int (-90)) := by decide
example : Leaf.ofPlain "off".toList = .value (.bool false) := by decide
example : Leaf.ofPlain "2024-02-30".toList = .flawed (.date .day) := by decide
example : Leaf.ofPlain "1e3".toList = .value (.text "1e3") := by decide

end FleetLabels.Yaml
