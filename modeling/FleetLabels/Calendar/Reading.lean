import FleetLabels.Calendar.Moment
import FleetLabels.Text.Blank

/-!
    Reading dates and times in the forms of ISO 8601.

    A date is `YYYY-MM-DD` or `YYYYMMDD`, or a week date `YYYY-Www[-D]` or `YYYYWww[D]`. One
    character of any kind separates it from the time, which is `HH[:MM[:SS[.fff]]]` or the same
    without colons. An offset follows its sign in the same form, and is shorter than a day.

    Where two forms overlap the length decides: `separatorAt` gives the place of the separator. One
    stray ASCII character is passed over between the last time field and the sign of the offset. -/

namespace FleetLabels.Calendar

def isDigit (c : Char) : Bool := '0' ≤ c && c ≤ '9'

def digitValue (c : Char) : Nat := c.toNat - 48

/-- The number that digits spell. -/
def numberOf (ds : List Char) : Nat := ds.foldl (fun n c => n * 10 + digitValue c) 0

/-- Exactly `k` digits at the front. -/
def takeNumber (k : Nat) (cs : List Char) : Option (Nat × List Char) :=
  let ds := cs.take k
  if ds.length == k && ds.all isDigit then some (numberOf ds, cs.drop k) else none

/-- The place at which a separator between date and time stands, if there is one. -/
def separatorAt (cs : List Char) : Nat :=
  if cs.length == 7 then 7
  else if cs[4]? == some '-' then
    if cs[5]? == some 'W' then
      if cs[8]? == some '-' && !(cs[10]?.any isDigit) then 10 else 8
    else 10
  else if cs[4]? == some 'W' then
    let pos := 7 + ((cs.drop 7).takeWhile isDigit).length
    if pos < 9 then pos else if pos % 2 == 0 then 7 else 8
  else 8

/-- A week date that ends before place `sep`, after its year and the dash if there is one. -/
def readWeek (y : Nat) (dashed : Bool) (sep : Nat) (cs : List Char) : Option Date := do
  let (w, rest) ← takeNumber 2 cs
  if (if dashed then 8 else 7) < sep then
    let rest ← if dashed then (if rest.head? == some '-' then some rest.tail else none)
      else some rest
    let (d, _) ← takeNumber 1 rest
    Date.ofWeek? y w d
  else Date.ofWeek? y w 1

/-- The date before place `sep`. -/
def readDate (sep : Nat) (cs : List Char) : Option Date := do
  let (y, rest) ← takeNumber 4 cs
  let dashed := rest.head? == some '-'
  let rest := if dashed then rest.tail else rest
  if rest.head? == some 'W' then readWeek y dashed sep rest.tail
  else
    let (m, rest) ← takeNumber 2 rest
    let rest ← if dashed then (if rest.head? == some '-' then some rest.tail else none)
      else some rest
    let (d, _) ← takeNumber 2 rest
    let date : Date := ⟨y, m, d⟩
    if sep == (if dashed then 10 else 8) && date.isValid then some date else none

/-- The part of a second: the first six characters are digits, or all of them when there are
    fewer; further digits are dropped. The rest is left over. -/
def readFraction (cs : List Char) : Option (Nat × List Char) := do
  let k := min 6 cs.length
  let (n, rest) ← takeNumber k cs
  some (n * Nat.pow 10 (6 - k), rest.dropWhile isDigit)

/-- A clock reading, and whether a stray character follows it. Fields are read two digits at a
    time; the first separator tells whether colons stand between them. -/
def readFields (cs : List Char) : Option (Clock × Bool) :=
  go 3 true [] cs
where
  finish (fields : List Nat) (micro : Nat) : Clock :=
    ⟨fields.getD 0 0, fields.getD 1 0, fields.getD 2 0, micro⟩
  fraction (fields : List Nat) (cs : List Char) : Option (Clock × Bool) := do
    let (us, rest) ← readFraction cs
    some (finish fields us, rest.head?.any (· != '\x00'))
  go : Nat → Bool → List Nat → List Char → Option (Clock × Bool)
    | 0, _, fields, cs => fraction fields cs
    | left + 1, colons, fields, cs => do
      let (n, rest) ← takeNumber 2 cs
      let fields := fields ++ [n]
      match rest with
      | [] => some (finish fields 0, false)
      | c :: rest' =>
        let colons := if left == 2 then c == ':' else colons
        if rest'.isEmpty && c.toNat < 128 then some (finish fields 0, c != '\x00')
        else if colons && c == ':' then go left colons fields rest'
        else if c == '.' || c == ',' then fraction fields rest'
        else if !colons then go left colons fields (c :: rest')
        else none

/-- A signed offset in microseconds. An offset of no whole second is UTC. -/
def readOffset (negative : Bool) (cs : List Char) : Option Int := do
  let (c, stray) ← readFields cs
  let whole := (c.hour * 60 + c.minute) * 60 + c.second
  let size := if whole == 0 then 0 else whole * 1000000 + c.micro
  if stray || 86400000000 ≤ size then none
  else some (if negative then -(size : Int) else (size : Int))

/-- A time of day with its offset, if it has one. -/
def readTime (cs : List Char) : Option (Clock × Option Int) := do
  let isMark := fun c => c == '+' || c == '-' || c == 'Z'
  let (clock, stray) ← readFields (cs.takeWhile (fun c => !isMark c))
  if !clock.isValid then none
  else match cs.dropWhile (fun c => !isMark c) with
    | [] => if stray then none else some (clock, none)
    | 'Z' :: rest => if rest.head?.any (· != '\x00') then none else some (clock, some 0)
    | mark :: rest => do
      let offset ← readOffset (mark == '-') rest
      some (clock, some offset)

/-- A date, alone or with a time. -/
def Stamp.read? (cs : List Char) : Option Stamp := do
  let sep := separatorAt cs
  let date ← readDate sep cs
  match cs.drop sep with
  | [] => some ⟨wallOf date ⟨0, 0, 0, 0⟩, none⟩
  | _ :: rest => do
    let (clock, offset) ← readTime rest
    some ⟨wallOf date clock, offset⟩

/-- A final `Z` stands for the offset zero. -/
def withoutZulu (cs : List Char) : List Char :=
  if cs.getLast? == some 'Z' then cs.dropLast ++ "+00:00".toList else cs

/-- The moment that a text names, blanks around it aside; without an offset it is in UTC. -/
def Moment.read? (s : String) : Option Moment :=
  (Stamp.read? (withoutZulu (Text.trim s.toList))).map Stamp.zoned

end FleetLabels.Calendar
