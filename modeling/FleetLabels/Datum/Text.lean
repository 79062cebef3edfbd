import FleetLabels.Datum.Basic
import FleetLabels.Text.Quoted

/-!
    The text of a value.

    A text is shown as it is when it stands alone and between quotes inside a list, a mapping or a
    message; every other scalar is shown the same way in both places, dates and stamps excepted,
    which are spelled out as the call that makes them when they are inside. -/

namespace FleetLabels

open Calendar

/-- The length of time, as the offset of a stamp is spelled out. -/
def spanSpelled (offset : Int) : String :=
  let day : Int := 86400000000
  let days := offset / day
  let rest := (offset % day).toNat
  let part (name : String) (n : Int) : List String :=
    if n == 0 then [] else [name ++ "=" ++ toString n]
  let parts := part "days" days ++ part "seconds" (rest / 1000000 : Nat) ++
    part "microseconds" (rest % 1000000 : Nat)
  "datetime.timedelta(" ++ (if parts.isEmpty then "0" else ", ".intercalate parts) ++ ")"

def dateSpelled (d : Date) : String :=
  "datetime.date(" ++ ", ".intercalate [toString d.year, toString d.month, toString d.day] ++ ")"

/-- Seconds and microseconds are left out from the end when they are zero. -/
def stampSpelled (t : Stamp) : String :=
  let d := dateOf t.wall
  let c := clockOf t.wall
  let tail := if c.micro != 0 then [c.second, c.micro] else if c.second != 0 then [c.second] else []
  let zone := match t.offset with
    | none => []
    | some 0 => ["tzinfo=datetime.timezone.utc"]
    | some o => ["tzinfo=datetime.timezone(" ++ spanSpelled o ++ ")"]
  "datetime.datetime(" ++
    ", ".intercalate (([d.year, d.month, d.day, c.hour, c.minute] ++ tail).map toString ++ zone) ++
    ")"

/-- A scalar inside a message. -/
def Scalar.quoted : Scalar → String
  | .null => "None"
  | .bool b => if b then "True" else "False"
  | .int n => toString n
  | .float x => x.text
  | .text s => Text.quote s
  | .date d => dateSpelled d
  | .stamp t => stampSpelled t

/-- A scalar that stands alone. -/
def Scalar.plain : Scalar → String
  | .text s => s
  | .date d => d.text
  | .stamp t => t.isoText " "
  | s => s.quoted

mutual

/-- A value inside a message. -/
def Datum.quoted : Datum → String
  | .scalar s => s.quoted
  | .list items => "[" ++ ", ".intercalate (quotedItems items) ++ "]"
  | .mapping entries => "\x7b" ++ ", ".intercalate (quotedEntries entries) ++ "\x7d"

def quotedItems : List Datum → List String
  | [] => []
  | d :: rest => d.quoted :: quotedItems rest

def quotedEntries : List (Scalar × Datum) → List String
  | [] => []
  | (k, d) :: rest => (k.quoted ++ ": " ++ d.quoted) :: quotedEntries rest

end

/-- A value that stands alone. -/
def Datum.plain : Datum → String
  | .scalar s => s.plain
  | d => d.quoted

/-- The kind of a value, as messages call it. -/
def Datum.kindName : Datum → String
  | .scalar .null => "NoneType"
  | .scalar (.bool _) => "bool"
  | .scalar (.int _) => "int"
  | .scalar (.float _) => "float"
  | .scalar (.text _) => "str"
  | .scalar (.date _) => "date"
  | .scalar (.stamp _) => "datetime"
  | .list _ => "list"
  | .mapping _ => "dict"

end FleetLabels
