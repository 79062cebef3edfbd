import FleetLabels.Calendar.Date

/-!
    Moments: what a wall clock shows, together with its distance from UTC.

    A `Stamp` is a reading of calendar and clock that may or may not tell its offset; a `Moment`
    always has one. Two moments are the same instant when reading minus offset agree. Readings are
    counted in microseconds from the start of year 1.

    `Stamp.isoText` keeps the offset and shows microseconds and offset seconds only when there are
    any; `Moment.utcText` moves to UTC and drops the part of a second. -/

namespace FleetLabels.Calendar

/-- Microseconds of one day. -/
def dayLength : Int := 86400000000

structure Stamp where
  /-- microseconds from 0001-01-01T00:00:00 on the wall clock -/
  wall : Int
  /-- microseconds east of UTC, if told -/
  offset : Option Int
  deriving DecidableEq, Inhabited, Repr

structure Moment where
  /-- microseconds from 0001-01-01T00:00:00 on the wall clock -/
  wall : Int
  /-- microseconds east of UTC -/
  offset : Int
  deriving DecidableEq, Inhabited, Repr

/-- The time of a day. -/
structure Clock where
  hour : Nat
  minute : Nat
  second : Nat
  micro : Nat
  deriving DecidableEq, Inhabited, Repr

namespace Clock

/-- Microseconds from midnight. -/
def micros (c : Clock) : Nat := ((c.hour * 60 + c.minute) * 60 + c.second) * 1000000 + c.micro

def ofMicros (n : Nat) : Clock :=
  ⟨n / 3600000000, n / 60000000 % 60, n / 1000000 % 60, n % 1000000⟩

/-- What keeps numbers from being the time of a day. -/
inductive Flaw where
  | hour
  | minute
  | second
  deriving DecidableEq, Repr

/-- The first flaw of a would-be time, looking at hour, minute and second in turn. -/
def flaw? (c : Clock) : Option Flaw :=
  if 24 ≤ c.hour then some .hour
  else if 60 ≤ c.minute then some .minute
  else if 60 ≤ c.second then some .second
  else none

def isValid (c : Clock) : Bool := c.flaw?.isNone

end Clock

/-- The reading of a date and a time of day. -/
def wallOf (d : Date) (c : Clock) : Int := ((d.ordinal : Int) - 1) * dayLength + c.micros

/-- The date that a reading shows. -/
def dateOf (wall : Int) : Date := Date.ofOrdinal (wall / dayLength + 1).toNat

/-- The time of day that a reading shows. -/
def clockOf (wall : Int) : Clock := Clock.ofMicros (wall % dayLength).toNat

/-- A number in at least `k` digits. -/
def padded (k n : Nat) : String :=
  let ds := Nat.toDigits 10 n
  String.ofList (List.replicate (k - ds.length) '0' ++ ds)

def Date.text (d : Date) : String :=
  padded 4 d.year ++ "-" ++ padded 2 d.month ++ "-" ++ padded 2 d.day

/-- Hours, minutes and seconds, then six digits of a second when there is a part of one. -/
def Clock.text (c : Clock) : String :=
  padded 2 c.hour ++ ":" ++ padded 2 c.minute ++ ":" ++ padded 2 c.second ++
    (if c.micro == 0 then "" else "." ++ padded 6 c.micro)

/-- A signed offset in hours and minutes, with seconds and parts of one when there are any. -/
def offsetText (offset : Int) : String :=
  let c := Clock.ofMicros offset.natAbs
  (if offset < 0 then "-" else "+") ++
    (if c.second == 0 && c.micro == 0 then padded 2 c.hour ++ ":" ++ padded 2 c.minute else c.text)

/-- The reading with its offset, `sep` standing between date and time. -/
def Stamp.isoText (sep : String) (t : Stamp) : String :=
  (dateOf t.wall).text ++ sep ++ (clockOf t.wall).text ++ (t.offset.map offsetText).getD ""

/-- A reading without an offset is taken as UTC. -/
def Stamp.zoned (t : Stamp) : Moment := ⟨t.wall, t.offset.getD 0⟩

namespace Moment

/-- Microseconds from the start of year 1 in UTC. -/
def instant (t : Moment) : Int := t.wall - t.offset

def isoText (t : Moment) : String := Stamp.isoText "T" ⟨t.wall, some t.offset⟩

/-- The instant in UTC, floored to the second. -/
def utcText (t : Moment) : String :=
  let d := dateOf t.instant
  let c := clockOf t.instant
  toString d.year ++ "-" ++ padded 2 d.month ++ "-" ++ padded 2 d.day ++ "T" ++
    padded 2 c.hour ++ ":" ++ padded 2 c.minute ++ ":" ++ padded 2 c.second ++ "Z"

end Moment

end FleetLabels.Calendar
