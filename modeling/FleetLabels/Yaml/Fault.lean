import FleetLabels.Datum.Text

/-!
    What keeps a YAML document from having a value. -/

namespace FleetLabels.Yaml

open Calendar

inductive Fault where
  /-- the text is not YAML, or has a key that cannot be one -/
  | malformed
  /-- an integer of a base has no digits -/
  | noDigits (base : Nat)
  | date (f : Date.Flaw)
  | clock (f : Clock.Flaw)
  /-- an offset of a day or more, in microseconds -/
  | offset (span : Int)
  deriving DecidableEq, Repr

/-- What is said of a value that is out of range. -/
def Fault.message? : Fault → Option String
  | .malformed => none
  | .noDigits base => some ("invalid literal for int() with base " ++ toString base ++ ": ''")
  | .date (.year y) => some ("year " ++ toString y ++ " is out of range")
  | .date .month => some "month must be in 1..12"
  | .date .day => some "day is out of range for month"
  | .clock .hour => some "hour must be in 0..23"
  | .clock .minute => some "minute must be in 0..59"
  | .clock .second => some "second must be in 0..59"
  | .offset span =>
    some ("offset must be a timedelta strictly between -timedelta(hours=24) and " ++
      "timedelta(hours=24), not " ++ spanSpelled span ++ ".")

end FleetLabels.Yaml
