import FleetLabels.Manifest
import FleetLabels.Arbitration

/-!
    Engine settings.

    Settings say how many clusters are evaluated at once, which precedence the classifiers have,
    which kinds of resources there are besides the known ones, and how the work is logged. What they
    leave out has a default. -/

namespace FleetLabels

/-- Why a number of workers is refused. -/
inductive WorkersFault where
  | shape
  | tooFew (given : Datum)

def WorkersFault.tooFewMessage (given : Datum) : String :=
  "max_workers must be >= 1, got " ++ given.plain

/-- At least one worker is needed; truth values count as numbers. -/
def checkWorkers (d : Datum) : Except WorkersFault Unit :=
  let check (few : Bool) : Except WorkersFault Unit := if few then .error (.tooFew d) else .ok ()
  match d with
  | .scalar (.int n) => check (n < 1)
  | .scalar (.bool b) => check (!b)
  | .scalar (.float x) => check x.isBelowOne
  | _ => .error .shape

structure Settings where
  maxWorkers : Datum
  /-- the name of the precedence -/
  ordering : String
  resourceKinds : List Datum
  logLevel : Datum
  logFile : Datum

namespace Settings

/-- Why settings are refused. -/
inductive Fault where
  | shape
  | tooFewWorkers (given : Datum)
  | ordering (given : Datum)

def orderingMessage (given : Datum) : String :=
  "ordering must be 'creation' or 'name', got " ++ given.quoted

/-- The name of a precedence. -/
def orderingOf (d : Datum) : Except Fault String :=
  match d with
  | .scalar (.text s) => if (Precedence.ofName? s).isSome then .ok s else .error (.ordering d)
  | _ => .error (.ordering d)

/-- The settings of a document; one that says nothing holds the defaults. -/
def ofDatum (d : Datum) : Except Fault Settings := do
  let shaped {α : Type} (r : Reading α) : Except Fault α := r.mapError fun _ => .shape
  let root := if d.isGiven then d else .mapping []
  let engine ← shaped (Manifest.part "engine" root)
  let logging ← shaped (Manifest.part "logging" root)
  let workers ← shaped (Manifest.memberOr (.int 4) "max_workers" engine)
  let ordering ← shaped (Manifest.memberOr (.text "creation") "ordering" engine)
  let kinds ← shaped (do Manifest.items (← Manifest.member "resource_kinds" root))
  let level ← shaped (Manifest.memberOr (.text "INFO") "level" logging)
  let file ← shaped (Manifest.member "file" logging)
  (checkWorkers workers).mapError fun
    | .shape => .shape
    | .tooFew given => .tooFewWorkers given
  return ⟨workers, ← orderingOf ordering, kinds, level, file⟩

def precedence (s : Settings) : Precedence :=
  (Precedence.ofName? s.ordering).getD Precedence.byCreation

/-- The levels that log lines can have. -/
def logLevels : List String :=
  ["TRACE", "DEBUG", "INFO", "SUCCESS", "WARNING", "ERROR", "CRITICAL"]

/-- Why nothing can be logged. -/
inductive LogFault where
  | shape
  | unknownLevel (name : String)
  | negativeLevel (n : Int)

/-- What is said of a level by name or number that there is not. -/
def unknownLevelMessage (name : String) : String := "Level '" ++ name ++ "' does not exist"

def negativeLevelMessage (n : Int) : String :=
  "Invalid level value, it should be a positive integer, not: " ++ toString n

/-- Whether the work can be logged: the level is a known name or a number, and the file, if there is
    one, is named by a text. -/
def checkLogging (s : Settings) : Except LogFault Unit := do
  match s.logLevel with
  | .scalar (.text name) => unless logLevels.contains name do throw (.unknownLevel name)
  | .scalar (.int n) => if n < 0 then throw (.negativeLevel n)
  | .scalar (.bool _) => return ()
  | _ => throw .shape
  match s.logFile with
  | .scalar (.text _) => return ()
  | d => if d.isGiven then throw .shape

/-- Whether the work is logged to a file. -/
def hasLogFile (s : Settings) : Bool := s.logFile.isGiven

end Settings

end FleetLabels
