import FleetLabels.Json.Basic
import FleetLabels.Manifest
import FleetLabels.Version

/-!
    Requirements on the version of a cluster.

    A requirement compares the version that a cluster reports with one that it states. When one of
    the two cannot be read the requirement is not met, whatever the comparison. -/

namespace FleetLabels

/-- The ways to compare a cluster's version with the one required. -/
inductive Comparison where
  | equal
  | notEqual
  | greater
  | less
  | atLeast
  | atMost
  deriving DecidableEq, Inhabited, Repr

namespace Comparison

def name : Comparison → String
  | .equal => "Equal"
  | .notEqual => "NotEqual"
  | .greater => "GreaterThan"
  | .less => "LessThan"
  | .atLeast => "GreaterThanOrEqualTo"
  | .atMost => "LessThanOrEqualTo"

def choices : List (String × Comparison) :=
  [.equal, .notEqual, .greater, .less, .atLeast, .atMost].map fun c => (c.name, c)

def ofName? (s : String) : Option Comparison := (choices.find? fun c => c.1 == s).map Prod.snd

/-- Whether the comparison accepts how the cluster's version stands to the one required. -/
def accepts : Comparison → Ordering → Bool
  | .equal, o => o == .eq
  | .notEqual, o => o != .eq
  | .greater, o => o == .gt
  | .less, o => o == .lt
  | .atLeast, o => o != .lt
  | .atMost, o => o != .gt

/-- Whether two values compare so; the cluster's is read first. -/
def holds (c : Comparison) (cluster required : Datum) : Except Version.Unreadable Bool := do
  let current ← Version.ofDatum cluster
  let target ← Version.ofDatum required
  return c.accepts (current.compare target)

end Comparison

structure Requirement where
  version : String
  comparison : Comparison
  deriving DecidableEq, Inhabited, Repr

/-- How a requirement fares on a cluster. -/
structure RequirementResult where
  satisfied : Bool
  /-- what the cluster reports as its version -/
  version : Datum
  failure : Option String
  deriving Repr

namespace Requirement

/-- The comparison of a requirement, once the version it states is found to say something. -/
def comparisonOf (version comparison : Datum) : Reading Comparison :=
  if version.isGiven then Manifest.choice "comparison" Comparison.choices comparison
  else .error (.invalid .requirementVersion)

/-- The stated version is taken as text, whatever value it is. -/
def ofManifest (d : Datum) : Reading Requirement := do
  let version := match ← Manifest.member? "version" d with
    | some v => v.plain
    | none => ""
  let comparison ← comparisonOf (.text version) (← Manifest.memberOr (.text "") "comparison" d)
  return ⟨version, comparison⟩

def toJson (r : Requirement) : Json :=
  .object [("version", .text r.version), ("comparison", .text r.comparison.name)]

/-- How a comparison fares between what a cluster reports and what is required. -/
def resultOf (c : Comparison) (cluster required : Datum) : RequirementResult :=
  match c.holds cluster required with
  | .ok b => ⟨b, cluster, none⟩
  | .error u => ⟨false, cluster, some u.message⟩

def evaluate (r : Requirement) (cluster : Datum) : RequirementResult :=
  resultOf r.comparison cluster (.text r.version)

end Requirement

end FleetLabels
