import FleetLabels.Classifier
import FleetLabels.Cluster
import FleetLabels.Evaluation

/-!
    Classifying a cluster by a set of classifiers.

    The classifiers of one run share a `View` of the cluster: a listing that succeeded is kept for
    every later constraint with its scope, and the version is read at most once, whether that
    succeeds or not. The view also counts what was asked of the cluster.

    A classifier matches when all its constraints and requirements are met. Its failures tell what
    kept them from being evaluated, and not what was plainly not met. -/

namespace FleetLabels

/-- What can be asked of one cluster. A listing is told how many were asked for before it, since
    asking again may be answered differently. -/
structure Source where
  list : Nat → Scope → Except String (List Listed)
  /-- reading the version, where there is something to read it from -/
  version : Option (Except String Datum)

structure View where
  /-- the listings that succeeded -/
  listings : Table Scope (List Listed)
  /-- the version or what kept it from being read, once it was asked for -/
  version : Option (Except String Datum)
  /-- the listings asked for, oldest first -/
  listCalls : List Scope
  /-- how often the version was asked for -/
  versionCalls : Nat
  /-- the script runs, oldest first -/
  scriptCalls : List ScriptCall

namespace View

def fresh : View := ⟨Table.empty, none, [], 0, []⟩

/-- The listing of a scope, kept from before or asked for now. -/
def list (src : Source) (s : Scope) (v : View) : Except String (List Listed) × View :=
  match v.listings.get? s with
  | some items => (.ok items, v)
  | none =>
    let answer := src.list v.listCalls.length s
    let asked := { v with listCalls := v.listCalls ++ [s] }
    match answer with
    | .ok items => (.ok items, { asked with listings := v.listings.set s items })
    | .error text => (.error text, asked)

/-- What reading the version of a cluster gives. -/
def readVersion (src : Source) (cluster : Cluster) : Except String Datum :=
  match src.version with
  | none => .error "no cluster version provider configured"
  | some answer =>
    answer.mapError fun text => "reading version of " ++ cluster.key ++ " failed: " ++ text

/-- The version, kept from before or asked for now. -/
def versionOf (src : Source) (cluster : Cluster) (v : View) : Except String Datum × View :=
  match v.version with
  | some answer => (answer, v)
  | none =>
    let answer := readVersion src cluster
    (answer, { v with
      version := some answer
      versionCalls := v.versionCalls + if src.version.isSome then 1 else 0 })

end View

/-- A step of an evaluation: it may break off, and leaves a view behind in either case. -/
abbrev Viewing (α : Type) := View → Except Abrupt α × View

/-- A step for each item, up to the first that breaks off. -/
def Viewing.each {α β : Type} (f : α → Viewing β) : List α → Viewing (List β)
  | [], v => (.ok [], v)
  | a :: rest, v =>
    match f a v with
    | (.error e, v) => (.error e, v)
    | (.ok b, v) =>
      let (bs, v) := each f rest v
      (bs.map (b :: ·), v)

/-- The verdict of one classifier on one cluster. -/
structure Classification where
  classifier : Classifier
  cluster : Cluster
  matched : Bool
  constraints : List ConstraintResult
  requirements : List RequirementResult
  failures : List String
  deriving Repr

namespace Classification

/-- What a constraint's result adds to the failures. -/
def constraintFailure? (r : ConstraintResult) : Option String :=
  r.toldFault?.map fun _ => r.describe

/-- What a requirement's result adds to the failures. -/
def requirementFailure? (q : Requirement) (r : RequirementResult) : Option String :=
  (r.failure.filter fun text => !text.isEmpty).map fun text =>
    "version " ++ q.comparison.name ++ " " ++ q.version ++ ": " ++ text

/-- How a constraint fares on the cluster. -/
def evaluateConstraint (e : Evaluator) (src : Source) (cluster : Cluster) (c : Constraint) :
    Viewing ConstraintResult := fun v =>
  match v.list src c.scope with
  | (.error text, v) => (.ok (.failed c (.listing c.describe cluster.key text)), v)
  | (.ok items, v) =>
    match e.evaluate c items with
    | .error a => (.error a, v)
    | .ok (r, calls) => (.ok r, { v with scriptCalls := v.scriptCalls ++ calls })

/-- How requirements fare on the cluster, and what that adds to the failures. The version is asked
    for only if there are any. -/
def evaluateRequirements (src : Source) (cluster : Cluster) (qs : List Requirement) (v : View) :
    (List RequirementResult × List String) × View :=
  if qs.isEmpty then (([], []), v)
  else
    match v.versionOf src cluster with
    | (.error text, v) => ((qs.map fun _ => ⟨false, .text "", some text⟩, [text]), v)
    | (.ok version, v) =>
      let rs := qs.map fun q => q.evaluate version
      ((rs, (qs.zip rs).filterMap fun p => requirementFailure? p.1 p.2), v)

/-- A classifier's verdict put together from its results. -/
def ofResults (c : Classifier) (cluster : Cluster) (constraints : List ConstraintResult)
    (requirements : List RequirementResult) (requirementFailures : List String) :
    Classification where
  classifier := c
  cluster := cluster
  matched := constraints.all (·.satisfied) && requirements.all (·.satisfied)
  constraints := constraints
  requirements := requirements
  failures := constraints.filterMap constraintFailure? ++ requirementFailures

/-- The verdict of a classifier on what is seen of the cluster. -/
def classifyIn (e : Evaluator) (src : Source) (cluster : Cluster) (c : Classifier) :
    Viewing Classification := fun v =>
  match Viewing.each (evaluateConstraint e src cluster) c.constraints v with
  | (.error a, v) => (.error a, v)
  | (.ok results, v) =>
    let ((versions, failures), v) := evaluateRequirements src cluster c.requirements v
    (.ok (ofResults c cluster results versions failures), v)

/-- The verdict of a classifier alone. -/
def classify (e : Evaluator) (src : Source) (cluster : Cluster) (c : Classifier) :
    Except Abrupt Classification × View :=
  classifyIn e src cluster c .fresh

/-- The verdicts of all classifiers, which share one view. -/
def classifyAll (e : Evaluator) (src : Source) (cluster : Cluster) (cs : List Classifier) :
    Except Abrupt (List Classification) × View :=
  Viewing.each (classifyIn e src cluster) cs .fresh

/-- A classifier on a cluster whose evaluation broke off. -/
def broken (cluster : Cluster) (a : Abrupt) (c : Classifier) : Classification :=
  ⟨c, cluster, false, [], [], ["evaluation of cluster " ++ cluster.key ++ " failed: " ++ a.text]⟩

end Classification

end FleetLabels
