import FleetLabels.Pass

/-!
    Metrics of passes.

    Counters add up over passes: the evaluations of each classifier by their outcome, its failures,
    and the number of passes. Gauges hold what the last pass found on each cluster: the requests that
    were denied, and the keys that have an owner. -/

namespace FleetLabels

/-- How the evaluation of a classifier on a cluster came out. -/
inductive Outcome where
  | matched
  | failed
  | unmatched
  deriving DecidableEq, Repr

namespace Outcome

def name : Outcome → String
  | .matched => "match"
  | .failed => "error"
  | .unmatched => "nomatch"

def of (c : Classification) : Outcome :=
  if c.matched then .matched else if c.failures.isEmpty then .unmatched else .failed

def ofName? (s : String) : Option Outcome :=
  [Outcome.matched, .failed, .unmatched].find? fun o => o.name == s

end Outcome

structure Metrics where
  /-- evaluations by classifier and outcome -/
  evaluations : Table (String × Outcome) Nat
  /-- failures by classifier -/
  failures : Table String Nat
  /-- denied requests by cluster -/
  conflicts : Table String Nat
  /-- owned keys by cluster -/
  managed : Table String Nat
  passes : Nat

namespace Metrics

def zero : Metrics := ⟨Table.empty, Table.empty, Table.empty, Table.empty, 0⟩

/-- A counter moved on. -/
def advance {κ : Type} [DecidableEq κ] (t : Table κ Nat) (key : κ) (n : Nat) : Table κ Nat :=
  t.alter key fun v => v.getD 0 + n

def observeClassification (m : Metrics) (c : Classification) : Metrics :=
  let name := c.classifier.name
  { m with
    evaluations := advance m.evaluations (name, .of c) 1
    failures := if c.failures.isEmpty then m.failures
      else advance m.failures name c.failures.length }

def observeArbitration (m : Metrics) (a : Arbitration) : Metrics :=
  { m with
    conflicts := m.conflicts.set a.cluster.key a.conflicts
    managed := m.managed.set a.cluster.key a.owners.size }

/-- The metrics after one more pass. -/
def observe (m : Metrics) (p : PassResult) : Metrics :=
  let m := p.classifications.foldl observeClassification m
  let m := p.arbitrations.values.foldl observeArbitration m
  { m with passes := m.passes + 1 }

/-- The metrics after a pass was asked for: one that is refused leaves no trace. -/
def record (m : Metrics) (result : Except PassFault PassResult) : Metrics :=
  match result with
  | .ok p => m.observe p
  | .error _ => m

/-- The sample of a name with exactly the labels given, if there is one. -/
def sample (m : Metrics) (name : String) (labels : Table String String) : Option Nat :=
  let label (key : String) (t : Table String Nat) : Option Nat :=
    match labels.entries with
    | [(k, v)] => if k = key then t.get? v else none
    | _ => none
  match name with
  | "classifier_evaluations_total" =>
    if labels.size = 2 then do
      let classifier ← labels.get? "classifier"
      let outcome ← Outcome.ofName? (← labels.get? "result")
      m.evaluations.get? (classifier, outcome)
    else none
  | "classifier_constraint_failures_total" => label "classifier" m.failures
  | "classifier_label_conflicts" => label "cluster" m.conflicts
  | "classifier_managed_labels" => label "cluster" m.managed
  | "classifier_pass_duration_seconds_count" =>
    if labels.entries.isEmpty then some m.passes else none
  | _ => none

end Metrics

end FleetLabels
