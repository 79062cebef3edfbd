import FleetLabels.EventSource
import FleetLabels.Kind
import FleetLabels.Script

/-!
    Evaluating constraints and event sources on the resources of a cluster.

    The resources in scope are sifted by the filters and then, one by one, by the script. A field
    filter on a field that the kind cannot be selected by, or a script without a verdict, is a fault:
    the constraint is then not satisfied and carries the fault. A listing may also hold an item that
    is no resource at all; coming upon it breaks the evaluation off. -/

namespace FleetLabels

/-- One item of a listing. -/
inductive Listed where
  | resource (r : Resource)
  | corrupt (text : String)

/-- An evaluation broke off, with a text that tells why. -/
structure Abrupt where
  text : String
  deriving DecidableEq, Repr

/-- Why a constraint fails without having been counted. -/
inductive Fault where
  | unsupportedField (field kind : String) (supported : List String)
  | script (f : ScriptFault)
  /-- listing the resources of a scope on a cluster failed -/
  | listing (scope cluster text : String)
  deriving DecidableEq, Repr

def Fault.message : Fault → String
  | .unsupportedField field kind supported =>
    "field " ++ Text.quote field ++ " is not supported for kind " ++ kind ++ " (supported: " ++
      ", ".intercalate supported ++ ")"
  | .script f => f.message
  | .listing scope cluster text => "listing " ++ scope ++ " on " ++ cluster ++ " failed: " ++ text

/-- A fault whose text is empty tells nothing. -/
def Fault.isTold (f : Fault) : Bool := !f.message.isEmpty

structure ConstraintResult where
  constraint : Constraint
  satisfied : Bool
  /-- how many resources passed -/
  count : Nat
  fault : Option Fault
  deriving Repr

namespace ConstraintResult

/-- The fault of a result, if it tells something. -/
def toldFault? (r : ConstraintResult) : Option Fault := r.fault.filter Fault.isTold

def describe (r : ConstraintResult) : String :=
  match r.toldFault? with
  | some f => r.constraint.describe ++ ": " ++ f.message
  | none => r.constraint.describe ++ ": " ++ toString r.count ++ " matching, expected " ++
      r.constraint.boundsText

/-- A constraint that was not counted. -/
def failed (c : Constraint) (f : Fault) : ConstraintResult := ⟨c, false, 0, some f⟩

/-- A constraint that a number of resources passed. -/
def counted (c : Constraint) (n : Nat) : ConstraintResult := ⟨c, c.allows n, n, none⟩

end ConstraintResult

/-- What an event source finds on a cluster. -/
structure EventMatch where
  source : String
  count : Nat
  /-- the resources found, when they are collected -/
  resources : List Resource
  fault : Option Fault

def EventMatch.matched (m : EventMatch) : Bool := m.fault.isNone && 0 < m.count

/-- Resources by namespace and name; those that share both keep their order. -/
def sortedByName (rs : List Resource) : List Resource :=
  rs.mergeSort fun a b => ((compare a.space b.space).then (compare a.name b.name)) != .gt

/-- A run of a script on a resource. -/
abbrev ScriptCall := String × Resource

/-- The resources that a constraint selects, and the script runs that it took. -/
structure Selection where
  found : Except Fault (List Resource)
  calls : List ScriptCall

/-- A runtime that may remember its runs: what it answers can depend on those that it made before,
    the earliest first. -/
abbrev RememberingRuntime := List ScriptCall → ScriptRuntime

structure RememberingEvaluator where
  registry : Registry
  runtime : Option RememberingRuntime

structure Evaluator where
  registry : Registry
  runtime : Option ScriptRuntime

/-- Whether a listed item is in a scope; an item that is no resource breaks the evaluation off. -/
def Listed.inScope (s : Scope) : Listed → Except Abrupt Bool
  | .resource r => .ok (r.scope == s)
  | .corrupt text => .error ⟨text⟩

/-- The resources of a listing that are wanted; an item that is no resource breaks the evaluation off. -/
def resourcesWhere (wanted : Resource → Bool) : List Listed → Except Abrupt (List Resource)
  | [] => .ok []
  | .corrupt text :: _ => .error ⟨text⟩
  | .resource r :: rest => do
    let rs ← resourcesWhere wanted rest
    return if wanted r then r :: rs else rs

/-- The resources of a listing that are in a scope. -/
def candidates (s : Scope) (listing : List Listed) : Except Abrupt (List Resource) :=
  resourcesWhere (fun r => r.scope == s) listing

/-- The first filter on a field that is not supported. -/
def unsupported? (kind : String) (supported : List String) (fs : List FieldFilter) :
    Option Fault :=
  (fs.find? fun f => !supported.contains f.field).map fun f =>
    .unsupportedField f.field kind supported

/-- The fields that the resources of a scope can be selected by. -/
def Registry.fieldsIn (r : Registry) (s : Scope) : List String :=
  r.supportedFields ⟨some s.group, s.version, s.kind⟩

namespace RememberingEvaluator

/-- The verdict of a script on a resource, after it was run on others. -/
def run (e : RememberingEvaluator) (script : String) (before : List Resource) (r : Resource) :
    Except ScriptFault Bool :=
  Script.run (e.runtime.map fun answer => answer (before.map fun q => (script, q))) script r

/-- The resources that pass the script of a constraint, if it has one. -/
def judge (e : RememberingEvaluator) (script : String) (rs : List Resource) : Selection :=
  if script.isEmpty then ⟨.ok rs, []⟩
  else
    let (found, asked) := Script.sift (e.run script) [] rs
    ⟨found.mapError .script, if e.runtime.isSome then asked.map fun r => (script, r) else []⟩

/-- The resources of a listing that a constraint selects. -/
def select (e : RememberingEvaluator) (c : Constraint) (listing : List Listed) :
    Except Abrupt Selection :=
  match unsupported? c.scope.kind (e.registry.fieldsIn c.scope) c.fieldFilters with
  | some f => .ok ⟨.error f, []⟩
  | none => do
    let rs ← candidates c.scope listing
    return e.judge c.script (passing c.labelFilters c.fieldFilters rs)

/-- How a constraint fares on a listing, with the script runs that it took. -/
def evaluate (e : RememberingEvaluator) (c : Constraint) (listing : List Listed) :
    Except Abrupt (ConstraintResult × List ScriptCall) := do
  let s ← e.select c listing
  return (match s.found with
    | .ok rs => .counted c rs.length
    | .error f => .failed c f, s.calls)

/-- What an event source finds in a listing, with the script runs that it took. -/
def watch (e : RememberingEvaluator) (s : EventSource) (listing : List Listed) :
    Except Abrupt (EventMatch × List ScriptCall) := do
  let sel ← e.select s.constraint listing
  return (match sel.found with
    | .ok rs => ⟨s.name, rs.length, if s.collect then sortedByName rs else [], none⟩
    | .error f => ⟨s.name, 0, [], some f⟩, sel.calls)

end RememberingEvaluator

namespace Evaluator

/-- An evaluator with a registry; an empty registry gives way to the kinds that every cluster
    knows. -/
def ofRegistry (registry : Option Registry) (runtime : Option ScriptRuntime) : Evaluator :=
  match registry with
  | some r => ⟨if r.size == 0 then .builtin else r, runtime⟩
  | none => ⟨.builtin, runtime⟩

def supportedFields (e : Evaluator) (s : Scope) : List String := e.registry.fieldsIn s

/-- The evaluator as one that may remember, but does not. -/
def forgetful (e : Evaluator) : RememberingEvaluator :=
  ⟨e.registry, e.runtime.map fun answer _ => answer⟩

/-- The resources that pass the script of a constraint, if it has one. -/
def judge (e : Evaluator) (script : String) (rs : List Resource) : Selection :=
  e.forgetful.judge script rs

/-- The resources of a listing that a constraint selects. -/
def select (e : Evaluator) (c : Constraint) (listing : List Listed) : Except Abrupt Selection :=
  e.forgetful.select c listing

/-- How a constraint fares on a listing, with the script runs that it took. -/
def evaluate (e : Evaluator) (c : Constraint) (listing : List Listed) :
    Except Abrupt (ConstraintResult × List ScriptCall) :=
  e.forgetful.evaluate c listing

/-- What an event source finds in a listing, with the script runs that it took. -/
def watch (e : Evaluator) (s : EventSource) (listing : List Listed) :
    Except Abrupt (EventMatch × List ScriptCall) :=
  e.forgetful.watch s listing

/-- Without a memory a run depends on its script and its resource. -/
theorem run_forgetful (e : Evaluator) (script : String) (before : List Resource) :
    e.forgetful.run script before = Script.run e.runtime script := by
  funext r
  rw [RememberingEvaluator.run, forgetful]
  cases e.runtime <;> rfl

theorem judge_eq (e : Evaluator) (script : String) (rs : List Resource) :
    e.judge script rs =
      if script.isEmpty then ⟨.ok rs, []⟩
      else
        let (found, asked) := Script.sift (fun _ => Script.run e.runtime script) [] rs
        ⟨found.mapError .script, if e.runtime.isSome then asked.map fun r => (script, r) else []⟩ := by
  have hrun : e.forgetful.run script = fun _ => Script.run e.runtime script :=
    funext fun before => run_forgetful e script before
  rw [judge, RememberingEvaluator.judge, hrun, forgetful, Option.isSome_map]

theorem select_eq (e : Evaluator) (c : Constraint) (items : List Listed) :
    e.select c items =
      match unsupported? c.scope.kind (e.supportedFields c.scope) c.fieldFilters with
      | some f => .ok ⟨.error f, []⟩
      | none => do
        let rs ← candidates c.scope items
        return e.judge c.script (passing c.labelFilters c.fieldFilters rs) := rfl

theorem evaluate_eq (e : Evaluator) (c : Constraint) (items : List Listed) :
    e.evaluate c items = (do
      let s ← e.select c items
      return (match s.found with
        | .ok rs => .counted c rs.length
        | .error f => .failed c f, s.calls)) := rfl

end Evaluator

end FleetLabels
