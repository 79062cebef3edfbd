import FleetLabels.Resource

/-!
    Scripts that judge single resources.

    A script runtime answers with a value, or fails. The verdict is read out of the value: a truth
    value, or a mapping that has one as `matching`. Everything else is a fault, and so is a script
    without a runtime. -/

namespace FleetLabels

/-- What a runtime makes of a script and a resource. -/
inductive ScriptAnswer where
  | value (d : Datum)
  /-- the runtime failed with a text -/
  | failed (text : String)
  /-- the runtime reported a fault of its own -/
  | refused (text : String)

/-- A script runtime answers for a script text and a resource. -/
abbrev ScriptRuntime := String → Resource → ScriptAnswer

/-- Why a script gives no verdict. -/
inductive ScriptFault where
  | noRuntime
  | failed (resource text : String)
  | refused (text : String)
  | noMatching
  | matchingKind (kind : String)
  | answerKind (kind : String)
  deriving DecidableEq, Repr

namespace ScriptFault

def message : ScriptFault → String
  | .noRuntime => "constraint has a script but no script evaluator is configured"
  | .failed resource text => "script evaluation failed on " ++ resource ++ ": " ++ text
  | .refused text => text
  | .noMatching => "script result has no 'matching' field"
  | .matchingKind kind => "script result 'matching' must be a boolean, got " ++ kind
  | .answerKind kind => "unexpected script result of type " ++ kind

end ScriptFault

namespace Script

/-- The verdict that a value stands for. -/
def verdict : Datum → Except ScriptFault Bool
  | .scalar (.bool b) => .ok b
  | .mapping entries =>
    match Datum.lookup "matching" entries with
    | none => .error .noMatching
    | some (.scalar (.bool b)) => .ok b
    | some d => .error (.matchingKind d.kindName)
  | d => .error (.answerKind d.kindName)

/-- The verdict of a script on a resource. -/
def run (runtime : Option ScriptRuntime) (script : String) (r : Resource) :
    Except ScriptFault Bool :=
  match runtime with
  | none => .error .noRuntime
  | some answer =>
    match answer script r with
    | .value d => verdict d
    | .failed text => .error (.failed r.describe text)
    | .refused text => .error (.refused text)

/-- The resources that a judge accepts, up to the first that it gives no verdict on, and the
    resources that were put before it. The judge knows which ones came before. -/
def sift (judge : List Resource → Resource → Except ScriptFault Bool) (before : List Resource) :
    List Resource → Except ScriptFault (List Resource) × List Resource
  | [] => (.ok [], [])
  | r :: rest =>
    match judge before r with
    | .error f => (.error f, [r])
    | .ok accepted =>
      let (found, asked) := sift judge (before ++ [r]) rest
      (found.map fun rs => if accepted then r :: rs else rs, r :: asked)

end Script

end FleetLabels
