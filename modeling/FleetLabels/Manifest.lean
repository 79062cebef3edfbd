import FleetLabels.Datum.Text
import FleetLabels.Calendar.Reading
import FleetLabels.Table

/-!
    Reading manifests.

    A manifest is a mapping of the expected members. Reading one stops at its first flaw: a value of
    the wrong shape, or a value that breaks a rule of what the manifest describes. A member that says
    nothing (`Datum.isGiven`) counts as missing wherever a section, a list or a name is expected.

    Names, groups, namespaces and scripts are declared as texts, though nothing checks that they are. A
    value of another kind that says something in the place of one is outside the modelled domain, and
    reading refuses it as misshapen. For what that leaves out of constraints see `Constraint.Draft`. -/

namespace FleetLabels

open Calendar

/-- The rules that a manifest can break. -/
inductive Invalid where
  | labelKey
  | filterKey
  | filterField
  | choice (what : String) (given : Datum) (choices : List String)
  | notCount (what : String) (given : Datum)
  | negativeCount (what : String) (n : Int)
  | emptyRange (maxCount minCount : Nat)
  | constraintKind
  | constraintVersion
  | requirementVersion
  | classifierName
  | repeatedLabel (classifier key : String)
  | timestamp (given : Datum)
  | clusterName
  | eventSourceName
  | kindIdentity (given : Datum)
  deriving Repr

def Invalid.message : Invalid → String
  | .labelKey => "classifier label key must not be empty"
  | .filterKey => "label filter key must not be empty"
  | .filterField => "field filter field must not be empty"
  | .choice what given choices =>
    "invalid " ++ what ++ " " ++ given.quoted ++ ", expected one of: " ++ ", ".intercalate choices
  | .notCount what given => what ++ " must be an integer, got " ++ given.quoted
  | .negativeCount what n => what ++ " must be >= 0, got " ++ toString n
  | .emptyRange maxCount minCount =>
    "maxCount (" ++ toString maxCount ++ ") must be >= minCount (" ++ toString minCount ++ ")"
  | .constraintKind => "resource constraint kind must not be empty"
  | .constraintVersion => "resource constraint version must not be empty"
  | .requirementVersion => "version constraint version must not be empty"
  | .classifierName => "classifier name must not be empty"
  | .repeatedLabel classifier key =>
    "classifier " ++ classifier ++ ": label key " ++ Text.quote key ++ " listed more than once"
  | .timestamp given => "invalid timestamp " ++ given.quoted
  | .clusterName => "cluster name must not be empty"
  | .eventSourceName => "event source name must not be empty"
  | .kindIdentity given => "resource kind needs version and kind, got " ++ given.quoted

/-- Why a manifest is refused. -/
inductive Refusal where
  | shape
  | invalid (rule : Invalid)
  deriving Repr

/-- What reading a manifest gives. -/
abbrev Reading (α : Type) := Except Refusal α

namespace Manifest

/-- A member of a mapping, if it is there; only mappings have members. -/
def member? (key : String) : Datum → Reading (Option Datum)
  | .mapping entries => .ok (Datum.lookup key entries)
  | _ => .error .shape

/-- A member of a mapping, with what stands for it when it is missing. -/
def memberOr (missing : Datum) (key : String) (d : Datum) : Reading Datum :=
  (member? key d).map fun m => m.getD missing

/-- A member of a mapping, null when it is missing. -/
def member (key : String) (d : Datum) : Reading Datum := memberOr .null key d

/-- A section of a manifest, an empty mapping when it says nothing. -/
def part (key : String) (d : Datum) : Reading Datum :=
  (member key d).map fun m => if m.isGiven then m else .mapping []

/-- The items of a list; a value that says nothing has none. -/
def items (d : Datum) : Reading (List Datum) :=
  if d.isGiven then (match d.items? with | some xs => .ok xs | none => .error .shape) else .ok []

/-- A text that has to be there. A value that says something and is no text is outside the modelled
    domain. -/
def required (rule : Invalid) (d : Datum) : Reading String :=
  if d.isGiven then (match d with | .scalar (.text s) => .ok s | _ => .error .shape)
  else .error (.invalid rule)

/-- A text that may be left out. A value that says something and is no text is outside the modelled
    domain. -/
def optional (d : Datum) : Reading String :=
  if d.isGiven then (match d with | .scalar (.text s) => .ok s | _ => .error .shape) else .ok ""

/-- What each item of a list member reads as. -/
def each {α : Type} (read : Datum → Reading α) (key : String) (d : Datum) : Reading (List α) := do
  (← items (← member key d)).mapM read

/-- The text of a value that labels and filters are compared with: null is empty. -/
def valueText : Datum → String
  | .scalar .null => ""
  | d => d.plain

/-- Labels: texts of keys and values. -/
def labels (d : Datum) : Reading (Table String String) :=
  if d.isGiven then (match d with
    | .mapping entries => .ok (Table.ofList (entries.map fun e => (e.1.plain, e.2.plain)))
    | _ => .error .shape)
  else .ok Table.empty

/-- One of the named choices. -/
def choice {α : Type} (what : String) (choices : List (String × α)) (d : Datum) : Reading α :=
  let chosen := match d with
    | .scalar (.text s) => (choices.find? fun c => c.1 == s).map Prod.snd
    | _ => none
  match chosen with
  | some a => .ok a
  | none => .error (.invalid (.choice what d (choices.map Prod.fst)))

/-- A count, if one is given. -/
def count? (what : String) : Datum → Reading (Option Nat)
  | .scalar .null => .ok none
  | .scalar (.int n) =>
    if n < 0 then .error (.invalid (.negativeCount what n)) else .ok (some n.toNat)
  | d => .error (.invalid (.notCount what d))

/-- A timestamp, if one is given. -/
def timestamp? : Datum → Reading (Option Moment)
  | .scalar .null => .ok none
  | .scalar (.stamp t) => .ok (some t.zoned)
  | .scalar (.text s) =>
    if s.isEmpty then .ok none
    else match Moment.read? s with
      | some m => .ok (some m)
      | none => .error (.invalid (.timestamp (.text s)))
  | d => .error (.invalid (.timestamp d))

end Manifest

end FleetLabels
