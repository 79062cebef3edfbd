import FleetLabels.Text.Split

/-!
    Scopes: which objects of a cluster are meant.

    Objects belong to a group, version and kind, and live in a namespace or in the cluster as a
    whole. Group and version are written together as an API version, and the group may be empty. -/

namespace FleetLabels

structure Scope where
  group : String
  version : String
  kind : String
  /-- the namespace, empty for the cluster as a whole -/
  space : String
  deriving DecidableEq, Inhabited, Repr

/-- Group and version of an API version; without a slash the group is empty. -/
def splitApiVersion (s : String) : String × String :=
  match Text.splitFirst? '/' s.toList with
  | some (group, version) => (String.ofList group, String.ofList version)
  | none => ("", s)

namespace Scope

def apiVersion (s : Scope) : String :=
  if s.group.isEmpty then s.version else s.group ++ "/" ++ s.version

/-- The scope as messages name it. -/
def describe (s : Scope) : String :=
  s.apiVersion ++ "/" ++ s.kind ++ " in " ++ (if s.space.isEmpty then "<cluster>" else s.space)

end Scope

end FleetLabels
