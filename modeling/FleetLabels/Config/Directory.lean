import FleetLabels.Table
import FleetLabels.Text.Split
import FleetLabels.Yaml.Stream

/-!
    Directories of YAML files.

    A directory holds files by their paths, with slashes between the parts. Manifests stand in files
    directly in a subdirectory whose names have a `.y` and, anywhere after it, end in `ml`. -/

namespace FleetLabels

structure Directory where
  /-- the path of the directory itself -/
  path : String
  /-- the files by their paths below the directory, if it is there at all -/
  files : Option (Table String Yaml.Stream)

namespace Directory

/-- What follows the first `.y` of a name. -/
def afterMark? : List Char → Option (List Char)
  | '.' :: 'y' :: rest => some rest
  | _ :: rest => afterMark? rest
  | [] => none

/-- Whether a file of this name holds manifests. -/
def isManifestName (name : List Char) : Bool :=
  (afterMark? name).any fun rest => "ml".toList.isSuffixOf rest

/-- The name of a file that stands directly in a subdirectory. -/
def nameIn? (subdirectory path : String) : Option String :=
  match Text.splitFirst? '/' path.toList with
  | some (dir, name) =>
    if dir = subdirectory.toList && !name.contains '/' then some (String.ofList name) else none
  | none => none

def file? (d : Directory) (path : String) : Option Yaml.Stream := d.files.bind (·.get? path)

/-- The files of manifests in a subdirectory, by name in code point order. -/
def manifestFiles (d : Directory) (subdirectory : String) : List (String × Yaml.Stream) :=
  let entries := match d.files with
    | some t => t.entries
    | none => []
  let found := entries.filterMap fun e =>
    match nameIn? subdirectory e.1 with
    | some name => if isManifestName name.toList then some (name, e.2) else none
    | none => none
  found.mergeSort fun a b => decide (a.1 ≤ b.1)

example : isManifestName "a.yaml".toList && isManifestName ".yml".toList &&
    !isManifestName "a.yam".toList && !isManifestName "a.Yaml".toList := by decide

end Directory

end FleetLabels
