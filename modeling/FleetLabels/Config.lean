import FleetLabels.Classifier
import FleetLabels.Config.Directory
import FleetLabels.Config.Settings
import FleetLabels.EventSource
import FleetLabels.Kind

/-!
    Configuration from a directory.

    `engine.yaml` holds the settings, `classifiers` and `eventsources` the manifests. Documents of
    another kind, and those that say nothing, are passed over; two manifests of one kind must not
    share a name. Loading stops at the first flaw, and a configuration that is loaded again keeps
    whatever was replaced before it. -/

namespace FleetLabels

structure Config where
  settings : Settings
  classifiers : Table String Classifier
  eventSources : Table String EventSource

namespace Config

/-- Why a configuration cannot be loaded. -/
inductive Fault where
  | noDirectory (path : String)
  | noFile (path : String)
  | yaml (f : Yaml.Fault)
  | settings (f : Settings.Fault)
  | manifest (r : Refusal)
  | repeated (kind name file : String)

def noDirectoryMessage (path : String) : String := "Config directory not found: " ++ path

def noFileMessage (path : String) : String := "Config file not found: " ++ path

def repeatedMessage (kind name file : String) : String :=
  "Duplicate " ++ kind ++ " " ++ Text.quote name ++ " in " ++ file

/-- The settings of a directory. -/
def loadSettings (d : Directory) : Except Fault Settings := do
  if d.files.isNone then throw (.noDirectory d.path)
  match d.file? "engine.yaml" with
  | none => throw (.noFile (d.path ++ "/engine.yaml"))
  | some s => (Settings.ofDatum (← s.single.mapError .yaml)).mapError .settings

/-- What is found so far with the manifest of a document. -/
def addDocument {α : Type} (kind : String) (read : Datum → Reading α) (name : α → String)
    (file : String) (found : Table String α) (d : Datum) : Except Fault (Table String α) :=
  if !d.isGiven then .ok found
  else do
    match ← (Manifest.member "kind" d).mapError .manifest with
    | .scalar (.text k) =>
      if k = kind then
        let item ← (read d).mapError .manifest
        if found.contains (name item) then throw (.repeated kind (name item) file)
        return found.set (name item) item
      else return found
    | _ => return found

/-- What is found so far with the manifests of a file. -/
def addFile {α : Type} (kind : String) (read : Datum → Reading α) (name : α → String)
    (found : Table String α) (file : String × Yaml.Stream) : Except Fault (Table String α) := do
  let documents ← file.2.values.mapError .yaml
  documents.foldlM (addDocument kind read name file.1) found

/-- The manifests of a kind in a subdirectory, by their names. -/
def loadManifests {α : Type} (subdirectory kind : String) (read : Datum → Reading α)
    (name : α → String) (d : Directory) : Except Fault (Table String α) :=
  (d.manifestFiles subdirectory).foldlM (addFile kind read name) Table.empty

def loadClassifiers (d : Directory) : Except Fault (Table String Classifier) :=
  loadManifests "classifiers" "Classifier" Classifier.ofManifest Classifier.name d

def loadEventSources (d : Directory) : Except Fault (Table String EventSource) :=
  loadManifests "eventsources" "EventSource" EventSource.ofManifest EventSource.name d

/-- The configuration of a directory: settings, classifiers and event sources in turn. -/
def load (d : Directory) : Except Fault Config := do
  let settings ← loadSettings d
  let classifiers ← loadClassifiers d
  return ⟨settings, classifiers, ← loadEventSources d⟩

/-- The configuration after it was loaded again, and what stopped that, if anything did. -/
def reload (c : Config) (d : Directory) : Config × Option Fault :=
  match loadSettings d with
  | .error f => (c, some f)
  | .ok settings =>
    let c := { c with settings }
    match loadClassifiers d with
    | .error f => (c, some f)
    | .ok classifiers =>
      let c := { c with classifiers }
      match loadEventSources d with
      | .error f => (c, some f)
      | .ok eventSources => ({ c with eventSources }, none)

/-- The kinds that every cluster knows with those of the settings. -/
def registry (c : Config) : Reading Registry :=
  c.settings.resourceKinds.foldlM (fun r d => (Kind.ofManifest d).map r.register) .builtin

/-- Entries in the order of their names. -/
def byName {α : Type} (t : Table String α) : List α :=
  (t.entries.mergeSort fun a b => decide (a.1 ≤ b.1)).map (·.2)

/-- All classifiers by name. -/
def allClassifiers (c : Config) : List Classifier := byName c.classifiers

/-- All event sources by name. -/
def allEventSources (c : Config) : List EventSource := byName c.eventSources

end Config

end FleetLabels
