import FleetLabels.Config
import FleetLabels.Proofs.Runs

/-!
    Configurations that are loaded again.

    A directory gives its settings, then its classifiers, then its event sources, each as a whole and
    only after those before it. Loading again takes what the directory gives and leaves the rest
    (`Config.reload_parts`), so a flaw behind something new leaves a configuration that is neither the
    old one nor that of the directory. Nothing else tears one: the configuration is replaced as a
    whole or not at all, unless loading fails behind settings or classifiers that are not those it
    had (`Config.reload_all_or_nothing_unless_torn`). -/

namespace FleetLabels

namespace Config

variable {c new : Config} {d : Directory} {f : Fault}

/-! ### How far a directory gets -/

def settings? (d : Directory) : Option Settings := (loadSettings d).toOption

def classifiers? (d : Directory) : Option (Table String Classifier) :=
  (settings? d).bind fun _ => (loadClassifiers d).toOption

def eventSources? (d : Directory) : Option (Table String EventSource) :=
  (classifiers? d).bind fun _ => (loadEventSources d).toOption

/-- The loading of a directory stops at one of its three stages, or at none. -/
theorem load_cases (d : Directory) :
    (∃ f, loadSettings d = .error f ∧ load d = .error f) ∨
      (∃ s f, loadSettings d = .ok s ∧ loadClassifiers d = .error f ∧ load d = .error f) ∨
      (∃ s t f, loadSettings d = .ok s ∧ loadClassifiers d = .ok t ∧
        loadEventSources d = .error f ∧ load d = .error f) ∨
      ∃ s t u, loadSettings d = .ok s ∧ loadClassifiers d = .ok t ∧ loadEventSources d = .ok u ∧
        load d = .ok ⟨s, t, u⟩ := by
  unfold load
  cases loadSettings d with
  | error f => exact .inl ⟨f, rfl, rfl⟩
  | ok s =>
    cases loadClassifiers d with
    | error f => exact .inr (.inl ⟨s, f, rfl, rfl, rfl⟩)
    | ok t =>
      cases loadEventSources d with
      | error f => exact .inr (.inr (.inl ⟨s, t, f, rfl, rfl, rfl, rfl⟩))
      | ok u => exact .inr (.inr (.inr ⟨s, t, u, rfl, rfl, rfl, rfl⟩))

/-- A directory is loaded when it gives all three parts, and then into these. -/
theorem load_eq_ok_iff :
    load d = .ok new ↔ settings? d = some new.settings ∧ classifiers? d = some new.classifiers ∧
      eventSources? d = some new.eventSources := by
  rcases load_cases d with ⟨f, hs, hload⟩ | ⟨s, f, hs, ht, hload⟩ | ⟨s, t, f, hs, ht, hu, hload⟩ |
    ⟨s, t, u, hs, ht, hu, hload⟩
  · simp [settings?, hs, hload, Except.toOption]
  · simp [classifiers?, settings?, hs, ht, hload, Except.toOption]
  · simp [eventSources?, classifiers?, settings?, hs, ht, hu, hload, Except.toOption]
  · simp only [eventSources?, classifiers?, settings?, hs, ht, hu, hload, Except.toOption,
      Option.bind_some, Option.some.injEq, Except.ok.injEq]
    constructor
    · rintro rfl
      exact ⟨rfl, rfl, rfl⟩
    · rintro ⟨rfl, rfl, rfl⟩
      rfl

/-- A directory that is not loaded gives no event sources. -/
theorem eventSources?_eq_none (h : load d = .error f) : eventSources? d = none := by
  cases hu : eventSources? d with
  | none => rfl
  | some u =>
    obtain ⟨t, ht, -⟩ := Option.bind_eq_some_iff.mp hu
    obtain ⟨s, hs, -⟩ := Option.bind_eq_some_iff.mp ht
    have hload : load d = .ok ⟨s, t, u⟩ := load_eq_ok_iff.mpr ⟨hs, ht, hu⟩
    rw [h] at hload
    cases hload

/-! ### One reload -/

/-- What a reload would be that replaces the configuration as a whole or not at all. -/
def allOrNothing (c : Config) (d : Directory) : Config × Option Fault :=
  match load d with
  | .ok new => (new, none)
  | .error f => (c, some f)

/-- The directory is not loaded, yet gives settings or classifiers that the configuration did not
    have. -/
def TornBy (c : Config) (d : Directory) : Prop :=
  (∃ f, load d = .error f) ∧
    ((∃ s, settings? d = some s ∧ s ≠ c.settings) ∨ ∃ t, classifiers? d = some t ∧ t ≠ c.classifiers)

/-- A reload takes each part that the directory gives and leaves the others. -/
theorem reload_parts (c : Config) (d : Directory) :
    (c.reload d).1 = ⟨(settings? d).getD c.settings, (classifiers? d).getD c.classifiers,
      (eventSources? d).getD c.eventSources⟩ := by
  rcases load_cases d with ⟨f, hs, -⟩ | ⟨s, f, hs, ht, -⟩ | ⟨s, t, f, hs, ht, hu, -⟩ |
    ⟨s, t, u, hs, ht, hu, -⟩
  · simp [reload, eventSources?, classifiers?, settings?, hs, Except.toOption]
  · simp [reload, eventSources?, classifiers?, settings?, hs, ht, Except.toOption]
  · simp [reload, eventSources?, classifiers?, settings?, hs, ht, hu, Except.toOption]
  · simp [reload, eventSources?, classifiers?, settings?, hs, ht, hu, Except.toOption]

/-- A reload is stopped by what stops the directory from being loaded. -/
theorem reload_fault (c : Config) (d : Directory) : (c.reload d).2 = (c.allOrNothing d).2 := by
  rcases load_cases d with ⟨f, hs, hload⟩ | ⟨s, f, hs, ht, hload⟩ | ⟨s, t, f, hs, ht, hu, hload⟩ |
    ⟨s, t, u, hs, ht, hu, hload⟩
  · simp [reload, allOrNothing, hs, hload]
  · simp [reload, allOrNothing, hs, ht, hload]
  · simp [reload, allOrNothing, hs, ht, hu, hload]
  · simp [reload, allOrNothing, hs, ht, hu, hload]

theorem reload_of_load (h : load d = .ok new) : (c.reload d).1 = new := by
  obtain ⟨hs, ht, hu⟩ := load_eq_ok_iff.mp h
  rw [reload_parts, hs, ht, hu]
  rfl

/-- What a directory may give to a configuration that keeps its own: nothing, or what it had. -/
theorem getD_eq_iff {α : Type} {o : Option α} {a : α} :
    o.getD a = a ↔ ¬ ∃ b, o = some b ∧ b ≠ a := by
  cases o <;> simp

/-- A reload that fails leaves the configuration as it was if the directory gives nothing new before
    its flaw, and only then. -/
theorem reload_eq_self_iff (h : load d = .error f) : (c.reload d).1 = c ↔ ¬ c.TornBy d := by
  have hparts : (c.reload d).1 = c ↔ (settings? d).getD c.settings = c.settings ∧
      (classifiers? d).getD c.classifiers = c.classifiers := by
    rw [reload_parts, eventSources?_eq_none h]
    constructor
    · intro heq
      exact ⟨congrArg settings heq, congrArg classifiers heq⟩
    · rintro ⟨hs, ht⟩
      rw [hs, ht]
      rfl
  rw [hparts, getD_eq_iff, getD_eq_iff, ← not_or, TornBy, and_iff_right ⟨f, h⟩]

/-- A reload fails exactly when the directory cannot be loaded, and with that fault. It leaves the
    configuration of the directory, or on failure the one from before, unless it fails behind settings
    or classifiers that the configuration did not have: then, and only then, it leaves another one. -/
theorem reload_all_or_nothing_unless_torn (c : Config) (d : Directory) :
    (c.reload d).2 = (c.allOrNothing d).2 ∧ (c.reload d = c.allOrNothing d ↔ ¬ c.TornBy d) := by
  have hfault := reload_fault c d
  refine ⟨hfault, ?_⟩
  rw [Prod.ext_iff, and_iff_left hfault]
  cases hload : load d with
  | ok new =>
    have huntorn : ¬ c.TornBy d := by
      rintro ⟨⟨f, hf⟩, -⟩
      rw [hload] at hf
      cases hf
    rw [reload_of_load hload, allOrNothing, hload]
    exact iff_of_true rfl huntorn
  | error f =>
    rw [allOrNothing, hload]
    exact reload_eq_self_iff hload

end Config

namespace Sample

/-- A directory whose settings let so many clusters be evaluated at once. -/
def shelf (workers : Int) : Directory :=
  ⟨"cfg", some ⟨[("engine.yaml", .ofValues [.mapping [(.text "engine",
    .mapping [(.text "max_workers", .int workers)])]])]⟩⟩

/-- The directory with a classifier beside the settings that has no name. -/
def spoiled (workers : Int) : Directory :=
  ⟨"cfg", some ⟨[("engine.yaml", .ofValues [.mapping [(.text "engine",
      .mapping [(.text "max_workers", .int workers)])]]),
    ("classifiers/b.yaml", .ofValues [.mapping [(.text "kind", .text "Classifier")]])]⟩⟩

def settingsOf (workers : Int) : Settings := ⟨.int workers, "creation", [], .text "INFO", .null⟩

end Sample

open Sample in
/-- The classifier without a name keeps the second directory from being loaded, but by then its number
    of workers was taken over. -/
theorem Config.workers_taken_from_spoiled :
    load (shelf 4) = .ok ⟨settingsOf 4, .empty, .empty⟩ ∧
      load (spoiled 2) = .error (.manifest (.invalid .classifierName)) ∧
      reload ⟨settingsOf 4, .empty, .empty⟩ (spoiled 2) =
        (⟨settingsOf 2, .empty, .empty⟩, some (.manifest (.invalid .classifierName))) ∧
      settingsOf 2 ≠ settingsOf 4 := by
  have hfile : (spoiled 2).manifestFiles "classifiers" =
      [("b.yaml", .ofValues [.mapping [(.text "kind", .text "Classifier")]])] :=
    List.mergeSort_singleton _
  have hrefused : loadClassifiers (spoiled 2) = .error (.manifest (.invalid .classifierName)) := by
    rw [loadClassifiers, loadManifests, hfile]
    rfl
  have hsettings : loadSettings (spoiled 2) = .ok (settingsOf 2) := rfl
  refine ⟨?_, ?_, ?_, ?_⟩
  · have hclassifiers : (shelf 4).manifestFiles "classifiers" = [] := List.mergeSort_nil
    have hsources : (shelf 4).manifestFiles "eventsources" = [] := List.mergeSort_nil
    rw [load, loadClassifiers, loadEventSources, loadManifests, loadManifests, hclassifiers, hsources]
    rfl
  · rw [load, hsettings, hrefused]
    rfl
  · rw [reload, hsettings, hrefused]
  · intro h
    cases congrArg Settings.maxWorkers h

namespace Config

/-! ### One reload after the other -/

variable {c : Config}

/-- The configuration after it was loaded again from one directory after the other. -/
def reloads (c : Config) (ds : List Directory) : Config := ds.foldl (fun c d => (c.reload d).1) c

/-- After any reloads each part is that of the last directory that gave it. -/
theorem reloads_parts (c : Config) (ds : List Directory) :
    c.reloads ds = ⟨(ds.filterMap settings?).getLast?.getD c.settings,
      (ds.filterMap classifiers?).getLast?.getD c.classifiers,
      (ds.filterMap eventSources?).getLast?.getD c.eventSources⟩ := by
  have hsettings : (c.reloads ds).settings = (ds.filterMap settings?).getLast?.getD c.settings :=
    foldl_latestD (f := Config.settings) (fun c d => congrArg Config.settings (reload_parts c d)) c ds
  have hclassifiers : (c.reloads ds).classifiers =
      (ds.filterMap classifiers?).getLast?.getD c.classifiers :=
    foldl_latestD (f := Config.classifiers)
      (fun c d => congrArg Config.classifiers (reload_parts c d)) c ds
  have hsources : (c.reloads ds).eventSources =
      (ds.filterMap eventSources?).getLast?.getD c.eventSources :=
    foldl_latestD (f := Config.eventSources)
      (fun c d => congrArg Config.eventSources (reload_parts c d)) c ds
  rw [← hsettings, ← hclassifiers, ← hsources]

/-- After reloads none of which tears the configuration it meets, it is that of the last directory that
    can be loaded at all. -/
theorem reloads_eq_last_loaded {ds : List Directory}
    (h : ∀ before d after, ds = before ++ d :: after → ¬ (c.reloads before).TornBy d) :
    c.reloads ds = (ds.filterMap fun d => (load d).toOption).getLast?.getD c := by
  have hloaded : (ds.foldl (fun c d => (load d).toOption.getD c) c) =
      (ds.filterMap fun d => (load d).toOption).getLast?.getD c :=
    foldl_latestD (f := fun c => c) (fun _ _ => rfl) c ds
  rw [← hloaded]
  clear hloaded
  induction ds generalizing c with
  | nil => rfl
  | cons d rest ih =>
    have hfirst : (c.reload d).1 = (load d).toOption.getD c := by
      cases hload : load d with
      | ok new => exact reload_of_load hload
      | error f => exact (reload_eq_self_iff hload).mpr (h [] d rest rfl)
    have hrest : ∀ before e after, rest = before ++ e :: after →
        ¬ ((c.reload d).1.reloads before).TornBy e := fun before e after heq =>
      h (d :: before) e after (congrArg (d :: ·) heq)
    rw [List.foldl_cons, ← hfirst]
    exact ih hrest

end Config

end FleetLabels
