import FleetLabels.Proofs.Filling
import FleetLabels.Proofs.Reload
import FleetLabels.Proofs.Validation

/-!
    Manifests that are gathered from the files of a directory.

    A document adds nothing to the manifests of a kind when it says nothing or is of another kind, and a
    single entry when it is of the kind and can be read (`Config.Adds`). Files are only read one behind
    the other: loading succeeds when every document in them adds an entry or nothing and no name is added
    twice, and then the entries stand in the order of the documents. So the documents decide what is
    loaded, and not the files that they stand in nor their order. -/

namespace FleetLabels

/-! ### Documents -/

namespace Datum

variable {d : Datum} {kind : String}

/-- The name that a manifest gives in its metadata. -/
def givenName (d : Datum) : Datum := (d.valueAt "metadata").valueAt "name"

/-- Whether a document says that it is of a kind. -/
def isOf (kind : String) (d : Datum) : Bool :=
  match d.valueAt "kind" with
  | .scalar (.text k) => k == kind
  | _ => false

theorem isOf_iff : d.isOf kind = true ↔ d.valueAt "kind" = .text kind := by
  unfold isOf
  split
  · rename_i k hk
    rw [hk, beq_iff_eq]
    exact ⟨fun h => h ▸ rfl, fun h => by cases h; rfl⟩
  · rename_i hk
    exact iff_of_false Bool.false_ne_true (hk kind)

/-- A document of a kind is a mapping. -/
theorem IsMapping.of_isOf (h : d.isOf kind = true) : d.IsMapping := by
  cases d with
  | mapping entries => exact .mapping entries
  | scalar s => cases h
  | list items => cases h

/-- A document of a kind says something. -/
theorem isGiven_of_isOf (h : d.isOf kind = true) : d.isGiven = true := by
  cases hgiven : d.isGiven with
  | true => rfl
  | false =>
    rw [isOf_iff, valueAt, get?_of_not_given hgiven] at h
    cases h

end Datum

/-- All documents of the files of manifests in a subdirectory, file by file. -/
def Directory.documents (d : Directory) (subdirectory : String) : List (Except Yaml.Fault Datum) :=
  (d.manifestFiles subdirectory).flatMap fun file => file.2.items

namespace Config

variable {α : Type}

/-- What a document adds to the manifests of a kind: nothing when it says nothing or is of another kind,
    and else what it reads as, under the name that it gives. -/
inductive Adds (kind : String) (read : Datum → Reading α) :
    Except Yaml.Fault Datum → List (String × α) → Prop
  | nothing {d} (hd : d.isGiven = false) : Adds kind read (.ok d) []
  | other {d} (hd : d.IsMapping) (hkind : d.isOf kind = false) : Adds kind read (.ok d) []
  | manifest {d n a} (hkind : d.isOf kind = true) (hname : d.givenName = .text n)
      (ha : read d = .ok a) : Adds kind read (.ok d) [(n, a)]

theorem Adds.exists_section {kind : String} {read : Datum → Reading α} {es : List (String × α)}
    {item : Except Yaml.Fault Datum} (h : Adds kind read item es) :
    ∃ d : Datum, item = .ok d ∧ d.IsSection := by
  cases h with
  | @nothing d hd => exact ⟨d, rfl, fun hgiven => absurd (hd.symm.trans hgiven) Bool.false_ne_true⟩
  | @other d hd _ => exact ⟨d, rfl, fun _ => hd⟩
  | @manifest d n a hkind _ _ => exact ⟨d, rfl, fun _ => .of_isOf hkind⟩

/-- What is read has the name that its document gives. -/
def NamesAsGiven (read : Datum → Reading α) (name : α → String) : Prop :=
  ∀ d a, read d = .ok a → d.givenName = .text (name a)

variable {kind : String} {read : Datum → Reading α} {name : α → String}

section Document

variable {d : Datum} {file : String} {found t : Table String α}

/-- A document of another kind is passed over if it is a mapping, or says nothing. -/
theorem addDocument_of_not_kind (hkind : d.isOf kind = false) :
    addDocument kind read name file found d = .ok t ↔ d.IsSection ∧ t = found := by
  have hpassed : d.IsSection → addDocument kind read name file found d = .ok found := by
    intro hsection
    rw [addDocument]
    split
    · rfl
    · rename_i hgiven
      rw [Manifest.member_eq (hsection (by simpa using hgiven))]
      simp only [Except.mapError, bind, Except.bind]
      split
      · rename_i k hk
        rw [if_neg]
        · rfl
        · rintro rfl
          rw [Datum.isOf_iff.mpr hk] at hkind
          cases hkind
      · rfl
  constructor
  · intro h
    have hsection : d.IsSection := by
      intro hgiven
      rw [addDocument, if_neg (by simp [hgiven])] at h
      obtain ⟨v, hv, -⟩ := Attempt.of_bind_eq_ok h
      cases d with
      | mapping entries => exact .mapping entries
      | scalar s => cases hv
      | list items => cases hv
    rw [hpassed hsection] at h
    cases h
    exact ⟨hsection, rfl⟩
  · rintro ⟨hsection, rfl⟩
    exact hpassed hsection

theorem addDocument_of_kind (hkind : d.isOf kind = true) :
    addDocument kind read name file found d = (do
      let item ← (read d).mapError .manifest
      if found.contains (name item) then throw (.repeated kind (name item) file)
      return found.set (name item) item) := by
  have hgiven := Datum.isGiven_of_isOf hkind
  have hd := Datum.IsMapping.of_isOf hkind
  rw [addDocument, if_neg (by simp [hgiven]), Manifest.member_eq hd, Datum.isOf_iff.mp hkind]
  exact if_pos rfl

theorem adds_of_not_kind {es : List (String × α)} (hkind : d.isOf kind = false) :
    Adds kind read (.ok d) es ↔ d.IsSection ∧ es = [] := by
  constructor
  · rintro (hd | ⟨hd, -⟩ | ⟨hkind', -, -⟩)
    · exact ⟨fun hgiven => absurd (hd.symm.trans hgiven) Bool.false_ne_true, rfl⟩
    · exact ⟨fun _ => hd, rfl⟩
    · exact absurd (hkind.symm.trans hkind') Bool.false_ne_true
  · rintro ⟨hsection, rfl⟩
    cases hgiven : d.isGiven with
    | false => exact .nothing hgiven
    | true => exact .other (hsection hgiven) hkind

theorem adds_of_kind {es : List (String × α)} (hkind : d.isOf kind = true) :
    Adds kind read (.ok d) es ↔
      ∃ n a, d.givenName = .text n ∧ read d = .ok a ∧ es = [(n, a)] := by
  constructor
  · rintro (hd | ⟨-, hkind'⟩ | ⟨-, hname, ha⟩)
    · exact absurd (hd.symm.trans (Datum.isGiven_of_isOf hkind)) Bool.false_ne_true
    · exact absurd (hkind'.symm.trans hkind) Bool.false_ne_true
    · exact ⟨_, _, hname, ha, rfl⟩
  · rintro ⟨n, a, hname, ha, rfl⟩
    exact .manifest hkind hname ha

/-- A document puts what it adds behind what was found before, unless the name is there already. -/
theorem appends_addDocument (h : NamesAsGiven read name) (file : String) :
    Table.Appends (addDocument kind read name file) fun d => Adds kind read (.ok d) := by
  intro found d t hfound
  -- a document that is passed over adds nothing or makes loading fail, and one of the kind adds an entry
  -- that is new if and only if the keys stay distinct
  cases hkind : d.isOf kind with
  | false =>
    simp only [addDocument_of_not_kind hkind, adds_of_not_kind hkind, and_assoc, exists_and_left,
      exists_eq_left, List.append_nil]
    refine and_congr_right fun _ => ⟨?_, ?_⟩
    · rintro rfl
      exact ⟨rfl, hfound⟩
    · rintro ⟨hentries, -⟩
      exact congrArg Table.mk hentries
  | true =>
    simp only [addDocument_of_kind hkind, adds_of_kind hkind]
    cases ha : read d with
    | error f =>
      constructor
      · intro h
        cases h
      · rintro ⟨_, ⟨n, a, -, ha, -⟩, -⟩
        cases ha
    | ok a =>
      have hname : d.givenName = .text (name a) := h d a ha
      have hadded : ∀ es, (∃ n b, d.givenName = .text n ∧ Except.ok a = (.ok b : Reading α) ∧
          es = [(n, b)]) ↔ es = [(name a, a)] := by
        intro es
        simp [hname]
      simp only [hadded, exists_eq_left]
      exact Table.setNew_eq_ok_iff hfound (name a) a (Fault.repeated kind (name a) file)

end Document

/-! ### Files -/

section Files

variable {items : List (Except Yaml.Fault Datum)} {es : List (String × α)}
  {t : Table String α} {d e : Directory} {subdirectory : String}

/-- A stream gives the values of all documents that it has, if each of them has one. -/
theorem values_eq_ok_iff {s : Yaml.Stream} {ds : List Datum} :
    s.values = .ok ds ↔ s.items = ds.map .ok := by
  constructor
  · intro h
    have hitems := Attempt.map_eq_map_of_mapM (g := id) (k := .ok) h fun _ _ heq => heq
    rwa [List.map_id] at hitems
  · intro h
    rw [Yaml.Stream.values, h]
    exact Attempt.mapM_map_eq_ok fun _ _ => rfl

/-- Only documents that have a value add anything, or nothing, and they are mappings if they say
    anything. -/
theorem exists_values_of_together (h : Together (Adds kind read) items es) :
    ∃ ds : List Datum, items = ds.map .ok ∧ ∀ d ∈ ds, d.IsSection := by
  obtain ⟨ess, hadds, -⟩ := h
  induction hadds with
  | nil => exact ⟨[], rfl, nofun⟩
  | cons hadd _ ih =>
    obtain ⟨ds, rfl, hds⟩ := ih
    obtain ⟨d, rfl, hd⟩ := hadd.exists_section
    exact ⟨d :: ds, rfl, List.forall_mem_cons.mpr ⟨hd, hds⟩⟩

theorem together_map_ok {ds : List Datum} :
    Together (Adds kind read) (ds.map .ok) es ↔ Together (fun d => Adds kind read (.ok d)) ds es := by
  simp only [Together, List.forall₂_map_left_iff]

/-- A file puts what its documents add behind what was found before. -/
theorem appends_addFile (h : NamesAsGiven read name) :
    Table.Appends (addFile kind read name) fun file => Together (Adds kind read) file.2.items := by
  intro found file t hfound
  have happends : Table.Appends (addDocument kind read name file.1) fun d => Adds kind read (.ok d) :=
    appends_addDocument h file.1
  have hrun := happends.run found
  constructor
  · intro hload
    obtain ⟨ds, hds, hload⟩ := Attempt.of_bind_eq_ok hload
    obtain ⟨es, hes, hentries⟩ := (hrun ds t hfound).mp hload
    refine ⟨es, ?_, hentries⟩
    dsimp only
    rwa [values_eq_ok_iff.mp (Attempt.of_mapError_eq_ok hds), together_map_ok]
  · rintro ⟨es, hes, hentries⟩
    obtain ⟨ds, hds, -⟩ := exists_values_of_together hes
    rw [hds, together_map_ok] at hes
    refine Attempt.bind_eq_ok (a := ds) ?_ ((hrun ds t hfound).mpr ⟨es, hes, hentries⟩)
    rw [values_eq_ok_iff.mpr hds]
    rfl

/-- The manifests of a kind in a subdirectory are loaded when each document there adds something or
    nothing, and no name is added twice; they are what the documents add. -/
theorem loadManifests_eq_ok_iff (h : NamesAsGiven read name) :
    loadManifests subdirectory kind read name d = .ok t ↔
      Together (Adds kind read) (d.documents subdirectory) t.entries ∧ t.keys.Nodup := by
  have happends : Table.Appends (addFile kind read name) fun file =>
      Together (Adds kind read) file.2.items := appends_addFile h
  have hrun := happends.run Table.empty (d.manifestFiles subdirectory) t List.nodup_nil
  rw [loadManifests, hrun]
  simp only [together_flatMap, Table.empty, List.nil_append]
  constructor
  · rintro ⟨es, hes, hentries, ht⟩
    exact ⟨hentries ▸ hes, ht⟩
  · rintro ⟨hes, ht⟩
    exact ⟨t.entries, hes, rfl, ht⟩

/-- The same documents in other files are loaded to the same entries. -/
theorem exists_loadManifests_of_perm (h : NamesAsGiven read name)
    (hdocuments : (d.documents subdirectory).Perm (e.documents subdirectory))
    (hload : loadManifests subdirectory kind read name d = .ok t) :
    ∃ u, loadManifests subdirectory kind read name e = .ok u ∧ t.entries.Perm u.entries := by
  obtain ⟨htogether, hkeys⟩ := (loadManifests_eq_ok_iff h).mp hload
  obtain ⟨es, hes, hperm⟩ := htogether.of_perm hdocuments
  have hkeys' : (es.map (·.1)).Nodup := (hperm.map _).nodup_iff.mpr hkeys
  exact ⟨⟨es⟩, (loadManifests_eq_ok_iff h).mpr ⟨hes, hkeys'⟩, hperm.symm⟩

end Files

/-! ### What is loaded -/

/-- The documents of a kind among those that have a value. -/
def manifestsOf (kind : String) (items : List (Except Yaml.Fault Datum)) : List Datum :=
  (items.filterMap Except.toOption).filter (·.isOf kind)

/-- A table that holds the manifests of a kind in documents: all documents have a value, which is a
    mapping if it says anything, no two of the kind give one name, and each of these is read once, in its
    place and under its name. -/
structure Holds (kind : String) (read : Datum → Reading α) (items : List (Except Yaml.Fault Datum))
    (t : Table String α) : Prop where
  legible : ∃ ds : List Datum, items = ds.map .ok ∧ ∀ d ∈ ds, d.IsSection
  distinct : ((manifestsOf kind items).map Datum.givenName).Nodup
  entries : List.Forall₂ (fun d e => d.givenName = .text e.1 ∧ read d = .ok e.2)
    (manifestsOf kind items) t.entries

section Loaded

variable {items : List (Except Yaml.Fault Datum)} {es : List (String × α)}

theorem manifestsOf_cons_of_kind {d : Datum} (h : d.isOf kind = true) :
    manifestsOf kind (.ok d :: items) = d :: manifestsOf kind items :=
  List.filter_cons_of_pos h

theorem manifestsOf_cons_of_not {d : Datum} (h : d.isOf kind = false) :
    manifestsOf kind (.ok d :: items) = manifestsOf kind items :=
  List.filter_cons_of_neg (by rw [h]; exact Bool.false_ne_true)

/-- Together, documents add one entry for each of those that are of the kind. -/
theorem forall₂_of_together (h : Together (Adds kind read) items es) :
    List.Forall₂ (fun d e => d.givenName = .text e.1 ∧ read d = .ok e.2) (manifestsOf kind items)
      es := by
  obtain ⟨ess, hadds, rfl⟩ := h
  induction hadds with
  | nil => exact .nil
  | @cons item es items ess hadd _ ih =>
    cases hadd with
    | @nothing d hd =>
      have hkind : d.isOf kind = false := by
        rw [← Bool.not_eq_true]
        intro hkind
        exact absurd (hd.symm.trans (Datum.isGiven_of_isOf hkind)) Bool.false_ne_true
      rwa [manifestsOf_cons_of_not hkind]
    | @other d _ hkind => rwa [manifestsOf_cons_of_not hkind]
    | @manifest d n a hkind hname ha =>
      rw [manifestsOf_cons_of_kind hkind]
      exact .cons ⟨hname, ha⟩ ih

/-- Documents whose manifests are read as entries have these together. -/
theorem together_of_forall₂ {ds : List Datum} (hds : ∀ d ∈ ds, d.IsSection)
    (h : List.Forall₂ (fun d e => d.givenName = .text e.1 ∧ read d = .ok e.2)
      (manifestsOf kind (ds.map .ok)) es) : Together (Adds kind read) (ds.map .ok) es := by
  induction ds generalizing es with
  | nil =>
    cases h
    exact together_nil.mpr rfl
  | cons d ds ih =>
    rw [List.forall_mem_cons] at hds
    rw [List.map_cons] at h ⊢
    cases hkind : d.isOf kind with
    | false =>
      rw [manifestsOf_cons_of_not hkind] at h
      exact together_cons.mpr ⟨[], es, (adds_of_not_kind hkind).mpr ⟨hds.1, rfl⟩, ih hds.2 h, rfl⟩
    | true =>
      rw [manifestsOf_cons_of_kind hkind] at h
      obtain ⟨⟨n, a⟩, rest, ⟨hname, ha⟩, hrest, rfl⟩ := List.forall₂_cons_left_iff.mp h
      exact together_cons.mpr ⟨[(n, a)], rest, .manifest hkind hname ha, ih hds.2 hrest, rfl⟩

/-- The manifests of a kind are loaded exactly to the table that holds them. -/
theorem loadManifests_eq_ok_iff_holds {d : Directory} {subdirectory : String} {t : Table String α}
    (h : NamesAsGiven read name) : loadManifests subdirectory kind read name d = .ok t ↔
      Holds kind read (d.documents subdirectory) t := by
  -- the names are given as texts, so that they differ exactly when the keys do
  have hdistinct : List.Forall₂ (fun d e => d.givenName = .text e.1 ∧ read d = .ok e.2)
      (manifestsOf kind (d.documents subdirectory)) t.entries →
      (((manifestsOf kind (d.documents subdirectory)).map Datum.givenName).Nodup ↔ t.keys.Nodup) := by
    intro hentries
    have hnames : (manifestsOf kind (d.documents subdirectory)).map Datum.givenName =
        t.entries.map fun e => .text e.1 := map_eq_map_of_forall₂ hentries fun _ _ h => h.1
    have htext : Function.Injective Datum.text := fun _ _ heq =>
      Scalar.text.inj (Datum.scalar.inj heq)
    rw [hnames, ← List.nodup_map_iff htext, Table.keys, List.map_map]
    rfl
  rw [loadManifests_eq_ok_iff h]
  constructor
  · rintro ⟨htogether, hkeys⟩
    have hentries := forall₂_of_together htogether
    exact ⟨exists_values_of_together htogether, (hdistinct hentries).mpr hkeys, hentries⟩
  · rintro ⟨⟨ds, hds, hsections⟩, hnames, hentries⟩
    refine ⟨?_, (hdistinct hentries).mp hnames⟩
    rw [hds] at hentries ⊢
    exact together_of_forall₂ hsections hentries

end Loaded

/-- The order by names does not depend on the order of the entries, for no two have one name. -/
theorem byName_eq_of_perm {t u : Table String α} (ht : t.keys.Nodup)
    (h : t.entries.Perm u.entries) : byName t = byName u :=
  congrArg (List.map Prod.snd) (mergeSort_key_perm ht h)

end Config

namespace Manifest

/-- A part that is left out is read as an empty one, in which nothing is found either. -/
theorem valueAt_of_part {d s : Datum} {key : String} (h : part key d = .ok s) (k : String) :
    s.valueAt k = (d.valueAt key).valueAt k := by
  rw [part] at h
  cases hmember : member key d with
  | error f => rw [hmember] at h; cases h
  | ok v =>
    rw [hmember] at h
    cases h
    obtain rfl := member_eq_ok hmember
    cases hgiven : (d.valueAt key).isGiven with
    | true => simp only [hgiven, if_true]
    | false =>
      simp only [hgiven, Bool.false_eq_true, if_false]
      rw [Datum.valueAt, Datum.valueAt, Datum.get?_of_not_given hgiven]
      rfl

end Manifest

theorem Classifier.namesAsGiven : Config.NamesAsGiven ofManifest name := by
  intro d c h
  obtain ⟨metadata, spec, hmetadata, -, hread⟩ := readFrom_of_ofManifest h
  rw [Datum.givenName, ← Manifest.valueAt_of_part hmetadata]
  exact (Manifest.required_eq_ok hread.name).2

theorem EventSource.namesAsGiven : Config.NamesAsGiven ofManifest name := by
  intro d s h
  obtain ⟨f, hf, h⟩ := Attempt.of_bind_eq_ok h
  obtain ⟨_, -, h⟩ := Attempt.of_bind_eq_ok h
  obtain ⟨n, hname, h⟩ := Attempt.of_bind_eq_ok h
  obtain ⟨_, -, h⟩ := Attempt.of_bind_eq_ok h
  cases h
  obtain ⟨metadata, hmetadata, hf⟩ := Attempt.of_bind_eq_ok hf
  obtain ⟨spec, -, hf⟩ := Attempt.of_bind_eq_ok hf
  obtain ⟨given, hgiven, hf⟩ := Attempt.of_bind_eq_ok hf
  obtain ⟨_, hgroup, -⟩ := Attempt.of_bind_eq_ok hf
  obtain ⟨entries, rfl⟩ := Manifest.isMapping_of_memberOr hgroup
  cases hf
  rw [Datum.givenName, ← Manifest.valueAt_of_part hmetadata, ← Manifest.member_eq_ok hgiven]
  exact (Manifest.required_eq_ok hname).2

namespace Config

variable {b c : Config} {d e : Directory} {s : Settings}

/-! ### Directories with the same documents -/

/-- The settings that a file holds. -/
def settingsIn (x : Yaml.Stream) : Except Fault Settings := do
  (Settings.ofDatum (← x.single.mapError .yaml)).mapError .settings

theorem loadSettings_of_file {x : Yaml.Stream} (h : d.file? "engine.yaml" = some x) :
    loadSettings d = settingsIn x := by
  have hfiles : d.files.isNone = false := by
    rw [Directory.file?] at h
    cases hfiles : d.files with
    | none => rw [hfiles] at h; cases h
    | some t => rfl
  rw [loadSettings, hfiles, h]
  rfl

theorem loadSettings_of_no_file (h : d.file? "engine.yaml" = none) :
    ∃ f, loadSettings d = .error f := by
  rw [loadSettings, h]
  cases d.files.isNone <;> exact ⟨_, rfl⟩

/-- Settings are loaded from one file alone. -/
theorem loadSettings_eq_ok_iff :
    loadSettings d = .ok s ↔ ∃ x, d.file? "engine.yaml" = some x ∧ settingsIn x = .ok s := by
  cases h : d.file? "engine.yaml" with
  | none =>
    obtain ⟨f, hf⟩ := loadSettings_of_no_file h
    simp [hf]
  | some x => simp [loadSettings_of_file h]

theorem load_eq_ok_iff_parts : load d = .ok c ↔ loadSettings d = .ok c.settings ∧
    loadClassifiers d = .ok c.classifiers ∧ loadEventSources d = .ok c.eventSources := by
  rcases load_cases d with ⟨f, hs, hload⟩ | ⟨s, f, hs, ht, hload⟩ | ⟨s, t, f, hs, ht, hu, hload⟩ |
    ⟨s, t, u, hs, ht, hu, hload⟩
  · simp [hs, hload]
  · simp [ht, hload]
  · simp [hu, hload]
  · rw [hs, ht, hu, hload]
    constructor
    · rintro h
      cases h
      exact ⟨rfl, rfl, rfl⟩
    · rintro ⟨hs, ht, hu⟩
      cases hs
      cases ht
      cases hu
      rfl

/-- Two configurations that cannot be told apart by their settings, their classifiers in order of their
    names, and their event sources by name. -/
structure Alike (b c : Config) : Prop where
  settings : b.settings = c.settings
  classifiers : b.allClassifiers = c.allClassifiers
  eventSources : ∀ name, b.eventSources.get? name = c.eventSources.get? name

/-- Two directories with one file of settings and the same documents, in whatever files. -/
structure SameDocuments (d e : Directory) : Prop where
  engine : d.file? "engine.yaml" = e.file? "engine.yaml"
  classifiers : (d.documents "classifiers").Perm (e.documents "classifiers")
  eventSources : (d.documents "eventsources").Perm (e.documents "eventsources")

theorem SameDocuments.symm (h : SameDocuments d e) : SameDocuments e d :=
  ⟨h.engine.symm, h.classifiers.symm, h.eventSources.symm⟩

/-- What is loaded from a directory is loaded from every other one with the same documents. -/
theorem exists_load_of_same (h : SameDocuments d e) (hload : load d = .ok b) :
    ∃ c, load e = .ok c ∧ b.Alike c := by
  obtain ⟨hsettings, hclassifiers, hsources⟩ := load_eq_ok_iff_parts.mp hload
  have hsettings' : loadSettings e = .ok b.settings := by
    rwa [loadSettings_eq_ok_iff, ← h.engine, ← loadSettings_eq_ok_iff]
  obtain ⟨t, ht, hperm⟩ :=
    exists_loadManifests_of_perm Classifier.namesAsGiven h.classifiers hclassifiers
  obtain ⟨u, hu, hperm'⟩ :=
    exists_loadManifests_of_perm EventSource.namesAsGiven h.eventSources hsources
  have hkeys := ((loadManifests_eq_ok_iff Classifier.namesAsGiven).mp hclassifiers).2
  have hkeys' := ((loadManifests_eq_ok_iff EventSource.namesAsGiven).mp hsources).2
  exact ⟨⟨b.settings, t, u⟩, load_eq_ok_iff_parts.mpr ⟨hsettings', ht, hu⟩,
    ⟨rfl, byName_eq_of_perm hkeys hperm, Table.get?_eq_of_perm hkeys' hperm'⟩⟩

/-- Directories with the same settings and the same documents in other files are both refused, or both
    loaded, to configurations that are alike. A configuration is what is loaded exactly when its settings
    are and it holds each manifest of the documents once, no two of which give one name. -/
theorem load_heeds_documents_alone (h : SameDocuments d e) :
    ((∃ f g, load d = .error f ∧ load e = .error g) ∨
      ∃ b c, load d = .ok b ∧ load e = .ok c ∧ b.Alike c) ∧
    ∀ c, load d = .ok c ↔ loadSettings d = .ok c.settings ∧
      Holds "Classifier" Classifier.ofManifest (d.documents "classifiers") c.classifiers ∧
      Holds "EventSource" EventSource.ofManifest (d.documents "eventsources") c.eventSources := by
  constructor
  · cases hd : load d with
    | ok b =>
      obtain ⟨c, hc, halike⟩ := exists_load_of_same h hd
      exact .inr ⟨b, c, rfl, hc, halike⟩
    | error f =>
      cases he : load e with
      | error g => exact .inl ⟨f, g, rfl, rfl⟩
      | ok c =>
        obtain ⟨b, hb, -⟩ := exists_load_of_same h.symm he
        rw [hd] at hb
        cases hb
  · intro c
    rw [load_eq_ok_iff_parts, loadClassifiers, loadEventSources,
      loadManifests_eq_ok_iff_holds Classifier.namesAsGiven,
      loadManifests_eq_ok_iff_holds EventSource.namesAsGiven]

end Config

namespace Sample

open Config

/-- A classifier without labels. -/
def namedClassifier (name : String) : Datum :=
  .mapping [(.text "kind", .text "Classifier"),
    (.text "metadata", .mapping [(.text "name", .text name)])]

/-- An event source for pods. -/
def podSource : Datum :=
  .mapping [(.text "kind", .text "EventSource"),
    (.text "metadata", .mapping [(.text "name", .text "pods")]),
    (.text "spec", .mapping [(.text "version", .text "v1"), (.text "kind", .text "Pod")])]

def settingsFile : String × Yaml.Stream := ("engine.yaml", .ofValues [.mapping []])

/-- A directory whose classifiers stand in one file, with an event source and an empty document. -/
def oneFile : Directory :=
  ⟨"one", some ⟨[settingsFile,
    ("classifiers/all.yaml",
      .ofValues [namedClassifier "blue", podSource, .null, namedClassifier "red"]),
    ("eventsources/pods.yaml", .ofValues [podSource])]⟩⟩

/-- The same documents in two files, the other way round. -/
def twoFiles : Directory :=
  ⟨"two", some ⟨[("eventsources/a.yml", .ofValues [podSource]),
    ("classifiers/b.yml", .ofValues [namedClassifier "red", .null]),
    ("classifiers/c.yml", .ofValues [podSource, namedClassifier "blue"]), settingsFile]⟩⟩

theorem manifestFiles_oneFile :
    oneFile.manifestFiles "classifiers" = [("all.yaml",
        .ofValues [namedClassifier "blue", podSource, .null, namedClassifier "red"])] ∧
      oneFile.manifestFiles "eventsources" = [("pods.yaml", .ofValues [podSource])] :=
  ⟨List.mergeSort_singleton _, List.mergeSort_singleton _⟩

theorem manifestFiles_twoFiles :
    twoFiles.manifestFiles "classifiers" = [("b.yml", .ofValues [namedClassifier "red", .null]),
        ("c.yml", .ofValues [podSource, namedClassifier "blue"])] ∧
      twoFiles.manifestFiles "eventsources" = [("a.yml", .ofValues [podSource])] := by
  have hsorted : [("b.yml", Yaml.Stream.ofValues [namedClassifier "red", .null]),
      ("c.yml", .ofValues [podSource, namedClassifier "blue"])].Pairwise
        fun a b => decide (a.1 ≤ b.1) = true := by
    simp
  exact ⟨List.mergeSort_of_pairwise hsorted, List.mergeSort_singleton _⟩

theorem sameDocuments_oneFile_twoFiles : SameDocuments oneFile twoFiles where
  engine := rfl
  classifiers := by
    rw [Directory.documents, Directory.documents, manifestFiles_oneFile.1, manifestFiles_twoFiles.1]
    exact (List.reverse_perm _).symm
  eventSources := by
    rw [Directory.documents, Directory.documents, manifestFiles_oneFile.2, manifestFiles_twoFiles.2]
    exact .rfl

/-- A classifier that is all defaults but for its name. -/
def plainClassifier (name : String) : Classifier := ⟨name, [], [], [], none, none, List.nodup_nil⟩

/-- Pods of every namespace. -/
def allPods : EventSource := ⟨"pods", ⟨⟨"", "v1", "Pod", ""⟩, [], [], some 0, none, ""⟩, false⟩

theorem load_oneFile : load oneFile = .ok {
    settings := ⟨.int 4, "creation", [], .text "INFO", .null⟩
    classifiers := ⟨[("blue", plainClassifier "blue"), ("red", plainClassifier "red")]⟩
    eventSources := ⟨[("pods", allPods)]⟩ } := by
  rw [load, loadClassifiers, loadEventSources, loadManifests, loadManifests, manifestFiles_oneFile.1,
    manifestFiles_oneFile.2]
  rfl

end Sample

open Sample in
/-- Two classifiers and an event source are loaded from one file, or from two in the other order. -/
theorem red_and_blue_from_one_file_or_two :
    Config.SameDocuments oneFile twoFiles ∧
      ∃ b c, Config.load oneFile = .ok b ∧ Config.load twoFiles = .ok c ∧
        c.allClassifiers = [plainClassifier "blue", plainClassifier "red"] ∧
        c.eventSources.get? "pods" = some allPods := by
  refine ⟨sameDocuments_oneFile_twoFiles, ?_⟩
  obtain ⟨⟨f, -, hf, -⟩ | ⟨b, c, hb, hc, halike⟩, -⟩ :=
    Config.load_heeds_documents_alone sameDocuments_oneFile_twoFiles
  · rw [load_oneFile] at hf
    cases hf
  · have hsorted : [("blue", plainClassifier "blue"), ("red", plainClassifier "red")].Pairwise
        fun a b => decide (a.1 ≤ b.1) = true := by
      simp
    refine ⟨b, c, hb, hc, ?_, ?_⟩
    · rw [← halike.classifiers]
      rw [load_oneFile] at hb
      cases hb
      exact congrArg (List.map (·.2)) (List.mergeSort_of_pairwise hsorted)
    · rw [← halike.eventSources]
      rw [load_oneFile] at hb
      cases hb
      rfl

end FleetLabels
