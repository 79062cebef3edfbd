import FleetLabels.Inventory
import FleetLabels.Proofs.Attempt
import FleetLabels.Proofs.Table

/-!
    What inventories hold.

    However an inventory is filled, what it holds for a cluster are the resources read from what came
    under the key of that cluster, in their order, and nothing that came under another key changes
    them. -/

namespace FleetLabels

namespace Inventory

variable {inv : Inventory} {k : Cluster}

/-! ### Adding resources -/

/-- The inventory with more resources of one key. -/
def extend (key : String) (inv : Inventory) (rs : List Resource) : Inventory :=
  rs.foldl (fun inv r => inv.addResource key r) inv

theorem extend_append (key : String) (inv : Inventory) (rs ts : List Resource) :
    extend key inv (rs ++ ts) = extend key (extend key inv rs) ts := by
  rw [extend, List.foldl_append]
  rfl

theorem all_addResource (key : String) (inv : Inventory) (r : Resource) (k : Cluster) :
    (inv.addResource key r).all k = inv.all k ++ if key = k.key then [r] else [] := by
  rw [all, all, addResource, Table.alter, Table.get?_set]
  by_cases hkey : key = k.key
  · rw [if_pos hkey, if_pos hkey, hkey]
    rfl
  · rw [if_neg hkey, if_neg hkey, List.append_nil]

theorem all_extend (key : String) (inv : Inventory) (rs : List Resource) (k : Cluster) :
    (extend key inv rs).all k = inv.all k ++ if key = k.key then rs else [] := by
  induction rs generalizing inv with
  | nil => simp [extend]
  | cons r rest ih =>
    rw [extend, List.foldl_cons, ← extend, ih, all_addResource]
    split <;> simp

/-- Steps that each add what they read add, in a row, all that they read. -/
theorem foldlM_extend {ε δ : Type} {step : Inventory → δ → Except ε Inventory}
    {read : δ → Except ε (List Resource)} {key : String}
    (hstep : ∀ inv d, step inv d = (read d).map (extend key inv)) (ds : List δ) (inv : Inventory) :
    ds.foldlM step inv = (ds.mapM read).map fun rss => extend key inv rss.flatten := by
  induction ds generalizing inv with
  | nil => rfl
  | cons d rest ih =>
    rw [List.foldlM_cons, hstep, Attempt.mapM_cons]
    cases read d with
    | error e => rfl
    | ok rs =>
      refine (ih (extend key inv rs)).trans ?_
      cases rest.mapM read with
      | error e => rfl
      | ok rss => simp only [Except.map, Except.bind, List.flatten_cons, extend_append]

/-- After steps for several keys each key has what it had and what was read for it, in order. -/
theorem all_of_foldlM {ε δ : Type} {step : String → Inventory → δ → Except ε Inventory}
    {read : δ → Except ε (List Resource)}
    (hstep : ∀ key inv d, step key inv d = (read d).map (extend key inv)) (k : Cluster)
    {given : List (String × δ)} {start inv : Inventory}
    (h : given.foldlM (fun inv g => step g.1 inv g.2) start = .ok inv) :
    ∃ rss, ((given.filter fun g => g.1 = k.key).mapM fun g => read g.2) = .ok rss ∧
      inv.all k = start.all k ++ rss.flatten := by
  induction given generalizing start with
  | nil =>
    cases h
    exact ⟨[], rfl, by rw [List.flatten_nil, List.append_nil]⟩
  | cons g rest ih =>
    rw [List.foldlM_cons, hstep] at h
    obtain ⟨next, hnext, h⟩ := Attempt.of_bind_eq_ok h
    cases hread : read g.2 with
    | error e => rw [hread] at hnext; cases hnext
    | ok rs =>
      rw [hread] at hnext
      cases hnext
      obtain ⟨rss, hrss, hall⟩ := ih h
      rw [all_extend] at hall
      by_cases hkey : g.1 = k.key
      · refine ⟨rs :: rss, ?_, ?_⟩
        · rw [List.filter_cons_of_pos (by simpa using hkey), Attempt.mapM_cons, hread, hrss]
          rfl
        · rw [hall, if_pos hkey, List.flatten_cons, List.append_assoc]
      · refine ⟨rss, ?_, ?_⟩
        · rw [List.filter_cons_of_neg (by simpa using hkey)]
          exact hrss
        · rw [hall, if_neg hkey, List.append_nil]

/-! ### What manifests and streams hold -/

/-- The resources that the items of a value describe. -/
def described (d : Datum) : Reading (List Resource) :=
  match d.items? with
  | some ds => ds.mapM Resource.ofManifest
  | none => .error .shape

/-- The resources of a document. -/
def documented (d : Datum) : Reading (List Resource) := do
  (← manifestsOf d).mapM Resource.ofManifest

/-- The resources of an item of a stream. -/
def itemResources (item : Except Yaml.Fault Datum) : Except Fault (List Resource) := do
  (documented (← item.mapError .stream)).mapError .manifest

/-- The resources of a stream; a flaw of an earlier document comes first. -/
def streamed (s : Yaml.Stream) : Except Fault (List Resource) :=
  (s.items.mapM itemResources).map List.flatten

theorem add_eq (key : String) (inv : Inventory) (d : Datum) :
    add key inv d = ((Resource.ofManifest d).map fun r => [r]).map (extend key inv) := by
  rw [add]
  cases Resource.ofManifest d <;> rfl

theorem foldlM_add (key : String) (ds : List Datum) (inv : Inventory) :
    ds.foldlM (add key) inv = (ds.mapM Resource.ofManifest).map (extend key inv) := by
  rw [foldlM_extend (add_eq key), Attempt.mapM_map_singleton]
  cases ds.mapM Resource.ofManifest with
  | error e => rfl
  | ok rs => simp [Except.map, ← List.flatMap_def]

/-- The inventory with the items of a value. -/
def addItems (key : String) (inv : Inventory) (d : Datum) : Reading Inventory :=
  match d.items? with
  | some ds => ds.foldlM (add key) inv
  | none => .error .shape

theorem addItems_eq (key : String) (inv : Inventory) (d : Datum) :
    addItems key inv d = (described d).map (extend key inv) := by
  rw [addItems, described]
  cases d.items? with
  | none => rfl
  | some ds => exact foldlM_add key ds inv

theorem addDocument_eq (key : String) (inv : Inventory) (d : Datum) :
    addDocument key inv d = (documented d).map (extend key inv) := by
  rw [addDocument, documented]
  cases manifestsOf d with
  | error e => rfl
  | ok ds => exact foldlM_add key ds inv

theorem addStream_eq (key : String) (inv : Inventory) (s : Yaml.Stream) :
    addStream key inv s = (streamed s).map (extend key inv) := by
  have hstep : ∀ (inv : Inventory) (item : Except Yaml.Fault Datum),
      (do (addDocument key inv (← item.mapError .stream)).mapError Fault.manifest) =
        (itemResources item).map (extend key inv) := by
    rintro inv (f | d)
    · rfl
    · simp only [itemResources, Except.mapError, bind, Except.bind, addDocument_eq]
      cases documented d <;> rfl
  rw [addStream, foldlM_extend hstep, streamed]
  cases s.items.mapM itemResources <;> rfl

/-! ### What an inventory holds for a cluster -/

theorem all_ofManifests {given : List (String × Datum)} (h : ofManifests given = .ok inv)
    (k : Cluster) :
    ∃ rss, ((given.filter fun g => g.1 = k.key).mapM fun g => described g.2) = .ok rss ∧
      inv.all k = rss.flatten :=
  all_of_foldlM addItems_eq k h

theorem all_ofStreams {given : List (String × Yaml.Stream)} (h : ofStreams given = .ok inv)
    (k : Cluster) :
    ∃ rss, ((given.filter fun g => g.1 = k.key).mapM fun g => streamed g.2) = .ok rss ∧
      inv.all k = rss.flatten :=
  all_of_foldlM addStream_eq k h

end Inventory

end FleetLabels
