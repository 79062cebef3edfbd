import FleetLabels.Table
import Mathlib.Data.List.Nodup

/-!
    Tables built from pairs.

    A table of pairs of different keys holds them in the order that they were given, and finds the
    value of each. Where pairs share a key, the last of them counts. -/

namespace FleetLabels.Table

variable {κ α : Type} [DecidableEq κ]

/-! ### Searching a list of entries -/

theorem find?_eq_none {key : κ} {es : List (κ × α)} (h : key ∉ es.map (·.1)) :
    find? key es = none := by
  induction es with
  | nil => rfl
  | cons e rest ih =>
    obtain ⟨k, v⟩ := e
    simp only [List.map_cons, List.mem_cons, not_or] at h
    rw [find?, if_neg (Ne.symm h.1), ih h.2]

theorem find?_eq_some {key : κ} {value : α} {es : List (κ × α)} (hkeys : (es.map (·.1)).Nodup)
    (h : (key, value) ∈ es) : find? key es = some value := by
  induction es with
  | nil => cases h
  | cons e rest ih =>
    obtain ⟨k, v⟩ := e
    simp only [List.map_cons, List.nodup_cons] at hkeys
    rcases List.mem_cons.mp h with heq | h
    · rw [Prod.mk.injEq] at heq
      rw [find?, if_pos heq.1.symm, heq.2]
    · have hne : k ≠ key := by
        rintro rfl
        exact hkeys.1 (List.mem_map_of_mem h)
      rw [find?, if_neg hne, ih hkeys.2 h]

/-! ### Filling a table -/

theorem put_of_notMem {key : κ} {value : α} {es : List (κ × α)} (h : key ∉ es.map (·.1)) :
    put key value es = es ++ [(key, value)] := by
  induction es with
  | nil => rfl
  | cons e rest ih =>
    obtain ⟨k, v⟩ := e
    simp only [List.map_cons, List.mem_cons, not_or] at h
    rw [put, if_neg (Ne.symm h.1), ih h.2, List.cons_append]

theorem foldl_set_entries (ps : List (κ × α)) (t : Table κ α)
    (h : ((t.entries ++ ps).map (·.1)).Nodup) :
    (ps.foldl (fun t p => t.set p.1 p.2) t).entries = t.entries ++ ps := by
  induction ps generalizing t with
  | nil => simp
  | cons p rest ih =>
    have hnew : p.1 ∉ t.entries.map (·.1) := by
      rw [List.map_append, List.nodup_append] at h
      intro hmem
      exact h.2.2 p.1 hmem p.1 (List.mem_map_of_mem List.mem_cons_self) rfl
    have hset : (t.set p.1 p.2).entries = t.entries ++ [p] := put_of_notMem hnew
    rw [List.foldl_cons, ih (t.set p.1 p.2) (by rw [hset]; simpa using h), hset]
    simp

/-- Pairs of different keys are all kept, in their order. -/
theorem ofList_eq {ps : List (κ × α)} (h : (ps.map (·.1)).Nodup) : ofList ps = ⟨ps⟩ := by
  have hentries : (ofList ps).entries = ps := by
    rw [ofList, foldl_set_entries ps empty (by simpa [empty] using h)]
    simp [empty]
  exact congrArg Table.mk hentries

/-- Each key of such a table leads to its value. -/
theorem get?_of_mem {key : κ} {value : α} {ps : List (κ × α)} (hkeys : (ps.map (·.1)).Nodup)
    (h : (key, value) ∈ ps) : (⟨ps⟩ : Table κ α).get? key = some value :=
  find?_eq_some hkeys h

theorem get?_of_notMem {key : κ} {ps : List (κ × α)} (h : key ∉ ps.map (·.1)) :
    (⟨ps⟩ : Table κ α).get? key = none :=
  find?_eq_none h

/-! ### Keys -/

theorem find?_isSome_iff {key : κ} {es : List (κ × α)} :
    (find? key es).isSome = true ↔ key ∈ es.map (·.1) := by
  induction es with
  | nil => simp [find?]
  | cons e rest ih =>
    obtain ⟨k, v⟩ := e
    by_cases hk : k = key
    · simp [find?, hk]
    · simp [find?, hk, ih, Ne.symm hk]

/-- The keys of a table are those that have a value. -/
theorem mem_keys_iff {t : Table κ α} {key : κ} : key ∈ t.keys ↔ (t.get? key).isSome = true :=
  find?_isSome_iff.symm

theorem map_fst_put (key : κ) (value : α) (es : List (κ × α)) :
    (put key value es).map (·.1) =
      if key ∈ es.map (·.1) then es.map (·.1) else es.map (·.1) ++ [key] := by
  induction es with
  | nil => rfl
  | cons e rest ih =>
    obtain ⟨k, v⟩ := e
    by_cases hk : k = key
    · simp [put, hk]
    · simp only [put, if_neg hk, List.map_cons, ih, List.mem_cons, Ne.symm hk, false_or]
      split <;> rfl

/-- A new key comes last. -/
theorem keys_set (t : Table κ α) (key : κ) (value : α) :
    (t.set key value).keys = if key ∈ t.keys then t.keys else t.keys ++ [key] :=
  map_fst_put key value t.entries

/-- No key stands in a table twice, whatever is set. -/
theorem nodup_keys_set {t : Table κ α} (h : t.keys.Nodup) (key : κ) (value : α) :
    (t.set key value).keys.Nodup := by
  rw [keys_set]
  split
  · exact h
  · rename_i hnew
    exact List.nodup_append.mpr ⟨h, List.nodup_singleton key, fun k hk j hj hkj =>
      hnew (List.mem_singleton.mp hj ▸ hkj ▸ hk)⟩

omit [DecidableEq κ] in
theorem length_keys (t : Table κ α) : t.keys.length = t.size := List.length_map _

/-- A new key makes a table longer by one. -/
theorem size_set_of_new {t : Table κ α} {key : κ} (h : t.get? key = none) (value : α) :
    (t.set key value).size = t.size + 1 := by
  have hnew : key ∉ t.keys := by simp [mem_keys_iff, h]
  rw [← length_keys, keys_set, if_neg hnew, List.length_append, length_keys, List.length_singleton]

/-- A key that was set and is new comes last, with its value. -/
theorem entries_set_of_new {t : Table κ α} {key : κ} (h : key ∉ t.keys) (value : α) :
    (t.set key value).entries = t.entries ++ [(key, value)] :=
  put_of_notMem h

omit [DecidableEq κ] in
/-- Behind different keys a further one has to be new. -/
theorem nodup_keys_iff_of_entries {t u : Table κ α} {key : κ} {value : α}
    (h : u.entries = t.entries ++ [(key, value)]) (ht : t.keys.Nodup) :
    u.keys.Nodup ↔ key ∉ t.keys := by
  have hkeys : u.keys = t.keys ++ [key] := by
    rw [keys, h, List.map_append]
    rfl
  rw [hkeys, ← List.concat_eq_append, List.nodup_concat, and_iff_left ht]

/-- Where no key stands twice, a key has the value that it stands with. -/
theorem get?_eq_some_iff {t : Table κ α} (h : t.keys.Nodup) {key : κ} {value : α} :
    t.get? key = some value ↔ (key, value) ∈ t.entries := by
  refine ⟨fun hget => ?_, get?_of_mem h⟩
  have hkey : key ∈ t.keys := mem_keys_iff.mpr (by rw [hget]; rfl)
  obtain ⟨⟨k, v⟩, hmem, rfl⟩ := List.mem_map.mp hkey
  have hv := get?_of_mem h hmem
  rw [hget] at hv
  exact Option.some.inj hv ▸ hmem

/-- The order of the entries does not matter to what is found. -/
theorem get?_eq_of_perm {t u : Table κ α} (ht : t.keys.Nodup) (h : t.entries.Perm u.entries)
    (key : κ) : t.get? key = u.get? key := by
  have hu : u.keys.Nodup := (h.map _).nodup_iff.mp ht
  refine Option.ext fun v => ?_
  rw [get?_eq_some_iff ht, get?_eq_some_iff hu, h.mem_iff]

/-! ### Pairs that share keys -/

theorem get?_foldl_set (ps : List (κ × α)) (t : Table κ α) (key : κ) :
    (ps.foldl (fun t p => t.set p.1 p.2) t).get? key =
      (((ps.filter fun p => p.1 = key).getLast?).map (·.2)).or (t.get? key) := by
  induction ps generalizing t with
  | nil => rfl
  | cons p rest ih =>
    rw [List.foldl_cons, ih, get?_set]
    by_cases hp : p.1 = key
    · simp only [hp, decide_true, List.filter_cons_of_pos, List.getLast?_cons, if_true]
      cases (rest.filter fun p => p.1 = key).getLast? <;> rfl
    · simp only [hp, decide_false, Bool.false_eq_true, not_false_eq_true,
        List.filter_cons_of_neg, if_false]

/-- The last of the pairs with a key gives its value. -/
theorem get?_ofList (ps : List (κ × α)) (key : κ) :
    (ofList ps).get? key = ((ps.filter fun p => p.1 = key).getLast?).map (·.2) := by
  rw [ofList, get?_foldl_set, get?_empty, Option.or_none]

/-! ### Tables made from tables -/

/-- The table in which the values of another one take the place of its own. -/
def overlay (t new : Table κ α) : Table κ α := new.entries.foldr (fun e t => t.set e.1 e.2) t

@[simp] theorem get?_overlay (t new : Table κ α) (key : κ) :
    (t.overlay new).get? key = (new.get? key).or (t.get? key) := by
  rw [overlay, get?.eq_1 new]
  induction new.entries with
  | nil => rfl
  | cons e rest ih =>
    obtain ⟨k, v⟩ := e
    rw [List.foldr_cons, get?_set, ih, find?]
    by_cases hk : k = key <;> simp [hk]

theorem find?_filter (p : κ → Bool) (key : κ) (es : List (κ × α)) :
    find? key (es.filter fun e => !p e.1) = if p key then none else find? key es := by
  induction es with
  | nil => simp [find?]
  | cons e rest ih =>
    obtain ⟨k, v⟩ := e
    by_cases hk : k = key
    · subst hk
      by_cases hp : p k = true
      · simpa [hp] using ih
      · simp [find?, hp]
    · by_cases hp : p k = true
      · simpa [find?, hp, hk] using ih
      · simpa [find?, hp, hk] using ih

/-- The table without some of its keys. -/
def drop (t : Table κ α) (p : κ → Bool) : Table κ α := ⟨t.entries.filter fun e => !p e.1⟩

@[simp] theorem get?_drop (t : Table κ α) (p : κ → Bool) (key : κ) :
    (t.drop p).get? key = if p key then none else t.get? key :=
  find?_filter p key t.entries

variable {β : Type}

theorem put_map (f : α → β) (key : κ) (value : α) (es : List (κ × α)) :
    put key (f value) (es.map fun e => (e.1, f e.2)) =
      (put key value es).map fun e => (e.1, f e.2) := by
  induction es with
  | nil => rfl
  | cons e rest ih =>
    obtain ⟨k, v⟩ := e
    by_cases hk : k = key <;> simp [put, hk, ih]

theorem foldl_set_map (f : α → β) (ps : List (κ × α)) (t : Table κ α) :
    (ps.map fun p => (p.1, f p.2)).foldl (fun t p => t.set p.1 p.2) (t.map f) =
      (ps.foldl (fun t p => t.set p.1 p.2) t).map f := by
  induction ps generalizing t with
  | nil => rfl
  | cons p rest ih =>
    have hset : (t.map f).set p.1 (f p.2) = (t.set p.1 p.2).map f :=
      congrArg Table.mk (put_map f p.1 p.2 t.entries)
    rw [List.map_cons, List.foldl_cons, List.foldl_cons, hset, ih]

/-- The values of pairs are changed before a table is made of them or after it. -/
theorem ofList_map (f : α → β) (ps : List (κ × α)) :
    ofList (ps.map fun p => (p.1, f p.2)) = (ofList ps).map f :=
  foldl_set_map f ps empty

end FleetLabels.Table
