import FleetLabels.Proofs.Attempt
import FleetLabels.Proofs.Sorting
import FleetLabels.Proofs.Table
import Mathlib.Algebra.GroupWithZero.Nat

/-!
    Ownership of labels: the first classifier of the order that lists a key owns it.

    The scan goes through the classifiers in order and carries the keys owned so far. After a prefix
    of the order its state is `SettledBy` that prefix: a key is owned by the first classifier of the
    prefix that lists it, with that classifier's value. From one step of this follows what the scan
    leaves at its end, and that each classifier gets its `Share.among` the order: the keys that it is
    the first to list, and a denial with the owner's name for every other key that it lists. -/

namespace FleetLabels

/-! ### Classifiers and the keys that they list -/

namespace Classifier

/-- A classifier wants a label with a key. -/
def Lists (c : Classifier) (key : String) : Prop := key ∈ c.labels.map Label.key

instance (c : Classifier) (key : String) : Decidable (c.Lists key) :=
  inferInstanceAs (Decidable (key ∈ c.labels.map Label.key))

theorem wanted?_eq_none {c : Classifier} {key : String} (h : ¬ c.Lists key) :
    c.wanted? key = none := by
  rw [wanted?, List.find?_eq_none.mpr, Option.map_none]
  intro l hl heq
  exact h (beq_iff_eq.mp heq ▸ List.mem_map_of_mem hl)

/-- The value wanted at a key is that of a label with the key. -/
theorem wanted?_of_lists {c : Classifier} {key : String} (h : c.Lists key) :
    ∃ l ∈ c.labels, l.key = key ∧ c.wanted? key = some l.value := by
  obtain ⟨m, hm, rfl⟩ := List.mem_map.mp h
  cases hfind : c.labels.find? fun l => l.key == m.key with
  | none => exact absurd (List.find?_eq_none.mp hfind m hm) (by simp)
  | some l =>
    have hkey : l.key = m.key := by simpa using List.find?_some hfind
    exact ⟨l, List.mem_of_find?_eq_some hfind, hkey, by rw [wanted?, hfind]; rfl⟩

/-- The labels of a classifier in the order of their keys. -/
def sortedLabels (c : Classifier) : List Label :=
  c.labels.mergeSort fun a b => decide (a.key ≤ b.key)

theorem sortedLabels_perm (c : Classifier) : c.sortedLabels.Perm c.labels :=
  List.mergeSort_perm _ _

theorem nodup_sortedLabels (c : Classifier) : (c.sortedLabels.map Label.key).Nodup :=
  (c.sortedLabels_perm.map Label.key).nodup_iff.mpr c.distinct

theorem pairwise_le_sortedLabels (c : Classifier) :
    c.sortedLabels.Pairwise fun a b => a.key ≤ b.key :=
  pairwise_mergeSort_key Label.key c.labels

/-- In the order of their keys, different keys increase strictly. -/
theorem pairwise_sortedLabels (c : Classifier) :
    (c.sortedLabels.map Label.key).Pairwise (· < ·) := by
  have hle : (c.sortedLabels.map Label.key).Pairwise (· ≤ ·) :=
    List.pairwise_map.mpr c.pairwise_le_sortedLabels
  exact (List.pairwise_and_iff.mpr ⟨hle, c.nodup_sortedLabels⟩).imp fun h =>
    Std.lt_of_le_of_ne h.1 h.2

theorem mem_sortedLabels_map {c : Classifier} {key : String} :
    key ∈ c.sortedLabels.map Label.key ↔ c.Lists key :=
  (c.sortedLabels_perm.map Label.key).mem_iff

end Classifier

/-- The first classifier of an order that lists a key. -/
def claimant? (order : List Classifier) (key : String) : Option Classifier :=
  order.find? fun c => c.Lists key

theorem claimant?_some {order : List Classifier} {key : String} {c : Classifier}
    (h : claimant? order key = some c) : c ∈ order ∧ c.Lists key := by
  rw [claimant?] at h
  have hlists := List.find?_some h
  exact ⟨List.mem_of_find?_eq_some h, of_decide_eq_true hlists⟩

theorem claimant?_eq_none {order : List Classifier} {key : String} :
    claimant? order key = none ↔ ∀ c ∈ order, ¬ c.Lists key := by
  simp [claimant?]

theorem claimant?_append (pre post : List Classifier) (key : String) :
    claimant? (pre ++ post) key = (claimant? pre key).or (claimant? post key) := List.find?_append

theorem claimant?_cons (c : Classifier) (post : List Classifier) (key : String) :
    claimant? (c :: post) key = if c.Lists key then some c else claimant? post key := by
  rw [claimant?, List.find?_cons]
  by_cases h : c.Lists key <;> simp [h, claimant?]

theorem claimant?_concat (done : List Classifier) (c : Classifier) (key : String) :
    claimant? (done ++ [c]) key =
      (claimant? done key).or (if c.Lists key then some c else none) := by
  rw [claimant?_append, claimant?_cons]
  rfl

/-! ### Places in an order -/

/-- A classifier lists a key, and nobody else who lists it stands before it. -/
structure FirstToList (order : List String) (cs : List Classifier) (key : String)
    (c : Classifier) : Prop where
  mem : c ∈ cs
  lists : c.Lists key
  first : ∀ d ∈ cs, d.Lists key → order.idxOf c.name ≤ order.idxOf d.name

theorem FirstToList.of_mem_iff {order : List String} {cs ds : List Classifier} {key : String}
    {c : Classifier} (h : FirstToList order cs key c) (hmem : ∀ d, d ∈ cs ↔ d ∈ ds) :
    FirstToList order ds key c :=
  ⟨(hmem c).mp h.mem, h.lists, fun d hd => h.first d ((hmem d).mpr hd)⟩

/-- In an order of different names everybody stands strictly before all that follow. -/
theorem pairwise_idxOf {order : List Classifier} (hnames : (order.map Classifier.name).Nodup) :
    order.Pairwise fun c d => (order.map Classifier.name).idxOf c.name <
      (order.map Classifier.name).idxOf d.name := by
  have hplace : ∀ i (hi : i < order.length),
      (order.map Classifier.name).idxOf order[i].name = i := by
    intro i hi
    have hidx := hnames.idxOf_getElem i (by simpa using hi)
    rwa [List.getElem_map] at hidx
  rw [List.pairwise_iff_getElem]
  intro i j hi hj hij
  rw [hplace i hi, hplace j hj]
  exact hij

/-- The first claimant in a line, some of an order, is the first to list the key there. -/
theorem claimant?_eq_some_iff {order : List String} {line : List Classifier}
    (hline : line.Pairwise fun c d => order.idxOf c.name < order.idxOf d.name) {key : String}
    {c : Classifier} : claimant? line key = some c ↔ FirstToList order line key c := by
  constructor
  · intro h
    obtain ⟨hmem, hlists⟩ := claimant?_some h
    refine ⟨hmem, hlists, fun d hd hdlists => ?_⟩
    obtain ⟨-, pre, post, rfl, hpre⟩ := List.find?_eq_some_iff_append.mp h
    rcases List.mem_append.mp hd with hd | hd
    · have hnot := hpre d hd
      simp [hdlists] at hnot
    · rcases List.mem_cons.mp hd with rfl | hd
      · exact Nat.le_refl _
      · have hbehind := (List.pairwise_append.mp hline).2.1
        exact Nat.le_of_lt ((List.pairwise_cons.mp hbehind).1 d hd)
  · rintro ⟨hmem, hlists, hfirst⟩
    obtain ⟨pre, post, rfl⟩ := List.append_of_mem hmem
    refine List.find?_eq_some_iff_append.mpr ⟨by simpa using hlists, pre, post, rfl, fun d hd => ?_⟩
    have hbefore := (List.pairwise_append.mp hline).2.2 d hd c List.mem_cons_self
    have hnot : ¬ d.Lists key := fun hdlists =>
      Nat.not_le_of_lt hbefore (hfirst d (List.mem_append_left _ hd) hdlists)
    simpa using hnot

/-! ### One classifier's turn -/

namespace Ownership

/-- The owner of a key and its value once the classifiers of a list had their turn. -/
structure SettledBy (o : Ownership) (done : List Classifier) : Prop where
  owners : ∀ key, o.owners.get? key = (claimant? done key).map Classifier.name
  desired : ∀ key, o.desired.get? key = (claimant? done key).bind fun c => c.wanted? key

theorem settledBy_empty : empty.SettledBy [] := ⟨fun _ => rfl, fun _ => rfl⟩

/-- Claiming labels of different keys: a key keeps its owner, and one without goes to the claimant. -/
theorem owners_foldl_claim (name : String) (ls : List Label) (o : Ownership) (share : Share) (key : String) :
    (ls.foldl (claim name) (o, share)).1.owners.get? key =
      (o.owners.get? key).or (if key ∈ ls.map Label.key then some name else none) := by
  induction ls generalizing o share with
  | nil => simp
  | cons l rest ih =>
    rw [List.foldl_cons]
    cases howner : o.owners.get? l.key with
    | none =>
      simp only [claim, howner, ih, Table.get?_set, List.map_cons, List.mem_cons]
      by_cases hkey : l.key = key
      · subst hkey; simp [howner]
      · simp [hkey, Ne.symm hkey]
    | some owner =>
      simp only [claim, howner, ih, List.map_cons, List.mem_cons]
      by_cases hkey : l.key = key
      · subst hkey; simp [howner]
      · simp [Ne.symm hkey]

/-- The value of a key follows its owner. -/
theorem desired_foldl_claim (name : String) (ls : List Label) (o : Ownership) (share : Share) (key : String) :
    (ls.foldl (claim name) (o, share)).1.desired.get? key =
      if (o.owners.get? key).isSome then o.desired.get? key
      else ((ls.find? fun l => l.key == key).map Label.value).or (o.desired.get? key) := by
  induction ls generalizing o share with
  | nil => simp
  | cons l rest ih =>
    rw [List.foldl_cons]
    cases howner : o.owners.get? l.key with
    | none =>
      simp only [claim, howner, ih, Table.get?_set]
      by_cases hkey : l.key = key
      · subst hkey; simp [howner]
      · simp [hkey]
    | some owner =>
      simp only [claim, howner, ih]
      by_cases hkey : l.key = key
      · subst hkey; simp [howner]
      · simp [hkey]

/-- What a claimant gets: the keys without an owner, and a denial for each of the others. -/
theorem share_foldl_claim (name : String) {ls : List Label} (hkeys : (ls.map Label.key).Nodup)
    (o : Ownership) (share : Share) :
    (ls.foldl (claim name) (o, share)).2 =
      ⟨share.managed ++ (ls.filter fun l => (o.owners.get? l.key).isNone).map Label.key,
        share.unmanaged ++ ls.filterMap fun l => (o.owners.get? l.key).map fun w => ⟨l.key, w⟩⟩ := by
  induction ls generalizing o share with
  | nil => simp
  | cons l rest ih =>
    obtain ⟨hl, hrest⟩ := List.nodup_cons.mp hkeys
    rw [List.foldl_cons]
    cases howner : o.owners.get? l.key with
    | none =>
      -- the rest of the labels have other keys, so they find the owners as they were
      have hsame : ∀ m ∈ rest, (o.owners.set l.key name).get? m.key = o.owners.get? m.key := by
        intro m hm
        have hne : l.key ≠ m.key := fun heq => hl (heq ▸ List.mem_map_of_mem hm)
        rw [Table.get?_set, if_neg hne]
      simp only [claim, howner]
      rw [ih hrest]
      have hfilter := List.filter_congr fun m hm => congrArg Option.isNone (hsame m hm)
      have hdenied := List.filterMap_congr fun m hm =>
        congrArg (Option.map fun w => (⟨m.key, w⟩ : Unmanaged)) (hsame m hm)
      rw [hfilter, hdenied, List.filter_cons, List.filterMap_cons]
      simp [howner]
    | some owner =>
      simp only [claim, howner]
      rw [ih hrest]
      simp [howner]

end Ownership

/-- What a classifier gets when its turn comes after others. -/
def Share.after (done : List Classifier) (c : Classifier) : Share where
  managed := (c.sortedLabels.filter fun l => (claimant? done l.key).isNone).map Label.key
  unmanaged := c.sortedLabels.filterMap fun l =>
    (claimant? done l.key).map fun d => ⟨l.key, d.name⟩

/-- The value of a key is the same in any order of labels with different keys. -/
theorem Classifier.wanted?_eq_sorted (c : Classifier) (key : String) :
    ((c.sortedLabels.find? fun l => l.key == key).map Label.value) = c.wanted? key := by
  have hperm := c.sortedLabels_perm
  cases hfind : c.labels.find? fun l => l.key == key with
  | none =>
    rw [Classifier.wanted?, hfind, List.find?_eq_none.mpr]
    intro l hl
    exact List.find?_eq_none.mp hfind l (hperm.mem_iff.mp hl)
  | some l =>
    have hl := hperm.mem_iff.mpr (List.mem_of_find?_eq_some hfind)
    have hkey : l.key = key := by simpa using List.find?_some hfind
    have hsingle := filter_eq_singleton c.nodup_sortedLabels hl
    rw [Classifier.wanted?, hfind, ← List.head?_filter, ← hkey, hsingle]
    rfl

namespace Ownership

/-- One turn: the state stays settled, and the claimant gets what the others left. -/
theorem claimAll_settled {o : Ownership} {done : List Classifier} (h : o.SettledBy done)
    (c : Classifier) :
    (o.claimAll c).1.SettledBy (done ++ [c]) ∧ (o.claimAll c).2 = Share.after done c := by
  refine ⟨⟨fun key => ?_, fun key => ?_⟩, ?_⟩
  · have howners := owners_foldl_claim c.name c.sortedLabels o ⟨[], []⟩ key
    rw [claimAll]
    refine howners.trans ?_
    rw [h.owners, claimant?_concat]
    simp only [Classifier.mem_sortedLabels_map]
    cases claimant? done key <;> by_cases hkey : c.Lists key <;> simp [hkey]
  · have hdesired := desired_foldl_claim c.name c.sortedLabels o ⟨[], []⟩ key
    rw [claimAll]
    refine hdesired.trans ?_
    rw [h.owners, h.desired, claimant?_concat, Classifier.wanted?_eq_sorted]
    cases claimant? done key with
    | some d => simp
    | none =>
      by_cases hkey : c.Lists key
      · simp [hkey]
      · simp [hkey, Classifier.wanted?_eq_none hkey]
  · have hshare := share_foldl_claim c.name c.nodup_sortedLabels o ⟨[], []⟩
    rw [claimAll]
    refine hshare.trans ?_
    simp [h.owners, Share.after, Option.map_map, Function.comp_def]

end Ownership

/-! ### A scan of the whole order -/

/-- What the classifiers of a list get in turn, after others. -/
def sharesAfter : List Classifier → List Classifier → List (Classifier × Share)
  | _, [] => []
  | done, c :: rest => (c, Share.after done c) :: sharesAfter (done ++ [c]) rest

/-- What a classifier gets of an order: the keys that it is the first to list, and a denial for every
    key that another one lists before it. -/
def Share.among (order : List Classifier) (c : Classifier) : Share where
  managed := (c.sortedLabels.filter fun l => claimant? order l.key = some c).map Label.key
  unmanaged := c.sortedLabels.filterMap fun l =>
    ((claimant? order l.key).filter fun d => d ≠ c).map fun d => ⟨l.key, d.name⟩

/-- Whoever comes later takes nothing away from a classifier. -/
theorem Share.after_eq_among {done rest : List Classifier} {c : Classifier} (h : c ∉ done) :
    Share.after done c = Share.among (done ++ c :: rest) c := by
  have hfirst : ∀ l ∈ c.sortedLabels,
      claimant? (done ++ c :: rest) l.key = (claimant? done l.key).or (some c) := by
    intro l hl
    have hlists : c.Lists l.key := Classifier.mem_sortedLabels_map.mp (List.mem_map_of_mem hl)
    rw [claimant?, claimant?, List.find?_append, List.find?_cons, decide_eq_true hlists]
  have hother : ∀ l d, claimant? done l = some d → d ≠ c := by
    rintro l d hd rfl
    exact h (claimant?_some hd).1
  rw [Share.after, Share.among]
  congr 1
  · refine congrArg _ (List.filter_congr fun l hl => ?_)
    rw [hfirst l hl]
    cases hd : claimant? done l.key with
    | none => simp
    | some d => simp [hother l.key d hd]
  · refine List.filterMap_congr fun l hl => ?_
    rw [hfirst l hl]
    cases hd : claimant? done l.key with
    | none => simp [Option.filter_some]
    | some d => simp [Option.filter_some, hother l.key d hd]

theorem sharesAfter_eq_map {done cs : List Classifier} (h : (done ++ cs).Nodup) :
    sharesAfter done cs = cs.map fun c => (c, Share.among (done ++ cs) c) := by
  induction cs generalizing done with
  | nil => rfl
  | cons c rest ih =>
    have hc : c ∉ done := fun hmem =>
      (List.nodup_append.mp h).2.2 c hmem c List.mem_cons_self rfl
    have hshare : Share.after done c = Share.among (done ++ c :: rest) c :=
      Share.after_eq_among hc
    rw [sharesAfter, ih (by simpa using h), hshare]
    simp

namespace Ownership

theorem scan_settled {cs done : List Classifier} {o : Ownership} (h : o.SettledBy done) :
    (o.scan cs).1.SettledBy (done ++ cs) ∧ (o.scan cs).2 = sharesAfter done cs := by
  induction cs generalizing done o with
  | nil => exact ⟨by simpa [scan] using h, rfl⟩
  | cons c rest ih =>
    obtain ⟨hsettled, hshare⟩ := claimAll_settled h c
    obtain ⟨hend, hshares⟩ := ih hsettled
    refine ⟨by simpa [scan] using hend, ?_⟩
    rw [sharesAfter, ← hshare, ← hshares]
    rfl

/-- A scan from nothing settles all keys, and each classifier has its share of the order. -/
theorem scan_empty {order : List Classifier} (hnodup : order.Nodup) :
    (empty.scan order).1.SettledBy order ∧
      (empty.scan order).2 = order.map fun c => (c, Share.among order c) := by
  obtain ⟨hsettled, hshares⟩ := scan_settled settledBy_empty
  exact ⟨hsettled, hshares.trans (sharesAfter_eq_map hnodup)⟩

theorem scan_map_fst (o : Ownership) (cs : List Classifier) :
    (o.scan cs).2.map (·.1) = cs := by
  induction cs generalizing o with
  | nil => rfl
  | cons c rest ih => simp [scan, ih]

/-- No key is owned twice, whoever claims. -/
theorem nodup_foldl_claim {name : String} (ls : List Label) {o : Ownership} (share : Share)
    (h : o.owners.keys.Nodup) : (ls.foldl (claim name) (o, share)).1.owners.keys.Nodup := by
  induction ls generalizing o share with
  | nil => exact h
  | cons l rest ih =>
    rw [List.foldl_cons, claim]
    cases o.owners.get? l.key with
    | none => exact ih _ (Table.nodup_keys_set h l.key name)
    | some owner => exact ih _ h

theorem nodup_scan {cs : List Classifier} {o : Ownership} (h : o.owners.keys.Nodup) :
    (o.scan cs).1.owners.keys.Nodup := by
  induction cs generalizing o with
  | nil => exact h
  | cons c rest ih => exact ih (nodup_foldl_claim c.sortedLabels ⟨[], []⟩ h)

/-- A claim makes one more key owned, or one more label denied. -/
theorem claim_counts (name : String) (state : Ownership × Share) (l : Label) :
    (claim name state l).1.owners.size + (claim name state l).2.unmanaged.length =
      state.1.owners.size + state.2.unmanaged.length + 1 := by
  obtain ⟨o, share⟩ := state
  cases howner : o.owners.get? l.key with
  | none =>
    simp only [claim, howner, Table.size_set_of_new howner]
    omega
  | some owner =>
    simp only [claim, howner, List.length_append, List.length_singleton]
    omega

theorem foldl_claim_counts (name : String) (ls : List Label) (state : Ownership × Share) :
    (ls.foldl (claim name) state).1.owners.size + (ls.foldl (claim name) state).2.unmanaged.length =
      state.1.owners.size + state.2.unmanaged.length + ls.length := by
  induction ls generalizing state with
  | nil => rfl
  | cons l rest ih =>
    rw [List.foldl_cons, ih, claim_counts, List.length_cons]
    omega

/-- Each label asked for in a scan makes one more key owned, or is denied. -/
theorem scan_counts (o : Ownership) (cs : List Classifier) :
    (o.scan cs).1.owners.size + ((o.scan cs).2.map fun s => s.2.unmanaged.length).sum =
      o.owners.size + (cs.map fun c => c.labels.length).sum := by
  induction cs generalizing o with
  | nil => rfl
  | cons c rest ih =>
    have hturn := foldl_claim_counts c.name c.sortedLabels (o, ⟨[], []⟩)
    have hrest := ih (o.claimAll c).1
    rw [c.sortedLabels_perm.length_eq] at hturn
    simp only [scan, List.map_cons, List.sum_cons]
    change (o.claimAll c).1.owners.size + (o.claimAll c).2.unmanaged.length =
      o.owners.size + 0 + c.labels.length at hturn
    omega

/-- A key is given an owner together with a value. -/
theorem keys_claim {name : String} {state : Ownership × Share}
    (h : state.1.owners.keys = state.1.desired.keys) (l : Label) :
    (claim name state l).1.owners.keys = (claim name state l).1.desired.keys := by
  obtain ⟨o, share⟩ := state
  cases howner : o.owners.get? l.key with
  | none =>
    simp only at h
    simp only [claim, howner, Table.keys_set, h]
  | some owner =>
    simp only [claim, howner]
    exact h

theorem keys_foldl_claim {name : String} (ls : List Label) {state : Ownership × Share}
    (h : state.1.owners.keys = state.1.desired.keys) :
    (ls.foldl (claim name) state).1.owners.keys =
      (ls.foldl (claim name) state).1.desired.keys := by
  induction ls generalizing state with
  | nil => exact h
  | cons l rest ih => exact ih (keys_claim h l)

theorem keys_scan {cs : List Classifier} {o : Ownership} (h : o.owners.keys = o.desired.keys) :
    (o.scan cs).1.owners.keys = (o.scan cs).1.desired.keys := by
  induction cs generalizing o with
  | nil => exact h
  | cons c rest ih => exact ih (keys_foldl_claim c.sortedLabels h)

theorem managed_foldl_claim {name : String} (ls : List Label) (o : Ownership) (share : Share) :
    ∀ key ∈ (ls.foldl (claim name) (o, share)).2.managed,
      key ∈ share.managed ∨ key ∈ ls.map Label.key := by
  induction ls generalizing o share with
  | nil => exact fun key hkey => .inl hkey
  | cons l rest ih =>
    intro key hkey
    rw [List.foldl_cons, claim] at hkey
    rw [List.map_cons, List.mem_cons]
    cases howner : o.owners.get? l.key with
    | none =>
      simp only [howner] at hkey
      rcases ih _ _ key hkey with hkey | hkey
      · rcases List.mem_append.mp hkey with hkey | hkey
        · exact .inl hkey
        · exact .inr (.inl (List.mem_singleton.mp hkey))
      · exact .inr (.inr hkey)
    | some owner =>
      simp only [howner] at hkey
      rcases ih _ _ key hkey with hkey | hkey
      · exact .inl hkey
      · exact .inr (.inr hkey)

/-- Nobody manages a key that it does not list. -/
theorem lists_of_managed {cs : List Classifier} {o : Ownership} {x : Classifier × Share}
    (hx : x ∈ (o.scan cs).2) {key : String} (hkey : key ∈ x.2.managed) : x.1.Lists key := by
  induction cs generalizing o with
  | nil => cases hx
  | cons c rest ih =>
    rcases List.mem_cons.mp hx with rfl | hx
    · rcases managed_foldl_claim c.sortedLabels o ⟨[], []⟩ key hkey with hkey | hkey
      · cases hkey
      · exact Classifier.mem_sortedLabels_map.mp hkey
    · exact ih hx

end Ownership

/-! ### Shares of an order -/

namespace Share

variable {order : List Classifier} {c : Classifier} {key : String}

theorem mem_managed_among : key ∈ (among order c).managed ↔ claimant? order key = some c := by
  rw [among, List.mem_map]
  constructor
  · rintro ⟨l, hl, rfl⟩
    simpa using (List.mem_filter.mp hl).2
  · intro h
    obtain ⟨l, hl, rfl⟩ := List.mem_map.mp
      (Classifier.mem_sortedLabels_map.mpr (claimant?_some h).2)
    exact ⟨l, List.mem_filter.mpr ⟨hl, by simpa using h⟩, rfl⟩

theorem lists_of_mem_unmanaged {u : Unmanaged} (h : u ∈ (among order c).unmanaged) :
    c.Lists u.key := by
  obtain ⟨l, hl, hu⟩ := List.mem_filterMap.mp h
  obtain ⟨d, -, rfl⟩ := Option.map_eq_some_iff.mp hu
  exact Classifier.mem_sortedLabels_map.mp (List.mem_map_of_mem hl)

/-- A denial names the classifier that lists the key first. -/
theorem owner_of_mem_unmanaged {u : Unmanaged} (h : u ∈ (among order c).unmanaged) :
    ∃ d, claimant? order u.key = some d ∧ d ≠ c ∧ u.owner = d.name := by
  obtain ⟨l, -, hu⟩ := List.mem_filterMap.mp h
  obtain ⟨d, hd, rfl⟩ := Option.map_eq_some_iff.mp hu
  obtain ⟨hd, hne⟩ := Option.filter_eq_some_iff.mp hd
  exact ⟨d, hd, of_decide_eq_true hne, rfl⟩

/-- Denials made for labels one by one have the keys of the labels. -/
theorem keys_denials {g : Label → Option Unmanaged} (hg : ∀ l u, g l = some u → u.key = l.key)
    (ls : List Label) :
    (ls.filterMap g).map Unmanaged.key = (ls.filter fun l => (g l).isSome).map Label.key := by
  induction ls with
  | nil => rfl
  | cons l rest ih =>
    cases hl : g l with
    | none => simp [hl, ih]
    | some u => simp [hl, hg l u hl, ih]

/-- A classifier of the order is denied the keys that another one lists first. -/
theorem keys_unmanaged (hc : c ∈ order) :
    (among order c).unmanaged.map Unmanaged.key =
      (c.sortedLabels.filter fun l => claimant? order l.key ≠ some c).map Label.key := by
  rw [among, keys_denials]
  · refine congrArg _ (List.filter_congr fun l hl => ?_)
    have hlists : c.Lists l.key := Classifier.mem_sortedLabels_map.mp (List.mem_map_of_mem hl)
    cases hd : claimant? order l.key with
    | none => exact absurd hlists (claimant?_eq_none.mp hd c hc)
    | some d => by_cases hdc : d = c <;> simp [hdc, Option.filter_some]
  · intro l u hu
    obtain ⟨d, -, rfl⟩ := Option.map_eq_some_iff.mp hu
    rfl

/-- What a classifier manages and what it is denied are, together, its keys. -/
theorem keys_perm (hc : c ∈ order) :
    ((among order c).managed ++ (among order c).unmanaged.map Unmanaged.key).Perm
      (c.labels.map Label.key) := by
  have hsplit := List.filter_append_perm (fun l => decide (claimant? order l.key = some c))
    c.sortedLabels
  have hperm := (hsplit.trans c.sortedLabels_perm).map Label.key
  rw [List.map_append] at hperm
  rw [keys_unmanaged hc]
  simpa only [among, decide_not] using hperm

theorem pairwise_managed : (among order c).managed.Pairwise (· < ·) :=
  c.pairwise_sortedLabels.sublist (List.filter_sublist.map Label.key)

theorem pairwise_unmanaged (hc : c ∈ order) :
    ((among order c).unmanaged.map Unmanaged.key).Pairwise (· < ·) := by
  rw [keys_unmanaged hc]
  exact c.pairwise_sortedLabels.sublist (List.filter_sublist.map Label.key)

/-- A classifier of the order is denied each label whose key another one lists first. -/
theorem length_unmanaged (hc : c ∈ order) :
    (among order c).unmanaged.length =
      c.sortedLabels.countP fun l => claimant? order l.key ≠ some c := by
  rw [← List.length_map Unmanaged.key, keys_unmanaged hc, List.length_map,
    List.countP_eq_length_filter]

/-- Denials made for labels one by one can be picked by the key of the label. -/
theorem filter_denials {g : Label → Option Unmanaged} (hg : ∀ l u, g l = some u → u.key = l.key)
    (ls : List Label) :
    ((ls.filterMap g).filter fun u => u.key == key) =
      (ls.filter fun l => l.key == key).filterMap g := by
  induction ls with
  | nil => rfl
  | cons l rest ih =>
    rw [List.filterMap_cons, List.filter_cons]
    cases hl : g l with
    | none => by_cases hkey : l.key = key <;> simp [hkey, hl, ih]
    | some u =>
      have hu := hg l u hl
      by_cases hkey : l.key = key <;> simp [hkey, hl, hu, ih]

/-- A key that another classifier lists first is denied once, with the name of that classifier. -/
theorem unmanaged_among (hlists : c.Lists key) {owner : Classifier}
    (howner : claimant? order key = some owner) (hne : owner ≠ c) :
    ((among order c).unmanaged.filter fun u => u.key == key) = [⟨key, owner.name⟩] := by
  obtain ⟨l, hl, rfl⟩ := List.mem_map.mp (Classifier.mem_sortedLabels_map.mpr hlists)
  rw [among, filter_denials, filter_eq_singleton c.nodup_sortedLabels hl]
  · simp [howner, hne, Option.filter_some]
  · intro m u hu
    obtain ⟨d, -, rfl⟩ := Option.map_eq_some_iff.mp hu
    rfl

end Share

end FleetLabels
