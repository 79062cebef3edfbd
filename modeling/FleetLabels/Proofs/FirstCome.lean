import FleetLabels.Proofs.Assembly

/-!
    First come, first served.

    Whatever the precedence, an arbitration among classifiers of different names gives each key to the
    first classifier of its order that lists it (`FirstToList`), with that classifier's value. The
    record of a classifier splits its keys into those that it owns and those that another one before it
    owns (`Arbitration.Served`), and each label asked for either makes one more key owned or is denied.
    Classifiers of which two have one name are refused. -/

namespace FleetLabels

namespace Arbitration

/-- What the record of a classifier has to say: each of its keys is either managed or unmanaged, managed
    when the classifier owns it, and unmanaged when another one that stands before it does. -/
structure Served (cs : List Classifier) (a : Arbitration) (c : Classifier) (r : MatchRecord) :
    Prop where
  cluster : r.cluster = a.cluster
  matched : r.matched = true
  failures : r.failures = []
  managed_sorted : r.managed.Pairwise (· < ·)
  unmanaged_sorted : (r.unmanaged.map Unmanaged.key).Pairwise (· < ·)
  disjoint : r.managed.Disjoint (r.unmanaged.map Unmanaged.key)
  keys : (r.managed ++ r.unmanaged.map Unmanaged.key).Perm (c.labels.map Label.key)
  owned : ∀ key, key ∈ r.managed ↔ a.owners.get? key = some c.name
  denied : ∀ u ∈ r.unmanaged, ∃ d ∈ cs, d ≠ c ∧ a.owners.get? u.key = some d.name ∧
    u.reason = "owned by " ++ d.name ∧ a.order.idxOf d.name < a.order.idxOf c.name

/-- An arbitration by first come, first served. -/
structure FirstCome (cluster : Cluster) (cs : List Classifier) (a : Arbitration) : Prop where
  cluster : a.cluster = cluster
  order : a.order.Perm (cs.map Classifier.name)
  owner : ∀ key, (∃ c ∈ cs, c.Lists key) → ∃ c, FirstToList a.order cs key c ∧
    a.owners.get? key = some c.name ∧ ∃ l ∈ c.labels, l.key = key ∧ a.desired.get? key = some l.value
  unowned : ∀ key, (∀ c ∈ cs, ¬ c.Lists key) → a.owners.get? key = none
  keys : a.owners.keys = a.desired.keys
  keys_nodup : a.owners.keys.Nodup
  records : a.records.keys = a.order
  served : ∀ c ∈ cs, ∃ r, a.records.get? c.name = some r ∧ Served cs a c r
  conflicts : a.conflicts + a.owners.size = (cs.map fun c => c.labels.length).sum

variable {p : Precedence} {cluster : Cluster} {cs : List Classifier} {c : Classifier} {key : String}

section Named

variable (hnames : (cs.map Classifier.name).Nodup)

include hnames

/-- A key that is listed goes to the first who lists it, with the value wanted there. -/
theorem owner_first (hlisted : ∃ c ∈ cs, c.Lists key) :
    ∃ c, FirstToList (among p cluster cs).order cs key c ∧
      (among p cluster cs).owners.get? key = some c.name ∧
      ∃ l ∈ c.labels, l.key = key ∧ (among p cluster cs).desired.get? key = some l.value := by
  obtain ⟨d, hd, hlists⟩ := hlisted
  rw [owner_among hnames, desired_among hnames]
  cases hc : claimant? (ordered p cs) key with
  | none =>
    have hdmem := (ordered_perm p cs).mem_iff.mpr hd
    exact absurd hlists (claimant?_eq_none.mp hc d hdmem)
  | some c =>
    obtain ⟨l, hl, hkey, hwanted⟩ := Classifier.wanted?_of_lists (claimant?_some hc).2
    exact ⟨c, firstToList_of_claimant hnames hc, rfl, l, hl, hkey, hwanted⟩

/-- Who is denied a key stands behind the owner of it. -/
theorem denied_behind_owner (hc : c ∈ cs) {u : Unmanaged}
    (hu : u ∈ (Share.among (ordered p cs) c).unmanaged) :
    ∃ d ∈ cs, d ≠ c ∧ (among p cluster cs).owners.get? u.key = some d.name ∧
      u.reason = "owned by " ++ d.name ∧
      (among p cluster cs).order.idxOf d.name < (among p cluster cs).order.idxOf c.name := by
  obtain ⟨d, hd, hne, howner⟩ := Share.owner_of_mem_unmanaged hu
  have hfirst : FirstToList (among p cluster cs).order cs u.key d :=
    firstToList_of_claimant hnames hd
  refine ⟨d, hfirst.mem, hne, ?_, ?_, ?_⟩
  · rw [owner_among hnames, hd]
    rfl
  · rw [Unmanaged.reason, howner]
  · refine Nat.lt_of_le_of_ne (hfirst.first c hc (Share.lists_of_mem_unmanaged hu)) fun heq => hne ?_
    have hplaced : d.name ∈ (among p cluster cs).order :=
      (order_among_perm p cluster cs).mem_iff.mpr (List.mem_map_of_mem hfirst.mem)
    exact eq_of_map_nodup hnames hfirst.mem hc ((List.idxOf_inj hplaced).mp heq)

theorem served_among (hc : c ∈ cs) :
    ∃ r, (among p cluster cs).records.get? c.name = some r ∧
      Served cs (among p cluster cs) c r := by
  have hmem : c ∈ ordered p cs := (ordered_perm p cs).mem_iff.mpr hc
  have hkeys := Share.keys_perm hmem
  refine ⟨_, record_among hnames hc, {
    cluster := rfl
    matched := rfl
    failures := rfl
    managed_sorted := Share.pairwise_managed
    unmanaged_sorted := Share.pairwise_unmanaged hmem
    disjoint := List.disjoint_of_nodup_append (hkeys.nodup_iff.mpr c.distinct)
    keys := hkeys
    owned := fun key => Share.mem_managed_among.trans
      (owner_eq_iff hnames fun d hd => eq_of_map_nodup hnames hd hc).symm
    denied := fun u hu => denied_behind_owner hnames hc hu }⟩

theorem firstCome_among : FirstCome cluster cs (among p cluster cs) where
  cluster := rfl
  order := order_among_perm p cluster cs
  owner := fun _ hlisted => owner_first hnames hlisted
  unowned := by
    intro key hnobody
    rw [owner_among hnames, Option.map_eq_none_iff, claimant?_eq_none]
    exact fun c hc => hnobody c ((ordered_perm p cs).mem_iff.mp hc)
  keys := Ownership.keys_scan rfl
  keys_nodup := Ownership.nodup_scan List.nodup_nil
  records := keys_records_among hnames
  served := fun _ hc => served_among hnames hc
  conflicts := conflicts_add_owned hnames

end Named

/-- Classifiers of different names are served first come, first served, and all others are refused with
    the names that come more than once. -/
theorem arbitrate_first_come (p : Precedence) (cluster : Cluster) (cs : List Classifier) :
    ((cs.map Classifier.name).Nodup →
      ∃ a, arbitrate p cluster cs = .ok a ∧ FirstCome cluster cs a) ∧
    (¬ (cs.map Classifier.name).Nodup → ∃ r, arbitrate p cluster cs = .error r ∧
      ∀ name, name ∈ r.names ↔ 1 < (cs.map Classifier.name).count name) := by
  refine ⟨fun hnames => ?_, fun hnames => ?_⟩
  · exact ⟨_, arbitrate_eq_among hnames, firstCome_among hnames⟩
  · refine ⟨⟨repeated (cs.map Classifier.name)⟩, ?_, fun name => mem_repeated⟩
    rw [arbitrate, if_neg (mt (repeated_isEmpty _).mp hnames)]

end Arbitration

open Sample in
/-- Two classifiers want one key, nobody wants another one, and who is given twice is refused. -/
theorem env_contested_on_north :
    (∃ a, Arbitration.arbitrate .byCreation north [blue, red] = .ok a ∧
      Arbitration.FirstCome north [blue, red] a ∧
      (∃ c, FirstToList a.order [blue, red] "env" c ∧ a.owners.get? "env" = some c.name) ∧
      a.owners.get? "zone" = none) ∧
      ∃ r, Arbitration.arbitrate .byCreation north [red, red] = .error r ∧ "red" ∈ r.names := by
  obtain ⟨a, ha, hfirst⟩ :=
    (Arbitration.arbitrate_first_come .byCreation north [blue, red]).1 (by decide)
  obtain ⟨r, hr, hrepeated⟩ :=
    (Arbitration.arbitrate_first_come .byCreation north [red, red]).2 (by decide)
  obtain ⟨c, hc, howner, -⟩ := hfirst.owner "env" ⟨red, by decide, by decide⟩
  refine ⟨⟨a, ha, hfirst, ⟨c, hc, howner⟩, ?_⟩, r, hr, (hrepeated "red").mpr (by decide)⟩
  exact hfirst.unowned "zone" (by decide)

end FleetLabels
