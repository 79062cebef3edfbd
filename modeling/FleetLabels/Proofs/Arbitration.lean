import FleetLabels.Proofs.Ownership

/-!
    What an arbitration says.

    Among classifiers of different names an arbitration is always made. Its tables give, for each key,
    the name and the value of the first classifier of its order that lists the key, and for each
    classifier the record of its share. The order that the classifiers came in leaves no trace. -/

namespace FleetLabels.Arbitration

open Std

variable {p : Precedence} {cluster : Cluster} {cs ds : List Classifier}

/-- The arbitration among classifiers of different names. -/
def among (p : Precedence) (cluster : Cluster) (cs : List Classifier) : Arbitration where
  cluster := cluster
  order := (Ownership.empty.scan (ordered p cs)).2.map fun s => s.1.name
  owners := (Ownership.empty.scan (ordered p cs)).1.owners
  desired := (Ownership.empty.scan (ordered p cs)).1.desired
  records := Table.ofList ((Ownership.empty.scan (ordered p cs)).2.map fun s =>
    (s.1.name, ⟨cluster, true, s.2.managed, s.2.unmanaged, []⟩))

theorem arbitrate_eq_among (h : (cs.map Classifier.name).Nodup) :
    arbitrate p cluster cs = .ok (among p cluster cs) := by
  rw [arbitrate, if_pos ((repeated_isEmpty _).mpr h)]
  rfl

theorem ordered_perm (p : Precedence) (cs : List Classifier) : (ordered p cs).Perm cs :=
  List.mergeSort_perm _ _

theorem nodup_ordered (h : (cs.map Classifier.name).Nodup) :
    ((ordered p cs).map Classifier.name).Nodup :=
  ((ordered_perm p cs).map Classifier.name).nodup_iff.mpr h

theorem ordered_eq_of_perm [TransCmp p] (hperm : cs.Perm ds) (h : (cs.map Classifier.name).Nodup) :
    ordered p cs = ordered p ds :=
  mergeSort_cmp_perm hperm fun _ ha _ hb htie =>
    eq_of_map_nodup h ha hb (Precedence.name_eq_of_total_eq htie)

/-- The order of the input leaves no trace in an arbitration. -/
theorem among_eq_of_perm [TransCmp p] (hperm : cs.Perm ds) (h : (cs.map Classifier.name).Nodup) :
    among p cluster cs = among p cluster ds := by
  rw [among, among, ordered_eq_of_perm hperm h]

theorem order_among (p : Precedence) (cluster : Cluster) (cs : List Classifier) :
    (among p cluster cs).order = (ordered p cs).map Classifier.name := by
  have h := congrArg (List.map Classifier.name) (Ownership.scan_map_fst .empty (ordered p cs))
  rwa [List.map_map] at h

/-- The order names each of the classifiers once. -/
theorem order_among_perm (p : Precedence) (cluster : Cluster) (cs : List Classifier) :
    (among p cluster cs).order.Perm (cs.map Classifier.name) := by
  rw [order_among]
  exact (ordered_perm p cs).map Classifier.name

/-- In an arbitration everybody stands strictly before all that follow. -/
theorem pairwise_places (p : Precedence) (cluster : Cluster)
    (h : (cs.map Classifier.name).Nodup) :
    (ordered p cs).Pairwise fun c d =>
      (among p cluster cs).order.idxOf c.name < (among p cluster cs).order.idxOf d.name := by
  rw [order_among]
  exact pairwise_idxOf (nodup_ordered h)

theorem firstToList_of_claimant (h : (cs.map Classifier.name).Nodup) {key : String}
    {c : Classifier} (hc : claimant? (ordered p cs) key = some c) :
    FirstToList (among p cluster cs).order cs key c :=
  ((claimant?_eq_some_iff (pairwise_places p cluster h)).mp hc).of_mem_iff fun _ =>
    (ordered_perm p cs).mem_iff

/-! ### Records -/

/-- The records stand in the order of the arbitration. -/
theorem records_among (h : (cs.map Classifier.name).Nodup) :
    (among p cluster cs).records.entries =
      (Ownership.empty.scan (ordered p cs)).2.map fun s =>
        (s.1.name, ⟨cluster, true, s.2.managed, s.2.unmanaged, []⟩) := by
  have horder := nodup_ordered (p := p) h
  rw [← order_among p cluster] at horder
  rw [among, Table.ofList_eq]
  rwa [List.map_map]

theorem keys_records_among (h : (cs.map Classifier.name).Nodup) :
    (among p cluster cs).records.keys = (among p cluster cs).order := by
  rw [Table.keys, records_among h, List.map_map]
  rfl

/-- The record of a classifier is the one of its share. -/
theorem record_of_share (h : (cs.map Classifier.name).Nodup) {x : Classifier × Share}
    (hx : x ∈ (Ownership.empty.scan (ordered p cs)).2) :
    (among p cluster cs).records.get? x.1.name =
      some ⟨cluster, true, x.2.managed, x.2.unmanaged, []⟩ := by
  have hkeys : (among p cluster cs).records.keys.Nodup := by
    rw [keys_records_among h]
    exact (order_among_perm p cluster cs).nodup_iff.mpr h
  refine Table.find?_eq_some hkeys ?_
  rw [records_among h]
  exact List.mem_map.mpr ⟨x, hx, rfl⟩

theorem exists_share {c : Classifier} (hc : c ∈ cs) :
    ∃ share, (c, share) ∈ (Ownership.empty.scan (ordered p cs)).2 := by
  have hmem : c ∈ (Ownership.empty.scan (ordered p cs)).2.map (·.1) := by
    rw [Ownership.scan_map_fst]
    exact (ordered_perm p cs).mem_iff.mpr hc
  obtain ⟨⟨d, share⟩, hx, rfl⟩ := List.mem_map.mp hmem
  exact ⟨share, hx⟩

theorem record_eq_none (h : (cs.map Classifier.name).Nodup) {name : String}
    (hname : name ∉ cs.map Classifier.name) :
    (among p cluster cs).records.get? name = none := by
  refine Table.find?_eq_none fun hmem => hname ?_
  rw [← order_among_perm p cluster cs |>.mem_iff, ← keys_records_among h]
  exact hmem

/-! ### Denials -/

theorem conflicts_eq_sum (h : (cs.map Classifier.name).Nodup) :
    (among p cluster cs).conflicts =
      ((Ownership.empty.scan (ordered p cs)).2.map fun s => s.2.unmanaged.length).sum := by
  rw [conflicts, Table.values, records_among h, ← List.sum_eq_foldl_nat, List.map_map, List.map_map]
  rfl

/-- Denials and owned keys are, together, as many as the labels asked for. -/
theorem conflicts_add_owned (h : (cs.map Classifier.name).Nodup) :
    (among p cluster cs).conflicts + (among p cluster cs).owners.size =
      (cs.map fun c => c.labels.length).sum := by
  have hcounts := Ownership.scan_counts .empty (ordered p cs)
  have hsum := ((ordered_perm p cs).map fun c => c.labels.length).sum_nat
  rw [← hsum, conflicts_eq_sum h, Nat.add_comm]
  exact hcounts.trans (Nat.zero_add _)

/-! ### Classifiers of different names -/

section Named

variable (hnames : (cs.map Classifier.name).Nodup)

include hnames

theorem scan_ordered :
    (Ownership.empty.scan (ordered p cs)).1.SettledBy (ordered p cs) ∧
      (Ownership.empty.scan (ordered p cs)).2 =
        (ordered p cs).map fun c => (c, Share.among (ordered p cs) c) :=
  Ownership.scan_empty (nodup_ordered hnames).of_map

theorem owner_among (key : String) :
    (among p cluster cs).owners.get? key =
      (claimant? (ordered p cs) key).map Classifier.name :=
  (scan_ordered hnames).1.owners key

/-- A classifier whose name no other one has owns a key when it is the first claimant. -/
theorem owner_eq_iff {c : Classifier} {key : String} (hc : ∀ d ∈ cs, d.name = c.name → d = c) :
    (among p cluster cs).owners.get? key = some c.name ↔
      claimant? (ordered p cs) key = some c := by
  rw [owner_among hnames]
  constructor
  · intro h
    obtain ⟨d, hd, hname⟩ := Option.map_eq_some_iff.mp h
    have hdmem := (ordered_perm p cs).mem_iff.mp (claimant?_some hd).1
    rw [hd, hc d hdmem hname]
  · intro h
    rw [h]
    rfl

theorem desired_among (key : String) :
    (among p cluster cs).desired.get? key =
      (claimant? (ordered p cs) key).bind fun c => c.wanted? key :=
  (scan_ordered hnames).1.desired key

theorem record_among {c : Classifier} (hc : c ∈ cs) :
    (among p cluster cs).records.get? c.name =
      some ⟨cluster, true, (Share.among (ordered p cs) c).managed,
        (Share.among (ordered p cs) c).unmanaged, []⟩ := by
  refine record_of_share (x := (c, Share.among (ordered p cs) c)) hnames ?_
  rw [(scan_ordered hnames).2]
  exact List.mem_map.mpr ⟨c, (ordered_perm p cs).mem_iff.mpr hc, rfl⟩

/-! ### Numbers -/

/-- The denials of an arbitration are one for each label whose key is first listed by another one. -/
theorem conflicts_among :
    (among p cluster cs).conflicts =
      (cs.map fun c => c.labels.countP fun l => claimant? (ordered p cs) l.key ≠ some c).sum := by
  have hdenied : ∀ c ∈ ordered p cs, (Share.among (ordered p cs) c).unmanaged.length =
      c.labels.countP fun l => claimant? (ordered p cs) l.key ≠ some c := by
    intro c hc
    rw [Share.length_unmanaged hc]
    exact c.sortedLabels_perm.countP_eq _
  have hperm := (ordered_perm p cs).map fun c =>
    c.labels.countP fun l => decide (claimant? (ordered p cs) l.key ≠ some c)
  rw [conflicts_eq_sum hnames, (scan_ordered hnames).2, List.map_map, ← hperm.sum_nat]
  exact congrArg List.sum (List.map_congr_left hdenied)

/-- Every key that is listed has an owner, and no other key has. -/
theorem owners_among_perm :
    (among p cluster cs).owners.keys.Perm
      (cs.flatMap fun c => c.labels.map Label.key).eraseDups := by
  have howners : (among p cluster cs).owners.keys.Nodup := Ownership.nodup_scan List.nodup_nil
  rw [List.perm_ext_iff_of_nodup howners (nodup_eraseDups _)]
  intro key
  rw [Table.mem_keys_iff, owner_among hnames, Option.isSome_map, List.mem_eraseDups,
    List.mem_flatMap]
  constructor
  · intro h
    obtain ⟨c, hc⟩ := Option.isSome_iff_exists.mp h
    obtain ⟨hmem, hlists⟩ := claimant?_some hc
    exact ⟨c, (ordered_perm p cs).mem_iff.mp hmem, hlists⟩
  · rintro ⟨c, hmem, hlists⟩
    by_contra hnone
    exact claimant?_eq_none.mp (Option.not_isSome_iff_eq_none.mp hnone) c
      ((ordered_perm p cs).mem_iff.mpr hmem) hlists

end Named

end FleetLabels.Arbitration
