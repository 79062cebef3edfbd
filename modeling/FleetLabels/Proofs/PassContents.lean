import FleetLabels.Proofs.Judgement
import Mathlib.Data.List.ProdSigma

/-!
    A pass loses no pair and holds none twice.

    With the clusters in their order and the classifiers in the order of their names, the lists of a
    pass are the products of the two, taken one way or the other: classifications go through the
    classifiers of one cluster after the other, reports through the clusters of one classifier after
    the other. Statuses are the reports grouped by classifier. Since the lists are sorted and no two
    of their members tie, it is enough to know which members they have. -/

namespace FleetLabels

open Std

/-! ### Products of sorted lists -/

/-- The product of two lists goes up where each of them does, the first one counting first. -/
theorem pairwise_product {α β : Type} {R : α → α → Prop} {S : β → β → Prop} {as : List α}
    {bs : List β} (has : as.Pairwise R) (hbs : bs.Pairwise S) :
    (as ×ˢ bs).Pairwise fun x y => R x.1 y.1 ∨ (x.1 = y.1 ∧ S x.2 y.2) := by
  change (as.flatMap fun a => bs.map (Prod.mk a)).Pairwise _
  rw [List.pairwise_flatMap]
  constructor
  · intro a _
    rw [List.pairwise_map]
    exact hbs.imp fun h => .inr ⟨rfl, h⟩
  · refine has.imp fun {a b} hab x hx y hy => ?_
    obtain ⟨_, _, rfl⟩ := List.mem_map.mp hx
    obtain ⟨_, _, rfl⟩ := List.mem_map.mp hy
    exact .inl hab

/-- A list that is strictly sorted by a comparison. -/
theorem pairwise_lt_of_isLE {α : Type} {cmp : α → α → Ordering} {l : List α} (hnodup : l.Nodup)
    (hle : l.Pairwise fun a b => (cmp a b).isLE = true)
    (hties : ∀ a ∈ l, ∀ b ∈ l, cmp a b = .eq → a = b) :
    l.Pairwise fun a b => cmp a b = .lt := by
  refine (hle.and hnodup).imp_of_mem ?_
  rintro a b ha hb ⟨hab, hne⟩
  cases hcmp : cmp a b with
  | lt => rfl
  | eq => exact absurd (hties a ha b hb hcmp) hne
  | gt =>
    rw [hcmp] at hab
    cases hab

/-- Pairs of a name and a cluster are sorted by the name first. -/
def pairOrder (x y : String × Cluster) : Ordering := (compare x.1 y.1).then (x.2.compare y.2)

instance : TransCmp pairOrder :=
  inferInstanceAs (TransCmp (compareLex (compareOn fun x : String × Cluster => x.1)
    (compareLex (compareOn fun x : String × Cluster => x.2.type.name)
      (compareLex (compareOn fun x : String × Cluster => x.2.space)
        (compareOn fun x : String × Cluster => x.2.name)))))

namespace Engine

variable {e : Engine} {src : Source} {source : Cluster → Source} {cs : List Classifier}
  {clusters : List Cluster} {k : Cluster} {r : Classification}

/-- Classifiers in the order of their names. -/
def sortedClassifiers (cs : List Classifier) : List Classifier :=
  cs.mergeSort fun a b => Precedence.byName a b != .gt

theorem sortedClassifiers_perm (cs : List Classifier) : (sortedClassifiers cs).Perm cs :=
  List.mergeSort_perm _ _

theorem sortedClusters_perm (clusters : List Cluster) : (sortedClusters clusters).Perm clusters :=
  List.mergeSort_perm _ _

section Accepted

variable (hnames : (cs.map Classifier.name).Nodup) (hkeys : (clusters.map Cluster.key).Nodup)

include hnames in
theorem eq_of_byName {c d : Classifier} (hc : c ∈ cs) (hd : d ∈ cs)
    (htie : Precedence.byName c d = .eq) : c = d :=
  eq_of_map_nodup hnames hc hd (LawfulEqOrd.compare_eq_iff_eq.mp htie)

include hkeys in
theorem eq_of_compare {j : Cluster} (hk : k ∈ clusters) (hj : j ∈ clusters)
    (htie : k.compare j = .eq) : k = j :=
  eq_of_map_nodup hkeys hk hj (Cluster.key_eq_of_compare_eq htie)

include hnames in
/-- The names of the classifiers go up strictly. -/
theorem pairwise_names :
    ((sortedClassifiers cs).map Classifier.name).Pairwise fun a b => compare a b = .lt := by
  have hperm := sortedClassifiers_perm cs
  have hle : (sortedClassifiers cs).Pairwise fun c d => (Precedence.byName c d).isLE = true :=
    pairwise_mergeSort_cmp cs
  rw [List.pairwise_map]
  exact pairwise_lt_of_isLE (hperm.nodup_iff.mpr (hnames.of_map _)) hle
    fun c hc d hd => eq_of_byName hnames (hperm.mem_iff.mp hc) (hperm.mem_iff.mp hd)

include hkeys in
theorem pairwise_clusters : (sortedClusters clusters).Pairwise fun a b => a.compare b = .lt := by
  have hperm := sortedClusters_perm clusters
  exact pairwise_lt_of_isLE (hperm.nodup_iff.mpr (hkeys.of_map _)) (pairwise_mergeSort_cmp clusters)
    fun a ha b hb => eq_of_compare hkeys (hperm.mem_iff.mp ha) (hperm.mem_iff.mp hb)

include hnames in
/-- The classifications of a cluster go through the classifiers in the order of their names. -/
theorem map_sortedByClassifier :
    (sortedByClassifier (e.classifications src cs k)).map (fun r => (r.cluster, r.classifier)) =
      (sortedClassifiers cs).map (Prod.mk k) := by
  have hperm : (sortedByClassifier (e.classifications src cs k)).Perm (e.classifications src cs k) :=
    List.mergeSort_perm _ _
  have hclassifiers : (sortedByClassifier (e.classifications src cs k)).map (·.classifier) =
      sortedClassifiers cs := by
    have hsame := (hperm.map (·.classifier)).trans (List.Perm.of_eq (map_classifier e src cs k))
    have hle : (sortedByClassifier (e.classifications src cs k)).Pairwise
        fun q r => (compare q.classifier.name r.classifier.name).isLE = true :=
      pairwise_mergeSort_cmp (e.classifications src cs k)
    refine eq_of_pairwise_cmp (hsame.trans (sortedClassifiers_perm cs).symm)
      (List.pairwise_map.mpr hle) (pairwise_mergeSort_cmp cs) fun c hc d hd => ?_
    exact eq_of_byName hnames (hsame.mem_iff.mp hc) (hsame.mem_iff.mp hd)
  rw [← hclassifiers, List.map_map]
  refine List.map_congr_left fun r hr => ?_
  rw [cluster_of_mem (hperm.mem_iff.mp hr)]
  rfl

include hnames in
/-- One classification for each pair, by cluster and then by name. -/
theorem map_allClassifications :
    (e.allClassifications source cs clusters).map (fun r => (r.cluster, r.classifier)) =
      sortedClusters clusters ×ˢ sortedClassifiers cs := by
  rw [allClassifications, List.map_flatMap]
  exact List.flatMap_congr fun k _ => map_sortedByClassifier hnames

include hnames hkeys in
/-- Taken by name first, the pairs are those of the names and the clusters. -/
theorem product_perm :
    ((e.allClassifications source cs clusters).map fun r => (r.classifier.name, r.cluster)).Perm
      ((sortedClassifiers cs).map Classifier.name ×ˢ sortedClusters clusters) := by
  have hnames' := (((sortedClassifiers_perm cs).map Classifier.name).nodup_iff).mpr hnames
  have hkeys' := (sortedClusters_perm clusters).nodup_iff.mpr (hkeys.of_map _)
  have hpairs : (e.allClassifications source cs clusters).map
      (fun r => (r.classifier.name, r.cluster)) =
      (sortedClusters clusters ×ˢ sortedClassifiers cs).map fun x => (x.2.name, x.1) := by
    rw [← map_allClassifications hnames, List.map_map]
    rfl
  have hnodup : ((sortedClusters clusters ×ˢ sortedClassifiers cs).map
      fun x => (x.2.name, x.1)).Nodup := by
    refine (hkeys'.product (hnames'.of_map _)).map_on ?_
    rintro ⟨k, c⟩ hk ⟨j, d⟩ hj heq
    rw [List.mem_product] at hk hj
    rw [Prod.mk.injEq] at heq ⊢
    exact ⟨heq.2, eq_of_map_nodup hnames' hk.2 hj.2 heq.1⟩
  rw [hpairs, List.perm_ext_iff_of_nodup hnodup (hnames'.product hkeys')]
  rintro ⟨name, k⟩
  rw [List.mem_product, List.mem_map, List.mem_map]
  constructor
  · rintro ⟨⟨j, c⟩, hmem, heq⟩
    obtain ⟨rfl, rfl⟩ := Prod.mk.inj heq
    rw [List.mem_product] at hmem
    exact ⟨⟨c, hmem.2, rfl⟩, hmem.1⟩
  · rintro ⟨⟨c, hc, rfl⟩, hk⟩
    exact ⟨(k, c), List.mem_product.mpr ⟨hk, hc⟩, rfl⟩

include hnames hkeys in
/-- One thing is assessed of each pair, by name and then by cluster. -/
theorem map_assessed :
    (e.assessed source cs clusters).map (fun x => (x.name, x.record.cluster)) =
      (sortedClassifiers cs).map Classifier.name ×ˢ sortedClusters clusters := by
  have hsorted : (e.assessed source cs clusters).map (fun x => (x.name, x.record.cluster)) =
      (StatusReport.sorted (e.allClassifications source cs clusters)).map
        fun r => (r.classifier.name, r.cluster) := by
    rw [assessed_eq_judged hnames hkeys, List.map_map]
    exact List.map_congr_left fun r _ => by simp
  have hperm : (StatusReport.sorted (e.allClassifications source cs clusters)).Perm
      (e.allClassifications source cs clusters) := List.mergeSort_perm _ _
  have hsame := (hperm.map fun r => (r.classifier.name, r.cluster)).trans
    (product_perm hnames hkeys)
  have hreports : (StatusReport.sorted (e.allClassifications source cs clusters)).Pairwise
      fun q r => ((compare q.classifier.name r.classifier.name).then
        (q.cluster.compare r.cluster)).isLE = true := pairwise_mergeSort_cmp _
  have hle : ((StatusReport.sorted (e.allClassifications source cs clusters)).map
      fun r => (r.classifier.name, r.cluster)).Pairwise fun x y => (pairOrder x y).isLE = true :=
    List.pairwise_map.mpr hreports
  have hproduct := pairwise_product (pairwise_names hnames) (pairwise_clusters hkeys)
  rw [hsorted]
  refine eq_of_pairwise_cmp hsame hle (hproduct.imp ?_) ?_
  · rintro x y (hlt | ⟨heq, hlt⟩)
    · simp [pairOrder, hlt]
    · simp [pairOrder, heq, hlt]
  · rintro ⟨m, j⟩ hj ⟨n, k⟩ hk htie
    have hj' := (List.mem_product.mp (hsame.mem_iff.mp hj)).2
    have hk' := (List.mem_product.mp (hsame.mem_iff.mp hk)).2
    obtain ⟨hname, hcluster⟩ := Ordering.then_eq_eq.mp htie
    rw [Prod.mk.injEq]
    exact ⟨LawfulEqOrd.compare_eq_iff_eq.mp hname,
      eq_of_compare hkeys (mem_sortedClusters.mp hj') (mem_sortedClusters.mp hk') hcluster⟩

include hnames hkeys in
/-- What was assessed of one classifier is one thing for each cluster, in order. -/
theorem map_own {name : String} (hname : name ∈ cs.map Classifier.name) :
    ((e.assessed source cs clusters).filter fun x => x.name == name).map (·.record.cluster) =
      sortedClusters clusters := by
  have hperm := (sortedClassifiers_perm cs).map Classifier.name
  have hgroup : ((e.assessed source cs clusters).map fun x => (x.name, x.record.cluster)).filter
      (fun x => x.1 == name) = (sortedClusters clusters).map (Prod.mk name) := by
    rw [map_assessed hnames hkeys]
    have hnodup : (((sortedClassifiers cs).map Classifier.name).map fun n => n).Nodup := by
      rw [List.map_id']
      exact hperm.nodup_iff.mpr hnames
    refine filter_flatMap_key hnodup ?_ (hperm.mem_iff.mpr hname)
    · rintro n - x hx
      obtain ⟨k, -, rfl⟩ := List.mem_map.mp hx
      rfl
  rw [List.filter_map] at hgroup
  have hclusters := congrArg (List.map Prod.snd) hgroup
  rw [List.map_map, List.map_map] at hclusters
  exact hclusters.trans (List.map_id _)

include hnames hkeys in
/-- With at least one cluster, there is one status for each classifier, by name. -/
theorem namesOf_assessed (hclusters : clusters ≠ []) :
    StatusReport.namesOf (e.assessed source cs clusters) =
      (sortedClassifiers cs).map Classifier.name := by
  obtain ⟨k, hk⟩ := List.exists_mem_of_ne_nil _ hclusters
  have hperm := (sortedClassifiers_perm cs).map Classifier.name
  refine (StatusReport.eq_namesOf ((pairwise_names hnames).imp fun h => ?_)
    (hperm.nodup_iff.mpr hnames) fun name => ?_).symm
  · exact String.not_lt.mp (String.lt_asymm (compareOfLessAndEq_eq_lt.mp h))
  · rw [mem_names_assessed hnames hkeys hk]
    exact hperm.mem_iff

end Accepted

end Engine

/-! ### What an accepted pass holds -/

namespace PassResult

/-- The records of a classifier on a cluster. -/
def recordsOf (p : PassResult) (name key : String) : List MatchRecord :=
  (p.status.statuses.filter fun s => s.name == name).flatMap fun s =>
    s.records.filter fun r => r.cluster.key == key

/-- The lists of a pass go through all pairs of some clusters and some classifiers, in their order. -/
structure Covers (p : PassResult) (ks : List Cluster) (cs : List Classifier) : Prop where
  classifications : p.classifications.map (fun r => (r.cluster, r.classifier)) = ks ×ˢ cs
  arbitrations : p.arbitrations.entries.map (fun a => (a.1, a.2.cluster)) = ks.map fun k => (k.key, k)
  reports : p.status.reports.map (fun t => (t.classifier, t.cluster)) = cs.map Classifier.name ×ˢ ks
  statuses : ks ≠ [] → p.status.statuses.map ClassifierStatus.name = cs.map Classifier.name
  records : ∀ s ∈ p.status.statuses, s.records.map MatchRecord.cluster = ks
  infos : ∀ s ∈ p.status.statuses, s.infos.map ClusterInfo.cluster = ks

/-- There is one classification, one report, one record and one info on a classifier and a cluster,
    and they say the same. -/
def Agrees (p : PassResult) (c : Classifier) (k : Cluster) : Prop :=
  ∃ r t m i, p.find? c.name k.key = some r ∧ r.classifier = c ∧ r.cluster = k ∧
    p.reportsOf c.name k.key = [t] ∧ p.recordsOf c.name k.key = [m] ∧ p.infosOf c.name k.key = [i] ∧
    t.matched = r.matched ∧ m.matched = r.matched ∧ m.failures = r.failures ∧
    t.hash = c.hash ∧ i.hash = c.hash ∧ t.status = i.status ∧ t.failure = i.failure

end PassResult

/-- A record keeps match and failures, whoever got the labels. -/
theorem StatusReport.recordOf_keeps {r : Classification} {a : Option Arbitration} :
    (recordOf r a).matched = r.matched ∧ (recordOf r a).failures = r.failures := by
  unfold recordOf
  dsimp only
  split
  · split
    · rename_i hmatched
      exact ⟨hmatched.symm, rfl⟩
    · rename_i hmatched
      exact ⟨(Bool.eq_false_iff.mpr hmatched).symm, rfl⟩
  · exact ⟨rfl, rfl⟩

namespace Engine

variable {e : Engine} {source : Cluster → Source} {cs : List Classifier}
  {clusters finished : List Cluster} {p : PassResult}

/-- Only passes over different classifiers and different clusters are accepted. -/
theorem nodup_of_accepted (hp : e.runFinishing source cs clusters finished = .ok p) :
    (cs.map Classifier.name).Nodup ∧ (clusters.map Cluster.key).Nodup := by
  rw [← repeated_isEmpty, ← repeated_isEmpty]
  unfold runFinishing at hp
  dsimp only at hp
  split at hp
  · cases hp
  · split at hp
    · cases hp
    · rename_i hnames hkeys
      exact ⟨by simpa using hnames, by simpa using hkeys⟩

section Accepted

variable (hnames : (cs.map Classifier.name).Nodup) (hkeys : (clusters.map Cluster.key).Nodup)

include hnames hkeys

theorem settled_covers :
    (e.settled source cs clusters).Covers (sortedClusters clusters) (sortedClassifiers cs) := by
  have hown : ∀ s ∈ (e.settled source cs clusters).status.statuses,
      ∃ name ∈ cs.map Classifier.name,
        s = StatusReport.statusOf (e.assessed source cs clusters) name := by
    intro s hs
    obtain ⟨name, hname, rfl⟩ := List.mem_map.mp hs
    obtain ⟨x, hx, rfl⟩ := List.mem_map.mp (StatusReport.mem_namesOf.mp hname)
    have hpair := List.mem_map_of_mem (f := fun x => (x.name, x.record.cluster)) hx
    rw [map_assessed hnames hkeys, List.mem_product] at hpair
    exact ⟨x.name, ((sortedClassifiers_perm cs).map Classifier.name).mem_iff.mp hpair.1, rfl⟩
  constructor
  case classifications => exact map_allClassifications hnames
  case arbitrations =>
    rw [settled, allArbitrations, List.map_map]
    rfl
  case reports =>
    rw [← map_assessed hnames hkeys, settled, List.map_map]
    rfl
  case statuses =>
    intro hsome
    have hclusters : clusters ≠ [] := by
      rintro rfl
      exact hsome (List.perm_nil.mp (sortedClusters_perm []))
    rw [← namesOf_assessed hnames hkeys hclusters, settled, List.map_map]
    exact List.map_id _
  case records =>
    intro s hs
    obtain ⟨name, hname, rfl⟩ := hown s hs
    rw [← map_own hnames hkeys hname, StatusReport.statusOf, List.map_map]
    rfl
  case infos =>
    intro s hs
    obtain ⟨name, hname, rfl⟩ := hown s hs
    rw [← map_own hnames hkeys hname, StatusReport.statusOf, List.map_map]
    rfl

theorem recordsOf_eq_judged {k : Cluster} {r : Classification} (hk : k ∈ clusters)
    (hr : r ∈ e.classifications (source k) cs k) :
    (e.settled source cs clusters).recordsOf r.classifier.name k.key =
      [(e.judged source cs r).record] := by
  rw [PassResult.recordsOf, filter_statuses hnames hkeys hk hr, List.flatMap_cons, List.flatMap_nil,
    List.append_nil, StatusReport.statusOf, List.filter_map]
  exact congrArg (List.map StatusReport.Assessed.record) (filter_own hnames hkeys hk hr)

theorem settled_agrees {c : Classifier} {k : Cluster} (hc : c ∈ cs) (hk : k ∈ clusters) :
    (e.settled source cs clusters).Agrees c k := by
  obtain ⟨r, hr, rfl⟩ := exists_classification e (source k) k hc
  have hkeeps := StatusReport.recordOf_keeps (r := r)
    (a := some (e.arbitrationOn (source r.cluster) cs r.cluster))
  refine ⟨r, (e.judged source cs r).report, (e.judged source cs r).record,
    (e.judged source cs r).info, find?_settled hnames hkeys hk hr, rfl, cluster_of_mem hr,
    reportsOf_eq_judged hnames hkeys hk hr, recordsOf_eq_judged hnames hkeys hk hr,
    infosOf_eq_judged hnames hkeys hk hr, hkeeps.1, hkeeps.1, hkeeps.2, rfl, rfl, rfl, rfl⟩

end Accepted

/-- An accepted pass goes through the clusters in their order and the classifiers by name, each pair
    once in every list, and says one thing of each pair: whatever order the clusters finish in, and
    on clusters whose evaluation breaks off as on any other. -/
theorem accepted_covers_every_pair (hfinished : finished.Perm clusters)
    (hp : e.runFinishing source cs clusters finished = .ok p) :
    ∃ ks ds, ks.Perm clusters ∧ ks.Pairwise (fun a b => a.compare b = .lt) ∧
      ds.Perm cs ∧ (ds.map Classifier.name).Pairwise (fun a b => a < b) ∧
      p.Covers ks ds ∧ ∀ c ∈ cs, ∀ k ∈ clusters, p.Agrees c k := by
  obtain ⟨hnames, hkeys⟩ := nodup_of_accepted hp
  rw [runFinishing_eq_settled hnames hkeys hfinished] at hp
  cases hp
  refine ⟨sortedClusters clusters, sortedClassifiers cs, sortedClusters_perm clusters,
    pairwise_clusters hkeys, sortedClassifiers_perm cs, ?_, settled_covers hnames hkeys,
    fun c hc k hk => settled_agrees hnames hkeys hc hk⟩
  exact (pairwise_names hnames).imp fun h => compareOfLessAndEq_eq_lt.mp h

end Engine

open Sample in
/-- Two classifiers on two clusters, of which the second finishes first and breaks off. -/
theorem north_broken_off_is_covered :
    (Classification.classifyAll engine.evaluator (fleet north) north [red, probe]).1 =
        .error ⟨"boom"⟩ ∧
      [north, south].Perm [south, north] ∧
      ∃ p, engine.runFinishing fleet [red, probe] [south, north] [north, south] = .ok p ∧
        (∃ ks ds, ks.Perm [south, north] ∧ ds.Perm [red, probe] ∧ p.Covers ks ds) ∧
        p.Agrees probe north ∧ p.Agrees red north := by
  have hnames : ([red, probe].map Classifier.name).Nodup := by decide
  have hkeys : ([south, north].map Cluster.key).Nodup := by decide
  have hfinished : [north, south].Perm [south, north] := List.Perm.swap _ _ _
  have hrun := @Engine.runFinishing_eq_settled engine fleet _ _ hnames hkeys _ hfinished
  obtain ⟨ks, ds, hks, -, hds, -, hcovers, hagrees⟩ :=
    Engine.accepted_covers_every_pair hfinished hrun
  refine ⟨rfl, hfinished, _, hrun, ⟨ks, ds, hks, hds, hcovers⟩, ?_, ?_⟩
  · exact hagrees probe (by decide) north (by decide)
  · exact hagrees red (by decide) north (by decide)

end FleetLabels
