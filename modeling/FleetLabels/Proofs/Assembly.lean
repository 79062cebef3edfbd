import FleetLabels.Proofs.Status
import FleetLabels.Proofs.View
import FleetLabels.Pass

/-!
    What an accepted pass holds.

    A pass over classifiers of different names and clusters of different keys is always made
    (`Engine.run_eq_settled`). It has one classification for each classifier and cluster, one
    arbitration for each cluster, and one assessed classification for each classifier and cluster,
    which the statuses hold by classifier and the reports in one list. -/

namespace FleetLabels

/-! ### The parts of a pass -/

namespace Engine

variable {e : Engine} {src : Source} {source : Cluster → Source} {cs : List Classifier}
  {clusters : List Cluster} {k : Cluster} {r : Classification}

/-- The classifications of a cluster are, in turn, those of the classifiers on it. -/
theorem forall₂_classifications (e : Engine) (src : Source) (cs : List Classifier) (k : Cluster) :
    List.Forall₂ (fun c r => r.classifier = c ∧ r.cluster = k) cs (e.classifications src cs k) := by
  rw [classifications]
  cases hall : (Classification.classifyAll e.evaluator src k cs).1 with
  | ok rs => exact Classification.forall₂_classifyAll hall
  | error a =>
    rw [List.forall₂_map_right_iff]
    exact List.forall₂_same.mpr fun c _ => ⟨rfl, rfl⟩

theorem map_classifier (e : Engine) (src : Source) (cs : List Classifier) (k : Cluster) :
    (e.classifications src cs k).map (·.classifier) = cs := by
  have h := (forall₂_classifications e src cs k).imp fun _ _ h => h.1.symm
  rw [← List.forall₂_eq_eq_eq, List.forall₂_map_left_iff]
  exact h.flip.imp fun _ _ h => h.symm

theorem cluster_of_mem (h : r ∈ e.classifications src cs k) : r.cluster = k := by
  obtain ⟨c, -, -, hcluster⟩ := exists_left_of_forall₂ (forall₂_classifications e src cs k) h
  exact hcluster

theorem classifier_of_mem (h : r ∈ e.classifications src cs k) : r.classifier ∈ cs := by
  rw [← map_classifier e src cs k]
  exact List.mem_map_of_mem h

/-- Every classifier has a classification on the cluster. -/
theorem exists_classification (e : Engine) (src : Source) (k : Cluster) {c : Classifier}
    (hc : c ∈ cs) :
    ∃ r ∈ e.classifications src cs k, r.classifier = c := by
  rw [← map_classifier e src cs k] at hc
  exact List.mem_map.mp hc

/-- The classifiers that take part in an arbitration are some of those of the pass. -/
theorem contenders_sublist : (contenders (e.classifications src cs k)).Sublist cs := by
  have h := (List.filter_sublist (p := fun r : Classification => r.matched && !r.classifier.isDeleted)
    (l := e.classifications src cs k)).map (·.classifier)
  rwa [map_classifier] at h

theorem nodup_contenders (e : Engine) (src : Source) (k : Cluster)
    (h : (cs.map Classifier.name).Nodup) :
    ((contenders (e.classifications src cs k)).map Classifier.name).Nodup :=
  h.sublist (contenders_sublist.map Classifier.name)

/-- The arbitration on a cluster. -/
def arbitrationOn (e : Engine) (src : Source) (cs : List Classifier) (k : Cluster) : Arbitration :=
  Arbitration.among e.precedence k (contenders (e.classifications src cs k))

theorem evaluateCluster_eq_ok (h : (cs.map Classifier.name).Nodup) :
    e.evaluateCluster src cs k = .ok ⟨e.classifications src cs k, e.arbitrationOn src cs k⟩ := by
  simp only [evaluateCluster, Arbitration.arbitrate_eq_among (nodup_contenders e src k h)]
  rfl

/-- The classifications of a pass, by cluster and name. -/
def allClassifications (e : Engine) (source : Cluster → Source) (cs : List Classifier)
    (clusters : List Cluster) : List Classification :=
  (sortedClusters clusters).flatMap fun k => sortedByClassifier (e.classifications (source k) cs k)

/-- The arbitrations of a pass, in the order of the clusters. -/
def allArbitrations (e : Engine) (source : Cluster → Source) (cs : List Classifier)
    (clusters : List Cluster) : Table String Arbitration :=
  ⟨(sortedClusters clusters).map fun k => (k.key, e.arbitrationOn (source k) cs k)⟩

/-- The classifications of a pass in the order of the reports, each assessed. -/
def assessed (e : Engine) (source : Cluster → Source) (cs : List Classifier)
    (clusters : List Cluster) : List StatusReport.Assessed :=
  let rs := StatusReport.sorted (e.allClassifications source cs clusters)
  rs.map (StatusReport.assessment (e.allArbitrations source cs clusters) rs)

/-- The pass over classifiers of different names and clusters of different keys. -/
def settled (e : Engine) (source : Cluster → Source) (cs : List Classifier)
    (clusters : List Cluster) : PassResult where
  classifications := e.allClassifications source cs clusters
  arbitrations := e.allArbitrations source cs clusters
  status :=
    let xs := e.assessed source cs clusters
    ⟨(StatusReport.namesOf xs).map (StatusReport.statusOf xs), xs.map StatusReport.Assessed.report⟩

theorem mem_sortedClusters : k ∈ sortedClusters clusters ↔ k ∈ clusters := List.mem_mergeSort

theorem mem_sortedByClassifier {rs : List Classification} : r ∈ sortedByClassifier rs ↔ r ∈ rs :=
  List.mem_mergeSort

theorem mem_allClassifications :
    r ∈ e.allClassifications source cs clusters ↔
      ∃ k ∈ clusters, r ∈ e.classifications (source k) cs k := by
  simp only [allClassifications, List.mem_flatMap, mem_sortedClusters, mem_sortedByClassifier]

section Accepted

variable (hnames : (cs.map Classifier.name).Nodup) (hkeys : (clusters.map Cluster.key).Nodup)

include hkeys in
theorem nodup_sortedClusters : ((sortedClusters clusters).map Cluster.key).Nodup :=
  ((List.mergeSort_perm clusters _).map Cluster.key).nodup_iff.mpr hkeys

include hkeys in
theorem arbitration_of_cluster (hk : k ∈ clusters) :
    (e.allArbitrations source cs clusters).get? k.key = some (e.arbitrationOn (source k) cs k) := by
  refine Table.get?_of_mem ?_ (List.mem_map.mpr ⟨k, mem_sortedClusters.mpr hk, rfl⟩)
  rw [List.map_map]
  exact nodup_sortedClusters hkeys

include hnames in
/-- In its arbitration a classifier is found by its name, and no other one is. -/
theorem mem_contenders_of_name (hr : r.classifier ∈ cs)
    (hname : r.classifier.name ∈ (contenders (e.classifications src cs k)).map Classifier.name) :
    r.classifier ∈ contenders (e.classifications src cs k) := by
  obtain ⟨c, hc, hcname⟩ := List.mem_map.mp hname
  have heq := eq_of_map_nodup hnames (contenders_sublist.subset hc) hr hcname
  exact heq ▸ hc

include hnames in
/-- What a classification manages is listed by its classifier. -/
theorem lists_of_recordOf (hr : r.classifier ∈ cs) {key : String}
    (hkey : key ∈ (StatusReport.recordOf r (some (e.arbitrationOn src cs k))).managed) :
    r.classifier.Lists key := by
  by_cases hname : r.matched = true ∧
      r.classifier.name ∈ (contenders (e.classifications src cs k)).map Classifier.name
  · obtain ⟨hmatched, hname⟩ := hname
    have hmem := mem_contenders_of_name hnames hr hname
    obtain ⟨share, hshare⟩ := Arbitration.exists_share (p := e.precedence) hmem
    have hown : (e.arbitrationOn src cs k).records.get? r.classifier.name =
        some ⟨k, true, share.managed, share.unmanaged, []⟩ :=
      Arbitration.record_of_share (nodup_contenders e src k hnames) hshare
    rw [StatusReport.recordOf_arbitrated hmatched hown] at hkey
    exact Ownership.lists_of_managed hshare hkey
  · have hnone : r.matched = true →
        (e.arbitrationOn src cs k).records.get? r.classifier.name = none := fun hmatched =>
      Arbitration.record_eq_none (nodup_contenders e src k hnames) fun hmem => hname ⟨hmatched, hmem⟩
    rw [(StatusReport.recordOf_unarbitrated hnone).1] at hkey
    cases hkey

include hnames hkeys in
theorem build_eq_ok :
    StatusReport.build (e.allClassifications source cs clusters)
      (e.allArbitrations source cs clusters) = .ok (e.settled source cs clusters).status := by
  have hassess : StatusReport.assess (e.allArbitrations source cs clusters)
      (StatusReport.sorted (e.allClassifications source cs clusters)) =
      .ok (e.assessed source cs clusters) := by
    refine StatusReport.assess_eq_ok fun r hr key hkey => ?_
    obtain ⟨k, hk, hmem⟩ := mem_allClassifications.mp (List.mem_mergeSort.mp hr)
    rw [cluster_of_mem hmem, arbitration_of_cluster hkeys hk] at hkey
    exact lists_of_recordOf hnames (classifier_of_mem hmem) hkey
  rw [StatusReport.build, hassess]
  rfl

include hnames hkeys in
/-- Whatever order the clusters finish in, each of them is found with its own outcome. -/
theorem outcomes_eq_ok {finished : List Cluster} (hfinished : finished.Perm clusters) :
    ∃ kept, e.outcomes source cs finished = .ok kept ∧ ∀ k ∈ clusters,
      kept.get? k.key =
        some ⟨e.classifications (source k) cs k, e.arbitrationOn (source k) cs k⟩ := by
  have hall : (finished.mapM fun k => (e.evaluateCluster (source k) cs k).map fun o => (k.key, o)) =
      .ok (finished.map fun k =>
        (k.key, ⟨e.classifications (source k) cs k, e.arbitrationOn (source k) cs k⟩)) := by
    refine Attempt.mapM_eq_ok fun k _ => ?_
    rw [evaluateCluster_eq_ok hnames]
    rfl
  refine ⟨_, by rw [outcomes, hall]; rfl, fun k hk => ?_⟩
  have hnodup : ((finished.map fun k => (k.key,
      (⟨e.classifications (source k) cs k, e.arbitrationOn (source k) cs k⟩ :
        ClusterOutcome))).map (·.1)).Nodup := by
    rw [List.map_map]
    exact (hfinished.map Cluster.key).nodup_iff.mpr hkeys
  rw [Table.ofList_eq hnodup]
  exact Table.get?_of_mem hnodup (List.mem_map.mpr ⟨k, hfinished.mem_iff.mpr hk, rfl⟩)

include hnames hkeys in
theorem assemble_eq_ok {finished : List Cluster} (hfinished : finished.Perm clusters) :
    e.assemble source cs clusters finished = .ok (e.settled source cs clusters) := by
  obtain ⟨kept, hkept, hget⟩ := outcomes_eq_ok hnames hkeys hfinished
  have houtcomes : ((sortedClusters clusters).filterMap fun k =>
      (kept.get? k.key).map fun o => (k, o)) =
      (sortedClusters clusters).map fun k =>
        (k, ⟨e.classifications (source k) cs k, e.arbitrationOn (source k) cs k⟩) := by
    rw [← List.filterMap_eq_map]
    refine List.filterMap_congr fun k hk => ?_
    rw [hget k (mem_sortedClusters.mp hk)]
    rfl
  have htable : Table.ofList ((sortedClusters clusters).map fun k =>
      (k.key, e.arbitrationOn (source k) cs k)) = e.allArbitrations source cs clusters := by
    refine Table.ofList_eq ?_
    rw [List.map_map]
    exact nodup_sortedClusters hkeys
  simp only [assemble, hkept, Except.mapError, bind, Except.bind, houtcomes, List.flatMap_map,
    List.map_map, Function.comp_def, htable]
  rw [← allClassifications, build_eq_ok hnames hkeys]
  rfl

include hnames hkeys in
/-- A pass over classifiers of different names and clusters of different keys is made, and it is the
    same whatever order the clusters finish in. -/
theorem runFinishing_eq_settled {finished : List Cluster} (hfinished : finished.Perm clusters) :
    e.runFinishing source cs clusters finished = .ok (e.settled source cs clusters) := by
  rw [runFinishing, (repeated_isEmpty _).mpr hnames, (repeated_isEmpty _).mpr hkeys]
  exact assemble_eq_ok hnames hkeys hfinished

include hnames hkeys in
theorem run_eq_settled : e.run source cs clusters = .ok (e.settled source cs clusters) :=
  runFinishing_eq_settled hnames hkeys (List.Perm.refl clusters)

include hkeys in
/-- The classifications of one cluster among those of the pass. -/
theorem filter_cluster (hk : k ∈ clusters) :
    ((e.allClassifications source cs clusters).filter fun r => r.cluster.key == k.key) =
      sortedByClassifier (e.classifications (source k) cs k) := by
  refine filter_flatMap_key (f := fun r : Classification => r.cluster.key)
    (nodup_sortedClusters hkeys) ?_ (mem_sortedClusters.mpr hk)
  intro j _ r hr
  rw [cluster_of_mem (mem_sortedByClassifier.mp hr)]

include hnames in
theorem nodup_classifications :
    ((e.classifications src cs k).map fun r => r.classifier.name).Nodup := by
  have h := congrArg (List.map Classifier.name) (map_classifier e src cs k)
  rw [List.map_map] at h
  exact h ▸ hnames

include hnames hkeys in
/-- A classifier and a cluster have one classification in the pass. -/
theorem filter_pair (hk : k ∈ clusters) (hr : r ∈ e.classifications (source k) cs k) :
    ((e.allClassifications source cs clusters).filter fun q =>
      q.classifier.name == r.classifier.name && q.cluster.key == k.key) = [r] := by
  have hperm : (sortedByClassifier (e.classifications (source k) cs k)).Perm
      (e.classifications (source k) cs k) := List.mergeSort_perm _ _
  have hsorted : ((sortedByClassifier (e.classifications (source k) cs k)).map
      fun q => q.classifier.name).Nodup :=
    (hperm.map _).nodup_iff.mpr (nodup_classifications hnames)
  rw [← List.filter_filter, filter_cluster hkeys hk]
  exact filter_eq_singleton hsorted (mem_sortedByClassifier.mpr hr)

end Accepted

/-- A pass is refused for names of classifiers that repeat, else for keys of clusters that do, and made
    in all other cases. -/
theorem run_cases (e : Engine) (source : Cluster → Source) (cs : List Classifier)
    (clusters : List Cluster) :
    (¬ (cs.map Classifier.name).Nodup ∧
        ∃ names, e.run source cs clusters = .error (.classifiers names)) ∨
      ((cs.map Classifier.name).Nodup ∧ ¬ (clusters.map Cluster.key).Nodup ∧
        ∃ keys, e.run source cs clusters = .error (.clusters keys)) ∨
      ((cs.map Classifier.name).Nodup ∧ (clusters.map Cluster.key).Nodup ∧
        e.run source cs clusters = .ok (e.settled source cs clusters)) := by
  by_cases hnames : (cs.map Classifier.name).Nodup
  · by_cases hkeys : (clusters.map Cluster.key).Nodup
    · exact .inr (.inr ⟨hnames, hkeys, run_eq_settled hnames hkeys⟩)
    · have hagain := (repeated_isEmpty _).not.mpr hkeys
      refine .inr (.inl ⟨hnames, hkeys, repeated (clusters.map Cluster.key), ?_⟩)
      simp [run, runFinishing, (repeated_isEmpty _).mpr hnames, hagain]
  · have hagain := (repeated_isEmpty _).not.mpr hnames
    refine .inl ⟨hnames, repeated (cs.map Classifier.name), ?_⟩
    simp [run, runFinishing, hagain]

/-- A pass that is made is one over different names and different keys. -/
theorem settled_of_run {p : PassResult} (hrun : e.run source cs clusters = .ok p) :
    (cs.map Classifier.name).Nodup ∧ (clusters.map Cluster.key).Nodup ∧
      p = e.settled source cs clusters := by
  rcases run_cases e source cs clusters with ⟨_, _, hrefused⟩ | ⟨_, _, _, hrefused⟩ |
    ⟨hnames, hkeys, hmade⟩
  · rw [hrefused] at hrun
    cases hrun
  · rw [hrefused] at hrun
    cases hrun
  · exact ⟨hnames, hkeys, Except.ok.inj (hrun.symm.trans hmade)⟩

end Engine

/-! ### Looking into a pass -/

namespace PassResult

/-- The classifiers that match a cluster and are not being deleted. -/
def contendersOn (p : PassResult) (k : Cluster) : List Classifier :=
  Engine.contenders (p.classifications.filter fun r => r.cluster.key == k.key)

/-- The records on a cluster in the whole report, each with the name of its classifier. -/
def recordsOn (p : PassResult) (k : Cluster) : List (String × MatchRecord) :=
  p.status.statuses.flatMap fun s =>
    (s.records.filter fun r => r.cluster.key == k.key).map fun r => (s.name, r)

/-- The reports on a classifier and a cluster. -/
def reportsOf (p : PassResult) (name key : String) : List Report :=
  p.status.reports.filter fun t => t.classifier == name && t.cluster.key == key

end PassResult

namespace Engine

variable {e : Engine} {source : Cluster → Source} {cs : List Classifier} {clusters : List Cluster}
  {k : Cluster} {r : Classification} (hnames : (cs.map Classifier.name).Nodup)
  (hkeys : (clusters.map Cluster.key).Nodup) (hk : k ∈ clusters)

include hkeys hk in
theorem contendersOn_perm :
    ((e.settled source cs clusters).contendersOn k).Perm
      (contenders (e.classifications (source k) cs k)) := by
  rw [PassResult.contendersOn, settled, filter_cluster hkeys hk]
  exact ((List.mergeSort_perm _ _).filter _).map _

include hnames hkeys hk in
theorem find?_settled (hr : r ∈ e.classifications (source k) cs k) :
    (e.settled source cs clusters).find? r.classifier.name k.key = some r := by
  rw [PassResult.find?, settled, ← List.head?_filter, filter_pair hnames hkeys hk hr]
  rfl

include hkeys hk in
/-- Each record on a cluster comes from one classification of it. -/
theorem recordsOn_perm (e : Engine) (source : Cluster → Source) (cs : List Classifier) :
    ((e.settled source cs clusters).recordsOn k).Perm
      ((e.classifications (source k) cs k).map fun r =>
        (r.classifier.name, StatusReport.recordOf r (some (e.arbitrationOn (source k) cs k)))) := by
  have hsorted : ((StatusReport.sorted (e.allClassifications source cs clusters)).filter
      fun r => r.cluster.key == k.key).Perm (e.classifications (source k) cs k) := by
    have hperm : (StatusReport.sorted (e.allClassifications source cs clusters)).Perm
        (e.allClassifications source cs clusters) := List.mergeSort_perm _ _
    have hcluster := hperm.filter fun r => r.cluster.key == k.key
    rw [filter_cluster hkeys hk] at hcluster
    exact hcluster.trans (List.mergeSort_perm _ _)
  have hrecords := StatusReport.records_perm (e.assessed source cs clusters)
    fun r => r.cluster.key == k.key
  simp only [assessed, List.filter_map, Function.comp_def, StatusReport.assessment,
    StatusReport.recordOf_cluster, List.map_map] at hrecords
  refine hrecords.trans ((hsorted.map _).trans (List.Perm.of_eq ?_))
  refine List.map_congr_left fun r hr => ?_
  rw [cluster_of_mem hr, arbitration_of_cluster hkeys hk]

end Engine

/-! ### A small fleet -/

namespace Sample

/-- Wants two keys on every cluster. -/
def red : Classifier :=
  ⟨"red", [⟨"tier", "1"⟩, ⟨"env", "prod"⟩], [], [], some ⟨10, 0⟩, none, by decide⟩

/-- Wants one of the keys of `red`, with another value, and is younger. -/
def blue : Classifier := ⟨"blue", [⟨"env", "test"⟩], [], [], some ⟨20, 0⟩, none, by decide⟩

/-- Matches where a pod runs. -/
def probe : Classifier :=
  ⟨"probe", [⟨"env", "live"⟩], [⟨⟨"", "v1", "Pod", ""⟩, [], [], none, none, ""⟩], [], none, none,
    by decide⟩

def north : Cluster := ⟨"default", "north", .capi, Table.empty⟩

def south : Cluster := ⟨"default", "south", .capi, Table.empty⟩

/-- A cluster without resources, of a version that nobody knows. -/
def empty : Source := ⟨fun _ _ => .ok [], none⟩

/-- A cluster whose listings hold nothing but one bad item. -/
def corrupted : Source := ⟨fun _ _ => .ok [.corrupt "boom"], none⟩

def engine : Engine := ⟨⟨.builtin, none⟩, .byCreation⟩

/-- Only the listings of `north` are bad. -/
def fleet : Cluster → Source := fun k => if k = north then corrupted else empty

theorem fleet_cases (k : Cluster) : fleet k = corrupted ∨ fleet k = empty := by
  by_cases hk : k = north
  · exact .inl (if_pos hk)
  · exact .inr (if_neg hk)

theorem fleet_steady (k : Cluster) : (fleet k).Steady := by
  rcases fleet_cases k with h | h <;> rw [h] <;> exact fun _ _ _ => rfl

end Sample

end FleetLabels
