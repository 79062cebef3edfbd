import FleetLabels.Proofs.Assembly

/-!
    What a pass says of one classifier on one cluster.

    An accepted pass judges each classification by the arbitration on its own cluster and the hash of
    its own classifier (`Engine.judged`), and everything that it records, informs or reports of the pair
    is taken from that. Other clusters have no part in it, and other classifiers none but through the
    arbitration. Since no two classifications of a pass tie, pairs can be left out of its lists before
    these are put in order or after it. -/

namespace FleetLabels

open Std

/-! ### Names and hashes -/

namespace StatusReport

/-- The hash under a name is that of the only classifier with the name. -/
theorem hashOf_eq {rs : List Classification} {r : Classification} (hr : r ∈ rs)
    (honly : ∀ q ∈ rs, q.classifier.name = r.classifier.name → q.classifier = r.classifier) :
    hashOf rs r.classifier.name = r.classifier.hash := by
  rw [hashOf]
  cases hfind : rs.find? fun q => q.classifier.name == r.classifier.name with
  | none => exact absurd (List.find?_eq_none.mp hfind r hr) (by simp)
  | some q =>
    have hname : q.classifier.name = r.classifier.name := by simpa using List.find?_some hfind
    simp only [honly q (List.mem_of_find?_eq_some hfind) hname]

theorem pairwise_namesOf (xs : List Assessed) : (namesOf xs).Pairwise fun a b => a ≤ b :=
  pairwise_mergeSort_key id (xs.map Assessed.name).eraseDups

/-- The names of what was assessed are known by their order and by which they are. -/
theorem eq_namesOf {xs : List Assessed} {ns : List String} (hsorted : ns.Pairwise fun a b => a ≤ b)
    (hnodup : ns.Nodup) (hmem : ∀ name, name ∈ ns ↔ name ∈ xs.map (·.name)) : ns = namesOf xs := by
  have hperm : ns.Perm (namesOf xs) := by
    rw [List.perm_ext_iff_of_nodup hnodup (nodup_namesOf xs)]
    exact fun name => (hmem name).trans mem_namesOf.symm
  exact hperm.eq_of_pairwise (fun a b _ _ hab hba => String.le_antisymm hab hba) hsorted
    (pairwise_namesOf xs)

end StatusReport

namespace Engine

variable {e : Engine} {source : Cluster → Source} {cs : List Classifier} {clusters : List Cluster}
  {k : Cluster} {r : Classification}

/-- What a pass says of a classification. -/
def judged (e : Engine) (source : Cluster → Source) (cs : List Classifier) (r : Classification) :
    StatusReport.Assessed :=
  let a := some (e.arbitrationOn (source r.cluster) cs r.cluster)
  let s := StatusReport.settledStatus r (StatusReport.recordOf r a) a
  ⟨r.classifier.name, StatusReport.recordOf r a, r.classifier.hash, s.1, s.2⟩

@[simp] theorem judged_name : (e.judged source cs r).name = r.classifier.name := rfl

@[simp] theorem judged_cluster : (e.judged source cs r).record.cluster = r.cluster :=
  StatusReport.recordOf_cluster

theorem classifier_of_mem_all (hr : r ∈ e.allClassifications source cs clusters) :
    r.classifier ∈ cs := by
  obtain ⟨k, -, hmem⟩ := mem_allClassifications.mp hr
  exact classifier_of_mem hmem

theorem cluster_of_mem_all (hr : r ∈ e.allClassifications source cs clusters) :
    r.cluster ∈ clusters := by
  obtain ⟨k, hk, hmem⟩ := mem_allClassifications.mp hr
  exact cluster_of_mem hmem ▸ hk

section Accepted

variable (hnames : (cs.map Classifier.name).Nodup) (hkeys : (clusters.map Cluster.key).Nodup)

include hnames hkeys

/-- Everything assessed in a pass is what the pass says of its classifications, in order. -/
theorem assessed_eq_judged : e.assessed source cs clusters =
    (StatusReport.sorted (e.allClassifications source cs clusters)).map (e.judged source cs) := by
  rw [assessed]
  refine List.map_congr_left fun r hr => ?_
  have hmem := List.mem_mergeSort.mp hr
  have hhash : StatusReport.hashOf
      (StatusReport.sorted (e.allClassifications source cs clusters)) r.classifier.name =
      r.classifier.hash := by
    refine StatusReport.hashOf_eq hr fun q hq hname => ?_
    have hqmem := List.mem_mergeSort.mp hq
    exact eq_of_map_nodup hnames (classifier_of_mem_all hqmem) (classifier_of_mem_all hmem) hname
  rw [StatusReport.assessment, hhash, arbitration_of_cluster hkeys (cluster_of_mem_all hmem)]
  rfl

/-- Two classifications of a pass are of different classifiers or of different clusters. -/
theorem eq_of_same_pair {q : Classification} (hr : r ∈ e.allClassifications source cs clusters)
    (hq : q ∈ e.allClassifications source cs clusters)
    (hname : r.classifier.name = q.classifier.name) (hkey : r.cluster.key = q.cluster.key) :
    r = q := by
  obtain ⟨k, hk, hmem⟩ := mem_allClassifications.mp hr
  have hpair := filter_pair hnames hkeys hk hmem
  have hqpair : q ∈ (e.allClassifications source cs clusters).filter fun t =>
      t.classifier.name == r.classifier.name && t.cluster.key == k.key := by
    rw [List.mem_filter, ← cluster_of_mem hmem]
    simp [hq, hname, hkey]
  rw [hpair] at hqpair
  exact (List.mem_singleton.mp hqpair).symm

/-- Classifications left out of a pass are left out before sorting or after it. -/
theorem filter_sorted (p : Classification → Bool) :
    (StatusReport.sorted (e.allClassifications source cs clusters)).filter p =
      StatusReport.sorted ((e.allClassifications source cs clusters).filter p) := by
  refine filter_mergeSort_cmp (fun r hr q hq htie => ?_) p
  obtain ⟨hname, hcluster⟩ := Ordering.then_eq_eq.mp htie
  exact eq_of_same_pair hnames hkeys hr hq (LawfulEqOrd.compare_eq_iff_eq.mp hname)
    (Cluster.key_eq_of_compare_eq hcluster)

/-- What is assessed of some of the classifications is what they are judged to be. -/
theorem filter_assessed {p : StatusReport.Assessed → Bool} {q : Classification → Bool}
    (hp : ∀ r, p (e.judged source cs r) = q r) :
    (e.assessed source cs clusters).filter p =
      (StatusReport.sorted ((e.allClassifications source cs clusters).filter q)).map
        (e.judged source cs) := by
  rw [assessed_eq_judged hnames hkeys, List.filter_map, ← filter_sorted hnames hkeys]
  exact congrArg _ (List.filter_congr fun r _ => hp r)

/-- A pass over some clusters assesses each of its classifiers. -/
theorem mem_names_assessed (hk : k ∈ clusters) {name : String} :
    name ∈ (e.assessed source cs clusters).map (·.name) ↔ name ∈ cs.map Classifier.name := by
  rw [assessed_eq_judged hnames hkeys, List.map_map]
  constructor
  · intro h
    obtain ⟨r, hr, rfl⟩ := List.mem_map.mp h
    exact List.mem_map_of_mem (classifier_of_mem_all (List.mem_mergeSort.mp hr))
  · intro h
    obtain ⟨c, hc, rfl⟩ := List.mem_map.mp h
    obtain ⟨r, hr, rfl⟩ := exists_classification e (source k) k hc
    exact List.mem_map.mpr
      ⟨r, List.mem_mergeSort.mpr (mem_allClassifications.mpr ⟨k, hk, hr⟩), rfl⟩

/-- Of a classifier and a cluster one thing is assessed. -/
theorem filter_assessed_pair (hk : k ∈ clusters) (hr : r ∈ e.classifications (source k) cs k) :
    ((e.assessed source cs clusters).filter fun x =>
      x.name == r.classifier.name && x.record.cluster.key == k.key) = [e.judged source cs r] := by
  rw [filter_assessed hnames hkeys (q := fun q =>
    q.classifier.name == r.classifier.name && q.cluster.key == k.key) fun q => by simp,
    filter_pair hnames hkeys hk hr, StatusReport.sorted, List.mergeSort_singleton]
  rfl

end Accepted

end Engine

/-! ### Reports and infos of a pair -/

namespace PassResult

/-- The infos on a classifier and a cluster. -/
def infosOf (p : PassResult) (name key : String) : List ClusterInfo :=
  (p.status.statuses.filter fun s => s.name == name).flatMap fun s =>
    s.infos.filter fun i => i.cluster.key == key

/-- A pass has one report and one info on a classifier and a cluster, both with a status and a
    failure. -/
structure Says (p : PassResult) (name key : String) (status : FeatureStatus)
    (failure : Option String) : Prop where
  report : ∃ t, p.reportsOf name key = [t] ∧ t.status = status ∧ t.failure = failure
  info : ∃ i, p.infosOf name key = [i] ∧ i.status = status ∧ i.failure = failure

/-- A pass does not say two things of a classifier and a cluster. -/
theorem Says.unique {p : PassResult} {name key : String} {s t : FeatureStatus} {f g : Option String}
    (h : p.Says name key s f) (h' : p.Says name key t g) : s = t ∧ f = g := by
  obtain ⟨u, hu, rfl, rfl⟩ := h.report
  obtain ⟨v, hv, rfl, rfl⟩ := h'.report
  obtain rfl : u = v := List.singleton_inj.mp (hu.symm.trans hv)
  exact ⟨rfl, rfl⟩

end PassResult

namespace Engine

variable {e : Engine} {source : Cluster → Source} {cs : List Classifier} {clusters : List Cluster}
  {k : Cluster} {r : Classification} (hnames : (cs.map Classifier.name).Nodup)
  (hkeys : (clusters.map Cluster.key).Nodup) (hk : k ∈ clusters)

include hnames hkeys hk

theorem reportsOf_eq_judged (hr : r ∈ e.classifications (source k) cs k) :
    (e.settled source cs clusters).reportsOf r.classifier.name k.key =
      [(e.judged source cs r).report] := by
  rw [PassResult.reportsOf, settled, List.filter_map]
  exact congrArg (List.map StatusReport.Assessed.report) (filter_assessed_pair hnames hkeys hk hr)

/-- The one report on a classifier and a cluster has the status of the pair. -/
theorem exists_report (hr : r ∈ e.classifications (source k) cs k) :
    let a := some (e.arbitrationOn (source k) cs k)
    ∃ t, (e.settled source cs clusters).reportsOf r.classifier.name k.key = [t] ∧
      t.status = (StatusReport.settledStatus r (StatusReport.recordOf r a) a).1 := by
  refine ⟨_, reportsOf_eq_judged hnames hkeys hk hr, ?_⟩
  rw [← cluster_of_mem hr]
  rfl

/-- One status has the name of a classifier of the pass. -/
theorem filter_statuses (hr : r ∈ e.classifications (source k) cs k) :
    ((e.settled source cs clusters).status.statuses.filter
      fun s => s.name == r.classifier.name) =
      [StatusReport.statusOf (e.assessed source cs clusters) r.classifier.name] := by
  have hname : r.classifier.name ∈ StatusReport.namesOf (e.assessed source cs clusters) := by
    rw [StatusReport.mem_namesOf, mem_names_assessed hnames hkeys hk]
    exact List.mem_map_of_mem (classifier_of_mem hr)
  rw [settled, List.filter_map]
  refine congrArg (List.map _) (filter_eq_singleton ?_ hname)
  exact (List.map_id' _).symm ▸ StatusReport.nodup_namesOf _

/-- What was assessed of a classifier holds one thing about a cluster. -/
theorem filter_own (hr : r ∈ e.classifications (source k) cs k) :
    ((e.assessed source cs clusters).filter fun x => x.name == r.classifier.name).filter
      (fun x => x.record.cluster.key == k.key) = [e.judged source cs r] := by
  rw [List.filter_comm, List.filter_filter, filter_assessed_pair hnames hkeys hk hr]

theorem infosOf_eq_judged (hr : r ∈ e.classifications (source k) cs k) :
    (e.settled source cs clusters).infosOf r.classifier.name k.key =
      [(e.judged source cs r).info] := by
  rw [PassResult.infosOf, filter_statuses hnames hkeys hk hr, List.flatMap_cons, List.flatMap_nil,
    List.append_nil, StatusReport.statusOf, List.filter_map]
  exact congrArg (List.map StatusReport.Assessed.info) (filter_own hnames hkeys hk hr)

/-- A pass says of a classifier and a cluster what it judges of their classification. -/
theorem says_judged (hr : r ∈ e.classifications (source k) cs k) :
    (e.settled source cs clusters).Says r.classifier.name k.key (e.judged source cs r).status
      (e.judged source cs r).failure :=
  ⟨⟨_, reportsOf_eq_judged hnames hkeys hk hr, rfl, rfl⟩,
    ⟨_, infosOf_eq_judged hnames hkeys hk hr, rfl, rfl⟩⟩

/-- It says the status that is found from the record and the arbitration of the cluster. -/
theorem says_of_settledStatus (hr : r ∈ e.classifications (source k) cs k) {status : FeatureStatus}
    {failure : Option String}
    (h : let a := some (e.arbitrationOn (source k) cs k)
      StatusReport.settledStatus r (StatusReport.recordOf r a) a = (status, failure)) :
    (e.settled source cs clusters).Says r.classifier.name k.key status failure := by
  obtain rfl := cluster_of_mem hr
  have hsays := says_judged hnames hkeys hk hr
  rwa [judged, h] at hsays

end Engine

end FleetLabels
