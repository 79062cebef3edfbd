import FleetLabels.Proofs.Judgement

/-!
    What a pass says of one of its clusters.

    Cut down to one of its clusters (`PassResult.restrict`), a pass over many clusters is the pass over
    that cluster alone, in every part. The other clusters leave no trace in it: neither by what is found
    on them or by how their evaluation ends, nor by the order in which they finish. -/

namespace FleetLabels

/-- What the status of a classifier says of one cluster. -/
def ClassifierStatus.restrict (s : ClassifierStatus) (key : String) : ClassifierStatus where
  name := s.name
  records := s.records.filter fun r => r.cluster.key == key
  infos := s.infos.filter fun i => i.cluster.key == key

/-- What a pass says of one cluster. -/
def PassResult.restrict (p : PassResult) (key : String) : PassResult where
  classifications := p.classifications.filter fun r => r.cluster.key == key
  arbitrations := ⟨p.arbitrations.entries.filter fun a => a.1 == key⟩
  status :=
    ⟨p.status.statuses.map fun s => s.restrict key,
      p.status.reports.filter fun t => t.cluster.key == key⟩

/-- The status of a classifier in what was assessed of one cluster. -/
theorem StatusReport.statusOf_filter_cluster (xs : List Assessed) (key name : String) :
    statusOf (xs.filter fun x => x.record.cluster.key == key) name =
      (statusOf xs name).restrict key := by
  have hown := List.filter_comm (fun x : Assessed => x.name == name)
    (fun x => x.record.cluster.key == key) xs
  simp only [statusOf, hown, ClassifierStatus.restrict, List.filter_map]
  rfl

namespace Engine

variable {e : Engine} {source : Cluster → Source} {cs : List Classifier} {clusters : List Cluster}
  {k : Cluster}

theorem sortedClusters_singleton (k : Cluster) : sortedClusters [k] = [k] :=
  List.mergeSort_singleton k

theorem allClassifications_singleton : e.allClassifications source cs [k] =
    sortedByClassifier (e.classifications (source k) cs k) := by
  rw [allClassifications, sortedClusters_singleton, List.flatMap_cons, List.flatMap_nil,
    List.append_nil]

section Accepted

variable (hkeys : (clusters.map Cluster.key).Nodup) (hk : k ∈ clusters)

include hkeys hk

theorem filter_allArbitrations :
    ((e.allArbitrations source cs clusters).entries.filter fun a => a.1 == k.key) =
      (e.allArbitrations source cs [k]).entries := by
  have hone := filter_eq_singleton (nodup_sortedClusters hkeys) (mem_sortedClusters.mpr hk)
  rw [allArbitrations, allArbitrations, sortedClusters_singleton, List.filter_map]
  exact congrArg (List.map _) hone

variable (hnames : (cs.map Classifier.name).Nodup)

include hnames

theorem filter_assessed_cluster :
    ((e.assessed source cs clusters).filter fun x => x.record.cluster.key == k.key) =
      e.assessed source cs [k] := by
  have hpick : ∀ r, ((e.judged source cs r).record.cluster.key == k.key) =
      (r.cluster.key == k.key) := fun r => by rw [judged_cluster]
  have hkey : ([k].map Cluster.key).Nodup := List.nodup_singleton _
  rw [filter_assessed hnames hkeys hpick, filter_cluster hkeys hk, ← allClassifications_singleton,
    assessed_eq_judged hnames hkey]

theorem namesOf_assessed_singleton :
    StatusReport.namesOf (e.assessed source cs [k]) =
      StatusReport.namesOf (e.assessed source cs clusters) := by
  have hkey : ([k].map Cluster.key).Nodup := List.nodup_singleton _
  refine (StatusReport.eq_namesOf (StatusReport.pairwise_namesOf _) (StatusReport.nodup_namesOf _)
    fun name => ?_).symm
  rw [StatusReport.mem_namesOf, mem_names_assessed hnames hkeys hk,
    mem_names_assessed hnames hkey List.mem_cons_self]

/-- The pass over one cluster is what the pass over all says of it. -/
theorem settled_singleton :
    e.settled source cs [k] = (e.settled source cs clusters).restrict k.key := by
  have hclassifications : e.allClassifications source cs [k] =
      (e.allClassifications source cs clusters).filter fun r => r.cluster.key == k.key :=
    allClassifications_singleton.trans (filter_cluster hkeys hk).symm
  have hstatuses : (StatusReport.namesOf (e.assessed source cs [k])).map
      (StatusReport.statusOf (e.assessed source cs [k])) =
      ((StatusReport.namesOf (e.assessed source cs clusters)).map
        (StatusReport.statusOf (e.assessed source cs clusters))).map fun s => s.restrict k.key := by
    rw [namesOf_assessed_singleton hkeys hk hnames, List.map_map]
    refine List.map_congr_left fun name _ => ?_
    rw [← filter_assessed_cluster hkeys hk hnames, StatusReport.statusOf_filter_cluster]
    rfl
  have hreports : (e.assessed source cs [k]).map StatusReport.Assessed.report =
      ((e.assessed source cs clusters).map StatusReport.Assessed.report).filter
        fun t => t.cluster.key == k.key := by
    rw [List.filter_map, ← filter_assessed_cluster hkeys hk hnames]
    rfl
  simp only [settled, PassResult.restrict, hstatuses, hreports, hclassifications,
    filter_allArbitrations hkeys hk]

end Accepted

/-- On each of its clusters a pass says just what the pass over that cluster alone says, whatever the
    evaluation of the others comes to and whatever order they finish in. -/
theorem run_restricts_to_cluster (e : Engine) (source : Cluster → Source) (cs : List Classifier)
    (clusters : List Cluster) (hnames : (cs.map Classifier.name).Nodup)
    (hkeys : (clusters.map Cluster.key).Nodup) :
    ∃ p, (∀ finished, finished.Perm clusters →
        e.runFinishing source cs clusters finished = .ok p) ∧
      ∀ k ∈ clusters, e.run source cs [k] = .ok (p.restrict k.key) := by
  refine ⟨e.settled source cs clusters, fun finished hfinished => ?_, fun k hk => ?_⟩
  · exact runFinishing_eq_settled hnames hkeys hfinished
  · rw [← settled_singleton hkeys hk hnames]
    exact run_eq_settled hnames (List.nodup_singleton _)

end Engine

open Sample in
/-- One cluster's evaluation breaks off, and the other one's labels are given as if it were alone. -/
theorem south_untouched_by_north :
    (Classification.classifyAll engine.evaluator (fleet north) north [red, probe]).1 =
        .error ⟨"boom"⟩ ∧
      ∃ p, engine.run fleet [red, probe] [north, south] = .ok p ∧
        engine.run fleet [red, probe] [north] = .ok (p.restrict north.key) ∧
        engine.run fleet [red, probe] [south] = .ok (p.restrict south.key) := by
  obtain ⟨p, hrun, hp⟩ := Engine.run_restricts_to_cluster engine fleet [red, probe] [north, south]
    (by decide) (by decide)
  exact ⟨rfl, p, hrun [north, south] (List.Perm.refl _), hp north (by decide), hp south (by decide)⟩

end FleetLabels
