import FleetLabels.Proofs.Assembly
import FleetLabels.Proofs.Verdicts

/-!
    The order of the inputs leaves no trace.

    Clusters, classifications and contenders are each put in an order of their own in which no two of
    them tie. With steady sources, a precedence that is a total preorder, and one text for whatever
    breaks off on a cluster, passes over the same classifiers and clusters are one and the same pass,
    whatever order both came in and whatever order the clusters finished in. So is the text of it. -/

namespace FleetLabels

open Std

namespace Engine

variable {e : Engine} {src : Source} {source : Cluster → Source} {cs ds : List Classifier}
  {clusters others : List Cluster} {k : Cluster}

/-! ### Each order by itself -/

theorem sortedClusters_eq_of_perm (hperm : clusters.Perm others)
    (hkeys : (clusters.map Cluster.key).Nodup) : sortedClusters clusters = sortedClusters others :=
  mergeSort_cmp_perm hperm fun _ ha _ hb htie =>
    eq_of_map_nodup hkeys ha hb (Cluster.key_eq_of_compare_eq htie)

theorem sortedByClassifier_eq_of_perm {rs qs : List Classification} (hperm : rs.Perm qs)
    (hnames : (rs.map fun r => r.classifier.name).Nodup) :
    sortedByClassifier rs = sortedByClassifier qs := by
  refine mergeSort_cmp_perm hperm fun a ha b hb htie => ?_
  exact eq_of_map_nodup hnames ha hb (LawfulEqOrd.compare_eq_iff_eq.mp htie)

/-! ### All orders together -/

section Steady

variable (hs : src.Steady) (hcs : cs.Perm ds) (hnames : (cs.map Classifier.name).Nodup)
  (huniform : e.Uniform src cs k)

include hs hcs hnames huniform

theorem sortedByClassifier_classifications :
    sortedByClassifier (e.classifications src cs k) =
      sortedByClassifier (e.classifications src ds k) :=
  sortedByClassifier_eq_of_perm (classifications_perm hs hcs huniform)
    (nodup_classifications hnames)

theorem arbitrationOn_eq_of_perm [TransCmp e.precedence] :
    e.arbitrationOn src cs k = e.arbitrationOn src ds k := by
  have hcontenders : (contenders (e.classifications src cs k)).Perm
      (contenders (e.classifications src ds k)) :=
    ((classifications_perm hs hcs huniform).filter _).map _
  exact Arbitration.among_eq_of_perm hcontenders (nodup_contenders e src k hnames)

end Steady

/-- A pass is settled by which classifiers and clusters there are. -/
theorem settled_eq_of_perm [TransCmp e.precedence] (hcs : cs.Perm ds)
    (hclusters : clusters.Perm others) (hnames : (cs.map Classifier.name).Nodup)
    (hkeys : (clusters.map Cluster.key).Nodup) (hs : ∀ k ∈ clusters, (source k).Steady)
    (huniform : ∀ k ∈ clusters, e.Uniform (source k) cs k) :
    e.settled source cs clusters = e.settled source ds others := by
  have hsorted := sortedClusters_eq_of_perm hclusters hkeys
  have hclassifications :
      e.allClassifications source cs clusters = e.allClassifications source ds others := by
    rw [allClassifications, allClassifications, ← hsorted]
    refine List.flatMap_congr fun k hk => ?_
    have hk := mem_sortedClusters.mp hk
    exact sortedByClassifier_classifications (hs k hk) hcs hnames (huniform k hk)
  have harbitrations :
      e.allArbitrations source cs clusters = e.allArbitrations source ds others := by
    rw [allArbitrations, allArbitrations, ← hsorted]
    refine congrArg Table.mk (List.map_congr_left fun k hk => ?_)
    have hk := mem_sortedClusters.mp hk
    rw [arbitrationOn_eq_of_perm (hs k hk) hcs hnames (huniform k hk)]
  rw [settled, settled, assessed, assessed, hclassifications, harbitrations]

/-- The same classifiers and clusters in another order, with clusters that finish in any order, make
    one and the same pass, and so one text. -/
theorem run_eq_of_perm (e : Engine) [TransCmp e.precedence] (source : Cluster → Source)
    (hcs : cs.Perm ds) (hclusters : clusters.Perm others) (hnames : (cs.map Classifier.name).Nodup)
    (hkeys : (clusters.map Cluster.key).Nodup) (hs : ∀ k ∈ clusters, (source k).Steady)
    (huniform : ∀ k ∈ clusters, e.Uniform (source k) cs k) :
    ∃ p, e.run source cs clusters = .ok p ∧
      ∀ finished, finished.Perm others → e.runFinishing source ds others finished = .ok p := by
  refine ⟨e.settled source cs clusters, run_eq_settled hnames hkeys, fun finished hfinished => ?_⟩
  have hnames' : (ds.map Classifier.name).Nodup := (hcs.map Classifier.name).nodup_iff.mp hnames
  have hkeys' : (others.map Cluster.key).Nodup := (hclusters.map Cluster.key).nodup_iff.mp hkeys
  rw [settled_eq_of_perm hcs hclusters hnames hkeys hs huniform]
  exact runFinishing_eq_settled hnames' hkeys' hfinished

end Engine

open Sample in
/-- Three classifiers, of which one breaks off on one of two clusters. -/
theorem probe_first_or_last :
    engine.BreaksOff (fleet north) north probe ⟨"boom"⟩ ∧
      (∀ k ∈ [north, south], engine.Uniform (fleet k) [red, blue, probe] k) ∧
      ∃ p, engine.run fleet [red, blue, probe] [north, south] = .ok p ∧
        ∀ finished, finished.Perm [south, north] →
          engine.runFinishing fleet [probe, red, blue] [south, north] finished = .ok p := by
  have horder : TransCmp engine.precedence := Precedence.transCmp_of_ofName?
    (show Precedence.ofName? "creation" = some engine.precedence from rfl)
  have huniform : ∀ k ∈ [north, south], engine.Uniform (fleet k) [red, blue, probe] k := by
    intro k _
    have hone : ∀ s items t, (fleet k).list 0 s = .ok items → .corrupt t ∈ items → t = "boom" := by
      intro s items t hlist ht
      rcases fleet_cases k with h | h
      · rw [h] at hlist
        cases hlist
        cases List.mem_singleton.mp ht
        rfl
      · rw [h] at hlist
        cases hlist
        cases ht
    exact Engine.uniform_of_one_corrupt (fleet_steady k) hone
  refine ⟨rfl, huniform,
    Engine.run_eq_of_perm engine fleet ?_ ?_ ?_ ?_ (fun k _ => fleet_steady k) huniform⟩
  · decide
  · decide
  · decide
  · decide

end FleetLabels
