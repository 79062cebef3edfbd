import FleetLabels.Proofs.Judgement

/-!
    Clusters with other labels.

    The labels that a cluster carries are read by the statuses alone. When clusters are given other
    labels (`Cluster.relabel`) and the sources tell clusters apart by their keys only, every verdict and
    every arbitration stays what it was, but for the labels of the cluster that it names. -/

namespace FleetLabels

variable (labels : Cluster → Table String String)

/-! ### Other labels for one cluster -/

/-- The cluster with the labels that it is given. -/
def Cluster.relabel (k : Cluster) : Cluster := { k with labels := labels k }

@[simp] theorem Cluster.relabel_key (k : Cluster) : (k.relabel labels).key = k.key := rfl

/-- The verdict on the relabelled cluster. -/
def Classification.relabel (r : Classification) : Classification :=
  { r with cluster := r.cluster.relabel labels }

def MatchRecord.relabel (r : MatchRecord) : MatchRecord :=
  { r with cluster := r.cluster.relabel labels }

/-- The arbitration on the relabelled cluster, with its records. -/
def Arbitration.relabel (a : Arbitration) : Arbitration :=
  { a with
    cluster := a.cluster.relabel labels
    records := a.records.map (MatchRecord.relabel labels) }

/-- Steps that differ by a change of their results differ so one after the other. -/
theorem Viewing.each_map {α β γ : Type} {f : α → Viewing β} {g : α → Viewing γ} {h : β → γ}
    (hstep : ∀ a v, g a v = ((f a v).1.map h, (f a v).2)) (l : List α) (v : View) :
    Viewing.each g l v = ((Viewing.each f l v).1.map (List.map h), (Viewing.each f l v).2) := by
  induction l generalizing v with
  | nil => rfl
  | cons a rest ih =>
    rw [Viewing.each, Viewing.each, hstep]
    cases hf : f a v with
    | mk result w =>
      cases result with
      | error e => rfl
      | ok b =>
        simp only [Except.map, ih w]
        cases (Viewing.each f rest w).1 <;> rfl

namespace Classification

variable {e : Evaluator} {src : Source} {k : Cluster}

/-- No constraint and no requirement looks at labels. -/
theorem classifyIn_relabel (c : Classifier) (v : View) :
    classifyIn e src (k.relabel labels) c v =
      ((classifyIn e src k c v).1.map (relabel labels), (classifyIn e src k c v).2) := by
  -- both look at the key of the cluster only, and labels are no part of it
  have hconstraint : evaluateConstraint e src (k.relabel labels) = evaluateConstraint e src k := rfl
  have hrequirements :
      evaluateRequirements src (k.relabel labels) = evaluateRequirements src k := rfl
  rw [classifyIn, classifyIn, hconstraint, hrequirements]
  cases Viewing.each (evaluateConstraint e src k) c.constraints v with
  | mk result w => cases result <;> rfl

theorem classifyAll_relabel (cs : List Classifier) :
    (classifyAll e src (k.relabel labels) cs).1 =
      (classifyAll e src k cs).1.map (List.map (relabel labels)) := by
  rw [classifyAll, classifyAll, Viewing.each_map (classifyIn_relabel labels)]

end Classification

theorem Arbitration.among_relabel (p : Precedence) (k : Cluster) (cs : List Classifier) :
    among p (k.relabel labels) cs = (among p k cs).relabel labels := by
  rw [among, among, relabel, ← Table.ofList_map, List.map_map]
  rfl

namespace Engine

variable {e : Engine} {src : Source} {source : Cluster → Source} {cs : List Classifier}
  {k : Cluster} {clusters : List Cluster}

theorem classifications_relabel :
    e.classifications src cs (k.relabel labels) =
      (e.classifications src cs k).map (Classification.relabel labels) := by
  rw [classifications, classifications, Classification.classifyAll_relabel]
  cases (Classification.classifyAll e.evaluator src k cs).1 with
  | ok rs => rfl
  | error a =>
    rw [List.map_map]
    rfl

theorem contenders_relabel (rs : List Classification) :
    contenders (rs.map (Classification.relabel labels)) = contenders rs := by
  rw [contenders, contenders, List.filter_map, List.map_map]
  rfl

theorem arbitrationOn_relabel :
    e.arbitrationOn src cs (k.relabel labels) = (e.arbitrationOn src cs k).relabel labels := by
  rw [arbitrationOn, arbitrationOn, classifications_relabel, contenders_relabel,
    Arbitration.among_relabel]

/-! ### Other labels for all clusters -/

theorem sortedClusters_relabel :
    sortedClusters (clusters.map (Cluster.relabel labels)) =
      (sortedClusters clusters).map (Cluster.relabel labels) := by
  rw [sortedClusters, sortedClusters]
  refine (List.map_mergeSort ?_).symm
  exact fun _ _ _ _ => rfl

theorem sortedByClassifier_relabel (rs : List Classification) :
    sortedByClassifier (rs.map (Classification.relabel labels)) =
      (sortedByClassifier rs).map (Classification.relabel labels) := by
  rw [sortedByClassifier, sortedByClassifier]
  refine (List.map_mergeSort ?_).symm
  exact fun _ _ _ _ => rfl

section Pass

variable (hsource : ∀ j k : Cluster, j.key = k.key → source j = source k)

include hsource

theorem allClassifications_relabel :
    e.allClassifications source cs (clusters.map (Cluster.relabel labels)) =
      (e.allClassifications source cs clusters).map (Classification.relabel labels) := by
  rw [allClassifications, allClassifications, sortedClusters_relabel, List.flatMap_map,
    List.map_flatMap]
  refine List.flatMap_congr fun k _ => ?_
  rw [hsource (k.relabel labels) k rfl, classifications_relabel, sortedByClassifier_relabel]

theorem allArbitrations_relabel :
    e.allArbitrations source cs (clusters.map (Cluster.relabel labels)) =
      (e.allArbitrations source cs clusters).map (Arbitration.relabel labels) := by
  simp only [allArbitrations, Table.map, sortedClusters_relabel, List.map_map]
  refine congrArg Table.mk (List.map_congr_left fun k _ => ?_)
  simp only [Function.comp_apply, hsource (k.relabel labels) k rfl, arbitrationOn_relabel,
    Cluster.relabel_key]

end Pass

end Engine

end FleetLabels
