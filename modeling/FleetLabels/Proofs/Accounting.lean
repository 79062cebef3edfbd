import FleetLabels.Metrics
import FleetLabels.Proofs.LabelOwners
import FleetLabels.Proofs.PassContents
import FleetLabels.Proofs.Runs

/-!
    What the metrics show after any calls.

    A call makes its pass exactly when its classifiers have different names and its clusters different
    keys (`PassCall.Accepted`), and only then do the metrics change. Each of the passes made adds to
    the counters of a classifier by its verdicts, one for each cluster, and puts new numbers in the
    gauges of its clusters. So the counters count the verdicts of all passes made so far, and the
    gauges of a cluster tell of the last of them that was over it (`Metrics.ofCalls_accounts`). -/

namespace FleetLabels

/-! ### Calls -/

/-- What a pass is asked for with: its engine, the sources of its clusters, its classifiers
    and its clusters, with the order in which they finish. -/
structure PassCall where
  engine : Engine
  source : Cluster → Source
  classifiers : List Classifier
  clusters : List Cluster
  finished : List Cluster
  finished_perm : finished.Perm clusters

namespace PassResult

/-- The owner of a key on a cluster. -/
def ownerOn? (p : PassResult) (k : Cluster) (key : String) : Option String :=
  (p.arbitrations.get? k.key).bind fun a => a.owners.get? key

/-- What is requested on a cluster: the names of contenders with the keys that they list. -/
def requestsOn (p : PassResult) (k : Cluster) : List (String × String) :=
  (p.contendersOn k).flatMap fun c => c.labels.map fun l => (c.name, l.key)

/-- The number of requests on a cluster that were denied because another classifier owns the key. -/
def deniedOn (p : PassResult) (k : Cluster) : Nat :=
  (p.requestsOn k).countP fun r => (p.ownerOn? k r.2).any fun owner => owner ≠ r.1

/-- The number of different keys that are requested on a cluster and have an owner there. -/
def ownedOn (p : PassResult) (k : Cluster) : Nat :=
  ((p.requestsOn k).map Prod.snd).eraseDups.countP fun key => (p.ownerOn? k key).isSome

/-- Only the key of a cluster is looked at. -/
theorem deniedOn_congr {j k : Cluster} (h : j.key = k.key) (p : PassResult) :
    p.deniedOn j = p.deniedOn k := by
  simp only [deniedOn, requestsOn, contendersOn, ownerOn?, h]

theorem ownedOn_congr {j k : Cluster} (h : j.key = k.key) (p : PassResult) :
    p.ownedOn j = p.ownedOn k := by
  simp only [ownedOn, requestsOn, contendersOn, ownerOn?, h]

end PassResult

namespace PassCall

def result (q : PassCall) : Except PassFault PassResult :=
  q.engine.runFinishing q.source q.classifiers q.clusters q.finished

def Accepted (q : PassCall) : Prop :=
  (q.classifiers.map Classifier.name).Nodup ∧ (q.clusters.map Cluster.key).Nodup

instance (q : PassCall) : Decidable q.Accepted :=
  inferInstanceAs (Decidable (_ ∧ _))

/-- A pass is made that evaluates the classifier of a name. -/
def Evaluates (q : PassCall) (name : String) : Prop :=
  q.Accepted ∧ name ∈ q.classifiers.map Classifier.name

instance (q : PassCall) (name : String) : Decidable (q.Evaluates name) :=
  inferInstanceAs (Decidable (_ ∧ _))

/-- The verdicts of a call on the classifier of a name: those of its clusters, if a pass is made. -/
def verdicts (name : String) (q : PassCall) : List Classification :=
  match q.result with
  | .ok p => q.clusters.filterMap fun k => p.find? name k.key
  | .error _ => []

/-- The pass of a call, if one is made and is over a cluster with the key of this one. -/
def passOver? (k : Cluster) (q : PassCall) : Option PassResult :=
  match q.result with
  | .ok p => if k.key ∈ q.clusters.map Cluster.key then some p else none
  | .error _ => none

/-- The pass that a call makes if it makes one. -/
def settled (q : PassCall) : PassResult := q.engine.settled q.source q.classifiers q.clusters

variable {q : PassCall}

theorem result_of_accepted (h : q.Accepted) : q.result = .ok q.settled :=
  Engine.runFinishing_eq_settled h.1 h.2 q.finished_perm

theorem accepted_of_result {p : PassResult} (h : q.result = .ok p) : q.Accepted ∧ p = q.settled := by
  have haccepted : q.Accepted := Engine.nodup_of_accepted h
  rw [result_of_accepted haccepted] at h
  exact ⟨haccepted, (Except.ok.inj h).symm⟩

/-- A call makes its pass, or is refused for what it repeats. -/
theorem accepted_or_refused (q : PassCall) :
    (q.Accepted ∧ q.result = .ok q.settled) ∨ (¬ q.Accepted ∧ ∃ f, q.result = .error f) := by
  cases h : q.result with
  | ok p =>
    obtain ⟨haccepted, rfl⟩ := accepted_of_result h
    exact .inl ⟨haccepted, rfl⟩
  | error f =>
    refine .inr ⟨fun haccepted => ?_, f, rfl⟩
    rw [result_of_accepted haccepted] at h
    cases h

theorem passOver?_of_accepted (h : q.Accepted) (k : Cluster) :
    q.passOver? k = if k.key ∈ q.clusters.map Cluster.key then some q.settled else none := by
  rw [passOver?, result_of_accepted h]

theorem passOver?_of_refused {f : PassFault} (h : q.result = .error f) (k : Cluster) :
    q.passOver? k = none := by
  rw [passOver?, h]

end PassCall

/-! ### The verdicts of a pass -/

namespace PassCall

variable {q : PassCall}

/-- On a cluster of an accepted call the classifications with a name are those a search finds. -/
theorem filter_name_eq {k : Cluster} (h : q.Accepted) (hk : k ∈ q.clusters) (name : String) :
    ((Engine.sortedByClassifier (q.engine.classifications (q.source k) q.classifiers k)).filter
      fun r => r.classifier.name == name) = (q.settled.find? name k.key).toList := by
  have hfind : q.settled.find? name k.key =
      ((Engine.sortedByClassifier (q.engine.classifications (q.source k) q.classifiers k)).filter
        fun r => r.classifier.name == name).head? := by
    rw [PassResult.find?, settled, Engine.settled, ← List.head?_filter, ← List.filter_filter,
      Engine.filter_cluster h.2 hk]
  have hperm : (Engine.sortedByClassifier
      (q.engine.classifications (q.source k) q.classifiers k)).Perm
        (q.engine.classifications (q.source k) q.classifiers k) := List.mergeSort_perm _ _
  have hnames : ((q.engine.classifications (q.source k) q.classifiers k).map
      fun r => r.classifier.name).Nodup := Engine.nodup_classifications h.1
  have hnodup := (hperm.map fun r => r.classifier.name).nodup_iff.mpr hnames
  rw [hfind]
  cases hown : (Engine.sortedByClassifier
      (q.engine.classifications (q.source k) q.classifiers k)).filter
        fun r => r.classifier.name == name with
  | nil => rfl
  | cons r rest =>
    have hr : r ∈ (Engine.sortedByClassifier
        (q.engine.classifications (q.source k) q.classifiers k)).filter
          fun r => r.classifier.name == name := hown ▸ List.mem_cons_self
    obtain ⟨hmem, hname⟩ := List.mem_filter.mp hr
    rw [← beq_iff_eq.mp hname, filter_eq_singleton hnodup hmem] at hown
    cases hown
    rfl

/-- The classifications of a pass with a name are its verdicts. -/
theorem verdicts_perm (h : q.Accepted) (name : String) :
    (q.settled.classifications.filter fun r => r.classifier.name == name).Perm
      (q.verdicts name) := by
  have hverdicts : q.verdicts name = q.clusters.flatMap fun k =>
      (q.settled.find? name k.key).toList := by
    rw [verdicts, result_of_accepted h]
    exact List.filterMap_eq_flatMap_toList _ _
  have hclusters := Engine.sortedClusters_perm q.clusters
  rw [hverdicts, settled, Engine.settled, Engine.allClassifications, List.filter_flatMap]
  refine (List.Perm.of_eq (List.flatMap_congr fun k hk => ?_)).trans (hclusters.flatMap_right _)
  exact filter_name_eq h (hclusters.mem_iff.mp hk) name

/-- An accepted call has a verdict on each of its classifiers for each of its clusters. -/
theorem length_verdicts (q : PassCall) (name : String) :
    (q.verdicts name).length = if q.Evaluates name then q.clusters.length else 0 := by
  rcases q.accepted_or_refused with ⟨h, hresult⟩ | ⟨h, f, hresult⟩
  · rw [verdicts, hresult, List.length_filterMap_eq_countP]
    by_cases hname : name ∈ q.classifiers.map Classifier.name
    · rw [if_pos ⟨h, hname⟩, List.countP_eq_length]
      intro k hk
      obtain ⟨c, hc, rfl⟩ := List.mem_map.mp hname
      obtain ⟨r, hr, rfl⟩ := Engine.exists_classification q.engine (q.source k) k hc
      rw [settled, Engine.find?_settled h.1 h.2 hk hr]
      rfl
    · rw [if_neg fun heval => hname heval.2, List.countP_eq_zero]
      intro k hk hsome
      obtain ⟨r, hr⟩ := Option.isSome_iff_exists.mp hsome
      have hmem := List.mem_of_find?_eq_some hr
      have hpair := List.find?_some hr
      simp only [Bool.and_eq_true, beq_iff_eq] at hpair
      obtain ⟨j, -, hrj⟩ := Engine.mem_allClassifications.mp hmem
      exact hname (hpair.1 ▸ List.mem_map_of_mem (Engine.classifier_of_mem hrj))
  · rw [verdicts, hresult, if_neg fun heval => h heval.1]
    rfl

theorem verdicts_of_refused {f : PassFault} (h : q.result = .error f) (name : String) :
    q.verdicts name = [] := by
  rw [verdicts, h]

/-- What the classifications of a pass with a name add up to. -/
theorem sum_classifications (h : q.Accepted) (name : String) (weight : Classification → Nat) :
    (q.settled.classifications.map fun r => if r.classifier.name = name then weight r else 0).sum =
      ((q.verdicts name).map weight).sum := by
  rw [sum_map_filter]
  exact ((verdicts_perm h name).map weight).sum_nat

end PassCall

/-! ### The labels of a pass -/

namespace PassCall

variable {q : PassCall} {k : Cluster}

theorem arbitration_settled (h : q.Accepted) (hk : k ∈ q.clusters) :
    q.settled.arbitrations.get? k.key =
      some (q.engine.arbitrationOn (q.source k) q.classifiers k) :=
  Engine.arbitration_of_cluster h.2 hk

/-- The contenders on a cluster of an accepted call have different names. -/
theorem nodup_contenders (h : q.Accepted) (k : Cluster) :
    ((Engine.contenders (q.engine.classifications (q.source k) q.classifiers k)).map
      Classifier.name).Nodup :=
  Engine.nodup_contenders q.engine (q.source k) k h.1

theorem ownerOn_settled (h : q.Accepted) (hk : k ∈ q.clusters) (key : String) :
    q.settled.ownerOn? k key =
      (claimant? (q.engine.claimOrder (q.source k) q.classifiers k) key).map Classifier.name := by
  have hnames := nodup_contenders h k
  rw [PassResult.ownerOn?, arbitration_settled h hk]
  exact Arbitration.owner_among hnames key

theorem deniedOn_settled (h : q.Accepted) (hk : k ∈ q.clusters) :
    q.settled.deniedOn k = (q.engine.arbitrationOn (q.source k) q.classifiers k).conflicts := by
  have hnames := nodup_contenders h k
  have hperm : (q.settled.contendersOn k).Perm
      (Engine.contenders (q.engine.classifications (q.source k) q.classifiers k)) :=
    Engine.contendersOn_perm h.2 hk
  rw [PassResult.deniedOn, PassResult.requestsOn, List.countP_flatMap,
    (hperm.map _).sum_nat, Engine.arbitrationOn, Arbitration.conflicts_among hnames]
  refine congrArg List.sum (List.map_congr_left fun c hc => ?_)
  rw [Function.comp_apply, List.countP_map]
  refine List.countP_congr fun l hl => ?_
  rw [Function.comp_apply, ownerOn_settled h hk]
  -- a key that the contender lists has a first claimant, who is another one or has another name
  cases hd : claimant? (q.engine.claimOrder (q.source k) q.classifiers k) l.key with
  | none =>
    exact absurd (List.mem_map_of_mem hl) (claimant?_eq_none.mp hd c (Engine.mem_claimOrder.mpr hc))
  | some d =>
    have hd' : claimant? (Arbitration.ordered q.engine.precedence
        (Engine.contenders (q.engine.classifications (q.source k) q.classifiers k))) l.key =
        some d := hd
    have hsame : d.name = c.name ↔ d = c :=
      ⟨eq_of_map_nodup hnames (Engine.mem_claimOrder.mp (claimant?_some hd).1) hc, congrArg _⟩
    simp [hd', hsame]

theorem ownedOn_settled (h : q.Accepted) (hk : k ∈ q.clusters) :
    q.settled.ownedOn k = (q.engine.arbitrationOn (q.source k) q.classifiers k).owners.size := by
  have hnames := nodup_contenders h k
  have howners : (q.engine.arbitrationOn (q.source k) q.classifiers k).owners.keys.Perm _ :=
    Arbitration.owners_among_perm hnames
  have hperm : (q.settled.contendersOn k).Perm
      (Engine.contenders (q.engine.classifications (q.source k) q.classifiers k)) :=
    Engine.contendersOn_perm h.2 hk
  have hrequested : ((q.settled.requestsOn k).map Prod.snd).eraseDups.Perm
      (q.engine.arbitrationOn (q.source k) q.classifiers k).owners.keys := by
    refine List.Perm.trans ?_ howners.symm
    rw [List.perm_ext_iff_of_nodup (nodup_eraseDups _) (nodup_eraseDups _)]
    intro key
    simp only [List.mem_eraseDups, PassResult.requestsOn, List.map_flatMap, List.map_map,
      List.mem_flatMap, hperm.mem_iff]
    rfl
  have howned : ∀ key ∈ ((q.settled.requestsOn k).map Prod.snd).eraseDups,
      (q.settled.ownerOn? k key).isSome = true := by
    intro key hkey
    rw [PassResult.ownerOn?, arbitration_settled h hk]
    exact Table.mem_keys_iff.mp (hrequested.mem_iff.mp hkey)
  rw [PassResult.ownedOn, List.countP_eq_length.mpr howned, hrequested.length_eq, Table.keys,
    List.length_map]
  rfl

/-- An accepted call has one arbitration on each of its clusters. -/
theorem filterMap_arbitrations (h : q.Accepted) (hk : k ∈ q.clusters) (g : Arbitration → Nat) :
    (q.settled.arbitrations.values.filterMap fun a =>
        if a.cluster.key == k.key then some (g a) else none) =
      [g (q.engine.arbitrationOn (q.source k) q.classifiers k)] := by
  have hvalues : q.settled.arbitrations.values = (Engine.sortedClusters q.clusters).map fun j =>
      q.engine.arbitrationOn (q.source j) q.classifiers j := by
    rw [settled, Engine.settled, Engine.allArbitrations, Table.values, List.map_map]
    rfl
  have hsingle : ((Engine.sortedClusters q.clusters).filter fun j => j.key == k.key) = [k] :=
    filter_eq_singleton (Engine.nodup_sortedClusters h.2) (Engine.mem_sortedClusters.mpr hk)
  have hfilter := congrArg (List.filterMap fun j =>
    some (g (q.engine.arbitrationOn (q.source j) q.classifiers j))) hsingle
  rw [List.filterMap_filter] at hfilter
  rw [hvalues, List.filterMap_map]
  exact hfilter

theorem filterMap_arbitrations_eq_nil (hk : k.key ∉ q.clusters.map Cluster.key)
    (g : Arbitration → Nat) :
    (q.settled.arbitrations.values.filterMap fun a =>
        if a.cluster.key == k.key then some (g a) else none) = [] := by
  rw [List.filterMap_eq_nil_iff]
  intro a ha
  obtain ⟨e, he, rfl⟩ := List.mem_map.mp ha
  obtain ⟨j, hj, rfl⟩ := List.mem_map.mp he
  refine if_neg fun hkey => hk ?_
  exact List.mem_map.mpr ⟨j, Engine.mem_sortedClusters.mp hj, beq_iff_eq.mp hkey⟩

end PassCall

/-! ### Counters and gauges -/

namespace Metrics

/-- What the counter of a classifier's evaluations with an outcome shows. -/
def evaluationsOf (m : Metrics) (name : String) (o : Outcome) : Nat :=
  (m.sample "classifier_evaluations_total" ⟨[("classifier", name), ("result", o.name)]⟩).getD 0

/-- What the counter of a classifier's failures shows. -/
def failuresOf (m : Metrics) (name : String) : Nat :=
  (m.sample "classifier_constraint_failures_total" ⟨[("classifier", name)]⟩).getD 0

/-- What the gauge of the denied requests on a cluster shows. -/
def conflictsOn (m : Metrics) (key : String) : Option Nat :=
  m.sample "classifier_label_conflicts" ⟨[("cluster", key)]⟩

/-- What the gauge of the owned keys on a cluster shows. -/
def managedOn (m : Metrics) (key : String) : Option Nat :=
  m.sample "classifier_managed_labels" ⟨[("cluster", key)]⟩

theorem evaluationsOf_eq (m : Metrics) (name : String) (o : Outcome) :
    m.evaluationsOf name o = (m.evaluations.get? (name, o)).getD 0 := by
  cases o <;> rfl

theorem failuresOf_eq (m : Metrics) (name : String) :
    m.failuresOf name = (m.failures.get? name).getD 0 := rfl

theorem conflictsOn_eq (m : Metrics) (key : String) : m.conflictsOn key = m.conflicts.get? key := rfl

theorem managedOn_eq (m : Metrics) (key : String) : m.managedOn key = m.managed.get? key := rfl

theorem getD_advance {κ : Type} [DecidableEq κ] (t : Table κ Nat) (key other : κ) (n : Nat) :
    ((advance t key n).get? other).getD 0 =
      (t.get? other).getD 0 + if key = other then n else 0 := by
  rw [advance, Table.alter, Table.get?_set]
  by_cases hkey : key = other
  · rw [if_pos hkey, if_pos hkey, hkey]
    rfl
  · rw [if_neg hkey, if_neg hkey]
    rfl

/-! What one classification or arbitration does. -/

theorem evaluationsOf_observeClassification (m : Metrics) (name : String) (o : Outcome)
    (r : Classification) :
    (m.observeClassification r).evaluationsOf name o =
      m.evaluationsOf name o + if r.classifier.name = name ∧ Outcome.of r = o then 1 else 0 := by
  rw [evaluationsOf_eq, evaluationsOf_eq, observeClassification, getD_advance]
  simp only [Prod.mk.injEq]

theorem failuresOf_observeClassification (m : Metrics) (name : String) (r : Classification) :
    (m.observeClassification r).failuresOf name =
      m.failuresOf name + if r.classifier.name = name then r.failures.length else 0 := by
  rw [failuresOf_eq, failuresOf_eq, observeClassification]
  cases hfailures : r.failures with
  | nil => simp
  | cons text rest =>
    exact getD_advance m.failures r.classifier.name name (rest.length + 1)

theorem conflictsOn_observeArbitration (m : Metrics) (key : String) (a : Arbitration) :
    (m.observeArbitration a).conflictsOn key =
      (if a.cluster.key == key then some a.conflicts else none).or (m.conflictsOn key) := by
  rw [conflictsOn_eq, conflictsOn_eq, observeArbitration, Table.get?_set]
  by_cases hkey : a.cluster.key = key <;> simp [hkey]

theorem managedOn_observeArbitration (m : Metrics) (key : String) (a : Arbitration) :
    (m.observeArbitration a).managedOn key =
      (if a.cluster.key == key then some a.owners.size else none).or (m.managedOn key) := by
  rw [managedOn_eq, managedOn_eq, observeArbitration, Table.get?_set]
  by_cases hkey : a.cluster.key = key <;> simp [hkey]

/-! What one pass does. -/

/-- A number that only classifications add to grows by what those of the pass add. -/
theorem observe_sum {f : Metrics → Nat} {weight : Classification → Nat}
    (hclassification : ∀ m r, f (observeClassification m r) = f m + weight r)
    (harbitration : ∀ m a, f (observeArbitration m a) = f m)
    (hpasses : ∀ m n, f { m with passes := n } = f m) (m : Metrics) (p : PassResult) :
    f (m.observe p) = f m + (p.classifications.map weight).sum := by
  have hnone : ∀ (m : Metrics) (as : List Arbitration), f (as.foldl observeArbitration m) = f m := by
    intro m as
    induction as generalizing m with
    | nil => rfl
    | cons a rest ih => rw [List.foldl_cons, ih, harbitration]
  rw [observe, hpasses, hnone, foldl_sum hclassification]

/-- What only arbitrations set is left by the last one of the pass that sets it. -/
theorem observe_latest {f : Metrics → Option Nat} {g : Arbitration → Option Nat}
    (hclassification : ∀ m r, f (observeClassification m r) = f m)
    (harbitration : ∀ m a, f (observeArbitration m a) = (g a).or (f m))
    (hpasses : ∀ m n, f { m with passes := n } = f m) (m : Metrics) (p : PassResult) :
    f (m.observe p) = (p.arbitrations.values.filterMap g).getLast?.or (f m) := by
  have hnone : ∀ (m : Metrics) (rs : List Classification),
      f (rs.foldl observeClassification m) = f m := by
    intro m rs
    induction rs generalizing m with
    | nil => rfl
    | cons r rest ih => rw [List.foldl_cons, ih, hclassification]
  rw [observe, hpasses, foldl_latest harbitration, hnone]

/-! What one call does. -/

theorem evaluationsOf_record (m : Metrics) (q : PassCall) (name : String) (o : Outcome) :
    (m.record q.result).evaluationsOf name o =
      m.evaluationsOf name o + (q.verdicts name).countP fun r => Outcome.of r = o := by
  rcases q.accepted_or_refused with ⟨h, hresult⟩ | ⟨-, f, hresult⟩
  · have hobserve := observe_sum (f := fun m => m.evaluationsOf name o)
      (fun m r => evaluationsOf_observeClassification m name o r) (fun _ _ => rfl) (fun _ _ => rfl)
      m q.settled
    have hsplit : ∀ r : Classification,
        (if r.classifier.name = name ∧ Outcome.of r = o then 1 else 0) =
          if r.classifier.name = name then (if Outcome.of r = o then 1 else 0) else 0 :=
      fun r => ite_and ..
    simp only [hsplit, PassCall.sum_classifications h, sum_map_indicator] at hobserve
    rw [hresult]
    exact hobserve
  · rw [PassCall.verdicts_of_refused hresult, hresult]
    rfl

theorem failuresOf_record (m : Metrics) (q : PassCall) (name : String) :
    (m.record q.result).failuresOf name =
      m.failuresOf name + ((q.verdicts name).map fun r => r.failures.length).sum := by
  rcases q.accepted_or_refused with ⟨h, hresult⟩ | ⟨-, f, hresult⟩
  · have hobserve := observe_sum (f := fun m => m.failuresOf name)
      (fun m r => failuresOf_observeClassification m name r) (fun _ _ => rfl) (fun _ _ => rfl)
      m q.settled
    rw [PassCall.sum_classifications h] at hobserve
    rw [hresult]
    exact hobserve
  · rw [PassCall.verdicts_of_refused hresult, hresult]
    rfl

/-- A gauge of clusters shows what the pass found on a cluster, if it was over it. -/
theorem gauge_record {f : Metrics → Option Nat} {g : Arbitration → Nat} {found : PassResult → Nat}
    {k : Cluster} (hclassification : ∀ m r, f (observeClassification m r) = f m)
    (harbitration : ∀ m a, f (observeArbitration m a) =
      (if a.cluster.key == k.key then some (g a) else none).or (f m))
    (hpasses : ∀ m n, f { m with passes := n } = f m)
    (hfound : ∀ (q : PassCall) (j : Cluster), q.Accepted → j ∈ q.clusters → j.key = k.key →
      found q.settled = g (q.engine.arbitrationOn (q.source j) q.classifiers j))
    (m : Metrics) (q : PassCall) :
    f (m.record q.result) = ((q.passOver? k).map found).or (f m) := by
  rcases q.accepted_or_refused with ⟨h, hresult⟩ | ⟨-, _, hresult⟩
  · rw [PassCall.passOver?_of_accepted h, hresult]
    refine (observe_latest hclassification harbitration hpasses m q.settled).trans ?_
    by_cases hk : k.key ∈ q.clusters.map Cluster.key
    · obtain ⟨j, hj, hjk⟩ := List.mem_map.mp hk
      have hnumbers := PassCall.filterMap_arbitrations h hj g
      rw [hjk] at hnumbers
      rw [hnumbers, if_pos hk, Option.map_some, hfound q j h hj hjk]
      rfl
    · rw [PassCall.filterMap_arbitrations_eq_nil hk, if_neg hk]
      rfl
  · rw [PassCall.passOver?_of_refused hresult, hresult]
    rfl

theorem conflictsOn_record (m : Metrics) (q : PassCall) (k : Cluster) :
    (m.record q.result).conflictsOn k.key =
      ((q.passOver? k).map fun p => p.deniedOn k).or (m.conflictsOn k.key) := by
  refine gauge_record (f := fun m => m.conflictsOn k.key) (fun _ _ => rfl)
    (fun m a => conflictsOn_observeArbitration m k.key a) (fun _ _ => rfl) ?_ m q
  intro q j h hj hjk
  rw [← PassCall.deniedOn_settled h hj, PassResult.deniedOn_congr hjk]

theorem managedOn_record (m : Metrics) (q : PassCall) (k : Cluster) :
    (m.record q.result).managedOn k.key =
      ((q.passOver? k).map fun p => p.ownedOn k).or (m.managedOn k.key) := by
  refine gauge_record (f := fun m => m.managedOn k.key) (fun _ _ => rfl)
    (fun m a => managedOn_observeArbitration m k.key a) (fun _ _ => rfl) ?_ m q
  intro q j h hj hjk
  rw [← PassCall.ownedOn_settled h hj, PassResult.ownedOn_congr hjk]

/-! ### Runs of calls -/

/-- The metrics after some calls, which all came to an end before the next one began. -/
def ofCalls (qs : List PassCall) : Metrics := qs.foldl (fun m q => m.record q.result) zero

/-- What metrics show when they account for some calls. A classifier's evaluations are counted by the
    passes that were made and the clusters of each, its matches and errors by what the passes hold
    for those pairs, and its failures by their messages. The gauges of a cluster tell of the last
    pass that was made over it. -/
structure Accounts (m : Metrics) (qs : List PassCall) : Prop where
  evaluations : ∀ name, m.evaluationsOf name .matched + m.evaluationsOf name .failed +
    m.evaluationsOf name .unmatched =
      ((qs.filter fun q => q.Evaluates name).map fun q => q.clusters.length).sum
  matched : ∀ name, m.evaluationsOf name .matched =
    (qs.flatMap (PassCall.verdicts name)).countP fun r => r.matched
  errors : ∀ name, m.evaluationsOf name .failed =
    (qs.flatMap (PassCall.verdicts name)).countP fun r => !r.matched && !r.failures.isEmpty
  failures : ∀ name, m.failuresOf name =
    ((qs.flatMap (PassCall.verdicts name)).map fun r => r.failures.length).sum
  conflicts : ∀ k : Cluster, m.conflictsOn k.key =
    ((qs.filterMap (PassCall.passOver? k)).getLast?).map fun p => p.deniedOn k
  managed : ∀ k : Cluster, m.managedOn k.key =
    ((qs.filterMap (PassCall.passOver? k)).getLast?).map fun p => p.ownedOn k

theorem evaluationsOf_ofCalls (qs : List PassCall) (name : String) (o : Outcome) :
    (ofCalls qs).evaluationsOf name o =
      (qs.flatMap (PassCall.verdicts name)).countP fun r => Outcome.of r = o := by
  have hrun := foldl_sum (f := fun m => m.evaluationsOf name o)
    (fun m q => evaluationsOf_record m q name o) zero qs
  have hzero : zero.evaluationsOf name o = 0 := evaluationsOf_eq zero name o
  rw [ofCalls, hrun, hzero, Nat.zero_add, List.countP_flatMap]
  rfl

theorem failuresOf_ofCalls (qs : List PassCall) (name : String) :
    (ofCalls qs).failuresOf name =
      ((qs.flatMap (PassCall.verdicts name)).map fun r => r.failures.length).sum := by
  have hrun := foldl_sum (f := fun m => m.failuresOf name)
    (fun m q => failuresOf_record m q name) zero qs
  have hzero : zero.failuresOf name = 0 := failuresOf_eq zero name
  rw [ofCalls, hrun, hzero, Nat.zero_add, List.map_flatMap, List.flatMap_def, List.sum_flatten,
    List.map_map]
  rfl

/-- A gauge that each call leaves as its pass found it shows what the last pass found. -/
theorem gauge_ofCalls {f : Metrics → Option Nat} {g : PassCall → Option PassResult}
    {found : PassResult → Nat}
    (hrecord : ∀ m q, f (m.record q.result) = ((g q).map found).or (f m)) (hzero : f zero = none)
    (qs : List PassCall) : f (ofCalls qs) = ((qs.filterMap g).getLast?).map found := by
  have hrun := foldl_latest hrecord zero qs
  rw [ofCalls, hrun, hzero, Option.or_none, ← List.map_filterMap, List.getLast?_map]

/-- Each evaluation has one outcome. -/
theorem countP_outcomes (rs : List Classification) :
    (rs.countP fun r => Outcome.of r = .matched) + (rs.countP fun r => Outcome.of r = .failed) +
      (rs.countP fun r => Outcome.of r = .unmatched) = rs.length := by
  induction rs with
  | nil => rfl
  | cons r rest ih =>
    simp only [List.countP_cons, List.length_cons]
    cases Outcome.of r <;> simp <;> omega

/-- A classification counts as an error when it has failures and does not match. -/
theorem of_eq_failed_iff (r : Classification) :
    Outcome.of r = .failed ↔ (!r.matched && !r.failures.isEmpty) = true := by
  cases hmatched : r.matched <;> cases hfailures : r.failures.isEmpty <;>
    simp [Outcome.of, hmatched, hfailures]

theorem of_eq_matched_iff (r : Classification) : Outcome.of r = .matched ↔ r.matched = true := by
  cases hmatched : r.matched <;> cases hfailures : r.failures.isEmpty <;>
    simp [Outcome.of, hmatched, hfailures]

/-- Whatever calls are made, with whatever engines, sources, classifiers and clusters, the metrics
    account for them, and a call that is refused for names or keys that repeat changes nothing. -/
theorem ofCalls_accounts (qs : List PassCall) :
    (ofCalls qs).Accounts qs ∧ ∀ q : PassCall,
      ¬ q.Accepted → ofCalls (qs ++ [q]) = ofCalls qs := by
  constructor
  · constructor
    case evaluations =>
      intro name
      simp only [evaluationsOf_ofCalls, countP_outcomes, List.length_flatMap,
        PassCall.length_verdicts, sum_map_filter]
    case matched =>
      intro name
      simp only [evaluationsOf_ofCalls, of_eq_matched_iff, Bool.decide_eq_true]
    case errors =>
      intro name
      simp only [evaluationsOf_ofCalls, of_eq_failed_iff, Bool.decide_eq_true]
    case failures => exact failuresOf_ofCalls qs
    case conflicts =>
      intro k
      exact gauge_ofCalls (f := fun m => m.conflictsOn k.key)
        (fun m q => conflictsOn_record m q k) rfl qs
    case managed =>
      intro k
      exact gauge_ofCalls (f := fun m => m.managedOn k.key)
        (fun m q => managedOn_record m q k) rfl qs
  · intro q hq
    obtain ⟨f, hresult⟩ : ∃ f, q.result = .error f :=
      q.accepted_or_refused.resolve_left (fun h => hq h.1) |>.2
    rw [ofCalls, List.foldl_concat, hresult]
    rfl

end Metrics

/-! ### Two calls -/

namespace Sample

/-- Both classifiers on both clusters, of which the second finishes first. -/
def bothCall : PassCall where
  engine := engine
  source := fleet
  classifiers := [red, blue]
  clusters := [north, south]
  finished := [south, north]
  finished_perm := List.Perm.swap _ _ _

/-- The same with one cluster given twice. -/
def doubledCall : PassCall where
  engine := engine
  source := fleet
  classifiers := [red, blue]
  clusters := [north, north]
  finished := [north, north]
  finished_perm := List.Perm.refl _

end Sample

open Sample Metrics in
/-- The second call is refused and leaves the numbers of the first one: two evaluations of `red`. -/
theorem doubled_call_not_counted :
    bothCall.Accepted ∧ ¬ doubledCall.Accepted ∧
      ofCalls [bothCall, doubledCall] = ofCalls [bothCall] ∧
      (ofCalls [bothCall]).evaluationsOf "red" .matched +
        (ofCalls [bothCall]).evaluationsOf "red" .failed +
        (ofCalls [bothCall]).evaluationsOf "red" .unmatched = 2 := by
  have hrefused : ¬ doubledCall.Accepted := by decide
  obtain ⟨haccounts, hsame⟩ := ofCalls_accounts [bothCall]
  refine ⟨by decide, hrefused, hsame doubledCall hrefused, ?_⟩
  rw [haccounts.evaluations "red"]
  decide

end FleetLabels
