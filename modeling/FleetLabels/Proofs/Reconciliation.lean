import FleetLabels.Proofs.LabelOwners
import FleetLabels.Proofs.Relabelling
import FleetLabels.Proofs.Verdicts

/-!
    Clusters brought to what a pass asks for.

    A cluster is reconciled with a pass when the labels that only deleted classifiers still hold on it
    are dropped (`PassResult.isStale`) and the desired ones are written (`PassResult.reconciled`). One
    round of this is enough: a second pass decides as the first did, and finds nothing left to apply
    and nothing left to remove. -/

namespace FleetLabels

namespace PassResult

/-- The labels that a cluster should carry after a pass. -/
def desiredOn (p : PassResult) (k : Cluster) : Table String String :=
  ((p.arbitrations.get? k.key).map Arbitration.desired).getD .empty

/-- Whether a cluster carries at a key what a deleted classifier lists there and nobody else wants. -/
def isStale (p : PassResult) (cs : List Classifier) (k : Cluster) (key : String) : Bool :=
  cs.any fun c => c.isDeleted && c.labels.any fun l =>
    l.key == key && k.labels.get? key == some l.value && (p.desiredOn k).get? key != some l.value

/-- The labels of a cluster after what a pass asks for has been done. -/
def reconciled (p : PassResult) (cs : List Classifier) (k : Cluster) : Table String String :=
  (k.labels.drop (p.isStale cs k)).overlay (p.desiredOn k)

variable {p : PassResult} {cs : List Classifier} {k : Cluster} {key value : String}

theorem isStale_of_listed {c : Classifier} (hc : c ∈ cs) (hdeleted : c.isDeleted = true) {l : Label}
    (hl : l ∈ c.labels) (hcarried : k.labels.get? l.key = some l.value)
    (hunwanted : (p.desiredOn k).get? l.key ≠ some l.value) : p.isStale cs k l.key = true := by
  refine List.any_eq_true.mpr ⟨c, hc, ?_⟩
  rw [hdeleted, Bool.true_and, List.any_eq_true]
  exact ⟨l, hl, by simp [hcarried, hunwanted]⟩

/-- A desired label is carried after reconciliation, whatever the cluster had at its key. -/
theorem reconciled_of_desired (h : (p.desiredOn k).get? key = some value) :
    (p.reconciled cs k).get? key = some value := by
  rw [reconciled, Table.get?_overlay, h, Option.some_or]

/-- What a deleted classifier lists is carried after reconciliation only where it is desired. -/
theorem desired_of_reconciled {c : Classifier} (hc : c ∈ cs) (hdeleted : c.isDeleted = true)
    {l : Label} (hl : l ∈ c.labels) (h : (p.reconciled cs k).get? l.key = some l.value) :
    (p.desiredOn k).get? l.key = some l.value := by
  by_contra hunwanted
  rw [reconciled, Table.get?_overlay, Table.get?_drop] at h
  cases hdesired : (p.desiredOn k).get? l.key with
  | some other =>
    rw [hdesired, Option.some_or] at h
    exact hunwanted (hdesired.trans h)
  | none =>
    rw [hdesired, Option.none_or] at h
    by_cases hstale : p.isStale cs k l.key = true
    · rw [if_pos hstale] at h
      cases h
    · rw [if_neg hstale] at h
      exact hstale (isStale_of_listed hc hdeleted hl h hunwanted)

end PassResult

namespace Engine

variable {e : Engine} {source : Cluster → Source} {cs : List Classifier} {clusters : List Cluster}
  {k : Cluster} {r : Classification}

/-! ### Clusters with nothing left to do -/

section Accepted

variable (hnames : (cs.map Classifier.name).Nodup) (hkeys : (clusters.map Cluster.key).Nodup)
  (hk : k ∈ clusters) (hr : r ∈ e.classifications (source k) cs k)

include hnames hkeys hk hr

/-- What failed on a cluster is told of it, whatever it carries. -/
theorem says_failed (hdeleted : r.classifier.isDeleted = false) (hfailures : r.failures ≠ []) :
    (e.settled source cs clusters).Says r.classifier.name k.key .failed
      (some ("; ".intercalate r.failures)) :=
  says_of_settledStatus hnames hkeys hk hr
    (StatusReport.settledStatus_of_failures hdeleted hfailures)

/-- Nothing is left to be applied to a cluster that carries all that is desired. -/
theorem says_provisioned (hdeleted : r.classifier.isDeleted = false) (hfailures : r.failures = [])
    (hcarried : ∀ key value, (e.arbitrationOn (source k) cs k).desired.get? key = some value →
      k.labels.get? key = some value) :
    (e.settled source cs clusters).Says r.classifier.name k.key .provisioned none := by
  refine says_of_settledStatus hnames hkeys hk hr ?_
  refine StatusReport.settledStatus_eq_provisioned hdeleted hfailures fun key hkey => ?_
  obtain ⟨l, -, -, hwanted, hdesired⟩ :=
    desired_of_claimant hnames ((mem_managed_recordOf hnames hr).mp hkey)
  rw [cluster_of_mem hr, hcarried key l.value hdesired, hwanted]

/-- Nothing is left to be removed from a cluster that carries of a deleted classifier only what is
    desired. -/
theorem says_removed (hdeleted : r.classifier.isDeleted = true)
    (hgone : ∀ l ∈ r.classifier.labels, k.labels.get? l.key = some l.value →
      (e.arbitrationOn (source k) cs k).desired.get? l.key = some l.value) :
    (e.settled source cs clusters).Says r.classifier.name k.key .removed none := by
  refine says_of_settledStatus hnames hkeys hk hr ?_
  refine StatusReport.settledStatus_eq_removed hdeleted fun l hl hcarried => ?_
  rw [cluster_of_mem hr] at hcarried
  exact hgone l hl hcarried

end Accepted

/-! ### The pass after a change of labels -/

section Relabelled

variable {labels : Cluster → Table String String} (hnames : (cs.map Classifier.name).Nodup)
  (hkeys : (clusters.map Cluster.key).Nodup)
  (hsource : ∀ j k : Cluster, j.key = k.key → source j = source k) (hk : k ∈ clusters)
  (hr : r ∈ e.classifications (source k) cs k)

include hkeys in
theorem nodup_relabel : ((clusters.map (Cluster.relabel labels)).map Cluster.key).Nodup := by
  rwa [List.map_map]

include hsource hr in
theorem relabel_mem_classifications :
    r.relabel labels ∈ e.classifications (source (k.relabel labels)) cs (k.relabel labels) := by
  rw [hsource (k.relabel labels) k rfl, classifications_relabel]
  exact List.mem_map_of_mem hr

include hkeys hsource hk in
/-- What is desired on a cluster does not depend on its labels. -/
theorem desired_relabel :
    (e.arbitrationOn (source (k.relabel labels)) cs (k.relabel labels)).desired =
      (e.settled source cs clusters).desiredOn k := by
  rw [hsource (k.relabel labels) k rfl, arbitrationOn_relabel, PassResult.desiredOn, settled,
    arbitration_of_cluster hkeys hk]
  rfl

include hnames hkeys hsource hk hr

theorem failed_after_relabel (hdeleted : r.classifier.isDeleted = false)
    (hfailures : r.failures ≠ []) :
    (e.settled source cs (clusters.map (Cluster.relabel labels))).Says r.classifier.name k.key
      .failed (some ("; ".intercalate r.failures)) :=
  says_failed (k := k.relabel labels) (r := r.relabel labels) hnames (nodup_relabel hkeys)
    (List.mem_map_of_mem hk) (relabel_mem_classifications hsource hr) hdeleted hfailures

theorem provisioned_after_relabel (hdeleted : r.classifier.isDeleted = false)
    (hfailures : r.failures = [])
    (hcarried : ∀ key value, ((e.settled source cs clusters).desiredOn k).get? key = some value →
      (labels k).get? key = some value) :
    (e.settled source cs (clusters.map (Cluster.relabel labels))).Says r.classifier.name k.key
      .provisioned none := by
  refine says_provisioned (k := k.relabel labels) (r := r.relabel labels) hnames
    (nodup_relabel hkeys) (List.mem_map_of_mem hk) (relabel_mem_classifications hsource hr) hdeleted
    hfailures ?_
  rw [desired_relabel hkeys hsource hk]
  exact hcarried

theorem removed_after_relabel (hdeleted : r.classifier.isDeleted = true)
    (hgone : ∀ l ∈ r.classifier.labels, (labels k).get? l.key = some l.value →
      ((e.settled source cs clusters).desiredOn k).get? l.key = some l.value) :
    (e.settled source cs (clusters.map (Cluster.relabel labels))).Says r.classifier.name k.key
      .removed none := by
  refine says_removed (k := k.relabel labels) (r := r.relabel labels) hnames (nodup_relabel hkeys)
    (List.mem_map_of_mem hk) (relabel_mem_classifications hsource hr) hdeleted ?_
  rw [desired_relabel hkeys hsource hk]
  exact hgone

end Relabelled

/-! ### The pass after reconciliation -/

/-- A pass over clusters that were reconciled with the pass before decides the same. Of a classifier
    that is not being deleted it says that everything is applied, unless it failed, and then it fails
    as before; of one that is, that it is gone. -/
theorem run_settles_once_reconciled (e : Engine) (source : Cluster → Source) (cs : List Classifier)
    (clusters : List Cluster) (hnames : (cs.map Classifier.name).Nodup)
    (hkeys : (clusters.map Cluster.key).Nodup)
    (hsource : ∀ j k : Cluster, j.key = k.key → source j = source k) :
    ∃ p q, e.run source cs clusters = .ok p ∧
      e.run source cs (clusters.map (Cluster.relabel (p.reconciled cs))) = .ok q ∧
      q.classifications = p.classifications.map (Classification.relabel (p.reconciled cs)) ∧
      q.arbitrations = p.arbitrations.map (Arbitration.relabel (p.reconciled cs)) ∧
      ∀ c ∈ cs, ∀ k ∈ clusters, ∃ status failure, p.Says c.name k.key status failure ∧
        (c.isDeleted = true → q.Says c.name k.key .removed none) ∧
        (c.isDeleted = false → status ≠ .failed → q.Says c.name k.key .provisioned none) ∧
        (c.isDeleted = false → status = .failed → q.Says c.name k.key .failed failure) := by
  refine ⟨e.settled source cs clusters, _, run_eq_settled hnames hkeys,
    run_eq_settled hnames (nodup_relabel hkeys), allClassifications_relabel _ hsource,
    allArbitrations_relabel _ hsource, fun c hc k hk => ?_⟩
  obtain ⟨r, hr, rfl⟩ := exists_classification e (source k) k hc
  refine ⟨_, _, says_judged hnames hkeys hk hr, fun hdeleted => ?_, fun hdeleted hstatus => ?_,
    fun hdeleted hstatus => ?_⟩
  · refine removed_after_relabel hnames hkeys hsource hk hr hdeleted fun l hl => ?_
    exact PassResult.desired_of_reconciled hc hdeleted hl
  · have hfailures : r.failures = [] := by
      by_contra hfailures
      exact hstatus ((StatusReport.settledStatus_eq_failed hdeleted).mpr hfailures)
    refine provisioned_after_relabel hnames hkeys hsource hk hr hdeleted hfailures ?_
    exact fun key value => PassResult.reconciled_of_desired
  · have hfailures := (StatusReport.settledStatus_eq_failed hdeleted).mp hstatus
    have htold : (e.judged source cs r).failure = some ("; ".intercalate r.failures) :=
      congrArg Prod.snd (StatusReport.settledStatus_of_failures hdeleted hfailures)
    rw [htold]
    exact failed_after_relabel hnames hkeys hsource hk hr hdeleted hfailures

end Engine

/-! ### A cluster with labels of its past -/

namespace Sample

/-- Is being deleted, and lists a key of `blue` with another value and a key of its own. -/
def retired : Classifier :=
  ⟨"retired", [⟨"env", "prod"⟩, ⟨"zone", "a"⟩], [], [], some ⟨5, 0⟩, some ⟨30, 0⟩, by decide⟩

/-- Carries what `retired` lists. -/
def worn : Cluster := ⟨"default", "worn", .capi, ⟨[("env", "prod"), ("zone", "a")]⟩⟩

def shut : Source := ⟨fun _ _ => .error "timeout", none⟩

end Sample

open Sample in
/-- Before and after `worn` is reconciled, for the owner of a key, a classifier that is being deleted
    and one that fails. -/
theorem worn_settles_once_reconciled :
    ∃ p q text, engine.run (fun _ => shut) [blue, retired, probe] [worn] = .ok p ∧
      engine.run (fun _ => shut) [blue, retired, probe]
        [worn.relabel (p.reconciled [blue, retired, probe])] = .ok q ∧
      p.Says "blue" worn.key .provisioning none ∧ q.Says "blue" worn.key .provisioned none ∧
      p.Says "retired" worn.key .removing none ∧ q.Says "retired" worn.key .removed none ∧
      p.Says "probe" worn.key .failed text ∧ q.Says "probe" worn.key .failed text := by
  let cs := [blue, retired, probe]
  have hnames : (cs.map Classifier.name).Nodup := by decide
  have hkeys : ([worn].map Cluster.key).Nodup := by decide
  obtain ⟨p, q, hp, hq, -, -, hsays⟩ := Engine.run_settles_once_reconciled engine
    (fun _ => shut) cs [worn] hnames hkeys fun _ _ _ => rfl
  -- what the first pass says is computed from the verdict that each classifier has alone
  let said (c : Classifier) := engine.judged (fun _ => shut) cs (engine.alone shut worn c)
  have hsaid : ∀ c ∈ cs, p.Says c.name worn.key (said c).status (said c).failure := by
    intro c hc
    have hmem : engine.alone shut worn c ∈ engine.classifications shut cs worn :=
      List.mem_map_of_mem (f := engine.alone shut worn) hc
    have hjudged := @Engine.says_judged engine (fun _ => shut) cs [worn] worn _ hnames hkeys
      List.mem_cons_self hmem
    rw [Engine.run_eq_settled hnames hkeys] at hp
    rwa [Engine.alone_classifier, Except.ok.inj hp] at hjudged
  have hblue : (said blue).status = .provisioning ∧ (said blue).failure = none := by decide +kernel
  have hretired : (said retired).status = .removing ∧ (said retired).failure = none := by
    decide +kernel
  have hprobe : (said probe).status = .failed := by decide +kernel
  have hbefore := And.intro (hsaid blue (by decide))
    (And.intro (hsaid retired (by decide)) (hsaid probe (by decide)))
  rw [hblue.1, hblue.2, hretired.1, hretired.2, hprobe] at hbefore
  obtain ⟨_, _, hfirst, -, happlied, -⟩ := hsays blue (by decide) worn List.mem_cons_self
  obtain ⟨rfl, -⟩ := hfirst.unique hbefore.1
  obtain ⟨-, -, -, hgone, -⟩ := hsays retired (by decide) worn List.mem_cons_self
  obtain ⟨_, _, hfirst, -, -, hfailed⟩ := hsays probe (by decide) worn List.mem_cons_self
  obtain ⟨rfl, rfl⟩ := hfirst.unique hbefore.2.2
  exact ⟨p, q, _, hp, hq, hbefore.1, happlied rfl (by decide), hbefore.2.1, hgone rfl, hbefore.2.2,
    hfailed rfl rfl⟩

end FleetLabels
