import FleetLabels.Proofs.Judgement
import FleetLabels.Proofs.LabelOwners

/-!
    What statuses tell of the arbitration.

    The status of a classifier is found from its own labels and its record. It tells how the labels of
    the cluster stand to the arbitration: whether a key that the classifier owns is still without its
    desired value (`Arbitration.Pending`) and, once the classifier is being deleted, whether one of its
    labels is still carried that is not desired (`Arbitration.Lingering`). So a pass says of everything
    that it is provisioned or removed exactly when nothing failed, all clusters carry what is desired
    and nothing lingers on them (`Engine.run_statuses_tell`). -/

namespace FleetLabels

/-! ### What is left to do -/

namespace Arbitration

variable {a : Arbitration} {labels : Table String String} {c : Classifier}

/-- Of the labels of a cluster, a key that the named classifier owns is missing or has another value
    than the desired one. -/
def Pending (a : Arbitration) (labels : Table String String) (name : String) : Prop :=
  ∃ key, a.owners.get? key = some name ∧
    (labels.get? key = none ∨ labels.get? key ≠ a.desired.get? key)

/-- A label of the classifier is carried with its value, and this value is not the desired one. -/
def Lingering (a : Arbitration) (labels : Table String String) (c : Classifier) : Prop :=
  ∃ l ∈ c.labels, labels.get? l.key = some l.value ∧ a.desired.get? l.key ≠ some l.value

/-- What a status and its message tell of a classifier on a cluster with an arbitration and labels.
    Deletion comes before failures, and failures before the labels. -/
structure Tells (a : Arbitration) (labels : Table String String) (c : Classifier)
    (failures : List String) (status : FeatureStatus) (failure : Option String) : Prop where
  sound : c.isDeleted = false → failures = [] → failure = none ∧
    (status = .provisioning ↔ a.Pending labels c.name) ∧
    (status = .provisioned ↔ ¬ a.Pending labels c.name)
  failed : c.isDeleted = false → failures ≠ [] → status = .failed
  deleted : c.isDeleted = true → failure = none ∧
    (status = .removing ↔ a.Lingering labels c) ∧ (status = .removed ↔ ¬ a.Lingering labels c)

/-- A classifier is done with a cluster when nothing failed or is pending there, or, if it is being
    deleted, when nothing of it lingers. -/
theorem Tells.done_iff {failures : List String} {status : FeatureStatus} {failure : Option String}
    (h : a.Tells labels c failures status failure) :
    (status = .provisioned ∧ failure = none) ∨ (status = .removed ∧ failure = none) ↔
      (c.isDeleted = false → failures = [] ∧ ¬ a.Pending labels c.name) ∧
      (c.isDeleted = true → ¬ a.Lingering labels c) := by
  cases hdeleted : c.isDeleted with
  | true =>
    obtain ⟨hnone, hremoving, hremoved⟩ := h.deleted hdeleted
    by_cases hlingers : a.Lingering labels c
    · simp [hremoving.mpr hlingers, hlingers]
    · simp [hremoved.mpr hlingers, hnone, hlingers]
  | false =>
    by_cases hfailures : failures = []
    · obtain ⟨hnone, hprovisioning, hprovisioned⟩ := h.sound hdeleted hfailures
      by_cases hpending : a.Pending labels c.name
      · simp [hprovisioning.mpr hpending, hpending]
      · simp [hprovisioned.mpr hpending, hnone, hfailures, hpending]
    · simp [h.failed hdeleted hfailures, hfailures]

/-- A status tells of the arbitration when the record of the classifier tells what is pending. -/
theorem tells_of_pending_iff {r : Classification} {m : MatchRecord}
    (hpending : a.Pending r.cluster.labels r.classifier.name ↔
      ∃ key ∈ m.managed, r.cluster.labels.get? key ≠ r.classifier.wanted? key) :
    a.Tells r.cluster.labels r.classifier r.failures (StatusReport.settledStatus r m (some a)).1
      (StatusReport.settledStatus r m (some a)).2 := by
  constructor
  case sound =>
    intro hdeleted hfailures
    rw [StatusReport.settledStatus_of_sound hdeleted hfailures, hpending]
    exact ⟨rfl, by simp, by simp⟩
  case failed =>
    intro hdeleted hfailures
    exact (StatusReport.settledStatus_eq_failed hdeleted).mpr hfailures
  case deleted =>
    intro hdeleted
    rw [StatusReport.settledStatus_of_deleted hdeleted, Lingering]
    exact ⟨rfl, by simp, by simp⟩

end Arbitration

namespace Engine

variable {e : Engine} {src : Source} {source : Cluster → Source} {cs : List Classifier}
  {clusters : List Cluster} {k : Cluster} {r : Classification}

/-! ### Owners and records -/

theorem not_deleted_of_contends {c : Classifier}
    (hc : c ∈ contenders (e.classifications src cs k)) : c.isDeleted = false := by
  obtain ⟨r, hr, rfl⟩ := List.mem_map.mp hc
  simpa using (Bool.and_eq_true_iff.mp (List.mem_filter.mp hr).2).2

section Named

variable (hnames : (cs.map Classifier.name).Nodup)

include hnames

/-- The first claimant of a key is its owner by name. -/
theorem owner_iff_claimant {c : Classifier} (hc : c ∈ cs) {key : String} :
    (e.arbitrationOn src cs k).owners.get? key = some c.name ↔
      claimant? (e.claimOrder src cs k) key = some c :=
  Arbitration.owner_eq_iff (nodup_contenders e src k hnames)
    fun _ hd => eq_of_map_nodup hnames (contenders_sublist.subset hd) hc

/-- Something is pending for a classifier when a key that it manages has not the value that it lists. -/
theorem pending_iff (hr : r ∈ e.classifications src cs k) :
    (e.arbitrationOn src cs k).Pending k.labels r.classifier.name ↔
      ∃ key ∈ (StatusReport.recordOf r (some (e.arbitrationOn src cs k))).managed,
        r.cluster.labels.get? key ≠ r.classifier.wanted? key := by
  -- what is desired at a key is what its owner lists there
  have hone : ∀ key, claimant? (e.claimOrder src cs k) key = some r.classifier →
      (k.labels.get? key = none ∨
        k.labels.get? key ≠ (e.arbitrationOn src cs k).desired.get? key ↔
      r.cluster.labels.get? key ≠ r.classifier.wanted? key) := by
    intro key hkey
    obtain ⟨l, -, -, hwanted, hdesired⟩ := desired_of_claimant hnames hkey
    rw [cluster_of_mem hr, hwanted, hdesired]
    cases k.labels.get? key <;> simp
  constructor
  · rintro ⟨key, howner, hmissing⟩
    have hkey := (owner_iff_claimant hnames (classifier_of_mem hr)).mp howner
    exact ⟨key, (mem_managed_recordOf hnames hr).mpr hkey, (hone key hkey).mp hmissing⟩
  · rintro ⟨key, hmanaged, hmissing⟩
    have hkey := (mem_managed_recordOf hnames hr).mp hmanaged
    exact ⟨key, (owner_iff_claimant hnames (classifier_of_mem hr)).mpr hkey,
      (hone key hkey).mpr hmissing⟩

/-- The status that is found tells what the arbitration and the labels of the cluster make of it. -/
theorem tells_settledStatus (hr : r ∈ e.classifications src cs k) :
    let a := e.arbitrationOn src cs k
    let s := StatusReport.settledStatus r (StatusReport.recordOf r (some a)) (some a)
    a.Tells k.labels r.classifier r.failures s.1 s.2 := by
  have hpending := pending_iff hnames hr
  rw [← cluster_of_mem hr] at hpending ⊢
  exact Arbitration.tells_of_pending_iff hpending

/-- A cluster carries all that is desired when nothing is pending there for any classifier that is not
    being deleted. -/
theorem carries_iff :
    (∀ key value, (e.arbitrationOn src cs k).desired.get? key = some value →
      k.labels.get? key = some value) ↔
    ∀ c ∈ cs, c.isDeleted = false → ¬ (e.arbitrationOn src cs k).Pending k.labels c.name := by
  constructor
  · rintro hcarries c hc - ⟨key, howner, hmissing⟩
    have hkey := (owner_iff_claimant hnames hc).mp howner
    obtain ⟨l, -, -, -, hdesired⟩ := desired_of_claimant hnames hkey
    rw [hdesired, hcarries key l.value hdesired] at hmissing
    simp at hmissing
  · intro hnone key value hdesired
    have hclaimed := hdesired
    rw [arbitrationOn, Arbitration.desired_among (nodup_contenders e src k hnames),
      Option.bind_eq_some_iff] at hclaimed
    obtain ⟨c, hkey, -⟩ := hclaimed
    have hcontends := mem_claimOrder.mp (claimant?_some hkey).1
    have hmem := contenders_sublist.subset hcontends
    by_contra hmissing
    refine hnone c hmem (not_deleted_of_contends hcontends) ⟨key, ?_, .inr (hdesired ▸ hmissing)⟩
    exact (owner_iff_claimant hnames hmem).mpr hkey

end Named

/-! ### Statuses of a pass -/

section Accepted

variable (hnames : (cs.map Classifier.name).Nodup) (hkeys : (clusters.map Cluster.key).Nodup)

include hnames hkeys

/-- What a pass says of a classifier and a cluster tells what is left to do. -/
theorem exists_says_tells (hk : k ∈ clusters) (hr : r ∈ e.classifications (source k) cs k) :
    ∃ status failure,
      (e.settled source cs clusters).Says r.classifier.name k.key status failure ∧
      (e.arbitrationOn (source k) cs k).Tells k.labels r.classifier r.failures status failure :=
  ⟨_, _, says_of_settledStatus hnames hkeys hk hr rfl, tells_settledStatus hnames hr⟩

theorem says_done_iff (hk : k ∈ clusters) (hr : r ∈ e.classifications (source k) cs k) :
    (e.settled source cs clusters).Says r.classifier.name k.key .provisioned none ∨
        (e.settled source cs clusters).Says r.classifier.name k.key .removed none ↔
      (r.classifier.isDeleted = false →
        r.failures = [] ∧ ¬ (e.arbitrationOn (source k) cs k).Pending k.labels r.classifier.name) ∧
      (r.classifier.isDeleted = true →
        ¬ (e.arbitrationOn (source k) cs k).Lingering k.labels r.classifier) := by
  obtain ⟨status, failure, hsaid, htells⟩ := exists_says_tells hnames hkeys hk hr
  rw [← htells.done_iff]
  constructor
  · rintro (hdone | hdone)
    · exact .inl (hsaid.unique hdone)
    · exact .inr (hsaid.unique hdone)
  · rintro (⟨rfl, rfl⟩ | ⟨rfl, rfl⟩)
    · exact .inl hsaid
    · exact .inr hsaid

/-- Everything is provisioned or removed when nothing failed, what is desired is carried and nothing
    lingers. -/
theorem all_done_iff :
    (∀ c ∈ cs, ∀ k ∈ clusters, (e.settled source cs clusters).Says c.name k.key .provisioned none ∨
      (e.settled source cs clusters).Says c.name k.key .removed none) ↔
    (∀ r ∈ e.allClassifications source cs clusters,
      r.classifier.isDeleted = false → r.failures = []) ∧
    ∀ k ∈ clusters,
      (∀ key value, (e.arbitrationOn (source k) cs k).desired.get? key = some value →
        k.labels.get? key = some value) ∧
      ∀ c ∈ cs, c.isDeleted = true → ¬ (e.arbitrationOn (source k) cs k).Lingering k.labels c := by
  constructor
  · intro hall
    have hdone {k} {r} (hk : k ∈ clusters) (hr : r ∈ e.classifications (source k) cs k) :=
      (says_done_iff hnames hkeys hk hr).mp (hall _ (classifier_of_mem hr) k hk)
    refine ⟨fun r hr hlive => ?_, fun k hk => ⟨?_, fun c hc hdeleted => ?_⟩⟩
    · obtain ⟨k, hk, hr⟩ := mem_allClassifications.mp hr
      exact ((hdone hk hr).1 hlive).1
    · refine (carries_iff hnames).mpr fun c hc hlive => ?_
      obtain ⟨r, hr, rfl⟩ := exists_classification e (source k) k hc
      exact ((hdone hk hr).1 hlive).2
    · obtain ⟨r, hr, rfl⟩ := exists_classification e (source k) k hc
      exact (hdone hk hr).2 hdeleted
  · rintro ⟨hsound, hleft⟩ c hc k hk
    obtain ⟨r, hr, rfl⟩ := exists_classification e (source k) k hc
    obtain ⟨hcarries, hgone⟩ := hleft k hk
    refine (says_done_iff hnames hkeys hk hr).mpr ⟨fun hlive => ⟨?_, ?_⟩, hgone _ hc⟩
    · exact hsound r (mem_allClassifications.mpr ⟨k, hk, hr⟩) hlive
    · exact (carries_iff hnames).mp hcarries _ hc hlive

end Accepted

/-- In every pass that is made the status of each classifier on each cluster tells what is left to do
    there. All of them are provisioned or removed exactly when nothing failed but for classifiers that
    are being deleted, each cluster carries all that is desired on it, and of no classifier that is
    being deleted it carries a label that is not desired. -/
theorem run_statuses_tell (e : Engine) (source : Cluster → Source) (cs : List Classifier)
    (clusters : List Cluster) {p : PassResult} (hrun : e.run source cs clusters = .ok p) :
    (∀ c ∈ cs, ∀ k ∈ clusters, ∃ a r status failure, p.arbitrations.get? k.key = some a ∧
      p.find? c.name k.key = some r ∧ p.Says c.name k.key status failure ∧
      a.Tells k.labels c r.failures status failure) ∧
    ((∀ c ∈ cs, ∀ k ∈ clusters,
        p.Says c.name k.key .provisioned none ∨ p.Says c.name k.key .removed none) ↔
      (∀ r ∈ p.classifications, r.classifier.isDeleted = false → r.failures = []) ∧
      ∀ k ∈ clusters, ∃ a, p.arbitrations.get? k.key = some a ∧
        (∀ key value, a.desired.get? key = some value → k.labels.get? key = some value) ∧
        ∀ c ∈ cs, c.isDeleted = true → ¬ a.Lingering k.labels c) := by
  obtain ⟨hnames, hkeys, rfl⟩ := settled_of_run hrun
  have harbitration : ∀ k ∈ clusters, (e.settled source cs clusters).arbitrations.get? k.key =
      some (e.arbitrationOn (source k) cs k) := fun k hk => arbitration_of_cluster hkeys hk
  constructor
  · intro c hc k hk
    obtain ⟨r, hr, rfl⟩ := exists_classification e (source k) k hc
    obtain ⟨status, failure, hsaid, htells⟩ := exists_says_tells hnames hkeys hk hr
    exact ⟨_, r, status, failure, harbitration k hk, find?_settled hnames hkeys hk hr, hsaid, htells⟩
  · rw [all_done_iff hnames hkeys]
    refine and_congr_right fun _ => forall₂_congr fun k hk => ?_
    simp only [harbitration k hk, Option.some.injEq, exists_eq_left']

end Engine

namespace Sample

/-- Is being deleted. -/
def leaving : Classifier :=
  ⟨"leaving", [⟨"zone", "a"⟩], [], [], some ⟨5, 0⟩, some ⟨30, 0⟩, by decide⟩

/-- Carries the key of `blue` with another value, and the label of `leaving`. -/
def painted : Cluster := ⟨"default", "painted", .capi, ⟨[("env", "prod"), ("zone", "a")]⟩⟩

end Sample

open Sample in
/-- On `painted` the key of `blue` is pending, nothing is for `probe`, which owns none, and the label
    of `leaving` lingers. -/
theorem painted_pending_and_lingering :
    ∃ p, engine.run (fun _ => empty) [blue, probe, leaving] [painted] = .ok p ∧
      p.Says "blue" painted.key .provisioning none ∧ p.Says "probe" painted.key .provisioned none ∧
      p.Says "leaving" painted.key .removing none := by
  let cs := [blue, probe, leaving]
  let a := engine.arbitrationOn empty cs painted
  have hkeys : ([painted].map Cluster.key).Nodup := by decide
  have hrun := @Engine.run_eq_settled engine (fun _ => empty) cs [painted] (by decide) hkeys
  have hsound : ∀ r ∈ engine.classifications empty cs painted, r.failures = [] := by decide +kernel
  have howners : a.owners = ⟨[("env", "blue")]⟩ := by decide +kernel
  have hdesired : a.desired = ⟨[("env", "test")]⟩ := by decide +kernel
  have hall : ∀ c ∈ cs, ∃ status failure,
      (engine.settled (fun _ => empty) cs [painted]).Says c.name painted.key status failure ∧
        a.Tells painted.labels c [] status failure := by
    intro c hc
    obtain ⟨b, r, status, failure, hb, hr, hsaid, htells⟩ := (Engine.run_statuses_tell engine
      (fun _ => empty) cs [painted] hrun).1 c hc painted List.mem_cons_self
    obtain rfl : a = b :=
      Option.some.inj ((Engine.arbitration_of_cluster hkeys List.mem_cons_self).symm.trans hb)
    obtain ⟨k, hk, hmem⟩ := Engine.mem_allClassifications.mp (List.mem_of_find?_eq_some hr)
    obtain rfl := List.mem_singleton.mp hk
    rw [hsound r hmem] at htells
    exact ⟨status, failure, hsaid, htells⟩
  refine ⟨_, hrun, ?_, ?_, ?_⟩
  · obtain ⟨status, failure, hsaid, htells⟩ := hall blue (by decide)
    obtain ⟨rfl, hprovisioning, -⟩ := htells.sound rfl rfl
    have hpending : a.Pending painted.labels "blue" :=
      ⟨"env", by rw [howners]; rfl, .inr (by rw [hdesired]; decide)⟩
    rwa [hprovisioning.mpr hpending] at hsaid
  · obtain ⟨status, failure, hsaid, htells⟩ := hall probe (by decide)
    obtain ⟨rfl, -, hprovisioned⟩ := htells.sound rfl rfl
    have hidle : ¬ a.Pending painted.labels "probe" := by
      rintro ⟨key, howner, -⟩
      rw [howners, Table.get?, Table.find?] at howner
      split at howner
      · exact absurd howner (by decide)
      · cases howner
    rwa [hprovisioned.mpr hidle] at hsaid
  · obtain ⟨status, failure, hsaid, htells⟩ := hall leaving (by decide)
    obtain ⟨rfl, hremoving, -⟩ := htells.deleted rfl
    have hlingering : a.Lingering painted.labels leaving :=
      ⟨⟨"zone", "a"⟩, List.mem_cons_self, rfl, by rw [hdesired]; decide⟩
    rwa [hremoving.mpr hlingering] at hsaid

end FleetLabels
