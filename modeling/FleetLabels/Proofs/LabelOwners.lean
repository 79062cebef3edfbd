import FleetLabels.Proofs.Assembly

/-!
    Who holds a label after a pass.

    On each cluster of an accepted pass a key that some contender lists is owned by the first of them
    in the order of the arbitration (`PassResult.OwnedBy`): one record in the whole report manages the
    key, the tables of the arbitration name that classifier and its value, and every other contender
    that lists the key is denied it once. A key that no contender lists turns up nowhere
    (`PassResult.Unclaimed`). Whatever the sources and scripts answer, and whatever the precedence. -/

namespace FleetLabels

namespace PassResult

/-- A contender is the first to list a key on a cluster, and has all that follows from that. -/
structure OwnedBy (p : PassResult) (k : Cluster) (a : Arbitration) (key : String)
    (c : Classifier) : Prop where
  contends : c ∈ p.contendersOn k
  lists : c.Lists key
  first : ∀ d ∈ p.contendersOn k, d.Lists key → a.order.idxOf c.name ≤ a.order.idxOf d.name
  owner : a.owners.get? key = some c.name
  value : ∃ l ∈ c.labels, l.key = key ∧ a.desired.get? key = some l.value
  managed : ∃ r, ((p.recordsOn k).filter fun x => x.2.managed.contains key) = [(c.name, r)]
  denied : ∀ d ∈ p.contendersOn k, d ≠ c → d.Lists key →
    ∃ r, ((p.recordsOn k).filter fun x => x.1 == d.name) = [(d.name, r)] ∧
      (r.unmanaged.filter fun u => u.key == key).map Unmanaged.reason = ["owned by " ++ c.name]

/-- A key turns up nowhere on a cluster. -/
structure Unclaimed (p : PassResult) (k : Cluster) (a : Arbitration) (key : String) : Prop where
  managed : ∀ x ∈ p.recordsOn k, key ∉ x.2.managed
  unmanaged : ∀ x ∈ p.recordsOn k, ∀ u ∈ x.2.unmanaged, u.key ≠ key
  owner : a.owners.get? key = none
  value : a.desired.get? key = none

end PassResult

namespace Engine

variable {e : Engine} {src : Source} {cs : List Classifier} {k : Cluster} {r : Classification}

/-! ### Records on one cluster -/

/-- The order in which the contenders on a cluster claim labels. -/
def claimOrder (e : Engine) (src : Source) (cs : List Classifier) (k : Cluster) :
    List Classifier :=
  Arbitration.ordered e.precedence (contenders (e.classifications src cs k))

theorem mem_claimOrder {c : Classifier} :
    c ∈ e.claimOrder src cs k ↔ c ∈ contenders (e.classifications src cs k) :=
  (Arbitration.ordered_perm _ _).mem_iff

section Named

variable (hnames : (cs.map Classifier.name).Nodup)

include hnames

/-- Who contends on a cluster has been matched there. -/
theorem matched_of_contends (hr : r ∈ e.classifications src cs k)
    (hc : r.classifier ∈ contenders (e.classifications src cs k)) : r.matched = true := by
  obtain ⟨q, hq, hqr⟩ := List.mem_map.mp hc
  obtain ⟨hqmem, hqmatched⟩ := List.mem_filter.mp hq
  obtain rfl := eq_of_map_nodup (nodup_classifications hnames) hqmem hr (congrArg _ hqr)
  exact (Bool.and_eq_true_iff.mp hqmatched).1

/-- A contender's record is its share of the order. -/
theorem recordOf_contender (hr : r ∈ e.classifications src cs k)
    (hc : r.classifier ∈ contenders (e.classifications src cs k)) :
    StatusReport.recordOf r (some (e.arbitrationOn src cs k)) =
      ⟨r.cluster, true, (Share.among (e.claimOrder src cs k) r.classifier).managed,
        (Share.among (e.claimOrder src cs k) r.classifier).unmanaged, r.failures⟩ :=
  StatusReport.recordOf_arbitrated (matched_of_contends hnames hr hc)
    (Arbitration.record_among (nodup_contenders e src k hnames) hc)

/-- Whoever does not contend holds no labels. -/
theorem recordOf_bystander (hr : r ∈ e.classifications src cs k)
    (hc : r.classifier ∉ contenders (e.classifications src cs k)) :
    (StatusReport.recordOf r (some (e.arbitrationOn src cs k))).managed = [] ∧
      (StatusReport.recordOf r (some (e.arbitrationOn src cs k))).unmanaged = [] :=
  StatusReport.recordOf_unarbitrated fun _ =>
    Arbitration.record_eq_none (nodup_contenders e src k hnames) fun hname =>
      hc (mem_contenders_of_name hnames (classifier_of_mem hr) hname)

/-- A key is managed by its first claimant, and by no other. -/
theorem mem_managed_recordOf (hr : r ∈ e.classifications src cs k) {key : String} :
    key ∈ (StatusReport.recordOf r (some (e.arbitrationOn src cs k))).managed ↔
      claimant? (e.claimOrder src cs k) key = some r.classifier := by
  by_cases hc : r.classifier ∈ contenders (e.classifications src cs k)
  · rw [recordOf_contender hnames hr hc]
    exact Share.mem_managed_among
  · rw [(recordOf_bystander hnames hr hc).1]
    refine ⟨fun h => absurd h List.not_mem_nil, fun h => ?_⟩
    exact absurd (mem_claimOrder.mp (claimant?_some h).1) hc

/-- The value that is desired at a key is the one that its first claimant wants. -/
theorem desired_of_claimant {key : String} {c : Classifier}
    (hc : claimant? (e.claimOrder src cs k) key = some c) :
    ∃ l ∈ c.labels, l.key = key ∧ c.wanted? key = some l.value ∧
      (e.arbitrationOn src cs k).desired.get? key = some l.value := by
  obtain ⟨l, hl, hkey, hwanted⟩ := Classifier.wanted?_of_lists (claimant?_some hc).2
  refine ⟨l, hl, hkey, hwanted, ?_⟩
  rw [arbitrationOn, Arbitration.desired_among (nodup_contenders e src k hnames), ← hwanted]
  exact congrArg (Option.bind · fun c => c.wanted? key) hc

/-- A denied key is listed by a contender. -/
theorem lists_of_mem_unmanaged (hr : r ∈ e.classifications src cs k) {u : Unmanaged}
    (hu : u ∈ (StatusReport.recordOf r (some (e.arbitrationOn src cs k))).unmanaged) :
    r.classifier ∈ contenders (e.classifications src cs k) ∧ r.classifier.Lists u.key := by
  by_cases hc : r.classifier ∈ contenders (e.classifications src cs k)
  · rw [recordOf_contender hnames hr hc] at hu
    exact ⟨hc, Share.lists_of_mem_unmanaged hu⟩
  · rw [(recordOf_bystander hnames hr hc).2] at hu
    cases hu

end Named

/-! ### Records of a pass -/

section Pass

variable {source : Cluster → Source} {clusters : List Cluster}
  (hnames : (cs.map Classifier.name).Nodup) (hkeys : (clusters.map Cluster.key).Nodup)
  (hk : k ∈ clusters)

include hkeys hk in
theorem mem_contendersOn {c : Classifier} :
    c ∈ (e.settled source cs clusters).contendersOn k ↔
      c ∈ contenders (e.classifications (source k) cs k) :=
  (contendersOn_perm hkeys hk).mem_iff

include hkeys hk in
theorem mem_recordsOn {x : String × MatchRecord} :
    x ∈ (e.settled source cs clusters).recordsOn k ↔
      ∃ r ∈ e.classifications (source k) cs k,
        (r.classifier.name, StatusReport.recordOf r (some (e.arbitrationOn (source k) cs k))) = x := by
  rw [(recordsOn_perm hkeys hk e source cs).mem_iff, List.mem_map]

include hnames hkeys hk in
/-- A question that only one classifier's record answers leaves that record of the cluster. -/
theorem filter_recordsOn (hr : r ∈ e.classifications (source k) cs k)
    {q : String × MatchRecord → Bool}
    (hq : ∀ t ∈ e.classifications (source k) cs k,
      q (t.classifier.name, StatusReport.recordOf t (some (e.arbitrationOn (source k) cs k))) =
        (t.classifier.name == r.classifier.name)) :
    ((e.settled source cs clusters).recordsOn k).filter q =
      [(r.classifier.name,
        StatusReport.recordOf r (some (e.arbitrationOn (source k) cs k)))] := by
  have hperm := (recordsOn_perm hkeys hk e source cs).filter q
  rw [List.filter_map] at hperm
  have hpick := List.filter_congr hq
  rw [filter_eq_singleton (nodup_classifications hnames) hr] at hpick
  rw [Function.comp_def, hpick] at hperm
  exact List.perm_singleton.mp hperm

include hnames hkeys hk in
theorem ownedBy_settled {key : String} {c : Classifier}
    (hc : claimant? (e.claimOrder (source k) cs k) key = some c) :
    (e.settled source cs clusters).OwnedBy k (e.arbitrationOn (source k) cs k) key c := by
  obtain ⟨hmem, hlists⟩ := claimant?_some hc
  have hcontends := mem_claimOrder.mp hmem
  have hnodup := nodup_contenders e (source k) k hnames
  obtain ⟨r, hr, rfl⟩ := exists_classification e (source k) k
    (contenders_sublist.subset hcontends)
  refine ⟨(mem_contendersOn hkeys hk).mpr hcontends, hlists, fun d hd hdlists => ?_, ?_, ?_, ?_,
    fun d hd hne hdlists => ?_⟩
  · have hdmem := (mem_contendersOn hkeys hk).mp hd
    exact (Arbitration.firstToList_of_claimant hnodup hc).first d hdmem hdlists
  · rw [arbitrationOn, Arbitration.owner_among hnodup]
    exact congrArg (Option.map Classifier.name) hc
  · obtain ⟨l, hl, hkey, -, hdesired⟩ := desired_of_claimant hnames hc
    exact ⟨l, hl, hkey, hdesired⟩
  · refine ⟨_, filter_recordsOn hnames hkeys hk hr fun t ht => ?_⟩
    rw [Bool.eq_iff_iff, List.contains_iff_mem, mem_managed_recordOf hnames ht, hc,
      Option.some.injEq, beq_iff_eq]
    exact ⟨fun h => congrArg _ h.symm,
      fun h => eq_of_map_nodup hnames (classifier_of_mem hr) (classifier_of_mem ht) h.symm⟩
  · have hdcontends := (mem_contendersOn hkeys hk).mp hd
    obtain ⟨t, ht, rfl⟩ := exists_classification e (source k) k
      (contenders_sublist.subset hdcontends)
    refine ⟨_, filter_recordsOn hnames hkeys hk ht fun _ _ => rfl, ?_⟩
    rw [recordOf_contender hnames ht hdcontends,
      Share.unmanaged_among hdlists hc (Ne.symm hne)]
    rfl

include hnames hkeys hk in
theorem unclaimed_settled {key : String}
    (hc : claimant? (e.claimOrder (source k) cs k) key = none) :
    (e.settled source cs clusters).Unclaimed k (e.arbitrationOn (source k) cs k) key := by
  have hnodup := nodup_contenders e (source k) k hnames
  refine ⟨fun x hx hkey => ?_, fun x hx u hu hkey => ?_, ?_, ?_⟩
  · obtain ⟨r, hr, rfl⟩ := (mem_recordsOn hkeys hk).mp hx
    rw [mem_managed_recordOf hnames hr, hc] at hkey
    cases hkey
  · obtain ⟨r, hr, rfl⟩ := (mem_recordsOn hkeys hk).mp hx
    obtain ⟨hcontends, hlists⟩ := lists_of_mem_unmanaged hnames hr hu
    exact claimant?_eq_none.mp hc _ (mem_claimOrder.mpr hcontends) (hkey ▸ hlists)
  · rw [arbitrationOn, Arbitration.owner_among hnodup]
    exact congrArg (Option.map Classifier.name) hc
  · rw [arbitrationOn, Arbitration.desired_among hnodup]
    exact congrArg (Option.bind · fun c => c.wanted? key) hc

end Pass

/-- Every key of every cluster is settled by an accepted pass: owned by its first claimant alone, or
    found nowhere when no contender lists it. Whoever does not contend holds nothing. -/
theorem run_settles_every_key (e : Engine) (source : Cluster → Source) (cs : List Classifier)
    (clusters : List Cluster) (hnames : (cs.map Classifier.name).Nodup)
    (hkeys : (clusters.map Cluster.key).Nodup) :
    ∃ p, e.run source cs clusters = .ok p ∧ ∀ k ∈ clusters,
      ∃ a, p.arbitrations.get? k.key = some a ∧
        a.order.Perm ((p.contendersOn k).map Classifier.name) ∧
        (∀ key, (∃ c ∈ p.contendersOn k, c.Lists key) → ∃ c, p.OwnedBy k a key c) ∧
        (∀ key, (∀ c ∈ p.contendersOn k, ¬ c.Lists key) → p.Unclaimed k a key) ∧
        ∀ x ∈ p.recordsOn k, x.1 ∉ (p.contendersOn k).map Classifier.name →
          x.2.managed = [] ∧ x.2.unmanaged = [] := by
  refine ⟨e.settled source cs clusters, run_eq_settled hnames hkeys, fun k hk => ?_⟩
  refine ⟨e.arbitrationOn (source k) cs k, arbitration_of_cluster hkeys hk, ?_, ?_, ?_, ?_⟩
  · exact (Arbitration.order_among_perm ..).trans
      ((contendersOn_perm hkeys hk).map Classifier.name).symm
  · rintro key ⟨d, hd, hlists⟩
    cases hc : claimant? (e.claimOrder (source k) cs k) key with
    | some c => exact ⟨c, ownedBy_settled hnames hkeys hk hc⟩
    | none =>
      have hmem := mem_claimOrder.mpr ((mem_contendersOn hkeys hk).mp hd)
      exact absurd hlists (claimant?_eq_none.mp hc d hmem)
  · intro key hnobody
    refine unclaimed_settled hnames hkeys hk (claimant?_eq_none.mpr fun c hc => ?_)
    exact hnobody c ((mem_contendersOn hkeys hk).mpr (mem_claimOrder.mp hc))
  · intro x hx hname
    obtain ⟨r, hr, rfl⟩ := (mem_recordsOn hkeys hk).mp hx
    refine recordOf_bystander hnames hr fun hc => hname ?_
    exact List.mem_map_of_mem ((mem_contendersOn hkeys hk).mpr hc)

end Engine

open Sample in
theorem red_and_blue_on_north :
    ([red, blue].map Classifier.name).Nodup ∧ ([north].map Cluster.key).Nodup ∧
      ∃ p, engine.run (fun _ => empty) [red, blue] [north] = .ok p ∧
        ∃ a, p.arbitrations.get? north.key = some a ∧
          (∃ c, p.OwnedBy north a "env" c) ∧ (∃ c, p.OwnedBy north a "tier" c) ∧
          p.Unclaimed north a "zone" := by
  have hnames : ([red, blue].map Classifier.name).Nodup := by decide
  have hkeys : ([north].map Cluster.key).Nodup := by decide
  obtain ⟨p, hrun, hp⟩ := Engine.run_settles_every_key engine (fun _ => empty) [red, blue] [north]
    hnames hkeys
  have hcontenders : ∀ c, c ∈ p.contendersOn north ↔ c ∈ [red, blue] := by
    rw [Engine.run_eq_settled hnames hkeys] at hrun
    obtain rfl := Except.ok.inj hrun
    exact fun c => Engine.mem_contendersOn hkeys List.mem_cons_self
  obtain ⟨a, ha, -, howned, hunclaimed, -⟩ := hp north List.mem_cons_self
  refine ⟨hnames, hkeys, p, hrun, a, ha, howned "env" ?_, howned "tier" ?_,
    hunclaimed "zone" fun c hc => ?_⟩
  · exact ⟨blue, (hcontenders blue).mpr (by decide), by decide⟩
  · exact ⟨red, (hcontenders red).mpr (by decide), by decide⟩
  · have hnowhere : ∀ c ∈ [red, blue], ¬ c.Lists "zone" := by decide
    exact hnowhere c ((hcontenders c).mp hc)

end FleetLabels
