import FleetLabels.Proofs.Arbitration
import FleetLabels.Status

/-!
    Statuses that are always found.

    The status of a classification looks up the value of every key that the classifier manages. When
    it manages only keys that it lists, there is always such a value, so a status is found, and so is
    a whole report on such classifications. -/

namespace FleetLabels.StatusReport

variable {c : Classification} {r : MatchRecord} {a : Option Arbitration}

/-- The status and failure of a classification that manages only keys which its classifier lists. -/
def settledStatus (c : Classification) (r : MatchRecord) (a : Option Arbitration) :
    FeatureStatus × Option String :=
  if c.classifier.isDeleted then
    (if (leftover c a).isEmpty then .removed else .removing, none)
  else if !c.failures.isEmpty then (.failed, some ("; ".intercalate c.failures))
  else
    let pending := r.managed.map fun key => c.cluster.labels.get? key != c.classifier.wanted? key
    (if pending.contains true then .provisioning else .provisioned, none)

theorem isPending_eq_ok {key : String} (h : c.classifier.Lists key) :
    isPending c key = .ok (c.cluster.labels.get? key != c.classifier.wanted? key) := by
  obtain ⟨l, -, -, hwanted⟩ := Classifier.wanted?_of_lists h
  rw [isPending, hwanted]

theorem featureStatus_eq_ok (h : ∀ key ∈ r.managed, c.classifier.Lists key) :
    featureStatus c r a = .ok (settledStatus c r a) := by
  rw [featureStatus, settledStatus]
  by_cases hdeleted : c.classifier.isDeleted = true
  · rw [if_pos hdeleted, if_pos hdeleted]
  rw [if_neg hdeleted, if_neg hdeleted]
  by_cases hfailed : (!c.failures.isEmpty) = true
  · rw [if_pos hfailed, if_pos hfailed]
  rw [if_neg hfailed, if_neg hfailed, Attempt.mapM_eq_ok fun key hkey => isPending_eq_ok (h key hkey)]
  rfl

/-- A classification has failed exactly when it is not being deleted and has failures. -/
theorem settledStatus_eq_failed (hdeleted : c.classifier.isDeleted = false) :
    (settledStatus c r a).1 = .failed ↔ c.failures ≠ [] := by
  rw [settledStatus, if_neg (by simp [hdeleted])]
  cases hfailures : c.failures with
  | nil =>
    rw [if_neg (by simp)]
    simp only [ne_eq, not_true, iff_false]
    split <;> exact FeatureStatus.noConfusion
  | cons text rest => simp

/-- What failed is told with the status. -/
theorem settledStatus_of_failures (hdeleted : c.classifier.isDeleted = false)
    (hfailures : c.failures ≠ []) :
    settledStatus c r a = (.failed, some ("; ".intercalate c.failures)) := by
  rw [settledStatus, if_neg (by simp [hdeleted]), if_pos (by simpa using hfailures)]

/-- Where nothing failed, the status tells whether something that is managed has not its value. -/
theorem settledStatus_of_sound (hdeleted : c.classifier.isDeleted = false)
    (hfailures : c.failures = []) :
    settledStatus c r a =
      (if ∃ key ∈ r.managed, c.cluster.labels.get? key ≠ c.classifier.wanted? key then .provisioning
        else .provisioned, none) := by
  have hpending : (r.managed.map fun key =>
      c.cluster.labels.get? key != c.classifier.wanted? key).contains true = true ↔
      ∃ key ∈ r.managed, c.cluster.labels.get? key ≠ c.classifier.wanted? key := by
    simp
  rw [settledStatus, if_neg (by simp [hdeleted]), if_neg (by simp [hfailures])]
  simp only [hpending]

/-- Where all that is managed has its value too, there is nothing left to apply. -/
theorem settledStatus_eq_provisioned (hdeleted : c.classifier.isDeleted = false)
    (hfailures : c.failures = [])
    (happlied : ∀ key ∈ r.managed, c.cluster.labels.get? key = c.classifier.wanted? key) :
    settledStatus c r a = (.provisioned, none) := by
  rw [settledStatus_of_sound hdeleted hfailures, if_neg]
  rintro ⟨key, hkey, hmissing⟩
  exact hmissing (happlied key hkey)

/-- Of a classifier that is being deleted the status tells whether a label is left for it alone. -/
theorem settledStatus_of_deleted (hdeleted : c.classifier.isDeleted = true) :
    settledStatus c r a =
      (if ∃ l ∈ c.classifier.labels, c.cluster.labels.get? l.key = some l.value ∧
          (a.bind fun a => a.desired.get? l.key) ≠ some l.value then .removing
        else .removed, none) := by
  have hempty : (leftover c a).isEmpty = true ↔ ¬ ∃ l ∈ c.classifier.labels,
      c.cluster.labels.get? l.key = some l.value ∧
        (a.bind fun a => a.desired.get? l.key) ≠ some l.value := by
    simp [leftover]
  rw [settledStatus, if_pos hdeleted]
  simp only [hempty, ite_not]

/-- A classifier that is being deleted is gone once no label is left for it alone. -/
theorem settledStatus_eq_removed (hdeleted : c.classifier.isDeleted = true)
    (hgone : ∀ l ∈ c.classifier.labels, c.cluster.labels.get? l.key = some l.value →
      (a.bind fun a => a.desired.get? l.key) = some l.value) :
    settledStatus c r a = (.removed, none) := by
  rw [settledStatus_of_deleted hdeleted, if_neg]
  rintro ⟨l, hl, hcarried, hunwanted⟩
  exact hunwanted (hgone l hl hcarried)

/-- A classification assessed when its arbitration keeps to what its classifier lists. -/
def assessment (arbitrations : Table String Arbitration) (cs : List Classification)
    (c : Classification) : Assessed :=
  let a := arbitrations.get? c.cluster.key
  let s := settledStatus c (recordOf c a) a
  ⟨c.classifier.name, recordOf c a, hashOf cs c.classifier.name, s.1, s.2⟩

theorem assess_eq_ok {arbitrations : Table String Arbitration} {cs : List Classification}
    (h : ∀ c ∈ cs, ∀ key ∈ (recordOf c (arbitrations.get? c.cluster.key)).managed,
      c.classifier.Lists key) :
    assess arbitrations cs = .ok (cs.map (assessment arbitrations cs)) := by
  refine Attempt.mapM_eq_ok fun c hc => ?_
  simp only [featureStatus_eq_ok (h c hc)]
  rfl

/-! ### Records -/

@[simp] theorem recordOf_cluster : (recordOf c a).cluster = c.cluster := by
  rw [recordOf]
  split
  · split <;> rfl
  · rfl

/-- A classifier without a record of its own, or without a match, holds no labels. -/
theorem recordOf_unarbitrated {b : Arbitration}
    (h : c.matched = true → b.records.get? c.classifier.name = none) :
    (recordOf c (some b)).managed = [] ∧ (recordOf c (some b)).unmanaged = [] := by
  rw [recordOf]
  split
  · rename_i own hown
    by_cases hmatched : c.matched = true
    · rw [Option.bind_some, h hmatched] at hown
      cases hown
    · rw [if_neg hmatched]
      exact ⟨rfl, rfl⟩
  · exact ⟨rfl, rfl⟩

/-- A match that took part in the arbitration holds what it got there. -/
theorem recordOf_arbitrated {b : Arbitration} {own : MatchRecord} (hmatched : c.matched = true)
    (hown : b.records.get? c.classifier.name = some own) :
    recordOf c (some b) = ⟨c.cluster, true, own.managed, own.unmanaged, c.failures⟩ := by
  simp only [recordOf, Option.bind_some, hown, hmatched, if_true]

/-! ### Statuses by name -/

theorem nodup_namesOf (xs : List Assessed) : (namesOf xs).Nodup :=
  (List.mergeSort_perm _ _).nodup_iff.mpr (nodup_eraseDups _)

theorem mem_namesOf {xs : List Assessed} {name : String} :
    name ∈ namesOf xs ↔ name ∈ xs.map (·.name) := by
  rw [namesOf, List.mem_mergeSort, List.mem_eraseDups]

/-- The statuses together hold the records of everything that was assessed, each under its name. -/
theorem records_perm (xs : List Assessed) (p : MatchRecord → Bool) :
    (((namesOf xs).map (statusOf xs)).flatMap fun s =>
      (s.records.filter p).map fun r => (s.name, r)).Perm
      ((xs.filter fun x => p x.record).map fun x => (x.name, x.record)) := by
  have hnames : ∀ x ∈ xs.filter (fun x => p x.record), x.name ∈ namesOf xs :=
    fun x hx => mem_namesOf.mpr (List.mem_map_of_mem (List.mem_filter.mp hx).1)
  have hgroups := flatMap_groups_perm (nodup_namesOf xs) hnames
  have hrecords := hgroups.map fun x => (x.name, x.record)
  rw [List.map_flatMap] at hrecords
  refine (List.Perm.of_eq ?_).trans hrecords
  rw [List.flatMap_map]
  refine List.flatMap_congr fun name _ => ?_
  simp only [statusOf, List.filter_map, List.map_map, List.filter_filter, Function.comp_def]
  -- within the group of a name, the name is the one recorded
  have hname : ∀ x ∈ xs.filter (fun x => p x.record && x.name == name),
      (name, x.record) = (x.name, x.record) := by
    intro x hx
    have := (List.mem_filter.mp hx).2
    rw [Bool.and_eq_true, beq_iff_eq] at this
    rw [this.2]
  rw [List.map_congr_left hname]
  simp only [Bool.and_comm]

end FleetLabels.StatusReport
