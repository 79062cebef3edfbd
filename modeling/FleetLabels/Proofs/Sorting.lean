import FleetLabels.Pass
import Mathlib.Data.List.Nodup

/-!
    Sorting by a comparison whose ties are harmless.

    A list is sorted by what a comparison does not put the other way round. When the comparison is a
    total preorder and only equal members tie, the sorted list does not depend on the order that the
    members came in. Classifiers of different names, clusters of different keys and classifications
    of different classifiers are such lists. -/

namespace FleetLabels

open Std

section Ties

variable {α : Type} {cmp : α → α → Ordering}

theorem notGt_eq_isLE (o : Ordering) : (o != .gt) = o.isLE := by
  cases o <;> rfl

theorem isLE_or_isLE [OrientedCmp cmp] (a b : α) : ((cmp a b).isLE || (cmp b a).isLE) = true := by
  have hswap : cmp b a = (cmp a b).swap := OrientedCmp.eq_swap
  rw [hswap]
  cases cmp a b <;> rfl

/-- Sorting by a total preorder puts no later member strictly before an earlier one. -/
theorem pairwise_mergeSort_cmp [TransCmp cmp] (l : List α) :
    (l.mergeSort fun a b => cmp a b != .gt).Pairwise fun a b => (cmp a b).isLE = true := by
  simp only [notGt_eq_isLE]
  exact List.pairwise_mergeSort (fun a b c => TransCmp.isLE_trans) isLE_or_isLE l

/-- A list of members of which only equal ones tie can be sorted in one way. -/
theorem eq_of_pairwise_cmp [TransCmp cmp] {l m : List α} (h : l.Perm m)
    (hl : l.Pairwise fun a b => (cmp a b).isLE = true)
    (hm : m.Pairwise fun a b => (cmp a b).isLE = true)
    (hties : ∀ a ∈ l, ∀ b ∈ l, cmp a b = .eq → a = b) : l = m := by
  refine List.Perm.eq_of_pairwise (fun a b ha hb hab hba => ?_) hl hm h
  exact hties a ha b (h.mem_iff.mpr hb) (OrientedCmp.isLE_antisymm hab hba)

/-- The order of the input leaves no trace where only equal members tie. -/
theorem mergeSort_cmp_perm [TransCmp cmp] {l m : List α} (h : l.Perm m)
    (hties : ∀ a ∈ l, ∀ b ∈ l, cmp a b = .eq → a = b) :
    (l.mergeSort fun a b => cmp a b != .gt) = m.mergeSort fun a b => cmp a b != .gt := by
  have hl := List.mergeSort_perm l fun a b => cmp a b != .gt
  have hm := List.mergeSort_perm m fun a b => cmp a b != .gt
  refine eq_of_pairwise_cmp (hl.trans (h.trans hm.symm)) (pairwise_mergeSort_cmp l)
    (pairwise_mergeSort_cmp m) fun a ha b hb => ?_
  exact hties a (hl.mem_iff.mp ha) b (hl.mem_iff.mp hb)

/-- Members that are left out are left out before sorting or after it. -/
theorem filter_mergeSort_cmp [TransCmp cmp] {l : List α}
    (hties : ∀ a ∈ l, ∀ b ∈ l, cmp a b = .eq → a = b) (p : α → Bool) :
    (l.mergeSort fun a b => cmp a b != .gt).filter p =
      (l.filter p).mergeSort fun a b => cmp a b != .gt := by
  have hl := List.mergeSort_perm l fun a b => cmp a b != .gt
  have hp := List.mergeSort_perm (l.filter p) fun a b => cmp a b != .gt
  refine eq_of_pairwise_cmp ((hl.filter p).trans hp.symm) ((pairwise_mergeSort_cmp l).filter p)
    (pairwise_mergeSort_cmp _) fun a ha b hb => ?_
  exact hties a (hl.mem_iff.mp (List.mem_filter.mp ha).1) b
    (hl.mem_iff.mp (List.mem_filter.mp hb).1)

/-- Members that tie keep their order. -/
theorem filter_tied_mergeSort_cmp [TransCmp cmp] {p : α → Bool}
    (hties : ∀ a b, p a = true → p b = true → cmp a b = .eq) (l : List α) :
    (l.mergeSort fun a b => cmp a b != .gt).filter p = l.filter p := by
  simp only [notGt_eq_isLE]
  have htied : (l.filter p).Pairwise fun a b => (cmp a b).isLE = true := by
    refine List.pairwise_of_forall_mem_list fun a ha b hb => ?_
    rw [hties a b (List.mem_filter.mp ha).2 (List.mem_filter.mp hb).2]
    rfl
  have hsublist : (l.filter p).Sublist (l.mergeSort fun a b => (cmp a b).isLE) :=
    List.sublist_mergeSort (fun a b c => TransCmp.isLE_trans) isLE_or_isLE htied List.filter_sublist
  have hkept := hsublist.filter p
  rw [List.filter_filter] at hkept
  simp only [Bool.and_self] at hkept
  exact (hkept.eq_of_length ((List.mergeSort_perm l _).filter p).length_eq.symm).symm

end Ties

/-! ### Sorting related lists -/

section Related

variable {α β : Type} {R : α → β → Prop} {le : α → α → Bool} {le' : β → β → Bool}

/-- Related lists are a list of related pairs. -/
theorem exists_pairs {l : List α} {m : List β} (h : List.Forall₂ R l m) :
    ∃ zs : List (α × β), zs.map (·.1) = l ∧ zs.map (·.2) = m ∧ ∀ z ∈ zs, R z.1 z.2 := by
  induction h with
  | nil => exact ⟨[], rfl, rfl, nofun⟩
  | cons hab _ ih =>
    obtain ⟨zs, rfl, rfl, hzs⟩ := ih
    exact ⟨(_, _) :: zs, rfl, rfl, List.forall_mem_cons.mpr ⟨hab, hzs⟩⟩

/-- Related lists are sorted alike by relations that agree on related members. -/
theorem forall₂_mergeSort {l : List α} {m : List β} (h : List.Forall₂ R l m)
    (hle : ∀ a b c d, R a c → R b d → le a b = le' c d) :
    List.Forall₂ R (l.mergeSort le) (m.mergeSort le') := by
  obtain ⟨zs, rfl, rfl, hzs⟩ := exists_pairs h
  let sorted := zs.mergeSort fun y z => le y.1 z.1
  have hfst : sorted.map (·.1) = (zs.map (·.1)).mergeSort le :=
    List.map_mergeSort fun _ _ _ _ => rfl
  have hsnd : sorted.map (·.2) = (zs.map (·.2)).mergeSort le' :=
    List.map_mergeSort fun y hy z hz => hle _ _ _ _ (hzs y hy) (hzs z hz)
  rw [← hfst, ← hsnd, List.forall₂_map_left_iff, List.forall₂_map_right_iff, List.forall₂_same]
  exact fun z hz => hzs z (List.mem_mergeSort.mp hz)

end Related

/-! ### The comparisons of the fleet -/

instance : TransCmp Cluster.compare :=
  inferInstanceAs (TransCmp (compareLex (compareOn fun c : Cluster => c.type.name)
    (compareLex (compareOn Cluster.space) (compareOn Cluster.name))))

/-- Classifications on one cluster are sorted by the names of their classifiers. -/
instance : TransCmp fun a b : Classification => compare a.classifier.name b.classifier.name :=
  inferInstanceAs (TransCmp (compareOn fun r : Classification => r.classifier.name))

/-- For a report, classifications are sorted by classifier and then by cluster. -/
instance : TransCmp fun a b : Classification =>
    (compare a.classifier.name b.classifier.name).then (a.cluster.compare b.cluster) :=
  inferInstanceAs (TransCmp (compareLex (compareOn fun r : Classification => r.classifier.name)
    (compareLex (compareOn fun r : Classification => r.cluster.type.name)
      (compareLex (compareOn fun r : Classification => r.cluster.space)
        (compareOn fun r : Classification => r.cluster.name)))))

instance (p : Precedence) [TransCmp p] : TransCmp p.total :=
  inferInstanceAs (TransCmp (compareLex p (compareOn Classifier.name)))

instance : TransCmp Precedence.byName :=
  inferInstanceAs (TransCmp (compareOn Classifier.name))

/-- Creation times are ordered, and having none comes after all of them. -/
instance : TransCmp Precedence.byCreation where
  eq_swap := by
    intro a b
    rw [Precedence.byCreation, Precedence.byCreation]
    cases a.created with
    | none => cases b.created <;> rfl
    | some s =>
      cases b.created with
      | none => rfl
      | some t =>
        have hswap : compare s.instant t.instant = (compare t.instant s.instant).swap :=
          OrientedCmp.eq_swap
        exact hswap
  isLE_trans := by
    intro a b c hab hbc
    rw [Precedence.byCreation] at hab hbc ⊢
    cases ha : a.created <;> cases hb : b.created <;> cases hc : c.created <;>
      simp only [ha, hb, hc] at hab hbc ⊢
    all_goals first | rfl | contradiction | exact TransCmp.isLE_trans hab hbc

/-- Every precedence that can be chosen by name is a total preorder. -/
theorem Precedence.transCmp_of_ofName? {name : String} {p : Precedence}
    (h : Precedence.ofName? name = some p) : TransCmp p := by
  rw [ofName?] at h
  split at h
  · cases h; infer_instance
  · split at h
    · cases h; infer_instance
    · cases h

theorem ClusterType.name_injective {s t : ClusterType} (h : s.name = t.name) : s = t := by
  cases s <;> cases t <;> first | rfl | exact absurd h (by decide)

/-- Clusters that tie have one key. -/
theorem Cluster.key_eq_of_compare_eq {a b : Cluster} (h : a.compare b = .eq) : a.key = b.key := by
  simp only [Cluster.compare, Ordering.then_eq_eq, LawfulEqOrd.compare_eq_iff_eq] at h
  obtain ⟨htype, hspace, hname⟩ := h
  rw [Cluster.key, Cluster.key, ClusterType.name_injective htype, hspace, hname]

theorem Precedence.name_eq_of_total_eq {p : Precedence} {a b : Classifier}
    (h : p.total a b = .eq) : a.name = b.name := by
  simp only [Precedence.total, Ordering.then_eq_eq, LawfulEqOrd.compare_eq_iff_eq] at h
  exact h.2

/-! ### Lists whose members are told apart by a key -/

section Keyed

variable {α β : Type} {f : α → β}

/-- Members with one key are one member. -/
theorem eq_of_map_nodup {l : List α} (h : (l.map f).Nodup) {a b : α} (ha : a ∈ l) (hb : b ∈ l)
    (hab : f a = f b) : a = b :=
  List.inj_on_of_nodup_map h ha hb hab

/-- A list that is sorted by keys has them in order. -/
theorem pairwise_mergeSort_key (key : α → String) (l : List α) :
    (l.mergeSort fun a b => decide (key a ≤ key b)).Pairwise fun a b => key a ≤ key b := by
  have hsorted : (l.mergeSort fun a b => decide (key a ≤ key b)).Pairwise
      fun a b => decide (key a ≤ key b) = true :=
    List.pairwise_mergeSort (fun a b c => by simpa using String.le_trans)
      (fun a b => by simpa using String.le_total (key a) (key b)) l
  exact hsorted.imp of_decide_eq_true

/-- Sorted by keys that tell its members apart, a list does not depend on the order that they came in. -/
theorem mergeSort_key_perm {key : α → String} {l m : List α} (hkeys : (l.map key).Nodup)
    (h : l.Perm m) : (l.mergeSort fun a b => decide (key a ≤ key b)) =
      m.mergeSort fun a b => decide (key a ≤ key b) := by
  have hl := List.mergeSort_perm l fun a b => decide (key a ≤ key b)
  have hm := List.mergeSort_perm m fun a b => decide (key a ≤ key b)
  refine List.Perm.eq_of_pairwise (fun a b ha hb hab hba => ?_) (pairwise_mergeSort_key key l)
    (pairwise_mergeSort_key key m) (hl.trans (h.trans hm.symm))
  exact eq_of_map_nodup hkeys (hl.mem_iff.mp ha) (h.mem_iff.mpr (hm.mem_iff.mp hb))
    (String.le_antisymm hab hba)

/-- The only member with a key is what a search for the key leaves. -/
theorem filter_eq_singleton [DecidableEq β] {l : List α} (h : (l.map f).Nodup) {a : α}
    (ha : a ∈ l) : (l.filter fun b => f b == f a) = [a] := by
  induction l with
  | nil => cases ha
  | cons b rest ih =>
    obtain ⟨hb, hrest⟩ := List.nodup_cons.mp h
    rcases List.mem_cons.mp ha with rfl | ha
    · have hnone : (rest.filter fun c => f c == f a) = [] := by
        rw [List.filter_eq_nil_iff]
        intro c hc heq
        exact hb (beq_iff_eq.mp heq ▸ List.mem_map_of_mem hc)
      rw [List.filter_cons, if_pos (beq_self_eq_true _), hnone]
    · have hne : ¬ (f b == f a) = true := by
        intro heq
        exact hb (beq_iff_eq.mp heq ▸ List.mem_map_of_mem ha)
      rw [List.filter_cons, if_neg hne, ih hrest ha]

end Keyed

/-! ### Lists grouped by a key -/

section Grouping

variable {α β γ : Type}

/-- Groups by pairwise different keys hold, together, what they were taken from. -/
theorem flatMap_groups_perm [DecidableEq β] {f : α → β} {ns : List β} (hns : ns.Nodup)
    {xs : List α} (hxs : ∀ x ∈ xs, f x ∈ ns) :
    (ns.flatMap fun n => xs.filter fun x => f x == n).Perm xs := by
  induction ns generalizing xs with
  | nil =>
    cases xs with
    | nil => exact .nil
    | cons x rest => exact absurd (hxs x List.mem_cons_self) List.not_mem_nil
  | cons n rest ih =>
    obtain ⟨hn, hrest⟩ := List.nodup_cons.mp hns
    have hothers : ∀ x ∈ xs.filter (fun x => !(f x == n)), f x ∈ rest := by
      intro x hx
      obtain ⟨hmem, hne⟩ := List.mem_filter.mp hx
      exact (List.mem_cons.mp (hxs x hmem)).resolve_left (by simpa using hne)
    have hgroups : (rest.flatMap fun m => xs.filter fun x => f x == m) =
        rest.flatMap fun m => (xs.filter fun x => !(f x == n)).filter fun x => f x == m := by
      refine List.flatMap_congr fun m hm => ?_
      rw [List.filter_filter]
      refine List.filter_congr fun x _ => ?_
      have hmn : m ≠ n := fun heq => hn (heq ▸ hm)
      by_cases hx : f x = m
      · simp [hx, hmn]
      · simp [hx]
    rw [List.flatMap_cons, hgroups]
    exact ((ih hrest hothers).append_left _).trans (List.filter_append_perm _ xs)

/-- What groups of different keys hold for one of the keys. -/
theorem filter_flatMap_key [DecidableEq β] {key : α → β} {ks : List α} (hks : (ks.map key).Nodup)
    {g : α → List γ} {f : γ → β} (hf : ∀ k ∈ ks, ∀ x ∈ g k, f x = key k) {k : α} (hk : k ∈ ks) :
    ((ks.flatMap g).filter fun x => f x == key k) = g k := by
  have hgroup : ∀ j ∈ ks, ((g j).filter fun x => f x == key k) =
      if key j == key k then g j else [] := by
    intro j hj
    by_cases hjk : key j = key k
    · rw [if_pos (by simp [hjk])]
      exact List.filter_eq_self.mpr fun x hx => by simp [hf j hj x hx, hjk]
    · rw [if_neg (by simp [hjk])]
      exact List.filter_eq_nil_iff.mpr fun x hx => by simp [hf j hj x hx, hjk]
  have hsplit : (ks.flatMap g).filter (fun x => f x == key k) =
      (ks.filter fun j => key j == key k).flatMap g := by
    rw [List.filter_flatMap, List.flatMap_congr hgroup]
    clear hks hf hk hgroup
    induction ks with
    | nil => rfl
    | cons j rest ih =>
      rw [List.flatMap_cons, ih, List.filter_cons]
      split <;> simp
  rw [hsplit, filter_eq_singleton hks hk]
  simp

end Grouping

theorem nodup_eraseDups {α : Type} [BEq α] [LawfulBEq α] : ∀ l : List α, l.eraseDups.Nodup
  | [] => List.nodup_nil
  | a :: rest => by
    rw [List.eraseDups_cons]
    refine List.nodup_cons.mpr ⟨?_, nodup_eraseDups _⟩
    rw [List.mem_eraseDups, List.mem_filter]
    simp
termination_by l => l.length
decreasing_by exact Nat.lt_succ_of_le (List.length_filter_le _ rest)

theorem mem_repeated {xs : List String} {x : String} : x ∈ repeated xs ↔ 1 < xs.count x := by
  rw [repeated, List.mem_mergeSort, List.mem_eraseDups, List.mem_filter, decide_eq_true_iff]
  exact and_iff_right_of_imp fun h => List.count_pos_iff.mp (Nat.zero_lt_of_lt h)

/-- Nothing is repeated exactly when all texts are different. -/
theorem repeated_isEmpty (xs : List String) : (repeated xs).isEmpty = true ↔ xs.Nodup := by
  rw [List.isEmpty_iff, List.eq_nil_iff_forall_not_mem, List.nodup_iff_count]
  exact forall_congr' fun x => by rw [mem_repeated, Nat.not_lt]

end FleetLabels
