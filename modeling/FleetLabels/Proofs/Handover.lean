import FleetLabels.Proofs.FirstCome
import FleetLabels.Proofs.Precedence

/-!
    A classifier leaves.

    The arbitration without a classifier differs from the one with it in the keys of that classifier
    only. Every other key stays where it is, and each key of the one who leaves goes to the next of the
    order behind it who lists the key (`Arbitration.NextInLine`), or to nobody. The two scans part where
    the classifier stood: with the order split there, the first claimant of a key is found before it, is
    the classifier itself, or is found behind it. -/

namespace FleetLabels

open Std

namespace Arbitration

/-- A classifier comes next for a key behind another one: of all that stand behind, it is the first to
    list the key. -/
def NextInLine (order : List String) (cs : List Classifier) (key : String) (c d : Classifier) :
    Prop :=
  FirstToList order (cs.filter fun b => order.idxOf c.name < order.idxOf b.name) key d

/-- What an arbitration `a` becomes when a classifier `c` leaves. -/
structure HandsOver (cs : List Classifier) (c : Classifier) (a b : Arbitration) : Prop where
  order : b.order = a.order.erase c.name
  kept : ∀ key, a.owners.get? key ≠ some c.name →
    b.owners.get? key = a.owners.get? key ∧ b.desired.get? key = a.desired.get? key
  passed : ∀ key d, a.owners.get? key = some c.name → NextInLine a.order cs key c d →
    b.owners.get? key = some d.name ∧ ∃ l ∈ d.labels, l.key = key ∧ b.desired.get? key = some l.value
  freed : ∀ key, a.owners.get? key = some c.name → (∀ d, ¬ NextInLine a.order cs key c d) →
    b.owners.get? key = none ∧ b.desired.get? key = none
  managed : ∀ d ∈ cs, d ≠ c →
    ∃ r s, a.records.get? d.name = some r ∧ b.records.get? d.name = some s ∧ ∀ key,
      key ∈ s.managed ↔
        key ∈ r.managed ∨ a.owners.get? key = some c.name ∧ NextInLine a.order cs key c d

variable {p : Precedence} {cluster : Cluster} {cs pre post : List Classifier} {c d : Classifier}
  {key : String}

/-- The others keep their order when one leaves. -/
theorem ordered_erase [TransCmp p] (hnames : (cs.map Classifier.name).Nodup) (c : Classifier) :
    ordered p (cs.erase c) = (ordered p cs).erase c := by
  have hordered : (ordered p cs).Nodup := (nodup_ordered hnames).of_map
  rw [hnames.of_map.erase_eq_filter, hordered.erase_eq_filter]
  refine (filter_mergeSort_cmp (fun a ha b hb htie => ?_) _).symm
  exact eq_of_map_nodup hnames ha hb (Precedence.name_eq_of_total_eq htie)

/-! ### The order split at the one who leaves -/

section Split

variable (hnames : (cs.map Classifier.name).Nodup) (hsplit : ordered p cs = pre ++ c :: post)

include hnames hsplit

theorem name_notMem_before : c.name ∉ pre.map Classifier.name := by
  have hnodup := nodup_ordered (p := p) hnames
  rw [hsplit, List.map_append] at hnodup
  intro hmem
  exact (List.nodup_append.mp hnodup).2.2 _ hmem _ List.mem_cons_self rfl

theorem ordered_left [TransCmp p] : ordered p (cs.erase c) = pre ++ post := by
  have hc : c ∉ pre := fun hmem => name_notMem_before hnames hsplit (List.mem_map_of_mem hmem)
  rw [ordered_erase hnames, hsplit, List.erase_append_right _ hc, List.erase_cons_head]

theorem order_left [TransCmp p] :
    (among p cluster (cs.erase c)).order = (among p cluster cs).order.erase c.name := by
  rw [order_among, order_among, ordered_left hnames hsplit, hsplit, List.map_append,
    List.map_append, List.map_cons, List.erase_append_right _ (name_notMem_before hnames hsplit),
    List.erase_cons_head]

/-- The places in the order tell who stands behind. -/
theorem mem_behind_iff :
    (d ∈ cs.filter fun b =>
      (among p cluster cs).order.idxOf c.name < (among p cluster cs).order.idxOf b.name) ↔
      d ∈ post := by
  have hplaces := pairwise_places p cluster hnames
  rw [hsplit] at hplaces
  obtain ⟨-, hpost, hpre⟩ := List.pairwise_append.mp hplaces
  have hmem : d ∈ cs ↔ d ∈ pre ++ c :: post := by
    rw [← hsplit]
    exact (ordered_perm p cs).mem_iff.symm
  rw [List.mem_filter, decide_eq_true_iff, hmem, List.mem_append, List.mem_cons]
  constructor
  · rintro ⟨hd | rfl | hd, hbehind⟩
    · exact absurd (hpre d hd c List.mem_cons_self) (Nat.lt_asymm hbehind)
    · exact absurd hbehind (Nat.lt_irrefl _)
    · exact hd
  · intro hd
    exact ⟨.inr (.inr hd), (List.pairwise_cons.mp hpost).1 d hd⟩

theorem nextInLine_iff :
    NextInLine (among p cluster cs).order cs key c d ↔ claimant? post key = some d := by
  have hplaces := pairwise_places p cluster hnames
  rw [hsplit] at hplaces
  have hpost := (List.pairwise_cons.mp (List.pairwise_append.mp hplaces).2.1).2
  rw [claimant?_eq_some_iff hpost]
  constructor
  · exact fun h => FirstToList.of_mem_iff h fun b => mem_behind_iff hnames hsplit
  · exact fun h => FirstToList.of_mem_iff h fun b => (mem_behind_iff hnames hsplit).symm

/-- A key of another one stays where it is. -/
theorem claimant?_kept [TransCmp p] (h : claimant? (ordered p cs) key ≠ some c) :
    claimant? (ordered p (cs.erase c)) key = claimant? (ordered p cs) key := by
  rw [hsplit, claimant?_append, claimant?_cons] at h
  rw [ordered_left hnames hsplit, hsplit, claimant?_append, claimant?_append, claimant?_cons]
  cases hpre : claimant? pre key with
  | some b => rfl
  | none =>
    by_cases hlists : c.Lists key
    · simp [hpre, hlists] at h
    · simp [hlists]

/-- A key of the one who leaves goes to the first behind who lists it. -/
theorem claimant?_passed [TransCmp p] (h : claimant? (ordered p cs) key = some c) :
    claimant? (ordered p (cs.erase c)) key = claimant? post key := by
  rw [ordered_left hnames hsplit, claimant?_append]
  rw [hsplit, claimant?_append] at h
  cases hpre : claimant? pre key with
  | none => rfl
  | some b =>
    rw [hpre] at h
    cases h
    exact absurd (List.mem_map_of_mem (claimant?_some hpre).1) (name_notMem_before hnames hsplit)

end Split

/-! ### The two arbitrations -/

section Named

variable (hnames : (cs.map Classifier.name).Nodup)

include hnames

theorem nodup_names_erase : ((cs.erase c).map Classifier.name).Nodup :=
  hnames.sublist (List.erase_sublist.map Classifier.name)

theorem handsOver_among [TransCmp p] (hc : c ∈ cs) :
    HandsOver cs c (among p cluster cs) (among p cluster (cs.erase c)) := by
  obtain ⟨pre, post, hsplit⟩ := List.append_of_mem ((ordered_perm p cs).mem_iff.mpr hc)
  have hleft : ((cs.erase c).map Classifier.name).Nodup := nodup_names_erase hnames
  have howner : ∀ key, (among p cluster cs).owners.get? key = some c.name ↔
      claimant? (ordered p cs) key = some c := fun _ =>
    owner_eq_iff hnames fun d hd => eq_of_map_nodup hnames hd hc
  constructor
  case order => exact order_left hnames hsplit
  case kept =>
    intro key hkey
    have hkept := claimant?_kept hnames hsplit (mt (howner key).mpr hkey)
    rw [owner_among hnames, owner_among hleft, desired_among hnames,
      desired_among hleft, hkept]
    exact ⟨rfl, rfl⟩
  case passed =>
    intro key d hkey hnext
    have hpassed := claimant?_passed hnames hsplit ((howner key).mp hkey)
    obtain ⟨l, hl, hlkey, hwanted⟩ := Classifier.wanted?_of_lists hnext.lists
    rw [owner_among hleft, desired_among hleft, hpassed,
      (nextInLine_iff hnames hsplit).mp hnext]
    exact ⟨rfl, l, hl, hlkey, hwanted⟩
  case freed =>
    intro key hkey hnobody
    have hpassed := claimant?_passed hnames hsplit ((howner key).mp hkey)
    have hnone : claimant? post key = none := by
      refine Option.eq_none_iff_forall_ne_some.mpr fun d hd => ?_
      exact hnobody d ((nextInLine_iff hnames hsplit).mpr hd)
    rw [owner_among hleft, desired_among hleft, hpassed, hnone]
    exact ⟨rfl, rfl⟩
  case managed =>
    intro d hd hne
    have hstays : d ∈ cs.erase c := (List.mem_erase_of_ne hne).mpr hd
    refine ⟨_, _, record_among hnames hd, record_among hleft hstays, fun key => ?_⟩
    rw [Share.mem_managed_among, Share.mem_managed_among, howner]
    by_cases hkey : claimant? (ordered p cs) key = some c
    · rw [claimant?_passed hnames hsplit hkey, nextInLine_iff hnames hsplit, hkey]
      simp [Ne.symm hne]
    · rw [claimant?_kept hnames hsplit hkey]
      simp [hkey]

/-- A classifier that leaves hands over its own keys, each to the next in line, and takes nothing else
    with it. -/
theorem arbitrate_hands_over [TransCmp p] (cluster : Cluster) (hc : c ∈ cs) :
    ∃ a b, arbitrate p cluster cs = .ok a ∧ arbitrate p cluster (cs.erase c) = .ok b ∧
      HandsOver cs c a b := by
  have hleft : ((cs.erase c).map Classifier.name).Nodup := nodup_names_erase hnames
  exact ⟨_, _, arbitrate_eq_among hnames, arbitrate_eq_among hleft,
    handsOver_among hnames hc⟩

end Named

end Arbitration

open Sample in
/-- Only `red` wants the key `tier`, so that nobody has it once `red` is gone. -/
theorem tier_freed_without_red :
    ([blue, red].map Classifier.name).Nodup ∧ red ∈ [blue, red] ∧
      ∃ a b, Arbitration.arbitrate .byCreation north [blue, red] = .ok a ∧
        Arbitration.arbitrate .byCreation north [blue] = .ok b ∧
        Arbitration.HandsOver [blue, red] red a b ∧
        a.owners.get? "tier" = some "red" ∧ b.owners.get? "tier" = none := by
  have hnames : ([blue, red].map Classifier.name).Nodup := by decide
  have hred : red ∈ [blue, red] := by decide
  have hlists : ∀ d ∈ [blue, red], d.Lists "tier" → d = red := by decide
  obtain ⟨a, b, ha, hb, hover⟩ :=
    Arbitration.arbitrate_hands_over (p := .byCreation) hnames north hred
  have howner : a.owners.get? "tier" = some "red" := by
    rw [Arbitration.arbitrate_eq_among hnames] at ha
    cases ha
    have hlisted : ∃ c ∈ [blue, red], c.Lists "tier" := ⟨red, hred, by decide⟩
    obtain ⟨c, hc, howner, -⟩ := Arbitration.owner_first hnames hlisted
    rw [howner, hlists c hc.mem hc.lists]
    rfl
  have hnobody : ∀ d, ¬ Arbitration.NextInLine a.order [blue, red] "tier" red d := by
    intro d hd
    obtain ⟨hmem, hbehind⟩ := List.mem_filter.mp hd.mem
    rw [hlists d hmem hd.lists] at hbehind
    simp at hbehind
  exact ⟨hnames, hred, a, b, ha, hb, hover, howner, (hover.freed "tier" howner hnobody).1⟩

end FleetLabels
