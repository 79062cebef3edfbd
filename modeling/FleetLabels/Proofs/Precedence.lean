import FleetLabels.Proofs.Assembly

/-!
    The order in which classifiers claim labels.

    A precedence comes from a key of the classifiers or from a comparator, and is a total preorder when
    these are (`Precedence.Lawful`). Names settle its ties, so that classifiers of different names come
    strictly one before the other, and an arbitration does not depend on the order that they are given
    in. A precedence that is blind to the order of labels leaves no trace of that either: the same
    classifiers, shuffled on both levels, make one and the same arbitration. -/

namespace FleetLabels

open Std

/-! ### Precedences -/

namespace Precedence

/-- The total preorders among the precedences of keys and of comparators. -/
inductive Lawful : Precedence → Prop where
  | key {κ : Type} {cmp : κ → κ → Ordering} (h : TransCmp cmp) (key : Classifier → κ) :
      Lawful (ofKey cmp key)
  | comparator {answer : Classifier → Classifier → Int}
      (hswap : ∀ a b, answer a b < 0 ↔ 0 < answer b a)
      (htrans : ∀ a b c, answer a b ≤ 0 → answer b c ≤ 0 → answer a c ≤ 0) :
      Lawful (ofComparator answer)

theorem Lawful.transCmp {p : Precedence} (h : Lawful p) : TransCmp p := by
  cases h with
  | key h key => exact { eq_swap := h.eq_swap, isLE_trans := h.isLE_trans }
  | @comparator answer hswap htrans =>
    refine { eq_swap := fun {a b} => ?_, isLE_trans := fun {a b c} hab hbc => ?_ }
    · have hturned : compare (answer a b) 0 = compare 0 (answer b a) := by
        have hab := hswap a b
        have hba := hswap b a
        rcases Int.lt_trichotomy (answer a b) 0 with hlt | heq | hgt
        · rw [Int.compare_eq_lt.mpr hlt, Int.compare_eq_lt.mpr (hab.mp hlt)]
        · have hzero : 0 = answer b a := by omega
          rw [Int.compare_eq_eq.mpr heq, Int.compare_eq_eq.mpr hzero]
        · rw [Int.compare_eq_gt.mpr hgt, Int.compare_eq_gt.mpr (hba.mpr hgt)]
      exact hturned.trans OrientedCmp.eq_swap
    · rw [ofComparator, Int.isLE_compare] at hab hbc ⊢
      exact htrans a b c hab hbc

theorem lawful_byCreation : Lawful byCreation :=
  show Lawful (ofKey byCreation id) from .key inferInstance id

/-- A classifier goes strictly before another one, by the precedence or, in a tie, by name. -/
def Before (p : Precedence) (c d : Classifier) : Prop :=
  p c d = .lt ∨ p c d = .eq ∧ c.name < d.name

theorem total_eq_lt_iff {p : Precedence} {c d : Classifier} :
    p.total c d = .lt ↔ p.Before c d := by
  have hname : compare c.name d.name = .lt ↔ c.name < d.name := compareOfLessAndEq_eq_lt
  rw [total, Ordering.then_eq_lt, hname, Before]

end Precedence

/-- The older of two classifiers by the instants of their creation, or the one that has a creation time,
    or, where these do not tell them apart, the one whose name comes first. -/
def Classifier.Elder (c d : Classifier) : Prop :=
  match c.created, d.created with
  | some s, some t => s.instant < t.instant ∨ s.instant = t.instant ∧ c.name < d.name
  | some _, none => True
  | none, some _ => False
  | none, none => c.name < d.name

theorem Precedence.before_byCreation_iff {c d : Classifier} :
    byCreation.Before c d ↔ c.Elder d := by
  rw [Before, byCreation, Classifier.Elder]
  cases c.created with
  | none => cases d.created <;> simp
  | some s =>
    cases d.created with
    | none => simp
    | some t => simp only [Int.compare_eq_lt, Int.compare_eq_eq]

/-! ### Labels in another order -/

namespace Classifier

/-- The same classifier with its labels in any order. -/
structure Reordered (c d : Classifier) : Prop where
  labels : c.labels.Perm d.labels
  rest : d = { c with labels := d.labels, distinct := d.distinct }

/-- Classifiers in any order, each with its labels in any order. -/
def Shuffled (cs ds : List Classifier) : Prop :=
  ∃ es, List.Forall₂ Reordered cs es ∧ es.Perm ds

namespace Reordered

variable {c d : Classifier}

theorem name (h : c.Reordered d) : d.name = c.name := by rw [h.rest]

theorem created (h : c.Reordered d) : d.created = c.created := by rw [h.rest]

/-- Sorting loses the order of labels with different keys. -/
theorem sortedLabels (h : c.Reordered d) : c.sortedLabels = d.sortedLabels := by
  have hperm : c.sortedLabels.Perm d.sortedLabels :=
    c.sortedLabels_perm.trans (h.labels.trans d.sortedLabels_perm.symm)
  refine List.Perm.eq_of_pairwise (fun a b ha hb hab hba => ?_) c.pairwise_le_sortedLabels
    d.pairwise_le_sortedLabels hperm
  have hkey := String.le_antisymm hab hba
  exact eq_of_map_nodup c.nodup_sortedLabels ha (hperm.mem_iff.mpr hb) hkey

end Reordered

theorem map_name_reordered {cs ds : List Classifier} (h : List.Forall₂ Reordered cs ds) :
    cs.map Classifier.name = ds.map Classifier.name := by
  induction h with
  | nil => rfl
  | cons hcd _ ih => rw [List.map_cons, List.map_cons, ih, hcd.name]

end Classifier

/-- The order of labels makes no difference to a precedence. -/
def Precedence.Blind (p : Precedence) : Prop :=
  ∀ a b c d : Classifier, a.Reordered c → b.Reordered d → p a b = p c d

theorem Precedence.blind_byCreation : byCreation.Blind := by
  intro a b c d hac hbd
  rw [byCreation, byCreation, hac.created, hbd.created]

/-! ### Claims in another order -/

namespace Ownership

theorem claimAll_reordered {c d : Classifier} (h : c.Reordered d) (o : Ownership) :
    o.claimAll c = o.claimAll d := by
  have hlabels := h.sortedLabels
  rw [Classifier.sortedLabels, Classifier.sortedLabels] at hlabels
  rw [claimAll, claimAll, hlabels, h.name]

/-- A scan sees nothing of the order of labels. -/
theorem scan_reordered {cs ds : List Classifier} (h : List.Forall₂ Classifier.Reordered cs ds)
    (o : Ownership) :
    (o.scan cs).1 = (o.scan ds).1 ∧
      (o.scan cs).2.map (fun s => (s.1.name, s.2)) =
        (o.scan ds).2.map fun s => (s.1.name, s.2) := by
  induction h generalizing o with
  | nil => exact ⟨rfl, rfl⟩
  | @cons c d cs ds hcd _ ih =>
    have hturn := claimAll_reordered hcd o
    obtain ⟨howned, hshares⟩ := ih (o.claimAll c).1
    simp only [scan, List.map_cons, ← hturn, howned, hshares, hcd.name, and_self]

end Ownership

namespace Arbitration

variable {p : Precedence} {cluster : Cluster} {cs ds : List Classifier}

theorem ordered_reordered (hp : p.Blind) (h : List.Forall₂ Classifier.Reordered cs ds) :
    List.Forall₂ Classifier.Reordered (ordered p cs) (ordered p ds) := by
  refine forall₂_mergeSort h fun a b c d hac hbd => ?_
  rw [Precedence.total, Precedence.total, hp a b c d hac hbd, hac.name, hbd.name]

/-- The order of labels leaves no trace in an arbitration. -/
theorem among_eq_of_reordered (hp : p.Blind) (h : List.Forall₂ Classifier.Reordered cs ds) :
    among p cluster cs = among p cluster ds := by
  obtain ⟨howned, hshares⟩ := Ownership.scan_reordered (ordered_reordered hp h) .empty
  have horder := congrArg (List.map (·.1)) hshares
  have hrecords := congrArg (List.map fun s : String × Share =>
    (s.1, (⟨cluster, true, s.2.managed, s.2.unmanaged, []⟩ : MatchRecord))) hshares
  simp only [List.map_map, Function.comp_def] at horder hrecords
  rw [among, among, howned, horder, hrecords]

/-- Classifiers of different names come strictly one before the other. -/
theorem pairwise_ordered [TransCmp p] (hnames : (cs.map Classifier.name).Nodup) :
    (ordered p cs).Pairwise p.Before := by
  have hsorted : (ordered p cs).Pairwise fun c d => (p.total c d).isLE = true :=
    pairwise_mergeSort_cmp cs
  have hdiffer := List.pairwise_map.mp (nodup_ordered (p := p) hnames)
  refine (List.pairwise_and_iff.mpr ⟨hsorted, hdiffer⟩).imp fun {c d} ⟨hle, hne⟩ => ?_
  rw [← Precedence.total_eq_lt_iff]
  rcases Ordering.isLE_iff_eq_lt_or_eq_eq.mp hle with hlt | heq
  · exact hlt
  · exact absurd (Precedence.name_eq_of_total_eq heq) hne

/-- The classifiers of an arbitration in its order, each strictly before all that follow. -/
structure Ranks (p : Precedence) (cs : List Classifier) (a : Arbitration)
    (ranked : List Classifier) : Prop where
  perm : ranked.Perm cs
  order : a.order = ranked.map Classifier.name
  before : ranked.Pairwise p.Before
  elder : p = .byCreation → ranked.Pairwise Classifier.Elder

theorem ranks_ordered [TransCmp p] (hnames : (cs.map Classifier.name).Nodup) :
    Ranks p cs (among p cluster cs) (ordered p cs) where
  perm := ordered_perm p cs
  order := order_among p cluster cs
  before := pairwise_ordered hnames
  elder := by
    rintro rfl
    exact (pairwise_ordered hnames).imp Precedence.before_byCreation_iff.mp

/-- An arbitration puts classifiers of different names in a strict order, and is the same for the same
    classifiers in any order, with their labels in any order when the precedence is blind to it. -/
theorem arbitrate_ranks (hp : p.Lawful) (cluster : Cluster)
    (hnames : (cs.map Classifier.name).Nodup) :
    ∃ a, arbitrate p cluster cs = .ok a ∧ (∃ ranked, Ranks p cs a ranked) ∧
      (∀ ds, cs.Perm ds → arbitrate p cluster ds = .ok a) ∧
      (p.Blind → ∀ ds, Classifier.Shuffled cs ds → arbitrate p cluster ds = .ok a) := by
  have htrans := hp.transCmp
  refine ⟨among p cluster cs, arbitrate_eq_among hnames, ⟨_, ranks_ordered hnames⟩,
    fun ds hperm => ?_, fun hblind ds hshuffled => ?_⟩
  · rw [among_eq_of_perm hperm hnames]
    exact arbitrate_eq_among ((hperm.map Classifier.name).nodup_iff.mp hnames)
  · obtain ⟨es, hes, hperm⟩ := hshuffled
    have hesnames : (es.map Classifier.name).Nodup := Classifier.map_name_reordered hes ▸ hnames
    rw [among_eq_of_reordered hblind hes, among_eq_of_perm hperm hesnames]
    exact arbitrate_eq_among ((hperm.map Classifier.name).nodup_iff.mp hesnames)

end Arbitration

namespace Sample

/-- Who wants more labels goes first. -/
def mostLabels (a b : Classifier) : Int := b.labels.length - a.labels.length

/-- `red` with its labels the other way round. -/
def redTurned : Classifier :=
  { red with labels := red.labels.reverse, distinct := by decide }

theorem mostLabels_lawful : Precedence.Lawful (.ofComparator mostLabels) := by
  refine .comparator (fun a b => ?_) (fun a b c => ?_)
  · rw [mostLabels, mostLabels]
    omega
  · rw [mostLabels, mostLabels, mostLabels]
    omega

theorem mostLabels_blind : Precedence.Blind (.ofComparator mostLabels) := by
  intro a b c d hac hbd
  simp only [Precedence.ofComparator, mostLabels, hac.labels.length_eq, hbd.labels.length_eq]

end Sample

open Sample in
/-- Two classifiers given in either order, one of them with its labels in either order. -/
theorem red_and_blue_shuffled :
    ([blue, red].map Classifier.name).Nodup ∧
      ∀ p ∈ [Precedence.byCreation, .ofComparator mostLabels], p.Lawful ∧ p.Blind ∧
        ∃ a, Arbitration.arbitrate p north [blue, red] = .ok a ∧
          Arbitration.arbitrate p north [redTurned, blue] = .ok a := by
  have hnames : ([blue, red].map Classifier.name).Nodup := by decide
  have hshuffled : Classifier.Shuffled [blue, red] [redTurned, blue] := by
    refine ⟨[blue, redTurned], ?_, List.Perm.swap _ _ _⟩
    exact .cons ⟨.refl _, rfl⟩ (.cons ⟨(List.reverse_perm _).symm, rfl⟩ .nil)
  have hboth : ∀ p ∈ [Precedence.byCreation, .ofComparator mostLabels], p.Lawful ∧ p.Blind := by
    refine List.forall_mem_cons.mpr ⟨?_, List.forall_mem_singleton.mpr ?_⟩
    · exact ⟨Precedence.lawful_byCreation, Precedence.blind_byCreation⟩
    · exact ⟨mostLabels_lawful, mostLabels_blind⟩
  refine ⟨hnames, fun p hp => ?_⟩
  obtain ⟨hlawful, hblind⟩ := hboth p hp
  obtain ⟨a, ha, -, -, hsame⟩ := Arbitration.arbitrate_ranks hlawful north hnames
  exact ⟨hlawful, hblind, a, ha, hsame hblind _ hshuffled⟩

end FleetLabels
