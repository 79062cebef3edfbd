import FleetLabels.Proofs.Judgement
import FleetLabels.Proofs.Lookups
import FleetLabels.Proofs.Verdicts

/-!
    Classifiers that are being deleted.

    A deletion time changes nothing in how a classifier is evaluated, and takes it out of the contest
    for labels. As far as all others are concerned, a pass with such a classifier is therefore the pass
    without it: leaving out what is said of the classifier itself (`PassResult.without`) gives every
    part of that pass. This takes steady sources. Where an answer depends on how often was asked before,
    the classifier still asks, and another one may get the answer that comes after. -/

namespace FleetLabels

open Calendar

namespace Classifier

/-- The classifier with a deletion time, or with none. -/
def marked (c : Classifier) (t : Option Moment) : Classifier := { c with deleted := t }

variable {c : Classifier} {t : Option Moment} {pre post : List Classifier}

@[simp] theorem marked_name : (c.marked t).name = c.name := rfl

@[simp] theorem marked_constraints : (c.marked t).constraints = c.constraints := rfl

@[simp] theorem marked_requirements : (c.marked t).requirements = c.requirements := rfl

@[simp] theorem isDeleted_marked : (c.marked t).isDeleted = t.isSome := rfl

theorem names_marked : (pre ++ c.marked t :: post).map name = (pre ++ c :: post).map name := by
  simp

theorem nodup_left (h : ((pre ++ c :: post).map name).Nodup) : ((pre ++ post).map name).Nodup := by
  refine h.sublist (List.Sublist.map _ ?_)
  exact (List.Sublist.refl pre).append (List.sublist_cons_self c post)

/-- Of classifiers of different names, all but one are left when its name is left out. -/
theorem filter_others (h : ((pre ++ c :: post).map name).Nodup) :
    (pre ++ c :: post).filter (fun d => d.name != c.name) = pre ++ post := by
  rw [List.map_append, List.map_cons, List.nodup_middle, List.nodup_cons, ← List.map_append] at h
  have hothers : ∀ d ∈ pre ++ post, (d.name != c.name) = true := by
    intro d hd
    rw [bne_iff_ne]
    rintro heq
    exact h.1 (heq ▸ List.mem_map_of_mem hd)
  rw [← List.filter_eq_self.mpr hothers]
  simp

end Classifier

/-! ### Verdicts on a classifier that is being deleted -/

namespace Classification

variable {e : Evaluator} {src : Source} {k : Cluster} {c : Classifier} {t : Option Moment}

/-- The evaluation of a classifier takes no notice of its deletion time. -/
theorem classify_marked : (classify e src k (c.marked t)).1 =
    ((classify e src k c).1).map fun r => { r with classifier := c.marked t } := by
  rw [classify, classify, classifyIn, classifyIn, Classifier.marked_constraints,
    Classifier.marked_requirements]
  cases Viewing.each (evaluateConstraint e src k) c.constraints .fresh with
  | mk result v => cases result <;> rfl

end Classification

namespace Engine

variable {e : Engine} {src : Source} {k : Cluster} {c : Classifier} {t : Option Moment}

theorem breaksOff_marked {a : Abrupt} :
    e.BreaksOff src k (c.marked t) a ↔ e.BreaksOff src k c a := by
  rw [BreaksOff, BreaksOff, Classification.classify_marked]
  cases (Classification.classify e.evaluator src k c).1 <;> simp [Except.map]

theorem alone_marked :
    e.alone src k (c.marked t) = { e.alone src k c with classifier := c.marked t } := by
  rw [alone, alone, Classification.classify_marked]
  cases (Classification.classify e.evaluator src k c).1 <;> rfl

/-! ### One cluster -/

section Cluster

variable {pre post : List Classifier} (hs : src.Steady)
  (hsound : ∀ a, (Classification.classifyAll e.evaluator src k (pre ++ c :: post)).1 ≠ .error a)

include hs hsound

theorem classifications_marked : e.classifications src (pre ++ c.marked t :: post) k =
    (pre ++ c.marked t :: post).map (e.alone src k) := by
  have h := sound_of_classifyAll hs hsound
  refine classifications_of_sound hs fun d hd a => ?_
  rcases List.mem_append.mp hd with hd | hd
  · exact h d (List.mem_append_left _ hd) a
  rcases List.mem_cons.mp hd with rfl | hd
  · rw [breaksOff_marked]
    exact h c (List.mem_append_right _ List.mem_cons_self) a
  · exact h d (List.mem_append_right _ (List.mem_cons_of_mem c hd)) a

theorem classifications_left : e.classifications src (pre ++ post) k =
    (pre ++ post).map (e.alone src k) := by
  have h := sound_of_classifyAll hs hsound
  refine classifications_of_sound hs fun d hd a => h d ?_ a
  rcases List.mem_append.mp hd with hd | hd
  · exact List.mem_append_left _ hd
  · exact List.mem_append_right _ (List.mem_cons_of_mem c hd)

/-- Left out of the classifications, a classifier is as good as left out of the pass. -/
theorem filter_classifications (hnames : ((pre ++ c :: post).map Classifier.name).Nodup) :
    (e.classifications src (pre ++ c.marked t :: post) k).filter
        (fun r => r.classifier.name != c.name) =
      e.classifications src (pre ++ post) k := by
  have hnames : ((pre ++ c.marked t :: post).map Classifier.name).Nodup := by
    rwa [Classifier.names_marked]
  have hothers := Classifier.filter_others hnames
  rw [classifications_marked hs hsound, classifications_left hs hsound, List.filter_map, ← hothers]
  simp only [Function.comp_def, alone_classifier, Classifier.marked_name]

/-- A classifier that is being deleted does not contend. -/
theorem contenders_left (t : Moment) :
    contenders (e.classifications src (pre ++ c.marked (some t) :: post) k) =
      contenders (e.classifications src (pre ++ post) k) := by
  rw [classifications_marked hs hsound, classifications_left hs hsound]
  simp [contenders, alone_classifier]

theorem arbitrationOn_left (t : Moment) :
    e.arbitrationOn src (pre ++ c.marked (some t) :: post) k =
      e.arbitrationOn src (pre ++ post) k := by
  rw [arbitrationOn, arbitrationOn, contenders_left hs hsound]

end Cluster

end Engine

/-! ### Whole passes -/

/-- A pass without what it says of one classifier. -/
def PassResult.without (p : PassResult) (name : String) : PassResult where
  classifications := p.classifications.filter fun r => r.classifier.name != name
  arbitrations := p.arbitrations
  status :=
    ⟨p.status.statuses.filter fun s => s.name != name,
      p.status.reports.filter fun t => t.classifier != name⟩

namespace StatusReport

theorem namesOf_filter_name (xs : List Assessed) (name : String) :
    namesOf (xs.filter fun x => x.name != name) = (namesOf xs).filter fun n => n != name := by
  refine (eq_namesOf ((pairwise_namesOf xs).filter _) ((nodup_namesOf xs).filter _) fun n => ?_).symm
  rw [List.mem_filter, mem_namesOf, List.mem_map, List.mem_map]
  constructor
  · rintro ⟨⟨x, hx, rfl⟩, hne⟩
    exact ⟨x, List.mem_filter.mpr ⟨hx, hne⟩, rfl⟩
  · rintro ⟨x, hx, rfl⟩
    obtain ⟨hx, hne⟩ := List.mem_filter.mp hx
    exact ⟨⟨x, hx, rfl⟩, hne⟩

/-- The status of another name does not change. -/
theorem statusOf_filter_name (xs : List Assessed) {name other : String} (h : other ≠ name) :
    statusOf (xs.filter fun x => x.name != name) other = statusOf xs other := by
  have hown : (xs.filter fun x => x.name != name).filter (fun x => x.name == other) =
      xs.filter fun x => x.name == other := by
    rw [List.filter_filter]
    refine List.filter_congr fun x _ => ?_
    by_cases hx : x.name = other
    · simp [hx, h]
    · simp [hx]
  rw [statusOf, statusOf, hown]

end StatusReport

namespace Engine

section Passes

variable {e : Engine} {source : Cluster → Source} {pre post : List Classifier} {c : Classifier}
  {clusters : List Cluster} (hnames : ((pre ++ c :: post).map Classifier.name).Nodup)
  (hkeys : (clusters.map Cluster.key).Nodup) (hs : ∀ k ∈ clusters, (source k).Steady)
  (hsound : ∀ k ∈ clusters, ∀ a,
    (Classification.classifyAll e.evaluator (source k) k (pre ++ c :: post)).1 ≠ .error a)
  (t : Moment)

include hs hsound

theorem allArbitrations_left :
    e.allArbitrations source (pre ++ c.marked (some t) :: post) clusters =
      e.allArbitrations source (pre ++ post) clusters := by
  refine congrArg Table.mk (List.map_congr_left fun k hk => ?_)
  have hk := mem_sortedClusters.mp hk
  rw [arbitrationOn_left (hs k hk) (hsound k hk)]

include hnames

theorem filter_allClassifications :
    (e.allClassifications source (pre ++ c.marked (some t) :: post) clusters).filter
        (fun r => r.classifier.name != c.name) =
      e.allClassifications source (pre ++ post) clusters := by
  have hmarked : ((pre ++ c.marked (some t) :: post).map Classifier.name).Nodup := by
    rwa [Classifier.names_marked]
  rw [allClassifications, allClassifications, List.filter_flatMap]
  refine List.flatMap_congr fun k hk => ?_
  have hk := mem_sortedClusters.mp hk
  rw [sortedByClassifier, filter_mergeSort_cmp (fun r hr q hq htie => ?_),
    filter_classifications (hs k hk) (hsound k hk) hnames, sortedByClassifier]
  exact eq_of_map_nodup (nodup_classifications hmarked) hr hq
    (Std.LawfulEqOrd.compare_eq_iff_eq.mp htie)

include hkeys

/-- What is assessed of the others is what is assessed without the classifier. -/
theorem filter_assessed_others :
    (e.assessed source (pre ++ c.marked (some t) :: post) clusters).filter
        (fun x => x.name != c.name) =
      e.assessed source (pre ++ post) clusters := by
  have hmarked : ((pre ++ c.marked (some t) :: post).map Classifier.name).Nodup := by
    rwa [Classifier.names_marked]
  have hleft := Classifier.nodup_left hnames
  have hpick : ∀ r, ((e.judged source (pre ++ c.marked (some t) :: post) r).name != c.name) =
      (r.classifier.name != c.name) := fun r => rfl
  rw [filter_assessed hmarked hkeys hpick, filter_allClassifications hnames hs hsound,
    assessed_eq_judged hleft hkeys]
  refine List.map_congr_left fun r hr => ?_
  have hk := cluster_of_mem_all (List.mem_mergeSort.mp hr)
  rw [judged, judged, arbitrationOn_left (hs _ hk) (hsound _ hk)]

/-- The pass without a classifier is what the pass that deletes it says of the others. -/
theorem settled_left :
    e.settled source (pre ++ post) clusters =
      (e.settled source (pre ++ c.marked (some t) :: post) clusters).without c.name := by
  have hassessed := filter_assessed_others hnames hkeys hs hsound t
  have hstatuses : (StatusReport.namesOf (e.assessed source (pre ++ post) clusters)).map
      (StatusReport.statusOf (e.assessed source (pre ++ post) clusters)) =
      ((StatusReport.namesOf (e.assessed source (pre ++ c.marked (some t) :: post) clusters)).map
        (StatusReport.statusOf
          (e.assessed source (pre ++ c.marked (some t) :: post) clusters))).filter
        fun s => s.name != c.name := by
    rw [List.filter_map, ← hassessed, StatusReport.namesOf_filter_name]
    refine List.map_congr_left fun name hname => ?_
    exact StatusReport.statusOf_filter_name _ (bne_iff_ne.mp (List.mem_filter.mp hname).2)
  have hreports : (e.assessed source (pre ++ post) clusters).map StatusReport.Assessed.report =
      ((e.assessed source (pre ++ c.marked (some t) :: post) clusters).map
        StatusReport.Assessed.report).filter fun r => r.classifier != c.name := by
    rw [List.filter_map, ← hassessed]
    rfl
  simp only [settled, PassResult.without, hstatuses, hreports,
    filter_allClassifications hnames hs hsound, allArbitrations_left hs hsound]

omit t

/-- The classifier is found with the verdict that it has alone, whether it is being deleted or not. -/
theorem find?_marked {k : Cluster} (hk : k ∈ clusters) (t : Option Moment) :
    (e.settled source (pre ++ c.marked t :: post) clusters).find? c.name k.key =
      some { e.alone (source k) k c with classifier := c.marked t } := by
  have hmarked : ((pre ++ c.marked t :: post).map Classifier.name).Nodup := by
    rwa [Classifier.names_marked]
  have hmem : e.alone (source k) k (c.marked t) ∈
      e.classifications (source k) (pre ++ c.marked t :: post) k := by
    rw [classifications_marked (hs k hk) (hsound k hk)]
    exact List.mem_map_of_mem (List.mem_append_right _ List.mem_cons_self)
  have hfound := find?_settled hmarked hkeys hk hmem
  rwa [alone_classifier, Classifier.marked_name, alone_marked] at hfound

end Passes

/-- With steady sources, a pass in which a classifier is being deleted says of all others, and gives on
    every cluster, what the pass without the classifier does. Of the classifier it says what it would
    say of it if it were not being deleted, but for the deletion itself. -/
theorem run_deletes_as_left_out (e : Engine) (source : Cluster → Source) (pre : List Classifier)
    (c : Classifier) (post : List Classifier) (clusters : List Cluster)
    (hnames : ((pre ++ c :: post).map Classifier.name).Nodup)
    (hkeys : (clusters.map Cluster.key).Nodup) (hs : ∀ k ∈ clusters, (source k).Steady)
    (hsound : ∀ k ∈ clusters, ∀ a,
      (Classification.classifyAll e.evaluator (source k) k (pre ++ c :: post)).1 ≠ .error a)
    (t : Moment) :
    ∃ p q, e.run source (pre ++ c.marked (some t) :: post) clusters = .ok p ∧
      e.run source (pre ++ post) clusters = .ok (p.without c.name) ∧
      e.run source (pre ++ c.marked none :: post) clusters = .ok q ∧
      ∀ k ∈ clusters, ∃ r, q.find? c.name k.key = some r ∧
        p.find? c.name k.key = some { r with classifier := c.marked (some t) } := by
  have hmarked : ∀ t, ((pre ++ c.marked t :: post).map Classifier.name).Nodup := by
    intro t
    rwa [Classifier.names_marked]
  refine ⟨e.settled source (pre ++ c.marked (some t) :: post) clusters,
    e.settled source (pre ++ c.marked none :: post) clusters,
    run_eq_settled (hmarked (some t)) hkeys, ?_, run_eq_settled (hmarked none) hkeys,
    fun k hk => ?_⟩
  · rw [← settled_left hnames hkeys hs hsound t]
    exact run_eq_settled (Classifier.nodup_left hnames) hkeys
  · exact ⟨_, find?_marked hnames hkeys hs hsound hk none,
      find?_marked hnames hkeys hs hsound hk (some t)⟩

end Engine

/-- Looks at pods and services, and lists a key. -/
def Sample.holder : Classifier :=
  { gate "holder" with labels := [⟨"env", "prod"⟩], distinct := by decide }

open Sample in
/-- Where nothing can be listed at first, a classifier that is being deleted takes the failure upon
    itself, and the next one matches. Left out, it leaves the failure to that one. -/
theorem holder_owns_env_behind_gate :
    (∀ a, (Classification.classifyAll engine.evaluator wavering north [gate "gate", holder]).1 ≠
        .error a) ∧
      ∃ p q, engine.run (fun _ => wavering) [(gate "gate").marked (some ⟨30, 0⟩), holder] [north] =
          .ok p ∧
        engine.run (fun _ => wavering) [holder] [north] = .ok q ∧
        (p.arbitrations.get? north.key).map (fun a => a.owners.get? "env") = some (some "holder") ∧
        (q.arbitrations.get? north.key).map (fun a => a.owners.get? "env") = some none := by
  let gone := (gate "gate").marked (some ⟨30, 0⟩)
  have hkeys : ([north].map Cluster.key).Nodup := by decide
  have hrun : ∀ cs : List Classifier, (cs.map Classifier.name).Nodup →
      engine.run (fun _ => wavering) cs [north] =
        .ok (engine.settled (fun _ => wavering) cs [north]) :=
    fun cs hnames => Engine.run_eq_settled hnames hkeys
  have hfound : ∀ cs,
      (engine.settled (fun _ => wavering) cs [north]).arbitrations.get? north.key =
        some (engine.arbitrationOn wavering cs north) :=
    fun cs => Engine.arbitration_of_cluster hkeys List.mem_cons_self
  have hsound : ∀ a, (Classification.classifyAll engine.evaluator wavering north
      [gate "gate", holder]).1 ≠ .error a := by
    intro a h
    cases h
  refine ⟨hsound, _, _, hrun [gone, holder] (by decide), hrun [holder] (by decide), ?_, ?_⟩
  · rw [hfound]
    decide +kernel
  · rw [hfound]
    decide +kernel

open Sample in
/-- The key of a classifier that is being deleted goes to the next one that lists it. -/
theorem env_passes_from_red_to_blue :
    ∃ p, engine.run (fun _ => empty) [blue, red.marked (some ⟨30, 0⟩), probe] [north, south] =
        .ok p ∧
      engine.run (fun _ => empty) [blue, probe] [north, south] = .ok (p.without "red") ∧
      (p.arbitrations.get? north.key).bind (fun a => a.owners.get? "env") = some "blue" := by
  have hnames : ([blue, probe].map Classifier.name).Nodup := by decide
  have hkeys : ([north, south].map Cluster.key).Nodup := by decide
  have hsound : ∀ k ∈ [north, south], ∀ a,
      (Classification.classifyAll engine.evaluator empty k ([blue] ++ red :: [probe])).1 ≠
        .error a := by
    intro k _ a h
    cases h
  obtain ⟨p, q, hp, hleft, -, -⟩ := Engine.run_deletes_as_left_out engine (fun _ => empty) [blue] red
    [probe] [north, south] (by decide) hkeys (fun _ _ _ _ _ => rfl) hsound ⟨30, 0⟩
  refine ⟨p, hp, hleft, ?_⟩
  -- the arbitrations are those of the pass without `red`
  have hsettled := Except.ok.inj (hleft.symm.trans (Engine.run_eq_settled hnames hkeys))
  have hsame : p.arbitrations = engine.allArbitrations (fun _ => empty) [blue, probe] [north, south] :=
    congrArg PassResult.arbitrations hsettled
  rw [hsame, Engine.arbitration_of_cluster hkeys List.mem_cons_self]
  decide +kernel

end FleetLabels
