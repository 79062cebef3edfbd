import FleetLabels.Proofs.Assembly
import FleetLabels.Proofs.Verdicts

/-!
    What classifiers have to do with each other.

    A pass judges a classifier on a cluster just as a pass with that classifier and cluster alone
    does, whatever faults the others meet, as long as the evaluation of no other classifier breaks off
    on that cluster. When some break off, the first of them fails every classifier on that cluster and
    is named by its text; all other clusters are judged as before. -/

namespace FleetLabels

namespace Engine

variable {e : Engine} {source : Cluster → Source} {cs : List Classifier} {clusters : List Cluster}
  {k : Cluster} {c : Classifier} {a : Abrupt} (hnames : (cs.map Classifier.name).Nodup)
  (hkeys : (clusters.map Cluster.key).Nodup) (hk : k ∈ clusters) (hc : c ∈ cs)

include hnames hkeys hk hc in
/-- A pass holds what the classifications of a cluster say of a classifier. -/
theorem find?_of_map {f : Classifier → Classification} (hf : (f c).classifier = c)
    (h : e.classifications (source k) cs k = cs.map f) :
    (e.settled source cs clusters).find? c.name k.key = some (f c) := by
  have hmem : f c ∈ e.classifications (source k) cs k := h ▸ List.mem_map_of_mem hc
  have hfound := find?_settled hnames hkeys hk hmem
  rwa [hf] at hfound

/-- Alone on a cluster a classifier is found with its own verdict. -/
theorem find?_alone (hs : (source k).Steady) :
    (e.settled source [c] [k]).find? c.name k.key = some (e.alone (source k) k c) := by
  have hname : ([c].map Classifier.name).Nodup := List.nodup_singleton c.name
  have hkey : ([k].map Cluster.key).Nodup := List.nodup_singleton k.key
  exact find?_of_map hname hkey List.mem_cons_self List.mem_cons_self alone_classifier
    (classifications_singleton hs)

include hnames hkeys hk hc in
/-- The first classifier that breaks off on a cluster fails every one there. -/
theorem find?_of_first (hs : (source k).Steady) {pre post : List Classifier} {d : Classifier}
    (hsplit : cs = pre ++ d :: post) (hpre : ∀ b ∈ pre, ∀ a, ¬ e.BreaksOff (source k) k b a)
    (hd : e.BreaksOff (source k) k d a) :
    (e.settled source cs clusters).find? c.name k.key =
      some (Classification.broken k a c) := by
  subst hsplit
  exact find?_of_map hnames hkeys hk hc rfl (classifications_of_first hs hpre hd)

include hnames hkeys hk hc in
/-- As long as no other classifier breaks off on a cluster, each is judged there as it is alone. -/
theorem find?_of_others_sound (hs : (source k).Steady)
    (hothers : ∀ d ∈ cs, d ≠ c → ∀ a, ¬ e.BreaksOff (source k) k d a) :
    (e.settled source cs clusters).find? c.name k.key = some (e.alone (source k) k c) := by
  rcases sound_or_first e (source k) cs k with hsound | ⟨pre, d, post, a, hsplit, hpre, hd⟩
  · exact find?_of_map hnames hkeys hk hc alone_classifier (classifications_of_sound hs hsound)
  · have hmem : d ∈ cs := hsplit ▸ List.mem_append_right pre List.mem_cons_self
    -- nobody else breaks off, so it is the classifier itself that does
    obtain rfl : d = c := by
      by_contra hne
      exact hothers d hmem hne a hd
    rw [alone_of_breaksOff hd]
    exact find?_of_first hnames hkeys hk hc hs hsplit hpre hd

/-- The verdict of a classifier on a cluster is the one of a pass over the two alone, unless another
    classifier breaks off on that cluster. Then it is the failure of the first that does. -/
theorem run_judges_as_alone (e : Engine) (source : Cluster → Source) (cs : List Classifier)
    (clusters : List Cluster) (hnames : (cs.map Classifier.name).Nodup)
    (hkeys : (clusters.map Cluster.key).Nodup) (hs : ∀ k ∈ clusters, (source k).Steady) :
    ∃ p, e.run source cs clusters = .ok p ∧ ∀ c ∈ cs, ∀ k ∈ clusters,
      ∃ q r, e.run source [c] [k] = .ok q ∧ q.find? c.name k.key = some r ∧
        ((∀ d ∈ cs, d ≠ c → ∀ a, ¬ e.BreaksOff (source k) k d a) →
          p.find? c.name k.key = some r) ∧
        ∀ pre d post a, cs = pre ++ d :: post →
          (∀ b ∈ pre, ∀ a, ¬ e.BreaksOff (source k) k b a) → e.BreaksOff (source k) k d a →
          p.find? c.name k.key = some (Classification.broken k a c) := by
  refine ⟨e.settled source cs clusters, run_eq_settled hnames hkeys, fun c hc k hk => ?_⟩
  refine ⟨e.settled source [c] [k], e.alone (source k) k c, ?_, find?_alone (hs k hk), ?_, ?_⟩
  · exact run_eq_settled (List.nodup_singleton c.name) (List.nodup_singleton k.key)
  · exact find?_of_others_sound hnames hkeys hk hc (hs k hk)
  · intro pre d post a hsplit hpre hd
    exact find?_of_first hnames hkeys hk hc (hs k hk) hsplit hpre hd

end Engine

open Sample in
/-- A classifier without constraints matches alone and fails beside one that breaks off. -/
theorem red_fails_beside_probe :
    (fleet north).Steady ∧ ∃ p q, engine.run fleet [red, probe] [north] = .ok p ∧
      engine.run fleet [red] [north] = .ok q ∧
      (p.find? "red" north.key).map Classification.matched = some false ∧
      (q.find? "red" north.key).map Classification.matched = some true ∧
      p.find? "red" north.key ≠ q.find? "red" north.key := by
  have hkeys : ([north].map Cluster.key).Nodup := by decide
  have hpair : ([red, probe].map Classifier.name).Nodup := by decide
  have hred : ([red].map Classifier.name).Nodup := by decide
  have hbeside : (engine.settled fleet [red, probe] [north]).find? "red" north.key =
      some (Classification.broken north ⟨"boom"⟩ red) :=
    Engine.find?_of_map hpair hkeys List.mem_cons_self List.mem_cons_self rfl rfl
  have halone : (engine.settled fleet [red] [north]).find? "red" north.key =
      some (engine.alone corrupted north red) :=
    Engine.find?_alone (fleet_steady north)
  refine ⟨fleet_steady north, _, _, Engine.run_eq_settled hpair hkeys,
    Engine.run_eq_settled hred hkeys, ?_, ?_, ?_⟩
  · rw [hbeside]
    rfl
  · rw [halone]
    rfl
  · rw [hbeside, halone]
    intro heq
    exact Bool.noConfusion (congrArg Classification.matched (Option.some.inj heq))

open Sample in
/-- What breaks off on one cluster fails its neighbours there and changes nothing elsewhere. -/
theorem probe_fails_red_on_north_alone :
    ∃ p, engine.run fleet [red, probe, blue] [north, south] = .ok p ∧
      p.find? "red" north.key = some (Classification.broken north ⟨"boom"⟩ red) ∧
      ∃ q r, engine.run fleet [red] [south] = .ok q ∧ q.find? "red" south.key = some r ∧
        p.find? "red" south.key = some r := by
  obtain ⟨p, hrun, hp⟩ := Engine.run_judges_as_alone engine fleet [red, probe, blue] [north, south]
    (by decide) (by decide) fun k _ => fleet_steady k
  obtain ⟨-, -, -, -, -, hnorth⟩ := hp red (by decide) north (by decide)
  obtain ⟨q, r, hq, hr, hsouth, -⟩ := hp red (by decide) south (by decide)
  have hred : ∀ b ∈ [red], ∀ a, ¬ engine.BreaksOff (fleet north) north b a := by
    intro b hb a hbreak
    rw [List.mem_singleton.mp hb] at hbreak
    cases hbreak
  have hnobody : ∀ d ∈ [red, probe, blue], d ≠ red →
      ∀ a, ¬ engine.BreaksOff (fleet south) south d a := by
    intro d hd _ a hbreak
    obtain ⟨x, -, items, hlist, hmem⟩ :=
      Classification.corrupt_mem_of_classify (fleet_steady south) hbreak
    cases hlist
    cases hmem
  exact ⟨p, hrun, hnorth [red] probe [blue] ⟨"boom"⟩ rfl hred rfl, q, r, hq, hr, hsouth hnobody⟩

end FleetLabels
