import FleetLabels.Proofs.View
import FleetLabels.Pass

/-!
    Verdicts alone and together.

    Alone on a cluster a classifier comes to a verdict (`Engine.alone`), unless its evaluation breaks
    off (`Engine.BreaksOff`), which takes a listed item that is no resource. Together on a steady
    source, classifiers that do not break off have the verdicts that each of them has alone. When some
    break off, the first of them fails all, with its own text, so that the order of the classifiers
    matters no further than they differ in that text (`Engine.Uniform`). -/

namespace FleetLabels

/-! ### What breaks an evaluation off -/

/-- Going through a listing breaks off at an item of the listing. -/
theorem corrupt_mem_of_resourcesWhere {wanted : Resource → Bool} {items : List Listed} {a : Abrupt}
    (h : resourcesWhere wanted items = .error a) : .corrupt a.text ∈ items := by
  induction items with
  | nil => cases h
  | cons item rest ih =>
    cases item with
    | corrupt text => cases h; exact List.mem_cons_self
    | resource r =>
      cases hrest : resourcesWhere wanted rest with
      | error b =>
        rw [resourcesWhere, hrest] at h
        cases h
        exact List.mem_cons_of_mem _ (ih hrest)
      | ok rs => rw [resourcesWhere, hrest] at h; cases h

theorem Evaluator.corrupt_mem_of_evaluate {e : Evaluator} {c : Constraint} {items : List Listed}
    {a : Abrupt} (h : e.evaluate c items = .error a) : .corrupt a.text ∈ items := by
  suffices candidates c.scope items = .error a from corrupt_mem_of_resourcesWhere this
  rw [evaluate_eq, select_eq] at h
  split at h
  · cases h
  · cases hsift : candidates c.scope items with
    | error b => rw [hsift] at h; cases h; rfl
    | ok rs => rw [hsift] at h; cases h

namespace Classification

variable {e : Evaluator} {src : Source} {cluster : Cluster} {c : Classifier} {a : Abrupt}

theorem corrupt_mem_of_evaluateConstraint {d : Constraint} {v : View} (hs : src.Steady)
    (hv : v.Faithful src cluster) (h : (evaluateConstraint e src cluster d v).1 = .error a) :
    ∃ items, src.list 0 d.scope = .ok items ∧ .corrupt a.text ∈ items := by
  obtain ⟨hlist, -⟩ := View.list_faithful hs hv d.scope
  rw [evaluateConstraint] at h
  cases hstep : v.list src d.scope with
  | mk result w =>
    rw [hstep] at h hlist
    cases result with
    | error text => cases h
    | ok items =>
      refine ⟨items, hlist.symm, ?_⟩
      cases heval : e.evaluate d items with
      | error b =>
        simp only [heval] at h
        cases h
        exact Evaluator.corrupt_mem_of_evaluate heval
      | ok out => simp only [heval] at h; cases h

/-- An evaluation that breaks off has met an item that is no resource. -/
theorem corrupt_mem_of_classify (hs : src.Steady) (h : (classify e src cluster c).1 = .error a) :
    ∃ d ∈ c.constraints, ∃ items, src.list 0 d.scope = .ok items ∧ .corrupt a.text ∈ items := by
  have heach := (Viewing.each_of_blind (fun d => evaluateConstraint_blind (e := e) hs d)
    c.constraints .fresh (View.fresh_faithful src cluster)).1
  rw [classify, classifyIn] at h
  cases hstep : Viewing.each (evaluateConstraint e src cluster) c.constraints .fresh with
  | mk result w =>
    rw [hstep] at h heach
    cases result with
    | ok results => cases h
    | error b =>
      cases h
      obtain ⟨d, hd, hbreak⟩ := Attempt.exists_of_mapM_eq_error heach.symm
      exact ⟨d, hd, corrupt_mem_of_evaluateConstraint hs (View.fresh_faithful src cluster) hbreak⟩

end Classification

/-! ### Verdicts -/

namespace Engine

variable {e : Engine} {src : Source} {cs ds : List Classifier} {k : Cluster} {c : Classifier}
  {a : Abrupt}

/-- The evaluation of a classifier that is alone on a cluster breaks off. -/
def BreaksOff (e : Engine) (src : Source) (k : Cluster) (c : Classifier) (a : Abrupt) : Prop :=
  (Classification.classify e.evaluator src k c).1 = .error a

/-- The verdict of a classifier that is alone on a cluster. -/
def alone (e : Engine) (src : Source) (k : Cluster) (c : Classifier) : Classification :=
  match (Classification.classify e.evaluator src k c).1 with
  | .ok r => r
  | .error a => Classification.broken k a c

/-- Whatever breaks off on a cluster tells the same. -/
def Uniform (e : Engine) (src : Source) (cs : List Classifier) (k : Cluster) : Prop :=
  ∀ c ∈ cs, ∀ d ∈ cs, ∀ a b, e.BreaksOff src k c a → e.BreaksOff src k d b → a = b

/-- On a source with one bad item whatever breaks off tells of that item. -/
theorem uniform_of_one_corrupt (hs : src.Steady) {text : String}
    (hone : ∀ s items t, src.list 0 s = .ok items → .corrupt t ∈ items → t = text) :
    e.Uniform src cs k := by
  have htext : ∀ c a, e.BreaksOff src k c a → a = ⟨text⟩ := by
    intro c a h
    obtain ⟨d, -, items, hlist, hmem⟩ := Classification.corrupt_mem_of_classify hs h
    exact congrArg Abrupt.mk (hone d.scope items a.text hlist hmem)
  exact fun c _ d _ a b ha hb => (htext c a ha).trans (htext d b hb).symm

theorem alone_of_ok {r : Classification}
    (h : (Classification.classify e.evaluator src k c).1 = .ok r) : e.alone src k c = r := by
  rw [alone, h]

theorem alone_of_breaksOff (h : e.BreaksOff src k c a) :
    e.alone src k c = Classification.broken k a c := by
  rw [alone, h]

theorem alone_classifier : (e.alone src k c).classifier = c := by
  rw [alone]
  cases h : (Classification.classify e.evaluator src k c).1 with
  | error a => rfl
  | ok r =>
    obtain ⟨results, w, -, rfl⟩ := Classification.classifyIn_ok h
    rfl

section Steady

variable (hs : src.Steady)

include hs in
/-- Classifiers that do not break off have the verdicts that each has alone. -/
theorem classifications_of_sound (h : ∀ c ∈ cs, ∀ a, ¬ e.BreaksOff src k c a) :
    e.classifications src cs k = cs.map (e.alone src k) := by
  have hall : (Classification.classifyAll e.evaluator src k cs).1 = .ok (cs.map (e.alone src k)) := by
    rw [Classification.classifyAll_eq_mapM hs]
    refine Attempt.mapM_eq_ok fun c hc => ?_
    cases hverdict : (Classification.classify e.evaluator src k c).1 with
    | error a => exact absurd hverdict (h c hc a)
    | ok r => rw [alone_of_ok hverdict]
  rw [classifications, hall]

include hs in
/-- The run over all classifiers ends where the first of them breaks off. -/
theorem classifyAll_of_first {pre post : List Classifier}
    (hpre : ∀ d ∈ pre, ∀ b, ¬ e.BreaksOff src k d b) (hc : e.BreaksOff src k c a) :
    (Classification.classifyAll e.evaluator src k (pre ++ c :: post)).1 = .error a := by
  rw [Classification.classifyAll_eq_mapM hs]
  refine Attempt.mapM_eq_error (fun d hd => ?_) hc
  cases hverdict : (Classification.classify e.evaluator src k d).1 with
  | error b => exact absurd hverdict (hpre d hd b)
  | ok r => exact ⟨r, rfl⟩

include hs in
/-- The first classifier that breaks off fails all of them. -/
theorem classifications_of_first {pre post : List Classifier}
    (hpre : ∀ d ∈ pre, ∀ b, ¬ e.BreaksOff src k d b) (hc : e.BreaksOff src k c a) :
    e.classifications src (pre ++ c :: post) k =
      (pre ++ c :: post).map (Classification.broken k a) := by
  rw [classifications, classifyAll_of_first hs hpre hc]

/-- Either no classifier breaks off, or one of them is the first to do so. -/
theorem sound_or_first (e : Engine) (src : Source) (cs : List Classifier) (k : Cluster) :
    (∀ c ∈ cs, ∀ a, ¬ e.BreaksOff src k c a) ∨
      ∃ pre c post a, cs = pre ++ c :: post ∧ (∀ d ∈ pre, ∀ b, ¬ e.BreaksOff src k d b) ∧
        e.BreaksOff src k c a := by
  have hsound : ∀ c, (∃ r, (Classification.classify e.evaluator src k c).1 = .ok r) →
      ∀ a, ¬ e.BreaksOff src k c a := by
    rintro c ⟨r, hr⟩ a hbreak
    rw [BreaksOff, hr] at hbreak
    cases hbreak
  rcases Attempt.all_ok_or_first_error
      (fun c => (Classification.classify e.evaluator src k c).1) cs with
    hall | ⟨pre, c, post, a, rfl, hpre, hc⟩
  · exact .inl fun c hc => hsound c (hall c hc)
  · exact .inr ⟨pre, c, post, a, rfl, fun d hd => hsound d (hpre d hd), hc⟩

include hs in
/-- When the run over all classifiers does not break off, none of them does. -/
theorem sound_of_classifyAll
    (h : ∀ a, (Classification.classifyAll e.evaluator src k cs).1 ≠ .error a) :
    ∀ c ∈ cs, ∀ a, ¬ e.BreaksOff src k c a := by
  rcases sound_or_first e src cs k with hsound | ⟨pre, c, post, a, rfl, hpre, hc⟩
  · exact hsound
  · exact absurd (classifyAll_of_first hs hpre hc) (h a)

include hs in
/-- A classifier alone has its own verdict, whether it breaks off or not. -/
theorem classifications_singleton : e.classifications src [c] k = [e.alone src k c] := by
  cases hverdict : (Classification.classify e.evaluator src k c).1 with
  | error a =>
    have hnobody : ∀ d ∈ ([] : List Classifier), ∀ b, ¬ e.BreaksOff src k d b :=
      fun d hd => absurd hd List.not_mem_nil
    rw [alone_of_breaksOff hverdict]
    exact classifications_of_first hs hnobody hverdict
  | ok r =>
    refine classifications_of_sound hs fun d hd b hbreak => ?_
    rw [List.mem_singleton.mp hd, BreaksOff, hverdict] at hbreak
    cases hbreak

include hs in
/-- The order of the classifiers changes the order of their verdicts only, as long as whatever breaks
    off tells the same. -/
theorem classifications_perm (hperm : cs.Perm ds) (huniform : e.Uniform src cs k) :
    (e.classifications src cs k).Perm (e.classifications src ds k) := by
  rcases sound_or_first e src cs k with hsound | ⟨pre, c, post, a, rfl, hpre, hc⟩
  · rw [classifications_of_sound hs hsound,
      classifications_of_sound hs fun c hc => hsound c (hperm.mem_iff.mpr hc)]
    exact hperm.map _
  have hcmem : c ∈ pre ++ c :: post := List.mem_append_right pre List.mem_cons_self
  rcases sound_or_first e src ds k with hsound | ⟨pre', d, post', b, rfl, hpre', hd⟩
  · exact absurd hc (hsound c (hperm.mem_iff.mp hcmem) a)
  have hdmem : d ∈ pre ++ c :: post :=
    hperm.mem_iff.mpr (List.mem_append_right pre' List.mem_cons_self)
  obtain rfl := huniform c hcmem d hdmem a b hc hd
  rw [classifications_of_first hs hpre hc, classifications_of_first hs hpre' hd]
  exact hperm.map _

end Steady

end Engine

end FleetLabels
