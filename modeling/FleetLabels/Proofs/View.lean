import FleetLabels.Proofs.Attempt
import FleetLabels.Classification
import Mathlib.Data.List.Forall2

/-!
    Evaluating through a shared view.

    The classifiers of a run share one view of the cluster. As long as the source answers as a function
    of what is asked, everything that the view keeps is what the source would answer again
    (`View.Faithful`), so a step sees the same through any such view as through a fresh one. A run over
    all classifiers is then the list of what each of them gives alone. -/

namespace FleetLabels

/-- A source that answers as a function of what is asked. -/
def Source.Steady (src : Source) : Prop := ∀ m n s, src.list m s = src.list n s

namespace View

variable {src : Source} {cluster : Cluster} {v : View}

/-- What a view keeps is what the source answers. -/
structure Faithful (src : Source) (cluster : Cluster) (v : View) : Prop where
  listings : ∀ s items, v.listings.get? s = some items → src.list 0 s = .ok items
  version : ∀ answer, v.version = some answer → answer = readVersion src cluster

theorem fresh_faithful (src : Source) (cluster : Cluster) : Faithful src cluster .fresh where
  listings := fun s items h => by simp [fresh] at h
  version := fun answer h => by simp [fresh] at h

/-- Faithfulness is about what is kept and not about what was counted. -/
theorem Faithful.ran (h : Faithful src cluster v) (calls : List ScriptCall) :
    Faithful src cluster { v with scriptCalls := calls } :=
  ⟨h.listings, h.version⟩

/-- A listing through a faithful view is the one of the source. -/
theorem list_faithful (hs : src.Steady) (h : Faithful src cluster v) (s : Scope) :
    (v.list src s).1 = src.list 0 s ∧ Faithful src cluster (v.list src s).2 := by
  rw [View.list]
  cases hkept : v.listings.get? s with
  | some items => exact ⟨(h.listings s items hkept).symm, h⟩
  | none =>
    have hanswer := hs v.listCalls.length 0 s
    cases hask : src.list v.listCalls.length s with
    | error text =>
      rw [hask] at hanswer
      exact ⟨hanswer, h.listings, h.version⟩
    | ok items =>
      rw [hask] at hanswer
      refine ⟨hanswer, fun t found hfound => ?_, h.version⟩
      rw [Table.get?_set] at hfound
      by_cases hst : s = t
      · subst hst
        rw [if_pos rfl] at hfound
        rw [← hanswer, Option.some.inj hfound]
      · rw [if_neg hst] at hfound
        exact h.listings t found hfound

/-- The version through a faithful view is the one that is read. -/
theorem versionOf_faithful (h : Faithful src cluster v) :
    (v.versionOf src cluster).1 = readVersion src cluster ∧
      Faithful src cluster (v.versionOf src cluster).2 := by
  rw [versionOf]
  cases hkept : v.version with
  | some answer => exact ⟨h.version answer hkept, h⟩
  | none => exact ⟨rfl, h.listings, fun answer hanswer => (Option.some.inj hanswer).symm⟩

/-- A step that gives the same through every faithful view, and leaves a faithful view behind. -/
def Blind {β : Type} (src : Source) (cluster : Cluster) (f : View → β × View) : Prop :=
  ∀ v, Faithful src cluster v → (f v).1 = (f .fresh).1 ∧ Faithful src cluster (f v).2

end View

namespace Viewing

variable {α β : Type} {f : α → Viewing β} {src : Source} {cluster : Cluster}

/-- Blind steps in a row give what each of them gives alone. -/
theorem each_of_blind (hf : ∀ a, View.Blind src cluster (f a)) (as : List α) (v : View)
    (hv : View.Faithful src cluster v) :
    (each f as v).1 = as.mapM (fun a => (f a .fresh).1) ∧
      View.Faithful src cluster (each f as v).2 := by
  induction as generalizing v with
  | nil => exact ⟨rfl, hv⟩
  | cons a rest ih =>
    obtain ⟨hfirst, hnext⟩ := hf a v hv
    rw [Attempt.mapM_cons, ← hfirst, each]
    cases hstep : f a v with
    | mk result w =>
      rw [hstep] at hnext
      obtain ⟨hrest, hend⟩ := ih w hnext
      cases result with
      | error e => exact ⟨rfl, hnext⟩
      | ok b => exact ⟨congrArg (Except.map (b :: ·)) hrest, hend⟩

theorem each_blind (hf : ∀ a, View.Blind src cluster (f a)) (as : List α) :
    View.Blind src cluster (each f as) := by
  intro v hv
  obtain ⟨hresult, hend⟩ := each_of_blind hf as v hv
  exact ⟨hresult.trans (each_of_blind hf as .fresh (View.fresh_faithful src cluster)).1.symm, hend⟩

/-- Every item of a row of steps that ends comes from the step of its own. -/
theorem forall₂_of_each {as : List α} {v : View} {bs : List β} (h : (each f as v).1 = .ok bs) :
    List.Forall₂ (fun a b => ∃ w, (f a w).1 = .ok b) as bs := by
  induction as generalizing v bs with
  | nil => cases h; exact .nil
  | cons a rest ih =>
    rw [each] at h
    cases hstep : f a v with
    | mk result w =>
      rw [hstep] at h
      cases result with
      | error e => cases h
      | ok b =>
        cases hrest : each f rest w with
        | mk results w' =>
          simp only [hrest] at h
          cases results with
          | error e => cases h
          | ok cs =>
            cases h
            exact .cons ⟨v, by rw [hstep]⟩ (ih (congrArg Prod.fst hrest))

end Viewing

namespace Classification

variable {e : Evaluator} {src : Source} {cluster : Cluster}

theorem evaluateConstraint_blind (hs : src.Steady) (c : Constraint) :
    View.Blind src cluster (evaluateConstraint e src cluster c) := by
  intro v hv
  obtain ⟨hlist, hnext⟩ := View.list_faithful hs hv c.scope
  obtain ⟨hfresh, -⟩ := View.list_faithful hs (View.fresh_faithful src cluster) c.scope
  rw [evaluateConstraint, evaluateConstraint]
  cases hstep : v.list src c.scope with
  | mk result w =>
    cases hstep' : View.fresh.list src c.scope with
    | mk result' w' =>
      -- both listings are the one of the source
      obtain rfl : result = result' := by
        rw [hstep] at hlist
        rw [hstep'] at hfresh
        exact hlist.trans hfresh.symm
      rw [hstep] at hnext
      cases result with
      | error text => exact ⟨rfl, hnext⟩
      | ok items =>
        cases heval : e.evaluate c items with
        | error a => simp only [heval]; exact ⟨trivial, hnext⟩
        | ok out => simp only [heval]; exact ⟨trivial, hnext.ran _⟩

theorem evaluateRequirements_blind (qs : List Requirement) :
    View.Blind src cluster (evaluateRequirements src cluster qs) := by
  intro v hv
  obtain ⟨hversion, hnext⟩ := View.versionOf_faithful hv
  obtain ⟨hfresh, -⟩ := View.versionOf_faithful (View.fresh_faithful src cluster)
  rw [evaluateRequirements, evaluateRequirements]
  by_cases hqs : qs.isEmpty = true
  · rw [if_pos hqs, if_pos hqs]
    exact ⟨rfl, hv⟩
  rw [if_neg hqs, if_neg hqs]
  cases hstep : v.versionOf src cluster with
  | mk result w =>
    cases hstep' : View.fresh.versionOf src cluster with
    | mk result' w' =>
      obtain rfl : result = result' := by
        rw [hstep] at hversion
        rw [hstep'] at hfresh
        exact hversion.trans hfresh.symm
      rw [hstep] at hnext
      cases result <;> exact ⟨rfl, hnext⟩

/-- What a classifier gives does not depend on what was evaluated before it. -/
theorem classifyIn_blind (hs : src.Steady) (c : Classifier) :
    View.Blind src cluster (classifyIn e src cluster c) := by
  intro v hv
  obtain ⟨hresults, hnext⟩ :=
    Viewing.each_blind (fun d => evaluateConstraint_blind (e := e) hs d) c.constraints v hv
  have hfresh := (Viewing.each_of_blind (fun d => evaluateConstraint_blind (e := e) hs d)
    c.constraints .fresh (View.fresh_faithful src cluster)).2
  rw [classifyIn, classifyIn]
  cases hstep : Viewing.each (evaluateConstraint e src cluster) c.constraints v with
  | mk result w =>
    cases hstep' : Viewing.each (evaluateConstraint e src cluster) c.constraints .fresh with
    | mk result' w' =>
      obtain rfl : result = result' := by rwa [hstep, hstep'] at hresults
      rw [hstep] at hnext
      rw [hstep'] at hfresh
      cases result with
      | error a => exact ⟨rfl, hnext⟩
      | ok results =>
        obtain ⟨hreq, hend⟩ := evaluateRequirements_blind c.requirements w hnext
        obtain ⟨hreq', -⟩ := evaluateRequirements_blind c.requirements w' hfresh
        refine ⟨?_, hend⟩
        simp only [hreq, hreq']

/-- The shared view changes nothing: a run gives what each classifier gives alone. -/
theorem classifyAll_eq_mapM (hs : src.Steady) (cs : List Classifier) :
    (classifyAll e src cluster cs).1 = cs.mapM fun c => (classify e src cluster c).1 :=
  (Viewing.each_of_blind (classifyIn_blind hs) cs .fresh (View.fresh_faithful src cluster)).1

/-! ### What a verdict is about -/

theorem classifyIn_ok {c : Classifier} {v : View} {r : Classification}
    (h : (classifyIn e src cluster c v).1 = .ok r) :
    ∃ results w, (Viewing.each (evaluateConstraint e src cluster) c.constraints v).1 = .ok results ∧
      r = ofResults c cluster results (evaluateRequirements src cluster c.requirements w).1.1
        (evaluateRequirements src cluster c.requirements w).1.2 := by
  rw [classifyIn] at h
  cases hstep : Viewing.each (evaluateConstraint e src cluster) c.constraints v with
  | mk result w =>
    rw [hstep] at h
    cases result with
    | error a => cases h
    | ok results =>
      cases h
      exact ⟨results, w, rfl, rfl⟩

/-- A run that ends has a verdict on each classifier in turn, and all on the cluster. -/
theorem forall₂_classifyAll {cs : List Classifier} {rs : List Classification}
    (h : (classifyAll e src cluster cs).1 = .ok rs) :
    List.Forall₂ (fun c r => r.classifier = c ∧ r.cluster = cluster) cs rs := by
  refine (Viewing.forall₂_of_each h).imp ?_
  rintro c r ⟨w, hr⟩
  obtain ⟨results, w', -, rfl⟩ := classifyIn_ok hr
  exact ⟨rfl, rfl⟩

end Classification

end FleetLabels
