import FleetLabels.Proofs.Inventory
import FleetLabels.Proofs.Selection
import FleetLabels.Proofs.View

/-!
    Constraints on what inventories list.

    Scope is decided twice: an inventory lists the resources of a scope, and the evaluation of a
    constraint takes from a listing what is in its scope. The second decision changes nothing, so that a
    constraint fares on the listing as it does on all resources of the cluster, with the same resources
    selected and the same script runs (`Inventory.listing_gives_as_all`). What was added under the keys of
    other clusters plays no part in it. -/

namespace FleetLabels

/-! ### Listings with the same candidates -/

/-- No candidate is lost where only the scope is kept. -/
theorem Constraint.candidatesIn_filter_scope (c : Constraint) (rs : List Resource) :
    c.candidatesIn (rs.filter fun r => r.scope == c.scope) = c.candidatesIn rs := by
  rw [← passing_eq_candidatesIn, ← passing_eq_candidatesIn, List.filter_filter]
  simp only [Bool.and_self]

namespace RememberingEvaluator

variable {e : RememberingEvaluator} {c : Constraint} {rs ts : List Resource}

/-- A listing on which a constraint selects and fares in one way, with the script runs of the
    selection. -/
structure Gives (e : RememberingEvaluator) (c : Constraint) (items : List Listed) (s : Selection)
    (x : ConstraintResult) : Prop where
  select : e.select c items = .ok s
  evaluate : e.evaluate c items = .ok (x, s.calls)

theorem Gives.congr {s : Selection} {x : ConstraintResult} (h : e.Gives c (rs.map .resource) s x)
    (hsame : c.candidatesIn rs = c.candidatesIn ts) : e.Gives c (ts.map .resource) s x := by
  have hselect : e.select c (rs.map .resource) = e.select c (ts.map .resource) := select_congr hsame
  constructor
  case select => rw [← hselect, h.select]
  case evaluate =>
    rw [RememberingEvaluator.evaluate, ← hselect]
    exact h.evaluate

/-- On resources a constraint always selects and fares in some way. -/
theorem exists_gives (e : RememberingEvaluator) (c : Constraint) (rs : List Resource) :
    ∃ s x, e.Gives c (rs.map .resource) s x ∧ x.constraint = c ∧
      e.Fares c.draft rs x.outcome := by
  obtain ⟨x, calls, heval, hfares⟩ := evaluate_fares e c rs
  obtain ⟨s, hselect, hend⟩ := Attempt.of_bind_eq_ok heval
  obtain rfl : s.calls = calls := congrArg Prod.snd (Except.ok.inj hend)
  exact ⟨s, x, ⟨hselect, heval⟩, hfares⟩

end RememberingEvaluator

/-- A listing on which a constraint selects and fares in one way, with the script runs of the
    selection. -/
abbrev Evaluator.Gives (e : Evaluator) (c : Constraint) (items : List Listed) (s : Selection)
    (x : ConstraintResult) : Prop :=
  e.forgetful.Gives c items s x

/-! ### Through a view -/

/-- A source that lists what an inventory holds for a cluster. -/
def Source.Serves (src : Source) (inv : Inventory) (k : Cluster) : Prop :=
  ∀ n s, src.list n s = .ok ((inv.list k s).map .resource)

theorem View.list_scriptCalls (src : Source) (s : Scope) (v : View) :
    (v.list src s).2.scriptCalls = v.scriptCalls := by
  rw [View.list]
  cases v.listings.get? s with
  | some items => rfl
  | none =>
    dsimp only
    cases src.list v.listCalls.length s <;> rfl

/-- Through a faithful view a constraint fares as it does on the listing, and the script runs of the
    selection are noted. -/
theorem Classification.evaluateConstraint_of_gives {e : Evaluator} {c : Constraint} {src : Source}
    {k : Cluster} {v : View} {items : List Listed} {s : Selection} {x : ConstraintResult}
    (hlist : (v.list src c.scope).1 = .ok items) (h : e.Gives c items s x) :
    (evaluateConstraint e src k c v).1 = .ok x ∧
      (evaluateConstraint e src k c v).2.scriptCalls = v.scriptCalls ++ s.calls := by
  have hcalls := View.list_scriptCalls src c.scope v
  rw [evaluateConstraint]
  cases hstep : v.list src c.scope with
  | mk result w =>
    rw [hstep] at hlist hcalls
    cases hlist
    have heval : e.evaluate c items = .ok (x, s.calls) := h.evaluate
    simp only [heval]
    exact ⟨trivial, congrArg (· ++ s.calls) hcalls⟩

/-! ### Inventories -/

namespace Inventory

/-- An inventory filled with one manifest after another, each under the key of a cluster. -/
def ofAdditions (given : List (String × Datum)) : Reading Inventory :=
  given.foldlM (fun inv g => add g.1 inv g.2) empty

/-- The additions under the key of a cluster. -/
def additionsTo (k : Cluster) (given : List (String × Datum)) : List (String × Datum) :=
  given.filter fun g => g.1 = k.key

variable {given more : List (String × Datum)} {inv next : Inventory} {k : Cluster}

/-- A cluster has the resources that were read from the additions under its key. -/
theorem all_ofAdditions (h : ofAdditions given = .ok inv) (k : Cluster) :
    ((additionsTo k given).mapM fun g => Resource.ofManifest g.2) = .ok (inv.all k) := by
  obtain ⟨rss, hread, hall⟩ := all_of_foldlM add_eq k h
  rw [Attempt.mapM_map_singleton fun g : String × Datum => Resource.ofManifest g.2] at hread
  rw [additionsTo]
  cases hrs : (given.filter fun g => g.1 = k.key).mapM fun g => Resource.ofManifest g.2 with
  | error r =>
    rw [hrs] at hread
    cases hread
  | ok rs =>
    rw [hrs] at hread
    cases hread
    rw [hall]
    simp [all, empty, ← List.flatMap_def]

theorem all_eq_of_additionsTo (h : ofAdditions given = .ok inv) (hmore : ofAdditions more = .ok next)
    (hsame : additionsTo k more = additionsTo k given) : next.all k = inv.all k := by
  have hnext := all_ofAdditions hmore k
  rw [hsame, all_ofAdditions h k] at hnext
  exact (Except.ok.inj hnext).symm

/-- Listing a scope keeps the candidates of the constraints that have it. -/
theorem candidatesIn_list (inv : Inventory) (k : Cluster) (c : Constraint) :
    c.candidatesIn (inv.list k c.scope) = c.candidatesIn (inv.all k) :=
  c.candidatesIn_filter_scope (inv.all k)

/-- However an inventory was filled, a constraint selects and fares on what is listed for its scope as
    on all resources of the cluster, and so it does on what a view lists. It selects and fares alike in
    every inventory that was filled with the same under the key of the cluster. -/
theorem listing_gives_as_all (e : RememberingEvaluator) (c : Constraint) (k : Cluster)
    (h : ofAdditions given = .ok inv) :
    ∃ s x, e.Gives c ((inv.all k).map .resource) s x ∧
      (x.constraint = c ∧ e.Fares c.draft (inv.all k) x.outcome) ∧
      e.Gives c ((inv.list k c.scope).map .resource) s x ∧
      (∀ src v, src.Serves inv k → View.Faithful src k v →
        ∃ items, (v.list src c.scope).1 = .ok items ∧ e.Gives c items s x) ∧
      ∀ more next, ofAdditions more = .ok next → additionsTo k more = additionsTo k given →
        e.Gives c ((next.all k).map .resource) s x ∧
        e.Gives c ((next.list k c.scope).map .resource) s x := by
  obtain ⟨s, x, hgives, hfares⟩ := e.exists_gives c (inv.all k)
  have hlist := hgives.congr (inv.candidatesIn_list k c).symm
  refine ⟨s, x, hgives, hfares, hlist, fun src v hserves hv => ?_, fun more next hmore hsame => ?_⟩
  · have hsteady : src.Steady := fun m n s => (hserves m s).trans (hserves n s).symm
    obtain ⟨hview, -⟩ := View.list_faithful hsteady hv c.scope
    exact ⟨_, hview.trans (hserves 0 c.scope), hlist⟩
  · have hall := all_eq_of_additionsTo h hmore hsame
    rw [list, hall]
    exact ⟨hgives, hlist⟩

/-- Without a memory a constraint that is evaluated through a view fares as on all resources of the
    cluster, too. -/
theorem listing_fares_as_all (e : Evaluator) (c : Constraint) (k : Cluster)
    (h : ofAdditions given = .ok inv) :
    ∃ s x, e.Gives c ((inv.all k).map .resource) s x ∧ e.Fares c (inv.all k) x ∧
      e.Gives c ((inv.list k c.scope).map .resource) s x ∧
      (∀ src v, src.Serves inv k → View.Faithful src k v →
        (Classification.evaluateConstraint e src k c v).1 = .ok x ∧
        (Classification.evaluateConstraint e src k c v).2.scriptCalls = v.scriptCalls ++ s.calls) ∧
      ∀ more next, ofAdditions more = .ok next → additionsTo k more = additionsTo k given →
        e.Gives c ((next.all k).map .resource) s x ∧
        e.Gives c ((next.list k c.scope).map .resource) s x := by
  obtain ⟨s, x, hgives, hfares, hlist, hviews, hothers⟩ := listing_gives_as_all e.forgetful c k h
  refine ⟨s, x, hgives, Evaluator.fares_of_forgetful hfares.1 hfares.2, hlist, fun src v hserves hv => ?_,
    hothers⟩
  obtain ⟨items, hitems, hitemsGive⟩ := hviews src v hserves hv
  exact Classification.evaluateConstraint_of_gives hitems hitemsGive

end Inventory

namespace Sample

def yard : Cluster := ⟨"default", "yard", .capi, Table.empty⟩

def barn : Cluster := ⟨"default", "barn", .capi, Table.empty⟩

/-- An object of the core group. -/
def object (kind name : String) : Datum :=
  .mapping [(.text "apiVersion", .text "v1"), (.text "kind", .text kind),
    (.text "metadata", .mapping [(.text "name", .text name)])]

def yardObjects : List (String × Datum) :=
  [(yard.key, object "Pod" "hen"), (yard.key, object "Node" "gate"), (yard.key, object "Pod" "goose")]

def anyPod : Constraint := ⟨⟨"", "v1", "Pod", ""⟩, [], [], none, none, ""⟩

end Sample

open Sample in
/-- Among the objects of the yard two pods are found, by the listing of pods as by that of everything,
    and no third one when a pod is added to the barn. -/
theorem pods_of_yard_found_without_barn :
    ∃ inv next s x, Inventory.ofAdditions yardObjects = .ok inv ∧
      Inventory.ofAdditions ((barn.key, object "Pod" "cow") :: yardObjects) = .ok next ∧
      Evaluator.Gives ⟨.builtin, none⟩ anyPod ((inv.list yard anyPod.scope).map .resource) s x ∧
      Evaluator.Gives ⟨.builtin, none⟩ anyPod ((next.all yard).map .resource) s x ∧
      x.count = 2 ∧ x.satisfied = true := by
  have hinv : ∃ inv, Inventory.ofAdditions yardObjects = .ok inv := ⟨_, rfl⟩
  have hnext : ∃ next, Inventory.ofAdditions ((barn.key, object "Pod" "cow") :: yardObjects) =
      .ok next := ⟨_, rfl⟩
  obtain ⟨inv, hinv⟩ := hinv
  obtain ⟨next, hnext⟩ := hnext
  have hsame : Inventory.additionsTo yard ((barn.key, object "Pod" "cow") :: yardObjects) =
      Inventory.additionsTo yard yardObjects := List.filter_cons_of_neg (by decide)
  obtain ⟨⟨found, calls⟩, x, hall, -, hlist, -, hothers⟩ :=
    Inventory.listing_fares_as_all ⟨.builtin, none⟩ anyPod yard hinv
  refine ⟨inv, next, _, x, hinv, hnext, hlist, (hothers _ next hnext hsame).1, ?_⟩
  have heval := hall.evaluate
  cases hinv
  cases heval
  exact ⟨rfl, rfl⟩

end FleetLabels
