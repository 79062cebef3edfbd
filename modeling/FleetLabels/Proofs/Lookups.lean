import FleetLabels.Proofs.FailedStatus
import Mathlib.Data.List.NodupEquivFin

/-!
    What is asked of a cluster.

    The view of a run keeps every listing that succeeded, and whatever came of reading the version. So
    the version is asked for at most once, and a scope again only after its listing failed
    (`View.Sparing`). In a run that ends, a scope is asked for more than once exactly when several
    constraints look at it and its first listing fails (`Classification.AsksAgain`); the constraints
    that look at any other scope all go by one answer. -/

namespace FleetLabels

theorem getElem?_concat_eq_some {α : Type} {l : List α} {a b : α} {i : Nat} :
    (l ++ [a])[i]? = some b ↔ l[i]? = some b ∨ i = l.length ∧ a = b := by
  rcases Nat.lt_trichotomy i l.length with hlt | rfl | hgt
  · have hne : i ≠ l.length := by omega
    rw [List.getElem?_append_left hlt]
    simp [hne]
  · simp
  · have hne : i ≠ l.length := by omega
    rw [List.getElem?_eq_none (by simp; omega), List.getElem?_eq_none (by omega)]
    simp [hne]

theorem two_le_count_of_lt {α : Type} [DecidableEq α] {l : List α} {a : α} {i j : Nat} (hij : i < j)
    (hi : l[i]? = some a) (hj : l[j]? = some a) : 1 < l.count a := by
  obtain ⟨hilt, higet⟩ := List.getElem?_eq_some_iff.mp hi
  obtain ⟨hjlt, hjget⟩ := List.getElem?_eq_some_iff.mp hj
  exact List.duplicate_iff_two_le_count.mp (List.duplicate_iff_exists_distinct_get.mpr
    ⟨⟨i, hilt⟩, ⟨j, hjlt⟩, hij, higet.symm, hjget.symm⟩)

/-- What occurs more than once occurs again after its first position. -/
theorem exists_after_idxOf {α : Type} [DecidableEq α] {l : List α} {a : α} (h : 1 < l.count a) :
    l[l.idxOf a]? = some a ∧ ∃ j, l.idxOf a < j ∧ l[j]? = some a := by
  have hmem : a ∈ l := List.count_pos_iff.mp (by omega)
  refine ⟨List.getElem?_idxOf hmem, l.idxOfNth a 1, ?_, ?_⟩
  · rw [← List.idxOfNth_zero]
    exact (List.idxOfNth_lt_idxOfNth_iff_of_lt_count (by omega)).mpr Nat.zero_lt_one
  · rw [List.getElem?_eq_getElem (List.idxOfNth_lt_length_of_lt_count h), List.getElem_idxOfNth_eq]

/-! ### Steps in a row -/

namespace Viewing

variable {α β : Type} {f : α → Viewing β}

/-- A row of steps that ends is its first step and then the row of the others. -/
theorem each_cons_ok {a : α} {rest : List α} {v : View} {bs : List β}
    (h : (each f (a :: rest) v).1 = .ok bs) :
    ∃ b cs, (f a v).1 = .ok b ∧ (each f rest (f a v).2).1 = .ok cs ∧ bs = b :: cs ∧
      (each f (a :: rest) v).2 = (each f rest (f a v).2).2 := by
  rw [each] at h ⊢
  cases hfirst : f a v with
  | mk result w =>
    rw [hfirst] at h
    cases result with
    | error e => cases h
    | ok b =>
      cases hrest : each f rest w with
      | mk results w' =>
        simp only [hrest] at h
        cases results with
        | error e => cases h
        | ok cs =>
          cases h
          exact ⟨b, cs, rfl, rfl, rfl, by simp only [hrest]⟩

/-- What every step keeps, a row of steps keeps, also when it breaks off. -/
theorem each_keeps {I : View → Prop} (hstep : ∀ a v, I v → I (f a v).2) (as : List α) {v : View}
    (hv : I v) : I (each f as v).2 := by
  induction as generalizing v with
  | nil => exact hv
  | cons a rest ih =>
    have hnext := hstep a v hv
    rw [each]
    cases hfirst : f a v with
    | mk result w =>
      rw [hfirst] at hnext
      cases result with
      | error e => exact hnext
      | ok b => exact ih hnext

/-- What relates the items done, their results and the view, and does so again after each step that
    gives a result, does so after a row of steps that ends. -/
theorem each_relates {J : List α → List β → View → Prop}
    (hstep : ∀ as bs v a b, J as bs v → (f a v).1 = .ok b → J (as ++ [a]) (bs ++ [b]) (f a v).2)
    {as : List α} {bs : List β} {v : View} (hbs : (each f as v).1 = .ok bs) {done : List α}
    {given : List β} (hv : J done given v) : J (done ++ as) (given ++ bs) (each f as v).2 := by
  induction as generalizing v bs done given with
  | nil =>
    cases hbs
    rw [List.append_nil, List.append_nil]
    exact hv
  | cons a rest ih =>
    obtain ⟨b, cs, hb, hcs, rfl, hlast⟩ := each_cons_ok hbs
    have h := ih hcs (hstep done given v a b hv hb)
    rw [List.append_assoc, List.append_assoc, List.singleton_append, List.singleton_append] at h
    rwa [hlast]

end Viewing

/-! ### What the view asks for -/

namespace View

variable {src : Source} {v : View}

/-- All that looking a scope up can do: it answers from what is kept, or asks the source and keeps
    what that lists. -/
theorem list_cases (src : Source) (s : Scope) (v : View) :
    (∃ items, v.listings.get? s = some items ∧ v.list src s = (.ok items, v)) ∨
      v.listings.get? s = none ∧
        ((∃ items, src.list v.listCalls.length s = .ok items ∧
            v.list src s = (.ok items, { v with
              listCalls := v.listCalls ++ [s]
              listings := v.listings.set s items })) ∨
          ∃ text, src.list v.listCalls.length s = .error text ∧
            v.list src s = (.error text, { v with listCalls := v.listCalls ++ [s] })) := by
  rw [View.list]
  cases hkept : v.listings.get? s with
  | some items => exact .inl ⟨items, rfl, rfl⟩
  | none =>
    refine .inr ⟨rfl, ?_⟩
    cases hask : src.list v.listCalls.length s with
    | ok items => exact .inl ⟨items, rfl, rfl⟩
    | error text => exact .inr ⟨text, rfl, rfl⟩

theorem list_of_kept {s : Scope} {items : List Listed} (h : v.listings.get? s = some items) :
    v.list src s = (.ok items, v) := by
  rw [View.list, h]

theorem list_of_missing {s : Scope} (h : v.listings.get? s = none) :
    (v.list src s).1 = src.list v.listCalls.length s ∧
      (v.list src s).2.listCalls = v.listCalls ++ [s] := by
  rw [View.list, h]
  cases src.list v.listCalls.length s <;> exact ⟨rfl, rfl⟩

/-- Calls stay where they are. -/
theorem listCalls_list {s t : Scope} {i : Nat} (hi : v.listCalls[i]? = some t) :
    (v.list src s).2.listCalls[i]? = some t := by
  cases hkept : v.listings.get? s with
  | some items =>
    rw [list_of_kept hkept]
    exact hi
  | none =>
    rw [(list_of_missing hkept).2]
    exact getElem?_concat_eq_some.mpr (.inl hi)

/-- A scope that has no listing after a step had none before it. -/
theorem missing_of_list {s t : Scope} (h : (v.list src s).2.listings.get? t = none) :
    v.listings.get? t = none := by
  rcases list_cases src s v with
    ⟨items, -, hstep⟩ | ⟨-, ⟨items, -, hstep⟩ | ⟨text, -, hstep⟩⟩ <;> rw [hstep] at h
  · exact h
  · rw [Table.get?_set] at h
    split at h
    · cases h
    · exact h
  · exact h

/-- A view has asked for a scope again only after its listing failed, and for the version at most
    once. -/
structure Sparing (src : Source) (v : View) : Prop where
  kept : ∀ s items, v.listings.get? s = some items →
    ∃ i, v.listCalls[i]? = some s ∧ src.list i s = .ok items
  missing : ∀ s i, v.listings.get? s = none → v.listCalls[i]? = some s →
    ∃ text, src.list i s = .error text
  again : ∀ s i j, i < j → v.listCalls[i]? = some s → v.listCalls[j]? = some s →
    ∃ text, src.list i s = .error text
  versionOnce : v.versionCalls ≤ 1
  versionUnread : v.version = none → v.versionCalls = 0

theorem fresh_sparing (src : Source) : Sparing src .fresh where
  kept := fun s items h => by simp [fresh] at h
  missing := fun s i _ h => by simp [fresh] at h
  again := fun s i j _ h => by simp [fresh] at h
  versionOnce := Nat.zero_le 1
  versionUnread := fun _ => rfl

/-- Runs of scripts have no part in it. -/
theorem Sparing.ran (h : Sparing src v) (calls : List ScriptCall) :
    Sparing src { v with scriptCalls := calls } :=
  ⟨h.kept, h.missing, h.again, h.versionOnce, h.versionUnread⟩

/-- A scope that is asked for was not asked for before, or failed every time. -/
theorem Sparing.again_of_missing (h : Sparing src v) {s : Scope} (hmissing : v.listings.get? s = none)
    {t : Scope} {i j : Nat} (hij : i < j) (hi : (v.listCalls ++ [s])[i]? = some t)
    (hj : (v.listCalls ++ [s])[j]? = some t) : ∃ text, src.list i t = .error text := by
  rw [getElem?_concat_eq_some] at hi hj
  rcases hj with hj | ⟨rfl, rfl⟩
  · rcases hi with hi | ⟨rfl, rfl⟩
    · exact h.again t i j hij hi hj
    · have := (List.getElem?_eq_some_iff.mp hj).1
      omega
  · rcases hi with hi | ⟨rfl, -⟩
    · exact h.missing s i hmissing hi
    · omega

theorem Sparing.list (h : Sparing src v) (s : Scope) : Sparing src (v.list src s).2 := by
  rcases list_cases src s v with
    ⟨items, -, hstep⟩ | ⟨hmissing, ⟨items, hask, hstep⟩ | ⟨text, hask, hstep⟩⟩
  · rw [hstep]
    exact h
  · rw [hstep]
    refine ⟨fun t found hfound => ?_, fun t i hnone hi => ?_, fun t i j => h.again_of_missing hmissing,
      h.versionOnce, h.versionUnread⟩
    · rw [Table.get?_set] at hfound
      by_cases hst : s = t
      · subst hst
        rw [if_pos rfl] at hfound
        refine ⟨v.listCalls.length, getElem?_concat_eq_some.mpr (.inr ⟨rfl, rfl⟩), ?_⟩
        rw [hask, Option.some.inj hfound]
      · rw [if_neg hst] at hfound
        obtain ⟨i, hi, hlisted⟩ := h.kept t found hfound
        exact ⟨i, getElem?_concat_eq_some.mpr (.inl hi), hlisted⟩
    · rw [Table.get?_set] at hnone
      by_cases hst : s = t
      · rw [if_pos hst] at hnone
        cases hnone
      · rw [if_neg hst] at hnone
        rcases getElem?_concat_eq_some.mp hi with hi | ⟨-, heq⟩
        · exact h.missing t i hnone hi
        · exact absurd heq hst
  · rw [hstep]
    refine ⟨fun t found hfound => ?_, fun t i hnone hi => ?_, fun t i j => h.again_of_missing hmissing,
      h.versionOnce, h.versionUnread⟩
    · obtain ⟨i, hi, hlisted⟩ := h.kept t found hfound
      exact ⟨i, getElem?_concat_eq_some.mpr (.inl hi), hlisted⟩
    · rcases getElem?_concat_eq_some.mp hi with hi | ⟨rfl, rfl⟩
      · exact h.missing t i hnone hi
      · exact ⟨text, hask⟩

theorem Sparing.versionOf (h : Sparing src v) (cluster : Cluster) :
    Sparing src (v.versionOf src cluster).2 := by
  rw [View.versionOf]
  cases hkept : v.version with
  | some answer => exact h
  | none =>
    refine ⟨h.kept, h.missing, h.again, ?_, fun hnone => ?_⟩
    · simp only [h.versionUnread hkept]
      split <;> omega
    · cases hnone

/-- A scope that was looked up is answered by one of the calls for it. -/
theorem Sparing.answer (h : Sparing src v) (s : Scope) :
    ∃ i, (v.list src s).2.listCalls[i]? = some s ∧ (v.list src s).1 = src.list i s := by
  cases hkept : v.listings.get? s with
  | some items =>
    obtain ⟨i, hi, hlisted⟩ := h.kept s items hkept
    rw [list_of_kept hkept]
    exact ⟨i, hi, hlisted.symm⟩
  | none =>
    obtain ⟨hresult, hcalls⟩ := @list_of_missing src v s hkept
    rw [hcalls]
    exact ⟨v.listCalls.length, getElem?_concat_eq_some.mpr (.inr ⟨rfl, rfl⟩), hresult⟩

/-! ### How often it asks -/

/-- How the calls of a view relate to the scopes that were looked up: a scope without a listing was
    asked for every time, and where no listing fails each was asked for when it first came up. -/
structure Counted (src : Source) (ss : List Scope) (v : View) : Prop where
  atMost : ∀ s, v.listCalls.count s ≤ ss.count s
  missing : ∀ s, v.listings.get? s = none → v.listCalls.count s = ss.count s
  distinct : (∀ s ∈ ss, ∀ i text, src.list i s ≠ .error text) → v.listCalls = ss.eraseDups

theorem fresh_counted (src : Source) : Counted src [] .fresh where
  atMost := fun _ => Nat.le_refl 0
  missing := fun _ _ => rfl
  distinct := fun _ => rfl

/-- What is looked up again adds nothing to what was looked up once. -/
theorem eraseDups_concat (ss : List Scope) (s : Scope) :
    (ss ++ [s]).eraseDups = if s ∈ ss then ss.eraseDups else ss.eraseDups ++ [s] := by
  rw [List.eraseDups_append]
  split <;> simp_all [List.removeAll, List.eraseDups_cons]

theorem Counted.list {ss : List Scope} (h : Counted src ss v) (hv : Sparing src v) (s : Scope) :
    Counted src (ss ++ [s]) (v.list src s).2 := by
  cases hkept : v.listings.get? s with
  | some items =>
    rw [list_of_kept hkept]
    refine ⟨fun t => ?_, fun t hnone => ?_, fun hsound => ?_⟩
    · rw [List.count_append]
      exact Nat.le_add_right_of_le (h.atMost t)
    · have hst : s ≠ t := by
        rintro rfl
        rw [hkept] at hnone
        cases hnone
      rw [List.count_append, List.count_singleton, h.missing t hnone]
      simp [hst]
    · have hcalls := h.distinct fun t ht => hsound t (List.mem_append_left [s] ht)
      obtain ⟨i, hi, -⟩ := hv.kept s items hkept
      have hmem : s ∈ ss := by
        rw [← List.mem_eraseDups, ← hcalls]
        exact List.mem_of_getElem? hi
      rw [eraseDups_concat, if_pos hmem, hcalls]
  | none =>
    obtain ⟨-, hcalls⟩ := @list_of_missing src v s hkept
    refine ⟨fun t => ?_, fun t hnone => ?_, fun hsound => ?_⟩
    · rw [hcalls, List.count_append, List.count_append]
      exact Nat.add_le_add_right (h.atMost t) _
    · rw [hcalls, List.count_append, List.count_append, h.missing t (missing_of_list hnone)]
    · have hdistinct := h.distinct fun t ht => hsound t (List.mem_append_left [s] ht)
      have hnew : s ∉ ss := by
        rw [← List.mem_eraseDups, ← hdistinct]
        intro hmem
        obtain ⟨i, hi⟩ := List.mem_iff_getElem?.mp hmem
        obtain ⟨text, hfail⟩ := hv.missing s i hkept hi
        exact hsound s (List.mem_append_right ss List.mem_cons_self) i text hfail
      rw [hcalls, eraseDups_concat, if_neg hnew, hdistinct]

/-- Several of the scopes that were looked up are this one, and its first listing failed. -/
def AsksAgain (src : Source) (ss : List Scope) (v : View) (s : Scope) : Prop :=
  1 < ss.count s ∧ ∃ text, src.list (v.listCalls.idxOf s) s = .error text

/-- A scope is asked for more than once exactly when several constraints look at it and its first
    listing fails. -/
theorem Counted.one_lt_count_iff {ss : List Scope} (h : Counted src ss v) (hv : Sparing src v)
    (s : Scope) : 1 < v.listCalls.count s ↔ AsksAgain src ss v s := by
  constructor
  · intro hcount
    obtain ⟨hfirst, j, hj, hagain⟩ := exists_after_idxOf hcount
    exact ⟨hcount.trans_le (h.atMost s), hv.again s _ j hj hfirst hagain⟩
  · rintro ⟨hseveral, text, hfail⟩
    cases hkept : v.listings.get? s with
    | none =>
      rw [h.missing s hkept]
      exact hseveral
    | some items =>
      -- the listing that is kept is not the first, which failed
      obtain ⟨i, hi, hlisted⟩ := hv.kept s items hkept
      have hmem : s ∈ v.listCalls := List.mem_of_getElem? hi
      rcases Nat.lt_trichotomy (v.listCalls.idxOf s) i with hlt | heq | hgt
      · exact two_le_count_of_lt hlt (List.getElem?_idxOf hmem) hi
      · rw [heq, hlisted] at hfail
        cases hfail
      · exact two_le_count_of_lt hgt hi (List.getElem?_idxOf hmem)

end View

namespace Classification

variable {e : Evaluator} {src : Source} {cluster : Cluster} {v : View}

/-- All that evaluating a constraint does to the view is to look its scope up and to run scripts. -/
theorem evaluateConstraint_view (e : Evaluator) (src : Source) (cluster : Cluster)
    (d : Constraint) (v : View) :
    ∃ calls, (evaluateConstraint e src cluster d v).2 =
      { (v.list src d.scope).2 with scriptCalls := calls } := by
  rw [evaluateConstraint]
  cases v.list src d.scope with
  | mk result w =>
    cases result with
    | error text => exact ⟨w.scriptCalls, rfl⟩
    | ok items =>
      cases heval : e.evaluate d items with
      | error a => exact ⟨w.scriptCalls, by simp only [heval]⟩
      | ok out => exact ⟨w.scriptCalls ++ out.2, by simp only [heval]⟩

theorem evaluateConstraint_sparing (d : Constraint) (hv : v.Sparing src) :
    (evaluateConstraint e src cluster d v).2.Sparing src := by
  obtain ⟨calls, hview⟩ := evaluateConstraint_view e src cluster d v
  rw [hview]
  exact (hv.list d.scope).ran calls

theorem evaluateRequirements_sparing (qs : List Requirement) (hv : v.Sparing src) :
    (evaluateRequirements src cluster qs v).2.Sparing src := by
  have hnext := hv.versionOf cluster
  rw [evaluateRequirements]
  split
  · exact hv
  · cases hstep : v.versionOf src cluster with
    | mk result w =>
      rw [hstep] at hnext
      cases result <;> exact hnext

theorem classifyIn_sparing (c : Classifier) (hv : v.Sparing src) :
    (classifyIn e src cluster c v).2.Sparing src := by
  have hnext := Viewing.each_keeps (f := evaluateConstraint e src cluster)
    (fun d _ => evaluateConstraint_sparing d) c.constraints hv
  rw [classifyIn]
  cases hstep : Viewing.each (evaluateConstraint e src cluster) c.constraints v with
  | mk result w =>
    rw [hstep] at hnext
    cases result with
    | error a => exact hnext
    | ok results => exact evaluateRequirements_sparing c.requirements hnext

/-- Whatever the source answers, and whether or not the run breaks off, it asks sparingly. -/
theorem classifyAll_sparing (e : Evaluator) (src : Source) (cluster : Cluster)
    (cs : List Classifier) : (classifyAll e src cluster cs).2.Sparing src :=
  Viewing.each_keeps (fun c _ => classifyIn_sparing c) cs (View.fresh_sparing src)

/-! ### What the results go by -/

/-- A constraint's result is what an answer to listing its scope leads to. -/
def Follows (e : Evaluator) (cluster : Cluster) (x : ConstraintResult) :
    Except String (List Listed) → Prop
  | .error text => x = .failed x.constraint (.listing x.constraint.describe cluster.key text)
  | .ok items => ∃ calls, e.evaluate x.constraint items = .ok (x, calls)

theorem follows_of_evaluateConstraint {d : Constraint} {x : ConstraintResult}
    (h : (evaluateConstraint e src cluster d v).1 = .ok x) :
    x.constraint = d ∧ Follows e cluster x (v.list src d.scope).1 := by
  have hconstraint : x.constraint = d := by
    rcases evaluateConstraint_ok h with ⟨n, rfl⟩ | ⟨f, rfl⟩ <;> rfl
  refine ⟨hconstraint, ?_⟩
  rw [evaluateConstraint] at h
  cases hstep : v.list src d.scope with
  | mk result w =>
    rw [hstep] at h
    cases result with
    | error text =>
      cases h
      rfl
    | ok items =>
      cases heval : e.evaluate d items with
      | error a =>
        simp only [heval] at h
        cases h
      | ok out =>
        simp only [heval] at h
        cases h
        exact ⟨out.2, by rw [hconstraint, heval]⟩

/-- After some constraints were evaluated: the view asked sparingly, what it asked for is counted by
    their scopes, and each result follows from the answer to a call for its scope. -/
structure Evaluated (e : Evaluator) (src : Source) (cluster : Cluster) (ds : List Constraint)
    (xs : List ConstraintResult) (v : View) : Prop where
  sparing : v.Sparing src
  counted : v.Counted src (ds.map Constraint.scope)
  follows : ∀ x ∈ xs, ∃ i, v.listCalls[i]? = some x.constraint.scope ∧
    Follows e cluster x (src.list i x.constraint.scope)

theorem evaluateConstraint_evaluated {ds : List Constraint} {xs : List ConstraintResult}
    {d : Constraint} {x : ConstraintResult} (hv : Evaluated e src cluster ds xs v)
    (h : (evaluateConstraint e src cluster d v).1 = .ok x) :
    Evaluated e src cluster (ds ++ [d]) (xs ++ [x]) (evaluateConstraint e src cluster d v).2 := by
  obtain ⟨calls, hview⟩ := evaluateConstraint_view e src cluster d v
  obtain ⟨hconstraint, hfollows⟩ := follows_of_evaluateConstraint h
  have hcounted := hv.counted.list hv.sparing d.scope
  rw [hview]
  refine ⟨(hv.sparing.list d.scope).ran calls, ?_, fun y hy => ?_⟩
  · rw [List.map_append, List.map_singleton]
    exact ⟨hcounted.atMost, hcounted.missing, hcounted.distinct⟩
  · rcases List.mem_append.mp hy with hy | hy
    · obtain ⟨i, hi, hfollowsy⟩ := hv.follows y hy
      exact ⟨i, View.listCalls_list hi, hfollowsy⟩
    · obtain rfl := List.mem_singleton.mp hy
      obtain ⟨i, hi, hanswer⟩ := hv.sparing.answer d.scope
      rw [hconstraint]
      exact ⟨i, hi, hanswer ▸ hfollows⟩

/-- Requirements look no scope up. -/
theorem evaluateRequirements_evaluated {ds : List Constraint} {xs : List ConstraintResult}
    (hv : Evaluated e src cluster ds xs v) (qs : List Requirement) :
    Evaluated e src cluster ds xs (evaluateRequirements src cluster qs v).2 := by
  have hlistings : (evaluateRequirements src cluster qs v).2.listings = v.listings ∧
      (evaluateRequirements src cluster qs v).2.listCalls = v.listCalls := by
    rw [evaluateRequirements]
    split
    · exact ⟨rfl, rfl⟩
    · rw [View.versionOf]
      cases v.version with
      | some answer => cases answer <;> exact ⟨rfl, rfl⟩
      | none => cases View.readVersion src cluster <;> exact ⟨rfl, rfl⟩
  obtain ⟨hkept, hcalls⟩ := hlistings
  refine ⟨evaluateRequirements_sparing qs hv.sparing, ⟨?_, ?_, ?_⟩, ?_⟩
  · rw [hcalls]
    exact hv.counted.atMost
  · rw [hcalls, hkept]
    exact hv.counted.missing
  · rw [hcalls]
    exact hv.counted.distinct
  · rw [hcalls]
    exact hv.follows

theorem classifyIn_evaluated {ds : List Constraint} {xs : List ConstraintResult} {c : Classifier}
    {r : Classification} (hv : Evaluated e src cluster ds xs v)
    (h : (classifyIn e src cluster c v).1 = .ok r) :
    Evaluated e src cluster (ds ++ c.constraints) (xs ++ r.constraints)
      (classifyIn e src cluster c v).2 := by
  rw [classifyIn] at h ⊢
  cases hstep : Viewing.each (evaluateConstraint e src cluster) c.constraints v with
  | mk result w =>
    rw [hstep] at h
    cases result with
    | error a => cases h
    | ok results =>
      cases h
      have hnext := Viewing.each_relates (J := Evaluated e src cluster)
        (fun _ _ _ _ _ hv hx => evaluateConstraint_evaluated hv hx) (congrArg Prod.fst hstep) hv
      rw [hstep] at hnext
      exact evaluateRequirements_evaluated hnext c.requirements

/-- A run that ends has evaluated all constraints of all classifiers. -/
theorem classifyAll_evaluated {cs : List Classifier} {rs : List Classification}
    (h : (classifyAll e src cluster cs).1 = .ok rs) :
    Evaluated e src cluster (cs.flatMap Classifier.constraints)
      (rs.flatMap Classification.constraints) (classifyAll e src cluster cs).2 := by
  have hfresh : Evaluated e src cluster (List.flatMap Classifier.constraints [])
      (List.flatMap Classification.constraints []) .fresh :=
    ⟨View.fresh_sparing src, View.fresh_counted src, fun x hx => absurd hx List.not_mem_nil⟩
  refine Viewing.each_relates (J := fun cs rs v => Evaluated e src cluster
    (cs.flatMap Classifier.constraints) (rs.flatMap Classification.constraints) v) ?_ h hfresh
  intro done given v c r hv hr
  rw [List.flatMap_append, List.flatMap_append, List.flatMap_singleton, List.flatMap_singleton]
  exact classifyIn_evaluated hv hr

/-- The scopes that the constraints of classifiers look at, one for each constraint. -/
def scopesOf (cs : List Classifier) : List Scope :=
  (cs.flatMap Classifier.constraints).map Constraint.scope

/-- A run asks for the version at most once, and for a scope again only after its listing failed. When
    it ends, it has asked for a scope more than once exactly when several constraints look at that
    scope and its first listing failed. All constraints on any other scope go by one answer. -/
theorem classifyAll_asks_again_only_after_failure (e : Evaluator) (src : Source)
    (cluster : Cluster) (cs : List Classifier) :
    let v := (classifyAll e src cluster cs).2
    v.versionCalls ≤ 1 ∧
      (∀ s i j, i < j → v.listCalls[i]? = some s → v.listCalls[j]? = some s →
        ∃ text, src.list i s = .error text) ∧
      ∀ rs, (classifyAll e src cluster cs).1 = .ok rs → ∀ s,
        (v.listCalls.count s ≤ 1 ↔ ¬ v.AsksAgain src (scopesOf cs) s) ∧
        (¬ v.AsksAgain src (scopesOf cs) s → ∃ i, ∀ r ∈ rs, ∀ x ∈ r.constraints,
          x.constraint.scope = s → v.listCalls[i]? = some s ∧ Follows e cluster x (src.list i s)) := by
  intro v
  have hsparing := classifyAll_sparing e src cluster cs
  refine ⟨hsparing.versionOnce, hsparing.again, fun rs hrs s => ?_⟩
  have hrun := classifyAll_evaluated hrs
  have honce : v.listCalls.count s ≤ 1 ↔ ¬ v.AsksAgain src (scopesOf cs) s := by
    rw [← Nat.not_lt, hrun.counted.one_lt_count_iff hsparing]
    rfl
  refine ⟨honce, fun hagain => ⟨v.listCalls.idxOf s, fun r hr x hx hscope => ?_⟩⟩
  obtain ⟨i, hi, hfollows⟩ := hrun.follows x (List.mem_flatMap.mpr ⟨r, hr, hx⟩)
  rw [hscope] at hi hfollows
  have hfirst := List.getElem?_idxOf (List.mem_of_getElem? hi)
  -- a scope that was asked for once was asked for by one call
  obtain rfl : i = v.listCalls.idxOf s := by
    by_contra hne
    rcases Nat.lt_or_gt_of_ne hne with hlt | hgt
    · exact absurd (two_le_count_of_lt hlt hi hfirst) (Nat.not_lt.mpr (honce.mpr hagain))
    · exact absurd (two_le_count_of_lt hgt hfirst hi) (Nat.not_lt.mpr (honce.mpr hagain))
  exact ⟨hi, hfollows⟩

end Classification

/-! ### Listings that fail -/

namespace Sample

def twin : Classifier := { probe with name := "twin" }

def pods : Scope := ⟨"", "v1", "Pod", ""⟩

def services : Scope := ⟨"", "v1", "Service", ""⟩

/-- Looks at pods and services. -/
def gate (name : String) : Classifier :=
  ⟨name, [], [pods, services].map fun s => ⟨s, [], [], some 0, none, ""⟩, [], none, none,
    List.nodup_nil⟩

/-- Nothing can be listed. -/
def unlisted : Source := ⟨fun _ _ => .error "boom", none⟩

/-- Nothing can be listed at first. -/
def wavering : Source := ⟨fun n _ => if n = 0 then .error "boom" else .ok [], none⟩

/-- Services cannot be listed. -/
def unserved : Source := ⟨fun _ s => if s = services then .error "boom" else .ok [], none⟩

end Sample

open Sample in
/-- Two constraints on one scope ask for it twice when it cannot be listed, and need not see the same. -/
theorem pods_asked_for_twice :
    (Classification.classifyAll engine.evaluator unlisted north [probe, twin]).2.listCalls =
      [pods, pods] ∧
    ∃ r t, (Classification.classifyAll engine.evaluator wavering north
        [gate "gate", gate "lock"]).1 = .ok [r, t] ∧
      r.constraints.map (·.satisfied) = [false, true] ∧
      t.constraints.map (·.satisfied) = [true, true] :=
  ⟨rfl, _, _, rfl, rfl, rfl⟩

open Sample in
/-- Of two scopes that two classifiers look at, the one that can be listed is asked for once. -/
theorem services_asked_for_again :
    let v := (Classification.classifyAll engine.evaluator unserved north
      [gate "gate", gate "lock"]).2
    v.listCalls.count pods ≤ 1 ∧ ¬ v.listCalls.count services ≤ 1 := by
  intro v
  obtain ⟨-, -, hrun⟩ := Classification.classifyAll_asks_again_only_after_failure engine.evaluator
    unserved north [gate "gate", gate "lock"]
  refine ⟨(hrun _ rfl pods).1.mpr ?_, fun honce => (hrun _ rfl services).1.mp honce ?_⟩
  · rintro ⟨-, text, hfail⟩
    cases hfail
  · exact ⟨by decide, "boom", rfl⟩

end FleetLabels
