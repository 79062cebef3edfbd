import Mathlib.Algebra.GroupWithZero.Nat
import Mathlib.Data.List.Basic

/-!
    Runs: what a state shows after one step for each member of a list.

    When each step adds to a number that the state shows, the run adds the sum of what its steps add.
    When each step may put something new in the place of what the state shows, the run leaves the last
    new thing that came. -/

namespace FleetLabels

variable {σ α β : Type} {step : σ → α → σ}

/-- What a number grows by in a run is the sum of what it grows by in each step. -/
theorem foldl_sum {f : σ → Nat} {weight : α → Nat} (h : ∀ s a, f (step s a) = f s + weight a) (s : σ)
    (as : List α) : f (as.foldl step s) = f s + (as.map weight).sum := by
  induction as generalizing s with
  | nil => rfl
  | cons a rest ih => rw [List.foldl_cons, ih, h, List.map_cons, List.sum_cons, Nat.add_assoc]

/-- A sum to which only some members add is the sum over those. -/
theorem sum_map_filter (p : α → Prop) [DecidablePred p] (weight : α → Nat) (as : List α) :
    (as.map fun a => if p a then weight a else 0).sum = ((as.filter p).map weight).sum := by
  induction as with
  | nil => rfl
  | cons a rest ih =>
    rw [List.map_cons, List.sum_cons, ih, List.filter_cons]
    by_cases hp : p a
    · rw [if_pos hp, if_pos (decide_eq_true hp), List.map_cons, List.sum_cons]
    · rw [if_neg hp, if_neg (by simp [hp]), Nat.zero_add]

theorem sum_map_indicator (p : α → Prop) [DecidablePred p] (as : List α) :
    (as.map fun a => if p a then 1 else 0).sum = as.countP p := by
  rw [sum_map_filter, List.map_const', List.sum_replicate_nat, Nat.mul_one,
    List.countP_eq_length_filter]

/-- What is replaced whenever a step has something new ends as the last new thing. -/
theorem foldl_latest {f : σ → Option β} {g : α → Option β} (h : ∀ s a, f (step s a) = (g a).or (f s))
    (s : σ) (as : List α) : f (as.foldl step s) = (as.filterMap g).getLast?.or (f s) := by
  induction as generalizing s with
  | nil => rfl
  | cons a rest ih =>
    rw [List.foldl_cons, ih, h]
    cases hg : g a with
    | none => rw [List.filterMap_cons_none hg]; rfl
    | some b =>
      rw [List.filterMap_cons_some hg, List.getLast?_cons]
      cases (rest.filterMap g).getLast? <;> rfl

/-- The same of something that is always there. -/
theorem foldl_latestD {f : σ → β} {g : α → Option β} (h : ∀ s a, f (step s a) = (g a).getD (f s))
    (s : σ) (as : List α) : f (as.foldl step s) = (as.filterMap g).getLast?.getD (f s) := by
  have hstep : ∀ s a, some (f (step s a)) = (g a).or (some (f s)) := by
    intro s a
    rw [h, Option.or_some]
  have hrun := foldl_latest (f := fun s => some (f s)) hstep s as
  rw [Option.or_some] at hrun
  exact Option.some.inj hrun

end FleetLabels
