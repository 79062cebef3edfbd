import FleetLabels.Proofs.Matches
import Mathlib.Data.List.Sort

/-!
    Filters that exclude each other.

    A filter states a value for a label or a field (`Criterion`), and asks for it or against it. Every
    resource passes one of the two filters and not the other, also where the label or the field is missing:
    no label passes the filter against every value, and a missing field reads as the empty text. So the
    matches of a constraint go to the two constraints that have one more filter, each match to one of them
    (`Evaluator.equal_and_different_split`). Since a resource may be listed more than once, this is said of
    positions in the listing. -/

namespace FleetLabels

/-! ### Criteria -/

/-- What a filter looks at, with the value that it states. -/
inductive Criterion where
  | label (key value : String)
  | field (path value : String)

namespace Criterion

/-- A resource passes the filter that has the criterion and an operation. -/
def Passes (q : Criterion) (o : Operation) (r : Resource) : Prop :=
  match q with
  | label key value => LabelFilter.Passes ⟨key, o, value⟩ r
  | field path value => FieldFilter.Passes ⟨path, o, value⟩ r

/-- A label can always be filtered by, and a field when it is supported. -/
def Supported (q : Criterion) (fields : List String) : Prop :=
  match q with
  | label _ _ => True
  | field path _ => path ∈ fields

theorem passes_different_iff {q : Criterion} {r : Resource} :
    q.Passes .different r ↔ ¬ q.Passes .equal r := by
  cases q <;> exact Iff.rfl

end Criterion

theorem forall_mem_inserted {α : Type} {p : α → Prop} {pre post : List α} {a : α} :
    (∀ b ∈ pre ++ a :: post, p b) ↔ (∀ b ∈ pre ++ post, p b) ∧ p a := by
  rw [List.forall_mem_append, List.forall_mem_cons, List.forall_mem_append, and_left_comm, and_comm]

namespace Constraint

theorem candidate_iff_forall {c : Constraint} {r : Resource} :
    c.Candidate r ↔ r.scope = c.scope ∧ (∀ f ∈ c.labelFilters, f.Passes r) ∧
      ∀ f ∈ c.fieldFilters, f.Passes r := by
  rw [← candidate_iff]
  simp only [Bool.and_eq_true, beq_iff_eq, List.all_eq_true, LabelFilter.accepts_iff,
    FieldFilter.accepts_iff]

/-- A constraint with one more filter, which stands anywhere among those of its sort. -/
inductive Narrowed (c : Constraint) (o : Operation) : Criterion → Constraint → Prop where
  | label {key value : String} {pre post : List LabelFilter} (h : c.labelFilters = pre ++ post) :
      Narrowed c o (.label key value) { c with labelFilters := pre ++ ⟨key, o, value⟩ :: post }
  | field {path value : String} {pre post : List FieldFilter} (h : c.fieldFilters = pre ++ post) :
      Narrowed c o (.field path value) { c with fieldFilters := pre ++ ⟨path, o, value⟩ :: post }

namespace Narrowed

variable {c d : Constraint} {o : Operation} {q : Criterion} {r : Resource}

theorem scope_eq (h : c.Narrowed o q d) : d.scope = c.scope := by
  cases h <;> rfl

theorem script_eq (h : c.Narrowed o q d) : d.script = c.script := by
  cases h <;> rfl

/-- The candidates that are left are those that pass the new filter too. -/
theorem candidate_iff (h : c.Narrowed o q d) : d.Candidate r ↔ c.Candidate r ∧ q.Passes o r := by
  rw [candidate_iff_forall, candidate_iff_forall]
  cases h with
  | label hfilters =>
    rw [forall_mem_inserted, ← hfilters]
    constructor
    · rintro ⟨hscope, ⟨hlabels, hpasses⟩, hfields⟩
      exact ⟨⟨hscope, hlabels, hfields⟩, hpasses⟩
    · rintro ⟨⟨hscope, hlabels, hfields⟩, hpasses⟩
      exact ⟨hscope, ⟨hlabels, hpasses⟩, hfields⟩
  | field hfilters =>
    rw [forall_mem_inserted, ← hfilters]
    constructor
    · rintro ⟨hscope, hlabels, hfields, hpasses⟩
      exact ⟨⟨hscope, hlabels, hfields⟩, hpasses⟩
    · rintro ⟨⟨hscope, hlabels, hfields⟩, hpasses⟩
      exact ⟨hscope, hlabels, hfields, hpasses⟩

/-- The new filter needs a supported field, if it looks at one. -/
theorem supports {e : Evaluator} (h : c.Narrowed o q d) (hc : e.Supports c)
    (hq : q.Supported (e.supportedFields c.scope)) : e.Supports d := by
  cases h with
  | label hfilters => exact hc
  | field hfilters =>
    rw [Evaluator.Supports, hfilters] at hc
    exact forall_mem_inserted.mpr ⟨hc, hq⟩

theorem accepts_iff {e : Evaluator} (h : c.Narrowed o q d) : e.Accepts d r ↔ e.Accepts c r := by
  rw [Evaluator.Accepts, Evaluator.Accepts, h.script_eq]

/-- The script has fewer candidates to judge. -/
theorem decided {e : Evaluator} {rs : List Resource} (h : c.Narrowed o q d) (hc : e.Decided c rs)
    (hq : q.Supported (e.supportedFields c.scope)) : e.Decided d rs where
  fields := h.supports hc.fields hq
  script hscript r hr := by
    obtain ⟨hmem, hd⟩ := List.mem_filter.mp hr
    obtain ⟨hcandidate, -⟩ := h.candidate_iff.mp (of_decide_eq_true hd)
    rw [h.script_eq] at hscript ⊢
    exact hc.script hscript r (List.mem_filter.mpr ⟨hmem, decide_eq_true hcandidate⟩)

end Narrowed

end Constraint

/-! ### Positions -/

/-- What stands at the positions where a list has a property are its members with the property. -/
theorem filterMap_findIdxs {α : Type} (p : α → Bool) (xs : List α) :
    ((xs.findIdxs p).filterMap fun i => xs[i]?) = xs.filter p := by
  -- positions count from the front, so the list grows at its end
  suffices h : ∀ pre : List α,
      ((xs.findIdxs p pre.length).filterMap fun i => (pre ++ xs)[i]?) = xs.filter p from h []
  induction xs with
  | nil => exact fun _ => rfl
  | cons x rest ih =>
    intro pre
    have hrest := ih (pre ++ [x])
    rw [List.append_assoc, List.singleton_append, List.length_append, List.length_singleton] at hrest
    have hx : (pre ++ x :: rest)[pre.length]? = some x := by simp
    rw [List.findIdxs_cons, List.filter_cons]
    split
    · rw [List.filterMap_cons, hx, hrest]
    · exact hrest

namespace Evaluator

variable {e : Evaluator} {c d d' : Constraint} {rs : List Resource} {ps es ds : List Nat}
  {q : Criterion}

/-- The positions of what a constraint matches in a listing: they are those of the candidates that it
    accepts, in order. It selects what stands there, and counts as much. -/
structure MatchesAt (e : Evaluator) (c : Constraint) (rs : List Resource) (ps : List Nat) : Prop where
  ordered : ps.Pairwise (· < ·)
  mem_iff : ∀ i, i ∈ ps ↔ ∃ r, rs[i]? = some r ∧ c.Candidate r ∧ e.Accepts c r
  selected : ∃ calls,
    e.select c (rs.map .resource) = .ok ⟨.ok (ps.filterMap fun i => rs[i]?), calls⟩
  counted : ∃ x calls, e.evaluate c (rs.map .resource) = .ok (x, calls) ∧ x.fault = none ∧
    x.count = ps.length

theorem exists_matchesAt (h : e.Decided c rs) : ∃ ps, e.MatchesAt c rs ps := by
  have hmatches : e.matchesIn c rs = rs.filter fun r => c.Candidate r ∧ e.Accepts c r := by
    rw [matchesIn, Constraint.candidatesIn, List.filter_filter]
    refine List.filter_congr fun r _ => ?_
    rw [Bool.decide_and, Bool.and_comm]
  refine ⟨rs.findIdxs fun r => c.Candidate r ∧ e.Accepts c r, List.pairwise_findIdxs,
    fun i => ?_, ?_, ?_⟩
  · rw [List.mem_findIdxs_iff_exists_getElem_pos]
    simp only [decide_eq_true_eq, List.getElem?_eq_some_iff]
    constructor
    · rintro ⟨hi, hr⟩
      exact ⟨rs[i], ⟨hi, rfl⟩, hr⟩
    · rintro ⟨r, ⟨hi, rfl⟩, hr⟩
      exact ⟨hi, hr⟩
  · rw [filterMap_findIdxs, ← hmatches]
    exact ⟨_, select_of_decided h⟩
  · refine ⟨_, _, evaluate_of_decided h, rfl, ?_⟩
    rw [List.length_findIdxs, List.countP_eq_length_filter, ← hmatches]
    rfl

/-- With a filter for a value and with the filter against it a constraint matches at some of its
    positions. -/
theorem MatchesAt.mem_narrowed_iff {o : Operation} (h : c.Narrowed o q d) (hd : e.MatchesAt d rs ds)
    (i : Nat) : i ∈ ds ↔ ∃ r, rs[i]? = some r ∧ (c.Candidate r ∧ e.Accepts c r) ∧ q.Passes o r := by
  rw [hd.mem_iff]
  refine exists_congr fun r => and_congr_right fun _ => ?_
  rw [h.candidate_iff, h.accepts_iff, and_right_comm]

/-- Ordered positions without a common one are merged into those that are in one or the other. -/
theorem merge_eq_of_mem_iff (hps : ps.Pairwise (· < ·)) (hes : es.Pairwise (· < ·))
    (hds : ds.Pairwise (· < ·)) (hdisjoint : es.Disjoint ds)
    (hmem : ∀ i, i ∈ ps ↔ i ∈ es ∨ i ∈ ds) : es.merge ds = ps := by
  have hnodup : (es ++ ds).Nodup :=
    List.Nodup.append (hes.imp Nat.ne_of_lt) (hds.imp Nat.ne_of_lt) hdisjoint
  have hperm : (es ++ ds).Perm ps := by
    rw [List.perm_ext_iff_of_nodup hnodup (hps.imp Nat.ne_of_lt)]
    intro i
    rw [List.mem_append, hmem]
  have hmerged : (es.merge ds).Pairwise (· ≤ ·) :=
    (hes.imp Nat.le_of_lt).merge (hds.imp Nat.le_of_lt)
  exact List.Perm.eq_of_pairwise (fun _ _ _ _ => Nat.le_antisymm) hmerged (hps.imp Nat.le_of_lt)
    ((List.merge_perm_append _).trans hperm)

/-- Where nothing stands in the way of a count, one more filter that asks for a value and one that asks
    against it split the matches of a constraint: no position is matched with both, the positions matched
    with either are those matched without, and the counts add up. -/
theorem equal_and_different_split (hc : e.Decided c rs)
    (hq : q.Supported (e.supportedFields c.scope)) (hsame : c.Narrowed .equal q d)
    (hother : c.Narrowed .different q d') :
    ∃ ps es ds, e.MatchesAt c rs ps ∧ e.MatchesAt d rs es ∧ e.MatchesAt d' rs ds ∧
      es.Disjoint ds ∧ es.merge ds = ps ∧ es.length + ds.length = ps.length := by
  obtain ⟨ps, hps⟩ := exists_matchesAt hc
  obtain ⟨es, hes⟩ := exists_matchesAt (hsame.decided hc hq)
  obtain ⟨ds, hds⟩ := exists_matchesAt (hother.decided hc hq)
  have hdisjoint : es.Disjoint ds := by
    intro i hi hi'
    obtain ⟨r, hr, -, hpasses⟩ := (hes.mem_narrowed_iff hsame i).mp hi
    obtain ⟨r', hr', -, hpasses'⟩ := (hds.mem_narrowed_iff hother i).mp hi'
    obtain rfl : r = r' := Option.some.inj (hr.symm.trans hr')
    exact Criterion.passes_different_iff.mp hpasses' hpasses
  have hmem : ∀ i, i ∈ ps ↔ i ∈ es ∨ i ∈ ds := by
    intro i
    rw [hps.mem_iff, hes.mem_narrowed_iff hsame, hds.mem_narrowed_iff hother, ← exists_or]
    refine exists_congr fun r => ?_
    rw [← and_or_left, ← and_or_left, Criterion.passes_different_iff, and_iff_left (Classical.em _)]
  have hmerge := merge_eq_of_mem_iff hps.ordered hes.ordered hds.ordered hdisjoint hmem
  refine ⟨ps, es, ds, hps, hes, hds, hdisjoint, hmerge, ?_⟩
  rw [← hmerge, List.length_merge]

end Evaluator

namespace Sample

/-- Pods of a team, of no team, and of another one. -/
def teamPods : List Resource :=
  [pod "own" [("team", "core")], pod "stray" [], pod "other" [("team", "web")]]

/-- `probed` with a filter by team. -/
def probedFor (o : Operation) : Constraint := { probed with labelFilters := [⟨"team", o, "core"⟩] }

end Sample

open Sample in
/-- Of three pods that a script accepts, one is asked for by its team, and of the other two, which are
    found by asking against it, one has no team. -/
theorem team_pods_split :
    Evaluator.Decided ⟨.builtin, some prober⟩ probed teamPods ∧
      probed.Narrowed .equal (.label "team" "core") (probedFor .equal) ∧
      probed.Narrowed .different (.label "team" "core") (probedFor .different) ∧
      ∃ ps es ds, Evaluator.MatchesAt ⟨.builtin, some prober⟩ probed teamPods ps ∧
        Evaluator.MatchesAt ⟨.builtin, some prober⟩ (probedFor .equal) teamPods es ∧
        Evaluator.MatchesAt ⟨.builtin, some prober⟩ (probedFor .different) teamPods ds ∧
        0 ∈ es ∧ 1 ∈ ds ∧ 2 ∈ ds ∧ es.merge ds = ps ∧ es.length + ds.length = ps.length := by
  have hdecided : Evaluator.Decided ⟨.builtin, some prober⟩ probed teamPods := by
    refine ⟨fun f hf => absurd hf List.not_mem_nil, fun _ r hr => ⟨true, ?_⟩⟩
    have hall : ∀ r ∈ teamPods, Script.Judges "probe" r (some prober) (.ok true) := by decide
    exact hall r (List.mem_of_mem_filter hr)
  have hsame : probed.Narrowed .equal (.label "team" "core") (probedFor .equal) :=
    @Constraint.Narrowed.label _ _ "team" "core" [] [] rfl
  have hother : probed.Narrowed .different (.label "team" "core") (probedFor .different) :=
    @Constraint.Narrowed.label _ _ "team" "core" [] [] rfl
  obtain ⟨ps, es, ds, hps, hes, hds, -, hmerge, hlength⟩ :=
    Evaluator.equal_and_different_split (q := .label "team" "core") hdecided trivial hsame hother
  refine ⟨hdecided, hsame, hother, ps, es, ds, hps, hes, hds, ?_, ?_, ?_, hmerge, hlength⟩
  · exact (hes.mem_iff 0).mpr ⟨_, rfl, by decide, by decide⟩
  · exact (hds.mem_iff 1).mpr ⟨_, rfl, by decide, by decide⟩
  · exact (hds.mem_iff 2).mpr ⟨_, rfl, by decide, by decide⟩

end FleetLabels
