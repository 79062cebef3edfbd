/-!
    Splitting text at a separator.

    `split` cuts at every separator and `splitFirst?` at the first. What they cut, put together with
    the separators again, is the text: `intercalate_split` and `splitFirst?_eq_some_iff`. Pieces that
    hold no separator are what is cut of the text they make up: `split_intercalate`. -/

namespace FleetLabels.Text

/-- The pieces between the separators; there is one more piece than separators. -/
def split (sep : Char) : List Char → List (List Char)
  | [] => [[]]
  | c :: cs =>
    match split sep cs with
    | [] => [[c]]
    | piece :: pieces => if c = sep then [] :: piece :: pieces else (c :: piece) :: pieces

/-- What stands before and after the first separator, if there is one. -/
def splitFirst? (sep : Char) : List Char → Option (List Char × List Char)
  | [] => none
  | c :: cs => if c = sep then some ([], cs) else (splitFirst? sep cs).map fun p => (c :: p.1, p.2)

theorem split_ne_nil (sep : Char) (cs : List Char) : split sep cs ≠ [] := by
  cases cs with
  | nil => simp [split]
  | cons c cs => unfold split; split <;> (try split) <;> simp

/-- The pieces with the separator between them are the text. -/
theorem intercalate_split (sep : Char) (cs : List Char) : [sep].intercalate (split sep cs) = cs := by
  induction cs with
  | nil => rfl
  | cons c cs ih =>
    obtain ⟨piece, pieces, h⟩ := List.exists_cons_of_ne_nil (split_ne_nil sep cs)
    rw [h] at ih
    simp only [split, h]
    by_cases hc : c = sep
    · rw [if_pos hc, ← ih, hc]
      cases pieces <;> simp [List.intercalate, List.intersperse]
    · rw [if_neg hc, ← ih]
      cases pieces <;> simp [List.intercalate, List.intersperse]

theorem split_of_not_mem {sep : Char} {cs : List Char} (h : sep ∉ cs) : split sep cs = [cs] := by
  induction cs with
  | nil => rfl
  | cons c cs ih =>
    rw [List.mem_cons, not_or] at h
    simp only [split, ih h.2, if_neg (Ne.symm h.1)]

/-- What stands before the first separator is the first piece. -/
theorem split_append {sep : Char} {piece : List Char} (h : sep ∉ piece) (rest : List Char) :
    split sep (piece ++ sep :: rest) = piece :: split sep rest := by
  obtain ⟨next, more, hrest⟩ := List.exists_cons_of_ne_nil (split_ne_nil sep rest)
  induction piece with
  | nil => simp only [List.nil_append, split, hrest, if_true]
  | cons c cs ih =>
    rw [List.mem_cons, not_or] at h
    simp only [List.cons_append, split, ih h.2, if_neg (Ne.symm h.1)]

/-- Pieces without a separator in them are told apart again. -/
theorem split_intercalate {sep : Char} {pieces : List (List Char)} (hne : pieces ≠ [])
    (h : ∀ piece ∈ pieces, sep ∉ piece) : split sep ([sep].intercalate pieces) = pieces := by
  induction pieces with
  | nil => exact absurd rfl hne
  | cons piece more ih =>
    have hpiece := h piece List.mem_cons_self
    cases more with
    | nil => rw [List.intercalate_singleton, split_of_not_mem hpiece]
    | cons next more =>
      rw [List.intercalate_cons_cons, List.append_assoc, List.singleton_append, split_append hpiece,
        ih (List.cons_ne_nil _ _) fun p hp => h p (List.mem_cons_of_mem _ hp)]

/-- What holds of the separator and throughout the pieces holds throughout what they make up. -/
theorem forall_mem_intercalate {P : Char → Prop} {sep : Char} (hsep : P sep)
    {pieces : List (List Char)} (h : ∀ piece ∈ pieces, ∀ c ∈ piece, P c) :
    ∀ c ∈ [sep].intercalate pieces, P c := by
  induction pieces with
  | nil => exact fun c hc => absurd hc List.not_mem_nil
  | cons piece more ih =>
    have hpiece := h piece List.mem_cons_self
    cases more with
    | nil =>
      rw [List.intercalate_singleton]
      exact hpiece
    | cons next more =>
      rw [List.intercalate_cons_cons, List.append_assoc]
      have hmore := ih fun p hp => h p (List.mem_cons_of_mem _ hp)
      exact List.forall_mem_append.mpr ⟨hpiece, List.forall_mem_cons.mpr ⟨hsep, hmore⟩⟩

theorem eq_append_of_splitFirst? {sep : Char} {cs a b : List Char}
    (h : splitFirst? sep cs = some (a, b)) : cs = a ++ sep :: b := by
  induction cs generalizing a with
  | nil => simp [splitFirst?] at h
  | cons c cs ih =>
    by_cases hc : c = sep
    · simp only [splitFirst?, if_pos hc, Option.some.injEq, Prod.mk.injEq] at h
      rw [← h.1, ← h.2, hc]
      rfl
    · simp only [splitFirst?, if_neg hc, Option.map_eq_some_iff, Prod.mk.injEq] at h
      obtain ⟨⟨a', b'⟩, hp, rfl, rfl⟩ := h
      rw [ih hp]
      rfl

/-- The first separator is the one that has none before it. -/
theorem splitFirst?_eq_some_iff {sep : Char} {cs a b : List Char} :
    splitFirst? sep cs = some (a, b) ↔ sep ∉ a ∧ cs = a ++ sep :: b := by
  constructor
  · intro h
    refine ⟨?_, eq_append_of_splitFirst? h⟩
    induction cs generalizing a with
    | nil => simp [splitFirst?] at h
    | cons c cs ih =>
      by_cases hc : c = sep
      · simp only [splitFirst?, if_pos hc, Option.some.injEq, Prod.mk.injEq] at h
        simp [← h.1]
      · simp only [splitFirst?, if_neg hc, Option.map_eq_some_iff, Prod.mk.injEq] at h
        obtain ⟨⟨a', b'⟩, hp, rfl, rfl⟩ := h
        simp [ih hp, Ne.symm hc]
  · rintro ⟨ha, rfl⟩
    induction a with
    | nil => simp [splitFirst?]
    | cons c a ih =>
      rw [List.mem_cons, not_or] at ha
      simp [splitFirst?, Ne.symm ha.1, ih ha.2]

theorem splitFirst?_eq_none_iff {sep : Char} {cs : List Char} :
    splitFirst? sep cs = none ↔ sep ∉ cs := by
  induction cs with
  | nil => simp [splitFirst?]
  | cons c cs ih =>
    by_cases hc : c = sep
    · simp [splitFirst?, hc]
    · simp [splitFirst?, hc, ih, Ne.symm hc]

example : split '.' "a..b".toList = ["a".toList, [], "b".toList] := by decide

end FleetLabels.Text
