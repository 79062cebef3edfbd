import Mathlib.Data.List.Forall2

/-!
    Attempts: computations that end with a value or with what kept them from one.

    A sequence of attempts has a value when each of them has one. A list of attempts either succeeds
    throughout, and then gives all the values in order, or ends with its first failure. -/

namespace FleetLabels

/-- What stands on the right of a row of pairs has a partner on the left. -/
theorem exists_left_of_forall₂ {α β : Type} {R : α → β → Prop} {as : List α} {bs : List β}
    (h : List.Forall₂ R as bs) {b : β} (hb : b ∈ bs) : ∃ a ∈ as, R a b := by
  induction h with
  | nil => cases hb
  | @cons a c _ _ hac _ ih =>
    rcases List.mem_cons.mp hb with rfl | hb
    · exact ⟨a, List.mem_cons_self, hac⟩
    · obtain ⟨d, hd, hdb⟩ := ih hb
      exact ⟨d, List.mem_cons_of_mem a hd, hdb⟩

/-- What the two sides of a row of pairs have in common, they have in common in order. -/
theorem map_eq_map_of_forall₂ {α β γ : Type} {R : α → β → Prop} {as : List α} {bs : List β}
    {g : α → γ} {k : β → γ} (h : List.Forall₂ R as bs) (heq : ∀ a b, R a b → g a = k b) :
    as.map g = bs.map k := by
  have hmaps : List.Forall₂ (fun x y => x = y) (as.map g) (bs.map k) := by
    rw [List.forall₂_map_left_iff, List.forall₂_map_right_iff]
    exact h.imp heq
  rwa [List.forall₂_eq_eq_eq] at hmaps

namespace Attempt

variable {ε α β : Type}

/-- What two attempts in a row give comes from what the first gave. -/
theorem of_bind_eq_ok {x : Except ε α} {f : α → Except ε β} {b : β} (h : x >>= f = .ok b) :
    ∃ a, x = .ok a ∧ f a = .ok b := by
  cases x with
  | error e => cases h
  | ok a => exact ⟨a, rfl, h⟩

theorem bind_eq_ok {x : Except ε α} {f : α → Except ε β} {a : α} {b : β} (hx : x = .ok a)
    (hf : f a = .ok b) : x >>= f = .ok b := by
  rw [hx]
  exact hf

theorem bind_eq_ok_iff {x : Except ε α} {f : α → Except ε β} {b : β} :
    x >>= f = .ok b ↔ ∃ a, x = .ok a ∧ f a = .ok b :=
  ⟨of_bind_eq_ok, fun ⟨_, hx, hf⟩ => bind_eq_ok hx hf⟩

/-- What an attempt gives it gives whatever its failure is called. -/
theorem of_mapError_eq_ok {δ : Type} {x : Except ε α} {f : ε → δ} {a : α}
    (h : x.mapError f = .ok a) : x = .ok a := by
  cases x with
  | error e => cases h
  | ok b =>
    cases h
    rfl

variable {f : α → Except ε β} {as : List α}

theorem mapM_cons (a : α) (rest : List α) :
    (a :: rest).mapM f = (f a).bind fun b => (rest.mapM f).map (b :: ·) := by
  rw [List.mapM_cons]
  cases f a with
  | error e => rfl
  | ok b => cases rest.mapM f <;> rfl

theorem mapM_eq_ok {g : α → β} (h : ∀ a ∈ as, f a = .ok (g a)) : as.mapM f = .ok (as.map g) := by
  induction as with
  | nil => rfl
  | cons a rest ih =>
    rw [mapM_cons, h a List.mem_cons_self, ih fun b hb => h b (List.mem_cons_of_mem a hb)]
    rfl

/-- Each value of a list of attempts that succeeds comes from the attempt in its place. -/
theorem forall₂_of_mapM {bs : List β} (h : as.mapM f = .ok bs) :
    List.Forall₂ (fun a b => f a = .ok b) as bs := by
  induction as generalizing bs with
  | nil => cases h; exact .nil
  | cons a rest ih =>
    rw [mapM_cons] at h
    obtain ⟨b, hb, h⟩ := of_bind_eq_ok h
    cases hrest : rest.mapM f with
    | error e => rw [hrest] at h; cases h
    | ok cs =>
      rw [hrest] at h
      cases h
      exact .cons hb (ih hrest)

/-- What attempts and their values have in common, they have in common in order. -/
theorem map_eq_map_of_mapM {γ : Type} {bs : List β} {g : α → γ} {k : β → γ} (h : as.mapM f = .ok bs)
    (heq : ∀ a b, f a = .ok b → g a = k b) : as.map g = bs.map k :=
  map_eq_map_of_forall₂ (forall₂_of_mapM h) heq

/-- Each value of a list of attempts comes from one of them. -/
theorem exists_of_mapM {bs : List β} (h : as.mapM f = .ok bs) {b : β} (hb : b ∈ bs) :
    ∃ a ∈ as, f a = .ok b :=
  exists_left_of_forall₂ (forall₂_of_mapM h) hb

/-- What is read back one by one is read back as a list. -/
theorem mapM_map_eq_ok {bs : List β} {g : β → α} (h : ∀ b ∈ bs, f (g b) = .ok b) :
    (bs.map g).mapM f = .ok bs := by
  induction bs with
  | nil => rfl
  | cons b rest ih =>
    rw [List.map_cons, mapM_cons, h b List.mem_cons_self,
      ih fun c hc => h c (List.mem_cons_of_mem b hc)]
    rfl

theorem mapM_map_singleton (f : α → Except ε β) (as : List α) :
    (as.mapM fun a => (f a).map fun b => [b]) = (as.mapM f).map (List.map fun b => [b]) := by
  induction as with
  | nil => rfl
  | cons a rest ih =>
    rw [mapM_cons, mapM_cons, ih]
    cases f a with
    | error e => rfl
    | ok b => cases rest.mapM f <;> rfl

/-- A list of attempts succeeds when each of them gives what is paired with it. -/
theorem mapM_of_forall₂ {R : α → β → Prop} {bs : List β} (h : List.Forall₂ R as bs)
    (hf : ∀ a, ∀ b ∈ bs, R a b → f a = .ok b) : as.mapM f = .ok bs := by
  induction h with
  | nil => rfl
  | @cons a b rest others hab _ ih =>
    have hothers := ih fun c d hd => hf c d (List.mem_cons_of_mem b hd)
    rw [mapM_cons, hf a b List.mem_cons_self hab, hothers]
    rfl

/-- The first failure is what a list of attempts ends with. -/
theorem mapM_eq_error {pre post : List α} {a : α} {e : ε} (hpre : ∀ x ∈ pre, ∃ b, f x = .ok b)
    (ha : f a = .error e) : (pre ++ a :: post).mapM f = .error e := by
  induction pre with
  | nil => rw [List.nil_append, mapM_cons, ha]; rfl
  | cons x rest ih =>
    obtain ⟨b, hb⟩ := hpre x List.mem_cons_self
    rw [List.cons_append, mapM_cons, hb, ih fun y hy => hpre y (List.mem_cons_of_mem x hy)]
    rfl

/-- A list of attempts that ends with a failure has an attempt with that failure. -/
theorem exists_of_mapM_eq_error {e : ε} (h : as.mapM f = .error e) : ∃ a ∈ as, f a = .error e := by
  induction as with
  | nil => cases h
  | cons a rest ih =>
    rw [mapM_cons] at h
    cases ha : f a with
    | error d =>
      rw [ha] at h
      cases h
      exact ⟨a, List.mem_cons_self, ha⟩
    | ok b =>
      cases hrest : rest.mapM f with
      | error d =>
        rw [ha, hrest] at h
        cases h
        obtain ⟨c, hc, hfail⟩ := ih hrest
        exact ⟨c, List.mem_cons_of_mem a hc, hfail⟩
      | ok bs => rw [ha, hrest] at h; cases h

/-- Either all attempts have a value, or one of them is the first that has none. -/
theorem all_ok_or_first_error (f : α → Except ε β) (as : List α) :
    (∀ a ∈ as, ∃ b, f a = .ok b) ∨
      ∃ pre a post e, as = pre ++ a :: post ∧ (∀ x ∈ pre, ∃ b, f x = .ok b) ∧ f a = .error e := by
  induction as with
  | nil => exact .inl fun a ha => absurd ha List.not_mem_nil
  | cons a rest ih =>
    cases ha : f a with
    | error e => exact .inr ⟨[], a, rest, e, rfl, fun x hx => absurd hx List.not_mem_nil, ha⟩
    | ok b =>
      rcases ih with hall | ⟨pre, c, post, e, rfl, hpre, hc⟩
      · refine .inl fun x hx => ?_
        rcases List.mem_cons.mp hx with rfl | hx
        · exact ⟨b, ha⟩
        · exact hall x hx
      · refine .inr ⟨a :: pre, c, post, e, rfl, fun x hx => ?_, hc⟩
        rcases List.mem_cons.mp hx with rfl | hx
        · exact ⟨b, ha⟩
        · exact hpre x hx

end Attempt

end FleetLabels
