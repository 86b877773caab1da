import Mathlib.Data.List.Basic

/-! Computations that can fail, over the elements of a list. They stop at the first failure. -/
namespace Fallible

variable {α β γ ε : Type}

theorem ok_of_bind {x : Except ε α} {f : α → Except ε β} {b : β}
    (h : (x >>= f) = .ok b) : ∃ a, x = .ok a ∧ f a = .ok b := by
  cases x with
  | error e => cases h
  | ok a => exact ⟨a, rfl, h⟩

theorem error_of_bind {x : Except ε α} {f : α → Except ε β} {e : ε}
    (h : (x >>= f) = .error e) : x = .error e ∨ ∃ a, x = .ok a ∧ f a = .error e := by
  cases x with
  | error e' =>
    cases h
    exact Or.inl rfl
  | ok a => exact Or.inr ⟨a, rfl, h⟩

/-- Two that agree up to `f` fail alike, or succeed with what `f` does not tell apart. -/
theorem cases_of_map_eq {x x' : Except ε α} {f : α → β} (h : x'.map f = x.map f) :
    (∃ e, x = .error e ∧ x' = .error e) ∨ ∃ a a', x = .ok a ∧ x' = .ok a' ∧ f a' = f a := by
  cases x with
  | error e =>
    cases x' with
    | error e' =>
      cases h
      exact Or.inl ⟨e, rfl, rfl⟩
    | ok a' => cases h
  | ok a =>
    cases x' with
    | error e' => cases h
    | ok a' => exact Or.inr ⟨a, a', rfl, rfl, Except.ok.inj h⟩

theorem mem_of_mapM_ok {f : α → Except ε β} {xs : List α} {ys : List β}
    (h : xs.mapM f = .ok ys) {y : β} (hy : y ∈ ys) : ∃ x ∈ xs, f x = .ok y := by
  induction xs generalizing ys with
  | nil =>
    simp only [List.mapM_nil] at h
    cases h
    simp at hy
  | cons x xs ih =>
    rw [List.mapM_cons] at h
    obtain ⟨z, hx, hrest⟩ := ok_of_bind h
    obtain ⟨zs, hxs, hcons⟩ := ok_of_bind hrest
    cases hcons
    rcases List.mem_cons.mp hy with rfl | hy
    · exact ⟨x, List.mem_cons_self, hx⟩
    · obtain ⟨x', hx', hf⟩ := ih hxs hy
      exact ⟨x', List.mem_cons_of_mem _ hx', hf⟩

theorem exists_mem_of_mapM_ok {f : α → Except ε β} {xs : List α} {ys : List β}
    (h : xs.mapM f = .ok ys) {x : α} (hx : x ∈ xs) : ∃ y ∈ ys, f x = .ok y := by
  induction xs generalizing ys with
  | nil => simp at hx
  | cons x' xs ih =>
    rw [List.mapM_cons] at h
    obtain ⟨z, hx', hrest⟩ := ok_of_bind h
    obtain ⟨zs, hxs, hcons⟩ := ok_of_bind hrest
    cases hcons
    rcases List.mem_cons.mp hx with rfl | hx
    · exact ⟨z, List.mem_cons_self, hx'⟩
    · obtain ⟨y, hy, hf⟩ := ih hxs hx
      exact ⟨y, List.mem_cons_of_mem _ hy, hf⟩

/-- The first element that fails decides. -/
theorem mapM_error_iff {f : α → Except ε β} {xs : List α} {e : ε} :
    xs.mapM f = .error e ↔ ∃ before x after, xs = before ++ x :: after ∧
      (∀ y ∈ before, ∃ z, f y = .ok z) ∧ f x = .error e := by
  constructor
  · intro h
    induction xs with
    | nil => cases h
    | cons x xs ih =>
      rw [List.mapM_cons] at h
      rcases error_of_bind h with hx | ⟨z, hx, hrest⟩
      · exact ⟨[], x, xs, rfl, by simp, hx⟩
      · rcases error_of_bind hrest with hxs | ⟨zs, _, hcons⟩
        · obtain ⟨before, x', after, rfl, hbefore, herror⟩ := ih hxs
          refine ⟨x :: before, x', after, rfl, ?_, herror⟩
          intro y hy
          rcases List.mem_cons.mp hy with rfl | hy
          · exact ⟨z, hx⟩
          · exact hbefore y hy
        · cases hcons
  · rintro ⟨before, x, after, rfl, hbefore, herror⟩
    induction before with
    | nil =>
      rw [List.nil_append, List.mapM_cons, herror]
      rfl
    | cons y before ih =>
      obtain ⟨z, hy⟩ := hbefore y List.mem_cons_self
      have hrest := ih fun y' hy' => hbefore y' (List.mem_cons_of_mem y hy')
      rw [List.cons_append, List.mapM_cons, hy, hrest]
      rfl

theorem exists_of_mapM_error {f : α → Except ε β} {xs : List α} {e : ε}
    (h : xs.mapM f = .error e) : ∃ x ∈ xs, f x = .error e := by
  obtain ⟨before, x, after, rfl, _, herror⟩ := mapM_error_iff.mp h
  exact ⟨x, by simp, herror⟩

theorem mapM_ok {f : α → Except ε β} {g : α → β} {xs : List α}
    (h : ∀ x ∈ xs, f x = .ok (g x)) : xs.mapM f = .ok (xs.map g) := by
  induction xs with
  | nil => rfl
  | cons x xs ih =>
    rw [List.mapM_cons, h x List.mem_cons_self, ih fun y hy => h y (List.mem_cons_of_mem x hy)]
    rfl

theorem map_of_mapM_ok {f : α → Except ε β} {g : β → α} {xs : List α} {ys : List β}
    (hback : ∀ x y, f x = .ok y → g y = x) (h : xs.mapM f = .ok ys) : ys.map g = xs := by
  induction xs generalizing ys with
  | nil =>
    cases h
    rfl
  | cons x xs ih =>
    rw [List.mapM_cons] at h
    obtain ⟨z, hx, hrest⟩ := ok_of_bind h
    obtain ⟨zs, hxs, hcons⟩ := ok_of_bind hrest
    cases hcons
    rw [List.map_cons, hback x z hx, ih hxs]

theorem mapM_except_map (f : α → Except ε β) (g : β → γ) (xs : List α) :
    (xs.mapM fun x => (f x).map g) = (xs.mapM f).map (List.map g) := by
  induction xs with
  | nil => rfl
  | cons x xs ih =>
    rw [List.mapM_cons, List.mapM_cons, ih]
    cases f x with
    | error fault => rfl
    | ok y => cases xs.mapM f <;> rfl

end Fallible
