import Mathlib.Data.List.Basic

/-! Texts that are escaped symbol by symbol and closed by a symbol that no escape begins with:
such a text, and what follows it, can be read back in one way only. -/
namespace Escape

variable {α β : Type} {code : α → List β} {stop : β}

/-- A code tells where it ends: what it stands for and what follows it can be read off. -/
def Separates (code : α → List β) : Prop :=
  ∀ a b s t, code a ++ s = code b ++ t → a = b ∧ s = t

def Avoids (code : α → List β) (stop : β) : Prop :=
  ∀ a s t, code a ++ s ≠ stop :: t

theorem separates_of_read {read : List β → Option (α × List β)}
    (h : ∀ a s, read (code a ++ s) = some (a, s)) : Separates code := by
  intro a b s t heq
  have hread : some (a, s) = some (b, t) := by rw [← h a s, heq, h b t]
  simpa using hread

theorem eq_of_closed (hseparates : Separates code) (havoids : Avoids code stop)
    {xs ys : List α} {s t : List β}
    (heq : xs.flatMap code ++ stop :: s = ys.flatMap code ++ stop :: t) : xs = ys ∧ s = t := by
  induction xs generalizing ys with
  | nil =>
    cases ys with
    | nil => simpa using heq
    | cons y ys =>
      rw [List.flatMap_cons, List.append_assoc] at heq
      exact absurd heq.symm (havoids y _ _)
  | cons x xs ih =>
    cases ys with
    | nil =>
      rw [List.flatMap_cons, List.append_assoc] at heq
      exact absurd heq (havoids x _ _)
    | cons y ys =>
      simp only [List.flatMap_cons, List.append_assoc] at heq
      obtain ⟨rfl, hrest⟩ := hseparates x y _ _ heq
      obtain ⟨rfl, hst⟩ := ih hrest
      exact ⟨rfl, hst⟩

end Escape
