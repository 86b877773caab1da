import Mathlib.Data.List.Basic

/-! Replicated logs and the logs that leaders have had. `led t B` says that some
leader of term `t` has had the log `B`. If the logs of one term extend each other
and every entry of a log comes from such a log, then an entry's term decides all
that lies below it. -/
namespace LogHistory

variable {α τ : Type} (term : α → τ) (led : τ → List α → Prop)

def Chain : Prop :=
  ∀ t B B', led t B → led t B' → B <+: B' ∨ B' <+: B

/-- Every entry, with all that lies below it, was led in the entry's term. -/
def Rooted (V : List α) : Prop :=
  ∀ (i : Nat) e, V[i]? = some e → ∃ B, led (term e) B ∧ V.take (i + 1) <+: B

variable {term led}

theorem rooted_nil : Rooted term led [] := by
  intro i e he
  simp at he

theorem Rooted.mono {led' : τ → List α → Prop} {V : List α} (hV : Rooted term led V)
    (hled : ∀ t B, led t B → led' t B) : Rooted term led' V := by
  intro i e he
  obtain ⟨B, hB, hpre⟩ := hV i e he
  exact ⟨B, hled _ B hB, hpre⟩

theorem Rooted.of_isPrefix {V W : List α} (hV : Rooted term led V) (hW : W <+: V) :
    Rooted term led W := by
  intro i e he
  obtain ⟨rest, rfl⟩ := hW
  obtain ⟨hi, _⟩ := List.getElem?_eq_some_iff.mp he
  obtain ⟨B, hB, hpre⟩ := hV i e (by rw [List.getElem?_append_left hi, he])
  rw [List.take_append_of_le_length (by omega)] at hpre
  exact ⟨B, hB, hpre⟩

theorem Rooted.concat {V : List α} {x : α} (hV : Rooted term led V)
    (hled : led (term x) (V ++ [x])) : Rooted term led (V ++ [x]) := by
  intro i e he
  by_cases hi : i < V.length
  · rw [List.getElem?_append_left hi] at he
    rw [List.take_append_of_le_length (by omega)]
    exact hV i e he
  · have hlast : i = V.length := by
      obtain ⟨hlt, _⟩ := List.getElem?_eq_some_iff.mp he
      simp only [List.length_append, List.length_singleton] at hlt
      omega
    subst hlast
    have hx : e = x := by simpa using he.symm
    subst hx
    exact ⟨V ++ [e], hled, List.take_prefix _ _⟩

theorem Rooted.getLast {V : List α} (hV : Rooted term led V) {e : α} (he : e ∈ V.getLast?) :
    ∃ B, led (term e) B ∧ V <+: B := by
  obtain ⟨rest, rfl⟩ := List.getLast?_eq_some_iff.mp he
  obtain ⟨B, hB, hpre⟩ := hV rest.length e (by simp)
  rw [List.take_of_length_le (by simp)] at hpre
  exact ⟨B, hB, hpre⟩

/-- Log matching: equal terms at a position mean equal logs up to it. -/
theorem take_eq_of_term_eq (hchain : Chain led) {V W : List α} (hV : Rooted term led V)
    (hW : Rooted term led W) {i : Nat} {e e' : α} (he : V[i]? = some e) (he' : W[i]? = some e')
    (hterm : term e = term e') : V.take (i + 1) = W.take (i + 1) := by
  obtain ⟨B, hB, hVB⟩ := hV i e he
  obtain ⟨B', hB', hWB'⟩ := hW i e' he'
  have hlength : (V.take (i + 1)).length = (W.take (i + 1)).length := by
    obtain ⟨hi, _⟩ := List.getElem?_eq_some_iff.mp he
    obtain ⟨hi', _⟩ := List.getElem?_eq_some_iff.mp he'
    simp only [List.length_take]
    omega
  have hpre : V.take (i + 1) <+: W.take (i + 1) := by
    rcases hchain _ B B' hB (hterm ▸ hB') with hsub | hsub
    · exact List.prefix_of_prefix_length_le (hVB.trans hsub) hWB' (Nat.le_of_eq hlength)
    · exact List.prefix_of_prefix_length_le hVB (hWB'.trans hsub) (Nat.le_of_eq hlength)
  exact hpre.eq_of_length hlength

end LogHistory
