import Mathlib.Data.List.Basic
import Mathlib.Logic.Function.Basic
import Mathlib.Logic.Relation

/-! What a replicated log is for. Entries are proposed; the service puts proposed entries at
the end of one log, for good; and each replica learns a longer and longer part of it. -/

/-- Nothing is decided that was not proposed, and no replica knows more than is decided. -/
structure ReplicatedLog (ρ ε : Type) where
  proposed : List ε
  decided : List ε
  learned : ρ → Nat
  decided_subset : decided ⊆ proposed
  learned_le : ∀ r, learned r ≤ decided.length

namespace ReplicatedLog
open Relation

variable {ρ ε : Type}

def initial : ReplicatedLog ρ ε where
  proposed := []
  decided := []
  learned := fun _ => 0
  decided_subset := List.Subset.refl _
  learned_le := fun _ => Nat.le_refl _

def view (log : ReplicatedLog ρ ε) (r : ρ) : List ε :=
  log.decided.take (log.learned r)

def propose (log : ReplicatedLog ρ ε) (es : List ε) : ReplicatedLog ρ ε where
  proposed := log.proposed ++ es
  decided := log.decided
  learned := log.learned
  decided_subset := List.subset_append_of_subset_left _ log.decided_subset
  learned_le := log.learned_le

def decide (log : ReplicatedLog ρ ε) (es : List ε) (h : es ⊆ log.proposed) :
    ReplicatedLog ρ ε where
  proposed := log.proposed
  decided := log.decided ++ es
  learned := log.learned
  decided_subset := List.append_subset.mpr ⟨log.decided_subset, h⟩
  learned_le := fun r => by
    rw [List.length_append]
    exact Nat.le_add_right_of_le (log.learned_le r)

def learn [DecidableEq ρ] (log : ReplicatedLog ρ ε) (r : ρ) (n : Nat)
    (h : n ≤ log.decided.length) : ReplicatedLog ρ ε where
  proposed := log.proposed
  decided := log.decided
  learned := Function.update log.learned r n
  decided_subset := log.decided_subset
  learned_le := fun r' => by
    by_cases hr : r' = r
    · subst hr
      rw [Function.update_self]
      exact h
    · rw [Function.update_of_ne hr]
      exact log.learned_le r'

inductive Step [DecidableEq ρ] : ReplicatedLog ρ ε → ReplicatedLog ρ ε → Prop
  | propose (log : ReplicatedLog ρ ε) (es : List ε) : Step log (log.propose es)
  | decide (log : ReplicatedLog ρ ε) (es : List ε) (h : es ⊆ log.proposed) :
      Step log (log.decide es h)
  | learn (log : ReplicatedLog ρ ε) (r : ρ) (n : Nat) (hmore : log.learned r ≤ n)
      (h : n ≤ log.decided.length) : Step log (log.learn r n h)

theorem view_eq_of_isPrefix {log : ReplicatedLog ρ ε} {r : ρ} {l : List ε}
    (hpre : l <+: log.decided) (hlearned : log.learned r = l.length) : log.view r = l := by
  rw [view, hlearned]
  exact (List.prefix_iff_eq_take.mp hpre).symm

section
variable [DecidableEq ρ] {log log' : ReplicatedLog ρ ε}

/-- The log is brought up to what one replica is to have: the rest of it is decided if it is
new, and the replica learns it. -/
theorem exists_steps_of_comparable (log : ReplicatedLog ρ ε) {r : ρ} {l : List ε}
    (hcomparable : log.decided <+: l ∨ l <+: log.decided) (hsub : l ⊆ log.proposed)
    (hmore : log.learned r ≤ l.length) :
    ∃ log', ReflTransGen Step log log' ∧ log'.proposed = log.proposed ∧
      (log'.decided = log.decided ∨ log'.decided = l) ∧ log.decided <+: log'.decided ∧
      l <+: log'.decided ∧ log'.learned = Function.update log.learned r l.length := by
  rcases hcomparable with ⟨es, rfl⟩ | hpre
  · have hes : es ⊆ log.proposed := (List.append_subset.mp hsub).2
    have hlearn := Step.learn (log.decide es hes) r (log.decided ++ es).length hmore (Nat.le_refl _)
    exact ⟨_, (ReflTransGen.single (.decide log es hes)).tail hlearn, rfl, Or.inr rfl,
      List.prefix_append _ _, List.prefix_refl _, rfl⟩
  · exact ⟨log.learn r l.length hpre.length_le, ReflTransGen.single (.learn log r _ hmore _),
      rfl, Or.inl rfl, List.prefix_refl _, hpre, rfl⟩

end

end ReplicatedLog
