import Mathlib.Logic.Function.Iterate
import Mathlib.Data.Nat.Basic

/-! A sender looks for the place from which a receiver's list can go on like its own. It
starts at some position, is told the receiver's length when the receiver accepts, and goes
back by one when the receiver refuses. The states are the position that comes next, the
end in which the receiver has the sender's list, and the one in which the sender has been
sent beyond the end of its own. -/
namespace LogProbe

/-- The rule for a measure that every step lowers until the goal is reached. -/
theorem exists_iterate_of_rank {σ : Type} {f : σ → σ} {P goal : σ → Prop} {rank : σ → Nat}
    (hstep : ∀ s, P s → ¬goal s → P (f s) ∧ rank (f s) < rank s) {s : σ} (hs : P s) :
    ∃ k ≤ rank s, goal (f^[k] s) := by
  induction hr : rank s using Nat.strongRecOn generalizing s with
  | ind r ih =>
    by_cases hgoal : goal s
    · exact ⟨0, Nat.zero_le _, hgoal⟩
    · obtain ⟨hP, hlt⟩ := hstep s hs hgoal
      obtain ⟨k, hk, hend⟩ := ih (rank (f s)) (hr ▸ hlt) hP rfl
      exact ⟨k + 1, by omega, by rwa [Function.iterate_succ_apply]⟩

/-- What decides the course of a probe: the lengths of the sender's list, of the receiver's
and of their common prefix, where the receiver takes the sender's list over, and whether the
sender hears of a refusal. -/
structure Probe where
  target : Nat
  own : Nat
  common : Nat
  joins : Nat → Prop
  heard : Prop
  target_pos : 0 < target
  common_le_target : common ≤ target
  common_le_own : common ≤ own
  joins_zero : joins 0
  joins_own : common = own → joins common

inductive State where
  | next (n : Nat)
  | joined
  | lost
deriving DecidableEq

namespace Probe
variable (p : Probe)

open Classical in
/-- Beyond the end the sender is lost, and at the end it has nothing to send; a receiver
that has the sender's prefix accepts, and another refuses. -/
noncomputable def step : State → State
  | .next n =>
    if p.target < n then .lost
    else if n = p.target then .next p.own
    else if n ≤ p.common then if p.joins n then .joined else .next p.own
    else if p.heard then .next (n - 1)
    else .next n
  | s => s

theorem step_beyond {n : Nat} (h : p.target < n) : p.step (.next n) = .lost :=
  if_pos h

theorem step_target : p.step (.next p.target) = .next p.own := by
  rw [step, if_neg (Nat.lt_irrefl _), if_pos rfl]

theorem step_join {n : Nat} (hn : n < p.target) (hle : n ≤ p.common) (hjoins : p.joins n) :
    p.step (.next n) = .joined := by
  rw [step, if_neg (by omega), if_neg (by omega), if_pos hle, if_pos hjoins]

theorem step_held {n : Nat} (hn : n < p.target) (hle : n ≤ p.common) (hjoins : ¬p.joins n) :
    p.step (.next n) = .next p.own := by
  rw [step, if_neg (by omega), if_neg (by omega), if_pos hle, if_neg hjoins]

theorem step_refused {n : Nat} (hn : n < p.target) (hlt : p.common < n) (hheard : p.heard) :
    p.step (.next n) = .next (n - 1) := by
  rw [step, if_neg (by omega), if_neg (by omega), if_neg (by omega), if_pos hheard]

theorem step_unheard {n : Nat} (hn : n < p.target) (hlt : p.common < n) (hheard : ¬p.heard) :
    p.step (.next n) = .next n := by
  rw [step, if_neg (by omega), if_neg (by omega), if_neg (by omega), if_neg hheard]

@[simp] theorem step_joined : p.step .joined = .joined := rfl

def Recovers : Prop :=
  p.own < p.target ∧ (p.common = p.own ∨ p.heard ∧ p.joins p.common)

/-- The states from which the receiver ends up with the sender's list: the receiver joins
where the probe stands or goes back to, or else from its own length on. -/
def Heals : State → Prop
  | .next n =>
    n = p.target ∧ p.Recovers ∨
      n < p.target ∧ (n ≤ p.common ∧ (p.joins n ∨ p.Recovers) ∨
        p.common < n ∧ p.heard ∧ p.joins p.common)
  | .joined => True
  | .lost => False

theorem heals_target : p.Heals (.next p.target) ↔ p.Recovers := by
  simp [Heals]

theorem heals_held {n : Nat} (hn : n < p.target) (hle : n ≤ p.common) :
    p.Heals (.next n) ↔ p.joins n ∨ p.Recovers := by
  simp [Heals, hn, hle, Nat.ne_of_lt hn, Nat.not_lt_of_le hle]

theorem heals_above {n : Nat} (hn : n < p.target) (hlt : p.common < n) :
    p.Heals (.next n) ↔ p.heard ∧ p.joins p.common := by
  simp [Heals, hn, hlt, Nat.ne_of_lt hn, Nat.not_le_of_lt hlt]

theorem heals_own : p.Heals (.next p.own) ↔ p.Recovers := by
  rcases Nat.lt_trichotomy p.own p.target with hlt | heq | hgt
  · rcases Nat.lt_or_eq_of_le p.common_le_own with hbelow | hsame
    · rw [p.heals_above hlt hbelow, Recovers]
      simp [hlt, Nat.ne_of_lt hbelow]
    · have hjoins : p.joins p.own := hsame ▸ p.joins_own hsame
      rw [p.heals_held hlt (Nat.le_of_eq hsame.symm), Recovers]
      simp [hlt, hsame, hjoins]
  · rw [heq, heals_target]
  · simp [Heals, Recovers, Nat.ne_of_gt hgt, Nat.not_lt_of_gt hgt]

theorem heals_step (s : State) : p.Heals (p.step s) ↔ p.Heals s := by
  cases s with
  | joined => exact Iff.rfl
  | lost => exact Iff.rfl
  | next n =>
    rcases Nat.lt_trichotomy n p.target with hlt | rfl | hgt
    · by_cases hle : n ≤ p.common
      · rw [p.heals_held hlt hle]
        by_cases hjoins : p.joins n
        · rw [p.step_join hlt hle hjoins]
          simp [Heals, hjoins]
        · rw [p.step_held hlt hle hjoins, heals_own]
          simp [hjoins]
      · have hbelow : p.common < n := Nat.lt_of_not_le hle
        by_cases hheard : p.heard
        · rw [p.step_refused hlt hbelow hheard, p.heals_above hlt hbelow]
          by_cases hlast : p.common < n - 1
          · exact p.heals_above (by omega) hlast
          · -- the probe has come down to the common prefix
            have hcommon : n - 1 = p.common := by omega
            have hrecovers : p.Recovers → p.joins p.common := fun h =>
              h.2.elim p.joins_own And.right
            rw [p.heals_held (by omega) (by omega), hcommon]
            simp only [hheard, true_and]
            exact ⟨fun h => h.elim (fun h => h) hrecovers, Or.inl⟩
        · rw [p.step_unheard hlt hbelow hheard]
    · rw [step_target, heals_own, heals_target]
    · rw [p.step_beyond hgt]
      simp [Heals, Nat.ne_of_gt hgt, Nat.not_lt_of_gt hgt]

theorem heals_iterate (k : Nat) (s : State) : p.Heals (p.step^[k] s) ↔ p.Heals s := by
  induction k with
  | zero => exact Iff.rfl
  | succ k ih => rw [Function.iterate_succ_apply', heals_step, ih]

open Classical in
noncomputable def rank : State → Nat
  | .next n =>
    if n < p.target ∧ p.common < n then n - p.common + 1
    else if n < p.target ∧ p.joins n then 1
    else p.own - p.common + 2
  | _ => 0

theorem rank_above {n : Nat} (hn : n < p.target) (hlt : p.common < n) :
    p.rank (.next n) = n - p.common + 1 :=
  if_pos ⟨hn, hlt⟩

theorem rank_join {n : Nat} (hn : n < p.target) (hle : n ≤ p.common) (hjoins : p.joins n) :
    p.rank (.next n) = 1 := by
  rw [rank, if_neg (by omega), if_pos ⟨hn, hjoins⟩]

theorem rank_own_lt (h : p.Recovers) : p.rank (.next p.own) < p.own - p.common + 2 := by
  rcases Nat.lt_or_eq_of_le p.common_le_own with hbelow | hsame
  · rw [p.rank_above h.1 hbelow]
    omega
  · rw [p.rank_join h.1 (Nat.le_of_eq hsame.symm) (hsame ▸ p.joins_own hsame)]
    omega

theorem rank_step {s : State} (hheals : p.Heals s) (hs : s ≠ .joined) :
    p.rank (p.step s) < p.rank s := by
  cases s with
  | joined => exact absurd rfl hs
  | lost => exact hheals.elim
  | next n =>
    rcases hheals with ⟨rfl, hrecovers⟩ | ⟨hlt, ⟨hle, hcases⟩ | ⟨hbelow, hheard, hjoins⟩⟩
    · have hrank : p.rank (.next p.target) = p.own - p.common + 2 := by
        rw [rank, if_neg (by omega), if_neg (by omega)]
      rw [step_target, hrank]
      exact p.rank_own_lt hrecovers
    · by_cases hjoins : p.joins n
      · rw [p.step_join hlt hle hjoins, p.rank_join hlt hle hjoins]
        exact Nat.zero_lt_one
      · have hrank : p.rank (.next n) = p.own - p.common + 2 := by
          rw [rank, if_neg (by omega), if_neg fun h => hjoins h.2]
        rw [p.step_held hlt hle hjoins, hrank]
        exact p.rank_own_lt (hcases.resolve_left hjoins)
    · rw [p.step_refused hlt hbelow hheard, p.rank_above hlt hbelow]
      by_cases hlast : p.common < n - 1
      · rw [p.rank_above (by omega) hlast]
        omega
      · have hcommon : n - 1 = p.common := by omega
        rw [hcommon, p.rank_join (by omega) (Nat.le_refl _) hjoins]
        omega

theorem rank_le {n : Nat} (hheals : p.Heals (.next n)) : p.rank (.next n) ≤ p.target + 2 := by
  have hrecovers : p.Recovers → p.own - p.common + 2 ≤ p.target + 2 := by
    rintro ⟨hlt, _⟩
    omega
  rcases hheals with ⟨rfl, h⟩ | ⟨hlt, ⟨hle, hcases⟩ | ⟨hbelow, _⟩⟩
  · rw [rank, if_neg (by omega), if_neg (by omega)]
    exact hrecovers h
  · by_cases hjoins : p.joins n
    · rw [p.rank_join hlt hle hjoins]
      omega
    · rw [rank, if_neg (by omega), if_neg fun h => hjoins h.2]
      exact hrecovers (hcases.resolve_left hjoins)
  · rw [p.rank_above hlt hbelow]
    omega

theorem exists_joined {s : State} (hheals : p.Heals s) :
    ∃ k ≤ p.rank s, p.step^[k] s = .joined :=
  exists_iterate_of_rank
    (fun s h hs => ⟨(p.heals_step s).mpr h, p.rank_step h hs⟩) hheals

theorem iterate_ne_lost {n : Nat} (hown : p.own ≤ p.target) (hn : n ≤ p.target) (k : Nat) :
    p.step^[k] (.next n) ≠ .lost := by
  have hinv : ∀ k, p.step^[k] (.next n) = .joined ∨
      ∃ m ≤ p.target, p.step^[k] (.next n) = .next m := by
    intro k
    induction k with
    | zero => exact Or.inr ⟨n, hn, rfl⟩
    | succ k ih =>
      rw [Function.iterate_succ_apply']
      rcases ih with heq | ⟨m, hm, heq⟩
      · exact Or.inl (by rw [heq, step_joined])
      · rw [heq]
        rcases Nat.lt_or_eq_of_le hm with hlt | rfl
        · by_cases hle : m ≤ p.common
          · by_cases hjoins : p.joins m
            · exact Or.inl (p.step_join hlt hle hjoins)
            · exact Or.inr ⟨p.own, hown, p.step_held hlt hle hjoins⟩
          · by_cases hheard : p.heard
            · exact Or.inr ⟨m - 1, by omega, p.step_refused hlt (Nat.lt_of_not_le hle) hheard⟩
            · exact Or.inr ⟨m, hm, p.step_unheard hlt (Nat.lt_of_not_le hle) hheard⟩
        · exact Or.inr ⟨p.own, hown, p.step_target⟩
  rcases hinv k with heq | ⟨m, _, heq⟩ <;> rw [heq] <;> simp

theorem own_le_of_not_lost {n : Nat} (hn : n ≤ p.target) (hcommon : p.common = p.target)
    (hheals : ¬p.Heals (.next n)) (hsafe : ∀ k, p.step^[k] (.next n) ≠ .lost) :
    p.own ≤ p.target := by
  by_contra hgt
  have hfirst : p.step (.next n) = .next p.own := by
    rcases Nat.lt_or_eq_of_le hn with hlt | rfl
    · rw [p.heals_held hlt (by omega)] at hheals
      exact p.step_held hlt (by omega) fun hjoins => hheals (Or.inl hjoins)
    · exact p.step_target
  apply hsafe 2
  rw [Function.iterate_succ_apply, Function.iterate_one, hfirst, p.step_beyond (by omega)]

/-- A probe is never lost, and comes to an end in which the receiver has the sender's list,
exactly if its start heals or the two lists are the same. -/
theorem settles_iff {n : Nat} (hn : n ≤ p.target) :
    ((∀ k, p.step^[k] (.next n) ≠ .lost) ∧
      (p.common = p.target ∨ ∃ k ≤ p.target + 2, p.step^[k] (.next n) = .joined)) ↔
    p.Heals (.next n) ∨ p.common = p.target ∧ p.own = p.target := by
  constructor
  · rintro ⟨hsafe, hcommon | ⟨k, _, hjoined⟩⟩
    · by_cases hheals : p.Heals (.next n)
      · exact Or.inl hheals
      · have hle := p.own_le_of_not_lost hn hcommon hheals hsafe
        have hge := p.common_le_own
        exact Or.inr ⟨hcommon, by omega⟩
    · exact Or.inl ((p.heals_iterate k _).mp (by rw [hjoined]; trivial))
  · rintro (hheals | ⟨hcommon, hown⟩)
    · refine ⟨fun k hlost => ?_, Or.inr ?_⟩
      · have hheals' := (p.heals_iterate k _).mpr hheals
        rw [hlost] at hheals'
        exact hheals'
      · obtain ⟨k, hk, hjoined⟩ := p.exists_joined hheals
        exact ⟨k, Nat.le_trans hk (p.rank_le hheals), hjoined⟩
    · exact ⟨p.iterate_ne_lost (Nat.le_of_eq hown) hn, Or.inl hcommon⟩

end Probe
end LogProbe
