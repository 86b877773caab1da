import Rafting.Library.Transition
import Mathlib.Logic.Relation

/-! Refinement between two levels. A run of a transition system is simulated when an
abstract run goes beside it: after every move the two are related, and each move is a
number of abstract steps. -/
namespace Transition
open Relation

variable {σ α τ : Type} {M : System σ α}

/-- `t` is where an abstract run stands that has gone beside the run from its start. -/
inductive Simulated (Step : τ → τ → Prop) (R : List (Move σ α) → σ → τ → Prop) (t₀ : τ) :
    List (Move σ α) → σ → τ → Prop
  | start {s : σ} : R [] s t₀ → Simulated Step R t₀ [] s t₀
  | next {h : List (Move σ α)} {s s' : σ} {a : α} {t t' : τ} :
      Simulated Step R t₀ h s t → ReflTransGen Step t t' → R (⟨s, a, s'⟩ :: h) s' t' →
      Simulated Step R t₀ (⟨s, a, s'⟩ :: h) s' t'

variable {Step : τ → τ → Prop} {R : List (Move σ α) → σ → τ → Prop} {t₀ t : τ}
  {h : List (Move σ α)} {s : σ}

theorem Simulated.related (hsim : Simulated Step R t₀ h s t) : R h s t := by
  cases hsim with
  | start hR => exact hR
  | next _ _ hR => exact hR

theorem Simulated.imp {R' : List (Move σ α) → σ → τ → Prop} (himp : ∀ h s t, R h s t → R' h s t)
    (hsim : Simulated Step R t₀ h s t) : Simulated Step R' t₀ h s t := by
  induction hsim with
  | start hR => exact .start (himp _ _ _ hR)
  | next _ hsteps hR ih => exact .next ih hsteps (himp _ _ _ hR)

/-- The rule of forward simulation, over the runs whose moves meet a condition. -/
theorem Run.simulated (cond : σ → α → Prop) (start : R [] M.init t₀)
    (next : ∀ {h s s' a t}, Run M h s → Meets cond h → R h s t → cond s a →
      M.step s a = some s' → ∃ t', ReflTransGen Step t t' ∧ R (⟨s, a, s'⟩ :: h) s' t')
    (run : Run M h s) (hm : Meets cond h) : ∃ t, Simulated Step R t₀ h s t := by
  induction run with
  | start => exact ⟨t₀, .start start⟩
  | next run hstep ih =>
    obtain ⟨hc, hm⟩ := meets_cons.mp hm
    obtain ⟨t, hsim⟩ := ih hm
    obtain ⟨t', hsteps, hR⟩ := next run hm hsim.related hc hstep
    exact ⟨t', hsim.next hsteps hR⟩

/-! ## Maps that the steps respect -/

/-- Where the map agrees on two states, it agrees on what each action makes of them. -/
def System.Respects (M : System σ α) (f : σ → τ) : Prop :=
  ∀ s s' a, f s = f s' → (M.step s a).map f = (M.step s' a).map f

theorem respects_of_step {f : σ → σ} (h : ∀ s a, (M.step (f s) a).map f = (M.step s a).map f) :
    M.Respects f := by
  intro s s' a heq
  rw [← h s, ← h s', heq]

/-- Runs from two states where such a map agrees: the same actions are possible, and the map
agrees at all moments. -/
theorem System.Respects.run {f : σ → τ} (hM : M.Respects f) {s₀ s₁ : σ} (heq : f s₁ = f s₀)
    (run : Run { M with init := s₀ } h s) :
    ∃ h' s', Run { M with init := s₁ } h' s' ∧ h'.map Move.action = h.map Move.action ∧
      (moments h' s').map f = (moments h s).map f := by
  induction run with
  | start => exact ⟨[], s₁, .start, rfl, congrArg (fun x => [x]) heq⟩
  | @next h s s' a run hstep ih =>
    obtain ⟨h₁, t, run', hactions, hmoments⟩ := ih
    obtain ⟨hsame, _⟩ := List.cons.inj hmoments
    have hmap := hM t s a hsame
    rw [show M.step s a = some s' from hstep] at hmap
    obtain ⟨t', hstep', heq'⟩ := Option.map_eq_some_iff.mp hmap
    refine ⟨⟨t, a, t'⟩ :: h₁, t', run'.next hstep', ?_, ?_⟩
    · simp [hactions]
    · simp only [moments, List.map_cons] at hmoments ⊢
      rw [heq', hmoments]

/-! ## Projections -/

section Projection
variable {β : Type} {N : System τ β} {f : σ → τ} {g : σ → α → Option β}

/-- Each step is a step of the other system, or one that leaves its state alone. -/
structure System.Projects (M : System σ α) (N : System τ β) (f : σ → τ) (g : σ → α → Option β) :
    Prop where
  init : f M.init = N.init
  idle : ∀ {s a s'}, g s a = none → M.step s a = some s' → f s' = f s
  step : ∀ {s a b s'}, g s a = some b → M.step s a = some s' → N.step (f s) b = some (f s')

def project (f : σ → τ) (g : σ → α → Option β) (h : List (Move σ α)) : List (Move τ β) :=
  h.filterMap fun m => (g m.before m.action).map fun b => ⟨f m.before, b, f m.after⟩

theorem project_cons (m : Move σ α) (h : List (Move σ α)) :
    project f g (m :: h) =
      ((g m.before m.action).map fun b => ⟨f m.before, b, f m.after⟩).toList ++ project f g h := by
  rw [project, List.filterMap_cons]
  cases g m.before m.action <;> rfl

theorem Run.project (run : Run M h s) (hp : M.Projects N f g) :
    Run N (project f g h) (f s) := by
  induction run with
  | start => exact hp.init ▸ .start
  | @next h s s' a run hstep ih =>
    rw [project_cons]
    cases hg : g s a with
    | none =>
      rw [hp.idle hg hstep]
      exact ih
    | some b => exact ih.next (hp.step hg hstep)

end Projection

end Transition
