import Mathlib.Data.List.Basic
import Mathlib.Logic.Relation

/-! Transition systems whose runs keep their history. A run is the list of the
moves made so far, newest first, together with the state they lead to, so that
facts about the past need no ghost fields in the states. -/
namespace Transition

structure System (σ α : Type) where
  init : σ
  step : σ → α → Option σ

structure Move (σ α : Type) where
  before : σ
  action : α
  after : σ

variable {σ α : Type} (M : System σ α)

inductive Run : List (Move σ α) → σ → Prop
  | start : Run [] M.init
  | next {h : List (Move σ α)} {s s' : σ} {a : α} :
      Run h s → M.step s a = some s' → Run (⟨s, a, s'⟩ :: h) s'

def moments (h : List (Move σ α)) (s : σ) : List σ :=
  s :: h.map Move.before

def Meets (cond : σ → α → Prop) (h : List (Move σ α)) : Prop :=
  ∀ m ∈ h, cond m.before m.action

variable {M}

@[simp] theorem mem_moments_self (h : List (Move σ α)) (s : σ) : s ∈ moments h s :=
  List.mem_cons_self

theorem mem_moments_next {h : List (Move σ α)} {s s' x : σ} {a : α} :
    x ∈ moments (⟨s, a, s'⟩ :: h) s' ↔ x = s' ∨ x ∈ moments h s := by
  simp [moments]

theorem moments_mono {h : List (Move σ α)} {s s' x : σ} {a : α} (hx : x ∈ moments h s) :
    x ∈ moments (⟨s, a, s'⟩ :: h) s' :=
  mem_moments_next.mpr (Or.inr hx)

theorem eq_of_mem_moments_nil {s x : σ} (hx : x ∈ moments ([] : List (Move σ α)) s) : x = s := by
  simpa [moments] using hx

@[simp] theorem meets_nil (cond : σ → α → Prop) : Meets cond ([] : List (Move σ α)) := by
  simp [Meets]

theorem meets_cons {cond : σ → α → Prop} {m : Move σ α} {h : List (Move σ α)} :
    Meets cond (m :: h) ↔ cond m.before m.action ∧ Meets cond h := by
  simp [Meets]

theorem Meets.imp {cond cond' : σ → α → Prop} {h : List (Move σ α)}
    (himp : ∀ s a, cond s a → cond' s a) (hm : Meets cond h) : Meets cond' h :=
  fun m hmem => himp _ _ (hm m hmem)

theorem Meets.of_subset {cond : σ → α → Prop} {h h' : List (Move σ α)} (hm : Meets cond h)
    (hsub : h' ⊆ h) : Meets cond h' :=
  fun m hmem => hm m (hsub hmem)

/-- The induction rule for invariants of a run and its history, over the runs
whose moves meet a condition. -/
theorem Run.invariant (cond : σ → α → Prop) (P : List (Move σ α) → σ → Prop)
    (start : P [] M.init)
    (next : ∀ {h s s' a}, Run M h s → Meets cond h → P h s → cond s a →
      M.step s a = some s' → P (⟨s, a, s'⟩ :: h) s')
    {h : List (Move σ α)} {s : σ} (run : Run M h s) (hm : Meets cond h) : P h s := by
  induction run with
  | start => exact start
  | next run hstep ih =>
    obtain ⟨hc, hm⟩ := meets_cons.mp hm
    exact next run hm (ih hm) hc hstep

theorem Run.induct (P : List (Move σ α) → σ → Prop) (start : P [] M.init)
    (next : ∀ {h s s' a}, Run M h s → P h s → M.step s a = some s' → P (⟨s, a, s'⟩ :: h) s')
    {h : List (Move σ α)} {s : σ} (run : Run M h s) : P h s :=
  run.invariant (fun _ _ => True) P start (fun hr _ hp _ hs => next hr hp hs)
    fun _ _ => trivial

/-- The rule for what holds of every state that a run has been in. -/
theorem Run.invariant_moments (cond : σ → α → Prop) (P : σ → Prop) (start : P M.init)
    (next : ∀ {h s s' a}, Run M h s → Meets cond h → (∀ x ∈ moments h s, P x) → cond s a →
      M.step s a = some s' → P s')
    {h : List (Move σ α)} {s : σ} (run : Run M h s) (hm : Meets cond h) :
    ∀ x ∈ moments h s, P x := by
  apply run.invariant cond (fun h s => ∀ x ∈ moments h s, P x) ?_ ?_ hm
  · intro x hx
    exact eq_of_mem_moments_nil hx ▸ start
  · intro h s s' a run hm inv hcond hstep x hx
    rcases mem_moments_next.mp hx with rfl | hx
    · exact next run hm inv hcond hstep
    · exact inv x hx

/-- The rule for what relates every earlier state of a run to its last one. -/
theorem Run.relates_moments (cond : σ → α → Prop) (R : σ → σ → Prop) (refl : ∀ s, R s s)
    (next : ∀ {h x s s' a}, Run M h s → Meets cond h → R x s → cond s a →
      M.step s a = some s' → R x s')
    {h : List (Move σ α)} {s x : σ} (run : Run M h s) (hm : Meets cond h)
    (hx : x ∈ moments h s) : R x s := by
  induction run with
  | start => exact eq_of_mem_moments_nil hx ▸ refl _
  | next run hstep ih =>
    obtain ⟨hc, hm⟩ := meets_cons.mp hm
    rcases mem_moments_next.mp hx with rfl | hx
    · exact refl _
    · exact next run hm (ih hm hx) hc hstep

theorem Run.of_mem_moments (P : σ → Prop)
    (hP : ∀ {h : List (Move σ α)} {s : σ}, Run M h s → P s)
    {h : List (Move σ α)} {s x : σ} (run : Run M h s) (hx : x ∈ moments h s) : P x := by
  induction run with
  | start =>
    obtain rfl : x = M.init := by simpa [moments] using hx
    exact hP .start
  | next run hstep ih =>
    rcases mem_moments_next.mp hx with rfl | hx
    · exact hP (.next run hstep)
    · exact ih hx

theorem Run.of_mem {h : List (Move σ α)} {s : σ} {m : Move σ α} (run : Run M h s) (hm : m ∈ h) :
    M.step m.before m.action = some m.after ∧ m.before ∈ moments h s ∧ m.after ∈ moments h s ∧
      ∃ h', Run M h' m.before ∧ h' ⊆ h := by
  induction run with
  | start => cases hm
  | next run hstep ih =>
    rcases List.mem_cons.mp hm with rfl | hm
    · exact ⟨hstep, moments_mono (mem_moments_self _ _), mem_moments_self _ _, _, run,
        List.subset_cons_self _ _⟩
    · obtain ⟨hs, hbefore, hafter, h', run', hsub⟩ := ih hm
      exact ⟨hs, moments_mono hbefore, moments_mono hafter, h', run',
        fun _ hx => List.mem_cons_of_mem _ (hsub hx)⟩

theorem Run.of_append {newer older : List (Move σ α)} {s : σ} (run : Run M (newer ++ older) s) :
    ∃ s₀, Run M older s₀ ∧ Run { M with init := s₀ } newer s := by
  induction newer generalizing s with
  | nil => exact ⟨s, run, .start⟩
  | cons m newer ih =>
    cases run with
    | next run hstep =>
      obtain ⟨s₀, hfirst, hrest⟩ := ih run
      exact ⟨s₀, hfirst, hrest.next hstep⟩

theorem Run.append {older newer : List (Move σ α)} {s₀ s : σ} (run : Run M older s₀)
    (later : Run { M with init := s₀ } newer s) : Run M (newer ++ older) s := by
  induction later with
  | start => exact run
  | next _ hstep ih => exact ih.next hstep

theorem Run.of_cons {h : List (Move σ α)} {s : σ} {m : Move σ α} (run : Run M (m :: h) s) :
    Run M h m.before ∧ M.step m.before m.action = some m.after ∧ s = m.after := by
  cases run with
  | next run hstep => exact ⟨run, hstep, rfl⟩

theorem Run.since {newer older : List (Move σ α)} {s : σ} {m : Move σ α}
    (run : Run M (newer ++ m :: older) s) :
    Run M (m :: older) m.after ∧ Run { M with init := m.after } newer s := by
  obtain ⟨s₀, hfirst, hrest⟩ := run.of_append
  obtain ⟨_, _, rfl⟩ := hfirst.of_cons
  exact ⟨hfirst, hrest⟩

def System.Reaches (M : System σ α) (cond : σ → α → Prop) : σ → σ → Prop :=
  Relation.ReflTransGen fun s s' => ∃ a, cond s a ∧ M.step s a = some s'

theorem Run.reaches {cond : σ → α → Prop} {h : List (Move σ α)} {s s' : σ} (run : Run M h s)
    (hm : Meets cond h) (hreach : M.Reaches cond s s') :
    ∃ h', Run M h' s' ∧ Meets cond h' ∧ h <:+ h' := by
  induction hreach with
  | refl => exact ⟨h, run, hm, List.suffix_refl h⟩
  | tail _ hstep ih =>
    obtain ⟨a, hc, hstep⟩ := hstep
    obtain ⟨h', run', hm', hsuffix⟩ := ih
    exact ⟨_, run'.next hstep, meets_cons.mpr ⟨hc, hm'⟩, hsuffix.trans (List.suffix_cons _ _)⟩

/-- A run at several stages, each of which goes on from those before it. -/
structure Stages (M : System σ α) (h : Nat → List (Move σ α)) (s : Nat → σ) : Prop where
  run : ∀ k, Run M (h k) (s k)
  suffix : ∀ j k, j ≤ k → h j <:+ h k

/-- What is led to from stage to stage holds at the stages of one run. -/
theorem exists_stages {cond : σ → α → Prop} {P : Nat → σ → Prop} {h₀ : List (Move σ α)} {s₀ : σ}
    (run : Run M h₀ s₀) (hm : Meets cond h₀) (hstart : P 0 s₀) (n : Nat)
    (hnext : ∀ k < n, ∀ s, P k s → ∃ s', M.Reaches cond s s' ∧ P (k + 1) s') :
    ∃ h s, Stages M h s ∧ (∀ k, Meets cond (h k)) ∧ ∀ k ≤ n, P k (s k) := by
  induction n with
  | zero =>
    refine ⟨fun _ => h₀, fun _ => s₀, ⟨fun _ => run, fun _ _ _ => List.suffix_refl _⟩,
      fun _ => hm, fun k hk => ?_⟩
    rw [Nat.le_zero.mp hk]
    exact hstart
  | succ n ih =>
    obtain ⟨h, s, stages, hmeets, hstages⟩ := ih fun k hk => hnext k (by omega)
    obtain ⟨last, hreach, hlast⟩ := hnext n (by omega) (s n) (hstages n (Nat.le_refl n))
    obtain ⟨hist, run', hm', hsuffix⟩ := (stages.run n).reaches (hmeets n) hreach
    refine ⟨fun k => if k ≤ n then h k else hist, fun k => if k ≤ n then s k else last,
      ⟨fun k => ?_, fun j k hjk => ?_⟩, fun k => ?_, fun k hk => ?_⟩
    · by_cases hk : k ≤ n
      · simp only [if_pos hk]
        exact stages.run k
      · simp only [if_neg hk]
        exact run'
    · by_cases hk : k ≤ n
      · simp only [if_pos hk, if_pos (Nat.le_trans hjk hk)]
        exact stages.suffix j k hjk
      · by_cases hj : j ≤ n
        · simp only [if_pos hj, if_neg hk]
          exact (stages.suffix j n hj).trans hsuffix
        · simp only [if_neg hj, if_neg hk]
          exact List.suffix_refl _
    · by_cases hk : k ≤ n
      · simp only [if_pos hk]
        exact hmeets k
      · simp only [if_neg hk]
        exact hm'
    · rcases Nat.le_succ_iff.mp hk with hk | rfl
      · simp only [if_pos hk]
        exact hstages k hk
      · simp only [if_neg (Nat.not_succ_le_self n)]
        exact hlast

/-- Run a list of actions, each of which must be possible and meet the condition. -/
def System.exec (M : System σ α) (cond : σ → α → Prop) [∀ s a, Decidable (cond s a)] :
    σ → List α → Option σ
  | s, [] => some s
  | s, a :: rest =>
    if cond s a then (M.step s a).bind fun s' => M.exec cond s' rest else none

theorem Run.exec {cond : σ → α → Prop} [∀ s a, Decidable (cond s a)] {h : List (Move σ α)}
    {s s' : σ} {actions : List α} (run : Run M h s) (hm : Meets cond h)
    (hexec : M.exec cond s actions = some s') :
    ∃ h', Run M h' s' ∧ Meets cond h' ∧
      h'.map Move.action = actions.reverse ++ h.map Move.action ∧
      ∀ x ∈ moments h s, x ∈ moments h' s' := by
  induction actions generalizing h s with
  | nil =>
    cases hexec
    exact ⟨h, run, hm, rfl, fun _ hx => hx⟩
  | cons a rest ih =>
    simp only [System.exec] at hexec
    split at hexec
    · rename_i hc
      obtain ⟨s₁, hstep, hrest⟩ := Option.bind_eq_some_iff.mp hexec
      obtain ⟨h', run', hm', hactions, hmono⟩ := ih (.next run hstep) (meets_cons.mpr ⟨hc, hm⟩) hrest
      exact ⟨h', run', hm', by simp [hactions], fun x hx => hmono x (moments_mono hx)⟩
    · cases hexec

/-- A run found by executing its actions, which its history records. -/
theorem exists_run_of_actions (M : System σ α) (cond : σ → α → Prop) [∀ s a, Decidable (cond s a)]
    (P : σ → Prop) [DecidablePred P] (actions : List α)
    (hexec : (M.exec cond M.init actions).any (fun s => decide (P s)) = true) :
    ∃ h s, Run M h s ∧ Meets cond h ∧ h.map Move.action = actions.reverse ∧ P s := by
  obtain ⟨s, hs, hP⟩ := (Option.any_eq_true _ _).mp hexec
  obtain ⟨h, run, hm, hactions, _⟩ := Run.exec .start (meets_nil cond) hs
  exact ⟨h, s, run, hm, by simpa using hactions, of_decide_eq_true hP⟩

theorem exists_run_of_exec (M : System σ α) (cond : σ → α → Prop) [∀ s a, Decidable (cond s a)]
    (P : σ → Prop) [DecidablePred P] (actions : List α)
    (hexec : (M.exec cond M.init actions).any (fun s => decide (P s)) = true) :
    ∃ h s, Run M h s ∧ Meets cond h ∧ P s := by
  obtain ⟨h, s, run, hm, _, hP⟩ := exists_run_of_actions M cond P actions hexec
  exact ⟨h, s, run, hm, hP⟩

theorem exists_run_of_exec₂ (M : System σ α) (cond : σ → α → Prop) [∀ s a, Decidable (cond s a)]
    (P : σ → σ → Prop) [∀ s s', Decidable (P s s')] (first second : List α)
    (hexec : (M.exec cond M.init first).any (fun s =>
      (M.exec cond s second).any fun s' => decide (P s s')) = true) :
    ∃ h s, Run M h s ∧ Meets cond h ∧ ∃ x ∈ moments h s, P x s := by
  obtain ⟨s, hs, hrest⟩ := (Option.any_eq_true _ _).mp hexec
  obtain ⟨s', hs', hP⟩ := (Option.any_eq_true _ _).mp hrest
  obtain ⟨h, run, hm, _⟩ := Run.exec .start (meets_nil cond) hs
  obtain ⟨h', run', hm', _, hmono⟩ := run.exec hm hs'
  exact ⟨h', s', run', hm', s, hmono s (mem_moments_self h s), of_decide_eq_true hP⟩

theorem System.exec_init (M : System σ α) (cond : σ → α → Prop) [∀ s a, Decidable (cond s a)]
    (s₀ s : σ) (actions : List α) :
    System.exec { M with init := s₀ } cond s actions = M.exec cond s actions := by
  induction actions generalizing s with
  | nil => rfl
  | cons a rest ih =>
    simp only [System.exec]
    split
    · exact Option.bind_congr fun s' _ => ih s'
    · rfl

theorem exists_run_since_exec (M : System σ α) (cond cond' : σ → α → Prop)
    [∀ s a, Decidable (cond s a)] [∀ s a, Decidable (cond' s a)]
    (P : σ → σ → Prop) [∀ s s', Decidable (P s s')] (first second : List α)
    (hexec : (M.exec cond M.init first).any (fun s =>
      (M.exec cond' s second).any fun s' => decide (P s s')) = true) :
    ∃ h s h' s', Run M h s ∧ Meets cond h ∧ Run { M with init := s } h' s' ∧ Meets cond' h' ∧
      P s s' := by
  obtain ⟨s, hs, hrest⟩ := (Option.any_eq_true _ _).mp hexec
  obtain ⟨s', hs', hP⟩ := (Option.any_eq_true _ _).mp hrest
  obtain ⟨h, run, hm, _⟩ := Run.exec .start (meets_nil cond) hs
  rw [← M.exec_init cond' s] at hs'
  obtain ⟨h', run', hm', _⟩ := Run.exec .start (meets_nil cond') hs'
  exact ⟨h, s, h', s', run, hm, run', hm', of_decide_eq_true hP⟩

theorem exists_move_of_exec (M : System σ α) (cond : σ → α → Prop) [∀ s a, Decidable (cond s a)]
    (P : σ → σ → Prop) [∀ s s', Decidable (P s s')] (actions : List α) (a : α)
    (hexec : (M.exec cond M.init actions).any (fun s =>
      (M.step s a).any fun s' => decide (P s s')) = true) :
    ∃ h s s', Run M (⟨s, a, s'⟩ :: h) s' ∧ Meets cond h ∧ P s s' := by
  obtain ⟨s, hs, hrest⟩ := (Option.any_eq_true _ _).mp hexec
  obtain ⟨s', hs', hP⟩ := (Option.any_eq_true _ _).mp hrest
  obtain ⟨h, run, hm, _⟩ := Run.exec .start (meets_nil cond) hs
  exact ⟨h, s, s', .next run hs', hm, of_decide_eq_true hP⟩

end Transition
