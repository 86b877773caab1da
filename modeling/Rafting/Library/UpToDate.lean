import Rafting.Library.LogHistory
import Mathlib.Order.WellFoundedSet
import Mathlib.Order.Interval.Set.Defs

/-! Comparing the ends of replicated logs. A log that is as up to date as another one has
all that the other one shares with the logs led since; so a prefix that every elector of
a later leader has is a prefix of the logs led later. -/
namespace LogHistory

variable {α τ : Type} [LinearOrder τ] {term : α → τ} {led : τ → List α → Prop}

def Sorted (term : α → τ) (V : List α) : Prop :=
  V.Pairwise fun e e' => term e ≤ term e'

/-- `W` ends with a later term than `V`, or with the same term and no earlier. -/
def AsUpToDate (term : α → τ) (W V : List α) : Prop :=
  ∀ e' ∈ V.getLast?, ∃ e ∈ W.getLast?,
    term e' < term e ∨ term e' = term e ∧ V.length ≤ W.length

theorem Sorted.concat {V : List α} {x : α} (hV : Sorted term V) (hx : ∀ e ∈ V, term e ≤ term x) :
    Sorted term (V ++ [x]) := by
  rw [Sorted, List.pairwise_append]
  refine ⟨hV, List.pairwise_singleton _ _, ?_⟩
  intro e he e' he'
  rw [List.mem_singleton.mp he']
  exact hx e he

theorem Sorted.le_getLast {V : List α} (hV : Sorted term V) {e e' : α} (he : e ∈ V)
    (he' : e' ∈ V.getLast?) : term e ≤ term e' := by
  obtain ⟨rest, rfl⟩ := List.getLast?_eq_some_iff.mp he'
  rcases List.mem_append.mp he with he | he
  · exact (List.pairwise_append.mp hV).2.2 e he e' (List.mem_singleton_self e')
  · rw [List.mem_singleton.mp he]

theorem isPrefix_of_asUpToDate (hchain : Chain led) {P V W : List α} {x : α}
    (hV : Rooted term led V) (hW : Rooted term led W) (hsorted : Sorted term V)
    (hlast : x ∈ P.getLast?) (hPV : P <+: V)
    (hlater : ∀ e ∈ W, ∀ D, term x < term e → led (term e) D → P <+: D)
    (hup : AsUpToDate term W V) : P <+: W := by
  have hPsorted : Sorted term P := List.Pairwise.sublist hPV.sublist hsorted
  have hxP : x ∈ P := List.mem_of_getLast? hlast
  obtain ⟨e', he'⟩ : ∃ e', e' ∈ V.getLast? := by
    have hne : V ≠ [] := List.ne_nil_of_mem (hPV.subset hxP)
    exact ⟨_, List.getLast?_eq_getLast_of_ne_nil hne⟩
  have hle : term x ≤ term e' := hsorted.le_getLast (hPV.subset hxP) he'
  obtain ⟨e, he, hcompare⟩ := hup e' he'
  obtain ⟨D, hD, hWD⟩ := hW.getLast he
  rcases hcompare with hlt | ⟨heq, hlength⟩
  · -- the last leader of `W` is a later one, and has `P`
    have hPD := hlater e (List.mem_of_getLast? he) D (hle.trans_lt hlt) hD
    rcases List.prefix_or_prefix_of_prefix hPD hWD with hpre | hpre
    · exact hpre
    · have heP : e ∈ P := hpre.subset (List.mem_of_getLast? he)
      exact absurd (hPsorted.le_getLast heP hlast) (not_le.mpr (hle.trans_lt hlt))
  · -- both logs end in one term, and `W` is the longer one
    obtain ⟨B, hB, hVB⟩ := hV.getLast he'
    apply hPV.trans
    rcases hchain _ B D hB (heq ▸ hD) with hpre | hpre
    · exact List.prefix_of_prefix_length_le (hVB.trans hpre) hWD hlength
    · exact List.prefix_of_prefix_length_le hVB (hWD.trans hpre) hlength

/-- A prefix is in all logs led later, if each of them goes on from a log that is as up to
date as some elector's, and that elector had the prefix provided that the leaders of the
terms between had it. -/
theorem isPrefix_of_led_later [LocallyFiniteOrder τ] (hchain : Chain led) {P : List α} {x : α}
    (hlast : x ∈ P.getLast?)
    (helected : ∀ t B, term x < t → led t B →
      (∀ s D, term x < s → s < t → led s D → P <+: D) →
      ∃ V W, P <+: V ∧ Sorted term V ∧ Rooted term led V ∧ Rooted term led W ∧
        AsUpToDate term W V ∧ (∀ e ∈ W, term e < t) ∧ W <+: B)
    {t : τ} (ht : term x < t) {B : List α} (hB : led t B) : P <+: B := by
  have hwf : (Set.Ioi (term x)).WellFoundedOn (· < ·) := bddBelow_Ioi.wellFoundedOn_lt
  have hall : ∀ B, led t B → P <+: B := by
    apply Set.WellFoundedOn.induction (P := fun t => ∀ B, led t B → P <+: B) hwf ht
    intro t ht ih B hB
    have hbetween : ∀ s D, term x < s → s < t → led s D → P <+: D :=
      fun s D hs hst hD => ih s hs hst D hD
    obtain ⟨V, W, hPV, hsorted, hV, hW, hup, hold, hWB⟩ := helected t B ht hB hbetween
    refine (isPrefix_of_asUpToDate hchain hV hW hsorted hlast hPV ?_ hup).trans hWB
    intro e he D hlt hD
    exact hbetween _ D hlt (hold e he) hD
  exact hall B hB

end LogHistory
