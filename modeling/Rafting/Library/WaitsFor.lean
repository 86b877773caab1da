import Mathlib.Logic.Relation
import Mathlib.Data.Set.Finite.Basic
import Mathlib.Order.WellFounded

/-! Waits-for relations. A deadlock is a set in which everybody waits for somebody
of the set; among finitely many it is the same as a cycle. -/
namespace WaitsFor
open Relation

variable {ι : Type} {waits waits' : ι → ι → Prop}

def Deadlocked (waits : ι → ι → Prop) (S : Set ι) : Prop :=
  S.Nonempty ∧ ∀ a ∈ S, ∃ b ∈ S, waits a b

def Acyclic (waits : ι → ι → Prop) : Prop :=
  ∀ a, ¬TransGen waits a a

theorem exists_deadlocked_of_cycle {a : ι} (h : TransGen waits a a) :
    ∃ S, Deadlocked waits S := by
  refine ⟨{x | ReflTransGen waits a x ∧ TransGen waits x a}, ⟨a, .refl, h⟩, ?_⟩
  rintro x ⟨hax, hxa⟩
  obtain ⟨b, hxb, hba⟩ := TransGen.head'_iff.mp hxa
  refine ⟨b, ⟨hax.tail hxb, ?_⟩, hxb⟩
  rcases reflTransGen_iff_eq_or_transGen.mp hba with rfl | hba
  · exact h
  · exact hba

theorem not_deadlocked_of_acyclic (hacyclic : Acyclic waits) {S : Set ι} (hfin : S.Finite) :
    ¬Deadlocked waits S := by
  rintro ⟨⟨a, ha⟩, hwaits⟩
  have : Finite S := hfin
  let later : S → S → Prop := fun x y => TransGen waits y x
  have : IsTrans S later := ⟨fun _ _ _ hxy hyz => TransGen.trans hyz hxy⟩
  have : Std.Irrefl later := ⟨fun x hx => hacyclic x hx⟩
  have hwf : WellFounded later := Finite.wellFounded_of_trans_of_irrefl later
  obtain ⟨last, _, hlast⟩ := hwf.has_min Set.univ ⟨⟨a, ha⟩, trivial⟩
  obtain ⟨b, hb, hwait⟩ := hwaits last last.2
  exact hlast ⟨b, hb⟩ trivial (.single hwait)

/-- A path after `a` has begun to wait for `targets`: an old one, or one that comes to
`a` and goes on from a target, each time over old waits. -/
theorem path_of_new_waits {a : ι} {targets : Set ι}
    (hnew : ∀ x y, waits' x y → waits x y ∨ x = a ∧ y ∈ targets) {x y : ι}
    (h : TransGen waits' x y) :
    TransGen waits x y ∨ ReflTransGen waits x a ∧ ∃ p ∈ targets, ReflTransGen waits p y := by
  induction h with
  | single hxy =>
    rcases hnew _ _ hxy with hold | ⟨rfl, htarget⟩
    · exact Or.inl (.single hold)
    · exact Or.inr ⟨.refl, _, htarget, .refl⟩
  | tail _ hyz ih =>
    rcases hnew _ _ hyz with hold | ⟨rfl, htarget⟩
    · rcases ih with hpath | ⟨hxa, p, hp, hpath⟩
      · exact Or.inl (hpath.tail hold)
      · exact Or.inr ⟨hxa, p, hp, hpath.tail hold⟩
    · rcases ih with hpath | ⟨hxa, _⟩
      · exact Or.inr ⟨hpath.to_reflTransGen, _, htarget, .refl⟩
      · exact Or.inr ⟨hxa, _, htarget, .refl⟩

/-- Beginning to wait closes no cycle if no target waits, over however many others,
for the one who begins. -/
theorem acyclic_of_new_waits (a : ι) (targets : Set ι) (hacyclic : Acyclic waits)
    (hnew : ∀ x y, waits' x y → waits x y ∨ x = a ∧ y ∈ targets)
    (hfree : ∀ p ∈ targets, ¬ReflTransGen waits p a) : Acyclic waits' := by
  intro x hcycle
  rcases path_of_new_waits hnew hcycle with hold | ⟨hxa, p, hp, hpx⟩
  · exact hacyclic x hold
  · exact hfree p hp (hpx.trans hxa)

/-! ## Waiting in vain -/

/-- Everybody of the set waits for somebody of the set, or for somebody who is gone. -/
def Stuck (waits : ι → ι → Prop) (gone : ι → Prop) (S : Set ι) : Prop :=
  ∀ a ∈ S, ∃ b, waits a b ∧ (b ∈ S ∨ gone b)

/-- All who wait for the set, over however many others. -/
def Behind (waits : ι → ι → Prop) (S : Set ι) : Set ι :=
  {a | ∃ b ∈ S, ReflTransGen waits a b}

theorem subset_behind (S : Set ι) : S ⊆ Behind waits S :=
  fun a ha => ⟨a, ha, .refl⟩

variable {gone gone' : ι → Prop} {S : Set ι}

theorem Deadlocked.stuck (h : Deadlocked waits S) : Stuck waits gone S := by
  intro a ha
  obtain ⟨b, hb, hwaits⟩ := h.2 a ha
  exact ⟨b, hwaits, Or.inl hb⟩

theorem Stuck.behind (h : Stuck waits gone S) : Stuck waits gone (Behind waits S) := by
  rintro a ⟨b, hb, hpath⟩
  rcases ReflTransGen.cases_head hpath with rfl | ⟨x, hwaits, hrest⟩
  · obtain ⟨x, hwaits, hx⟩ := h a hb
    exact ⟨x, hwaits, hx.imp_left fun hx => subset_behind S hx⟩
  · exact ⟨x, hwaits, Or.inl ⟨b, hb, hrest⟩⟩

theorem Stuck.next (h : Stuck waits gone S)
    (hkept : ∀ a ∈ S, ∀ b, waits a b → b ∈ S ∨ gone b → waits' a b)
    (hgone : ∀ b, gone b → gone' b) : Stuck waits' gone' S := by
  intro a ha
  obtain ⟨b, hwaits, hb⟩ := h a ha
  exact ⟨b, hkept a ha b hwaits hb, hb.imp_right (hgone b)⟩

end WaitsFor
