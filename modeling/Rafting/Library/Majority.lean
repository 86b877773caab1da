import Mathlib.Data.Finset.Card

/-! Majorities of a finite set: any two of them have a member in common. -/
namespace Majority

variable {ι : Type} [DecidableEq ι]

def IsMajority (members quorum : Finset ι) : Prop :=
  quorum ⊆ members ∧ members.card < 2 * quorum.card

theorem IsMajority.meet {members q q' : Finset ι} (h : IsMajority members q)
    (h' : IsMajority members q') : ∃ x, x ∈ q ∧ x ∈ q' := by
  have hcard : members.card < q.card + q'.card := by
    have := h.2
    have := h'.2
    omega
  obtain ⟨x, hx⟩ := Finset.inter_nonempty_of_card_lt_card_add_card h.1 h'.1 hcard
  exact ⟨x, Finset.mem_inter.mp hx⟩

theorem isMajority_insert {members q : Finset ι} {a : ι} (ha : a ∈ members)
    (hq : q ⊆ members.erase a) (hcard : members.card / 2 ≤ q.card) :
    IsMajority members (insert a q) := by
  have hnot : a ∉ q := fun h => Finset.notMem_erase a members (hq h)
  refine ⟨Finset.insert_subset ha (hq.trans (Finset.erase_subset a members)), ?_⟩
  rw [Finset.card_insert_of_notMem hnot]
  omega

end Majority
