import Mathlib.Data.List.Basic

/-! Prefixes of lists that are cut at a position and continued. -/
namespace ListPrefix

variable {α : Type} {p l e : List α}

theorem prefix_iff_getElem? :
    p <+: l ↔ ∀ (i : Nat) x, p[i]? = some x → l[i]? = some x := by
  rw [List.prefix_iff_getElem?]
  constructor
  · intro h i x hx
    obtain ⟨hi, rfl⟩ := List.getElem?_eq_some_iff.mp hx
    exact h i hi
  · intro h i hi
    exact h i _ (List.getElem?_eq_getElem hi)

theorem take_prefix_iff_getElem? {n : Nat} :
    l.take n <+: e ↔ ∀ (i : Nat) x, i < n → l[i]? = some x → e[i]? = some x := by
  rw [prefix_iff_getElem?]
  constructor
  · intro h i x hi hx
    exact h i x (by rw [List.getElem?_take_of_lt hi, hx])
  · intro h i x hx
    by_cases hi : i < n
    · exact h i x hi (by rw [← List.getElem?_take_of_lt hi, hx])
    · rw [List.getElem?_take_eq_none (by omega)] at hx
      cases hx

theorem take_of_isPrefix (hp : p <+: l) {n : Nat} (hn : n ≤ p.length) : l.take n = p.take n := by
  obtain ⟨rest, rfl⟩ := hp
  exact List.take_append_of_le_length hn

/-- A prefix survives a cut and a continuation exactly when the continuation carries
the part of it behind the cut. -/
theorem prefix_take_append_iff (hp : p <+: l) (n : Nat) :
    p <+: l.take n ++ e ↔ p.drop n <+: e := by
  by_cases hn : p.length ≤ n
  · rw [List.drop_eq_nil_of_le hn]
    have hcut : p <+: l.take n := List.prefix_take_iff.mpr ⟨hp, hn⟩
    exact ⟨fun _ => List.nil_prefix, fun _ => hcut.trans (List.prefix_append _ _)⟩
  · rw [take_of_isPrefix hp (by omega)]
    nth_rewrite 1 [← List.take_append_drop n p]
    exact List.prefix_append_right_inj _

theorem exists_prefix_countP (q : α → Bool) {n : Nat} (h : n ≤ l.countP q) :
    ∃ block, block <+: l ∧ block.countP q = n := by
  induction l generalizing n with
  | nil => exact ⟨[], List.nil_prefix, (Nat.le_zero.mp h).symm⟩
  | cons x l ih =>
    cases n with
    | zero => exact ⟨[], List.nil_prefix, rfl⟩
    | succ n =>
      cases hx : q x with
      | true =>
        rw [List.countP_cons_of_pos hx] at h
        obtain ⟨block, hpre, hcount⟩ := ih (Nat.le_of_succ_le_succ h)
        refine ⟨x :: block, List.cons_prefix_cons.mpr ⟨rfl, hpre⟩, ?_⟩
        rw [List.countP_cons_of_pos hx, hcount]
      | false =>
        have hneg : ¬q x = true := by simp [hx]
        rw [List.countP_cons_of_neg hneg] at h
        obtain ⟨block, hpre, hcount⟩ := ih h
        refine ⟨x :: block, List.cons_prefix_cons.mpr ⟨rfl, hpre⟩, ?_⟩
        rw [List.countP_cons_of_neg hneg, hcount]

def commonLength [DecidableEq α] : List α → List α → Nat
  | x :: xs, y :: ys => if x = y then commonLength xs ys + 1 else 0
  | _, _ => 0

theorem le_commonLength_iff [DecidableEq α] {n : Nat} {xs ys : List α} :
    n ≤ commonLength xs ys ↔ n ≤ xs.length ∧ n ≤ ys.length ∧ xs.take n = ys.take n := by
  induction xs, ys using commonLength.induct generalizing n with
  | case1 xs y ys ih =>
    cases n with
    | zero => simp
    | succ n => simp [commonLength, ih]
  | case2 x xs y ys hne =>
    cases n with
    | zero => simp
    | succ n => simp [commonLength, hne]
  | case3 xs ys hnil =>
    have hzero : commonLength xs ys = 0 := by
      unfold commonLength
      split
      · exact (hnil _ _ _ _ rfl rfl).elim
      · rfl
    rw [hzero]
    constructor
    · intro hn
      obtain rfl : n = 0 := by omega
      simp
    · rintro ⟨hx, hy, _⟩
      cases xs with
      | nil => simpa using hx
      | cons x xs =>
        cases ys with
        | nil => simpa using hy
        | cons y ys => exact (hnil x xs y ys rfl rfl).elim

theorem commonLength_le_left [DecidableEq α] (xs ys : List α) : commonLength xs ys ≤ xs.length :=
  (le_commonLength_iff.mp (Nat.le_refl _)).1

theorem commonLength_comm [DecidableEq α] (xs ys : List α) :
    commonLength xs ys = commonLength ys xs := by
  have hle : ∀ xs ys : List α, commonLength xs ys ≤ commonLength ys xs := by
    intro xs ys
    obtain ⟨hx, hy, htake⟩ := le_commonLength_iff.mp (Nat.le_refl (commonLength xs ys))
    exact le_commonLength_iff.mpr ⟨hy, hx, htake.symm⟩
  exact Nat.le_antisymm (hle xs ys) (hle ys xs)

theorem commonLength_le_right [DecidableEq α] (xs ys : List α) : commonLength xs ys ≤ ys.length :=
  commonLength_comm xs ys ▸ commonLength_le_left ys xs

theorem commonLength_eq_left_iff [DecidableEq α] {xs ys : List α} :
    commonLength xs ys = xs.length ↔ xs <+: ys := by
  constructor
  · intro h
    obtain ⟨_, _, htake⟩ := le_commonLength_iff.mp (Nat.le_of_eq h.symm)
    rw [List.take_length] at htake
    exact htake ▸ List.take_prefix _ _
  · intro h
    have hle := le_commonLength_iff.mpr
      ⟨Nat.le_refl xs.length, h.length_le, (take_of_isPrefix h (Nat.le_refl _)).symm⟩
    exact Nat.le_antisymm (commonLength_le_left xs ys) hle

theorem commonLength_eq_right_iff [DecidableEq α] {xs ys : List α} :
    commonLength xs ys = ys.length ↔ ys <+: xs := by
  rw [commonLength_comm, commonLength_eq_left_iff]

end ListPrefix
