import Rafting.Library.Transition
import Mathlib.Algebra.GroupWithZero.Nat
import Mathlib.Data.List.Perm.Subperm

/-! The potential method. Over a run, what its moves cost is paid by what they earn, where
every move leaves a potential that makes up for the difference. -/
namespace Transition

variable {σ α κ : Type} {M : System σ α} {h : List (Move σ α)} {s : σ}

end Transition
