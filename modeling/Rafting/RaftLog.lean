import Rafting.Messages

/-! `raft_log.rs`: the in-memory log, a vector of entries. -/
namespace Rafting

/-- `as usize` on an `i64`: negative values wrap to the top of the range. -/
def asUsize (value : Int) : Nat :=
  if 0 ≤ value then value.toNat else (value + 0x10000000000000000).toNat

@[simp] theorem asUsize_natCast (n : Nat) : asUsize (n : Int) = n := by
  simp [asUsize]

theorem asUsize_of_nonneg {value : Int} (h : 0 ≤ value) : asUsize value = value.toNat := by
  simp [asUsize, h]

/-- Casts of consecutive `i64` values are consecutive, except from -1 to 0. -/
theorem asUsize_succ {value : Int} (hlow : -9223372036854775808 ≤ value) (hzero : value ≠ 0) :
    asUsize value = asUsize (value - 1) + 1 := by
  unfold asUsize
  split <;> split <;> omega

structure RaftLog where
  inner : List LogEntry
deriving DecidableEq, Repr

namespace RaftLog

def new : RaftLog := ⟨[]⟩

def append (log : RaftLog) (entry : LogEntry) : RaftLog :=
  ⟨log.inner ++ [entry]⟩

def get (log : RaftLog) (index : Nat) : Option LogEntry :=
  log.inner[index]?

def getFrom (log : RaftLog) (index : Nat) : List LogEntry :=
  log.inner.drop index

def len (log : RaftLog) : Nat :=
  log.inner.length

def lastLogIndex (log : RaftLog) : Int :=
  (log.len : Int) - 1

/-- The index is read from the entry itself, not from its position. -/
def lastLogIndexAndTerm (log : RaftLog) : Int × Int :=
  ((log.get (asUsize log.lastLogIndex)).map fun entry => (entry.index, entry.term)).getD (-1, -1)

def truncate (log : RaftLog) (index : Nat) : RaftLog :=
  ⟨log.inner.take index⟩

def appendAll (log : RaftLog) (entries : List LogEntry) : RaftLog :=
  ⟨log.inner ++ entries⟩

def appendAllFrom (log : RaftLog) (entries : List LogEntry) (index : Nat) : RaftLog :=
  ⟨log.inner.take index ++ entries⟩

def termForIndex (log : RaftLog) (index : Nat) : Int :=
  ((log.get index).map fun entry => entry.term).getD (-1)

theorem appendAllFrom_again {log : RaftLog} {index : Nat} (h : index ≤ log.len)
    (entries : List LogEntry) :
    (log.appendAllFrom entries index).appendAllFrom entries index =
      log.appendAllFrom entries index := by
  have hlen : (log.inner.take index).length = index := List.length_take_of_le h
  simp only [appendAllFrom, List.take_left' hlen]

theorem lastLogIndexAndTerm_cases (log : RaftLog) :
    (log.inner = [] ∧ log.lastLogIndexAndTerm = (-1, -1)) ∨
    (log.inner ≠ [] ∧ ∃ entry, log.inner[log.len - 1]? = some entry ∧
      log.lastLogIndexAndTerm = (entry.index, entry.term)) := by
  by_cases hempty : log.inner = []
  · refine Or.inl ⟨hempty, ?_⟩
    simp [lastLogIndexAndTerm, get, hempty]
  · have hpos : 0 < log.inner.length := List.length_pos_iff.mpr hempty
    have hindex : asUsize log.lastLogIndex = log.len - 1 := by
      rw [lastLogIndex, len, asUsize_of_nonneg (by omega)]
      omega
    obtain ⟨entry, hentry⟩ : ∃ entry, log.inner[log.len - 1]? = some entry :=
      ⟨_, List.getElem?_eq_getElem (by simp only [len]; omega)⟩
    refine Or.inr ⟨hempty, entry, hentry, ?_⟩
    rw [lastLogIndexAndTerm, hindex, get, hentry]
    rfl

end RaftLog
end Rafting
