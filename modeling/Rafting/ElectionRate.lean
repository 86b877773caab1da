import Rafting.ElectionTimer
import Rafting.Provenance
import Rafting.Library.Accounting

/-! The rate of elections. A node stands for election when it has waited out its timeout, in
ticks that no other candidacy has used up. However messages are delayed, lost and reordered,
terms grow no faster than that. -/
namespace Rafting
open Transition

/-- The node that waits for a leader in this step: its tick counts, and it does not lead. -/
def waiting (m : Move Cluster Action) : Option NodeId :=
  match m.action with
  | .tick a =>
    if (m.before.node a).clusterReady = true ∧ (m.before.node a).state ≠ .leader then some a
    else none
  | _ => none

def standing (m : Move Cluster Action) : Option NodeId :=
  match m.action with
  | .tick a => if (m.before.node a).currentTerm < (m.after.node a).currentTerm then some a else none
  | _ => none

namespace RaftNode
variable {node node' : RaftNode} {action : NodeAction}

def patience (node : RaftNode) : Nat :=
  if node.state = .leader then 0 else node.elapsedTicksSinceLastHeartbeat

theorem patience_le (node : RaftNode) : node.patience ≤ node.elapsedTicksSinceLastHeartbeat := by
  unfold patience
  split
  · exact Nat.zero_le _
  · exact Nat.le_refl _

theorem patience_leader (h : node.state = .leader) : node.patience = 0 :=
  if_pos h

theorem patience_of_timer (h : node.elapsedTicksSinceLastHeartbeat = 0) : node.patience = 0 :=
  Nat.le_zero.mp (h ▸ node.patience_le)

theorem RoleMove.patience_le (hmove : RoleMove node action node') (haction : action ≠ .tick) :
    node'.patience ≤ node.patience := by
  cases hmove with
  | keep hstate _ htimer _ _ =>
    unfold patience
    rw [hstate]
    split
    · exact Nat.le_refl 0
    · exact htimer
  | count hact => exact absurd hact haction
  | stand hact => exact absurd hact haction
  | follow _ _ htimer _ =>
    rw [patience_of_timer htimer]
    exact Nat.zero_le _
  | win hstate _ _ =>
    rw [patience_leader hstate]
    exact Nat.zero_le _

end RaftNode

section Run
variable {cfg : Config} {h : List (Move Cluster Action)} {c c' : Cluster} {act : Action}

end Run

end Rafting
