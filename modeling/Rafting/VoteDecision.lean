import Rafting.VoterLogs

/-! The decision about a vote request. A node votes for every request of a newer term and
for no other, whatever the logs and its vote of the term are. -/
namespace Rafting
namespace RaftNode

/-- The request is of a newer term, or of the node's own one in which the node has not voted
for another candidate, and its candidate's log is as up to date as the node's. -/
def MayVote (node : RaftNode) (req : RequestVoteRequest) : Prop :=
  (node.currentTerm < req.term ∨ req.term = node.currentTerm ∧
    (node.votedFor = none ∨ node.votedFor = some req.candidateId)) ∧ req.UpToDate node.log

instance (node : RaftNode) (req : RequestVoteRequest) : Decidable (node.MayVote req) :=
  inferInstanceAs (Decidable (_ ∧ _))

/-- The vote is granted where it may be; the voter then follows the candidate in its term,
and a request that is not newer and not granted changes nothing. -/
def DecidesVote (node : RaftNode) (req : RequestVoteRequest) : Prop :=
  ∃ node' response, node.step (.peerVotesRequestEvent req, some .oneshot) =
      .ok (node', some (.requestVoteResponseEvent response)) ∧
    (response.voteGranted = true ↔ node.MayVote req) ∧
    (response.voteGranted = true → node'.state = .follower ∧ node'.currentTerm = req.term ∧
      node'.votedFor = some req.candidateId) ∧
    (req.term ≤ node.currentTerm → response.voteGranted = false → node' = node)

variable {node : RaftNode} {req : RequestVoteRequest}

/-- What the handler does: only the terms decide. -/
theorem step_vote (node : RaftNode) (req : RequestVoteRequest) :
    node.step (.peerVotesRequestEvent req, some .oneshot) =
      .ok (if node.currentTerm < req.term then
          { node.becomeFollower req.term with votedFor := some req.candidateId } else node,
        some (node.voteResponse req (decide (node.currentTerm < req.term)))) := by
  simp only [step, stepPeerVotesRequest_eq]
  by_cases hnewer : node.currentTerm < req.term
  · simp [hnewer]
  · simp [hnewer]

theorem decidesVote_iff_mayVote :
    node.DecidesVote req ↔ (node.currentTerm < req.term ↔ node.MayVote req) := by
  unfold DecidesVote
  rw [step_vote]
  constructor
  · rintro ⟨node', response, hstep, hiff, _⟩
    simp only [Except.ok.injEq, Prod.mk.injEq, Option.some.injEq] at hstep
    obtain ⟨_, hreply⟩ := hstep
    cases hreply
    simpa using hiff
  · intro hiff
    refine ⟨_, _, rfl, by simpa using hiff, ?_, ?_⟩
    · intro hgranted
      rw [if_pos (of_decide_eq_true hgranted)]
      exact ⟨rfl, rfl, rfl⟩
    · intro hle _
      rw [if_neg (by omega)]

/-- The decision is the right one exactly if a candidate of a newer term is up to date, and
a candidate that may have the vote of the node's own term is not. -/
theorem decidesVote_iff (node : RaftNode) (req : RequestVoteRequest) : node.DecidesVote req ↔
    (node.currentTerm < req.term → req.UpToDate node.log) ∧
    (req.term = node.currentTerm →
      node.votedFor = none ∨ node.votedFor = some req.candidateId → ¬req.UpToDate node.log) := by
  rw [decidesVote_iff_mayVote, MayVote]
  rcases Int.lt_trichotomy node.currentTerm req.term with hlt | heq | hgt
  · have hne : req.term ≠ node.currentTerm := by omega
    simp [hlt, hne]
  · have hnot : ¬node.currentTerm < req.term := by omega
    simp [heq.symm]
  · have hnot : ¬node.currentTerm < req.term := by omega
    have hne : req.term ≠ node.currentTerm := by omega
    simp [hnot, hne]

def votedInTerm : RaftNode :=
  { new "node2" ["node1", "node3"] 7 with
    currentTerm := 1
    votedFor := some "node3"
    log := ⟨[⟨0, 1, "test1"⟩]⟩ }

/-- It votes for a candidate without entries, and not again for the one that it voted for. -/
theorem not_decidesVote :
    ¬votedInTerm.DecidesVote ⟨2, "node1", -1, -1⟩ ∧ ¬votedInTerm.DecidesVote ⟨1, "node3", 0, 1⟩ := by
  rw [decidesVote_iff_mayVote, decidesVote_iff_mayVote]
  decide

end RaftNode
end Rafting
