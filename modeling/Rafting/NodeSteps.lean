import Rafting.RaftNode
import Rafting.Library.Fallible
import Mathlib.Data.List.Induction

/-! What each handler of a node can do, stated once. Later modules cite these
case lemmas and the field lemmas, and do not unfold the handlers again. -/
namespace Rafting
open Fallible

namespace RaftNode

section AppendLog
variable (log : RaftLog) (req : AppendEntriesRequest)

/-- The consistency check that ends in the failure reply. -/
def Overreaches : Prop :=
  req.prevLogIndex > log.lastLogIndex ∨
    req.prevLogTerm ≠ log.termForIndex (asUsize req.prevLogIndex)

def appendPosition (req : AppendEntriesRequest) : Nat :=
  if req.prevLogIndex = -1 then 0 else asUsize req.prevLogIndex + 1

/-- The request's entries go into the log: either it starts from the first entry, or
its previous entry is there and has the term of the log's last one. -/
def Appends : Prop :=
  req.entries ≠ [] ∧ (req.prevLogIndex = -1 ∨ ¬Overreaches log req ∧
    req.prevLogIndex ≤ log.lastLogIndexAndTerm.1 ∧ req.prevLogTerm = log.lastLogIndexAndTerm.2)

/-- The request succeeds and leaves the log as it is: it has no entries, or its previous
entry is there but of another term than the log's last one. -/
def Confirms : Prop :=
  req.entries = [] ∨ ¬Overreaches log req ∧ ¬Appends log req

instance : Decidable (Overreaches log req) := inferInstanceAs (Decidable (_ ∨ _))

instance : Decidable (Appends log req) := inferInstanceAs (Decidable (_ ∧ (_ ∨ _)))

instance : Decidable (Confirms log req) := inferInstanceAs (Decidable (_ ∨ (_ ∧ _)))

theorem appendLog_cases :
    (appendLog log req = none ∧ req.entries ≠ [] ∧ req.prevLogIndex ≠ -1 ∧
      Overreaches log req ∧ ¬Appends log req) ∨
    (appendLog log req = some log ∧ ¬Appends log req) ∨
    (appendLog log req = some (log.appendAllFrom req.entries (appendPosition req)) ∧
      Appends log req) := by
  by_cases hempty : req.entries = []
  · exact Or.inr (Or.inl ⟨if_pos hempty, fun h => h.1 hempty⟩)
  by_cases hfirst : req.prevLogIndex = -1
  · refine Or.inr (Or.inr ⟨?_, hempty, Or.inl hfirst⟩)
    rw [appendLog, if_neg hempty, if_pos hfirst, appendPosition, if_pos hfirst]
    rfl
  by_cases hover : Overreaches log req
  · refine Or.inl ⟨?_, hempty, hfirst, hover, fun h => ?_⟩
    · rw [appendLog, if_neg hempty, if_neg hfirst]
      exact if_pos hover
    · rcases h.2 with h | h
      · exact hfirst h
      · exact h.1 hover
  have hcheck : ¬(req.prevLogIndex > log.lastLogIndex ∨
      req.prevLogTerm ≠ log.termForIndex (asUsize req.prevLogIndex)) := hover
  by_cases hlast : req.prevLogIndex ≤ log.lastLogIndexAndTerm.1 ∧
      req.prevLogTerm = log.lastLogIndexAndTerm.2
  · refine Or.inr (Or.inr ⟨?_, hempty, Or.inr ⟨hover, hlast⟩⟩)
    rw [appendLog, if_neg hempty, if_neg hfirst, if_neg hcheck, appendPosition, if_neg hfirst]
    exact if_pos hlast
  · refine Or.inr (Or.inl ⟨?_, fun h => ?_⟩)
    · rw [appendLog, if_neg hempty, if_neg hfirst, if_neg hcheck]
      exact if_neg hlast
    · rcases h.2 with h | h
      · exact hfirst h
      · exact hlast h.2

theorem appendLog_eq_none_iff : appendLog log req = none ↔
    req.entries ≠ [] ∧ req.prevLogIndex ≠ -1 ∧ Overreaches log req := by
  constructor
  · intro hnone
    rcases appendLog_cases log req with ⟨_, hne, hfirst, hover, _⟩ | ⟨heq, _⟩ | ⟨heq, _⟩
    · exact ⟨hne, hfirst, hover⟩
    · rw [hnone] at heq
      cases heq
    · rw [hnone] at heq
      cases heq
  · rintro ⟨hne, hfirst, hover⟩
    rw [appendLog, if_neg hne, if_neg hfirst]
    exact if_pos hover

theorem appendLog_getD :
    (appendLog log req).getD log =
      if Appends log req then log.appendAllFrom req.entries (appendPosition req) else log := by
  rcases appendLog_cases log req with ⟨heq, _, _, _, h⟩ | ⟨heq, h⟩ | ⟨heq, h⟩
  · rw [heq, if_neg h]
    rfl
  · rw [heq, if_neg h]
    rfl
  · rw [heq, if_pos h]
    rfl

theorem Confirms.not_appends (h : Confirms log req) : ¬Appends log req := by
  rcases h with hempty | ⟨_, hnot⟩
  · exact fun happends => happends.1 hempty
  · exact hnot

theorem appends_or_confirms (h : appendLog log req ≠ none) :
    Appends log req ∨ Confirms log req := by
  by_cases happends : Appends log req
  · exact Or.inl happends
  · right
    by_cases hempty : req.entries = []
    · exact Or.inl hempty
    · refine Or.inr ⟨fun hover => h ?_, happends⟩
      have hfirst : req.prevLogIndex ≠ -1 := fun hfirst => happends ⟨hempty, Or.inl hfirst⟩
      rw [appendLog, if_neg hempty, if_neg hfirst]
      exact if_pos hover

end AppendLog

section Fields
variable (node : RaftNode) (term index : Int)
  (req : AppendEntriesRequest) (response : AppendEntriesResponse)

@[simp] theorem becomeFollower_id : (node.becomeFollower term).id = node.id := rfl
@[simp] theorem becomeFollower_currentTerm : (node.becomeFollower term).currentTerm = term := rfl
@[simp] theorem becomeFollower_log : (node.becomeFollower term).log = node.log := rfl
@[simp] theorem becomeFollower_peers : (node.becomeFollower term).peers = node.peers := rfl
@[simp] theorem becomeFollower_state : (node.becomeFollower term).state = .follower := rfl
@[simp] theorem becomeFollower_commitIndex :
    (node.becomeFollower term).commitIndex = node.commitIndex := rfl
@[simp] theorem becomeFollower_nextIndex :
    (node.becomeFollower term).nextIndex = node.nextIndex := rfl
@[simp] theorem becomeFollower_matchIndex :
    (node.becomeFollower term).matchIndex = node.matchIndex := rfl
@[simp] theorem becomeFollower_nodeToPeersTx :
    (node.becomeFollower term).nodeToPeersTx = node.nodeToPeersTx := rfl

@[simp] theorem recordMatch_nextIndex :
    (node.recordMatch response).nextIndex =
      Function.update node.nextIndex response.fromNode (some (response.lastAppliedIndex + 1)) := rfl
@[simp] theorem recordMatch_matchIndex :
    (node.recordMatch response).matchIndex =
      Function.update node.matchIndex response.fromNode (some response.lastAppliedIndex) := rfl

theorem becomeLeader_nodeToPeersTx :
    node.becomeLeader.nodeToPeersTx = node.nodeToPeersTx ++
      node.peers.map fun peer => .appendEntriesRequestEvent (node.leaderHeartbeat peer) := rfl

theorem adoptTerm_cases :
    (node.currentTerm < req.term ∧ node.state ≠ .follower ∧
      node.adoptTerm req = { node.becomeFollower req.term with votedFor := some req.leaderId }) ∨
    (¬(node.currentTerm < req.term ∧ node.state ≠ .follower) ∧ node.adoptTerm req = node) := by
  by_cases h : node.currentTerm < req.term ∧ node.state ≠ .follower
  · exact Or.inl ⟨h.1, h.2, if_pos h⟩
  · exact Or.inr ⟨h, if_neg h⟩

@[simp] theorem adoptTerm_id : (node.adoptTerm req).id = node.id := by
  rcases adoptTerm_cases node req with ⟨_, _, h⟩ | ⟨_, h⟩ <;> simp [h]
@[simp] theorem adoptTerm_log : (node.adoptTerm req).log = node.log := by
  rcases adoptTerm_cases node req with ⟨_, _, h⟩ | ⟨_, h⟩ <;> simp [h]
@[simp] theorem adoptTerm_peers : (node.adoptTerm req).peers = node.peers := by
  rcases adoptTerm_cases node req with ⟨_, _, h⟩ | ⟨_, h⟩ <;> simp [h]
@[simp] theorem adoptTerm_commitIndex : (node.adoptTerm req).commitIndex = node.commitIndex := by
  rcases adoptTerm_cases node req with ⟨_, _, h⟩ | ⟨_, h⟩ <;> simp [h]
@[simp] theorem adoptTerm_nextIndex : (node.adoptTerm req).nextIndex = node.nextIndex := by
  rcases adoptTerm_cases node req with ⟨_, _, h⟩ | ⟨_, h⟩ <;> simp [h]
@[simp] theorem adoptTerm_matchIndex : (node.adoptTerm req).matchIndex = node.matchIndex := by
  rcases adoptTerm_cases node req with ⟨_, _, h⟩ | ⟨_, h⟩ <;> simp [h]
@[simp] theorem adoptTerm_clusterReady :
    (node.adoptTerm req).clusterReady = node.clusterReady := by
  rcases adoptTerm_cases node req with ⟨_, _, h⟩ | ⟨_, h⟩ <;> simp [h, becomeFollower]
@[simp] theorem adoptTerm_electionTimeoutTicks :
    (node.adoptTerm req).electionTimeoutTicks = node.electionTimeoutTicks := by
  rcases adoptTerm_cases node req with ⟨_, _, h⟩ | ⟨_, h⟩ <;> simp [h, becomeFollower]
@[simp] theorem adoptTerm_nodeToPeersTx :
    (node.adoptTerm req).nodeToPeersTx = node.nodeToPeersTx := by
  rcases adoptTerm_cases node req with ⟨_, _, h⟩ | ⟨_, h⟩ <;> simp [h]

theorem le_adoptTerm_currentTerm : node.currentTerm ≤ (node.adoptTerm req).currentTerm := by
  rcases adoptTerm_cases node req with ⟨hlt, _, h⟩ | ⟨_, h⟩
  · simp only [h, becomeFollower_currentTerm]
    omega
  · simp [h]

theorem adoptTerm_state_leader (h : (node.adoptTerm req).state = .leader) :
    node.adoptTerm req = node ∧ node.state = .leader ∧ req.term ≤ node.currentTerm := by
  rcases adoptTerm_cases node req with ⟨_, _, heq⟩ | ⟨hguard, heq⟩
  · rw [heq] at h
    cases h
  · rw [heq] at h
    refine ⟨heq, h, ?_⟩
    by_contra hlt
    exact hguard ⟨by omega, by simp [h]⟩

theorem commitUpTo_eq :
    node.commitUpTo index = { node with
      commitIndex := if index > node.commitIndex then min index node.lastAppliedIndex
        else node.commitIndex } := by
  unfold commitUpTo
  split <;> rfl

theorem stepAppendEntriesRequest_cases :
    (appendLog node.log req = none ∧
      node.stepAppendEntriesRequest req = (node.adoptTerm req, .appendEntriesResponseEvent {
        fromNode := node.id
        term := (node.adoptTerm req).currentTerm
        success := false
        lastAppliedIndex := node.lastAppliedIndex - 1 })) ∨
    (∃ log, appendLog node.log req = some log ∧
      node.stepAppendEntriesRequest req =
        ({ node.adoptTerm req with
            log := log
            commitIndex :=
              if req.leaderCommitIndex > node.commitIndex then
                min req.leaderCommitIndex log.lastLogIndex
              else node.commitIndex
            elapsedTicksSinceLastHeartbeat := 0 },
          .appendEntriesResponseEvent {
            fromNode := node.id
            term := req.term
            success := true
            lastAppliedIndex := log.lastLogIndex })) := by
  cases hlog : appendLog node.log req with
  | none =>
    refine Or.inl ⟨rfl, ?_⟩
    simp only [stepAppendEntriesRequest, adoptTerm_log, hlog, adoptTerm_id, lastAppliedIndex]
  | some log =>
    refine Or.inr ⟨log, rfl, ?_⟩
    simp only [stepAppendEntriesRequest, adoptTerm_log, hlog, commitUpTo_eq, adoptTerm_id,
      adoptTerm_commitIndex, lastAppliedIndex]

@[simp] theorem stepAppendEntriesRequest_id :
    (node.stepAppendEntriesRequest req).1.id = node.id := by
  rcases stepAppendEntriesRequest_cases node req with ⟨_, h⟩ | ⟨_, _, h⟩ <;> simp [h]
@[simp] theorem stepAppendEntriesRequest_peers :
    (node.stepAppendEntriesRequest req).1.peers = node.peers := by
  rcases stepAppendEntriesRequest_cases node req with ⟨_, h⟩ | ⟨_, _, h⟩ <;> simp [h]
@[simp] theorem stepAppendEntriesRequest_nextIndex :
    (node.stepAppendEntriesRequest req).1.nextIndex = node.nextIndex := by
  rcases stepAppendEntriesRequest_cases node req with ⟨_, h⟩ | ⟨_, _, h⟩ <;> simp [h]
@[simp] theorem stepAppendEntriesRequest_matchIndex :
    (node.stepAppendEntriesRequest req).1.matchIndex = node.matchIndex := by
  rcases stepAppendEntriesRequest_cases node req with ⟨_, h⟩ | ⟨_, _, h⟩ <;> simp [h]
@[simp] theorem stepAppendEntriesRequest_clusterReady :
    (node.stepAppendEntriesRequest req).1.clusterReady = node.clusterReady := by
  rcases stepAppendEntriesRequest_cases node req with ⟨_, h⟩ | ⟨_, _, h⟩ <;> simp [h]
@[simp] theorem stepAppendEntriesRequest_nodeToPeersTx :
    (node.stepAppendEntriesRequest req).1.nodeToPeersTx = node.nodeToPeersTx := by
  rcases stepAppendEntriesRequest_cases node req with ⟨_, h⟩ | ⟨_, _, h⟩ <;> simp [h]
@[simp] theorem stepAppendEntriesRequest_currentTerm :
    (node.stepAppendEntriesRequest req).1.currentTerm = (node.adoptTerm req).currentTerm := by
  rcases stepAppendEntriesRequest_cases node req with ⟨_, h⟩ | ⟨_, _, h⟩ <;> simp [h]
@[simp] theorem stepAppendEntriesRequest_state :
    (node.stepAppendEntriesRequest req).1.state = (node.adoptTerm req).state := by
  rcases stepAppendEntriesRequest_cases node req with ⟨_, h⟩ | ⟨_, _, h⟩ <;> simp [h]
@[simp] theorem stepAppendEntriesRequest_log :
    (node.stepAppendEntriesRequest req).1.log = (appendLog node.log req).getD node.log := by
  rcases stepAppendEntriesRequest_cases node req with ⟨hlog, h⟩ | ⟨_, hlog, h⟩ <;> simp [h, hlog]

end Fields

/-- A vote is granted exactly to a newer term; the guard on `voted_for` refuses
only requests of the current term, which the second test refuses as well. -/
theorem stepPeerVotesRequest_eq (node : RaftNode) (req : RequestVoteRequest) :
    node.stepPeerVotesRequest req =
      if node.currentTerm < req.term then
        ({ node.becomeFollower req.term with votedFor := some req.candidateId },
          node.voteResponse req true)
      else (node, node.voteResponse req false) := by
  unfold stepPeerVotesRequest
  split
  · rename_i h
    rw [if_neg (by omega)]
  · rfl

theorem becomeCandidate_ok {node node' : RaftNode} (h : node.becomeCandidate = .ok node') :
    node.currentTerm ≠ i32Max ∧ node'.id = node.id ∧ node'.peers = node.peers ∧
      node'.log = node.log ∧ node'.state = .candidate ∧
      node'.currentTerm = node.currentTerm + 1 ∧ node'.commitIndex = node.commitIndex ∧
      node'.nextIndex = node.nextIndex ∧ node'.matchIndex = node.matchIndex ∧
      node'.nodeToPeersTx =
        node.nodeToPeersTx ++ [.peerVotesRequestEvent node'.voteRequest] ∧
      node'.clusterReady = node.clusterReady := by
  unfold becomeCandidate at h
  split at h
  · cases h
  · rename_i hmax
    cases h
    exact ⟨hmax, rfl, rfl, rfl, rfl, rfl, rfl, rfl, rfl, rfl, rfl⟩

theorem becomeCandidate_timer {node node' : RaftNode} (h : node.becomeCandidate = .ok node') :
    node'.elapsedTicksSinceLastHeartbeat = 0 ∧
      node'.electionTimeoutTicks = node.electionTimeoutTicks := by
  unfold becomeCandidate at h
  split at h
  · cases h
  · cases h
    exact ⟨rfl, rfl⟩

theorem buildAppendRequestForPeer_ok {node : RaftNode} {peer : NodeId} {req : AppendEntriesRequest}
    (h : node.buildAppendRequestForPeer peer = .ok req) :
    ∃ prevLogIndex prevLogTerm entries,
      node.appendSlice ((node.nextIndex peer).getD 0) = .ok (prevLogIndex, prevLogTerm, entries) ∧
      req = {
        toNode := peer
        term := node.currentTerm
        leaderId := node.id
        prevLogIndex := prevLogIndex
        prevLogTerm := prevLogTerm
        entries := entries
        leaderCommitIndex := node.commitIndex
        leaderCommitTerm := node.commitTerm } := by
  obtain ⟨⟨prevLogIndex, prevLogTerm, entries⟩, hslice, hreq⟩ := ok_of_bind h
  cases hreq
  exact ⟨prevLogIndex, prevLogTerm, entries, hslice, rfl⟩

theorem tick_of_not_ready {node : RaftNode} (h : node.clusterReady = false) :
    node.tick = .ok node :=
  if_pos h

theorem tick_of_early {node : RaftNode} (hready : node.clusterReady = true)
    (hearly : node.elapsedTicksSinceLastHeartbeat + 1 <
      if node.state = .leader then heartbeatTicks else node.electionTimeoutTicks) :
    node.tick = .ok { node with
      elapsedTicksSinceLastHeartbeat := node.elapsedTicksSinceLastHeartbeat + 1 } := by
  unfold tick
  rw [if_neg (by simp [hready])]
  dsimp only
  split at hearly <;> rename_i hleader
  · rw [if_pos hleader, if_neg (by omega)]
  · rw [if_neg hleader, if_neg (by omega)]

theorem tick_of_leader {node : RaftNode} (hready : node.clusterReady = true)
    (hleader : node.state = .leader)
    (hdue : heartbeatTicks ≤ node.elapsedTicksSinceLastHeartbeat + 1) :
    node.tick = (do
      let requests ← node.peers.mapM node.buildAppendRequestForPeer
      .ok (({ node with elapsedTicksSinceLastHeartbeat := 0 }).send
        (requests.map .appendEntriesRequestEvent))) := by
  unfold tick
  rw [if_neg (by simp [hready])]
  dsimp only
  rw [if_pos hleader, if_pos (by omega)]
  rfl

theorem tick_of_timeout {node : RaftNode} (hready : node.clusterReady = true)
    (hother : node.state ≠ .leader)
    (hdue : node.electionTimeoutTicks ≤ node.elapsedTicksSinceLastHeartbeat + 1) :
    node.tick = ({ node with
      elapsedTicksSinceLastHeartbeat :=
        node.elapsedTicksSinceLastHeartbeat + 1 }).becomeCandidate := by
  unfold tick
  rw [if_neg (by simp [hready])]
  dsimp only
  rw [if_neg hother, if_pos (by omega)]

theorem tick_timed {node node' : RaftNode} (h : node.tick = .ok node') :
    (node.clusterReady = false ∧ node' = node) ∨
    (node.clusterReady = true ∧ node.state = .leader ∧
      ∃ requests, node.peers.mapM node.buildAppendRequestForPeer = .ok requests ∧
        node' = { node with
          elapsedTicksSinceLastHeartbeat := 0
          nodeToPeersTx := node.nodeToPeersTx ++ requests.map .appendEntriesRequestEvent }) ∨
    (node.clusterReady = true ∧ node.state ≠ .leader ∧
      node.electionTimeoutTicks ≤ node.elapsedTicksSinceLastHeartbeat + 1 ∧
      ({ node with
        elapsedTicksSinceLastHeartbeat :=
          node.elapsedTicksSinceLastHeartbeat + 1 }).becomeCandidate = .ok node') ∨
    (node.clusterReady = true ∧
      node' = { node with
        elapsedTicksSinceLastHeartbeat := node.elapsedTicksSinceLastHeartbeat + 1 }) := by
  by_cases hready : node.clusterReady = false
  · rw [tick_of_not_ready hready] at h
    cases h
    exact Or.inl ⟨hready, rfl⟩
  unfold tick at h
  rw [if_neg hready] at h
  have hready : node.clusterReady = true := by simpa using hready
  dsimp only at h
  split at h
  · rename_i hleader
    split at h
    · obtain ⟨requests, hreq, hnode⟩ := ok_of_bind h
      cases hnode
      exact Or.inr (Or.inl ⟨hready, hleader, requests, hreq, rfl⟩)
    · cases h
      exact Or.inr (Or.inr (Or.inr ⟨hready, rfl⟩))
  · rename_i hleader
    split at h
    · rename_i htimeout
      exact Or.inr (Or.inr (Or.inl ⟨hready, hleader, htimeout, h⟩))
    · cases h
      exact Or.inr (Or.inr (Or.inr ⟨hready, rfl⟩))

/-- The three things a tick can do: count, lead, or stand for election. -/
theorem tick_cases {node node' : RaftNode} (h : node.tick = .ok node') :
    (∃ elapsed, node' = { node with elapsedTicksSinceLastHeartbeat := elapsed }) ∨
    (node.state = .leader ∧ ∃ requests, node.peers.mapM node.buildAppendRequestForPeer = .ok requests ∧
      node' = { node with
        elapsedTicksSinceLastHeartbeat := 0
        nodeToPeersTx := node.nodeToPeersTx ++ requests.map .appendEntriesRequestEvent }) ∨
    (node.state ≠ .leader ∧ ∃ elapsed,
      ({ node with elapsedTicksSinceLastHeartbeat := elapsed }).becomeCandidate = .ok node') := by
  rcases tick_timed h with ⟨_, heq⟩ | ⟨_, hleads⟩ | ⟨_, hrole, _, hstands⟩ | ⟨_, heq⟩
  · exact Or.inl ⟨_, heq⟩
  · exact Or.inr (Or.inl hleads)
  · exact Or.inr (Or.inr ⟨hrole, _, hstands⟩)
  · exact Or.inl ⟨_, heq⟩

theorem appendSlice_error_iff {node : RaftNode} {nextIndex : Int} {fault : Fault} :
    node.appendSlice nextIndex = .error fault ↔
      (nextIndex = i64Min ∧ fault = subtractOverflow) ∨
      (nextIndex ≠ 0 ∧ nextIndex ≠ i64Min ∧ node.log.get (asUsize (nextIndex - 1)) = none ∧
        fault = unwrapNone) := by
  unfold appendSlice
  by_cases hzero : nextIndex = 0
  · simp [hzero, i64Min]
  by_cases hmin : nextIndex = i64Min
  · simp [hmin, i64Min, eq_comm]
  rw [if_neg hzero, if_neg hmin]
  cases hget : node.log.get (asUsize (nextIndex - 1)) with
  | none => simp [hzero, hmin, eq_comm]
  | some entry => simp [hmin]

theorem appendSlice_ok {node : RaftNode} {nextIndex prevLogIndex prevLogTerm : Int}
    {entries : List LogEntry}
    (h : node.appendSlice nextIndex = .ok (prevLogIndex, prevLogTerm, entries)) :
    (nextIndex = 0 ∧ prevLogIndex = -1 ∧ prevLogTerm = -1 ∧ entries = node.log.inner) ∨
    ∃ entry, nextIndex ≠ 0 ∧ nextIndex ≠ i64Min ∧
      node.log.get (asUsize (nextIndex - 1)) = some entry ∧
      prevLogIndex = entry.index ∧ prevLogTerm = entry.term ∧
      entries = if node.log.lastLogIndex ≥ nextIndex then node.log.getFrom (asUsize nextIndex)
        else [] := by
  unfold appendSlice at h
  by_cases hzero : nextIndex = 0
  · rw [if_pos hzero] at h
    cases h
    exact Or.inl ⟨hzero, rfl, rfl, rfl⟩
  by_cases hmin : nextIndex = i64Min
  · rw [if_neg hzero, if_pos hmin] at h
    cases h
  rw [if_neg hzero, if_neg hmin] at h
  cases hget : node.log.get (asUsize (nextIndex - 1)) with
  | none =>
    rw [hget] at h
    cases h
  | some entry =>
    rw [hget] at h
    cases h
    exact Or.inr ⟨entry, hzero, hmin, rfl, rfl, rfl, rfl⟩

theorem buildAppendRequestForPeer_error {node : RaftNode} {peer : NodeId} {fault : Fault}
    (h : node.buildAppendRequestForPeer peer = .error fault) :
    node.appendSlice ((node.nextIndex peer).getD 0) = .error fault := by
  rcases error_of_bind h with hslice | ⟨slice, _, hok⟩
  · exact hslice
  · cases hok

theorem tick_error {node : RaftNode} {fault : Fault} (h : node.tick = .error fault) :
    (node.state = .leader ∧ ∃ peer ∈ node.peers,
      node.appendSlice ((node.nextIndex peer).getD 0) = .error fault) ∨
    (node.state ≠ .leader ∧ node.currentTerm = i32Max ∧ fault = addOverflow) := by
  unfold tick at h
  split at h
  · cases h
  · dsimp only at h
    split at h
    · rename_i hleader
      split at h
      · rcases error_of_bind h with hbuild | ⟨requests, _, hok⟩
        · obtain ⟨peer, hpeer, herror⟩ := exists_of_mapM_error hbuild
          exact Or.inl ⟨hleader, peer, hpeer, buildAppendRequestForPeer_error herror⟩
        · cases hok
      · cases h
    · rename_i hleader
      split at h
      · unfold becomeCandidate at h
        split at h
        · rename_i hmax
          cases h
          exact Or.inr ⟨hleader, hmax, rfl⟩
        · cases h
      · cases h

theorem commitRound_eq (node : RaftNode) (ci : Nat) :
    ∃ index, node.commitRound ci = { node with commitIndex := index } := by
  unfold commitRound
  split
  · exact ⟨node.commitIndex, rfl⟩
  · split
    · exact ⟨ci, rfl⟩
    · exact ⟨node.commitIndex, rfl⟩

theorem foldl_commitRound_eq (positions : List Nat) (node : RaftNode) :
    ∃ index, positions.foldl commitRound node = { node with commitIndex := index } := by
  induction positions generalizing node with
  | nil => exact ⟨node.commitIndex, rfl⟩
  | cons ci rest ih =>
    obtain ⟨index, hround⟩ := commitRound_eq node ci
    obtain ⟨index', hrest⟩ := ih (node.commitRound ci)
    exact ⟨index', by rw [List.foldl_cons, hrest, hround]⟩

theorem commitLoop_eq (node : RaftNode) :
    ∃ index, node.commitLoop = { node with commitIndex := index } :=
  foldl_commitRound_eq _ node

@[simp] theorem commitLoop_state (node : RaftNode) : node.commitLoop.state = node.state := by
  obtain ⟨_, hloop⟩ := commitLoop_eq node
  rw [hloop]
@[simp] theorem commitLoop_currentTerm (node : RaftNode) :
    node.commitLoop.currentTerm = node.currentTerm := by
  obtain ⟨_, hloop⟩ := commitLoop_eq node
  rw [hloop]
@[simp] theorem commitLoop_nextIndex (node : RaftNode) :
    node.commitLoop.nextIndex = node.nextIndex := by
  obtain ⟨_, hloop⟩ := commitLoop_eq node
  rw [hloop]
@[simp] theorem commitLoop_matchIndex (node : RaftNode) :
    node.commitLoop.matchIndex = node.matchIndex := by
  obtain ⟨_, hloop⟩ := commitLoop_eq node
  rw [hloop]

def Counted (node : RaftNode) (ci : Nat) : Prop :=
  ∃ entry, node.log.get ci = some entry ∧ entry.term = node.currentTerm ∧
    node.quorumSize ≤ node.replicaCount ci

instance (node : RaftNode) (ci : Nat) : Decidable (node.Counted ci) :=
  inferInstanceAs (Decidable (∃ entry ∈ node.log.get ci, _ ∧ _))

theorem commitRound_of_counted {node : RaftNode} {ci : Nat} (h : node.Counted ci) :
    node.commitRound ci = { node with commitIndex := ci } := by
  obtain ⟨entry, hget, hterm, hquorum⟩ := h
  rw [commitRound, hget]
  exact if_pos ⟨hterm, hquorum⟩

theorem commitRound_of_not_counted {node : RaftNode} {ci : Nat} (h : ¬node.Counted ci) :
    node.commitRound ci = node := by
  unfold commitRound
  split
  · rfl
  · rename_i entry hget
    exact if_neg fun hcounts => h ⟨entry, hget, hcounts.1, hcounts.2⟩

theorem foldl_commitRound_range (node : RaftNode) (start count : Nat) :
    ((List.range' start count).foldl commitRound node = node ∧
      ∀ ci, start ≤ ci → ci < start + count → ¬node.Counted ci) ∨
    ∃ ci, start ≤ ci ∧ ci < start + count ∧ node.Counted ci ∧
      (∀ ci', ci < ci' → ci' < start + count → ¬node.Counted ci') ∧
      (List.range' start count).foldl commitRound node = { node with commitIndex := ci } := by
  induction count with
  | zero => exact Or.inl ⟨rfl, fun ci _ _ => by omega⟩
  | succ count ih =>
    rw [List.range'_1_concat, List.foldl_append, List.foldl_cons, List.foldl_nil]
    obtain ⟨index, hsame⟩ := foldl_commitRound_eq (List.range' start count) node
    by_cases hcounted : node.Counted (start + count)
    · refine Or.inr ⟨start + count, by omega, by omega, hcounted, fun ci' _ _ => by omega, ?_⟩
      rw [hsame, commitRound_of_counted
        (show Counted { node with commitIndex := index } _ from hcounted)]
    · have hskipped : ¬Counted ((List.range' start count).foldl commitRound node)
          (start + count) := by
        rw [hsame]
        exact hcounted
      rw [commitRound_of_not_counted hskipped]
      rcases ih with ⟨heq, hnone⟩ | ⟨ci, hlow, hhigh, hci, hlast, heq⟩
      · refine Or.inl ⟨heq, fun ci hlow hhigh => ?_⟩
        by_cases hend : ci = start + count
        · exact hend ▸ hcounted
        · exact hnone ci hlow (by omega)
      · refine Or.inr ⟨ci, hlow, by omega, hci, fun ci' hlt hhigh' => ?_, heq⟩
        by_cases hend : ci' = start + count
        · exact hend ▸ hcounted
        · exact hlast ci' hlt (by omega)

theorem commitLoop_cases (node : RaftNode) :
    (node.commitLoop = node ∧ ∀ ci : Nat, node.commitIndex ≤ ci → ¬node.Counted ci) ∨
    ∃ ci : Nat, node.commitIndex ≤ ci ∧ ci < node.log.len ∧ node.Counted ci ∧
      (∀ ci', ci < ci' → ¬node.Counted ci') ∧
      node.commitLoop = { node with commitIndex := ci } := by
  have hinside : ∀ ci, node.Counted ci → ci < node.log.len := by
    rintro ci ⟨entry, hget, _⟩
    exact (List.getElem?_eq_some_iff.mp hget).1
  rcases foldl_commitRound_range node (max node.commitIndex 0).toNat
    (node.log.len - (max node.commitIndex 0).toNat) with ⟨heq, hnone⟩ |
    ⟨ci, hlow, hhigh, hcounted, hlast, heq⟩
  · refine Or.inl ⟨heq, fun ci hle hcounted => ?_⟩
    have hlt := hinside ci hcounted
    exact hnone ci (by omega) (by omega) hcounted
  · have hlt := hinside ci hcounted
    refine Or.inr ⟨ci, by omega, hlt, hcounted, fun ci' hle hcounted' => ?_, heq⟩
    have hlt' := hinside ci' hcounted'
    exact hlast ci' hle (by omega) hcounted'

/-- A reply to `AppendEntries` deposes its receiver, is ignored, is recorded, or
backs the peer's next index up by one. -/
theorem stepAppendEntriesResponse_cases {node node' : RaftNode} {response : AppendEntriesResponse}
    (h : node.stepAppendEntriesResponse response = .ok node') :
    (response.term > node.currentTerm ∧ node.state ≠ .follower ∧
      node' = node.becomeFollower response.term) ∨
    node' = node ∨
    (node.state = .leader ∧ node.currentTerm = response.term ∧ response.success = true ∧
      response.lastAppliedIndex < i64Max ∧ node' = (node.recordMatch response).commitLoop) ∨
    (node.state = .leader ∧ node.currentTerm = response.term ∧ response.success = false ∧
      ∃ nextIndex, (node.nextIndex response.fromNode = some nextIndex ∧ nextIndex ≠ i64Min) ∧
        node' = { node with
          nextIndex := Function.update node.nextIndex response.fromNode (some (nextIndex - 1)) }) := by
  unfold stepAppendEntriesResponse at h
  by_cases hnew : response.term > node.currentTerm ∧ node.state ≠ .follower
  · rw [if_pos hnew] at h
    cases h
    exact Or.inl ⟨hnew.1, hnew.2, rfl⟩
  · rw [if_neg hnew] at h
    dsimp only at h
    split at h
    · rename_i hlead
      split at h
      · rename_i hsuccess
        split at h
        · cases h
        · rename_i hmax
          cases h
          exact Or.inr (Or.inr (Or.inl ⟨hlead.1, hlead.2, hsuccess, Int.not_le.mp hmax, rfl⟩))
      · rename_i hsuccess
        split at h
        · cases h
        · rename_i nextIndex hnext
          split at h
          · cases h
          · rename_i hmin
            cases h
            exact Or.inr (Or.inr (Or.inr ⟨hlead.1, hlead.2, by simpa using hsuccess,
              nextIndex, ⟨hnext, hmin⟩, rfl⟩))
    · cases h
      exact Or.inr (Or.inl rfl)

theorem stepAppendEntriesResponse_success {node : RaftNode} {response : AppendEntriesResponse}
    (hleader : node.state = .leader) (hown : node.currentTerm = response.term)
    (hsuccess : response.success = true) (hmax : response.lastAppliedIndex < i64Max) :
    node.stepAppendEntriesResponse response = .ok (node.recordMatch response).commitLoop := by
  have hnew : ¬(response.term > node.currentTerm ∧ node.state ≠ .follower) := by omega
  unfold stepAppendEntriesResponse
  rw [if_neg hnew]
  dsimp only
  rw [if_pos ⟨hleader, hown⟩, if_pos hsuccess, if_neg (Int.not_le.mpr hmax)]

theorem stepAppendEntriesResponse_reject {node : RaftNode} {response : AppendEntriesResponse}
    {nextIndex : Int} (hleader : node.state = .leader) (hown : node.currentTerm = response.term)
    (hsuccess : response.success = false)
    (hnext : node.nextIndex response.fromNode = some nextIndex) (hmin : nextIndex ≠ i64Min) :
    node.stepAppendEntriesResponse response = .ok { node with
      nextIndex := Function.update node.nextIndex response.fromNode (some (nextIndex - 1)) } := by
  have hnew : ¬(response.term > node.currentTerm ∧ node.state ≠ .follower) := by omega
  unfold stepAppendEntriesResponse
  rw [if_neg hnew]
  dsimp only
  rw [if_pos ⟨hleader, hown⟩, if_neg (by simp [hsuccess]), hnext]
  exact if_neg hmin

theorem stepAppendEntriesResponse_older {node : RaftNode} {response : AppendEntriesResponse}
    (holder : response.term < node.currentTerm) :
    node.stepAppendEntriesResponse response = .ok node := by
  have hnew : ¬(response.term > node.currentTerm ∧ node.state ≠ .follower) := by omega
  unfold stepAppendEntriesResponse
  rw [if_neg hnew]
  dsimp only
  exact if_neg (by omega)

theorem stepAppendEntriesResponse_error_iff {node : RaftNode} {response : AppendEntriesResponse}
    {fault : Fault} : node.stepAppendEntriesResponse response = .error fault ↔
      node.state = .leader ∧ node.currentTerm = response.term ∧
        ((response.success = true ∧ i64Max ≤ response.lastAppliedIndex ∧ fault = addOverflow) ∨
          (response.success = false ∧ node.nextIndex response.fromNode = none ∧
            fault = unwrapNone) ∨
          (response.success = false ∧ node.nextIndex response.fromNode = some i64Min ∧
            fault = subtractOverflow)) := by
  unfold stepAppendEntriesResponse
  by_cases hnew : response.term > node.currentTerm ∧ node.state ≠ .follower
  · rw [if_pos hnew]
    have hterm : node.currentTerm ≠ response.term := by omega
    simp [becomeFollower, hterm]
  rw [if_neg hnew]
  dsimp only
  by_cases hlead : node.state = .leader ∧ node.currentTerm = response.term
  case neg =>
    rw [if_neg hlead]
    simp only [reduceCtorEq, false_iff]
    exact fun h => hlead ⟨h.1, h.2.1⟩
  rw [if_pos hlead]
  cases hsuccess : response.success with
  | true =>
    by_cases hmax : i64Max ≤ response.lastAppliedIndex
    · simp [hlead, hmax, eq_comm]
    · simp [hmax]
  | false =>
    cases hnext : node.nextIndex response.fromNode with
    | none => simp [hlead, eq_comm]
    | some nextIndex =>
      by_cases hmin : nextIndex = i64Min
      · simp [hlead, hmin, eq_comm]
      · simp [hmin]

theorem stepPeerVotesResponse_cases (node : RaftNode) (responses : List RequestVoteResponse) :
    ((responses.filter fun r => r.voteGranted).length ≥ node.quorumSize ∧
      node.stepPeerVotesResponse responses = node.becomeLeader) ∨
    ((responses.filter fun r => r.voteGranted).length < node.quorumSize ∧
      node.stepPeerVotesResponse responses = node.becomeFollower node.currentTerm) := by
  unfold stepPeerVotesResponse
  split
  · exact Or.inl ⟨‹_›, rfl⟩
  · exact Or.inr ⟨by omega, rfl⟩

theorem step_cases {node node' : RaftNode} {event : RaftEvent} {sender : Option Sender}
    {reply : Option RaftEvent} (h : node.step (event, sender) = .ok (node', reply)) :
    (∃ req, event = .peerVotesRequestEvent req ∧ node' = (node.stepPeerVotesRequest req).1 ∧
      reply = some (node.stepPeerVotesRequest req).2) ∨
    (∃ req, event = .appendEntriesRequestEvent req ∧
      node' = (node.stepAppendEntriesRequest req).1 ∧
      reply = some (node.stepAppendEntriesRequest req).2) ∨
    (reply = none ∧ ∃ response, event = .appendEntriesResponseEvent response ∧
      node.stepAppendEntriesResponse response = .ok node') ∨
    (reply = none ∧ ∃ responses, event = .peerVotesResponseEvent responses ∧
      node' = node.stepPeerVotesResponse responses) ∨
    (reply = none ∧ ∃ ready, node' = { node with clusterReady := ready }) := by
  cases event <;> cases sender
  case peerVotesRequestEvent.some req _ =>
    cases h
    exact Or.inl ⟨req, rfl, rfl, rfl⟩
  case appendEntriesRequestEvent.some req _ =>
    cases h
    exact Or.inr (Or.inl ⟨req, rfl, rfl, rfl⟩)
  case appendEntriesResponseEvent.none response =>
    obtain ⟨next, hstep, hnode⟩ := ok_of_bind h
    cases hnode
    exact Or.inr (Or.inr (Or.inl ⟨rfl, response, rfl, hstep⟩))
  case peerVotesResponseEvent.none responses =>
    cases h
    exact Or.inr (Or.inr (Or.inr (Or.inl ⟨rfl, responses, rfl, rfl⟩)))
  case clusterNodesDownEvent.none =>
    cases h
    exact Or.inr (Or.inr (Or.inr (Or.inr ⟨rfl, false, rfl⟩)))
  case clusterNodesUpEvent.none =>
    cases h
    exact Or.inr (Or.inr (Or.inr (Or.inr ⟨rfl, true, rfl⟩)))
  all_goals cases h

theorem handleClientRequest_leader {node : RaftNode} (h : node.state = .leader)
    (command : SetCommand) :
    node.handleClientRequest (.commandRequestEvent command) =
      { node := { node with log := node.log.append (node.clientEntry command) }
        reply := some (.ok (.commandResponseEvent true))
        result := .ok () } :=
  if_neg (not_not_intro h)

theorem handleClientRequest_other {node : RaftNode} (h : node.state ≠ .leader)
    (command : SetCommand) :
    node.handleClientRequest (.commandRequestEvent command) =
      { node := node
        reply := some (.error notTheLeader)
        result := .error (.error notTheLeader) } :=
  if_pos h

end RaftNode
end Rafting
