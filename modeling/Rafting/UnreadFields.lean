import Rafting.ServerLoop
import Rafting.Library.Refinement

/-! What is written and never read. A handler sets the vote, the vote count and the commit
term of a node, and a request carries the candidate's log and the leader's name; no later
step depends on any of them. -/
namespace Rafting
open Transition Fallible

/-! ## The fields wiped out -/

/-- Of a vote request only the term is read, of a vote response only the vote. -/
def RequestVoteRequest.erase (req : RequestVoteRequest) : RequestVoteRequest where
  term := req.term
  candidateId := ""
  lastLogIndex := 0
  lastLogTerm := 0

def RequestVoteResponse.erase (response : RequestVoteResponse) : RequestVoteResponse where
  fromNode := ""
  term := 0
  voteGranted := response.voteGranted

/-- Of an append request all is read but the leader's name and its commit term. -/
def AppendEntriesRequest.erase (req : AppendEntriesRequest) : AppendEntriesRequest :=
  { req with leaderId := "", leaderCommitTerm := 0 }

def RaftEvent.erase : RaftEvent → RaftEvent
  | peerVotesRequestEvent req => peerVotesRequestEvent req.erase
  | peerVotesResponseEvent responses => peerVotesResponseEvent (responses.map (·.erase))
  | appendEntriesRequestEvent req => appendEntriesRequestEvent req.erase
  | appendEntriesResponseEvent response => appendEntriesResponseEvent response
  | requestVoteResponseEvent response => requestVoteResponseEvent response.erase
  | clusterNodesDownEvent => clusterNodesDownEvent
  | clusterNodesUpEvent => clusterNodesUpEvent

def RaftNode.erase (node : RaftNode) : RaftNode :=
  { node with
    votedFor := none
    commitTerm := 0
    votes := 0
    nodeToPeersTx := node.nodeToPeersTx.map RaftEvent.erase }

def Call.erase : Call → Call
  | pending => pending
  | answered reply => answered reply.erase
  | failed status => failed status

def eraseCalls (calls : List (NodeId × Call)) : List (NodeId × Call) :=
  calls.map fun call => (call.1, call.2.erase)

def Phase.erase : Phase → Phase
  | selecting => selecting
  | awaiting event calls => awaiting event.erase (eraseCalls calls)
  | stopped fault => stopped fault

def RaftServer.erase (server : RaftServer) : RaftServer where
  node := server.node.erase
  network := server.network
  phase := server.phase.erase

def Orphan.erase (orphan : Orphan) : Orphan where
  peer := orphan.peer
  event := orphan.event.erase

def Cluster.erase (c : Cluster) : Cluster where
  servers := fun a => (c.servers a).erase
  orphans := c.orphans.map Orphan.erase

/-! ## Nodes -/

@[simp] theorem RaftEvent.erase_append (req : AppendEntriesRequest) :
    (appendEntriesRequestEvent req).erase = appendEntriesRequestEvent req.erase := rfl

@[simp] theorem RaftEvent.erase_vote (req : RequestVoteRequest) :
    (peerVotesRequestEvent req).erase = peerVotesRequestEvent req.erase := rfl

@[simp] theorem RaftEvent.erase_votes (responses : List RequestVoteResponse) :
    (peerVotesResponseEvent responses).erase =
      peerVotesResponseEvent (responses.map (·.erase)) := rfl

@[simp] theorem RaftEvent.erase_reply (response : AppendEntriesResponse) :
    (appendEntriesResponseEvent response).erase = appendEntriesResponseEvent response := rfl

@[simp] theorem RaftEvent.erase_voteReply (response : RequestVoteResponse) :
    (requestVoteResponseEvent response).erase = requestVoteResponseEvent response.erase := rfl

@[simp] theorem RaftEvent.erase_down : clusterNodesDownEvent.erase = clusterNodesDownEvent := rfl

@[simp] theorem RaftEvent.erase_up : clusterNodesUpEvent.erase = clusterNodesUpEvent := rfl

@[simp] theorem RaftEvent.erase_erase (event : RaftEvent) : event.erase.erase = event.erase := by
  cases event with
  | peerVotesResponseEvent responses => simp [erase, RequestVoteResponse.erase]
  | _ => rfl

namespace RaftNode

variable (node : RaftNode)

@[simp] theorem erase_erase : node.erase.erase = node.erase := by
  simp [erase]

theorem becomeCandidate_erase :
    node.erase.becomeCandidate.map erase = node.becomeCandidate.map erase := by
  unfold becomeCandidate
  by_cases hmax : node.currentTerm = i32Max
  · rw [if_pos hmax, if_pos (show node.erase.currentTerm = i32Max from hmax)]
  · rw [if_neg hmax, if_neg (show ¬node.erase.currentTerm = i32Max from hmax)]
    simp [Except.map, erase, send, voteRequest]

theorem becomeLeader_erase : node.erase.becomeLeader.erase = node.becomeLeader.erase := by
  simp [becomeLeader, erase, send, leaderHeartbeat, AppendEntriesRequest.erase, Function.comp_def]

theorem buildAppendRequestForPeer_erase (peer : NodeId) :
    node.erase.buildAppendRequestForPeer peer =
      (node.buildAppendRequestForPeer peer).map fun req => { req with leaderCommitTerm := 0 } := by
  unfold buildAppendRequestForPeer
  rw [show node.erase.appendSlice = node.appendSlice from rfl,
    show node.erase.nextIndex = node.nextIndex from rfl]
  cases node.appendSlice ((node.nextIndex peer).getD 0) <;> rfl

theorem tick_erase : node.erase.tick.map erase = node.tick.map erase := by
  by_cases hready : node.clusterReady = false
  · rw [tick_of_not_ready hready, @tick_of_not_ready node.erase hready]
    simp [Except.map]
  have hready : node.clusterReady = true := by simpa using hready
  by_cases hearly : node.elapsedTicksSinceLastHeartbeat + 1 <
      if node.state = .leader then heartbeatTicks else node.electionTimeoutTicks
  · rw [tick_of_early hready hearly, @tick_of_early node.erase hready hearly]
    simp [Except.map, erase]
  by_cases hleader : node.state = .leader
  · rw [if_pos hleader] at hearly
    rw [tick_of_leader hready hleader (by omega),
      @tick_of_leader node.erase hready hleader (Nat.le_of_not_lt hearly),
      funext node.buildAppendRequestForPeer_erase, mapM_except_map]
    change Except.map erase (do
        let requests ← (node.peers.mapM node.buildAppendRequestForPeer).map _
        _) = _
    cases node.peers.mapM node.buildAppendRequestForPeer with
    | error fault => rfl
    | ok requests =>
      simp [Except.map, bind, Except.bind, erase, send, Function.comp_def,
        AppendEntriesRequest.erase]
  · rw [if_neg hleader] at hearly
    rw [tick_of_timeout hready hleader (by omega),
      @tick_of_timeout node.erase hready hleader (Nat.le_of_not_lt hearly)]
    exact becomeCandidate_erase { node with
      elapsedTicksSinceLastHeartbeat := node.elapsedTicksSinceLastHeartbeat + 1 }

variable (req : AppendEntriesRequest)

theorem stepPeerVotesRequest_erase (req : RequestVoteRequest) :
    (node.erase.stepPeerVotesRequest req.erase).1.erase = (node.stepPeerVotesRequest req).1.erase ∧
      (node.erase.stepPeerVotesRequest req.erase).2.erase =
        (node.stepPeerVotesRequest req).2.erase := by
  rw [stepPeerVotesRequest_eq, stepPeerVotesRequest_eq]
  by_cases hnewer : node.currentTerm < req.term
  · rw [if_pos hnewer, if_pos (show node.erase.currentTerm < req.erase.term from hnewer)]
    exact ⟨by simp [erase, becomeFollower, RequestVoteRequest.erase], rfl⟩
  · rw [if_neg hnewer, if_neg (show ¬node.erase.currentTerm < req.erase.term from hnewer)]
    exact ⟨node.erase_erase, rfl⟩

theorem adoptTerm_erase : (node.erase.adoptTerm req.erase).erase = (node.adoptTerm req).erase := by
  unfold adoptTerm
  by_cases hnewer : node.currentTerm < req.term ∧ node.state ≠ .follower
  · rw [if_pos hnewer,
      if_pos (show node.erase.currentTerm < req.erase.term ∧ node.erase.state ≠ _ from hnewer)]
    simp [erase, becomeFollower, AppendEntriesRequest.erase]
  · rw [if_neg hnewer,
      if_neg (show ¬(node.erase.currentTerm < req.erase.term ∧ node.erase.state ≠ _) from hnewer)]
    exact node.erase_erase

theorem stepAppendEntriesRequest_erase :
    (node.erase.stepAppendEntriesRequest req.erase).1.erase =
        (node.stepAppendEntriesRequest req).1.erase ∧
      (node.erase.stepAppendEntriesRequest req.erase).2.erase =
        (node.stepAppendEntriesRequest req).2.erase := by
  have hadopt := node.adoptTerm_erase req
  have hsame : appendLog node.erase.log req.erase = appendLog node.log req := rfl
  rcases stepAppendEntriesRequest_cases node req with ⟨hlog, heq⟩ | ⟨log, hlog, heq⟩ <;>
    rcases stepAppendEntriesRequest_cases node.erase req.erase with
      ⟨hlog', heq'⟩ | ⟨log', hlog', heq'⟩ <;>
    rw [hsame, hlog] at hlog' <;> cases hlog' <;> rw [heq, heq']
  · refine ⟨hadopt, ?_⟩
    have hterm := congrArg RaftNode.currentTerm hadopt
    simp only [RaftEvent.erase]
    rw [show (node.erase.adoptTerm req.erase).currentTerm = (node.adoptTerm req).currentTerm
      from hterm]
    rfl
  · exact ⟨congrArg (fun n : RaftNode => { n with
      log := log
      commitIndex := if req.leaderCommitIndex > node.commitIndex then
        min req.leaderCommitIndex log.lastLogIndex else node.commitIndex
      elapsedTicksSinceLastHeartbeat := 0 }) hadopt, rfl⟩

theorem commitRound_erase (ci : Nat) : node.erase.commitRound ci = (node.commitRound ci).erase := by
  unfold commitRound
  rw [show node.erase.log = node.log from rfl]
  cases node.log.get ci with
  | none => rfl
  | some entry =>
    dsimp only
    by_cases hcounted : entry.term = node.currentTerm ∧ node.replicaCount ci ≥ node.quorumSize
    · rw [if_pos hcounted, if_pos (show entry.term = node.erase.currentTerm ∧
        node.erase.replicaCount ci ≥ node.erase.quorumSize from hcounted)]
      rfl
    · rw [if_neg hcounted, if_neg (show ¬(entry.term = node.erase.currentTerm ∧
        node.erase.replicaCount ci ≥ node.erase.quorumSize) from hcounted)]

theorem commitLoop_erase : node.erase.commitLoop = node.commitLoop.erase := by
  unfold commitLoop
  exact List.foldl_hom erase fun n ci => n.commitRound_erase ci

theorem stepAppendEntriesResponse_erase (response : AppendEntriesResponse) :
    (node.erase.stepAppendEntriesResponse response).map erase =
      (node.stepAppendEntriesResponse response).map erase := by
  have hterm : node.erase.currentTerm = node.currentTerm := rfl
  have hstate : node.erase.state = node.state := rfl
  have hnext : node.erase.nextIndex = node.nextIndex := rfl
  unfold stepAppendEntriesResponse
  rw [hterm, hstate]
  by_cases hnew : response.term > node.currentTerm ∧ node.state ≠ .follower
  · rw [if_pos hnew, if_pos hnew]
    simp [Except.map, erase, becomeFollower]
  rw [if_neg hnew, if_neg hnew]
  dsimp only
  rw [hterm, hstate]
  by_cases hlead : node.state = .leader ∧ node.currentTerm = response.term
  · rw [if_pos hlead, if_pos hlead, hnext]
    cases response.success with
    | true =>
      have hrecord : node.erase.recordMatch response = (node.recordMatch response).erase := rfl
      by_cases hmax : i64Max ≤ response.lastAppliedIndex <;>
        simp [hmax, Except.map, hrecord, commitLoop_erase]
    | false =>
      cases node.nextIndex response.fromNode with
      | none => rfl
      | some nextIndex =>
        by_cases hmin : nextIndex = i64Min <;> simp [hmin, Except.map, erase]
  · rw [if_neg hlead, if_neg hlead]
    simp [Except.map]

theorem stepPeerVotesResponse_erase (responses : List RequestVoteResponse) :
    (node.erase.stepPeerVotesResponse (responses.map (·.erase))).erase =
      (node.stepPeerVotesResponse responses).erase := by
  unfold stepPeerVotesResponse
  have hcount : ((responses.map (·.erase)).filter fun r => r.voteGranted).length =
      (responses.filter fun r => r.voteGranted).length := by
    rw [List.filter_map, List.length_map]
    rfl
  rw [hcount, show node.erase.quorumSize = node.quorumSize from rfl]
  split
  · exact node.becomeLeader_erase
  · simp [erase, becomeFollower]

def eraseResult (result : RaftNode × Option RaftEvent) : RaftNode × Option RaftEvent :=
  (result.1.erase, result.2.map RaftEvent.erase)

theorem step_erase (event : RaftEvent) (sender : Option Sender) :
    (node.erase.step (event.erase, sender)).map eraseResult =
      (node.step (event, sender)).map eraseResult := by
  cases event with
  | peerVotesRequestEvent req =>
    cases sender with
    | none => rfl
    | some sender =>
      obtain ⟨hnode, hreply⟩ := node.stepPeerVotesRequest_erase req
      simp [step, Except.map, eraseResult, hnode, hreply]
  | appendEntriesRequestEvent req =>
    cases sender with
    | none => rfl
    | some sender =>
      obtain ⟨hnode, hreply⟩ := node.stepAppendEntriesRequest_erase req
      simp [step, Except.map, eraseResult, hnode, hreply]
  | peerVotesResponseEvent responses =>
    cases sender with
    | none =>
      simp [step, Except.map, eraseResult, stepPeerVotesResponse_erase]
    | some sender => rfl
  | appendEntriesResponseEvent response =>
    cases sender with
    | none =>
      have h := node.stepAppendEntriesResponse_erase response
      simp only [step, RaftEvent.erase_reply]
      rcases cases_of_map_eq h with ⟨fault, hres, hres'⟩ | ⟨after, after', hres, hres', hnode⟩
      · rw [hres, hres']
      · rw [hres, hres']
        simp [bind, Except.bind, Except.map, eraseResult, hnode]
    | some sender => rfl
  | requestVoteResponseEvent response => rfl
  | clusterNodesDownEvent =>
    cases sender with
    | none => simp [step, Except.map, eraseResult, erase]
    | some sender => rfl
  | clusterNodesUpEvent =>
    cases sender with
    | none => simp [step, Except.map, eraseResult, erase]
    | some sender => rfl

end RaftNode

/-! ## Loops -/

theorem eraseCalls_erase (calls : List (NodeId × Call)) :
    eraseCalls (eraseCalls calls) = eraseCalls calls := by
  have hcall : ∀ call : Call, call.erase.erase = call.erase := fun call => by
    cases call <;> simp [Call.erase]
  simp [eraseCalls, hcall]

theorem Call.erase_eq_pending {call : Call} : call.erase = pending ↔ call = pending := by
  cases call <;> simp [erase]

theorem mem_eraseCalls_pending {peer : NodeId} {calls : List (NodeId × Call)} :
    (peer, Call.pending) ∈ eraseCalls calls ↔ (peer, Call.pending) ∈ calls := by
  constructor
  · intro hmem
    obtain ⟨⟨peer', call⟩, hcall, heq⟩ := List.mem_map.mp hmem
    obtain ⟨rfl, hpending⟩ := Prod.mk.inj heq
    exact Call.erase_eq_pending.mp hpending ▸ hcall
  · exact fun hmem => List.mem_map.mpr ⟨_, hmem, rfl⟩

theorem voteResponses_erase (calls : List (NodeId × Call)) :
    PeerNetwork.voteResponses (eraseCalls calls) =
      (PeerNetwork.voteResponses calls).map (·.erase) := by
  unfold PeerNetwork.voteResponses eraseCalls
  rw [List.filterMap_map, List.map_filterMap]
  congr 1
  funext ⟨peer, call⟩
  cases call with
  | answered reply => cases reply <;> rfl
  | _ => rfl

theorem respond_erase (request : RaftEvent) (reply : Option RaftEvent) :
    respond request.erase (reply.map RaftEvent.erase) = (respond request reply).erase := by
  cases request <;> cases reply with
  | none => rfl
  | some reply => cases reply <;> rfl

theorem setCall_erase (calls : List (NodeId × Call)) (peer : NodeId) (outcome : Call) :
    setCall (eraseCalls calls) peer outcome.erase = eraseCalls (setCall calls peer outcome) := by
  unfold setCall eraseCalls
  rw [List.map_map, List.map_map]
  congr 1
  funext call
  by_cases hpeer : call.1 = peer <;> simp [hpeer]

@[simp] theorem Phase.erase_erase (phase : Phase) : phase.erase.erase = phase.erase := by
  cases phase <;> simp [erase, eraseCalls_erase]

namespace RaftServer

variable (server : RaftServer)

@[simp] theorem erase_erase : server.erase.erase = server.erase := by
  simp [erase]

theorem settle_erase {result result' : RaftResult RaftNode}
    (h : result'.map RaftNode.erase = result.map RaftNode.erase) :
    (server.erase.settle result').erase = (server.settle result).erase := by
  rcases cases_of_map_eq h with ⟨fault, rfl, rfl⟩ | ⟨node, node', rfl, rfl, hnode⟩
  · simp [settle, erase, Phase.erase]
  · simp [settle, erase, Phase.erase, hnode]

def eraseServed (result : RaftServer × Option RaftEvent) : RaftServer × Option RaftEvent :=
  (result.1.erase, result.2.map RaftEvent.erase)

theorem selectServer_erase (event : RaftEvent) (sender : Option Sender) :
    eraseServed (server.erase.selectServer (event.erase, sender)) =
      eraseServed (server.selectServer (event, sender)) := by
  have h := server.node.step_erase event sender
  unfold selectServer
  rw [show server.erase.node = server.node.erase from rfl]
  rcases cases_of_map_eq h with ⟨fault, hres, hres'⟩ | ⟨result, result', hres, hres', hresult⟩
  · rw [hres, hres']
    simp [eraseServed, erase, Phase.erase]
  · rw [hres, hres']
    obtain ⟨hnode, hreply⟩ := Prod.mk.inj hresult
    simp [eraseServed, erase, Phase.erase, hnode, hreply]

theorem selectTick_erase : server.erase.selectTick.erase = server.selectTick.erase :=
  server.settle_erase server.node.tick_erase

theorem selectClient_erase (command : SetCommand) :
    (server.erase.selectClient (.commandRequestEvent command)).erase =
      (server.selectClient (.commandRequestEvent command)).erase := by
  unfold selectClient
  by_cases hleader : server.node.state = .leader
  · rw [RaftNode.handleClientRequest_leader hleader,
      @RaftNode.handleClientRequest_leader server.erase.node hleader]
    simp [erase, RaftNode.erase, RaftNode.clientEntry, RaftNode.lastAppliedIndex]
  · rw [RaftNode.handleClientRequest_other hleader,
      @RaftNode.handleClientRequest_other server.erase.node hleader]
    simp [erase, Phase.erase]

theorem answer_erase (peer : NodeId) {outcome outcome' : Call}
    (h : outcome'.erase = outcome.erase) :
    (server.erase.answer peer outcome').erase = (server.answer peer outcome).erase := by
  unfold answer
  rw [show server.erase.phase = server.phase.erase from rfl]
  cases hphase : server.phase with
  | awaiting event calls =>
    simp [Phase.erase, erase, ← setCall_erase, eraseCalls_erase, h]
  | selecting => exact erase_erase server
  | stopped fault => exact erase_erase server

theorem clusterUp_erase : server.erase.clusterUp.erase = server.clusterUp.erase := by
  have h := { server with network := server.network.waitForPeers }.selectServer_erase
    .clusterNodesUpEvent none
  exact congrArg Prod.fst h

theorem selectPeers_erase :
    server.erase.selectPeers.map erase = server.selectPeers.map erase := by
  unfold selectPeers
  rw [show server.erase.node.nodeToPeersTx = server.node.nodeToPeersTx.map RaftEvent.erase from rfl]
  cases server.node.nodeToPeersTx with
  | nil => rfl
  | cons event rest =>
    cases event with
    | appendEntriesRequestEvent req =>
      by_cases hclient : req.toNode ∈ server.network.peerClients <;>
        simp [hclient, erase, RaftNode.erase, Phase.erase, eraseCalls, Call.erase,
          AppendEntriesRequest.erase]
    | peerVotesRequestEvent req =>
      simp [erase, RaftNode.erase, Phase.erase, eraseCalls, Call.erase, RequestVoteRequest.erase,
        Function.comp_def]
    | _ => simp [erase, RaftNode.erase, Phase.erase]

theorem anyPending_erase (calls : List (NodeId × Call)) :
    ((eraseCalls calls).any fun call => call.2 = .pending) =
      calls.any fun call => call.2 = .pending := by
  rw [eraseCalls, List.any_map]
  congr 1
  funext call
  simp [Call.erase_eq_pending]

theorem resume_erase : server.erase.resume.map erase = server.resume.map erase := by
  unfold resume
  rw [show server.erase.phase = server.phase.erase from rfl]
  cases hphase : server.phase with
  | selecting => rfl
  | stopped fault => rfl
  | awaiting event calls =>
    simp only [Phase.erase, anyPending_erase]
    by_cases hpending : (calls.any fun call => call.2 = .pending) = true
    · rw [if_pos hpending, if_pos hpending]
    rw [if_neg hpending, if_neg hpending]
    cases event with
    | peerVotesRequestEvent req =>
      have h := server.selectServer_erase
        (.peerVotesResponseEvent (PeerNetwork.voteResponses calls)) none
      simp only [RaftEvent.erase_vote, voteResponses_erase]
      exact congrArg some (congrArg Prod.fst h)
    | appendEntriesRequestEvent req =>
      match calls with
      | [] => rfl
      | [(_, .answered reply)] =>
        cases reply with
        | appendEntriesResponseEvent response =>
          have h := server.selectServer_erase (.appendEntriesResponseEvent response) none
          exact congrArg some (congrArg Prod.fst h)
        | _ => rfl
      | [(_, .pending)] => rfl
      | [(_, .failed status)] =>
        simp [RaftEvent.erase_append, eraseCalls, Call.erase, erase, Phase.erase]
      | (_, _) :: _ :: _ => simp [eraseCalls]
    | _ => rfl

end RaftServer

/-! ## The cluster -/

namespace Cluster

variable (c : Cluster)

theorem phase_erase (a : NodeId) : c.erase.phase a = (c.phase a).erase := rfl

theorem phase_erase_selecting {a : NodeId} : c.erase.phase a = .selecting ↔ c.phase a = .selecting := by
  rw [phase_erase]
  cases c.phase a <;> simp [Phase.erase]

theorem erase_eq_iff {c c' : Cluster} : c'.erase = c.erase ↔
    (∀ v, (c'.servers v).erase = (c.servers v).erase) ∧
      c'.orphans.map Orphan.erase = c.orphans.map Orphan.erase := by
  unfold erase
  rw [Cluster.mk.injEq]
  exact and_congr_left fun _ => funext_iff

theorem servers_set_erase {c c' : Cluster} {a : NodeId} {server server' : RaftServer}
    (hservers : ∀ v, (c'.servers v).erase = (c.servers v).erase)
    (hserver : server'.erase = server.erase) (v : NodeId) :
    ((c'.set a server').servers v).erase = ((c.set a server).servers v).erase := by
  by_cases hv : v = a
  · subst hv
    rw [servers_set_self, servers_set_self, hserver]
  · rw [servers_set_ne _ _ hv, servers_set_ne _ _ hv, hservers]

theorem erase_set {c c' : Cluster} {a : NodeId} {server server' : RaftServer}
    (hc : c'.erase = c.erase) (hserver : server'.erase = server.erase) :
    (c'.set a server').erase = (c.set a server).erase := by
  obtain ⟨hservers, horphans⟩ := erase_eq_iff.mp hc
  exact erase_eq_iff.mpr ⟨servers_set_erase hservers hserver, horphans⟩

@[simp] theorem erase_erase : c.erase.erase = c.erase := by
  simp [erase, Orphan.erase, Function.comp_def]

theorem turn_erase (a : NodeId) (arm : RaftServer → RaftServer)
    (harm : ∀ server, (arm server.erase).erase = (arm server).erase) :
    (c.erase.turn a arm).map erase = (c.turn a arm).map erase := by
  unfold turn
  by_cases hphase : c.phase a = .selecting
  · rw [if_pos hphase, if_pos (c.phase_erase_selecting.mpr hphase)]
    exact congrArg some (erase_set c.erase_erase (harm _))
  · rw [if_neg hphase, if_neg (mt c.phase_erase_selecting.mp hphase)]

theorem respond_congr {request : RaftEvent} {reply reply' : Option RaftEvent}
    (h : reply'.map RaftEvent.erase = reply.map RaftEvent.erase) :
    (respond request.erase reply').erase = (respond request reply).erase := by
  rw [← respond_erase, ← respond_erase, RaftEvent.erase_erase, h]

theorem deliver_erase (a p : NodeId) :
    (c.erase.deliver a p).map erase = (c.deliver a p).map erase := by
  unfold deliver
  rw [phase_erase]
  cases hphase : c.phase a with
  | selecting => rfl
  | stopped fault => rfl
  | awaiting event calls =>
    simp only [Phase.erase]
    by_cases hcall : (p, Call.pending) ∈ calls ∧ c.phase p = .selecting
    · rw [if_pos hcall,
        if_pos ⟨mem_eraseCalls_pending.mpr hcall.1, c.phase_erase_selecting.mpr hcall.2⟩]
      have h := (c.servers p).selectServer_erase event (some .oneshot)
      obtain ⟨hserver, hreply⟩ := Prod.mk.inj h
      have hanswer := (c.servers a).answer_erase p (@respond_congr event _ _ hreply)
      exact congrArg some (erase_set (erase_set c.erase_erase hserver) hanswer)
    · rw [if_neg hcall, if_neg fun h =>
        hcall ⟨mem_eraseCalls_pending.mp h.1, c.phase_erase_selecting.mp h.2⟩]

theorem deliverOrphan_erase (k : Nat) :
    (c.erase.deliverOrphan k).map erase = (c.deliverOrphan k).map erase := by
  obtain ⟨hservers, horphans⟩ := erase_eq_iff.mp c.erase_erase
  unfold deliverOrphan
  rw [show c.erase.orphans = c.orphans.map Orphan.erase from rfl, List.getElem?_map]
  cases c.orphans[k]? with
  | none => rfl
  | some orphan =>
    dsimp only [Option.map_some]
    by_cases hphase : c.phase orphan.peer = .selecting
    · rw [if_pos hphase,
        if_pos (show c.erase.phase orphan.erase.peer = _ from c.phase_erase_selecting.mpr hphase)]
      have h := (c.servers orphan.peer).selectServer_erase orphan.event (some .oneshot)
      refine congrArg some (erase_eq_iff.mpr ⟨?_, ?_⟩)
      · exact servers_set_erase hservers (Prod.mk.inj h).1
      · change ((c.orphans.map _).eraseIdx k).map _ = (c.orphans.eraseIdx k).map _
        rw [← List.eraseIdx_map, ← List.eraseIdx_map]
        exact congrArg (List.eraseIdx · k) horphans
    · rw [if_neg hphase, if_neg (show ¬c.erase.phase orphan.erase.peer = _ from
        mt c.phase_erase_selecting.mp hphase)]

theorem isAnswered_erase (call : Call) : call.erase.isAnswered = call.isAnswered := by
  cases call <;> rfl

theorem fail_erase (a p : NodeId) (status : Status) :
    (c.erase.fail a p status).map erase = (c.fail a p status).map erase := by
  obtain ⟨hservers, horphans⟩ := erase_eq_iff.mp c.erase_erase
  unfold fail
  rw [phase_erase]
  cases hphase : c.phase a with
  | selecting => rfl
  | stopped fault => rfl
  | awaiting event calls =>
    have hanswer := @RaftServer.answer_erase (c.servers a) p (.failed status) (.failed status) rfl
    have hanswered : ((eraseCalls calls).any fun call => call.1 = p ∧ call.2.isAnswered) =
        calls.any fun call => call.1 = p ∧ call.2.isAnswered := by
      rw [eraseCalls, List.any_map]
      simp only [Function.comp_def, isAnswered_erase]
    simp only [Phase.erase, mem_eraseCalls_pending, hanswered]
    by_cases hcall : (p, Call.pending) ∈ calls
    · rw [if_pos hcall, if_pos hcall]
      refine congrArg some (erase_eq_iff.mpr ⟨servers_set_erase hservers hanswer, ?_⟩)
      change (c.orphans.map _ ++ [_]).map _ = (c.orphans ++ [_]).map _
      rw [List.map_append, List.map_append]
      exact congrArg₂ _ horphans (by simp [Orphan.erase])
    · rw [if_neg hcall, if_neg hcall]
      split
      · exact congrArg some (erase_set c.erase_erase hanswer)
      · rfl

theorem map_set_erase (a : NodeId) {server server' : Option RaftServer}
    (h : server'.map RaftServer.erase = server.map RaftServer.erase) :
    (server'.map (c.erase.set a)).map erase = (server.map (c.set a)).map erase := by
  cases server' with
  | none =>
    cases server with
    | none => rfl
    | some server => cases h
  | some server' =>
    cases server with
    | none => cases h
    | some server => exact congrArg some (erase_set c.erase_erase (Option.some.inj h))

theorem step_erase (act : Action) : (c.erase.step act).map erase = (c.step act).map erase := by
  cases act with
  | clusterUp a => exact c.turn_erase a _ fun server => server.clusterUp_erase
  | tick a => exact c.turn_erase a _ fun server => server.selectTick_erase
  | client a command =>
    exact c.turn_erase a (fun server => server.selectClient (.commandRequestEvent command))
      fun server => server.selectClient_erase command
  | send a =>
    simp only [step, phase_erase_selecting]
    split
    · exact c.map_set_erase a (c.servers a).selectPeers_erase
    · rfl
  | deliver a p => exact c.deliver_erase a p
  | deliverOrphan k => exact c.deliverOrphan_erase k
  | fail a p status => exact c.fail_erase a p status
  | resume a => exact c.map_set_erase a (c.servers a).resume_erase

end Cluster

/-- Runs from two clusters that differ only in what is never read: they take the same steps,
and differ only in that at every moment. -/
theorem run_of_erase {cfg : Config} {c₀ c₁ c : Cluster} {h : List (Move Cluster Action)}
    (heq : c₁.erase = c₀.erase) (run : Run { cluster cfg with init := c₀ } h c) :
    ∃ h' c', Run { cluster cfg with init := c₁ } h' c' ∧
      h'.map Move.action = h.map Move.action ∧
      (moments h' c').map Cluster.erase = (moments h c).map Cluster.erase :=
  System.Respects.run (respects_of_step Cluster.step_erase) heq run

/-- Every node starts with a vote for itself, in the middle of a count. -/
def Cluster.withVotes (c : Cluster) : Cluster :=
  { c with servers := fun a => { c.servers a with
      node := { c.node a with votedFor := some a, votes := 5, commitTerm := 7 } } }

theorem run_of_erase_elected :
    ∃ h c, Run (cluster twoNodes) h c ∧ (c.node "node2").commitIndex = 0 ∧
      ∃ h' c', Run { cluster twoNodes with init := (Cluster.initial twoNodes).withVotes } h' c' ∧
        h'.map Move.action = h.map Move.action ∧
        (moments h' c').map Cluster.erase = (moments h c).map Cluster.erase := by
  obtain ⟨h, c, run, _, hcommit⟩ := exists_run_of_exec (cluster twoNodes) (fun _ _ => True)
    (fun c => (c.node "node2").commitIndex = 0)
    (twoNodes.allUp ++ electionTimeout "node1" ++ exchange "node1" ["node2"] ++
      exchange "node1" ["node2"] ++ [.client "node1" ⟨"x", "1"⟩] ++ heartbeatTimeout "node1" ++
      exchange "node1" ["node2"] ++ heartbeatTimeout "node1" ++ exchange "node1" ["node2"])
    (by decide +kernel)
  exact ⟨h, c, run, hcommit, run_of_erase (show _ = (Cluster.initial twoNodes).erase from rfl) run⟩

end Rafting
