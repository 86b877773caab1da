import Rafting.RaftLog

/-! `raft_node.rs`: one node's state and its handlers. The unbounded channel
`node_to_peers_tx` is held by value: the list of events that were sent on it
and that the loop of `raft_server.rs` has not received yet. -/
namespace Rafting

def heartbeatTicks : Nat := 2
def electionMinTimeoutTicks : Nat := 7
def electionMaxTimeoutTicks : Nat := 10

def i32Max : Int := 2147483647
def i64Min : Int := -9223372036854775808
def i64Max : Int := 9223372036854775807

inductive NodeState where
  | follower
  | candidate
  | leader
deriving DecidableEq, Repr

/-- A `HashMap<String, i64>`, of which only lookups and inserts are used. -/
abbrev IndexMap := NodeId → Option Int

structure RaftNode where
  id : NodeId
  currentTerm : Int
  votedFor : Option NodeId
  log : RaftLog
  peers : List NodeId
  commitIndex : Int
  commitTerm : Int
  nextIndex : IndexMap
  matchIndex : IndexMap
  state : NodeState
  nodeToPeersTx : List RaftEvent
  elapsedTicksSinceLastHeartbeat : Nat
  electionTimeoutTicks : Nat
  votes : Nat
  clusterReady : Bool

/-- The oneshot sender of an incoming request; what it carries back is a
handler's second result. -/
inductive Sender where
  | oneshot
deriving DecidableEq, Repr

namespace RaftNode

/-- `electionTimeoutTicks` is the number drawn by `rand::thread_rng`. -/
def new (id : NodeId) (peers : List NodeId) (electionTimeoutTicks : Nat) : RaftNode where
  id := id
  currentTerm := 0
  votedFor := none
  log := RaftLog.new
  peers := peers
  commitIndex := -1
  commitTerm := -1
  nextIndex := fun _ => none
  matchIndex := fun _ => none
  state := .follower
  nodeToPeersTx := []
  elapsedTicksSinceLastHeartbeat := 0
  electionTimeoutTicks := electionTimeoutTicks
  votes := 0
  clusterReady := false

def lastAppliedIndex (node : RaftNode) : Int :=
  node.log.lastLogIndex

/-- `node_to_peers_tx.send`. The receiver lives in the loop that owns the node,
so a send does not fail. -/
def send (node : RaftNode) (events : List RaftEvent) : RaftNode :=
  { node with nodeToPeersTx := node.nodeToPeersTx ++ events }

def voteRequest (node : RaftNode) : RequestVoteRequest where
  term := node.currentTerm
  candidateId := node.id
  lastLogIndex := node.log.lastLogIndexAndTerm.1
  lastLogTerm := node.log.lastLogIndexAndTerm.2

def becomeCandidate (self : RaftNode) : RaftResult RaftNode :=
  if self.currentTerm = i32Max then .error addOverflow
  else
    let node := { self with
      state := .candidate
      currentTerm := self.currentTerm + 1
      votedFor := some self.id
      elapsedTicksSinceLastHeartbeat := 0
      votes := 1 }
    .ok (node.send [.peerVotesRequestEvent node.voteRequest])

def leaderHeartbeat (node : RaftNode) (peer : NodeId) : AppendEntriesRequest where
  toNode := peer
  term := node.currentTerm
  leaderId := node.id
  prevLogIndex := node.log.lastLogIndexAndTerm.1
  prevLogTerm := node.log.lastLogIndexAndTerm.2
  entries := []
  leaderCommitIndex := node.commitIndex
  leaderCommitTerm := node.commitTerm

def becomeLeader (self : RaftNode) : RaftNode :=
  let node := { self with state := .leader }
  node.send (node.peers.map fun peer => .appendEntriesRequestEvent (node.leaderHeartbeat peer))

def becomeFollower (self : RaftNode) (term : Int) : RaftNode :=
  { self with
    state := .follower
    currentTerm := term
    votedFor := none
    elapsedTicksSinceLastHeartbeat := 0
    votes := 0 }

/-- `prev_log_index`, `prev_log_term` and the entries for a peer whose next
index is `nextIndex`; `next_index - 1` and the `unwrap` on a missing previous
entry can panic. -/
def appendSlice (node : RaftNode) (nextIndex : Int) : RaftResult (Int × Int × List LogEntry) :=
  if nextIndex = 0 then .ok (-1, -1, node.log.getFrom 0)
  else if nextIndex = i64Min then .error subtractOverflow
  else
    match node.log.get (asUsize (nextIndex - 1)) with
    | none => .error unwrapNone
    | some entry => .ok (entry.index, entry.term,
        if node.log.lastLogIndex ≥ nextIndex then node.log.getFrom (asUsize nextIndex) else [])

def buildAppendRequestForPeer (node : RaftNode) (peer : NodeId) :
    RaftResult AppendEntriesRequest := do
  let (prevLogIndex, prevLogTerm, entries) ← node.appendSlice ((node.nextIndex peer).getD 0)
  .ok {
    toNode := peer
    term := node.currentTerm
    leaderId := node.id
    prevLogIndex := prevLogIndex
    prevLogTerm := prevLogTerm
    entries := entries
    leaderCommitIndex := node.commitIndex
    leaderCommitTerm := node.commitTerm }

def tick (self : RaftNode) : RaftResult RaftNode :=
  if self.clusterReady = false then .ok self
  else
    let node := { self with
      elapsedTicksSinceLastHeartbeat := self.elapsedTicksSinceLastHeartbeat + 1 }
    if node.state = .leader then
      if node.elapsedTicksSinceLastHeartbeat ≥ heartbeatTicks then do
        let node := { node with elapsedTicksSinceLastHeartbeat := 0 }
        let requests ← node.peers.mapM node.buildAppendRequestForPeer
        .ok (node.send (requests.map .appendEntriesRequestEvent))
      else .ok node
    else if node.elapsedTicksSinceLastHeartbeat ≥ node.electionTimeoutTicks then
      node.becomeCandidate
    else .ok node

/-! The arms of `step`, one definition each. -/

def voteResponse (node : RaftNode) (req : RequestVoteRequest) (granted : Bool) : RaftEvent :=
  .requestVoteResponseEvent { fromNode := node.id, term := req.term, voteGranted := granted }

def stepPeerVotesRequest (node : RaftNode) (req : RequestVoteRequest) : RaftNode × RaftEvent :=
  if req.term = node.currentTerm ∧ node.votedFor.isSome ∧ node.votedFor ≠ some req.candidateId then
    (node, node.voteResponse req false)
  else if node.currentTerm < req.term then
    ({ node.becomeFollower req.term with votedFor := some req.candidateId },
      node.voteResponse req true)
  else (node, node.voteResponse req false)

/-- The first guard of the `AppendEntriesRequest` arm. -/
def adoptTerm (node : RaftNode) (req : AppendEntriesRequest) : RaftNode :=
  if node.currentTerm < req.term ∧ node.state ≠ .follower then
    { node.becomeFollower req.term with votedFor := some req.leaderId }
  else node

/-- The log after a request, or `none` where the consistency check sends the
failure reply. -/
def appendLog (log : RaftLog) (req : AppendEntriesRequest) : Option RaftLog :=
  if req.entries = [] then some log
  else if req.prevLogIndex = -1 then some ((log.truncate 0).appendAll req.entries)
  else if req.prevLogIndex > log.lastLogIndex ∨
      req.prevLogTerm ≠ log.termForIndex (asUsize req.prevLogIndex) then none
  else
    let (lastLogIndex, lastLogTerm) := log.lastLogIndexAndTerm
    if req.prevLogIndex ≤ lastLogIndex ∧ req.prevLogTerm = lastLogTerm then
      some (log.appendAllFrom req.entries (asUsize req.prevLogIndex + 1))
    else some log

def commitUpTo (node : RaftNode) (leaderCommitIndex : Int) : RaftNode :=
  if leaderCommitIndex > node.commitIndex then
    { node with commitIndex := min leaderCommitIndex node.lastAppliedIndex }
  else node

def stepAppendEntriesRequest (node : RaftNode) (req : AppendEntriesRequest) :
    RaftNode × RaftEvent :=
  let node := node.adoptTerm req
  match appendLog node.log req with
  | none => (node, .appendEntriesResponseEvent {
      fromNode := node.id
      term := node.currentTerm
      success := false
      lastAppliedIndex := node.lastAppliedIndex - 1 })
  | some log =>
    let node := { ({ node with log := log }).commitUpTo req.leaderCommitIndex with
      elapsedTicksSinceLastHeartbeat := 0 }
    (node, .appendEntriesResponseEvent {
      fromNode := node.id
      term := req.term
      success := true
      lastAppliedIndex := node.lastAppliedIndex })

def quorumSize (node : RaftNode) : Nat := (node.peers.length + 1) / 2

/-- Peers counted as holding position `ci`: a missing record counts as 0, and
the comparison is made after the cast to `usize`. -/
def replicaCount (node : RaftNode) (ci : Nat) : Nat :=
  (node.peers.filter fun p => ci ≤ asUsize ((node.matchIndex p).getD 0)).length

/-- One round of the commit loop; the `unwrap` there is on a position inside the log. -/
def commitRound (node : RaftNode) (ci : Nat) : RaftNode :=
  match node.log.get ci with
  | none => node
  | some entry =>
    if entry.term = node.currentTerm ∧ node.replicaCount ci ≥ node.quorumSize then
      { node with commitIndex := ci }
    else node

def commitLoop (node : RaftNode) : RaftNode :=
  let start := (max node.commitIndex 0).toNat
  (List.range' start (node.log.len - start)).foldl commitRound node

/-- The leader's bookkeeping of a successful reply, if the next index is an `i64`. -/
def recordMatch (node : RaftNode) (response : AppendEntriesResponse) : RaftNode :=
  { node with
    nextIndex := Function.update node.nextIndex response.fromNode
      (some (response.lastAppliedIndex + 1))
    matchIndex := Function.update node.matchIndex response.fromNode
      (some response.lastAppliedIndex) }

def stepAppendEntriesResponse (node : RaftNode) (response : AppendEntriesResponse) :
    RaftResult RaftNode :=
  let node :=
    if response.term > node.currentTerm ∧ node.state ≠ .follower then
      node.becomeFollower response.term
    else node
  if node.state = .leader ∧ node.currentTerm = response.term then
    if response.success then
      -- `last_applied_index + 1`, before anything is recorded
      if i64Max ≤ response.lastAppliedIndex then .error addOverflow
      else .ok (node.recordMatch response).commitLoop
    else
      match node.nextIndex response.fromNode with
      | none => .error unwrapNone
      | some nextIndex =>
        if nextIndex = i64Min then .error subtractOverflow
        else .ok { node with
          nextIndex := Function.update node.nextIndex response.fromNode (some (nextIndex - 1)) }
  else .ok node

def stepPeerVotesResponse (node : RaftNode) (responses : List RequestVoteResponse) : RaftNode :=
  if (responses.filter fun r => r.voteGranted).length ≥ node.quorumSize then node.becomeLeader
  else node.becomeFollower node.currentTerm

def unexpectedEvent (rendered : String) : RaftError :=
  .internalServerErrorWithContext ("Unexpected event received: " ++ rendered)

/-- The second result is what goes back through the oneshot sender. -/
def step (self : RaftNode) (event : RaftEvent × Option Sender) :
    RaftResult (RaftNode × Option RaftEvent) :=
  match event with
  | (.peerVotesRequestEvent req, some _) =>
    let (node, reply) := self.stepPeerVotesRequest req
    .ok (node, some reply)
  | (.appendEntriesRequestEvent req, some _) =>
    let (node, reply) := self.stepAppendEntriesRequest req
    .ok (node, some reply)
  | (.appendEntriesResponseEvent response, none) => do
    let node ← self.stepAppendEntriesResponse response
    .ok (node, none)
  | (.peerVotesResponseEvent responses, none) => .ok (self.stepPeerVotesResponse responses, none)
  | (.clusterNodesDownEvent, none) => .ok ({ self with clusterReady := false }, none)
  | (.clusterNodesUpEvent, none) => .ok ({ self with clusterReady := true }, none)
  | (event, _) => .error (.error (unexpectedEvent event.debug))

def notTheLeader : RaftError :=
  .badRequest "Client request can be sent only to the leader."

/-- What `handle_client_request` leaves: the node it borrowed, the answer sent to
the client, and its own result. -/
structure ClientOutcome where
  node : RaftNode
  reply : Option (Except RaftError ClientEvent)
  result : RaftResult Unit

def clientEntry (node : RaftNode) (command : SetCommand) : LogEntry where
  index := node.lastAppliedIndex + 1
  term := node.currentTerm
  command := command.toJson

def handleClientRequest (self : RaftNode) (event : ClientEvent) : ClientOutcome :=
  match event with
  | .commandRequestEvent command =>
    if self.state ≠ .leader then
      { node := self
        reply := some (.error notTheLeader)
        result := .error (.error notTheLeader) }
    else
      { node := { self with log := self.log.append (self.clientEntry command) }
        reply := some (.ok (.commandResponseEvent true))
        result := .ok () }
  | event =>
    { node := self
      reply := none
      result := .error (.error (unexpectedEvent event.debug)) }

end RaftNode
end Rafting
