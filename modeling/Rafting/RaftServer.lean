import Rafting.RaftNode

/-! `raft_server.rs` and the `rpc` module: the loop that owns a node. One turn of
`tokio::select!` handles one ready channel. The arm that sends to peers awaits
the replies inside the turn, so until they are in the loop takes no other turn. -/
namespace Rafting

/-- `tonic::Status` of a failed RPC; its message stands in for the `{:?}` rendering. -/
abbrev Status := String

/-- A request to one peer, as the caller's client stub sees it. -/
inductive Call where
  | pending
  | answered (reply : RaftEvent)
  | failed (status : Status)
deriving DecidableEq, Repr

/-- Decides for the loop and for the cluster whether a call is still pending. -/
instance (call : NodeId × Call) (calls : List (NodeId × Call)) : Decidable (call ∈ calls) :=
  List.instDecidableMemOfLawfulBEq call calls

def Call.isAnswered : Call → Bool
  | answered _ => true
  | _ => false

/-- `RaftGrpcServerStub`: the node's answer becomes the RPC's response; a dropped
sender or an answer of another kind becomes a `Status`. -/
def respond (request : RaftEvent) (reply : Option RaftEvent) : Call :=
  match request, reply with
  | .peerVotesRequestEvent _, some (.requestVoteResponseEvent response) =>
    .answered (.requestVoteResponseEvent response)
  | .appendEntriesRequestEvent _, some (.appendEntriesResponseEvent response) =>
    .answered (.appendEntriesResponseEvent response)
  | .peerVotesRequestEvent _, none =>
    .failed "Unable to send back request_vote response back to callee. Error is : RecvError(())"
  | .peerVotesRequestEvent _, some _ =>
    .failed "Some unexpected match pattern came up in request_vote response stream"
  | .appendEntriesRequestEvent _, none =>
    .failed "Unable to send back append_entries response back to callee. Error is : RecvError(())"
  | _, _ => .failed "Some unexpected match pattern came up in append_entries response stream"

/-- `peerClients` are the keys of the map that `wait_for_peers` fills. -/
structure PeerNetwork where
  nodeId : NodeId
  peers : List NodeId
  peerClients : List NodeId
deriving DecidableEq, Repr

namespace PeerNetwork

def new (nodeId : NodeId) (peers : List NodeId) : PeerNetwork :=
  { nodeId := nodeId, peers := peers, peerClients := [] }

/-- `wait_for_peers` returns once every peer has a client. -/
def waitForPeers (network : PeerNetwork) : PeerNetwork :=
  { network with peerClients := network.peers }

def voteResponses (calls : List (NodeId × Call)) : List RequestVoteResponse :=
  calls.filterMap fun call =>
    match call.2 with
    | .answered (.requestVoteResponseEvent response) => some response
    | _ => none

def missingClient (peer : NodeId) : RaftError :=
  .anyhowError ("Peer client for peer " ++ debugString peer ++ " does not exist")

def appendFailed (network : PeerNetwork) (status : Status) : RaftError :=
  .internalServerErrorWithContext ("Error received at " ++ network.nodeId ++
    " while sending AppendEntry to the peers. Tonic error is " ++ status)

end PeerNetwork

/-- Where a loop stands: in `select!`, awaiting the calls of one outgoing event,
or past its end with the fault that ended it. -/
inductive Phase where
  | selecting
  | awaiting (event : RaftEvent) (calls : List (NodeId × Call))
  | stopped (fault : Fault)
deriving DecidableEq, Repr

def Phase.outstanding : Phase → List RaftEvent
  | awaiting event _ => [event]
  | _ => []

def setCall (calls : List (NodeId × Call)) (peer : NodeId) (outcome : Call) :
    List (NodeId × Call) :=
  calls.map fun call => if call.1 = peer then (peer, outcome) else call

structure RaftServer where
  node : RaftNode
  network : PeerNetwork
  phase : Phase

namespace RaftServer

def pipeline (server : RaftServer) : List RaftEvent :=
  server.phase.outstanding ++ server.node.nodeToPeersTx

def start (node : RaftNode) : RaftServer where
  node := node
  network := PeerNetwork.new node.id node.peers
  phase := .selecting

/-- `node = ...?`: the new node, or the end of the loop. -/
def settle (server : RaftServer) (result : RaftResult RaftNode) : RaftServer :=
  match result with
  | .ok node => { server with node := node, phase := .selecting }
  | .error fault => { server with phase := .stopped fault }

def selectTick (server : RaftServer) : RaftServer :=
  server.settle server.node.tick

/-- The arm of `node_from_server_rx`, with what is sent back to the caller. -/
def selectServer (server : RaftServer) (event : RaftEvent × Option Sender) :
    RaftServer × Option RaftEvent :=
  match server.node.step event with
  | .ok (node, reply) => ({ server with node := node, phase := .selecting }, reply)
  | .error fault => ({ server with phase := .stopped fault }, none)

def selectClient (server : RaftServer) (event : ClientEvent) : RaftServer :=
  let outcome := server.node.handleClientRequest event
  match outcome.result with
  | .ok () => { server with node := outcome.node }
  | .error fault => { server with node := outcome.node, phase := .stopped fault }

def unexpectedOutgoing : RaftError :=
  .internalServerErrorWithContext
    "Some unexpected match pattern came up in node_from_server_rx stream"

/-- The arm of `peers_from_node_rx`, up to the await. -/
def selectPeers (server : RaftServer) : Option RaftServer :=
  match server.node.nodeToPeersTx with
  | [] => none
  | event :: rest =>
    let server := { server with node := { server.node with nodeToPeersTx := rest } }
    match event with
    | .appendEntriesRequestEvent req =>
      if req.toNode ∈ server.network.peerClients then
        some { server with phase := .awaiting event [(req.toNode, .pending)] }
      else
        some { server with phase := .stopped (.error (PeerNetwork.missingClient req.toNode)) }
    | .peerVotesRequestEvent _ =>
      some { server with
        phase := .awaiting event (server.network.peerClients.map fun peer => (peer, .pending)) }
    | _ => some { server with phase := .stopped (.error unexpectedOutgoing) }

def answer (server : RaftServer) (peer : NodeId) (outcome : Call) : RaftServer :=
  match server.phase with
  | .awaiting event calls => { server with phase := .awaiting event (setCall calls peer outcome) }
  | _ => server

/-- The rest of the arm, once no call is pending: `step` on the replies, or the
error of a failed `append_entries`. -/
def resume (server : RaftServer) : Option RaftServer :=
  match server.phase with
  | .awaiting event calls =>
    if calls.any fun call => call.2 = .pending then none
    else
      match event, calls with
      | .peerVotesRequestEvent _, calls =>
        some (server.selectServer
          (.peerVotesResponseEvent (PeerNetwork.voteResponses calls), none)).1
      | .appendEntriesRequestEvent _, [(_, .answered (.appendEntriesResponseEvent response))] =>
        some (server.selectServer (.appendEntriesResponseEvent response, none)).1
      | .appendEntriesRequestEvent _, [(_, .failed status)] =>
        some { server with phase := .stopped (.error (server.network.appendFailed status)) }
      | _, _ => none
  | _ => none

/-- `wait_for_peers` completes and its notification reaches the loop. -/
def clusterUp (server : RaftServer) : RaftServer :=
  ({ server with network := server.network.waitForPeers }.selectServer
    (.clusterNodesUpEvent, none)).1

end RaftServer
end Rafting
