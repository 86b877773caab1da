import Rafting.RaftServer
import Rafting.Library.Transition

/-! The cluster: one loop per node, and the RPCs between them. A call lives at
its caller, which awaits it; tonic carries the request to the peer's loop and
the reply back, unmodified and at most once. -/
namespace Rafting

/-- A cluster configuration: distinct ids, every node with exactly the other
ids as peers (in the order its `HashMap` yields them), and the election timeouts
drawn by `RaftNode::new`. -/
structure Config where
  ids : List NodeId
  peersOf : NodeId → List NodeId
  timeoutOf : NodeId → Nat
  ids_nodup : ids.Nodup
  peersOf_perm : ∀ a ∈ ids, (peersOf a).Perm (ids.erase a)
  timeoutOf_range : ∀ a ∈ ids,
    electionMinTimeoutTicks ≤ timeoutOf a ∧ timeoutOf a ≤ electionMaxTimeoutTicks

/-- The configuration in which every node lists the others in the order of `ids` and
draws the shortest election timeout. -/
def Config.ofIds (ids : List NodeId) (h : ids.Nodup) : Config where
  ids := ids
  peersOf := ids.erase
  timeoutOf := fun _ => electionMinTimeoutTicks
  ids_nodup := h
  peersOf_perm := fun _ _ => List.Perm.refl _
  timeoutOf_range := fun _ _ => by decide

/-- The nodes of `config/cluster_config.yaml`. -/
def threeNodes : Config := Config.ofIds ["node1", "node2", "node3"] (by decide)

def twoNodes : Config := Config.ofIds ["node1", "node2"] (by decide)

/-- A request whose caller has given up while it was on its way to `peer`. -/
structure Orphan where
  peer : NodeId
  event : RaftEvent
deriving DecidableEq

structure Cluster where
  servers : NodeId → RaftServer
  orphans : List Orphan

inductive Action where
  | clusterUp (a : NodeId)
  | tick (a : NodeId)
  | client (a : NodeId) (command : SetCommand)
  /-- `a` takes the next event of its outgoing queue and starts its calls. -/
  | send (a : NodeId)
  /-- `p` handles the request of `a`'s pending call; its reply reaches `a`. -/
  | deliver (a p : NodeId)
  /-- A request is handled whose caller has given up. -/
  | deliverOrphan (k : Nat)
  /-- `a`'s call to `p` fails: the request or its reply does not get through in time. -/
  | fail (a p : NodeId) (status : Status)
  /-- All outcomes are in, and `a` goes on. -/
  | resume (a : NodeId)
deriving DecidableEq

namespace Cluster

def node (c : Cluster) (a : NodeId) : RaftNode := (c.servers a).node
def phase (c : Cluster) (a : NodeId) : Phase := (c.servers a).phase

def pipeline (c : Cluster) (a : NodeId) : List RaftEvent := (c.servers a).pipeline

def set (c : Cluster) (a : NodeId) (server : RaftServer) : Cluster :=
  { c with servers := Function.update c.servers a server }

def turn (c : Cluster) (a : NodeId) (arm : RaftServer → RaftServer) : Option Cluster :=
  if c.phase a = .selecting then some (c.set a (arm (c.servers a))) else none

def deliver (c : Cluster) (a p : NodeId) : Option Cluster :=
  match c.phase a with
  | .awaiting event calls =>
    if (p, Call.pending) ∈ calls ∧ c.phase p = .selecting then
      let (server, reply) := (c.servers p).selectServer (event, some .oneshot)
      some ((c.set p server).set a ((c.servers a).answer p (respond event reply)))
    else none
  | _ => none

def deliverOrphan (c : Cluster) (k : Nat) : Option Cluster :=
  match c.orphans[k]? with
  | some orphan =>
    if c.phase orphan.peer = .selecting then
      some { c.set orphan.peer
          ((c.servers orphan.peer).selectServer (orphan.event, some .oneshot)).1 with
        orphans := c.orphans.eraseIdx k }
    else none
  | none => none

/-- A call can fail before or after the peer has handled the request. In the first
case the request may still be handled. -/
def fail (c : Cluster) (a p : NodeId) (status : Status) : Option Cluster :=
  match c.phase a with
  | .awaiting event calls =>
    if (p, Call.pending) ∈ calls then
      some { c.set a ((c.servers a).answer p (.failed status)) with
        orphans := c.orphans ++ [⟨p, event⟩] }
    else if calls.any fun call => call.1 = p ∧ call.2.isAnswered then
      some (c.set a ((c.servers a).answer p (.failed status)))
    else none
  | _ => none

def step (c : Cluster) : Action → Option Cluster
  | .clusterUp a => c.turn a RaftServer.clusterUp
  | .tick a => c.turn a RaftServer.selectTick
  | .client a command => c.turn a fun server => server.selectClient (.commandRequestEvent command)
  | .send a =>
    if c.phase a = .selecting then (c.servers a).selectPeers.map (c.set a) else none
  | .deliver a p => c.deliver a p
  | .deliverOrphan k => c.deliverOrphan k
  | .fail a p status => c.fail a p status
  | .resume a => (c.servers a).resume.map (c.set a)

/-- The request an action hands to a loop: the loop that handles it, and the event. -/
def handled (c : Cluster) : Action → Option (NodeId × RaftEvent)
  | .deliver a p =>
    match c.phase a with
    | .awaiting event _ => some (p, event)
    | _ => none
  | .deliverOrphan k => c.orphans[k]?.map fun orphan => (orphan.peer, orphan.event)
  | _ => none

/-- Members start with `RaftNode::new`; a name outside the cluster has no loop. -/
def initial (cfg : Config) : Cluster where
  servers := fun a =>
    let server := RaftServer.start (RaftNode.new a (cfg.peersOf a) (cfg.timeoutOf a))
    if a ∈ cfg.ids then server
    else { server with phase := .stopped (.error .internalServerError) }
  orphans := []

end Cluster

def cluster (cfg : Config) : Transition.System Cluster Action where
  init := Cluster.initial cfg
  step := Cluster.step

/-! Pieces of the scenarios that the modules below run. -/

def Config.allUp (cfg : Config) : List Action := cfg.ids.map .clusterUp

def electionTimeout (a : NodeId) : List Action := List.replicate electionMinTimeoutTicks (.tick a)

def heartbeatTimeout (a : NodeId) : List Action := List.replicate heartbeatTicks (.tick a)

/-- `a`'s next event goes to the peers `ps`, and all of them reply. -/
def exchange (a : NodeId) (ps : List NodeId) : List Action :=
  .send a :: ps.map (.deliver a) ++ [.resume a]

end Rafting
