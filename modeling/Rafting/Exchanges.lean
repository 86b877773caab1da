import Rafting.Membership

/-! What the loops of a cluster do to each other while no call fails: a tick that only counts,
a command for a leader, an append request with its reply, and the votes of an election. -/
namespace Rafting
open Transition

def Reliable (_ : Cluster) : Action → Prop
  | .fail _ _ _ => False
  | _ => True

namespace Cluster

def Reaches : Cluster → Cluster → Prop :=
  Relation.ReflTransGen fun c c' => ∃ act, Reliable c act ∧ c.step act = some c'

theorem Reaches.step {c c' : Cluster} {act : Action} (hreliable : Reliable c act)
    (hstep : c.step act = some c') : c.Reaches c' :=
  .single ⟨act, hreliable, hstep⟩

@[simp] theorem node_set_self (c : Cluster) (a : NodeId) (server : RaftServer) :
    (c.set a server).node a = server.node := by
  rw [node, servers_set_self]

theorem node_set_ne (c : Cluster) {a x : NodeId} (server : RaftServer) (h : x ≠ a) :
    (c.set a server).node x = c.node x := by
  rw [node, servers_set_ne _ _ h, node]

@[simp] theorem phase_set_self (c : Cluster) (a : NodeId) (server : RaftServer) :
    (c.set a server).phase a = server.phase := by
  rw [phase, servers_set_self]

@[simp] theorem set_set (c : Cluster) (a : NodeId) (server server' : RaftServer) :
    (c.set a server).set a server' = c.set a server' := by
  simp [set]

@[simp] theorem set_servers (c : Cluster) (a : NodeId) : c.set a (c.servers a) = c := by
  simp [set]

theorem all_set {ids : List NodeId} {c : Cluster} {a : NodeId} {server : RaftServer}
    {P : NodeId → RaftServer → Prop} (hold : ∀ b ∈ ids, P b (c.servers b)) (hnew : P a server) :
    ∀ b ∈ ids, P b ((c.set a server).servers b) := by
  intro b hb
  by_cases hba : b = a
  · rw [hba, servers_set_self]
    exact hnew
  · rw [servers_set_ne _ _ hba]
    exact hold b hb

def SameBut (as : List NodeId) (c c' : Cluster) : Prop :=
  ∀ x, x ∉ as → c'.servers x = c.servers x

variable {c : Cluster} {a p : NodeId}

theorem reaches_set {act : Action} {arm : RaftServer → RaftServer} (hreliable : Reliable c act)
    (hact : ∀ c : Cluster, c.step act = c.turn a arm) (hphase : c.phase a = .selecting) :
    c.Reaches (c.set a (arm (c.servers a))) :=
  .step hreliable (by rw [hact, turn, if_pos hphase])

theorem reaches_tick {node' : RaftNode} (hphase : c.phase a = .selecting)
    (htick : (c.node a).tick = .ok node') :
    c.Reaches (c.set a { c.servers a with node := node' }) := by
  have hturn := @reaches_set c a (.tick a) _ trivial (fun _ => rfl) hphase
  rwa [RaftServer.selectTick, show (c.servers a).node.tick = _ from htick,
    show (c.servers a).settle (.ok node') = { c.servers a with node := node' } by
      rw [RaftServer.settle, ← show (c.servers a).phase = _ from hphase]] at hturn

theorem reaches_due (hphase : c.phase a = .selecting) (hready : (c.node a).clusterReady = true) :
    ∃ elapsed, (if (c.node a).state = .leader then heartbeatTicks
        else (c.node a).electionTimeoutTicks) ≤ elapsed + 1 ∧
      c.Reaches (c.set a { c.servers a with
        node := { c.node a with elapsedTicksSinceLastHeartbeat := elapsed } }) := by
  generalize hlimit : (if (c.node a).state = .leader then heartbeatTicks
    else (c.node a).electionTimeoutTicks) = limit
  -- on the number of ticks that are left
  induction hleft : limit - ((c.node a).elapsedTicksSinceLastHeartbeat + 1) generalizing c with
  | zero =>
    refine ⟨(c.node a).elapsedTicksSinceLastHeartbeat, by omega, ?_⟩
    change c.Reaches (c.set a (c.servers a))
    rw [set_servers]
    exact .refl
  | succ n ih =>
    have hstep := reaches_tick hphase
      (RaftNode.tick_of_early hready (by rw [hlimit]; omega))
    obtain ⟨elapsed, hdue, hrest⟩ := ih
      (c := c.set a { c.servers a with node := { c.node a with
        elapsedTicksSinceLastHeartbeat := (c.node a).elapsedTicksSinceLastHeartbeat + 1 } })
      (by rw [phase_set_self]; exact hphase) (by rw [node_set_self]; exact hready)
      (by rw [node_set_self]; exact hlimit) (by rw [node_set_self]; dsimp only; omega)
    rw [set_set, node_set_self, servers_set_self] at hrest
    exact ⟨elapsed, hdue, hstep.trans hrest⟩

theorem reaches_client (hphase : c.phase a = .selecting) (hleader : (c.node a).state = .leader)
    (command : SetCommand) :
    c.Reaches (c.set a { c.servers a with
      node := { c.node a with log := (c.node a).log.append ((c.node a).clientEntry command) } }) := by
  have hturn := @reaches_set c a (.client a command)
    (fun server => server.selectClient (.commandRequestEvent command)) trivial (fun _ => rfl) hphase
  rwa [RaftServer.selectClient, show (c.servers a).node.handleClientRequest _ = _ from
    RaftNode.handleClientRequest_leader hleader command] at hturn

theorem reaches_deliver {event : RaftEvent} {calls : List (NodeId × Call)}
    (ha : c.phase a = .awaiting event calls) (hcall : (p, Call.pending) ∈ calls)
    (hp : c.phase p = .selecting) :
    c.Reaches ((c.set p ((c.servers p).selectServer (event, some .oneshot)).1).set a
      ((c.servers a).answer p
        (respond event ((c.servers p).selectServer (event, some .oneshot)).2))) := by
  refine @Reaches.step _ _ (.deliver a p) trivial ?_
  simp only [step, deliver, ha]
  rw [if_pos ⟨hcall, hp⟩]

theorem reaches_resume {server : RaftServer} (hresume : (c.servers a).resume = some server) :
    c.Reaches (c.set a server) :=
  @Reaches.step _ _ (.resume a) trivial (by simp only [step, hresume, Option.map_some])

structure Exchanged (c c' : Cluster) (a p : NodeId) (nodea nodep : RaftNode) : Prop where
  caller : c'.servers a = { c.servers a with node := nodea }
  peer : c'.servers p = { c.servers p with node := nodep }
  same : SameBut [a, p] c c'

namespace Exchanged

variable {c' : Cluster} {nodea nodep : RaftNode} (h : Exchanged c c' a p nodea nodep)
include h

theorem node_caller : c'.node a = nodea := by
  rw [node, h.caller]

theorem node_peer : c'.node p = nodep := by
  rw [node, h.peer]

theorem node_other {x : NodeId} (ha : x ≠ a) (hp : x ≠ p) : c'.node x = c.node x := by
  rw [node, h.same x (by simp [ha, hp])]
  rfl

theorem all {ids : List NodeId} {P : NodeId → RaftServer → Prop}
    (hold : ∀ b ∈ ids, P b (c.servers b)) (hcaller : P a { c.servers a with node := nodea })
    (hpeer : P p { c.servers p with node := nodep }) : ∀ b ∈ ids, P b (c'.servers b) := by
  intro b hb
  by_cases hba : b = a
  · rw [hba, h.caller]
    exact hcaller
  by_cases hbp : b = p
  · rw [hbp, h.peer]
    exact hpeer
  · rw [h.same b (by simp [hba, hbp])]
    exact hold b hb

end Exchanged

/-- The first event of a queue is an append request: it is sent, handled and answered, and
the answer is taken in. -/
theorem reaches_append {req : AppendEntriesRequest} {rest : List RaftEvent}
    {response : AppendEntriesResponse} {node' : RaftNode} (ha : c.phase a = .selecting)
    (hp : c.phase p = .selecting) (hne : p ≠ a)
    (hqueue : (c.node a).nodeToPeersTx = .appendEntriesRequestEvent req :: rest)
    (hto : req.toNode = p) (hclient : p ∈ (c.servers a).network.peerClients)
    (hresponse : ((c.node p).stepAppendEntriesRequest req).2 = .appendEntriesResponseEvent response)
    (hresume : ({ c.node a with nodeToPeersTx := rest }).stepAppendEntriesResponse response =
      .ok node') :
    ∃ c', c.Reaches c' ∧
      Exchanged c c' a p node' ((c.node p).stepAppendEntriesRequest req).1 := by
  subst hto
  let sending : RaftServer := { c.servers a with
    node := { c.node a with nodeToPeersTx := rest }
    phase := .awaiting (.appendEntriesRequestEvent req) [(req.toNode, .pending)] }
  have hsend : c.Reaches (c.set a sending) := by
    refine @Reaches.step _ _ (.send a) trivial ?_
    simp only [step, ha, if_true]
    rw [RaftServer.selectPeers, show (c.servers a).node.nodeToPeersTx = _ from hqueue]
    simp [hclient, node, sending]
  have hservers : (c.set a sending).servers req.toNode = c.servers req.toNode :=
    servers_set_ne c sending hne
  have hselect : (c.servers req.toNode).selectServer (.appendEntriesRequestEvent req, some .oneshot) =
      ({ c.servers req.toNode with node := ((c.node req.toNode).stepAppendEntriesRequest req).1 },
        some (.appendEntriesResponseEvent response)) := by
    rw [← hresponse]
    simp only [RaftServer.selectServer, RaftNode.step, node]
    rw [← show (c.servers req.toNode).phase = _ from hp]
  have hdeliver := @reaches_deliver (c.set a sending) a req.toNode _ _ (by rw [phase_set_self])
    (List.mem_singleton.mpr rfl) (by rw [phase, hservers]; exact hp)
  rw [hservers, hselect, servers_set_self] at hdeliver
  have hanswer : sending.answer req.toNode
      (respond (.appendEntriesRequestEvent req) (some (.appendEntriesResponseEvent response))) =
      { sending with
        phase := .awaiting (.appendEntriesRequestEvent req)
          [(req.toNode, .answered (.appendEntriesResponseEvent response))] } := by
    simp [RaftServer.answer, sending, setCall, respond]
  rw [hanswer] at hdeliver
  refine ⟨_, (hsend.trans hdeliver).trans
    (@reaches_resume _ a { c.servers a with node := node' } ?_), ⟨?_, ?_, ?_⟩⟩
  · rw [servers_set_self]
    have hstep : ({ c.node a with nodeToPeersTx := rest } : RaftNode).step
        (.appendEntriesResponseEvent response, none) = .ok (node', none) := by
      change (_ >>= _) = _
      rw [hresume]
      rfl
    simp only [RaftServer.resume, RaftServer.selectServer, sending, hstep]
    simp [← show (c.servers a).phase = _ from ha]
  · rw [servers_set_self]
  · rw [servers_set_ne _ _ hne, servers_set_ne _ _ hne, servers_set_self]
  · intro x hx
    simp only [List.mem_cons, List.not_mem_nil, or_false, not_or] at hx
    rw [servers_set_ne _ _ hx.1, servers_set_ne _ _ hx.1, servers_set_ne _ _ hx.2,
      servers_set_ne _ _ hx.1]

/-! ## Votes -/

def voter (req : RequestVoteRequest) (node : RaftNode) : RaftNode :=
  { node.becomeFollower req.term with votedFor := some req.candidateId }

def grant (req : RequestVoteRequest) (p : NodeId) : Call :=
  .answered (.requestVoteResponseEvent ⟨p, req.term, true⟩)

/-- A loop that will vote for a candidate. -/
structure Supports (c : Cluster) (a : NodeId) (req : RequestVoteRequest) (p : NodeId) : Prop where
  ne : p ≠ a
  phase : c.phase p = .selecting
  id : (c.node p).id = p
  term : (c.node p).currentTerm < req.term

theorem Supports.of_servers {c c' : Cluster} {req : RequestVoteRequest}
    (h : Supports c a req p) (hsame : c'.servers p = c.servers p) : Supports c' a req p where
  ne := h.ne
  phase := by rw [Cluster.phase, hsame]; exact h.phase
  id := by rw [node, hsame]; exact h.id
  term := by rw [node, hsame]; exact h.term

theorem Supports.select {req : RequestVoteRequest} (h : Supports c a req p) :
    (c.servers p).selectServer (.peerVotesRequestEvent req, some .oneshot) =
      ({ c.servers p with node := voter req (c.node p) },
        some (.requestVoteResponseEvent ⟨p, req.term, true⟩)) := by
  have hterm : (c.servers p).node.currentTerm < req.term := h.term
  have hid : (c.servers p).node.id = p := h.id
  simp only [RaftServer.selectServer, RaftNode.step, RaftNode.stepPeerVotesRequest_eq, if_pos hterm]
  rw [← show (c.servers p).phase = _ from h.phase, RaftNode.voteResponse, hid]
  rfl

def ballots (req : RequestVoteRequest) (peers todo : List NodeId) : List (NodeId × Call) :=
  peers.map fun p => (p, if p ∈ todo then .pending else grant req p)

theorem setCall_ballots (req : RequestVoteRequest) (peers : List NodeId) {todo : List NodeId}
    (hp : p ∉ todo) :
    setCall (ballots req peers (p :: todo)) p (grant req p) = ballots req peers todo := by
  simp only [setCall, ballots, List.map_map]
  refine List.map_congr_left fun q _ => ?_
  by_cases hq : q = p
  · subst hq
    simp [hp]
  · simp [hq]

theorem reaches_ballots {req : RequestVoteRequest} {peers : List NodeId} {todo : List NodeId}
    (hnodup : todo.Nodup) (hsub : todo ⊆ peers) (hsupport : ∀ p ∈ todo, Supports c a req p)
    (ha : c.phase a = .awaiting (.peerVotesRequestEvent req) (ballots req peers todo)) :
    ∃ c', c.Reaches c' ∧
      c'.servers a = { c.servers a with
        phase := .awaiting (.peerVotesRequestEvent req) (ballots req peers []) } ∧
      (∀ p ∈ todo, c'.servers p = { c.servers p with node := voter req (c.node p) }) ∧
      SameBut (a :: todo) c c' := by
  induction todo generalizing c with
  | nil =>
    refine ⟨c, .refl, ?_, by simp, fun x _ => rfl⟩
    rw [← ha]
    rfl
  | cons p todo ih =>
    obtain ⟨hp, hnodup⟩ := List.nodup_cons.mp hnodup
    have hsupports := hsupport p List.mem_cons_self
    have hcall : (p, Call.pending) ∈ ballots req peers (p :: todo) :=
      List.mem_map.mpr ⟨p, hsub List.mem_cons_self, by simp⟩
    have hdeliver := reaches_deliver ha hcall hsupports.phase
    rw [hsupports.select] at hdeliver
    have hanswer : (c.servers a).answer p (respond (.peerVotesRequestEvent req)
        (some (.requestVoteResponseEvent ⟨p, req.term, true⟩))) = { c.servers a with
          phase := .awaiting (.peerVotesRequestEvent req) (ballots req peers todo) } := by
      rw [RaftServer.answer, show (c.servers a).phase = _ from ha, ← setCall_ballots req peers hp]
      rfl
    rw [hanswer] at hdeliver
    let voted : Cluster := (c.set p { c.servers p with node := voter req (c.node p) }).set a
      { c.servers a with phase := .awaiting (.peerVotesRequestEvent req) (ballots req peers todo) }
    have hvoted : c.Reaches voted := hdeliver
    have hothers : ∀ q ∈ todo, q ≠ p ∧ q ≠ a := fun q hq =>
      ⟨fun h => hp (h ▸ hq), (hsupport q (List.mem_cons_of_mem p hq)).ne⟩
    have hkept : SameBut [a, p] c voted := by
      intro x hx
      simp only [List.mem_cons, List.not_mem_nil, or_false, not_or] at hx
      rw [servers_set_ne _ _ hx.1, servers_set_ne _ _ hx.2]
    have hleft : ∀ q ∈ todo, voted.servers q = c.servers q := fun q hq =>
      hkept q (by simp [hothers q hq])
    obtain ⟨c', hrest, hservers, hvoters, hsame⟩ := @ih voted hnodup
      (fun q hq => hsub (List.mem_cons_of_mem p hq))
      (fun q hq => (hsupport q (List.mem_cons_of_mem p hq)).of_servers (hleft q hq))
      (phase_set_self _ a _)
    rw [servers_set_self] at hservers
    refine ⟨c', hvoted.trans hrest, hservers, ?_, ?_⟩
    · intro q hq
      rcases List.mem_cons.mp hq with rfl | hq
      · rw [hsame q (by simp [hsupports.ne, hp]), servers_set_ne _ _ hsupports.ne, servers_set_self]
      · rw [hvoters q hq, node, hleft q hq]
        rfl
    · intro x hx
      simp only [List.mem_cons, not_or] at hx
      rw [hsame x (by simp [hx]), hkept x (by simp [hx])]

theorem votes_of_ballots (req : RequestVoteRequest) (peers : List NodeId) :
    ((PeerNetwork.voteResponses (ballots req peers [])).filter fun r => r.voteGranted).length =
      peers.length := by
  induction peers with
  | nil => rfl
  | cons p peers ih =>
    simp only [ballots, PeerNetwork.voteResponses, grant, List.map_cons] at ih ⊢
    simpa using ih

/-- A candidate's vote request goes to all its peers; they vote for it, and it leads. -/
theorem reaches_election {req : RequestVoteRequest} {peers : List NodeId}
    (ha : c.phase a = .selecting) (hqueue : (c.node a).nodeToPeersTx = [.peerVotesRequestEvent req])
    (hclients : (c.servers a).network.peerClients = peers) (hpeers : (c.node a).peers = peers)
    (hnodup : peers.Nodup) (hsupport : ∀ p ∈ peers, Supports c a req p) :
    ∃ c', c.Reaches c' ∧
      c'.servers a = { c.servers a with
        node := ({ c.node a with nodeToPeersTx := [] }).becomeLeader } ∧
      (∀ p ∈ peers, c'.servers p = { c.servers p with node := voter req (c.node p) }) ∧
      SameBut (a :: peers) c c' := by
  let sending : RaftServer := { c.servers a with
    node := { c.node a with nodeToPeersTx := [] }
    phase := .awaiting (.peerVotesRequestEvent req) (ballots req peers peers) }
  have hsend : c.Reaches (c.set a sending) := by
    refine @Reaches.step _ _ (.send a) trivial ?_
    simp only [step, ha, if_true]
    rw [RaftServer.selectPeers, show (c.servers a).node.nodeToPeersTx = _ from hqueue]
    have hall : ballots req peers peers = peers.map fun p => (p, Call.pending) :=
      List.map_congr_left fun p hp => by rw [if_pos hp]
    simp [sending, hall, hclients, node]
  have hservers : ∀ p ∈ peers, (c.set a sending).servers p = c.servers p := fun p hp =>
    servers_set_ne c sending (hsupport p hp).ne
  obtain ⟨c', hvote, hawaiting, hvoters, hsame⟩ := @reaches_ballots (c.set a sending) a req peers
    peers hnodup (List.Subset.refl _) (fun p hp => (hsupport p hp).of_servers (hservers p hp))
    (phase_set_self c a sending)
  rw [servers_set_self] at hawaiting
  have hresume : (c'.servers a).resume = some { c.servers a with
      node := ({ c.node a with nodeToPeersTx := [] }).becomeLeader } := by
    have hnone : ¬(ballots req peers []).any fun call => call.2 = .pending := by
      simp [ballots, grant]
    have hquorum : ((PeerNetwork.voteResponses (ballots req peers [])).filter
        fun r => r.voteGranted).length ≥ sending.node.quorumSize := by
      have hsize : sending.node.quorumSize = (peers.length + 1) / 2 := by rw [← hpeers]; rfl
      rw [votes_of_ballots]
      omega
    rw [hawaiting, RaftServer.resume]
    dsimp only
    rw [if_neg hnone]
    simp only [RaftServer.selectServer, RaftNode.step, RaftNode.stepPeerVotesResponse,
      if_pos hquorum]
    rw [← show (c.servers a).phase = _ from ha]
  refine ⟨_, (hsend.trans hvote).trans (reaches_resume hresume), servers_set_self _ _ _, ?_, ?_⟩
  · intro p hp
    rw [servers_set_ne _ _ (hsupport p hp).ne, hvoters p hp, node, hservers p hp]
    rfl
  · intro x hx
    simp only [List.mem_cons, not_or] at hx
    rw [servers_set_ne _ _ hx.1, hsame x (by simp [hx]), servers_set_ne _ _ hx.1]

end Cluster
end Rafting
