import Rafting.Membership

/-! One loop and an arbitrary environment. Peers, clients and the network may feed
the loop of `raft_server.rs` anything their types allow, in any order; what it
takes in decides whether `run` returns an error. -/
namespace Rafting
open Transition Fallible

/-- What can reach a loop. `send` is the arm that takes the next event of the
node's own queue. -/
inductive Stimulus where
  | clusterUp
  | tick
  | voteRequest (req : RequestVoteRequest)
  | appendRequest (req : AppendEntriesRequest)
  | client (command : SetCommand)
  | send
  | voteReply (peer : NodeId) (response : RequestVoteResponse)
  | appendReply (peer : NodeId) (response : AppendEntriesResponse)
  | failed (peer : NodeId) (status : Status)
  | resume
deriving DecidableEq

namespace RaftServer

def turn (server : RaftServer) (arm : RaftServer → RaftServer) : Option RaftServer :=
  if server.phase = .selecting then some (arm server) else none

def react (server : RaftServer) : Stimulus → Option RaftServer
  | .clusterUp => server.turn clusterUp
  | .tick => server.turn selectTick
  | .voteRequest req =>
    server.turn fun server => (server.selectServer (.peerVotesRequestEvent req, some .oneshot)).1
  | .appendRequest req =>
    server.turn fun server => (server.selectServer (.appendEntriesRequestEvent req, some .oneshot)).1
  | .client command => server.turn fun server => server.selectClient (.commandRequestEvent command)
  | .send => if server.phase = .selecting then server.selectPeers else none
  | .voteReply peer response =>
    match server.phase with
    | .awaiting (.peerVotesRequestEvent _) calls =>
      if (peer, Call.pending) ∈ calls then
        some (server.answer peer (.answered (.requestVoteResponseEvent response)))
      else none
    | _ => none
  | .appendReply peer response =>
    match server.phase with
    | .awaiting (.appendEntriesRequestEvent _) calls =>
      if (peer, Call.pending) ∈ calls then
        some (server.answer peer (.answered (.appendEntriesResponseEvent response)))
      else none
    | _ => none
  | .failed peer status =>
    match server.phase with
    | .awaiting _ calls =>
      if calls.any fun call => call.1 = peer then some (server.answer peer (.failed status))
      else none
    | _ => none
  | .resume => server.resume

end RaftServer

def loop (node : RaftNode) : Transition.System RaftServer Stimulus where
  init := RaftServer.start node
  step := RaftServer.react

def Phase.failedAppend : Phase → Bool
  | .awaiting (.appendEntriesRequestEvent _) [(_, .failed _)] => true
  | _ => false

inductive Awaited : RaftEvent → List (NodeId × Call) → Prop
  | votes (req : RequestVoteRequest) (calls : List (NodeId × Call)) :
      Awaited (.peerVotesRequestEvent req) calls
  | pending (req : AppendEntriesRequest) :
      Awaited (.appendEntriesRequestEvent req) [(req.toNode, .pending)]
  | answered (req : AppendEntriesRequest) (response : AppendEntriesResponse) :
      Awaited (.appendEntriesRequestEvent req)
        [(req.toNode, .answered (.appendEntriesResponseEvent response))]
  | failed (req : AppendEntriesRequest) (status : Status) :
      Awaited (.appendEntriesRequestEvent req) [(req.toNode, .failed status)]

/-- The states a loop can be in. A node sends nothing before all its peers have
clients, only events that the loop knows are sent, and two errors end the loop. -/
structure Sound (server : RaftServer) : Prop where
  peers : server.network.peers = server.node.peers
  clients : server.network.peerClients = server.node.peers ∨
    server.node.clusterReady = false ∧ server.pipeline = []
  queue : ∀ event ∈ server.node.nodeToPeersTx, Sendable server.node.peers event
  awaiting : ∀ event calls, server.phase = .awaiting event calls → Awaited event calls
  ended : ∀ e, server.phase = .stopped (.error e) →
    e = RaftNode.notTheLeader ∨ ∃ status, e = server.network.appendFailed status

/-! ## What a node sends -/

namespace RaftNode

structure Sends (node node' : RaftNode) (sent : List RaftEvent) : Prop where
  peers : node'.peers = node.peers
  ready : node'.clusterReady = node.clusterReady
  queue : node'.nodeToPeersTx = node.nodeToPeersTx ++ sent
  sendable : ∀ event ∈ sent, Sendable node.peers event

theorem tick_sends {node node' : RaftNode} (h : node.tick = .ok node') :
    ∃ sent, node.Sends node' sent ∧ (sent = [] ∨ node.clusterReady = true) := by
  rcases tick_timed h with ⟨_, heq⟩ | ⟨hready, _, requests, hbuild, heq⟩ |
    ⟨hready, _, _, hcandidate⟩ | ⟨_, heq⟩
  · exact ⟨[], ⟨by rw [heq], by rw [heq], by simp [heq], by simp⟩, Or.inl rfl⟩
  · refine ⟨_, ⟨by rw [heq], by rw [heq], by rw [heq], ?_⟩, Or.inr hready⟩
    intro event hevent
    obtain ⟨req, hreq, rfl⟩ := List.mem_map.mp hevent
    obtain ⟨peer, hpeer, hok⟩ := mem_of_mapM_ok hbuild hreq
    obtain ⟨_, _, _, _, rfl⟩ := buildAppendRequestForPeer_ok hok
    exact Or.inl ⟨_, rfl, hpeer⟩
  · obtain ⟨_, _, hpeers, _, _, _, _, _, _, htx, hup⟩ := becomeCandidate_ok hcandidate
    refine ⟨_, ⟨hpeers, hup, htx, ?_⟩, Or.inr hready⟩
    intro event hevent
    exact Or.inr ⟨_, List.mem_singleton.mp hevent⟩
  · exact ⟨[], ⟨by rw [heq], by rw [heq], by simp [heq], by simp⟩, Or.inl rfl⟩

theorem stepPeerVotesResponse_sends (node : RaftNode) (responses : List RequestVoteResponse) :
    ∃ sent, node.Sends (node.stepPeerVotesResponse responses) sent := by
  rcases stepPeerVotesResponse_cases node responses with ⟨_, heq⟩ | ⟨_, heq⟩
  · refine ⟨_, by rw [heq]; rfl, by rw [heq]; rfl, by rw [heq]; rfl, ?_⟩
    intro event hevent
    obtain ⟨peer, hpeer, rfl⟩ := List.mem_map.mp hevent
    exact Or.inl ⟨_, rfl, hpeer⟩
  · exact ⟨[], by rw [heq]; rfl, by rw [heq]; rfl, by rw [heq]; simp, by simp⟩

theorem stepAppendEntriesResponse_sends {node node' : RaftNode} {response : AppendEntriesResponse}
    (h : node.stepAppendEntriesResponse response = .ok node') : node.Sends node' [] := by
  rcases stepAppendEntriesResponse_cases h with ⟨_, _, heq⟩ | heq | ⟨_, _, _, _, heq⟩ |
    ⟨_, _, _, _, _, heq⟩
  · exact ⟨by rw [heq]; rfl, by rw [heq]; rfl, by simp [heq], by simp⟩
  · exact ⟨by rw [heq], by rw [heq], by simp [heq], by simp⟩
  · obtain ⟨index, hloop⟩ := commitLoop_eq (node.recordMatch response)
    exact ⟨by rw [heq, hloop]; rfl, by rw [heq, hloop]; rfl,
      by rw [heq, hloop, List.append_nil]; rfl, by simp⟩
  · exact ⟨by rw [heq], by rw [heq], by simp [heq], by simp⟩

theorem tick_panics {node : RaftNode} {fault : Fault} (h : node.tick = .error fault) :
    ∃ message, fault = .panic message := by
  rcases tick_error h with ⟨_, peer, _, hslice⟩ | ⟨_, _, heq⟩
  · rcases appendSlice_error_iff.mp hslice with ⟨_, heq⟩ | ⟨_, _, _, heq⟩
    · exact ⟨_, heq⟩
    · exact ⟨_, heq⟩
  · exact ⟨_, heq⟩

theorem stepAppendEntriesResponse_panics {node : RaftNode} {response : AppendEntriesResponse}
    {fault : Fault} (h : node.stepAppendEntriesResponse response = .error fault) :
    ∃ message, fault = .panic message := by
  obtain ⟨_, _, ⟨_, _, heq⟩ | ⟨_, _, heq⟩ | ⟨_, _, heq⟩⟩ :=
    stepAppendEntriesResponse_error_iff.mp h
  · exact ⟨_, heq⟩
  · exact ⟨_, heq⟩
  · exact ⟨_, heq⟩

end RaftNode

/-! ## The loop -/

namespace Sound

variable {server : RaftServer}

theorem start (node : RaftNode) (hready : node.clusterReady = false)
    (hqueue : node.nodeToPeersTx = []) : Sound (RaftServer.start node) where
  peers := rfl
  clients := Or.inr ⟨hready, by
    simp [RaftServer.start, RaftServer.pipeline, Phase.outstanding, hqueue]⟩
  queue := by simp [RaftServer.start, hqueue]
  awaiting := by intro event calls h; cases h
  ended := by intro e h; cases h

theorem settle (sound : Sound server) {node' : RaftNode} {sent : List RaftEvent}
    (hsends : server.node.Sends node' sent)
    (hup : sent = [] ∨ server.network.peerClients = server.node.peers) :
    Sound { server with node := node', phase := .selecting } where
  peers := sound.peers.trans hsends.peers.symm
  clients := by
    rcases hup with rfl | hup
    · rcases sound.clients with hclients | ⟨hready, hempty⟩
      · exact Or.inl (hclients.trans hsends.peers.symm)
      · refine Or.inr ⟨hsends.ready.trans hready, ?_⟩
        simp only [RaftServer.pipeline, List.append_eq_nil_iff] at hempty
        simp [RaftServer.pipeline, Phase.outstanding, hsends.queue, hempty.2]
    · exact Or.inl (hup.trans hsends.peers.symm)
  queue := by
    intro event hevent
    change event ∈ node'.nodeToPeersTx at hevent
    rw [hsends.queue] at hevent
    rw [hsends.peers]
    rcases List.mem_append.mp hevent with hold | hnew
    · exact sound.queue event hold
    · exact hsends.sendable event hnew
  awaiting := by intro event calls h; cases h
  ended := by intro e h; cases h

theorem stop (sound : Sound server) (fault : Fault)
    (hfault : ∀ e, fault = .error e →
      e = RaftNode.notTheLeader ∨ ∃ status, e = server.network.appendFailed status) :
    Sound { server with phase := .stopped fault } where
  peers := sound.peers
  clients := by
    rcases sound.clients with hclients | ⟨hready, hempty⟩
    · exact Or.inl hclients
    · refine Or.inr ⟨hready, ?_⟩
      simp only [RaftServer.pipeline, List.append_eq_nil_iff] at hempty
      simp [RaftServer.pipeline, Phase.outstanding, hempty.2]
  queue := sound.queue
  awaiting := by intro event calls h; cases h
  ended := by
    intro e h
    cases h
    exact hfault e rfl

theorem panic (sound : Sound server) {fault : Fault} (h : ∃ message, fault = .panic message) :
    Sound { server with phase := .stopped fault } := by
  obtain ⟨message, rfl⟩ := h
  exact sound.stop _ (by intro e he; cases he)

theorem await (sound : Sound server) {event : RaftEvent} {calls calls' : List (NodeId × Call)}
    (hphase : server.phase = .awaiting event calls) (hawaited : Awaited event calls') :
    Sound { server with phase := .awaiting event calls' } where
  peers := sound.peers
  clients := by
    rcases sound.clients with hclients | ⟨_, hempty⟩
    · exact Or.inl hclients
    · simp [RaftServer.pipeline, hphase, Phase.outstanding] at hempty
  queue := sound.queue
  awaiting := by
    intro event calls h
    cases h
    exact hawaited
  ended := by intro e h; cases h

end Sound

/-- A turn of the loop: it keeps the loop sound, and an error that ends it comes from
a client's command to a node that does not lead, or from a failed `append_entries`. -/
structure Turn (server : RaftServer) (stimulus : Stimulus) (server' : RaftServer) : Prop where
  sound : Sound server'
  cause : ∀ e, server'.phase = .stopped (.error e) →
    (∃ command, stimulus = .client command ∧ server.node.state ≠ .leader) ∨
    (stimulus = .resume ∧ server.phase.failedAppend = true)

theorem Turn.go {server server' : RaftServer} {stimulus : Stimulus} (sound : Sound server')
    (hphase : ∀ e, server'.phase ≠ .stopped (.error e)) : Turn server stimulus server' :=
  ⟨sound, fun e he => absurd he (hphase e)⟩

theorem Turn.panic {server : RaftServer} {stimulus : Stimulus} (sound : Sound server)
    {fault : Fault} (h : ∃ message, fault = .panic message) :
    Turn server stimulus { server with phase := .stopped fault } := by
  refine .go (sound.panic h) ?_
  obtain ⟨message, rfl⟩ := h
  intro e he
  cases he

theorem turn_eq_some {server server' : RaftServer} {arm : RaftServer → RaftServer}
    (h : server.turn arm = some server') : server.phase = .selecting ∧ server' = arm server := by
  unfold RaftServer.turn at h
  split at h
  · cases h
    exact ⟨‹_›, rfl⟩
  · cases h

namespace Sound

variable {server server' : RaftServer}

theorem turn_clusterUp (sound : Sound server) : Turn server .clusterUp server.clusterUp := by
  refine .go ⟨sound.peers, Or.inl sound.peers, sound.queue, ?_, ?_⟩ ?_
  · intro event calls h; cases h
  · intro e h; cases h
  · intro e h; cases h

theorem turn_tick (sound : Sound server) : Turn server .tick server.selectTick := by
  unfold RaftServer.selectTick
  cases htick : server.node.tick with
  | error fault => exact .panic sound (RaftNode.tick_panics htick)
  | ok node' =>
    obtain ⟨sent, hsends, hup⟩ := RaftNode.tick_sends htick
    refine .go (sound.settle hsends ?_) (by intro e h; cases h)
    rcases hup with hnil | hready
    · exact Or.inl hnil
    · rcases sound.clients with hclients | ⟨hdown, _⟩
      · exact Or.inr hclients
      · rw [hready] at hdown; cases hdown

theorem turn_voteRequest (sound : Sound server) (req : RequestVoteRequest) :
    Turn server (.voteRequest req)
      (server.selectServer (.peerVotesRequestEvent req, some .oneshot)).1 := by
  have hsends : server.node.Sends (server.node.stepPeerVotesRequest req).1 [] := by
    rw [RaftNode.stepPeerVotesRequest_eq]
    split <;> exact ⟨rfl, rfl, by simp, by simp⟩
  exact .go (sound.settle hsends (Or.inl rfl)) (by intro e h; cases h)

theorem turn_appendRequest (sound : Sound server) (req : AppendEntriesRequest) :
    Turn server (.appendRequest req)
      (server.selectServer (.appendEntriesRequestEvent req, some .oneshot)).1 := by
  have hsends : server.node.Sends (server.node.stepAppendEntriesRequest req).1 [] :=
    ⟨by simp, by simp, by simp, by simp⟩
  exact .go (sound.settle hsends (Or.inl rfl)) (by intro e h; cases h)

theorem turn_client (sound : Sound server) (command : SetCommand)
    (hphase : server.phase = .selecting) :
    Turn server (.client command) (server.selectClient (.commandRequestEvent command)) := by
  unfold RaftServer.selectClient
  by_cases hleader : server.node.state = .leader
  · rw [RaftNode.handleClientRequest_leader hleader]
    have hsends : server.node.Sends { server.node with
        log := server.node.log.append (server.node.clientEntry command) } [] :=
      ⟨rfl, rfl, by simp, by simp⟩
    have hsound := sound.settle hsends (Or.inl rfl)
    rw [← hphase] at hsound
    refine .go hsound ?_
    intro e h
    rw [show (_ : RaftServer).phase = _ from h] at hphase
    cases hphase
  · rw [RaftNode.handleClientRequest_other hleader]
    refine ⟨sound.stop _ ?_, fun e _ => Or.inl ⟨command, rfl, hleader⟩⟩
    intro e he
    cases he
    exact Or.inl rfl

theorem turn_send (sound : Sound server) (h : server.selectPeers = some server') :
    Turn server .send server' := by
  obtain ⟨event, rest, hqueue, hnetwork, hnode, hcases⟩ := RaftServer.selectPeers_cases h
  have hclients : server.network.peerClients = server.node.peers := by
    rcases sound.clients with hclients | ⟨_, hempty⟩
    · exact hclients
    · simp [RaftServer.pipeline, hqueue] at hempty
  have hsendable : Sendable server.network.peerClients event :=
    hclients ▸ sound.queue event (by simp [hqueue])
  have hkeep : ∀ (hawaiting : ∀ event calls, server'.phase = .awaiting event calls →
      Awaited event calls) (hgo : ∀ e, server'.phase ≠ .stopped (.error e)),
      Turn server .send server' := by
    intro hawaiting hgo
    refine .go ⟨?_, Or.inl ?_, ?_, hawaiting, fun e he => absurd he (hgo e)⟩ hgo
    · rw [hnetwork, hnode]
      exact sound.peers
    · rw [hnetwork, hnode]
      exact hclients
    · intro event' hevent
      rw [hnode] at hevent ⊢
      exact sound.queue event' (hqueue ▸ List.mem_cons_of_mem _ hevent)
  rcases hcases with ⟨req, rfl, _, hp⟩ | ⟨req, rfl, hp⟩ | ⟨fault, _, hbroken⟩
  · refine hkeep (fun event calls h => ?_) (fun e h => ?_) <;> rw [hp] at h <;> cases h
    exact .pending req
  · refine hkeep (fun event calls h => ?_) (fun e h => ?_) <;> rw [hp] at h <;> cases h
    exact .votes req _
  · exact absurd hsendable hbroken

theorem turn_answer (sound : Sound server) {event : RaftEvent} {calls : List (NodeId × Call)}
    (hphase : server.phase = .awaiting event calls) {peer : NodeId} {outcome : Call}
    (hawaited : Awaited event (setCall calls peer outcome)) (stimulus : Stimulus) :
    Turn server stimulus (server.answer peer outcome) := by
  have hanswer : server.answer peer outcome =
      { server with phase := .awaiting event (setCall calls peer outcome) } := by
    rw [RaftServer.answer, hphase]
  rw [hanswer]
  exact .go (sound.await hphase hawaited) (by intro e h; cases h)

theorem turn_resume (sound : Sound server) (h : server.resume = some server') :
    Turn server .resume server' := by
  obtain ⟨event, calls, hphase, _, hnetwork, hcases⟩ := RaftServer.resume_cases h
  have hclients : server.network.peerClients = server.node.peers := by
    rcases sound.clients with hclients | ⟨_, hempty⟩
    · exact hclients
    · simp [RaftServer.pipeline, hphase, Phase.outstanding] at hempty
  have hserver : server' = { server with node := server'.node, phase := server'.phase } := by
    rw [← hnetwork]
  rcases hcases with ⟨req, rfl, hp, hnode⟩ | ⟨req, peer, response, rfl, rfl, hp, hstep⟩ |
    ⟨req, peer, response, fault, rfl, rfl, hstep, hp, hnode⟩ |
    ⟨req, peer, status, rfl, rfl, hp, hnode⟩
  · obtain ⟨sent, hsends⟩ := RaftNode.stepPeerVotesResponse_sends server.node
      (PeerNetwork.voteResponses calls)
    rw [hserver, hp, hnode]
    exact .go (sound.settle hsends (Or.inr hclients)) (by intro e h; cases h)
  · have hsends := RaftNode.stepAppendEntriesResponse_sends hstep
    rw [hserver, hp]
    exact .go (sound.settle hsends (Or.inl rfl)) (by intro e h; cases h)
  · rw [hserver, hp, hnode]
    exact .panic sound (RaftNode.stepAppendEntriesResponse_panics hstep)
  · rw [hserver, hp, hnode]
    refine ⟨sound.stop _ ?_, fun e _ => Or.inr ⟨rfl, by rw [hphase]; rfl⟩⟩
    intro e he
    cases he
    exact Or.inr ⟨status, rfl⟩

theorem react (sound : Sound server) {stimulus : Stimulus}
    (h : server.react stimulus = some server') : Turn server stimulus server' := by
  cases stimulus with
  | clusterUp =>
    simp only [RaftServer.react] at h
    obtain ⟨_, rfl⟩ := turn_eq_some h
    exact sound.turn_clusterUp
  | tick =>
    simp only [RaftServer.react] at h
    obtain ⟨_, rfl⟩ := turn_eq_some h
    exact sound.turn_tick
  | voteRequest req =>
    simp only [RaftServer.react] at h
    obtain ⟨_, rfl⟩ := turn_eq_some h
    exact sound.turn_voteRequest req
  | appendRequest req =>
    simp only [RaftServer.react] at h
    obtain ⟨_, rfl⟩ := turn_eq_some h
    exact sound.turn_appendRequest req
  | client command =>
    simp only [RaftServer.react] at h
    obtain ⟨hphase, rfl⟩ := turn_eq_some h
    exact sound.turn_client command hphase
  | send =>
    simp only [RaftServer.react] at h
    split at h
    · exact sound.turn_send h
    · cases h
  | voteReply peer response =>
    simp only [RaftServer.react] at h
    split at h
    · rename_i req calls hphase
      split at h
      · cases h
        exact sound.turn_answer hphase (.votes req _) _
      · cases h
    · cases h
  | appendReply peer response =>
    simp only [RaftServer.react] at h
    split at h
    · rename_i req calls hphase
      split at h
      · rename_i hcall
        cases h
        refine sound.turn_answer hphase ?_ _
        cases sound.awaiting _ _ hphase with
        | pending =>
          obtain rfl : peer = req.toNode := by simpa using hcall
          simpa [setCall] using Awaited.answered req response
        | answered => simp at hcall
        | failed => simp at hcall
      · cases h
    · cases h
  | failed peer status =>
    simp only [RaftServer.react] at h
    split at h
    · rename_i event calls hphase
      split at h
      · rename_i hcall
        cases h
        refine sound.turn_answer hphase ?_ _
        cases sound.awaiting _ _ hphase with
        | votes req => exact .votes req _
        | pending req =>
          obtain rfl : req.toNode = peer := by simpa using hcall
          simpa [setCall] using Awaited.failed req status
        | answered req =>
          obtain rfl : req.toNode = peer := by simpa using hcall
          simpa [setCall] using Awaited.failed req status
        | failed req =>
          obtain rfl : req.toNode = peer := by simpa using hcall
          simpa [setCall] using Awaited.failed req status
      · cases h
    · cases h
  | resume => exact sound.turn_resume h

end Sound

/-- In every environment: no arm of the loop meets an event that it does not expect,
and all clients that it asks for are there. -/
theorem sound_of_run {id : NodeId} {peers : List NodeId} {timeout : Nat}
    {h : List (Move RaftServer Stimulus)} {server : RaftServer}
    (run : Run (loop (RaftNode.new id peers timeout)) h server) : Sound server :=
  run.induct (fun _ server => Sound server) (Sound.start _ rfl rfl)
    fun _ sound hstep => (sound.react hstep).sound

/-- The loop lives on: no turn ends it with an error, a command to a node that does
not lead is answered with `BadRequest` and changes nothing, and neither does a
failed `append_entries`. A panic is no error that `run` returns: a run that ends in
one may survive. -/
structure Survives (h : List (Move RaftServer Stimulus)) (server : RaftServer) : Prop where
  noError : ∀ x ∈ moments h server, ∀ e, x.phase ≠ .stopped (.error e)
  client : ∀ m ∈ h, ∀ command, m.action = .client command → m.before.node.state ≠ .leader →
    (∃ message, (m.before.node.handleClientRequest (.commandRequestEvent command)).reply =
      some (.error (.badRequest message))) ∧ m.after = m.before
  append : ∀ m ∈ h, m.action = .resume → m.before.phase.failedAppend = true →
    m.after.node = m.before.node ∧ m.after.phase = .selecting

def Tolerates (server : RaftServer) : Stimulus → Prop
  | .client _ => server.node.state = .leader
  | .resume => server.phase.failedAppend = false
  | _ => True

instance (server : RaftServer) : (stimulus : Stimulus) → Decidable (Tolerates server stimulus)
  | .client _ => inferInstanceAs (Decidable (_ = _))
  | .resume => inferInstanceAs (Decidable (_ = _))
  | .clusterUp | .tick | .voteRequest _ | .appendRequest _ | .send | .voteReply _ _
  | .appendReply _ _ | .failed _ _ => inferInstanceAs (Decidable True)

theorem noError_of_run {id : NodeId} {peers : List NodeId} {timeout : Nat}
    {h : List (Move RaftServer Stimulus)} {server : RaftServer}
    (run : Run (loop (RaftNode.new id peers timeout)) h server) (hm : Meets Tolerates h) :
    ∀ x ∈ moments h server, ∀ e, x.phase ≠ .stopped (.error e) := by
  apply run.invariant_moments Tolerates (fun x => ∀ e, x.phase ≠ .stopped (.error e)) ?_ ?_ hm
  · intro e he
    cases he
  · intro h server server' stimulus run _ _ htolerates hstep e he
    rcases ((sound_of_run run).react hstep).cause e he with ⟨command, rfl, hrole⟩ | ⟨rfl, hfailed⟩
    · exact hrole htolerates
    · rw [show server.phase.failedAppend = false from htolerates] at hfailed
      cases hfailed

theorem survives_iff {id : NodeId} {peers : List NodeId} {timeout : Nat}
    {h : List (Move RaftServer Stimulus)} {server : RaftServer}
    (run : Run (loop (RaftNode.new id peers timeout)) h server) :
    Survives h server ↔ Meets Tolerates h := by
  constructor
  · rintro ⟨_, hclient, happend⟩ ⟨before, stimulus, after⟩ hmem
    obtain ⟨hstep, _⟩ := run.of_mem hmem
    change before.react stimulus = some after at hstep
    cases stimulus with
    | client command =>
      by_contra hrole
      have hrole : before.node.state ≠ .leader := hrole
      have hsame : after = before := (hclient _ hmem command rfl hrole).2
      simp only [RaftServer.react] at hstep
      obtain ⟨hphase, hafter⟩ := turn_eq_some hstep
      rw [hsame, RaftServer.selectClient, RaftNode.handleClientRequest_other hrole] at hafter
      rw [hafter] at hphase
      cases hphase
    | resume =>
      change before.phase.failedAppend = false
      by_contra hfailed
      have hfailed : before.phase.failedAppend = true := by simpa using hfailed
      have hgo := (happend _ hmem rfl hfailed).2
      obtain ⟨event, calls, hphase, _, _, hcases⟩ := RaftServer.resume_cases hstep
      rw [hphase] at hfailed
      rcases hcases with ⟨req, rfl, _⟩ | ⟨_, _, _, rfl, rfl, _⟩ | ⟨_, _, _, _, rfl, rfl, _⟩ |
        ⟨_, _, _, _, _, hstopped, _⟩
      · cases hfailed
      · cases hfailed
      · cases hfailed
      · rw [hstopped] at hgo
        cases hgo
    | _ => exact trivial
  · intro hm
    refine ⟨noError_of_run run hm, ?_, ?_⟩
    · intro m hmem command hact hrole
      have htolerates := hm m hmem
      rw [hact] at htolerates
      exact absurd htolerates hrole
    · intro m hmem hact hfailed
      have htolerates := hm m hmem
      rw [hact] at htolerates
      rw [show m.before.phase.failedAppend = false from htolerates] at hfailed
      cases hfailed

theorem survives_iff_committed :
    ∃ h server, Run (loop (RaftNode.new "node1" ["node2"] 7)) h server ∧
      (server.node.state = .leader ∧ server.node.commitIndex = 0) ∧ Survives h server := by
  obtain ⟨h, server, run, hm, hcommitted⟩ := exists_run_of_exec
    (loop (RaftNode.new "node1" ["node2"] 7)) Tolerates
    (fun server => server.node.state = .leader ∧ server.node.commitIndex = 0)
    (.clusterUp :: List.replicate 7 .tick ++
      [.send, .voteReply "node2" ⟨"node2", 1, true⟩, .resume, .client ⟨"x", "1"⟩, .tick,
        .send, .appendReply "node2" ⟨"node2", 1, true, 0⟩, .resume])
    (by decide +kernel)
  exact ⟨h, server, run, hcommitted, (survives_iff run).mpr hm⟩

/-- A command that reaches a node before any election ends its loop. -/
theorem not_survives :
    ∃ h server, Run (loop (RaftNode.new "node1" ["node2"] 7)) h server ∧ ¬Survives h server := by
  obtain ⟨h, server, run, _, hstopped⟩ := exists_run_of_exec
    (loop (RaftNode.new "node1" ["node2"] 7)) (fun _ _ => True)
    (fun server => server.phase = .stopped (.error RaftNode.notTheLeader))
    [.clusterUp, .client ⟨"x", "1"⟩] (by decide +kernel)
  exact ⟨h, server, run, fun hsurvives =>
    hsurvives.noError server (mem_moments_self h server) _ hstopped⟩

/-! ## Loops of a cluster -/

def IsRequest (event : RaftEvent) : Prop :=
  (∃ req, event = .peerVotesRequestEvent req) ∨ ∃ req, event = .appendEntriesRequestEvent req

theorem Awaited.isRequest {event : RaftEvent} {calls : List (NodeId × Call)}
    (h : Awaited event calls) : IsRequest event := by
  cases h with
  | votes req => exact Or.inl ⟨req, rfl⟩
  | pending req => exact Or.inr ⟨req, rfl⟩
  | answered req => exact Or.inr ⟨req, rfl⟩
  | failed req => exact Or.inr ⟨req, rfl⟩

/-- Every member's loop in a cluster follows a run of a loop on its own. -/
structure OwnRuns (cfg : Config) (c : Cluster) : Prop where
  run : ∀ a ∈ cfg.ids,
    ∃ h, Run (loop (RaftNode.new a (cfg.peersOf a) (cfg.timeoutOf a))) h (c.servers a)
  orphans : ∀ orphan ∈ c.orphans, IsRequest orphan.event

theorem OwnRuns.sound {cfg : Config} {c : Cluster} (inv : OwnRuns cfg c) {a : NodeId}
    (ha : a ∈ cfg.ids) : Sound (c.servers a) := by
  obtain ⟨h, run⟩ := inv.run a ha
  exact sound_of_run run

theorem OwnRuns.awaited {cfg : Config} {c : Cluster} (inv : OwnRuns cfg c) (members : Members cfg c)
    {a : NodeId} {event : RaftEvent} {calls : List (NodeId × Call)}
    (hphase : c.phase a = .awaiting event calls) : a ∈ cfg.ids ∧ Awaited event calls := by
  have ha := members.mem_ids_of_awaiting hphase
  exact ⟨ha, (inv.sound ha).awaiting _ _ hphase⟩

theorem OwnRuns.isRequest_of_handled {cfg : Config} {c : Cluster} (inv : OwnRuns cfg c)
    (members : Members cfg c) {act : Action} {v : NodeId} {event : RaftEvent}
    (h : c.handled act = some (v, event)) : IsRequest event := by
  cases act with
  | deliver a p =>
    simp only [Cluster.handled] at h
    split at h
    · rename_i hphase
      cases h
      exact (inv.awaited members hphase).2.isRequest
    · cases h
  | deliverOrphan k =>
    obtain ⟨orphan, horphan, heq⟩ := Option.map_eq_some_iff.mp h
    cases heq
    exact inv.orphans orphan (List.mem_of_getElem? horphan)
  | _ => cases h

/-- A step of the cluster is a turn of each member's loop, or leaves the loop alone. The loop
takes a command only as the step says. -/
theorem OwnRuns.stimulus {cfg : Config} {c c' : Cluster} (inv : OwnRuns cfg c)
    (members : Members cfg c) {act : Action} (h : c.step act = some c') (v : NodeId) :
    c'.servers v = c.servers v ∨
      ∃ stimulus, (∀ command, stimulus = .client command → act = .client v command) ∧
        (c.servers v).react stimulus = some (c'.servers v) := by
  cases Cluster.server_move h v with
  | idle heq => exact Or.inl heq
  | clusterUp _ hphase heq => exact Or.inr ⟨.clusterUp, nofun, by rw [heq]; exact if_pos hphase⟩
  | tick _ hphase heq => exact Or.inr ⟨.tick, nofun, by rw [heq]; exact if_pos hphase⟩
  | client command hact hphase heq =>
    refine Or.inr ⟨.client command, ?_, by rw [heq]; exact if_pos hphase⟩
    intro other hother
    cases hother
    exact hact
  | send _ hphase heq => exact Or.inr ⟨.send, nofun, by rw [← heq]; exact if_pos hphase⟩
  | handle event hhandled hphase heq =>
    rcases inv.isRequest_of_handled members hhandled with ⟨req, rfl⟩ | ⟨req, rfl⟩
    · exact Or.inr ⟨.voteRequest req, nofun, by rw [heq]; exact if_pos hphase⟩
    · exact Or.inr ⟨.appendRequest req, nofun, by rw [heq]; exact if_pos hphase⟩
  | answer p event calls _ hphase hcall _ _ heq =>
    have hphase : (c.servers v).phase = .awaiting event calls := hphase
    rcases (inv.awaited members hphase).2.isRequest with ⟨req, rfl⟩ | ⟨req, rfl⟩
    · rw [RaftServer.respond_vote] at heq
      refine Or.inr ⟨.voteReply p ⟨(c.servers p).node.id, req.term,
        decide ((c.servers p).node.currentTerm < req.term)⟩, nofun, ?_⟩
      simp only [RaftServer.react, hphase, if_pos hcall]
      rw [heq]
    · obtain ⟨response, _, hrespond⟩ := RaftServer.respond_append (c.servers p) req
      rw [hrespond] at heq
      refine Or.inr ⟨.appendReply p response, nofun, ?_⟩
      simp only [RaftServer.react, hphase, if_pos hcall]
      rw [heq]
  | fail p status event calls _ hphase hcall heq =>
    have hphase : (c.servers v).phase = .awaiting event calls := hphase
    refine Or.inr ⟨.failed p status, nofun, ?_⟩
    obtain ⟨call, hmem, hp⟩ := List.mem_map.mp hcall
    have hany : (calls.any fun call => call.1 = p) = true :=
      List.any_eq_true.mpr ⟨call, hmem, decide_eq_true hp⟩
    simp only [RaftServer.react, hphase, if_pos hany]
    rw [heq]
  | resume _ heq => exact Or.inr ⟨.resume, nofun, heq⟩

theorem OwnRuns.react {cfg : Config} {c c' : Cluster} (inv : OwnRuns cfg c)
    (members : Members cfg c) {act : Action} (h : c.step act = some c') (v : NodeId) :
    c'.servers v = c.servers v ∨
      ∃ stimulus, (c.servers v).react stimulus = some (c'.servers v) :=
  (inv.stimulus members h v).imp_right fun ⟨stimulus, _, hreact⟩ => ⟨stimulus, hreact⟩

theorem OwnRuns.step {cfg : Config} {c c' : Cluster} (inv : OwnRuns cfg c)
    (members : Members cfg c) {act : Action} (h : c.step act = some c') : OwnRuns cfg c' where
  run := by
    intro a ha
    obtain ⟨history, run⟩ := inv.run a ha
    rcases inv.react members h a with heq | ⟨stimulus, hreact⟩
    · exact ⟨history, heq ▸ run⟩
    · exact ⟨_, run.next hreact⟩
  orphans := by
    intro orphan hmem
    rcases Cluster.orphans_move h with hsub | ⟨a, p, _, event, calls, hphase, _, _, heq⟩
    · exact inv.orphans orphan (hsub hmem)
    · rw [heq] at hmem
      rcases List.mem_append.mp hmem with hold | hnew
      · exact inv.orphans orphan hold
      · rw [List.mem_singleton.mp hnew]
        exact (inv.awaited members hphase).2.isRequest

theorem ownRuns_of_run {cfg : Config} {h : List (Move Cluster Action)} {c : Cluster}
    (run : Run (cluster cfg) h c) : OwnRuns cfg c := by
  apply run.induct (fun _ c => OwnRuns cfg c) ⟨?_, ?_⟩
    fun hrun inv hstep => inv.step (members_of_run hrun) hstep
  · intro a ha
    refine ⟨[], ?_⟩
    have hstart : (cluster cfg).init.servers a =
        RaftServer.start (RaftNode.new a (cfg.peersOf a) (cfg.timeoutOf a)) := if_pos ha
    rw [hstart]
    exact .start
  · intro orphan horphan
    cases horphan

end Rafting
