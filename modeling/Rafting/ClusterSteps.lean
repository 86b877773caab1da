import Rafting.Cluster
import Rafting.NodeSteps

/-! What one step of the cluster can do to one node, stated once: `node_move`
for the node, `pipeline_move` for the requests it has on their way out. -/
namespace Rafting
open Fallible

/-- An outgoing event that the loop's arm for it has a client for. -/
def Sendable (clients : List NodeId) (event : RaftEvent) : Prop :=
  (∃ req, event = .appendEntriesRequestEvent req ∧ req.toNode ∈ clients) ∨
    ∃ req, event = .peerVotesRequestEvent req

namespace RaftServer

section Pipeline
variable {server : RaftServer}

theorem pipeline_of_selecting (h : server.phase = .selecting) :
    server.pipeline = server.node.nodeToPeersTx := by
  rw [pipeline, h]
  rfl

theorem pipeline_of_awaiting {event : RaftEvent} {calls : List (NodeId × Call)}
    (h : server.phase = .awaiting event calls) :
    server.pipeline = event :: server.node.nodeToPeersTx := by
  rw [pipeline, h]
  rfl

theorem pipeline_of_stopped {fault : Fault} (h : server.phase = .stopped fault) :
    server.pipeline = server.node.nodeToPeersTx := by
  rw [pipeline, h]
  rfl

end Pipeline

theorem settle_node (server : RaftServer) (result : RaftResult RaftNode) :
    result = .ok (server.settle result).node ∨ (server.settle result).node = server.node := by
  cases result with
  | ok node => exact Or.inl rfl
  | error fault => exact Or.inr rfl

theorem selectServer_request_node (server : RaftServer) (event : RaftEvent) :
    (∃ req, event = .peerVotesRequestEvent req ∧
      (server.selectServer (event, some .oneshot)).1.node =
        (server.node.stepPeerVotesRequest req).1) ∨
    (∃ req, event = .appendEntriesRequestEvent req ∧
      (server.selectServer (event, some .oneshot)).1.node =
        (server.node.stepAppendEntriesRequest req).1) ∨
    (server.selectServer (event, some .oneshot)).1.node = server.node := by
  cases event with
  | peerVotesRequestEvent req => exact Or.inl ⟨req, rfl, rfl⟩
  | appendEntriesRequestEvent req => exact Or.inr (Or.inl ⟨req, rfl, rfl⟩)
  | _ => exact Or.inr (Or.inr rfl)

theorem selectPeers_cases {server server' : RaftServer} (h : server.selectPeers = some server') :
    ∃ event rest, server.node.nodeToPeersTx = event :: rest ∧
      server'.network = server.network ∧
      server'.node = { server.node with nodeToPeersTx := rest } ∧
      ((∃ req, event = .appendEntriesRequestEvent req ∧ req.toNode ∈ server.network.peerClients ∧
          server'.phase = .awaiting event [(req.toNode, .pending)]) ∨
        (∃ req, event = .peerVotesRequestEvent req ∧
          server'.phase = .awaiting event
            (server.network.peerClients.map fun peer => (peer, .pending))) ∨
        ∃ e, server'.phase = .stopped (.error e) ∧
          ¬Sendable server.network.peerClients event) := by
  cases hqueue : server.node.nodeToPeersTx with
  | nil => simp [selectPeers, hqueue] at h
  | cons event rest =>
    refine ⟨event, rest, rfl, ?_⟩
    unfold selectPeers at h
    rw [hqueue] at h
    cases event with
    | appendEntriesRequestEvent req =>
      dsimp only at h
      split at h
      · rename_i hclient
        cases h
        exact ⟨rfl, rfl, Or.inl ⟨req, rfl, hclient, rfl⟩⟩
      · rename_i hclient
        cases h
        exact ⟨rfl, rfl, Or.inr (Or.inr ⟨_, rfl, by simpa [Sendable] using hclient⟩)⟩
    | peerVotesRequestEvent req =>
      cases h
      exact ⟨rfl, rfl, Or.inr (Or.inl ⟨req, rfl, rfl⟩)⟩
    | _ =>
      cases h
      exact ⟨rfl, rfl, Or.inr (Or.inr ⟨_, rfl, by simp [Sendable]⟩)⟩

theorem respond_vote (server : RaftServer) (req : RequestVoteRequest) :
    respond (.peerVotesRequestEvent req)
        (server.selectServer (.peerVotesRequestEvent req, some .oneshot)).2 =
      .answered (.requestVoteResponseEvent {
        fromNode := server.node.id
        term := req.term
        voteGranted := decide (server.node.currentTerm < req.term) }) := by
  simp only [selectServer, RaftNode.step, RaftNode.stepPeerVotesRequest_eq]
  by_cases hnewer : server.node.currentTerm < req.term
  · simp [hnewer, respond, RaftNode.voteResponse]
  · simp [hnewer, respond, RaftNode.voteResponse]

theorem respond_append (server : RaftServer) (req : AppendEntriesRequest) :
    ∃ response, (server.node.stepAppendEntriesRequest req).2 = .appendEntriesResponseEvent response ∧
      respond (.appendEntriesRequestEvent req)
        (server.selectServer (.appendEntriesRequestEvent req, some .oneshot)).2 =
          .answered (.appendEntriesResponseEvent response) := by
  rcases RaftNode.stepAppendEntriesRequest_cases server.node req with ⟨_, heq⟩ | ⟨_, _, heq⟩
  · exact ⟨_, by rw [heq], by simp only [selectServer, RaftNode.step, heq]; rfl⟩
  · exact ⟨_, by rw [heq], by simp only [selectServer, RaftNode.step, heq]; rfl⟩

@[simp] theorem answer_node (server : RaftServer) (peer : NodeId) (outcome : Call) :
    (server.answer peer outcome).node = server.node := by
  unfold answer
  split <;> rfl

@[simp] theorem answer_network (server : RaftServer) (peer : NodeId) (outcome : Call) :
    (server.answer peer outcome).network = server.network := by
  unfold answer
  split <;> rfl

theorem answer_pipeline (server : RaftServer) (peer : NodeId) (outcome : Call) :
    (server.answer peer outcome).pipeline = server.pipeline := by
  unfold answer
  split
  · rename_i hphase
    simp [pipeline, hphase, Phase.outstanding]
  · rfl

theorem selectServer_request_pipeline (server : RaftServer) (event : RaftEvent)
    (hphase : server.phase = .selecting) :
    (server.selectServer (event, some .oneshot)).1.pipeline = server.pipeline := by
  cases event with
  | peerVotesRequestEvent req =>
    simp only [selectServer, RaftNode.step, pipeline, hphase, Phase.outstanding,
      RaftNode.stepPeerVotesRequest_eq]
    split <;> rfl
  | appendEntriesRequestEvent req =>
    simp [selectServer, RaftNode.step, pipeline, hphase, Phase.outstanding]
  | _ => simp [selectServer, RaftNode.step, pipeline, hphase, Phase.outstanding]

theorem resume_cases {server server' : RaftServer} (h : server.resume = some server') :
    ∃ event calls, server.phase = .awaiting event calls ∧ (∀ call ∈ calls, call.2 ≠ .pending) ∧
      server'.network = server.network ∧
      ((∃ req, event = .peerVotesRequestEvent req ∧ server'.phase = .selecting ∧
          server'.node =
            server.node.stepPeerVotesResponse (PeerNetwork.voteResponses calls)) ∨
        (∃ req peer response, event = .appendEntriesRequestEvent req ∧
          calls = [(peer, .answered (.appendEntriesResponseEvent response))] ∧
          server'.phase = .selecting ∧
          server.node.stepAppendEntriesResponse response = .ok server'.node) ∨
        (∃ req peer response fault, event = .appendEntriesRequestEvent req ∧
          calls = [(peer, .answered (.appendEntriesResponseEvent response))] ∧
          server.node.stepAppendEntriesResponse response = .error fault ∧
          server'.phase = .stopped fault ∧ server'.node = server.node) ∨
        (∃ req peer status, event = .appendEntriesRequestEvent req ∧
          calls = [(peer, .failed status)] ∧
          server'.phase = .stopped (.error (server.network.appendFailed status)) ∧
          server'.node = server.node)) := by
  unfold resume at h
  split at h
  case h_2 => cases h
  case h_1 event calls hphase =>
    split at h
    · cases h
    · rename_i hpending
      refine ⟨event, calls, hphase, ?_, ?_⟩
      · intro call hcall heq
        exact hpending (List.any_eq_true.mpr ⟨call, hcall, by simpa using heq⟩)
      · split at h
        · cases h
          exact ⟨rfl, Or.inl ⟨_, rfl, rfl, rfl⟩⟩
        · rename_i req peer response
          cases hstep : server.node.stepAppendEntriesResponse response with
          | ok node =>
            have hs : server.node.step (.appendEntriesResponseEvent response, none) =
                .ok (node, none) := by
              change (server.node.stepAppendEntriesResponse response >>= _) = _
              rw [hstep]
              rfl
            simp only [selectServer, hs] at h
            cases h
            exact ⟨rfl, Or.inr (Or.inl ⟨req, peer, response, rfl, rfl, rfl, hstep⟩)⟩
          | error fault =>
            have hs : server.node.step (.appendEntriesResponseEvent response, none) =
                .error fault := by
              change (server.node.stepAppendEntriesResponse response >>= _) = _
              rw [hstep]
              rfl
            simp only [selectServer, hs] at h
            cases h
            exact ⟨rfl, Or.inr (Or.inr (Or.inl
              ⟨req, peer, response, fault, rfl, rfl, hstep, rfl, rfl⟩))⟩
        · rename_i req peer status
          cases h
          exact ⟨rfl, Or.inr (Or.inr (Or.inr ⟨req, peer, status, rfl, rfl, rfl, rfl⟩))⟩
        · cases h

end RaftServer

namespace Cluster

@[simp] theorem servers_set_self (c : Cluster) (a : NodeId) (server : RaftServer) :
    (c.set a server).servers a = server := by
  simp [set]

theorem servers_set_ne (c : Cluster) {a x : NodeId} (server : RaftServer) (h : x ≠ a) :
    (c.set a server).servers x = c.servers x := by
  simp [set, h]

theorem turn_eq_some {c c' : Cluster} {a : NodeId} {arm : RaftServer → RaftServer}
    (h : c.turn a arm = some c') :
    c.phase a = .selecting ∧ c' = c.set a (arm (c.servers a)) := by
  unfold turn at h
  split at h
  · cases h
    exact ⟨‹_›, rfl⟩
  · cases h

theorem deliver_eq_some {c c' : Cluster} {a p : NodeId} (h : c.deliver a p = some c') :
    ∃ event calls, c.phase a = .awaiting event calls ∧ (p, Call.pending) ∈ calls ∧
      c.phase p = .selecting ∧ p ≠ a ∧
      c' = (c.set p ((c.servers p).selectServer (event, some .oneshot)).1).set a
        ((c.servers a).answer p
          (respond event ((c.servers p).selectServer (event, some .oneshot)).2)) := by
  unfold deliver at h
  split at h
  case h_2 => cases h
  case h_1 event calls hphase =>
    split at h
    · rename_i hcond
      cases h
      refine ⟨event, calls, hphase, hcond.1, hcond.2, ?_, rfl⟩
      rintro rfl
      rw [hphase] at hcond
      cases hcond.2
    · cases h

theorem deliverOrphan_eq_some {c c' : Cluster} {k : Nat} (h : c.deliverOrphan k = some c') :
    ∃ orphan, c.orphans[k]? = some orphan ∧ c.phase orphan.peer = .selecting ∧
      c' = { c.set orphan.peer
          ((c.servers orphan.peer).selectServer (orphan.event, some .oneshot)).1 with
        orphans := c.orphans.eraseIdx k } := by
  unfold deliverOrphan at h
  split at h
  · rename_i orphan horphan
    split at h
    · cases h
      exact ⟨orphan, horphan, ‹_›, rfl⟩
    · cases h
  · cases h

/-- A failing call changes neither loop's node; a request that was still on its
way is left behind. -/
theorem fail_eq_some {c c' : Cluster} {a p : NodeId} {status : Status}
    (h : c.fail a p status = some c') :
    ∃ event calls, c.phase a = .awaiting event calls ∧ p ∈ calls.map Prod.fst ∧
      c'.servers = Function.update c.servers a ((c.servers a).answer p (.failed status)) ∧
      ((p, Call.pending) ∈ calls ∧ c'.orphans = c.orphans ++ [⟨p, event⟩] ∨
        c'.orphans = c.orphans) := by
  unfold fail at h
  split at h
  case h_2 => cases h
  case h_1 event calls hphase =>
    refine ⟨event, calls, hphase, ?_⟩
    split at h
    · rename_i hcall
      cases h
      exact ⟨List.mem_map.mpr ⟨_, hcall, rfl⟩, rfl, Or.inl ⟨hcall, rfl⟩⟩
    · split at h
      · rename_i hany
        cases h
        obtain ⟨call, hcall, hp⟩ := List.any_eq_true.mp hany
        have hp : call.1 = p := by
          have := of_decide_eq_true hp
          exact this.1
        exact ⟨List.mem_map.mpr ⟨call, hcall, hp⟩, rfl, Or.inr rfl⟩
      · cases h

theorem orphans_move {c c' : Cluster} {act : Action} (h : c.step act = some c') :
    c'.orphans ⊆ c.orphans ∨
      ∃ a p status event calls, c.phase a = .awaiting event calls ∧ (p, Call.pending) ∈ calls ∧
        c'.phase a = .awaiting event (setCall calls p (.failed status)) ∧
        c'.orphans = c.orphans ++ [⟨p, event⟩] := by
  cases act with
  | clusterUp a =>
    obtain ⟨_, rfl⟩ := turn_eq_some h
    exact Or.inl (List.Subset.refl _)
  | tick a =>
    obtain ⟨_, rfl⟩ := turn_eq_some h
    exact Or.inl (List.Subset.refl _)
  | client a command =>
    simp only [step] at h
    obtain ⟨_, rfl⟩ := turn_eq_some h
    exact Or.inl (List.Subset.refl _)
  | send a =>
    simp only [step] at h
    split at h
    · obtain ⟨server, _, rfl⟩ := Option.map_eq_some_iff.mp h
      exact Or.inl (List.Subset.refl _)
    · cases h
  | deliver a p =>
    obtain ⟨_, _, _, _, _, _, rfl⟩ := deliver_eq_some h
    exact Or.inl (List.Subset.refl _)
  | deliverOrphan k =>
    obtain ⟨_, _, _, rfl⟩ := deliverOrphan_eq_some h
    exact Or.inl (List.eraseIdx_subset)
  | fail a p status =>
    obtain ⟨event, calls, hphase, _, hservers, ⟨hcall, heq⟩ | heq⟩ := fail_eq_some h
    · refine Or.inr ⟨a, p, status, event, calls, hphase, hcall, ?_, heq⟩
      rw [phase, hservers, Function.update_self, RaftServer.answer,
        show (c.servers a).phase = _ from hphase]
    · exact Or.inl (heq ▸ List.Subset.refl _)
  | resume a =>
    obtain ⟨server, _, rfl⟩ := Option.map_eq_some_iff.mp h
    exact Or.inl (List.Subset.refl _)

theorem servers_of_handled {c c' : Cluster} {act : Action} {v : NodeId} {event : RaftEvent}
    (h : c.step act = some c') (hhandled : c.handled act = some (v, event)) :
    c.phase v = .selecting ∧
      c'.servers v = ((c.servers v).selectServer (event, some .oneshot)).1 := by
  cases act with
  | deliver a p =>
    obtain ⟨event', calls, hphase, _, hp, hne, rfl⟩ := deliver_eq_some h
    simp only [handled, hphase, Option.some.injEq, Prod.mk.injEq] at hhandled
    obtain ⟨rfl, rfl⟩ := hhandled
    exact ⟨hp, by rw [servers_set_ne _ _ hne, servers_set_self]⟩
  | deliverOrphan k =>
    obtain ⟨orphan, horphan, hp, rfl⟩ := deliverOrphan_eq_some h
    simp only [handled, horphan, Option.map_some, Option.some.injEq, Prod.mk.injEq] at hhandled
    obtain ⟨rfl, rfl⟩ := hhandled
    exact ⟨hp, servers_set_self c _ _⟩
  | _ => cases hhandled

def handledVote (c : Cluster) (act : Action) : Option (NodeId × RequestVoteRequest) :=
  match c.handled act with
  | some (v, .peerVotesRequestEvent req) => some (v, req)
  | _ => none

def handledAppend (c : Cluster) (act : Action) : Option (NodeId × AppendEntriesRequest) :=
  match c.handled act with
  | some (v, .appendEntriesRequestEvent req) => some (v, req)
  | _ => none

theorem handledVote_eq_some {c : Cluster} {act : Action} {v : NodeId} {req : RequestVoteRequest} :
    c.handledVote act = some (v, req) ↔
      c.handled act = some (v, .peerVotesRequestEvent req) := by
  unfold handledVote
  split
  · rename_i h
    simp [h]
  · rename_i h
    simpa using fun heq => h _ _ heq

theorem handledAppend_eq_some {c : Cluster} {act : Action} {v : NodeId}
    {req : AppendEntriesRequest} :
    c.handledAppend act = some (v, req) ↔
      c.handled act = some (v, .appendEntriesRequestEvent req) := by
  unfold handledAppend
  split
  · rename_i h
    simp [h]
  · rename_i h
    simpa using fun heq => h _ _ heq

/-- The vote round whose replies an action counts. -/
def counted (c : Cluster) :
    Action → Option (NodeId × RequestVoteRequest × List (NodeId × Call))
  | .resume a =>
    match c.phase a with
    | .awaiting (.peerVotesRequestEvent req) calls => some (a, req, calls)
    | _ => none
  | _ => none

/-- The reply to an append request that an action takes in. -/
def received (c : Cluster) : Action → Option (NodeId × AppendEntriesResponse)
  | .resume a =>
    match c.phase a with
    | .awaiting (.appendEntriesRequestEvent _)
        [(_, .answered (.appendEntriesResponseEvent response))] => some (a, response)
    | _ => none
  | _ => none

theorem counted_eq_some {c : Cluster} {act : Action} {a : NodeId} {req : RequestVoteRequest}
    {calls : List (NodeId × Call)} (hact : act = .resume a)
    (hphase : c.phase a = .awaiting (.peerVotesRequestEvent req) calls) :
    c.counted act = some (a, req, calls) := by
  simp [hact, counted, hphase]

theorem received_eq_some {c : Cluster} {act : Action} {a p : NodeId} {req : AppendEntriesRequest}
    {response : AppendEntriesResponse} (hact : act = .resume a)
    (hphase : c.phase a = .awaiting (.appendEntriesRequestEvent req)
      [(p, .answered (.appendEntriesResponseEvent response))]) :
    c.received act = some (a, response) := by
  simp [hact, received, hphase]

theorem node_of_vote {c c' : Cluster} {act : Action} {v : NodeId} {req : RequestVoteRequest}
    (h : c.step act = some c') (hhandled : c.handled act = some (v, .peerVotesRequestEvent req)) :
    c'.node v = ((c.node v).stepPeerVotesRequest req).1 := by
  rw [node, (servers_of_handled h hhandled).2]
  rfl

theorem node_of_append {c c' : Cluster} {act : Action} {v : NodeId} {req : AppendEntriesRequest}
    (h : c.step act = some c')
    (hhandled : c.handled act = some (v, .appendEntriesRequestEvent req)) :
    c'.node v = ((c.node v).stepAppendEntriesRequest req).1 := by
  rw [node, (servers_of_handled h hhandled).2]
  rfl

theorem log_of_confirm {c c' : Cluster} {act : Action} {v : NodeId} {req : AppendEntriesRequest}
    (h : c.step act = some c')
    (hhandled : c.handled act = some (v, .appendEntriesRequestEvent req))
    (hconfirms : RaftNode.Confirms (c.node v).log req) : (c'.node v).log = (c.node v).log := by
  rw [node_of_append h hhandled, RaftNode.stepAppendEntriesRequest_log, RaftNode.appendLog_getD,
    if_neg hconfirms.not_appends]

theorem counted_cases {c : Cluster} {act : Action} {a : NodeId} {req : RequestVoteRequest}
    {calls : List (NodeId × Call)} (h : c.counted act = some (a, req, calls)) :
    act = .resume a ∧ c.phase a = .awaiting (.peerVotesRequestEvent req) calls := by
  unfold counted at h
  split at h
  · split at h
    · rename_i hphase
      cases h
      exact ⟨rfl, hphase⟩
    · cases h
  · cases h

theorem received_cases {c : Cluster} {act : Action} {a : NodeId}
    {response : AppendEntriesResponse} (h : c.received act = some (a, response)) :
    act = .resume a ∧ ∃ req p, c.phase a = .awaiting (.appendEntriesRequestEvent req)
      [(p, .answered (.appendEntriesResponseEvent response))] := by
  unfold received at h
  split at h
  · split at h
    · rename_i req p response' hphase
      cases h
      exact ⟨rfl, req, p, hphase⟩
    · cases h
  · cases h

theorem pipeline_of_counted {c c' : Cluster} {act : Action} {a : NodeId} {req : RequestVoteRequest}
    {calls : List (NodeId × Call)} (h : c.step act = some c')
    (hcounted : c.counted act = some (a, req, calls)) :
    c.pipeline a = .peerVotesRequestEvent req :: (c.node a).nodeToPeersTx ∧
      c'.pipeline a = (c'.node a).nodeToPeersTx := by
  obtain ⟨rfl, hphase⟩ := counted_cases hcounted
  have hphase : (c.servers a).phase = .awaiting (.peerVotesRequestEvent req) calls := hphase
  obtain ⟨server, hserver, rfl⟩ := Option.map_eq_some_iff.mp h
  obtain ⟨event, calls', hphase', _, _, hcases⟩ := RaftServer.resume_cases hserver
  rw [hphase] at hphase'
  cases hphase'
  refine ⟨RaftServer.pipeline_of_awaiting hphase, ?_⟩
  rcases hcases with ⟨_, _, hselecting, _⟩ | ⟨_, _, _, heq, _⟩ | ⟨_, _, _, _, heq, _⟩ |
    ⟨_, _, _, heq, _⟩
  · rw [pipeline, node, servers_set_self]
    exact RaftServer.pipeline_of_selecting hselecting
  · cases heq
  · cases heq
  · cases heq

theorem node_of_counted {c c' : Cluster} {act : Action} {a : NodeId} {req : RequestVoteRequest}
    {calls : List (NodeId × Call)} (h : c.step act = some c')
    (hcounted : c.counted act = some (a, req, calls)) :
    c'.node a = (c.node a).stepPeerVotesResponse (PeerNetwork.voteResponses calls) := by
  obtain ⟨rfl, hphase⟩ := counted_cases hcounted
  obtain ⟨server, hserver, rfl⟩ := Option.map_eq_some_iff.mp h
  obtain ⟨event, calls', hphase', _, _, hcases⟩ := RaftServer.resume_cases hserver
  rw [show (c.servers a).phase = _ from hphase] at hphase'
  cases hphase'
  rcases hcases with ⟨_, _, _, hnode⟩ | ⟨_, _, _, heq, _⟩ | ⟨_, _, _, _, heq, _⟩ |
    ⟨_, _, _, heq, _⟩
  · rw [node, servers_set_self, hnode]
    rfl
  · cases heq
  · cases heq
  · cases heq

theorem node_of_received {c c' : Cluster} {act : Action} {a : NodeId}
    {response : AppendEntriesResponse} {node' : RaftNode} (h : c.step act = some c')
    (hreceived : c.received act = some (a, response))
    (hnode' : (c.node a).stepAppendEntriesResponse response = .ok node') : c'.node a = node' := by
  obtain ⟨rfl, req, p, hphase⟩ := received_cases hreceived
  obtain ⟨server, hserver, rfl⟩ := Option.map_eq_some_iff.mp h
  obtain ⟨event, calls', hphase', _, _, hcases⟩ := RaftServer.resume_cases hserver
  rw [show (c.servers a).phase = _ from hphase] at hphase'
  cases hphase'
  rcases hcases with ⟨_, heq, _⟩ | ⟨_, _, _, _, heq, _, hstep⟩ | ⟨_, _, _, _, _, heq, hstep, _⟩ |
    ⟨_, _, _, _, heq, _⟩
  · cases heq
  · cases heq
    rw [node, servers_set_self]
    rw [show (c.servers a).node.stepAppendEntriesResponse response = _ from hnode'] at hstep
    cases hstep
    rfl
  · cases heq
    rw [show (c.servers a).node.stepAppendEntriesResponse response = _ from hnode'] at hstep
    cases hstep
  · cases heq

theorem node_of_tick {c c' : Cluster} {v : NodeId} {node' : RaftNode}
    (h : c.step (.tick v) = some c') (htick : (c.node v).tick = .ok node') :
    c.phase v = .selecting ∧ c'.node v = node' := by
  obtain ⟨hphase, rfl⟩ := turn_eq_some h
  refine ⟨hphase, ?_⟩
  rw [node, servers_set_self, RaftServer.selectTick, show (c.servers v).node.tick = _ from htick]
  rfl

/-- The ways one step of the cluster can change the loop of `v` into `server`. -/
inductive ServerMove (c : Cluster) (act : Action) (v : NodeId) (server : RaftServer) : Prop
  | idle (heq : server = c.servers v)
  | clusterUp (hact : act = .clusterUp v) (hphase : c.phase v = .selecting)
      (heq : server = (c.servers v).clusterUp)
  | tick (hact : act = .tick v) (hphase : c.phase v = .selecting)
      (heq : server = (c.servers v).selectTick)
  | client (command : SetCommand) (hact : act = .client v command)
      (hphase : c.phase v = .selecting)
      (heq : server = (c.servers v).selectClient (.commandRequestEvent command))
  | send (hact : act = .send v) (hphase : c.phase v = .selecting)
      (heq : (c.servers v).selectPeers = some server)
  | handle (event : RaftEvent) (hhandled : c.handled act = some (v, event))
      (hphase : c.phase v = .selecting)
      (heq : server = ((c.servers v).selectServer (event, some .oneshot)).1)
  | answer (p : NodeId) (event : RaftEvent) (calls : List (NodeId × Call))
      (hact : act = .deliver v p) (hphase : c.phase v = .awaiting event calls)
      (hcall : (p, Call.pending) ∈ calls) (hp : c.phase p = .selecting) (hne : p ≠ v)
      (heq : server = (c.servers v).answer p
        (respond event ((c.servers p).selectServer (event, some .oneshot)).2))
  | fail (p : NodeId) (status : Status) (event : RaftEvent) (calls : List (NodeId × Call))
      (hact : act = .fail v p status) (hphase : c.phase v = .awaiting event calls)
      (hcall : p ∈ calls.map Prod.fst) (heq : server = (c.servers v).answer p (.failed status))
  | resume (hact : act = .resume v) (heq : (c.servers v).resume = some server)

/-- Every loop moves in one of these ways; all but the acting loops idle. -/
theorem server_move {c c' : Cluster} {act : Action} (h : c.step act = some c') (v : NodeId) :
    ServerMove c act v (c'.servers v) := by
  have hidle : ∀ {server : RaftServer} {a : NodeId}, v ≠ a →
      ServerMove c act v ((c.set a server).servers v) :=
    fun hne => .idle (servers_set_ne c _ hne)
  cases act with
  | clusterUp a =>
    obtain ⟨hphase, rfl⟩ := turn_eq_some h
    by_cases hv : v = a
    · subst hv
      exact .clusterUp rfl hphase (servers_set_self _ _ _)
    · exact hidle hv
  | tick a =>
    obtain ⟨hphase, rfl⟩ := turn_eq_some h
    by_cases hv : v = a
    · subst hv
      exact .tick rfl hphase (servers_set_self _ _ _)
    · exact hidle hv
  | client a command =>
    change c.turn a (fun server => server.selectClient (.commandRequestEvent command)) = _ at h
    obtain ⟨hphase, rfl⟩ := turn_eq_some h
    by_cases hv : v = a
    · subst hv
      exact .client command rfl hphase (servers_set_self _ _ _)
    · exact hidle hv
  | send a =>
    simp only [step] at h
    split at h
    · rename_i hphase
      obtain ⟨server, hserver, rfl⟩ := Option.map_eq_some_iff.mp h
      by_cases hv : v = a
      · subst hv
        exact .send rfl hphase (by rw [servers_set_self, hserver])
      · exact hidle hv
    · cases h
  | deliver a p =>
    obtain ⟨event, calls, hphase, hcall, hp, hne, rfl⟩ := deliver_eq_some h
    by_cases hva : v = a
    · subst hva
      exact .answer p event calls rfl hphase hcall hp hne (servers_set_self _ _ _)
    · by_cases hvp : v = p
      · subst hvp
        refine .handle event (by simp [handled, hphase]) hp ?_
        rw [servers_set_ne _ _ hva, servers_set_self]
      · exact .idle (by rw [servers_set_ne _ _ hva, servers_set_ne _ _ hvp])
  | deliverOrphan k =>
    obtain ⟨orphan, horphan, hp, rfl⟩ := deliverOrphan_eq_some h
    by_cases hv : v = orphan.peer
    · subst hv
      exact .handle orphan.event (by simp [handled, horphan]) hp (servers_set_self _ _ _)
    · exact hidle hv
  | fail a p status =>
    obtain ⟨event, calls, hphase, hcall, hservers, _⟩ := fail_eq_some h
    by_cases hv : v = a
    · subst hv
      exact .fail p status event calls rfl hphase hcall (by rw [hservers, Function.update_self])
    · exact .idle (by rw [hservers, Function.update_of_ne hv])
  | resume a =>
    obtain ⟨server, hserver, rfl⟩ := Option.map_eq_some_iff.mp h
    by_cases hv : v = a
    · subst hv
      exact .resume rfl (by rw [servers_set_self, hserver])
    · exact hidle hv

inductive NodeMove (c : Cluster) (act : Action) (v : NodeId) (node' : RaftNode) : Prop
  | idle (heq : node' = c.node v)
  | clusterUp (hact : act = .clusterUp v) (heq : node' = { c.node v with clusterReady := true })
  | tick (hact : act = .tick v) (hphase : c.phase v = .selecting)
      (heq : (c.node v).tick = .ok node')
  | client (command : SetCommand) (hact : act = .client v command)
      (hphase : c.phase v = .selecting) (hstate : (c.node v).state = .leader)
      (heq : node' =
        { c.node v with log := (c.node v).log.append ((c.node v).clientEntry command) })
  | send (event : RaftEvent) (rest : List RaftEvent) (hact : act = .send v)
      (hphase : c.phase v = .selecting) (hqueue : (c.node v).nodeToPeersTx = event :: rest)
      (heq : node' = { c.node v with nodeToPeersTx := rest })
  | vote (req : RequestVoteRequest) (hhandled : c.handled act = some (v, .peerVotesRequestEvent req))
      (hphase : c.phase v = .selecting) (heq : node' = ((c.node v).stepPeerVotesRequest req).1)
  | append (req : AppendEntriesRequest)
      (hhandled : c.handled act = some (v, .appendEntriesRequestEvent req))
      (hphase : c.phase v = .selecting) (heq : node' = ((c.node v).stepAppendEntriesRequest req).1)
  | votes (req : RequestVoteRequest) (calls : List (NodeId × Call)) (hact : act = .resume v)
      (hphase : c.phase v = .awaiting (.peerVotesRequestEvent req) calls)
      (heq : node' = (c.node v).stepPeerVotesResponse (PeerNetwork.voteResponses calls))
  | reply (req : AppendEntriesRequest) (peer : NodeId) (response : AppendEntriesResponse)
      (hact : act = .resume v)
      (hphase : c.phase v = .awaiting (.appendEntriesRequestEvent req)
        [(peer, .answered (.appendEntriesResponseEvent response))])
      (heq : (c.node v).stepAppendEntriesResponse response = .ok node')

theorem node_move {c c' : Cluster} {act : Action} (h : c.step act = some c') (v : NodeId) :
    NodeMove c act v (c'.node v) := by
  unfold node
  cases server_move h v with
  | idle heq => exact .idle (by rw [heq]; rfl)
  | clusterUp hact hphase heq => exact .clusterUp hact (by rw [heq]; rfl)
  | tick hact hphase heq =>
    rcases RaftServer.settle_node (c.servers v) (c.servers v).node.tick with hok | hsame
    · exact .tick hact hphase (by rw [heq]; exact hok)
    · exact .idle (by rw [heq]; exact hsame)
  | client command hact hphase heq =>
    by_cases hleader : (c.servers v).node.state = .leader
    · refine .client command hact hphase hleader ?_
      rw [heq, RaftServer.selectClient, RaftNode.handleClientRequest_leader hleader]
      rfl
    · refine .idle ?_
      rw [heq, RaftServer.selectClient, RaftNode.handleClientRequest_other hleader]
      rfl
  | send hact hphase heq =>
    obtain ⟨event, rest, hqueue, _, hnode, _⟩ := RaftServer.selectPeers_cases heq
    exact .send event rest hact hphase hqueue hnode
  | handle event hhandled hphase heq =>
    rw [heq]
    rcases RaftServer.selectServer_request_node (c.servers v) event with
      ⟨req, rfl, hnode⟩ | ⟨req, rfl, hnode⟩ | hnode
    · exact .vote req hhandled hphase hnode
    · exact .append req hhandled hphase hnode
    · exact .idle hnode
  | answer p event calls hact hphase hcall hp hne heq =>
    exact .idle (by rw [heq, RaftServer.answer_node]; rfl)
  | fail p status event calls hact hphase _ heq =>
    exact .idle (by rw [heq, RaftServer.answer_node]; rfl)
  | resume hact heq =>
    obtain ⟨event, calls, hphase, _, _, hcases⟩ := RaftServer.resume_cases heq
    rcases hcases with ⟨req, rfl, _, hnode⟩ | ⟨req, peer, response, rfl, rfl, _, hnode⟩ |
      ⟨_, _, _, _, _, _, _, _, hnode⟩ | ⟨_, _, _, _, _, _, hnode⟩
    · exact .votes req calls hact hphase hnode
    · exact .reply req peer response hact hphase hnode
    · exact .idle hnode
    · exact .idle hnode

/-- The changes of role, term and log among these moves. -/
inductive CoreMove (c : Cluster) (act : Action) (v : NodeId) (node' : RaftNode) : Prop
  | same (hstate : node'.state = (c.node v).state)
      (hterm : node'.currentTerm = (c.node v).currentTerm) (hlog : node'.log = (c.node v).log)
  | stand (hact : act = .tick v) (hrole : (c.node v).state ≠ .leader)
      (hstate : node'.state = .candidate)
      (hterm : node'.currentTerm = (c.node v).currentTerm + 1) (hlog : node'.log = (c.node v).log)
  | client (command : SetCommand) (hact : act = .client v command)
      (hrole : (c.node v).state = .leader) (hstate : node'.state = .leader)
      (hterm : node'.currentTerm = (c.node v).currentTerm)
      (hlog : node'.log = (c.node v).log.append ((c.node v).clientEntry command))
  | grant (req : RequestVoteRequest) (hhandled : c.handled act = some (v, .peerVotesRequestEvent req))
      (hnewer : (c.node v).currentTerm < req.term) (hstate : node'.state = .follower)
      (hterm : node'.currentTerm = req.term) (hlog : node'.log = (c.node v).log)
  | append (req : AppendEntriesRequest)
      (hhandled : c.handled act = some (v, .appendEntriesRequestEvent req))
      (hstate : node'.state = ((c.node v).adoptTerm req).state)
      (hterm : node'.currentTerm = ((c.node v).adoptTerm req).currentTerm)
      (hlog : node'.log = (RaftNode.appendLog (c.node v).log req).getD (c.node v).log)
  | depose (hact : act = .resume v) (hstate : node'.state = .follower)
      (hterm : (c.node v).currentTerm < node'.currentTerm) (hlog : node'.log = (c.node v).log)
  | win (req : RequestVoteRequest) (calls : List (NodeId × Call)) (hact : act = .resume v)
      (hphase : c.phase v = .awaiting (.peerVotesRequestEvent req) calls)
      (hquorum : (c.node v).quorumSize ≤
        ((PeerNetwork.voteResponses calls).filter fun r => r.voteGranted).length)
      (hstate : node'.state = .leader) (hterm : node'.currentTerm = (c.node v).currentTerm)
      (hlog : node'.log = (c.node v).log)
  | lose (hact : act = .resume v) (hstate : node'.state = .follower)
      (hterm : node'.currentTerm = (c.node v).currentTerm) (hlog : node'.log = (c.node v).log)

theorem core_move {c c' : Cluster} {act : Action} (h : c.step act = some c') (v : NodeId) :
    CoreMove c act v (c'.node v) := by
  cases node_move h v with
  | idle heq => exact .same (by rw [heq]) (by rw [heq]) (by rw [heq])
  | clusterUp _ heq => exact .same (by rw [heq]) (by rw [heq]) (by rw [heq])
  | tick hact hphase heq =>
    rcases RaftNode.tick_cases heq with ⟨elapsed, heq⟩ | ⟨_, requests, _, heq⟩ |
      ⟨hrole, elapsed, hcandidate⟩
    · exact .same (by rw [heq]) (by rw [heq]) (by rw [heq])
    · exact .same (by rw [heq]) (by rw [heq]) (by rw [heq])
    · obtain ⟨_, _, _, hlog, hstate, hterm, _⟩ := RaftNode.becomeCandidate_ok hcandidate
      exact .stand hact hrole hstate hterm hlog
  | client command hact _ hrole heq =>
    exact .client command hact hrole (by rw [heq]; exact hrole) (by rw [heq]) (by rw [heq])
  | send _ _ _ _ _ heq => exact .same (by rw [heq]) (by rw [heq]) (by rw [heq])
  | vote req hhandled _ heq =>
    rw [RaftNode.stepPeerVotesRequest_eq] at heq
    split at heq
    · exact .grant req hhandled ‹_› (by rw [heq]; rfl) (by rw [heq]; rfl) (by rw [heq]; rfl)
    · exact .same (by rw [heq]) (by rw [heq]) (by rw [heq])
  | append req hhandled _ heq =>
    exact .append req hhandled (by rw [heq]; simp) (by rw [heq]; simp) (by rw [heq]; simp)
  | votes req calls hact hphase heq =>
    rcases RaftNode.stepPeerVotesResponse_cases (c.node v) (PeerNetwork.voteResponses calls) with
      ⟨hquorum, hnode⟩ | ⟨_, hnode⟩
    · exact .win req calls hact hphase hquorum (by rw [heq, hnode]; rfl)
        (by rw [heq, hnode]; rfl) (by rw [heq, hnode]; rfl)
    · exact .lose hact (by rw [heq, hnode]; rfl) (by rw [heq, hnode]; rfl)
        (by rw [heq, hnode]; rfl)
  | reply req peer response hact hphase hstep =>
    rcases RaftNode.stepAppendEntriesResponse_cases hstep with ⟨hterm, _, heq⟩ | heq |
      ⟨_, _, _, _, heq⟩ | ⟨_, _, _, _, _, heq⟩
    · exact .depose hact (by rw [heq]; rfl) (by rw [heq]; exact hterm) (by rw [heq]; rfl)
    · exact .same (by rw [heq]) (by rw [heq]) (by rw [heq])
    · obtain ⟨index, hloop⟩ := RaftNode.commitLoop_eq ((c.node v).recordMatch response)
      exact .same (by rw [heq, hloop]; rfl) (by rw [heq, hloop]; rfl) (by rw [heq, hloop]; rfl)
    · exact .same (by rw [heq]) (by rw [heq]) (by rw [heq])

inductive LogMove (c : Cluster) (act : Action) (v : NodeId) (node' : RaftNode) : Prop
  | keep (hlog : node'.log = (c.node v).log)
  | client (command : SetCommand) (hphase : c.phase v = .selecting)
      (hrole : (c.node v).state = .leader) (hstate : node'.state = .leader)
      (hterm : node'.currentTerm = (c.node v).currentTerm)
      (hlog : node'.log = (c.node v).log.append ((c.node v).clientEntry command))
  | append (req : AppendEntriesRequest)
      (hhandled : c.handled act = some (v, .appendEntriesRequestEvent req))
      (happends : RaftNode.Appends (c.node v).log req)

theorem log_move {c c' : Cluster} {act : Action} (h : c.step act = some c') (v : NodeId) :
    LogMove c act v (c'.node v) := by
  cases core_move h v with
  | same _ _ hlog => exact .keep hlog
  | stand _ _ _ _ hlog => exact .keep hlog
  | client command hact hrole hstate hterm hlog =>
    have hturn : c.turn v (RaftServer.selectClient · (.commandRequestEvent command)) = some c' := by
      rw [hact] at h
      exact h
    exact .client command (turn_eq_some hturn).1 hrole hstate hterm hlog
  | grant _ _ _ _ _ hlog => exact .keep hlog
  | append req hhandled _ _ hlog =>
    by_cases happends : RaftNode.Appends (c.node v).log req
    · exact .append req hhandled happends
    · exact .keep (by rw [hlog, RaftNode.appendLog_getD, if_neg happends])
  | depose _ _ _ hlog => exact .keep hlog
  | win _ _ _ _ _ _ _ hlog => exact .keep hlog
  | lose _ _ _ hlog => exact .keep hlog

/-- The changes of the records about peers among these moves. -/
inductive RecordMove (c : Cluster) (act : Action) (v : NodeId) (node' : RaftNode) : Prop
  | keep (hnext : node'.nextIndex = (c.node v).nextIndex)
      (hmatch : node'.matchIndex = (c.node v).matchIndex)
  | record (req : AppendEntriesRequest) (peer : NodeId) (response : AppendEntriesResponse)
      (hact : act = .resume v)
      (hphase : c.phase v = .awaiting (.appendEntriesRequestEvent req)
        [(peer, .answered (.appendEntriesResponseEvent response))])
      (hstep : (c.node v).stepAppendEntriesResponse response = .ok node')
      (hsuccess : response.success = true)
      (hnext : node'.nextIndex = Function.update (c.node v).nextIndex response.fromNode
        (some (response.lastAppliedIndex + 1)))
      (hmatch : node'.matchIndex = Function.update (c.node v).matchIndex response.fromNode
        (some response.lastAppliedIndex))
  | reject (req : AppendEntriesRequest) (peer : NodeId) (response : AppendEntriesResponse)
      (nextIndex : Int) (hact : act = .resume v)
      (hphase : c.phase v = .awaiting (.appendEntriesRequestEvent req)
        [(peer, .answered (.appendEntriesResponseEvent response))])
      (hstep : (c.node v).stepAppendEntriesResponse response = .ok node')
      (hsuccess : response.success = false)
      (hrecorded : (c.node v).nextIndex response.fromNode = some nextIndex)
      (hmin : nextIndex ≠ i64Min)
      (hnext : node'.nextIndex = Function.update (c.node v).nextIndex response.fromNode
        (some (nextIndex - 1)))
      (hmatch : node'.matchIndex = (c.node v).matchIndex)

theorem record_move {c c' : Cluster} {act : Action} (h : c.step act = some c') (v : NodeId) :
    RecordMove c act v (c'.node v) := by
  cases node_move h v with
  | idle heq => exact .keep (by rw [heq]) (by rw [heq])
  | clusterUp _ heq => exact .keep (by rw [heq]) (by rw [heq])
  | tick _ _ htick =>
    rcases RaftNode.tick_cases htick with ⟨_, heq⟩ | ⟨_, _, _, heq⟩ | ⟨_, _, hcandidate⟩
    · exact .keep (by rw [heq]) (by rw [heq])
    · exact .keep (by rw [heq]) (by rw [heq])
    · obtain ⟨_, _, _, _, _, _, _, hnext, hmatch, _⟩ := RaftNode.becomeCandidate_ok hcandidate
      exact .keep hnext hmatch
  | client _ _ _ _ heq => exact .keep (by rw [heq]) (by rw [heq])
  | send _ _ _ _ _ heq => exact .keep (by rw [heq]) (by rw [heq])
  | vote req _ _ heq =>
    rw [RaftNode.stepPeerVotesRequest_eq] at heq
    split at heq <;> exact .keep (by simp [heq]) (by simp [heq])
  | append req _ _ heq => exact .keep (by simp [heq]) (by simp [heq])
  | votes _ calls _ _ heq =>
    rcases RaftNode.stepPeerVotesResponse_cases (c.node v) (PeerNetwork.voteResponses calls) with
      ⟨_, hnode⟩ | ⟨_, hnode⟩ <;>
      exact .keep (by rw [heq, hnode]; rfl) (by rw [heq, hnode]; rfl)
  | reply req peer response hact hphase hstep =>
    rcases RaftNode.stepAppendEntriesResponse_cases hstep with ⟨_, _, heq⟩ | heq |
      ⟨_, _, hsuccess, _, heq⟩ | ⟨_, _, hsuccess, nextIndex, ⟨hrecorded, hmin⟩, heq⟩
    · exact .keep (by rw [heq]; rfl) (by rw [heq]; rfl)
    · exact .keep (by rw [heq]) (by rw [heq])
    · obtain ⟨index, hloop⟩ := RaftNode.commitLoop_eq ((c.node v).recordMatch response)
      exact .record req peer response hact hphase hstep hsuccess (by rw [heq, hloop]; rfl)
        (by rw [heq, hloop]; rfl)
    · exact .reject req peer response nextIndex hact hphase hstep hsuccess hrecorded hmin
        (by rw [heq]) (by rw [heq])

inductive IndexMove (c : Cluster) (act : Action) (v : NodeId) (node' : RaftNode) : Prop
  | keep (hnext : node'.nextIndex = (c.node v).nextIndex)
  | record (req : AppendEntriesRequest) (peer : NodeId) (response : AppendEntriesResponse)
      (hphase : c.phase v = .awaiting (.appendEntriesRequestEvent req)
        [(peer, .answered (.appendEntriesResponseEvent response))])
      (hsuccess : response.success = true)
      (hnext : node'.nextIndex = Function.update (c.node v).nextIndex response.fromNode
        (some (response.lastAppliedIndex + 1)))
  | reject (response : AppendEntriesResponse) (nextIndex : Int)
      (hrecorded : (c.node v).nextIndex response.fromNode = some nextIndex)
      (hmin : nextIndex ≠ i64Min)
      (hnext : node'.nextIndex = Function.update (c.node v).nextIndex response.fromNode
        (some (nextIndex - 1)))

theorem index_move {c c' : Cluster} {act : Action} (h : c.step act = some c') (v : NodeId) :
    IndexMove c act v (c'.node v) := by
  cases record_move h v with
  | keep hnext _ => exact .keep hnext
  | record req peer response _ hphase _ hsuccess hnext _ =>
    exact .record req peer response hphase hsuccess hnext
  | reject _ _ response nextIndex _ _ _ _ hrecorded hmin hnext _ =>
    exact .reject response nextIndex hrecorded hmin hnext

inductive LeaderMove (c : Cluster) (act : Action) (v : NodeId) (node' : RaftNode) : Prop
  | keep (hrole : (c.node v).state = .leader) (hterm : node'.currentTerm = (c.node v).currentTerm)
      (hnext : node'.nextIndex = (c.node v).nextIndex)
      (hmatch : node'.matchIndex = (c.node v).matchIndex) (hlog : node'.log = (c.node v).log)
  | client (command : SetCommand) (hact : act = .client v command)
      (hrole : (c.node v).state = .leader) (hterm : node'.currentTerm = (c.node v).currentTerm)
      (hnext : node'.nextIndex = (c.node v).nextIndex)
      (hmatch : node'.matchIndex = (c.node v).matchIndex)
      (hlog : node'.log = (c.node v).log.append ((c.node v).clientEntry command))
  | append (req : AppendEntriesRequest)
      (hhandled : c.handled act = some (v, .appendEntriesRequestEvent req))
      (hrole : (c.node v).state = .leader) (hle : req.term ≤ (c.node v).currentTerm)
      (hterm : node'.currentTerm = (c.node v).currentTerm)
      (hnext : node'.nextIndex = (c.node v).nextIndex)
      (hmatch : node'.matchIndex = (c.node v).matchIndex)
      (hlog : node'.log = (RaftNode.appendLog (c.node v).log req).getD (c.node v).log)
  | record (req : AppendEntriesRequest) (peer : NodeId) (response : AppendEntriesResponse)
      (hact : act = .resume v)
      (hphase : c.phase v = .awaiting (.appendEntriesRequestEvent req)
        [(peer, .answered (.appendEntriesResponseEvent response))])
      (hrole : (c.node v).state = .leader) (hown : (c.node v).currentTerm = response.term)
      (hsuccess : response.success = true) (hmax : response.lastAppliedIndex < i64Max)
      (hterm : node'.currentTerm = (c.node v).currentTerm)
      (hnext : node'.nextIndex = Function.update (c.node v).nextIndex response.fromNode
        (some (response.lastAppliedIndex + 1)))
      (hmatch : node'.matchIndex = Function.update (c.node v).matchIndex response.fromNode
        (some response.lastAppliedIndex))
      (hlog : node'.log = (c.node v).log)
  | reject (req : AppendEntriesRequest) (peer : NodeId) (response : AppendEntriesResponse)
      (nextIndex : Int) (hact : act = .resume v)
      (hphase : c.phase v = .awaiting (.appendEntriesRequestEvent req)
        [(peer, .answered (.appendEntriesResponseEvent response))])
      (hrole : (c.node v).state = .leader) (hown : (c.node v).currentTerm = response.term)
      (hsuccess : response.success = false) (hterm : node'.currentTerm = (c.node v).currentTerm)
      (hrecorded : (c.node v).nextIndex response.fromNode = some nextIndex ∧ nextIndex ≠ i64Min)
      (hnext : node'.nextIndex = Function.update (c.node v).nextIndex response.fromNode
        (some (nextIndex - 1)))
      (hmatch : node'.matchIndex = (c.node v).matchIndex) (hlog : node'.log = (c.node v).log)
  | win (req : RequestVoteRequest) (calls : List (NodeId × Call)) (hact : act = .resume v)
      (hphase : c.phase v = .awaiting (.peerVotesRequestEvent req) calls)
      (hquorum : (c.node v).quorumSize ≤
        ((PeerNetwork.voteResponses calls).filter fun r => r.voteGranted).length)
      (hterm : node'.currentTerm = (c.node v).currentTerm)
      (hnext : node'.nextIndex = (c.node v).nextIndex)
      (hmatch : node'.matchIndex = (c.node v).matchIndex) (hlog : node'.log = (c.node v).log)

theorem leader_move {c c' : Cluster} {act : Action} (h : c.step act = some c') {v : NodeId}
    (hleader : (c'.node v).state = .leader) : LeaderMove c act v (c'.node v) := by
  cases node_move h v with
  | idle heq =>
    exact .keep (heq ▸ hleader) (by rw [heq]) (by rw [heq]) (by rw [heq]) (by rw [heq])
  | clusterUp _ heq =>
    rw [heq] at hleader
    exact .keep hleader (by rw [heq]) (by rw [heq]) (by rw [heq]) (by rw [heq])
  | tick hact hphase heq =>
    rcases RaftNode.tick_cases heq with ⟨elapsed, heq⟩ | ⟨_, requests, _, heq⟩ |
      ⟨_, elapsed, hcandidate⟩
    · rw [heq] at hleader
      exact .keep hleader (by rw [heq]) (by rw [heq]) (by rw [heq]) (by rw [heq])
    · rw [heq] at hleader
      exact .keep hleader (by rw [heq]) (by rw [heq]) (by rw [heq]) (by rw [heq])
    · obtain ⟨_, _, _, _, hstate, _⟩ := RaftNode.becomeCandidate_ok hcandidate
      rw [hstate] at hleader
      cases hleader
  | client command hact _ hrole heq =>
    exact .client command hact hrole (by rw [heq]) (by rw [heq]) (by rw [heq]) (by rw [heq])
  | send _ _ _ _ _ heq =>
    rw [heq] at hleader
    exact .keep hleader (by rw [heq]) (by rw [heq]) (by rw [heq]) (by rw [heq])
  | vote req hhandled _ heq =>
    rw [RaftNode.stepPeerVotesRequest_eq] at heq
    split at heq
    · rw [heq] at hleader
      cases hleader
    · rw [heq] at hleader
      exact .keep hleader (by rw [heq]) (by rw [heq]) (by rw [heq]) (by rw [heq])
  | append req hhandled _ heq =>
    rw [heq, RaftNode.stepAppendEntriesRequest_state] at hleader
    obtain ⟨hsame, hrole, hle⟩ := RaftNode.adoptTerm_state_leader _ req hleader
    exact .append req hhandled hrole hle (by rw [heq]; simp [hsame]) (by rw [heq]; simp)
      (by rw [heq]; simp) (by rw [heq]; simp)
  | votes req calls hact hphase heq =>
    rcases RaftNode.stepPeerVotesResponse_cases (c.node v) (PeerNetwork.voteResponses calls) with
      ⟨hquorum, hnode⟩ | ⟨_, hnode⟩
    · exact .win req calls hact hphase hquorum (by rw [heq, hnode]; rfl) (by rw [heq, hnode]; rfl)
        (by rw [heq, hnode]; rfl) (by rw [heq, hnode]; rfl)
    · rw [heq, hnode] at hleader
      cases hleader
  | reply req peer response hact hphase hstep =>
    rcases RaftNode.stepAppendEntriesResponse_cases hstep with ⟨_, _, heq⟩ | heq |
      ⟨hrole, hown, hsuccess, hmax, heq⟩ | ⟨hrole, hown, hsuccess, nextIndex, hrecorded, heq⟩
    · rw [heq] at hleader
      cases hleader
    · exact .keep (heq ▸ hleader) (by rw [heq]) (by rw [heq]) (by rw [heq]) (by rw [heq])
    · obtain ⟨index, hloop⟩ := RaftNode.commitLoop_eq ((c.node v).recordMatch response)
      exact .record req peer response hact hphase hrole hown hsuccess hmax
        (by rw [heq, hloop]; rfl) (by rw [heq, hloop]; rfl) (by rw [heq, hloop]; rfl)
        (by rw [heq, hloop]; rfl)
    · exact .reject req peer response nextIndex hact hphase hrole hown hsuccess (by rw [heq])
        hrecorded (by rw [heq]) (by rw [heq]) (by rw [heq])

theorem leads_or_wins {c c' : Cluster} {act : Action} (h : c.step act = some c') {v : NodeId}
    (hleader : (c'.node v).state = .leader) :
    (c'.node v).currentTerm = (c.node v).currentTerm ∧ ((c.node v).state = .leader ∨
      ∃ req calls, c.counted act = some (v, req, calls) ∧ (c.node v).quorumSize ≤
        ((PeerNetwork.voteResponses calls).filter fun r => r.voteGranted).length) := by
  cases leader_move h hleader with
  | keep hrole hterm => exact ⟨hterm, Or.inl hrole⟩
  | client _ _ hrole hterm => exact ⟨hterm, Or.inl hrole⟩
  | append _ _ hrole _ hterm => exact ⟨hterm, Or.inl hrole⟩
  | record _ _ _ _ _ hrole _ _ _ hterm => exact ⟨hterm, Or.inl hrole⟩
  | reject _ _ _ _ _ _ hrole _ _ hterm => exact ⟨hterm, Or.inl hrole⟩
  | win req calls hact hphase hquorum hterm =>
    exact ⟨hterm, Or.inr ⟨req, calls, counted_eq_some hact hphase, hquorum⟩⟩

inductive CommitMove (c : Cluster) (act : Action) (v : NodeId) (node' : RaftNode) : Prop
  | keep (hcommit : node'.commitIndex = (c.node v).commitIndex) (hlog : node'.log = (c.node v).log)
  | client (command : SetCommand) (hact : act = .client v command)
      (hcommit : node'.commitIndex = (c.node v).commitIndex)
      (hlog : node'.log = (c.node v).log.append ((c.node v).clientEntry command))
  | append (req : AppendEntriesRequest)
      (hhandled : c.handled act = some (v, .appendEntriesRequestEvent req))
      (hlog : node'.log = (RaftNode.appendLog (c.node v).log req).getD (c.node v).log)
      (hcommit : node'.commitIndex =
        if RaftNode.appendLog (c.node v).log req ≠ none ∧
            req.leaderCommitIndex > (c.node v).commitIndex then
          min req.leaderCommitIndex node'.log.lastLogIndex
        else (c.node v).commitIndex)
  | count (req : AppendEntriesRequest) (peer : NodeId) (response : AppendEntriesResponse) (ci : Nat)
      (hact : act = .resume v)
      (hphase : c.phase v = .awaiting (.appendEntriesRequestEvent req)
        [(peer, .answered (.appendEntriesResponseEvent response))])
      (hrole : (c.node v).state = .leader) (hterm : (c.node v).currentTerm = response.term)
      (hsuccess : response.success = true)
      (hle : (c.node v).commitIndex ≤ ci) (hlt : ci < (c.node v).log.len)
      (hcounted : ((c.node v).recordMatch response).Counted ci)
      (hlog : node'.log = (c.node v).log) (hcommit : node'.commitIndex = ci)

theorem commit_move {c c' : Cluster} {act : Action} (h : c.step act = some c') (v : NodeId) :
    CommitMove c act v (c'.node v) := by
  cases node_move h v with
  | idle heq => exact .keep (by rw [heq]) (by rw [heq])
  | clusterUp _ heq => exact .keep (by rw [heq]) (by rw [heq])
  | tick hact hphase heq =>
    rcases RaftNode.tick_cases heq with ⟨elapsed, heq⟩ | ⟨_, requests, _, heq⟩ |
      ⟨_, elapsed, hcandidate⟩
    · exact .keep (by rw [heq]) (by rw [heq])
    · exact .keep (by rw [heq]) (by rw [heq])
    · obtain ⟨_, _, _, hlog, _, _, hcommit, _⟩ := RaftNode.becomeCandidate_ok hcandidate
      exact .keep hcommit hlog
  | client command hact _ _ heq => exact .client command hact (by rw [heq]) (by rw [heq])
  | send _ _ _ _ _ heq => exact .keep (by rw [heq]) (by rw [heq])
  | vote req hhandled _ heq =>
    rw [RaftNode.stepPeerVotesRequest_eq] at heq
    split at heq <;> exact .keep (by simp [heq]) (by simp [heq])
  | append req hhandled _ heq =>
    refine .append req hhandled (by rw [heq]; simp) ?_
    rcases RaftNode.stepAppendEntriesRequest_cases (c.node v) req with ⟨hlog, hnode⟩ |
      ⟨log, hlog, hnode⟩
    · rw [heq, hnode, hlog]
      simp
    · rw [heq, hnode, hlog]
      simp
  | votes req calls _ _ heq =>
    rcases RaftNode.stepPeerVotesResponse_cases (c.node v) (PeerNetwork.voteResponses calls) with
      ⟨_, hnode⟩ | ⟨_, hnode⟩ <;>
      exact .keep (by rw [heq, hnode]; rfl) (by rw [heq, hnode]; rfl)
  | reply req peer response hact hphase hstep =>
    rcases RaftNode.stepAppendEntriesResponse_cases hstep with ⟨_, _, heq⟩ | heq |
      ⟨hrole, hterm, hsuccess, _, heq⟩ | ⟨_, _, _, _, _, heq⟩
    · exact .keep (by rw [heq]; rfl) (by rw [heq]; rfl)
    · exact .keep (by rw [heq]) (by rw [heq])
    · rcases RaftNode.commitLoop_cases ((c.node v).recordMatch response) with ⟨hloop, _⟩ |
        ⟨ci, hle, hlt, hcounted, _, hloop⟩
      · exact .keep (by rw [heq, hloop]; rfl) (by rw [heq, hloop]; rfl)
      · exact .count req peer response ci hact hphase hrole hterm hsuccess hle hlt hcounted
          (by rw [heq, hloop]; rfl) (by rw [heq, hloop])
    · exact .keep (by rw [heq]) (by rw [heq])

theorem currentTerm_mono {c c' : Cluster} {act : Action} (h : c.step act = some c') (v : NodeId) :
    (c.node v).currentTerm ≤ (c'.node v).currentTerm := by
  cases core_move h v with
  | same _ hterm _ => omega
  | stand _ _ _ hterm _ => omega
  | client _ _ _ _ hterm _ => omega
  | grant _ _ hnewer _ hterm _ => omega
  | append req _ _ hterm _ =>
    have := (c.node v).le_adoptTerm_currentTerm req
    omega
  | depose _ _ hterm _ => omega
  | win _ _ _ _ _ _ hterm _ => omega
  | lose _ _ hterm _ => omega

inductive PipelineMove (c c' : Cluster) (act : Action) (v : NodeId) : Prop
  | keep (heq : c'.pipeline v = c.pipeline v)
  | drop (event : RaftEvent) (heq : c.pipeline v = event :: c'.pipeline v)
  | stand (hact : act = .tick v) (hrole : (c.node v).state ≠ .leader)
      (hterm : (c'.node v).currentTerm = (c.node v).currentTerm + 1)
      (hlog : (c'.node v).log = (c.node v).log)
      (heq : c'.pipeline v =
        c.pipeline v ++ [.peerVotesRequestEvent (c'.node v).voteRequest])
  | lead (requests : List AppendEntriesRequest) (hact : act = .tick v)
      (hrole : (c'.node v).state = .leader)
      (hbuild : ∀ req ∈ requests, ∃ peer ∈ (c'.node v).peers,
        (c'.node v).buildAppendRequestForPeer peer = .ok req)
      (heq : c'.pipeline v = c.pipeline v ++ requests.map .appendEntriesRequestEvent)
  | win (req : RequestVoteRequest) (calls : List (NodeId × Call)) (hact : act = .resume v)
      (hphase : c.phase v = .awaiting (.peerVotesRequestEvent req) calls)
      (hquorum : (c.node v).quorumSize ≤
        ((PeerNetwork.voteResponses calls).filter fun r => r.voteGranted).length)
      (hnode : c'.node v = (c.node v).becomeLeader)
      (hpipe : c.pipeline v = .peerVotesRequestEvent req :: (c.node v).nodeToPeersTx)
      (heq : c'.pipeline v = (c.node v).nodeToPeersTx ++ (c'.node v).peers.map fun peer =>
        .appendEntriesRequestEvent ((c'.node v).leaderHeartbeat peer))

theorem nodeToPeersTx_of_reply {node node' : RaftNode} {response : AppendEntriesResponse}
    (h : node.stepAppendEntriesResponse response = .ok node') :
    node'.nodeToPeersTx = node.nodeToPeersTx := by
  rcases RaftNode.stepAppendEntriesResponse_cases h with ⟨_, _, heq⟩ | heq | ⟨_, _, _, _, heq⟩ |
    ⟨_, _, _, _, _, heq⟩
  · rw [heq]
    rfl
  · rw [heq]
  · obtain ⟨index, hloop⟩ := RaftNode.commitLoop_eq (node.recordMatch response)
    rw [heq, hloop]
    rfl
  · rw [heq]

theorem pipeline_move {c c' : Cluster} {act : Action} (h : c.step act = some c') (v : NodeId) :
    PipelineMove c c' act v := by
  cases server_move h v with
  | idle heq => exact .keep (by rw [pipeline, heq]; rfl)
  | clusterUp hact hphase heq =>
    refine .keep ?_
    rw [pipeline, pipeline, heq, RaftServer.pipeline_of_selecting hphase]
    rfl
  | tick hact hphase heq =>
    have hpipe : c.pipeline v = (c.node v).nodeToPeersTx :=
      RaftServer.pipeline_of_selecting hphase
    cases htick : (c.node v).tick with
    | error fault =>
      refine .keep ?_
      rw [hpipe, pipeline, heq, RaftServer.selectTick,
        show (c.servers v).node.tick = .error fault from htick]
      rfl
    | ok node' =>
      have hserver : c'.servers v = { c.servers v with node := node', phase := .selecting } := by
        rw [heq, RaftServer.selectTick, show (c.servers v).node.tick = .ok node' from htick]
        rfl
      have hnode : c'.node v = node' := by rw [node, hserver]
      have hpipe' : c'.pipeline v = node'.nodeToPeersTx := by
        rw [pipeline, hserver]
        rfl
      rcases RaftNode.tick_cases htick with ⟨elapsed, heq⟩ | ⟨hrole, requests, hbuild, heq⟩ |
        ⟨hrole, elapsed, hcandidate⟩
      · exact .keep (by rw [hpipe', hpipe, heq])
      · refine .lead requests hact (by rw [hnode, heq]; exact hrole) ?_
          (by rw [hpipe', hpipe, heq])
        rw [hnode, heq]
        exact fun req hreq => mem_of_mapM_ok hbuild hreq
      · obtain ⟨_, _, _, hlog, _, hterm, _, _, _, htx, _⟩ :=
          RaftNode.becomeCandidate_ok hcandidate
        exact .stand hact hrole (by rw [hnode, hterm]) (by rw [hnode, hlog])
          (by rw [hpipe', hpipe, htx, hnode])
  | client command hact hphase heq =>
    refine .keep ?_
    have hphase : (c.servers v).phase = .selecting := hphase
    rw [pipeline, pipeline, heq, RaftServer.selectClient]
    by_cases hleader : (c.servers v).node.state = .leader
    · rw [RaftNode.handleClientRequest_leader hleader]
      rfl
    · rw [RaftNode.handleClientRequest_other hleader, RaftServer.pipeline_of_selecting hphase]
      rfl
  | send hact hphase heq =>
    have hphase : (c.servers v).phase = .selecting := hphase
    obtain ⟨event, rest, hqueue, _, hnode, hcases⟩ := RaftServer.selectPeers_cases heq
    have hpipe : c.pipeline v = event :: rest :=
      (RaftServer.pipeline_of_selecting hphase).trans hqueue
    rcases hcases with ⟨req, _, _, hphase'⟩ | ⟨req, _, hphase'⟩ | ⟨fault, hphase', _⟩
    · exact .keep (by rw [hpipe, pipeline, RaftServer.pipeline_of_awaiting hphase', hnode])
    · exact .keep (by rw [hpipe, pipeline, RaftServer.pipeline_of_awaiting hphase', hnode])
    · exact .drop event (by rw [hpipe, pipeline, RaftServer.pipeline_of_stopped hphase', hnode])
  | handle event hhandled hphase heq =>
    refine .keep ?_
    rw [pipeline, heq]
    exact RaftServer.selectServer_request_pipeline _ event hphase
  | answer p event calls hact hphase hcall hp hne heq =>
    refine .keep ?_
    rw [pipeline, heq]
    exact RaftServer.answer_pipeline _ p _
  | fail p status event calls hact hphase _ heq =>
    refine .keep ?_
    rw [pipeline, heq]
    exact RaftServer.answer_pipeline _ p _
  | resume hact heq =>
    obtain ⟨event, calls, hphase, _, _, hcases⟩ := RaftServer.resume_cases heq
    have hpipe : c.pipeline v = event :: (c.node v).nodeToPeersTx :=
      RaftServer.pipeline_of_awaiting hphase
    rcases hcases with ⟨req, rfl, hphase', hnode⟩ | ⟨req, peer, response, rfl, rfl, hphase', hstep⟩ |
      ⟨_, _, _, _, _, _, _, hphase', hnode⟩ | ⟨_, _, _, _, _, hphase', hnode⟩
    · have hpipe' : c'.pipeline v = (c'.node v).nodeToPeersTx :=
        RaftServer.pipeline_of_selecting hphase'
      rcases RaftNode.stepPeerVotesResponse_cases (c.node v) (PeerNetwork.voteResponses calls) with
        ⟨hquorum, hres⟩ | ⟨_, hres⟩
      · have hnode : c'.node v = (c.node v).becomeLeader := hnode.trans hres
        exact .win req calls hact hphase hquorum hnode hpipe
          (by rw [hpipe', hnode]; exact RaftNode.becomeLeader_nodeToPeersTx _)
      · have hnode : c'.node v = (c.node v).becomeFollower (c.node v).currentTerm :=
          hnode.trans hres
        exact .drop _ (by rw [hpipe, hpipe', hnode]; rfl)
    · refine .drop (.appendEntriesRequestEvent req) ?_
      rw [hpipe, pipeline, RaftServer.pipeline_of_selecting hphase', nodeToPeersTx_of_reply hstep]
      rfl
    · exact .drop event (by rw [hpipe, pipeline, RaftServer.pipeline_of_stopped hphase', hnode]; rfl)
    · exact .drop event (by rw [hpipe, pipeline, RaftServer.pipeline_of_stopped hphase', hnode]; rfl)

/-- Where an awaiting loop's calls come from. -/
inductive AwaitMove (c : Cluster) (act : Action) (v : NodeId) (event : RaftEvent)
    (calls : List (NodeId × Call)) : Prop
  | idle (hphase : c.phase v = .awaiting event calls)
  | answer (p : NodeId) (before : List (NodeId × Call)) (hact : act = .deliver v p)
      (hphase : c.phase v = .awaiting event before) (hcall : (p, Call.pending) ∈ before)
      (hp : c.phase p = .selecting) (hne : p ≠ v)
      (heq : calls = setCall before p
        (respond event ((c.servers p).selectServer (event, some .oneshot)).2))
  | fail (p : NodeId) (status : Status) (before : List (NodeId × Call))
      (hphase : c.phase v = .awaiting event before)
      (heq : calls = setCall before p (.failed status))
  | append (req : AppendEntriesRequest) (hact : act = .send v) (hphase : c.phase v = .selecting)
      (hevent : event = .appendEntriesRequestEvent req)
      (hqueue : ∃ rest, (c.node v).nodeToPeersTx = event :: rest)
      (hclient : req.toNode ∈ (c.servers v).network.peerClients)
      (heq : calls = [(req.toNode, .pending)])
  | votes (req : RequestVoteRequest) (hact : act = .send v) (hphase : c.phase v = .selecting)
      (hevent : event = .peerVotesRequestEvent req)
      (hqueue : ∃ rest, (c.node v).nodeToPeersTx = event :: rest)
      (heq : calls = (c.servers v).network.peerClients.map fun peer => (peer, .pending))

theorem await_move {c c' : Cluster} {act : Action} {v : NodeId} {event : RaftEvent}
    {calls : List (NodeId × Call)} (h : c.step act = some c')
    (hphase' : c'.phase v = .awaiting event calls) : AwaitMove c act v event calls := by
  unfold phase at hphase'
  cases server_move h v with
  | idle heq => exact .idle (by rw [phase, ← heq, hphase'])
  | clusterUp hact hphase heq =>
    rw [heq] at hphase'
    cases hphase'
  | tick hact hphase heq =>
    rw [heq, RaftServer.selectTick] at hphase'
    cases htick : (c.servers v).node.tick <;> rw [htick] at hphase' <;> cases hphase'
  | client command hact hphase heq =>
    have hphase : (c.servers v).phase = .selecting := hphase
    rw [heq, RaftServer.selectClient] at hphase'
    by_cases hleader : (c.servers v).node.state = .leader
    · rw [RaftNode.handleClientRequest_leader hleader] at hphase'
      simp [hphase] at hphase'
    · rw [RaftNode.handleClientRequest_other hleader] at hphase'
      cases hphase'
  | send hact hphase heq =>
    obtain ⟨_, rest, hqueue, _, hnode, hcases⟩ := RaftServer.selectPeers_cases heq
    rcases hcases with ⟨req, rfl, hclient, hp⟩ | ⟨req, rfl, hp⟩ | ⟨fault, hp, _⟩
    · rw [hp] at hphase'
      cases hphase'
      exact .append req hact hphase rfl ⟨rest, hqueue⟩ hclient rfl
    · rw [hp] at hphase'
      cases hphase'
      exact .votes req hact hphase rfl ⟨rest, hqueue⟩ rfl
    · rw [hp] at hphase'
      cases hphase'
  | handle request hhandled hphase heq =>
    rw [heq, RaftServer.selectServer] at hphase'
    cases hstep : (c.servers v).node.step (request, some .oneshot) <;>
      rw [hstep] at hphase' <;> cases hphase'
  | answer p request before hact hphase hcall hp hne heq =>
    rw [heq, RaftServer.answer, show (c.servers v).phase = _ from hphase] at hphase'
    cases hphase'
    exact .answer p before hact hphase hcall hp hne rfl
  | fail p status request before hact hphase _ heq =>
    rw [heq, RaftServer.answer, show (c.servers v).phase = _ from hphase] at hphase'
    cases hphase'
    exact .fail p status before hphase rfl
  | resume hact heq =>
    obtain ⟨_, _, _, _, _, hcases⟩ := RaftServer.resume_cases heq
    rcases hcases with ⟨_, _, hp, _⟩ | ⟨_, _, _, _, _, hp, _⟩ | ⟨_, _, _, _, _, _, _, hp, _⟩ |
      ⟨_, _, _, _, _, hp, _⟩ <;>
      rw [hp] at hphase' <;> cases hphase'

theorem node_of_awaiting {c c' : Cluster} {act : Action} {v : NodeId} {event event' : RaftEvent}
    {calls calls' : List (NodeId × Call)} (h : c.step act = some c')
    (hphase : c.phase v = .awaiting event calls) (hphase' : c'.phase v = .awaiting event' calls') :
    c'.node v = c.node v := by
  have hbusy : c.phase v ≠ .selecting := by simp [hphase]
  unfold node
  cases server_move h v with
  | idle heq => rw [heq]
  | clusterUp _ hselecting _ => exact absurd hselecting hbusy
  | tick _ hselecting _ => exact absurd hselecting hbusy
  | client _ _ hselecting _ => exact absurd hselecting hbusy
  | send _ hselecting _ => exact absurd hselecting hbusy
  | handle _ _ hselecting _ => exact absurd hselecting hbusy
  | answer _ _ _ _ _ _ _ _ heq => rw [heq, RaftServer.answer_node]
  | fail _ _ _ _ _ _ _ heq => rw [heq, RaftServer.answer_node]
  | resume _ heq =>
    unfold phase at hphase'
    obtain ⟨_, _, _, _, _, hcases⟩ := RaftServer.resume_cases heq
    rcases hcases with ⟨_, _, hp, _⟩ | ⟨_, _, _, _, _, hp, _⟩ | ⟨_, _, _, _, _, _, _, hp, _⟩ |
      ⟨_, _, _, _, _, hp, _⟩ <;>
      rw [hp] at hphase' <;> cases hphase'

end Cluster
end Rafting
