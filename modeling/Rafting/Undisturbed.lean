import Rafting.ElectionTimer

/-! What a node does while nothing disturbs its timer. A leader sends one request to every
peer, in the order of its peers, at every second tick that counts, and nothing else. Any
other node stands for election at the tick that ends its timeout, and not before. -/
namespace Rafting
open Transition Fallible

/-! ## Heartbeats -/

def RaftEvent.recipient : RaftEvent → Option NodeId
  | .appendEntriesRequestEvent req => some req.toNode
  | _ => none

def sent (m : Move RaftNode NodeAction) : List RaftEvent :=
  m.after.nodeToPeersTx.drop m.before.nodeToPeersTx.length

def sentIn (h : List (Move RaftNode NodeAction)) : List RaftEvent :=
  h.reverse.flatMap sent

/-- The node leads, and neither the votes of an election nor a request of another leader is
handled. -/
def Undisturbed (node : RaftNode) : NodeAction → Prop
  | .step (.peerVotesResponseEvent _) _ | .step (.appendEntriesRequestEvent _) _ => False
  | _ => node.state = .leader

instance (node : RaftNode) : (action : NodeAction) → Decidable (Undisturbed node action)
  | .step (.peerVotesResponseEvent _) _ | .step (.appendEntriesRequestEvent _) _ =>
    inferInstanceAs (Decidable False)
  | .tick | .client _ | .received | .step (.peerVotesRequestEvent _) _
  | .step (.appendEntriesResponseEvent _) _ | .step (.requestVoteResponseEvent _) _
  | .step .clusterNodesDownEvent _ | .step .clusterNodesUpEvent _ =>
    inferInstanceAs (Decidable (node.state = .leader))

/-- Two ticks and a heartbeat for all peers, again and again. -/
structure Beats (start node : RaftNode) (newer : List (Move RaftNode NodeAction)) (beats : Nat) :
    Prop where
  peers : node.peers = start.peers
  early : node.elapsedTicksSinceLastHeartbeat < heartbeatTicks
  ticks : heartbeatTicks * beats + node.elapsedTicksSinceLastHeartbeat =
    readyTicks newer + start.elapsedTicksSinceLastHeartbeat
  sent : (sentIn newer).map RaftEvent.recipient =
    (List.replicate beats (start.peers.map some)).flatten

inductive LeaderBeat (m : Move RaftNode NodeAction) : Prop
  | beat (htick : m.action = .tick) (hready : m.before.clusterReady = true)
      (hdue : heartbeatTicks ≤ m.before.elapsedTicksSinceLastHeartbeat + 1)
      (htimer : m.after.elapsedTicksSinceLastHeartbeat = 0)
      (hsent : (sent m).map RaftEvent.recipient = m.before.peers.map some)
  | count (htick : m.action = .tick) (hready : m.before.clusterReady = true)
      (hearly : m.before.elapsedTicksSinceLastHeartbeat + 1 < heartbeatTicks)
      (htimer : m.after.elapsedTicksSinceLastHeartbeat =
        m.before.elapsedTicksSinceLastHeartbeat + 1)
      (hsent : sent m = [])
  | quiet (hquiet : ¬(m.action = .tick ∧ m.before.clusterReady = true))
      (htimer : m.after.elapsedTicksSinceLastHeartbeat = m.before.elapsedTicksSinceLastHeartbeat)
      (hsent : sent m = [])

theorem recipients_of_build {node : RaftNode} {peers : List NodeId}
    {requests : List AppendEntriesRequest}
    (h : peers.mapM node.buildAppendRequestForPeer = .ok requests) :
    requests.map AppendEntriesRequest.toNode = peers := by
  apply map_of_mapM_ok _ h
  intro p req hreq
  obtain ⟨_, _, _, _, rfl⟩ := RaftNode.buildAppendRequestForPeer_ok hreq
  rfl

theorem sent_of_queue {m : Move RaftNode NodeAction} {events : List RaftEvent}
    (h : m.after.nodeToPeersTx = m.before.nodeToPeersTx ++ events) : sent m = events := by
  rw [sent, h, List.drop_left]

theorem sent_of_same {m : Move RaftNode NodeAction}
    (h : m.after.nodeToPeersTx = m.before.nodeToPeersTx) : sent m = [] :=
  sent_of_queue (h.trans (List.append_nil _).symm)

theorem LeaderBeat.same {node node' : RaftNode} {action : NodeAction}
    (hquiet : ¬(action = .tick ∧ node.clusterReady = true)) (hpeers : node'.peers = node.peers)
    (htimer : node'.elapsedTicksSinceLastHeartbeat = node.elapsedTicksSinceLastHeartbeat)
    (hqueue : node'.nodeToPeersTx = node.nodeToPeersTx) :
    node'.peers = node.peers ∧ LeaderBeat ⟨node, action, node'⟩ :=
  ⟨hpeers, .quiet hquiet htimer (sent_of_same hqueue)⟩

theorem leaderBeat_tick {node node' : RaftNode} (htick : node.tick = .ok node')
    (hleader : node.state = .leader) :
    node'.peers = node.peers ∧ LeaderBeat ⟨node, .tick, node'⟩ := by
  by_cases hready : node.clusterReady = true
  case neg =>
    rw [RaftNode.tick_of_not_ready (by simpa using hready)] at htick
    cases htick
    exact LeaderBeat.same (fun h => hready h.2) rfl rfl rfl
  by_cases hearly : node.elapsedTicksSinceLastHeartbeat + 1 < heartbeatTicks
  · rw [RaftNode.tick_of_early hready (by rwa [if_pos hleader])] at htick
    cases htick
    exact ⟨rfl, .count rfl hready hearly rfl (sent_of_same rfl)⟩
  · have hdue := Nat.not_lt.mp hearly
    rw [RaftNode.tick_of_leader hready hleader hdue] at htick
    obtain ⟨requests, hbuild, hnode⟩ := ok_of_bind htick
    cases hnode
    refine ⟨rfl, .beat rfl hready hdue rfl ?_⟩
    rw [sent_of_queue rfl, ← recipients_of_build hbuild, List.map_map, List.map_map]
    rfl

theorem leaderBeat {node node' : RaftNode} {action : NodeAction}
    (hact : node.act action = some node') (hquiet : Undisturbed node action)
    (hleads : node'.state = .leader) :
    node'.peers = node.peers ∧ LeaderBeat ⟨node, action, node'⟩ := by
  cases action with
  | tick => exact leaderBeat_tick (RaftNode.act_tick.mp hact) hquiet
  | client event =>
    obtain ⟨log, hlog⟩ := RaftNode.handleClientRequest_node node event
    cases hact
    rw [hlog]
    exact LeaderBeat.same (fun h => by cases h.1) rfl rfl rfl
  | received =>
    obtain ⟨event, rest, hqueue, rfl⟩ := RaftNode.act_received hact
    exact ⟨rfl, .quiet (fun h => by cases h.1) rfl (by simp [sent, hqueue])⟩
  | step event sender =>
    have hno : ¬(NodeAction.step event sender = .tick ∧ node.clusterReady = true) :=
      fun h => by cases h.1
    obtain ⟨reply, hstep, _⟩ := RaftNode.act_step hact
    rcases RaftNode.step_cases hstep with ⟨req, rfl, rfl, _⟩ | ⟨req, rfl, _⟩ |
      ⟨_, response, rfl, hreply⟩ | ⟨_, responses, rfl, _⟩ | ⟨_, ready, rfl⟩
    · rw [RaftNode.stepPeerVotesRequest_eq] at hleads ⊢
      split at hleads
      · cases hleads
      · rename_i hold
        rw [if_neg hold]
        exact LeaderBeat.same hno rfl rfl rfl
    · exact hquiet.elim
    · rcases RaftNode.stepAppendEntriesResponse_cases hreply with ⟨_, _, rfl⟩ | rfl |
        ⟨_, _, _, _, rfl⟩ | ⟨_, _, _, _, _, rfl⟩
      · cases hleads
      · exact LeaderBeat.same hno rfl rfl rfl
      · obtain ⟨index, hloop⟩ := RaftNode.commitLoop_eq (node.recordMatch response)
        rw [hloop]
        exact LeaderBeat.same hno rfl rfl rfl
      · exact LeaderBeat.same hno rfl rfl rfl
    · exact hquiet.elim
    · exact LeaderBeat.same hno rfl rfl rfl

theorem Undisturbed.leads {node : RaftNode} {action : NodeAction} (h : Undisturbed node action) :
    node.state = .leader := by
  unfold Undisturbed at h
  split at h
  · exact h.elim
  · exact h.elim
  · exact h

theorem readyTicks_quiet {m : Move RaftNode NodeAction}
    (hquiet : ¬(m.action = .tick ∧ m.before.clusterReady = true))
    (h : List (Move RaftNode NodeAction)) : readyTicks (m :: h) = readyTicks h :=
  List.countP_cons_of_neg (by simpa using hquiet)

theorem sentIn_cons (m : Move RaftNode NodeAction) (h : List (Move RaftNode NodeAction)) :
    sentIn (m :: h) = sentIn h ++ sent m := by
  simp [sentIn]

theorem beats_of_undisturbed {start : RaftNode} {newer : List (Move RaftNode NodeAction)}
    {node : RaftNode} (run : Run (nodeRuns start) newer node) (hm : Meets Undisturbed newer)
    (hleads : node.state = .leader)
    (hearly : start.elapsedTicksSinceLastHeartbeat < heartbeatTicks) :
    ∃ beats, Beats start node newer beats := by
  induction run with
  | start =>
    exact ⟨0, rfl, hearly, by simp [readyTicks, nodeRuns], by simp [sentIn]⟩
  | @next h node node' action run hact ih =>
    obtain ⟨hquiet, hm⟩ := meets_cons.mp hm
    obtain ⟨beats, hpeers, htimer, hticks, hsent⟩ := ih hm hquiet.leads
    obtain ⟨hkept, hbeat⟩ := leaderBeat hact hquiet hleads
    cases hbeat with
    | beat htick hready hdue hzero hrequests =>
      refine ⟨beats + 1, hkept.trans hpeers, ?_, ?_, ?_⟩
      · rw [hzero]
        decide
      · rw [readyTicks_tick htick hready, hzero]
        simp only [heartbeatTicks] at *
        omega
      · rw [sentIn_cons, List.map_append, hsent, hrequests, hpeers, List.replicate_succ',
          List.flatten_append, List.flatten_singleton]
    | count htick hready hnext hcount hnone =>
      refine ⟨beats, hkept.trans hpeers, ?_, ?_, ?_⟩
      · rwa [hcount]
      · rw [readyTicks_tick htick hready, hcount]
        exact congrArg (· + 1) hticks |>.trans (Nat.add_right_comm _ _ _)
      · rw [sentIn_cons, hnone, List.append_nil, hsent]
    | quiet hno hsame hnone =>
      refine ⟨beats, hkept.trans hpeers, ?_, ?_, ?_⟩
      · rwa [hsame]
      · rw [readyTicks_quiet hno, hsame, hticks]
      · rw [sentIn_cons, hnone, List.append_nil, hsent]

theorem beats_of_undisturbed_elected :
    ∃ h leader newer node beats,
      Run (nodeRuns (RaftNode.new "node1" ["node2", "node3"] 7)) h leader ∧
      Run (nodeRuns leader) newer node ∧ node.elapsedTicksSinceLastHeartbeat = 1 ∧
      Beats leader node newer beats := by
  obtain ⟨h, leader, newer, node, run, _, since, hm, hearly, hleads, htimer⟩ :=
    exists_run_since_exec (nodeRuns (RaftNode.new "node1" ["node2", "node3"] 7))
      (fun _ _ => True) Undisturbed
      (fun leader node => leader.elapsedTicksSinceLastHeartbeat < heartbeatTicks ∧
        node.state = .leader ∧ node.elapsedTicksSinceLastHeartbeat = 1)
      (.step .clusterNodesUpEvent none :: List.replicate 7 .tick ++
        [.received, .step (.peerVotesResponseEvent [⟨"node2", 1, true⟩]) none])
      [.received, .received, .tick, .client (.commandRequestEvent ⟨"x", "1"⟩), .tick, .received,
        .step (.appendEntriesResponseEvent ⟨"node2", 1, true, 0⟩) none, .tick, .received, .tick,
        .step (.peerVotesRequestEvent ⟨1, "node3", -1, -1⟩) (some .oneshot), .tick]
      (by decide +kernel)
  obtain ⟨beats, hbeats⟩ := beats_of_undisturbed since hm hleads hearly
  exact ⟨h, leader, newer, node, beats, run, since, htimer, hbeats⟩

/-! ## Silence -/

/-- Nothing is handled that would start the timer again, or elect the node. -/
def Unheard (node : RaftNode) : NodeAction → Prop
  | .step (.appendEntriesRequestEvent req) _ => ¬node.Hears req
  | .step (.peerVotesRequestEvent req) _ => req.term ≤ node.currentTerm
  | .step (.appendEntriesResponseEvent response) _ =>
    ¬(node.currentTerm < response.term ∧ node.state ≠ .follower)
  | .step (.peerVotesResponseEvent _) _ => False
  | _ => True

instance (node : RaftNode) : (action : NodeAction) → Decidable (Unheard node action)
  | .step (.appendEntriesRequestEvent req) _ => inferInstanceAs (Decidable (¬node.Hears req))
  | .step (.peerVotesRequestEvent req) _ => inferInstanceAs (Decidable (req.term ≤ _))
  | .step (.appendEntriesResponseEvent _) _ => inferInstanceAs (Decidable (¬(_ ∧ _)))
  | .step (.peerVotesResponseEvent _) _ => inferInstanceAs (Decidable False)
  | .tick | .client _ | .received | .step (.requestVoteResponseEvent _) _
  | .step .clusterNodesDownEvent _ | .step .clusterNodesUpEvent _ =>
    inferInstanceAs (Decidable True)

inductive SilentMove (m : Move RaftNode NodeAction) : Prop
  | stand (htick : m.action = .tick) (hready : m.before.clusterReady = true)
      (hdue : m.before.electionTimeoutTicks ≤ m.before.elapsedTicksSinceLastHeartbeat + 1)
      (hstands : Candidacy m)
  | count (htick : m.action = .tick) (hready : m.before.clusterReady = true)
      (hearly : m.before.elapsedTicksSinceLastHeartbeat + 1 < m.before.electionTimeoutTicks)
      (hstate : m.after.state = m.before.state)
      (htimer : m.after.elapsedTicksSinceLastHeartbeat =
        m.before.elapsedTicksSinceLastHeartbeat + 1)
  | quiet (hquiet : ¬(m.action = .tick ∧ m.before.clusterReady = true))
      (hstate : m.after.state = m.before.state)
      (htimer : m.after.elapsedTicksSinceLastHeartbeat = m.before.elapsedTicksSinceLastHeartbeat)

theorem silentMove_tick {node node' : RaftNode} (htick : node.tick = .ok node')
    (hother : node.state ≠ .leader) : SilentMove ⟨node, .tick, node'⟩ := by
  by_cases hready : node.clusterReady = true
  case neg =>
    rw [RaftNode.tick_of_not_ready (by simpa using hready)] at htick
    cases htick
    exact .quiet (fun h => hready h.2) rfl rfl
  by_cases hearly : node.elapsedTicksSinceLastHeartbeat + 1 < node.electionTimeoutTicks
  · rw [RaftNode.tick_of_early hready (by rwa [if_neg hother])] at htick
    cases htick
    exact .count rfl hready hearly rfl rfl
  · have hdue := Nat.not_lt.mp hearly
    rw [RaftNode.tick_of_timeout hready hother hdue] at htick
    obtain ⟨_, _, _, _, hstate, _, _, _, _, hqueue, _⟩ := RaftNode.becomeCandidate_ok htick
    exact .stand rfl hready hdue ⟨hstate, Or.inr (by simp [hqueue])⟩

theorem silentMove {node node' : RaftNode} {action : NodeAction}
    (hact : node.act action = some node') (hunheard : Unheard node action)
    (hother : node.state ≠ .leader) : SilentMove ⟨node, action, node'⟩ := by
  cases action with
  | tick => exact silentMove_tick (RaftNode.act_tick.mp hact) hother
  | client event =>
    obtain ⟨log, hlog⟩ := RaftNode.handleClientRequest_node node event
    cases hact
    rw [hlog]
    exact .quiet (fun h => by cases h.1) rfl rfl
  | received =>
    obtain ⟨_, _, _, rfl⟩ := RaftNode.act_received hact
    exact .quiet (fun h => by cases h.1) rfl rfl
  | step event sender =>
    have hno : ¬(NodeAction.step event sender = .tick ∧ node.clusterReady = true) :=
      fun h => by cases h.1
    obtain ⟨reply, hstep, _⟩ := RaftNode.act_step hact
    rcases RaftNode.step_cases hstep with ⟨req, rfl, rfl, _⟩ | ⟨req, rfl, rfl, _⟩ |
      ⟨_, response, rfl, hreply⟩ | ⟨_, responses, rfl, _⟩ | ⟨_, ready, rfl⟩
    · rw [RaftNode.stepPeerVotesRequest_eq, if_neg (Int.not_lt.mpr hunheard)]
      exact .quiet hno rfl rfl
    · have hsame : (node.stepAppendEntriesRequest req).1 = node := by
        obtain ⟨hrefused, holder⟩ := not_or.mp (mt RaftNode.hears_iff.mpr hunheard)
        rcases RaftNode.stepAppendEntriesRequest_cases node req with ⟨_, heq⟩ | ⟨log, hlog, _⟩
        · rcases RaftNode.adoptTerm_cases node req with ⟨hnewer, hrole, _⟩ | ⟨_, hadopt⟩
          · exact absurd ⟨hnewer, hrole⟩ holder
          · rw [heq, hadopt]
        · exact absurd (hlog ▸ Option.some_ne_none log) hrefused
      rw [hsame]
      exact .quiet hno rfl rfl
    · rcases RaftNode.stepAppendEntriesResponse_cases hreply with ⟨hnewer, hrole, _⟩ | rfl |
        ⟨hleader, _⟩ | ⟨hleader, _⟩
      · exact absurd ⟨hnewer, hrole⟩ hunheard
      · exact .quiet hno rfl rfl
      · exact absurd hleader hother
      · exact absurd hleader hother
    · exact hunheard.elim
    · exact .quiet hno rfl rfl

inductive Waited (start node : RaftNode) (h : List (Move RaftNode NodeAction)) : Prop
  | stood (hstood : ∃ f ∈ h, Candidacy f)
      (hdue : start.electionTimeoutTicks ≤ start.elapsedTicksSinceLastHeartbeat + readyTicks h)
  | waits (hnone : ∀ f ∈ h, ¬Candidacy f) (hother : node.state ≠ .leader)
      (htimer : node.elapsedTicksSinceLastHeartbeat =
        start.elapsedTicksSinceLastHeartbeat + readyTicks h)
      (hearly : node.elapsedTicksSinceLastHeartbeat < start.electionTimeoutTicks)

theorem waited_of_unheard {start node : RaftNode} {h : List (Move RaftNode NodeAction)}
    (run : Run (nodeRuns start) h node) (hm : Meets Unheard h) (hother : start.state ≠ .leader)
    (hearly : start.elapsedTicksSinceLastHeartbeat < start.electionTimeoutTicks) :
    Waited start node h := by
  induction run with
  | start => exact .waits (by simp) hother (by simp [readyTicks, nodeRuns]) hearly
  | @next h node node' action run hact ih =>
    obtain ⟨hunheard, hm⟩ := meets_cons.mp hm
    have htimeout := electionTimeoutTicks_of_run run
    cases ih hm with
    | stood hstood hdue =>
      obtain ⟨f, hf, hstands⟩ := hstood
      have hmore := readyTicks_le_cons ⟨node, action, node'⟩ h
      exact .stood ⟨f, List.mem_cons_of_mem _ hf, hstands⟩ (by omega)
    | waits hnone hrole htimer _ =>
      cases silentMove hact hunheard hrole with
      | stand htick hready hdue hstands =>
        refine .stood ⟨_, List.mem_cons_self, hstands⟩ ?_
        rw [readyTicks_tick htick hready]
        rw [htimeout, htimer] at hdue
        exact hdue
      | count htick hready hnext hstate hcount =>
        refine .waits (List.forall_mem_cons.mpr ⟨fun hstands => ?_, hnone⟩) ?_ ?_ ?_
        · exact absurd (hstands.fires hact).2.2.2.1 (Nat.not_le.mpr hnext)
        · rwa [hstate]
        · rw [hcount, readyTicks_tick htick hready, htimer]
          rfl
        · rwa [hcount, ← htimeout]
      | quiet hno hstate hsame =>
        refine .waits (List.forall_mem_cons.mpr ⟨fun hstands => ?_, hnone⟩) ?_ ?_ ?_
        · obtain ⟨htick, hready, _⟩ := hstands.fires hact
          exact hno ⟨htick, hready⟩
        · rwa [hstate]
        · rw [hsame, readyTicks_quiet hno, htimer]
        · rwa [hsame]

theorem stands_iff_of_unheard {start node : RaftNode} {h : List (Move RaftNode NodeAction)}
    (run : Run (nodeRuns start) h node) (hm : Meets Unheard h) (hother : start.state ≠ .leader)
    (hearly : start.elapsedTicksSinceLastHeartbeat < start.electionTimeoutTicks) :
    (∃ f ∈ h, Candidacy f) ↔
      start.electionTimeoutTicks ≤ start.elapsedTicksSinceLastHeartbeat + readyTicks h := by
  cases waited_of_unheard run hm hother hearly with
  | stood hstood hdue => exact iff_of_true hstood hdue
  | waits hnone _ htimer hearly =>
    exact iff_of_false (fun ⟨f, hf, hstands⟩ => hnone f hf hstands) (by omega)

/-- A follower refuses an overreaching request of its leader and a vote to an old candidate, and
stands for election in time. -/
theorem stands_iff_of_unheard_refusing :
    ∃ h node, Run (nodeRuns idleFollower) h node ∧ (∃ f ∈ h, Candidacy f) ∧
      idleFollower.electionTimeoutTicks ≤
        idleFollower.elapsedTicksSinceLastHeartbeat + readyTicks h := by
  obtain ⟨h, node, run, hm, hcandidate⟩ := exists_run_of_exec (nodeRuns idleFollower) Unheard
    (fun node => node.state = .candidate)
    ([.tick, handles (requestAfter 8 1), .tick,
      .step (.peerVotesRequestEvent ⟨0, "node3", -1, -1⟩) (some .oneshot)] ++
      List.replicate 5 .tick)
    (by decide +kernel)
  have hstood := exists_candidacy run (by decide) hcandidate
  exact ⟨h, node, run, hstood, (stands_iff_of_unheard run hm (by decide) (by decide)).mp hstood⟩

end Rafting
