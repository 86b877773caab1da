import Rafting.NextIndex
import Rafting.ServerLoop

/-! How loops end. Seven kinds of step end a loop, each with its fault, and nothing else that
reaches it does. -/
namespace Rafting
open Transition Fallible

namespace RaftNode

def Misses (node : RaftNode) (peer : NodeId) : Prop :=
  (node.nextIndex peer).getD 0 ≠ 0 ∧ (node.nextIndex peer).getD 0 ≠ i64Min ∧
    node.log.get (asUsize ((node.nextIndex peer).getD 0 - 1)) = none

/-- The requests for all peers before this one can be built. -/
def ComesTo (node : RaftNode) (peer : NodeId) : Prop :=
  ∃ before after, node.peers = before ++ peer :: after ∧
    ∀ p ∈ before, node.nextIndex p ≠ some i64Min ∧ ¬node.Misses p

theorem buildAppendRequestForPeer_error_iff {node : RaftNode} {peer : NodeId} {fault : Fault} :
    node.buildAppendRequestForPeer peer = .error fault ↔
      (node.nextIndex peer = some i64Min ∧ fault = subtractOverflow) ∨
        (node.Misses peer ∧ fault = unwrapNone) := by
  have hmin : (node.nextIndex peer).getD 0 = i64Min ↔ node.nextIndex peer = some i64Min := by
    cases node.nextIndex peer with
    | none => simp [i64Min]
    | some n => simp
  have hslice : node.buildAppendRequestForPeer peer = .error fault ↔
      node.appendSlice ((node.nextIndex peer).getD 0) = .error fault := by
    refine ⟨buildAppendRequestForPeer_error, fun h => ?_⟩
    rw [buildAppendRequestForPeer, h]
    rfl
  rw [hslice, appendSlice_error_iff, hmin, Misses, ne_eq ((node.nextIndex peer).getD 0) i64Min, hmin]
  simp only [and_assoc]

theorem comesTo_iff {node : RaftNode} {peer : NodeId} : node.ComesTo peer ↔
    ∃ before after, node.peers = before ++ peer :: after ∧
      ∀ p ∈ before, ∃ req, node.buildAppendRequestForPeer p = .ok req := by
  have hbuilt : ∀ p, (node.nextIndex p ≠ some i64Min ∧ ¬node.Misses p) ↔
      ∃ req, node.buildAppendRequestForPeer p = .ok req := by
    intro p
    cases hbuild : node.buildAppendRequestForPeer p with
    | ok req =>
      have hnone : ∀ fault, node.buildAppendRequestForPeer p ≠ .error fault := by simp [hbuild]
      simp only [Except.ok.injEq, exists_eq', iff_true]
      exact ⟨fun h => hnone _ (buildAppendRequestForPeer_error_iff.mpr (Or.inl ⟨h, rfl⟩)),
        fun h => hnone _ (buildAppendRequestForPeer_error_iff.mpr (Or.inr ⟨h, rfl⟩))⟩
    | error fault =>
      simp only [reduceCtorEq, exists_false, iff_false, not_and, not_not]
      intro hother
      rcases buildAppendRequestForPeer_error_iff.mp hbuild with ⟨hmin, _⟩ | ⟨hmisses, _⟩
      · exact absurd hmin hother
      · exact hmisses
  simp only [ComesTo, hbuilt]

theorem tick_error_iff {node : RaftNode} {fault : Fault} : node.tick = .error fault ↔
    node.clusterReady = true ∧
      ((node.state = .leader ∧ heartbeatTicks ≤ node.elapsedTicksSinceLastHeartbeat + 1 ∧
          ∃ peer, node.ComesTo peer ∧
            ((node.nextIndex peer = some i64Min ∧ fault = subtractOverflow) ∨
              (node.Misses peer ∧ fault = unwrapNone))) ∨
        (node.state ≠ .leader ∧
          node.electionTimeoutTicks ≤ node.elapsedTicksSinceLastHeartbeat + 1 ∧
          fault = addOverflow ∧ node.currentTerm = i32Max)) := by
  by_cases hready : node.clusterReady = true
  case neg =>
    rw [tick_of_not_ready (by simpa using hready)]
    simp [hready]
  by_cases hearly : node.elapsedTicksSinceLastHeartbeat + 1 <
      if node.state = .leader then heartbeatTicks else node.electionTimeoutTicks
  case pos =>
    rw [tick_of_early hready hearly]
    split at hearly <;> rename_i hleader
    · simp [hleader, Nat.not_le.mpr hearly]
    · simp [hleader, Nat.not_le.mpr hearly]
  by_cases hleader : node.state = .leader
  · rw [if_pos hleader] at hearly
    rw [tick_of_leader hready hleader (Nat.not_lt.mp hearly)]
    constructor
    · intro h
      rcases error_of_bind h with hbuild | ⟨_, _, hok⟩
      · obtain ⟨before, peer, after, hpeers, hbefore, herror⟩ := mapM_error_iff.mp hbuild
        exact ⟨hready, Or.inl ⟨hleader, Nat.not_lt.mp hearly, peer,
          comesTo_iff.mpr ⟨before, after, hpeers, hbefore⟩,
          buildAppendRequestForPeer_error_iff.mp herror⟩⟩
      · cases hok
    · rintro ⟨_, ⟨_, _, peer, hcomes, hfails⟩ | ⟨hother, _⟩⟩
      · obtain ⟨before, after, hpeers, hbefore⟩ := comesTo_iff.mp hcomes
        have hbuild : node.peers.mapM node.buildAppendRequestForPeer = .error fault :=
          mapM_error_iff.mpr ⟨before, peer, after, hpeers, hbefore,
            buildAppendRequestForPeer_error_iff.mpr hfails⟩
        rw [hbuild]
        rfl
      · exact absurd hleader hother
  · rw [if_neg hleader] at hearly
    rw [tick_of_timeout hready hleader (Nat.not_lt.mp hearly), becomeCandidate]
    by_cases hmax : node.currentTerm = i32Max
    · rw [if_pos hmax]
      simp [hready, hleader, Nat.not_lt.mp hearly, hmax, eq_comm]
    · rw [if_neg hmax]
      simp [hleader, hmax]

end RaftNode

/-! ## The seven ways -/

inductive Ends (c : Cluster) (a : NodeId) : Action → Fault → Prop
  /-- A command reaches a node that does not lead. -/
  | client (command : SetCommand) (hphase : c.phase a = .selecting)
      (hrole : (c.node a).state ≠ .leader) :
      Ends c a (.client a command) (.error RaftNode.notTheLeader)
  /-- The call of an append request has failed. -/
  | call (req : AppendEntriesRequest) (peer : NodeId) (status : Status)
      (hphase : c.phase a = .awaiting (.appendEntriesRequestEvent req) [(peer, .failed status)]) :
      Ends c a (.resume a) (.error ((c.servers a).network.appendFailed status))
  /-- When a leader's heartbeats are due, it comes to a peer before whose next index it has no
  entry. -/
  | heartbeat (peer : NodeId) (hphase : c.phase a = .selecting)
      (hready : (c.node a).clusterReady = true) (hrole : (c.node a).state = .leader)
      (hdue : heartbeatTicks ≤ (c.node a).elapsedTicksSinceLastHeartbeat + 1)
      (hpeer : (c.node a).ComesTo peer) (hmisses : (c.node a).Misses peer) :
      Ends c a (.tick a) unwrapNone
  /-- It comes to a peer whose next index is the least one. -/
  | least (peer : NodeId) (hphase : c.phase a = .selecting)
      (hready : (c.node a).clusterReady = true) (hrole : (c.node a).state = .leader)
      (hdue : heartbeatTicks ≤ (c.node a).elapsedTicksSinceLastHeartbeat + 1)
      (hpeer : (c.node a).ComesTo peer) (hmin : (c.node a).nextIndex peer = some i64Min) :
      Ends c a (.tick a) subtractOverflow
  /-- A node stands for election in the last term. -/
  | election (hphase : c.phase a = .selecting) (hready : (c.node a).clusterReady = true)
      (hrole : (c.node a).state ≠ .leader)
      (hdue : (c.node a).electionTimeoutTicks ≤ (c.node a).elapsedTicksSinceLastHeartbeat + 1)
      (hmax : (c.node a).currentTerm = i32Max) : Ends c a (.tick a) addOverflow
  /-- A peer reports the greatest index to a leader. -/
  | greatest (req : AppendEntriesRequest) (peer : NodeId) (response : AppendEntriesResponse)
      (hphase : c.phase a = .awaiting (.appendEntriesRequestEvent req)
        [(peer, .answered (.appendEntriesResponseEvent response))])
      (hrole : (c.node a).state = .leader) (hterm : (c.node a).currentTerm = response.term)
      (hsuccess : response.success = true) (hmax : i64Max ≤ response.lastAppliedIndex) :
      Ends c a (.resume a) addOverflow
  /-- A peer whose next index is the least one rejects a leader's request. -/
  | reply (req : AppendEntriesRequest) (peer : NodeId) (response : AppendEntriesResponse)
      (hphase : c.phase a = .awaiting (.appendEntriesRequestEvent req)
        [(peer, .answered (.appendEntriesResponseEvent response))])
      (hrole : (c.node a).state = .leader) (hterm : (c.node a).currentTerm = response.term)
      (hrejected : response.success = false)
      (hmin : (c.node a).nextIndex response.fromNode = some i64Min) :
      Ends c a (.resume a) subtractOverflow

section Run
variable {cfg : Config} {h : List (Move Cluster Action)} {c c' : Cluster} {act : Action}
  {a : NodeId} {fault : Fault}

theorem phase_of_tick (hstep : c.step (.tick a) = some c')
    (htick : (c.node a).tick = .error fault) : c'.phase a = .stopped fault := by
  obtain ⟨_, rfl⟩ := Cluster.turn_eq_some hstep
  rw [Cluster.phase, Cluster.servers_set_self, RaftServer.selectTick,
    show (c.servers a).node.tick = _ from htick]
  rfl

theorem phase_of_resume {server : RaftServer} (hstep : c.step (.resume a) = some c')
    (hresume : (c.servers a).resume = some server) : c'.phase a = server.phase := by
  simp only [Cluster.step, hresume, Option.map_some, Option.some.injEq] at hstep
  rw [← hstep, Cluster.phase, Cluster.servers_set_self]

theorem phase_of_reply (hstep : c.step (.resume a) = some c') {req : AppendEntriesRequest}
    {peer : NodeId} {response : AppendEntriesResponse}
    (hphase : c.phase a = .awaiting (.appendEntriesRequestEvent req)
      [(peer, .answered (.appendEntriesResponseEvent response))])
    (hreply : (c.node a).stepAppendEntriesResponse response = .error fault) :
    c'.phase a = .stopped fault := by
  have herror : (c.servers a).node.step (.appendEntriesResponseEvent response, none) =
      .error fault := by
    change ((c.node a).stepAppendEntriesResponse response >>= _) = _
    rw [hreply]
    rfl
  refine @phase_of_resume c c' a { c.servers a with phase := .stopped fault } hstep ?_
  simp [RaftServer.resume, show (c.servers a).phase = _ from hphase, RaftServer.selectServer,
    herror]

theorem Ends.stopped (hends : Ends c a act fault) (hstep : c.step act = some c') :
    c'.phase a = .stopped fault := by
  cases hends with
  | client command hphase hrole =>
    simp only [Cluster.step] at hstep
    obtain ⟨_, rfl⟩ := Cluster.turn_eq_some hstep
    rw [Cluster.phase, Cluster.servers_set_self, RaftServer.selectClient,
      show (c.servers a).node.handleClientRequest _ = _ from
        RaftNode.handleClientRequest_other hrole command]
  | call req peer status hphase =>
    refine @phase_of_resume c c' a { c.servers a with
      phase := .stopped (.error ((c.servers a).network.appendFailed status)) } hstep ?_
    simp [RaftServer.resume, show (c.servers a).phase = _ from hphase]
  | heartbeat peer _ hready hrole hdue hpeer hmisses =>
    exact phase_of_tick hstep (RaftNode.tick_error_iff.mpr
      ⟨hready, Or.inl ⟨hrole, hdue, peer, hpeer, Or.inr ⟨hmisses, rfl⟩⟩⟩)
  | least peer _ hready hrole hdue hpeer hmin =>
    exact phase_of_tick hstep (RaftNode.tick_error_iff.mpr
      ⟨hready, Or.inl ⟨hrole, hdue, peer, hpeer, Or.inl ⟨hmin, rfl⟩⟩⟩)
  | election _ hready hrole hdue hmax =>
    exact phase_of_tick hstep (RaftNode.tick_error_iff.mpr
      ⟨hready, Or.inr ⟨hrole, hdue, rfl, hmax⟩⟩)
  | greatest req peer response hphase hrole hterm hsuccess hmax =>
    exact phase_of_reply hstep hphase (RaftNode.stepAppendEntriesResponse_error_iff.mpr
      ⟨hrole, hterm, Or.inl ⟨hsuccess, hmax, rfl⟩⟩)
  | reply req peer response hphase hrole hterm hrejected hmin =>
    exact phase_of_reply hstep hphase (RaftNode.stepAppendEntriesResponse_error_iff.mpr
      ⟨hrole, hterm, Or.inr (Or.inr ⟨hrejected, hmin, rfl⟩)⟩)

theorem ends_of_step (run : Run (cluster cfg) h c) (ha : a ∈ cfg.ids)
    (hstep : c.step act = some c') (hbefore : c.phase a ≠ .stopped fault)
    (hafter : c'.phase a = .stopped fault) : Ends c a act fault := by
  have sound := (ownRuns_of_run run).sound ha
  unfold Cluster.phase at hafter
  cases Cluster.server_move hstep a with
  | idle heq => exact absurd (by rw [← hafter, heq]; rfl) hbefore
  | clusterUp _ _ heq => rw [heq] at hafter; cases hafter
  | tick hact hphase heq =>
    rw [heq, RaftServer.selectTick] at hafter
    cases htick : (c.servers a).node.tick with
    | ok node' => rw [htick] at hafter; cases hafter
    | error fault' =>
      rw [htick] at hafter
      cases hafter
      subst hact
      obtain ⟨hready, ⟨hrole, hdue, peer, hpeer, ⟨hmin, rfl⟩ | ⟨hmisses, rfl⟩⟩ |
        ⟨hrole, hdue, rfl, hmax⟩⟩ := RaftNode.tick_error_iff.mp htick
      · exact .least peer hphase hready hrole hdue hpeer hmin
      · exact .heartbeat peer hphase hready hrole hdue hpeer hmisses
      · exact .election hphase hready hrole hdue hmax
  | client command hact hphase heq =>
    rw [heq, RaftServer.selectClient] at hafter
    subst hact
    by_cases hrole : (c.servers a).node.state = .leader
    · rw [RaftNode.handleClientRequest_leader hrole] at hafter
      exact absurd hafter hbefore
    · rw [RaftNode.handleClientRequest_other hrole] at hafter
      cases hafter
      exact .client command hphase hrole
  | send _ _ heq =>
    obtain ⟨_, _, _, _, _, hcases⟩ := RaftServer.selectPeers_cases heq
    rcases hcases with ⟨_, _, _, hp⟩ | ⟨_, _, hp⟩ | ⟨e, hp, _⟩
    · rw [hp] at hafter; cases hafter
    · rw [hp] at hafter; cases hafter
    · -- there is a client for every event that a sound loop sends
      rcases (sound.turn_send heq).cause e hp with ⟨_, hstimulus, _⟩ | ⟨hstimulus, _⟩ <;>
        cases hstimulus
  | handle event hhandled _ heq =>
    rw [heq] at hafter
    rcases (ownRuns_of_run run).isRequest_of_handled (members_of_run run) hhandled with
      ⟨_, rfl⟩ | ⟨_, rfl⟩ <;> cases hafter
  | answer p event calls _ hphase _ _ _ heq =>
    rw [heq, RaftServer.answer, show (c.servers a).phase = _ from hphase] at hafter
    cases hafter
  | fail p status event calls _ hphase _ heq =>
    rw [heq, RaftServer.answer, show (c.servers a).phase = _ from hphase] at hafter
    cases hafter
  | resume hact heq =>
    subst hact
    obtain ⟨_, _, hphase, _, _, hcases⟩ := RaftServer.resume_cases heq
    rcases hcases with ⟨_, _, hp, _⟩ | ⟨_, _, _, _, _, hp, _⟩ |
      ⟨req, peer, response, fault', rfl, rfl, hreply, hp, _⟩ | ⟨req, peer, status, rfl, rfl, hp, _⟩
    · rw [hp] at hafter; cases hafter
    · rw [hp] at hafter; cases hafter
    · rw [hp] at hafter
      cases hafter
      obtain ⟨hrole, hterm, ⟨hsuccess, hmax, hfault⟩ | ⟨_, _, hfault⟩ |
        ⟨hrejected, hmin, hfault⟩⟩ := RaftNode.stepAppendEntriesResponse_error_iff.mp hreply
      · rw [hfault]
        exact .greatest req peer response hphase hrole hterm hsuccess hmax
      · rw [hfault] at hreply
        exact absurd hreply (reply_recorded run hphase)
      rw [hfault]
      exact .reply req peer response hphase hrole hterm hrejected hmin
    · rw [hp] at hafter
      cases hafter
      exact .call req peer status hphase

theorem stopped_iff (run : Run (cluster cfg) h c) (ha : a ∈ cfg.ids) :
    c.phase a = .stopped fault ↔ ∃ m ∈ h, Ends m.before a m.action fault := by
  apply run.induct (fun h c => c.phase a = .stopped fault ↔
    ∃ m ∈ h, Ends m.before a m.action fault)
  · have hphase : ((cluster cfg).init).phase a = .selecting := by
      simp [Cluster.cluster_init, Cluster.phase, Cluster.initial, ha, RaftServer.start]
    simp [hphase]
  · intro h c c' act run inv hstep
    constructor
    · intro hafter
      by_cases hbefore : c.phase a = .stopped fault
      · obtain ⟨m, hm, hends⟩ := inv.mp hbefore
        exact ⟨m, List.mem_cons_of_mem _ hm, hends⟩
      · exact ⟨_, List.mem_cons_self, ends_of_step run ha hstep hbefore hafter⟩
    · rintro ⟨m, hm, hends⟩
      rcases List.mem_cons.mp hm with rfl | hm
      · exact hends.stopped hstep
      · have hbefore := inv.mpr ⟨m, hm, hends⟩
        rw [Cluster.phase, Cluster.servers_of_stopped hstep hbefore]
        exact hbefore

end Run

/-- `node2`'s loop ends on the command of a client, and `node1`'s on its call to `node2`. -/
theorem stopped_iff_unreachable :
    ∃ h c, Run (cluster twoNodes) h c ∧
      (∃ m ∈ h, Ends m.before "node2" m.action (.error RaftNode.notTheLeader)) ∧
      ∃ m ∈ h, Ends m.before "node1" m.action
        (.error ((c.servers "node1").network.appendFailed "unavailable")) := by
  obtain ⟨h, c, run, _, hclient, hcall⟩ := exists_run_of_exec (cluster twoNodes)
    (fun _ _ => True)
    (fun c => c.phase "node2" = .stopped (.error RaftNode.notTheLeader) ∧
      c.phase "node1" = .stopped (.error ((c.servers "node1").network.appendFailed "unavailable")))
    (twoNodes.allUp ++ electionTimeout "node1" ++ exchange "node1" ["node2"] ++
      [.client "node2" ⟨"x", "1"⟩, .send "node1", .fail "node1" "node2" "unavailable",
        .resume "node1"])
    (by decide +kernel)
  exact ⟨h, c, run, (stopped_iff run (by decide)).mp hclient,
    (stopped_iff run (by decide)).mp hcall⟩

end Rafting
