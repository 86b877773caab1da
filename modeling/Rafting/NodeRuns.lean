import Rafting.ClusterSteps

/-! One node and whatever drives it: ticks, client commands and events for `step`, in any
order and with any contents. Each call moves the node's role, term and timer in one of a few
ways, and so a node's votes and its timer follow from the moves that it has made. -/
namespace Rafting
open Transition

/-- What can be done with a node; `received` is the other end of its channel to the peers. -/
inductive NodeAction where
  | tick
  | client (event : ClientEvent)
  | step (event : RaftEvent) (sender : Option Sender)
  | received
deriving DecidableEq

namespace RaftNode

/-- The node that a call leaves. There is none after an error of `tick` or `step`, which
own the node that they are called on. -/
def act (node : RaftNode) : NodeAction → Option RaftNode
  | .tick => node.tick.toOption
  | .client event => some (node.handleClientRequest event).node
  | .step event sender => (node.step (event, sender)).toOption.map Prod.fst
  | .received =>
    match node.nodeToPeersTx with
    | [] => none
    | _ :: rest => some { node with nodeToPeersTx := rest }

def reply (node : RaftNode) : NodeAction → Option RaftEvent
  | .step event sender => (node.step (event, sender)).toOption.bind Prod.snd
  | _ => none

end RaftNode

def nodeRuns (node : RaftNode) : Transition.System RaftNode NodeAction where
  init := node
  step := RaftNode.act

namespace RaftNode
variable {node node' : RaftNode} {action : NodeAction}

theorem ok_of_toOption {α : Type} {result : RaftResult α} {x : α}
    (h : result.toOption = some x) : result = .ok x := by
  cases result with
  | error fault => cases h
  | ok y =>
    cases h
    rfl

theorem act_tick : node.act .tick = some node' ↔ node.tick = .ok node' := by
  refine ⟨ok_of_toOption, fun h => ?_⟩
  simp only [act, h]
  rfl

theorem act_step {event : RaftEvent} {sender : Option Sender}
    (h : node.act (.step event sender) = some node') :
    ∃ reply, node.step (event, sender) = .ok (node', reply) ∧
      node.reply (.step event sender) = reply := by
  obtain ⟨⟨next, reply⟩, hok, rfl⟩ := Option.map_eq_some_iff.mp h
  have hstep := ok_of_toOption hok
  refine ⟨reply, hstep, ?_⟩
  simp only [RaftNode.reply, hstep]
  rfl

theorem act_received (h : node.act .received = some node') :
    ∃ event rest, node.nodeToPeersTx = event :: rest ∧
      node' = { node with nodeToPeersTx := rest } := by
  simp only [act] at h
  split at h
  · cases h
  · rename_i event rest hqueue
    cases h
    exact ⟨event, rest, hqueue, rfl⟩

theorem handleClientRequest_node (node : RaftNode) (event : ClientEvent) :
    ∃ log, (node.handleClientRequest event).node = { node with log := log } := by
  unfold handleClientRequest
  split
  · split
    · exact ⟨node.log, rfl⟩
    · exact ⟨_, rfl⟩
  · exact ⟨node.log, rfl⟩

end RaftNode

/-! ## The nodes of a cluster -/

inductive RaftNode.RoleMove (node : RaftNode) (action : NodeAction) (node' : RaftNode) : Prop
  | keep (hstate : node'.state = node.state) (hterm : node'.currentTerm = node.currentTerm)
      (htimer : node'.elapsedTicksSinceLastHeartbeat ≤ node.elapsedTicksSinceLastHeartbeat)
      (hqueue : node'.nodeToPeersTx.length ≤ node.nodeToPeersTx.length)
      (htimeout : node'.electionTimeoutTicks = node.electionTimeoutTicks)
  | count (hact : action = .tick) (hready : node.clusterReady = true)
      (hstate : node'.state = node.state) (hterm : node'.currentTerm = node.currentTerm)
      (htimer : node'.elapsedTicksSinceLastHeartbeat ≤ node.elapsedTicksSinceLastHeartbeat + 1)
      (hqueue : node.state = .leader ∨ node'.nodeToPeersTx = node.nodeToPeersTx)
      (htimeout : node'.electionTimeoutTicks = node.electionTimeoutTicks)
  | stand (hact : action = .tick) (hready : node.clusterReady = true)
      (hrole : node.state ≠ .leader)
      (hfires : node.electionTimeoutTicks ≤ node.elapsedTicksSinceLastHeartbeat + 1)
      (hstate : node'.state = .candidate) (hterm : node'.currentTerm = node.currentTerm + 1)
      (htimer : node'.elapsedTicksSinceLastHeartbeat = 0)
      (htimeout : node'.electionTimeoutTicks = node.electionTimeoutTicks)
  | follow (hstate : node'.state = .follower) (hterm : node.currentTerm ≤ node'.currentTerm)
      (htimer : node'.elapsedTicksSinceLastHeartbeat = 0)
      (htimeout : node'.electionTimeoutTicks = node.electionTimeoutTicks)
  | win (hstate : node'.state = .leader) (hterm : node'.currentTerm = node.currentTerm)
      (htimeout : node'.electionTimeoutTicks = node.electionTimeoutTicks)

namespace RaftNode
variable {node node' : RaftNode} {action : NodeAction}

theorem RoleMove.same (hstate : node'.state = node.state)
    (hterm : node'.currentTerm = node.currentTerm)
    (htimer : node'.elapsedTicksSinceLastHeartbeat = node.elapsedTicksSinceLastHeartbeat)
    (hqueue : node'.nodeToPeersTx = node.nodeToPeersTx)
    (htimeout : node'.electionTimeoutTicks = node.electionTimeoutTicks) :
    RoleMove node action node' :=
  .keep hstate hterm (Nat.le_of_eq htimer) (Nat.le_of_eq (congrArg List.length hqueue)) htimeout

theorem roleMove_append (node : RaftNode) (req : AppendEntriesRequest) :
    RoleMove node action (node.stepAppendEntriesRequest req).1 := by
  rcases stepAppendEntriesRequest_cases node req with ⟨_, heq⟩ | ⟨log, _, heq⟩
  · rw [heq]
    rcases adoptTerm_cases node req with ⟨hnewer, _, hadopt⟩ | ⟨_, hadopt⟩
    · rw [hadopt]
      exact .follow rfl (Int.le_of_lt hnewer) rfl rfl
    · rw [hadopt]
      exact .same rfl rfl rfl rfl rfl
  · rw [heq]
    rcases adoptTerm_cases node req with ⟨hnewer, _, hadopt⟩ | ⟨_, hadopt⟩
    · rw [hadopt]
      exact .follow rfl (Int.le_of_lt hnewer) rfl rfl
    · rw [hadopt]
      exact .keep rfl rfl (Nat.zero_le _) (Nat.le_refl _) rfl

theorem roleMove_reply {response : AppendEntriesResponse}
    (h : node.stepAppendEntriesResponse response = .ok node') : RoleMove node action node' := by
  rcases stepAppendEntriesResponse_cases h with ⟨hnewer, _, rfl⟩ | rfl | ⟨_, _, _, _, rfl⟩ |
    ⟨_, _, _, _, _, rfl⟩
  · exact .follow rfl (Int.le_of_lt hnewer) rfl rfl
  · exact .same rfl rfl rfl rfl rfl
  · obtain ⟨index, hloop⟩ := commitLoop_eq (node.recordMatch response)
    rw [hloop]
    exact .same rfl rfl rfl rfl rfl
  · exact .same rfl rfl rfl rfl rfl

theorem roleMove_tick (h : node.tick = .ok node') : RoleMove node .tick node' := by
  rcases tick_timed h with ⟨_, rfl⟩ | ⟨hready, hleader, requests, _, rfl⟩ |
    ⟨hready, hrole, hfires, hstands⟩ | ⟨hready, rfl⟩
  · exact .same rfl rfl rfl rfl rfl
  · exact .count rfl hready rfl rfl (Nat.zero_le _) (Or.inl hleader) rfl
  · obtain ⟨_, _, _, _, hstate, hterm, _⟩ := becomeCandidate_ok hstands
    obtain ⟨htimer, htimeout⟩ := becomeCandidate_timer hstands
    exact .stand rfl hready hrole hfires hstate hterm htimer htimeout
  · exact .count rfl hready rfl rfl (Nat.le_refl _) (Or.inr rfl) rfl

theorem role_move (h : node.act action = some node') : RoleMove node action node' := by
  cases action with
  | tick => exact roleMove_tick (act_tick.mp h)
  | client event =>
    obtain ⟨log, hlog⟩ := handleClientRequest_node node event
    cases h
    rw [hlog]
    exact .same rfl rfl rfl rfl rfl
  | received =>
    obtain ⟨event, rest, hqueue, rfl⟩ := act_received h
    exact .keep rfl rfl (Nat.le_refl _) (by simp [hqueue]) rfl
  | step event sender =>
    obtain ⟨reply, hstep, _⟩ := act_step h
    rcases step_cases hstep with ⟨req, _, rfl, _⟩ | ⟨req, _, rfl, _⟩ | ⟨_, response, _, hreply⟩ |
      ⟨_, responses, _, rfl⟩ | ⟨_, ready, rfl⟩
    · rw [stepPeerVotesRequest_eq]
      split
      · rename_i hnewer
        exact .follow rfl (Int.le_of_lt hnewer) rfl rfl
      · exact .same rfl rfl rfl rfl rfl
    · exact roleMove_append node req
    · exact roleMove_reply hreply
    · rcases stepPeerVotesResponse_cases node responses with ⟨_, heq⟩ | ⟨_, heq⟩
      · rw [heq]
        exact .win rfl rfl rfl
      · rw [heq]
        exact .follow rfl (Int.le_refl _) rfl rfl
    · exact .same rfl rfl rfl rfl rfl

theorem reply_cases {event : RaftEvent} (hact : node.act action = some node')
    (hreply : node.reply action = some event) :
    (∃ req, node' = (node.stepPeerVotesRequest req).1 ∧
      event = (node.stepPeerVotesRequest req).2) ∨
    ∃ req, node' = (node.stepAppendEntriesRequest req).1 ∧
      event = (node.stepAppendEntriesRequest req).2 := by
  cases action with
  | step received sender =>
    obtain ⟨reply, hstep, heq⟩ := act_step hact
    rw [hreply] at heq
    subst heq
    rcases step_cases hstep with ⟨req, _, hnode, hevent⟩ | ⟨req, _, hnode, hevent⟩ | ⟨hnone, _⟩ |
      ⟨hnone, _⟩ | ⟨hnone, _⟩
    · exact Or.inl ⟨req, hnode, Option.some.inj hevent⟩
    · exact Or.inr ⟨req, hnode, Option.some.inj hevent⟩
    all_goals cases hnone
  | _ => cases hreply

theorem reply_granted {response : RequestVoteResponse} (hact : node.act action = some node')
    (hreply : node.reply action = some (.requestVoteResponseEvent response))
    (hgranted : response.voteGranted = true) :
    node.currentTerm < response.term ∧ node'.currentTerm = response.term ∧
      node'.elapsedTicksSinceLastHeartbeat = 0 := by
  rcases reply_cases hact hreply with ⟨req, rfl, hevent⟩ | ⟨req, _, hevent⟩
  · rw [stepPeerVotesRequest_eq] at hevent ⊢
    split at hevent
    · rename_i hnewer
      cases hevent
      rw [if_pos hnewer]
      exact ⟨hnewer, rfl, rfl⟩
    · cases hevent
      cases hgranted
  · rcases stepAppendEntriesRequest_cases node req with ⟨_, heq⟩ | ⟨_, _, heq⟩
    · rw [heq] at hevent
      cases hevent
    · rw [heq] at hevent
      cases hevent

theorem reply_success {response : AppendEntriesResponse} (hact : node.act action = some node')
    (hreply : node.reply action = some (.appendEntriesResponseEvent response))
    (hsuccess : response.success = true) : node'.elapsedTicksSinceLastHeartbeat = 0 := by
  rcases reply_cases hact hreply with ⟨req, _, hevent⟩ | ⟨req, rfl, hevent⟩
  · rw [stepPeerVotesRequest_eq] at hevent
    split at hevent <;> cases hevent
  · rcases stepAppendEntriesRequest_cases node req with ⟨_, heq⟩ | ⟨_, _, heq⟩
    · rw [heq] at hevent
      cases hevent
      cases hsuccess
    · rw [heq]

end RaftNode

/-! ## The terms a node votes in -/

/-- The move makes the node a candidate, or a candidate again: its state changes, or it
sends for votes. -/
def Candidacy (m : Move RaftNode NodeAction) : Prop :=
  m.after.state = .candidate ∧
    (m.before.state ≠ .candidate ∨
      m.before.nodeToPeersTx.length < m.after.nodeToPeersTx.length)

instance (m : Move RaftNode NodeAction) : Decidable (Candidacy m) :=
  inferInstanceAs (Decidable (_ ∧ (_ ∨ _)))

def votedTerm (m : Move RaftNode NodeAction) : Option Int :=
  if Candidacy m then some m.after.currentTerm
  else
    match m.before.reply m.action with
    | some (.requestVoteResponseEvent response) =>
      if response.voteGranted then some response.term else none
    | _ => none

/-- The node's term never decreases along the run, and every vote or candidacy is in a
later term than the one before. Both lists are reversed: the oldest comes first. -/
structure VotesOnce (h : List (Move RaftNode NodeAction)) (node : RaftNode) : Prop where
  terms : ((moments h node).map RaftNode.currentTerm).reverse.Pairwise (· ≤ ·)
  votes : (h.filterMap votedTerm).reverse.Pairwise (· < ·)

section
variable {m : Move RaftNode NodeAction}

theorem Candidacy.fires (hstands : Candidacy m) (hact : m.before.act m.action = some m.after) :
    m.action = .tick ∧ m.before.clusterReady = true ∧ m.before.state ≠ .leader ∧
      m.before.electionTimeoutTicks ≤ m.before.elapsedTicksSinceLastHeartbeat + 1 ∧
      m.after.currentTerm = m.before.currentTerm + 1 := by
  obtain ⟨hcandidate, hnew⟩ := hstands
  cases RaftNode.role_move hact with
  | keep hstate _ _ hqueue _ =>
    rw [← hstate] at hnew
    rcases hnew with hother | hgrows
    · exact absurd hcandidate hother
    · omega
  | count _ _ hstate _ _ hqueue _ =>
    rw [← hstate] at hnew hqueue
    rcases hqueue with hleader | hsame
    · rw [hcandidate] at hleader
      cases hleader
    · rw [hsame] at hnew
      simp [hcandidate] at hnew
  | stand htick hready hrole hfires _ hterm _ _ => exact ⟨htick, hready, hrole, hfires, hterm⟩
  | follow hstate _ _ _ =>
    rw [hcandidate] at hstate
    cases hstate
  | win hstate _ _ =>
    rw [hcandidate] at hstate
    cases hstate

theorem currentTerm_le_of_act {node node' : RaftNode} {action : NodeAction}
    (hact : node.act action = some node') : node.currentTerm ≤ node'.currentTerm := by
  cases RaftNode.role_move hact with
  | keep _ hterm _ _ _ => exact Int.le_of_eq hterm.symm
  | count _ _ _ hterm _ _ _ => exact Int.le_of_eq hterm.symm
  | stand _ _ _ _ _ hterm _ _ => omega
  | follow _ hterm _ _ => exact hterm
  | win _ hterm _ => exact Int.le_of_eq hterm.symm

theorem votedTerm_newer (hact : m.before.act m.action = some m.after) {term : Int}
    (hvoted : votedTerm m = some term) :
    m.before.currentTerm < term ∧ m.after.currentTerm = term := by
  unfold votedTerm at hvoted
  split at hvoted
  · rename_i hstands
    cases hvoted
    obtain ⟨_, _, _, _, hterm⟩ := hstands.fires hact
    exact ⟨by omega, rfl⟩
  · split at hvoted
    · rename_i response hreply
      split at hvoted
      · rename_i hgranted
        cases hvoted
        obtain ⟨hnewer, hterm, _⟩ := RaftNode.reply_granted hact hreply hgranted
        exact ⟨hnewer, hterm⟩
      · cases hvoted
    · cases hvoted

end

section
variable {node s : RaftNode} {h : List (Move RaftNode NodeAction)}

theorem currentTerm_le_of_moment (run : Run (nodeRuns node) h s) {x : RaftNode}
    (hx : x ∈ moments h s) : x.currentTerm ≤ s.currentTerm :=
  run.relates_moments (fun _ _ => True) (fun x s => x.currentTerm ≤ s.currentTerm)
    (fun _ => Int.le_refl _)
    (fun _ _ hle _ hact => Int.le_trans hle (currentTerm_le_of_act hact)) (fun _ _ => trivial) hx

theorem votedTerm_le (run : Run (nodeRuns node) h s) {term : Int}
    (hvoted : term ∈ h.filterMap votedTerm) : term ≤ s.currentTerm := by
  obtain ⟨m, hm, heq⟩ := List.mem_filterMap.mp hvoted
  obtain ⟨hact, _, hafter, _⟩ := run.of_mem hm
  rw [← (votedTerm_newer hact heq).2]
  exact currentTerm_le_of_moment run hafter

/-- A node votes at most once per term, and not in a term in which it has stood. -/
theorem votesOnce_of_run (run : Run (nodeRuns node) h s) : VotesOnce h s := by
  refine ⟨?_, ?_⟩
  · rw [List.pairwise_reverse]
    induction run with
    | start => simp [moments]
    | next run hact ih =>
      refine List.pairwise_cons.mpr ⟨fun term hterm => ?_, ih⟩
      obtain ⟨x, hx, rfl⟩ := List.mem_map.mp hterm
      exact Int.le_trans (currentTerm_le_of_moment run hx) (currentTerm_le_of_act hact)
  · rw [List.pairwise_reverse]
    induction run with
    | start => exact .nil
    | next run hact ih =>
      rw [List.filterMap_cons]
      split
      · exact ih
      · rename_i term hvoted
        refine List.pairwise_cons.mpr ⟨fun earlier hearlier => ?_, ih⟩
        exact Int.lt_of_le_of_lt (votedTerm_le run hearlier)
          (votedTerm_newer (m := ⟨_, _, _⟩) hact hvoted).1

end

theorem votesOnce_of_run_deposed :
    ∃ h s, Run (nodeRuns (RaftNode.new "node1" ["node2", "node3"] 7)) h s ∧
      s.currentTerm = 3 ∧ s.votedFor = some "node2" ∧ VotesOnce h s := by
  obtain ⟨h, s, run, _, hterm, hvote⟩ := exists_run_of_exec
    (nodeRuns (RaftNode.new "node1" ["node2", "node3"] 7)) (fun _ _ => True)
    (fun s => s.currentTerm = 3 ∧ s.votedFor = some "node2")
    ([.step .clusterNodesUpEvent none,
        .step (.peerVotesRequestEvent ⟨1, "node2", -1, -1⟩) (some .oneshot)] ++
      List.replicate 7 .tick ++
      [.received, .step (.peerVotesResponseEvent []) none,
        .step (.peerVotesRequestEvent ⟨2, "node3", -1, -1⟩) (some .oneshot),
        .step (.peerVotesRequestEvent ⟨3, "node2", -1, -1⟩) (some .oneshot)])
    (by decide +kernel)
  exact ⟨h, s, run, hterm, hvote, votesOnce_of_run run⟩

end Rafting
