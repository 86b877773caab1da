import Rafting.Membership
import Rafting.NodeRuns

/-! What a node knows of its peers. Its two index maps are never reset: over all its times as a
leader, they hold the last index that a peer has reported and step back from it by one with
every rejection since. -/
namespace Rafting
open Transition Fallible

inductive PeerReport where
  | success (lastAppliedIndex : Int)
  | rejection
deriving DecidableEq

/-- What a leader takes in of a peer in this move. -/
def taken (p : NodeId) (m : Move RaftNode NodeAction) : Option PeerReport :=
  match m.action with
  | .step (.appendEntriesResponseEvent response) none =>
    if response.fromNode = p ∧ m.before.state = .leader ∧
        m.before.currentTerm = response.term then
      some (if response.success then .success response.lastAppliedIndex else .rejection)
    else none
  | _ => none

def lastReported : List PeerReport → Option Int
  | [] => none
  | .success index :: _ => some index
  | .rejection :: rest => lastReported rest

def rejections : List PeerReport → Nat
  | .rejection :: rest => rejections rest + 1
  | _ => 0

structure Recorded (node : RaftNode) (p : NodeId) (reports : List PeerReport) : Prop where
  matched : node.matchIndex p = lastReported reports
  next : node.nextIndex p = (lastReported reports).map fun index : Int =>
    index + 1 - (rejections reports : Int)

namespace Recorded
open RaftNode
variable {node node' : RaftNode} {action : NodeAction} {p : NodeId} {reports : List PeerReport}

theorem same (hrec : Recorded node p reports) (hnext : node'.nextIndex = node.nextIndex)
    (hmatch : node'.matchIndex = node.matchIndex) : Recorded node' p reports :=
  ⟨hmatch ▸ hrec.matched, hnext ▸ hrec.next⟩

theorem reply (hrec : Recorded node p reports) {response : AppendEntriesResponse}
    (hstep : node.stepAppendEntriesResponse response = .ok node') :
    Recorded node' p
      ((taken p ⟨node, .step (.appendEntriesResponseEvent response) none, node'⟩).toList ++
        reports) := by
  simp only [taken]
  by_cases hlead : node.state = .leader ∧ node.currentTerm = response.term
  case neg =>
    rw [if_neg fun h => hlead h.2]
    rcases stepAppendEntriesResponse_cases hstep with ⟨_, _, rfl⟩ | rfl | ⟨hleader, hterm, _⟩ |
      ⟨hleader, hterm, _⟩
    · exact hrec.same rfl rfl
    · exact hrec
    · exact absurd ⟨hleader, hterm⟩ hlead
    · exact absurd ⟨hleader, hterm⟩ hlead
  cases hsuccess : response.success with
  | true =>
    have hmax : response.lastAppliedIndex < i64Max := by
      by_contra hmax
      rw [stepAppendEntriesResponse_error_iff.mpr
        ⟨hlead.1, hlead.2, Or.inl ⟨hsuccess, Int.not_lt.mp hmax, rfl⟩⟩] at hstep
      cases hstep
    rw [stepAppendEntriesResponse_success hlead.1 hlead.2 hsuccess hmax] at hstep
    cases hstep
    by_cases hfrom : response.fromNode = p
    · rw [if_pos ⟨hfrom, hlead⟩]
      subst hfrom
      constructor <;> simp [lastReported, rejections]
    · rw [if_neg fun h => hfrom h.1]
      have hne : p ≠ response.fromNode := fun h => hfrom h.symm
      constructor
      · simpa [hne] using hrec.matched
      · simpa [hne] using hrec.next
  | false =>
    rcases hnext : node.nextIndex response.fromNode with _ | n
    · rw [stepAppendEntriesResponse_error_iff.mpr
        ⟨hlead.1, hlead.2, Or.inr (Or.inl ⟨hsuccess, hnext, rfl⟩)⟩] at hstep
      cases hstep
    by_cases hmin : n = i64Min
    · rw [stepAppendEntriesResponse_error_iff.mpr
        ⟨hlead.1, hlead.2, Or.inr (Or.inr ⟨hsuccess, hmin ▸ hnext, rfl⟩)⟩] at hstep
      cases hstep
    rw [stepAppendEntriesResponse_reject hlead.1 hlead.2 hsuccess hnext hmin] at hstep
    cases hstep
    by_cases hfrom : response.fromNode = p
    · rw [if_pos ⟨hfrom, hlead⟩]
      subst hfrom
      refine ⟨hrec.matched, ?_⟩
      obtain ⟨index, hindex, hn⟩ := Option.map_eq_some_iff.mp (hrec.next.symm.trans hnext)
      simp only [Option.toList_some, List.cons_append, List.nil_append, lastReported, rejections,
        Function.update_self, hindex, Option.map_some, Option.some.injEq, Bool.false_eq_true, if_false]
      omega
    · rw [if_neg fun h => hfrom h.1]
      have hne : p ≠ response.fromNode := fun h => hfrom h.symm
      refine ⟨hrec.matched, ?_⟩
      simpa [hne] using hrec.next

theorem act (hrec : Recorded node p reports) (h : node.act action = some node') :
    Recorded node' p ((taken p ⟨node, action, node'⟩).toList ++ reports) := by
  cases action with
  | tick =>
    rcases tick_cases (act_tick.mp h) with ⟨_, rfl⟩ | ⟨_, _, _, rfl⟩ | ⟨_, _, hcandidate⟩
    · exact hrec.same rfl rfl
    · exact hrec.same rfl rfl
    · obtain ⟨_, _, _, _, _, _, _, hnext, hmatch, _⟩ := becomeCandidate_ok hcandidate
      exact hrec.same hnext hmatch
  | client event =>
    obtain ⟨log, hlog⟩ := handleClientRequest_node node event
    cases h
    rw [hlog]
    exact hrec.same rfl rfl
  | received =>
    obtain ⟨_, _, _, rfl⟩ := act_received h
    exact hrec.same rfl rfl
  | step event sender =>
    obtain ⟨reply, hstep, _⟩ := act_step h
    by_cases hevent : ∃ response, event = .appendEntriesResponseEvent response ∧ sender = none
    case pos =>
      obtain ⟨response, rfl, rfl⟩ := hevent
      obtain ⟨next, hreply, hnode⟩ := ok_of_bind hstep
      cases hnode
      exact hrec.reply hreply
    have hnone : taken p ⟨node, .step event sender, node'⟩ = none := by
      unfold taken
      split
      · rename_i response hact
        cases hact
        exact absurd ⟨response, rfl, rfl⟩ hevent
      · rfl
    rw [hnone]
    rcases step_cases hstep with ⟨req, rfl, rfl, _⟩ | ⟨req, rfl, rfl, _⟩ |
      ⟨_, response, rfl, hreply⟩ | ⟨_, responses, rfl, rfl⟩ | ⟨_, ready, rfl⟩
    · rw [stepPeerVotesRequest_eq]
      split <;> exact hrec.same rfl rfl
    · exact hrec.same (by simp) (by simp)
    · cases sender with
      | none => exact absurd ⟨response, rfl, rfl⟩ hevent
      | some _ => cases hstep
    · rcases stepPeerVotesResponse_cases node responses with ⟨_, heq⟩ | ⟨_, heq⟩
      · rw [heq]
        exact hrec.same rfl rfl
      · rw [heq]
        exact hrec.same rfl rfl
    · exact hrec.same rfl rfl

end Recorded

/-- In every run of a node, over all the times that it leads, its maps hold what it has taken in
of each peer. -/
theorem recorded_of_run {id : NodeId} {peers : List NodeId} {timeout : Nat}
    {h : List (Move RaftNode NodeAction)} {node : RaftNode}
    (run : Run (nodeRuns (RaftNode.new id peers timeout)) h node) (p : NodeId) :
    Recorded node p (h.filterMap (taken p)) := by
  apply run.induct (fun h node => Recorded node p (h.filterMap (taken p))) ⟨rfl, rfl⟩
  intro h node node' action _ hrec hact
  have hnext := hrec.act hact
  rw [List.filterMap_cons]
  cases htaken : taken p ⟨node, action, node'⟩ with
  | none => simpa [htaken] using hnext
  | some report => simpa [htaken] using hnext

theorem recorded_of_run_reelected :
    ∃ h node, Run (nodeRuns (RaftNode.new "node1" ["node2"] 7)) h node ∧
      node.nextIndex "node2" = some 2 ∧ node.matchIndex "node2" = some 3 ∧
      Recorded node "node2" (h.filterMap (taken "node2")) := by
  obtain ⟨h, node, run, _, hnext, hmatch⟩ := exists_run_of_exec
    (nodeRuns (RaftNode.new "node1" ["node2"] 7)) (fun _ _ => True)
    (fun node => node.nextIndex "node2" = some 2 ∧ node.matchIndex "node2" = some 3)
    (.step .clusterNodesUpEvent none :: List.replicate 7 .tick ++
      [.step (.peerVotesResponseEvent [⟨"node2", 1, true⟩]) none,
        .step (.appendEntriesResponseEvent ⟨"node2", 1, true, 3⟩) none,
        .step (.appendEntriesResponseEvent ⟨"node2", 1, false, 2⟩) none,
        .step (.appendEntriesResponseEvent ⟨"node2", 2, false, 2⟩) none] ++
      List.replicate 7 .tick ++
      [.step (.peerVotesResponseEvent [⟨"node2", 3, true⟩]) none,
        .step (.appendEntriesResponseEvent ⟨"node2", 3, false, 2⟩) none])
    (by decide +kernel)
  exact ⟨h, node, run, hnext, hmatch, recorded_of_run run "node2"⟩

/-! ## Members -/

/-- What a member has taken in of a peer in this move of a cluster. -/
def heard (a p : NodeId) (m : Move Cluster Action) : Option PeerReport :=
  match m.before.received m.action with
  | some (v, response) =>
    if v = a then
      ((m.before.node a).stepAppendEntriesResponse response).toOption.bind fun node' =>
        taken p ⟨m.before.node a, .step (.appendEntriesResponseEvent response) none, node'⟩
    else none
  | none => none

theorem heard_of_received {c c' : Cluster} {act : Action} {a p : NodeId}
    {response : AppendEntriesResponse} {node' : RaftNode}
    (hreceived : c.received act = some (a, response))
    (hreply : (c.node a).stepAppendEntriesResponse response = .ok node') :
    heard a p ⟨c, act, c'⟩ =
      taken p ⟨c.node a, .step (.appendEntriesResponseEvent response) none, node'⟩ := by
  simp only [heard, hreceived, if_true, hreply]
  rfl

theorem heard_eq_none {c c' : Cluster} {act : Action} {a p : NodeId}
    (hnone : ∀ response node', c.received act = some (a, response) →
      (c.node a).stepAppendEntriesResponse response ≠ .ok node') :
    heard a p ⟨c, act, c'⟩ = none := by
  unfold heard
  split
  · rename_i v response hreceived
    split
    · rename_i hv
      subst hv
      cases hreply : (c.node v).stepAppendEntriesResponse response with
      | error _ => rfl
      | ok node' => exact absurd hreply (hnone response node' hreceived)
    · rfl
  · rfl

theorem recorded_of_cluster {cfg : Config} {h : List (Move Cluster Action)} {c : Cluster}
    (run : Run (cluster cfg) h c) (a p : NodeId) :
    Recorded (c.node a) p (h.filterMap (heard a p)) := by
  apply run.induct (fun h c => Recorded (c.node a) p (h.filterMap (heard a p)))
  · rw [Cluster.cluster_init, Cluster.node_initial]
    exact ⟨rfl, rfl⟩
  · intro h c c' act _ hrec hstep
    have hcons : (⟨c, act, c'⟩ :: h).filterMap (heard a p) =
        (heard a p ⟨c, act, c'⟩).toList ++ h.filterMap (heard a p) := by
      rw [List.filterMap_cons]
      cases heard a p ⟨c, act, c'⟩ <;> rfl
    rw [hcons]
    by_cases hhears : ∃ response node', c.received act = some (a, response) ∧
        (c.node a).stepAppendEntriesResponse response = .ok node'
    · obtain ⟨response, node', hreceived, hreply⟩ := hhears
      rw [heard_of_received hreceived hreply, Cluster.node_of_received hstep hreceived hreply]
      exact hrec.reply hreply
    · have hsilent : ∀ response node', c.received act = some (a, response) →
          (c.node a).stepAppendEntriesResponse response ≠ .ok node' :=
        fun response node' hreceived hreply => hhears ⟨response, node', hreceived, hreply⟩
      rw [heard_eq_none hsilent]
      cases Cluster.record_move hstep a with
      | keep hnext hmatch => exact hrec.same hnext hmatch
      | record _ _ response hact hphase hreply =>
        exact absurd hreply (hsilent response _ (Cluster.received_eq_some hact hphase))
      | reject _ _ response _ hact hphase hreply =>
        exact absurd hreply (hsilent response _ (Cluster.received_eq_some hact hphase))

end Rafting
