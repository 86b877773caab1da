import Rafting.AppendContract

/-! The terms that requests bring. The handler of `AppendEntries` moves to a newer term
unless the node is a follower, and does not depose a candidate of the same term. A follower
that is behind appends entries of a term that it is not in. -/
namespace Rafting
open Transition

def RaftNode.AdoptsRequest (node : RaftNode) (req : AppendEntriesRequest) : Prop :=
  ∃ node' reply, node.step (.appendEntriesRequestEvent req, some .oneshot) = .ok (node', reply) ∧
    node'.state = .follower ∧ node'.currentTerm = req.term

/-- A request that is not older than the node, and not of the node's own term of office. -/
def RaftNode.Recognizes (node : RaftNode) (req : AppendEntriesRequest) : Prop :=
  node.currentTerm ≤ req.term ∧ ¬(node.state = .leader ∧ node.currentTerm = req.term)

/-- Followers are sent requests of their own term, and other nodes requests of newer ones. -/
def RaftNode.MeetsTerm (node : RaftNode) (req : AppendEntriesRequest) : Prop :=
  node.state = .follower ↔ node.currentTerm = req.term

def MeetsTerms (c : Cluster) (act : Action) : Prop :=
  ∀ x ∈ c.handledAppend act, (c.node x.1).Recognizes x.2 → (c.node x.1).MeetsTerm x.2

def TermsBounded (c : Cluster) : Prop :=
  ∀ a, ∀ e ∈ (c.node a).log.inner, e.term ≤ (c.node a).currentTerm

instance (node : RaftNode) (req : AppendEntriesRequest) : Decidable (node.Recognizes req) :=
  inferInstanceAs (Decidable (_ ∧ ¬(_ ∧ _)))

instance (node : RaftNode) (req : AppendEntriesRequest) : Decidable (node.MeetsTerm req) :=
  inferInstanceAs (Decidable (_ ↔ _))

instance (c : Cluster) (act : Action) : Decidable (MeetsTerms c act) :=
  inferInstanceAs (Decidable (∀ x ∈ c.handledAppend act, _ → _))

namespace RaftNode

variable {node : RaftNode} {req : AppendEntriesRequest}

theorem adoptsRequest_iff_adoptTerm : node.AdoptsRequest req ↔
    (node.adoptTerm req).state = .follower ∧ (node.adoptTerm req).currentTerm = req.term := by
  simp [AdoptsRequest, step]

theorem adoptsRequest_iff_meetsTerm (hrecognizes : node.Recognizes req) :
    node.AdoptsRequest req ↔ node.MeetsTerm req := by
  obtain ⟨hle, hown⟩ := hrecognizes
  rw [adoptsRequest_iff_adoptTerm, MeetsTerm]
  rcases adoptTerm_cases node req with ⟨hlt, hrole, heq⟩ | ⟨hguard, heq⟩
  · have hne : node.currentTerm ≠ req.term := by omega
    simp [heq, becomeFollower, hrole, hne]
  · rw [heq]
    by_cases hrole : node.state = .follower
    · simp [hrole]
    · -- the node is no follower, so the guard fails on the term
      have hterm : node.currentTerm = req.term := by
        by_contra hne
        exact hguard ⟨by omega, hrole⟩
      simp [hrole, hterm]

theorem le_adoptTerm_of_meets (hmeets : node.Recognizes req → node.MeetsTerm req) :
    req.term ≤ (node.adoptTerm req).currentTerm := by
  by_cases hle : node.currentTerm ≤ req.term
  · by_cases hown : node.state = .leader ∧ node.currentTerm = req.term
    · have hmono := node.le_adoptTerm_currentTerm req
      omega
    · have hrecognizes : node.Recognizes req := ⟨hle, hown⟩
      have hadopts := (adoptsRequest_iff_meetsTerm hrecognizes).mpr (hmeets hrecognizes)
      exact Int.le_of_eq (adoptsRequest_iff_adoptTerm.mp hadopts).2.symm
  · have hmono := node.le_adoptTerm_currentTerm req
    omega

end RaftNode

theorem termsBounded_of_run {cfg : Config} {h : List (Move Cluster Action)} {c : Cluster}
    (run : Run (cluster cfg) h c) (hm : Meets MeetsTerms h) :
    ∀ x ∈ moments h c, TermsBounded x := by
  apply run.invariant_moments MeetsTerms TermsBounded ?_ ?_ hm
  · intro a e he
    rw [Cluster.cluster_init, Cluster.node_initial] at he
    cases he
  · intro h c c' act run hm inv hcond hstep a e he
    have hnow := inv c (mem_moments_self h c) a
    have hmono := Cluster.currentTerm_mono hstep a
    cases Cluster.log_move hstep a with
    | keep hlog => exact Int.le_trans (hnow e (hlog ▸ he)) hmono
    | client command _ _ _ hterm hlog =>
      rw [hlog] at he
      rcases List.mem_append.mp he with he | he
      · exact Int.le_trans (hnow e he) hmono
      · rw [List.mem_singleton.mp he, hterm]
        exact Int.le_refl _
    | append req hhandled happends =>
      obtain ⟨_, b, hissued⟩ := issued_of_handled run hstep hhandled
      obtain ⟨y, hy, hissues, hvouched⟩ := hissued.vouched run
      have hnode := Cluster.node_of_append hstep hhandled
      rw [hnode, RaftNode.stepAppendEntriesRequest_log, RaftNode.log_of_appends happends] at he
      rcases List.mem_append.mp he with he | he
      · exact Int.le_trans (hnow e (List.mem_of_mem_take he)) hmono
      · -- the entries were in the sender's log, when it led the request's term
        rw [hvouched.entries] at he
        have hle := inv y hy b e (List.mem_of_mem_drop he)
        have hmeets := RaftNode.le_adoptTerm_of_meets
          (hcond _ (Cluster.handledAppend_eq_some.mpr hhandled))
        rw [hnode, RaftNode.stepAppendEntriesRequest_currentTerm]
        rw [← hissues.header.2.1] at hle
        exact Int.le_trans hle hmeets

/-- A node adopts the term of a request that it recognizes exactly if it meets the term; and
where all nodes do, no log is ahead of its node's term. -/
theorem termAdoption (cfg : Config) :
    (∀ (node : RaftNode) req, node.Recognizes req → (node.AdoptsRequest req ↔ node.MeetsTerm req)) ∧
    (∀ h c, Run (cluster cfg) h c → Meets MeetsTerms h → TermsBounded c) :=
  ⟨fun _ _ hrecognizes => RaftNode.adoptsRequest_iff_meetsTerm hrecognizes,
    fun h c run hm => termsBounded_of_run run hm c (mem_moments_self h c)⟩

theorem termAdoption_replicated :
    { RaftNode.conflictingTail with state := .candidate }.AdoptsRequest (RaftNode.appendAfter 1 2) ∧
    ∃ h c, Run (cluster twoNodes) h c ∧ (c.node "node2").log.len = 1 ∧ TermsBounded c := by
  constructor
  · exact ((termAdoption twoNodes).1 _ _ (by decide)).mpr (by decide)
  · obtain ⟨h, c, run, hm, hlen⟩ := exists_run_of_exec (cluster twoNodes) MeetsTerms
      (fun c => (c.node "node2").log.len = 1)
      (twoNodes.allUp ++ electionTimeout "node1" ++ exchange "node1" ["node2"] ++
        exchange "node1" ["node2"] ++ [.client "node1" ⟨"x", "1"⟩] ++ heartbeatTimeout "node1" ++
        exchange "node1" ["node2"]) (by decide +kernel)
    exact ⟨h, c, run, hlen, (termAdoption twoNodes).2 _ _ run hm⟩

def electedUnheard : List Action :=
  threeNodes.allUp ++ electionTimeout "node1" ++
    [.send "node1", .deliver "node1" "node2", .fail "node1" "node3" "unavailable", .resume "node1"]

/-- A follower stays behind a newer request; `node3` has an entry of term 1 in term 0. -/
theorem not_termAdoption :
    (RaftNode.conflictingTail.Recognizes (RaftNode.appendAfter 1 2) ∧
      ¬RaftNode.conflictingTail.AdoptsRequest (RaftNode.appendAfter 1 2)) ∧
    ∃ h c, Run (cluster threeNodes) h c ∧ ¬TermsBounded c := by
  constructor
  · exact ⟨by decide, fun h => absurd (RaftNode.adoptsRequest_iff_adoptTerm.mp h) (by decide)⟩
  · obtain ⟨h, c, run, _, e, he, hlt⟩ := exists_run_of_exec (cluster threeNodes) (fun _ _ => True)
      (fun c => ∃ e ∈ (c.node "node3").log.inner, (c.node "node3").currentTerm < e.term)
      (electedUnheard ++ [.client "node1" ⟨"x", "1"⟩] ++ heartbeatTimeout "node1" ++
        exchange "node1" ["node2"] ++ exchange "node1" ["node3"] ++ exchange "node1" ["node2"] ++
        exchange "node1" ["node3"]) (by decide +kernel)
    refine ⟨h, c, run, fun hbounded => ?_⟩
    have hle := hbounded "node3" e he
    omega

end Rafting
