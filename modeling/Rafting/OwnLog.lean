import Rafting.Membership
import Rafting.Library.ListPrefix

/-! What a node does to its own log and commit index. Only the `AppendEntries`
handler cuts a log, and it looks neither at the role nor at the commit index. -/
namespace Rafting
open Transition ListPrefix

def RaftNode.committed (node : RaftNode) : List LogEntry :=
  node.log.inner.take (node.commitIndex + 1).toNat

theorem RaftNode.committed_isPrefix (node : RaftNode) : node.committed <+: node.log.inner :=
  List.take_prefix _ _

theorem RaftNode.log_of_appends {log : RaftLog} {req : AppendEntriesRequest}
    (h : Appends log req) :
    ((appendLog log req).getD log).inner =
      log.inner.take (appendPosition req) ++ req.entries := by
  rw [appendLog_getD, if_pos h]
  rfl

/-! ## Leaders -/

/-- A node that leads before and after a step, in one term, only extends its log. -/
def LeaderAppendOnly (h : List (Move Cluster Action)) : Prop :=
  ∀ m ∈ h, ∀ a, (m.before.node a).state = .leader → (m.after.node a).state = .leader →
    (m.before.node a).currentTerm = (m.after.node a).currentTerm →
    (m.before.node a).log.inner <+: (m.after.node a).log.inner

/-- A request whose entries go into the log of a leader that it does not depose
carries all that the leader's log has from their position on. -/
def KeepsLeaderLog (c : Cluster) (act : Action) : Prop :=
  ∀ x ∈ c.handledAppend act, (c.node x.1).state = .leader →
    x.2.term ≤ (c.node x.1).currentTerm → RaftNode.Appends (c.node x.1).log x.2 →
    (c.node x.1).log.inner.drop (RaftNode.appendPosition x.2) <+: x.2.entries

instance (c : Cluster) (act : Action) : Decidable (KeepsLeaderLog c act) :=
  inferInstanceAs (Decidable (∀ x ∈ c.handledAppend act, _ → _ → _ → _))

theorem KeepsLeaderLog.isPrefix {c : Cluster} {act : Action} (hkeeps : KeepsLeaderLog c act)
    {v : NodeId} {req : AppendEntriesRequest}
    (hhandled : c.handled act = some (v, .appendEntriesRequestEvent req))
    (hstate : (c.node v).state = .leader) (hterm : req.term ≤ (c.node v).currentTerm) :
    (c.node v).log.inner <+:
      ((RaftNode.appendLog (c.node v).log req).getD (c.node v).log).inner := by
  by_cases happends : RaftNode.Appends (c.node v).log req
  · rw [RaftNode.log_of_appends happends, prefix_take_append_iff (List.prefix_refl _)]
    exact hkeeps _ (Cluster.handledAppend_eq_some.mpr hhandled) hstate hterm happends
  · simp only [RaftNode.appendLog_getD, if_neg happends, List.prefix_refl]

theorem keepsLeaderLog_of_isPrefix {c c' : Cluster} {act : Action} (hstep : c.step act = some c')
    (hpre : ∀ a, (c.node a).state = .leader → (c'.node a).state = .leader →
      (c.node a).currentTerm = (c'.node a).currentTerm →
      (c.node a).log.inner <+: (c'.node a).log.inner) : KeepsLeaderLog c act := by
  rintro ⟨v, req⟩ hhandled hstate hterm happends
  have hnode := Cluster.node_of_append hstep (Cluster.handledAppend_eq_some.mp hhandled)
  have hadopt : (c.node v).adoptTerm req = c.node v := by
    rcases RaftNode.adoptTerm_cases (c.node v) req with ⟨hlt, _, _⟩ | ⟨_, heq⟩
    · dsimp only at hterm
      omega
    · exact heq
  have hlog := hpre v hstate (by simpa [hnode, hadopt] using hstate) (by simp [hnode, hadopt])
  rw [hnode, RaftNode.stepAppendEntriesRequest_log, RaftNode.log_of_appends happends] at hlog
  exact (prefix_take_append_iff (List.prefix_refl _) _).mp hlog

theorem KeepsLeaderLog.log_isPrefix {c c' : Cluster} {act : Action} (hkeeps : KeepsLeaderLog c act)
    (hstep : c.step act = some c') {a : NodeId} (hbefore : (c.node a).state = .leader)
    (hafter : (c'.node a).state = .leader) : (c.node a).log.inner <+: (c'.node a).log.inner := by
  cases Cluster.leader_move hstep hafter with
  | keep _ _ _ _ hlog => exact hlog ▸ List.prefix_refl _
  | client command _ _ _ _ _ hlog =>
    rw [hlog]
    exact List.prefix_append _ _
  | append req hhandled _ hle _ _ _ hlog =>
    rw [hlog]
    exact hkeeps.isPrefix hhandled hbefore hle
  | record _ _ _ _ _ _ _ _ _ _ _ _ hlog => exact hlog ▸ List.prefix_refl _
  | reject _ _ _ _ _ _ _ _ _ _ _ _ _ hlog => exact hlog ▸ List.prefix_refl _
  | win _ _ _ _ _ _ _ _ hlog => exact hlog ▸ List.prefix_refl _

theorem leaderAppendOnly_iff {cfg : Config} {h : List (Move Cluster Action)} {c : Cluster}
    (run : Run (cluster cfg) h c) : LeaderAppendOnly h ↔ Meets KeepsLeaderLog h := by
  constructor
  · intro honly m hm
    obtain ⟨hstep, _⟩ := run.of_mem hm
    exact keepsLeaderLog_of_isPrefix hstep (honly m hm)
  · intro hkeeps m hm a hbefore hafter _
    obtain ⟨hstep, _⟩ := run.of_mem hm
    exact (hkeeps m hm).log_isPrefix hstep hbefore hafter

/-- `node1` queues its entry for `node2` twice in term 1, and commits it on the reply to the first
request. The second one goes out when `node2` leads term 2, with the entry queued for `node1`. -/
def requestAgain : List Action :=
  twoNodes.allUp ++ electionTimeout "node1" ++ exchange "node1" ["node2"] ++
    exchange "node1" ["node2"] ++ [.client "node1" ⟨"x", "1"⟩] ++ heartbeatTimeout "node1" ++
    heartbeatTimeout "node1" ++ exchange "node1" ["node2"] ++ electionTimeout "node2" ++
    exchange "node2" ["node1"] ++ heartbeatTimeout "node2" ++ [.send "node1"]

/-- The leader of term 2 appends the request of term 1, which has all of its log. -/
theorem leaderAppendOnly_iff_queued :
    ∃ h c, Run (cluster twoNodes) h c ∧
      (∃ m ∈ h, ∃ x ∈ m.before.handledAppend m.action, (m.before.node x.1).state = .leader ∧
        (m.before.node x.1).log.len = 1 ∧ x.2.term < (m.before.node x.1).currentTerm ∧
        RaftNode.Appends (m.before.node x.1).log x.2) ∧
      LeaderAppendOnly h := by
  obtain ⟨h, c, c', run, hm, hkeeps, happends⟩ := exists_move_of_exec
    (cluster twoNodes) KeepsLeaderLog
    (fun c _ => KeepsLeaderLog c (.deliver "node1" "node2") ∧
      ∃ x ∈ c.handledAppend (.deliver "node1" "node2"), (c.node x.1).state = .leader ∧
        (c.node x.1).log.len = 1 ∧ x.2.term < (c.node x.1).currentTerm ∧
        RaftNode.Appends (c.node x.1).log x.2)
    requestAgain (.deliver "node1" "node2") (by decide +kernel)
  exact ⟨_, c', run, ⟨_, List.mem_cons_self, happends⟩,
    (leaderAppendOnly_iff run).mpr (meets_cons.mpr ⟨hkeeps, hm⟩)⟩

/-- `node1` queues its entry for `node2` in term 1. Then `node2` is elected in term 2,
accepts another entry, and commits it on the reply to its empty first request. -/
def queuedAppend : List Action :=
  twoNodes.allUp ++ electionTimeout "node1" ++ exchange "node1" ["node2"] ++
    exchange "node1" ["node2"] ++ [.client "node1" ⟨"x", "1"⟩] ++ heartbeatTimeout "node1" ++
    electionTimeout "node2" ++ exchange "node2" ["node1"] ++ [.client "node2" ⟨"y", "2"⟩] ++
    exchange "node2" ["node1"] ++ [.send "node1"]

theorem not_leaderAppendOnly :
    ∃ h c, Run (cluster twoNodes) h c ∧ ¬LeaderAppendOnly h := by
  obtain ⟨h, c, c', run, _, hbefore, hafter, hterm, hlog⟩ := exists_move_of_exec
    (cluster twoNodes) (fun _ _ => True)
    (fun c c' => (c.node "node2").state = .leader ∧ (c'.node "node2").state = .leader ∧
      (c.node "node2").currentTerm = (c'.node "node2").currentTerm ∧
      ¬(c.node "node2").log.inner <+: (c'.node "node2").log.inner)
    queuedAppend (.deliver "node1" "node2") (by decide +kernel)
  refine ⟨_, c', run, fun honly => ?_⟩
  exact hlog (honly _ List.mem_cons_self "node2" hbefore hafter hterm)

/-! ## Committed entries -/

/-- No commit index lies behind the end of its log, and no step lowers a node's commit
index or takes a committed entry away. -/
structure CommittedStable (h : List (Move Cluster Action)) (c : Cluster) : Prop where
  applied : ∀ x ∈ moments h c, ∀ a, (x.node a).commitIndex ≤ (x.node a).lastAppliedIndex
  mono : ∀ m ∈ h, ∀ a, (m.before.node a).commitIndex ≤ (m.after.node a).commitIndex
  entries : ∀ m ∈ h, ∀ a (i : Nat) entry, (i : Int) ≤ (m.before.node a).commitIndex →
    (m.before.node a).log.get i = some entry → (m.after.node a).log.get i = some entry

/-- A request whose entries go into a log carries all that the node has committed
from their position on. -/
def KeepsCommitted (c : Cluster) (act : Action) : Prop :=
  ∀ x ∈ c.handledAppend act, RaftNode.Appends (c.node x.1).log x.2 →
    (c.node x.1).committed.drop (RaftNode.appendPosition x.2) <+: x.2.entries

instance (c : Cluster) (act : Action) : Decidable (KeepsCommitted c act) :=
  inferInstanceAs (Decidable (∀ x ∈ c.handledAppend act, _ → _))

theorem RaftNode.committed_isPrefix_iff {node : RaftNode} {log : List LogEntry} :
    node.committed <+: log ↔ ∀ (i : Nat) entry, (i : Int) ≤ node.commitIndex →
      node.log.get i = some entry → log[i]? = some entry := by
  rw [RaftNode.committed, take_prefix_iff_getElem?]
  constructor
  · intro h i entry hi hget
    exact h i entry (by omega) hget
  · intro h i entry hi hget
    exact h i entry (by omega) hget

theorem KeepsCommitted.isPrefix {c : Cluster} {act : Action} (hkeeps : KeepsCommitted c act)
    {v : NodeId} {req : AppendEntriesRequest}
    (hhandled : c.handled act = some (v, .appendEntriesRequestEvent req)) :
    (c.node v).committed <+:
      ((RaftNode.appendLog (c.node v).log req).getD (c.node v).log).inner := by
  by_cases happends : RaftNode.Appends (c.node v).log req
  · rw [RaftNode.log_of_appends happends, prefix_take_append_iff (c.node v).committed_isPrefix]
    exact hkeeps _ (Cluster.handledAppend_eq_some.mpr hhandled) happends
  · rw [RaftNode.appendLog_getD, if_neg happends]
    exact (c.node v).committed_isPrefix

theorem keepsCommitted_of_isPrefix {c c' : Cluster} {act : Action} (hstep : c.step act = some c')
    (hpre : ∀ a, (c.node a).committed <+: (c'.node a).log.inner) : KeepsCommitted c act := by
  rintro ⟨v, req⟩ hhandled happends
  have hnode := Cluster.node_of_append hstep (Cluster.handledAppend_eq_some.mp hhandled)
  have hlog := hpre v
  rw [hnode, RaftNode.stepAppendEntriesRequest_log, RaftNode.log_of_appends happends] at hlog
  exact (prefix_take_append_iff (c.node v).committed_isPrefix _).mp hlog

theorem KeepsCommitted.step {c c' : Cluster} {act : Action} (hkeeps : KeepsCommitted c act)
    (hstep : c.step act = some c') {a : NodeId}
    (happlied : (c.node a).commitIndex ≤ (c.node a).lastAppliedIndex) :
    (c.node a).committed <+: (c'.node a).log.inner ∧
      (c.node a).commitIndex ≤ (c'.node a).commitIndex ∧
      (c'.node a).commitIndex ≤ (c'.node a).lastAppliedIndex := by
  simp only [RaftNode.lastAppliedIndex] at happlied ⊢
  cases Cluster.commit_move hstep a with
  | keep hcommit hlog =>
    rw [hcommit, hlog]
    exact ⟨(c.node a).committed_isPrefix, Int.le_refl _, happlied⟩
  | client command _ hcommit hlog =>
    rw [hcommit, hlog]
    refine ⟨(c.node a).committed_isPrefix.trans (List.prefix_append _ _), Int.le_refl _, ?_⟩
    simp only [RaftLog.lastLogIndex, RaftLog.len, RaftLog.append, List.length_append] at happlied ⊢
    push_cast
    omega
  | append req hhandled hlog hcommit =>
    have hpre : (c.node a).committed <+: (c'.node a).log.inner := by
      rw [hlog]
      exact hkeeps.isPrefix hhandled
    have hlength := hpre.length_le
    simp only [RaftNode.committed, List.length_take, RaftLog.lastLogIndex, RaftLog.len]
      at hlength happlied hcommit ⊢
    refine ⟨hpre, ?_⟩
    split at hcommit <;> omega
  | count req peer response ci _ _ _ _ _ hle hlt _ hlog hcommit =>
    rw [hcommit, hlog]
    refine ⟨(c.node a).committed_isPrefix, hle, ?_⟩
    simp only [RaftLog.lastLogIndex]
    omega

theorem RaftNode.committed_eq {node node' : RaftNode} (hpre : node.committed <+: node'.log.inner)
    (happlied : node.commitIndex ≤ node.lastAppliedIndex)
    (hcommit : node'.commitIndex = node.commitIndex) : node'.committed = node.committed := by
  have hlength : node.committed.length = (node.commitIndex + 1).toNat := by
    simp only [lastAppliedIndex, RaftLog.lastLogIndex, RaftLog.len] at happlied
    simp only [committed, List.length_take]
    omega
  rw [List.prefix_iff_eq_take.mp hpre, hlength, committed, hcommit]

theorem applied_of_run {cfg : Config} {h : List (Move Cluster Action)} {c : Cluster}
    (run : Run (cluster cfg) h c) (hm : Meets KeepsCommitted h) :
    ∀ x ∈ moments h c, ∀ a, (x.node a).commitIndex ≤ (x.node a).lastAppliedIndex := by
  apply run.invariant_moments KeepsCommitted
    (fun x => ∀ a, (x.node a).commitIndex ≤ (x.node a).lastAppliedIndex) ?_ ?_ hm
  · intro a
    rw [Cluster.cluster_init, Cluster.node_initial]
    exact Int.le_refl _
  · intro h c c' act _ _ inv hkeeps hstep a
    exact (hkeeps.step hstep (inv c (mem_moments_self h c) a)).2.2

theorem committed_of_mem_moments {cfg : Config} {h : List (Move Cluster Action)} {c x : Cluster}
    (run : Run (cluster cfg) h c) (hm : Meets KeepsCommitted h) (hx : x ∈ moments h c)
    (a : NodeId) : (x.node a).committed <+: (c.node a).committed := by
  apply run.relates_moments KeepsCommitted
    (fun x c => (x.node a).committed <+: (c.node a).committed) ?_ ?_ hm hx
  · exact fun _ => List.prefix_refl _
  · intro h x c c' act run hm hbefore hkeeps hstep
    have happlied := applied_of_run run hm c (mem_moments_self h c) a
    obtain ⟨hpre, hle, _⟩ := hkeeps.step hstep happlied
    apply hbefore.trans
    apply List.prefix_take_iff.mpr ⟨hpre, ?_⟩
    simp only [RaftNode.committed, List.length_take]
    omega

theorem committedStable_iff {cfg : Config} {h : List (Move Cluster Action)} {c : Cluster}
    (run : Run (cluster cfg) h c) : CommittedStable h c ↔ Meets KeepsCommitted h := by
  constructor
  · intro hstable m hm
    obtain ⟨hstep, _⟩ := run.of_mem hm
    exact keepsCommitted_of_isPrefix hstep fun a =>
      RaftNode.committed_isPrefix_iff.mpr (hstable.entries m hm a)
  · intro hkeeps
    have happlied := applied_of_run run hkeeps
    have hmove : ∀ m ∈ h, ∀ a, _ := fun m hm a =>
      (hkeeps m hm).step (run.of_mem hm).1 (happlied _ (run.of_mem hm).2.1 a)
    exact ⟨happlied, fun m hm a => (hmove m hm a).2.1,
      fun m hm a => RaftNode.committed_isPrefix_iff.mp (hmove m hm a).1⟩

/-- The request of `node2` then replaces the committed entry of `node1` with itself. -/
theorem committedStable_iff_queued :
    ∃ h c, Run (cluster twoNodes) h c ∧
      (∃ m ∈ h, ∃ x ∈ m.before.handledAppend m.action, (m.before.node x.1).commitIndex = 0 ∧
        x.2.prevLogIndex = -1 ∧ RaftNode.Appends (m.before.node x.1).log x.2) ∧
      CommittedStable h c := by
  obtain ⟨h, c, c', run, hm, hkeeps, happends⟩ := exists_move_of_exec
    (cluster twoNodes) KeepsCommitted
    (fun c _ => KeepsCommitted c (.deliver "node2" "node1") ∧
      ∃ x ∈ c.handledAppend (.deliver "node2" "node1"), (c.node x.1).commitIndex = 0 ∧
        x.2.prevLogIndex = -1 ∧ RaftNode.Appends (c.node x.1).log x.2)
    (requestAgain ++ [.deliver "node1" "node2", .resume "node1"] ++ exchange "node2" ["node1"] ++
      [.send "node2"])
    (.deliver "node2" "node1") (by decide +kernel)
  exact ⟨_, c', run, ⟨_, List.mem_cons_self, happends⟩,
    (committedStable_iff run).mpr (meets_cons.mpr ⟨hkeeps, hm⟩)⟩

/-- The committed entry of `node2` gives way to the one that `node1` has queued. -/
theorem not_committedStable :
    ∃ h c, Run (cluster twoNodes) h c ∧ ¬CommittedStable h c := by
  obtain ⟨h, c, c', run, _, hcommit, hlog⟩ := exists_move_of_exec
    (cluster twoNodes) (fun _ _ => True)
    (fun c c' => (c.node "node2").commitIndex = 0 ∧
      ¬(c.node "node2").committed <+: (c'.node "node2").log.inner)
    queuedAppend (.deliver "node1" "node2") (by decide +kernel)
  refine ⟨_, c', run, fun hstable => ?_⟩
  exact hlog (RaftNode.committed_isPrefix_iff.mpr
    (hstable.entries _ List.mem_cons_self "node2"))

end Rafting
