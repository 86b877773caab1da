import Rafting.CommitSafety

/-! The answers to clients. A leader answers a command when it has appended the entry to its
own log; the later leaders have the entry once a majority has taken it over in its term. -/
namespace Rafting
open Transition LogHistory Majority

def ClientAnswered (m : Move Cluster Action) (a : NodeId) (command : SetCommand) : Prop :=
  m.action = .client a command ∧
    ((m.before.node a).handleClientRequest (.commandRequestEvent command)).reply =
      some (.ok (.commandResponseEvent true))

/-- What has been answered with success in one term is in the logs of the leaders of all
later terms. -/
def Durable (h : List (Move Cluster Action)) (c : Cluster) : Prop :=
  ∀ m ∈ h, ∀ a command, ClientAnswered m a command → ∀ b, (c.node b).state = .leader →
    (m.before.node a).currentTerm < (c.node b).currentTerm →
    (m.before.node a).clientEntry command ∈ (c.node b).log.inner

structure Accepted (m : Move Cluster Action) (a : NodeId) (e : LogEntry) : Prop where
  leads : (m.after.node a).state = .leader
  term : (m.after.node a).currentTerm = e.term
  index : e.index = (m.before.node a).log.len
  log : (m.after.node a).log = (m.before.node a).log.append e

section Run
variable {cfg : Config} {h : List (Move Cluster Action)} {c : Cluster}

theorem ClientAnswered.accepted (run : Run (cluster cfg) h c) {m : Move Cluster Action} (hm : m ∈ h)
    {a : NodeId} {command : SetCommand} (hanswered : ClientAnswered m a command) :
    Accepted m a ((m.before.node a).clientEntry command) := by
  obtain ⟨hact, hreply⟩ := hanswered
  have hleader : (m.before.node a).state = .leader := by
    by_contra hother
    rw [RaftNode.handleClientRequest_other hother] at hreply
    cases hreply
  have hstep : m.before.step (.client a command) = some m.after := hact ▸ (run.of_mem hm).1
  have hturn : m.before.turn a (RaftServer.selectClient · (.commandRequestEvent command)) =
      some m.after := hstep
  obtain ⟨_, hafter⟩ := Cluster.turn_eq_some hturn
  have hnode : m.after.node a = { m.before.node a with
      log := (m.before.node a).log.append ((m.before.node a).clientEntry command) } := by
    rw [hafter, Cluster.node, Cluster.servers_set_self, RaftServer.selectClient,
      RaftNode.handleClientRequest_leader
        (show (m.before.servers a).node.state = .leader from hleader)]
    rfl
  refine ⟨by rw [hnode]; exact hleader, by rw [hnode]; rfl, ?_, by rw [hnode]⟩
  simp [RaftNode.clientEntry, RaftNode.lastAppliedIndex, RaftLog.lastLogIndex]

theorem Created.answered {e : LogEntry} (hcreated : Created h e) :
    ∃ m ∈ h, ∃ a command, ClientAnswered m a command ∧
      e = (m.before.node a).clientEntry command ∧ (m.before.node a).currentTerm = e.term := by
  obtain ⟨m, hm, a, command, hact, hleader, hterm, hentry, _⟩ := hcreated
  refine ⟨m, hm, a, command, ⟨hact, ?_⟩, hentry, hterm⟩
  rw [RaftNode.handleClientRequest_leader hleader]

theorem Accepted.committed (run : Run (cluster cfg) h c) {m : Move Cluster Action} (hm : m ∈ h)
    {a : NodeId} {e : LogEntry} (haccepted : Accepted m a e) {quorum : Finset NodeId}
    (hmajority : IsMajority cfg.ids.toFinset quorum)
    (hheld : ∀ v ∈ quorum, Held h c v e.term (m.after.node a).log.inner) :
    Committed cfg h c (m.after.node a).log.inner e := by
  refine ⟨?_, ⟨_, ⟨a, m.after, (run.of_mem hm).2.2.1, haccepted.leads, haccepted.term, rfl⟩,
    List.prefix_refl _⟩, quorum, hmajority, hheld⟩
  rw [haccepted.log, RaftLog.append, List.getLast?_append]
  rfl

/-- An answer tells that the leader has the entry at the end of its own log; once a majority
has had that log in the leader's term, all later leaders have the entry. -/
theorem durable_of_held (run : Run (cluster cfg) h c) {m : Move Cluster Action} (hmem : m ∈ h)
    {a : NodeId} {command : SetCommand} (hanswered : ClientAnswered m a command) :
    Accepted m a ((m.before.node a).clientEntry command) ∧
    (Meets KeepsVotes h → ∀ quorum, IsMajority cfg.ids.toFinset quorum →
      (∀ v ∈ quorum, Held h c v (m.before.node a).currentTerm (m.after.node a).log.inner) →
      ∀ b, (c.node b).state = .leader →
        (m.before.node a).currentTerm < (c.node b).currentTerm →
        (m.before.node a).clientEntry command ∈ (c.node b).log.inner) := by
  have haccepted := hanswered.accepted run hmem
  refine ⟨haccepted, ?_⟩
  intro hm quorum hmajority hheld b hleader hlt
  have hcommitted := haccepted.committed run hmem hmajority hheld
  have hpre := hcommitted.isPrefix_of_later run hm hlt ⟨b, led_self hleader⟩
  exact hpre.subset (List.mem_of_getLast? hcommitted.last)

end Run

/-- `node2` takes the entry of `node1` over in term 1, and leads term 2 with it. -/
theorem durable_of_held_replicated :
    ∃ h c, Run (cluster threeNodes) h c ∧ (c.node "node2").state = .leader ∧
      ∃ m ∈ h, ∃ a command, ClientAnswered m a command ∧
        (m.before.node a).currentTerm < (c.node "node2").currentTerm ∧
        (m.before.node a).clientEntry command ∈ (c.node "node2").log.inner := by
  obtain ⟨h, c, run, hm, x, hx, ⟨hlog, hlog', hterm, hterm'⟩, hleader, hlater⟩ :=
    exists_run_of_exec₂ (cluster threeNodes) KeepsVotes
      (fun x c => (((x.node "node1").log.inner.map fun e => (e.index, e.term)) = [(0, 1)] ∧
          (x.node "node2").log.inner = (x.node "node1").log.inner ∧
          (x.node "node1").currentTerm = 1 ∧ (x.node "node2").currentTerm = 1) ∧
        (c.node "node2").state = .leader ∧ (c.node "node2").currentTerm = 2)
      (threeNodes.allUp ++ electionTimeout "node1" ++ exchange "node1" ["node2", "node3"] ++
        exchange "node1" ["node2"] ++ exchange "node1" ["node3"] ++
        [.client "node1" ⟨"x", "1"⟩] ++ heartbeatTimeout "node1" ++ exchange "node1" ["node2"])
      (electionTimeout "node2" ++ exchange "node2" ["node1", "node3"]) (by decide +kernel)
  obtain ⟨e, hsingle, he⟩ := List.map_eq_singleton_iff.mp hlog
  obtain ⟨hindex, heterm⟩ := Prod.mk.injEq .. ▸ he
  have hcreated := (integrity_of_run run x hx "node1").2 e (by rw [hsingle]; exact List.mem_cons_self)
  obtain ⟨m, hmem, a, command, hanswered, hentry, hcurrent⟩ := hcreated.answered
  have haccepted := hentry ▸ hanswered.accepted run hmem
  have hafter : (m.after.node a).log.inner = [e] := by
    have hempty : (m.before.node a).log.inner = [] := by
      rw [← List.length_eq_zero_iff]
      have hlen := haccepted.index
      simp only [RaftLog.len] at hlen
      omega
    rw [haccepted.log, RaftLog.append, hempty]
    rfl
  refine ⟨h, c, run, hleader, m, hmem, a, command, hanswered, by omega, ?_⟩
  apply (durable_of_held run hmem hanswered).2 hm {"node1", "node2"} ⟨by decide, by decide⟩ ?_
    "node2" hleader (by omega)
  intro v hv
  rw [hafter]
  rcases Finset.mem_insert.mp hv with rfl | hv
  · exact ⟨x, hx, by omega, by rw [hsingle]⟩
  · obtain rfl := Finset.mem_singleton.mp hv
    exact ⟨x, hx, by omega, by rw [hlog', hsingle]⟩

/-- `node1` has answered for an entry that nobody else has; `node3` elects `node2` to term 2
while `node1` cannot be reached. All requests and votes count as they should. -/
theorem not_durable :
    ∃ h c, Run (cluster threeNodes) h c ∧ Meets KeepsCommits h ∧ ¬Durable h c := by
  obtain ⟨h, c, run, hm, ⟨e, he, hterm⟩, hleader, hlater, hempty⟩ :=
    exists_run_of_exec (cluster threeNodes) KeepsCommits
      (fun c => (∃ e ∈ (c.node "node1").log.inner, e.term = 1) ∧
        (c.node "node2").state = .leader ∧ (c.node "node2").currentTerm = 2 ∧
        (c.node "node2").log.inner = [])
      (threeNodes.allUp ++ electionTimeout "node1" ++ exchange "node1" ["node2", "node3"] ++
        exchange "node1" ["node2"] ++ exchange "node1" ["node3"] ++
        [.client "node1" ⟨"x", "1"⟩] ++ electionTimeout "node2" ++
        [.send "node2", .deliver "node2" "node3", .fail "node2" "node1" "unavailable",
          .resume "node2"]) (by decide +kernel)
  refine ⟨h, c, run, hm, fun hdurable => ?_⟩
  obtain ⟨m, hmem, a, command, hanswered, hentry, hcurrent⟩ :=
    ((integrity_of_run run c (mem_moments_self h c) "node1").2 e he).answered
  have hnow := hdurable m hmem a command hanswered "node2" hleader (by omega)
  rw [hempty] at hnow
  cases hnow

end Rafting
