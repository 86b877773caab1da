import Rafting.LogService

/-! Where the numbers of a run come from. Each term was begun by a node that stood for
election, each position of a log by a command that a leader accepted, and each commit index
by a leader that counted it; messages only pass them on. -/
namespace Rafting
open Transition

/-- In this step a leader moves its commit index to `ci`, an entry of its own term, on a
successful reply of a peer in that term. -/
structure Counts (m : Move Cluster Action) (l : NodeId) (ci : Nat) : Prop where
  action : m.action = .resume l
  leads : (m.before.node l).state = .leader
  reply : ∃ req peer response, m.before.phase l = .awaiting (.appendEntriesRequestEvent req)
      [(peer, .answered (.appendEntriesResponseEvent response))] ∧ response.success = true ∧
    response.term = (m.before.node l).currentTerm
  commit : (m.after.node l).commitIndex = ci
  entry : ∃ e, (m.after.node l).log.get ci = some e ∧ e.term = (m.before.node l).currentTerm

/-! ## Terms -/

def HadTerm (h : List (Move Cluster Action)) (c : Cluster) (t : Int) : Prop :=
  ∃ x ∈ moments h c, ∃ a, (x.node a).currentTerm = t

theorem HadTerm.next {h : List (Move Cluster Action)} {c c' : Cluster} {act : Action} {t : Int}
    (hhad : HadTerm h c t) : HadTerm (⟨c, act, c'⟩ :: h) c' t := by
  obtain ⟨x, hx, a, hterm⟩ := hhad
  exact ⟨x, moments_mono hx, a, hterm⟩

section Run
variable {cfg : Config} {h : List (Move Cluster Action)} {c c' : Cluster} {act : Action}

theorem AnsweredBy.term {m : Move Cluster Action} {a p : NodeId} {req : AppendEntriesRequest}
    {response : AppendEntriesResponse} (hanswered : AnsweredBy m a p req response) :
    response.term = req.term ∨ response.term = (m.after.node p).currentTerm := by
  have hreply := hanswered.reply
  have hnode := hanswered.node
  rcases RaftNode.stepAppendEntriesRequest_cases (m.before.node p) req with ⟨_, heq⟩ | ⟨_, _, heq⟩
  · rw [heq] at hreply hnode
    cases hreply
    exact Or.inr (by rw [hnode])
  · rw [heq] at hreply
    cases hreply
    exact Or.inl rfl

theorem Vouched.length_le {B : List LogEntry} {req : AppendEntriesRequest}
    (hvouched : Vouched B req) {log : RaftLog} (happends : RaftNode.Appends log req) :
    ((RaftNode.appendLog log req).getD log).len ≤ B.length := by
  have hreach := hvouched.reach
  rw [RaftLog.len, RaftNode.log_of_appends happends, List.length_append, List.length_take]
  simp only [AppendEntriesRequest.reach] at hreach
  omega

theorem counted_of_run (run : Run (cluster cfg) h c) : ∀ x ∈ moments h c, ∀ a,
    0 ≤ (x.node a).commitIndex →
      ∃ m ∈ h, ∃ l ci, Counts m l ci ∧ (x.node a).commitIndex ≤ ci := by
  apply run.induct (fun h c => ∀ x ∈ moments h c, ∀ a, 0 ≤ (x.node a).commitIndex →
    ∃ m ∈ h, ∃ l ci, Counts m l ci ∧ (x.node a).commitIndex ≤ ci)
  · intro x hx a hnonneg
    rw [eq_of_mem_moments_nil hx, Cluster.cluster_init, Cluster.node_initial] at hnonneg
    change (0 : Int) ≤ -1 at hnonneg
    omega
  · intro h c c' act run inv hstep x hx a hnonneg
    have hold : ∀ y ∈ moments h c, ∀ b, (x.node a).commitIndex ≤ (y.node b).commitIndex →
        ∃ m ∈ ⟨c, act, c'⟩ :: h, ∃ l ci, Counts m l ci ∧ (x.node a).commitIndex ≤ ci := by
      intro y hy b hle
      obtain ⟨m, hm, l, ci, hcounts, hci⟩ := inv y hy b (by omega)
      exact ⟨m, List.mem_cons_of_mem _ hm, l, ci, hcounts, by omega⟩
    rcases mem_moments_next.mp hx with rfl | hx
    · have hnow := mem_moments_self h c
      cases Cluster.commit_move hstep a with
      | keep hcommit _ => exact hold c hnow a (by omega)
      | client _ _ hcommit _ => exact hold c hnow a (by omega)
      | append req hhandled _ hcommit =>
        split at hcommit
        · -- the leader had committed as much when it sent the request
          obtain ⟨_, b, y, hy, hissues⟩ := issued_of_handled run hstep hhandled
          have hheader := hissues.header.2.2.2
          exact hold y hy b (by omega)
        · exact hold c hnow a (by omega)
      | count req peer response ci hact hphase hrole hown hsuccess _ _ hcounted hlog hcommit =>
        obtain ⟨e, hget, hterm, _⟩ := hcounted
        have hreply : ∃ req peer response, c.phase a = .awaiting (.appendEntriesRequestEvent req)
            [(peer, .answered (.appendEntriesResponseEvent response))] ∧
            response.success = true ∧ response.term = (c.node a).currentTerm :=
          ⟨req, peer, response, hphase, hsuccess, hown.symm⟩
        refine ⟨_, List.mem_cons_self, a, ci, ⟨hact, hrole, hreply, hcommit, e, ?_, hterm⟩, ?_⟩
        · rw [hlog]
          exact hget
        · exact Int.le_of_eq hcommit
    · exact hold x hx a (Int.le_refl _)

/-- A node without peers commits nothing: it leads and accepts commands, and nobody replies. -/
theorem commitIndex_of_single {a : NodeId} (hsingle : cfg.ids = [a]) (run : Run (cluster cfg) h c) :
    ∀ x ∈ moments h c, ∀ b, (x.node b).commitIndex < 0 := by
  intro x hx b
  by_contra hnonneg
  obtain ⟨m, hm, l, _, hcounts, _⟩ := counted_of_run run x hx b (by omega)
  obtain ⟨req, _, _, hphase, _⟩ := hcounts.reply
  obtain ⟨_, _, _, h', run', _⟩ := run.of_mem hm
  obtain ⟨_, _, hpeer⟩ := issued_of_awaiting run' hphase
  have hmember := (members_of_run run').mem_ids_of_awaiting hphase
  obtain ⟨hne, hids⟩ := (cfg.mem_peersOf hmember).mp hpeer
  rw [hsingle, List.mem_singleton] at hmember hids
  exact hne (hids.trans hmember.symm)

theorem commitIndex_of_single_accepted :
    ∃ h c, Run (cluster (Config.ofIds ["node1"] (by decide))) h c ∧
      (c.node "node1").state = .leader ∧ (c.node "node1").log.len = 2 ∧
      (c.node "node1").commitIndex < 0 := by
  obtain ⟨h, c, run, _, hleader, hlen⟩ :=
    exists_run_of_exec (cluster (Config.ofIds ["node1"] (by decide))) (fun _ _ => True)
      (fun c => (c.node "node1").state = .leader ∧ (c.node "node1").log.len = 2)
      ([.clusterUp "node1"] ++ electionTimeout "node1" ++ exchange "node1" [] ++
        [.client "node1" ⟨"x", "1"⟩, .client "node1" ⟨"y", "2"⟩] ++ heartbeatTimeout "node1")
      (by decide +kernel)
  exact ⟨h, c, run, hleader, hlen, commitIndex_of_single rfl run c (mem_moments_self h c) _⟩

end Run

end Rafting
