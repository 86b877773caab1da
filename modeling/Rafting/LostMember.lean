import Rafting.Blocking
import Rafting.LogIntegrity
import Rafting.ElectionSafety

/-! What the others can do once the loop of a member has ended. A queue of outgoing events is
served in order, so nothing behind a request to such a member is ever sent. A leader that is
elected then has such a request in its queue, in front of all that it accepts. -/
namespace Rafting
open Transition Fallible

def Upto (T : Int) (entries : List LogEntry) : Prop :=
  ∀ e ∈ entries, e.term ≤ T

def SendsUpto (T : Int) (events : List RaftEvent) : Prop :=
  ∀ req, .appendEntriesRequestEvent req ∈ events → Upto T req.entries

theorem SendsUpto.append {T : Int} {events events' : List RaftEvent} (h : SendsUpto T events)
    (h' : SendsUpto T events') : SendsUpto T (events ++ events') := by
  intro req hreq
  rcases List.mem_append.mp hreq with hreq | hreq
  · exact h req hreq
  · exact h' req hreq

theorem RaftNode.Issues.entries_subset {node : RaftNode} {req : AppendEntriesRequest}
    (h : node.Issues req) : req.entries ⊆ node.log.inner := by
  obtain ⟨_, peer, _, hbuild | rfl⟩ := h
  · obtain ⟨prevLogIndex, prevLogTerm, entries, hslice, rfl⟩ := buildAppendRequestForPeer_ok hbuild
    change entries ⊆ node.log.inner
    rcases appendSlice_ok hslice with ⟨_, _, _, rfl⟩ | ⟨_, _, _, _, _, _, rfl⟩
    · exact fun _ he => he
    · split
      · exact List.drop_subset _ _
      · exact List.nil_subset _
  · exact List.nil_subset _

namespace Cluster

theorem queue_move {c c' : Cluster} {act : Action} (h : c.step act = some c') (v : NodeId) :
    (∃ fresh, (c'.node v).nodeToPeersTx = (c.node v).nodeToPeersTx ++ fresh ∧
      ∀ req, .appendEntriesRequestEvent req ∈ fresh → (c'.node v).Issues req) ∨
    act = .send v ∧ c.phase v = .selecting ∧
      ∃ event, (c.node v).nodeToPeersTx = event :: (c'.node v).nodeToPeersTx := by
  have hsame : (c'.node v).nodeToPeersTx = (c.node v).nodeToPeersTx →
      ∃ fresh, (c'.node v).nodeToPeersTx = (c.node v).nodeToPeersTx ++ fresh ∧
        ∀ req, .appendEntriesRequestEvent req ∈ fresh → (c'.node v).Issues req :=
    fun heq => ⟨[], by rw [heq, List.append_nil], by simp⟩
  cases node_move h v with
  | idle heq => exact Or.inl (hsame (by rw [heq]))
  | clusterUp _ heq => exact Or.inl (hsame (by rw [heq]))
  | tick _ _ htick =>
    rcases RaftNode.tick_cases htick with ⟨_, heq⟩ | ⟨hrole, requests, hbuild, heq⟩ |
      ⟨_, _, hcandidate⟩
    · exact Or.inl (hsame (by rw [heq]))
    · refine Or.inl ⟨requests.map .appendEntriesRequestEvent, by rw [heq], ?_⟩
      rw [heq]
      intro req hreq
      obtain ⟨_, hmem, hevent⟩ := List.mem_map.mp hreq
      cases hevent
      obtain ⟨peer, hpeer, hok⟩ := mem_of_mapM_ok hbuild hmem
      exact ⟨hrole, peer, hpeer, Or.inl hok⟩
    · obtain ⟨_, _, _, _, _, _, _, _, _, htx, _⟩ := RaftNode.becomeCandidate_ok hcandidate
      exact Or.inl ⟨_, htx, by simp⟩
  | client _ _ _ _ heq => exact Or.inl (hsame (by rw [heq]))
  | send event rest hact hphase hqueue heq =>
    exact Or.inr ⟨hact, hphase, event, by rw [hqueue, heq]⟩
  | vote req _ _ heq =>
    refine Or.inl (hsame ?_)
    rw [heq, RaftNode.stepPeerVotesRequest_eq]
    split <;> rfl
  | append req _ _ heq => exact Or.inl (hsame (by rw [heq]; simp))
  | votes req calls _ _ heq =>
    rcases RaftNode.stepPeerVotesResponse_cases (c.node v) (PeerNetwork.voteResponses calls) with
      ⟨_, hnode⟩ | ⟨_, hnode⟩
    · rw [heq, hnode]
      refine Or.inl ⟨_, RaftNode.becomeLeader_nodeToPeersTx _, fun req hreq => ?_⟩
      obtain ⟨peer, hpeer, hevent⟩ := List.mem_map.mp hreq
      cases hevent
      exact ⟨rfl, peer, hpeer, Or.inr rfl⟩
    · exact Or.inl (hsame (by rw [heq, hnode]; rfl))
  | reply _ _ _ _ _ heq => exact Or.inl (hsame (nodeToPeersTx_of_reply heq))

theorem phase_of_send {c c' : Cluster} {a : NodeId} (h : c.step (.send a) = some c')
    {req : AppendEntriesRequest} {rest : List RaftEvent}
    (hqueue : (c.node a).nodeToPeersTx = .appendEntriesRequestEvent req :: rest) :
    c'.Stopped a ∨
      c'.phase a = .awaiting (.appendEntriesRequestEvent req) [(req.toNode, .pending)] := by
  simp only [step] at h
  split at h
  · obtain ⟨server, hserver, rfl⟩ := Option.map_eq_some_iff.mp h
    obtain ⟨event, rest', hqueue', _, _, hcases⟩ := RaftServer.selectPeers_cases hserver
    rw [show (c.servers a).node.nodeToPeersTx = _ from hqueue] at hqueue'
    cases hqueue'
    rw [Stopped, phase, servers_set_self]
    rcases hcases with ⟨_, hevent, _, hphase⟩ | ⟨_, hevent, _⟩ | ⟨e, hphase, _⟩
    · cases hevent
      exact Or.inr hphase
    · cases hevent
    · exact Or.inl ⟨_, hphase⟩
  · cases h

end Cluster

/-! ## A member whose loop has ended -/

/-- What can still leave a node: nothing of a later term is in flight from it, and either it has
no such entries at all, or a request to `d` stands in its queue in front of them, or its loop
waits for `d` or has ended. -/
structure Barred (T : Int) (d a : NodeId) (c : Cluster) : Prop where
  flight : ∀ req calls, c.phase a = .awaiting (.appendEntriesRequestEvent req) calls →
    Upto T req.entries
  queue : (SendsUpto T (c.node a).nodeToPeersTx ∧ Upto T (c.node a).log.inner ∧
      ((c.node a).state = .leader → (c.node a).currentTerm ≤ T)) ∨
    (∃ rest req more, (c.node a).nodeToPeersTx = rest ++ .appendEntriesRequestEvent req :: more ∧
      req.toNode = d ∧ SendsUpto T rest ∧ Upto T req.entries) ∨
    Doomed c {a, d}

structure Unsent (T : Int) (d : NodeId) (c : Cluster) : Prop where
  ended : c.Stopped d
  nodes : ∀ a, Barred T d a c
  orphans : ∀ orphan ∈ c.orphans, ∀ req, orphan.event = .appendEntriesRequestEvent req →
    Upto T req.entries

section Step
variable {cfg : Config} {T : Int} {d : NodeId} {c c' : Cluster} {act : Action}

theorem Barred.flight_step {a : NodeId} (hbarred : Barred T d a c) (h : c.step act = some c')
    {req : AppendEntriesRequest} {calls : List (NodeId × Call)}
    (hphase : c'.phase a = .awaiting (.appendEntriesRequestEvent req) calls) :
    Upto T req.entries := by
  cases Cluster.await_move h hphase with
  | idle hbefore => exact hbarred.flight req calls hbefore
  | answer _ _ _ hbefore => exact hbarred.flight req _ hbefore
  | fail _ _ _ hbefore => exact hbarred.flight req _ hbefore
  | votes _ _ _ hevent => cases hevent
  | append _ _ hturn hevent hqueue _ _ =>
    cases hevent
    obtain ⟨tail, hqueue⟩ := hqueue
    rcases hbarred.queue with ⟨hsends, _⟩ | ⟨rest, first, more, hsplit, _, hsends, hfirst⟩ | hdoomed
    · exact hsends req (hqueue ▸ List.mem_cons_self)
    · rw [hqueue] at hsplit
      cases rest with
      | nil =>
        cases hsplit
        exact hfirst
      | cons event rest =>
        obtain ⟨rfl, _⟩ := List.cons.inj hsplit
        exact hsends req List.mem_cons_self
    · exact absurd hturn (hdoomed.busy (Set.mem_insert a {d}))

theorem Unsent.handled (inv : Unsent T d c) {v : NodeId} {req : AppendEntriesRequest}
    (hhandled : c.handled act = some (v, .appendEntriesRequestEvent req)) : Upto T req.entries := by
  cases act with
  | deliver a p =>
    simp only [Cluster.handled] at hhandled
    split at hhandled
    · rename_i hphase
      cases hhandled
      exact (inv.nodes a).flight req _ hphase
    · cases hhandled
  | deliverOrphan k =>
    obtain ⟨orphan, horphan, heq⟩ := Option.map_eq_some_iff.mp hhandled
    exact inv.orphans orphan (List.mem_of_getElem? horphan) req (Prod.mk.inj heq).2
  | _ => cases hhandled

/-- A request to `d` stays in front of what comes after it, until the loop waits for `d`. -/
theorem queue_of_blocked {a : NodeId} (hended : c.Stopped d) (h : c.step act = some c')
    {rest more : List RaftEvent} {req : AppendEntriesRequest}
    (hqueue : (c.node a).nodeToPeersTx = rest ++ .appendEntriesRequestEvent req :: more)
    (hto : req.toNode = d) (hrest : SendsUpto T rest) (hreq : Upto T req.entries) :
    (∃ rest req more, (c'.node a).nodeToPeersTx = rest ++ .appendEntriesRequestEvent req :: more ∧
      req.toNode = d ∧ SendsUpto T rest ∧ Upto T req.entries) ∨ Doomed c' {a, d} := by
  rcases Cluster.queue_move h a with ⟨fresh, heq, _⟩ | ⟨rfl, _, event, heq⟩
  · refine Or.inl ⟨rest, req, more ++ fresh, ?_, hto, hrest, hreq⟩
    rw [heq, hqueue, List.append_assoc, List.cons_append]
  rw [hqueue] at heq
  cases rest with
  | nil =>
    right
    rintro x (rfl | rfl)
    · refine (Cluster.phase_of_send h hqueue).imp_right fun hphase => ?_
      exact ⟨req, d, .pending, by simp, rfl, hto ▸ hphase⟩
    · exact Or.inl (Cluster.stopped_of_step h hended)
  | cons first rest =>
    obtain ⟨_, hqueue'⟩ := List.cons.inj heq
    exact Or.inl ⟨rest, req, more, hqueue'.symm, hto,
      fun r hr => hrest r (List.mem_cons_of_mem _ hr), hreq⟩

theorem queue_of_win {a : NodeId} (hmembers : Members cfg c) (hd : d ∈ cfg.ids)
    (hended : c.Stopped d) (h : c.step act = some c') (hsends : SendsUpto T (c.node a).nodeToPeersTx)
    (hleader : (c'.node a).state = .leader) {req : RequestVoteRequest}
    {calls : List (NodeId × Call)} (hcounted : c.counted act = some (a, req, calls)) :
    ∃ rest req more, (c'.node a).nodeToPeersTx = rest ++ .appendEntriesRequestEvent req :: more ∧
      req.toNode = d ∧ SendsUpto T rest ∧ Upto T req.entries := by
  obtain ⟨_, hphase⟩ := Cluster.counted_cases hcounted
  have ha := hmembers.mem_ids_of_awaiting hphase
  have hne : d ≠ a := by
    rintro rfl
    obtain ⟨fault, hstopped⟩ := hended
    rw [hphase] at hstopped
    cases hstopped
  have hpeer : d ∈ (c.node a).peers := by
    rw [hmembers.peers]
    exact (cfg.mem_peersOf ha).mpr ⟨hne, hd⟩
  have hnode := Cluster.node_of_counted h hcounted
  rcases RaftNode.stepPeerVotesResponse_cases (c.node a) (PeerNetwork.voteResponses calls) with
    ⟨_, hwins⟩ | ⟨_, hloses⟩
  · obtain ⟨before, after, hpeers⟩ := List.append_of_mem hpeer
    refine ⟨(c.node a).nodeToPeersTx ++ before.map fun peer =>
        .appendEntriesRequestEvent ((c.node a).leaderHeartbeat peer),
      (c.node a).leaderHeartbeat d,
      after.map fun peer => .appendEntriesRequestEvent ((c.node a).leaderHeartbeat peer),
      ?_, rfl, hsends.append ?_, fun e he => absurd he List.not_mem_nil⟩
    · rw [hnode, hwins, RaftNode.becomeLeader_nodeToPeersTx, hpeers, List.map_append, List.map_cons,
        List.append_assoc]
    · intro req hreq
      obtain ⟨peer, _, hevent⟩ := List.mem_map.mp hreq
      cases hevent
      exact fun e he => absurd he List.not_mem_nil
  · rw [hnode, hloses] at hleader
    cases hleader

theorem Unsent.log_step (inv : Unsent T d c) (h : c.step act = some c') {a : NodeId} {e : LogEntry}
    (he : e ∈ (c'.node a).log.inner) :
    e ∈ (c.node a).log.inner ∨ e.term ≤ T ∨ ∃ command, act = .client a command ∧
      (c.node a).state = .leader ∧ e = (c.node a).clientEntry command := by
  have hkeep : (c'.node a).log = (c.node a).log → e ∈ (c.node a).log.inner := fun heq => heq ▸ he
  cases Cluster.core_move h a with
  | same _ _ hlog => exact Or.inl (hkeep hlog)
  | stand _ _ _ _ hlog => exact Or.inl (hkeep hlog)
  | grant _ _ _ _ _ hlog => exact Or.inl (hkeep hlog)
  | depose _ _ _ hlog => exact Or.inl (hkeep hlog)
  | win _ _ _ _ _ _ _ hlog => exact Or.inl (hkeep hlog)
  | lose _ _ _ hlog => exact Or.inl (hkeep hlog)
  | client command hact hrole _ _ hlog =>
    rw [hlog] at he
    rcases List.mem_append.mp he with he | he
    · exact Or.inl he
    · exact Or.inr (Or.inr ⟨command, hact, hrole, List.mem_singleton.mp he⟩)
  | append req hhandled _ _ hlog =>
    by_cases happends : RaftNode.Appends (c.node a).log req
    · rw [hlog, RaftNode.log_of_appends happends] at he
      rcases List.mem_append.mp he with he | he
      · exact Or.inl (List.mem_of_mem_take he)
      · exact Or.inr (Or.inl (inv.handled hhandled e he))
    · exact Or.inl (hkeep (by rw [hlog, RaftNode.appendLog_getD, if_neg happends]))

theorem Unsent.step (inv : Unsent T d c) (hmembers : Members cfg c) (hd : d ∈ cfg.ids)
    (h : c.step act = some c') : Unsent T d c' where
  ended := Cluster.stopped_of_step h inv.ended
  nodes := by
    intro a
    refine ⟨fun req calls hphase => (inv.nodes a).flight_step h hphase, ?_⟩
    rcases (inv.nodes a).queue with ⟨hsends, hlog, hterm⟩ |
      ⟨rest, req, more, hqueue, hto, hrest, hreq⟩ | hdoomed
    · by_cases hlate : (c'.node a).state = .leader ∧ T < (c'.node a).currentTerm
      · obtain ⟨hleader, hlate⟩ := hlate
        obtain ⟨hsame, hled | ⟨req, calls, hcounted, _⟩⟩ := Cluster.leads_or_wins h hleader
        · have := hterm hled
          omega
        · exact Or.inr (Or.inl (queue_of_win hmembers hd inv.ended h hsends hleader hcounted))
      · have hlog' : Upto T (c'.node a).log.inner := by
          intro e he
          rcases inv.log_step h he with he | he | ⟨command, _, hrole, rfl⟩
          · exact hlog e he
          · exact he
          · exact hterm hrole
        refine Or.inl ⟨?_, hlog', fun hleader => Int.not_lt.mp fun hlt => hlate ⟨hleader, hlt⟩⟩
        rcases Cluster.queue_move h a with ⟨fresh, heq, hissues⟩ | ⟨_, _, event, heq⟩
        · rw [heq]
          exact hsends.append fun req hreq e he => hlog' e ((hissues req hreq).entries_subset he)
        · intro req hreq
          exact hsends req (heq ▸ List.mem_cons_of_mem _ hreq)
    · exact Or.inr (queue_of_blocked inv.ended h hqueue hto hrest hreq)
    · exact Or.inr (Or.inr (hdoomed.step h).1)
  orphans := by
    intro orphan horphan req hevent
    rcases Cluster.orphans_move h with hsub | ⟨a, p, _, event, calls, hphase, _, _, heq⟩
    · exact inv.orphans orphan (hsub horphan) req hevent
    · rw [heq] at horphan
      rcases List.mem_append.mp horphan with hold | hnew
      · exact inv.orphans orphan hold req hevent
      · rw [List.mem_singleton.mp hnew] at hevent
        cases hevent
        exact (inv.nodes a).flight req calls hphase

end Step

def MadeBy (a : NodeId) (h : List (Move Cluster Action)) (e : LogEntry) : Prop :=
  ∃ m ∈ h, ∃ command, m.action = .client a command ∧ (m.before.node a).state = .leader ∧
    e = (m.before.node a).clientEntry command

section Run
variable {cfg : Config} {T : Int} {d : NodeId} {h₀ h : List (Move Cluster Action)} {c₀ c : Cluster}

theorem Created.term_le (run : Run (cluster cfg) h₀ c₀)
    (hT : ∀ a ∈ cfg.ids, (c₀.node a).currentTerm ≤ T) {e : LogEntry} (hcreated : Created h₀ e) :
    e.term ≤ T := by
  obtain ⟨m, hm, v, command, hact, _, hterm, _⟩ := hcreated
  obtain ⟨hstep, hbefore, _, _, run', _⟩ := run.of_mem hm
  have hturn : m.before.turn v (RaftServer.selectClient · (.commandRequestEvent command)) =
      some m.after := by
    rw [hact] at hstep
    exact hstep
  have hv := (members_of_run run').mem_ids_of_selecting (Cluster.turn_eq_some hturn).1
  have := currentTerm_le_of_mem_moments run hbefore v
  have := hT v hv
  omega

theorem unsent_of_ended (run : Run (cluster cfg) h₀ c₀) (hended : c₀.Stopped d)
    (hT : ∀ a ∈ cfg.ids, (c₀.node a).currentTerm ≤ T) : Unsent T d c₀ := by
  have integrity := logIntegrity_of_run run
  have hqueued : ∀ req, c₀.Queued req → Upto T req.entries := fun req hreq e he =>
    (integrity.requestCreated req hreq e he).term_le run hT
  refine ⟨hended, fun a => ⟨fun req calls hphase => ?_, ?_⟩, fun orphan horphan req hevent => ?_⟩
  · exact hqueued req (Or.inl ⟨a, mem_pipeline_of_awaiting hphase⟩)
  · by_cases ha : a ∈ cfg.ids
    · refine Or.inl ⟨fun req hreq => ?_, fun e he => ?_, fun _ => hT a ha⟩
      · exact hqueued req (Or.inl ⟨a, List.mem_append_right _ hreq⟩)
      · exact (integrity.created a e he).term_le run hT
    · right
      right
      rintro x (rfl | rfl)
      · exact Or.inl ((members_of_run run).outsiders x ha)
      · exact Or.inl hended
  · exact hqueued req (Or.inr ⟨orphan, horphan, hevent⟩)

theorem unsent_of_run (run : Run (cluster cfg) h₀ c₀) (hd : d ∈ cfg.ids) (hended : c₀.Stopped d)
    (hT : ∀ a ∈ cfg.ids, (c₀.node a).currentTerm ≤ T)
    (later : Run { cluster cfg with init := c₀ } h c) : Unsent T d c := by
  refine later.induct (fun _ c => Unsent T d c) (unsent_of_ended run hended hT) ?_
  intro h c c' act later inv hstep
  exact inv.step (members_of_run (run.append later)) hd hstep

/-- Once the loop of a member has ended, no entry of a later term ever gets to another node than
the one that made it. -/
theorem unreplicated_of_ended (run : Run (cluster cfg) h₀ c₀) (hd : d ∈ cfg.ids)
    (hended : c₀.Stopped d) (hT : ∀ a ∈ cfg.ids, (c₀.node a).currentTerm ≤ T)
    (later : Run { cluster cfg with init := c₀ } h c) :
    (∀ a, ∀ e ∈ (c.node a).log.inner, T < e.term → MadeBy a h e) ∧
      ∀ m ∈ h, ∀ v req, m.before.handled m.action = some (v, .appendEntriesRequestEvent req) →
        ∀ e ∈ req.entries, e.term ≤ T := by
  constructor
  · refine later.induct (fun h c => ∀ a, ∀ e ∈ (c.node a).log.inner, T < e.term → MadeBy a h e) ?_ ?_
    · intro a e he hlate
      have := ((logIntegrity_of_run run).created a e he).term_le run hT
      omega
    · intro h c c' act later ih hstep a e he hlate
      rcases (unsent_of_run run hd hended hT later).log_step hstep he with he | he |
        ⟨command, hact, hrole, rfl⟩
      · obtain ⟨m, hm, hmade⟩ := ih a e he hlate
        exact ⟨m, List.mem_cons_of_mem _ hm, hmade⟩
      · omega
      · exact ⟨_, List.mem_cons_self, command, hact, hrole, rfl⟩
  · intro m hm v req hhandled
    obtain ⟨_, _, _, h', later', _⟩ := later.of_mem hm
    exact (unsent_of_run run hd hended hT later').handled hhandled

end Run

/-- A command has ended the loop of `node3`. `node1` is elected with the vote of `node2`, and
accepts a command that it never sends: its own loop ends on the heartbeat to `node3`. -/
theorem unreplicated_of_ended_elected :
    ∃ h₀ c₀ h c, Run (cluster threeNodes) h₀ c₀ ∧ Run { cluster threeNodes with init := c₀ } h c ∧
      c₀.Stopped "node3" ∧ c.Stopped "node1" ∧ (c.node "node1").nodeToPeersTx ≠ [] ∧
      (∃ e ∈ (c.node "node1").log.inner, MadeBy "node1" h e) ∧
      ∀ e ∈ (c.node "node2").log.inner, 0 < e.term → MadeBy "node2" h e := by
  obtain ⟨h₀, c₀, h, c, run, _, later, _, ⟨hstopped, hterm⟩, hended, hqueue, e, he, hlate⟩ :=
    exists_run_since_exec (cluster threeNodes) (fun _ _ => True) (fun _ _ => True)
      (fun c₀ c => (c₀.phase "node3" = .stopped (.error RaftNode.notTheLeader) ∧
          ∀ a ∈ threeNodes.ids, (c₀.node a).currentTerm ≤ 0) ∧
        c.phase "node1" = .stopped (.error
          ((PeerNetwork.new "node1" ["node2", "node3"]).waitForPeers.appendFailed "unavailable")) ∧
        (c.node "node1").nodeToPeersTx ≠ [] ∧ ∃ e ∈ (c.node "node1").log.inner, 0 < e.term)
      (threeNodes.allUp ++ [.client "node3" ⟨"x", "1"⟩])
      (electionTimeout "node1" ++ [.send "node1", .deliver "node1" "node2",
          .fail "node1" "node3" "unavailable", .resume "node1", .client "node1" ⟨"y", "2"⟩] ++
        heartbeatTimeout "node1" ++ exchange "node1" ["node2"] ++
        [.send "node1", .fail "node1" "node3" "unavailable", .resume "node1"])
      (by decide +kernel)
  obtain ⟨hmade, _⟩ := unreplicated_of_ended run (by decide) ⟨_, hstopped⟩ hterm later
  exact ⟨h₀, c₀, h, c, run, later, ⟨_, hstopped⟩, ⟨_, hended⟩, hqueue,
    ⟨e, he, hmade "node1" e he hlate⟩, fun e he => hmade "node2" e he⟩

end Rafting
