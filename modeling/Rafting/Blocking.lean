import Rafting.CircularWait

/-! Waits that never end. No call has a timeout, and a loop that awaits or has stopped
answers nobody: who waits for it, or for one who waits for it, does nothing more. -/
namespace Rafting
open Transition WaitsFor Relation

namespace Cluster

def Stopped (c : Cluster) (a : NodeId) : Prop :=
  ∃ fault, c.phase a = .stopped fault

section Step
variable {c c' : Cluster} {act : Action}

theorem stopped_of_step (h : c.step act = some c') {a : NodeId} (hstopped : c.Stopped a) :
    c'.Stopped a := by
  obtain ⟨fault, hphase⟩ := hstopped
  refine ⟨fault, ?_⟩
  rw [phase, servers_of_stopped h hphase]
  exact hphase

theorem setCall_pending_of_ne {calls : List (NodeId × Call)} {p b : NodeId} {outcome : Call}
    (h : (b, Call.pending) ∈ calls) (hne : b ≠ p) :
    (b, Call.pending) ∈ setCall calls p outcome :=
  List.mem_map.mpr ⟨_, h, if_neg hne⟩

theorem awaiting_of_step (h : c.step act = some c') {a b : NodeId} {event : RaftEvent}
    {calls : List (NodeId × Call)} (hphase : c.phase a = .awaiting event calls)
    (hcall : (b, Call.pending) ∈ calls) (hbusy : c.phase b ≠ .selecting)
    (hact : ∀ p status, act ≠ .fail a p status) :
    c'.node a = c.node a ∧
      ∃ calls', c'.phase a = .awaiting event calls' ∧ (b, Call.pending) ∈ calls' := by
  have hselecting : c.phase a ≠ .selecting := by simp [hphase]
  unfold node phase
  cases server_move h a with
  | idle heq =>
    rw [heq]
    exact ⟨rfl, calls, hphase, hcall⟩
  | clusterUp _ hturn _ => exact absurd hturn hselecting
  | tick _ hturn _ => exact absurd hturn hselecting
  | client _ _ hturn _ => exact absurd hturn hselecting
  | send _ hturn _ => exact absurd hturn hselecting
  | handle _ _ hturn _ => exact absurd hturn hselecting
  | answer p event' before _ hbefore _ hp _ heq =>
    rw [hphase] at hbefore
    cases hbefore
    have hne : b ≠ p := fun heq => hbusy (heq ▸ hp)
    rw [heq, RaftServer.answer_node, RaftServer.answer, show (c.servers a).phase = _ from hphase]
    exact ⟨rfl, _, rfl, setCall_pending_of_ne hcall hne⟩
  | fail p status _ _ hfail _ _ _ => exact absurd hfail (hact p status)
  | resume _ heq =>
    obtain ⟨_, _, hawaiting, hdone, _⟩ := RaftServer.resume_cases heq
    rw [show (c.servers a).phase = _ from hphase] at hawaiting
    cases hawaiting
    exact absurd rfl (hdone _ hcall)

end Step

end Cluster

/-! ## Waiting without failures -/

def SparesCalls (S : Set NodeId) (act : Action) : Prop :=
  ∀ a ∈ S, ∀ p status, act ≠ .fail a p status

structure Halted (c c' : Cluster) (a : NodeId) : Prop where
  node : c'.node a = c.node a
  event : ∃ event calls calls', c.phase a = .awaiting event calls ∧
    c'.phase a = .awaiting event calls'

theorem Halted.trans {c c' c'' : Cluster} {a : NodeId} (h : Halted c c' a)
    (h' : Halted c' c'' a) : Halted c c'' a := by
  obtain ⟨hnode, event, calls, calls₁, hbefore, hafter⟩ := h
  obtain ⟨hnode', event', calls₁', calls', hbefore', hafter'⟩ := h'
  rw [hafter] at hbefore'
  cases hbefore'
  exact ⟨hnode'.trans hnode, _, _, _, hbefore, hafter'⟩

theorem awaiting_of_stuck {c : Cluster} {S : Set NodeId} (hstuck : Stuck c.Waits c.Stopped S)
    {b : NodeId} (hb : b ∈ S ∨ c.Stopped b) : c.phase b ≠ .selecting := by
  rcases hb with hb | ⟨fault, hphase⟩
  · obtain ⟨x, hwaits, _⟩ := hstuck b hb
    obtain ⟨_, _, hphase, _⟩ := Cluster.waits_iff.mp hwaits
    simp [hphase]
  · simp [hphase]

theorem stuck_of_step {c c' : Cluster} {act : Action} {S : Set NodeId}
    (hstuck : Stuck c.Waits c.Stopped S) (hspares : SparesCalls S act)
    (h : c.step act = some c') : Stuck c'.Waits c'.Stopped S := by
  refine hstuck.next (fun a ha b hwaits hb => ?_) fun b => Cluster.stopped_of_step h
  obtain ⟨_, _, hphase, hcall⟩ := Cluster.waits_iff.mp hwaits
  obtain ⟨_, _, hphase', hcall'⟩ := Cluster.awaiting_of_step h hphase hcall
    (awaiting_of_stuck hstuck hb) (hspares a ha)
  exact Cluster.waits_iff.mpr ⟨_, _, hphase', hcall'⟩

theorem halted_of_step {c c' : Cluster} {act : Action} {S : Set NodeId}
    (hstuck : Stuck c.Waits c.Stopped S) (hspares : SparesCalls S act)
    (h : c.step act = some c') : ∀ a ∈ S, Halted c c' a := by
  intro a ha
  obtain ⟨b, hwaits, hb⟩ := hstuck a ha
  obtain ⟨event, calls, hphase, hcall⟩ := Cluster.waits_iff.mp hwaits
  obtain ⟨hnode, calls', hphase', _⟩ := Cluster.awaiting_of_step h hphase hcall
    (awaiting_of_stuck hstuck hb) (hspares a ha)
  exact ⟨hnode, event, calls, calls', hphase, hphase'⟩

/-- Loops that wait for each other or for stopped loops, and all who wait for them, do
nothing more until one of their calls fails. -/
theorem halted_of_stuck {cfg : Config} {c c' : Cluster} {h : List (Move Cluster Action)}
    {S : Set NodeId} (hstuck : Stuck c.Waits c.Stopped S)
    (run : Run { cluster cfg with init := c } h c')
    (hm : Meets (fun _ act => SparesCalls (Behind c.Waits S) act) h) :
    ∀ a ∈ Behind c.Waits S, Halted c c' a := by
  have inv := run.invariant (fun _ act => SparesCalls (Behind c.Waits S) act)
    (fun _ c' => Stuck c'.Waits c'.Stopped (Behind c.Waits S) ∧
      ∀ a ∈ Behind c.Waits S, Halted c c' a) ?_ ?_ hm
  · exact inv.2
  · refine ⟨hstuck.behind, fun a ha => ⟨rfl, ?_⟩⟩
    obtain ⟨_, hwaits, _⟩ := hstuck.behind a ha
    obtain ⟨event, calls, hphase, _⟩ := Cluster.waits_iff.mp hwaits
    exact ⟨event, calls, calls, hphase, hphase⟩
  · intro h c₁ c₂ act _ _ inv hspares hstep
    refine ⟨stuck_of_step inv.1 hspares hstep, fun a ha => ?_⟩
    exact (inv.2 a ha).trans (halted_of_step inv.1 hspares hstep a ha)

/-- Two candidates ask each other for their votes, and a third one stands for election and
asks them both: none of them goes on, whatever its ticks and clients do. -/
theorem halted_of_stuck_elections :
    ∃ h c h' c', Run (cluster threeNodes) h c ∧ Run { cluster threeNodes with init := c } h' c' ∧
      "node3" ∉ ({"node1", "node2"} : Set NodeId) ∧ Halted c c' "node1" ∧ Halted c c' "node2" ∧
      (c.node "node3").currentTerm < (c'.node "node3").currentTerm := by
  obtain ⟨h, c, h', c', run, _, run', hm, ⟨h12, h21⟩, hterm⟩ :=
    exists_run_since_exec (cluster threeNodes) (fun _ act => act.isFailure = false)
      (fun _ act => act.isFailure = false)
      (fun c c' => (c.Waits "node1" "node2" ∧ c.Waits "node2" "node1") ∧
        (c.node "node3").currentTerm < (c'.node "node3").currentTerm)
      (threeNodes.allUp ++ electionTimeout "node1" ++ electionTimeout "node2" ++
        [.send "node1", .send "node2"])
      ([.deliver "node1" "node3"] ++ electionTimeout "node3" ++ [.send "node3"])
      (by decide +kernel)
  have hdeadlocked : Deadlocked c.Waits {"node1", "node2"} := by
    refine ⟨⟨"node1", by simp⟩, ?_⟩
    rintro a (rfl | rfl)
    · exact ⟨"node2", by simp, h12⟩
    · exact ⟨"node1", by simp, h21⟩
  have hspares : Meets (fun _ act => SparesCalls (Behind c.Waits {"node1", "node2"}) act) h' :=
    hm.imp fun _ act hact a _ p status heq => by rw [heq] at hact; cases hact
  have hhalted := halted_of_stuck hdeadlocked.stuck run' hspares
  exact ⟨h, c, h', c', run, run', by simp, hhalted _ (subset_behind _ (by simp)),
    hhalted _ (subset_behind _ (by simp)), hterm⟩

/-! ## Waiting to append -/

/-- Every loop of the set has ended, or awaits the one append call of an event, to another
loop of the set, which has not answered it. -/
def Doomed (c : Cluster) (S : Set NodeId) : Prop :=
  ∀ a ∈ S, c.Stopped a ∨ ∃ req b call, b ∈ S ∧ call.isAnswered = false ∧
    c.phase a = .awaiting (.appendEntriesRequestEvent req) [(b, call)]

theorem Doomed.busy {c : Cluster} {S : Set NodeId} (hdoomed : Doomed c S) {b : NodeId}
    (hb : b ∈ S) : c.phase b ≠ .selecting := by
  rcases hdoomed b hb with ⟨fault, hphase⟩ | ⟨_, _, _, _, _, hphase⟩ <;> simp [hphase]

/-- All that can happen to such a loop is that its call fails, and then that it ends. -/
theorem Doomed.step {c c' : Cluster} {act : Action} {S : Set NodeId} (hdoomed : Doomed c S)
    (h : c.step act = some c') : Doomed c' S ∧ ∀ a ∈ S, c'.node a = c.node a := by
  suffices hall : ∀ a ∈ S, c'.node a = c.node a ∧ (c'.Stopped a ∨ ∃ req b call, b ∈ S ∧
      call.isAnswered = false ∧
      c'.phase a = .awaiting (.appendEntriesRequestEvent req) [(b, call)]) from
    ⟨fun a ha => (hall a ha).2, fun a ha => (hall a ha).1⟩
  intro a ha
  rcases hdoomed a ha with hstopped | ⟨req, b, call, hb, hopen, hphase⟩
  · obtain ⟨fault, hphase⟩ := hstopped
    rw [Cluster.node, Cluster.node, Cluster.servers_of_stopped h hphase]
    exact ⟨rfl, Or.inl (Cluster.stopped_of_step h ⟨fault, hphase⟩)⟩
  have hbusy := hdoomed.busy ha
  have hserver : (c.servers a).phase = .awaiting (.appendEntriesRequestEvent req) [(b, call)] :=
    hphase
  unfold Cluster.node Cluster.Stopped Cluster.phase
  cases Cluster.server_move h a with
  | idle heq =>
    rw [heq]
    exact ⟨rfl, Or.inr ⟨req, b, call, hb, hopen, hphase⟩⟩
  | clusterUp _ hturn _ => exact absurd hturn hbusy
  | tick _ hturn _ => exact absurd hturn hbusy
  | client _ _ hturn _ => exact absurd hturn hbusy
  | send _ hturn _ => exact absurd hturn hbusy
  | handle _ _ hturn _ => exact absurd hturn hbusy
  | answer p _ _ _ hbefore hcall hp _ _ =>
    -- only a loop that takes a turn answers, and `b` takes none
    rw [hphase] at hbefore
    cases hbefore
    obtain ⟨rfl, _⟩ := Prod.mk.inj (List.mem_singleton.mp hcall)
    exact absurd hp (hdoomed.busy hb)
  | fail p status _ _ _ hbefore hcall heq =>
    rw [hphase] at hbefore
    cases hbefore
    obtain rfl : p = b := by simpa using hcall
    rw [heq, RaftServer.answer_node, RaftServer.answer, hserver]
    exact ⟨rfl, Or.inr ⟨req, p, .failed status, hb, rfl, by simp [setCall]⟩⟩
  | resume _ heq =>
    obtain ⟨_, _, hawaiting, _, _, hcases⟩ := RaftServer.resume_cases heq
    rw [hserver] at hawaiting
    cases hawaiting
    rcases hcases with ⟨_, hevent, _⟩ | ⟨_, _, _, _, hcalls, _⟩ | ⟨_, _, _, _, _, hcalls, _⟩ |
      ⟨_, _, _, _, _, hended, hnode⟩
    · cases hevent
    · cases hcalls
      cases hopen
    · cases hcalls
      cases hopen
    · exact ⟨hnode, Or.inl ⟨_, hended⟩⟩

/-- Loops that have ended, and loops that wait to append to such loops or to each other, do
nothing more, whether their calls fail or not. -/
theorem unchanged_of_doomed {cfg : Config} {c c' : Cluster} {h : List (Move Cluster Action)}
    {S : Set NodeId} (hdoomed : Doomed c S) (run : Run { cluster cfg with init := c } h c') :
    Doomed c' S ∧ ∀ a ∈ S, c'.node a = c.node a := by
  refine run.induct (fun _ c' => Doomed c' S ∧ ∀ a ∈ S, c'.node a = c.node a)
    ⟨hdoomed, fun _ _ => rfl⟩ ?_
  intro h c₁ c₂ act _ inv hstep
  obtain ⟨hdoomed, hsame⟩ := inv.1.step hstep
  exact ⟨hdoomed, fun a ha => (hsame a ha).trans (inv.2 a ha)⟩

/-- A client command has ended the loop of `node2`; the leader sends it the next heartbeat,
and never accepts a command again. -/
theorem unchanged_of_doomed_heartbeat :
    ∃ h c h' c', Run (cluster twoNodes) h c ∧ Run { cluster twoNodes with init := c } h' c' ∧
      (c.node "node1").state = .leader ∧ c'.Stopped "node1" ∧
      ∀ a ∈ ({"node1", "node2"} : Set NodeId), c'.node a = c.node a := by
  obtain ⟨h, c, h', c', run, _, run', _, ⟨hleader, hdead, hwaits⟩, hended⟩ :=
    exists_run_since_exec (cluster twoNodes) (fun _ _ => True) (fun _ _ => True)
      (fun c c' => ((c.node "node1").state = .leader ∧
          c.phase "node2" = .stopped (.error RaftNode.notTheLeader) ∧
          c.phase "node1" = .awaiting
            (.appendEntriesRequestEvent ((c.node "node1").leaderHeartbeat "node2"))
            [("node2", .pending)]) ∧
        c'.phase "node1" = .stopped (.error
          ((PeerNetwork.new "node1" ["node2"]).waitForPeers.appendFailed "unavailable")))
      (twoNodes.allUp ++ electionTimeout "node1" ++ exchange "node1" ["node2"] ++
        [.client "node2" ⟨"x", "1"⟩, .send "node1"])
      [.fail "node1" "node2" "unavailable", .resume "node1"] (by decide +kernel)
  refine ⟨h, c, h', c', run, run', hleader, ⟨_, hended⟩, (unchanged_of_doomed ?_ run').2⟩
  rintro a (rfl | rfl)
  · exact Or.inr ⟨_, "node2", .pending, by simp, rfl, hwaits⟩
  · exact Or.inl ⟨_, hdead⟩

end Rafting
