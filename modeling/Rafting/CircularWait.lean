import Rafting.Membership
import Rafting.Library.WaitsFor

/-! Circular waits between loops. A loop that awaits replies answers nobody, and no
call has a timeout, so loops that await each other stay where they are. -/
namespace Rafting
open Transition WaitsFor Relation

def Phase.calls : Phase → List (NodeId × Call)
  | awaiting _ calls => calls
  | _ => []

namespace Cluster

/-- The loop of `a` is blocked, among others, on the reply of `b`. -/
def Waits (c : Cluster) (a b : NodeId) : Prop :=
  (b, Call.pending) ∈ (c.phase a).calls

instance (c : Cluster) (a b : NodeId) : Decidable (c.Waits a b) :=
  inferInstanceAs (Decidable (_ ∈ _))

def addressed (c : Cluster) (a : NodeId) : List NodeId :=
  match (c.node a).nodeToPeersTx with
  | .appendEntriesRequestEvent req :: _ =>
    if req.toNode ∈ (c.servers a).network.peerClients then [req.toNode] else []
  | .peerVotesRequestEvent _ :: _ => (c.servers a).network.peerClients
  | _ => []

end Cluster

/-- No set of nodes is blocked on replies from inside the set. -/
def NoCircularWait (c : Cluster) : Prop := ∀ S, ¬Deadlocked c.Waits S

/-- A loop sends only to peers that do not wait for it themselves, be it over others. -/
def SendsFreely (c : Cluster) (act : Action) : Prop :=
  ∀ a, act = .send a → ∀ p ∈ c.addressed a, ¬ReflTransGen c.Waits p a

namespace Cluster

theorem respond_ne_pending (request : RaftEvent) (reply : Option RaftEvent) :
    respond request reply ≠ .pending := by
  unfold respond
  split <;> simp

theorem mem_setCall_pending {calls : List (NodeId × Call)} {p b : NodeId} {outcome : Call}
    (h : (b, Call.pending) ∈ setCall calls p outcome) (houtcome : outcome ≠ .pending) :
    (b, Call.pending) ∈ calls := by
  obtain ⟨call, hcall, heq⟩ := List.mem_map.mp h
  split at heq
  · cases heq
    exact absurd rfl houtcome
  · exact heq ▸ hcall

theorem waits_iff {c : Cluster} {a b : NodeId} :
    c.Waits a b ↔ ∃ event calls, c.phase a = .awaiting event calls ∧ (b, Call.pending) ∈ calls := by
  unfold Waits
  cases c.phase a <;> simp [Phase.calls]

theorem waits_of_step {c c' : Cluster} {act : Action} (h : c.step act = some c') {a b : NodeId}
    (hwaits : c'.Waits a b) : c.Waits a b ∨ act = .send a ∧ b ∈ c.addressed a := by
  obtain ⟨event, calls, hphase, hcall⟩ := waits_iff.mp hwaits
  have hmem : (b, Call.pending) ∈ calls := hcall
  cases await_move h hphase with
  | idle hbefore => exact Or.inl (waits_iff.mpr ⟨_, _, hbefore, hcall⟩)
  | answer p before _ hbefore _ _ _ heq =>
    rw [heq] at hmem
    exact Or.inl (waits_iff.mpr ⟨_, _, hbefore, mem_setCall_pending hmem (respond_ne_pending _ _)⟩)
  | fail p status before hbefore heq =>
    rw [heq] at hmem
    exact Or.inl (waits_iff.mpr ⟨_, _, hbefore, mem_setCall_pending hmem (by simp)⟩)
  | append req hact _ hevent hqueue hclient heq =>
    obtain ⟨rest, hqueue⟩ := hqueue
    rw [heq, List.mem_singleton, Prod.mk.injEq] at hmem
    refine Or.inr ⟨hact, ?_⟩
    rw [addressed, hqueue, hevent]
    simp [hclient, hmem.1]
  | votes req hact _ hevent hqueue heq =>
    obtain ⟨rest, hqueue⟩ := hqueue
    rw [heq] at hmem
    obtain ⟨peer, hpeer, hpair⟩ := List.mem_map.mp hmem
    cases hpair
    refine Or.inr ⟨hact, ?_⟩
    rw [addressed, hqueue, hevent]
    exact hpeer

theorem waits_of_addressed {c c' : Cluster} {a p : NodeId} (h : c.step (.send a) = some c')
    (hp : p ∈ c.addressed a) : c.phase a = .selecting ∧ c'.Waits a p := by
  simp only [step] at h
  split at h
  case isFalse => cases h
  case isTrue hphase =>
    obtain ⟨server, hserver, rfl⟩ := Option.map_eq_some_iff.mp h
    refine ⟨hphase, ?_⟩
    obtain ⟨event, rest, hqueue, _, _, hcases⟩ := RaftServer.selectPeers_cases hserver
    unfold addressed at hp
    rw [show (c.node a).nodeToPeersTx = event :: rest from hqueue] at hp
    rcases hcases with ⟨req, rfl, hclient, hphase'⟩ | ⟨req, rfl, hphase'⟩ | ⟨_, _, hbroken⟩
    · simp only [if_pos hclient, List.mem_singleton] at hp
      subst hp
      exact waits_iff.mpr ⟨_, _, by rw [phase, servers_set_self, hphase'], by simp⟩
    · exact waits_iff.mpr ⟨_, _, by rw [phase, servers_set_self, hphase'],
        List.mem_map.mpr ⟨p, hp, rfl⟩⟩
    · exfalso
      cases event with
      | appendEntriesRequestEvent req =>
        by_cases hclient : req.toNode ∈ (c.servers a).network.peerClients
        · exact hbroken (Or.inl ⟨req, rfl, hclient⟩)
        · simp [hclient] at hp
      | peerVotesRequestEvent req => exact hbroken (Or.inr ⟨req, rfl⟩)
      | _ => simp at hp

theorem waits_of_send {c c' : Cluster} {a x y : NodeId} (h : c.step (.send a) = some c')
    (hwaits : c.Waits x y) : c'.Waits x y := by
  simp only [step] at h
  split at h
  case isFalse => cases h
  case isTrue hphase =>
    obtain ⟨server, _, rfl⟩ := Option.map_eq_some_iff.mp h
    obtain ⟨event, calls, hawaiting, hcall⟩ := waits_iff.mp hwaits
    have hne : x ≠ a := by
      rintro rfl
      rw [hphase] at hawaiting
      cases hawaiting
    exact waits_iff.mpr ⟨event, calls, by rw [phase, servers_set_ne _ _ hne]; exact hawaiting, hcall⟩

end Cluster

theorem Deadlocked.finite {cfg : Config} {c : Cluster} (members : Members cfg c) {S : Set NodeId}
    (h : Deadlocked c.Waits S) : S.Finite := by
  apply Set.Finite.subset (List.finite_toSet cfg.ids)
  intro a ha
  obtain ⟨b, _, hwaits⟩ := h.2 a ha
  obtain ⟨event, calls, hphase, _⟩ := Cluster.waits_iff.mp hwaits
  exact members.mem_ids_of_awaiting hphase

theorem noCircularWait_iff_acyclic {cfg : Config} {c : Cluster} (members : Members cfg c) :
    NoCircularWait c ↔ Acyclic c.Waits := by
  constructor
  · intro hnone a hcycle
    obtain ⟨S, hS⟩ := exists_deadlocked_of_cycle hcycle
    exact hnone S hS
  · intro hacyclic S hS
    exact not_deadlocked_of_acyclic hacyclic (Deadlocked.finite members hS) hS

theorem SendsFreely.acyclic {c c' : Cluster} {act : Action} (hfree : SendsFreely c act)
    (h : c.step act = some c') (hacyclic : Acyclic c.Waits) : Acyclic c'.Waits := by
  by_cases hsend : ∃ a, act = .send a
  · obtain ⟨a, rfl⟩ := hsend
    refine acyclic_of_new_waits a {p | p ∈ c.addressed a} hacyclic ?_
      (hfree a rfl)
    intro x y hwaits
    rcases Cluster.waits_of_step h hwaits with hold | ⟨hact, hp⟩
    · exact Or.inl hold
    · cases hact
      exact Or.inr ⟨rfl, hp⟩
  · intro x hcycle
    refine hacyclic x (TransGen.mono (fun a b hwaits => ?_) _ _ hcycle)
    rcases Cluster.waits_of_step h hwaits with hold | ⟨hact, _⟩
    · exact hold
    · exact absurd ⟨a, hact⟩ hsend

theorem cycle_of_send {c c' : Cluster} {a p : NodeId} (h : c.step (.send a) = some c')
    (hp : p ∈ c.addressed a) (hpath : ReflTransGen c.Waits p a) : TransGen c'.Waits a a :=
  TransGen.head' (Cluster.waits_of_addressed h hp).2
    (ReflTransGen.mono (fun _ _ hwaits => Cluster.waits_of_send h hwaits) _ _ hpath)

/-- Exactly the runs in which every loop sends freely are free of circular waits. -/
theorem noCircularWait_iff {cfg : Config} {h : List (Move Cluster Action)} {c : Cluster}
    (run : Run (cluster cfg) h c) :
    (∀ x ∈ moments h c, NoCircularWait x) ↔ Meets SendsFreely h := by
  constructor
  · intro hnone m hm a hact p hp hpath
    obtain ⟨hstep, _, hafter, _⟩ := run.of_mem hm
    rw [hact] at hstep
    obtain ⟨S, hS⟩ := exists_deadlocked_of_cycle (cycle_of_send hstep hp hpath)
    exact hnone _ hafter S hS
  · intro hfree
    have hacyclic : ∀ x ∈ moments h c, Acyclic x.Waits := by
      refine run.invariant_moments SendsFreely (fun x => Acyclic x.Waits) ?_ ?_ hfree
      · intro a hcycle
        obtain ⟨b, hwaits, _⟩ := TransGen.head'_iff.mp hcycle
        obtain ⟨_, _, hphase, _⟩ := Cluster.waits_iff.mp hwaits
        exact Cluster.not_awaiting_initial cfg a hphase
      · intro h c c' act _ _ inv hcond hstep
        exact hcond.acyclic hstep (inv c (mem_moments_self h c))
    intro x hx
    have hmembers : Members cfg x := run.of_mem_moments (Members cfg) members_of_run hx
    exact (noCircularWait_iff_acyclic hmembers).mpr (hacyclic x hx)

def SendsToIdle (c : Cluster) (act : Action) : Prop :=
  match act with
  | .send a => ∀ p ∈ c.addressed a, p ≠ a ∧ (c.phase p).calls = []
  | _ => True

instance (c : Cluster) : (act : Action) → Decidable (SendsToIdle c act)
  | .send a => inferInstanceAs (Decidable (∀ p ∈ c.addressed a, _ ∧ _))
  | .clusterUp _ | .tick _ | .client _ _ | .deliver _ _ | .deliverOrphan _ | .fail _ _ _
  | .resume _ => inferInstanceAs (Decidable True)

theorem sendsFreely_of_idle {c : Cluster} {act : Action} (h : SendsToIdle c act) :
    SendsFreely c act := by
  rintro a rfl p hp hpath
  obtain ⟨hne, hidle⟩ := h p hp
  rcases ReflTransGen.cases_head hpath with heq | ⟨b, hwaits, _⟩
  · exact hne heq
  · rw [Cluster.Waits, hidle] at hwaits
    cases hwaits

theorem noCircularWait_iff_elected :
    ∃ h c, Run (cluster twoNodes) h c ∧ (c.node "node1").state = .leader ∧
      ∀ x ∈ moments h c, NoCircularWait x := by
  obtain ⟨h, c, run, hm, hleader⟩ := exists_run_of_exec (cluster twoNodes) SendsToIdle
    (fun c => (c.node "node1").state = .leader)
    (twoNodes.allUp ++ electionTimeout "node1" ++ exchange "node1" ["node2"]) (by decide +kernel)
  exact ⟨h, c, run, hleader, (noCircularWait_iff run).mpr
    (hm.imp fun _ _ => sendsFreely_of_idle)⟩

def Action.isFailure : Action → Bool
  | .fail _ _ _ => true
  | _ => false

/-- Two candidates ask each other for their votes, without any failure. -/
theorem not_noCircularWait :
    ∃ h c, Run (cluster twoNodes) h c ∧ Meets (fun _ act => act.isFailure = false) h ∧
      ¬NoCircularWait c := by
  obtain ⟨h, c, run, hm, h12, h21⟩ := exists_run_of_exec (cluster twoNodes)
    (fun _ act => act.isFailure = false)
    (fun c => c.Waits "node1" "node2" ∧ c.Waits "node2" "node1")
    (twoNodes.allUp ++ electionTimeout "node1" ++ electionTimeout "node2" ++
      [.send "node1", .send "node2"]) (by decide +kernel)
  refine ⟨h, c, run, hm, fun hnone => hnone {"node1", "node2"} ⟨⟨"node1", by simp⟩, ?_⟩⟩
  rintro a (rfl | rfl)
  · exact ⟨"node2", by simp, h12⟩
  · exact ⟨"node1", by simp, h21⟩

end Rafting
