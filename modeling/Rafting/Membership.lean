import Rafting.ClusterSteps
import Mathlib.Data.List.Perm.Basic

/-! Facts that no step changes: who a node is, who its peers are, and whom its
calls are addressed to. -/
namespace Rafting
open Transition

namespace Cluster

theorem node_identity {c c' : Cluster} {act : Action} (h : c.step act = some c') (v : NodeId) :
    (c'.node v).id = (c.node v).id ∧ (c'.node v).peers = (c.node v).peers := by
  cases node_move h v with
  | idle heq => exact ⟨by rw [heq], by rw [heq]⟩
  | clusterUp _ heq => exact ⟨by rw [heq], by rw [heq]⟩
  | tick _ _ htick =>
    rcases RaftNode.tick_cases htick with ⟨_, heq⟩ | ⟨_, _, _, heq⟩ | ⟨_, _, hcandidate⟩
    · exact ⟨by rw [heq], by rw [heq]⟩
    · exact ⟨by rw [heq], by rw [heq]⟩
    · obtain ⟨_, hid, hpeers, _⟩ := RaftNode.becomeCandidate_ok hcandidate
      exact ⟨hid, hpeers⟩
  | client _ _ _ _ heq => exact ⟨by rw [heq], by rw [heq]⟩
  | send _ _ _ _ _ heq => exact ⟨by rw [heq], by rw [heq]⟩
  | vote _ _ _ heq =>
    rw [heq, RaftNode.stepPeerVotesRequest_eq]
    split <;> exact ⟨rfl, rfl⟩
  | append _ _ _ heq => exact ⟨by rw [heq]; simp, by rw [heq]; simp⟩
  | votes _ calls _ _ heq =>
    rcases RaftNode.stepPeerVotesResponse_cases (c.node v) (PeerNetwork.voteResponses calls) with
      ⟨_, hnode⟩ | ⟨_, hnode⟩ <;>
      exact ⟨by rw [heq, hnode]; rfl, by rw [heq, hnode]; rfl⟩
  | reply _ _ response _ _ hstep =>
    rcases RaftNode.stepAppendEntriesResponse_cases hstep with ⟨_, _, heq⟩ | heq |
      ⟨_, _, _, _, heq⟩ | ⟨_, _, _, _, _, heq⟩
    · exact ⟨by rw [heq]; rfl, by rw [heq]; rfl⟩
    · exact ⟨by rw [heq], by rw [heq]⟩
    · obtain ⟨index, hloop⟩ := RaftNode.commitLoop_eq ((c.node v).recordMatch response)
      exact ⟨by rw [heq, hloop]; rfl, by rw [heq, hloop]; rfl⟩
    · exact ⟨by rw [heq], by rw [heq]⟩

theorem network_move {c c' : Cluster} {act : Action} (h : c.step act = some c') (v : NodeId) :
    (c'.servers v).network = (c.servers v).network ∨
      (c'.servers v).network = (c.servers v).network.waitForPeers := by
  cases server_move h v with
  | idle heq => exact Or.inl (by rw [heq])
  | clusterUp _ _ heq => exact Or.inr (by rw [heq]; rfl)
  | tick _ _ heq =>
    rw [heq, RaftServer.selectTick]
    cases (c.servers v).node.tick <;> exact Or.inl rfl
  | client command _ _ heq =>
    rw [heq, RaftServer.selectClient]
    split <;> exact Or.inl rfl
  | send _ _ heq =>
    obtain ⟨_, _, _, hnetwork, _⟩ := RaftServer.selectPeers_cases heq
    exact Or.inl hnetwork
  | handle event _ _ heq =>
    rw [heq, RaftServer.selectServer]
    split <;> exact Or.inl rfl
  | answer _ _ _ _ _ _ _ _ heq => exact Or.inl (by rw [heq, RaftServer.answer_network])
  | fail _ _ _ _ _ _ _ heq => exact Or.inl (by rw [heq, RaftServer.answer_network])
  | resume _ heq =>
    obtain ⟨_, _, _, _, hnetwork, _⟩ := RaftServer.resume_cases heq
    exact Or.inl hnetwork

theorem servers_of_stopped {c c' : Cluster} {act : Action} (h : c.step act = some c')
    {v : NodeId} {fault : Fault} (hstopped : c.phase v = .stopped fault) :
    c'.servers v = c.servers v := by
  cases server_move h v with
  | idle heq => exact heq
  | clusterUp _ hphase _ => rw [hstopped] at hphase; cases hphase
  | tick _ hphase _ => rw [hstopped] at hphase; cases hphase
  | client _ _ hphase _ => rw [hstopped] at hphase; cases hphase
  | send _ hphase _ => rw [hstopped] at hphase; cases hphase
  | handle _ _ hphase _ => rw [hstopped] at hphase; cases hphase
  | answer _ _ _ _ hphase _ _ _ _ => rw [hstopped] at hphase; cases hphase
  | fail _ _ _ _ _ hphase _ _ => rw [hstopped] at hphase; cases hphase
  | resume _ heq =>
    obtain ⟨_, _, hphase, _⟩ := RaftServer.resume_cases heq
    rw [show (c.servers v).phase = _ from hstopped] at hphase
    cases hphase

theorem cluster_init (cfg : Config) : (cluster cfg).init = initial cfg := rfl

@[simp] theorem node_initial (cfg : Config) (a : NodeId) :
    (initial cfg).node a = RaftNode.new a (cfg.peersOf a) (cfg.timeoutOf a) := by
  simp only [node, initial]
  split <;> rfl

@[simp] theorem pipeline_initial (cfg : Config) (a : NodeId) : (initial cfg).pipeline a = [] := by
  simp only [pipeline, initial]
  split <;> rfl

theorem not_awaiting_initial (cfg : Config) (a : NodeId) {event : RaftEvent}
    {calls : List (NodeId × Call)} : (initial cfg).phase a ≠ .awaiting event calls := by
  intro hphase
  simp only [phase, initial] at hphase
  split at hphase <;> cases hphase

theorem not_leader_of_start {cfg : Config} {x : Cluster}
    (hx : x ∈ moments ([] : List (Move Cluster Action)) (cluster cfg).init) (a : NodeId) :
    (x.node a).state ≠ .leader := by
  intro hleader
  rw [eq_of_mem_moments_nil hx, cluster_init, node_initial] at hleader
  cases hleader

theorem map_fst_setCall (calls : List (NodeId × Call)) (p : NodeId) (outcome : Call) :
    (setCall calls p outcome).map Prod.fst = calls.map Prod.fst := by
  simp only [setCall, List.map_map]
  apply List.map_congr_left
  intro call _
  by_cases h : call.1 = p <;> simp [h]

theorem map_fst_pending (clients : List NodeId) :
    (clients.map fun peer => (peer, Call.pending)).map Prod.fst = clients := by
  simp [Function.comp_def]

end Cluster

theorem mem_pipeline_of_awaiting {c : Cluster} {a : NodeId} {event : RaftEvent}
    {calls : List (NodeId × Call)} (h : c.phase a = .awaiting event calls) :
    event ∈ c.pipeline a := by
  rw [Cluster.pipeline, RaftServer.pipeline_of_awaiting h]
  exact List.mem_cons_self

/-- What a cluster keeps of its configuration through every run. -/
structure Members (cfg : Config) (c : Cluster) : Prop where
  id : ∀ a, (c.node a).id = a
  peers : ∀ a, (c.node a).peers = cfg.peersOf a
  network : ∀ a, (c.servers a).network.peers = cfg.peersOf a
  clients : ∀ a, ((c.servers a).network.peerClients).Sublist (cfg.peersOf a)
  outsiders : ∀ a, a ∉ cfg.ids → ∃ fault, c.phase a = .stopped fault
  targets : ∀ a event calls, c.phase a = .awaiting event calls →
    (calls.map Prod.fst).Sublist (cfg.peersOf a) ∨
      ∃ p ∈ cfg.peersOf a, calls.map Prod.fst = [p]

theorem Config.peersOf_nodup (cfg : Config) {a : NodeId} (ha : a ∈ cfg.ids) :
    (cfg.peersOf a).Nodup :=
  (cfg.peersOf_perm a ha).nodup_iff.mpr (cfg.ids_nodup.erase a)

theorem Config.mem_peersOf (cfg : Config) {a p : NodeId} (ha : a ∈ cfg.ids) :
    p ∈ cfg.peersOf a ↔ p ≠ a ∧ p ∈ cfg.ids := by
  rw [(cfg.peersOf_perm a ha).mem_iff, cfg.ids_nodup.mem_erase_iff]

theorem Config.length_peersOf (cfg : Config) {a : NodeId} (ha : a ∈ cfg.ids) :
    (cfg.peersOf a).length + 1 = cfg.ids.length := by
  have hpos : 0 < cfg.ids.length := List.length_pos_of_mem ha
  rw [(cfg.peersOf_perm a ha).length_eq, List.length_erase_of_mem ha]
  omega

theorem members_initial (cfg : Config) : Members cfg (Cluster.initial cfg) where
  id := fun a => by rw [Cluster.node_initial]; rfl
  peers := fun a => by rw [Cluster.node_initial]; rfl
  network := by
    intro a
    simp only [Cluster.initial]
    split <;> rfl
  clients := by
    intro a
    simp only [Cluster.initial]
    split <;> exact List.nil_sublist _
  outsiders := by
    intro a ha
    simp only [Cluster.phase, Cluster.initial, if_neg ha]
    exact ⟨_, rfl⟩
  targets := fun a _ _ hphase => absurd hphase (Cluster.not_awaiting_initial cfg a)

theorem Members.step {cfg : Config} {c c' : Cluster} {act : Action} (inv : Members cfg c)
    (h : c.step act = some c') : Members cfg c' where
  id := fun a => (Cluster.node_identity h a).1.trans (inv.id a)
  peers := fun a => (Cluster.node_identity h a).2.trans (inv.peers a)
  network := by
    intro a
    rcases Cluster.network_move h a with heq | heq <;> rw [heq]
    · exact inv.network a
    · exact inv.network a
  clients := by
    intro a
    rcases Cluster.network_move h a with heq | heq <;> rw [heq]
    · exact inv.clients a
    · exact (inv.network a) ▸ List.Sublist.refl _
  outsiders := by
    intro a ha
    obtain ⟨fault, hstopped⟩ := inv.outsiders a ha
    exact ⟨fault, by rw [Cluster.phase, Cluster.servers_of_stopped h hstopped]; exact hstopped⟩
  targets := by
    intro a event calls hphase
    cases Cluster.await_move h hphase with
    | idle hbefore => exact inv.targets a event calls hbefore
    | answer p before _ hbefore _ _ _ heq =>
      rw [heq, Cluster.map_fst_setCall]
      exact inv.targets a event before hbefore
    | fail p status before hbefore heq =>
      rw [heq, Cluster.map_fst_setCall]
      exact inv.targets a event before hbefore
    | append req _ _ _ _ hclient heq =>
      exact Or.inr ⟨req.toNode, (inv.clients a).subset hclient, by rw [heq]; rfl⟩
    | votes req _ _ _ _ heq =>
      left
      rw [heq, Cluster.map_fst_pending]
      exact inv.clients a

theorem members_of_run {cfg : Config} {h : List (Move Cluster Action)} {c : Cluster}
    (run : Run (cluster cfg) h c) : Members cfg c :=
  run.induct (fun _ c => Members cfg c) (members_initial cfg) fun _ inv hstep => inv.step hstep

theorem Members.mem_ids {cfg : Config} {c : Cluster} (inv : Members cfg c) {a : NodeId}
    (h : ∀ fault, c.phase a ≠ .stopped fault) : a ∈ cfg.ids := by
  by_contra ha
  obtain ⟨fault, hstopped⟩ := inv.outsiders a ha
  exact h fault hstopped

theorem Members.mem_ids_of_selecting {cfg : Config} {c : Cluster} (inv : Members cfg c)
    {a : NodeId} (h : c.phase a = .selecting) : a ∈ cfg.ids := by
  apply inv.mem_ids
  intro fault hstopped
  rw [h] at hstopped
  cases hstopped

theorem Members.mem_ids_of_awaiting {cfg : Config} {c : Cluster} (inv : Members cfg c)
    {a : NodeId} {event : RaftEvent} {calls : List (NodeId × Call)}
    (h : c.phase a = .awaiting event calls) : a ∈ cfg.ids := by
  apply inv.mem_ids
  intro fault hstopped
  rw [h] at hstopped
  cases hstopped

end Rafting
