import Rafting.RaftServer
import Mathlib.Data.List.Nodup
import Mathlib.Data.List.Perm.Subperm

/-! `wait_for_peers`: rounds of connection attempts, until every peer has a client. -/
namespace Rafting

namespace PeerNetwork

def insertClient (clients : List NodeId) (peer : NodeId) : List NodeId :=
  if peer ∈ clients then clients else clients ++ [peer]

/-- One round of `wait_for_peers`: all peers are called, and those that accept get clients. -/
def connect (network : PeerNetwork) (accepts : NodeId → Bool) : PeerNetwork :=
  { network with
    peerClients := (network.peers.filter accepts).foldl insertClient network.peerClients }

/-- The loop of `wait_for_peers` over the rounds made so far; the second result tells that
it has sent its notification and returned. -/
def waitLoop (network : PeerNetwork) : List (NodeId → Bool) → PeerNetwork × Bool
  | [] => (network, false)
  | accepts :: rest =>
    let network := network.connect accepts
    if network.peerClients.length = network.peers.length then (network, true)
    else network.waitLoop rest

theorem foldl_insertClient {clients : List NodeId} (hclients : clients.Nodup) (ps : List NodeId) :
    (ps.foldl insertClient clients).Nodup ∧
      ∀ p, p ∈ ps.foldl insertClient clients ↔ p ∈ clients ∨ p ∈ ps := by
  induction ps generalizing clients with
  | nil => exact ⟨hclients, by simp⟩
  | cons x ps ih =>
    have hinsert : (insertClient clients x).Nodup ∧
        ∀ p, p ∈ insertClient clients x ↔ p ∈ clients ∨ p = x := by
      unfold insertClient
      split
      · rename_i hx
        refine ⟨hclients, fun p => ⟨Or.inl, ?_⟩⟩
        rintro (hp | rfl)
        · exact hp
        · exact hx
      · rename_i hx
        refine ⟨List.Nodup.append hclients (List.nodup_singleton x) ?_, by simp⟩
        simpa using hx
    obtain ⟨hnodup, hmem⟩ := ih hinsert.1
    refine ⟨hnodup, fun p => ?_⟩
    rw [List.foldl_cons, hmem, hinsert.2, List.mem_cons, or_assoc]

structure Connecting (network : PeerNetwork) : Prop where
  peers : network.peers.Nodup
  clients : network.peerClients.Nodup
  subset : network.peerClients ⊆ network.peers

theorem connecting_new {nodeId : NodeId} {peers : List NodeId} (h : peers.Nodup) :
    (PeerNetwork.new nodeId peers).Connecting where
  peers := h
  clients := List.nodup_nil
  subset := List.nil_subset _

theorem mem_connect {network : PeerNetwork} (inv : network.Connecting) (accepts : NodeId → Bool)
    (p : NodeId) : p ∈ (network.connect accepts).peerClients ↔
      p ∈ network.peerClients ∨ p ∈ network.peers ∧ accepts p = true := by
  rw [connect, (foldl_insertClient inv.clients _).2, List.mem_filter]

theorem Connecting.connect {network : PeerNetwork} (inv : network.Connecting)
    (accepts : NodeId → Bool) : (network.connect accepts).Connecting where
  peers := inv.peers
  clients := (foldl_insertClient inv.clients _).1
  subset := fun p hp => by
    rcases (mem_connect inv accepts p).mp hp with hp | ⟨hp, _⟩
    · exact inv.subset hp
    · exact hp

theorem Connecting.length_eq_iff {network : PeerNetwork} (inv : network.Connecting) :
    network.peerClients.length = network.peers.length ↔ network.peers ⊆ network.peerClients := by
  constructor
  · intro hlength
    have hsub := List.subperm_of_subset inv.clients inv.subset
    exact (hsub.perm_of_length_le (Nat.le_of_eq hlength.symm)).symm.subset
  · intro hall
    exact ((List.perm_ext_iff_of_nodup inv.clients inv.peers).mpr fun p =>
      ⟨fun hp => inv.subset hp, fun hp => hall hp⟩).length_eq

theorem waitLoop_returns_iff {network : PeerNetwork} (inv : network.Connecting)
    (rounds : List (NodeId → Bool)) :
    (network.waitLoop rounds).2 = true ↔ rounds ≠ [] ∧
      ∀ p ∈ network.peers, p ∈ network.peerClients ∨ ∃ accepts ∈ rounds, accepts p = true := by
  induction rounds generalizing network with
  | nil => simp [waitLoop]
  | cons accepts rest ih =>
    have inv' := inv.connect accepts
    have hround : ∀ p ∈ network.peers, p ∈ (network.connect accepts).peerClients ↔
        p ∈ network.peerClients ∨ accepts p = true := fun p hp => by
      rw [mem_connect inv, and_iff_right hp]
    simp only [waitLoop]
    split
    · rename_i hlength
      have hall := inv'.length_eq_iff.mp hlength
      refine ⟨fun _ => ⟨List.cons_ne_nil _ _, fun p hp => ?_⟩, fun _ => rfl⟩
      exact ((hround p hp).mp (hall hp)).imp_right fun h => ⟨accepts, List.mem_cons_self, h⟩
    · rename_i hlength
      rw [ih inv']
      have hstep : (∀ p ∈ network.peers, p ∈ (network.connect accepts).peerClients ∨
            ∃ later ∈ rest, later p = true) ↔
          ∀ p ∈ network.peers, p ∈ network.peerClients ∨
            ∃ later ∈ accepts :: rest, later p = true := by
        refine forall₂_congr fun p hp => ?_
        rw [hround p hp, or_assoc]
        simp only [List.mem_cons, exists_eq_or_imp]
      refine ⟨fun h => ⟨List.cons_ne_nil _ _, hstep.mp h.2⟩, fun h => ⟨?_, hstep.mpr h.2⟩⟩
      -- without another round every peer would have accepted in this one
      rintro rfl
      refine hlength (inv'.length_eq_iff.mpr fun p hp => ?_)
      simpa using hstep.mpr h.2 p hp

theorem waitLoop_clients {network : PeerNetwork} (inv : network.Connecting)
    (rounds : List (NodeId → Bool)) (h : (network.waitLoop rounds).2 = true) :
    (network.waitLoop rounds).1.nodeId = network.nodeId ∧
      (network.waitLoop rounds).1.peers = network.peers ∧
      (network.waitLoop rounds).1.peerClients.Perm network.peers := by
  induction rounds generalizing network with
  | nil => cases h
  | cons accepts rest ih =>
    simp only [waitLoop] at h ⊢
    split at h
    · rename_i hlength
      rw [if_pos hlength]
      have inv' := inv.connect accepts
      refine ⟨rfl, rfl, (List.perm_ext_iff_of_nodup inv'.clients inv'.peers).mpr fun p => ?_⟩
      exact ⟨fun hp => inv'.subset hp, fun hp => inv'.length_eq_iff.mp hlength hp⟩
    · rename_i hlength
      rw [if_neg hlength]
      exact ih (inv.connect accepts) h

/-- The notification comes after the first round by which every peer has accepted once,
and then there is one client for each peer. -/
theorem waitLoop_spec {nodeId : NodeId} {peers : List NodeId} (hpeers : peers.Nodup)
    (rounds : List (NodeId → Bool)) :
    (((new nodeId peers).waitLoop rounds).2 = true ↔
      rounds ≠ [] ∧ ∀ p ∈ peers, ∃ accepts ∈ rounds, accepts p = true) ∧
    (((new nodeId peers).waitLoop rounds).2 = true →
      ((new nodeId peers).waitLoop rounds).1.peerClients.Perm
        (new nodeId peers).waitForPeers.peerClients) := by
  have inv := @connecting_new nodeId peers hpeers
  refine ⟨(waitLoop_returns_iff inv rounds).trans ?_, fun h => (waitLoop_clients inv rounds h).2.2⟩
  simp [new]

/-- One peer is up in the first round and the other one in the third, when the first is gone. -/
theorem waitLoop_spec_late :
    ["node2", "node3"].Nodup ∧ ((new "node1" ["node2", "node3"]).waitLoop
      [(· = "node2"), fun _ => false, (· = "node3")]).2 = true :=
  ⟨by decide, (waitLoop_spec (by decide) _).1.mpr ⟨by simp, by simp⟩⟩

end PeerNetwork

end Rafting
