import Rafting.Membership
import Mathlib.Data.List.AList

/-! `config.rs` and `main.rs`: from a configuration file to the loops of its nodes. -/
namespace Rafting
open Fallible

structure NodeConfig where
  nodeId : NodeId
  grpcAddress : String
  webAddress : String
  peers : List NodeId
deriving DecidableEq

structure AppConfig where
  tickIntervalMs : Nat
  cluster : List NodeConfig
deriving DecidableEq

/-- A `HashMap<String, String>` of addresses. -/
abbrev AddressMap := AList fun _ : NodeId => String

/-- `collect::<HashMap<_, _>>`: of two pairs with one key, the later one stays. -/
def AddressMap.collect (pairs : List (NodeId × String)) : AddressMap :=
  pairs.foldl (fun map pair => map.insert pair.1 pair.2) ∅

def missingPeer (peer : NodeId) : Fault :=
  .panic ("Peer config must be present for peer: " ++ peer)

/-- Panic of `expect` on an address that does not parse. -/
def invalidAddress : Fault :=
  .panic "Invalid address: AddrParseError(Socket)"

/-- Panic of `tokio::time::interval` on a zero period. -/
def zeroPeriod : Fault :=
  .panic "`period` must be non-zero."

namespace AppConfig

def ids (self : AppConfig) : List NodeId :=
  self.cluster.map NodeConfig.nodeId

/-- The `find` of a node by its id: the first one counts. -/
def findNode (self : AppConfig) (id : NodeId) : Option NodeConfig :=
  self.cluster.find? fun n => n.nodeId = id

def peerAddress (self : AppConfig) (peer : NodeId) : RaftResult (NodeId × String) :=
  match self.findNode peer with
  | none => .error (missingPeer peer)
  | some config => .ok (config.nodeId, "http://" ++ config.grpcAddress)

def peers (self : AppConfig) (node : NodeConfig) : RaftResult AddressMap := do
  let pairs ← node.peers.mapM self.peerAddress
  .ok (.collect pairs)

/-- `main` up to the loop in `run`, which makes its ticker first. `parse` is the standard
library's parser of socket addresses, `names` the order in which the map yields its keys,
and `electionTimeoutTicks` the number drawn by `RaftNode::new`. -/
def main {Address : Type} (self : AppConfig) (parse : String → Option Address)
    (names : List NodeId → List NodeId) (electionTimeoutTicks : Nat) (nodeId : NodeId) :
    RaftResult RaftServer :=
  match self.findNode nodeId with
  | none => .error unwrapNone
  | some config => do
    let peers ← self.peers config
    if parse config.grpcAddress = none ∨ parse config.webAddress = none then .error invalidAddress
    else if self.tickIntervalMs = 0 then .error zeroPeriod
    else .ok (RaftServer.start (RaftNode.new nodeId (names peers.keys) electionTimeoutTicks))

structure Complete (app : AppConfig) : Prop where
  distinct : app.ids.Nodup
  peers : ∀ n ∈ app.cluster, ∀ p, p ∈ n.peers ↔ p ≠ n.nodeId ∧ p ∈ app.ids

end AppConfig

/-! ## The addresses of the peers -/

theorem AddressMap.mem_foldl_insert (pairs : List (NodeId × String)) (map : AddressMap)
    (p : NodeId) :
    p ∈ pairs.foldl (fun map pair => map.insert pair.1 pair.2) map ↔
      p ∈ map ∨ p ∈ pairs.map Prod.fst := by
  induction pairs generalizing map with
  | nil => simp
  | cons pair pairs ih =>
    rw [List.foldl_cons, ih, AList.mem_insert, List.map_cons, List.mem_cons]
    tauto

theorem AddressMap.mem_keys_collect {pairs : List (NodeId × String)} {p : NodeId} :
    p ∈ (collect pairs).keys ↔ p ∈ pairs.map Prod.fst := by
  rw [← AList.mem_keys, collect, mem_foldl_insert]
  simp

theorem AddressMap.lookup_foldl_insert {pairs : List (NodeId × String)} {map : AddressMap}
    {p : NodeId} {address : String} (hagree : ∀ pair ∈ pairs, pair.1 = p → pair.2 = address)
    (hmap : map.lookup p = some address ∨ p ∈ pairs.map Prod.fst) :
    (pairs.foldl (fun map pair => map.insert pair.1 pair.2) map).lookup p = some address := by
  induction pairs generalizing map with
  | nil => simpa using hmap
  | cons pair pairs ih =>
    rw [List.foldl_cons]
    refine ih (fun pair hpair => hagree pair (List.mem_cons_of_mem _ hpair)) ?_
    by_cases hp : p = pair.1
    · subst hp
      rw [AList.lookup_insert, hagree pair List.mem_cons_self rfl]
      exact Or.inl rfl
    · rw [AList.lookup_insert_ne hp]
      exact hmap.imp_right fun hmem => List.mem_of_ne_of_mem hp hmem

namespace AppConfig

variable {app : AppConfig}

theorem findNode_nodeId {id : NodeId} {n : NodeConfig} (h : app.findNode id = some n) :
    n ∈ app.cluster ∧ n.nodeId = id :=
  ⟨List.mem_of_find?_eq_some h, by simpa using List.find?_some h⟩

theorem findNode_isSome {id : NodeId} : (∃ n, app.findNode id = some n) ↔ id ∈ app.ids := by
  constructor
  · rintro ⟨n, hfind⟩
    obtain ⟨hmem, rfl⟩ := findNode_nodeId hfind
    exact List.mem_map_of_mem hmem
  · intro hmem
    obtain ⟨n, hn, rfl⟩ := List.mem_map.mp hmem
    have hsome : (app.findNode n.nodeId).isSome := List.find?_isSome.mpr ⟨n, hn, by simp⟩
    exact Option.isSome_iff_exists.mp hsome

theorem findNode_of_mem (hdistinct : app.ids.Nodup) {n : NodeConfig} (hn : n ∈ app.cluster) :
    app.findNode n.nodeId = some n := by
  obtain ⟨n', hfind⟩ := findNode_isSome.mpr (List.mem_map_of_mem hn)
  obtain ⟨hn', hid⟩ := findNode_nodeId hfind
  rw [hfind, List.inj_on_of_nodup_map hdistinct hn' hn hid]

theorem peerAddress_eq_ok {p : NodeId} {pair : NodeId × String} :
    app.peerAddress p = .ok pair ↔
      ∃ config, app.findNode p = some config ∧ pair = (p, "http://" ++ config.grpcAddress) := by
  unfold peerAddress
  cases hfind : app.findNode p with
  | none => simp
  | some config =>
    obtain ⟨_, rfl⟩ := findNode_nodeId hfind
    simp [eq_comm]

structure Resolves (app : AppConfig) (node : NodeConfig) (map : AddressMap) : Prop where
  keys : ∀ p, p ∈ map.keys ↔ p ∈ node.peers
  address : ∀ p ∈ node.peers, ∃ config, app.findNode p = some config ∧
    map.lookup p = some ("http://" ++ config.grpcAddress)

theorem resolves_of_peers {node : NodeConfig} {map : AddressMap} (h : app.peers node = .ok map) :
    app.Resolves node map := by
  obtain ⟨pairs, hpairs, hmap⟩ := ok_of_bind h
  cases hmap
  have hkeys : ∀ p, p ∈ pairs.map Prod.fst ↔ p ∈ node.peers := by
    intro p
    constructor
    · intro hmem
      obtain ⟨pair, hpair, rfl⟩ := List.mem_map.mp hmem
      obtain ⟨p, hp, haddress⟩ := mem_of_mapM_ok hpairs hpair
      obtain ⟨config, _, rfl⟩ := peerAddress_eq_ok.mp haddress
      exact hp
    · intro hp
      obtain ⟨pair, hpair, haddress⟩ := exists_mem_of_mapM_ok hpairs hp
      obtain ⟨config, _, rfl⟩ := peerAddress_eq_ok.mp haddress
      exact List.mem_map_of_mem hpair
  refine ⟨fun p => AddressMap.mem_keys_collect.trans (hkeys p), fun p hp => ?_⟩
  obtain ⟨_, _, haddress⟩ := exists_mem_of_mapM_ok hpairs hp
  obtain ⟨config, hfind, _⟩ := peerAddress_eq_ok.mp haddress
  refine ⟨config, hfind, AddressMap.lookup_foldl_insert ?_ (Or.inr ((hkeys p).mpr hp))⟩
  intro pair hpair hfirst
  obtain ⟨p', _, haddress'⟩ := mem_of_mapM_ok hpairs hpair
  obtain ⟨config', hfind', rfl⟩ := peerAddress_eq_ok.mp haddress'
  obtain rfl : p' = p := hfirst
  rw [hfind] at hfind'
  cases hfind'
  rfl

theorem exists_peers {node : NodeConfig} (hpeers : ∀ p ∈ node.peers, p ∈ app.ids) :
    ∃ map, app.peers node = .ok map := by
  cases hpairs : node.peers.mapM app.peerAddress with
  | ok pairs => exact ⟨.collect pairs, by rw [peers, hpairs]; rfl⟩
  | error fault =>
    obtain ⟨p, hp, herror⟩ := exists_of_mapM_error hpairs
    obtain ⟨config, hfind⟩ := findNode_isSome.mpr (hpeers p hp)
    rw [peerAddress, hfind] at herror
    cases herror

/-! ## The loops -/

variable {Address : Type} {parse : String → Option Address} {names : List NodeId → List NodeId}
  {timeout : Nat}

theorem main_ok {a : NodeId} {server : RaftServer} (h : app.main parse names timeout a = .ok server) :
    ∃ config map, app.findNode a = some config ∧ app.peers config = .ok map ∧
      parse config.grpcAddress ≠ none ∧ parse config.webAddress ≠ none ∧ 0 < app.tickIntervalMs ∧
      server = RaftServer.start (RaftNode.new a (names map.keys) timeout) := by
  unfold main at h
  split at h
  · cases h
  · rename_i config hfind
    obtain ⟨map, hmap, hrest⟩ := ok_of_bind h
    split at hrest
    · cases hrest
    · rename_i haddress
      split at hrest
      · cases hrest
      · rename_i hperiod
        cases hrest
        exact ⟨config, map, hfind, hmap, fun h => haddress (Or.inl h), fun h => haddress (Or.inr h),
          Nat.pos_of_ne_zero hperiod, rfl⟩

theorem main_of_peers {a : NodeId} {config : NodeConfig} {map : AddressMap}
    (hfind : app.findNode a = some config) (hmap : app.peers config = .ok map)
    (hgrpc : parse config.grpcAddress ≠ none) (hweb : parse config.webAddress ≠ none)
    (hperiod : 0 < app.tickIntervalMs) :
    app.main parse names timeout a =
      .ok (RaftServer.start (RaftNode.new a (names map.keys) timeout)) := by
  simp only [main, hfind, hmap]
  exact (if_neg fun h => h.elim hgrpc hweb).trans (if_neg (Nat.ne_of_gt hperiod))

def peerNames (app : AppConfig) (names : List NodeId → List NodeId) (a : NodeId) : List NodeId :=
  match app.findNode a with
  | none => []
  | some config =>
    match app.peers config with
    | .ok map => names map.keys
    | .error _ => []

theorem peerNames_of_peers {a : NodeId} {config : NodeConfig} {map : AddressMap}
    (hfind : app.findNode a = some config) (hmap : app.peers config = .ok map) :
    app.peerNames names a = names map.keys := by
  simp only [peerNames, hfind, hmap]

theorem Complete.peers_perm (hcomplete : app.Complete) {n : NodeConfig} (hn : n ∈ app.cluster) :
    ∃ map, app.peers n = .ok map ∧ map.keys.Perm (app.ids.erase n.nodeId) := by
  have hlisted : ∀ p ∈ n.peers, p ∈ app.ids := fun p hp => ((hcomplete.peers n hn p).mp hp).2
  obtain ⟨map, hmap⟩ := exists_peers hlisted
  refine ⟨map, hmap, (List.perm_ext_iff_of_nodup map.keys_nodup (hcomplete.distinct.erase _)).mpr ?_⟩
  intro p
  rw [(resolves_of_peers hmap).keys, hcomplete.peers n hn, hcomplete.distinct.mem_erase_iff]

end AppConfig

/-- The nodes of a configuration file start as the nodes of a cluster exactly where the file
is complete, its addresses parse and its ticks take time. -/
theorem starts_cluster_iff {Address : Type} (app : AppConfig) (parse : String → Option Address)
    (names : NodeId → List NodeId → List NodeId) (timeoutOf : NodeId → Nat)
    (hnames : ∀ a keys, (names a keys).Perm keys)
    (htimeouts : ∀ a, electionMinTimeoutTicks ≤ timeoutOf a ∧
      timeoutOf a ≤ electionMaxTimeoutTicks) :
    (∃ cfg : Config, cfg.ids = app.ids ∧ ∀ a ∈ app.ids,
      app.main parse (names a) (timeoutOf a) a = .ok ((Cluster.initial cfg).servers a)) ↔
    app.Complete ∧ (app.cluster ≠ [] → 0 < app.tickIntervalMs) ∧
      ∀ n ∈ app.cluster, parse n.grpcAddress ≠ none ∧ parse n.webAddress ≠ none := by
  constructor
  · rintro ⟨cfg, hids, hstarts⟩
    have hdistinct : app.ids.Nodup := hids ▸ cfg.ids_nodup
    have hmain : ∀ n ∈ app.cluster, ∃ map, app.peers n = .ok map ∧
        0 < app.tickIntervalMs ∧ (parse n.grpcAddress ≠ none ∧ parse n.webAddress ≠ none) ∧
        cfg.peersOf n.nodeId = names n.nodeId map.keys := by
      intro n hn
      obtain ⟨config, map, hfind, hmap, hgrpc, hweb, hperiod, hserver⟩ :=
        AppConfig.main_ok (hstarts n.nodeId (List.mem_map_of_mem hn))
      rw [AppConfig.findNode_of_mem hdistinct hn] at hfind
      cases hfind
      have hpeers := (members_initial cfg).peers n.nodeId
      rw [Cluster.node, hserver] at hpeers
      exact ⟨map, hmap, hperiod, ⟨hgrpc, hweb⟩, hpeers.symm⟩
    refine ⟨⟨hdistinct, fun n hn p => ?_⟩, fun hsome => ?_, fun n hn => ?_⟩
    · obtain ⟨map, hmap, _, _, hpeers⟩ := hmain n hn
      have hmember : n.nodeId ∈ cfg.ids := hids ▸ List.mem_map_of_mem hn
      rw [← (AppConfig.resolves_of_peers hmap).keys, ← (hnames n.nodeId map.keys).mem_iff, ← hpeers,
        cfg.mem_peersOf hmember, hids]
    · obtain ⟨n, hn⟩ := List.exists_mem_of_ne_nil _ hsome
      obtain ⟨_, _, hperiod, _⟩ := hmain n hn
      exact hperiod
    · obtain ⟨_, _, _, haddresses, _⟩ := hmain n hn
      exact haddresses
  · rintro ⟨hcomplete, hperiod, haddresses⟩
    have hnode : ∀ a ∈ app.ids, ∃ n ∈ app.cluster, n.nodeId = a ∧ app.findNode a = some n := by
      intro a ha
      obtain ⟨n, hn, rfl⟩ := List.mem_map.mp ha
      exact ⟨n, hn, rfl, AppConfig.findNode_of_mem hcomplete.distinct hn⟩
    let cfg : Config := {
      ids := app.ids
      peersOf := fun a => app.peerNames (names a) a
      timeoutOf := timeoutOf
      ids_nodup := hcomplete.distinct
      peersOf_perm := fun a ha => by
        obtain ⟨n, hn, rfl, hfind⟩ := hnode a ha
        obtain ⟨map, hmap, hperm⟩ := hcomplete.peers_perm hn
        rw [AppConfig.peerNames_of_peers hfind hmap]
        exact (hnames _ _).trans hperm
      timeoutOf_range := fun a _ => htimeouts a }
    refine ⟨cfg, rfl, fun a ha => ?_⟩
    obtain ⟨n, hn, rfl, hfind⟩ := hnode a ha
    obtain ⟨map, hmap, _⟩ := hcomplete.peers_perm hn
    rw [AppConfig.main_of_peers hfind hmap (haddresses n hn).1 (haddresses n hn).2
      (hperiod (List.ne_nil_of_mem hn))]
    have hpeers : cfg.peersOf n.nodeId = names n.nodeId map.keys :=
      AppConfig.peerNames_of_peers hfind hmap
    simp only [Cluster.initial]
    rw [if_pos ha, hpeers]

/-- `config/cluster_config.yaml`. -/
def clusterConfig : AppConfig where
  tickIntervalMs := 1000
  cluster := [
    ⟨"node1", "127.0.0.1:7070", "127.0.0.1:7071", ["node2", "node3"]⟩,
    ⟨"node2", "127.0.0.1:8080", "127.0.0.1:8081", ["node1", "node3"]⟩,
    ⟨"node3", "127.0.0.1:9090", "127.0.0.1:9091", ["node1", "node2"]⟩]

theorem clusterConfig_complete : clusterConfig.Complete where
  distinct := by decide
  peers := by
    intro n hn p
    simp only [clusterConfig, List.mem_cons, List.not_mem_nil, or_false] at hn
    rcases hn with rfl | rfl | rfl <;>
      simp only [AppConfig.ids, clusterConfig, List.map_cons, List.map_nil, List.mem_cons,
        List.not_mem_nil, or_false] <;>
      grind

theorem starts_cluster_iff_threeNodes :
    ∃ cfg : Config, cfg.ids = ["node1", "node2", "node3"] ∧ ∀ a ∈ clusterConfig.ids,
      clusterConfig.main some id electionMinTimeoutTicks a =
        .ok ((Cluster.initial cfg).servers a) :=
  (starts_cluster_iff clusterConfig some (fun _ => id) (fun _ => electionMinTimeoutTicks)
    (fun _ _ => List.Perm.refl _) fun _ => by decide).mpr
    ⟨clusterConfig_complete, fun _ => by decide, fun _ _ => ⟨nofun, nofun⟩⟩

end Rafting
