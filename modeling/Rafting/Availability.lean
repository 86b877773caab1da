import Rafting.Exchanges
import Rafting.CommitRule

/-! What a cluster does for its clients while no call fails: any member can be elected, in any
order, and what its clients then ask for is appended, replicated and committed everywhere. -/
namespace Rafting
open Transition Fallible

/-! ## What it is for -/

structure Service where
  leader : Option NodeId
  term : Int
  log : RaftLog

def Service.initial : Service := ⟨none, 0, RaftLog.new⟩

def entriesFor (term : Int) (index : Nat) : List SetCommand → List LogEntry
  | [] => []
  | command :: rest => ⟨index, term, command.toJson⟩ :: entriesFor term (index + 1) rest

def Service.elect (service : Service) (a : NodeId) : Service :=
  if service.leader = some a then service
  else { service with leader := some a, term := service.term + 1 }

def Service.append (service : Service) (commands : List SetCommand) : Service :=
  { service with
    log := ⟨service.log.inner ++ entriesFor service.term service.log.len commands⟩ }

def Service.next (service : Service) (period : NodeId × List SetCommand) : Service :=
  (service.elect period.1).append period.2

/-! ## How the members stand -/

/-- A loop that waits for something to do, with all its peers connected. -/
structure Idle (cfg : Config) (b : NodeId) (server : RaftServer) : Prop where
  phase : server.phase = .selecting
  clients : server.network.peerClients = cfg.peersOf b
  id : server.node.id = b
  peers : server.node.peers = cfg.peersOf b
  ready : server.node.clusterReady = true

@[simp] theorem length_entriesFor (term : Int) (index : Nat) (commands : List SetCommand) :
    (entriesFor term index commands).length = commands.length := by
  induction commands generalizing index with
  | nil => rfl
  | cons command rest ih => simp [entriesFor, ih]

/-- All members have the log of the service and have committed all of it. -/
structure Provides (cfg : Config) (c : Cluster) (service : Service) : Prop where
  idle : ∀ b ∈ cfg.ids, Idle cfg b (c.servers b)
  queue : ∀ b ∈ cfg.ids, (c.node b).nodeToPeersTx = []
  leader : ∀ b ∈ cfg.ids, (c.node b).state = .leader ↔ service.leader = some b
  term : ∀ b ∈ cfg.ids, (c.node b).currentTerm = service.term
  log : ∀ b ∈ cfg.ids, (c.node b).log = service.log
  commit : ∀ b ∈ cfg.ids, (c.node b).commitIndex = service.log.lastLogIndex

def RaftLog.Numbered (log : RaftLog) : Prop :=
  log.lastLogIndexAndTerm.1 = log.lastLogIndex

namespace RaftLog

theorem Numbered.append {log : RaftLog} {entry : LogEntry} (hindex : entry.index = log.len) :
    (log.append entry).Numbered := by
  unfold Numbered
  rcases lastLogIndexAndTerm_cases (log.append entry) with ⟨hempty, _⟩ | ⟨_, e, hget, heq⟩
  · simp [RaftLog.append] at hempty
  · rw [heq]
    simp only [RaftLog.append, len, lastLogIndex, List.length_append, List.length_singleton,
      Nat.add_sub_cancel, List.getElem?_concat_length, Option.some.injEq] at hget ⊢
    subst hget
    rw [hindex, len]
    omega

end RaftLog

namespace RaftNode

theorem appendLog_suffix {log : RaftLog} (hnumbered : log.Numbered) {req : AppendEntriesRequest}
    (hprev : (req.prevLogIndex, req.prevLogTerm) = log.lastLogIndexAndTerm) :
    appendLog log req = some ⟨log.inner ++ req.entries⟩ := by
  by_cases hentries : req.entries = []
  · rw [appendLog, if_pos hentries, hentries, List.append_nil]
  have hindex : req.prevLogIndex = log.lastLogIndex := hnumbered ▸ congrArg Prod.fst hprev
  have hterm : req.prevLogTerm = log.lastLogIndexAndTerm.2 := congrArg Prod.snd hprev
  rw [appendLog, if_neg hentries]
  rcases log.lastLogIndexAndTerm_cases with ⟨hempty, hlast⟩ | ⟨hne, e, hget, hlast⟩
  · rw [if_pos (by rw [hindex, RaftLog.lastLogIndex, RaftLog.len, hempty]; rfl)]
    simp [RaftLog.truncate, RaftLog.appendAll, hempty]
  · have hpos : 0 < log.len := List.length_pos_iff.mpr hne
    have hposition : asUsize req.prevLogIndex = log.len - 1 := by
      rw [hindex, RaftLog.lastLogIndex, asUsize_of_nonneg (by omega)]
      omega
    have hcheck : ¬(req.prevLogIndex > log.lastLogIndex ∨
        req.prevLogTerm ≠ log.termForIndex (asUsize req.prevLogIndex)) := by
      rw [hposition, RaftLog.termForIndex, RaftLog.get, hget, hterm, hlast]
      simp [hindex]
    rw [if_neg (by rw [hindex, RaftLog.lastLogIndex]; omega), if_neg hcheck]
    have hend : req.prevLogIndex ≤ log.lastLogIndexAndTerm.1 ∧
        req.prevLogTerm = log.lastLogIndexAndTerm.2 := ⟨by rw [hnumbered, hindex], hterm⟩
    have hnext : asUsize req.prevLogIndex + 1 = log.inner.length := by
      rw [hposition]
      exact Nat.sub_add_cancel hpos
    rw [hlast] at hend ⊢
    dsimp only at hend ⊢
    rw [if_pos hend, RaftLog.appendAllFrom, hnext, List.take_length]

theorem appendSlice_suffix {node : RaftNode} {log : RaftLog} {entries : List LogEntry}
    (hlog : node.log = ⟨log.inner ++ entries⟩) :
    node.appendSlice (log.lastLogIndex + 1) =
      .ok (log.lastLogIndexAndTerm.1, log.lastLogIndexAndTerm.2, entries) := by
  rw [appendSlice, hlog]
  rcases log.lastLogIndexAndTerm_cases with ⟨hempty, hlast⟩ | ⟨hne, e, hget, hlast⟩
  · rw [if_pos (by rw [RaftLog.lastLogIndex, RaftLog.len, hempty]; rfl), hlast, hempty]
    rfl
  · have hpos : 0 < log.len := List.length_pos_iff.mpr hne
    have hposition : asUsize (log.lastLogIndex + 1 - 1) = log.len - 1 := by
      rw [RaftLog.lastLogIndex, asUsize_of_nonneg (by omega)]
      omega
    have hnext : asUsize (log.lastLogIndex + 1) = log.len := by
      rw [RaftLog.lastLogIndex, asUsize_of_nonneg (by omega)]
      omega
    have hentry : RaftLog.get ⟨log.inner ++ entries⟩ (log.len - 1) = some e := by
      rw [RaftLog.get, List.getElem?_append_left (by simp only [RaftLog.len] at hpos ⊢; omega)]
      exact hget
    have hrest : RaftLog.getFrom ⟨log.inner ++ entries⟩ log.len = entries := List.drop_left
    have hmin : log.lastLogIndex + 1 ≠ i64Min := by
      simp only [RaftLog.lastLogIndex, i64Min]
      omega
    rw [if_neg (by rw [RaftLog.lastLogIndex]; omega), if_neg hmin, hposition, hentry, hlast, hnext,
      hrest]
    dsimp only
    split
    · rfl
    · rename_i hshort
      have hnil : entries = [] := by
        simp only [RaftLog.lastLogIndex, RaftLog.len, List.length_append] at hshort
        exact List.length_eq_zero_iff.mp (by omega)
      rw [hnil]

theorem commitLoop_le {node : RaftNode} (hle : node.commitIndex ≤ node.log.lastLogIndex) :
    node.commitLoop.commitIndex ≤ node.log.lastLogIndex := by
  rcases commitLoop_cases node with ⟨heq, _⟩ | ⟨ci, _, hlt, _, _, heq⟩
  · rw [heq]
    exact hle
  · rw [heq, RaftLog.lastLogIndex]
    dsimp only
    omega

theorem le_commitLoop {node : RaftNode}
    (hmatch : ∀ p ∈ node.peers, node.matchIndex p = some node.log.lastLogIndex)
    (hcurrent : node.log.lastLogIndex ≤ node.commitIndex ∨
      ∃ e, node.log.get (node.log.len - 1) = some e ∧ e.term = node.currentTerm) :
    node.log.lastLogIndex ≤ node.commitLoop.commitIndex := by
  rw [le_commitLoop_iff]
  rcases hcurrent with hcommit | ⟨e, hget, hterm⟩
  · exact Or.inl hcommit
  · have hlt := (List.getElem?_eq_some_iff.mp hget).1
    refine Or.inr ⟨node.log.len - 1, by rw [RaftLog.lastLogIndex]; omega, e, hget, hterm, ?_⟩
    have hall : node.replicaCount (node.log.len - 1) = node.peers.length := by
      rw [replicaCount, List.filter_eq_self.mpr]
      intro p hp
      rw [hmatch p hp]
      exact decide_eq_true (le_asUsize (by
        simp only [Option.getD_some, RaftLog.lastLogIndex, RaftLog.len]
        omega))
    rw [hall, quorumSize]
    omega

theorem stepAppendEntriesRequest_own {node : RaftNode} {req : AppendEntriesRequest} {log : RaftLog}
    (hterm : req.term = node.currentTerm) (hlog : appendLog node.log req = some log) :
    node.stepAppendEntriesRequest req =
      ({ node with
          log := log
          commitIndex :=
            if req.leaderCommitIndex > node.commitIndex then
              min req.leaderCommitIndex log.lastLogIndex
            else node.commitIndex
          elapsedTicksSinceLastHeartbeat := 0 },
        .appendEntriesResponseEvent ⟨node.id, req.term, true, log.lastLogIndex⟩) := by
  rcases adoptTerm_cases node req with ⟨hlt, _⟩ | ⟨_, hadopt⟩
  · omega
  · rcases stepAppendEntriesRequest_cases node req with ⟨hnone, _⟩ | ⟨log', hlog', heq⟩
    · rw [hnone] at hlog
      cases hlog
    · obtain rfl : log' = log := Option.some.inj (hlog'.symm.trans hlog)
      rw [heq, hadopt]

end RaftNode

/-! ## A round of append requests -/

/-- The same request for every peer: those at `old` and `ci` come to `new` and `ci'`. -/
structure Asks (t : Int) (old new : RaftLog) (ci ci' : Int)
    (req : NodeId → AppendEntriesRequest) : Prop where
  toNode : ∀ p, (req p).toNode = p
  term : ∀ p, (req p).term = t
  log : ∀ p, RaftNode.appendLog old (req p) = some new
  commit : ∀ p, (if (req p).leaderCommitIndex > ci then
    min (req p).leaderCommitIndex new.lastLogIndex else ci) = ci'

/-- The leader's requests are in its queue, except those whose replies it has taken in. -/
structure Round (cfg : Config) (a : NodeId) (t : Int) (old new : RaftLog) (ci ci' : Int)
    (req : NodeId → AppendEntriesRequest) (todo : List NodeId) (c : Cluster) : Prop where
  idle : ∀ b ∈ cfg.ids, Idle cfg b (c.servers b)
  queue : (c.node a).nodeToPeersTx = todo.map fun p => .appendEntriesRequestEvent (req p)
  empty : ∀ p ∈ cfg.peersOf a, (c.node p).nodeToPeersTx = []
  leader : ∀ b ∈ cfg.ids, (c.node b).state = .leader ↔ b = a
  term : ∀ b ∈ cfg.ids, (c.node b).currentTerm = t
  log : (c.node a).log = new
  le : (c.node a).commitIndex ≤ new.lastLogIndex
  current : new.lastLogIndex ≤ (c.node a).commitIndex ∨
    ∃ e, new.get (new.len - 1) = some e ∧ e.term = t
  counted : (∀ p ∈ cfg.peersOf a, (c.node a).matchIndex p = some new.lastLogIndex) →
    new.lastLogIndex ≤ (c.node a).commitIndex
  left : ∀ p ∈ todo, (c.node p).log = old ∧ (c.node p).commitIndex = ci
  done : ∀ p ∈ cfg.peersOf a, p ∉ todo → (c.node p).log = new ∧ (c.node p).commitIndex = ci' ∧
    (c.node a).nextIndex p = some (new.lastLogIndex + 1) ∧
    (c.node a).matchIndex p = some new.lastLogIndex

theorem Config.mem_ids_iff (cfg : Config) {a b : NodeId} (ha : a ∈ cfg.ids) :
    b ∈ cfg.ids ↔ b = a ∨ b ∈ cfg.peersOf a := by
  rw [cfg.mem_peersOf ha]
  by_cases hb : b = a
  · simp [hb, ha]
  · simp [hb]

section Rounds

variable {cfg : Config} {a : NodeId} {t : Int} {old new : RaftLog} {ci ci' : Int}
  {req : NodeId → AppendEntriesRequest} {c : Cluster}

theorem Round.next (asks : Asks t old new ci ci' req) (ha : a ∈ cfg.ids) {p : NodeId}
    {todo : List NodeId} (hp : p ∉ todo) (hpeer : p ∈ cfg.peersOf a) (hsub : todo ⊆ cfg.peersOf a)
    (hfits : new.len ≤ i64Max)
    (round : Round cfg a t old new ci ci' req (p :: todo) c) :
    ∃ c', c.Reaches c' ∧ Round cfg a t old new ci ci' req todo c' := by
  obtain ⟨hne, hmember⟩ := (cfg.mem_peersOf ha).mp hpeer
  obtain ⟨hold, hci⟩ := round.left p List.mem_cons_self
  have hidle := round.idle p hmember
  have hidlea := round.idle a ha
  have hleader := (round.leader a ha).mpr rfl
  let response : AppendEntriesResponse := ⟨(c.node p).id, t, true, new.lastLogIndex⟩
  have hid : response.fromNode = p := hidle.id
  have hstep : (c.node p).stepAppendEntriesRequest (req p) =
      ({ c.node p with log := new, commitIndex := ci', elapsedTicksSinceLastHeartbeat := 0 },
        .appendEntriesResponseEvent response) := by
    have hterm : (req p).term = (c.node p).currentTerm := by rw [asks.term, round.term p hmember]
    rw [RaftNode.stepAppendEntriesRequest_own hterm (hold ▸ asks.log p), hci, asks.commit, asks.term]
  -- the reply is recorded, and the commit loop run
  let led : RaftNode := { c.node a with
    nodeToPeersTx := todo.map fun p => .appendEntriesRequestEvent (req p) }
  have hle := @RaftNode.commitLoop_le (led.recordMatch response) (round.log ▸ round.le)
  have hreached := @RaftNode.le_commitLoop (led.recordMatch response)
  have hkept := (RaftNode.le_commitLoop_iff (led.recordMatch response)).mpr
    (Or.inl (Int.le_refl _))
  obtain ⟨index, hloop⟩ := RaftNode.commitLoop_eq (led.recordMatch response)
  obtain ⟨c', hreach, hex⟩ := c.reaches_append hidlea.phase
    hidle.phase hne round.queue (asks.toNode p) (by rw [hidlea.clients]; exact hpeer)
    (by rw [hstep])
    (@RaftNode.stepAppendEntriesResponse_success led response hleader (round.term a ha) rfl
      (by simp only [response, RaftLog.lastLogIndex]; omega))
  rw [hstep, hloop] at hex
  rw [hloop] at hle hkept
  rw [hloop, show (led.recordMatch response).log = new from round.log,
    show (led.recordMatch response).peers = cfg.peersOf a from hidlea.peers,
    show (led.recordMatch response).currentTerm = t from round.term a ha] at hreached
  have hpeers : ∀ q ∈ cfg.peersOf a, q ≠ a := fun q hq => ((cfg.mem_peersOf ha).mp hq).1
  have hcurrent : new.lastLogIndex ≤ index ∨
      ∃ e, new.get (new.len - 1) = some e ∧ e.term = t :=
    round.current.imp_left fun h => Int.le_trans h hkept
  refine ⟨c', hreach, ?_⟩
  constructor
  case idle =>
    exact hex.all round.idle
      ⟨hidlea.phase, hidlea.clients, hidlea.id, hidlea.peers, hidlea.ready⟩
      ⟨hidle.phase, hidle.clients, hidle.id, hidle.peers, hidle.ready⟩
  case queue =>
    rw [hex.node_caller]
    rfl
  case empty =>
    intro q hq
    by_cases hqp : q = p
    · rw [hqp, hex.node_peer]
      exact round.empty p hpeer
    · rw [hex.node_other (hpeers q hq) hqp]
      exact round.empty q hq
  case leader =>
    exact @Cluster.Exchanged.all _ _ _ _ _ _ hex _ (fun b server => server.node.state = .leader ↔ b = a)
      round.leader (round.leader a ha) (round.leader p hmember)
  case term =>
    exact @Cluster.Exchanged.all _ _ _ _ _ _ hex _ (fun _ server => server.node.currentTerm = t)
      round.term (round.term a ha) (round.term p hmember)
  case log =>
    rw [hex.node_caller]
    exact round.log
  case le =>
    rw [hex.node_caller]
    exact round.log ▸ hle
  case current =>
    rw [hex.node_caller]
    exact hcurrent
  case counted =>
    rw [hex.node_caller]
    exact fun hmatch => hreached hmatch round.current
  case left =>
    intro q hq
    have hqp : q ≠ p := fun h => hp (h ▸ hq)
    rw [hex.node_other (hpeers q (hsub hq)) hqp]
    exact round.left q (List.mem_cons_of_mem p hq)
  case done =>
    intro q hq hdone
    by_cases hqp : q = p
    · rw [hqp, hex.node_peer, hex.node_caller]
      refine ⟨rfl, rfl, ?_, ?_⟩
      · change Function.update (c.node a).nextIndex response.fromNode _ p = _
        rw [hid, Function.update_self]
      · change Function.update (c.node a).matchIndex response.fromNode _ p = _
        rw [hid, Function.update_self]
    · rw [hex.node_other (hpeers q hq) hqp, hex.node_caller]
      obtain ⟨hlog, hcommit, hnext, hmatch⟩ := round.done q hq (by simp [hqp, hdone])
      refine ⟨hlog, hcommit, ?_, ?_⟩
      · change Function.update (c.node a).nextIndex response.fromNode _ q = _
        rw [hid, Function.update_of_ne hqp, hnext]
      · change Function.update (c.node a).matchIndex response.fromNode _ q = _
        rw [hid, Function.update_of_ne hqp, hmatch]

theorem Round.finish (asks : Asks t old new ci ci' req) (ha : a ∈ cfg.ids) {todo : List NodeId}
    (hnodup : todo.Nodup) (hsub : todo ⊆ cfg.peersOf a) (hfits : new.len ≤ i64Max)
    (round : Round cfg a t old new ci ci' req todo c) :
    ∃ c', c.Reaches c' ∧ Round cfg a t old new ci ci' req [] c' := by
  induction todo generalizing c with
  | nil => exact ⟨c, .refl, round⟩
  | cons p todo ih =>
    obtain ⟨hp, hnodup⟩ := List.nodup_cons.mp hnodup
    have hrest : todo ⊆ cfg.peersOf a := fun q hq => hsub (List.mem_cons_of_mem p hq)
    obtain ⟨c₁, hfirst, hround⟩ := round.next asks ha hp (hsub List.mem_cons_self) hrest
      hfits
    obtain ⟨c', hlast, hend⟩ := ih hnodup hrest hround
    exact ⟨c', hfirst.trans hlast, hend⟩

end Rounds

/-! ## A leader -/

/-- `a` leads peers whose logs are `old`, of which they have committed up to `ci`. -/
structure Leading (cfg : Config) (a : NodeId) (t : Int) (old new : RaftLog) (ci : Int)
    (c : Cluster) : Prop where
  idle : ∀ b ∈ cfg.ids, Idle cfg b (c.servers b)
  empty : ∀ b ∈ cfg.ids, (c.node b).nodeToPeersTx = []
  leader : ∀ b ∈ cfg.ids, (c.node b).state = .leader ↔ b = a
  term : ∀ b ∈ cfg.ids, (c.node b).currentTerm = t
  log : (c.node a).log = new
  commit : (c.node a).commitIndex = old.lastLogIndex
  peer : ∀ p ∈ cfg.peersOf a, (c.node p).log = old ∧ (c.node p).commitIndex = ci
  record : ∀ p ∈ cfg.peersOf a, (c.node a).nextIndex p = some (old.lastLogIndex + 1) ∧
    (c.node a).matchIndex p = some old.lastLogIndex
  numbered : old.Numbered ∧ new.Numbered
  suffix : old.inner <+: new.inner
  current : new = old ∨ ∃ e, new.get (new.len - 1) = some e ∧ e.term = t

def RaftNode.suffixRequest (node : RaftNode) (old : RaftLog) (entries : List LogEntry)
    (peer : NodeId) : AppendEntriesRequest where
  toNode := peer
  term := node.currentTerm
  leaderId := node.id
  prevLogIndex := old.lastLogIndexAndTerm.1
  prevLogTerm := old.lastLogIndexAndTerm.2
  entries := entries
  leaderCommitIndex := node.commitIndex
  leaderCommitTerm := node.commitTerm

section Leads

variable {cfg : Config} {a : NodeId} {t : Int} {old new : RaftLog} {ci ci' : Int}
  {req : NodeId → AppendEntriesRequest} {c : Cluster}

theorem Round.leading (round : Round cfg a t old new ci ci' req [] c) (ha : a ∈ cfg.ids)
    (hnumbered : new.Numbered) : Leading cfg a t new new ci' c where
  idle := round.idle
  empty := by
    intro b hb
    rcases (cfg.mem_ids_iff ha).mp hb with rfl | hb
    · exact round.queue
    · exact round.empty b hb
  leader := round.leader
  term := round.term
  log := round.log
  commit := by
    have hreached := round.counted fun p hp => (round.done p hp List.not_mem_nil).2.2.2
    have hle := round.le
    omega
  peer := fun p hp =>
    ⟨(round.done p hp List.not_mem_nil).1, (round.done p hp List.not_mem_nil).2.1⟩
  record := fun p hp => (round.done p hp List.not_mem_nil).2.2
  numbered := ⟨hnumbered, hnumbered⟩
  suffix := List.prefix_rfl
  current := Or.inl rfl

theorem Leading.heartbeat (leading : Leading cfg a t old new ci c) (ha : a ∈ cfg.ids)
    (hpeers : cfg.peersOf a ≠ []) (hci : ci ≤ old.lastLogIndex) (hfits : new.len ≤ i64Max) :
    ∃ c', c.Reaches c' ∧ Leading cfg a t new new old.lastLogIndex c' := by
  have hidle := leading.idle a ha
  have hleader := (leading.leader a ha).mpr rfl
  obtain ⟨elapsed, hdue, hticks⟩ := Cluster.reaches_due hidle.phase hidle.ready
  rw [if_pos hleader] at hdue
  obtain ⟨entries, hnew⟩ := leading.suffix
  let due : RaftNode := { c.node a with elapsedTicksSinceLastHeartbeat := elapsed }
  have hbuild : due.peers.mapM due.buildAppendRequestForPeer =
      .ok ((cfg.peersOf a).map (due.suffixRequest old entries)) := by
    rw [show due.peers = cfg.peersOf a from hidle.peers]
    refine mapM_ok fun p hp => ?_
    have hnext : due.nextIndex p = some (old.lastLogIndex + 1) := (leading.record p hp).1
    have hlog : due.log = ⟨old.inner ++ entries⟩ := by
      rw [hnew]
      exact leading.log
    rw [RaftNode.buildAppendRequestForPeer, hnext, Option.getD_some,
      RaftNode.appendSlice_suffix hlog]
    rfl
  have htick : due.tick = .ok { due with
      elapsedTicksSinceLastHeartbeat := 0
      nodeToPeersTx := (cfg.peersOf a).map fun p =>
        .appendEntriesRequestEvent (due.suffixRequest old entries p) } := by
    rw [@RaftNode.tick_of_leader due hidle.ready hleader hdue, hbuild]
    simp only [RaftNode.send, show due.nodeToPeersTx = [] from leading.empty a ha]
    simp [bind, Except.bind, Function.comp_def]
  have hsent := hticks.trans (Cluster.reaches_tick (by rw [Cluster.phase_set_self]; exact hidle.phase)
    (by rw [Cluster.node_set_self]; exact htick))
  rw [Cluster.servers_set_self, Cluster.set_set] at hsent
  have hne : ∀ p ∈ cfg.peersOf a, p ≠ a := fun p hp => ((cfg.mem_peersOf ha).mp hp).1
  obtain ⟨p, hp⟩ := List.exists_mem_of_ne_nil _ hpeers
  have hle : old.lastLogIndex ≤ new.lastLogIndex := by
    have hlength := leading.suffix.length_le
    simp only [RaftLog.lastLogIndex, RaftLog.len]
    omega
  have hcommit := leading.commit
  have hround : Round cfg a t old new ci old.lastLogIndex (due.suffixRequest old entries)
      (cfg.peersOf a) (c.set a { c.servers a with node := { due with
        elapsedTicksSinceLastHeartbeat := 0
        nodeToPeersTx := (cfg.peersOf a).map fun p =>
          .appendEntriesRequestEvent (due.suffixRequest old entries p) } }) := by
    constructor
    case idle =>
      exact Cluster.all_set leading.idle
        ⟨hidle.phase, hidle.clients, hidle.id, hidle.peers, hidle.ready⟩
    case queue => rw [Cluster.node_set_self]
    case empty =>
      intro q hq
      rw [Cluster.node_set_ne _ _ (hne q hq)]
      exact leading.empty q ((cfg.mem_peersOf ha).mp hq).2
    case leader =>
      exact @Cluster.all_set _ _ _ _ (fun b server => server.node.state = .leader ↔ b = a)
        leading.leader (leading.leader a ha)
    case term =>
      exact @Cluster.all_set _ _ _ _ (fun _ server => server.node.currentTerm = t)
        leading.term (leading.term a ha)
    case log =>
      rw [Cluster.node_set_self]
      exact leading.log
    case le =>
      rw [Cluster.node_set_self]
      exact hcommit ▸ hle
    case current =>
      rw [Cluster.node_set_self]
      refine leading.current.imp_left fun hsame => ?_
      rw [hsame]
      exact Int.le_of_eq hcommit.symm
    case counted =>
      rw [Cluster.node_set_self]
      intro hmatch
      have hlast := (hmatch p hp).symm.trans (leading.record p hp).2
      exact Int.le_of_eq ((Option.some.inj hlast).trans hcommit.symm)
    case left =>
      intro q hq
      rw [Cluster.node_set_ne _ _ (hne q hq)]
      exact leading.peer q hq
    case done => exact fun q hq hnot => absurd hq hnot
  have hasks : Asks t old new ci old.lastLogIndex (due.suffixRequest old entries) := by
    refine ⟨fun _ => rfl, fun _ => leading.term a ha, fun q => ?_, fun q => ?_⟩
    · rw [RaftNode.appendLog_suffix leading.numbered.1 rfl]
      exact congrArg (fun inner => some (RaftLog.mk inner)) hnew
    · change (if (c.node a).commitIndex > ci then min (c.node a).commitIndex new.lastLogIndex
        else ci) = old.lastLogIndex
      rw [leading.commit]
      split <;> omega
  obtain ⟨c', hrest, hend⟩ := hround.finish hasks ha (cfg.peersOf_nodup ha) (List.Subset.refl _)
    hfits
  exact ⟨c', hsent.trans hrest, hend.leading ha leading.numbered.2⟩

theorem Leading.command (leading : Leading cfg a t old new ci c) (ha : a ∈ cfg.ids)
    (command : SetCommand) :
    ∃ c', c.Reaches c' ∧
      Leading cfg a t old (new.append ⟨new.len, t, command.toJson⟩) ci c' := by
  have hidle := leading.idle a ha
  have hleader := (leading.leader a ha).mpr rfl
  have hne : ∀ p ∈ cfg.peersOf a, p ≠ a := fun p hp => ((cfg.mem_peersOf ha).mp hp).1
  have hentry : (c.node a).clientEntry command = ⟨new.len, t, command.toJson⟩ := by
    rw [RaftNode.clientEntry, RaftNode.lastAppliedIndex, leading.log, leading.term a ha,
      RaftLog.lastLogIndex, Int.sub_add_cancel]
  refine ⟨_, Cluster.reaches_client hidle.phase hleader command, ?_⟩
  rw [hentry, leading.log]
  constructor
  case idle =>
    exact Cluster.all_set leading.idle
      ⟨hidle.phase, hidle.clients, hidle.id, hidle.peers, hidle.ready⟩
  case empty =>
    exact @Cluster.all_set _ _ _ _ (fun _ server => server.node.nodeToPeersTx = [])
      leading.empty (leading.empty a ha)
  case leader =>
    exact @Cluster.all_set _ _ _ _ (fun b server => server.node.state = .leader ↔ b = a)
      leading.leader (leading.leader a ha)
  case term =>
    exact @Cluster.all_set _ _ _ _ (fun _ server => server.node.currentTerm = t)
      leading.term (leading.term a ha)
  case log => rw [Cluster.node_set_self]
  case commit =>
    rw [Cluster.node_set_self]
    exact leading.commit
  case peer =>
    intro p hp
    rw [Cluster.node_set_ne _ _ (hne p hp)]
    exact leading.peer p hp
  case record =>
    rw [Cluster.node_set_self]
    exact leading.record
  case numbered => exact ⟨leading.numbered.1, RaftLog.Numbered.append rfl⟩
  case suffix => exact leading.suffix.trans (List.prefix_append _ _)
  case current =>
    refine Or.inr ⟨⟨new.len, t, command.toJson⟩, ?_, rfl⟩
    simp [RaftLog.get, RaftLog.len, RaftLog.append]

theorem Leading.commands (leading : Leading cfg a t old new ci c) (ha : a ∈ cfg.ids)
    (commands : List SetCommand) :
    ∃ c', c.Reaches c' ∧
      Leading cfg a t old ⟨new.inner ++ entriesFor t new.len commands⟩ ci c' := by
  induction commands generalizing new c with
  | nil =>
    rw [entriesFor, List.append_nil]
    exact ⟨c, .refl, leading⟩
  | cons command rest ih =>
    obtain ⟨c₁, hfirst, hleads⟩ := leading.command ha command
    obtain ⟨c', hrest, hend⟩ := ih hleads
    exact ⟨c', hfirst.trans hrest, by
      simpa [RaftLog.append, RaftLog.len, entriesFor] using hend⟩

theorem Leading.serve {log : RaftLog} (leading : Leading cfg a t log log log.lastLogIndex c)
    (ha : a ∈ cfg.ids) (hpeers : cfg.peersOf a ≠ []) (commands : List SetCommand)
    (hfits : (log.len + commands.length : Nat) ≤ i64Max) :
    ∃ c', c.Reaches c' ∧ ∃ log', log' = ⟨log.inner ++ entriesFor t log.len commands⟩ ∧
      Leading cfg a t log' log' log'.lastLogIndex c' := by
  have hlen : RaftLog.len ⟨log.inner ++ entriesFor t log.len commands⟩ =
      log.len + commands.length := by
    simp [RaftLog.len]
  obtain ⟨c₁, hcommands, hleads⟩ := leading.commands ha commands
  obtain ⟨c₂, hlogs, hleads'⟩ := hleads.heartbeat ha hpeers (Int.le_refl _) (hlen ▸ hfits)
  have hle : log.lastLogIndex ≤
      RaftLog.lastLogIndex ⟨log.inner ++ entriesFor t log.len commands⟩ := by
    simp only [RaftLog.lastLogIndex, RaftLog.len, List.length_append]
    omega
  obtain ⟨c₃, hcommits, hend⟩ := hleads'.heartbeat ha hpeers hle (hlen ▸ hfits)
  exact ⟨c₃, (hcommands.trans hlogs).trans hcommits, _, rfl, hend⟩

end Leads

/-! ## Elections -/

/-- The members provide the service, and its leader, if there is one, knows their logs. -/
structure Serving (cfg : Config) (c : Cluster) (service : Service) : Prop
    extends Provides cfg c service where
  numbered : service.log.Numbered
  record : ∀ a, service.leader = some a → ∀ p ∈ cfg.peersOf a,
    (c.node a).nextIndex p = some (service.log.lastLogIndex + 1) ∧
      (c.node a).matchIndex p = some service.log.lastLogIndex

section Elections

variable {cfg : Config} {a : NodeId} {c : Cluster} {service : Service}

theorem Serving.leading (serving : Serving cfg c service) (ha : a ∈ cfg.ids)
    (hleader : service.leader = some a) :
    Leading cfg a service.term service.log service.log service.log.lastLogIndex c where
  idle := serving.idle
  empty := serving.queue
  leader := fun b hb => by
    rw [serving.leader b hb, hleader, Option.some.injEq, eq_comm]
  term := serving.term
  log := serving.log a ha
  commit := serving.commit a ha
  peer := fun p hp =>
    have hmember := ((cfg.mem_peersOf ha).mp hp).2
    ⟨serving.log p hmember, serving.commit p hmember⟩
  record := serving.record a hleader
  numbered := ⟨serving.numbered, serving.numbered⟩
  suffix := List.prefix_rfl
  current := Or.inl rfl

theorem Leading.serving {t : Int} {log : RaftLog} (ha : a ∈ cfg.ids)
    (leading : Leading cfg a t log log log.lastLogIndex c) : Serving cfg c ⟨some a, t, log⟩ where
  idle := leading.idle
  queue := leading.empty
  leader := fun b hb => by
    rw [leading.leader b hb, Option.some.injEq, eq_comm]
  term := leading.term
  log := fun b hb => by
    rcases (cfg.mem_ids_iff ha).mp hb with rfl | hb
    · exact leading.log
    · exact (leading.peer b hb).1
  commit := fun b hb => by
    rcases (cfg.mem_ids_iff ha).mp hb with rfl | hb
    · exact leading.commit
    · exact (leading.peer b hb).2
  numbered := leading.numbered.1
  record := fun b hb p hp => by
    cases hb
    exact leading.record p hp

theorem Serving.wins (serving : Serving cfg c service) (ha : a ∈ cfg.ids)
    (hother : service.leader ≠ some a) (hmax : service.term ≠ i32Max) :
    ∃ c', c.Reaches c' ∧ Round cfg a (service.term + 1) service.log service.log
      service.log.lastLogIndex service.log.lastLogIndex
      (({ c.node a with currentTerm := service.term + 1 }).suffixRequest service.log [])
      (cfg.peersOf a) c' := by
  have hidle := serving.idle a ha
  have hrole : (c.node a).state ≠ .leader := fun h => hother ((serving.leader a ha).mp h)
  have hterm : (c.node a).currentTerm = service.term := serving.term a ha
  obtain ⟨elapsed, hdue, hticks⟩ := Cluster.reaches_due hidle.phase hidle.ready
  rw [if_neg hrole] at hdue
  let due : RaftNode := { c.node a with elapsedTicksSinceLastHeartbeat := elapsed }
  let candidate : RaftNode := { c.node a with
    state := .candidate
    currentTerm := service.term + 1
    votedFor := some (c.node a).id
    elapsedTicksSinceLastHeartbeat := 0
    votes := 1 }
  let standing : RaftNode := { candidate with
    nodeToPeersTx := [.peerVotesRequestEvent candidate.voteRequest] }
  have htick : due.tick = .ok standing := by
    rw [@RaftNode.tick_of_timeout due hidle.ready hrole hdue, RaftNode.becomeCandidate,
      if_neg (show due.currentTerm ≠ i32Max from hterm ▸ hmax)]
    simp only [RaftNode.send, show due.nodeToPeersTx = [] from serving.queue a ha,
      show due.currentTerm = service.term from hterm]
    rfl
  have hstands := hticks.trans (Cluster.reaches_tick (by rw [Cluster.phase_set_self]; exact hidle.phase)
    (by rw [Cluster.node_set_self]; exact htick))
  rw [Cluster.servers_set_self, Cluster.set_set] at hstands
  have hpeer : ∀ p ∈ cfg.peersOf a, p ≠ a ∧ p ∈ cfg.ids := fun p => (cfg.mem_peersOf ha).mp
  have hservers : ∀ p ∈ cfg.peersOf a, (c.set a { c.servers a with node := standing }).servers p =
      c.servers p := fun p hp => Cluster.servers_set_ne _ _ (hpeer p hp).1
  obtain ⟨c', helects, hleads, hvoters, _⟩ := @Cluster.reaches_election
    (c.set a { c.servers a with node := standing }) a candidate.voteRequest (cfg.peersOf a)
    (by rw [Cluster.phase_set_self]; exact hidle.phase) (by rw [Cluster.node_set_self])
    (by rw [Cluster.servers_set_self]; exact hidle.clients)
    (by rw [Cluster.node_set_self]; exact hidle.peers) (cfg.peersOf_nodup ha)
    (by
      intro p hp
      obtain ⟨hne, hmember⟩ := hpeer p hp
      have hp' := serving.idle p hmember
      refine Cluster.Supports.of_servers ⟨hne, hp'.phase, hp'.id, ?_⟩ (hservers p hp)
      rw [serving.term p hmember]
      exact Int.lt_succ _)
  refine ⟨c', hstands.trans helects, ?_⟩
  rw [Cluster.servers_set_self, Cluster.node_set_self] at hleads
  have hnodea : c'.node a = { candidate with
      state := .leader
      nodeToPeersTx := (cfg.peersOf a).map fun p => .appendEntriesRequestEvent
        (({ c.node a with currentTerm := service.term + 1 }).suffixRequest service.log [] p) } := by
    rw [Cluster.node, hleads, ← serving.log a ha, ← hidle.peers]
    rfl
  have hvoter : ∀ p ∈ cfg.peersOf a, c'.servers p =
      { c.servers p with node := Cluster.voter candidate.voteRequest (c.node p) } := by
    intro p hp
    rw [hvoters p hp, Cluster.node, hservers p hp]
    rfl
  have hnodep : ∀ p ∈ cfg.peersOf a,
      c'.node p = Cluster.voter candidate.voteRequest (c.node p) := by
    intro p hp
    rw [Cluster.node, hvoter p hp]
  have hall : ∀ {P : NodeId → Prop}, P a → (∀ p ∈ cfg.peersOf a, P p) → ∀ b ∈ cfg.ids, P b := by
    intro P hPa hPp b hb
    rcases (cfg.mem_ids_iff ha).mp hb with rfl | hb
    · exact hPa
    · exact hPp b hb
  constructor
  case idle =>
    refine hall ?_ fun p hp => ?_
    · rw [hleads]
      exact ⟨hidle.phase, hidle.clients, hidle.id, hidle.peers, hidle.ready⟩
    · have hp' := serving.idle p (hpeer p hp).2
      rw [hvoter p hp]
      exact ⟨hp'.phase, hp'.clients, hp'.id, hp'.peers, hp'.ready⟩
  case queue => rw [hnodea]
  case empty =>
    intro p hp
    rw [hnodep p hp]
    exact serving.queue p (hpeer p hp).2
  case leader =>
    refine hall ?_ fun p hp => ?_
    · simp [hnodea]
    · rw [hnodep p hp]
      exact iff_of_false (by rintro ⟨⟩) (hpeer p hp).1
  case term =>
    refine hall ?_ fun p hp => ?_
    · rw [hnodea]
    · rw [hnodep p hp]
      rfl
  case log =>
    rw [hnodea]
    exact serving.log a ha
  case le =>
    rw [hnodea]
    exact Int.le_of_eq (serving.commit a ha)
  case current =>
    rw [hnodea]
    exact Or.inl (Int.le_of_eq (serving.commit a ha).symm)
  case counted =>
    rw [hnodea]
    exact fun _ => Int.le_of_eq (serving.commit a ha).symm
  case left =>
    intro p hp
    rw [hnodep p hp]
    exact ⟨serving.log p (hpeer p hp).2, serving.commit p (hpeer p hp).2⟩
  case done => exact fun p hp hnot => absurd hp hnot

theorem Serving.elect (serving : Serving cfg c service) (ha : a ∈ cfg.ids)
    (hmax : service.term ≠ i32Max) (hfits : service.log.len ≤ i64Max) :
    ∃ c', c.Reaches c' ∧ Serving cfg c' (service.elect a) := by
  by_cases hleader : service.leader = some a
  · rw [Service.elect, if_pos hleader]
    exact ⟨c, .refl, serving⟩
  · obtain ⟨c₁, hwins, hround⟩ := serving.wins ha hleader hmax
    have hasks : Asks (service.term + 1) service.log service.log service.log.lastLogIndex
        service.log.lastLogIndex
        (({ c.node a with currentTerm := service.term + 1 }).suffixRequest service.log []) := by
      refine ⟨fun _ => rfl, fun _ => rfl, fun p => ?_, fun p => ?_⟩
      · rw [RaftNode.appendLog_suffix serving.numbered rfl]
        exact congrArg (fun inner => some (RaftLog.mk inner)) (List.append_nil _)
      · exact if_neg (Int.not_lt.mpr (Int.le_of_eq (serving.commit a ha)))
    obtain ⟨c', hrest, hend⟩ := hround.finish hasks ha (cfg.peersOf_nodup ha) (List.Subset.refl _)
      hfits
    rw [Service.elect, if_neg hleader]
    exact ⟨c', hwins.trans hrest, (hend.leading ha serving.numbered).serving ha⟩

@[simp] theorem Service.elect_leader (service : Service) (a : NodeId) :
    (service.elect a).leader = some a := by
  unfold Service.elect
  split
  · assumption
  · rfl

theorem Service.elect_term_le (service : Service) (a : NodeId) :
    (service.elect a).term ≤ service.term + 1 := by
  unfold Service.elect
  split
  · omega
  · exact Int.le_refl _

theorem Service.elect_log (service : Service) (a : NodeId) :
    (service.elect a).log = service.log := by
  unfold Service.elect
  split
  · rfl
  · rfl

theorem Service.next_log_len (service : Service) (period : NodeId × List SetCommand) :
    (service.next period).log.len = service.log.len + period.2.length := by
  simp [Service.next, Service.append, Service.elect_log, RaftLog.len]

theorem Service.foldl_next_term_le (service : Service) (schedule : List (NodeId × List SetCommand)) :
    (schedule.foldl Service.next service).term ≤ service.term + schedule.length := by
  induction schedule generalizing service with
  | nil => simp
  | cons period rest ih =>
    have hterm : (service.next period).term ≤ service.term + 1 := service.elect_term_le period.1
    have hrest := ih (service.next period)
    simp only [List.foldl_cons, List.length_cons]
    omega

theorem Service.foldl_next_log_len (service : Service) (schedule : List (NodeId × List SetCommand)) :
    (schedule.foldl Service.next service).log.len =
      service.log.len + (schedule.flatMap Prod.snd).length := by
  induction schedule generalizing service with
  | nil => simp
  | cons period rest ih =>
    simp only [List.foldl_cons, List.flatMap_cons, List.length_append, ih, next_log_len]
    omega

theorem Serving.next (serving : Serving cfg c service) (ha : a ∈ cfg.ids)
    (hpeers : cfg.peersOf a ≠ []) (hmax : service.term ≠ i32Max) (commands : List SetCommand)
    (hfits : (service.log.len + commands.length : Nat) ≤ i64Max) :
    ∃ c', c.Reaches c' ∧ Serving cfg c' (service.next (a, commands)) := by
  obtain ⟨c₁, helects, helected⟩ := serving.elect ha hmax (by omega)
  obtain ⟨c', hserves, log', rfl, hleads⟩ :=
    (helected.leading ha (service.elect_leader a)).serve ha hpeers commands
      (by rw [service.elect_log]; exact hfits)
  have hend := hleads.serving ha
  rw [← service.elect_leader a] at hend
  exact ⟨c', helects.trans hserves, hend⟩

theorem Serving.after (hsize : 2 ≤ cfg.ids.length) {schedule : List (NodeId × List SetCommand)}
    (hmembers : ∀ x ∈ schedule, x.1 ∈ cfg.ids) (hbound : (schedule.length : Int) ≤ i32Max)
    (hfits : ((schedule.flatMap Prod.snd).length : Int) ≤ i64Max) {k : Nat}
    (hk : k < schedule.length)
    (serving : Serving cfg c ((schedule.take k).foldl Service.next Service.initial)) :
    ∃ c', c.Reaches c' ∧
      Serving cfg c' ((schedule.take (k + 1)).foldl Service.next Service.initial) := by
  have hsplit : schedule.take (k + 1) = schedule.take k ++ [schedule[k]] :=
    List.take_succ_eq_append_getElem hk
  have hterm := Service.foldl_next_term_le Service.initial (schedule.take k)
  have hlen := Service.foldl_next_log_len Service.initial (schedule.take (k + 1))
  have hmember := hmembers _ (List.getElem_mem hk)
  have hpeers : cfg.peersOf schedule[k].1 ≠ [] := by
    have hlength := cfg.length_peersOf hmember
    exact List.ne_nil_of_length_pos (by omega)
  have htotal : ((schedule.take (k + 1)).flatMap Prod.snd).length ≤
      (schedule.flatMap Prod.snd).length :=
    ((List.take_sublist (k + 1) schedule).flatMap Prod.snd).length_le
  rw [hsplit, List.foldl_append, List.foldl_cons, List.foldl_nil] at hlen ⊢
  rw [Service.next_log_len] at hlen
  refine serving.next hmember hpeers ?_ schedule[k].2 ?_
  · simp only [List.length_take, Service.initial] at hterm
    simp only [Service.initial]
    omega
  · rw [hlen, ← hsplit]
    simp only [Service.initial, RaftLog.new, RaftLog.len, List.length_nil]
    omega

end Elections

/-! ## The start -/

section Start

variable {cfg : Config}

def Config.started (cfg : Config) (b : NodeId) : RaftServer :=
  RaftServer.start (RaftNode.new b (cfg.peersOf b) (cfg.timeoutOf b))

theorem reaches_allUp {c : Cluster} {todo : List NodeId} (hsub : todo ⊆ cfg.ids)
    (hnodup : todo.Nodup) (hservers : ∀ b ∈ cfg.ids, c.servers b =
      if b ∈ todo then cfg.started b else (cfg.started b).clusterUp) :
    ∃ c', c.Reaches c' ∧ ∀ b ∈ cfg.ids, c'.servers b = (cfg.started b).clusterUp := by
  induction todo generalizing c with
  | nil => exact ⟨c, .refl, by simpa using hservers⟩
  | cons a todo ih =>
    obtain ⟨ha, hnodup⟩ := List.nodup_cons.mp hnodup
    have hserver : c.servers a = cfg.started a := by
      rw [hservers a (hsub List.mem_cons_self), if_pos List.mem_cons_self]
    have hup := @Cluster.reaches_set c a (.clusterUp a) RaftServer.clusterUp trivial
      (fun _ => rfl) (by rw [Cluster.phase, hserver]; rfl)
    have hnext : ∀ b ∈ cfg.ids, (c.set a (c.servers a).clusterUp).servers b =
        if b ∈ todo then cfg.started b else (cfg.started b).clusterUp := by
      intro b hb
      by_cases hba : b = a
      · rw [hba, Cluster.servers_set_self, if_neg ha, hserver]
      · rw [Cluster.servers_set_ne _ _ hba, hservers b hb]
        simp [hba]
    obtain ⟨c', hrest, hall⟩ := ih (fun b hb => hsub (List.mem_cons_of_mem a hb)) hnodup hnext
    exact ⟨c', hup.trans hrest, hall⟩

theorem serving_initial (cfg : Config) :
    ∃ c, (Cluster.initial cfg).Reaches c ∧ Serving cfg c Service.initial := by
  obtain ⟨c, hreach, hall⟩ := @reaches_allUp cfg (Cluster.initial cfg) cfg.ids
    (List.Subset.refl _) cfg.ids_nodup
    (fun b hb => by simp only [Cluster.initial, if_pos hb, Config.started])
  have hnode : ∀ b ∈ cfg.ids, c.node b = (cfg.started b).clusterUp.node := fun b hb => by
    rw [Cluster.node, hall b hb]
  refine ⟨c, hreach, ⟨?_, ?_, ?_, ?_, ?_, ?_⟩, ?_, ?_⟩
  · intro b hb
    rw [hall b hb]
    exact ⟨rfl, rfl, rfl, rfl, rfl⟩
  · intro b hb
    rw [hnode b hb]
    rfl
  · intro b hb
    rw [hnode b hb]
    exact iff_of_false (by rintro ⟨⟩) (by rintro ⟨⟩)
  · intro b hb
    rw [hnode b hb]
    rfl
  · intro b hb
    rw [hnode b hb]
    rfl
  · intro b hb
    rw [hnode b hb]
    rfl
  · rfl
  · rintro b ⟨⟩

/-- While no call fails, a cluster can provide the service: its members can lead one after the
other in any order, each for any commands, and after each of them all have the same log and have
committed all of it. -/
theorem provides_of_schedule (hsize : 2 ≤ cfg.ids.length)
    (schedule : List (NodeId × List SetCommand)) (hmembers : ∀ x ∈ schedule, x.1 ∈ cfg.ids)
    (hbound : (schedule.length : Int) ≤ i32Max)
    (hfits : ((schedule.flatMap Prod.snd).length : Int) ≤ i64Max) :
    ∃ h c, Stages (cluster cfg) h c ∧ (∀ k, Meets Reliable (h k)) ∧
      ∀ k ≤ schedule.length,
        Provides cfg (c k) ((schedule.take k).foldl Service.next Service.initial) := by
  obtain ⟨c₀, hup, hserving⟩ := serving_initial cfg
  have hreach : (cluster cfg).Reaches Reliable (cluster cfg).init c₀ := hup
  obtain ⟨h₀, run, hm, _⟩ := Run.reaches .start (meets_nil Reliable) hreach
  obtain ⟨h, c, stages, hmeets, hserves⟩ := exists_stages
    (P := fun k c => Serving cfg c ((schedule.take k).foldl Service.next Service.initial))
    run hm hserving schedule.length
    fun k hk c serving => serving.after hsize hmembers hbound hfits hk
  exact ⟨h, c, stages, hmeets, fun k hk => (hserves k hk).toProvides⟩

/-- `node1` leads and commits, then `node2`, with the entry of `node1` before its own. -/
theorem provides_of_schedule_handedOver :
    ∃ h c, Stages (cluster threeNodes) h c ∧ (∀ k, Meets Reliable (h k)) ∧
      ((c 1).node "node1").state = .leader ∧ ((c 1).node "node1").commitIndex = 0 ∧
      ((c 2).node "node2").state = .leader ∧ ((c 2).node "node2").commitIndex = 1 ∧
      ∀ b ∈ threeNodes.ids, ((c 2).node b).log = ⟨[⟨0, 1, SetCommand.toJson ⟨"x", "1"⟩⟩,
        ⟨1, 2, SetCommand.toJson ⟨"y", "2"⟩⟩]⟩ := by
  obtain ⟨h, c, stages, hm, provides⟩ := @provides_of_schedule threeNodes (by decide)
    [("node1", [⟨"x", "1"⟩]), ("node2", [⟨"y", "2"⟩])] (by decide) (by decide) (by decide)
  have hmember : "node1" ∈ threeNodes.ids ∧ "node2" ∈ threeNodes.ids := by decide
  have first := provides 1 (by decide)
  have second := provides 2 (by decide)
  exact ⟨h, c, stages, hm, (first.leader _ hmember.1).mpr rfl, first.commit _ hmember.1,
    (second.leader _ hmember.2).mpr rfl, second.commit _ hmember.2, second.log⟩

end Start
end Rafting
