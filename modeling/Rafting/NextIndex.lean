import Rafting.AppendCalls
import Rafting.PeerRecords

/-! The next indices of a leader. They follow what peers report, whatever the
leader's own log, and a tick reads the log just before each of them. -/
namespace Rafting
open Transition

/-- Every peer's recorded next index lies within the log or at its end. -/
def RaftNode.InRange (node : RaftNode) : Prop :=
  ∀ p ∈ node.peers, ∀ n ∈ node.nextIndex p, 0 ≤ n ∧ n ≤ node.log.len

instance (node : RaftNode) : Decidable node.InRange :=
  inferInstanceAs (Decidable (∀ p ∈ node.peers, ∀ n ∈ node.nextIndex p, _ ∧ _))

/-- The next index that a leader makes of a reply of its term is in its log or at its end. -/
def RaftNode.TakesInRange (node : RaftNode) (response : AppendEntriesResponse) : Prop :=
  node.state = .leader → node.currentTerm = response.term →
    -- for `i64::MAX` the handler panics before it records anything
    (response.success = true →
      i64Max ≤ response.lastAppliedIndex ∨ response.lastAppliedIndex < node.log.len) ∧
    (response.success = false → ∀ n ∈ node.nextIndex response.fromNode, 1 ≤ n)

instance (node : RaftNode) (response : AppendEntriesResponse) :
    Decidable (node.TakesInRange response) :=
  inferInstanceAs (Decidable (_ → _ → _ ∧ _))

/-- A request that cuts the log of a leader leaves it as long as every next index. -/
def RaftNode.CutsInRange (node : RaftNode) (req : AppendEntriesRequest) : Prop :=
  node.state = .leader → req.term ≤ node.currentTerm → Appends node.log req →
    ∀ p ∈ node.peers, ∀ n ∈ node.nextIndex p,
      n ≤ min (appendPosition req) node.log.len + req.entries.length

instance (node : RaftNode) (req : AppendEntriesRequest) : Decidable (node.CutsInRange req) :=
  inferInstanceAs (Decidable (_ → _ → _ → ∀ p ∈ node.peers, ∀ n ∈ node.nextIndex p, _))

structure IndexSafe (h : List (Move Cluster Action)) (c : Cluster) : Prop where
  range : ∀ x ∈ moments h c, ∀ a, (x.node a).state = .leader → (x.node a).InRange
  noUnwrap : ∀ x ∈ moments h c, ∀ a, x.phase a ≠ .stopped unwrapNone

/-- Where a step can take a leader's next indices out of range: an election with old
records, a peer that reports a longer log than the leader's or rejects a request
from the first entry on, and a request that cuts the log of a leader. -/
structure KeepsRange (c : Cluster) (act : Action) : Prop where
  elected : ∀ x ∈ c.counted act, (c.node x.1).quorumSize ≤
      ((PeerNetwork.voteResponses x.2.2).filter fun r => r.voteGranted).length →
    (c.node x.1).InRange
  taken : ∀ x ∈ c.received act, (c.node x.1).TakesInRange x.2
  cut : ∀ x ∈ c.handledAppend act, (c.node x.1).CutsInRange x.2

instance (c : Cluster) (act : Action) : Decidable (KeepsRange c act) :=
  decidable_of_iff
    ((∀ x ∈ c.counted act, (c.node x.1).quorumSize ≤
        ((PeerNetwork.voteResponses x.2.2).filter fun r => r.voteGranted).length →
      (c.node x.1).InRange) ∧
    (∀ x ∈ c.received act, (c.node x.1).TakesInRange x.2) ∧
    ∀ x ∈ c.handledAppend act, (c.node x.1).CutsInRange x.2)
    ⟨fun h => ⟨h.1, h.2.1, h.2.2⟩, fun h => ⟨h.elected, h.taken, h.cut⟩⟩

/-! ## Records of next indices -/

theorem Cluster.nextIndex_of_step {c c' : Cluster} {act : Action} (h : c.step act = some c')
    (v p : NodeId) (hnone : (c'.node v).nextIndex p = none) : (c.node v).nextIndex p = none := by
  cases index_move h v with
  | keep hnext => rwa [hnext] at hnone
  | record _ _ response _ _ hnext =>
    by_cases hp : p = response.fromNode
    · simp [hnext, hp] at hnone
    · simpa [hnext, hp] using hnone
  | reject response _ _ _ hnext =>
    by_cases hp : p = response.fromNode
    · simp [hnext, hp] at hnone
    · simpa [hnext, hp] using hnone

theorem nextIndex_of_mem_moments {cfg : Config} {h : List (Move Cluster Action)} {c x : Cluster}
    (run : Run (cluster cfg) h c) (hx : x ∈ moments h c) (v p : NodeId)
    (hnone : (c.node v).nextIndex p = none) : (x.node v).nextIndex p = none := by
  revert hnone
  apply run.relates_moments (fun _ _ => True)
    (fun x c => (c.node v).nextIndex p = none → (x.node v).nextIndex p = none) ?_ ?_
    (fun _ _ => trivial) hx
  · exact fun _ hnone => hnone
  · intro h x c c' act _ _ hbefore _ hstep hnone
    exact hbefore (Cluster.nextIndex_of_step hstep v p hnone)

/-- Next indices are `i64` values: they are recorded above `i64::MIN` and counted down to it. -/
theorem nextIndex_ge_of_run {cfg : Config} {h : List (Move Cluster Action)} {c : Cluster}
    (run : Run (cluster cfg) h c) :
    ∀ a p n, (c.node a).nextIndex p = some n → i64Min ≤ n := by
  apply run.induct (fun _ c => ∀ a p n, (c.node a).nextIndex p = some n → i64Min ≤ n) ?_ ?_
  · intro a p n hn
    change ((Cluster.initial cfg).node a).nextIndex p = some n at hn
    rw [Cluster.node_initial] at hn
    cases hn
  · intro h c c' act run inv hstep a p n hn
    cases Cluster.index_move hstep a with
    | keep hnext => exact inv a p n (hnext ▸ hn)
    | record req peer response hphase hsuccess hnext =>
      by_cases hp : p = response.fromNode
      · rw [hnext, hp, Function.update_self] at hn
        cases hn
        have hreport := lastAppliedIndex_ge_of_run run hphase hsuccess
        simp only [i64Min]
        omega
      · rw [hnext, Function.update_of_ne hp] at hn
        exact inv a p n hn
    | reject response nextIndex hrecorded hmin hnext =>
      by_cases hp : p = response.fromNode
      · rw [hnext, hp, Function.update_self] at hn
        cases hn
        have hge := inv a _ nextIndex hrecorded
        omega
      · rw [hnext, Function.update_of_ne hp] at hn
        exact inv a p n hn

/-- A node's records are in range if each peer's last report, less the rejections since, is within
the log. This is what decides at an election, where the reports are those of an earlier term. -/
theorem inRange_iff_heard {cfg : Config} {h : List (Move Cluster Action)} {c : Cluster}
    (run : Run (cluster cfg) h c) (a : NodeId) :
    (c.node a).InRange ↔ ∀ p ∈ (c.node a).peers,
      ∀ index ∈ lastReported (h.filterMap (heard a p)),
        rejections (h.filterMap (heard a p)) ≤ index + 1 ∧
          index + 1 ≤ (c.node a).log.len + rejections (h.filterMap (heard a p)) := by
  refine forall₂_congr fun p _ => ?_
  rw [(recorded_of_cluster run a p).next]
  cases lastReported (h.filterMap (heard a p)) with
  | none => simp
  | some index =>
    simp only [Option.map_some, Option.mem_def, Option.some.injEq, forall_eq']
    omega

theorem RaftNode.Issues.recorded {node : RaftNode} {req : AppendEntriesRequest}
    (h : node.Issues req) (hentries : req.entries ≠ []) (hprev : req.prevLogIndex ≠ -1) :
    node.nextIndex req.toNode ≠ none := by
  intro hnone
  obtain ⟨_, peer, _, hbuild | rfl⟩ := h
  · obtain ⟨_, _, _, hslice, rfl⟩ := buildAppendRequestForPeer_ok hbuild
    dsimp only at hnone hprev
    rw [hnone] at hslice
    rcases appendSlice_ok hslice with ⟨_, hfirst, _⟩ | ⟨_, hzero, _⟩
    · exact hprev hfirst
    · exact hzero rfl
  · exact hentries rfl

/-! ## Panics -/

theorem Cluster.panic_move {c c' : Cluster} {act : Action} (h : c.step act = some c') {v : NodeId}
    {message : String} (hphase' : c'.phase v = .stopped (.panic message)) :
    c.phase v = .stopped (.panic message) ∨ (c.node v).tick = .error (.panic message) ∨
      ∃ req peer response, c.phase v = .awaiting (.appendEntriesRequestEvent req)
          [(peer, .answered (.appendEntriesResponseEvent response))] ∧
        (c.node v).stepAppendEntriesResponse response = .error (.panic message) := by
  unfold phase at hphase'
  cases server_move h v with
  | idle heq => exact Or.inl (by rw [phase, ← heq, hphase'])
  | clusterUp _ _ heq => rw [heq] at hphase'; cases hphase'
  | tick _ _ heq =>
    rw [heq, RaftServer.selectTick] at hphase'
    cases htick : (c.servers v).node.tick with
    | ok node' => rw [htick] at hphase'; cases hphase'
    | error fault =>
      rw [htick] at hphase'
      cases hphase'
      exact Or.inr (Or.inl htick)
  | client command _ hphase heq =>
    have hphase : (c.servers v).phase = .selecting := hphase
    rw [heq, RaftServer.selectClient] at hphase'
    by_cases hleader : (c.servers v).node.state = .leader
    · rw [RaftNode.handleClientRequest_leader hleader] at hphase'
      simp [hphase] at hphase'
    · rw [RaftNode.handleClientRequest_other hleader] at hphase'
      cases hphase'
  | send _ _ heq =>
    obtain ⟨_, _, _, _, _, hcases⟩ := RaftServer.selectPeers_cases heq
    rcases hcases with ⟨_, _, _, hp⟩ | ⟨_, _, hp⟩ | ⟨_, hp, _⟩ <;>
      rw [hp] at hphase' <;> cases hphase'
  | handle event _ _ heq =>
    rw [heq] at hphase'
    cases event <;> cases hphase'
  | answer p event calls _ hphase _ _ _ heq =>
    rw [heq, RaftServer.answer, show (c.servers v).phase = _ from hphase] at hphase'
    cases hphase'
  | fail p status event calls _ hphase _ heq =>
    rw [heq, RaftServer.answer, show (c.servers v).phase = _ from hphase] at hphase'
    cases hphase'
  | resume _ heq =>
    obtain ⟨_, _, hphase, _, _, hcases⟩ := RaftServer.resume_cases heq
    rcases hcases with ⟨_, _, hp, _⟩ | ⟨_, _, _, _, _, hp, _⟩ |
      ⟨req, peer, response, fault, rfl, rfl, hstep, hp, _⟩ | ⟨_, _, _, _, _, hp, _⟩
    · rw [hp] at hphase'; cases hphase'
    · rw [hp] at hphase'; cases hphase'
    · rw [hp] at hphase'
      cases hphase'
      exact Or.inr (Or.inr ⟨req, peer, response, hphase, hstep⟩)
    · rw [hp] at hphase'; cases hphase'

theorem Cluster.unwrap_move {c c' : Cluster} {act : Action} (h : c.step act = some c') {v : NodeId}
    (hphase' : c'.phase v = .stopped unwrapNone) :
    c.phase v = .stopped unwrapNone ∨ (c.node v).tick = .error unwrapNone ∨
      ∃ req peer response, c.phase v = .awaiting (.appendEntriesRequestEvent req)
          [(peer, .answered (.appendEntriesResponseEvent response))] ∧
        (c.node v).stepAppendEntriesResponse response = .error unwrapNone :=
  panic_move h hphase'

theorem RaftNode.InRange.tick {node : RaftNode} (hrange : node.state = .leader → node.InRange) :
    node.tick ≠ .error unwrapNone := by
  intro h
  rcases tick_error h with ⟨hleader, peer, hpeer, hslice⟩ | ⟨_, _, heq⟩
  · obtain ⟨_, hfault⟩ | ⟨hzero, _, hget, _⟩ := appendSlice_error_iff.mp hslice
    · exact absurd hfault (by decide)
    cases hnext : node.nextIndex peer with
    | none => simp [hnext] at hzero
    | some n =>
      obtain ⟨hlow, hhigh⟩ := hrange hleader peer hpeer n hnext
      simp only [hnext, Option.getD_some] at hzero hget
      rw [asUsize_of_nonneg (by omega), RaftLog.get, List.getElem?_eq_none_iff] at hget
      simp only [RaftLog.len] at hhigh
      omega
  · exact absurd heq (by decide)

theorem reply_recorded {cfg : Config} {h : List (Move Cluster Action)} {c : Cluster}
    (run : Run (cluster cfg) h c) {a p : NodeId} {req : AppendEntriesRequest}
    {response : AppendEntriesResponse}
    (hphase : c.phase a = .awaiting (.appendEntriesRequestEvent req)
      [(p, .answered (.appendEntriesResponseEvent response))]) :
    (c.node a).stepAppendEntriesResponse response ≠ .error unwrapNone := by
  intro herror
  obtain ⟨_, _, ⟨_, _, hother⟩ | ⟨hsuccess, hnone, _⟩ | ⟨_, _, hother⟩⟩ :=
    RaftNode.stepAppendEntriesResponse_error_iff.mp herror
  · exact absurd hother (by decide)
  rotate_left
  · exact absurd hother (by decide)
  obtain ⟨hfrom, m, _, _, _, hreports⟩ := reply_of_run run hphase
  have hlog := hreports.of_failure hsuccess
  obtain ⟨⟨x, hx, hissues⟩, _, _⟩ := issued_of_awaiting run hphase
  rcases RaftNode.appendLog_cases (m.before.node req.toNode).log req with
    ⟨_, hentries, hprev, _⟩ | ⟨heq, _⟩ | ⟨heq, _⟩
  · apply hissues.recorded hentries hprev
    rw [hfrom] at hnone
    exact nextIndex_of_mem_moments run hx a req.toNode hnone
  · rw [hlog] at heq; cases heq
  · rw [hlog] at heq; cases heq

/-! ## Ranges -/

section Step
variable {cfg : Config} {h : List (Move Cluster Action)} {c c' : Cluster} {act : Action}

theorem length_appendAllFrom (log : RaftLog) (entries : List LogEntry) (position : Nat) :
    (log.appendAllFrom entries position).len = min position log.len + entries.length := by
  simp [RaftLog.appendAllFrom, RaftLog.len]

theorem KeepsRange.inRange (hkeeps : KeepsRange c act) (run : Run (cluster cfg) h c)
    (hstep : c.step act = some c') {a : NodeId} (hleader : (c'.node a).state = .leader)
    (hrange : (c.node a).state = .leader → (c.node a).InRange) : (c'.node a).InRange := by
  intro p hp n hn
  rw [(Cluster.node_identity hstep a).2] at hp
  cases Cluster.leader_move hstep hleader with
  | keep hrole _ hnext _ hlog =>
    rw [hnext] at hn
    rw [hlog]
    exact hrange hrole p hp n hn
  | client command _ hrole _ hnext _ hlog =>
    rw [hnext] at hn
    obtain ⟨hlow, hhigh⟩ := hrange hrole p hp n hn
    rw [hlog]
    refine ⟨hlow, ?_⟩
    simp only [RaftLog.len, RaftLog.append, List.length_append, List.length_singleton] at hhigh ⊢
    omega
  | append req hhandled hrole hle _ hnext _ hlog =>
    rw [hnext] at hn
    obtain ⟨hlow, hhigh⟩ := hrange hrole p hp n hn
    refine ⟨hlow, ?_⟩
    rw [hlog, RaftNode.appendLog_getD]
    by_cases happends : RaftNode.Appends (c.node a).log req
    · rw [if_pos happends, length_appendAllFrom]
      exact_mod_cast hkeeps.cut _ (Cluster.handledAppend_eq_some.mpr hhandled) hrole hle
        happends p hp n hn
    · rwa [if_neg happends]
  | record req peer response hact hphase hrole hown hsuccess hmax _ hnext _ hlog =>
    have hlast := ((hkeeps.taken _ (Cluster.received_eq_some hact hphase) hrole hown).1
      hsuccess).resolve_left (Int.not_le.mpr hmax)
    rw [hlog]
    by_cases hfrom : p = response.fromNode
    · rw [hnext, hfrom, Function.update_self] at hn
      cases hn
      have hreport := lastAppliedIndex_ge_of_run run hphase hsuccess
      dsimp only at hlast
      omega
    · rw [hnext, Function.update_of_ne hfrom] at hn
      exact hrange hrole p hp n hn
  | reject req peer response nextIndex hact hphase hrole hown hsuccess _ hrecorded hnext _ hlog =>
    rw [hlog]
    by_cases hfrom : p = response.fromNode
    · have hone := (hkeeps.taken _ (Cluster.received_eq_some hact hphase) hrole hown).2 hsuccess
        nextIndex hrecorded.1
      rw [hnext, hfrom, Function.update_self] at hn
      cases hn
      have hhigh := (hrange hrole p hp nextIndex (hfrom ▸ hrecorded.1)).2
      omega
    · rw [hnext, Function.update_of_ne hfrom] at hn
      exact hrange hrole p hp n hn
  | win req calls hact hphase hquorum _ hnext _ hlog =>
    rw [hnext] at hn
    rw [hlog]
    exact hkeeps.elected _ (Cluster.counted_eq_some hact hphase) hquorum p hp n hn

theorem keepsRange_of_inRange (run : Run (cluster cfg) h c) (hstep : c.step act = some c')
    (hbefore : ∀ a, (c.node a).state = .leader → (c.node a).InRange)
    (hrange : ∀ a, (c'.node a).state = .leader → (c'.node a).InRange) : KeepsRange c act where
  elected := by
    rintro ⟨a, req, calls⟩ hcounted hquorum
    have hnode := Cluster.node_of_counted hstep hcounted
    rcases RaftNode.stepPeerVotesResponse_cases (c.node a) (PeerNetwork.voteResponses calls) with
      ⟨_, hlead⟩ | ⟨hless, _⟩
    · have hafter := hrange a (by rw [hnode, hlead]; rfl)
      rw [hnode, hlead] at hafter
      exact hafter
    · exact absurd hquorum (by dsimp only; omega)
  taken := by
    rintro ⟨a, response⟩ hreceived hrole hown
    obtain ⟨_, req, p, hphase⟩ := Cluster.received_cases hreceived
    have hpeer := fromNode_mem_peers run hphase
    refine ⟨fun hsuccess => ?_, fun hrejected n hn => ?_⟩
    · by_cases hmax : i64Max ≤ response.lastAppliedIndex
      · exact Or.inl hmax
      have hnode := Cluster.node_of_received hstep hreceived
        (RaftNode.stepAppendEntriesResponse_success hrole hown hsuccess (Int.not_le.mp hmax))
      obtain ⟨index, hloop⟩ := RaftNode.commitLoop_eq ((c.node a).recordMatch response)
      rw [hloop] at hnode
      have hafter := hrange a (by rw [hnode]; exact hrole) response.fromNode
        (by rw [hnode]; exact hpeer) (response.lastAppliedIndex + 1)
        (by rw [hnode]; exact Function.update_self _ _ _)
      rw [hnode] at hafter
      have hhigh : response.lastAppliedIndex + 1 ≤ (c.node a).log.len := hafter.2
      refine Or.inr ?_
      dsimp only
      omega
    · have hmin : n ≠ i64Min := by
        have hlow := (hbefore a hrole _ hpeer n hn).1
        intro heq
        rw [heq] at hlow
        exact absurd hlow (by decide)
      have hnode := Cluster.node_of_received hstep hreceived
        (RaftNode.stepAppendEntriesResponse_reject hrole hown hrejected hn hmin)
      have hafter := hrange a (by rw [hnode]; exact hrole) response.fromNode
        (by rw [hnode]; exact hpeer) (n - 1) (by rw [hnode]; exact Function.update_self _ _ _)
      omega
  cut := by
    rintro ⟨v, req⟩ hhandled hrole hle happends p hp n hn
    have hnode := Cluster.node_of_append hstep (Cluster.handledAppend_eq_some.mp hhandled)
    have hadopt : (c.node v).adoptTerm req = c.node v := by
      rcases RaftNode.adoptTerm_cases (c.node v) req with ⟨hlt, _, _⟩ | ⟨_, heq⟩
      · dsimp only at hle
        omega
      · exact heq
    have hafter := hrange v (by rw [hnode]; simpa [hadopt] using hrole) p
      (by rw [hnode]; simpa using hp) n (by rw [hnode]; simpa using hn)
    rw [hnode, RaftNode.stepAppendEntriesRequest_log, RaftNode.appendLog_getD,
      if_pos happends, length_appendAllFrom] at hafter
    exact_mod_cast hafter.2

end Step

/-- Exactly the runs whose steps keep the range have their next indices in range, and
then no `unwrap` meets a `None`. -/
theorem indexSafe_iff {cfg : Config} {h : List (Move Cluster Action)} {c : Cluster}
    (run : Run (cluster cfg) h c) : IndexSafe h c ↔ Meets KeepsRange h := by
  constructor
  · intro hsafe m hm
    obtain ⟨hstep, hbefore, hafter, _, hrun, _⟩ := run.of_mem hm
    exact keepsRange_of_inRange hrun hstep (hsafe.range _ hbefore) (hsafe.range _ hafter)
  · intro hm
    apply run.invariant KeepsRange IndexSafe ⟨?_, ?_⟩ ?_ hm
    · intro x hx a hleader
      exact absurd hleader (Cluster.not_leader_of_start hx a)
    · intro x hx a hphase
      rw [eq_of_mem_moments_nil hx] at hphase
      simp only [Cluster.phase, cluster, Cluster.initial] at hphase
      split at hphase <;> cases hphase
    · intro h c c' act run _ inv hkeeps hstep
      have hnow := mem_moments_self h c
      constructor
      · intro x hx a hleader
        rcases mem_moments_next.mp hx with rfl | hx
        · exact hkeeps.inRange run hstep hleader (inv.range c hnow a)
        · exact inv.range x hx a hleader
      · intro x hx a hphase
        rcases mem_moments_next.mp hx with rfl | hx
        · rcases Cluster.unwrap_move hstep hphase with hold | htick | ⟨req, p, response, hp, herror⟩
          · exact inv.noUnwrap c hnow a hold
          · exact RaftNode.InRange.tick (inv.range c hnow a) htick
          · exact reply_recorded run hp herror
        · exact inv.noUnwrap x hx a hphase

/-- `node1` brings an entry to `node2` and is elected again after it, with the records of its first
term. `node2` has another entry by then and rejects the next request, and the one after that
starts one entry earlier. -/
def electedAgain : List Action :=
  twoNodes.allUp ++ electionTimeout "node1" ++ exchange "node1" ["node2"] ++
    exchange "node1" ["node2"] ++ [.client "node1" ⟨"x", "1"⟩] ++ heartbeatTimeout "node1" ++
    exchange "node1" ["node2"] ++ electionTimeout "node2" ++ exchange "node2" ["node1"] ++
    [.client "node2" ⟨"y", "2"⟩] ++ electionTimeout "node1" ++ exchange "node1" ["node2"] ++
    [.client "node1" ⟨"z", "3"⟩] ++ exchange "node1" ["node2"] ++ [.client "node1" ⟨"w", "4"⟩] ++
    heartbeatTimeout "node1" ++ exchange "node1" ["node2"] ++ heartbeatTimeout "node1"

theorem indexSafe_iff_elected :
    ∃ h c, Run (cluster twoNodes) h c ∧ (c.node "node1").state = .leader ∧
      (c.node "node1").currentTerm = 3 ∧ (c.node "node1").nextIndex "node2" = some 1 ∧
      (c.node "node1").nodeToPeersTx ≠ [] ∧ IndexSafe h c := by
  obtain ⟨h, c, run, hm, hleader, hterm, hnext, hqueue⟩ := exists_run_of_exec (cluster twoNodes)
    KeepsRange (fun c => (c.node "node1").state = .leader ∧ (c.node "node1").currentTerm = 3 ∧
      (c.node "node1").nextIndex "node2" = some 1 ∧ (c.node "node1").nodeToPeersTx ≠ [])
    electedAgain (by decide +kernel)
  exact ⟨h, c, run, hleader, hterm, hnext, hqueue, (indexSafe_iff run).mpr hm⟩

def electedBehind : List Action :=
  twoNodes.allUp ++ electionTimeout "node1" ++ exchange "node1" ["node2"] ++
    [.client "node1" ⟨"x", "1"⟩] ++ electionTimeout "node2" ++ exchange "node2" ["node1"]

/-- The reply to its first request takes `node2`'s next index behind its empty log,
and its next heartbeat panics. -/
theorem not_indexSafe :
    ∃ h c, Run (cluster twoNodes) h c ∧ ¬IndexSafe h c := by
  obtain ⟨h, c, run, _, hphase⟩ := exists_run_of_exec (cluster twoNodes) (fun _ _ => True)
    (fun c => c.phase "node2" = .stopped unwrapNone)
    (electedBehind ++ exchange "node2" ["node1"] ++ heartbeatTimeout "node2") (by decide +kernel)
  exact ⟨h, c, run, fun hsafe => hsafe.noUnwrap c (mem_moments_self h c) "node2" hphase⟩

end Rafting
