import Rafting.OwnLog
import Rafting.NextIndex
import Mathlib.Data.List.Nodup

/-! The logs of a cluster. Requests carry a slice of the sender's log, with the entry
before it, so every log holds entries at the positions that the entries name, and every
entry was made by a leader, of its own term, from a client's command. -/
namespace Rafting
open Transition

def Indexed (V : List LogEntry) : Prop :=
  ∀ (i : Nat) e, V[i]? = some e → e.index = i

theorem indexed_nil : Indexed [] := by
  intro i e he
  simp at he

theorem Indexed.concat {V : List LogEntry} {x : LogEntry} (hV : Indexed V)
    (hx : x.index = V.length) : Indexed (V ++ [x]) := by
  intro i e he
  by_cases hi : i < V.length
  · exact hV i e (by rw [List.getElem?_append_left hi] at he; exact he)
  · obtain ⟨hlt, _⟩ := List.getElem?_eq_some_iff.mp he
    simp only [List.length_append, List.length_singleton] at hlt
    obtain rfl : i = V.length := by omega
    have he : e = x := by simpa using he.symm
    rw [he, hx]

theorem Indexed.of_isPrefix {V W : List LogEntry} (hV : Indexed V) (hW : W <+: V) : Indexed W := by
  intro i e he
  obtain ⟨rest, rfl⟩ := hW
  obtain ⟨hi, _⟩ := List.getElem?_eq_some_iff.mp he
  exact hV i e (by rw [List.getElem?_append_left hi, he])

theorem Indexed.nodup {V : List LogEntry} (hV : Indexed V) : V.Nodup := by
  refine List.nodup_iff_getElem?_ne_getElem?.mpr fun i j hlt hj heq => ?_
  have hentry := List.getElem?_eq_getElem hj
  have hi := hV i _ (heq.trans hentry)
  have hj := hV j _ hentry
  omega

/-- The request carries all of the log `B` from its position on, and its previous
entry is the one before. -/
structure Vouched (B : List LogEntry) (req : AppendEntriesRequest) : Prop where
  low : -1 ≤ req.prevLogIndex
  high : RaftNode.appendPosition req ≤ B.length
  entries : req.entries = B.drop (RaftNode.appendPosition req)
  previous : req.prevLogIndex ≠ -1 →
    ∃ e, B[req.prevLogIndex.toNat]? = some e ∧ e.term = req.prevLogTerm

/-- The length of the log that a request makes. -/
def AppendEntriesRequest.reach (req : AppendEntriesRequest) : Nat :=
  RaftNode.appendPosition req + req.entries.length

theorem Vouched.reach {B : List LogEntry} {req : AppendEntriesRequest} (h : Vouched B req) :
    req.reach = B.length := by
  have hhigh := h.high
  rw [AppendEntriesRequest.reach, h.entries, List.length_drop]
  omega

theorem appendPosition_of_low {req : AppendEntriesRequest} (h : -1 ≤ req.prevLogIndex) :
    (RaftNode.appendPosition req : Int) = req.prevLogIndex + 1 := by
  unfold RaftNode.appendPosition
  split
  · omega
  · rw [asUsize_of_nonneg (by omega)]
    omega

theorem RaftNode.vouched_of_slice {node : RaftNode} (hindexed : Indexed node.log.inner)
    {nextIndex prevLogIndex prevLogTerm : Int} {entries : List LogEntry}
    (hlow : i64Min ≤ nextIndex)
    (hslice : node.appendSlice nextIndex = .ok (prevLogIndex, prevLogTerm, entries))
    {req : AppendEntriesRequest} (hprev : req.prevLogIndex = prevLogIndex)
    (hterm : req.prevLogTerm = prevLogTerm) (hentries : req.entries = entries) :
    Vouched node.log.inner req := by
  rcases appendSlice_ok hslice with ⟨_, rfl, rfl, rfl⟩ |
    ⟨entry, hzero, _, hget, rfl, rfl, rfl⟩
  · have hpos : appendPosition req = 0 := if_pos hprev
    exact ⟨by omega, by omega, by rw [hentries, hpos]; rfl, fun h => absurd hprev h⟩
  · have hindex := hindexed _ _ hget
    obtain ⟨hlt, _⟩ := List.getElem?_eq_some_iff.mp hget
    have hpos : appendPosition req = asUsize (nextIndex - 1) + 1 := by
      rw [appendPosition, if_neg (by omega), hprev, hindex, asUsize_natCast]
    refine ⟨by omega, by omega, ?_, fun _ => ⟨entry, ?_, hterm.symm⟩⟩
    · rw [hentries, hpos, RaftLog.getFrom, asUsize_succ hlow hzero]
      split
      · rfl
      · rename_i hend
        have hcast : asUsize (nextIndex - 1) = (nextIndex - 1).toNat := by
          apply asUsize_of_nonneg
          simp only [RaftLog.lastLogIndex] at hend
          omega
        simp only [RaftLog.lastLogIndex, RaftLog.len] at hend
        rw [List.drop_eq_nil_of_le]
        omega
    · rw [hprev, hindex, Int.toNat_natCast]
      exact hget

theorem RaftNode.prevLogIndex_of_slice {node : RaftNode} (hindexed : Indexed node.log.inner)
    {nextIndex prevLogIndex prevLogTerm : Int} {entries : List LogEntry} (hlow : 0 ≤ nextIndex)
    (hslice : node.appendSlice nextIndex = .ok (prevLogIndex, prevLogTerm, entries)) :
    prevLogIndex = nextIndex - 1 := by
  rcases appendSlice_ok hslice with ⟨hzero, rfl, _⟩ | ⟨entry, _, _, hget, rfl, _⟩
  · omega
  · rw [hindexed _ _ hget, asUsize_of_nonneg (by omega)]
    omega

theorem RaftNode.vouched_of_heartbeat {node : RaftNode} (hindexed : Indexed node.log.inner)
    (peer : NodeId) : Vouched node.log.inner (node.leaderHeartbeat peer) := by
  rcases node.log.lastLogIndexAndTerm_cases with ⟨hempty, hlast⟩ | ⟨hne, entry, hget, hlast⟩
  · have hprev : (node.leaderHeartbeat peer).prevLogIndex = -1 := congrArg Prod.fst hlast
    have hpos : appendPosition (node.leaderHeartbeat peer) = 0 := if_pos hprev
    exact ⟨by omega, by omega, by rw [hpos, hempty]; rfl, fun h => absurd hprev h⟩
  · have hindex := hindexed _ _ hget
    have hprev : (node.leaderHeartbeat peer).prevLogIndex = entry.index := congrArg Prod.fst hlast
    have hterm : (node.leaderHeartbeat peer).prevLogTerm = entry.term := congrArg Prod.snd hlast
    have hlength : 0 < node.log.inner.length := List.length_pos_iff.mpr hne
    simp only [RaftLog.len] at hget hindex
    have hpos := appendPosition_of_low (show -1 ≤ (node.leaderHeartbeat peer).prevLogIndex by omega)
    refine ⟨by omega, by omega, ?_, fun _ => ⟨entry, ?_, hterm.symm⟩⟩
    · rw [List.drop_eq_nil_of_le (by omega)]
      rfl
    · rw [hprev, hindex, Int.toNat_natCast]
      exact hget

theorem RaftNode.Issues.vouched {node : RaftNode} {req : AppendEntriesRequest}
    (h : node.Issues req) (hindexed : Indexed node.log.inner)
    (hlow : ∀ p n, node.nextIndex p = some n → i64Min ≤ n) : Vouched node.log.inner req := by
  obtain ⟨_, peer, _, hbuild | rfl⟩ := h
  · obtain ⟨prevLogIndex, prevLogTerm, entries, hslice, rfl⟩ := buildAppendRequestForPeer_ok hbuild
    refine vouched_of_slice hindexed ?_ hslice rfl rfl rfl
    cases hnext : node.nextIndex peer with
    | none => decide
    | some n => exact hlow peer n hnext
  · exact vouched_of_heartbeat hindexed peer

/-! ## Logs and requests of a run -/

/-- The entry was appended for a command by a node that led the entry's term. -/
def Created (h : List (Move Cluster Action)) (e : LogEntry) : Prop :=
  ∃ m ∈ h, ∃ v command, m.action = .client v command ∧ (m.before.node v).state = .leader ∧
    (m.before.node v).currentTerm = e.term ∧ e = (m.before.node v).clientEntry command ∧
    (m.after.node v).log = (m.before.node v).log.append e

theorem Created.next {h : List (Move Cluster Action)} {e : LogEntry} (hcreated : Created h e)
    (m : Move Cluster Action) : Created (m :: h) e := by
  obtain ⟨m', hm', hby⟩ := hcreated
  exact ⟨m', List.mem_cons_of_mem m hm', hby⟩

def Cluster.Queued (c : Cluster) (req : AppendEntriesRequest) : Prop :=
  (∃ a, .appendEntriesRequestEvent req ∈ c.pipeline a) ∨
    ∃ orphan ∈ c.orphans, orphan.event = .appendEntriesRequestEvent req

structure LogIntegrity (h : List (Move Cluster Action)) (c : Cluster) : Prop where
  indexed : ∀ a, Indexed (c.node a).log.inner
  created : ∀ a, ∀ e ∈ (c.node a).log.inner, Created h e
  requestIndexed : ∀ req, c.Queued req → -1 ≤ req.prevLogIndex ∧
    ∀ (j : Nat) e, req.entries[j]? = some e → e.index = req.prevLogIndex + 1 + j
  requestCreated : ∀ req, c.Queued req → ∀ e ∈ req.entries, Created h e

theorem issued_of_queued {cfg : Config} {h : List (Move Cluster Action)} {c : Cluster}
    (run : Run (cluster cfg) h c) {req : AppendEntriesRequest} (hqueued : c.Queued req) :
    ∃ a, Issued h c a req := by
  have carried := carried_of_run run
  rcases hqueued with ⟨a, hmem⟩ | ⟨orphan, hmem, hevent⟩
  · exact ⟨a, carried.pipeline a req hmem⟩
  · exact (carried.orphans orphan hmem req hevent).2

theorem Issued.vouched_of_indexed {cfg : Config} {h : List (Move Cluster Action)} {c : Cluster}
    (run : Run (cluster cfg) h c)
    (hindexed : ∀ x ∈ moments h c, ∀ a, Indexed (x.node a).log.inner) {a : NodeId}
    {req : AppendEntriesRequest} (hissued : Issued h c a req) :
    ∃ x ∈ moments h c, (x.node a).Issues req ∧ Vouched (x.node a).log.inner req := by
  obtain ⟨x, hx, hissues⟩ := hissued
  have hlow : ∀ p n, (x.node a).nextIndex p = some n → i64Min ≤ n :=
    run.of_mem_moments (fun x => ∀ a p n, (x.node a).nextIndex p = some n → i64Min ≤ n)
      nextIndex_ge_of_run hx a
  exact ⟨x, hx, hissues, hissues.vouched (hindexed x hx a) hlow⟩

theorem RaftNode.appendPosition_le_of_appends {log : RaftLog} {req : AppendEntriesRequest}
    (hlow : -1 ≤ req.prevLogIndex) (happends : Appends log req) :
    appendPosition req ≤ log.len := by
  have hpos := appendPosition_of_low hlow
  rcases happends.2 with hfirst | ⟨hover, _, _⟩
  · omega
  · simp only [Overreaches, RaftLog.lastLogIndex] at hover
    omega

theorem Vouched.indexed_of_appends {B : List LogEntry} {req : AppendEntriesRequest}
    (hvouched : Vouched B req) (hB : Indexed B) {log : RaftLog} (hlog : Indexed log.inner)
    (happends : RaftNode.Appends log req) :
    Indexed (log.inner.take (RaftNode.appendPosition req) ++ req.entries) := by
  have hpos := appendPosition_of_low hvouched.low
  have hle : RaftNode.appendPosition req ≤ log.inner.length :=
    RaftNode.appendPosition_le_of_appends hvouched.low happends
  have htake : (log.inner.take (RaftNode.appendPosition req)).length =
      RaftNode.appendPosition req := by
    rw [List.length_take]
    omega
  intro i e he
  by_cases hi : i < RaftNode.appendPosition req
  · rw [List.getElem?_append_left (by omega), List.getElem?_take_of_lt hi] at he
    exact hlog i e he
  · rw [List.getElem?_append_right (by omega), htake, hvouched.entries, List.getElem?_drop] at he
    have hindex := hB _ e he
    omega

section Run
variable {cfg : Config} {h : List (Move Cluster Action)} {c : Cluster}

theorem integrity_of_run (run : Run (cluster cfg) h c) : ∀ x ∈ moments h c, ∀ a,
    Indexed (x.node a).log.inner ∧ ∀ e ∈ (x.node a).log.inner, Created h e := by
  apply run.induct (fun h c => ∀ x ∈ moments h c, ∀ a,
    Indexed (x.node a).log.inner ∧ ∀ e ∈ (x.node a).log.inner, Created h e)
  · intro x hx a
    rw [eq_of_mem_moments_nil hx, Cluster.cluster_init, Cluster.node_initial]
    exact ⟨indexed_nil, fun e he => absurd he List.not_mem_nil⟩
  · intro h c c' act run inv hstep x hx a
    rcases mem_moments_next.mp hx with rfl | hx
    · obtain ⟨hindexed, hcreated⟩ := inv c (mem_moments_self h c) a
      have hkeep : (x.node a).log = (c.node a).log → Indexed (x.node a).log.inner ∧
          ∀ e ∈ (x.node a).log.inner, Created (⟨c, act, x⟩ :: h) e := by
        intro hlog
        rw [hlog]
        exact ⟨hindexed, fun e he => (hcreated e he).next _⟩
      cases Cluster.core_move hstep a with
      | same _ _ hlog => exact hkeep hlog
      | stand _ _ _ _ hlog => exact hkeep hlog
      | grant _ _ _ _ _ hlog => exact hkeep hlog
      | depose _ _ _ hlog => exact hkeep hlog
      | win _ _ _ _ _ _ _ hlog => exact hkeep hlog
      | lose _ _ _ hlog => exact hkeep hlog
      | client command hact hrole _ _ hlog =>
        rw [hlog]
        refine ⟨hindexed.concat ?_, ?_⟩
        · simp [RaftNode.clientEntry, RaftNode.lastAppliedIndex, RaftLog.lastLogIndex, RaftLog.len]
        · intro e he
          rcases List.mem_append.mp he with he | he
          · exact (hcreated e he).next _
          · rw [List.mem_singleton.mp he]
            exact ⟨_, List.mem_cons_self, a, command, hact, hrole, rfl, rfl, hlog⟩
      | append req hhandled _ _ hlog =>
        by_cases happends : RaftNode.Appends (c.node a).log req
        case neg => exact hkeep (by rw [hlog, RaftNode.appendLog_getD, if_neg happends])
        obtain ⟨_, b, hissued⟩ := issued_of_handled run hstep hhandled
        obtain ⟨y, hy, _, hvouched⟩ :=
          hissued.vouched_of_indexed run fun y hy b => (inv y hy b).1
        rw [hlog, RaftNode.log_of_appends happends]
        refine ⟨hvouched.indexed_of_appends (inv y hy b).1 hindexed happends, ?_⟩
        intro e he
        rcases List.mem_append.mp he with he | he
        · exact (hcreated e (List.mem_of_mem_take he)).next _
        · rw [hvouched.entries] at he
          exact ((inv y hy b).2 e (List.mem_of_mem_drop he)).next _
    · exact ⟨(inv x hx a).1, fun e he => ((inv x hx a).2 e he).next _⟩

theorem indexed_of_run (run : Run (cluster cfg) h c) {x : Cluster} (hx : x ∈ moments h c)
    (a : NodeId) : Indexed (x.node a).log.inner :=
  (integrity_of_run run x hx a).1

theorem Issued.vouched (run : Run (cluster cfg) h c) {a : NodeId} {req : AppendEntriesRequest}
    (hissued : Issued h c a req) :
    ∃ x ∈ moments h c, (x.node a).Issues req ∧ Vouched (x.node a).log.inner req :=
  hissued.vouched_of_indexed run fun _ hx => indexed_of_run run hx

theorem logIntegrity_of_run (run : Run (cluster cfg) h c) : LogIntegrity h c where
  indexed := indexed_of_run run (mem_moments_self h c)
  created := fun a => (integrity_of_run run c (mem_moments_self h c) a).2
  requestIndexed := by
    intro req hqueued
    obtain ⟨a, hissued⟩ := issued_of_queued run hqueued
    obtain ⟨x, hx, _, hvouched⟩ := hissued.vouched run
    refine ⟨hvouched.low, ?_⟩
    intro j e he
    rw [hvouched.entries, List.getElem?_drop] at he
    have hindex := indexed_of_run run hx a _ e he
    have hpos := appendPosition_of_low hvouched.low
    omega
  requestCreated := by
    intro req hqueued e he
    obtain ⟨a, hissued⟩ := issued_of_queued run hqueued
    obtain ⟨x, hx, _, hvouched⟩ := hissued.vouched run
    rw [hvouched.entries] at he
    exact (integrity_of_run run x hx a).2 e (List.mem_of_mem_drop he)

end Run

theorem logIntegrity_of_run_replicated :
    ∃ h c, Run (cluster twoNodes) h c ∧ (c.node "node2").log.len = 1 ∧
      (∃ req, c.Queued req) ∧ LogIntegrity h c := by
  obtain ⟨h, c, run, _, hlen, req, hmem⟩ := exists_run_of_exec (cluster twoNodes)
    (fun _ _ => True)
    (fun c => (c.node "node2").log.len = 1 ∧ ∃ req ∈ appendRequests (c.pipeline "node1"), True)
    (twoNodes.allUp ++ electionTimeout "node1" ++ exchange "node1" ["node2"] ++
      exchange "node1" ["node2"] ++ [.client "node1" ⟨"x", "1"⟩] ++ heartbeatTimeout "node1" ++
      exchange "node1" ["node2"] ++ heartbeatTimeout "node1") (by decide +kernel)
  exact ⟨h, c, run, hlen, ⟨req, Or.inl ⟨"node1", mem_appendRequests.mp hmem.1⟩⟩,
    logIntegrity_of_run run⟩

end Rafting
