import Rafting.LeaderLogs
import Rafting.LogIntegrity

/-! Log matching. Requests carry a leader's log from some position on, so a node
that appends one has the leader's log afterwards, and every log in the cluster is
a log that was led, or a part of one. -/
namespace Rafting
open Transition LogHistory

/-- Logs that hold entries of one term at a position are the same up to it. -/
def LogMatching (c : Cluster) : Prop :=
  ∀ a b (i : Nat) e e', (c.node a).log.get i = some e → (c.node b).log.get i = some e' →
    e.term = e'.term → ∀ j ≤ i, (c.node a).log.get j = (c.node b).log.get j

/-- A log that appends a request is the log that vouches for it. -/
theorem Vouched.appended {led : Int → List LogEntry → Prop} (hchain : Chain led) {log : RaftLog}
    {B : List LogEntry} {req : AppendEntriesRequest} (hvouched : Vouched B req)
    (hlog : Rooted LogEntry.term led log.inner) (hB : Rooted LogEntry.term led B)
    (happends : RaftNode.Appends log req) :
    log.inner.take (RaftNode.appendPosition req) ++ req.entries = B := by
  have hpos := appendPosition_of_low hvouched.low
  have htake : log.inner.take (RaftNode.appendPosition req) =
      B.take (RaftNode.appendPosition req) := by
    rcases happends.2 with hfirst | ⟨hover, _, _⟩
    · have hzero : RaftNode.appendPosition req = 0 := if_pos hfirst
      rw [hzero, List.take_zero, List.take_zero]
    · by_cases hfirst : req.prevLogIndex = -1
      · have hzero : RaftNode.appendPosition req = 0 := if_pos hfirst
        rw [hzero, List.take_zero, List.take_zero]
      · obtain ⟨e, he, heterm⟩ := hvouched.previous hfirst
        have hlow := hvouched.low
        obtain ⟨hle, hterm⟩ : req.prevLogIndex ≤ log.lastLogIndex ∧
            req.prevLogTerm = log.termForIndex (asUsize req.prevLogIndex) := by
          simp only [RaftNode.Overreaches] at hover
          omega
        simp only [RaftLog.lastLogIndex, RaftLog.len] at hle
        rw [asUsize_of_nonneg (by omega)] at hterm
        obtain ⟨e', he'⟩ : ∃ e', log.inner[req.prevLogIndex.toNat]? = some e' :=
          ⟨_, List.getElem?_eq_getElem (by omega)⟩
        rw [RaftLog.termForIndex, RaftLog.get, he'] at hterm
        have hposition : RaftNode.appendPosition req = req.prevLogIndex.toNat + 1 := by omega
        rw [hposition]
        exact take_eq_of_term_eq hchain hlog hB he' he (hterm.symm.trans heterm.symm)
  rw [htake, hvouched.entries, List.take_append_drop]

/-- The request names the last entry of the log, as its previous entry or as one of those
that it carries. -/
def RaftNode.NamesLast (log : RaftLog) (req : AppendEntriesRequest) : Prop :=
  log.inner = [] ∨ (req.prevLogIndex, req.prevLogTerm) = log.lastLogIndexAndTerm ∨
    ∃ e ∈ req.entries, (e.index, e.term) = log.lastLogIndexAndTerm

instance (log : RaftLog) (req : AppendEntriesRequest) : Decidable (RaftNode.NamesLast log req) :=
  inferInstanceAs (Decidable (_ ∨ _ ∨ _))

theorem Vouched.isPrefix_of_namesLast {led : Int → List LogEntry → Prop} (hchain : Chain led)
    {log : RaftLog} {B : List LogEntry} {req : AppendEntriesRequest} (hvouched : Vouched B req)
    (hindexed : Indexed log.inner) (hindexedB : Indexed B)
    (hlog : Rooted LogEntry.term led log.inner) (hB : Rooted LogEntry.term led B)
    (hnames : RaftNode.NamesLast log req) : log.inner <+: B := by
  rcases log.lastLogIndexAndTerm_cases with ⟨hempty, _⟩ | ⟨hsome, last, hlast, hpair⟩
  · exact hempty ▸ List.nil_prefix
  have hindex : last.index = (log.len - 1 : Nat) := hindexed _ _ hlast
  obtain ⟨e, he, hterm⟩ : ∃ e, B[log.len - 1]? = some e ∧ e.term = last.term := by
    rcases hnames with hempty | hprevious | ⟨e, he, hnamed⟩
    · exact absurd hempty hsome
    · obtain ⟨hprev, hterm⟩ := Prod.mk.inj (hprevious.trans hpair)
      obtain ⟨e, he, heterm⟩ := hvouched.previous (by omega)
      rw [hprev, hindex, Int.toNat_natCast] at he
      exact ⟨e, he, heterm.trans hterm⟩
    · obtain ⟨heindex, hterm⟩ := Prod.mk.inj (hnamed.trans hpair)
      rw [hvouched.entries] at he
      obtain ⟨i, he⟩ := List.getElem?_of_mem (List.mem_of_mem_drop he)
      have hi := hindexedB i e he
      obtain rfl : i = log.len - 1 := by omega
      exact ⟨e, he, hterm⟩
  have htake := take_eq_of_term_eq hchain hlog hB hlast he hterm.symm
  have hpos : 0 < log.inner.length := List.length_pos_iff.mpr hsome
  rw [List.take_of_length_le (by simp only [RaftLog.len]; omega)] at htake
  rw [htake]
  exact List.take_prefix _ _

def Logged (h : List (Move Cluster Action)) (c : Cluster) : Prop :=
  ∀ x ∈ moments h c, ∀ a,
    Indexed (x.node a).log.inner ∧ Rooted LogEntry.term (LedIn h c) (x.node a).log.inner

theorem RaftNode.Issues.led {h : List (Move Cluster Action)} {c x : Cluster} {a : NodeId}
    {req : AppendEntriesRequest} (hissues : (x.node a).Issues req) (hx : x ∈ moments h c) :
    Led h c a req.term (x.node a).log.inner :=
  ⟨x, hx, hissues.1, hissues.header.2.1.symm, rfl⟩

theorem log_of_append {cfg : Config} {h : List (Move Cluster Action)} {c c' : Cluster}
    {act : Action} (run : Run (cluster cfg) h c) (hm : Meets KeepsTenure h) (logged : Logged h c)
    (hstep : c.step act = some c') {v : NodeId} {req : AppendEntriesRequest}
    (hhandled : c.handled act = some (v, .appendEntriesRequestEvent req))
    (happends : RaftNode.Appends (c.node v).log req) :
    ∃ a, ∃ x ∈ moments h c, (x.node a).Issues req ∧ Vouched (x.node a).log.inner req ∧
      (c'.node v).log.inner = (x.node a).log.inner := by
  obtain ⟨_, a, hissued⟩ := issued_of_handled run hstep hhandled
  obtain ⟨x, hx, hissues, hvouched⟩ := hissued.vouched run
  refine ⟨a, x, hx, hissues, hvouched, ?_⟩
  rw [Cluster.node_of_append hstep hhandled, RaftNode.stepAppendEntriesRequest_log,
    RaftNode.log_of_appends happends]
  exact hvouched.appended (chain_of_run run hm) (logged c (mem_moments_self h c) v).2
    (logged x hx a).2 happends

theorem logged_of_run {cfg : Config} {h : List (Move Cluster Action)} {c : Cluster}
    (run : Run (cluster cfg) h c) (hm : Meets KeepsTenure h) : Logged h c := by
  apply run.invariant KeepsTenure Logged ?_ ?_ hm
  · intro x hx a
    rw [eq_of_mem_moments_nil hx, Cluster.cluster_init, Cluster.node_initial]
    exact ⟨indexed_nil, rooted_nil⟩
  · intro h c c' act run hm inv hcond hstep x hx a
    have hmono : ∀ {V}, Rooted LogEntry.term (LedIn h c) V →
        Rooted LogEntry.term (LedIn (⟨c, act, c'⟩ :: h) c') V :=
      fun hV => hV.mono fun _ _ hled => hled.next
    rcases mem_moments_next.mp hx with rfl | hx
    · obtain ⟨hindexed, hrooted⟩ := inv c (mem_moments_self h c) a
      cases Cluster.log_move hstep a with
      | keep hlog =>
        rw [hlog]
        exact ⟨hindexed, hmono hrooted⟩
      | client command _ _ hstate hterm hlog =>
        have hled := led_self (h := ⟨c, act, x⟩ :: h) hstate
        rw [hlog, hterm] at hled
        rw [hlog]
        refine ⟨hindexed.concat ?_, (hmono hrooted).concat ⟨a, hled⟩⟩
        simp [RaftNode.clientEntry, RaftNode.lastAppliedIndex, RaftLog.lastLogIndex, RaftLog.len]
      | append req hhandled happends =>
        obtain ⟨b, y, hy, _, _, hlog⟩ := log_of_append run hm inv hstep hhandled happends
        rw [hlog]
        exact ⟨(inv y hy b).1, hmono (inv y hy b).2⟩
    · obtain ⟨hindexed, hrooted⟩ := inv x hx a
      exact ⟨hindexed, hmono hrooted⟩

theorem isPrefix_of_namesLast {cfg : Config} {h : List (Move Cluster Action)} {c c' : Cluster}
    {act : Action} (run : Run (cluster cfg) h c) (hm : Meets KeepsTenure h)
    (hstep : c.step act = some c') {v : NodeId} {req : AppendEntriesRequest}
    (hhandled : c.handled act = some (v, .appendEntriesRequestEvent req))
    (hnames : RaftNode.NamesLast (c.node v).log req) :
    ∃ a, ∃ x ∈ moments h c, (x.node a).Issues req ∧
      (c.node v).log.inner <+: (x.node a).log.inner := by
  obtain ⟨_, a, hissued⟩ := issued_of_handled run hstep hhandled
  obtain ⟨x, hx, hissues, hvouched⟩ := hissued.vouched run
  have logged := logged_of_run run hm
  obtain ⟨hindexed, hrooted⟩ := logged c (mem_moments_self h c) v
  obtain ⟨hindexedB, hrootedB⟩ := logged x hx a
  exact ⟨a, x, hx, hissues, hvouched.isPrefix_of_namesLast (chain_of_run run hm) hindexed hindexedB
    hrooted hrootedB hnames⟩

theorem logMatching_of_keepsTenure {cfg : Config} {h : List (Move Cluster Action)} {c : Cluster}
    (run : Run (cluster cfg) h c) (hm : Meets KeepsTenure h) : LogMatching c := by
  intro a b i e e' he he' hterm j hj
  have logged := logged_of_run run hm c (mem_moments_self h c)
  have htake := take_eq_of_term_eq (chain_of_run run hm) (logged a).2 (logged b).2 he he' hterm
  have hget := congrArg (fun V : List LogEntry => V[j]?) htake
  rwa [List.getElem?_take_of_lt (by omega), List.getElem?_take_of_lt (by omega)] at hget

theorem logMatching_of_keepsTenure_replicated :
    ∃ h c, Run (cluster twoNodes) h c ∧ (c.node "node1").log.len = 2 ∧
      (c.node "node2").log.len = 1 ∧ LogMatching c := by
  obtain ⟨h, c, run, hm, hlen, hlen'⟩ := exists_run_of_exec (cluster twoNodes) KeepsTenure
    (fun c => (c.node "node1").log.len = 2 ∧ (c.node "node2").log.len = 1)
    (twoNodes.allUp ++ electionTimeout "node1" ++ exchange "node1" ["node2"] ++
      exchange "node1" ["node2"] ++ [.client "node1" ⟨"x", "1"⟩] ++ heartbeatTimeout "node1" ++
      exchange "node1" ["node2"] ++ [.client "node1" ⟨"y", "2"⟩]) (by decide +kernel)
  exact ⟨h, c, run, hlen, hlen', logMatching_of_keepsTenure run hm⟩

/-- Two leaders of term 2 take different commands at the same position. -/
theorem not_logMatching : ∃ h c, Run (cluster threeNodes) h c ∧ ¬LogMatching c := by
  obtain ⟨h, c, run, _, hlen, hterm, hne⟩ := exists_run_of_exec (cluster threeNodes)
    (fun _ _ => True)
    (fun c => (c.node "node1").log.len = 1 ∧
      ((c.node "node1").log.get 0).map (·.term) = ((c.node "node2").log.get 0).map (·.term) ∧
      (c.node "node1").log.get 0 ≠ (c.node "node2").log.get 0)
    (countStaleVotes ++ [.client "node1" ⟨"x", "1"⟩, .client "node2" ⟨"y", "2"⟩])
    (by decide +kernel)
  refine ⟨h, c, run, fun hmatching => hne ?_⟩
  obtain ⟨e, he⟩ : ∃ e, (c.node "node1").log.get 0 = some e :=
    ⟨_, List.getElem?_eq_getElem (show 0 < (c.node "node1").log.len by omega)⟩
  rw [he] at hterm
  obtain ⟨e', he', heq⟩ := Option.map_eq_some_iff.mp hterm.symm
  exact hmatching "node1" "node2" 0 e e' he he' heq.symm 0 (Nat.le_refl 0)

end Rafting
