import Rafting.LogMatching
import Rafting.Library.UpToDate

/-! The terms in the logs. Only a candidate or a leader moves to the term of a newer
request, and nobody refuses an older one; where every request that succeeds is of its
handler's term, logs are sorted by term and end before the node's own. -/
namespace Rafting
open Transition LogHistory

/-- A request that succeeds is of the handler's term, or of a newer one that the handler
moves to. -/
def AdoptsTerm (c : Cluster) (act : Action) : Prop :=
  ∀ x ∈ c.handledAppend act,
    RaftNode.Appends (c.node x.1).log x.2 ∨ RaftNode.Confirms (c.node x.1).log x.2 →
    x.2.term = (c.node x.1).currentTerm ∨
      (c.node x.1).currentTerm < x.2.term ∧ (c.node x.1).state ≠ .follower

def KeepsTerms (c : Cluster) (act : Action) : Prop :=
  CountsOwnTerm c act ∧ AdoptsTerm c act

instance (c : Cluster) (act : Action) : Decidable (AdoptsTerm c act) :=
  inferInstanceAs (Decidable (∀ x ∈ c.handledAppend act, _ → _))

instance (c : Cluster) (act : Action) : Decidable (KeepsTerms c act) :=
  inferInstanceAs (Decidable (_ ∧ _))

section Step
variable {cfg : Config} {h : List (Move Cluster Action)} {c c' : Cluster} {act : Action}

theorem AdoptsTerm.currentTerm (hadopts : AdoptsTerm c act) (hstep : c.step act = some c')
    {v : NodeId} {req : AppendEntriesRequest}
    (hhandled : c.handled act = some (v, .appendEntriesRequestEvent req))
    (hsuccess : RaftNode.Appends (c.node v).log req ∨ RaftNode.Confirms (c.node v).log req) :
    (c'.node v).currentTerm = req.term ∧ (c.node v).currentTerm ≤ req.term := by
  have hterm := hadopts _ (Cluster.handledAppend_eq_some.mpr hhandled) hsuccess
  dsimp only at hterm
  rw [Cluster.node_of_append hstep hhandled, RaftNode.stepAppendEntriesRequest_currentTerm]
  rcases RaftNode.adoptTerm_cases (c.node v) req with ⟨hlt, _, heq⟩ | ⟨hguard, heq⟩
  · rw [heq]
    exact ⟨rfl, by omega⟩
  · rw [heq]
    rcases hterm with hterm | hterm
    · exact ⟨hterm.symm, by omega⟩
    · exact absurd hterm hguard

theorem issuer_unique (run : Run (cluster cfg) h c) (hm : Meets CountsOwnTerm h) {a b : NodeId}
    {req req' : AppendEntriesRequest} (hissued : Issued h c a req) (hissued' : Issued h c b req')
    (hterm : req.term = req'.term) : a = b := by
  obtain ⟨x, hx, hissues⟩ := hissued
  obtain ⟨y, hy, hissues'⟩ := hissued'
  apply leader_unique run hm hx hy hissues.1 hissues'.1
  rw [← hissues.header.2.1, ← hissues'.header.2.1, hterm]

theorem Issued.ne_toNode (run : Run (cluster cfg) h c) {a : NodeId} {req : AppendEntriesRequest}
    (hissued : Issued h c a req) (hmember : req.toNode ∈ cfg.ids) : req.toNode ≠ a := by
  obtain ⟨x, hx, hissues⟩ := hissued
  have members : Members cfg x := run.of_mem_moments (Members cfg) members_of_run hx
  have hpeer := hissues.header.2.2.1
  rw [members.peers] at hpeer
  rintro rfl
  exact ((cfg.mem_peersOf hmember).mp hpeer).1 rfl

theorem not_leader_of_own_request (run : Run (cluster cfg) h c) (hm : Meets CountsOwnTerm h)
    {a : NodeId} {req : AppendEntriesRequest} (hissued : Issued h c a req)
    (hmember : req.toNode ∈ cfg.ids) (hterm : (c.node req.toNode).currentTerm = req.term) :
    (c.node req.toNode).state ≠ .leader := by
  intro hleader
  have hne := hissued.ne_toNode run hmember
  obtain ⟨x, hx, hissues⟩ := hissued
  refine hne (leader_unique run hm (mem_moments_self h c) hx hleader hissues.1 ?_)
  rw [hterm, hissues.header.2.1]

theorem AdoptsTerm.not_appends (hadopts : AdoptsTerm c act) (run : Run (cluster cfg) h c)
    (hm : Meets CountsOwnTerm h) (hstep : c.step act = some c') {v : NodeId}
    {req : AppendEntriesRequest}
    (hhandled : c.handled act = some (v, .appendEntriesRequestEvent req))
    (hleader : (c.node v).state = .leader) (hle : req.term ≤ (c.node v).currentTerm) :
    ¬RaftNode.Appends (c.node v).log req := by
  intro happends
  obtain ⟨rfl, a, hissued⟩ := issued_of_handled run hstep hhandled
  have hmember := (members_of_run run).mem_ids_of_selecting
    (Cluster.servers_of_handled hstep hhandled).1
  have hterm := (hadopts.currentTerm hstep hhandled (Or.inl happends)).2
  exact absurd hleader (not_leader_of_own_request run hm hissued hmember (by omega))

end Step

theorem keepsTenure_of_keepsTerms {cfg : Config} {h : List (Move Cluster Action)} {c : Cluster}
    (run : Run (cluster cfg) h c) (hm : Meets KeepsTerms h) : Meets KeepsTenure h := by
  apply run.invariant KeepsTerms (fun h _ => Meets KeepsTenure h) (meets_nil _) ?_ hm
  intro h c c' act run hm inv hcond hstep
  refine meets_cons.mpr ⟨⟨hcond.1, ?_⟩, inv⟩
  rintro ⟨v, req⟩ hhandled hleader hle happends
  have hhandled := Cluster.handledAppend_eq_some.mp hhandled
  exact absurd happends
    (hcond.2.not_appends run (hm.imp fun _ _ h => h.1) hstep hhandled hleader hle)

/-- The log is sorted by term and ends at the node's own. -/
structure RaftNode.Aged (node : RaftNode) : Prop where
  term : 0 ≤ node.currentTerm
  sorted : Sorted LogEntry.term node.log.inner
  bounds : ∀ e ∈ node.log.inner, 0 ≤ e.term ∧ e.term ≤ node.currentTerm

theorem RaftNode.Aged.of_log_eq {node node' : RaftNode} (h : node.Aged)
    (hlog : node'.log = node.log) (hterm : node.currentTerm ≤ node'.currentTerm) : node'.Aged := by
  refine ⟨h.term.trans hterm, hlog ▸ h.sorted, ?_⟩
  intro e he
  rw [hlog] at he
  exact ⟨(h.bounds e he).1, (h.bounds e he).2.trans hterm⟩

theorem RaftNode.Aged.append {node node' : RaftNode} (h : node.Aged) {entry : LogEntry}
    (hentry : entry.term = node.currentTerm) (hterm : node'.currentTerm = node.currentTerm)
    (hlog : node'.log = node.log.append entry) : node'.Aged := by
  refine ⟨hterm ▸ h.term, ?_, ?_⟩
  · rw [hlog]
    exact h.sorted.concat fun e he => hentry ▸ (h.bounds e he).2
  · intro e he
    rw [hlog] at he
    rw [hterm]
    rcases List.mem_append.mp he with he | he
    · exact h.bounds e he
    · rw [List.mem_singleton.mp he, hentry]
      exact ⟨h.term, Int.le_refl _⟩

theorem aged_of_run {cfg : Config} {h : List (Move Cluster Action)} {c : Cluster}
    (run : Run (cluster cfg) h c) (hm : Meets KeepsTerms h) :
    ∀ x ∈ moments h c, ∀ a, (x.node a).Aged := by
  apply run.invariant_moments KeepsTerms (fun x => ∀ a, (x.node a).Aged) ?_ ?_ hm
  · intro a
    rw [Cluster.cluster_init, Cluster.node_initial]
    exact ⟨Int.le_refl _, List.Pairwise.nil, fun e he => absurd he List.not_mem_nil⟩
  · intro h c c' act run hm inv hcond hstep a
    have hold := inv c (mem_moments_self h c) a
    cases Cluster.log_move hstep a with
    | keep hlog => exact hold.of_log_eq hlog (Cluster.currentTerm_mono hstep a)
    | client command _ _ _ hterm hlog => exact hold.append rfl hterm hlog
    | append req hhandled happends =>
      have hm' := keepsTenure_of_keepsTerms run hm
      obtain ⟨b, y, hy, hissues, _, hlog⟩ :=
        log_of_append run hm' (logged_of_run run hm') hstep hhandled happends
      have hterm := (hcond.2.currentTerm hstep hhandled (Or.inl happends)).1
      apply (inv y hy b).of_log_eq (congrArg RaftLog.mk hlog)
      rw [hterm, hissues.header.2.1]

end Rafting
