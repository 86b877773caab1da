import Rafting.Commitment

/-! Commit indices. A leader counts a missing match index as 0 and, after the cast, -1 as
the greatest, and a follower follows the leader's index on requests that bring it nothing;
where positions are committed on records, and followers share what they commit, all that
any node has committed is part of a committed prefix. -/
namespace Rafting
open Transition LogHistory

def RaftNode.recordedCount (node : RaftNode) (ci : Nat) : Nat :=
  (node.peers.filter fun p => (node.matchIndex p).any fun m => (ci : Int) ≤ m).length

/-- Every position that the commit loop accepts is recorded for a quorum of peers. -/
def CountsRecorded (c : Cluster) (act : Action) : Prop :=
  ∀ x ∈ c.received act, (c.node x.1).state = .leader →
    (c.node x.1).currentTerm = x.2.term → x.2.success = true →
    ∀ ci < (c.node x.1).log.len, (c.node x.1).commitIndex ≤ ci →
      ((c.node x.1).recordMatch x.2).Counted ci →
      (c.node x.1).quorumSize ≤ ((c.node x.1).recordMatch x.2).recordedCount ci

/-- What a node commits on a request that it confirms is part of the sender's log. -/
def ComparesCommitted (c : Cluster) (act : Action) : Prop :=
  ∀ x ∈ c.handledAppend act, RaftNode.Confirms (c.node x.1).log x.2 →
    (c.node x.1).commitIndex < x.2.leaderCommitIndex →
    (c.node x.1).log.inner.take (x.2.leaderCommitIndex + 1).toNat <+:
      (c.node x.2.leaderId).log.inner

/-- The steps whose runs have safe commit indices. -/
structure KeepsCommits (c : Cluster) (act : Action) : Prop where
  votes : KeepsVotes c act
  fresh : FreshMatches c act
  compared : ComparesLog c act
  recorded : CountsRecorded c act
  shared : ComparesCommitted c act

instance (c : Cluster) (act : Action) : Decidable (CountsRecorded c act) :=
  inferInstanceAs (Decidable (∀ x ∈ c.received act, _ → _ → _ → ∀ ci < _, _ → _ → _))

instance (c : Cluster) (act : Action) : Decidable (ComparesCommitted c act) :=
  inferInstanceAs (Decidable (∀ x ∈ c.handledAppend act, _ → _ → _))

instance (c : Cluster) (act : Action) : Decidable (KeepsCommits c act) :=
  decidable_of_iff
    (KeepsVotes c act ∧ FreshMatches c act ∧ ComparesLog c act ∧ CountsRecorded c act ∧
      ComparesCommitted c act)
    ⟨fun h => ⟨h.1, h.2.1, h.2.2.1, h.2.2.2.1, h.2.2.2.2⟩,
      fun h => ⟨h.votes, h.fresh, h.compared, h.recorded, h.shared⟩⟩

theorem keepsMatches_of_keepsCommits {cfg : Config} {h : List (Move Cluster Action)} {c : Cluster}
    (run : Run (cluster cfg) h c) (hm : Meets KeepsCommits h) : Meets KeepsMatches h := by
  have htenure := keepsTenure_of_keepsTerms run (hm.imp fun _ _ hcond => hcond.votes.1)
  intro m hmem
  exact ⟨htenure m hmem, (hm m hmem).fresh, (hm m hmem).compared⟩

/-! ## Leaders -/

section Leaders
variable {cfg : Config} {h : List (Move Cluster Action)} {c : Cluster}

theorem Acknowledged.held (run : Run (cluster cfg) h c) (hm : Meets KeepsTerms h) {l p : NodeId}
    {m : Int} (hack : Acknowledged h c l p m) {ci : Nat} (hci : ci ≤ m) :
    Held h c p (c.node l).currentTerm ((c.node l).log.inner.take (ci + 1)) := by
  obtain ⟨move, hmem, req, response, hanswered, _, hterm, hsuccess, hlast, hpre⟩ := hack
  obtain ⟨hstep, _, hafter, h', run', _⟩ := run.of_mem hmem
  obtain ⟨_, ⟨hfailed, _⟩ | ⟨_, _, hlog, _⟩⟩ := hanswered.reports ((members_of_run run').id p)
  · rw [hsuccess] at hfailed
    cases hfailed
  have hadopted := ((hm move hmem).2.currentTerm hstep hanswered.handled
    (RaftNode.appends_or_confirms _ _ (by simp [hlog]))).1
  refine ⟨move.after, hafter, hadopted.trans hterm, ?_⟩
  apply List.prefix_of_prefix_length_le (List.take_prefix _ _) hpre
  simp only [RaftLog.lastLogIndex, RaftLog.len] at hlast
  rw [List.length_take]
  omega

theorem held_of_recorded (run : Run (cluster cfg) h c) (hm : Meets KeepsCommits h) {l p : NodeId}
    {req : AppendEntriesRequest} {peer : NodeId} {response : AppendEntriesResponse}
    (hphase : c.phase l = .awaiting (.appendEntriesRequestEvent req)
      [(peer, .answered (.appendEntriesResponseEvent response))])
    (hleader : (c.node l).state = .leader) (hown : (c.node l).currentTerm = response.term)
    (hsuccess : response.success = true) (hp : p ∈ (c.node l).peers) {m : Int}
    (hrecord : ((c.node l).recordMatch response).matchIndex p = some m) {ci : Nat} (hci : ci ≤ m) :
    Held h c p (c.node l).currentTerm ((c.node l).log.inner.take (ci + 1)) := by
  have hmatches := keepsMatches_of_keepsCommits run hm
  have hterms : Meets KeepsTerms h := hm.imp fun _ _ hcond => hcond.votes.1
  by_cases hfrom : p = response.fromNode
  · have hack := acknowledged_of_reply run hmatches hphase hleader hown hsuccess
    rw [RaftNode.recordMatch_matchIndex, hfrom, Function.update_self] at hrecord
    cases hrecord
    rw [hfrom]
    exact hack.held run hterms hci
  · rw [RaftNode.recordMatch_matchIndex, Function.update_of_ne hfrom] at hrecord
    exact (matchAcknowledged_of_run run hmatches l hleader p hp m hrecord (by omega)).held run
      hterms hci

theorem committed_of_counted (run : Run (cluster cfg) h c) (hm : Meets KeepsCommits h)
    {l : NodeId} {req : AppendEntriesRequest} {peer : NodeId} {response : AppendEntriesResponse}
    (hphase : c.phase l = .awaiting (.appendEntriesRequestEvent req)
      [(peer, .answered (.appendEntriesResponseEvent response))])
    (hleader : (c.node l).state = .leader) (hown : (c.node l).currentTerm = response.term)
    (hsuccess : response.success = true) {ci : Nat} {x : LogEntry}
    (hget : (c.node l).log.get ci = some x) (hterm : x.term = (c.node l).currentTerm)
    (hrecorded : (c.node l).quorumSize ≤ ((c.node l).recordMatch response).recordedCount ci) :
    Committed cfg h c ((c.node l).log.inner.take (ci + 1)) x := by
  have members := members_of_run run
  have hmember := members.mem_ids_of_awaiting hphase
  refine ⟨?_, ⟨_, ⟨l, hterm ▸ led_self hleader⟩, List.take_prefix _ _⟩, ?_⟩
  · have hget : (c.node l).log.inner[ci]? = some x := hget
    rw [List.getLast?_take, if_neg (by omega), Nat.add_sub_cancel, hget]
    rfl
  let recorded := (c.node l).peers.filter fun p =>
    (((c.node l).recordMatch response).matchIndex p).any fun m => (ci : Int) ≤ m
  have hsub : recorded.Sublist (cfg.peersOf l) := members.peers l ▸ List.filter_sublist
  refine ⟨_, cfg.isMajority_of_peers hmember ((cfg.peersOf_nodup hmember).sublist hsub)
    (fun p hp => hsub.subset hp) ?_, ?_⟩
  · rw [← members.peers l]
    exact hrecorded
  · intro v hv
    rw [hterm]
    rcases Finset.mem_insert.mp hv with rfl | hv
    · exact ⟨c, mem_moments_self h c, rfl, List.take_prefix _ _⟩
    · obtain ⟨hp, hany⟩ := List.mem_filter.mp (List.mem_toFinset.mp hv)
      obtain ⟨m, hrecord, hci⟩ := (Option.any_eq_true _ _).mp hany
      exact held_of_recorded run hm hphase hleader hown hsuccess hp hrecord (of_decide_eq_true hci)

end Leaders

/-! ## All nodes -/

/-- What the node has committed is part of a committed prefix, of its own term at most. -/
def Certified (cfg : Config) (h : List (Move Cluster Action)) (c : Cluster) (node : RaftNode) :
    Prop :=
  node.committed = [] ∨
    ∃ P x, Committed cfg h c P x ∧ x.term ≤ node.currentTerm ∧ node.committed <+: P

theorem Certified.mono {cfg : Config} {h : List (Move Cluster Action)} {c : Cluster}
    {node node' : RaftNode} (hcertified : Certified cfg h c node)
    (hterm : node.currentTerm ≤ node'.currentTerm) (hpre : node'.committed <+: node.committed) :
    Certified cfg h c node' := by
  rcases hcertified with hnil | ⟨P, x, hcommitted, hle, hP⟩
  · exact Or.inl (List.prefix_nil.mp (hnil ▸ hpre))
  · exact Or.inr ⟨P, x, hcommitted, hle.trans hterm, hpre.trans hP⟩

theorem Certified.next {cfg : Config} {h : List (Move Cluster Action)} {c c' : Cluster}
    {act : Action} {node : RaftNode} (hcertified : Certified cfg h c node) :
    Certified cfg (⟨c, act, c'⟩ :: h) c' node := by
  rcases hcertified with hnil | ⟨P, x, hcommitted, hle, hP⟩
  · exact Or.inl hnil
  · exact Or.inr ⟨P, x, hcommitted.next, hle, hP⟩

structure CommitsSafe (cfg : Config) (h : List (Move Cluster Action)) (c : Cluster) : Prop where
  certified : ∀ y ∈ moments h c, ∀ a, Certified cfg h c (y.node a)
  kept : Meets KeepsCommitted h

section Step
variable {cfg : Config} {h : List (Move Cluster Action)} {c c' : Cluster} {act : Action}

theorem LedIn.grown (run : Run (cluster cfg) h c) (hm : Meets KeepsTerms h) {t : Int}
    {B B' : List LogEntry} (hled : LedIn h c t B) (hled' : LedIn h c t B') :
    ∀ e ∈ B'.drop B.length, e.term = t := by
  obtain ⟨a, hled⟩ := hled
  obtain ⟨b, hled'⟩ := hled'
  have hsame : a = b := by
    obtain ⟨y, hy, hleader, hterm, _⟩ := hled
    obtain ⟨y', hy', hleader', hterm', _⟩ := hled'
    exact leader_unique run (hm.imp fun _ _ hcond => hcond.1) hy hy' hleader hleader'
      (hterm.trans hterm'.symm)
  exact grownInTerm_of_run run hm a t B B' hled (hsame ▸ hled')

theorem committed_isPrefix_of_append (run : Run (cluster cfg) h c) (hm : Meets KeepsCommits h)
    (hcond : KeepsCommits c act) (hstep : c.step act = some c') {v : NodeId}
    {req : AppendEntriesRequest}
    (hhandled : c.handled act = some (v, .appendEntriesRequestEvent req))
    (happends : RaftNode.Appends (c.node v).log req) (hcertified : Certified cfg h c (c.node v)) :
    (c.node v).committed <+: (c'.node v).log.inner := by
  have hvotes : Meets KeepsVotes h := hm.imp fun _ _ hcond => hcond.votes
  have hterms : Meets KeepsTerms h := hvotes.imp fun _ _ hcond => hcond.1
  have hm' := keepsTenure_of_keepsTerms run hterms
  rcases hcertified with hnil | ⟨P, x, hcommitted, hle, hP⟩
  · exact hnil ▸ List.nil_prefix
  have hadopted := (hcond.votes.1.2.currentTerm hstep hhandled (Or.inl happends)).2
  obtain ⟨b, y, hy, hissues, _, hlog⟩ :=
    log_of_append run hm' (logged_of_run run hm') hstep hhandled happends
  have hled : LedIn h c req.term (c'.node v).log.inner := by
    rw [hlog]
    exact ⟨b, hissues.led hy⟩
  rcases Int.lt_or_eq_of_le (hle.trans hadopted) with hlt | heq
  · exact hP.trans (hcommitted.isPrefix_of_later run hvotes hlt hled)
  · -- a shorter log of the term would cut entries of the term that the node has
    obtain ⟨B, hB, hPB⟩ := hcommitted.led
    have hcB : (c.node v).committed <+: B := hP.trans hPB
    have hlength : (c.node v).committed.length ≤ (c'.node v).log.inner.length := by
      by_contra hshort
      obtain ⟨e, he⟩ : ∃ e, (c.node v).committed[(c'.node v).log.inner.length]? = some e :=
        ⟨_, List.getElem?_eq_getElem (by omega)⟩
      have heB := ListPrefix.prefix_iff_getElem?.mp hcB _ e he
      have hterm : e.term = req.term := by
        apply LedIn.grown run hterms hled (heq ▸ hB) e
        exact List.mem_of_getElem? (by rw [List.getElem?_drop, Nat.add_zero]; exact heB)
      have hget := ListPrefix.prefix_iff_getElem?.mp (c.node v).committed_isPrefix _ e he
      have hlt := lt_len_of_append run hterms hcond.votes.1 hstep hhandled happends hget hterm
      simp only [RaftLog.len] at hlt
      omega
    rcases chain_of_run run hm' _ B _ hB (heq ▸ hled) with hsub | hsub
    · exact hcB.trans hsub
    · exact List.prefix_of_prefix_length_le hcB hsub hlength

theorem CommitsSafe.keepsCommitted (inv : CommitsSafe cfg h c) (run : Run (cluster cfg) h c)
    (hm : Meets KeepsCommits h) (hcond : KeepsCommits c act) (hstep : c.step act = some c') :
    KeepsCommitted c act := by
  apply keepsCommitted_of_isPrefix hstep
  intro a
  have hsame := (c.node a).committed_isPrefix
  cases Cluster.log_move hstep a with
  | keep hlog => exact hlog ▸ hsame
  | client _ _ _ _ _ hlog =>
    rw [hlog]
    exact hsame.trans (List.prefix_append _ _)
  | append req hhandled happends =>
    exact committed_isPrefix_of_append run hm hcond hstep hhandled happends
      (inv.certified c (mem_moments_self h c) a)

theorem committed_of_request (inv : CommitsSafe cfg h c) (run : Run (cluster cfg) h c)
    (hm : Meets KeepsCommits h) (hcond : KeepsCommits c act) (hstep : c.step act = some c')
    {v : NodeId} {req : AppendEntriesRequest}
    (hhandled : c.handled act = some (v, .appendEntriesRequestEvent req))
    (hsuccess : RaftNode.appendLog (c.node v).log req ≠ none)
    (hnewer : (c.node v).commitIndex < req.leaderCommitIndex) :
    ∃ b, ∃ y ∈ moments h c, (y.node b).currentTerm = req.term ∧
      (c'.node v).log.inner.take (req.leaderCommitIndex + 1).toNat <+: (y.node b).committed := by
  have hm' := keepsTenure_of_keepsTerms run (hm.imp fun _ _ hcond => hcond.votes.1)
  rcases RaftNode.appends_or_confirms _ _ hsuccess with happends | hconfirms
  · obtain ⟨b, y, hy, hissues, _, hlog⟩ :=
      log_of_append run hm' (logged_of_run run hm') hstep hhandled happends
    obtain ⟨_, hterm, _, hcommit⟩ := hissues.header
    refine ⟨b, y, hy, hterm.symm, ?_⟩
    rw [hlog, hcommit]
    exact List.prefix_refl _
  · have hlog := Cluster.log_of_confirm hstep hhandled hconfirms
    obtain ⟨_, b, y, hy, hissues⟩ := issued_of_handled run hstep hhandled
    obtain ⟨hsender, hterm, _, hcommit⟩ := hissues.header
    have members : Members cfg y := run.of_mem_moments (Members cfg) members_of_run hy
    rw [members.id] at hsender
    have hshared := hcond.shared _ (Cluster.handledAppend_eq_some.mpr hhandled) hconfirms hnewer
    dsimp only at hshared
    rw [hsender, ← hlog] at hshared
    have hstays := (committed_of_mem_moments run inv.kept hy b).trans (c.node b).committed_isPrefix
    have happlied := applied_of_run run inv.kept y hy b
    refine ⟨b, y, hy, hterm.symm, List.prefix_of_prefix_length_le hshared hstays ?_⟩
    simp only [RaftNode.lastAppliedIndex, RaftLog.lastLogIndex, RaftLog.len] at happlied
    simp only [RaftNode.committed, List.length_take]
    omega

theorem CommitsSafe.step_certified (inv : CommitsSafe cfg h c) (run : Run (cluster cfg) h c)
    (hm : Meets KeepsCommits h) (hcond : KeepsCommits c act) (hstep : c.step act = some c')
    (a : NodeId) : Certified cfg (⟨c, act, c'⟩ :: h) c' (c'.node a) := by
  have hmono := Cluster.currentTerm_mono hstep a
  have happlied := applied_of_run run inv.kept c (mem_moments_self h c) a
  have hpre := ((inv.keepsCommitted run hm hcond hstep).step hstep happlied).1
  have hkept : (c'.node a).commitIndex = (c.node a).commitIndex →
      Certified cfg (⟨c, act, c'⟩ :: h) c' (c'.node a) := fun hcommit =>
    (inv.certified c (mem_moments_self h c) a).next.mono hmono
      (by rw [RaftNode.committed_eq hpre happlied hcommit])
  cases Cluster.commit_move hstep a with
  | keep hcommit _ => exact hkept hcommit
  | client _ _ hcommit _ => exact hkept hcommit
  | append req hhandled _ hcommit =>
    split at hcommit
    · rename_i hnewer
      obtain ⟨b, y, hy, hterm, hcommitted⟩ :=
        committed_of_request inv run hm hcond hstep hhandled hnewer.1 hnewer.2
      have hadopted := (hcond.votes.1.2.currentTerm hstep hhandled
        (RaftNode.appends_or_confirms _ _ hnewer.1)).1
      refine (inv.certified y hy b).next.mono (by omega) (List.IsPrefix.trans ?_ hcommitted)
      rw [RaftNode.committed, hcommit]
      exact List.take_prefix_take_left (by omega)
    · exact hkept hcommit
  | count req peer response ci hact hphase hrole hown hsuccess hle hlt hcounted hlog hcommit =>
    have hrecorded := hcond.recorded _ (Cluster.received_eq_some hact hphase) hrole hown hsuccess
      ci hlt hle hcounted
    obtain ⟨x, hget, hterm, _⟩ := hcounted
    refine Or.inr ⟨_, x, (committed_of_counted run hm hphase hrole hown hsuccess hget hterm
      hrecorded).next, ?_, ?_⟩
    · exact (Int.le_of_eq hterm).trans hmono
    · rw [RaftNode.committed, hcommit, hlog]
      exact List.prefix_refl _

end Step

theorem commitsSafe_of_run {cfg : Config} {h : List (Move Cluster Action)} {c : Cluster}
    (run : Run (cluster cfg) h c) (hm : Meets KeepsCommits h) : CommitsSafe cfg h c := by
  apply run.invariant KeepsCommits (CommitsSafe cfg) ⟨?_, meets_nil _⟩ ?_ hm
  · intro y hy a
    rw [eq_of_mem_moments_nil hy, Cluster.cluster_init, Cluster.node_initial]
    exact Or.inl rfl
  · intro h c c' act run hm inv hcond hstep
    refine ⟨?_, meets_cons.mpr ⟨inv.keepsCommitted run hm hcond hstep, inv.kept⟩⟩
    intro y hy a
    rcases mem_moments_next.mp hy with rfl | hy
    · exact inv.step_certified run hm hcond hstep a
    · exact (inv.certified y hy a).next

/-- The steps that keep commits safe without a comparison of two nodes' logs. -/
structure ChecksCommits (c : Cluster) (act : Action) : Prop where
  votes : KeepsVotes c act
  fresh : FreshMatches c act
  checked : ChecksLast c act
  recorded : CountsRecorded c act

instance (c : Cluster) (act : Action) : Decidable (ChecksCommits c act) :=
  decidable_of_iff
    (KeepsVotes c act ∧ FreshMatches c act ∧ ChecksLast c act ∧ CountsRecorded c act)
    ⟨fun h => ⟨h.1, h.2.1, h.2.2.1, h.2.2.2⟩, fun h => ⟨h.votes, h.fresh, h.checked, h.recorded⟩⟩

/-- With log matching, the follower's check of the request does for the comparison with the
sender's log: what the sender had committed stays in it. -/
theorem comparesCommitted_of_checksLast {cfg : Config} {h : List (Move Cluster Action)}
    {c c' : Cluster} {act : Action} (run : Run (cluster cfg) h c) (hm : Meets KeepsCommits h)
    (hstep : c.step act = some c') (hchecks : ChecksLast c act) : ComparesCommitted c act := by
  intro x hx hconfirms _
  have hm' := keepsTenure_of_keepsTerms run (hm.imp fun _ _ hcond => hcond.votes.1)
  obtain ⟨b, y, hy, hissues, hpre⟩ := isPrefix_of_namesLast run hm' hstep
    (Cluster.handledAppend_eq_some.mp hx) (hchecks x hx hconfirms)
  obtain ⟨hsender, _, _, hcommit⟩ := hissues.header
  have members : Members cfg y := run.of_mem_moments (Members cfg) members_of_run hy
  rw [members.id] at hsender
  have hstays := (committed_of_mem_moments run (commitsSafe_of_run run hm).kept hy b).trans
    (c.node b).committed_isPrefix
  rw [RaftNode.committed, ← hcommit] at hstays
  rw [hsender]
  exact (hpre.take _).trans hstays

theorem keepsCommits_of_checksCommits {cfg : Config} {h : List (Move Cluster Action)} {c : Cluster}
    (run : Run (cluster cfg) h c) (hm : Meets ChecksCommits h) : Meets KeepsCommits h := by
  apply run.invariant ChecksCommits (fun h _ => Meets KeepsCommits h) (meets_nil _) ?_ hm
  intro h c c' act run _ hkept hcond hstep
  have htenure := keepsTenure_of_keepsTerms run (hkept.imp fun _ _ hcond => hcond.votes.1)
  exact meets_cons.mpr ⟨⟨hcond.votes, hcond.fresh,
    comparesLog_of_checksLast run htenure hstep hcond.checked, hcond.recorded,
    comparesCommitted_of_checksLast run hkept hstep hcond.checked⟩, hkept⟩

/-! ## Leader completeness -/

/-- What a leader has committed is in the logs of the leaders of all later terms. -/
def LeaderComplete (h : List (Move Cluster Action)) (c : Cluster) : Prop :=
  ∀ x ∈ moments h c, ∀ a b, (x.node a).state = .leader → (c.node b).state = .leader →
    (x.node a).currentTerm < (c.node b).currentTerm →
    ∀ (i : Nat) e, i ≤ (x.node a).commitIndex → (x.node a).log.get i = some e →
      (c.node b).log.get i = some e

theorem leaderComplete_of_keepsCommits {cfg : Config} {h : List (Move Cluster Action)}
    {c : Cluster} (run : Run (cluster cfg) h c) (hm : Meets KeepsCommits h) :
    LeaderComplete h c := by
  intro x hx a b _ hleader hlt i e hi hget
  have hcommitted : (x.node a).committed[i]? = some e := by
    rw [RaftNode.committed, List.getElem?_take_of_lt (by omega)]
    exact hget
  rcases (commitsSafe_of_run run hm).certified x hx a with hnil | ⟨P, y, hP, hle, hpre⟩
  · rw [hnil] at hcommitted
    cases hcommitted
  · have hlater := hP.isPrefix_of_later run (hm.imp fun _ _ hcond => hcond.votes)
      (hle.trans_lt hlt) ⟨b, led_self hleader⟩
    exact ListPrefix.prefix_iff_getElem?.mp (hpre.trans hlater) i e hcommitted

/-- `node1`'s entry is replicated and committed in term 1, and `node2` told so. -/
def commitReplicated : List Action :=
  twoNodes.allUp ++ electionTimeout "node1" ++ exchange "node1" ["node2"] ++
    exchange "node1" ["node2"] ++ [.client "node1" ⟨"x", "1"⟩] ++ heartbeatTimeout "node1" ++
    exchange "node1" ["node2"] ++ heartbeatTimeout "node1" ++ exchange "node1" ["node2"]

example : ∃ h c, Run (cluster twoNodes) h c ∧ Meets ChecksCommits h ∧
    (c.node "node1").commitIndex = 0 ∧ (c.node "node2").commitIndex = 0 :=
  exists_run_of_exec (cluster twoNodes) ChecksCommits
    (fun c => (c.node "node1").commitIndex = 0 ∧ (c.node "node2").commitIndex = 0)
    commitReplicated (by decide +kernel)

theorem leaderComplete_of_keepsCommits_replicated :
    ∃ h c, Run (cluster twoNodes) h c ∧ (c.node "node2").state = .leader ∧
      (c.node "node2").currentTerm = 2 ∧ (c.node "node2").log.len = 1 ∧ LeaderComplete h c := by
  obtain ⟨h, c, run, hm, hleader, hterm, hlen⟩ := exists_run_of_exec (cluster twoNodes) KeepsCommits
    (fun c => (c.node "node2").state = .leader ∧ (c.node "node2").currentTerm = 2 ∧
      (c.node "node2").log.len = 1)
    (commitReplicated ++ electionTimeout "node2" ++ exchange "node2" ["node1"]) (by decide +kernel)
  exact ⟨h, c, run, hleader, hterm, hlen, leaderComplete_of_keepsCommits run hm⟩

/-- `node1` accepts an entry and commits it on `node2`'s reply to its empty first request;
then `node2` is elected in term 2 without the entry. -/
def commitUnreplicated : List Action :=
  twoNodes.allUp ++ electionTimeout "node1" ++ exchange "node1" ["node2"] ++
    [.client "node1" ⟨"x", "1"⟩] ++ exchange "node1" ["node2"]

theorem not_leaderComplete : ∃ h c, Run (cluster twoNodes) h c ∧ ¬LeaderComplete h c := by
  obtain ⟨h, c, run, _, x, hx, hleader, hleader', hlt, hcommit, hget, hempty⟩ :=
    exists_run_of_exec₂ (cluster twoNodes) (fun _ _ => True)
      (fun x c => (x.node "node1").state = .leader ∧ (c.node "node2").state = .leader ∧
        (x.node "node1").currentTerm < (c.node "node2").currentTerm ∧
        (x.node "node1").commitIndex = 0 ∧ (x.node "node1").log.get 0 ≠ none ∧
        (c.node "node2").log.get 0 = none)
      commitUnreplicated (electionTimeout "node2" ++ exchange "node2" ["node1"])
      (by decide +kernel)
  refine ⟨h, c, run, fun hcomplete => ?_⟩
  obtain ⟨e, he⟩ := Option.ne_none_iff_exists'.mp hget
  have hlater := hcomplete x hx "node1" "node2" hleader hleader' hlt 0 e (by omega) he
  rw [hempty] at hlater
  cases hlater

/-! ## State machine safety -/

def StateMachineSafe (c : Cluster) : Prop :=
  ∀ a b (i : Nat), i ≤ (c.node a).commitIndex → i ≤ (c.node b).commitIndex →
    ∃ e, (c.node a).log.get i = some e ∧ (c.node b).log.get i = some e

theorem stateMachineSafe_of_keepsCommits {cfg : Config} {h : List (Move Cluster Action)}
    {c : Cluster} (run : Run (cluster cfg) h c) (hm : Meets KeepsCommits h) :
    StateMachineSafe c := by
  intro a b i hi hi'
  have hnow := mem_moments_self h c
  have hsafe := commitsSafe_of_run run hm
  have hentry : ∀ v, i ≤ (c.node v).commitIndex →
      ∃ e, (c.node v).log.get i = some e ∧ (c.node v).committed[i]? = some e := by
    intro v hv
    have happlied := applied_of_run run hsafe.kept c hnow v
    simp only [RaftNode.lastAppliedIndex, RaftLog.lastLogIndex, RaftLog.len] at happlied
    refine ⟨(c.node v).log.inner[i], List.getElem?_eq_getElem (by omega), ?_⟩
    rw [RaftNode.committed, List.getElem?_take_of_lt (by omega)]
    exact List.getElem?_eq_getElem (by omega)
  obtain ⟨e, hget, hcommitted⟩ := hentry a hi
  obtain ⟨e', hget', hcommitted'⟩ := hentry b hi'
  have hsame : e' = e := by
    rcases hsafe.certified c hnow a with hnil | ⟨P, x, hP, _, hpre⟩
    · rw [hnil] at hcommitted
      cases hcommitted
    rcases hsafe.certified c hnow b with hnil | ⟨P', x', hP', _, hpre'⟩
    · rw [hnil] at hcommitted'
      cases hcommitted'
    have hPe := ListPrefix.prefix_iff_getElem?.mp hpre i e hcommitted
    have hPe' := ListPrefix.prefix_iff_getElem?.mp hpre' i e' hcommitted'
    rcases hP.comparable run (hm.imp fun _ _ hcond => hcond.votes) hP' with hsub | hsub
    · have hPe := ListPrefix.prefix_iff_getElem?.mp hsub i e hPe
      exact Option.some.inj (hPe'.symm.trans hPe)
    · have hPe' := ListPrefix.prefix_iff_getElem?.mp hsub i e' hPe'
      exact Option.some.inj (hPe'.symm.trans hPe)
  exact ⟨e, hget, hsame ▸ hget'⟩

theorem stateMachineSafe_of_keepsCommits_replicated :
    ∃ h c, Run (cluster twoNodes) h c ∧ (c.node "node1").commitIndex = 0 ∧
      (c.node "node2").commitIndex = 0 ∧ StateMachineSafe c := by
  obtain ⟨h, c, run, hm, hcommit, hcommit'⟩ := exists_run_of_exec (cluster twoNodes) KeepsCommits
    (fun c => (c.node "node1").commitIndex = 0 ∧ (c.node "node2").commitIndex = 0)
    commitReplicated (by decide +kernel)
  exact ⟨h, c, run, hcommit, hcommit', stateMachineSafe_of_keepsCommits run hm⟩

/-- The same run: the second leader commits another entry at the same position. -/
theorem not_stateMachineSafe : ∃ h c, Run (cluster twoNodes) h c ∧ ¬StateMachineSafe c := by
  obtain ⟨h, c, run, _, hcommit, hcommit', hne⟩ := exists_run_of_exec (cluster twoNodes)
    (fun _ _ => True)
    (fun c => (c.node "node1").commitIndex = 0 ∧ (c.node "node2").commitIndex = 0 ∧
      (c.node "node1").log.get 0 ≠ (c.node "node2").log.get 0)
    (commitUnreplicated ++ electionTimeout "node2" ++ exchange "node2" ["node1"] ++
      [.client "node2" ⟨"y", "2"⟩] ++ exchange "node2" ["node1"]) (by decide +kernel)
  refine ⟨h, c, run, fun hsafe => ?_⟩
  obtain ⟨e, hget, hget'⟩ := hsafe "node1" "node2" 0 (by omega) (by omega)
  exact hne (hget.trans hget'.symm)

end Rafting
