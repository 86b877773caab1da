import Rafting.LogMatching

/-! The match indices of a leader. A reply says where the peer's log ends, whatever the
request carried, and the leader records that as matched. -/
namespace Rafting
open Transition

/-- At an earlier moment `p` answered a request that `l` sent in its current term, and had
the entries of `l`'s current log up to `m`. -/
def Replicated (h : List (Move Cluster Action)) (c : Cluster) (l p : NodeId) (m : Int) : Prop :=
  ∃ move ∈ h, ∃ req response, AnsweredBy move l p req response ∧ Issued h c l req ∧
    req.term = (c.node l).currentTerm ∧ m < (move.after.node p).log.len ∧
    ∀ j : Nat, j ≤ m → (move.after.node p).log.get j = (c.node l).log.get j

def MatchSound (h : List (Move Cluster Action)) (c : Cluster) : Prop :=
  ∀ l, (c.node l).state = .leader → ∀ p ∈ (c.node l).peers, ∀ m,
    (c.node l).matchIndex p = some m → 0 ≤ m → Replicated h c l p m

def Cluster.answering (c : Cluster) : Action → Option (NodeId × NodeId × AppendEntriesRequest)
  | .deliver a p =>
    match c.phase a with
    | .awaiting (.appendEntriesRequestEvent req) _ => some (a, p, req)
    | _ => none
  | _ => none

/-- A quorum of votes is counted only by a node without records of an earlier leadership. -/
def FreshMatches (c : Cluster) (act : Action) : Prop :=
  ∀ round ∈ c.counted act, (c.node round.1).quorumSize ≤
      ((PeerNetwork.voteResponses round.2.2).filter fun r => r.voteGranted).length →
    ∀ p ∈ (c.node round.1).peers, ∀ m ∈ (c.node round.1).matchIndex p, m < 0

/-- A peer confirms a leader's request only with a log that the leader's log extends. -/
def ComparesLog (c : Cluster) (act : Action) : Prop :=
  ∀ x ∈ c.answering act, (c.node x.1).state = .leader →
    (c.node x.1).currentTerm = x.2.2.term → RaftNode.Confirms (c.node x.2.1).log x.2.2 →
    (c.node x.2.1).log.inner <+: (c.node x.1).log.inner

/-- A node confirms only requests that name the last entry of its log. -/
def ChecksLast (c : Cluster) (act : Action) : Prop :=
  ∀ x ∈ c.handledAppend act, RaftNode.Confirms (c.node x.1).log x.2 →
    RaftNode.NamesLast (c.node x.1).log x.2

structure KeepsMatches (c : Cluster) (act : Action) : Prop where
  tenure : KeepsTenure c act
  fresh : FreshMatches c act
  compared : ComparesLog c act

instance (c : Cluster) (act : Action) : Decidable (FreshMatches c act) :=
  inferInstanceAs (Decidable (∀ round ∈ c.counted act, _ → ∀ p ∈ _, ∀ m ∈ _, _))

instance (c : Cluster) (act : Action) : Decidable (ComparesLog c act) :=
  inferInstanceAs (Decidable (∀ x ∈ c.answering act, _ → _ → _ → _))

instance (c : Cluster) (act : Action) : Decidable (ChecksLast c act) :=
  inferInstanceAs (Decidable (∀ x ∈ c.handledAppend act, _ → _))

instance (c : Cluster) (act : Action) : Decidable (KeepsMatches c act) :=
  decidable_of_iff (KeepsTenure c act ∧ FreshMatches c act ∧ ComparesLog c act)
    ⟨fun h => ⟨h.1, h.2.1, h.2.2⟩, fun h => ⟨h.tenure, h.fresh, h.compared⟩⟩

theorem Cluster.handled_of_answering {c : Cluster} {act : Action} {a p : NodeId}
    {req : AppendEntriesRequest} (h : c.answering act = some (a, p, req)) :
    c.handled act = some (p, .appendEntriesRequestEvent req) := by
  cases act with
  | deliver a' p' =>
    simp only [Cluster.answering] at h
    split at h
    · rename_i hphase
      cases h
      simp [Cluster.handled, hphase]
    · cases h
  | _ => cases h

theorem AnsweredBy.answering {m : Move Cluster Action} {a p : NodeId} {req : AppendEntriesRequest}
    {response : AppendEntriesResponse} (h : AnsweredBy m a p req response) :
    m.before.answering m.action = some (a, p, req) := by
  rw [h.action]
  simp [Cluster.answering, h.awaited]

/-- `p` reported `m` to `l` in `l`'s current term, as the last position of a log that `l`'s
log extends. -/
def Acknowledged (h : List (Move Cluster Action)) (c : Cluster) (l p : NodeId) (m : Int) : Prop :=
  ∃ move ∈ h, ∃ req response, AnsweredBy move l p req response ∧ Issued h c l req ∧
    req.term = (c.node l).currentTerm ∧ response.success = true ∧
    (move.after.node p).log.lastLogIndex = m ∧
    (move.after.node p).log.inner <+: (c.node l).log.inner

theorem Acknowledged.replicated {h : List (Move Cluster Action)} {c : Cluster} {l p : NodeId}
    {m : Int} (hack : Acknowledged h c l p m) : Replicated h c l p m := by
  obtain ⟨move, hmove, req, response, hanswered, hissued, hterm, _, hlast, hpre⟩ := hack
  simp only [RaftLog.lastLogIndex] at hlast
  refine ⟨move, hmove, req, response, hanswered, hissued, hterm, by omega, ?_⟩
  intro j hj
  obtain ⟨rest, hrest⟩ := hpre
  simp only [RaftLog.len] at hlast
  rw [RaftLog.get, RaftLog.get, ← hrest, List.getElem?_append_left (by omega)]

section Step
variable {cfg : Config} {h : List (Move Cluster Action)} {c c' : Cluster} {act : Action}

theorem Acknowledged.next {l p : NodeId} {m : Int} (hack : Acknowledged h c l p m)
    (hterm : (c'.node l).currentTerm = (c.node l).currentTerm)
    (hlog : (c.node l).log.inner <+: (c'.node l).log.inner) :
    Acknowledged (⟨c, act, c'⟩ :: h) c' l p m := by
  obtain ⟨move, hmove, req, response, hanswered, hissued, hown, hsuccess, hlast, hpre⟩ := hack
  exact ⟨move, List.mem_cons_of_mem _ hmove, req, response, hanswered, hissued.next,
    hown.trans hterm.symm, hsuccess, hlast, hpre.trans hlog⟩

/-- With log matching, the peer's check of the request does for the comparison of the logs. -/
theorem comparesLog_of_checksLast (run : Run (cluster cfg) h c) (hm : Meets KeepsTenure h)
    (hstep : c.step act = some c') (hchecks : ChecksLast c act) : ComparesLog c act := by
  intro x hx hleader hown hconfirms
  have hhandled := Cluster.handled_of_answering hx
  have hnames := hchecks _ (Cluster.handledAppend_eq_some.mpr hhandled) hconfirms
  obtain ⟨a, y, hy, hissues, hpre⟩ := isPrefix_of_namesLast run hm hstep hhandled hnames
  exact hpre.trans (LedIn.isPrefix_of_leader run hm hleader ⟨a, hown ▸ hissues.led hy⟩)

theorem isPrefix_of_answered (run : Run (cluster cfg) h c) (hm : Meets KeepsMatches h)
    {m : Move Cluster Action} (hmem : m ∈ h) {a p : NodeId} {req : AppendEntriesRequest}
    {response : AppendEntriesResponse} (hanswered : AnsweredBy m a p req response)
    (hleader : (m.before.node a).state = .leader)
    (hown : (m.before.node a).currentTerm = req.term)
    (hsuccess : RaftNode.appendLog (m.before.node p).log req ≠ none) :
    (m.after.node p).log.inner <+: (m.before.node a).log.inner := by
  obtain ⟨hstep, _, _, h', run', hsub⟩ := run.of_mem hmem
  have hm' : Meets KeepsTenure h' := (hm.of_subset hsub).imp fun _ _ hcond => hcond.tenure
  rcases RaftNode.appends_or_confirms _ _ hsuccess with happends | hconfirms
  · obtain ⟨b, x, hx, hissues, _, hlog⟩ :=
      log_of_append run' hm' (logged_of_run run' hm') hstep hanswered.handled happends
    rw [hlog]
    exact LedIn.isPrefix_of_leader run' hm' hleader ⟨b, hown ▸ hissues.led hx⟩
  · rw [Cluster.log_of_confirm hstep hanswered.handled hconfirms]
    exact (hm m hmem).compared _ hanswered.answering hleader hown hconfirms

theorem acknowledged_of_reply (run : Run (cluster cfg) h c) (hm : Meets KeepsMatches h)
    {l p : NodeId} {req : AppendEntriesRequest} {response : AppendEntriesResponse}
    (hphase : c.phase l = .awaiting (.appendEntriesRequestEvent req)
      [(p, .answered (.appendEntriesResponseEvent response))])
    (hleader : (c.node l).state = .leader) (hown : (c.node l).currentTerm = response.term)
    (hsuccess : response.success = true) :
    Acknowledged h c l response.fromNode response.lastAppliedIndex := by
  obtain ⟨hfrom, m, hmem, hanswered, hsame, hreports⟩ := reply_of_run run hphase
  obtain ⟨hterm, hlog, hlast⟩ := hreports.of_success hsuccess
  have hissued := (issued_of_awaiting run hphase).1
  have hpre := isPrefix_of_answered run hm hmem hanswered (hsame ▸ hleader)
    (by rw [hsame, hown, hterm]) (by simp [hlog])
  rw [hfrom]
  exact ⟨m, hmem, req, response, hanswered, hissued, by rw [hown, hterm], hsuccess, hlast.symm,
    hsame ▸ hpre⟩

end Step

def MatchAcknowledged (h : List (Move Cluster Action)) (c : Cluster) : Prop :=
  ∀ l, (c.node l).state = .leader → ∀ p ∈ (c.node l).peers, ∀ m,
    (c.node l).matchIndex p = some m → 0 ≤ m → Acknowledged h c l p m

theorem matchAcknowledged_of_run {cfg : Config} {h : List (Move Cluster Action)} {c : Cluster}
    (run : Run (cluster cfg) h c) (hm : Meets KeepsMatches h) : MatchAcknowledged h c := by
  apply run.invariant KeepsMatches MatchAcknowledged ?_ ?_ hm
  · intro l hleader
    exact absurd hleader (Cluster.not_leader_of_start (mem_moments_self _ _) l)
  · intro h c c' act run hm inv hcond hstep l hleader p hp m hrecord hpos
    rw [(Cluster.node_identity hstep l).2] at hp
    have hkept : (c.node l).state = .leader → (c'.node l).currentTerm = (c.node l).currentTerm →
        (c.node l).matchIndex p = some m → Acknowledged (⟨c, act, c'⟩ :: h) c' l p m :=
      fun hrole hterm hold => (inv l hrole p hp m hold hpos).next hterm
        (hcond.tenure.2.log_isPrefix hstep hrole hleader)
    cases Cluster.leader_move hstep hleader with
    | keep hrole hterm _ hmatch _ => exact hkept hrole hterm (hmatch ▸ hrecord)
    | client _ _ hrole hterm _ hmatch _ => exact hkept hrole hterm (hmatch ▸ hrecord)
    | append _ _ hrole _ hterm _ hmatch _ => exact hkept hrole hterm (hmatch ▸ hrecord)
    | record req peer response _ hphase hrole hown hsuccess _ hterm _ hmatch hlog =>
      rw [hmatch] at hrecord
      by_cases hfrom : p = response.fromNode
      · rw [hfrom, Function.update_self] at hrecord
        cases hrecord
        rw [hfrom]
        exact (acknowledged_of_reply run hm hphase hrole hown hsuccess).next hterm
          (hlog ▸ List.prefix_refl _)
      · rw [Function.update_of_ne hfrom] at hrecord
        exact hkept hrole hterm hrecord
    | reject _ _ _ _ _ _ hrole _ _ hterm _ _ hmatch _ => exact hkept hrole hterm (hmatch ▸ hrecord)
    | win req calls hact hphase hquorum _ _ hmatch _ =>
      have hfresh := hcond.fresh _ (Cluster.counted_eq_some hact hphase) hquorum p hp m
        (hmatch ▸ hrecord)
      omega

theorem matchSound_of_keepsMatches {cfg : Config} {h : List (Move Cluster Action)} {c : Cluster}
    (run : Run (cluster cfg) h c) (hm : Meets KeepsMatches h) : MatchSound h c :=
  fun l hleader p hp m hrecord hpos =>
    (matchAcknowledged_of_run run hm l hleader p hp m hrecord hpos).replicated

theorem matchSound_of_keepsMatches_replicated :
    ∃ h c, Run (cluster twoNodes) h c ∧ (c.node "node1").state = .leader ∧
      (c.node "node1").matchIndex "node2" = some 0 ∧ MatchSound h c := by
  obtain ⟨h, c, run, hm, hleader, hrecord⟩ := exists_run_of_exec (cluster twoNodes) KeepsMatches
    (fun c => (c.node "node1").state = .leader ∧ (c.node "node1").matchIndex "node2" = some 0)
    (twoNodes.allUp ++ electionTimeout "node1" ++ exchange "node1" ["node2"] ++
      exchange "node1" ["node2"] ++ [.client "node1" ⟨"x", "1"⟩] ++ heartbeatTimeout "node1" ++
      exchange "node1" ["node2"]) (by decide +kernel)
  exact ⟨h, c, run, hleader, hrecord, matchSound_of_keepsMatches run hm⟩

/-- The reply to `node2`'s first request reports an entry that `node2` does not have. -/
theorem not_matchSound : ∃ h c, Run (cluster twoNodes) h c ∧ ¬MatchSound h c := by
  obtain ⟨h, c, run, _, hleader, hpeer, hrecord, hempty⟩ := exists_run_of_exec (cluster twoNodes)
    (fun _ _ => True)
    (fun c => (c.node "node2").state = .leader ∧ "node1" ∈ (c.node "node2").peers ∧
      (c.node "node2").matchIndex "node1" = some 0 ∧ (c.node "node2").log.get 0 = none)
    (electedBehind ++ exchange "node2" ["node1"]) (by decide +kernel)
  refine ⟨h, c, run, fun hsound => ?_⟩
  obtain ⟨move, _, _, _, _, _, _, hlen, hagree⟩ :=
    hsound "node2" hleader "node1" hpeer 0 hrecord (Int.le_refl 0)
  have hget := hagree 0 (Int.le_refl 0)
  rw [hempty, RaftLog.get, List.getElem?_eq_none_iff] at hget
  simp only [RaftLog.len] at hlen
  omega

end Rafting
