import Rafting.ElectedLogs

/-! The logs of voters. A node that has had a prefix in the term of its last entry keeps it
until a leader without the prefix replaces its log, and a vote for a candidate that is up
to date hands the prefix on to the candidate. -/
namespace Rafting
open Transition LogHistory

/-- The last entry that the request describes is no older than that of the log. -/
def RequestVoteRequest.UpToDate (req : RequestVoteRequest) (log : RaftLog) : Prop :=
  log.lastLogIndexAndTerm.2 < req.lastLogTerm ∨
    log.lastLogIndexAndTerm.2 = req.lastLogTerm ∧ log.lastLogIndexAndTerm.1 ≤ req.lastLogIndex

def VotesUpToDate (c : Cluster) (act : Action) : Prop :=
  ∀ x ∈ c.handledVote act, (c.node x.1).currentTerm < x.2.term → x.2.UpToDate (c.node x.1).log

def KeepsVotes (c : Cluster) (act : Action) : Prop :=
  KeepsTerms c act ∧ VotesUpToDate c act

instance (req : RequestVoteRequest) (log : RaftLog) : Decidable (req.UpToDate log) :=
  inferInstanceAs (Decidable (_ ∨ _))

instance (c : Cluster) (act : Action) : Decidable (VotesUpToDate c act) :=
  inferInstanceAs (Decidable (∀ x ∈ c.handledVote act, _ → _))

instance (c : Cluster) (act : Action) : Decidable (KeepsVotes c act) :=
  inferInstanceAs (Decidable (_ ∧ _))

theorem asUpToDate_of_describes {req : RequestVoteRequest} {log log' : RaftLog}
    (hdescribes : req.Describes log) (hup : req.UpToDate log') (hindexed : Indexed log.inner)
    (hindexed' : Indexed log'.inner) (hterms : ∀ e ∈ log'.inner, 0 ≤ e.term) :
    AsUpToDate LogEntry.term log.inner log'.inner := by
  intro e' he'
  obtain ⟨hindex, hterm⟩ := hdescribes
  have hmem := List.mem_of_getLast? he'
  rw [List.getLast?_eq_getElem?] at he'
  rcases log'.lastLogIndexAndTerm_cases with ⟨hempty, _⟩ | ⟨_, last', hget', hlast'⟩
  · rw [hempty] at hmem
    cases hmem
  rw [RaftLog.len, he', Option.some.injEq] at hget'
  subst hget'
  have hindex' := hindexed' _ _ he'
  have hpos := hterms e' hmem
  simp only [RequestVoteRequest.UpToDate, hlast'] at hup
  rcases log.lastLogIndexAndTerm_cases with ⟨_, hlast⟩ | ⟨hne, last, hget, hlast⟩
  · simp only [hlast] at hterm
    omega
  · simp only [hlast] at hterm hindex
    rw [RaftLog.len] at hget
    have hlength : 0 < log.inner.length := List.length_pos_iff.mpr hne
    have hposition := hindexed _ _ hget
    rw [← List.getLast?_eq_getElem?] at hget
    refine ⟨last, hget, ?_⟩
    omega

theorem upToDate_of_votes {c : Cluster} {act : Action} {v : NodeId} {req : RequestVoteRequest}
    (hup : VotesUpToDate c act) (hvotes : c.Votes act v req) :
    req.UpToDate (c.node v).log := by
  cases hvotes with
  | grant hhandled hnewer => exact hup _ (Cluster.handledVote_eq_some.mpr hhandled) hnewer
  | stand _ node htick hnewer hreq =>
    have hlog : node.log = (c.node v).log := by
      rcases RaftNode.tick_cases htick with ⟨_, heq⟩ | ⟨_, _, _, heq⟩ | ⟨_, _, hcandidate⟩
      · rw [heq]
      · rw [heq]
      · exact (RaftNode.becomeCandidate_ok hcandidate).2.2.2.1
    obtain ⟨hindex, hterm⟩ := node.voteRequest_describes
    rw [← hreq, hlog] at hindex hterm
    exact Or.inr ⟨hterm.symm, hindex.symm.le⟩

def Held (h : List (Move Cluster Action)) (c : Cluster) (v : NodeId) (t : Int)
    (P : List LogEntry) : Prop :=
  ∃ y ∈ moments h c, (y.node v).currentTerm = t ∧ P <+: (y.node v).log.inner

theorem held_next {h : List (Move Cluster Action)} {c c' : Cluster} {act : Action} {v : NodeId}
    {t : Int} {P : List LogEntry} : Held (⟨c, act, c'⟩ :: h) c' v t P ↔
      Held h c v t P ∨ (c'.node v).currentTerm = t ∧ P <+: (c'.node v).log.inner := by
  constructor
  · rintro ⟨y, hy, hheld⟩
    rcases mem_moments_next.mp hy with rfl | hy
    · exact Or.inr hheld
    · exact Or.inl ⟨y, hy, hheld⟩
  · rintro (⟨y, hy, hheld⟩ | hheld)
    · exact ⟨y, moments_mono hy, hheld⟩
    · exact ⟨c', mem_moments_self _ c', hheld⟩

/-! In what follows `led` stands for the leaders' logs of the whole run, of which the run
up to `c` is the first part. -/

section Prefix
variable {cfg : Config} {led : Int → List LogEntry → Prop} (hchain : Chain led)
  {P : List LogEntry} {x : LogEntry} (hlast : x ∈ P.getLast?)
  (hP : ∃ B, led x.term B ∧ P <+: B)
include hchain hlast hP

theorem isPrefix_of_append {h : List (Move Cluster Action)} {c c' : Cluster} {act : Action}
    (run : Run (cluster cfg) h c) (hm : Meets KeepsTerms h) (hcond : KeepsTerms c act)
    (hstep : c.step act = some c') (hled : ∀ s B, LedIn h c s B → led s B) {v : NodeId}
    {req : AppendEntriesRequest}
    (hhandled : c.handled act = some (v, .appendEntriesRequestEvent req))
    (happends : RaftNode.Appends (c.node v).log req) (hpre : P <+: (c.node v).log.inner)
    (hle : x.term ≤ req.term) (hlater : x.term < req.term → ∀ B, led req.term B → P <+: B) :
    P <+: (c'.node v).log.inner := by
  have hm' := keepsTenure_of_keepsTerms run hm
  obtain ⟨b, y, hy, hissues, _, hlog⟩ :=
    log_of_append run hm' (logged_of_run run hm') hstep hhandled happends
  have hB : led req.term (c'.node v).log.inner := by
    rw [hlog]
    exact hled _ _ ⟨b, hissues.led hy⟩
  rcases Int.lt_or_eq_of_le hle with hlt | heq
  · exact hlater hlt _ hB
  · -- the two logs of the term extend each other, and the new one reaches the last entry
    obtain ⟨B, hPB, hpreB⟩ := hP
    have hlength : P.length ≤ (c'.node v).log.inner.length := by
      have hget : (c.node v).log.get (P.length - 1) = some x := by
        obtain ⟨rest, hrest⟩ := hpre
        have hne : P ≠ [] := List.ne_nil_of_mem (List.mem_of_getLast? hlast)
        have hpos : 0 < P.length := List.length_pos_iff.mpr hne
        rw [RaftLog.get, ← hrest, List.getElem?_append_left (by omega),
          ← List.getLast?_eq_getElem?]
        exact hlast
      have hlt := lt_len_of_append run hm hcond hstep hhandled happends hget heq
      simp only [RaftLog.len] at hlt
      omega
    rcases hchain _ B _ hPB (heq ▸ hB) with hsub | hsub
    · exact hpreB.trans hsub
    · exact List.prefix_of_prefix_length_le hpreB hsub hlength

/-- A node keeps a prefix that it has had in the term of its last entry, if the leaders
of the later terms up to its own have the prefix. -/
theorem Held.retained {h : List (Move Cluster Action)} {c : Cluster}
    (run : Run (cluster cfg) h c) (hm : Meets KeepsTerms h)
    (hled : ∀ s B, LedIn h c s B → led s B) {v : NodeId} (hheld : Held h c v x.term P)
    (hlater : ∀ s B, x.term < s → s ≤ (c.node v).currentTerm → led s B → P <+: B) :
    P <+: (c.node v).log.inner := by
  induction run with
  | start =>
    obtain ⟨y, hy, _, hpre⟩ := hheld
    exact eq_of_mem_moments_nil hy ▸ hpre
  | @next h c c' act run hstep ih =>
    obtain ⟨hcond, hm⟩ := meets_cons.mp hm
    rcases held_next.mp hheld with hold | ⟨_, hpre⟩
    rotate_left
    · exact hpre
    have hmono := Cluster.currentTerm_mono hstep v
    have hledBefore : ∀ s B, LedIn h c s B → led s B := fun s B hB => hled s B hB.next
    have hpre := ih hm hledBefore hold fun s B hs hle => hlater s B hs (hle.trans hmono)
    cases Cluster.log_move hstep v with
    | keep hlog => exact hlog ▸ hpre
    | client _ _ _ _ _ hlog =>
      rw [hlog]
      exact hpre.trans (List.prefix_append _ _)
    | append req hhandled happends =>
      obtain ⟨hadopted, hle⟩ := hcond.2.currentTerm hstep hhandled (Or.inl happends)
      obtain ⟨y, hy, hterm, _⟩ := hold
      have hpast := currentTerm_le_of_mem_moments run hy v
      apply isPrefix_of_append hchain hlast hP run hm hcond hstep hledBefore hhandled happends
        hpre (by omega)
      intro hlt B hB
      exact hlater _ B hlt (by omega) hB

theorem Voted.held {h : List (Move Cluster Action)} {c : Cluster}
    (run : Run (cluster cfg) h c) (hm : Meets KeepsVotes h)
    (hled : ∀ s B, LedIn h c s B → led s B) {v : NodeId} {req : RequestVoteRequest}
    (hvoted : Voted h v req) (hheld : Held h c v x.term P) (hlt : x.term < req.term)
    (hlater : ∀ s B, x.term < s → s < req.term → led s B → P <+: B) :
    ∃ y ∈ moments h c, P <+: (y.node v).log.inner ∧ req.UpToDate (y.node v).log := by
  induction run with
  | start =>
    obtain ⟨m, hmem, _⟩ := hvoted
    cases hmem
  | @next h c c' act run hstep ih =>
    obtain ⟨hcond, hm⟩ := meets_cons.mp hm
    have hledBefore : ∀ s B, LedIn h c s B → led s B := fun s B hB => hled s B hB.next
    rcases held_next.mp hheld with hold | ⟨hnow, _⟩
    · rcases voted_cons.mp hvoted with hvotes | hvoted
      · obtain ⟨_, hnewer, _⟩ := hvotes.term hstep
        refine ⟨c, moments_mono (mem_moments_self h c), ?_, upToDate_of_votes hcond.2 hvotes⟩
        apply hold.retained hchain hlast hP run (hm.imp fun _ _ h => h.1) hledBefore
        intro s B hs hle
        exact hlater s B hs (by omega)
      · obtain ⟨y, hy, hpre, hup⟩ := ih hm hledBefore hvoted hold
        exact ⟨y, moments_mono hy, hpre, hup⟩
    · -- the vote is not older than the term in which the node has the prefix now
      have hge : req.term ≤ (c'.node v).currentTerm :=
        (ballots_of_run (run.next hstep)).term_le v req hvoted
      omega

end Prefix

end Rafting
