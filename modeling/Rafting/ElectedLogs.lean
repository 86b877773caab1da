import Rafting.AppendOrder

/-! The logs that leaders are elected with. A candidate's log does not change until it is
elected, and its vote request describes it; a leader adds entries of its own term only. -/
namespace Rafting
open Transition LogHistory

def RequestVoteRequest.Describes (req : RequestVoteRequest) (log : RaftLog) : Prop :=
  req.lastLogIndex = log.lastLogIndexAndTerm.1 ∧ req.lastLogTerm = log.lastLogIndexAndTerm.2

theorem RaftNode.voteRequest_describes (node : RaftNode) :
    node.voteRequest.Describes node.log :=
  ⟨rfl, rfl⟩

section Step
variable {cfg : Config} {h : List (Move Cluster Action)} {c c' : Cluster} {act : Action}

theorem leaderLog_move (run : Run (cluster cfg) h c) (hm : Meets KeepsTerms h)
    (hcond : KeepsTerms c act) (hstep : c.step act = some c') {a : NodeId}
    (hleader : (c'.node a).state = .leader) :
    ((c.node a).state = .leader ∧ (c'.node a).currentTerm = (c.node a).currentTerm ∧
      ((c'.node a).log = (c.node a).log ∨ ∃ entry, entry.term = (c.node a).currentTerm ∧
        (c'.node a).log = (c.node a).log.append entry)) ∨
    ∃ req calls, c.phase a = .awaiting (.peerVotesRequestEvent req) calls ∧
      (c.node a).quorumSize ≤
        ((PeerNetwork.voteResponses calls).filter fun r => r.voteGranted).length ∧
      req.term = (c.node a).currentTerm ∧
      (c'.node a).currentTerm = (c.node a).currentTerm ∧ (c'.node a).log = (c.node a).log := by
  cases Cluster.leader_move hstep hleader with
  | keep hrole hterm _ _ hlog => exact Or.inl ⟨hrole, hterm, Or.inl hlog⟩
  | client command _ hrole hterm _ _ hlog =>
    exact Or.inl ⟨hrole, hterm, Or.inr ⟨_, rfl, hlog⟩⟩
  | append req hhandled hrole hle hterm _ _ hlog =>
    refine Or.inl ⟨hrole, hterm, Or.inl ?_⟩
    rw [hlog, RaftNode.appendLog_getD, if_neg]
    exact hcond.2.not_appends run (hm.imp fun _ _ h => h.1) hstep hhandled hrole hle
  | record _ _ _ _ _ hrole _ _ _ hterm _ _ hlog => exact Or.inl ⟨hrole, hterm, Or.inl hlog⟩
  | reject _ _ _ _ _ _ hrole _ _ hterm _ _ _ hlog => exact Or.inl ⟨hrole, hterm, Or.inl hlog⟩
  | win req calls hact hphase hquorum hterm _ _ hlog =>
    have hown := hcond.1 _ (Cluster.counted_eq_some hact hphase) hquorum
    exact Or.inr ⟨req, calls, hphase, hquorum, hown.symm, hterm, hlog⟩

end Step

def GrownInTerm (h : List (Move Cluster Action)) (c : Cluster) : Prop :=
  ∀ a t B B', Led h c a t B → Led h c a t B' → ∀ e ∈ B'.drop B.length, e.term = t

theorem grownInTerm_of_run {cfg : Config} {h : List (Move Cluster Action)} {c : Cluster}
    (run : Run (cluster cfg) h c) (hm : Meets KeepsTerms h) : GrownInTerm h c := by
  apply run.invariant KeepsTerms GrownInTerm ?_ ?_ hm
  · intro a t B B' hled
    exact absurd hled not_led_of_start
  · intro h c c' act run hm inv hcond hstep a t B B' hled hled' e he
    have hm' := keepsTenure_of_keepsTerms run hm
    have htenure' : Tenure (⟨c, act, c'⟩ :: h) c' := tenure_of_run (run.next hstep)
      (keepsTenure_of_keepsTerms (run.next hstep) (meets_cons.mpr ⟨hcond, hm⟩))
    rcases led_next.mp hled with hold | ⟨hleader, hterm, rfl⟩
    rotate_left
    · -- the leader's log is the longest of the term
      have hlength := (htenure'.current a hleader B' (hterm ▸ hled')).length_le
      rw [List.drop_eq_nil_of_le hlength] at he
      cases he
    rcases led_next.mp hled' with hold' | ⟨hleader, hterm, rfl⟩
    · exact inv a t B B' hold hold' e he
    rcases leaderLog_move run hm hcond hstep hleader with
      ⟨hrole, hsame, hlog⟩ | ⟨req, calls, hphase, _, hown, hsame, _⟩
    · rw [hsame] at hterm
      subst hterm
      have hcurrent := led_self (h := h) hrole
      rcases hlog with hlog | ⟨entry, hentry, hlog⟩
      · exact inv a _ B _ hold hcurrent e (hlog ▸ he)
      · rw [hlog, RaftLog.append,
          List.drop_append_of_le_length ((tenure_of_run run hm').current a hrole B hold).length_le]
          at he
        rcases List.mem_append.mp he with he | he
        · exact inv a _ B _ hold hcurrent e he
        · rw [List.mem_singleton.mp he, hentry]
    · have hspent := (tenure_of_run run hm').spent a t B hold req (mem_pipeline_of_awaiting hphase)
      omega

/-- Unless the term has a leader already, the vote request of a node's own term describes
the log that the node has, and all its entries are older. -/
def Standing (h : List (Move Cluster Action)) (c : Cluster) : Prop :=
  ∀ a req, .peerVotesRequestEvent req ∈ c.pipeline a → req.term = (c.node a).currentTerm →
    (∃ B, LedIn h c req.term B) ∨
      req.Describes (c.node a).log ∧ ∀ e ∈ (c.node a).log.inner, e.term < req.term

theorem standing_of_run {cfg : Config} {h : List (Move Cluster Action)} {c : Cluster}
    (run : Run (cluster cfg) h c) (hm : Meets KeepsTerms h) : Standing h c := by
  apply run.invariant KeepsTerms Standing ?_ ?_ hm
  · intro a req hmem
    rw [Cluster.cluster_init, Cluster.pipeline_initial] at hmem
    cases hmem
  · intro h c c' act run hm inv hcond hstep a req hmem hown
    have hmono := Cluster.currentTerm_mono hstep a
    rcases ballot_move hstep hmem with hold | ⟨_, hterm, hlog, hreq⟩
    · have hle := (ballots_of_run run).term_le a req ((ballots_of_run run).requests a req hold).2
      have hbefore : req.term = (c.node a).currentTerm := by omega
      rcases inv a req hold hbefore with ⟨B, hled⟩ | ⟨hdescribes, holder⟩
      · exact Or.inl ⟨B, hled.next⟩
      cases Cluster.log_move hstep a with
      | keep hlog =>
        rw [hlog]
        exact Or.inr ⟨hdescribes, holder⟩
      | client command _ hrole _ _ _ =>
        have hled := led_self (h := h) hrole
        rw [← hbefore] at hled
        exact Or.inl ⟨_, a, hled.next⟩
      | append req' hhandled happends =>
        -- the request that changes the log comes from a leader of the term
        have hadopted := (hcond.2.currentTerm hstep hhandled (Or.inl happends)).1
        obtain ⟨_, b, x, hx, hissues⟩ := issued_of_handled run hstep hhandled
        have hled := hissues.led hx
        rw [← hadopted, ← hown] at hled
        exact Or.inl ⟨_, b, hled.next⟩
    · refine Or.inr ⟨hreq ▸ RaftNode.voteRequest_describes _, ?_⟩
      intro e he
      rw [hlog] at he
      have hbound := ((aged_of_run run hm c (mem_moments_self h c) a).bounds e he).2
      omega

/-- Every log led in a term goes on from the log that the term's elected request describes,
of which all entries are older. -/
def ElectedLogs (cfg : Config) (h : List (Move Cluster Action)) (c : Cluster) : Prop :=
  ∀ a t B, Led h c a t B → ∃ req log, Elected cfg h req ∧ req.term = t ∧
    req.Describes log ∧ (∀ e ∈ log.inner, e.term < t) ∧ log.inner <+: B

theorem electedLogs_of_run {cfg : Config} {h : List (Move Cluster Action)} {c : Cluster}
    (run : Run (cluster cfg) h c) (hm : Meets KeepsTerms h) : ElectedLogs cfg h c := by
  apply run.invariant KeepsTerms (ElectedLogs cfg) ?_ ?_ hm
  · intro a t B hled
    exact absurd hled not_led_of_start
  · intro h c c' act run hm inv hcond hstep a t B hled
    have hnext : ∀ {B₀}, Led h c a t B₀ → B₀ <+: B → ∃ req log,
        Elected cfg (⟨c, act, c'⟩ :: h) req ∧ req.term = t ∧ req.Describes log ∧
          (∀ e ∈ log.inner, e.term < t) ∧ log.inner <+: B := by
      intro B₀ hled₀ hpre₀
      obtain ⟨req, log, helected, hterm, hdescribes, holder, hpre⟩ := inv a t B₀ hled₀
      exact ⟨req, log, helected.next _, hterm, hdescribes, holder, hpre.trans hpre₀⟩
    rcases led_next.mp hled with hold | ⟨hleader, rfl, rfl⟩
    · exact hnext hold (List.prefix_refl _)
    rcases leaderLog_move run hm hcond hstep hleader with
      ⟨hrole, hsame, hlog⟩ | ⟨req, calls, hphase, hquorum, hown, hsame, hlog⟩
    · apply hnext (hsame ▸ led_self hrole)
      rcases hlog with hlog | ⟨entry, _, hlog⟩
      · rw [hlog]
      · rw [hlog]
        exact List.prefix_append _ _
    · have hmem := mem_pipeline_of_awaiting hphase
      rcases standing_of_run run hm a req hmem hown with ⟨B₀, b, hled₀⟩ | ⟨hdescribes, holder⟩
      · -- the term has no leader yet, whose log the node could have
        exfalso
        have hcount : Meets CountsOwnTerm (⟨c, act, c'⟩ :: h) :=
          meets_cons.mpr ⟨hcond.1, hm.imp fun _ _ h => h.1⟩
        have hspent := (tenure_of_run run (keepsTenure_of_keepsTerms run hm)).spent b req.term B₀
          hled₀ req
        obtain ⟨x, hx, hleader₀, hterm₀, _⟩ := hled₀
        have hsame₀ : b = a := leader_unique (run.next hstep) hcount (moments_mono hx)
          (mem_moments_self _ _) hleader₀ hleader (by omega)
        exact absurd (hspent (hsame₀ ▸ hmem)) (Int.lt_irrefl _)
      · refine ⟨req, (c.node a).log,
          (elected_of_quorum (members_of_run run) (ballots_of_run run) hphase hquorum).next _,
          by omega, hdescribes, ?_, by rw [hlog]⟩
        intro e he
        have hlt := holder e he
        omega

end Rafting
