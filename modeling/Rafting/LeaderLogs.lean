import Rafting.ElectionSafety
import Rafting.OwnLog
import Rafting.AppendCalls
import Rafting.Library.LogHistory

/-! The logs of leaders over a run. A leader of a term is elected once, since its
vote request for the term is used up, and from then on it only extends its log:
the logs that it has had in the term extend each other. -/
namespace Rafting
open Transition LogHistory

/-- At some moment of the run, `a` led term `t` with the log `B`. -/
def Led (h : List (Move Cluster Action)) (c : Cluster) (a : NodeId) (t : Int)
    (B : List LogEntry) : Prop :=
  ∃ x ∈ moments h c, (x.node a).state = .leader ∧ (x.node a).currentTerm = t ∧
    (x.node a).log.inner = B

def LedIn (h : List (Move Cluster Action)) (c : Cluster) (t : Int) (B : List LogEntry) : Prop :=
  ∃ a, Led h c a t B

/-- The steps whose runs have matching logs: no quorum is counted for another term
than the node's own, and no request cuts the log of a node that goes on leading. -/
def KeepsTenure (c : Cluster) (act : Action) : Prop :=
  CountsOwnTerm c act ∧ KeepsLeaderLog c act

instance (c : Cluster) (act : Action) : Decidable (KeepsTenure c act) :=
  inferInstanceAs (Decidable (_ ∧ _))

section
variable {h : List (Move Cluster Action)} {c c' : Cluster} {act : Action} {a : NodeId} {t : Int}
  {B : List LogEntry}

theorem led_next : Led (⟨c, act, c'⟩ :: h) c' a t B ↔
    Led h c a t B ∨ (c'.node a).state = .leader ∧ (c'.node a).currentTerm = t ∧
      (c'.node a).log.inner = B := by
  constructor
  · rintro ⟨x, hx, hled⟩
    rcases mem_moments_next.mp hx with rfl | hx
    · exact Or.inr hled
    · exact Or.inl ⟨x, hx, hled⟩
  · rintro (⟨x, hx, hled⟩ | hled)
    · exact ⟨x, moments_mono hx, hled⟩
    · exact ⟨c', mem_moments_self _ c', hled⟩

theorem Led.next (hled : Led h c a t B) : Led (⟨c, act, c'⟩ :: h) c' a t B :=
  led_next.mpr (Or.inl hled)

theorem LedIn.next (hled : LedIn h c t B) : LedIn (⟨c, act, c'⟩ :: h) c' t B := by
  obtain ⟨a, hled⟩ := hled
  exact ⟨a, hled.next⟩

theorem led_self (hleader : (c.node a).state = .leader) :
    Led h c a (c.node a).currentTerm (c.node a).log.inner :=
  ⟨c, mem_moments_self h c, hleader, rfl, rfl⟩

theorem not_led_of_start {cfg : Config} : ¬Led [] (cluster cfg).init a t B := by
  rintro ⟨x, hx, hleader, _⟩
  exact Cluster.not_leader_of_start hx a hleader

theorem Led.term_le {cfg : Config} (hled : Led h c a t B) (run : Run (cluster cfg) h c) :
    t ≤ (c.node a).currentTerm := by
  obtain ⟨x, hx, _, rfl, _⟩ := hled
  exact currentTerm_le_of_mem_moments run hx a

end

structure Tenure (h : List (Move Cluster Action)) (c : Cluster) : Prop where
  spent : ∀ a t B, Led h c a t B →
    ∀ req, .peerVotesRequestEvent req ∈ c.pipeline a → t < req.term
  current : ∀ a, (c.node a).state = .leader → ∀ B, Led h c a (c.node a).currentTerm B →
    B <+: (c.node a).log.inner
  chain : ∀ a t B B', Led h c a t B → Led h c a t B' → B <+: B' ∨ B' <+: B

section Step
variable {cfg : Config} {h : List (Move Cluster Action)} {c c' : Cluster} {act : Action}

/-- A node that leads after a step either led the term before, with a log that the step
extends, or is elected by it for the first time in the term. -/
theorem Tenure.kept_or_first (inv : Tenure h c) (hcond : KeepsTenure c act)
    (hstep : c.step act = some c') {a : NodeId} (hleader : (c'.node a).state = .leader) :
    ((c.node a).state = .leader ∧ (c'.node a).currentTerm = (c.node a).currentTerm ∧
      (c.node a).log.inner <+: (c'.node a).log.inner) ∨
    (∀ B, ¬Led h c a (c'.node a).currentTerm B) := by
  obtain ⟨hterm, hrole | ⟨req, calls, hcounted, hquorum⟩⟩ := Cluster.leads_or_wins hstep hleader
  · exact Or.inl ⟨hrole, hterm, hcond.2.log_isPrefix hstep hrole hleader⟩
  · right
    intro B hled
    have hown := hcond.1 _ hcounted hquorum
    have hphase := (Cluster.counted_cases hcounted).2
    have hspent := inv.spent a _ B hled req (mem_pipeline_of_awaiting hphase)
    rw [hterm] at hspent
    dsimp only at hown
    omega

theorem Tenure.spent_of_step (inv : Tenure h c) (run : Run (cluster cfg) h c)
    (hstep : c.step act = some c') {a : NodeId} {t : Int} {B : List LogEntry}
    (hled : Led h c a t B) {req : RequestVoteRequest}
    (hmem : .peerVotesRequestEvent req ∈ c'.pipeline a) : t < req.term := by
  rcases ballot_move hstep hmem with hold | ⟨_, hnew, _, hreq⟩
  · exact inv.spent a t B hled req hold
  · have hterm : req.term = (c'.node a).currentTerm := congrArg RequestVoteRequest.term hreq
    have hle := hled.term_le run
    omega

theorem ballot_of_win (run : Run (cluster cfg) h c) (hstep : c.step act = some c') {a : NodeId}
    {req req' : RequestVoteRequest} {calls : List (NodeId × Call)}
    (hcounted : c.counted act = some (a, req, calls))
    (hquorum : (c.node a).quorumSize ≤
      ((PeerNetwork.voteResponses calls).filter fun r => r.voteGranted).length)
    (hmem : .peerVotesRequestEvent req' ∈ c'.pipeline a) : req.term < req'.term := by
  obtain ⟨hpipe, hpipe'⟩ := Cluster.pipeline_of_counted hstep hcounted
  have hordered := (ballots_of_run run).ordered a
  rw [hpipe', Cluster.node_of_counted hstep hcounted] at hmem
  rcases RaftNode.stepPeerVotesResponse_cases (c.node a) (PeerNetwork.voteResponses calls) with
    ⟨_, hnode⟩ | ⟨hless, _⟩
  · rw [hnode, RaftNode.becomeLeader_nodeToPeersTx] at hmem
    have hold : .peerVotesRequestEvent req' ∈ (c.node a).nodeToPeersTx := by simpa using hmem
    rw [hpipe] at hordered
    have hcons : ballotTerms (.peerVotesRequestEvent req :: (c.node a).nodeToPeersTx) =
        req.term :: ballotTerms (c.node a).nodeToPeersTx := rfl
    rw [hcons, List.pairwise_cons] at hordered
    exact hordered.1 _ (mem_ballotTerms.mpr ⟨req', hold, rfl⟩)
  · omega

theorem Tenure.step_spent (inv : Tenure h c) (run : Run (cluster cfg) h c)
    (hcond : KeepsTenure c act) (hstep : c.step act = some c') (a : NodeId) (t : Int)
    (B : List LogEntry) (hled : Led (⟨c, act, c'⟩ :: h) c' a t B) (req : RequestVoteRequest)
    (hmem : .peerVotesRequestEvent req ∈ c'.pipeline a) : t < req.term := by
  rcases led_next.mp hled with hold | ⟨hleader, hterm, _⟩
  · exact inv.spent_of_step run hstep hold hmem
  · obtain ⟨hsame, hrole | ⟨req', calls, hcounted, hquorum⟩⟩ :=
      Cluster.leads_or_wins hstep hleader
    · rw [← hterm, hsame]
      exact inv.spent_of_step run hstep (led_self hrole) hmem
    · have hown := hcond.1 _ hcounted hquorum
      have hless := ballot_of_win run hstep hcounted hquorum hmem
      dsimp only at hown
      omega

theorem Tenure.step_current (inv : Tenure h c) (hcond : KeepsTenure c act)
    (hstep : c.step act = some c') (a : NodeId) (hleader : (c'.node a).state = .leader)
    (B : List LogEntry) (hled : Led (⟨c, act, c'⟩ :: h) c' a (c'.node a).currentTerm B) :
    B <+: (c'.node a).log.inner := by
  rcases led_next.mp hled with hold | ⟨_, _, rfl⟩
  · rcases inv.kept_or_first hcond hstep hleader with ⟨hrole, hterm, hpre⟩ | hfirst
    · exact (inv.current a hrole B (hterm ▸ hold)).trans hpre
    · exact absurd hold (hfirst B)
  · exact List.prefix_refl _

theorem Tenure.step (inv : Tenure h c) (run : Run (cluster cfg) h c) (hcond : KeepsTenure c act)
    (hstep : c.step act = some c') : Tenure (⟨c, act, c'⟩ :: h) c' where
  spent := inv.step_spent run hcond hstep
  current := inv.step_current hcond hstep
  chain := by
    intro a t B B' hB hB'
    rcases led_next.mp hB with hold | ⟨hleader, rfl, rfl⟩
    · rcases led_next.mp hB' with hold' | ⟨hleader, rfl, rfl⟩
      · exact inv.chain a t B B' hold hold'
      · exact Or.inl (inv.step_current hcond hstep a hleader B hB)
    · exact Or.inr (inv.step_current hcond hstep a hleader B' hB')

end Step

theorem tenure_of_run {cfg : Config} {h : List (Move Cluster Action)} {c : Cluster}
    (run : Run (cluster cfg) h c) (hm : Meets KeepsTenure h) : Tenure h c := by
  apply run.invariant KeepsTenure Tenure ?_ ?_ hm
  · exact ⟨fun _ _ _ hled => absurd hled not_led_of_start,
      fun _ _ _ hled => absurd hled not_led_of_start,
      fun _ _ _ _ hled => absurd hled not_led_of_start⟩
  · intro h c c' act run _ inv hcond hstep
    exact inv.step run hcond hstep

/-- There is one leader in a term, so all the logs led in it extend each other. -/
theorem chain_of_run {cfg : Config} {h : List (Move Cluster Action)} {c : Cluster}
    (run : Run (cluster cfg) h c) (hm : Meets KeepsTenure h) : Chain (LedIn h c) := by
  rintro t B B' ⟨a, hled⟩ ⟨b, hled'⟩
  have hsame : a = b := by
    obtain ⟨x, hx, hleader, hterm, _⟩ := hled
    obtain ⟨y, hy, hleader', hterm', _⟩ := hled'
    exact leader_unique run (hm.imp fun _ _ hcond => hcond.1) hx hy hleader hleader'
      (hterm.trans hterm'.symm)
  subst hsame
  exact (tenure_of_run run hm).chain a t B B' hled hled'

theorem LedIn.isPrefix_of_leader {cfg : Config} {h : List (Move Cluster Action)} {c : Cluster}
    (run : Run (cluster cfg) h c) (hm : Meets KeepsTenure h) {a : NodeId} {B : List LogEntry}
    (hleader : (c.node a).state = .leader) (hled : LedIn h c (c.node a).currentTerm B) :
    B <+: (c.node a).log.inner := by
  obtain ⟨b, hled⟩ := hled
  have hsame : b = a := by
    obtain ⟨x, hx, hleader', hterm', _⟩ := hled
    exact leader_unique run (hm.imp fun _ _ hcond => hcond.1) hx (mem_moments_self h c)
      hleader' hleader hterm'
  subst hsame
  exact (tenure_of_run run hm).current b hleader B hled

end Rafting
