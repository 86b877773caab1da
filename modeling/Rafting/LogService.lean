import Rafting.CommitSafety
import Rafting.SingleLeader
import Rafting.Library.Refinement
import Rafting.Library.ReplicatedLog

/-! The cluster as one replicated log. What leaders accept from clients is proposed, what
nodes commit is decided, and every node's committed entries are a view of the decided log. -/
namespace Rafting
open Transition Relation

def Cluster.mover (c : Cluster) : Action → Option NodeId
  | .clusterUp a | .tick a | .client a _ | .send a | .resume a => some a
  | .deliver _ p => some p
  | .deliverOrphan k => c.orphans[k]?.map Orphan.peer
  | .fail _ _ _ => none

def accepted (m : Move Cluster Action) : Option LogEntry :=
  match m.action with
  | .client a command =>
    if (m.before.node a).state = .leader then some ((m.before.node a).clientEntry command)
    else none
  | _ => none

def acceptedEntries (h : List (Move Cluster Action)) : List LogEntry :=
  (h.filterMap accepted).reverse

/-- The accepted entries are the proposed ones, and every node's committed entries are its
view of the log. -/
structure Implements (h : List (Move Cluster Action)) (c : Cluster)
    (log : ReplicatedLog NodeId LogEntry) : Prop where
  proposed : log.proposed = acceptedEntries h
  view : ∀ a, log.view a = (c.node a).committed

theorem Cluster.mover_of_handled {c : Cluster} {act : Action} {v : NodeId} {event : RaftEvent}
    (h : c.handled act = some (v, event)) : c.mover act = some v := by
  cases act with
  | deliver a p =>
    simp only [handled] at h
    split at h
    · cases h
      rfl
    · cases h
  | deliverOrphan k =>
    obtain ⟨orphan, horphan, heq⟩ := Option.map_eq_some_iff.mp h
    cases heq
    rw [mover, horphan]
    rfl
  | _ => cases h

theorem Cluster.node_of_ne_mover {c c' : Cluster} {act : Action} (h : c.step act = some c')
    {v : NodeId} (hv : c.mover act ≠ some v) : c'.node v = c.node v := by
  cases node_move h v with
  | idle heq => exact heq
  | clusterUp hact _ => exact absurd (hact ▸ rfl) hv
  | tick hact _ _ => exact absurd (hact ▸ rfl) hv
  | client _ hact _ _ _ => exact absurd (hact ▸ rfl) hv
  | send _ _ hact _ _ _ => exact absurd (hact ▸ rfl) hv
  | vote _ hhandled _ _ => exact absurd (mover_of_handled hhandled) hv
  | append _ hhandled _ _ => exact absurd (mover_of_handled hhandled) hv
  | votes _ _ hact _ _ => exact absurd (hact ▸ rfl) hv
  | reply _ _ _ hact _ _ => exact absurd (hact ▸ rfl) hv

theorem acceptedEntries_cons (m : Move Cluster Action) (h : List (Move Cluster Action)) :
    acceptedEntries (m :: h) = acceptedEntries h ++ (accepted m).toList := by
  rw [acceptedEntries, List.filterMap_cons]
  cases accepted m <;> simp [acceptedEntries]

theorem Created.mem_acceptedEntries {h : List (Move Cluster Action)} {e : LogEntry}
    (hcreated : Created h e) : e ∈ acceptedEntries h := by
  obtain ⟨m, hm, v, command, hact, hleader, _, hentry, _⟩ := hcreated
  apply List.mem_reverse.mpr
  refine List.mem_filterMap.mpr ⟨m, hm, ?_⟩
  simp only [accepted, hact]
  rw [if_pos hleader, hentry]

section Run
variable {cfg : Config} {h : List (Move Cluster Action)} {c : Cluster}

/-- Of what one node has committed at one moment and another at another, one extends the
other; and every node keeps what it has committed. -/
structure Coherent (h : List (Move Cluster Action)) (c : Cluster) : Prop where
  comparable : ∀ x ∈ moments h c, ∀ y ∈ moments h c, ∀ a b,
    (x.node a).committed <+: (y.node b).committed ∨
      (y.node b).committed <+: (x.node a).committed
  kept : ∀ x ∈ moments h c, ∀ a, (x.node a).committed <+: (c.node a).committed

theorem coherent_of_keepsCommits (run : Run (cluster cfg) h c) (hm : Meets KeepsCommits h) :
    Coherent h c := by
  have hsafe := commitsSafe_of_run run hm
  refine ⟨fun x hx y hy a b => ?_, fun x hx a => committed_of_mem_moments run hsafe.kept hx a⟩
  rcases hsafe.certified x hx a with hnil | ⟨P, e, hP, _, hpre⟩
  · exact Or.inl (hnil ▸ List.nil_prefix)
  rcases hsafe.certified y hy b with hnil | ⟨P', e', hP', _, hpre'⟩
  · exact Or.inr (hnil ▸ List.nil_prefix)
  rcases hP.comparable run (hm.imp fun _ _ hcond => hcond.votes) hP' with hsub | hsub
  · exact List.prefix_or_prefix_of_prefix (hpre.trans hsub) hpre'
  · exact List.prefix_or_prefix_of_prefix hpre (hpre'.trans hsub)

theorem SoleLeader.grows (run : Run (cluster cfg) h c) {a : NodeId} (hsole : SoleLeader h c a)
    {x : Cluster} (hx : x ∈ moments h c) (b : NodeId) :
    (x.node b).log.inner <+: (c.node b).log.inner ∧
      (c.node b).log.inner <+: (c.node a).log.inner := by
  by_cases hb : b = a
  · rw [hb]
    exact ⟨hsole.log_isPrefix run hx, List.prefix_rfl⟩
  · have hstep := inStep_of_run run hsole hb
    exact ⟨hstep.grows x hx, hstep.isPrefix⟩

theorem SoleLeader.keepsCommitted (run : Run (cluster cfg) h c) {a : NodeId}
    (hsole : SoleLeader h c a) : Meets KeepsCommitted h := by
  revert hsole
  apply run.induct (fun h c => SoleLeader h c a → Meets KeepsCommitted h)
  · exact fun _ => meets_nil _
  · intro h c c' act run ih hstep hsole
    have hbefore : c ∈ moments (⟨c, act, c'⟩ :: h) c' := moments_mono (mem_moments_self h c)
    refine meets_cons.mpr ⟨keepsCommitted_of_isPrefix hstep fun b => ?_, ih hsole.before⟩
    exact (c.node b).committed_isPrefix.trans (hsole.grows (run.next hstep) hbefore b).1

theorem coherent_of_soleLeader (run : Run (cluster cfg) h c) {a : NodeId}
    (hsole : SoleLeader h c a) : Coherent h c := by
  have hlog : ∀ x ∈ moments h c, ∀ b, (x.node b).committed <+: (c.node a).log.inner := by
    intro x hx b
    obtain ⟨hgrows, hpre⟩ := hsole.grows run hx b
    exact ((x.node b).committed_isPrefix.trans hgrows).trans hpre
  exact ⟨fun x hx y hy b b' => List.prefix_or_prefix_of_prefix (hlog x hx b) (hlog y hy b'),
    fun x hx b => committed_of_mem_moments run (hsole.keepsCommitted run) hx b⟩

theorem committed_subset_acceptedEntries (run : Run (cluster cfg) h c) (a : NodeId) :
    (c.node a).committed ⊆ acceptedEntries h := fun e he =>
  ((integrity_of_run run c (mem_moments_self h c) a).2 e
    (List.mem_of_mem_take he)).mem_acceptedEntries

structure Represents (h : List (Move Cluster Action)) (c : Cluster)
    (log : ReplicatedLog NodeId LogEntry) : Prop where
  proposed : log.proposed = acceptedEntries h
  decided : log.decided = [] ∨ ∃ x ∈ moments h c, ∃ a, log.decided = (x.node a).committed
  learned : ∀ a, log.learned a = (c.node a).committed.length
  known : ∀ a, (c.node a).committed <+: log.decided

theorem Represents.implements {log : ReplicatedLog NodeId LogEntry} (hrep : Represents h c log) :
    Implements h c log where
  proposed := hrep.proposed
  view := fun a => ReplicatedLog.view_eq_of_isPrefix (hrep.known a) (hrep.learned a)

theorem committed_initial (cfg : Config) (a : NodeId) :
    ((cluster cfg).init.node a).committed = [] := by
  rw [Cluster.cluster_init, Cluster.node_initial]
  rfl

theorem represents_initial (cfg : Config) :
    Represents [] (cluster cfg).init ReplicatedLog.initial where
  proposed := rfl
  decided := Or.inl rfl
  learned := fun a => by
    rw [committed_initial]
    rfl
  known := fun a => by
    rw [committed_initial]
    exact List.nil_prefix

theorem Represents.propose {log : ReplicatedLog NodeId LogEntry} (hrep : Represents h c log)
    (act : Action) (c' : Cluster) :
    ∃ log', ReflTransGen ReplicatedLog.Step log log' ∧
      log'.proposed = acceptedEntries (⟨c, act, c'⟩ :: h) ∧ log'.decided = log.decided ∧
      log'.learned = log.learned := by
  refine ⟨log.propose (accepted ⟨c, act, c'⟩).toList, ReflTransGen.single (.propose _ _),
    ?_, rfl, rfl⟩
  rw [acceptedEntries_cons, ← hrep.proposed]
  rfl

theorem Represents.next (run : Run (cluster cfg) h c) {log : ReplicatedLog NodeId LogEntry}
    (hrep : Represents h c log) {act : Action} {c' : Cluster} (hstep : c.step act = some c')
    (hcoherent : Coherent (⟨c, act, c'⟩ :: h) c') :
    ∃ log', ReflTransGen ReplicatedLog.Step log log' ∧
      Represents (⟨c, act, c'⟩ :: h) c' log' := by
  have hnow := mem_moments_self (⟨c, act, c'⟩ :: h) c'
  obtain ⟨log₁, hpropose, hproposed, hdecided, hlearned⟩ := hrep.propose act c'
  have hmoment : log₁.decided = [] ∨
      ∃ x ∈ moments (⟨c, act, c'⟩ :: h) c', ∃ a, log₁.decided = (x.node a).committed := by
    rw [hdecided]
    exact hrep.decided.imp_right fun ⟨x, hx, hof⟩ => ⟨x, moments_mono hx, hof⟩
  cases hmover : c.mover act with
  | none =>
    have hsame : ∀ a, c'.node a = c.node a := fun a =>
      Cluster.node_of_ne_mover hstep (by rw [hmover]; exact nofun)
    refine ⟨log₁, hpropose, hproposed, hmoment, fun a => ?_, fun a => ?_⟩
    · rw [hlearned, hsame, hrep.learned]
    · rw [hdecided, hsame]
      exact hrep.known a
  | some v =>
    have hsame : ∀ a, a ≠ v → c'.node a = c.node a := fun a ha =>
      Cluster.node_of_ne_mover hstep (by rw [hmover]; exact fun heq => ha (Option.some.inj heq).symm)
    have hcomparable : log₁.decided <+: (c'.node v).committed ∨
        (c'.node v).committed <+: log₁.decided := by
      rcases hmoment with hnil | ⟨x, hx, a, hof⟩
      · exact Or.inl (hnil ▸ List.nil_prefix)
      · rw [hof]
        exact hcoherent.comparable x hx c' hnow a v
    have hmore : log₁.learned v ≤ (c'.node v).committed.length := by
      rw [hlearned, hrep.learned]
      exact (hcoherent.kept c (moments_mono (mem_moments_self h c)) v).length_le
    obtain ⟨log₂, hsteps, hproposed₂, hdecided₂, hpre, hknown, hlearned₂⟩ :=
      log₁.exists_steps_of_comparable hcomparable
        (hproposed ▸ committed_subset_acceptedEntries (run.next hstep) v) hmore
    refine ⟨log₂, hpropose.trans hsteps, hproposed₂.trans hproposed, ?_, fun a => ?_, fun a => ?_⟩
    · rcases hdecided₂ with heq | heq
      · rw [heq]
        exact hmoment
      · exact Or.inr ⟨c', hnow, v, heq⟩
    · rw [hlearned₂]
      by_cases ha : a = v
      · subst ha
        exact Function.update_self _ _ _
      · rw [Function.update_of_ne ha, hlearned, hrep.learned, hsame a ha]
    · by_cases ha : a = v
      · exact ha ▸ hknown
      · rw [hsame a ha]
        exact (hdecided ▸ hrep.known a).trans hpre

theorem simulated_of_coherent {cond : Cluster → Action → Prop}
    (hcoherent : ∀ {h c}, Run (cluster cfg) h c → Meets cond h → Coherent h c)
    (run : Run (cluster cfg) h c) (hm : Meets cond h) :
    ∃ log, Simulated ReplicatedLog.Step Implements ReplicatedLog.initial h c log := by
  obtain ⟨log, hsim⟩ : ∃ log, Simulated ReplicatedLog.Step Represents .initial h c log := by
    refine run.simulated cond (represents_initial cfg) ?_ hm
    intro h c c' act log run hm hrep hcond hstep
    exact hrep.next run hstep (hcoherent (run.next hstep) (meets_cons.mpr ⟨hcond, hm⟩))
  exact ⟨log, hsim.imp fun _ _ _ hrep => hrep.implements⟩

theorem simulated_of_keepsCommits (run : Run (cluster cfg) h c) (hm : Meets KeepsCommits h) :
    ∃ log, Simulated ReplicatedLog.Step Implements ReplicatedLog.initial h c log :=
  simulated_of_coherent coherent_of_keepsCommits run hm

theorem simulated_of_onlyWins {a : NodeId} (run : Run (cluster cfg) h c)
    (hm : Meets (OnlyWins a) h) :
    ∃ log, Simulated ReplicatedLog.Step Implements ReplicatedLog.initial h c log :=
  simulated_of_coherent
    (fun run hm => coherent_of_soleLeader run (soleLeader_of_onlyWins run hm)) run hm

end Run

theorem simulated_of_keepsCommits_replicated :
    ∃ h c, Run (cluster twoNodes) h c ∧ (c.node "node1").committed.length = 1 ∧
      (c.node "node2").committed.length = 1 ∧
      ∃ log, Simulated ReplicatedLog.Step Implements ReplicatedLog.initial h c log := by
  obtain ⟨h, c, run, hm, hcommit, hcommit'⟩ := exists_run_of_exec (cluster twoNodes) KeepsCommits
    (fun c => (c.node "node1").committed.length = 1 ∧ (c.node "node2").committed.length = 1)
    commitReplicated (by decide +kernel)
  exact ⟨h, c, run, hcommit, hcommit', simulated_of_keepsCommits run hm⟩

/-- `node3` loses an election, and goes on to take entries of `node1`, which is behind its term. -/
theorem simulated_of_onlyWins_behind :
    ∃ h c, Run (cluster threeNodes) h c ∧ (c.node "node1").committed.length = 2 ∧
      (c.node "node3").currentTerm = 2 ∧ (c.node "node3").log.len = 1 ∧
      ∃ log, Simulated ReplicatedLog.Step Implements ReplicatedLog.initial h c log := by
  obtain ⟨h, c, run, hm, hcommit, hterm, hlen⟩ := exists_run_of_exec (cluster threeNodes)
    (OnlyWins "node1")
    (fun c => (c.node "node1").committed.length = 2 ∧ (c.node "node3").currentTerm = 2 ∧
      (c.node "node3").log.len = 1)
    (threeNodes.allUp ++ electionTimeout "node1" ++ exchange "node1" ["node2", "node3"] ++
      exchange "node1" ["node2"] ++ exchange "node1" ["node3"] ++
      [.client "node1" ⟨"x", "1"⟩] ++ heartbeatTimeout "node1" ++
      [.client "node1" ⟨"y", "2"⟩] ++ heartbeatTimeout "node1" ++ electionTimeout "node3" ++
      [.send "node3", .fail "node3" "node1" "unavailable", .fail "node3" "node2" "unavailable",
        .resume "node3"] ++
      exchange "node1" ["node2"] ++ exchange "node1" ["node3"] ++ exchange "node1" ["node2"])
    (by decide +kernel)
  exact ⟨h, c, run, hcommit, hterm, hlen, simulated_of_onlyWins run hm⟩

end Rafting
