import Rafting.CommitSafety
import Mathlib.Order.Lattice.Nat

/-! The commit rule of a leader. The loop over the positions ends with the last one that it
accepts; it accepts a position on the records of a quorum of peers, but takes a missing
record for 0 and, after the cast, -1 for the greatest of all. So a peer with the record -1
counts for more than after its next reply, and the order of replies can matter. -/
namespace Rafting
namespace RaftNode

/-- A quorum of peers has a record at a position of the leader's term, or behind it. -/
def Agreed (node : RaftNode) (ci : Nat) : Prop :=
  ∃ entry, node.log.get ci = some entry ∧ entry.term = node.currentTerm ∧
    node.quorumSize ≤ node.recordedCount ci

instance (node : RaftNode) (ci : Nat) : Decidable (node.Agreed ci) :=
  inferInstanceAs (Decidable (∃ entry ∈ node.log.get ci, _ ∧ _))

/-- `usize::MAX`, which is what the cast makes of -1. -/
def usizeMax : Nat := 18446744073709551615

/-- A peer that has no record at a position is counted there: a missing record is taken for 0,
and -1 for the greatest of all. -/
def Miscounted (node : RaftNode) (ci : Nat) (p : NodeId) : Prop :=
  node.matchIndex p = none ∧ ci = 0 ∨ node.matchIndex p = some (-1) ∧ ci ≤ usizeMax

instance (node : RaftNode) (ci : Nat) (p : NodeId) : Decidable (node.Miscounted ci p) :=
  inferInstanceAs (Decidable (_ ∧ _ ∨ _ ∧ _))

def miscount (node : RaftNode) (ci : Nat) : Nat :=
  (node.peers.filter fun p => node.Miscounted ci p).length

/-- The peers with a record at a position of the leader's term and the miscounted ones make
a quorum. -/
def Accepted (node : RaftNode) (ci : Nat) : Prop :=
  ∃ entry, node.log.get ci = some entry ∧ entry.term = node.currentTerm ∧
    node.quorumSize ≤ node.recordedCount ci + node.miscount ci

instance (node : RaftNode) (ci : Nat) : Decidable (node.Accepted ci) :=
  inferInstanceAs (Decidable (∃ entry ∈ node.log.get ci, _ ∧ _))

/-- The greatest agreed position, if it is not behind the commit index. -/
def CommitRule (node : RaftNode) (commitIndex : Int) : Prop :=
  (∃ ci : Nat, IsGreatest { ci | node.Agreed ci } ci ∧ commitIndex = max node.commitIndex ci) ∨
    (∀ ci, ¬node.Agreed ci) ∧ commitIndex = node.commitIndex

/-- The reply leaves the leader with the commit index of the rule, over the records with
the one that the reply makes. -/
def FollowsCommitRule (node : RaftNode) (response : AppendEntriesResponse) : Prop :=
  ∃ node', node.step (.appendEntriesResponseEvent response, none) = .ok (node', none) ∧
    (node.recordMatch response).CommitRule node'.commitIndex

variable {node : RaftNode}

theorem le_asUsize {ci : Nat} {index : Int} (h : (ci : Int) ≤ index) : ci ≤ asUsize index := by
  rw [asUsize_of_nonneg (by omega)]
  omega

theorem recordedCount_le_filter (node : RaftNode) {ci : Nat} {counted : NodeId → Bool}
    (hcounted : ∀ p index, node.matchIndex p = some index → (ci : Int) ≤ index → counted p) :
    node.recordedCount ci ≤ (node.peers.filter counted).length := by
  unfold recordedCount
  apply List.Sublist.length_le
  apply List.monotone_filter_right
  intro p hrecorded
  obtain ⟨index, hindex, hle⟩ := (Option.any_eq_true _ _).mp hrecorded
  exact hcounted p index hindex (of_decide_eq_true hle)

theorem recordedCount_le (node : RaftNode) (ci : Nat) :
    node.recordedCount ci ≤ node.replicaCount ci := by
  apply node.recordedCount_le_filter
  intro p index hindex hle
  rw [hindex]
  exact decide_eq_true (le_asUsize hle)

theorem recordedCount_anti (node : RaftNode) {ci ci' : Nat} (hle : ci ≤ ci') :
    node.recordedCount ci' ≤ node.recordedCount ci := by
  apply node.recordedCount_le_filter
  intro p index hindex hle'
  rw [hindex]
  exact decide_eq_true (by omega)

theorem counted_peer_iff (hrecords : ∀ p index, node.matchIndex p = some index → -1 ≤ index)
    (ci : Nat) (p : NodeId) : ci ≤ asUsize ((node.matchIndex p).getD 0) ↔
      ((node.matchIndex p).any fun index => (ci : Int) ≤ index) = true ∨ node.Miscounted ci p := by
  cases hrecord : node.matchIndex p with
  | none => simp [Miscounted, hrecord, asUsize]
  | some index =>
    have hlow := hrecords p index hrecord
    by_cases hempty : index = -1
    · have hcast : asUsize (-1) = usizeMax := rfl
      simp [Miscounted, hrecord, hempty, hcast]
      omega
    · rw [Option.getD_some, asUsize_of_nonneg (by omega)]
      simp only [Miscounted, hrecord, Option.any_some, decide_eq_true_eq, Option.some.injEq,
        hempty, reduceCtorEq, false_and, or_false]
      omega

theorem not_miscounted {ci : Nat} {p : NodeId}
    (hrecorded : ((node.matchIndex p).any fun index => (ci : Int) ≤ index) = true) :
    ¬node.Miscounted ci p := by
  rintro (⟨hrecord, _⟩ | ⟨hrecord, _⟩)
  · simp [hrecord] at hrecorded
  · simp only [hrecord, Option.any_some, decide_eq_true_eq] at hrecorded
    omega

theorem length_filter_or {α : Type} {either one other : α → Bool}
    (heither : ∀ x, either x = true ↔ one x = true ∨ other x = true)
    (hnot : ∀ x, one x = true → ¬other x = true) (xs : List α) :
    (xs.filter either).length = (xs.filter one).length + (xs.filter other).length := by
  induction xs with
  | nil => rfl
  | cons x xs ih =>
    rw [List.filter_cons, List.filter_cons, List.filter_cons]
    by_cases hone : one x = true
    · rw [if_pos ((heither x).mpr (Or.inl hone)), if_pos hone, if_neg (hnot x hone)]
      simp only [List.length_cons]
      omega
    by_cases hother : other x = true
    · rw [if_pos ((heither x).mpr (Or.inr hother)), if_neg hone, if_pos hother]
      simp only [List.length_cons]
      omega
    · rw [if_neg fun h => ((heither x).mp h).elim hone hother, if_neg hone, if_neg hother]
      exact ih

theorem replicaCount_eq (hrecords : ∀ p index, node.matchIndex p = some index → -1 ≤ index)
    (ci : Nat) : node.replicaCount ci = node.recordedCount ci + node.miscount ci := by
  apply length_filter_or
  · intro p
    simpa using counted_peer_iff hrecords ci p
  · intro p hrecorded
    simpa using not_miscounted hrecorded

theorem counted_iff_accepted (hrecords : ∀ p index, node.matchIndex p = some index → -1 ≤ index)
    {ci : Nat} : node.Counted ci ↔ node.Accepted ci := by
  simp only [Counted, Accepted, replicaCount_eq hrecords]

theorem Agreed.counted {ci : Nat} (h : node.Agreed ci) : node.Counted ci := by
  obtain ⟨entry, hget, hterm, hquorum⟩ := h
  exact ⟨entry, hget, hterm, hquorum.trans (node.recordedCount_le ci)⟩

theorem Counted.agreed_of_le {ci ci' : Nat} (h : node.Counted ci) (hle : ci ≤ ci')
    (hagreed : node.Agreed ci') : node.Agreed ci := by
  obtain ⟨entry, hget, hterm, _⟩ := h
  obtain ⟨_, _, _, hquorum⟩ := hagreed
  exact ⟨entry, hget, hterm, hquorum.trans (node.recordedCount_anti hle)⟩

theorem exists_isGreatest_agreed (hagreed : ∃ ci, node.Agreed ci) :
    ∃ ci, IsGreatest { ci | node.Agreed ci } ci := by
  have hbounded : BddAbove { ci | node.Agreed ci } := by
    refine ⟨node.log.len, ?_⟩
    rintro ci ⟨entry, hget, _⟩
    exact (List.getElem?_eq_some_iff.mp hget).1.le
  exact ⟨_, Nat.sSup_mem hagreed hbounded, fun ci hci => le_csSup hbounded hci⟩

theorem commitRule_self (hnone : ∀ ci : Nat, node.commitIndex < ci → ¬node.Agreed ci) :
    node.CommitRule node.commitIndex := by
  by_cases hagreed : ∃ ci, node.Agreed ci
  · obtain ⟨ci, hgreatest⟩ := exists_isGreatest_agreed hagreed
    refine Or.inl ⟨ci, hgreatest, ?_⟩
    have hle : ¬node.commitIndex < ci := fun hlt => hnone ci hlt hgreatest.1
    omega
  · exact Or.inr ⟨fun ci hci => hagreed ⟨ci, hci⟩, rfl⟩

/-- The loop ends as the rule says exactly if every position that it accepts behind the
commit index is agreed. -/
theorem commitRule_commitLoop_iff (node : RaftNode) :
    node.CommitRule node.commitLoop.commitIndex ↔
      ∀ ci : Nat, node.commitIndex < ci → node.Counted ci → node.Agreed ci := by
  constructor
  · intro hrule ci hlt hcounted
    -- the loop has passed the position, so the rule has an agreed one there or behind it
    obtain ⟨ci', hle, hindex⟩ :
        ∃ ci' : Nat, ci ≤ ci' ∧ node.commitLoop.commitIndex = ci' := by
      rcases commitLoop_cases node with ⟨_, hnone⟩ | ⟨ci', _, _, _, hlast, heq⟩
      · exact absurd hcounted (hnone ci (by omega))
      · exact ⟨ci', Nat.le_of_not_lt fun hgt => hlast ci hgt hcounted, by rw [heq]⟩
    rw [hindex] at hrule
    rcases hrule with ⟨last, ⟨hagreed, _⟩, heq⟩ | ⟨_, heq⟩
    · have hlast : last = ci' := by omega
      exact hcounted.agreed_of_le hle (hlast ▸ hagreed)
    · omega
  · intro hall
    rcases commitLoop_cases node with ⟨heq, hnone⟩ | ⟨ci, hle, _, hcounted, hlast, heq⟩
    · rw [heq]
      exact commitRule_self fun ci hlt hagreed => hnone ci (by omega) hagreed.counted
    · rw [heq]
      rcases Int.lt_or_eq_of_le hle with hlt | hsame
      · refine Or.inl ⟨ci, ⟨hall ci hlt hcounted, ?_⟩, by dsimp only; omega⟩
        intro ci' hagreed
        exact Nat.le_of_not_lt fun hgt => hlast ci' hgt hagreed.counted
      · dsimp only
        rw [← hsame]
        exact commitRule_self fun ci' hlt hagreed => hlast ci' (by omega) hagreed.counted

section Reply
variable {response : AppendEntriesResponse}

theorem step_success (hleader : node.state = .leader) (hown : response.term = node.currentTerm)
    (hsuccess : response.success = true) (hmax : response.lastAppliedIndex < i64Max) :
    node.step (.appendEntriesResponseEvent response, none) =
      .ok ((node.recordMatch response).commitLoop, none) := by
  simp only [step, stepAppendEntriesResponse_success hleader hown.symm hsuccess hmax]
  rfl

theorem step_overflow (hleader : node.state = .leader) (hown : response.term = node.currentTerm)
    (hsuccess : response.success = true) (hmax : i64Max ≤ response.lastAppliedIndex) :
    node.step (.appendEntriesResponseEvent response, none) = .error addOverflow := by
  simp only [step, stepAppendEntriesResponse_error_iff.mpr
    ⟨hleader, hown.symm, Or.inl ⟨hsuccess, hmax, rfl⟩⟩]
  rfl

theorem followsCommitRule_iff_commitLoop (hleader : node.state = .leader)
    (hown : response.term = node.currentTerm) (hsuccess : response.success = true)
    (hmax : response.lastAppliedIndex < i64Max) :
    node.FollowsCommitRule response ↔ (node.recordMatch response).CommitRule
      (node.recordMatch response).commitLoop.commitIndex := by
  simp [FollowsCommitRule, step_success hleader hown hsuccess hmax]

theorem recordMatch_ge (hrecords : ∀ p index, node.matchIndex p = some index → -1 ≤ index)
    (hreport : -1 ≤ response.lastAppliedIndex) :
    ∀ p index, (node.recordMatch response).matchIndex p = some index → -1 ≤ index := by
  intro p index hindex
  by_cases hp : p = response.fromNode
  · rw [hp, recordMatch_matchIndex, Function.update_self] at hindex
    cases hindex
    exact hreport
  · rw [recordMatch_matchIndex, Function.update_of_ne hp] at hindex
    exact hrecords p index hindex

/-- A leader follows the commit rule on such a reply exactly if the reply does not report
`i64::MAX` and no position behind the commit index needs the miscounted peers for its quorum. -/
theorem followsCommitRule_iff (hleader : node.state = .leader)
    (hown : response.term = node.currentTerm) (hsuccess : response.success = true)
    (hrecords : ∀ p index, node.matchIndex p = some index → -1 ≤ index)
    (hreport : -1 ≤ response.lastAppliedIndex) :
    node.FollowsCommitRule response ↔ response.lastAppliedIndex < i64Max ∧
      ∀ ci : Nat, node.commitIndex < ci → (node.recordMatch response).Accepted ci →
        node.quorumSize ≤ (node.recordMatch response).recordedCount ci := by
  by_cases hmax : i64Max ≤ response.lastAppliedIndex
  · simp [FollowsCommitRule, step_overflow hleader hown hsuccess hmax, Int.not_lt.mpr hmax]
  have hmax := Int.not_le.mp hmax
  rw [followsCommitRule_iff_commitLoop hleader hown hsuccess hmax, commitRule_commitLoop_iff]
  constructor
  · intro hall
    refine ⟨hmax, fun ci hlt haccepted => ?_⟩
    obtain ⟨_, _, _, hquorum⟩ := hall ci hlt
      ((counted_iff_accepted (recordMatch_ge hrecords hreport)).mpr haccepted)
    exact hquorum
  · rintro ⟨_, hall⟩ ci hlt hcounted
    have hquorum := hall ci hlt
      ((counted_iff_accepted (recordMatch_ge hrecords hreport)).mp hcounted)
    obtain ⟨entry, hget, hterm, _⟩ := hcounted
    exact ⟨entry, hget, hterm, hquorum⟩

end Reply

def leadingTwo : RaftNode :=
  { new "node1" ["node2", "node3"] 7 with
    currentTerm := 1
    votedFor := some "node1"
    log := ⟨[⟨0, 1, "test1"⟩, ⟨1, 1, "test2"⟩]⟩
    state := .leader }

theorem followsCommitRule_iff_replicated :
    leadingTwo.FollowsCommitRule ⟨"node2", 1, true, 1⟩ := by
  have hrecords : ∀ p index, leadingTwo.matchIndex p = some index → -1 ≤ index := by
    intro p index hindex
    cases hindex
  apply (followsCommitRule_iff rfl rfl rfl hrecords (by decide)).mpr
  refine ⟨by decide, fun ci _ haccepted => ?_⟩
  obtain ⟨_, hget, _⟩ := haccepted
  have hall : ∀ ci < 2, leadingTwo.quorumSize ≤
      (leadingTwo.recordMatch ⟨"node2", 1, true, 1⟩).recordedCount ci := by decide
  exact hall ci (List.getElem?_eq_some_iff.mp hget).1

/-- A peer without any entry has all of the leader's committed. -/
theorem not_followsCommitRule :
    ¬leadingTwo.FollowsCommitRule ⟨"node2", 1, true, -1⟩ := by
  intro h
  rw [followsCommitRule_iff_commitLoop rfl rfl rfl (by decide), commitRule_commitLoop_iff] at h
  exact absurd (h 1 (by decide) (by decide)) (by decide)

/-! ## The order of replies -/

def OrderFree (node : RaftNode) (response response' : AppendEntriesResponse) : Prop :=
  ∃ first last first' last',
    node.step (.appendEntriesResponseEvent response, none) = .ok (first, none) ∧
    first.step (.appendEntriesResponseEvent response', none) = .ok (last, none) ∧
    node.step (.appendEntriesResponseEvent response', none) = .ok (first', none) ∧
    first'.step (.appendEntriesResponseEvent response, none) = .ok (last', none) ∧
    last.nextIndex = last'.nextIndex ∧ last.matchIndex = last'.matchIndex ∧
    last.commitIndex = last'.commitIndex

/-- A position that is accepted with the first reply alone, but no longer when the second one
has replaced the record -1 of its peer. -/
def CountsStale (node : RaftNode) (response response' : AppendEntriesResponse) (ci : Nat) : Prop :=
  (node.recordMatch response).Accepted ci ∧
    ¬((node.recordMatch response).recordMatch response').Accepted ci ∧
    node.matchIndex response'.fromNode = some (-1) ∧
    0 ≤ response'.lastAppliedIndex ∧ response'.lastAppliedIndex < ci

section Order
variable {response response' : AppendEntriesResponse}

theorem recordMatch_comm (node : RaftNode) (hpeers : response.fromNode ≠ response'.fromNode) :
    (node.recordMatch response).recordMatch response' =
      (node.recordMatch response').recordMatch response := by
  simp only [recordMatch, Function.update_comm hpeers]

theorem le_commitLoop_iff (node : RaftNode) {index : Int} :
    index ≤ node.commitLoop.commitIndex ↔
      index ≤ node.commitIndex ∨ ∃ ci : Nat, index ≤ ci ∧ node.Counted ci := by
  rcases commitLoop_cases node with ⟨heq, hnone⟩ | ⟨ci, hle, _, hcounted, hlast, heq⟩
  · rw [heq]
    constructor
    · exact Or.inl
    · rintro (hindex | ⟨ci, hci, hcounted⟩)
      · exact hindex
      · have hbefore : ¬node.commitIndex ≤ ci := fun hle => hnone ci hle hcounted
        omega
  · rw [heq]
    dsimp only
    constructor
    · exact fun hindex => Or.inr ⟨ci, hindex, hcounted⟩
    · rintro (hindex | ⟨ci', hci', hcounted'⟩)
      · omega
      · have hend : ¬ci < ci' := fun hlt => hlast ci' hlt hcounted'
        omega

theorem replicaCount_le {node node' : RaftNode} {ci ci' : Nat} (hpeers : node'.peers = node.peers)
    (hcounted : ∀ p, ci ≤ asUsize ((node.matchIndex p).getD 0) →
      ci' ≤ asUsize ((node'.matchIndex p).getD 0)) :
    node.replicaCount ci ≤ node'.replicaCount ci' := by
  unfold replicaCount
  rw [hpeers]
  apply List.Sublist.length_le
  apply List.monotone_filter_right
  intro p hp
  exact decide_eq_true (hcounted p (of_decide_eq_true hp))

theorem replicaCount_anti (node : RaftNode) {ci ci' : Nat} (hle : ci ≤ ci') :
    node.replicaCount ci' ≤ node.replicaCount ci :=
  replicaCount_le rfl fun _ hcounted => hle.trans hcounted

theorem Counted.of_le {ci ci' : Nat} (h : node.Counted ci') (hle : ci ≤ ci') {entry : LogEntry}
    (hget : node.log.get ci = some entry) (hterm : entry.term = node.currentTerm) :
    node.Counted ci := by
  obtain ⟨_, _, _, hquorum⟩ := h
  exact ⟨entry, hget, hterm, hquorum.trans (node.replicaCount_anti hle)⟩

theorem counted_commitLoop_recordMatch (node : RaftNode) {ci : Nat} :
    (node.commitLoop.recordMatch response).Counted ci ↔ (node.recordMatch response).Counted ci := by
  obtain ⟨index, hloop⟩ := commitLoop_eq node
  rw [hloop]
  exact Iff.rfl

theorem le_commitLoop_two_iff (node : RaftNode) {index : Int} :
    index ≤ ((node.recordMatch response).commitLoop.recordMatch response').commitLoop.commitIndex ↔
      index ≤ node.commitIndex ∨ ∃ ci : Nat, index ≤ ci ∧ ((node.recordMatch response).Counted ci ∨
        ((node.recordMatch response).recordMatch response').Counted ci) := by
  have hfirst : index ≤ (node.recordMatch response).commitLoop.commitIndex ↔
      index ≤ node.commitIndex ∨ ∃ ci : Nat, index ≤ ci ∧ (node.recordMatch response).Counted ci :=
    le_commitLoop_iff _
  rw [le_commitLoop_iff]
  simp only [counted_commitLoop_recordMatch, and_or_left, exists_or, ← or_assoc, ← hfirst]
  exact Iff.rfl

theorem orderFree_iff_commitIndex (hleader : node.state = .leader)
    (hown : response.term = node.currentTerm) (hown' : response'.term = node.currentTerm)
    (hsuccess : response.success = true) (hsuccess' : response'.success = true)
    (hmax : response.lastAppliedIndex < i64Max) (hmax' : response'.lastAppliedIndex < i64Max)
    (hpeers : response.fromNode ≠ response'.fromNode) :
    node.OrderFree response response' ↔
      ((node.recordMatch response).commitLoop.recordMatch response').commitLoop.commitIndex =
        ((node.recordMatch response').commitLoop.recordMatch response).commitLoop.commitIndex := by
  have hfirst := step_success hleader hown hsuccess hmax
  have hfirst' := step_success hleader hown' hsuccess' hmax'
  have hlast : (node.recordMatch response).commitLoop.step
      (.appendEntriesResponseEvent response', none) = .ok (_, none) :=
    step_success (by rw [commitLoop_state]; exact hleader)
      (by rw [commitLoop_currentTerm]; exact hown') hsuccess' hmax'
  have hlast' : (node.recordMatch response').commitLoop.step
      (.appendEntriesResponseEvent response, none) = .ok (_, none) :=
    step_success (by rw [commitLoop_state]; exact hleader)
      (by rw [commitLoop_currentTerm]; exact hown) hsuccess hmax
  constructor
  · rintro ⟨_, _, _, _, h, h', hother, hother', _, _, hcommit⟩
    rw [hfirst] at h
    cases h
    rw [hlast] at h'
    cases h'
    rw [hfirst'] at hother
    cases hother
    rw [hlast'] at hother'
    cases hother'
    exact hcommit
  · intro hcommit
    refine ⟨_, _, _, _, hfirst, hlast, hfirst', hlast', ?_, ?_, hcommit⟩
    · simp only [commitLoop_nextIndex, recordMatch_nextIndex, Function.update_comm hpeers]
    · simp only [commitLoop_matchIndex, recordMatch_matchIndex, Function.update_comm hpeers]

theorem commitLoop_two_le_iff (node : RaftNode) (hpeers : response.fromNode ≠ response'.fromNode) :
    ((node.recordMatch response).commitLoop.recordMatch response').commitLoop.commitIndex ≤
        ((node.recordMatch response').commitLoop.recordMatch response).commitLoop.commitIndex ↔
      ∀ ci : Nat, node.commitIndex < ci → (node.recordMatch response).Counted ci →
        ¬((node.recordMatch response).recordMatch response').Counted ci →
        (node.recordMatch response').Counted ci := by
  have hboth := recordMatch_comm node hpeers
  constructor
  · intro hle ci hlt hcounted hnot
    have hreach : (ci : Int) ≤
        ((node.recordMatch response).commitLoop.recordMatch response').commitLoop.commitIndex :=
      (le_commitLoop_two_iff node).mpr (Or.inr ⟨ci, Int.le_refl _, Or.inl hcounted⟩)
    obtain ⟨entry, hget, hterm, _⟩ := hcounted
    rcases (le_commitLoop_two_iff node).mp (hreach.trans hle) with
      hbefore | ⟨ci', hci', hother | hother⟩
    · omega
    · exact hother.of_le (by omega) hget hterm
    · rw [← hboth] at hother
      exact absurd (hother.of_le (by omega) hget hterm) hnot
  · intro hall
    rw [le_commitLoop_two_iff]
    rcases (le_commitLoop_two_iff node).mp (Int.le_refl _) with hbefore | ⟨ci, hci, hcounted⟩
    · exact Or.inl hbefore
    · by_cases hlt : node.commitIndex < ci
      · refine Or.inr ⟨ci, hci, ?_⟩
        by_cases hlast : ((node.recordMatch response).recordMatch response').Counted ci
        · exact Or.inr (hboth ▸ hlast)
        · exact Or.inl (hall ci hlt (hcounted.resolve_right hlast) hlast)
      · exact Or.inl (by omega)

theorem orderFree_iff_counted (hleader : node.state = .leader)
    (hown : response.term = node.currentTerm) (hown' : response'.term = node.currentTerm)
    (hsuccess : response.success = true) (hsuccess' : response'.success = true)
    (hmax : response.lastAppliedIndex < i64Max) (hmax' : response'.lastAppliedIndex < i64Max)
    (hpeers : response.fromNode ≠ response'.fromNode) :
    node.OrderFree response response' ↔ ∀ ci : Nat, node.commitIndex < ci →
      ¬((node.recordMatch response).recordMatch response').Counted ci →
        ((node.recordMatch response).Counted ci ↔ (node.recordMatch response').Counted ci) := by
  rw [orderFree_iff_commitIndex hleader hown hown' hsuccess hsuccess' hmax hmax' hpeers,
    Int.le_antisymm_iff, commitLoop_two_le_iff node hpeers, commitLoop_two_le_iff node hpeers.symm,
    ← recordMatch_comm node hpeers]
  constructor
  · rintro ⟨hfirst, hsecond⟩ ci hlt hnot
    exact ⟨fun hcounted => hfirst ci hlt hcounted hnot,
      fun hcounted => hsecond ci hlt hcounted hnot⟩
  · intro hall
    exact ⟨fun ci hlt hcounted hnot => (hall ci hlt hnot).mp hcounted,
      fun ci hlt hcounted hnot => (hall ci hlt hnot).mpr hcounted⟩

/-- A reply takes a peer away from a position only if it replaces the record -1. -/
theorem replicaCount_le_recordMatch (node : RaftNode) {ci : Nat}
    (hrecords : ∀ p index, node.matchIndex p = some index → -1 ≤ index)
    (hreport : (node.matchIndex response.fromNode).getD (-1) ≤ response.lastAppliedIndex)
    (hfresh : ¬(node.matchIndex response.fromNode = some (-1) ∧
      0 ≤ response.lastAppliedIndex ∧ response.lastAppliedIndex < ci)) :
    node.replicaCount ci ≤ (node.recordMatch response).replicaCount ci := by
  have hpeers : (node.recordMatch response).peers = node.peers := rfl
  apply replicaCount_le hpeers
  intro p hcounted
  rw [recordMatch_matchIndex]
  by_cases hp : p = response.fromNode
  · subst hp
    rw [Function.update_self, Option.getD_some]
    cases hrecord : node.matchIndex response.fromNode with
    | none =>
      -- a missing record counts for the first position only
      rw [hrecord] at hcounted
      exact hcounted.trans (Nat.zero_le _)
    | some index =>
      rw [hrecord, Option.getD_some] at hreport hcounted
      have hlow := hrecords _ _ hrecord
      by_cases hempty : index = -1
      · rw [hrecord, hempty] at hfresh
        by_cases hfirst : response.lastAppliedIndex = -1
        · rw [hfirst, ← hempty]
          exact hcounted
        · have hbehind : ¬response.lastAppliedIndex < ci := fun hlt =>
            hfresh ⟨rfl, by omega, hlt⟩
          exact le_asUsize (by omega)
      · rw [asUsize_of_nonneg (by omega)] at hcounted
        exact le_asUsize (by omega)
  · rw [Function.update_of_ne hp]
    exact hcounted

theorem report_ge (hrecords : ∀ p index, node.matchIndex p = some index → -1 ≤ index)
    (hreport : (node.matchIndex response.fromNode).getD (-1) ≤ response.lastAppliedIndex) :
    -1 ≤ response.lastAppliedIndex := by
  cases hrecord : node.matchIndex response.fromNode with
  | none =>
    rw [hrecord] at hreport
    exact hreport
  | some index =>
    rw [hrecord] at hreport
    exact (hrecords _ _ hrecord).trans hreport

theorem countsStale_iff (hpeers : response.fromNode ≠ response'.fromNode)
    (hrecords : ∀ p index, node.matchIndex p = some index → -1 ≤ index)
    (hreport : (node.matchIndex response.fromNode).getD (-1) ≤ response.lastAppliedIndex)
    (hreport' : (node.matchIndex response'.fromNode).getD (-1) ≤ response'.lastAppliedIndex)
    {ci : Nat} :
    node.CountsStale response response' ci ↔ (node.recordMatch response).Counted ci ∧
      ¬((node.recordMatch response).recordMatch response').Counted ci := by
  have hfirst := recordMatch_ge hrecords (report_ge hrecords hreport)
  have hboth := recordMatch_ge hfirst (report_ge hrecords hreport')
  have hsame : (node.recordMatch response).matchIndex response'.fromNode =
      node.matchIndex response'.fromNode := by
    rw [recordMatch_matchIndex, Function.update_of_ne hpeers.symm]
  rw [CountsStale, ← counted_iff_accepted hfirst, ← counted_iff_accepted hboth]
  refine ⟨fun hstale => ⟨hstale.1, hstale.2.1⟩, ?_⟩
  rintro ⟨hcounted, hnot⟩
  refine ⟨hcounted, hnot, ?_⟩
  by_contra hfresh
  obtain ⟨entry, hget, hterm, hquorum⟩ := hcounted
  refine hnot ⟨entry, hget, hterm, hquorum.trans ?_⟩
  apply replicaCount_le_recordMatch
  · exact hfirst
  · rw [hsame]
    exact hreport'
  · rw [hsame]
    exact hfresh

/-- The order of two successful replies does not matter exactly if the handler takes both and the
positions that would be accepted on the record -1 of one peer are those that would be on that
of the other. -/
theorem orderFree_iff (hleader : node.state = .leader)
    (hown : response.term = node.currentTerm) (hown' : response'.term = node.currentTerm)
    (hsuccess : response.success = true) (hsuccess' : response'.success = true)
    (hpeers : response.fromNode ≠ response'.fromNode)
    (hrecords : ∀ p index, node.matchIndex p = some index → -1 ≤ index)
    (hreport : (node.matchIndex response.fromNode).getD (-1) ≤ response.lastAppliedIndex)
    (hreport' : (node.matchIndex response'.fromNode).getD (-1) ≤ response'.lastAppliedIndex) :
    node.OrderFree response response' ↔
      response.lastAppliedIndex < i64Max ∧ response'.lastAppliedIndex < i64Max ∧
        ∀ ci : Nat, node.commitIndex < ci →
          (node.CountsStale response response' ci ↔ node.CountsStale response' response ci) := by
  by_cases hmax : i64Max ≤ response.lastAppliedIndex
  · simp [OrderFree, step_overflow hleader hown hsuccess hmax, Int.not_lt.mpr hmax]
  by_cases hmax' : i64Max ≤ response'.lastAppliedIndex
  · simp [OrderFree, step_overflow hleader hown' hsuccess' hmax', Int.not_lt.mpr hmax']
  have hmax := Int.not_le.mp hmax
  have hmax' := Int.not_le.mp hmax'
  rw [orderFree_iff_counted hleader hown hown' hsuccess hsuccess' hmax hmax' hpeers]
  simp only [countsStale_iff hpeers hrecords hreport hreport',
    countsStale_iff hpeers.symm hrecords hreport' hreport, ← recordMatch_comm node hpeers]
  constructor
  · intro hall
    exact ⟨hmax, hmax', fun ci hlt => and_congr_left fun hnot => hall ci hlt hnot⟩
  · rintro ⟨_, _, hall⟩ ci hlt hnot
    exact and_congr_left_iff.mp (hall ci hlt) hnot

theorem orderFree_iff_leadingTwo :
    leadingTwo.OrderFree ⟨"node2", 1, true, 1⟩ ⟨"node3", 1, true, 0⟩ := by
  apply (orderFree_iff rfl rfl rfl rfl rfl (by decide) ?_ (by decide) (by decide)).mpr
  · refine ⟨by decide, by decide, fun ci _ => ?_⟩
    constructor
    · rintro ⟨_, _, hrecord, _⟩
      cases hrecord
    · rintro ⟨_, _, hrecord, _⟩
      cases hrecord
  · intro p index hindex
    cases hindex

def leadingHeard : RaftNode :=
  { leadingTwo with
    nextIndex := Function.update (fun _ => none) "node2" (some 0)
    matchIndex := Function.update (fun _ => none) "node2" (some (-1)) }

/-- The reply of `node3` commits both entries, unless the next one of `node2` comes before it. -/
theorem not_orderFree :
    leadingHeard.state = .leader ∧ leadingHeard.commitIndex < leadingHeard.log.len ∧
      (∀ p index, leadingHeard.matchIndex p = some index → -1 ≤ index) ∧
      (leadingHeard.matchIndex "node3").getD (-1) ≤ 0 ∧
      (leadingHeard.matchIndex "node2").getD (-1) ≤ 0 ∧ 0 < leadingHeard.log.len ∧
      ¬leadingHeard.OrderFree ⟨"node3", 1, true, 0⟩ ⟨"node2", 1, true, 0⟩ := by
  refine ⟨rfl, by decide, ?_, by decide, by decide, by decide, fun h => ?_⟩
  · intro p index hindex
    by_cases hp : p = "node2"
    · rw [hp] at hindex
      cases hindex
      exact Int.le_refl _
    · simp [leadingHeard, Function.update_of_ne hp] at hindex
  · rw [orderFree_iff_counted rfl rfl rfl rfl rfl (by decide) (by decide) (by decide)] at h
    exact absurd (h 1 (by decide) (by decide)) (by decide)

end Order

end RaftNode

/-! ## The records of a run -/

section Run
open Transition
variable {cfg : Config} {h : List (Move Cluster Action)} {c : Cluster}

theorem matchIndex_ge_of_run (run : Run (cluster cfg) h c) (a : NodeId) :
    ∀ p index, (c.node a).matchIndex p = some index → -1 ≤ index := by
  apply run.induct (fun _ c => ∀ p index, (c.node a).matchIndex p = some index → -1 ≤ index)
  · intro p index hindex
    rw [Cluster.cluster_init, Cluster.node_initial] at hindex
    cases hindex
  · intro h c c' act run inv hstep p index hindex
    cases Cluster.record_move hstep a with
    | keep _ hmatch => exact inv p index (hmatch ▸ hindex)
    | record _ _ response _ hphase _ hsuccess _ hmatch =>
      by_cases hp : p = response.fromNode
      · rw [hmatch, hp, Function.update_self] at hindex
        cases hindex
        exact lastAppliedIndex_ge_of_run run hphase hsuccess
      · rw [hmatch, Function.update_of_ne hp] at hindex
        exact inv p index hindex
    | reject _ _ _ _ _ _ _ _ _ _ _ hmatch => exact inv p index (hmatch ▸ hindex)

/-- In a run, the condition that positions are committed on records speaks of records only. -/
theorem countsRecorded_iff (run : Run (cluster cfg) h c) {act : Action} :
    CountsRecorded c act ↔ ∀ x ∈ c.received act, (c.node x.1).state = .leader →
      (c.node x.1).currentTerm = x.2.term → x.2.success = true →
      ∀ ci < (c.node x.1).log.len, (c.node x.1).commitIndex ≤ ci →
        ((c.node x.1).recordMatch x.2).Accepted ci →
        (c.node x.1).quorumSize ≤ ((c.node x.1).recordMatch x.2).recordedCount ci := by
  refine forall₂_congr fun x hx => forall₃_congr fun _ _ hsuccess => ?_
  obtain ⟨_, _, _, hphase⟩ := Cluster.received_cases hx
  have hrecords := RaftNode.recordMatch_ge (matchIndex_ge_of_run run x.1)
    (lastAppliedIndex_ge_of_run run hphase hsuccess)
  simp only [RaftNode.counted_iff_accepted hrecords]

end Run
end Rafting
