import Rafting.AppendContract
import Rafting.Library.ListPrefix
import Rafting.Library.LogProbe

/-! The repair of a follower's log. A leader builds a request from the follower's next index,
the follower handles it, and the leader takes the reply in; a rejection takes the next index
back by one. The rounds are a probe for the place at which the follower's log goes on like
the leader's. -/
namespace Rafting
open ListPrefix
namespace RaftNode

/-- The leader sends to the follower, and hears its reply. -/
def repairRound (leader follower : RaftNode) : RaftResult (RaftNode × RaftNode) := do
  let req ← leader.buildAppendRequestForPeer follower.id
  let (follower, reply) ← follower.step (.appendEntriesRequestEvent req, some .oneshot)
  match reply with
  | none => .ok (leader, follower)
  | some reply => do
    let (leader, _) ← leader.step (reply, none)
    .ok (leader, follower)

def repairRounds (leader follower : RaftNode) : Nat → RaftResult (RaftNode × RaftNode)
  | 0 => .ok (leader, follower)
  | k + 1 => repairRounds leader follower k >>= fun nodes => nodes.1.repairRound nodes.2

/-- No number of rounds panics, and two more rounds than the leader has entries, or fewer,
give the follower the leader's log. -/
def Repairs (leader follower : RaftNode) : Prop :=
  (∀ k, ∃ nodes, leader.repairRounds follower k = .ok nodes) ∧
    ∃ k ≤ leader.log.len + 2, ∃ nodes, leader.repairRounds follower k = .ok nodes ∧
      leader.log.inner <+: nodes.2.log.inner

/-- A leader with entries, and a follower of no newer term whose log matches the leader's. -/
structure Repairing (leader follower : RaftNode) : Prop where
  leads : leader.state = .leader
  follows : follower.state = .follower
  term_le : follower.currentTerm ≤ leader.currentTerm
  nonempty : leader.log.inner ≠ []
  indexed : Indexed leader.log.inner
  followerIndexed : Indexed follower.log.inner
  matching : ∀ (i : Nat) e e', leader.log.get i = some e → follower.log.get i = some e' →
    e.term = e'.term → ∀ j ≤ i, leader.log.get j = follower.log.get j

def sharedLength (leader follower : RaftNode) : Nat :=
  commonLength leader.log.inner follower.log.inner

/-- The follower appends what the leader has from a shared position on: it is the first, or
the leader's entry before it has the term of the follower's last entry. -/
def JoinsAt (leader follower : RaftNode) (n : Nat) : Prop :=
  n = 0 ∨ leader.log.termForIndex (n - 1) = follower.log.lastLogIndexAndTerm.2

/-- From the length that the follower reports on success, the rounds lead to the leader's log. -/
def RepairsFromReport (leader follower : RaftNode) : Prop :=
  follower.log.inner = leader.log.inner ∨ follower.log.len < leader.log.len ∧
    (follower.log.inner <+: leader.log.inner ∨ follower.currentTerm = leader.currentTerm ∧
      leader.JoinsAt follower (leader.sharedLength follower))

/-- The next indices from which the rounds lead to the leader's log. -/
def Repairable (leader follower : RaftNode) (n : Nat) : Prop :=
  if n = leader.log.len then leader.RepairsFromReport follower
  else if n ≤ leader.sharedLength follower then
    leader.JoinsAt follower n ∨ leader.RepairsFromReport follower
  else follower.currentTerm = leader.currentTerm ∧
    leader.JoinsAt follower (leader.sharedLength follower)

instance (leader follower : RaftNode) (n : Nat) : Decidable (leader.JoinsAt follower n) :=
  inferInstanceAs (Decidable (_ ∨ _))

instance (leader follower : RaftNode) : Decidable (leader.RepairsFromReport follower) :=
  inferInstanceAs (Decidable (_ ∨ _ ∧ (_ ∨ _ ∧ _)))

instance (leader follower : RaftNode) (n : Nat) : Decidable (leader.Repairable follower n) :=
  inferInstanceAs (Decidable (if n = leader.log.len then leader.RepairsFromReport follower
    else if n ≤ leader.sharedLength follower then
      leader.JoinsAt follower n ∨ leader.RepairsFromReport follower
    else follower.currentTerm = leader.currentTerm ∧
      leader.JoinsAt follower (leader.sharedLength follower)))

variable {leader follower : RaftNode}

theorem joinsAt_sharedLength (h : leader.sharedLength follower = follower.log.len) :
    leader.JoinsAt follower (leader.sharedLength follower) := by
  rcases follower.log.lastLogIndexAndTerm_cases with ⟨hempty, _⟩ | ⟨hne, last, hget, hlast⟩
  · left
    rw [h, RaftLog.len, hempty]
    rfl
  · right
    obtain ⟨rest, hrest⟩ := commonLength_eq_right_iff.mp h
    have hpos : 0 < follower.log.inner.length := List.length_pos_iff.mpr hne
    have hsame : leader.log.get (leader.sharedLength follower - 1) = some last := by
      rw [h, RaftLog.get, ← hrest, List.getElem?_append_left (by simp only [RaftLog.len]; omega)]
      exact hget
    rw [RaftLog.termForIndex, hsame, hlast]
    rfl

def Repairing.probe (h : Repairing leader follower) : LogProbe.Probe where
  target := leader.log.len
  own := follower.log.len
  common := leader.sharedLength follower
  joins := leader.JoinsAt follower
  heard := follower.currentTerm = leader.currentTerm
  target_pos := List.length_pos_iff.mpr h.nonempty
  common_le_target := commonLength_le_left _ _
  common_le_own := commonLength_le_right _ _
  joins_zero := Or.inl rfl
  joins_own := joinsAt_sharedLength

/-! ## One round -/

structure Stands (leader follower : RaftNode) (nodes : RaftNode × RaftNode) (n : Nat)
    (log : RaftLog) : Prop where
  leaderLog : nodes.1.log = leader.log
  leads : nodes.1.state = .leader
  leaderTerm : nodes.1.currentTerm = leader.currentTerm
  id : nodes.2.id = follower.id
  follows : nodes.2.state = .follower
  followerTerm : nodes.2.currentTerm = follower.currentTerm
  nextIndex : (nodes.1.nextIndex follower.id).getD 0 = n
  followerLog : nodes.2.log = log

theorem exists_build {node : RaftNode} (hindexed : Indexed node.log.inner) {peer : NodeId} {n : Nat}
    (hnext : (node.nextIndex peer).getD 0 = n) (hn : n ≤ node.log.len) :
    ∃ req, node.buildAppendRequestForPeer peer = .ok req ∧ req.term = node.currentTerm ∧
      Vouched node.log.inner req ∧ appendPosition req = n := by
  cases hbuild : node.buildAppendRequestForPeer peer with
  | error fault =>
    have hslice := buildAppendRequestForPeer_error hbuild
    rw [hnext] at hslice
    rcases appendSlice_error_iff.mp hslice with ⟨hmin, _⟩ | ⟨hzero, _, hget, _⟩
    · simp only [i64Min] at hmin
      omega
    · rw [asUsize_of_nonneg (by omega), RaftLog.get, List.getElem?_eq_none_iff] at hget
      simp only [RaftLog.len] at hn
      omega
  | ok req =>
    obtain ⟨prevLogIndex, prevLogTerm, entries, hslice, heq⟩ := buildAppendRequestForPeer_ok hbuild
    rw [hnext] at hslice
    have hvouched : Vouched node.log.inner req :=
      vouched_of_slice hindexed (by simp only [i64Min]; omega) hslice (by rw [heq]) (by rw [heq])
        (by rw [heq])
    have hprev : req.prevLogIndex = n - 1 := by
      rw [heq]
      exact prevLogIndex_of_slice hindexed (Int.natCast_nonneg n) hslice
    have hpos := appendPosition_of_low hvouched.low
    exact ⟨req, rfl, by rw [heq], hvouched, by omega⟩

theorem build_beyond {node : RaftNode} {peer : NodeId} {n : Nat}
    (hnext : (node.nextIndex peer).getD 0 = n) (hn : node.log.len < n) :
    node.buildAppendRequestForPeer peer = .error unwrapNone := by
  have hzero : (n : Int) ≠ 0 := by omega
  have hmin : (n : Int) ≠ i64Min := by
    simp only [i64Min]
    omega
  have hget : node.log.get (asUsize ((n : Int) - 1)) = none := by
    rw [asUsize_of_nonneg (by omega), RaftLog.get, List.getElem?_eq_none_iff]
    simp only [RaftLog.len] at hn
    omega
  rw [buildAppendRequestForPeer, hnext,
    appendSlice_error_iff.mpr (Or.inr ⟨hzero, hmin, hget, rfl⟩)]
  rfl

theorem repairRound_of_build {req : AppendEntriesRequest}
    (hbuild : leader.buildAppendRequestForPeer follower.id = .ok req)
    {response : AppendEntriesResponse}
    (hreply : (follower.stepAppendEntriesRequest req).2 = .appendEntriesResponseEvent response)
    {leader' : RaftNode} (hleader' : leader.stepAppendEntriesResponse response = .ok leader') :
    leader.repairRound follower = .ok (leader', (follower.stepAppendEntriesRequest req).1) := by
  have hfollower : follower.step (.appendEntriesRequestEvent req, some .oneshot) =
      .ok ((follower.stepAppendEntriesRequest req).1,
        some (.appendEntriesResponseEvent response)) := by
    rw [← hreply]
    rfl
  have hleader : leader.step (.appendEntriesResponseEvent response, none) = .ok (leader', none) := by
    simp only [step, hleader']
    rfl
  simp only [repairRound, hbuild, bind, Except.bind, hfollower, hleader]

theorem repairRound_of_reply_error {req : AppendEntriesRequest}
    (hbuild : leader.buildAppendRequestForPeer follower.id = .ok req)
    {response : AppendEntriesResponse}
    (hreply : (follower.stepAppendEntriesRequest req).2 = .appendEntriesResponseEvent response)
    {fault : Fault} (herror : leader.stepAppendEntriesResponse response = .error fault) :
    leader.repairRound follower = .error fault := by
  have hfollower : follower.step (.appendEntriesRequestEvent req, some .oneshot) =
      .ok ((follower.stepAppendEntriesRequest req).1,
        some (.appendEntriesResponseEvent response)) := by
    rw [← hreply]
    rfl
  have hleader : leader.step (.appendEntriesResponseEvent response, none) = .error fault := by
    simp only [step, herror]
    rfl
  simp only [repairRound, hbuild, bind, Except.bind, hfollower, hleader]

theorem repairRound_beyond (hbuild : leader.buildAppendRequestForPeer follower.id = .error unwrapNone) :
    leader.repairRound follower = .error unwrapNone := by
  rw [repairRound, hbuild]
  rfl

section Round
variable {nodes : RaftNode × RaftNode} {n : Nat} {log log' : RaftLog} {req : AppendEntriesRequest}

theorem Stands.accepted (h : Stands leader follower nodes n log)
    (hbuild : nodes.1.buildAppendRequestForPeer nodes.2.id = .ok req)
    (hterm : req.term = nodes.1.currentTerm) (hlog : appendLog log req = some log')
    (hfits : log'.len ≤ i64Max) :
    ∃ nodes', nodes.1.repairRound nodes.2 = .ok nodes' ∧
      Stands leader follower nodes' log'.len log' := by
  have hadopt : nodes.2.adoptTerm req = nodes.2 := if_neg fun hguard => hguard.2 h.follows
  rcases stepAppendEntriesRequest_cases nodes.2 req with ⟨hnone, _⟩ | ⟨log'', hsome, heq⟩
  · rw [h.followerLog, hlog] at hnone
    cases hnone
  · rw [h.followerLog, hlog] at hsome
    cases hsome
    have hreply := congrArg Prod.snd heq
    have hleader : nodes.1.stepAppendEntriesResponse ⟨nodes.2.id, req.term, true,
        log'.lastLogIndex⟩ = .ok _ :=
      stepAppendEntriesResponse_success h.leads hterm.symm rfl
        (by simp only [RaftLog.lastLogIndex]; omega)
    refine ⟨_, repairRound_of_build hbuild hreply hleader, ?_⟩
    obtain ⟨index, hloop⟩ := commitLoop_eq (nodes.1.recordMatch ⟨nodes.2.id, req.term, true,
      log'.lastLogIndex⟩)
    rw [hloop, heq, hadopt]
    refine ⟨h.leaderLog, h.leads, h.leaderTerm, h.id, h.follows, h.followerTerm, ?_, rfl⟩
    simp [recordMatch, h.id, RaftLog.lastLogIndex]

theorem Stands.overflow (h : Stands leader follower nodes n log)
    (hbuild : nodes.1.buildAppendRequestForPeer nodes.2.id = .ok req)
    (hterm : req.term = nodes.1.currentTerm) (hlog : appendLog log req = some log')
    (hlong : i64Max < log'.len) : nodes.1.repairRound nodes.2 = .error addOverflow := by
  rcases stepAppendEntriesRequest_cases nodes.2 req with ⟨hnone, _⟩ | ⟨log'', hsome, heq⟩
  · rw [h.followerLog, hlog] at hnone
    cases hnone
  · rw [h.followerLog, hlog] at hsome
    cases hsome
    exact repairRound_of_reply_error hbuild (congrArg Prod.snd heq)
      (stepAppendEntriesResponse_error_iff.mpr ⟨h.leads, hterm.symm,
        Or.inl ⟨rfl, by simp only [RaftLog.lastLogIndex]; omega, rfl⟩⟩)

theorem Stands.refused (h : Stands leader follower nodes n log) (hpos : 0 < n)
    (hle : follower.currentTerm ≤ leader.currentTerm)
    (hbuild : nodes.1.buildAppendRequestForPeer nodes.2.id = .ok req)
    (hlog : appendLog log req = none) :
    ∃ nodes', nodes.1.repairRound nodes.2 = .ok nodes' ∧
      (follower.currentTerm = leader.currentTerm → Stands leader follower nodes' (n - 1) log) ∧
      (follower.currentTerm ≠ leader.currentTerm → Stands leader follower nodes' n log) := by
  have hadopt : nodes.2.adoptTerm req = nodes.2 := if_neg fun hguard => hguard.2 h.follows
  rcases stepAppendEntriesRequest_cases nodes.2 req with ⟨_, heq⟩ | ⟨_, hsome, _⟩
  rotate_left
  · rw [h.followerLog, hlog] at hsome
    cases hsome
  have hreply := congrArg Prod.snd heq
  rw [hadopt] at hreply
  by_cases hown : follower.currentTerm = leader.currentTerm
  · have hrecorded : nodes.1.nextIndex follower.id = some (n : Int) := by
      have hnext := h.nextIndex
      cases hindex : nodes.1.nextIndex follower.id with
      | none =>
        rw [hindex] at hnext
        simp only [Option.getD_none] at hnext
        omega
      | some index =>
        rw [hindex] at hnext
        exact congrArg some hnext
    have hleader : nodes.1.stepAppendEntriesResponse ⟨nodes.2.id, nodes.2.currentTerm, false,
        nodes.2.lastAppliedIndex - 1⟩ = .ok _ :=
      stepAppendEntriesResponse_reject h.leads (by rw [h.leaderTerm, h.followerTerm, hown]) rfl
        (by rw [h.id]; exact hrecorded) (by simp only [i64Min]; omega)
    refine ⟨_, repairRound_of_build hbuild hreply hleader, fun _ => ?_, fun hne => absurd hown hne⟩
    rw [heq, hadopt]
    refine ⟨h.leaderLog, h.leads, h.leaderTerm, h.id, h.follows, h.followerTerm, ?_, h.followerLog⟩
    simp only [h.id, Function.update_self, Option.getD_some]
    omega
  · have holder : nodes.2.currentTerm < nodes.1.currentTerm := by
      rw [h.leaderTerm, h.followerTerm]
      exact Int.lt_iff_le_and_ne.mpr ⟨hle, hown⟩
    have hleader : nodes.1.stepAppendEntriesResponse ⟨nodes.2.id, nodes.2.currentTerm, false,
        nodes.2.lastAppliedIndex - 1⟩ = .ok _ :=
      stepAppendEntriesResponse_older holder
    refine ⟨_, repairRound_of_build hbuild hreply hleader, fun heq => absurd heq hown, fun _ => ?_⟩
    rw [heq, hadopt]
    exact h

end Round

/-! ## What the follower does with a request from a position on -/

section Position
variable {req : AppendEntriesRequest} {n : Nat}

theorem appendLog_at_end {log : RaftLog} (hvouched : Vouched leader.log.inner req)
    (hpos : appendPosition req = leader.log.len) : appendLog log req = some log := by
  apply if_pos
  rw [hvouched.entries, hpos]
  exact List.drop_length

theorem entries_ne_nil (hvouched : Vouched leader.log.inner req) (hpos : appendPosition req = n)
    (hn : n < leader.log.len) : req.entries ≠ [] := by
  rw [hvouched.entries, hpos]
  exact List.ne_nil_of_length_pos (by simp only [List.length_drop, RaftLog.len] at hn ⊢; omega)

theorem previous_entry (hvouched : Vouched leader.log.inner req) (hpos : appendPosition req = n)
    (hn : 0 < n) : req.prevLogIndex = n - 1 ∧
      ∃ e, leader.log.get (n - 1) = some e ∧ e.term = req.prevLogTerm := by
  have hprev := appendPosition_of_low hvouched.low
  obtain ⟨e, he, hterm⟩ := hvouched.previous (by omega)
  have hindex : req.prevLogIndex.toNat = n - 1 := by omega
  exact ⟨by omega, e, hindex ▸ he, hterm⟩

theorem Repairing.le_sharedLength_iff (h : Repairing leader follower)
    (hvouched : Vouched leader.log.inner req) (hpos : appendPosition req = n) (hn : 0 < n)
    (hlen : n ≤ leader.log.len) :
    n ≤ leader.sharedLength follower ↔ ¬Overreaches follower.log req := by
  obtain ⟨hprev, e, he, hterm⟩ := previous_entry hvouched hpos hn
  rw [sharedLength, le_commonLength_iff, ← consistent_iff_not_overreaches (by omega)]
  constructor
  · rintro ⟨_, hlow, htake⟩
    refine Or.inr ⟨by omega, by simp only [RaftLog.lastLogIndex, RaftLog.len]; omega, e, ?_, hterm⟩
    have hindex : req.prevLogIndex.toNat = n - 1 := by omega
    rw [Option.mem_def, hindex, RaftLog.get, ← List.getElem?_take_of_lt (show n - 1 < n by omega),
      ← htake, List.getElem?_take_of_lt (by omega)]
    exact he
  · rintro (hfirst | ⟨_, hle, e', he', hterm'⟩)
    · omega
    · have hindex : req.prevLogIndex.toNat = n - 1 := by omega
      rw [Option.mem_def, hindex] at he'
      obtain ⟨hlt, _⟩ := List.getElem?_eq_some_iff.mp he'
      refine ⟨hlen, by omega, ?_⟩
      apply List.ext_getElem?
      intro j
      by_cases hj : j < n
      · rw [List.getElem?_take_of_lt hj, List.getElem?_take_of_lt hj]
        exact h.matching (n - 1) e e' he he' (hterm.trans hterm'.symm) j (by omega)
      · rw [List.getElem?_take_eq_none (by omega), List.getElem?_take_eq_none (by omega)]

theorem Repairing.appendLog_above (h : Repairing leader follower)
    (hvouched : Vouched leader.log.inner req) (hpos : appendPosition req = n)
    (hn : n < leader.log.len) (hlt : leader.sharedLength follower < n) :
    appendLog follower.log req = none := by
  have hprev := (previous_entry hvouched hpos (by omega)).1
  refine (appendLog_eq_none_iff _ _).mpr ⟨entries_ne_nil hvouched hpos hn, by omega, ?_⟩
  by_contra hover
  have hle := (h.le_sharedLength_iff hvouched hpos (by omega) (by omega)).mpr hover
  omega

theorem Repairing.appendLog_shared (h : Repairing leader follower)
    (hvouched : Vouched leader.log.inner req) (hpos : appendPosition req = n)
    (hn : n < leader.log.len) (hle : n ≤ leader.sharedLength follower) :
    (leader.JoinsAt follower n → appendLog follower.log req = some leader.log) ∧
      (¬leader.JoinsAt follower n → appendLog follower.log req = some follower.log) := by
  have hne := entries_ne_nil hvouched hpos hn
  have happends : Appends follower.log req ↔ leader.JoinsAt follower n := by
    by_cases hzero : n = 0
    · have hlow := appendPosition_of_low hvouched.low
      have hfirst : req.prevLogIndex = -1 := by omega
      simp [Appends, JoinsAt, hne, hfirst, hzero]
    · obtain ⟨hprev, e, he, hterm⟩ := previous_entry hvouched hpos (by omega)
      have hnot := (h.le_sharedLength_iff hvouched hpos (by omega) (by omega)).mp hle
      have hinside : req.prevLogIndex ≤ follower.log.lastLogIndexAndTerm.1 := by
        apply le_lastLogIndexAndTerm h.followerIndexed (by omega)
        simp only [Overreaches] at hnot
        omega
      have hfirst : req.prevLogIndex ≠ -1 := by omega
      have hjoins : leader.log.termForIndex (n - 1) = req.prevLogTerm := by
        rw [RaftLog.termForIndex, he]
        exact hterm
      simp [Appends, JoinsAt, hne, hfirst, hzero, hnot, hinside, hjoins]
  rcases appendLog_cases follower.log req with ⟨_, _, hfirst, hover, _⟩ | ⟨heq, hnot⟩ | ⟨heq, hyes⟩
  · have hlow := appendPosition_of_low hvouched.low
    have hcheck := (h.le_sharedLength_iff hvouched hpos (by omega) (by omega)).mp hle
    exact absurd hover hcheck
  · exact ⟨fun hjoins => absurd (happends.mpr hjoins) hnot, fun _ => heq⟩
  · refine ⟨fun _ => ?_, fun hjoins => absurd (happends.mp hyes) hjoins⟩
    obtain ⟨_, _, htake⟩ := le_commonLength_iff.mp hle
    rw [heq, RaftLog.appendAllFrom, hpos, ← htake, hvouched.entries, hpos, List.take_append_drop]

end Position

/-! ## Rounds -/

def Tracks (leader follower : RaftNode) (nodes : RaftNode × RaftNode) : LogProbe.State → Prop
  | .next n => Stands leader follower nodes n follower.log
  | .joined => Stands leader follower nodes leader.log.len leader.log
  | .lost => False

theorem Stands.exists_build {nodes : RaftNode × RaftNode} {n : Nat} {log : RaftLog}
    (h : Stands leader follower nodes n log) (hindexed : Indexed leader.log.inner)
    (hn : n ≤ leader.log.len) :
    ∃ req, nodes.1.buildAppendRequestForPeer nodes.2.id = .ok req ∧
      req.term = nodes.1.currentTerm ∧ Vouched leader.log.inner req ∧ appendPosition req = n := by
  rw [← h.leaderLog] at hindexed hn ⊢
  exact RaftNode.exists_build hindexed (by rw [h.id]; exact h.nextIndex) hn

theorem Stands.joined {nodes : RaftNode × RaftNode} {n : Nat} {log : RaftLog}
    {req : AppendEntriesRequest} (h : Stands leader follower nodes n log)
    (hbuild : nodes.1.buildAppendRequestForPeer nodes.2.id = .ok req)
    (hterm : req.term = nodes.1.currentTerm) (hlog : appendLog log req = some leader.log) :
    (i64Max < leader.log.len ∧ ∃ fault, nodes.1.repairRound nodes.2 = .error fault) ∨
      ∃ nodes', nodes.1.repairRound nodes.2 = .ok nodes' ∧
        Tracks leader follower nodes' .joined := by
  by_cases hfits : leader.log.len ≤ i64Max
  · exact Or.inr (h.accepted hbuild hterm hlog hfits)
  · exact Or.inl ⟨by omega, _, h.overflow hbuild hterm hlog (by omega)⟩

theorem Repairing.held (h : Repairing leader follower) {nodes : RaftNode × RaftNode} {n : Nat}
    {req : AppendEntriesRequest} (hstands : Stands leader follower nodes n follower.log)
    (hbuild : nodes.1.buildAppendRequestForPeer nodes.2.id = .ok req)
    (hterm : req.term = nodes.1.currentTerm) (hlog : appendLog follower.log req = some follower.log) :
    ((h.probe.step (.next follower.log.len) = .lost ∨ i64Max < leader.log.len) ∧
        ∃ fault, nodes.1.repairRound nodes.2 = .error fault) ∨
      ∃ nodes', nodes.1.repairRound nodes.2 = .ok nodes' ∧
        Tracks leader follower nodes' (.next follower.log.len) := by
  by_cases hfits : follower.log.len ≤ i64Max
  · exact Or.inr (hstands.accepted hbuild hterm hlog hfits)
  · refine Or.inl ⟨?_, _, hstands.overflow hbuild hterm hlog (by omega)⟩
    by_cases hshort : leader.log.len < follower.log.len
    · exact Or.inl (h.probe.step_beyond hshort)
    · exact Or.inr (by omega)

/-- A round is a step of the probe. It panics where the probe is lost, also one step ahead, or
where the leader's log is too long. -/
theorem Repairing.round (h : Repairing leader follower) {nodes : RaftNode × RaftNode}
    {s : LogProbe.State} (htracks : Tracks leader follower nodes s) :
    ((h.probe.step (h.probe.step s) = .lost ∨ i64Max < leader.log.len) ∧
        ∃ fault, nodes.1.repairRound nodes.2 = .error fault) ∨
      ∃ nodes', nodes.1.repairRound nodes.2 = .ok nodes' ∧
        Tracks leader follower nodes' (h.probe.step s) := by
  cases s with
  | lost => exact htracks.elim
  | joined =>
    obtain ⟨req, hbuild, hterm, hvouched, hpos⟩ :=
      Stands.exists_build htracks h.indexed (Nat.le_refl _)
    exact (Stands.joined htracks hbuild hterm (appendLog_at_end hvouched hpos)).imp_left
      (And.imp_left Or.inr)
  | next n =>
    rcases Nat.lt_trichotomy n leader.log.len with hlt | rfl | hgt
    · obtain ⟨req, hbuild, hterm, hvouched, hpos⟩ :=
        Stands.exists_build htracks h.indexed (Nat.le_of_lt hlt)
      by_cases hle : n ≤ leader.sharedLength follower
      · obtain ⟨hyes, hno⟩ := h.appendLog_shared hvouched hpos hlt hle
        by_cases hjoins : leader.JoinsAt follower n
        · rw [h.probe.step_join hlt hle hjoins]
          exact (Stands.joined htracks hbuild hterm (hyes hjoins)).imp_left (And.imp_left Or.inr)
        · rw [h.probe.step_held hlt hle hjoins]
          exact h.held htracks hbuild hterm (hno hjoins)
      · have hbelow : leader.sharedLength follower < n := by omega
        obtain ⟨nodes', hround, hheard, hunheard⟩ := Stands.refused htracks (by omega) h.term_le
          hbuild (h.appendLog_above hvouched hpos hlt hbelow)
        refine Or.inr ⟨nodes', hround, ?_⟩
        by_cases hown : follower.currentTerm = leader.currentTerm
        · rw [h.probe.step_refused hlt hbelow hown]
          exact hheard hown
        · rw [h.probe.step_unheard hlt hbelow hown]
          exact hunheard hown
    · obtain ⟨req, hbuild, hterm, hvouched, hpos⟩ :=
        Stands.exists_build htracks h.indexed (Nat.le_refl _)
      have hstep : h.probe.step (.next leader.log.len) = .next follower.log.len :=
        h.probe.step_target
      rw [hstep]
      exact h.held htracks hbuild hterm (appendLog_at_end hvouched hpos)
    · left
      refine ⟨Or.inl ?_, unwrapNone, repairRound_beyond ?_⟩
      · rw [h.probe.step_beyond hgt]
        rfl
      have hnext := htracks.nextIndex
      rw [← htracks.id] at hnext
      exact build_beyond hnext (by rw [htracks.leaderLog]; exact hgt)

theorem Repairing.rounds (h : Repairing leader follower) {n : Nat}
    (hnext : (leader.nextIndex follower.id).getD 0 = n) (k : Nat) :
    ((h.probe.step^[k + 1] (.next n) = .lost ∨ i64Max < leader.log.len) ∧
        ∃ fault, leader.repairRounds follower k = .error fault) ∨
      ∃ nodes, leader.repairRounds follower k = .ok nodes ∧
        Tracks leader follower nodes (h.probe.step^[k] (.next n)) := by
  induction k with
  | zero => exact Or.inr ⟨_, rfl, rfl, h.leads, rfl, rfl, h.follows, rfl, hnext, rfl⟩
  | succ k ih =>
    rw [Function.iterate_succ_apply', Function.iterate_succ_apply', repairRounds]
    rcases ih with ⟨hlost, fault, hfault⟩ | ⟨nodes, hnodes, htracks⟩
    · rw [hfault]
      refine Or.inl ⟨hlost.imp_left fun hlost => ?_, fault, rfl⟩
      rw [Function.iterate_succ_apply'] at hlost
      rw [hlost]
      rfl
    · rw [hnodes]
      exact h.round htracks

theorem Repairing.tracks (h : Repairing leader follower) {n : Nat}
    (hnext : (leader.nextIndex follower.id).getD 0 = n) {k : Nat} {nodes : RaftNode × RaftNode}
    (hnodes : leader.repairRounds follower k = .ok nodes) :
    Tracks leader follower nodes (h.probe.step^[k] (.next n)) := by
  rcases h.rounds hnext k with ⟨_, fault, hfault⟩ | ⟨nodes', hok, htracks⟩
  · rw [hnodes] at hfault
    cases hfault
  · rw [hnodes] at hok
    cases hok
    exact htracks

/-- No log that is too long is ever repaired: the reply to the leader's last entry panics. -/
theorem Repairing.fits (h : Repairing leader follower) {n : Nat}
    (hnext : (leader.nextIndex follower.id).getD 0 = n) (hrepairs : leader.Repairs follower) :
    leader.log.len ≤ i64Max := by
  by_contra hlong
  obtain ⟨hsafe, k, _, nodes, hnodes, hpre⟩ := hrepairs
  obtain ⟨nodes', hround⟩ := hsafe (k + 1)
  rw [repairRounds, hnodes] at hround
  have hround : nodes.1.repairRound nodes.2 = .ok nodes' := hround
  have hpanics : ∀ {log' : RaftLog} {m : Nat} {req : AppendEntriesRequest},
      Stands leader follower nodes m nodes.2.log →
      nodes.1.buildAppendRequestForPeer nodes.2.id = .ok req → req.term = nodes.1.currentTerm →
      appendLog nodes.2.log req = some log' → leader.log.len ≤ log'.len → False := by
    intro log' m req hstands hbuild hterm hlog hle
    rw [hstands.overflow hbuild hterm hlog (by omega)] at hround
    cases hround
  have htracks := h.tracks hnext hnodes
  cases hstate : h.probe.step^[k] (.next n) with
  | lost =>
    rw [hstate] at htracks
    exact htracks
  | joined =>
    rw [hstate] at htracks
    obtain ⟨req, hbuild, hterm, hvouched, hpos⟩ :=
      Stands.exists_build htracks h.indexed (Nat.le_refl _)
    have hlog : nodes.2.log = leader.log := htracks.followerLog
    rw [hlog] at hpanics
    exact hpanics htracks hbuild hterm (appendLog_at_end hvouched hpos) (Nat.le_refl _)
  | next m =>
    rw [hstate] at htracks
    have hlog : nodes.2.log = follower.log := htracks.followerLog
    rw [hlog] at hpre hpanics
    by_cases hm : m ≤ leader.log.len
    · obtain ⟨req, hbuild, hterm, hvouched, hpos⟩ := Stands.exists_build htracks h.indexed hm
      rcases Nat.lt_or_eq_of_le hm with hlt | heq
      · have hshared : m ≤ leader.sharedLength follower := by
          rw [sharedLength, commonLength_eq_left_iff.mpr hpre]
          exact hm
        obtain ⟨hyes, hno⟩ := h.appendLog_shared hvouched hpos hlt hshared
        by_cases hjoins : leader.JoinsAt follower m
        · exact hpanics htracks hbuild hterm (hyes hjoins) (Nat.le_refl _)
        · exact hpanics htracks hbuild hterm (hno hjoins) hpre.length_le
      · exact hpanics htracks hbuild hterm (appendLog_at_end hvouched (hpos.trans heq))
          hpre.length_le
    · have hindex := htracks.nextIndex
      rw [← htracks.id] at hindex
      rw [repairRound_beyond (build_beyond hindex (by rw [htracks.leaderLog]; omega))] at hround
      cases hround

theorem Repairing.repairs_iff_settles (h : Repairing leader follower) {n : Nat}
    (hnext : (leader.nextIndex follower.id).getD 0 = n) (hfits : leader.log.len ≤ i64Max) :
    leader.Repairs follower ↔ (∀ k, h.probe.step^[k] (.next n) ≠ .lost) ∧
      (h.probe.common = h.probe.target ∨
        ∃ k ≤ h.probe.target + 2, h.probe.step^[k] (.next n) = .joined) := by
  have hcommon : h.probe.common = h.probe.target ↔ leader.log.inner <+: follower.log.inner :=
    commonLength_eq_left_iff
  constructor
  · rintro ⟨hsafe, k, hk, nodes, hnodes, hpre⟩
    refine ⟨fun k' hlost => ?_, ?_⟩
    · obtain ⟨nodes', hok⟩ := hsafe k'
      have htracks := h.tracks hnext hok
      rw [hlost] at htracks
      exact htracks
    · have htracks := h.tracks hnext hnodes
      cases hstate : h.probe.step^[k] (.next n) with
      | lost =>
        rw [hstate] at htracks
        exact htracks.elim
      | joined => exact Or.inr ⟨k, hk, hstate⟩
      | next m =>
        -- the follower's log has not changed, and so it begins with the leader's
        rw [hstate] at htracks
        rw [htracks.followerLog] at hpre
        exact Or.inl (hcommon.mpr hpre)
  · rintro ⟨hsafe, hend⟩
    have hok : ∀ k, ∃ nodes, leader.repairRounds follower k = .ok nodes ∧
        Tracks leader follower nodes (h.probe.step^[k] (.next n)) := by
      intro k
      rcases h.rounds hnext k with ⟨hlost | hlong, _⟩ | hok
      · exact absurd hlost (hsafe (k + 1))
      · omega
      · exact hok
    refine ⟨fun k => (hok k).imp fun _ h => h.1, ?_⟩
    rcases hend with hpre | ⟨k, hk, hjoined⟩
    · exact ⟨0, Nat.zero_le _, _, rfl, hcommon.mp hpre⟩
    · obtain ⟨nodes, hnodes, htracks⟩ := hok k
      rw [hjoined] at htracks
      refine ⟨k, hk, nodes, hnodes, ?_⟩
      exact htracks.followerLog ▸ List.prefix_refl _

theorem Repairing.repairsFromReport_iff (h : Repairing leader follower) :
    leader.RepairsFromReport follower ↔ h.probe.Recovers ∨
      h.probe.common = h.probe.target ∧ h.probe.own = h.probe.target := by
  have hleader : h.probe.common = h.probe.target ↔ leader.log.inner <+: follower.log.inner :=
    commonLength_eq_left_iff
  have hfollower : h.probe.common = h.probe.own ↔ follower.log.inner <+: leader.log.inner :=
    commonLength_eq_right_iff
  have hsame : h.probe.common = h.probe.target ∧ h.probe.own = h.probe.target ↔
      follower.log.inner = leader.log.inner := by
    rw [hleader]
    constructor
    · rintro ⟨hpre, hlen⟩
      exact (hpre.eq_of_length hlen.symm).symm
    · intro heq
      exact ⟨heq ▸ List.prefix_refl _, congrArg List.length heq⟩
  rw [hsame, LogProbe.Probe.Recovers, hfollower, or_comm]
  rfl

theorem Repairing.repairable_iff_heals (h : Repairing leader follower) {n : Nat}
    (hn : n ≤ leader.log.len) :
    leader.Repairable follower n ↔ h.probe.Heals (.next n) ∨
      h.probe.common = h.probe.target ∧ h.probe.own = h.probe.target := by
  unfold Repairable
  split
  · rename_i hend
    obtain rfl : n = h.probe.target := hend
    rw [h.probe.heals_target, h.repairsFromReport_iff]
  · have hlt : n < h.probe.target := Nat.lt_of_le_of_ne hn ‹_›
    split
    · rename_i hle
      rw [h.probe.heals_held hlt hle, h.repairsFromReport_iff, or_assoc]
      rfl
    · rename_i hle
      have hbelow : h.probe.common < n := Nat.lt_of_not_le hle
      have hnot : ¬(h.probe.common = h.probe.target ∧ h.probe.own = h.probe.target) := by omega
      rw [h.probe.heals_above hlt hbelow, or_iff_left hnot]
      rfl

/-- The rounds repair a follower's log exactly from the repairable next indices, if the length of
the leader's log is an `i64`. -/
theorem repairs_iff (h : Repairing leader follower) {n : Nat}
    (hnext : (leader.nextIndex follower.id).getD 0 = n) (hn : n ≤ leader.log.len) :
    leader.Repairs follower ↔ leader.log.len ≤ i64Max ∧ leader.Repairable follower n := by
  by_cases hfits : leader.log.len ≤ i64Max
  · rw [h.repairs_iff_settles hnext hfits, h.repairable_iff_heals hn, h.probe.settles_iff hn]
    exact (and_iff_right hfits).symm
  · exact iff_of_false (fun hrepairs => hfits (h.fits hnext hrepairs)) fun hboth => hfits hboth.1

/-- A leader of term 2 with entries of terms 1 and 2. -/
def leadingSecond : RaftNode :=
  { new "node1" ["node2", "node3"] 7 with
    currentTerm := 2
    log := ⟨[⟨0, 1, "test1"⟩, ⟨1, 2, "test2"⟩, ⟨2, 2, "test3"⟩]⟩
    nextIndex := Function.update (fun _ => none) "node2" (some 2)
    state := .leader }

/-- A follower that has only the first of these entries, in the term of its own. -/
def laggingAt (term : Int) : RaftNode :=
  { new "node2" ["node1", "node3"] 7 with
    currentTerm := term
    log := ⟨[⟨0, 1, "test1"⟩]⟩ }

theorem repairing_laggingAt {term : Int} (hle : term ≤ 2) :
    Repairing leadingSecond (laggingAt term) where
  leads := rfl
  follows := rfl
  term_le := hle
  nonempty := by decide
  indexed := Indexed.concat (V := [⟨0, 1, "test1"⟩, ⟨1, 2, "test2"⟩])
    (Indexed.concat (V := [⟨0, 1, "test1"⟩]) (Indexed.concat indexed_nil rfl) rfl) rfl
  followerIndexed := Indexed.concat indexed_nil rfl
  matching := by
    intro i e e' _ he' _ j hj
    obtain ⟨hlt, _⟩ := List.getElem?_eq_some_iff.mp he'
    obtain rfl : j = 0 := by
      simp only [laggingAt, List.length_singleton] at hlt
      omega
    rfl

/-- In the leader's term, the follower is one step behind its next index, and is repaired. -/
theorem repairs_iff_laggingAt : leadingSecond.Repairs (laggingAt 2) := by
  apply (repairs_iff (n := 2) (repairing_laggingAt (Int.le_refl 2)) rfl (by decide)).mpr
  decide

/-- In the term before, its rejections are not heard. -/
theorem not_repairs : Repairing leadingSecond (laggingAt 1) ∧
    leadingSecond.nextIndex (laggingAt 1).id = some 2 ∧ 2 ≤ leadingSecond.log.len ∧
    ¬leadingSecond.Repairs (laggingAt 1) := by
  have h : Repairing leadingSecond (laggingAt 1) := repairing_laggingAt (by decide)
  refine ⟨h, rfl, by decide, fun hrepairs => ?_⟩
  have hsettles := (h.repairs_iff_settles (n := 2) rfl (by decide)).mp hrepairs
  have hn : 2 ≤ leadingSecond.log.len := by decide
  rw [h.probe.settles_iff hn, ← h.repairable_iff_heals hn] at hsettles
  exact absurd hsettles (by decide)

end RaftNode
end Rafting
