import Rafting.LogIntegrity

/-! What the handler of `AppendEntries` does with a request: which requests succeed, and
what a request of an older term leaves behind. A request succeeds whose previous entry is
there; its entries go into the log only if the log's last entry is of the same term. -/
namespace Rafting
namespace RaftNode

/-- The consistency check as a request means it: it starts at the first position, or the
log has the entry before it. -/
def Consistent (log : RaftLog) (req : AppendEntriesRequest) : Prop :=
  req.prevLogIndex = -1 ∨ 0 ≤ req.prevLogIndex ∧ req.prevLogIndex ≤ log.lastLogIndex ∧
    ∃ e ∈ log.get req.prevLogIndex.toNat, e.term = req.prevLogTerm

/-- The reply tells whether the request is consistent with the log; the log then goes on
with the request's entries, and otherwise nothing has changed. -/
def ChecksAndAppends (node : RaftNode) (req : AppendEntriesRequest) : Prop :=
  ∃ node' response, node.step (.appendEntriesRequestEvent req, some .oneshot) =
      .ok (node', some (.appendEntriesResponseEvent response)) ∧
    (response.success = true ↔ Consistent node.log req) ∧
    (response.success = true →
      node'.log.inner.take (req.prevLogIndex + 1 + req.entries.length).toNat =
        node.log.inner.take (req.prevLogIndex + 1).toNat ++ req.entries) ∧
    (response.success = false →
      node'.log = node.log ∧ node'.commitIndex = node.commitIndex)

/-- The request is refused, in the node's own term, and changes nothing, and the reply
deposes a leader that sent it. -/
def RefusesStale (node : RaftNode) (req : AppendEntriesRequest) : Prop :=
  ∃ node' response, node.step (.appendEntriesRequestEvent req, some .oneshot) =
      .ok (node', some (.appendEntriesResponseEvent response)) ∧
    response.success = false ∧ response.term = node.currentTerm ∧
    node'.log = node.log ∧ node'.commitIndex = node.commitIndex ∧
    node'.currentTerm = node.currentTerm ∧ node'.votedFor = node.votedFor ∧
    node'.state = node.state ∧
    node'.elapsedTicksSinceLastHeartbeat = node.elapsedTicksSinceLastHeartbeat ∧
    ∀ sender : RaftNode, sender.state = .leader → sender.currentTerm = req.term →
      ∃ sender', sender.step (.appendEntriesResponseEvent response, none) = .ok (sender', none) ∧
        sender'.state = .follower ∧ sender'.currentTerm = node.currentTerm

section
variable {node node' : RaftNode} {req : AppendEntriesRequest} {response : AppendEntriesResponse}

theorem step_append_cases
    (h : node.step (.appendEntriesRequestEvent req, some .oneshot) =
      .ok (node', some (.appendEntriesResponseEvent response))) :
    (appendLog node.log req = none ∧ response.success = false ∧
      response.term = (node.adoptTerm req).currentTerm ∧ node' = node.adoptTerm req) ∨
    (response.success = true ∧ response.term = req.term ∧
      appendLog node.log req = some node'.log) := by
  simp only [step, Except.ok.injEq, Prod.mk.injEq, Option.some.injEq] at h
  obtain ⟨rfl, hreply⟩ := h
  rcases stepAppendEntriesRequest_cases node req with ⟨hlog, heq⟩ | ⟨log, hlog, heq⟩
  · rw [heq] at hreply ⊢
    cases hreply
    exact Or.inl ⟨hlog, rfl, rfl, rfl⟩
  · rw [heq] at hreply ⊢
    cases hreply
    exact Or.inr ⟨rfl, rfl, hlog⟩

theorem exists_step_append (node : RaftNode) (req : AppendEntriesRequest) :
    ∃ node' response, node.step (.appendEntriesRequestEvent req, some .oneshot) =
      .ok (node', some (.appendEntriesResponseEvent response)) := by
  rcases stepAppendEntriesRequest_cases node req with ⟨_, heq⟩ | ⟨_, _, heq⟩
  · exact ⟨_, _, by simp only [step, heq]; rfl⟩
  · exact ⟨_, _, by simp only [step, heq]; rfl⟩

theorem consistent_iff_not_overreaches {log : RaftLog} (hlow : 0 ≤ req.prevLogIndex) :
    Consistent log req ↔ ¬Overreaches log req := by
  simp only [Consistent, Overreaches, asUsize_of_nonneg hlow, RaftLog.termForIndex]
  constructor
  · rintro (hfirst | ⟨_, hle, e, he, hterm⟩) hover
    · omega
    · rw [Option.mem_def] at he
      simp only [he, Option.map_some, Option.getD_some] at hover
      omega
  · intro hover
    have hle : req.prevLogIndex ≤ log.lastLogIndex := by omega
    have hlast : log.lastLogIndex = (log.inner.length : Int) - 1 := rfl
    obtain ⟨e, he⟩ : ∃ e, log.get req.prevLogIndex.toNat = some e :=
      ⟨_, List.getElem?_eq_getElem (by omega)⟩
    refine Or.inr ⟨hlow, hle, e, he, ?_⟩
    simp only [he, Option.map_some, Option.getD_some] at hover
    omega

theorem le_lastLogIndexAndTerm {log : RaftLog} (hindexed : Indexed log.inner) {index : Int}
    (hlow : 0 ≤ index) (hle : index ≤ log.lastLogIndex) : index ≤ log.lastLogIndexAndTerm.1 := by
  simp only [RaftLog.lastLogIndex] at hle
  rcases log.lastLogIndexAndTerm_cases with ⟨hempty, _⟩ | ⟨_, last, hget, hlast⟩
  · rw [RaftLog.len, hempty] at hle
    simp only [List.length_nil] at hle
    omega
  · have hindex := hindexed _ _ hget
    simp only [hlast]
    omega

/-! ## The consistency check -/

theorem take_log_iff {log : RaftLog} (hindexed : Indexed log.inner) (hne : req.entries ≠ [])
    (hlow : 0 ≤ req.prevLogIndex) (hconsistent : Consistent log req) :
    ((appendLog log req).getD log).inner.take (req.prevLogIndex + 1 + req.entries.length).toNat =
        log.inner.take (req.prevLogIndex + 1).toNat ++ req.entries ↔
      req.prevLogTerm = log.lastLogIndexAndTerm.2 ∨
        req.entries <+: log.inner.drop (req.prevLogIndex.toNat + 1) := by
  have hover := (consistent_iff_not_overreaches hlow).mp hconsistent
  have hle : req.prevLogIndex ≤ log.lastLogIndex := by
    simp only [Overreaches] at hover
    omega
  have hlast : log.lastLogIndex = (log.inner.length : Int) - 1 := rfl
  obtain ⟨n, hn⟩ : ∃ n : Nat, req.prevLogIndex + 1 = n ∧ req.prevLogIndex.toNat + 1 = n ∧
      n ≤ log.inner.length := ⟨req.prevLogIndex.toNat + 1, by omega, rfl, by omega⟩
  have hcut : (req.prevLogIndex + 1 + req.entries.length).toNat = n + req.entries.length := by omega
  rw [hcut, hn.1, hn.2.1, Int.toNat_natCast]
  have hpos : appendPosition req = n := by
    have hnext := appendPosition_of_low (show -1 ≤ req.prevLogIndex by omega)
    omega
  rw [appendLog_getD]
  by_cases hterm : req.prevLogTerm = log.lastLogIndexAndTerm.2
  · have happends : Appends log req :=
      ⟨hne, Or.inr ⟨hover, le_lastLogIndexAndTerm hindexed hlow hle, hterm⟩⟩
    rw [if_pos happends, hpos]
    simp only [hterm, true_or, iff_true, RaftLog.appendAllFrom]
    rw [List.take_of_length_le]
    simp only [List.length_append, List.length_take]
    omega
  · have hnot : ¬Appends log req := by
      rintro ⟨_, hfirst | ⟨_, _, heq⟩⟩
      · omega
      · exact hterm heq
    rw [if_neg hnot, List.take_add, List.append_cancel_left_eq, List.prefix_iff_eq_take]
    simp only [hterm, false_or]
    exact eq_comm

theorem checksAndAppends_iff_appendLog : ChecksAndAppends node req ↔
    (appendLog node.log req ≠ none ↔ Consistent node.log req) ∧
    (Consistent node.log req → ((appendLog node.log req).getD node.log).inner.take
        (req.prevLogIndex + 1 + req.entries.length).toNat =
      node.log.inner.take (req.prevLogIndex + 1).toNat ++ req.entries) := by
  constructor
  · rintro ⟨node', response, hstep, hiff, htake, _⟩
    rcases step_append_cases hstep with ⟨hlog, hsuccess, _⟩ | ⟨hsuccess, _, hlog⟩
    · have hnot : ¬Consistent node.log req := by
        rw [← hiff, hsuccess]
        decide
      exact ⟨by simp [hlog, hnot], fun hconsistent => absurd hconsistent hnot⟩
    · refine ⟨by simp [hlog, ← hiff, hsuccess], fun _ => ?_⟩
      rw [hlog]
      exact htake hsuccess
  · rintro ⟨hcheck, htake⟩
    obtain ⟨node', response, hstep⟩ := exists_step_append node req
    refine ⟨node', response, hstep, ?_⟩
    rcases step_append_cases hstep with ⟨hlog, hsuccess, _, hnode⟩ | ⟨hsuccess, _, hlog⟩
    · have hnot : ¬Consistent node.log req := by
        rw [← hcheck, hlog]
        simp
      refine ⟨by simp [hsuccess, hnot], fun hok => ?_, fun _ => by simp [hnode]⟩
      rw [hsuccess] at hok
      cases hok
    · have hconsistent : Consistent node.log req := hcheck.mp (by simp [hlog])
      refine ⟨by simp [hsuccess, hconsistent], fun _ => ?_, fun hfailed => ?_⟩
      · have htake := htake hconsistent
        rwa [hlog] at htake
      · rw [hsuccess] at hfailed
        cases hfailed

/-- The handler checks and appends as it should exactly if no previous index below -1 comes
with the term that a missing entry counts for, and a consistent request meets the log's last
term, or brings nothing new. -/
theorem checksAndAppends_iff (hindexed : Indexed node.log.inner) (hne : req.entries ≠ []) :
    ChecksAndAppends node req ↔
      (req.prevLogIndex < -1 →
        req.prevLogTerm ≠ node.log.termForIndex (asUsize req.prevLogIndex)) ∧
      (0 ≤ req.prevLogIndex → Consistent node.log req →
        req.prevLogTerm = node.log.lastLogIndexAndTerm.2 ∨
          req.entries <+: node.log.inner.drop (req.prevLogIndex.toNat + 1)) := by
  have hcheck : appendLog node.log req = none ↔
      req.prevLogIndex ≠ -1 ∧ Overreaches node.log req := by
    simp [appendLog_eq_none_iff, hne]
  have hlast : -1 ≤ node.log.lastLogIndex := by
    simp only [RaftLog.lastLogIndex]
    omega
  rw [checksAndAppends_iff_appendLog]
  constructor
  · rintro ⟨hiff, htake⟩
    refine ⟨fun hlow heq => ?_, fun hlow hconsistent => ?_⟩
    · have hok : appendLog node.log req ≠ none := by
        simp only [ne_eq, hcheck, Overreaches]
        omega
      rcases hiff.mp hok with hfirst | ⟨hpos, _⟩ <;> omega
    · exact (take_log_iff hindexed hne hlow hconsistent).mp (htake hconsistent)
  · rintro ⟨hbelow, hpresent⟩
    rcases Int.lt_trichotomy req.prevLogIndex (-1) with hlow | hfirst | hpos
    · -- below the first position nothing is consistent, and the check has to fail
      have hnot : ¬Consistent node.log req := by
        rintro (h | ⟨h, _⟩) <;> omega
      have hnone : appendLog node.log req = none :=
        hcheck.mpr ⟨by omega, Or.inr (hbelow hlow)⟩
      exact ⟨by simp [hnone, hnot], fun h => absurd h hnot⟩
    · have hok : appendLog node.log req = some ((node.log.truncate 0).appendAll req.entries) := by
        rw [appendLog, if_neg hne, if_pos hfirst]
      refine ⟨by simp [hok, Consistent, hfirst], fun _ => ?_⟩
      rw [hok, hfirst]
      simp [RaftLog.truncate, RaftLog.appendAll]
    · have hlow : 0 ≤ req.prevLogIndex := by omega
      have hne1 : req.prevLogIndex ≠ -1 := by omega
      refine ⟨?_, fun h => (take_log_iff hindexed hne hlow h).mpr (hpresent hlow h)⟩
      rw [consistent_iff_not_overreaches hlow, ne_eq, hcheck]
      simp [hne1]

def conflictingTail : RaftNode :=
  { new "node2" ["node1"] 7 with
    currentTerm := 2
    log := ⟨[⟨0, 1, "test1"⟩, ⟨1, 2, "index1_term2"⟩]⟩ }

def appendAfter (prevLogIndex prevLogTerm : Int) : AppendEntriesRequest where
  toNode := "node2"
  term := 3
  leaderId := "node1"
  prevLogIndex := prevLogIndex
  prevLogTerm := prevLogTerm
  entries := [⟨prevLogIndex + 1, 3, "test3"⟩]
  leaderCommitIndex := 0
  leaderCommitTerm := -1

theorem indexed_conflictingTail : Indexed conflictingTail.log.inner :=
  Indexed.concat (V := [⟨0, 1, "test1"⟩]) (Indexed.concat indexed_nil rfl) rfl

theorem checksAndAppends_iff_conflictingTail :
    ChecksAndAppends conflictingTail (appendAfter 1 2) := by
  apply (checksAndAppends_iff indexed_conflictingTail (by decide)).mpr
  exact ⟨by decide, fun _ _ => Or.inl (by decide)⟩

/-- Behind its first entry it says that it does, and does not. -/
theorem not_checksAndAppends :
    Indexed conflictingTail.log.inner ∧ conflictingTail.currentTerm ≤ (appendAfter 0 1).term ∧
      (appendAfter 0 1).entries ≠ [] ∧
      (∀ (j : Nat) e, (appendAfter 0 1).entries[j]? = some e →
        e.index = (appendAfter 0 1).prevLogIndex + 1 + j) ∧
      ¬ChecksAndAppends conflictingTail (appendAfter 0 1) := by
  refine ⟨indexed_conflictingTail, by decide, by decide, ?_, ?_⟩
  · intro j e he
    obtain ⟨hj, rfl⟩ := List.getElem?_eq_some_iff.mp he
    obtain rfl : j = 0 := by simpa [appendAfter] using hj
    rfl
  · intro h
    obtain ⟨hiff, htake⟩ := checksAndAppends_iff_appendLog.mp h
    exact absurd (htake (hiff.mp (by decide))) (by decide)

/-! ## Requests of an older term -/

theorem adoptTerm_of_stale (hstale : req.term < node.currentTerm) : node.adoptTerm req = node :=
  if_neg (by omega)

theorem step_reply_newer {sender : RaftNode} (hleader : sender.state = .leader)
    (hnewer : sender.currentTerm < response.term) :
    sender.step (.appendEntriesResponseEvent response, none) =
      .ok (sender.becomeFollower response.term, none) := by
  have hguard : response.term > sender.currentTerm ∧ sender.state ≠ .follower :=
    ⟨hnewer, by simp [hleader]⟩
  have hdeposed : sender.stepAppendEntriesResponse response =
      .ok (sender.becomeFollower response.term) := by
    simp [stepAppendEntriesResponse, hguard]
  simp only [step, hdeposed]
  rfl

theorem RefusesStale.appendLog_eq_none (h : RefusesStale node req) :
    appendLog node.log req = none := by
  obtain ⟨node', response, hstep, hsuccess, _⟩ := h
  rcases step_append_cases hstep with ⟨hlog, _⟩ | ⟨hok, _⟩
  · exact hlog
  · rw [hsuccess] at hok
    cases hok

/-- A request of an older term is refused exactly if the consistency check refuses it. -/
theorem refusesStale_iff (hstale : req.term < node.currentTerm) :
    RefusesStale node req ↔
      req.entries ≠ [] ∧ req.prevLogIndex ≠ -1 ∧ Overreaches node.log req := by
  constructor
  · intro h
    exact (appendLog_eq_none_iff node.log req).mp h.appendLog_eq_none
  · intro hrefused
    have hnone := (appendLog_eq_none_iff node.log req).mpr hrefused
    obtain ⟨node', response, hstep⟩ := exists_step_append node req
    rcases step_append_cases hstep with ⟨_, hsuccess, hterm, hnode⟩ | ⟨_, _, hlog⟩
    · rw [adoptTerm_of_stale hstale] at hterm hnode
      refine ⟨node', response, hstep, hsuccess, hterm, ?_⟩
      subst hnode
      refine ⟨rfl, rfl, rfl, rfl, rfl, rfl, ?_⟩
      intro sender hleader hown
      exact ⟨_, step_reply_newer hleader (by omega), rfl, hterm⟩
    · rw [hnone] at hlog
      cases hlog

theorem refusesStale_iff_overreaching :
    RefusesStale conflictingTail { appendAfter 5 1 with term := 1 } :=
  (refusesStale_iff (by decide)).mpr (by decide)

/-- A request of term 1 with the first entry replaces the log of a node in term 2. -/
theorem not_refusesStale :
    { appendAfter (-1) (-1) with term := 1 }.term < conflictingTail.currentTerm ∧
      ¬RefusesStale conflictingTail { appendAfter (-1) (-1) with term := 1 } :=
  ⟨by decide, fun h => absurd h.appendLog_eq_none (by decide)⟩

/-! ## The same request again -/

theorem not_adopts_adoptTerm (node : RaftNode) (req : AppendEntriesRequest) :
    ¬((node.adoptTerm req).currentTerm < req.term ∧ (node.adoptTerm req).state ≠ .follower) := by
  rcases adoptTerm_cases node req with ⟨_, _, heq⟩ | ⟨hguard, heq⟩
  · simp [heq]
  · rwa [heq]

theorem get_appendAllFrom {log : RaftLog} (hle : appendPosition req ≤ log.len) {i : Nat}
    (hi : i < appendPosition req) :
    (log.appendAllFrom req.entries (appendPosition req)).get i = log.get i := by
  have hlen : i < (log.inner.take (appendPosition req)).length := by
    rw [List.length_take]
    simp only [RaftLog.len] at hle
    omega
  rw [RaftLog.get, RaftLog.appendAllFrom, List.getElem?_append_left hlen,
    List.getElem?_take_of_lt hi]
  rfl

theorem not_overreaches_appended {log : RaftLog} (hlow : 0 ≤ req.prevLogIndex)
    (happends : Appends log req) :
    ¬Overreaches (log.appendAllFrom req.entries (appendPosition req)) req := by
  have hpos := appendPosition_of_low (show -1 ≤ req.prevLogIndex by omega)
  have hle := appendPosition_le_of_appends (show -1 ≤ req.prevLogIndex by omega) happends
  have hlength : 0 < req.entries.length := List.length_pos_iff.mpr happends.1
  have hlast : req.prevLogIndex ≤
      (log.appendAllFrom req.entries (appendPosition req)).lastLogIndex := by
    rw [RaftLog.lastLogIndex, length_appendAllFrom]
    omega
  have hterm : req.prevLogTerm = log.termForIndex (asUsize req.prevLogIndex) := by
    rcases happends.2 with hfirst | ⟨hover, _⟩
    · omega
    · by_contra hne
      exact hover (Or.inr hne)
  have hsame : (log.appendAllFrom req.entries (appendPosition req)).get (asUsize req.prevLogIndex) =
      log.get (asUsize req.prevLogIndex) := by
    apply get_appendAllFrom hle
    rw [asUsize_of_nonneg hlow]
    omega
  rintro (hbehind | hother)
  · omega
  · rw [RaftLog.termForIndex, hsame] at hother
    exact hother hterm

theorem appendLog_again {log log' : RaftLog} (hlow : -1 ≤ req.prevLogIndex)
    (hlog : appendLog log req = some log') : appendLog log' req = some log' := by
  rcases appendLog_cases log req with ⟨hnone, _⟩ | ⟨hsame, _⟩ | ⟨heq, happends⟩
  · rw [hnone] at hlog
    cases hlog
  · rw [hsame] at hlog
    cases hlog
    exact hsame
  · rw [heq] at hlog
    cases hlog
    have hle := appendPosition_le_of_appends hlow happends
    rcases appendLog_cases (log.appendAllFrom req.entries (appendPosition req)) req with
      ⟨_, _, hfirst, hover, _⟩ | ⟨hsame, _⟩ | ⟨hagain, _⟩
    · exact absurd hover (not_overreaches_appended (by omega) happends)
    · exact hsame
    · rw [hagain, RaftLog.appendAllFrom_again hle]

theorem stepAppendEntriesRequest_of_known {node : RaftNode} (hadopt : node.adoptTerm req = node)
    (hlog : appendLog node.log req = some node.log)
    (hcommit : node.commitUpTo req.leaderCommitIndex = node)
    (helapsed : node.elapsedTicksSinceLastHeartbeat = 0) :
    node.stepAppendEntriesRequest req = (node, .appendEntriesResponseEvent {
      fromNode := node.id
      term := req.term
      success := true
      lastAppliedIndex := node.log.lastLogIndex }) := by
  simp only [stepAppendEntriesRequest, hadopt, hlog, hcommit, ← helapsed]
  rfl

theorem stepAppendEntriesRequest_again (node : RaftNode) (hlow : -1 ≤ req.prevLogIndex) :
    (node.stepAppendEntriesRequest req).1.stepAppendEntriesRequest req =
      node.stepAppendEntriesRequest req := by
  have hguard := not_adopts_adoptTerm node req
  rcases stepAppendEntriesRequest_cases node req with ⟨hlog, heq⟩ | ⟨log, hlog, heq⟩
  · have hadopt : (node.adoptTerm req).adoptTerm req = node.adoptTerm req := if_neg hguard
    rw [heq, stepAppendEntriesRequest, hadopt, adoptTerm_log, hlog]
    simp [lastAppliedIndex]
  · rw [heq, ← adoptTerm_id node req]
    apply stepAppendEntriesRequest_of_known
    · exact if_neg hguard
    · exact appendLog_again hlow hlog
    · by_cases hbehind : req.leaderCommitIndex > node.commitIndex
      · simp [commitUpTo_eq, lastAppliedIndex, hbehind]
      · simp [commitUpTo_eq, hbehind]
    · rfl

/-- To handle a request twice leaves what handling it once leaves, and gives the same reply. -/
theorem step_append_again (node : RaftNode) (hlow : -1 ≤ req.prevLogIndex) :
    ∃ node' reply,
      node.step (.appendEntriesRequestEvent req, some .oneshot) = .ok (node', some reply) ∧
      node'.step (.appendEntriesRequestEvent req, some .oneshot) = .ok (node', some reply) := by
  refine ⟨(node.stepAppendEntriesRequest req).1, (node.stepAppendEntriesRequest req).2, rfl, ?_⟩
  simp only [step, stepAppendEntriesRequest_again node hlow]

theorem step_append_again_conflictingTail :
    ∃ node' reply,
      conflictingTail.step (.appendEntriesRequestEvent (appendAfter 1 2), some .oneshot) =
        .ok (node', some reply) ∧
      node'.step (.appendEntriesRequestEvent (appendAfter 1 2), some .oneshot) =
        .ok (node', some reply) :=
  step_append_again conflictingTail (by decide)

end

end RaftNode
end Rafting
