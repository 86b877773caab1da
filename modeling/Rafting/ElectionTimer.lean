import Rafting.NodeRuns
import Rafting.Library.ListPrefix

/-! The election timer over the runs of one node. It counts the ticks of a node that is
ready and starts again at every request that is accepted, at every vote that is granted and
with every new role. A request that the consistency check refuses leaves it as it is. -/
namespace Rafting
open Transition

def ticks (h : List (Move RaftNode NodeAction)) : Nat :=
  h.countP fun m => m.action = .tick

def readyTicks (h : List (Move RaftNode NodeAction)) : Nat :=
  h.countP fun m => m.action = .tick ∧ m.before.clusterReady = true

/-- In every block of `timeout` consecutive ticks there is such a move between the first
tick and the last. -/
def EachBlock (timeout : Nat) (P : Move RaftNode NodeAction → Prop)
    (h : List (Move RaftNode NodeAction)) : Prop :=
  ∀ block, block <:+: h → ticks block = timeout →
    ∃ newer m older, block = newer ++ m :: older ∧ 0 < ticks newer ∧ 0 < ticks older ∧ P m

def NodeAction.appendRequest : NodeAction → Option AppendEntriesRequest
  | .step (.appendEntriesRequestEvent req) (some _) => some req
  | _ => none

/-- A request of the node's term or a newer one is handled, whatever comes of it. -/
def Contact (m : Move RaftNode NodeAction) : Prop :=
  ∃ req ∈ m.action.appendRequest, m.before.currentTerm ≤ req.term

def Resets (m : Move RaftNode NodeAction) : Prop :=
  (∃ response, m.before.reply m.action = some (.appendEntriesResponseEvent response) ∧
    response.success = true) ∨
  (∃ response, m.before.reply m.action = some (.requestVoteResponseEvent response) ∧
    response.voteGranted = true) ∨
  m.after.state ≠ m.before.state

/-- A node in contact does not stand for election. Before a node stands, nothing resets its
timer for so many ready ticks: `newer` are the moves between `m` and the candidacy `f`. -/
structure QuietInContact (timeout : Nat) (h : List (Move RaftNode NodeAction)) : Prop where
  contact : EachBlock timeout Contact h → ∀ f ∈ h, ¬Candidacy f
  silence : ∀ later f newer m older, h = later ++ f :: (newer ++ m :: older) → Candidacy f →
    readyTicks (f :: newer) < timeout → ¬Resets m

/-- The consistency check passes, or the request is the first of its term that a candidate
or leader sees. -/
def RaftNode.Hears (node : RaftNode) (req : AppendEntriesRequest) : Prop :=
  req.entries = [] ∨ req.prevLogIndex = -1 ∨ ¬Overreaches node.log req ∨
    node.currentTerm < req.term ∧ node.state ≠ .follower

def HearsContact (node : RaftNode) (action : NodeAction) : Prop :=
  ∀ req ∈ action.appendRequest, node.currentTerm ≤ req.term → node.Hears req

instance (node : RaftNode) (req : AppendEntriesRequest) : Decidable (node.Hears req) :=
  inferInstanceAs (Decidable (_ ∨ _ ∨ ¬_ ∨ _ ∧ _))

instance (node : RaftNode) (action : NodeAction) : Decidable (HearsContact node action) :=
  inferInstanceAs (Decidable (∀ req ∈ action.appendRequest, _ → _))

theorem ticks_append (newer older : List (Move RaftNode NodeAction)) :
    ticks (newer ++ older) = ticks newer + ticks older :=
  List.countP_append

theorem ticks_pos_of_mem {h : List (Move RaftNode NodeAction)} {m : Move RaftNode NodeAction}
    (hm : m ∈ h) (htick : m.action = .tick) : 0 < ticks h :=
  List.countP_pos_iff.mpr ⟨m, hm, decide_eq_true htick⟩

theorem ticks_eq_count (h : List (Move RaftNode NodeAction)) :
    ticks h = (h.map Move.action).count .tick := by
  rw [List.count, List.countP_map]
  rfl

theorem readyTicks_le_ticks (h : List (Move RaftNode NodeAction)) : readyTicks h ≤ ticks h := by
  apply List.countP_mono_left
  intro m _ hready
  simp only [Bool.decide_and, Bool.and_eq_true] at hready
  exact hready.1

theorem readyTicks_tick {m : Move RaftNode NodeAction} (htick : m.action = .tick)
    (hready : m.before.clusterReady = true) (h : List (Move RaftNode NodeAction)) :
    readyTicks (m :: h) = readyTicks h + 1 :=
  List.countP_cons_of_pos (by simp [htick, hready])

theorem readyTicks_le_cons (m : Move RaftNode NodeAction) (h : List (Move RaftNode NodeAction)) :
    readyTicks h ≤ readyTicks (m :: h) :=
  (List.sublist_cons_self m h).countP_le

theorem EachBlock.imp {timeout : Nat} {P Q : Move RaftNode NodeAction → Prop}
    {h : List (Move RaftNode NodeAction)} (hblocks : EachBlock timeout P h)
    (himp : ∀ m ∈ h, P m → Q m) : EachBlock timeout Q h := by
  intro block hpart hticks
  obtain ⟨newer, m, older, rfl, hnewer, holder, hP⟩ := hblocks block hpart hticks
  exact ⟨newer, m, older, rfl, hnewer, holder, himp m (hpart.subset (by simp)) hP⟩

theorem appendRequest_eq_some {action : NodeAction} {req : AppendEntriesRequest}
    (h : action.appendRequest = some req) :
    action = .step (.appendEntriesRequestEvent req) (some .oneshot) := by
  unfold NodeAction.appendRequest at h
  split at h
  · cases h
    rfl
  · cases h

namespace RaftNode
variable {node : RaftNode} {req : AppendEntriesRequest}

theorem hears_iff : node.Hears req ↔
    appendLog node.log req ≠ none ∨ node.currentTerm < req.term ∧ node.state ≠ .follower := by
  rw [ne_eq, appendLog_eq_none_iff, Hears]
  by_cases hempty : req.entries = []
  · simp [hempty]
  · simp [hempty, or_assoc, Decidable.imp_iff_not_or]

end RaftNode

section
variable {node s : RaftNode} {h : List (Move RaftNode NodeAction)}

theorem electionTimeoutTicks_of_run (run : Run (nodeRuns node) h s) :
    s.electionTimeoutTicks = node.electionTimeoutTicks := by
  induction run with
  | start => rfl
  | next run hact ih =>
    rw [← ih]
    cases RaftNode.role_move hact with
    | keep _ _ _ _ htimeout => exact htimeout
    | count _ _ _ _ _ _ htimeout => exact htimeout
    | stand _ _ _ _ _ _ _ htimeout => exact htimeout
    | follow _ _ _ htimeout => exact htimeout
    | win _ _ htimeout => exact htimeout

/-- The timer of a node that does not lead shows no more than the ready ticks since it was reset. -/
theorem timer_le_readyTicks (run : Run (nodeRuns node) h s)
    (hstart : node.state = .leader ∨ node.elapsedTicksSinceLastHeartbeat = 0) :
    s.state = .leader ∨ s.elapsedTicksSinceLastHeartbeat ≤ readyTicks h := by
  induction run with
  | start => exact hstart.imp_right Nat.le_of_eq
  | @next h s s' action run hact ih =>
    have hmore := readyTicks_le_cons ⟨s, action, s'⟩ h
    cases RaftNode.role_move hact with
    | keep hstate _ htimer _ _ =>
      rw [hstate]
      exact ih.imp_right fun hle => Nat.le_trans htimer (Nat.le_trans hle hmore)
    | count htick hready hstate _ htimer _ _ =>
      rw [hstate, readyTicks_tick htick hready]
      exact ih.imp_right fun hle => Nat.le_trans htimer (Nat.succ_le_succ hle)
    | stand _ _ _ _ _ _ htimer _ => exact Or.inr (by omega)
    | follow _ _ htimer _ => exact Or.inr (by omega)
    | win hstate _ _ => exact Or.inl hstate

theorem timeout_le_readyTicks {f : Move RaftNode NodeAction} (run : Run (nodeRuns node) (f :: h) s)
    (hstart : node.state = .leader ∨ node.elapsedTicksSinceLastHeartbeat = 0) (hstands : Candidacy f) :
    node.electionTimeoutTicks ≤ readyTicks (f :: h) := by
  obtain ⟨hbefore, hact, _⟩ := run.of_cons
  obtain ⟨htick, hready, hrole, hfires, _⟩ := hstands.fires hact
  rw [electionTimeoutTicks_of_run hbefore] at hfires
  rw [readyTicks_tick htick hready]
  rcases timer_le_readyTicks hbefore hstart with hleader | hle
  · exact absurd hleader hrole
  · omega

theorem Resets.timer {m : Move RaftNode NodeAction} (hresets : Resets m)
    (hact : m.before.act m.action = some m.after) :
    m.after.state = .leader ∨ m.after.elapsedTicksSinceLastHeartbeat = 0 := by
  rcases hresets with ⟨response, hreply, hsuccess⟩ | ⟨response, hreply, hgranted⟩ | hrole
  · exact Or.inr (RaftNode.reply_success hact hreply hsuccess)
  · exact Or.inr (RaftNode.reply_granted hact hreply hgranted).2.2
  · cases RaftNode.role_move hact with
    | keep hstate _ _ _ _ => exact absurd hstate hrole
    | count _ _ hstate _ _ _ _ => exact absurd hstate hrole
    | stand _ _ _ _ _ _ htimer _ => exact Or.inr htimer
    | follow _ _ htimer _ => exact Or.inr htimer
    | win hstate _ _ => exact Or.inl hstate

theorem Resets.timeout_le {f m : Move RaftNode NodeAction}
    {newer older : List (Move RaftNode NodeAction)} (hresets : Resets m)
    (run : Run (nodeRuns node) (f :: newer ++ m :: older) s) (hstands : Candidacy f) :
    node.electionTimeoutTicks ≤ readyTicks (f :: newer) := by
  obtain ⟨hreset, hsince⟩ := run.since
  rw [← electionTimeoutTicks_of_run hreset]
  exact timeout_le_readyTicks hsince (hresets.timer hreset.of_cons.2.1) hstands

theorem not_candidacy_of_resets (run : Run (nodeRuns node) h s)
    (hstart : node.elapsedTicksSinceLastHeartbeat = 0)
    (hblocks : EachBlock node.electionTimeoutTicks Resets h) : ∀ f ∈ h, ¬Candidacy f := by
  intro f hf hstands
  obtain ⟨later, rest, rfl⟩ := List.append_of_mem hf
  obtain ⟨_, hfirst, _⟩ := run.of_append
  have hlong : node.electionTimeoutTicks ≤ ticks (f :: rest) :=
    Nat.le_trans (timeout_le_readyTicks hfirst (Or.inr hstart) hstands) (readyTicks_le_ticks _)
  -- the last block of ticks before the candidacy ends with it
  obtain ⟨block, ⟨before, hpre⟩, hticks⟩ := ListPrefix.exists_prefix_countP _ hlong
  have hpart : block <:+: later ++ f :: rest := ⟨later, before, by rw [List.append_assoc, hpre]⟩
  obtain ⟨newer, m, older, rfl, hnewer, holder, hresets⟩ := hblocks block hpart hticks
  cases newer with
  | nil => cases hnewer
  | cons f' newer =>
    obtain ⟨rfl, rfl⟩ : f' = f ∧ newer ++ m :: (older ++ before) = rest := by simpa using hpre
    have hle := hresets.timeout_le hfirst hstands
    have hready := readyTicks_le_ticks (f' :: newer)
    have hsplit : ticks (f' :: newer ++ m :: older) = node.electionTimeoutTicks := hticks
    have hmore : ticks older ≤ ticks (m :: older) := (List.sublist_cons_self m older).countP_le
    rw [ticks_append] at hsplit
    omega

theorem Contact.resets {m : Move RaftNode NodeAction} (hcontact : Contact m)
    (hhears : HearsContact m.before m.action) (hact : m.before.act m.action = some m.after) :
    Resets m := by
  obtain ⟨req, hreq, hterm⟩ := hcontact
  have haction := appendRequest_eq_some hreq
  have hafter : (m.before.stepAppendEntriesRequest req).1 = m.after := by
    rw [haction] at hact
    exact Option.some.inj hact
  have hreply : m.before.reply m.action = some (m.before.stepAppendEntriesRequest req).2 := by
    rw [haction]
    rfl
  rcases RaftNode.hears_iff.mp (hhears req hreq hterm) with haccepts | ⟨hnewer, hrole⟩
  · rcases RaftNode.stepAppendEntriesRequest_cases m.before req with ⟨hnone, _⟩ | ⟨log, _, heq⟩
    · exact absurd hnone haccepts
    · rw [heq] at hreply
      exact Or.inl ⟨_, hreply, rfl⟩
  · -- the term makes the node a follower before the log is checked
    have hfollows : m.after.state = .follower := by
      rw [← hafter, RaftNode.stepAppendEntriesRequest_state, RaftNode.adoptTerm,
        if_pos ⟨hnewer, hrole⟩]
      rfl
    exact Or.inr (Or.inr (by rw [hfollows]; exact Ne.symm hrole))

theorem not_resets_of_candidacy (run : Run (nodeRuns node) h s) :
    ∀ later f newer m older, h = later ++ f :: (newer ++ m :: older) → Candidacy f →
      readyTicks (f :: newer) < node.electionTimeoutTicks → ¬Resets m := by
  rintro later f newer m older rfl hstands hfew hresets
  obtain ⟨_, hfirst, _⟩ := run.of_append
  have hle := hresets.timeout_le hfirst hstands
  omega

/-- A node with a fresh timer that hears every request it is in contact through does not
stand for election while it is in contact. -/
theorem quietInContact_of_hears (run : Run (nodeRuns node) h s)
    (hstart : node.elapsedTicksSinceLastHeartbeat = 0) (hm : Meets HearsContact h) :
    QuietInContact node.electionTimeoutTicks h where
  contact := by
    intro hcontact
    apply not_candidacy_of_resets run hstart
    apply hcontact.imp
    intro m hmem hcontact
    obtain ⟨hact, _⟩ := run.of_mem hmem
    exact hcontact.resets (hm m hmem) hact
  silence := not_resets_of_candidacy run

theorem exists_candidacy (run : Run (nodeRuns node) h s) (hstart : node.state ≠ .candidate)
    (hs : s.state = .candidate) : ∃ f ∈ h, Candidacy f := by
  induction run with
  | start => exact absurd hs hstart
  | @next h s s' action run hact ih =>
    by_cases hbefore : s.state = .candidate
    · obtain ⟨f, hf, hstands⟩ := ih hbefore
      exact ⟨f, List.mem_cons_of_mem _ hf, hstands⟩
    · exact ⟨_, List.mem_cons_self, hs, Or.inl hbefore⟩

theorem eachBlock_of_actions {P : Move RaftNode NodeAction → Prop} {newer older : List NodeAction}
    {action : NodeAction} (hactions : h.map Move.action = .tick :: newer ++ action :: (older ++ [.tick]))
    (hP : ∀ m ∈ h, m.action = action → P m) : EachBlock (ticks h) P h := by
  intro block hpart hticks
  obtain ⟨front, back, rfl, hfront, hback⟩ := List.map_eq_append_iff.mp hactions
  obtain ⟨last, front, rfl, hlast, _⟩ := List.map_eq_cons_iff.mp hfront
  obtain ⟨m, back, rfl, hm, hback⟩ := List.map_eq_cons_iff.mp hback
  obtain ⟨mid, ends, rfl, _, hends⟩ := List.map_eq_append_iff.mp hback
  obtain ⟨first, rest, rfl, hfirst, hrest⟩ := List.map_eq_cons_iff.mp hends
  obtain rfl : rest = [] := List.map_eq_nil_iff.mp hrest
  obtain ⟨before, after, hsplit⟩ := hpart
  have hcount := congrArg ticks hsplit
  rw [ticks_append, ticks_append, ← hticks] at hcount
  -- nothing is left over on either side, where the ticks are
  obtain rfl : before = [] := by
    cases before with
    | nil => rfl
    | cons x before =>
      obtain rfl : x = last := (List.cons.inj hsplit).1
      have hpos := ticks_pos_of_mem (List.mem_cons_self (a := x) (l := before)) hlast
      omega
  obtain rfl : after = [] := by
    rcases List.eq_nil_or_concat' after with hnil | ⟨after, x, rfl⟩
    · exact hnil
    · have hends : (block ++ after) ++ [x] = (last :: front ++ m :: mid) ++ [first] := by
        simpa using hsplit
      obtain rfl : x = first := by simpa using (List.append_inj' hends rfl).2
      have hpos := ticks_pos_of_mem (h := after ++ [x]) (by simp) hfirst
      omega
  obtain rfl : block = _ := by simpa using hsplit
  exact ⟨last :: front, m, mid ++ [first], rfl, ticks_pos_of_mem List.mem_cons_self hlast,
    ticks_pos_of_mem (by simp) hfirst, hP m (by simp) hm⟩

end

/-! A follower that is ready, and a leader's log that it has nothing of. -/

def idleFollower : RaftNode :=
  { RaftNode.new "node2" ["node1", "node3"] 7 with clusterReady := true }

def leaderEntries : List LogEntry :=
  (List.range 10).map fun i => ⟨i, 1, "set"⟩

def requestAfter (prevLogIndex prevLogTerm : Int) : AppendEntriesRequest where
  toNode := "node2"
  term := 1
  leaderId := "node1"
  prevLogIndex := prevLogIndex
  prevLogTerm := prevLogTerm
  entries := leaderEntries.drop (prevLogIndex + 1).toNat
  leaderCommitIndex := -1
  leaderCommitTerm := -1

def handles (req : AppendEntriesRequest) : NodeAction :=
  .step (.appendEntriesRequestEvent req) (some .oneshot)

def heartbeats (requests : List AppendEntriesRequest) : List NodeAction :=
  requests.flatMap (fun req => [.tick, .tick, handles req]) ++ [.tick]

def NoneOlder (node : RaftNode) (action : NodeAction) : Prop :=
  ∀ req ∈ action.appendRequest, node.currentTerm ≤ req.term

instance (node : RaftNode) (action : NodeAction) : Decidable (NoneOlder node action) :=
  inferInstanceAs (Decidable (∀ req ∈ action.appendRequest, _))

theorem ticks_of_heartbeats {requests : List AppendEntriesRequest}
    {h : List (Move RaftNode NodeAction)}
    (hactions : h.map Move.action = (heartbeats requests).reverse) :
    ticks h = 2 * requests.length + 1 := by
  rw [ticks_eq_count, hactions, List.count_reverse]
  clear hactions
  induction requests with
  | nil => rfl
  | cons req requests ih =>
    simp only [heartbeats, List.flatMap_cons, List.cons_append, List.nil_append] at ih ⊢
    rw [List.count_cons_self, List.count_cons_self, List.count_cons_of_ne (by simp [handles]), ih,
      List.length_cons]
    omega

theorem contact_of_heartbeats {req : AppendEntriesRequest} {requests : List AppendEntriesRequest}
    {h : List (Move RaftNode NodeAction)}
    (hactions : h.map Move.action = (heartbeats (req :: requests)).reverse)
    (hm : Meets NoneOlder h) : EachBlock (2 * (req :: requests).length + 1) Contact h := by
  rw [← ticks_of_heartbeats hactions]
  have hshape : h.map Move.action =
      .tick :: (requests.flatMap fun req => [.tick, .tick, handles req]).reverse ++
        handles req :: ([.tick] ++ [.tick]) := by
    rw [hactions]
    simp [heartbeats]
  apply eachBlock_of_actions hshape
  intro m hmem haction
  have hrequest : m.action.appendRequest = some req := by
    rw [haction]
    rfl
  exact ⟨req, hrequest, hm m hmem req hrequest⟩

theorem quietInContact_of_hears_heartbeats :
    ∃ h s, Run (nodeRuns idleFollower) h s ∧ EachBlock 7 Contact h ∧ QuietInContact 7 h := by
  obtain ⟨h, s, run, hm, hactions, _⟩ := exists_run_of_actions (nodeRuns idleFollower)
    (fun node action => HearsContact node action ∧ NoneOlder node action) (fun _ => True)
    (heartbeats [requestAfter (-1) (-1), requestAfter 9 1, requestAfter 9 1]) (by decide +kernel)
  refine ⟨h, s, run, contact_of_heartbeats hactions (hm.imp fun _ _ hboth => hboth.2), ?_⟩
  exact quietInContact_of_hears run rfl (hm.imp fun _ _ hboth => hboth.1)

/-- The leader backs up to the follower's empty log, and the follower stands against it. -/
theorem not_quietInContact :
    ∃ node h s, node.state = .follower ∧ node.elapsedTicksSinceLastHeartbeat = 0 ∧
      node.clusterReady = true ∧ Run (nodeRuns node) h s ∧
      ¬QuietInContact node.electionTimeoutTicks h := by
  obtain ⟨h, s, run, hm, hactions, hcandidate⟩ := exists_run_of_actions (nodeRuns idleFollower)
    NoneOlder (fun s => s.state = .candidate)
    (heartbeats [requestAfter 8 1, requestAfter 7 1, requestAfter 6 1]) (by decide +kernel)
  refine ⟨idleFollower, h, s, rfl, rfl, rfl, run, fun hquiet => ?_⟩
  obtain ⟨f, hf, hstands⟩ := exists_candidacy run (by decide) hcandidate
  exact hquiet.contact (contact_of_heartbeats hactions hm) f hf hstands

end Rafting
