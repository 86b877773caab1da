import Rafting.AppendOrder
import Rafting.Library.ListPrefix

/-! Replication under a single leader. Its requests are built from next indices that may
be several replies old, so they overlap, repeat the whole log or skip the append; but they
all carry slices of one growing log, and they are handled in the order of their reach. -/
namespace Rafting
open Transition ListPrefix

def SoleLeader (h : List (Move Cluster Action)) (c : Cluster) (a : NodeId) : Prop :=
  ∀ x ∈ moments h c, ∀ b, (x.node b).state = .leader → b = a

/-- The log of `p` grows along the one of `a`, `p` rejects nothing, and what `a` has
recorded of `p` lies within the log of `p`. -/
structure Follows (h : List (Move Cluster Action)) (c : Cluster) (a p : NodeId) : Prop where
  isPrefix : (c.node p).log.inner <+: (c.node a).log.inner
  grows : ∀ x ∈ moments h c, (x.node p).log.inner <+: (c.node p).log.inner
  succeeds : ∀ m ∈ h, ∀ req response,
    m.before.handled m.action = some (p, .appendEntriesRequestEvent req) →
    ((m.before.node p).stepAppendEntriesRequest req).2 = .appendEntriesResponseEvent response →
    response.success = true
  recorded : ∀ n ∈ (c.node a).nextIndex p, 0 ≤ n ∧ n ≤ (c.node p).log.len
  matched : (c.node a).matchIndex p = ((c.node a).nextIndex p).map (· - 1)

/-- With this, the requests on their way to `p` reach beyond its log, and those with
entries start within it. -/
structure InStep (h : List (Move Cluster Action)) (c : Cluster) (a p : NodeId) : Prop
    extends Follows h c a p where
  ahead : ∀ req, c.OnWay a req → req.toNode = p → (c.node p).log.len ≤ req.reach
  placed : ∀ req, c.OnWay a req → req.toNode = p → req.entries ≠ [] →
    RaftNode.appendPosition req ≤ (c.node p).log.len

/-! ## The sole leader's log -/

section Leader
variable {cfg : Config} {h : List (Move Cluster Action)} {c c' : Cluster} {act : Action}
  {a b : NodeId} {req : AppendEntriesRequest}

theorem SoleLeader.before (hsole : SoleLeader (⟨c, act, c'⟩ :: h) c' a) : SoleLeader h c a :=
  fun x hx => hsole x (moments_mono hx)

theorem SoleLeader.issuer (hsole : SoleLeader h c a) (hissued : Issued h c b req) : b = a := by
  obtain ⟨x, hx, hissues⟩ := hissued
  exact hsole x hx b hissues.1

/-- Nobody sends requests to the sole leader, which appends what clients send. -/
theorem SoleLeader.log_step (hsole : SoleLeader h c a) (run : Run (cluster cfg) h c)
    (hstep : c.step act = some c') : (c.node a).log.inner <+: (c'.node a).log.inner := by
  cases Cluster.log_move hstep a with
  | keep hlog => exact hlog ▸ List.prefix_refl _
  | client _ _ _ _ _ hlog =>
    rw [hlog]
    exact List.prefix_append _ _
  | append req hhandled _ =>
    obtain ⟨htoNode, b, hissued⟩ := issued_of_handled run hstep hhandled
    obtain rfl := hsole.issuer hissued
    have hmember := (members_of_run run).mem_ids_of_selecting
      (Cluster.servers_of_handled hstep hhandled).1
    exact absurd htoNode.symm (hissued.ne_toNode run (htoNode ▸ hmember))

theorem SoleLeader.log_isPrefix (run : Run (cluster cfg) h c) (hsole : SoleLeader h c a)
    {x : Cluster} (hx : x ∈ moments h c) : (x.node a).log.inner <+: (c.node a).log.inner := by
  revert hsole x
  apply run.induct (fun h c => SoleLeader h c a → ∀ {x}, x ∈ moments h c →
    (x.node a).log.inner <+: (c.node a).log.inner)
  · intro _ x hx
    rw [eq_of_mem_moments_nil hx]
  · intro h c c' act run ih hstep hsole x hx
    rcases mem_moments_next.mp hx with rfl | hx
    · exact List.prefix_refl _
    · exact (ih hsole.before hx).trans (hsole.before.log_step run hstep)

theorem SoleLeader.vouched (run : Run (cluster cfg) h c) (hsole : SoleLeader h c a)
    (hissued : Issued h c b req) : ∃ B, B <+: (c.node a).log.inner ∧ Vouched B req := by
  obtain rfl := hsole.issuer hissued
  obtain ⟨x, hx, _, hvouched⟩ := hissued.vouched run
  exact ⟨_, hsole.log_isPrefix run hx, hvouched⟩

theorem SoleLeader.ordered (run : Run (cluster cfg) h c) (hsole : SoleLeader h c a) :
    Ordered (fun req req' => req.reach ≤ req'.reach) c a := by
  revert hsole
  apply run.induct (fun h c => SoleLeader h c a →
    Ordered (fun req req' => req.reach ≤ req'.reach) c a)
  · exact fun _ => ordered_initial _ cfg a
  · intro h c c' act run ih hstep hsole
    refine (ih hsole.before).step (fun _ => Nat.le_refl _) run hstep ?_
    intro req req' hissued hissues
    obtain ⟨B, hB, hvouched⟩ := hsole.vouched (run.next hstep) hissued
    rw [hvouched.reach, hissues.reach (run.next hstep)]
    exact hB.length_le

end Leader

/-! ## The logs of the others -/

theorem Vouched.appendLog_of_isPrefix {L B : List LogEntry} {log : RaftLog}
    {req : AppendEntriesRequest} (hvouched : Vouched B req) (hB : B <+: L) (hlog : log.inner <+: L)
    (hplaced : req.entries ≠ [] → RaftNode.appendPosition req ≤ log.len) :
    RaftNode.appendLog log req = some log ∨ RaftNode.appendLog log req = some ⟨B⟩ := by
  have hpos := appendPosition_of_low hvouched.low
  rcases RaftNode.appendLog_cases log req with ⟨_, hentries, hfirst, hover, _⟩ | ⟨heq, _⟩ |
    ⟨heq, hentries, _⟩
  · -- the previous entry is the same in both prefixes
    have hlow := hvouched.low
    have hlen := hplaced hentries
    obtain ⟨e, he, hterm⟩ := hvouched.previous hfirst
    obtain ⟨e', he'⟩ : ∃ e', log.inner[req.prevLogIndex.toNat]? = some e' :=
      ⟨_, List.getElem?_eq_getElem (by simp only [RaftLog.len] at hlen; omega)⟩
    have hsame : e' = e := by
      have hL := prefix_iff_getElem?.mp hB _ _ he
      rw [prefix_iff_getElem?.mp hlog _ _ he'] at hL
      exact Option.some.inj hL
    rcases hover with hbehind | hother
    · simp only [RaftLog.lastLogIndex] at hbehind
      omega
    · rw [asUsize_of_nonneg (by omega), RaftLog.termForIndex, RaftLog.get, he', hsame] at hother
      exact absurd hterm.symm hother
  · exact Or.inl heq
  · right
    rw [heq, RaftLog.appendAllFrom, ← take_of_isPrefix hlog (hplaced hentries),
      take_of_isPrefix hB hvouched.high, hvouched.entries, List.take_append_drop]

section Follower
variable {cfg : Config} {h : List (Move Cluster Action)} {c c' : Cluster} {act : Action}
  {a p : NodeId}

theorem InStep.handled (inv : InStep h c a p) (hsole : SoleLeader h c a)
    (run : Run (cluster cfg) h c) (hstep : c.step act = some c') {req : AppendEntriesRequest}
    (hhandled : c.handled act = some (p, .appendEntriesRequestEvent req)) :
    req.toNode = p ∧ req.leaderId = a ∧
      (RaftNode.appendLog (c.node p).log req = some (c.node p).log ∨
        ∃ B, B <+: (c.node a).log.inner ∧ B.length = req.reach ∧
          RaftNode.appendLog (c.node p).log req = some ⟨B⟩) := by
  obtain ⟨htoNode, _⟩ := issued_of_handled run hstep hhandled
  have hway := onWay_of_handled run hstep hhandled
  have hissued := issued_of_onWay run hway
  have hleader : req.leaderId = a := hsole.issuer hissued
  obtain ⟨B, hB, hvouched⟩ := hsole.vouched run hissued
  refine ⟨htoNode.symm, hleader, ?_⟩
  rcases hvouched.appendLog_of_isPrefix hB inv.isPrefix
    (inv.placed req (hleader ▸ hway) htoNode.symm) with heq | heq
  · exact Or.inl heq
  · exact Or.inr ⟨B, hB, hvouched.reach.symm, heq⟩

theorem InStep.log_step (inv : InStep h c a p) (hsole : SoleLeader h c a)
    (run : Run (cluster cfg) h c) (hstep : c.step act = some c') (hne : p ≠ a) :
    (c'.node p).log = (c.node p).log ∨
      ∃ req, c.handled act = some (p, .appendEntriesRequestEvent req) ∧ req.leaderId = a ∧
        (c'.node p).log.inner <+: (c.node a).log.inner ∧ (c'.node p).log.len = req.reach := by
  cases Cluster.log_move hstep p with
  | keep hlog => exact Or.inl hlog
  | client _ _ hrole _ _ _ => exact absurd (hsole c (mem_moments_self h c) p hrole) hne
  | append req hhandled _ =>
    obtain ⟨_, hleader, hcases⟩ := inv.handled hsole run hstep hhandled
    have hnode := Cluster.node_of_append hstep hhandled
    rcases hcases with heq | ⟨B, hB, hreach, heq⟩
    · left
      rw [hnode, RaftNode.stepAppendEntriesRequest_log, heq]
      rfl
    · right
      refine ⟨req, hhandled, hleader, ?_⟩
      rw [hnode, RaftNode.stepAppendEntriesRequest_log, heq]
      exact ⟨hB, hreach⟩

theorem InStep.log_isPrefix (inv : InStep h c a p) (hsole : SoleLeader h c a)
    (run : Run (cluster cfg) h c) (hstep : c.step act = some c') (hne : p ≠ a) :
    (c.node p).log.inner <+: (c'.node p).log.inner := by
  rcases inv.log_step hsole run hstep hne with hlog | ⟨req, hhandled, hleader, hpre, hreach⟩
  · rw [hlog]
  · obtain ⟨htoNode, _⟩ := inv.handled hsole run hstep hhandled
    have hahead := inv.ahead req (hleader ▸ onWay_of_handled run hstep hhandled) htoNode
    rw [← hreach] at hahead
    exact List.prefix_of_prefix_length_le inv.isPrefix hpre hahead

theorem InStep.records (inv : InStep h c a p) (run : Run (cluster cfg) h c)
    (hstep : c.step act = some c') :
    ((c'.node a).nextIndex p = (c.node a).nextIndex p ∧
      (c'.node a).matchIndex p = (c.node a).matchIndex p) ∨
    ∃ x ∈ moments h c, (c'.node a).nextIndex p = some ((x.node p).log.len : Int) ∧
      (c'.node a).matchIndex p = some ((x.node p).log.len - 1 : Int) := by
  cases Cluster.record_move hstep a with
  | keep hnext hmatch => exact Or.inl ⟨by rw [hnext], by rw [hmatch]⟩
  | record req peer response _ hphase _ hsuccess hnext hmatch =>
    by_cases hp : p = response.fromNode
    · obtain ⟨hfrom, m, hm, _, _, hreports⟩ := reply_of_run run hphase
      right
      refine ⟨m.after, (run.of_mem hm).2.2.1, ?_⟩
      rw [← hfrom, ← hp] at hreports
      obtain ⟨_, _, hreport⟩ := hreports.of_success hsuccess
      rw [hnext, hmatch, hp, Function.update_self, Function.update_self, ← hp, hreport,
        RaftLog.lastLogIndex]
      exact ⟨by rw [Int.sub_add_cancel], rfl⟩
    · exact Or.inl ⟨by rw [hnext, Function.update_of_ne hp], by rw [hmatch, Function.update_of_ne hp]⟩
  | reject req peer response nextIndex _ hphase _ hsuccess _ _ hnext hmatch =>
    by_cases hp : p = response.fromNode
    · -- `p` has rejected nothing
      obtain ⟨hfrom, m, hm, hanswered, _⟩ := reply_of_run run hphase
      rw [← hfrom, ← hp] at hanswered
      have htrue := inv.succeeds m hm req response hanswered.handled hanswered.reply
      rw [hsuccess] at htrue
      cases htrue
    · exact Or.inl ⟨by rw [hnext, Function.update_of_ne hp], by rw [hmatch]⟩

theorem follows_step (inv : InStep h c a p) (run : Run (cluster cfg) h c)
    (hsole : SoleLeader (⟨c, act, c'⟩ :: h) c' a) (hstep : c.step act = some c') (hne : p ≠ a) :
    Follows (⟨c, act, c'⟩ :: h) c' a p := by
  have hgrows := inv.log_isPrefix hsole.before run hstep hne
  have hgrows' : ∀ x ∈ moments h c, (x.node p).log.inner <+: (c'.node p).log.inner :=
    fun x hx => (inv.grows x hx).trans hgrows
  have hleader := hsole.before.log_step run hstep
  refine ⟨?_, ?_, ?_, ?_, ?_⟩
  · rcases inv.log_step hsole.before run hstep hne with hlog | ⟨_, _, _, hpre, _⟩
    · exact hlog ▸ inv.isPrefix.trans hleader
    · exact hpre.trans hleader
  · intro x hx
    rcases mem_moments_next.mp hx with rfl | hx
    · exact List.prefix_refl _
    · exact hgrows' x hx
  · intro m hm req response hhandled hreply
    rcases List.mem_cons.mp hm with rfl | hm
    · obtain ⟨_, _, hcases⟩ := inv.handled hsole.before run hstep hhandled
      rcases RaftNode.stepAppendEntriesRequest_cases (c.node p) req with ⟨hnone, _⟩ | ⟨_, _, heq⟩
      · rcases hcases with hsome | ⟨_, _, _, hsome⟩ <;>
        · rw [hnone] at hsome
          cases hsome
      · rw [heq] at hreply
        cases hreply
        rfl
    · exact inv.succeeds m hm req response hhandled hreply
  · intro n hn
    rcases inv.records run hstep with ⟨hnext, _⟩ | ⟨x, hx, hnext, _⟩
    · have hlen := hgrows.length_le
      obtain ⟨hlow, hhigh⟩ := inv.recorded n (hnext ▸ hn)
      simp only [RaftLog.len] at hhigh ⊢
      omega
    · have hlen := (hgrows' x hx).length_le
      rw [hnext] at hn
      cases hn
      simp only [RaftLog.len]
      omega
  · rcases inv.records run hstep with ⟨hnext, hmatch⟩ | ⟨_, _, hnext, hmatch⟩
    · rw [hnext, hmatch, inv.matched]
    · rw [hnext, hmatch]
      rfl

theorem Follows.placed (hfollows : Follows h c a p) (run : Run (cluster cfg) h c)
    {req : AppendEntriesRequest} (hissues : (c.node a).Issues req) (htoNode : req.toNode = p)
    (hentries : req.entries ≠ []) : RaftNode.appendPosition req ≤ (c.node p).log.len := by
  obtain ⟨_, peer, _, hbuild | rfl⟩ := hissues
  · obtain ⟨prevLogIndex, _, _, hslice, heq⟩ := RaftNode.buildAppendRequestForPeer_ok hbuild
    obtain rfl : peer = p := by
      rw [← htoNode, heq]
    obtain ⟨hlow, hhigh⟩ : 0 ≤ ((c.node a).nextIndex peer).getD 0 ∧
        ((c.node a).nextIndex peer).getD 0 ≤ (c.node peer).log.len := by
      cases hnext : (c.node a).nextIndex peer with
      | none => exact ⟨Int.le_refl _, Int.natCast_nonneg _⟩
      | some n => exact hfollows.recorded n hnext
    have hprev : req.prevLogIndex = ((c.node a).nextIndex peer).getD 0 - 1 := by
      rw [heq]
      exact RaftNode.prevLogIndex_of_slice (indexed_of_run run (mem_moments_self h c) a) hlow hslice
    have hpos := appendPosition_of_low (show -1 ≤ req.prevLogIndex by omega)
    omega
  · exact absurd rfl hentries

theorem InStep.step (inv : InStep h c a p) (run : Run (cluster cfg) h c)
    (hsole : SoleLeader (⟨c, act, c'⟩ :: h) c' a) (hstep : c.step act = some c') (hne : p ≠ a) :
    InStep (⟨c, act, c'⟩ :: h) c' a p where
  toFollows := follows_step inv run hsole hstep hne
  ahead := by
    intro req hway htoNode
    rcases onWay_of_step run hstep hway with hold | hissues
    · rcases inv.log_step hsole.before run hstep hne with hlog | ⟨req', hhandled, rfl, _, hreach⟩
      · exact hlog ▸ inv.ahead req hold htoNode
      · rw [hreach]
        exact (hsole.before.ordered run).of_handled (fun _ => Nat.le_refl _) run hstep hhandled hold
    · rw [hissues.reach (run.next hstep)]
      exact (follows_step inv run hsole hstep hne).isPrefix.length_le
  placed := by
    intro req hway htoNode hentries
    rcases onWay_of_step run hstep hway with hold | hissues
    · exact (inv.placed req hold htoNode hentries).trans
        (inv.log_isPrefix hsole.before run hstep hne).length_le
    · exact (follows_step inv run hsole hstep hne).placed (run.next hstep) hissues htoNode hentries

end Follower

theorem inStep_of_run {cfg : Config} {h : List (Move Cluster Action)} {c : Cluster} {a p : NodeId}
    (run : Run (cluster cfg) h c) (hsole : SoleLeader h c a) (hne : p ≠ a) : InStep h c a p := by
  revert hsole
  apply run.induct (fun h c => SoleLeader h c a → InStep h c a p)
  · intro _
    rw [Cluster.cluster_init]
    refine ⟨⟨?_, ?_, ?_, ?_, ?_⟩, ?_, ?_⟩
    · rw [Cluster.node_initial]
      exact List.nil_prefix
    · intro x hx
      rw [eq_of_mem_moments_nil hx]
    · intro m hm
      cases hm
    · intro n hn
      rw [Cluster.node_initial] at hn
      cases hn
    · rw [Cluster.node_initial]
      rfl
    · intro req _ _
      rw [Cluster.node_initial]
      exact Nat.zero_le _
    · intro req hway
      rcases hway with ⟨_, orphan, hmem, _⟩ | hmem
      · cases hmem
      · rw [Cluster.pipeline_initial] at hmem
        cases hmem
  · intro h c c' act run ih hstep hsole
    exact (ih hsole.before).step run hsole hstep hne

theorem follows_of_soleLeader {cfg : Config} {h : List (Move Cluster Action)} {c : Cluster}
    {a p : NodeId} (run : Run (cluster cfg) h c) (hsole : SoleLeader h c a) (hne : p ≠ a) :
    Follows h c a p :=
  (inStep_of_run run hsole hne).toFollows

def OnlyWins (a : NodeId) (c : Cluster) (act : Action) : Prop :=
  ∀ x ∈ c.counted act, (c.node x.1).quorumSize ≤
    ((PeerNetwork.voteResponses x.2.2).filter fun r => r.voteGranted).length → x.1 = a

instance (a : NodeId) (c : Cluster) (act : Action) : Decidable (OnlyWins a c act) :=
  inferInstanceAs (Decidable (∀ x ∈ c.counted act, _ → _))

theorem soleLeader_of_onlyWins {cfg : Config} {h : List (Move Cluster Action)} {c : Cluster}
    {a : NodeId} (run : Run (cluster cfg) h c) (hm : Meets (OnlyWins a) h) : SoleLeader h c a := by
  apply run.invariant_moments (OnlyWins a) (fun x => ∀ b, (x.node b).state = .leader → b = a) ?_ ?_ hm
  · intro b hleader
    exact absurd hleader (Cluster.not_leader_of_start (mem_moments_self [] _) b)
  · intro h c c' act run _ inv hcond hstep b hleader
    rcases (Cluster.leads_or_wins hstep hleader).2 with hbefore | ⟨req, calls, hcounted, hquorum⟩
    · exact inv c (mem_moments_self h c) b hbefore
    · exact hcond _ hcounted hquorum

/-- `node3` has lost an election, and takes over the first of the two entries of `node1`,
whose second request for it is on its way. -/
theorem follows_of_soleLeader_replicated :
    ∃ h c, Run (cluster threeNodes) h c ∧ (c.node "node1").log.len = 2 ∧
      (c.node "node3").log.len = 1 ∧ (c.node "node3").currentTerm = 2 ∧
      Follows h c "node1" "node3" := by
  obtain ⟨h, c, run, hm, hlen, hlen', hterm⟩ := exists_run_of_exec (cluster threeNodes)
    (OnlyWins "node1")
    (fun c => (c.node "node1").log.len = 2 ∧ (c.node "node3").log.len = 1 ∧
      (c.node "node3").currentTerm = 2)
    (threeNodes.allUp ++ electionTimeout "node1" ++ exchange "node1" ["node2", "node3"] ++
      exchange "node1" ["node2"] ++ exchange "node1" ["node3"] ++
      [.client "node1" ⟨"x", "1"⟩] ++ heartbeatTimeout "node1" ++
      [.client "node1" ⟨"y", "2"⟩] ++ heartbeatTimeout "node1" ++ electionTimeout "node3" ++
      [.send "node3", .fail "node3" "node1" "unavailable", .fail "node3" "node2" "unavailable",
        .resume "node3"] ++
      exchange "node1" ["node2"] ++ exchange "node1" ["node3"]) (by decide +kernel)
  exact ⟨h, c, run, hlen, hlen', hterm,
    follows_of_soleLeader run (soleLeader_of_onlyWins run hm) (by decide)⟩

end Rafting
