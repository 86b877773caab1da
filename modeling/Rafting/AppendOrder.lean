import Rafting.LogTerms

/-! The order of `AppendEntries` requests. A leader's requests of one term reach further
and further, and its loop sends one at a time; a call that fails ends the loop, so at most
one request of a leader is handled behind its back, and none of its requests after that.
So no request of a node's own term cuts the entries that the node has of the term. -/
namespace Rafting
open Transition LogHistory

/-- A request of `a` whose call has failed, and which its addressee may still handle. -/
def Cluster.Orphaned (c : Cluster) (a : NodeId) (req : AppendEntriesRequest) : Prop :=
  req.leaderId = a ∧ ∃ orphan ∈ c.orphans, orphan.event = .appendEntriesRequestEvent req

def Cluster.OnWay (c : Cluster) (a : NodeId) (req : AppendEntriesRequest) : Prop :=
  c.Orphaned a req ∨ req ∈ appendRequests (c.pipeline a)

/-- The loop of `a` has ended, or will on the failed call that it awaits. -/
def Cluster.Failing (c : Cluster) (a : NodeId) : Prop :=
  (∃ fault, c.phase a = .stopped fault) ∨ ∃ req peer status,
    c.phase a = .awaiting (.appendEntriesRequestEvent req) [(peer, .failed status)]

section Step
variable {cfg : Config} {h : List (Move Cluster Action)} {c c' : Cluster} {act : Action}
  {a : NodeId} {req req' : AppendEntriesRequest}

theorem Cluster.Failing.not_pending (hfailing : c.Failing a) {event : RaftEvent}
    {calls : List (NodeId × Call)} (hphase : c.phase a = .awaiting event calls) {p : NodeId} :
    (p, Call.pending) ∉ calls := by
  rcases hfailing with ⟨fault, hstopped⟩ | ⟨req, peer, status, hawaiting⟩
  · rw [hphase] at hstopped
    cases hstopped
  · rw [hphase] at hawaiting
    cases hawaiting
    simp

theorem Cluster.Failing.step (hfailing : c.Failing a) (hstep : c.step act = some c') :
    c'.Failing a := by
  rcases hfailing with ⟨fault, hstopped⟩ | ⟨req, peer, status, hawaiting⟩
  · exact Or.inl ⟨fault, by rw [phase, servers_of_stopped hstep hstopped]; exact hstopped⟩
  have hbusy : c.phase a ≠ .selecting := by simp [hawaiting]
  unfold Failing phase
  cases server_move hstep a with
  | idle heq => exact Or.inr ⟨req, peer, status, heq ▸ hawaiting⟩
  | clusterUp _ hselecting _ => exact absurd hselecting hbusy
  | tick _ hselecting _ => exact absurd hselecting hbusy
  | client _ _ hselecting _ => exact absurd hselecting hbusy
  | send _ hselecting _ => exact absurd hselecting hbusy
  | handle _ _ hselecting _ => exact absurd hselecting hbusy
  | answer p event calls _ hphase hcall _ _ _ =>
    rw [hawaiting] at hphase
    cases hphase
    simp at hcall
  | fail p status' event calls _ hphase _ heq =>
    refine Or.inr ⟨req, peer, if peer = p then status' else status, ?_⟩
    rw [heq, RaftServer.answer, show (c.servers a).phase = _ from hawaiting]
    by_cases hp : peer = p <;> simp [setCall, hp]
  | resume _ heq =>
    obtain ⟨event, calls, hphase, _, _, hcases⟩ := RaftServer.resume_cases heq
    rw [show (c.servers a).phase = _ from hawaiting] at hphase
    cases hphase
    rcases hcases with ⟨_, hevent, _⟩ | ⟨_, _, _, _, hcalls, _⟩ | ⟨_, _, _, _, _, hcalls, _⟩ |
      ⟨_, _, _, _, _, hp, _⟩
    · cases hevent
    · simp at hcalls
    · simp at hcalls
    · exact Or.inl ⟨_, hp⟩

theorem issued_of_onWay (run : Run (cluster cfg) h c) (hway : c.OnWay a req) :
    Issued h c a req := by
  have carried := carried_of_run run
  rcases hway with ⟨hleader, orphan, hmem, hevent⟩ | hmem
  · obtain ⟨_, b, hissued⟩ := carried.orphans orphan hmem req hevent
    obtain ⟨x, hx, hissues⟩ := hissued
    have members : Members cfg x := run.of_mem_moments (Members cfg) members_of_run hx
    have hsame : b = a := by rw [← members.id b, ← hissues.header.1, hleader]
    exact hsame ▸ ⟨x, hx, hissues⟩
  · exact carried.pipeline a req (mem_appendRequests.mp hmem)

theorem Issued.reach_le (run : Run (cluster cfg) h c) (hm : Meets KeepsTenure h)
    (hissued : Issued h c a req) (hleader : (c.node a).state = .leader)
    (hterm : req.term = (c.node a).currentTerm) : req.reach ≤ (c.node a).log.len := by
  obtain ⟨x, hx, hissues, hvouched⟩ := hissued.vouched run
  rw [hvouched.reach]
  exact ((tenure_of_run run hm).current a hleader _ (hterm ▸ hissues.led hx)).length_le

theorem RaftNode.Issues.reach (run : Run (cluster cfg) h c) (hissues : (c.node a).Issues req) :
    req.reach = (c.node a).log.len :=
  (hissues.vouched (indexed_of_run run (mem_moments_self h c) a) (nextIndex_ge_of_run run a)).reach

/-- The requests of `a` that can still be handled are in order: at most one of them is left
behind, and it comes before the others. -/
structure Ordered (before : AppendEntriesRequest → AppendEntriesRequest → Prop) (c : Cluster)
    (a : NodeId) : Prop where
  failing : ∀ req, c.Orphaned a req → c.Failing a
  single : ∀ req req', c.Orphaned a req → c.Orphaned a req' → req = req'
  first : ∀ req req', c.Orphaned a req → req' ∈ appendRequests (c.pipeline a) → before req req'
  queue : (appendRequests (c.pipeline a)).Pairwise before

theorem orphaned_of_step (run : Run (cluster cfg) h c) (hstep : c.step act = some c')
    (horphaned : c'.Orphaned a req) : c.Orphaned a req ∨
      ∃ p status, c.phase a = .awaiting (.appendEntriesRequestEvent req) [(p, .pending)] ∧
        c'.phase a = .awaiting (.appendEntriesRequestEvent req) [(p, .failed status)] := by
  obtain ⟨hleader, orphan, hmem, hevent⟩ := horphaned
  rcases Cluster.orphans_move hstep with hsub |
    ⟨b, p, status, event, calls, hphase, hcall, hphase', heq⟩
  · exact Or.inl ⟨hleader, orphan, hsub hmem, hevent⟩
  · rw [heq] at hmem
    rcases List.mem_append.mp hmem with hmem | hmem
    · exact Or.inl ⟨hleader, orphan, hmem, hevent⟩
    · rw [List.mem_singleton.mp hmem] at hevent
      dsimp only at hevent
      subst hevent
      obtain ⟨_, hsender, _⟩ := issued_of_awaiting run hphase
      have hsame : a = b := hleader.symm.trans hsender
      subst hsame
      obtain ⟨rfl, rfl⟩ := pending_call run hphase hcall
      refine Or.inr ⟨req.toNode, status, hphase, ?_⟩
      simpa [setCall] using hphase'

theorem appendRequests_of_awaiting {calls : List (NodeId × Call)}
    (hphase : c.phase a = .awaiting (.appendEntriesRequestEvent req) calls) :
    appendRequests (c.pipeline a) = req :: appendRequests (c.node a).nodeToPeersTx := by
  rw [Cluster.pipeline, RaftServer.pipeline_of_awaiting hphase]
  rfl

section Order
variable {before : AppendEntriesRequest → AppendEntriesRequest → Prop}

theorem ordered_initial (before : AppendEntriesRequest → AppendEntriesRequest → Prop)
    (cfg : Config) (a : NodeId) : Ordered before (Cluster.initial cfg) a := by
  refine ⟨?_, ?_, ?_, ?_⟩
  · rintro req ⟨_, orphan, hmem, _⟩
    cases hmem
  · rintro req req' ⟨_, orphan, hmem, _⟩
    cases hmem
  · rintro req req' ⟨_, orphan, hmem, _⟩
    cases hmem
  · rw [Cluster.pipeline_initial]
    exact List.Pairwise.nil

theorem Ordered.of_awaiting (inv : Ordered before c a) (hrefl : ∀ req, before req req)
    {calls : List (NodeId × Call)}
    (hphase : c.phase a = .awaiting (.appendEntriesRequestEvent req) calls)
    (hmem : req' ∈ appendRequests (c.pipeline a)) : before req req' := by
  have hqueue := inv.queue
  rw [appendRequests_of_awaiting hphase] at hqueue hmem
  rcases List.mem_cons.mp hmem with rfl | hmem
  · exact hrefl _
  · exact (List.pairwise_cons.mp hqueue).1 req' hmem

theorem Ordered.step (inv : Ordered before c a) (hrefl : ∀ req, before req req)
    (run : Run (cluster cfg) h c) (hstep : c.step act = some c')
    (hfresh : ∀ req req', Issued (⟨c, act, c'⟩ :: h) c' a req → (c'.node a).Issues req' →
      before req req') : Ordered before c' a where
  failing := by
    intro req horphaned
    rcases orphaned_of_step run hstep horphaned with hold | ⟨p, status, _, hphase'⟩
    · exact (inv.failing req hold).step hstep
    · exact Or.inr ⟨req, p, status, hphase'⟩
  single := by
    intro req req' horphaned horphaned'
    rcases orphaned_of_step run hstep horphaned with hold | ⟨p, _, hphase, _⟩ <;>
      rcases orphaned_of_step run hstep horphaned' with hold' | ⟨p', _, hphase', _⟩
    · exact inv.single req req' hold hold'
    · exact absurd (List.mem_singleton_self _) ((inv.failing req hold).not_pending hphase')
    · exact absurd (List.mem_singleton_self _) ((inv.failing req' hold').not_pending hphase)
    · rw [hphase] at hphase'
      cases hphase'
      rfl
  first := by
    intro req req' horphaned hmem
    obtain ⟨old, fresh, heq, hold, hissues⟩ := appendRequests_move hstep a
    rw [heq] at hmem
    rcases List.mem_append.mp hmem with hmem | hmem
    · rcases orphaned_of_step run hstep horphaned with hkept | ⟨p, _, hphase, _⟩
      · exact inv.first req req' hkept (hold.subset hmem)
      · exact inv.of_awaiting hrefl hphase (hold.subset hmem)
    · exact hfresh req req' (issued_of_onWay (run.next hstep) (Or.inl horphaned))
        (hissues req' hmem)
  queue := by
    obtain ⟨old, fresh, heq, hold, hissues⟩ := appendRequests_move hstep a
    rw [heq, List.pairwise_append]
    refine ⟨inv.queue.sublist hold, ?_, ?_⟩
    · apply List.pairwise_of_forall_mem_list
      intro req hreq req' hreq'
      exact hfresh req req' ⟨c', mem_moments_self _ c', hissues req hreq⟩ (hissues req' hreq')
    · intro req hreq req' hreq'
      exact hfresh req req' (issued_of_onWay run (Or.inr (hold.subset hreq))).next
        (hissues req' hreq')

end Order
end Step

structure InOrder (c : Cluster) : Prop where
  failing : ∀ a req, c.Orphaned a req → c.Failing a
  single : ∀ a req req', c.Orphaned a req → c.Orphaned a req' → req = req'
  first : ∀ a req req', c.Orphaned a req → req' ∈ appendRequests (c.pipeline a) →
    req.term = req'.term → req.reach ≤ req'.reach
  queue : ∀ a, (appendRequests (c.pipeline a)).Pairwise fun req req' =>
    req.term = req'.term → req.reach ≤ req'.reach

def ReachesTo (req req' : AppendEntriesRequest) : Prop :=
  req.term = req'.term → req.reach ≤ req'.reach

theorem inOrder_iff {c : Cluster} : InOrder c ↔ ∀ a, Ordered ReachesTo c a :=
  ⟨fun h a => ⟨h.failing a, h.single a, h.first a, h.queue a⟩,
    fun h => ⟨fun a => (h a).failing, fun a => (h a).single, fun a => (h a).first,
      fun a => (h a).queue⟩⟩

theorem inOrder_of_run {cfg : Config} {h : List (Move Cluster Action)} {c : Cluster}
    (run : Run (cluster cfg) h c) (hm : Meets KeepsTenure h) : InOrder c := by
  rw [inOrder_iff]
  apply run.invariant KeepsTenure (fun _ c => ∀ a, Ordered ReachesTo c a) ?_ ?_ hm
  · exact ordered_initial ReachesTo cfg
  · intro h c c' act run hm inv hcond hstep a
    refine (inv a).step (fun _ _ => Nat.le_refl _) run hstep fun req req' hissued hissues hterm => ?_
    rw [hissues.reach (run.next hstep)]
    exact hissued.reach_le (run.next hstep) (meets_cons.mpr ⟨hcond, hm⟩) hissues.1
      (hterm.trans hissues.header.2.1)

/-! ## What the handlers of the requests have -/

section Step
variable {cfg : Config} {h : List (Move Cluster Action)} {c c' : Cluster} {act : Action}
  {v : NodeId} {req req' : AppendEntriesRequest}

theorem onWay_of_step (run : Run (cluster cfg) h c) (hstep : c.step act = some c') {a : NodeId}
    (hway : c'.OnWay a req) : c.OnWay a req ∨ (c'.node a).Issues req := by
  rcases hway with horphaned | hmem
  · left
    rcases orphaned_of_step run hstep horphaned with hold | ⟨p, _, hphase, _⟩
    · exact Or.inl hold
    · exact Or.inr (mem_appendRequests.mpr (mem_pipeline_of_awaiting hphase))
  · obtain ⟨old, fresh, heq, hold, hfresh⟩ := appendRequests_move hstep a
    rw [heq] at hmem
    rcases List.mem_append.mp hmem with hmem | hmem
    · exact Or.inl (Or.inr (hold.subset hmem))
    · exact Or.inr (hfresh req hmem)

theorem handled_cases (run : Run (cluster cfg) h c) (hstep : c.step act = some c')
    (hhandled : c.handled act = some (v, .appendEntriesRequestEvent req)) :
    c.phase req.leaderId = .awaiting (.appendEntriesRequestEvent req) [(req.toNode, .pending)] ∨
      c.Orphaned req.leaderId req := by
  cases act with
  | deliver a p =>
    obtain ⟨event, calls, hphase, hcall, _⟩ := Cluster.deliver_eq_some hstep
    simp only [Cluster.handled, hphase, Option.some.injEq, Prod.mk.injEq] at hhandled
    obtain ⟨rfl, rfl⟩ := hhandled
    obtain ⟨_, rfl, _⟩ := issued_of_awaiting run hphase
    obtain ⟨rfl, rfl⟩ := pending_call run hphase hcall
    exact Or.inl hphase
  | deliverOrphan k =>
    obtain ⟨orphan, horphan, heq⟩ := Option.map_eq_some_iff.mp hhandled
    obtain ⟨_, hevent⟩ := Prod.mk.injEq .. ▸ heq
    exact Or.inr ⟨rfl, orphan, List.mem_of_getElem? horphan, hevent⟩
  | _ => cases hhandled

theorem onWay_of_handled (run : Run (cluster cfg) h c) (hstep : c.step act = some c')
    (hhandled : c.handled act = some (v, .appendEntriesRequestEvent req)) :
    c.OnWay req.leaderId req := by
  rcases handled_cases run hstep hhandled with hphase | horphaned
  · exact Or.inr (mem_appendRequests.mpr (mem_pipeline_of_awaiting hphase))
  · exact Or.inl horphaned

theorem Ordered.of_handled {before : AppendEntriesRequest → AppendEntriesRequest → Prop}
    (inv : Ordered before c req.leaderId) (hrefl : ∀ req, before req req)
    (run : Run (cluster cfg) h c) (hstep : c.step act = some c')
    (hhandled : c.handled act = some (v, .appendEntriesRequestEvent req))
    (hway : c.OnWay req.leaderId req') : before req req' := by
  rcases handled_cases run hstep hhandled with hphase | horphaned
  · rcases hway with horphaned' | hmem
    · exact absurd (List.mem_singleton_self _) ((inv.failing _ horphaned').not_pending hphase)
    · exact inv.of_awaiting hrefl hphase hmem
  · rcases hway with horphaned' | hmem
    · rw [inv.single _ _ horphaned horphaned']
      exact hrefl _
    · exact inv.first _ _ horphaned hmem

end Step

/-- The requests of a node's own term, and of newer ones, reach beyond the entries of
their term that the node has. -/
def Ahead (c : Cluster) : Prop :=
  ∀ a req, c.OnWay a req → (c.node req.toNode).currentTerm ≤ req.term →
    ∀ (i : Nat) e, (c.node req.toNode).log.get i = some e → e.term = req.term → i < req.reach

section Step
variable {cfg : Config} {h : List (Move Cluster Action)} {c c' : Cluster} {act : Action}

theorem RaftNode.Issues.ahead (run : Run (cluster cfg) h c) (hm : Meets KeepsTenure h)
    {a v : NodeId} {req : AppendEntriesRequest} (hissues : (c.node a).Issues req) {i : Nat}
    {e : LogEntry} (hget : (c.node v).log.get i = some e) (hterm : e.term = req.term) :
    i < req.reach := by
  obtain ⟨B, hled, hpre⟩ := (logged_of_run run hm c (mem_moments_self h c) v).2 i e hget
  rw [hterm, hissues.header.2.1] at hled
  have hlength := (hpre.trans (LedIn.isPrefix_of_leader run hm hissues.1 hled)).length_le
  obtain ⟨hlt, _⟩ := List.getElem?_eq_some_iff.mp hget
  rw [hissues.reach run, RaftLog.len]
  rw [List.length_take] at hlength
  omega

theorem Ahead.step_old (inv : Ahead c) (run : Run (cluster cfg) h c) (hm : Meets KeepsTerms h)
    (hcond : KeepsTerms c act) (hstep : c.step act = some c') {a : NodeId}
    {req : AppendEntriesRequest} (hway : c.OnWay a req)
    (hle : (c'.node req.toNode).currentTerm ≤ req.term) {i : Nat} {e : LogEntry}
    (hget : (c'.node req.toNode).log.get i = some e) (hterm : e.term = req.term) :
    i < req.reach := by
  have hm' := keepsTenure_of_keepsTerms run hm
  have hcount : Meets CountsOwnTerm h := hm.imp fun _ _ h => h.1
  have hmono := Cluster.currentTerm_mono hstep req.toNode
  have hissued := issued_of_onWay run hway
  cases Cluster.log_move hstep req.toNode with
  | keep hlog => exact inv a req hway (hmono.trans hle) i e (hlog ▸ hget) hterm
  | client command hphase hrole _ hown hlog =>
    -- the entry is old, since a leader is not sent requests of its own term
    have hmember := (members_of_run run).mem_ids_of_selecting hphase
    have hother : (c.node req.toNode).currentTerm ≠ req.term := fun heq =>
      not_leader_of_own_request run hcount hissued hmember heq hrole
    rw [hlog] at hget
    by_cases hi : i < (c.node req.toNode).log.inner.length
    · refine inv a req hway (hmono.trans hle) i e ?_ hterm
      rw [← hget]
      exact (List.getElem?_append_left hi).symm
    · obtain ⟨hlt, hentry⟩ := List.getElem?_eq_some_iff.mp hget
      refine absurd ?_ hother
      rw [← hterm, ← hentry]
      simp only [RaftLog.append, List.length_append, List.length_singleton] at hlt ⊢
      rw [List.getElem_append_right (by omega)]
      simp [RaftNode.clientEntry]
  | append req' hhandled happends =>
    -- the log is now the one that the handled request was cut from
    obtain ⟨b, x, hx, hissues, hvouched, hlog⟩ :=
      log_of_append run hm' (logged_of_run run hm') hstep hhandled happends
    have hadopted := (hcond.2.currentTerm hstep hhandled (Or.inl happends)).1
    have hget' : (x.node b).log.inner[i]? = some e := hlog ▸ hget
    have hbound := ((aged_of_run run hm x hx b).bounds e (List.mem_of_getElem? hget')).2
    rw [← hissues.header.2.1] at hbound
    have hsender : req'.leaderId = a := by
      have hissued' := issued_of_onWay run (onWay_of_handled run hstep hhandled)
      exact issuer_unique run hcount hissued' hissued (by omega)
    have horder := (inOrder_iff.mp (inOrder_of_run run hm') _).of_handled
      (fun _ _ => Nat.le_refl _) run hstep hhandled (hsender ▸ hway) (by omega)
    obtain ⟨hlt, _⟩ := List.getElem?_eq_some_iff.mp hget'
    have hreach := hvouched.reach
    omega

end Step

theorem ahead_of_run {cfg : Config} {h : List (Move Cluster Action)} {c : Cluster}
    (run : Run (cluster cfg) h c) (hm : Meets KeepsTerms h) : Ahead c := by
  apply run.invariant KeepsTerms (fun _ c => Ahead c) ?_ ?_ hm
  · rintro a req _ _ i e hget
    change ((Cluster.initial cfg).node _).log.get i = some e at hget
    rw [Cluster.node_initial] at hget
    cases hget
  · intro h c c' act run hm inv hcond hstep a req hway hle i e hget hterm
    rcases onWay_of_step run hstep hway with hold | hissues
    · exact inv.step_old run hm hcond hstep hold hle hget hterm
    · have hm' := keepsTenure_of_keepsTerms (run.next hstep) (meets_cons.mpr ⟨hcond, hm⟩)
      exact hissues.ahead (run.next hstep) hm' hget hterm

/-- A request that is appended cuts no entry of its own term. -/
theorem lt_len_of_append {cfg : Config} {h : List (Move Cluster Action)} {c c' : Cluster}
    {act : Action} (run : Run (cluster cfg) h c) (hm : Meets KeepsTerms h)
    (hcond : KeepsTerms c act) (hstep : c.step act = some c') {v : NodeId}
    {req : AppendEntriesRequest}
    (hhandled : c.handled act = some (v, .appendEntriesRequestEvent req))
    (happends : RaftNode.Appends (c.node v).log req) {i : Nat} {e : LogEntry}
    (hget : (c.node v).log.get i = some e) (hterm : e.term = req.term) :
    i < (c'.node v).log.len := by
  have hm' := keepsTenure_of_keepsTerms run hm
  obtain ⟨rfl, _⟩ := issued_of_handled run hstep hhandled
  have hle := (hcond.2.currentTerm hstep hhandled (Or.inl happends)).2
  have hahead := ahead_of_run run hm _ req (onWay_of_handled run hstep hhandled) hle i e hget hterm
  obtain ⟨b, x, hx, _, hvouched, hlog⟩ :=
    log_of_append run hm' (logged_of_run run hm') hstep hhandled happends
  rw [RaftLog.len, hlog, ← hvouched.reach]
  exact hahead

end Rafting
