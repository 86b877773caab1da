import Rafting.ServerLoop

/-! The life of an `AppendEntries` request: it is issued by a leader, taken in by
the node it is addressed to, and answered to the leader that still awaits it. -/
namespace Rafting
open Transition

/-- The node leads and sends this request, at a tick or on its election. -/
def RaftNode.Issues (node : RaftNode) (req : AppendEntriesRequest) : Prop :=
  node.state = .leader ∧ ∃ peer ∈ node.peers,
    node.buildAppendRequestForPeer peer = .ok req ∨ req = node.leaderHeartbeat peer

theorem RaftNode.Issues.header {node : RaftNode} {req : AppendEntriesRequest}
    (h : node.Issues req) : req.leaderId = node.id ∧ req.term = node.currentTerm ∧
      req.toNode ∈ node.peers ∧ req.leaderCommitIndex = node.commitIndex := by
  obtain ⟨_, peer, hpeer, hbuild | rfl⟩ := h
  · obtain ⟨_, _, _, _, rfl⟩ := buildAppendRequestForPeer_ok hbuild
    exact ⟨rfl, rfl, hpeer, rfl⟩
  · exact ⟨rfl, rfl, hpeer, rfl⟩

def Issued (h : List (Move Cluster Action)) (c : Cluster) (a : NodeId)
    (req : AppendEntriesRequest) : Prop :=
  ∃ x ∈ moments h c, (x.node a).Issues req

theorem Issued.next {h : List (Move Cluster Action)} {c c' : Cluster} {act : Action} {a : NodeId}
    {req : AppendEntriesRequest} (hi : Issued h c a req) : Issued (⟨c, act, c'⟩ :: h) c' a req := by
  obtain ⟨x, hx, hissues⟩ := hi
  exact ⟨x, moments_mono hx, hissues⟩

def appendRequests (events : List RaftEvent) : List AppendEntriesRequest :=
  events.filterMap fun event =>
    match event with
    | .appendEntriesRequestEvent req => some req
    | _ => none

theorem mem_appendRequests {events : List RaftEvent} {req : AppendEntriesRequest} :
    req ∈ appendRequests events ↔ .appendEntriesRequestEvent req ∈ events := by
  simp only [appendRequests, List.mem_filterMap]
  constructor
  · rintro ⟨event, hmem, hevent⟩
    cases event with
    | appendEntriesRequestEvent req' =>
      cases hevent
      exact hmem
    | _ => cases hevent
  · intro hmem
    exact ⟨_, hmem, rfl⟩

@[simp] theorem appendRequests_append (events events' : List RaftEvent) :
    appendRequests (events ++ events') = appendRequests events ++ appendRequests events' := by
  simp [appendRequests]

theorem appendRequests_sublist {events events' : List RaftEvent} (h : events.Sublist events') :
    (appendRequests events).Sublist (appendRequests events') :=
  h.filterMap _

@[simp] theorem appendRequests_map {ι : Type} (xs : List ι) (f : ι → AppendEntriesRequest) :
    appendRequests (xs.map fun x => .appendEntriesRequestEvent (f x)) = xs.map f := by
  simp [appendRequests]

theorem appendRequests_move {c c' : Cluster} {act : Action} (h : c.step act = some c')
    (a : NodeId) : ∃ old fresh, appendRequests (c'.pipeline a) = old ++ fresh ∧
      old.Sublist (appendRequests (c.pipeline a)) ∧ ∀ req ∈ fresh, (c'.node a).Issues req := by
  have hnone : ∀ req ∈ ([] : List AppendEntriesRequest), (c'.node a).Issues req :=
    fun req hreq => absurd hreq List.not_mem_nil
  cases Cluster.pipeline_move h a with
  | keep heq => exact ⟨_, [], by rw [heq, List.append_nil], List.Sublist.refl _, hnone⟩
  | drop event heq =>
    refine ⟨_, [], (List.append_nil _).symm, ?_, hnone⟩
    rw [heq]
    exact appendRequests_sublist (List.sublist_cons_self _ _)
  | stand _ _ _ _ heq =>
    refine ⟨_, [], ?_, List.Sublist.refl _, hnone⟩
    rw [heq, appendRequests_append]
    rfl
  | lead requests _ hrole hbuild heq =>
    refine ⟨_, requests, ?_, List.Sublist.refl _, ?_⟩
    · rw [heq, appendRequests_append, appendRequests_map, List.map_id']
    · intro req hreq
      obtain ⟨peer, hpeer, hok⟩ := hbuild req hreq
      exact ⟨hrole, peer, hpeer, Or.inl hok⟩
  | win req calls _ _ _ hnode hpipe heq =>
    refine ⟨_, _, by rw [heq, appendRequests_append], ?_, ?_⟩
    · rw [hpipe]
      exact appendRequests_sublist (List.sublist_cons_self _ _)
    · intro req hreq
      rw [appendRequests_map] at hreq
      obtain ⟨peer, hpeer, rfl⟩ := List.mem_map.mp hreq
      exact ⟨by rw [hnode]; rfl, peer, hpeer, Or.inr rfl⟩

/-- The requests that are on their way were issued by the node that sends them. -/
structure Carried (h : List (Move Cluster Action)) (c : Cluster) : Prop where
  pipeline : ∀ a req, .appendEntriesRequestEvent req ∈ c.pipeline a → Issued h c a req
  orphans : ∀ orphan ∈ c.orphans, ∀ req, orphan.event = .appendEntriesRequestEvent req →
    orphan.peer = req.toNode ∧ ∃ a, Issued h c a req

theorem pending_call {cfg : Config} {h : List (Move Cluster Action)} {c : Cluster}
    (run : Run (cluster cfg) h c) {a p : NodeId} {req : AppendEntriesRequest}
    {calls : List (NodeId × Call)}
    (hphase : c.phase a = .awaiting (.appendEntriesRequestEvent req) calls)
    (hcall : (p, Call.pending) ∈ calls) : p = req.toNode ∧ calls = [(req.toNode, .pending)] := by
  have hawaited := ((ownRuns_of_run run).awaited (members_of_run run) hphase).2
  cases hawaited with
  | pending => exact ⟨by simpa using hcall, rfl⟩
  | answered => simp at hcall
  | failed => simp at hcall

theorem carried_of_run {cfg : Config} {h : List (Move Cluster Action)} {c : Cluster}
    (run : Run (cluster cfg) h c) : Carried h c := by
  apply run.induct Carried ⟨?_, ?_⟩ ?_
  · intro a req hmem
    rw [Cluster.cluster_init, Cluster.pipeline_initial] at hmem
    cases hmem
  · intro orphan hmem
    cases hmem
  · intro h c c' act run inv hstep
    constructor
    · intro a req hmem
      obtain ⟨old, fresh, heq, hold, hfresh⟩ := appendRequests_move hstep a
      rw [← mem_appendRequests, heq] at hmem
      rcases List.mem_append.mp hmem with hmem | hmem
      · exact (inv.pipeline a req (mem_appendRequests.mp (hold.subset hmem))).next
      · exact ⟨c', mem_moments_self _ c', hfresh req hmem⟩
    · intro orphan hmem req hevent
      rcases Cluster.orphans_move hstep with hsub | ⟨a, p, _, event, calls, hphase, hcall, _, heq⟩
      · obtain ⟨hpeer, a, hissued⟩ := inv.orphans orphan (hsub hmem) req hevent
        exact ⟨hpeer, a, hissued.next⟩
      · rw [heq] at hmem
        rcases List.mem_append.mp hmem with hold | hnew
        · obtain ⟨hpeer, a, hissued⟩ := inv.orphans orphan hold req hevent
          exact ⟨hpeer, a, hissued.next⟩
        · obtain rfl := List.mem_singleton.mp hnew
          dsimp only at hevent ⊢
          subst hevent
          refine ⟨?_, a, (inv.pipeline a req (mem_pipeline_of_awaiting hphase)).next⟩
          exact (pending_call run hphase hcall).1

theorem issued_of_handled {cfg : Config} {h : List (Move Cluster Action)} {c c' : Cluster}
    {act : Action} (run : Run (cluster cfg) h c) (hstep : c.step act = some c') {v : NodeId}
    {req : AppendEntriesRequest}
    (hhandled : c.handled act = some (v, .appendEntriesRequestEvent req)) :
    v = req.toNode ∧ ∃ a, Issued h c a req := by
  have carried := carried_of_run run
  cases act with
  | deliver a p =>
    obtain ⟨event, calls, hphase, hcall, _⟩ := Cluster.deliver_eq_some hstep
    simp only [Cluster.handled, hphase, Option.some.injEq, Prod.mk.injEq] at hhandled
    obtain ⟨rfl, rfl⟩ := hhandled
    exact ⟨(pending_call run hphase hcall).1, a,
      carried.pipeline a req (mem_pipeline_of_awaiting hphase)⟩
  | deliverOrphan k =>
    obtain ⟨orphan, horphan, heq⟩ := Option.map_eq_some_iff.mp hhandled
    obtain ⟨rfl, hevent⟩ := Prod.mk.injEq .. ▸ heq
    exact carried.orphans orphan (List.mem_of_getElem? horphan) req hevent
  | _ => cases hhandled

/-- The step in which `p` answered the request that `a` awaits. -/
structure AnsweredBy (m : Move Cluster Action) (a p : NodeId) (req : AppendEntriesRequest)
    (response : AppendEntriesResponse) : Prop where
  action : m.action = .deliver a p
  awaited : m.before.phase a = .awaiting (.appendEntriesRequestEvent req) [(p, .pending)]
  step : m.before.step m.action = some m.after
  reply : ((m.before.node p).stepAppendEntriesRequest req).2 =
    .appendEntriesResponseEvent response

theorem AnsweredBy.handled {m : Move Cluster Action} {a p : NodeId} {req : AppendEntriesRequest}
    {response : AppendEntriesResponse} (h : AnsweredBy m a p req response) :
    m.before.handled m.action = some (p, .appendEntriesRequestEvent req) := by
  rw [h.action]
  simp [Cluster.handled, h.awaited]

/-- A reply that a loop has received was given to the request it awaits, by its addressee,
and the loop's node has not changed since. -/
theorem answered_of_run {cfg : Config} {h : List (Move Cluster Action)} {c : Cluster}
    (run : Run (cluster cfg) h c) {a p : NodeId} {req : AppendEntriesRequest}
    {response : AppendEntriesResponse}
    (hphase : c.phase a = .awaiting (.appendEntriesRequestEvent req)
      [(p, .answered (.appendEntriesResponseEvent response))]) :
    p = req.toNode ∧ ∃ m ∈ h, AnsweredBy m a p req response ∧ m.before.node a = c.node a := by
  have hawaited := ((ownRuns_of_run run).awaited (members_of_run run) hphase).2
  have hp : p = req.toNode := by
    cases hawaited
    rfl
  refine ⟨hp, ?_⟩
  clear hawaited
  subst hp
  induction run with
  | start => exact absurd hphase (Cluster.not_awaiting_initial cfg a)
  | @next h c c' act run hstep ih =>
    have hkept : ∀ {calls}, c.phase a = .awaiting (.appendEntriesRequestEvent req) calls →
        c.node a = c'.node a := fun hbefore =>
      (Cluster.node_of_awaiting hstep hbefore hphase).symm
    cases Cluster.await_move hstep hphase with
    | idle hbefore =>
      obtain ⟨m, hm, hanswered, hsame⟩ := ih hbefore
      exact ⟨m, List.mem_cons_of_mem _ hm, hanswered, hsame.trans (hkept hbefore)⟩
    | answer p before hact hbefore hcall hp hne heq =>
      obtain ⟨rfl, rfl⟩ := pending_call run hbefore hcall
      obtain ⟨response', hreply, hrespond⟩ := RaftServer.respond_append (c.servers req.toNode) req
      rw [hrespond] at heq
      simp only [setCall, List.map_cons, List.map_nil, if_true, List.cons.injEq, Prod.mk.injEq,
        Call.answered.injEq, RaftEvent.appendEntriesResponseEvent.injEq, true_and, and_true]
        at heq
      subst heq
      exact ⟨_, List.mem_cons_self, ⟨hact, hbefore, hstep, hreply⟩, hkept hbefore⟩
    | fail p status before hbefore heq =>
      have hawaited := ((ownRuns_of_run run).awaited (members_of_run run) hbefore).2
      cases hawaited with
      | pending =>
        by_cases hp : req.toNode = p <;> simp [setCall, hp] at heq
      | answered req' response' =>
        by_cases hp : req.toNode = p
        · simp [setCall, hp] at heq
        · simp only [setCall, List.map_cons, List.map_nil, if_neg hp, List.cons.injEq,
            Prod.mk.injEq, Call.answered.injEq, RaftEvent.appendEntriesResponseEvent.injEq,
            true_and, and_true] at heq
          subst heq
          obtain ⟨m, hm, hanswered, hsame⟩ := ih hbefore
          exact ⟨m, List.mem_cons_of_mem _ hm, hanswered, hsame.trans (hkept hbefore)⟩
      | failed => by_cases hp : req.toNode = p <;> simp [setCall, hp] at heq
    | append _ _ _ _ _ _ heq => simp at heq
    | votes _ _ _ hevent _ _ => cases hevent

theorem AnsweredBy.node {m : Move Cluster Action} {a p : NodeId} {req : AppendEntriesRequest}
    {response : AppendEntriesResponse} (h : AnsweredBy m a p req response) :
    m.after.node p = ((m.before.node p).stepAppendEntriesRequest req).1 :=
  Cluster.node_of_append h.step h.handled

/-- What a reply says: that the request was rejected, or where the log now ends. -/
def Reports (log log' : RaftLog) (req : AppendEntriesRequest) (response : AppendEntriesResponse) :
    Prop :=
  (response.success = false ∧ RaftNode.appendLog log req = none) ∨
    (response.success = true ∧ response.term = req.term ∧
      RaftNode.appendLog log req = some log' ∧ response.lastAppliedIndex = log'.lastLogIndex)

theorem Reports.of_success {log log' : RaftLog} {req : AppendEntriesRequest}
    {response : AppendEntriesResponse} (h : Reports log log' req response)
    (hsuccess : response.success = true) :
    response.term = req.term ∧ RaftNode.appendLog log req = some log' ∧
      response.lastAppliedIndex = log'.lastLogIndex := by
  rcases h with ⟨hfailed, _⟩ | ⟨_, hreport⟩
  · rw [hsuccess] at hfailed
    cases hfailed
  · exact hreport

theorem Reports.of_failure {log log' : RaftLog} {req : AppendEntriesRequest}
    {response : AppendEntriesResponse} (h : Reports log log' req response)
    (hfailed : response.success = false) : RaftNode.appendLog log req = none := by
  rcases h with ⟨_, hlog⟩ | ⟨hsuccess, _⟩
  · exact hlog
  · rw [hfailed] at hsuccess
    cases hsuccess

theorem AnsweredBy.reports {m : Move Cluster Action} {a p : NodeId} {req : AppendEntriesRequest}
    {response : AppendEntriesResponse} (h : AnsweredBy m a p req response)
    (hid : (m.before.node p).id = p) :
    response.fromNode = p ∧
      Reports (m.before.node p).log (m.after.node p).log req response := by
  have hreply := h.reply
  have hnode := h.node
  rcases RaftNode.stepAppendEntriesRequest_cases (m.before.node p) req with ⟨hlog, heq⟩ |
    ⟨log, hlog, heq⟩
  · rw [heq] at hreply
    cases hreply
    exact ⟨hid, Or.inl ⟨rfl, hlog⟩⟩
  · rw [heq] at hreply hnode
    cases hreply
    refine ⟨hid, Or.inr ⟨rfl, rfl, ?_, ?_⟩⟩
    · rw [hlog, hnode]
    · rw [hnode]

theorem issued_of_awaiting {cfg : Config} {h : List (Move Cluster Action)} {c : Cluster}
    (run : Run (cluster cfg) h c) {a : NodeId} {req : AppendEntriesRequest}
    {calls : List (NodeId × Call)}
    (hphase : c.phase a = .awaiting (.appendEntriesRequestEvent req) calls) :
    Issued h c a req ∧ req.leaderId = a ∧ req.toNode ∈ cfg.peersOf a := by
  have hissued := (carried_of_run run).pipeline a req (mem_pipeline_of_awaiting hphase)
  obtain ⟨x, hx, hissues⟩ := hissued
  have members : Members cfg x := run.of_mem_moments (Members cfg) members_of_run hx
  obtain ⟨hid, _, hpeer, _⟩ := hissues.header
  exact ⟨⟨x, hx, hissues⟩, hid.trans (members.id a), members.peers a ▸ hpeer⟩

theorem reply_of_run {cfg : Config} {h : List (Move Cluster Action)} {c : Cluster}
    (run : Run (cluster cfg) h c) {a p : NodeId} {req : AppendEntriesRequest}
    {response : AppendEntriesResponse}
    (hphase : c.phase a = .awaiting (.appendEntriesRequestEvent req)
      [(p, .answered (.appendEntriesResponseEvent response))]) :
    response.fromNode = req.toNode ∧ ∃ m ∈ h, AnsweredBy m a req.toNode req response ∧
      m.before.node a = c.node a ∧
      Reports (m.before.node req.toNode).log (m.after.node req.toNode).log req response := by
  obtain ⟨rfl, m, hm, hanswered, hsame⟩ := answered_of_run run hphase
  obtain ⟨_, _, _, h', run', _⟩ := run.of_mem hm
  obtain ⟨hfrom, hreports⟩ := hanswered.reports ((members_of_run run').id _)
  exact ⟨hfrom, m, hm, hanswered, hsame, hreports⟩

/-- A success reports where the addressee's log has ended at some moment. -/
theorem exists_lastLogIndex_eq {cfg : Config} {h : List (Move Cluster Action)} {c : Cluster}
    (run : Run (cluster cfg) h c) {a p : NodeId} {req : AppendEntriesRequest}
    {response : AppendEntriesResponse}
    (hphase : c.phase a = .awaiting (.appendEntriesRequestEvent req)
      [(p, .answered (.appendEntriesResponseEvent response))])
    (hsuccess : response.success = true) :
    ∃ x ∈ moments h c, response.lastAppliedIndex = (x.node req.toNode).log.lastLogIndex := by
  obtain ⟨_, m, hm, _, _, hreports⟩ := reply_of_run run hphase
  obtain ⟨_, _, hafter, _⟩ := run.of_mem hm
  obtain ⟨_, _, hreport⟩ := hreports.of_success hsuccess
  exact ⟨m.after, hafter, hreport⟩

theorem lastAppliedIndex_ge_of_run {cfg : Config} {h : List (Move Cluster Action)} {c : Cluster}
    (run : Run (cluster cfg) h c) {a p : NodeId} {req : AppendEntriesRequest}
    {response : AppendEntriesResponse}
    (hphase : c.phase a = .awaiting (.appendEntriesRequestEvent req)
      [(p, .answered (.appendEntriesResponseEvent response))])
    (hsuccess : response.success = true) : -1 ≤ response.lastAppliedIndex := by
  obtain ⟨x, _, hreport⟩ := exists_lastLogIndex_eq run hphase hsuccess
  rw [hreport, RaftLog.lastLogIndex]
  omega

theorem fromNode_mem_peers {cfg : Config} {h : List (Move Cluster Action)} {c : Cluster}
    (run : Run (cluster cfg) h c) {a p : NodeId} {req : AppendEntriesRequest}
    {response : AppendEntriesResponse}
    (hphase : c.phase a = .awaiting (.appendEntriesRequestEvent req)
      [(p, .answered (.appendEntriesResponseEvent response))]) :
    response.fromNode ∈ (c.node a).peers := by
  rw [(reply_of_run run hphase).1, (members_of_run run).peers]
  exact (issued_of_awaiting run hphase).2.2

end Rafting
