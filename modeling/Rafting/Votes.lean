import Rafting.Membership
import Rafting.Library.Majority

/-! Votes over a whole run. A node votes when it grants a request and when it
stands for election itself; both raise its term to the vote's term, so it votes
at most once in a term although `voted_for` is cleared again and again. -/
namespace Rafting
open Transition Majority

/-- In this step `v` votes for the sender of `req`. -/
inductive Cluster.Votes (c : Cluster) (act : Action) (v : NodeId) (req : RequestVoteRequest) :
    Prop
  | grant (hhandled : c.handled act = some (v, .peerVotesRequestEvent req))
      (hnewer : (c.node v).currentTerm < req.term)
  | stand (hact : act = .tick v) (node : RaftNode) (htick : (c.node v).tick = .ok node)
      (hnewer : (c.node v).currentTerm < node.currentTerm) (hreq : req = node.voteRequest)

def Voted (h : List (Move Cluster Action)) (v : NodeId) (req : RequestVoteRequest) : Prop :=
  ∃ m ∈ h, m.before.Votes m.action v req

def Elected (cfg : Config) (h : List (Move Cluster Action)) (req : RequestVoteRequest) : Prop :=
  ∃ quorum, IsMajority cfg.ids.toFinset quorum ∧ ∀ v ∈ quorum, Voted h v req

theorem Voted.next {h : List (Move Cluster Action)} {v : NodeId} {req : RequestVoteRequest}
    (hv : Voted h v req) (m : Move Cluster Action) : Voted (m :: h) v req := by
  obtain ⟨m', hm', hvotes⟩ := hv
  exact ⟨m', List.mem_cons_of_mem m hm', hvotes⟩

theorem Elected.next {cfg : Config} {h : List (Move Cluster Action)} {req : RequestVoteRequest}
    (he : Elected cfg h req) (m : Move Cluster Action) : Elected cfg (m :: h) req := by
  obtain ⟨quorum, hmajority, hvoted⟩ := he
  exact ⟨quorum, hmajority, fun v hv => (hvoted v hv).next m⟩

theorem voted_cons {h : List (Move Cluster Action)} {c c' : Cluster} {act : Action} {v : NodeId}
    {req : RequestVoteRequest} :
    Voted (⟨c, act, c'⟩ :: h) v req ↔ c.Votes act v req ∨ Voted h v req := by
  simp [Voted]

namespace Cluster

theorem Votes.term {c c' : Cluster} {act : Action} {v : NodeId} {req : RequestVoteRequest}
    (hv : c.Votes act v req) (h : c.step act = some c') :
    c.phase v = .selecting ∧ (c.node v).currentTerm < req.term ∧
      (c'.node v).currentTerm = req.term := by
  cases hv with
  | grant hhandled hnewer =>
    refine ⟨(servers_of_handled h hhandled).1, hnewer, ?_⟩
    rw [node_of_vote h hhandled, RaftNode.stepPeerVotesRequest_eq, if_pos hnewer]
    rfl
  | stand hact node htick hnewer hreq =>
    subst hact
    obtain ⟨hphase, hnode⟩ := node_of_tick h htick
    exact ⟨hphase, by rw [hreq]; exact hnewer, by rw [hnode, hreq]; rfl⟩

theorem Votes.unique {c : Cluster} {act : Action} {v : NodeId} {req req' : RequestVoteRequest}
    (hv : c.Votes act v req) (hv' : c.Votes act v req') : req = req' := by
  cases hv with
  | grant hhandled _ =>
    cases hv' with
    | grant hhandled' _ =>
      rw [hhandled] at hhandled'
      simpa using hhandled'
    | stand hact => subst hact; cases hhandled
  | stand hact node htick _ hreq =>
    cases hv' with
    | grant hhandled' _ => subst hact; cases hhandled'
    | stand _ node' htick' _ hreq' =>
      rw [htick] at htick'
      cases htick'
      rw [hreq, hreq']

end Cluster

def grantsVote : Call → Bool
  | .answered (.requestVoteResponseEvent response) => response.voteGranted
  | _ => false

def granters (calls : List (NodeId × Call)) : List NodeId :=
  (calls.filter fun call => grantsVote call.2).map Prod.fst

theorem length_granters (calls : List (NodeId × Call)) :
    (granters calls).length =
      ((PeerNetwork.voteResponses calls).filter fun r => r.voteGranted).length := by
  rw [granters, PeerNetwork.voteResponses, List.length_map, ← List.countP_eq_length_filter,
    ← List.countP_eq_length_filter, List.countP_filterMap]
  apply List.countP_congr
  intro call _
  obtain ⟨p, outcome⟩ := call
  cases outcome with
  | answered reply => cases reply <;> simp [grantsVote]
  | _ => simp [grantsVote]

theorem mem_granters {calls : List (NodeId × Call)} {p : NodeId} :
    p ∈ granters calls ↔ ∃ outcome, (p, outcome) ∈ calls ∧ grantsVote outcome = true := by
  simp [granters]

theorem granters_sublist (calls : List (NodeId × Call)) :
    (granters calls).Sublist (calls.map Prod.fst) :=
  (List.filter_sublist).map Prod.fst

def ballotTerms (events : List RaftEvent) : List Int :=
  events.filterMap fun event =>
    match event with
    | .peerVotesRequestEvent req => some req.term
    | _ => none

theorem mem_ballotTerms {events : List RaftEvent} {term : Int} :
    term ∈ ballotTerms events ↔ ∃ req, .peerVotesRequestEvent req ∈ events ∧ req.term = term := by
  simp only [ballotTerms, List.mem_filterMap]
  constructor
  · rintro ⟨event, hmem, hterm⟩
    cases event with
    | peerVotesRequestEvent req => exact ⟨req, hmem, by simpa using hterm⟩
    | _ => cases hterm
  · rintro ⟨req, hmem, rfl⟩
    exact ⟨_, hmem, rfl⟩

@[simp] theorem ballotTerms_appends (requests : List AppendEntriesRequest) :
    ballotTerms (requests.map .appendEntriesRequestEvent) = [] := by
  simp [ballotTerms]

@[simp] theorem ballotTerms_append (events events' : List RaftEvent) :
    ballotTerms (events ++ events') = ballotTerms events ++ ballotTerms events' := by
  simp [ballotTerms]

theorem ballot_move {c c' : Cluster} {act : Action} (h : c.step act = some c') {a : NodeId}
    {req : RequestVoteRequest} (hmem : .peerVotesRequestEvent req ∈ c'.pipeline a) :
    .peerVotesRequestEvent req ∈ c.pipeline a ∨
      act = .tick a ∧ (c'.node a).currentTerm = (c.node a).currentTerm + 1 ∧
        (c'.node a).log = (c.node a).log ∧ req = (c'.node a).voteRequest := by
  cases Cluster.pipeline_move h a with
  | keep heq => exact Or.inl (heq ▸ hmem)
  | drop event heq => exact Or.inl (heq ▸ List.mem_cons_of_mem event hmem)
  | stand hact _ hterm hlog heq =>
    rw [heq] at hmem
    rcases List.mem_append.mp hmem with hmem | hmem
    · exact Or.inl hmem
    · exact Or.inr ⟨hact, hterm, hlog, by simpa using hmem⟩
  | lead requests _ _ _ heq =>
    rw [heq] at hmem
    exact Or.inl (by simpa using hmem)
  | win req' calls _ _ _ _ hpipe heq =>
    rw [heq] at hmem
    exact Or.inl (hpipe ▸ List.mem_cons_of_mem _ (by simpa using hmem))

/-- The bookkeeping of votes in a run: what was voted, what is still asked for,
and what has been answered. -/
structure Ballots (cfg : Config) (h : List (Move Cluster Action)) (c : Cluster) : Prop where
  term_le : ∀ v req, Voted h v req → req.term ≤ (c.node v).currentTerm
  member : ∀ v req, Voted h v req → v ∈ cfg.ids
  unique : ∀ v req req', Voted h v req → Voted h v req' → req.term = req'.term → req = req'
  requests : ∀ a req, .peerVotesRequestEvent req ∈ c.pipeline a →
    req.candidateId = a ∧ Voted h a req
  ordered : ∀ a, (ballotTerms (c.pipeline a)).Pairwise (· < ·)
  granted : ∀ a req calls, c.phase a = .awaiting (.peerVotesRequestEvent req) calls →
    ∀ p ∈ granters calls, Voted h p req

theorem ballots_initial (cfg : Config) : Ballots cfg [] (Cluster.initial cfg) where
  term_le := by simp [Voted]
  member := by simp [Voted]
  unique := by simp [Voted]
  requests := by
    intro a req hmem
    rw [Cluster.pipeline_initial] at hmem
    cases hmem
  ordered := by
    intro a
    rw [Cluster.pipeline_initial]
    exact List.Pairwise.nil
  granted := fun a _ _ hphase => absurd hphase (Cluster.not_awaiting_initial cfg a)

section Step
variable {cfg : Config} {h : List (Move Cluster Action)} {c c' : Cluster} {act : Action}

theorem Ballots.step_term_le (inv : Ballots cfg h c) (hstep : c.step act = some c') (v : NodeId)
    (req : RequestVoteRequest) (hv : Voted (⟨c, act, c'⟩ :: h) v req) :
    req.term ≤ (c'.node v).currentTerm := by
  rcases voted_cons.mp hv with hnow | hold
  · exact (hnow.term hstep).2.2.ge
  · exact (inv.term_le v req hold).trans (Cluster.currentTerm_mono hstep v)

theorem Ballots.step_unique (inv : Ballots cfg h c) (hstep : c.step act = some c') (v : NodeId)
    (req req' : RequestVoteRequest) (hv : Voted (⟨c, act, c'⟩ :: h) v req)
    (hv' : Voted (⟨c, act, c'⟩ :: h) v req') (hterm : req.term = req'.term) : req = req' := by
  rcases voted_cons.mp hv with hnow | hold <;> rcases voted_cons.mp hv' with hnow' | hold'
  · exact hnow.unique hnow'
  · have hlt := (hnow.term hstep).2.1
    have hle := inv.term_le v req' hold'
    omega
  · have hlt := (hnow'.term hstep).2.1
    have hle := inv.term_le v req hold
    omega
  · exact inv.unique v req req' hold hold' hterm

theorem Ballots.step_requests (members : Members cfg c) (inv : Ballots cfg h c)
    (hstep : c.step act = some c') (a : NodeId) (req : RequestVoteRequest)
    (hmem : .peerVotesRequestEvent req ∈ c'.pipeline a) :
    req.candidateId = a ∧ Voted (⟨c, act, c'⟩ :: h) a req := by
  rcases ballot_move hstep hmem with hold | ⟨rfl, hterm, _, hreq⟩
  · exact ⟨(inv.requests a req hold).1, (inv.requests a req hold).2.next _⟩
  · cases htick : (c.node a).tick with
    | error fault =>
      exfalso
      obtain ⟨_, rfl⟩ := Cluster.turn_eq_some hstep
      rw [Cluster.node, Cluster.servers_set_self, RaftServer.selectTick,
        show (c.servers a).node.tick = _ from htick] at hterm
      change (c.node a).currentTerm = (c.node a).currentTerm + 1 at hterm
      omega
    | ok node =>
      have hnode := (Cluster.node_of_tick hstep htick).2
      rw [hnode] at hreq hterm
      refine ⟨?_, voted_cons.mpr (Or.inl (.stand rfl node htick (by omega) hreq))⟩
      rw [hreq, ← hnode]
      exact (members.step hstep).id a

theorem Ballots.step_ordered (inv : Ballots cfg h c) (hstep : c.step act = some c') (a : NodeId) :
    (ballotTerms (c'.pipeline a)).Pairwise (· < ·) := by
  have hold := inv.ordered a
  cases Cluster.pipeline_move hstep a with
  | keep heq => exact heq ▸ hold
  | drop event heq =>
    rw [heq] at hold
    have hsub : (ballotTerms (c'.pipeline a)).Sublist (ballotTerms (event :: c'.pipeline a)) :=
      (List.sublist_cons_self event _).filterMap _
    exact hold.sublist hsub
  | stand _ _ hterm _ heq =>
    rw [heq, ballotTerms_append, List.pairwise_append]
    refine ⟨hold, List.pairwise_singleton _ _, ?_⟩
    intro term hmem term' hmem'
    obtain ⟨req, hreq, rfl⟩ := mem_ballotTerms.mp hmem
    have hle := inv.term_le a req (inv.requests a req hreq).2
    have hterm' : term' = (c'.node a).voteRequest.term := by simpa [ballotTerms] using hmem'
    change term' = (c'.node a).currentTerm at hterm'
    omega
  | lead requests _ _ _ heq => simpa [heq] using hold
  | win req calls _ _ _ _ hpipe heq =>
    have hmap : ((c'.node a).peers.map fun peer =>
        RaftEvent.appendEntriesRequestEvent ((c'.node a).leaderHeartbeat peer)) =
        ((c'.node a).peers.map (c'.node a).leaderHeartbeat).map .appendEntriesRequestEvent := by
      simp [Function.comp_def]
    rw [heq, hmap, ballotTerms_append, ballotTerms_appends, List.append_nil]
    rw [hpipe] at hold
    have hsub : (ballotTerms (c.node a).nodeToPeersTx).Sublist
        (ballotTerms (.peerVotesRequestEvent req :: (c.node a).nodeToPeersTx)) :=
      (List.sublist_cons_self _ _).filterMap _
    exact hold.sublist hsub

theorem Ballots.step_granted (inv : Ballots cfg h c) (hstep : c.step act = some c') (a : NodeId)
    (req : RequestVoteRequest) (calls : List (NodeId × Call))
    (hphase : c'.phase a = .awaiting (.peerVotesRequestEvent req) calls) (p : NodeId)
    (hp : p ∈ granters calls) : Voted (⟨c, act, c'⟩ :: h) p req := by
  cases Cluster.await_move hstep hphase with
  | idle hbefore => exact (inv.granted a req calls hbefore p hp).next _
  | answer p' before hact hbefore hcall hselecting hne heq =>
    obtain ⟨outcome, hmem, hgrants⟩ := mem_granters.mp hp
    rw [heq] at hmem
    obtain ⟨call, hcall', hset⟩ := List.mem_map.mp hmem
    by_cases hkey : call.1 = p'
    · rw [if_pos hkey] at hset
      cases hset
      by_cases hnewer : (c.node p).currentTerm < req.term
      · refine voted_cons.mpr (Or.inl (.grant ?_ hnewer))
        simp [hact, Cluster.handled, hbefore]
      · exfalso
        rw [RaftServer.respond_vote] at hgrants
        exact hnewer (of_decide_eq_true hgrants)
    · rw [if_neg hkey] at hset
      subst hset
      exact (inv.granted a req before hbefore _ (mem_granters.mpr ⟨_, hcall', hgrants⟩)).next _
  | fail p' status before hbefore heq =>
    obtain ⟨outcome, hmem, hgrants⟩ := mem_granters.mp hp
    rw [heq] at hmem
    obtain ⟨call, hcall', hset⟩ := List.mem_map.mp hmem
    by_cases hkey : call.1 = p'
    · rw [if_pos hkey] at hset
      cases hset
      cases hgrants
    · rw [if_neg hkey] at hset
      subst hset
      exact (inv.granted a req before hbefore _ (mem_granters.mpr ⟨_, hcall', hgrants⟩)).next _
  | append _ _ _ hevent _ _ _ => cases hevent
  | votes _ _ _ _ _ heq =>
    obtain ⟨outcome, hmem, hgrants⟩ := mem_granters.mp hp
    rw [heq] at hmem
    obtain ⟨peer, _, hpeer⟩ := List.mem_map.mp hmem
    cases hpeer
    cases hgrants

theorem Ballots.step (members : Members cfg c) (inv : Ballots cfg h c)
    (hstep : c.step act = some c') : Ballots cfg (⟨c, act, c'⟩ :: h) c' where
  term_le := inv.step_term_le hstep
  member := by
    intro v req hv
    rcases voted_cons.mp hv with hnow | hold
    · exact members.mem_ids_of_selecting (hnow.term hstep).1
    · exact inv.member v req hold
  unique := inv.step_unique hstep
  requests := inv.step_requests members hstep
  ordered := inv.step_ordered hstep
  granted := inv.step_granted hstep

end Step

theorem ballots_of_run {cfg : Config} {h : List (Move Cluster Action)} {c : Cluster}
    (run : Run (cluster cfg) h c) : Ballots cfg h c :=
  run.induct (Ballots cfg) (ballots_initial cfg) fun hrun inv hstep =>
    inv.step (members_of_run hrun) hstep

theorem Config.isMajority_of_peers (cfg : Config) {a : NodeId} (ha : a ∈ cfg.ids)
    {ps : List NodeId} (hnodup : ps.Nodup) (hpeers : ∀ p ∈ ps, p ∈ cfg.peersOf a)
    (hcount : ((cfg.peersOf a).length + 1) / 2 ≤ ps.length) :
    IsMajority cfg.ids.toFinset (insert a ps.toFinset) := by
  refine isMajority_insert (by simpa using ha) ?_ ?_
  · intro p hp
    simpa using (cfg.mem_peersOf ha).mp (hpeers p (List.mem_toFinset.mp hp))
  · rw [List.toFinset_card_of_nodup cfg.ids_nodup, List.toFinset_card_of_nodup hnodup,
      ← cfg.length_peersOf ha]
    exact hcount

theorem elected_of_quorum {cfg : Config} {h : List (Move Cluster Action)} {c : Cluster}
    (members : Members cfg c) (inv : Ballots cfg h c) {a : NodeId} {req : RequestVoteRequest}
    {calls : List (NodeId × Call)}
    (hphase : c.phase a = .awaiting (.peerVotesRequestEvent req) calls)
    (hquorum : (c.node a).quorumSize ≤
      ((PeerNetwork.voteResponses calls).filter fun r => r.voteGranted).length) :
    Elected cfg h req := by
  have ha := members.mem_ids_of_awaiting hphase
  have hvoted := (inv.requests a req (mem_pipeline_of_awaiting hphase)).2
  have htargets : (calls.map Prod.fst).Nodup ∧ ∀ p ∈ calls.map Prod.fst, p ∈ cfg.peersOf a := by
    rcases members.targets a _ calls hphase with hsub | ⟨p, hp, heq⟩
    · exact ⟨(cfg.peersOf_nodup ha).sublist hsub, hsub.subset⟩
    · simpa [heq] using hp
  have hnodup : (granters calls).Nodup := htargets.1.sublist (granters_sublist calls)
  refine ⟨insert a (granters calls).toFinset, cfg.isMajority_of_peers ha hnodup ?_ ?_, ?_⟩
  · exact fun p hp => htargets.2 p ((granters_sublist calls).subset hp)
  · rw [length_granters]
    simpa [RaftNode.quorumSize, members.peers a] using hquorum
  · intro v hv
    rcases Finset.mem_insert.mp hv with rfl | hv
    · exact hvoted
    · exact inv.granted a req calls hphase v (List.mem_toFinset.mp hv)

/-- Two majorities of one term share a voter, who votes once: they elect one sender. -/
theorem Elected.unique {cfg : Config} {h : List (Move Cluster Action)} {c : Cluster}
    (inv : Ballots cfg h c) {req req' : RequestVoteRequest} (he : Elected cfg h req)
    (he' : Elected cfg h req') (hterm : req.term = req'.term) : req = req' := by
  obtain ⟨quorum, hmajority, hvoted⟩ := he
  obtain ⟨quorum', hmajority', hvoted'⟩ := he'
  obtain ⟨v, hv, hv'⟩ := hmajority.meet hmajority'
  exact inv.unique v req req' (hvoted v hv) (hvoted' v hv') hterm

end Rafting
