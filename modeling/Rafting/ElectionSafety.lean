import Rafting.Votes

/-! Election safety. A vote round is three events: a candidate queues its request,
the loop sends it, and the replies are counted. The count looks at neither the
node's role nor its term, so it elects a node in a term that nobody voted in when
the term has moved on between the first event and the second. -/
namespace Rafting
open Transition

/-- No two nodes are leaders of one term, at whatever moments of the run. -/
def ElectionSafe (h : List (Move Cluster Action)) (c : Cluster) : Prop :=
  ∀ x ∈ moments h c, ∀ y ∈ moments h c, ∀ a b,
    (x.node a).state = .leader → (y.node b).state = .leader →
    (x.node a).currentTerm = (y.node b).currentTerm → a = b

/-- A quorum of votes is counted only by a node that is still in the term it
asked for them. -/
def CountsOwnTerm (c : Cluster) (act : Action) : Prop :=
  ∀ round ∈ c.counted act,
    (c.node round.1).quorumSize ≤
      ((PeerNetwork.voteResponses round.2.2).filter fun r => r.voteGranted).length →
    (c.node round.1).currentTerm = round.2.1.term

instance (c : Cluster) (act : Action) : Decidable (CountsOwnTerm c act) :=
  inferInstanceAs (Decidable (∀ round ∈ c.counted act, _ → _))

def LeadersElected (cfg : Config) (h : List (Move Cluster Action)) (c : Cluster) : Prop :=
  ∀ x ∈ moments h c, ∀ a, (x.node a).state = .leader →
    ∃ req, req.candidateId = a ∧ req.term = (x.node a).currentTerm ∧ Elected cfg h req

theorem leadersElected_of_run {cfg : Config} {h : List (Move Cluster Action)} {c : Cluster}
    (run : Run (cluster cfg) h c) (hm : Meets CountsOwnTerm h) : LeadersElected cfg h c := by
  apply run.invariant CountsOwnTerm (LeadersElected cfg) ?_ ?_ hm
  · intro x hx a hleader
    exact absurd hleader (Cluster.not_leader_of_start hx a)
  · intro h c c' act run _ inv hcond hstep x hx a hleader
    have hkeep : ∀ y ∈ moments h c, (y.node a).state = .leader → ∃ req, req.candidateId = a ∧
        req.term = (y.node a).currentTerm ∧ Elected cfg (⟨c, act, c'⟩ :: h) req := by
      intro y hy hy'
      obtain ⟨req, hid, hterm, helected⟩ := inv y hy a hy'
      exact ⟨req, hid, hterm, helected.next _⟩
    rcases mem_moments_next.mp hx with rfl | hx
    · obtain ⟨hterm, hrole | ⟨req, calls, hcounted, hquorum⟩⟩ := Cluster.leads_or_wins hstep hleader
      · rw [hterm]
        exact hkeep c (mem_moments_self h c) hrole
      · have hown := hcond _ hcounted hquorum
        have ballots := ballots_of_run run
        have hphase := (Cluster.counted_cases hcounted).2
        have hasked := (ballots.requests a req (mem_pipeline_of_awaiting hphase)).1
        exact ⟨req, hasked, by rw [hterm]; exact hown.symm,
          (elected_of_quorum (members_of_run run) ballots hphase hquorum).next _⟩
    · exact hkeep x hx hleader

theorem leader_unique {cfg : Config} {h : List (Move Cluster Action)} {c x y : Cluster}
    (run : Run (cluster cfg) h c) (hm : Meets CountsOwnTerm h) (hx : x ∈ moments h c)
    (hy : y ∈ moments h c) {a b : NodeId} (ha : (x.node a).state = .leader)
    (hb : (y.node b).state = .leader)
    (hterm : (x.node a).currentTerm = (y.node b).currentTerm) : a = b := by
  obtain ⟨req, hid, hreq, helected⟩ := leadersElected_of_run run hm x hx a ha
  obtain ⟨req', hid', hreq', helected'⟩ := leadersElected_of_run run hm y hy b hb
  have hsame : req = req' :=
    helected.unique (ballots_of_run run) helected' (by rw [hreq, hreq', hterm])
  rw [← hid, ← hid', hsame]

theorem electionSafe_of_countsOwnTerm {cfg : Config} {h : List (Move Cluster Action)} {c : Cluster}
    (run : Run (cluster cfg) h c) (hm : Meets CountsOwnTerm h) : ElectionSafe h c :=
  fun _ hx _ hy _ _ ha hb hterm => leader_unique run hm hx hy ha hb hterm

theorem electionSafe_of_countsOwnTerm_elected :
    ∃ h c, Run (cluster threeNodes) h c ∧ (c.node "node1").state = .leader ∧ ElectionSafe h c := by
  obtain ⟨h, c, run, hm, hleader⟩ := exists_run_of_exec (cluster threeNodes) CountsOwnTerm
    (fun c => (c.node "node1").state = .leader)
    (threeNodes.allUp ++ electionTimeout "node1" ++ exchange "node1" ["node2", "node3"])
    (by decide +kernel)
  exact ⟨h, c, run, hleader, electionSafe_of_countsOwnTerm run hm⟩

theorem currentTerm_le_of_mem_moments {cfg : Config} {h : List (Move Cluster Action)} {c x : Cluster}
    (run : Run (cluster cfg) h c) (hx : x ∈ moments h c) (v : NodeId) :
    (x.node v).currentTerm ≤ (c.node v).currentTerm := by
  apply run.relates_moments (fun _ _ => True)
    (fun x c => (x.node v).currentTerm ≤ (c.node v).currentTerm) ?_ ?_ (fun _ _ => trivial) hx
  · exact fun _ => Int.le_refl _
  · intro h x c c' act _ _ hbefore _ hstep
    exact hbefore.trans (Cluster.currentTerm_mono hstep v)

/-- `node1` stands in the terms 1 and 2 before it sends anything, and counts the votes of
term 1 in term 2. `node2` is elected in term 2 by `node3`, which `node1` did not ask. -/
def countStaleVotes : List Action :=
  threeNodes.allUp ++ electionTimeout "node1" ++ electionTimeout "node1" ++
    exchange "node1" ["node2", "node3"] ++
    electionTimeout "node2" ++ exchange "node2" ["node1", "node3"]

theorem not_electionSafe :
    ∃ h c, Run (cluster threeNodes) h c ∧
      (∀ x ∈ moments h c, ∀ a ∈ threeNodes.ids, (x.node a).currentTerm < i32Max) ∧
      ¬ElectionSafe h c := by
  obtain ⟨h, c, run, _, hbound, h1, h2, hterm⟩ := exists_run_of_exec (cluster threeNodes)
    (fun _ _ => True)
    (fun c => (∀ a ∈ threeNodes.ids, (c.node a).currentTerm < i32Max) ∧
      (c.node "node1").state = .leader ∧ (c.node "node2").state = .leader ∧
      (c.node "node1").currentTerm = (c.node "node2").currentTerm)
    countStaleVotes (by decide +kernel)
  refine ⟨h, c, run, ?_, ?_⟩
  · intro x hx a ha
    exact (currentTerm_le_of_mem_moments run hx a).trans_lt (hbound a ha)
  · intro hsafe
    have hsame := hsafe c (mem_moments_self h c) c (mem_moments_self h c) _ _ h1 h2 hterm
    exact absurd hsame (by decide)

/-! ## Winning quorums -/

def ReceivedVote (h : List (Move Cluster Action)) (c : Cluster) (a : NodeId) (t : Int)
    (p : NodeId) : Prop :=
  ∃ x ∈ moments h c, ∃ req calls response,
    x.phase a = .awaiting (.peerVotesRequestEvent req) calls ∧ req.term = t ∧
    (p, Call.answered (.requestVoteResponseEvent response)) ∈ calls ∧ response.voteGranted = true

/-- A quorum of distinct peers has sent `a` their votes of term `t`. -/
def WinsQuorum (h : List (Move Cluster Action)) (c : Cluster) (a : NodeId) (t : Int) : Prop :=
  ∃ ps : List NodeId, ps.Nodup ∧ (c.node a).quorumSize ≤ ps.length ∧
    ∀ p ∈ ps, ReceivedVote h c a t p

theorem voted_of_round {cfg : Config} {h : List (Move Cluster Action)} {c : Cluster}
    (run : Run (cluster cfg) h c) :
    ∀ x ∈ moments h c, ∀ a req calls, x.phase a = .awaiting (.peerVotesRequestEvent req) calls →
      req.candidateId = a ∧ Voted h a req ∧
        ∀ p ∈ granters calls, p ∈ cfg.peersOf a ∧ Voted h p req := by
  apply run.induct (fun h c => ∀ x ∈ moments h c, ∀ a req calls,
    x.phase a = .awaiting (.peerVotesRequestEvent req) calls → req.candidateId = a ∧
      Voted h a req ∧ ∀ p ∈ granters calls, p ∈ cfg.peersOf a ∧ Voted h p req)
  · intro x hx a req calls hphase
    rw [eq_of_mem_moments_nil hx] at hphase
    exact absurd hphase (Cluster.not_awaiting_initial cfg a)
  · intro h c c' act run inv hstep x hx a req calls hphase
    rcases mem_moments_next.mp hx with rfl | hx
    · have ballots := ballots_of_run (run.next hstep)
      obtain ⟨hid, hvoted⟩ := ballots.requests a req (mem_pipeline_of_awaiting hphase)
      refine ⟨hid, hvoted, ?_⟩
      intro p hp
      have htarget := (granters_sublist calls).subset hp
      refine ⟨?_, ballots.granted a req calls hphase p hp⟩
      rcases (members_of_run (run.next hstep)).targets a _ calls hphase with hsub | ⟨q, hq, heq⟩
      · exact hsub.subset htarget
      · rw [heq] at htarget
        exact List.mem_singleton.mp htarget ▸ hq
    · obtain ⟨hid, hvoted, hgranted⟩ := inv x hx a req calls hphase
      exact ⟨hid, hvoted.next _, fun p hp => ⟨(hgranted p hp).1, (hgranted p hp).2.next _⟩⟩

theorem ReceivedVote.voted {cfg : Config} {h : List (Move Cluster Action)} {c : Cluster}
    (run : Run (cluster cfg) h c) {a p : NodeId} {t : Int} (hreceived : ReceivedVote h c a t p) :
    p ∈ cfg.peersOf a ∧ ∃ req, req.candidateId = a ∧ req.term = t ∧ Voted h a req ∧ Voted h p req := by
  obtain ⟨x, hx, req, calls, response, hphase, hterm, hcall, hgranted⟩ := hreceived
  obtain ⟨hid, hown, hvoted⟩ := voted_of_round run x hx a req calls hphase
  obtain ⟨hpeer, hvote⟩ := hvoted p (mem_granters.mpr ⟨_, hcall, hgranted⟩)
  exact ⟨hpeer, req, hid, hterm, hown, hvote⟩

theorem WinsQuorum.elected {cfg : Config} {h : List (Move Cluster Action)} {c : Cluster}
    (run : Run (cluster cfg) h c) {a : NodeId} {t : Int} (ha : a ∈ cfg.ids)
    (hwins : WinsQuorum h c a t) (hpeers : cfg.peersOf a ≠ []) :
    ∃ req, req.candidateId = a ∧ req.term = t ∧ Elected cfg h req := by
  obtain ⟨ps, hnodup, hcount, hreceived⟩ := hwins
  rw [RaftNode.quorumSize, (members_of_run run).peers] at hcount
  have hpos : 0 < (cfg.peersOf a).length := List.length_pos_iff.mpr hpeers
  obtain ⟨p, hp⟩ : ∃ p, p ∈ ps := List.exists_mem_of_length_pos (by omega)
  obtain ⟨_, req, hid, hterm, hown, _⟩ := (hreceived p hp).voted run
  refine ⟨req, hid, hterm, insert a ps.toFinset, ?_, ?_⟩
  · exact cfg.isMajority_of_peers ha hnodup (fun p hp => ((hreceived p hp).voted run).1) hcount
  · intro v hv
    rcases Finset.mem_insert.mp hv with rfl | hv
    · exact hown
    · obtain ⟨_, req', _, hterm', hown', hvoted⟩ := (hreceived v (List.mem_toFinset.mp hv)).voted run
      have hsame : req' = req :=
        (ballots_of_run run).unique a req' req hown' hown (hterm'.trans hterm.symm)
      exact hsame ▸ hvoted

theorem winsQuorum_unique {cfg : Config} {h : List (Move Cluster Action)} {c : Cluster}
    (run : Run (cluster cfg) h c) {a b : NodeId} {t : Int} (ha : a ∈ cfg.ids) (hb : b ∈ cfg.ids)
    (hwins : WinsQuorum h c a t) (hwins' : WinsQuorum h c b t) : a = b := by
  by_contra hne
  have hpeers : cfg.peersOf a ≠ [] :=
    List.ne_nil_of_mem ((cfg.mem_peersOf ha).mpr ⟨fun heq => hne heq.symm, hb⟩)
  have hpeers' : cfg.peersOf b ≠ [] := List.ne_nil_of_mem ((cfg.mem_peersOf hb).mpr ⟨hne, ha⟩)
  obtain ⟨req, hid, hterm, helected⟩ := hwins.elected run ha hpeers
  obtain ⟨req', hid', hterm', helected'⟩ := hwins'.elected run hb hpeers'
  have hsame := helected.unique (ballots_of_run run) helected' (hterm.trans hterm'.symm)
  rw [hsame] at hid
  exact hne (hid.symm.trans hid')

theorem winsQuorum_unique_elected :
    ∃ h c, ∃ a ∈ threeNodes.ids, ∃ b ∈ threeNodes.ids, Run (cluster threeNodes) h c ∧
      WinsQuorum h c a 1 ∧ WinsQuorum h c b 1 ∧ a = b := by
  obtain ⟨h, c, run, _, hphase, hquorum⟩ := exists_run_of_exec (cluster threeNodes)
    (fun _ _ => True)
    (fun c => c.phase "node1" = .awaiting (.peerVotesRequestEvent ⟨1, "node1", -1, -1⟩)
      [("node2", .answered (.requestVoteResponseEvent ⟨"node2", 1, true⟩)),
        ("node3", .answered (.requestVoteResponseEvent ⟨"node3", 1, true⟩))] ∧
      (c.node "node1").quorumSize ≤ 2)
    (threeNodes.allUp ++ electionTimeout "node1" ++
      [.send "node1", .deliver "node1" "node2", .deliver "node1" "node3"]) (by decide +kernel)
  have hwins : WinsQuorum h c "node1" 1 := by
    refine ⟨["node2", "node3"], by decide, hquorum, ?_⟩
    intro p hp
    refine ⟨c, mem_moments_self h c, _, _, ⟨p, 1, true⟩, hphase, rfl, ?_, rfl⟩
    rcases List.mem_cons.mp hp with rfl | hp
    · exact List.mem_cons_self
    · rw [List.mem_singleton.mp hp]
      exact List.mem_cons_of_mem _ List.mem_cons_self
  have hmember : "node1" ∈ threeNodes.ids := by decide
  exact ⟨h, c, _, hmember, _, hmember, run, hwins, hwins,
    winsQuorum_unique run hmember hmember hwins hwins⟩

end Rafting
