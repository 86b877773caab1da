import Rafting.NodeProcess
import Rafting.LogService

/-! The whole deployment: a cluster with a web server in front of each of its loops. What
clients are told and what the logs hold are the same commands, each of them once. -/
namespace Rafting
open Transition

structure Deployment where
  cluster : Cluster
  fronts : NodeId → Front

inductive Occurrence where
  | post (a : NodeId) (command : SetCommand)
  /-- The loop of `a` takes the next command of its queue. -/
  | take (a : NodeId)
  | act (act : Action)

namespace Deployment

def process (d : Deployment) (a : NodeId) : NodeProcess :=
  { d.fronts a with server := d.cluster.servers a }

def set (d : Deployment) (a : NodeId) (process : NodeProcess) : Deployment where
  cluster := d.cluster.set a process.server
  fronts := Function.update d.fronts a process.toFront

def follow (d : Deployment) (c : Cluster) : Deployment where
  cluster := c
  fronts := fun a => (NodeProcess.close { d.fronts a with server := c.servers a }).toFront

def step (cfg : Config) (d : Deployment) : Occurrence → Option Deployment
  | .post a command =>
    if a ∈ cfg.ids then ((d.process a).post command).map (d.set a) else none
  | .take a => (d.process a).take.map (d.set a)
  | .act (.client _ _) => none
  | .act act => (d.cluster.step act).map d.follow

def clusterAction (d : Deployment) : Occurrence → Option Action
  | .post _ _ => none
  | .take a => (d.fronts a).waiting.head?.map fun post => .client a post.2
  | .act (.client _ _) => none
  | .act act => some act

end Deployment

def deployment (cfg : Config) : Transition.System Deployment Occurrence where
  init := { cluster := Cluster.initial cfg, fronts := fun _ => Front.start }
  step := Deployment.step cfg

def postsTo (a : NodeId) (h : List (Move Deployment Occurrence)) : List SetCommand :=
  (h.filterMap fun m =>
    match m.action with
    | .post b command => if b = a then some command else none
    | _ => none).reverse

/-- The post that a leader takes in this move, by its front and its number there, and the entry
that it makes of it. -/
def served (m : Move Deployment Occurrence) : Option ((NodeId × Nat) × LogEntry) :=
  match m.action with
  | .take a =>
    if (m.before.cluster.node a).state = .leader then
      (m.before.fronts a).waiting.head?.map fun post =>
        ((a, post.1), (m.before.cluster.node a).clientEntry post.2)
    else none
  | _ => none

def servedPosts (h : List (Move Deployment Occurrence)) : List ((NodeId × Nat) × LogEntry) :=
  (h.filterMap served).reverse

/-- Clients and logs agree: no post is made an entry of twice, those made entries are the first
ones of each front and the ones answered so, the log of the node that takes one grows by its
entry, and a log holds entries of different posts. -/
structure Delivered (cfg : Config) (h : List (Move Deployment Occurrence)) (d : Deployment) :
    Prop where
  once : ((servedPosts h).map Prod.fst).Nodup
  posted : ∀ x ∈ servedPosts h, x.1.1 ∈ cfg.ids ∧
    ∃ command, (postsTo x.1.1 h)[x.1.2]? = some command ∧ x.2.command = command.toJson
  grown : ∀ m ∈ h, ∀ x ∈ served m, (m.after.cluster.node x.1.1).log.inner =
    (m.before.cluster.node x.1.1).log.inner ++ [x.2]
  first : ∀ a ∈ cfg.ids, ∃ n, ∀ k, (a, k) ∈ (servedPosts h).map Prod.fst ↔ k < n
  told : ∀ a ∈ cfg.ids, ∀ k,
    (a, k) ∈ (servedPosts h).map Prod.fst ↔ (k, accepted200) ∈ (d.fronts a).answered
  answers : ∀ a ∈ cfg.ids, ((d.fronts a).answered.map Prod.fst).Nodup ∧
    ∀ x ∈ (d.fronts a).answered, x.2 = accepted200 ∨ x.2.status = 500
  logs : ∀ a, ∃ sources ⊆ servedPosts h, sources.map Prod.snd = (d.cluster.node a).log.inner ∧
    (sources.map Prod.fst).Nodup

namespace Deployment

variable {d d' : Deployment}

@[simp] theorem process_server (d : Deployment) (a : NodeId) :
    (d.process a).server = d.cluster.servers a := rfl

@[simp] theorem process_set_self (d : Deployment) (a : NodeId) (process : NodeProcess) :
    (d.set a process).process a = process := by
  simp [Deployment.process, set]

theorem process_set_ne (d : Deployment) {a b : NodeId} (process : NodeProcess) (h : b ≠ a) :
    (d.set a process).process b = d.process b := by
  simp [Deployment.process, set, Cluster.servers_set_ne _ _ h, h]

theorem process_follow (d : Deployment) (c : Cluster) (a : NodeId) :
    (d.follow c).process a =
      NodeProcess.close { d.process a with server := c.servers a } := by
  have hserver := NodeProcess.close_server { d.process a with server := c.servers a }
  change NodeProcess.mk (NodeProcess.close { d.process a with server := c.servers a }).toFront
    (c.servers a) = _
  generalize NodeProcess.close _ = process at hserver ⊢
  cases process
  cases hserver
  rfl

inductive Step (cfg : Config) (d : Deployment) : Occurrence → Deployment → Prop
  | post {a : NodeId} {command : SetCommand} {process : NodeProcess} :
      a ∈ cfg.ids → (d.process a).post command = some process →
      Step cfg d (.post a command) (d.set a process)
  | take {a : NodeId} {process : NodeProcess} :
      (d.process a).take = some process → Step cfg d (.take a) (d.set a process)
  | act {act : Action} {c : Cluster} : (∀ a command, act ≠ .client a command) →
      d.cluster.step act = some c → Step cfg d (.act act) (d.follow c)

theorem step_of_eq {cfg : Config} {o : Occurrence} (h : d.step cfg o = some d') :
    Step cfg d o d' := by
  cases o with
  | post a command =>
    simp only [step] at h
    split at h
    · obtain ⟨process, hpost, rfl⟩ := Option.map_eq_some_iff.mp h
      exact .post ‹_› hpost
    · cases h
  | take a =>
    obtain ⟨process, htake, rfl⟩ := Option.map_eq_some_iff.mp h
    exact .take htake
  | act act =>
    cases act with
    | client a command => cases h
    | _ =>
      obtain ⟨c, hstep, rfl⟩ := Option.map_eq_some_iff.mp h
      exact .act (by nofun) hstep

theorem projects (cfg : Config) :
    (deployment cfg).Projects (Rafting.cluster cfg) Deployment.cluster clusterAction where
  init := rfl
  idle := by
    intro d o d' hidle hstep
    cases step_of_eq hstep with
    | @post a command process _ hpost =>
      have hserver : process.server = d.cluster.servers a := NodeProcess.post_server hpost
      simp [set, Cluster.set, hserver]
    | @take a process htake =>
      obtain ⟨id, command, rest, hwaiting, _⟩ := NodeProcess.take_eq_some htake
      have hwaiting : (d.fronts a).waiting = _ := hwaiting
      simp [clusterAction, hwaiting] at hidle
    | @act act _ hclient _ =>
      cases act with
      | client a command => exact absurd rfl (hclient a command)
      | _ => cases hidle
  step := by
    intro d o act d' hact hstep
    cases step_of_eq hstep with
    | post => cases hact
    | @take a process htake =>
      obtain ⟨id, command, rest, hwaiting, hphase, rfl⟩ := NodeProcess.take_eq_some htake
      have hwaiting : (d.fronts a).waiting = _ := hwaiting
      obtain rfl : .client a command = act := by simpa [clusterAction, hwaiting] using hact
      have hturn : d.cluster.step (.client a command) = some (d.cluster.set a
          ((d.cluster.servers a).selectClient (.commandRequestEvent command))) := if_pos hphase
      exact hturn.trans (by simp [set])
    | @act act _ _ hcluster =>
      cases act with
      | client => cases hact
      | _ =>
        cases hact
        exact hcluster

end Deployment

def clusterMoves (h : List (Move Deployment Occurrence)) : List (Move Cluster Action) :=
  project Deployment.cluster Deployment.clusterAction h

section Posts
variable (h : List (Move Deployment Occurrence)) (d d' : Deployment)

@[simp] theorem postsTo_post_self (a : NodeId) (command : SetCommand) :
    postsTo a (⟨d, .post a command, d'⟩ :: h) = postsTo a h ++ [command] := by
  simp [postsTo]

theorem postsTo_post_ne {a b : NodeId} (hb : b ≠ a) (command : SetCommand) :
    postsTo a (⟨d, .post b command, d'⟩ :: h) = postsTo a h := by
  simp [postsTo, hb]

@[simp] theorem postsTo_take (a b : NodeId) :
    postsTo a (⟨d, .take b, d'⟩ :: h) = postsTo a h := by
  simp [postsTo]

@[simp] theorem postsTo_act (a : NodeId) (act : Action) :
    postsTo a (⟨d, .act act, d'⟩ :: h) = postsTo a h := by
  simp [postsTo]

theorem postsTo_isPrefix (a : NodeId) (m : Move Deployment Occurrence) :
    postsTo a h <+: postsTo a (m :: h) := by
  simp only [postsTo, List.filterMap_cons]
  split
  · exact List.prefix_rfl
  · rw [List.reverse_cons]
    exact List.prefix_append _ _

theorem servedPosts_cons (m : Move Deployment Occurrence) :
    servedPosts (m :: h) = servedPosts h ++ (served m).toList := by
  rw [servedPosts, List.filterMap_cons]
  cases served m <;> simp [servedPosts]

theorem map_snd_servedPosts :
    (servedPosts h).map Prod.snd = acceptedEntries (clusterMoves h) := by
  rw [servedPosts, acceptedEntries, List.map_reverse, List.map_filterMap, clusterMoves, project,
    List.filterMap_filterMap]
  congr 2
  funext m
  obtain ⟨before, o, after⟩ := m
  cases o with
  | post a command => rfl
  | act act => cases act <;> rfl
  | take a =>
    simp only [served, Deployment.clusterAction]
    cases (before.fronts a).waiting.head? with
    | none => split <;> rfl
    | some post =>
      simp only [accepted, Option.map_some, Option.bind_some]
      split <;> rfl

end Posts

theorem exists_keyed {κ ν : Type} {table : List (κ × ν)} (hkeys : (table.map Prod.fst).Nodup)
    {values : List ν} (hvalues : values.Nodup) (hmem : values ⊆ table.map Prod.snd) :
    ∃ pairs ⊆ table, pairs.map Prod.snd = values ∧ (pairs.map Prod.fst).Nodup := by
  obtain ⟨pairs, hsub, hpairs⟩ : ∃ pairs ⊆ table, pairs.map Prod.snd = values := by
    clear hvalues
    induction values with
    | nil => exact ⟨[], List.nil_subset _, rfl⟩
    | cons value rest ih =>
      obtain ⟨hvalue, hrest⟩ := List.cons_subset.mp hmem
      obtain ⟨pairs, hsub, rfl⟩ := ih hrest
      obtain ⟨pair, hpair, rfl⟩ := List.mem_map.mp hvalue
      exact ⟨pair :: pairs, List.cons_subset.mpr ⟨hpair, hsub⟩, rfl⟩
  refine ⟨pairs, hsub, hpairs, ?_⟩
  have hnodup : pairs.Nodup := .of_map Prod.snd (hpairs ▸ hvalues)
  exact hnodup.map_on fun x hx y hy =>
    List.inj_on_of_nodup_map hkeys (hsub hx) (hsub hy)

section Run
variable {cfg : Config} {h : List (Move Deployment Occurrence)} {d d' : Deployment} {o : Occurrence}

theorem clusterRun_of_run (run : Run (deployment cfg) h d) :
    Run (cluster cfg) (clusterMoves h) d.cluster :=
  run.project (Deployment.projects cfg)

theorem processRun_of_run (run : Run (deployment cfg) h d) {a : NodeId} (ha : a ∈ cfg.ids) :
    ∃ own, Run (nodeProcess (RaftNode.new a (cfg.peersOf a) (cfg.timeoutOf a))) own
      (d.process a) ∧ posts own = postsTo a h := by
  induction run with
  | start =>
    refine ⟨[], ?_, rfl⟩
    have hstart : (Cluster.initial cfg).servers a =
        RaftServer.start (RaftNode.new a (cfg.peersOf a) (cfg.timeoutOf a)) := if_pos ha
    rw [show (deployment cfg).init.process a =
      { Front.start with server := (Cluster.initial cfg).servers a } from rfl, hstart]
    exact .start
  | @next h d d' o run hstep ih =>
    obtain ⟨own, hrun, hposts⟩ := ih
    cases Deployment.step_of_eq hstep with
    | @post b command process _ hpost =>
      by_cases hb : b = a
      · subst hb
        rw [Deployment.process_set_self]
        have hown : (d.process b).step (.post command) = some process := hpost
        exact ⟨_, NodeProcess.run_next hrun hown, by simp [hposts]⟩
      · rw [Deployment.process_set_ne _ _ (Ne.symm hb)]
        exact ⟨own, hrun, by rw [postsTo_post_ne _ _ _ hb, hposts]⟩
    | @take b process htake =>
      by_cases hb : b = a
      · subst hb
        rw [Deployment.process_set_self]
        have hown : (d.process b).step .take = some process := htake
        exact ⟨_, NodeProcess.run_next hrun hown, by simp [hposts]⟩
      · rw [Deployment.process_set_ne _ _ (Ne.symm hb)]
        exact ⟨own, hrun, by simp [hposts]⟩
    | @act act c hclient hcluster =>
      rw [Deployment.process_follow]
      have hmembers := clusterRun_of_run run
      rcases (ownRuns_of_run hmembers).stimulus (members_of_run hmembers) hcluster a with
        heq | ⟨stimulus, hof, hreact⟩
      · obtain ⟨n, settled⟩ := exists_settled hrun
        rw [heq, show { d.process a with server := d.cluster.servers a } = d.process a from rfl,
          settled.close_eq]
        exact ⟨own, hrun, by simp [hposts]⟩
      · have hown : (d.process a).step (.loop stimulus) =
            some (NodeProcess.close { d.process a with server := c.servers a }) :=
          NodeProcess.step_loop_iff.mpr
            ⟨fun command heq => hclient a command (hof command heq), _, hreact, rfl⟩
        exact ⟨_, NodeProcess.run_next hrun hown, by simp [hposts]⟩

theorem exists_serves (run : Run (deployment cfg) h d) {a : NodeId} (ha : a ∈ cfg.ids) :
    ∃ n own, (d.process a).Serves n own ∧ posts own = postsTo a h := by
  obtain ⟨own, hrun, hposts⟩ := processRun_of_run run ha
  obtain ⟨n, settled⟩ := exists_settled hrun
  exact ⟨n, own, settled.toServes, hposts⟩

theorem served_of_take {a : NodeId} {process : NodeProcess}
    (htake : (d.process a).take = some process) (d' : Deployment) :
    ∃ id command rest, (d.fronts a).waiting = (id, command) :: rest ∧
      d.cluster.phase a = .selecting ∧
      served ⟨d, .take a, d'⟩ = (if (d.cluster.node a).state = .leader then
        some ((a, id), (d.cluster.node a).clientEntry command) else none) ∧
      ∀ k, (k, accepted200) ∈ process.answered ↔ (k, accepted200) ∈ (d.fronts a).answered ∨
        k = id ∧ (d.cluster.node a).state = .leader := by
  obtain ⟨id, command, rest, hwaiting, hphase, rfl⟩ := NodeProcess.take_eq_some htake
  have hwaiting : (d.fronts a).waiting = (id, command) :: rest := hwaiting
  refine ⟨id, command, rest, hwaiting, hphase, ?_, fun k => ?_⟩
  · simp only [served, hwaiting, List.head?_cons, Option.map_some]
  · rw [NodeProcess.mem_answered_close, List.mem_append]
    refine or_congr Iff.rfl ?_
    rw [List.mem_singleton, Prod.mk.injEq]
    refine and_congr_right fun _ => ⟨fun htold => ?_, fun hleader => ?_⟩
    · by_contra hother
      have hstatus : ((d.process a).taken command).status = 500 :=
        NodeProcess.taken_other hother command
      rw [← htold] at hstatus
      cases hstatus
    · have htaken : (d.process a).taken command = accepted200 :=
        NodeProcess.taken_leader hleader command
      exact htaken.symm

theorem log_of_served (hstep : d.step cfg o = some d') {x : (NodeId × Nat) × LogEntry}
    (hx : served ⟨d, o, d'⟩ = some x) :
    (d'.cluster.node x.1.1).log.inner = (d.cluster.node x.1.1).log.inner ++ [x.2] := by
  cases Deployment.step_of_eq hstep with
  | post => cases hx
  | act => cases hx
  | @take a process htake =>
    obtain ⟨id, command, rest, hwaiting, _, hserved, _⟩ := served_of_take htake (d.set a process)
    obtain ⟨id', command', rest', hwaiting', hlog⟩ := log_of_take htake
    rw [show (d.process a).waiting = (d.fronts a).waiting from rfl, hwaiting] at hwaiting'
    cases hwaiting'
    rw [hserved] at hx
    split at hx
    · rename_i hleader
      cases hx
      have hlog : process.server.node.log =
          (d.cluster.node a).log.append ((d.cluster.node a).clientEntry command) :=
        hlog.trans (if_pos hleader)
      have hnode : (d.set a process).cluster.node a = process.server.node :=
        congrArg RaftServer.node (Cluster.servers_set_self d.cluster a process.server)
      rw [hnode, hlog]
      rfl
    · cases hx

theorem mem_servedPosts_iff (run : Run (deployment cfg) h d) (a : NodeId) (k : Nat) :
    (a, k) ∈ (servedPosts h).map Prod.fst ↔ (k, accepted200) ∈ (d.fronts a).answered := by
  induction run generalizing a k with
  | start => simp [servedPosts, deployment, Front.start]
  | @next h d d' o run hstep ih =>
    rw [servedPosts_cons, List.map_append, List.mem_append, ih]
    cases Deployment.step_of_eq hstep with
    | @post b command process _ hpost =>
      rw [show served ⟨d, .post b command, _⟩ = none from rfl]
      simp only [Option.toList_none, List.map_nil, List.not_mem_nil, or_false]
      by_cases hb : a = b
      · subst hb
        exact (NodeProcess.mem_answered_post hpost k).symm.trans (by simp [Deployment.set])
      · simp [Deployment.set, hb]
    | @take b process htake =>
      obtain ⟨id, command, rest, _, _, hserved, htold⟩ := served_of_take htake (d.set b process)
      by_cases hb : a = b
      · subst hb
        rw [hserved, show ((d.set a process).fronts a).answered = process.answered by
          simp [Deployment.set], htold]
        refine or_congr Iff.rfl ?_
        split
        · simp [*]
        · simp [*]
      · rw [hserved, show (d.set b process).fronts a = d.fronts a by simp [Deployment.set, hb]]
        split
        · simp [hb]
        · simp
    | @act act c hclient hcluster =>
      rw [show served ⟨d, .act act, _⟩ = none from rfl]
      simp only [Option.toList_none, List.map_nil, List.not_mem_nil, or_false]
      exact (NodeProcess.mem_answered_close { d.fronts a with server := c.servers a } k).symm

theorem mem_ids_of_selecting (run : Run (deployment cfg) h d) {a : NodeId}
    (hphase : d.cluster.phase a = .selecting) : a ∈ cfg.ids :=
  (members_of_run (clusterRun_of_run run)).mem_ids_of_selecting hphase

theorem not_served_of_waiting (run : Run (deployment cfg) h d) {a : NodeId} (ha : a ∈ cfg.ids)
    {id : Nat} {command : SetCommand} (hpost : (id, command) ∈ (d.fronts a).waiting) :
    (a, id) ∉ (servedPosts h).map Prod.fst := by
  obtain ⟨n, own, serves, _⟩ := exists_serves run ha
  rw [mem_servedPosts_iff run]
  exact fun htold => serves.late hpost ((serves.told_iff id).mp htold)

theorem servedPosts_nodup (run : Run (deployment cfg) h d) :
    ((servedPosts h).map Prod.fst).Nodup := by
  induction run with
  | start => exact List.nodup_nil
  | @next h d d' o run hstep ih =>
    rw [servedPosts_cons, List.map_append]
    cases Deployment.step_of_eq hstep with
    | post => simpa [served] using ih
    | act => simpa [served] using ih
    | @take b process htake =>
      obtain ⟨id, command, rest, hwaiting, hphase, hserved, _⟩ := served_of_take htake (d.set b process)
      have hnew := not_served_of_waiting run (mem_ids_of_selecting run hphase)
        (hwaiting ▸ List.mem_cons_self)
      rw [hserved]
      split
      · rw [Option.toList_some, List.map_singleton]
        exact List.nodup_append.mpr ⟨ih, List.nodup_singleton _, by
          rintro x hx y hy rfl
          rw [List.mem_singleton.mp hy] at hx
          exact hnew hx⟩
      · simpa using ih

theorem posted_of_run (run : Run (deployment cfg) h d) : ∀ x ∈ servedPosts h, x.1.1 ∈ cfg.ids ∧
    ∃ command, (postsTo x.1.1 h)[x.1.2]? = some command ∧ x.2.command = command.toJson := by
  induction run with
  | start => exact fun x hx => absurd hx List.not_mem_nil
  | @next h d d' o run hstep ih =>
    intro x hx
    have hmono : ∀ {i : Nat} {command : SetCommand}, (postsTo x.1.1 h)[i]? = some command →
        (postsTo x.1.1 (⟨d, o, d'⟩ :: h))[i]? = some command := by
      intro i command hi
      exact ListPrefix.prefix_iff_getElem?.mp (postsTo_isPrefix h x.1.1 _) i command hi
    rw [servedPosts_cons] at hx
    rcases List.mem_append.mp hx with hx | hx
    · obtain ⟨hmem, command, hcommand, htext⟩ := ih x hx
      exact ⟨hmem, command, hmono hcommand, htext⟩
    · cases Deployment.step_of_eq hstep with
      | post => cases hx
      | act => cases hx
      | @take b process htake =>
        obtain ⟨id, command, rest, hwaiting, hphase, hserved, _⟩ :=
          served_of_take htake (d.set b process)
        have hb := mem_ids_of_selecting run hphase
        obtain ⟨n, own, serves, hposts⟩ := exists_serves run hb
        obtain ⟨_, hpost, _⟩ := serves.next_post (NodeProcess.not_failed_of_selecting hphase) hwaiting
        rw [hserved] at hx
        split at hx
        · obtain rfl := List.mem_singleton.mp hx
          exact ⟨hb, command, hmono (hposts ▸ hpost), rfl⟩
        · cases hx

theorem delivered_of_run (run : Run (deployment cfg) h d) : Delivered cfg h d where
  once := servedPosts_nodup run
  posted := posted_of_run run
  grown := fun m hm _ hx => log_of_served (run.of_mem hm).1 hx
  first := by
    intro a ha
    obtain ⟨n, own, serves, _⟩ := exists_serves run ha
    exact ⟨n, fun k => (mem_servedPosts_iff run a k).trans (serves.told_iff k)⟩
  told := fun a _ k => mem_servedPosts_iff run a k
  answers := by
    intro a ha
    obtain ⟨n, own, serves, _⟩ := exists_serves run ha
    refine ⟨(congrArg List.Nodup serves.ids.1).mpr List.nodup_range, fun x hx => ?_⟩
    have hanswer := serves.answers x hx
    split at hanswer
    · exact Or.inl hanswer
    · exact Or.inr hanswer
  logs := by
    intro a
    have hcluster := clusterRun_of_run run
    obtain ⟨hindexed, hcreated⟩ :=
      integrity_of_run hcluster d.cluster (mem_moments_self _ _) a
    refine exists_keyed (servedPosts_nodup run) hindexed.nodup fun entry hentry => ?_
    rw [map_snd_servedPosts]
    exact (hcreated entry hentry).mem_acceptedEntries

end Run

/-- `node1` takes a command, `node2` follows it, leads in its turn and takes another one; what is
then posted to `node1` is refused. -/
theorem delivered_of_run_twoFronts :
    ∃ h d, Run (deployment twoNodes) h d ∧
      (d.fronts "node1").answered.map (fun answer => (answer.1, answer.2.status)) =
        [(0, 200), (1, 500), (2, 500)] ∧
      (d.fronts "node2").answered = [(0, accepted200)] ∧ (d.cluster.node "node2").log.len = 2 ∧
      Delivered twoNodes h d := by
  obtain ⟨h, d, run, _, hfirst, hsecond, hlog⟩ := exists_run_of_exec (deployment twoNodes)
    (fun _ _ => True)
    (fun d => (d.fronts "node1").answered.map (fun answer => (answer.1, answer.2.status)) =
        [(0, 200), (1, 500), (2, 500)] ∧
      (d.fronts "node2").answered = [(0, accepted200)] ∧ (d.cluster.node "node2").log.len = 2)
    ((twoNodes.allUp ++ electionTimeout "node1" ++ exchange "node1" ["node2"] ++
        exchange "node1" ["node2"]).map .act ++
      [.post "node1" ⟨"x", "1"⟩, .take "node1"] ++
      (heartbeatTimeout "node1" ++ exchange "node1" ["node2"] ++ electionTimeout "node2" ++
        exchange "node2" ["node1"]).map .act ++
      [.post "node2" ⟨"y", "2"⟩, .take "node2", .post "node1" ⟨"z", "3"⟩, .post "node1" ⟨"z", "4"⟩,
        .take "node1"])
    (by decide +kernel)
  exact ⟨h, d, run, hfirst, hsecond, hlog, delivered_of_run run⟩

end Rafting
