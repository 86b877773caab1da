import Rafting.ServerLoop

/-! One process: the loop of `raft_server.rs` and the web server in front of it. Handlers of
`/command` queue their commands for the loop and wait for its answer. When `run` returns an
error, its receiver is dropped with the commands still in it; `start_server` ignores that
error, and the web server goes on. -/
namespace Rafting
open Transition

structure HttpResponse where
  status : Nat
  body : String
deriving DecidableEq

/-- What a handler gets from the two channels: the receiver is gone, the sender of its
answer has been dropped, or there is an answer. -/
inductive Delivery where
  | refused
  | dropped
  | replied (reply : Except RaftError ClientEvent)

def commandHandler : Delivery → HttpResponse
  | .refused => ⟨500, "Unable to send command to the server. Server is probably initializing or " ++
      "the request is directed to a non-leader node"⟩
  | .replied (.ok (.commandResponseEvent resp)) => ⟨200, toString resp⟩
  | .dropped => ⟨500, "Error while receiving response from the server while executing the " ++
      "command: RecvError(())"⟩
  | .replied _ => ⟨500, "Unhandled event in command_handler"⟩

/-- The web server's side. Posts are numbered in the order of their arrival. -/
structure Front where
  waiting : List (Nat × SetCommand)
  answered : List (Nat × HttpResponse)
  posted : Nat

def Front.start : Front where
  waiting := []
  answered := []
  posted := 0

structure NodeProcess extends Front where
  server : RaftServer

inductive ProcessAction where
  | post (command : SetCommand)
  /-- The loop takes the next command of its queue. -/
  | take
  /-- Anything else that reaches the loop. -/
  | loop (stimulus : Stimulus)

namespace NodeProcess

/-- The handlers that wait when the loop returns an error. -/
def close (process : NodeProcess) : NodeProcess :=
  match process.server.phase with
  | .stopped (.error _) => { process with
      waiting := []
      answered := process.answered ++
        process.waiting.map fun post => (post.1, commandHandler .dropped) }
  | _ => process

/-- A panic of the loop ends the process. -/
def post (process : NodeProcess) (command : SetCommand) : Option NodeProcess :=
  match process.server.phase with
  | .stopped (.panic _) => none
  | .stopped (.error _) => some { process with
      answered := process.answered ++ [(process.posted, commandHandler .refused)]
      posted := process.posted + 1 }
  | _ => some { process with
      waiting := process.waiting ++ [(process.posted, command)]
      posted := process.posted + 1 }

def take (process : NodeProcess) : Option NodeProcess :=
  match process.waiting with
  | [] => none
  | (id, command) :: rest =>
    if process.server.phase = .selecting then
      let event := ClientEvent.commandRequestEvent command
      let delivery := ((process.server.node.handleClientRequest event).reply.map
        Delivery.replied).getD .dropped
      some { process with
        server := process.server.selectClient event
        waiting := rest
        answered := process.answered ++ [(id, commandHandler delivery)] }.close
    else none

def step (process : NodeProcess) : ProcessAction → Option NodeProcess
  | .post command => process.post command
  | .take => process.take
  | .loop (.client _) => none
  | .loop stimulus =>
    (process.server.react stimulus).map fun server => { process with server := server }.close

end NodeProcess

def nodeProcess (node : RaftNode) : Transition.System NodeProcess ProcessAction where
  init := { Front.start with server := RaftServer.start node }
  step := NodeProcess.step

def posts (h : List (Move NodeProcess ProcessAction)) : List SetCommand :=
  (h.filterMap fun m =>
    match m.action with
    | .post command => some command
    | _ => none).reverse

def acceptedPosts (h : List (Move NodeProcess ProcessAction)) : List SetCommand :=
  (h.filterMap fun m =>
    match m.action with
    | .take =>
      if m.before.server.node.state = .leader then m.before.waiting.head?.map Prod.snd else none
    | _ => none).reverse

def accepted200 : HttpResponse := ⟨200, "true"⟩

namespace NodeProcess

def Failed (process : NodeProcess) : Prop :=
  ∃ e, process.server.phase = .stopped (.error e)

structure Serves (n : Nat) (h : List (Move NodeProcess ProcessAction)) (process : NodeProcess) :
    Prop where
  posted : (posts h).length = process.posted
  accepted : acceptedPosts h = (posts h).take n
  order : process.answered.map Prod.fst ++ process.waiting.map Prod.fst =
    List.range process.posted
  le : n ≤ process.answered.length
  answers : ∀ x ∈ process.answered, if x.1 < n then x.2 = accepted200 else x.2.status = 500
  alive : ¬process.Failed → process.answered.length = n ∧
    process.waiting.map Prod.snd = (posts h).drop n

structure Settled (n : Nat) (h : List (Move NodeProcess ProcessAction)) (process : NodeProcess) :
    Prop extends Serves n h process where
  drained : process.Failed → process.waiting = []

theorem run_next {node : RaftNode} {h : List (Move NodeProcess ProcessAction)}
    {process process' : NodeProcess} {action : ProcessAction}
    (run : Run (nodeProcess node) h process) (hstep : process.step action = some process') :
    Run (nodeProcess node) (⟨process, action, process'⟩ :: h) process' :=
  run.next hstep

theorem close_failed {process : NodeProcess} (h : process.Failed) :
    process.close = { process with
      waiting := []
      answered := process.answered ++
        process.waiting.map fun post => (post.1, commandHandler .dropped) } := by
  obtain ⟨e, he⟩ := h
  rw [close, he]

theorem close_of_not_failed {process : NodeProcess} (h : ¬process.Failed) :
    process.close = process := by
  unfold close
  split
  · exact absurd ⟨_, ‹_›⟩ h
  · rfl

theorem not_failed_of_selecting {process : NodeProcess}
    (h : process.server.phase = .selecting) : ¬process.Failed := by
  rintro ⟨e, he⟩
  rw [h] at he
  cases he

@[simp] theorem close_server (process : NodeProcess) : process.close.server = process.server := by
  unfold close
  split <;> rfl

theorem post_server {process process' : NodeProcess} {command : SetCommand}
    (h : process.post command = some process') : process'.server = process.server := by
  unfold post at h
  split at h
  · cases h
  · cases h
    rfl
  · cases h
    rfl

def taken (process : NodeProcess) (command : SetCommand) : HttpResponse :=
  commandHandler (((process.server.node.handleClientRequest
    (.commandRequestEvent command)).reply.map Delivery.replied).getD .dropped)

theorem take_eq_some {process process' : NodeProcess} (h : process.take = some process') :
    ∃ id command rest, process.waiting = (id, command) :: rest ∧
      process.server.phase = .selecting ∧
      process' = close { process with
        server := process.server.selectClient (.commandRequestEvent command)
        waiting := rest
        answered := process.answered ++ [(id, process.taken command)] } := by
  unfold take at h
  split at h
  · cases h
  · split at h
    · cases h
      exact ⟨_, _, _, ‹_›, ‹_›, rfl⟩
    · cases h

theorem step_loop_iff {process process' : NodeProcess} {stimulus : Stimulus} :
    process.step (.loop stimulus) = some process' ↔
      (∀ command, stimulus ≠ .client command) ∧ ∃ server,
        process.server.react stimulus = some server ∧
          process' = { process with server := server }.close := by
  cases stimulus with
  | client command => exact ⟨nofun, fun h => absurd rfl (h.1 command)⟩
  | _ =>
    refine Option.map_eq_some_iff.trans ⟨?_, ?_⟩
    · rintro ⟨server, hreact, rfl⟩
      exact ⟨nofun, server, hreact, rfl⟩
    · rintro ⟨_, server, hreact, rfl⟩
      exact ⟨server, hreact, rfl⟩

theorem taken_leader {process : NodeProcess} (h : process.server.node.state = .leader)
    (command : SetCommand) : process.taken command = accepted200 := by
  rw [taken, RaftNode.handleClientRequest_leader h]
  rfl

theorem taken_other {process : NodeProcess} (h : process.server.node.state ≠ .leader)
    (command : SetCommand) : (process.taken command).status = 500 := by
  rw [taken, RaftNode.handleClientRequest_other h]
  rfl

theorem mem_answered_close (process : NodeProcess) (k : Nat) :
    (k, accepted200) ∈ process.close.answered ↔ (k, accepted200) ∈ process.answered := by
  by_cases hfailed : process.Failed
  · simp [close_failed hfailed, accepted200, commandHandler]
  · rw [close_of_not_failed hfailed]

theorem mem_answered_post {process process' : NodeProcess} {command : SetCommand}
    (h : process.post command = some process') (k : Nat) :
    (k, accepted200) ∈ process'.answered ↔ (k, accepted200) ∈ process.answered := by
  unfold post at h
  split at h
  · cases h
  · cases h
    simp [accepted200, commandHandler]
  · cases h
    exact Iff.rfl

namespace Serves

variable {n : Nat} {h : List (Move NodeProcess ProcessAction)} {process : NodeProcess}

theorem ids (inv : Serves n h process) :
    process.answered.map Prod.fst = List.range process.answered.length ∧
      process.waiting.map Prod.fst = List.range' process.answered.length process.waiting.length := by
  have horder := inv.order
  rw [List.range_eq_range', eq_comm, List.range'_eq_append_iff] at horder
  obtain ⟨k, hk, hanswered, hwaiting⟩ := horder
  have hlength := congrArg List.length hanswered
  have hrest := congrArg List.length hwaiting
  simp only [List.length_map, List.length_range'] at hlength hrest
  rw [hanswered, hwaiting, hlength, hrest, List.range_eq_range']
  simp

theorem late (inv : Serves n h process) {post : Nat × SetCommand} (hpost : post ∈ process.waiting) :
    ¬post.1 < n := by
  have hmem : post.1 ∈ process.waiting.map Prod.fst := List.mem_map_of_mem hpost
  rw [inv.ids.2, List.mem_range'_1] at hmem
  exact Nat.not_lt.mpr (Nat.le_trans inv.le hmem.1)

theorem told_iff (inv : Serves n h process) (k : Nat) :
    (k, accepted200) ∈ process.answered ↔ k < n := by
  constructor
  · intro htold
    have hanswer := inv.answers _ htold
    by_contra hlate
    rw [if_neg hlate] at hanswer
    cases hanswer
  · intro hk
    have hmem : k ∈ process.answered.map Prod.fst := by
      rw [inv.ids.1, List.mem_range]
      exact Nat.lt_of_lt_of_le hk inv.le
    obtain ⟨⟨_, response⟩, hx, rfl⟩ := List.mem_map.mp hmem
    have hanswer := inv.answers _ hx
    rw [if_pos hk] at hanswer
    exact hanswer ▸ hx

theorem next_post (inv : Serves n h process) (hfailed : ¬process.Failed) {id : Nat}
    {command : SetCommand} {rest : List (Nat × SetCommand)}
    (hwaiting : process.waiting = (id, command) :: rest) :
    id = n ∧ (posts h)[id]? = some command ∧ (posts h).drop (id + 1) = rest.map Prod.snd := by
  obtain ⟨hlength, hrest⟩ := inv.alive hfailed
  obtain rfl : id = n := by
    have hids := inv.ids.2
    rw [hwaiting, List.map_cons, List.length_cons, List.range'_succ] at hids
    exact (List.cons.inj hids).1.trans hlength
  refine ⟨rfl, ?_, ?_⟩
  · rw [← List.head?_drop, ← hrest, hwaiting]
    rfl
  · rw [← List.tail_drop, ← hrest, hwaiting]
    rfl

theorem close (inv : Serves n h process) : Settled n h process.close := by
  by_cases hfailed : process.Failed
  · rw [close_failed hfailed]
    refine ⟨⟨inv.posted, inv.accepted, ?_, ?_, ?_, fun hnot => absurd hfailed hnot⟩, fun _ => rfl⟩
    · simpa [Function.comp_def] using inv.order
    · simp only [List.length_append]
      exact Nat.le_trans inv.le (Nat.le_add_right _ _)
    · intro x hx
      rcases List.mem_append.mp hx with hx | hx
      · exact inv.answers x hx
      · obtain ⟨post, hpost, rfl⟩ := List.mem_map.mp hx
        rw [if_neg (inv.late hpost)]
        rfl
  · rw [close_of_not_failed hfailed]
    exact ⟨inv, fun hcontra => absurd hcontra hfailed⟩

end Serves

/-! ## The moves -/

@[simp] theorem posts_post (h : List (Move NodeProcess ProcessAction)) (process after : NodeProcess)
    (command : SetCommand) :
    posts (⟨process, .post command, after⟩ :: h) = posts h ++ [command] := by
  simp [posts]

@[simp] theorem posts_take (h : List (Move NodeProcess ProcessAction))
    (process after : NodeProcess) : posts (⟨process, .take, after⟩ :: h) = posts h := by
  simp [posts]

@[simp] theorem posts_loop (h : List (Move NodeProcess ProcessAction))
    (process after : NodeProcess) (stimulus : Stimulus) :
    posts (⟨process, .loop stimulus, after⟩ :: h) = posts h := by
  simp [posts]

@[simp] theorem acceptedPosts_post (h : List (Move NodeProcess ProcessAction))
    (process after : NodeProcess) (command : SetCommand) :
    acceptedPosts (⟨process, .post command, after⟩ :: h) = acceptedPosts h := by
  simp [acceptedPosts]

@[simp] theorem acceptedPosts_loop (h : List (Move NodeProcess ProcessAction))
    (process after : NodeProcess) (stimulus : Stimulus) :
    acceptedPosts (⟨process, .loop stimulus, after⟩ :: h) = acceptedPosts h := by
  simp [acceptedPosts]

theorem acceptedPosts_take_leader {process : NodeProcess}
    (hleader : process.server.node.state = .leader) {id : Nat} {command : SetCommand}
    {rest : List (Nat × SetCommand)} (hwaiting : process.waiting = (id, command) :: rest)
    (h : List (Move NodeProcess ProcessAction)) (after : NodeProcess) :
    acceptedPosts (⟨process, .take, after⟩ :: h) = acceptedPosts h ++ [command] := by
  simp [acceptedPosts, hleader, hwaiting]

theorem acceptedPosts_take_other {process : NodeProcess}
    (hother : process.server.node.state ≠ .leader) (h : List (Move NodeProcess ProcessAction))
    (after : NodeProcess) :
    acceptedPosts (⟨process, .take, after⟩ :: h) = acceptedPosts h := by
  simp [acceptedPosts, hother]

theorem react_of_stopped {server : RaftServer} {fault : Fault}
    (hphase : server.phase = .stopped fault) (stimulus : Stimulus) :
    server.react stimulus = none := by
  cases stimulus <;> simp [RaftServer.react, RaftServer.turn, RaftServer.resume, hphase]

namespace Settled

variable {n : Nat} {h : List (Move NodeProcess ProcessAction)} {process process' : NodeProcess}

theorem close_eq (inv : Settled n h process) : process.close = process := by
  by_cases hfailed : process.Failed
  · have hdrained := inv.drained hfailed
    rw [close_failed hfailed, hdrained, List.map_nil, List.append_nil, ← hdrained]
  · exact close_of_not_failed hfailed

theorem post (inv : Settled n h process) {command : SetCommand}
    (hstep : process.post command = some process') :
    Settled n (⟨process, .post command, process'⟩ :: h) process' := by
  have hle : n ≤ (posts h).length := by
    have hlength := congrArg List.length inv.order
    simp only [List.length_append, List.length_map, List.length_range] at hlength
    have := inv.le
    have := inv.posted
    omega
  have htake : (posts h ++ [command]).take n = (posts h).take n :=
    List.take_append_of_le_length hle
  unfold NodeProcess.post at hstep
  split at hstep
  · cases hstep
  · rename_i e hphase
    cases hstep
    have hfailed : process.Failed := ⟨e, hphase⟩
    have hdrained := inv.drained hfailed
    refine ⟨⟨?_, ?_, ?_, ?_, ?_, fun hnot => absurd hfailed hnot⟩, fun _ => hdrained⟩
    · simp [inv.posted]
    · simp [htake, inv.accepted]
    · have horder := inv.order
      rw [hdrained, List.map_nil, List.append_nil] at horder
      simp [hdrained, horder, List.range_succ]
    · simp only [List.length_append]
      exact Nat.le_trans inv.le (Nat.le_add_right _ _)
    · intro x hx
      rcases List.mem_append.mp hx with hx | hx
      · exact inv.answers x hx
      · obtain rfl := List.mem_singleton.mp hx
        have hposted := inv.posted
        rw [if_neg (show ¬process.posted < n by omega)]
        rfl
  · rename_i hpanic herror
    cases hstep
    have hfailed : ¬process.Failed := fun ⟨e, he⟩ => herror e he
    obtain ⟨hlength, hrest⟩ := inv.alive hfailed
    refine ⟨⟨?_, ?_, ?_, inv.le, inv.answers, fun _ => ⟨hlength, ?_⟩⟩,
      fun hcontra => absurd hcontra hfailed⟩
    · simp [inv.posted]
    · simp [htake, inv.accepted]
    · simp [← List.append_assoc, inv.order, List.range_succ]
    · simp [hrest, List.drop_append_of_le_length hle]

theorem take (inv : Settled n h process) (hstep : process.take = some process') :
    ∃ n', Settled n' (⟨process, .take, process'⟩ :: h) process' := by
  obtain ⟨id, command, rest, hwaiting, hphase, rfl⟩ := take_eq_some hstep
  have hfailed : ¬process.Failed := not_failed_of_selecting hphase
  have hlength := (inv.alive hfailed).1
  obtain ⟨rfl, hnext, hdrop⟩ := inv.toServes.next_post hfailed hwaiting
  have horder : (process.answered ++ [(id, process.taken command)]).map Prod.fst ++
      rest.map Prod.fst = List.range process.posted := by
    rw [← inv.order, hwaiting]
    simp
  by_cases hleader : process.server.node.state = .leader
  · refine ⟨id + 1, Serves.close ⟨?_, ?_, horder, ?_, ?_, fun _ => ⟨?_, hdrop.symm⟩⟩⟩
    · simpa using inv.posted
    · rw [acceptedPosts_take_leader hleader hwaiting, inv.accepted, posts_take,
        List.take_add_one, hnext]
      rfl
    · simp [hlength]
    · intro x hx
      rcases List.mem_append.mp hx with hx | hx
      · have hlt : x.1 < id := by
          have hmem : x.1 ∈ process.answered.map Prod.fst := List.mem_map_of_mem hx
          rwa [inv.toServes.ids.1, List.mem_range, hlength] at hmem
        have hanswer := inv.answers x hx
        rw [if_pos hlt] at hanswer
        rw [if_pos (Nat.lt_succ_of_lt hlt), hanswer]
      · obtain rfl := List.mem_singleton.mp hx
        rw [if_pos (Nat.lt_succ_self id)]
        exact taken_leader hleader command
    · simp [hlength]
  · refine ⟨id, Serves.close ⟨?_, ?_, horder, ?_, ?_, fun hnot => absurd ?_ hnot⟩⟩
    · simpa using inv.posted
    · rw [acceptedPosts_take_other hleader, inv.accepted, posts_take]
    · simp [hlength]
    · intro x hx
      rcases List.mem_append.mp hx with hx | hx
      · exact inv.answers x hx
      · obtain rfl := List.mem_singleton.mp hx
        rw [if_neg (Nat.lt_irrefl id)]
        exact taken_other hleader command
    · exact ⟨RaftNode.notTheLeader, by
        simp [RaftServer.selectClient, RaftNode.handleClientRequest_other hleader]⟩

theorem loop (inv : Settled n h process) {stimulus : Stimulus}
    (hstep : process.step (.loop stimulus) = some process') :
    Settled n (⟨process, .loop stimulus, process'⟩ :: h) process' := by
  obtain ⟨_, server, hreact, rfl⟩ := step_loop_iff.mp hstep
  have hfailed : ¬process.Failed := by
    rintro ⟨e, he⟩
    rw [react_of_stopped he] at hreact
    cases hreact
  apply Serves.close
  exact ⟨by simpa using inv.posted, by simpa using inv.accepted, inv.order, inv.le, inv.answers,
    fun _ => by simpa using inv.alive hfailed⟩

end Settled

end NodeProcess

theorem log_of_take {process process' : NodeProcess} (h : process.take = some process') :
    ∃ id command rest, process.waiting = (id, command) :: rest ∧
      process'.server.node.log =
        if process.server.node.state = .leader then
          process.server.node.log.append (process.server.node.clientEntry command)
        else process.server.node.log := by
  obtain ⟨id, command, rest, hwaiting, _, rfl⟩ := NodeProcess.take_eq_some h
  refine ⟨id, command, rest, hwaiting, ?_⟩
  rw [NodeProcess.close_server]
  by_cases hleader : process.server.node.state = .leader
  · simp [RaftServer.selectClient, RaftNode.handleClientRequest_leader hleader, hleader]
  · simp [RaftServer.selectClient, RaftNode.handleClientRequest_other hleader, hleader]

theorem exists_settled {node : RaftNode} {h : List (Move NodeProcess ProcessAction)}
    {process : NodeProcess} (run : Run (nodeProcess node) h process) : ∃ n, process.Settled n h := by
  apply run.induct (fun h process => ∃ n, process.Settled n h)
  · exact ⟨0, ⟨rfl, rfl, rfl, Nat.le_refl 0, by simp [nodeProcess, Front.start],
      fun _ => ⟨rfl, rfl⟩⟩, fun _ => rfl⟩
  · rintro h process process' action _ ⟨n, inv⟩ hstep
    cases action with
    | post command => exact ⟨n, inv.post hstep⟩
    | take => exact inv.take hstep
    | loop stimulus => exact ⟨n, inv.loop hstep⟩

/-- In every run of a process, whatever reaches its loop: posts are answered at most once and
in their order, those answered with 200 are the ones that the node has made entries of, all
others are answered with 500, and nobody waits for a loop that has returned. -/
theorem settled_of_run {node : RaftNode} {h : List (Move NodeProcess ProcessAction)}
    {process : NodeProcess} (run : Run (nodeProcess node) h process) :
    (∃ n, process.Settled n h) ∧
      ∀ m ∈ h, m.action = .take → ∃ id command rest, m.before.waiting = (id, command) :: rest ∧
        m.after.server.node.log =
          if m.before.server.node.state = .leader then
            m.before.server.node.log.append (m.before.server.node.clientEntry command)
          else m.before.server.node.log := by
  refine ⟨exists_settled run, ?_⟩
  rintro ⟨before, action, after⟩ hmem rfl
  exact log_of_take (run.of_mem hmem).1

/-- Two commands for a leader, which then follows: the third ends the loop, and the fourth is
still waiting there. -/
theorem settled_of_run_failed :
    ∃ h process, Run (nodeProcess (RaftNode.new "node1" ["node2"] 7)) h process ∧
      process.answered.map (fun answer => (answer.1, answer.2.status)) =
        [(0, 200), (1, 200), (2, 500), (3, 500)] ∧
      ∃ n, process.Settled n h := by
  obtain ⟨h, process, run, _, hanswered⟩ := exists_run_of_exec
    (nodeProcess (RaftNode.new "node1" ["node2"] 7)) (fun _ _ => True)
    (fun process => process.answered.map (fun answer => (answer.1, answer.2.status)) =
      [(0, 200), (1, 200), (2, 500), (3, 500)])
    (.loop .clusterUp :: List.replicate 7 (.loop .tick) ++
      [.loop .send, .loop (.voteReply "node2" ⟨"node2", 1, true⟩), .loop .resume,
        .post ⟨"x", "1"⟩, .post ⟨"y", "2"⟩, .take, .take, .loop (.voteRequest ⟨2, "node2", -1, -1⟩),
        .post ⟨"z", "3"⟩, .post ⟨"x", "4"⟩, .take])
    (by decide +kernel)
  exact ⟨h, process, run, hanswered, (settled_of_run run).1⟩

end Rafting
