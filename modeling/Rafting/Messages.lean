import Mathlib.Logic.Function.Basic

/-! The values that cross the crate's channels: the protobuf messages of
`proto/raft.proto`, the events built from them, and the errors. Strings and
lists are the source's own; `i32` and `i64` fields are integers. -/
namespace Rafting

/-- Nodes are named by the `node_id` strings of the cluster configuration. -/
abbrev NodeId := String

/-- The escapes of `{:?}` for the characters of a string that are not printed as they are. -/
def debugChar (c : Char) : String :=
  if c.toNat = 34 then "\\\""
  else if c.toNat = 92 then "\\\\"
  else if c.toNat = 0 then "\\0"
  else if c.toNat = 9 then "\\t"
  else if c.toNat = 10 then "\\n"
  else if c.toNat = 13 then "\\r"
  else String.singleton c

/-- `{:?}` of a string whose other characters are printable. -/
def debugString (s : String) : String :=
  "\"" ++ String.join (s.toList.map debugChar) ++ "\""

structure LogEntry where
  index : Int
  term : Int
  command : String
deriving DecidableEq, Repr

structure RequestVoteRequest where
  term : Int
  candidateId : NodeId
  lastLogIndex : Int
  lastLogTerm : Int
deriving DecidableEq, Repr

/-- `fromNode` is the field `from`, and below `toNode` the field `to`: both are
reserved words here. -/
structure RequestVoteResponse where
  fromNode : NodeId
  term : Int
  voteGranted : Bool
deriving DecidableEq, Repr

structure AppendEntriesRequest where
  toNode : NodeId
  term : Int
  leaderId : NodeId
  prevLogIndex : Int
  prevLogTerm : Int
  entries : List LogEntry
  leaderCommitIndex : Int
  leaderCommitTerm : Int
deriving DecidableEq, Repr

structure AppendEntriesResponse where
  fromNode : NodeId
  term : Int
  success : Bool
  lastAppliedIndex : Int
deriving DecidableEq, Repr

inductive RaftEvent where
  | peerVotesRequestEvent (request : RequestVoteRequest)
  | peerVotesResponseEvent (responses : List RequestVoteResponse)
  | appendEntriesRequestEvent (request : AppendEntriesRequest)
  | appendEntriesResponseEvent (response : AppendEntriesResponse)
  | requestVoteResponseEvent (response : RequestVoteResponse)
  | clusterNodesDownEvent
  | clusterNodesUpEvent
deriving DecidableEq, Repr

/-- The variant's name, standing in for the `{:?}` rendering of an event. -/
def RaftEvent.debug : RaftEvent → String
  | peerVotesRequestEvent _ => "PeerVotesRequestEvent"
  | peerVotesResponseEvent _ => "PeerVotesResponseEvent"
  | appendEntriesRequestEvent _ => "AppendEntriesRequestEvent"
  | appendEntriesResponseEvent _ => "AppendEntriesResponseEvent"
  | requestVoteResponseEvent _ => "RequestVoteResponseEvent"
  | clusterNodesDownEvent => "ClusterNodesDownEvent"
  | clusterNodesUpEvent => "ClusterNodesUpEvent"

structure SetCommand where
  key : String
  value : String
deriving DecidableEq, Repr

inductive ClientEvent where
  | commandRequestEvent (command : SetCommand)
  | commandResponseEvent (accepted : Bool)
deriving DecidableEq, Repr

def ClientEvent.debug : ClientEvent → String
  | commandRequestEvent _ => "CommandRequestEvent"
  | commandResponseEvent _ => "CommandResponseEvent"

/-- JSON string escapes: the two-character forms where JSON has one, `\u00XX`
for the remaining control characters. -/
def escapeChar (c : Char) : String :=
  if c.toNat = 34 then "\\\""
  else if c.toNat = 92 then "\\\\"
  else if c.toNat = 8 then "\\b"
  else if c.toNat = 9 then "\\t"
  else if c.toNat = 10 then "\\n"
  else if c.toNat = 12 then "\\f"
  else if c.toNat = 13 then "\\r"
  else if c.toNat < 32 then
    "\\u00" ++ String.singleton (Nat.digitChar (c.toNat / 16)) ++
      String.singleton (Nat.digitChar (c.toNat % 16))
  else String.singleton c

def jsonString (s : String) : String :=
  "\"" ++ String.join (s.toList.map escapeChar) ++ "\""

/-- `serde_json::to_string` of a command: the derived object, fields in
declaration order. It has no failing case for two strings. -/
def SetCommand.toJson (command : SetCommand) : String :=
  "\x7b\"key\":" ++ jsonString command.key ++ ",\"value\":" ++
    jsonString command.value ++ "\x7d"

inductive RaftError where
  | applicationStartup (message : String)
  | badRequest (message : String)
  | internalServerError
  | internalServerErrorWithContext (message : String)
  | anyhowError (message : String)
deriving DecidableEq, Repr

/-- What ends a computation early: an `Err` that `?` passes on, or a panic. -/
inductive Fault where
  | error (error : RaftError)
  | panic (message : String)
deriving DecidableEq, Repr

abbrev RaftResult (α : Type) := Except Fault α

/-- Panic of `Option::unwrap` on `None`. -/
def unwrapNone : Fault :=
  .panic "called `Option::unwrap()` on a `None` value"

/-- Panic of a checked addition, on `i32::MAX` or `i64::MAX`. -/
def addOverflow : Fault :=
  .panic "attempt to add with overflow"

/-- Panic of a checked subtraction on `i64::MIN`. -/
def subtractOverflow : Fault :=
  .panic "attempt to subtract with overflow"

end Rafting
