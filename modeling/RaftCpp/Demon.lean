import Mathlib.Algebra.Order.Group.Unbundled.Abs
import Mathlib.Data.Finset.Card
import RaftCpp.Raft

/-! # The daemon thread and one node's steps

LaunchRaftDemon holds `lock_` for a whole turn of its loop, blocking calls
included, so other nodes move while it waits but its own handlers do not. The
daemon is therefore cut only where it blocks or goes round one of its two `for`
loops. It blocks for the lock too, after it has tested `is_dead_`, so a handler
or Kill may still come between the test and the turn. Outcomes of calls, clock
readings, the random draw and the iteration order of the hash set are inputs. A
null stub or an erased end iterator leads to `fault`, from which there is no
step.
-/

namespace RaftCpp

open UnorderedMap

/-- Where the daemon is: asleep before its channels exist, between two turns with the
lock free, past the test of `is_dead_` and about to take the lock, at the head of a `for`
loop with the peers still to visit, or in a call. -/
inductive Demon where
  | sleeping
  | unlocked
  | atLock
  | voting (rest : List String) (voteCount : Nat)
  | awaitingVote (call : Nat) (peer : String) (rest : List String) (voteCount : Nat)
  | beating (rest : List String)
  | awaitingAppend (call : Nat) (peer : String) (rest : List String)
  | fault
  deriving DecidableEq

structure Stub where
  endpoint : String
  deriving DecidableEq

/-- `std::unordered_map<std::string, std::unique_ptr<RaftService_Stub>>`; a null pointer
is `none` inside the entry. -/
abbrev Channels := Map String (Option Stub)

inductive Request where
  | vote (request : VoteRequest)
  | append (request : AppendRequest)
  deriving DecidableEq

def Request.sender : Request → String
  | .vote request => request.candidateId
  | .append request => request.candidateId

inductive Reply where
  | vote (reply : VoteReply)
  | append (reply : AppendReply)
  deriving DecidableEq

inductive Input where
  | launch
  | test
  | wake (now draw : Int) (order : List String)
  | advance (now : Int) (call : Nat)
  | returned (now : Int) (reply : Option Reply)
  | serve (now : Int) (call : Nat) (request : Request)
  | kill
  | killed
  deriving DecidableEq

inductive Output where
  | silent
  | stands
  | evicts (id : String)
  | campaigns (term : UInt64)
  | calls (call : Nat) (endpoint : String) (request : Request)
  | leads (term : UInt64)
  | loses
  | deposed
  | replies (call : Nat) (reply : Reply)
  | faults
  deriving DecidableEq

def Output.call? : Output → Option (String × Request)
  | .calls _ endpoint request => some (endpoint, request)
  | _ => none

def Output.campaign? : Output → Option UInt64
  | .campaigns term => some term
  | _ => none

def Output.evicted? : Output → Option String
  | .evicts id => some id
  | _ => none

structure Node where
  raft : Raft
  demon : Demon
  channels : Channels

def Demon.lockFree : Demon → Bool
  | .sleeping | .unlocked | .atLock => true
  | _ => false

namespace Raft

def openChannels (r : Raft) : Channels := fun s =>
  if s ∈ r.peers ∧ s ≠ r.selfId then some (some ⟨s⟩) else none

def TimesOut (r : Raft) (now draw : Int) : Prop := ¬ |r.leaderActiveTime - now| < draw * 25

instance (r : Raft) (now draw : Int) : Decidable (r.TimesOut now draw) :=
  inferInstanceAs (Decidable (¬ _))

def becomeCandidate (r : Raft) : Raft := { r with status := .candidate }

def evict (r : Raft) : Raft := { r with peers := r.peers.erase r.voteFor, voteFor := "" }

def campaign (r : Raft) : Raft := { r with term := r.term + 1, voteFor := r.selfId }

-- The source builds it once before the loop; the lock keeps both fields fixed until the end.
def voteRequest (r : Raft) : VoteRequest where
  candidateId? := some r.selfId
  lastLogIndex? := some (-1)
  lastTermIndex? := some (-1)
  term? := some r.term

def HasQuorum (r : Raft) (voteCount : Nat) : Prop := r.peers.card / 2 + 1 ≤ voteCount

instance (r : Raft) (voteCount : Nat) : Decidable (r.HasQuorum voteCount) :=
  inferInstanceAs (Decidable (_ ≤ _))

-- With a log the source sets none of the three fields: "the setting is different".
def becomeLeader (r : Raft) : Raft :=
  { r with
    status := .leader
    peersNextIndex := fun peer =>
      if r.logs.length = 0 ∧ peer ∈ r.peers then some 0 else r.peersNextIndex peer
    commitIndex := if r.logs.length = 0 then 0 else r.commitIndex
    lastApplied := if r.logs.length = 0 then 0 else r.lastApplied }

def loseElection (r : Raft) (now : Int) : Raft :=
  { r with leaderActiveTime := now, status := .follower, voteFor := "" }

def appendRequest (r : Raft) : AppendRequest where
  candidateId? := some r.selfId
  term? := some r.term

def stepDown (r : Raft) (reply : AppendReply) (now : Int) : Raft :=
  { r with status := .follower, term := reply.term, leaderActiveTime := now }

-- Kill sets the flag first and the status last.
def kill (r : Raft) : Raft := { r with isDead := true }

def killed (r : Raft) : Raft := { r with status := .dead }

end Raft

namespace Node

def new (boot : Boot) (peersAddrs : List String) (peerId : Fin peersAddrs.length) : Node where
  raft := Raft.new boot peersAddrs peerId
  demon := .sleeping
  channels := UnorderedMap.empty

def evict (n : Node) : Node × Output :=
  let id := n.raft.voteFor
  let channels := (subscript n.channels id none).1
  -- release() takes the pointer out of the entry and leaves null
  let channels := insert channels id none
  match channels id with
  | none => ({ n with demon := .fault }, .faults)
  | some _ => ({ n with raft := n.raft.evict, channels := erase channels id }, .evicts id)

def followerTurn (n : Node) (now draw : Int) : Node × Output :=
  if n.raft.TimesOut now draw then
    if n.raft.voteFor = "" then ({ n with raft := n.raft.becomeCandidate }, .stands)
    else n.evict
  else (n, .silent)

/-- The daemon may take the lock and begin a turn. The draw is in the range of the
distribution and `order` lists the set of peers. -/
structure Awake (n : Node) (draw : Int) (order : List String) : Prop where
  demon : n.demon = .atLock
  low : 200 ≤ draw
  high : draw ≤ 350
  nodup : order.Nodup
  peers : order.toFinset = n.raft.peers

instance (n : Node) (draw : Int) (order : List String) : Decidable (n.Awake draw order) :=
  decidable_of_iff (n.demon = .atLock ∧ 200 ≤ draw ∧ draw ≤ 350 ∧ order.Nodup ∧
      order.toFinset = n.raft.peers)
    ⟨fun h => ⟨h.1, h.2.1, h.2.2.1, h.2.2.2.1, h.2.2.2.2⟩,
      fun h => ⟨h.demon, h.low, h.high, h.nodup, h.peers⟩⟩

def wake (n : Node) (now draw : Int) (order : List String) : Node × Output :=
  match n.raft.status with
  -- no call in this branch, so that the step goes on to the unlock
  | .follower => ({ n with demon := .unlocked } : Node).followerTurn now draw
  | .candidate =>
    ({ n with raft := n.raft.campaign, demon := .voting order 1 }, .campaigns n.raft.campaign.term)
  | _ => ({ n with demon := .beating order }, .silent)

def ask (n : Node) (call : Nat) (peer : String) (request : Request) (demon : Demon) :
    Node × Output :=
  match n.channels peer with
  | some (some stub) => ({ n with demon := demon }, .calls call stub.endpoint request)
  | _ => ({ n with demon := .fault }, .faults)

def advance (n : Node) (now : Int) (call : Nat) : Option (Node × Output) :=
  match n.demon with
  | .voting [] voteCount =>
    if n.raft.HasQuorum voteCount then
      some ({ n with raft := n.raft.becomeLeader, demon := .unlocked }, .leads n.raft.term)
    else some ({ n with raft := n.raft.loseElection now, demon := .unlocked }, .loses)
  | .voting (peer :: rest) voteCount =>
    if peer = n.raft.selfId then some ({ n with demon := .voting rest voteCount }, .silent)
    else some (n.ask call peer (.vote n.raft.voteRequest) (.awaitingVote call peer rest voteCount))
  | .beating [] => some ({ n with demon := .unlocked }, .silent)
  | .beating (peer :: rest) =>
    if peer = n.raft.selfId then some ({ n with demon := .beating rest }, .silent)
    else some (n.ask call peer (.append n.raft.appendRequest) (.awaitingAppend call peer rest))
  | _ => none

def returned (n : Node) (now : Int) (reply : Option Reply) : Option (Node × Output) :=
  match n.demon, reply with
  -- an rpc_error leaves the reply as it was initialised, with vote false
  | .awaitingVote _ _ rest voteCount, none =>
    some ({ n with demon := .voting rest voteCount }, .silent)
  | .awaitingVote _ _ rest voteCount, some (.vote reply) =>
    if reply.vote = true then some ({ n with demon := .voting rest (voteCount + 1) }, .silent)
    else some ({ n with demon := .voting rest voteCount }, .silent)
  | .awaitingAppend _ _ rest, none => some ({ n with demon := .beating rest }, .silent)
  | .awaitingAppend _ _ rest, some (.append reply) =>
    if reply.success = false then
      some ({ n with raft := n.raft.stepDown reply now, demon := .unlocked }, .deposed)
    else some ({ n with demon := .beating rest }, .silent)
  | _, _ => none

def serve (n : Node) (now : Int) (call : Nat) : Request → Node × Output
  | .vote request =>
    ({ n with raft := (n.raft.vote request now).1 },
      .replies call (.vote (n.raft.vote request now).2))
  | .append request =>
    ({ n with raft := (n.raft.appendMsg request now).1 },
      .replies call (.append (n.raft.appendMsg request now).2))

/-- `test` is the condition of the loop, which the daemon reads without the lock. `kill`
sets the flag at any time; `killed` is the rest of Kill, after the daemon has left its loop
and the server has stopped, so that no handler runs any more. -/
def step (n : Node) : Input → Option (Node × Output)
  | .launch =>
    if n.demon = .sleeping then
      some ({ n with demon := .unlocked, channels := n.raft.openChannels }, .silent)
    else none
  | .test =>
    if n.demon = .unlocked ∧ n.raft.isDead = false then
      some ({ n with demon := .atLock }, .silent)
    else none
  | .wake now draw order => if n.Awake draw order then some (n.wake now draw order) else none
  | .advance now call => n.advance now call
  | .returned now reply => n.returned now reply
  | .serve now call request =>
    if n.demon.lockFree = true ∧ n.raft.status ≠ .dead then some (n.serve now call request)
    else none
  | .kill => some ({ n with raft := n.raft.kill }, .silent)
  | .killed =>
    if n.demon = .unlocked ∧ n.raft.isDead = true then
      some ({ n with raft := n.raft.killed }, .silent)
    else none

end Node

end RaftCpp
