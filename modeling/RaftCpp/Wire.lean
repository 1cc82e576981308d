import RaftCpp.Turn

/-! # What the receiver can decode

Protobuf is a parameter: decoding succeeds exactly on messages whose required
fields are all present and then gives back the fields that were set. Five of
the six kinds of message that a node builds meet the schema on every branch.
The heartbeat never sets `prev_log_index` and `prev_log_term`, so no receiver
decodes it and the leader's call ends in an rpc_error.
-/

namespace RaftCpp

open Transition

inductive Packet where
  | voteRequest (message : VoteRequest)
  | appendRequest (message : AppendRequest)
  | voteReply (message : VoteReply)
  | appendReply (message : AppendReply)
  | peerStatus (message : PeerStatus)
  | opReply (message : OpReply)
  deriving DecidableEq

instance : Schema Packet where
  fields
    | .voteRequest m => Schema.fields m
    | .appendRequest m => Schema.fields m
    | .voteReply m => Schema.fields m
    | .appendReply m => Schema.fields m
    | .peerStatus m => Schema.fields m
    | .opReply m => Schema.fields m

structure Protobuf (μ : Type) [Schema μ] where
  Bytes : Type
  encode : μ → Bytes
  decode : Bytes → Option μ
  decode_encode : ∀ m, decode (encode m) = if IsInitialized m then some m else none

def Protobuf.Delivers {μ : Type} [Schema μ] (protobuf : Protobuf μ) (m : μ) : Prop :=
  protobuf.decode (protobuf.encode m) = some m

theorem Protobuf.delivers_iff {μ : Type} [Schema μ] (protobuf : Protobuf μ) (m : μ) :
    protobuf.Delivers m ↔ IsInitialized m := by
  rw [Delivers, protobuf.decode_encode]
  split <;> simp_all

def Request.packet : Request → Packet
  | .vote request => .voteRequest request
  | .append request => .appendRequest request

def Reply.packet : Reply → Packet
  | .vote reply => .voteReply reply
  | .append reply => .appendReply reply

def Packet.IsHeartbeat : Packet → Prop
  | .appendRequest _ => True
  | _ => False

namespace Node

variable {n n' : Node} {i : Input} {out : Output} {packet : Packet}

/-- The messages a node can send from a state: the calls and replies of its next step,
and the answers of the two handlers that leave the state alone. -/
inductive Sends (n : Node) : Packet → Prop
  | call {i : Input} {n' : Node} {call : Nat} {endpoint : String} {request : Request} :
      n.step i = some (n', .calls call endpoint request) → Sends n request.packet
  | reply {i : Input} {n' : Node} {call : Nat} {reply : Reply} :
      n.step i = some (n', .replies call reply) → Sends n reply.packet
  | status : Sends n (.peerStatus n.raft.getStatus)
  | op (request : OpRequest) : Sends n (.opReply (n.raft.op request))

theorem missing_appendRequest (r : Raft) :
    missing r.appendRequest = ["prev_log_index", "prev_log_term"] := rfl

theorem isInitialized_call {call : Nat} {endpoint : String} {request : Request}
    (hTurn : Turn n i n' (.calls call endpoint request)) :
    IsInitialized request.packet ↔ ¬ request.packet.IsHeartbeat := by
  cases hTurn with
  | asksVote => exact ⟨fun _ h => h, fun _ => rfl⟩
  | asksAppend =>
    refine ⟨fun h => ?_, fun h => absurd trivial h⟩
    have hMissing := (missing_appendRequest n.raft).symm.trans h
    cases hMissing

theorem isInitialized_reply {call : Nat} {reply : Reply}
    (hTurn : Turn n i n' (.replies call reply)) :
    IsInitialized reply.packet ∧ ¬ reply.packet.IsHeartbeat := by
  cases hTurn with
  | grants | refuses | follows | yields | rejects => exact ⟨rfl, fun h => h⟩

theorem isInitialized_opReply (r : Raft) (request : OpRequest) : IsInitialized (r.op request) := by
  unfold Raft.op
  split
  · rfl
  · split <;> rfl

/-- Every message is delivered as it was sent, except the heartbeat, which never is. -/
theorem delivers_iff_not_heartbeat (protobuf : Protobuf Packet) (h : n.Sends packet) :
    protobuf.Delivers packet ↔ ¬ packet.IsHeartbeat := by
  rw [protobuf.delivers_iff]
  cases h with
  | call hStep => exact isInitialized_call (turn_of_step hStep)
  | reply hStep =>
    obtain ⟨hInit, hKind⟩ := isInitialized_reply (turn_of_step hStep)
    exact ⟨fun _ => hKind, fun _ => hInit⟩
  | status => exact ⟨fun _ h => h, fun _ => rfl⟩
  | op request => exact ⟨fun _ h => h, fun _ => isInitialized_opReply n.raft request⟩

def checkedCopy : Protobuf Packet where
  Bytes := Packet
  encode m := m
  decode m := if IsInitialized m then some m else none
  decode_encode _ := rfl

def freshNode : Node := new sampleBoot ["a", "b"] ⟨0, by decide⟩

/-- The inputs that make the first node of two a leader about to call its peer. -/
def leaderInputs : List Input :=
  [.launch, .test, .wake 6000 200 ["a", "b"], .test, .wake 6000 200 ["a", "b"], .advance 6000 0,
    .advance 6000 0, .returned 6000 (some (.vote { term? := some (-1), vote? := some true })),
    .advance 6000 0, .test, .wake 6000 200 ["a", "b"], .advance 6000 1]

/-- What the first node of two asks for as a candidate. -/
def requestOfA : VoteRequest where
  term? := some 0
  candidateId? := some "a"
  lastLogIndex? := some (-1)
  lastTermIndex? := some (-1)

theorem vote_request_is_delivered : ∃ n, (system ["a", "b"] 0).Reachable n ∧
    n.raft.status = .candidate ∧ n.Sends (.voteRequest requestOfA) ∧
    checkedCopy.Delivers (.voteRequest requestOfA) := by
  obtain ⟨n, hReachable, hLast⟩ := System.exists_reaches (system ["a", "b"] 0)
    System.anyStep freshNode (leaderInputs.take 6)
    (P := fun n : Node => decide (n.raft.status = .candidate) &&
      (n.step (.advance 6000 0)).any fun r : Node × Output =>
        decide (r.2 = .calls 0 "b" (.vote requestOfA)))
    ⟨_, rfl⟩ (by decide)
  obtain ⟨hStatus, hLast⟩ := Bool.and_eq_true_iff.mp hLast
  obtain ⟨⟨n', out⟩, hStep, hOut⟩ := (Option.any_eq_true _ _).mp hLast
  have hSends : n.Sends (Request.vote requestOfA).packet :=
    .call (hStep.trans (by rw [← of_decide_eq_true hOut]))
  exact ⟨n, hReachable, of_decide_eq_true hStatus, hSends,
    (delivers_iff_not_heartbeat checkedCopy hSends).mpr (fun h => h)⟩

theorem heartbeat_is_not_delivered :
    ¬ ∀ (peersAddrs : List String) (peerId : Fin peersAddrs.length) (n : Node) (packet : Packet)
      (protobuf : Protobuf Packet), (system peersAddrs peerId).Reachable n → n.Sends packet →
      protobuf.Delivers packet := by
  intro h
  obtain ⟨n, hReachable, hLast⟩ := System.exists_reaches (system ["a", "b"] 0)
    System.anyStep freshNode leaderInputs
    (P := fun n : Node => (n.step (.advance 6000 1)).any fun r : Node × Output =>
      decide (r.2 = .calls 1 "b" (.append { term? := some 0, candidateId? := some "a" })))
    ⟨_, rfl⟩ (by decide)
  obtain ⟨⟨n', out⟩, hStep, hOut⟩ := (Option.any_eq_true _ _).mp hLast
  have hSends : n.Sends (Request.append { term? := some 0, candidateId? := some "a" }).packet :=
    .call (hStep.trans (by rw [← of_decide_eq_true hOut]))
  have hDelivers := h ["a", "b"] 0 n _ checkedCopy hReachable hSends
  rw [checkedCopy.delivers_iff] at hDelivers
  revert hDelivers
  decide

end Node

end RaftCpp
