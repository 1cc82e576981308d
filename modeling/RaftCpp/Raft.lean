import Mathlib.Data.Finset.Basic
import Mathlib.Data.UInt
import RaftCpp.Library.UnorderedMap
import RaftCpp.Message

/-! # The node object: class Raft and its request handlers

The fields are those of the class, less its threads and locks, which the daemon
model accounts for. Clock readings are milliseconds and come in as arguments.
Terms are unsigned 64-bit numbers; AppendMsg receives one through a signed
32-bit variable, and that round trip is kept.
-/

namespace RaftCpp

open UnorderedMap

inductive RaftStatus where
  | unknown | dead | leader | follower | candidate
  deriving DecidableEq

structure Raft where
  rpcAddr : String
  rpcPort : Int
  selfId : String
  voteFor : String
  term : UInt64
  status : RaftStatus
  leaderActiveTime : Int
  isDead : Bool
  commitIndex : UInt64
  lastApplied : UInt64
  peers : Finset String
  peersNextIndex : Map String UInt64
  logs : List LogEntry

/-- What the constructor does not take from the list of peers: its other arguments, the
clock, and the two counters that it leaves uninitialised. -/
structure Boot where
  addr : String
  port : Int
  now : Int
  commitIndex : UInt64
  lastApplied : UInt64

def sampleBoot : Boot := ⟨"127.0.0.1", 5555, 0, 0, 0⟩

def Raft.new (boot : Boot) (peersAddrs : List String) (peerId : Fin peersAddrs.length) : Raft where
  rpcAddr := boot.addr
  rpcPort := boot.port
  selfId := peersAddrs.get peerId
  voteFor := ""
  term := -1
  status := .follower
  leaderActiveTime := boot.now
  isDead := false
  commitIndex := boot.commitIndex
  lastApplied := boot.lastApplied
  peers := peersAddrs.toFinset
  peersNextIndex := UnorderedMap.empty
  logs := []

/-- The value that `int term = request.term()` holds. -/
def narrow (t : UInt64) : Int32 := t.toInt64.toInt32

/-- An `int` converted for a comparison with, or an assignment to, a `uint64_t`. -/
def widen (t : Int32) : UInt64 := t.toInt64.toUInt64

theorem toInt_eq_bmod (t : UInt64) : t.toInt64.toInt = (t.toNat : Int).bmod (2 ^ 64) :=
  BitVec.toInt_eq_toNat_bmod t.toBitVec

theorem toInt_widen_narrow (t : UInt64) :
    (widen (narrow t)).toInt64.toInt = t.toInt64.toInt.bmod (2 ^ 32) := by
  rw [widen, Int64.toInt64_toUInt64, narrow, Int32.toInt_toInt64, Int64.toInt_toInt32]

/-- The low half of the term, with its sign bit extended. -/
theorem toNat_widen_narrow (t : UInt64) :
    (widen (narrow t)).toNat = if t.toNat % 2 ^ 32 < 2 ^ 31 then t.toNat % 2 ^ 32
      else 2 ^ 64 - 2 ^ 32 + t.toNat % 2 ^ 32 := by
  have hLt := t.toNat_lt
  have hLt' := (widen (narrow t)).toNat_lt
  have hInt := toInt_widen_narrow t
  rw [toInt_eq_bmod, toInt_eq_bmod] at hInt
  simp only [Int.bmod_def] at hInt
  split <;> omega

theorem widen_narrow_eq_iff (t : UInt64) :
    widen (narrow t) = t ↔ t.toNat < 2 ^ 31 ∨ 2 ^ 64 - 2 ^ 31 ≤ t.toNat := by
  have hLt := t.toNat_lt
  rw [← UInt64.toNat_inj, toNat_widen_narrow]
  split <;> omega

namespace Raft

def statusMapping (r : Raft) : PeerStatus.Status :=
  match r.status with
  | .follower => .follower
  | .candidate => .candidate
  | .leader => .leader
  | _ => .unknown

def getStatus (r : Raft) : PeerStatus :=
  { term? := some r.term, status? := some r.statusMapping }

def op (r : Raft) (request : OpRequest) : OpReply :=
  let rep : OpReply := { success? := some false }
  if r.status ≠ .leader then rep
  else
    match request.op with
    -- the log lock is taken for writing, and nothing is done under it
    | .delete | .insert => { rep with success? := some true }
    -- the same with the log lock taken for reading
    | .query => { rep with success? := some true }
    | .invalid => { rep with success? := some true }

def vote (r : Raft) (request : VoteRequest) (now : Int) : Raft × VoteReply :=
  let response : VoteReply := { term? := some r.term }
  if r.status = .leader ∨ r.status = .candidate then
    (r, { response with vote? := some false })
  else if r.voteFor ≠ "" then
    (r, { response with vote? := some false })
  else
    ({ r with voteFor := request.candidateId, leaderActiveTime := now },
      { response with vote? := some true })

def appendMsg (r : Raft) (request : AppendRequest) (now : Int) : Raft × AppendReply :=
  let e : AppendReply := { term? := some r.term, success? := some false }
  let r := { r with leaderActiveTime := now }
  let term := narrow request.term
  let leaderId := request.candidateId
  if r.term ≤ widen term then
    let r := { r with term := widen term }
    let r := if r.status = .candidate ∨ r.status = .leader then
      { r with status := .follower, voteFor := leaderId } else r
    (r, { e with success? := some true })
  else
    (r, { e with success? := some false })

def Grants (r : Raft) : Prop := r.status ≠ .leader ∧ r.status ≠ .candidate ∧ r.voteFor = ""

def Accepts (r : Raft) (request : AppendRequest) : Prop := r.term ≤ widen (narrow request.term)

def recordVote (r : Raft) (candidateId : String) (now : Int) : Raft :=
  { r with voteFor := candidateId, leaderActiveTime := now }

def touch (r : Raft) (now : Int) : Raft := { r with leaderActiveTime := now }

def follow (r : Raft) (request : AppendRequest) (now : Int) : Raft :=
  { r with leaderActiveTime := now, term := widen (narrow request.term) }

def yield (r : Raft) (request : AppendRequest) (now : Int) : Raft :=
  { r.follow request now with status := .follower, voteFor := request.candidateId }

instance (r : Raft) : Decidable r.Grants := inferInstanceAs (Decidable (_ ∧ _ ∧ _))

theorem vote_of_grants {r : Raft} (h : r.Grants) (request : VoteRequest) (now : Int) :
    r.vote request now = (r.recordVote request.candidateId now,
      { term? := some r.term, vote? := some true }) := by
  simp [vote, recordVote, h.1, h.2.1, h.2.2]

theorem vote_of_not_grants {r : Raft} (h : ¬ r.Grants) (request : VoteRequest) (now : Int) :
    r.vote request now = (r, { term? := some r.term, vote? := some false }) := by
  unfold vote
  split
  · rfl
  · rename_i hStatus
    rw [not_or] at hStatus
    rw [if_pos (fun hEmpty => h ⟨hStatus.1, hStatus.2, hEmpty⟩)]

theorem vote_true_iff (r : Raft) (request : VoteRequest) (now : Int) :
    (r.vote request now).2.vote = true ↔ r.Grants := by
  by_cases h : r.Grants
  · simp [vote_of_grants h, VoteReply.vote, h]
  · simp [vote_of_not_grants h, VoteReply.vote, h]

theorem appendMsg_of_not_accepts {r : Raft} {request : AppendRequest} (h : ¬ r.Accepts request)
    (now : Int) : r.appendMsg request now =
      (r.touch now, { term? := some r.term, success? := some false }) := by
  rw [Accepts] at h
  simp [appendMsg, touch, h]

theorem appendMsg_of_follows {r : Raft} {request : AppendRequest} (h : r.Accepts request)
    (hStatus : r.status ≠ .candidate ∧ r.status ≠ .leader) (now : Int) :
    r.appendMsg request now =
      (r.follow request now, { term? := some r.term, success? := some true }) := by
  rw [Accepts] at h
  simp [appendMsg, follow, h, hStatus.1, hStatus.2]

theorem appendMsg_of_stepsDown {r : Raft} {request : AppendRequest} (h : r.Accepts request)
    (hStatus : r.status = .candidate ∨ r.status = .leader) (now : Int) :
    r.appendMsg request now =
      (r.yield request now, { term? := some r.term, success? := some true }) := by
  rw [Accepts] at h
  simp [appendMsg, yield, follow, h, hStatus]

theorem appendMsg_success_iff (r : Raft) (request : AppendRequest) (now : Int) :
    (r.appendMsg request now).2.success = true ↔ r.Accepts request := by
  by_cases h : r.Accepts request
  · by_cases hStatus : r.status = .candidate ∨ r.status = .leader
    · simp [appendMsg_of_stepsDown h hStatus, AppendReply.success, h]
    · simp [appendMsg_of_follows h (not_or.mp hStatus), AppendReply.success, h]
  · simp [appendMsg_of_not_accepts h, AppendReply.success, h]

end Raft

end RaftCpp
