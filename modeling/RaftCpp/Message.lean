import Mathlib.Data.List.Basic
import Mathlib.Data.UInt

/-! # The messages of raft.proto

A message keeps the presence of each singular field, as the generated classes
do with their has-bits: `none` is a field that was never set. A getter returns
the field's default in that case, so reading a message never fails and a
missing field shows only when the message is decoded by its receiver.
-/

namespace RaftCpp

inductive EntryOp where
  | invalid | insert | delete | query
  deriving DecidableEq

structure LogEntry where
  op? : Option EntryOp := none
  key? : Option String := none
  value? : Option String := none
  deriving DecidableEq

structure VoteRequest where
  term? : Option UInt64 := none
  candidateId? : Option String := none
  lastLogIndex? : Option UInt64 := none
  lastTermIndex? : Option UInt64 := none
  deriving DecidableEq

structure VoteReply where
  term? : Option UInt64 := none
  vote? : Option Bool := none
  deriving DecidableEq

structure AppendRequest where
  term? : Option UInt64 := none
  candidateId? : Option String := none
  prevLogIndex? : Option UInt64 := none
  prevLogTerm? : Option UInt64 := none
  entries : List LogEntry := []
  deriving DecidableEq

structure AppendReply where
  term? : Option UInt64 := none
  success? : Option Bool := none
  deriving DecidableEq

inductive PeerStatus.Status where
  | unknown | follower | candidate | leader
  deriving DecidableEq

structure PeerStatus where
  term? : Option UInt64 := none
  status? : Option PeerStatus.Status := none
  deriving DecidableEq

structure OpRequest where
  op? : Option EntryOp := none
  key? : Option String := none
  value? : Option String := none
  deriving DecidableEq

structure OpReply where
  success? : Option Bool := none
  deriving DecidableEq

def VoteRequest.term (m : VoteRequest) : UInt64 := m.term?.getD 0
def VoteRequest.candidateId (m : VoteRequest) : String := m.candidateId?.getD ""
def VoteReply.vote (m : VoteReply) : Bool := m.vote?.getD false
def AppendRequest.term (m : AppendRequest) : UInt64 := m.term?.getD 0
def AppendRequest.candidateId (m : AppendRequest) : String := m.candidateId?.getD ""
def AppendReply.term (m : AppendReply) : UInt64 := m.term?.getD 0
def AppendReply.success (m : AppendReply) : Bool := m.success?.getD false
def PeerStatus.status (m : PeerStatus) : PeerStatus.Status := m.status?.getD .follower
def OpRequest.op (m : OpRequest) : EntryOp := m.op?.getD .invalid

inductive Label where
  | required | optional
  deriving DecidableEq

structure Field where
  name : String
  label : Label
  present : Bool
  deriving DecidableEq

/-- The singular fields of a message with the labels raft.proto gives them, those of
the messages nested in its repeated fields included. -/
class Schema (μ : Type) where
  fields : μ → List Field

instance : Schema LogEntry where
  fields m := [⟨"op", .required, m.op?.isSome⟩, ⟨"key", .optional, m.key?.isSome⟩,
    ⟨"value", .optional, m.value?.isSome⟩]

instance : Schema VoteRequest where
  fields m := [⟨"term", .required, m.term?.isSome⟩,
    ⟨"candidate_id", .required, m.candidateId?.isSome⟩,
    ⟨"last_log_index", .required, m.lastLogIndex?.isSome⟩,
    ⟨"last_term_index", .required, m.lastTermIndex?.isSome⟩]

instance : Schema VoteReply where
  fields m := [⟨"term", .required, m.term?.isSome⟩, ⟨"vote", .required, m.vote?.isSome⟩]

instance : Schema AppendRequest where
  fields m := [⟨"term", .required, m.term?.isSome⟩,
    ⟨"candidate_id", .required, m.candidateId?.isSome⟩,
    ⟨"prev_log_index", .required, m.prevLogIndex?.isSome⟩,
    ⟨"prev_log_term", .required, m.prevLogTerm?.isSome⟩] ++ m.entries.flatMap Schema.fields

instance : Schema AppendReply where
  fields m := [⟨"term", .required, m.term?.isSome⟩, ⟨"success", .required, m.success?.isSome⟩]

instance : Schema PeerStatus where
  fields m := [⟨"term", .required, m.term?.isSome⟩, ⟨"status", .required, m.status?.isSome⟩]

instance : Schema OpReply where
  fields m := [⟨"success", .required, m.success?.isSome⟩]

def missing {μ : Type} [Schema μ] (m : μ) : List String :=
  ((Schema.fields m).filter (fun f => f.label = .required ∧ f.present = false)).map Field.name

def IsInitialized {μ : Type} [Schema μ] (m : μ) : Prop := missing m = []

instance {μ : Type} [Schema μ] (m : μ) : Decidable (IsInitialized m) :=
  inferInstanceAs (Decidable (missing m = []))

end RaftCpp
