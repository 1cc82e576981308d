import RaftCpp.Turn

/-! # Vote and AppendMsg on the same term

Vote decides without looking at the request's term and does not adopt it, while
AppendMsg compares an unsigned `term_` that starts at the largest value with an
`int`. Whether the heartbeat that follows a granted vote is accepted depends on
that comparison alone. It is the comparison of the two 64-bit terms only where
the request's term survives the `int`, or where the way back leaves it too small.
-/

namespace RaftCpp

open Transition

/-- A heartbeat with the candidate and the term of a vote request; the fields that
AppendMsg does not read are arbitrary. -/
def VoteRequest.heartbeat (request : VoteRequest) (prevLogIndex? prevLogTerm? : Option UInt64)
    (entries : List LogEntry) : AppendRequest where
  term? := request.term?
  candidateId? := request.candidateId?
  prevLogIndex? := prevLogIndex?
  prevLogTerm? := prevLogTerm?
  entries := entries

namespace Raft

theorem vote_term (r : Raft) (request : VoteRequest) (now : Int) :
    (r.vote request now).1.term = r.term := by
  by_cases h : r.Grants
  · rw [vote_of_grants h]
    rfl
  · rw [vote_of_not_grants h]

/-- The node keeps to its vote exactly where it would not have voted at all, or where
its own term is at most the candidate's as AppendMsg reads it. -/
theorem vote_then_heartbeat_iff (r : Raft) (request : VoteRequest)
    (prevLogIndex? prevLogTerm? : Option UInt64) (entries : List LogEntry) (now now' : Int) :
    ((r.vote request now).2.vote = true →
      ((r.vote request now).1.appendMsg
        (request.heartbeat prevLogIndex? prevLogTerm? entries) now').2.success = true) ↔
    r.status = .leader ∨ r.status = .candidate ∨ r.voteFor ≠ "" ∨
      r.term ≤ widen (narrow request.term) := by
  rw [vote_true_iff, appendMsg_success_iff, Accepts, vote_term]
  have hTerm : (request.heartbeat prevLogIndex? prevLogTerm? entries).term = request.term := rfl
  rw [hTerm, Grants]
  tauto

/-- A node fresh from its constructor votes for the first candidate and rejects the
first heartbeat of that candidate, whose term is 0. -/
theorem fresh_node_rejects_its_leader :
    ¬ ∀ (peersAddrs : List String) (peerId : Fin peersAddrs.length) (n : Node),
      (Node.system peersAddrs peerId).Reachable n →
      ∀ (request : VoteRequest) (prevLogIndex? prevLogTerm? : Option UInt64)
        (entries : List LogEntry) (now now' : Int),
      (n.raft.vote request now).2.vote = true →
      ((n.raft.vote request now).1.appendMsg
        (request.heartbeat prevLogIndex? prevLogTerm? entries) now').2.success = true := by
  intro h
  have hFresh := h ["a", "b"] 0 _ (.start ⟨sampleBoot, rfl⟩)
    { term? := some 0, candidateId? := some "b", lastLogIndex? := some (-1),
      lastTermIndex? := some (-1) } (some 0) (some 0) [] 0 0
  exact absurd (hFresh (by decide)) (by decide)

theorem appendMsg_term {r : Raft} {request : AppendRequest} (h : r.Accepts request) (now : Int) :
    (r.appendMsg request now).1.term = widen (narrow request.term) := by
  by_cases hStatus : r.status = .candidate ∨ r.status = .leader
  · rw [appendMsg_of_stepsDown h hStatus]
    rfl
  · rw [appendMsg_of_follows h (not_or.mp hStatus)]
    rfl

/-- AppendMsg compares and adopts the request's term itself exactly where the term fits in
an `int`, or where both it and what comes out of the `int` are below the node's own. -/
theorem appendMsg_term_iff (r : Raft) (request : AppendRequest) (now : Int) :
    (((r.appendMsg request now).2.success = true ↔ r.term ≤ request.term) ∧
      ((r.appendMsg request now).2.success = true →
        (r.appendMsg request now).1.term = request.term)) ↔
    request.term.toNat < 2 ^ 31 ∨ 2 ^ 64 - 2 ^ 31 ≤ request.term.toNat ∨
      request.term < r.term ∧ (request.term.toNat % 2 ^ 32 < 2 ^ 31 ∨
        2 ^ 64 - 2 ^ 32 + request.term.toNat % 2 ^ 32 < r.term.toNat) := by
  rw [appendMsg_success_iff, UInt64.lt_iff_toNat_lt]
  have hFits := widen_narrow_eq_iff request.term
  have hValue := toNat_widen_narrow request.term
  have hLt := request.term.toNat_lt
  by_cases h : r.Accepts request
  · have hTerm := appendMsg_term h now
    have hLe := h
    rw [Accepts, UInt64.le_iff_toNat_le] at hLe
    constructor
    · rintro ⟨_, hAdopts⟩
      have hEq := hFits.mp (hTerm.symm.trans (hAdopts h))
      omega
    · intro hCond
      have hEq : widen (narrow request.term) = request.term := by
        rw [hFits]
        split at hValue <;> omega
      rw [Accepts, hTerm, hEq]
      exact ⟨Iff.rfl, fun _ => rfl⟩
  · have hNotLe := h
    rw [Accepts, UInt64.le_iff_toNat_le] at hNotLe
    constructor
    · rintro ⟨hIff, _⟩
      have hBelow := hIff.not.mp h
      rw [UInt64.le_iff_toNat_le] at hBelow
      split at hValue <;> omega
    · intro hCond
      have hBelow : ¬ r.term ≤ request.term := by
        rw [UInt64.le_iff_toNat_le]
        split at hValue <;> omega
      exact ⟨iff_of_false h hBelow, fun hAcc => absurd hAcc h⟩

/-- A node at term 1 takes a request of the term 2^32 for one of the term 0. -/
theorem large_term_is_rejected :
    ¬ ∀ (r : Raft) (request : AppendRequest) (now : Int),
      ((r.appendMsg request now).2.success = true ↔ r.term ≤ request.term) ∧
      ((r.appendMsg request now).2.success = true →
        (r.appendMsg request now).1.term = request.term) := by
  intro h
  have hReject := (h { Raft.new sampleBoot ["a", "b"] ⟨0, by decide⟩ with term := 1 }
    { term? := some 4294967296, candidateId? := some "b" } 0).1
  exact absurd (hReject.mpr (by decide)) (by decide)

end Raft

end RaftCpp
