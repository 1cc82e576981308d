import RaftCpp.Tally

/-! # Where heartbeats come from

A heartbeat can be handled long after the leadership that sent it. Its sender
and its term still name an election of the run: a candidacy of that node which
ended at that term in a leadership, with a quorum of the peers counted. While a
leadership lasts, neither the term nor the peers change, since the handlers that
write the term end it and the eviction step belongs to followers.
-/

namespace RaftCpp

open Transition AtMostOnce

namespace Node

variable {n n' : Node} {i : Input} {out : Output}

theorem leader_stays (hTurn : Turn n i n' out) (h : n.raft.status = .leader)
    (h' : n'.raft.status = .leader) :
    n'.raft.term = n.raft.term ∧ n'.raft.peers = n.raft.peers := by
  cases hTurn with
  | evicts _ hStatus | campaigns _ hStatus => cases hStatus.symm.trans h
  | follows _ _ _ hStatus => exact absurd h hStatus.2
  | deposed | yields => cases h'
  | _ => exact ⟨rfl, rfl⟩

end Node

namespace Cluster

variable {cfg : Config} {s t : Cluster} {past : List Cluster}
  {p c : String} {i : Input} {n : Node} {term : UInt64}

/-- Between `s` and `t` a candidacy of `c` at `term` ends in a leadership: the counter holds
its own vote and those of the `voters`, and that is a quorum of its peers. -/
structure Wins (c : String) (term : UInt64) (s t : Cluster) : Prop where
  candidate : (s.nodes c).raft.status = .candidate
  leader : (t.nodes c).raft.status = .leader
  term_before : (s.nodes c).raft.term = term
  term_after : (t.nodes c).raft.term = term
  peers : (t.nodes c).raft.peers = (s.nodes c).raft.peers
  counted : ∃ recent voters, (s.nodes c).demon = .voting [] (1 + voters.card) ∧
    Candidacy t.journal recent c ∧ voters ⊆ (t.nodes c).raft.peers.erase c ∧
    (∀ v ∈ voters, VotedFor t.journal recent c (t.nodes c).raft.voteRequest v) ∧
    (t.nodes c).raft.peers.card / 2 + 1 ≤ 1 + voters.card

theorem wins_of_leads (hs : (system cfg).Reachable s)
    (hMove : Moves cfg s t c i n (.leads term)) : Wins c term s t := by
  obtain ⟨recent, voters, hDemon, hCandidacy, hSubset, hVoted, hQuorum⟩ := counted_of_leads hs hMove
  obtain ⟨_, _, _, hn, hTerm⟩ := hMove.turn.of_leads
  have hStatus := ((settled hs hMove.member).candidate (by rw [hDemon]; rfl)).1
  rw [← hMove.nodes_self] at hn hSubset hVoted hQuorum
  rw [Nat.add_comm] at hDemon hQuorum
  refine ⟨hStatus, ?_, hTerm.symm, ?_, ?_, recent, voters, hDemon, hCandidacy, hSubset, hVoted,
    hQuorum⟩
  · rw [hn]
    rfl
  · rw [hn, hTerm]
    rfl
  · rw [hn]
    rfl

theorem wins_of_did (h : (system cfg).Run System.anyStep (s :: past))
    (hDid : Did s.journal c (.leads term)) :
    ∃ later v u earlier, s :: past = later ++ v :: u :: earlier ∧ Wins c term u v := by
  apply h.entered (fun s => Did s.journal c (.leads term)) _ _ hDid
  · exact fun s hInit => not_did_initial hInit
  · intro s e t hs hStep hDid
    obtain ⟨n, out, hMove⟩ := moves_of_step hStep
    rcases did_moves hMove hDid with hOld | ⟨hNode, rfl⟩
    · exact .inl hOld
    · rw [← hNode] at hMove
      exact .inr (wins_of_leads hs hMove)

/-- Every heartbeat ever sent points back at an election of the run, and a leadership keeps
the term and the peers it began with. -/
theorem heartbeat_provenance (h : (system cfg).Run System.anyStep (s :: past)) :
    (∀ m ∈ s.net.posted, ∀ request, m.body = .append request →
      ∃ later v u earlier, s :: past = later ++ v :: u :: earlier ∧
        Wins request.candidateId request.term u v) ∧
    ∀ c span earlier, s :: past = span ++ earlier →
      (∀ t ∈ span, (t.nodes c).raft.status = .leader) →
      span.Pairwise fun t u => (t.nodes c).raft.term = (u.nodes c).raft.term ∧
        (t.nodes c).raft.peers = (u.nodes c).raft.peers := by
  constructor
  · intro m hm request hBody
    have hCaused := ((wired ⟨past, h⟩).origin m hm).caused
    rw [hBody] at hCaused
    exact wins_of_did h hCaused
  · intro c span earlier hSplit hLeads
    rw [hSplit] at h
    apply h.pairwise_of_step (P := fun t : Cluster => (t.nodes c).raft.status = .leader)
      (fun u t => (t.nodes c).raft.term = (u.nodes c).raft.term ∧
        (t.nodes c).raft.peers = (u.nodes c).raft.peers) _ _ hLeads
    · exact fun u v w huv hvw => ⟨hvw.1.trans huv.1, hvw.2.trans huv.2⟩
    · intro u e t hBefore hAfter hStep
      obtain ⟨n, out, hMove⟩ := moves_of_step hStep
      rcases hMove.same_or_turn c with hSame | ⟨_, hTurn⟩
      · rw [hSame]
        exact ⟨rfl, rfl⟩
      · exact Node.leader_stays hTurn hBefore hAfter

theorem heartbeat_provenance_pair : ∃ s past later u v earlier,
    (system pairConfig).Run System.anyStep (s :: past) ∧
    s :: past = later ++ v :: u :: earlier ∧ Wins "b" 0 u v := by
  obtain ⟨trace, hRun, hState⟩ := System.exists_run (system pairConfig) System.anyStep pairCluster
    heartbeatEvents (P := fun trace => trace.head?.any fun s : Cluster => decide
      (⟨1, "a", .append { term? := some 0, candidateId? := some "b" }⟩ ∈ s.net.posted))
    pairCluster_initial (by decide)
  obtain ⟨s, hHead, hSent⟩ := (Option.any_eq_true _ _).mp hState
  cases trace with
  | nil => cases hHead
  | cons t past =>
    cases hHead
    obtain ⟨later, v, u, earlier, hEq, hWins⟩ :=
      (heartbeat_provenance hRun).1 _ (of_decide_eq_true hSent) _ rfl
    exact ⟨s, past, later, u, v, earlier, hRun, hEq, hWins⟩

end Cluster

end RaftCpp
