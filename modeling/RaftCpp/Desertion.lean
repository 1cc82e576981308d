import RaftCpp.Loyalty
import RaftCpp.Unheard

/-! # Every leader is deserted

As the cluster is wired, nothing that a leader does resets the timer of a node
that has voted for it. The timer stands where the vote left it, whatever else
happens in the cluster, and the first turn that begins after the patience of the
voter has run out evicts the leader, alive or not.
-/

namespace RaftCpp

open Transition AtMostOnce

namespace Node

variable {n n' : Node} {i : Input} {out : Output} {id : String}

/-- Without heartbeats, the timer of a node that has voted stands still, and a turn that
does not evict began before it had run out. -/
theorem Holds.stands_still (h : n.Holds id) (hTurn : Turn n i n' out) (hOut : ¬ out.TimedOut)
    (hCalm : ∀ now call request, i ≠ .serve now call (.append request)) :
    n'.raft.leaderActiveTime = n.raft.leaderActiveTime ∧
      ∀ now draw order, i = .wake now draw order → ¬ n.raft.TimesOut now draw := by
  have hFree := h.free
  cases hTurn with
  | waits _ _ hTime =>
    refine ⟨rfl, ?_⟩
    intro now draw order hInput
    cases hInput
    exact hTime
  | stands => exact absurd (.inl rfl) hOut
  | evicts => exact absurd (.inr ⟨_, rfl⟩) hOut
  | campaigns _ hStatus => exact absurd hStatus h.status_ne.1
  | starts hAwake hFollower => exact absurd (h.follower_of_awake hAwake) hFollower
  | skipsVote hDemon | asksVote hDemon | faultsVote hDemon | leads hDemon | loses hDemon
  | skipsBeat hDemon | asksAppend hDemon | faultsAppend hDemon | endsBeat hDemon
  | counts hDemon | passes hDemon | goesOn hDemon | deposed hDemon =>
    rw [hDemon] at hFree
    cases hFree
  | grants _ _ hGrants => exact absurd hGrants h.not_grants
  | follows | yields | rejects => exact absurd rfl (hCalm _ _ _)
  | launch | test | refuses | kill | killed => exact ⟨rfl, fun _ _ _ => Input.noConfusion⟩

end Node

namespace Cluster

variable {cfg : Config} {s t u : Cluster} {ok : Cluster → Event → Prop} {protobuf : Protobuf Packet}
  {p q : String} {i : Input} {n : Node} {out : Output} {recent : List Record}

theorem holds_of_follower (hs : (system cfg).Reaches ok s) (hq : q ∈ cfg.addrs)
    (hStatus : (s.nodes q).raft.status = .follower) (hVote : (s.nodes q).raft.voteFor ≠ "") :
    (s.nodes q).Holds (s.nodes q).raft.voteFor := by
  refine ⟨hVote, rfl, ?_, .inl hStatus⟩
  cases settled hs hq with
  | rest hFree => exact hFree
  | vote _ hCandidate => cases hStatus.symm.trans hCandidate
  | beat _ hLeader => cases hStatus.symm.trans hLeader
  | fault hDemon => exact absurd hDemon (linked hs hq).noFault

/-- A vote on record, with the timer where it was, and no turn in `recent` that began after
the timer had run out. -/
structure Standing (q : String) (s t : Cluster) (recent : List Record) : Prop where
  holds : (t.nodes q).Holds (s.nodes q).raft.voteFor
  time : (t.nodes q).raft.leaderActiveTime = (s.nodes q).raft.leaderActiveTime
  waits : ∀ r ∈ recent, r.node = q → ∀ now draw order, r.input = .wake now draw order →
    ¬ (s.nodes q).raft.TimesOut now draw

theorem standing_moves (hMove : Moves cfg t u p i n out) (hok : Calm t ⟨p, i⟩)
    (h : Standing q s t recent) :
    p = q ∧ out = .evicts (s.nodes q).raft.voteFor ∨ Standing q s u (⟨p, i, out⟩ :: recent) := by
  by_cases hpq : p = q
  · subst hpq
    by_cases hOut : out.TimedOut
    · exact .inl ⟨rfl, h.holds.evicts hMove.turn hOut⟩
    · obtain ⟨hTime, hWaits⟩ := h.holds.stands_still hMove.turn hOut hok
      have hSelf := hMove.nodes_self
      refine .inr ⟨?_, ?_, List.forall_mem_cons.mpr ⟨?_, h.waits⟩⟩
      · rw [hSelf]
        exact (h.holds.turn hOut hMove.turn).1
      · rw [hSelf, hTime, h.time]
      · intro _ now draw order hInput hOver
        rw [Raft.TimesOut, ← h.time] at hOver
        exact hWaits now draw order hInput hOver
  · have hSame := hMove.nodes_of_ne (Ne.symm hpq)
    refine .inr ⟨hSame ▸ h.holds, hSame ▸ h.time, List.forall_mem_cons.mpr ⟨?_, h.waits⟩⟩
    exact fun hEq => absurd hEq hpq

/-- As the cluster is wired, a vote that was given ends in the eviction of the node that it
was given to. Until then the voter keeps its timer as it was, and every turn that it begins
finds that timer within its patience; the first one that does not evicts, whatever the
leader has sent in between. Only Kill keeps the voter from it. -/
theorem votes_end_in_eviction (hs : (system cfg).Reaches (Decoded protobuf) s)
    (hq : q ∈ cfg.addrs) (hStatus : (s.nodes q).raft.status = .follower)
    (hVote : (s.nodes q).raft.voteFor ≠ "")
    (hAdvances : (system cfg).Advances (Decoded protobuf) s t) :
    ∃ recent, t.journal = recent ++ s.journal ∧
      (Did recent q (.evicts (s.nodes q).raft.voteFor) ∨
        (t.nodes q).raft.voteFor = (s.nodes q).raft.voteFor ∧
        ((t.nodes q).raft.status = .follower ∨ (t.nodes q).raft.status = .dead) ∧
        (t.nodes q).raft.leaderActiveTime = (s.nodes q).raft.leaderActiveTime ∧
        ∀ r ∈ recent, r.node = q → ∀ now draw order, r.input = .wake now draw order →
          |(s.nodes q).raft.leaderActiveTime - now| < draw * 25) := by
  have hStanding : ∃ recent, t.journal = recent ++ s.journal ∧
      (Did recent q (.evicts (s.nodes q).raft.voteFor) ∨ Standing q s t recent) := by
    induction hAdvances with
    | refl =>
      refine ⟨[], rfl, .inr ⟨holds_of_follower hs hq hStatus hVote, rfl, ?_⟩⟩
      exact fun r hr => by cases hr
    | @next t u e hst hok hStep ih =>
      obtain ⟨recent, hJournal, hKept⟩ := ih
      obtain ⟨n, out, hMove⟩ := moves_of_step hStep
      refine ⟨⟨e.node, e.input, out⟩ :: recent, ?_, ?_⟩
      · rw [hMove.journal_eq, hJournal, List.cons_append]
      · have hCalm := calm_of_decoded (hs.advances hst) hok hMove
        cases hKept with
        | inl hGone => exact .inl (hGone.cons _)
        | inr hStanding =>
          rcases standing_moves hMove hCalm hStanding with ⟨rfl, rfl⟩ | hNext
          · exact .inl (did_cons_self _ _ _ _)
          · exact .inr hNext
  obtain ⟨recent, hJournal, hGone | hStanding⟩ := hStanding
  · exact ⟨recent, hJournal, .inl hGone⟩
  · refine ⟨recent, hJournal, .inr ⟨hStanding.holds.voteFor, ?_, hStanding.time, ?_⟩⟩
    · cases hStanding.holds.status with
      | inl hFollower => exact .inl hFollower
      | inr hDead => exact .inr hDead.1
    · intro r hr hNode now draw order hInput
      exact not_not.mp (hStanding.waits r hr hNode now draw order hInput)

/-- The second of two nodes leads, and the first begins a turn 6 s after its vote. -/
theorem votes_end_in_eviction_pair : ∃ s t,
    (system pairConfig).Reaches (Decoded Node.checkedCopy) s ∧
    (system pairConfig).step s ⟨"a", .wake 12000 200 ["a", "b"]⟩ = some t ∧
    (s.nodes "b").raft.status = .leader ∧ Did t.journal "a" (.evicts "b") := by
  obtain ⟨s, t, hs, hStep, hState⟩ := System.exists_step (system pairConfig) Calm
    pairCluster (electionEvents ++ [⟨"b", .advance 6000 1⟩, ⟨"a", .test⟩])
    ⟨"a", .wake 12000 200 ["a", "b"]⟩ (P := fun s _ => decide
      ((s.nodes "a").raft.status = .follower ∧ (s.nodes "a").raft.voteFor = "b" ∧
        (s.nodes "a").raft.leaderActiveTime = 6000 ∧ (s.nodes "b").raft.status = .leader))
    pairCluster_initial (by decide)
  obtain ⟨hStatus, hVote, hTime, hLeader⟩ := of_decide_eq_true hState
  have hDecoded := hs.of_imp
    (fun _ _ _ hs hok hStep => decoded_of_calm Node.checkedCopy hs hok hStep)
  have hok : Decoded Node.checkedCopy s ⟨"a", .wake 12000 200 ["a", "b"]⟩ :=
    fun _ _ _ => Input.noConfusion
  obtain ⟨recent, hJournal, hEnd⟩ := votes_end_in_eviction hDecoded (by decide : "a" ∈ _) hStatus
    (by rw [hVote]; decide) (.next (.refl s) hok hStep)
  rw [hVote, hTime] at hEnd
  refine ⟨s, t, hDecoded, hStep, hLeader, ?_⟩
  obtain ⟨n, out, hMove⟩ := moves_of_step hStep
  rw [hMove.journal_eq] at hJournal ⊢
  rw [← List.singleton_append] at hJournal
  have hRecent := List.append_cancel_right hJournal
  rcases hEnd with ⟨i, hi⟩ | ⟨-, -, -, hWaits⟩
  · rw [← hRecent] at hi
    exact ⟨i, List.mem_cons.mpr (.inl (List.mem_singleton.mp hi))⟩
  · have hLate := hWaits _ (hRecent ▸ List.mem_singleton_self _) rfl 12000 200 _ rfl
    exact absurd hLate (by decide)

end Cluster

end RaftCpp
