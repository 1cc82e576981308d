import RaftCpp.Allegiance

/-! # A leader that is heard stays

Once every node follows one leader and no message of an earlier time is left
that could depose it, the cluster stays as it is for as long as the followers do
not time out. That is what the heartbeats are for, and it is the part of the
protocol that works when they are delivered. The leader's term has to come out
of the `int` in AppendMsg unchanged, and no follower may have a greater one; a
node that never was a candidate has the greatest of all.
-/

namespace RaftCpp

open Transition AtMostOnce

/-- A node that follows `leader` at a term up to `term`, or is dead. -/
structure Node.Follows (leader : String) (term : UInt64) (n : Node) : Prop where
  free : n.demon.lockFree = true
  status : n.raft.status = .follower ∨ n.raft.status = .dead
  voteFor : n.raft.voteFor = leader
  term_le : n.raft.term ≤ term

/-- A step after which the handlers and the daemon are as settled as before: no election,
no eviction, no vote and no end of a leadership. -/
def Output.Settled : Output → Prop
  | .silent | .calls _ _ _ => True
  | .replies _ (.vote reply) => reply.vote = false
  | .replies _ (.append _) => True
  | _ => False

namespace Node

variable {n n' : Node} {i : Input} {out : Output} {leader : String} {term : UInt64}

theorem Turn.input_of_appendReply {call : Nat} {reply : AppendReply}
    (h : Turn n i n' (.replies call (.append reply))) :
    ∃ now request, i = .serve now call (.append request) := by
  cases h with
  | follows | yields | rejects => exact ⟨_, _, rfl⟩

/-- What the leader itself can do: go on with its rounds and refuse votes. -/
theorem leader_quiet (hSettled : n.Settled) (hLinked : n.Linked) (hTurn : Turn n i n' out)
    (h : n.raft.status = .leader)
    (hHeard : ∀ now call request, i ≠ .serve now call (.append request))
    (hDeposed : out ≠ .deposed) (hKilled : i ≠ .killed) :
    n'.raft.status = .leader ∧ n'.raft.term = n.raft.term ∧ out.Settled ∧
      ((∃ call endpoint, n'.demon.call? = some call ∧ endpoint ≠ n.raft.selfId ∧
          out = .calls call endpoint (.append n.raft.appendRequest)) ∨
        (n'.demon.call? = none ∨ n'.demon = n.demon) ∧
          ∀ call endpoint request, out ≠ .calls call endpoint request) := by
  cases hTurn with
  | waits _ hStatus | stands _ hStatus | evicts _ hStatus | campaigns _ hStatus =>
    cases hStatus.symm.trans h
  | skipsVote hDemon | asksVote hDemon | faultsVote hDemon | leads hDemon | loses hDemon
  | counts hDemon | passes hDemon =>
    have hCandidate := (hSettled.candidate (by rw [hDemon]; rfl)).1
    cases hCandidate.symm.trans h
  | asksAppend hDemon hPeer hStub =>
    have hLive := hLinked.stub (by simp [hDemon]) (by rw [hDemon]; exact List.mem_cons_self) hPeer
    rw [hStub] at hLive
    cases hLive
    exact ⟨h, rfl, trivial, .inl ⟨_, _, rfl, hPeer, rfl⟩⟩
  | faultsAppend hDemon hPeer hStub =>
    have hLive := hLinked.stub (by simp [hDemon]) (by rw [hDemon]; exact List.mem_cons_self) hPeer
    exact absurd hLive (hStub _)
  | deposed => exact absurd rfl hDeposed
  | grants _ _ hGrants => exact absurd h hGrants.1
  | follows | yields | rejects => exact absurd rfl (hHeard _ _ _)
  | killed => exact absurd rfl hKilled
  | launch | test | starts | skipsBeat | endsBeat | goesOn =>
    exact ⟨h, rfl, trivial, .inr ⟨.inl rfl, fun _ _ _ => Output.noConfusion⟩⟩
  | refuses => exact ⟨h, rfl, rfl, .inr ⟨.inr rfl, fun _ _ _ => Output.noConfusion⟩⟩
  | kill => exact ⟨h, rfl, trivial, .inr ⟨.inr rfl, fun _ _ _ => Output.noConfusion⟩⟩

/-- What a follower can do: wait, refuse votes and take heartbeats. -/
theorem follows_quiet (hSettled : n.Settled) (hFollows : n.Follows leader term)
    (hTurn : Turn n i n' out) (hLeader : leader ≠ "")
    (hTime : ∀ now draw order, i = .wake now draw order → n.raft.status = .follower →
      ¬ n.raft.TimesOut now draw)
    (hHeard : ∀ now call request, i = .serve now call (.append request) →
      widen (narrow request.term) ≤ term) :
    n'.Follows leader term ∧ out.Settled ∧
      (∀ call endpoint request, out ≠ .calls call endpoint request) ∧
      ∀ call reply, out = .replies call (.append reply) → reply.success = true ∨
        ∃ now request, i = .serve now call (.append request) ∧ ¬ n.raft.Accepts request := by
  have hBusy {d : Demon} (hDemon : n.demon = d) (hd : d.lockFree = false) : False := by
    rw [← hDemon, hFollows.free] at hd
    cases hd
  have hStatus : n.raft.status ≠ .candidate ∧ n.raft.status ≠ .leader := by
    rcases hFollows.status with hStatus | hStatus <;> rw [hStatus] <;>
      exact ⟨RaftStatus.noConfusion, RaftStatus.noConfusion⟩
  cases hTurn with
  | stands _ hFollower hOut | evicts _ hFollower hOut =>
    exact absurd hOut (hTime _ _ _ rfl hFollower)
  | campaigns _ hCandidate => exact absurd hCandidate hStatus.1
  | starts hAwake hFollower hCandidate =>
    exact absurd (hSettled.leader_of_awake hAwake hFollower hCandidate) hStatus.2
  | skipsVote hDemon | asksVote hDemon | faultsVote hDemon | leads hDemon | loses hDemon
  | skipsBeat hDemon | asksAppend hDemon | faultsAppend hDemon | endsBeat hDemon | counts hDemon
  | passes hDemon | goesOn hDemon | deposed hDemon => exact (hBusy hDemon rfl).elim
  | grants _ _ hGrants => exact absurd (hFollows.voteFor.symm.trans hGrants.2.2) hLeader
  | yields _ _ _ hOld =>
    cases hOld with
    | inl hCandidate => exact absurd hCandidate hStatus.1
    | inr hLeads => exact absurd hLeads hStatus.2
  | launch | test | waits =>
    exact ⟨⟨rfl, hFollows.status, hFollows.voteFor, hFollows.term_le⟩, trivial,
      fun _ _ _ => Output.noConfusion, fun _ _ => Output.noConfusion⟩
  | kill =>
    exact ⟨⟨hFollows.free, hFollows.status, hFollows.voteFor, hFollows.term_le⟩, trivial,
      fun _ _ _ => Output.noConfusion, fun _ _ => Output.noConfusion⟩
  | killed =>
    exact ⟨⟨hFollows.free, .inr rfl, hFollows.voteFor, hFollows.term_le⟩, trivial,
      fun _ _ _ => Output.noConfusion, fun _ _ => Output.noConfusion⟩
  | refuses =>
    refine ⟨hFollows, rfl, fun _ _ _ => Output.noConfusion, fun call reply hOut => ?_⟩
    cases hOut
  | @follows now call request =>
    refine ⟨⟨hFollows.free, hFollows.status, hFollows.voteFor, hHeard now call request rfl⟩,
      trivial, fun _ _ _ => Output.noConfusion, fun call reply hOut => ?_⟩
    cases hOut
    exact .inl rfl
  | rejects _ _ hNot =>
    refine ⟨⟨hFollows.free, hFollows.status, hFollows.voteFor, hFollows.term_le⟩, trivial,
      fun _ _ _ => Output.noConfusion, fun call reply hOut => ?_⟩
    cases hOut
    exact .inr ⟨_, _, rfl, hNot⟩

end Node

namespace Cluster

variable {cfg : Config} {s t : Cluster} {p leader : String} {term : UInt64}
  {i : Input} {n : Node} {out : Output}

/-- All nodes follow `leader`. Of the heartbeats on their way none goes to it and none is
beyond its term, and the call that it waits in has not been answered by a rejection. -/
structure Quiet (cfg : Config) (leader : String) (term : UInt64) (s : Cluster) : Prop where
  leads : (s.nodes leader).raft.status = .leader
  term_eq : (s.nodes leader).raft.term = term
  follows : ∀ q ∈ cfg.addrs, q ≠ leader → (s.nodes q).Follows leader term
  requests : ∀ m ∈ s.net.requests, ∀ request, m.body = .append request →
    m.dest ≠ leader ∧ widen (narrow request.term) ≤ term
  replies : ∀ call ∈ (s.nodes leader).demon.call?, ∀ reply, (call, .append reply) ∈ s.net.replies →
    reply.success = true

/-- No follower times out, and the leader is not killed. -/
def Undisturbed (leader : String) (s : Cluster) (e : Event) : Prop :=
  (∀ now draw order, e.input = .wake now draw order → (s.nodes e.node).raft.status = .follower →
    ¬ (s.nodes e.node).raft.TimesOut now draw) ∧ (e.node = leader → e.input ≠ .killed)

theorem requests_emit (hMove : Moves cfg s t p i n out)
    (h : ∀ m ∈ s.net.requests, ∀ request, m.body = .append request →
      m.dest ≠ leader ∧ widen (narrow request.term) ≤ term)
    (hCalls : ∀ call endpoint request, out = .calls call endpoint (.append request) →
      endpoint ≠ leader ∧ widen (narrow request.term) ≤ term) :
    ∀ m ∈ t.net.requests, ∀ request, m.body = .append request →
      m.dest ≠ leader ∧ widen (narrow request.term) ≤ term := by
  intro m hm request hBody
  rw [hMove.net_eq] at hm
  cases out with
  | calls call endpoint body =>
    rcases List.mem_cons.mp hm with rfl | hOld
    · exact hCalls call endpoint request (by rw [← hBody])
    · exact h m hOld request hBody
  | replies => exact h m (List.mem_filter.mp hm).1 request hBody
  | _ => exact h m hm request hBody

theorem append_of_emit {net : Network} {call : Nat} {reply : AppendReply}
    (h : (call, .append reply) ∈ (emit net out).replies) :
    (call, .append reply) ∈ net.replies ∨ out = .replies call (.append reply) := by
  cases out with
  | replies call' reply' =>
    rcases List.mem_cons.mp h with hEq | hOld
    · cases hEq
      exact .inr rfl
    · exact .inl hOld
  | _ => exact .inl h

theorem not_replied_next (hs : (system cfg).Reachable s) {reply : Reply} :
    (s.net.next, reply) ∉ s.net.replies := by
  intro hReply
  obtain ⟨m, hm, hCall, -⟩ := (wired hs).sound.replied _ hReply
  have hFresh := (wired hs).sound.fresh m hm
  rw [hCall] at hFresh
  exact absurd hFresh (Nat.lt_irrefl _)

theorem pending_heartbeat (hs : (system cfg).Reachable s) (hMem : leader ∈ cfg.addrs) {call : Nat}
    (hCall : (s.nodes leader).demon.call? = some call) {q : String} {request : AppendRequest}
    (hServed : ⟨call, q, .append request⟩ ∈ s.net.requests) :
    request = (s.nodes leader).raft.appendRequest := by
  obtain ⟨m, hPending, hm⟩ := Node.call_of_pending hCall
  have hEq := (wired hs).sound.unique m ((wired hs).awaits leader hMem m hPending) _
    ((wired hs).sound.sent _ hServed) hm
  rw [hEq] at hPending
  unfold Node.pending at hPending
  split at hPending
  · cases hPending
  · cases hPending
    rfl
  · cases hPending

theorem quiet_leader (hs : (system cfg).Reachable s) (h : Quiet cfg leader term s)
    (hFits : widen (narrow term) = term) (hMove : Moves cfg s t leader i n out)
    (hok : Undisturbed leader s ⟨leader, i⟩) : Quiet cfg leader term t ∧ out.Settled := by
  have hMem := hMove.member
  have hHeard : ∀ now call request, i ≠ .serve now call (.append request) := by
    rintro now call request rfl
    exact (h.requests _ hMove.admits request rfl).1 rfl
  have hDeposed : out ≠ .deposed := by
    rintro rfl
    have hTurn := hMove.turn
    cases hTurn with
    | deposed _ hReject =>
      obtain ⟨call, hCall, hReply⟩ := hMove.admits
      rw [h.replies call hCall _ hReply] at hReject
      cases hReject
  obtain ⟨hStatus, hTerm, hSettled, hCalls⟩ := Node.leader_quiet (settled hs hMem) (linked hs hMem)
    hMove.turn h.leads hHeard hDeposed (hok.2 rfl)
  refine ⟨⟨?_, ?_, ?_, ?_, ?_⟩, hSettled⟩
  · rw [hMove.nodes_self]
    exact hStatus
  · rw [hMove.nodes_self, hTerm]
    exact h.term_eq
  · intro q hq hNe
    rw [hMove.nodes_of_ne hNe]
    exact h.follows q hq hNe
  · apply requests_emit hMove h.requests
    intro call endpoint request hOut
    rcases hCalls with ⟨call', endpoint', -, hNe, hEq⟩ | ⟨-, hNone⟩
    · rw [hOut] at hEq
      cases hEq
      refine ⟨selfId_eq hs hMem ▸ hNe, ?_⟩
      have hRequest : (s.nodes leader).raft.appendRequest.term = term := h.term_eq
      rw [hRequest, hFits]
      exact UInt64.le_refl _
    · exact absurd hOut (hNone _ _ _)
  · rw [hMove.nodes_self, hMove.net_eq]
    intro call hCall reply hReply
    rcases append_of_emit hReply with hOld | rfl
    · rcases hCalls with ⟨call', endpoint, hCall', -, rfl⟩ | ⟨hNone | hSame, -⟩
      · obtain ⟨now, rfl⟩ := hMove.turn.input_of_calls
        have hNext : call' = s.net.next := hMove.admits
        rw [hCall', hNext] at hCall
        cases hCall
        exact absurd hOld (not_replied_next hs)
      · rw [hNone] at hCall
        cases hCall
      · exact h.replies call (hSame ▸ hCall) reply hOld
    · obtain ⟨now, request, rfl⟩ := hMove.turn.input_of_appendReply
      exact absurd rfl (hHeard _ _ _)

theorem quiet_follower (hs : (system cfg).Reachable s) (h : Quiet cfg leader term s)
    (hLeader : leader ∈ cfg.addrs) (hFits : widen (narrow term) = term)
    (hMove : Moves cfg s t p i n out) (hp : p ≠ leader) (hok : Undisturbed leader s ⟨p, i⟩) :
    Quiet cfg leader term t ∧ out.Settled := by
  have hMem := hMove.member
  have hNe := cfg.addr_ne leader hLeader
  obtain ⟨hFollows, hSettled, hCalls, hReplies⟩ := Node.follows_quiet (settled hs hMem)
    (h.follows p hMem hp) hMove.turn hNe hok.1 (by
      rintro now call request rfl
      exact (h.requests _ hMove.admits request rfl).2)
  have hSame := hMove.nodes_of_ne hp.symm
  refine ⟨⟨?_, ?_, ?_, ?_, ?_⟩, hSettled⟩
  · rw [hSame]
    exact h.leads
  · rw [hSame]
    exact h.term_eq
  · intro q hq hNe
    by_cases hqp : q = p
    · rw [hqp, hMove.nodes_self]
      exact hFollows
    · rw [hMove.nodes_of_ne hqp]
      exact h.follows q hq hNe
  · exact requests_emit hMove h.requests (fun _ _ _ hOut => absurd hOut (hCalls _ _ _))
  · rw [hSame, hMove.net_eq]
    intro call hCall reply hReply
    rcases append_of_emit hReply with hOld | hOut
    · exact h.replies call hCall reply hOld
    · rcases hReplies call reply hOut with hSuccess | ⟨now, request, rfl, hNot⟩
      · exact hSuccess
      · -- the answered call is the leader's own, and its term is not below the follower's
        have hRequest := pending_heartbeat hs hLeader hCall hMove.admits
        have hTerm : request.term = term := by
          rw [hRequest]
          exact h.term_eq
        rw [Raft.Accepts, hTerm, hFits] at hNot
        exact absurd (h.follows p hMem hp).term_le hNot

theorem quiet_moves (hs : (system cfg).Reachable s) (h : Quiet cfg leader term s)
    (hLeader : leader ∈ cfg.addrs) (hFits : widen (narrow term) = term)
    (hMove : Moves cfg s t p i n out) (hok : Undisturbed leader s ⟨p, i⟩) :
    Quiet cfg leader term t ∧ out.Settled := by
  by_cases hp : p = leader
  · subst hp
    exact quiet_leader hs h hFits hMove hok
  · exact quiet_follower hs h hLeader hFits hMove hp hok

/-- From a quiet state on, however the steps of the nodes interleave and whatever old
requests for votes still arrive: as long as no follower times out and the leader is not
killed, it leads at its term, all the others follow it, and no step is an election, an
eviction, a vote or the end of a leadership. -/
theorem leader_stays_while_heard (hs : (system cfg).Reachable s) (hLeader : leader ∈ cfg.addrs)
    (hFits : widen (narrow term) = term) (h : Quiet cfg leader term s)
    (hAdvances : (system cfg).Advances (Undisturbed leader) s t) :
    (t.nodes leader).raft.status = .leader ∧ (t.nodes leader).raft.term = term ∧
      (∀ q ∈ cfg.addrs, q ≠ leader →
        ((t.nodes q).raft.status = .follower ∨ (t.nodes q).raft.status = .dead) ∧
          (t.nodes q).raft.voteFor = leader) ∧
      ∃ recent, t.journal = recent ++ s.journal ∧ ∀ r ∈ recent, r.output.Settled := by
  have hQuiet : Quiet cfg leader term t ∧
      ∃ recent, t.journal = recent ++ s.journal ∧ ∀ r ∈ recent, r.output.Settled := by
    induction hAdvances with
    | refl => exact ⟨h, [], rfl, fun r hr => by cases hr⟩
    | @next u t e hsu hok hStep ih =>
      obtain ⟨hu, recent, hJournal, hSettled⟩ := ih
      obtain ⟨n, out, hMove⟩ := moves_of_step hStep
      obtain ⟨ht, hOut⟩ := quiet_moves (hs.leads hsu.leads) hu hLeader hFits hMove hok
      refine ⟨ht, ⟨e.node, e.input, out⟩ :: recent, ?_, List.forall_mem_cons.mpr ⟨hOut, hSettled⟩⟩
      rw [hMove.journal_eq, hJournal, List.cons_append]
  obtain ⟨ht, hJournal⟩ := hQuiet
  exact ⟨ht.leads, ht.term_eq, fun q hq hNe =>
    ⟨(ht.follows q hq hNe).status, (ht.follows q hq hNe).voteFor⟩, hJournal⟩

/-- The first node loses a candidacy, which takes its term down to 0, and then votes for the
second. -/
def quietEvents : List Event :=
  [⟨"a", .launch⟩, ⟨"b", .launch⟩, ⟨"a", .test⟩, ⟨"a", .wake 6000 200 ["a", "b"]⟩, ⟨"a", .test⟩,
    ⟨"a", .wake 6000 200 ["a", "b"]⟩, ⟨"a", .advance 6000 0⟩, ⟨"a", .advance 6000 0⟩,
    ⟨"a", .returned 7000 none⟩, ⟨"a", .advance 7000 1⟩, ⟨"b", .test⟩,
    ⟨"b", .wake 7000 200 ["a", "b"]⟩, ⟨"b", .test⟩, ⟨"b", .wake 7000 200 ["a", "b"]⟩,
    ⟨"b", .advance 7000 1⟩, ⟨"a", .serve 7000 1 (.vote ⟨some 0, some "b", some (-1), some (-1)⟩)⟩,
    ⟨"b", .returned 7000 (some (.vote ⟨some 0, some true⟩))⟩, ⟨"b", .advance 7000 2⟩,
    ⟨"b", .advance 7000 2⟩, ⟨"b", .test⟩]

theorem leader_stays_while_heard_pair : ∃ s t, (system pairConfig).Reachable s ∧
    (system pairConfig).step s ⟨"b", .wake 7000 200 ["a", "b"]⟩ = some t ∧
    (t.nodes "b").raft.status = .leader ∧ (t.nodes "b").raft.term = 0 ∧
    (t.nodes "a").raft.voteFor = "b" := by
  obtain ⟨s, t, hs, hStep, hState⟩ := System.exists_step (system pairConfig) System.anyStep
    pairCluster quietEvents ⟨"b", .wake 7000 200 ["a", "b"]⟩ (P := fun s _ => decide
      ((s.nodes "b").raft.status = .leader ∧ (s.nodes "b").raft.term = 0 ∧
        (s.nodes "b").demon = .atLock ∧ (s.nodes "a").demon = .unlocked ∧
        (s.nodes "a").raft.status = .follower ∧ (s.nodes "a").raft.voteFor = "b" ∧
        (s.nodes "a").raft.term = 0 ∧
        ∀ m ∈ s.net.requests, m.body = .vote ⟨some 0, some "a", some (-1), some (-1)⟩))
    pairCluster_initial (by decide)
  obtain ⟨hLeads, hTerm, hDemon, hFree, hStatus, hVote, hLe, hRequests⟩ := of_decide_eq_true hState
  have hQuiet : Quiet pairConfig "b" 0 s := by
    refine ⟨hLeads, hTerm, ?_, ?_, ?_⟩
    · intro q hq hNe
      have hqa : q = "a" := by
        cases List.mem_cons.mp hq with
        | inl hqa => exact hqa
        | inr hqb => exact absurd (List.mem_singleton.mp hqb) hNe
      subst hqa
      exact ⟨by rw [hFree]; rfl, .inl hStatus, hVote, by rw [hLe]; exact UInt64.le_refl _⟩
    · intro m hm request hBody
      rw [hRequests m hm] at hBody
      cases hBody
    · intro call hCall
      rw [hDemon] at hCall
      cases hCall
  have hok : Undisturbed "b" s ⟨"b", .wake 7000 200 ["a", "b"]⟩ := by
    refine ⟨fun _ _ _ _ hFollower => ?_, fun _ => Input.noConfusion⟩
    cases hLeads.symm.trans hFollower
  obtain ⟨hStays, hTerm', hOthers, -⟩ := leader_stays_while_heard hs (by decide) (by decide) hQuiet
    (.next (.refl s) hok hStep)
  exact ⟨s, t, hs, hStep, hStays, hTerm', (hOthers "a" (by decide) (by decide)).2⟩

end Cluster

end RaftCpp
