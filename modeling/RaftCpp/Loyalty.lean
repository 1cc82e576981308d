import RaftCpp.Library.Machine
import RaftCpp.Channels
import RaftCpp.Status

/-! # What a recorded vote keeps a follower to

A follower with a non-empty `vote_for_` refuses every vote request, the holder's
own included, and keeps the record until its daemon next finds the timer run
out; no handler changes the record of a follower, so that however many requests
come between two turns of the daemon, at most one of them is granted. Whether an
accepted heartbeat puts its sender on record is a different matter: AppendMsg
writes `vote_for_` only where the node was a candidate or a leader.
-/

namespace RaftCpp

open Transition Machine

/-- The daemon took the timed-out branch of a follower. -/
def Output.TimedOut (out : Output) : Prop := out = .stands ∨ ∃ id, out = .evicts id

/-- An AppendMsg of a sender other than `leader` was accepted. -/
def OtherLeader (leader : String) (e : Entry Input Output) : Prop :=
  ∃ now call request reply, e.input = .serve now call (.append request) ∧
    e.output = .replies call (.append reply) ∧ reply.success = true ∧
    request.candidateId ≠ leader

def RefusesVote (e : Entry Input Output) : Prop :=
  ∀ call reply, e.output = .replies call (.vote reply) → reply.vote = false

/-- A request as a handler gets it: its call, and the clock reading that it may take. -/
structure Delivery where
  now : Int
  call : Nat
  request : Request

def Output.grants : Output → Bool
  | .replies _ (.vote reply) => reply.vote
  | _ => false

/-- A name is on record, and no handler will change it. -/
structure Raft.Committed (r : Raft) : Prop where
  status : r.status ≠ .candidate ∧ r.status ≠ .leader
  voteFor : r.voteFor ≠ ""

theorem Raft.Committed.not_grants {r : Raft} (h : r.Committed) : ¬ r.Grants :=
  fun hGrants => h.voteFor hGrants.2.2

theorem refusesVote_silent (i : Input) : RefusesVote ⟨i, .silent⟩ :=
  fun _ _ hEq => by cases hEq

namespace Node

variable {n n' m : Node} {i : Input} {out : Output} {id : String}
  {peersAddrs : List String} {peerId : Fin peersAddrs.length}

/-- A follower on whose record `id` stands, or what is left of one that was killed. -/
structure Holds (id : String) (n : Node) : Prop where
  named : id ≠ ""
  voteFor : n.raft.voteFor = id
  free : n.demon.lockFree = true
  status : n.raft.status = .follower ∨
    n.raft.status = .dead ∧ n.raft.isDead = true ∧ n.demon = .unlocked

theorem Holds.not_grants (h : n.Holds id) : ¬ n.raft.Grants := by
  intro hGrants
  exact h.named (h.voteFor.symm.trans hGrants.2.2)

theorem Holds.status_ne (h : n.Holds id) :
    n.raft.status ≠ .candidate ∧ n.raft.status ≠ .leader := by
  rcases h.status with hStatus | ⟨hStatus, _⟩ <;> simp [hStatus]

theorem Holds.follower_of_awake {draw : Int} {order : List String} (h : n.Holds id)
    (hAwake : n.Awake draw order) : n.raft.status = .follower := by
  rcases h.status with hStatus | ⟨_, _, hDemon⟩
  · exact hStatus
  · cases hAwake.demon.symm.trans hDemon

theorem Holds.evicts (h : n.Holds id) (hTurn : Turn n i n' out) (hOut : out.TimedOut) :
    out = .evicts id := by
  rcases hOut with rfl | ⟨other, rfl⟩
  · cases hTurn with
    | stands _ _ _ hVote => exact absurd (h.voteFor.symm.trans hVote) h.named
  · cases hTurn with
    | evicts => rw [h.voteFor]

theorem Holds.turn (h : n.Holds id) (hOut : ¬ out.TimedOut) (hTurn : Turn n i n' out) :
    n'.Holds id ∧ RefusesVote ⟨i, out⟩ := by
  have hFree := h.free
  cases hTurn with
  | launch =>
    refine ⟨⟨h.named, h.voteFor, rfl, ?_⟩, refusesVote_silent _⟩
    exact h.status.imp_right (fun hDead => ⟨hDead.1, hDead.2.1, rfl⟩)
  | test _ hAlive =>
    refine ⟨⟨h.named, h.voteFor, rfl, .inl ?_⟩, refusesVote_silent _⟩
    rcases h.status with hStatus | ⟨_, hDead, _⟩
    · exact hStatus
    · cases hAlive.symm.trans hDead
  | waits _ hStatus => exact ⟨⟨h.named, h.voteFor, rfl, .inl hStatus⟩, refusesVote_silent _⟩
  | stands => exact absurd (.inl rfl) hOut
  | evicts => exact absurd (.inr ⟨_, rfl⟩) hOut
  | campaigns _ hStatus => exact absurd hStatus h.status_ne.1
  | starts hAwake hFollower => exact absurd (h.follower_of_awake hAwake) hFollower
  | skipsVote hDemon | asksVote hDemon | faultsVote hDemon | leads hDemon | loses hDemon
  | skipsBeat hDemon | asksAppend hDemon | faultsAppend hDemon | endsBeat hDemon
  | counts hDemon | passes hDemon | goesOn hDemon | deposed hDemon =>
    rw [hDemon] at hFree
    cases hFree
  | grants _ _ hGrants => exact absurd hGrants h.not_grants
  | refuses =>
    refine ⟨h, fun _ _ hEq => ?_⟩
    cases hEq
    rfl
  | follows | rejects =>
    exact ⟨⟨h.named, h.voteFor, h.free, h.status⟩, fun _ _ hEq => by cases hEq⟩
  | yields _ _ _ hStatus =>
    rcases hStatus with hStatus | hStatus
    · exact absurd hStatus h.status_ne.1
    · exact absurd hStatus h.status_ne.2
  | kill =>
    refine ⟨⟨h.named, h.voteFor, h.free, ?_⟩, refusesVote_silent _⟩
    exact h.status.imp_right (fun hDead => ⟨hDead.1, rfl, hDead.2.2⟩)
  | killed hDemon hDead =>
    exact ⟨⟨h.named, h.voteFor, h.free, .inr ⟨rfl, hDead, hDemon⟩⟩, refusesVote_silent _⟩

theorem Holds.plays {h : List (Entry Input Output)} (hPlays : Plays step n h m)
    (hHolds : n.Holds id) (hOk : ∀ e ∈ h, ¬ e.output.TimedOut) :
    m.Holds id ∧ ∀ e ∈ h, RefusesVote e := by
  apply Plays.invariant (I := fun n : Node => n.Holds id) _ hPlays hHolds hOk
  intro n i n' out hHolds hOut hStep
  exact hHolds.turn hOut (turn_of_step hStep)

theorem Settled.follower (h : n.Settled) (hFree : n.demon.lockFree = true)
    (hAlive : n.raft.status ≠ .dead)
    (hStatus : n.raft.status ≠ .candidate ∧ n.raft.status ≠ .leader) :
    n.raft.status = .follower := by
  have hKnown := (h.atRest hFree).known
  cases hEq : n.raft.status <;> simp_all

/-- Until another sender is accepted or the timer runs out, `leader` stays on record and
no vote is granted; if the timer runs out, it is `leader` that is evicted. -/
def Loyal (leader : String) (n : Node) : Prop :=
  ∀ (h : List (Entry Input Output)) (m : Node), Plays step n h m →
    (∀ e ∈ h, ¬ OtherLeader leader e ∧ ¬ e.output.TimedOut) →
    m.raft.voteFor = leader ∧ (∀ e ∈ h, RefusesVote e) ∧
      ∀ i m' out, m.step i = some (m', out) → out.TimedOut → out = .evicts leader

theorem Holds.loyal (hHolds : n.Holds id) : n.Loyal id := by
  intro h m hPlays hOk
  obtain ⟨hLast, hRefuses⟩ := hHolds.plays hPlays (fun e he => (hOk e he).2)
  refine ⟨hLast.voteFor, hRefuses, fun i m' out hStep hOut => ?_⟩
  exact hLast.evicts (turn_of_step hStep) hOut

theorem not_loyal_empty (hFree : n.demon.lockFree = true) (hStatus : n.raft.status = .follower)
    (hVote : n.raft.voteFor = "") : ¬ n.Loyal "" := by
  intro hLoyal
  have hGrants : n.raft.Grants := ⟨by simp [hStatus], by simp [hStatus], hVote⟩
  have hStep : n.step (.serve 0 0 (.vote {})) = some
      ({ n with raft := n.raft.recordVote "" 0 },
        .replies 0 (.vote { term? := some n.raft.term, vote? := some true })) := by
    have hServe : n.serve 0 0 (.vote {}) = ({ n with raft := n.raft.recordVote "" 0 },
        .replies 0 (.vote { term? := some n.raft.term, vote? := some true })) := by
      simp only [serve, Raft.vote_of_grants hGrants]
      rfl
    rw [step, if_pos ⟨hFree, by simp [hStatus]⟩, hServe]
  have hOk : ¬ OtherLeader "" (⟨.serve 0 0 (.vote {}),
      .replies 0 (.vote { term? := some n.raft.term, vote? := some true })⟩ :
        Entry Input Output) := by
    rintro ⟨_, _, _, _, hInput, _⟩
    cases hInput
  have hOut :
      ¬ (Output.replies 0 (.vote { term? := some n.raft.term, vote? := some true })).TimedOut := by
    rintro (hEq | ⟨_, hEq⟩) <;> cases hEq
  have hRefuses := (hLoyal _ _ (.cons hStep (.nil _)) (by simp [hOk, hOut])).2.1
  have hFalse := hRefuses _ List.mem_cons_self 0 _ rfl
  cases hFalse

/-- An accepted heartbeat binds the node to its sender exactly where the sender has a name
and the node was in a candidacy or a leadership, or had the sender on record already. -/
theorem loyal_iff {now : Int} {call : Nat} {request : AppendRequest} {reply : AppendReply}
    (h : (system peersAddrs peerId).Reachable n)
    (hStep : n.step (.serve now call (.append request)) =
      some (n', .replies call (.append reply)))
    (hSuccess : reply.success = true) :
    n'.Loyal request.candidateId ↔ request.candidateId ≠ "" ∧
      (n.raft.status = .candidate ∨ n.raft.status = .leader ∨
        n.raft.voteFor = request.candidateId) := by
  obtain ⟨hFree, hAlive, hCase⟩ := (turn_of_step hStep).of_accepts hSuccess
  have hStatus' : n'.raft.status = .follower := by
    rcases hCase with ⟨_, rfl⟩ | ⟨hStatus, rfl⟩
    · rfl
    · exact (settled_of_reachable h).follower hFree hAlive hStatus
  have hFree' : n'.demon.lockFree = true := by
    rcases hCase with ⟨_, rfl⟩ | ⟨_, rfl⟩ <;> exact hFree
  have hVote : n'.raft.voteFor = request.candidateId ↔
      (n.raft.status = .candidate ∨ n.raft.status = .leader ∨
        n.raft.voteFor = request.candidateId) := by
    rcases hCase with ⟨hStatus, rfl⟩ | ⟨hStatus, rfl⟩
    · exact ⟨fun _ => or_assoc.mp (.inl hStatus), fun _ => rfl⟩
    · simp [hStatus, Raft.follow]
  rw [← hVote]
  constructor
  · intro hLoyal
    have hEq := (hLoyal [] n' (.nil n') (by simp)).1
    refine ⟨fun hEmpty => ?_, hEq⟩
    rw [hEmpty] at hLoyal hEq
    exact not_loyal_empty hFree' hStatus' hEq hLoyal
  · rintro ⟨hNamed, hEq⟩
    exact Holds.loyal ⟨hNamed, hEq, hFree', .inl hStatus'⟩

/-- Node "a" stands after its first timeout, gets no answer and is a follower again. -/
def lostCandidacy : List Input :=
  [.launch, .test, .wake 6000 200 ["a", "b"], .test, .wake 6000 200 ["a", "b"], .advance 6000 0,
    .advance 6000 0, .returned 7000 none, .advance 7000 1]

def heartbeatOfB : AppendRequest where
  term? := some 0
  candidateId? := some "b"
  prevLogIndex? := some 0
  prevLogTerm? := some 0

/-- In its second candidacy the node takes up with the sender of the heartbeat. -/
theorem loyal_iff_candidate : ∃ n n' : Node, (system ["a", "b"] ⟨0, by decide⟩).Reachable n ∧
    n.step (.serve 13000 0 (.append heartbeatOfB)) =
      some (n', .replies 0 (.append { term? := some 0, success? := some true })) ∧
    n'.Loyal "b" := by
  obtain ⟨n, hn, hState⟩ := System.exists_reaches (system ["a", "b"] ⟨0, by decide⟩)
    System.anyStep (new sampleBoot ["a", "b"] ⟨0, by decide⟩)
    (lostCandidacy ++ [.test, .wake 13000 200 ["a", "b"]])
    (P := fun n : Node => decide (n.raft.status = .candidate ∧
      (n.step (.serve 13000 0 (.append heartbeatOfB))).any (fun r : Node × Output =>
        decide (r.2 = .replies 0 (.append { term? := some 0, success? := some true }))) = true))
    ⟨sampleBoot, rfl⟩ (by decide)
  obtain ⟨hStatus, hAny⟩ := of_decide_eq_true hState
  obtain ⟨⟨n', out⟩, hStep, hOut⟩ := (Option.any_eq_true _ _).mp hAny
  cases of_decide_eq_true hOut
  exact ⟨n, n', hn, hStep, (loyal_iff hn hStep rfl).mpr ⟨by decide, .inl hStatus⟩⟩

/-- The follower that lost its candidacy accepts the winner's heartbeat, and nobody is put
on record. -/
theorem follower_accepts_without_record :
    ¬ ∀ (peersAddrs : List String) (peerId : Fin peersAddrs.length) (n n' : Node) (now : Int)
      (call : Nat) (request : AppendRequest) (reply : AppendReply),
      (system peersAddrs peerId).Reachable n →
      n.step (.serve now call (.append request)) = some (n', .replies call (.append reply)) →
      reply.success = true → n'.Loyal request.candidateId := by
  intro h
  obtain ⟨n, hn, hState⟩ := System.exists_reaches (system ["a", "b"] ⟨0, by decide⟩)
    System.anyStep (new sampleBoot ["a", "b"] ⟨0, by decide⟩) lostCandidacy
    (P := fun n : Node => (n.step (.serve 8000 0 (.append heartbeatOfB))).any
      (fun r : Node × Output => decide (r.1.raft.voteFor = "" ∧
        r.2 = .replies 0 (.append { term? := some 0, success? := some true }))))
    ⟨sampleBoot, rfl⟩ (by decide)
  obtain ⟨⟨n', out⟩, hStep, hOut⟩ := (Option.any_eq_true _ _).mp hState
  obtain ⟨hVote, rfl⟩ := of_decide_eq_true hOut
  have hLoyal := h _ _ n n' _ _ _ _ hn hStep rfl
  have hB := (hLoyal [] n' (.nil n') (by simp)).1
  exact absurd (hVote.symm.trans hB) (by decide)

/-- A granted vote stays on record until the daemon next finds the timer run out, and all
that time every request is refused, a retry of the chosen candidate too. -/
theorem granted_vote_refuses_retry {now now' : Int} {call : Nat} {request retry : VoteRequest}
    {reply : VoteReply} {h : List (Entry Input Output)}
    (hReach : (system peersAddrs peerId).Reachable n)
    (hStep : n.step (.serve now call (.vote request)) = some (n', .replies call (.vote reply)))
    (hVote : reply.vote = true) (hNamed : request.candidateId ≠ "") (hPlays : Plays step n' h m)
    (hOk : ∀ e ∈ h, ¬ e.output.TimedOut) :
    m.raft.voteFor = request.candidateId ∧ (m.raft.vote retry now').2.vote = false ∧
      (m.raft.vote retry now').1.voteFor = request.candidateId := by
  obtain ⟨hFree, hAlive, hGrants, rfl⟩ := (turn_of_step hStep).of_grants hVote
  have hStatus : n.raft.status = .follower :=
    (settled_of_reachable hReach).follower hFree hAlive ⟨hGrants.2.1, hGrants.1⟩
  have hHolds : Holds request.candidateId
      { n with raft := n.raft.recordVote request.candidateId now } :=
    ⟨hNamed, rfl, hFree, .inl hStatus⟩
  obtain ⟨hLast, -⟩ := hHolds.plays hPlays hOk
  rw [Raft.vote_of_not_grants hLast.not_grants]
  exact ⟨hLast.voteFor, rfl, hLast.voteFor⟩

def requestOfB : VoteRequest where
  term? := some 0
  candidateId? := some "b"
  lastLogIndex? := some (-1)
  lastTermIndex? := some (-1)

/-- A node that has granted its first vote to "b" before its daemon woke up. -/
def freshVoter (peersAddrs : List String) (peerId : Fin peersAddrs.length) : Node :=
  { new sampleBoot peersAddrs peerId with
    raft := (Raft.new sampleBoot peersAddrs peerId).recordVote "b" 0 }

theorem step_freshVoter (peersAddrs : List String) (peerId : Fin peersAddrs.length) :
    (new sampleBoot peersAddrs peerId).step (.serve 0 0 (.vote requestOfB)) =
      some (freshVoter peersAddrs peerId,
        .replies 0 (.vote { term? := some (-1), vote? := some true })) := rfl

/-- The chosen candidate asks again after its heartbeat was rejected. -/
theorem granted_vote_refuses_retry_heartbeat :
    (((freshVoter ["a", "b"] ⟨0, by decide⟩).raft.touch 100).vote requestOfB 200).2.vote =
      false := by
  have hPlays : Plays step (freshVoter ["a", "b"] ⟨0, by decide⟩)
      [⟨.serve 100 1 (.append heartbeatOfB),
        .replies 1 (.append { term? := some (-1), success? := some false })⟩]
      { freshVoter ["a", "b"] ⟨0, by decide⟩ with
        raft := (freshVoter ["a", "b"] ⟨0, by decide⟩).raft.touch 100 } := .cons rfl (.nil _)
  refine (granted_vote_refuses_retry (.start ⟨sampleBoot, rfl⟩) (step_freshVoter _ _) rfl
    (by decide) hPlays ?_).2.1
  intro e he
  rw [List.mem_singleton.mp he]
  rintro (hEq | ⟨_, hEq⟩) <;> cases hEq

theorem retry_is_refused :
    ¬ ∀ (peersAddrs : List String) (peerId : Fin peersAddrs.length) (n n' m : Node) (now now' : Int)
      (call : Nat) (request retry : VoteRequest) (reply : VoteReply)
      (h : List (Entry Input Output)),
      (system peersAddrs peerId).Reachable n →
      n.step (.serve now call (.vote request)) = some (n', .replies call (.vote reply)) →
      reply.vote = true → request.candidateId ≠ "" → Plays step n' h m →
      (∀ h₁ h₂ u, h = h₁ ++ h₂ → Plays step n' h₁ u →
        u.raft.voteFor = request.candidateId ∧ u.raft.status = .follower) →
      retry.candidateId = request.candidateId →
      (m.raft.vote retry now').2.vote = true ∧
        (m.raft.vote retry now').1.voteFor = request.candidateId := by
  intro h
  have hRetry := h ["a", "b"] ⟨0, by decide⟩ _ _ _ 0 100 0 requestOfB requestOfB _ []
    (.start ⟨sampleBoot, rfl⟩) (step_freshVoter _ _) rfl (by decide) (.nil _)
    (fun h₁ h₂ u hSplit hPlays => ?_) rfl
  · exact absurd hRetry.1 (by decide)
  · obtain ⟨rfl, -⟩ := List.append_eq_nil_iff.mp hSplit.symm
    cases hPlays
    exact ⟨rfl, rfl⟩

/-- The handlers that run between two turns of the daemon, one after another. -/
def serveAll : Node → List Delivery → Node × List Output
  | n, [] => (n, [])
  | n, d :: ds =>
    let served := n.serve d.now d.call d.request
    ((served.1.serveAll ds).1, served.2 :: (served.1.serveAll ds).2)

theorem serveAll_append (n : Node) (pre post : List Delivery) :
    (n.serveAll (pre ++ post)).1 = ((n.serveAll pre).1.serveAll post).1 := by
  induction pre generalizing n with
  | nil => rfl
  | cons d pre ih => exact ih _

theorem serve_committed (h : n.raft.Committed) (now : Int) (call : Nat) (request : Request) :
    (n.serve now call request).1.raft.Committed ∧
      (n.serve now call request).1.raft.voteFor = n.raft.voteFor ∧
      (n.serve now call request).2.grants = false := by
  cases request with
  | vote request =>
    rw [serve, Raft.vote_of_not_grants h.not_grants]
    exact ⟨h, rfl, rfl⟩
  | append request =>
    by_cases hAccepts : n.raft.Accepts request
    · rw [serve, Raft.appendMsg_of_follows hAccepts h.status]
      exact ⟨⟨h.status, h.voteFor⟩, rfl, rfl⟩
    · rw [serve, Raft.appendMsg_of_not_accepts hAccepts]
      exact ⟨⟨h.status, h.voteFor⟩, rfl, rfl⟩

theorem committed_of_grants {now : Int} {call : Nat} {request : Request}
    (hSender : request.sender ≠ "") (h : (n.serve now call request).2.grants = true) :
    (n.serve now call request).1.raft.Committed := by
  cases request with
  | vote request =>
    have hGrants : n.raft.Grants := (Raft.vote_true_iff n.raft request now).mp h
    rw [serve, Raft.vote_of_grants hGrants]
    exact ⟨⟨hGrants.2.1, hGrants.1⟩, hSender⟩
  | append request => cases h

theorem serveAll_committed (h : n.raft.Committed) (ds : List Delivery) :
    (n.serveAll ds).1.raft.voteFor = n.raft.voteFor ∧
      (n.serveAll ds).2.countP Output.grants = 0 := by
  induction ds generalizing n with
  | nil => exact ⟨rfl, rfl⟩
  | cons d ds ih =>
    obtain ⟨hNext, hVote, hRefuses⟩ := serve_committed h d.now d.call d.request
    obtain ⟨hRest, hCount⟩ := ih hNext
    refine ⟨hRest.trans hVote, ?_⟩
    simp only [serveAll, List.countP_cons, hRefuses, hCount]
    rfl

theorem countP_grants_le_one (n : Node) {ds : List Delivery}
    (hNamed : ∀ d ∈ ds, d.request.sender ≠ "") : (n.serveAll ds).2.countP Output.grants ≤ 1 := by
  induction ds generalizing n with
  | nil => exact Nat.zero_le 1
  | cons d ds ih =>
    simp only [serveAll, List.countP_cons]
    cases hGrants : (n.serve d.now d.call d.request).2.grants with
    | true =>
      have hCommitted := committed_of_grants (hNamed d List.mem_cons_self) hGrants
      rw [(serveAll_committed hCommitted ds).2]
      rfl
    | false => exact ih _ (fun d' hd => hNamed d' (List.mem_cons_of_mem _ hd))

/-- Between two turns of the daemon at most one vote is granted, whatever requests come and
in whatever state they find the node, and a follower keeps the name it has on record. -/
theorem at_most_one_grant (n : Node) (ds : List Delivery)
    (hNamed : ∀ d ∈ ds, d.request.sender ≠ "") :
    (n.serveAll ds).2.countP Output.grants ≤ 1 ∧
    ∀ pre mid post, ds = pre ++ mid ++ post →
      (n.serveAll pre).1.raft.status = .follower → (n.serveAll pre).1.raft.voteFor ≠ "" →
      (n.serveAll (pre ++ mid)).1.raft.voteFor = (n.serveAll pre).1.raft.voteFor := by
  refine ⟨n.countP_grants_le_one hNamed, fun pre mid post _ hStatus hVote => ?_⟩
  have hCommitted : (n.serveAll pre).1.raft.Committed := ⟨by simp [hStatus], hVote⟩
  rw [serveAll_append]
  exact (serveAll_committed hCommitted mid).1

/-- Two candidates ask a fresh node, with a heartbeat in between that it rejects. -/
def twoCandidates : List Delivery :=
  [⟨0, 0, .vote requestOfB⟩, ⟨0, 1, .append heartbeatOfB⟩,
    ⟨0, 2, .vote { requestOfB with candidateId? := some "c" }⟩]

theorem at_most_one_grant_fresh :
    ((new sampleBoot ["a", "b", "c"] ⟨0, by decide⟩).serveAll twoCandidates).2.map Output.grants =
      [true, false, false] ∧
    ((new sampleBoot ["a", "b", "c"] ⟨0, by decide⟩).serveAll twoCandidates).2.countP
      Output.grants ≤ 1 :=
  ⟨by decide, (at_most_one_grant _ twoCandidates (by decide)).1⟩

end Node

end RaftCpp
