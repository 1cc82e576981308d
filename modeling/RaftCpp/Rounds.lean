import RaftCpp.Library.Machine
import RaftCpp.Channels

/-! # Whole turns of the daemon: a candidacy and a heartbeat round

A turn is driven here to its end against a fixed outcome for each peer, with
any clock and any numbering of the calls. The vote loop comes down to a count in
which the order of the hash set does not show; the heartbeat loop goes as far as
the first peer in that order whose reply is a rejection.
-/

namespace RaftCpp

open Machine

/-- What a turn meets: the clock and the number of the next call, wherever the daemon is,
and the outcome of a call to each peer, where `none` is an rpc_error. -/
structure Environment where
  clock : Demon → Int
  number : Demon → Nat
  vote : String → Option VoteReply
  append : String → Option AppendReply

namespace Environment

def input (env : Environment) (n : Node) : Option Input :=
  match n.demon with
  | .voting _ _ | .beating _ => some (.advance (env.clock n.demon) (env.number n.demon))
  | .awaitingVote _ peer _ _ => some (.returned (env.clock n.demon) ((env.vote peer).map .vote))
  | .awaitingAppend _ peer _ => some (.returned (env.clock n.demon) ((env.append peer).map .append))
  | _ => none

def grants (env : Environment) (peer : String) : Bool := (env.vote peer).any VoteReply.vote

def rejects (env : Environment) (peer : String) : Bool :=
  (env.append peer).any fun reply => !reply.success

theorem rejects_iff {env : Environment} {peer : String} :
    env.rejects peer = true ↔ ∃ reply, env.append peer = some reply ∧ reply.success = false := by
  simp [rejects, Option.any_eq_true]

theorem rejects_ne_false {env : Environment} {peer : String} {reply : AppendReply}
    (hReply : env.append peer = some reply) (hReject : reply.success = false) :
    env.rejects peer ≠ false := by
  rw [rejects_iff.mpr ⟨reply, hReply, hReject⟩]
  exact Bool.noConfusion

theorem passes_or_first_rejection (env : Environment) (selfId : String) (order : List String) :
    (∀ peer ∈ order, peer ≠ selfId → env.rejects peer = false) ∨
    ∃ pre peer rest reply, order = pre ++ peer :: rest ∧
      (∀ p ∈ pre, p ≠ selfId → env.rejects p = false) ∧
      peer ≠ selfId ∧ env.append peer = some reply ∧ reply.success = false := by
  cases hFind : order.find? (fun peer => peer ≠ selfId ∧ env.rejects peer = true) with
  | none =>
    left
    intro peer hMem hPeer
    simpa [hPeer] using List.find?_eq_none.mp hFind peer hMem
  | some peer =>
    right
    obtain ⟨hFound, pre, rest, hSplit, hBefore⟩ := List.find?_eq_some_iff_append.mp hFind
    obtain ⟨hPeer, hRejects⟩ := of_decide_eq_true hFound
    obtain ⟨reply, hReply, hReject⟩ := rejects_iff.mp hRejects
    refine ⟨pre, peer, rest, reply, hSplit, fun p hp hSelf => ?_, hPeer, hReply, hReject⟩
    simpa [hSelf] using hBefore p hp

/-- The reading taken when the reply to a heartbeat comes from `peer`, with `rest` to visit. -/
def replyTime (env : Environment) (peer : String) (rest : List String) : Int :=
  env.clock (.awaitingAppend (env.number (.beating (peer :: rest))) peer rest)

end Environment

/-- The calls of a history, with the endpoint of each. -/
def calls (h : List (Entry Input Output)) : List (String × Request) :=
  h.filterMap fun e => e.output.call?

/-- The terms to which the node has raised its own. -/
def raised (h : List (Entry Input Output)) : List UInt64 :=
  h.filterMap fun e => e.output.campaign?

/-- Nothing but these calls was made and no term was raised. -/
def OnlyCalls (sent : List (String × Request)) (h : List (Entry Input Output)) : Prop :=
  calls h = sent ∧ raised h = []

theorem OnlyCalls.silent {sent : List (String × Request)} {h : List (Entry Input Output)}
    (hSent : OnlyCalls sent h) (i : Input) : OnlyCalls sent (⟨i, .silent⟩ :: h) := hSent

theorem OnlyCalls.call {sent : List (String × Request)} {h : List (Entry Input Output)}
    (hSent : OnlyCalls sent h) (i : Input) (call : Nat) (endpoint : String) (request : Request) :
    OnlyCalls ((endpoint, request) :: sent) (⟨i, .calls call endpoint request⟩ :: h) :=
  ⟨congrArg _ hSent.1, hSent.2⟩

namespace Raft

/-- The peers of a list that the daemon calls. -/
def others (r : Raft) (order : List String) : List String :=
  order.filter fun peer => peer ≠ r.selfId

def heartbeats (r : Raft) (order : List String) : List (String × Request) :=
  (r.others order).map fun peer => (peer, .append r.appendRequest)

/-- The peers that grant, as a set: the order of the hash set does not show. -/
def granting (r : Raft) (env : Environment) : Finset String :=
  (r.peers.erase r.selfId).filter fun peer => env.grants peer = true

theorem others_self (r : Raft) (rest : List String) :
    r.others (r.selfId :: rest) = r.others rest := by
  simp [others]

theorem others_of_ne {r : Raft} {peer : String} (hPeer : peer ≠ r.selfId) (rest : List String) :
    r.others (peer :: rest) = peer :: r.others rest := by
  simp [others, hPeer]

end Raft

section Backers

variable {selfId peer : String} {P : String → Prop} [DecidablePred P] {rest : List String}

/-- The peers in a list, the candidate itself left out, that vote for it. -/
def backers (selfId : String) (P : String → Prop) [DecidablePred P] (rest : List String) :
    List String :=
  rest.filter fun peer => peer ≠ selfId ∧ P peer

theorem backers_self : backers selfId P (selfId :: rest) = backers selfId P rest := by
  simp [backers]

theorem length_backers_of_ne (hPeer : peer ≠ selfId) : (backers selfId P (peer :: rest)).length =
    (if P peer then 1 else 0) + (backers selfId P rest).length := by
  rw [backers, List.filter_cons]
  by_cases hVote : P peer
  · simp [backers, hPeer, hVote, Nat.add_comm]
  · simp [backers, hVote]

theorem Node.Awake.length_backers {n : Node} {draw : Int} {order : List String}
    (hAwake : n.Awake draw order) (selfId : String) (P : String → Prop) [DecidablePred P] :
    (backers selfId P order).length = ((n.raft.peers.erase selfId).filter P).card := by
  have hNodup : (backers selfId P order).Nodup := hAwake.nodup.filter _
  rw [← List.toFinset_card_of_nodup hNodup]
  congr 1
  ext peer
  simp only [backers, ← hAwake.peers, List.mem_toFinset, List.mem_filter, Finset.mem_filter,
    Finset.mem_erase, decide_eq_true_eq]
  rw [and_left_comm, and_assoc]

end Backers

namespace Node

variable {n m : Node} {env : Environment} {peer : String} {rest : List String}
  {voteCount : Nat} {now draw : Int} {call : Nat} {order : List String}

/-- One turn of the loop in LaunchRaftDemon, from the lock to the unlock. -/
def iteration (n : Node) (env : Environment) (fuel : Nat) (now draw : Int) (order : List String) :
    Option (Node × List (Entry Input Output)) :=
  match n.step (.wake now draw order) with
  | some (n', out) => (drive step env.input fuel n').map fun r =>
      (r.1, ⟨.wake now draw order, out⟩ :: r.2)
  | none => none

def conclude (n : Node) (now : Int) (voteCount : Nat) : Node :=
  if n.raft.HasQuorum voteCount then { n with raft := n.raft.becomeLeader, demon := .unlocked }
  else { n with raft := n.raft.loseElection now, demon := .unlocked }

theorem step_skipsVote (hDemon : n.demon = .voting (n.raft.selfId :: rest) voteCount) (now : Int)
    (call : Nat) : n.step (.advance now call) =
      some ({ n with demon := .voting rest voteCount }, .silent) := by
  simp [step, advance, hDemon]

theorem step_asksVote (hLinked : n.Linked) (hDemon : n.demon = .voting (peer :: rest) voteCount)
    (hPeer : peer ≠ n.raft.selfId) (now : Int) (call : Nat) : n.step (.advance now call) =
      some ({ n with demon := .awaitingVote call peer rest voteCount },
        .calls call peer (.vote n.raft.voteRequest)) := by
  have hStub := hLinked.stub (by simp [hDemon]) (by rw [hDemon]; exact List.mem_cons_self) hPeer
  simp [step, advance, ask, hDemon, hPeer, hStub]

theorem step_countsVote (hDemon : n.demon = .awaitingVote call peer rest voteCount)
    (env : Environment) (now : Int) : n.step (.returned now ((env.vote peer).map .vote)) =
      some ({ n with demon := .voting rest (voteCount + if env.grants peer = true then 1 else 0) },
        .silent) := by
  cases hReply : env.vote peer with
  | none => simp [step, returned, hDemon, Environment.grants, hReply]
  | some reply =>
    cases hVote : reply.vote <;> simp [step, returned, hDemon, Environment.grants, hReply, hVote]

theorem step_concludes (hDemon : n.demon = .voting [] voteCount) (now : Int) (call : Nat) :
    n.step (.advance now call) = some (n.conclude now voteCount,
      if n.raft.HasQuorum voteCount then .leads n.raft.term else .loses) := by
  by_cases hQuorum : n.raft.HasQuorum voteCount
  · simp [step, advance, hDemon, conclude, hQuorum]
  · simp [step, advance, hDemon, conclude, hQuorum]

theorem input_of_voting (hDemon : n.demon = .voting rest voteCount) :
    env.input n = some (.advance (env.clock (.voting rest voteCount))
      (env.number (.voting rest voteCount))) := by
  simp [Environment.input, hDemon]

theorem input_of_awaitingVote (hDemon : n.demon = .awaitingVote call peer rest voteCount) :
    env.input n = some (.returned (env.clock (.awaitingVote call peer rest voteCount))
      ((env.vote peer).map .vote)) := by
  simp [Environment.input, hDemon]

theorem input_of_unlocked (hDemon : n.demon = .unlocked) : env.input n = none := by
  simp [Environment.input, hDemon]

theorem conclude_demon : (n.conclude now voteCount).demon = .unlocked := by
  unfold conclude
  split <;> rfl

theorem linked_rest (hLinked : n.Linked) {d : Demon} (hVisit : n.demon.toVisit = peer :: rest)
    (hRest : d.toVisit = rest) (hFault : d ≠ .fault) : ({ n with demon := d } : Node).Linked := by
  refine hLinked.goOn ?_ (fun p hp => ?_) hFault
  · intro hSleep
    rw [hSleep] at hVisit
    cases hVisit
  · rw [hVisit]
    exact List.mem_cons_of_mem _ (hRest ▸ hp)

section Visit

variable {bound : Nat} {sent : List (String × Request)}

theorem completes_asksVote (hLinked : n.Linked)
    (hDemon : n.demon = .voting (peer :: rest) voteCount) (hPeer : peer ≠ n.raft.selfId)
    (h : Completes step env.input bound
      { n with demon := .voting rest (voteCount + if env.grants peer = true then 1 else 0) } m
      (OnlyCalls sent)) :
    Completes step env.input (bound + 2) n m
      (OnlyCalls ((peer, .vote n.raft.voteRequest) :: sent)) := by
  have hAwait (call : Nat) : Completes step env.input (bound + 1)
      { n with demon := .awaitingVote call peer rest voteCount } m (OnlyCalls sent) :=
    h.next (input_of_awaitingVote rfl) (step_countsVote rfl env _) (fun _ hSent => hSent.silent _)
  exact (hAwait _).next (input_of_voting hDemon) (step_asksVote hLinked hDemon hPeer _ _)
    (fun _ hSent => hSent.call _ _ _ _)

theorem completes_skipsVote (hDemon : n.demon = .voting (n.raft.selfId :: rest) voteCount)
    (h : Completes step env.input bound { n with demon := .voting rest voteCount } m
      (OnlyCalls sent)) : Completes step env.input (bound + 1) n m (OnlyCalls sent) :=
  h.next (input_of_voting hDemon) (step_skipsVote hDemon _ _) (fun _ hSent => hSent.silent _)

end Visit

/-- The vote loop visits every open peer, calls all but the node itself, and comes to the
count of those that grant. -/
theorem completes_voting (env : Environment) (hLinked : n.Linked)
    (hDemon : n.demon = .voting rest voteCount) :
    Completes step env.input (2 * rest.length + 1) n
      (n.conclude (env.clock (.voting []
          (voteCount + (backers n.raft.selfId (env.grants · = true) rest).length)))
        (voteCount + (backers n.raft.selfId (env.grants · = true) rest).length))
      (OnlyCalls ((n.raft.others rest).map fun peer => (peer, .vote n.raft.voteRequest))) := by
  induction rest generalizing n voteCount with
  | nil =>
    refine Completes.next (Completes.stop (input_of_unlocked conclude_demon) (Q := (· = [])) rfl)
      (input_of_voting hDemon) (step_concludes hDemon _ _) ?_
    rintro h rfl
    split <;> exact ⟨rfl, rfl⟩
  | cons peer rest ih =>
    have hVisit : n.demon.toVisit = peer :: rest := by
      rw [hDemon]
      rfl
    have hLength : 2 * (peer :: rest).length + 1 = 2 * rest.length + 1 + 2 := by
      rw [List.length_cons]
      omega
    rw [hLength]
    by_cases hPeer : peer = n.raft.selfId
    · subst hPeer
      rw [backers_self, Raft.others_self]
      refine (completes_skipsVote hDemon ?_).mono (Nat.le_succ _)
      exact ih (linked_rest hLinked hVisit rfl Demon.noConfusion) rfl
    · rw [length_backers_of_ne hPeer, Raft.others_of_ne hPeer, ← Nat.add_assoc]
      refine completes_asksVote hLinked hDemon hPeer ?_
      exact ih (linked_rest hLinked hVisit rfl Demon.noConfusion) rfl

theorem step_campaigns (hAwake : n.Awake draw order) (hStatus : n.raft.status = .candidate)
    (now : Int) : n.step (.wake now draw order) =
      some ({ n with raft := n.raft.campaign, demon := .voting order 1 },
        .campaigns (n.raft.term + 1)) := by
  simp only [step, if_pos hAwake, wake, hStatus]
  rfl

theorem iteration_eq {n' : Node} {out : Output} {fuel bound : Nat}
    {Q : List (Entry Input Output) → Prop}
    (hStep : n.step (.wake now draw order) = some (n', out))
    (h : Completes step env.input bound n' m Q) (hFuel : bound ≤ fuel) :
    ∃ h, n.iteration env fuel now draw order = some (m, ⟨.wake now draw order, out⟩ :: h) ∧
      Q h := by
  obtain ⟨h, hDrive, hQ⟩ := h fuel hFuel
  exact ⟨h, by simp [iteration, hStep, hDrive], hQ⟩

/-- A candidacy is decided by the set of peers that grant: whatever the order of the calls,
the turn ends as a leader with a quorum and as a follower without one. That the channels are
those of the peers is no restriction, see `linked_of_reachable`. -/
theorem candidacy_decided_by_votes (env : Environment) (now : Int) {fuel : Nat}
    (hLinked : n.Linked) (hAwake : n.Awake draw order) (hStatus : n.raft.status = .candidate)
    (hFuel : 2 * order.length + 1 ≤ fuel) :
    ∃ m h, n.iteration env fuel now draw order = some (m, h) ∧ m.demon = .unlocked ∧
      raised h = [n.raft.term + 1] ∧
      calls h = (order.filter fun peer => peer ≠ n.raft.selfId).map (fun peer =>
        (peer, .vote { candidateId? := some n.raft.selfId, lastLogIndex? := some (-1),
                       lastTermIndex? := some (-1), term? := some (n.raft.term + 1) })) ∧
      m.raft.term = n.raft.term + 1 ∧ m.raft.peers = n.raft.peers ∧
      (n.raft.peers.card / 2 + 1 ≤ 1 + (n.raft.granting env).card →
        m.raft.status = .leader ∧ m.raft.voteFor = n.raft.selfId) ∧
      (¬ n.raft.peers.card / 2 + 1 ≤ 1 + (n.raft.granting env).card →
        m.raft.status = .follower ∧ m.raft.voteFor = "" ∧
        m.raft.leaderActiveTime = env.clock (.voting [] (1 + (n.raft.granting env).card))) := by
  have hStep := step_campaigns hAwake hStatus now
  have hLoop := completes_voting env (linked_turn hLinked (turn_of_step hStep)) rfl
  obtain ⟨h, hTurn, hCalls, hRaised⟩ := iteration_eq hStep hLoop hFuel
  have hCount : (backers n.raft.campaign.selfId (env.grants · = true) order).length =
      (n.raft.granting env).card := hAwake.length_backers _ _
  refine ⟨_, _, hTurn, conclude_demon, congrArg _ hRaised, hCalls, ?_⟩
  simp only [hCount, conclude]
  split
  · rename_i hQuorum
    exact ⟨rfl, rfl, fun _ => ⟨rfl, rfl⟩, fun hNot => absurd hQuorum hNot⟩
  · rename_i hQuorum
    exact ⟨rfl, rfl, fun hYes => absurd hYes hQuorum, fun _ => ⟨rfl, rfl, rfl⟩⟩

def sampleRaft (status : RaftStatus) : Raft :=
  { Raft.new sampleBoot ["a", "b", "c"] ⟨0, by decide⟩ with status := status, term := 0 }

/-- A node of three before a turn. -/
def sampleNode (status : RaftStatus) : Node :=
  ⟨sampleRaft status, .atLock, (sampleRaft status).openChannels⟩

theorem sampleNode_linked (status : RaftStatus) : (sampleNode status).Linked :=
  ⟨fun _ => rfl, by simp [sampleNode, Demon.toVisit], Demon.noConfusion⟩

theorem sampleNode_awake (status : RaftStatus) : (sampleNode status).Awake 200 ["b", "a", "c"] :=
  ⟨rfl, by decide, by decide, by decide,
    (by decide : ["b", "a", "c"].toFinset = ["a", "b", "c"].toFinset)⟩

/-- "b" grants its vote and rejects a heartbeat; calls to "c" fail. -/
def sampleEnvironment : Environment where
  clock _ := 6000
  number _ := 0
  vote peer := if peer = "b" then some { term? := some 0, vote? := some true } else none
  append peer := if peer = "b" then some { term? := some 7, success? := some false } else none

theorem candidacy_decided_by_votes_sample : ∃ m h,
    (sampleNode .candidate).iteration sampleEnvironment 7 6000 200 ["b", "a", "c"] = some (m, h) ∧
      (calls h).map Prod.fst = ["b", "c"] ∧ m.raft.status = .leader := by
  obtain ⟨m, h, hTurn, -, -, hCalls, -, -, hWins, -⟩ :=
    candidacy_decided_by_votes sampleEnvironment 6000 (sampleNode_linked .candidate)
      (sampleNode_awake .candidate) rfl (Nat.le_refl _)
  exact ⟨m, h, hTurn, by rw [hCalls]; rfl, (hWins (by decide)).1⟩

theorem step_skipsBeat (hDemon : n.demon = .beating (n.raft.selfId :: rest)) (now : Int)
    (call : Nat) : n.step (.advance now call) =
      some ({ n with demon := .beating rest }, .silent) := by
  simp [step, advance, hDemon]

theorem step_asksAppend (hLinked : n.Linked) (hDemon : n.demon = .beating (peer :: rest))
    (hPeer : peer ≠ n.raft.selfId) (now : Int) (call : Nat) : n.step (.advance now call) =
      some ({ n with demon := .awaitingAppend call peer rest },
        .calls call peer (.append n.raft.appendRequest)) := by
  have hStub := hLinked.stub (by simp [hDemon]) (by rw [hDemon]; exact List.mem_cons_self) hPeer
  simp [step, advance, ask, hDemon, hPeer, hStub]

theorem step_goesOn (hDemon : n.demon = .awaitingAppend call peer rest)
    (hPass : env.rejects peer = false) (now : Int) :
    n.step (.returned now ((env.append peer).map .append)) =
      some ({ n with demon := .beating rest }, .silent) := by
  cases hReply : env.append peer with
  | none => simp [step, returned, hDemon]
  | some reply =>
    simp only [Environment.rejects, hReply, Option.any_some, Bool.not_eq_false'] at hPass
    simp [step, returned, hDemon, hPass]

theorem step_deposed {reply : AppendReply} (hDemon : n.demon = .awaitingAppend call peer rest)
    (hReply : env.append peer = some reply) (hReject : reply.success = false) (now : Int) :
    n.step (.returned now ((env.append peer).map .append)) =
      some ({ n with raft := n.raft.stepDown reply now, demon := .unlocked }, .deposed) := by
  simp [step, returned, hDemon, hReply, hReject]

theorem step_endsBeat (hDemon : n.demon = .beating []) (now : Int) (call : Nat) :
    n.step (.advance now call) = some ({ n with demon := .unlocked }, .silent) := by
  simp [step, advance, hDemon]

theorem input_of_beating (hDemon : n.demon = .beating rest) :
    env.input n = some (.advance (env.clock (.beating rest)) (env.number (.beating rest))) := by
  simp [Environment.input, hDemon]

theorem input_of_awaitingAppend (hDemon : n.demon = .awaitingAppend call peer rest) :
    env.input n = some (.returned (env.clock (.awaitingAppend call peer rest))
      ((env.append peer).map .append)) := by
  simp [Environment.input, hDemon]

section Beat

variable {bound : Nat} {sent : List (String × Request)}

theorem completes_asksAppend (hLinked : n.Linked) (hDemon : n.demon = .beating (peer :: rest))
    (hPeer : peer ≠ n.raft.selfId) (hPass : env.rejects peer = false)
    (h : Completes step env.input bound { n with demon := .beating rest } m (OnlyCalls sent)) :
    Completes step env.input (bound + 2) n m
      (OnlyCalls ((peer, .append n.raft.appendRequest) :: sent)) := by
  have hAwait (call : Nat) : Completes step env.input (bound + 1)
      { n with demon := .awaitingAppend call peer rest } m (OnlyCalls sent) :=
    h.next (input_of_awaitingAppend rfl) (step_goesOn rfl hPass _) (fun _ hSent => hSent.silent _)
  exact (hAwait _).next (input_of_beating hDemon) (step_asksAppend hLinked hDemon hPeer _ _)
    (fun _ hSent => hSent.call _ _ _ _)

theorem completes_skipsBeat (hDemon : n.demon = .beating (n.raft.selfId :: rest))
    (h : Completes step env.input bound { n with demon := .beating rest } m (OnlyCalls sent)) :
    Completes step env.input (bound + 1) n m (OnlyCalls sent) :=
  h.next (input_of_beating hDemon) (step_skipsBeat hDemon _ _) (fun _ hSent => hSent.silent _)

/-- The loop goes past peers that do not reject, to whatever the rest of it does. -/
theorem completes_beating {pre : List String}
    (hLinked : ({ n with demon := .beating (pre ++ rest) } : Node).Linked)
    (hPass : ∀ peer ∈ pre, peer ≠ n.raft.selfId → env.rejects peer = false)
    (h : Completes step env.input bound { n with demon := .beating rest } m (OnlyCalls sent)) :
    Completes step env.input (bound + 2 * pre.length) { n with demon := .beating (pre ++ rest) } m
      (OnlyCalls (n.raft.heartbeats pre ++ sent)) := by
  induction pre with
  | nil => exact h
  | cons peer pre ih =>
    have hRest := ih (linked_rest hLinked rfl rfl Demon.noConfusion)
      (fun p hp => hPass p (List.mem_cons_of_mem _ hp))
    have hLength : bound + 2 * (peer :: pre).length = bound + 2 * pre.length + 2 := by
      rw [List.length_cons]
      omega
    rw [hLength]
    by_cases hPeer : peer = n.raft.selfId
    · subst hPeer
      rw [Raft.heartbeats, Raft.others_self]
      have hSkip := completes_skipsBeat
        (n := { n with demon := .beating (n.raft.selfId :: (pre ++ rest)) }) rfl hRest
      exact hSkip.mono (Nat.le_succ _)
    · rw [Raft.heartbeats, Raft.others_of_ne hPeer]
      exact completes_asksAppend hLinked rfl hPeer (hPass peer List.mem_cons_self hPeer) hRest

end Beat

theorem completes_endsBeat (n : Node) : Completes step env.input 1 { n with demon := .beating [] }
    { n with demon := .unlocked } (OnlyCalls []) :=
  (Completes.stop (input_of_unlocked rfl) (Q := OnlyCalls []) ⟨rfl, rfl⟩).next
    (input_of_beating rfl) (step_endsBeat rfl _ _) (fun _ hSent => hSent.silent _)

theorem completes_deposed {reply : AppendReply}
    (hLinked : ({ n with demon := .beating (peer :: rest) } : Node).Linked)
    (hPeer : peer ≠ n.raft.selfId) (hReply : env.append peer = some reply)
    (hReject : reply.success = false) :
    Completes step env.input 2 { n with demon := .beating (peer :: rest) }
      { n with
        raft := n.raft.stepDown reply (env.replyTime peer rest)
        demon := .unlocked }
      (OnlyCalls [(peer, .append n.raft.appendRequest)]) := by
  have hAwait : Completes step env.input 1
      { n with demon := .awaitingAppend (env.number (.beating (peer :: rest))) peer rest }
      { n with
        raft := n.raft.stepDown reply (env.replyTime peer rest)
        demon := .unlocked } (OnlyCalls []) :=
    (Completes.stop (input_of_unlocked rfl) (Q := OnlyCalls []) ⟨rfl, rfl⟩).next
      (input_of_awaitingAppend rfl) (step_deposed rfl hReply hReject _) (fun _ hSent => hSent)
  exact hAwait.next (input_of_beating rfl) (step_asksAppend hLinked rfl hPeer _ _)
    (fun _ hSent => hSent.call _ _ _ _)

theorem step_starts (hAwake : n.Awake draw order) (hStatus : n.raft.status = .leader)
    (now : Int) : n.step (.wake now draw order) =
      some ({ n with demon := .beating order }, .silent) := by
  simp only [step, if_pos hAwake, wake, hStatus]

theorem Awake.linked_beating (hAwake : n.Awake draw order) (hLinked : n.Linked)
    (hRest : ∀ peer ∈ rest, peer ∈ order) : ({ n with demon := .beating rest } : Node).Linked where
  channels _ := hLinked.channels_of_awake hAwake
  visits peer hPeer := hAwake.mem_peers (hRest peer hPeer)
  noFault := Demon.noConfusion

section Round

variable (env : Environment) (now : Int) {fuel : Nat} (hLinked : n.Linked)
  (hAwake : n.Awake draw order) (hStatus : n.raft.status = .leader) (hFuel : 2 * order.length + 1 ≤ fuel)

include hLinked hAwake hStatus hFuel

theorem iteration_of_unopposed
    (hPass : ∀ peer ∈ order, peer ≠ n.raft.selfId → env.rejects peer = false) :
    ∃ h, n.iteration env fuel now draw order = some ({ n with demon := .unlocked }, h) ∧
      calls h = n.raft.heartbeats order := by
  have hStep := step_starts hAwake hStatus now
  have hOrder : ∀ peer ∈ order ++ [], peer ∈ order := by simp
  have hLoop :=
    completes_beating (hAwake.linked_beating hLinked hOrder) hPass (completes_endsBeat n)
  rw [List.append_nil, List.append_nil] at hLoop
  have hBound : 1 + 2 * order.length ≤ fuel := by omega
  obtain ⟨h, hTurn, hCalls, _⟩ := iteration_eq hStep hLoop hBound
  exact ⟨_, hTurn, hCalls⟩

theorem iteration_of_rejection {pre : List String} {reply : AppendReply}
    (hSplit : order = pre ++ peer :: rest)
    (hPass : ∀ p ∈ pre, p ≠ n.raft.selfId → env.rejects p = false)
    (hPeer : peer ≠ n.raft.selfId) (hReply : env.append peer = some reply)
    (hReject : reply.success = false) :
    ∃ h, n.iteration env fuel now draw order = some ({ n with
        raft := n.raft.stepDown reply (env.replyTime peer rest)
        demon := .unlocked }, h) ∧
      calls h = n.raft.heartbeats (pre ++ [peer]) := by
  have hStep := step_starts hAwake hStatus now
  have hLinked' : ({ n with demon := .beating order } : Node).Linked :=
    hAwake.linked_beating hLinked (fun _ hp => hp)
  have hLinked'' : ({ n with demon := .beating (peer :: rest) } : Node).Linked :=
    hAwake.linked_beating hLinked (fun _ hp => hSplit ▸ List.mem_append_right _ hp)
  rw [hSplit] at hLinked'
  have hLoop := completes_beating hLinked' hPass
    (completes_deposed hLinked'' hPeer hReply hReject)
  rw [← hSplit] at hLoop
  have hBound : 2 + 2 * pre.length ≤ fuel := by
    rw [hSplit, List.length_append, List.length_cons] at hFuel
    omega
  obtain ⟨h, hTurn, hCalls, _⟩ := iteration_eq hStep hLoop hBound
  refine ⟨_, hTurn, hCalls.trans ?_⟩
  simp [Raft.heartbeats, Raft.others, hPeer]

/-- A heartbeat round reaches every other peer and changes nothing, or it ends the
leadership at the first peer that rejects. -/
theorem heartbeat_round_decided_by_rejections :
    ∃ m h, n.iteration env fuel now draw order = some (m, h) ∧ m.demon = .unlocked ∧
      ((∀ peer ∈ n.raft.peers, peer ≠ n.raft.selfId → env.rejects peer = false) →
        m.raft.status = n.raft.status ∧ m.raft.term = n.raft.term ∧
        m.raft.voteFor = n.raft.voteFor ∧ m.raft.peers = n.raft.peers ∧
        calls h = (order.filter fun peer => peer ≠ n.raft.selfId).map (fun peer =>
          (peer, .append { candidateId? := some n.raft.selfId, term? := some n.raft.term }))) ∧
      (∀ pre peer rest reply, order = pre ++ peer :: rest → peer ≠ n.raft.selfId →
        env.append peer = some reply → reply.success = false →
        (∀ p ∈ pre, p ≠ n.raft.selfId → env.rejects p = false) →
        m.raft.status = .follower ∧ m.raft.term = reply.term ∧
        m.raft.leaderActiveTime = env.replyTime peer rest ∧
        calls h = ((pre ++ [peer]).filter fun peer => peer ≠ n.raft.selfId).map (fun peer =>
          (peer, .append { candidateId? := some n.raft.selfId, term? := some n.raft.term }))) ∧
      (m.raft.status = .leader ↔
        ∀ peer ∈ n.raft.peers, peer ≠ n.raft.selfId → env.rejects peer = false) := by
  have hOrder : ∀ peer, peer ∈ n.raft.peers ↔ peer ∈ order := by
    intro peer
    rw [← hAwake.peers, List.mem_toFinset]
  rcases env.passes_or_first_rejection n.raft.selfId order with
    hPass | ⟨pre, peer, rest, reply, hSplit, hPass, hPeer, hReply, hReject⟩
  · obtain ⟨h, hTurn, hCalls⟩ := iteration_of_unopposed env now hLinked hAwake hStatus hFuel hPass
    refine ⟨_, h, hTurn, rfl, fun _ => ⟨rfl, rfl, rfl, rfl, hCalls⟩, ?_, ?_⟩
    · intro pre peer rest reply hSplit hPeer hReply hReject _
      have hMem : peer ∈ order := by simp [hSplit]
      exact absurd (hPass peer hMem hPeer) (Environment.rejects_ne_false hReply hReject)
    · exact iff_of_true hStatus (fun peer hMem => hPass peer ((hOrder peer).mp hMem))
  · have hOpposed :
        ¬ ∀ peer ∈ n.raft.peers, peer ≠ n.raft.selfId → env.rejects peer = false := by
      intro hAll
      have hMem : peer ∈ n.raft.peers := (hOrder peer).mpr (by simp [hSplit])
      exact Environment.rejects_ne_false hReply hReject (hAll peer hMem hPeer)
    obtain ⟨h, hTurn, hCalls⟩ := iteration_of_rejection env now hLinked hAwake hStatus hFuel
      hSplit hPass hPeer hReply hReject
    refine ⟨_, h, hTurn, rfl, fun hAll => absurd hAll hOpposed, ?_, ?_⟩
    · -- any other way to cut the order at a first rejection gives the outcome of the same turn
      intro pre' peer' rest' reply' hSplit' hPeer' hReply' hReject' hPass'
      obtain ⟨h', hTurn', hCalls'⟩ := iteration_of_rejection env now hLinked hAwake hStatus hFuel
        hSplit' hPass' hPeer' hReply' hReject'
      obtain ⟨hm, rfl⟩ := Prod.mk.inj (Option.some.inj (hTurn.symm.trans hTurn'))
      rw [hm]
      exact ⟨rfl, rfl, rfl, hCalls'⟩
    · exact iff_of_false (fun hLeader => by cases hLeader) hOpposed

end Round

theorem heartbeat_round_decided_by_rejections_sample : ∃ m h,
    (sampleNode .leader).iteration sampleEnvironment 7 6000 200 ["b", "a", "c"] = some (m, h) ∧
      (calls h).map Prod.fst = ["b"] ∧ m.raft.status = .follower ∧ m.raft.term = 7 := by
  obtain ⟨m, h, hTurn, -, -, hDeposed, -⟩ :=
    heartbeat_round_decided_by_rejections sampleEnvironment 6000 (sampleNode_linked .leader)
      (sampleNode_awake .leader) rfl (Nat.le_refl _)
  obtain ⟨hStatus, hTerm, -, hCalls⟩ := hDeposed [] "b" ["a", "c"]
    { term? := some 7, success? := some false } rfl (by decide) rfl rfl (by simp)
  exact ⟨m, h, hTurn, by rw [hCalls]; rfl, hStatus, hTerm⟩

end Node

end RaftCpp
