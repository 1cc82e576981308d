import RaftCpp.Demon
import RaftCpp.Library.Transition

/-! # What one step of a node can do

`Turn` lists the branches of the daemon and of the two handlers, each with the
guard under which the source takes it. Every invariant is proved against this
list, so that no later proof opens the step function again.
-/

namespace RaftCpp.Node

open UnorderedMap Transition

inductive Turn (n : Node) : Input → Node → Output → Prop
  | launch (hDemon : n.demon = .sleeping) :
      Turn n .launch { n with demon := .unlocked, channels := n.raft.openChannels } .silent
  | test (hDemon : n.demon = .unlocked) (hAlive : n.raft.isDead = false) :
      Turn n .test { n with demon := .atLock } .silent
  | waits {now draw : Int} {order : List String} (hAwake : n.Awake draw order)
      (hStatus : n.raft.status = .follower) (hTime : ¬ n.raft.TimesOut now draw) :
      Turn n (.wake now draw order) { n with demon := .unlocked } .silent
  | stands {now draw : Int} {order : List String} (hAwake : n.Awake draw order)
      (hStatus : n.raft.status = .follower) (hTime : n.raft.TimesOut now draw)
      (hVote : n.raft.voteFor = "") :
      Turn n (.wake now draw order)
        { n with raft := n.raft.becomeCandidate, demon := .unlocked } .stands
  | evicts {now draw : Int} {order : List String} (hAwake : n.Awake draw order)
      (hStatus : n.raft.status = .follower) (hTime : n.raft.TimesOut now draw)
      (hVote : n.raft.voteFor ≠ "") :
      Turn n (.wake now draw order)
        { n with
          raft := n.raft.evict
          demon := .unlocked
          channels := erase n.channels n.raft.voteFor }
        (.evicts n.raft.voteFor)
  | campaigns {now draw : Int} {order : List String} (hAwake : n.Awake draw order)
      (hStatus : n.raft.status = .candidate) :
      Turn n (.wake now draw order) { n with raft := n.raft.campaign, demon := .voting order 1 }
        (.campaigns n.raft.campaign.term)
  | starts {now draw : Int} {order : List String} (hAwake : n.Awake draw order)
      (hFollower : n.raft.status ≠ .follower) (hCandidate : n.raft.status ≠ .candidate) :
      Turn n (.wake now draw order) { n with demon := .beating order } .silent
  | skipsVote {now : Int} {call : Nat} {rest : List String} {voteCount : Nat}
      (hDemon : n.demon = .voting (n.raft.selfId :: rest) voteCount) :
      Turn n (.advance now call) { n with demon := .voting rest voteCount } .silent
  | asksVote {now : Int} {call : Nat} {peer : String} {rest : List String} {voteCount : Nat}
      {stub : Stub} (hDemon : n.demon = .voting (peer :: rest) voteCount)
      (hPeer : peer ≠ n.raft.selfId) (hStub : n.channels peer = some (some stub)) :
      Turn n (.advance now call) { n with demon := .awaitingVote call peer rest voteCount }
        (.calls call stub.endpoint (.vote n.raft.voteRequest))
  | faultsVote {now : Int} {call : Nat} {peer : String} {rest : List String} {voteCount : Nat}
      (hDemon : n.demon = .voting (peer :: rest) voteCount) (hPeer : peer ≠ n.raft.selfId)
      (hStub : ∀ stub, n.channels peer ≠ some (some stub)) :
      Turn n (.advance now call) { n with demon := .fault } .faults
  | leads {now : Int} {call voteCount : Nat} (hDemon : n.demon = .voting [] voteCount)
      (hQuorum : n.raft.HasQuorum voteCount) :
      Turn n (.advance now call) { n with raft := n.raft.becomeLeader, demon := .unlocked }
        (.leads n.raft.term)
  | loses {now : Int} {call voteCount : Nat} (hDemon : n.demon = .voting [] voteCount)
      (hQuorum : ¬ n.raft.HasQuorum voteCount) :
      Turn n (.advance now call) { n with raft := n.raft.loseElection now, demon := .unlocked }
        .loses
  | skipsBeat {now : Int} {call : Nat} {rest : List String}
      (hDemon : n.demon = .beating (n.raft.selfId :: rest)) :
      Turn n (.advance now call) { n with demon := .beating rest } .silent
  | asksAppend {now : Int} {call : Nat} {peer : String} {rest : List String} {stub : Stub}
      (hDemon : n.demon = .beating (peer :: rest)) (hPeer : peer ≠ n.raft.selfId)
      (hStub : n.channels peer = some (some stub)) :
      Turn n (.advance now call) { n with demon := .awaitingAppend call peer rest }
        (.calls call stub.endpoint (.append n.raft.appendRequest))
  | faultsAppend {now : Int} {call : Nat} {peer : String} {rest : List String}
      (hDemon : n.demon = .beating (peer :: rest)) (hPeer : peer ≠ n.raft.selfId)
      (hStub : ∀ stub, n.channels peer ≠ some (some stub)) :
      Turn n (.advance now call) { n with demon := .fault } .faults
  | endsBeat {now : Int} {call : Nat} (hDemon : n.demon = .beating []) :
      Turn n (.advance now call) { n with demon := .unlocked } .silent
  | counts {now : Int} {call : Nat} {peer : String} {rest : List String} {voteCount : Nat}
      {reply : VoteReply} (hDemon : n.demon = .awaitingVote call peer rest voteCount)
      (hVote : reply.vote = true) :
      Turn n (.returned now (some (.vote reply))) { n with demon := .voting rest (voteCount + 1) }
        .silent
  | passes {now : Int} {call : Nat} {peer : String} {rest : List String} {voteCount : Nat}
      {reply : Option Reply} (hDemon : n.demon = .awaitingVote call peer rest voteCount)
      (hReply : reply = none ∨ ∃ v : VoteReply, reply = some (.vote v) ∧ v.vote = false) :
      Turn n (.returned now reply) { n with demon := .voting rest voteCount } .silent
  | goesOn {now : Int} {call : Nat} {peer : String} {rest : List String} {reply : Option Reply}
      (hDemon : n.demon = .awaitingAppend call peer rest)
      (hReply : reply = none ∨ ∃ a : AppendReply, reply = some (.append a) ∧ a.success = true) :
      Turn n (.returned now reply) { n with demon := .beating rest } .silent
  | deposed {now : Int} {call : Nat} {peer : String} {rest : List String} {reply : AppendReply}
      (hDemon : n.demon = .awaitingAppend call peer rest) (hReply : reply.success = false) :
      Turn n (.returned now (some (.append reply)))
        { n with raft := n.raft.stepDown reply now, demon := .unlocked } .deposed
  | grants {now : Int} {call : Nat} {request : VoteRequest} (hFree : n.demon.lockFree = true)
      (hAlive : n.raft.status ≠ .dead) (hGrants : n.raft.Grants) :
      Turn n (.serve now call (.vote request))
        { n with raft := n.raft.recordVote request.candidateId now }
        (.replies call (.vote { term? := some n.raft.term, vote? := some true }))
  | refuses {now : Int} {call : Nat} {request : VoteRequest} (hFree : n.demon.lockFree = true)
      (hAlive : n.raft.status ≠ .dead) (hGrants : ¬ n.raft.Grants) :
      Turn n (.serve now call (.vote request)) n
        (.replies call (.vote { term? := some n.raft.term, vote? := some false }))
  | follows {now : Int} {call : Nat} {request : AppendRequest} (hFree : n.demon.lockFree = true)
      (hAlive : n.raft.status ≠ .dead) (hAccepts : n.raft.Accepts request)
      (hStatus : n.raft.status ≠ .candidate ∧ n.raft.status ≠ .leader) :
      Turn n (.serve now call (.append request))
        { n with raft := n.raft.follow request now }
        (.replies call (.append { term? := some n.raft.term, success? := some true }))
  | yields {now : Int} {call : Nat} {request : AppendRequest} (hFree : n.demon.lockFree = true)
      (hAlive : n.raft.status ≠ .dead) (hAccepts : n.raft.Accepts request)
      (hStatus : n.raft.status = .candidate ∨ n.raft.status = .leader) :
      Turn n (.serve now call (.append request))
        { n with raft := n.raft.yield request now }
        (.replies call (.append { term? := some n.raft.term, success? := some true }))
  | rejects {now : Int} {call : Nat} {request : AppendRequest} (hFree : n.demon.lockFree = true)
      (hAlive : n.raft.status ≠ .dead) (hAccepts : ¬ n.raft.Accepts request) :
      Turn n (.serve now call (.append request))
        { n with raft := n.raft.touch now }
        (.replies call (.append { term? := some n.raft.term, success? := some false }))
  | kill : Turn n .kill { n with raft := n.raft.kill } .silent
  | killed (hDemon : n.demon = .unlocked) (hDead : n.raft.isDead = true) :
      Turn n .killed { n with raft := n.raft.killed } .silent

variable {n n' : Node} {i : Input} {out : Output}

theorem Turn.input_of_calls {call : Nat} {endpoint : String} {request : Request}
    (h : Turn n i n' (.calls call endpoint request)) : ∃ now, i = .advance now call := by
  cases h with
  | @asksVote now | @asksAppend now => exact ⟨now, rfl⟩

theorem Turn.input_of_replies {call : Nat} {reply : Reply}
    (h : Turn n i n' (.replies call reply)) : ∃ now request, i = .serve now call request := by
  cases h with
  | grants | refuses | follows | yields | rejects => exact ⟨_, _, rfl⟩

theorem Turn.of_leads {term : UInt64} (h : Turn n i n' (.leads term)) :
    ∃ voteCount, n.demon = .voting [] voteCount ∧ n.raft.HasQuorum voteCount ∧
      n' = { n with raft := n.raft.becomeLeader, demon := .unlocked } ∧ term = n.raft.term := by
  cases h with
  | leads hDemon hQuorum => exact ⟨_, hDemon, hQuorum, rfl, rfl⟩

theorem Turn.of_campaigns {term : UInt64} (h : Turn n i n' (.campaigns term)) :
    n.raft.status = .candidate ∧ term = n.raft.campaign.term := by
  cases h with
  | campaigns _ hStatus => exact ⟨hStatus, rfl⟩

theorem Turn.of_accepts {now : Int} {call : Nat} {request : AppendRequest} {reply : AppendReply}
    (h : Turn n (.serve now call (.append request)) n' (.replies call (.append reply)))
    (hSuccess : reply.success = true) :
    n.demon.lockFree = true ∧ n.raft.status ≠ .dead ∧
      ((n.raft.status = .candidate ∨ n.raft.status = .leader) ∧
          n' = { n with raft := n.raft.yield request now } ∨
        (n.raft.status ≠ .candidate ∧ n.raft.status ≠ .leader) ∧
          n' = { n with raft := n.raft.follow request now }) := by
  cases h with
  | follows hFree hAlive _ hStatus => exact ⟨hFree, hAlive, .inr ⟨hStatus, rfl⟩⟩
  | yields hFree hAlive _ hStatus => exact ⟨hFree, hAlive, .inl ⟨hStatus, rfl⟩⟩
  | rejects => cases hSuccess

theorem Turn.of_grants {now : Int} {call : Nat} {request : VoteRequest} {reply : VoteReply}
    (h : Turn n (.serve now call (.vote request)) n' (.replies call (.vote reply)))
    (hVote : reply.vote = true) :
    n.demon.lockFree = true ∧ n.raft.status ≠ .dead ∧ n.raft.Grants ∧
      n' = { n with raft := n.raft.recordVote request.candidateId now } := by
  cases h with
  | grants hFree hAlive hGrants => exact ⟨hFree, hAlive, hGrants, rfl⟩
  | refuses => cases hVote

theorem Turn.of_rejects {now : Int} {call : Nat} {request : AppendRequest} {reply : AppendReply}
    (h : Turn n (.serve now call (.append request)) n' (.replies call (.append reply)))
    (hReply : reply.success = false) : n' = { n with raft := n.raft.touch now } := by
  cases h with
  | rejects => rfl
  | follows | yields => cases hReply

/-- The subscript inserts the key it looks up, so the entry to erase is always there. -/
theorem evict_eq (n : Node) : n.evict =
    ({ n with raft := n.raft.evict, channels := erase n.channels n.raft.voteFor },
      .evicts n.raft.voteFor) := by
  simp only [evict, insert_self, erase_insert_subscript]

theorem turn_wake (now : Int) {draw : Int} {order : List String} (hAwake : n.Awake draw order) :
    Turn n (.wake now draw order) (n.wake now draw order).1 (n.wake now draw order).2 := by
  unfold wake
  split
  · rename_i hStatus
    unfold followerTurn
    split
    · rename_i hTime
      split
      · exact .stands hAwake hStatus hTime ‹_›
      · rw [evict_eq]
        exact .evicts hAwake hStatus hTime ‹_›
    · exact .waits hAwake hStatus ‹_›
  · exact .campaigns hAwake ‹_›
  · rename_i hFollower hCandidate
    exact .starts hAwake hFollower hCandidate

theorem turn_advance {now : Int} {call : Nat} (h : n.advance now call = some (n', out)) :
    Turn n (.advance now call) n' out := by
  unfold advance at h
  split at h
  · split at h <;> cases h
    · exact .leads ‹_› ‹_›
    · exact .loses ‹_› ‹_›
  · rename_i peer rest voteCount hDemon
    split at h
    · rename_i hPeer
      cases h
      exact .skipsVote (hPeer ▸ hDemon)
    · rename_i hPeer
      unfold ask at h
      split at h <;> cases h
      · exact .asksVote hDemon hPeer ‹_›
      · exact .faultsVote hDemon hPeer (fun stub hStub => by simp_all)
  · cases h
    exact .endsBeat ‹_›
  · rename_i peer rest hDemon
    split at h
    · rename_i hPeer
      cases h
      exact .skipsBeat (hPeer ▸ hDemon)
    · rename_i hPeer
      unfold ask at h
      split at h <;> cases h
      · exact .asksAppend hDemon hPeer ‹_›
      · exact .faultsAppend hDemon hPeer (fun stub hStub => by simp_all)
  · cases h

theorem turn_returned {now : Int} {reply : Option Reply}
    (h : n.returned now reply = some (n', out)) : Turn n (.returned now reply) n' out := by
  unfold returned at h
  split at h
  · cases h
    exact .passes ‹_› (.inl rfl)
  · split at h <;> cases h
    · exact .counts ‹_› ‹_›
    · rename_i hVote
      exact .passes ‹_› (.inr ⟨_, rfl, Bool.eq_false_iff.mpr hVote⟩)
  · cases h
    exact .goesOn ‹_› (.inl rfl)
  · split at h <;> cases h
    · exact .deposed ‹_› ‹_›
    · rename_i hSuccess
      exact .goesOn ‹_› (.inr ⟨_, rfl, Bool.eq_true_of_not_eq_false hSuccess⟩)
  · cases h

theorem turn_serve (now : Int) (call : Nat) (request : Request) (hFree : n.demon.lockFree = true)
    (hAlive : n.raft.status ≠ .dead) :
    Turn n (.serve now call request) (n.serve now call request).1
      (n.serve now call request).2 := by
  cases request with
  | vote request =>
    by_cases hGrants : n.raft.Grants
    · simp only [serve, Raft.vote_of_grants hGrants]
      exact .grants hFree hAlive hGrants
    · simp only [serve, Raft.vote_of_not_grants hGrants]
      exact .refuses hFree hAlive hGrants
  | append request =>
    by_cases hAccepts : n.raft.Accepts request
    · by_cases hStatus : n.raft.status = .candidate ∨ n.raft.status = .leader
      · simp only [serve, Raft.appendMsg_of_stepsDown hAccepts hStatus]
        exact .yields hFree hAlive hAccepts hStatus
      · simp only [serve, Raft.appendMsg_of_follows hAccepts (not_or.mp hStatus)]
        exact .follows hFree hAlive hAccepts (not_or.mp hStatus)
    · simp only [serve, Raft.appendMsg_of_not_accepts hAccepts]
      exact .rejects hFree hAlive hAccepts

theorem turn_of_step (h : n.step i = some (n', out)) : Turn n i n' out := by
  cases i with
  | launch =>
    simp only [step] at h
    split at h <;> cases h
    exact .launch ‹_›
  | test =>
    simp only [step] at h
    split at h <;> cases h
    rename_i hGuard
    exact .test hGuard.1 hGuard.2
  | wake now draw order =>
    obtain ⟨hAwake, hEq⟩ := Option.ite_none_right_eq_some.mp h
    have hTurn := turn_wake now hAwake
    rwa [Option.some.inj hEq] at hTurn
  | advance now call => exact turn_advance h
  | returned now reply => exact turn_returned h
  | serve now call request =>
    obtain ⟨hGuard, hEq⟩ := Option.ite_none_right_eq_some.mp h
    have hTurn := turn_serve now call request hGuard.1 hGuard.2
    rwa [Option.some.inj hEq] at hTurn
  | kill =>
    cases h
    exact .kill
  | killed =>
    simp only [step] at h
    split at h <;> cases h
    rename_i hGuard
    exact .killed hGuard.1 hGuard.2

/-- One node against an arbitrary environment: any request with any contents may be
handled, and any outcome may be returned to a call. -/
def system (peersAddrs : List String) (peerId : Fin peersAddrs.length) : System Node Input where
  initial n := ∃ boot, n = new boot peersAddrs peerId
  step n i := (n.step i).map Prod.fst

section Reachable

variable {peersAddrs : List String} {peerId : Fin peersAddrs.length}

/-- What holds of a constructed node and is kept by every turn holds in every run. -/
theorem invariant_of_turn {I : Node → Prop} (hNew : ∀ boot, I (new boot peersAddrs peerId))
    (hTurn : ∀ n i n' out, I n → Turn n i n' out → I n')
    (h : (system peersAddrs peerId).Reachable n) : I n := by
  apply System.Reaches.invariant _ _ h
  · rintro n ⟨boot, rfl⟩
    exact hNew boot
  · intro n i n' _ ih _ hStep
    obtain ⟨⟨_, out⟩, hOut, rfl⟩ := Option.map_eq_some_iff.mp hStep
    exact hTurn n i _ out ih (turn_of_step hOut)

theorem reachable_step (h : (system peersAddrs peerId).Reachable n)
    (hStep : n.step i = some (n', out)) : (system peersAddrs peerId).Reachable n' := by
  apply h.next (e := i) trivial
  simp [system, hStep]

end Reachable

end RaftCpp.Node
