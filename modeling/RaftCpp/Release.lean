import RaftCpp.Library.Machine
import RaftCpp.Status

/-! # From one release of the lock to the next

Whenever `lock_` is free, a leader has itself on record and a candidate nobody.
The daemon holds the lock for a whole turn, so between two releases a node
handles one request or goes through one turn. In that time a leader or a
candidate gets another name on record only as it becomes a follower, apart from
the candidate that puts itself there and wins.
-/

namespace RaftCpp.Node

open Transition Machine

variable {n n' m : Node} {i : Input} {out : Output}
  {peersAddrs : List String} {peerId : Fin peersAddrs.length}

def Free (n : Node) : Prop := n.demon.lockFree = true

instance (n : Node) : Decidable n.Free := inferInstanceAs (Decidable (_ = true))

/-- One handler, one turn of the daemon, a test of the flag or a step of Kill: what happens
to a node between two moments at which its lock is free. -/
def Releases (n m : Node) : Prop := n.Free ∧ Excursion step Free n m ∧ m.Free

theorem Turn.status_of_release (hTurn : Turn n i m out) (hSettled : n.Settled) (hBusy : ¬ n.Free)
    (hFree : m.Free) : m.raft.status = .leader ∨ m.raft.status = .follower := by
  cases hTurn with
  | launch hDemon | test hDemon => exact absurd (by rw [Free, hDemon]; rfl) hBusy
  | waits hAwake | stands hAwake | evicts hAwake | campaigns hAwake | starts hAwake =>
    exact absurd hAwake.lockFree hBusy
  | leads => exact .inl rfl
  | loses | deposed => exact .inr rfl
  | endsBeat hDemon => exact .inl (hSettled.leader (by rw [hDemon]; rfl)).1
  | skipsVote | asksVote | faultsVote | skipsBeat | asksAppend | faultsAppend | counts | passes
  | goesOn => cases hFree
  | grants hLock | refuses hLock | follows hLock | yields hLock | rejects hLock =>
    exact absurd hLock hBusy
  | kill => exact absurd hFree hBusy
  | killed hDemon => exact absurd (by rw [Free, hDemon]; rfl) hBusy

/-- A single step between two releases changes the record of a leader or candidate only
by making it a follower. -/
theorem Turn.voteFor_of_free (hTurn : Turn n i m out) (hFree : n.Free) (hFree' : m.Free)
    (hRole : n.raft.status = .leader ∨ n.raft.status = .candidate) :
    m.raft.voteFor = n.raft.voteFor ∨ m.raft.status = .follower := by
  cases hTurn with
  | evicts _ hStatus => exact .inr hStatus
  | campaigns | starts => cases hFree'
  | leads hDemon | loses hDemon | deposed hDemon | endsBeat hDemon =>
    rw [Free, hDemon] at hFree
    cases hFree
  | grants _ _ hGrants =>
    cases hRole with
    | inl hLeader => exact absurd hLeader hGrants.1
    | inr hCandidate => exact absurd hCandidate hGrants.2.1
  | yields => exact .inr rfl
  | _ => exact .inl rfl

theorem reachable_excursion (h : (system peersAddrs peerId).Reachable n)
    (hExcursion : Excursion step Free n m) : (system peersAddrs peerId).Reachable m :=
  hExcursion.invariant (fun _ _ _ _ ih hStep => reachable_step ih hStep) h

theorem voteFor_eq_of_leaders (h : (system peersAddrs peerId).Reachable n)
    (h' : (system peersAddrs peerId).Reachable m) (hFree : n.Free) (hFree' : m.Free)
    (hLeader : n.raft.status = .leader) (hLeader' : m.raft.status = .leader) :
    m.raft.voteFor = n.raft.voteFor := by
  have hSelf := ((settled_of_reachable h).atRest hFree).leader hLeader
  have hSelf' := ((settled_of_reachable h').atRest hFree').leader hLeader'
  rw [hSelf, hSelf', selfId_of_reachable h, selfId_of_reachable h']

theorem Releases.voteFor_of_ne (h : (system peersAddrs peerId).Reachable n)
    (hReleases : n.Releases m)
    (hRole : n.raft.status = .leader ∨ n.raft.status = .candidate)
    (hVote : m.raft.voteFor ≠ n.raft.voteFor) :
    m.raft.status = .follower ∨
      n.raft.status = .candidate ∧ m.raft.status = .leader ∧ m.raft.voteFor = m.raft.selfId := by
  obtain ⟨hFree, hExcursion, hFree'⟩ := hReleases
  have hReach' := reachable_excursion h hExcursion
  cases hExcursion with
  | leave hStep =>
    cases (turn_of_step hStep).voteFor_of_free hFree hFree' hRole with
    | inl hSame => exact absurd hSame hVote
    | inr hFollower => exact .inl hFollower
  | goOn hBefore hBusy hStep =>
    have hSettled := settled_of_reachable (reachable_excursion h hBefore)
    cases (turn_of_step hStep).status_of_release hSettled hBusy hFree' with
    | inl hLeader =>
      cases hRole with
      | inl hWasLeader =>
        exact absurd (voteFor_eq_of_leaders h hReach' hFree hFree' hWasLeader hLeader) hVote
      | inr hCandidate =>
        have hRest' := (settled_of_reachable hReach').atRest hFree'
        exact .inr ⟨hCandidate, hLeader, hRest'.leader hLeader⟩
    | inr hFollower => exact .inl hFollower

/-- At every release the status and the record agree. A candidacy overwrites no vote, and
the record of a leader or a candidate changes only as it becomes a follower, or as the
candidate wins with its own vote. -/
theorem status_agrees_with_vote (h : (system peersAddrs peerId).Reachable n) (hFree : n.Free) :
    (n.raft.status = .leader → n.raft.voteFor = n.raft.selfId) ∧
    (n.raft.status = .candidate → n.raft.voteFor = "") ∧
    (∀ i m term, n.step i = some (m, .campaigns term) → n.raft.voteFor = "") ∧
    ∀ m, n.Releases m → n.raft.status = .leader ∨ n.raft.status = .candidate →
      m.raft.voteFor ≠ n.raft.voteFor →
      m.raft.status = .follower ∨
        n.raft.status = .candidate ∧ m.raft.status = .leader ∧
          m.raft.voteFor = m.raft.selfId := by
  have hRest := (settled_of_reachable h).atRest hFree
  refine ⟨hRest.leader, hRest.candidate, ?_, ?_⟩
  · intro i m term hStep
    exact hRest.candidate (turn_of_step hStep).of_campaigns.1
  · intro m hReleases hRole hVote
    exact hReleases.voteFor_of_ne h hRole hVote

/-- The only node of its cluster, a candidate that is about to begin its candidacy. -/
def loneCandidate (peersAddrs : List String) (peerId : Fin peersAddrs.length) : Node where
  raft := (Raft.new sampleBoot peersAddrs peerId).becomeCandidate
  demon := .atLock
  channels := (Raft.new sampleBoot peersAddrs peerId).openChannels

theorem loneCandidate_reachable :
    (system ["a"] ⟨0, by decide⟩).Reachable (loneCandidate ["a"] ⟨0, by decide⟩) := by
  have hNew : (system ["a"] ⟨0, by decide⟩).Reachable (new sampleBoot ["a"] ⟨0, by decide⟩) :=
    .start ⟨sampleBoot, rfl⟩
  have hLaunched := reachable_step (i := .launch) hNew rfl
  have hTested := reachable_step (i := .test) hLaunched rfl
  have hStood := reachable_step (i := .wake 6000 200 ["a"]) hTested rfl
  exact reachable_step (i := .test) hStood rfl

theorem status_agrees_with_vote_lone :
    (loneCandidate ["a"] ⟨0, by decide⟩).Free ∧
    (loneCandidate ["a"] ⟨0, by decide⟩).raft.status = .candidate ∧
    (loneCandidate ["a"] ⟨0, by decide⟩).raft.voteFor = "" ∧
    ∀ m, (loneCandidate ["a"] ⟨0, by decide⟩).Releases m → m.raft.voteFor ≠ "" →
      m.raft.status = .follower ∨ m.raft.status = .leader ∧ m.raft.voteFor = m.raft.selfId := by
  have hFree : (loneCandidate ["a"] ⟨0, by decide⟩).Free := by decide
  obtain ⟨-, hCandidate, -, hVote⟩ := status_agrees_with_vote loneCandidate_reachable hFree
  refine ⟨hFree, rfl, hCandidate rfl, ?_⟩
  intro m hReleases hNe
  rcases hVote m hReleases (.inr rfl) hNe with hFollower | ⟨-, hLeader, hSelf⟩
  · exact .inl hFollower
  · exact .inr ⟨hLeader, hSelf⟩

/-- The same node once it has counted the one vote that it needs, its own. -/
def loneWinner (peersAddrs : List String) (peerId : Fin peersAddrs.length) : Node :=
  { loneCandidate peersAddrs peerId with
    raft := (loneCandidate peersAddrs peerId).raft.campaign.becomeLeader
    demon := .unlocked }

/-- The exception is needed: a candidate that wins has another record and does not follow. -/
theorem winner_records_itself : ¬ ∀ peersAddrs peerId n,
    (system peersAddrs peerId).Reachable n → n.Free →
    (n.raft.status = .leader → n.raft.voteFor = n.raft.selfId) ∧
    (n.raft.status = .candidate → n.raft.voteFor = "") ∧
    (∀ i m term, n.step i = some (m, .campaigns term) → n.raft.voteFor = "") ∧
    ∀ m, n.Releases m → n.raft.status = .leader ∨ n.raft.status = .candidate →
      m.raft.voteFor ≠ n.raft.voteFor → m.raft.status = .follower := by
  intro h
  obtain ⟨-, -, -, hVote⟩ := h ["a"] ⟨0, by decide⟩ _ loneCandidate_reachable (by decide)
  have hTurn : Excursion step Free (loneCandidate ["a"] ⟨0, by decide⟩)
      (loneWinner ["a"] ⟨0, by decide⟩) := by
    -- it visits itself, which it skips, and finds one vote enough
    refine .goOn (i := .advance 6000 0) (.goOn (i := .advance 6000 0)
      (.leave (i := .wake 6000 200 ["a"]) rfl) ?_ rfl) ?_ rfl
    · decide
    · decide
  have hFollower := hVote _ ⟨by decide, hTurn, by decide⟩ (.inr rfl) (by decide)
  exact absurd hFollower (by decide)

end RaftCpp.Node
