import RaftCpp.Library.Machine
import RaftCpp.Channels

/-! # The replication state of a leader

Only the step into a leadership writes `peers_next_index_`, `commit_index_` and
`last_applied_`, and it writes them only where the log is empty. The log is
always empty, since nothing appends to it, and the peers of a leader do not
change, so whoever leads has an entry for each of its peers and both counters at
zero. Entries are never taken out again; those of evicted peers stay behind.
-/

namespace RaftCpp

open UnorderedMap Transition Machine

/-- The log has no entry yet, and a leader has set its state up for its peers. -/
structure Raft.SetUp (r : Raft) : Prop where
  logs : r.logs = []
  nextIndex : r.status = .leader → ∀ id ∈ r.peers, r.peersNextIndex id = some 0
  commitIndex : r.status = .leader → r.commitIndex = 0
  lastApplied : r.status = .leader → r.lastApplied = 0

theorem Raft.setUp_of_ne {r : Raft} (hLogs : r.logs = []) (hStatus : r.status ≠ .leader) :
    r.SetUp where
  logs := hLogs
  nextIndex h := absurd h hStatus
  commitIndex h := absurd h hStatus
  lastApplied h := absurd h hStatus

theorem Raft.setUp_becomeLeader {r : Raft} (hLogs : r.logs = []) : r.becomeLeader.SetUp where
  logs := hLogs
  nextIndex _ id hId := by
    have hId : id ∈ r.peers := hId
    simp [becomeLeader, hLogs, hId]
  commitIndex _ := by simp [becomeLeader, hLogs]
  lastApplied _ := by simp [becomeLeader, hLogs]

theorem Raft.hasKey_becomeLeader {r : Raft} {id : String} (h : HasKey r.peersNextIndex id) :
    HasKey r.becomeLeader.peersNextIndex id := by
  rw [HasKey] at h ⊢
  unfold becomeLeader
  dsimp only
  split
  · rfl
  · exact h

namespace Node

variable {n n' m : Node} {i : Input} {out : Output}
  {peersAddrs : List String} {peerId : Fin peersAddrs.length}

theorem setUp_turn (h : n.raft.SetUp) (hTurn : Turn n i n' out) : n'.raft.SetUp := by
  cases hTurn with
  | leads => exact Raft.setUp_becomeLeader h.logs
  | evicts _ hStatus => exact Raft.setUp_of_ne h.logs (by simp [Raft.evict, hStatus])
  | stands | loses | deposed | yields | killed =>
    exact Raft.setUp_of_ne h.logs RaftStatus.noConfusion
  | _ => exact ⟨h.logs, h.nextIndex, h.commitIndex, h.lastApplied⟩

theorem setUp_of_reachable (h : (system peersAddrs peerId).Reachable n) : n.raft.SetUp :=
  invariant_of_turn (I := fun n => n.raft.SetUp)
    (fun _ => Raft.setUp_of_ne rfl RaftStatus.noConfusion)
    (fun _ _ _ _ ih hTurn => setUp_turn ih hTurn) h

theorem hasKey_turn (hTurn : Turn n i n' out) {id : String}
    (h : HasKey n.raft.peersNextIndex id) : HasKey n'.raft.peersNextIndex id := by
  cases hTurn with
  | leads => exact Raft.hasKey_becomeLeader h
  | _ => exact h

theorem hasKey_plays {h : List (Entry Input Output)} (hPlays : Plays step n h m) {id : String}
    (hKey : HasKey n.raft.peersNextIndex id) : HasKey m.raft.peersNextIndex id := by
  induction hPlays with
  | nil => exact hKey
  | cons hStep _ ih => exact ih (hasKey_turn (turn_of_step hStep) hKey)

/-- Whoever leads has an entry at the size of the log for each of its peers and both
counters at zero, whatever the constructor left in them; no entry is ever removed. -/
theorem leader_replication_is_set_up (h : (system peersAddrs peerId).Reachable n) :
    (n.raft.status = .leader →
      n.raft.logs.length = 0 ∧
      (∀ id ∈ n.raft.peers, n.raft.peersNextIndex id = some (UInt64.ofNat n.raft.logs.length)) ∧
      n.raft.commitIndex = 0 ∧ n.raft.lastApplied = 0) ∧
    ∀ h m, Plays step n h m → ∀ id, HasKey n.raft.peersNextIndex id →
      HasKey m.raft.peersNextIndex id := by
  have hSetUp := setUp_of_reachable h
  have hLength : n.raft.logs.length = 0 := by rw [hSetUp.logs, List.length_nil]
  constructor
  · intro hLeader
    rw [hLength]
    exact ⟨rfl, hSetUp.nextIndex hLeader, hSetUp.commitIndex hLeader, hSetUp.lastApplied hLeader⟩
  · exact fun _ _ hPlays _ hKey => hasKey_plays hPlays hKey

/-- A constructor that leaves 7 and 9 in the two counters. -/
def dirtyBoot : Boot := ⟨"127.0.0.1", 5555, 0, 7, 9⟩

/-- The node evicts "b", to which it gave its vote, and leads alone. -/
def loneLeader : List Input :=
  [.launch, .serve 0 0 (.vote { term? := some 0, candidateId? := some "b" }), .test,
    .wake 6000 200 ["a", "b"], .test, .wake 6000 200 ["a"], .test, .wake 6000 200 ["a"],
    .advance 6000 0, .advance 6000 0]

theorem leader_replication_is_set_up_alone : ∃ n : Node,
    (system ["a", "b"] ⟨0, by decide⟩).Reachable n ∧ n.raft.status = .leader ∧
    n.raft.peersNextIndex "a" = some 0 ∧ n.raft.commitIndex = 0 ∧ n.raft.lastApplied = 0 := by
  obtain ⟨n, hn, hState⟩ := System.exists_reaches (system ["a", "b"] ⟨0, by decide⟩)
    System.anyStep (new dirtyBoot ["a", "b"] ⟨0, by decide⟩) loneLeader
    (P := fun n : Node => decide (n.raft.status = .leader ∧ "a" ∈ n.raft.peers))
    ⟨dirtyBoot, rfl⟩ (by decide)
  obtain ⟨hLeader, hMem⟩ := of_decide_eq_true hState
  obtain ⟨hLength, hNext, hCommit, hApplied⟩ := (leader_replication_is_set_up hn).1 hLeader
  refine ⟨n, hn, hLeader, ?_, hCommit, hApplied⟩
  rw [hNext "a" hMem, hLength]
  rfl

end Node

end RaftCpp
