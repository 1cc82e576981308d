import RaftCpp.Turn

/-! # Status and vote record of one node

A node in a candidacy or a leadership has recorded its own vote, a candidate
that waits for its turn has recorded none, and a heartbeat round is run by a
leader only. These facts hold against any environment, since no handler changes
one of the two fields alone.
-/

namespace RaftCpp

open Transition

def Demon.inVote : Demon → Bool
  | .voting _ _ | .awaitingVote _ _ _ _ => true
  | _ => false

def Demon.inBeat : Demon → Bool
  | .beating _ | .awaitingAppend _ _ _ => true
  | _ => false

def Demon.voteCount : Demon → Nat
  | .voting _ voteCount | .awaitingVote _ _ _ voteCount => voteCount
  | _ => 0

theorem Demon.lockFree_of_inVote {d : Demon} (h : d.inVote = true) : d.lockFree = false := by
  cases d <;> simp_all [lockFree, inVote]

/-- The record of a node whose lock is free. -/
structure Raft.AtRest (r : Raft) : Prop where
  leader : r.status = .leader → r.voteFor = r.selfId
  candidate : r.status = .candidate → r.voteFor = ""
  dead : r.status = .dead → r.isDead = true
  known : r.status ≠ .unknown

theorem Raft.atRest_follower {r : Raft} (h : r.status = .follower) : r.AtRest where
  leader hs := by rw [h] at hs; cases hs
  candidate hs := by rw [h] at hs; cases hs
  dead hs := by rw [h] at hs; cases hs
  known hs := by rw [h] at hs; cases hs

namespace Node

variable {n n' : Node} {i : Input} {out : Output}
  {peersAddrs : List String} {peerId : Fin peersAddrs.length}

theorem selfId_turn (hTurn : Turn n i n' out) : n'.raft.selfId = n.raft.selfId := by
  cases hTurn <;> rfl

theorem selfId_of_reachable (h : (system peersAddrs peerId).Reachable n) :
    n.raft.selfId = peersAddrs.get peerId :=
  invariant_of_turn (I := fun n => n.raft.selfId = peersAddrs.get peerId) (fun _ => rfl)
    (fun _ _ _ _ ih hTurn => (selfId_turn hTurn).trans ih) h

theorem peers_turn (hTurn : Turn n i n' out) : n'.raft.peers ⊆ n.raft.peers := by
  cases hTurn with
  | evicts => exact Finset.erase_subset _ _
  | _ => exact Finset.Subset.refl _

theorem peers_eq_of_turn (hTurn : Turn n i n' out) (hEvict : ∀ id, out ≠ .evicts id) :
    n'.raft.peers = n.raft.peers := by
  cases hTurn with
  | evicts => exact absurd rfl (hEvict _)
  | _ => rfl

theorem Turn.of_erased (hTurn : Turn n i n' out) {id : String} (hBefore : id ∈ n.raft.peers)
    (hAfter : id ∉ n'.raft.peers) :
    id = n.raft.voteFor ∧ n.raft.status = .follower ∧ n.raft.voteFor ≠ "" := by
  cases hTurn with
  | evicts _ hStatus _ hVote =>
    refine ⟨?_, hStatus, hVote⟩
    by_contra hNe
    exact hAfter (Finset.mem_erase.mpr ⟨hNe, hBefore⟩)
  | _ => exact absurd hBefore hAfter

theorem peers_of_reachable (h : (system peersAddrs peerId).Reachable n) :
    n.raft.peers ⊆ peersAddrs.toFinset :=
  invariant_of_turn (I := fun n => n.raft.peers ⊆ peersAddrs.toFinset)
    (fun _ => Finset.Subset.refl _) (fun _ _ _ _ ih hTurn => (peers_turn hTurn).trans ih) h

inductive Settled (n : Node) : Prop
  | rest : n.demon.lockFree = true → n.raft.AtRest →
      (n.raft.status = .dead → n.demon = .unlocked) → Settled n
  | vote : n.demon.inVote = true → n.raft.status = .candidate → n.raft.voteFor = n.raft.selfId →
      Settled n
  | beat : n.demon.inBeat = true → n.raft.status = .leader → n.raft.voteFor = n.raft.selfId →
      Settled n
  | fault : n.demon = .fault → n.raft.status ≠ .dead → Settled n

theorem Settled.atRest (h : n.Settled) (hFree : n.demon.lockFree = true) : n.raft.AtRest := by
  cases h with
  | rest _ hRest => exact hRest
  | vote hd | beat hd | fault hd =>
    cases hDemon : n.demon <;> simp_all [Demon.lockFree, Demon.inVote, Demon.inBeat]

theorem Settled.candidate (h : n.Settled) (hVote : n.demon.inVote = true) :
    n.raft.status = .candidate ∧ n.raft.voteFor = n.raft.selfId := by
  cases h with
  | vote _ hStatus hFor => exact ⟨hStatus, hFor⟩
  | rest hd | beat hd | fault hd =>
    cases hDemon : n.demon <;> simp_all [Demon.lockFree, Demon.inVote, Demon.inBeat]

theorem Settled.leader (h : n.Settled) (hBeat : n.demon.inBeat = true) :
    n.raft.status = .leader ∧ n.raft.voteFor = n.raft.selfId := by
  cases h with
  | beat _ hStatus hFor => exact ⟨hStatus, hFor⟩
  | rest hd | vote hd | fault hd =>
    cases hDemon : n.demon <;> simp_all [Demon.lockFree, Demon.inVote, Demon.inBeat]

/-- Kill writes its last status after the daemon has gone. -/
theorem Settled.unlocked_of_dead (h : n.Settled) (hDead : n.raft.status = .dead) :
    n.demon = .unlocked := by
  cases h with
  | rest _ _ hGone => exact hGone hDead
  | vote _ hStatus | beat _ hStatus => cases hStatus.symm.trans hDead
  | fault _ hStatus => exact absurd hDead hStatus

theorem Settled.isDead_of_dead (h : n.Settled) (hDead : n.raft.status = .dead) :
    n.raft.isDead = true :=
  (h.atRest (by rw [h.unlocked_of_dead hDead]; rfl)).dead hDead

theorem settled_new (boot : Boot) : (new boot peersAddrs peerId).Settled :=
  .rest rfl (Raft.atRest_follower rfl) RaftStatus.noConfusion

theorem settled_unlocked (hDemon : n.demon = .unlocked) (hRest : n.raft.AtRest) : n.Settled :=
  .rest (by rw [hDemon]; rfl) hRest (fun _ => hDemon)

theorem Awake.lockFree {draw : Int} {order : List String} (hAwake : n.Awake draw order) :
    n.demon.lockFree = true := by
  rw [hAwake.demon]
  rfl

theorem Settled.leader_of_awake {draw : Int} {order : List String} (h : n.Settled)
    (hAwake : n.Awake draw order) (hFollower : n.raft.status ≠ .follower)
    (hCandidate : n.raft.status ≠ .candidate) : n.raft.status = .leader := by
  have hRest := h.atRest hAwake.lockFree
  cases hStatus : n.raft.status with
  | unknown => exact absurd hStatus hRest.known
  | dead => cases hAwake.demon.symm.trans (h.unlocked_of_dead hStatus)
  | leader => rfl
  | follower => exact absurd hStatus hFollower
  | candidate => exact absurd hStatus hCandidate

theorem settled_turn (h : n.Settled) (hTurn : Turn n i n' out) : n'.Settled := by
  cases hTurn with
  | launch hDemon => exact settled_unlocked rfl (h.atRest (by rw [hDemon]; rfl))
  | test hDemon hAlive =>
    have hRest := h.atRest (by rw [hDemon]; rfl)
    have hDead : n.raft.status ≠ .dead := fun hDead => by simp [hRest.dead hDead] at hAlive
    exact .rest rfl hRest (fun hs => absurd hs hDead)
  | waits hAwake => exact settled_unlocked rfl (h.atRest hAwake.lockFree)
  | stands _ _ _ hVote =>
    exact settled_unlocked rfl ⟨RaftStatus.noConfusion, fun _ => hVote, RaftStatus.noConfusion,
      RaftStatus.noConfusion⟩
  | evicts _ hStatus => exact settled_unlocked rfl (Raft.atRest_follower hStatus)
  | campaigns _ hStatus => exact .vote rfl hStatus rfl
  | starts hAwake hFollower hCandidate =>
    have hLeader := h.leader_of_awake hAwake hFollower hCandidate
    exact .beat rfl hLeader ((h.atRest hAwake.lockFree).leader hLeader)
  | skipsVote hDemon | asksVote hDemon | counts hDemon | passes hDemon =>
    obtain ⟨hStatus, hFor⟩ := h.candidate (by rw [hDemon]; rfl)
    exact .vote rfl hStatus hFor
  | faultsVote hDemon =>
    obtain ⟨hStatus, _⟩ := h.candidate (by rw [hDemon]; rfl)
    exact .fault rfl (by simp [hStatus])
  | faultsAppend hDemon =>
    obtain ⟨hStatus, _⟩ := h.leader (by rw [hDemon]; rfl)
    exact .fault rfl (by simp [hStatus])
  | leads hDemon =>
    obtain ⟨_, hFor⟩ := h.candidate (by rw [hDemon]; rfl)
    exact settled_unlocked rfl ⟨fun _ => hFor, RaftStatus.noConfusion, RaftStatus.noConfusion,
      RaftStatus.noConfusion⟩
  | loses | deposed => exact settled_unlocked rfl (Raft.atRest_follower rfl)
  | skipsBeat hDemon | asksAppend hDemon | goesOn hDemon =>
    obtain ⟨hStatus, hFor⟩ := h.leader (by rw [hDemon]; rfl)
    exact .beat rfl hStatus hFor
  | endsBeat hDemon =>
    obtain ⟨hStatus, hFor⟩ := h.leader (by rw [hDemon]; rfl)
    exact settled_unlocked rfl
      ⟨fun _ => hFor, by simp [hStatus], by simp [hStatus], by simp [hStatus]⟩
  | grants hFree hAlive hGrants =>
    have hRest := h.atRest hFree
    exact .rest hFree ⟨fun hs => absurd hs hGrants.1, fun hs => absurd hs hGrants.2.1,
      hRest.dead, hRest.known⟩ (fun hs => absurd hs hAlive)
  | refuses => exact h
  | follows hFree hAlive | rejects hFree hAlive =>
    have hRest := h.atRest hFree
    exact .rest hFree ⟨hRest.leader, hRest.candidate, hRest.dead, hRest.known⟩
      (fun hs => absurd hs hAlive)
  | yields hFree => exact .rest hFree (Raft.atRest_follower rfl) RaftStatus.noConfusion
  | kill =>
    cases h with
    | rest hFree hRest hGone =>
      exact .rest hFree ⟨hRest.leader, hRest.candidate, fun _ => rfl, hRest.known⟩ hGone
    | vote hDemon hStatus hFor => exact .vote hDemon hStatus hFor
    | beat hDemon hStatus hFor => exact .beat hDemon hStatus hFor
    | fault hDemon hStatus => exact .fault hDemon hStatus
  | killed hDemon hDead =>
    exact settled_unlocked hDemon ⟨RaftStatus.noConfusion, RaftStatus.noConfusion,
      fun _ => hDead, RaftStatus.noConfusion⟩

theorem settled_of_reachable (h : (system peersAddrs peerId).Reachable n) : n.Settled :=
  invariant_of_turn settled_new (fun _ _ _ _ ih hTurn => settled_turn ih hTurn) h

end Node

end RaftCpp
