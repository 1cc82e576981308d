import RaftCpp.Rounds
import RaftCpp.Status

/-! # A node that is cut off from all the others

Every call of it ends in an rpc_error and no request reaches it. It goes from
one candidacy to the next, each at a term one higher, and comes to nothing: one
vote is a quorum of itself only. Since it never names another node on its vote
record, it does not evict anyone either and is as before when it is back.
-/

namespace RaftCpp

open Machine

def Input.CutOff (i : Input) : Prop :=
  (∀ now call request, i ≠ .serve now call request) ∧ ∀ now reply, i ≠ .returned now (some reply)

namespace Node

variable {n n' : Node} {i : Input} {out : Output} {boot : Boot} {peers : Finset String}
  {peersAddrs : List String} {peerId : Fin peersAddrs.length} {h : List (Entry Input Output)}

structure Alone (peers : Finset String) (n : Node) : Prop where
  peers_eq : n.raft.peers = peers
  voteFor : n.raft.status = .follower → n.raft.voteFor = ""
  voteCount : n.demon.inVote = true → n.demon.voteCount = 1
  leader : n.raft.status = .leader → peers.card ≤ 1

/-- What a step that nobody else takes part in can come to. -/
structure Fruitless (peers : Finset String) (out : Output) : Prop where
  keeps : ∀ id, out ≠ .evicts id
  leads : 1 < peers.card → ∀ term, out ≠ .leads term
  loses : peers.card = 1 → out ≠ .loses

theorem Alone.hasQuorum_iff (h : n.Alone peers) : n.raft.HasQuorum 1 ↔ peers.card ≤ 1 := by
  rw [Raft.HasQuorum, h.peers_eq]
  omega

theorem Alone.count_eq (h : n.Alone peers) {rest : List String} {voteCount : Nat}
    (hDemon : n.demon = .voting rest voteCount) : voteCount = 1 := by
  have hCount := h.voteCount (by rw [hDemon]; rfl)
  rw [hDemon] at hCount
  exact hCount

theorem alone_turn (h : n.Alone peers) (hTurn : Turn n i n' out) (hCut : i.CutOff) :
    n'.Alone peers := by
  cases hTurn with
  | kill => exact ⟨h.peers_eq, h.voteFor, h.voteCount, h.leader⟩
  | stands => exact ⟨h.peers_eq, RaftStatus.noConfusion, Bool.noConfusion, RaftStatus.noConfusion⟩
  | killed => exact ⟨h.peers_eq, RaftStatus.noConfusion, h.voteCount, RaftStatus.noConfusion⟩
  | evicts _ hStatus _ hVote => exact absurd (h.voteFor hStatus) hVote
  | campaigns _ hStatus =>
    refine ⟨h.peers_eq, ?_, fun _ => rfl, h.leader⟩
    intro hFollower
    cases hStatus.symm.trans hFollower
  | skipsVote hDemon | asksVote hDemon =>
    exact ⟨h.peers_eq, h.voteFor, fun _ => h.count_eq hDemon, h.leader⟩
  | passes hDemon =>
    have hCount := h.voteCount (by rw [hDemon]; rfl)
    rw [hDemon] at hCount
    exact ⟨h.peers_eq, h.voteFor, fun _ => hCount, h.leader⟩
  | leads hDemon hQuorum =>
    refine ⟨h.peers_eq, RaftStatus.noConfusion, Bool.noConfusion, fun _ => ?_⟩
    rw [h.count_eq hDemon] at hQuorum
    exact h.hasQuorum_iff.mp hQuorum
  | loses => exact ⟨h.peers_eq, fun _ => rfl, Bool.noConfusion, RaftStatus.noConfusion⟩
  | launch | test | waits | starts | faultsVote | skipsBeat | asksAppend | faultsAppend | endsBeat
  | goesOn => exact ⟨h.peers_eq, h.voteFor, Bool.noConfusion, h.leader⟩
  | counts | deposed => exact absurd rfl (hCut.2 _ _)
  | grants | refuses | follows | yields | rejects => exact absurd rfl (hCut.1 _ _ _)

theorem fruitless_turn (h : n.Alone peers) (hTurn : Turn n i n' out) : Fruitless peers out := by
  cases hTurn with
  | evicts _ hStatus _ hVote => exact absurd (h.voteFor hStatus) hVote
  | leads hDemon hQuorum =>
    rw [h.count_eq hDemon, h.hasQuorum_iff] at hQuorum
    exact ⟨fun _ => Output.noConfusion, fun hCard => by omega, fun _ => Output.noConfusion⟩
  | loses hDemon hQuorum =>
    rw [h.count_eq hDemon, h.hasQuorum_iff] at hQuorum
    exact ⟨fun _ => Output.noConfusion, fun _ _ => Output.noConfusion, fun hCard => by omega⟩
  | _ =>
    exact ⟨fun _ => Output.noConfusion, fun _ _ => Output.noConfusion,
      fun _ => Output.noConfusion⟩

theorem term_cutOff (hTurn : Turn n i n' out) (hCut : i.CutOff) :
    n'.raft.term = n.raft.term + UInt64.ofNat out.campaign?.toList.length := by
  cases hTurn with
  | campaigns => rfl
  | counts | deposed => exact absurd rfl (hCut.2 _ _)
  | grants | refuses | follows | yields | rejects => exact absurd rfl (hCut.1 _ _ _)
  | _ => exact (UInt64.add_zero _).symm

theorem alone_new (boot : Boot) : (new boot peersAddrs peerId).Alone peersAddrs.toFinset where
  peers_eq := rfl
  voteFor _ := rfl
  voteCount := Bool.noConfusion
  leader := RaftStatus.noConfusion

theorem alone_plays (hPlays : Plays step n h n') (hCut : ∀ e ∈ h, e.input.CutOff)
    (hAlone : n.Alone peers) : n'.Alone peers ∧ (∀ e ∈ h, Fruitless peers e.output) ∧
      n'.raft.term = n.raft.term + UInt64.ofNat (raised h).length := by
  induction hPlays with
  | nil n =>
    refine ⟨hAlone, ?_, (UInt64.add_zero _).symm⟩
    intro e he
    cases he
  | @cons n m n' i out h hStep _ ih =>
    obtain ⟨hFirst, hRest⟩ := List.forall_mem_cons.mp hCut
    have hTurn := turn_of_step hStep
    obtain ⟨hEnd, hFruitless, hTerm⟩ := ih hRest (alone_turn hAlone hTurn hFirst)
    refine ⟨hEnd, List.forall_mem_cons.mpr ⟨fruitless_turn hAlone hTurn, hFruitless⟩, ?_⟩
    have hRaised : (raised (⟨i, out⟩ :: h)).length =
        out.campaign?.toList.length + (raised h).length := by
      cases hCampaign : out.campaign? <;> simp [raised, hCampaign, Nat.add_comm]
    rw [hTerm, term_cutOff hTurn hFirst, hRaised, UInt64.ofNat_add, UInt64.add_assoc]

/-- However long a node is cut off, it has the same peers as at first and has evicted nobody,
and its term counts its candidacies. With another node among its peers it never leads; alone,
it never loses. -/
theorem cut_off_node (hPlays : Plays step (new boot peersAddrs peerId) h n)
    (hCut : ∀ e ∈ h, e.input.CutOff) :
    n.raft.peers = peersAddrs.toFinset ∧ (∀ e ∈ h, ∀ id, e.output ≠ .evicts id) ∧
      n.raft.term + 1 = UInt64.ofNat (raised h).length ∧
      (1 < peersAddrs.toFinset.card → n.raft.status ≠ .leader ∧
        ∀ e ∈ h, ∀ term, e.output ≠ .leads term) ∧
      (peersAddrs.toFinset.card = 1 → ∀ e ∈ h, e.output ≠ .loses) := by
  obtain ⟨hAlone, hFruitless, hTerm⟩ := alone_plays hPlays hCut (alone_new boot)
  refine ⟨hAlone.peers_eq, fun e he => (hFruitless e he).keeps, ?_, ?_, ?_⟩
  · have hNew : (new boot peersAddrs peerId).raft.term = -1 := rfl
    rw [hTerm, hNew, UInt64.add_comm (-1), UInt64.add_assoc]
    exact UInt64.add_zero _
  · intro hCard
    refine ⟨fun hLeader => ?_, fun e he => (hFruitless e he).leads hCard⟩
    have hLe := hAlone.leader hLeader
    omega
  · exact fun hCard e he => (hFruitless e he).loses hCard

/-- The first of two nodes stands, hears nothing from the second and loses. -/
def unansweredCandidacy : List (Entry Input Output) :=
  [⟨.launch, .silent⟩, ⟨.test, .silent⟩, ⟨.wake 6000 200 ["a", "b"], .stands⟩, ⟨.test, .silent⟩,
    ⟨.wake 6000 200 ["a", "b"], .campaigns 0⟩, ⟨.advance 6000 0, .silent⟩,
    ⟨.advance 6000 0, .calls 0 "b" (.vote ⟨some 0, some "a", some (-1), some (-1)⟩)⟩,
    ⟨.returned 7000 none, .silent⟩, ⟨.advance 7000 1, .loses⟩]

theorem cut_off_node_pair : ∃ n, Plays step (new sampleBoot ["a", "b"] 0) unansweredCandidacy n ∧
    n.raft.term + 1 = 1 ∧ n.raft.peers = ["a", "b"].toFinset ∧ n.raft.status ≠ .leader := by
  have hPlays : Plays step (new sampleBoot ["a", "b"] 0) unansweredCandidacy _ :=
    .cons rfl (.cons rfl (.cons rfl (.cons rfl (.cons rfl (.cons rfl (.cons rfl (.cons rfl
      (.cons rfl (.nil _)))))))))
  have hCut : ∀ e ∈ unansweredCandidacy, e.input.CutOff := by
    simp [unansweredCandidacy, Input.CutOff]
  obtain ⟨hPeers, -, hTerm, hLeads, -⟩ := cut_off_node hPlays hCut
  exact ⟨_, hPlays, hTerm, hPeers, (hLeads (by decide)).1⟩

end Node

end RaftCpp
