import RaftCpp.Turn

/-! # The channel map follows the membership

From its construction on, the daemon's map has one live stub for each peer other
than the node itself. The eviction step is the only one that touches either the
map or the set; it drops the same key from both, whatever string the network put
into `vote_for_`.
-/

namespace RaftCpp

open UnorderedMap Transition

def Demon.toVisit : Demon → List String
  | .voting rest _ => rest
  | .awaitingVote _ _ rest _ => rest
  | .beating rest => rest
  | .awaitingAppend _ _ rest => rest
  | _ => []

theorem Raft.openChannels_evict (r : Raft) :
    r.evict.openChannels = erase r.openChannels r.voteFor := by
  funext id
  by_cases hId : id = r.voteFor
  · subst hId
    simp [openChannels, evict]
  · simp [openChannels, evict, hId]

theorem Raft.openChannels_eq_some {r : Raft} {peer : String} (hPeer : peer ∈ r.peers)
    (hSelf : peer ≠ r.selfId) : r.openChannels peer = some (some ⟨peer⟩) := by
  simp [openChannels, hPeer, hSelf]

namespace Node

variable {n n' : Node} {i : Input} {out : Output}
  {peersAddrs : List String} {peerId : Fin peersAddrs.length}

structure Linked (n : Node) : Prop where
  channels : n.demon ≠ .sleeping → n.channels = n.raft.openChannels
  visits : ∀ peer ∈ n.demon.toVisit, peer ∈ n.raft.peers
  noFault : n.demon ≠ .fault

theorem linked_new (boot : Boot) : (new boot peersAddrs peerId).Linked where
  channels h := absurd rfl h
  visits peer h := by cases h
  noFault h := by cases h

theorem Linked.channels_of_awake {draw : Int} {order : List String} (h : n.Linked)
    (hAwake : n.Awake draw order) : n.channels = n.raft.openChannels :=
  h.channels (by rw [hAwake.demon]; exact Demon.noConfusion)

theorem Awake.mem_peers {draw : Int} {order : List String} (hAwake : n.Awake draw order)
    {peer : String} (hPeer : peer ∈ order) : peer ∈ n.raft.peers := by
  rw [← hAwake.peers]
  exact List.mem_toFinset.mpr hPeer

theorem Linked.stub (h : n.Linked) {peer : String} (hDemon : n.demon ≠ .sleeping)
    (hVisit : peer ∈ n.demon.toVisit) (hSelf : peer ≠ n.raft.selfId) :
    n.channels peer = some (some ⟨peer⟩) := by
  rw [h.channels hDemon]
  exact Raft.openChannels_eq_some (h.visits peer hVisit) hSelf

theorem Linked.goOn (h : n.Linked) {d : Demon} (hDemon : n.demon ≠ .sleeping)
    (hVisit : ∀ peer ∈ d.toVisit, peer ∈ n.demon.toVisit) (hFault : d ≠ .fault) :
    ({ n with demon := d } : Node).Linked where
  channels _ := h.channels hDemon
  visits peer hPeer := h.visits peer (hVisit peer hPeer)
  noFault := hFault

theorem linked_turn (h : n.Linked) (hTurn : Turn n i n' out) : n'.Linked := by
  cases hTurn with
  | launch _ => exact ⟨fun _ => rfl, by simp [Demon.toVisit], Demon.noConfusion⟩
  | test hDemon =>
    exact ⟨fun _ => h.channels (by simp [hDemon]), by simp [Demon.toVisit], Demon.noConfusion⟩
  | waits hAwake | stands hAwake =>
    exact ⟨fun _ => h.channels_of_awake hAwake, by simp [Demon.toVisit], Demon.noConfusion⟩
  | evicts hAwake =>
    refine ⟨fun _ => ?_, by simp [Demon.toVisit], Demon.noConfusion⟩
    rw [Raft.openChannels_evict, h.channels_of_awake hAwake]
  | campaigns hAwake | starts hAwake =>
    exact ⟨fun _ => h.channels_of_awake hAwake, fun _ hPeer => hAwake.mem_peers hPeer,
      Demon.noConfusion⟩
  | skipsVote hDemon | skipsBeat hDemon | asksVote hDemon | asksAppend hDemon =>
    refine h.goOn (by simp [hDemon]) (fun peer hPeer => ?_) Demon.noConfusion
    rw [hDemon]
    exact List.mem_cons_of_mem _ hPeer
  | faultsVote hDemon hPeer hStub | faultsAppend hDemon hPeer hStub =>
    exact absurd (h.stub (by simp [hDemon]) (by rw [hDemon]; exact List.mem_cons_self) hPeer)
      (hStub _)
  | leads hDemon | loses hDemon | endsBeat hDemon | deposed hDemon =>
    exact ⟨fun _ => h.channels (by simp [hDemon]), by simp [Demon.toVisit], Demon.noConfusion⟩
  | counts hDemon | passes hDemon | goesOn hDemon =>
    refine h.goOn (by simp [hDemon]) (fun peer hPeer => ?_) Demon.noConfusion
    rw [hDemon]
    exact hPeer
  | grants | refuses | follows | yields | rejects | kill | killed =>
    exact ⟨h.channels, h.visits, h.noFault⟩

theorem linked_of_reachable (h : (system peersAddrs peerId).Reachable n) : n.Linked :=
  invariant_of_turn linked_new (fun _ _ _ _ ih hTurn => linked_turn ih hTurn) h

/-- The keys of the map are the other peers and no stub is null, so neither loop calls
through a missing channel and the eviction step always finds the key it erases. -/
theorem channels_are_other_peers (h : (system peersAddrs peerId).Reachable n) :
    (n.demon ≠ .sleeping →
      (∀ id, HasKey n.channels id ↔ id ∈ n.raft.peers ∧ id ≠ n.raft.selfId) ∧
      ∀ id, n.channels id ≠ some none) ∧
    (∀ peer rest, n.demon.toVisit = peer :: rest → peer ≠ n.raft.selfId →
      ∃ stub, n.channels peer = some (some stub)) ∧
    HasKey (subscript n.channels n.raft.voteFor none).1 n.raft.voteFor ∧
    n.demon ≠ .fault := by
  have hLinked := linked_of_reachable h
  refine ⟨fun hDemon => ⟨fun id => ?_, fun id hNull => ?_⟩, ?_, ?_, hLinked.noFault⟩
  · rw [HasKey, hLinked.channels hDemon, Raft.openChannels]
    split
    · rename_i hId
      exact ⟨fun _ => hId, fun _ => rfl⟩
    · rename_i hId
      exact ⟨fun hSome => Bool.noConfusion hSome, fun hMem => absurd hMem hId⟩
  · rw [hLinked.channels hDemon, Raft.openChannels] at hNull
    split at hNull <;> cases hNull
  · intro peer rest hVisit hSelf
    have hDemon : n.demon ≠ .sleeping := by
      intro hSleep
      rw [hSleep] at hVisit
      cases hVisit
    exact ⟨⟨peer⟩, hLinked.stub hDemon (by rw [hVisit]; exact List.mem_cons_self) hSelf⟩
  · rw [HasKey, subscript_self]
    rfl

theorem channels_are_other_peers_launched :
    HasKey (Raft.new sampleBoot ["a", "b"] 0).openChannels "b" := by
  have h : (system ["a", "b"] 0).Reachable
      ⟨Raft.new sampleBoot ["a", "b"] 0, .unlocked,
        (Raft.new sampleBoot ["a", "b"] 0).openChannels⟩ :=
    System.Reaches.next (.start ⟨sampleBoot, rfl⟩) trivial (e := .launch) rfl
  exact (((channels_are_other_peers h).1 Demon.noConfusion).1 "b").mpr (by decide)

end Node

end RaftCpp
