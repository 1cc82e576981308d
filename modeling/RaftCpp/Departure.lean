import RaftCpp.Membership
import RaftCpp.Progress

/-! # An eviction is for good

`peers_` only ever loses ids, one at a time and in the eviction step alone. The
peers of a node are therefore the configured nodes that it has not evicted, its
quorum is counted among these, and it calls none of the others again, although
it may still answer them and even give them its vote.
-/

namespace RaftCpp

open Transition AtMostOnce

namespace Cluster

variable {cfg : Config} {s t : Cluster} {ok : Cluster → Event → Prop}
  {p q : String} {i : Input} {n : Node} {out : Output}

theorem evicted_moves (hMove : Moves cfg s t p i n out)
    (h : ∀ p q, Did s.journal p (.evicts q) → q ∉ (s.nodes p).raft.peers) :
    ∀ p q, Did t.journal p (.evicts q) → q ∉ (t.nodes p).raft.peers := by
  intro a q hDid
  rcases did_moves hMove hDid with hOld | ⟨rfl, rfl⟩
  · rcases hMove.same_or_turn a with hSame | ⟨-, hTurn⟩
    · rw [hSame]
      exact h a q hOld
    · exact fun hMem => h a q hOld (Node.peers_turn hTurn hMem)
  · rw [hMove.nodes_self]
    have hTurn := hMove.turn
    cases hTurn with
    | evicts => exact Finset.notMem_erase _ _

theorem not_mem_of_evicted (h : (system cfg).Reaches ok s) :
    ∀ p q, Did s.journal p (.evicts q) → q ∉ (s.nodes p).raft.peers := by
  apply invariant_of_moves _ _ h
  · exact fun s hInit p q hDid => absurd hDid (not_did_initial hInit)
  · exact fun s t p i n out _ ih _ hMove => evicted_moves hMove ih

theorem not_called_after_eviction (h : (system cfg).Reaches ok s) :
    ∀ recent older p q call request, s.journal = recent ++ older → Did older p (.evicts q) →
      ¬ Did recent p (.calls call q request) := by
  apply invariant_of_moves _ _ h
  · rintro s hInit recent older p q call request hJournal ⟨i, hi⟩
    rw [hInit.2.1] at hJournal
    rw [(List.nil_eq_append_iff.mp hJournal).2] at hi
    cases hi
  · intro s t p i n out hs ih _ hMove recent older a q call request hJournal hEvicted hCalled
    rw [hMove.journal_eq] at hJournal
    cases recent with
    | nil =>
      obtain ⟨j, hj⟩ := hCalled
      cases hj
    | cons r recent =>
      obtain ⟨rfl, hOld⟩ := List.cons.inj hJournal
      obtain ⟨j, hj⟩ := hCalled
      rcases List.mem_cons.mp hj with hEq | hj
      · cases hEq
        have hPeer := Node.endpoint_mem_peers (linked hs hMove.member) hMove.turn
        obtain ⟨k, hk⟩ := hEvicted
        exact not_mem_of_evicted hs _ _ ⟨k, hOld ▸ List.mem_append_right _ hk⟩ hPeer
      · exact ih recent older a q call request hOld hEvicted ⟨j, hj⟩

/-- In every run the peers of a node are the configured nodes that it has not evicted, so a
quorum of them is one of these, and it never again calls a node that it has evicted. -/
theorem evictions_are_final (h : (system cfg).Reachable s) (hp : p ∈ cfg.addrs) :
    (∀ q, q ∈ (s.nodes p).raft.peers ↔ q ∈ cfg.addrs ∧ ¬ Did s.journal p (.evicts q)) ∧
      ∀ recent older q call request, s.journal = recent ++ older → Did older p (.evicts q) →
        ¬ Did recent p (.calls call q request) := by
  constructor
  · intro q
    constructor
    · intro hMem
      have hAddr := Config.mem_members.mp (peers_subset h hp hMem)
      exact ⟨hAddr, fun hDid => not_mem_of_evicted h p q hDid hMem⟩
    · rintro ⟨hAddr, hKept⟩
      exact (mem_peers_or_evicted h p hp q hAddr).resolve_right hKept
  · exact fun recent older q => not_called_after_eviction h recent older p q

theorem evictions_are_final_pair : ∃ s, (system pairConfig).Reachable s ∧
    Did s.journal "a" (.evicts "b") ∧ "b" ∉ (s.nodes "a").raft.peers := by
  obtain ⟨s, hs, hEvicts⟩ := System.exists_reaches (system pairConfig) System.anyStep pairCluster
    lostElectionEvents (P := fun s => decide
      (⟨"a", .wake 12000 200 ["a", "b"], .evicts "b"⟩ ∈ s.journal)) pairCluster_initial (by decide)
  have hDid : Did s.journal "a" (.evicts "b") := ⟨_, of_decide_eq_true hEvicts⟩
  have hPeers := (evictions_are_final hs (p := "a") (by decide)).1 "b"
  exact ⟨s, hs, hDid, fun hMem => (hPeers.mp hMem).2 hDid⟩

end Cluster

end RaftCpp
