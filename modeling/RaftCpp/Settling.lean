import RaftCpp.Stability
import RaftCpp.Unheard

/-! # Elections that fail, and how a cluster settles after them

A candidacy whose calls are all lost leaves nothing behind but a term that is
greater by one, so any series of elections may fail. To a node that has never
been a candidate such a failure is even needed: its term is the greatest there
is, and it rejects every heartbeat until a candidacy of its own has taken the
term round to 0. Once all have been through that, any node that is not behind
the others can be elected and is then heard.
-/

namespace RaftCpp

open Transition AtMostOnce

theorem back_and_forth (x : UInt64) : -1 + x + 1 = x := by
  rw [UInt64.add_comm, ← UInt64.add_assoc]
  exact UInt64.zero_add _

namespace Node

variable {n n' : Node} {i : Input} {out : Output}

end Node

namespace Cluster

variable {cfg : Config} {s t : Cluster} {p : String} {live : Finset String}
  {terms : String → UInt64} {order : List String}

theorem exists_defeat (hs : (system cfg).Reachable s) (h : Open live terms s)
    (hLive : live ⊆ cfg.members) (hTwo : 2 ≤ live.card) (hp : p ∈ live) :
    ∃ t, (system cfg).Advances Still s t ∧
      milestones t.journal = .campaigns p :: milestones s.journal ∧
      Open live (Function.update terms p (terms p + 1)) t := by
  obtain ⟨t, hLeads, hMilestones, hDone, hOthers⟩ :=
    exists_election hs (Config.mem_members.mp (hLive hp)) (h.idle p hp) (h.follower p hp)
      (h.voteFor p hp) (fun _ => false)
  have hNone : s.electorate p (fun _ => false) = ∅ :=
    Finset.filter_false_of_mem (fun _ _ hAnswers => Bool.noConfusion hAnswers.1)
  have hQuorum : ¬ (s.nodes p).raft.HasQuorum (1 + (∅ : Finset String).card) := by
    rw [Raft.HasQuorum, (h.idle p hp).peers, Finset.card_empty]
    omega
  have hLoses : ¬ ({ s.nodes p with raft := (s.nodes p).raft.becomeCandidate.campaign } :
      Node).raft.HasQuorum (1 + (∅ : Finset String).card) := hQuorum
  rw [outcome, hNone, if_neg hQuorum] at hMilestones
  rw [hNone] at hDone hOthers
  rw [Node.conclude, if_neg hLoses] at hDone
  have hSame : ∀ q, q ≠ p → t.nodes q = s.nodes q := by
    intro q hq
    rw [hOthers q hq, if_neg (Finset.notMem_empty q)]
  refine ⟨t, hLeads, hMilestones, ?_, ?_, ?_, ?_⟩
  all_goals
    intro q hq
    by_cases hqp : q = p
  · rw [hqp, hDone]
    exact ⟨rfl, (h.idle p hp).isDead, (h.idle p hp).peers⟩
  · rw [hSame q hqp]
    exact h.idle q hq
  · rw [hqp, hDone]
    rfl
  · rw [hSame q hqp]
    exact h.follower q hq
  · rw [hqp, hDone]
    rfl
  · rw [hSame q hqp]
    exact h.voteFor q hq
  · rw [hqp, hDone, Function.update_self, ← h.term p hp]
    rfl
  · rw [hSame q hqp, Function.update_of_ne hqp]
    exact h.term q hq

theorem exists_defeats (hs : (system cfg).Reachable s) (h : Open live terms s)
    (hLive : live ⊆ cfg.members) (hTwo : 2 ≤ live.card) (hOrder : ∀ q ∈ order, q ∈ live) :
    ∃ t, (system cfg).Advances Still s t ∧
      milestones t.journal = order.reverse.map .campaigns ++ milestones s.journal ∧
      Open live (fun q => terms q + UInt64.ofNat (order.count q)) t := by
  induction order generalizing s terms with
  | nil => exact ⟨s, .refl s, rfl, by simpa using h⟩
  | cons p order ih =>
    obtain ⟨hp, hRest⟩ := List.forall_mem_cons.mp hOrder
    obtain ⟨u, hsu, hFirst, hOpen⟩ := exists_defeat hs h hLive hTwo hp
    obtain ⟨t, hut, hLast, hOpen'⟩ := ih (hs.leads hsu.leads) hOpen hRest
    refine ⟨t, hsu.trans hut, ?_, ?_⟩
    · rw [hLast, hFirst, List.reverse_cons, List.map_append, List.append_assoc]
      rfl
    · convert hOpen' using 2 with q
      by_cases hqp : q = p
      · subst hqp
        rw [Function.update_self, List.count_cons_self, UInt64.ofNat_add,
          UInt64.add_comm (UInt64.ofNat _), ← UInt64.add_assoc]
        rfl
      · rw [Function.update_of_ne hqp, List.count_cons_of_ne (Ne.symm hqp)]

theorem exists_defeated (h : (system cfg).initial s) (hTwo : 2 ≤ cfg.addrs.length)
    (hOrder : ∀ q ∈ order, q ∈ cfg.addrs) :
    ∃ t, (system cfg).Advances Still s t ∧
      milestones t.journal = order.reverse.map .campaigns ∧
      Open cfg.members (fun q => -1 + UInt64.ofNat (order.count q)) t := by
  obtain ⟨a, hLaunched, hOpen, hStart⟩ := exists_open h
  have hsa := hLaunched.mono (fun _ _ hNoTurn => NoTurn.still hNoTurn)
  have hs : (system cfg).Reachable s := .start h
  have hCard : 2 ≤ cfg.members.card := by
    rw [Config.members, List.toFinset_card_of_nodup cfg.nodup]
    exact hTwo
  obtain ⟨t, hat, hMilestones, hOpen'⟩ := exists_defeats (hs.leads hsa.leads) hOpen
    (Finset.Subset.refl _) hCard (fun q hq => Config.mem_members.mpr (hOrder q hq))
  refine ⟨t, hsa.trans hat, ?_, hOpen'⟩
  rw [hMilestones, hStart, List.append_nil]

theorem candidate_of_campaigns (order : List String) :
    (order.map Milestone.campaigns).filterMap Milestone.candidate? = order := by
  rw [List.filterMap_map]
  exact List.filterMap_some

theorem winner_of_campaigns (order : List String) :
    (order.map Milestone.campaigns).filterMap Milestone.winner? = [] := by
  rw [List.filterMap_map]
  exact List.filterMap_eq_nil_iff.mpr fun _ _ => rfl

/-- Elections need not succeed. For any series of nodes, of whatever length and in whatever
order, there is a run in which just these begin a candidacy one after the other, all lose,
and nobody has ever led: all nodes are followers again, with no vote and nobody evicted, and
their terms count what they have lost. -/
theorem elections_may_all_fail (h : (system cfg).initial s) (hTwo : 2 ≤ cfg.addrs.length)
    (hOrder : ∀ q ∈ order, q ∈ cfg.addrs) :
    ∃ t, (system cfg).Advances Still s t ∧ candidates t.journal = order.reverse ∧
      winners t.journal = [] ∧
      ∀ q ∈ cfg.addrs, (t.nodes q).raft.status = .follower ∧ (t.nodes q).raft.voteFor = "" ∧
        (t.nodes q).raft.peers = cfg.members ∧ (t.nodes q).raft.isDead = false ∧
        (t.nodes q).raft.term + 1 = UInt64.ofNat (order.count q) := by
  obtain ⟨t, hst, hMilestones, hOpen⟩ := exists_defeated h hTwo hOrder
  refine ⟨t, hst, ?_, ?_, ?_⟩
  · rw [candidates_eq, hMilestones, candidate_of_campaigns]
  · rw [winners_eq, hMilestones, winner_of_campaigns]
  · intro q hq
    have hMem := Config.mem_members.mpr hq
    refine ⟨hOpen.follower q hMem, hOpen.voteFor q hMem, (hOpen.idle q hMem).peers,
      (hOpen.idle q hMem).isDead, ?_⟩
    rw [hOpen.term q hMem, back_and_forth]

theorem elections_may_all_fail_pair : ∃ t, (system pairConfig).Reaches Still t ∧
    candidates t.journal = ["b", "a", "a"] ∧ winners t.journal = [] ∧
    (t.nodes "a").raft.term + 1 = 2 := by
  obtain ⟨t, hst, hCandidates, hWinners, hNodes⟩ := elections_may_all_fail pairCluster_initial
    (by decide) (by decide : ∀ q ∈ ["a", "a", "b"], q ∈ pairConfig.addrs)
  refine ⟨t, (System.Reaches.start pairCluster_initial).advances hst, hCandidates, hWinners, ?_⟩
  exact (hNodes "a" (by decide)).2.2.2.2

end Cluster

end RaftCpp
