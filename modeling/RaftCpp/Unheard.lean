import RaftCpp.Takeover
import RaftCpp.Terms
import RaftCpp.Wire

/-! # The cluster as it is wired

Protobuf decodes no heartbeat, so no handler ever runs for one and each call of
a heartbeat round ends with an rpc_error. What is left of the protocol are the
candidacies. Nothing takes a leader out of office but Kill, and the terms, which
only heartbeats and their replies carry from node to node, are private counters.
The followers of a leader evict it all the same, since it is silent to them.
-/

namespace RaftCpp

open Transition AtMostOnce

def ownCandidacies (p : String) (journal : List Record) : Nat :=
  journal.countP fun r => r.node = p ∧ r.output.campaign?.isSome

theorem mem_winners {journal : List Record} {p : String} :
    p ∈ winners journal ↔ ∃ term, Did journal p (.leads term) := by
  simp only [winners, List.mem_filterMap, Option.map_eq_some_iff]
  constructor
  · rintro ⟨⟨_, i, out⟩, hMem, term, hWin, rfl⟩
    cases out with
    | leads term' => exact ⟨term', i, hMem⟩
    | _ => cases hWin
  · rintro ⟨term, i, hMem⟩
    exact ⟨_, hMem, term, rfl, rfl⟩

namespace Node

variable {n n' : Node} {i : Input} {out : Output}

/-- A leader that hears no heartbeat and no rejection can only be killed. -/
theorem leader_unheard (hSettled : n.Settled) (hTurn : Turn n i n' out)
    (hCalm : ∀ now call request, i ≠ .serve now call (.append request)) (hDeposed : out ≠ .deposed)
    (h : n.raft.status = .leader) :
    (n'.raft.status = .leader ∨ n'.raft.status = .dead) ∧ n'.raft.term = n.raft.term ∧
      n'.raft.voteFor = n.raft.voteFor ∧ n'.raft.peers = n.raft.peers := by
  cases hTurn with
  | waits _ hStatus | stands _ hStatus | evicts _ hStatus | campaigns _ hStatus =>
    cases hStatus.symm.trans h
  | leads hDemon | loses hDemon =>
    have hCandidate := (hSettled.candidate (by rw [hDemon]; rfl)).1
    cases hCandidate.symm.trans h
  | deposed => exact absurd rfl hDeposed
  | grants _ _ hGrants => exact absurd h hGrants.1
  | follows | yields | rejects => exact absurd rfl (hCalm _ _ _)
  | killed => exact ⟨.inr rfl, rfl, rfl, rfl⟩
  | _ => exact ⟨.inl h, rfl, rfl, rfl⟩

end Node

namespace Cluster

variable {cfg : Config} {s t : Cluster} {ok : Cluster → Event → Prop} {protobuf : Protobuf Packet}
  {p q : String} {i : Input} {n : Node} {out : Output}

/-- Every request that reaches a handler has been decoded. -/
def Decoded (protobuf : Protobuf Packet) (_ : Cluster) (e : Event) : Prop :=
  ∀ now call request, e.input = .serve now call request → protobuf.Delivers request.packet

theorem posted_isInitialized (h : (system cfg).Reaches ok s) :
    ∀ m ∈ s.net.posted, IsInitialized m.body.packet ↔ ¬ m.body.packet.IsHeartbeat := by
  apply invariant_of_moves _ _ h
  · intro s hInit m hm
    rw [hInit.1] at hm
    cases hm
  · intro s t p i n out _ ih _ hMove m hm
    rw [hMove.net_eq] at hm
    rcases of_posted_emit hm with hOld | ⟨-, call, rfl⟩
    · exact ih m hOld
    · exact Node.isInitialized_call hMove.turn

theorem delivers_iff_of_served (h : (system cfg).Reaches ok s) (protobuf : Protobuf Packet)
    {now : Int} {call : Nat} {request : Request} (hAdmits : s.Admits p (.serve now call request)) :
    protobuf.Delivers request.packet ↔ ¬ request.packet.IsHeartbeat := by
  rw [protobuf.delivers_iff]
  exact posted_isInitialized h _ ((wired h).sound.sent _ hAdmits)

/-- Among the requests on the network, the ones that are decoded are those that are no
heartbeats. -/
theorem calm_of_decoded (hs : (system cfg).Reaches ok s) {e : Event} (hok : Decoded protobuf s e)
    (hMove : Moves cfg s t e.node e.input n out) : Calm s e := by
  intro now call request hInput
  have hAdmits := hMove.admits
  rw [hInput] at hAdmits
  have hDelivers := hok now call (.append request) hInput
  exact (delivers_iff_of_served hs protobuf hAdmits).mp hDelivers trivial

theorem reaches_calm_of_decoded (h : (system cfg).Reaches (Decoded protobuf) s) :
    (system cfg).Reaches Calm s := by
  apply h.of_imp
  intro s e t hs hok hStep
  obtain ⟨n, out, hMove⟩ := moves_of_step hStep
  exact calm_of_decoded hs hok hMove

theorem decoded_of_calm (protobuf : Protobuf Packet) {e : Event} (hs : (system cfg).Reaches Calm s)
    (hok : Calm s e) (hStep : (system cfg).step s e = some t) : Decoded protobuf s e := by
  intro now call request hInput
  obtain ⟨n, out, hMove⟩ := moves_of_step hStep
  have hAdmits := hMove.admits
  rw [hInput] at hAdmits
  refine (delivers_iff_of_served hs protobuf hAdmits).mpr ?_
  cases request with
  | vote => exact fun hHeartbeat => hHeartbeat
  | append request => exact absurd hInput (hok now call request)

/-- With no heartbeat handled, no reply to one is ever on its way. -/
theorem replies_are_votes (h : (system cfg).Reaches Calm s) :
    ∀ r ∈ s.net.replies, ∃ reply, r.2 = .vote reply := by
  apply invariant_of_moves _ _ h
  · intro s hInit r hr
    rw [hInit.1] at hr
    cases hr
  · intro s t p i n out _ ih hok hMove r hr
    rw [hMove.net_eq] at hr
    have hTurn := hMove.turn
    cases hTurn with
    | grants | refuses =>
      rcases List.mem_cons.mp hr with rfl | hOld
      · exact ⟨_, rfl⟩
      · exact ih r hOld
    | follows | yields | rejects => exact absurd rfl (hok _ _ _)
    | _ => exact ih r hr

theorem not_returned_append (hs : (system cfg).Reaches Calm s) {now : Int} {reply : AppendReply}
    (hAdmits : s.Admits p (.returned now (some (.append reply)))) : False := by
  obtain ⟨call, -, hReply⟩ := hAdmits
  obtain ⟨vote, hVote⟩ := replies_are_votes hs _ hReply
  cases hVote

theorem not_deposed_calm (hs : (system cfg).Reaches Calm s) (hMove : Moves cfg s t p i n out) :
    out ≠ .deposed := by
  rintro rfl
  have hTurn := hMove.turn
  cases hTurn with
  | deposed => exact not_returned_append hs hMove.admits

/-- Whoever has won is in office or dead, with the term and the vote of that candidacy. -/
structure InOffice (s : Cluster) (p : String) (term : UInt64) : Prop where
  status : (s.nodes p).raft.status = .leader ∨ (s.nodes p).raft.status = .dead
  term : (s.nodes p).raft.term = term
  voteFor : (s.nodes p).raft.voteFor = p

theorem frozen_moves (hs : (system cfg).Reaches ok s) (hMove : Moves cfg s t p i n out)
    (h : (s.nodes p).raft.status = .dead) : n = s.nodes p ∧ out = .silent := by
  have hSettled := settled hs hMove.member
  exact Node.frozen_of_dead h (hSettled.isDead_of_dead h) (hSettled.unlocked_of_dead h) hMove.turn

theorem inOffice_moves (hs : (system cfg).Reaches Calm s) (hok : Calm s ⟨p, i⟩)
    (hMove : Moves cfg s t p i n out) {term : UInt64} (h : InOffice s q term) :
    InOffice t q term := by
  by_cases hqp : q = p
  · subst hqp
    have hNode : (n.raft.status = .leader ∨ n.raft.status = .dead) ∧
        n.raft.term = (s.nodes q).raft.term ∧ n.raft.voteFor = (s.nodes q).raft.voteFor := by
      cases h.status with
      | inl hLeader =>
        obtain ⟨hStatus, hTerm, hVote, -⟩ := Node.leader_unheard (settled hs hMove.member)
          hMove.turn hok (not_deposed_calm hs hMove) hLeader
        exact ⟨hStatus, hTerm, hVote⟩
      | inr hDead =>
        rw [(frozen_moves hs hMove hDead).1]
        exact ⟨h.status, rfl, rfl⟩
    rw [← hMove.nodes_self] at hNode
    exact ⟨hNode.1, hNode.2.1.trans h.term, hNode.2.2.trans h.voteFor⟩
  · have hSame := hMove.nodes_of_ne hqp
    exact ⟨hSame ▸ h.status, hSame ▸ h.term, hSame ▸ h.voteFor⟩

theorem inOffice_of_leads (hs : (system cfg).Reaches ok s) {term : UInt64}
    (hMove : Moves cfg s t p i n (.leads term)) : InOffice t p term := by
  obtain ⟨voteCount, hDemon, -, rfl, rfl⟩ := hMove.turn.of_leads
  have hVote := ((settled hs hMove.member).candidate (by rw [hDemon]; rfl)).2
  constructor
  all_goals rw [hMove.nodes_self]
  · exact .inl rfl
  · rfl
  · exact hVote.trans (selfId_eq hs hMove.member)

theorem inOffice (h : (system cfg).Reaches Calm s) :
    ∀ p term, Did s.journal p (.leads term) → InOffice s p term := by
  apply invariant_of_moves _ _ h
  · exact fun s hInit p term hDid => absurd hDid (not_did_initial hInit)
  · intro s t p i n out hs ih hok hMove q term hDid
    rcases did_moves hMove hDid with hOld | ⟨rfl, rfl⟩
    · exact inOffice_moves hs hok hMove (ih q term hOld)
    · exact inOffice_of_leads hs hMove

theorem winners_moves (hs : (system cfg).Reaches Calm s) (hMove : Moves cfg s t p i n out)
    (h : (winners s.journal).Nodup) : (winners t.journal).Nodup := by
  rw [hMove.journal_eq]
  cases out with
  | leads term =>
    refine List.nodup_cons.mpr ⟨?_, h⟩
    intro hMem
    obtain ⟨term', hDid⟩ := mem_winners.mp hMem
    obtain ⟨voteCount, hDemon, -, -, -⟩ := hMove.turn.of_leads
    have hCandidate := ((settled hs hMove.member).candidate (by rw [hDemon]; rfl)).1
    rcases (inOffice hs p term' hDid).status with hStatus | hStatus <;>
      cases hCandidate.symm.trans hStatus
  | _ => exact h

theorem did_mem_addrs (h : (system cfg).Reaches ok s) :
    ∀ p out, Did s.journal p out → p ∈ cfg.addrs := by
  apply invariant_of_moves _ _ h
  · exact fun s hInit p out hDid => absurd hDid (not_did_initial hInit)
  · intro s t p i n out hs ih _ hMove q out' hDid
    rcases did_moves hMove hDid with hOld | ⟨rfl, -⟩
    · exact ih q out' hOld
    · exact hMove.member

/-- As the cluster is wired, a node that leads goes on leading until it is killed, at the
same term, and no election takes it out of office. So no node ever wins twice, and a whole
run has no more won elections than nodes. -/
theorem leadership_is_permanent {past : List Cluster}
    (h : (system cfg).Run (Decoded protobuf) (t :: past)) :
    (∀ s ∈ t :: past, ∀ p ∈ cfg.addrs, (s.nodes p).raft.status = .leader →
      ((t.nodes p).raft.status = .leader ∨ (t.nodes p).raft.status = .dead) ∧
        (t.nodes p).raft.term = (s.nodes p).raft.term) ∧
    (winners t.journal).Nodup ∧ (winners t.journal).length ≤ cfg.addrs.length := by
  have hCalm : (system cfg).Reaches Calm t := reaches_calm_of_decoded ⟨past, h⟩
  have hNodup : (winners t.journal).Nodup := by
    apply invariant_of_moves (I := fun s => (winners s.journal).Nodup) _ _ hCalm
    · intro s hInit
      rw [hInit.2.1]
      exact .nil
    · exact fun s t p i n out hs ih _ hMove => winners_moves hs hMove ih
  refine ⟨?_, hNodup, ?_⟩
  · intro s hs p hp hLeader
    have hLed := (wired (h.reaches hs)).led p hp hLeader
    have hOffice := inOffice hCalm p _ (did_advances (h.advances hs) hLed)
    exact ⟨hOffice.status, hOffice.term⟩
  · apply (hNodup.subperm _).length_le
    intro p hp
    obtain ⟨term, hDid⟩ := mem_winners.mp hp
    exact did_mem_addrs hCalm p _ hDid

/-- The last state of the run has `p` dead, and `p` has led before. -/
def diesInOffice (p : String) : List Cluster → Bool
  | t :: past => decide ((t.nodes p).raft.status = .dead) &&
      past.any fun s => decide ((s.nodes p).raft.status = .leader)
  | [] => false

/-- The second of two nodes is elected, sends a heartbeat that comes to nothing, and is killed. -/
def unheardEvents : List Event :=
  electionEvents ++ [⟨"b", .advance 6000 1⟩, ⟨"b", .test⟩, ⟨"b", .wake 6000 200 ["a", "b"]⟩,
    ⟨"b", .advance 6000 1⟩, ⟨"b", .returned 7000 none⟩, ⟨"b", .advance 7000 2⟩, ⟨"b", .kill⟩,
    ⟨"b", .advance 7000 2⟩, ⟨"b", .killed⟩]

theorem leadership_is_permanent_pair : ∃ t past,
    (system pairConfig).Run (Decoded Node.checkedCopy) (t :: past) ∧
    (t.nodes "b").raft.status = .dead ∧ (∃ s ∈ t :: past, (s.nodes "b").raft.status = .leader ∧
      (t.nodes "b").raft.term = (s.nodes "b").raft.term) ∧ (winners t.journal).length ≤ 2 := by
  obtain ⟨trace, hRun, hDies⟩ := System.exists_run (system pairConfig) Calm pairCluster
    unheardEvents (P := diesInOffice "b") pairCluster_initial (by decide)
  cases trace with
  | nil => cases hDies
  | cons t past =>
    obtain ⟨hDead, hLed⟩ := Bool.and_eq_true_iff.mp hDies
    obtain ⟨s, hs, hLeader⟩ := List.any_eq_true.mp hLed
    have hDecoded := hRun.of_imp
      (fun _ _ _ hs hok hStep => decoded_of_calm Node.checkedCopy hs hok hStep)
    obtain ⟨hStays, -, hLength⟩ := leadership_is_permanent hDecoded
    have hLeader := of_decide_eq_true hLeader
    have hTerm := (hStays s (List.mem_cons_of_mem _ hs) "b" (by decide) hLeader).2
    exact ⟨t, past, hDecoded, of_decide_eq_true hDead,
      ⟨s, List.mem_cons_of_mem _ hs, hLeader, hTerm⟩, hLength⟩

theorem term_moves_calm (hs : (system cfg).Reaches Calm s) (hok : Calm s ⟨p, i⟩)
    (hMove : Moves cfg s t p i n out) :
    out.campaign? = none ∧ n.raft.term = (s.nodes p).raft.term ∨
      out.campaign?.isSome = true ∧ n.raft.term = (s.nodes p).raft.term + 1 := by
  have hTurn := hMove.turn
  cases hTurn with
  | campaigns => exact .inr ⟨rfl, rfl⟩
  | follows | yields | rejects => exact absurd rfl (hok _ _ _)
  | deposed => exact absurd rfl (not_deposed_calm hs hMove)
  | _ => exact .inl ⟨rfl, rfl⟩

theorem ownCandidacies_of_ne (journal : List Record) (i : Input) (out : Output) (h : q ≠ p) :
    ownCandidacies q (⟨p, i, out⟩ :: journal) = ownCandidacies q journal := by
  simp [ownCandidacies, h.symm]

/-- As the cluster is wired, a term counts the candidacies of its own node and says nothing
about those of any other. -/
theorem terms_are_private (h : (system cfg).Reaches (Decoded protobuf) s) (hp : p ∈ cfg.addrs) :
    (s.nodes p).raft.term + 1 = UInt64.ofNat (ownCandidacies p s.journal) := by
  revert p
  apply invariant_of_moves (I := fun s => ∀ p ∈ cfg.addrs,
    (s.nodes p).raft.term + 1 = UInt64.ofNat (ownCandidacies p s.journal)) _ _
    (reaches_calm_of_decoded h)
  · intro s hInit p hp
    obtain ⟨boot, peerId, hEq⟩ := initial_node hInit hp
    rw [hEq, hInit.2.1]
    have hWraps : (-1 : UInt64) + 1 = UInt64.ofNat 0 := by decide
    exact hWraps
  · intro s t p i n out hs ih hok hMove
    rw [hMove.journal_eq]
    apply hMove.forall_node (P := fun q n =>
      n.raft.term + 1 = UInt64.ofNat (ownCandidacies q (⟨p, i, out⟩ :: s.journal)))
    · intro q hq hqp
      rw [ownCandidacies_of_ne _ _ _ hqp]
      exact ih q hq
    · rcases term_moves_calm hs hok hMove with ⟨hNone, hTerm⟩ | ⟨hSome, hTerm⟩
      · rw [hTerm, ih p hMove.member]
        simp [ownCandidacies, hNone]
      · rw [hTerm, ih p hMove.member]
        simp [ownCandidacies, hSome]

theorem terms_are_private_pair : ∃ s, (system pairConfig).Reaches (Decoded Node.checkedCopy) s ∧
    ownCandidacies "b" s.journal = 1 ∧ (s.nodes "b").raft.term + 1 = 1 := by
  obtain ⟨s, hs, hCount⟩ := System.exists_reaches (system pairConfig) Calm pairCluster
    unheardEvents (P := fun s => decide (ownCandidacies "b" s.journal = 1))
    pairCluster_initial (by decide)
  have hDecoded := hs.of_imp
    (fun _ _ _ hs hok hStep => decoded_of_calm Node.checkedCopy hs hok hStep)
  have hTerm := terms_are_private hDecoded (p := "b") (by decide)
  rw [of_decide_eq_true hCount] at hTerm
  exact ⟨s, hDecoded, of_decide_eq_true hCount, hTerm⟩

/-- The others evict a leader that is alive. -/
theorem exists_ignored {live : Finset String} (h : Led live (fun _ => -1) p s)
    (hLive : live ⊆ cfg.members) (hp : p ∈ live) :
    ∃ t, (system cfg).Advances Still s t ∧ Open (live.erase p) (fun _ => -1) t ∧
      ((t.nodes p).raft.status = .leader ∧ (t.nodes p).raft.isDead = false ∧
        (t.nodes p).raft.term = 0) ∧ (∀ q ∉ live, t.nodes q = s.nodes q) ∧
      milestones t.journal = [] ++ milestones s.journal := by
  obtain ⟨t, hAdvances, hOpen, hKept, hQuiet⟩ := exists_deserted h.toBehind hLive hp
  refine ⟨t, hAdvances, hOpen, ?_,
    fun q hq => hKept q (fun hMem => hq (Finset.mem_of_mem_erase hMem)), hQuiet⟩
  rw [hKept p (Finset.notMem_erase _ _)]
  exact ⟨h.leader, h.leaderIdle.isDead, h.leaderTerm⟩

/-- As the cluster is wired, every node of it may come to lead, all of them at one time and
in one term, with none of them killed. -/
theorem all_may_lead (protobuf : Protobuf Packet) (h : (system cfg).initial s) :
    ∃ t, (system cfg).Advances (Decoded protobuf) s t ∧ ∀ p ∈ cfg.addrs,
      (t.nodes p).raft.status = .leader ∧ (t.nodes p).raft.isDead = false ∧
        (t.nodes p).raft.term = 0 := by
  have hs : (system cfg).Reachable s := .start h
  obtain ⟨a, hLaunched, hOpen, -⟩ := exists_open h
  have hsa := hLaunched.mono (fun _ _ hNoTurn => hNoTurn.still)
  obtain ⟨t, hat, -, hLeaders, -⟩ := exists_succession (P := fun n : Node =>
      n.raft.status = .leader ∧ n.raft.isDead = false ∧ n.raft.term = 0) (F := fun _ => [])
    (fun _ _ _ hLed hLive hv => exists_ignored hLed hLive hv) (hs.leads hsa.leads) hOpen
    (Finset.Subset.refl _) cfg.nodup (fun p hp => Config.mem_members.mpr hp)
  have hCalm : (system cfg).Advances Calm s t :=
    (hsa.trans hat).of_imp (fun _ _ _ _ hok _ => hok.calm) (.start h)
  refine ⟨t, ?_, hLeaders⟩
  exact hCalm.of_imp (fun _ _ _ hs hok hStep => decoded_of_calm protobuf hs hok hStep) (.start h)

theorem all_may_lead_pair : ∃ t, (system pairConfig).Reaches (Decoded Node.checkedCopy) t ∧
    (t.nodes "a").raft.status = .leader ∧ (t.nodes "b").raft.status = .leader := by
  obtain ⟨t, hAdvances, hLeaders⟩ := all_may_lead Node.checkedCopy pairCluster_initial
  exact ⟨t, (System.Reaches.start pairCluster_initial).advances hAdvances,
    (hLeaders "a" (by decide)).1, (hLeaders "b" (by decide)).1⟩

end Cluster

end RaftCpp
