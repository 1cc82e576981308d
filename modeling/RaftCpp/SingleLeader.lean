import RaftCpp.Allegiance

/-! # Without evictions the cluster refines an election by pledges

As long as no node evicts, a granted vote is never taken back and a winner never
votes again. The cluster then simulates the abstract election in which every
voter pledges itself once, whatever the terms and whatever the network does, so
at most one node ever leads.
-/

namespace RaftCpp

namespace Node

variable {n n' : Node} {i : Input} {out : Output}

/-- A vote on record stays there unless the node evicts or a leader yields to another. -/
theorem voteFor_eq_of_turn (hSettled : n.Settled) (hTurn : Turn n i n' out)
    (hVote : n.raft.voteFor ≠ "") (hStatus : n.raft.status ≠ .candidate)
    (hEvict : ∀ id, out ≠ .evicts id)
    (hLeader : ∀ now call request, i = .serve now call (.append request) →
      n.raft.status ≠ .leader) :
    n'.raft.voteFor = n.raft.voteFor ∧ n'.raft.status ≠ .candidate := by
  cases hTurn with
  | stands _ _ _ hNone => exact absurd hNone hVote
  | evicts => exact absurd rfl (hEvict _)
  | campaigns _ hCandidate => exact absurd hCandidate hStatus
  | leads hDemon | loses hDemon =>
    exact absurd (hSettled.candidate (by rw [hDemon]; rfl)).1 hStatus
  | deposed | killed => exact ⟨rfl, RaftStatus.noConfusion⟩
  | grants _ _ hGrants => exact absurd hGrants.2.2 hVote
  | yields _ _ _ hYields =>
    rcases hYields with hCandidate | hLead
    · exact absurd hCandidate hStatus
    · exact absurd hLead (hLeader _ _ _ rfl)
  | _ => exact ⟨rfl, hStatus⟩

end Node

namespace Cluster

open Transition AtMostOnce Pledge

variable {cfg : Config} {s t : Cluster} {ok : Cluster → Event → Prop}
  {p : String} {i : Input} {n : Node} {out : Output}

/-- The step is taken by a timed-out follower that has a vote on record. -/
def Evicts (s : Cluster) (e : Event) : Prop :=
  match e.input with
  | .wake now draw _ => (s.nodes e.node).raft.status = .follower ∧
      (s.nodes e.node).raft.TimesOut now draw ∧ (s.nodes e.node).raft.voteFor ≠ ""
  | _ => False

instance (s : Cluster) : (e : Event) → Decidable (Evicts s e)
  | ⟨_, .wake _ _ _⟩ => inferInstanceAs (Decidable (_ ∧ _ ∧ _))
  | ⟨_, .launch⟩ | ⟨_, .test⟩ | ⟨_, .advance _ _⟩ | ⟨_, .returned _ _⟩ | ⟨_, .serve _ _ _⟩
  | ⟨_, .kill⟩ | ⟨_, .killed⟩ => isFalse id

def NoEviction (s : Cluster) (e : Event) : Prop := ¬ Evicts s e

instance (s : Cluster) (e : Event) : Decidable (NoEviction s e) :=
  inferInstanceAs (Decidable (¬ _))

/-- The abstract election that a cluster stands for: pledges are the granted votes and
the votes of winners for themselves. -/
structure Pledged (cfg : Config) (s : Cluster) (b : Ballots String) : Prop where
  whole : ∀ p ∈ cfg.addrs, (s.nodes p).raft.peers = cfg.members
  record : ∀ p ∈ cfg.addrs, ∀ c, b.pledge p = some c →
    (s.nodes p).raft.voteFor = c ∧ c ≠ "" ∧ (s.nodes p).raft.status ≠ .candidate
  granted : ∀ p c term, Granted s.journal p c term → b.pledge p = some c
  led : ∀ p term, Did s.journal p (.leads term) → p ∈ b.leaders

theorem pledged_initial (h : (system cfg).initial s) : Pledged cfg s ⟨fun _ => none, []⟩ where
  whole p hp := by
    obtain ⟨boot, peerId, hEq⟩ := initial_node h hp
    rw [hEq]
    rfl
  record p _ c hc := by cases hc
  granted p c term hc := absurd hc (not_granted_initial h)
  led p term hp := absurd hp (not_did_initial h)

theorem not_evicts (hok : NoEviction s ⟨p, i⟩) (hTurn : Node.Turn (s.nodes p) i n out) :
    ∀ id, out ≠ .evicts id := by
  rintro id rfl
  cases hTurn with
  | evicts _ hStatus hTime hVote => exact hok ⟨hStatus, hTime, hVote⟩

theorem whole_moves {b : Ballots String} (h : Pledged cfg s b) (hMove : Moves cfg s t p i n out)
    (hok : NoEviction s ⟨p, i⟩) : ∀ q ∈ cfg.addrs, (t.nodes q).raft.peers = cfg.members := by
  apply hMove.forall_node (P := fun _ n => n.raft.peers = cfg.members)
  · exact fun q hq _ => h.whole q hq
  · rw [Node.peers_eq_of_turn hMove.turn (not_evicts hok hMove.turn)]
    exact h.whole p hMove.member

theorem pledge_eq_none {b : Ballots String} (h : Pledged cfg s b) (hp : p ∈ cfg.addrs)
    (hFree : (s.nodes p).raft.voteFor = "" ∨ (s.nodes p).raft.status = .candidate) :
    b.pledge p = none := by
  cases hPledge : b.pledge p with
  | none => rfl
  | some c =>
    obtain ⟨hVote, hNe, hStatus⟩ := h.record p hp c hPledge
    rcases hFree with hEmpty | hCandidate
    · exact absurd (hVote.symm.trans hEmpty) hNe
    · exact absurd hCandidate hStatus

/-- The vote record of the node that pledges itself now, and of those that have before. -/
theorem record_pledge {b : Ballots String} (h : Pledged cfg s b) (hMove : Moves cfg s t p i n out)
    {c : String} (hVote : n.raft.voteFor = c) (hNe : c ≠ "")
    (hStatus : n.raft.status ≠ .candidate) :
    ∀ q ∈ cfg.addrs, ∀ d, Function.update b.pledge p (some c) q = some d →
      (t.nodes q).raft.voteFor = d ∧ d ≠ "" ∧ (t.nodes q).raft.status ≠ .candidate := by
  apply hMove.forall_node (P := fun q n => ∀ d, Function.update b.pledge p (some c) q = some d →
    n.raft.voteFor = d ∧ d ≠ "" ∧ n.raft.status ≠ .candidate)
  · intro q hq hqp d hd
    rw [Function.update_of_ne hqp] at hd
    exact h.record q hq d hd
  · intro d hd
    rw [Function.update_self] at hd
    cases hd
    exact ⟨hVote, hNe, hStatus⟩

/-- A voter without a pledge has granted nothing, so its pledge can be set freely. -/
theorem granted_pledge {b : Ballots String} (h : Pledged cfg s b) (hMove : Moves cfg s t p i n out)
    (hNone : b.pledge p = none) {c : String}
    (hNew : ∀ q d term, (⟨p, i, out⟩ : Record).Grants q d term → d = c) :
    ∀ q d term, Granted t.journal q d term → Function.update b.pledge p (some c) q = some d := by
  intro q d term hGranted
  rw [hMove.journal_eq] at hGranted
  rcases hGranted.of_cons with hGrants | hOld
  · have hNode : p = q := hGrants.node
    rw [← hNode, hNew q d term hGrants, Function.update_self]
  · have hPledge := h.granted q d term hOld
    have hqp : q ≠ p := by
      rintro rfl
      rw [hNone] at hPledge
      cases hPledge
    rwa [Function.update_of_ne hqp]

theorem pledged_grants {b : Ballots String} (h : Pledged cfg s b) {now : Int} {call : Nat}
    {request : VoteRequest} {reply : VoteReply}
    (hMove : Moves cfg s t p (.serve now call (.vote request)) n (.replies call (.vote reply)))
    (hok : NoEviction s ⟨p, .serve now call (.vote request)⟩) (hSender : request.candidateId ≠ "")
    (hGrants : (s.nodes p).raft.Grants) (hVote : n.raft.voteFor = request.candidateId)
    (hStatus : n.raft.status ≠ .candidate) :
    ∃ b', (ballots cfg.members).Leads b b' ∧ Pledged cfg t b' := by
  have hNone := pledge_eq_none h hMove.member (.inl hGrants.2.2)
  let b' : Ballots String :=
    { b with pledge := Function.update b.pledge p (some request.candidateId) }
  have hStep : (ballots cfg.members).step b (.pledge p request.candidateId) = some b' := by
    simp [ballots, Ballots.step, hNone, b']
  refine ⟨b', .next (.refl b) hStep, whole_moves h hMove hok,
    record_pledge h hMove hVote hSender hStatus, granted_pledge h hMove hNone ?_, ?_⟩
  · rintro q d term ⟨_, _, _, _, hEq, _, rfl, _⟩
    cases hEq
    rfl
  · rw [hMove.journal_eq]
    exact fun q term hLeads => h.led q term (hLeads.of_cons Output.noConfusion)

theorem pledged_leads {b : Ballots String} (hs : (system cfg).Reaches NoEviction s)
    (h : Pledged cfg s b) {term : UInt64} (hMove : Moves cfg s t p i n (.leads term))
    (hok : NoEviction s ⟨p, i⟩) :
    ∃ b', (ballots cfg.members).Leads b b' ∧ Pledged cfg t b' := by
  obtain ⟨recent, voters, _, hSubset, hVoted, hCard⟩ := backed_of_leads hs hMove
  obtain ⟨voteCount, hDemon, _, rfl, rfl⟩ := hMove.turn.of_leads
  obtain ⟨hStatus, hVote⟩ := (settled hs hMove.member).candidate (by rw [hDemon]; rfl)
  have hSelf := selfId_eq hs hMove.member
  have hNone := pledge_eq_none h hMove.member (.inr hStatus)
  have hWhole := h.whole p hMove.member
  have hNot : p ∉ voters := fun hv => (Finset.mem_erase.mp (hSubset hv)).1 rfl
  let b₁ : Ballots String := { b with pledge := Function.update b.pledge p (some p) }
  let b₂ : Ballots String := { b₁ with leaders := p :: b.leaders }
  have hPledge : (ballots cfg.members).step b (.pledge p p) = some b₁ := by
    simp [ballots, Ballots.step, hNone, b₁]
  have hRecord := record_pledge h hMove (hVote.trans hSelf) (cfg.addr_ne p hMove.member)
    RaftStatus.noConfusion
  have hGranted : ∀ q d term, Granted t.journal q d term → b₁.pledge q = some d := by
    apply granted_pledge h hMove hNone
    rintro q d term ⟨_, _, _, _, hEq, _⟩
    cases hEq
  have hBacked : ∀ v ∈ insert p voters, b₁.pledge v = some p := by
    intro v hv
    rcases Finset.mem_insert.mp hv with rfl | hv
    · exact Function.update_self _ _ _
    · obtain ⟨call, reply, _, hAns, hTrue⟩ := hVoted v hv
      have hTo : b₁.pledge v = some (s.nodes p).raft.selfId :=
        hGranted v _ _ (granted_of_answered hAns hTrue)
      rwa [hSelf] at hTo
  have hMajority : insert p voters ⊆ cfg.members ∧
      cfg.members.card < 2 * (insert p voters).card := by
    constructor
    · apply Finset.insert_subset (Config.mem_members.mpr hMove.member)
      exact hSubset.trans ((Finset.erase_subset _ _).trans hWhole.subset)
    · rw [Finset.card_insert_of_notMem hNot, ← hWhole]
      exact hCard
  have hElect : (ballots cfg.members).step b₁ (.elect p (insert p voters)) = some b₂ :=
    if_pos ⟨hMajority.1, hMajority.2, hBacked⟩
  refine ⟨b₂, .next (.next (.refl b) hPledge) hElect, whole_moves h hMove hok, hRecord, hGranted,
    ?_⟩
  rw [hMove.journal_eq]
  rintro q term ⟨j, hj⟩
  rcases List.mem_cons.mp hj with hEq | hj
  · cases hEq
    exact List.mem_cons_self
  · exact List.mem_cons_of_mem _ (h.led q term ⟨j, hj⟩)

/-- Every other step leaves all pledges as they are. A leader yields to nobody, since the
sender of the heartbeat would be a second leader of the abstract election. -/
theorem pledged_quiet {b : Ballots String} (hs : (system cfg).Reaches NoEviction s)
    (hb : (ballots cfg.members).Reachable b) (h : Pledged cfg s b)
    (hMove : Moves cfg s t p i n out) (hok : NoEviction s ⟨p, i⟩)
    (hGrants : ∀ q c term, ¬ (⟨p, i, out⟩ : Record).Grants q c term)
    (hLeads : ∀ term, out ≠ .leads term) : Pledged cfg t b := by
  refine ⟨whole_moves h hMove hok, ?_, ?_, ?_⟩
  · apply hMove.forall_node (P := fun q n => ∀ c, b.pledge q = some c →
      n.raft.voteFor = c ∧ c ≠ "" ∧ n.raft.status ≠ .candidate)
    · exact fun q hq _ => h.record q hq
    · intro c hc
      obtain ⟨hVote, hNe, hStatus⟩ := h.record p hMove.member c hc
      have hLeader : ∀ now call request, i = .serve now call (.append request) →
          (s.nodes p).raft.status ≠ .leader := by
        rintro now call request rfl hLeader
        have hOrigin := origin_of_served hs hMove.admits
        have hSender := h.led _ _ hOrigin.caused
        have hSelf := h.led _ _ ((wired hs).led p hMove.member hLeader)
        exact hOrigin.sender_ne (leader_unique hb hSender hSelf)
      obtain ⟨hKept, hStatus'⟩ := Node.voteFor_eq_of_turn (settled hs hMove.member) hMove.turn
        (hVote ▸ hNe) hStatus (not_evicts hok hMove.turn) hLeader
      exact ⟨hKept.trans hVote, hNe, hStatus'⟩
  · rw [hMove.journal_eq]
    intro q c term hc
    exact h.granted q c term (hc.of_cons.resolve_left (hGrants q c term))
  · rw [hMove.journal_eq]
    exact fun q term hDid => h.led q term (hDid.of_cons (hLeads term))

theorem pledged_moves {b : Ballots String} (hs : (system cfg).Reaches NoEviction s)
    (hb : (ballots cfg.members).Reachable b) (h : Pledged cfg s b)
    (hMove : Moves cfg s t p i n out) (hok : NoEviction s ⟨p, i⟩) :
    ∃ b', (ballots cfg.members).Leads b b' ∧ Pledged cfg t b' := by
  have hTurn := hMove.turn
  cases hTurn with
  | @grants now call request _ _ hGrants =>
    exact pledged_grants h hMove hok (sender_ne_empty hs hMove.admits now call _ rfl) hGrants rfl
      hGrants.2.1
  | leads => exact pledged_leads hs h hMove hok
  | _ =>
    refine ⟨b, .refl b, pledged_quiet hs hb h hMove hok ?_ (fun _ => Output.noConfusion)⟩
    rintro q c term ⟨_, _, _, _, hEq, hVote, _⟩
    cases hEq <;> cases hVote

/-- Runs without evictions refine the election by pledges. -/
theorem refines_pledges (h : (system cfg).Reaches NoEviction s) :
    ∃ b, (ballots cfg.members).Reachable b ∧ Pledged cfg s b := by
  apply h.simulate
  · exact fun s hInit => ⟨⟨fun _ => none, []⟩, ⟨fun _ => rfl, rfl⟩, pledged_initial hInit⟩
  · intro s e t b hs hb hR hok hStep
    obtain ⟨n, out, hMove⟩ := moves_of_step hStep
    exact pledged_moves hs hb hR hMove hok

/-- Two nodes that have both led in a run without evictions are one. -/
theorem winner_unique (h : (system cfg).Reaches NoEviction s) {p q : String} {term term' : UInt64}
    (hLed : Did s.journal p (.leads term)) (hLed' : Did s.journal q (.leads term')) : p = q := by
  obtain ⟨b, hb, hPledged⟩ := refines_pledges h
  exact leader_unique hb (hPledged.led p _ hLed) (hPledged.led q _ hLed')

/-- In a run without evictions at most one node ever leads, at any two points of the run. -/
theorem single_leader_of_no_eviction {trace : List Cluster}
    (h : (system cfg).Run NoEviction trace) {s t : Cluster} (hs : s ∈ trace) (ht : t ∈ trace)
    {p q : String} (hp : p ∈ cfg.addrs) (hq : q ∈ cfg.addrs)
    (hLeader : (s.nodes p).raft.status = .leader) (hLeader' : (t.nodes q).raft.status = .leader) :
    p = q := by
  have hLed := (wired (h.reaches hs)).led p hp hLeader
  have hLed' := (wired (h.reaches ht)).led q hq hLeader'
  cases trace with
  | nil => cases h
  | cons last past =>
    exact winner_unique ⟨past, h⟩ (did_advances (h.advances hs) hLed)
      (did_advances (h.advances ht) hLed')

theorem single_leader_of_no_eviction_pair : ∃ trace, (system pairConfig).Run NoEviction trace ∧
    (∃ s ∈ trace, (s.nodes "b").raft.status = .leader) ∧
    ∀ s ∈ trace, ∀ p ∈ pairConfig.addrs, (s.nodes p).raft.status = .leader → p = "b" := by
  obtain ⟨trace, hRun, hAny⟩ := System.exists_run (system pairConfig) NoEviction pairCluster
    (electionEvents ++ [⟨"b", .advance 6000 1⟩])
    (P := fun trace => trace.any fun s => decide ((s.nodes "b").raft.status = .leader))
    pairCluster_initial (by decide)
  obtain ⟨s, hs, hStatus⟩ := List.any_eq_true.mp hAny
  have hLeader := of_decide_eq_true hStatus
  refine ⟨trace, hRun, ⟨s, hs, hLeader⟩, ?_⟩
  intro t ht p hp hLeader'
  exact single_leader_of_no_eviction hRun ht hs hp (by decide) hLeader' hLeader

end Cluster

end RaftCpp
