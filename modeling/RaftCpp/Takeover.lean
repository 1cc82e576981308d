import RaftCpp.Candidacy
import RaftCpp.Client
import RaftCpp.Membership

/-! # Elections that the cluster can hold

Where all calls get through, any node can be the first leader of a cluster of
any size, and when a leader is killed the others evict it and can elect any one
of them, until one node is left.
-/

namespace RaftCpp

open Transition AtMostOnce

theorem Node.stands_at_timeout {n : Node} (hDemon : n.demon = .atLock)
    (hStatus : n.raft.status = .follower) (hVote : n.raft.voteFor = "") :
    n.step (.wake (n.raft.leaderActiveTime + 5000) 200 n.raft.peers.toList) =
      some ({ n with raft := n.raft.becomeCandidate, demon := .unlocked }, .stands) := by
  simp only [step, if_pos (awake_of_atLock hDemon), wake, hStatus, followerTurn,
    if_pos (timesOut_after_patience n.raft), if_pos hVote]

namespace Cluster

variable {cfg : Config} {s t : Cluster} {p : String} {n : Node} {out : Output}

/-- Some nodes each take one step of their own, one after the other. -/
theorem leads_each (ok : Cluster → Event → Prop) {f : String → Node} {qs : List String}
    (hNodup : qs.Nodup)
    (hMem : ∀ q ∈ qs, q ∈ cfg.addrs)
    (hStep : ∀ q ∈ qs, ∃ i out,
      (∀ u : Cluster, u.nodes q = s.nodes q → u.Admits q i ∧ ok u ⟨q, i⟩) ∧
      (s.nodes q).step i = some (f q, out) ∧ (⟨q, i, out⟩ : Record).milestone? = none) :
    ∃ t, (system cfg).Advances ok s t ∧ (∀ q ∈ qs, t.nodes q = f q) ∧
      (∀ q ∉ qs, t.nodes q = s.nodes q) ∧ milestones t.journal = milestones s.journal := by
  induction qs generalizing s with
  | nil =>
    refine ⟨s, .refl s, ?_, fun _ _ => rfl, rfl⟩
    intro q hq
    cases hq
  | cons q qs ih =>
    obtain ⟨hNotMem, hNodup'⟩ := List.nodup_cons.mp hNodup
    obtain ⟨hq, hMem'⟩ := List.forall_mem_cons.mp hMem
    obtain ⟨⟨i, out, hAdmits, hFirst, hNone⟩, hRest⟩ := List.forall_mem_cons.mp hStep
    obtain ⟨hNow, hok⟩ := hAdmits s rfl
    obtain ⟨hLeads, hSelf, hOthers⟩ := advances_of_node ok hq hNow hok hFirst
    obtain ⟨t, hLeads', hDone, hKept, hQuiet⟩ := ih (s := s.after q i (f q) out) hNodup' hMem' (by
      intro r hr
      rw [hOthers r (fun hrq => hNotMem (hrq ▸ hr))]
      exact hRest r hr)
    refine ⟨t, hLeads.trans hLeads', ?_, ?_, hQuiet.trans (milestones_of_none _ hNone)⟩
    · refine List.forall_mem_cons.mpr ⟨?_, hDone⟩
      rw [hKept q hNotMem, hSelf]
    · intro r hr
      rw [List.mem_cons, not_or] at hr
      rw [hKept r hr.2, hOthers r hr.1]

/-- A node between two turns that counts on exactly the nodes in `live`. -/
structure Idle (live : Finset String) (n : Node) : Prop where
  demon : n.demon = .unlocked
  isDead : n.raft.isDead = false
  peers : n.raft.peers = live

theorem Idle.test {live : Finset String} (h : Idle live n) :
    n.step .test = some ({ n with demon := .atLock }, .silent) :=
  Node.step_test h.demon h.isDead

/-- Nobody leads and no vote is on record. -/
structure Open (live : Finset String) (terms : String → UInt64) (s : Cluster) : Prop where
  idle : ∀ q ∈ live, Idle live (s.nodes q)
  follower : ∀ q ∈ live, (s.nodes q).raft.status = .follower
  voteFor : ∀ q ∈ live, (s.nodes q).raft.voteFor = ""
  term : ∀ q ∈ live, (s.nodes q).raft.term = terms q

/-- The record of every other node names `p`. -/
structure Behind (live : Finset String) (terms : String → UInt64) (p : String) (s : Cluster) :
    Prop where
  idle : ∀ q ∈ live, q ≠ p → Idle live (s.nodes q)
  follower : ∀ q ∈ live, q ≠ p → (s.nodes q).raft.status = .follower
  voteFor : ∀ q ∈ live, q ≠ p → (s.nodes q).raft.voteFor = p
  term : ∀ q ∈ live, q ≠ p → (s.nodes q).raft.term = terms q

structure Led (live : Finset String) (terms : String → UInt64) (p : String) (s : Cluster) :
    Prop extends Behind live terms p s where
  leaderIdle : Idle live (s.nodes p)
  leader : (s.nodes p).raft.status = .leader
  leaderTerm : (s.nodes p).raft.term = terms p + 1

section Succession

variable {live : Finset String} {terms : String → UInt64}

theorem exists_open (h : (system cfg).initial s) :
    ∃ t, (system cfg).Advances NoTurn s t ∧ Open cfg.members (fun _ => -1) t ∧
      milestones t.journal = [] := by
  obtain ⟨t, hLeads, hNodes, -, hQuiet⟩ := leads_each NoTurn (s := s) (f := fun q =>
    { s.nodes q with demon := .unlocked, channels := (s.nodes q).raft.openChannels })
    cfg.nodup (fun q hq => hq) (by
      intro q hq
      obtain ⟨boot, peerId, hEq⟩ := initial_node h hq
      rw [hEq]
      exact ⟨.launch, .silent, fun _ _ => ⟨trivial, trivial⟩, rfl, rfl⟩)
  have hNew : ∀ q ∈ cfg.members, ∃ boot peerId, t.nodes q =
      { Node.new boot cfg.addrs peerId with
        demon := .unlocked
        channels := (Raft.new boot cfg.addrs peerId).openChannels } := by
    intro q hq
    obtain ⟨boot, peerId, hEq⟩ := initial_node h (Config.mem_members.mp hq)
    refine ⟨boot, peerId, ?_⟩
    rw [hNodes q (Config.mem_members.mp hq), hEq]
    rfl
  rw [h.2.1] at hQuiet
  refine ⟨t, hLeads, ⟨?_, ?_, ?_, ?_⟩, hQuiet⟩
  all_goals
    intro q hq
    obtain ⟨boot, peerId, hEq⟩ := hNew q hq
    rw [hEq]
  · exact ⟨rfl, rfl, rfl⟩
  · rfl
  · rfl
  · rfl

theorem electorate_congr (hSelf : (t.nodes p).raft.peers = (s.nodes p).raft.peers)
    (hOthers : ∀ q, q ≠ p → t.nodes q = s.nodes q) (heard : String → Bool) :
    t.electorate p heard = s.electorate p heard := by
  rw [electorate, electorate, hSelf]
  apply Finset.filter_congr
  intro q hq
  exact answers_congr (hOthers q (Finset.ne_of_mem_erase hq)) heard

theorem outcome_congr (hSelf : (t.nodes p).raft.peers = (s.nodes p).raft.peers)
    (hOthers : ∀ q, q ≠ p → t.nodes q = s.nodes q) (heard : String → Bool) :
    t.outcome p heard = s.outcome p heard := by
  refine if_congr ?_ rfl rfl
  rw [electorate_congr hSelf hOthers, Raft.HasQuorum, hSelf]
  rfl

theorem exists_tested (hp : p ∈ cfg.addrs) (hIdle : Idle live (s.nodes p)) :
    ∃ t, (system cfg).Advances Still s t ∧ t.nodes p = { s.nodes p with demon := .atLock } ∧
      (∀ q, q ≠ p → t.nodes q = s.nodes q) ∧ milestones t.journal = milestones s.journal := by
  have hAny : s.Admits p .test := trivial
  obtain ⟨hTest, hSelf, hOthers⟩ := advances_of_node Still hp hAny trivial hIdle.test
  exact ⟨_, hTest, hSelf, hOthers, rfl⟩

theorem exists_stood (hp : p ∈ cfg.addrs) (hIdle : Idle live (s.nodes p))
    (hStatus : (s.nodes p).raft.status = .follower) (hVote : (s.nodes p).raft.voteFor = "") :
    ∃ t, (system cfg).Advances Still s t ∧
      t.nodes p = { s.nodes p with raft := (s.nodes p).raft.becomeCandidate } ∧
      (∀ q, q ≠ p → t.nodes q = s.nodes q) ∧ milestones t.journal = milestones s.journal := by
  obtain ⟨u, hTest, hTested, hSame, hQuiet⟩ := exists_tested hp hIdle
  have hStands := Node.stands_at_timeout (n := u.nodes p) (by rw [hTested])
    (by rw [hTested]; exact hStatus) (by rw [hTested]; exact hVote)
  have hStill : Still u ⟨p, .wake ((u.nodes p).raft.leaderActiveTime + 5000) 200
      (u.nodes p).raft.peers.toList⟩ := by
    rw [Still, hTested, hStatus]
    exact RaftStatus.noConfusion
  have hAny : u.Admits p (.wake ((u.nodes p).raft.leaderActiveTime + 5000) 200
      (u.nodes p).raft.peers.toList) := trivial
  obtain ⟨hFirst, hSelf, hOthers⟩ := advances_of_node Still hp hAny hStill hStands
  refine ⟨_, hTest.trans hFirst, ?_, fun q hq => (hOthers q hq).trans (hSame q hq), hQuiet⟩
  rw [hSelf, hTested, ← hIdle.demon]

/-- A follower stands at its next timeout and has its candidacy at once. -/
theorem exists_election (hs : (system cfg).Reachable s) (hp : p ∈ cfg.addrs)
    (hIdle : Idle live (s.nodes p)) (hStatus : (s.nodes p).raft.status = .follower)
    (hVote : (s.nodes p).raft.voteFor = "") (heard : String → Bool) :
    ∃ t, (system cfg).Advances Still s t ∧
      milestones t.journal = s.outcome p heard ++ .campaigns p :: milestones s.journal ∧
      t.nodes p = ({ s.nodes p with raft := (s.nodes p).raft.becomeCandidate.campaign } :
        Node).conclude 0 (1 + (s.electorate p heard).card) ∧
      ∀ q, q ≠ p → t.nodes q = if q ∈ s.electorate p heard then
        { s.nodes q with raft := (s.nodes q).raft.recordVote p 0 } else s.nodes q := by
  obtain ⟨u, hsu, hStood, hSame, hQuiet⟩ := exists_stood hp hIdle hStatus hVote
  have hIdle' : Idle live (u.nodes p) := by
    rw [hStood]
    exact ⟨hIdle.demon, hIdle.isDead, hIdle.peers⟩
  obtain ⟨v, huv, hTested, hSame', hQuiet'⟩ := exists_tested hp hIdle'
  rw [hStood] at hTested
  have hOthers : ∀ q, q ≠ p → v.nodes q = s.nodes q :=
    fun q hq => (hSame' q hq).trans (hSame q hq)
  have hCandidate : (v.nodes p).raft.status = .candidate := by
    rw [hTested]
    rfl
  have hStill : Still v ⟨p, .wake 0 200 (v.nodes p).raft.peers.toList⟩ := by
    rw [Still, hCandidate]
    exact RaftStatus.noConfusion
  have hsv := hsu.trans huv
  obtain ⟨w, t, hStep, hLeads, hMilestones, hDone, hVoters⟩ :=
    exists_candidacy (hs.leads hsv.leads) hp (Node.awake_of_atLock (by rw [hTested])) hCandidate 0
      heard
  have hPeers : (v.nodes p).raft.peers = (s.nodes p).raft.peers := by
    rw [hTested]
    rfl
  rw [electorate_congr hPeers hOthers] at hDone hVoters
  have hRest := hLeads.mono (fun _ _ hNoTurn => hNoTurn.still)
  refine ⟨t, (hsv.next hStill hStep).trans hRest, ?_, ?_, ?_⟩
  · rw [hMilestones, outcome_congr hPeers hOthers, hQuiet', hQuiet]
  · rw [hDone, hTested]
    rfl
  · intro q hq
    rw [hVoters q hq, hOthers q hq]

theorem Open.electorate_eq (h : Open live terms s) (hp : p ∈ live) :
    s.electorate p (fun _ => true) = live.erase p := by
  rw [electorate, (h.idle p hp).peers]
  apply Finset.filter_true_of_mem
  intro q hq
  have hMem := Finset.mem_of_mem_erase hq
  refine ⟨rfl, by rw [(h.idle q hMem).demon]; rfl, ?_, ?_, ?_, h.voteFor q hMem⟩
  all_goals
    rw [h.follower q hMem]
    exact RaftStatus.noConfusion

theorem exists_led (hs : (system cfg).Reachable s) (h : Open live terms s)
    (hLive : live ⊆ cfg.members) (hp : p ∈ live) :
    ∃ t, (system cfg).Advances Still s t ∧ Led live terms p t ∧
      (∀ q ∉ live, t.nodes q = s.nodes q) ∧
      milestones t.journal = .wins p :: .campaigns p :: milestones s.journal := by
  have hMem : p ∈ cfg.addrs := Config.mem_members.mp (hLive hp)
  have hIdle := h.idle p hp
  obtain ⟨t, hLeads, hMilestones, hDone, hVoters⟩ := exists_election hs hMem hIdle
    (h.follower p hp) (h.voteFor p hp) (fun _ => true)
  have hQuorum : (s.nodes p).raft.HasQuorum (1 + (live.erase p).card) := by
    have hCard := Finset.card_erase_of_mem hp
    have hPos := Finset.card_pos.mpr ⟨p, hp⟩
    rw [Raft.HasQuorum, hIdle.peers, hCard]
    omega
  rw [outcome, h.electorate_eq hp, if_pos hQuorum] at hMilestones
  rw [h.electorate_eq hp] at hDone hVoters
  have hWins : ({ s.nodes p with raft := (s.nodes p).raft.becomeCandidate.campaign } :
      Node).raft.HasQuorum (1 + (live.erase p).card) := hQuorum
  rw [Node.conclude, if_pos hWins] at hDone
  have hVoter : ∀ q ∈ live, q ≠ p →
      t.nodes q = { s.nodes q with raft := (s.nodes q).raft.recordVote p 0 } := by
    intro q hq hqp
    rw [hVoters q hqp, if_pos (Finset.mem_erase.mpr ⟨hqp, hq⟩)]
  refine ⟨t, hLeads, ?_, ?_, hMilestones⟩
  · refine ⟨⟨?_, ?_, ?_, ?_⟩, ?_, ?_, ?_⟩
    · intro q hq hqp
      rw [hVoter q hq hqp]
      exact ⟨(h.idle q hq).demon, (h.idle q hq).isDead, (h.idle q hq).peers⟩
    · intro q hq hqp
      rw [hVoter q hq hqp]
      exact h.follower q hq
    · intro q hq hqp
      rw [hVoter q hq hqp]
      rfl
    · intro q hq hqp
      rw [hVoter q hq hqp]
      exact h.term q hq
    · rw [hDone]
      exact ⟨rfl, hIdle.isDead, hIdle.peers⟩
    · rw [hDone]
      rfl
    · rw [hDone]
      change (s.nodes p).raft.term + 1 = terms p + 1
      rw [h.term p hp]
  · intro q hq
    have hqp : q ≠ p := fun hEq => hq (hEq ▸ hp)
    have hNot : q ∉ live.erase p := fun hErase => hq (Finset.mem_of_mem_erase hErase)
    rw [hVoters q hqp, if_neg hNot]

theorem exists_deserted (h : Behind live terms p s) (hLive : live ⊆ cfg.members) (hp : p ∈ live) :
    ∃ t, (system cfg).Advances Still s t ∧ Open (live.erase p) terms t ∧
      (∀ q ∉ live.erase p, t.nodes q = s.nodes q) ∧
      milestones t.journal = milestones s.journal := by
  have hAddrs : ∀ q ∈ (live.erase p).toList, q ∈ cfg.addrs := by
    intro q hq
    exact Config.mem_members.mp (hLive (Finset.mem_of_mem_erase (Finset.mem_toList.mp hq)))
  obtain ⟨u, hsu, hTested, hSame, hQuiet⟩ := leads_each Still (s := s)
    (f := fun q => { s.nodes q with demon := .atLock }) (live.erase p).nodup_toList hAddrs (by
      intro q hq
      obtain ⟨hqp, hq⟩ := Finset.mem_erase.mp (Finset.mem_toList.mp hq)
      exact ⟨.test, .silent, fun _ _ => ⟨trivial, trivial⟩, (h.idle q hq hqp).test, rfl⟩)
  obtain ⟨t, hut, hEvicted, hKept, hQuiet'⟩ := leads_each Still (s := u)
    (f := fun q => { s.nodes q with
      raft := (s.nodes q).raft.evict
      demon := .unlocked
      channels := UnorderedMap.erase (s.nodes q).channels (s.nodes q).raft.voteFor })
    (live.erase p).nodup_toList hAddrs (by
      intro q hMem
      obtain ⟨hqp, hq⟩ := Finset.mem_erase.mp (Finset.mem_toList.mp hMem)
      have hVote : (s.nodes q).raft.voteFor ≠ "" := by
        rw [h.voteFor q hq hqp]
        exact cfg.addr_ne p (Config.mem_members.mp (hLive hp))
      rw [hTested q hMem]
      refine ⟨_, _, ?_, Node.evicts_at_timeout rfl (h.follower q hq hqp) hVote, ?_⟩
      · intro v hSame
        refine ⟨trivial, ?_⟩
        rw [Still, hSame, h.follower q hq hqp]
        exact RaftStatus.noConfusion
      · rfl)
  have hOthers : ∀ q ∉ live.erase p, t.nodes q = s.nodes q := by
    intro q hq
    have hNot : q ∉ (live.erase p).toList := fun hMem => hq (Finset.mem_toList.mp hMem)
    exact (hKept q hNot).trans (hSame q hNot)
  refine ⟨t, hsu.trans hut, ⟨?_, ?_, ?_, ?_⟩, hOthers, hQuiet'.trans hQuiet⟩
  all_goals
    intro q hq
    rw [hEvicted q (Finset.mem_toList.mpr hq)]
    obtain ⟨hqp, hq⟩ := Finset.mem_erase.mp hq
  · refine ⟨rfl, (h.idle q hq hqp).isDead, ?_⟩
    change (s.nodes q).raft.peers.erase (s.nodes q).raft.voteFor = live.erase p
    rw [(h.idle q hq hqp).peers, h.voteFor q hq hqp]
  · exact h.follower q hq hqp
  · rfl
  · exact h.term q hq hqp

theorem Behind.congr (h : Behind live terms p s) (hSame : ∀ q, q ≠ p → t.nodes q = s.nodes q) :
    Behind live terms p t := by
  constructor
  all_goals
    intro q hq hqp
    rw [hSame q hqp]
  · exact h.idle q hq hqp
  · exact h.follower q hq hqp
  · exact h.voteFor q hq hqp
  · exact h.term q hq hqp

/-- The leader is killed before the others evict it. -/
theorem exists_crashed (h : Led live terms p s) (hLive : live ⊆ cfg.members) (hp : p ∈ live) :
    ∃ t, (system cfg).Advances Still s t ∧ Open (live.erase p) terms t ∧
      (t.nodes p).raft.status = .dead ∧ (∀ q ∉ live, t.nodes q = s.nodes q) ∧
      milestones t.journal = [.dies p] ++ milestones s.journal := by
  have hMem : p ∈ cfg.addrs := Config.mem_members.mp (hLive hp)
  have hKill : (s.nodes p).step .kill =
      some ({ s.nodes p with raft := (s.nodes p).raft.kill }, .silent) := rfl
  have hAny : s.Admits p .kill := trivial
  obtain ⟨hFirst, hFlag, hOthers⟩ :=
    advances_of_node Still hMem hAny trivial hKill
  set u := s.after p .kill _ _ with hu
  have hKilled : (u.nodes p).step .killed =
      some ({ s.nodes p with raft := (s.nodes p).raft.kill.killed }, .silent) := by
    rw [hFlag]
    exact if_pos ⟨h.leaderIdle.demon, rfl⟩
  have hAny' : u.Admits p .killed := trivial
  obtain ⟨hSecond, hDead, hOthers'⟩ :=
    advances_of_node Still hMem hAny' trivial hKilled
  set v := u.after p .killed _ _ with hv
  have hSame : ∀ q, q ≠ p → v.nodes q = s.nodes q :=
    fun q hq => (hOthers' q hq).trans (hOthers q hq)
  obtain ⟨t, hThird, hOpen, hKept, hQuiet⟩ := exists_deserted (h.toBehind.congr hSame) hLive hp
  refine ⟨t, (hFirst.trans hSecond).trans hThird, hOpen, ?_, ?_, hQuiet⟩
  · rw [hKept p (Finset.notMem_erase _ _), hDead]
    rfl
  · intro q hq
    have hqp : q ≠ p := fun hEq => hq (hEq ▸ hp)
    rw [hKept q (fun hMem => hq (Finset.mem_of_mem_erase hMem)), hSame q hqp]

/-- Leaders follow each other, each of them elected by all that were left. What becomes of
one after its election, in milestones `F`, is up to `hEnd`, as long as the others evict it. -/
theorem exists_succession {P : Node → Prop} {F : String → List Milestone}
    (hEnd : ∀ (live : Finset String) (s : Cluster) (v : String), Led live terms v s →
      live ⊆ cfg.members → v ∈ live → ∃ t, (system cfg).Advances Still s t ∧
        Open (live.erase v) terms t ∧ P (t.nodes v) ∧ (∀ q ∉ live, t.nodes q = s.nodes q) ∧
        milestones t.journal = F v ++ milestones s.journal)
    (hs : (system cfg).Reachable s) (h : Open live terms s) (hLive : live ⊆ cfg.members)
    {heads : List String} (hNodup : heads.Nodup) (hHeads : ∀ v ∈ heads, v ∈ live) :
    ∃ t, (system cfg).Advances Still s t ∧ Open (live \ heads.toFinset) terms t ∧
      (∀ v ∈ heads, P (t.nodes v)) ∧ (∀ q ∉ live, t.nodes q = s.nodes q) ∧
      milestones t.journal =
        (heads.reverse.flatMap fun v => F v ++ [.wins v, .campaigns v]) ++
          milestones s.journal := by
  induction heads generalizing s live with
  | nil =>
    refine ⟨s, .refl s, by simpa using h, ?_, fun _ _ => rfl, rfl⟩
    intro v hv
    cases hv
  | cons v heads ih =>
    obtain ⟨hNotMem, hNodup'⟩ := List.nodup_cons.mp hNodup
    obtain ⟨hv, hRest⟩ := List.forall_mem_cons.mp hHeads
    obtain ⟨a, hsa, hLed, hKept, hWon⟩ := exists_led hs h hLive hv
    have ha := hs.leads hsa.leads
    obtain ⟨b, hab, hOpen, hGone, hKept', hFate⟩ := hEnd live a v hLed hLive hv
    obtain ⟨t, hbt, hLast, hOthers, hKept'', hLater⟩ := ih (ha.leads hab.leads) hOpen
      ((Finset.erase_subset _ _).trans hLive) hNodup' (by
        intro w hw
        exact Finset.mem_erase.mpr ⟨fun hEq => hNotMem (hEq ▸ hw), hRest w hw⟩)
    refine ⟨t, (hsa.trans hab).trans hbt, ?_, ?_, ?_, ?_⟩
    · rw [List.toFinset_cons, Finset.sdiff_insert, ← Finset.erase_sdiff_comm]
      exact hLast
    · refine List.forall_mem_cons.mpr ⟨?_, hOthers⟩
      rw [hKept'' v (Finset.notMem_erase _ _)]
      exact hGone
    · intro q hq
      have hErase : q ∉ live.erase v := fun hMem => hq (Finset.mem_of_mem_erase hMem)
      rw [hKept'' q hErase, hKept' q hq, hKept q hq]
    · rw [hLater, hFate, hWon]
      simp

end Succession

/-- All calls get through. -/
def ask (s : Cluster) (q : String) : Ask := ⟨q, (s.nodes q).raft, true⟩

/-- One leader among followers shows as such, wherever it stands in the list. -/
theorem survey_of_leader {ids : List String} (hNodup : ids.Nodup) (hp : p ∈ ids)
    (hLeader : (s.nodes p).raft.status = .leader)
    (hOthers : ∀ q ∈ ids, q ≠ p → (s.nodes q).raft.status = .follower) :
    survey (ids.map s.ask) = { leader := 1, follower := ids.length - 1 } := by
  have hStatus : ∀ q ∈ ids, (s.nodes q).raft.status = if q = p then .leader else .follower := by
    intro q hq
    split
    · rename_i hEq
      rw [hEq, hLeader]
    · exact hOthers q hq ‹_›
  have hKnown : ∀ a ∈ ids.map s.ask, a.raft.status ≠ .unknown := by
    intro a ha
    obtain ⟨q, hq, rfl⟩ := List.mem_map.mp ha
    rw [ask, hStatus q hq]
    split <;> exact RaftStatus.noConfusion
  have hOne : tally .leader (ids.map s.ask) = 1 := by
    rw [tally, List.countP_map, ← List.count_eq_one_of_mem hNodup hp]
    apply List.countP_congr
    intro q hq
    by_cases hqp : q = p <;> simp [ask, Ask.Returns, hStatus q hq, hqp, hLeader]
  have hNone : tally .candidate (ids.map s.ask) = 0 := by
    rw [tally, List.countP_map, List.countP_eq_zero]
    intro q hq
    by_cases hqp : q = p <;> simp [ask, hStatus q hq, hqp, hLeader]
  have hTotal := tally_total hKnown
  rw [hOne, hNone, List.length_map] at hTotal
  rw [survey_eq hKnown, hOne, hNone]
  congr 1
  omega

/-- A cluster of any size can go on through any number of crashes, with no majority of the
nodes it began with: each of `victims` in turn stands, is elected and is dead before the next
one stands, and at the end any `p` of the others stands and leads the rest, which count on
each other only. Nobody else has stood meanwhile. The tests, if they then reach every node
that is still there, count one leader and for the others only followers. -/
theorem survives_crashes (h : (system cfg).initial s) {victims : List String}
    (hNodup : (p :: victims).Nodup) (hMem : ∀ v ∈ p :: victims, v ∈ cfg.addrs) :
    ∃ t, (system cfg).Advances Still s t ∧
      (milestones t.journal).reverse =
        (victims.flatMap fun v => [.campaigns v, .wins v, .dies v]) ++ [.campaigns p, .wins p] ∧
      (∀ v ∈ victims, (t.nodes v).raft.status = .dead) ∧
      (t.nodes p).raft.status = .leader ∧ (t.nodes p).raft.term = 0 ∧
      (∀ q ∈ cfg.addrs, q ∉ victims → (t.nodes q).raft.peers = cfg.members \ victims.toFinset ∧
        (q ≠ p → (t.nodes q).raft.status = .follower ∧ (t.nodes q).raft.voteFor = p)) ∧
      survey ((cfg.addrs.filter fun q => q ∉ victims).map t.ask) =
        { leader := 1, follower := cfg.addrs.length - victims.length - 1 } := by
  obtain ⟨hNotMem, hNodup'⟩ := List.nodup_cons.mp hNodup
  obtain ⟨hp, hVictims⟩ := List.forall_mem_cons.mp hMem
  have hs : (system cfg).Reachable s := .start h
  obtain ⟨a, hLaunched, hOpen, hStart⟩ := exists_open h
  have hsa := hLaunched.mono (fun _ _ hNoTurn => NoTurn.still hNoTurn)
  obtain ⟨b, hab, hRest, hDead, -, hStory⟩ := exists_succession
    (P := fun n : Node => n.raft.status = .dead) (F := fun v => [.dies v])
    (fun _ _ _ hLed hLive hv => exists_crashed hLed hLive hv) (hs.leads hsa.leads) hOpen
    (Finset.Subset.refl _) hNodup' (fun v hv => Config.mem_members.mpr (hVictims v hv))
  have hLive {q : String} : q ∈ cfg.members \ victims.toFinset ↔ q ∈ cfg.addrs ∧ q ∉ victims := by
    rw [Finset.mem_sdiff, Config.mem_members, List.mem_toFinset]
  obtain ⟨t, hbt, hLed, hKept, hWon⟩ := exists_led ((hs.leads hsa.leads).leads hab.leads) hRest
    Finset.sdiff_subset (hLive.mpr ⟨hp, hNotMem⟩)
  refine ⟨t, (hsa.trans hab).trans hbt, ?_, ?_, hLed.leader, hLed.leaderTerm, ?_, ?_⟩
  · rw [hWon, hStory, hStart]
    simp [List.reverse_flatMap, Function.comp_def]
  · intro v hv
    rw [hKept v (fun hMem => (hLive.mp hMem).2 hv)]
    exact hDead v hv
  · intro q hq hNot
    have hMem := hLive.mpr ⟨hq, hNot⟩
    refine ⟨?_, fun hqp => ⟨hLed.follower q hMem hqp, hLed.voteFor q hMem hqp⟩⟩
    by_cases hqp : q = p
    · rw [hqp]
      exact hLed.leaderIdle.peers
    · exact (hLed.idle q hMem hqp).peers
  · have hMember {q : String} : q ∈ cfg.addrs.filter (fun q => q ∉ victims) ↔
        q ∈ cfg.addrs ∧ q ∉ victims := by
      rw [List.mem_filter, decide_eq_true_eq]
    rw [survey_of_leader (cfg.nodup.filter _) (hMember.mpr ⟨hp, hNotMem⟩) hLed.leader
      (fun q hq => hLed.follower q (hLive.mpr (hMember.mp hq)))]
    congr 2
    rw [← List.toFinset_card_of_nodup (cfg.nodup.filter _), ← List.toFinset_card_of_nodup cfg.nodup,
      ← List.toFinset_card_of_nodup hNodup', ← Finset.card_sdiff_of_subset]
    · congr 1
      ext q
      rw [List.mem_toFinset, hMember, Finset.mem_sdiff, List.mem_toFinset, List.mem_toFinset]
    · intro v hv
      rw [List.mem_toFinset] at hv ⊢
      exact hVictims v hv

/-- Two leaders of four nodes crash, and the last node leads the one that is left. -/
theorem survives_crashes_quad : ∃ t, (system quadConfig).Advances Still quadCluster t ∧
    (milestones t.journal).reverse =
      [.campaigns "a", .wins "a", .dies "a", .campaigns "c", .wins "c", .dies "c",
        .campaigns "d", .wins "d"] ∧
    (t.nodes "a").raft.status = .dead ∧ (t.nodes "c").raft.status = .dead ∧
    (t.nodes "d").raft.status = .leader ∧ (t.nodes "d").raft.peers = {"b", "d"} ∧
    survey [t.ask "b", t.ask "d"] = { leader := 1, follower := 1 } := by
  obtain ⟨t, hst, hStory, hDead, hLeader, -, hPeers, hSurvey⟩ :=
    survives_crashes quadCluster_initial (by decide : ["d", "a", "c"].Nodup) (by decide)
  refine ⟨t, hst, hStory, hDead "a" (by decide), hDead "c" (by decide), hLeader, ?_, hSurvey⟩
  rw [(hPeers "d" (by decide) (by decide)).1]
  decide

end Cluster

end RaftCpp
