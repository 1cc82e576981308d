import RaftCpp.Allegiance

/-! # Who is evicted, and by whom

A timed-out follower evicts whomever its vote record names. The record names a
node that has led or to which the follower granted its vote; it names the
follower itself only after a leader has had a heartbeat rejected, the one way
out of leadership that leaves the record as it was. No handler asks whether a
sender is still a peer, so an evicted node can come back onto the record.
-/

namespace RaftCpp

open Transition AtMostOnce

/-- The node is among its own peers and will not evict itself at its next timeout. -/
structure Raft.Member (r : Raft) : Prop where
  mem : r.selfId ∈ r.peers
  voteFor_ne : r.status = .follower → r.voteFor ≠ r.selfId

namespace Node

variable {n n' : Node} {i : Input} {out : Output}

theorem member_turn (h : n.raft.Member) (hTurn : Turn n i n' out) (hSelf : n.raft.selfId ≠ "")
    (hSender : ∀ now call request, i = .serve now call request → request.sender ≠ n.raft.selfId)
    (hDeposed : out ≠ .deposed) : n'.raft.Member := by
  cases hTurn with
  | evicts _ hStatus =>
    have hNe := h.voteFor_ne hStatus
    exact ⟨Finset.mem_erase.mpr ⟨hNe.symm, h.mem⟩, fun _ => hSelf.symm⟩
  | stands | leads | killed => exact ⟨h.mem, RaftStatus.noConfusion⟩
  | campaigns _ hStatus => exact ⟨h.mem, fun hs => by cases hStatus.symm.trans hs⟩
  | loses => exact ⟨h.mem, fun _ => hSelf.symm⟩
  | deposed => exact absurd rfl hDeposed
  | @grants now call request => exact ⟨h.mem, fun _ => hSender now call (.vote request) rfl⟩
  | @yields now call request => exact ⟨h.mem, fun _ => hSender now call (.append request) rfl⟩
  | _ => exact ⟨h.mem, h.voteFor_ne⟩

theorem step_test (hDemon : n.demon = .unlocked) (hAlive : n.raft.isDead = false) :
    n.step .test = some ({ n with demon := .atLock }, .silent) := if_pos ⟨hDemon, hAlive⟩

theorem awake_of_atLock (hDemon : n.demon = .atLock) : n.Awake 200 n.raft.peers.toList :=
  ⟨hDemon, by omega, by omega, Finset.nodup_toList _, Finset.toList_toFinset _⟩

theorem timesOut_after_patience (r : Raft) : r.TimesOut (r.leaderActiveTime + 5000) 200 := by
  rw [Raft.TimesOut, sub_add_cancel_left, abs_neg]
  decide

theorem evicts_at_timeout (hDemon : n.demon = .atLock) (hStatus : n.raft.status = .follower)
    (hVote : n.raft.voteFor ≠ "") :
    n.step (.wake (n.raft.leaderActiveTime + 5000) 200 n.raft.peers.toList) =
      some ({ n with
        raft := n.raft.evict
        demon := .unlocked
        channels := UnorderedMap.erase n.channels n.raft.voteFor }, .evicts n.raft.voteFor) := by
  simp only [step, if_pos (awake_of_atLock hDemon), wake, hStatus, followerTurn,
    if_pos (timesOut_after_patience n.raft), if_neg hVote, evict_eq]

end Node

namespace Cluster

variable {cfg : Config} {s t : Cluster} {ok : Cluster → Event → Prop}
  {p q : String} {i : Input} {n : Node} {out : Output}

/-- A leader is told that a peer has rejected its heartbeat. -/
def Rejected (_ : Cluster) (e : Event) : Prop :=
  match e.input with
  | .returned _ (some (.append reply)) => reply.success = false
  | _ => False

instance (s : Cluster) : (e : Event) → Decidable (Rejected s e)
  | ⟨_, .returned _ (some (.append reply))⟩ =>
    inferInstanceAs (Decidable (reply.success = false))
  | ⟨_, .returned _ (some (.vote _))⟩ | ⟨_, .returned _ none⟩ | ⟨_, .launch⟩ | ⟨_, .test⟩
  | ⟨_, .wake _ _ _⟩ | ⟨_, .advance _ _⟩ | ⟨_, .serve _ _ _⟩ | ⟨_, .kill⟩ | ⟨_, .killed⟩ =>
    isFalse id

def NoRejection (s : Cluster) (e : Event) : Prop := ¬ Rejected s e

instance (s : Cluster) (e : Event) : Decidable (NoRejection s e) :=
  inferInstanceAs (Decidable (¬ _))

theorem not_deposed (hok : NoRejection s ⟨p, i⟩) (hTurn : Node.Turn (s.nodes p) i n out) :
    out ≠ .deposed := by
  rintro rfl
  cases hTurn with
  | deposed _ hSuccess => exact hok hSuccess

theorem member (h : (system cfg).Reaches NoRejection s) :
    ∀ p ∈ cfg.addrs, (s.nodes p).raft.Member := by
  apply invariant_of_moves _ _ h
  · intro s hInit p hp
    obtain ⟨boot, peerId, hEq⟩ := initial_node hInit hp
    rw [hEq]
    have hMem : cfg.addrs.get peerId ∈ cfg.addrs := List.get_mem _ _
    exact ⟨List.mem_toFinset.mpr hMem, fun _ => (cfg.addr_ne _ hMem).symm⟩
  · intro s t p i n out hs ih hok hMove
    apply hMove.forall_node (P := fun _ n => n.raft.Member) (fun q hq _ => ih q hq)
    have hSelf := selfId_eq hs hMove.member
    apply Node.member_turn (ih p hMove.member) hMove.turn
    · rw [hSelf]
      exact cfg.addr_ne p hMove.member
    · rintro now call request rfl
      rw [hSelf]
      exact (origin_of_served hs hMove.admits).sender_ne
    · exact not_deposed hok hMove.turn

/-- The condition is no stronger than it has to be: after a rejection, the next timeout of
a leader that is still alive makes it evict itself. -/
theorem evicts_self_after_rejection (hs : (system cfg).Reaches ok s)
    (hMove : Moves cfg s t p i n .deposed) (hAlive : n.raft.isDead = false) :
    ∃ u now draw order v, (system cfg).step t ⟨p, .test⟩ = some u ∧
      (system cfg).step u ⟨p, .wake now draw order⟩ = some v ∧ p ∉ (v.nodes p).raft.peers := by
  have hVote : n.raft.voteFor = p ∧ n.demon = .unlocked ∧ n.raft.status = .follower := by
    have hTurn := hMove.turn
    cases hTurn with
    | deposed hDemon =>
      have hLeader := (settled hs hMove.member).leader (by rw [hDemon]; rfl)
      exact ⟨hLeader.2.trans (selfId_eq hs hMove.member), rfl, rfl⟩
  obtain ⟨hFor, hDemon, hStatus⟩ := hVote
  have hTest : (t.nodes p).step .test = some ({ n with demon := .atLock }, .silent) := by
    rw [hMove.nodes_self]
    exact Node.step_test hDemon hAlive
  have hAny : t.Admits p .test := trivial
  have hTested := moves_of_node hMove.member hAny hTest
  have hWake := Node.evicts_at_timeout (n := { n with demon := .atLock }) rfl hStatus
    (hFor ▸ cfg.addr_ne p hMove.member)
  rw [← hTested.nodes_self] at hWake
  refine ⟨_, _, _, _, _, step_of_node hMove.member hAny hTest,
    step_of_node hMove.member trivial hWake, ?_⟩
  simp [after, Raft.evict, hFor]

/-- As long as no leader has a heartbeat rejected, no node evicts itself. -/
theorem self_mem_peers (h : (system cfg).Reaches NoRejection s) (hp : p ∈ cfg.addrs) :
    (s.nodes p).raft.selfId ∈ (s.nodes p).raft.peers ∧
      ¬ ((s.nodes p).raft.status = .follower ∧
        (s.nodes p).raft.voteFor = (s.nodes p).raft.selfId) :=
  ⟨(member h p hp).mem, fun hEvict => (member h p hp).voteFor_ne hEvict.1 hEvict.2⟩

theorem self_mem_peers_pair : ∃ s, (system pairConfig).Reaches NoRejection s ∧
    (s.nodes "a").raft.peers = {"a"} ∧
    (s.nodes "a").raft.selfId ∈ (s.nodes "a").raft.peers ∧
      ¬ ((s.nodes "a").raft.status = .follower ∧
        (s.nodes "a").raft.voteFor = (s.nodes "a").raft.selfId) := by
  obtain ⟨s, hs, hPeers⟩ := System.exists_reaches (system pairConfig) NoRejection pairCluster
    takeoverEvents (P := fun s => decide ((s.nodes "a").raft.peers = {"a"}))
    pairCluster_initial (by decide)
  exact ⟨s, hs, of_decide_eq_true hPeers, self_mem_peers hs (by decide)⟩

/-- The second node wins, the first one rejects its heartbeat, and the second one evicts
the node named in its vote record, which is itself. -/
def rejectionEvents : List Event :=
  electionEvents ++ [⟨"b", .advance 6000 1⟩, ⟨"b", .test⟩, ⟨"b", .wake 6000 200 ["a", "b"]⟩,
    ⟨"b", .advance 6000 1⟩,
    ⟨"a", .serve 6000 1 (.append { term? := some 0, candidateId? := some "b" })⟩,
    ⟨"b", .returned 6000 (some (.append ⟨some (-1), some false⟩))⟩, ⟨"b", .test⟩,
    ⟨"b", .wake 12000 200 ["a", "b"]⟩]

theorem evicts_itself :
    ¬ ∀ (cfg : Config) (s : Cluster) (p : String), (system cfg).Reachable s → p ∈ cfg.addrs →
      (s.nodes p).raft.selfId ∈ (s.nodes p).raft.peers := by
  intro h
  obtain ⟨s, hs, hSelf⟩ := System.exists_reaches (system pairConfig) System.anyStep pairCluster
    rejectionEvents
    (P := fun s => decide ((s.nodes "b").raft.selfId ∉ (s.nodes "b").raft.peers))
    pairCluster_initial (by decide)
  exact of_decide_eq_true hSelf (h pairConfig s "b" hs (by decide))

/-- Whom the record of a follower can name: a node that has led, or one that the follower
granted its vote. -/
def Named (journal : List Record) (p : String) (r : Raft) : Prop :=
  r.status = .follower → r.voteFor ≠ "" → (∃ term, Did journal r.voteFor (.leads term)) ∨
    ∃ term, Granted journal p r.voteFor term

theorem Named.cons {journal : List Record} {r r' : Raft} (h : Named journal p r)
    (hVote : r'.voteFor = r.voteFor) (hStatus : r'.status = r.status) (rec : Record) :
    Named (rec :: journal) p r' := by
  intro hFollower hNe
  rw [hVote] at hNe ⊢
  rcases h (hStatus.symm.trans hFollower) hNe with ⟨term, hDid⟩ | ⟨term, r₀, hr₀, hGrants⟩
  · exact .inl ⟨term, hDid.cons rec⟩
  · exact .inr ⟨term, r₀, List.mem_cons_of_mem _ hr₀, hGrants⟩

theorem named_of_ne {journal : List Record} {r : Raft} (h : r.status ≠ .follower) :
    Named journal p r := fun hFollower => absurd hFollower h

theorem named_of_empty {journal : List Record} {r : Raft} (h : r.voteFor = "") :
    Named journal p r := fun _ hNe => absurd h hNe

theorem named_moves (hs : (system cfg).Reaches ok s) (h : Named s.journal p (s.nodes p).raft)
    (hMove : Moves cfg s t p i n out) : Named t.journal p n.raft := by
  rw [hMove.journal_eq]
  have hTurn := hMove.turn
  cases hTurn with
  | stands | leads | killed => exact named_of_ne RaftStatus.noConfusion
  | campaigns _ hStatus => exact named_of_ne (by simp [Raft.campaign, hStatus])
  | evicts | loses => exact named_of_empty rfl
  | deposed hDemon =>
    -- the record still names the node itself, which has led until now
    obtain ⟨hLeader, hVote⟩ := (settled hs hMove.member).leader (by rw [hDemon]; rfl)
    have hLed := (wired hs).led p hMove.member hLeader
    rw [selfId_eq hs hMove.member] at hVote
    exact fun _ _ => .inl ⟨_, by simpa [Raft.stepDown, hVote] using hLed.cons _⟩
  | @grants now call request =>
    exact fun _ _ => .inr ⟨_, _, List.mem_cons_self, now, call, request, _, rfl, rfl, rfl, rfl⟩
  | yields => exact fun _ _ => .inl ⟨_, (origin_of_served hs hMove.admits).caused.cons _⟩
  | _ => exact h.cons rfl rfl _

theorem named (h : (system cfg).Reaches ok s) :
    ∀ p ∈ cfg.addrs, Named s.journal p (s.nodes p).raft := by
  apply invariant_of_moves _ _ h
  · intro s hInit p hp
    obtain ⟨boot, peerId, hEq⟩ := initial_node hInit hp
    rw [hEq]
    exact named_of_empty rfl
  · intro s t p i n out hs ih _ hMove
    apply hMove.forall_node (P := fun q n => Named t.journal q n.raft)
    · intro q hq _
      rw [hMove.journal_eq]
      exact (ih q hq).cons rfl rfl _
    · exact named_moves hs (ih p hMove.member) hMove

theorem campaigned_of_granted (h : (system cfg).Reaches ok s) :
    ∀ p c term, Granted s.journal p c term → Did s.journal c (.campaigns term) := by
  apply invariant_of_moves _ _ h
  · exact fun s hInit p c term hGranted => absurd hGranted (not_granted_initial hInit)
  · intro s t q i n out hs ih _ hMove p c term hGranted
    rw [hMove.journal_eq] at hGranted ⊢
    rcases hGranted.of_cons with ⟨now, call, request, reply, hEq, _, rfl, rfl⟩ | hOld
    · cases hEq
      exact (origin_of_served hs hMove.admits).caused.cons _
    · exact (ih p c term hOld).cons _

theorem visits_of_did {past : List Cluster} (h : (system cfg).Run ok (s :: past))
    {seen : Cluster → Prop} (hSeen : ∀ s t i n, Moves cfg s t q i n out → seen s ∨ seen t)
    (hDid : Did s.journal q out) : ∃ u ∈ s :: past, seen u := by
  apply h.visits (fun s => Did s.journal q out) _ _ hDid
  · exact fun s hInit => not_did_initial hInit
  · rintro s e t hStep hDid
    obtain ⟨n, out', hMove⟩ := moves_of_step hStep
    rcases did_moves hMove hDid with hOld | ⟨rfl, rfl⟩
    · exact .inl hOld
    · exact .inr (hSeen s t e.input n hMove)

theorem visits_leader {past : List Cluster} (h : (system cfg).Run ok (s :: past)) {term : UInt64}
    (hDid : Did s.journal q (.leads term)) :
    ∃ u ∈ s :: past, (u.nodes q).raft.status = .leader := by
  apply visits_of_did h _ hDid
  intro s t i n hMove
  obtain ⟨_, _, _, rfl, _⟩ := hMove.turn.of_leads
  rw [hMove.nodes_self]
  exact .inr rfl

theorem visits_candidate {past : List Cluster} (h : (system cfg).Run ok (s :: past))
    {term : UInt64} (hDid : Did s.journal q (.campaigns term)) :
    ∃ u ∈ s :: past, (u.nodes q).raft.status = .candidate :=
  visits_of_did h (fun _ _ _ _ hMove => .inl hMove.turn.of_campaigns.1) hDid

theorem evicts_of_erased (hMove : Moves cfg s t p i n out) {a : String}
    (hBefore : q ∈ (s.nodes a).raft.peers) (hAfter : q ∉ (t.nodes a).raft.peers) :
    a = p ∧ q = (s.nodes p).raft.voteFor ∧ (s.nodes p).raft.status = .follower ∧
      (s.nodes p).raft.voteFor ≠ "" := by
  rcases hMove.same_or_turn a with hSame | ⟨rfl, hTurn⟩
  · rw [hSame] at hAfter
    exact absurd hBefore hAfter
  · exact ⟨rfl, hTurn.of_erased hBefore hAfter⟩

/-- Whoever is evicted has led before, or has been a candidate that the evicting node
granted its vote. -/
theorem evicted_led_or_was_voted_for {past : List Cluster}
    (h : (system cfg).Run System.anyStep (t :: s :: past))
    (hBefore : q ∈ (s.nodes p).raft.peers) (hAfter : q ∉ (t.nodes p).raft.peers) :
    (∃ u ∈ s :: past, (u.nodes q).raft.status = .leader) ∨
      (∃ term, Granted s.journal p q term) ∧
        ∃ u ∈ s :: past, (u.nodes q).raft.status = .candidate := by
  cases h with
  | step hRun _ hStep =>
    obtain ⟨n, out, hMove⟩ := moves_of_step hStep
    obtain ⟨rfl, rfl, hStatus, hVote⟩ := evicts_of_erased hMove hBefore hAfter
    have hs : (system cfg).Reachable s := ⟨past, hRun⟩
    rcases named hs _ hMove.member hStatus hVote with ⟨term, hLed⟩ | ⟨term, hGranted⟩
    · exact .inl (visits_leader hRun hLed)
    · have hDid := campaigned_of_granted hs _ _ _ hGranted
      exact .inr ⟨⟨term, hGranted⟩, visits_candidate hRun hDid⟩

/-- The second node is granted a vote but its call expires, so it loses; the first node
then evicts it. -/
def lostElectionEvents : List Event :=
  [⟨"a", .launch⟩, ⟨"b", .launch⟩, ⟨"b", .test⟩, ⟨"b", .wake 6000 200 ["a", "b"]⟩, ⟨"b", .test⟩,
    ⟨"b", .wake 6000 200 ["a", "b"]⟩, ⟨"b", .advance 6000 0⟩,
    ⟨"a", .serve 6000 0 (.vote ⟨some 0, some "b", some (-1), some (-1)⟩)⟩,
    ⟨"b", .returned 7000 none⟩, ⟨"b", .advance 7000 1⟩, ⟨"b", .advance 7000 1⟩, ⟨"a", .test⟩,
    ⟨"a", .wake 12000 200 ["a", "b"]⟩]

/-- The last step of the run erases `q` at `p`, and `q` has not led before it. -/
def erasesUnled (p q : String) : List Cluster → Bool
  | t :: s :: past => decide (q ∈ (s.nodes p).raft.peers ∧ q ∉ (t.nodes p).raft.peers) &&
      (s :: past).all fun u => decide ((u.nodes q).raft.status ≠ .leader)
  | _ => false

theorem of_erasesUnled {trace : List Cluster} (h : erasesUnled p q trace = true) :
    ∃ t s past, trace = t :: s :: past ∧ q ∈ (s.nodes p).raft.peers ∧
      q ∉ (t.nodes p).raft.peers ∧ ∀ u ∈ s :: past, (u.nodes q).raft.status ≠ .leader := by
  unfold erasesUnled at h
  split at h
  · rename_i t s past
    obtain ⟨hPeers, hNever⟩ := Bool.and_eq_true_iff.mp h
    obtain ⟨hBefore, hAfter⟩ := of_decide_eq_true hPeers
    exact ⟨t, s, past, rfl, hBefore, hAfter,
      fun u hu => of_decide_eq_true (List.all_eq_true.mp hNever u hu)⟩
  · cases h

theorem evicted_led_or_was_voted_for_pair : ∃ t s past,
    (system pairConfig).Run System.anyStep (t :: s :: past) ∧
    "b" ∈ (s.nodes "a").raft.peers ∧ "b" ∉ (t.nodes "a").raft.peers ∧
    ∃ u ∈ s :: past, (u.nodes "b").raft.status = .candidate := by
  obtain ⟨trace, hRun, hErases⟩ := System.exists_run (system pairConfig) System.anyStep
    pairCluster lostElectionEvents (P := erasesUnled "a" "b") pairCluster_initial (by decide)
  obtain ⟨t, s, past, rfl, hBefore, hAfter, hNever⟩ := of_erasesUnled hErases
  refine ⟨t, s, past, hRun, hBefore, hAfter, ?_⟩
  rcases evicted_led_or_was_voted_for hRun hBefore hAfter with ⟨u, hu, hLeader⟩ | ⟨_, hCandidate⟩
  · exact absurd hLeader (hNever u hu)
  · exact hCandidate

theorem evicted_never_led :
    ¬ ∀ (cfg : Config) (s t : Cluster) (past : List Cluster) (p q : String),
      (system cfg).Run System.anyStep (t :: s :: past) → q ∈ (s.nodes p).raft.peers →
      q ∉ (t.nodes p).raft.peers → ∃ u ∈ s :: past, (u.nodes q).raft.status = .leader := by
  intro h
  obtain ⟨trace, hRun, hErases⟩ := System.exists_run (system pairConfig) System.anyStep
    pairCluster lostElectionEvents (P := erasesUnled "a" "b") pairCluster_initial (by decide)
  obtain ⟨t, s, past, rfl, hBefore, hAfter, hNever⟩ := of_erasesUnled hErases
  obtain ⟨u, hu, hLeader⟩ := h pairConfig s t past "a" "b" hRun hBefore hAfter
  exact hNever u hu hLeader

theorem voteFor_mem_addrs (h : (system cfg).Reaches ok s) : ∀ p ∈ cfg.addrs,
    (s.nodes p).raft.voteFor = "" ∨ (s.nodes p).raft.voteFor ∈ cfg.addrs := by
  apply invariant_of_moves _ _ h
  · intro s hInit p hp
    obtain ⟨boot, peerId, hEq⟩ := initial_node hInit hp
    rw [hEq]
    exact .inl rfl
  · intro s t p i n out hs ih _ hMove
    apply hMove.forall_node (P := fun _ n => n.raft.voteFor = "" ∨ n.raft.voteFor ∈ cfg.addrs)
      (fun q hq _ => ih q hq)
    have hTurn := hMove.turn
    cases hTurn with
    | evicts | loses => exact .inl rfl
    | campaigns =>
      right
      change (s.nodes p).raft.selfId ∈ cfg.addrs
      rw [selfId_eq hs hMove.member]
      exact hMove.member
    | grants | yields => exact .inr (origin_of_served hs hMove.admits).sender_mem
    | _ => exact ih p hMove.member

/-- The vote record names nobody, the node itself, a peer, or a node evicted before. -/
theorem voteFor_names_peer_or_evicted (h : (system cfg).Reachable s) (hp : p ∈ cfg.addrs) :
    (s.nodes p).raft.voteFor = "" ∨ (s.nodes p).raft.voteFor = (s.nodes p).raft.selfId ∨
      (s.nodes p).raft.voteFor ∈ (s.nodes p).raft.peers ∨
      Did s.journal p (.evicts (s.nodes p).raft.voteFor) := by
  rcases voteFor_mem_addrs h p hp with hEmpty | hMem
  · exact .inl hEmpty
  · exact .inr (.inr (mem_peers_or_evicted h p hp _ hMem))

/-- The evicted node asks again and is granted the vote of the node that evicted it. -/
def returnEvents : List Event :=
  lostElectionEvents ++ [⟨"b", .test⟩, ⟨"b", .wake 12000 200 ["a", "b"]⟩, ⟨"b", .test⟩,
    ⟨"b", .wake 12000 200 ["a", "b"]⟩, ⟨"b", .advance 12000 1⟩,
    ⟨"a", .serve 12000 1 (.vote ⟨some 1, some "b", some (-1), some (-1)⟩)⟩]

theorem voteFor_names_peer_or_evicted_pair : ∃ s, (system pairConfig).Reachable s ∧
    "b" ∉ (s.nodes "a").raft.peers ∧ Did s.journal "a" (.evicts "b") := by
  obtain ⟨s, hs, hState⟩ := System.exists_reaches (system pairConfig) System.anyStep pairCluster
    returnEvents (P := fun s => decide ((s.nodes "a").raft.voteFor = "b" ∧
      (s.nodes "a").raft.selfId = "a" ∧ "b" ∉ (s.nodes "a").raft.peers))
    pairCluster_initial (by decide)
  obtain ⟨hVote, hSelf, hPeers⟩ := of_decide_eq_true hState
  have hNames := voteFor_names_peer_or_evicted hs (p := "a") (by decide)
  rw [hVote, hSelf] at hNames
  rcases hNames with hEmpty | hEq | hMem | hDid
  · exact absurd hEmpty (by decide)
  · exact absurd hEq (by decide)
  · exact absurd hMem hPeers
  · exact ⟨s, hs, hPeers, hDid⟩

theorem votes_for_evicted :
    ¬ ∀ (cfg : Config) (s : Cluster) (p : String), (system cfg).Reachable s → p ∈ cfg.addrs →
      (s.nodes p).demon.lockFree = true →
      (s.nodes p).raft.voteFor = "" ∨ (s.nodes p).raft.voteFor = (s.nodes p).raft.selfId ∨
        (s.nodes p).raft.voteFor ∈ (s.nodes p).raft.peers := by
  intro h
  obtain ⟨s, hs, hState⟩ := System.exists_reaches (system pairConfig) System.anyStep pairCluster
    returnEvents (P := fun s => decide ((s.nodes "a").demon.lockFree = true ∧
      ¬ ((s.nodes "a").raft.voteFor = "" ∨
        (s.nodes "a").raft.voteFor = (s.nodes "a").raft.selfId ∨
        (s.nodes "a").raft.voteFor ∈ (s.nodes "a").raft.peers)))
    pairCluster_initial (by decide)
  obtain ⟨hFree, hNot⟩ := of_decide_eq_true hState
  exact hNot (h pairConfig s "a" hs (by decide) hFree)

end Cluster

end RaftCpp
