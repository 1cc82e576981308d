import RaftCpp.Calls
import RaftCpp.Library.Pledge

/-! # The votes counted in a candidacy

Between the record that opens a candidacy and the end of its loop, the counter
is one more than the number of peers that answered `vote=true` to a call of that
very candidacy. Whoever becomes leader has therefore a majority of the peers it
then has, its own vote included.
-/

namespace RaftCpp

open Transition AtMostOnce Pledge

/-- `recent` are the records since the latest candidacy of `p` began, the latest first. -/
def Candidacy (journal recent : List Record) (p : String) : Prop :=
  ∃ i term older, journal = recent ++ ⟨p, i, .campaigns term⟩ :: older ∧
    ∀ r ∈ recent, r.node = p → ∀ term', r.output ≠ .campaigns term'

/-- `v` answered `vote=true` to a call that `p` made with this request since then. -/
def VotedFor (journal recent : List Record) (p : String) (request : VoteRequest)
    (v : String) : Prop :=
  ∃ call reply, Did recent p (.calls call v (.vote request)) ∧
    Answered journal ⟨call, v, .vote request⟩ (.vote reply) ∧ reply.vote = true

theorem Candidacy.cons {journal recent : List Record} {p : String} (h : Candidacy journal recent p)
    {r : Record} (hr : r.node = p → ∀ term, r.output ≠ .campaigns term) :
    Candidacy (r :: journal) (r :: recent) p := by
  obtain ⟨i, term, older, rfl, hRecent⟩ := h
  refine ⟨i, term, older, rfl, ?_⟩
  intro r' hr'
  rcases List.mem_cons.mp hr' with rfl | hr'
  · exact hr
  · exact hRecent r' hr'

theorem VotedFor.cons {journal recent : List Record} {p v : String} {request : VoteRequest}
    (h : VotedFor journal recent p request v) (r : Record) :
    VotedFor (r :: journal) (r :: recent) p request v := by
  obtain ⟨call, reply, hAsked, hAns, hVote⟩ := h
  exact ⟨call, reply, hAsked.cons r, hAns.cons r, hVote⟩

def Demon.remaining : Demon → List String
  | .voting rest _ => rest
  | .awaitingVote _ peer rest _ => peer :: rest
  | _ => []

structure Tally (journal recent : List Record) (p : String) (n : Node)
    (voters : Finset String) : Prop where
  candidacy : Candidacy journal recent p
  nodup : n.demon.remaining.Nodup
  remaining_mem : ∀ v ∈ n.demon.remaining, v ∈ n.raft.peers
  subset : voters ⊆ n.raft.peers.erase p
  fresh : ∀ v ∈ voters, v ∉ n.demon.remaining
  count : n.demon.voteCount = voters.card + 1
  voted : ∀ v ∈ voters, VotedFor journal recent p n.raft.voteRequest v
  asked : ∀ m, n.pending = some m → Did recent p (.calls m.call m.dest m.body)

theorem Tally.cons {journal recent : List Record} {p : String} {n : Node} {voters : Finset String}
    (h : Tally journal recent p n voters) {r : Record}
    (hr : r.node = p → ∀ term, r.output ≠ .campaigns term) :
    Tally (r :: journal) (r :: recent) p n voters :=
  { h with
    candidacy := h.candidacy.cons hr
    voted := fun v hv => (h.voted v hv).cons r
    asked := fun m hm => (h.asked m hm).cons r }

/-- A move of the loop that counts nothing: the peers still open are among those before. -/
theorem Tally.pass {journal recent : List Record} {p : String} {n n' : Node}
    {voters : Finset String} (h : Tally journal recent p n voters)
    (hPeers : n'.raft.peers = n.raft.peers) (hRequest : n'.raft.voteRequest = n.raft.voteRequest)
    (hRemaining : n'.demon.remaining.Sublist n.demon.remaining)
    (hCount : n'.demon.voteCount = n.demon.voteCount)
    (hAsked : ∀ m, n'.pending = some m → Did recent p (.calls m.call m.dest m.body)) :
    Tally journal recent p n' voters where
  candidacy := h.candidacy
  nodup := h.nodup.sublist hRemaining
  remaining_mem v hv := hPeers ▸ h.remaining_mem v (hRemaining.subset hv)
  subset := hPeers ▸ h.subset
  fresh v hv hOpen := h.fresh v hv (hRemaining.subset hOpen)
  count := hCount.trans h.count
  voted := hRequest ▸ h.voted
  asked := hAsked

theorem Tally.skip {journal recent : List Record} {p : String} {n : Node}
    {voters : Finset String} (h : Tally journal recent p n voters) {peer : String}
    {rest : List String} {voteCount : Nat} (hRemaining : n.demon.remaining = peer :: rest)
    (hCount : n.demon.voteCount = voteCount) :
    Tally journal recent p { n with demon := .voting rest voteCount } voters := by
  refine h.pass rfl rfl ?_ hCount.symm (fun m hm => by cases hm)
  rw [hRemaining]
  exact List.sublist_cons_self _ _

theorem Tally.counts {journal recent : List Record} {p : String} {n : Node}
    {voters : Finset String} (h : Tally journal recent p n voters) {call : Nat} {peer : String}
    {rest : List String} {voteCount : Nat}
    (hDemon : n.demon = .awaitingVote call peer rest voteCount) (hPeer : peer ≠ p)
    (hVoted : VotedFor journal recent p n.raft.voteRequest peer) :
    Tally journal recent p { n with demon := .voting rest (voteCount + 1) }
      (insert peer voters) := by
  have hRemaining : n.demon.remaining = peer :: rest := by
    rw [hDemon]
    rfl
  have hMem : peer ∈ n.raft.peers := h.remaining_mem peer (hRemaining ▸ List.mem_cons_self)
  have hFresh : peer ∉ voters := fun hv => h.fresh peer hv (hRemaining ▸ List.mem_cons_self)
  have hNodup := List.nodup_cons.mp (hRemaining ▸ h.nodup)
  refine ⟨h.candidacy, hNodup.2, ?_, ?_, ?_, ?_, ?_, fun m hm => by cases hm⟩
  · exact fun v hv => h.remaining_mem v (hRemaining ▸ List.mem_cons_of_mem _ hv)
  · exact Finset.insert_subset (Finset.mem_erase.mpr ⟨hPeer, hMem⟩) h.subset
  · intro v hv hRest
    rcases Finset.mem_insert.mp hv with rfl | hv
    · exact hNodup.1 hRest
    · exact h.fresh v hv (hRemaining ▸ List.mem_cons_of_mem _ hRest)
  · rw [Finset.card_insert_of_notMem hFresh, ← h.count, hDemon]
    rfl
  · intro v hv
    rcases Finset.mem_insert.mp hv with rfl | hv
    · exact hVoted
    · exact h.voted v hv

namespace Cluster

variable {cfg : Config} {s t : Cluster} {ok : Cluster → Event → Prop}
  {p : String} {i : Input} {n : Node} {out : Output}

def Tallied (cfg : Config) (s : Cluster) : Prop :=
  ∀ p ∈ cfg.addrs, (s.nodes p).demon.inVote = true →
    ∃ recent voters, Tally s.journal recent p (s.nodes p) voters

/-- The awaited reply was produced by the called peer for the request of this candidacy. -/
theorem answered_of_returned (h : Wired cfg s) (hp : p ∈ cfg.addrs) {now : Int} {reply : Reply}
    (hAdmits : s.Admits p (.returned now (some reply))) :
    ∃ m, (s.nodes p).pending = some m ∧ Answered s.journal m reply := by
  obtain ⟨call, hCall, hReply⟩ := hAdmits
  obtain ⟨m, hPending, rfl⟩ := Node.call_of_pending hCall
  exact ⟨m, hPending, h.sound.answers_of_call (h.awaits p hp m hPending) hReply⟩

theorem votedFor_of_returned (h : Wired cfg s) (hp : p ∈ cfg.addrs)
    (hSelf : (s.nodes p).raft.selfId = p) {recent : List Record} {voters : Finset String}
    (hTally : Tally s.journal recent p (s.nodes p) voters) {now : Int} {call voteCount : Nat}
    {peer : String} {rest : List String} {reply : VoteReply}
    (hDemon : (s.nodes p).demon = .awaitingVote call peer rest voteCount)
    (hAdmits : s.Admits p (.returned now (some (.vote reply)))) (hGranted : reply.vote = true) :
    peer ≠ p ∧ VotedFor s.journal recent p (s.nodes p).raft.voteRequest peer := by
  have hPending : (s.nodes p).pending =
      some ⟨call, peer, .vote (s.nodes p).raft.voteRequest⟩ := by
    rw [Node.pending, hDemon]
  obtain ⟨m, hm, hAns⟩ := answered_of_returned h hp hAdmits
  rw [hPending] at hm
  cases hm
  have hNe := (h.origin _ (h.awaits p hp _ hPending)).sender_ne
  exact ⟨fun hEq => hNe (hSelf.trans hEq.symm), call, reply, hTally.asked _ hPending, hAns,
    hGranted⟩

theorem tally_campaigns {journal : List Record} {n : Node} {draw : Int} {order : List String}
    (hAwake : n.Awake draw order) (i : Input) (term : UInt64) :
    Tally (⟨p, i, .campaigns term⟩ :: journal) [] p
      { n with raft := n.raft.campaign, demon := .voting order 1 } ∅ where
  candidacy := ⟨i, term, journal, rfl, by simp⟩
  nodup := hAwake.nodup
  remaining_mem _ hv := hAwake.mem_peers hv
  subset := Finset.empty_subset _
  fresh v hv := absurd hv (Finset.notMem_empty v)
  count := rfl
  voted v hv := absurd hv (Finset.notMem_empty v)
  asked m hm := by cases hm

theorem tally_turn (h : Wired cfg s) (hp : p ∈ cfg.addrs) (hLinked : (s.nodes p).Linked)
    (hSelf : (s.nodes p).raft.selfId = p) (hAdmits : s.Admits p i)
    (hTurn : Node.Turn (s.nodes p) i n out) (hVote : n.demon.inVote = true)
    (hOld : (s.nodes p).demon.inVote = true →
      ∃ recent voters, Tally s.journal recent p (s.nodes p) voters) :
    ∃ recent voters, Tally (⟨p, i, out⟩ :: s.journal) recent p n voters := by
  cases hTurn with
  | campaigns hAwake => exact ⟨[], ∅, tally_campaigns hAwake _ _⟩
  | @skipsVote now call rest voteCount hDemon =>
    obtain ⟨recent, voters, hTally⟩ := hOld (by rw [hDemon]; rfl)
    have hNew := hTally.cons (r := ⟨p, .advance now call, .silent⟩) (fun _ _ => Output.noConfusion)
    exact ⟨_, voters, hNew.skip (congrArg Demon.remaining hDemon) (congrArg Demon.voteCount hDemon)⟩
  | @asksVote now call peer rest voteCount stub hDemon hPeer hStub =>
    obtain ⟨recent, voters, hTally⟩ := hOld (by rw [hDemon]; rfl)
    have hNew := hTally.cons (r := ⟨p, .advance now call, .calls call stub.endpoint
      (.vote (s.nodes p).raft.voteRequest)⟩) (fun _ _ => Output.noConfusion)
    have hLive := hLinked.stub (by simp [hDemon]) (by rw [hDemon]; exact List.mem_cons_self) hPeer
    rw [hStub] at hLive
    cases hLive
    refine ⟨_, voters, hNew.pass rfl rfl ?_ ?_ ?_⟩
    · rw [hDemon]
      exact List.Sublist.refl _
    · rw [hDemon]
      rfl
    · intro m hm
      cases hm
      exact did_cons_self _ _ _ _
  | @counts now call peer rest voteCount reply hDemon hGranted =>
    obtain ⟨recent, voters, hTally⟩ := hOld (by rw [hDemon]; rfl)
    have hNew := hTally.cons (r := ⟨p, .returned now (some (.vote reply)), .silent⟩)
      (fun _ _ => Output.noConfusion)
    obtain ⟨hPeer, hVoted⟩ := votedFor_of_returned h hp hSelf hTally hDemon hAdmits hGranted
    exact ⟨_, insert peer voters, hNew.counts hDemon hPeer (hVoted.cons _)⟩
  | @passes now call peer rest voteCount reply hDemon =>
    obtain ⟨recent, voters, hTally⟩ := hOld (by rw [hDemon]; rfl)
    have hNew := hTally.cons (r := ⟨p, .returned now reply, .silent⟩)
      (fun _ _ => Output.noConfusion)
    exact ⟨_, voters, hNew.skip (congrArg Demon.remaining hDemon) (congrArg Demon.voteCount hDemon)⟩
  | kill =>
    obtain ⟨recent, voters, hTally⟩ := hOld hVote
    have hNew := hTally.cons (r := ⟨p, .kill, .silent⟩) (fun _ _ => Output.noConfusion)
    exact ⟨_, voters, hNew.pass rfl rfl (List.Sublist.refl _) rfl hNew.asked⟩
  | grants hFree | refuses hFree | follows hFree | yields hFree | rejects hFree =>
    have hBusy := Demon.lockFree_of_inVote hVote
    cases hFree.symm.trans hBusy
  | killed hDemon =>
    rw [show _ = _ from hDemon] at hVote
    cases hVote
  | _ => cases hVote

theorem tallied (h : (system cfg).Reaches ok s) : Tallied cfg s := by
  apply invariant_of_moves _ _ h
  · intro s hInit p hp hVote
    obtain ⟨boot, peerId, hEq⟩ := initial_node hInit hp
    rw [hEq] at hVote
    cases hVote
  · intro s t p i n out hs ih _ hMove q hq hVote
    rw [hMove.journal_eq]
    by_cases hqp : q = p
    · subst hqp
      rw [hMove.nodes_self] at hVote ⊢
      exact tally_turn (wired hs) hq (linked hs hq) (selfId_eq hs hq) hMove.admits hMove.turn hVote
        (ih q hq)
    · rw [hMove.nodes_of_ne hqp] at hVote ⊢
      obtain ⟨recent, voters, hTally⟩ := ih q hq hVote
      exact ⟨_, voters, hTally.cons (fun hNode => absurd hNode.symm hqp)⟩

/-- What a winner has counted are the votes of its candidacy, with its own. -/
theorem counted_of_leads (hs : (system cfg).Reaches ok s) {term : UInt64}
    (hMove : Moves cfg s t p i n (.leads term)) :
    ∃ recent voters, (s.nodes p).demon = .voting [] (voters.card + 1) ∧
      Candidacy t.journal recent p ∧ voters ⊆ n.raft.peers.erase p ∧
      (∀ v ∈ voters, VotedFor t.journal recent p n.raft.voteRequest v) ∧
      n.raft.HasQuorum (voters.card + 1) := by
  obtain ⟨voteCount, hDemon, hQuorum, rfl, rfl⟩ := hMove.turn.of_leads
  obtain ⟨recent, voters, hTally⟩ := tallied hs p hMove.member (by rw [hDemon]; rfl)
  have hNew := hTally.cons (r := ⟨p, i, .leads (s.nodes p).raft.term⟩)
    (fun _ _ => Output.noConfusion)
  rw [← hMove.journal_eq] at hNew
  have hCount : voteCount = voters.card + 1 := by
    rw [← hNew.count, hDemon]
    rfl
  rw [hCount] at hDemon hQuorum
  exact ⟨_, voters, hDemon, hNew.candidacy, hNew.subset, hNew.voted, hQuorum⟩

/-- Whoever becomes leader has counted more than half of its peers, itself included. -/
theorem backed_of_leads (hs : (system cfg).Reaches ok s) {term : UInt64}
    (hMove : Moves cfg s t p i n (.leads term)) :
    ∃ recent voters, Candidacy t.journal recent p ∧ voters ⊆ n.raft.peers.erase p ∧
      (∀ v ∈ voters, VotedFor t.journal recent p n.raft.voteRequest v) ∧
      n.raft.peers.card < 2 * (voters.card + 1) := by
  obtain ⟨recent, voters, _, hCandidacy, hSubset, hVoted, hQuorum⟩ := counted_of_leads hs hMove
  refine ⟨recent, voters, hCandidacy, hSubset, hVoted, ?_⟩
  rw [Raft.HasQuorum] at hQuorum
  omega

theorem leads_of_becomes_leader (hMove : Moves cfg s t p i n out) {q : String}
    (hBefore : (s.nodes q).raft.status ≠ .leader) (hAfter : (t.nodes q).raft.status = .leader) :
    q = p ∧ ∃ term, out = .leads term := by
  rcases hMove.same_or_turn q with hSame | ⟨hNode, hTurn⟩
  · rw [hSame] at hAfter
    exact absurd hAfter hBefore
  · rcases Node.leader_turn hTurn hAfter with ⟨hOld, _⟩ | hOut
    · exact absurd hOld hBefore
    · exact ⟨hNode, _, hOut⟩

/-- A node leaves the peers of another only by being evicted there. -/
theorem mem_peers_or_evicted (h : (system cfg).Reaches ok s) : ∀ p ∈ cfg.addrs, ∀ q ∈ cfg.addrs,
    q ∈ (s.nodes p).raft.peers ∨ Did s.journal p (.evicts q) := by
  apply invariant_of_moves _ _ h
  · intro s hInit p hp q hq
    obtain ⟨boot, peerId, hEq⟩ := initial_node hInit hp
    rw [hEq]
    exact .inl (List.mem_toFinset.mpr hq)
  · intro s t p i n out hs ih _ hMove
    rw [hMove.journal_eq]
    apply hMove.forall_node (P := fun p' n => ∀ q ∈ cfg.addrs,
      q ∈ n.raft.peers ∨ Did (⟨p, i, out⟩ :: s.journal) p' (.evicts q))
    · exact fun p' hp' _ q hq => (ih p' hp' q hq).imp id (fun hDid => hDid.cons _)
    · intro q hq
      rcases ih p hMove.member q hq with hMem | hDid
      · by_cases hKept : q ∈ n.raft.peers
        · exact .inl hKept
        · right
          have hTurn := hMove.turn
          cases hTurn with
          | evicts =>
            have hEq : q = (s.nodes p).raft.voteFor := by
              by_contra hNe
              exact hKept (Finset.mem_erase.mpr ⟨hNe, hMem⟩)
            rw [hEq]
            exact did_cons_self _ _ _ _
          | _ => exact absurd hMem hKept
      · exact .inr (hDid.cons _)

theorem peers_eq_of_not_evicted (h : (system cfg).Reaches ok s) (hp : p ∈ cfg.addrs)
    (hKept : ∀ id, ¬ Did s.journal p (.evicts id)) : (s.nodes p).raft.peers = cfg.members := by
  apply Finset.Subset.antisymm (peers_subset h hp)
  intro q hq
  exact (mem_peers_or_evicted h p hp q (Config.mem_members.mp hq)).resolve_right (hKept q)

/-- An election is backed by a majority of the membership that the winner then has, which
is everybody as long as the winner has evicted nobody. -/
theorem elected_by_majority_of_peers (h : (system cfg).Reachable s) {e : Event}
    (hStep : (system cfg).step s e = some t) (hBefore : (s.nodes p).raft.status ≠ .leader)
    (hAfter : (t.nodes p).raft.status = .leader) (hSelf : p ∈ (t.nodes p).raft.peers) :
    ∃ recent voters, Candidacy t.journal recent p ∧
      (∀ v ∈ voters, VotedFor t.journal recent p (t.nodes p).raft.voteRequest v) ∧
      IsMajority (t.nodes p).raft.peers (insert p voters) ∧
      (t.nodes p).raft.peers ⊆ cfg.members ∧
      ((∀ id, ¬ Did t.journal p (.evicts id)) → IsMajority cfg.members (insert p voters)) := by
  obtain ⟨n, out, hMove⟩ := moves_of_step hStep
  obtain ⟨rfl, term, rfl⟩ := leads_of_becomes_leader hMove hBefore hAfter
  obtain ⟨recent, voters, hCandidacy, hSubset, hVoted, hCard⟩ := backed_of_leads h hMove
  rw [hMove.nodes_self] at hSelf ⊢
  have ht : (system cfg).Reachable t := h.next trivial hStep
  have hMajority : IsMajority n.raft.peers (insert e.node voters) := by
    refine ⟨Finset.insert_subset hSelf (hSubset.trans (Finset.erase_subset _ _)), ?_⟩
    have hNot : e.node ∉ voters := fun hv => (Finset.mem_erase.mp (hSubset hv)).1 rfl
    rwa [Finset.card_insert_of_notMem hNot]
  refine ⟨recent, voters, hCandidacy, hVoted, hMajority, ?_, ?_⟩
  · rw [← hMove.nodes_self]
    exact peers_subset ht hMove.member
  · intro hKept
    have hAll := peers_eq_of_not_evicted ht hMove.member hKept
    rw [hMove.nodes_self] at hAll
    rwa [← hAll]

/-- The second of two nodes asks the first for its vote, is granted it and counts it. -/
def electionEvents : List Event :=
  [⟨"a", .launch⟩, ⟨"b", .launch⟩, ⟨"b", .test⟩, ⟨"b", .wake 6000 200 ["a", "b"]⟩, ⟨"b", .test⟩,
    ⟨"b", .wake 6000 200 ["a", "b"]⟩, ⟨"b", .advance 6000 0⟩,
    ⟨"a", .serve 6000 0 (.vote ⟨some 0, some "b", some (-1), some (-1)⟩)⟩,
    ⟨"b", .returned 6000 (some (.vote ⟨some (-1), some true⟩))⟩, ⟨"b", .advance 6000 1⟩]

theorem elected_by_majority_of_peers_pair : ∃ s t recent voters,
    (system pairConfig).Reachable s ∧
    (system pairConfig).step s ⟨"b", .advance 6000 1⟩ = some t ∧ Candidacy t.journal recent "b" ∧
    (∀ v ∈ voters, VotedFor t.journal recent "b" (t.nodes "b").raft.voteRequest v) ∧
    IsMajority (t.nodes "b").raft.peers (insert "b" voters) ∧
    IsMajority pairConfig.members (insert "b" voters) := by
  obtain ⟨s, t, hs, hStep, hLeader⟩ := System.exists_step (system pairConfig)
    System.anyStep pairCluster electionEvents ⟨"b", .advance 6000 1⟩
    (P := fun s t => decide ((s.nodes "b").raft.status ≠ .leader ∧
      (t.nodes "b").raft.status = .leader ∧ "b" ∈ (t.nodes "b").raft.peers) &&
      t.journal.all fun r => r.output.evicted?.isNone) pairCluster_initial (by decide)
  obtain ⟨hStatus, hNobody⟩ := Bool.and_eq_true_iff.mp hLeader
  obtain ⟨hBefore, hAfter, hSelf⟩ := of_decide_eq_true hStatus
  obtain ⟨recent, voters, hCandidacy, hVoted, hMajority, _, hAll⟩ :=
    elected_by_majority_of_peers hs hStep hBefore hAfter hSelf
  refine ⟨s, t, recent, voters, hs, hStep, hCandidacy, hVoted, hMajority, hAll ?_⟩
  rintro id ⟨i, hi⟩
  cases List.all_eq_true.mp hNobody _ hi

/-- The second node then sends its first heartbeat. -/
def heartbeatEvents : List Event :=
  electionEvents ++ [⟨"b", .advance 6000 1⟩, ⟨"b", .test⟩, ⟨"b", .wake 6000 200 ["a", "b"]⟩,
    ⟨"b", .advance 6000 1⟩]

/-- The first node then evicts the leader it voted for and stands alone. -/
def takeoverEvents : List Event :=
  electionEvents ++ [⟨"b", .advance 6000 1⟩, ⟨"a", .test⟩, ⟨"a", .wake 12000 200 ["a", "b"]⟩,
    ⟨"a", .test⟩, ⟨"a", .wake 12000 200 ["a"]⟩, ⟨"a", .test⟩, ⟨"a", .wake 12000 200 ["a"]⟩,
    ⟨"a", .advance 12000 1⟩]

theorem elected_without_majority_of_members :
    ¬ ∀ (cfg : Config) (s t : Cluster) (e : Event) (p : String), (system cfg).Reachable s →
      (system cfg).step s e = some t → (s.nodes p).raft.status ≠ .leader →
      (t.nodes p).raft.status = .leader →
      ∃ recent voters, Candidacy t.journal recent p ∧
        (∀ v ∈ voters, VotedFor t.journal recent p (t.nodes p).raft.voteRequest v) ∧
        IsMajority cfg.members (insert p voters) := by
  intro h
  obtain ⟨s, t, hs, hStep, hLeader⟩ := System.exists_step (system pairConfig)
    System.anyStep pairCluster takeoverEvents ⟨"a", .advance 12000 1⟩
    (P := fun s t => decide ((s.nodes "a").raft.status ≠ .leader ∧
      (t.nodes "a").raft.status = .leader) &&
      t.journal.all fun r => r.node != "a" || r.output.call?.isNone)
    pairCluster_initial (by decide)
  obtain ⟨hStatus, hCalls⟩ := Bool.and_eq_true_iff.mp hLeader
  obtain ⟨hBefore, hAfter⟩ := of_decide_eq_true hStatus
  obtain ⟨recent, voters, ⟨i, term, older, hJournal, _⟩, hVoted, hMajority⟩ :=
    h pairConfig s t _ "a" hs hStep hBefore hAfter
  -- the first node has called nobody, so it has no voter but itself
  have hEmpty : voters = ∅ := by
    apply Finset.eq_empty_of_forall_notMem
    intro v hv
    obtain ⟨call, reply, ⟨j, hj⟩, _⟩ := hVoted v hv
    have hRecord := List.all_eq_true.mp hCalls _ (hJournal ▸ List.mem_append_left _ hj)
    simp [Output.call?] at hRecord
  have hCard := hMajority.card_lt
  rw [hEmpty] at hCard
  exact absurd hCard (by decide)

end Cluster

end RaftCpp
