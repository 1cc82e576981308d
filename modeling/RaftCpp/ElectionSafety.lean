import RaftCpp.Allegiance

/-! # Leaders of one term

Evictions let a node vote twice in a term and shrink the quorum it asks for, so
two leaders of one term are reachable. They are not as long as nobody votes
against a candidate of the same term that it already backs, for another or for
itself, and nobody starts a candidacy whose quorums can miss those of a rival.
-/

namespace RaftCpp

open Transition AtMostOnce

def Record.opens (p : String) (r : Record) : Bool :=
  r.node == p && r.output matches .campaigns _

/-- The records since the latest candidacy of `p` began. -/
def sinceCandidacy (p : String) (journal : List Record) : List Record :=
  journal.takeWhile fun r => !r.opens p

/-- `v` voted for `c` at the term `t` since the latest candidacy of `c` began. -/
def Backs (journal : List Record) (v c : String) (t : UInt64) : Prop :=
  Granted (sinceCandidacy c journal) v c t

def Record.grants (r : Record) (p c : String) (t : UInt64) : Bool :=
  match r.input, r.output with
  | .serve _ call (.vote request), .replies call' (.vote reply) =>
    decide (r.node = p ∧ call = call' ∧ reply.vote = true ∧ request.candidateId = c ∧
      request.term = t)
  | _, _ => false

theorem Record.grants_iff {r : Record} {p c : String} {t : UInt64} :
    r.grants p c t = true ↔ r.Grants p c t := by
  constructor
  · intro h
    obtain ⟨node, input, output⟩ := r
    unfold grants at h
    split at h
    · obtain ⟨rfl, rfl, hVote, hFrom, hTerm⟩ := of_decide_eq_true h
      simp only at *
      subst_vars
      exact ⟨_, _, _, _, rfl, hVote, rfl, rfl⟩
    · cases h
  · rintro ⟨now, call, request, reply, rfl, hVote, hFrom, hTerm⟩
    exact decide_eq_true ⟨rfl, rfl, hVote, hFrom, hTerm⟩

instance (r : Record) (p c : String) (t : UInt64) : Decidable (r.Grants p c t) :=
  decidable_of_iff _ Record.grants_iff

instance (journal : List Record) (v c : String) (t : UInt64) : Decidable (Backs journal v c t) :=
  inferInstanceAs (Decidable (∃ r ∈ sinceCandidacy c journal, r.Grants v c t))

theorem Record.opens_iff {r : Record} {p : String} :
    r.opens p = true ↔ r.node = p ∧ ∃ t, r.output = .campaigns t := by
  obtain ⟨node, input, output⟩ := r
  cases output <;> simp [opens]

theorem Candidacy.since_eq {journal recent : List Record} {p : String}
    (h : Candidacy journal recent p) : sinceCandidacy p journal = recent := by
  obtain ⟨i, term, older, rfl, hRecent⟩ := h
  have hAll : ∀ r ∈ recent, (!r.opens p) = true := by
    intro r hr
    rw [Bool.not_eq_true', Bool.eq_false_iff, ne_eq, Record.opens_iff]
    rintro ⟨hNode, t, hOut⟩
    exact hRecent r hr hNode t hOut
  rw [sinceCandidacy, List.takeWhile_append_of_pos hAll]
  simp [Record.opens]

theorem Backs.of_cons {journal : List Record} {r : Record} {v c : String} {t : UInt64}
    (h : Backs (r :: journal) v c t) : r.Grants v c t ∨ Backs journal v c t := by
  rw [Backs, sinceCandidacy, List.takeWhile_cons] at h
  split at h
  · exact h.of_cons
  · obtain ⟨_, hr, _⟩ := h
    cases hr

theorem not_backs_of_campaigns {journal : List Record} {v c : String} {t term : UInt64}
    {i : Input} : ¬ Backs (⟨c, i, .campaigns term⟩ :: journal) v c t := by
  rintro ⟨r, hr, _⟩
  simp [sinceCandidacy, Record.opens] at hr

theorem Backs.cons {journal : List Record} {v c : String} {t : UInt64} (h : Backs journal v c t)
    {r : Record} (hr : r.opens c = false) : Backs (r :: journal) v c t := by
  obtain ⟨r', hr', hGrants⟩ := h
  refine ⟨r', ?_, hGrants⟩
  rw [sinceCandidacy, List.takeWhile_cons, hr]
  exact List.mem_cons_of_mem _ hr'

namespace Node

variable {n n' : Node} {i : Input} {out : Output} {t : UInt64}

/-- The node leads, or is in its vote loop, at the term `t`. -/
def Contends (n : Node) (t : UInt64) : Prop :=
  (n.raft.status = .leader ∨ n.demon.inVote = true) ∧ n.raft.term = t

instance (n : Node) (t : UInt64) : Decidable (n.Contends t) :=
  inferInstanceAs (Decidable ((_ ∨ _) ∧ _))

theorem contends_turn (hTurn : Turn n i n' out) (h : n'.Contends t) :
    (n.Contends t ∧ n'.raft.peers = n.raft.peers) ∨ out = .campaigns t := by
  obtain ⟨hRole, rfl⟩ := h
  have hPeers : n'.raft.peers = n.raft.peers := by
    apply peers_eq_of_turn hTurn
    rintro id rfl
    cases hTurn with
    | evicts _ hStatus =>
      rcases hRole with hLeader | hVote
      · cases hStatus.symm.trans hLeader
      · cases hVote
  rcases hRole with hLeader | hVote
  · rcases leader_turn hTurn hLeader with ⟨hOld, hTerm⟩ | rfl
    · exact .inl ⟨⟨.inl hOld, hTerm.symm⟩, hPeers⟩
    · obtain ⟨voteCount, hDemon, _, _, hTerm⟩ := hTurn.of_leads
      exact .inl ⟨⟨.inr (by rw [hDemon]; rfl), hTerm.symm⟩, hPeers⟩
  · rcases inVote_turn hTurn hVote with ⟨hOld, hTerm⟩ | hOut
    · exact .inl ⟨⟨.inr hOld, hTerm.symm⟩, hPeers⟩
    · exact .inr hOut

theorem not_contends_of_grants (hFree : n.demon.lockFree = true) (hGrants : n.raft.Grants) :
    ¬ n.Contends t := by
  rintro ⟨hLeader | hVote, _⟩
  · exact hGrants.1 hLeader
  · cases hFree.symm.trans (Demon.lockFree_of_inVote hVote)

end Node

/-- Any quorum of the one's peers shares a node with any quorum of the other's, by their
sizes. It holds of two nodes that have evicted nobody. -/
def Raft.Overlaps (r r' : Raft) : Prop :=
  (insert r.selfId r.peers ∪ insert r'.selfId r'.peers).card <
    r.peers.card / 2 + 1 + (r'.peers.card / 2 + 1)

instance (r r' : Raft) : Decidable (r.Overlaps r') := inferInstanceAs (Decidable (_ < _))

theorem Raft.Overlaps.symm {r r' : Raft} (h : r.Overlaps r') : r'.Overlaps r := by
  rw [Overlaps] at h ⊢
  rwa [Finset.union_comm, Nat.add_comm (r'.peers.card / 2 + 1)]

namespace Cluster

variable {cfg : Config} {s t : Cluster} {ok : Cluster → Event → Prop}
  {p q : String} {i : Input} {n : Node} {out : Output}

/-- A node grants no vote against a contender of that term which it already backs, and
starts no candidacy against one which it backs or whose quorums can miss its own. -/
def Cautious (cfg : Config) (s : Cluster) (e : Event) : Prop :=
  match e.input with
  | .serve _ _ (.vote request) => (s.nodes e.node).raft.Grants →
      ∀ c ∈ cfg.addrs, c ≠ request.candidateId → (s.nodes c).Contends request.term →
        ¬ Backs s.journal e.node c request.term
  | .wake _ _ _ => (s.nodes e.node).raft.status = .candidate →
      ∀ c ∈ cfg.addrs, c ≠ e.node → (s.nodes c).Contends (s.nodes e.node).raft.campaign.term →
        ¬ Backs s.journal e.node c (s.nodes e.node).raft.campaign.term ∧
          (s.nodes e.node).raft.Overlaps (s.nodes c).raft
  | _ => True

instance (cfg : Config) (s : Cluster) : (e : Event) → Decidable (Cautious cfg s e)
  | ⟨_, .serve _ _ (.vote _)⟩ => inferInstanceAs (Decidable (_ → ∀ c ∈ cfg.addrs, _))
  | ⟨_, .wake _ _ _⟩ => inferInstanceAs (Decidable (_ → ∀ c ∈ cfg.addrs, _))
  | ⟨_, .serve _ _ (.append _)⟩ | ⟨_, .launch⟩ | ⟨_, .test⟩ | ⟨_, .advance _ _⟩ | ⟨_, .returned _ _⟩
  | ⟨_, .kill⟩ | ⟨_, .killed⟩ => isTrue trivial

/-- What keeps two contenders of one term from both winning. -/
structure Apart (s : Cluster) (p q : String) (u : UInt64) : Prop where
  overlaps : (s.nodes p).raft.Overlaps (s.nodes q).raft
  unbacked : ¬ Backs s.journal p q u
  unbacking : ¬ Backs s.journal q p u
  disjoint : ∀ v, Backs s.journal v p u → ¬ Backs s.journal v q u

theorem Apart.symm {u : UInt64} (h : Apart s p q u) : Apart s q p u where
  overlaps := h.overlaps.symm
  unbacked := h.unbacking
  unbacking := h.unbacked
  disjoint v hq hp := h.disjoint v hp hq

def Rivalry (cfg : Config) (s : Cluster) : Prop :=
  ∀ p ∈ cfg.addrs, ∀ q ∈ cfg.addrs, p ≠ q → ∀ u, (s.nodes p).Contends u →
    (s.nodes q).Contends u → Apart s p q u

theorem contends_moves (hMove : Moves cfg s t p i n out) {u : UInt64}
    (h : (t.nodes q).Contends u) :
    ((s.nodes q).Contends u ∧ (t.nodes q).raft.peers = (s.nodes q).raft.peers ∧
      (t.nodes q).raft.selfId = (s.nodes q).raft.selfId) ∨ q = p ∧ out = .campaigns u := by
  rcases hMove.same_or_turn q with hSame | ⟨rfl, hTurn⟩
  · rw [hSame] at h ⊢
    exact .inl ⟨h, rfl, rfl⟩
  · rcases Node.contends_turn hTurn h with ⟨hOld, hPeers⟩ | hOut
    · exact .inl ⟨hOld, hPeers, Node.selfId_turn hTurn⟩
    · exact .inr ⟨rfl, hOut⟩

theorem grants_moves (hMove : Moves cfg s t p i n out) (hok : Cautious cfg s ⟨p, i⟩)
    {v c : String} {u : UInt64} (hGrants : (⟨p, i, out⟩ : Record).Grants v c u) :
    v = p ∧ (∀ u', ¬ (s.nodes p).Contends u') ∧ ∀ c' ∈ cfg.addrs, c' ≠ c →
      (s.nodes c').Contends u → ¬ Backs s.journal p c' u := by
  obtain ⟨now, call, request, reply, hEq, hVote, rfl, rfl⟩ := hGrants
  cases hEq
  have hTurn := hMove.turn
  cases hTurn with
  | grants hFree _ hGrants =>
    exact ⟨rfl, fun _ => Node.not_contends_of_grants hFree hGrants, hok hGrants⟩
  | refuses => cases hVote

theorem campaigns_moves {u : UInt64} (hMove : Moves cfg s t p i n (.campaigns u))
    (hok : Cautious cfg s ⟨p, i⟩) (hq : q ∈ cfg.addrs) (hqp : q ≠ p)
    (hContends : (s.nodes q).Contends u) :
    ¬ Backs s.journal p q u ∧ n.raft.Overlaps (s.nodes q).raft := by
  have hTurn := hMove.turn
  cases hTurn with
  | campaigns _ hStatus => exact hok hStatus q hq hqp hContends

theorem apart_moves {a b : String} {u : UInt64} (h : Apart s a b u)
    (hMove : Moves cfg s t p i n out) (hok : Cautious cfg s ⟨p, i⟩) (ha : a ∈ cfg.addrs)
    (hb : b ∈ cfg.addrs) (hab : a ≠ b) (hA : (s.nodes a).Contends u)
    (hB : (s.nodes b).Contends u) (hOverlaps : (t.nodes a).raft.Overlaps (t.nodes b).raft) :
    Apart t a b u := by
  -- the voter of a new grant contends for nothing
  have hVoter : ∀ v c, (s.nodes v).Contends u → Backs t.journal v c u →
      Backs s.journal v c u := by
    intro v c hv hBacks
    rw [hMove.journal_eq] at hBacks
    rcases hBacks.of_cons with hNew | hOld
    · obtain ⟨rfl, hNot, _⟩ := grants_moves hMove hok hNew
      exact absurd hv (hNot u)
    · exact hOld
  refine ⟨hOverlaps, fun hNew => h.unbacked (hVoter a b hA hNew),
    fun hNew => h.unbacking (hVoter b a hB hNew), ?_⟩
  rw [hMove.journal_eq]
  intro v hNewA hNewB
  rcases hNewA.of_cons with hGrantA | hOldA
  · rcases hNewB.of_cons with hGrantB | hOldB
    · obtain ⟨_, _, _, _, hEq, _, rfl, _⟩ := hGrantA
      obtain ⟨_, _, _, _, hEq', _, rfl, _⟩ := hGrantB
      cases hEq.symm.trans hEq'
      exact hab rfl
    · obtain ⟨rfl, _, hGuard⟩ := grants_moves hMove hok hGrantA
      exact hGuard b hb hab.symm hB hOldB
  · rcases hNewB.of_cons with hGrantB | hOldB
    · obtain ⟨rfl, _, hGuard⟩ := grants_moves hMove hok hGrantB
      exact hGuard a ha hab hA hOldA
    · exact h.disjoint v hOldA hOldB

/-- Who starts a candidacy has no votes yet, and is held off its rivals by the condition. -/
theorem apart_of_campaigns {u : UInt64} (hMove : Moves cfg s t p i n (.campaigns u))
    (hok : Cautious cfg s ⟨p, i⟩) (hq : q ∈ cfg.addrs) (hqp : q ≠ p)
    (hContends : (s.nodes q).Contends u) : Apart t p q u := by
  obtain ⟨hBacks, hOverlaps⟩ := campaigns_moves hMove hok hq hqp hContends
  refine ⟨?_, ?_, ?_, ?_⟩
  · rw [hMove.nodes_self, hMove.nodes_of_ne hqp]
    exact hOverlaps
  · rw [hMove.journal_eq]
    intro hNew
    rcases hNew.of_cons with ⟨_, _, _, _, hEq, _⟩ | hOld
    · cases hEq
    · exact hBacks hOld
  · rw [hMove.journal_eq]
    exact not_backs_of_campaigns
  · rw [hMove.journal_eq]
    exact fun _ hv => absurd hv not_backs_of_campaigns

theorem rivalry_moves (h : Rivalry cfg s) (hMove : Moves cfg s t p i n out)
    (hok : Cautious cfg s ⟨p, i⟩) : Rivalry cfg t := by
  intro a ha b hb hab u hA hB
  rcases contends_moves hMove hA with ⟨hOldA, hPeersA, hSelfA⟩ | ⟨rfl, rfl⟩
  · rcases contends_moves hMove hB with ⟨hOldB, hPeersB, hSelfB⟩ | ⟨rfl, rfl⟩
    · have hOld := h a ha b hb hab u hOldA hOldB
      apply apart_moves hOld hMove hok ha hb hab hOldA hOldB
      rw [Raft.Overlaps, hPeersA, hSelfA, hPeersB, hSelfB]
      exact hOld.overlaps
    · exact (apart_of_campaigns hMove hok ha hab hOldA).symm
  · rcases contends_moves hMove hB with ⟨hOldB, _, _⟩ | ⟨rfl, _⟩
    · exact apart_of_campaigns hMove hok hb hab.symm hOldB
    · exact absurd rfl hab

theorem rivalry (h : (system cfg).Reaches (Cautious cfg) s) : Rivalry cfg s := by
  apply invariant_of_moves _ _ h
  · intro s hInit p hp q hq hpq u hContends
    obtain ⟨boot, peerId, hEq⟩ := initial_node hInit hp
    rw [hEq] at hContends
    rcases hContends.1 with hLeader | hVote
    · cases hLeader
    · cases hVote
  · exact fun s t p i n out _ ih hok hMove => rivalry_moves ih hMove hok

/-- The votes that made `p` a leader, which last as long as it leads. -/
def Elected (journal : List Record) (p : String) (n : Node) : Prop :=
  ∃ voters ⊆ n.raft.peers.erase p, (∀ v ∈ voters, Backs journal v p n.raft.term) ∧
    n.raft.peers.card < 2 * (voters.card + 1)

theorem backs_of_votedFor (h : (system cfg).Reaches ok s) {recent : List Record}
    {request : VoteRequest} {v : String} (hCandidacy : Candidacy s.journal recent p)
    (hVoted : VotedFor s.journal recent p request v) (hSender : request.candidateId = p) :
    Backs s.journal v p request.term := by
  obtain ⟨call, reply, hDid, ⟨now, hAns⟩, hVote⟩ := hVoted
  rw [Backs, hCandidacy.since_eq]
  obtain ⟨i, term, older, hJournal, _⟩ := hCandidacy
  rw [hJournal] at hAns
  rcases List.mem_append.mp hAns with hNew | hOld
  · exact ⟨_, hNew, now, call, request, reply, rfl, hVote, hSender, rfl⟩
  · exact absurd ⟨now, hOld⟩
      (not_answered_before h recent _ p ⟨call, v, .vote request⟩ (.vote reply) hJournal hDid)

theorem elected_leads (hs : (system cfg).Reaches ok s) (ht : (system cfg).Reaches ok t)
    {term : UInt64} (hMove : Moves cfg s t p i n (.leads term)) : Elected t.journal p n := by
  obtain ⟨recent, voters, hCandidacy, hSubset, hVoted, hCard⟩ := backed_of_leads hs hMove
  have hSelf : n.raft.selfId = p :=
    (Node.selfId_turn hMove.turn).trans (selfId_eq hs hMove.member)
  refine ⟨voters, hSubset, fun v hv => ?_, hCard⟩
  exact backs_of_votedFor ht hCandidacy (hVoted v hv) hSelf

theorem Elected.cons {journal : List Record} {n n' : Node} (h : Elected journal p n)
    (hPeers : n'.raft.peers = n.raft.peers) (hTerm : n'.raft.term = n.raft.term) {r : Record}
    (hr : r.opens p = false) : Elected (r :: journal) p n' := by
  obtain ⟨voters, hSubset, hBacks, hCard⟩ := h
  rw [← hPeers] at hSubset hCard
  exact ⟨voters, hSubset, fun v hv => hTerm ▸ (hBacks v hv).cons hr, hCard⟩

theorem elected_of_leader (h : (system cfg).Reaches ok s) :
    ∀ p ∈ cfg.addrs, (s.nodes p).raft.status = .leader → Elected s.journal p (s.nodes p) := by
  apply h.invariant (I := fun s => ∀ p ∈ cfg.addrs, (s.nodes p).raft.status = .leader →
    Elected s.journal p (s.nodes p))
  · intro s hInit p hp hLeader
    obtain ⟨boot, peerId, hEq⟩ := initial_node hInit hp
    rw [hEq] at hLeader
    cases hLeader
  · intro s e t hs ih hok hStep
    obtain ⟨n, out, hMove⟩ := moves_of_step hStep
    have ht := hs.next hok hStep
    apply hMove.forall_node (P := fun q n => n.raft.status = .leader → Elected t.journal q n)
    · intro q hq hqp hLeader
      rw [hMove.journal_eq]
      refine (ih q hq hLeader).cons rfl rfl ?_
      simp [Record.opens, hqp.symm]
    · intro hLeader
      rcases Node.leader_turn hMove.turn hLeader with ⟨hOld, hTerm⟩ | rfl
      · have hOut : ∀ u, out ≠ .campaigns u := by
          rintro u rfl
          cases hMove.turn.of_campaigns.1.symm.trans hOld
        have hPeers : n.raft.peers = (s.nodes e.node).raft.peers := by
          rcases Node.contends_turn hMove.turn ⟨.inl hLeader, rfl⟩ with ⟨_, hPeers⟩ | hEq
          · exact hPeers
          · exact absurd hEq (hOut _)
        rw [hMove.journal_eq]
        refine (ih e.node hMove.member hOld).cons hPeers hTerm ?_
        rw [Bool.eq_false_iff, ne_eq, Record.opens_iff]
        exact fun hOpens => hOut _ hOpens.2.choose_spec
      · exact elected_leads hs ht hMove

theorem common_voter {a b : Node} {A B : Finset String} (hOverlaps : a.raft.Overlaps b.raft)
    (hA : A ⊆ a.raft.peers.erase a.raft.selfId) (hB : B ⊆ b.raft.peers.erase b.raft.selfId)
    (hCardA : a.raft.peers.card < 2 * (A.card + 1))
    (hCardB : b.raft.peers.card < 2 * (B.card + 1)) :
    ∃ v, v ∈ insert a.raft.selfId A ∧ v ∈ insert b.raft.selfId B := by
  have hNotA : a.raft.selfId ∉ A := fun h => (Finset.mem_erase.mp (hA h)).1 rfl
  have hNotB : b.raft.selfId ∉ B := fun h => (Finset.mem_erase.mp (hB h)).1 rfl
  have hSubA := Finset.insert_subset_insert a.raft.selfId (hA.trans (Finset.erase_subset _ _))
  have hSubB := Finset.insert_subset_insert b.raft.selfId (hB.trans (Finset.erase_subset _ _))
  have hCard : (insert a.raft.selfId a.raft.peers ∪ insert b.raft.selfId b.raft.peers).card <
      (insert a.raft.selfId A).card + (insert b.raft.selfId B).card := by
    rw [Finset.card_insert_of_notMem hNotA, Finset.card_insert_of_notMem hNotB]
    rw [Raft.Overlaps] at hOverlaps
    omega
  obtain ⟨v, hv⟩ := Finset.inter_nonempty_of_card_lt_card_add_card
    (hSubA.trans Finset.subset_union_left) (hSubB.trans Finset.subset_union_right) hCard
  exact ⟨v, Finset.mem_inter.mp hv⟩

theorem terms_ne_of_cautious (h : (system cfg).Reaches (Cautious cfg) s) (hp : p ∈ cfg.addrs)
    (hq : q ∈ cfg.addrs) (hpq : p ≠ q) (hLeader : (s.nodes p).raft.status = .leader)
    (hLeader' : (s.nodes q).raft.status = .leader) :
    (s.nodes p).raft.term ≠ (s.nodes q).raft.term := by
  intro hTerm
  have hApart := rivalry h p hp q hq hpq _ ⟨.inl hLeader, hTerm⟩ ⟨.inl hLeader', rfl⟩
  obtain ⟨A, hA, hBacksA, hCardA⟩ := elected_of_leader h p hp hLeader
  obtain ⟨B, hB, hBacksB, hCardB⟩ := elected_of_leader h q hq hLeader'
  have hSelfP := selfId_eq h hp
  have hSelfQ := selfId_eq h hq
  obtain ⟨v, hvA, hvB⟩ := common_voter hApart.overlaps (hSelfP.symm ▸ hA) (hSelfQ.symm ▸ hB)
    hCardA hCardB
  rw [hSelfP] at hvA
  rw [hSelfQ] at hvB
  rw [hTerm] at hBacksA
  rcases Finset.mem_insert.mp hvA with rfl | hvA <;> rcases Finset.mem_insert.mp hvB with rfl | hvB
  · exact hpq rfl
  · exact hApart.unbacked (hBacksB _ hvB)
  · exact hApart.unbacking (hBacksA _ hvA)
  · exact hApart.disjoint v (hBacksA v hvA) (hBacksB v hvB)

/-- The first node loses a candidacy, votes for the second and later takes over alone, one
term ahead of it. -/
def staggeredEvents : List Event :=
  [⟨"a", .launch⟩, ⟨"b", .launch⟩, ⟨"a", .test⟩, ⟨"a", .wake 6000 200 ["a", "b"]⟩, ⟨"a", .test⟩,
    ⟨"a", .wake 6000 200 ["a", "b"]⟩, ⟨"a", .advance 6000 0⟩, ⟨"a", .advance 6000 0⟩,
    ⟨"a", .returned 6000 none⟩, ⟨"a", .advance 6000 1⟩, ⟨"b", .test⟩,
    ⟨"b", .wake 6000 200 ["a", "b"]⟩, ⟨"b", .test⟩, ⟨"b", .wake 6000 200 ["a", "b"]⟩,
    ⟨"b", .advance 6000 1⟩, ⟨"a", .serve 6000 1 (.vote ⟨some 0, some "b", some (-1), some (-1)⟩)⟩,
    ⟨"b", .returned 6000 (some (.vote ⟨some 0, some true⟩))⟩, ⟨"b", .advance 6000 2⟩,
    ⟨"b", .advance 6000 2⟩, ⟨"a", .test⟩, ⟨"a", .wake 12000 200 ["a", "b"]⟩, ⟨"a", .test⟩,
    ⟨"a", .wake 12000 200 ["a"]⟩, ⟨"a", .test⟩, ⟨"a", .wake 12000 200 ["a"]⟩,
    ⟨"a", .advance 12000 2⟩, ⟨"a", .advance 12000 2⟩]

theorem terms_ne_of_cautious_pair : ∃ s, (system pairConfig).Reaches (Cautious pairConfig) s ∧
    (s.nodes "a").raft.status = .leader ∧ (s.nodes "b").raft.status = .leader ∧
    (s.nodes "a").raft.term ≠ (s.nodes "b").raft.term := by
  obtain ⟨s, hs, hLeaders⟩ := System.exists_reaches (system pairConfig) (Cautious pairConfig)
    pairCluster staggeredEvents (P := fun s => decide ((s.nodes "a").raft.status = .leader ∧
      (s.nodes "b").raft.status = .leader)) pairCluster_initial (by decide)
  obtain ⟨hA, hB⟩ := of_decide_eq_true hLeaders
  exact ⟨s, hs, hA, hB, terms_ne_of_cautious hs (by decide) (by decide) (by decide) hA hB⟩

theorem two_leaders_in_one_term :
    ¬ ∀ (cfg : Config) (s : Cluster) (p q : String), (system cfg).Reachable s →
      p ∈ cfg.addrs → q ∈ cfg.addrs → p ≠ q → (s.nodes p).raft.status = .leader →
      (s.nodes q).raft.status = .leader → (s.nodes p).raft.term ≠ (s.nodes q).raft.term := by
  intro h
  obtain ⟨s, hs, hLeaders⟩ := System.exists_reaches (system pairConfig) System.anyStep
    pairCluster (takeoverEvents ++ [⟨"a", .advance 12000 1⟩])
    (P := fun s => decide ((s.nodes "a").raft.status = .leader ∧
      (s.nodes "b").raft.status = .leader ∧ (s.nodes "a").raft.term = (s.nodes "b").raft.term))
    pairCluster_initial (by decide)
  obtain ⟨hA, hB, hTerm⟩ := of_decide_eq_true hLeaders
  exact h pairConfig s "a" "b" hs (by decide) (by decide) (by decide) hA hB hTerm

end Cluster

end RaftCpp
