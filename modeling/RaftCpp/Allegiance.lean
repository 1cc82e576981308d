import RaftCpp.Tally

/-! # One vote between two clearings of the record

The vote record has no term. It is cleared by a lost candidacy and by the
eviction step, and by nothing else; until the next clearing a node that has
voted, for itself or for another, votes for nobody any more. Terms play no part
in this, so two votes of one term may lie on both sides of a clearing.
-/

namespace RaftCpp

open Transition AtMostOnce

def Output.Clears : Output → Prop
  | .loses => True
  | .evicts _ => True
  | _ => False

/-- `p` answered `vote=true` to a request of `c` that carries the term `t`. -/
def Record.Grants (r : Record) (p c : String) (t : UInt64) : Prop :=
  ∃ now call request reply, r = ⟨p, .serve now call (.vote request), .replies call (.vote reply)⟩ ∧
    reply.vote = true ∧ request.candidateId = c ∧ request.term = t

def Record.Votes (r : Record) (p : String) : Prop :=
  (∃ c t, r.Grants p c t) ∨ r.node = p ∧ ∃ t, r.output = .campaigns t

def Granted (journal : List Record) (p c : String) (t : UInt64) : Prop :=
  ∃ r ∈ journal, r.Grants p c t

def Uncleared (p : String) (span : List Record) : Prop :=
  ∀ r ∈ span, r.node = p → ¬ r.output.Clears

structure OneVote (span : List Record) (p : String) : Prop where
  grants : ∀ c c' t t', Granted span p c t → Granted span p c' t' → c = c'
  candidacy : ∀ c t t', Did span p (.campaigns t) → ¬ Granted span p c t'

theorem Record.Grants.node {r : Record} {p c : String} {t : UInt64} (h : r.Grants p c t) :
    r.node = p := by
  obtain ⟨now, call, request, reply, rfl, _⟩ := h
  rfl

theorem Record.Votes.node {r : Record} {p : String} (h : r.Votes p) : r.node = p := by
  rcases h with ⟨c, t, hGrants⟩ | ⟨hNode, _⟩
  · exact hGrants.node
  · exact hNode

theorem Granted.of_cons {journal : List Record} {r : Record} {p c : String} {t : UInt64}
    (h : Granted (r :: journal) p c t) : r.Grants p c t ∨ Granted journal p c t := by
  obtain ⟨r', hr', hGrants⟩ := h
  rcases List.mem_cons.mp hr' with rfl | hr'
  · exact .inl hGrants
  · exact .inr ⟨r', hr', hGrants⟩

theorem granted_of_answered {journal : List Record} {call : Nat} {p : String}
    {request : VoteRequest} {reply : VoteReply}
    (h : Answered journal ⟨call, p, .vote request⟩ (.vote reply)) (hVote : reply.vote = true) :
    Granted journal p request.candidateId request.term := by
  obtain ⟨now, hRecord⟩ := h
  exact ⟨_, hRecord, now, call, request, reply, rfl, hVote, rfl, rfl⟩

theorem oneVote_nil (p : String) : OneVote [] p where
  grants c c' t t' hc := by
    obtain ⟨r, hr, _⟩ := hc
    cases hr
  candidacy c t t' hDid := by
    obtain ⟨i, hi⟩ := hDid
    cases hi

theorem oneVote_cons_of_novote {r : Record} {span : List Record} {p : String}
    (h : ∀ r' ∈ span, ¬ r'.Votes p) : OneVote (r :: span) p where
  grants c c' t t' hc hc' := by
    obtain ⟨r₁, hr₁, hGrants⟩ := hc
    obtain ⟨r₂, hr₂, hGrants'⟩ := hc'
    rcases List.mem_cons.mp hr₁ with rfl | hr₁
    · rcases List.mem_cons.mp hr₂ with rfl | hr₂
      · obtain ⟨_, _, _, _, rfl, _, rfl, _⟩ := hGrants
        obtain ⟨_, _, _, _, hEq, _, rfl, _⟩ := hGrants'
        cases hEq
        rfl
      · exact absurd (.inl ⟨c', t', hGrants'⟩) (h r₂ hr₂)
    · exact absurd (.inl ⟨c, t, hGrants⟩) (h r₁ hr₁)
  candidacy c t t' hDid hc := by
    obtain ⟨i, hi⟩ := hDid
    obtain ⟨r₂, hr₂, hGrants⟩ := hc
    rcases List.mem_cons.mp hi with rfl | hi
    · rcases List.mem_cons.mp hr₂ with rfl | hr₂
      · obtain ⟨_, _, _, _, hEq, _⟩ := hGrants
        cases hEq
      · exact absurd (.inl ⟨c, t', hGrants⟩) (h r₂ hr₂)
    · exact absurd (.inr ⟨rfl, t, rfl⟩) (h _ hi)

theorem OneVote.cons {r : Record} {span : List Record} {p : String} (h : OneVote span p)
    (hr : ¬ r.Votes p) : OneVote (r :: span) p where
  grants c c' t t' hc hc' := by
    obtain ⟨r₁, hr₁, hGrants⟩ := hc
    obtain ⟨r₂, hr₂, hGrants'⟩ := hc'
    rcases List.mem_cons.mp hr₁ with rfl | hr₁
    · exact absurd (.inl ⟨c, t, hGrants⟩) hr
    · rcases List.mem_cons.mp hr₂ with rfl | hr₂
      · exact absurd (.inl ⟨c', t', hGrants'⟩) hr
      · exact h.grants c c' t t' ⟨r₁, hr₁, hGrants⟩ ⟨r₂, hr₂, hGrants'⟩
  candidacy c t t' hDid hc := by
    obtain ⟨i, hi⟩ := hDid
    obtain ⟨r₂, hr₂, hGrants⟩ := hc
    rcases List.mem_cons.mp hi with rfl | hi
    · exact absurd (.inr ⟨rfl, t, rfl⟩) hr
    · rcases List.mem_cons.mp hr₂ with rfl | hr₂
      · exact absurd (.inl ⟨c, t', hGrants⟩) hr
      · exact h.candidacy c t t' ⟨i, hi⟩ ⟨r₂, hr₂, hGrants⟩

namespace Node

variable {n n' : Node} {i : Input} {out : Output} {p : String}

/-- A node that votes, for another or for itself, had no vote on record. -/
theorem voteFor_of_votes (hSettled : n.Settled) (hTurn : Turn n i n' out)
    (hVotes : (⟨p, i, out⟩ : Record).Votes p) : n.raft.voteFor = "" := by
  rcases hVotes with ⟨c, t, now, call, request, reply, hEq, hVote, _⟩ | ⟨_, t, rfl⟩
  · cases hEq
    cases hTurn with
    | grants _ _ hGrants => exact hGrants.2.2
    | refuses => cases hVote
  · cases hTurn with
    | campaigns hAwake hStatus => exact (hSettled.atRest hAwake.lockFree).candidate hStatus

theorem voteFor_ne_of_turn (hTurn : Turn n i n' out) (hClears : ¬ out.Clears)
    (hSelf : n.raft.selfId ≠ "")
    (hSender : ∀ now call request, i = .serve now call request → request.sender ≠ "")
    (hVote : n.raft.voteFor ≠ "" ∨ (⟨p, i, out⟩ : Record).Votes p) : n'.raft.voteFor ≠ "" := by
  cases hTurn with
  | evicts | loses => exact absurd trivial hClears
  | campaigns => exact hSelf
  | @grants now call request => exact hSender now call (.vote request) rfl
  | @yields now call request => exact hSender now call (.append request) rfl
  | _ =>
    rcases hVote with hVote | ⟨c, t, _, _, _, _, hEq, hVote, _⟩ | ⟨_, t, hEq⟩
    · exact hVote
    · cases hEq <;> cases hVote
    · cases hEq

end Node

namespace Cluster

variable {cfg : Config} {s t : Cluster} {ok : Cluster → Event → Prop} {p : String}

theorem not_granted_initial (h : (system cfg).initial s) {c : String} {term : UInt64} :
    ¬ Granted s.journal p c term := by
  rintro ⟨r, hr, _⟩
  rw [h.2.1] at hr
  cases hr

structure Bound (s : Cluster) (p : String) : Prop where
  kept : ∀ span earlier, s.journal = span ++ earlier → Uncleared p span →
    (∃ r ∈ span, r.Votes p) → (s.nodes p).raft.voteFor ≠ ""
  once : ∀ later span earlier, s.journal = later ++ span ++ earlier → Uncleared p span →
    OneVote span p

theorem bound_moves {q : String} {i : Input} {n : Node} {out : Output}
    (hs : (system cfg).Reaches ok s) (h : Bound s p) (hMove : Moves cfg s t q i n out) :
    Bound t p where
  kept span earlier hJournal hSpan hVotes := by
    rw [hMove.journal_eq] at hJournal
    cases span with
    | nil =>
      obtain ⟨r, hr, _⟩ := hVotes
      cases hr
    | cons r span =>
      obtain ⟨rfl, hOld⟩ := List.cons.inj hJournal
      have hKept := h.kept span earlier hOld (fun r hr => hSpan r (List.mem_cons_of_mem _ hr))
      have hCases : (s.nodes p).raft.voteFor ≠ "" ∨ (⟨q, i, out⟩ : Record).Votes p := by
        obtain ⟨r, hr, hr'⟩ := hVotes
        rcases List.mem_cons.mp hr with rfl | hr
        · exact .inr hr'
        · exact .inl (hKept ⟨r, hr, hr'⟩)
      by_cases hqp : q = p
      · subst hqp
        rw [hMove.nodes_self]
        have hSelf : (s.nodes q).raft.selfId ≠ "" := by
          rw [selfId_eq hs hMove.member]
          exact cfg.addr_ne q hMove.member
        exact Node.voteFor_ne_of_turn hMove.turn (hSpan _ List.mem_cons_self rfl) hSelf
          (sender_ne_empty hs hMove.admits) hCases
      · rw [hMove.nodes_of_ne (fun hEq => hqp hEq.symm)]
        exact hCases.resolve_right (fun hVotes => hqp hVotes.node)
  once later span earlier hJournal hSpan := by
    rw [hMove.journal_eq] at hJournal
    cases later with
    | cons r later =>
      exact h.once later span earlier (List.cons.inj hJournal).2 hSpan
    | nil =>
      cases span with
      | nil => exact oneVote_nil p
      | cons r span =>
        obtain ⟨rfl, hOld⟩ := List.cons.inj hJournal
        have hSpan' : Uncleared p span := fun r hr => hSpan r (List.mem_cons_of_mem _ hr)
        by_cases hVotes : (⟨q, i, out⟩ : Record).Votes p
        · -- the voter had no vote on record, so the span before this vote has none
          apply oneVote_cons_of_novote
          intro r hr hr'
          have hNode : q = p := hVotes.node
          subst hNode
          exact h.kept span earlier hOld hSpan' ⟨r, hr, hr'⟩
            (Node.voteFor_of_votes (settled hs hMove.member) hMove.turn hVotes)
        · exact (h.once [] span earlier hOld hSpan').cons hVotes

theorem bound (h : (system cfg).Reaches ok s) (p : String) : Bound s p := by
  apply invariant_of_moves (I := fun s => Bound s p) _ _ h
  · intro s hInit
    constructor
    · intro span earlier hJournal _ hVotes
      rw [hInit.2.1] at hJournal
      obtain ⟨rfl, _⟩ := List.nil_eq_append_iff.mp hJournal
      obtain ⟨r, hr, _⟩ := hVotes
      cases hr
    · intro later span earlier hJournal _
      rw [hInit.2.1] at hJournal
      obtain ⟨hLeft, _⟩ := List.nil_eq_append_iff.mp hJournal
      obtain ⟨_, rfl⟩ := List.append_eq_nil_iff.mp hLeft
      exact oneVote_nil p
  · exact fun s t q i n out hs ih _ hMove => bound_moves hs ih hMove

/-- Over any stretch of a run in which a node clears no vote, it votes for one candidate. -/
theorem one_vote_between_clearings (h : (system cfg).Reachable s)
    (later span earlier : List Record) (hJournal : s.journal = later ++ span ++ earlier)
    (hSpan : Uncleared p span) : OneVote span p :=
  (bound h p).once later span earlier hJournal hSpan

def grantRecord : Record :=
  ⟨"a", .serve 6000 0 (.vote ⟨some 0, some "b", some (-1), some (-1)⟩),
    .replies 0 (.vote ⟨some (-1), some true⟩)⟩

theorem grantRecord_grants : grantRecord.Grants "a" "b" 0 :=
  ⟨6000, 0, ⟨some 0, some "b", some (-1), some (-1)⟩, ⟨some (-1), some true⟩, rfl, rfl, rfl, rfl⟩

theorem one_vote_between_clearings_pair : ∃ s, (system pairConfig).Reachable s ∧
    Granted s.journal "a" "b" 0 ∧ OneVote s.journal "a" := by
  obtain ⟨s, hs, hJournal⟩ := System.exists_reaches (system pairConfig) System.anyStep pairCluster
    electionEvents (P := fun s => decide (grantRecord ∈ s.journal) &&
      s.journal.all fun r => decide (r.output ≠ .loses) && r.output.evicted?.isNone)
    pairCluster_initial (by decide)
  obtain ⟨hGrant, hClear⟩ := Bool.and_eq_true_iff.mp hJournal
  have hSpan : Uncleared "a" s.journal := by
    intro r hr _ hClears
    have hRecord := List.all_eq_true.mp hClear r hr
    obtain ⟨node, input, output⟩ := r
    cases output with
    | loses | evicts => cases hRecord
    | _ => exact hClears
  exact ⟨s, hs, ⟨_, of_decide_eq_true hGrant, grantRecord_grants⟩,
    one_vote_between_clearings hs [] s.journal [] (by simp) hSpan⟩

/-- The first node votes in the term of its own candidacy, with an eviction in between. -/
theorem two_votes_in_one_term :
    ¬ ∀ (cfg : Config) (s : Cluster) (p : String), (system cfg).Reachable s →
      (∀ c c' t, Granted s.journal p c t → Granted s.journal p c' t → c = c') ∧
      ∀ c t, Did s.journal p (.campaigns t) → Granted s.journal p c t → c = p := by
  intro h
  obtain ⟨s, hs, hJournal⟩ := System.exists_reaches (system pairConfig) System.anyStep pairCluster
    takeoverEvents (P := fun s => decide (grantRecord ∈ s.journal ∧
      (⟨"a", .wake 12000 200 ["a"], .campaigns 0⟩ : Record) ∈ s.journal))
    pairCluster_initial (by decide)
  obtain ⟨hGrant, hCampaign⟩ := of_decide_eq_true hJournal
  have hEq := (h pairConfig s "a" hs).2 "b" 0 ⟨_, hCampaign⟩ ⟨_, hGrant, grantRecord_grants⟩
  exact absurd hEq (by decide)

end Cluster

end RaftCpp
