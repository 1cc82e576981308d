import RaftCpp.Handlers
import RaftCpp.Tally

/-! # When terms go backwards, and how far they get

AppendMsg only raises the term it compares with. The two other writes can lower
it: the increment of a candidate wraps around at the value the constructor
stores, and a rejected leader adopts the term in the reply. The rejecting node
compared its own term with the one that came out of an `int`, so the adopted
term is the higher one unless the leader's term does not fit there. Only a
candidacy makes a new term, so none exceeds the number of candidacies begun.
-/

namespace RaftCpp

open Transition AtMostOnce

theorem le_add_one_iff (t : UInt64) : t ≤ t + 1 ↔ t ≠ -1 := by
  rw [UInt64.le_iff_toNat_le, UInt64.toNat_add, ne_eq, ← UInt64.toNat_inj]
  have hLt := t.toNat_lt
  have hMax : (-1 : UInt64).toNat = 2 ^ 64 - 1 := rfl
  have hOne : (1 : UInt64).toNat = 1 := rfl
  rw [hMax, hOne]
  omega

namespace Node

variable {n n' : Node} {i : Input} {out : Output}

/-- The four things a step can do to the term. -/
theorem term_turn (hTurn : Turn n i n' out) :
    n'.raft.term = n.raft.term ∨
    (out = .campaigns (n.raft.term + 1) ∧ n'.raft.term = n.raft.term + 1) ∨
    (∃ now call request, i = .serve now call (.append request) ∧
      n'.raft.term = widen (narrow request.term)) ∨
    ∃ now reply, i = .returned now (some (.append reply)) ∧ n'.raft.term = reply.term := by
  cases hTurn with
  | campaigns => exact .inr (.inl ⟨rfl, rfl⟩)
  | follows | yields => exact .inr (.inr (.inl ⟨_, _, _, rfl, rfl⟩))
  | deposed => exact .inr (.inr (.inr ⟨_, _, rfl, rfl⟩))
  | _ => exact .inl rfl

theorem append_reply_term {call : Nat} {reply : AppendReply}
    (hTurn : Turn n i n' (.replies call (.append reply))) : reply.term = n.raft.term := by
  cases hTurn with
  | follows | yields | rejects => rfl

end Node

namespace Cluster

variable {cfg : Config} {s t : Cluster} {ok : Cluster → Event → Prop}
  {p : String} {i : Input} {n : Node} {out : Output}

/-- A node starts a candidacy at the greatest term, or a leader whose term does not fit
in an `int` receives a rejection with a smaller term. -/
def Regresses (s : Cluster) (e : Event) : Prop :=
  match e.input with
  | .wake _ _ _ => (s.nodes e.node).raft.status = .candidate ∧ (s.nodes e.node).raft.term = -1
  | .returned _ (some (.append reply)) => reply.success = false ∧
      (2 ^ 31 ≤ (s.nodes e.node).raft.term.toNat ∧
        (s.nodes e.node).raft.term.toNat < 2 ^ 64 - 2 ^ 31) ∧
      reply.term < (s.nodes e.node).raft.term
  | _ => False

def Steady (s : Cluster) (e : Event) : Prop := ¬ Regresses s e

/-- A rejection carries a term above the one that the rejecting node has compared with. -/
def Rejections (journal : List Record) : Prop :=
  ∀ call p request reply, Answered journal ⟨call, p, .append request⟩ (.append reply) →
    reply.success = false → widen (narrow request.term) < reply.term

theorem rejections (h : (system cfg).Reaches ok s) : Rejections s.journal := by
  apply invariant_of_moves (I := fun s => Rejections s.journal) _ _ h
  · exact fun s hInit call p request reply hAns => absurd hAns (not_answered_initial hInit)
  · rintro s t q i n out hs ih _ hMove call p request reply ⟨now, hNow⟩ hSuccess
    rw [hMove.journal_eq] at hNow
    rcases List.mem_cons.mp hNow with hEq | hOld
    · cases hEq
      have hTurn := hMove.turn
      cases hTurn with
      | follows | yields => cases hSuccess
      | rejects _ _ hAccepts => exact UInt64.not_le.mp hAccepts
    · exact ih call p request reply ⟨now, hOld⟩ hSuccess

theorem lt_of_rejected (hs : (system cfg).Reaches ok s) (hp : p ∈ cfg.addrs) {now : Int}
    {call : Nat} {peer : String} {rest : List String} {reply : AppendReply}
    (hAdmits : s.Admits p (.returned now (some (.append reply))))
    (hDemon : (s.nodes p).demon = .awaitingAppend call peer rest)
    (hSuccess : reply.success = false) :
    widen (narrow (s.nodes p).raft.term) < reply.term := by
  obtain ⟨m, hPending, hAns⟩ := answered_of_returned (wired hs) hp hAdmits
  have hBody : (s.nodes p).pending = some ⟨call, peer, .append (s.nodes p).raft.appendRequest⟩ := by
    rw [Node.pending, hDemon]
  obtain rfl := Option.some.inj (hPending.symm.trans hBody)
  exact rejections hs call peer (s.nodes p).raft.appendRequest reply hAns hSuccess

/-- The moving node's term goes down exactly in the two cases named. -/
theorem term_le_iff (hs : (system cfg).Reaches ok s) (hMove : Moves cfg s t p i n out) :
    (s.nodes p).raft.term ≤ n.raft.term ↔ Steady s ⟨p, i⟩ := by
  have hAdmits := hMove.admits
  have hTurn := hMove.turn
  cases hTurn with
  | campaigns _ hStatus =>
    have hIff := le_add_one_iff (s.nodes p).raft.term
    exact hIff.trans ⟨fun hNe hReg => hNe hReg.2, fun hOk hEq => hOk ⟨hStatus, hEq⟩⟩
  | waits _ hStatus | stands _ hStatus | evicts _ hStatus =>
    refine iff_of_true (UInt64.le_refl _) ?_
    rintro ⟨hCandidate, _⟩
    cases hStatus.symm.trans hCandidate
  | starts _ _ hCandidate => exact iff_of_true (UInt64.le_refl _) (fun hReg => hCandidate hReg.1)
  | @deposed now call peer rest reply hDemon hSuccess =>
    have hLt := lt_of_rejected hs hMove.member hAdmits hDemon hSuccess
    constructor
    · exact fun hLe hReg => UInt64.not_le.mpr hReg.2.2 hLe
    · intro hOk
      by_contra hNotLe
      have hSmaller := UInt64.not_le.mp hNotLe
      have hRange := (widen_narrow_eq_iff (s.nodes p).raft.term).not.mp
        (fun hEq => UInt64.lt_asymm hSmaller (hEq ▸ hLt))
      rw [not_or, Nat.not_lt, Nat.not_le] at hRange
      exact hOk ⟨hSuccess, hRange, hSmaller⟩
  | goesOn hDemon hReply =>
    refine iff_of_true (UInt64.le_refl _) ?_
    rcases hReply with rfl | ⟨reply, rfl, hSuccess⟩
    · exact id
    · rintro ⟨hFalse, _⟩
      cases hSuccess.symm.trans hFalse
  | passes _ hReply =>
    refine iff_of_true (UInt64.le_refl _) ?_
    rcases hReply with rfl | ⟨reply, rfl, _⟩
    · exact id
    · exact id
  | follows _ _ hAccepts | yields _ _ hAccepts => exact iff_of_true hAccepts id
  | _ => exact iff_of_true (UInt64.le_refl _) id

def TermsLe (cfg : Config) (s t : Cluster) : Prop :=
  ∀ p ∈ cfg.addrs, (s.nodes p).raft.term ≤ (t.nodes p).raft.term

instance (cfg : Config) (s t : Cluster) : Decidable (TermsLe cfg s t) :=
  inferInstanceAs (Decidable (∀ p ∈ cfg.addrs, _))

theorem termsLe_iff (hs : (system cfg).Reaches ok s) {e : Event}
    (hStep : (system cfg).step s e = some t) : TermsLe cfg s t ↔ Steady s e := by
  obtain ⟨n, out, hMove⟩ := moves_of_step hStep
  rw [← term_le_iff hs hMove]
  constructor
  · intro hLe
    rw [← hMove.nodes_self]
    exact hLe e.node hMove.member
  · intro hLe
    exact hMove.forall_node (P := fun q n => (s.nodes q).raft.term ≤ n.raft.term)
      (fun q _ _ => UInt64.le_refl _) hLe

/-- Over any stretch of any run, no term goes backwards exactly when no step regresses. -/
theorem terms_sorted_iff {span earlier : List Cluster}
    (h : (system cfg).Run System.anyStep (span ++ earlier)) :
    (span.Pairwise fun t s => ∀ p ∈ cfg.addrs, (s.nodes p).raft.term ≤ (t.nodes p).raft.term) ↔
      (system cfg).Stretch Steady span := by
  apply h.pairwise_iff (TermsLe cfg)
  · exact fun s t u hst htu p hp => UInt64.le_trans (hst p hp) (htu p hp)
  · exact fun s e t hs hStep => termsLe_iff hs hStep

/-- The first node loses its first candidacy and tries again. -/
def retryEvents : List Event :=
  [⟨"a", .launch⟩, ⟨"a", .test⟩, ⟨"a", .wake 6000 200 ["a", "b"]⟩, ⟨"a", .test⟩,
    ⟨"a", .wake 6000 200 ["a", "b"]⟩, ⟨"a", .advance 6000 0⟩, ⟨"a", .advance 6000 0⟩,
    ⟨"a", .returned 7000 none⟩, ⟨"a", .advance 7000 1⟩, ⟨"a", .test⟩,
    ⟨"a", .wake 12000 200 ["a", "b"]⟩, ⟨"a", .test⟩, ⟨"a", .wake 12000 200 ["a", "b"]⟩]

theorem terms_sorted_iff_retry : ∃ span earlier : List Cluster,
    (system pairConfig).Run System.anyStep (span ++ earlier) ∧
    (∃ s ∈ span, ∃ t ∈ span, (s.nodes "a").raft.term < (t.nodes "a").raft.term) ∧
    (system pairConfig).Stretch Steady span := by
  obtain ⟨trace, hRun, hSpan⟩ := System.exists_run (system pairConfig) System.anyStep pairCluster
    retryEvents (P := fun trace => decide (
      (trace.take 7).Pairwise (fun t s => TermsLe pairConfig s t) ∧
      ∃ s ∈ trace.take 7, ∃ t ∈ trace.take 7, (s.nodes "a").raft.term < (t.nodes "a").raft.term))
    pairCluster_initial (by decide)
  obtain ⟨hSorted, hRises⟩ := of_decide_eq_true hSpan
  rw [← List.take_append_drop 7 trace] at hRun
  exact ⟨trace.take 7, trace.drop 7, hRun, hRises, (terms_sorted_iff hRun).mp hSorted⟩

theorem first_candidacy_wraps :
    ¬ ∀ (cfg : Config) (s t : Cluster) (e : Event), (system cfg).Reachable s →
      (system cfg).step s e = some t →
      ∀ p ∈ cfg.addrs, (s.nodes p).raft.term ≤ (t.nodes p).raft.term := by
  intro h
  obtain ⟨s, t, hs, hStep, hTerm⟩ := System.exists_step (system pairConfig) System.anyStep
    pairCluster [⟨"a", .launch⟩, ⟨"a", .test⟩, ⟨"a", .wake 6000 200 ["a", "b"]⟩, ⟨"a", .test⟩]
    ⟨"a", .wake 6000 200 ["a", "b"]⟩
    (P := fun s t => decide ((t.nodes "a").raft.term < (s.nodes "a").raft.term))
    pairCluster_initial (by decide)
  have hLe := h pairConfig s t _ hs hStep "a" (by decide)
  exact UInt64.not_le.mpr (of_decide_eq_true hTerm) hLe

/-- How many candidate iterations have been started, over all nodes. -/
def candidacies (journal : List Record) : Nat :=
  journal.countP fun r => r.output matches .campaigns _

/-- The term is the constructor's or below the number of candidacies. -/
def InReach (k : Nat) (t : UInt64) : Prop := t = -1 ∨ t.toNat < k

theorem InReach.mono {k k' : Nat} {t : UInt64} (h : InReach k t) (hk : k ≤ k') : InReach k' t := by
  rcases h with hMax | hLt
  · exact .inl hMax
  · exact .inr (by omega)

theorem InReach.add_one {k : Nat} {t : UInt64} (h : InReach k t) (hk : k < 2 ^ 31) :
    (t + 1).toNat < k + 1 := by
  have hOne : (1 : UInt64).toNat = 1 := rfl
  have hMax : (-1 : UInt64).toNat = 2 ^ 64 - 1 := rfl
  rw [UInt64.toNat_add, hOne]
  rcases h with rfl | hLt
  · rw [hMax]
    omega
  · omega

theorem candidacies_campaigns (journal : List Record) (p : String) (i : Input) (term : UInt64) :
    candidacies (⟨p, i, .campaigns term⟩ :: journal) = candidacies journal + 1 := by
  simp [candidacies]

theorem candidacies_le (journal : List Record) (r : Record) :
    candidacies journal ≤ candidacies (r :: journal) := by
  simp only [candidacies, List.countP_cons]
  omega

structure Bounded (cfg : Config) (s : Cluster) : Prop where
  term : ∀ p ∈ cfg.addrs, InReach (candidacies s.journal) (s.nodes p).raft.term
  campaigned : ∀ p term, Did s.journal p (.campaigns term) → term.toNat < candidacies s.journal
  led : ∀ p term, Did s.journal p (.leads term) → term.toNat < candidacies s.journal
  answered : ∀ m reply, Answered s.journal m (.append reply) →
    InReach (candidacies s.journal) reply.term

theorem bounded_initial (h : (system cfg).initial s) : Bounded cfg s where
  term p hp := by
    obtain ⟨boot, peerId, hEq⟩ := initial_node h hp
    rw [hEq]
    exact .inl rfl
  campaigned p term hDid := absurd hDid (not_did_initial h)
  led p term hDid := absurd hDid (not_did_initial h)
  answered m reply hAns := absurd hAns (not_answered_initial h)

theorem append_term_lt (hs : (system cfg).Reaches ok s) (h : Bounded cfg s)
    {m : Envelope String Request} (hm : m ∈ s.net.posted) {request : AppendRequest}
    (hBody : m.body = .append request) : request.term.toNat < candidacies s.journal := by
  have hCaused := ((wired hs).origin m hm).caused
  rw [hBody] at hCaused
  exact h.led _ _ hCaused

theorem term_moves (hs : (system cfg).Reaches ok s) (h : Bounded cfg s)
    (hk : candidacies s.journal < 2 ^ 31) (hMove : Moves cfg s t p i n out) :
    InReach (candidacies t.journal) n.raft.term := by
  have hOld := h.term p hMove.member
  have hLe : candidacies s.journal ≤ candidacies t.journal := by
    rw [hMove.journal_eq]
    exact candidacies_le _ _
  rcases Node.term_turn hMove.turn with hSame | ⟨rfl, hNext⟩ | ⟨now, call, request, rfl, hAdopted⟩ |
    ⟨now, reply, rfl, hAdopted⟩
  · rw [hSame]
    exact hOld.mono hLe
  · rw [hNext, hMove.journal_eq, candidacies_campaigns]
    exact .inr (hOld.add_one hk)
  · have hLt := append_term_lt hs h ((wired hs).sound.sent _ hMove.admits) rfl
    rw [hAdopted, (widen_narrow_eq_iff request.term).mpr (.inl (by omega))]
    exact .inr (by omega)
  · obtain ⟨m, _, hAns⟩ := answered_of_returned (wired hs) hMove.member hMove.admits
    rw [hAdopted]
    exact (h.answered m reply hAns).mono hLe

theorem bounded_moves (hs : (system cfg).Reaches ok s) (h : Bounded cfg s)
    (hk : candidacies s.journal < 2 ^ 31) (hMove : Moves cfg s t p i n out) : Bounded cfg t := by
  have hLe : candidacies s.journal ≤ candidacies t.journal := by
    rw [hMove.journal_eq]
    exact candidacies_le _ _
  constructor
  · apply hMove.forall_node (P := fun _ n => InReach (candidacies t.journal) n.raft.term)
    · exact fun q hq _ => (h.term q hq).mono hLe
    · exact term_moves hs h hk hMove
  · intro q term hCampaigned
    rcases did_moves hMove hCampaigned with hOld | ⟨rfl, rfl⟩
    · exact Nat.lt_of_lt_of_le (h.campaigned q term hOld) hLe
    · rw [hMove.journal_eq, candidacies_campaigns, hMove.turn.of_campaigns.2]
      exact (h.term q hMove.member).add_one hk
  · intro q term hLed
    rcases did_moves hMove hLed with hOld | ⟨rfl, rfl⟩
    · exact Nat.lt_of_lt_of_le (h.led q term hOld) hLe
    · -- the winner has begun this candidacy at the term it leads with
      obtain ⟨voteCount, hDemon, _, _, rfl⟩ := hMove.turn.of_leads
      have hBegun := (wired hs).campaigned q hMove.member (by rw [hDemon]; rfl)
      exact Nat.lt_of_lt_of_le (h.campaigned q _ hBegun) hLe
  · rintro m reply ⟨now, hNow⟩
    rw [hMove.journal_eq] at hNow
    rcases List.mem_cons.mp hNow with hEq | hOld
    · cases hEq
      rw [Node.append_reply_term hMove.turn]
      exact (h.term m.dest hMove.member).mono hLe
    · exact (h.answered m reply ⟨now, hOld⟩).mono hLe

theorem bounded (h : (system cfg).Reaches ok s) :
    candidacies s.journal < 2 ^ 31 → Bounded cfg s := by
  apply invariant_of_moves (I := fun s => candidacies s.journal < 2 ^ 31 → Bounded cfg s) _ _ h
  · exact fun s hInit _ => bounded_initial hInit
  · intro s t p i n out hs ih _ hMove hk
    have hLe : candidacies s.journal ≤ candidacies t.journal := by
      rw [hMove.journal_eq]
      exact candidacies_le _ _
    exact bounded_moves hs (ih (by omega)) (by omega) hMove

/-- With fewer than 2^31 candidacies in a run, no term outruns their number, so the `int`
of AppendMsg holds every term that a heartbeat carries. -/
theorem terms_below_candidacies (h : (system cfg).Reachable s)
    (hk : candidacies s.journal < 2 ^ 31) :
    (∀ p ∈ cfg.addrs, (s.nodes p).raft.term = -1 ∨
      (s.nodes p).raft.term.toNat < candidacies s.journal) ∧
    ∀ m ∈ s.net.posted, ∀ request, m.body = .append request →
      request.term.toNat < candidacies s.journal ∧ widen (narrow request.term) = request.term ∧
      ∀ (r : Raft) (now : Int),
        ((r.appendMsg request now).2.success = true ↔ r.term ≤ request.term) ∧
        ((r.appendMsg request now).2.success = true →
          (r.appendMsg request now).1.term = request.term) := by
  have hBounded := bounded h hk
  refine ⟨hBounded.term, fun m hm request hBody => ?_⟩
  have hLt := append_term_lt h hBounded hm hBody
  have hEq := (widen_narrow_eq_iff request.term).mpr (.inl (by omega))
  refine ⟨hLt, hEq, fun r now => ?_⟩
  have hSuccess := r.appendMsg_success_iff request now
  constructor
  · rw [hSuccess, Raft.Accepts, hEq]
  · intro hTrue
    rw [Raft.appendMsg_term (hSuccess.mp hTrue), hEq]

theorem terms_below_candidacies_pair : ∃ s m request, (system pairConfig).Reachable s ∧
    candidacies s.journal = 1 ∧ (s.nodes "a").raft.term = -1 ∧ m ∈ s.net.posted ∧
    m.body = .append request ∧ request.term.toNat < 1 := by
  obtain ⟨s, hs, hState⟩ := System.exists_reaches (system pairConfig) System.anyStep pairCluster
    heartbeatEvents (P := fun s => decide (candidacies s.journal = 1 ∧
      (s.nodes "a").raft.term = -1 ∧
      ⟨1, "a", .append { term? := some 0, candidateId? := some "b" }⟩ ∈ s.net.posted))
    pairCluster_initial (by decide)
  obtain ⟨hCount, hTerm, hPosted⟩ := of_decide_eq_true hState
  have hLt := ((terms_below_candidacies hs (by omega)).2 _ hPosted _ rfl).1
  exact ⟨s, _, _, hs, hCount, hTerm, hPosted, rfl, by omega⟩

end Cluster

end RaftCpp
