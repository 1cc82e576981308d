import RaftCpp.Cluster

/-! # Calls, their answers and where messages come from

A call that a daemon waits in is the one it posted, and a reply to it was
produced by the called node for that very request. A vote request on the
network names a node that has begun a candidacy at its term, and a heartbeat
one that has won at its term; neither is ever addressed to its own sender.
-/

namespace RaftCpp

open Transition AtMostOnce

def Did (journal : List Record) (p : String) (out : Output) : Prop :=
  ∃ i, ⟨p, i, out⟩ ∈ journal

def Answered (journal : List Record) (m : Envelope String Request) (reply : Reply) : Prop :=
  ∃ now, ⟨m.dest, .serve now m.call m.body, .replies m.call reply⟩ ∈ journal

theorem Did.cons {journal : List Record} {p : String} {out : Output} (h : Did journal p out)
    (r : Record) : Did (r :: journal) p out := by
  obtain ⟨i, hi⟩ := h
  exact ⟨i, List.mem_cons_of_mem _ hi⟩

theorem did_cons_self (journal : List Record) (p : String) (i : Input) (out : Output) :
    Did (⟨p, i, out⟩ :: journal) p out := ⟨i, List.mem_cons_self⟩

theorem Did.of_cons {journal : List Record} {p q : String} {i : Input} {out out' : Output}
    (h : Did (⟨q, i, out'⟩ :: journal) p out) (hOut : out' ≠ out) : Did journal p out := by
  obtain ⟨j, hj⟩ := h
  rcases List.mem_cons.mp hj with hEq | hj
  · cases hEq
    exact absurd rfl hOut
  · exact ⟨j, hj⟩

theorem Answered.cons {journal : List Record} {m : Envelope String Request} {reply : Reply}
    (h : Answered journal m reply) (r : Record) : Answered (r :: journal) m reply := by
  obtain ⟨now, hNow⟩ := h
  exact ⟨now, List.mem_cons_of_mem _ hNow⟩

/-- What the sender of a request has done before it could send it. -/
def Request.cause : Request → Output
  | .vote request => .campaigns request.term
  | .append request => .leads request.term

namespace Node

variable {n n' : Node} {i : Input} {out : Output}

def pending (n : Node) : Option (Envelope String Request) :=
  match n.demon with
  | .awaitingVote call peer _ _ => some ⟨call, peer, .vote n.raft.voteRequest⟩
  | .awaitingAppend call peer _ => some ⟨call, peer, .append n.raft.appendRequest⟩
  | _ => none

theorem lockFree_of_pending {m : Envelope String Request} (h : n.pending = some m) :
    n.demon.lockFree = false := by
  unfold pending at h
  split at h <;> simp_all [Demon.lockFree]

theorem call_of_pending {call : Nat} (h : n.demon.call? = some call) :
    ∃ m, n.pending = some m ∧ m.call = call := by
  unfold Demon.call? at h
  unfold pending
  split at h <;> simp_all

theorem pending_turn (hLinked : n.Linked) (hTurn : Turn n i n' out)
    {m : Envelope String Request} (hm : n'.pending = some m) :
    n.pending = some m ∨ out = .calls m.call m.dest m.body := by
  cases hTurn with
  | refuses | kill => exact .inl hm
  | asksVote hDemon hPeer hStub | asksAppend hDemon hPeer hStub =>
    have hLive := hLinked.stub (by simp [hDemon]) (by rw [hDemon]; exact List.mem_cons_self) hPeer
    rw [hStub] at hLive
    cases hLive
    cases hm
    exact .inr rfl
  | grants hFree | follows hFree | yields hFree | rejects hFree =>
    have hBusy := lockFree_of_pending hm
    cases hFree.symm.trans hBusy
  | killed hDemon =>
    have hBusy := lockFree_of_pending hm
    rw [show _ = _ from hDemon] at hBusy
    cases hBusy
  | _ => cases hm

theorem inVote_turn (hTurn : Turn n i n' out) (h : n'.demon.inVote = true) :
    (n.demon.inVote = true ∧ n'.raft.term = n.raft.term) ∨ out = .campaigns n'.raft.term := by
  cases hTurn with
  | campaigns => exact .inr rfl
  | skipsVote hDemon | asksVote hDemon | counts hDemon | passes hDemon =>
    exact .inl ⟨by rw [hDemon]; rfl, rfl⟩
  | grants | refuses | rejects | kill | killed => exact .inl ⟨h, rfl⟩
  | follows hFree | yields hFree =>
    have hBusy := Demon.lockFree_of_inVote h
    cases hFree.symm.trans hBusy
  | _ => cases h

theorem leader_turn (hTurn : Turn n i n' out) (h : n'.raft.status = .leader) :
    (n.raft.status = .leader ∧ n'.raft.term = n.raft.term) ∨ out = .leads n'.raft.term := by
  cases hTurn with
  | leads => exact .inr rfl
  | stands | loses | deposed | yields | killed => cases h
  | campaigns _ hStatus => cases hStatus.symm.trans h
  | follows _ _ _ hStatus => exact absurd h hStatus.2
  | _ => exact .inl ⟨h, rfl⟩

theorem calls_turn (hLinked : n.Linked) {call : Nat} {endpoint : String} {request : Request}
    (hTurn : Turn n i n' (.calls call endpoint request)) :
    request.sender = n.raft.selfId ∧ endpoint ≠ n.raft.selfId ∧
      (request = .vote n.raft.voteRequest ∧ n.demon.inVote = true ∨
        request = .append n.raft.appendRequest ∧ n.demon.inBeat = true) := by
  cases hTurn with
  | asksVote hDemon hPeer hStub | asksAppend hDemon hPeer hStub =>
    have hLive := hLinked.stub (by simp [hDemon]) (by rw [hDemon]; exact List.mem_cons_self) hPeer
    rw [hStub] at hLive
    cases hLive
    refine ⟨rfl, hPeer, ?_⟩
    simp [hDemon, Demon.inVote, Demon.inBeat]

end Node

theorem posted_emit {net : Network} {out : Output} {m : Envelope String Request}
    (h : m ∈ net.posted) : m ∈ (emit net out).posted := by
  cases out with
  | calls => exact List.mem_cons_of_mem _ h
  | _ => exact h

theorem of_posted_emit {net : Network} {out : Output} {m : Envelope String Request}
    (h : m ∈ (emit net out).posted) :
    m ∈ net.posted ∨ m.call = net.next ∧ ∃ call, out = .calls call m.dest m.body := by
  cases out with
  | calls call endpoint request =>
    rcases List.mem_cons.mp h with rfl | h
    · exact .inr ⟨rfl, call, rfl⟩
    · exact .inl h
  | _ => exact .inl h

namespace Cluster

variable {cfg : Config} {s t : Cluster} {ok : Cluster → Event → Prop}
  {p : String} {i : Input} {n : Node} {out : Output}

theorem not_did_initial (h : (system cfg).initial s) : ¬ Did s.journal p out := by
  rintro ⟨i, hi⟩
  rw [h.2.1] at hi
  cases hi

theorem did_moves {q : String} {out' : Output} (hMove : Moves cfg s t p i n out)
    (h : Did t.journal q out') : Did s.journal q out' ∨ q = p ∧ out' = out := by
  obtain ⟨j, hj⟩ := h
  rw [hMove.journal_eq] at hj
  rcases List.mem_cons.mp hj with hEq | hj
  · cases hEq
    exact .inr ⟨rfl, rfl⟩
  · exact .inl ⟨j, hj⟩

theorem did_advances (h : (system cfg).Advances ok s t) (hDid : Did s.journal p out) :
    Did t.journal p out := by
  induction h with
  | refl => exact hDid
  | next _ _ hStep ih =>
    obtain ⟨n, out', hMove⟩ := moves_of_step hStep
    rw [hMove.journal_eq]
    exact ih.cons _

theorem not_answered_initial (h : (system cfg).initial s) {m : Envelope String Request}
    {reply : Reply} : ¬ Answered s.journal m reply := by
  rintro ⟨now, hNow⟩
  rw [h.2.1] at hNow
  cases hNow

structure Origin (cfg : Config) (journal : List Record) (m : Envelope String Request) : Prop where
  sender_mem : m.body.sender ∈ cfg.addrs
  sender_ne : m.body.sender ≠ m.dest
  caused : Did journal m.body.sender m.body.cause

structure Wired (cfg : Config) (s : Cluster) : Prop where
  sound : s.net.Sound (Answered s.journal)
  awaits : ∀ p ∈ cfg.addrs, ∀ m, (s.nodes p).pending = some m → m ∈ s.net.posted
  campaigned : ∀ p ∈ cfg.addrs, (s.nodes p).demon.inVote = true →
    Did s.journal p (.campaigns (s.nodes p).raft.term)
  led : ∀ p ∈ cfg.addrs, (s.nodes p).raft.status = .leader →
    Did s.journal p (.leads (s.nodes p).raft.term)
  origin : ∀ m ∈ s.net.posted, Origin cfg s.journal m

theorem sound_moves (h : s.net.Sound (Answered s.journal)) (hMove : Moves cfg s t p i n out) :
    t.net.Sound (Answered t.journal) := by
  rw [hMove.net_eq, hMove.journal_eq]
  have hMono : s.net.Sound (Answered (⟨p, i, out⟩ :: s.journal)) :=
    h.mono (fun _ _ hAns => hAns.cons _)
  cases out with
  | calls call endpoint request => exact hMono.post endpoint request
  | replies call reply =>
    obtain ⟨now, request, rfl⟩ := hMove.turn.input_of_replies
    exact hMono.answer (m := ⟨call, p, request⟩) hMove.admits ⟨now, List.mem_cons_self⟩
  | _ => exact hMono

theorem awaits_moves (hs : (system cfg).Reaches ok s) (h : Wired cfg s)
    (hMove : Moves cfg s t p i n out) :
    ∀ q ∈ cfg.addrs, ∀ m, (t.nodes q).pending = some m → m ∈ t.net.posted := by
  rw [hMove.net_eq]
  apply hMove.forall_node (P := fun _ n => ∀ m, n.pending = some m → m ∈ (emit s.net out).posted)
  · exact fun q hq _ m hm => posted_emit (h.awaits q hq m hm)
  · intro m hm
    rcases Node.pending_turn (linked hs hMove.member) hMove.turn hm with hOld | rfl
    · exact posted_emit (h.awaits p hMove.member m hOld)
    · obtain ⟨now, rfl⟩ := hMove.turn.input_of_calls
      have hCall : m.call = s.net.next := hMove.admits
      have hm' : m = ⟨s.net.next, m.dest, m.body⟩ := by rw [← hCall]
      rw [hm']
      exact List.mem_cons_self

theorem campaigned_moves (h : Wired cfg s) (hMove : Moves cfg s t p i n out) :
    ∀ q ∈ cfg.addrs, (t.nodes q).demon.inVote = true →
      Did t.journal q (.campaigns (t.nodes q).raft.term) := by
  rw [hMove.journal_eq]
  apply hMove.forall_node (P := fun q n => n.demon.inVote = true →
    Did (⟨p, i, out⟩ :: s.journal) q (.campaigns n.raft.term))
  · exact fun q hq _ hVote => (h.campaigned q hq hVote).cons _
  · intro hVote
    rcases Node.inVote_turn hMove.turn hVote with ⟨hOld, hTerm⟩ | rfl
    · rw [hTerm]
      exact (h.campaigned p hMove.member hOld).cons _
    · exact did_cons_self _ _ _ _

theorem led_moves (h : Wired cfg s) (hMove : Moves cfg s t p i n out) :
    ∀ q ∈ cfg.addrs, (t.nodes q).raft.status = .leader →
      Did t.journal q (.leads (t.nodes q).raft.term) := by
  rw [hMove.journal_eq]
  apply hMove.forall_node (P := fun q n => n.raft.status = .leader →
    Did (⟨p, i, out⟩ :: s.journal) q (.leads n.raft.term))
  · exact fun q hq _ hLeader => (h.led q hq hLeader).cons _
  · intro hLeader
    rcases Node.leader_turn hMove.turn hLeader with ⟨hOld, hTerm⟩ | rfl
    · rw [hTerm]
      exact (h.led p hMove.member hOld).cons _
    · exact did_cons_self _ _ _ _

theorem origin_moves (hs : (system cfg).Reaches ok s) (h : Wired cfg s)
    (hMove : Moves cfg s t p i n out) : ∀ m ∈ t.net.posted, Origin cfg t.journal m := by
  rw [hMove.net_eq, hMove.journal_eq]
  intro m hm
  rcases of_posted_emit hm with hm | ⟨_, call, rfl⟩
  · have hOld := h.origin m hm
    exact ⟨hOld.sender_mem, hOld.sender_ne, hOld.caused.cons _⟩
  · obtain ⟨hSender, hDest, hBody⟩ := Node.calls_turn (linked hs hMove.member) hMove.turn
    have hSelf := selfId_eq hs hMove.member
    rw [hSelf] at hSender hDest
    refine ⟨hSender ▸ hMove.member, hSender ▸ hDest.symm, ?_⟩
    rw [hSender]
    rcases hBody with ⟨hVote, hDemon⟩ | ⟨hAppend, hDemon⟩
    · rw [hVote]
      exact (h.campaigned p hMove.member hDemon).cons _
    · rw [hAppend]
      have hLeader := ((settled hs hMove.member).leader hDemon).1
      exact (h.led p hMove.member hLeader).cons _

theorem wired (h : (system cfg).Reaches ok s) : Wired cfg s := by
  apply invariant_of_moves _ _ h
  · intro s hInit
    refine ⟨hInit.1 ▸ Net.sound_empty, ?_, ?_, ?_, ?_⟩
    · intro p hp m hm
      obtain ⟨boot, peerId, hEq⟩ := initial_node hInit hp
      rw [hEq] at hm
      cases hm
    · intro p hp hVote
      obtain ⟨boot, peerId, hEq⟩ := initial_node hInit hp
      rw [hEq] at hVote
      cases hVote
    · intro p hp hLeader
      obtain ⟨boot, peerId, hEq⟩ := initial_node hInit hp
      rw [hEq] at hLeader
      cases hLeader
    · intro m hm
      rw [hInit.1] at hm
      cases hm
  · intro s t p i n out hs ih _ hMove
    exact ⟨sound_moves ih.sound hMove, awaits_moves hs ih hMove, campaigned_moves ih hMove,
      led_moves ih hMove, origin_moves hs ih hMove⟩

theorem origin_of_served (h : (system cfg).Reaches ok s) {now : Int} {call : Nat}
    {request : Request} (hAdmits : s.Admits p (.serve now call request)) :
    Origin cfg s.journal ⟨call, p, request⟩ :=
  (wired h).origin _ ((wired h).sound.sent _ hAdmits)

theorem sender_ne_empty (h : (system cfg).Reaches ok s) (hAdmits : s.Admits p i) :
    ∀ now call request, i = .serve now call request → request.sender ≠ "" := by
  rintro now call request rfl
  exact cfg.addr_ne _ (origin_of_served h hAdmits).sender_mem

theorem answered_lt_next (h : (system cfg).Reaches ok s) :
    ∀ m reply, Answered s.journal m reply → m.call < s.net.next := by
  apply invariant_of_moves _ _ h
  · exact fun s hInit m reply hAns => absurd hAns (not_answered_initial hInit)
  · rintro s t p i n out hs ih _ hMove m reply ⟨now, hNow⟩
    have hNext : s.net.next ≤ t.net.next := by
      rw [hMove.net_eq]
      cases out with
      | calls => exact Nat.le_succ _
      | _ => exact Nat.le_refl _
    rw [hMove.journal_eq] at hNow
    rcases List.mem_cons.mp hNow with hEq | hOld
    · cases hEq
      have hPosted := (wired hs).sound.sent _ hMove.admits
      exact Nat.lt_of_lt_of_le ((wired hs).sound.fresh _ hPosted) hNext
    · exact Nat.lt_of_lt_of_le (ih m reply ⟨now, hOld⟩) hNext

/-- A call has no answer before it is made. -/
theorem not_answered_before (h : (system cfg).Reaches ok s) : ∀ recent older p m reply,
    s.journal = recent ++ older → Did recent p (.calls m.call m.dest m.body) →
    ¬ Answered older m reply := by
  apply invariant_of_moves _ _ h
  · rintro s hInit recent older p m reply hJournal ⟨i, hi⟩
    rw [hInit.2.1] at hJournal
    rw [(List.nil_eq_append_iff.mp hJournal).1] at hi
    cases hi
  · rintro s t p i n out hs ih _ hMove recent older q m reply hJournal ⟨j, hj⟩ hAns
    rw [hMove.journal_eq] at hJournal
    cases recent with
    | nil => cases hj
    | cons r recent =>
      obtain ⟨rfl, hOld⟩ := List.cons.inj hJournal
      rcases List.mem_cons.mp hj with hEq | hj
      · cases hEq
        obtain ⟨now, rfl⟩ := hMove.turn.input_of_calls
        obtain ⟨now', hNow⟩ := hAns
        have hLt := answered_lt_next hs m reply ⟨now', hOld ▸ List.mem_append_right _ hNow⟩
        have hCall : m.call = s.net.next := hMove.admits
        omega
      · exact ih recent older q m reply hOld ⟨j, hj⟩ hAns

end Cluster

end RaftCpp
