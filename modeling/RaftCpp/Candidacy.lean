import RaftCpp.Progress

/-! # A candidacy among the nodes of a cluster

A candidacy meets the other nodes here and not an arbitrary environment. Which
of the calls get through is up to the network. Of the peers that are reached in
time, those that are free to vote all count, and the set of them decides.
-/

namespace RaftCpp

open Transition AtMostOnce

/-- The handler would run at once and grant a vote. -/
def Node.Ready (n : Node) : Prop :=
  n.demon.lockFree = true ∧ n.raft.status ≠ .dead ∧ n.raft.Grants

instance (n : Node) : Decidable n.Ready := inferInstanceAs (Decidable (_ ∧ _ ∧ _))

def Output.win? : Output → Option UInt64
  | .leads term => some term
  | _ => none

/-- The nodes that have begun a candidacy, one entry for each time, the latest first. -/
def candidates (journal : List Record) : List String :=
  journal.filterMap fun r => r.output.campaign?.map fun _ => r.node

/-- The nodes that have won a candidacy, one entry for each time, the latest first. -/
def winners (journal : List Record) : List String :=
  journal.filterMap fun r => r.output.win?.map fun _ => r.node

/-- The turning points of a run: a node begins a candidacy, wins one, or is dead. -/
inductive Milestone where
  | campaigns (id : String)
  | wins (id : String)
  | dies (id : String)
  deriving DecidableEq

def Record.milestone? (r : Record) : Option Milestone :=
  match r.output, r.input with
  | .campaigns _, _ => some (.campaigns r.node)
  | .leads _, _ => some (.wins r.node)
  | _, .killed => some (.dies r.node)
  | _, _ => none

/-- The turning points that a journal tells of, the latest first. -/
def milestones (journal : List Record) : List Milestone := journal.filterMap Record.milestone?

def Milestone.candidate? : Milestone → Option String
  | .campaigns id => some id
  | _ => none

def Milestone.winner? : Milestone → Option String
  | .wins id => some id
  | _ => none

theorem candidates_eq (journal : List Record) :
    candidates journal = (milestones journal).filterMap Milestone.candidate? := by
  rw [candidates, milestones, List.filterMap_filterMap]
  congr 1
  funext r
  obtain ⟨id, i, out⟩ := r
  cases out <;> cases i <;> rfl

theorem winners_eq (journal : List Record) :
    winners journal = (milestones journal).filterMap Milestone.winner? := by
  rw [winners, milestones, List.filterMap_filterMap]
  congr 1
  funext r
  obtain ⟨id, i, out⟩ := r
  cases out <;> cases i <;> rfl

theorem milestones_concludes (journal : List Record) (p : String) (now : Int) (call : Nat)
    (wins : Prop) [Decidable wins] (term : UInt64) :
    milestones (⟨p, .advance now call, if wins then .leads term else .loses⟩ :: journal) =
      (if wins then [.wins p] else []) ++ milestones journal := by
  split <;> rfl

theorem milestones_of_none (journal : List Record) {r : Record} (h : r.milestone? = none) :
    milestones (r :: journal) = milestones journal := List.filterMap_cons_none h

namespace Cluster

variable {cfg : Config} {s t : Cluster} {p q : String} {i : Input} {n : Node} {out : Output}
  {rest : List String} {voteCount : Nat}

/-- No handler runs for a heartbeat. -/
def Calm (_ : Cluster) (e : Event) : Prop :=
  ∀ now call request, e.input ≠ .serve now call (.append request)

instance (s : Cluster) : (e : Event) → Decidable (Calm s e)
  | ⟨_, .serve now call (.append request)⟩ => isFalse fun h => h now call request rfl
  | ⟨_, .serve _ _ (.vote _)⟩ | ⟨_, .launch⟩ | ⟨_, .test⟩ | ⟨_, .wake _ _ _⟩
  | ⟨_, .advance _ _⟩ | ⟨_, .returned _ _⟩ | ⟨_, .kill⟩ | ⟨_, .killed⟩ =>
    isTrue fun _ _ _ h => by cases h

/-- No heartbeat is handled and no turn begins. -/
def NoTurn (_ : Cluster) : Event → Prop
  | ⟨_, .wake _ _ _⟩ | ⟨_, .serve _ _ (.append _)⟩ => False
  | _ => True

/-- No heartbeat is handled, and no leader begins a turn, which would be a round of them. -/
def Still (s : Cluster) : Event → Prop
  | ⟨p, .wake _ _ _⟩ => (s.nodes p).raft.status ≠ .leader
  | ⟨_, .serve _ _ (.append _)⟩ => False
  | _ => True

theorem Still.calm {e : Event} (h : Still s e) : Calm s e := by
  obtain ⟨p, i⟩ := e
  rintro now call request rfl
  exact h

theorem NoTurn.still {e : Event} (h : NoTurn s e) : Still s e := by
  obtain ⟨p, i⟩ := e
  cases i with
  | wake => cases h
  | serve now call request =>
    cases request with
    | vote => trivial
    | append => cases h
  | _ => trivial

/-- The call to `q` gets through in time and `q` is ready to vote. -/
def Answers (s : Cluster) (heard : String → Bool) (q : String) : Prop :=
  heard q = true ∧ (s.nodes q).Ready

instance (s : Cluster) (heard : String → Bool) (q : String) : Decidable (s.Answers heard q) :=
  inferInstanceAs (Decidable (_ ∧ _))

/-- A node that is asked by `p`, once the call has returned. -/
def asked (s : Cluster) (p : String) (now : Int) (heard : String → Bool) (q : String) : Node :=
  if s.Answers heard q then { s.nodes q with raft := (s.nodes q).raft.recordVote p now }
  else s.nodes q

/-- Another node, after `p` has asked those in `rest`. -/
def polled (s : Cluster) (p : String) (now : Int) (heard : String → Bool) (rest : List String)
    (q : String) : Node :=
  if q ∈ rest then s.asked p now heard q else s.nodes q

theorem advances_of_node (ok : Cluster → Event → Prop) (hp : p ∈ cfg.addrs)
    (hAdmits : s.Admits p i) (hok : ok s ⟨p, i⟩) (hStep : (s.nodes p).step i = some (n, out)) :
    (system cfg).Advances ok s (s.after p i n out) ∧ (s.after p i n out).nodes p = n ∧
      ∀ q, q ≠ p → (s.after p i n out).nodes q = s.nodes q := by
  have hMove := moves_of_node hp hAdmits hStep
  exact ⟨.next (.refl s) hok (step_of_node hp hAdmits hStep), hMove.nodes_self,
    fun q hq => hMove.nodes_of_ne hq⟩

theorem step_grants (h : n.Ready) (now : Int) (call : Nat) (request : VoteRequest) :
    n.step (.serve now call (.vote request)) =
      some ({ n with raft := n.raft.recordVote request.candidateId now },
        .replies call (.vote { term? := some n.raft.term, vote? := some true })) := by
  simp only [Node.step, if_pos (And.intro h.1 h.2.1), Node.serve, Raft.vote_of_grants h.2.2]

theorem answers_congr (h : t.nodes q = s.nodes q) (heard : String → Bool) :
    t.Answers heard q ↔ s.Answers heard q := by
  rw [Answers, Answers, h]

theorem backers_congr (heard : String → Bool)
    (h : ∀ q ∈ rest, q ≠ p → t.nodes q = s.nodes q) :
    backers p (t.Answers heard) rest = backers p (s.Answers heard) rest := by
  apply List.filter_congr
  intro q hq
  by_cases hqp : q = p
  · simp [hqp]
  · simp only [answers_congr (h q hq hqp) heard]

theorem asked_congr (h : t.nodes q = s.nodes q) (now : Int) (heard : String → Bool) :
    t.asked p now heard q = s.asked p now heard q := by
  simp only [asked, answers_congr h heard, h]

/-- One call of the vote loop. A peer that answers handles it before it expires; from any
other the caller gets nothing, or a refusal, which is the same to it. -/
theorem exists_asked (hs : (system cfg).Reachable s) (hp : p ∈ cfg.addrs) (now : Int)
    (heard : String → Bool) (hDemon : (s.nodes p).demon = .voting (q :: rest) voteCount)
    (hq : q ≠ p) :
    ∃ t, (system cfg).Advances NoTurn s t ∧
      t.nodes p = { s.nodes p with
        demon := .voting rest ((if s.Answers heard q then 1 else 0) + voteCount) } ∧
      t.nodes q = s.asked p now heard q ∧ (∀ r, r ≠ p → r ≠ q → t.nodes r = s.nodes r) ∧
      milestones t.journal = milestones s.journal := by
  have hSelf := selfId_eq hs hp
  have hLinked := linked hs hp
  have hMem : q ∈ cfg.addrs := by
    have hVisit : q ∈ (s.nodes p).demon.toVisit := by
      rw [hDemon]
      exact List.mem_cons_self
    exact Config.mem_members.mp (peers_subset hs hp (hLinked.visits q hVisit))
  have hAsk := Node.step_asksVote hLinked hDemon (hSelf.symm ▸ hq) now s.net.next
  have hFresh : s.Admits p (.advance now s.net.next) := rfl
  obtain ⟨hFirst, hCaller, hOthers⟩ := advances_of_node NoTurn hp hFresh trivial hAsk
  set u := s.after p (.advance now s.net.next) _ _ with hu
  by_cases hAnswers : s.Answers heard q
  · have hAdmits : u.Admits q (.serve now s.net.next (.vote (s.nodes p).raft.voteRequest)) :=
      List.mem_cons_self
    have hServe := step_grants hAnswers.2 now s.net.next (s.nodes p).raft.voteRequest
    rw [← hOthers q hq] at hServe
    obtain ⟨hSecond, hPeer, hRest⟩ := advances_of_node NoTurn hMem hAdmits trivial hServe
    set v := u.after q (.serve now s.net.next (.vote (s.nodes p).raft.voteRequest)) _ _ with hv
    have hWaits : v.nodes p = { s.nodes p with
        demon := .awaitingVote s.net.next q rest voteCount } := (hRest p hq.symm).trans hCaller
    have hCounts : (v.nodes p).step (.returned now (some (.vote
        { term? := some (u.nodes q).raft.term, vote? := some true }))) =
        some ({ s.nodes p with demon := .voting rest (voteCount + 1) }, .silent) := by
      rw [hWaits]
      rfl
    have hReturned : v.Admits p (.returned now (some (.vote
        { term? := some (u.nodes q).raft.term, vote? := some true }))) := by
      refine ⟨s.net.next, ?_, List.mem_cons_self⟩
      rw [hWaits]
      rfl
    obtain ⟨hThird, hDone, hLast⟩ := advances_of_node NoTurn hp hReturned trivial hCounts
    refine ⟨_, (hFirst.trans hSecond).trans hThird, ?_, ?_, ?_, rfl⟩
    · rw [hDone, if_pos hAnswers, Nat.add_comm]
    · rw [hLast q hq, hPeer, asked, if_pos hAnswers, hOthers q hq]
      have hCandidate : (s.nodes p).raft.voteRequest.candidateId = p := hSelf
      rw [hCandidate]
    · exact fun r hrp hrq => (hLast r hrp).trans ((hRest r hrq).trans (hOthers r hrp))
  · have hPasses : (u.nodes p).step (.returned now none) =
        some ({ s.nodes p with demon := .voting rest voteCount }, .silent) := by
      rw [hCaller]
      rfl
    have hExpired : u.Admits p (.returned now none) := trivial
    obtain ⟨hSecond, hDone, hLast⟩ := advances_of_node NoTurn hp hExpired trivial hPasses
    refine ⟨_, hFirst.trans hSecond, ?_, ?_, ?_, rfl⟩
    · rw [hDone, if_neg hAnswers, Nat.zero_add]
    · rw [hLast q hq, hOthers q hq, asked, if_neg hAnswers]
    · exact fun r hrp _ => (hLast r hrp).trans (hOthers r hrp)

theorem exists_polled (hs : (system cfg).Reachable s) (hp : p ∈ cfg.addrs) (now : Int)
    (heard : String → Bool) (hDemon : (s.nodes p).demon = .voting rest voteCount)
    (hNodup : rest.Nodup) :
    ∃ t, (system cfg).Advances NoTurn s t ∧
      t.nodes p = { s.nodes p with
        demon := .voting [] ((backers p (s.Answers heard) rest).length + voteCount) } ∧
      (∀ q, q ≠ p → t.nodes q = s.polled p now heard rest q) ∧
      milestones t.journal = milestones s.journal := by
  induction rest generalizing s voteCount with
  | nil =>
    refine ⟨s, .refl s, ?_, fun q _ => (if_neg List.not_mem_nil).symm, rfl⟩
    have hList : backers p (s.Answers heard) [] = [] := rfl
    rw [hList, List.length_nil, Nat.zero_add, ← hDemon]
  | cons q rest ih =>
    obtain ⟨hNotMem, hRest⟩ := List.nodup_cons.mp hNodup
    by_cases hq : q = p
    · subst hq
      have hSelf := selfId_eq hs hp
      have hSkip := Node.step_skipsVote (n := s.nodes q) (by rw [hDemon, hSelf]) now s.net.next
      have hFresh : s.Admits q (.advance now s.net.next) := rfl
      obtain ⟨hFirst, hCaller, hOthers⟩ := advances_of_node NoTurn hp hFresh trivial hSkip
      obtain ⟨t, hLeads, hSelf, hNodes, hSame⟩ := ih (hs.leads hFirst.leads) (by rw [hCaller]) hRest
      refine ⟨t, hFirst.trans hLeads, ?_, ?_, hSame⟩
      · rw [hSelf, hCaller, backers_self, backers_congr heard (fun r _ hr => hOthers r hr)]
      · intro r hr
        rw [hNodes r hr]
        simp only [polled, List.mem_cons, hr, false_or, asked_congr (hOthers r hr), hOthers r hr]
    · obtain ⟨u, hFirst, hCaller, hPeer, hOthers, hQuiet⟩ := exists_asked hs hp now heard hDemon hq
      obtain ⟨t, hLeads, hSelf, hNodes, hQuiet'⟩ :=
        ih (hs.leads hFirst.leads) (by rw [hCaller]) hRest
      have hSame : ∀ r ∈ rest, r ≠ p → u.nodes r = s.nodes r :=
        fun r hr hrp => hOthers r hrp (fun hrq => hNotMem (hrq ▸ hr))
      refine ⟨t, hFirst.trans hLeads, ?_, ?_, hQuiet'.trans hQuiet⟩
      · rw [hSelf, hCaller, length_backers_of_ne hq, backers_congr heard hSame, Nat.add_left_comm,
          ← Nat.add_assoc]
      · intro r hr
        rw [hNodes r hr]
        by_cases hrq : r = q
        · simp [polled, hrq, hNotMem, hPeer]
        · simp only [polled, List.mem_cons, hrq, false_or, asked_congr (hOthers r hr hrq),
            hOthers r hr hrq]

/-- The peers that vote for `p`, as a set. -/
def electorate (s : Cluster) (p : String) (heard : String → Bool) : Finset String :=
  ((s.nodes p).raft.peers.erase p).filter fun q => s.Answers heard q

/-- How a candidacy of `p` ends. -/
def outcome (s : Cluster) (p : String) (heard : String → Bool) : List Milestone :=
  if (s.nodes p).raft.HasQuorum (1 + (s.electorate p heard).card) then [.wins p] else []

/-- A candidacy from its first step to its last, with the calls to the peers in `heard`
answered in time and all others lost. -/
theorem exists_candidacy (hs : (system cfg).Reachable s) (hp : p ∈ cfg.addrs)
    {draw : Int} {order : List String} (hAwake : (s.nodes p).Awake draw order)
    (hStatus : (s.nodes p).raft.status = .candidate) (now : Int) (heard : String → Bool) :
    ∃ t u, (system cfg).step s ⟨p, .wake now draw order⟩ = some t ∧
      (system cfg).Advances NoTurn t u ∧
      milestones u.journal = s.outcome p heard ++ .campaigns p :: milestones s.journal ∧
      u.nodes p = ({ s.nodes p with raft := (s.nodes p).raft.campaign } : Node).conclude now
        (1 + (s.electorate p heard).card) ∧
      ∀ q, q ≠ p → u.nodes q = if q ∈ s.electorate p heard then
        { s.nodes q with raft := (s.nodes q).raft.recordVote p now } else s.nodes q := by
  have hWake := Node.step_campaigns hAwake hStatus now
  have hAdmits : s.Admits p (.wake now draw order) := trivial
  have hStep := step_of_node hp hAdmits hWake
  have hMove := moves_of_node hp hAdmits hWake
  have hSelf := hMove.nodes_self
  have hOthers := fun q (hq : q ≠ p) => hMove.nodes_of_ne hq
  have ht := hs.leads (.next (.refl s) hStep)
  obtain ⟨u, hLoop, hCounted, hPolled, hQuiet⟩ :=
    exists_polled ht hp now heard (by rw [hSelf]) hAwake.nodup
  rw [hSelf, backers_congr heard (fun q _ hq => hOthers q hq), hAwake.length_backers,
    Nat.add_comm] at hCounted
  have hEnd := Node.step_concludes (n := u.nodes p) (by rw [hCounted]) now u.net.next
  have hFresh : u.Admits p (.advance now u.net.next) := rfl
  obtain ⟨hLast, hDone, hKept⟩ := advances_of_node NoTurn hp hFresh trivial hEnd
  refine ⟨_, _, hStep, hLoop.trans hLast, ?_, ?_, ?_⟩
  · have hBegun : milestones u.journal = .campaigns p :: milestones s.journal := hQuiet
    refine (milestones_concludes _ _ _ _ _ _).trans ?_
    rw [hBegun, hCounted]
    rfl
  · rw [hDone, hCounted]
    rfl
  · intro q hq
    rw [hKept q hq, hPolled q hq, polled, asked_congr (hOthers q hq), asked, hOthers q hq]
    have hMem : q ∈ s.electorate p heard ↔ q ∈ order ∧ s.Answers heard q := by
      rw [electorate, ← hAwake.peers]
      simp [hq]
    by_cases hOrder : q ∈ order <;> by_cases hAnswers : s.Answers heard q <;>
      simp [hMem, hOrder, hAnswers]

/-- A candidacy is decided by the nodes as they are and by which of the calls get through.
Among the peers that are reached in time, those that are free, not dead and without a vote
record give their vote, all others stay as they were, and the candidate leads exactly if the
former are enough. -/
theorem candidacy_with_answers (hs : (system cfg).Reachable s) (hp : p ∈ cfg.addrs)
    {draw : Int} {order : List String} (hAwake : (s.nodes p).Awake draw order)
    (hStatus : (s.nodes p).raft.status = .candidate) (now : Int) (heard : String → Bool) :
    ∃ t u, (system cfg).step s ⟨p, .wake now draw order⟩ = some t ∧
      (system cfg).Advances NoTurn t u ∧
      (u.nodes p).demon = .unlocked ∧ (u.nodes p).raft.term = (s.nodes p).raft.term + 1 ∧
      ((u.nodes p).raft.status = .leader ↔
        (s.nodes p).raft.peers.card / 2 + 1 ≤ 1 + (s.electorate p heard).card) ∧
      ((u.nodes p).raft.status ≠ .leader →
        (u.nodes p).raft.status = .follower ∧ (u.nodes p).raft.voteFor = "") ∧
      ∀ q, q ≠ p → u.nodes q = if q ∈ s.electorate p heard then
        { s.nodes q with raft := (s.nodes q).raft.recordVote p now } else s.nodes q := by
  obtain ⟨t, u, hStep, hLeads, -, hSelf, hOthers⟩ :=
    exists_candidacy hs hp hAwake hStatus now heard
  refine ⟨t, u, hStep, hLeads, hSelf ▸ Node.conclude_demon, ?_, ?_, ?_, hOthers⟩
  all_goals
    rw [hSelf, Node.conclude]
    split
  · rfl
  · rfl
  · exact iff_of_true rfl ‹_›
  · exact iff_of_false RaftStatus.noConfusion ‹_›
  · exact fun hNot => absurd rfl hNot
  · exact fun _ => ⟨rfl, rfl⟩

theorem candidacy_with_answers_pair : ∃ s u, (system pairConfig).Reachable s ∧
    (system pairConfig).Advances Still s u ∧ (s.nodes "b").raft.status = .candidate ∧
    (u.nodes "b").raft.status = .leader ∧ (u.nodes "a").raft.voteFor = "b" := by
  obtain ⟨s, hs, hState⟩ := System.exists_reaches (system pairConfig) System.anyStep pairCluster
    [⟨"a", .launch⟩, ⟨"b", .launch⟩, ⟨"b", .test⟩, ⟨"b", .wake 6000 200 ["a", "b"]⟩,
      ⟨"b", .test⟩]
    (P := fun s : Cluster => decide ((s.nodes "b").Awake 200 ["a", "b"] ∧
      (s.nodes "b").raft.status = .candidate ∧ "a" ∈ s.electorate "b" (fun _ => true) ∧
      (s.nodes "b").raft.peers.card / 2 + 1 ≤ 1 + (s.electorate "b" (fun _ => true)).card))
    pairCluster_initial (by decide)
  obtain ⟨hAwake, hStatus, hVoter, hQuorum⟩ := of_decide_eq_true hState
  obtain ⟨t, u, hStep, hLeads, -, -, hLeader, -, hOthers⟩ :=
    candidacy_with_answers hs (by decide) hAwake hStatus 6000 (fun _ => true)
  have hStill : Still s ⟨"b", .wake 6000 200 ["a", "b"]⟩ := by
    rw [Still, hStatus]
    exact RaftStatus.noConfusion
  have hRest := hLeads.mono (fun _ _ hNoTurn => hNoTurn.still)
  refine ⟨s, u, hs, (System.Advances.next (.refl s) hStill hStep).trans hRest, hStatus,
    hLeader.mpr hQuorum, ?_⟩
  rw [hOthers "a" (by decide), if_pos hVoter]
  rfl

end Cluster

end RaftCpp
