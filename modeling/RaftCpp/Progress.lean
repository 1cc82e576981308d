import RaftCpp.Calls
import RaftCpp.Rounds

/-! # Turns end, so that locks are released and Kill returns

The daemon holds the lock while it waits in a call, and two candidates may well
call each other, each with its own handler locked out. No turn goes on for ever
all the same: every step of one takes it closer to its end, and a call that
nobody answers returns with an error. So no state of the cluster is stuck, and
Kill, which joins the daemon thread, comes to its last line.
-/

namespace RaftCpp

open Transition Machine

/-- A step that the daemon takes inside a turn: it goes on in a loop, or a call returns. -/
def Input.inTurn : Input → Bool
  | .advance _ _ | .returned _ _ => true
  | _ => false

/-- How many more steps a turn can take. -/
def Demon.work : Demon → Nat
  | .voting rest _ | .beating rest => 2 * rest.length + 1
  | .awaitingVote _ _ rest _ | .awaitingAppend _ _ rest => 2 * rest.length + 2
  | _ => 0

/-- Nobody answers, and the next call has the given number. -/
def silence (call : Nat) : Environment := ⟨fun _ => 0, fun _ => call, fun _ => none, fun _ => none⟩

theorem Demon.work_le (d : Demon) : d.work ≤ 2 * d.toVisit.length + 2 := by
  cases d <;> simp only [work, toVisit] <;> omega

namespace Node

variable {n n' m : Node} {i : Input} {out : Output} {env : Environment}
  {peersAddrs : List String} {peerId : Fin peersAddrs.length} {h : List (Entry Input Output)}

theorem work_turn (hTurn : Turn n i n' out) (hIn : i.inTurn = true) :
    n'.demon.work < n.demon.work := by
  cases hTurn with
  | skipsVote hDemon | asksVote hDemon | faultsVote hDemon | leads hDemon | loses hDemon
  | skipsBeat hDemon | asksAppend hDemon | faultsAppend hDemon | endsBeat hDemon
  | counts hDemon | passes hDemon | goesOn hDemon | deposed hDemon =>
    rw [hDemon]
    simp only [Demon.work, List.length_cons]
    omega
  | _ => cases hIn

theorem status_ne_dead_turn (hTurn : Turn n i n' out) (hIn : i.inTurn = true)
    (h : n.raft.status ≠ .dead) : n'.raft.status ≠ .dead := by
  cases hTurn with
  | leads | loses | deposed => exact RaftStatus.noConfusion
  | killed => cases hIn
  | yields => cases hIn
  | stands => cases hIn
  | _ => exact h

theorem endpoint_mem_peers (hLinked : n.Linked) {call : Nat} {endpoint : String}
    {request : Request} (hTurn : Turn n i n' (.calls call endpoint request)) :
    endpoint ∈ n.raft.peers := by
  cases hTurn with
  | @asksVote _ _ peer _ _ _ hDemon hPeer hStub | @asksAppend _ _ peer _ _ hDemon hPeer hStub =>
    have hVisit : peer ∈ n.demon.toVisit := by
      rw [hDemon]
      exact List.mem_cons_self
    have hLive := hLinked.stub (by simp [hDemon]) hVisit hPeer
    rw [hStub] at hLive
    cases hLive
    exact hLinked.visits _ hVisit

theorem inTurn_of_input (h : env.input n = some i) : i.inTurn = true := by
  unfold Environment.input at h
  split at h <;> cases h <;> rfl

/-- Whatever comes back, the daemon has a next step inside a turn. -/
theorem exists_step_of_input (h : env.input n = some i) : ∃ n' out, n.step i = some (n', out) := by
  unfold Environment.input at h
  split at h
  · rename_i rest voteCount hDemon
    cases h
    cases rest with
    | nil => simp only [step, advance, hDemon]; split <;> exact ⟨_, _, rfl⟩
    | cons peer rest => simp only [step, advance, hDemon]; split <;> exact ⟨_, _, rfl⟩
  · rename_i rest hDemon
    cases h
    cases rest with
    | nil => simp only [step, advance, hDemon]; exact ⟨_, _, rfl⟩
    | cons peer rest => simp only [step, advance, hDemon]; split <;> exact ⟨_, _, rfl⟩
  · rename_i call peer rest voteCount hDemon
    cases h
    exact ⟨_, _, step_countsVote hDemon env _⟩
  · rename_i call peer rest hDemon
    cases h
    cases hReply : env.append peer with
    | none => simp only [step, returned, hDemon, Option.map_none]; exact ⟨_, _, rfl⟩
    | some reply =>
      simp only [step, returned, hDemon, Option.map_some]
      split <;> exact ⟨_, _, rfl⟩
  · cases h

theorem lockFree_of_input (hFault : n.demon ≠ .fault) (h : env.input n = none) :
    n.demon.lockFree = true := by
  unfold Environment.input at h
  cases hDemon : n.demon <;> simp_all [Demon.lockFree]

theorem input_of_lockFree (h : n.demon.lockFree = true) (env : Environment) :
    env.input n = none := by
  unfold Environment.input
  cases hDemon : n.demon <;> simp_all [Demon.lockFree]

theorem isDead_turn (hTurn : Turn n i n' out) (h : n.raft.isDead = true) :
    n'.raft.isDead = true := by
  cases hTurn <;> first | exact h | rfl

/-- With the flag set, the daemon is past the test only if it was so before. -/
theorem atLock_turn (hTurn : Turn n i n' out) (h : n.raft.isDead = true)
    (hAfter : n'.demon = .atLock) : n.demon = .atLock := by
  cases hTurn with
  | test _ hAlive => cases hAlive.symm.trans h
  | grants | refuses | follows | yields | rejects | kill | killed => exact hAfter
  | _ => cases hAfter

/-- What the daemon keeps while it is driven to the end of its turn. -/
structure Driven (peersAddrs : List String) (peerId : Fin peersAddrs.length) (dead : Bool)
    (n : Node) : Prop where
  reachable : (system peersAddrs peerId).Reachable n
  killed : dead = true → n.raft.isDead = true ∧ n.demon ≠ .atLock

theorem Driven.next {dead : Bool} (h : Driven peersAddrs peerId dead n)
    (hInput : env.input n = some i) :
    ∃ n' out, n.step i = some (n', out) ∧ Driven peersAddrs peerId dead n' ∧
      n'.demon.work < n.demon.work ∧ i.inTurn = true := by
  obtain ⟨n', out, hStep⟩ := exists_step_of_input hInput
  have hTurn := turn_of_step hStep
  have hIn := inTurn_of_input hInput
  refine ⟨n', out, hStep, ⟨reachable_step h.reachable hStep, ?_⟩, work_turn hTurn hIn, hIn⟩
  intro hd
  obtain ⟨hDead, hNot⟩ := h.killed hd
  exact ⟨isDead_turn hTurn hDead, fun hAfter => hNot (atLock_turn hTurn hDead hAfter)⟩

theorem Driven.completes {dead : Bool} (h : Driven peersAddrs peerId dead n) (env : Environment) :
    ∃ m, Completes step env.input n.demon.work n m (fun h => ∀ e ∈ h, e.input.inTurn = true) ∧
      Driven peersAddrs peerId dead m ∧ m.demon.lockFree = true := by
  obtain ⟨m, hCompletes, hm, hInput⟩ := exists_completes (r := fun n : Node => n.demon.work)
    (I := Driven peersAddrs peerId dead) (G := fun e => e.input.inTurn = true)
    (fun n i hn (hi : env.input n = some i) => hn.next hi) h
  exact ⟨m, hCompletes, hm, lockFree_of_input (linked_of_reachable hm.reachable).noFault hInput⟩

/-- Whatever the calls bring back, a turn that has begun gives the lock back, and no way of
going on takes more steps than two for each peer that is left and two more. -/
theorem turn_ends (h : (system peersAddrs peerId).Reachable n) (env : Environment) :
    (∃ m, Completes step env.input (2 * n.demon.toVisit.length + 2) n m
        (fun h => ∀ e ∈ h, e.input.inTurn = true) ∧ m.demon.lockFree = true) ∧
    ∀ h m, Plays step n h m → (∀ e ∈ h, e.input.inTurn = true) →
      h.length ≤ 2 * n.demon.toVisit.length + 2 := by
  constructor
  · have hDriven : Driven peersAddrs peerId false n := ⟨h, Bool.noConfusion⟩
    obtain ⟨m, hCompletes, -, hFree⟩ := hDriven.completes env
    exact ⟨m, hCompletes.mono n.demon.work_le, hFree⟩
  · intro h m hPlays hIn
    have hLe := hPlays.length_le_rank (r := fun n : Node => n.demon.work)
      (G := fun e => e.input.inTurn = true)
      (fun n i n' out hi hStep => work_turn (turn_of_step hStep) hi) hIn
    have hWork := n.demon.work_le
    omega

/-- The inputs that make the first of two nodes a candidate waiting for the second. -/
def waitingInputs : List Input :=
  [.launch, .test, .wake 6000 200 ["a", "b"], .test, .wake 6000 200 ["a", "b"], .advance 6000 0,
    .advance 6000 0]

theorem turn_ends_waiting : ∃ n : Node, (system ["a", "b"] 0).Reachable n ∧
    n.demon = .awaitingVote 0 "b" [] 1 ∧
    ∃ m, Completes step (silence 1).input 2 n m (fun h => ∀ e ∈ h, e.input.inTurn = true) ∧
      m.demon.lockFree = true := by
  obtain ⟨n, hn, hDemon⟩ := System.exists_reaches (system ["a", "b"] 0) System.anyStep
    (new sampleBoot ["a", "b"] 0) waitingInputs
    (P := fun n : Node => decide (n.demon = .awaitingVote 0 "b" [] 1)) ⟨_, rfl⟩ (by decide)
  have hDemon := of_decide_eq_true hDemon
  have hEnds := (turn_ends hn (silence 1)).1
  rw [hDemon] at hEnds
  exact ⟨n, hn, hDemon, hEnds⟩

/-- Once Kill has returned, a node has no step left that does anything. -/
theorem frozen_of_dead (hStatus : n.raft.status = .dead) (hDead : n.raft.isDead = true)
    (hDemon : n.demon = .unlocked) (hTurn : Turn n i n' out) : n' = n ∧ out = .silent := by
  obtain ⟨raft, demon, channels⟩ := n
  subst hDemon
  cases hTurn with
  | test _ hAlive => cases hAlive.symm.trans hDead
  | grants _ hAlive | refuses _ hAlive | follows _ hAlive | yields _ hAlive | rejects _ hAlive =>
    exact absurd hStatus hAlive
  | kill =>
    have hSame : raft.kill = raft := by
      rw [Raft.kill, ← hDead]
    exact ⟨by rw [show raft.kill = raft from hSame], rfl⟩
  | killed =>
    have hSame : raft.killed = raft := by
      rw [Raft.killed, ← hStatus]
    exact ⟨by rw [show raft.killed = raft from hSame], rfl⟩
  | waits hAwake | stands hAwake | evicts hAwake | campaigns hAwake | starts hAwake =>
    cases hAwake.demon
  | launch hBusy | skipsVote hBusy | asksVote hBusy | faultsVote hBusy | leads hBusy | loses hBusy
  | skipsBeat hBusy | asksAppend hBusy | faultsAppend hBusy | endsBeat hBusy | counts hBusy
  | passes hBusy | goesOn hBusy | deposed hBusy => cases hBusy

end Node

namespace Cluster

open AtMostOnce

variable {cfg : Config} {s t : Cluster} {p : String} {i : Input} {n : Node} {out : Output}

theorem admits_of_silence (h : (silence s.net.next).input (s.nodes p) = some i) :
    s.Admits p i := by
  unfold Environment.input at h
  split at h <;> cases h <;> first | rfl | trivial

/-- A daemon that holds the lock goes on in its turn. -/
def WithinTurn (s : Cluster) (e : Event) : Prop :=
  (s.nodes e.node).demon.lockFree = false ∧ e.input.inTurn = true

theorem withinTurn_of_silence (h : (silence s.net.next).input (s.nodes p) = some i) :
    s.WithinTurn ⟨p, i⟩ := by
  refine ⟨Bool.eq_false_iff.mpr fun hFree => ?_, Node.inTurn_of_input h⟩
  rw [Node.input_of_lockFree hFree] at h
  cases h

section WithinTurn

variable (h : (system cfg).Advances WithinTurn s t)

include h

/-- While turns go on, the nodes in between two turns take no step. -/
theorem nodes_of_lockFree (hFree : (s.nodes p).demon.lockFree = true) :
    t.nodes p = s.nodes p := by
  induction h with
  | refl => rfl
  | @next t u e _ hWithin hStep ih =>
    obtain ⟨n, out, hMove⟩ := moves_of_step hStep
    have hNe : p ≠ e.node := by
      rintro rfl
      rw [WithinTurn, ih, hFree] at hWithin
      cases hWithin.1
    rw [hMove.nodes_of_ne hNe, ih]

theorem status_ne_dead_of_withinTurn (hAlive : (s.nodes p).raft.status ≠ .dead) :
    (t.nodes p).raft.status ≠ .dead := by
  induction h with
  | refl => exact hAlive
  | next _ hWithin hStep ih =>
    obtain ⟨n, out, hMove⟩ := moves_of_step hStep
    rcases hMove.same_or_turn p with hSame | ⟨-, hTurn⟩
    · rwa [hSame]
    · exact Node.status_ne_dead_turn hTurn hWithin.2 ih

theorem requests_of_withinTurn {m : Envelope String Request} (hm : m ∈ s.net.requests) :
    m ∈ t.net.requests := by
  induction h with
  | refl => exact hm
  | next _ hWithin hStep ih =>
    obtain ⟨n, out, hMove⟩ := moves_of_step hStep
    rw [hMove.net_eq]
    cases out with
    | calls => exact List.mem_cons_of_mem _ ih
    | replies call reply =>
      obtain ⟨now, request, hInput⟩ := hMove.turn.input_of_replies
      rw [WithinTurn, hInput] at hWithin
      cases hWithin.2
    | _ => exact ih

end WithinTurn

theorem exists_released (hs : (system cfg).Reachable s) (hp : p ∈ cfg.addrs) :
    ∃ t, (system cfg).Advances WithinTurn s t ∧ (t.nodes p).demon.lockFree = true := by
  induction hWork : (s.nodes p).demon.work using Nat.strongRecOn generalizing s with
  | ind k ih =>
    subst hWork
    cases hInput : (silence s.net.next).input (s.nodes p) with
    | none => exact ⟨s, .refl s, Node.lockFree_of_input (linked hs hp).noFault hInput⟩
    | some i =>
      obtain ⟨n, out, hStep⟩ := Node.exists_step_of_input hInput
      have hAdmits := admits_of_silence hInput
      have hMove := moves_of_node hp hAdmits hStep
      have hNext := System.Advances.next (.refl s) (withinTurn_of_silence hInput)
        (step_of_node hp hAdmits hStep)
      have hLess : ((s.after p i n out).nodes p).demon.work < (s.nodes p).demon.work := by
        rw [hMove.nodes_self]
        exact Node.work_turn hMove.turn (Node.inTurn_of_input hInput)
      obtain ⟨t, hGoesOn, hFree⟩ := ih _ hLess (hs.leads hNext.leads) rfl
      exact ⟨t, hNext.trans hGoesOn, hFree⟩

theorem exists_released_all (hs : (system cfg).Reachable s) {moved : List String}
    (hMoved : ∀ p ∈ moved, p ∈ cfg.addrs) :
    ∃ t, (system cfg).Advances WithinTurn s t ∧ ∀ p ∈ moved, (t.nodes p).demon.lockFree = true := by
  induction moved generalizing s with
  | nil =>
    refine ⟨s, .refl s, ?_⟩
    intro p hp
    cases hp
  | cons p moved ih =>
    obtain ⟨hp, hRest⟩ := List.forall_mem_cons.mp hMoved
    obtain ⟨u, hsu, hFree⟩ := exists_released hs hp
    obtain ⟨t, hut, hOthers⟩ := ih (hs.leads hsu.leads) hRest
    refine ⟨t, hsu.trans hut, List.forall_mem_cons.mpr ⟨?_, hOthers⟩⟩
    rw [nodes_of_lockFree hut hFree]
    exact hFree

theorem dest_mem_addrs {ok : Cluster → Event → Prop} (h : (system cfg).Reaches ok s) :
    ∀ m ∈ s.net.posted, m.dest ∈ cfg.addrs := by
  apply invariant_of_moves _ _ h
  · intro s hInit m hm
    rw [hInit.1] at hm
    cases hm
  · intro s t p i n out hs ih _ hMove m hm
    rw [hMove.net_eq] at hm
    rcases of_posted_emit hm with hOld | ⟨-, call, rfl⟩
    · exact ih m hOld
    · have hPeer := Node.endpoint_mem_peers (linked hs hMove.member) hMove.turn
      exact Config.mem_members.mp (peers_subset hs hMove.member hPeer)

theorem exists_answer {m : Envelope String Request} (hm : m ∈ s.net.requests)
    (hp : m.dest ∈ cfg.addrs) (hFree : (s.nodes m.dest).demon.lockFree = true)
    (hAlive : (s.nodes m.dest).raft.status ≠ .dead) :
    ∃ t reply, (system cfg).Leads s t ∧ (m.call, reply) ∈ t.net.replies := by
  have hStep : (s.nodes m.dest).step (.serve 0 m.call m.body) =
      some ((s.nodes m.dest).serve 0 m.call m.body) := if_pos ⟨hFree, hAlive⟩
  have hReply : ∃ n reply, (s.nodes m.dest).serve 0 m.call m.body = (n, .replies m.call reply) := by
    cases m.body with
    | vote => exact ⟨_, _, rfl⟩
    | append => exact ⟨_, _, rfl⟩
  obtain ⟨n, reply, hServe⟩ := hReply
  rw [hServe] at hStep
  have hAdmits : s.Admits m.dest (.serve 0 m.call m.body) := hm
  refine ⟨_, reply, .next (.refl s) (step_of_node hp hAdmits hStep), ?_⟩
  exact List.mem_cons_self

/-- No state of the cluster is stuck. Even when candidates wait for each other, the turns
in progress can all be finished, without a step of any other node, and a request on its way
to a node that is not dead can still be handled there. -/
theorem no_deadlock (h : (system cfg).Reachable s) :
    (∃ t, (system cfg).Advances WithinTurn s t ∧
      ∀ p ∈ cfg.addrs, (t.nodes p).demon.lockFree = true ∧
        ((s.nodes p).demon.lockFree = true → t.nodes p = s.nodes p)) ∧
    ∀ m ∈ s.net.requests, (s.nodes m.dest).raft.status ≠ .dead →
      ∃ t reply, (system cfg).Leads s t ∧ (m.call, reply) ∈ t.net.replies := by
  obtain ⟨t, hst, hFree⟩ := exists_released_all h (fun p (hp : p ∈ cfg.addrs) => hp)
  constructor
  · exact ⟨t, hst, fun p hp => ⟨hFree p hp, nodes_of_lockFree hst⟩⟩
  · intro m hm hAlive
    have hDest := dest_mem_addrs h m ((wired h).sound.sent m hm)
    obtain ⟨u, reply, htu, hReply⟩ := exists_answer (requests_of_withinTurn hst hm) hDest
      (hFree _ hDest) (status_ne_dead_of_withinTurn hst hAlive)
    exact ⟨u, reply, hst.leads.trans htu, hReply⟩

/-- Two candidates, each in a call to the other. -/
def mutualEvents : List Event :=
  [⟨"a", .launch⟩, ⟨"b", .launch⟩, ⟨"a", .test⟩, ⟨"a", .wake 6000 200 ["a", "b"]⟩, ⟨"b", .test⟩,
    ⟨"b", .wake 6000 200 ["a", "b"]⟩, ⟨"a", .test⟩, ⟨"a", .wake 6000 200 ["a", "b"]⟩,
    ⟨"b", .test⟩, ⟨"b", .wake 6000 200 ["a", "b"]⟩, ⟨"a", .advance 6000 0⟩,
    ⟨"a", .advance 6000 0⟩, ⟨"b", .advance 6000 1⟩]

theorem no_deadlock_mutual : ∃ s, (system pairConfig).Reachable s ∧
    (s.nodes "a").demon = .awaitingVote 0 "b" [] 1 ∧
    (s.nodes "b").demon = .awaitingVote 1 "a" ["b"] 1 ∧
    ∃ t, (system pairConfig).Advances WithinTurn s t ∧ (t.nodes "a").demon.lockFree = true ∧
      (t.nodes "b").demon.lockFree = true := by
  obtain ⟨s, hs, hState⟩ := System.exists_reaches (system pairConfig) System.anyStep pairCluster
    mutualEvents (P := fun s : Cluster => decide
      ((s.nodes "a").demon = .awaitingVote 0 "b" [] 1 ∧
        (s.nodes "b").demon = .awaitingVote 1 "a" ["b"] 1)) pairCluster_initial (by decide)
  obtain ⟨hA, hB⟩ := of_decide_eq_true hState
  obtain ⟨t, hst, hFree⟩ := (no_deadlock hs).1
  exact ⟨s, hs, hA, hB, t, hst, (hFree "a" (by decide)).1, (hFree "b" (by decide)).1⟩

end Cluster

end RaftCpp
