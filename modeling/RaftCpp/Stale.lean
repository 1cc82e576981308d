import RaftCpp.Loyalty

/-! # What a rejected heartbeat leaves behind

AppendMsg refreshes `leader_active_time_` before it looks at the term, so a
request that it rejects still moves the timer. The rest of the node is left
alone. Two histories are compared here, one with rejected requests put in
anywhere and one without them; the inputs of the other entries, their clock
readings and draws included, are the same.
-/

namespace RaftCpp

open Transition Machine

/-- An entry of the original history, or an AppendMsg put in between two of them. -/
inductive Item where
  | original (e : Entry Input Output)
  | inserted (now : Int) (call : Nat) (request : AppendRequest) (reply : AppendReply)

def Item.entry : Item → Entry Input Output
  | .original e => e
  | .inserted now call request reply =>
    ⟨.serve now call (.append request), .replies call (.append reply)⟩

def Item.original? : Item → Option (Entry Input Output)
  | .original e => some e
  | .inserted _ _ _ _ => none

def full (g : List Item) : List (Entry Input Output) := g.map Item.entry

def kept (g : List Item) : List (Entry Input Output) := g.filterMap Item.original?

theorem kept_inserted (g : List Item) (now : Int) (call : Nat) (request : AppendRequest)
    (reply : AppendReply) : kept (g ++ [.inserted now call request reply]) = kept g := by
  simp [kept, Item.original?]

def AllRejected (g : List Item) : Prop :=
  ∀ now call request reply, .inserted now call request reply ∈ g → reply.success = false

structure Raft.Agrees (r r' : Raft) : Prop where
  status : r.status = r'.status
  term : r.term = r'.term
  voteFor : r.voteFor = r'.voteFor
  peers : r.peers = r'.peers
  leaderActiveTime : r.leaderActiveTime = r'.leaderActiveTime

theorem Raft.touch_of_eq {r : Raft} {now : Int} (h : now = r.leaderActiveTime) :
    r.touch now = r := by
  subst h
  rfl

namespace Node

variable {n m u : Node} {now : Int} {call : Nat} {request : AppendRequest}
  {reply : AppendReply} {g pre : List Item}

theorem plays_full_inserted (hReply : reply.success = false)
    (h : Plays step n (full (pre ++ [.inserted now call request reply])) u) :
    ∃ t, Plays step n (full pre) t ∧ u = { t with raft := t.raft.touch now } := by
  rw [full, List.map_append] at h
  obtain ⟨t, hPre, hLast⟩ := h.of_append
  cases hLast with
  | cons hStep hNil =>
    cases hNil
    exact ⟨t, hPre, (turn_of_step hStep).of_rejects hReply⟩

/-- The rejected requests were all handled at the reading that the timer already held. -/
def Unmoved (n : Node) (g : List Item) : Prop :=
  ∀ pre now call request reply post, g = pre ++ .inserted now call request reply :: post →
    ∀ u, Plays step n (full pre) u → now = u.raft.leaderActiveTime

/-- Then each of them leaves the node as it was, and they can be left out. -/
theorem Unmoved.plays_kept (hUnmoved : n.Unmoved g) (hRejected : AllRejected g) :
    ∀ {post u}, g = pre ++ post → Plays step n (full pre) u → Plays step n (kept pre) u := by
  induction pre using List.reverseRecOn with
  | nil => exact fun _ hPlays => hPlays
  | append_singleton pre x ih =>
    intro post u hSplit hPlays
    rw [List.append_assoc] at hSplit
    cases x with
    | original e =>
      rw [full, List.map_append] at hPlays
      obtain ⟨t, hPre, hLast⟩ := hPlays.of_append
      rw [kept, List.filterMap_append]
      exact (ih hSplit hPre).append hLast
    | inserted now call request reply =>
      have hReply : reply.success = false :=
        hRejected now call request reply (by rw [hSplit]; simp)
      obtain ⟨t, hPre, hEq⟩ := plays_full_inserted hReply hPlays
      rw [Raft.touch_of_eq (hUnmoved pre now call request reply post hSplit t hPre)] at hEq
      subst hEq
      rw [kept_inserted]
      exact ih hSplit hPre

/-- Up to every point of the history the node is as without the rejected requests, and has
answered and timed out in the same way, exactly where none of them moved the timer. -/
theorem stale_heartbeats_invisible_iff (hPlays : Plays step n (full g) m)
    (hRejected : AllRejected g) :
    (∀ pre post u, g = pre ++ post → Plays step n (full pre) u →
      ∃ u', Plays step n (kept pre) u' ∧ u.raft.Agrees u'.raft) ↔ n.Unmoved g := by
  constructor
  · intro hSame pre now call request reply post hSplit u hPre
    have hReply : reply.success = false :=
      hRejected now call request reply (by rw [hSplit]; simp)
    have hSplit' : g = (pre ++ [.inserted now call request reply]) ++ post := by
      rw [hSplit, List.append_assoc]
      rfl
    obtain ⟨v, hFull, _⟩ : ∃ v, Plays step n (full (pre ++ [.inserted now call request reply])) v ∧
        Plays step v (full post) m := by
      rw [hSplit', full, List.map_append] at hPlays
      exact hPlays.of_append
    obtain ⟨t, hPre', rfl⟩ := plays_full_inserted hReply hFull
    obtain rfl := hPre'.unique hPre
    obtain ⟨u', hKept, hBefore⟩ := hSame pre _ t hSplit hPre
    obtain ⟨v', hKept', hAfter⟩ := hSame _ post _ hSplit' hFull
    rw [kept_inserted] at hKept'
    obtain rfl := hKept'.unique hKept
    exact hAfter.leaderActiveTime.trans hBefore.leaderActiveTime.symm
  · intro hUnmoved pre post u hSplit hPre
    exact ⟨u, hUnmoved.plays_kept hRejected hSplit hPre, rfl, rfl, rfl, rfl, rfl⟩

/-- A rejected heartbeat half way through the patience, and the turn at its end. -/
def postponedElection : List Item :=
  [.original ⟨.launch, .silent⟩,
    .inserted 3000 0 heartbeatOfB { term? := some (-1), success? := some false },
    .original ⟨.test, .silent⟩, .original ⟨.wake 6000 200 ["a", "b"], .silent⟩]

/-- The heartbeat of the new leader comes in the millisecond in which the vote for it was
granted, is rejected, and the turn at the end of the patience evicts the leader. -/
def promptHeartbeat : List Item :=
  [.original ⟨.launch, .silent⟩,
    .original ⟨.serve 1000 0 (.vote requestOfB),
      .replies 0 (.vote { term? := some (-1), vote? := some true })⟩,
    .inserted 1000 1 heartbeatOfB { term? := some (-1), success? := some false },
    .original ⟨.test, .silent⟩, .original ⟨.wake 6000 200 ["a", "b"], .evicts "b"⟩]

/-- A heartbeat rejected in the millisecond of a granted vote leaves no trace. -/
theorem stale_heartbeats_invisible_iff_prompt :
    ∃ u, Plays step (new sampleBoot ["a", "b"] ⟨0, by decide⟩) (kept promptHeartbeat) u ∧
      u.raft.leaderActiveTime = 1000 ∧ u.raft.peers = {"a"} := by
  have hPlays : Plays step (new sampleBoot ["a", "b"] ⟨0, by decide⟩) (full promptHeartbeat) _ :=
    .cons rfl (.cons rfl (.cons rfl (.cons rfl (.cons rfl (.nil _)))))
  have hRejected : AllRejected promptHeartbeat := by
    intro now call request reply hMem
    simp only [promptHeartbeat, List.mem_cons, List.not_mem_nil, or_false, reduceCtorEq,
      false_or] at hMem
    cases hMem
    rfl
  have hUnmoved : (new sampleBoot ["a", "b"] ⟨0, by decide⟩).Unmoved promptHeartbeat := by
    intro pre now call request reply post hSplit u hPre
    rcases pre with _ | ⟨launch, _ | ⟨vote, _ | ⟨beat, pre⟩⟩⟩
    · simp [promptHeartbeat] at hSplit
    · simp [promptHeartbeat] at hSplit
    · cases hSplit
      cases hPre.unique (.cons rfl (.cons rfl (.nil _)))
      rfl
    · have hRest := (List.cons.inj (List.cons.inj (List.cons.inj hSplit).2).2).2
      have hMem := congrArg (Item.inserted now call request reply ∈ ·) hRest
      simp at hMem
  obtain ⟨u, hKept, hAgrees⟩ := (stale_heartbeats_invisible_iff hPlays hRejected).mpr hUnmoved
    _ [] _ (List.append_nil _).symm hPlays
  exact ⟨u, hKept, hAgrees.leaderActiveTime.symm, hAgrees.peers.symm.trans (by decide)⟩

/-- Without the heartbeat the node would have stood for election in that turn. -/
theorem stale_heartbeat_postpones_election :
    ¬ ∀ (boot : Boot) (peersAddrs : List String) (peerId : Fin peersAddrs.length)
      (g : List Item) (m : Node), Plays step (new boot peersAddrs peerId) (full g) m →
      AllRejected g → ∃ m', Plays step (new boot peersAddrs peerId) (kept g) m' ∧
        m.raft.Agrees m'.raft := by
  intro h
  have hPlays : Plays step (new sampleBoot ["a", "b"] ⟨0, by decide⟩) (full postponedElection) _ :=
    .cons rfl (.cons rfl (.cons rfl (.cons rfl (.nil _))))
  have hRejected : AllRejected postponedElection := by
    intro now call request reply hMem
    simp only [postponedElection, List.mem_cons, List.not_mem_nil, or_false, reduceCtorEq,
      false_or] at hMem
    cases hMem
    rfl
  obtain ⟨m', hKept, _⟩ := h _ _ _ _ _ hPlays hRejected
  cases hKept with
  | cons hLaunch hRest =>
    cases hLaunch
    cases hRest with
    | cons hTest hRest =>
      cases hTest
      cases hRest with
      | cons hWake _ =>
        have hOut : _ = some Output.silent :=
          congrArg (Option.map fun r : Node × Output => r.2) hWake
        exact absurd hOut (by decide)

end Node

end RaftCpp
