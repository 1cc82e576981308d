import RaftCpp.Loyalty

/-! # The election timer over a whole run

`leader_active_time_` is written by the constructor, by AppendMsg, by a granted
vote, at the end of a lost candidacy and when a heartbeat is rejected. It always
holds the reading of the latest of these, so a follower whose turn times out has
seen none of them for at least the shortest patience, 200 * 25 ms.
-/

namespace RaftCpp

open Transition Machine

/-- The reading with which a step refreshes the timer. -/
def refresh? (e : Entry Input Output) : Option Int :=
  match e.input, e.output with
  | .serve now _ (.append _), _ => some now
  | .serve now _ (.vote _), .replies _ (.vote reply) => if reply.vote = true then some now else none
  | .advance now _, .loses => some now
  | .returned now _, .deposed => some now
  | _, _ => none

/-- The readings that went into the timer, that of the construction first. -/
def refreshes (boot : Boot) (h : List (Entry Input Output)) : List Int :=
  boot.now :: h.filterMap refresh?

theorem Raft.TimesOut.le {r : Raft} {now draw : Int} (hTime : r.TimesOut now draw)
    (hDraw : 200 ≤ draw) (hPast : r.leaderActiveTime ≤ now) :
    r.leaderActiveTime ≤ now - 5000 := by
  rw [Raft.TimesOut, abs_of_nonpos (by omega)] at hTime
  omega

namespace Node

variable {n n' m : Node} {i : Input} {out : Output} {boot : Boot}
  {peersAddrs : List String} {peerId : Fin peersAddrs.length} {h : List (Entry Input Output)}

theorem leaderActiveTime_turn (hTurn : Turn n i n' out) :
    n'.raft.leaderActiveTime = (refresh? ⟨i, out⟩).getD n.raft.leaderActiveTime := by
  cases hTurn <;> rfl

theorem leaderActiveTime_eq (hPlays : Plays step (new boot peersAddrs peerId) h n) :
    (refreshes boot h).getLast? = some n.raft.leaderActiveTime := by
  apply Plays.history (I := fun h (n : Node) =>
    (refreshes boot h).getLast? = some n.raft.leaderActiveTime) rfl _ hPlays
  intro h t i u out _ ih hStep
  rw [leaderActiveTime_turn (turn_of_step hStep)]
  cases hRefresh : refresh? ⟨i, out⟩ with
  | none => simpa [refreshes, hRefresh] using ih
  | some now => simp [refreshes, hRefresh, List.getLast?_cons]

theorem Turn.of_timedOut {now draw : Int} {order : List String}
    (hTurn : Turn n (.wake now draw order) n' out) (hOut : out.TimedOut) :
    200 ≤ draw ∧ n.raft.TimesOut now draw := by
  rcases hOut with rfl | ⟨id, rfl⟩
  · cases hTurn with
    | stands hAwake _ hTime => exact ⟨hAwake.low, hTime⟩
  · cases hTurn with
    | evicts hAwake _ hTime => exact ⟨hAwake.low, hTime⟩

/-- Whenever a follower's turn times out, nothing has refreshed the timer for 5000 ms. -/
theorem no_premature_election {now draw : Int} {order : List String}
    (hPlays : Plays step (new boot peersAddrs peerId) (h ++ [⟨.wake now draw order, out⟩]) m)
    (hOut : out.TimedOut) (hClock : (refreshes boot h ++ [now]).Pairwise (· ≤ ·)) :
    ∀ r ∈ refreshes boot h, r ≤ now - 5000 := by
  obtain ⟨n, hBefore, hLast⟩ := hPlays.of_append
  cases hLast with
  | cons hStep hNil =>
    obtain ⟨hDraw, hTime⟩ := (turn_of_step hStep).of_timedOut hOut
    obtain ⟨older, hSplit⟩ := List.getLast?_eq_some_iff.mp (leaderActiveTime_eq hBefore)
    rw [hSplit] at hClock ⊢
    obtain ⟨hSorted, -, hNow⟩ := List.pairwise_append.mp hClock
    obtain ⟨-, -, hOlder⟩ := List.pairwise_append.mp hSorted
    have hLatest : n.raft.leaderActiveTime ≤ now - 5000 :=
      hTime.le hDraw (hNow _ (by simp) now (by simp))
    intro r hr
    rcases List.mem_append.mp hr with hr | hr
    · exact (hOlder r hr _ (by simp)).trans hLatest
    · rw [List.mem_singleton.mp hr]
      exact hLatest

/-- A vote granted a second after the construction, and the test before the next turn. -/
def grantedAtOnce : List (Entry Input Output) :=
  [⟨.launch, .silent⟩, ⟨.serve 1000 0 (.vote requestOfB),
    .replies 0 (.vote { term? := some (-1), vote? := some true })⟩, ⟨.test, .silent⟩]

theorem no_premature_election_evicts :
    1000 ∈ refreshes sampleBoot grantedAtOnce ∧ (1000 : Int) ≤ 6000 - 5000 := by
  have hPlays : Plays step (new sampleBoot ["a", "b"] ⟨0, by decide⟩)
      (grantedAtOnce ++ [⟨.wake 6000 200 ["a", "b"], .evicts "b"⟩]) _ :=
    .cons rfl (.cons rfl (.cons rfl (.cons rfl (.nil _))))
  have hMem : 1000 ∈ refreshes sampleBoot grantedAtOnce := by decide
  exact ⟨hMem, no_premature_election hPlays (.inr ⟨"b", rfl⟩) (by decide) 1000 hMem⟩

end Node

end RaftCpp
