import RaftCpp.Library.Reduction
import RaftCpp.Progress
import RaftCpp.Release

/-! # Turns are atomic

The model cuts a turn of the daemon wherever it blocks, since other nodes move
meanwhile. The node itself cannot tell: its handlers wait for the lock, and the
one thing that may come in between is Kill, whose flag the turn does not read.
So from one release of the lock to another a node does the same as one whose
turns are single acts, each of them an `iteration` against the replies that its
calls got. The test of the flag is an act of its own, before the lock is asked
for, and handlers or Kill may come between it and the turn.
-/

namespace RaftCpp

open Machine

def Input.isKill : Input → Bool
  | .kill => true
  | _ => false

/-- The peer that a call is out to. -/
def Demon.awaited : Demon → List String
  | .awaitingVote _ peer _ _ | .awaitingAppend _ peer _ => [peer]
  | _ => []

/-- The peers from which this turn may still get a reply. -/
def Demon.outstanding (d : Demon) : List String := d.awaited ++ d.toVisit

namespace Environment

/-- The environment that gives `i` to a daemon at `d`, and is as before anywhere else. -/
def meet (env : Environment) (d : Demon) : Input → Environment
  | .advance now call =>
    { env with
      clock := Function.update env.clock d now
      number := Function.update env.number d call }
  | .returned now reply =>
    match d, reply with
    | .awaitingVote _ peer _ _, some (.vote reply) =>
      { env with
        clock := Function.update env.clock d now
        vote := Function.update env.vote peer (some reply) }
    | .awaitingVote _ peer _ _, _ =>
      { env with
        clock := Function.update env.clock d now
        vote := Function.update env.vote peer none }
    | .awaitingAppend _ peer _, some (.append reply) =>
      { env with
        clock := Function.update env.clock d now
        append := Function.update env.append peer (some reply) }
    | .awaitingAppend _ peer _, _ =>
      { env with
        clock := Function.update env.clock d now
        append := Function.update env.append peer none }
    | _, _ => env
  | _ => env

end Environment

namespace Node

variable {n n' m : Node} {i : Input} {out : Output} {env : Environment}
  {h : List (Entry Input Output)}

theorem input_meet (hTurn : Turn n i n' out) (hIn : i.inTurn = true) (env : Environment) :
    (env.meet n.demon i).input n = some i := by
  cases hTurn with
  | skipsVote hDemon | asksVote hDemon | faultsVote hDemon | leads hDemon | loses hDemon
  | skipsBeat hDemon | asksAppend hDemon | faultsAppend hDemon | endsBeat hDemon
  | counts hDemon | deposed hDemon =>
    simp [Environment.input, Environment.meet, hDemon]
  | passes hDemon hReply | goesOn hDemon hReply =>
    rcases hReply with rfl | ⟨reply, rfl, -⟩
    · simp [Environment.input, Environment.meet, hDemon]
    · simp [Environment.input, Environment.meet, hDemon]
  | _ => cases hIn

theorem input_meet_of_ne {d : Demon} (hDemon : n.demon ≠ d)
    (hAwaited : ∀ peer ∈ n.demon.awaited, peer ∉ d.awaited) (env : Environment) (i : Input) :
    (env.meet d i).input n = env.input n := by
  have hClock (now : Int) : Function.update env.clock d now n.demon = env.clock n.demon :=
    Function.update_of_ne hDemon _ _
  have hNumber (call : Nat) : Function.update env.number d call n.demon = env.number n.demon :=
    Function.update_of_ne hDemon _ _
  unfold Environment.meet
  split
  · simp only [Environment.input, hClock, hNumber]
  · split
    case h_5 => rfl
    all_goals
      simp only [Environment.input, hClock]
      split <;> simp_all [Demon.awaited, Function.update_of_ne]
  · rfl

theorem outstanding_turn (hTurn : Turn n i n' out) (hIn : i.inTurn = true) :
    n'.demon.outstanding.Sublist n.demon.outstanding := by
  cases hTurn with
  | skipsVote hDemon | asksVote hDemon | faultsVote hDemon | leads hDemon | loses hDemon
  | skipsBeat hDemon | asksAppend hDemon | faultsAppend hDemon | endsBeat hDemon
  | counts hDemon | passes hDemon | goesOn hDemon | deposed hDemon =>
    rw [hDemon]
    simp [Demon.outstanding, Demon.awaited, Demon.toVisit]
  | _ => cases hIn

theorem awaited_turn (hTurn : Turn n i n' out) (hIn : i.inTurn = true)
    (hNodup : n.demon.outstanding.Nodup) :
    ∀ peer ∈ n.demon.awaited, peer ∉ n'.demon.outstanding := by
  cases hTurn with
  | skipsVote hDemon | asksVote hDemon | faultsVote hDemon | leads hDemon | loses hDemon
  | skipsBeat hDemon | asksAppend hDemon | faultsAppend hDemon | endsBeat hDemon
  | counts hDemon | passes hDemon | goesOn hDemon | deposed hDemon =>
    rw [hDemon] at hNodup ⊢
    simp_all [Demon.outstanding, Demon.awaited, Demon.toVisit]
  | _ => cases hIn

theorem inTurn_of_busy (hTurn : Turn n i n' out) (hBusy : ¬ n.Free) (hKill : i.isKill = false) :
    i.inTurn = true := by
  cases hTurn with
  | launch hDemon | test hDemon | killed hDemon =>
    exact absurd (by rw [Free, hDemon]; rfl) hBusy
  | waits hAwake | stands hAwake | evicts hAwake | campaigns hAwake | starts hAwake =>
    exact absurd hAwake.lockFree hBusy
  | grants hFree | refuses hFree | follows hFree | yields hFree | rejects hFree =>
    exact absurd hFree hBusy
  | kill => cases hKill
  | _ => rfl

/-- What a turn has met from some point on, as an environment. -/
theorem exists_environment (hStretch : Stretch step Free n h m) (hBusy : ¬ n.Free)
    (hKill : without Input.isKill h = h) (hNodup : n.demon.outstanding.Nodup) :
    ∃ env : Environment, Completes step env.input h.length n m (· = h) := by
  induction hStretch with
  | @stop n m i out hStep hFree =>
    have hTurn := turn_of_step hStep
    have hFirst := List.filter_eq_self.mp hKill _ List.mem_cons_self
    have hIn := inTurn_of_busy hTurn hBusy (by simpa using hFirst)
    refine ⟨(silence 0).meet n.demon i, ?_⟩
    refine Completes.next (Completes.stop (input_of_lockFree hFree _) (Q := (· = [])) rfl)
      (input_meet hTurn hIn _) hStep ?_
    rintro h rfl
    rfl
  | @goOn n n' m i out h hStep hBusy' _ ih =>
    have hTurn := turn_of_step hStep
    obtain ⟨hFirst, hRest⟩ := List.forall_mem_cons.mp (List.filter_eq_self.mp hKill)
    have hIn := inTurn_of_busy hTurn hBusy (by simpa using hFirst)
    obtain ⟨env, hLoop⟩ := ih hBusy' (List.filter_eq_self.mpr hRest)
      ((outstanding_turn hTurn hIn).nodup hNodup)
    -- later in the turn the daemon is elsewhere and waits for other peers
    have hSame : Completes step (env.meet n.demon i).input h.length n' m (· = h) := by
      apply hLoop.congr (I := fun s : Node => s.demon.work < n.demon.work ∧
        ∀ peer ∈ n.demon.awaited, peer ∉ s.demon.outstanding)
      · intro s hs
        refine input_meet_of_ne ?_ ?_ env i
        · intro hEq
          rw [hEq] at hs
          exact Nat.lt_irrefl _ hs.1
        · intro peer hPeer hAwaited
          exact hs.2 peer hAwaited (List.mem_append_left _ hPeer)
      · intro s j t out hs hInput hStep
        have hTurn := turn_of_step hStep
        have hIn := inTurn_of_input hInput
        refine ⟨(work_turn hTurn hIn).trans hs.1, ?_⟩
        exact fun peer hPeer hMem => hs.2 peer hPeer ((outstanding_turn hTurn hIn).subset hMem)
      · exact ⟨work_turn hTurn hIn, awaited_turn hTurn hIn hNodup⟩
    refine ⟨env.meet n.demon i, hSame.next (input_meet hTurn hIn env) hStep ?_⟩
    rintro h rfl
    rfl

/-- The same, with the flag that Kill sets. -/
def flagged (n : Node) : Node := { n with raft := n.raft.kill }

theorem ask_flagged (n : Node) (call : Nat) (peer : String) (request : Request) (demon : Demon) :
    n.flagged.ask call peer request demon =
      ((n.ask call peer request demon).1.flagged, (n.ask call peer request demon).2) := by
  have hChannels : n.flagged.channels = n.channels := rfl
  unfold ask
  rw [hChannels]
  split <;> rfl

/-- A turn does not read the flag once it has begun. -/
theorem step_flagged (n : Node) (hIn : i.inTurn = true) :
    n.flagged.step i = (n.step i).map fun r => (r.1.flagged, r.2) := by
  have hDemon : n.flagged.demon = n.demon := rfl
  have hSelf : n.flagged.raft.selfId = n.raft.selfId := rfl
  have hQuorum (k : Nat) : n.flagged.raft.HasQuorum k ↔ n.raft.HasQuorum k := Iff.rfl
  cases i with
  | advance now call =>
    simp only [step, advance, hDemon]
    split
    · simp only [hQuorum]
      split <;> rfl
    · simp only [hSelf, ask_flagged]
      split <;> rfl
    · rfl
    · simp only [hSelf, ask_flagged]
      split <;> rfl
    · rfl
  | returned now reply =>
    simp only [step, returned, hDemon]
    split
    · rfl
    · split <;> rfl
    · rfl
    · split <;> rfl
    · rfl
  | _ => cases hIn

theorem movers_kill : Movers step Free Input.isKill where
  keeps {n i m out} hStep hi := by
    cases i with
    | kill =>
      cases hStep
      exact Iff.rfl
    | _ => cases hi
  commutes {n i m out j m' out'} hBusy hStep hi hNext hj := by
    cases i with
    | kill =>
      cases hStep
      have hIn := inTurn_of_busy (turn_of_step hNext) hBusy hj
      have hMap := (step_flagged n hIn).symm.trans hNext
      obtain ⟨⟨n', out⟩, hFirst, hEq⟩ := Option.map_eq_some_iff.mp hMap
      cases hEq
      exact ⟨n', hFirst, rfl⟩
    | _ => cases hi

/-- An act of a node whose turns are not divided: a whole turn of the daemon from the lock
to the unlock, or any other single step, the test of the flag among them. -/
inductive Acts (n : Node) : List (Entry Input Output) → Node → Prop
  | turn {env : Environment} {fuel : Nat} {now draw : Int} {order : List String} {m : Node}
      {h : List (Entry Input Output)} :
      n.iteration env fuel now draw order = some (m, h) → Acts n h m
  | other {i : Input} {out : Output} {m : Node} : (∀ now draw order, i ≠ .wake now draw order) →
      n.step i = some (m, out) → Acts n [⟨i, out⟩] m

theorem Acts.plays (hActs : Acts n h m) : Plays step n h m := by
  cases hActs with
  | turn hTurn =>
    simp only [iteration] at hTurn
    split at hTurn
    · rename_i hStep
      obtain ⟨r, hDrive, hEq⟩ := Option.map_eq_some_iff.mp hTurn
      cases hEq
      exact .cons hStep (plays_of_drive hDrive)
    · cases hTurn
  | other _ hStep => exact .cons hStep (.nil _)

theorem wake_of_leaves (hTurn : Turn n i n' out) (hFree : n.Free) (hBusy : ¬ n'.Free) :
    ∃ now draw order, i = .wake now draw order ∧ n'.demon.outstanding.Nodup := by
  cases hTurn with
  | campaigns hAwake | starts hAwake => exact ⟨_, _, _, rfl, hAwake.nodup⟩
  | launch | test | waits | stands | evicts => exact absurd rfl hBusy
  | grants | refuses | follows | yields | rejects | kill | killed => exact absurd hFree hBusy
  | skipsVote hDemon | asksVote hDemon | faultsVote hDemon | leads hDemon | loses hDemon
  | skipsBeat hDemon | asksAppend hDemon | faultsAppend hDemon | endsBeat hDemon
  | counts hDemon | passes hDemon | goesOn hDemon | deposed hDemon =>
    rw [Free, hDemon] at hFree
    cases hFree

theorem acts_of_undivided (hFree : n.Free)
    (hUndivided : Undivided step Free Input.isKill n h m) : Acts n h m ∧ m.Free := by
  obtain ⟨hStretch, hKind⟩ := hUndivided
  refine ⟨?_, hStretch.ends⟩
  cases hStretch with
  | @stop _ _ i out hStep hm =>
    cases i with
    | wake now draw order =>
      obtain ⟨_, hTurn, rfl⟩ := iteration_eq hStep
        (Completes.stop (input_of_lockFree hm (silence 0)) (Q := (· = [])) rfl) (Nat.le_refl 0)
      exact .turn hTurn
    | _ => exact .other (fun _ _ _ => Input.noConfusion) hStep
  | @goOn _ n' _ i out h hStep hBusy hRest =>
    obtain ⟨now, draw, order, rfl, hNodup⟩ := wake_of_leaves (turn_of_step hStep) hFree hBusy
    have hKill : without Input.isKill h = h := by
      cases hKind with
      | inl hWithout => simpa [without, Input.isKill] using hWithout
      | inr hLength =>
        rw [List.length_cons, Nat.add_eq_right, List.length_eq_zero_iff] at hLength
        rw [hLength]
        rfl
    obtain ⟨env, hLoop⟩ := exists_environment hRest hBusy hKill hNodup
    obtain ⟨_, hTurn, rfl⟩ := iteration_eq hStep hLoop (Nat.le_refl _)
    exact .turn hTurn

/-- Turns are atomic to the node itself. Between two moments at which its lock is free, each
run is one in which every turn of the daemon is a single act, with the same steps and the
same answers in the same order, but for the flag of Kill, which is set after the turn
instead of within it. No run is added that way either. Both moments may lie between the
test of the flag and the lock. -/
theorem turns_are_atomic (hFree : n.Free) (hFree' : m.Free) :
    (∀ h, Plays step n h m → ∃ h', Batches Acts n h' m ∧
      without Input.isKill h' = without Input.isKill h ∧
      only Input.isKill h' = only Input.isKill h) ∧
    ∀ h, Batches Acts n h m → Plays step n h m := by
  constructor
  · intro h hPlays
    obtain ⟨h', hBatches, hWithout, hOnly⟩ := movers_kill.reduction hPlays hFree hFree'
    refine ⟨h', hBatches.imp (I := Free) ?_ hFree, hWithout, hOnly⟩
    exact fun n h m hFree hUndivided => acts_of_undivided hFree hUndivided
  · exact fun h hBatches => hBatches.plays (fun n h m hActs => hActs.plays)

/-- Kill comes between the test and the lock, and again while the daemon is in the candidacy
that it then wins. -/
theorem turns_are_atomic_lone : ∃ h m,
    Batches Acts (loneCandidate ["a"] ⟨0, by decide⟩) h m ∧
    m.raft.status = .leader ∧ m.raft.isDead = true ∧
    only Input.isKill h = [⟨.kill, .silent⟩, ⟨.kill, .silent⟩] ∧
    (without Input.isKill h).map Entry.output = [.campaigns 0, .silent, .leads 0] := by
  have hPlays : Plays step (loneCandidate ["a"] ⟨0, by decide⟩)
      [⟨.kill, .silent⟩, ⟨.wake 6000 200 ["a"], .campaigns 0⟩, ⟨.kill, .silent⟩,
        ⟨.advance 6000 0, .silent⟩, ⟨.advance 6000 0, .leads 0⟩]
      (loneWinner ["a"] ⟨0, by decide⟩).flagged :=
    .cons rfl (.cons rfl (.cons rfl (.cons rfl (.cons rfl (.nil _)))))
  obtain ⟨h, hBatches, hWithout, hOnly⟩ := (turns_are_atomic (by decide) (by decide)).1 _ hPlays
  refine ⟨h, _, hBatches, rfl, rfl, hOnly, ?_⟩
  rw [hWithout]
  rfl

end Node

end RaftCpp
