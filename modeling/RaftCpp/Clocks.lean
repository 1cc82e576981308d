import RaftCpp.Cluster

/-! # Only differences of clock readings count

A node reads its own clock, keeps one reading in `leader_active_time_` and
compares later readings with it. No message carries a reading. So the clock of
every node may be set forward or back by an amount of its own, and the cluster
does the same: the nodes need no common time, and the epoch does not matter.
-/

namespace RaftCpp

open Transition AtMostOnce

def Input.shift (d : Int) : Input → Input
  | .launch => .launch
  | .test => .test
  | .wake now draw order => .wake (now + d) draw order
  | .advance now call => .advance (now + d) call
  | .returned now reply => .returned (now + d) reply
  | .serve now call request => .serve (now + d) call request
  | .kill => .kill
  | .killed => .killed

def Raft.shift (d : Int) (r : Raft) : Raft := { r with leaderActiveTime := r.leaderActiveTime + d }

def Node.shift (d : Int) (n : Node) : Node := { n with raft := n.raft.shift d }

namespace Raft

variable (r : Raft) (d : Int)

theorem timesOut_shift (now draw : Int) :
    (r.shift d).TimesOut (now + d) draw ↔ r.TimesOut now draw := by
  simp only [TimesOut, shift, add_sub_add_right_eq_sub]

theorem grants_shift : (r.shift d).Grants ↔ r.Grants := Iff.rfl

theorem vote_shift (request : VoteRequest) (now : Int) : (r.shift d).vote request (now + d) =
    ((r.vote request now).1.shift d, (r.vote request now).2) := by
  by_cases h : r.Grants
  · rw [vote_of_grants h, vote_of_grants ((r.grants_shift d).mpr h)]
    rfl
  · rw [vote_of_not_grants h, vote_of_not_grants (mt (r.grants_shift d).mp h)]
    rfl

theorem appendMsg_shift (request : AppendRequest) (now : Int) :
    (r.shift d).appendMsg request (now + d) =
      ((r.appendMsg request now).1.shift d, (r.appendMsg request now).2) := by
  have hAccepts : (r.shift d).Accepts request ↔ r.Accepts request := Iff.rfl
  by_cases h : r.Accepts request
  · by_cases hStatus : r.status = .candidate ∨ r.status = .leader
    · rw [appendMsg_of_stepsDown h hStatus, appendMsg_of_stepsDown (hAccepts.mpr h) hStatus]
      rfl
    · rw [appendMsg_of_follows h (not_or.mp hStatus),
        appendMsg_of_follows (hAccepts.mpr h) (not_or.mp hStatus)]
      rfl
  · rw [appendMsg_of_not_accepts h, appendMsg_of_not_accepts (mt hAccepts.mp h)]
    rfl

end Raft

namespace Node

variable (n : Node) (d : Int)

theorem evict_shift : (n.shift d).evict = (n.evict.1.shift d, n.evict.2) := by
  rw [evict_eq, evict_eq]
  rfl

theorem followerTurn_shift (now draw : Int) : (n.shift d).followerTurn (now + d) draw =
    ((n.followerTurn now draw).1.shift d, (n.followerTurn now draw).2) := by
  have hVote : (n.shift d).raft.voteFor = n.raft.voteFor := rfl
  have hTime : (n.shift d).raft.TimesOut (now + d) draw ↔ n.raft.TimesOut now draw :=
    n.raft.timesOut_shift d now draw
  simp only [followerTurn, hTime, hVote]
  by_cases hOut : n.raft.TimesOut now draw
  · by_cases hEmpty : n.raft.voteFor = ""
    · simp only [if_pos hOut, if_pos hEmpty]
      rfl
    · simp only [if_pos hOut, if_neg hEmpty]
      exact n.evict_shift d
  · simp only [if_neg hOut]

theorem wake_shift (now draw : Int) (order : List String) : (n.shift d).wake (now + d) draw order =
    ((n.wake now draw order).1.shift d, (n.wake now draw order).2) := by
  have hStatus : (n.shift d).raft.status = n.raft.status := rfl
  unfold wake
  rw [hStatus]
  cases n.raft.status with
  | follower => exact followerTurn_shift { n with demon := .unlocked } d now draw
  | _ => rfl

theorem awake_shift (draw : Int) (order : List String) :
    (n.shift d).Awake draw order ↔ n.Awake draw order :=
  ⟨fun h => ⟨h.demon, h.low, h.high, h.nodup, h.peers⟩,
    fun h => ⟨h.demon, h.low, h.high, h.nodup, h.peers⟩⟩

theorem ask_shift (call : Nat) (peer : String) (request : Request) (demon : Demon) :
    (n.shift d).ask call peer request demon =
      ((n.ask call peer request demon).1.shift d, (n.ask call peer request demon).2) := by
  have hChannels : (n.shift d).channels = n.channels := rfl
  unfold ask
  rw [hChannels]
  split <;> rfl

theorem advance_shift (now : Int) (call : Nat) : (n.shift d).advance (now + d) call =
    (n.advance now call).map fun r => (r.1.shift d, r.2) := by
  have hDemon : (n.shift d).demon = n.demon := rfl
  have hSelf : (n.shift d).raft.selfId = n.raft.selfId := rfl
  have hQuorum (k : Nat) : (n.shift d).raft.HasQuorum k ↔ n.raft.HasQuorum k := Iff.rfl
  unfold advance
  rw [hDemon]
  split
  · simp only [hQuorum]
    split <;> rfl
  · simp only [hSelf, ask_shift]
    split <;> rfl
  · rfl
  · simp only [hSelf, ask_shift]
    split <;> rfl
  · rfl

theorem returned_shift (now : Int) (reply : Option Reply) :
    (n.shift d).returned (now + d) reply =
      (n.returned now reply).map fun r => (r.1.shift d, r.2) := by
  have hDemon : (n.shift d).demon = n.demon := rfl
  unfold returned
  rw [hDemon]
  split
  · rfl
  · split <;> rfl
  · rfl
  · split <;> rfl
  · rfl

theorem serve_shift (now : Int) (call : Nat) (request : Request) :
    (n.shift d).serve (now + d) call request =
      ((n.serve now call request).1.shift d, (n.serve now call request).2) := by
  cases request with
  | vote request =>
    simp only [serve, shift, Raft.vote_shift]
  | append request =>
    simp only [serve, shift, Raft.appendMsg_shift]

theorem step_shift (i : Input) : (n.shift d).step (i.shift d) =
    (n.step i).map fun r => (r.1.shift d, r.2) := by
  cases i with
  | launch =>
    have hDemon : (n.shift d).demon = n.demon := rfl
    simp only [step, Input.shift, hDemon]
    split <;> rfl
  | test =>
    have hDemon : (n.shift d).demon = n.demon := rfl
    have hDead : (n.shift d).raft.isDead = n.raft.isDead := rfl
    simp only [step, Input.shift, hDemon, hDead]
    split <;> rfl
  | wake now draw order =>
    simp only [step, Input.shift, awake_shift, wake_shift]
    split <;> rfl
  | advance now call => exact n.advance_shift d now call
  | returned now reply => exact n.returned_shift d now reply
  | serve now call request =>
    have hFree : (n.shift d).demon = n.demon := rfl
    have hStatus : (n.shift d).raft.status = n.raft.status := rfl
    simp only [step, Input.shift, hFree, hStatus, serve_shift]
    split <;> rfl
  | kill => rfl
  | killed =>
    have hDemon : (n.shift d).demon = n.demon := rfl
    have hDead : (n.shift d).raft.isDead = n.raft.isDead := rfl
    simp only [step, Input.shift, hDemon, hDead]
    split <;> rfl

theorem shift_new (boot : Boot) (peersAddrs : List String) (peerId : Fin peersAddrs.length) :
    (new boot peersAddrs peerId).shift d =
      new { boot with now := boot.now + d } peersAddrs peerId := rfl

theorem shift_neg : (n.shift d).shift (-d) = n := by
  have hTime : n.raft.leaderActiveTime + d + -d = n.raft.leaderActiveTime := by omega
  simp only [shift, Raft.shift, hTime]

end Node

theorem Input.shift_neg (d : Int) (i : Input) : (i.shift d).shift (-d) = i := by
  cases i <;> simp only [shift, Int.add_neg_cancel_right]

namespace Cluster

variable {cfg : Config} {s t : Cluster} {e : Event} {clock : String → Int}

/-- The same cluster with the clock of every node set forward by its own amount. -/
def shift (clock : String → Int) (s : Cluster) : Cluster where
  nodes p := (s.nodes p).shift (clock p)
  net := s.net
  journal := s.journal.map fun r => ⟨r.node, r.input.shift (clock r.node), r.output⟩

theorem admits_shift {p : String} {i : Input} {d : Int} :
    (s.shift clock).Admits p (i.shift d) ↔ s.Admits p i := by
  cases i with
  | returned now reply => cases reply <;> exact Iff.rfl
  | _ => exact Iff.rfl

theorem after_shift (p : String) (i : Input) (n : Node) (out : Output) :
    (s.shift clock).after p (i.shift (clock p)) (n.shift (clock p)) out =
      (s.after p i n out).shift clock := by
  have hNodes : Function.update (s.shift clock).nodes p (n.shift (clock p)) =
      ((s.after p i n out).shift clock).nodes := by
    funext q
    by_cases hq : q = p
    · subst hq
      simp [shift, after]
    · simp [shift, after, hq]
  simp only [after, hNodes]
  rfl

theorem step_shift (clock : String → Int) (h : (system cfg).step s e = some t) :
    (system cfg).step (s.shift clock) ⟨e.node, e.input.shift (clock e.node)⟩ =
      some (t.shift clock) := by
  obtain ⟨⟨hMember, hAdmits⟩, hEq⟩ := Option.ite_none_right_eq_some.mp h
  obtain ⟨⟨n, out⟩, hStep, rfl⟩ := Option.map_eq_some_iff.mp hEq
  have hNode : ((s.shift clock).nodes e.node).step (e.input.shift (clock e.node)) =
      some (n.shift (clock e.node), out) := by
    have hShift := Node.step_shift (s.nodes e.node) (clock e.node) e.input
    rw [hStep] at hShift
    exact hShift
  have hGuard : e.node ∈ cfg.addrs ∧
      (s.shift clock).Admits e.node (e.input.shift (clock e.node)) :=
    ⟨hMember, admits_shift.mpr hAdmits⟩
  refine (if_pos hGuard).trans ?_
  rw [hNode]
  exact congrArg some (after_shift e.node e.input n out)

theorem initial_shift (clock : String → Int) (h : (system cfg).initial s) :
    (system cfg).initial (s.shift clock) := by
  refine ⟨h.1, ?_, ?_⟩
  · simp [shift, h.2.1]
  · intro peerId
    obtain ⟨boot, hBoot⟩ := h.2.2 peerId
    refine ⟨{ boot with now := boot.now + clock (cfg.addrs.get peerId) }, ?_⟩
    rw [← Node.shift_new, ← hBoot]
    rfl

theorem shift_neg (clock : String → Int) (s : Cluster) :
    (s.shift clock).shift (fun p => -clock p) = s := by
  have hJournal : ((s.shift clock).shift (fun p => -clock p)).journal = s.journal := by
    simp [shift, Input.shift_neg, Function.comp_def]
  have hNodes : ((s.shift clock).shift (fun p => -clock p)).nodes = s.nodes := by
    funext p
    exact (s.nodes p).shift_neg (clock p)
  calc
    (s.shift clock).shift (fun p => -clock p) =
        ⟨((s.shift clock).shift (fun p => -clock p)).nodes, s.net,
          ((s.shift clock).shift (fun p => -clock p)).journal⟩ := rfl
    _ = s := by rw [hNodes, hJournal]

theorem run_shift (clock : String → Int) {trace : List Cluster}
    (h : (system cfg).Run System.anyStep trace) :
    (system cfg).Run System.anyStep (trace.map (shift clock)) := by
  apply h.map (shift clock) (fun s h0 => initial_shift clock h0)
  exact fun s e t _ hStep => ⟨_, trivial, step_shift clock hStep⟩

/-- The clocks need not agree with each other or with any epoch: a sequence of states is a
run of the cluster exactly if it is one with the clock of every node set forward or back by
an amount of its own. The states then differ in the timers only. -/
theorem clocks_need_not_agree (clock : String → Int) (trace : List Cluster) :
    (system cfg).Run System.anyStep trace ↔
      (system cfg).Run System.anyStep (trace.map (shift clock)) := by
  constructor
  · exact run_shift clock
  · intro h
    have hBack := run_shift (fun p => -clock p) h
    rw [List.map_map] at hBack
    have hSame : shift (fun p => -clock p) ∘ shift clock = id := funext (shift_neg clock)
    rwa [hSame, List.map_id] at hBack

end Cluster

end RaftCpp
