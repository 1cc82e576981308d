import RaftCpp.SingleLeader

/-! # What clients see

GetStatus and Op take no lock and change nothing, so a client may ask at any
moment, also in the middle of a turn. The tests ask one node after the other,
and the nodes go on in between. A call that ends with an rpc_error, be the node
gone or only out of reach, leaves the reply as it was constructed, and a survey
like the one of the tests counts it as a follower, since that is the default of
the field.
-/

namespace RaftCpp

open Transition Pledge

/-- One call of GetStatus: the node that is asked, as the handler finds or would find it, and
whether request and reply get through. -/
structure Ask where
  id : String
  raft : Raft
  reached : Bool

/-- The call returns. The server of a dead node is gone. -/
def Ask.Returns (a : Ask) : Prop := a.reached = true ∧ a.raft.status ≠ .dead

instance (a : Ask) : Decidable a.Returns := inferInstanceAs (Decidable (_ ∧ _))

/-- What the client has in hand after the call. -/
def Ask.reply (a : Ask) : PeerStatus := if a.Returns then a.raft.getStatus else {}

/-- The counters of the tests. -/
structure Survey where
  leader : Nat := 0
  follower : Nat := 0
  candidate : Nat := 0
  unknown : Nat := 0
  deriving DecidableEq

def Survey.count (counts : Survey) (reply : PeerStatus) : Survey :=
  if reply.status = .follower then { counts with follower := counts.follower + 1 }
  else if reply.status = .candidate then { counts with candidate := counts.candidate + 1 }
  else if reply.status = .leader then { counts with leader := counts.leader + 1 }
  else { counts with unknown := counts.unknown + 1 }

/-- The loop of ElectionTest and ReElectionTest over the channels. -/
def survey (asks : List Ask) : Survey :=
  asks.foldl (fun counts a => counts.count a.reply) {}

/-- How many of the calls return with the given status. -/
def tally (status : RaftStatus) (asks : List Ask) : Nat :=
  asks.countP fun a => a.Returns ∧ a.raft.status = status

/-- How many of the calls end with an rpc_error. -/
def failures (asks : List Ask) : Nat := asks.countP fun a => ¬ a.Returns

theorem tally_cons (status : RaftStatus) (a : Ask) (asks : List Ask) :
    tally status (a :: asks) =
      (if a.Returns ∧ a.raft.status = status then 1 else 0) + tally status asks := by
  simp [tally, List.countP_cons, Nat.add_comm]

theorem failures_cons (a : Ask) (asks : List Ask) :
    failures (a :: asks) = (if a.Returns then 0 else 1) + failures asks := by
  by_cases hReturns : a.Returns
  · simp [failures, hReturns]
  · simp [failures, hReturns, Nat.add_comm]

theorem count_reply {a : Ask} (h : a.raft.status ≠ .unknown) (counts : Survey) :
    counts.count a.reply =
      ⟨counts.leader + if a.Returns ∧ a.raft.status = .leader then 1 else 0,
        counts.follower + ((if a.Returns ∧ a.raft.status = .follower then 1 else 0) +
          if a.Returns then 0 else 1),
        counts.candidate + if a.Returns ∧ a.raft.status = .candidate then 1 else 0,
        counts.unknown⟩ := by
  by_cases hReturns : a.Returns
  · have hReply : a.reply.status = a.raft.statusMapping := by
      rw [Ask.reply, if_pos hReturns]
      rfl
    cases hStatus : a.raft.status with
    | unknown => exact absurd hStatus h
    | dead => exact absurd hStatus hReturns.2
    | _ => simp [Survey.count, hReply, hStatus, hReturns, Raft.statusMapping]
  · have hReply : a.reply.status = .follower := by
      rw [Ask.reply, if_neg hReturns]
      rfl
    simp [Survey.count, hReply, hReturns]

section Known

variable {asks : List Ask} (h : ∀ a ∈ asks, a.raft.status ≠ .unknown)

include h

theorem foldl_count (counts : Survey) :
    asks.foldl (fun counts a => counts.count a.reply) counts =
      ⟨counts.leader + tally .leader asks,
        counts.follower + (tally .follower asks + failures asks),
        counts.candidate + tally .candidate asks, counts.unknown⟩ := by
  induction asks generalizing counts with
  | nil => rfl
  | cons a asks ih =>
    obtain ⟨ha, hRest⟩ := List.forall_mem_cons.mp h
    rw [List.foldl_cons, ih hRest, count_reply ha]
    simp only [tally_cons, failures_cons, Nat.add_assoc, Nat.add_left_comm]

theorem survey_eq : survey asks = { leader := tally .leader asks
                                    follower := tally .follower asks + failures asks
                                    candidate := tally .candidate asks } := by
  rw [survey, foldl_count h]
  simp only [Nat.zero_add]

theorem tally_total : tally .leader asks + (tally .follower asks + failures asks) +
    tally .candidate asks = asks.length := by
  induction asks with
  | nil => rfl
  | cons a asks ih =>
    obtain ⟨ha, hRest⟩ := List.forall_mem_cons.mp h
    have hTotal := ih hRest
    rw [List.length_cons]
    simp only [tally_cons, failures_cons]
    by_cases hReturns : a.Returns
    · cases hStatus : a.raft.status with
      | unknown => exact absurd hStatus ha
      | dead => exact absurd hStatus hReturns.2
      | leader | follower | candidate =>
        simp only [hReturns, true_and, reduceCtorEq, if_true, if_false]
        omega
    · simp only [hReturns, false_and, if_false]
      omega

end Known

theorem Node.Settled.known {n : Node} (h : n.Settled) (hFault : n.demon ≠ .fault) :
    n.raft.status ≠ .unknown := by
  cases h with
  | rest _ hRest => exact hRest.known
  | vote _ hStatus | beat _ hStatus =>
    rw [hStatus]
    exact RaftStatus.noConfusion
  | fault hd => exact absurd hd hFault

namespace Cluster

variable {cfg : Config} {s t : Cluster} {ok : Cluster → Event → Prop} {asks : List Ask}

theorem known (h : (system cfg).Reaches ok s) {q : String} (hq : q ∈ cfg.addrs) :
    (s.nodes q).raft.status ≠ .unknown :=
  (settled h hq).known (linked h hq).noFault

def quadConfig : Config := ⟨["a", "b", "c", "d"], by decide, by decide, by decide⟩

def quadCluster : Cluster where
  nodes id := Node.new sampleBoot ["a", "b", "c", "d"]
    (if id = "a" then 0 else if id = "b" then 1 else if id = "c" then 2 else 3)
  net := AtMostOnce.Net.empty
  journal := []

theorem quadCluster_initial : (system quadConfig).initial quadCluster := by
  refine ⟨rfl, rfl, fun peerId => ⟨sampleBoot, ?_⟩⟩
  fin_cases peerId <;> rfl

end Cluster

end RaftCpp
