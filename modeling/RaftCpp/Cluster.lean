import Mathlib.Tactic.FinCases
import RaftCpp.Channels
import RaftCpp.Status
import RaftCpp.Library.AtMostOnce

/-! # A cluster of nodes over rpcz

The nodes share one list of distinct addresses and talk through calls that are
handled at most once. A lost request is one that is never served and a lost
reply one that is never returned; a late request is served after its call has
already returned with the error that an expired deadline raises. The journal is
a history variable: every step adds what the node was given and what it did.
Messages are delivered as they were built, heartbeats included; the runs in
which the schema check drops every heartbeat are among those of this system.
-/

namespace RaftCpp

open Transition AtMostOnce

/-- An address is an endpoint to connect to, never the empty string. -/
structure Config where
  addrs : List String
  nodup : addrs.Nodup
  ne_nil : addrs ≠ []
  addr_ne : ∀ id ∈ addrs, id ≠ ""

def Config.members (cfg : Config) : Finset String := cfg.addrs.toFinset

theorem Config.mem_members {cfg : Config} {id : String} : id ∈ cfg.members ↔ id ∈ cfg.addrs :=
  List.mem_toFinset

abbrev Network := Net String Request Reply

structure Record where
  node : String
  input : Input
  output : Output
  deriving DecidableEq

structure Cluster where
  nodes : String → Node
  net : Network
  journal : List Record

structure Event where
  node : String
  input : Input

def Demon.call? : Demon → Option Nat
  | .awaitingVote call _ _ _ => some call
  | .awaitingAppend call _ _ => some call
  | _ => none

def emit (net : Network) : Output → Network
  | .calls _ endpoint request => net.post endpoint request
  | .replies call reply => net.answer call reply
  | _ => net

namespace Cluster

variable {cfg : Config} {s t : Cluster} {ok : Cluster → Event → Prop}

/-- The network allows an input of a node: a new call gets the next number, a request is
served by the node it was sent to, and a reply returns to the call it answers. -/
def Admits (s : Cluster) (p : String) : Input → Prop
  | .advance _ call => call = s.net.next
  | .serve _ call request => ⟨call, p, request⟩ ∈ s.net.requests
  | .returned _ (some reply) => ∃ call ∈ (s.nodes p).demon.call?, (call, reply) ∈ s.net.replies
  | _ => True

instance (s : Cluster) (p : String) : (i : Input) → Decidable (s.Admits p i)
  | .advance _ call => inferInstanceAs (Decidable (call = s.net.next))
  | .serve _ _ _ => inferInstanceAs (Decidable (_ ∈ s.net.requests))
  | .returned _ (some reply) =>
    inferInstanceAs (Decidable (∃ call ∈ (s.nodes p).demon.call?, (call, reply) ∈ s.net.replies))
  | .returned _ none | .launch | .test | .wake _ _ _ | .kill | .killed => isTrue trivial

def after (s : Cluster) (p : String) (i : Input) (n : Node) (out : Output) : Cluster where
  nodes := Function.update s.nodes p n
  net := emit s.net out
  journal := ⟨p, i, out⟩ :: s.journal

def step (cfg : Config) (s : Cluster) (e : Event) : Option Cluster :=
  if e.node ∈ cfg.addrs ∧ s.Admits e.node e.input then
    ((s.nodes e.node).step e.input).map fun (n, out) => s.after e.node e.input n out
  else none

def system (cfg : Config) : System Cluster Event where
  initial s := s.net = Net.empty ∧ s.journal = [] ∧
    ∀ peerId : Fin cfg.addrs.length, ∃ boot,
      s.nodes (cfg.addrs.get peerId) = Node.new boot cfg.addrs peerId
  step := step cfg

theorem initial_node (h : (system cfg).initial s) {p : String} (hp : p ∈ cfg.addrs) :
    ∃ boot peerId, s.nodes p = Node.new boot cfg.addrs peerId := by
  obtain ⟨peerId, rfl⟩ := List.get_of_mem hp
  obtain ⟨boot, hBoot⟩ := h.2.2 peerId
  exact ⟨boot, peerId, hBoot⟩

structure Moves (cfg : Config) (s t : Cluster) (p : String) (i : Input) (n : Node)
    (out : Output) : Prop where
  member : p ∈ cfg.addrs
  admits : s.Admits p i
  turn : Node.Turn (s.nodes p) i n out
  eq : t = s.after p i n out

theorem moves_of_step {e : Event} (h : (system cfg).step s e = some t) :
    ∃ n out, Moves cfg s t e.node e.input n out := by
  obtain ⟨⟨hMember, hAdmits⟩, hEq⟩ := Option.ite_none_right_eq_some.mp h
  obtain ⟨⟨n, out⟩, hStep, rfl⟩ := Option.map_eq_some_iff.mp hEq
  exact ⟨n, out, hMember, hAdmits, Node.turn_of_step hStep, rfl⟩

section OfNode

variable {p : String} {i : Input} {n : Node} {out : Output}

theorem step_of_node (hp : p ∈ cfg.addrs) (hAdmits : s.Admits p i)
    (hStep : (s.nodes p).step i = some (n, out)) :
    (system cfg).step s ⟨p, i⟩ = some (s.after p i n out) := by
  simp only [system, step, hp, hAdmits, hStep, and_self, if_true, Option.map_some]

theorem moves_of_node (hp : p ∈ cfg.addrs) (hAdmits : s.Admits p i)
    (hStep : (s.nodes p).step i = some (n, out)) : Moves cfg s (s.after p i n out) p i n out :=
  ⟨hp, hAdmits, Node.turn_of_step hStep, rfl⟩

end OfNode

section Moves

variable {p q : String} {i : Input} {n : Node} {out : Output} (h : Moves cfg s t p i n out)

include h

theorem Moves.nodes_self : t.nodes p = n := by
  rw [h.eq]
  exact Function.update_self _ _ _

theorem Moves.nodes_of_ne (hq : q ≠ p) : t.nodes q = s.nodes q := by
  rw [h.eq]
  exact Function.update_of_ne hq _ _

theorem Moves.net_eq : t.net = emit s.net out := by
  rw [h.eq]
  rfl

theorem Moves.journal_eq : t.journal = ⟨p, i, out⟩ :: s.journal := by
  rw [h.eq]
  rfl

theorem Moves.same_or_turn (id : String) :
    t.nodes id = s.nodes id ∨ id = p ∧ Node.Turn (s.nodes id) i (t.nodes id) out := by
  by_cases hid : id = p
  · subst hid
    rw [h.nodes_self]
    exact .inr ⟨rfl, h.turn⟩
  · exact .inl (h.nodes_of_ne hid)

theorem Moves.forall_node {P : String → Node → Prop}
    (hs : ∀ q ∈ cfg.addrs, q ≠ p → P q (s.nodes q)) (hn : P p n) :
    ∀ q ∈ cfg.addrs, P q (t.nodes q) := by
  intro q hq
  by_cases hqp : q = p
  · subst hqp
    rw [h.nodes_self]
    exact hn
  · rw [h.nodes_of_ne hqp]
    exact hs q hq hqp

end Moves

/-- The rule for cluster invariants, over the moves of a single node. -/
theorem invariant_of_moves {I : Cluster → Prop} (hInit : ∀ s, (system cfg).initial s → I s)
    (hMoves : ∀ s t p i n out, (system cfg).Reaches ok s → I s → ok s ⟨p, i⟩ →
      Moves cfg s t p i n out → I t) (h : (system cfg).Reaches ok s) : I s := by
  apply h.invariant hInit
  intro s e t hs ih hok hStep
  obtain ⟨n, out, hMove⟩ := moves_of_step hStep
  exact hMoves s t e.node e.input n out hs ih hok hMove

/-- Each node of a cluster run is a node in a run of its own. -/
theorem node_reachable (h : (system cfg).Reaches ok s) (peerId : Fin cfg.addrs.length) :
    (Node.system cfg.addrs peerId).Reachable (s.nodes (cfg.addrs.get peerId)) := by
  apply h.project (fun s => s.nodes (cfg.addrs.get peerId))
  · exact fun s h0 => h0.2.2 peerId
  · intro s e t hStep
    obtain ⟨_, hEq⟩ := Option.ite_none_right_eq_some.mp hStep
    obtain ⟨⟨n, out⟩, hOut, rfl⟩ := Option.map_eq_some_iff.mp hEq
    by_cases hNode : cfg.addrs.get peerId = e.node
    · refine .inr ⟨e.input, ?_⟩
      simp only [after, Node.system, hNode, hOut, Option.map_some, Function.update_self]
    · exact .inl (Function.update_of_ne hNode _ _)

section Reaches

variable {p : String} (h : (system cfg).Reaches ok s) (hp : p ∈ cfg.addrs)

include h hp

theorem linked : (s.nodes p).Linked := by
  obtain ⟨peerId, rfl⟩ := List.get_of_mem hp
  exact Node.linked_of_reachable (node_reachable h peerId)

theorem settled : (s.nodes p).Settled := by
  obtain ⟨peerId, rfl⟩ := List.get_of_mem hp
  exact Node.settled_of_reachable (node_reachable h peerId)

theorem selfId_eq : (s.nodes p).raft.selfId = p := by
  obtain ⟨peerId, rfl⟩ := List.get_of_mem hp
  exact Node.selfId_of_reachable (node_reachable h peerId)

theorem peers_subset : (s.nodes p).raft.peers ⊆ cfg.members := by
  obtain ⟨peerId, rfl⟩ := List.get_of_mem hp
  exact Node.peers_of_reachable (node_reachable h peerId)

end Reaches

def pairConfig : Config := ⟨["a", "b"], by decide, by decide, by decide⟩

def pairCluster : Cluster where
  nodes id := Node.new sampleBoot ["a", "b"] (if id = "a" then 0 else 1)
  net := Net.empty
  journal := []

theorem pairCluster_initial : (system pairConfig).initial pairCluster := by
  refine ⟨rfl, rfl, fun peerId => ⟨sampleBoot, ?_⟩⟩
  fin_cases peerId <;> rfl

end Cluster

end RaftCpp
