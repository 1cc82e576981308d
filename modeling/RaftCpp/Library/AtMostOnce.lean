import Mathlib.Data.List.Basic

/-! # Remote calls answered at most once

Every call gets a fresh number. A request in flight is taken out when it is
handled, so it is handled at most once and perhaps never; a reply carries the
number of the call it answers. `posted` is a history variable: it keeps every
request ever sent and no operation reads it.
-/

namespace AtMostOnce

universe u v w

structure Envelope (Addr : Type u) (Req : Type v) where
  call : Nat
  dest : Addr
  body : Req
  deriving DecidableEq

structure Net (Addr : Type u) (Req : Type v) (Rep : Type w) where
  next : Nat
  requests : List (Envelope Addr Req)
  replies : List (Nat × Rep)
  posted : List (Envelope Addr Req)

variable {Addr : Type u} {Req : Type v} {Rep : Type w}

namespace Net

def empty : Net Addr Req Rep := ⟨0, [], [], []⟩

def post (net : Net Addr Req Rep) (dest : Addr) (body : Req) : Net Addr Req Rep where
  next := net.next + 1
  requests := ⟨net.next, dest, body⟩ :: net.requests
  replies := net.replies
  posted := ⟨net.next, dest, body⟩ :: net.posted

def answer (net : Net Addr Req Rep) (call : Nat) (reply : Rep) : Net Addr Req Rep :=
  { net with
    requests := net.requests.filter (fun m => m.call ≠ call)
    replies := (call, reply) :: net.replies }

/-- Call numbers name one request each, and every reply in flight was produced for the
request of its call; `answers` says what it means for a reply to be produced. -/
structure Sound (net : Net Addr Req Rep) (answers : Envelope Addr Req → Rep → Prop) : Prop where
  fresh : ∀ m ∈ net.posted, m.call < net.next
  unique : ∀ m ∈ net.posted, ∀ m' ∈ net.posted, m.call = m'.call → m = m'
  sent : ∀ m ∈ net.requests, m ∈ net.posted
  replied : ∀ r ∈ net.replies, ∃ m ∈ net.posted, m.call = r.1 ∧ answers m r.2

variable {net : Net Addr Req Rep} {answers answers' : Envelope Addr Req → Rep → Prop}

theorem sound_empty : (empty : Net Addr Req Rep).Sound answers where
  fresh m hm := by cases hm
  unique m hm := by cases hm
  sent m hm := by cases hm
  replied r hr := by cases hr

theorem Sound.mono (h : net.Sound answers) (hle : ∀ m rep, answers m rep → answers' m rep) :
    net.Sound answers' where
  fresh := h.fresh
  unique := h.unique
  sent := h.sent
  replied r hr := by
    obtain ⟨m, hm, hCall, hAns⟩ := h.replied r hr
    exact ⟨m, hm, hCall, hle m r.2 hAns⟩

theorem Sound.post (h : net.Sound answers) (dest : Addr) (body : Req) :
    (net.post dest body).Sound answers where
  fresh m hm := by
    rcases List.mem_cons.mp hm with rfl | hm
    · exact Nat.lt_succ_self _
    · exact Nat.lt_succ_of_lt (h.fresh m hm)
  unique m hm m' hm' hCall := by
    rcases List.mem_cons.mp hm with rfl | hm <;> rcases List.mem_cons.mp hm' with rfl | hm'
    · rfl
    · exact absurd (h.fresh m' hm') (hCall ▸ Nat.lt_irrefl _)
    · exact absurd (h.fresh m hm) (hCall ▸ Nat.lt_irrefl _)
    · exact h.unique m hm m' hm' hCall
  sent m hm := by
    rcases List.mem_cons.mp hm with rfl | hm
    · exact List.mem_cons_self
    · exact List.mem_cons_of_mem _ (h.sent m hm)
  replied r hr := by
    obtain ⟨m, hm, hAns⟩ := h.replied r hr
    exact ⟨m, List.mem_cons_of_mem _ hm, hAns⟩

theorem Sound.answer (h : net.Sound answers) {m : Envelope Addr Req} {reply : Rep}
    (hm : m ∈ net.requests) (hAns : answers m reply) :
    (net.answer m.call reply).Sound answers where
  fresh := h.fresh
  unique := h.unique
  sent m' hm' := h.sent m' (List.mem_filter.mp hm').1
  replied r hr := by
    rcases List.mem_cons.mp hr with rfl | hr
    · exact ⟨m, h.sent m hm, rfl, hAns⟩
    · exact h.replied r hr

theorem Sound.answers_of_call (h : net.Sound answers) {m : Envelope Addr Req} {reply : Rep}
    (hm : m ∈ net.posted) (hr : (m.call, reply) ∈ net.replies) : answers m reply := by
  obtain ⟨m', hm', hCall, hAns⟩ := h.replied _ hr
  rw [h.unique m hm m' hm' hCall.symm]
  exact hAns

end Net

end AtMostOnce
