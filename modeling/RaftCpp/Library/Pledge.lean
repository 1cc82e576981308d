import Mathlib.Data.Finset.Card
import Mathlib.Data.Finset.Basic
import RaftCpp.Library.Transition

/-! # Majorities and elections by write-once pledges

Each voter pledges itself at most once and for good, and a leader is elected by
a majority of pledges to it. Two majorities of one electorate share a voter, so
such an election never has two leaders. Nothing here speaks of terms, messages
or failures: the concrete protocols only have to show where their pledges are.
-/

namespace Pledge

open Transition

universe u v

variable {α : Type u} {β : Type v}

structure IsMajority (U V : Finset α) : Prop where
  subset : V ⊆ U
  card_lt : U.card < 2 * V.card

theorem IsMajority.exists_common [DecidableEq α] {U V W : Finset α} (hV : IsMajority U V)
    (hW : IsMajority U W) : ∃ v, v ∈ V ∧ v ∈ W := by
  have hCard : U.card < V.card + W.card := by
    have h₁ := hV.card_lt
    have h₂ := hW.card_lt
    omega
  obtain ⟨v, hv⟩ := Finset.inter_nonempty_of_card_lt_card_add_card hV.subset hW.subset hCard
  exact ⟨v, Finset.mem_inter.mp hv⟩

/-- Two choices that both have a majority behind them are equal, as soon as no single
voter backs two different ones. -/
theorem eq_of_majorities [DecidableEq α] (backs : α → β → Prop) {U V W : Finset α} {c d : β}
    (hV : IsMajority U V) (hW : IsMajority U W)
    (hc : ∀ v ∈ V, backs v c) (hd : ∀ v ∈ W, backs v d)
    (hOne : ∀ v, backs v c → backs v d → c = d) : c = d := by
  obtain ⟨v, hvV, hvW⟩ := hV.exists_common hW
  exact hOne v (hc v hvV) (hd v hvW)

structure Ballots (α : Type u) where
  pledge : α → Option α
  leaders : List α

inductive Move (α : Type u) where
  | pledge (voter candidate : α)
  | elect (candidate : α) (voters : Finset α)

variable [DecidableEq α]

def Ballots.step (U : Finset α) (b : Ballots α) : Move α → Option (Ballots α)
  | .pledge v c =>
    if b.pledge v = none then
      some { b with pledge := Function.update b.pledge v (some c) }
    else none
  | .elect c V =>
    if V ⊆ U ∧ U.card < 2 * V.card ∧ ∀ v ∈ V, b.pledge v = some c then
      some { b with leaders := c :: b.leaders }
    else none

def ballots (U : Finset α) : System (Ballots α) (Move α) where
  initial b := (∀ v, b.pledge v = none) ∧ b.leaders = []
  step := Ballots.step U

def Backed (U : Finset α) (b : Ballots α) : Prop :=
  ∀ c ∈ b.leaders, ∃ V, IsMajority U V ∧ ∀ v ∈ V, b.pledge v = some c

theorem backed_step {U : Finset α} {b b' : Ballots α} {m : Move α} (h : Backed U b)
    (hstep : b.step U m = some b') : Backed U b' := by
  cases m with
  | pledge v c =>
    simp only [Ballots.step] at hstep
    split at hstep
    · rename_i hNone
      cases hstep
      intro d hd
      obtain ⟨V, hV, hPledged⟩ := h d hd
      refine ⟨V, hV, fun w hw => ?_⟩
      -- the voter that pledges now had no pledge, so it is in no majority so far
      have hne : w ≠ v := by
        rintro rfl
        rw [hPledged w hw] at hNone
        cases hNone
      simpa [Function.update_of_ne hne] using hPledged w hw
    · cases hstep
  | elect c V =>
    simp only [Ballots.step] at hstep
    split at hstep
    · rename_i hGuard
      cases hstep
      intro d hd
      rcases List.mem_cons.mp hd with rfl | hd
      · exact ⟨V, ⟨hGuard.1, hGuard.2.1⟩, hGuard.2.2⟩
      · exact h d hd
    · cases hstep

theorem backed_of_reachable {U : Finset α} {b : Ballots α} (h : (ballots U).Reachable b) :
    Backed U b := by
  apply System.Reaches.invariant _ _ h
  · intro b hb c hc
    rw [hb.2] at hc
    cases hc
  · exact fun b m b' _ ih _ hstep => backed_step ih hstep

/-- An election by write-once pledges has at most one leader, over whole runs. -/
theorem leader_unique {U : Finset α} {b : Ballots α} (h : (ballots U).Reachable b)
    {c d : α} (hc : c ∈ b.leaders) (hd : d ∈ b.leaders) : c = d := by
  obtain ⟨V, hV, hPledgeV⟩ := backed_of_reachable h c hc
  obtain ⟨W, hW, hPledgeW⟩ := backed_of_reachable h d hd
  apply eq_of_majorities (fun v c => b.pledge v = some c) hV hW hPledgeV hPledgeW
  intro v hvc hvd
  rw [hvc] at hvd
  exact Option.some.inj hvd

end Pledge
