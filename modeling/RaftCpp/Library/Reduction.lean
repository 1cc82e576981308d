import RaftCpp.Library.Machine

/-! # Reduction to undivided stretches

Some states of a machine are states of rest. Between two of them a machine goes
through a stretch, and other inputs may come in the middle of one. Where such an
input can always be put off to the end of the stretch, every play between states
of rest is, but for the place of these inputs, a play of stretches that nothing
comes in the middle of.
-/

namespace Machine

universe u v w

variable {σ : Type u} {ι : Type v} {ο : Type w} {step : σ → ι → Option (σ × ο)}

/-- The machine goes on to the next state of rest. -/
inductive Stretch (step : σ → ι → Option (σ × ο)) (rest : σ → Prop) :
    σ → List (Entry ι ο) → σ → Prop
  | stop {s t : σ} {i : ι} {o : ο} : step s i = some (t, o) → rest t →
      Stretch step rest s [⟨i, o⟩] t
  | goOn {s t u : σ} {i : ι} {o : ο} {h : List (Entry ι ο)} : step s i = some (t, o) → ¬ rest t →
      Stretch step rest t h u → Stretch step rest s (⟨i, o⟩ :: h) u

/-- One act after the other, with the histories of all of them. -/
inductive Batches (act : σ → List (Entry ι ο) → σ → Prop) : σ → List (Entry ι ο) → σ → Prop
  | nil (s : σ) : Batches act s [] s
  | cons {s t u : σ} {h h' : List (Entry ι ο)} : act s h t → Batches act t h' u →
      Batches act s (h ++ h') u

theorem Batches.imp {act act' : σ → List (Entry ι ο) → σ → Prop} {I : σ → Prop}
    (hAct : ∀ s h t, I s → act s h t → act' s h t ∧ I t) {s t : σ} {h : List (Entry ι ο)}
    (hBatches : Batches act s h t) (hs : I s) : Batches act' s h t := by
  induction hBatches with
  | nil => exact .nil _
  | cons hFirst _ ih =>
    obtain ⟨hFirst', ht⟩ := hAct _ _ _ hs hFirst
    exact .cons hFirst' (ih ht)

theorem Batches.plays {act : σ → List (Entry ι ο) → σ → Prop}
    (hAct : ∀ s h t, act s h t → Plays step s h t) {s t : σ} {h : List (Entry ι ο)}
    (hBatches : Batches act s h t) : Plays step s h t := by
  induction hBatches with
  | nil => exact .nil _
  | cons hFirst _ ih => exact (hAct _ _ _ hFirst).append ih

/-- These inputs neither begin nor end a stretch, and in the middle of one each can be put
off past the next input that is not of this kind. -/
structure Movers (step : σ → ι → Option (σ × ο)) (rest : σ → Prop) (mover : ι → Bool) : Prop where
  keeps : ∀ {s i t o}, step s i = some (t, o) → mover i = true → (rest t ↔ rest s)
  commutes : ∀ {s i t o j u p}, ¬ rest s → step s i = some (t, o) → mover i = true →
    step t j = some (u, p) → mover j = false →
    ∃ t', step s j = some (t', p) ∧ step t' i = some (u, o)

/-- The entries of one kind, in their order. -/
def only (mover : ι → Bool) (h : List (Entry ι ο)) : List (Entry ι ο) :=
  h.filter fun e => mover e.input

def without (mover : ι → Bool) (h : List (Entry ι ο)) : List (Entry ι ο) :=
  h.filter fun e => !mover e.input

/-- A stretch with nothing put in between, or one input that may be put anywhere. -/
def Undivided (step : σ → ι → Option (σ × ο)) (rest : σ → Prop) (mover : ι → Bool)
    (s : σ) (h : List (Entry ι ο)) (t : σ) : Prop :=
  Stretch step rest s h t ∧ (without mover h = h ∨ h.length = 1)

variable {rest : σ → Prop} {mover : ι → Bool}

theorem without_without (h : List (Entry ι ο)) :
    without mover (without mover h) = without mover h := by
  simp [without]

theorem Stretch.ends {s t : σ} {h : List (Entry ι ο)} (hStretch : Stretch step rest s h t) :
    rest t := by
  induction hStretch with
  | stop _ hRest => exact hRest
  | goOn _ _ _ ih => exact ih

theorem Plays.stretch {s u : σ} {h : List (Entry ι ο)} (hPlays : Plays step s h u)
    (hs : ¬ rest s) (hu : rest u) :
    ∃ h₁ h₂ t, h = h₁ ++ h₂ ∧ Stretch step rest s h₁ t ∧ Plays step t h₂ u := by
  induction hPlays with
  | nil => exact absurd hu hs
  | @cons s t u i o h hStep hRest ih =>
    by_cases ht : rest t
    · exact ⟨[⟨i, o⟩], h, t, rfl, .stop hStep ht, hRest⟩
    · obtain ⟨h₁, h₂, v, rfl, hStretch, hLast⟩ := ih ht hu
      exact ⟨⟨i, o⟩ :: h₁, h₂, v, rfl, .goOn hStep ht hStretch, hLast⟩

namespace Movers

variable (hMovers : Movers step rest mover)

include hMovers

theorem putOff {s t u : σ} {i : ι} {o : ο} {h : List (Entry ι ο)}
    (hStretch : Stretch step rest t h u) (hs : ¬ rest s) (hStep : step s i = some (t, o))
    (hi : mover i = true) (hh : without mover h = h) :
    ∃ t', Stretch step rest s h t' ∧ step t' i = some (u, o) := by
  induction hStretch generalizing s with
  | stop hNext hu =>
    have hj := List.filter_eq_self.mp hh _ List.mem_cons_self
    obtain ⟨t', hFirst, hLast⟩ := hMovers.commutes hs hStep hi hNext (by simpa using hj)
    exact ⟨t', .stop hFirst ((hMovers.keeps hLast hi).mp hu), hLast⟩
  | goOn hNext hBusy _ ih =>
    obtain ⟨hj, hRest⟩ := List.forall_mem_cons.mp (List.filter_eq_self.mp hh)
    obtain ⟨t', hFirst, hLast⟩ := hMovers.commutes hs hStep hi hNext (by simpa using hj)
    have hBusy' : ¬ rest t' := mt (hMovers.keeps hLast hi).mpr hBusy
    obtain ⟨v, hStretch, hEnd⟩ := ih hBusy' hLast (List.filter_eq_self.mpr hRest)
    exact ⟨v, .goOn hFirst hBusy' hStretch, hEnd⟩

theorem sort {s t : σ} {h : List (Entry ι ο)} (hStretch : Stretch step rest s h t)
    (hs : ¬ rest s) :
    ∃ t', Stretch step rest s (without mover h) t' ∧ Plays step t' (only mover h) t := by
  induction hStretch with
  | @stop s t i o hStep ht =>
    have hi : mover i = false := by
      rw [Bool.eq_false_iff]
      exact fun hi => hs ((hMovers.keeps hStep hi).mp ht)
    simp only [without, only, List.filter_cons, hi, List.filter_nil]
    exact ⟨t, .stop hStep ht, .nil t⟩
  | @goOn s t u i o h hStep ht _ ih =>
    obtain ⟨t', hStretch, hPlays⟩ := ih ht
    cases hi : mover i with
    | false =>
      simp only [without, only, List.filter_cons, hi]
      exact ⟨t', .goOn hStep ht hStretch, hPlays⟩
    | true =>
      simp only [without, only, List.filter_cons, hi]
      obtain ⟨v, hStretch', hLast⟩ := hMovers.putOff hStretch hs hStep hi
        (without_without h)
      exact ⟨v, hStretch', .cons hLast hPlays⟩

/-- Between two states of rest a play can be put in order. -/
theorem reduction {s u : σ} {h : List (Entry ι ο)} (hPlays : Plays step s h u) (hs : rest s)
    (hu : rest u) :
    ∃ h', Batches (Undivided step rest mover) s h' u ∧ without mover h' = without mover h ∧
      only mover h' = only mover h := by
  -- on the length: what was put off comes first in the play that is left
  induction hLength : h.length using Nat.strongRecOn generalizing s h with
  | ind k ih =>
    subst hLength
    cases hPlays with
    | nil => exact ⟨[], .nil _, rfl, rfl⟩
    | @cons _ t _ i o h hStep hRest =>
      by_cases ht : rest t
      · obtain ⟨h', hBatches, hWithout, hOnly⟩ := ih h.length (by simp) hRest ht rfl
        have hFirst : Undivided step rest mover s [⟨i, o⟩] t := ⟨.stop hStep ht, .inr rfl⟩
        refine ⟨[⟨i, o⟩] ++ h', .cons hFirst hBatches, ?_, ?_⟩
        · simp only [without, List.singleton_append, List.filter_cons] at hWithout ⊢
          rw [hWithout]
        · simp only [only, List.singleton_append, List.filter_cons] at hOnly ⊢
          rw [hOnly]
      · have hi : mover i = false := by
          rw [Bool.eq_false_iff]
          exact fun hi => ht ((hMovers.keeps hStep hi).mpr hs)
        obtain ⟨h₁, h₂, v, rfl, hStretch, hLast⟩ := hRest.stretch ht hu
        obtain ⟨t', hSorted, hLate⟩ := hMovers.sort hStretch ht
        have hLess : (only mover h₁ ++ h₂).length < (⟨i, o⟩ :: (h₁ ++ h₂) : List _).length := by
          have hFilter : (only mover h₁).length ≤ h₁.length := List.length_filter_le _ _
          rw [List.length_append, List.length_cons, List.length_append]
          omega
        obtain ⟨h', hBatches, hWithout, hOnly⟩ :=
          ih _ hLess (hLate.append hLast) hSorted.ends rfl
        have hFirst : Undivided step rest mover s (⟨i, o⟩ :: without mover h₁) t' := by
          refine ⟨.goOn hStep ht hSorted, .inl ?_⟩
          simp [without, hi]
        refine ⟨_, .cons hFirst hBatches, ?_, ?_⟩
        · simp only [without, only, List.filter_append] at hWithout ⊢
          simp [hWithout, hi]
        · simp only [without, only, List.filter_append] at hOnly ⊢
          simp [hOnly, hi]

end Movers

end Machine
