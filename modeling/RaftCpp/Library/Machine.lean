import Mathlib.Data.List.Induction

/-! # Machines with output and their histories

A machine is a partial step function that also answers. A history lists what
the machine was given and what it answered, the earliest entry first, so that
two runs can be compared by their histories and a promise about "from then on"
is a statement about the entries of one.
-/

namespace Machine

universe u v w

structure Entry (ι : Type v) (ο : Type w) where
  input : ι
  output : ο
  deriving DecidableEq

variable {σ : Type u} {ι : Type v} {ο : Type w} {step : σ → ι → Option (σ × ο)}

inductive Plays (step : σ → ι → Option (σ × ο)) : σ → List (Entry ι ο) → σ → Prop
  | nil (s : σ) : Plays step s [] s
  | cons {s t u : σ} {i : ι} {o : ο} {h : List (Entry ι ο)} : step s i = some (t, o) →
      Plays step t h u → Plays step s (⟨i, o⟩ :: h) u

theorem Plays.append {s t u : σ} {h h' : List (Entry ι ο)} (hst : Plays step s h t)
    (htu : Plays step t h' u) : Plays step s (h ++ h') u := by
  induction hst with
  | nil => exact htu
  | cons hStep _ ih => exact .cons hStep (ih htu)

theorem Plays.of_append {s u : σ} {h h' : List (Entry ι ο)} (hsu : Plays step s (h ++ h') u) :
    ∃ t, Plays step s h t ∧ Plays step t h' u := by
  induction h generalizing s with
  | nil => exact ⟨s, .nil s, hsu⟩
  | cons e h ih =>
    cases hsu with
    | cons hStep hRest =>
      obtain ⟨t, hst, htu⟩ := ih hRest
      exact ⟨t, .cons hStep hst, htu⟩

theorem Plays.unique {s t t' : σ} {h : List (Entry ι ο)} (ht : Plays step s h t)
    (ht' : Plays step s h t') : t = t' := by
  induction ht with
  | nil =>
    cases ht'
    rfl
  | cons hStep _ ih =>
    cases ht' with
    | cons hStep' hRest =>
      rw [hStep] at hStep'
      cases hStep'
      exact ih hRest

/-- As long as every entry is allowed, the invariant lasts and every entry is a good one. -/
theorem Plays.invariant {I : σ → Prop} {ok good : Entry ι ο → Prop}
    (hStep : ∀ s i t o, I s → ok ⟨i, o⟩ → step s i = some (t, o) → I t ∧ good ⟨i, o⟩)
    {s t : σ} {h : List (Entry ι ο)} (hst : Plays step s h t) (hs : I s)
    (hok : ∀ e ∈ h, ok e) : I t ∧ ∀ e ∈ h, good e := by
  induction hst with
  | nil => exact ⟨hs, fun e he => by cases he⟩
  | @cons s t u i o h hFirst _ ih =>
    obtain ⟨ht, hGood⟩ := hStep s i t o hs (hok _ List.mem_cons_self) hFirst
    obtain ⟨hu, hRest⟩ := ih ht (fun e he => hok e (List.mem_cons_of_mem _ he))
    exact ⟨hu, List.forall_mem_cons.mpr ⟨hGood, hRest⟩⟩

/-- An invariant of the state together with the history that led to it. -/
theorem Plays.history {I : List (Entry ι ο) → σ → Prop} {s : σ} (hNil : I [] s)
    (hStep : ∀ h t i u o, Plays step s h t → I h t → step t i = some (u, o) →
      I (h ++ [⟨i, o⟩]) u) {h : List (Entry ι ο)} : ∀ {t}, Plays step s h t → I h t := by
  induction h using List.reverseRecOn with
  | nil =>
    intro t hst
    cases hst
    exact hNil
  | append_singleton h e ih =>
    intro u hsu
    obtain ⟨t, hst, htu⟩ := hsu.of_append
    cases htu with
    | @cons _ _ _ i o _ hLast hEnd =>
      cases hEnd
      exact hStep h t i u o hst (ih hst) hLast

/-- `t` is reached from `s` in one step or more, with no state at rest in between. -/
inductive Excursion (step : σ → ι → Option (σ × ο)) (rest : σ → Prop) (s : σ) : σ → Prop
  | leave {t : σ} {i : ι} {o : ο} : step s i = some (t, o) → Excursion step rest s t
  | goOn {t u : σ} {i : ι} {o : ο} : Excursion step rest s t → ¬ rest t →
      step t i = some (u, o) → Excursion step rest s u

theorem Excursion.invariant {rest I : σ → Prop}
    (hStep : ∀ s i t o, I s → step s i = some (t, o) → I t) {s t : σ}
    (h : Excursion step rest s t) (hs : I s) : I t := by
  induction h with
  | leave hFirst => exact hStep _ _ _ _ hs hFirst
  | goOn _ _ hNext ih => exact hStep _ _ _ _ ih hNext

section Drive

variable (step) (input : σ → Option ι)

/-- Feeds the machine with what `input` has for its state until there is nothing more. -/
def drive : Nat → σ → Option (σ × List (Entry ι ο))
  | 0, s =>
    match input s with
    | some _ => none
    | none => some (s, [])
  | fuel + 1, s =>
    match input s with
    | some i =>
      match step s i with
      | some (t, o) => (drive fuel t).map fun r => (r.1, ⟨i, o⟩ :: r.2)
      | none => none
    | none => some (s, [])

/-- Within `bound` steps the driven machine comes to rest in `t`, after a history in `Q`. -/
def Completes (bound : Nat) (s t : σ) (Q : List (Entry ι ο) → Prop) : Prop :=
  ∀ fuel, bound ≤ fuel → ∃ h, drive step input fuel s = some (t, h) ∧ Q h

variable {step input}

theorem Completes.stop {s : σ} {Q : List (Entry ι ο) → Prop} (hInput : input s = none)
    (hQ : Q []) : Completes step input 0 s s Q := by
  intro fuel _
  refine ⟨[], ?_, hQ⟩
  cases fuel <;> simp [drive, hInput]

theorem Completes.next {bound : Nat} {s t u : σ} {i : ι} {o : ο}
    {Q Q' : List (Entry ι ο) → Prop} (h : Completes step input bound t u Q)
    (hInput : input s = some i) (hStep : step s i = some (t, o))
    (hQ : ∀ h, Q h → Q' (⟨i, o⟩ :: h)) : Completes step input (bound + 1) s u Q' := by
  intro fuel hFuel
  obtain ⟨fuel, rfl⟩ : ∃ k, fuel = k + 1 := ⟨fuel - 1, by omega⟩
  obtain ⟨h, hDrive, hHist⟩ := h fuel (by omega)
  exact ⟨⟨i, o⟩ :: h, by simp [drive, hInput, hStep, hDrive], hQ h hHist⟩

theorem Completes.mono {bound bound' : Nat} {s t : σ} {Q : List (Entry ι ο) → Prop}
    (h : Completes step input bound s t Q) (hBound : bound ≤ bound') :
    Completes step input bound' s t Q :=
  fun fuel hFuel => h fuel (Nat.le_trans hBound hFuel)

theorem drive_congr {input' : σ → Option ι} {I : σ → Prop}
    (hInput : ∀ s, I s → input' s = input s)
    (hNext : ∀ s i t o, I s → input s = some i → step s i = some (t, o) → I t)
    (fuel : Nat) {s : σ} (hs : I s) : drive step input' fuel s = drive step input fuel s := by
  induction fuel generalizing s with
  | zero => simp only [drive, hInput s hs]
  | succ fuel ih =>
    simp only [drive, hInput s hs]
    cases hi : input s with
    | none => rfl
    | some i =>
      cases hStep : step s i with
      | none => simp only [hStep]
      | some r =>
        obtain ⟨t, o⟩ := r
        simp only [hStep, ih (hNext s i t o hs hi hStep)]

theorem Completes.congr {input' : σ → Option ι} {I : σ → Prop} {bound : Nat} {s t : σ}
    {Q : List (Entry ι ο) → Prop} (h : Completes step input bound s t Q)
    (hInput : ∀ s, I s → input' s = input s)
    (hNext : ∀ s i t o, I s → input s = some i → step s i = some (t, o) → I t) (hs : I s) :
    Completes step input' bound s t Q := by
  intro fuel hFuel
  rw [drive_congr hInput hNext fuel hs]
  exact h fuel hFuel

theorem plays_of_drive {fuel : Nat} {s t : σ} {h : List (Entry ι ο)}
    (hDrive : drive step input fuel s = some (t, h)) : Plays step s h t := by
  induction fuel generalizing s h with
  | zero =>
    simp only [drive] at hDrive
    split at hDrive
    · cases hDrive
    · cases hDrive
      exact .nil _
  | succ fuel ih =>
    simp only [drive] at hDrive
    split at hDrive
    · split at hDrive
      · rename_i u o hStep
        obtain ⟨⟨t', h'⟩, hRest, hEq⟩ := Option.map_eq_some_iff.mp hDrive
        cases hEq
        exact .cons hStep (ih hRest)
      · cases hDrive
    · cases hDrive
      exact .nil _

/-- A machine whose fed steps all go down in rank comes to rest, within as many steps as
the rank it starts from. -/
theorem exists_completes {r : σ → Nat} {I : σ → Prop} {G : Entry ι ο → Prop}
    (hNext : ∀ s i, I s → input s = some i →
      ∃ t o, step s i = some (t, o) ∧ I t ∧ r t < r s ∧ G ⟨i, o⟩) {s : σ} (hs : I s) :
    ∃ t, Completes step input (r s) s t (fun h => ∀ e ∈ h, G e) ∧ I t ∧ input t = none := by
  induction hRank : r s using Nat.strongRecOn generalizing s with
  | ind k ih =>
    subst hRank
    cases hInput : input s with
    | none =>
      refine ⟨s, ?_, hs, hInput⟩
      exact (Completes.stop hInput (fun e he => by cases he)).mono (Nat.zero_le _)
    | some i =>
      obtain ⟨t, o, hStep, ht, hLt, hGood⟩ := hNext s i hs hInput
      obtain ⟨u, hCompletes, hu, hRest⟩ := ih (r t) hLt ht rfl
      refine ⟨u, ?_, hu, hRest⟩
      apply (hCompletes.next hInput hStep _).mono hLt
      intro h hh
      exact List.forall_mem_cons.mpr ⟨hGood, hh⟩

end Drive

theorem Plays.length_le_rank {r : σ → Nat} {G : Entry ι ο → Prop}
    (hStep : ∀ s i t o, G ⟨i, o⟩ → step s i = some (t, o) → r t < r s)
    {s t : σ} {h : List (Entry ι ο)} (hst : Plays step s h t) (hG : ∀ e ∈ h, G e) :
    h.length + r t ≤ r s := by
  induction hst with
  | nil => simp
  | @cons s t u i o h hFirst _ ih =>
    obtain ⟨hHead, hTail⟩ := List.forall_mem_cons.mp hG
    have hLt := hStep s i t o hHead hFirst
    have hLe := ih hTail
    rw [List.length_cons]
    omega

end Machine
