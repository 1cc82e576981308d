import Mathlib.Data.List.Pairwise

/-! # Labelled systems and their runs

A system is a class of initial states with a partial step function. A run is
kept as the list of its visited states, so that "at some earlier point" is
membership in that list. Runs may be restricted by a condition on each step;
the unrestricted ones use the condition that always holds.
-/

namespace Transition

universe u v w x

structure System (σ : Type u) (ε : Type v) where
  initial : σ → Prop
  step : σ → ε → Option σ

namespace System

variable {σ : Type u} {ε : Type v} {S : System σ ε} {ok : σ → ε → Prop}

/-- The visited states of a run whose steps all satisfy `ok`, the latest one first. -/
inductive Run (S : System σ ε) (ok : σ → ε → Prop) : List σ → Prop
  | start {s : σ} : S.initial s → Run S ok [s]
  | step {s t : σ} {e : ε} {past : List σ} : Run S ok (s :: past) → ok s e →
      S.step s e = some t → Run S ok (t :: s :: past)

def Reaches (S : System σ ε) (ok : σ → ε → Prop) (s : σ) : Prop :=
  ∃ past, S.Run ok (s :: past)

def anyStep (_ : σ) (_ : ε) : Prop := True

def Reachable (S : System σ ε) (s : σ) : Prop := S.Reaches anyStep s

theorem Reaches.start {s : σ} (h : S.initial s) : S.Reaches ok s := ⟨[], .start h⟩

theorem Reaches.next {s t : σ} {e : ε} (h : S.Reaches ok s) (hok : ok s e)
    (hstep : S.step s e = some t) : S.Reaches ok t := by
  obtain ⟨past, hRun⟩ := h
  exact ⟨s :: past, .step hRun hok hstep⟩

theorem Run.reaches {s : σ} {trace : List σ} (h : S.Run ok trace) :
    s ∈ trace → S.Reaches ok s := by
  induction h with
  | start hInit =>
    intro hs
    rw [List.mem_singleton.mp hs]
    exact .start hInit
  | @step s' t e past hRun hok hstep ih =>
    intro hs
    rcases List.mem_cons.mp hs with rfl | hs
    · exact ⟨s' :: past, .step hRun hok hstep⟩
    · exact ih hs

/-- The induction rule for whole runs: an invariant holds initially and is kept by
every allowed step taken from a state that a run reaches. -/
theorem Reaches.invariant {I : σ → Prop} (hInit : ∀ s, S.initial s → I s)
    (hStep : ∀ s e t, S.Reaches ok s → I s → ok s e → S.step s e = some t → I t)
    {s : σ} (h : S.Reaches ok s) : I s := by
  obtain ⟨past, hRun⟩ := h
  generalize hTrace : s :: past = trace at hRun
  induction hRun generalizing s past with
  | start h0 =>
    cases hTrace
    exact hInit _ h0
  | @step s' t e past' hRun hok hstep ih =>
    cases hTrace
    exact hStep s' e _ ⟨past', hRun⟩ (ih past' rfl) hok hstep

/-- What is on record in the last state of a run was entered by one of its steps. -/
theorem Run.entered {entered : σ → σ → Prop} (recorded : σ → Prop)
    (hInit : ∀ s, S.initial s → ¬ recorded s)
    (hStep : ∀ s e t, S.Reaches ok s → S.step s e = some t → recorded t →
      recorded s ∨ entered s t)
    {s : σ} {past : List σ} (h : S.Run ok (s :: past)) (hs : recorded s) :
    ∃ later t u earlier, s :: past = later ++ t :: u :: earlier ∧ entered u t := by
  generalize hTrace : s :: past = trace at h
  induction h generalizing s past with
  | start h0 =>
    cases hTrace
    exact absurd hs (hInit _ h0)
  | @step s' t e past' hRun _ hstep ih =>
    cases hTrace
    rcases hStep s' e _ ⟨past', hRun⟩ hstep hs with hOld | hNew
    · obtain ⟨later, v, u, earlier, hEq, hEntered⟩ := ih hOld rfl
      exact ⟨_ :: later, v, u, earlier, congrArg (_ :: ·) hEq, hEntered⟩
    · exact ⟨[], _, s', past', rfl, hNew⟩

theorem Run.visits {seen : σ → Prop} (recorded : σ → Prop)
    (hInit : ∀ s, S.initial s → ¬ recorded s)
    (hStep : ∀ s e t, S.step s e = some t → recorded t → recorded s ∨ seen s ∨ seen t)
    {s : σ} {past : List σ} (h : S.Run ok (s :: past)) (hs : recorded s) :
    ∃ u ∈ s :: past, seen u := by
  obtain ⟨later, t, u, earlier, hEq, hSeen⟩ := h.entered recorded hInit
    (fun s e t _ hstep => hStep s e t hstep) hs
  rw [hEq]
  rcases hSeen with hSeen | hSeen
  · exact ⟨u, by simp, hSeen⟩
  · exact ⟨t, by simp, hSeen⟩

/-- A list of states, the latest first, each reached from the one before by an `ok` step. -/
def Stretch (S : System σ ε) (ok : σ → ε → Prop) (span : List σ) : Prop :=
  span.IsChain fun t s => ∃ e, ok s e ∧ S.step s e = some t

/-- Where a step goes up in a transitive relation exactly when it is a good one, a stretch
of a run is ordered exactly when all its steps are good. -/
theorem Run.pairwise_iff {good : σ → ε → Prop} (le : σ → σ → Prop)
    (hTrans : ∀ s t u, le s t → le t u → le s u)
    (hStep : ∀ s e t, S.Reaches ok s → S.step s e = some t → (le s t ↔ good s e))
    {span earlier : List σ} (h : S.Run ok (span ++ earlier)) :
    span.Pairwise (fun t s => le s t) ↔ S.Stretch good span := by
  have : IsTrans σ (fun t s => le s t) := ⟨fun u t s htu hst => hTrans s t u hst htu⟩
  induction span with
  | nil => exact ⟨fun _ => .nil, fun _ => .nil⟩
  | cons t span ih =>
    cases span with
    | nil => exact ⟨fun _ => .singleton t, fun _ => List.pairwise_singleton _ t⟩
    | cons s span =>
      cases h with
      | @step _ _ e _ hRun hok hstep =>
        have hRest : (s :: span).Pairwise (fun t s => le s t) ↔ S.Stretch good (s :: span) :=
          ih hRun
        rw [List.pairwise_cons_cons_iff_of_trans, hRest, Stretch, Stretch, List.isChain_cons_cons]
        refine and_congr_left' ?_
        constructor
        · intro hLast
          exact ⟨e, (hStep s e t ⟨_, hRun⟩ hstep).mp hLast, hstep⟩
        · rintro ⟨e', hGood, hstep'⟩
          exact (hStep s e' t ⟨_, hRun⟩ hstep').mpr hGood

/-- A transitive relation between the ends of every step inside `P` relates all the states
of a stretch that stays inside. -/
theorem Run.pairwise_of_step {P : σ → Prop} (R : σ → σ → Prop)
    (hTrans : ∀ s t u, R s t → R t u → R s u)
    (hStep : ∀ s e t, P s → P t → S.step s e = some t → R s t)
    {span earlier : List σ} (h : S.Run ok (span ++ earlier)) (hP : ∀ s ∈ span, P s) :
    span.Pairwise (fun t s => R s t) := by
  have : IsTrans σ (fun t s => R s t) := ⟨fun u t s htu hst => hTrans s t u hst htu⟩
  induction span with
  | nil => exact .nil
  | cons t span ih =>
    cases span with
    | nil => exact List.pairwise_singleton _ t
    | cons s span =>
      cases h with
      | @step _ _ e _ hRun hok hstep =>
        rw [List.pairwise_cons_cons_iff_of_trans]
        constructor
        · exact hStep s e t (hP s (by simp)) (hP t (by simp)) hstep
        · exact ih hRun (fun u hu => hP u (List.mem_cons_of_mem _ hu))

/-- Projection onto a component: a step of the whole is a step of the component or
leaves it alone, so the component of a reachable state is reachable. -/
theorem Reaches.project {τ : Type w} {δ : Type x} {T : System τ δ} (f : σ → τ)
    (hInit : ∀ s, S.initial s → T.initial (f s))
    (hStep : ∀ s e t, S.step s e = some t → f t = f s ∨ ∃ d, T.step (f s) d = some (f t))
    {s : σ} (h : S.Reaches ok s) : T.Reachable (f s) := by
  apply h.invariant (I := fun s => T.Reachable (f s)) (fun s h0 => .start (hInit s h0))
  intro s e t _ ih _ hstep
  rcases hStep s e t hstep with hEq | ⟨d, hd⟩
  · rw [hEq]
    exact ih
  · exact ih.next trivial hd

/-- A map of the states that every step commutes with takes runs to runs. -/
theorem Run.map {τ : Type w} {δ : Type x} {T : System τ δ} {ok' : τ → δ → Prop} (f : σ → τ)
    (hInit : ∀ s, S.initial s → T.initial (f s))
    (hStep : ∀ s e t, ok s e → S.step s e = some t → ∃ d, ok' (f s) d ∧ T.step (f s) d = some (f t))
    {trace : List σ} (h : S.Run ok trace) : T.Run ok' (trace.map f) := by
  induction h with
  | start h0 => exact .start (hInit _ h0)
  | step _ hok hstep ih =>
    obtain ⟨d, hok', hd⟩ := hStep _ _ _ hok hstep
    exact .step ih hok' hd

inductive Leads (S : System σ ε) : σ → σ → Prop
  | refl (s : σ) : Leads S s s
  | next {s t u : σ} {e : ε} : Leads S s t → S.step t e = some u → Leads S s u

theorem Leads.trans {s t u : σ} (hst : S.Leads s t) (htu : S.Leads t u) : S.Leads s u := by
  induction htu with
  | refl => exact hst
  | next _ hstep ih => exact .next ih hstep

theorem Reachable.leads {s t : σ} (h : S.Reachable s) (hLeads : S.Leads s t) : S.Reachable t := by
  induction hLeads with
  | refl => exact h
  | next _ hstep ih => exact ih.next trivial hstep

/-- As `Leads`, by steps that all satisfy `ok`. -/
inductive Advances (S : System σ ε) (ok : σ → ε → Prop) : σ → σ → Prop
  | refl (s : σ) : Advances S ok s s
  | next {s t u : σ} {e : ε} : Advances S ok s t → ok t e → S.step t e = some u → Advances S ok s u

theorem Advances.trans {s t u : σ} (hst : S.Advances ok s t) (htu : S.Advances ok t u) :
    S.Advances ok s u := by
  induction htu with
  | refl => exact hst
  | next _ hok hstep ih => exact .next ih hok hstep

theorem Advances.mono {ok' : σ → ε → Prop} (hImp : ∀ s e, ok s e → ok' s e) {s t : σ}
    (h : S.Advances ok s t) : S.Advances ok' s t := by
  induction h with
  | refl => exact .refl _
  | next _ hok hStep ih => exact .next ih (hImp _ _ hok) hStep

theorem Advances.leads {s t : σ} (h : S.Advances ok s t) : S.Leads s t := by
  induction h with
  | refl => exact .refl _
  | next _ _ hstep ih => exact .next ih hstep

theorem Reaches.advances {s t : σ} (h : S.Reaches ok s) (hAdvances : S.Advances ok s t) :
    S.Reaches ok t := by
  induction hAdvances with
  | refl => exact h
  | next _ hok hstep ih => exact ih.next hok hstep

theorem Run.advances {s t : σ} {past : List σ} (h : S.Run ok (t :: past)) :
    s ∈ t :: past → S.Advances ok s t := by
  generalize hTrace : t :: past = trace at h
  induction h generalizing t past with
  | start _ =>
    cases hTrace
    intro hs
    rw [List.mem_singleton.mp hs]
    exact .refl _
  | step _ hok hstep ih =>
    cases hTrace
    intro hs
    rcases List.mem_cons.mp hs with rfl | hs
    · exact .refl _
    · exact .next (ih rfl hs) hok hstep

section Imp

variable {ok' : σ → ε → Prop}
  (hImp : ∀ s e t, S.Reaches ok s → ok s e → S.step s e = some t → ok' s e)

include hImp

theorem Run.of_imp {trace : List σ} (h : S.Run ok trace) : S.Run ok' trace := by
  induction h with
  | start h0 => exact .start h0
  | step hRun hok hstep ih => exact .step ih (hImp _ _ _ ⟨_, hRun⟩ hok hstep) hstep

theorem Reaches.of_imp {s : σ} (h : S.Reaches ok s) : S.Reaches ok' s := by
  obtain ⟨past, hRun⟩ := h
  exact ⟨past, hRun.of_imp hImp⟩

theorem Advances.of_imp {s t : σ} (hs : S.Reaches ok s) (h : S.Advances ok s t) :
    S.Advances ok' s t := by
  induction h with
  | refl => exact .refl _
  | next hst hok hstep ih => exact .next ih (hImp _ _ _ (hs.advances hst) hok hstep) hstep

end Imp

/-- A run that is looked at from time to time, with what was seen, the first look first. -/
inductive Observes {ο : Type w} (S : System σ ε) (ok : σ → ε → Prop) (view : σ → ο → Prop) :
    σ → List ο → σ → Prop
  | stop (s : σ) : Observes S ok view s [] s
  | goesOn {s t u : σ} {e : ε} {seen : List ο} : ok s e → S.step s e = some t →
      Observes S ok view t seen u → Observes S ok view s seen u
  | sees {s t : σ} {o : ο} {seen : List ο} : view s o → Observes S ok view s seen t →
      Observes S ok view s (o :: seen) t

theorem Observes.advances {ο : Type w} {view : σ → ο → Prop} {s t : σ} {seen : List ο}
    (h : S.Observes ok view s seen t) : S.Advances ok s t := by
  induction h with
  | stop => exact .refl _
  | goesOn hok hstep _ ih => exact (Advances.next (.refl _) hok hstep).trans ih
  | sees _ _ ih => exact ih

/-- Forward simulation: each step of the concrete system is matched by zero or more
steps of the abstract one from every related state. -/
theorem Reaches.simulate {τ : Type w} {δ : Type x} {T : System τ δ} {R : σ → τ → Prop}
    (hInit : ∀ s, S.initial s → ∃ a, T.initial a ∧ R s a)
    (hStep : ∀ s e t a, S.Reaches ok s → T.Reachable a → R s a → ok s e →
      S.step s e = some t → ∃ b, T.Leads a b ∧ R t b)
    {s : σ} (h : S.Reaches ok s) : ∃ a, T.Reachable a ∧ R s a := by
  apply h.invariant (I := fun s => ∃ a, T.Reachable a ∧ R s a)
  · intro s h0
    obtain ⟨a, ha, hR⟩ := hInit s h0
    exact ⟨a, .start ha, hR⟩
  · rintro s e t hs ⟨a, ha, hR⟩ hok hstep
    obtain ⟨b, hab, hR'⟩ := hStep s e t a hs ha hR hok hstep
    exact ⟨b, ha.leads hab, hR'⟩

instance (s : σ) (e : ε) : Decidable (anyStep s e) := isTrue trivial

section Visit

variable (S) (ok) [∀ s e, Decidable (ok s e)]

/-- Extends a visited list by the states that a sequence of labels leads through. -/
def visit : List σ → List ε → Option (List σ)
  | [], _ => none
  | trace, [] => some trace
  | s :: past, e :: es =>
    if ok s e then
      match S.step s e with
      | some t => visit (t :: s :: past) es
      | none => none
    else none

variable {S ok}

theorem Run.visit {es : List ε} {trace trace' : List σ} (h : S.Run ok trace)
    (hVisit : S.visit ok trace es = some trace') : S.Run ok trace' := by
  induction es generalizing trace with
  | nil =>
    cases trace with
    | nil => cases hVisit
    | cons s past =>
      simp only [System.visit, Option.some.injEq] at hVisit
      exact hVisit ▸ h
  | cons e es ih =>
    cases trace with
    | nil => cases hVisit
    | cons s past =>
      simp only [System.visit] at hVisit
      split at hVisit
      · split at hVisit
        · exact ih (.step h ‹_› ‹_›) hVisit
        · cases hVisit
      · cases hVisit

variable (S ok)

theorem exists_run (s : σ) (es : List ε) {P : List σ → Bool} (h0 : S.initial s)
    (h : (S.visit ok [s] es).any P = true) : ∃ trace, S.Run ok trace ∧ P trace = true := by
  obtain ⟨trace, hVisit, hP⟩ := (Option.any_eq_true _ _).mp h
  exact ⟨trace, Run.visit (.start h0) hVisit, hP⟩

theorem exists_reaches (s : σ) (es : List ε) {P : σ → Bool} (h0 : S.initial s)
    (h : (S.visit ok [s] es).any (fun trace => trace.head?.any P) = true) :
    ∃ t, S.Reaches ok t ∧ P t = true := by
  obtain ⟨trace, hRun, hLast⟩ := exists_run S ok s es h0 h
  obtain ⟨t, hHead, hP⟩ := (Option.any_eq_true _ _).mp hLast
  cases trace with
  | nil => cases hHead
  | cons u past =>
    cases hHead
    exact ⟨t, ⟨past, hRun⟩, hP⟩

theorem exists_step (s : σ) (es : List ε) (e : ε) {P : σ → σ → Bool} (h0 : S.initial s)
    (h : (S.visit ok [s] es).any
      (fun trace => trace.head?.any fun t => (S.step t e).any (P t)) = true) :
    ∃ t u, S.Reaches ok t ∧ S.step t e = some u ∧ P t u = true := by
  obtain ⟨t, ht, hLast⟩ := exists_reaches S ok s es h0 h
  obtain ⟨u, hStep, hP⟩ := (Option.any_eq_true _ _).mp hLast
  exact ⟨t, u, ht, hStep, hP⟩

end Visit

end System

end Transition
