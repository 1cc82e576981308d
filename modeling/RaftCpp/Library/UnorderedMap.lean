import Mathlib.Logic.Function.Basic

/-! # Finite maps with an inserting subscript

An unordered map is kept as the partial function it stands for. `subscript`
is the lookup that inserts a default entry for a missing key, so a read can
change the key set; `find` and `erase` do not insert.
-/

namespace UnorderedMap

universe u v

variable {κ : Type u} {υ : Type v} [DecidableEq κ]

abbrev Map (κ : Type u) (υ : Type v) := κ → Option υ

def empty : Map κ υ := fun _ => none

def insert (m : Map κ υ) (k : κ) (x : υ) : Map κ υ := Function.update m k (some x)

/-- The entry of `k`, after inserting the default one where there was none. -/
def subscript (m : Map κ υ) (k : κ) (default : υ) : Map κ υ × υ :=
  match m k with
  | some x => (m, x)
  | none => (insert m k default, default)

def erase (m : Map κ υ) (k : κ) : Map κ υ := Function.update m k none

def HasKey (m : Map κ υ) (k : κ) : Prop := (m k).isSome

@[simp] theorem insert_self (m : Map κ υ) (k : κ) (x : υ) : insert m k x k = some x := by
  simp [insert]

@[simp] theorem insert_of_ne {m : Map κ υ} {k k' : κ} (x : υ) (h : k' ≠ k) :
    insert m k x k' = m k' := by
  simp [insert, h]

@[simp] theorem erase_self (m : Map κ υ) (k : κ) : erase m k k = none := by
  simp [erase]

@[simp] theorem erase_of_ne {m : Map κ υ} {k k' : κ} (h : k' ≠ k) : erase m k k' = m k' := by
  simp [erase, h]

theorem subscript_self (m : Map κ υ) (k : κ) (default : υ) :
    (subscript m k default).1 k = some (subscript m k default).2 := by
  unfold subscript
  split
  · assumption
  · simp

theorem subscript_of_ne {m : Map κ υ} {k k' : κ} (default : υ) (h : k' ≠ k) :
    (subscript m k default).1 k' = m k' := by
  unfold subscript
  split
  · rfl
  · simp [h]

theorem erase_insert_subscript (m : Map κ υ) (k : κ) (default x : υ) :
    erase (insert (subscript m k default).1 k x) k = erase m k := by
  funext k'
  by_cases h : k' = k
  · subst h
    simp
  · simp [h, subscript_of_ne]

end UnorderedMap
