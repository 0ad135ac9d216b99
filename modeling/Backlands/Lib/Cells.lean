/-
  Backlands.Lib.Cells — a store of independent cells and programs of operations on it.

  A store is a function from cells to their contents. An operation changes every cell on
  its own (`each`), changes one cell and may fail (`modify`), or checks one cell (`need`). A
  program runs its operations in order and fails as soon as one does.

  Proved: `runOps_eq_some_iff`, that a program's run is the run of its operations at each cell;
  from it `runOps_again`, what running a program a second time does when all cells but one
  are then left alone.
-/

import Mathlib.Tactic.Choose

namespace Backlands.Lib

open Function

variable {ι σ : Type*}

inductive Op (ι σ : Type*) where
  | each (f : ι → σ → σ)
  | modify (i : ι) (f : σ → Option σ)
  | need (i : ι) (p : σ → Bool)

section
variable [DecidableEq ι]

def Op.exec : Op ι σ → (ι → σ) → Option (ι → σ)
  | .each f, s => some fun i => f i (s i)
  | .modify i f, s => (f (s i)).map (update s i)
  | .need i p, s => if p (s i) then some s else none

def runOps : List (Op ι σ) → (ι → σ) → Option (ι → σ)
  | [], s => some s
  | o :: ops, s => (o.exec s).bind (runOps ops)

def Op.cell (j : ι) : Op ι σ → σ → Option σ
  | .each f, x => some (f j x)
  | .modify i f, x => if i = j then f x else some x
  | .need i p, x => if i = j then (if p x then some x else none) else some x

def cellRun (j : ι) : List (Op ι σ) → σ → Option σ
  | [], x => some x
  | o :: ops, x => (o.cell j x).bind (cellRun j ops)

variable {ops : List (Op ι σ)}

theorem cellRun_append (j : ι) (ops ops' : List (Op ι σ)) (x : σ) :
    cellRun j (ops ++ ops') x = (cellRun j ops x).bind (cellRun j ops') := by
  induction ops generalizing x with
  | nil => rfl
  | cons o ops ih =>
    simp only [List.cons_append, cellRun]
    cases o.cell j x with
    | none => rfl
    | some y => exact ih y

theorem Op.exec_eq_some_iff {o : Op ι σ} {s s' : ι → σ} :
    o.exec s = some s' ↔ ∀ j, o.cell j (s j) = some (s' j) := by
  cases o with
  | each f =>
    simp only [exec, cell, Option.some.injEq]
    exact ⟨fun h j => by rw [← h], funext⟩
  | modify i f =>
    simp only [exec, cell, Option.map_eq_some_iff]
    constructor
    · rintro ⟨x, hx, rfl⟩ j
      grind
    intro h
    have hi := h i
    rw [if_pos rfl] at hi
    refine ⟨s' i, hi, ?_⟩
    funext j
    by_cases e : i = j
    · subst e
      rw [update_self]
    · have hj := h j
      rw [if_neg e, Option.some.injEq] at hj
      rw [update_of_ne fun h => e h.symm, hj]
  | need i p =>
    simp only [exec, cell]
    constructor
    · grind
    intro h
    have hi := h i
    rw [if_pos rfl] at hi
    split at hi
    · rename_i hp
      rw [if_pos hp, Option.some.injEq]
      funext j
      grind
    · cases hi

theorem runOps_eq_some_iff {s s' : ι → σ} : runOps ops s = some s' ↔ ∀ j, cellRun j ops (s j) = some (s' j) := by
  induction ops generalizing s with
  | nil =>
    simp only [runOps, cellRun, Option.some.injEq]
    exact ⟨fun h j => by rw [h], funext⟩
  | cons o ops ih =>
    simp only [runOps, cellRun, Option.bind_eq_some_iff]
    constructor
    · rintro ⟨t, ht, hrun⟩ j
      exact ⟨t j, Op.exec_eq_some_iff.mp ht j, ih.mp hrun j⟩
    · intro h
      choose t ht hrun using h
      exact ⟨t, Op.exec_eq_some_iff.mpr ht, ih.mpr hrun⟩

theorem runOps_single {s : ι → σ} {i : ι} (h : ∀ j, j ≠ i → cellRun j ops (s j) = some (s j)) :
    runOps ops s = (cellRun i ops (s i)).map (update s i) := by
  cases hi : cellRun i ops (s i) with
  | none =>
    cases hrun : runOps ops s with
    | none => rfl
    | some s' =>
      have := runOps_eq_some_iff.mp hrun i
      rw [hi] at this
      cases this
  | some y =>
    apply runOps_eq_some_iff.mpr
    grind

/-- Doing it again changes nothing. -/
def Stable (f : σ → Option σ) : Prop := ∀ x y, f x = some y → f y = some y

theorem Stable.pure : Stable (some : σ → Option σ) := by
  intro x y _
  rfl

theorem Stable.congr {f g : σ → Option σ} (hf : Stable f) (h : ∀ x, g x = f x) : Stable g := by
  intro x y hxy
  rw [h] at hxy ⊢
  exact hf x y hxy

theorem runOps_again {s s' : ι → σ} {i : ι} (hrun : runOps ops s = some s') (h : ∀ j, j ≠ i → Stable (cellRun j ops)) :
    runOps ops s' = (cellRun i ops (s' i)).map (update s' i) := by
  apply runOps_single
  intro j hj
  exact h j hj _ _ (runOps_eq_some_iff.mp hrun j)

end

end Backlands.Lib
