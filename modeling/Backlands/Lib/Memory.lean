/-
  Backlands.Lib.Memory — cells that are read and written by number.

  A memory is a tree with cell 0 at the root, the odd cells on the left and the even ones on
  the right, so a run that uses many cells can still be evaluated. A cell that was never
  written holds the blank.

  Proved: `read_write`, that a write changes its own cell and no other.
-/

import Mathlib.Logic.Function.Basic
import Mathlib.Tactic.Common

namespace Backlands.Lib

variable {α : Type*}

inductive MemoryTree (α : Type*) where
  | nil
  | node (here : Option α) (left right : MemoryTree α)

namespace MemoryTree

def here : MemoryTree α → Option α
  | nil => none
  | node a _ _ => a

def left : MemoryTree α → MemoryTree α
  | nil => nil
  | node _ l _ => l

def right : MemoryTree α → MemoryTree α
  | nil => nil
  | node _ _ r => r

def read : MemoryTree α → Nat → Option α
  | nil, _ => none
  | node a l r, i => if i = 0 then a else if i % 2 = 1 then l.read (i / 2) else r.read (i / 2 - 1)

def write (a : α) (t : MemoryTree α) (i : Nat) : MemoryTree α :=
  if i = 0 then node (some a) t.left t.right
  else if i % 2 = 1 then node t.here (write a t.left (i / 2)) t.right
  else node t.here t.left (write a t.right (i / 2 - 1))
termination_by i

theorem read_eq (t : MemoryTree α) (i : Nat) :
    t.read i = if i = 0 then t.here else if i % 2 = 1 then t.left.read (i / 2) else t.right.read (i / 2 - 1) := by
  cases t with
  | nil => simp [here, left, right, read]
  | node a l r => rw [read]; rfl

theorem read_write (a : α) (t : MemoryTree α) (i j : Nat) :
    (t.write a i).read j = if j = i then some a else t.read j := by
  induction t, i using write.induct generalizing j with
  | case1 t =>
    rw [write, read_eq t j]
    simp only [if_pos, read]
    split
    · rfl
    · rfl
  | case2 t i hi hodd ih =>
    rw [write, if_neg hi, if_pos hodd, read, ih, read_eq t j]
    by_cases hj : j = i
    · subst hj
      simp [hi, hodd]
    by_cases hj0 : j = 0
    · simp [hj0, Ne.symm hi]
    by_cases hjodd : j % 2 = 1
    · have hne : j / 2 ≠ i / 2 := by omega
      simp [hj, hj0, hjodd, hne]
    · simp [hj, hj0, hjodd]
  | case3 t i hi heven ih =>
    rw [write, if_neg hi, if_neg heven, read, ih, read_eq t j]
    by_cases hj : j = i
    · subst hj
      simp [hi, heven]
    by_cases hj0 : j = 0
    · simp [hj0, Ne.symm hi]
    by_cases hjodd : j % 2 = 1
    · simp [hj, hj0, hjodd]
    · have hne : j / 2 - 1 ≠ i / 2 - 1 := by omega
      simp [hj, hj0, hjodd, hne]

end MemoryTree

structure Memory (α : Type*) where
  blank : α
  cells : MemoryTree α := .nil

namespace Memory

def read (m : Memory α) (i : Nat) : α := (m.cells.read i).getD m.blank

def write (m : Memory α) (i : Nat) (a : α) : Memory α := { m with cells := m.cells.write a i }

theorem read_write (m : Memory α) (i j : Nat) (a : α) : (m.write i a).read j = if j = i then a else m.read j := by
  unfold read write
  rw [MemoryTree.read_write]
  split
  · rfl
  · rfl

@[simp] theorem read_write_self (m : Memory α) (i : Nat) (a : α) : (m.write i a).read i = a := by simp [read_write]

@[simp] theorem read_write_of_ne (m : Memory α) {i j : Nat} (h : j ≠ i) (a : α) : (m.write i a).read j = m.read j := by
  simp [read_write, h]

theorem read_write_eq_update (m : Memory α) (i : Nat) (a : α) : (m.write i a).read = Function.update m.read i a := by
  funext j
  rw [read_write, Function.update_apply]

theorem read_foldl_write {β : Type*} (g : β → Nat) (a : α) (l : List β) (m : Memory α) (j : Nat)
    (h : m.read j = a ∨ ∃ b ∈ l, g b = j) : (l.foldl (fun m b => m.write (g b) a) m).read j = a := by
  induction l generalizing m with
  | nil =>
    grind
  | cons b l ih =>
    refine ih (m.write (g b) a) ?_
    by_cases hj : g b = j
    · exact .inl (hj ▸ read_write_self m (g b) a)
    · rw [read_write_of_ne m (Ne.symm hj)]
      grind

end Memory

end Backlands.Lib
