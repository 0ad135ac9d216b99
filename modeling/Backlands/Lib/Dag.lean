/-
  Backlands.Lib.Dag — nodes that refer to older nodes.

  A heap is a list of cells; a cell has a label and references to cells made before it, or
  null. What a reference stands for is the tree it unfolds to. Cells are only added, so a
  reference keeps its tree.
-/

import Mathlib.Data.List.GetD
import Mathlib.Data.List.Induction

namespace Backlands.Lib

/-- What a reference stands for. -/
inductive RefTree (α : Type*) where
  | null
  | node (label : α) (children : List (RefTree α))

structure Cell (α : Type*) where
  label : α
  children : List (Option Nat)
  deriving DecidableEq

namespace Dag

variable {α : Type*}

/-- A reference among the trees of the cells so far. -/
def pick (ts : List (RefTree α)) : Option Nat → RefTree α
  | none => .null
  | some p => ts.getD p .null

def unfoldCell (ts : List (RefTree α)) (c : Cell α) : RefTree α := .node c.label (c.children.map (pick ts))

def trees (heap : List (Cell α)) : List (RefTree α) := heap.foldl (fun ts c => ts ++ [unfoldCell ts c]) []

/-- A reference to one of the first `n` cells. -/
def Below (n : Nat) (r : Option Nat) : Prop := ∀ p, r = some p → p < n

instance (n : Nat) (r : Option Nat) : Decidable (Below n r) :=
  match r with
  | none => isTrue fun _ h => nomatch h
  | some p => decidable_of_iff (p < n) ⟨fun h _ hq => Option.some.inj hq ▸ h, fun h => h p rfl⟩

theorem Below.mono {m n : Nat} (hmn : m ≤ n) {r : Option Nat} (h : Below m r) : Below n r :=
  fun p hp => Nat.lt_of_lt_of_le (h p hp) hmn

theorem trees_add (heap : List (Cell α)) (c : Cell α) :
    trees (heap ++ [c]) = trees heap ++ [unfoldCell (trees heap) c] := List.foldl_append

theorem length_trees (heap : List (Cell α)) : (trees heap).length = heap.length := by
  induction heap using List.reverseRecOn with
  | nil => rfl
  | append_singleton heap c ih => rw [trees_add, List.length_append, List.length_append, ih, List.length_singleton,
      List.length_singleton]

theorem pick_append {ts us : List (RefTree α)} {r : Option Nat} (h : Below ts.length r) :
    pick (ts ++ us) r = pick ts r := by
  cases r with
  | none => rfl
  | some p =>
    show (ts ++ us).getD p .null = ts.getD p .null
    rw [List.getD_append _ _ _ _ (h p rfl)]

def tree (heap : List (Cell α)) (r : Option Nat) : RefTree α := pick (trees heap) r

def cellTree (heap : List (Cell α)) (c : Cell α) : RefTree α := unfoldCell (trees heap) c

theorem tree_add {heap : List (Cell α)} {r : Option Nat} (h : Below heap.length r) (c : Cell α) :
    tree (heap ++ [c]) r = tree heap r := by
  rw [tree, trees_add]
  exact pick_append (by rwa [length_trees])

theorem tree_new (heap : List (Cell α)) (c : Cell α) : tree (heap ++ [c]) (some heap.length) = cellTree heap c := by
  show (trees (heap ++ [c])).getD heap.length .null = _
  rw [trees_add, ← length_trees heap, List.getD_append_right _ _ _ _ (Nat.le_refl _), Nat.sub_self]
  rfl

theorem lt_of_tree {heap : List (Cell α)} {p : Nat} (h : tree heap (some p) ≠ .null) : p < heap.length := by
  by_contra hp
  refine h ?_
  show (trees heap).getD p .null = .null
  rw [List.getD_eq_default]
  rw [length_trees]
  omega

end Dag

end Backlands.Lib
