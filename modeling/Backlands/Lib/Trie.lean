/-
  Backlands.Lib.Trie — trees indexed by digits.

  `find` follows the digits of a key to a leaf, `put` makes what is missing on the way. In
  a tree of uniform depth (`Deep`) `put` changes what is found under one key and no other.
-/

import Mathlib.Logic.Function.Basic

namespace Backlands.Lib

open Function

inductive Trie (ι α : Type*) where
  | empty
  | leaf (a : α)
  | node (child : ι → Trie ι α)

namespace Trie

variable {ι α : Type*}

def find : List ι → Trie ι α → Option α
  | _, leaf a => some a
  | i :: is, node child => find is (child i)
  | _, _ => none

/-- The children of a node; a missing node has none. -/
def child : Trie ι α → ι → Trie ι α
  | node child => child
  | _ => fun _ => empty

def isEmpty : Trie ι α → Bool
  | empty => true
  | _ => false

def put [DecidableEq ι] : List ι → α → Trie ι α → Trie ι α
  | [], a, _ => leaf a
  | i :: is, a, t => node (update t.child i (put is a (t.child i)))

/-- The leaf of a key, made when it is missing: the tree, the leaf, and whether it is new. -/
def ensure [DecidableEq ι] (is : List ι) (a : α) (t : Trie ι α) : Trie ι α × α × Bool :=
  match t.find is with
  | some b => (t, b, false)
  | none => (t.put is a, a, true)

/-- Every leaf is `n` digits down. -/
def Deep : Nat → Trie ι α → Prop
  | 0, t => ∃ a, t = leaf a
  | n + 1, t => ∃ child, t = node child ∧ ∀ i, child i = empty ∨ Deep n (child i)

variable {n : Nat} {t : Trie ι α}

theorem isEmpty_of_deep (h : Deep n t) : t.isEmpty = false := by
  cases n with
  | zero =>
    obtain ⟨a, rfl⟩ := h
    rfl
  | succ n =>
    obtain ⟨c, rfl, -⟩ := h
    rfl

theorem find_empty (is : List ι) : find is (empty : Trie ι α) = none := by
  cases is <;> rfl

theorem find_child_empty (h : t = empty ∨ Deep (n + 1) t) (i : ι) (is : List ι) :
    find (i :: is) t = find is (t.child i) := by
  rcases h with rfl | ⟨c, rfl, -⟩
  · exact (find_empty _).trans (find_empty _).symm
  · rfl

theorem deep_child (h : t = empty ∨ Deep (n + 1) t) (i : ι) : t.child i = empty ∨ Deep n (t.child i) := by
  rcases h with rfl | ⟨c, rfl, hc⟩
  · exact .inl rfl
  · exact hc i

variable [DecidableEq ι]

variable {is : List ι}

theorem deep_put (hn : is.length = n) (a : α) (h : t = empty ∨ Deep n t) : Deep n (put is a t) := by
  induction is generalizing n t with
  | nil =>
    subst hn
    exact ⟨a, rfl⟩
  | cons i is ih =>
    subst hn
    refine ⟨_, rfl, fun j => ?_⟩
    by_cases hj : j = i
    · subst hj
      rw [update_self]
      exact .inr (ih rfl (deep_child h j))
    · rw [update_of_ne hj]
      exact deep_child h j

theorem find_put {js : List ι} (hi : is.length = n) (hj : js.length = n) (a : α) (h : t = empty ∨ Deep n t) :
    find js (put is a t) = if js = is then some a else find js t := by
  induction is generalizing n t js with
  | nil =>
    subst hi
    obtain rfl := List.length_eq_zero_iff.mp hj
    rfl
  | cons i is ih =>
    subst hi
    cases js with
    | nil => cases hj
    | cons j js =>
      rw [find_child_empty h]
      show find js (update t.child i (put is a (t.child i)) j) = _
      by_cases hji : j = i
      · subst hji
        rw [update_self, ih rfl (Nat.succ.inj hj) (deep_child h j)]
        simp only [List.cons.injEq, true_and]
      · rw [update_of_ne hji, if_neg (fun heq => hji (List.cons.inj heq).1)]

theorem ensure_of_some {a b : α} (h : t.find is = some b) : t.ensure is a = (t, b, false) := by
  rw [ensure, h]

theorem ensure_of_none {a : α} (h : t.find is = none) : t.ensure is a = (t.put is a, a, true) := by
  rw [ensure, h]

end Trie

end Backlands.Lib
