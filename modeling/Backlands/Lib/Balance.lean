/-
  Backlands.Lib.Balance — a quantity that is a base and the sum of what is in force.

  Effects come into force and go out of it in any order, and one may be replaced in its place.
  For a quantity in balance, what it must be after each of these.
-/

import Mathlib.Algebra.BigOperators.Group.List.Basic

namespace Backlands.Lib

open List

variable {α β : Type*} [AddCommGroup α] {q q₀ q' : α} {f : β → α} {l : List β} {x : β}

/-- A quantity is its base and the effects in force. -/
def Balance (q₀ : α) (f : β → α) (l : List β) (q : α) : Prop := q = q₀ + (l.map f).sum

theorem balance_nil : Balance q₀ f [] q ↔ q = q₀ := by
  simp [Balance]

theorem Balance.perm {l' : List β} (h : Balance q₀ f l q) (hperm : l.Perm l') : Balance q₀ f l' q := by
  unfold Balance at *
  rw [h, (hperm.map f).sum_eq]

theorem balance_cons_iff (x : β) : Balance q₀ f (x :: l) q ↔ Balance q₀ f l (q + -f x) := by
  unfold Balance
  rw [map_cons, sum_cons, add_neg_eq_iff_eq_add, add_assoc q₀, add_comm (f x)]

theorem Balance.cons_iff (h : Balance q₀ f l q) (x : β) : Balance q₀ f (x :: l) q' ↔ q' = q + f x := by
  rw [balance_cons_iff, Balance, ← h, add_neg_eq_iff_eq_add]

theorem Balance.append_iff (h : Balance q₀ f l q) (x : β) : Balance q₀ f (l ++ [x]) q' ↔ q' = q + f x := by
  rw [← h.cons_iff x]
  have hperm : (l ++ [x]).Perm (x :: l) := perm_append_singleton x l
  exact ⟨fun hq => hq.perm hperm, fun hq => hq.perm hperm.symm⟩

theorem Balance.eraseIdx {i : Nat} (h : Balance q₀ f l q) (hi : l[i]? = some x) : Balance q₀ f (l.eraseIdx i) (q + -f x) := by
  obtain ⟨hlt, rfl⟩ := List.getElem?_eq_some_iff.mp hi
  exact (balance_cons_iff _).mp (h.perm (getElem_cons_eraseIdx_perm hlt).symm)

theorem Balance.eraseIdx_iff {i : Nat} (h : Balance q₀ f l q) (hi : l[i]? = some x) :
    Balance q₀ f (l.eraseIdx i) q' ↔ q' = q + -f x := by
  have herased : q + -f x = q₀ + ((l.eraseIdx i).map f).sum := h.eraseIdx hi
  rw [herased]
  rfl

theorem Balance.set_iff {i : Nat} (h : Balance q₀ f l q) (hi : l[i]? = some x) (y : β) :
    Balance q₀ f (l.set i y) q' ↔ q' = q + -f x + f y := by
  obtain ⟨hlt, -⟩ := List.getElem?_eq_some_iff.mp hi
  have hperm : (l.set i y).Perm (y :: l.eraseIdx i) := set_perm_cons_eraseIdx hlt y
  rw [← (h.eraseIdx hi).cons_iff y]
  exact ⟨fun hq => hq.perm hperm, fun hq => hq.perm hperm.symm⟩

end Backlands.Lib
