/-
  Backlands.Lib.Views — positions among the elements of a list that a viewer sees, and the
  way back; and insertion by a key into a sorted list.
-/

import Mathlib.Data.List.Basic

namespace Backlands.Lib

open List

variable {α : Type*} {sees is : α → Bool} {l : List α} {a : α}

/-- The number of seen elements before the first that `is`, from `n` on. -/
def indexAmong (sees is : α → Bool) : List α → Nat → Option Nat
  | [], _ => none
  | a :: l, n => if is a then some n else indexAmong sees is l (if sees a then n + 1 else n)

/-- The seen element at an index, or what is left of the index. -/
def pick (sees : α → Bool) : List α → Nat → α ⊕ Nat
  | [], index => .inr index
  | a :: l, index => if !sees a then pick sees l index else if index = 0 then .inl a else pick sees l (index - 1)

theorem pick_left (l : List α) (k : Nat) : pick sees l (l.countP sees + k) = .inr k := by
  induction l generalizing k with
  | nil => simp [pick]
  | cons a l ih =>
    rw [pick]
    cases h : sees a with
    | false => simpa [h] using ih k
    | true =>
      rw [if_neg (by simp), countP_cons_of_pos h, if_neg (by omega)]
      rw [show l.countP sees + 1 + k - 1 = l.countP sees + k by omega]
      exact ih k

theorem pick_index (ha : a ∈ l) (hs : sees a = true) (his : ∀ b ∈ l, is b = true ↔ b = a) (n : Nat) :
    ∃ k, indexAmong sees is l n = some (n + k) ∧ pick sees l k = .inl a := by
  induction l generalizing n with
  | nil => cases ha
  | cons b l ih =>
    rw [indexAmong]
    by_cases hb : b = a
    · subst hb
      rw [if_pos ((his b mem_cons_self).mpr rfl)]
      simp [pick, hs]
    have hin : a ∈ l := (mem_cons.mp ha).resolve_left (Ne.symm hb)
    have hnot : ¬is b = true := fun h => hb ((his b mem_cons_self).mp h)
    obtain ⟨k, hk, hpick⟩ := ih hin (fun c hc => his c (mem_cons_of_mem _ hc)) (if sees b then n + 1 else n)
    rw [if_neg hnot, hk]
    cases h : sees b with
    | false => exact ⟨k, by simp, by simpa [pick, h] using hpick⟩
    | true => exact ⟨k + 1, by simp only [if_true]; congr 1; omega, by simpa [pick, h] using hpick⟩

theorem getElem?_findIdx? (ha : a ∈ l) (his : ∀ b ∈ l, is b = true ↔ b = a) :
    ∃ k, l.findIdx? is = some k ∧ l[k]? = some a := by
  cases h : l.findIdx? is with
  | none =>
    grind
  | some k =>
    obtain ⟨hlt, hk, -⟩ := findIdx?_eq_some_iff_getElem.mp h
    refine ⟨k, rfl, ?_⟩
    rw [getElem?_eq_getElem hlt, (his _ (getElem_mem hlt)).mp hk]

/-- An element put before the first whose key is not less stays in order, and so does one put
    before the first whose key is greater. -/
theorem insert_pairwise {key : α → Nat} {before : α → Bool} (hl : l.Pairwise fun b c => key b ≤ key c)
    (hb : ∀ b, before b = true → key a ≤ key b) (hn : ∀ b, before b = false → key b ≤ key a) :
    (l.takeWhile (fun b => !before b) ++ a :: l.dropWhile (fun b => !before b)).Pairwise fun b c => key b ≤ key c := by
  induction l with
  | nil => simp
  | cons b l ih =>
    have hl' := pairwise_cons.mp hl
    cases h : before b with
    | true =>
      simp only [takeWhile_cons, dropWhile_cons, h, Bool.not_true, Bool.false_eq_true, if_false, nil_append]
      grind
    | false =>
      have hba := hn b h
      simp only [takeWhile_cons, dropWhile_cons, h, Bool.not_false, if_true, cons_append]
      refine pairwise_cons.mpr ⟨fun c hc => ?_, ih hl'.2⟩
      rcases mem_append.mp hc with hc | hc
      · exact hl'.1 c ((takeWhile_sublist _).subset hc)
      · rcases mem_cons.mp hc with rfl | hc
        · exact hba
        · exact hl'.1 c ((dropWhile_sublist _).subset hc)

end Backlands.Lib
