/-
  Backlands.Lib.Stretches — cells read and written in stretches, and texts worked on in
  blocks and in rounds.

  A store has a fixed number of cells; a read or a write that reaches past the last one is no
  read or write at all (`none`). A cipher goes over its text block after block, `k` blocks of
  `n`, and does so once a round.

  Proved: `peek_segment`, `poke_segment`, a store written as three pieces is read and changed
  in its middle one; `inBlocks_cancel` and `foldl_cancel`, what undoes a block undoes a text,
  and what undoes each round undoes them all, the last one first; `block_inBlocks` and
  `foldl_view`, a block of the text is worked on by itself, and so over all rounds.
-/

import Mathlib.Data.List.Basic
import Mathlib.Algebra.Order.Group.Nat

namespace Backlands.Lib

open List

variable {α κ : Type*}

/-! ## Stretches of a store -/

/-- The `n` cells from `i` on. -/
def peek (m : List α) (i n : Nat) : Option (List α) :=
  if i + n ≤ m.length then some ((m.drop i).take n) else none

def poke (m : List α) (i : Nat) (xs : List α) : Option (List α) :=
  if i + xs.length ≤ m.length then some (m.take i ++ xs ++ m.drop (i + xs.length)) else none

theorem peek_segment {a b c : List α} {i n : Nat} (hi : a.length = i) (hn : b.length = n) :
    peek (a ++ b ++ c) i n = some b := by
  subst hi hn
  have hle : a.length + b.length ≤ (a ++ b ++ c).length := by
    simp only [length_append]
    omega
  rw [peek, if_pos hle, append_assoc, drop_left, take_left]

theorem poke_segment {a b c xs : List α} {i : Nat} (hi : a.length = i) (hn : b.length = xs.length) :
    poke (a ++ b ++ c) i xs = some (a ++ xs ++ c) := by
  subst hi
  have hle : a.length + xs.length ≤ (a ++ b ++ c).length := by
    simp only [length_append]
    omega
  rw [poke, if_pos hle, ← hn, ← length_append, drop_left, append_assoc a b c, take_left]

theorem exists_segments {m : List α} {i n : Nat} (h : i + n ≤ m.length) :
    ∃ a b c, m = a ++ b ++ c ∧ a.length = i ∧ b.length = n := by
  refine ⟨m.take i, (m.drop i).take n, (m.drop i).drop n, ?_, ?_, ?_⟩
  · rw [append_assoc, take_append_drop, take_append_drop]
  · rw [length_take]
    omega
  · rw [length_take, length_drop]
    omega

theorem length_peek {m xs : List α} {i n : Nat} (h : peek m i n = some xs) : xs.length = n := by
  unfold peek at h
  split at h
  · cases h
    rw [length_take, length_drop]
    omega
  · cases h

theorem length_poke {m m' xs : List α} {i : Nat} (h : poke m i xs = some m') : m'.length = m.length := by
  unfold poke at h
  split at h
  · cases h
    simp only [length_append, length_take, length_drop]
    omega
  · cases h

/-! ## Texts in blocks -/

/-- The first `k` blocks of `n` cells, each by itself. -/
def inBlocks (n : Nat) (f : List α → List α) : Nat → List α → List α
  | 0, data => data
  | k + 1, data => f (data.take n) ++ inBlocks n f k (data.drop n)

section
variable {n : Nat} {f g : List α → List α} (hf : ∀ b, b.length = n → (f b).length = n)
include hf

variable {data : List α} {k : Nat}

theorem length_inBlocks (h : n * k ≤ data.length) : (inBlocks n f k data).length = data.length := by
  induction k generalizing data with
  | zero => rfl
  | succ k ih =>
    rw [Nat.mul_succ] at h
    have hrest : n * k ≤ (data.drop n).length := by
      rw [length_drop]
      omega
    rw [inBlocks, length_append, hf _ (by rw [length_take]; omega), ih hrest, length_drop]
    omega

theorem inBlocks_cancel (hg : ∀ b, b.length = n → g (f b) = b) (h : n * k ≤ data.length) :
    inBlocks n g k (inBlocks n f k data) = data := by
  induction k generalizing data with
  | zero => rfl
  | succ k ih =>
    rw [Nat.mul_succ] at h
    have hblock : (data.take n).length = n := by
      rw [length_take]
      omega
    have hrest : n * k ≤ (data.drop n).length := by
      rw [length_drop]
      omega
    rw [inBlocks, inBlocks, take_append_of_le_length (hf _ hblock).ge, take_of_length_le (hf _ hblock).le,
      drop_append_of_le_length (hf _ hblock).ge, drop_of_length_le (hf _ hblock).le, nil_append,
      hg _ hblock, ih hrest, take_append_drop]

/-- The `i`-th block of `n` cells. -/
def block (n i : Nat) (data : List α) : List α := (data.drop (n * i)).take n

omit hf in
theorem length_block {i : Nat} (hi : i < k) (h : n * k ≤ data.length) : (block n i data).length = n := by
  have hle : n * (i + 1) ≤ n * k := Nat.mul_le_mul_left n hi
  rw [Nat.mul_succ] at hle
  rw [block, length_take, length_drop]
  omega

theorem block_inBlocks {i : Nat} (hi : i < k) (h : n * k ≤ data.length) :
    block n i (inBlocks n f k data) = f (block n i data) := by
  induction k generalizing data i with
  | zero => exact absurd hi (Nat.not_lt_zero i)
  | succ k ih =>
    rw [Nat.mul_succ] at h
    have hblock : (data.take n).length = n := by
      rw [length_take]
      omega
    have hrest : n * k ≤ (data.drop n).length := by
      rw [length_drop]
      omega
    unfold block at ih ⊢
    rw [inBlocks]
    cases i with
    | zero => rw [Nat.mul_zero, drop_zero, drop_zero, take_left' (hf _ hblock)]
    | succ i =>
      have hskip : n * (i + 1) = n + n * i := by rw [Nat.mul_succ, Nat.add_comm]
      rw [hskip, ← drop_drop, drop_left' (hf _ hblock), ih (Nat.lt_of_succ_lt_succ hi) hrest, drop_drop]

end

/-! ## Rounds -/

theorem foldl_cancel (enc dec : α → κ → α) {P : α → Prop} (hP : ∀ x k, P x → P (enc x k))
    (h : ∀ x k, P x → dec (enc x k) k = x) (ks : List κ) {x : α} (hx : P x) :
    ks.reverse.foldl dec (ks.foldl enc x) = x := by
  induction ks generalizing x with
  | nil => rfl
  | cons k ks ih =>
    rw [foldl_cons, reverse_cons, foldl_append, ih (hP x k hx)]
    exact h x k hx

theorem foldl_view {β : Type*} {enc : α → κ → α} {seen : β → κ → β} {P : α → Prop} {view : α → β}
    (hP : ∀ x k, P x → P (enc x k)) (h : ∀ x k, P x → view (enc x k) = seen (view x) k) (ks : List κ) {x : α} (hx : P x) :
    view (ks.foldl enc x) = ks.foldl seen (view x) := by
  induction ks generalizing x with
  | nil => rfl
  | cons k ks ih => rw [foldl_cons, foldl_cons, ih (hP x k hx), h x k hx]

theorem foldl_keeps {enc : α → κ → α} {P : α → Prop} (hP : ∀ x k, P x → P (enc x k)) (ks : List κ) {x : α} (hx : P x) :
    P (ks.foldl enc x) := by
  induction ks generalizing x with
  | nil => exact hx
  | cons k ks ih => exact ih (hP x k hx)

end Backlands.Lib
