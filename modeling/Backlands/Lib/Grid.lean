/-
  Backlands.Lib.Grid — a rectangle of cells that lies row by row in a list.

  `fill` is a list written cell by cell, in the order of the rows.

  Proved: a cell has a place of its own (`index_inj`); backwards, the list is the rectangle
  turned by half (`cell_reverse`); a cell that is written in one place is read there afterwards
  (`fill_getD`).
-/

import Mathlib.Data.List.Basic
import Mathlib.Tactic.Ring

namespace Backlands.Lib.Grid

open List

variable {α : Type*} {rows cols r c r' c' i : Nat}

/-- The place of a cell. -/
def index (cols r c : Nat) : Nat := r * cols + c

theorem index_lt (hr : r < rows) (hc : c < cols) : index cols r c < rows * cols := by
  have hrow : (r + 1) * cols ≤ rows * cols := Nat.mul_le_mul_right cols hr
  rw [Nat.succ_mul] at hrow
  unfold index
  omega

theorem index_inj (hc : c < cols) (hc' : c' < cols) (h : index cols r c = index cols r' c') : r = r' ∧ c = c' := by
  have hpos : 0 < cols := Nat.lt_of_le_of_lt (Nat.zero_le c) hc
  have hdiv : ∀ r c, c < cols → index cols r c / cols = r := by
    intro r c hc
    rw [index, Nat.add_comm, Nat.add_mul_div_right c r hpos, Nat.div_eq_of_lt hc, Nat.zero_add]
  have hrow : r = r' := by rw [← hdiv r c hc, h, hdiv r' c' hc']
  rw [hrow] at h
  exact ⟨hrow, Nat.add_left_cancel h⟩

theorem index_back (hr : r < rows) (hc : c < cols) :
    rows * cols - 1 - index cols r c = index cols (rows - 1 - r) (cols - 1 - c) := by
  obtain ⟨down, rfl⟩ : ∃ down, rows = down + r + 1 := ⟨rows - 1 - r, by omega⟩
  obtain ⟨right, rfl⟩ : ∃ right, cols = right + c + 1 := ⟨cols - 1 - c, by omega⟩
  have hrow : down + r + 1 - 1 - r = down := by omega
  have hcol : right + c + 1 - 1 - c = right := by omega
  have hsize : (down + r + 1) * (right + c + 1) = down * (right + c + 1) + r * (right + c + 1) + (right + c + 1) := by ring
  unfold index
  rw [hrow, hcol, hsize]
  omega

def cell (blank : α) (l : List α) (cols r c : Nat) : α := l.getD (index cols r c) blank

variable {blank : α} {l l' : List α}

theorem cell_reverse (h : l.length = rows * cols) (hr : r < rows) (hc : c < cols) :
    cell blank l.reverse cols r c = cell blank l cols (rows - 1 - r) (cols - 1 - c) := by
  have hlt : index cols r c < l.length := h ▸ index_lt hr hc
  rw [cell, cell, ← index_back hr hc, getD_eq_getElem?_getD, getD_eq_getElem?_getD, getElem?_reverse hlt, h]

/-! ## Filling -/

def cells (rows cols : Nat) : List (Nat × Nat) := (List.range rows).flatMap fun r => (List.range cols).map fun c => (r, c)

theorem mem_cells {p : Nat × Nat} : p ∈ cells rows cols ↔ p.1 < rows ∧ p.2 < cols := by
  obtain ⟨r, c⟩ := p
  simp [cells]

def fill (rows cols : Nat) (place : Nat → Nat → Nat) (value : Nat → Nat → α) (init : List α) : List α :=
  (cells rows cols).foldl (fun l p => l.set (place p.1 p.2) (value p.1 p.2)) init

section

variable {ι : Type*} (key : ι → Nat) (val : ι → α)

theorem length_foldl_set (is : List ι) (init : List α) :
    (is.foldl (fun l i => l.set (key i) (val i)) init).length = init.length := by
  induction is generalizing init with
  | nil => rfl
  | cons i is ih => rw [foldl_cons, ih, length_set]

theorem getElem?_foldl_set_of_ne {is : List ι} {n : Nat} (h : ∀ i ∈ is, key i ≠ n) (init : List α) :
    (is.foldl (fun l i => l.set (key i) (val i)) init)[n]? = init[n]? := by
  induction is generalizing init with
  | nil => rfl
  | cons i is ih =>
    rw [foldl_cons, ih fun j hj => h j (mem_cons_of_mem i hj), getElem?_set_ne (h i mem_cons_self)]

theorem getElem?_foldl_set {is : List ι} {i : ι} (hi : i ∈ is) (hsame : ∀ j ∈ is, key j = key i → val j = val i)
    {init : List α} (hlt : key i < init.length) :
    (is.foldl (fun l i => l.set (key i) (val i)) init)[key i]? = some (val i) := by
  induction is generalizing i init with
  | nil => cases hi
  | cons j is ih =>
    rw [foldl_cons]
    have hlt' : key i < (init.set (key j) (val j)).length := by rwa [length_set]
    have hsame' : ∀ k ∈ is, key k = key i → val k = val i := fun k hk => hsame k (mem_cons_of_mem j hk)
    by_cases hlater : ∃ k ∈ is, key k = key i
    · obtain ⟨k, hk, hkey⟩ := hlater
      have hk' := ih (i := k) hk (fun k' hk' heq => by rw [hsame' k' hk' (heq.trans hkey), hsame' k hk hkey]) (hkey ▸ hlt')
      rwa [hkey, hsame' k hk hkey] at hk'
    have hij : i = j := by
      rcases mem_cons.mp hi with hij | hin
      · exact hij
      · exact absurd ⟨i, hin, rfl⟩ hlater
    subst hij
    rw [getElem?_foldl_set_of_ne key val fun k hk heq => hlater ⟨k, hk, heq⟩, getElem?_set_self hlt]

end

variable {place : Nat → Nat → Nat} {value : Nat → Nat → α} {init : List α}

theorem length_fill : (fill rows cols place value init).length = init.length := length_foldl_set _ _ _ _

theorem fill_getD (hlt : ∀ r < rows, ∀ c < cols, place r c < init.length)
    (hinj : ∀ r < rows, ∀ c < cols, ∀ r' < rows, ∀ c' < cols, place r c = place r' c' → r = r' ∧ c = c')
    (hr : r < rows) (hc : c < cols) : (fill rows cols place value init).getD (place r c) blank = value r c := by
  have hfill := getElem?_foldl_set (fun p : Nat × Nat => place p.1 p.2) (fun p => value p.1 p.2) (i := (r, c))
    (mem_cells.mpr ⟨hr, hc⟩) (fun p hp heq => ?_) (hlt r hr c hc)
  · simp [fill, hfill]
  · obtain ⟨hpr, hpc⟩ := mem_cells.mp hp
    obtain ⟨hrow, hcol⟩ := hinj p.1 hpr p.2 hpc r hr c hc heq
    rw [hrow, hcol]

end Backlands.Lib.Grid
