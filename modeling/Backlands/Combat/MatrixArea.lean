/-
  Backlands.Combat.MatrixArea — the squares that a spell covers (src/matrixarea.cpp), turned
  to the direction it is cast in (src/combat.cpp).

  Indexes are 32-bit words. An area has all its cells: the vector has `rows * cols` of them as
  numbers, so that the product does not wrap either. A cell is a byte that is read as a truth
  value (`operator()`); `transpose` goes through that read, so it keeps what a cell says and
  not always its byte. Areas are compared as they can be seen: rows, columns, cells and centre.

  Proved: `dihedral`, the six functions are the symmetries of a rectangle that their names say,
  wherever the centre is.
-/

import Backlands.Lib.Grid

namespace Backlands.Combat

open Backlands.Lib

structure MatrixArea where
  arr : List UInt8
  /-- The column and the row. -/
  center : UInt32 × UInt32 := (0, 0)
  rows : UInt32
  cols : UInt32
  size_eq : arr.length = rows.toNat * cols.toNat
  size_lt : rows.toNat * cols.toNat < 2 ^ 32

namespace MatrixArea

variable (m : MatrixArea)

/-- `arr[i]` -/
def byte (i : UInt32) : UInt8 := m.arr.getD i.toNat 0

/-- `operator()` -/
def get (row col : UInt32) : Bool := m.byte (row * m.cols + col) != 0

/-- A new vector with a byte written to it for each row and column. -/
def loops (place : UInt32 → UInt32 → UInt32) (value : UInt32 → UInt32 → UInt8) : List UInt8 :=
  Grid.fill m.rows.toNat m.cols.toNat (fun row col => (place (.ofNat row) (.ofNat col)).toNat)
    (fun row col => value (.ofNat row) (.ofNat col)) (List.replicate m.arr.length 0)

theorem length_loops (place : UInt32 → UInt32 → UInt32) (value : UInt32 → UInt32 → UInt8) :
    (m.loops place value).length = m.rows.toNat * m.cols.toNat := by
  rw [loops, Grid.length_fill, List.length_replicate, m.size_eq]

def flip : MatrixArea where
  arr := m.loops (fun row col => row * m.cols + col) fun row col => m.byte ((m.rows - row - 1) * m.cols + col)
  center := (m.center.1, m.rows - m.center.2 - 1)
  rows := m.rows
  cols := m.cols
  size_eq := m.length_loops _ _
  size_lt := m.size_lt

def mirror : MatrixArea where
  arr := m.loops (fun row col => row * m.cols + col) fun row col => m.byte (row * m.cols + (m.cols - col - 1))
  center := (m.cols - m.center.1 - 1, m.center.2)
  rows := m.rows
  cols := m.cols
  size_eq := m.length_loops _ _
  size_lt := m.size_lt

def transpose : MatrixArea where
  arr := m.loops (fun row col => col * m.rows + row) fun row col => if m.get row col then 1 else 0
  center := (m.center.2, m.center.1)
  rows := m.cols
  cols := m.rows
  size_eq := (m.length_loops _ _).trans (Nat.mul_comm _ _)
  size_lt := Nat.mul_comm _ _ ▸ m.size_lt

def rotate90 : MatrixArea where
  arr := m.loops (fun row col => col * m.rows + (m.rows - row - 1)) fun row col => m.byte (row * m.cols + col)
  center := (m.rows - m.center.2 - 1, m.center.1)
  rows := m.cols
  cols := m.rows
  size_eq := (m.length_loops _ _).trans (Nat.mul_comm _ _)
  size_lt := Nat.mul_comm _ _ ▸ m.size_lt

def rotate180 : MatrixArea where
  arr := m.arr.reverse
  center := (m.cols - m.center.1 - 1, m.rows - m.center.2 - 1)
  rows := m.rows
  cols := m.cols
  size_eq := List.length_reverse.trans m.size_eq
  size_lt := m.size_lt

def rotate270 : MatrixArea where
  arr := m.loops (fun row col => (m.cols - col - 1) * m.rows + row) fun row col => m.byte (row * m.cols + col)
  center := (m.center.2, m.cols - m.center.1 - 1)
  rows := m.cols
  cols := m.rows
  size_eq := (m.length_loops _ _).trans (Nat.mul_comm _ _)
  size_lt := Nat.mul_comm _ _ ▸ m.size_lt

/-- Two areas that cannot be told apart. -/
structure Same (m m' : MatrixArea) : Prop where
  rows : m.rows = m'.rows
  cols : m.cols = m'.cols
  center : m.center = m'.center
  cells : ∀ row < m.rows, ∀ col < m.cols, m.get row col = m'.get row col

/-! ## Indexes -/

section

variable {rows cols row col n i : UInt32}

theorem toNat_index (hsize : rows.toNat * cols.toNat < 2 ^ 32) (hr : row < rows) (hc : col < cols) :
    (row * cols + col).toNat = Grid.index cols.toNat row.toNat col.toNat := by
  have hlt := Grid.index_lt (UInt32.lt_iff_toNat_lt.mp hr) (UInt32.lt_iff_toNat_lt.mp hc)
  rw [UInt32.toNat_add, UInt32.toNat_mul, Nat.mod_add_mod]
  exact Nat.mod_eq_of_lt (Nat.lt_trans hlt hsize)

theorem toNat_back (h : i < n) : (n - i - 1).toNat = n.toNat - 1 - i.toNat := by
  have hlt := UInt32.lt_iff_toNat_lt.mp h
  have hn := n.toNat_lt
  rw [UInt32.toNat_sub, UInt32.toNat_sub, UInt32.toNat_one]
  omega

theorem back_lt (h : i < n) : n - i - 1 < n := by
  have hlt := UInt32.lt_iff_toNat_lt.mp h
  rw [UInt32.lt_iff_toNat_lt, toNat_back h]
  omega

end

/-! ## Cells -/

variable {m} {r c : Nat}

def cell (m : MatrixArea) (r c : Nat) : Bool := Grid.cell 0 m.arr m.cols.toNat r c != 0

theorem byte_index {row col : UInt32} (hr : row < m.rows) (hc : col < m.cols) :
    m.byte (row * m.cols + col) = Grid.cell 0 m.arr m.cols.toNat row.toNat col.toNat := by
  rw [byte, toNat_index m.size_lt hr hc]
  rfl

theorem get_eq_cell {row col : UInt32} (hr : row < m.rows) (hc : col < m.cols) :
    m.get row col = m.cell row.toNat col.toNat := by
  rw [get, byte_index hr hc]
  rfl

theorem toNat_ofNat_of_lt {n : UInt32} (h : r < n.toNat) : (UInt32.ofNat r).toNat = r :=
  UInt32.toNat_ofNat_of_lt' (Nat.lt_trans h n.toNat_lt)

theorem ofNat_lt {n : UInt32} (h : r < n.toNat) : UInt32.ofNat r < n := by
  rw [UInt32.lt_iff_toNat_lt, toNat_ofNat_of_lt h]
  exact h

theorem cell_loops (place : UInt32 → UInt32 → UInt32) (value : UInt32 → UInt32 → UInt8) {rows' cols' : Nat}
    (dest : Nat → Nat → Nat × Nat) (hsize : rows' * cols' = m.rows.toNat * m.cols.toNat)
    (hplace : ∀ row < m.rows, ∀ col < m.cols,
      (place row col).toNat = Grid.index cols' (dest row.toNat col.toNat).1 (dest row.toNat col.toNat).2)
    (hdest : ∀ r < m.rows.toNat, ∀ c < m.cols.toNat, (dest r c).1 < rows' ∧ (dest r c).2 < cols')
    (hinj : ∀ r < m.rows.toNat, ∀ c < m.cols.toNat, ∀ r' < m.rows.toNat, ∀ c' < m.cols.toNat,
      (dest r c).1 = (dest r' c').1 → (dest r c).2 = (dest r' c').2 → r = r' ∧ c = c')
    (hr : r < m.rows.toNat) (hc : c < m.cols.toNat) :
    Grid.cell 0 (m.loops place value) cols' (dest r c).1 (dest r c).2 = value (.ofNat r) (.ofNat c) := by
  have hindex : ∀ r < m.rows.toNat, ∀ c < m.cols.toNat,
      (place (.ofNat r) (.ofNat c)).toNat = Grid.index cols' (dest r c).1 (dest r c).2 := by
    intro r hr c hc
    rw [hplace _ (ofNat_lt hr) _ (ofNat_lt hc), toNat_ofNat_of_lt hr, toNat_ofNat_of_lt hc]
  rw [Grid.cell, ← hindex r hr c hc]
  refine Grid.fill_getD (fun r hr c hc => ?_) (fun r hr c hc r' hr' c' hc' heq => ?_) hr hc
  · rw [hindex r hr c hc, List.length_replicate, m.size_eq, ← hsize]
    exact Grid.index_lt (hdest r hr c hc).1 (hdest r hr c hc).2
  · rw [hindex r hr c hc, hindex r' hr' c' hc'] at heq
    obtain ⟨hrow, hcol⟩ := Grid.index_inj (hdest r hr c hc).2 (hdest r' hr' c' hc').2 heq
    exact hinj r hr c hc r' hr' c' hc' hrow hcol

theorem cell_flip (hr : r < m.rows.toNat) (hc : c < m.cols.toNat) : m.flip.cell r c = m.cell (m.rows.toNat - 1 - r) c := by
  have hloops := cell_loops (m := m) _ (fun row col => m.byte ((m.rows - row - 1) * m.cols + col))
    (fun r c => (r, c)) rfl (fun row hrow col hcol => toNat_index m.size_lt hrow hcol) (fun r hr c hc => ⟨hr, hc⟩)
    (fun _ _ _ _ _ _ _ _ hrow hcol => ⟨hrow, hcol⟩) hr hc
  rw [byte_index (back_lt (ofNat_lt hr)) (ofNat_lt hc), toNat_back (ofNat_lt hr), toNat_ofNat_of_lt hr,
    toNat_ofNat_of_lt hc] at hloops
  exact congrArg (· != 0) hloops

theorem cell_mirror (hr : r < m.rows.toNat) (hc : c < m.cols.toNat) :
    m.mirror.cell r c = m.cell r (m.cols.toNat - 1 - c) := by
  have hloops := cell_loops (m := m) _ (fun row col => m.byte (row * m.cols + (m.cols - col - 1)))
    (fun r c => (r, c)) rfl (fun row hrow col hcol => toNat_index m.size_lt hrow hcol) (fun r hr c hc => ⟨hr, hc⟩)
    (fun _ _ _ _ _ _ _ _ hrow hcol => ⟨hrow, hcol⟩) hr hc
  rw [byte_index (ofNat_lt hr) (back_lt (ofNat_lt hc)), toNat_back (ofNat_lt hc), toNat_ofNat_of_lt hr,
    toNat_ofNat_of_lt hc] at hloops
  exact congrArg (· != 0) hloops

theorem cell_transpose (hr : r < m.cols.toNat) (hc : c < m.rows.toNat) : m.transpose.cell r c = m.cell c r := by
  have hloops := cell_loops (m := m) (fun row col => col * m.rows + row)
    (fun row col => if m.get row col then 1 else 0) (fun r c => (c, r)) (Nat.mul_comm _ _)
    (fun row hrow col hcol => toNat_index m.transpose.size_lt hcol hrow) (fun r hr c hc => ⟨hc, hr⟩)
    (fun _ _ _ _ _ _ _ _ hrow hcol => ⟨hcol, hrow⟩) hc hr
  rw [get_eq_cell (ofNat_lt hc) (ofNat_lt hr), toNat_ofNat_of_lt hr, toNat_ofNat_of_lt hc] at hloops
  refine (congrArg (· != 0) hloops).trans ?_
  cases m.cell c r <;> rfl

theorem cell_rotate90 (hr : r < m.cols.toNat) (hc : c < m.rows.toNat) :
    m.rotate90.cell r c = m.cell (m.rows.toNat - 1 - c) r := by
  have hloops := cell_loops (m := m) (fun row col => col * m.rows + (m.rows - row - 1))
    (fun row col => m.byte (row * m.cols + col)) (r := m.rows.toNat - 1 - c)
    (fun r c => (c, m.rows.toNat - 1 - r)) (Nat.mul_comm _ _)
    (fun row hrow col hcol => (toNat_index m.transpose.size_lt hcol (back_lt hrow)).trans
      (congrArg (Grid.index m.rows.toNat col.toNat) (toNat_back hrow)))
    (fun r hr c hc => ⟨hc, by dsimp only; omega⟩)
    (fun r hr c _ r' hr' c' _ hrow hcol => ⟨by dsimp only at hcol; omega, hrow⟩) (by omega) hr
  have hback : m.rows.toNat - 1 - (m.rows.toNat - 1 - c) = c := by omega
  have hlt : m.rows.toNat - 1 - c < m.rows.toNat := by omega
  rw [byte_index (ofNat_lt hlt) (ofNat_lt hr), toNat_ofNat_of_lt hlt, toNat_ofNat_of_lt hr] at hloops
  rw [hback] at hloops
  exact congrArg (· != 0) hloops

theorem cell_rotate180 (hr : r < m.rows.toNat) (hc : c < m.cols.toNat) :
    m.rotate180.cell r c = m.cell (m.rows.toNat - 1 - r) (m.cols.toNat - 1 - c) :=
  congrArg (· != 0) (Grid.cell_reverse m.size_eq hr hc)

theorem cell_rotate270 (hr : r < m.cols.toNat) (hc : c < m.rows.toNat) :
    m.rotate270.cell r c = m.cell c (m.cols.toNat - 1 - r) := by
  have hloops := cell_loops (m := m) (fun row col => (m.cols - col - 1) * m.rows + row)
    (fun row col => m.byte (row * m.cols + col)) (c := m.cols.toNat - 1 - r)
    (fun r c => (m.cols.toNat - 1 - c, r)) (Nat.mul_comm _ _)
    (fun row hrow col hcol => (toNat_index m.transpose.size_lt (back_lt hcol) hrow).trans
      (congrArg (Grid.index m.rows.toNat · row.toNat) (toNat_back hcol)))
    (fun r hr c hc => ⟨by dsimp only; omega, hr⟩)
    (fun r _ c hc r' _ c' hc' hrow hcol => ⟨hcol, by dsimp only at hrow; omega⟩) hc (by omega)
  have hback : m.cols.toNat - 1 - (m.cols.toNat - 1 - r) = r := by omega
  have hlt : m.cols.toNat - 1 - r < m.cols.toNat := by omega
  rw [byte_index (ofNat_lt hc) (ofNat_lt hlt), toNat_ofNat_of_lt hc, toNat_ofNat_of_lt hlt] at hloops
  rw [hback] at hloops
  exact congrArg (· != 0) hloops

/-! ## Symmetries -/

theorem same_of_cells {m m' : MatrixArea} (rows cols : UInt32) (hrows : m.rows = rows ∧ m'.rows = rows)
    (hcols : m.cols = cols ∧ m'.cols = cols) (hcenter : m.center = m'.center)
    (hcells : ∀ r < rows.toNat, ∀ c < cols.toNat, m.cell r c = m'.cell r c) : Same m m' := by
  refine ⟨hrows.1.trans hrows.2.symm, hcols.1.trans hcols.2.symm, hcenter, fun row hrow col hcol => ?_⟩
  rw [hrows.1] at hrow
  rw [hcols.1] at hcol
  rw [get_eq_cell (hrows.1.symm ▸ hrow) (hcols.1.symm ▸ hcol), get_eq_cell (hrows.2.symm ▸ hrow) (hcols.2.symm ▸ hcol)]
  exact hcells _ (UInt32.lt_iff_toNat_lt.mp hrow) _ (UInt32.lt_iff_toNat_lt.mp hcol)

theorem back_back (n i : UInt32) : n - (n - i - 1) - 1 = i := by
  refine UInt32.toNat_inj.mp ?_
  have hi := i.toNat_lt
  simp only [UInt32.toNat_sub, UInt32.toNat_one]
  omega

theorem flip_flip (m : MatrixArea) : Same m.flip.flip m := by
  refine same_of_cells m.rows m.cols ⟨rfl, rfl⟩ ⟨rfl, rfl⟩ (Prod.ext rfl (back_back _ _)) ?_
  intro r hr c hc
  have hlt : m.rows.toNat - 1 - r < m.rows.toNat := by omega
  have hback : m.rows.toNat - 1 - (m.rows.toNat - 1 - r) = r := by omega
  calc m.flip.flip.cell r c
      = m.flip.cell (m.rows.toNat - 1 - r) c := cell_flip (m := m.flip) hr hc
    _ = m.cell r c := by rw [cell_flip hlt hc, hback]

theorem mirror_mirror (m : MatrixArea) : Same m.mirror.mirror m := by
  refine same_of_cells m.rows m.cols ⟨rfl, rfl⟩ ⟨rfl, rfl⟩ (Prod.ext (back_back _ _) rfl) ?_
  intro r hr c hc
  have hlt : m.cols.toNat - 1 - c < m.cols.toNat := by omega
  have hback : m.cols.toNat - 1 - (m.cols.toNat - 1 - c) = c := by omega
  calc m.mirror.mirror.cell r c
      = m.mirror.cell r (m.cols.toNat - 1 - c) := cell_mirror (m := m.mirror) hr hc
    _ = m.cell r c := by rw [cell_mirror hr hlt, hback]

theorem transpose_transpose (m : MatrixArea) : Same m.transpose.transpose m := by
  refine same_of_cells m.rows m.cols ⟨rfl, rfl⟩ ⟨rfl, rfl⟩ rfl fun r hr c hc => ?_
  calc m.transpose.transpose.cell r c
      = m.transpose.cell c r := cell_transpose (m := m.transpose) hr hc
    _ = m.cell r c := cell_transpose hc hr

theorem cell_rotate90_rotate90 (hr : r < m.rows.toNat) (hc : c < m.cols.toNat) :
    m.rotate90.rotate90.cell r c = m.cell (m.rows.toNat - 1 - r) (m.cols.toNat - 1 - c) := by
  have hlt : m.cols.toNat - 1 - c < m.cols.toNat := by omega
  calc m.rotate90.rotate90.cell r c
      = m.rotate90.cell (m.cols.toNat - 1 - c) r := cell_rotate90 (m := m.rotate90) hr hc
    _ = m.cell (m.rows.toNat - 1 - r) (m.cols.toNat - 1 - c) := cell_rotate90 hlt hr

theorem rotate90_four (m : MatrixArea) : Same m.rotate90.rotate90.rotate90.rotate90 m := by
  refine same_of_cells m.rows m.cols ⟨rfl, rfl⟩ ⟨rfl, rfl⟩ (Prod.ext (back_back _ _) (back_back _ _)) ?_
  intro r hr c hc
  have hr' : m.rows.toNat - 1 - r < m.rows.toNat := by omega
  have hc' : m.cols.toNat - 1 - c < m.cols.toNat := by omega
  have hrow : m.rows.toNat - 1 - (m.rows.toNat - 1 - r) = r := by omega
  have hcol : m.cols.toNat - 1 - (m.cols.toNat - 1 - c) = c := by omega
  calc m.rotate90.rotate90.rotate90.rotate90.cell r c
      = m.rotate90.rotate90.cell (m.rows.toNat - 1 - r) (m.cols.toNat - 1 - c) :=
        cell_rotate90_rotate90 (m := m.rotate90.rotate90) hr hc
    _ = m.cell r c := by rw [cell_rotate90_rotate90 hr' hc', hrow, hcol]

theorem rotate180_eq_flip_mirror (m : MatrixArea) : Same m.rotate180 m.mirror.flip := by
  refine same_of_cells m.rows m.cols ⟨rfl, rfl⟩ ⟨rfl, rfl⟩ rfl fun r hr c hc => ?_
  have hlt : m.rows.toNat - 1 - r < m.rows.toNat := by omega
  calc m.rotate180.cell r c
      = m.cell (m.rows.toNat - 1 - r) (m.cols.toNat - 1 - c) := cell_rotate180 hr hc
    _ = m.mirror.cell (m.rows.toNat - 1 - r) c := (cell_mirror hlt hc).symm
    _ = m.mirror.flip.cell r c := (cell_flip (m := m.mirror) hr hc).symm

theorem rotate180_eq_rotate90 (m : MatrixArea) : Same m.rotate180 m.rotate90.rotate90 := by
  refine same_of_cells m.rows m.cols ⟨rfl, rfl⟩ ⟨rfl, rfl⟩ rfl fun r hr c hc => ?_
  rw [cell_rotate180 hr hc, cell_rotate90_rotate90 hr hc]

theorem rotate270_eq_rotate90 (m : MatrixArea) : Same m.rotate270 m.rotate90.rotate90.rotate90 := by
  refine same_of_cells m.cols m.rows ⟨rfl, rfl⟩ ⟨rfl, rfl⟩ (Prod.ext (back_back _ _).symm rfl) ?_
  intro r hr c hc
  have hlt : m.rows.toNat - 1 - c < m.rows.toNat := by omega
  have hback : m.rows.toNat - 1 - (m.rows.toNat - 1 - c) = c := by omega
  calc m.rotate270.cell r c
      = m.cell c (m.cols.toNat - 1 - r) := cell_rotate270 hr hc
    _ = m.rotate90.rotate90.cell (m.rows.toNat - 1 - c) r := by rw [cell_rotate90_rotate90 hlt hr, hback]
    _ = m.rotate90.rotate90.rotate90.cell r c := (cell_rotate90 (m := m.rotate90.rotate90) hr hc).symm

theorem rotate90_eq_mirror_transpose (m : MatrixArea) : Same m.rotate90 m.transpose.mirror := by
  refine same_of_cells m.cols m.rows ⟨rfl, rfl⟩ ⟨rfl, rfl⟩ rfl fun r hr c hc => ?_
  have hlt : m.rows.toNat - 1 - c < m.rows.toNat := by omega
  calc m.rotate90.cell r c
      = m.cell (m.rows.toNat - 1 - c) r := cell_rotate90 hr hc
    _ = m.transpose.cell r (m.rows.toNat - 1 - c) := (cell_transpose hr hlt).symm
    _ = m.transpose.mirror.cell r c := (cell_mirror (m := m.transpose) hr hc).symm

/-- The symmetries of a rectangle. -/
theorem dihedral (m : MatrixArea) :
    Same m.flip.flip m ∧ Same m.mirror.mirror m ∧ Same m.transpose.transpose m ∧
    Same m.rotate90.rotate90.rotate90.rotate90 m ∧
    Same m.rotate180 m.mirror.flip ∧ Same m.rotate180 m.rotate90.rotate90 ∧
    Same m.rotate270 m.rotate90.rotate90.rotate90 ∧ Same m.rotate90 m.transpose.mirror :=
  ⟨m.flip_flip, m.mirror_mirror, m.transpose_transpose, m.rotate90_four, m.rotate180_eq_flip_mirror,
    m.rotate180_eq_rotate90, m.rotate270_eq_rotate90, m.rotate90_eq_mirror_transpose⟩

example : (rotate90 ⟨[1, 2, 3, 4, 5, 6], (2, 0), 2, 3, rfl, by decide⟩).arr = [4, 1, 5, 2, 6, 3] := by decide

end MatrixArea

end Backlands.Combat
