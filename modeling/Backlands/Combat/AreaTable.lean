/-
  Backlands.Combat.AreaTable — the area that the table of a script is made into
  (`createArea`, src/matrixarea.cpp).

  The values come row by row, with the number of the rows, and the columns are the quotient:
  rows of different lengths move the values behind them, and a row too many is left over. The
  index of a write is not checked; outside the vector of the cells it has no result here.

  Proved: `right_iff`, exactly when the table gives the area that it says. Counterexample:
  `ragged_table`.
-/

import Backlands.Combat.MatrixArea

namespace Backlands.Combat.AreaTable

open Backlands.Lib List

/-! ## The source -/

/-- The members of the area, and those of the loop. -/
structure Filling where
  arr : List UInt8
  center : UInt32 × UInt32 := (0, 0)
  x : UInt32 := 0
  y : UInt32 := 0
  /-- The cells that were written, by row and column. -/
  written : List (UInt32 × UInt32) := []

def colsOf (vec : List UInt32) (rows : UInt32) : UInt32 := if rows = 0 then 0 else .ofNat (vec.length / rows.toNat)

/-- `arr[row * cols + col]` -/
def index (cols : UInt32) (p : UInt32 × UInt32) : Nat := (p.1 * cols + p.2).toNat

/-- `area(y, x) = true` -/
def write (cols : UInt32) (s : Filling) : Option Filling :=
  if index cols (s.y, s.x) < s.arr.length then
    some { s with arr := s.arr.set (index cols (s.y, s.x)) 1, written := s.written ++ [(s.y, s.x)] }
  else none

def advance (cols : UInt32) (s : Filling) : Filling :=
  if cols = s.x + 1 then { s with x := 0, y := s.y + 1 } else { s with x := s.x + 1 }

def isMarked (value : UInt32) : Bool := value == 1 || value == 3

def isCenter (value : UInt32) : Bool := value == 2 || value == 3

def turn (cols : UInt32) (s : Filling) (value : UInt32) : Option Filling :=
  (if isMarked value then write cols s else some s).map fun s =>
    advance cols (if isCenter value then { s with center := (s.x, s.y) } else s)

def createArea (vec : List UInt32) (rows : UInt32) : Option Filling :=
  vec.foldlM (turn (colsOf vec rows)) { arr := List.replicate (rows * colsOf vec rows).toNat 0 }

/-! ## What a table says -/

def positions (p : UInt32 → Bool) (vec : List UInt32) : List Nat := (vec.zipIdx.filter fun a => p a.1).map Prod.snd

/-- The row and the column of a position, which are words. -/
def place (cols : UInt32) (i : Nat) : UInt32 × UInt32 := (.ofNat (i / cols.toNat), .ofNat (i % cols.toNat))

/-- An area of the rows and columns comes of the table, with nothing written outside it and
its centre inside; and if there is a value for each cell, it has marked that cell, and the
last centre is the centre. -/
def Right (vec : List UInt32) (rows : UInt32) : Prop := ∃ s, ∃ m : MatrixArea, createArea vec rows = some s ∧
  (m.arr = s.arr ∧ m.center = s.center ∧ m.rows = rows ∧ m.cols = colsOf vec rows) ∧
  (∀ p ∈ s.written, p.1 < m.rows ∧ p.2 < m.cols) ∧
  (m.center.1 < m.cols ∧ m.center.2 < m.rows) ∧
  (vec.length = m.rows.toNat * m.cols.toNat →
    (∀ i v, vec[i]? = some v → m.get (place m.cols i).1 (place m.cols i).2 = isMarked v) ∧
    ∀ i, (positions isCenter vec).getLast? = some i → m.center = ((place m.cols i).2, (place m.cols i).1))

/-- There is a cell, no more than a word counts, and no mark stands behind the rows, nor the
last centre; the row is counted in a word. -/
structure Fits (vec : List UInt32) (rows : UInt32) : Prop where
  cols : colsOf vec rows ≠ 0
  size : rows.toNat * (colsOf vec rows).toNat < 2 ^ 32
  marks : ∀ i v, vec[i]? = some v → isMarked v = true → i / (colsOf vec rows).toNat % 2 ^ 32 < rows.toNat
  center : ∀ i, (positions isCenter vec).getLast? = some i → i / (colsOf vec rows).toNat % 2 ^ 32 < rows.toNat

variable {vec done rest : List UInt32} {rows cols v : UInt32} {i size : Nat} {p : UInt32 → Bool} {s : Filling}

/-! ## Positions -/

theorem mem_positions : i ∈ positions p vec ↔ ∃ v, vec[i]? = some v ∧ p v = true := by
  unfold positions
  rw [mem_map]
  constructor
  · rintro ⟨⟨v, j⟩, hmem, rfl⟩
    obtain ⟨hmem, hp⟩ := mem_filter.mp hmem
    exact ⟨v, mem_zipIdx_iff_getElem?.mp hmem, hp⟩
  · rintro ⟨v, hv, hp⟩
    exact ⟨(v, i), mem_filter.mpr ⟨mem_zipIdx_iff_getElem?.mpr hv, hp⟩, rfl⟩

theorem positions_snoc : positions p (done ++ [v]) = positions p done ++ if p v then [done.length] else [] := by
  unfold positions
  rw [zipIdx_append, filter_append, map_append]
  cases hp : p v <;> simp [hp]

theorem toNat_pos (h : cols ≠ 0) : 0 < cols.toNat := Nat.pos_of_ne_zero fun h0 => h (UInt32.toNat_inj.mp h0)

theorem place_col_lt (h : cols ≠ 0) (i : Nat) : (place cols i).2 < cols := by
  have hlt := Nat.mod_lt i (toNat_pos h)
  show (UInt32.ofNat (i % cols.toNat)).toNat < _
  rw [MatrixArea.toNat_ofNat_of_lt hlt]
  exact hlt

theorem place_row_lt : (place cols i).1 < rows ↔ i / cols.toNat % 2 ^ 32 < rows.toNat := by
  rw [UInt32.lt_iff_toNat_lt, place, UInt32.toNat_ofNat']

theorem place_succ (h : cols ≠ 0) (i : Nat) : place cols (i + 1) =
    if cols = (place cols i).2 + 1 then ((place cols i).1 + 1, 0) else ((place cols i).1, (place cols i).2 + 1) := by
  have hpos := toNat_pos h
  have hlt := Nat.mod_lt i hpos
  have hdiv := Nat.mod_add_div i cols.toNat
  have hcol : (place cols i).2.toNat = i % cols.toNat := MatrixArea.toNat_ofNat_of_lt hlt
  have hone : (UInt32.ofNat (i % cols.toNat) + 1) = .ofNat (i % cols.toNat + 1) := (UInt32.ofNat_add _ _).symm
  have hend : cols = (place cols i).2 + 1 ↔ i % cols.toNat + 1 = cols.toNat := by
    have hword := cols.toNat_lt
    rw [← UInt32.toNat_inj, UInt32.toNat_add, hcol, UInt32.toNat_one]
    omega
  by_cases hlast : i % cols.toNat + 1 = cols.toNat
  · obtain ⟨hd, hm⟩ := (Nat.div_mod_unique (a := i + 1) (d := i / cols.toNat + 1) (c := 0) hpos).mpr
      ⟨by rw [Nat.mul_add]; omega, hpos⟩
    rw [if_pos (hend.mpr hlast), place, hd, hm, UInt32.ofNat_add]
    rfl
  · obtain ⟨hd, hm⟩ := (Nat.div_mod_unique (a := i + 1) (d := i / cols.toNat) (c := i % cols.toNat + 1) hpos).mpr
      ⟨by omega, by omega⟩
    rw [if_neg (mt hend.mp hlast), place, hd, hm, ← hone]
    rfl

/-! ## The loop -/

/-- What the loop has made of the values so far. -/
def after (cols : UInt32) (size : Nat) (done : List UInt32) : Filling where
  arr := ((positions isMarked done).map (place cols)).foldl (fun l p => l.set (index cols p) 1) (List.replicate size 0)
  center := ((positions isCenter done).getLast?.map fun i => ((place cols i).2, (place cols i).1)).getD (0, 0)
  x := (place cols done.length).2
  y := (place cols done.length).1
  written := (positions isMarked done).map (place cols)

theorem length_after (cols : UInt32) (size : Nat) (done : List UInt32) : (after cols size done).arr.length = size := by
  rw [after, Grid.length_foldl_set (index cols) (fun _ => 1), length_replicate]

theorem after_snoc (h : cols ≠ 0) (size : Nat) (done : List UInt32) (v : UInt32) :
    after cols size (done ++ [v]) = advance cols
      { after cols size done with
        arr := if isMarked v then (after cols size done).arr.set (index cols (place cols done.length)) 1
          else (after cols size done).arr
        center := if isCenter v then ((place cols done.length).2, (place cols done.length).1)
          else (after cols size done).center
        written := (after cols size done).written ++ if isMarked v then [place cols done.length] else [] } := by
  have hplace := place_succ h done.length
  unfold advance after
  rw [positions_snoc, positions_snoc, length_append, length_singleton, hplace]
  by_cases hend : cols = (place cols done.length).2 + 1
  · rw [if_pos hend, if_pos hend]
    cases isMarked v <;> cases isCenter v <;> simp
  · rw [if_neg hend, if_neg hend]
    cases isMarked v <;> cases isCenter v <;> simp

theorem turn_after (h : cols ≠ 0) (size : Nat) (done : List UInt32) (v : UInt32) :
    turn cols (after cols size done) v =
      if isMarked v = true → index cols (place cols done.length) < size then some (after cols size (done ++ [v]))
      else none := by
  have hindex : index cols ((after cols size done).y, (after cols size done).x) = index cols (place cols done.length) := rfl
  unfold turn write
  rw [length_after, hindex, after_snoc h]
  cases isMarked v with
  | false =>
    cases isCenter v with
    | false => simp
    | true =>
      simp only [Bool.false_eq_true, if_false, false_implies, if_true, Option.map_some, append_nil]
      rfl
  | true =>
    by_cases hlt : index cols (place cols done.length) < size
    · cases isCenter v <;> simp [hlt] <;> rfl
    · simp [hlt]

theorem run_after (h : cols ≠ 0) (hmarks : ∀ j v, rest[j]? = some v → isMarked v = true →
    index cols (place cols (done.length + j)) < size) :
    rest.foldlM (turn cols) (after cols size done) = some (after cols size (done ++ rest)) := by
  induction rest generalizing done with
  | nil => rw [append_nil]; rfl
  | cons v rest ih =>
    have hrest := @ih (done ++ [v]) fun j w hw hm => by
      have hnext := hmarks (j + 1) w hw hm
      rwa [length_append, length_singleton, Nat.add_assoc, Nat.add_comm 1]
    rw [append_assoc, singleton_append] at hrest
    have hfirst : isMarked v = true → index cols (place cols done.length) < size := hmarks 0 v rfl
    rw [foldlM_cons, turn_after h, if_pos hfirst]
    exact hrest

theorem eq_after_of_run (h : cols ≠ 0) (hrun : rest.foldlM (turn cols) (after cols size done) = some s) :
    s = after cols size (done ++ rest) := by
  induction rest generalizing done with
  | nil =>
    cases hrun
    rw [append_nil]
  | cons v rest ih =>
    rw [foldlM_cons, turn_after h] at hrun
    split at hrun
    · rw [ih hrun, append_assoc, singleton_append]
    · cases hrun

theorem createArea_eq (vec : List UInt32) (rows : UInt32) : createArea vec rows =
    vec.foldlM (turn (colsOf vec rows)) (after (colsOf vec rows) (rows * colsOf vec rows).toNat []) := by
  unfold createArea after place
  simp [positions]

/-! ## The area -/

theorem index_place (hsize : rows.toNat * cols.toNat < 2 ^ 32) (hi : i < rows.toNat * cols.toNat) :
    index cols (place cols i) = i := by
  have hcols : cols ≠ 0 := by
    rintro rfl
    simp at hi
  have hrow : i / cols.toNat < rows.toNat := Nat.div_lt_of_lt_mul (Nat.mul_comm _ _ ▸ hi)
  have hplace : (place cols i).1 < rows := by
    rw [place_row_lt, Nat.mod_eq_of_lt (Nat.lt_trans hrow rows.toNat_lt)]
    exact hrow
  rw [index, MatrixArea.toNat_index hsize hplace (place_col_lt hcols i), place, MatrixArea.toNat_ofNat_of_lt hrow,
    MatrixArea.toNat_ofNat_of_lt (Nat.mod_lt i (toNat_pos hcols))]
  exact Nat.div_add_mod' i cols.toNat

theorem getD_after (hsize : rows.toNat * cols.toNat < 2 ^ 32) (hexact : vec.length = rows.toNat * cols.toNat)
    (hv : vec[i]? = some v) : ((after cols (rows.toNat * cols.toNat) vec).arr.getD i 0 != 0) = isMarked v := by
  have hkey : ∀ {j w}, vec[j]? = some w → index cols (place cols j) = j := fun hw =>
    index_place hsize (hexact ▸ (List.getElem?_eq_some_iff.mp hw).1)
  have hi := (List.getElem?_eq_some_iff.mp hv).1
  rw [getD_eq_getElem?_getD, after]
  cases hm : isMarked v with
  | true =>
    have hlt : index cols (place cols i) < (List.replicate (rows.toNat * cols.toNat) (0 : UInt8)).length := by
      rw [hkey hv, length_replicate]
      omega
    have hset := Grid.getElem?_foldl_set (index cols) (fun _ => 1) (mem_map_of_mem (mem_positions.mpr ⟨v, hv, hm⟩))
      (fun _ _ _ => rfl) hlt
    rw [hkey hv] at hset
    rw [hset]
    rfl
  | false =>
    rw [Grid.getElem?_foldl_set_of_ne (index cols) (fun _ => 1), getElem?_replicate]
    · split <;> rfl
    intro q hq heq
    obtain ⟨j, hj, rfl⟩ := mem_map.mp hq
    obtain ⟨w, hw, hmw⟩ := mem_positions.mp hj
    grind

theorem right_of_fits (h : Fits vec rows) : Right vec rows := by
  have hrows : rows ≠ 0 := fun h0 => h.cols (if_pos h0)
  have hlength : (rows * colsOf vec rows).toNat = rows.toNat * (colsOf vec rows).toNat := by
    rw [UInt32.toNat_mul, Nat.mod_eq_of_lt h.size]
  have hrun : createArea vec rows = some (after (colsOf vec rows) (rows.toNat * (colsOf vec rows).toNat) vec) := by
    rw [createArea_eq, hlength]
    refine run_after h.cols fun j v hv hm => ?_
    have hrow := place_row_lt.mpr (h.marks j v hv hm)
    have hcol := place_col_lt h.cols j
    rw [length_nil, Nat.zero_add, index, MatrixArea.toNat_index h.size hrow hcol]
    exact Grid.index_lt (UInt32.lt_iff_toNat_lt.mp hrow) (UInt32.lt_iff_toNat_lt.mp hcol)
  refine ⟨_, ⟨_, _, rows, colsOf vec rows, length_after _ _ _, h.size⟩, hrun, ⟨rfl, rfl, rfl, rfl⟩, ?_, ?_,
    fun hexact => ⟨?_, ?_⟩⟩
  · intro q hq
    obtain ⟨j, hj, rfl⟩ := mem_map.mp hq
    obtain ⟨v, hv, hm⟩ := mem_positions.mp hj
    exact ⟨place_row_lt.mpr (h.marks j v hv hm), place_col_lt h.cols j⟩
  · dsimp only [after]
    cases hlast : (positions isCenter vec).getLast? with
    | none => exact ⟨UInt32.pos_iff_ne_zero.mpr h.cols, UInt32.pos_iff_ne_zero.mpr hrows⟩
    | some i => exact ⟨place_col_lt h.cols i, place_row_lt.mpr (h.center i hlast)⟩
  · intro i v hv
    rw [← getD_after h.size hexact hv]
    show ((after _ _ vec).arr.getD (index (colsOf vec rows) (place (colsOf vec rows) i)) 0 != 0) = _
    rw [index_place h.size (hexact ▸ (List.getElem?_eq_some_iff.mp hv).1)]
  · intro i hlast
    dsimp only [after]
    rw [hlast]
    rfl

/-- The area is what the table says exactly when the table fits. -/
theorem right_iff (vec : List UInt32) (rows : UInt32) : Right vec rows ↔ Fits vec rows := by
  refine ⟨?_, right_of_fits⟩
  rintro ⟨s, m, hrun, ⟨-, hcenter, rfl, hcols⟩, hwritten, ⟨hx, hy⟩, -⟩
  rw [hcols] at hwritten hx
  have hne : colsOf vec m.rows ≠ 0 := UInt32.pos_iff_ne_zero.mp (UInt32.lt_of_le_of_lt UInt32.zero_le hx)
  have hafter := eq_after_of_run hne (createArea_eq vec m.rows ▸ hrun)
  rw [nil_append] at hafter
  subst hafter
  refine ⟨hne, hcols ▸ m.size_lt, ?_, ?_⟩
  · intro i v hv hm
    exact place_row_lt.mp (hwritten _ (mem_map_of_mem (mem_positions.mpr ⟨v, hv, hm⟩))).1
  · intro i hlast
    rw [hcenter, after, hlast] at hy
    exact place_row_lt.mp hy

/-- Two rows, the second too short: the third mark is written behind the two cells. -/
theorem ragged_table : createArea [1, 1, 1] 2 = none ∧ ¬Right [1, 1, 1] 2 := by
  have hnone : createArea [1, 1, 1] 2 = none := by decide +kernel
  refine ⟨hnone, ?_⟩
  rintro ⟨s, m, hrun, -⟩
  cases hnone.symm.trans hrun

end Backlands.Combat.AreaTable
