/-
  Backlands.World.SightLines — how a line of sight goes, and when sight is mutual
  (src/map.cpp).

  A run of the loop is recorded with the squares it goes to. Each turn takes at least one
  coordinate one step nearer to its end. All numbers on the way are those of an `int32_t`; for
  distances up to 16383 none of them is out of its range.

  Proved: `lineRun_spec`, a run of a line, for every way in which squares may be clear;
  `isSightClear_comm_iff`, on one floor sight is mutual exactly when it is not left to the two
  lines on the floor above, or these agree: only one of them is looked at. Counterexample:
  `over_the_wall_one_way`.
-/

import Backlands.World.Sight
import Mathlib.Algebra.Order.Ring.Abs
import Mathlib.Data.List.Chain
import Mathlib.Tactic.Linarith

namespace Backlands.World

open List

namespace Map

/-! ## Runs of the loop -/

/-- The squares that the turns of the loop go to, and what is returned. -/
def sightRun (clear : Int → Int → Bool) (A B C mx my x1 y1 : Int) : Nat → Int → Int → List (Int × Int) × Option Bool
  | 0, _, _ => ([], none)
  | n + 1, x, y =>
    if x = x1 ∧ y = y1 then ([], some true)
    else
      let next := sightStep A B C mx my x1 y1 x y
      if clear next.1 next.2 then
        let rest := sightRun clear A B C mx my x1 y1 n next.1 next.2
        (next :: rest.1, rest.2)
      else ([next], some false)

theorem sightRun_answer (map : Map) (z : BitVec 8) (A B C mx my x1 y1 : Int) (n : Nat) (x y : Int) :
    (sightRun (fun x y => map.isTileClear (BitVec.ofInt 16 x) (BitVec.ofInt 16 y) z false) A B C mx my x1 y1 n x y).2 =
      map.sightLine z A B C mx my x1 y1 n x y := by
  induction n generalizing x y with
  | zero => rfl
  | succ n ih =>
    unfold sightRun sightLine
    split
    · rfl
    dsimp only
    split
    · exact ih _ _
    · rfl

/-- The loop of `checkSightLine` from one square to another, with as many turns as it is given there. -/
def lineRun (clear : Int → Int → Bool) (x0 y0 x1 y1 : BitVec 16) : List (Int × Int) × Option Bool :=
  let dx : Int := x1.toNat - x0.toNat
  let dy : Int := y1.toNat - y0.toNat
  sightRun clear dy (-dx) (-(dy * x1.toNat + -dx * y1.toNat)) dx.sign dy.sign x1.toNat y1.toNat (dx.natAbs + dy.natAbs + 1)
    x0.toNat y0.toNat

def floorClear (map : Map) (z : BitVec 8) (x y : Int) : Bool := map.isTileClear (BitVec.ofInt 16 x) (BitVec.ofInt 16 y) z false

theorem lineRun_answer (map : Map) (x0 y0 x1 y1 : BitVec 16) (z : BitVec 8) :
    (lineRun (map.floorClear z) x0 y0 x1 y1).2 = some (map.checkSightLine x0 y0 x1 y1 z) := by
  obtain ⟨answer, hanswer⟩ := Option.isSome_iff_exists.mp (map.sightLine_ends x0 y0 x1 y1 z)
  unfold lineRun checkSightLine floorClear
  dsimp only at hanswer ⊢
  rw [sightRun_answer, hanswer, Option.getD_some]

/-- A coordinate stays, or goes one step to where it has to. -/
def Toward (v1 v v' : Int) : Prop := v' = v ∨ v ≠ v1 ∧ v' = v + (v1 - v).sign

/-- At least one coordinate goes on, and none past the end. -/
structure StepTo (goal s t : Int × Int) : Prop where
  x : Toward goal.1 s.1 t.1
  y : Toward goal.2 s.2 t.2
  moves : t ≠ s

/-- What the loop computes at a square, in the order of the source: the constants first. -/
def expressions (dx dy x1 y1 : Int) (s : Int × Int) : List Int :=
  let A := dy
  let B := -dx
  let C := -(A * x1 + B * y1)
  let mx := dx.sign
  let my := dy.sign
  [A, B, A * x1, B * y1, A * x1 + B * y1, C,
    s.1 + mx, s.2 + my, A * s.1, A * (s.1 + mx), B * s.2, B * (s.2 + my),
    A * (s.1 + mx) + B * s.2, A * (s.1 + mx) + B * s.2 + C,
    A * s.1 + B * (s.2 + my), A * s.1 + B * (s.2 + my) + C,
    A * (s.1 + mx) + B * (s.2 + my), A * (s.1 + mx) + B * (s.2 + my) + C]

/-- On the way from one end to the other. -/
def Between (v0 v1 v : Int) : Prop := v0 ≤ v ∧ v ≤ v1 ∨ v1 ≤ v ∧ v ≤ v0

/-- In the range of `int32_t`, the absolute value as well. -/
def FitsInt32 (e : Int) : Prop := -2147483648 < e ∧ e < 2147483648

/-! ## One turn -/

theorem ite_move (p : Prop) [Decidable p] (v v1 m : Int) :
    (if v ≠ v1 ∧ p then v + m else v) = v ∨ v ≠ v1 ∧ (if v ≠ v1 ∧ p then v + m else v) = v + m := by
  omega

theorem sightMove_cases (move_hor move_ver move_cross : Nat) (mx my x1 y1 x y : Int) :
    let next := sightMove move_hor move_ver move_cross mx my x1 y1 x y
    (next.1 = x ∨ x ≠ x1 ∧ next.1 = x + mx) ∧ (next.2 = y ∨ y ≠ y1 ∧ next.2 = y + my) :=
  ⟨ite_move _ x x1 mx, ite_move _ y y1 my⟩

theorem sign_left {v1 d : Int} {n : Nat} (hn : n ≤ d.natAbs) (hne : v1 - d.sign * n ≠ v1) :
    (v1 - (v1 - d.sign * n)).sign = d.sign := by
  have hpos : 0 < n := by
    by_contra hzero
    obtain rfl : n = 0 := by omega
    exact hne (by simp)
  have hone : (n : Int).sign = 1 := Int.sign_eq_one_of_pos (by omega)
  rw [sub_sub_cancel, Int.sign_mul, Int.sign_sign, hone, mul_one]

theorem sightStep_stepTo {dx dy x1 y1 : Int} {a b : Nat} (ha : a ≤ dx.natAbs) (hb : b ≤ dy.natAbs) (hgo : 0 < a + b) :
    ∃ a' b' : Nat, a' ≤ a ∧ b' ≤ b ∧ a' + b' < a + b ∧
      sightStep dy (-dx) (-(dy * x1 + -dx * y1)) dx.sign dy.sign x1 y1 (x1 - dx.sign * a) (y1 - dy.sign * b) =
        (x1 - dx.sign * a', y1 - dy.sign * b') ∧
      StepTo (x1, y1) (x1 - dx.sign * a, y1 - dy.sign * b) (x1 - dx.sign * a', y1 - dy.sign * b') := by
  obtain ⟨a', b', ha', hb', hless, hstep⟩ := @sightStep_closer dx dy x1 y1 a b ha hb hgo
  obtain ⟨hx, hy⟩ := sightMove_cases
    (dy * (x1 - dx.sign * a + dx.sign) + -dx * (y1 - dy.sign * b) + -(dy * x1 + -dx * y1)).natAbs
    (dy * (x1 - dx.sign * a) + -dx * (y1 - dy.sign * b + dy.sign) + -(dy * x1 + -dx * y1)).natAbs
    (dy * (x1 - dx.sign * a + dx.sign) + -dx * (y1 - dy.sign * b + dy.sign) + -(dy * x1 + -dx * y1)).natAbs
    dx.sign dy.sign x1 y1 (x1 - dx.sign * a) (y1 - dy.sign * b)
  unfold sightStep at hstep
  rw [hstep] at hx hy
  refine ⟨a', b', ha', hb', hless, hstep, ?_, ?_, ?_⟩
  · rcases hx with hx | ⟨hne, hx⟩
    · exact .inl hx
    · exact .inr ⟨hne, by rw [sign_left ha hne]; exact hx⟩
  · rcases hy with hy | ⟨hne, hy⟩
    · exact .inl hy
    · exact .inr ⟨hne, by rw [sign_left hb hne]; exact hy⟩
  intro hsame
  obtain ⟨hsameX, hsameY⟩ := Prod.mk.inj hsame
  have hback : ∀ {v d : Int} {m n : Nat}, n ≤ m → m ≤ d.natAbs → v - d.sign * n = v - d.sign * m → n = m := by
    intro v d m n hnm hm heq
    rcases Nat.eq_zero_or_pos m with rfl | hpos
    · omega
    have hsign : d.sign ≠ 0 := by
      rw [Ne, Int.sign_eq_zero_iff_zero]
      omega
    have hmul : d.sign * (n : Int) = d.sign * m := by omega
    exact_mod_cast mul_left_cancel₀ hsign hmul
  have hsameA := hback ha' ha hsameX
  have hsameB := hback hb' hb hsameY
  omega

/-! ## A whole run -/

theorem sightRun_spec (clear : Int → Int → Bool) {dx dy x1 y1 : Int} {n a b : Nat} (ha : a ≤ dx.natAbs) (hb : b ≤ dy.natAbs)
    (hn : a + b < n) :
    ∃ visited answer, sightRun clear dy (-dx) (-(dy * x1 + -dx * y1)) dx.sign dy.sign x1 y1 n (x1 - dx.sign * a) (y1 - dy.sign * b) =
        (visited, some answer) ∧
      visited.length ≤ a + b ∧
      ((x1 - dx.sign * a, y1 - dy.sign * b) :: visited).IsChain (StepTo (x1, y1)) ∧
      (∀ s ∈ (x1 - dx.sign * a, y1 - dy.sign * b) :: visited, ∃ a' b' : Nat, a' ≤ a ∧ b' ≤ b ∧
        s = (x1 - dx.sign * a', y1 - dy.sign * b')) ∧
      (answer = true → ((x1 - dx.sign * a, y1 - dy.sign * b) :: visited).getLast? = some (x1, y1)) := by
  induction n generalizing a b with
  | zero => omega
  | succ n ih =>
    unfold sightRun
    by_cases hend : x1 - dx.sign * a = x1 ∧ y1 - dy.sign * b = y1
    · rw [if_pos hend, hend.1, hend.2]
      refine ⟨[], true, rfl, Nat.zero_le _, isChain_singleton _, fun s hs => ?_, fun _ => rfl⟩
      rw [mem_singleton] at hs
      exact ⟨a, b, le_rfl, le_rfl, by rw [hs, hend.1, hend.2]⟩
    · have hgo : 0 < a + b := by
        by_contra hzero
        obtain ⟨rfl, rfl⟩ : a = 0 ∧ b = 0 := by omega
        exact hend (by simp)
      obtain ⟨a', b', ha', hb', hless, hstep, hto⟩ := @sightStep_stepTo dx dy x1 y1 a b ha hb hgo
      have hself : ∀ {l : List (Int × Int)}, (∀ s ∈ l, ∃ a'' b'' : Nat, a'' ≤ a' ∧ b'' ≤ b' ∧ s = (x1 - dx.sign * a'', y1 - dy.sign * b'')) →
          ∀ s ∈ (x1 - dx.sign * a, y1 - dy.sign * b) :: l, ∃ a'' b'' : Nat, a'' ≤ a ∧ b'' ≤ b ∧
            s = (x1 - dx.sign * a'', y1 - dy.sign * b'') := by
        intro l hl s hs
        rcases mem_cons.mp hs with rfl | hs
        · exact ⟨a, b, le_rfl, le_rfl, rfl⟩
        · obtain ⟨a'', b'', ha'', hb'', hs⟩ := hl s hs
          exact ⟨a'', b'', ha''.trans ha', hb''.trans hb', hs⟩
      rw [if_neg hend, hstep]
      dsimp only
      split
      · obtain ⟨visited, answer, hrun, hlength, hchain, hon, hlast⟩ := ih (ha'.trans ha) (hb'.trans hb) (by omega)
        rw [hrun]
        dsimp only
        refine ⟨_, answer, rfl, ?_, isChain_cons_cons.mpr ⟨hto, hchain⟩, hself hon, fun htrue => ?_⟩
        · rw [length_cons]
          omega
        · exact hlast htrue
      · refine ⟨_, false, rfl, ?_, isChain_cons_cons.mpr ⟨hto, isChain_singleton _⟩, hself fun s hs => ?_, nofun⟩
        · rw [length_singleton]
          omega
        · rw [mem_singleton] at hs
          exact ⟨a', b', le_rfl, le_rfl, hs⟩

theorem mul_within {p q m n : Int} (hp : |p| ≤ m) (hq : |q| ≤ n) : -(m * n) ≤ p * q ∧ p * q ≤ m * n := by
  rw [← abs_le, abs_mul]
  exact mul_le_mul hp hq (abs_nonneg q) ((abs_nonneg p).trans hp)

/-- With the last constant a sum is small, being measured from the end. -/
theorem line_fits {dx dy x1 y1 u v : Int} {s : Int × Int} (hdx : |dx| ≤ 16383) (hdy : |dy| ≤ 16383)
    (hleftX : |s.1 - x1| ≤ 16383) (hleftY : |s.2 - y1| ≤ 16383) (hu : |u| ≤ 1) (hv : |v| ≤ 1) :
    FitsInt32 (dy * (s.1 + u) + -dx * (s.2 + v) + -(dy * x1 + -dx * y1)) := by
  have hmeasured : dy * (s.1 + u) + -dx * (s.2 + v) + -(dy * x1 + -dx * y1) =
      dy * (s.1 - x1 + u) + -dx * (s.2 - y1 + v) := by ring
  have hcolumns := mul_within hdy ((abs_add_le (s.1 - x1) u).trans (add_le_add hleftX hu))
  have hrows := mul_within ((abs_neg dx).trans_le hdx) ((abs_add_le (s.2 - y1) v).trans (add_le_add hleftY hv))
  unfold FitsInt32
  omega

theorem expressions_fit {dx dy x1 y1 : Int} {s : Int × Int} (hdx : |dx| ≤ 16383) (hdy : |dy| ≤ 16383)
    (hx1 : |x1| ≤ 65535) (hy1 : |y1| ≤ 65535) (hx : |s.1| ≤ 65535) (hy : |s.2| ≤ 65535)
    (hleftX : |s.1 - x1| ≤ 16383) (hleftY : |s.2 - y1| ≤ 16383) : ∀ e ∈ expressions dx dy x1 y1 s, FitsInt32 e := by
  have hneg : |-dx| ≤ 16383 := (abs_neg dx).trans_le hdx
  have hsign : ∀ d : Int, |d.sign| ≤ 1 := by
    grind
  have hhor := @line_fits dx dy x1 y1 dx.sign 0 s hdx hdy hleftX hleftY (hsign dx) (by decide)
  have hver := @line_fits dx dy x1 y1 0 dy.sign s hdx hdy hleftX hleftY (by decide) (hsign dy)
  have hcross := @line_fits dx dy x1 y1 dx.sign dy.sign s hdx hdy hleftX hleftY (hsign dx) (hsign dy)
  rw [add_zero] at hhor hver
  have hmx := abs_le.mp (hsign dx)
  have hmy := abs_le.mp (hsign dy)
  have hAx1 := mul_within hdy hx1
  have hBy1 := mul_within hneg hy1
  have hAx := mul_within hdy hx
  have hBy := mul_within hneg hy
  have hAmx := mul_within hdy ((abs_add_le s.1 dx.sign).trans (add_le_add hx (hsign dx)))
  have hBmy := mul_within hneg ((abs_add_le s.2 dy.sign).trans (add_le_add hy (hsign dy)))
  rw [abs_le] at hdx hdy hneg hx hy
  simp only [expressions, mem_cons, not_mem_nil, or_false, forall_eq_or_imp, forall_eq]
  refine ⟨?_, ?_, ?_, ?_, ?_, ?_, ?_, ?_, ?_, ?_, ?_, ?_, ?_, hhor, ?_, hver, ?_, hcross⟩
  all_goals
    unfold FitsInt32
    omega

theorem between_of_left {v0 v1 : Int} {n : Nat} (h : n ≤ (v1 - v0).natAbs) : Between v0 v1 (v1 - (v1 - v0).sign * n) := by
  unfold Between
  grind

/-- A run of the line between any two squares that are not too far apart. -/
theorem lineRun_spec (clear : Int → Int → Bool) (x0 y0 x1 y1 : BitVec 16) (hx : |(x1.toNat : Int) - x0.toNat| ≤ 16383)
    (hy : |(y1.toNat : Int) - y0.toNat| ≤ 16383) :
    ∃ visited answer, lineRun clear x0 y0 x1 y1 = (visited, some answer) ∧
      (∀ (map : Map) (z : BitVec 8), clear = map.floorClear z → answer = map.checkSightLine x0 y0 x1 y1 z) ∧
      (visited.length : Int) ≤ |(x1.toNat : Int) - x0.toNat| + |(y1.toNat : Int) - y0.toNat| ∧
      (((x0.toNat : Int), (y0.toNat : Int)) :: visited).IsChain (StepTo (x1.toNat, y1.toNat)) ∧
      (answer = true → (((x0.toNat : Int), (y0.toNat : Int)) :: visited).getLast? = some ((x1.toNat : Int), (y1.toNat : Int))) ∧
      ∀ s ∈ ((x0.toNat : Int), (y0.toNat : Int)) :: visited, Between x0.toNat x1.toNat s.1 ∧ Between y0.toNat y1.toNat s.2 ∧
        ∀ e ∈ expressions ((x1.toNat : Int) - x0.toNat) ((y1.toNat : Int) - y0.toNat) x1.toNat y1.toNat s, FitsInt32 e := by
  have hx0 := x0.isLt
  have hx1 := x1.isLt
  have hy0 := y0.isLt
  have hy1 := y1.isLt
  obtain ⟨dx, hdx⟩ : ∃ dx, dx = (x1.toNat : Int) - x0.toNat := ⟨_, rfl⟩
  obtain ⟨dy, hdy⟩ : ∃ dy, dy = (y1.toNat : Int) - y0.toNat := ⟨_, rfl⟩
  have hstartX : (x0.toNat : Int) = x1.toNat - dx.sign * dx.natAbs := by
    rw [Int.sign_mul_natAbs]
    omega
  have hstartY : (y0.toNat : Int) = y1.toNat - dy.sign * dy.natAbs := by
    rw [Int.sign_mul_natAbs]
    omega
  obtain ⟨visited, answer, hrun, hlength, hchain, hon, hlast⟩ :=
    @sightRun_spec clear dx dy x1.toNat y1.toNat (dx.natAbs + dy.natAbs + 1) dx.natAbs dy.natAbs le_rfl le_rfl (Nat.lt_succ_self _)
  rw [← hstartX, ← hstartY] at hrun hchain hon hlast
  have hline : lineRun clear x0 y0 x1 y1 = (visited, some answer) := by
    unfold lineRun
    rw [← hdx, ← hdy]
    exact hrun
  refine ⟨visited, answer, hline, fun map z hclear => ?_, ?_, hchain, hlast, fun s hs => ?_⟩
  · have hanswer := map.lineRun_answer x0 y0 x1 y1 z
    rw [← hclear, hline] at hanswer
    exact Option.some.inj hanswer
  · rw [← hdx, ← hdy, Int.abs_eq_natAbs, Int.abs_eq_natAbs]
    omega
  · obtain ⟨a, b, ha, hb, hat⟩ := hon s hs
    have hcolumn : Between x0.toNat x1.toNat s.1 := hat ▸ hdx ▸ between_of_left (hdx ▸ ha)
    have hrow : Between y0.toNat y1.toNat s.2 := hat ▸ hdy ▸ between_of_left (hdy ▸ hb)
    refine ⟨hcolumn, hrow, ?_⟩
    rw [abs_le] at hx hy
    unfold Between at hcolumn hrow
    refine expressions_fit ?_ ?_ ?_ ?_ ?_ ?_ ?_ ?_
    all_goals
      rw [abs_le]
      omega

/-- One column and two rows, with nothing in between. -/
theorem knight_line :
    ∃ visited answer, lineRun (fun _ _ => true) 10 10 11 12 = (visited, some answer) ∧ (visited.length : Int) ≤ 3 ∧
      (((10 : Int), (10 : Int)) :: visited).IsChain (StepTo (11, 12)) := by
  obtain ⟨visited, answer, hrun, -, hlength, hchain, -⟩ := lineRun_spec (fun _ _ => true) 10 10 11 12 (by decide) (by decide)
  exact ⟨visited, answer, hrun, hlength, hchain⟩

/-! ## Sight both ways -/

variable (map : Map)

/-- Sight on a floor is left to the floor above: the ends are apart, both lines between them are
    blocked, and nothing lies over either end. -/
structure OverTheWall (a b : Position) : Prop where
  apart : ¬ (getDistanceX a b < 2 ∧ getDistanceY a b < 2)
  there : map.checkSightLine a.x a.y b.x b.y a.z = false
  back : map.checkSightLine b.x b.y a.x a.y a.z = false
  below : a.z ≠ 0
  fromClear : map.isTileClear a.x a.y (a.z - 1) true = true
  toClear : map.isTileClear b.x b.y (a.z - 1) true = true

theorem getDistanceX_comm (a b : Position) : getDistanceX a b = getDistanceX b a := by
  unfold getDistanceX
  omega

theorem getDistanceY_comm (a b : Position) : getDistanceY a b = getDistanceY b a := by
  unfold getDistanceY
  omega

variable {map}

theorem OverTheWall.symm {a b : Position} (hz : a.z = b.z) (h : map.OverTheWall a b) : map.OverTheWall b a where
  apart := by
    rw [getDistanceX_comm, getDistanceY_comm]
    exact h.apart
  there := hz ▸ h.back
  back := hz ▸ h.there
  below := hz ▸ h.below
  fromClear := hz ▸ h.toClear
  toClear := hz ▸ h.fromClear

theorem OverTheWall.isSightClear {a b : Position} (hz : a.z = b.z) (h : map.OverTheWall a b) :
    map.isSightClear a b false = map.checkSightLine a.x a.y b.x b.y (a.z - 1) := by
  unfold Map.isSightClear
  rw [if_pos hz, if_neg h.apart, h.there, h.back, h.fromClear, h.toClear, if_neg (by decide), if_neg h.below]
  rfl

/-- Elsewhere both lines are looked at, or none. -/
theorem isSightClear_comm_of_not {a b : Position} (hz : a.z = b.z) {sameFloor : Bool}
    (h : sameFloor = true ∨ ¬ map.OverTheWall a b) : map.isSightClear a b sameFloor = map.isSightClear b a sameFloor := by
  unfold Map.isSightClear
  rw [if_pos hz, if_pos hz.symm, getDistanceX_comm b a, getDistanceY_comm b a, ← hz,
    Bool.or_comm (map.checkSightLine b.x b.y a.x a.y a.z)]
  by_cases hnear : getDistanceX a b < 2 ∧ getDistanceY a b < 2
  · rw [if_pos hnear, if_pos hnear]
  by_cases hline : (map.checkSightLine a.x a.y b.x b.y a.z || map.checkSightLine b.x b.y a.x a.y a.z || sameFloor) = true
  · rw [if_pos hline, if_pos hline]
  simp only [Bool.or_eq_true, not_or, Bool.not_eq_true] at hline
  by_cases hzero : a.z = 0
  · rw [if_pos hzero, if_pos hzero]
  rw [if_neg hzero, if_neg hzero, Bool.and_comm (map.isTileClear b.x b.y (a.z - 1) true)]
  have hover : ¬ map.OverTheWall a b := h.resolve_left (by simp [hline.2])
  have hblocked : (map.isTileClear a.x a.y (a.z - 1) true && map.isTileClear b.x b.y (a.z - 1) true) = false := by
    rw [← Bool.not_eq_true, Bool.and_eq_true]
    rintro ⟨hfrom, hto⟩
    exact hover ⟨hnear, hline.1.1, hline.1.2, hzero, hfrom, hto⟩
  rw [hblocked, Bool.false_and, Bool.false_and]

variable (map)

/-- On one floor sight is mutual exactly when it is not left to the floor above, or the two lines
    there agree. -/
theorem isSightClear_comm_iff {a b : Position} (hz : a.z = b.z) (sameFloor : Bool) :
    map.isSightClear a b sameFloor = map.isSightClear b a sameFloor ↔
      (sameFloor = false → map.OverTheWall a b →
        map.checkSightLine a.x a.y b.x b.y (a.z - 1) = map.checkSightLine b.x b.y a.x a.y (a.z - 1)) := by
  by_cases h : sameFloor = true ∨ ¬ map.OverTheWall a b
  · refine iff_of_true (isSightClear_comm_of_not hz h) fun hfloor hover => ?_
    grind
  · rw [not_or, Bool.not_eq_true, not_not] at h
    obtain ⟨rfl, hover⟩ := h
    rw [hover.isSightClear hz, (hover.symm hz).isSightClear hz.symm, ← hz]
    exact ⟨fun h _ _ => h, fun h => h rfl hover⟩

/-- A wall of two squares between the ends, and one square of it on the floor above. -/
def wallTiles (p : Position) : Option Tile :=
  if p = ⟨10, 11, 7⟩ ∨ p = ⟨11, 11, 7⟩ ∨ p = ⟨11, 11, 6⟩ then some { tilePos := p, id := 0, blockProjectile := true } else none

theorem wallTiles_pos (p : Position) (t : Tile) (h : wallTiles p = some t) : t.tilePos = p := by
  unfold wallTiles at h
  split at h
  · cases h
    rfl
  · cases h

def wall : Map := Map.ofTiles wallTiles wallTiles_pos

/-- Beside the wall, with nothing on the floor above in the way, it is mutual. -/
theorem beside_wall_mutual :
    (wall.isSightClear ⟨9, 10, 7⟩ ⟨10, 12, 7⟩ false = wall.isSightClear ⟨10, 12, 7⟩ ⟨9, 10, 7⟩ false ↔
      (false = false → wall.OverTheWall ⟨9, 10, 7⟩ ⟨10, 12, 7⟩ →
        wall.checkSightLine 9 10 10 12 (7 - 1) = wall.checkSightLine 10 12 9 10 (7 - 1))) ∧
    wall.checkSightLine 9 10 10 12 (7 - 1) = wall.checkSightLine 10 12 9 10 (7 - 1) :=
  ⟨@isSightClear_comm_iff wall ⟨9, 10, 7⟩ ⟨10, 12, 7⟩ rfl false, by decide +kernel⟩

/-- Over the wall one end sees the other, and is not seen. -/
theorem over_the_wall_one_way :
    wall.isSightClear ⟨10, 10, 7⟩ ⟨11, 12, 7⟩ false = true ∧ wall.isSightClear ⟨11, 12, 7⟩ ⟨10, 10, 7⟩ false = false := by
  decide +kernel

end Map

end Backlands.World
