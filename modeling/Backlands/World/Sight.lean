/-
  Backlands.World.Sight — tiles of the map and lines of sight between them (src/map.cpp).

  A tile lies on a floor of the leaf of its square. A tile that the map still has in the cache
  is made when it is asked for; here it is there already. A line of sight goes from square to
  square towards its end, and is clear when no tile on it blocks projectiles. The products of
  a line are taken without overflow.

  Proved: `sightLine_ends`, every line comes to its end.
-/

import Backlands.World.Spectators
import Mathlib.Tactic.Ring

namespace Backlands.World

open Backlands.Lib

structure Tile where
  tilePos : Position
  /-- Tells the tile from another one with the same fields. -/
  id : Nat
  ground : Bool := true
  /-- `hasProperty(CONST_PROP_BLOCKPROJECTILE)` -/
  blockProjectile : Bool := false
  deriving DecidableEq

structure TileFloor where
  tiles : BitVec 16 → BitVec 16 → Option Tile

def TileFloor.getTile (floor : TileFloor) (x y : BitVec 16) : Option Tile := floor.tiles (x &&& 7) (y &&& 7)

/-- `Map::getTile` on a tree and the floors of its leaves. -/
def tileOf (root : QTreeNode) (floors : LeafId → BitVec 8 → Option TileFloor) (p : Position) : Option Tile :=
  if (p.z.toNat : Int) ≥ MAP_MAX_LAYERS then none
  else
    (getLeaf root (p.x.setWidth 32) (p.y.setWidth 32)).bind fun leaf =>
      (floors leaf p.z).bind fun floor => floor.getTile p.x p.y

structure Map where
  root : QTreeNode
  floors : LeafId → BitVec 8 → Option TileFloor
  deep : Trie.Deep 13 root
  tile_pos : ∀ p t, tileOf root floors p = some t → t.tilePos = p

namespace Map

variable (map : Map)

def getTile (p : Position) : Option Tile := tileOf map.root map.floors p

def isTileClear (x y : BitVec 16) (z : BitVec 8) (blockFloor : Bool) : Bool :=
  match map.getTile ⟨x, y, z⟩ with
  | none => true
  | some tile => if blockFloor && tile.ground then false else !tile.blockProjectile

/-! ## Lines -/

/-- The next square of a line to `(x1, y1)`, by how far off the line the moves are. -/
def sightMove (move_hor move_ver move_cross : Nat) (mx my x1 y1 x y : Int) : Int × Int :=
  let newY := if y ≠ y1 ∧ (x = x1 ∨ move_hor > move_ver ∨ move_hor > move_cross) then y + my else y
  let newX := if x ≠ x1 ∧ (newY = y1 ∨ move_ver > move_hor ∨ move_ver > move_cross) then x + mx else x
  (newX, newY)

/-- One turn of the loop. -/
def sightStep (A B C mx my x1 y1 x y : Int) : Int × Int :=
  sightMove (A * (x + mx) + B * y + C).natAbs (A * x + B * (y + my) + C).natAbs
    (A * (x + mx) + B * (y + my) + C).natAbs mx my x1 y1 x y

/-- `none` when the line has not come to its end after `n` turns. -/
def sightLine (z : BitVec 8) (A B C mx my x1 y1 : Int) : Nat → Int → Int → Option Bool
  | 0, _, _ => none
  | n + 1, x, y =>
    if x = x1 ∧ y = y1 then some true
    else
      let next := sightStep A B C mx my x1 y1 x y
      if map.isTileClear (BitVec.ofInt 16 next.1) (BitVec.ofInt 16 next.2) z false then
        sightLine z A B C mx my x1 y1 n next.1 next.2
      else some false

def checkSightLine (x0 y0 x1 y1 : BitVec 16) (z : BitVec 8) : Bool :=
  let dx : Int := x1.toNat - x0.toNat
  let dy : Int := y1.toNat - y0.toNat
  let A := dy
  let B := -dx
  let C := -(A * x1.toNat + B * y1.toNat)
  (map.sightLine z A B C dx.sign dy.sign x1.toNat y1.toNat (dx.natAbs + dy.natAbs + 1) x0.toNat y0.toNat).getD false

def getDistanceX (p q : Position) : Int := ((p.x.toNat : Int) - q.x.toNat).natAbs

def getDistanceY (p q : Position) : Int := ((p.y.toNat : Int) - q.y.toNat).natAbs

def getDistanceZ (p q : Position) : Int := ((p.z.toNat : Int) - q.z.toNat).natAbs

def isSightClear (fromPos toPos : Position) (sameFloor : Bool) : Bool :=
  if fromPos.z = toPos.z then
    if getDistanceX fromPos toPos < 2 ∧ getDistanceY fromPos toPos < 2 then true
    else
      let sightClear := map.checkSightLine fromPos.x fromPos.y toPos.x toPos.y fromPos.z ||
        map.checkSightLine toPos.x toPos.y fromPos.x fromPos.y fromPos.z
      if sightClear || sameFloor then sightClear
      else if fromPos.z = 0 then true
      else
        map.isTileClear fromPos.x fromPos.y (fromPos.z - 1) true && map.isTileClear toPos.x toPos.y (fromPos.z - 1) true &&
          map.checkSightLine fromPos.x fromPos.y toPos.x toPos.y (fromPos.z - 1)
  else if sameFloor then false
  else if (fromPos.z.toNat < 8 ∧ toPos.z.toNat > 7) ∨ (fromPos.z.toNat > 7 ∧ toPos.z.toNat < 8) then false
  else if fromPos.z.toNat > toPos.z.toNat then
    if getDistanceZ fromPos toPos > 1 then false
    else
      map.isTileClear fromPos.x fromPos.y (fromPos.z - 1) true &&
        map.checkSightLine fromPos.x fromPos.y toPos.x toPos.y (fromPos.z - 1)
  else
    ((List.range (toPos.z.toNat - fromPos.z.toNat)).all fun i =>
      map.isTileClear toPos.x toPos.y (BitVec.ofNat 8 (fromPos.z.toNat + i)) true) &&
      map.checkSightLine fromPos.x fromPos.y toPos.x toPos.y fromPos.z

/-- Away from the end in both directions one of the two moves is taken. -/
theorem moves_differ {p q e : Int} (hp : 0 < p) (hq : 0 < q) :
    ((e + q).natAbs > (e - p).natAbs ∨ (e + q).natAbs > (e + q - p).natAbs) ∨
      (e - p).natAbs > (e + q).natAbs ∨ (e - p).natAbs > (e + q - p).natAbs := by
  omega

theorem natAbs_line {dx dy sx sy p q : Int} (hdx : dx = sx * p) (hdy : dy = sy * q) (hs : (sx * sy).natAbs = 1)
    (x1 y1 a b u v : Int) :
    (dy * (x1 - sx * a + sx * u) + -dx * (y1 - sy * b + sy * v) + -(dy * x1 + -dx * y1)).natAbs =
      (p * b - q * a + q * u - p * v).natAbs := by
  have hline : dy * (x1 - sx * a + sx * u) + -dx * (y1 - sy * b + sy * v) + -(dy * x1 + -dx * y1) =
      sx * sy * (p * b - q * a + q * u - p * v) := by
    rw [hdx, hdy]
    ring
  rw [hline, Int.natAbs_mul, hs, Nat.one_mul]

theorem sightMove_closer {move_hor move_ver move_cross : Nat} {sx sy x1 y1 : Int} {a b : Nat} (hsx : 0 < a → sx ≠ 0)
    (hsy : 0 < b → sy ≠ 0) (hgo : 0 < a + b)
    (hdiffer : 0 < a → 0 < b → (move_hor > move_ver ∨ move_hor > move_cross) ∨ move_ver > move_hor ∨ move_ver > move_cross) :
    ∃ a' b' : Nat, a' ≤ a ∧ b' ≤ b ∧ a' + b' < a + b ∧
      sightMove move_hor move_ver move_cross sx sy x1 y1 (x1 - sx * a) (y1 - sy * b) = (x1 - sx * a', y1 - sy * b') := by
  have hend : ∀ (v s : Int) (n : Nat), (0 < n → s ≠ 0) → (v - s * n = v ↔ n = 0) := by
    intro v s n hs
    rw [sub_eq_self, mul_eq_zero, Nat.cast_eq_zero]
    constructor
    · intro h
      rcases h with h | h
      · exact Nat.eq_zero_of_not_pos fun hn => hs hn h
      · exact h
    · exact .inr
  have hback : ∀ (v s : Int) (n : Nat), v - s * ((n + 1 : Nat) : Int) + s = v - s * n := by
    intro v s n
    rw [Nat.cast_succ]
    ring
  have hx := hend x1 sx a hsx
  have hy := hend y1 sy b hsy
  unfold sightMove
  dsimp only
  by_cases hrow : y1 - sy * b ≠ y1 ∧ (x1 - sx * a = x1 ∨ move_hor > move_ver ∨ move_hor > move_cross)
  · obtain ⟨b', rfl⟩ : ∃ b', b = b' + 1 := ⟨b - 1, by have := mt hy.mpr hrow.1; omega⟩
    rw [if_pos hrow, hback]
    split
    · next hcolumn =>
      obtain ⟨a', rfl⟩ : ∃ a', a = a' + 1 := ⟨a - 1, by have := mt hx.mpr hcolumn.1; omega⟩
      exact ⟨a', b', by omega, by omega, by omega, by rw [hback]⟩
    · exact ⟨a, b', by omega, by omega, by omega, rfl⟩
  · -- Then the column is not the end's, and the other move is taken.
    have hcolumn : x1 - sx * a ≠ x1 ∧ (y1 - sy * b = y1 ∨ move_ver > move_hor ∨ move_ver > move_cross) := by
      omega
    obtain ⟨a', rfl⟩ : ∃ a', a = a' + 1 := ⟨a - 1, by omega⟩
    rw [if_neg hrow, if_pos hcolumn, hback]
    exact ⟨a', b, by omega, le_rfl, by omega, rfl⟩

theorem sightStep_closer {dx dy x1 y1 : Int} {a b : Nat} (ha : a ≤ dx.natAbs) (hb : b ≤ dy.natAbs) (hgo : 0 < a + b) :
    ∃ a' b' : Nat, a' ≤ a ∧ b' ≤ b ∧ a' + b' < a + b ∧
      sightStep dy (-dx) (-(dy * x1 + -dx * y1)) dx.sign dy.sign x1 y1 (x1 - dx.sign * a) (y1 - dy.sign * b) =
        (x1 - dx.sign * a', y1 - dy.sign * b') := by
  refine sightMove_closer ?_ ?_ hgo ?_
  · rw [Ne, Int.sign_eq_zero_iff_zero]
    omega
  · rw [Ne, Int.sign_eq_zero_iff_zero]
    omega
  intro ha0 hb0
  have hsign : (dx.sign * dy.sign).natAbs = 1 := by
    rw [Int.natAbs_mul, Int.natAbs_sign_of_ne_zero (by omega), Int.natAbs_sign_of_ne_zero (by omega)]
  have hline := natAbs_line (Int.sign_mul_natAbs dx).symm (Int.sign_mul_natAbs dy).symm hsign x1 y1 a b
  have hline_hor := hline 1 0
  have hline_ver := hline 0 1
  have hline_cross := hline 1 1
  simp only [mul_one, mul_zero, add_zero, sub_zero] at hline_hor hline_ver hline_cross
  rw [hline_hor, hline_ver, hline_cross]
  exact moves_differ (by omega) (by omega)

variable (map : Map)

theorem sightLine_isSome {z : BitVec 8} {dx dy x1 y1 : Int} {n a b : Nat} (ha : a ≤ dx.natAbs) (hb : b ≤ dy.natAbs)
    (hn : a + b < n) :
    (map.sightLine z dy (-dx) (-(dy * x1 + -dx * y1)) dx.sign dy.sign x1 y1 n (x1 - dx.sign * a) (y1 - dy.sign * b)).isSome := by
  induction n generalizing a b with
  | zero => omega
  | succ n ih =>
    unfold sightLine
    split
    · rfl
    next hend =>
    have hgo : 0 < a + b := by
      by_contra hzero
      obtain ⟨rfl, rfl⟩ : a = 0 ∧ b = 0 := by omega
      exact hend (by simp)
    obtain ⟨a', b', ha', hb', hless, hstep⟩ := sightStep_closer ha hb hgo
    dsimp only
    rw [hstep]
    split
    · exact ih (ha'.trans ha) (hb'.trans hb) (by omega)
    · rfl

theorem sightLine_ends (x0 y0 x1 y1 : BitVec 16) (z : BitVec 8) :
    let dx : Int := x1.toNat - x0.toNat
    let dy : Int := y1.toNat - y0.toNat
    (map.sightLine z dy (-dx) (-(dy * x1.toNat + -dx * y1.toNat)) dx.sign dy.sign x1.toNat y1.toNat
      (dx.natAbs + dy.natAbs + 1) x0.toNat y0.toNat).isSome := by
  intro dx dy
  have hx : (x0.toNat : Int) = x1.toNat - dx.sign * dx.natAbs := by
    rw [Int.sign_mul_natAbs]
    omega
  have hy : (y0.toNat : Int) = y1.toNat - dy.sign * dy.natAbs := by
    rw [Int.sign_mul_natAbs]
    omega
  rw [hx, hy]
  exact map.sightLine_isSome le_rfl le_rfl (Nat.lt_succ_self _)

end Map

/-! ## Maps with given tiles -/

def fullTree : Nat → Nat → Nat → QTreeNode
  | 0, column, row => .leaf (column * 8192 + row)
  | n + 1, column, row => .node fun i => fullTree n (2 * column + i.val % 2) (2 * row + i.val / 2)

theorem deep_fullTree (n column row : Nat) : Trie.Deep n (fullTree n column row) := by
  induction n generalizing column row with
  | zero => exact ⟨_, rfl⟩
  | succ n ih => exact ⟨_, rfl, fun i => .inr (ih _ _)⟩

theorem shiftOut (x : BitVec 32) {n : Nat} (hn : n < 16) (b : Nat) :
    (2 * b + (x.getLsbD 15).toNat) * 2 ^ n + (x <<< 1).toNat % 2 ^ 16 / 2 ^ (16 - n) =
      b * 2 ^ (n + 1) + x.toNat % 2 ^ 16 / 2 ^ (16 - (n + 1)) := by
  have hbit : (x.getLsbD 15).toNat = x.toNat % 2 ^ 16 / 2 ^ 15 := by
    show (x.toNat.testBit 15).toNat = _
    rw [Nat.toNat_testBit]
    omega
  have hlow : (x <<< 1).toNat % 2 ^ 16 = 2 * (x.toNat % 2 ^ 15) := by
    rw [BitVec.toNat_shiftLeft, Nat.shiftLeft_eq]
    omega
  have hsplit : x.toNat % 2 ^ 16 = x.toNat % 2 ^ 15 + 2 ^ (15 - n) * (2 ^ n * (x.toNat % 2 ^ 16 / 2 ^ 15)) := by
    rw [← Nat.mul_assoc, ← pow_add, show 15 - n + n = 15 from by omega]
    omega
  have hhalf : 2 * (x.toNat % 2 ^ 15) / 2 ^ (16 - n) = x.toNat % 2 ^ 15 / 2 ^ (15 - n) := by
    rw [show 16 - n = 15 - n + 1 from by omega, pow_succ' 2 (15 - n), Nat.mul_div_mul_left _ _ Nat.two_pos]
  have hhigh : x.toNat % 2 ^ 16 / 2 ^ (15 - n) = x.toNat % 2 ^ 15 / 2 ^ (15 - n) + 2 ^ n * (x.toNat % 2 ^ 16 / 2 ^ 15) := by
    conv_lhs => rw [hsplit, Nat.add_mul_div_left _ _ (Nat.two_pow_pos _)]
  rw [hbit, hlow, hhalf, show 16 - (n + 1) = 15 - n from by omega, hhigh]
  ring

theorem getLeaf_fullTree {n : Nat} (hn : n ≤ 16) (column row : Nat) (x y : BitVec 32) :
    getLeaf (fullTree n column row) x y = some ((column * 2 ^ n + x.toNat % 2 ^ 16 / 2 ^ (16 - n)) * 8192 +
      (row * 2 ^ n + y.toNat % 2 ^ 16 / 2 ^ (16 - n))) := by
  induction n generalizing column row x y with
  | zero =>
    have hzero : ∀ v : BitVec 32, v.toNat % 2 ^ 16 / 2 ^ (16 - 0) = 0 := fun v => Nat.div_eq_of_lt (Nat.mod_lt _ (by decide))
    rw [hzero, hzero, pow_zero, Nat.mul_one, Nat.mul_one]
    rfl
  | succ n ih =>
    have hmod : (childIndex x y).val % 2 = (x.getLsbD 15).toNat := by
      have := Bool.toNat_lt (x.getLsbD 15)
      rw [childIndex_val]
      omega
    have hdiv : (childIndex x y).val / 2 = (y.getLsbD 15).toNat := by
      rw [childIndex_val]
      omega
    show getLeaf (fullTree n (2 * column + (childIndex x y).val % 2) (2 * row + (childIndex x y).val / 2)) (x <<< 1) (y <<< 1) = _
    rw [ih (by omega), hmod, hdiv, shiftOut x (by omega), shiftOut y (by omega)]

/-- The floors of `fullTree` with the tiles of a map. -/
def fullFloors (tiles : Position → Option Tile) (leaf : LeafId) (z : BitVec 8) : Option TileFloor :=
  some ⟨fun ox oy => tiles ⟨BitVec.ofNat 16 (leaf / 8192 * 8) + ox, BitVec.ofNat 16 (leaf % 8192 * 8) + oy, z⟩⟩

theorem tileOf_fullFloors (tiles : Position → Option Tile) (p : Position) (hz : ¬ (p.z.toNat : Int) ≥ MAP_MAX_LAYERS) :
    tileOf (fullTree 13 0 0) (fullFloors tiles) p = tiles p := by
  have hback : ∀ v : BitVec 16, BitVec.ofNat 16 (v.toNat / 8 * 8) + (v &&& 7) = v := by
    intro v
    have hand : (v &&& 7).toNat = v.toNat % 8 := by
      exact Nat.and_two_pow_sub_one_eq_mod v.toNat 3
    refine BitVec.eq_of_toNat_eq ?_
    rw [BitVec.toNat_add, BitVec.toNat_ofNat, hand]
    omega
  have hcut : ∀ v : BitVec 16, 0 * 2 ^ 13 + (v.setWidth 32).toNat % 2 ^ 16 / 2 ^ (16 - 13) = v.toNat / 8 := by
    intro v
    rw [BitVec.toNat_setWidth]
    omega
  rw [tileOf, if_neg hz, getLeaf_fullTree (by decide), hcut, hcut]
  show tiles ⟨BitVec.ofNat 16 ((p.x.toNat / 8 * 8192 + p.y.toNat / 8) / 8192 * 8) + (p.x &&& 7),
    BitVec.ofNat 16 ((p.x.toNat / 8 * 8192 + p.y.toNat / 8) % 8192 * 8) + (p.y &&& 7), p.z⟩ = tiles p
  rw [show (p.x.toNat / 8 * 8192 + p.y.toNat / 8) / 8192 = p.x.toNat / 8 from by omega,
    show (p.x.toNat / 8 * 8192 + p.y.toNat / 8) % 8192 = p.y.toNat / 8 from by omega, hback, hback]

def Map.ofTiles (tiles : Position → Option Tile) (tile_pos : ∀ p t, tiles p = some t → t.tilePos = p) : Map where
  root := fullTree 13 0 0
  floors := fullFloors tiles
  deep := deep_fullTree 13 0 0
  tile_pos p t h := by
    by_cases hz : (p.z.toNat : Int) ≥ MAP_MAX_LAYERS
    · rw [tileOf, if_pos hz] at h
      cases h
    · exact tile_pos p t ((tileOf_fullFloors tiles p hz).symm.trans h)

theorem Map.getTile_ofTiles {tiles : Position → Option Tile} (tile_pos : ∀ p t, tiles p = some t → t.tilePos = p) {p : Position}
    {t : Tile} (h : (ofTiles tiles tile_pos).getTile p = some t) : tiles p = some t := by
  by_cases hz : (p.z.toNat : Int) ≥ MAP_MAX_LAYERS
  · grind [getTile, tileOf]
  · exact (tileOf_fullFloors tiles p hz).symm.trans h

end Backlands.World
