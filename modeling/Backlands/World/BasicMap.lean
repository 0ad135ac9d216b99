/-
  Backlands.World.BasicMap — the tiles of the map by their ids (src/map.cpp).

  A leaf of the tree has sixteen floors, made when they are first written; a floor holds the
  id of a tile template for each of its 8x8 squares, 0 for none. The real tiles, which are
  made from the templates later, are not modelled, and the zones a tile is registered for
  are not either.

  Proved: a change of a floor is seen at the squares of its block and layer alone
  (`floorAt_changeFloor`), and the walk over the tree meets every floor that holds an id, at
  the base square of its block (`blocks_sound`, `blocks_complete`).
-/

import Backlands.World.MapCache
import Backlands.World.QuadTree

namespace Backlands.World

open Backlands.Lib Function List Option BitVec

/-- `tiles[x][y].second` -/
abbrev Floor := Fin 8 → Fin 8 → BitVec 32

def emptyFloor : Floor := fun _ _ => 0

structure BasicMap where
  tree : QuadTree := {}
  /-- The floors of a leaf. -/
  array : LeafId → Fin 16 → Option Floor := fun _ _ => none
  width : BitVec 32 := 0
  height : BitVec 32 := 0
  spawnfile : Bytes := []
  housefile : Bytes := []

/-- `x & FLOOR_MASK` -/
local instance floorSide : NeZero 8 := ⟨by decide⟩

def offset (x : BitVec 16) : Fin 8 := Fin.ofNat 8 x.toNat

namespace BasicMap

/-- The floor of a square, made when it is missing and changed by `f`. -/
def changeFloor (x y : BitVec 16) (z : Fin 16) (f : Floor → Floor) (m : BasicMap) : BasicMap :=
  let r := getOrCreateLeaf x y m.tree
  let floor := (m.array r.2 z).getD emptyFloor
  { m with tree := r.1, array := update m.array r.2 (update (m.array r.2) z (some (f floor))) }

def setTileCache (x y : BitVec 16) (id : BitVec 32) (floor : Floor) : Floor :=
  update floor (offset x) (update (floor (offset x)) (offset y) id)

/-- No template, or one of the store. -/
def setBasicTile (x y : BitVec 16) (z : BitVec 8) (basicTile : Option BasicTile) (m : BasicMap) : BasicMap :=
  if h : z.toNat < 16 then
    m.changeFloor x y ⟨z.toNat, h⟩ (setTileCache x y ((basicTile.map BasicTile.cacheId).getD 0))
  else m

/-- What the walk hands out, and what the map is filled with. -/
structure Block where
  x : BitVec 16
  y : BitVec 16
  z : BitVec 8
  ids : Floor

def hasCachedTile (floor : Floor) : Bool :=
  (List.finRange 8).any fun x => (List.finRange 8).any fun y => decide (floor x y ≠ 0)

def leafBlocks (m : BasicMap) (leaf : LeafId) (baseX baseY : BitVec 32) : List Block :=
  (List.finRange 16).filterMap fun z =>
    match m.array leaf z with
    | none => none
    | some floor =>
      if hasCachedTile floor then some ⟨baseX.setWidth 16, baseY.setWidth 16, BitVec.ofNat 8 z.val, floor⟩ else none

def walk (m : BasicMap) : QTreeNode → Nat → BitVec 32 → BitVec 32 → List Block
  | .empty, _, _, _ => []
  | .leaf id, _, baseX, baseY => m.leafBlocks id baseX baseY
  | .node child, level, baseX, baseY =>
    (List.finRange 4).flatMap fun index =>
      let childX := baseX ||| if index.val.testBit 0 then 1#32 <<< level else 0
      let childY := baseY ||| if index.val.testBit 1 then 1#32 <<< level else 0
      walk m (child index) (level - 1) childX childY

def forEachBasicFloorBlock (m : BasicMap) : List Block := m.walk m.tree.root 15 0 0

def setBasicFloorBlock (m : BasicMap) (b : Block) : BasicMap :=
  if h : b.z.toNat < 16 then m.changeFloor b.x b.y ⟨b.z.toNat, h⟩ (fun _ => b.ids) else m

def floorAt (m : BasicMap) (x y : BitVec 16) (z : Fin 16) : Floor :=
  ((getLeaf m.tree.root (x.setWidth 32) (y.setWidth 32)).bind fun leaf => m.array leaf z).getD emptyFloor

def tileId (m : BasicMap) (x y : BitVec 16) (z : Fin 16) : BitVec 32 := m.floorAt x y z (offset x) (offset y)

/-! ## Floors -/

def blockOf (x y : BitVec 16) : Nat × Nat := block (x.setWidth 32) (y.setWidth 32)

structure Sound (m : BasicMap) : Prop where
  tree : ∃ calls, Inv m.tree calls
  fresh : ∀ leaf z, m.tree.leaves ≤ leaf → m.array leaf z = none

theorem sound_start : Sound {} := ⟨⟨[], inv_start⟩, fun _ _ _ => rfl⟩

variable {m : BasicMap}

theorem Sound.floor_call (h : Sound m) (x y : BitVec 16) (z : Fin 16) :
    (m.array (getOrCreateLeaf x y m.tree).2 z).getD emptyFloor = m.floorAt x y z := by
  obtain ⟨calls, htree⟩ := h.tree
  unfold floorAt
  rcases htree.leaf_call x y with ⟨hleaf, -⟩ | ⟨hnone, hfresh, -⟩
  · rw [hleaf]
    rfl
  · rw [hnone, hfresh, h.fresh _ z le_rfl]
    rfl

theorem Sound.changeFloor (h : Sound m) (x y : BitVec 16) (z : Fin 16) (f : Floor → Floor) :
    Sound (m.changeFloor x y z f) := by
  obtain ⟨calls, htree⟩ := h.tree
  refine ⟨⟨_, (htree.call (x, y)).1⟩, fun leaf w hleaf => ?_⟩
  obtain ⟨hgrown, hlt⟩ := htree.leaves_call x y
  show update m.array _ _ leaf w = none
  rw [update_of_ne (Nat.ne_of_gt (Nat.lt_of_lt_of_le hlt hleaf))]
  exact h.fresh leaf w (Nat.le_trans hgrown hleaf)

theorem Sound.floorAt_changeFloor (h : Sound m) (x y : BitVec 16) (z : Fin 16) (f : Floor → Floor) (u v : BitVec 16)
    (w : Fin 16) : (m.changeFloor x y z f).floorAt u v w =
      if blockOf u v = blockOf x y ∧ w = z then f (m.floorAt x y z) else m.floorAt u v w := by
  obtain ⟨calls, htree⟩ := h.tree
  have hcall := h.floor_call x y
  have hget : getLeaf (getOrCreateLeaf x y m.tree).1.root (u.setWidth 32) (v.setWidth 32) =
      if blockOf u v = blockOf x y then some (getOrCreateLeaf x y m.tree).2
      else getLeaf m.tree.root (u.setWidth 32) (v.setWidth 32) := htree.getLeaf_call x y _ _
  show ((getLeaf (getOrCreateLeaf x y m.tree).1.root (u.setWidth 32) (v.setWidth 32)).bind fun leaf =>
    update m.array (getOrCreateLeaf x y m.tree).2 (update _ z _) leaf w).getD emptyFloor = _
  rw [hget]
  by_cases hb : blockOf u v = blockOf x y
  · have hsame : m.floorAt u v w = m.floorAt x y w := by
      unfold floorAt
      rw [htree.same_block _ _ _ _ hb]
    rw [if_pos hb, bind_some, update_self]
    by_cases hw : w = z
    · subst hw
      rw [if_pos ⟨hb, rfl⟩, update_self, hcall]
      rfl
    · rw [if_neg (fun hboth => hw hboth.2), update_of_ne hw, hcall, hsame]
  · rw [if_neg hb, if_neg (fun hboth => hb hboth.1)]
    unfold floorAt
    cases hleaf : getLeaf m.tree.root (u.setWidth 32) (v.setWidth 32) with
    | none => rfl
    | some leaf =>
      have hne : leaf ≠ (getOrCreateLeaf x y m.tree).2 := by
        rintro rfl
        rcases htree.leaf_call x y with ⟨hfound, -⟩ | ⟨-, hfresh, -⟩
        · exact hb (htree.same_leaf _ _ _ _ _ hleaf hfound)
        · exact absurd (htree.numbered _ _ _ hleaf) (hfresh ▸ Nat.lt_irrefl _)
      rw [bind_some, bind_some, update_of_ne hne]

/-! ## The walk -/

/-- The coordinates of a subtree are those of its base from bit `n` on. -/
def Agree (n : Nat) (x base : BitVec 32) : Prop := ∀ i, n ≤ i → i < 16 → x.getLsbD i = base.getLsbD i

/-- Nothing is set below bit `n` yet. -/
def Clear (n : Nat) (base : BitVec 32) : Prop := ∀ i < n, base.getLsbD i = false

def nextBase (n : Nat) (b : Bool) (base : BitVec 32) : BitVec 32 := base ||| if b then 1#32 <<< n else 0

variable {n : Nat} {b : Block}

theorem nextBase_bit (hn : n < 32) (b : Bool) (base : BitVec 32) (i : Nat) :
    (nextBase n b base).getLsbD i = (base.getLsbD i || (b && decide (n = i))) := by
  unfold nextBase
  rw [getLsbD_or]
  cases b with
  | false => simp
  | true =>
    rw [if_pos rfl, Bool.true_and, ← twoPow_eq, getLsbD_twoPow]
    simp [hn]

theorem clear_next (hn : n < 32) (b : Bool) {base : BitVec 32} (hclear : Clear (n + 1) base) :
    Clear n (nextBase n b base) := by
  intro i hi
  rw [nextBase_bit hn, hclear i (by omega), decide_eq_false (by omega), Bool.and_false, Bool.or_false]

theorem agree_next (hn : n < 16) {b : Bool} {x base : BitVec 32} (hclear : Clear (n + 1) base) :
    Agree n x (nextBase n b base) ↔ Agree (n + 1) x base ∧ x.getLsbD n = b := by
  have hhigh : ∀ i, n + 1 ≤ i → (nextBase n b base).getLsbD i = base.getLsbD i := by
    intro i hi
    rw [nextBase_bit (by omega), decide_eq_false (by omega), Bool.and_false, Bool.or_false]
  have hlow : (nextBase n b base).getLsbD n = b := by
    rw [nextBase_bit (by omega), hclear n (Nat.lt_succ_self n), decide_eq_true rfl, Bool.and_true, Bool.false_or]
  constructor
  · intro h
    refine ⟨fun i hi hi' => ?_, (h n (Nat.le_refl n) hn).trans hlow⟩
    rw [h i (by omega) hi', hhigh i hi]
  · rintro ⟨h, hbit⟩ i hi hi'
    rcases Nat.eq_or_lt_of_le hi with rfl | hi
    · rw [hbit, hlow]
    · rw [h i hi hi', hhigh i hi]

theorem agree_block {x y x' y' : BitVec 32} (hx : Agree 3 x x') (hy : Agree 3 y y') : block x y = block x' y' := by
  have hbits : ∀ {v v' : BitVec 32}, Agree 3 v v' → ∀ i < 13, (v <<< i).getLsbD 15 = (v' <<< i).getLsbD 15 := by
    intro v v' hv i hi
    rw [getLsbD_shiftLeft, getLsbD_shiftLeft, hv (15 - i) (by omega) (by omega)]
  rw [block, block, Prod.mk.injEq]
  exact ⟨block_bits.mpr (hbits hx), block_bits.mpr (hbits hy)⟩

theorem getLeaf_child (hn : n + 1 ≤ 13) (child : Fin 4 → QTreeNode) (x y : BitVec 32) {i : Fin 4}
    (hx : x.getLsbD (n + 3) = i.val.testBit 0) (hy : y.getLsbD (n + 3) = i.val.testBit 1) :
    getLeaf (.node child) (x <<< (13 - (n + 1))) (y <<< (13 - (n + 1))) =
      getLeaf (child i) (x <<< (13 - n)) (y <<< (13 - n)) := by
  have hshift : ∀ v : BitVec 32, v <<< (13 - (n + 1)) <<< 1 = v <<< (13 - n) := by
    intro v
    rw [← BitVec.shiftLeft_add, show 13 - (n + 1) + 1 = 13 - n by omega]
  have hbit : ∀ v : BitVec 32, (v <<< (13 - (n + 1))).getLsbD 15 = v.getLsbD (n + 3) := by
    intro v
    have hlow : ¬ 15 < 13 - (n + 1) := by omega
    rw [getLsbD_shiftLeft, decide_eq_true (show 15 < 32 by decide), decide_eq_false hlow, Bool.not_false,
      Bool.true_and, Bool.true_and, show 15 - (13 - (n + 1)) = n + 3 by omega]
  have hindex : childIndex (x <<< (13 - (n + 1))) (y <<< (13 - (n + 1))) = i := by
    have hval : ∀ i : Fin 4, (i.val.testBit 0).toNat + 2 * (i.val.testBit 1).toNat = i.val := by decide
    rw [Fin.ext_iff, childIndex_val, hbit, hbit, hx, hy, hval]
  show getLeaf (child (childIndex _ _)) _ _ = _
  rw [hindex, hshift, hshift]

theorem mem_leafBlocks {leaf : LeafId} {x y : BitVec 32} :
    b ∈ m.leafBlocks leaf x y ↔ ∃ z floor, m.array leaf z = some floor ∧ hasCachedTile floor = true ∧
      b = ⟨x.setWidth 16, y.setWidth 16, BitVec.ofNat 8 z.val, floor⟩ := by
  unfold leafBlocks
  rw [mem_filterMap]
  constructor
  · rintro ⟨z, -, hz⟩
    split at hz
    · cases hz
    next floor hfloor =>
    split at hz
    · next hid => exact ⟨z, floor, hfloor, hid, (Option.some.inj hz).symm⟩
    · cases hz
  · rintro ⟨z, floor, hfloor, hid, rfl⟩
    refine ⟨z, mem_finRange z, ?_⟩
    rw [hfloor]
    exact if_pos hid

theorem walk_sound (hn : n ≤ 13) {t : QTreeNode} (h : t = .empty ∨ Trie.Deep n t) {baseX baseY : BitVec 32}
    (hx : Clear (n + 3) baseX) (hy : Clear (n + 3) baseY) (hb : b ∈ m.walk t (n + 2) baseX baseY) :
    ∃ x y leaf z floor, Agree (n + 3) x baseX ∧ Agree (n + 3) y baseY ∧
      getLeaf t (x <<< (13 - n)) (y <<< (13 - n)) = some leaf ∧ m.array leaf z = some floor ∧
      b = ⟨x.setWidth 16, y.setWidth 16, BitVec.ofNat 8 z.val, floor⟩ := by
  induction n generalizing t baseX baseY with
  | zero =>
    rcases h with rfl | ⟨leaf, rfl⟩
    · cases hb
    · obtain ⟨z, floor, hfloor, -, rfl⟩ := mem_leafBlocks.mp hb
      exact ⟨baseX, baseY, leaf, z, floor, fun _ _ _ => rfl, fun _ _ _ => rfl, rfl, hfloor, rfl⟩
  | succ n ih =>
    rcases h with rfl | ⟨child, rfl, hchild⟩
    · cases hb
    obtain ⟨i, -, hb⟩ := mem_flatMap.mp hb
    obtain ⟨x, y, leaf, z, floor, hax, hay, hleaf, hfloor, rfl⟩ := ih (by omega) (hchild i)
      (clear_next (by omega) (i.val.testBit 0) hx) (clear_next (by omega) (i.val.testBit 1) hy) hb
    obtain ⟨hax, hbx⟩ := (agree_next (by omega) hx).mp hax
    obtain ⟨hay, hby⟩ := (agree_next (by omega) hy).mp hay
    exact ⟨x, y, leaf, z, floor, hax, hay, (getLeaf_child hn child x y hbx hby).trans hleaf, hfloor, rfl⟩

theorem walk_complete (hn : n ≤ 13) {t : QTreeNode} (h : t = .empty ∨ Trie.Deep n t) {baseX baseY : BitVec 32}
    (hx : Clear (n + 3) baseX) (hy : Clear (n + 3) baseY) {x y : BitVec 32} (hax : Agree (n + 3) x baseX)
    (hay : Agree (n + 3) y baseY) {leaf : LeafId} {z : Fin 16} {floor : Floor}
    (hleaf : getLeaf t (x <<< (13 - n)) (y <<< (13 - n)) = some leaf) (hfloor : m.array leaf z = some floor)
    (hid : hasCachedTile floor = true) :
    ∃ b ∈ m.walk t (n + 2) baseX baseY, b.z = BitVec.ofNat 8 z.val ∧ b.ids = floor ∧
      ∃ x' y', b.x = BitVec.setWidth 16 x' ∧ b.y = BitVec.setWidth 16 y' ∧ Agree 3 x x' ∧ Agree 3 y y' := by
  induction n generalizing t baseX baseY with
  | zero =>
    rcases h with rfl | ⟨leaf', rfl⟩
    · cases hleaf
    · cases hleaf
      exact ⟨_, mem_leafBlocks.mpr ⟨z, floor, hfloor, hid, rfl⟩, rfl, rfl, baseX, baseY, rfl, rfl, hax, hay⟩
  | succ n ih =>
    rcases h with rfl | ⟨child, rfl, hchild⟩
    · cases hleaf
    obtain ⟨i, hbx, hby⟩ : ∃ i : Fin 4, x.getLsbD (n + 3) = i.val.testBit 0 ∧ y.getLsbD (n + 3) = i.val.testBit 1 := by
      cases x.getLsbD (n + 3) <;> cases y.getLsbD (n + 3) <;> decide
    rw [getLeaf_child hn child x y hbx hby] at hleaf
    obtain ⟨b, hb, hrest⟩ := ih (by omega) (hchild i) (clear_next (by omega) (i.val.testBit 0) hx)
      (clear_next (by omega) (i.val.testBit 1) hy) ((agree_next (by omega) hx).mpr ⟨hax, hbx⟩)
      ((agree_next (by omega) hy).mpr ⟨hay, hby⟩) hleaf
    exact ⟨b, mem_flatMap.mpr ⟨i, mem_finRange i, hb⟩, hrest⟩

theorem blockOf_setWidth (x y : BitVec 32) : blockOf (x.setWidth 16) (y.setWidth 16) = block x y := by
  have hval : ∀ v : BitVec 32, ((v.setWidth 16).setWidth 32).toNat % 2 ^ 16 = v.toNat % 2 ^ 16 := by
    simp
  rw [blockOf, block, block, hval, hval]

theorem clear_zero (n : Nat) : Clear n 0 := fun _ _ => getLsbD_zero

theorem Sound.floorAt_block (h : Sound m) {x y x' y' : BitVec 16} (hb : blockOf x y = blockOf x' y') (z : Fin 16) :
    m.floorAt x y z = m.floorAt x' y' z := by
  obtain ⟨calls, htree⟩ := h.tree
  unfold floorAt
  rw [htree.same_block _ _ _ _ hb]

theorem Sound.blocks_sound (h : Sound m) (hb : b ∈ m.forEachBasicFloorBlock) :
    ∃ z : Fin 16, b.z = BitVec.ofNat 8 z.val ∧ b.ids = m.floorAt b.x b.y z := by
  obtain ⟨calls, htree⟩ := h.tree
  obtain ⟨x, y, leaf, z, floor, -, -, hleaf, hfloor, rfl⟩ :=
    walk_sound (Nat.le_refl 13) (.inr htree.deep) (clear_zero 16) (clear_zero 16) hb
  refine ⟨z, rfl, ?_⟩
  have hleaf : getLeaf m.tree.root x y = some leaf := by
    have hzero : ∀ v : BitVec 32, v <<< (13 - 13) = v := fun v => BitVec.shiftLeft_zero v
    rwa [hzero, hzero] at hleaf
  unfold floorAt
  rw [htree.same_block _ _ _ _ (blockOf_setWidth x y), hleaf, bind_some, hfloor]
  rfl

theorem Sound.blocks_complete (h : Sound m) {x y : BitVec 16} {z : Fin 16}
    (hid : hasCachedTile (m.floorAt x y z) = true) :
    ∃ b ∈ m.forEachBasicFloorBlock, b.z = BitVec.ofNat 8 z.val ∧ blockOf b.x b.y = blockOf x y := by
  obtain ⟨calls, htree⟩ := h.tree
  have hempty : hasCachedTile emptyFloor = false := by decide
  cases hleaf : getLeaf m.tree.root (x.setWidth 32) (y.setWidth 32) with
  | none =>
    rw [floorAt, hleaf, bind_none, getD_none, hempty] at hid
    cases hid
  | some leaf =>
    cases hfloor : m.array leaf z with
    | none =>
      rw [floorAt, hleaf, bind_some, hfloor, getD_none, hempty] at hid
      cases hid
    | some floor =>
      rw [floorAt, hleaf, bind_some, hfloor, getD_some] at hid
      have hroot : getLeaf m.tree.root (x.setWidth 32 <<< (13 - 13)) (y.setWidth 32 <<< (13 - 13)) = some leaf := by
        rw [Nat.sub_self, BitVec.shiftLeft_zero, BitVec.shiftLeft_zero, hleaf]
      obtain ⟨b, hb, hz, -, x', y', hx, hy, hax, hay⟩ := walk_complete (Nat.le_refl 13) (.inr htree.deep)
        (clear_zero 16) (clear_zero 16) (fun i hi hi' => absurd hi' (by omega)) (fun i hi hi' => absurd hi' (by omega))
        hroot hfloor hid
      refine ⟨b, hb, hz, ?_⟩
      rw [hx, hy, blockOf_setWidth]
      exact (agree_block hax hay).symm

theorem floor_eq_empty {floor : Floor} (h : hasCachedTile floor = false) : floor = emptyFloor := by
  funext x y
  have hx := any_eq_false.mp h x (mem_finRange x)
  have hxy := any_eq_false.mp (Bool.eq_false_iff.mpr hx) y (mem_finRange y)
  exact by_contra fun hne => hxy (decide_eq_true hne)

theorem floorAt_fill (h : Sound m) {bs : List Block}
    (hbs : ∀ b ∈ bs, ∃ z : Fin 16, b.z = BitVec.ofNat 8 z.val ∧ b.ids = m.floorAt b.x b.y z) {m' : BasicMap} (h' : Sound m')
    (x y : BitVec 16) (z : Fin 16) :
    (bs.foldl setBasicFloorBlock m').floorAt x y z = m.floorAt x y z ∨
      (bs.foldl setBasicFloorBlock m').floorAt x y z = m'.floorAt x y z ∧
        ∀ b ∈ bs, ¬(b.z = BitVec.ofNat 8 z.val ∧ blockOf b.x b.y = blockOf x y) := by
  induction bs generalizing m' with
  | nil => exact .inr ⟨rfl, fun b hb => nomatch hb⟩
  | cons b bs ih =>
    obtain ⟨z', hz', hids⟩ := hbs b mem_cons_self
    have hset : m'.setBasicFloorBlock b = m'.changeFloor b.x b.y z' fun _ => b.ids := by
      have hval : b.z.toNat = z'.val := by
        rw [hz', toNat_ofNat, Nat.mod_eq_of_lt (by omega)]
      have hlt : b.z.toNat < 16 := by omega
      rw [setBasicFloorBlock, dif_pos hlt]
      congr 1
      exact Fin.ext hval
    rw [foldl_cons, hset]
    rcases ih (fun b' hb' => hbs b' (mem_cons_of_mem b hb')) (h'.changeFloor b.x b.y z' _) with hsame | ⟨hkept, hnone⟩
    · exact .inl hsame
    rw [hkept, h'.floorAt_changeFloor]
    by_cases hcover : blockOf x y = blockOf b.x b.y ∧ z = z'
    · obtain ⟨hblock, rfl⟩ := hcover
      rw [if_pos ⟨hblock, rfl⟩, hids]
      exact .inl (h.floorAt_block hblock.symm z)
    rw [if_neg hcover]
    refine .inr ⟨rfl, fun b' hb' => ?_⟩
    rcases mem_cons.mp hb' with rfl | hb'
    · rintro ⟨hz, hblock⟩
      refine hcover ⟨hblock.symm, Fin.ext ?_⟩
      have hnat := congrArg BitVec.toNat (hz'.symm.trans hz)
      rw [toNat_ofNat, toNat_ofNat, Nat.mod_eq_of_lt (by omega), Nat.mod_eq_of_lt (by omega)] at hnat
      exact hnat.symm
    · exact hnone b' hb'

theorem Sound.fill_blocks (h : Sound m) {m' : BasicMap} (h' : Sound m') (hempty : ∀ x y z, m'.floorAt x y z = emptyFloor)
    (x y : BitVec 16) (z : Fin 16) :
    (m.forEachBasicFloorBlock.foldl setBasicFloorBlock m').floorAt x y z = m.floorAt x y z := by
  rcases floorAt_fill h (fun b hb => h.blocks_sound hb) h' x y z with hsame | ⟨hkept, hnone⟩
  · exact hsame
  rw [hkept, hempty]
  cases hid : hasCachedTile (m.floorAt x y z) with
  | false => exact (floor_eq_empty hid).symm
  | true =>
    obtain ⟨b, hb, hcover⟩ := h.blocks_complete hid
    exact absurd hcover (hnone b hb)

theorem fill_kept (bs : List Block) (m : BasicMap) :
    (bs.foldl setBasicFloorBlock m).width = m.width ∧ (bs.foldl setBasicFloorBlock m).height = m.height ∧
      (bs.foldl setBasicFloorBlock m).spawnfile = m.spawnfile ∧
      (bs.foldl setBasicFloorBlock m).housefile = m.housefile := by
  induction bs generalizing m with
  | nil => exact ⟨rfl, rfl, rfl, rfl⟩
  | cons b bs ih =>
    obtain ⟨hwidth, hheight, hspawn, hhouse⟩ := ih (m.setBasicFloorBlock b)
    have hset : (m.setBasicFloorBlock b).width = m.width ∧ (m.setBasicFloorBlock b).height = m.height ∧
        (m.setBasicFloorBlock b).spawnfile = m.spawnfile ∧ (m.setBasicFloorBlock b).housefile = m.housefile := by
      unfold setBasicFloorBlock
      split <;> exact ⟨rfl, rfl, rfl, rfl⟩
    exact ⟨hwidth.trans hset.1, hheight.trans hset.2.1, hspawn.trans hset.2.2.1, hhouse.trans hset.2.2.2⟩

theorem Sound.setBasicTile (h : Sound m) (x y : BitVec 16) (z : BitVec 8) (basicTile : Option BasicTile) :
    Sound (m.setBasicTile x y z basicTile) := by
  unfold BasicMap.setBasicTile
  split
  · exact h.changeFloor _ _ _ _
  · exact h

end BasicMap

end Backlands.World
