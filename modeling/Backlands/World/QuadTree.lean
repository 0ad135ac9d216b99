/-
  Backlands.World.QuadTree — the leaves of the map (src/map.cpp).

  The map is a tree with four children to a node. The coordinates are shifted out of a
  32-bit value bit by bit, from bit 15 to bit 3, so a leaf is thirteen nodes down and holds
  a block of 8x8 squares. A leaf is a number here; `leafS` and `leafE` are its links to the
  blocks in the south and the east. `cachedLeaf` is the leaf of the last call.

  Proved: `quadTree_blocks`, after any calls of `getOrCreateLeaf` a block has a leaf exactly
  when one of its squares was asked for, its own and one for all its squares; the cached
  leaf is the one the tree has; and the links are the blocks next to it, modulo 2^16.
-/

import Backlands.Lib.Runs
import Backlands.Lib.Trie
import Mathlib.Data.List.Induction
import Mathlib.Data.Nat.Bitwise

namespace Backlands.World

open Backlands.Lib Function List BitVec

def FLOOR_BITS : Nat := 3

def FLOOR_SIZE : BitVec 32 := 8

def FLOOR_MASK : BitVec 32 := FLOOR_SIZE - 1

abbrev LeafId := Nat

abbrev QTreeNode := Trie (Fin 4) LeafId

/-- `((x & 0x8000) >> 15) | ((y & 0x8000) >> 14)` -/
local instance childCount : NeZero 4 := ⟨by decide⟩

def childIndex (x y : BitVec 32) : Fin 4 :=
  Fin.ofNat 4 (((x &&& 0x8000) >>> 15) ||| ((y &&& 0x8000) >>> 14)).toNat

def getLeaf : QTreeNode → BitVec 32 → BitVec 32 → Option LeafId
  | .leaf id, _, _ => some id
  | .empty, _, _ => none
  | .node child, x, y => getLeaf (child (childIndex x y)) (x <<< 1) (y <<< 1)

def makeChild (fresh : LeafId) (level : Nat) : QTreeNode → QTreeNode
  | .empty => if level ≠ FLOOR_BITS then .node fun _ => .empty else .leaf fresh
  | t => t

/-- The tree, the leaf, and `newLeaf`; `fresh` is the leaf to be made. -/
def createLeaf (fresh : LeafId) : Nat → QTreeNode → BitVec 32 → BitVec 32 → QTreeNode × LeafId × Bool
  | _, .leaf id, _, _ => (.leaf id, id, false)
  -- not reached: a leaf is made at level FLOOR_BITS
  | 0, t, _, _ => (t, fresh, false)
  | _, .empty, _, _ => (.empty, fresh, false)
  | level + 1, .node child, x, y =>
    let index := childIndex x y
    let next := makeChild fresh (level + 1) (child index)
    let (t, id, newLeaf) := createLeaf fresh level next (x * 2) (y * 2)
    let made := (child index).isEmpty && decide (level + 1 = FLOOR_BITS)
    (.node (update child index t), id, made || newLeaf)

structure QuadTree where
  root : QTreeNode := .node fun _ => .empty
  leafS : LeafId → Option LeafId := fun _ => none
  leafE : LeafId → Option LeafId := fun _ => none
  /-- The leaves made so far are the numbers below. -/
  leaves : Nat := 0
  cachedLeaf : Option LeafId := none
  cachedLeafBaseX : BitVec 32 := 0
  cachedLeafBaseY : BitVec 32 := 0

/-- The link of a leaf that is there, set to `target`. -/
def link (links : LeafId → Option LeafId) (leaf : Option LeafId) (target : LeafId) : LeafId → Option LeafId :=
  match leaf with
  | some id => update links id (some target)
  | none => links

def linkTo (links : LeafId → Option LeafId) (leaf : LeafId) (target : Option LeafId) : LeafId → Option LeafId :=
  match target with
  | some id => update links leaf (some id)
  | none => links

def linkLeaf (leaf : LeafId) (x y : BitVec 32) (m : QuadTree) : QuadTree :=
  let m := { m with leafS := link m.leafS (getLeaf m.root x (y - FLOOR_SIZE)) leaf }
  let m := { m with leafE := link m.leafE (getLeaf m.root (x - FLOOR_SIZE) y) leaf }
  let m := { m with leafS := linkTo m.leafS leaf (getLeaf m.root x (y + FLOOR_SIZE)) }
  { m with leafE := linkTo m.leafE leaf (getLeaf m.root (x + FLOOR_SIZE) y) }

/-- The lowest coordinate of the block. -/
def base (x : BitVec 16) : BitVec 32 := x.setWidth 32 &&& ~~~FLOOR_MASK

def cacheLeaf (leaf : LeafId) (baseX baseY : BitVec 32) (m : QuadTree) : QuadTree :=
  { m with cachedLeaf := some leaf, cachedLeafBaseX := baseX, cachedLeafBaseY := baseY }

def getOrCreateLeaf (x y : BitVec 16) (m : QuadTree) : QuadTree × LeafId :=
  let baseX := base x
  let baseY := base y
  match m.cachedLeaf with
  | some leaf => if baseX = m.cachedLeafBaseX ∧ baseY = m.cachedLeafBaseY then (m, leaf) else create baseX baseY
  | none => create baseX baseY
where
  create (baseX baseY : BitVec 32) : QuadTree × LeafId :=
    let made := createLeaf m.leaves 15 m.root (x.setWidth 32) (y.setWidth 32)
    let leaf := made.2.1
    let newLeaf := made.2.2
    let m := { m with root := made.1 }
    let m := if newLeaf then linkLeaf leaf (x.setWidth 32) (y.setWidth 32) { m with leaves := m.leaves + 1 } else m
    (cacheLeaf leaf baseX baseY m, leaf)

/-! ## Keys -/

def block (x y : BitVec 32) : Nat × Nat := (x.toNat % 2 ^ 16 / 8, y.toNat % 2 ^ 16 / 8)

/-- The children on the way to a leaf `n` nodes down. -/
def digits : Nat → BitVec 32 → BitVec 32 → List (Fin 4)
  | 0, _, _ => []
  | n + 1, x, y => childIndex x y :: digits n (x <<< 1) (y <<< 1)

theorem length_digits (n : Nat) (x y : BitVec 32) : (digits n x y).length = n := by
  induction n generalizing x y with
  | zero => rfl
  | succ n ih => rw [digits, length_cons, ih]

theorem digits_eq (n : Nat) (x y : BitVec 32) :
    digits n x y = (List.range n).map fun i => childIndex (x <<< i) (y <<< i) := by
  induction n generalizing x y with
  | zero => rfl
  | succ n ih =>
    rw [digits, ih, range_succ_eq_map, map_cons, map_map]
    have hshift : ∀ (v : BitVec 32) (i : Nat), v <<< 1 <<< i = v <<< (i + 1) := by
      intro v i
      rw [Nat.add_comm, BitVec.shiftLeft_add]
    simp only [hshift, BitVec.shiftLeft_zero]
    rfl

theorem and_bit15 (x : BitVec 32) : (x &&& 0x8000).toNat = (x.getLsbD 15).toNat * 2 ^ 15 := by
  rw [toNat_and]
  show x.toNat &&& 2 ^ 15 = (x.toNat.testBit 15).toNat * 2 ^ 15
  rw [Nat.and_two_pow]

theorem childIndex_val (x y : BitVec 32) :
    (childIndex x y).val = (x.getLsbD 15).toNat + 2 * (y.getLsbD 15).toNat := by
  have hx : ((x &&& 0x8000) >>> 15).toNat = (x.getLsbD 15).toNat := by
    rw [toNat_ushiftRight, and_bit15, Nat.shiftRight_eq_div_pow, Nat.mul_div_cancel _ (by decide)]
  have hy : ((y &&& 0x8000) >>> 14).toNat = 2 * (y.getLsbD 15).toNat := by
    rw [toNat_ushiftRight, and_bit15, Nat.shiftRight_eq_div_pow]
    cases y.getLsbD 15 <;> rfl
  unfold childIndex
  rw [Fin.val_ofNat, toNat_or, hx, hy]
  cases x.getLsbD 15 <;> cases y.getLsbD 15 <;> rfl

theorem childIndex_eq_iff {x y x' y' : BitVec 32} :
    childIndex x y = childIndex x' y' ↔ x.getLsbD 15 = x'.getLsbD 15 ∧ y.getLsbD 15 = y'.getLsbD 15 := by
  rw [Fin.ext_iff, childIndex_val, childIndex_val]
  cases x.getLsbD 15 <;> cases x'.getLsbD 15 <;> cases y.getLsbD 15 <;> cases y'.getLsbD 15 <;> decide

theorem block_bits {x x' : BitVec 32} :
    x.toNat % 2 ^ 16 / 8 = x'.toNat % 2 ^ 16 / 8 ↔ ∀ i < 13, (x <<< i).getLsbD 15 = (x' <<< i).getLsbD 15 := by
  have hbit : ∀ (v : BitVec 32) (j : Nat), (v.toNat % 2 ^ 16 / 8).testBit j = (decide (j < 13) && v.getLsbD (j + 3)) := by
    intro v j
    show (v.toNat % 2 ^ 16 / 2 ^ 3).testBit j = _
    rw [← Nat.shiftRight_eq_div_pow, Nat.testBit_shiftRight, Nat.testBit_mod_two_pow, Nat.add_comm 3 j]
    congr 1
    exact decide_eq_decide.mpr (by omega)
  have hshift : ∀ (v : BitVec 32) (i : Nat), i < 13 → (v <<< i).getLsbD 15 = v.getLsbD (12 - i + 3) := by
    intro v i hi
    rw [getLsbD_shiftLeft, show 15 - i = 12 - i + 3 from by omega]
    have hlow : ¬ 15 < i := by omega
    simp [hlow]
  constructor
  · intro h i hi
    rw [hshift x i hi, hshift x' i hi]
    have hi' : (x.toNat % 2 ^ 16 / 8).testBit (12 - i) = (x'.toNat % 2 ^ 16 / 8).testBit (12 - i) := by rw [h]
    rw [hbit, hbit, decide_eq_true (by omega), Bool.true_and, Bool.true_and] at hi'
    exact hi'
  · intro h
    refine Nat.eq_of_testBit_eq fun j => ?_
    rw [hbit, hbit]
    by_cases hj : j < 13
    · have hj' := h (12 - j) (by omega)
      rw [hshift x _ (by omega), hshift x' _ (by omega), show 12 - (12 - j) = j from by omega] at hj'
      rw [hj']
    · simp [hj]

theorem digits_eq_iff {x y x' y' : BitVec 32} : digits 13 x y = digits 13 x' y' ↔ block x y = block x' y' := by
  rw [digits_eq, digits_eq, map_inj_left, block, block, Prod.mk.injEq, block_bits, block_bits]
  simp only [mem_range, childIndex_eq_iff]
  exact ⟨fun h => ⟨fun i hi => (h i hi).1, fun i hi => (h i hi).2⟩, fun h i hi => ⟨h.1 i hi, h.2 i hi⟩⟩

/-! ## Lookups -/

variable {t : QTreeNode} {n : Nat}

theorem getLeaf_eq_find (h : t = .empty ∨ Trie.Deep n t) (x y : BitVec 32) :
    getLeaf t x y = t.find (digits n x y) := by
  induction n generalizing t x y with
  | zero =>
    rcases h with rfl | ⟨a, rfl⟩
    · rfl
    · rfl
  | succ n ih =>
    rcases h with rfl | ⟨c, rfl, hc⟩
    · rfl
    · show getLeaf (c (childIndex x y)) (x <<< 1) (y <<< 1) = _
      rw [ih (hc _)]
      rfl

theorem makeChild_deep (fresh : LeafId) (level : Nat) (h : Trie.Deep n t) : makeChild fresh level t = t := by
  cases n with
  | zero =>
    obtain ⟨a, rfl⟩ := h
    rfl
  | succ n =>
    obtain ⟨c, rfl, -⟩ := h
    rfl

theorem mul_two (v : BitVec 32) : v * (2 : BitVec 32) = v <<< (1 : Nat) :=
  (shiftLeft_eq_mul_twoPow v 1).symm

theorem createLeaf_eq (fresh : LeafId) (h : Trie.Deep n t) (x y : BitVec 32) :
    createLeaf fresh (n + 2) t x y = t.ensure (digits n x y) fresh := by
  induction n generalizing t x y with
  | zero =>
    obtain ⟨a, rfl⟩ := h
    rfl
  | succ n ih =>
    obtain ⟨c, rfl, hc⟩ := h
    have hfind : (Trie.node c).find (digits (n + 1) x y) =
        (c (childIndex x y)).find (digits n (x <<< 1) (y <<< 1)) := rfl
    unfold createLeaf
    rw [mul_two, mul_two]
    rcases hc (childIndex x y) with hi | hi
    · -- The child is made, as a leaf on the lowest level and as an empty node above it.
      rw [hi, Trie.find_empty] at hfind
      rw [Trie.ensure_of_none hfind]
      show _ = (Trie.node (update c (childIndex x y)
        ((c (childIndex x y)).put (digits n (x <<< 1) (y <<< 1)) fresh)), fresh, true)
      simp only [hi]
      cases n with
      | zero => rfl
      | succ n =>
        have hdeep : Trie.Deep (n + 1) (Trie.node fun _ => Trie.empty : QTreeNode) := ⟨_, rfl, fun _ => .inl rfl⟩
        have hmade : makeChild fresh (n + 3 + 1) .empty = .node fun _ => .empty := by
          rw [makeChild, if_pos (show n + 3 + 1 ≠ FLOOR_BITS from by unfold FLOOR_BITS; omega)]
        have hnone : (Trie.node fun _ => Trie.empty : QTreeNode).find (digits (n + 1) (x <<< 1) (y <<< 1)) = none :=
          Trie.find_empty _
        rw [hmade, ih hdeep, Trie.ensure_of_none hnone]
        rfl
    · dsimp only
      rw [makeChild_deep fresh _ hi, ih hi, Trie.isEmpty_of_deep hi]
      simp only [Bool.false_and, Bool.false_or]
      cases hf : (c (childIndex x y)).find (digits n (x <<< 1) (y <<< 1)) with
      | some id =>
        rw [Trie.ensure_of_some hf, Trie.ensure_of_some (hfind.trans hf)]
        simp only [update_eq_self]
      | none =>
        rw [Trie.ensure_of_none hf, Trie.ensure_of_none (hfind.trans hf)]
        rfl

/-! ## Blocks -/

theorem block_south (x y : BitVec 32) : block x (y + FLOOR_SIZE) = ((block x y).1, ((block x y).2 + 1) % 2 ^ 13) := by
  have hy : (y + FLOOR_SIZE).toNat = (y.toNat + 8) % 2 ^ 32 := toNat_add y FLOOR_SIZE
  rw [block, block, hy, Prod.mk.injEq]
  exact ⟨rfl, by omega⟩

theorem block_east (x y : BitVec 32) : block (x + FLOOR_SIZE) y = (((block x y).1 + 1) % 2 ^ 13, (block x y).2) := by
  have hx : (x + FLOOR_SIZE).toNat = (x.toNat + 8) % 2 ^ 32 := toNat_add x FLOOR_SIZE
  rw [block, block, hx, Prod.mk.injEq]
  exact ⟨by omega, rfl⟩

theorem block_lt (x y : BitVec 32) : (block x y).1 < 2 ^ 13 ∧ (block x y).2 < 2 ^ 13 := by
  unfold block
  omega

theorem block_base (x : BitVec 16) : (base x).toNat % 2 ^ 16 / 8 = (x.setWidth 32).toNat % 2 ^ 16 / 8 := by
  have hx : (x.setWidth 32).toNat < 2 ^ 16 := by
    exact x.isLt
  have hle : (base x).toNat ≤ (x.setWidth 32).toNat := by
    exact Nat.and_le_left
  rw [Nat.mod_eq_of_lt (by omega), Nat.mod_eq_of_lt hx, base, toNat_and]
  show ((x.setWidth 32).toNat &&& (2 ^ 32 - 8)) / 2 ^ 3 = (x.setWidth 32).toNat / 2 ^ 3
  rw [Nat.and_div_two_pow]
  show (x.setWidth 32).toNat / 2 ^ 3 &&& 2 ^ 29 - 1 = _
  rw [Nat.and_two_pow_sub_one_eq_mod]
  omega

theorem block_of_base {x y x' y' : BitVec 16} (hx : base x = base x') (hy : base y = base y') :
    block (x.setWidth 32) (y.setWidth 32) = block (x'.setWidth 32) (y'.setWidth 32) := by
  rw [block, block, ← block_base x, ← block_base y, hx, hy, block_base, block_base]

/-! ## Links -/

section Links

variable {P K : Type*} [DecidableEq K] {next : P → P}

def Linked (leafAt : P → Option LeafId) (next : P → P) (links : LeafId → Option LeafId) : Prop :=
  ∀ p id, leafAt p = some id → links id = leafAt (next p)

variable {links : LeafId → Option LeafId}

theorem link_of_ne {leaf : Option LeafId} {target id : LeafId} (h : leaf ≠ some id) :
    link links leaf target id = links id := by
  cases leaf with
  | none => rfl
  | some l => exact update_of_ne (fun heq => h (congrArg some heq.symm)) _ _

theorem linkTo_of_ne {leaf id : LeafId} {target : Option LeafId} (h : id ≠ leaf) :
    linkTo links leaf target id = links id := by
  cases target with
  | none => rfl
  | some t => exact update_of_ne h _ _

theorem linkTo_self {leaf : LeafId} {target : Option LeafId} (h : links leaf = none) :
    linkTo links leaf target leaf = target := by
  cases target with
  | none => exact h
  | some t => exact update_self _ _ _

theorem Linked.add (key : P → K) (prev : P → P) (new : P) {leafAt leafAt' : P → Option LeafId}
    (h : Linked leafAt next links) (hkey : ∀ p q, key p = key q → leafAt p = leafAt q)
    (hown : ∀ p q id, leafAt p = some id → leafAt q = some id → key p = key q)
    (hnext : ∀ p q, key (next p) = key q ↔ key p = key (prev q))
    (hcongr : ∀ p q, key p = key q → key (next p) = key (next q)) (hself : ∀ p, key (next p) ≠ key p) {fresh : LeafId}
    (hfresh : ∀ p, leafAt p ≠ some fresh) (hunlinked : links fresh = none)
    (hnew : ∀ p, leafAt' p = if key p = key new then some fresh else leafAt p) :
    Linked leafAt' next (linkTo (link links (leafAt' (prev new)) fresh) fresh (leafAt' (next new))) := by
  have hprev : leafAt' (prev new) = leafAt (prev new) := by
    rw [hnew, if_neg]
    intro heq
    exact hself new ((hnext new new).mpr heq.symm)
  have hkey' : ∀ p q, key p = key q → leafAt' p = leafAt' q := by
    intro p q hpq
    rw [hnew, hnew, hpq, hkey p q hpq]
  intro p id hp
  rw [hnew] at hp
  by_cases hpn : key p = key new
  · obtain rfl : fresh = id := by simpa [hpn] using hp
    rw [linkTo_self, hkey' _ _ (hcongr p new hpn)]
    rw [hprev, link_of_ne (hfresh _), hunlinked]
  rw [if_neg hpn] at hp
  have hid : id ≠ fresh := fun heq => hfresh p (heq ▸ hp)
  rw [linkTo_of_ne hid, hprev]
  by_cases hlast : leafAt (prev new) = some id
  · have hat : key (next p) = key new := (hnext p new).mpr (hown p (prev new) id hp hlast)
    rw [hlast, hnew, if_pos hat]
    exact update_self _ _ _
  · rw [link_of_ne hlast, h p id hp, hnew, if_neg]
    intro hat
    exact hlast ((hkey _ _ ((hnext p new).mp hat)).symm.trans hp)

end Links

/-! ## Calls -/

def square (c : BitVec 16 × BitVec 16) : BitVec 32 × BitVec 32 := (c.1.setWidth 32, c.2.setWidth 32)

def afterCalls (calls : List (BitVec 16 × BitVec 16)) : QuadTree :=
  run (fun m c => (getOrCreateLeaf c.1 c.2 m).1) {} calls

/-- What the tree, the cache and the links are after `calls`. -/
structure Blocks (m : QuadTree) (calls : List (BitVec 16 × BitVec 16)) : Prop where
  created : ∀ x y, (getLeaf m.root x y).isSome ↔ ∃ c ∈ calls, block (square c).1 (square c).2 = block x y
  same_block : ∀ x y x' y', block x y = block x' y' → getLeaf m.root x y = getLeaf m.root x' y'
  same_leaf : ∀ x y x' y' id, getLeaf m.root x y = some id → getLeaf m.root x' y' = some id → block x y = block x' y'
  cached_base : ∀ id, m.cachedLeaf = some id → getLeaf m.root m.cachedLeafBaseX m.cachedLeafBaseY = some id
  cached : ∀ id x y, m.cachedLeaf = some id → base x = m.cachedLeafBaseX → base y = m.cachedLeafBaseY →
    getLeaf m.root (x.setWidth 32) (y.setWidth 32) = some id
  south : ∀ x y id, getLeaf m.root x y = some id → m.leafS id = getLeaf m.root x (y + FLOOR_SIZE)
  east : ∀ x y id, getLeaf m.root x y = some id → m.leafE id = getLeaf m.root (x + FLOOR_SIZE) y

/-- What a call of `getOrCreateLeaf` relies on besides. -/
structure Inv (m : QuadTree) (calls : List (BitVec 16 × BitVec 16)) : Prop extends Blocks m calls where
  deep : Trie.Deep 13 m.root
  numbered : ∀ x y id, getLeaf m.root x y = some id → id < m.leaves
  unlinked : ∀ id, m.leaves ≤ id → m.leafS id = none ∧ m.leafE id = none

variable {m : QuadTree} {calls : List (BitVec 16 × BitVec 16)} {leaf : LeafId} {c : BitVec 16 × BitVec 16}

theorem inv_start : Inv {} [] where
  created x y := by
    have hnone : getLeaf (.node fun _ => .empty) x y = none := rfl
    simp [hnone]
  same_block _ _ _ _ _ := rfl
  same_leaf _ _ _ _ _ h := nomatch h
  cached_base _ h := nomatch h
  cached _ _ _ h := nomatch h
  south _ _ _ h := nomatch h
  east _ _ _ h := nomatch h
  deep := ⟨_, rfl, fun _ => .inl rfl⟩
  numbered _ _ _ h := nomatch h
  unlinked _ _ := ⟨rfl, rfl⟩

theorem Inv.cache (h : Inv m calls) {x y : BitVec 16}
    (hleaf : getLeaf m.root (x.setWidth 32) (y.setWidth 32) = some leaf) :
    Inv (cacheLeaf leaf (base x) (base y) m) calls where
  toBlocks := { h.toBlocks with
    cached_base := by
      rintro id ⟨⟩
      have hbase : block (base x) (base y) = block (x.setWidth 32) (y.setWidth 32) := by
        rw [block, block, block_base, block_base]
      exact (h.same_block _ _ _ _ hbase).trans hleaf
    cached := by
      rintro id x' y' ⟨⟩ hx hy
      exact (h.same_block _ _ _ _ (block_of_base hx hy)).trans hleaf }
  deep := h.deep
  numbered := h.numbered
  unlinked := h.unlinked

theorem Inv.again (h : Inv m calls) (hleaf : getLeaf m.root (square c).1 (square c).2 = some leaf) :
    Inv m (calls ++ [c]) where
  toBlocks := { h.toBlocks with
    created := by
      intro x y
      rw [h.created]
      constructor
      · rintro ⟨d, hd, hblock⟩
        exact ⟨d, mem_append_left _ hd, hblock⟩
      rintro ⟨d, hd, hblock⟩
      rcases mem_append.mp hd with hd | hd
      · exact ⟨d, hd, hblock⟩
      · obtain rfl := mem_singleton.mp hd
        obtain ⟨d', hd', hblock'⟩ := (h.created _ _).mp (Option.isSome_iff_exists.mpr ⟨leaf, hleaf⟩)
        exact ⟨d', hd', hblock'.trans hblock⟩ }
  deep := h.deep
  numbered := h.numbered
  unlinked := h.unlinked

theorem block_south_ne (x y : BitVec 32) : block x (y + FLOOR_SIZE) ≠ block x y := by
  have hlt := block_lt x y
  rw [block_south, Ne, Prod.ext_iff]
  dsimp only
  omega

theorem block_east_ne (x y : BitVec 32) : block (x + FLOOR_SIZE) y ≠ block x y := by
  have hlt := block_lt x y
  rw [block_east, Ne, Prod.ext_iff]
  dsimp only
  omega

theorem south_iff (p q : BitVec 32 × BitVec 32) :
    block p.1 (p.2 + FLOOR_SIZE) = block q.1 q.2 ↔ block p.1 p.2 = block q.1 (q.2 - FLOOR_SIZE) := by
  have hq := block_south q.1 (q.2 - FLOOR_SIZE)
  rw [BitVec.sub_add_cancel] at hq
  have hp := block_lt p.1 p.2
  have hq' := block_lt q.1 (q.2 - FLOOR_SIZE)
  rw [block_south, hq, Prod.ext_iff, Prod.ext_iff]
  omega

theorem east_iff (p q : BitVec 32 × BitVec 32) :
    block (p.1 + FLOOR_SIZE) p.2 = block q.1 q.2 ↔ block p.1 p.2 = block (q.1 - FLOOR_SIZE) q.2 := by
  have hq := block_east (q.1 - FLOOR_SIZE) q.2
  rw [BitVec.sub_add_cancel] at hq
  have hp := block_lt p.1 p.2
  have hq' := block_lt (q.1 - FLOOR_SIZE) q.2
  rw [block_east, hq, Prod.ext_iff, Prod.ext_iff]
  omega

theorem getLeaf_put (h : Trie.Deep 13 t) (id : LeafId) (x y u v : BitVec 32) :
    getLeaf (t.put (digits 13 x y) id) u v = if block u v = block x y then some id else getLeaf t u v := by
  have hdeep := Trie.deep_put (length_digits 13 x y) id (.inr h)
  rw [getLeaf_eq_find (.inr hdeep), getLeaf_eq_find (.inr h),
    Trie.find_put (length_digits 13 x y) (length_digits 13 u v) id (.inr h)]
  simp only [digits_eq_iff]

/-- The state after a leaf is made for a square. -/
def makeLeaf (x y : BitVec 32) (m : QuadTree) : QuadTree :=
  linkLeaf m.leaves x y { m with root := m.root.put (digits 13 x y) m.leaves, leaves := m.leaves + 1 }

theorem Inv.make (h : Inv m calls) (hnone : getLeaf m.root (square c).1 (square c).2 = none) :
    Inv (makeLeaf (square c).1 (square c).2 m) (calls ++ [c]) := by
  have hput : ∀ u v, getLeaf (makeLeaf (square c).1 (square c).2 m).root u v =
      if block u v = block (square c).1 (square c).2 then some m.leaves else getLeaf m.root u v :=
    getLeaf_put h.deep m.leaves _ _
  have hold : ∀ u v id, getLeaf m.root u v = some id →
      getLeaf (makeLeaf (square c).1 (square c).2 m).root u v = some id := by
    intro u v id hid
    rw [hput, if_neg, hid]
    intro heq
    rw [h.same_block _ _ _ _ heq, hnone] at hid
    cases hid
  have hfresh : ∀ p : BitVec 32 × BitVec 32, getLeaf m.root p.1 p.2 ≠ some m.leaves := by
    intro p hp
    exact absurd (h.numbered _ _ _ hp) (lt_irrefl _)
  have hunlinked := h.unlinked m.leaves le_rfl
  have hnumbered : ∀ x y id, getLeaf (makeLeaf (square c).1 (square c).2 m).root x y = some id → id < m.leaves + 1 := by
    intro x y id hid
    rw [hput] at hid
    split at hid
    · obtain rfl := Option.some.inj hid
      exact Nat.lt_succ_self _
    · exact Nat.lt_succ_of_lt (h.numbered x y id hid)
  refine ⟨⟨?created, ?same_block, ?same_leaf, ?cached_base, ?cached, ?south, ?east⟩, ?deep, ?numbered, ?unlinked⟩
  case created =>
    intro x y
    rw [hput]
    constructor
    · intro hsome
      by_cases hb : block x y = block (square c).1 (square c).2
      · exact ⟨c, by simp, hb.symm⟩
      · rw [if_neg hb] at hsome
        obtain ⟨d, hd, hblock⟩ := (h.created x y).mp hsome
        exact ⟨d, mem_append_left _ hd, hblock⟩
    · rintro ⟨d, hd, hblock⟩
      rcases mem_append.mp hd with hd | hd
      · split
        · rfl
        · exact (h.created x y).mpr ⟨d, hd, hblock⟩
      · obtain rfl := mem_singleton.mp hd
        rw [if_pos hblock.symm]
        rfl
  case same_block =>
    intro x y x' y' hblock
    rw [hput, hput, hblock, h.same_block x y x' y' hblock]
  case same_leaf =>
    intro x y x' y' id hid hid'
    rw [hput] at hid hid'
    split at hid <;> split at hid'
    case isTrue.isTrue hb hb' => exact hb.trans hb'.symm
    case isTrue.isFalse hb hb' => exact absurd (hid'.trans hid.symm) (hfresh (x', y'))
    case isFalse.isTrue hb hb' => exact absurd (hid.trans hid'.symm) (hfresh (x, y))
    case isFalse.isFalse hb hb' => exact h.same_leaf x y x' y' id hid hid'
  case cached_base =>
    intro id hid
    exact hold _ _ _ (h.cached_base id hid)
  case cached =>
    intro id x y hid hx hy
    exact hold _ _ _ (h.cached id x y hid hx hy)
  case south =>
    have hlinked : Linked (fun p : BitVec 32 × BitVec 32 => getLeaf m.root p.1 p.2) (fun p => (p.1, p.2 + FLOOR_SIZE)) m.leafS :=
      fun p id hp => h.south p.1 p.2 id hp
    have hadd := hlinked.add (fun p => block p.1 p.2) (fun p => (p.1, p.2 - FLOOR_SIZE)) (square c)
      (fun p q hpq => h.same_block _ _ _ _ hpq) (fun p q id hp hq => h.same_leaf _ _ _ _ id hp hq) south_iff
      (fun p q hpq => by rw [block_south, block_south, hpq]) (fun p => block_south_ne p.1 p.2) hfresh hunlinked.1 (fun p => hput p.1 p.2)
    exact fun x y id hid => hadd (x, y) id hid
  case east =>
    have hlinked : Linked (fun p : BitVec 32 × BitVec 32 => getLeaf m.root p.1 p.2) (fun p => (p.1 + FLOOR_SIZE, p.2)) m.leafE :=
      fun p id hp => h.east p.1 p.2 id hp
    have hadd := hlinked.add (fun p => block p.1 p.2) (fun p => (p.1 - FLOOR_SIZE, p.2)) (square c)
      (fun p q hpq => h.same_block _ _ _ _ hpq) (fun p q id hp hq => h.same_leaf _ _ _ _ id hp hq) east_iff
      (fun p q hpq => by rw [block_east, block_east, hpq]) (fun p => block_east_ne p.1 p.2) hfresh hunlinked.2 (fun p => hput p.1 p.2)
    exact fun x y id hid => hadd (x, y) id hid
  case deep => exact Trie.deep_put (length_digits 13 _ _) m.leaves (.inr h.deep)
  case numbered => exact hnumbered
  case unlinked =>
    intro id hid
    have hquiet := h.unlinked id (Nat.le_of_lt hid)
    have hfar : ∀ x y, getLeaf (makeLeaf (square c).1 (square c).2 m).root x y ≠ some id := by
      intro x y hxy
      exact absurd (hnumbered x y id hxy) (Nat.not_lt_of_le hid)
    constructor
    · exact (linkTo_of_ne (Nat.ne_of_gt hid)).trans ((link_of_ne (hfar _ _)).trans hquiet.1)
    · exact (linkTo_of_ne (Nat.ne_of_gt hid)).trans ((link_of_ne (hfar _ _)).trans hquiet.2)

theorem create_found (h : Trie.Deep 13 m.root) (hleaf : getLeaf m.root (square c).1 (square c).2 = some leaf)
    (baseX baseY : BitVec 32) :
    getOrCreateLeaf.create c.1 c.2 m baseX baseY = (cacheLeaf leaf baseX baseY m, leaf) := by
  have hcreate := createLeaf_eq m.leaves h (square c).1 (square c).2
  rw [getLeaf_eq_find (.inr h)] at hleaf
  rw [Trie.ensure_of_some hleaf] at hcreate
  unfold getOrCreateLeaf.create
  have hcreate' : createLeaf m.leaves 15 m.root (c.1.setWidth 32) (c.2.setWidth 32) = (m.root, leaf, false) := hcreate
  rw [hcreate']
  rfl

theorem create_made (h : Trie.Deep 13 m.root) (hnone : getLeaf m.root (square c).1 (square c).2 = none)
    (baseX baseY : BitVec 32) :
    getOrCreateLeaf.create c.1 c.2 m baseX baseY =
      (cacheLeaf m.leaves baseX baseY (makeLeaf (square c).1 (square c).2 m), m.leaves) := by
  have hcreate := createLeaf_eq m.leaves h (square c).1 (square c).2
  rw [getLeaf_eq_find (.inr h)] at hnone
  rw [Trie.ensure_of_none hnone] at hcreate
  unfold getOrCreateLeaf.create
  have hcreate' : createLeaf m.leaves 15 m.root (c.1.setWidth 32) (c.2.setWidth 32) =
      (m.root.put (digits 13 (square c).1 (square c).2) m.leaves, m.leaves, true) := hcreate
  rw [hcreate']
  rfl

theorem getOrCreateLeaf_cases (x y : BitVec 16) (m : QuadTree) :
    (∃ leaf, m.cachedLeaf = some leaf ∧ base x = m.cachedLeafBaseX ∧ base y = m.cachedLeafBaseY ∧
        getOrCreateLeaf x y m = (m, leaf)) ∨
      getOrCreateLeaf x y m = getOrCreateLeaf.create x y m (base x) (base y) := by
  unfold getOrCreateLeaf
  cases hc : m.cachedLeaf with
  | none => exact .inr rfl
  | some leaf =>
    by_cases hb : base x = m.cachedLeafBaseX ∧ base y = m.cachedLeafBaseY
    · exact .inl ⟨leaf, rfl, hb.1, hb.2, if_pos hb⟩
    · exact .inr (if_neg hb)

theorem Inv.call (h : Inv m calls) (c : BitVec 16 × BitVec 16) :
    Inv (getOrCreateLeaf c.1 c.2 m).1 (calls ++ [c]) ∧
      getLeaf (getOrCreateLeaf c.1 c.2 m).1.root (square c).1 (square c).2 = some (getOrCreateLeaf c.1 c.2 m).2 := by
  rcases getOrCreateLeaf_cases c.1 c.2 m with ⟨leaf, hcached, hx, hy, heq⟩ | heq
  · have hleaf := h.cached leaf c.1 c.2 hcached hx hy
    rw [heq]
    exact ⟨h.again hleaf, hleaf⟩
  rw [heq]
  cases hleaf : getLeaf m.root (square c).1 (square c).2 with
  | some leaf =>
    rw [create_found h.deep hleaf]
    exact ⟨(h.again hleaf).cache hleaf, hleaf⟩
  | none =>
    rw [create_made h.deep hleaf]
    have hmade : getLeaf (makeLeaf (square c).1 (square c).2 m).root (square c).1 (square c).2 = some m.leaves :=
      (getLeaf_put h.deep m.leaves _ _ _ _).trans (if_pos rfl)
    exact ⟨(h.make hleaf).cache hmade, hmade⟩

theorem Inv.getLeaf_call (h : Inv m calls) (x y : BitVec 16) (u v : BitVec 32) :
    getLeaf (getOrCreateLeaf x y m).1.root u v =
      if block u v = block (x.setWidth 32) (y.setWidth 32) then some (getOrCreateLeaf x y m).2 else getLeaf m.root u v := by
  obtain ⟨hinv, hfound⟩ := h.call (x, y)
  by_cases hb : block u v = block (x.setWidth 32) (y.setWidth 32)
  · rw [if_pos hb]
    exact (hinv.same_block _ _ _ _ hb).trans hfound
  rw [if_neg hb]
  rcases getOrCreateLeaf_cases x y m with ⟨leaf, -, -, -, heq⟩ | heq
  · rw [heq]
  rw [heq]
  cases hleaf : getLeaf m.root (square (x, y)).1 (square (x, y)).2 with
  | some leaf =>
    rw [create_found h.deep hleaf]
    rfl
  | none =>
    rw [create_made h.deep hleaf]
    exact (getLeaf_put h.deep m.leaves _ _ _ _).trans (if_neg hb)

theorem Inv.leaf_call (h : Inv m calls) (x y : BitVec 16) :
    getLeaf m.root (x.setWidth 32) (y.setWidth 32) = some (getOrCreateLeaf x y m).2 ∧
        (getOrCreateLeaf x y m).1.leaves = m.leaves ∨
      getLeaf m.root (x.setWidth 32) (y.setWidth 32) = none ∧ (getOrCreateLeaf x y m).2 = m.leaves ∧
        (getOrCreateLeaf x y m).1.leaves = m.leaves + 1 := by
  rcases getOrCreateLeaf_cases x y m with ⟨leaf, hcached, hx, hy, heq⟩ | heq
  · rw [heq]
    exact .inl ⟨h.cached leaf x y hcached hx hy, rfl⟩
  rw [heq]
  cases hleaf : getLeaf m.root (square (x, y)).1 (square (x, y)).2 with
  | some leaf =>
    rw [create_found h.deep hleaf]
    exact .inl ⟨hleaf, rfl⟩
  | none =>
    rw [create_made h.deep hleaf]
    exact .inr ⟨hleaf, rfl, rfl⟩

theorem Inv.leaves_call (h : Inv m calls) (x y : BitVec 16) :
    m.leaves ≤ (getOrCreateLeaf x y m).1.leaves ∧ (getOrCreateLeaf x y m).2 < (getOrCreateLeaf x y m).1.leaves := by
  rcases h.leaf_call x y with ⟨hleaf, heq⟩ | ⟨-, hleaf, heq⟩
  · rw [heq]
    exact ⟨le_rfl, h.numbered _ _ _ hleaf⟩
  · rw [heq, hleaf]
    exact ⟨Nat.le_succ _, Nat.lt_succ_self _⟩

theorem inv_afterCalls (calls : List (BitVec 16 × BitVec 16)) : Inv (afterCalls calls) calls := by
  induction calls using reverseRec with
  | nil => exact inv_start
  | append_singleton calls c ih =>
    rw [afterCalls, run_append]
    exact (ih.call c).1

/-- After any calls, in any order and at any coordinates. -/
theorem quadTree_blocks (calls : List (BitVec 16 × BitVec 16)) :
    Blocks (afterCalls calls) calls ∧ ∀ c : BitVec 16 × BitVec 16,
      getLeaf (afterCalls (calls ++ [c])).root (square c).1 (square c).2 =
        some (getOrCreateLeaf c.1 c.2 (afterCalls calls)).2 := by
  refine ⟨(inv_afterCalls calls).toBlocks, fun c => ?_⟩
  rw [afterCalls, run_append]
  exact ((inv_afterCalls calls).call c).2

end Backlands.World
