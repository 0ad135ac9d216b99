/-
  Backlands.World.Spectators — the creatures around a square (src/map.cpp).

  A leaf of the tree lists the creatures that stand in its block, and the players among them
  again. A search walks the blocks that can hold a square of the box, from leaf to leaf along
  the links to the south and the east; where a leaf is missing it looks the next one up from
  the root. The int32 sums wrap here; in the source an overflow is undefined.

  A creature is a number, and stands somewhere while a tile of the map has it. What a caller
  can do: make leaves, place a creature that stands nowhere, move one, take one away, set the
  `removed` flag. The tile a creature is placed on or moved to is one of the map, so its leaf
  is there.

  Proved: `getSpectators_eq_filter`, in every state reached, where no sum overflows, a search
  returns each creature of the kind that stands in the rectangle of its floor, once, and
  nothing else. `range_overflows` is a search up to 2^31 - 1 squares to the east that does not
  find the creature at its centre.
-/

import Backlands.World.QuadTree
import Backlands.Lib.Buckets
import Mathlib.Data.List.Nodup

namespace Backlands.World

open Backlands.Lib Function List Bool BitVec

abbrev CreatureId := Nat

inductive CreatureType_t where
  | CREATURETYPE_PLAYER
  | CREATURETYPE_MONSTER
  | CREATURETYPE_NPC
  | CREATURETYPE_SUMMON_OWN
  | CREATURETYPE_SUMMON_OTHERS
  deriving DecidableEq

structure Position where
  x : BitVec 16
  y : BitVec 16
  z : BitVec 8
  deriving DecidableEq

def MAP_MAX_LAYERS : Int := 16

def maxViewportX : Int := 13

def maxViewportY : Int := 11

def leafAt (t : QuadTree) (p : Position) : Option LeafId := getLeaf t.root (p.x.setWidth 32) (p.y.setWidth 32)

structure CreatureMap where
  tree : QuadTree := {}
  creature_list : LeafId → List CreatureId := fun _ => []
  player_list : LeafId → List CreatureId := fun _ => []
  /-- Where a creature stands. -/
  position : CreatureId → Option Position := fun _ => none
  removed : CreatureId → Bool := fun _ => false

namespace CreatureMap

variable (type : CreatureId → CreatureType_t)

def isPlayer (c : CreatureId) : Bool := decide (type c = .CREATURETYPE_PLAYER)

def isMonster (c : CreatureId) : Bool := decide (type c = .CREATURETYPE_MONSTER)

def isNpc (c : CreatureId) : Bool := decide (type c = .CREATURETYPE_NPC)

/-! ## Creatures of a leaf -/

/-- `QTreeLeafNode::addCreature` -/
def addCreature (leaf : LeafId) (c : CreatureId) (m : CreatureMap) : CreatureMap :=
  { m with
    creature_list := update m.creature_list leaf (m.creature_list leaf ++ [c])
    player_list :=
      if isPlayer type c then update m.player_list leaf (m.player_list leaf ++ [c]) else m.player_list }

/-- `QTreeLeafNode::removeCreature` -/
def removeCreature (leaf : LeafId) (c : CreatureId) (m : CreatureMap) : CreatureMap :=
  { m with
    creature_list := update m.creature_list leaf (Buckets.swapPop c (m.creature_list leaf))
    player_list :=
      if isPlayer type c then update m.player_list leaf (Buckets.swapPop c (m.player_list leaf))
      else m.player_list }

def onLeaf (f : LeafId → CreatureMap → CreatureMap) (leaf : Option LeafId) (m : CreatureMap) : CreatureMap :=
  match leaf with
  | some leaf => f leaf m
  | none => m

def setPosition (c : CreatureId) (p : Option Position) (m : CreatureMap) : CreatureMap :=
  { m with position := update m.position c p }

inductive Op where
  | createLeaf (x y : BitVec 16)
  /-- The end of `Map::placeCreature`. -/
  | placeCreature (c : CreatureId) (dest : Position)
  | moveCreature (c : CreatureId) (newPos : Position)
  /-- `Tile::removeCreature` -/
  | removeCreature (c : CreatureId)
  | setRemoved (c : CreatureId)

def apply (m : CreatureMap) : Op → CreatureMap
  | .createLeaf x y => { m with tree := (getOrCreateLeaf x y m.tree).1 }
  | .placeCreature c dest =>
    match m.position c with
    | some _ => m
    | none => (onLeaf (fun leaf => addCreature type leaf c) (leafAt m.tree dest) m).setPosition c (some dest)
  | .moveCreature c newPos =>
    match m.position c with
    -- its tile does not have it: ready for elimination
    | none => m
    | some oldPos =>
      let leaf := leafAt m.tree oldPos
      let new_leaf := leafAt m.tree newPos
      let moved :=
        if leaf ≠ new_leaf then
          onLeaf (fun leaf => addCreature type leaf c) new_leaf (onLeaf (fun leaf => removeCreature type leaf c) leaf m)
        else m
      moved.setPosition c (some newPos)
  | .removeCreature c =>
    match m.position c with
    | none => m
    | some p => (onLeaf (fun leaf => removeCreature type leaf c) (leafAt m.tree p) m).setPosition c none
  | .setRemoved c => { m with removed := update m.removed c true }

def Called (m : CreatureMap) : Op → Prop
  | .placeCreature _ dest => (leafAt m.tree dest).isSome
  | .moveCreature _ newPos => (leafAt m.tree newPos).isSome
  | _ => True

end CreatureMap

/-! ## The search -/

structure Query where
  centerPos : Position
  multifloor : Bool := false
  onlyPlayers : Bool := false
  minRangeX : Int := 0
  maxRangeX : Int := 0
  minRangeY : Int := 0
  maxRangeY : Int := 0
  onlyMonsters : Bool := false
  onlyNpcs : Bool := false

namespace Query

def int32 (v : Int) : Int := (v + 2 ^ 31) % 2 ^ 32 - 2 ^ 31

variable (q : Query)

def lower (range viewport : Int) : Int := if range = 0 then -viewport else int32 (-range)

def upper (range viewport : Int) : Int := if range = 0 then viewport else range

def centerX : Int := q.centerPos.x.toNat

def centerY : Int := q.centerPos.y.toNat

def centerZ : Int := q.centerPos.z.toNat

def min_x : Int := int32 (q.centerX + lower q.minRangeX maxViewportX)

def max_x : Int := int32 (q.centerX + upper q.maxRangeX maxViewportX)

def min_y : Int := int32 (q.centerY + lower q.minRangeY maxViewportY)

def max_y : Int := int32 (q.centerY + upper q.maxRangeY maxViewportY)

def minRangeZ : Int := if q.multifloor then max (q.centerZ - 2) 0 else q.centerZ

def maxRangeZ : Int :=
  if q.multifloor then
    if q.centerZ > 7 then min (q.centerZ + 2) (MAP_MAX_LAYERS - 1) else min (q.centerZ + 2) 7
  else q.centerZ

/-- `static_cast<uint16_t>(std::min<uint32_t>(0xFFFF, std::max<int32_t>(0, v)))` -/
def clamp (v : Int) : Nat := min 0xFFFF (max 0 v).toNat

def minoffset : Int := q.centerZ - q.maxRangeZ

def maxoffset : Int := q.centerZ - q.minRangeZ

/-- The corner of the block of a coordinate. -/
def floorBase (v : Nat) : Nat := v - v % 8

def startx1 : Nat := floorBase (clamp (int32 (q.min_x + q.minoffset)))

def starty1 : Nat := floorBase (clamp (int32 (q.min_y + q.minoffset)))

def endx2 : Nat := floorBase (clamp (int32 (q.max_x + q.maxoffset)))

def endy2 : Nat := floorBase (clamp (int32 (q.max_y + q.maxoffset)))

/-- The turns of a loop from `first` while it is at most `last`, in steps of FLOOR_SIZE. -/
def turns (first last : Nat) : Nat := if first ≤ last then (last - first) / 8 + 1 else 0

end Query

namespace CreatureMap

variable (type : CreatureId → CreatureType_t)

def passes (m : CreatureMap) (q : Query) (c : CreatureId) : Bool :=
  !m.removed c && (!q.onlyMonsters || isMonster type c) && (!q.onlyNpcs || isNpc type c) &&
    match m.position c with
    | none => false
    | some cpos =>
      let offsetZ : Int := q.centerZ - cpos.z.toNat
      !(decide (q.minRangeZ > cpos.z.toNat) || decide (q.maxRangeZ < cpos.z.toNat)) &&
        !(decide (Query.int32 (q.min_y + offsetZ) > cpos.y.toNat) || decide (Query.int32 (q.max_y + offsetZ) < cpos.y.toNat) ||
          decide (Query.int32 (q.min_x + offsetZ) > cpos.x.toNat) || decide (Query.int32 (q.max_x + offsetZ) < cpos.x.toNat))

def visit (m : CreatureMap) (q : Query) (leaf : LeafId) : List CreatureId :=
  (if q.onlyPlayers then m.player_list leaf else m.creature_list leaf).filter (passes type m q)

def lookup (m : CreatureMap) (x y : Nat) : Option LeafId := getLeaf m.tree.root (BitVec.ofNat 32 x) (BitVec.ofNat 32 y)

/-- The inner loop. -/
def walkRow (m : CreatureMap) (q : Query) (ny : Nat) : Nat → Nat → Option LeafId → List CreatureId
  | 0, _, _ => []
  | n + 1, nx, some leafE => visit type m q leafE ++ walkRow m q ny n (nx + 8) (m.tree.leafE leafE)
  | n + 1, nx, none => walkRow m q ny n (nx + 8) (m.lookup (nx + 8) ny)

/-- The outer loop. -/
def walkRows (m : CreatureMap) (q : Query) : Nat → Nat → Option LeafId → List CreatureId
  | 0, _, _ => []
  | n + 1, ny, leafS =>
    let next := match leafS with
      | some leaf => m.tree.leafS leaf
      | none => m.lookup q.startx1 (ny + 8)
    walkRow type m q ny (Query.turns q.startx1 q.endx2) q.startx1 leafS ++ walkRows m q n (ny + 8) next

def getSpectatorsInternal (m : CreatureMap) (q : Query) : List CreatureId :=
  walkRows type m q (Query.turns q.starty1 q.endy2) q.starty1 (m.lookup q.startx1 q.starty1)

/-- Players, then monsters, then the others; the order within them is open. -/
def partitionByType (cs : List CreatureId) : List CreatureId :=
  let others := cs.filter fun c => !isPlayer type c
  cs.filter (isPlayer type) ++ (others.filter (isMonster type) ++ others.filter fun c => !isMonster type c)

def getSpectators (m : CreatureMap) (q : Query) : List CreatureId :=
  if q.centerZ ≥ MAP_MAX_LAYERS then [] else partitionByType type (m.getSpectatorsInternal type q)

/-! ## The lists of the leaves -/

variable {type : CreatureId → CreatureType_t} {m : CreatureMap}

structure Listed (type : CreatureId → CreatureType_t) (m : CreatureMap) (home : CreatureId → Option LeafId) : Prop where
  creature : ∀ leaf c, c ∈ m.creature_list leaf ↔ home c = some leaf
  player : ∀ leaf c, c ∈ m.player_list leaf ↔ home c = some leaf ∧ isPlayer type c = true
  nodup : ∀ leaf, (m.creature_list leaf).Nodup ∧ (m.player_list leaf).Nodup

variable {home : CreatureId → Option LeafId}

variable {list : LeafId → List CreatureId} {leaf : LeafId} {c : CreatureId}

theorem mem_update_add {l : LeafId} {d : CreatureId} :
    d ∈ update list leaf (list leaf ++ [c]) l ↔ d ∈ list l ∨ l = leaf ∧ d = c := by
  by_cases hl : l = leaf
  · subst hl
    simp
  · simp [hl]

theorem nodup_update_add {l : LeafId} (h : (list l).Nodup) (hc : c ∉ list leaf) :
    (update list leaf (list leaf ++ [c]) l).Nodup := by
  by_cases hl : l = leaf
  · subst hl
    rw [update_self]
    exact (perm_append_singleton c _).nodup_iff.mpr (nodup_cons.mpr ⟨hc, h⟩)
  · rwa [update_of_ne hl]

theorem Listed.add (h : Listed type m home) (hc : home c = none) (leaf : LeafId) :
    Listed type (addCreature type leaf c m) (update home c (some leaf)) := by
  have hhome : ∀ d l, update home c (some leaf) d = some l ↔ home d = some l ∨ l = leaf ∧ d = c := by
    grind
  have hnot : ∀ l, c ∉ m.creature_list l := by
    simp [h.creature, hc]
  have hnot' : ∀ l, c ∉ m.player_list l := fun l hl => hnot l ((h.creature l c).mpr ((h.player l c).mp hl).1)
  refine ⟨fun l d => ?_, fun l d => ?_, fun l => ?_⟩
  · show d ∈ update m.creature_list leaf _ l ↔ _
    rw [mem_update_add, h.creature, hhome]
  · show d ∈ (if isPlayer type c then update m.player_list leaf _ else m.player_list) l ↔ _
    rw [hhome]
    split
    · next hp =>
      rw [mem_update_add, h.player]
      constructor
      · intro hd
        rcases hd with hd | ⟨hl, hd⟩
        · exact ⟨.inl hd.1, hd.2⟩
        · exact ⟨.inr ⟨hl, hd⟩, hd ▸ hp⟩
      · intro hd
        exact hd.1.imp (fun hin => ⟨hin, hd.2⟩) id
    · next hp =>
      rw [h.player]
      constructor
      · intro hd
        exact ⟨.inl hd.1, hd.2⟩
      intro hd
      refine ⟨hd.1.resolve_right fun heq => hp ?_, hd.2⟩
      rw [← heq.2]
      exact hd.2
  · refine ⟨nodup_update_add (h.nodup l).1 (hnot leaf), ?_⟩
    show ((if isPlayer type c then update m.player_list leaf _ else m.player_list) l).Nodup
    split
    · exact nodup_update_add (h.nodup l).2 (hnot' leaf)
    · exact (h.nodup l).2

theorem update_swapPop {l : LeafId} (h : (list l).Nodup) (hc : c ∈ list leaf) :
    (∀ d, d ∈ update list leaf (Buckets.swapPop c (list leaf)) l ↔
        d ∈ list l ∧ ¬(l = leaf ∧ d = c)) ∧ (update list leaf (Buckets.swapPop c (list leaf)) l).Nodup := by
  by_cases hl : l = leaf
  · subst hl
    have hperm := Buckets.swapPop_perm hc
    have hnodup := nodup_cons.mp (hperm.nodup_iff.mp h)
    rw [update_self]
    refine ⟨fun d => ?_, hnodup.2⟩
    rw [hperm.mem_iff, mem_cons]
    constructor
    · intro hd
      exact ⟨.inr hd, fun heq => hnodup.1 (heq.2 ▸ hd)⟩
    · intro hd
      exact hd.1.resolve_left fun heq => hd.2 ⟨rfl, heq⟩
  · rw [update_of_ne hl]
    exact ⟨fun d => ⟨fun hd => ⟨hd, fun heq => hl heq.1⟩, fun hd => hd.1⟩, h⟩

theorem Listed.remove (h : Listed type m home) (hc : home c = some leaf) :
    Listed type (removeCreature type leaf c m) (update home c none) := by
  have hhome : ∀ d l, update home c none d = some l ↔ home d = some l ∧ ¬(l = leaf ∧ d = c) := by
    grind
  have hin : c ∈ m.creature_list leaf := (h.creature leaf c).mpr hc
  refine ⟨fun l d => ?_, fun l d => ?_, fun l => ?_⟩
  · show d ∈ update m.creature_list leaf _ l ↔ _
    rw [(update_swapPop (h.nodup l).1 hin).1, h.creature, hhome]
  · show d ∈ (if isPlayer type c then update m.player_list leaf _ else m.player_list) l ↔ _
    rw [hhome]
    split
    · next hp =>
      rw [(update_swapPop (h.nodup l).2 ((h.player leaf c).mpr ⟨hc, hp⟩)).1, h.player]
      tauto
    next hp =>
    rw [h.player]
    constructor
    · intro hd
      exact ⟨⟨hd.1, fun heq => hp (heq.2 ▸ hd.2)⟩, hd.2⟩
    · intro hd
      exact ⟨hd.1.1, hd.2⟩
  · refine ⟨(update_swapPop (h.nodup l).1 hin).2, ?_⟩
    show ((if isPlayer type c then update m.player_list leaf _ else m.player_list) l).Nodup
    split
    · next hp => exact (update_swapPop (h.nodup l).2 ((h.player leaf c).mpr ⟨hc, hp⟩)).2
    · exact (h.nodup l).2

/-! ## Reachable states -/

def leafOf (m : CreatureMap) (c : CreatureId) : Option LeafId := (m.position c).bind (leafAt m.tree)

structure Tracked (type : CreatureId → CreatureType_t) (m : CreatureMap) : Prop where
  tree : ∃ calls, Inv m.tree calls
  placed : ∀ c p, m.position c = some p → ∃ leaf, leafAt m.tree p = some leaf
  listed : Listed type m (leafOf m)

variable {calls : List (BitVec 16 × BitVec 16)}

theorem tracked_start : Tracked type {} where
  tree := ⟨[], inv_start⟩
  placed _ _ h := nomatch h
  listed := ⟨fun _ _ => by simp [leafOf], fun _ _ => by simp [leafOf], fun _ => ⟨nodup_nil, nodup_nil⟩⟩

theorem leafAt_createLeaf {t : QuadTree} (h : Inv t calls) (x y : BitVec 16) {p : Position}
    (hp : leafAt t p = some leaf) : leafAt (getOrCreateLeaf x y t).1 p = some leaf := by
  have hcall := h.getLeaf_call x y (p.x.setWidth 32) (p.y.setWidth 32)
  unfold leafAt at hp ⊢
  rw [hcall]
  split
  · next hblock =>
    rw [h.same_block _ _ _ _ hblock] at hp
    rcases h.leaf_call x y with hfound | hnew
    · rw [← hp, hfound.1]
    · rw [hnew.1] at hp
      cases hp
  · exact hp

theorem leafOf_setPosition (m : CreatureMap) (c : CreatureId) (p : Option Position) :
    leafOf (m.setPosition c p) = update (leafOf m) c (p.bind (leafAt m.tree)) := by
  funext d
  unfold leafOf setPosition
  by_cases hd : d = c <;> simp [hd, update_self]

theorem Tracked.setPosition (h : Tracked type m) (m' : CreatureMap) (htree : m'.tree = m.tree)
    (hposition : m'.position = m.position) (c : CreatureId) {p : Option Position}
    (hp : ∀ q, p = some q → ∃ leaf, leafAt m.tree q = some leaf)
    (hlisted : Listed type m' (update (leafOf m) c (p.bind (leafAt m.tree)))) :
    Tracked type (m'.setPosition c p) where
  tree := by
    show ∃ calls, Inv m'.tree calls
    rw [htree]
    exact h.tree
  placed := by
    intro d q hq
    show ∃ leaf, leafAt m'.tree q = some leaf
    have hq : update m'.position c p d = some q := hq
    rw [htree]
    by_cases hd : d = c
    · subst hd
      rw [update_self] at hq
      exact hp q hq
    · rw [update_of_ne hd, hposition] at hq
      exact h.placed d q hq
  listed := by
    have hhome : leafOf m' = leafOf m := by
      unfold leafOf
      rw [htree, hposition]
    rw [leafOf_setPosition, hhome, htree]
    exact { hlisted with }

theorem Tracked.step (h : Tracked type m) (op : Op) (hop : Called m op) : Tracked type (apply type m op) := by
  cases op with
  | createLeaf x y =>
    obtain ⟨calls, htree⟩ := h.tree
    have hleaf : ∀ c, leafOf (apply type m (.createLeaf x y)) c = leafOf m c := by
      intro c
      show (m.position c).bind (leafAt (getOrCreateLeaf x y m.tree).1) = (m.position c).bind (leafAt m.tree)
      cases hp : m.position c with
      | none => rfl
      | some p =>
        obtain ⟨leaf, hleaf⟩ := h.placed c p hp
        exact (leafAt_createLeaf htree x y hleaf).trans hleaf.symm
    refine ⟨⟨_, (htree.call (x, y)).1⟩, ?_, ?_⟩
    · intro c p hp
      obtain ⟨leaf, hleaf⟩ := h.placed c p hp
      exact ⟨leaf, leafAt_createLeaf htree x y hleaf⟩
    · rw [funext hleaf]
      exact ⟨h.listed.creature, h.listed.player, h.listed.nodup⟩
  | placeCreature c dest =>
    obtain ⟨leaf, hleaf⟩ := Option.isSome_iff_exists.mp hop
    simp only [apply]
    cases hp : m.position c with
    | some p => exact h
    | none =>
      rw [hleaf]
      refine h.setPosition (addCreature type leaf c m) rfl rfl c ?_ ?_
      · intro q hq
        cases hq
        exact ⟨leaf, hleaf⟩
      · show Listed type _ (update (leafOf m) c (leafAt m.tree dest))
        rw [hleaf]
        exact h.listed.add (by rw [leafOf, hp]; rfl) leaf
  | moveCreature c newPos =>
    obtain ⟨new_leaf, hnew⟩ := Option.isSome_iff_exists.mp hop
    simp only [apply]
    cases hp : m.position c with
    | none => exact h
    | some oldPos =>
      obtain ⟨leaf, hleaf⟩ := h.placed c oldPos hp
      have hhome : leafOf m c = some leaf := by
        rw [leafOf, hp]
        exact hleaf
      have hdest : ∀ q, some newPos = some q → ∃ leaf, leafAt m.tree q = some leaf := by
        intro q hq
        cases hq
        exact ⟨new_leaf, hnew⟩
      dsimp only
      rw [hleaf, hnew]
      split
      · refine h.setPosition (addCreature type new_leaf c (removeCreature type leaf c m)) rfl rfl c hdest ?_
        show Listed type _ (update (leafOf m) c (leafAt m.tree newPos))
        have hgone : update (leafOf m) c none c = none := update_self ..
        have hadd := (h.listed.remove hhome).add hgone new_leaf
        rw [update_idem] at hadd
        rw [hnew]
        exact hadd
      · next hsame =>
        refine h.setPosition m rfl rfl c hdest ?_
        show Listed type _ (update (leafOf m) c (leafAt m.tree newPos))
        rw [hnew, ← not_not.mp hsame, ← hhome, update_eq_self]
        exact h.listed
  | removeCreature c =>
    simp only [apply]
    cases hp : m.position c with
    | none => exact h
    | some p =>
      obtain ⟨leaf, hleaf⟩ := h.placed c p hp
      have hhome : leafOf m c = some leaf := by
        rw [leafOf, hp]
        exact hleaf
      dsimp only
      rw [hleaf]
      refine h.setPosition (removeCreature type leaf c m) rfl rfl c ?_ (h.listed.remove hhome)
      intro q hq
      cases hq
  | setRemoved c => exact ⟨h.tree, h.placed, h.listed.creature, h.listed.player, h.listed.nodup⟩

abbrev Reached (type : CreatureId → CreatureType_t) : CreatureMap → Prop := Reach (fun m => m = {}) (apply type) Called

theorem Reached.tracked (h : Reached type m) : Tracked type m := by
  refine Reach.inv (I := Tracked type) ?_ (fun m op hop hm => hm.step op hop) h
  intro m hm
  rw [hm]
  exact tracked_start

/-! ## The walk -/

/-- What a square of the walk gives. -/
def cell (type : CreatureId → CreatureType_t) (m : CreatureMap) (q : Query) (x y : Nat) : List CreatureId :=
  match m.lookup x y with
  | some leaf => visit type m q leaf
  | none => []

theorem lookup_east (h : Inv m.tree calls) {x y : Nat} (hleaf : m.lookup x y = some leaf) :
    m.tree.leafE leaf = m.lookup (x + 8) y := by
  rw [h.east _ _ _ hleaf, lookup, ofNat_add]
  rfl

theorem lookup_south (h : Inv m.tree calls) {x y : Nat} (hleaf : m.lookup x y = some leaf) :
    m.tree.leafS leaf = m.lookup x (y + 8) := by
  rw [h.south _ _ _ hleaf, lookup, ofNat_add]
  rfl

/-- A row, over the squares where its turns are: following a link is looking the next leaf up. -/
theorem walkRow_eq (h : Inv m.tree calls) (q : Query) (ny n nx : Nat) :
    walkRow type m q ny n nx (m.lookup nx ny) = (List.range n).flatMap fun i => cell type m q (nx + 8 * i) ny := by
  induction n generalizing nx with
  | zero => rfl
  | succ n ih =>
    have hturn : walkRow type m q ny (n + 1) nx (m.lookup nx ny) =
        cell type m q nx ny ++ walkRow type m q ny n (nx + 8) (m.lookup (nx + 8) ny) := by
      unfold cell
      cases hleaf : m.lookup nx ny with
      | none => rfl
      | some leaf =>
        rw [walkRow, lookup_east h hleaf]
    rw [hturn, ih, range_succ_eq_map, flatMap_cons, flatMap_map]
    congr 2
    funext i
    rw [show nx + 8 + 8 * i = nx + 8 * (i + 1) from by omega]

theorem walkRows_eq (h : Inv m.tree calls) (q : Query) (n ny : Nat) :
    walkRows type m q n ny (m.lookup q.startx1 ny) = (List.range n).flatMap fun j =>
      (List.range (Query.turns q.startx1 q.endx2)).flatMap fun i => cell type m q (q.startx1 + 8 * i) (ny + 8 * j) := by
  induction n generalizing ny with
  | zero => rfl
  | succ n ih =>
    have hnext : (match m.lookup q.startx1 ny with
        | some leaf => m.tree.leafS leaf
        | none => m.lookup q.startx1 (ny + 8)) = m.lookup q.startx1 (ny + 8) := by
      cases hleaf : m.lookup q.startx1 ny with
      | none => rfl
      | some leaf => exact lookup_south h hleaf
    unfold walkRows
    dsimp only
    rw [hnext, ih, walkRow_eq h, range_succ_eq_map, flatMap_cons, flatMap_map]
    congr 2
    funext j
    rw [show ny + 8 + 8 * j = ny + 8 * (j + 1) from by omega]

/-- The blocks of the box: the square that is looked up for each. -/
def Walked (q : Query) (x y : Nat) : Prop :=
  (∃ i < Query.turns q.startx1 q.endx2, x = q.startx1 + 8 * i) ∧ ∃ j < Query.turns q.starty1 q.endy2, y = q.starty1 + 8 * j

theorem mem_getSpectatorsInternal (h : Tracked type m) (q : Query) (c : CreatureId) :
    c ∈ getSpectatorsInternal type m q ↔ ∃ x y, Walked q x y ∧ c ∈ cell type m q x y := by
  obtain ⟨calls, htree⟩ := h.tree
  rw [getSpectatorsInternal, walkRows_eq htree]
  simp only [mem_flatMap, mem_range, Walked]
  constructor
  · intro hc
    obtain ⟨j, hj, i, hi, hc⟩ := hc
    exact ⟨_, _, ⟨⟨i, hi, rfl⟩, j, hj, rfl⟩, hc⟩
  · intro hc
    obtain ⟨x, y, ⟨⟨i, hi, rfl⟩, j, hj, rfl⟩, hc⟩ := hc
    exact ⟨j, hj, i, hi, hc⟩

/-! ## Blocks of the box -/

theorem floorBase_mod (v : Nat) : Query.floorBase v % 8 = 0 := by
  unfold Query.floorBase
  omega

theorem clamp_le (v : Int) : Query.clamp v ≤ 65535 := Nat.min_le_left ..

theorem turn_le {first last : Int} {i : Nat} (hi : i < Query.turns (Query.floorBase (Query.clamp first)) (Query.floorBase (Query.clamp last))) :
    (Query.floorBase (Query.clamp first) + 8 * i) % 8 = 0 ∧ Query.floorBase (Query.clamp first) + 8 * i ≤ 65528 := by
  have hfirst := floorBase_mod (Query.clamp first)
  have hle : Query.floorBase (Query.clamp last) ≤ Query.clamp last := Nat.sub_le ..
  have hclamp := clamp_le last
  grind [Query.turns]

theorem turn_of_le (first last : Int) {v : Nat} (hfirst : first ≤ v) (hlast : v ≤ last) (hv : v < 65536) :
    ∃ i < Query.turns (Query.floorBase (Query.clamp first)) (Query.floorBase (Query.clamp last)),
      Query.floorBase (Query.clamp first) + 8 * i = v - v % 8 := by
  have hclamp : Query.clamp first ≤ v ∧ v ≤ Query.clamp last := by
    unfold Query.clamp
    omega
  refine ⟨(v - v % 8 - Query.floorBase (Query.clamp first)) / 8, ?_, ?_⟩
  · grind [Query.turns, Query.floorBase]
  · unfold Query.floorBase
    omega

theorem block_corner {x y : Nat} (p : Position) (hx : x < 65536) (hy : y < 65536) :
    block (BitVec.ofNat 32 x) (BitVec.ofNat 32 y) = block (p.x.setWidth 32) (p.y.setWidth 32) ↔
      x / 8 = p.x.toNat / 8 ∧ y / 8 = p.y.toNat / 8 := by
  have hpx := p.x.isLt
  rw [block, block, Prod.mk.injEq, toNat_ofNat, toNat_ofNat, toNat_setWidth, toNat_setWidth]
  omega

/-! ## The filter -/

def InInt32 (v : Int) : Prop := -2 ^ 31 ≤ v ∧ v < 2 ^ 31

instance (v : Int) : Decidable (InInt32 v) := inferInstanceAs (Decidable (_ ∧ _))

theorem int32_eq {v : Int} (h : InInt32 v) : Query.int32 v = v := by
  obtain ⟨hlow, hhigh⟩ := h
  unfold Query.int32
  omega

/-- The ends of the rectangle on the floor of the centre. -/
def left (q : Query) : Int := q.centerX - if q.minRangeX = 0 then maxViewportX else q.minRangeX

def right (q : Query) : Int := q.centerX + if q.maxRangeX = 0 then maxViewportX else q.maxRangeX

def top (q : Query) : Int := q.centerY - if q.minRangeY = 0 then maxViewportY else q.minRangeY

def bottom (q : Query) : Int := q.centerY + if q.maxRangeY = 0 then maxViewportY else q.maxRangeY

/-- No sum of the search leaves int32. -/
def NoOverflow (q : Query) : Prop :=
  InInt32 (-q.minRangeX) ∧ InInt32 (-q.minRangeY) ∧ ∀ offset ∈ [0, q.minoffset, q.maxoffset],
    InInt32 (left q + offset) ∧ InInt32 (right q + offset) ∧ InInt32 (top q + offset) ∧ InInt32 (bottom q + offset)

instance (q : Query) : Decidable (NoOverflow q) := inferInstanceAs (Decidable (_ ∧ _ ∧ _))

/-- The position is on a visible floor, in the rectangle shifted by the floors between. -/
def Visible (q : Query) (p : Position) : Prop :=
  let offset := q.centerZ - p.z.toNat
  q.minRangeZ ≤ p.z.toNat ∧ p.z.toNat ≤ q.maxRangeZ ∧ left q + offset ≤ p.x.toNat ∧ p.x.toNat ≤ right q + offset ∧
    top q + offset ≤ p.y.toNat ∧ p.y.toNat ≤ bottom q + offset

def Wanted (type : CreatureId → CreatureType_t) (m : CreatureMap) (q : Query) (c : CreatureId) : Prop :=
  m.removed c = false ∧ (q.onlyPlayers = true → isPlayer type c = true) ∧ (q.onlyMonsters = true → isMonster type c = true) ∧
    (q.onlyNpcs = true → isNpc type c = true)

variable {q : Query}

theorem lower_eq {range viewport : Int} (h : InInt32 (-range)) (v : Int) :
    v + Query.lower range viewport = v - if range = 0 then viewport else range := by
  unfold Query.lower
  split
  · omega
  · rw [int32_eq h]
    omega

theorem NoOverflow.ends (h : NoOverflow q) :
    q.min_x = left q ∧ q.max_x = right q ∧ q.min_y = top q ∧ q.max_y = bottom q := by
  obtain ⟨hx, hy, hsums⟩ := h
  obtain ⟨hleft, hright, htop, hbottom⟩ := hsums 0 (by simp)
  rw [Int.add_zero] at hleft hright htop hbottom
  refine ⟨?_, int32_eq hright, ?_, int32_eq hbottom⟩
  · rw [Query.min_x, lower_eq hx]
    exact int32_eq hleft
  · rw [Query.min_y, lower_eq hy]
    exact int32_eq htop

theorem InInt32.between {u v w : Int} (hu : InInt32 u) (hw : InInt32 w) (huv : u ≤ v) (hvw : v ≤ w) : InInt32 v :=
  ⟨Int.le_trans hu.1 huv, Int.lt_of_le_of_lt hvw hw.2⟩

theorem NoOverflow.shifted (h : NoOverflow q) {offset : Int} (hmin : q.minoffset ≤ offset)
    (hmax : offset ≤ q.maxoffset) :
    Query.int32 (q.min_x + offset) = left q + offset ∧ Query.int32 (q.max_x + offset) = right q + offset ∧
      Query.int32 (q.min_y + offset) = top q + offset ∧ Query.int32 (q.max_y + offset) = bottom q + offset := by
  obtain ⟨hleft, hright, htop, hbottom⟩ := h.ends
  obtain ⟨hlow1, hlow2, hlow3, hlow4⟩ := h.2.2 q.minoffset (by simp)
  obtain ⟨hhigh1, hhigh2, hhigh3, hhigh4⟩ := h.2.2 q.maxoffset (by simp)
  rw [hleft, hright, htop, hbottom]
  refine ⟨int32_eq (hlow1.between hhigh1 ?_ ?_), int32_eq (hlow2.between hhigh2 ?_ ?_),
    int32_eq (hlow3.between hhigh3 ?_ ?_), int32_eq (hlow4.between hhigh4 ?_ ?_)⟩
  all_goals omega

theorem passes_iff (h : NoOverflow q) (c : CreatureId) :
    passes type m q c = true ↔ (m.removed c = false ∧ (q.onlyMonsters = true → isMonster type c = true) ∧
      (q.onlyNpcs = true → isNpc type c = true)) ∧ ∃ p, m.position c = some p ∧ Visible q p := by
  have hkind : (!m.removed c && (!q.onlyMonsters || isMonster type c) && (!q.onlyNpcs || isNpc type c)) = true ↔
      m.removed c = false ∧ (q.onlyMonsters = true → isMonster type c = true) ∧ (q.onlyNpcs = true → isNpc type c = true) := by
    cases m.removed c <;> cases q.onlyMonsters <;> cases q.onlyNpcs <;> simp
  unfold passes
  rw [and_eq_true, hkind]
  refine and_congr_right fun _ => ?_
  cases hp : m.position c with
  | none => simp
  | some p =>
    simp only [Option.some.injEq, exists_eq_left', Visible]
    by_cases hfloor : q.minRangeZ ≤ p.z.toNat ∧ p.z.toNat ≤ q.maxRangeZ
    · have hoffset : q.minoffset ≤ q.centerZ - p.z.toNat ∧ q.centerZ - p.z.toNat ≤ q.maxoffset := by
        unfold Query.minoffset Query.maxoffset
        omega
      obtain ⟨hleft, hright, htop, hbottom⟩ := h.shifted hoffset.1 hoffset.2
      rw [hleft, hright, htop, hbottom]
      simp only [and_eq_true, not_eq_true', or_eq_false_iff, decide_eq_false_iff_not, Int.not_lt]
      tauto
    · simp only [and_eq_true, not_eq_true', or_eq_false_iff, decide_eq_false_iff_not, Int.not_lt]
      tauto

theorem mem_visit (h : Tracked type m) (q : Query) (leaf : LeafId) (c : CreatureId) :
    c ∈ visit type m q leaf ↔
      leafOf m c = some leaf ∧ (q.onlyPlayers = true → isPlayer type c = true) ∧ passes type m q c = true := by
  unfold visit
  rw [mem_filter]
  cases q.onlyPlayers with
  | true =>
    rw [if_pos rfl, h.listed.player]
    tauto
  | false =>
    simp [h.listed.creature]

theorem mem_cell (h : Tracked type m) (q : Query) (x y : Nat) (c : CreatureId) :
    c ∈ cell type m q x y ↔ (∃ leaf, m.lookup x y = some leaf ∧ leafOf m c = some leaf) ∧
      (q.onlyPlayers = true → isPlayer type c = true) ∧ passes type m q c = true := by
  unfold cell
  cases hleaf : m.lookup x y with
  | none => simp
  | some leaf =>
    rw [mem_visit h]
    simp

theorem leafOf_eq_some :
    leafOf m c = some leaf ↔ ∃ p, m.position c = some p ∧ leafAt m.tree p = some leaf := Option.bind_eq_some_iff

theorem cell_block (h : Tracked type m) {x y : Nat} (hx : x < 65536) (hy : y < 65536) (hc : c ∈ cell type m q x y) :
    ∃ p, m.position c = some p ∧ x / 8 = p.x.toNat / 8 ∧ y / 8 = p.y.toNat / 8 := by
  obtain ⟨calls, htree⟩ := h.tree
  obtain ⟨⟨leaf, hleaf, hhome⟩, -⟩ := (mem_cell h q x y c).mp hc
  obtain ⟨p, hp, hat⟩ := leafOf_eq_some.mp hhome
  exact ⟨p, hp, (block_corner p hx hy).mp (htree.same_leaf _ _ _ _ leaf hleaf hat)⟩

theorem mem_cell_corner (h : Tracked type m) {x y : Nat} {p : Position} (hp : m.position c = some p)
    (hx : x = p.x.toNat - p.x.toNat % 8) (hy : y = p.y.toNat - p.y.toNat % 8)
    (hplayer : q.onlyPlayers = true → isPlayer type c = true) (hpasses : passes type m q c = true) :
    c ∈ cell type m q x y := by
  obtain ⟨calls, htree⟩ := h.tree
  obtain ⟨leaf, hleaf⟩ := h.placed c p hp
  refine (mem_cell h q x y c).mpr ⟨⟨leaf, ?_, leafOf_eq_some.mpr ⟨p, hp, hleaf⟩⟩, hplayer, hpasses⟩
  have hblock := (block_corner (x := x) (y := y) p (by omega) (by omega)).mpr ⟨by omega, by omega⟩
  exact (htree.same_block _ _ _ _ hblock).trans hleaf

theorem mem_internal_iff (h : Tracked type m) (hq : NoOverflow q) (c : CreatureId) :
    c ∈ getSpectatorsInternal type m q ↔ (∃ p, m.position c = some p ∧ Visible q p) ∧ Wanted type m q c := by
  rw [mem_getSpectatorsInternal h]
  constructor
  · intro hc
    obtain ⟨x, y, -, hc⟩ := hc
    obtain ⟨-, hplayer, hpasses⟩ := (mem_cell h q x y c).mp hc
    obtain ⟨⟨hremoved, hkind⟩, hp⟩ := (passes_iff hq c).mp hpasses
    exact ⟨hp, hremoved, hplayer, hkind⟩
  · intro hc
    obtain ⟨⟨p, hp, hvisible⟩, hremoved, hplayer, hkind⟩ := hc
    have hpasses : passes type m q c = true := (passes_iff hq c).mpr ⟨⟨hremoved, hkind⟩, p, hp, hvisible⟩
    obtain ⟨hminz, hmaxz, hleft, hright, htop, hbottom⟩ := hvisible
    have hends : q.minoffset ≤ q.maxoffset := by
      unfold Query.minoffset Query.maxoffset
      omega
    obtain ⟨hx1, -, hy1, -⟩ := hq.shifted (Int.le_refl _) hends
    obtain ⟨-, hx2, -, hy2⟩ := hq.shifted hends (Int.le_refl _)
    have hoffset : q.minoffset ≤ q.centerZ - p.z.toNat ∧ q.centerZ - p.z.toNat ≤ q.maxoffset := by
      unfold Query.minoffset Query.maxoffset
      omega
    obtain ⟨i, hi, hxi⟩ := turn_of_le (v := p.x.toNat) (Query.int32 (q.min_x + q.minoffset))
      (Query.int32 (q.max_x + q.maxoffset)) (by omega) (by omega) p.x.isLt
    obtain ⟨j, hj, hyj⟩ := turn_of_le (v := p.y.toNat) (Query.int32 (q.min_y + q.minoffset))
      (Query.int32 (q.max_y + q.maxoffset)) (by omega) (by omega) p.y.isLt
    exact ⟨_, _, ⟨⟨i, hi, rfl⟩, j, hj, rfl⟩, mem_cell_corner h hp hxi hyj hplayer hpasses⟩

theorem nodup_internal (h : Tracked type m) (q : Query) : (getSpectatorsInternal type m q).Nodup := by
  obtain ⟨calls, htree⟩ := h.tree
  have hcell : ∀ x y, (cell type m q x y).Nodup := by
    intro x y
    unfold cell
    split
    · next leaf _ =>
      refine List.Nodup.filter _ ?_
      split
      · exact (h.listed.nodup leaf).2
      · exact (h.listed.nodup leaf).1
    · exact nodup_nil
  rw [getSpectatorsInternal, walkRows_eq htree, nodup_flatMap]
  constructor
  · intro j hj
    obtain ⟨-, hy⟩ := turn_le (mem_range.mp hj)
    rw [nodup_flatMap]
    refine ⟨fun i _ => hcell _ _, nodup_range.pairwise_of_forall_ne fun i hi i' hi' hne c hc hc' => hne ?_⟩
    obtain ⟨-, hx⟩ := turn_le (mem_range.mp hi)
    obtain ⟨-, hx'⟩ := turn_le (mem_range.mp hi')
    obtain ⟨p, hp, hpx, -⟩ := cell_block h (Nat.lt_of_le_of_lt hx (by decide)) (Nat.lt_of_le_of_lt hy (by decide)) hc
    obtain ⟨p', hp', hpx', -⟩ := cell_block h (Nat.lt_of_le_of_lt hx' (by decide)) (Nat.lt_of_le_of_lt hy (by decide)) hc'
    obtain rfl := Option.some.inj (hp.symm.trans hp')
    omega
  · refine nodup_range.pairwise_of_forall_ne fun j hj j' hj' hne c hc hc' => hne ?_
    obtain ⟨-, hy⟩ := turn_le (mem_range.mp hj)
    obtain ⟨-, hy'⟩ := turn_le (mem_range.mp hj')
    obtain ⟨i, hi, hc⟩ := mem_flatMap.mp hc
    obtain ⟨i', hi', hc'⟩ := mem_flatMap.mp hc'
    obtain ⟨-, hx⟩ := turn_le (mem_range.mp hi)
    obtain ⟨-, hx'⟩ := turn_le (mem_range.mp hi')
    obtain ⟨p, hp, -, hpy⟩ := cell_block h (Nat.lt_of_le_of_lt hx (by decide)) (Nat.lt_of_le_of_lt hy (by decide)) hc
    obtain ⟨p', hp', -, hpy'⟩ := cell_block h (Nat.lt_of_le_of_lt hx' (by decide)) (Nat.lt_of_le_of_lt hy' (by decide)) hc'
    obtain rfl := Option.some.inj (hp.symm.trans hp')
    omega

theorem partitionByType_perm (cs : List CreatureId) : (partitionByType type cs).Perm cs := by
  have hothers := filter_append_perm (isMonster type) (cs.filter fun c => !isPlayer type c)
  exact (hothers.append_left _).trans (filter_append_perm (isPlayer type) cs)

/-- In every state reached a search finds what the filter does, once. -/
theorem getSpectators_eq_filter (h : Reached type m) (q : Query) (hq : NoOverflow q) :
    (getSpectators type m q).Nodup ∧ ∀ c, c ∈ getSpectators type m q ↔
      q.centerZ < MAP_MAX_LAYERS ∧ (∃ p, m.position c = some p ∧ Visible q p) ∧ Wanted type m q c := by
  have htracked := h.tracked
  unfold getSpectators
  by_cases hz : q.centerZ ≥ MAP_MAX_LAYERS
  · rw [if_pos hz]
    refine ⟨nodup_nil, fun c => ?_⟩
    simp [Int.not_lt.mpr hz]
  · rw [if_neg hz]
    have hperm : (partitionByType type (getSpectatorsInternal type m q)).Perm _ := partitionByType_perm _
    refine ⟨hperm.nodup_iff.mpr (nodup_internal htracked q), fun c => ?_⟩
    rw [hperm.mem_iff, mem_internal_iff htracked hq]
    exact (and_iff_right (Int.not_le.mp hz)).symm

def corners : List Op :=
  [.createLeaf 0 0, .createLeaf 65535 65535, .placeCreature 1 ⟨0, 0, 7⟩, .placeCreature 2 ⟨65535, 65535, 6⟩,
    .placeCreature 3 ⟨3, 3, 7⟩, .moveCreature 3 ⟨65530, 65535, 7⟩]

theorem corners_reached :
    Reached (fun _ => .CREATURETYPE_PLAYER) (run (apply fun _ => .CREATURETYPE_PLAYER) {} corners) := by
  have hallowed : Allowed (apply fun _ => .CREATURETYPE_PLAYER) Called {} corners := by
    refine ⟨trivial, trivial, ?_, ?_, ?_, ?_, trivial⟩
    all_goals
      rfl
  have hstart : Reached (fun _ => .CREATURETYPE_PLAYER) {} := .init rfl
  exact Reach.run hstart hallowed

theorem getSpectators_corners :
    2 ∈ getSpectators (fun _ => .CREATURETYPE_PLAYER) (run (apply fun _ => .CREATURETYPE_PLAYER) {} corners)
      { centerPos := ⟨65535, 65535, 7⟩, multifloor := true, onlyPlayers := true } := by
  refine ((getSpectators_eq_filter corners_reached _ (by decide)).2 2).mpr ⟨by decide, ⟨⟨65535, 65535, 6⟩, rfl, ?_⟩, ?_⟩
  · unfold Visible
    decide
  · unfold Wanted
    decide

/-- A range that is too large for the sum: the creature at the centre is not found. -/
theorem range_overflows :
    Reached (fun _ => .CREATURETYPE_PLAYER) (run (apply fun _ => .CREATURETYPE_PLAYER) {} corners) ∧
      (run (apply fun _ => .CREATURETYPE_PLAYER) {} corners).position 2 = some ⟨65535, 65535, 6⟩ ∧
      Visible { centerPos := ⟨65535, 65535, 6⟩, maxRangeX := 2 ^ 31 - 1 } ⟨65535, 65535, 6⟩ ∧
      Wanted (fun _ => .CREATURETYPE_PLAYER) (run (apply fun _ => .CREATURETYPE_PLAYER) {} corners)
        { centerPos := ⟨65535, 65535, 6⟩, maxRangeX := 2 ^ 31 - 1 } 2 ∧
      getSpectators (fun _ => .CREATURETYPE_PLAYER) (run (apply fun _ => .CREATURETYPE_PLAYER) {} corners)
        { centerPos := ⟨65535, 65535, 6⟩, maxRangeX := 2 ^ 31 - 1 } = [] := by
  refine ⟨corners_reached, rfl, ?_, ?_, ?_⟩
  · unfold Visible
    decide
  · unfold Wanted
    decide
  · decide

end CreatureMap

end Backlands.World
