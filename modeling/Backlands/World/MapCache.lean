/-
  Backlands.World.MapCache — equal items and tiles of the map are kept once (src/mapcache.h,
  src/mapcache.cpp).

  An item refers to the items in it, made before it; a pointer is a place in `heap`. The item cache
  holds weak pointers, which no longer lock once the item is `expired`, so an item can be in the
  cache twice. The tile store only grows, and a tile's `cacheId` is its place in the store from one
  on, in 32 bits. The hash functions are parameters: any value for any item. Where the source leaves
  the order of equal keys in a multimap open, the place of a new one comes with the call.

  Proved: `templates_exact`, in every run a returned template is equal to the argument; and while
  the store has fewer than 2^32 tiles, two tiles have one id exactly when they are equal, and an id
  is looked up to its tile for ever. Counterexample: `ids_run_out`.
-/

import Backlands.Lib.Bytes
import Backlands.Lib.Dag
import Backlands.Lib.Runs

namespace Backlands.World

open Backlands.Lib Function List Bool

abbrev Ptr := Nat

abbrev Hash := BitVec 64

structure ItemFields where
  text : Bytes := []
  id : BitVec 16 := 0
  charges : BitVec 16 := 0
  actionId : BitVec 16 := 0
  uniqueId : BitVec 16 := 0
  destX : BitVec 16 := 0
  destY : BitVec 16 := 0
  doorOrDepotId : BitVec 16 := 0
  destZ : BitVec 8 := 0
  deriving DecidableEq

/-- The children are the source's `items`. -/
abbrev BasicItem := Cell ItemFields

abbrev ItemValue := RefTree ItemFields

structure BasicTile where
  ground : Option Ptr := none
  items : List (Option Ptr) := []
  zoneIds : List (BitVec 16) := []
  flags : BitVec 32 := 0
  houseId : BitVec 32 := 0
  isStatic : Bool := false
  cacheId : BitVec 32 := 0
  deriving DecidableEq

structure TileValue where
  ground : ItemValue
  items : List ItemValue
  zoneIds : List (BitVec 16)
  flags : BitVec 32
  houseId : BitVec 32
  isStatic : Bool

mutual
/-- `BasicItem::operator==`; a null item is equal to a null item. -/
def itemEq : ItemValue → ItemValue → Bool
  | .node a as, .node b bs => decide (a = b) && decide (as.length = bs.length) && itemsEq as bs
  | .null, .null => true
  | _, _ => false
def itemsEq : List ItemValue → List ItemValue → Bool
  | a :: as, b :: bs => itemEq a b && itemsEq as bs
  | _, _ => true
end

/-- `BasicTile::operator==` -/
def tileEq (a b : TileValue) : Bool :=
  decide (a.flags = b.flags) && decide (a.houseId = b.houseId) && decide (a.isStatic = b.isStatic) &&
    decide (a.zoneIds = b.zoneIds) && itemEq a.ground b.ground && decide (a.items.length = b.items.length) &&
    itemsEq a.items b.items

def tileValue (heap : List BasicItem) (t : BasicTile) : TileValue where
  ground := Dag.tree heap t.ground
  items := t.items.map (Dag.tree heap)
  zoneIds := t.zoneIds
  flags := t.flags
  houseId := t.houseId
  isStatic := t.isStatic

structure MapCache where
  heap : List BasicItem := []
  expired : Ptr → Bool := fun _ => false
  itemCache : Hash → Option Ptr := fun _ => none
  itemCollisions : List (Hash × Ptr) := []
  /-- Tiles are their places in `tileStore`. -/
  tileCache : Hash → Option Nat := fun _ => none
  tileCollisions : List (Hash × Nat) := []
  tileStore : List BasicTile := []
  storeHasZones : Bool := false
  itemReplies : List (ItemValue × Ptr) := []
  tileReplies : List (TileValue × Nat × BitVec 32) := []

namespace MapCache

/-- `emplace` into a multimap. -/
def emplace {α : Type} (place : Nat) (entry : Hash × α) (entries : List (Hash × α)) : List (Hash × α) :=
  entries.take place ++ entry :: entries.drop place

/-- `std::make_shared` -/
def makeItem (item : BasicItem) (s : MapCache) : MapCache := { s with heap := s.heap ++ [item] }

def newItem (s : MapCache) : Ptr := s.heap.length

def storeItem (h : Hash) (item : BasicItem) (place : Nat) (hasPrimary : Bool) (s : MapCache) : MapCache × Ptr :=
  let stored := s.newItem
  let s := s.makeItem item
  (if hasPrimary then { s with itemCollisions := emplace place (h, stored) s.itemCollisions }
    else { s with itemCache := update s.itemCache h (some stored) }, stored)

/-- The entry of the collisions that locks and is equal. -/
def findItem (h : Hash) (value : ItemValue) (s : MapCache) : Option (Hash × Ptr) :=
  s.itemCollisions.find? fun e => decide (e.1 = h) && (!s.expired e.2 && itemEq (Dag.tree s.heap (some e.2)) value)

def tryGetItemFromCache (hash : ItemValue → Hash) (item : BasicItem) (place : Nat) (s : MapCache) : MapCache × Ptr :=
  let value := Dag.cellTree s.heap item
  let h := hash value
  match s.itemCache h with
  | some cached =>
    if s.expired cached then
      collisions h value false { s with itemCache := update s.itemCache h none }
    else if itemEq (Dag.tree s.heap (some cached)) value then (s, cached)
    else collisions h value true s
  | none => collisions h value false s
where
  collisions (h : Hash) (value : ItemValue) (hasPrimary : Bool) (s : MapCache) : MapCache × Ptr :=
    match s.findItem h value with
    | some e => (s, e.2)
    | none => s.storeItem h item place hasPrimary

def storeTile (h : Hash) (tile : BasicTile) (place : Nat) (hasPrimary : Bool) (s : MapCache) : MapCache × Nat :=
  let stored := s.tileStore.length
  let tile := { tile with cacheId := BitVec.ofNat 32 (s.tileStore.length + 1) }
  let s := { s with storeHasZones := s.storeHasZones || !tile.zoneIds.isEmpty, tileStore := s.tileStore ++ [tile] }
  (if hasPrimary then { s with tileCollisions := emplace place (h, stored) s.tileCollisions }
    else { s with tileCache := update s.tileCache h (some stored) }, stored)

def tileAtEq (s : MapCache) (k : Nat) (value : TileValue) : Bool :=
  match s.tileStore[k]? with
  | some t => tileEq (tileValue s.heap t) value
  | none => false

def findTile (h : Hash) (value : TileValue) (s : MapCache) : Option (Hash × Nat) :=
  s.tileCollisions.find? fun e => decide (e.1 = h) && s.tileAtEq e.2 value

def tryGetTileFromCache (hash : TileValue → Hash) (tile : BasicTile) (place : Nat) (s : MapCache) : MapCache × Nat :=
  let value := tileValue s.heap tile
  let h := hash value
  match s.tileCache h with
  | some cached => if s.tileAtEq cached value then (s, cached) else collisions h value true
  | none => collisions h value false
where
  collisions (h : Hash) (value : TileValue) (hasPrimary : Bool) : MapCache × Nat :=
    match s.findTile h value with
    | some e => (s, e.2)
    | none => s.storeTile h tile place hasPrimary

def getTileById (s : MapCache) (id : BitVec 32) : Option BasicTile :=
  if id = 0 ∨ id.toNat > s.tileStore.length then none else s.tileStore[id.toNat - 1]?

def cleanupExpiredEntries (s : MapCache) : MapCache :=
  { s with
    itemCache := fun h => (s.itemCache h).filter fun p => !s.expired p
    itemCollisions := s.itemCollisions.filter fun e => !s.expired e.2 }

def idOf (s : MapCache) (k : Nat) : BitVec 32 := (s.tileStore[k]?.map BasicTile.cacheId).getD 0

inductive Op where
  | tryGetItemFromCache (item : BasicItem) (place : Nat)
  | tryGetTileFromCache (tile : BasicTile) (place : Nat)
  /-- A caller makes an item itself. -/
  | makeItem (item : BasicItem)
  /-- The last pointer to an item goes. -/
  | dropItem (p : Ptr)
  | cleanupExpiredEntries

def apply (itemHash : ItemValue → Hash) (tileHash : TileValue → Hash) (s : MapCache) : Op → MapCache
  | .tryGetItemFromCache item place =>
    let r := s.tryGetItemFromCache itemHash item place
    { r.1 with itemReplies := (Dag.cellTree s.heap item, r.2) :: r.1.itemReplies }
  | .tryGetTileFromCache tile place =>
    let r := s.tryGetTileFromCache tileHash tile place
    { r.1 with tileReplies := (tileValue s.heap tile, r.2, r.1.idOf r.2) :: r.1.tileReplies }
  | .makeItem item => s.makeItem item
  | .dropItem p => { s with expired := update s.expired p true }
  | .cleanupExpiredEntries => s.cleanupExpiredEntries

def Called (s : MapCache) : Op → Prop
  | .tryGetItemFromCache item _ => ∀ r ∈ item.children, Dag.Below s.heap.length r
  | .tryGetTileFromCache tile _ => Dag.Below s.heap.length tile.ground ∧ ∀ r ∈ tile.items, Dag.Below s.heap.length r
  | .makeItem item => ∀ r ∈ item.children, Dag.Below s.heap.length r
  | _ => True

end MapCache

/-! ## Equality -/

mutual
theorem itemEq_iff : (a b : ItemValue) → (itemEq a b = true ↔ a = b)
  | .null, .null => by simp [itemEq]
  | .null, .node b bs => by simp [itemEq]
  | .node a as, .null => by simp [itemEq]
  | .node a as, .node b bs => by
    rw [itemEq, and_eq_true, and_eq_true, decide_eq_true_iff, decide_eq_true_iff, RefTree.node.injEq]
    constructor
    · rintro ⟨⟨hab, hlen⟩, heq⟩
      exact ⟨hab, (itemsEq_iff as bs hlen).mp heq⟩
    · rintro ⟨hab, heq⟩
      have hlen := congrArg List.length heq
      exact ⟨⟨hab, hlen⟩, (itemsEq_iff as bs hlen).mpr heq⟩
theorem itemsEq_iff : (as bs : List ItemValue) → as.length = bs.length → (itemsEq as bs = true ↔ as = bs)
  | [], [], _ => by simp [itemsEq]
  | a :: as, b :: bs, h => by
    rw [itemsEq, and_eq_true, itemEq_iff a b, itemsEq_iff as bs (Nat.succ.inj h), List.cons.injEq]
end

theorem tileEq_iff (a b : TileValue) : tileEq a b = true ↔ a = b := by
  cases a with
  | mk ground items zoneIds flags houseId isStatic =>
    cases b with
    | mk ground' items' zoneIds' flags' houseId' isStatic' =>
      simp only [tileEq, and_eq_true, decide_eq_true_iff, itemEq_iff, TileValue.mk.injEq]
      constructor
      · rintro ⟨⟨⟨⟨⟨⟨hf, hh⟩, hs⟩, hz⟩, hg⟩, hlen⟩, hi⟩
        exact ⟨hg, (itemsEq_iff _ _ hlen).mp hi, hz, hf, hh, hs⟩
      · rintro ⟨hg, hi, hz, hf, hh, hs⟩
        have hlen := congrArg List.length hi
        exact ⟨⟨⟨⟨⟨⟨hf, hh⟩, hs⟩, hz⟩, hg⟩, hlen⟩, (itemsEq_iff _ _ hlen).mpr hi⟩

namespace MapCache

variable {itemHash : ItemValue → Hash} {tileHash : TileValue → Hash} {s : MapCache}

/-! ## Items -/

def ItemCall (item : BasicItem) (s : MapCache) (r : MapCache × Ptr) : Prop :=
  ∃ cache collisions, (r.1 = { s with itemCache := cache, itemCollisions := collisions } ∨
      r.1 = { s with heap := s.heap ++ [item], itemCache := cache, itemCollisions := collisions }) ∧
    Dag.tree r.1.heap (some r.2) = Dag.cellTree s.heap item

theorem itemCall_collisions (h : Hash) (item : BasicItem) (place : Nat) (hasPrimary : Bool) :
    ItemCall item s (tryGetItemFromCache.collisions item place h (Dag.cellTree s.heap item) hasPrimary s) := by
  unfold tryGetItemFromCache.collisions
  cases hf : s.findItem h (Dag.cellTree s.heap item) with
  | some e =>
    have hfound := find?_some hf
    simp only [and_eq_true, itemEq_iff] at hfound
    exact ⟨s.itemCache, s.itemCollisions, .inl rfl, hfound.2.2⟩
  | none =>
    cases hasPrimary with
    | true => exact ⟨_, _, .inr rfl, Dag.tree_new s.heap item⟩
    | false => exact ⟨_, _, .inr rfl, Dag.tree_new s.heap item⟩

theorem itemCall_tryGet (hash : ItemValue → Hash) (item : BasicItem) (place : Nat) (s : MapCache) :
    ItemCall item s (s.tryGetItemFromCache hash item place) := by
  unfold tryGetItemFromCache
  dsimp only
  cases hc : s.itemCache (hash (Dag.cellTree s.heap item)) with
  | none => exact itemCall_collisions _ item place false
  | some cached =>
    dsimp only
    split
    · -- The primary entry is taken out first.
      obtain ⟨cache, collisions, heq, htree⟩ := itemCall_collisions (s := { s with itemCache := _ })
        (hash (Dag.cellTree s.heap item)) item place false
      exact ⟨cache, collisions, heq, htree⟩
    · split
      · next heq => exact ⟨s.itemCache, s.itemCollisions, .inl rfl, (itemEq_iff _ _).mp heq⟩
      · exact itemCall_collisions _ item place true

/-! ## Tiles -/

/-- The pointers of a tile are pointers to items that are there. -/
def TileMade (n : Nat) (t : BasicTile) : Prop := Dag.Below n t.ground ∧ ∀ r ∈ t.items, Dag.Below n r

theorem tileValue_add {heap : List BasicItem} {t : BasicTile} (h : TileMade heap.length t) (item : BasicItem) :
    tileValue (heap ++ [item]) t = tileValue heap t := by
  unfold tileValue
  rw [Dag.tree_add h.1, map_congr_left fun r hr => Dag.tree_add (h.2 r hr) item]

theorem tileAtEq_iff {k : Nat} {value : TileValue} :
    s.tileAtEq k value = true ↔ ∃ t, s.tileStore[k]? = some t ∧ tileValue s.heap t = value := by
  unfold tileAtEq
  cases ht : s.tileStore[k]? with
  | none => simp
  | some t => simp only [tileEq_iff, Option.some.injEq, exists_eq_left']

structure Exact (tileHash : TileValue → Hash) (s : MapCache) : Prop where
  numbered : ∀ (k : Nat) t, s.tileStore[k]? = some t → t.cacheId = BitVec.ofNat 32 (k + 1)
  made : ∀ (k : Nat) t, s.tileStore[k]? = some t → TileMade s.heap.length t
  distinct : ∀ (j k : Nat) t u, s.tileStore[j]? = some t → s.tileStore[k]? = some u →
    tileValue s.heap t = tileValue s.heap u → j = k
  /-- A tile is the primary entry of its hash or one of the collisions. -/
  cached : ∀ (k : Nat) t, s.tileStore[k]? = some t → s.tileCache (tileHash (tileValue s.heap t)) = some k ∨
    (tileHash (tileValue s.heap t), k) ∈ s.tileCollisions
  itemReplied : ∀ a p, (a, p) ∈ s.itemReplies → p < s.heap.length ∧ Dag.tree s.heap (some p) = a
  tileReplied : ∀ a k id, (a, k, id) ∈ s.tileReplies → ∃ t, s.tileStore[k]? = some t ∧
    tileValue s.heap t = a ∧ t.cacheId = id

theorem exact_start : Exact tileHash {} where
  numbered _ _ h := nomatch h
  made _ _ h := nomatch h
  distinct _ _ _ _ h := nomatch h
  cached _ _ h := nomatch h
  itemReplied _ _ h := nomatch h
  tileReplied _ _ _ h := nomatch h

theorem Exact.itemCaches (h : Exact tileHash s) (cache : Hash → Option Ptr) (collisions : List (Hash × Ptr))
    (expired : Ptr → Bool) :
    Exact tileHash { s with itemCache := cache, itemCollisions := collisions, expired := expired } :=
  { h with }

theorem Exact.makeItem (h : Exact tileHash s) (item : BasicItem) : Exact tileHash (s.makeItem item) where
  numbered := h.numbered
  made k t ht := by
    have hmade := h.made k t ht
    have hle : s.heap.length ≤ (s.heap ++ [item]).length := by simp
    exact ⟨hmade.1.mono hle, fun r hr => (hmade.2 r hr).mono hle⟩
  distinct j k t u ht hu heq := by
    have heq : tileValue (s.heap ++ [item]) t = tileValue (s.heap ++ [item]) u := heq
    rw [tileValue_add (h.made j t ht), tileValue_add (h.made k u hu)] at heq
    exact h.distinct j k t u ht hu heq
  cached k t ht := by
    have hsame : tileValue (s.makeItem item).heap t = tileValue s.heap t := tileValue_add (h.made k t ht) item
    rw [hsame]
    exact h.cached k t ht
  itemReplied a p hp := by
    obtain ⟨hlt, htree⟩ := h.itemReplied a p hp
    refine ⟨Nat.lt_of_lt_of_le hlt (by simp [MapCache.makeItem]), ?_⟩
    have hbelow : Dag.Below s.heap.length (some p) := by
      rintro q ⟨⟩
      exact hlt
    exact (Dag.tree_add hbelow item).trans htree
  tileReplied a k id hin := by
    obtain ⟨t, ht, hvalue, hid⟩ := h.tileReplied a k id hin
    exact ⟨t, ht, (tileValue_add (h.made k t ht) item).trans hvalue, hid⟩

theorem Exact.found (h : Exact tileHash s) {k : Nat} {t : BasicTile} (ht : s.tileStore[k]? = some t)
    (tile : BasicTile) (place : Nat) (heq : tileValue s.heap t = tileValue s.heap tile) :
    s.tryGetTileFromCache tileHash tile place = (s, k) := by
  have honly : ∀ j, s.tileAtEq j (tileValue s.heap tile) = true → j = k := by
    intro j hj
    obtain ⟨u, hu, hvalue⟩ := tileAtEq_iff.mp hj
    exact h.distinct j k u t hu ht (hvalue.trans heq.symm)
  have hk : s.tileAtEq k (tileValue s.heap tile) = true := tileAtEq_iff.mpr ⟨t, ht, heq⟩
  have hcached := h.cached k t ht
  rw [heq] at hcached
  have hcollisions : (tileHash (tileValue s.heap tile), k) ∈ s.tileCollisions → ∀ hasPrimary,
      tryGetTileFromCache.collisions tile place s (tileHash (tileValue s.heap tile)) (tileValue s.heap tile)
        hasPrimary = (s, k) := by
    intro hin hasPrimary
    unfold tryGetTileFromCache.collisions
    cases hf : s.findTile (tileHash (tileValue s.heap tile)) (tileValue s.heap tile) with
    | none =>
      have hmissed := find?_eq_none.mp hf _ hin
      exact absurd hmissed (by simp [hk])
    | some e =>
      have hfound := find?_some hf
      simp only [and_eq_true] at hfound
      exact congrArg (Prod.mk s) (honly e.2 hfound.2)
  unfold tryGetTileFromCache
  dsimp only
  cases hc : s.tileCache (tileHash (tileValue s.heap tile)) with
  | none =>
    rcases hcached with hp | hin
    · rw [hp] at hc
      cases hc
    · exact hcollisions hin false
  | some j =>
    dsimp only
    split
    · next hj => rw [honly j hj]
    next hj =>
    rcases hcached with hp | hin
    · rw [hp] at hc
      cases hc
      exact absurd hk hj
    · exact hcollisions hin true

theorem missed (tileHash : TileValue → Hash) (tile : BasicTile) (place : Nat)
    (hnew : ∀ (k : Nat) t, s.tileStore[k]? = some t → tileValue s.heap t ≠ tileValue s.heap tile) :
    ∃ hasPrimary, (hasPrimary = false → s.tileCache (tileHash (tileValue s.heap tile)) = none) ∧
      s.tryGetTileFromCache tileHash tile place =
        s.storeTile (tileHash (tileValue s.heap tile)) tile place hasPrimary := by
  have hmiss : ∀ k, s.tileAtEq k (tileValue s.heap tile) = false := by
    intro k
    rw [eq_false_iff]
    intro hk
    obtain ⟨t, ht, hvalue⟩ := tileAtEq_iff.mp hk
    exact hnew k t ht hvalue
  have hcollisions : ∀ hash hasPrimary, tryGetTileFromCache.collisions tile place s hash (tileValue s.heap tile)
      hasPrimary = s.storeTile hash tile place hasPrimary := by
    intro hash hasPrimary
    unfold tryGetTileFromCache.collisions
    have hf : s.findTile hash (tileValue s.heap tile) = none := by
      refine find?_eq_none.mpr fun e _ => ?_
      rw [hmiss, Bool.and_false]
      exact Bool.false_ne_true
    rw [hf]
  unfold tryGetTileFromCache
  dsimp only
  cases hc : s.tileCache (tileHash (tileValue s.heap tile)) with
  | none => exact ⟨false, fun _ => rfl, hcollisions _ false⟩
  | some j =>
    refine ⟨true, (fun hfalse => by cases hfalse), ?_⟩
    dsimp only
    rw [hmiss]
    exact hcollisions _ true

theorem tryGetTile_cases (hash : TileValue → Hash) (tile : BasicTile) (place : Nat) (s : MapCache) :
    (s.tryGetTileFromCache hash tile place).1 = s ∨
      ∃ h hasPrimary, s.tryGetTileFromCache hash tile place = s.storeTile h tile place hasPrimary := by
  have hcollisions : ∀ h value hasPrimary, (tryGetTileFromCache.collisions tile place s h value hasPrimary).1 = s ∨
      tryGetTileFromCache.collisions tile place s h value hasPrimary = s.storeTile h tile place hasPrimary := by
    intro h value hasPrimary
    unfold tryGetTileFromCache.collisions
    cases s.findTile h value with
    | some e => exact .inl rfl
    | none => exact .inr rfl
  unfold tryGetTileFromCache
  dsimp only
  cases s.tileCache (hash (tileValue s.heap tile)) with
  | none => exact (hcollisions _ _ false).imp_right fun heq => ⟨_, false, heq⟩
  | some cached =>
    dsimp only
    split
    · exact .inl rfl
    · exact (hcollisions _ _ true).imp_right fun heq => ⟨_, true, heq⟩

theorem apply_grows (itemHash : ItemValue → Hash) (tileHash : TileValue → Hash) (op : Op) (hc : Called s op) :
    ((apply itemHash tileHash s op).heap = s.heap ∨ ∃ item : BasicItem,
        (∀ r ∈ item.children, Dag.Below s.heap.length r) ∧ (apply itemHash tileHash s op).heap = s.heap ++ [item]) ∧
      s.tileStore.length ≤ (apply itemHash tileHash s op).tileStore.length := by
  cases op with
  | tryGetItemFromCache item place =>
    obtain ⟨cache, collisions, heq | heq, -⟩ := itemCall_tryGet itemHash item place s
    · have hheap := congrArg MapCache.heap heq
      have hlen := congrArg (fun s => s.tileStore.length) heq
      exact ⟨.inl hheap, hlen.ge⟩
    · have hheap := congrArg MapCache.heap heq
      have hlen := congrArg (fun s => s.tileStore.length) heq
      exact ⟨.inr ⟨item, hc, hheap⟩, hlen.ge⟩
  | tryGetTileFromCache tile place =>
    show ((s.tryGetTileFromCache tileHash tile place).1.heap = _ ∨ _) ∧
      _ ≤ (s.tryGetTileFromCache tileHash tile place).1.tileStore.length
    rcases tryGetTile_cases tileHash tile place s with heq | ⟨h, hasPrimary, heq⟩
    · rw [heq]
      exact ⟨.inl rfl, le_rfl⟩
    · rw [heq]
      unfold storeTile
      cases hasPrimary <;> exact ⟨.inl rfl, by simp⟩
  | makeItem item => exact ⟨.inr ⟨item, hc, rfl⟩, le_rfl⟩
  | dropItem p => exact ⟨.inl rfl, le_rfl⟩
  | cleanupExpiredEntries => exact ⟨.inl rfl, le_rfl⟩

theorem mem_emplace {α : Type} {place : Nat} {entry e : Hash × α} {entries : List (Hash × α)} :
    e ∈ emplace place entry entries ↔ e = entry ∨ e ∈ entries := by
  unfold emplace
  rw [mem_append, mem_cons]
  constructor
  · grind
  rintro (h | h)
  · exact .inr (.inl h)
  · rw [← take_append_drop place entries, mem_append] at h
    exact h.imp_right Or.inr

theorem getElem?_snoc {α : Type} {l : List α} {a b : α} {k : Nat} :
    (l ++ [a])[k]? = some b ↔ l[k]? = some b ∨ k = l.length ∧ b = a := by
  rcases Nat.lt_trichotomy k l.length with hk | rfl | hk
  · rw [getElem?_append_left hk]
    exact ⟨.inl, fun h => h.resolve_right fun heq => Nat.ne_of_lt hk heq.1⟩
  · simp [eq_comm]
  · rw [getElem?_eq_none (by simp; omega), getElem?_eq_none (by omega)]
    simp
    omega

theorem Exact.storeTile (h : Exact tileHash s) {tile : BasicTile} (hmade : TileMade s.heap.length tile)
    (hnew : ∀ (k : Nat) t, s.tileStore[k]? = some t → tileValue s.heap t ≠ tileValue s.heap tile)
    (place : Nat) {hasPrimary : Bool}
    (hprimary : hasPrimary = false → s.tileCache (tileHash (tileValue s.heap tile)) = none) :
    Exact tileHash (s.storeTile (tileHash (tileValue s.heap tile)) tile place hasPrimary).1 := by
  generalize hh : tileHash (tileValue s.heap tile) = hash at hprimary ⊢
  generalize hr : (s.storeTile hash tile place hasPrimary).1 = s'
  obtain ⟨hheap, hstore, hitems, hreplies⟩ : s'.heap = s.heap ∧
      s'.tileStore = s.tileStore ++ [{ tile with cacheId := BitVec.ofNat 32 (s.tileStore.length + 1) }] ∧
      s'.itemReplies = s.itemReplies ∧ s'.tileReplies = s.tileReplies := by
    subst hr
    cases hasPrimary <;> exact ⟨rfl, rfl, rfl, rfl⟩
  have hcache : ∀ k g, s.tileCache g = some k ∨ (g, k) ∈ s.tileCollisions →
      s'.tileCache g = some k ∨ (g, k) ∈ s'.tileCollisions := by
    subst hr
    intro k g hk
    cases hasPrimary with
    | true => exact hk.imp_right fun hin => mem_emplace.mpr (.inr hin)
    | false =>
      refine hk.imp_left fun hp => ?_
      have hne : g ≠ hash := by
        grind
      exact (update_of_ne hne _ _).trans hp
  have hself : s'.tileCache hash = some s.tileStore.length ∨ (hash, s.tileStore.length) ∈ s'.tileCollisions := by
    subst hr
    cases hasPrimary with
    | true => exact .inr (mem_emplace.mpr (.inl rfl))
    | false => exact .inl (update_self _ _ _)
  refine ⟨?numbered, ?made, ?distinct, ?cached, ?itemReplied, ?tileReplied⟩
  all_goals simp only [hheap, hstore, hitems, hreplies]
  case numbered =>
    intro k t ht
    rcases getElem?_snoc.mp ht with ht | ⟨rfl, rfl⟩
    · exact h.numbered k t ht
    · rfl
  case made =>
    intro k t ht
    rcases getElem?_snoc.mp ht with ht | ⟨rfl, rfl⟩
    · exact h.made k t ht
    · exact hmade
  case distinct =>
    intro j k t u ht hu heq
    rcases getElem?_snoc.mp ht with ht | ⟨rfl, rfl⟩
    · rcases getElem?_snoc.mp hu with hu | ⟨rfl, rfl⟩
      · exact h.distinct j k t u ht hu heq
      · exact absurd heq (hnew j t ht)
    · rcases getElem?_snoc.mp hu with hu | ⟨rfl, rfl⟩
      · exact absurd heq.symm (hnew k u hu)
      · rfl
  case cached =>
    intro k t ht
    rcases getElem?_snoc.mp ht with ht | ⟨rfl, rfl⟩
    · exact hcache k _ (h.cached k t ht)
    · have hvalue : tileHash (tileValue s.heap { tile with cacheId := BitVec.ofNat 32 (s.tileStore.length + 1) }) = hash := hh
      rw [hvalue]
      exact hself
  case itemReplied => exact h.itemReplied
  case tileReplied =>
    intro a k id hin
    obtain ⟨t, ht, hvalue, hid⟩ := h.tileReplied a k id hin
    exact ⟨t, getElem?_snoc.mpr (.inl ht), hvalue, hid⟩

theorem Exact.tryGetTile (h : Exact tileHash s) {tile : BasicTile} (hmade : TileMade s.heap.length tile) (place : Nat) :
    Exact tileHash (s.tryGetTileFromCache tileHash tile place).1 ∧
      ∃ t, (s.tryGetTileFromCache tileHash tile place).1.tileStore[(s.tryGetTileFromCache tileHash tile place).2]? = some t ∧
        tileValue (s.tryGetTileFromCache tileHash tile place).1.heap t = tileValue s.heap tile := by
  by_cases hin : ∃ (k : Nat) (t : BasicTile), s.tileStore[k]? = some t ∧ tileValue s.heap t = tileValue s.heap tile
  · obtain ⟨k, t, ht, heq⟩ := hin
    rw [h.found ht tile place heq]
    exact ⟨h, t, ht, heq⟩
  have hnew : ∀ (k : Nat) t, s.tileStore[k]? = some t → tileValue s.heap t ≠ tileValue s.heap tile :=
    fun k t ht heq => hin ⟨k, t, ht, heq⟩
  obtain ⟨hasPrimary, hprimary, heq⟩ := missed tileHash tile place hnew
  rw [heq]
  refine ⟨h.storeTile hmade hnew place hprimary, { tile with cacheId := BitVec.ofNat 32 (s.tileStore.length + 1) }, ?_, ?_⟩
  · cases hasPrimary <;> exact getElem?_concat_length
  · cases hasPrimary <;> rfl

theorem Exact.step (h : Exact tileHash s) {op : Op} (hc : Called s op) : Exact tileHash (apply itemHash tileHash s op) := by
  cases op with
  | tryGetItemFromCache item place =>
    obtain ⟨cache, collisions, heq, htree⟩ := itemCall_tryGet itemHash item place s
    have hexact : Exact tileHash (s.tryGetItemFromCache itemHash item place).1 := by
      rcases heq with heq | heq
      · rw [heq]
        exact h.itemCaches cache collisions s.expired
      · rw [heq]
        exact (h.makeItem item).itemCaches cache collisions s.expired
    refine { hexact with itemReplied := ?_ }
    intro a p hp
    rcases mem_cons.mp hp with hp | hp
    · cases hp
      exact ⟨Dag.lt_of_tree (fun hnull => nomatch htree.symm.trans hnull), htree⟩
    · exact hexact.itemReplied a p hp
  | tryGetTileFromCache tile place =>
    obtain ⟨hexact, t, ht, hvalue⟩ := h.tryGetTile hc place
    refine { hexact with tileReplied := ?_ }
    intro a k id hin
    rcases mem_cons.mp hin with hin | hin
    · cases hin
      refine ⟨t, ht, hvalue, ?_⟩
      rw [idOf, ht]
      rfl
    · exact hexact.tileReplied a k id hin
  | makeItem item => exact h.makeItem item
  | dropItem p => exact h.itemCaches s.itemCache s.itemCollisions _
  | cleanupExpiredEntries => exact h.itemCaches _ _ s.expired

theorem exact_run (h : Exact tileHash s) {ops : List Op} (ha : Allowed (apply itemHash tileHash) Called s ops) :
    Exact tileHash (run (apply itemHash tileHash) s ops) := by
  induction ops generalizing s with
  | nil => exact h
  | cons op ops ih => exact ih (h.step ha.1) ha.2

/-- The templates that callers got are what they asked for. -/
structure Templates (s : MapCache) : Prop where
  item : ∀ a p, (a, p) ∈ s.itemReplies → Dag.tree s.heap (some p) = a
  tile : ∀ a k id, (a, k, id) ∈ s.tileReplies → ∃ t, s.tileStore[k]? = some t ∧ tileValue s.heap t = a

/-- The ids that callers got tell the tiles apart and look them up. -/
structure Ids (s : MapCache) : Prop where
  eq_iff : ∀ a k id b l id', (a, k, id) ∈ s.tileReplies → (b, l, id') ∈ s.tileReplies → (id = id' ↔ a = b)
  lookup : ∀ a k id, (a, k, id) ∈ s.tileReplies → s.getTileById id = s.tileStore[k]?

theorem Exact.ids (h : Exact tileHash s) (hlen : s.tileStore.length < 2 ^ 32) : Ids s where
  eq_iff a k id b l id' ha hb := by
    obtain ⟨t, ht, rfl, rfl⟩ := h.tileReplied a k id ha
    obtain ⟨u, hu, rfl, rfl⟩ := h.tileReplied b l id' hb
    have hk : k < s.tileStore.length := (List.getElem?_eq_some_iff.mp ht).1
    have hl : l < s.tileStore.length := (List.getElem?_eq_some_iff.mp hu).1
    rw [h.numbered k t ht, h.numbered l u hu]
    constructor
    · intro hid
      have hnat := congrArg BitVec.toNat hid
      rw [BitVec.toNat_ofNat, BitVec.toNat_ofNat, Nat.mod_eq_of_lt (by omega), Nat.mod_eq_of_lt (by omega)] at hnat
      obtain rfl : k = l := by omega
      rw [Option.some.inj (ht.symm.trans hu)]
    · intro hvalue
      rw [h.distinct k l t u ht hu hvalue]
  lookup a k id ha := by
    obtain ⟨t, ht, -, rfl⟩ := h.tileReplied a k id ha
    have hk : k < s.tileStore.length := (List.getElem?_eq_some_iff.mp ht).1
    have hid : t.cacheId.toNat = k + 1 := by
      rw [h.numbered k t ht, BitVec.toNat_ofNat, Nat.mod_eq_of_lt (by omega)]
    have hsome : ¬(t.cacheId = 0 ∨ t.cacheId.toNat > s.tileStore.length) := by
      grind
    rw [getTileById, if_neg hsome, hid, Nat.add_sub_cancel]

/-- In every run, whatever the hash functions, with items going out of use at any time. -/
theorem templates_exact (itemHash : ItemValue → Hash) (tileHash : TileValue → Hash) (ops : List Op)
    (h : Allowed (apply itemHash tileHash) Called {} ops) :
    Templates (run (apply itemHash tileHash) {} ops) ∧
      ((run (apply itemHash tileHash) {} ops).tileStore.length < 2 ^ 32 → Ids (run (apply itemHash tileHash) {} ops)) := by
  have hexact := exact_run exact_start h
  refine ⟨⟨fun a p hp => (hexact.itemReplied a p hp).2, ?_⟩, hexact.ids⟩
  intro a k id hin
  obtain ⟨t, ht, hvalue, -⟩ := hexact.tileReplied a k id hin
  exact ⟨t, ht, hvalue⟩

/-- One hash for everything; the first item goes out of use and is made again. -/
theorem templates_exact_colliding :
    let s := run (apply (fun _ => 0) fun _ => 0) {}
      [.tryGetItemFromCache ⟨{ id := 100 }, []⟩ 0, .dropItem 0, .tryGetItemFromCache ⟨{ id := 100 }, []⟩ 0,
        .tryGetTileFromCache { ground := some 1 } 0, .tryGetTileFromCache { flags := 1 } 0,
        .tryGetTileFromCache { ground := some 1 } 0]
    s.tileReplies.map (·.2.2) = [1, 2, 1] ∧ Templates s ∧ Ids s := by
  have hexact := templates_exact (fun _ => 0) (fun _ => 0)
    [.tryGetItemFromCache ⟨{ id := 100 }, []⟩ 0, .dropItem 0, .tryGetItemFromCache ⟨{ id := 100 }, []⟩ 0,
      .tryGetTileFromCache { ground := some 1 } 0, .tryGetTileFromCache { flags := 1 } 0,
      .tryGetTileFromCache { ground := some 1 } 0]
    ⟨(fun _ hr => nomatch hr), trivial, (fun _ hr => nomatch hr),
      ⟨(by rintro p ⟨⟩; decide), fun _ hr => nomatch hr⟩, ⟨(by rintro p ⟨⟩), fun _ hr => nomatch hr⟩,
      ⟨(by rintro p ⟨⟩; decide), fun _ hr => nomatch hr⟩, trivial⟩
  exact ⟨by decide, hexact.1, hexact.2 (by decide)⟩

/-! ## The end of the ids -/

/-- `n` tiles that differ in the house. -/
def manyTiles (n : Nat) : List Op :=
  (List.range n).map fun i => .tryGetTileFromCache { houseId := BitVec.ofNat 32 i } 0

/-- The store after the first `n` of them. -/
def Many (n : Nat) (s : MapCache) : Prop :=
  s.tileStore.length = n ∧ ∀ (k : Nat) t, s.tileStore[k]? = some t → t.houseId = BitVec.ofNat 32 k

theorem Many.next (itemHash : ItemValue → Hash) (tileHash : TileValue → Hash) {n : Nat} (hn : n < 2 ^ 32) (h : Many n s) :
    Many (n + 1) (apply itemHash tileHash s (.tryGetTileFromCache { houseId := BitVec.ofNat 32 n } 0)) ∧
      ∃ a, (a, n, BitVec.ofNat 32 (n + 1)) ∈
        (apply itemHash tileHash s (.tryGetTileFromCache { houseId := BitVec.ofNat 32 n } 0)).tileReplies := by
  have hnew : ∀ (k : Nat) t, s.tileStore[k]? = some t →
      tileValue s.heap t ≠ tileValue s.heap { houseId := BitVec.ofNat 32 n } := by
    intro k t ht heq
    have hk : k < n := h.1 ▸ (List.getElem?_eq_some_iff.mp ht).1
    have hhouse : BitVec.ofNat 32 k = BitVec.ofNat 32 n := (h.2 k t ht).symm.trans (congrArg TileValue.houseId heq)
    have hnat := congrArg BitVec.toNat hhouse
    rw [BitVec.toNat_ofNat, BitVec.toNat_ofNat, Nat.mod_eq_of_lt (by omega), Nat.mod_eq_of_lt hn] at hnat
    omega
  obtain ⟨hasPrimary, -, heq⟩ := missed tileHash { houseId := BitVec.ofNat 32 n } 0 hnew
  have hstore : (s.tryGetTileFromCache tileHash { houseId := BitVec.ofNat 32 n } 0).1.tileStore =
      s.tileStore ++ [{ houseId := BitVec.ofNat 32 n, cacheId := BitVec.ofNat 32 (n + 1) }] := by
    rw [heq, ← h.1]
    cases hasPrimary <;> rfl
  have hplace : (s.tryGetTileFromCache tileHash { houseId := BitVec.ofNat 32 n } 0).2 = n := by
    rw [heq, ← h.1]
    rfl
  refine ⟨⟨?_, ?_⟩, tileValue s.heap { houseId := BitVec.ofNat 32 n }, mem_cons.mpr (.inl ?_)⟩
  · show (s.tryGetTileFromCache _ _ 0).1.tileStore.length = _
    rw [hstore, length_append, h.1]
    rfl
  · intro k t ht
    have ht : (s.tryGetTileFromCache tileHash { houseId := BitVec.ofNat 32 n } 0).1.tileStore[k]? = some t := ht
    rw [hstore] at ht
    rcases getElem?_snoc.mp ht with ht | ⟨hk, rfl⟩
    · exact h.2 k t ht
    · rw [hk, h.1]
  · rw [idOf, hplace, hstore]
    have hlast : (s.tileStore ++ [({ houseId := BitVec.ofNat 32 n, cacheId := BitVec.ofNat 32 (n + 1) } : BasicTile)])[n]? =
        some { houseId := BitVec.ofNat 32 n, cacheId := BitVec.ofNat 32 (n + 1) } :=
      getElem?_snoc.mpr (.inr ⟨h.1.symm, rfl⟩)
    rw [hlast]
    rfl

theorem manyTiles_succ (n : Nat) :
    manyTiles (n + 1) = manyTiles n ++ [.tryGetTileFromCache { houseId := BitVec.ofNat 32 n } 0] := by
  rw [manyTiles, range_succ, map_append]
  rfl

theorem many_run (itemHash : ItemValue → Hash) (tileHash : TileValue → Hash) {n : Nat} (hn : n ≤ 2 ^ 32) :
    Allowed (apply itemHash tileHash) Called {} (manyTiles n) ∧
      Many n (run (apply itemHash tileHash) {} (manyTiles n)) := by
  induction n with
  | zero => exact ⟨trivial, rfl, fun _ _ ht => nomatch ht⟩
  | succ n ih =>
    obtain ⟨hallowed, hmany⟩ := ih (by omega)
    rw [manyTiles_succ, allowed_append, run_append]
    refine ⟨⟨hallowed, ⟨?_, fun _ hr => nomatch hr⟩, trivial⟩, (hmany.next itemHash tileHash hn).1⟩
    rintro p ⟨⟩

/-- The tile with number 2^32 gets the id 0. -/
theorem ids_run_out : ¬ ∀ (itemHash : ItemValue → Hash) (tileHash : TileValue → Hash) (ops : List Op),
    Allowed (apply itemHash tileHash) Called {} ops →
      Templates (run (apply itemHash tileHash) {} ops) ∧ Ids (run (apply itemHash tileHash) {} ops) := by
  intro hclaim
  obtain ⟨n, hn⟩ : ∃ n, n + 1 = 2 ^ 32 := ⟨2 ^ 32 - 1, rfl⟩
  have hlookup := (hclaim (fun _ => 0) (fun _ => 0) (manyTiles (n + 1)) (many_run _ _ (Nat.le_of_eq hn)).1).2.lookup
  have hbefore := (many_run (fun _ => 0) (fun _ => 0) (show n ≤ 2 ^ 32 by omega)).2
  obtain ⟨hmany, a, ha⟩ := hbefore.next (fun _ => 0) (fun _ => 0) (by omega)
  rw [manyTiles_succ, run_append] at hlookup
  have hzero : BitVec.ofNat 32 (n + 1) = 0 := by rw [hn]; rfl
  have hnone := hlookup a n _ ha
  rw [hzero] at hnone
  have hle := List.getElem?_eq_none_iff.mp (hnone.symm.trans (if_pos (.inl rfl)))
  exact absurd (hmany.1.symm.le.trans hle) (Nat.not_succ_le_self n)

end MapCache

end Backlands.World
