/-
  Backlands.World.CacheRoundTrip — what was saved is what is loaded.

  A store and a map are built by calls: items and tiles go through the caches, squares are
  given templates. `Same` is what a loaded store and map have to be: the tiles under their
  ids with their pointers moved, where no two items in use move to one place; and every
  square's id.

  Proved: `cacheFile_roundTrip`, a store and a map built in any run within the limits of
  the format, with no null pointer among the items in use, are written and read back the
  same. `null_item_not_saved` is a tile with a null item: writing it throws.
-/

import Backlands.World.CacheFile

namespace Backlands.World

open Backlands.Lib Function List

namespace CacheFile

/-- The same tiles under the same ids, the same sharing of items, the same ids on the map. -/
structure Same (s : MapCache) (m : BasicMap) (s' : MapCache) (m' : BasicMap) : Prop where
  store : ∃ f : Ptr → Ptr, (∀ p q, InUse s p → InUse s q → f p = f q → p = q) ∧
    (∀ p, InUse s p → ∃ c, s.heap[p]? = some c ∧ s'.heap[f p]? = some ⟨c.label, c.children.map (Option.map f)⟩) ∧
    s'.tileStore = s.tileStore.map (movedTile f)
  tileId : ∀ x y z, m'.tileId x y z = m.tileId x y z
  width : m'.width = m.width
  height : m'.height = m.height
  spawnfile : m'.spawnfile = m.spawnfile
  housefile : m'.housefile = m.housefile

/-- No square has an id yet. -/
structure Fresh (m : BasicMap) : Prop where
  sound : BasicMap.Sound m
  empty : ∀ x y z, m.floorAt x y z = emptyFloor

variable {s : MapCache} {m : BasicMap}

theorem storeOf_moved (h : Storable s m) (f : Ptr → Ptr) :
    storeOf (s.tileStore.map fun t => { movedTile f t with cacheId := 0 }) = s.tileStore.map (movedTile f) := by
  refine ext_getElem? fun k => ?_
  rw [storeOf, getElem?_mapIdx, getElem?_map, getElem?_map]
  cases ht : s.tileStore[k]? with
  | none => rfl
  | some t =>
    rw [← h.numbered k t ht]
    rfl

theorem length_payloadOf (f : Fingerprint) (s : MapCache) (m : BasicMap) : 12 ≤ (payloadOf f s m).length := by
  have hmagic : MAP_CACHE_MAGIC.length = 8 := rfl
  have hversion : (u32 MAP_CACHE_VERSION).length = 4 := length_le _ _
  unfold payloadOf fingerprintRecord
  rw [append_assoc, append_assoc, length_append, length_append, hmagic, hversion]
  omega

theorem loadPersistent_eq (sha : Bytes → Digest) (f : Fingerprint) (h : Storable s m) (hfits : Fits s m) (hnull : NoNull s)
    (s₀ : MapCache) (m₀ : BasicMap) :
    loadPersistent sha f (payloadOf f s m ++ (sha (payloadOf f s m)).val) s₀ m₀ =
      some ({ heap := s₀.heap ++ (contentsOf s₀.heap.length s m).items, expired := s₀.expired,
              tileStore := storeOf (contentsOf s₀.heap.length s m).tiles,
              storeHasZones := (storeOf (contentsOf s₀.heap.length s m).tiles).any fun t => !t.zoneIds.isEmpty },
        m.forEachBasicFloorBlock.foldl BasicMap.setBasicFloorBlock
          { m₀ with width := m.width, height := m.height, spawnfile := m.spawnfile, housefile := m.housefile }) := by
  have hdigest : (sha (payloadOf f s m)).val.length = 32 := (sha (payloadOf f s m)).property
  have hlen : (payloadOf f s m ++ (sha (payloadOf f s m)).val).length - 32 = (payloadOf f s m).length := by
    rw [length_append, hdigest, Nat.add_sub_cancel]
  have hlong := length_payloadOf f s m
  have hmagic : MAP_CACHE_MAGIC.length = 8 := rfl
  unfold loadPersistent
  rw [hlen, take_left, drop_left, if_neg (by rw [length_append, hdigest, hmagic]; omega),
    if_neg (fun hne => hne rfl)]
  have hread := payload_read h hfits hnull f s₀.heap.length []
  rw [append_nil] at hread
  rw [hread]
  rfl

theorem Storable.roundTrip (sha : Bytes → Digest) (f : Fingerprint) (h : Storable s m) (hfits : Fits s m)
    (hnull : NoNull s) (s₀ : MapCache) {m₀ : BasicMap} (hm₀ : Fresh m₀) :
    ∃ file, savePersistent sha f s m = some file ∧ ∃ s' m', loadPersistent sha f file s₀ m₀ = some (s', m') ∧
      Same s m s' m' := by
  have hsave : savePersistent sha f s m = some (payloadOf f s m ++ (sha (payloadOf f s m)).val) := by
    rw [savePersistent, payload_eq h hfits hnull f]
    rfl
  refine ⟨_, hsave, _, _, loadPersistent_eq sha f h hfits hnull s₀ m₀, ?_⟩
  obtain ⟨hnum, hmem⟩ := numberItems_spec h.older h.root_below
  have hkept := BasicMap.fill_kept m.forEachBasicFloorBlock
    { m₀ with width := m.width, height := m.height, spawnfile := m.spawnfile, housefile := m.housefile }
  refine ⟨⟨moved s₀.heap.length (numberItems s), ?_, ?_, storeOf_moved h _⟩, fun x y z => ?_, hkept.1, hkept.2.1,
    hkept.2.2.1, hkept.2.2.2⟩
  · intro p q hp hq heq
    exact moved_injective hnum hfits.items ((hmem p).mpr hp) ((hmem q).mpr hq) heq
  · intro p hp
    obtain ⟨hcell, hchildren⟩ := h.cell hp
    refine ⟨cellAt s.heap p, hcell, ?_⟩
    obtain ⟨k, hk, -, hid, hlt⟩ := idOf_spec hnum hfits.items ((hmem p).mpr hp)
    have hmoved : moved s₀.heap.length (numberItems s) p = s₀.heap.length + k := by
      rw [moved, hid, Nat.add_sub_cancel]
    rw [hmoved, getElem?_append_right (Nat.le_add_right _ _), Nat.add_sub_cancel_left, ← hchildren]
    show ((numberItems s).items.map _)[k]? = _
    rw [getElem?_map, hk]
    rfl
  · have hsound : BasicMap.Sound
        { m₀ with width := m.width, height := m.height, spawnfile := m.spawnfile, housefile := m.housefile } :=
      ⟨hm₀.sound.tree, hm₀.sound.fresh⟩
    exact congrArg (fun floor : Floor => floor (offset x) (offset y)) (h.sound.fill_blocks hsound hm₀.empty x y z)

/-! ## Building -/

structure Loading where
  cache : MapCache := {}
  map : BasicMap := {}

inductive BuildOp where
  | cache (op : MapCache.Op)
  /-- A square is given a template of the store, or none. -/
  | setBasicTile (x y : BitVec 16) (z : BitVec 8) (basicTile : Option Nat)
  /-- A square is given a copy of a caller's tile. -/
  | setBasicTileCopy (x y : BitVec 16) (z : BitVec 8) (basicTile : Option BasicTile) (place : Nat)

def build (itemHash : ItemValue → Hash) (tileHash : TileValue → Hash) (w : Loading) : BuildOp → Loading
  | .cache op => { w with cache := w.cache.apply itemHash tileHash op }
  | .setBasicTile x y z k => { w with map := w.map.setBasicTile x y z (k.bind fun k => w.cache.tileStore[k]?) }
  | .setBasicTileCopy x y z none _ => { w with map := w.map.setBasicTile x y z none }
  | .setBasicTileCopy x y z (some basicTile) place =>
    let cacheCandidate := { basicTile with cacheId := 0 }
    let r := w.cache.tryGetTileFromCache tileHash cacheCandidate place
    { cache := w.cache.apply itemHash tileHash (.tryGetTileFromCache cacheCandidate place),
      map := w.map.setBasicTile x y z r.1.tileStore[r.2]? }

def Called (w : Loading) : BuildOp → Prop
  | .cache op => w.cache.Called op
  | .setBasicTile _ _ _ k => ∀ i, k = some i → i < w.cache.tileStore.length
  | .setBasicTileCopy _ _ _ basicTile _ => ∀ t, basicTile = some t → MapCache.TileMade w.cache.heap.length t

/-- A map before the first tile, of any size. -/
def empty (width height : BitVec 32) (spawnfile housefile : Bytes) : Loading :=
  { map := { width, height, spawnfile, housefile } }


/-- What every step of building keeps. -/
structure Built (tileHash : TileValue → Hash) (w : Loading) : Prop where
  exact : w.cache.Exact tileHash
  older : Older w.cache.heap
  sound : w.map.Sound
  ids : ∀ x y z a b, (w.map.floorAt x y z a b).toNat ≤ w.cache.tileStore.length

variable {itemHash : ItemValue → Hash} {tileHash : TileValue → Hash} {w : Loading}

theorem Built.storable (h : Built tileHash w) : Storable w.cache w.map where
  older := h.older
  made t ht := by
    obtain ⟨k, hk⟩ := mem_iff_getElem?.mp ht
    exact h.exact.made k t hk
  numbered := h.exact.numbered
  sound := h.sound
  ids := h.ids

theorem built_empty (width height : BitVec 32) (spawnfile housefile : Bytes) :
    Built tileHash (empty width height spawnfile housefile) :=
  ⟨MapCache.exact_start, (fun _ _ hr => nomatch hr), ⟨⟨[], inv_start⟩, fun _ _ _ => rfl⟩, fun _ _ _ _ _ => Nat.le_refl 0⟩

theorem older_add {heap : List BasicItem} (h : Older heap) {item : BasicItem}
    (hitem : ∀ r ∈ item.children, Dag.Below heap.length r) : Older (heap ++ [item]) := by
  intro p r hr
  rcases Nat.lt_trichotomy p heap.length with hp | rfl | hp
  · rw [childrenOf, getElem?_append_left hp] at hr
    exact h p r hr
  · rw [childrenOf, getElem?_concat_length] at hr
    exact hitem r hr
  · rw [childrenOf, getElem?_eq_none (by rw [length_append, length_singleton]; omega)] at hr
    cases hr

theorem Built.cache (h : Built tileHash w) {op : MapCache.Op} (hc : w.cache.Called op) :
    Built tileHash { w with cache := w.cache.apply itemHash tileHash op } := by
  obtain ⟨hheap, hlen⟩ := MapCache.apply_grows itemHash tileHash op hc
  refine ⟨h.exact.step hc, ?_, h.sound, fun x y z a b => (h.ids x y z a b).trans hlen⟩
  rcases hheap with heq | ⟨item, hitem, heq⟩
  · exact heq ▸ h.older
  · exact heq ▸ older_add h.older hitem

theorem Built.setTile (h : Built tileHash w) (x y : BitVec 16) (z : BitVec 8) {basicTile : Option BasicTile}
    (hin : ∀ t, basicTile = some t → ∃ k : Nat, w.cache.tileStore[k]? = some t) :
    Built tileHash { w with map := w.map.setBasicTile x y z basicTile } := by
  have hid : ((basicTile.map BasicTile.cacheId).getD 0).toNat ≤ w.cache.tileStore.length := by
    cases basicTile with
    | none => exact Nat.zero_le _
    | some t =>
      obtain ⟨k, hk⟩ := hin t rfl
      have hlt := (List.getElem?_eq_some_iff.mp hk).1
      show t.cacheId.toNat ≤ _
      rw [h.exact.numbered k t hk, BitVec.toNat_ofNat]
      exact (Nat.mod_le _ _).trans hlt
  refine ⟨h.exact, h.older, h.sound.setBasicTile x y z basicTile, fun u v w' a b => ?_⟩
  unfold BasicMap.setBasicTile
  split
  · rw [h.sound.floorAt_changeFloor]
    split
    · unfold BasicMap.setTileCache
      by_cases ha : a = offset x
      · subst ha
        rw [update_self]
        by_cases hb : b = offset y
        · subst hb
          rw [update_self]
          exact hid
        · rw [update_of_ne hb]
          exact h.ids _ _ _ _ _
      · rw [update_of_ne ha]
        exact h.ids _ _ _ _ _
    · exact h.ids _ _ _ _ _
  · exact h.ids _ _ _ _ _

theorem Built.step (h : Built tileHash w) {op : BuildOp} (hc : Called w op) :
    Built tileHash (build itemHash tileHash w op) := by
  cases op with
  | cache op => exact h.cache hc
  | setBasicTile x y z k =>
    refine h.setTile x y z fun t ht => ?_
    cases k with
    | none => cases ht
    | some k => exact ⟨k, ht⟩
  | setBasicTileCopy x y z basicTile place =>
    cases basicTile with
    | none => exact h.setTile x y z fun t ht => nomatch ht
    | some t =>
      have hcall : w.cache.Called (.tryGetTileFromCache { t with cacheId := 0 } place) := hc t rfl
      have hcached : Built tileHash { w with
          cache := w.cache.apply itemHash tileHash (.tryGetTileFromCache { t with cacheId := 0 } place) } := h.cache hcall
      exact hcached.setTile x y z fun u hu => ⟨_, hu⟩

theorem built_run (h : Built tileHash w) {ops : List BuildOp} (ha : Allowed (build itemHash tileHash) Called w ops) :
    Built tileHash (run (build itemHash tileHash) w ops) := by
  induction ops generalizing w with
  | nil => exact h
  | cons op ops ih => exact ih (h.step ha.1) ha.2

/-- Whatever was built is loaded again, by any process, into a map without ids. -/
theorem cacheFile_roundTrip (sha : Bytes → Digest) (f : Fingerprint) (itemHash : ItemValue → Hash)
    (tileHash : TileValue → Hash) (width height : BitVec 32) (spawnfile housefile : Bytes) (ops : List BuildOp)
    (ha : Allowed (build itemHash tileHash) Called (empty width height spawnfile housefile) ops)
    (w : Loading) (hw : w = run (build itemHash tileHash) (empty width height spawnfile housefile) ops)
    (hfits : Fits w.cache w.map) (hnull : NoNull w.cache) (s₀ : MapCache) (m₀ : BasicMap) (hm₀ : Fresh m₀) :
    ∃ file, savePersistent sha f w.cache w.map = some file ∧
      ∃ s' m', loadPersistent sha f file s₀ m₀ = some (s', m') ∧ Same w.cache w.map s' m' := by
  subst hw
  exact (built_run (built_empty width height spawnfile housefile) ha).storable.roundTrip sha f hfits hnull s₀ hm₀

def zeroDigest : Digest := ⟨List.replicate 32 0, length_replicate⟩

def zeroFingerprint : Fingerprint := ⟨0, 0, 0, 0, zeroDigest, zeroDigest, zeroDigest, zeroDigest⟩

theorem fresh_empty : Fresh {} := ⟨BasicMap.sound_start, fun _ _ _ => rfl⟩

/-- A bag with one item in it twice, on that item, in a corner of the map. -/
theorem cacheFile_roundTrip_bag :
    let w := run (build (fun _ => 0) fun _ => 0) (empty 0 0 [] [])
      [.cache (.tryGetItemFromCache ⟨{ id := 100 }, []⟩ 0),
        .cache (.tryGetItemFromCache ⟨{ id := 200 }, [some 0, some 0]⟩ 0),
        .cache (.tryGetTileFromCache { ground := some 0, items := [some 1] } 0),
        .setBasicTile 65535 0 7 (some 0)]
    ∃ file, savePersistent (fun _ => zeroDigest) zeroFingerprint w.cache w.map = some file ∧
      ∃ s' m', loadPersistent (fun _ => zeroDigest) zeroFingerprint file {} {} = some (s', m') ∧ Same w.cache w.map s' m' := by
  refine cacheFile_roundTrip (fun _ => zeroDigest) zeroFingerprint (fun _ => 0) (fun _ => 0) 0 0 [] []
    [.cache (.tryGetItemFromCache ⟨{ id := 100 }, []⟩ 0),
      .cache (.tryGetItemFromCache ⟨{ id := 200 }, [some 0, some 0]⟩ 0),
      .cache (.tryGetTileFromCache { ground := some 0, items := [some 1] } 0),
      .setBasicTile 65535 0 7 (some 0)] ?_ _ rfl ?_ ?_ {} {} fresh_empty
  · refine ⟨(fun r hr => nomatch hr), ?_, ⟨?_, ?_⟩, ?_, trivial⟩
    · show ∀ r ∈ [some 0, some 0], Dag.Below 1 r
      decide
    · show Dag.Below 2 (some 0)
      decide
    · show ∀ r ∈ [some 1], Dag.Below 2 r
      decide
    · show ∀ i, some 0 = some i → i < 1
      rintro i ⟨⟩
      exact Nat.zero_lt_one
  · refine ⟨by decide, by decide, by decide, fun p _ => ?_, fun p _ => ?_, by decide, by decide, by decide, by decide⟩
    · match p with
      | 0 => decide
      | 1 => decide
      | p + 2 => exact Nat.zero_le _
    · match p with
      | 0 => decide
      | 1 => decide
      | p + 2 => exact Nat.zero_le _
  · refine ⟨by decide, fun p _ => ?_⟩
    match p with
    | 0 => decide
    | 1 => decide
    | p + 2 => exact fun hnone => nomatch hnone

/-- Nothing is written for a tile with a null item: `itemIds.at` throws. -/
theorem null_item_not_saved : ¬ ∀ (sha : Bytes → Digest) (f : Fingerprint) (itemHash : ItemValue → Hash)
    (tileHash : TileValue → Hash) (width height : BitVec 32) (spawnfile housefile : Bytes) (ops : List BuildOp),
    Allowed (build itemHash tileHash) Called (empty width height spawnfile housefile) ops →
      ∀ w, w = run (build itemHash tileHash) (empty width height spawnfile housefile) ops → Fits w.cache w.map →
        ∀ s₀ m₀, Fresh m₀ → ∃ file, savePersistent sha f w.cache w.map = some file ∧
          ∃ s' m', loadPersistent sha f file s₀ m₀ = some (s', m') ∧ Same w.cache w.map s' m' := by
  intro hclaim
  have hnone : ∀ p, ¬ InUse (build (fun _ => 0) (fun _ => 0) (empty 0 0 [] [])
      (.cache (.tryGetTileFromCache { items := [none] } 0))).cache p := by
    intro p hp
    induction hp with
    | root hp =>
      have hroots : some _ ∈ [none, none] := hp
      simp at hroots
    | child _ _ ih => exact ih
  obtain ⟨file, hfile, -⟩ := hclaim (fun _ => zeroDigest) zeroFingerprint (fun _ => 0) (fun _ => 0) 0 0 [] []
    [.cache (.tryGetTileFromCache { items := [none] } 0)] ⟨⟨(fun p hp => nomatch hp), fun r hr => mem_singleton.mp hr ▸ fun p hp => nomatch hp⟩, trivial⟩
    _ rfl ⟨by decide, by decide, by decide, fun p hp => absurd hp (hnone p), fun p hp => absurd hp (hnone p),
      by decide, by decide, by decide, by decide⟩ {} {} fresh_empty
  cases hfile

end CacheFile

end Backlands.World
