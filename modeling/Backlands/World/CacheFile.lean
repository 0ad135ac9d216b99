/-
  Backlands.World.CacheFile — the tile store and the map kept in a file
  (src/mapcache.cpp, `savePersistent` and `loadPersistent`).

  Items are numbered depth first, each before the items in it, and tiles and floor blocks
  refer to them by number. The file ends with a digest of what comes before. The hash is a
  parameter; a file is its bytes, and reading and writing it do not fail. The zones that
  loading registers are not modelled.
-/

import Backlands.World.BasicMap

namespace Backlands.World

open Backlands.Lib Function List Option

namespace CacheFile

def MAP_CACHE_MAGIC : Bytes := [0x54, 0x46, 0x53, 0x4D, 0x43, 0x30, 0x31, 0]

def MAP_CACHE_VERSION : BitVec 32 := 2

def MAX_CACHE_ENTRIES : Nat := 100000000

abbrev Digest := { bs : Bytes // bs.length = 32 }

/-- What has to be the same when the file is read: the versions of the client and of the
    items, and the digests of the sources. -/
structure Fingerprint where
  clientVersion : BitVec 32
  majorVersion : BitVec 32
  minorVersion : BitVec 32
  buildNumber : BitVec 32
  map : Digest
  itemsOtb : Digest
  itemsXml : Digest
  house : Digest

/-! ## Writing -/

def u8 (v : BitVec 8) : Bytes := le 1 v.toNat

def u16 (v : BitVec 16) : Bytes := le 2 v.toNat

def u32 (v : BitVec 32) : Bytes := le 4 v.toNat

def size (n : Nat) : Bytes := u32 (BitVec.ofNat 32 n)

def string (bs : Bytes) : Bytes := size bs.length ++ bs

structure Numbering where
  items : List Ptr := []
  itemIds : Ptr → Option (BitVec 32) := fun _ => none

def childrenOf (heap : List BasicItem) (p : Ptr) : List (Option Ptr) := (heap[p]?.map Cell.children).getD []

def addItem (heap : List BasicItem) : Nat → Numbering → Option Ptr → Numbering
  | _, n, none => n
  -- not reached: the items in an item are older than it
  | 0, n, some _ => n
  | fuel + 1, n, some p =>
    match n.itemIds p with
    | some _ => n
    | none =>
      let id := BitVec.ofNat 32 (n.items.length + 1)
      let n := { items := n.items ++ [p], itemIds := update n.itemIds p (some id) }
      (childrenOf heap p).foldl (addItem heap fuel) n

/-- The pointers of the tiles, in their order. -/
def roots (s : MapCache) : List (Option Ptr) := s.tileStore.flatMap fun t => t.ground :: t.items

def numberItems (s : MapCache) : Numbering := (roots s).foldl (addItem s.heap s.heap.length) {}

/-- `itemIds.at`, which throws for what has no number. -/
def idAt (ids : Ptr → Option (BitVec 32)) : Option Ptr → Option (BitVec 32)
  | some p => ids p
  | none => none

def itemRecord (ids : Ptr → Option (BitVec 32)) (item : BasicItem) : Option Bytes :=
  (item.children.mapM (idAt ids)).map fun children =>
    u16 item.label.id ++ (u16 item.label.charges ++ (u16 item.label.actionId ++ (u16 item.label.uniqueId ++
      (u16 item.label.destX ++ (u16 item.label.destY ++ (u16 item.label.doorOrDepotId ++ (u8 item.label.destZ ++
      (string item.label.text ++ (size item.children.length ++ children.flatMap u32)))))))))

def groundId (ids : Ptr → Option (BitVec 32)) : Option Ptr → Option (BitVec 32)
  | some p => ids p
  | none => some 0

def tileRecord (ids : Ptr → Option (BitVec 32)) (tile : BasicTile) : Option Bytes :=
  (groundId ids tile.ground).bind fun ground => (tile.items.mapM (idAt ids)).map fun items =>
    u32 ground ++ (size tile.items.length ++ (items.flatMap u32 ++ (size tile.zoneIds.length ++
      (tile.zoneIds.flatMap u16 ++ (u32 tile.flags ++ (u32 tile.houseId ++ u8 (if tile.isStatic then 1 else 0)))))))

def floorIds (floor : Floor) : List (BitVec 32) :=
  (List.finRange 8).flatMap fun x => (List.finRange 8).map fun y => floor x y

def blockRecord (b : BasicMap.Block) : Bytes := u16 b.x ++ (u16 b.y ++ (u8 b.z ++ (floorIds b.ids).flatMap u32))

def fingerprintRecord (f : Fingerprint) : Bytes :=
  MAP_CACHE_MAGIC ++ (u32 MAP_CACHE_VERSION ++ (u32 f.clientVersion ++ (u32 f.majorVersion ++ (u32 f.minorVersion ++
    (u32 f.buildNumber ++ (f.map.val ++ (f.itemsOtb.val ++ (f.itemsXml.val ++ f.house.val))))))))

def mapRecord (m : BasicMap) : Bytes :=
  u32 m.width ++ (u32 m.height ++ (string m.spawnfile ++ string m.housefile))

/-- Everything before the digest; nothing when an item without a number is asked for. -/
def payload (f : Fingerprint) (s : MapCache) (m : BasicMap) : Option Bytes :=
  let numbering := numberItems s
  let blocks := m.forEachBasicFloorBlock
  (numbering.items.mapM fun p => s.heap[p]?.bind (itemRecord numbering.itemIds)).bind fun items =>
    (s.tileStore.mapM (tileRecord numbering.itemIds)).map fun tiles =>
      fingerprintRecord f ++ (mapRecord m ++ (size numbering.items.length ++ (size s.tileStore.length ++
        (size blocks.length ++ (items.flatten ++ (tiles.flatten ++ blocks.flatMap blockRecord))))))

def savePersistent (sha : Bytes → Digest) (f : Fingerprint) (s : MapCache) (m : BasicMap) : Option Bytes :=
  (payload f s m).map fun bs => bs ++ (sha bs).val

/-! ## Reading -/

def readU8 : Reader (BitVec 8) := (readUInt 1).map (BitVec.ofNat 8)

def readU16 : Reader (BitVec 16) := (readUInt 2).map (BitVec.ofNat 16)

def readU32 : Reader (BitVec 32) := (readUInt 4).map (BitVec.ofNat 32)

/-- A count up to `max`. -/
def readSize (max : Nat) : Reader Nat := readU32.filterMap fun n => if n.toNat > max then none else some n.toNat

def readString (max : Nat) : Reader Bytes := (readSize max).bind cut

def expect (bs : Bytes) : Reader Unit := (cut bs.length).filterMap fun read => if read = bs then some () else none

def readPendingItem : Reader (ItemFields × List (BitVec 32)) :=
  readU16.bind fun id => readU16.bind fun charges => readU16.bind fun actionId => readU16.bind fun uniqueId =>
    readU16.bind fun destX => readU16.bind fun destY => readU16.bind fun doorOrDepotId => readU8.bind fun destZ =>
      (readString (16 * 1024 * 1024)).bind fun text => (readSize MAX_CACHE_ENTRIES).bind fun childCount =>
        (readU32.times childCount).map fun children =>
          ({ text, id, charges, actionId, uniqueId, destX, destY, doorOrDepotId, destZ }, children)

/-- A number from one on to the pointer of the item; `base` is the pointer of the first. -/
def linkItem (base count : Nat) (id : BitVec 32) : Option (Option Ptr) :=
  if id = 0 ∨ id.toNat > count then none else some (some (base + (id.toNat - 1)))

def linkGround (base count : Nat) (id : BitVec 32) : Option (Option Ptr) :=
  if id.toNat > count then none else some (if id = 0 then none else some (base + (id.toNat - 1)))

def linkItems (base : Nat) (pending : List (ItemFields × List (BitVec 32))) : Option (List BasicItem) :=
  pending.mapM fun p => (p.2.mapM (linkItem base pending.length)).map (Cell.mk p.1)

def readTile (base count : Nat) : Reader BasicTile :=
  (readU32.filterMap (linkGround base count)).bind fun ground => (readSize MAX_CACHE_ENTRIES).bind fun tileItemCount =>
    ((readU32.filterMap (linkItem base count)).times tileItemCount).bind fun items => (readSize 65535).bind fun zoneCount =>
      (readU16.times zoneCount).bind fun zoneIds => readU32.bind fun flags => readU32.bind fun houseId =>
        readU8.map fun isStatic : BitVec 8 => { ground, items, zoneIds, flags, houseId, isStatic := decide (isStatic ≠ 0) }

def floorOf (ids : List (BitVec 32)) : Floor := fun x y => ids.getD (x.val * 8 + y.val) 0

def readBlock (tiles : Nat) : Reader BasicMap.Block :=
  readU16.bind fun x => readU16.bind fun y => readU8.bind fun z =>
    ((readU32.filterMap fun id => if id.toNat > tiles then none else some id).times 64).map fun ids =>
      ⟨x, y, z, floorOf ids⟩

def readFingerprint (f : Fingerprint) : Reader Unit :=
  (expect MAP_CACHE_MAGIC).bind fun _ => (expect (u32 MAP_CACHE_VERSION)).bind fun _ =>
    (expect (u32 f.clientVersion)).bind fun _ => (expect (u32 f.majorVersion)).bind fun _ =>
      (expect (u32 f.minorVersion)).bind fun _ => (expect (u32 f.buildNumber)).bind fun _ =>
        (expect f.map.val).bind fun _ => (expect f.itemsOtb.val).bind fun _ => (expect f.itemsXml.val).bind fun _ =>
          expect f.house.val

/-- What the file holds. -/
structure Contents where
  width : BitVec 32
  height : BitVec 32
  spawnfile : Bytes
  housefile : Bytes
  items : List BasicItem
  tiles : List BasicTile
  blocks : List BasicMap.Block

def readContents (f : Fingerprint) (base : Nat) : Reader Contents :=
  (readFingerprint f).bind fun _ => readU32.bind fun width => readU32.bind fun height =>
    (readString (64 * 1024)).bind fun spawnfile => (readString (64 * 1024)).bind fun housefile =>
      (readSize MAX_CACHE_ENTRIES).bind fun itemCount => (readSize MAX_CACHE_ENTRIES).bind fun tileCount =>
        (readSize MAX_CACHE_ENTRIES).bind fun blockCount =>
          ((readPendingItem.times itemCount).filterMap (linkItems base)).bind fun items =>
            ((readTile base itemCount).times tileCount).bind fun tiles =>
              ((readBlock tileCount).times blockCount).map fun blocks =>
                { width, height, spawnfile, housefile, items, tiles, blocks }

/-- The tiles of the file with the ids of their places. -/
def storeOf (tiles : List BasicTile) : List BasicTile :=
  tiles.mapIdx fun i t => { t with cacheId := BitVec.ofNat 32 (i + 1) }

/-- `false` is `none`; what a file that fails late leaves in the store and the map is not modelled. -/
def loadPersistent (sha : Bytes → Digest) (f : Fingerprint) (file : Bytes) (s : MapCache) (m : BasicMap) :
    Option (MapCache × BasicMap) :=
  if file.length < MAP_CACHE_MAGIC.length + 4 + 32 then none
  else
    let bs := file.take (file.length - 32)
    if (sha bs).val ≠ file.drop (file.length - 32) then none
    else
      (readContents f s.heap.length bs).map fun r =>
        let store := storeOf r.1.tiles
        ({ heap := s.heap ++ r.1.items, expired := s.expired, tileStore := store,
           storeHasZones := store.any fun t => !t.zoneIds.isEmpty },
          r.1.blocks.foldl BasicMap.setBasicFloorBlock
            { m with width := r.1.width, height := r.1.height, spawnfile := r.1.spawnfile, housefile := r.1.housefile })

/-! ## Fields -/

theorem parses_readUInt_bitVec {w k : Nat} (hw : 2 ^ w = 256 ^ k) (v : BitVec w) :
    Parses ((readUInt k).map (BitVec.ofNat w)) (le k v.toNat) v := by
  have hparses := (parses_readUInt (hw ▸ v.isLt)).map (BitVec.ofNat w)
  rwa [BitVec.ofNat_toNat, BitVec.setWidth_eq] at hparses

theorem parses_u8 (v : BitVec 8) : Parses readU8 (u8 v) v := parses_readUInt_bitVec (by decide) v

theorem parses_u16 (v : BitVec 16) : Parses readU16 (u16 v) v := parses_readUInt_bitVec (by decide) v

theorem parses_u32 (v : BitVec 32) : Parses readU32 (u32 v) v := parses_readUInt_bitVec (by decide) v

theorem parses_size {n max : Nat} (h : n ≤ max) (hmax : max < 2 ^ 32) : Parses (readSize max) (size n) n := by
  have hn : (BitVec.ofNat 32 n).toNat = n := by
    rw [BitVec.toNat_ofNat, Nat.mod_eq_of_lt (by omega)]
  refine (parses_u32 _).filterMap ?_
  rw [hn, if_neg (by omega)]

theorem parses_string {bs : Bytes} {max : Nat} (h : bs.length ≤ max) (hmax : max < 2 ^ 32) :
    Parses (readString max) (string bs) bs :=
  (parses_size h hmax).bind (parses_cut bs)

theorem parses_expect (bs : Bytes) : Parses (expect bs) bs () := (parses_cut bs).filterMap (if_pos rfl)

theorem parses_fingerprint (f : Fingerprint) : Parses (readFingerprint f) (fingerprintRecord f) () :=
  (parses_expect _).bind ((parses_expect _).bind ((parses_expect _).bind ((parses_expect _).bind
    ((parses_expect _).bind ((parses_expect _).bind ((parses_expect _).bind ((parses_expect _).bind
      ((parses_expect _).bind (parses_expect _)))))))))

/-! ## Numbers of items -/

/-- The pointers in the items, and in those in them, that a tile leads to. -/
inductive InUse (s : MapCache) : Ptr → Prop
  | root {p : Ptr} : some p ∈ roots s → InUse s p
  | child {p q : Ptr} : InUse s p → some q ∈ childrenOf s.heap p → InUse s q

def Older (heap : List BasicItem) : Prop := ∀ p, ∀ r ∈ childrenOf heap p, Dag.Below p r

structure Numbered (P : Ptr → Prop) (n : Numbering) : Prop where
  nodup : n.items.Nodup
  ids : ∀ p id, n.itemIds p = some id ↔ ∃ k : Nat, n.items[k]? = some p ∧ id = BitVec.ofNat 32 (k + 1)
  only : ∀ p ∈ n.items, P p

def ClosedAt (heap : List BasicItem) (n : Numbering) (q : Ptr) : Prop := ∀ p, some p ∈ childrenOf heap q → p ∈ n.items

/-- Items were added, each with all there is inside it. -/
structure Extends (P : Ptr → Prop) (heap : List BasicItem) (n n' : Numbering) : Prop where
  numbered : Numbered P n'
  kept : ∀ p ∈ n.items, p ∈ n'.items
  closed : ∀ q ∈ n'.items, q ∈ n.items ∨ ClosedAt heap n' q

variable {P : Ptr → Prop} {heap : List BasicItem} {n n' n'' : Numbering}

variable {p : Ptr} {r : Option Ptr}

theorem Extends.refl (h : Numbered P n) : Extends P heap n n := ⟨h, fun _ hp => hp, fun _ hq => .inl hq⟩

theorem Extends.trans (h : Extends P heap n n') (h' : Extends P heap n' n'') : Extends P heap n n'' := by
  refine ⟨h'.numbered, fun p hp => h'.kept p (h.kept p hp), fun q hq => ?_⟩
  rcases h'.closed q hq with hq | hclosed
  · rcases h.closed q hq with hq | hclosed
    · exact .inl hq
    · exact .inr fun p hp => h'.kept p (hclosed p hp)
  · exact .inr hclosed

theorem Numbered.mem_iff (h : Numbered P n) : p ∈ n.items ↔ ∃ id, n.itemIds p = some id := by
  constructor
  · intro hp
    obtain ⟨k, hk⟩ := mem_iff_getElem?.mp hp
    exact ⟨_, (h.ids p _).mpr ⟨k, hk, rfl⟩⟩
  · rintro ⟨id, hid⟩
    obtain ⟨k, hk, -⟩ := (h.ids p id).mp hid
    exact mem_of_getElem? hk

theorem Numbered.add (h : Numbered P n) (hnew : n.itemIds p = none) (hp : P p) :
    Numbered P { items := n.items ++ [p],
                 itemIds := update n.itemIds p (some (BitVec.ofNat 32 (n.items.length + 1))) } := by
  have hnot : p ∉ n.items := by
    intro hin
    obtain ⟨id, hid⟩ := h.mem_iff.mp hin
    rw [hnew] at hid
    cases hid
  refine ⟨?_, ?_, ?_⟩
  · exact (perm_append_singleton p n.items).nodup_iff.mpr (nodup_cons.mpr ⟨hnot, h.nodup⟩)
  · intro q id
    show update n.itemIds p _ q = some id ↔ ∃ k : Nat, (n.items ++ [p])[k]? = some q ∧ _
    by_cases hq : q = p
    · subst hq
      rw [update_self, Option.some.injEq]
      constructor
      · rintro rfl
        exact ⟨n.items.length, MapCache.getElem?_snoc.mpr (.inr ⟨rfl, rfl⟩), rfl⟩
      rintro ⟨k, hk, rfl⟩
      rcases MapCache.getElem?_snoc.mp hk with hk | ⟨rfl, -⟩
      · exact absurd (mem_of_getElem? hk) hnot
      · rfl
    · rw [update_of_ne hq, h.ids]
      refine exists_congr fun k => and_congr_left fun _ => ?_
      rw [MapCache.getElem?_snoc]
      exact ⟨.inl, fun hk => hk.resolve_right fun heq => hq heq.2⟩
  · intro q hq
    rcases mem_append.mp hq with hq | hq
    · exact h.only q hq
    · obtain rfl := mem_singleton.mp hq
      exact hp

theorem extends_foldl (heap : List BasicItem) (visit : Numbering → Option Ptr → Numbering) {rs : List (Option Ptr)} (h : Numbered P n)
    (hvisit : ∀ n, Numbered P n → ∀ r ∈ rs,
      Extends P heap n (visit n r) ∧ ∀ p, r = some p → p ∈ (visit n r).items) :
    Extends P heap n (rs.foldl visit n) ∧ ∀ p, some p ∈ rs → p ∈ (rs.foldl visit n).items := by
  induction rs generalizing n with
  | nil => exact ⟨Extends.refl h, fun p hp => nomatch hp⟩
  | cons r rs ih =>
    obtain ⟨hfirst, hr⟩ := hvisit n h r mem_cons_self
    obtain ⟨hrest, hrs⟩ := ih hfirst.numbered fun n hn r' hr' => hvisit n hn r' (mem_cons_of_mem r hr')
    refine ⟨hfirst.trans hrest, fun p hp => ?_⟩
    rcases mem_cons.mp hp with heq | hp
    · exact hrest.kept p (hr p heq.symm)
    · exact hrs p hp

theorem extends_addItem (hold : Older heap) (hP : ∀ p q, P p → some q ∈ childrenOf heap p → P q) (fuel : Nat)
    (hfuel : Dag.Below fuel r) (hr : ∀ p, r = some p → P p) (h : Numbered P n) :
    Extends P heap n (addItem heap fuel n r) ∧ ∀ p, r = some p → p ∈ (addItem heap fuel n r).items := by
  induction fuel generalizing n r with
  | zero =>
    cases r with
    | none => exact ⟨Extends.refl h, fun p hp => nomatch hp⟩
    | some p => exact absurd (hfuel p rfl) (Nat.not_lt_zero p)
  | succ fuel ih =>
    cases r with
    | none => exact ⟨Extends.refl h, fun p hp => nomatch hp⟩
    | some p =>
      unfold addItem
      cases hid : n.itemIds p with
      | some id =>
        refine ⟨Extends.refl h, ?_⟩
        rintro q ⟨⟩
        exact h.mem_iff.mpr ⟨id, hid⟩
      | none =>
        have hadd := h.add hid (hr p rfl)
        have hlt := hfuel p rfl
        obtain ⟨hext, hchildren⟩ := extends_foldl heap (addItem heap fuel) hadd fun n hn c hc =>
          ih ((hold p c hc).mono (by omega)) (fun q hq => hP p q (hr p rfl) (hq ▸ hc)) hn
        have hself : p ∈ ((childrenOf heap p).foldl (addItem heap fuel) _).items :=
          hext.kept p (mem_append_right _ (mem_singleton_self p))
        refine ⟨⟨hext.numbered, fun q hq => hext.kept q (mem_append_left _ hq), fun q hq => ?_⟩, ?_⟩
        · rcases hext.closed q hq with hq | hclosed
          · rcases mem_append.mp hq with hq | hq
            · exact .inl hq
            · obtain rfl := mem_singleton.mp hq
              exact .inr hchildren
          · exact .inr hclosed
        · rintro q ⟨⟩
          exact hself

theorem numberItems_spec {s : MapCache} (hold : Older s.heap) (hroots : ∀ r ∈ roots s, Dag.Below s.heap.length r) :
    Numbered (InUse s) (numberItems s) ∧ ∀ p, p ∈ (numberItems s).items ↔ InUse s p := by
  have hempty : Numbered (InUse s) {} :=
    ⟨nodup_nil, fun p id => ⟨fun h => (nomatch h), fun ⟨k, hk, _⟩ => (nomatch hk)⟩, fun p hp => nomatch hp⟩
  obtain ⟨hext, hrootsIn⟩ := extends_foldl s.heap (addItem s.heap s.heap.length) hempty fun n hn r hr =>
    extends_addItem hold (fun p q => InUse.child) s.heap.length (hroots r hr) (fun p hp => InUse.root (hp ▸ hr)) hn
  refine ⟨hext.numbered, fun p => ⟨hext.numbered.only p, fun hp => ?_⟩⟩
  induction hp with
  | root hp => exact hrootsIn _ hp
  | child _ hc ih =>
    rcases hext.closed _ ih with hin | hclosed
    · cases hin
    · exact hclosed _ hc

/-! ## Records -/

theorem mapM_some {α β : Type} {f : α → Option β} {g : α → β} {l : List α} (h : ∀ a ∈ l, f a = some (g a)) :
    l.mapM f = some (l.map g) := by
  induction l with
  | nil => rfl
  | cons a l ih =>
    rw [mapM_cons, h a mem_cons_self, ih fun b hb => h b (mem_cons_of_mem a hb)]
    rfl

theorem mapM_map_some {α β γ : Type} {f : β → Option γ} {k : α → β} {g : α → γ} {l : List α}
    (h : ∀ a ∈ l, f (k a) = some (g a)) : (l.map k).mapM f = some (l.map g) := by
  induction l with
  | nil => rfl
  | cons a l ih =>
    rw [map_cons, mapM_cons, h a mem_cons_self, ih fun b hb => h b (mem_cons_of_mem a hb)]
    rfl

def cellAt (heap : List BasicItem) (p : Ptr) : BasicItem := heap[p]?.getD ⟨{}, []⟩

def idOf (n : Numbering) (r : Option Ptr) : BitVec 32 := (idAt n.itemIds r).getD 0

/-- Where the item is in the heap after loading. -/
def moved (base : Nat) (n : Numbering) (p : Ptr) : Ptr := base + ((idOf n (some p)).toNat - 1)

section Numbers

variable (h : Numbered P n) (hlen : n.items.length ≤ MAX_CACHE_ENTRIES)
include h hlen

theorem idOf_spec (hp : p ∈ n.items) : ∃ k : Nat, n.items[k]? = some p ∧ n.itemIds p = some (idOf n (some p)) ∧
    (idOf n (some p)).toNat = k + 1 ∧ k < n.items.length := by
  obtain ⟨id, hid⟩ := h.mem_iff.mp hp
  obtain ⟨k, hk, rfl⟩ := (h.ids p id).mp hid
  have hlt : k < n.items.length := (List.getElem?_eq_some_iff.mp hk).1
  have hidOf : idOf n (some p) = BitVec.ofNat 32 (k + 1) := by
    show (n.itemIds p).getD 0 = _
    rw [hid]
    rfl
  refine ⟨k, hk, hidOf ▸ hid, ?_, hlt⟩
  unfold MAX_CACHE_ENTRIES at hlen
  rw [hidOf, BitVec.toNat_ofNat, Nat.mod_eq_of_lt (by omega)]

theorem link_moved (hp : p ∈ n.items) (base : Nat) :
    linkItem base n.items.length (idOf n (some p)) = some (some (moved base n p)) := by
  obtain ⟨k, -, -, hid, hlt⟩ := idOf_spec h hlen hp
  rw [linkItem, if_neg]
  · rfl
  · grind

theorem moved_injective {q : Ptr} (hp : p ∈ n.items) (hq : q ∈ n.items) {base : Nat}
    (heq : moved base n p = moved base n q) : p = q := by
  obtain ⟨k, hk, -, hid, -⟩ := idOf_spec h hlen hp
  obtain ⟨l, hl, -, hid', -⟩ := idOf_spec h hlen hq
  rw [moved, moved, hid, hid'] at heq
  obtain rfl : k = l := Nat.add_left_cancel heq
  exact Option.some.inj (hk.symm.trans hl)

end Numbers

def pending (heap : List BasicItem) (n : Numbering) (p : Ptr) : ItemFields × List (BitVec 32) :=
  ((cellAt heap p).label, (childrenOf heap p).map (idOf n))

def pendingRecord (p : ItemFields × List (BitVec 32)) : Bytes :=
  u16 p.1.id ++ (u16 p.1.charges ++ (u16 p.1.actionId ++ (u16 p.1.uniqueId ++ (u16 p.1.destX ++ (u16 p.1.destY ++
    (u16 p.1.doorOrDepotId ++ (u8 p.1.destZ ++ (string p.1.text ++ (size p.2.length ++ p.2.flatMap u32)))))))))

variable {g : Option Ptr → BitVec 32}

theorem parses_pending {p : ItemFields × List (BitVec 32)} (htext : p.1.text.length ≤ 16 * 1024 * 1024)
    (hchildren : p.2.length ≤ MAX_CACHE_ENTRIES) : Parses readPendingItem (pendingRecord p) p :=
  (parses_u16 _).bind ((parses_u16 _).bind ((parses_u16 _).bind ((parses_u16 _).bind ((parses_u16 _).bind
    ((parses_u16 _).bind ((parses_u16 _).bind ((parses_u8 _).bind ((parses_string htext (by decide)).bind
      ((parses_size hchildren (by decide)).bind ((Parses.times fun id _ => parses_u32 id).map _))))))))))

theorem cellAt_of_some {c : BasicItem} (h : heap[p]? = some c) :
    cellAt heap p = c ∧ childrenOf heap p = c.children := by
  rw [cellAt, childrenOf, h]
  exact ⟨rfl, rfl⟩

theorem itemRecord_eq {ids : Ptr → Option (BitVec 32)} {c : BasicItem} (h : ∀ r ∈ c.children, idAt ids r = some (g r)) :
    itemRecord ids c = some (pendingRecord (c.label, c.children.map g)) := by
  rw [itemRecord, mapM_some h, map_some, pendingRecord, length_map]

def movedTile (f : Ptr → Ptr) (t : BasicTile) : BasicTile :=
  { t with ground := t.ground.map f, items := t.items.map (Option.map f) }

def tileBytes (g : Option Ptr → BitVec 32) (t : BasicTile) : Bytes :=
  u32 (g t.ground) ++ (size t.items.length ++ ((t.items.map g).flatMap u32 ++ (size t.zoneIds.length ++
    (t.zoneIds.flatMap u16 ++ (u32 t.flags ++ (u32 t.houseId ++ u8 (if t.isStatic then 1 else 0)))))))

variable {t : BasicTile}

theorem tileRecord_eq {ids : Ptr → Option (BitVec 32)} (hground : groundId ids t.ground = some (g t.ground))
    (h : ∀ r ∈ t.items, idAt ids r = some (g r)) : tileRecord ids t = some (tileBytes g t) := by
  rw [tileRecord, hground, bind_some, mapM_some h, map_some, tileBytes]

theorem parses_tile {base count : Nat} {f : Ptr → Ptr}
    (hground : linkGround base count (g t.ground) = some (t.ground.map f))
    (hitems : ∀ r ∈ t.items, linkItem base count (g r) = some (r.map f)) (hcount : t.items.length ≤ MAX_CACHE_ENTRIES)
    (hzones : t.zoneIds.length ≤ 65535) :
    Parses (readTile base count) (tileBytes g t) { movedTile f t with cacheId := 0 } := by
  have hlinks : Parses ((readU32.filterMap (linkItem base count)).times t.items.length) ((t.items.map g).flatMap u32)
      (t.items.map (Option.map f)) := by
    rw [flatMap_map]
    exact Parses.times_map fun r hr => (parses_u32 _).filterMap (hitems r hr)
  have hstatic : decide ((if t.isStatic then 1 else 0 : BitVec 8) ≠ 0) = t.isStatic := by
    cases t.isStatic <;> rfl
  have hlast := (parses_u8 (if t.isStatic then 1 else 0)).map fun isStatic : BitVec 8 =>
    ({ ground := t.ground.map f, items := t.items.map (Option.map f), zoneIds := t.zoneIds, flags := t.flags,
       houseId := t.houseId, isStatic := decide (isStatic ≠ 0) } : BasicTile)
  rw [hstatic] at hlast
  exact ((parses_u32 _).filterMap hground).bind ((parses_size hcount (by decide)).bind (hlinks.bind
    ((parses_size hzones (by decide)).bind ((Parses.times fun id _ => parses_u16 id).bind ((parses_u32 _).bind
      ((parses_u32 _).bind hlast))))))

theorem getElem?_flatMap_uniform {α β : Type} {f : α → List β} {w : Nat} {l : List α} (h : ∀ a ∈ l, (f a).length = w)
    (i : Nat) {j : Nat} (hj : j < w) : (l.flatMap f)[i * w + j]? = l[i]?.bind fun a => (f a)[j]? := by
  induction l generalizing i with
  | nil => rfl
  | cons a l ih =>
    have ha := h a mem_cons_self
    rw [flatMap_cons]
    cases i with
    | zero =>
      rw [Nat.zero_mul, Nat.zero_add, getElem?_append_left (by omega)]
      rfl
    | succ i =>
      have hsplit : (i + 1) * w + j = (f a).length + (i * w + j) := by rw [ha, Nat.succ_mul]; omega
      rw [hsplit, getElem?_append_right (Nat.le_add_right _ _), Nat.add_sub_cancel_left]
      exact ih (fun b hb => h b (mem_cons_of_mem a hb)) i

theorem floorOf_floorIds (floor : Floor) : floorOf (floorIds floor) = floor := by
  have hlen : ∀ x ∈ List.finRange 8, ((List.finRange 8).map fun y => floor x y).length = 8 := by
    simp
  have hfin : ∀ x : Fin 8, (List.finRange 8)[x.val]? = some x := by
    simp
  funext x y
  rw [floorOf, floorIds, getD_eq_getElem?_getD, getElem?_flatMap_uniform hlen x.val y.isLt, hfin, bind_some,
    getElem?_map, hfin]
  rfl

theorem parses_block {tiles : Nat} {b : BasicMap.Block} (h : ∀ x y, (b.ids x y).toNat ≤ tiles) :
    Parses (readBlock tiles) (blockRecord b) b := by
  have hids : ∀ id ∈ floorIds b.ids, Parses
      (readU32.filterMap fun id => if id.toNat > tiles then none else some id) (u32 id) id := by
    intro id hid
    obtain ⟨x, -, hid⟩ := mem_flatMap.mp hid
    obtain ⟨y, -, rfl⟩ := mem_map.mp hid
    refine (parses_u32 _).filterMap (if_neg ?_)
    exact Nat.not_lt_of_le (h x y)
  have htimes := Parses.times hids
  have hlast := htimes.map fun ids => (⟨b.x, b.y, b.z, floorOf ids⟩ : BasicMap.Block)
  rw [floorOf_floorIds] at hlast
  exact (parses_u16 b.x).bind ((parses_u16 b.y).bind ((parses_u8 b.z).bind hlast))

/-! ## The file -/

/-- The limits of the format. -/
structure Fits (s : MapCache) (m : BasicMap) : Prop where
  items : (numberItems s).items.length ≤ MAX_CACHE_ENTRIES
  tiles : s.tileStore.length ≤ MAX_CACHE_ENTRIES
  blocks : m.forEachBasicFloorBlock.length ≤ MAX_CACHE_ENTRIES
  text : ∀ p, InUse s p → (cellAt s.heap p).label.text.length ≤ 16 * 1024 * 1024
  children : ∀ p, InUse s p → (childrenOf s.heap p).length ≤ MAX_CACHE_ENTRIES
  tileItems : ∀ t ∈ s.tileStore, t.items.length ≤ MAX_CACHE_ENTRIES
  zones : ∀ t ∈ s.tileStore, t.zoneIds.length ≤ 65535
  spawnfile : m.spawnfile.length ≤ 64 * 1024
  housefile : m.housefile.length ≤ 64 * 1024

structure NoNull (s : MapCache) : Prop where
  tiles : ∀ t ∈ s.tileStore, none ∉ t.items
  items : ∀ p, InUse s p → none ∉ childrenOf s.heap p

/-- What the store and the map are for a file to be read back. -/
structure Storable (s : MapCache) (m : BasicMap) : Prop where
  older : Older s.heap
  made : ∀ t ∈ s.tileStore, MapCache.TileMade s.heap.length t
  numbered : ∀ (k : Nat) t, s.tileStore[k]? = some t → t.cacheId = BitVec.ofNat 32 (k + 1)
  sound : BasicMap.Sound m
  ids : ∀ x y z a b, (m.floorAt x y z a b).toNat ≤ s.tileStore.length

section RoundTrip

variable {s : MapCache} {m : BasicMap}

theorem Storable.root_below (h : Storable s m) : ∀ r ∈ roots s, Dag.Below s.heap.length r := by
  intro r hr
  obtain ⟨t, ht, hr⟩ := mem_flatMap.mp hr
  rcases mem_cons.mp hr with rfl | hr
  · exact (h.made t ht).1
  · exact (h.made t ht).2 r hr

theorem Storable.inUse_lt (h : Storable s m) (hp : InUse s p) : p < s.heap.length := by
  induction hp with
  | root hp => exact h.root_below _ hp _ rfl
  | child _ hc ih => exact Nat.lt_trans (h.older _ _ hc _ rfl) ih

theorem Storable.cell (h : Storable s m) (hp : InUse s p) :
    s.heap[p]? = some (cellAt s.heap p) ∧ childrenOf s.heap p = (cellAt s.heap p).children := by
  have hsome := getElem?_eq_getElem (h.inUse_lt hp)
  obtain ⟨hcell, hchildren⟩ := cellAt_of_some hsome
  exact ⟨hsome.trans (congrArg some hcell.symm), hchildren.trans (congrArg Cell.children hcell.symm)⟩

/-- What the file holds, with the items from `base` on. -/
def contentsOf (base : Nat) (s : MapCache) (m : BasicMap) : Contents where
  width := m.width
  height := m.height
  spawnfile := m.spawnfile
  housefile := m.housefile
  items := (numberItems s).items.map fun p =>
    ⟨(cellAt s.heap p).label, (childrenOf s.heap p).map (Option.map (moved base (numberItems s)))⟩
  tiles := s.tileStore.map fun t => { movedTile (moved base (numberItems s)) t with cacheId := 0 }
  blocks := m.forEachBasicFloorBlock

theorem child_id (h : Storable s m) (hnull : NoNull s) (hp : InUse s p) (hr : r ∈ childrenOf s.heap p) :
    ∃ q, r = some q ∧ q ∈ (numberItems s).items := by
  cases r with
  | none => exact absurd hr (hnull.items p hp)
  | some q => exact ⟨q, rfl, ((numberItems_spec h.older h.root_below).2 q).mpr (InUse.child hp hr)⟩

theorem tile_id (h : Storable s m) (hnull : NoNull s) (ht : t ∈ s.tileStore) (hr : r ∈ t.items) :
    ∃ q, r = some q ∧ q ∈ (numberItems s).items := by
  cases r with
  | none => exact absurd hr (hnull.tiles t ht)
  | some q =>
    refine ⟨q, rfl, ((numberItems_spec h.older h.root_below).2 q).mpr (InUse.root ?_)⟩
    exact mem_flatMap.mpr ⟨t, ht, mem_cons_of_mem _ hr⟩

theorem ground_id (h : Storable s m) (ht : t ∈ s.tileStore) (hp : t.ground = some p) : p ∈ (numberItems s).items := by
  refine ((numberItems_spec h.older h.root_below).2 p).mpr (InUse.root ?_)
  exact mem_flatMap.mpr ⟨t, ht, hp ▸ mem_cons_self⟩

theorem idAt_numbered (h : Storable s m) (hfits : Fits s m) (hp : p ∈ (numberItems s).items) :
    idAt (numberItems s).itemIds (some p) = some (idOf (numberItems s) (some p)) := by
  obtain ⟨-, -, hid, -, -⟩ := idOf_spec (numberItems_spec h.older h.root_below).1 hfits.items hp
  exact hid

theorem items_written (h : Storable s m) (hfits : Fits s m) (hnull : NoNull s) :
    ((numberItems s).items.mapM fun p => s.heap[p]?.bind (itemRecord (numberItems s).itemIds)) =
      some ((numberItems s).items.map fun p => pendingRecord (pending s.heap (numberItems s) p)) := by
  refine mapM_some fun p hp => ?_
  have huse := ((numberItems_spec h.older h.root_below).2 p).mp hp
  obtain ⟨hcell, hchildren⟩ := h.cell huse
  rw [hcell, bind_some, pending, hchildren]
  refine itemRecord_eq fun r hr => ?_
  obtain ⟨q, rfl, hq⟩ := child_id h hnull huse (hchildren ▸ hr)
  exact idAt_numbered h hfits hq

theorem tiles_written (h : Storable s m) (hfits : Fits s m) (hnull : NoNull s) :
    s.tileStore.mapM (tileRecord (numberItems s).itemIds) = some (s.tileStore.map (tileBytes (idOf (numberItems s)))) := by
  refine mapM_some fun t ht => tileRecord_eq ?_ fun r hr => ?_
  · cases hground : t.ground with
    | none => rfl
    | some p => exact idAt_numbered h hfits (ground_id h ht hground)
  · obtain ⟨q, rfl, hq⟩ := tile_id h hnull ht hr
    exact idAt_numbered h hfits hq

theorem items_read (h : Storable s m) (hfits : Fits s m) (hnull : NoNull s) (base : Nat) :
    Parses ((readPendingItem.times (numberItems s).items.length).filterMap (linkItems base))
      ((numberItems s).items.flatMap fun p => pendingRecord (pending s.heap (numberItems s) p))
      (contentsOf base s m).items := by
  obtain ⟨hnum, hmem⟩ := numberItems_spec h.older h.root_below
  have hread : Parses (readPendingItem.times (numberItems s).items.length)
      ((numberItems s).items.flatMap fun p => pendingRecord (pending s.heap (numberItems s) p))
      ((numberItems s).items.map (pending s.heap (numberItems s))) := by
    refine Parses.times_map fun p hp => parses_pending (hfits.text p ((hmem p).mp hp)) ?_
    rw [pending, length_map]
    exact hfits.children p ((hmem p).mp hp)
  refine hread.filterMap (mapM_map_some fun p hp => ?_)
  have hlinks : ((childrenOf s.heap p).map (idOf (numberItems s))).mapM (linkItem base (numberItems s).items.length) =
      some ((childrenOf s.heap p).map (Option.map (moved base (numberItems s)))) := by
    refine mapM_map_some fun r hr => ?_
    obtain ⟨q, rfl, hq⟩ := child_id h hnull ((hmem p).mp hp) hr
    exact link_moved hnum hfits.items hq base
  rw [length_map, pending, hlinks]
  rfl

theorem tiles_read (h : Storable s m) (hfits : Fits s m) (hnull : NoNull s) (base : Nat) :
    Parses ((readTile base (numberItems s).items.length).times s.tileStore.length)
      (s.tileStore.flatMap (tileBytes (idOf (numberItems s)))) (contentsOf base s m).tiles := by
  have hnum := (numberItems_spec h.older h.root_below).1
  refine Parses.times_map fun t ht => parses_tile ?_ (fun r hr => ?_) (hfits.tileItems t ht) (hfits.zones t ht)
  · cases hground : t.ground with
    | none => exact if_neg (Nat.not_lt_zero _)
    | some p =>
      obtain ⟨k, -, -, hid, hlt⟩ := idOf_spec hnum hfits.items (ground_id h ht hground)
      have hzero : idOf (numberItems s) (some p) ≠ 0 := by
        intro hz
        rw [hz] at hid
        exact absurd hid (by simp)
      rw [linkGround, if_neg (by omega), if_neg hzero]
      rfl
  · obtain ⟨q, rfl, hq⟩ := tile_id h hnull ht hr
    exact link_moved hnum hfits.items hq base

def payloadOf (f : Fingerprint) (s : MapCache) (m : BasicMap) : Bytes :=
  fingerprintRecord f ++ (mapRecord m ++ (size (numberItems s).items.length ++ (size s.tileStore.length ++
    (size m.forEachBasicFloorBlock.length ++
      (((numberItems s).items.flatMap fun p => pendingRecord (pending s.heap (numberItems s) p)) ++
        (s.tileStore.flatMap (tileBytes (idOf (numberItems s))) ++ m.forEachBasicFloorBlock.flatMap blockRecord))))))

theorem payload_eq (h : Storable s m) (hfits : Fits s m) (hnull : NoNull s) (f : Fingerprint) :
    payload f s m = some (payloadOf f s m) := by
  unfold payload
  dsimp only
  rw [items_written h hfits hnull, bind_some, tiles_written h hfits hnull, map_some,
    ← flatMap_def, ← flatMap_def]
  rfl

theorem payload_read (h : Storable s m) (hfits : Fits s m) (hnull : NoNull s) (f : Fingerprint) (base : Nat) :
    Parses (readContents f base) (payloadOf f s m) (contentsOf base s m) := by
  have hblocks : Parses ((readBlock s.tileStore.length).times m.forEachBasicFloorBlock.length)
      (m.forEachBasicFloorBlock.flatMap blockRecord) m.forEachBasicFloorBlock := by
    refine Parses.times fun b hb => parses_block fun x y => ?_
    obtain ⟨z, -, hids⟩ := h.sound.blocks_sound hb
    rw [hids]
    exact h.ids _ _ _ _ _
  unfold payloadOf mapRecord
  simp only [append_assoc]
  exact (parses_fingerprint f).bind ((parses_u32 _).bind ((parses_u32 _).bind
    ((parses_string hfits.spawnfile (by decide)).bind ((parses_string hfits.housefile (by decide)).bind
      ((parses_size hfits.items (by decide)).bind ((parses_size hfits.tiles (by decide)).bind
        ((parses_size hfits.blocks (by decide)).bind ((items_read h hfits hnull base).bind
          ((tiles_read h hfits hnull base).bind (hblocks.map _))))))))))

end RoundTrip

end CacheFile

end Backlands.World
