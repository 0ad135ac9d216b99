/-
  Backlands.World.ItemStream — an item of the map file, read in full and read for the map cache
  (`Item::CreateItem`, `Item::unserializeAttr`, `readAttr` of the item classes, src/item.cpp,
  src/container.cpp, src/depotlocker.cpp, src/house.cpp, src/teleport.cpp, src/bed.cpp;
  `parseBasicItemFromStream`, src/mapcache.cpp).

  `Attributes.readAttr` is the base class. `items` is the item table, `addUniqueItem` says which
  unique ids are free, `getNameByGuid` names the sleeper of a bed; `roll` and `uid` are the
  duration and the number a new item gets. The game is told of a bed's sleeper, which is left
  out.

  Proved: `parsers_agree_iff`. On an accepted stream both take the same bytes attribute by
  attribute and end with the same values exactly when the stream is `Agreeable`. Counterexample:
  `imbuement_slots_misread`.
-/

import Backlands.Attributes.RoundTrip
import Backlands.Lib.Lockstep
import Backlands.World.MapCache

namespace Backlands.World.ItemStream

open Backlands.Lib Backlands.Attributes Function List

/-! ## Items -/

/-- `ItemType::type`, as far as `CreateItem` looks at it. -/
inductive ItemTypes
  | none | depot | rewardChest | teleport | magicField | door | trashHolder | mailbox | bed
  deriving DecidableEq

structure ItemType extends TypeInfo where
  id : BitVec 16
  /-- The group is `ITEM_GROUP_DEPRECATED`. -/
  deprecated : Bool := false
  /-- The group is `ITEM_GROUP_CONTAINER`. -/
  isContainer : Bool := false
  type : ItemTypes := .none

def ItemType.hasSubType (it : ItemType) : Bool := it.fluid || it.stackable || decide (it.charges ≠ 0)

/-- The classes that differ in `readAttr`. -/
inductive Form
  | item | container | depotLocker | teleport | door | bed
  deriving DecidableEq

structure MapItem where
  form : Form
  id : BitVec 16
  item : Item
  destX : BitVec 16 := 0
  destY : BitVec 16 := 0
  destZ : BitVec 8 := 0
  depotId : BitVec 16 := 0
  sleeperGUID : BitVec 32 := 0
  sleepStart : BitVec 64 := 0

def MapItem.getUniqueId (r : MapItem) : BitVec 16 := (r.item.getIntAttr .uniqueId).setWidth 16

def MapItem.getDoorId (r : MapItem) : BitVec 32 := (r.item.getIntAttr .doorId).setWidth 32

section Create

variable (items : BitVec 16 → ItemType) (roll : BitVec 32) (uid : BitVec 64)

def makeItem (form : Form) (type count : BitVec 16) : MapItem :=
  { form, id := type, item := newItem (items type).toTypeInfo count roll }

def assignUID (r : MapItem) : MapItem :=
  if (items r.id).stackable then r else { r with item := r.item.setCustomAttribute uidKey (.int uid) }

/-- `Item::CreateItem` -/
def createItem (type count : BitVec 16) : Option MapItem :=
  let it := items type
  let make := makeItem items roll
  if it.deprecated then none
  else
    let count := if it.stackable ∧ count = 0 then 1 else count
    if it.id = 0 then none
    else if it.type = .depot then some (make .depotLocker type 0)
    else if it.type = .rewardChest then some (make .container type 0)
    else if 22797 ≤ it.id.toNat ∧ it.id.toNat ≤ 22813 then some (make .container type 0)
    else if it.id = 12902 then some (make .container type 0)
    else if it.isContainer then some (assignUID items uid (make .container type 0))
    else if it.type = .teleport then some (make .teleport type 0)
    else if it.type = .magicField then some (make .item type 0)
    else if it.type = .door then some (make .door type 0)
    else if it.type = .trashHolder then some (make .item type 0)
    else if it.type = .mailbox then some (make .item type 0)
    else if it.type = .bed then some (make .bed type 0)
    else if 3094 ≤ it.id.toNat ∧ it.id.toNat ≤ 3096 then some (assignUID items uid (make .item (type - 3) count))
    else if it.id = 3099 ∨ it.id = 3100 then some (assignUID items uid (make .item (type - 2) count))
    else if 3086 ≤ it.id.toNat ∧ it.id.toNat ≤ 3090 then some (assignUID items uid (make .item (type - 37) count))
    else if it.id = 3549 then some (assignUID items uid (make .item 6529 count))
    else if it.id = 6299 then some (assignUID items uid (make .item 6300 count))
    else some (assignUID items uid (make .item type count))

end Create

/-- The fields and walls that are persistent on the map. -/
def applyItemIdSubstitutions (id : BitVec 16) : BitVec 16 :=
  if id = 2118 then 2123
  else if id = 2119 then 2124
  else if id = 2120 then 2125
  else if id = 2122 then 2126
  else if id = 105 then 2121
  else if id = 2129 then 2128
  else if id = 2130 then 3635
  else id

/-! ## Reading in full -/

section Full

variable (items : BitVec 16 → ItemType) (addUniqueItem : BitVec 16 → Bool) (getNameByGuid : BitVec 32 → Bytes)

abbrev Read := Outcome Unit MapItem

/-- `" is sleeping there."` -/
def isSleepingThere : Bytes :=
  [32, 105, 115, 32, 115, 108, 101, 101, 112, 105, 110, 103, 32, 116, 104, 101, 114, 101, 46]

def setSleeper (guid : BitVec 32) (r : MapItem) : MapItem :=
  if guid ≠ 0 ∧ getNameByGuid guid ≠ [] then
    { r with item := r.item.setStrAttr .description (getNameByGuid guid ++ isSleepingThere), sleeperGUID := guid }
  else r

def readDestination : Scan (BitVec 16 × BitVec 16 × BitVec 8) :=
  (readWord 16).scan.bind fun x => (readWord 16).scan.bind fun y => (readWord 8).scan.bind fun z => Scan.pure (x, y, z)

/-- `readAttr` of an item's own class, and of the base class. -/
def readItemAttr (t : AttrTag) (r : MapItem) (bs : Bytes) : Read :=
  match r.form, t with
  | .container, .containerItems =>
    match (readWord 32).scan bs with
    | (some _, rest) => .ended r rest
    | (none, rest) => .failed () rest
  | .depotLocker, .depotId => .scan () (readWord 16).scan (fun n => { r with depotId := n }) bs
  | .door, .houseDoorId =>
    .scan () (readWord 8).scan (fun n => { r with item := r.item.setIntAttr .doorId (n.setWidth 64) }) bs
  | .teleport, .teleDest =>
    .scan () readDestination (fun d => { r with destX := d.1, destY := d.2.1, destZ := d.2.2 }) bs
  | .bed, .sleeperGuid => .scan () (readWord 32).scan (fun guid => setSleeper getNameByGuid guid r) bs
  | .bed, .sleepStart => .scan () (readWord 32).scan (fun n => { r with sleepStart := n.setWidth 64 }) bs
  | _, _ =>
    (Attributes.readAttr (items r.id).toTypeInfo addUniqueItem t r.item bs).map fun item => { r with item }

def readItemByte (b : UInt8) (r : MapItem) (bs : Bytes) : Read :=
  match AttrTag.ofCode b with
  | some t => readItemAttr items addUniqueItem getNameByGuid t r bs
  | none => .failed () bs

/-- `Item::unserializeAttr` of an item of any class. -/
def unserializeItem (r : MapItem) (bs : Bytes) : Read :=
  readTags 0 (readItemByte items addUniqueItem getNameByGuid) r bs

end Full

/-! ## Reading for the cache -/

/-- A value that is kept if it could be read. -/
def keep {α : Type} (p : Scan α) (f : α → ItemFields → ItemFields) (item : ItemFields) (bs : Bytes) : ItemFields × Bytes :=
  match p bs with
  | (some a, rest) => (f a item, rest)
  | (none, rest) => (item, rest)

def ignore {α : Type} (p : Scan α) (item : ItemFields) (bs : Bytes) : ItemFields × Bytes := (item, (p bs).2)

def parseCustomValue (type : BitVec 8) (bs : Bytes) : Bytes :=
  if type = 0 then bs
  else if type = 1 then (readString bs).2
  else if type = 2 then ((cut 8).scan bs).2
  else if type = 3 then ((cut 8).scan bs).2
  else if type = 4 then ((cut 1).scan bs).2
  else bs

def parseCustomEntries : Nat → Bytes → Bytes
  | 0, bs => bs
  | n + 1, bs =>
    let bs := (readString bs).2
    match (readWord 8).scan bs with
    | (some type, bs) => parseCustomEntries n (parseCustomValue type bs)
    | (none, bs) => parseCustomEntries n bs

def parseCustomAttributes (bs : Bytes) : Bytes :=
  match (readWord 64).scan bs with
  | (some size, bs) => parseCustomEntries size.toNat bs
  | (none, bs) => bs

/-- Entries up to one that cannot be read. -/
def parseEntries {α : Type} (entry : Scan α) : Nat → Bytes → Bytes
  | 0, bs => bs
  | n + 1, bs =>
    match entry bs with
    | (some _, bs) => parseEntries entry n bs
    | (none, bs) => bs

def parseReflectAttribute (bs : Bytes) : Bytes :=
  match (readWord 16).scan bs with
  | (some size, bs) => parseEntries readReflectEntry size.toNat bs
  | (none, bs) => bs

def parseBoostAttribute (bs : Bytes) : Bytes :=
  match (readWord 16).scan bs with
  | (some size, bs) => parseEntries readBoostEntry size.toNat bs
  | (none, bs) => bs

/-- One round of `parseBasicItemFromStream`. The tags 1, 2, 11 and 13 are `DESCRIPTION`, `EXT_FILE`,
    `EXT_SPAWN_FILE` and `EXT_HOUSE_FILE`, and 3 is `ATTR_TILE_FLAGS`. -/
def parseBasicAttr (attr_type : UInt8) (item : ItemFields) (bs : Bytes) : ItemFields × Bytes :=
  if attr_type = 1 ∨ attr_type = 2 ∨ attr_type = 11 ∨ attr_type = 13 then ignore readString item bs
  else if attr_type = 3 then ignore (cut 4).scan item bs
  else
    match AttrTag.ofCode attr_type with
    | some .count | some .runeCharges => keep (readWord 8).scan (fun n i => { i with charges := n.setWidth 16 }) item bs
    | some .charges => keep (readWord 16).scan (fun n i => { i with charges := n }) item bs
    | some .actionId => keep (readWord 16).scan (fun n i => { i with actionId := n }) item bs
    | some .uniqueId => keep (readWord 16).scan (fun n i => { i with uniqueId := n }) item bs
    | some .text => keep readString (fun s i => { i with text := s }) item bs
    | some .teleDest =>
      keep (cut 5).scan (fun d i => { i with
        destX := BitVec.ofNat 16 (unle (d.take 2))
        destY := BitVec.ofNat 16 (unle ((d.drop 2).take 2))
        destZ := BitVec.ofNat 8 (unle (d.drop 4)) }) item bs
    | some .houseDoorId => keep (readWord 8).scan (fun n i => { i with doorOrDepotId := n.setWidth 16 }) item bs
    | some .depotId => keep (readWord 16).scan (fun n i => { i with doorOrDepotId := n }) item bs
    | some .desc | some .name | some .article | some .pluralName | some .writtenBy => ignore readString item bs
    | some .weight | some .attack | some .defense | some .extraDefense | some .armor | some .attackSpeed
    | some .rewardId | some .classification | some .tier | some .writtenDate | some .duration =>
      ignore (cut 4).scan item bs
    | some .decayingState | some .hitChance | some .shootRange | some .storeItem => ignore (cut 1).scan item bs
    | some .wrapId => ignore (cut 2).scan item bs
    | some .sleeperGuid | some .sleepStart => ignore (cut 4).scan item bs
    | some .customAttributes => (item, parseCustomAttributes bs)
    | some .reflect => (item, parseReflectAttribute bs)
    | some .boost => (item, parseBoostAttribute bs)
    | some .containerItems | some .imbueSlots | some .imbuements | none => (item, bs)

/-- What the cache takes an item's charges to be where the stream does not say. -/
def defaultCharges (it : ItemType) : BitVec 16 :=
  if it.stackable ∧ it.charges = 0 then 1 else if it.charges ≠ 0 then it.charges.setWidth 16 else 0

def basicItem (items : BitVec 16 → ItemType) (id : BitVec 16) : ItemFields :=
  { id, charges := defaultCharges (items id) }

/-- `parseBasicItemFromStream`, of an id that is read. -/
def parseBasicItem (items : BitVec 16 → ItemType) (id : BitVec 16) (bs : Bytes) : ItemFields :=
  exhaust parseBasicAttr bs.length (basicItem items (applyItemIdSubstitutions id)) bs

/-! ## The attributes of a stream -/

def cutString : Reader Bytes := (cut 2).seq fun q => cut (unle q)

def cutCustomValue (type : Bytes) : Reader Bytes :=
  if unle type = 0 then cut 0
  else if unle type = 1 then cutString
  else if unle type = 2 then cut 8
  else if unle type = 3 then cut 8
  else if unle type = 4 then cut 1
  else fun _ => none

def cutCustomEntry : Reader Bytes := cutString.seq fun _ => (cut 1).seq cutCustomValue

def payloadOf : AttrTag → Reader Bytes
  | .count | .runeCharges | .houseDoorId | .decayingState | .hitChance | .shootRange | .storeItem => cut 1
  | .actionId | .uniqueId | .charges | .depotId | .wrapId => cut 2
  | .weight | .attack | .defense | .extraDefense | .armor | .attackSpeed | .rewardId | .classification | .tier
  | .writtenDate | .duration | .sleeperGuid | .sleepStart | .imbueSlots | .containerItems => cut 4
  | .teleDest => cut 5
  | .text | .desc | .writtenBy | .name | .article | .pluralName => cutString
  | .customAttributes => (cut 8).seq fun q => cutCustomEntry.repeated (unle q)
  | .reflect => (cut 2).seq fun q => (cut 6).repeated (unle q)
  | .boost => (cut 2).seq fun q => (cut 4).repeated (unle q)
  | .imbuements => (cut 2).seq fun q => (cut 16).repeated (unle q)

def payload (b : UInt8) : Reader Bytes :=
  match AttrTag.ofCode b with
  | some t => payloadOf t
  | none => fun _ => none

/-- The attributes of a stream, up to the closing tag, and what is left of it. The number of items
    in a container ends its attributes. -/
def attributes (bs : Bytes) : List (UInt8 × Bytes) × Bytes :=
  layout 0 payload (fun t => decide (t = AttrTag.containerItems.code)) bs.length bs

/-- The tags that the cache passes over: the number of items in a container, imbuement slots and
    imbuements. -/
def missedTags : List UInt8 := [23, 44, 45]

def subTypeTags : List UInt8 := [12, 15, 22]

def lastOf (tags : List UInt8) (attrs : List (UInt8 × Bytes)) : Option Bytes :=
  ((attrs.filter fun f => decide (f.1 ∈ tags)).getLast?).map Prod.snd

def texts (attrs : List (UInt8 × Bytes)) : List Bytes :=
  (attrs.filter fun f => decide (f.1 ∈ [6])).map fun f => f.2.drop 2

def uniqueIds (attrs : List (UInt8 × Bytes)) : List (BitVec 16) :=
  (attrs.filter fun f => decide (f.1 ∈ [5])).map fun f => BitVec.ofNat 16 (unle f.2)

/-! ## What the full parser takes -/

section Takes

variable {α β : Type}

def Takes (p : Scan α) (r : Reader Bytes) (value : Bytes → α) : Prop :=
  ∀ bs a rest, p bs = (some a, rest) → ∃ q, r bs = some (q, rest) ∧ a = value q

variable {p : Scan α}

theorem takes_word {n w : Nat} (hw : n / 8 = w) : Takes (readWord n).scan (cut w) fun q => BitVec.ofNat n (unle q) := by
  subst hw
  intro bs a rest h
  unfold Reader.scan at h
  cases hr : readWord n bs with
  | none =>
    rw [hr] at h
    cases h
  | some r =>
    rw [hr] at h
    cases h
    obtain ⟨⟨v, rest'⟩, hv, he⟩ := Option.map_eq_some_iff.mp hr
    obtain ⟨⟨q, rest''⟩, hq, he'⟩ := Option.map_eq_some_iff.mp hv
    cases he
    cases he'
    exact ⟨q, hq, rfl⟩

theorem takes_cut (n : Nat) : Takes (cut n).scan (cut n) fun q => q := by
  intro bs a rest h
  unfold Reader.scan at h
  cases hr : cut n bs with
  | none =>
    rw [hr] at h
    cases h
  | some r =>
    rw [hr] at h
    cases h
    exact ⟨r.1, rfl, rfl⟩

theorem scan_bind {f : α → Scan β} {bs rest : Bytes} {b : β} (h : p.bind f bs = (some b, rest)) :
    ∃ a mid, p bs = (some a, mid) ∧ f a mid = (some b, rest) := by
  unfold Scan.bind at h
  cases hp : p bs with
  | mk o mid =>
    cases o with
    | none =>
      rw [hp] at h
      cases h
    | some a =>
      rw [hp] at h
      exact ⟨a, mid, rfl, h⟩

theorem takes_string : Takes readString cutString fun q => q.drop 2 := by
  intro bs s rest h
  obtain ⟨n, mid, hn, hs⟩ := scan_bind h
  obtain ⟨q₁, h₁, rfl⟩ := takes_word rfl bs n mid hn
  obtain ⟨q₂, h₂, rfl⟩ := takes_cut _ mid s rest hs
  have hlen : q₁.length = 2 := (cut_eq_some h₁).1
  have hsize : (BitVec.ofNat 16 (unle q₁)).toNat = unle q₁ := by
    have hlt := unle_lt q₁
    rw [hlen] at hlt
    simpa using hlt
  rw [hsize] at h₂
  refine ⟨q₁ ++ s, Reader.seq_eq_some.mpr ⟨q₁, mid, s, h₁, h₂, rfl⟩, ?_⟩
  simp [hlen]

/-- The bytes that a scan takes, whatever it reads. -/
def Follows (p : Scan α) (r : Reader Bytes) : Prop := ∀ bs a rest, p bs = (some a, rest) → ∃ q, r bs = some (q, rest)

theorem Takes.follows {r : Reader Bytes} {value : Bytes → α} (h : Takes p r value) : Follows p r := by
  intro bs a rest hp
  obtain ⟨q, hq, _⟩ := h bs a rest hp
  exact ⟨q, hq⟩

theorem follows_pure (a : α) : Follows (Scan.pure a) (cut 0) := by
  intro bs b rest h
  cases h
  exact ⟨[], by simp [cut]⟩

theorem Follows.bind {r : Reader Bytes} {value : Bytes → α} {f : α → Scan β} {g : Bytes → Reader Bytes}
    (hp : Takes p r value) (hf : ∀ q, Follows (f (value q)) (g q)) : Follows (p.bind f) (r.seq g) := by
  intro bs b rest h
  obtain ⟨a, mid, ha, hb⟩ := scan_bind h
  obtain ⟨q₁, h₁, rfl⟩ := hp bs a mid ha
  obtain ⟨q₂, h₂⟩ := hf q₁ mid b rest hb
  exact ⟨q₁ ++ q₂, Reader.seq_eq_some.mpr ⟨q₁, mid, q₂, h₁, h₂, rfl⟩⟩

/-- What is read after something else and then put together with it. -/
theorem Follows.pure {r : Reader Bytes} (hp : Follows p r) (f : α → β) :
    Follows (p.bind fun a => Scan.pure (f a)) r := by
  intro bs b rest h
  obtain ⟨a, mid, ha, hb⟩ := scan_bind h
  cases hb
  exact hp bs a _ ha

theorem Follows.times {r : Reader Bytes} (hp : Follows p r) (n : Nat) : Follows (p.times n) (r.repeated n) := by
  induction n with
  | zero =>
    intro bs b rest h
    cases h
    exact ⟨[], rfl⟩
  | succ n ih =>
    intro bs l rest h
    obtain ⟨a, mid, ha, hl⟩ := scan_bind h
    obtain ⟨as, mid', has, he⟩ := scan_bind hl
    cases he
    obtain ⟨q₁, h₁⟩ := hp bs a mid ha
    obtain ⟨q₂, h₂⟩ := ih mid as rest has
    exact ⟨q₁ ++ q₂, Reader.seq_eq_some.mpr ⟨q₁, mid, q₂, h₁, h₂, rfl⟩⟩

end Takes

/-! ## What an attribute changes -/

/-- What the two parsers are compared in. -/
structure View where
  form : Form
  id : BitVec 16
  subType : BitVec 16
  actionId : BitVec 16
  uniqueId : Option (BitVec 64)
  text : Bytes
  dest : BitVec 16 × BitVec 16 × BitVec 8
  doorId : BitVec 32
  depotId : BitVec 16

section Seen

variable (items : BitVec 16 → ItemType) (addUniqueItem : BitVec 16 → Bool)

def MapItem.view (r : MapItem) : View where
  form := r.form
  id := r.id
  subType := r.item.getSubType (items r.id).toTypeInfo
  actionId := r.item.getActionId
  uniqueId := r.item.ints .uniqueId
  text := r.item.getStrAttr .text
  dest := (r.destX, r.destY, r.destZ)
  doorId := r.getDoorId
  depotId := r.depotId

/-- What `getSubType` says after `setSubType`. -/
def keptSubType (ty : TypeInfo) (n : BitVec 16) : BitVec 16 :=
  if ty.fluid then n
  else if ty.stackable then (n.setWidth 8).setWidth 16
  else if ty.charges ≠ 0 then n
  else (n.setWidth 8).setWidth 16

def destOf (q : Bytes) : BitVec 16 × BitVec 16 × BitVec 8 :=
  (BitVec.ofNat 16 (unle (q.take 2)), BitVec.ofNat 16 (unle ((q.drop 2).take 2)), BitVec.ofNat 8 (unle (q.drop 4)))

/-- What the attribute with these bytes changes for the full parser. -/
def View.read (v : View) (f : UInt8 × Bytes) : View :=
  let n := BitVec.ofNat 16 (unle f.2)
  if f.1 ∈ subTypeTags then { v with subType := keptSubType (items v.id).toTypeInfo n }
  else if f.1 ∈ [4] then { v with actionId := if n.toNat < 100 then 100 else n }
  else if f.1 ∈ [5] then
    { v with uniqueId := v.uniqueId.or (if addUniqueItem n then some (n.setWidth 64) else none) }
  else if f.1 ∈ [6] then { v with text := if f.2.drop 2 = [] then v.text else f.2.drop 2 }
  else if f.1 ∈ [8] then { v with dest := if v.form = .teleport then destOf f.2 else v.dest }
  else if f.1 ∈ [14] then { v with doorId := if v.form = .door then n.setWidth 32 else v.doorId }
  else if f.1 ∈ [10] then { v with depotId := if v.form = .depotLocker then n else v.depotId }
  else v

/-- What it changes for the cache. -/
def storeAttr (item : ItemFields) (f : UInt8 × Bytes) : ItemFields :=
  let n := BitVec.ofNat 16 (unle f.2)
  if f.1 ∈ subTypeTags then { item with charges := n }
  else if f.1 ∈ [4] then { item with actionId := n }
  else if f.1 ∈ [5] then { item with uniqueId := n }
  else if f.1 ∈ [6] then { item with text := f.2.drop 2 }
  else if f.1 ∈ [8] then { item with destX := (destOf f.2).1, destY := (destOf f.2).2.1, destZ := (destOf f.2).2.2 }
  else if f.1 ∈ [10, 14] then { item with doorOrDepotId := n }
  else item

end Seen

section Frame

variable {items : BitVec 16 → ItemType} {r : MapItem} {it : Item}

theorem getIntAttr_of_ne {a b : IntAttr} (it : Item) (v : BitVec 64) (h : b ≠ a) :
    (it.setIntAttr a v).getIntAttr b = it.getIntAttr b := by
  rw [Item.getIntAttr, Item.getIntAttr, setIntAttr_ints_ne it v h]

theorem getIntAttr_self {a : IntAttr} (it : Item) (v : BitVec 64) (h : a ≠ .attackSpeed) :
    (it.setIntAttr a v).getIntAttr a = v := by
  rw [Item.getIntAttr, setIntAttr_ints it v h, Option.getD_some]

/-- A change that none of the compared values sees. -/
theorem view_of_same {it' : Item} (hcount : it'.count = r.item.count)
    (hints : ∀ a ∈ [IntAttr.actionId, .uniqueId, .charges, .fluidType, .doorId], it'.ints a = r.item.ints a)
    (htext : it'.strs .text = r.item.strs .text) : ({ r with item := it' } : MapItem).view items = r.view items := by
  have hget : ∀ a ∈ [IntAttr.actionId, .uniqueId, .charges, .fluidType, .doorId], it'.getIntAttr a = r.item.getIntAttr a := by
    intro a ha
    rw [Item.getIntAttr, Item.getIntAttr, hints a ha]
  simp only [MapItem.view, MapItem.getDoorId, Item.getSubType, Item.getFluidType, Item.getCharges, Item.getActionId,
    Item.getStrAttr, hcount, htext, hget .actionId (by simp), hget .charges (by simp), hget .fluidType (by simp),
    hget .doorId (by simp), hints .uniqueId (by simp)]

theorem view_setIntAttr {a : IntAttr} (v : BitVec 64)
    (ha : a ∉ [IntAttr.actionId, .uniqueId, .charges, .fluidType, .doorId]) :
    ({ r with item := r.item.setIntAttr a v } : MapItem).view items = r.view items := by
  refine view_of_same rfl (fun b hb => ?_) rfl
  have hne : b ≠ a := fun he => ha (he ▸ hb)
  exact update_of_ne hne _ _

theorem view_setStrAttr {a : StrAttr} (s : Bytes) (ha : a ≠ .text) :
    ({ r with item := r.item.setStrAttr a s } : MapItem).view items = r.view items := by
  unfold Item.setStrAttr
  split
  · rfl
  · exact view_of_same rfl (fun _ _ => rfl) (update_of_ne (Ne.symm ha) _ _)

theorem foldl_keeps {σ α γ : Type} {g : σ → γ} {f : σ → α → σ} (h : ∀ s a, g (f s a) = g s) (l : List α) (s : σ) :
    g (l.foldl f s) = g s := by
  induction l generalizing s with
  | nil => rfl
  | cons a l ih => exact (ih (f s a)).trans (h s a)

theorem view_foldl {α : Type} {f : Item → α → Item}
    (h : ∀ it a, ((f it a).count, (f it a).ints, (f it a).strs) = (it.count, it.ints, it.strs)) (l : List α) :
    ({ r with item := l.foldl f r.item } : MapItem).view items = r.view items := by
  have hkeeps := @foldl_keeps _ _ _ (fun it : Item => (it.count, it.ints, it.strs)) f h l r.item
  obtain ⟨hcount, hrest⟩ := Prod.mk.inj hkeeps
  obtain ⟨hints, hstrs⟩ := Prod.mk.inj hrest
  exact view_of_same hcount (fun a _ => congrFun hints a) (congrFun hstrs _)

end Frame

/-! ## The full parser, attribute by attribute -/

section More

variable {items : BitVec 16 → ItemType} {addUniqueItem : BitVec 16 → Bool} {getNameByGuid : BitVec 32 → Bytes}
  {r r' : MapItem} {bs rest : Bytes}

theorem follows_imbuement : Follows readImbuement (cut 16) := by
  intro bs i rest h
  obtain ⟨_, m₁, h₁, h⟩ := scan_bind h
  obtain ⟨_, m₂, h₂, h⟩ := scan_bind h
  obtain ⟨_, m₃, h₃, h⟩ := scan_bind h
  obtain ⟨_, m₄, h₄, h⟩ := scan_bind h
  cases h
  obtain ⟨_, h₁, -⟩ := takes_word rfl bs _ m₁ h₁
  obtain ⟨_, h₂, -⟩ := takes_word rfl m₁ _ m₂ h₂
  obtain ⟨_, h₃, -⟩ := takes_word rfl m₂ _ m₃ h₃
  obtain ⟨_, h₄, -⟩ := takes_word rfl m₃ _ _ h₄
  exact ⟨_, cut_add h₁ (cut_add h₂ (cut_add h₃ h₄))⟩

theorem follows_reflect : Follows readReflectEntry (cut 6) := by
  intro bs e rest h
  obtain ⟨_, m₁, h₁, h⟩ := scan_bind h
  obtain ⟨_, m₂, h₂, h⟩ := scan_bind h
  obtain ⟨_, m₃, h₃, h⟩ := scan_bind h
  cases h
  obtain ⟨_, h₁, -⟩ := takes_word rfl bs _ m₁ h₁
  obtain ⟨_, h₂, -⟩ := takes_word rfl m₁ _ m₂ h₂
  obtain ⟨_, h₃, -⟩ := takes_word rfl m₂ _ _ h₃
  exact ⟨_, cut_add h₁ (cut_add h₂ h₃)⟩

theorem follows_boost : Follows readBoostEntry (cut 4) := by
  intro bs e rest h
  obtain ⟨_, m₁, h₁, h⟩ := scan_bind h
  obtain ⟨_, m₂, h₂, h⟩ := scan_bind h
  cases h
  obtain ⟨_, h₁, -⟩ := takes_word rfl bs _ m₁ h₁
  obtain ⟨_, h₂, -⟩ := takes_word rfl m₁ _ _ h₂
  exact ⟨_, cut_add h₁ h₂⟩

theorem takes_destination : Takes readDestination (cut 5) destOf := by
  intro bs d rest h
  obtain ⟨_, m₁, h₁, h⟩ := scan_bind h
  obtain ⟨_, m₂, h₂, h⟩ := scan_bind h
  obtain ⟨_, m₃, h₃, h⟩ := scan_bind h
  cases h
  obtain ⟨q₁, c₁, rfl⟩ := takes_word rfl bs _ m₁ h₁
  obtain ⟨q₂, c₂, rfl⟩ := takes_word rfl m₁ _ m₂ h₂
  obtain ⟨q₃, c₃, rfl⟩ := takes_word rfl m₂ _ _ h₃
  refine ⟨q₁ ++ (q₂ ++ q₃), cut_add c₁ (cut_add c₂ c₃), ?_⟩
  have hl₁ : q₁.length = 2 := (cut_eq_some c₁).1
  have hl₂ : q₂.length = 2 := (cut_eq_some c₂).1
  have hfirst : (q₁ ++ (q₂ ++ q₃)).take 2 = q₁ := take_left' hl₁
  have hrest : (q₁ ++ (q₂ ++ q₃)).drop 2 = q₂ ++ q₃ := drop_left' hl₁
  have hlast : (q₁ ++ (q₂ ++ q₃)).drop 4 = q₃ := by
    rw [← append_assoc]
    exact drop_left' (by rw [length_append, hl₁, hl₂])
  rw [destOf, hfirst, hrest, hlast, take_left' hl₂]

theorem follows_counted {α : Type} {p : Scan α} {e : Reader Bytes} (hp : Follows p e) (w : Nat) :
    Follows (counted (8 * w) p) ((cut w).seq fun q => e.repeated (unle q)) := by
  intro bs l rest h
  obtain ⟨n, mid, hn, hl⟩ := scan_bind h
  obtain ⟨q, hq, rfl⟩ := takes_word (Nat.mul_div_cancel_left w (by decide)) bs n mid hn
  have hsize : (BitVec.ofNat (8 * w) (unle q)).toNat = unle q := by
    have hlt := unle_lt q
    rw [(cut_eq_some hq).1, show 256 = 2 ^ 8 by rfl, ← pow_mul] at hlt
    rw [BitVec.toNat_ofNat, Nat.mod_eq_of_lt hlt]
  rw [hsize] at hl
  obtain ⟨q', hq'⟩ := hp.times _ mid l rest hl
  exact ⟨q ++ q', Reader.seq_eq_some.mpr ⟨q, mid, q', hq, hq', rfl⟩⟩

theorem type_eq_iff {q : Bytes} (hq : q.length = 1) {k : Nat} (hk : k < 256) :
    BitVec.ofNat 8 (unle q) = BitVec.ofNat 8 k ↔ unle q = k := by
  have hlt : unle q < 256 := by
    have h := unle_lt q
    rwa [hq] at h
  rw [← BitVec.toNat_inj, BitVec.toNat_ofNat, BitVec.toNat_ofNat, Nat.mod_eq_of_lt hlt, Nat.mod_eq_of_lt hk]

theorem follows_customValue : Follows readCustomValue ((cut 1).seq cutCustomValue) := by
  intro bs v rest h
  obtain ⟨_, mid, hpos, hv⟩ := scan_bind h
  obtain ⟨q, hq, rfl⟩ := takes_word rfl bs _ mid hpos
  have hlen : q.length = 1 := (cut_eq_some hq).1
  suffices ∃ q', cutCustomValue q mid = some (q', rest) by
    obtain ⟨q', hq'⟩ := this
    exact ⟨q ++ q', Reader.seq_eq_some.mpr ⟨q, mid, q', hq, hq', rfl⟩⟩
  have h0 := @type_eq_iff q hlen 0 (by decide)
  have h1 := @type_eq_iff q hlen 1 (by decide)
  have h2 := @type_eq_iff q hlen 2 (by decide)
  have h3 := @type_eq_iff q hlen 3 (by decide)
  have h4 := @type_eq_iff q hlen 4 (by decide)
  unfold cutCustomValue
  simp only [BitVec.ofNat_eq_ofNat, h0, h1, h2, h3, h4] at hv
  by_cases e0 : unle q = 0
  · rw [if_pos e0] at hv ⊢
    exact follows_pure _ mid v rest hv
  rw [if_neg e0] at hv ⊢
  by_cases e1 : unle q = 1
  · rw [if_pos e1] at hv ⊢
    exact takes_string.follows.pure _ mid v rest hv
  rw [if_neg e1] at hv ⊢
  by_cases e2 : unle q = 2
  · rw [if_pos e2] at hv ⊢
    exact (takes_word rfl).follows.pure _ mid v rest hv
  rw [if_neg e2] at hv ⊢
  by_cases e3 : unle q = 3
  · rw [if_pos e3] at hv ⊢
    exact (takes_word rfl).follows.pure _ mid v rest hv
  rw [if_neg e3] at hv ⊢
  by_cases e4 : unle q = 4
  · rw [if_pos e4] at hv ⊢
    exact (takes_word rfl).follows.pure _ mid v rest hv
  · rw [if_neg e4] at hv
    cases hv

theorem follows_customEntry : Follows readCustomEntry cutCustomEntry :=
  Follows.bind takes_string fun _ => follows_customValue.pure _

def seenTags : List UInt8 := subTypeTags ++ [4, 5, 6, 8, 14, 10]

variable {t : AttrTag}

theorem View.read_other {v : View} {b : UInt8} {q : Bytes} (hb : b ∉ seenTags) :
    v.read items addUniqueItem (b, q) = v := by
  simp only [seenTags, mem_append, not_or] at hb
  obtain ⟨hsub, hrest⟩ := hb
  simp only [mem_cons, not_mem_nil, or_false, not_or] at hrest
  obtain ⟨h4, h5, h6, h8, h14, h10⟩ := hrest
  simp only [View.read, if_neg hsub, mem_singleton, if_neg h4, if_neg h5, if_neg h6, if_neg h8, if_neg h14, if_neg h10]

theorem View.read_dest (v : View) (q : Bytes) :
    v.read items addUniqueItem (8, q) = { v with dest := if v.form = .teleport then destOf q else v.dest } := rfl

theorem View.read_doorId (v : View) (q : Bytes) : v.read items addUniqueItem (14, q) =
    { v with doorId := if v.form = .door then (BitVec.ofNat 16 (unle q)).setWidth 32 else v.doorId } := rfl

theorem View.read_depotId (v : View) (q : Bytes) : v.read items addUniqueItem (10, q) =
    { v with depotId := if v.form = .depotLocker then BitVec.ofNat 16 (unle q) else v.depotId } := rfl

theorem scan_more {σ α : Type} {p : Scan α} {f : α → σ} {s : σ} (h : Outcome.scan () p f bs = .more s rest) :
    ∃ a, p bs = (some a, rest) ∧ s = f a := by
  unfold Outcome.scan at h
  cases hp : p bs with
  | mk o mid =>
    rw [hp] at h
    cases o with
    | none => cases h
    | some a =>
      cases h
      exact ⟨a, rfl, rfl⟩

theorem unle_byte {q : Bytes} (hq : q.length = 1) : (BitVec.ofNat 8 (unle q)).setWidth 16 = BitVec.ofNat 16 (unle q) := by
  have hlt : unle q < 256 := by
    have h := unle_lt q
    rwa [hq] at h
  rw [← BitVec.toNat_inj]
  simp [Nat.mod_eq_of_lt hlt]

theorem getSubType_setSubType (ty : TypeInfo) (it : Item) (n : BitVec 16) :
    (it.setSubType ty n).getSubType ty = keptSubType ty n := by
  unfold Item.setSubType Item.getSubType keptSubType
  by_cases hf : ty.fluid = true
  · rw [if_pos hf, if_pos hf, if_pos hf, Item.getFluidType, getIntAttr_self _ _ (by decide)]
    simp
  rw [if_neg hf, if_neg hf, if_neg hf]
  by_cases hs : ty.stackable = true
  · rw [if_pos hs, if_pos hs, if_pos hs]
    rfl
  rw [if_neg hs, if_neg hs, if_neg hs]
  by_cases hc : ty.charges ≠ 0
  · rw [if_pos hc, if_pos hc, if_pos hc, Item.getCharges, getIntAttr_self _ _ (by decide)]
    simp
  · rw [if_neg hc, if_neg hc, if_neg hc]
    rfl

theorem view_setSubType (n : BitVec 16) :
    ({ r with item := r.item.setSubType (items r.id).toTypeInfo n } : MapItem).view items =
      { r.view items with subType := keptSubType (items r.id).toTypeInfo n } := by
  have hints : ∀ a ∈ [IntAttr.actionId, .uniqueId, .doorId],
      (r.item.setSubType (items r.id).toTypeInfo n).ints a = r.item.ints a := by
    intro a ha
    have hne : a ≠ .fluidType ∧ a ≠ .charges := by
      constructor <;> (rintro rfl; simp at ha)
    unfold Item.setSubType
    split_ifs
    · exact update_of_ne hne.1 _ _
    · rfl
    · exact update_of_ne hne.2 _ _
    · rfl
  have hstrs : (r.item.setSubType (items r.id).toTypeInfo n).strs = r.item.strs := by
    unfold Item.setSubType
    split_ifs <;> rfl
  have hsub := getSubType_setSubType (items r.id).toTypeInfo r.item n
  simp only [MapItem.view, MapItem.getDoorId, Item.getActionId, Item.getStrAttr, Item.getIntAttr, hsub, hstrs,
    hints .actionId (by simp), hints .uniqueId (by simp), hints .doorId (by simp)]

theorem view_setActionId (n : BitVec 16) :
    ({ r with item := r.item.setActionId n } : MapItem).view items =
      { r.view items with actionId := if n.toNat < 100 then 100 else n } := by
  have haction : (r.item.setActionId n).getActionId = if n.toNat < 100 then 100 else n := by
    rw [Item.getActionId, Item.setActionId, getIntAttr_self _ _ (by decide)]
    split
    · rfl
    · simp
  have hints : ∀ a ≠ IntAttr.actionId, (r.item.setActionId n).ints a = r.item.ints a := fun a ha =>
    update_of_ne ha _ _
  have hget : ∀ a ≠ IntAttr.actionId, (r.item.setActionId n).getIntAttr a = r.item.getIntAttr a := fun a ha =>
    getIntAttr_of_ne _ _ ha
  have hsub : ∀ ty, (r.item.setActionId n).getSubType ty = r.item.getSubType ty := by
    intro ty
    rfl
  have htext : (r.item.setActionId n).strs = r.item.strs := rfl
  simp only [MapItem.view, MapItem.getDoorId, Item.getStrAttr, haction, hsub, htext, hget .doorId (by decide),
    hints .uniqueId (by decide)]

theorem view_setUniqueId (n : BitVec 16) :
    ({ r with item :=
        if (r.item.ints .uniqueId).isSome then r.item
        else if addUniqueItem n then r.item.setIntAttr .uniqueId (n.setWidth 64) else r.item } : MapItem).view items =
      { r.view items with
        uniqueId := (r.view items).uniqueId.or (if addUniqueItem n then some (n.setWidth 64) else none) } := by
  have hview : (r.view items).uniqueId = r.item.ints .uniqueId := rfl
  rw [hview]
  cases hu : r.item.ints .uniqueId with
  | some u =>
    show r.view items = { r.view items with uniqueId := some u }
    rw [← hu]
    rfl
  | none =>
    by_cases ha : addUniqueItem n = true
    · have hset : (r.item.setIntAttr .uniqueId (n.setWidth 64)).ints .uniqueId = some (n.setWidth 64) :=
        setIntAttr_ints _ _ (by decide)
      have hget : ∀ a ≠ IntAttr.uniqueId, (r.item.setIntAttr .uniqueId (n.setWidth 64)).getIntAttr a = r.item.getIntAttr a :=
        fun a ha => getIntAttr_of_ne _ _ ha
      simp only [Option.isSome_none, Bool.false_eq_true, if_false, ha, if_true, MapItem.view, MapItem.getDoorId,
        Item.getStrAttr, Item.getActionId, Item.getSubType, Item.getFluidType, Item.getCharges, hset,
        hget .actionId (by decide), hget .fluidType (by decide), hget .charges (by decide), hget .doorId (by decide),
        Option.none_or]
      rfl
    · simp only [Option.isSome_none, Bool.false_eq_true, if_false, if_neg ha, MapItem.view, hu, Option.none_or]

theorem view_setText (s : Bytes) :
    ({ r with item := r.item.setStrAttr .text s } : MapItem).view items =
      { r.view items with text := if s = [] then (r.view items).text else s } := by
  unfold Item.setStrAttr
  by_cases hs : s = []
  · rw [if_pos hs, if_pos hs]
  · rw [if_neg hs, if_neg hs]
    rfl

theorem view_setDoorId (n : BitVec 8) :
    ({ r with item := r.item.setIntAttr .doorId (n.setWidth 64) } : MapItem).view items =
      { r.view items with doorId := (n.setWidth 16).setWidth 32 } := by
  have hdoor : ({ r with item := r.item.setIntAttr .doorId (n.setWidth 64) } : MapItem).getDoorId =
      (n.setWidth 16).setWidth 32 := by
    rw [MapItem.getDoorId, getIntAttr_self _ _ (by decide)]
    ext i hi
    simp
  have hget : ∀ a ≠ IntAttr.doorId, (r.item.setIntAttr .doorId (n.setWidth 64)).getIntAttr a = r.item.getIntAttr a :=
    fun a ha => getIntAttr_of_ne _ _ ha
  have hunique : (r.item.setIntAttr .doorId (n.setWidth 64)).ints .uniqueId = r.item.ints .uniqueId :=
    setIntAttr_ints_ne _ _ (by decide)
  simp only [MapItem.view, hdoor, Item.getStrAttr, Item.getActionId, Item.getSubType, Item.getFluidType, Item.getCharges,
    hunique, hget .actionId (by decide), hget .fluidType (by decide), hget .charges (by decide)]
  rfl

/-- The base class takes the bytes behind a tag, and changes what `View.read` says where no class
    of its own reads the attribute. -/
theorem readAttr_more {it' : Item}
    (hown : (t = .teleDest → r.form ≠ .teleport) ∧ (t = .houseDoorId → r.form ≠ .door) ∧ (t = .depotId → r.form ≠ .depotLocker))
    (h : Attributes.readAttr (items r.id).toTypeInfo addUniqueItem t r.item bs = .more it' rest) :
    ∃ q, payloadOf t bs = some (q, rest) ∧ (t.code ∉ missedTags →
      ({ r with item := it' } : MapItem).view items = (r.view items).read items addUniqueItem (t.code, q)) := by
  have other : ∀ {α : Type} {p : Scan α} {f : α → Item → Item}, t.code ∉ seenTags → Follows p (payloadOf t) →
      (∀ a, ({ r with item := f a r.item } : MapItem).view items = r.view items) →
      Attributes.set p f r.item bs = .more it' rest →
      ∃ q, payloadOf t bs = some (q, rest) ∧ (t.code ∉ missedTags →
        ({ r with item := it' } : MapItem).view items = (r.view items).read items addUniqueItem (t.code, q)) := by
    intro α p f hseen hp hsame hset
    obtain ⟨a, ha, rfl⟩ := scan_more hset
    obtain ⟨q, hq⟩ := hp bs a rest ha
    exact ⟨q, hq, fun _ => (hsame a).trans (View.read_other hseen).symm⟩
  have missed : ∀ {α : Type} {p : Scan α} {f : α → Item → Item}, t.code ∈ missedTags → Follows p (payloadOf t) →
      Attributes.set p f r.item bs = .more it' rest →
      ∃ q, payloadOf t bs = some (q, rest) ∧ (t.code ∉ missedTags →
        ({ r with item := it' } : MapItem).view items = (r.view items).read items addUniqueItem (t.code, q)) := by
    intro α p f hmissed hp hset
    obtain ⟨a, ha, rfl⟩ := scan_more hset
    obtain ⟨q, hq⟩ := hp bs a rest ha
    exact ⟨q, hq, fun hno => absurd hmissed hno⟩
  cases t <;> simp only [Attributes.readAttr, Attributes.setStr, Attributes.setInt, Attributes.skip] at h
  case count | runeCharges =>
    obtain ⟨n, hn, rfl⟩ := scan_more h
    obtain ⟨q, hq, rfl⟩ := takes_word rfl bs n rest hn
    refine ⟨q, hq, fun _ => ?_⟩
    dsimp only
    rw [unle_byte (cut_eq_some hq).1]
    exact view_setSubType _
  case charges =>
    obtain ⟨n, hn, rfl⟩ := scan_more h
    obtain ⟨q, hq, rfl⟩ := takes_word rfl bs n rest hn
    exact ⟨q, hq, fun _ => view_setSubType _⟩
  case actionId =>
    obtain ⟨n, hn, rfl⟩ := scan_more h
    obtain ⟨q, hq, rfl⟩ := takes_word rfl bs n rest hn
    exact ⟨q, hq, fun _ => view_setActionId _⟩
  case uniqueId =>
    obtain ⟨n, hn, rfl⟩ := scan_more h
    obtain ⟨q, hq, rfl⟩ := takes_word rfl bs n rest hn
    exact ⟨q, hq, fun _ => view_setUniqueId _⟩
  case text =>
    obtain ⟨s, hs, rfl⟩ := scan_more h
    obtain ⟨q, hq, rfl⟩ := takes_string bs s rest hs
    exact ⟨q, hq, fun _ => view_setText _⟩
  case desc | writtenBy | name | article | pluralName =>
    exact other (by decide) takes_string.follows (fun s => view_setStrAttr s (by decide)) h
  case teleDest =>
    obtain ⟨d, hd, rfl⟩ := scan_more h
    obtain ⟨q, hq, -⟩ := takes_cut _ bs d rest hd
    refine ⟨q, hq, fun _ => ?_⟩
    have hform : (r.view items).form ≠ .teleport := hown.1 rfl
    rw [AttrTag.code, View.read_dest, if_neg hform]
  case houseDoorId =>
    obtain ⟨d, hd, rfl⟩ := scan_more h
    obtain ⟨q, hq, -⟩ := takes_cut _ bs d rest hd
    refine ⟨q, hq, fun _ => ?_⟩
    have hform : (r.view items).form ≠ .door := hown.2.1 rfl
    rw [AttrTag.code, View.read_doorId, if_neg hform]
  case depotId =>
    obtain ⟨d, hd, rfl⟩ := scan_more h
    obtain ⟨q, hq, -⟩ := takes_cut _ bs d rest hd
    refine ⟨q, hq, fun _ => ?_⟩
    have hform : (r.view items).form ≠ .depotLocker := hown.2.2 rfl
    rw [AttrTag.code, View.read_depotId, if_neg hform]
  case sleeperGuid | sleepStart | rewardId => exact other (by decide) (takes_cut _).follows (fun _ => rfl) h
  case containerItems => cases h
  case imbueSlots => exact missed (by decide) (takes_word rfl).follows h
  case imbuements => exact missed (by decide) (follows_counted follows_imbuement 2) h
  case customAttributes =>
    refine other (by decide) (follows_counted follows_customEntry 8) (fun l => view_foldl ?_ l) h
    exact fun _ _ => rfl
  case reflect =>
    refine other (by decide) (follows_counted follows_reflect 2) (fun l => view_foldl ?_ l) h
    exact fun _ _ => rfl
  case boost =>
    refine other (by decide) (follows_counted follows_boost 2) (fun l => view_foldl ?_ l) h
    exact fun _ _ => rfl
  case decayingState =>
    refine other (by decide) (takes_word rfl).follows (fun s => ?_) h
    unfold readDecaying
    split <;> rfl
  case writtenDate => exact other (by decide) (takes_word rfl).follows (fun n => view_setIntAttr _ (by decide)) h
  case duration => exact other (by decide) (takes_word rfl).follows (fun n => view_setIntAttr _ (by decide)) h
  all_goals exact other (by decide) (takes_word rfl).follows (fun n => view_setIntAttr _ (by decide)) h

theorem map_more {σ τ : Type} {f : σ → τ} {o : Outcome Unit σ} {s : τ} (h : o.map f = .more s rest) :
    ∃ s₀, o = .more s₀ rest ∧ s = f s₀ := by
  cases o with
  | more s₀ rest' =>
    cases h
    exact ⟨s₀, rfl, rfl⟩
  | ended s₀ rest' => cases h
  | failed e rest' => cases h

theorem map_ended {σ τ : Type} {f : σ → τ} {o : Outcome Unit σ} {s : τ} (h : o.map f = .ended s rest) :
    ∃ s₀, o = .ended s₀ rest := by
  cases o with
  | more s₀ rest' => cases h
  | ended s₀ rest' =>
    cases h
    exact ⟨s₀, rfl⟩
  | failed e rest' => cases h

theorem readItemAttr_more (h : readItemAttr items addUniqueItem getNameByGuid t r bs = .more r' rest) :
    ∃ q, payloadOf t bs = some (q, rest) ∧ (t.code ∉ missedTags →
      r'.view items = (r.view items).read items addUniqueItem (t.code, q)) := by
  unfold readItemAttr at h
  split at h
  case h_1 =>
    split at h <;> cases h
  case h_2 hform =>
    obtain ⟨n, hn, rfl⟩ := scan_more h
    obtain ⟨q, hq, rfl⟩ := takes_word rfl bs n rest hn
    refine ⟨q, hq, fun _ => ?_⟩
    have hview : (r.view items).form = .depotLocker := hform
    rw [AttrTag.code, View.read_depotId, if_pos hview]
    rfl
  case h_3 hform =>
    obtain ⟨n, hn, rfl⟩ := scan_more h
    obtain ⟨q, hq, rfl⟩ := takes_word rfl bs n rest hn
    refine ⟨q, hq, fun _ => ?_⟩
    have hview : (r.view items).form = .door := hform
    rw [AttrTag.code, View.read_doorId, if_pos hview]
    rw [← unle_byte (cut_eq_some hq).1]
    exact view_setDoorId _
  case h_4 hform =>
    obtain ⟨d, hd, rfl⟩ := scan_more h
    obtain ⟨q, hq, rfl⟩ := takes_destination bs d rest hd
    refine ⟨q, hq, fun _ => ?_⟩
    have hview : (r.view items).form = .teleport := hform
    rw [AttrTag.code, View.read_dest, if_pos hview]
    rfl
  case h_5 hform =>
    obtain ⟨n, hn, rfl⟩ := scan_more h
    obtain ⟨q, hq, -⟩ := takes_word rfl bs n rest hn
    refine ⟨q, hq, fun _ => ?_⟩
    unfold setSleeper
    split
    · exact view_setStrAttr _ (by decide)
    · rfl
  case h_6 hform =>
    obtain ⟨n, hn, rfl⟩ := scan_more h
    obtain ⟨q, hq, -⟩ := takes_word rfl bs n rest hn
    exact ⟨q, hq, fun _ => (View.read_other (show AttrTag.sleepStart.code ∉ seenTags by decide)).symm⟩
  case h_7 _ hdepot hdoor hteleport _ _ =>
    obtain ⟨it', hit, rfl⟩ := map_more h
    exact readAttr_more ⟨fun ht hf => hteleport hf ht, fun ht hf => hdoor hf ht, fun ht hf => hdepot hf ht⟩ hit

theorem readItemAttr_ended (h : readItemAttr items addUniqueItem getNameByGuid t r bs = .ended r' rest) :
    t = .containerItems ∧ ∃ q, payloadOf t bs = some (q, rest) ∧ q.length = 4 := by
  have hscan : ∀ {α : Type} {p : Scan α} {f : α → MapItem}, Outcome.scan () p f bs ≠ .ended r' rest := by
    grind [Outcome.scan]
  have hbase : ∀ (ty : TypeInfo) (t : AttrTag) (it it' : Item), Attributes.readAttr ty addUniqueItem t it bs ≠ .ended it' rest := by
    intro ty t it it' hs
    have hset : ∀ {α : Type} {p : Scan α} {f : α → Item → Item}, Attributes.set p f it bs ≠ .ended it' rest := by
      grind [Attributes.set, Outcome.scan]
    cases t <;> simp only [Attributes.readAttr, Attributes.setStr, Attributes.setInt, Attributes.skip] at hs
    case containerItems => cases hs
    all_goals exact hset hs
  unfold readItemAttr at h
  split at h
  case h_1 =>
    split at h
    case h_1 _ n rest' hn =>
      cases h
      obtain ⟨q, hq, -⟩ := takes_word rfl bs n _ hn
      exact ⟨rfl, q, hq, (cut_eq_some hq).1⟩
    case h_2 => cases h
  case h_7 =>
    obtain ⟨it', hit⟩ := map_ended h
    exact absurd hit (hbase _ _ _ _)
  all_goals exact absurd h hscan

end More

/-! ## The cache, attribute by attribute -/

section Stored

variable {item : ItemFields} {bs q rest : Bytes}

theorem word_of_cut {n w : Nat} (hw : n / 8 = w) (h : cut w bs = some (q, rest)) :
    (readWord n).scan bs = (some (BitVec.ofNat n (unle q)), rest) := by
  subst hw
  rw [Reader.scan, readWord, Reader.map, readUInt, h]
  rfl

theorem scan_of_cut {n : Nat} (h : cut n bs = some (q, rest)) : (cut n).scan bs = (some q, rest) := by
  rw [Reader.scan, h]

theorem size_of_cut {w : Nat} (h : cut w bs = some (q, rest)) : (BitVec.ofNat (8 * w) (unle q)).toNat = unle q := by
  have hlt := unle_lt q
  rw [(cut_eq_some h).1, show 256 = 2 ^ 8 by rfl, ← pow_mul] at hlt
  rw [BitVec.toNat_ofNat, Nat.mod_eq_of_lt hlt]

theorem string_of_cut (h : cutString bs = some (q, rest)) : readString bs = (some (q.drop 2), rest) := by
  obtain ⟨q₁, mid, q₂, h₁, h₂, rfl⟩ := Reader.seq_eq_some.mp h
  have hsize := @size_of_cut _ _ _ 2 h₁
  rw [readString, Scan.bind, word_of_cut rfl h₁]
  show (cut (BitVec.ofNat 16 (unle q₁)).toNat).scan mid = _
  rw [hsize, scan_of_cut h₂, ← (cut_eq_some h₁).1, drop_left' rfl]

theorem parseEntries_of_cut {α : Type} {entry : Scan α} {k : Nat}
    (he : ∀ bs q rest, cut k bs = some (q, rest) → ∃ a, entry bs = (some a, rest)) {n : Nat}
    (h : (cut k).repeated n bs = some (q, rest)) : parseEntries entry n bs = rest := by
  induction n generalizing bs q with
  | zero =>
    cases h
    rfl
  | succ n ih =>
    obtain ⟨q₁, mid, q₂, h₁, h₂, -⟩ := Reader.seq_eq_some.mp h
    obtain ⟨a, ha⟩ := he bs q₁ mid h₁
    rw [parseEntries, ha]
    exact ih h₂

theorem reflect_of_cut (h : cut 6 bs = some (q, rest)) : ∃ e, readReflectEntry bs = (some e, rest) := by
  obtain ⟨h₁, h⟩ := @cut_split 2 4 _ _ _ h
  obtain ⟨h₂, h₃⟩ := @cut_split 2 2 _ _ _ h
  unfold readReflectEntry Scan.bind
  rw [word_of_cut rfl h₁]
  dsimp only
  rw [word_of_cut rfl h₂]
  dsimp only
  rw [word_of_cut rfl h₃]
  exact ⟨_, rfl⟩

theorem boost_of_cut (h : cut 4 bs = some (q, rest)) : ∃ e, readBoostEntry bs = (some e, rest) := by
  obtain ⟨h₁, h₂⟩ := @cut_split 2 2 _ _ _ h
  unfold readBoostEntry Scan.bind
  rw [word_of_cut rfl h₁]
  dsimp only
  rw [word_of_cut rfl h₂]
  exact ⟨_, rfl⟩

theorem parseCustomValue_of_cut {type : Bytes} (ht : type.length = 1) (h : cutCustomValue type bs = some (q, rest)) :
    parseCustomValue (BitVec.ofNat 8 (unle type)) bs = rest := by
  have h0 := @type_eq_iff type ht 0 (by decide)
  have h1 := @type_eq_iff type ht 1 (by decide)
  have h2 := @type_eq_iff type ht 2 (by decide)
  have h3 := @type_eq_iff type ht 3 (by decide)
  have h4 := @type_eq_iff type ht 4 (by decide)
  unfold parseCustomValue
  simp only [BitVec.ofNat_eq_ofNat, h0, h1, h2, h3, h4]
  unfold cutCustomValue at h
  split_ifs at h ⊢
  · exact ((cut_eq_some h).2.trans (by rw [eq_nil_of_length_eq_zero (cut_eq_some h).1, nil_append]))
  · rw [string_of_cut h]
  · rw [scan_of_cut h]
  · rw [scan_of_cut h]
  · rw [scan_of_cut h]

theorem parseCustomEntries_of_cut {n : Nat} (h : cutCustomEntry.repeated n bs = some (q, rest)) :
    parseCustomEntries n bs = rest := by
  induction n generalizing bs q with
  | zero =>
    cases h
    rfl
  | succ n ih =>
    obtain ⟨q₁, mid, q₂, h₁, h₂, -⟩ := Reader.seq_eq_some.mp h
    obtain ⟨key, mid₁, q₃, hkey, hvalue, -⟩ := Reader.seq_eq_some.mp h₁
    obtain ⟨type, mid₂, q₄, htype, hv, -⟩ := Reader.seq_eq_some.mp hvalue
    rw [parseCustomEntries, string_of_cut hkey, word_of_cut rfl htype]
    show parseCustomEntries n (parseCustomValue _ mid₂) = rest
    rw [parseCustomValue_of_cut (cut_eq_some htype).1 hv]
    exact ih h₂

theorem storeAttr_other {b : UInt8} (hb : b ∉ seenTags) : storeAttr item (b, q) = item := by
  simp only [seenTags, mem_append, not_or] at hb
  obtain ⟨hsub, hrest⟩ := hb
  simp only [mem_cons, not_mem_nil, or_false, not_or] at hrest
  obtain ⟨h4, h5, h6, h8, h14, h10⟩ := hrest
  have hdoor : b ∉ ([10, 14] : List UInt8) := by simp [h10, h14]
  simp only [storeAttr, if_neg hsub, mem_singleton, if_neg h4, if_neg h5, if_neg h6, if_neg h8, if_neg hdoor]

theorem keep_of {α : Type} {p : Scan α} {a : α} {f : α → ItemFields → ItemFields} (h : p bs = (some a, rest)) :
    keep p f item bs = (f a item, rest) := by rw [keep, h]

theorem ignore_of {α : Type} {p : Scan α} {o : Option α} (h : p bs = (o, rest)) : ignore p item bs = (item, rest) := by
  rw [ignore, h]

theorem parseBasicAttr_code (t : AttrTag) (item : ItemFields) (h : payloadOf t bs = some (q, rest))
    (hmissed : t.code ∉ missedTags) : parseBasicAttr t.code item bs = (storeAttr item (t.code, q), rest) := by
  have hstrings : ¬ (t.code = 1 ∨ t.code = 2 ∨ t.code = 11 ∨ t.code = 13) := by cases t <;> decide
  have hflags : t.code ≠ 3 := by cases t <;> decide
  have hother : t.code ∉ seenTags → storeAttr item (t.code, q) = item := storeAttr_other
  rw [parseBasicAttr, if_neg hstrings, if_neg hflags, ofCode_code]
  cases t <;> simp only [payloadOf] at h
  case count | runeCharges =>
    refine (keep_of (@word_of_cut _ _ _ 8 1 rfl h)).trans ?_
    rw [unle_byte (cut_eq_some h).1]
    rfl
  case houseDoorId =>
    refine (keep_of (@word_of_cut _ _ _ 8 1 rfl h)).trans ?_
    rw [unle_byte (cut_eq_some h).1]
    rfl
  case charges | actionId | uniqueId | depotId => exact keep_of (word_of_cut rfl h)
  case text => exact keep_of (string_of_cut h)
  case teleDest => exact keep_of (scan_of_cut h)
  case containerItems | imbueSlots | imbuements => exact absurd (by decide) hmissed
  case customAttributes =>
    rw [hother (by decide)]
    obtain ⟨q₁, mid, q₂, h₁, h₂, -⟩ := Reader.seq_eq_some.mp h
    have hsize := @size_of_cut _ _ _ 8 h₁
    rw [parseCustomAttributes, word_of_cut rfl h₁]
    show (item, parseCustomEntries (BitVec.ofNat (8 * 8) (unle q₁)).toNat mid) = _
    rw [hsize, parseCustomEntries_of_cut h₂]
  case reflect =>
    rw [hother (by decide)]
    obtain ⟨q₁, mid, q₂, h₁, h₂, -⟩ := Reader.seq_eq_some.mp h
    have hsize := @size_of_cut _ _ _ 2 h₁
    rw [parseReflectAttribute, word_of_cut rfl h₁]
    show (item, parseEntries readReflectEntry (BitVec.ofNat (8 * 2) (unle q₁)).toNat mid) = _
    rw [hsize, parseEntries_of_cut (fun _ _ _ => reflect_of_cut) h₂]
  case boost =>
    rw [hother (by decide)]
    obtain ⟨q₁, mid, q₂, h₁, h₂, -⟩ := Reader.seq_eq_some.mp h
    have hsize := @size_of_cut _ _ _ 2 h₁
    rw [parseBoostAttribute, word_of_cut rfl h₁]
    show (item, parseEntries readBoostEntry (BitVec.ofNat (8 * 2) (unle q₁)).toNat mid) = _
    rw [hsize, parseEntries_of_cut (fun _ _ _ => boost_of_cut) h₂]
  case desc | name | article | pluralName | writtenBy =>
    exact ignore_of (string_of_cut h)
  all_goals
    exact ignore_of (scan_of_cut h)

theorem parseBasicAttr_missed {b : UInt8} (item : ItemFields) (bs : Bytes) (hb : b ∈ missedTags) :
    parseBasicAttr b item bs = (item, bs) := by
  simp only [missedTags, mem_cons, not_mem_nil, or_false] at hb
  obtain rfl | rfl | rfl := hb <;> rfl

end Stored

/-! ## The two folds -/

section Folds

variable {items : BitVec 16 → ItemType} {addUniqueItem : BitVec 16 → Bool} {getNameByGuid : BitVec 32 → Bytes}

theorem cuts_payload (b : UInt8) : Cuts (payload b) := by
  have hstring : Cuts cutString := (cuts_cut 2).seq fun q => cuts_cut _
  have hvalue : ∀ type, Cuts (cutCustomValue type) := by
    intro type
    unfold cutCustomValue
    split_ifs
    · exact cuts_cut 0
    · exact hstring
    · exact cuts_cut 8
    · exact cuts_cut 8
    · exact cuts_cut 1
    · intro bs q rest h
      cases h
  have hentry : Cuts cutCustomEntry := hstring.seq fun _ => (cuts_cut 1).seq hvalue
  unfold payload
  cases AttrTag.ofCode b with
  | none =>
    intro bs q rest h
    cases h
  | some t =>
    cases t
    case customAttributes => exact (cuts_cut 8).seq fun _ => hentry.repeated _
    case reflect | boost | imbuements => exact (cuts_cut 2).seq fun _ => (cuts_cut _).repeated _
    case text | desc | writtenBy | name | article | pluralName => exact hstring
    all_goals exact cuts_cut _

theorem code_of_ofCode {b : UInt8} {t : AttrTag} (h : AttrTag.ofCode b = some t) : t.code = b := by
  have hfound := find?_some h
  simpa using hfound

theorem missed_payload {t : AttrTag} {bs q rest : Bytes} (ht : t.code ∈ missedTags) (h : payloadOf t bs = some (q, rest)) :
    q ≠ [] := by
  rintro rfl
  cases t <;> simp only [payloadOf] at h <;> try exact absurd ht (by decide)
  case containerItems => exact absurd (cut_eq_some h).1 (by decide)
  case imbueSlots => exact absurd (cut_eq_some h).1 (by decide)
  case imbuements =>
    obtain ⟨q₁, mid, q₂, h₁, -, he⟩ := Reader.seq_eq_some.mp h
    have hlen := (cut_eq_some h₁).1
    rw [(append_eq_nil_iff.mp he.symm).1] at hlen
    cases hlen

theorem containerItems_not_more {r r' : MapItem} {bs rest : Bytes} :
    readItemAttr items addUniqueItem getNameByGuid .containerItems r bs ≠ .more r' rest := by
  intro h
  unfold readItemAttr at h
  split at h
  case h_1 => split at h <;> cases h
  case h_7 =>
    obtain ⟨it', hit, -⟩ := map_more h
    cases hit
  all_goals simp_all

theorem agreeing : Agreeing 0 payload (fun t => decide (t = AttrTag.containerItems.code))
    (readItemByte items addUniqueItem getNameByGuid) parseBasicAttr (· ∉ missedTags) (MapItem.view items)
    (View.read items addUniqueItem) storeAttr := by
  refine ⟨cuts_payload, ?_, ?_, ?_⟩
  · intro b r bs r' rest _ h
    unfold readItemByte at h
    cases ht : AttrTag.ofCode b with
    | none =>
      rw [ht] at h
      cases h
    | some t =>
      rw [ht] at h
      obtain rfl := code_of_ofCode ht
      obtain ⟨q, hq, hview⟩ := readItemAttr_more h
      have hcut : payload t.code bs = some (q, rest) := by
        rw [payload, ht]
        exact hq
      refine ⟨?_, q, hcut, fun hk => ⟨hview hk, fun u => parseBasicAttr_code t u hq hk⟩, fun hk => ?_⟩
      · refine decide_eq_false fun he => ?_
        have htag : t = .containerItems := Option.some.inj (ht.symm.trans (by rw [he, ofCode_code]))
        exact containerItems_not_more (htag ▸ h)
      · have hmissed : t.code ∈ missedTags := not_not.mp hk
        exact ⟨missed_payload hmissed hq, fun u => by rw [parseBasicAttr_missed u bs hmissed]⟩
  · intro b r bs r' rest _ h
    unfold readItemByte at h
    cases ht : AttrTag.ofCode b with
    | none =>
      rw [ht] at h
      cases h
    | some t =>
      rw [ht] at h
      obtain rfl := code_of_ofCode ht
      obtain ⟨rfl, q, hq, hlen⟩ := readItemAttr_ended h
      have hcut : payload AttrTag.containerItems.code bs = some (q, rest) := by
        exact hq
      have hmissed : AttrTag.containerItems.code ∈ missedTags := by decide
      refine ⟨decide_eq_true rfl, q, hcut, not_not_intro hmissed, missed_payload hmissed hq, fun u => ?_⟩
      rw [parseBasicAttr_missed u bs hmissed]
  · exact ⟨by decide, fun v => View.read_other (by decide), fun u bs => rfl⟩

end Folds

/-! ## What each fold ends with -/

/-- The number in an attribute. -/
def num (q : Bytes) : BitVec 16 := BitVec.ofNat 16 (unle q)

section Last

variable {items : BitVec 16 → ItemType} {addUniqueItem : BitVec 16 → Bool} {f : UInt8 × Bytes}
  (l : List (UInt8 × Bytes))

theorem lastOf_snoc (tags : List UInt8) : lastOf tags (l ++ [f]) = if f.1 ∈ tags then some f.2 else lastOf tags l := by
  unfold lastOf
  rw [filter_append]
  by_cases hf : f.1 ∈ tags <;> simp [hf]

theorem foldl_last {σ γ : Type} {g : σ → γ} {step : σ → UInt8 × Bytes → σ} {tags : List UInt8} {value : Bytes → γ}
    {keeps : σ → Prop} (hstep : ∀ s e, keeps s → keeps (step s e) ∧ g (step s e) = if e.1 ∈ tags then value e.2 else g s)
    {s : σ} (hs : keeps s) : keeps (l.foldl step s) ∧ g (l.foldl step s) = (lastOf tags l).elim (g s) value := by
  induction l using reverseRecOn with
  | nil => exact ⟨hs, rfl⟩
  | append_singleton l e ih =>
    obtain ⟨hkeeps, hg⟩ := hstep (l.foldl step s) e ih.1
    rw [foldl_append, lastOf_snoc]
    refine ⟨hkeeps, hg.trans ?_⟩
    rw [ih.2]
    split <;> rfl

theorem View.read_form (v : View) : (v.read items addUniqueItem f).form = v.form ∧
    (v.read items addUniqueItem f).id = v.id := by
  unfold View.read
  split_ifs <;> exact ⟨rfl, rfl⟩

theorem read_subType (v : View) : (v.read items addUniqueItem f).subType =
    if f.1 ∈ subTypeTags then keptSubType (items v.id).toTypeInfo (num f.2) else v.subType := by
  unfold View.read
  split_ifs <;> rfl

theorem read_actionId (v : View) : (v.read items addUniqueItem f).actionId =
    if f.1 ∈ [4] then (if (num f.2).toNat < 100 then 100 else num f.2) else v.actionId := by
  obtain ⟨b, q⟩ := f
  by_cases hb : b ∈ [4]
  · obtain rfl := mem_singleton.mp hb
    rfl
  · grind [View.read]

theorem read_uniqueId (v : View) : (v.read items addUniqueItem f).uniqueId =
    if f.1 ∈ [5] then v.uniqueId.or (if addUniqueItem (num f.2) then some ((num f.2).setWidth 64) else none) else v.uniqueId := by
  obtain ⟨b, q⟩ := f
  by_cases hb : b ∈ [5]
  · obtain rfl := mem_singleton.mp hb
    rfl
  · grind [View.read]

theorem read_text (v : View) : (v.read items addUniqueItem f).text =
    if f.1 ∈ [6] then (if f.2.drop 2 = [] then v.text else f.2.drop 2) else v.text := by
  obtain ⟨b, q⟩ := f
  by_cases hb : b ∈ [6]
  · obtain rfl := mem_singleton.mp hb
    rfl
  · grind [View.read]

theorem read_dest (v : View) : (v.read items addUniqueItem f).dest =
    if f.1 ∈ [8] then (if v.form = .teleport then destOf f.2 else v.dest) else v.dest := by
  obtain ⟨b, q⟩ := f
  by_cases hb : b ∈ [8]
  · obtain rfl := mem_singleton.mp hb
    rfl
  · grind [View.read]

theorem read_doorId (v : View) : (v.read items addUniqueItem f).doorId =
    if f.1 ∈ [14] then (if v.form = .door then (num f.2).setWidth 32 else v.doorId) else v.doorId := by
  obtain ⟨b, q⟩ := f
  by_cases hb : b ∈ [14]
  · obtain rfl := mem_singleton.mp hb
    rfl
  · grind [View.read]

theorem read_depotId (v : View) : (v.read items addUniqueItem f).depotId =
    if f.1 ∈ [10] then (if v.form = .depotLocker then num f.2 else v.depotId) else v.depotId := by
  obtain ⟨b, q⟩ := f
  by_cases hb : b ∈ [10]
  · obtain rfl := mem_singleton.mp hb
    rfl
  · grind [View.read]

theorem store_id (item : ItemFields) : (storeAttr item f).id = item.id := by
  unfold storeAttr
  split_ifs <;> rfl

theorem store_charges (item : ItemFields) : (storeAttr item f).charges =
    if f.1 ∈ subTypeTags then num f.2 else item.charges := by
  unfold storeAttr
  split_ifs <;> rfl

theorem store_actionId (item : ItemFields) : (storeAttr item f).actionId =
    if f.1 ∈ [4] then num f.2 else item.actionId := by
  obtain ⟨b, q⟩ := f
  by_cases hb : b ∈ [4]
  · obtain rfl := mem_singleton.mp hb
    rfl
  · grind [storeAttr]

theorem store_uniqueId (item : ItemFields) : (storeAttr item f).uniqueId =
    if f.1 ∈ [5] then num f.2 else item.uniqueId := by
  obtain ⟨b, q⟩ := f
  by_cases hb : b ∈ [5]
  · obtain rfl := mem_singleton.mp hb
    rfl
  · grind [storeAttr]

theorem store_text (item : ItemFields) : (storeAttr item f).text =
    if f.1 ∈ [6] then f.2.drop 2 else item.text := by
  obtain ⟨b, q⟩ := f
  by_cases hb : b ∈ [6]
  · obtain rfl := mem_singleton.mp hb
    rfl
  · grind [storeAttr]

theorem store_dest (item : ItemFields) : ((storeAttr item f).destX, (storeAttr item f).destY, (storeAttr item f).destZ) =
    if f.1 ∈ [8] then destOf f.2 else (item.destX, item.destY, item.destZ) := by
  obtain ⟨b, q⟩ := f
  by_cases hb : b ∈ [8]
  · obtain rfl := mem_singleton.mp hb
    rfl
  · grind [storeAttr]

theorem store_doorOrDepotId (item : ItemFields) : (storeAttr item f).doorOrDepotId =
    if f.1 ∈ [10, 14] then num f.2 else item.doorOrDepotId := by
  obtain ⟨b, q⟩ := f
  by_cases hb : b ∈ ([10, 14] : List UInt8)
  · simp only [mem_cons, not_mem_nil, or_false] at hb
    obtain rfl | rfl := hb <;> rfl
  · grind [storeAttr]

variable (items addUniqueItem) in
theorem read_last {γ : Type} {g : View → γ} {tags : List UInt8} {value : Bytes → γ} (v : View)
    (hstep : ∀ (w : View) (f : UInt8 × Bytes), w.form = v.form → w.id = v.id →
      g (w.read items addUniqueItem f) = if f.1 ∈ tags then value f.2 else g w) :
    g (l.foldl (View.read items addUniqueItem) v) = (lastOf tags l).elim (g v) value := by
  refine (@foldl_last l _ _ g _ tags value (fun w => w.form = v.form ∧ w.id = v.id) (fun w f hw => ⟨?_, ?_⟩) v ⟨rfl, rfl⟩).2
  · obtain ⟨hform, hid⟩ := @View.read_form items addUniqueItem f w
    exact ⟨hform.trans hw.1, hid.trans hw.2⟩
  · exact hstep w f hw.1 hw.2

theorem store_last {γ : Type} {g : ItemFields → γ} {tags : List UInt8} {value : Bytes → γ} (item : ItemFields)
    (hstep : ∀ (i : ItemFields) (f : UInt8 × Bytes), g (storeAttr i f) = if f.1 ∈ tags then value f.2 else g i) :
    g (l.foldl storeAttr item) = (lastOf tags l).elim (g item) value :=
  (@foldl_last l _ _ g _ tags value (fun _ => True) (fun i f _ => ⟨trivial, hstep i f⟩) item trivial).2

theorem read_uniqueIds (v : View) : (l.foldl (View.read items addUniqueItem) v).uniqueId =
    v.uniqueId.or (((uniqueIds l).find? addUniqueItem).map (BitVec.setWidth 64)) := by
  induction l generalizing v with
  | nil => exact Option.or_none.symm
  | cons f l ih =>
    rw [foldl_cons, ih, read_uniqueId]
    by_cases hf : f.1 ∈ [5]
    · have hids : uniqueIds (f :: l) = num f.2 :: uniqueIds l := by
        rw [uniqueIds, filter_cons_of_pos (by simpa using hf)]
        rfl
      rw [if_pos hf, hids, Option.or_assoc]
      by_cases ha : addUniqueItem (num f.2) = true
      · rw [if_pos ha, find?_cons_of_pos ha]
        rfl
      · rw [if_neg ha, find?_cons_of_neg ha, Option.none_or]
    · have hids : uniqueIds (f :: l) = uniqueIds l := by
        rw [uniqueIds, filter_cons_of_neg (by simpa using hf)]
        rfl
      rw [if_neg hf, hids]

theorem uniqueIds_getLast : (uniqueIds l).getLast? = (lastOf [5] l).map num := by
  rw [uniqueIds, lastOf, getLast?_map, Option.map_map]
  rfl

theorem texts_getLast : (texts l).getLast? = (lastOf [6] l).map (List.drop 2) := by
  rw [texts, lastOf, getLast?_map, Option.map_map]
  rfl

theorem texts_snoc : texts (l ++ [f]) = if f.1 ∈ [6] then texts l ++ [f.2.drop 2] else texts l := by
  unfold texts
  grind

theorem read_texts (v : View) (hv : v.text = []) : (l.foldl (View.read items addUniqueItem) v).text =
    ((texts l).filter (· ≠ [])).getLast?.getD [] := by
  induction l using reverseRecOn with
  | nil => exact hv
  | append_singleton l f ih =>
    rw [foldl_append]
    refine (read_text _).trans ?_
    rw [ih, texts_snoc]
    by_cases hf : f.1 ∈ [6]
    · rw [if_pos hf, if_pos hf, filter_append]
      by_cases hs : f.2.drop 2 = []
      · simp [hs]
      · rw [if_neg hs, filter_cons_of_pos (by simpa using hs)]
        simp
    · rw [if_neg hf, if_neg hf]

theorem lastText_eq_iff (ts : List Bytes) : ts.getLast?.getD [] = (ts.filter (· ≠ [])).getLast?.getD [] ↔
    (ts.getLast? = some [] → ∀ s ∈ ts, s = []) := by
  induction ts using reverseRecOn with
  | nil => simp
  | append_singleton ts s _ =>
    rw [getLast?_append_of_ne_nil ts (cons_ne_nil s []), filter_append]
    by_cases hs : s = []
    · subst hs
      have hnone : ([[]] : List Bytes).filter (· ≠ []) = [] := rfl
      rw [hnone, append_nil]
      constructor
      · intro h _ s hs
        have hall : ts.filter (· ≠ []) = [] := by
          by_contra hne
          have hmem := mem_filter.mp (getLast_mem hne)
          rw [getLast?_eq_some_getLast hne, Option.getD_some] at h
          exact of_decide_eq_true hmem.2 h.symm
        obtain hs | hs := mem_append.mp hs
        · by_contra hne
          exact (filter_eq_nil_iff.mp hall s hs) (by simpa using hne)
        · exact mem_singleton.mp hs
      · intro h
        have hall : ts.filter (· ≠ []) = [] := filter_eq_nil_iff.mpr fun s hs => by
          simpa using h rfl s (mem_append_left _ hs)
        rw [hall]
        rfl
    · simp [hs]

end Last

/-! ## A created item -/

section Created

variable {items : BitVec 16 → ItemType} {roll : BitVec 32} {uid : BitVec 64} {r : MapItem}

structure Blank (r : MapItem) : Prop where
  ints : ∀ a ∈ [IntAttr.actionId, .uniqueId, .doorId], r.item.ints a = none
  text : r.item.strs .text = none
  dest : (r.destX, r.destY, r.destZ) = (0, 0, 0)
  depotId : r.depotId = 0

theorem makeItem_blank (form : Form) (type count : BitVec 16) : Blank (makeItem items roll form type count) := by
  obtain ⟨hints, hstrs, -⟩ := startSubType_frame (items type).toTypeInfo count
  refine ⟨fun a ha => ?_, ?_, rfl, rfl⟩
  · have hne : a ≠ .fluidType ∧ a ≠ .charges ∧ a ≠ .duration := by
      grind
    show (newItem (items type).toTypeInfo count roll).ints a = none
    rw [newItem_eq, Item.setDefaultDuration]
    split
    · rw [Item.setDuration, setIntAttr_ints_ne _ _ hne.2.2]
      exact hints a hne.1 hne.2.1
    · exact hints a hne.1 hne.2.1
  · show (newItem (items type).toTypeInfo count roll).strs .text = none
    rw [newItem_eq, Item.setDefaultDuration]
    split <;> exact congrFun hstrs _

theorem assignUID_blank (h : Blank r) : Blank (assignUID items uid r) := by
  unfold assignUID
  split
  · exact h
  · exact { h with }

def Blanks (o : Option MapItem) : Prop := ∀ r, o = some r → Blank r

theorem blanks_ite {c : Prop} [Decidable c] {a b : Option MapItem} (ha : Blanks a) (hb : Blanks b) :
    Blanks (if c then a else b) := by
  split
  · exact ha
  · exact hb

theorem createItem_blank (type count : BitVec 16) : Blanks (createItem items roll uid type count) := by
  have hnone : Blanks none := fun _ h => by cases h
  have hmake : ∀ form type count, Blanks (some (makeItem items roll form type count)) := by
    intro form type count r h
    cases h
    exact makeItem_blank form type count
  have hassign : ∀ form type count, Blanks (some (assignUID items uid (makeItem items roll form type count))) := by
    intro form type count r h
    cases h
    exact assignUID_blank (makeItem_blank form type count)
  repeat' first | exact hnone | exact hmake _ _ _ | exact hassign _ _ _ | apply blanks_ite

end Created

/-! ## When they agree -/

section Agree

variable (items : BitVec 16 → ItemType) (addUniqueItem : BitVec 16 → Bool) (getNameByGuid : BitVec 32 → Bytes)

/-- `parseBasicItemFromStream` -/
def parseBasicItemFromStream (stream : Bytes) : Option ItemFields :=
  (readWord 16 stream).map fun r => parseBasicItem items r.1 r.2

/-- The attributes that the full parser takes, with the bytes of each. -/
def itemLog (r : MapItem) (bs : Bytes) : List (UInt8 × Bytes) :=
  tagsLog 0 (readItemByte items addUniqueItem getNameByGuid) bs.length r bs

/-- The attributes that the cache takes. -/
def basicLog (id : BitVec 16) (bs : Bytes) : List (UInt8 × Bytes) :=
  exhaustLog parseBasicAttr bs.length (basicItem items (applyItemIdSubstitutions id)) bs

/-- The values of the cache are those of the item. Each is compared where the item has it: charges
    only where the type has a count, charges or a fluid. -/
structure SameItem (b : ItemFields) (r : MapItem) : Prop where
  id : b.id = r.id
  charges : (items r.id).hasSubType → b.charges = r.item.getSubType (items r.id).toTypeInfo
  actionId : b.actionId = r.item.getActionId
  uniqueId : b.uniqueId = r.getUniqueId
  text : b.text = r.item.getStrAttr .text
  dest : r.form = .teleport → (b.destX, b.destY, b.destZ) = (r.destX, r.destY, r.destZ)
  doorId : r.form = .door → b.doorOrDepotId.setWidth 32 = r.getDoorId
  depotId : r.form = .depotLocker → b.doorOrDepotId = r.depotId

/-- `r` is the item before its attributes are read, made for the id `type`, and `attrs` are its
    attributes. -/
structure SameValues (r : MapItem) (type : BitVec 16) (attrs : List (UInt8 × Bytes)) : Prop where
  /-- The item was made with the id of the stream. -/
  id : r.id = type
  /-- The last count or charges fit the type, and where there are none both start with the same. -/
  charges : (items r.id).hasSubType → (lastOf subTypeTags attrs).elim
    (r.item.getSubType (items r.id).toTypeInfo = defaultCharges (items type))
    fun q => (items r.id).stackable → ¬ (items r.id).fluid → (num q).toNat < 256
  /-- The last action id is not one that is raised to a hundred. -/
  actionId : ∀ q ∈ lastOf [4] attrs, 100 ≤ (num q).toNat
  /-- The first unique id that is free is the last one given. -/
  uniqueId : ((uniqueIds attrs).find? addUniqueItem).getD 0 = (uniqueIds attrs).getLast?.getD 0
  /-- An empty text hides no other. -/
  text : (texts attrs).getLast? = some [] → ∀ s ∈ texts attrs, s = []
  /-- No depot id comes after the last door id, nor the other way. -/
  doorId : r.form = .door → (lastOf [10, 14] attrs).elim 0 num = (lastOf [14] attrs).elim 0 num
  depotId : r.form = .depotLocker → (lastOf [10, 14] attrs).elim 0 num = (lastOf [10] attrs).elim 0 num

/-- The streams on which the two parsers agree. The cache knows every tag of the stream, nothing
    follows the attributes, and no value of the two differs by the item or by the order of the tags. -/
structure Agreeable (r : MapItem) (type : BitVec 16) (bs : Bytes) : Prop where
  known : ∀ f ∈ (attributes bs).1, f.1 ∉ missedTags
  whole : (attributes bs).2 = []
  values : SameValues items addUniqueItem r type (attributes bs).1

variable {items addUniqueItem getNameByGuid} {r r' : MapItem} {id : BitVec 16} {bs rest : Bytes}

theorem keptSubType_eq_iff {ty : ItemType} (hty : ty.hasSubType) (n : BitVec 16) :
    n = keptSubType ty.toTypeInfo n ↔ (ty.stackable → ¬ ty.fluid → n.toNat < 256) := by
  have hlow : n = (n.setWidth 8).setWidth 16 ↔ n.toNat < 256 := by
    rw [← BitVec.toNat_inj]
    simp only [BitVec.toNat_setWidth]
    omega
  unfold keptSubType
  unfold ItemType.hasSubType at hty
  by_cases hf : ty.fluid = true
  · simp [hf]
  rw [if_neg hf]
  by_cases hs : ty.stackable = true
  · rw [if_pos hs, hlow]
    simp [hs, hf]
  · have hc : ty.charges ≠ 0 := by simpa [hf, hs] using hty
    rw [if_neg hs, if_pos hc]
    simp [hs]

theorem setWidth_inj {m n : BitVec 16} : m.setWidth 32 = n.setWidth 32 ↔ m = n := by
  rw [← BitVec.toNat_inj, ← BitVec.toNat_inj, BitVec.toNat_setWidth, BitVec.toNat_setWidth]
  have hm := m.isLt
  have hn := n.isLt
  omega

theorem raised_eq_iff (n : BitVec 16) : n = (if n.toNat < 100 then 100 else n) ↔ 100 ≤ n.toNat := by
  by_cases hn : n.toNat < 100
  · rw [if_pos hn, ← BitVec.toNat_inj]
    show n.toNat = 100 ↔ 100 ≤ n.toNat
    omega
  · rw [if_neg hn]
    exact iff_of_true rfl (by omega)

end Agree

section Values

variable {items : BitVec 16 → ItemType} {addUniqueItem : BitVec 16 → Bool} {r r' : MapItem} {id : BitVec 16}
  {attrs : List (UInt8 × Bytes)}
  (hview : r'.view items = attrs.foldl (View.read items addUniqueItem) (r.view items))

include hview

theorem form_eq : r'.form = r.form :=
  (congrArg View.form hview).trans (foldl_keeps (g := View.form) (fun _ _ => (View.read_form _).1) attrs _)

theorem id_eq : r'.id = r.id :=
  (congrArg View.id hview).trans (foldl_keeps (g := View.id) (fun _ _ => (View.read_form _).2) attrs _)

theorem charges_eq_iff (hty : (items r.id).hasSubType) :
    (attrs.foldl storeAttr (basicItem items id)).charges = r'.item.getSubType (items r.id).toTypeInfo ↔
      (lastOf subTypeTags attrs).elim (r.item.getSubType (items r.id).toTypeInfo = defaultCharges (items id))
        fun q => (items r.id).stackable → ¬ (items r.id).fluid → (num q).toNat < 256 := by
  have hfull : r'.item.getSubType (items r.id).toTypeInfo = (lastOf subTypeTags attrs).elim
      (r.item.getSubType (items r.id).toTypeInfo) fun q => keptSubType (items r.id).toTypeInfo (num q) := by
    rw [← id_eq hview]
    refine (congrArg View.subType hview).trans ?_
    rw [id_eq hview]
    exact read_last items addUniqueItem attrs (g := View.subType) (r.view items) fun w f _ hw => by
      rw [read_subType, hw]
      rfl
  rw [hfull, store_last attrs (g := ItemFields.charges) (basicItem items id) fun _ _ => store_charges _]
  cases lastOf subTypeTags attrs with
  | none => exact eq_comm
  | some q => exact keptSubType_eq_iff hty (num q)

theorem actionId_eq_iff (hr : Blank r) : (attrs.foldl storeAttr (basicItem items id)).actionId = r'.item.getActionId ↔
    ∀ q ∈ lastOf [4] attrs, 100 ≤ (num q).toNat := by
  have hfull : r'.item.getActionId = (lastOf [4] attrs).elim 0
      fun q => if (num q).toNat < 100 then 100 else num q := by
    have hzero : (r.view items).actionId = 0 := by
      show (r.item.getIntAttr .actionId).setWidth 16 = 0
      rw [Item.getIntAttr, hr.ints .actionId (by simp)]
      rfl
    rw [← hzero]
    refine (congrArg View.actionId hview).trans ?_
    exact read_last items addUniqueItem attrs (g := View.actionId) (r.view items) fun w f _ _ => read_actionId w
  rw [hfull, store_last attrs (g := ItemFields.actionId) (basicItem items id) fun _ _ => store_actionId _]
  cases lastOf [4] attrs with
  | none => simp [basicItem]
  | some q =>
    rw [Option.elim_some, Option.elim_some, raised_eq_iff]
    simp

theorem uniqueId_eq_iff (hr : Blank r) : (attrs.foldl storeAttr (basicItem items id)).uniqueId = r'.getUniqueId ↔
    ((uniqueIds attrs).find? addUniqueItem).getD 0 = (uniqueIds attrs).getLast?.getD 0 := by
  have hfull : r'.getUniqueId = ((uniqueIds attrs).find? addUniqueItem).getD 0 := by
    have hnone : (r.view items).uniqueId = none := hr.ints .uniqueId (by simp)
    have hread : r'.item.ints .uniqueId = _ := (congrArg View.uniqueId hview).trans (read_uniqueIds attrs _)
    rw [MapItem.getUniqueId, Item.getIntAttr, hread, hnone, Option.none_or]
    cases (uniqueIds attrs).find? addUniqueItem with
    | none => rfl
    | some n =>
      simp
  have hcache := store_last attrs (g := ItemFields.uniqueId) (basicItem items id) fun _ _ => store_uniqueId _
  rw [hfull, hcache, uniqueIds_getLast]
  cases lastOf [5] attrs <;> exact eq_comm

theorem text_eq_iff (hr : Blank r) : (attrs.foldl storeAttr (basicItem items id)).text = r'.item.getStrAttr .text ↔
    ((texts attrs).getLast? = some [] → ∀ s ∈ texts attrs, s = []) := by
  have hfull : r'.item.getStrAttr .text = ((texts attrs).filter (· ≠ [])).getLast?.getD [] := by
    have hnone : (r.view items).text = [] := by
      show r.item.getStrAttr .text = []
      rw [Item.getStrAttr, hr.text]
      rfl
    exact (congrArg View.text hview).trans (read_texts attrs _ hnone)
  have hcache := store_last attrs (g := ItemFields.text) (basicItem items id) fun _ _ => store_text _
  rw [hfull, hcache, ← lastText_eq_iff, texts_getLast]
  cases lastOf [6] attrs <;> exact .rfl

theorem dest_eq (hr : Blank r) (hform : r.form = .teleport) :
    ((attrs.foldl storeAttr (basicItem items id)).destX, (attrs.foldl storeAttr (basicItem items id)).destY,
      (attrs.foldl storeAttr (basicItem items id)).destZ) = (r'.destX, r'.destY, r'.destZ) := by
  have hfull : (r'.destX, r'.destY, r'.destZ) = (lastOf [8] attrs).elim (0, 0, 0) destOf := by
    rw [← hr.dest]
    have hform' : (r.view items).form = .teleport := hform
    refine (congrArg View.dest hview).trans ?_
    exact read_last items addUniqueItem attrs (g := View.dest) (r.view items) fun w f hw _ => by
      rw [read_dest, hw, if_pos hform']
  rw [hfull]
  exact store_last attrs (g := fun i : ItemFields => (i.destX, i.destY, i.destZ)) (basicItem items id) fun _ _ => store_dest _

theorem doorId_eq_iff (hr : Blank r) (hform : r.form = .door) :
    (attrs.foldl storeAttr (basicItem items id)).doorOrDepotId.setWidth 32 = r'.getDoorId ↔
      (lastOf [10, 14] attrs).elim 0 num = (lastOf [14] attrs).elim 0 num := by
  have hfull : r'.getDoorId = ((lastOf [14] attrs).elim 0 num).setWidth 32 := by
    have hzero : (r.view items).doorId = 0 := by
      show (r.item.getIntAttr .doorId).setWidth 32 = 0
      rw [Item.getIntAttr, hr.ints .doorId (by simp)]
      rfl
    have hform' : (r.view items).form = .door := hform
    have hlast : r'.getDoorId = (lastOf [14] attrs).elim 0 fun q => (num q).setWidth 32 := by
      rw [← hzero]
      refine (congrArg View.doorId hview).trans ?_
      exact read_last items addUniqueItem attrs (g := View.doorId) (r.view items) fun w f hw _ => by
        rw [read_doorId, hw, if_pos hform']
    rw [hlast]
    cases lastOf [14] attrs <;> rfl
  have hcache := store_last attrs (g := ItemFields.doorOrDepotId) (basicItem items id) fun _ _ => store_doorOrDepotId _
  rw [hfull, setWidth_inj, hcache]
  exact .rfl

theorem depotId_eq_iff (hr : Blank r) (hform : r.form = .depotLocker) :
    (attrs.foldl storeAttr (basicItem items id)).doorOrDepotId = r'.depotId ↔
      (lastOf [10, 14] attrs).elim 0 num = (lastOf [10] attrs).elim 0 num := by
  have hfull : r'.depotId = (lastOf [10] attrs).elim 0 num := by
    rw [← hr.depotId]
    have hform' : (r.view items).form = .depotLocker := hform
    refine (congrArg View.depotId hview).trans ?_
    exact read_last items addUniqueItem attrs (g := View.depotId) (r.view items) fun w f hw _ => by
      rw [read_depotId, hw, if_pos hform']
  have hcache := store_last attrs (g := ItemFields.doorOrDepotId) (basicItem items id) fun _ _ => store_doorOrDepotId _
  rw [hfull, hcache]
  exact .rfl

theorem sameItem_iff (hr : Blank r) : SameItem items (attrs.foldl storeAttr (basicItem items id)) r' ↔
    SameValues items addUniqueItem r id attrs := by
  have hform := form_eq hview
  have hid := id_eq hview
  have hids : (attrs.foldl storeAttr (basicItem items id)).id = r'.id ↔ r.id = id := by
    rw [foldl_keeps (g := ItemFields.id) (fun _ _ => store_id _), hid]
    exact eq_comm
  constructor
  · intro h
    refine ⟨hids.mp h.id, fun hty => ?_, (actionId_eq_iff hview hr).mp h.actionId, (uniqueId_eq_iff hview hr).mp h.uniqueId,
      (text_eq_iff hview hr).mp h.text, fun hf => ?_, fun hf => ?_⟩
    · exact (charges_eq_iff hview hty).mp (hid ▸ h.charges (hid ▸ hty))
    · exact (doorId_eq_iff hview hr hf).mp (h.doorId (hform.trans hf))
    · exact (depotId_eq_iff hview hr hf).mp (h.depotId (hform.trans hf))
  · intro h
    refine ⟨hids.mpr h.id, fun hty => ?_, (actionId_eq_iff hview hr).mpr h.actionId,
      (uniqueId_eq_iff hview hr).mpr h.uniqueId, (text_eq_iff hview hr).mpr h.text, fun hf => ?_, fun hf => ?_, fun hf => ?_⟩
    · rw [hid] at hty ⊢
      exact (charges_eq_iff hview hty).mpr (h.charges hty)
    · exact dest_eq hview hr (hform.symm.trans hf)
    · exact (doorId_eq_iff hview hr (hform.symm.trans hf)).mpr (h.doorId (hform.symm.trans hf))
    · exact (depotId_eq_iff hview hr (hform.symm.trans hf)).mpr (h.depotId (hform.symm.trans hf))

end Values

section Main

variable {items : BitVec 16 → ItemType} {addUniqueItem : BitVec 16 → Bool} {getNameByGuid : BitVec 32 → Bytes}
  {roll : BitVec 32} {uid : BitVec 64} {r r' : MapItem} {id : BitVec 16} {stream bs rest : Bytes}

variable (items addUniqueItem getNameByGuid) in
/-- What the cache reads is what the full parser reads: the same bytes attribute by attribute, and
    the same values. -/
def Agree (r r' : MapItem) (id : BitVec 16) (stream bs : Bytes) : Prop :=
  basicLog items id bs = itemLog items addUniqueItem getNameByGuid r bs ∧
    ∃ b, parseBasicItemFromStream items stream = some b ∧ SameItem items b r'

/-- On a stream that the full parser accepts. -/
theorem parsers_agree_iff (hid : readWord 16 stream = some (id, bs))
    (hcreate : createItem items roll uid (applyItemIdSubstitutions id) 0 = some r)
    (hread : unserializeItem items addUniqueItem getNameByGuid r bs = .ended r' rest) :
    Agree items addUniqueItem getNameByGuid r r' id stream bs ↔
      Agreeable items addUniqueItem r (applyItemIdSubstitutions id) bs := by
  have hr := createItem_blank _ _ r hcreate
  have hlayout : attributes bs = (itemLog items addUniqueItem getNameByGuid r bs, rest) :=
    tagsLog_eq_layout agreeing le_rfl le_rfl hread
  obtain ⟨hbytes, hfolds⟩ :=
    lockstep (u := basicItem items (applyItemIdSubstitutions id)) agreeing le_rfl le_rfl hread
  have hparse : parseBasicItemFromStream items stream = some (parseBasicItem items id bs) := by
    rw [parseBasicItemFromStream, hid, Option.map_some]
  have hattrs : (attributes bs).1 = itemLog items addUniqueItem getNameByGuid r bs := congrArg Prod.fst hlayout
  have hrest : (attributes bs).2 = rest := congrArg Prod.snd hlayout
  constructor
  · intro ⟨hlog, b, hb, hsame⟩
    obtain rfl := Option.some.inj (hparse.symm.trans hb)
    obtain ⟨hknown, hwhole⟩ := hbytes.mp hlog
    obtain ⟨hview, hcache⟩ := hfolds hlog
    rw [parseBasicItem, hcache] at hsame
    refine ⟨?_, hrest.trans hwhole, ?_⟩
    · rw [hattrs]
      exact hknown
    · rw [hattrs]
      exact (sameItem_iff hview hr).mp hsame
  · intro h
    have hlog : basicLog items id bs = itemLog items addUniqueItem getNameByGuid r bs := by
      refine hbytes.mpr ⟨?_, hrest.symm.trans h.whole⟩
      show ∀ f ∈ itemLog items addUniqueItem getNameByGuid r bs, f.1 ∉ missedTags
      rw [← hattrs]
      exact h.known
    obtain ⟨hview, hcache⟩ := hfolds hlog
    refine ⟨hlog, _, hparse, ?_⟩
    rw [parseBasicItem, hcache]
    refine (sameItem_iff hview hr).mpr ?_
    have hvalues := h.values
    rw [hattrs] at hvalues
    exact hvalues

end Main

/-- A type without count or charges. -/
def plainType : ItemType where
  stackable := false
  fluid := false
  moveable := true
  charges := 0
  imbuementSlot := 0
  decayTimeMin := 0
  decayTimeMax := 0
  id := 100

/-- An action id is read alike. -/
theorem parsers_agree_iff_action : ∃ r r' : MapItem, r'.item.getActionId = 1000 ∧
    Agree (fun _ => plainType) (fun _ => true) (fun _ => []) r r' 100 [100, 0, 4, 232, 3] [4, 232, 3] := by
  refine ⟨_, _, ?_, (@parsers_agree_iff (fun _ => plainType) (fun _ => true) (fun _ => []) 0 7 _ _ 100
    [100, 0, 4, 232, 3] [4, 232, 3] [] rfl rfl rfl).mpr ⟨by decide, rfl, ?_⟩⟩
  · decide
  · refine ⟨rfl, fun h => ?_, fun q hq => ?_, by decide, by decide, fun h => ?_, fun h => ?_⟩
    · cases h
    · cases hq
      decide
    · cases h
    · cases h

/-- Three imbuement slots before an action id: the cache takes the three for tile flags, with the
    rest of the stream as their bytes. -/
theorem imbuement_slots_misread : ¬ ∀ (items : BitVec 16 → ItemType) (addUniqueItem : BitVec 16 → Bool)
    (getNameByGuid : BitVec 32 → Bytes) (roll : BitVec 32) (uid : BitVec 64) (r r' : MapItem) (id : BitVec 16)
    (stream bs rest : Bytes), readWord 16 stream = some (id, bs) →
    createItem items roll uid (applyItemIdSubstitutions id) 0 = some r →
    unserializeItem items addUniqueItem getNameByGuid r bs = .ended r' rest →
    Agree items addUniqueItem getNameByGuid r r' id stream bs := by
  intro h
  have hagree := h (fun _ => plainType) (fun _ => true) (fun _ => []) 0 7 _ _ 100 [100, 0, 44, 3, 0, 0, 0, 4, 232, 3]
    [44, 3, 0, 0, 0, 4, 232, 3] [] rfl rfl rfl
  exact absurd hagree.1 (by decide)

end Backlands.World.ItemStream
