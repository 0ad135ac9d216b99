/-
  Backlands.House.Stream — the items of a house tile as bytes (src/iomapserialize.cpp:
  `saveItem`, `saveTile`, `loadItem`, `loadContainer`, the loop of `loadHouseItems`;
  `readAttr` and `serializeAttr` of containers, depot lockers, doors, beds and teleports).

  An item is a tree: the object (`Thing`) and, for a container, its items from the front.
  An object has the class it was made as; `types` is the item table, which may be another
  one when the tile is loaded than when it was saved (`World`). What an item is decoded to
  is the answer of `loadItem`; where it is put on the tile is not followed, and what stands
  on the tile when an item is loaded is given (`tile`). Inside a container there is no tile.
-/

import Backlands.Lib.Forest
import Backlands.Attributes.RoundTrip

namespace Backlands.House

open Backlands.Lib
open Backlands.Attributes (AttrTag TypeInfo)

/-! ## The item table -/

inductive ItemGroup where
  | deprecated | container | other
  deriving DecidableEq

/-- `ItemTypes_t`, the types that are asked for here. -/
inductive Kind where
  | depot | rewardChest | teleport | magicField | door | trashHolder | mailbox | bed | carpet | other
  deriving DecidableEq

structure ItemType where
  /-- The table has the id. -/
  known : Bool
  group : ItemGroup
  kind : Kind
  info : TypeInfo
  forceSerialize : Bool
  /-- `wrapableTo` is not zero. -/
  wrapable : Bool
  canWriteText : Bool
  persistentTransformFamily : Nat
  /-- `transformToFree` and `transformToOnUse` for either sex. -/
  bedTransforms : List (BitVec 16)

abbrev Types := BitVec 16 → ItemType

/-- The classes that read or write attributes of their own. -/
inductive Class where
  | item | container | depotLocker | door | bed | teleport
  deriving DecidableEq

/-- `getContainer()` is not null. -/
def Class.isContainer : Class → Bool
  | .container | .depotLocker => true
  | .item | .door | .bed | .teleport => false

def ITEM_DEPOT_BOX_1 : BitVec 16 := 22797
def ITEM_DEPOT_BOX_17 : BitVec 16 := 22813
def ITEM_INBOX : BitVec 16 := 12902

def isSpecialContainer (types : Types) (id : BitVec 16) : Bool :=
  decide ((types id).kind = .rewardChest) || (decide (ITEM_DEPOT_BOX_1 ≤ id) && decide (id ≤ ITEM_DEPOT_BOX_17)) ||
    decide (id = ITEM_INBOX)

/-- The class that `CreateItem` makes for an id. -/
def classOf (types : Types) (id : BitVec 16) : Class :=
  if (types id).kind = .depot then .depotLocker
  else if isSpecialContainer types id || decide ((types id).group = .container) then .container
  else match (types id).kind with
    | .teleport => .teleport
    | .door => .door
    | .bed => .bed
    | _ => .item

/-- `CreateItem` comes to its last branches. -/
def isPlain (types : Types) (id : BitVec 16) : Bool :=
  decide (classOf types id = .item) &&
    !(decide ((types id).kind = .magicField) || decide ((types id).kind = .trashHolder) ||
      decide ((types id).kind = .mailbox))

/-- The id that the item is given: worn rings and boots are made as they are when not worn. -/
def createdId (types : Types) (id : BitVec 16) : BitVec 16 :=
  if !isPlain types id then id
  else if 3094 ≤ id ∧ id ≤ 3096 then id - 3
  else if id = 3099 ∨ id = 3100 then id - 2
  else if 3086 ≤ id ∧ id ≤ 3090 then id - 37
  else if id = 3549 then 6529
  else if id = 6299 then 6300
  else id

/-- `CreateItem` does not return null. -/
def creatable (types : Types) (id : BitVec 16) : Bool :=
  decide ((types id).group ≠ .deprecated) && (types id).known

/-- `isSamePersistentFixtureFamily`. -/
def isSamePersistentFixtureFamily (types : Types) (mapId persistedId : BitVec 16) : Bool :=
  if !(types mapId).known || !(types persistedId).known then false
  else if mapId = persistedId then true
  else if (types mapId).kind = .bed ∧ (types persistedId).kind = .bed then
    (mapId :: (types mapId).bedTransforms).any fun i =>
      decide (i ≠ 0) && (persistedId :: (types persistedId).bedTransforms).contains i
  else if (types mapId).kind = .door ∧ (types persistedId).kind = .door then
    decide ((types mapId).persistentTransformFamily ≠ 0) &&
      decide ((types mapId).persistentTransformFamily = (types persistedId).persistentTransformFamily)
  else false

/-! ## Objects -/

structure Obj where
  base : Attributes.Item
  serializationCount : BitVec 32
  depotId : BitVec 16
  sleeperGUID : BitVec 32
  sleepStart : BitVec 64
  destPos : BitVec 16 × BitVec 16 × BitVec 8

structure Thing where
  id : BitVec 16
  cls : Class
  obj : Obj

abbrev Tree := RoseTree Thing

/-! ## Saving -/

section
variable (types : Types) (enabled : Bool) (now : BitVec 64)

/-- `serializeAttr` of the object's class. A door writes nothing, a bed not what other items do. -/
def Thing.serializeAttr (x : Thing) : Bytes :=
  let item := Attributes.serializeAttr (types x.id).info enabled now x.obj.base
  match x.cls with
  | .item | .container | .depotLocker => item
  | .door => []
  | .bed =>
    (if x.obj.sleeperGUID ≠ 0 then AttrTag.sleeperGuid.code :: word x.obj.sleeperGUID else []) ++
    (if x.obj.sleepStart ≠ 0 then AttrTag.sleepStart.code :: word (x.obj.sleepStart.setWidth 32) else [])
  | .teleport =>
    item ++ AttrTag.teleDest.code ::
      (word x.obj.destPos.1 ++ word x.obj.destPos.2.1 ++ word x.obj.destPos.2.2)

mutual
/-- `saveItem`: the id, the attributes, the items of a container, and a zero. -/
def saveItem : Tree → Bytes
  | .node x items => word x.id ++ (x.serializeAttr types enabled now ++
      ((if x.cls.isContainer then
        AttrTag.containerItems.code :: (word (BitVec.ofNat 32 items.length) ++ saveItems items) else []) ++ [0]))
/-- The items of a container, the last one first. -/
def saveItems : List Tree → Bytes
  | [] => []
  | t :: ts => saveItems ts ++ saveItem t
end

/-- What `saveTile` does not leave out. -/
def persists (t : Tree) : Bool :=
  let ty := types t.label.id
  ty.info.moveable || ty.forceSerialize || decide (ty.kind = .carpet) || ty.wrapable ||
    decide (t.label.cls = .door) || (t.label.cls.isContainer && !t.contents.isEmpty) || ty.canWriteText ||
    decide (t.label.cls = .bed)

end

/-- A tile with the items on it. `Tile::addThing` takes no more than 65535 of them, only
    containers have contents, and the attributes are made by the setters. -/
structure Tile where
  pos : BitVec 16 × BitVec 16 × BitVec 8
  items : List Tree
  size_le : items.length ≤ 0xFFFF
  sound : ∀ t ∈ items, t.Sound fun x => x.cls.isContainer
  attributes : ∀ t ∈ items, ∀ x ∈ t.labels, Attributes.Wellformed x.obj.base

section
variable (types : Types) (enabled : Bool) (now : BitVec 64)

def Tile.written (tile : Tile) : List Tree := (tile.items.filter (persists types)).reverse

/-- `saveTile`: the counter has 16 bits and is written in 32. -/
def saveTile (tile : Tile) : Bytes :=
  if (tile.written types).isEmpty then []
  else word tile.pos.1 ++ (word tile.pos.2.1 ++ (word tile.pos.2.2 ++
    (word ((BitVec.ofNat 16 (tile.written types).length).setWidth 32) ++
      (tile.written types).flatMap (saveItem types enabled now))))

end

/-! ## Loading -/

/-- What the loading reads besides the stream: the item table, whether the game takes a
    unique id, the description of a bed whose sleeper has a name, and what is drawn for a
    new item's duration and number. -/
structure World where
  types : Types
  addUniqueItem : BitVec 16 → Bool
  sleeping : BitVec 32 → Option Bytes
  draw : BitVec 16 → BitVec 32 × BitVec 64

/-- The answer of `loadItem` or `loadContainer`, with what is left of the stream. -/
inductive Load (α : Type*) where
  | ok (a : α) (rest : Bytes)
  | failed (rest : Bytes)

namespace World
variable (w : World)

/-- `CreateItem`, without a count. -/
def createItem (id : BitVec 16) : Option Thing :=
  if !creatable w.types id then none
  else
    let made := createdId w.types id
    let plain := isPlain w.types id
    let count : BitVec 16 := if plain && (w.types id).info.stackable then 1 else 0
    let base := Attributes.newItem (w.types made).info count (w.draw id).1
    let numbered := (plain || (decide (classOf w.types id = .container) && !isSpecialContainer w.types id)) &&
      !(w.types made).info.stackable
    let base := if numbered then base.setCustomAttribute Attributes.uidKey (.int (w.draw id).2) else base
    some ⟨made, classOf w.types id, ⟨base, 0, 0, 0, 0, (0, 0, 0)⟩⟩

/-- `BedItem::readAttr` for a sleeper: one whose name is not found is left out. -/
def putSleeper (guid : BitVec 32) (o : Obj) : Obj :=
  if guid = 0 then o
  else match w.sleeping guid with
    | some text => { o with base := o.base.setStrAttr .description text, sleeperGUID := guid }
    | none => o

def readDest : Scan (BitVec 16 × BitVec 16 × BitVec 8) :=
  (readWord 16).scan.bind fun x => (readWord 16).scan.bind fun y => (readWord 8).scan.bind fun z => Scan.pure (x, y, z)

/-- `readAttr` of the object's class. A depot locker does not go on to `Container::readAttr`. -/
def readAttr (x : Thing) (t : AttrTag) (o : Obj) (bs : Bytes) : Outcome Unit Obj :=
  match x.cls, t with
  | .container, .containerItems =>
    match readWord 32 bs with
    | some (n, rest) => .ended { o with serializationCount := n } rest
    | none => .failed () bs
  | .depotLocker, .depotId => .scan () (readWord 16).scan (fun n => { o with depotId := n }) bs
  | .door, .houseDoorId =>
    .scan () (readWord 8).scan (fun n => { o with base := o.base.setIntAttr .doorId (n.setWidth 64) }) bs
  | .bed, .sleeperGuid => .scan () (readWord 32).scan (fun guid => w.putSleeper guid o) bs
  | .bed, .sleepStart => .scan () (readWord 32).scan (fun n => { o with sleepStart := n.setWidth 64 }) bs
  | .teleport, .teleDest => .scan () readDest (fun p => { o with destPos := p }) bs
  | _, t => (Attributes.readAttr (w.types x.id).info w.addUniqueItem t o.base bs).map fun b => { o with base := b }

def readByte (x : Thing) (b : UInt8) (o : Obj) (bs : Bytes) : Outcome Unit Obj :=
  match AttrTag.ofCode b with
  | some t => w.readAttr x t o bs
  | none => .failed () bs

/-- `unserializeAttr`. -/
def unserializeAttr (x : Thing) (bs : Bytes) : Outcome Unit Obj := readTags 0 (w.readByte x) x.obj bs

end World

section
variable (load : Bytes → Load (Option Tree))

/-- The loop of `loadContainer`: what is loaded goes to the front. -/
def loadItems : Nat → List Tree → Bytes → Load (List Tree)
  | 0, items, bs => .ok items bs
  | n + 1, items, bs =>
    match load bs with
    | .ok t rest => loadItems n (t.toList ++ items) rest
    | .failed rest => .failed rest

/-- `loadContainer`: the items are followed by a zero. -/
def loadContainer (n : Nat) (bs : Bytes) : Load (List Tree) :=
  match loadItems load n [] bs with
  | .ok items (b :: rest) => if b = 0 then .ok items rest else .failed rest
  | .ok _ [] => .failed []
  | .failed rest => .failed rest

/-- The attributes are read into the object and the items of a container after them; then the
    object has the id `id`. Of a fixture of the tile (`fixture`) a failure is only logged. -/
def loadInto (w : World) (fixture : Bool) (x : Thing) (id : BitVec 16) (bs : Bytes) : Load (Option Tree) :=
  match w.unserializeAttr x bs with
  | .failed _ rest => if fixture then .ok none rest else .failed rest
  | .more o rest | .ended o rest =>
    if x.cls.isContainer then
      match loadContainer load o.serializationCount.toNat rest with
      | .ok items rest => .ok (some (.node ⟨id, x.cls, { o with serializationCount := 0 }⟩ items)) rest
      | .failed rest => .failed rest
    else .ok (some (.node ⟨id, x.cls, o⟩ [])) rest

def loadNew (w : World) (id : BitVec 16) (bs : Bytes) : Load (Option Tree) :=
  match w.createItem id with
  | some x => loadInto load w false x x.id bs
  | none => .ok none bs

end

namespace World
variable (w : World)

/-- The fixture of the tile that an item is loaded into: one of the id, or a door or bed of
    the same family. -/
def staticItem (items : List Tree) (id : BitVec 16) : Option Thing :=
  match items.find? fun t => decide (t.label.id = id) with
  | some t => some t.label
  | none =>
    if (w.types id).kind = .door ∨ (w.types id).kind = .bed then
      (items.find? fun t => isSamePersistentFixtureFamily w.types t.label.id id).map RoseTree.label
    else none

def fixture (tile : Option (List Tree)) (id : BitVec 16) : Option Thing :=
  match tile with
  | some items =>
    if (w.types id).info.moveable || (w.types id).forceSerialize then none else w.staticItem items id
  | none => none

/-- `loadItem`. A carpet or an item that can be wrapped is put on the tile when there is no
    fixture for it; of another item its contents are, but all are created and read alike. Each
    item takes an id at least, so the length of the stream is fuel enough. -/
def loadItem : Nat → Option (List Tree) → Bytes → Load (Option Tree)
  | 0, _, bs => .failed bs
  | fuel + 1, tile, bs =>
    match readWord 16 bs with
    | none => .failed bs
    | some (id, rest) =>
      match w.fixture tile id with
      | some x => loadInto (loadItem fuel none) w true x id rest
      | none => loadNew (loadItem fuel none) w id rest

def load (tile : Option (List Tree)) (bs : Bytes) : Load (Option Tree) := w.loadItem bs.length tile bs

/-- The loop of `loadHouseItems`; the answer of `loadItem` is not looked at. `tiles` is what
    stands on the tile when an item's turn comes. -/
def loadAll (tiles : Nat → List Tree) : Nat → Nat → Bytes → List (Option Tree) × Bytes
  | _, 0, bs => ([], bs)
  | k, n + 1, bs =>
    match w.load (some (tiles k)) bs with
    | .ok t rest => (t :: (loadAll tiles (k + 1) n rest).1, (loadAll tiles (k + 1) n rest).2)
    | .failed rest => (none :: (loadAll tiles (k + 1) n rest).1, (loadAll tiles (k + 1) n rest).2)

/-- A row of `tile_store`: the position, the number of items and the items. -/
def loadTile (tiles : Nat → List Tree) (bs : Bytes) :
    Option ((BitVec 16 × BitVec 16 × BitVec 8) × List (Option Tree) × Bytes) :=
  (readWord 16 bs).bind fun (x, bs) => (readWord 16 bs).bind fun (y, bs) => (readWord 8 bs).bind fun (z, bs) =>
  (readWord 32 bs).map fun (n, bs) => ((x, y, z), w.loadAll tiles 0 n.toNat bs)

end World

end Backlands.House
