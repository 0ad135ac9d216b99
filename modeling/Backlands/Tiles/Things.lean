/-
  Backlands.Tiles.Things — a tile with its ground, items, creatures and flags (src/tile.h,
  src/tile.cpp, src/item.cpp, src/creature.h).

  `ptr` stands for the address of a thing. A thing handed to an operation is the object with
  that address, so it is the one on the tile if the tile has it. An absent item list is an
  empty one. The notifications and the browse field are left out.
-/

import Backlands.Lib.Bits

namespace Backlands.Tiles

open Backlands.Lib

/-! ## Flags -/

namespace Tilestate

def floorchange : BitVec 32 := 0x7f
def protectionzone : BitVec 32 := 1 <<< 7
def nopvpzone : BitVec 32 := 1 <<< 8
def nologout : BitVec 32 := 1 <<< 9
def pvpzone : BitVec 32 := 1 <<< 10
def teleport : BitVec 32 := 1 <<< 11
def magicfield : BitVec 32 := 1 <<< 12
def mailbox : BitVec 32 := 1 <<< 13
def trashholder : BitVec 32 := 1 <<< 14
def bed : BitVec 32 := 1 <<< 15
def depot : BitVec 32 := 1 <<< 16
def blocksolid : BitVec 32 := 1 <<< 17
def blockpath : BitVec 32 := 1 <<< 18
def immovableblocksolid : BitVec 32 := 1 <<< 19
def immovableblockpath : BitVec 32 := 1 <<< 20
def immovablenofieldblockpath : BitVec 32 := 1 <<< 21
def nofieldblockpath : BitVec 32 := 1 <<< 22
def supportsHangable : BitVec 32 := 1 <<< 23

end Tilestate

/-! ## Things -/

structure ItemType where
  isGroundTile : Bool := false
  isSplash : Bool := false
  isFluidContainer : Bool := false
  isMagicField : Bool := false
  isBed : Bool := false
  alwaysOnTop : Bool := false
  alwaysOnTopOrder : Nat := 0
  stackable : Bool := false
  charges : Nat := 0
  blockSolid : Bool := false
  blockPathFind : Bool := false
  moveable : Bool := true
  isVertical : Bool := false
  isHorizontal : Bool := false
  isHangable : Bool := false
  hasHeight : Bool := false
  ignoreBlocking : Bool := false
  pickupable : Bool := false
  allowPickupable : Bool := false
  walkStack : Bool := true
  replaceable : Bool := true
  combatType : Nat := 0
  /-- The damage of its condition, 0 where it has none. -/
  damage : Int := 0
  floorChange : BitVec 32 := 0
  /-- items.xml names no other bits. -/
  directions : floorChange &&& ~~~Tilestate.floorchange = 0 := by decide

/-- The class of an item's object; a new id does not change it. -/
inductive ItemClass
  | item | depotLocker | teleport | magicField | trashHolder | mailbox | bedItem
  deriving DecidableEq

structure Item where
  ptr : Nat
  id : Nat
  cls : ItemClass := .item
  count : Nat := 1
  uniqueId : Bool := false
  instanceID : Nat := 0
  loadedFromMap : Bool := false
  storeItem : Bool := false
  owner : Nat := 0
  deriving DecidableEq

inductive CreatureKind
  | player (ghostMode accountManager : Bool) (level : Nat)
  | monster (pushable summon masterIsPlayer : Bool)
  | npc
  deriving DecidableEq

structure Creature where
  ptr : Nat
  instanceID : Nat := 0
  invisible : Bool := false
  kind : CreatureKind
  deriving DecidableEq

def Creature.isInGhostMode (c : Creature) : Bool :=
  match c.kind with
  | .player ghostMode _ _ => ghostMode
  | _ => false

inductive Thing
  | item (a : Item)
  | creature (c : Creature)
  deriving DecidableEq

inductive ItemProperty
  | blocksolid | moveable | blockpath | immovableblocksolid | immovableblockpath | immovablenofieldblockpath
  | nofieldblockpath | supporthangable
  deriving DecidableEq

/-- `Item::items`. -/
abbrev Items := Nat → ItemType

namespace Items

variable (items : Items)

def hasProperty (a : Item) (prop : ItemProperty) : Bool :=
  let it := items a.id
  match prop with
  | .blocksolid => it.blockSolid
  | .moveable => it.moveable && !a.uniqueId
  | .blockpath => it.blockPathFind
  | .immovableblocksolid => it.blockSolid && (!it.moveable || a.uniqueId)
  | .immovableblockpath => it.blockPathFind && (!it.moveable || a.uniqueId)
  | .immovablenofieldblockpath => !it.isMagicField && it.blockPathFind && (!it.moveable || a.uniqueId)
  | .nofieldblockpath => !it.isMagicField && it.blockPathFind
  | .supporthangable => it.isHorizontal || it.isVertical

def isAlwaysOnTop (a : Item) : Bool := (items a.id).alwaysOnTop

/-- An item's count has 8 bits. -/
def setSubType (a : Item) (n : Nat) : Item :=
  let it := items a.id
  if it.isFluidContainer || it.isSplash then a
  else if it.stackable then { a with count := n % 256 }
  else if it.charges ≠ 0 then a
  else { a with count := n % 256 }

end Items

/-! ## The tile -/

structure Tile where
  ground : Option Item := none
  /-- The down items, then the top items. -/
  items : List Item := []
  downItemCount : Nat := 0
  creatures : List Creature := []
  flags : BitVec 32 := 0

namespace Tile

variable (items : Items) (t : Tile)

def downItems : List Item := t.items.take t.downItemCount

def topItems : List Item := t.items.drop t.downItemCount

def stack : List Item := t.ground.toList ++ t.items

def hasFlag (flag : BitVec 32) : Bool := hasBitSet flag t.flags

/-- `hasProperty` with an item left out. -/
def hasProperty (exclude : Item) (prop : ItemProperty) : Bool :=
  t.stack.any fun b => b.ptr ≠ exclude.ptr && items.hasProperty b prop

def setTileFlags (a : Item) : Tile :=
  let flags := t.flags
  let flags := if !hasBitSet Tilestate.floorchange flags && (items a.id).floorChange ≠ 0 then
    flags ||| (items a.id).floorChange else flags
  let flags := if items.hasProperty a .immovableblocksolid then flags ||| Tilestate.immovableblocksolid else flags
  let flags := if items.hasProperty a .blockpath then flags ||| Tilestate.blockpath else flags
  let flags := if items.hasProperty a .nofieldblockpath then flags ||| Tilestate.nofieldblockpath else flags
  let flags := if items.hasProperty a .immovablenofieldblockpath then flags ||| Tilestate.immovablenofieldblockpath else flags
  let flags := if a.cls = .teleport then flags ||| Tilestate.teleport else flags
  let flags := if a.cls = .magicField then flags ||| Tilestate.magicfield else flags
  let flags := if a.cls = .mailbox then flags ||| Tilestate.mailbox else flags
  let flags := if a.cls = .trashHolder then flags ||| Tilestate.trashholder else flags
  let flags := if items.hasProperty a .blocksolid then flags ||| Tilestate.blocksolid else flags
  let flags := if a.cls = .bedItem then flags ||| Tilestate.bed else flags
  let flags := if a.cls = .depotLocker then flags ||| Tilestate.depot else flags
  let flags := if items.hasProperty a .supporthangable then flags ||| Tilestate.supportsHangable else flags
  { t with flags }

def last (a : Item) (prop : ItemProperty) : Bool := items.hasProperty a prop && !t.hasProperty items a prop

def resetTileFlags (a : Item) : Tile :=
  let flags := t.flags
  let flags := if (items a.id).floorChange ≠ 0 then flags &&& ~~~Tilestate.floorchange else flags
  let flags := if t.last items a .blocksolid then flags &&& ~~~Tilestate.blocksolid else flags
  let flags := if t.last items a .immovableblocksolid then flags &&& ~~~Tilestate.immovableblocksolid else flags
  let flags := if t.last items a .blockpath then flags &&& ~~~Tilestate.blockpath else flags
  let flags := if t.last items a .nofieldblockpath then flags &&& ~~~Tilestate.nofieldblockpath else flags
  let flags := if t.last items a .immovableblockpath then flags &&& ~~~Tilestate.immovableblockpath else flags
  let flags := if t.last items a .immovablenofieldblockpath then
    flags &&& ~~~Tilestate.immovablenofieldblockpath else flags
  let flags := if a.cls = .teleport then flags &&& ~~~Tilestate.teleport else flags
  let flags := if a.cls = .magicField then flags &&& ~~~Tilestate.magicfield else flags
  let flags := if a.cls = .mailbox then flags &&& ~~~Tilestate.mailbox else flags
  let flags := if a.cls = .trashHolder then flags &&& ~~~Tilestate.trashholder else flags
  let flags := if a.cls = .bedItem then flags &&& ~~~Tilestate.bed else flags
  let flags := if a.cls = .depotLocker then flags &&& ~~~Tilestate.depot else flags
  let flags := if items.hasProperty a .supporthangable then flags &&& ~~~Tilestate.supportsHangable else flags
  { t with flags }

/-! ## Indices -/

/-- The position of an address in a part of the tile. -/
def indexIn (l : List Item) (ptr : Nat) : Option Nat := l.findIdx? (·.ptr = ptr)

def groundCount : Nat := if t.ground.isSome then 1 else 0

/-- -1 is none. -/
def getThingIndex (thing : Thing) : Option Nat :=
  match thing with
  | .item a =>
    if t.ground.any (·.ptr = a.ptr) then some 0
    else if items.isAlwaysOnTop a then (indexIn t.topItems a.ptr).map (t.groundCount + ·)
    else (indexIn t.downItems a.ptr).map (t.groundCount + t.topItems.length + t.creatures.length + ·)
  | .creature c => (t.creatures.findIdx? (·.ptr = c.ptr)).map (t.groundCount + t.topItems.length + ·)

def getThing (index : Nat) : Option Thing :=
  if t.ground.isSome && index = 0 then t.ground.map .item
  else
    let index := index - t.groundCount
    if index < t.topItems.length then (t.items[t.downItemCount + index]?).map .item
    else
      let index := index - t.topItems.length
      if index < t.creatures.length then (t.creatures[index]?).map .creature
      else
        let index := index - t.creatures.length
        if index < t.downItemCount then (t.items[index]?).map .item else none

/-! ## Taking things out -/

/-- The first item at the address, gone. -/
def without (ptr : Nat) (l : List Item) : List Item := l.eraseP (·.ptr = ptr)

/-- The object at the address, changed. -/
def change (ptr : Nat) (f : Item → Item) : Tile :=
  let f := fun b : Item => if b.ptr = ptr then f b else b
  { t with ground := t.ground.map f, items := t.items.map f }

/-- The difference has 32 bits and a sign, what is left 8 bits. -/
def countLeft (itemCount count : Nat) : Nat :=
  let left := (itemCount + (2 ^ 32 - count % 2 ^ 32)) % 2 ^ 32
  if left < 2 ^ 31 then left % 256 else 0

def removeItem (a : Item) (count : Nat) : Tile :=
  if t.getThingIndex items (.item a) = none then t
  else if t.ground.any (·.ptr = a.ptr) then { t with ground := none }.resetTileFlags items a
  else if items.isAlwaysOnTop a then
    if !t.topItems.any (·.ptr = a.ptr) then t
    else { t with items := t.downItems ++ without a.ptr t.topItems }.resetTileFlags items a
  else if !t.downItems.any (·.ptr = a.ptr) then t
  else if (items a.id).stackable && count ≠ a.count then
    t.change a.ptr fun b => { b with count := countLeft a.count count }
  else
    { t with items := without a.ptr t.downItems ++ t.topItems, downItemCount := t.downItemCount - 1 }.resetTileFlags items a

def removeThing (thing : Thing) (count : Nat) : Tile :=
  match thing with
  | .creature c => { t with creatures := t.creatures.eraseP (·.ptr = c.ptr) }
  | .item a => t.removeItem items a count

/-! ## Putting things in -/

/-- Before the first top item that says so, else at the end. -/
def insertTop (a : Item) (before : Item → Bool) : Tile :=
  { t with items := t.downItems ++ (t.topItems.takeWhile (fun b => !before b) ++
      a :: t.topItems.dropWhile (fun b => !before b)) }

def insertDown (a : Item) : Tile := { t with items := a :: t.items, downItemCount := t.downItemCount + 1 }

def internalAddItem (a : Item) : Tile :=
  let itemType := items a.id
  if itemType.isGroundTile then
    if t.ground.isNone then { t with ground := some a }.setTileFlags items a else t
  else if t.items.length ≥ 0xFFFF then t
  else if itemType.alwaysOnTop then
    (t.insertTop a fun b => itemType.alwaysOnTopOrder < (items b.id).alwaysOnTopOrder).setTileFlags items a
  else (t.insertDown a).setTileFlags items a

def internalAddThing (thing : Thing) : Tile :=
  match thing with
  | .creature c => { t with creatures := c :: t.creatures }
  | .item a => t.internalAddItem items a

def removeSplash : Tile :=
  match t.topItems.find? fun b => (items b.id).isSplash with
  | some oldSplash => t.removeItem items oldSplash 1
  | none => t

def addItem (a : Item) : Tile :=
  let itemType := items a.id
  if t.items.length ≥ 0xFFFF then t
  else if itemType.isGroundTile then
    match t.ground with
    | none => { t with ground := some a }.setTileFlags items a
    | some oldGround => ({ t with ground := some a }.resetTileFlags items oldGround).setTileFlags items a
  else if itemType.alwaysOnTop then
    let t := if itemType.isSplash then t.removeSplash items else t
    (t.insertTop a fun b => itemType.alwaysOnTopOrder ≤ (items b.id).alwaysOnTopOrder).setTileFlags items a
  else if itemType.isMagicField then
    match t.downItems.find? (·.cls = .magicField) with
    | none => (t.insertDown a).setTileFlags items a
    | some oldField =>
      if (items oldField.id).replaceable then ((t.removeItem items oldField 1).insertDown a).setTileFlags items a else t
  else (t.insertDown a).setTileFlags items a

def addThing (thing : Thing) : Tile :=
  match thing with
  | .creature c => { t with creatures := c :: t.creatures }
  | .item a => t.addItem items a

/-! ## Changing things -/

def updateThing (thing : Thing) (itemId count : Nat) : Tile :=
  if t.getThingIndex items thing = none then t
  else
    match thing with
    | .creature _ => t
    | .item a =>
      let a' := items.setSubType { a with id := itemId } (count % 2 ^ 16)
      ((t.resetTileFlags items a).change a.ptr fun _ => a').setTileFlags items a'

/-- The place in the vector of the item at an index, past the ground. -/
def place (index : Nat) : Option Nat :=
  let pos := index - t.groundCount
  if pos < t.topItems.length then some (t.downItemCount + pos)
  else
    let pos := pos - t.topItems.length
    if pos < t.creatures.length then none
    else
      let pos := pos - t.creatures.length
      if pos < t.downItemCount then some pos else none

def replaceThing (index : Nat) (thing : Thing) : Tile :=
  match thing with
  | .creature _ => t
  | .item a =>
    match t.ground, index with
    | some oldItem, 0 => ({ t with ground := some a }.resetTileFlags items oldItem).setTileFlags items a
    | _, index =>
      match t.place index with
      | none => t
      | some i =>
        match t.items[i]? with
        | none => t
        | some oldItem => ({ t with items := t.items.set i a }.resetTileFlags items oldItem).setTileFlags items a

end Tile

/-! ## What stands on the tile -/

section
variable (items : Items) (t : Tile)

/-- A thing that is not the ground is replaced in its place. -/
theorem replaceThing_item (index : Nat) (a : Item) (hground : ¬(t.ground.isSome && decide (index = 0)) = true) :
    t.replaceThing items index (.item a) = (t.place index).elim t fun i =>
      (t.items[i]?).elim t fun oldItem => ({ t with items := t.items.set i a }.resetTileFlags items oldItem).setTileFlags items a := by
  unfold Tile.replaceThing
  dsimp only
  split
  · simp_all
  generalize t.place _ = place
  cases place with
  | none => rfl
  | some i =>
    rw [Option.elim_some]
    dsimp only
    cases t.items[i]? with
    | none => rfl
    | some oldItem => rfl

@[simp] theorem setTileFlags_stack (a : Item) : (t.setTileFlags items a).stack = t.stack := rfl

@[simp] theorem resetTileFlags_stack (a : Item) : (t.resetTileFlags items a).stack = t.stack := rfl

theorem change_stack (ptr : Nat) (f : Item → Item) :
    (t.change ptr f).stack = t.stack.map fun b => if b.ptr = ptr then f b else b := by
  unfold Tile.stack Tile.change
  cases t.ground with
  | none => simp
  | some g => simp

theorem down_top : t.downItems ++ t.topItems = t.items := List.take_append_drop _ _

theorem stack_perm {t : Tile} {l : List Item} {a : Item} (h : t.items.Perm (a :: l)) :
    t.stack.Perm (a :: (t.ground.toList ++ l)) :=
  (h.append_left _).trans List.perm_middle

theorem insertTop_items (a : Item) (p : Item → Bool) : (t.insertTop a p).items.Perm (a :: t.items) := by
  rw [← down_top t]
  refine ((List.perm_middle).append_left _).trans ?_
  simp

theorem insertTop_perm (a : Item) (p : Item → Bool) : (t.insertTop a p).stack.Perm (a :: t.stack) :=
  stack_perm (t := t.insertTop a p) (insertTop_items t a p)

theorem insertDown_perm (a : Item) : (t.insertDown a).stack.Perm (a :: t.stack) :=
  stack_perm (t := t.insertDown a) (List.Perm.refl _)

theorem setSubType_ptr (a : Item) (n : Nat) : (items.setSubType a n).ptr = a.ptr := by
  unfold Items.setSubType
  dsimp only
  split
  · rfl
  · split
    · rfl
    · split <;> rfl

theorem setSubType_id (a : Item) (n : Nat) : (items.setSubType a n).id = a.id := by
  unfold Items.setSubType
  dsimp only
  split
  · rfl
  · split
    · rfl
    · split <;> rfl

end

/-! ## Steps -/

inductive Op
  | internalAddThing (thing : Thing)
  | addThing (thing : Thing)
  | updateThing (thing : Thing) (itemId count : Nat)
  | replaceThing (index : Nat) (thing : Thing)
  | removeThing (thing : Thing) (count : Nat)

def step (items : Items) (t : Tile) : Op → Tile
  | .internalAddThing thing => t.internalAddThing items thing
  | .addThing thing => t.addThing items thing
  | .updateThing thing itemId count => t.updateThing items thing itemId count
  | .replaceThing index thing => t.replaceThing items index thing
  | .removeThing thing count => t.removeThing items thing count

/-- An item that is put on the tile is not there yet; what is changed or taken, and a creature
    that is there, is the object at its address. -/
def Op.Real (t : Tile) : Op → Prop
  | .internalAddThing (.item a) | .addThing (.item a) | .replaceThing _ (.item a) => ∀ b ∈ t.stack, b.ptr ≠ a.ptr
  | .updateThing (.item a) _ _ | .removeThing (.item a) _ => ∀ b ∈ t.stack, b.ptr = a.ptr → b = a
  | .internalAddThing (.creature c) | .addThing (.creature c) | .updateThing (.creature c) _ _ | .replaceThing _ (.creature c)
  | .removeThing (.creature c) _ => ∀ d ∈ t.creatures, d.ptr = c.ptr → d = c

instance (t : Tile) : (op : Op) → Decidable (op.Real t)
  | .internalAddThing (.item a) | .addThing (.item a) | .replaceThing _ (.item a) =>
    inferInstanceAs (Decidable (∀ b ∈ t.stack, b.ptr ≠ a.ptr))
  | .updateThing (.item a) _ _ | .removeThing (.item a) _ => inferInstanceAs (Decidable (∀ b ∈ t.stack, b.ptr = a.ptr → b = a))
  | .internalAddThing (.creature c) | .addThing (.creature c) | .updateThing (.creature c) _ _ | .replaceThing _ (.creature c)
  | .removeThing (.creature c) _ => inferInstanceAs (Decidable (∀ d ∈ t.creatures, d.ptr = c.ptr → d = c))

end Backlands.Tiles
