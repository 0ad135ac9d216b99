/-
  Backlands.Houses.Furniture — the items of a house: what wrapping makes of them, and how one
  of them gets into an inbox (src/game.cpp: `Game::transformItem`, `Game::internalMoveItem`;
  src/inbox.cpp; src/container.cpp; src/item.cpp: `Item::CreateItem`, `Item::setID`,
  `Item::setSubType`, `Item::clone`).

  An item is what it is now, and the units of its count by name, so that a unit can be followed
  through merges, splits and changes; a unit that a change makes up has no name. Of the
  attributes those are kept apart that a function here reads or writes. What the start of its
  decay makes of an item, and the durations drawn for it, are left open (`Draws`).

  Proved: wrapping an item and moving one into an inbox make up no named unit
  (`named_wrap`, `internalMoveItem_le`), and a move loses none exactly where the stack it
  finds has room or stands below the capacity of the inbox (`fits_iff`).
-/

import Backlands.Lib.Harvest
import Backlands.Lib.Runs
import Backlands.Store.Inbox

namespace Backlands.Houses

open Backlands.Lib List

/-! ## Item types -/

/-- `itemgroup_t`. -/
inductive ItemGroup where
  | NONE | GROUND | CONTAINER | WEAPON | AMMUNITION | ARMOR | CHARGES | TELEPORT | MAGICFIELD | WRITEABLE | KEY
  | SPLASH | FLUID | DOOR | DEPRECATED
  deriving DecidableEq, Repr

/-- `ItemTypes_t`. -/
inductive ItemTypes_t where
  | NONE | DEPOT | MAILBOX | TRASHHOLDER | CONTAINER | DOOR | MAGICFIELD | TELEPORT | BED | KEY | RUNE | PODIUM
  | REWARDCHEST | CARPET | FOOD | POTION | VALUABLE | CREATUREPRODUCT | TOOL | DECORATION
  deriving DecidableEq, Repr

/-- What the item table says of an id besides what a store reads. -/
structure ItemForm where
  group : ItemGroup
  type : ItemTypes_t
  alwaysOnTop : Bool
  moveable : Bool
  replaceable : Bool
  charges : UInt32
  maxItems : UInt16
  wrapableTo : UInt16

structure ItemTable where
  type : UInt16 → Store.ItemType
  form : UInt16 → ItemForm

def ITEM_INBOX : UInt16 := 12902
def ITEM_REWARD_CONTAINER : UInt16 := 19202
def ITEM_DEPOT_BOX_1 : UInt16 := 22797
def ITEM_DEPOT_BOX_17 : UInt16 := 22813

/-- The class of an object, which it keeps when its id changes: the kinds of container, doors,
    fields, and all others. -/
inductive ItemClass where
  | Container
  | Door
  | MagicField
  | Item
  deriving DecidableEq, Repr

/-- The class `CreateItem` gives a new object. -/
def ItemTable.newClass (tbl : ItemTable) (id : UInt16) : ItemClass :=
  let form := tbl.form id
  if form.type = .DEPOT ∨ form.type = .REWARDCHEST then .Container
  else if ITEM_DEPOT_BOX_1 ≤ id ∧ id ≤ ITEM_DEPOT_BOX_17 then .Container
  else if id = ITEM_INBOX ∨ form.group = .CONTAINER then .Container
  else if form.type = .TELEPORT then .Item
  else if form.type = .MAGICFIELD then .MagicField
  else if form.type = .DOOR then .Door
  else .Item

/-! ## Items -/

@[ext] structure Item (π : Type*) where
  id : UInt16
  cls : ItemClass
  maxSize : UInt16
  /-- One for each of its `count`. -/
  units : List (Option π)
  charges : Option UInt16
  fluidType : Option UInt16
  instanceId : UInt32
  attributes : Store.Attributes
  deriving DecidableEq

/-- An item with what it holds. -/
abbrev Thing (π : Type*) := RoseTree (Item π)

/-- `count`, charges and fluid of an item. -/
structure Amounts where
  count : Nat
  charges : Option UInt16
  fluidType : Option UInt16

variable {π : Type*}

/-- The units when there are to be `n` of them. -/
def recount (n : Nat) (units : List (Option π)) : List (Option π) :=
  units.take n ++ List.replicate (n - units.length) none

def Item.amounts (item : Item π) : Amounts := ⟨item.units.length, item.charges, item.fluidType⟩

def Item.setAmounts (a : Amounts) (item : Item π) : Item π :=
  { item with units := recount a.count item.units, charges := a.charges, fluidType := a.fluidType }

/-- Fluid containers and splashes, whose subtype is a fluid. -/
def ItemForm.fluid (form : ItemForm) : Bool := form.group == .FLUID || form.group == .SPLASH

namespace Amounts

def getSubType (tbl : ItemTable) (id : UInt16) (a : Amounts) : UInt16 :=
  if (tbl.form id).fluid then a.fluidType.getD 0
  else if (tbl.type id).stackable then UInt16.ofNat a.count
  else if (tbl.form id).charges ≠ 0 then a.charges.getD 0
  else UInt16.ofNat a.count

/-- `setSubType`; a count is a number of one byte. -/
def setSubType (tbl : ItemTable) (id n : UInt16) (a : Amounts) : Amounts :=
  if (tbl.form id).fluid then { a with fluidType := some n }
  else if (tbl.type id).stackable then { a with count := n.toNat % 256 }
  else if (tbl.form id).charges ≠ 0 then { a with charges := some n }
  else { a with count := n.toNat % 256 }

def setDefaultSubtype (tbl : ItemTable) (id : UInt16) (a : Amounts) : Amounts :=
  if (tbl.form id).charges ≠ 0 then
    if (tbl.type id).stackable then { a with count := (tbl.form id).charges.toNat % 256 }
    else { a with count := 1, charges := some (tbl.form id).charges.toUInt16 }
  else { a with count := 1 }

def new (tbl : ItemTable) (id count : UInt16) : Amounts :=
  if (tbl.form id).fluid then ⟨1, none, some count⟩
  else if (tbl.type id).stackable then
    if count ≠ 0 then ⟨count.toNat % 256, none, none⟩
    else if (tbl.form id).charges ≠ 0 then ⟨(tbl.form id).charges.toNat % 256, none, none⟩
    else ⟨1, none, none⟩
  else if (tbl.form id).charges ≠ 0 then
    ⟨1, some (if count ≠ 0 then count else (tbl.form id).charges.toUInt16), none⟩
  else ⟨1, none, none⟩

end Amounts

/-- The time, the durations that are drawn, and what the start of its decay makes of an item. -/
structure Draws (π : Type*) where
  now : Int
  set : Item π → Nat
  created : Item π → Nat
  cloned : Item π → Nat
  decaying : Item π → Store.Attributes

/-- What `setID` does to the attributes; `prev` is the type the item had. -/
def changeID (prev ty : Store.ItemType) (pick : Nat) (a : Store.Attributes) : Store.Attributes :=
  let a := if ty.newDuration pick = 0 ∧ ty.stopTime = false ∧ ty.decayTo < 0 then
      { a with decayState := a.decayState.map fun _ => .STOPPING, duration := .none }
    else a
  let a := { a with corpseOwner := .none }
  if 0 < ty.newDuration pick ∧ (prev.stopTime = false ∨ a.duration = .none) then
    { a with decayState := some .PENDING, duration := some (ty.newDuration pick) }
  else a

section
variable (tbl : ItemTable) (d : Draws π)

namespace Item

def setID (newId : UInt16) (item : Item π) : Item π :=
  { item with
    id := newId
    attributes := changeID (tbl.type item.id) (tbl.type newId) (d.set item) item.attributes }

def startDecaying (item : Item π) : Item π := { item with attributes := d.decaying item }

/-- The same object under another id: its subtype is set again under that id. -/
def convert (newId : UInt16) (item : Item π) : Item π :=
  let a := if (tbl.form newId).group = (tbl.form item.id).group then item.amounts
    else item.amounts.setDefaultSubtype tbl item.id
  ((item.setAmounts (a.setSubType tbl newId (item.amounts.getSubType tbl item.id))).setID tbl d newId).startDecaying d

/-- `CreateItem`: the new object that stands for the item, which has the first of its units. -/
def recreate (newId : UInt16) (item : Item π) : Option (Item π) :=
  if (tbl.form newId).group = .DEPRECATED then none
  else
    let cls := tbl.newClass newId
    let id := if cls = .Item then Store.transformed newId else newId
    let a := Amounts.new tbl id (if cls = .Item ∧ (tbl.type newId).stackable = true then 1 else 0)
    some
      { id := id
        cls := cls
        maxSize := (tbl.form newId).maxItems
        units := recount a.count item.units
        charges := a.charges
        fluidType := a.fluidType
        instanceId := 0
        attributes := .fresh (tbl.type id) (d.created item) }

end Item

/-! ## `transformItem` -/

/-- What `transformItem` makes of an item: the object itself in its place, the object taken
    away and added again, a new object, or nothing, in which case the old one stays. -/
inductive Transformed (π : Type*) where
  | same (item : Item π)
  | again (item : Item π)
  | replaced (item : Item π)
  | null

/-- The object there is afterwards, if it is not the old one left alone. -/
def Transformed.result? : Transformed π → Option (Item π)
  | .same item => some item
  | .again item => some item
  | .replaced item => some item
  | .null => none

def transformItem (newId : UInt16) (item : Item π) : Transformed π :=
  if item.id = newId then .same item
  else if item.cls = .Door then .same item
  else if (tbl.type newId).known = false then .same item
  else if (tbl.form item.id).alwaysOnTop ≠ (tbl.form newId).alwaysOnTop then
    .again ((item.setID tbl d newId).startDecaying d)
  else if (tbl.form item.id).type = (tbl.form newId).type then .same (item.convert tbl d newId)
  else
    match item.recreate tbl d newId with
    | some new => .replaced (new.startDecaying d)
    | none => .null

/-- An item that has a `WRAPID` is transformed into that. -/
def wrap (item : Item π) : Transformed π :=
  match item.attributes.wrapId with
  | some wrapId => if wrapId ≠ 0 then transformItem tbl d wrapId item else .same item
  | none => .same item

end

/-! ## `internalMoveItem` into an inbox -/

section
variable (tbl : ItemTable)

def Item.isPickupable (item : Item π) : Bool := (tbl.type item.id).pickupable

def Item.isContainer (item : Item π) : Bool := item.cls == .Container

/-- `Container::isRewardCorpse`. -/
def isRewardCorpse (t : Thing π) : Bool := t.contents.any fun u => u.label.id == ITEM_REWARD_CONTAINER

/-- What `internalMoveItem` asks before it moves: the reward containers, `Inbox::queryAdd` and
    `queryRemove`. -/
def canMove (t : Thing π) : Bool :=
  !(t.label.isContainer && (isRewardCorpse t || t.label.id == ITEM_REWARD_CONTAINER)) &&
    t.label.isPickupable tbl && !((tbl.type t.label.id).stackable && t.label.units.isEmpty) &&
    (tbl.form t.label.id).moveable

def Item.equalsIgnoringInstance [DecidableEq π] (item other : Item π) : Bool :=
  item.id == other.id && item.charges == other.charges && item.fluidType == other.fluidType &&
    decide (item.attributes = other.attributes)

end

/-- An inbox, the item at its front first. -/
abbrev Inbox (π : Type*) := List (Thing π)

section
variable [DecidableEq π] (tbl : ItemTable) (d : Draws π)

/-- `Container::queryDestination`: a stack that takes more of the item. -/
def stacksWith (dest : UInt32) (item : Item π) (listItem : Thing π) : Bool :=
  listItem.label.instanceId == dest && listItem.label.equalsIgnoringInstance item &&
    decide (listItem.label.units.length < (tbl.type listItem.label.id).getStackSize)

namespace Item

/-- `updateThing` of a stack that gets more units. -/
def grow (more : List (Option π)) (item : Item π) : Item π :=
  let a := item.amounts.setSubType tbl item.id (UInt16.ofNat (item.units.length + more.length))
  ((({ item with units := item.units ++ more } : Item π).setAmounts a).setID tbl d item.id).startDecaying d

/-- `clone`, with its count set. -/
def clone (dest : UInt32) (units : List (Option π)) (item : Item π) : Item π :=
  ({ item with
      units := units
      instanceId := dest
      attributes := item.attributes.clone (tbl.type item.id) d.now (d.cloned item) } : Item π).startDecaying d

def moved (dest : UInt32) (item : Item π) : Item π := ({ item with instanceId := dest } : Item π).startDecaying d

end Item

/-- `capacity` of an inbox, which does not limit what it holds. -/
def inboxCapacity : Nat := (tbl.form ITEM_INBOX).maxItems.toNat

/-- What is moved is in the instance `dest`: of its own if the locker stands on a tile, where
    the player has it open, else none. -/
def destination (onTile : Bool) (item : Item π) : UInt32 := if onTile then item.instanceId else 0

/-- What stacks holds nothing. -/
def isStack (t : Thing π) : Bool := (tbl.type t.label.id).stackable && t.contents.isEmpty

/-- How much of the item the stack takes. -/
def taken (toItem item : Item π) : Nat :=
  min ((tbl.type toItem.id).getStackSize - toItem.units.length)
    (min item.units.length (Store.queryMaxCount item.units.length))

/-- `internalMoveItem`, once it may move. A stack goes into the first one that takes more of it,
    and what is left of it is added at the index of that one: `addThing` refuses an index past
    the capacity, with no answer. -/
def internalMoveItem (onTile : Bool) (inbox : Inbox π) (t : Thing π) : Inbox π :=
  let item := t.label
  let dest := destination onTile item
  if isStack tbl t then
    let before := inbox.takeWhile fun u => !stacksWith tbl dest item u
    match inbox.dropWhile fun u => !stacksWith tbl dest item u with
    | [] => .node (item.clone tbl d dest item.units) [] :: inbox
    | toItem :: after =>
      let n := taken tbl toItem.label item
      let grown := before ++ .node (toItem.label.grow tbl d (item.units.take n)) toItem.contents :: after
      if n < item.units.length ∧ before.length < inboxCapacity tbl then
        .node (item.clone tbl d dest (item.units.drop n)) [] :: grown
      else grown
  else .node (item.moved d dest) t.contents :: inbox

end

/-! ## Units -/

section
variable [DecidableEq π]

/-- How many of the item's units have the name. -/
def named (u : π) (item : Item π) : Nat := item.units.count (some u)

/-- How many units in some things have the name. -/
def held (u : π) (ts : List (Thing π)) : Nat := RoseTree.totalAll (named u) ts

variable {tbl : ItemTable} {d : Draws π} {W : π → Prop} {u : π} {item item' : Item π} {units : List (Option π)} {n : Nat}

theorem count_recount (u : π) (n : Nat) (units : List (Option π)) :
    (recount n units).count (some u) + (units.drop n).count (some u) = units.count (some u) := by
  have hsplit : (units.take n).count (some u) + (units.drop n).count (some u) = units.count (some u) := by
    rw [← count_append, take_append_drop]
  have hnone : (List.replicate (n - units.length) (none : Option π)).count (some u) = 0 := by
    simp [List.count_eq_zero]
  rw [recount, count_append, hnone, Nat.add_zero, hsplit]

theorem count_recount_le (u : π) (n : Nat) (units : List (Option π)) :
    (recount n units).count (some u) ≤ units.count (some u) := by
  have := count_recount u n units
  omega

omit [DecidableEq π] in
theorem recount_length (units : List (Option π)) : recount units.length units = units := by
  simp [recount]

omit [DecidableEq π] in
/-- A transformed item has units of the item, in their order, and unnamed ones. -/
theorem units_transformItem {newId : UInt16} (h : (transformItem tbl d newId item).result? = some item') :
    ∃ n, item'.units = recount n item.units := by
  have hself : item.units = recount item.units.length item.units := (recount_length _).symm
  unfold transformItem at h
  split at h
  · cases h
    exact ⟨_, hself⟩
  split at h
  · cases h
    exact ⟨_, hself⟩
  split at h
  · cases h
    exact ⟨_, hself⟩
  split at h
  · cases h
    exact ⟨_, hself⟩
  split at h
  · cases h
    exact ⟨_, rfl⟩
  unfold Item.recreate at h
  split at h
  · next hr =>
    split at hr
    · cases hr
    · cases hr
      cases h
      exact ⟨_, rfl⟩
  · cases h

omit [DecidableEq π] in
theorem units_wrap (h : (wrap tbl d item).result? = some item') : ∃ n, item'.units = recount n item.units := by
  have hself : item.units = recount item.units.length item.units := (recount_length _).symm
  unfold wrap at h
  split at h
  · split at h
    · exact units_transformItem h
    · cases h
      exact ⟨_, hself⟩
  · cases h
    exact ⟨_, hself⟩

theorem named_wrap (u : π) (h : (wrap tbl d item).result? = some item') : named u item' ≤ named u item := by
  obtain ⟨n, hn⟩ := units_wrap h
  rw [named, hn]
  exact count_recount_le u n _

/-! ## Moves -/

variable {onTile : Bool} {inbox : Inbox π} {t : Thing π}

/-- What a stack has no room for: the units past the count that `setSubType` gives it. -/
def overflow (tbl : ItemTable) (more : List (Option π)) (item : Item π) : List (Option π) :=
  (item.units ++ more).drop
    (item.amounts.setSubType tbl item.id (UInt16.ofNat (item.units.length + more.length))).count

theorem named_grow (tbl : ItemTable) (d : Draws π) (u : π) (more : List (Option π)) (item : Item π) :
    named u (item.grow tbl d more) + (overflow tbl more item).count (some u) = named u item + more.count (some u) := by
  have := count_recount u (item.amounts.setSubType tbl item.id
    (UInt16.ofNat (item.units.length + more.length))).count (item.units ++ more)
  rw [count_append] at this
  exact this

/-- What a move finds no place for: what the stack it goes into cannot count, and what is left
    of the item where that stack stands past the capacity of the inbox. -/
def spilled (tbl : ItemTable) (onTile : Bool) (inbox : Inbox π) (t : Thing π) : List (Option π) :=
  let item := t.label
  if isStack tbl t then
    let before := inbox.takeWhile fun u => !stacksWith tbl (destination onTile item) item u
    match inbox.dropWhile fun u => !stacksWith tbl (destination onTile item) item u with
    | [] => []
    | toItem :: _ =>
      let n := taken tbl toItem.label item
      overflow tbl (item.units.take n) toItem.label ++
        if n < item.units.length ∧ inboxCapacity tbl ≤ before.length then item.units.drop n else []
  else []

/-- The move has a place for every unit that is wanted. -/
def Fits (tbl : ItemTable) (W : π → Prop) (onTile : Bool) (inbox : Inbox π) (t : Thing π) : Prop :=
  ∀ u, W u → some u ∉ spilled tbl onTile inbox t

theorem held_cons (u : π) (t : Thing π) (ts : List (Thing π)) :
    held u (t :: ts) = named u t.label + held u t.contents + held u ts := by
  rw [held, RoseTree.totalAll, RoseTree.total_eq]
  rfl

theorem held_nil (u : π) : held u ([] : List (Thing π)) = 0 := rfl

theorem held_append (u : π) (ts us : List (Thing π)) : held u (ts ++ us) = held u ts + held u us :=
  RoseTree.totalAll_append _ ts us

theorem held_move (tbl : ItemTable) (d : Draws π) (u : π) (onTile : Bool) (inbox : Inbox π) (t : Thing π) :
    held u (internalMoveItem tbl d onTile inbox t) + (spilled tbl onTile inbox t).count (some u) =
      held u inbox + held u [t] := by
  unfold internalMoveItem spilled
  by_cases hs : isStack tbl t = true
  · have hc : held u t.contents = 0 := by
      rw [isStack, Bool.and_eq_true] at hs
      rw [List.isEmpty_iff.mp hs.2]
      rfl
    simp only [if_pos hs]
    have hsplit := takeWhile_append_dropWhile (l := inbox)
      (p := fun v => !stacksWith tbl (destination onTile t.label) t.label v)
    cases hd : inbox.dropWhile (fun v => !stacksWith tbl (destination onTile t.label) t.label v) with
    | nil =>
      have hclone : named u (t.label.clone tbl d (destination onTile t.label) t.label.units) = named u t.label := rfl
      simp only [held_cons, RoseTree.label_node, RoseTree.contents_node, count_nil, hc]
      omega
    | cons toItem after =>
      rw [hd] at hsplit
      generalize (inbox.takeWhile fun v => !stacksWith tbl (destination onTile t.label) t.label v) = before at hsplit
      subst hsplit
      simp only
      -- What is moved is the part the stack takes and the part that is left.
      generalize taken tbl toItem.label t.label = n
      have hgrow := named_grow tbl d u (t.label.units.take n) toItem.label
      have hparts : (t.label.units.take n).count (some u) + (t.label.units.drop n).count (some u) = named u t.label := by
        rw [← count_append, take_append_drop]
        rfl
      by_cases hn : n < t.label.units.length
      · by_cases hb : before.length < inboxCapacity tbl
        · have hclone : named u (t.label.clone tbl d (destination onTile t.label) (t.label.units.drop n)) =
            (t.label.units.drop n).count (some u) := rfl
          rw [if_pos ⟨hn, hb⟩, if_neg (fun h => Nat.not_lt.mpr h.2 hb), append_nil]
          simp only [held_cons, held_append, RoseTree.label_node, RoseTree.contents_node, held_nil]
          omega
        · rw [if_neg (fun h => hb h.2), if_pos ⟨hn, Nat.not_lt.mp hb⟩, count_append]
          simp only [held_cons, held_append, RoseTree.label_node, RoseTree.contents_node, held_nil]
          omega
      · have hnil : t.label.units.drop n = [] := drop_eq_nil_of_le (Nat.not_lt.mp hn)
        rw [hnil, count_nil] at hparts
        rw [if_neg (fun h => hn h.1), if_neg (fun h => hn h.1), append_nil]
        simp only [held_cons, held_append, RoseTree.label_node, RoseTree.contents_node, held_nil]
        omega
  · have hmoved : named u (t.label.moved d (destination onTile t.label)) = named u t.label := rfl
    simp only [if_neg hs, held_cons, RoseTree.label_node, RoseTree.contents_node, count_nil, held_nil]
    omega

theorem internalMoveItem_le (u : π) (inbox : Inbox π) (t : Thing π) :
    held u (internalMoveItem tbl d onTile inbox t) ≤ held u inbox + held u [t] := by
  have := held_move tbl d u onTile inbox t
  omega

theorem fits_iff (inbox : Inbox π) (t : Thing π) :
    Fits tbl W onTile inbox t ↔
      ∀ u, W u → held u (internalMoveItem tbl d onTile inbox t) = held u inbox + held u [t] := by
  refine forall₂_congr fun u _ => ?_
  have := held_move tbl d u onTile inbox t
  rw [← List.count_eq_zero]
  omega

end

end Backlands.Houses
