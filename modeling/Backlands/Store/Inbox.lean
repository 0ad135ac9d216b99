/-
  Backlands.Store.Inbox — putting items into a store inbox and taking them out again
  (src/game.cpp: `Game::internalAddItem`, `Game::internalRemoveItem`; src/container.cpp;
  src/storeinbox.cpp; src/item.cpp: `Item::CreateItem`, `Item::clone`, `Item::setID`;
  src/store/store_service.cpp: `rollbackInboxDelivery`).

  An inbox is the list of its items from the front, each under the number of its object;
  what one object is now and was before is told by that number. Nothing limits an inbox but
  what its player can carry. Of the attributes those are kept apart that a function here
  reads or writes.

  Proved: an item that is added is added whole (`internalAddItem_cases`): merges, splits and
  insertions move no unit of anything else; and taking back restores an inbox exactly where
  the type that was added can be removed and keeps its attributes when it is merged
  (`rollback_extended`).
-/

import Backlands.Lib.Table

namespace Backlands.Store

open Backlands.Lib Bool List

/-! ## Item types -/

def ITEM_DECORATION_KIT : UInt16 := 23398

/-- The ids `CreateItem` puts in the place of others: worn rings and boots. -/
def transformed (id : UInt16) : UInt16 :=
  if 3094 ≤ id ∧ id ≤ 3096 then id - 3
  else if id = 3099 ∨ id = 3100 then id - 2
  else if 3086 ≤ id ∧ id ≤ 3090 then id - 37
  else if id = 3549 then 6529
  else if id = 6299 then 6300
  else id

/-- What the item table says of an id. The times are in seconds. `canRemove` is that of the
    class `CreateItem` gives the item; `initial` are the attributes it starts with. -/
structure ItemType where
  /-- The `id` of the entry is not zero. -/
  known : Bool
  name : String
  stackable : Bool
  stackSize : UInt8
  pickupable : Bool
  canRemove : Bool
  weight : UInt32
  decayTimeMin : Nat
  decayTimeMax : Nat
  decayTo : Int
  stopTime : Bool
  initial : List UInt8
  /-- The weight of a stack is a 32-bit number. -/
  light : weight.toNat * 255 < 2 ^ 32

structure ItemTypes where
  type : UInt16 → ItemType
  plain : ∀ id, transformed id ≠ id → (type id).stackable = false ∧ (type (transformed id)).stackable = false
  kit : (type ITEM_DECORATION_KIT).known = true ∧ (type ITEM_DECORATION_KIT).stackable = false ∧
    (type ITEM_DECORATION_KIT).pickupable = true ∧ (type ITEM_DECORATION_KIT).canRemove = true

/-- `getStackSize`. -/
def ItemType.getStackSize (ty : ItemType) : Nat := if ty.stackable then ty.stackSize.toNat else 1

/-- Any number between the two. -/
def normal_random (pick minNumber maxNumber : Nat) : Nat :=
  max (min minNumber maxNumber) (min pick (max minNumber maxNumber))

/-- The duration `setID` draws. -/
def ItemType.newDuration (ty : ItemType) (pick : Nat) : Nat :=
  (if ty.decayTimeMax ≠ 0 then normal_random pick ty.decayTimeMin ty.decayTimeMax else ty.decayTimeMin) * 1000

/-- The duration `setDefaultDuration` draws. -/
def ItemType.defaultDuration (ty : ItemType) (pick : Nat) : Nat :=
  if ty.decayTimeMax * 1000 ≠ 0 then normal_random pick (ty.decayTimeMin * 1000) (ty.decayTimeMax * 1000)
  else ty.decayTimeMin * 1000

def ItemType.steady (ty : ItemType) : Bool :=
  (ty.decayTimeMin == 0 && ty.decayTimeMax == 0) || (ty.decayTimeMin != 0 && ty.stopTime)

/-! ## Items -/

inductive DecayState where
  | FALSE
  | TRUE
  | PENDING
  | STOPPING
  deriving DecidableEq, Repr

structure Attributes where
  duration : Option Nat
  durationTimestamp : Option Int
  decayState : Option DecayState
  corpseOwner : Option UInt32
  description : Option String
  wrapId : Option UInt16
  rest : List UInt8
  deriving DecidableEq

def Attributes.none : Attributes := ⟨.none, .none, .none, .none, .none, .none, []⟩

def Attributes.fresh (ty : ItemType) (pick : Nat) : Attributes :=
  { Attributes.none with
    duration := if ty.defaultDuration pick ≠ 0 then some (ty.defaultDuration pick) else .none
    rest := ty.initial }

/-- `getDuration`. -/
def Attributes.getDuration (now : Int) (a : Attributes) : Nat :=
  if a.decayState = some .TRUE ∨ a.decayState = some .STOPPING then (a.durationTimestamp.getD 0 - now).toNat
  else a.duration.getD 0

/-- What `setID` does to the attributes, where the id stays what it is. -/
def Attributes.setID (ty : ItemType) (pick : Nat) (a : Attributes) : Attributes :=
  let a := if ty.newDuration pick = 0 ∧ ty.stopTime = false ∧ ty.decayTo < 0 then
      { a with decayState := a.decayState.map fun _ => .STOPPING, duration := .none }
    else a
  let a := { a with corpseOwner := .none }
  if 0 < ty.newDuration pick ∧ (ty.stopTime = false ∨ a.duration = .none) then
    { a with decayState := some .PENDING, duration := some (ty.newDuration pick) }
  else a

/-- What `clone` makes of the attributes; an item without any gets those of a new one. -/
def Attributes.clone (ty : ItemType) (now : Int) (pick : Nat) (a : Attributes) : Attributes :=
  if a = Attributes.none then .fresh ty pick
  else if 0 < a.getDuration now then
    { a with durationTimestamp := .none, decayState := some .PENDING, duration := some (a.getDuration now) }
  else { a with durationTimestamp := .none, decayState := .none, duration := .none }

@[ext] structure Item where
  id : UInt16
  count : Nat
  instanceId : UInt32
  attributes : Attributes
  pos : 0 < count
  deriving DecidableEq

/-- `CreateItem` of a known id; only what stacks takes the count. -/
def CreateItem (types : ItemTypes) (pick : Nat) (id : UInt16) (count : Nat) : Option Item :=
  if (types.type id).known then
    some
      { id := transformed id
        count := if (types.type (transformed id)).stackable = true ∧ 0 < count then count else 1
        instanceId := 0
        attributes := .fresh (types.type (transformed id)) pick
        pos := by split <;> omega }
  else none

/-- `clone`, with its count set: the new object is of the same id. -/
def Item.clone (types : ItemTypes) (now : Int) (pick : Nat) (item : Item) (count : Nat) (h : 0 < count) : Item :=
  ⟨item.id, count, 0, item.attributes.clone (types.type item.id) now pick, h⟩

def Item.equalsIgnoringInstance (item other : Item) : Bool :=
  item.id == other.id && decide (item.attributes = other.attributes)

def Item.equals (item other : Item) : Bool := item.instanceId == other.instanceId && item.equalsIgnoringInstance other

/-! ## The inbox -/

abbrev StoreInbox := Table Nat Item

def INDEX_WHEREEVER : Int := -1

/-- `maxSize` of a store inbox. -/
def capacity : Int := 20

/-- The number of a new object. -/
def StoreInbox.next (inbox : StoreInbox) : Nat := (inbox.rows.map Prod.fst).foldr max 0 + 1

theorem StoreInbox.lt_next (inbox : StoreInbox) {k : Nat} (h : k ∈ inbox.rows.map Prod.fst) : k < inbox.next := by
  unfold StoreInbox.next
  generalize inbox.rows.map Prod.fst = l at h
  induction l with
  | nil => cases h
  | cons a l ih =>
    rw [foldr_cons]
    rcases mem_cons.mp h with rfl | h
    · omega
    · have := ih h
      omega

/-- The new object stands in front. -/
def StoreInbox.push (item : Item) (inbox : StoreInbox) : StoreInbox :=
  inbox.cons inbox.next item fun h => absurd (inbox.lt_next h) (Nat.lt_irrefl _)

/-- `Container::addThing`: an index past the capacity is refused, with no answer. -/
def StoreInbox.addThing (index : Int) (item : Item) (inbox : StoreInbox) : StoreInbox :=
  if capacity ≤ index then inbox else inbox.push item

/-- `Container::updateThing` with the id it has: the count grows by `n`. -/
def Item.grow (types : ItemTypes) (pick n : Nat) (item : Item) : Item :=
  { item with
    count := item.count + n
    attributes := item.attributes.setID (types.type item.id) pick
    pos := Nat.lt_of_lt_of_le item.pos (Nat.le_add_right _ _) }

def Item.takes (types : ItemTypes) (item listItem : Item) : Bool :=
  listItem.instanceId == 0 && listItem.equalsIgnoringInstance item &&
    decide (listItem.count < (types.type listItem.id).getStackSize)

/-- `Container::queryDestination`, for an inbox that a player carries: the first stack that
    takes more of the item, and its index. -/
def StoreInbox.queryDestination (types : ItemTypes) (item : Item) (inbox : StoreInbox) : Int × Option (Nat × Item) :=
  if (types.type item.id).stackable then
    match inbox.rows.find? fun x => item.takes types x.2 with
    | some x => ((inbox.rows.findIdx fun x => item.takes types x.2 : Nat), some x)
    | none => (INDEX_WHEREEVER, none)
  else (INDEX_WHEREEVER, none)

/-- What the player can carry at one moment. -/
structure Capacity where
  cannotPickupItem : Bool
  hasInfiniteCapacity : Bool
  freeCapacity : UInt32

/-- `Player::hasCapacity`. -/
def hasCapacity (c : Capacity) (ty : ItemType) (count : Nat) : Bool :=
  !c.cannotPickupItem &&
    (c.hasInfiniteCapacity ||
      decide ((if ty.stackable then ty.weight * UInt32.ofNat count else ty.weight) ≤ c.freeCapacity))

/-- `Container::queryAdd` of an inbox and `Player::queryAdd` after it. -/
def queryAdd (types : ItemTypes) (c : Capacity) (item : Item) : Bool :=
  (types.type item.id).pickupable && hasCapacity c (types.type item.id) item.count

/-- `StoreInbox` has no capacity limit. -/
def queryMaxCount (count : Nat) : Nat := max 1 count

/-- One call of `internalAddItem`: what the player can carry, the time, and the durations
    drawn where it merges and where it clones. -/
structure AddEnv where
  capacity : Capacity
  now : Int
  merged : Nat → Nat
  cloned : Nat → Nat

/-- `internalAddItem`: whether it answers `RETURNVALUE_NOERROR`, the remainder count, and the
    inbox. A remainder is added by a call of its own, whose remainder count is dropped. -/
def internalAddItem (types : ItemTypes) (env : AddEnv) : Nat → Item → StoreInbox → Bool × Nat × StoreInbox
  | 0, _, inbox => (false, 0, inbox)
  | fuel + 1, item, inbox =>
    if queryAdd types env.capacity item then
      match inbox.queryDestination types item with
      | (index, none) => (true, 0, inbox.addThing index item)
      | (index, some (ref, toItem)) =>
        if (types.type item.id).stackable && item.equals toItem then
          let m := min item.count (queryMaxCount item.count)
          let n := min ((types.type toItem.id).getStackSize - toItem.count) m
          let inbox' : StoreInbox := inbox.set ref (toItem.grow types (env.merged fuel) n)
          if h : 0 < m - n then
            if item.count ≠ m - n then
              let r := internalAddItem types env fuel (item.clone types env.now (env.cloned fuel) (m - n) h) inbox'
              (true, if r.1 then 0 else m - n, r.2.2)
            else (true, 0, inbox'.addThing index item)
          else (true, 0, inbox')
        else (true, 0, inbox.addThing index item)
    else (false, 0, inbox)

/-- `Container::removeThing`: what is left of the item. -/
def Item.removeThing (types : ItemTypes) (count : Nat) (item : Item) : Option Item :=
  if (types.type item.id).stackable = true ∧ count ≠ item.count then
    if h : count < item.count then some { item with count := item.count - count, pos := Nat.sub_pos_of_lt h }
    else none
  else none

/-- `internalRemoveItem`: what is left of the item, which stays where it cannot be removed. -/
def Item.internalRemove (types : ItemTypes) (count : Nat) (item : Item) : Option Item :=
  if count = 0 ∨ ((types.type item.id).stackable = true ∧ item.count < count) then some item
  else if (types.type item.id).canRemove then item.removeThing types count
  else some item

/-- `rollbackInboxDelivery`: objects that were not there are removed, stacks that grew lose
    what they gained. -/
def rollbackInboxDelivery (types : ItemTypes) (snapshot inbox : StoreInbox) : StoreInbox :=
  inbox.choose fun ref item =>
    match snapshot.find? ref with
    | none => item.internalRemove types item.count
    | some original =>
      if (types.type item.id).stackable = true ∧ original.count < item.count then
        item.internalRemove types (item.count - original.count)
      else some item

/-! ## Attributes -/

section
variable {ty : ItemType} {pick : Nat} {a : Attributes}

theorem normal_random_bounds (pick a b : Nat) : min a b ≤ normal_random pick a b ∧ normal_random pick a b ≤ max a b := by
  unfold normal_random
  omega

structure Attributes.Unused (ty : ItemType) (a : Attributes) : Prop where
  corpseOwner : a.corpseOwner = .none
  still : ty.decayTimeMin = 0 → ty.decayTimeMax = 0 → a.duration = .none ∧ a.decayState = .none
  running : ty.decayTimeMin ≠ 0 →
    ∃ d, 0 < d ∧ a.duration = some d ∧ (a.decayState = .none ∨ a.decayState = some .PENDING)

theorem defaultDuration_still (h0 : ty.decayTimeMin = 0) (h1 : ty.decayTimeMax = 0) (pick : Nat) :
    ty.defaultDuration pick = 0 := by
  unfold ItemType.defaultDuration
  rw [h0, h1, if_neg (by omega)]

theorem defaultDuration_pos (h : ty.decayTimeMin ≠ 0) (pick : Nat) : 0 < ty.defaultDuration pick := by
  unfold ItemType.defaultDuration
  split
  · have := (normal_random_bounds pick (ty.decayTimeMin * 1000) (ty.decayTimeMax * 1000)).1
    omega
  · omega

theorem newDuration_still (h0 : ty.decayTimeMin = 0) (h1 : ty.decayTimeMax = 0) (pick : Nat) :
    ty.newDuration pick = 0 := by
  unfold ItemType.newDuration
  rw [h0, h1, if_neg (by omega)]

theorem unused_fresh (ty : ItemType) (pick : Nat) : (Attributes.fresh ty pick).Unused ty := by
  refine ⟨rfl, ?_, ?_⟩
  · intro h0 h1
    refine ⟨?_, rfl⟩
    show (if ty.defaultDuration pick ≠ 0 then some (ty.defaultDuration pick) else .none) = .none
    rw [if_neg (by rw [defaultDuration_still h0 h1]; omega)]
  · intro h0
    have hpos := defaultDuration_pos h0 pick
    refine ⟨ty.defaultDuration pick, hpos, ?_, .inl rfl⟩
    show (if ty.defaultDuration pick ≠ 0 then some (ty.defaultDuration pick) else .none) = _
    rw [if_pos (by omega)]

theorem getDuration_unused (h : a.decayState = .none ∨ a.decayState = some .PENDING) (now : Int) :
    a.getDuration now = a.duration.getD 0 := by
  unfold Attributes.getDuration
  grind

theorem Attributes.Unused.clone (h : a.Unused ty) (now : Int) (pick : Nat) : (a.clone ty now pick).Unused ty := by
  unfold Attributes.clone
  split
  · exact unused_fresh ty pick
  split
  · next hd =>
    refine ⟨h.corpseOwner, ?_, ?_⟩
    · intro h0 h1
      obtain ⟨hnone, hstate⟩ := h.still h0 h1
      rw [getDuration_unused (.inl hstate), hnone] at hd
      cases hd
    · intro h0
      exact ⟨_, hd, rfl, .inr rfl⟩
  · next hd =>
    refine ⟨h.corpseOwner, fun _ _ => ⟨rfl, rfl⟩, ?_⟩
    intro h0
    obtain ⟨d, hpos, hdur, hstate⟩ := h.running h0
    rw [getDuration_unused hstate, hdur] at hd
    exact absurd hpos hd

theorem setID_steady (h : a.Unused ty) (hs : ty.steady = true) (pick : Nat) : a.setID ty pick = a := by
  obtain ⟨duration, durationTimestamp, decayState, corpseOwner, description, wrapId, rest⟩ := a
  simp only [ItemType.steady, or_eq_true, and_eq_true, beq_iff_eq, bne_iff_ne] at hs
  have hc : corpseOwner = .none := h.corpseOwner
  subst hc
  rcases hs with ⟨h0, h1⟩ | ⟨h0, hstop⟩
  · obtain ⟨hd, hst⟩ := h.still h0 h1
    subst hd hst
    simp [Attributes.setID, newDuration_still h0 h1]
  · obtain ⟨d, -, hd, -⟩ := h.running h0
    subst hd
    simp [Attributes.setID, hstop]

theorem setID_labels (ty : ItemType) (pick : Nat) (a : Attributes) :
    (a.setID ty pick).wrapId = a.wrapId ∧ (a.setID ty pick).description = a.description := by
  simp only [Attributes.setID]
  split_ifs
  · exact ⟨rfl, rfl⟩
  · exact ⟨rfl, rfl⟩
  · exact ⟨rfl, rfl⟩
  · exact ⟨rfl, rfl⟩

theorem clone_labels (ty : ItemType) (now : Int) (pick : Nat) (a : Attributes) :
    (a.clone ty now pick).wrapId = a.wrapId ∧ (a.clone ty now pick).description = a.description := by
  unfold Attributes.clone
  split
  · next h =>
    rw [h]
    exact ⟨rfl, rfl⟩
  · split
    · exact ⟨rfl, rfl⟩
    · exact ⟨rfl, rfl⟩

end

/-! ## Units -/

/-- What a unit of an item is, whatever stack it is in. -/
structure Ware where
  id : UInt16
  wrapId : Option UInt16
  description : Option String
  deriving DecidableEq

def Item.ware (item : Item) : Ware := ⟨item.id, item.attributes.wrapId, item.attributes.description⟩

def Item.units (types : ItemTypes) (item : Item) : Nat := if (types.type item.id).stackable then item.count else 1

def unitsOf (types : ItemTypes) (x : Nat × Item) : List Ware := List.replicate (x.2.units types) x.2.ware

def StoreInbox.wares (types : ItemTypes) (inbox : StoreInbox) : List Ware := inbox.rows.flatMap (unitsOf types)

section
variable {types : ItemTypes} {inbox inbox' : StoreInbox} {item item' toItem : Item} {ref n : Nat} {c : Capacity}

theorem wares_push (item : Item) (inbox : StoreInbox) :
    (inbox.push item).wares types = List.replicate (item.units types) item.ware ++ inbox.wares types := rfl

theorem find?_push (item : Item) (inbox : StoreInbox) (k : Nat) :
    (inbox.push item).find? k = if k = inbox.next then some item else inbox.find? k :=
  Table.find?_cons _

theorem find?_next (inbox : StoreInbox) : inbox.find? inbox.next = none :=
  Table.find?_none_iff.mpr fun h => absurd (inbox.lt_next h) (Nat.lt_irrefl _)

theorem wares_grow (hf : inbox.find? ref = some toItem) (hst : (types.type toItem.id).stackable = true)
    (pick n : Nat) :
    (StoreInbox.wares types (inbox.set ref (toItem.grow types pick n))).Perm
      (List.replicate n toItem.ware ++ inbox.wares types) := by
  obtain ⟨rest, hold, hnew⟩ := Table.set_perm hf (toItem.grow types pick n)
  have hw : (toItem.grow types pick n).ware = toItem.ware := by
    obtain ⟨h1, h2⟩ := setID_labels (types.type toItem.id) pick toItem.attributes
    show Ware.mk _ _ _ = Ware.mk _ _ _
    rw [← h1, ← h2]
    rfl
  have hu : (toItem.grow types pick n).units types = n + toItem.units types := by
    show (if (types.type toItem.id).stackable = true then toItem.count + n else 1) = n + toItem.units types
    rw [Item.units, if_pos hst, if_pos hst]
    omega
  have h1 : (StoreInbox.wares types (inbox.set ref (toItem.grow types pick n))).Perm
      (List.replicate (n + toItem.units types) toItem.ware ++ rest.flatMap (unitsOf types)) := by
    refine (hnew.flatMap_right (unitsOf types)).trans ?_
    rw [flatMap_cons]
    show (List.replicate _ _ ++ _).Perm _
    rw [hw, hu]
  have h2 : (inbox.wares types).Perm (List.replicate (toItem.units types) toItem.ware ++ rest.flatMap (unitsOf types)) :=
    hold.flatMap_right (unitsOf types)
  rw [← replicate_append_replicate, append_assoc] at h1
  exact h1.trans (h2.symm.append_left _)

/-! ## Adding -/

theorem hasCapacity_mono {ty : ItemType} {m n : Nat} (hle : m ≤ n) (hn : n ≤ 255) (h : hasCapacity c ty n = true) :
    hasCapacity c ty m = true := by
  simp only [hasCapacity, and_eq_true, or_eq_true, decide_eq_true_eq] at h ⊢
  refine ⟨h.1, h.2.imp_right ?_⟩
  intro hw
  split at hw
  · next hst =>
    rw [if_pos hst]
    have weighs {k : Nat} (hk : k ≤ 255) : (ty.weight * UInt32.ofNat k).toNat = ty.weight.toNat * k := by
      rw [UInt32.toNat_mul, UInt32.toNat_ofNat_of_lt' (Nat.lt_of_le_of_lt hk (by decide))]
      refine Nat.mod_eq_of_lt (Nat.lt_of_le_of_lt (Nat.mul_le_mul_left _ hk) ty.light)
    rw [UInt32.le_iff_toNat_le, weighs (by omega)]
    rw [UInt32.le_iff_toNat_le, weighs hn] at hw
    exact (Nat.mul_le_mul_left _ hle).trans hw
  · next hst =>
    rw [if_neg hst]
    exact hw

/-- A stack of the type that took units, and nothing else. -/
structure Item.Grown (types : ItemTypes) (item item' : Item) : Prop where
  id : item'.id = item.id
  instanceId : item'.instanceId = item.instanceId
  stackSize : 2 ≤ (types.type item.id).getStackSize
  count : item.count ≤ item'.count
  attributes : (types.type item.id).steady = true → item'.attributes = item.attributes

theorem stackable_of_stacks {ty : ItemType} (h : 2 ≤ ty.getStackSize) : ty.stackable = true := by
  unfold ItemType.getStackSize at h
  split at h
  · next hst => exact hst
  · omega

theorem Item.Grown.trans {item'' : Item} (h : item.Grown types item') (h' : item'.Grown types item'') :
    item.Grown types item'' := by
  refine ⟨h'.id.trans h.id, h'.instanceId.trans h.instanceId, h.stackSize, h.count.trans h'.count, ?_⟩
  intro hs
  exact (h'.attributes (by rw [h.id]; exact hs)).trans (h.attributes hs)

/-- What adding items of the id `id` does to an inbox: what was there is there, stacks of `id`
    may have grown, and what is new is of `id`. -/
structure Extended (types : ItemTypes) (id : UInt16) (inbox inbox' : StoreInbox) : Prop where
  kept : ∀ k item, inbox.find? k = some item →
    ∃ item', inbox'.find? k = some item' ∧ (item' = item ∨ (item.id = id ∧ item.Grown types item'))
  added : ∀ k item', inbox'.find? k = some item' → inbox.find? k = none → item'.id = id

variable {id : UInt16}

theorem Extended.refl (inbox : StoreInbox) : Extended types id inbox inbox := by
  refine ⟨fun k item h => ⟨item, h, .inl rfl⟩, ?_⟩
  intro k item' h hn
  rw [h] at hn
  cases hn

theorem Extended.trans {inbox'' : StoreInbox} (h : Extended types id inbox inbox')
    (h' : Extended types id inbox' inbox'') : Extended types id inbox inbox'' := by
  refine ⟨?_, ?_⟩
  · intro k item hk
    obtain ⟨item', hk', hg⟩ := h.kept k item hk
    obtain ⟨item'', hk'', hg'⟩ := h'.kept k item' hk'
    refine ⟨item'', hk'', ?_⟩
    rcases hg with rfl | ⟨hid, hg⟩
    · exact hg'
    · rcases hg' with rfl | ⟨-, hg'⟩
      · exact .inr ⟨hid, hg⟩
      · exact .inr ⟨hid, hg.trans hg'⟩
  · intro k item'' hk'' hn
    cases hk' : inbox'.find? k with
    | none => exact h'.added k item'' hk'' hk'
    | some item' =>
      have hid := h.added k item' hk' hn
      obtain ⟨item3, hk3, hg⟩ := h'.kept k item' hk'
      rw [hk''] at hk3
      cases hk3
      rcases hg with rfl | ⟨-, hg⟩
      · exact hid
      · exact hg.id.trans hid

theorem extended_push (item : Item) (inbox : StoreInbox) : Extended types item.id inbox (inbox.push item) := by
  refine ⟨?_, ?_⟩
  · intro k old hk
    refine ⟨old, ?_, .inl rfl⟩
    rw [find?_push, if_neg ?_]
    · exact hk
    · intro e
      rw [e, find?_next] at hk
      cases hk
  · intro k item' hk hn
    rw [find?_push] at hk
    grind

theorem extended_grow (hf : inbox.find? ref = some toItem) (hg : toItem.Grown types item') :
    Extended types toItem.id inbox (inbox.set ref item') := by
  refine ⟨?_, ?_⟩
  · intro k old hk
    by_cases e : k = ref
    · subst e
      rw [hf] at hk
      cases hk
      exact ⟨item', by rw [Table.find?_set hf, if_pos rfl], .inr ⟨rfl, hg⟩⟩
    · exact ⟨old, by rw [Table.find?_set hf, if_neg e]; exact hk, .inl rfl⟩
  · intro k new hk hn
    rw [Table.find?_set hf] at hk
    grind

theorem queryDestination_cases (types : ItemTypes) (item : Item) (inbox : StoreInbox) :
    inbox.queryDestination types item = (INDEX_WHEREEVER, none) ∨
      ∃ index ref toItem, inbox.queryDestination types item = (index, some (ref, toItem)) ∧
        (types.type item.id).stackable = true ∧ inbox.find? ref = some toItem ∧ toItem.instanceId = 0 ∧
        toItem.id = item.id ∧ toItem.attributes = item.attributes ∧
        toItem.count < (types.type item.id).getStackSize := by
  unfold StoreInbox.queryDestination
  split
  · next hst =>
    cases hx : inbox.rows.find? fun x => item.takes types x.2 with
    | none => exact .inl rfl
    | some x =>
      have hm := mem_of_find?_eq_some hx
      have ht := find?_some hx
      simp only [Item.takes, Item.equalsIgnoringInstance, and_eq_true, beq_iff_eq, decide_eq_true_eq] at ht
      obtain ⟨⟨hi, hid, ha⟩, hc⟩ := ht
      rw [hid] at hc
      exact .inr ⟨_, x.1, x.2, rfl, hst, Table.find?_iff.mpr hm, hi, hid, ha, hc⟩
  · exact .inl rfl

theorem grown_grow (hst : 2 ≤ (types.type toItem.id).getStackSize)
    (ha : toItem.attributes.Unused (types.type toItem.id)) (pick n : Nat) :
    toItem.Grown types (toItem.grow types pick n) :=
  ⟨rfl, rfl, hst, Nat.le_add_right _ _, fun hs => setID_steady ha hs pick⟩

theorem internalAddItem_cases (env : AddEnv) (item : Item) (inbox : StoreInbox) {fuel : Nat} (hfuel : item.count < fuel) (hi : item.instanceId = 0)
    (hc : item.count ≤ 255) (hst : (types.type item.id).stackable = false → item.count = 1)
    (ha : item.attributes.Unused (types.type item.id)) :
    (queryAdd types env.capacity item = false ∧ internalAddItem types env fuel item inbox = (false, 0, inbox)) ∨
      (queryAdd types env.capacity item = true ∧
        ∃ inbox', internalAddItem types env fuel item inbox = (true, 0, inbox') ∧
          Extended types item.id inbox inbox' ∧
          (inbox'.wares types).Perm (List.replicate item.count item.ware ++ inbox.wares types)) := by
  induction fuel generalizing item inbox with
  | zero => omega
  | succ fuel ih =>
    unfold internalAddItem
    cases hq : queryAdd types env.capacity item with
    | false => exact .inl ⟨rfl, rfl⟩
    | true =>
      refine .inr ⟨rfl, ?_⟩
      have hunits : item.units types = item.count := by
        grind [Item.units]
      rcases queryDestination_cases types item inbox with hd | ⟨index, ref, toItem, hd, hs, hf, hi', hid, hat, hlt⟩
      · rw [hd]
        refine ⟨inbox.push item, rfl, extended_push item inbox, ?_⟩
        rw [wares_push, hunits]
      rw [hd]
      have heq : item.equals toItem = true := by
        simp [Item.equals, Item.equalsIgnoringInstance, hi, hi', hid, hat]
      have hm : min item.count (queryMaxCount item.count) = item.count := by
        unfold queryMaxCount
        omega
      have hto : (types.type toItem.id).stackable = true := by rw [hid]; exact hs
      have hsize : 2 ≤ (types.type toItem.id).getStackSize := by
        have := toItem.pos
        rw [hid]
        omega
      have hgrown := grown_grow hsize (by rw [hat, hid]; exact ha) (env.merged fuel)
      have hware : toItem.ware = item.ware := by
        unfold Item.ware
        rw [hid, hat]
      show ∃ inbox', (if (types.type item.id).stackable && item.equals toItem then _ else _) = _ ∧ _
      rw [hs, heq, Bool.and_self, if_pos rfl]
      generalize min item.count (queryMaxCount item.count) = m at hm
      subst hm
      dsimp only
      generalize hn : min ((types.type toItem.id).getStackSize - toItem.count) item.count = n
      have hpos : 0 < n ∧ n ≤ item.count := by
        have := item.pos
        rw [hid] at hn
        omega
      have hext := extended_grow hf (hgrown n)
      have hgrow := wares_grow hf hto (env.merged fuel) n
      rw [hid] at hext
      rw [hware] at hgrow
      split
      · next h =>
        -- the remainder is a clone, smaller than the item, so the player can carry it too
        rw [if_pos (by omega)]
        obtain ⟨clone, hclone⟩ : ∃ clone, clone =
          item.clone types env.now (env.cloned fuel) (item.count - n) h := ⟨_, rfl⟩
        have hcid : clone.id = item.id := by rw [hclone]; rfl
        have hcc : clone.count = item.count - n := by rw [hclone]; rfl
        have hcw : clone.ware = item.ware := by
          obtain ⟨h1, h2⟩ := clone_labels (types.type item.id) env.now (env.cloned fuel) item.attributes
          rw [hclone]
          show Ware.mk _ _ _ = Ware.mk _ _ _
          rw [← h1, ← h2]
          rfl
        have hcq : queryAdd types env.capacity clone = true := by
          unfold queryAdd at hq ⊢
          rw [hcid, hcc]
          obtain ⟨hp, hcap⟩ := and_eq_true_iff.mp hq
          rw [hp, hasCapacity_mono (Nat.sub_le _ _) hc hcap]
          rfl
        rw [← hclone]
        rcases ih clone (inbox.set ref (toItem.grow types (env.merged fuel) n)) (by omega)
            (by rw [hclone]; rfl) (by omega) (fun hno => by rw [hcid, hs] at hno; cases hno)
            (by rw [hcid, hclone]; exact ha.clone _ _) with ⟨hno, -⟩ | ⟨-, inbox', he, hext', hperm⟩
        · rw [hcq] at hno
          cases hno
        rw [he]
        refine ⟨inbox', rfl, hext.trans (hcid ▸ hext'), ?_⟩
        refine hperm.trans ((hgrow.append_left _).trans ?_)
        rw [hcw, hcc, ← append_assoc, replicate_append_replicate, Nat.sub_add_cancel hpos.2]
      · next h =>
        refine ⟨_, rfl, hext, ?_⟩
        rw [show item.count = n by omega]
        exact hgrow

/-! ## Taking back -/

theorem internalRemove_all (hr : (types.type item.id).canRemove = true) : item.internalRemove types item.count = none := by
  unfold Item.internalRemove
  rw [if_neg (fun h => ?_), if_pos hr, Item.removeThing, if_neg (fun h => h.2 rfl)]
  have := item.pos
  omega

theorem internalRemove_part (n : Nat) (hr : (types.type item.id).canRemove = true) (hst : (types.type item.id).stackable = true)
    (hn : 0 < n) (h : n < item.count) :
    item.internalRemove types n = some { item with count := item.count - n, pos := Nat.sub_pos_of_lt h } := by
  unfold Item.internalRemove
  rw [if_neg (fun h => by omega), if_pos hr, Item.removeThing, if_pos ⟨hst, by omega⟩, dif_pos h]

theorem rollback_extended (h : Extended types id inbox inbox') (hr : (types.type id).canRemove = true)
    (hs : 2 ≤ (types.type id).getStackSize → (types.type id).steady = true) (k : Nat) :
    (rollbackInboxDelivery types inbox inbox').find? k = inbox.find? k := by
  unfold rollbackInboxDelivery
  rw [Table.find?_choose]
  cases hk : inbox.find? k with
  | none =>
    cases hk' : inbox'.find? k with
    | none => rfl
    | some item' =>
      have hid := h.added k item' hk' hk
      exact internalRemove_all (by rw [hid]; exact hr)
  | some item =>
    obtain ⟨item', hk', hg⟩ := h.kept k item hk
    rw [hk']
    show (if (types.type item'.id).stackable = true ∧ item.count < item'.count then
      item'.internalRemove types (item'.count - item.count) else some item') = some item
    rcases hg with rfl | ⟨hid, hg⟩
    · rw [if_neg (fun h => Nat.lt_irrefl _ h.2)]
    have hst : (types.type item'.id).stackable = true := by rw [hg.id]; exact stackable_of_stacks hg.stackSize
    have hat : item'.attributes = item.attributes :=
      hg.attributes (by rw [hid]; exact hs (by rw [← hid]; exact hg.stackSize))
    have hle := hg.count
    have hpos := item.pos
    split
    · next hlt =>
      rw [internalRemove_part _ (by rw [hg.id, hid]; exact hr) hst (by omega) (by omega)]
      refine congrArg some (Item.ext hg.id ?_ hg.instanceId hat)
      show item'.count - (item'.count - item.count) = item.count
      omega
    · next hlt =>
      refine congrArg some (Item.ext hg.id ?_ hg.instanceId hat)
      have : ¬ item.count < item'.count := fun h => hlt ⟨hst, h⟩
      omega

end

end Backlands.Store
