/-
  Backlands.Items.Storage — a player's items in the database (src/iologindata.cpp):
  `saveItems`, `loadItems` and the loop of `loadPlayer` that puts the items back.

  An item is a tree: what is known of it by itself (`ItemData`) and, for a container, its
  items from the front. `types` is the item table; which ids are containers, stackable or
  not creatable is read from it. Count, fluid type and charges are one number, the sub
  type, as they are in the column. Of the attributes the sub type and the date are
  kept apart, in the widths they are written in; the others are the bytes they are written
  as. There is no reward id among them: `ITEM_ATTRIBUTE_REWARDID` is not in
  `intAttributeTypes`, so `setIntAttr` of it does nothing and `getIntAttr` of it is zero.

  Proved: `loadPass_saveItems`, what a pass makes of rows saved from items that all stand
  in a place of their own.
-/

import Mathlib.Data.List.Sort
import Backlands.Lib.Forest

namespace Backlands.Items

open Backlands.Lib List

/-! ## Items -/

def ITEM_DEPOT_BOX_1 : Nat := 22797
def ITEM_DEPOT_BOX_17 : Nat := 22813
def ITEM_INBOX : Nat := 12902
def ITEM_REWARD_CONTAINER : Nat := 19202

def isDepotBox (id : Nat) : Bool := decide (ITEM_DEPOT_BOX_1 ≤ id) && decide (id ≤ ITEM_DEPOT_BOX_17)

/-- What the item table says of an id. `fixed` stands for the kinds `CreateItem` makes
    without looking at a transformed id: teleports, fields, doors, trash holders,
    mailboxes and beds. -/
structure ItemType where
  deprecated : Bool
  known : Bool
  stackable : Bool
  /-- A fluid container or a splash. -/
  fluid : Bool
  charges : Nat
  container : Bool
  depot : Bool
  rewardChest : Bool
  fixed : Bool

structure ItemData where
  id : Nat
  subType : Nat
  /-- The item's class is a container's. -/
  isContainer : Bool
  date : Option Int
  rest : List UInt8
  deriving DecidableEq

abbrev Item := RoseTree ItemData

structure Attributes where
  count : Option (BitVec 8)
  charges : Option (BitVec 16)
  writtenDate : Option (BitVec 32)
  rest : List UInt8
  deriving DecidableEq

/-- A row's columns beside `pid` and `sid`. -/
structure Stored where
  itemtype : Nat
  count : Nat
  attributes : Attributes
  deriving DecidableEq

/-- `getIntAttr`: zero for an attribute that is not there. -/
def getIntAttr (a : Option Int) : Int := a.getD 0

section
variable (types : Nat → ItemType)

/-- `getCharges`, for the items whose sub type is their charges. -/
def getCharges (d : ItemData) : Nat :=
  if (types d.id).fluid || (types d.id).stackable || (types d.id).charges == 0 then 0 else d.subType

/-- `Item::serializeAttr`: charges and a date of zero are not written. -/
def serializeAttr (d : ItemData) : Attributes where
  count := if (types d.id).stackable || (types d.id).fluid then some (BitVec.ofNat 8 d.subType) else none
  charges := if getCharges types d = 0 then none else some (BitVec.ofNat 16 (getCharges types d))
  writtenDate := if getIntAttr d.date = 0 then none else some (BitVec.ofInt 32 (getIntAttr d.date))
  rest := d.rest

def store (d : ItemData) : Stored := ⟨d.id, d.subType, serializeAttr types d⟩

/-- The class `CreateItem` makes for an id is a container's. -/
def containerClass (id : Nat) : Bool :=
  (types id).depot || (types id).rewardChest || isDepotBox id || decide (id = ITEM_INBOX) || (types id).container

/-- The id `CreateItem` gives an item: worn rings and boots come back as they are when
    they are not worn. -/
def createdId (id : Nat) : Nat :=
  if containerClass types id || (types id).fixed then id
  else if 3094 ≤ id ∧ id ≤ 3096 then id - 3
  else if id = 3099 ∨ id = 3100 then id - 2
  else if 3086 ≤ id ∧ id ≤ 3090 then id - 37
  else if id = 3549 then 6529
  else if id = 6299 then 6300
  else id

/-- The sub type the constructor of `Item` gives. -/
def initialSubType (id count : Nat) : Nat :=
  if (types id).fluid then count
  else if (types id).stackable then
    if count ≠ 0 then count % 256 else if (types id).charges ≠ 0 then (types id).charges % 256 else 1
  else if (types id).charges ≠ 0 then
    if count ≠ 0 then count else (types id).charges
  else 1

/-- `Item::CreateItem`, without the attributes. The count is not passed on to containers
    and the fixed kinds. -/
def createItem (id count : Nat) : Option ItemData :=
  if (types id).deprecated then none
  else
    let count := if (types id).stackable && count == 0 then 1 else count
    if !(types id).known then none
    else
      let count := if containerClass types id || (types id).fixed then 0 else count
      some ⟨createdId types id, initialSubType types (createdId types id) count, containerClass types id, none, []⟩

/-- `Item::setSubType`: a count is kept in a byte. -/
def setSubType (id n : Nat) : Nat :=
  if (types id).fluid then n
  else if (types id).stackable then n % 256
  else if (types id).charges ≠ 0 then n
  else n % 256

/-- `Item::unserializeAttr`: count, then charges; the date is read as a signed number. -/
def unserializeAttr (a : Attributes) (d : ItemData) : ItemData :=
  let counted := (a.count.map fun v => setSubType types d.id v.toNat).getD d.subType
  { d with
    subType := (a.charges.map fun v => setSubType types d.id v.toNat).getD counted
    date := a.writtenDate.map (·.toInt)
    rest := a.rest }

def readRow (s : Stored) : Option ItemData := (createItem types s.itemtype s.count).map (unserializeAttr types s.attributes)

/-- The item an item comes back as. -/
def reload (d : ItemData) : ItemData := (readRow types (store types d)).getD d

/-- What `Container::internalAddThing` does to an item: a reward container takes the date
    off stackable items. -/
def enter (holder d : ItemData) : ItemData :=
  if holder.id = ITEM_REWARD_CONTAINER ∧ (types d.id).stackable = true then { d with date := none }
  else d

def comesBack (t : Item) : Item := (t.map (reload types)).settle (enter types)

def Valid (d : ItemData) : Prop :=
  (types d.id).deprecated = false ∧ (types d.id).known = true ∧ d.isContainer = containerClass types d.id

/-- Every item of the tree is valid and only containers have contents. -/
def ItemOk (t : Item) : Prop := RoseTree.Sound (·.isContainer) t ∧ ∀ d ∈ t.labels, Valid types d

variable {d : ItemData}

theorem readRow_store (h : Valid types d) : readRow types (store types d) = some (reload types d) := by
  obtain ⟨h1, h2, _⟩ := h
  simp [reload, readRow, store, createItem, h1, h2]

theorem reload_isContainer (h : Valid types d) : (reload types d).isContainer = d.isContainer := by
  obtain ⟨h1, h2, h3⟩ := h
  simp [reload, readRow, store, createItem, unserializeAttr, h1, h2, h3]

theorem isDepotBox_createdId (id : Nat) : isDepotBox (createdId types id) = isDepotBox id := by
  have hout : ∀ {a b : Nat}, a < ITEM_DEPOT_BOX_1 → b < ITEM_DEPOT_BOX_1 → isDepotBox a = isDepotBox b := by
    intro a b ha hb
    have hna : ¬ ITEM_DEPOT_BOX_1 ≤ a := by omega
    have hnb : ¬ ITEM_DEPOT_BOX_1 ≤ b := by omega
    simp [isDepotBox, hna, hnb]
  grind [ITEM_DEPOT_BOX_1, createdId]

theorem reload_box (h : Valid types d) : isDepotBox (reload types d).id = isDepotBox d.id := by
  obtain ⟨h1, h2, _⟩ := h
  have hid : (reload types d).id = createdId types d.id := by
    simp [reload, readRow, store, createItem, unserializeAttr, h1, h2]
  rw [hid, isDepotBox_createdId]

theorem enter_id (holder d : ItemData) : (enter types holder d).id = d.id := by
  unfold enter
  split <;> rfl

theorem labels_comesBack {t : Item} (h : ∀ d ∈ t.labels, Valid types d) :
    (comesBack types t).labels.map (fun d => isDepotBox d.id) = t.labels.map fun d => isDepotBox d.id := by
  have henter : ∀ a b : ItemData, isDepotBox (enter types a b).id = isDepotBox b.id := by
    intro a b
    rw [enter_id]
  unfold comesBack
  rw [RoseTree.labels_settle (g := fun d : ItemData => isDepotBox d.id) henter, RoseTree.labels_map, map_map]
  apply map_congr_left
  intro d hd
  exact reload_box types (h d hd)

end

/-! ## Saving and loading rows -/

abbrev ItemRow := Row Stored

/-- `saveItems`: the trees with the code of their place each; rows are numbered from 101. -/
def saveItems (types : Nat → ItemType) (itemList : List (Int × Item)) : List ItemRow :=
  (encode (·.isContainer) 101 itemList).map (Row.map (store types))

/-- `SELECT ... ORDER BY sid DESC`. -/
def storeQuery (rows : List ItemRow) : List ItemRow := rows.insertionSort fun a b => b.sid ≤ a.sid

/-- Insert into the map of loaded items, kept from the highest number down; a number that
    is there is replaced. -/
def insertItem (r : Row ItemData) : List (Row ItemData) → List (Row ItemData)
  | [] => [r]
  | q :: m =>
    if r.sid = q.sid then r :: m
    else if q.sid < r.sid then r :: q :: m
    else q :: insertItem r m

/-- `loadItems`: the map, as its reverse iteration gives it. A row whose item cannot be
    created is dropped. -/
def loadItems (types : Nat → ItemType) (rows : List ItemRow) : List (Row ItemData) :=
  rows.foldl (fun m r =>
    match readRow types r.label with
    | some d => insertItem ⟨r.pid, r.sid, d⟩ m
    | none => m) []

/-- `internalAddThing` of a container: to the front. -/
def pushFront (t : Item) (l : List Item) : List Item := t :: l

/-- `Player::internalAddThing` at a slot: an occupied slot keeps what it has. -/
def equip (t : Item) (l : List Item) : List Item := if l.isEmpty then [t] else l

section
variable {π : Type*} [DecidableEq π] (types : Nat → ItemType) (skip : ItemData → Bool) (anchor : Int → Option π)
  (put : Item → List Item → List Item)

/-- A pass of `loadPlayer` over the rows of one table. -/
def loadPass (rows : List ItemRow) : π → List Item :=
  attach (·.isContainer) skip (enter types) anchor put (fun _ => []) (loadItems types (storeQuery rows)) fun _ => []

end

variable {types : Nat → ItemType}

theorem orderedInsert_last (r : ItemRow) (l : List ItemRow) (h : ∀ q ∈ l, r.sid < q.sid) :
    l.orderedInsert (fun a b => b.sid ≤ a.sid) r = l ++ [r] := by
  induction l with
  | nil => rfl
  | cons q l ih =>
    have hq := h q mem_cons_self
    rw [List.orderedInsert, if_neg (by omega), ih fun x hx => h x (mem_cons_of_mem _ hx)]
    rfl

theorem storeQuery_of_sorted (rows : List ItemRow) (h : rows.Pairwise fun a b => a.sid < b.sid) :
    storeQuery rows = rows.reverse := by
  unfold storeQuery
  induction rows with
  | nil => rfl
  | cons r rows ih =>
    obtain ⟨h1, h2⟩ := pairwise_cons.mp h
    rw [insertionSort_cons, ih h2, orderedInsert_last, reverse_cons]
    intro q hq
    exact h1 q (mem_reverse.mp hq)

theorem insertItem_last (r : Row ItemData) (m : List (Row ItemData)) (h : ∀ q ∈ m, r.sid < q.sid) :
    insertItem r m = m ++ [r] := by
  induction m with
  | nil => rfl
  | cons q m ih =>
    have hq := h q mem_cons_self
    rw [insertItem, if_neg (by omega), if_neg (by omega), ih fun x hx => h x (mem_cons_of_mem _ hx)]
    rfl

theorem loadItems_of_sorted {f : Stored → ItemData} (rows : List ItemRow) (h : rows.Pairwise fun a b => b.sid < a.sid)
    (hf : ∀ r ∈ rows, readRow types r.label = some (f r.label)) : loadItems types rows = rows.map (Row.map f) := by
  unfold loadItems
  induction rows using reverseRecOn with
  | nil => rfl
  | append_singleton rows r ih =>
    obtain ⟨h1, _, h2⟩ := pairwise_append.mp h
    rw [foldl_append, ih h1 fun q hq => hf q (mem_append_left _ hq)]
    simp only [foldl_cons, foldl_nil, hf r (by simp), map_append, map_cons, map_nil]
    apply insertItem_last
    intro q hq
    obtain ⟨q', hq', rfl⟩ := mem_map.mp hq
    exact h2 q' hq' r (by simp)

theorem map_store_map {f : Stored → ItemData} {g : ItemData → ItemData} (rows : List (Row ItemData))
    (h : ∀ r ∈ rows, f (store types r.label) = g r.label) :
    (rows.map (Row.map (store types))).map (Row.map f) = rows.map (Row.map g) := by
  rw [map_map]
  apply map_congr_left
  intro r hr
  simp [Row.map, h r hr]

theorem loadItems_saveItems {itemList : List (Int × Item)} (hok : ∀ e ∈ itemList, ItemOk types e.2) :
    loadItems types (storeQuery (saveItems types itemList)) =
      (encode (·.isContainer) 101 (itemList.map fun e => (e.1, e.2.map (reload types)))).reverse := by
  have hvalid : ∀ r ∈ encode (·.isContainer) 101 itemList, Valid types r.label := by
    intro r hr
    have hm : r.label ∈ (encode (·.isContainer) 101 itemList).map (·.label) := mem_map_of_mem hr
    rw [(encode_labels 101 fun e he => (hok e he).1).mem_iff] at hm
    obtain ⟨t, ht, hl⟩ := RoseTree.mem_labelsAll.mp hm
    obtain ⟨e, he, rfl⟩ := mem_map.mp ht
    exact (hok e he).2 _ hl
  have hsorted : (saveItems types itemList).Pairwise fun a b => a.sid < b.sid := by
    unfold saveItems
    rw [pairwise_map]
    exact encode_sorted 101 itemList
  have hread : ∀ r ∈ (saveItems types itemList).reverse,
      readRow types r.label = some ((readRow types r.label).getD ⟨0, 0, false, none, []⟩) := by
    intro r hr
    obtain ⟨q, hq, rfl⟩ := mem_map.mp (mem_reverse.mp hr)
    simp [Row.map, readRow_store types (hvalid q hq)]
  have hload := loadItems_of_sorted (f := fun s => (readRow types s).getD ⟨0, 0, false, none, []⟩) _
    (pairwise_reverse.mpr hsorted) hread
  rw [storeQuery_of_sorted _ hsorted, hload, map_reverse,
    encode_map 101 itemList fun e he d hd => reload_isContainer types ((hok e he).2 d hd)]
  congr 1
  apply map_store_map
  intro r hr
  simp [readRow_store types (hvalid r hr)]

theorem loadPass_saveItems {π : Type*} [DecidableEq π] (skip : ItemData → Bool) {anchor : Int → Option π}
    (put : Item → List Item → List Item) {itemList : List (Int × Item)} (hok : ∀ e ∈ itemList, ItemOk types e.2)
    (ha : ∀ e ∈ itemList, (anchor e.1).isSome = true) (hn : ∀ s : Nat, 101 ≤ s → anchor (s : Int) = none)
    (hs : ∀ e ∈ itemList, ∀ d ∈ e.2.labels, skip (reload types d) = false) (p : π) :
    loadPass types skip anchor put (saveItems types itemList) p =
      placed anchor put p (itemList.map fun e => (e.1, comesBack types e.2)) [] := by
  unfold loadPass
  rw [loadItems_saveItems hok, attach_encode, map_map]
  · rfl
  · intro e he
    obtain ⟨e', he', rfl⟩ := mem_map.mp he
    exact ha e' he'
  · exact hn
  · intro e he d hd
    obtain ⟨e', he', rfl⟩ := mem_map.mp he
    simp only [RoseTree.labels_map] at hd
    obtain ⟨d', hd', rfl⟩ := mem_map.mp hd
    exact hs e' he' d' hd'
  · intro e he
    obtain ⟨e', he', rfl⟩ := mem_map.mp he
    exact RoseTree.sound_map _ (fun d hd => reload_isContainer types ((hok e' he').2 d hd)) (hok e' he').1

end Backlands.Items
