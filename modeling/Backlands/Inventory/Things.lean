/-
  Backlands.Inventory.Things — items in containers, as far as counting and paying look at
  them (src/item.cpp, src/items.cpp).

  `ptr` stands for the address of an item, which tells it from every other. Only items whose
  type is a container are gone into. The rings and boots that `CreateItem` makes under another
  id are left out.
-/

import Backlands.Lib.Breadth
import Backlands.Lib.Table

namespace Backlands.Inventory

open Backlands.Lib Backlands.Lib.RoseTree

abbrev ItemId := Nat

structure ItemType where
  stackable : Bool := false
  container : Bool := false
  /-- A fluid container or a splash. -/
  fluid : Bool := false
  charges : Nat := 0
  worth : Nat := 0
  /-- What `canRemove` says of its items. -/
  removable : Bool := true
  /-- No type of items.otb is both. -/
  apart : ¬(stackable = true ∧ container = true) := by decide

structure Item where
  ptr : Nat
  id : ItemId
  count : Nat
  fluidType : Nat := 0
  charges : Nat := 0
  deriving DecidableEq

abbrev Tree := RoseTree Item

/-- `Item::items`. -/
structure Items where
  type : ItemId → ItemType
  currencyItems : List (Nat × ItemId)
  descending : currencyItems.Pairwise fun e e' => e'.1 < e.1
  worths : ∀ e ∈ currencyItems, (type e.2).worth = e.1

namespace Items

variable (items : Items)

def isContainer (a : Item) : Bool := (items.type a.id).container

def isStackable (a : Item) : Bool := (items.type a.id).stackable

def getSubType (a : Item) : Nat :=
  let it := items.type a.id
  if it.fluid then a.fluidType
  else if it.stackable then a.count
  else if it.charges ≠ 0 then a.charges
  else a.count

/-- `Item::countByType`; the subtype -1 is any. -/
def countByType (a : Item) (subType : Int) : Nat :=
  if subType = -1 || subType = items.getSubType a then a.count else 0

/-- 32 bits wide. -/
def getWorth (a : Item) : Nat := (items.type a.id).worth * a.count % 2 ^ 32

/-- `Item::CreateItem`, at the address `ptr`. -/
def createItem (ptr : Nat) (id : ItemId) (count : Nat) : Item :=
  let it := items.type id
  if it.fluid then { ptr, id, count := 1, fluidType := count }
  else if it.stackable then { ptr, id, count := if count = 0 then 1 else count }
  else { ptr, id, count := 1, charges := if it.charges = 0 then 0 else if count = 0 then it.charges else count }

/-- Everything in `ts`, also in containers. -/
def all (ts : List Tree) : List Item := reachedAll items.isContainer ts

end Items

/-- What an `internalRemoveItem` of the whole item leaves. -/
def remove (ptr : Nat) (ts : List Tree) : List Tree := pruneAll (fun a => a.ptr = ptr) ts

/-- What lowering the count of an item leaves. -/
def setCount (ptr : Nat) (count : Nat) (ts : List Tree) : List Tree :=
  mapAll (fun a => if a.ptr = ptr then { a with count } else a) ts

/-- Every item there has an address of its own. -/
def Distinct (items : Items) (ts : List Tree) : Prop := ((items.all ts).map (·.ptr)).Nodup

section
variable {items : Items} {ts us : List Tree} {a : Item}

theorem all_append (ts us : List Tree) : items.all (ts ++ us) = items.all ts ++ items.all us := reachedAll_append ts us

theorem Distinct.eq (h : Distinct items ts) {b : Item} (ha : a ∈ items.all ts) (hb : b ∈ items.all ts)
    (hp : a.ptr = b.ptr) : a = b := List.inj_on_of_nodup_map h ha hb hp

theorem all_remove (h : Distinct items ts) (ha : a ∈ items.all ts) (hc : items.isContainer a = false) :
    items.all (remove a.ptr ts) = (items.all ts).filter fun b => b.ptr ≠ a.ptr := by
  have hleaves : ∀ b ∈ items.all ts, decide (b.ptr = a.ptr) = true → items.isContainer b = false := by
    intro b hb hp
    rw [h.eq hb ha (of_decide_eq_true hp)]
    exact hc
  show reachedAll items.isContainer (pruneAll _ ts) = _
  rw [reachedAll_prune_leaves hleaves]
  refine List.filter_congr fun b _ => ?_
  simp

theorem all_setCount (ptr count : Nat) (ts : List Tree) : items.all (setCount ptr count ts) =
    (items.all ts).map fun b => if b.ptr = ptr then { b with count } else b := by
  refine reachedAll_map (fun b => ?_) ts
  split <;> rfl

theorem Distinct.split (h : Distinct items ts) (ha : a ∈ items.all ts) :
    (items.all ts).Perm (a :: (items.all ts).filter fun b => b.ptr ≠ a.ptr) := perm_cons_filter h ha

theorem Distinct.remove (h : Distinct items ts) (ha : a ∈ items.all ts) (hc : items.isContainer a = false) :
    Distinct items (remove a.ptr ts) := by
  unfold Distinct
  rw [all_remove h ha hc]
  exact h.sublist (List.filter_sublist.map _)

end

end Backlands.Inventory
