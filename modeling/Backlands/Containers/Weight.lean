/-
  Backlands.Containers.Weight — the weight and the ammunition a container carries
  (`updateItemWeight`, `updateAmmoCount` and the calls that change `itemlist`,
  src/container.cpp; `getWeight`, `setID`, `setSubType`, src/item.cpp).

  Items lie at pointers `ρ`. A parent that is not an item (a tile, a player) is `none` like no
  parent at all: nothing here tells them apart. `updateItemWeight` calls itself on the parent;
  `n` bounds the calls. `ammoCount` is a `uint32_t`. Messages to the client and the attributes
  that weigh nothing are left out.

  Proved: `counters_right`. Counterexample: `full_quiver_miscounts`.
-/

import Backlands.Lib.Rollup
import Mathlib.Algebra.Order.BigOperators.Group.List
import Mathlib.Data.BitVec
import Mathlib.Tactic.Ring

namespace Backlands.Containers.Weight

open Backlands.Lib Function List

/-! ## Items -/

structure ItemType where
  weight : BitVec 32 := 0
  stackable : Bool := false
  fluidContainer : Bool := false
  splash : Bool := false
  charges : BitVec 32 := 0
  /-- `weaponType` is `WEAPON_AMMO`. -/
  ammunition : Bool := false

structure Item (ρ : Type*) where
  id : BitVec 16
  count : BitVec 8 := 1
  /-- `ITEM_ATTRIBUTE_WEIGHT`. -/
  weight : Option (BitVec 32) := none
  charges : Option (BitVec 16) := none
  fluidType : Option (BitVec 16) := none
  parent : Option ρ := none
  isContainer : Bool := false
  itemlist : List ρ := []
  maxSize : BitVec 32 := 0
  totalWeight : BitVec 32 := 0
  ammoCount : Nat := 0

abbrev Heap (ρ : Type*) := ρ → Item ρ

variable {ρ : Type*} (items : BitVec 16 → ItemType)

namespace Item

variable (item : Item ρ)

def getItemCount : Nat := item.count.toNat

def isStackable : Bool := (items item.id).stackable

def isAmmunition : Bool := (items item.id).ammunition

def getBaseWeight : BitVec 32 := item.weight.getD (items item.id).weight

/-- `Item::getWeight`. -/
def getItemWeight : BitVec 32 :=
  if item.isStackable items then item.getBaseWeight items * BitVec.ofNat 32 (max 1 item.getItemCount)
  else item.getBaseWeight items

/-- `Container::getWeight` for a container. -/
def getWeight : BitVec 32 :=
  if item.isContainer then item.getItemWeight items + item.totalWeight else item.getItemWeight items

def capacity : BitVec 32 := item.maxSize

def setID (newid : BitVec 16) : Item ρ := { item with id := newid }

def setItemCount (n : BitVec 8) : Item ρ := { item with count := n }

def setSubType (n : BitVec 16) : Item ρ :=
  let it := items item.id
  if it.fluidContainer || it.splash then { item with fluidType := some n }
  else if it.stackable then item.setItemCount (n.setWidth 8)
  else if it.charges ≠ 0 then { item with charges := some n }
  else item.setItemCount (n.setWidth 8)

end Item

/-! ## The calls -/

variable [DecidableEq ρ]

def modify (h : Heap ρ) (r : ρ) (f : Item ρ → Item ρ) : Heap ρ := update h r (f (h r))

def setParent (h : Heap ρ) (r : ρ) (cylinder : Option ρ) : Heap ρ := modify h r ({ · with parent := cylinder })

def setItemlist (h : Heap ρ) (c : ρ) (l : List ρ) : Heap ρ := modify h c ({ · with itemlist := l })

/-- `ammoCount` after a difference of ammunition or of anything else. -/
def countAmmo (ammunition : Bool) (ammoCount : Nat) (diff : Int) : Nat :=
  if !ammunition || diff == 0 then ammoCount
  else if 0 < diff then (ammoCount + diff.toNat) % 2 ^ 32
  else ammoCount - min ammoCount (-diff).toNat

def updateAmmoCount (h : Heap ρ) (c item : ρ) (diff : Int) : Heap ρ :=
  modify h c fun o => { o with ammoCount := countAmmo ((h item).isAmmunition items) o.ammoCount diff }

def updateItemWeight : Nat → Heap ρ → ρ → BitVec 32 → Option (Heap ρ)
  | 0, _, _, _ => none
  | n + 1, h, c, diff =>
    let h := modify h c fun o => { o with totalWeight := o.totalWeight + diff }
    match (h c).parent with
    | none => some h
    | some parent => if (h parent).isContainer then updateItemWeight n h parent diff else some h

variable (n : Nat) (h : Heap ρ) (c : ρ)

def internalAddThing (item : ρ) : Option (Heap ρ) :=
  let h := setParent h item (some c)
  let h := setItemlist h c (item :: (h c).itemlist)
  let h := updateAmmoCount items h c item (h item).getItemCount
  updateItemWeight n h c ((h item).getWeight items)

def addThing (index : Int) (item : ρ) : Option (Heap ρ) :=
  if (h c).capacity.toInt ≤ index then some h else internalAddThing items n h c item

def addItem (item : ρ) : Heap ρ :=
  let h := setItemlist h c ((h c).itemlist ++ [item])
  let h := setParent h item (some c)
  updateAmmoCount items h c item (h item).getItemCount

def addItemBack (item : ρ) : Option (Heap ρ) :=
  let h := addItem items h c item
  updateItemWeight n h c ((h item).getWeight items)

def updateThing (item : ρ) (itemId : BitVec 16) (count : BitVec 32) : Option (Heap ρ) :=
  if item ∉ (h c).itemlist then some h
  else
    let oldWeight := (h item).getWeight items
    let h := updateAmmoCount items h c item (-(h item).getItemCount)
    let h := modify h item (·.setID itemId)
    let h := modify h item (·.setSubType items (count.setWidth 16))
    let h := updateAmmoCount items h c item (h item).getItemCount
    updateItemWeight n h c (-oldWeight + (h item).getWeight items)

def replaceThing (index : Nat) (item : ρ) : Option (Heap ρ) := do
  match (h c).itemlist[index]? with
  | none => some h
  | some replacedItem =>
    let h := setItemlist h c ((h c).itemlist.set index item)
    let h := setParent h item (some c)
    let h ← updateItemWeight n h c (-(h replacedItem).getWeight items + (h item).getWeight items)
    let h := updateAmmoCount items h c replacedItem (-(h replacedItem).getItemCount)
    let h := updateAmmoCount items h c item (h item).getItemCount
    some (setParent h replacedItem none)

def removeThing (item : ρ) (count : BitVec 32) : Option (Heap ρ) := do
  if item ∉ (h c).itemlist then some h
  else if (h item).isStackable items ∧ count.toNat ≠ (h item).getItemCount then
    let newCount := BitVec.ofInt 8 (max 0 ((h item).count.setWidth 32 - count).toInt)
    let oldWeight := (h item).getWeight items
    let h := updateAmmoCount items h c item (-((h item).getItemCount - newCount.toNat))
    let h := modify h item (·.setItemCount newCount)
    updateItemWeight n h c (-oldWeight + (h item).getWeight items)
  else
    let h ← updateItemWeight n h c (-(h item).getWeight items)
    let h := updateAmmoCount items h c item (-(h item).getItemCount)
    let h := setParent h item none
    some (setItemlist h c ((h c).itemlist.erase item))

inductive Call (ρ : Type*)
  | addThing (c : ρ) (index : Int) (item : ρ)
  | addItemBack (c item : ρ)
  | internalAddThing (c item : ρ)
  | updateThing (c item : ρ) (itemId : BitVec 16) (count : BitVec 32)
  | replaceThing (c : ρ) (index : Nat) (item : ρ)
  | removeThing (c item : ρ) (count : BitVec 32)

def call : Call ρ → Option (Heap ρ)
  | .addThing c index item => addThing items n h c index item
  | .addItemBack c item => addItemBack items n h c item
  | .internalAddThing c item => internalAddThing items n h c item
  | .updateThing c item itemId count => updateThing items n h c item itemId count
  | .replaceThing c index item => replaceThing items n h c index item
  | .removeThing c item count => removeThing items n h c item count

def run : Heap ρ → List (Call ρ) → Option (List (Heap ρ))
  | h, [] => some [h]
  | h, e :: es => do
    let h' ← call items n h e
    let states ← run h' es
    some (h :: states)

/-! ## What the counters should say -/

def parentOf : ρ → Option ρ := fun x => (h x).parent

def contents : ρ → List ρ := fun x => (h x).itemlist

structure Tree (h : Heap ρ) : Prop where
  grove : Grove (parentOf h) (contents h)
  holds : ∀ x c, (h x).parent = some c → (h c).isContainer = true

def contentWeight : BitVec 32 := ((contents h c).map fun x => (h x).getWeight items).sum

namespace Item

def ammunition (item : Item ρ) : Nat := if item.isAmmunition items then item.getItemCount else 0

end Item

def contentAmmo : Nat := ((contents h c).map fun x => (h x).ammunition items).sum

def WeightRight (h : Heap ρ) : Prop := ∀ c, (h c).isContainer = true → (h c).totalWeight = contentWeight items h c

def AmmoRight (h : Heap ρ) (c : ρ) : Prop := (h c).ammoCount = contentAmmo items h c

/-- The call is made on a container, and what it puts in is in no container and does not hold
    that container. -/
def Call.Fits (h : Heap ρ) : Call ρ → Prop
  | .addThing c _ item | .addItemBack c item | .internalAddThing c item | .replaceThing c _ item =>
    (h c).isContainer = true ∧ (h item).parent = none ∧ ¬ Above (parentOf h) c item
  | .updateThing c _ _ _ | .removeThing c _ _ => (h c).isContainer = true

def Fits (n : Nat) : Heap ρ → List (Call ρ) → Prop
  | _, [] => True
  | h, e :: es => e.Fits h ∧ ∀ h', call items n h e = some h' → Fits n h' es

/-! ## The weight passed up -/

/-- From some bound on, the calls end, and with `x`. -/
def Settles {α : Type*} (f : Nat → Option α) (x : α) : Prop := ∃ N, ∀ n ≥ N, f n = some x

/-- `d` more on `c` and every container above it. -/
noncomputable def raised (d : BitVec 32) : Heap ρ :=
  fun x => { h x with totalWeight := (h x).totalWeight + raise (parentOf h) c d x }

variable {items n h c} {d : BitVec 32} {r x : ρ}

@[simp] theorem modify_self (f : Item ρ → Item ρ) : modify h r f r = f (h r) := update_self ..

theorem modify_of_ne (f : Item ρ → Item ρ) (hx : x ≠ r) : modify h r f x = h x := update_of_ne hx ..

theorem modify_apply (f : Item ρ → Item ρ) : modify h r f x = if x = r then f (h r) else h x := update_apply ..

theorem modify_field {α : Type*} (g : Item ρ → α) {f : Item ρ → Item ρ} (hf : ∀ o, g (f o) = g o) :
    g (modify h r f x) = g (h x) := by
  rw [modify_apply]
  grind

theorem updateItemWeight_settles (hroot : Rooted (parentOf h))
    (hholds : ∀ x c, (h x).parent = some c → (h c).isContainer = true) (c : ρ) (d : BitVec 32) :
    Settles (fun n => updateItemWeight n h c d) (raised h c d) := by
  suffices ∀ h' : Heap ρ, parentOf h' = parentOf h → (∀ x, (h' x).isContainer = (h x).isContainer) →
      Settles (fun n => updateItemWeight n h' c d) (raised h' c d) from this h rfl fun _ => rfl
  induction c using hroot.induction with
  | h c ih =>
    intro h' hparent hcontainer
    let add : Item ρ → Item ρ := fun o => { o with totalWeight := o.totalWeight + d }
    have hself : parentOf (modify h' c add) = parentOf h' := funext fun x => modify_field Item.parent fun _ => rfl
    have hsame : ∀ x, (modify h' c add x).isContainer = (h' x).isContainer := fun x =>
      modify_field Item.isContainer fun _ => rfl
    cases hp : parentOf h' c with
    | none =>
      refine ⟨1, fun n hn => ?_⟩
      obtain ⟨n, rfl⟩ : ∃ m, n = m + 1 := ⟨n - 1, by omega⟩
      have hnone : (modify h' c add c).parent = none := (congrFun hself c).trans hp
      show (match (modify h' c add c).parent with | none => _ | some _ => _) = _
      rw [hnone]
      refine congrArg some (funext fun x => ?_)
      by_cases hx : x = c
      · rw [hx, modify_self, raised, raise_above .refl]
      · rw [modify_of_ne _ hx, raised, raise_aside (mt (above_none hp).mp hx), add_zero]
    | some p =>
      obtain ⟨N, hN⟩ := ih p ((congrFun hparent c).symm.trans hp) (modify h' c add) (hself.trans hparent)
        fun x => (hsame x).trans (hcontainer x)
      refine ⟨N + 1, fun n hn => ?_⟩
      obtain ⟨n, rfl⟩ : ∃ m, n = m + 1 := ⟨n - 1, by omega⟩
      have hsome : (modify h' c add c).parent = some p := (congrFun hself c).trans hp
      have hpc : (modify h' c add p).isContainer = true := by
        rw [hsame, hcontainer]
        exact hholds c p ((congrFun hparent c).symm.trans hp)
      show (match (modify h' c add c).parent with | none => _ | some _ => _) = _
      rw [hsome]
      show (if _ then _ else _) = _
      rw [if_pos hpc]
      refine (hN n (by omega)).trans (congrArg some (funext fun x => ?_))
      have hnot : ¬ Above (parentOf h') p c := Rooted.not_above (hparent ▸ hroot) hp
      rw [raised, raised, hself]
      by_cases hx : x = c
      · rw [hx, modify_self, raise_aside hnot, raise_above .refl, add_zero]
      · rw [modify_of_ne _ hx, raise_congr d ((above_some hp).trans (or_iff_right hx))]

/-! ## What a call leaves -/

/-- The items are now `core`, the pointers `P`, the items in `c` `l` and its ammunition `a`, and
    `d` is passed up from `c`. -/
noncomputable def after (h : Heap ρ) (c : ρ) (core : Heap ρ) (P : ρ → Option ρ) (l : List ρ) (a : Nat)
    (d : BitVec 32) : Heap ρ := fun x =>
  { core x with
    parent := P x
    itemlist := update (contents h) c l x
    ammoCount := update (fun x => (h x).ammoCount) c a x
    totalWeight := (h x).totalWeight + raise (parentOf h) c d x }

/-- Such a change is sound: only what lies in `c` is another than it was, and both numbers are
    what `c` then holds. -/
structure Sound (items : BitVec 16 → ItemType) (h : Heap ρ) (c : ρ) (core : Heap ρ) (P : ρ → Option ρ) (l : List ρ)
    (a : Nat) (d : BitVec 32) : Prop where
  container : (h c).isContainer = true
  keeps : ∀ x, (core x).isContainer = (h x).isContainer ∧ (core x).totalWeight = (h x).totalWeight
  elsewhere : ∀ x, x ∉ (h c).itemlist → core x = h x
  grove : Grove P (update (contents h) c l)
  holds : ∀ x p, P x = some p → (h p).isContainer = true
  aside : ∀ x ∈ l, ¬ Above (parentOf h) c x
  weight : (l.map fun x => (core x).getWeight items).sum = contentWeight items h c + d
  ammo : AmmoRight items h c → (l.map fun x => (core x).ammunition items).sum < 2 ^ 32 →
    a = (l.map fun x => (core x).ammunition items).sum

structure Keeps (items : BitVec 16 → ItemType) (h h' : Heap ρ) : Prop where
  tree : Tree h'
  weight : WeightRight items h → WeightRight items h'
  ammo : ∀ c, AmmoRight items h c → contentAmmo items h' c < 2 ^ 32 → AmmoRight items h' c

variable {core : Heap ρ} {P : ρ → Option ρ} {l : List ρ} {a : Nat}

omit [DecidableEq ρ] in
theorem Tree.container_above (ht : Tree h) (hc : (h c).isContainer = true) (hx : Above (parentOf h) c x) :
    (h x).isContainer = true := by
  cases Relation.ReflTransGen.cases_tail hx with
  | inl he => exact he ▸ hc
  | inr hy =>
    obtain ⟨y, _, hyx⟩ := hy
    exact ht.holds y x hyx

omit [DecidableEq ρ] in
theorem Tree.not_mem (ht : Tree h) {y : ρ} (hx : x ≠ c) (hy : y ∈ (h x).itemlist) : y ∉ (h c).itemlist := by
  intro hyc
  have hyx := (ht.grove.mem_iff x y).mp hy
  have hyc' := (ht.grove.mem_iff c y).mp hyc
  exact hx (Option.some.inj (hyx.symm.trans hyc'))

theorem after_getWeight (ht : Tree h) (hs : Sound items h c core P l a d) :
    (after h c core P l a d x).getWeight items = (core x).getWeight items + raise (parentOf h) c d x := by
  obtain ⟨hcontainer, htotal⟩ := hs.keeps x
  have hitem : (after h c core P l a d x).getItemWeight items = (core x).getItemWeight items := rfl
  have hafter : (after h c core P l a d x).isContainer = (core x).isContainer := rfl
  unfold Item.getWeight
  rw [hitem, hafter]
  by_cases hx : (core x).isContainer = true
  · rw [if_pos hx, if_pos hx, htotal, add_assoc]
    rfl
  · have haside : ¬ Above (parentOf h) c x := fun hab =>
      hx (hcontainer.trans (ht.container_above hs.container hab))
    rw [if_neg hx, if_neg hx, raise_aside haside, add_zero]

theorem Sound.keepsAll (ht : Tree h) (hs : Sound items h c core P l a d) : Keeps items h (after h c core P l a d) := by
  have hcontainer : ∀ x, (after h c core P l a d x).isContainer = (h x).isContainer := fun x => (hs.keeps x).1
  refine ⟨⟨hs.grove, fun x p hp => (hcontainer p).trans (hs.holds x p hp)⟩, fun hw x hx => ?_, fun x hx hbound => ?_⟩
  · have hx' : (h x).isContainer = true := (hcontainer x).symm.trans hx
    show (h x).totalWeight + raise (parentOf h) c d x = ((update (contents h) c l x).map _).sum
    simp only [after_getWeight ht hs]
    by_cases he : x = c
    · subst he
      have hl : (l.map fun y => (core y).getWeight items + raise (parentOf h) x d y) =
          l.map fun y => (core y).getWeight items := by
        refine map_congr_left fun y hy => ?_
        rw [raise_aside (hs.aside y hy), add_zero]
      rw [update_self, hl, hs.weight, raise_above .refl, hw x hx']
    · have hl : ((contents h x).map fun y => (core y).getWeight items + raise (parentOf h) c d y) =
          (contents h x).map fun y => (h y).getWeight items + raise (parentOf h) c d y := by
        refine map_congr_left fun y hy => ?_
        rw [hs.elsewhere y (ht.not_mem he hy)]
      rw [update_of_ne he, hl, sum_raised ht.grove, if_neg he, hw x hx', contentWeight]
  · by_cases he : x = c
    · subst he
      have hcontent : contentAmmo items (after h x core P l a d) x = (l.map fun y => (core y).ammunition items).sum := by
        show ((update (contents h) x l x).map _).sum = _
        rw [update_self]
        rfl
      rw [hcontent] at hbound
      show update (fun y => (h y).ammoCount) x a x = _
      rw [update_self, hcontent]
      exact hs.ammo hx hbound
    · have hcontent : contentAmmo items (after h c core P l a d) x = contentAmmo items h x := by
        show ((update (contents h) c l x).map _).sum = _
        rw [update_of_ne he]
        refine congrArg List.sum (map_congr_left fun y hy => ?_)
        show (core y).ammunition items = _
        rw [hs.elsewhere y (ht.not_mem he hy)]
      show update (fun y => (h y).ammoCount) c a x = _
      rw [update_of_ne he, hcontent]
      exact hx

/-! ## The calls one by one -/

theorem countAmmo_eq {diff : Int} (h0 : 0 ≤ a + diff) (hlt : a + diff < 2 ^ 32) :
    (countAmmo true a diff : Int) = a + diff := by
  unfold countAmmo
  by_cases hz : diff = 0
  · simp [hz]
  by_cases hpos : 0 < diff
  · have hmod : (a + diff.toNat) % 2 ^ 32 = a + diff.toNat := Nat.mod_eq_of_lt (by omega)
    simp only [Bool.not_true, Bool.false_or, beq_iff_eq, if_neg hz, if_pos hpos, hmod]
    omega
  · simp only [Bool.not_true, Bool.false_or, beq_iff_eq, if_neg hz, if_neg hpos]
    omega

omit [DecidableEq ρ] in
/-- From `item` to `item'`, which is ammunition where `item` is. -/
theorem countAmmo_change {item item' : Item ρ} (hid : item'.id = item.id) (ha : item.ammunition items ≤ a)
    (hlt : a - item.ammunition items + item'.ammunition items < 2 ^ 32) :
    countAmmo (item.isAmmunition items) a (-(item.getItemCount - item'.getItemCount)) =
      a - item.ammunition items + item'.ammunition items := by
  have hkind : item'.isAmmunition items = item.isAmmunition items := by rw [Item.isAmmunition, Item.isAmmunition, hid]
  unfold Item.ammunition at ha hlt ⊢
  rw [hkind] at hlt ⊢
  cases hb : item.isAmmunition items with
  | false => simp [countAmmo]
  | true =>
    simp only [hb, if_true] at ha hlt ⊢
    have heq := @countAmmo_eq a (-(item.getItemCount - item'.getItemCount)) (by omega) (by omega)
    omega

omit [DecidableEq ρ] in
theorem countAmmo_add {item : Item ρ} (hlt : a + item.ammunition items < 2 ^ 32) :
    countAmmo (item.isAmmunition items) a item.getItemCount = a + item.ammunition items := by
  unfold Item.ammunition at hlt ⊢
  cases hb : item.isAmmunition items with
  | false => simp [countAmmo]
  | true =>
    simp only [hb, if_true] at hlt ⊢
    have heq := @countAmmo_eq a item.getItemCount (by omega) (by omega)
    omega

omit [DecidableEq ρ] in
theorem countAmmo_sub {item : Item ρ} :
    countAmmo (item.isAmmunition items) a (-item.getItemCount) = a - item.ammunition items := by
  unfold countAmmo Item.ammunition
  cases item.isAmmunition items with
  | false => simp
  | true =>
    by_cases hz : item.getItemCount = 0
    · simp [hz]
    have hneg : ¬ (0 : Int) < -item.getItemCount := by omega
    have hne : ¬ (-(item.getItemCount : Int)) = 0 := by omega
    simp only [Bool.not_true, Bool.false_or, beq_iff_eq, if_neg hne, if_neg hneg, neg_neg, Int.toNat_natCast, if_true]
    omega

omit [DecidableEq ρ] in
theorem Settles.map {α β : Type*} {f : Nat → Option α} {y : α} (hf : Settles f y) (g : α → β) :
    Settles (fun n => (f n).bind fun z => some (g z)) (g y) := by
  obtain ⟨N, hN⟩ := hf
  refine ⟨N, fun n hn => ?_⟩
  show (f n).bind _ = _
  rw [hN n hn]
  rfl

/-- `r` put into `c`, whose list becomes `l`. -/
def linked (items : BitVec 16 → ItemType) (h : Heap ρ) (c r : ρ) (l : List ρ) : Heap ρ :=
  modify (modify h r ({ · with parent := some c })) c fun o =>
    { o with itemlist := l, ammoCount := countAmmo ((h r).isAmmunition items) o.ammoCount (h r).getItemCount }

theorem linked_settles (ht : Tree h) (hc : (h c).isContainer = true) (hloose : (h r).parent = none)
    (hr : ¬ Above (parentOf h) c r) (hl : l.Perm (r :: (h c).itemlist)) :
    ∃ h', Settles (fun n => updateItemWeight n (linked items h c r l) c ((h r).getWeight items)) h' ∧
      Keeps items h h' := by
  have hne : c ≠ r := fun he => hr (he ▸ .refl)
  have hgrove := ht.grove.link hloose hr hl
  have hparent : parentOf (linked items h c r l) = update (parentOf h) r (some c) := by
    funext x
    by_cases hx : x = c
    · simp [parentOf, linked, modify_apply, hx, hne]
    · by_cases hxr : x = r <;> simp [parentOf, linked, modify_apply, hx, hxr, Ne.symm hne]
  have hcontainer : ∀ x, (linked items h c r l x).isContainer = (h x).isContainer := by
    intro x
    unfold linked
    rw [modify_field Item.isContainer, modify_field Item.isContainer] <;> exact fun _ => rfl
  have hholds : ∀ x p, update (parentOf h) r (some c) x = some p → (h p).isContainer = true := by
    intro x p hp
    by_cases hx : x = r
    · rw [hx, update_self] at hp
      exact Option.some.inj hp ▸ hc
    · rw [update_of_ne hx] at hp
      exact ht.holds x p hp
  have hsettles := updateItemWeight_settles (h := linked items h c r l) (hparent ▸ hgrove.rooted)
    (fun x p hp => (hcontainer p).trans (hholds x p ((congrFun hparent x).symm.trans hp))) c ((h r).getWeight items)
  have hafter : raised (linked items h c r l) c ((h r).getWeight items) =
      after h c h (update (parentOf h) r (some c)) l
        (countAmmo ((h r).isAmmunition items) (h c).ammoCount (h r).getItemCount) ((h r).getWeight items) := by
    funext x
    have hraise := raise_congr (x := x) ((h r).getWeight items) (above_update (v := some c) (x := x) hr)
    rw [raised, hparent, hraise, after]
    by_cases hx : x = c
    · simp [linked, hx, modify_apply, hne, parentOf]
    · by_cases hxr : x = r <;> simp [linked, hx, hxr, modify_apply, parentOf, contents, Ne.symm hne]
  rw [hafter] at hsettles
  refine ⟨_, hsettles, Sound.keepsAll ht ?_⟩
  have hmem : ∀ x ∈ l, x = r ∨ x ∈ (h c).itemlist := fun x hx => mem_cons.mp (hl.mem_iff.mp hx)
  refine ⟨hc, fun _ => ⟨rfl, rfl⟩, fun _ _ => rfl, hgrove, hholds, fun x hx => ?_, ?_, fun ha hlt => ?_⟩
  · cases hmem x hx with
    | inl he => exact he ▸ hr
    | inr hxc => exact ht.grove.rooted.not_above ((ht.grove.mem_iff c x).mp hxc)
  · rw [(hl.map _).sum_eq, map_cons, sum_cons, add_comm]
    rfl
  rw [(hl.map _).sum_eq, map_cons, sum_cons, Nat.add_comm] at hlt ⊢
  have hsum : (h c).ammoCount = ((h c).itemlist.map fun x => (h x).ammunition items).sum := ha
  rw [← hsum] at hlt ⊢
  exact countAmmo_add hlt

variable (items) in
theorem changed_settles (ht : Tree h) (hc : (h c).isContainer = true) (hr : r ∈ (h c).itemlist) {o : Item ρ}
    (ho : o = { h r with id := o.id, count := o.count, charges := o.charges, fluidType := o.fluidType })
    (ha : AmmoRight items h c → (h c).ammoCount - (h r).ammunition items + o.ammunition items < 2 ^ 32 →
      a = (h c).ammoCount - (h r).ammunition items + o.ammunition items) {h' : Heap ρ}
    (hh' : h' = modify (modify h r fun _ => o) c ({ · with ammoCount := a })) :
    ∃ h'', Settles (fun n => updateItemWeight n h' c (-(h r).getWeight items + (h' r).getWeight items)) h'' ∧
      Keeps items h h'' := by
  have hrc : (h r).parent = some c := (ht.grove.mem_iff c r).mp hr
  have haside := ht.grove.rooted.not_above hrc
  have hne : r ≠ c := fun he => haside (he ▸ .refl)
  have hparent : parentOf h' = parentOf h := by
    funext x
    show (h' x).parent = (h x).parent
    rw [hh', modify_field Item.parent]
    · by_cases hx : x = r
      · rw [hx, modify_self, ho]
      · rw [modify_of_ne _ hx]
    · exact fun _ => rfl
  have hweight : (h' r).getWeight items = o.getWeight items := by rw [hh', modify_of_ne _ hne, modify_self]
  rw [hweight]
  have hkeeps : ∀ x, (modify h r (fun _ => o) x).isContainer = (h x).isContainer ∧
      (modify h r (fun _ => o) x).totalWeight = (h x).totalWeight := by
    intro x
    by_cases hx : x = r
    · rw [hx, modify_self, ho]
      exact ⟨rfl, rfl⟩
    · rw [modify_of_ne _ hx]
      exact ⟨rfl, rfl⟩
  have hcontainer : ∀ x, (h' x).isContainer = (h x).isContainer := by
    intro x
    rw [hh', modify_field Item.isContainer]
    · exact (hkeeps x).1
    · exact fun _ => rfl
  have hsettles := updateItemWeight_settles (h := h') (hparent ▸ ht.grove.rooted)
    (fun x p hp => (hcontainer p).trans (ht.holds x p ((congrFun hparent x).symm.trans hp))) c
    (-(h r).getWeight items + o.getWeight items)
  have hafter : raised h' c (-(h r).getWeight items + o.getWeight items) =
      after h c (modify h r fun _ => o) (parentOf h) (h c).itemlist a
        (-(h r).getWeight items + o.getWeight items) := by
    funext x
    rw [raised, hparent, hh', after]
    by_cases hx : x = c
    · simp [hx, modify_apply, Ne.symm hne, parentOf]
    by_cases hxr : x = r
    · rw [hxr, modify_of_ne _ hne, modify_self, ho]
      simp [hne, parentOf, contents]
    · simp [hx, hxr, modify_apply, parentOf, contents]
  rw [hafter] at hsettles
  refine ⟨_, hsettles, Sound.keepsAll ht ?_⟩
  -- the rest of the list is as it was
  have hnodup : (h c).itemlist.Nodup := ht.grove.nodup c
  have hperm : (h c).itemlist.Perm (r :: (h c).itemlist.erase r) := perm_cons_erase hr
  have hrest : ∀ x ∈ (h c).itemlist.erase r, modify h r (fun _ => o) x = h x := by
    intro x hx
    exact modify_of_ne _ fun he => hnodup.not_mem_erase (he ▸ hx)
  have hsame : ∀ {M : Type} (g : Item ρ → M), ((h c).itemlist.erase r).map (fun x => g (modify h r (fun _ => o) x)) =
      ((h c).itemlist.erase r).map fun x => g (h x) := by
    intro M g
    exact map_congr_left fun x hx => by rw [hrest x hx]
  refine ⟨hc, hkeeps, fun x hx => ?_, ?_, ht.holds, fun x hx => ?_, ?_, fun hright hlt => ?_⟩
  · exact modify_of_ne _ fun he => hx (he ▸ hr)
  · have hself : update (contents h) c (h c).itemlist = contents h := update_eq_self c (contents h)
    rw [hself]
    exact ht.grove
  · exact ht.grove.rooted.not_above ((ht.grove.mem_iff c x).mp hx)
  · have hold : contentWeight items h c =
        (h r).getWeight items + (((h c).itemlist.erase r).map fun x => (h x).getWeight items).sum := by
      show ((h c).itemlist.map _).sum = _
      rw [(hperm.map _).sum_eq, map_cons, sum_cons]
    rw [(hperm.map _).sum_eq, map_cons, sum_cons, modify_self, hsame (Item.getWeight items), hold]
    ring
  · have hold : (h c).ammoCount =
        (h r).ammunition items + (((h c).itemlist.erase r).map fun x => (h x).ammunition items).sum := by
      rw [hright]
      show ((h c).itemlist.map _).sum = _
      rw [(hperm.map _).sum_eq, map_cons, sum_cons]
    rw [(hperm.map _).sum_eq, map_cons, sum_cons, modify_self, hsame (Item.ammunition items)] at hlt ⊢
    rw [ha hright (by omega)]
    omega

theorem linked_getWeight (hne : r ≠ c) : (linked items h c r l r).getWeight items = (h r).getWeight items := by
  unfold linked
  rw [modify_of_ne _ hne, modify_self]
  rfl

theorem internalAddThing_eq (hne : r ≠ c) : internalAddThing items n h c r =
    updateItemWeight n (linked items h c r (r :: (h c).itemlist)) c ((h r).getWeight items) := by
  let g := setParent h r (some c)
  have hstate : updateAmmoCount items (setItemlist g c (r :: (g c).itemlist)) c r
      (setItemlist g c (r :: (g c).itemlist) r).getItemCount = linked items h c r (r :: (h c).itemlist) := by
    funext x
    simp only [g, updateAmmoCount, setItemlist, setParent, linked, modify_apply, if_neg hne, if_neg hne.symm, if_true]
    by_cases hx : x = c
    · simp only [if_pos hx]
      rfl
    · simp only [if_neg hx]
  show updateItemWeight n _ c ((updateAmmoCount items _ c r _ r).getWeight items) = _
  rw [hstate, linked_getWeight hne]

variable (items) in
theorem internalAddThing_settles (ht : Tree h) (hc : (h c).isContainer = true) (hloose : (h r).parent = none)
    (hr : ¬ Above (parentOf h) c r) : ∃ h', Settles (fun n => internalAddThing items n h c r) h' ∧ Keeps items h h' := by
  have hne : r ≠ c := fun he => hr (he ▸ .refl)
  simp only [internalAddThing_eq hne]
  exact linked_settles ht hc hloose hr (List.Perm.refl (r :: (h c).itemlist))

theorem addItemBack_settles (ht : Tree h) (hc : (h c).isContainer = true) (hloose : (h r).parent = none)
    (hr : ¬ Above (parentOf h) c r) : ∃ h', Settles (fun n => addItemBack items n h c r) h' ∧ Keeps items h h' := by
  have hne : r ≠ c := fun he => hr (he ▸ .refl)
  have hl : ((h c).itemlist ++ [r]).Perm (r :: (h c).itemlist) := perm_append_singleton ..
  have hstate : addItem items h c r = linked items h c r ((h c).itemlist ++ [r]) := by
    funext x
    simp only [addItem, updateAmmoCount, setItemlist, setParent, linked, modify_apply, if_neg hne, if_neg hne.symm,
      if_true]
    by_cases hx : x = c
    · simp only [if_pos hx]
      rfl
    · simp only [if_neg hx]
  unfold addItemBack
  simp only [hstate, linked_getWeight hne]
  exact linked_settles ht hc hloose hr hl

theorem updateThing_settles (ht : Tree h) (hc : (h c).isContainer = true) (itemId : BitVec 16) (count : BitVec 32) :
    ∃ h', Settles (fun n => updateThing items n h c r itemId count) h' ∧ Keeps items h h' := by
  by_cases hr : r ∈ (h c).itemlist
  · have hne : r ≠ c := fun he => ht.grove.rooted.not_above ((ht.grove.mem_iff c r).mp hr) (he ▸ .refl)
    let o := ((h r).setID itemId).setSubType items (count.setWidth 16)
    have ho : o = { h r with id := o.id, count := o.count, charges := o.charges, fluidType := o.fluidType } := by
      simp only [o, Item.setSubType]
      split_ifs <;> rfl
    let a := countAmmo (o.isAmmunition items)
      (countAmmo ((h r).isAmmunition items) (h c).ammoCount (-(h r).getItemCount)) o.getItemCount
    have ha : AmmoRight items h c → (h c).ammoCount - (h r).ammunition items + o.ammunition items < 2 ^ 32 →
        a = (h c).ammoCount - (h r).ammunition items + o.ammunition items := by
      intro _ hlt
      show countAmmo _ (countAmmo _ _ _) _ = _
      rw [countAmmo_sub, countAmmo_add hlt]
    obtain ⟨h', hsettles, hkeeps⟩ := changed_settles items ht hc hr ho ha rfl
    let g := updateAmmoCount items h c r (-(h r).getItemCount)
    let g' := modify (modify g r (·.setID itemId)) r (·.setSubType items (count.setWidth 16))
    have hgr : g r = h r := modify_of_ne _ hne
    have hgr' : g' r = o := by
      show modify (modify g r _) r _ r = o
      rw [modify_self, modify_self, hgr]
    have hgx : ∀ x, x ≠ r → g' x = g x := by
      intro x hx
      show modify (modify g r _) r _ x = g x
      rw [modify_of_ne _ hx, modify_of_ne _ hx]
    have hstate : updateAmmoCount items g' c r (g' r).getItemCount =
        modify (modify h r fun _ => o) c ({ · with ammoCount := a }) := by
      funext x
      rw [updateAmmoCount, hgr']
      by_cases hx : x = c
      · rw [hx, modify_self, modify_self, modify_of_ne _ hne.symm, hgx c hne.symm]
        simp only [g, updateAmmoCount, modify_self, a]
      by_cases hxr : x = r
      · rw [hxr, modify_of_ne _ hne, modify_of_ne _ hne, hgr', modify_self]
      · rw [modify_of_ne _ hx, modify_of_ne _ hx, modify_of_ne _ hxr, hgx x hxr]
        exact modify_of_ne _ hx
    rw [← hstate] at hsettles
    refine ⟨h', ?_, hkeeps⟩
    obtain ⟨N, hN⟩ := hsettles
    exact ⟨N, fun n hn => (if_neg (not_not_intro hr)).trans (hN n hn)⟩
  · exact ⟨h, ⟨0, fun n _ => if_pos hr⟩, ht, id, fun _ ha _ => ha⟩

omit [DecidableEq ρ] in
theorem ammunition_le (ha : AmmoRight items h c) (hr : r ∈ (h c).itemlist) : (h r).ammunition items ≤ (h c).ammoCount := by
  rw [ha]
  exact le_sum_of_mem (mem_map_of_mem hr)

theorem removeThing_settles (ht : Tree h) (hc : (h c).isContainer = true) (count : BitVec 32) :
    ∃ h', Settles (fun n => removeThing items n h c r count) h' ∧ Keeps items h h' := by
  by_cases hr : r ∈ (h c).itemlist
  case neg => exact ⟨h, ⟨0, fun n _ => if_pos hr⟩, ht, id, fun _ ha _ => ha⟩
  have hrc : (h r).parent = some c := (ht.grove.mem_iff c r).mp hr
  have haside := ht.grove.rooted.not_above hrc
  have hne : r ≠ c := fun he => haside (he ▸ .refl)
  by_cases hpart : (h r).isStackable items = true ∧ count.toNat ≠ (h r).getItemCount
  · -- some of the stack
    let newCount := BitVec.ofInt 8 (max 0 ((h r).count.setWidth 32 - count).toInt)
    let o := (h r).setItemCount newCount
    let a := countAmmo ((h r).isAmmunition items) (h c).ammoCount (-((h r).getItemCount - newCount.toNat))
    have ha : AmmoRight items h c → (h c).ammoCount - (h r).ammunition items + o.ammunition items < 2 ^ 32 →
        a = (h c).ammoCount - (h r).ammunition items + o.ammunition items := by
      intro hright hlt
      have hid : o.id = (h r).id := rfl
      have hchange := countAmmo_change hid (ammunition_le hright hr) hlt
      exact hchange
    obtain ⟨h', hsettles, hkeeps⟩ := changed_settles items ht hc hr (o := o) rfl ha rfl
    refine ⟨h', ?_, hkeeps⟩
    have hstate : modify (updateAmmoCount items h c r (-((h r).getItemCount - newCount.toNat))) r
        (·.setItemCount newCount) = modify (modify h r fun _ => o) c ({ · with ammoCount := a }) := by
      funext x
      unfold updateAmmoCount
      by_cases hx : x = c
      · rw [hx, modify_of_ne _ hne.symm, modify_self, modify_self, modify_of_ne _ hne.symm]
      · by_cases hxr : x = r
        · rw [hxr, modify_self, modify_of_ne _ hne, modify_of_ne _ hne, modify_self]
        · rw [modify_of_ne _ hxr, modify_of_ne _ hx, modify_of_ne _ hx, modify_of_ne _ hxr]
    rw [← hstate] at hsettles
    obtain ⟨N, hN⟩ := hsettles
    exact ⟨N, fun n hn => (if_neg (not_not_intro hr)).trans ((if_pos hpart).trans (hN n hn))⟩
  · -- the item itself
    have hsettles := (updateItemWeight_settles ht.grove.rooted ht.holds c (-(h r).getWeight items)).map fun h =>
      let h := updateAmmoCount items h c r (-(h r).getItemCount)
      let h := setParent h r none
      setItemlist h c ((h c).itemlist.erase r)
    let a := countAmmo ((h r).isAmmunition items) (h c).ammoCount (-(h r).getItemCount)
    have hperm : (h c).itemlist.Perm (r :: (h c).itemlist.erase r) := perm_cons_erase hr
    refine ⟨after h c h (update (parentOf h) r none) ((h c).itemlist.erase r) a (-(h r).getWeight items), ?_,
      Sound.keepsAll ht ?_⟩
    · obtain ⟨N, hN⟩ := hsettles
      refine ⟨N, fun n hn => (if_neg (not_not_intro hr)).trans ((if_neg hpart).trans ((hN n hn).trans ?_))⟩
      refine congrArg some (funext fun x => ?_)
      simp only [updateAmmoCount, setItemlist, setParent, modify_apply, if_neg hne.symm, if_neg hne, if_true, after]
      by_cases hx : x = c
      · simp only [hx, if_true, if_neg hne.symm, raised, update_self, update_of_ne hne.symm]
        rfl
      by_cases hxr : x = r
      · simp only [hxr, if_true, if_neg hne, raised, update_self, update_of_ne hne]
        rfl
      · simp only [if_neg hx, if_neg hxr, raised, update_of_ne hx, update_of_ne hxr]
        rfl
    · refine ⟨hc, fun _ => ⟨rfl, rfl⟩, fun _ _ => rfl, ht.grove.unlink hperm, fun x p hp => ?_, fun x hx => ?_, ?_,
        fun hright _ => ?_⟩
      · by_cases hx : x = r
        · grind
        · rw [update_of_ne hx] at hp
          exact ht.holds x p hp
      · exact ht.grove.rooted.not_above ((ht.grove.mem_iff c x).mp (mem_of_mem_erase hx))
      · show _ = ((h c).itemlist.map _).sum + _
        rw [(hperm.map _).sum_eq, map_cons, sum_cons]
        ring
      · have hold : (h c).ammoCount = ((h c).itemlist.map fun x => (h x).ammunition items).sum := hright
        rw [(hperm.map _).sum_eq, map_cons, sum_cons] at hold
        show countAmmo _ _ _ = _
        rw [countAmmo_sub]
        omega

theorem replaceThing_settles (ht : Tree h) (hc : (h c).isContainer = true) (hloose : (h r).parent = none)
    (hr : ¬ Above (parentOf h) c r) (index : Nat) :
    ∃ h', Settles (fun n => replaceThing items n h c index r) h' ∧ Keeps items h h' := by
  by_cases hindex : index < (h c).itemlist.length
  case neg =>
    have hnone : (h c).itemlist[index]? = none := getElem?_eq_none (Nat.le_of_not_lt hindex)
    exact ⟨h, ⟨0, fun n _ => by unfold replaceThing; rw [hnone]⟩, ht, id, fun _ ha _ => ha⟩
  obtain ⟨old, hold⟩ : ∃ old, (h c).itemlist[index] = old := ⟨_, rfl⟩
  have hsome : (h c).itemlist[index]? = some old := by rw [getElem?_eq_getElem hindex, hold]
  have hmem : old ∈ (h c).itemlist := hold ▸ getElem_mem hindex
  have holdc : (h old).parent = some c := (ht.grove.mem_iff c old).mp hmem
  have haside := ht.grove.rooted.not_above holdc
  have hne : r ≠ c := fun he => hr (he ▸ .refl)
  have hno : old ≠ c := fun he => haside (he ▸ .refl)
  have hnr : old ≠ r := fun he => Option.some_ne_none c (holdc.symm.trans (he ▸ hloose))
  have hout : (h c).itemlist.Perm (old :: (h c).itemlist.eraseIdx index) :=
    hold ▸ (getElem_cons_eraseIdx_perm hindex).symm
  have hin : ((h c).itemlist.set index r).Perm (r :: (h c).itemlist.eraseIdx index) :=
    set_perm_cons_eraseIdx hindex r
  let l := (h c).itemlist.set index r
  let P := update (update (parentOf h) old none) r (some c)
  have hgrove : Grove P (update (contents h) c l) := by
    have hlink := (ht.grove.unlink hout).link (r := r) (c := c) (l := l) (by rw [update_of_ne hnr.symm]; exact hloose)
      (mt (above_update haside).mp hr) (by rw [update_self]; exact hin)
    rwa [update_idem] at hlink
  let g := setParent (setItemlist h c l) r (some c)
  have hparent : parentOf g = update (parentOf h) r (some c) := by
    funext x
    show (modify (modify h c _) r _ x).parent = _
    by_cases hx : x = r
    · rw [hx, modify_self, update_self]
    · rw [modify_of_ne _ hx, update_of_ne hx, modify_field Item.parent]
      · rfl
      · exact fun _ => rfl
  have hcontainer : ∀ x, (g x).isContainer = (h x).isContainer := by
    intro x
    show (modify (modify h c _) r _ x).isContainer = _
    rw [modify_field Item.isContainer, modify_field Item.isContainer] <;> exact fun _ => rfl
  have hholds : ∀ x p, update (parentOf h) r (some c) x = some p → (h p).isContainer = true := by
    intro x p hp
    by_cases hx : x = r
    · rw [hx, update_self] at hp
      exact Option.some.inj hp ▸ hc
    · rw [update_of_ne hx] at hp
      exact ht.holds x p hp
  have hgold : g old = h old := (modify_of_ne _ hnr).trans (modify_of_ne _ hno)
  have hgr : g r = { h r with parent := some c } := by
    show modify (modify h c _) r _ r = _
    rw [modify_self, modify_of_ne _ hne]
  have hgc : g c = { h c with itemlist := l } := by
    show modify (modify h c _) r _ c = _
    rw [modify_of_ne _ hne.symm, modify_self]
  let d := -(g old).getWeight items + (g r).getWeight items
  have hd : d = -(h old).getWeight items + (h r).getWeight items := by
    show -(g old).getWeight items + (g r).getWeight items = _
    rw [hgold, hgr]
    rfl
  have hsettles := (updateItemWeight_settles (h := g) (hparent ▸ ht.grove.rooted.link hr)
    (fun x p hp => (hcontainer p).trans (hholds x p ((congrFun hparent x).symm.trans hp))) c d).map fun h =>
      let h := updateAmmoCount items h c old (-(h old).getItemCount)
      let h := updateAmmoCount items h c r (h r).getItemCount
      setParent h old none
  let a := countAmmo ((h r).isAmmunition items)
    (countAmmo ((h old).isAmmunition items) (h c).ammoCount (-(h old).getItemCount)) (h r).getItemCount
  refine ⟨after h c h P l a d, ?_, Sound.keepsAll ht ?_⟩
  · obtain ⟨N, hN⟩ := hsettles
    refine ⟨N, fun n hn => ?_⟩
    have hcall : replaceThing items n h c index r = (updateItemWeight n g c d).bind fun h =>
        let h := updateAmmoCount items h c old (-(h old).getItemCount)
        let h := updateAmmoCount items h c r (h r).getItemCount
        some (setParent h old none) := by
      unfold replaceThing
      rw [hsome]
      rfl
    refine hcall.trans ((hN n hn).trans (congrArg some (funext fun x => ?_)))
    have hraise := raise_congr (x := x) d (above_update (v := some c) (x := x) hr)
    simp only [updateAmmoCount, setParent, modify_apply, if_neg hno, if_neg hne, if_true, after, P]
    by_cases hx : x = c
    · rw [hx] at hraise ⊢
      simp only [if_true, if_neg hno.symm, raised, hparent, hraise, hgc, hgr, hgold, update_self, update_of_ne hne.symm,
        update_of_ne hno.symm]
      rfl
    · by_cases hxr : x = r
      · rw [hxr] at hraise ⊢
        simp only [if_neg hne, if_neg hnr.symm, raised, hparent, hraise, hgr, update_self, update_of_ne hne]
        rfl
      by_cases hxo : x = old
      · rw [hxo] at hraise ⊢
        simp only [if_true, if_neg hno, raised, hparent, hraise, hgold, update_self, update_of_ne hnr, update_of_ne hno]
        rfl
      · have hgx : g x = h x := (modify_of_ne _ hxr).trans (modify_of_ne _ hx)
        simp only [if_neg hx, if_neg hxo, raised, hparent, hraise, hgx, update_of_ne hx, update_of_ne hxr,
          update_of_ne hxo]
        rfl
  · refine ⟨hc, fun _ => ⟨rfl, rfl⟩, fun _ _ => rfl, hgrove, fun x p hp => ?_, fun x hx => ?_, ?_, fun hright hlt => ?_⟩
    · by_cases hx : x = r
      · rw [show P x = some c by rw [hx]; exact update_self ..] at hp
        exact Option.some.inj hp ▸ hc
      · refine hholds x p ?_
        grind
    · cases mem_cons.mp (hin.mem_iff.mp hx) with
      | inl he => exact he ▸ hr
      | inr hrest =>
        exact ht.grove.rooted.not_above ((ht.grove.mem_iff c x).mp (mem_of_mem_eraseIdx hrest))
    · show _ = ((h c).itemlist.map _).sum + _
      rw [(hin.map _).sum_eq, (hout.map _).sum_eq, map_cons, map_cons, sum_cons, sum_cons, hd]
      ring
    · have hcount : (h c).ammoCount = ((h c).itemlist.map fun x => (h x).ammunition items).sum := hright
      rw [(hout.map _).sum_eq, map_cons, sum_cons] at hcount
      rw [(hin.map _).sum_eq, map_cons, sum_cons] at hlt ⊢
      show countAmmo _ (countAmmo _ _ _) _ = _
      rw [countAmmo_sub, countAmmo_add] <;> omega

/-! ## Runs -/

variable (items) in
theorem call_settles (ht : Tree h) {e : Call ρ} (he : e.Fits h) :
    ∃ h', Settles (fun n => call items n h e) h' ∧ Keeps items h h' := by
  cases e with
  | addThing c index item =>
    obtain ⟨hc, hloose, hr⟩ := he
    by_cases hfull : (h c).capacity.toInt ≤ index
    · exact ⟨h, ⟨0, fun n _ => if_pos hfull⟩, ht, id, fun _ ha _ => ha⟩
    · obtain ⟨h', ⟨N, hN⟩, hkeeps⟩ := internalAddThing_settles items ht hc hloose hr
      exact ⟨h', ⟨N, fun n hn => (if_neg hfull).trans (hN n hn)⟩, hkeeps⟩
  | addItemBack c item =>
    obtain ⟨hc, hloose, hr⟩ := he
    exact addItemBack_settles ht hc hloose hr
  | internalAddThing c item =>
    obtain ⟨hc, hloose, hr⟩ := he
    exact internalAddThing_settles items ht hc hloose hr
  | updateThing c item itemId count => exact updateThing_settles ht he itemId count
  | replaceThing c index item =>
    obtain ⟨hc, hloose, hr⟩ := he
    exact replaceThing_settles ht hc hloose hr index
  | removeThing c item count => exact removeThing_settles ht he count

/-- Where the counters of a tree are right at the start, every run of the calls ends; after each
    call the weights are right, and so is the ammunition of every container that never holds
    2 ^ 32 of it. -/
theorem counters_right (ht : Tree h) (hw : WeightRight items h) (es : List (Call ρ)) :
    ∃ N, ∀ n ≥ N, Fits items n h es → ∃ states, run items n h es = some states ∧
      (∀ s ∈ states, WeightRight items s) ∧
      ∀ c, AmmoRight items h c → (∀ s ∈ states, contentAmmo items s c < 2 ^ 32) →
        ∀ s ∈ states, AmmoRight items s c := by
  induction es generalizing h with
  | nil =>
    refine ⟨0, fun n _ _ => ⟨[h], rfl, fun s hs => ?_, fun c ha _ s hs => ?_⟩⟩
    · exact mem_singleton.mp hs ▸ hw
    · exact mem_singleton.mp hs ▸ ha
  | cons e es ih =>
    by_cases he : e.Fits h
    · obtain ⟨h', ⟨N, hN⟩, hkeeps⟩ := call_settles items ht he
      obtain ⟨N', hN'⟩ := ih hkeeps.tree (hkeeps.weight hw)
      refine ⟨max N N', fun n hn hfits => ?_⟩
      have hcall : call items n h e = some h' := hN n (le_trans (le_max_left ..) hn)
      obtain ⟨states, hrun, hweights, hammo⟩ := hN' n (le_trans (le_max_right ..) hn) (hfits.2 h' hcall)
      have hhead : h' ∈ states := by
        cases es with
        | nil =>
          cases hrun
          exact mem_singleton_self h'
        | cons e' es' =>
          simp only [run, Option.bind_eq_bind, Option.bind_eq_some_iff] at hrun
          obtain ⟨h'', _, states', _, hstates⟩ := hrun
          cases hstates
          exact mem_cons_self ..
      refine ⟨h :: states, by simp [run, hcall, hrun], fun s hs => ?_, fun c ha hbound s hs => ?_⟩
      · grind
      · have hbound' : ∀ s ∈ states, contentAmmo items s c < 2 ^ 32 := fun s hs => hbound s (mem_cons_of_mem h hs)
        cases mem_cons.mp hs with
        | inl hs => exact hs ▸ ha
        | inr hs => exact hammo c (hkeeps.ammo c ha (hbound' h' hhead)) hbound' s hs
    · exact ⟨0, fun n _ hfits => absurd hfits.1 he⟩

/-! ## A quiver -/

def arrows : BitVec 16 → ItemType := fun id => if id = 1 then {} else { weight := 70, stackable := true, ammunition := true }

/-- A quiver, stacks of 255 arrows, and the first `k` stacks in the quiver. -/
def quiver (k : Nat) : Heap (Option Nat)
  | none =>
    { id := 1, isContainer := true, maxSize := 20, itemlist := (List.range k).map some,
      totalWeight := BitVec.ofNat 32 k * 17850, ammoCount := k * 255 }
  | some i => { id := 2, count := 255, parent := if i < k then some none else none }

theorem quiver_tree (k : Nat) : Tree (quiver k) := by
  have hnone : ∀ {x y}, parentOf (quiver k) y = some x → x = none := by
    intro x y hy
    cases y with
    | none => cases hy
    | some i =>
      have hi : (if i < k then some none else none) = some x := hy
      grind
  refine ⟨⟨fun x => ?_, fun x y => ?_, ⟨fun y => .intro y fun x hx => .intro x fun z hz => ?_⟩⟩, fun x c hc => ?_⟩
  · cases x with
    | none => exact nodup_range.map (Option.some_injective Nat)
    | some i => exact nodup_nil
  · cases x with
    | none =>
      show y ∈ (List.range k).map some ↔ _
      cases y <;> simp [parentOf, quiver]
    | some i => exact iff_of_false not_mem_nil fun hy => Option.some_ne_none i (hnone hy)
  · rw [hnone hx] at hz
    cases hz
  · rw [hnone hc]
    rfl

theorem quiver_getWeight (k i : Nat) : (quiver k (some i)).getWeight arrows = 17850 := by
  simp [quiver, arrows, Item.getWeight, Item.getItemWeight, Item.isStackable, Item.getBaseWeight, Item.getItemCount]

theorem quiver_weight (k : Nat) : WeightRight arrows (quiver k) := by
  intro c hc
  cases c with
  | none =>
    show _ = (((List.range k).map some).map fun x => (quiver k x).getWeight arrows).sum
    rw [map_map]
    have hall : (fun x => (quiver k x).getWeight arrows) ∘ some = fun _ : Nat => (17850 : BitVec 32) :=
      funext (quiver_getWeight k)
    rw [hall, map_const', sum_replicate, length_range, nsmul_eq_mul]
    rfl
  | some i => cases hc

theorem quiver_ammo (k : Nat) (c : Option Nat) : AmmoRight arrows (quiver k) c := by
  cases c with
  | none =>
    show _ = (((List.range k).map some).map fun x => (quiver k x).ammunition arrows).sum
    rw [map_map]
    have hall : (fun x => (quiver k x).ammunition arrows) ∘ some = fun _ : Nat => 255 := by
      funext i
      rfl
    rw [hall, map_const', sum_replicate, length_range]
    rfl
  | some i => rfl

theorem quiver_add (k : Nat) : (Call.addThing none 0 (some k)).Fits (quiver k) ∧
    ∃ h', (∀ n ≥ 1, call arrows n (quiver k) (.addThing none 0 (some k)) = some h') ∧
      (h' none).ammoCount = (k * 255 + 255) % 2 ^ 32 ∧ contentAmmo arrows h' none = k * 255 + 255 := by
  have haside : ¬ Above (parentOf (quiver k)) none (some k) := fun hab => by
    cases (above_none (show parentOf (quiver k) none = none from rfl)).mp hab
  let l : List (Option Nat) := some k :: (List.range k).map some
  let h' := modify (linked arrows (quiver k) none (some k) l) none fun o => { o with totalWeight := o.totalWeight + 17850 }
  have hcall : ∀ n ≥ 1, call arrows n (quiver k) (.addThing none 0 (some k)) = some h' := by
    intro n hn
    obtain ⟨n, rfl⟩ : ∃ m, n = m + 1 := ⟨n - 1, by omega⟩
    have hroom : ¬ (quiver k none).capacity.toInt ≤ 0 := by
      show ¬ (20 : BitVec 32).toInt ≤ 0
      decide
    have hne : (some k : Option Nat) ≠ none := Option.some_ne_none _
    have hadd : call arrows (n + 1) (quiver k) (.addThing none 0 (some k)) =
        internalAddThing arrows (n + 1) (quiver k) none (some k) := by
      show addThing arrows (n + 1) (quiver k) none 0 (some k) = _
      unfold addThing
      rw [if_neg hroom]
    rw [hadd, internalAddThing_eq hne, quiver_getWeight]
    rfl
  have hcount : ∀ i, (h' (some i)).ammunition arrows = 255 := by
    intro i
    show ((modify (modify (modify (quiver k) _ _) none _) none _) (some i)).ammunition arrows = 255
    rw [modify_of_ne _ (Option.some_ne_none i), modify_of_ne _ (Option.some_ne_none i), modify_apply]
    split <;> rfl
  refine ⟨⟨rfl, by simp [quiver], haside⟩, h', hcall, rfl, ?_⟩
  show (l.map fun x => (h' x).ammunition arrows).sum = _
  have hall : (fun x => (h' x).ammunition arrows) ∘ some = fun _ : Nat => 255 := funext hcount
  rw [map_cons, sum_cons, hcount, map_map, hall, map_const', sum_replicate_nat,
    length_range, Nat.add_comm]

theorem counters_right_shot : ∃ N, ∀ n ≥ N, ∃ states,
    run arrows n (quiver 1) [.addThing none 0 (some 1), .removeThing none (some 0) 100] = some states ∧
      (∀ s ∈ states, WeightRight arrows s) ∧ ∀ s ∈ states, AmmoRight arrows s none := by
  obtain ⟨N, hN⟩ := counters_right (quiver_tree 1) (quiver_weight 1)
    [.addThing none 0 (some 1), .removeThing none (some 0) 100]
  refine ⟨max N 1, fun n hn => ?_⟩
  have hfits : Fits arrows n (quiver 1) [.addThing none 0 (some 1), .removeThing none (some 0) 100] := by
    refine ⟨(quiver_add 1).1, fun h' hcall => ⟨?_, fun _ _ => trivial⟩⟩
    obtain ⟨n, rfl⟩ : ∃ m, n = m + 1 := ⟨n - 1, by omega⟩
    cases hcall
    rfl
  obtain ⟨states, hrun, hweights, hammo⟩ := hN n (le_trans (le_max_left ..) hn) hfits
  refine ⟨states, hrun, hweights, hammo none (quiver_ammo 1 none) ?_⟩
  obtain ⟨n, rfl⟩ : ∃ m, n = m + 1 := ⟨n - 1, by omega⟩
  cases hrun
  decide

/-- The counter holds 2 ^ 32 - 1 arrows, and 254 once there are 255 more. -/
theorem full_quiver_miscounts : Tree (quiver 16843009) ∧ WeightRight arrows (quiver 16843009) ∧
    (∀ c, AmmoRight arrows (quiver 16843009) c) ∧
    (Call.addThing none 0 (some 16843009)).Fits (quiver 16843009) ∧
    ∃ h', (∀ n ≥ 1, call arrows n (quiver 16843009) (.addThing none 0 (some 16843009)) = some h') ∧
      (h' none).ammoCount = 254 ∧ contentAmmo arrows h' none = 2 ^ 32 + 254 := by
  obtain ⟨hfits, h', hcall, hcount, hcontent⟩ := quiver_add 16843009
  refine ⟨quiver_tree _, quiver_weight _, quiver_ammo _, hfits, h', hcall, ?_, ?_⟩
  · omega
  · omega

end Backlands.Containers.Weight
