/-
  Backlands.Items.Cloning — the clone of an item (`Item::clone`, `Item::CreateItem`, `Item::Item`,
  src/item.cpp).

  A clone is a new item of the type that takes over the block of attributes. `CreateItem` makes
  rings and boots that are worn into those that are not; the classes it makes of other types
  (all but `Item`) are given no count. Random durations and new numbers are arguments. What the
  classes keep themselves (a teleport's destination, a bed's sleeper) is left out, as are
  containers, which clone what they hold as well.

  Proved: `clone_keeps_iff`. A clone is as the item exactly when the item is `Clonable`: it is
  made of the id it has, nothing counts that a new item would not, there is nothing beside the
  block (imbuements) and no type default where there is no block. Counterexample:
  `imbued_sword_cloned`.
-/

import Backlands.Attributes.RoundTrip

namespace Backlands.Items.Cloning

open Backlands.Lib Backlands.Attributes

/-! ## Types -/

/-- The class that `CreateItem` makes; `depot` are the containers of a player's depot, inbox and
reward chest. -/
inductive Kind where
  | depot | container | teleport | magicField | door | trashHolder | mailbox | bed | item
  deriving DecidableEq

structure ItemType extends TypeInfo where
  /-- The group is `ITEM_GROUP_DEPRECATED`. -/
  deprecated : Bool
  /-- The id is not 0. -/
  known : Bool
  kind : Kind

variable (types : UInt16 → ItemType)

structure Object where
  id : UInt16
  body : Attributes.Item

structure Original extends Object where
  hasAttributes : Bool
  bare : hasAttributes = false → body.ints = (fun _ => none) ∧ body.strs = (fun _ => none) ∧ body.custom = [] ∧
    body.reflect = [] ∧ body.boostPercent = []

/-- The id that `CreateItem` makes an item of. -/
def remapped (type : UInt16) : UInt16 :=
  if 3094 ≤ type ∧ type ≤ 3096 then type - 3
  else if type = 3099 ∨ type = 3100 then type - 2
  else if 3086 ≤ type ∧ type ≤ 3090 then type - 37
  else if type = 3549 then 6529
  else if type = 6299 then 6300
  else type

/-! ## Cloning -/

def setItemUID (uid : BitVec 64) (it : Attributes.Item) : Attributes.Item := it.setCustomAttribute uidKey (.int uid)

/-- The helper of `CreateItem`. -/
def assignUID (uid : BitVec 64) (object : Object) : Object :=
  if (types object.id).stackable then object else { object with body := setItemUID uid object.body }

def CreateItem (roll : BitVec 32) (uid : BitVec 64) (type : UInt16) (count : BitVec 16) : Option Object :=
  let it := types type
  if it.deprecated then none
  else
    let count := if it.stackable ∧ count = 0 then 1 else count
    if !it.known then none
    else
      match it.kind with
      | .item =>
        let id := remapped type
        some (assignUID types uid { id, body := newItem (types id).toTypeInfo count roll })
      | .container => some (assignUID types uid { id := type, body := newItem it.toTypeInfo 0 roll })
      | _ => some { id := type, body := newItem it.toTypeInfo 0 roll }

def removeIntAttr (a : IntAttr) (it : Attributes.Item) : Attributes.Item := { it with ints := Function.update it.ints a none }

/-- `*attributes` copied. -/
def copyAttributes (item new : Attributes.Item) : Attributes.Item :=
  { item with count := new.count, imbuementSlots := new.imbuementSlots, imbuements := new.imbuements }

/-- What a clone does with the block of the item, of which `remainingDuration` is left. -/
def takeOver (stackable : Bool) (uid : BitVec 64) (remainingDuration : BitVec 32) (item new : Attributes.Item) :
    Attributes.Item :=
  let new := copyAttributes item new
  let new := if stackable then new else setItemUID uid new
  let new := removeIntAttr .durationTimestamp (removeIntAttr .decayState new)
  if 0 < remainingDuration.toInt then (new.setDuration remainingDuration).setDecaying DECAYING_PENDING
  else removeIntAttr .duration new

/-- `uid` numbers the new item and `uid'` the clone. -/
def clone (now : BitVec 64) (roll : BitVec 32) (uid uid' : BitVec 64) (item : Original) : Option Object :=
  let remainingDuration := item.body.getDuration now
  match CreateItem types roll uid item.id (item.body.count.setWidth 16) with
  | none => none
  | some new =>
    if item.hasAttributes then
      some { new with body := takeOver (types new.id).stackable uid' remainingDuration item.body new.body }
    else some new

/-! ## What is kept -/

structure Keeps (now : BitVec 64) (item : Original) (c : Object) : Prop where
  id : c.id = item.id
  subType : c.body.getSubType (types c.id).toTypeInfo = item.body.getSubType (types item.id).toTypeInfo
  ints : ∀ a, a ≠ .decayState → a ≠ .durationTimestamp → a ≠ .duration → c.body.ints a = item.body.ints a
  strs : c.body.strs = item.body.strs
  custom : c.body.custom.filter (·.1 ≠ uidKey) = item.body.custom.filter (·.1 ≠ uidKey)
  tables : c.body.reflect = item.body.reflect ∧ c.body.boostPercent = item.body.boostPercent
  duration : c.body.getDuration now = item.body.getDuration now
  imbuements : c.body.imbuementSlots = item.body.imbuementSlots ∧ c.body.imbuements = item.body.imbuements

def newCount (ty : ItemType) (count : BitVec 8) : BitVec 8 :=
  if ty.fluid ∨ !ty.stackable then 1
  else if ty.kind = .item then if count = 0 then 1 else count
  else if ty.charges ≠ 0 then ty.charges.setWidth 8 else 1

structure Clonable (roll : BitVec 32) (now : BitVec 64) (item : Original) : Prop where
  made : (types item.id).deprecated = false ∧ (types item.id).known = true
  notWorn : (types item.id).kind = .item → remapped item.id = item.id
  counted : (types item.id).fluid = false → ((types item.id).stackable ∨ (types item.id).charges = 0) →
    newCount (types item.id) item.body.count = item.body.count
  noDefaults : item.hasAttributes = false → (types item.id).fluid = false ∧
    ((types item.id).stackable ∨ (types item.id).charges = 0) ∧ ((types item.id).defaultDuration roll).toInt ≤ 0
  notNegative : 0 ≤ (item.body.getDuration now).toInt
  notImbued : item.body.imbuementSlots = (types item.id).startSlots ∧ item.body.imbuements = []

/-! ## New items -/

section New

variable {types} {roll : BitVec 32}

/-- The integer attributes that a new item of a type has, but for the duration. -/
def Sets (ty : TypeInfo) (a : IntAttr) : Prop :=
  a = .fluidType ∧ ty.fluid ∨ a = .charges ∧ ty.fluid = false ∧ ty.stackable = false ∧ ty.charges ≠ 0

theorem startSubType_ints (ty : TypeInfo) (count : BitVec 16) (a : IntAttr) :
    (emptyItem.startSubType ty count).ints a = none ↔ ¬ Sets ty a := by
  unfold Item.startSubType Sets
  cases hfluid : ty.fluid with
  | true =>
    by_cases ha : a = .fluidType <;> simp [ha, Item.setIntAttr, emptyItem]
  | false =>
    cases hstack : ty.stackable with
    | true =>
      simp only [Bool.false_eq_true, if_false, if_true, and_false]
      split_ifs <;> simp [Item.setItemCount, emptyItem]
    | false =>
      by_cases hcharges : ty.charges = 0#32
      · simp [hcharges, emptyItem]
      · by_cases ha : a = .charges <;> simp [ha, hcharges, Item.setIntAttr, emptyItem]

theorem startSubType_count (ty : ItemType) (count : BitVec 8) :
    (emptyItem.startSubType ty.toTypeInfo
      (if ty.kind = .item then if ty.stackable ∧ count = 0 then 1 else count.setWidth 16 else 0)).count =
        newCount ty count := by
  unfold Item.startSubType newCount Item.setIntAttr Item.setItemCount emptyItem
  have hwidth : BitVec.setWidth 8 (BitVec.setWidth 16 count) = count := BitVec.setWidth_setWidth_of_le _ (by decide)
  grind

structure Made (ty : ItemType) (roll : BitVec 32) (count : BitVec 8) (it : Attributes.Item) : Prop where
  count : it.count = newCount ty count
  ints : ∀ a, a ≠ .duration → (it.ints a = none ↔ ¬ Sets ty.toTypeInfo a)
  strs : it.strs = fun _ => none
  custom : it.custom.filter (·.1 ≠ uidKey) = []
  tables : it.reflect = [] ∧ it.boostPercent = []
  duration : it.ints .duration =
    if ty.defaultDuration roll = 0 then none else some ((atLeastZero (ty.defaultDuration roll)).signExtend 64)
  imbuements : it.imbuementSlots = ty.startSlots ∧ it.imbuements = []

theorem made_newItem (ty : ItemType) (count : BitVec 8) :
    Made ty roll count (newItem ty.toTypeInfo
      (if ty.kind = .item then if ty.stackable ∧ count = 0 then 1 else count.setWidth 16 else 0) roll) := by
  have hcount := startSubType_count ty count
  revert hcount
  generalize (if ty.kind = .item then if ty.stackable ∧ count = 0 then 1 else count.setWidth 16 else 0) = n
  intro hcount
  have hints := startSubType_ints ty.toTypeInfo n
  obtain ⟨-, hstrs, hcustom, hreflect, hboost, himbuements⟩ := startSubType_frame ty.toTypeInfo n
  have hnone : (emptyItem.startSubType ty.toTypeInfo n).ints .duration = none := by
    rw [hints]
    simp [Sets]
  rw [newItem_eq]
  generalize emptyItem.startSubType ty.toTypeInfo _ = it at hcount hints hstrs hcustom hreflect hboost himbuements hnone
  unfold Item.setDefaultDuration
  by_cases hd : ty.defaultDuration roll = 0
  · rw [if_neg (not_not.mpr hd)]
    exact ⟨hcount, fun a _ => hints a, hstrs, by rw [hcustom]; rfl, ⟨hreflect, hboost⟩, by rw [if_pos hd]; exact hnone,
      rfl, himbuements⟩
  rw [if_pos hd]
  refine ⟨hcount, fun a ha => ?_, hstrs, by show List.filter _ it.custom = []; rw [hcustom]; rfl, ⟨hreflect, hboost⟩, ?_,
    rfl, himbuements⟩
  · rw [Item.setDuration, setIntAttr_ints_ne _ _ ha]
    exact hints a
  · rw [Item.setDuration, setIntAttr_ints _ _ (by decide), if_neg hd]

theorem setItemUID_custom (uid : BitVec 64) (it : Attributes.Item) :
    (setItemUID uid it).custom.filter (·.1 ≠ uidKey) = it.custom.filter (·.1 ≠ uidKey) := by
  have hkey : asLowerCaseString uidKey = uidKey := by decide
  show List.filter _ (it.custom.filter (fun e : Bytes × CustomValue => e.1 ≠ asLowerCaseString uidKey) ++
    [(asLowerCaseString uidKey, CustomValue.int uid)]) = _
  rw [hkey, List.filter_append, List.filter_filter]
  simp

theorem Made.assignUID {ty : ItemType} {count : BitVec 8} {object : Object} (h : Made ty roll count object.body)
    (uid : BitVec 64) : Made ty roll count (assignUID types uid object).body := by
  unfold Cloning.assignUID
  split
  · exact h
  · exact { h with custom := (setItemUID_custom uid _).trans h.custom }

theorem assignUID_id (uid : BitVec 64) (object : Object) : (assignUID types uid object).id = object.id := by
  unfold assignUID
  split <;> rfl

theorem CreateItem_made {type : UInt16} (hmade : (types type).deprecated = false ∧ (types type).known = true)
    (uid : BitVec 64) (count : BitVec 8) :
    ∃ new, CreateItem types roll uid type (count.setWidth 16) = some new ∧
      new.id = (if (types type).kind = .item then remapped type else type) ∧
      (((types type).kind = .item → remapped type = type) → Made (types type) roll count new.body) := by
  have hnew := @made_newItem roll (types type) count
  have hcount : (if (types type).stackable = true ∧ BitVec.setWidth 16 count = 0 then (1 : BitVec 16) else count.setWidth 16) =
      if (types type).stackable = true ∧ count = 0 then 1 else count.setWidth 16 := by
    have hzero : BitVec.setWidth 16 count = 0 ↔ count = 0 := by
      rw [← BitVec.toNat_inj, ← BitVec.toNat_inj, BitVec.toNat_setWidth, Nat.mod_eq_of_lt (by omega)]
      rfl
    simp only [hzero]
  unfold CreateItem
  simp only [hmade.1, hmade.2, Bool.false_eq_true, if_false, Bool.not_true, hcount]
  by_cases hkind : (types type).kind = .item
  · simp only [hkind, if_true] at hnew ⊢
    refine ⟨_, rfl, assignUID_id uid _, fun hworn => ?_⟩
    rw [hworn trivial]
    exact Made.assignUID hnew uid
  · rw [if_neg hkind] at hnew
    cases hk : (types type).kind with
    | item => exact absurd hk hkind
    | container =>
      refine ⟨_, rfl, assignUID_id uid _, fun _ => ?_⟩
      exact Made.assignUID hnew uid
    | _ => exact ⟨_, rfl, rfl, fun _ => hnew⟩

theorem CreateItem_unmade {type : UInt16} {uid : BitVec 64} {count : BitVec 16} {new : Object}
    (h : CreateItem types roll uid type count = some new) : (types type).deprecated = false ∧ (types type).known = true := by
  unfold CreateItem at h
  cases hd : (types type).deprecated with
  | true => simp [hd] at h
  | false =>
    cases hk : (types type).known with
    | true => exact ⟨rfl, rfl⟩
    | false => simp [hd, hk] at h

end New

/-! ## The clone -/

section Clone

variable {types} {roll : BitVec 32} {now uid uid' : BitVec 64} {item : Original}

/-- A block taken over at the time `now`. -/
structure TakenOver (now : BitVec 64) (item c : Attributes.Item) : Prop where
  ints : ∀ a, a ≠ .decayState → a ≠ .durationTimestamp → a ≠ .duration → c.ints a = item.ints a
  strs : c.strs = item.strs
  custom : c.custom.filter (·.1 ≠ uidKey) = item.custom.filter (·.1 ≠ uidKey)
  tables : c.reflect = item.reflect ∧ c.boostPercent = item.boostPercent
  duration : c.getDuration now = if 0 < (item.getDuration now).toInt then item.getDuration now else 0

theorem getDuration_of_ints {it : Attributes.Item} {d : BitVec 32} (hstate : it.getDecaying ≠ DECAYING_TRUE)
    (hstopping : it.getDecaying ≠ DECAYING_STOPPING) (h : it.getIntAttr .duration = d.signExtend 64) :
    it.getDuration now = d := by
  unfold Item.getDuration
  rw [if_neg (by tauto), h]
  exact setWidth_signExtend (by decide) d

theorem setItemUID_frame (it : Attributes.Item) : ∃ custom, setItemUID uid it = { it with custom } ∧
    custom.filter (·.1 ≠ uidKey) = it.custom.filter (·.1 ≠ uidKey) :=
  ⟨_, rfl, setItemUID_custom uid it⟩

theorem takeOver_takenOver (stackable : Bool) (it new : Attributes.Item) :
    let c := takeOver stackable uid (it.getDuration now) it new
    TakenOver now it c ∧ c.count = new.count ∧ c.imbuementSlots = new.imbuementSlots ∧ c.imbuements = new.imbuements := by
  obtain ⟨custom, hframe, hcustom⟩ : ∃ custom,
      (if stackable then copyAttributes it new else setItemUID uid (copyAttributes it new)) =
        { copyAttributes it new with custom } ∧ custom.filter (·.1 ≠ uidKey) = it.custom.filter (·.1 ≠ uidKey) := by
    cases stackable with
    | true => exact ⟨it.custom, rfl, rfl⟩
    | false => exact setItemUID_frame (copyAttributes it new)
  intro c
  have hc : c = takeOver stackable uid (it.getDuration now) it new := rfl
  unfold takeOver at hc
  dsimp only at hc
  rw [hframe] at hc
  clear_value c
  by_cases hleft : 0 < (it.getDuration now).toInt
  · rw [if_pos hleft] at hc
    subst hc
    refine ⟨⟨fun a hstate htime hdur => ?_, rfl, hcustom, ⟨rfl, rfl⟩, ?_⟩, rfl, rfl, rfl⟩
    · simp [Item.setDecaying, Item.setDuration, Item.setIntAttr, removeIntAttr, copyAttributes, hstate, htime, hdur]
    rw [if_pos hleft]
    have hleast : atLeastZero (it.getDuration now) = it.getDuration now := if_neg (by omega)
    refine getDuration_of_ints ?_ ?_ ?_
    · simp [Item.getDecaying, Item.getIntAttr, Item.setDecaying, Item.setIntAttr, DECAYING_PENDING, DECAYING_TRUE]
    · simp [Item.getDecaying, Item.getIntAttr, Item.setDecaying, Item.setIntAttr, DECAYING_PENDING, DECAYING_STOPPING]
    · simp [Item.getIntAttr, Item.setDecaying, Item.setDuration, Item.setIntAttr, hleast]
  · rw [if_neg hleft] at hc
    subst hc
    refine ⟨⟨fun a hstate htime hdur => ?_, rfl, hcustom, ⟨rfl, rfl⟩, ?_⟩, rfl, rfl, rfl⟩
    · simp [removeIntAttr, copyAttributes, hstate, htime, hdur]
    · rw [if_neg hleft]
      rfl

theorem clone_of_made (h : (types item.id).deprecated = false ∧ (types item.id).known = true) :
    ∃ c, clone types now roll uid uid' item = some c ∧
      c.id = (if (types item.id).kind = .item then remapped item.id else item.id) ∧
      (((types item.id).kind = .item → remapped item.id = item.id) →
        c.body.count = newCount (types item.id) item.body.count ∧
        c.body.imbuementSlots = (types item.id).startSlots ∧ c.body.imbuements = [] ∧
        (item.hasAttributes = true → TakenOver now item.body c.body) ∧
        (item.hasAttributes = false → Made (types item.id) roll item.body.count c.body)) := by
  obtain ⟨new, hcreate, hid, hnew⟩ := @CreateItem_made types roll item.id h uid item.body.count
  unfold clone
  rw [hcreate]
  cases hblock : item.hasAttributes with
  | true =>
    refine ⟨_, rfl, hid, fun hworn => ?_⟩
    have hmade := hnew hworn
    obtain ⟨htaken, hcount, hslots, himbuements⟩ :=
      @takeOver_takenOver now uid' (types new.id).stackable item.body new.body
    exact ⟨hcount.trans hmade.count, hslots.trans hmade.imbuements.1, himbuements.trans hmade.imbuements.2,
      fun _ => htaken, nofun⟩
  | false =>
    refine ⟨new, rfl, hid, fun hworn => ?_⟩
    have hmade := hnew hworn
    exact ⟨hmade.count, hmade.imbuements.1, hmade.imbuements.2, nofun, fun _ => hmade⟩

theorem getSubType_count {ty : TypeInfo} (hfluid : ty.fluid = false) (h : ty.stackable ∨ ty.charges = 0)
    (it : Attributes.Item) :
    it.getSubType ty = it.count.setWidth 16 := by
  grind [Item.getSubType]

theorem count_inj {a b : BitVec 8} (h : a.setWidth 16 = b.setWidth 16) : a = b := by
  have ha := a.isLt
  have hb := b.isLt
  rw [← BitVec.toNat_inj, BitVec.toNat_setWidth, BitVec.toNat_setWidth] at h
  rw [← BitVec.toNat_inj]
  omega

theorem getSubType_ints {ty : TypeInfo} (h : ¬ (ty.fluid = false ∧ (ty.stackable ∨ ty.charges = 0))) {it c : Attributes.Item}
    (hfluid : c.ints .fluidType = it.ints .fluidType) (hcharges : c.ints .charges = it.ints .charges) :
    c.getSubType ty = it.getSubType ty := by
  unfold Item.getSubType Item.getFluidType Item.getCharges Item.getIntAttr
  rw [hfluid, hcharges]
  cases hf : ty.fluid with
  | true => simp
  | false =>
    have hcharged : ty.stackable = false ∧ ty.charges ≠ 0#32 := by simpa [hf] using h
    simp [hcharged]

/-- Nothing sets an attribute of a new item that counts by itself and has no default. -/
theorem not_sets_iff (ty : TypeInfo) : (∀ a, ¬ Sets ty a) ↔ ty.fluid = false ∧ (ty.stackable ∨ ty.charges = 0) := by
  constructor
  · intro h
    have hfluid : ty.fluid = false := by
      by_contra hf
      exact h .fluidType (.inl ⟨rfl, by simpa using hf⟩)
    refine ⟨hfluid, ?_⟩
    by_contra hcharged
    rw [not_or] at hcharged
    exact h .charges (.inr ⟨rfl, hfluid, by simpa using hcharged.1, hcharged.2⟩)
  · intro ⟨hfluid, hcharges⟩ a hsets
    rcases hsets with ⟨-, hf⟩ | ⟨-, -, hstack, hc⟩
    · simp [hfluid] at hf
    · grind

theorem getDuration_bare (hbare : item.body.ints = fun _ => none) : item.body.getDuration now = 0 :=
  getDuration_of_ints (by simp [Item.getDecaying, Item.getIntAttr, hbare, DECAYING_TRUE])
    (by simp [Item.getDecaying, Item.getIntAttr, hbare, DECAYING_STOPPING]) (by simp [Item.getIntAttr, hbare])

theorem Made.getDuration {ty : ItemType} {count : BitVec 8} {it : Attributes.Item} (h : Made ty roll count it) :
    it.getDuration now = atLeastZero (ty.defaultDuration roll) := by
  have hnone : it.ints .decayState = none := (h.ints .decayState (by decide)).mpr (by simp [Sets])
  refine getDuration_of_ints ?_ ?_ ?_
  · simp [Item.getDecaying, Item.getIntAttr, hnone, DECAYING_TRUE]
  · simp [Item.getDecaying, Item.getIntAttr, hnone, DECAYING_STOPPING]
  unfold Item.getIntAttr
  rw [h.duration]
  split
  · rename_i hzero
    rw [hzero]
    rfl
  · rfl

theorem atLeastZero_eq_zero {d : BitVec 32} : atLeastZero d = 0 ↔ d.toInt ≤ 0 := by
  unfold atLeastZero
  by_cases hneg : d.toInt < 0
  · rw [if_pos hneg]
    exact iff_of_true rfl hneg.le
  rw [if_neg hneg]
  constructor
  · rintro rfl
    exact Int.le_refl 0
  · intro hle
    exact BitVec.toInt_inj.mp (Int.le_antisymm hle (Int.not_lt.mp hneg))

theorem clonable_of_keeps {c : Object} (hclone : clone types now roll uid uid' item = some c) (h : Keeps types now item c) :
    Clonable types roll now item := by
  have hmade : (types item.id).deprecated = false ∧ (types item.id).known = true := by
    unfold clone at hclone
    split at hclone
    · exact nomatch hclone
    · rename_i hcreate
      exact CreateItem_unmade hcreate
  obtain ⟨c', hc', hid, hshape⟩ := @clone_of_made types roll now uid uid' item hmade
  obtain rfl : c' = c := Option.some.inj (hc'.symm.trans hclone)
  have hworn : (types item.id).kind = .item → remapped item.id = item.id := by
    intro hkind
    have hsame := h.id
    rwa [hid, if_pos hkind] at hsame
  obtain ⟨hcount, hslots, himbuements, htaken, hnew⟩ := hshape hworn
  refine ⟨hmade, hworn, fun hfluid hcounts => ?_, fun hblock => ?_, ?_, ⟨?_, ?_⟩⟩
  · have hsub := h.subType
    rw [h.id, getSubType_count hfluid hcounts, getSubType_count hfluid hcounts] at hsub
    exact hcount.symm.trans (count_inj hsub)
  · have hbare := item.bare hblock
    have hsets : ∀ a, ¬ Sets (types item.id).toTypeInfo a := by
      intro a hsets
      have hnames : a ≠ .decayState ∧ a ≠ .durationTimestamp ∧ a ≠ .duration := by
        rcases hsets with ⟨rfl, -⟩ | ⟨rfl, -⟩ <;> decide
      have hnone : c'.body.ints a = none := by
        rw [h.ints a hnames.1 hnames.2.1 hnames.2.2, hbare.1]
      exact ((hnew hblock).ints a hnames.2.2).mp hnone hsets
    obtain ⟨hfluid, hcounts⟩ := (not_sets_iff _).mp hsets
    refine ⟨hfluid, hcounts, atLeastZero_eq_zero.mp ?_⟩
    have hduration : c'.body.getDuration now = atLeastZero ((types item.id).defaultDuration roll) := (hnew hblock).getDuration
    rw [← hduration, h.duration, getDuration_bare hbare.1]
  · cases hblock : item.hasAttributes with
    | true =>
      have hduration := (htaken hblock).duration
      grind [h.duration]
    | false =>
      rw [getDuration_bare (item.bare hblock).1]
      decide
  · rw [← h.imbuements.1, hslots]
  · rw [← h.imbuements.2, himbuements]

theorem keeps_of_clonable (h : Clonable types roll now item) :
    ∃ c, clone types now roll uid uid' item = some c ∧ Keeps types now item c := by
  obtain ⟨c, hc, hid, hshape⟩ := @clone_of_made types roll now uid uid' item h.made
  obtain ⟨hcount, hslots, himbuements, htaken, hnew⟩ := hshape h.notWorn
  have hsame : c.id = item.id := by
    rw [hid]
    split
    · rename_i hkind
      exact h.notWorn hkind
    · rfl
  have hpart : c.body.imbuementSlots = item.body.imbuementSlots ∧ c.body.imbuements = item.body.imbuements :=
    ⟨hslots.trans h.notImbued.1.symm, himbuements.trans h.notImbued.2.symm⟩
  refine ⟨c, hc, ?_⟩
  have hcounted : (types item.id).fluid = false ∧ ((types item.id).stackable ∨ (types item.id).charges = 0) →
      c.body.getSubType (types c.id).toTypeInfo = item.body.getSubType (types item.id).toTypeInfo := by
    intro hcounts
    rw [hsame, getSubType_count hcounts.1 hcounts.2, getSubType_count hcounts.1 hcounts.2, hcount,
      h.counted hcounts.1 hcounts.2]
  cases hblock : item.hasAttributes with
  | true =>
    obtain ⟨hints, hstrs, hcustom, htables, hduration⟩ := htaken hblock
    refine ⟨hsame, ?_, hints, hstrs, hcustom, htables, ?_, hpart⟩
    · by_cases hcounts : (types item.id).fluid = false ∧ ((types item.id).stackable ∨ (types item.id).charges = 0)
      · exact hcounted hcounts
      · rw [hsame]
        exact getSubType_ints hcounts (hints _ (by decide) (by decide) (by decide))
          (hints _ (by decide) (by decide) (by decide))
    · rw [hduration]
      split
      · rfl
      rename_i hleft
      have hnot := h.notNegative
      have hzero : (item.body.getDuration now).toInt = (0 : BitVec 32).toInt := by
        show (item.body.getDuration now).toInt = 0
        omega
      exact (BitVec.toInt_inj.mp hzero).symm
  | false =>
    have hmade := hnew hblock
    obtain ⟨hints, hstrs, hcustom, hreflect, hboost⟩ := item.bare hblock
    obtain ⟨hfluid, hcounts, hdefault⟩ := h.noDefaults hblock
    refine ⟨hsame, hcounted ⟨hfluid, hcounts⟩, fun a _ _ hdur => ?_, ?_, ?_, ?_, ?_, hpart⟩
    · rw [hints]
      exact (hmade.ints a hdur).mpr ((not_sets_iff _).mpr ⟨hfluid, hcounts⟩ a)
    · rw [hmade.strs, hstrs]
    · rw [hmade.custom, hcustom]
      rfl
    · rw [hmade.tables.1, hmade.tables.2, hreflect, hboost]
      exact ⟨rfl, rfl⟩
    · rw [hmade.getDuration, getDuration_bare hints, atLeastZero_eq_zero]
      exact hdefault

end Clone

/-- A clone is made, and as the item, exactly when the item is clonable. -/
theorem clone_keeps_iff (now : BitVec 64) (roll : BitVec 32) (uid uid' : BitVec 64) (item : Original) :
    (∃ c, clone types now roll uid uid' item = some c ∧ Keeps types now item c) ↔ Clonable types roll now item := by
  constructor
  · intro ⟨c, hclone, hkeeps⟩
    exact clonable_of_keeps hclone hkeeps
  · exact keeps_of_clonable

def sword : ItemType where
  stackable := false
  fluid := false
  moveable := true
  charges := 0
  imbuementSlot := 1
  decayTimeMin := 0
  decayTimeMax := 0
  deprecated := false
  known := true
  kind := .item

def imbuedSword : Original where
  id := 3264
  body := { emptyItem with custom := [(uidKey, .int 1)], imbuementSlots := 1, imbuements := [⟨22, 4, 72000, 0, 3⟩] }
  hasAttributes := true
  bare := nofun

theorem imbued_sword_cloned :
    ¬ ∃ c, clone (fun _ => sword) 0 0 2 3 imbuedSword = some c ∧ Keeps (fun _ => sword) 0 imbuedSword c := by
  intro ⟨c, hclone, hkeeps⟩
  exact nomatch (clonable_of_keeps hclone hkeeps).notImbued.2

end Backlands.Items.Cloning
