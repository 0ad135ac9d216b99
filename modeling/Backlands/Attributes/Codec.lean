/-
  Backlands.Attributes.Codec — the attributes of an item as bytes (src/item.cpp:
  `Item::serializeAttr`, `Item::readAttr`, `Item::unserializeAttr`; src/item.h:
  `ItemAttributes`; src/imbuement.h).

  An attribute that is not set is `none`; integer attributes are 64-bit words, whatever
  width they are written in, and floating-point values the words they are copied as. The
  custom attributes, the reflect and the boost table are lists of keys and values in some
  order. `ty` is what the item table says of the item's id.

  `ITEM_ATTRIBUTE_REWARDID` is not among the integer attributes (`intAttributeTypes`):
  `setIntAttr` of it does nothing, so that it is never there to be written.
-/

import Backlands.Lib.Tagged

namespace Backlands.Attributes

open Backlands.Lib

/-! ## Items -/

/-- `intAttributeTypes`. -/
inductive IntAttr where
  | actionId | uniqueId | date | weight | attack | defense | extraDefense | armor | hitChance | shootRange | owner
  | duration | decayState | corpseOwner | charges | fluidType | doorId | durationTimestamp | wrapId | storeItem
  | attackSpeed | classification | tier | reduceSkillLoss | dropBonus
  deriving DecidableEq

/-- `stringAttributeTypes`. -/
inductive StrAttr where
  | description | text | writer | name | article | pluralName
  deriving DecidableEq

/-- `CustomAttribute`, by the index of its variant. -/
inductive CustomValue where
  | none
  | string (s : Bytes)
  | int (n : BitVec 64)
  | double (bits : BitVec 64)
  | bool (b : Bool)
  deriving DecidableEq

structure Imbuement where
  imbuetype : BitVec 8
  value : BitVec 32
  duration : BitVec 32
  decaytype : BitVec 8
  baseId : BitVec 16
  deriving DecidableEq

structure Reflect where
  percent : BitVec 16
  chance : BitVec 16
  deriving DecidableEq

/-- What the item table says of an id. -/
structure TypeInfo where
  stackable : Bool
  /-- A fluid container or a splash. -/
  fluid : Bool
  moveable : Bool
  charges : BitVec 32
  imbuementSlot : BitVec 16
  decayTimeMin : BitVec 32
  decayTimeMax : BitVec 32

structure Item where
  count : BitVec 8
  ints : IntAttr → Option (BitVec 64)
  strs : StrAttr → Option Bytes
  custom : List (Bytes × CustomValue)
  reflect : List (BitVec 16 × Reflect)
  boostPercent : List (BitVec 16 × BitVec 16)
  imbuementSlots : BitVec 16
  imbuements : List Imbuement

/-- `getIntAttr`: zero for an attribute that is not there. -/
def Item.getIntAttr (it : Item) (a : IntAttr) : BitVec 64 := (it.ints a).getD 0

/-- `getStrAttr`: empty for an attribute that is not there. -/
def Item.getStrAttr (it : Item) (a : StrAttr) : Bytes := (it.strs a).getD []

def Item.getCharges (it : Item) : BitVec 16 := (it.getIntAttr .charges).setWidth 16
def Item.getFluidType (it : Item) : BitVec 16 := (it.getIntAttr .fluidType).setWidth 16
def Item.getActionId (it : Item) : BitVec 16 := (it.getIntAttr .actionId).setWidth 16

/-! ## Setters -/

/-- `setIntAttr`: an attack speed is at least a hundred. -/
def Item.setIntAttr (a : IntAttr) (v : BitVec 64) (it : Item) : Item :=
  { it with ints := Function.update it.ints a (some (if a = .attackSpeed ∧ v.toInt < 100 then 100 else v)) }

/-- `setStrAttr`: an empty string is not set. -/
def Item.setStrAttr (a : StrAttr) (s : Bytes) (it : Item) : Item :=
  if s = [] then it else { it with strs := Function.update it.strs a (some s) }

def Item.setItemCount (n : BitVec 8) (it : Item) : Item := { it with count := n }

/-- `setSubType`: the fluid, the count or the charges, by the type. -/
def Item.setSubType (ty : TypeInfo) (n : BitVec 16) (it : Item) : Item :=
  if ty.fluid then it.setIntAttr .fluidType (n.setWidth 64)
  else if ty.stackable then it.setItemCount (n.setWidth 8)
  else if ty.charges ≠ 0 then it.setIntAttr .charges (n.setWidth 64)
  else it.setItemCount (n.setWidth 8)

def Item.getSubType (ty : TypeInfo) (it : Item) : BitVec 16 :=
  if ty.fluid then it.getFluidType
  else if ty.stackable then it.count.setWidth 16
  else if ty.charges ≠ 0 then it.getCharges
  else it.count.setWidth 16

def Item.setActionId (n : BitVec 16) (it : Item) : Item :=
  it.setIntAttr .actionId (if n.toNat < 100 then 100 else n.setWidth 64)

def Item.setDate (n : BitVec 32) (it : Item) : Item := it.setIntAttr .date (n.signExtend 64)

/-- `std::max<int32_t>(0, time)`. -/
def atLeastZero (n : BitVec 32) : BitVec 32 := if n.toInt < 0 then 0 else n

def Item.setDuration (n : BitVec 32) (it : Item) : Item := it.setIntAttr .duration ((atLeastZero n).signExtend 64)

/-- The decay states that are named here: not decaying, decaying, to be decayed, stopping. -/
def DECAYING_FALSE : BitVec 8 := 0
def DECAYING_TRUE : BitVec 8 := 1
def DECAYING_PENDING : BitVec 8 := 2
def DECAYING_STOPPING : BitVec 8 := 3

def Item.getDecaying (it : Item) : BitVec 8 := (it.getIntAttr .decayState).setWidth 8

def Item.setDecaying (s : BitVec 8) (it : Item) : Item := it.setIntAttr .decayState (s.setWidth 64)

/-- `getDuration`: of a decaying item, what is left of it at the time `now`. -/
def Item.getDuration (now : BitVec 64) (it : Item) : BitVec 32 :=
  if it.getDecaying = DECAYING_TRUE ∨ it.getDecaying = DECAYING_STOPPING then
    atLeastZero ((it.getIntAttr .durationTimestamp - now).setWidth 32)
  else (it.getIntAttr .duration).setWidth 32

/-- `std::tolower` of the C locale. -/
def toLower (b : UInt8) : UInt8 := if 65 ≤ b ∧ b ≤ 90 then b + 32 else b

def asLowerCaseString (s : Bytes) : Bytes := s.map toLower

/-- `setCustomAttribute`: keys are kept in lower case, and one value a key. -/
def Item.setCustomAttribute (key : Bytes) (v : CustomValue) (it : Item) : Item :=
  { it with custom :=
    it.custom.filter (fun e => e.1 ≠ asLowerCaseString key) ++ [(asLowerCaseString key, v)] }

def Item.setReflect (combatType : BitVec 16) (r : Reflect) (it : Item) : Item :=
  { it with reflect := it.reflect.filter (fun e => e.1 ≠ combatType) ++ [(combatType, r)] }

def Item.setBoostPercent (combatType percent : BitVec 16) (it : Item) : Item :=
  { it with boostPercent := it.boostPercent.filter (fun e => e.1 ≠ combatType) ++ [(combatType, percent)] }

/-- `addImbuementSlots`: the limit is held against the imbuements, not the slots. -/
def Item.addImbuementSlots (amount : BitVec 16) (it : Item) : Item :=
  if 65535 ≤ it.imbuements.length % 65536 + amount.toNat then it
  else { it with imbuementSlots := it.imbuementSlots + amount }

/-- `addImbuement` of one that is not on the item yet. -/
def Item.addImbuement (i : Imbuement) (it : Item) : Item :=
  if it.imbuements.length < it.imbuementSlots.toNat then { it with imbuements := it.imbuements ++ [i] } else it

/-- The duration of a new item, in milliseconds; `roll` is what `normal_random` gives. -/
def TypeInfo.defaultDuration (ty : TypeInfo) (roll : BitVec 32) : BitVec 32 :=
  if ty.decayTimeMax * 1000 ≠ 0 then roll else ty.decayTimeMin * 1000

def Item.setDefaultDuration (ty : TypeInfo) (roll : BitVec 32) (it : Item) : Item :=
  if ty.defaultDuration roll ≠ 0 then it.setDuration (ty.defaultDuration roll) else it

def emptyItem : Item := ⟨1, fun _ => none, fun _ => none, [], [], [], 0, []⟩

def Item.startSubType (ty : TypeInfo) (count : BitVec 16) (it : Item) : Item :=
  if ty.fluid then it.setIntAttr .fluidType (count.setWidth 64)
  else if ty.stackable then
    if count ≠ 0 then it.setItemCount (count.setWidth 8)
    else if ty.charges ≠ 0 then it.setItemCount (ty.charges.setWidth 8) else it
  else if ty.charges ≠ 0 then it.setIntAttr .charges ((if count ≠ 0 then count else ty.charges.setWidth 16).setWidth 64)
  else it

/-- The constructor of `Item`. -/
def newItem (ty : TypeInfo) (count : BitVec 16) (roll : BitVec 32) : Item :=
  let it := emptyItem.startSubType ty count
  let it := if ty.imbuementSlot ≠ 0 then it.addImbuementSlots ty.imbuementSlot else it
  it.setDefaultDuration ty roll

/-- `"__uid"`. -/
def uidKey : Bytes := [95, 95, 117, 105, 100]

/-- `CreateItem` without a count: of a stackable type it makes one. Most items are given a
    number of their own, kept as a custom attribute. -/
def freshItem (ty : TypeInfo) (roll : BitVec 32) (uid : Option (BitVec 64)) : Item :=
  let it := newItem ty (if ty.stackable then 1 else 0) roll
  match uid with
  | none => it
  | some n => it.setCustomAttribute uidKey (.int n)

/-! ## Tags -/

/-- The tags that `readAttr` knows. -/
inductive AttrTag where
  | actionId | uniqueId | text | desc | teleDest | depotId | runeCharges | houseDoorId | count | duration
  | decayingState | writtenDate | writtenBy | sleeperGuid | sleepStart | charges | containerItems | name | article
  | pluralName | weight | attack | defense | extraDefense | armor | hitChance | shootRange | customAttributes | wrapId
  | storeItem | attackSpeed | classification | tier | rewardId | reflect | boost | imbueSlots | imbuements
  deriving DecidableEq

def AttrTag.code : AttrTag → UInt8
  | .actionId => 4
  | .uniqueId => 5
  | .text => 6
  | .desc => 7
  | .teleDest => 8
  | .depotId => 10
  | .runeCharges => 12
  | .houseDoorId => 14
  | .count => 15
  | .duration => 16
  | .decayingState => 17
  | .writtenDate => 18
  | .writtenBy => 19
  | .sleeperGuid => 20
  | .sleepStart => 21
  | .charges => 22
  | .containerItems => 23
  | .name => 24
  | .article => 25
  | .pluralName => 26
  | .weight => 27
  | .attack => 28
  | .defense => 29
  | .extraDefense => 30
  | .armor => 31
  | .hitChance => 32
  | .shootRange => 33
  | .customAttributes => 34
  | .wrapId => 36
  | .storeItem => 37
  | .attackSpeed => 38
  | .classification => 39
  | .tier => 40
  | .rewardId => 41
  | .reflect => 42
  | .boost => 43
  | .imbueSlots => 44
  | .imbuements => 45

def attrTags : List AttrTag :=
  [.actionId, .uniqueId, .text, .desc, .teleDest, .depotId, .runeCharges, .houseDoorId, .count, .duration,
    .decayingState, .writtenDate, .writtenBy, .sleeperGuid, .sleepStart, .charges, .containerItems, .name, .article,
    .pluralName, .weight, .attack, .defense, .extraDefense, .armor, .hitChance, .shootRange, .customAttributes,
    .wrapId, .storeItem, .attackSpeed, .classification, .tier, .rewardId, .reflect, .boost, .imbueSlots, .imbuements]

def AttrTag.ofCode (b : UInt8) : Option AttrTag := attrTags.find? fun t => t.code = b

/-- The integer attributes that are written whenever they are there. -/
inductive IntField where
  | weight | attack | attackSpeed | classification | tier | defense | extraDefense | armor | hitChance | shootRange
  | wrapId | storeItem
  deriving DecidableEq

def IntField.attr : IntField → IntAttr
  | .weight => .weight
  | .attack => .attack
  | .attackSpeed => .attackSpeed
  | .classification => .classification
  | .tier => .tier
  | .defense => .defense
  | .extraDefense => .extraDefense
  | .armor => .armor
  | .hitChance => .hitChance
  | .shootRange => .shootRange
  | .wrapId => .wrapId
  | .storeItem => .storeItem

def IntField.tag : IntField → AttrTag
  | .weight => .weight
  | .attack => .attack
  | .attackSpeed => .attackSpeed
  | .classification => .classification
  | .tier => .tier
  | .defense => .defense
  | .extraDefense => .extraDefense
  | .armor => .armor
  | .hitChance => .hitChance
  | .shootRange => .shootRange
  | .wrapId => .wrapId
  | .storeItem => .storeItem

/-- The bits it is written in. -/
def IntField.width : IntField → Nat
  | .hitChance | .shootRange | .storeItem => 8
  | .wrapId => 16
  | .weight | .attack | .attackSpeed | .classification | .tier | .defense | .extraDefense | .armor => 32

def IntField.signed : IntField → Bool
  | .attack | .defense | .extraDefense | .armor | .hitChance => true
  | .weight | .attackSpeed | .classification | .tier | .shootRange | .wrapId | .storeItem => false

/-- The attribute a value of the field's width is read as. -/
def IntField.widen (f : IntField) (v : BitVec f.width) : BitVec 64 :=
  if f.signed then v.signExtend 64 else v.setWidth 64

def StrAttr.tag : StrAttr → AttrTag
  | .description => .desc
  | .text => .text
  | .writer => .writtenBy
  | .name => .name
  | .article => .article
  | .pluralName => .pluralName

/-! ## Writing -/

/-- `writeString`: a string that is too long is written as an empty one. -/
def writeString (s : Bytes) : Bytes := if 65535 < s.length then word (0 : BitVec 16) else word (BitVec.ofNat 16 s.length) ++ s

def Imbuement.bytes (i : Imbuement) : Bytes :=
  word (i.imbuetype.setWidth 32) ++ word i.value ++ word i.duration ++
    word (i.baseId.setWidth 32 <<< 16 ||| i.decaytype.setWidth 32)

def CustomValue.bytes : CustomValue → Bytes
  | .none => [0]
  | .string s => 1 :: writeString s
  | .int n => 2 :: word n
  | .double bits => 3 :: word bits
  | .bool b => [4, if b then 1 else 0]

/-- A field as `serializeAttr` writes it. -/
inductive Field where
  | count (n : BitVec 8)
  | charges (n : BitVec 16)
  | actionId (n : BitVec 16)
  | str (a : StrAttr) (s : Bytes)
  | date (d : BitVec 32)
  | duration (d : BitVec 32)
  | decayingState (s : BitVec 8)
  | int (f : IntField) (v : BitVec f.width)
  | imbueSlots (n : BitVec 32)
  | imbuements (l : List Imbuement)
  | custom (l : List (Bytes × CustomValue))

def Field.tag : Field → AttrTag
  | .count _ => .count
  | .charges _ => .charges
  | .actionId _ => .actionId
  | .str a _ => a.tag
  | .date _ => .writtenDate
  | .duration _ => .duration
  | .decayingState _ => .decayingState
  | .int f _ => f.tag
  | .imbueSlots _ => .imbueSlots
  | .imbuements _ => .imbuements
  | .custom _ => .customAttributes

def Field.value : Field → Bytes
  | .count n => word n
  | .charges n => word n
  | .actionId n => word n
  | .str _ s => writeString s
  | .date d => word d
  | .duration d => word d
  | .decayingState s => word s
  | .int _ v => word v
  | .imbueSlots n => word n
  | .imbuements l => word (BitVec.ofNat 16 l.length) ++ l.flatMap Imbuement.bytes
  | .custom l => word (BitVec.ofNat 64 l.length) ++ l.flatMap fun e => writeString e.1 ++ e.2.bytes

def Field.bytes (f : Field) : Bytes := f.tag.code :: f.value

/-- A field that is written under a condition. -/
def writeIf (p : Bool) (f : Field) : List Field := if p then [f] else []

/-- An integer attribute, if it is there. -/
def writeInt (it : Item) (f : IntField) : List Field :=
  match it.ints f.attr with
  | some v => [.int f (v.setWidth f.width)]
  | none => []

def writeName (it : Item) (a : StrAttr) : List Field :=
  match it.strs a with
  | some s => [.str a s]
  | none => []

def writeText (it : Item) (a : StrAttr) : List Field := writeIf (decide (it.getStrAttr a ≠ [])) (.str a (it.getStrAttr a))

section
variable (ty : TypeInfo) (enabled : Bool) (now : BitVec 64)

/-- `getImbuementSlots`: none while the imbuement system is off. -/
def Item.getImbuementSlots (it : Item) : BitVec 16 := if enabled then it.imbuementSlots else 0

/-- `serializeAttr`, as the fields it writes. -/
def fieldsOf (it : Item) : List Field :=
  writeIf (ty.stackable || ty.fluid) (.count ((it.getSubType ty).setWidth 8)) ++
  writeIf (decide (it.getCharges ≠ 0)) (.charges it.getCharges) ++
  writeIf (ty.moveable && decide (it.getActionId ≠ 0)) (.actionId it.getActionId) ++
  writeText it .text ++
  writeIf (decide (it.getIntAttr .date ≠ 0)) (.date ((it.getIntAttr .date).setWidth 32)) ++
  writeText it .writer ++
  writeText it .description ++
  writeIf (it.ints .duration).isSome (.duration (it.getDuration now)) ++
  writeIf (decide (it.getDecaying = DECAYING_TRUE) || decide (it.getDecaying = DECAYING_PENDING))
    (.decayingState it.getDecaying) ++
  writeName it .name ++
  writeName it .article ++
  writeName it .pluralName ++
  writeInt it .weight ++
  writeInt it .attack ++
  writeInt it .attackSpeed ++
  writeInt it .classification ++
  writeInt it .tier ++
  writeInt it .defense ++
  writeIf (decide (it.getImbuementSlots enabled ≠ 0)) (.imbueSlots (it.imbuementSlots.setWidth 32)) ++
  writeIf (!it.imbuements.isEmpty) (.imbuements it.imbuements) ++
  writeInt it .extraDefense ++
  writeInt it .armor ++
  writeInt it .hitChance ++
  writeInt it .shootRange ++
  writeInt it .wrapId ++
  writeInt it .storeItem ++
  writeIf (!it.custom.isEmpty) (.custom it.custom)

/-- `Item::serializeAttr`. -/
def serializeAttr (it : Item) : Bytes := (fieldsOf ty enabled now it).flatMap Field.bytes

end

/-! ## Reading -/

def readString : Scan Bytes := (readWord 16).scan.bind fun n => (cut n.toNat).scan

/-- `Imbuement::unserialize`. -/
def readImbuement : Scan Imbuement :=
  (readWord 32).scan.bind fun type => (readWord 32).scan.bind fun value => (readWord 32).scan.bind fun duration =>
  (readWord 32).scan.bind fun packed => Scan.pure
    ⟨type.setWidth 8, value, duration, (packed &&& 0xFFFF).setWidth 8, ((packed >>> 16) &&& 0xFFFF).setWidth 16⟩

/-- `CustomAttribute::unserialize`. -/
def readCustomValue : Scan CustomValue :=
  (readWord 8).scan.bind fun pos =>
  if pos = 0 then Scan.pure .none
  else if pos = 1 then readString.bind fun s => Scan.pure (.string s)
  else if pos = 2 then (readWord 64).scan.bind fun n => Scan.pure (.int n)
  else if pos = 3 then (readWord 64).scan.bind fun n => Scan.pure (.double n)
  else if pos = 4 then (readWord 8).scan.bind fun b => Scan.pure (.bool (decide (b ≠ 0)))
  else fun bs => (none, bs)

def readCustomEntry : Scan (Bytes × CustomValue) :=
  readString.bind fun key => readCustomValue.bind fun v => Scan.pure (key, v)

def readReflectEntry : Scan (BitVec 16 × Reflect) :=
  (readWord 16).scan.bind fun combatType => (readWord 16).scan.bind fun percent =>
  (readWord 16).scan.bind fun chance => Scan.pure (combatType, ⟨percent, chance⟩)

def readBoostEntry : Scan (BitVec 16 × BitVec 16) :=
  (readWord 16).scan.bind fun combatType => (readWord 16).scan.bind fun percent => Scan.pure (combatType, percent)

/-- A number and as many entries. -/
def counted {α : Type*} (n : Nat) (p : Scan α) : Scan (List α) := (readWord n).scan.bind fun size => p.times size.toNat

abbrev Result := Outcome Unit Item

/-- The value of a field, put into the item by a setter. -/
def set {α : Type*} (p : Scan α) (f : α → Item → Item) (it : Item) (bs : Bytes) : Result :=
  .scan () p (fun a => f a it) bs

/-- An integer attribute, in the width it is written in. -/
def setInt (f : IntField) (it : Item) (bs : Bytes) : Result :=
  set (readWord f.width).scan (fun v => Item.setIntAttr f.attr (f.widen v)) it bs

def setStr (a : StrAttr) (it : Item) (bs : Bytes) : Result := set readString (Item.setStrAttr a) it bs

def readDecaying (s : BitVec 8) (it : Item) : Item := if s ≠ DECAYING_FALSE then it.setDecaying DECAYING_PENDING else it

def skip (n : Nat) (it : Item) (bs : Bytes) : Result := set (cut n).scan (fun _ it => it) it bs

/-- `Item::readAttr`. `addUniqueItem` says whether the game takes a unique id. -/
def readAttr (ty : TypeInfo) (addUniqueItem : BitVec 16 → Bool) (t : AttrTag) (it : Item) (bs : Bytes) : Result :=
  match t with
  | .count | .runeCharges => set (readWord 8).scan (fun n => Item.setSubType ty (n.setWidth 16)) it bs
  | .actionId => set (readWord 16).scan Item.setActionId it bs
  | .uniqueId => set (readWord 16).scan (fun n it =>
      if (it.ints .uniqueId).isSome then it
      else if addUniqueItem n then it.setIntAttr .uniqueId (n.setWidth 64) else it) it bs
  | .text => setStr .text it bs
  | .writtenDate => set (readWord 32).scan Item.setDate it bs
  | .writtenBy => setStr .writer it bs
  | .desc => setStr .description it bs
  | .charges => set (readWord 16).scan (Item.setSubType ty) it bs
  | .duration => set (readWord 32).scan Item.setDuration it bs
  | .decayingState => set (readWord 8).scan readDecaying it bs
  | .name => setStr .name it bs
  | .article => setStr .article it bs
  | .pluralName => setStr .pluralName it bs
  | .weight => setInt .weight it bs
  | .attack => setInt .attack it bs
  | .attackSpeed => setInt .attackSpeed it bs
  | .imbueSlots => set (readWord 32).scan (fun n it => { it with imbuementSlots := n.setWidth 16 }) it bs
  | .defense => setInt .defense it bs
  | .extraDefense => setInt .extraDefense it bs
  | .armor => setInt .armor it bs
  | .hitChance => setInt .hitChance it bs
  | .shootRange => setInt .shootRange it bs
  | .wrapId => setInt .wrapId it bs
  | .storeItem => setInt .storeItem it bs
  | .rewardId => skip 4 it bs
  | .classification => setInt .classification it bs
  | .tier => setInt .tier it bs
  | .imbuements => set (counted 16 readImbuement) (fun l it => l.foldl (fun it i => it.addImbuement i) it) it bs
  | .reflect => set (counted 16 readReflectEntry) (fun l it => l.foldl (fun it e => it.setReflect e.1 e.2) it) it bs
  | .boost => set (counted 16 readBoostEntry) (fun l it => l.foldl (fun it e => it.setBoostPercent e.1 e.2) it) it bs
  | .depotId => skip 2 it bs
  | .houseDoorId => skip 1 it bs
  | .sleeperGuid => skip 4 it bs
  | .sleepStart => skip 4 it bs
  | .teleDest => skip 5 it bs
  | .containerItems => .failed () bs
  | .customAttributes => set (counted 64 readCustomEntry)
      (fun l it => l.foldl (fun it e => it.setCustomAttribute e.1 e.2) it) it bs

def readByte (ty : TypeInfo) (addUniqueItem : BitVec 16 → Bool) (b : UInt8) (it : Item) (bs : Bytes) : Result :=
  match AttrTag.ofCode b with
  | some t => readAttr ty addUniqueItem t it bs
  | none => .failed () bs

/-- `Item::unserializeAttr`. -/
def unserializeAttr (ty : TypeInfo) (addUniqueItem : BitVec 16 → Bool) (it : Item) (bs : Bytes) : Result :=
  readTags 0 (readByte ty addUniqueItem) it bs

end Backlands.Attributes
