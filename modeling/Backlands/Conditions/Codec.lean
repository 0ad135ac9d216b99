/-
  Backlands.Conditions.Codec — the conditions of a player as bytes (src/condition.cpp:
  `serialize`, `unserialize`, `createCondition`; src/iologindata.cpp: the loop of
  `loadPlayer` that reads them).

  A condition is what every condition has and what its class adds. Numbers are words of the
  width their field has; a floating-point number is the word it is copied as. `clock n c` is
  `OTSYS_TIME()` when the `n`-th condition has been read as far as `c`.

  A field of one class is read into a table at a cursor that nothing bounds; an index past
  the end of its table is an error of its own, `outOfRange`.
-/

import Backlands.Lib.Tagged

namespace Backlands.Conditions

open Backlands.Lib

/-! ## Conditions -/

inductive ConditionAttr where
  | type | id | ticks | healthTicks | healthGain | manaTicks | manaGain | delayed | owner | intervalData
  | speedDelta | formulaMinA | formulaMinB | formulaMaxA | formulaMaxB | lightColor | lightLevel | lightTicks
  | lightInterval | soulTicks | soulGain | skills | stats | outfit | periodDamage | isBuff | subId | isAggressive
  | disableDefense | specialSkills | experienceRate | healthGainPercent | manaGainPercent | constant | endTime
  | type64
  deriving DecidableEq

/-- The tags in the order of `ConditionAttr_t`, which counts from one. -/
def conditionAttrs : List ConditionAttr :=
  [.type, .id, .ticks, .healthTicks, .healthGain, .manaTicks, .manaGain, .delayed, .owner, .intervalData,
    .speedDelta, .formulaMinA, .formulaMinB, .formulaMaxA, .formulaMaxB, .lightColor, .lightLevel, .lightTicks,
    .lightInterval, .soulTicks, .soulGain, .skills, .stats, .outfit, .periodDamage, .isBuff, .subId, .isAggressive,
    .disableDefense, .specialSkills, .experienceRate, .healthGainPercent, .manaGainPercent, .constant, .endTime,
    .type64]

def ConditionAttr.code (a : ConditionAttr) : UInt8 := UInt8.ofNat (conditionAttrs.idxOf a + 1)

/-- The tag of a byte, for the bytes that are one. -/
def ConditionAttr.ofCode (b : UInt8) : Option ConditionAttr := conditionAttrs.find? fun a => a.code = b

def CONDITIONATTR_END : UInt8 := 254

inductive ConditionType where
  | poison | fire | energy | bleeding | haste | paralyze | outfit | invisible | light | manashield | infight | drunk
  | exhaustWeapon | regeneration | soul | drown | muted | channelMutedTicks | yellTicks | attributes | freezing
  | dazzled | cursed | exhaustCombat | exhaustHeal | pacified | cliport | spellCooldown | spellGroupCooldown | rooted
  | feared | agony | lesserHex | intenseHex | greaterHex | powerless
  deriving DecidableEq

/-- The types in the order of their bits. -/
def conditionTypes : List ConditionType :=
  [.poison, .fire, .energy, .bleeding, .haste, .paralyze, .outfit, .invisible, .light, .manashield, .infight, .drunk,
    .exhaustWeapon, .regeneration, .soul, .drown, .muted, .channelMutedTicks, .yellTicks, .attributes, .freezing,
    .dazzled, .cursed, .exhaustCombat, .exhaustHeal, .pacified, .cliport, .spellCooldown, .spellGroupCooldown,
    .rooted, .feared, .agony, .lesserHex, .intenseHex, .greaterHex, .powerless]

def ConditionType.value (t : ConditionType) : BitVec 64 := BitVec.ofNat 64 (2 ^ conditionTypes.idxOf t)

def ConditionType.ofValue (v : BitVec 64) : Option ConditionType := conditionTypes.find? fun t => t.value = v

/-- `ConditionAttributes`. The tables are indexed up to `SKILL_LAST`, `SPECIALSKILL_LAST`,
    `STAT_LAST` and `ExperienceRateType::STAMINA`. -/
structure Attributes where
  skills : Vector (BitVec 32) 7 := Vector.replicate 7 0
  skillsPercent : Vector (BitVec 32) 7 := Vector.replicate 7 0
  specialSkills : Vector (BitVec 32) 6 := Vector.replicate 6 0
  stats : Vector (BitVec 32) 5 := Vector.replicate 5 0
  statsPercent : Vector (BitVec 32) 5 := Vector.replicate 5 0
  experienceRate : Vector (BitVec 32) 5 := Vector.replicate 5 0
  buffDamageDealtPercent : BitVec 32 := 100
  buffDamageReceivedPercent : BitVec 32 := 100
  buffHealingReceivedPercent : BitVec 32 := 100
  currentSkill : Nat := 0
  currentSpecialSkill : Nat := 0
  currentStat : Nat := 0
  currentExperienceRate : Nat := 0
  disableDefense : Bool := false
  deriving DecidableEq

structure Regeneration where
  internalHealthTicks : BitVec 32 := 0
  internalManaTicks : BitVec 32 := 0
  healthTicks : BitVec 32 := 1000
  manaTicks : BitVec 32 := 1000
  healthGain : BitVec 32 := 0
  healthGainPercent : BitVec 32 := 0
  manaGain : BitVec 32 := 0
  manaGainPercent : BitVec 32 := 0
  deriving DecidableEq

structure Soul where
  internalSoulTicks : BitVec 32 := 0
  soulTicks : BitVec 32 := 0
  soulGain : BitVec 32 := 0
  deriving DecidableEq

structure IntervalInfo where
  timeLeft : BitVec 32
  value : BitVec 32
  interval : BitVec 32
  deriving DecidableEq

structure Damage where
  maxDamage : BitVec 32 := 0
  minDamage : BitVec 32 := 0
  startDamage : BitVec 32 := 0
  periodDamage : BitVec 32 := 0
  periodDamageTick : BitVec 32 := 0
  tickInterval : BitVec 32 := 2000
  initDamage : BitVec 32 := 0
  forceUpdate : Bool := false
  delayed : Bool := false
  field : Bool := false
  owner : BitVec 32 := 0
  damageList : List IntervalInfo := []
  deriving DecidableEq

structure Speed where
  speedDelta : BitVec 32
  mina : BitVec 32 := 0
  minb : BitVec 32 := 0
  maxa : BitVec 32 := 0
  maxb : BitVec 32 := 0
  deriving DecidableEq

structure Position where
  x : BitVec 16 := 0
  y : BitVec 16 := 0
  z : BitVec 8 := 0
  deriving DecidableEq

/-- `Outfit_t`, in the order of its members. -/
structure Outfit where
  lookType : BitVec 16 := 0
  lookTypeEx : BitVec 16 := 0
  lookMount : BitVec 16 := 0
  lookFamiliar : BitVec 16 := 0
  lookHead : BitVec 8 := 0
  lookBody : BitVec 8 := 0
  lookLegs : BitVec 8 := 0
  lookFeet : BitVec 8 := 0
  lookAddons : BitVec 8 := 0
  deriving DecidableEq

structure Light where
  level : BitVec 8
  color : BitVec 8
  internalLightTicks : BitVec 32 := 0
  lightChangeInterval : BitVec 32 := 0
  deriving DecidableEq

/-- The class of a condition, with what it adds. -/
inductive Body where
  | generic
  | attributes (a : Attributes)
  | regeneration (r : Regeneration)
  | soul (s : Soul)
  | invisible
  | damage (d : Damage)
  | speed (s : Speed)
  | rooted
  | feared (fleeingFromPos : Position)
  | outfit (o : Outfit)
  | light (l : Light)
  | spellCooldown
  | spellGroupCooldown
  | drunk (drunkenness : BitVec 8)
  deriving DecidableEq

structure Condition where
  endTime : BitVec 64
  subId : BitVec 32
  ticks : BitVec 32
  conditionType : BitVec 64
  isBuff : Bool
  aggressive : Bool
  constant : Bool
  id : BitVec 8
  body : Body
  deriving DecidableEq

/-- The class `createCondition` makes for a type, as its constructor leaves it. -/
def newBody (param : BitVec 32) : ConditionType → Body
  | .poison | .fire | .energy | .drown | .freezing | .dazzled | .cursed | .agony | .bleeding => .damage {}
  | .haste | .paralyze => .speed { speedDelta := param }
  | .rooted => .rooted
  | .feared => .feared {}
  | .invisible => .invisible
  | .outfit => .outfit {}
  | .light => .light { level := (param &&& 0xFF).setWidth 8, color := ((param &&& 0xFF00) >>> 8).setWidth 8 }
  | .regeneration => .regeneration {}
  | .soul => .soul {}
  | .attributes => .attributes {}
  | .spellCooldown => .spellCooldown
  | .spellGroupCooldown => .spellGroupCooldown
  | .drunk => .drunk (if param.setWidth 8 ≠ 0 then param.setWidth 8 else 25)
  | .infight | .exhaustWeapon | .exhaustCombat | .exhaustHeal | .muted | .channelMutedTicks | .yellTicks | .pacified
  | .manashield | .cliport | .lesserHex | .intenseHex | .greaterHex | .powerless => .generic

/-- The constructor of `Condition`. -/
def newCondition (id : BitVec 8) (type : BitVec 64) (ticks : BitVec 32) (buff : Bool) (subId : BitVec 32)
    (aggressive : Bool) (body : Body) : Condition where
  endTime := if ticks = -1 then BitVec.intMax 64 else 0
  subId := subId
  ticks := ticks
  conditionType := type
  isBuff := buff
  aggressive := aggressive
  constant := false
  id := id
  body := body

/-- The ticks a constructor is given: that of `ConditionDamage` is not given any. -/
def newTicks (ticks : BitVec 32) : Body → BitVec 32
  | .damage _ => 0
  | _ => ticks

/-- `createCondition` from values. -/
def createCondition (id : BitVec 8) (type : BitVec 64) (ticks param : BitVec 32) (buff : Bool) (subId : BitVec 32)
    (aggressive : Bool) : Option Condition :=
  (ConditionType.ofValue type).map fun t =>
    newCondition id type (newTicks ticks (newBody param t)) buff subId aggressive (newBody param t)

def CONDITIONID_DEFAULT : BitVec 8 := -1
def CONDITIONID_COMBAT : BitVec 8 := 0

def isPersistent (c : Condition) : Bool :=
  decide (c.ticks ≠ -1) &&
    (decide (c.id = CONDITIONID_DEFAULT) || decide (c.id = CONDITIONID_COMBAT) ||
      decide (c.conditionType = ConditionType.muted.value))

/-! ## Writing -/

def flag (b : Bool) : BitVec 8 := if b then 1 else 0

/-- A tag and its value. -/
def attr (a : ConditionAttr) {n : Nat} (x : BitVec n) : Bytes := a.code :: word x

/-- `Condition::serialize`. -/
def serializeBase (c : Condition) : Bytes :=
  (if 2 ^ 32 - 1 < c.conditionType.toNat then attr .type64 c.conditionType
    else attr .type (c.conditionType.setWidth 32)) ++
  attr .id (c.id.signExtend 32) ++ attr .ticks c.ticks ++ attr .isBuff (flag c.isBuff) ++ attr .subId c.subId ++
  attr .isAggressive (flag c.aggressive) ++ attr .constant (flag c.constant) ++
  if c.constant then attr .endTime c.endTime else []

def IntervalInfo.bytes (i : IntervalInfo) : Bytes := word i.timeLeft ++ word i.value ++ word i.interval

/-- `ConditionOutfit::serialize`, without the tag: the familiar is left out and the rest of
    `sizeof(Outfit_t)`, which is fourteen, filled with zeros. -/
def Outfit.bytes (o : Outfit) : Bytes :=
  word o.lookType ++ word o.lookTypeEx ++ word o.lookMount ++ word o.lookHead ++ word o.lookBody ++
    word o.lookLegs ++ word o.lookFeet ++ word o.lookAddons ++ [0, 0, 0]

/-- `ConditionAttributes::serialize`, after the base: the experience rates have the tag of
    the special skills. -/
def Attributes.serialize (a : Attributes) : Bytes :=
  a.skills.toList.flatMap (attr .skills) ++ a.stats.toList.flatMap (attr .stats) ++
    attr .disableDefense (flag a.disableDefense) ++ a.specialSkills.toList.flatMap (attr .specialSkills) ++
    (a.experienceRate.toList.drop 1).flatMap (attr .specialSkills)

def Regeneration.serialize (r : Regeneration) : Bytes :=
  attr .healthTicks r.healthTicks ++ attr .healthGain r.healthGain ++ attr .healthGainPercent r.healthGainPercent ++
    attr .manaTicks r.manaTicks ++ attr .manaGain r.manaGain ++ attr .manaGainPercent r.manaGainPercent

def Soul.serialize (s : Soul) : Bytes := attr .soulGain s.soulGain ++ attr .soulTicks s.soulTicks

def Damage.serialize (d : Damage) : Bytes :=
  attr .delayed (flag d.delayed) ++ attr .periodDamage d.periodDamage ++
    d.damageList.flatMap fun i => ConditionAttr.intervalData.code :: i.bytes

def Speed.serialize (s : Speed) : Bytes :=
  attr .speedDelta s.speedDelta ++ attr .formulaMinA s.mina ++ attr .formulaMinB s.minb ++
    attr .formulaMaxA s.maxa ++ attr .formulaMaxB s.maxb

/-- `ConditionLight::serialize`, after the base: color and level in 32 bits. -/
def Light.serialize (l : Light) : Bytes :=
  attr .lightColor (l.color.setWidth 32) ++ attr .lightLevel (l.level.setWidth 32) ++
    attr .lightTicks l.internalLightTicks ++ attr .lightInterval l.lightChangeInterval

/-- What the class of a condition writes after the base. -/
def serializeBody : Body → Bytes
  | .attributes a => a.serialize
  | .regeneration r => r.serialize
  | .soul s => s.serialize
  | .damage d => d.serialize
  | .speed s => s.serialize
  | .outfit o => ConditionAttr.outfit.code :: o.bytes
  | .light l => l.serialize
  | .generic | .invisible | .rooted | .feared _ | .spellCooldown | .spellGroupCooldown | .drunk _ => []

def serialize (c : Condition) : Bytes := serializeBase c ++ serializeBody c.body

/-- `savePlayerQueries`: the column, from the conditions that are saved. -/
def stream (cs : List Condition) : Bytes := cs.flatMap fun c => serialize c ++ [CONDITIONATTR_END]

/-! ## Reading -/

inductive ReadError where
  | malformed
  | outOfRange
  deriving DecidableEq

abbrev Result := Outcome ReadError Condition

/-- `Condition::unserializeProp`. -/
def unserializeBase (a : ConditionAttr) (c : Condition) (bs : Bytes) : Result :=
  match a with
  | .type => .field .malformed (readWord 32) (fun v => { c with conditionType := v.setWidth 64 }) bs
  | .type64 => .field .malformed (readWord 64) (fun v => { c with conditionType := v }) bs
  | .id => .field .malformed (readWord 32) (fun v => { c with id := v.setWidth 8 }) bs
  | .ticks => .field .malformed (readWord 32) (fun v => { c with ticks := v }) bs
  | .isBuff => .field .malformed (readWord 8) (fun v => { c with isBuff := decide (v ≠ 0) }) bs
  | .subId => .field .malformed (readWord 32) (fun v => { c with subId := v }) bs
  | .isAggressive => .field .malformed (readWord 8) (fun v => { c with aggressive := decide (v ≠ 0) }) bs
  | .constant => .field .malformed (readWord 8) (fun v => { c with constant := decide (v ≠ 0) }) bs
  | .endTime => .field .malformed (readWord 64) (fun v => { c with endTime := v }) bs
  | _ => .failed .malformed bs

/-- `setTicks`, and `endTime` with it. -/
def setTicks (now : BitVec 64) (ticks : BitVec 32) (c : Condition) : Condition :=
  { c with ticks := ticks, endTime := ticks.signExtend 64 + now }

def readEntry {n : Nat} (table : Vector (BitVec 32) n) (cursor : Nat) (c : Condition)
    (f : Vector (BitVec 32) n → Body) (bs : Bytes) : Result :=
  if cursor < n then .field .malformed (readWord 32) (fun v => { c with body := f (table.setIfInBounds cursor v) }) bs
  else .failed .outOfRange bs

def readIntervalInfo : Reader IntervalInfo :=
  (readWord 32).bind fun timeLeft => (readWord 32).bind fun value => (readWord 32).map fun interval =>
    ⟨timeLeft, value, interval⟩

/-- `read<Outfit_t>`: the members as they stand in memory, and a byte of padding. -/
def readOutfit : Reader Outfit :=
  (readWord 16).bind fun lookType => (readWord 16).bind fun lookTypeEx => (readWord 16).bind fun lookMount =>
  (readWord 16).bind fun lookFamiliar => (readWord 8).bind fun lookHead => (readWord 8).bind fun lookBody =>
  (readWord 8).bind fun lookLegs => (readWord 8).bind fun lookFeet => (readWord 8).bind fun lookAddons =>
  (cut 1).map fun _ =>
    ⟨lookType, lookTypeEx, lookMount, lookFamiliar, lookHead, lookBody, lookLegs, lookFeet, lookAddons⟩

def member (n : Nat) (c : Condition) (f : BitVec n → Body) (bs : Bytes) : Result :=
  .field .malformed (readWord n) (fun v => { c with body := f v }) bs

/-- `ConditionAttributes::unserializeProp`. -/
def Attributes.unserializeProp (t : Attributes) (a : ConditionAttr) (c : Condition) (bs : Bytes) : Result :=
  match a with
  | .skills => readEntry t.skills t.currentSkill c
      (fun v => .attributes { t with skills := v, currentSkill := t.currentSkill + 1 }) bs
  | .specialSkills => readEntry t.specialSkills t.currentSpecialSkill c
      (fun v => .attributes { t with specialSkills := v, currentSpecialSkill := t.currentSpecialSkill + 1 }) bs
  | .stats => readEntry t.stats t.currentStat c
      (fun v => .attributes { t with stats := v, currentStat := t.currentStat + 1 }) bs
  | .experienceRate => readEntry t.experienceRate t.currentExperienceRate c
      (fun v => .attributes { t with experienceRate := v, currentExperienceRate := t.currentExperienceRate + 1 }) bs
  | .disableDefense => member 8 c (fun v => .attributes { t with disableDefense := decide (v ≠ 0) }) bs
  | a => unserializeBase a c bs

/-- `ConditionRegeneration::unserializeProp`. -/
def Regeneration.unserializeProp (r : Regeneration) (a : ConditionAttr) (c : Condition) (bs : Bytes) : Result :=
  match a with
  | .healthTicks => member 32 c (fun v => .regeneration { r with healthTicks := v }) bs
  | .healthGain => member 32 c (fun v => .regeneration { r with healthGain := v }) bs
  | .healthGainPercent => member 32 c (fun v => .regeneration { r with healthGainPercent := v }) bs
  | .manaTicks => member 32 c (fun v => .regeneration { r with manaTicks := v }) bs
  | .manaGain => member 32 c (fun v => .regeneration { r with manaGain := v }) bs
  | .manaGainPercent => member 32 c (fun v => .regeneration { r with manaGainPercent := v }) bs
  | a => unserializeBase a c bs

/-- `ConditionSoul::unserializeProp`. -/
def Soul.unserializeProp (s : Soul) (a : ConditionAttr) (c : Condition) (bs : Bytes) : Result :=
  match a with
  | .soulGain => member 32 c (fun v => .soul { s with soulGain := v }) bs
  | .soulTicks => member 32 c (fun v => .soul { s with soulTicks := v }) bs
  | a => unserializeBase a c bs

/-- An entry of the damage list, and the ticks with it. -/
def addInterval (c : Condition) (d : Damage) (now : BitVec 64) (i : IntervalInfo) : Condition :=
  let c := { c with body := .damage { d with damageList := d.damageList ++ [i] } }
  if c.ticks ≠ -1 then setTicks now (c.ticks + i.interval) c else c

/-- `ConditionDamage::unserializeProp`. -/
def Damage.unserializeProp (now : Condition → BitVec 64) (d : Damage) (a : ConditionAttr) (c : Condition) (bs : Bytes) :
    Result :=
  match a with
  | .delayed => member 8 c (fun v => .damage { d with delayed := decide (v ≠ 0) }) bs
  | .periodDamage => member 32 c (fun v => .damage { d with periodDamage := v }) bs
  | .owner => .field .malformed (cut 4) (fun _ => c) bs
  | .intervalData => .field .malformed readIntervalInfo (addInterval c d (now c)) bs
  | a => unserializeBase a c bs

/-- `ConditionSpeed::unserializeProp`. -/
def Speed.unserializeProp (s : Speed) (a : ConditionAttr) (c : Condition) (bs : Bytes) : Result :=
  match a with
  | .speedDelta => member 32 c (fun v => .speed { s with speedDelta := v }) bs
  | .formulaMinA => member 32 c (fun v => .speed { s with mina := v }) bs
  | .formulaMinB => member 32 c (fun v => .speed { s with minb := v }) bs
  | .formulaMaxA => member 32 c (fun v => .speed { s with maxa := v }) bs
  | .formulaMaxB => member 32 c (fun v => .speed { s with maxb := v }) bs
  | a => unserializeBase a c bs

/-- `ConditionOutfit::unserializeProp`. -/
def Outfit.unserializeProp (a : ConditionAttr) (c : Condition) (bs : Bytes) : Result :=
  match a with
  | .outfit => .field .malformed readOutfit (fun o => { c with body := .outfit o }) bs
  | a => unserializeBase a c bs

/-- `ConditionLight::unserializeProp`. -/
def Light.unserializeProp (l : Light) (a : ConditionAttr) (c : Condition) (bs : Bytes) : Result :=
  match a with
  | .lightColor => member 8 c (fun v => .light { l with color := v }) bs
  | .lightLevel => member 8 c (fun v => .light { l with level := v }) bs
  | .lightTicks => member 32 c (fun v => .light { l with internalLightTicks := v }) bs
  | .lightInterval => member 32 c (fun v => .light { l with lightChangeInterval := v }) bs
  | a => unserializeBase a c bs

section
variable (now : Condition → BitVec 64)

/-- `unserializeProp` of the condition's class. -/
def unserializeProp (a : ConditionAttr) (c : Condition) (bs : Bytes) : Result :=
  match c.body with
  | .attributes t => t.unserializeProp a c bs
  | .regeneration r => r.unserializeProp a c bs
  | .soul s => s.unserializeProp a c bs
  | .damage d => d.unserializeProp now a c bs
  | .speed s => s.unserializeProp a c bs
  | .outfit _ => Outfit.unserializeProp a c bs
  | .light l => l.unserializeProp a c bs
  | .generic | .invisible | .rooted | .feared _ | .spellCooldown | .spellGroupCooldown | .drunk _ =>
    unserializeBase a c bs

/-- A byte that is no tag is refused. -/
def unserializeByte (b : UInt8) (c : Condition) (bs : Bytes) : Result :=
  match ConditionAttr.ofCode b with
  | some a => unserializeProp now a c bs
  | none => .failed .malformed bs

/-- `Condition::unserialize`. -/
def unserialize (c : Condition) (bs : Bytes) : Result := readTags CONDITIONATTR_END (unserializeByte now) c bs

end

/-- A byte that has to be the given tag. -/
def expect (a : ConditionAttr) : Reader Unit
  | [] => none
  | b :: bs => if b = a.code then some ((), bs) else none

def readType : Reader (BitVec 64)
  | [] => none
  | b :: bs =>
    if b = ConditionAttr.type.code then (readWord 32).map (·.setWidth 64) bs
    else if b = ConditionAttr.type64.code then readWord 64 bs
    else none

/-- The end of the header: `endTime` follows for a constant condition. -/
def readConstant (c : Condition) (constant : BitVec 8) : Reader Condition :=
  if constant ≠ 0 then
    (expect .endTime).bind fun _ => (readWord 64).map fun endTime => { c with constant := true, endTime := endTime }
  else fun bs => some ({ c with constant := false }, bs)

/-- `createCondition` from a stream. -/
def createFromStream : Reader Condition :=
  readType.bind fun type =>
  if type = 0 ∨ type &&& (type - 1) ≠ 0 then fun _ => none
  else
    (expect .id).bind fun _ => (readWord 32).bind fun id =>
    (expect .ticks).bind fun _ => (readWord 32).bind fun ticks =>
    (expect .isBuff).bind fun _ => (readWord 8).bind fun buff =>
    (expect .subId).bind fun _ => (readWord 32).bind fun subId =>
    (expect .isAggressive).bind fun _ => (readWord 8).bind fun aggressive =>
    (expect .constant).bind fun _ => (readWord 8).bind fun constant =>
    match createCondition (id.setWidth 8) type ticks 0 (decide (buff ≠ 0)) subId (decide (aggressive ≠ 0)) with
    | none => fun _ => none
    | some c => readConstant c constant

/-- What one turn of the loop in `loadPlayer` does: a condition is stored and so much of the
    stream is left, or it is dropped, or a table is indexed past its end. -/
inductive Event where
  | stored (c : Condition) (rest : Bytes)
  | dropped (rest : Bytes)
  | outOfRange
  deriving DecidableEq

/-- The rest of the loop after a condition was read. -/
def nextEvents (next : Bytes → List Event) : Result → List Event
  | .more c rest => .stored c rest :: next rest
  | .ended c rest => .stored c rest :: next rest
  | .failed .malformed rest => .dropped rest :: next rest
  | .failed .outOfRange _ => [.outOfRange]

/-- The loop of `loadPlayer`. A condition takes a byte at least, so the length of the stream
    is fuel enough. -/
def loadEvents : (Nat → Condition → BitVec 64) → Nat → Bytes → List Event
  | _, 0, _ => []
  | clock, fuel + 1, bs =>
    match createFromStream bs with
    | none => []
    | some (c, mid) => nextEvents (loadEvents (fun n => clock (n + 1)) fuel) (unserialize (clock 0) c mid)

def loadConditions (clock : Nat → Condition → BitVec 64) (bs : Bytes) : List Event := loadEvents clock bs.length bs

def Event.condition? : Event → Option Condition
  | .stored c _ => some c
  | _ => none

/-- What is left of the stream after a condition that was stored. -/
def Event.rest? : Event → Option Bytes
  | .stored _ rest => some rest
  | _ => none

/-- `storedConditionList`, built with `push_front`. -/
def storedConditionList (events : List Event) : List Condition := (events.filterMap Event.condition?).reverse

end Backlands.Conditions
