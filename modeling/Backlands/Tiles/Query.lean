/-
  Backlands.Tiles.Query — what a tile says to a thing that wants to move onto it
  (`Tile::queryAdd`, src/tile.cpp; `Player::canWalkthrough`, src/player.cpp).

  A creature on the tile has this tile as its own. Of the actor only the instance is read, and
  of the moving creature what the query asks it.
-/

import Backlands.Tiles.Things

namespace Backlands.Tiles

open Backlands.Lib

inductive ReturnValue
  | noError | notPossible | notEnoughRoom | needExchange | cannotAddMoreItemsOnTile | itemCannotBeMovedThere
  | playerIsPzLocked | playerIsPzLockedEnterPvpZone | playerIsPzLockedLeavePvpZone
  deriving DecidableEq

/-! ## Flags of the query -/

namespace Flag

def nolimit : BitVec 32 := 1 <<< 0
def ignoreblockitem : BitVec 32 := 1 <<< 1
def ignoreblockcreature : BitVec 32 := 1 <<< 2
def pathfinding : BitVec 32 := 1 <<< 4
def ignorefielddamage : BitVec 32 := 1 <<< 5

end Flag

def tileMaxItems : Nat := 10

structure Config where
  familiarEnterPz : Bool := true
  allowWalkthrough : Bool := true
  protectionLevel : Int := 1

/-! ## What moves -/

structure MovingMonster where
  instanceID : Nat := 0
  isFamiliar : Bool := false
  canPushCreatures : Bool := false
  canPushItems : Bool := false
  isSummon : Bool := false
  isIgnoringFieldDamage : Bool := false
  /-- By the type of combat. -/
  isImmune : Nat → Bool := fun _ => false
  canWalkOnFieldType : Nat → Bool := fun _ => true
  /-- By the attacker. -/
  hasBeenAttacked : Nat → Bool := fun _ => false

structure MovingPlayer where
  instanceID : Nat := 0
  isAccessPlayer : Bool := false
  isAccountManager : Bool := false
  isPzLocked : Bool := false
  /-- The flags of the tile it stands on. -/
  tile : Option (BitVec 32) := none

inductive Moving
  | monster (m : MovingMonster)
  | player (p : MovingPlayer)
  | npc (instanceID : Nat)
  | item (a : Item)

def Moving.instanceID : Moving → Nat
  | .monster m => m.instanceID
  | .player p => p.instanceID
  | .npc instanceID => instanceID
  | .item a => a.instanceID

namespace Items

variable (items : Items)

def isPickupable (a : Item) : Bool := (items a.id).allowPickupable || (items a.id).pickupable

/-- Solid, and it stays where it is. -/
def blocksForGood (a : Item) : Bool := (items a.id).blockSolid && (!(items a.id).moveable || a.uniqueId)

def leavesNoRoom (there a : Item) : Bool :=
  let iiType := items there.id
  if !iiType.blockSolid then false
  else if iiType.ignoreBlocking && !(items a.id).isMagicField && !(items a.id).blockSolid then false
  else if !items.isPickupable a then true
  else !iiType.hasHeight || iiType.pickupable || iiType.isBed

end Items

def queryField (items : Items) (monster : MovingMonster) (flags : BitVec 32) : Option Item → ReturnValue
  | none => .noError
  | some field =>
    if (items field.id).blockSolid || (items field.id).damage = 0 then .noError
    else
      let combatType := (items field.id).combatType
      if !monster.isImmune combatType then
        if hasBitSet Flag.ignorefielddamage flags then
          let canForceField := field.owner ≠ 0 && monster.isIgnoringFieldDamage && monster.hasBeenAttacked field.owner
          if !monster.canWalkOnFieldType combatType && !canForceField then .notPossible else .noError
        else .notPossible
      else .noError

namespace Tile

variable (cfg : Config) (items : Items) (t : Tile)

/-! ## What the query looks up -/

def hasInstancedProperty (prop : ItemProperty) (instanceID : Nat) : Bool :=
  if instanceID = 0 then false
  else t.items.any fun a => a.instanceID = instanceID && items.hasProperty a prop

def getFieldItem (instanceID : Nat) : Option Item :=
  if !t.hasFlag Tilestate.magicfield then none
  else if t.ground.any (·.cls = .magicField) then t.ground
  else t.items.reverse.find? fun a => a.cls = .magicField && a.instanceID = instanceID

def canWalkthrough (player : MovingPlayer) (creature : Creature) : Bool :=
  if player.isAccessPlayer || creature.isInGhostMode then true
  else if player.instanceID ≠ creature.instanceID then true
  else
    match creature.kind with
    | .player _ isAccountManager level =>
      if player.isAccountManager || isAccountManager then true
      else if !cfg.allowWalkthrough then false
      else if !t.hasFlag Tilestate.protectionzone && (level : Int) > cfg.protectionLevel then false
      else t.ground.any fun ground => (items ground.id).walkStack
    | _ => false

/-! ## The query -/

/-- The last check of a creature that moves by itself. -/
def queryItems (flags : BitVec 32) (actorInstanceID : Nat) : ReturnValue :=
  if !hasBitSet Flag.ignoreblockitem flags then
    if t.hasFlag Tilestate.blocksolid || t.hasInstancedProperty items .blocksolid actorInstanceID then .notEnoughRoom
    else .noError
  else if t.ground.any items.blocksForGood then .notPossible
  else if t.items.any fun a => !(a.instanceID ≠ 0 && a.instanceID ≠ actorInstanceID) && items.blocksForGood a then
    .notPossible
  else .noError

def queryCreatures (monster : MovingMonster) : Option ReturnValue :=
  if monster.canPushCreatures && !monster.isSummon then
    if t.creatures.any fun c => !c.isInGhostMode && monster.instanceID = c.instanceID &&
      (match c.kind with
        | .monster pushable summon masterIsPlayer => !pushable || (summon && masterIsPlayer)
        | _ => true) then some .notPossible
    else none
  else if t.creatures.any fun c => !c.isInGhostMode && monster.instanceID = c.instanceID then some .notEnoughRoom
  else none

def queryMonster (monster : MovingMonster) (flags : BitVec 32) (actorInstanceID : Nat) : ReturnValue :=
  let canEnterProtectionZone := monster.isFamiliar && cfg.familiarEnterPz
  if (!canEnterProtectionZone && t.hasFlag Tilestate.protectionzone) ||
      t.hasFlag (Tilestate.floorchange ||| Tilestate.teleport) then .notPossible
  else
    match t.queryCreatures monster with
    | some ret => ret
    | none =>
      if t.hasFlag Tilestate.immovableblocksolid || t.hasInstancedProperty items .immovableblocksolid actorInstanceID then
        .notPossible
      else if hasBitSet Flag.pathfinding flags && (t.hasFlag Tilestate.immovablenofieldblockpath ||
          t.hasInstancedProperty items .immovablenofieldblockpath actorInstanceID) then .notPossible
      else if ((t.hasFlag Tilestate.blocksolid || t.hasInstancedProperty items .blocksolid actorInstanceID) ||
          (hasBitSet Flag.pathfinding flags && (t.hasFlag Tilestate.nofieldblockpath ||
            t.hasInstancedProperty items .nofieldblockpath actorInstanceID))) &&
          !(monster.canPushItems || hasBitSet Flag.ignoreblockitem flags) then .notPossible
      else queryField items monster flags (t.getFieldItem actorInstanceID)

def queryZone (player : MovingPlayer) : Option ReturnValue :=
  match player.tile with
  | none => none
  | some playerTile =>
    if !player.isPzLocked then none
    else if !hasBitSet Tilestate.pvpzone playerTile && t.hasFlag Tilestate.pvpzone then some .playerIsPzLockedEnterPvpZone
    else if hasBitSet Tilestate.pvpzone playerTile && !t.hasFlag Tilestate.pvpzone then some .playerIsPzLockedLeavePvpZone
    else if (!hasBitSet Tilestate.nopvpzone playerTile && t.hasFlag Tilestate.nopvpzone) ||
        (!hasBitSet Tilestate.protectionzone playerTile && t.hasFlag Tilestate.protectionzone) then some .playerIsPzLocked
    else none

def queryPlayer (player : MovingPlayer) (flags : BitVec 32) (actorInstanceID : Nat) : ReturnValue :=
  if !hasBitSet Flag.ignoreblockcreature flags && !player.isAccessPlayer &&
      t.creatures.any (fun c => !t.canWalkthrough cfg items player c) then .notPossible
  else if (t.getFieldItem actorInstanceID).any (fun field => (items field.id).damage ≠ 0) &&
      hasBitSet Flag.pathfinding flags && !hasBitSet Flag.ignorefielddamage flags then .notPossible
  else if player.tile.isNone && t.hasFlag Tilestate.nologout then .notPossible
  else
    match t.queryZone player with
    | some ret => ret
    | none => t.queryItems items flags actorInstanceID

def queryNpc (instanceID : Nat) (flags : BitVec 32) (actorInstanceID : Nat) : ReturnValue :=
  if !hasBitSet Flag.ignoreblockcreature flags &&
      t.creatures.any (fun c => !c.isInGhostMode && instanceID = c.instanceID) then .notEnoughRoom
  else t.queryItems items flags actorInstanceID

def queryItem (item : Item) (flags : BitVec 32) (actorInstanceID : Nat) : ReturnValue :=
  if t.items.length ≥ 0xFFFF then .notPossible
  else if hasBitSet Flag.nolimit flags then .noError
  else if t.items.length ≥ tileMaxItems then .cannotAddMoreItemsOnTile
  else if item.storeItem then .itemCannotBeMovedThere
  else if t.hasFlag Tilestate.trashholder && items.hasProperty item .moveable then .noError
  else if t.ground.isNone && !(items item.id).isHangable then .notPossible
  else if (items item.id).blockSolid && !hasBitSet Flag.ignoreblockcreature flags &&
      t.creatures.any (fun c => !c.isInGhostMode) then .notEnoughRoom
  else if (items item.id).isHangable && t.hasFlag Tilestate.supportsHangable then
    if t.items.any fun a => (items a.id).isHangable then .needExchange else .noError
  else if t.ground.any fun ground => items.leavesNoRoom ground item then .notEnoughRoom
  else if t.items.any fun a => !(a.instanceID ≠ 0 && a.instanceID ≠ actorInstanceID) && items.leavesNoRoom a item then
    .notEnoughRoom
  else .noError

def queryAdd (thing : Moving) (flags : BitVec 32) (actor : Option Nat) : ReturnValue :=
  let actorInstanceID := actor.getD 0
  let toCreature := fun ret : ReturnValue =>
    if hasBitSet Flag.nolimit flags then .noError
    else if hasBitSet Flag.pathfinding flags && t.hasFlag (Tilestate.floorchange ||| Tilestate.teleport) then .notPossible
    else if t.ground.isNone then .notPossible
    else ret
  match thing with
  | .monster monster => toCreature (t.queryMonster cfg items monster flags actorInstanceID)
  | .player player => toCreature (t.queryPlayer cfg items player flags actorInstanceID)
  | .npc instanceID => toCreature (t.queryNpc items instanceID flags actorInstanceID)
  | .item item => t.queryItem items item flags actorInstanceID

end Tile

end Backlands.Tiles
