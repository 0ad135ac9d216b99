/-
  Backlands.Creatures.Targets — whom a monster without a master keeps on its target list
  (src/monster.cpp).

  A notification comes with the world its handler finds: the creatures that are alive, those the
  map's leaves list, the settings, and whom the monster attacks and follows by then. The clock
  stands still while a handler runs, so `hasPlayerNearby` has one answer. A search finds who is
  listed within the rectangle of its floor (World.Spectators); the script callbacks of a monster
  type are none.

  Of the two tests that guard the list only `isValidKnownTarget`, which throws out, asks whether a
  creature can be attacked and is out of protection zones.

  Proved: `targets_valid`. Counterexample: `player_enters_protection_zone`.
-/

import Backlands.World.Spectators

namespace Backlands.Creatures.Targets

open Backlands.Lib List
open World (Position CreatureId maxViewportX maxViewportY MAP_MAX_LAYERS)

def classicViewportX : Int := 8

def classicViewportY : Int := 6

inductive ZoneType
  | ZONE_PROTECTION
  | ZONE_NOPVP
  | ZONE_PVP
  | ZONE_NOLOGOUT
  | ZONE_NORMAL
  deriving DecidableEq

inductive Kind
  | player (ignoredByMonsters : Bool)
  | monster (faction : Nat)
  | npc
  deriving DecidableEq

structure Creature where
  kind : Kind
  position : Position
  /-- The zone of its tile. -/
  tile : Option ZoneType := some .ZONE_NORMAL
  removed : Bool := false
  health : Int := 100
  attackable : Bool := true
  instanceId : Nat := 0
  ghostMode : Bool := false
  invisible : Bool := false
  master : Option CreatureId := none

namespace Creature

variable (c : Creature)

def isPlayer : Bool := match c.kind with
  | .player _ => true
  | _ => false

def isDead : Bool := decide (c.health ≤ 0)

def getZone : ZoneType := c.tile.getD .ZONE_NORMAL

end Creature

structure MonsterType where
  faction : Nat := 0
  enemyFactions : List Nat := []
  canSeeInvisibility : Bool := false
  /-- The target distance in force is at most 1. -/
  melee : Bool := true

/-- What a handler finds. -/
structure World where
  /-- `weak_ptr::lock` -/
  creature : CreatureId → Option Creature
  /-- The creatures that the map's leaves list, in the order a search meets them. -/
  listed : List CreatureId
  monsterFactionSystem : Bool := false
  requirePlayerNearby : Bool := false
  hasPlayerNearby : Bool := false
  /-- The monster itself. -/
  self : CreatureId
  mType : MonsterType := {}
  position : Position
  removed : Bool := false
  health : Int := 100
  instanceId : Nat := 0
  /-- It has an aggressive condition. -/
  aggressive : Bool := false
  challengeFocusDuration : Int := 0
  hasFollowPath : Bool := false
  attackedCreature : Option CreatureId := none
  followCreature : Option CreatureId := none
  /-- The top creature of the square towards the creature it follows. -/
  blocker : Option CreatureId := none

structure Monster where
  targetList : List CreatureId := []
  friendList : List CreatureId := []
  isIdle : Bool := true
  attackedCreature : Option CreatureId := none
  followCreature : Option CreatureId := none

/-! ## What a monster asks of a creature -/

namespace World

variable (w : World)

def canSee (pos : Position) : Bool :=
  decide (pos.z = w.position.z) &&
    decide ((pos.x.toNat : Int) ≥ w.position.x.toNat - (classicViewportX + 1)) &&
    decide ((pos.x.toNat : Int) ≤ w.position.x.toNat + (classicViewportX + 1)) &&
    decide ((pos.y.toNat : Int) ≥ w.position.y.toNat - (classicViewportY + 1)) &&
    decide ((pos.y.toNat : Int) ≤ w.position.y.toNat + (classicViewportY + 1))

/-- A monster has no sight of ghosts. -/
def canSeeCreature (c : Creature) : Bool :=
  decide (w.instanceId = c.instanceId) && !c.ghostMode && (w.mType.canSeeInvisibility || !c.invisible)

def getMaster (c : Creature) : Option Creature := c.master.bind w.creature

def isSummon (c : Creature) : Bool := (w.getMaster c).isSome

def isEnemyFaction (faction : Nat) : Bool := decide (faction ≠ 0) && w.mType.enemyFactions.contains faction

def isFactionCombatTarget (c : Creature) : Bool :=
  decide (w.mType.faction ≠ 0) &&
    match c.kind with
    | .monster faction => !w.isSummon c && w.isEnemyFaction faction
    | _ => false

def isFactionCombatAllowed : Bool :=
  w.monsterFactionSystem && decide (w.mType.faction ≠ 0) && (!w.requirePlayerNearby || w.hasPlayerNearby)

def canAttackByFaction (c : Creature) : Bool := w.isFactionCombatAllowed && w.isFactionCombatTarget c

def isFriend (i : CreatureId) (c : Creature) : Bool :=
  decide (i = w.self) ||
    match c.kind with
    | .monster faction => !w.isSummon c && !(w.monsterFactionSystem && w.isEnemyFaction faction)
    | _ => false

def isOpponent (i : CreatureId) (c : Creature) : Bool :=
  decide (i ≠ w.self) && !c.removed && !c.isDead &&
    match c.kind with
    | .npc => false
    | .player ignoredByMonsters => !ignoredByMonsters
    | .monster _ => (w.getMaster c).any Creature.isPlayer || w.canAttackByFaction c

def isValidKnownFriend (i : CreatureId) : Bool :=
  match w.creature i with
  | none => false
  | some c => !c.removed && !c.isDead && c.tile.isSome && w.canSee c.position && w.canSeeCreature c && w.isFriend i c

def isValidKnownTarget (i : CreatureId) : Bool :=
  match w.creature i with
  | none => false
  | some c =>
    !c.removed && !c.isDead && c.attackable && c.tile.isSome && w.canSee c.position && w.canSeeCreature c &&
      decide (c.getZone ≠ .ZONE_PROTECTION) &&
      match c.kind with
      | .monster _ => if w.isSummon c then w.isOpponent i c else w.monsterFactionSystem && w.isFactionCombatTarget c
      | _ => w.isOpponent i c

def isTarget (c : Creature) : Bool :=
  !c.removed && c.attackable && decide (c.getZone ≠ .ZONE_PROTECTION) && w.canSeeCreature c &&
    decide (c.position.z = w.position.z)

/-- `Map::getSpectators` of one floor; a range of 0 is the viewport. -/
def getSpectators (centerPos : Position) (rangeX rangeY : Int) : List CreatureId :=
  let rangeX := if rangeX = 0 then maxViewportX else rangeX
  let rangeY := if rangeY = 0 then maxViewportY else rangeY
  if (centerPos.z.toNat : Int) ≥ MAP_MAX_LAYERS then []
  else w.listed.filter fun i =>
    match w.creature i with
    | none => false
    | some c =>
      !c.removed && decide (c.position.z = centerPos.z) &&
        decide ((centerPos.x.toNat : Int) - rangeX ≤ c.position.x.toNat) &&
        decide ((c.position.x.toNat : Int) ≤ centerPos.x.toNat + rangeX) &&
        decide ((centerPos.y.toNat : Int) - rangeY ≤ c.position.y.toNat) &&
        decide ((c.position.y.toNat : Int) ≤ centerPos.y.toNat + rangeY)

/-- `shiftedPosition` -/
def shiftedPosition (newPosition : Position) (offsetX offsetY : Int) : Position where
  x := BitVec.ofInt 16 (max 0 (min 65535 (newPosition.x.toNat + offsetX)))
  y := BitVec.ofInt 16 (max 0 (min 65535 (newPosition.y.toNat + offsetY)))
  z := newPosition.z

/-- Who stands on the rows and columns that a step brought into sight. -/
def edgeSpectators (oldPosition newPosition : Position) : List CreatureId :=
  let viewRangeX := classicViewportX + 1
  let viewRangeY := classicViewportY + 1
  let column :=
    if newPosition.x.toNat > oldPosition.x.toNat then w.getSpectators (shiftedPosition newPosition viewRangeX 0) 1 viewRangeY
    else if newPosition.x.toNat < oldPosition.x.toNat then
      w.getSpectators (shiftedPosition newPosition (-viewRangeX) 0) 1 viewRangeY
    else []
  let row :=
    if newPosition.y.toNat > oldPosition.y.toNat then w.getSpectators (shiftedPosition newPosition 0 viewRangeY) viewRangeX 1
    else if newPosition.y.toNat < oldPosition.y.toNat then
      w.getSpectators (shiftedPosition newPosition 0 (-viewRangeY)) viewRangeX 1
    else []
  (column ++ row).dedup

end World

/-! ## The two lists -/

namespace Monster

variable (w : World) (m : Monster)

def shouldBeIdle : Bool := m.targetList.isEmpty && !w.aggressive

def setIdle (idle : Bool) : Monster :=
  if w.removed || decide (w.health ≤ 0) then m
  else if m.isIdle = idle then m
  else if idle then { m with isIdle := true, targetList := [], friendList := [] }
  else { m with isIdle := false }

def updateIdleStatus : Monster := m.setIdle w (m.shouldBeIdle w)

def clearFriendListIfIdle : Monster := if m.isIdle then { m with friendList := [] } else m

def addFriend (i : CreatureId) : Bool × Monster :=
  if (w.creature i).isNone || m.friendList.contains i then (false, m) else (true, { m with friendList := i :: m.friendList })

/-- An expired reference goes as well. -/
def removeFriend (i : CreatureId) : Bool × Monster :=
  let friendList := m.friendList.filter fun j => (w.creature j).isSome && decide (j ≠ i)
  (decide (friendList.length ≠ m.friendList.length), { m with friendList })

def addTarget (i : CreatureId) (pushFront : Bool) : Bool × Monster :=
  match w.creature i with
  | none => (false, m)
  | some c =>
    if !w.canSeeCreature c || m.targetList.contains i then (false, m)
    else (true, { m with targetList := if pushFront then i :: m.targetList else m.targetList ++ [i] })

def removeTarget (i : CreatureId) : Bool × Monster :=
  let targetList := m.targetList.filter fun j => (w.creature j).isSome && decide (j ≠ i)
  (decide (targetList.length ≠ m.targetList.length), { m with targetList })

def stillTarget (targetList : List CreatureId) (i : CreatureId) : Bool :=
  (w.creature i).isSome && targetList.contains i && w.isValidKnownTarget i

def pruneInvalidTargetState : Bool × Monster :=
  let friendList := m.friendList.filter w.isValidKnownFriend
  let targetList := m.targetList.filter w.isValidKnownTarget
  let attackedCreature := m.attackedCreature.filter (stillTarget w targetList)
  let followCreature := m.followCreature.filter (stillTarget w targetList)
  -- an expired reference is reset without counting as a change
  let dropped := fun (old new : Option CreatureId) => (old.bind w.creature).isSome && new.isNone
  let changed := decide (friendList.length ≠ m.friendList.length) || decide (targetList.length ≠ m.targetList.length) ||
    dropped m.attackedCreature attackedCreature || dropped m.followCreature followCreature
  (changed, { m with friendList, targetList, attackedCreature, followCreature })

def clearFactionTargetIfNotAllowed : Bool × Monster :=
  let hasFactionTarget := fun i => (w.creature i).any w.isFactionCombatTarget
  if !(m.attackedCreature.any hasFactionTarget || m.followCreature.any hasFactionTarget || m.targetList.any hasFactionTarget) ||
      w.isFactionCombatAllowed then (false, m)
  else
    let targetList := m.targetList.filter fun i => (w.creature i).isSome && !hasFactionTarget i
    let changed := m.attackedCreature.any hasFactionTarget || m.followCreature.any hasFactionTarget ||
      decide (targetList.length ≠ m.targetList.length)
    let attackedCreature := m.attackedCreature.filter fun i => !hasFactionTarget i
    let followCreature := m.followCreature.filter fun i => !hasFactionTarget i
    (changed, { m with targetList, attackedCreature, followCreature })

def onCreatureFound (i : CreatureId) (pushFront refreshIdle : Bool) : Monster :=
  match w.creature i with
  | none => m
  | some c =>
    if !w.canSee c.position then m
    else if !w.canSeeCreature c then m
    else
      let befriended := if w.isFriend i c then m.addFriend w i else (false, m)
      let targeted := if w.isOpponent i c then befriended.2.addTarget w i pushFront else (false, befriended.2)
      if refreshIdle && (targeted.1 || befriended.1) then (targeted.2.updateIdleStatus w).clearFriendListIfIdle
      else targeted.2

def foundAll (spectators : List CreatureId) : Monster :=
  spectators.foldl (fun m i => m.onCreatureFound w i false false) m

def updateTargetList : Monster :=
  let pruned := (m.pruneInvalidTargetState w).2
  let found := pruned.foundAll w ((w.getSpectators w.position 0 0).erase w.self)
  ((found.clearFactionTargetIfNotAllowed w).2.updateIdleStatus w).clearFriendListIfIdle

def updateTargetListAfterMovement (oldPosition newPosition : Position) : Monster :=
  let pruned := m.pruneInvalidTargetState w
  let found := pruned.2.foundAll w ((w.edgeSpectators oldPosition newPosition).erase w.self)
  let cleared := found.clearFactionTargetIfNotAllowed w
  if cleared.1 || pruned.1 || decide (found.targetList.length ≠ pruned.2.targetList.length) ||
      decide (found.friendList.length ≠ pruned.2.friendList.length) then
    (cleared.2.updateIdleStatus w).clearFriendListIfIdle
  else cleared.2

def onCreatureEnter (i : CreatureId) : Monster :=
  if (w.creature i).any Creature.isPlayer then (m.onCreatureFound w i true false).updateTargetList w
  else m.onCreatureFound w i true true

def onCreatureLeave (i : CreatureId) : Monster :=
  let unfriended := m.removeFriend w i
  let removed := unfriended.2.removeTarget w i
  let attackedCreature := removed.2.attackedCreature.filter (· ≠ i)
  let followCreature := removed.2.followCreature.filter (· ≠ i)
  let left : Monster := { removed.2 with attackedCreature, followCreature }
  if (w.creature i).any Creature.isPlayer then left.updateTargetList w
  else
    let pruned := left.pruneInvalidTargetState w
    let cleared := pruned.2.clearFactionTargetIfNotAllowed w
    if cleared.1 || pruned.1 || removed.1 || unfriended.1 || decide (m.attackedCreature = some i) ||
        decide (m.followCreature = some i) then cleared.2.updateIdleStatus w
    else cleared.2

/-- Whom the monster then attacks and follows is what the next notification brings. -/
def selectTarget (i : CreatureId) : Monster :=
  match w.creature i with
  | none => m
  | some c =>
    if !w.isTarget c then m
    else if w.isFactionCombatTarget c && !w.isFactionCombatAllowed then
      if (m.removeTarget w i).1 then (m.removeTarget w i).2.updateIdleStatus w else (m.removeTarget w i).2
    else m

def selectBlockerTarget (fc : CreatureId) : Monster :=
  if w.removed || decide (w.health ≤ 0) || decide (w.challengeFocusDuration > 0) || !w.mType.melee then m
  else
    match w.creature fc, w.blocker with
    | some f, some blocker =>
      if w.canSee f.position && decide (blocker ≠ fc) && (w.creature blocker).any (w.isOpponent blocker) then
        m.selectTarget w blocker
      else m
    | _, _ => m

/-- `getDistanceX` or `getDistanceY` above 1. -/
def faraway (pos : Position) : Bool :=
  decide (((pos.x.toNat : Int) - w.position.x.toNat).natAbs > 1) || decide (((pos.y.toNat : Int) - w.position.y.toNat).natAbs > 1)

/-- The last part of `onCreatureMove`: a creature that moves may be the one to fight. -/
def reconsider (i : CreatureId) (c : Creature) : Monster :=
  match m.followCreature.bind fun j => (w.creature j).map fun f => (j, f) with
  | some (fc, f) =>
    if !w.hasFollowPath && w.isOpponent i c && decide (i ≠ fc) then
      if !(m.attackedCreature.bind w.creature).any w.canSeeCreature then m.selectTarget w i else m
    else if faraway w f.position then m.selectBlockerTarget w fc
    else m
  | none => if w.isOpponent i c then m.selectTarget w i else m

/-! ## Notifications -/

def onCreatureAppear (i : CreatureId) : Monster := if i = w.self then m.updateTargetList w else m.onCreatureEnter w i

def onRemoveCreature (i : CreatureId) : Monster := if i = w.self then m.setIdle w true else m.onCreatureLeave w i

structure Move where
  newZone : ZoneType := .ZONE_NORMAL
  newPos : Position
  oldZone : ZoneType := .ZONE_NORMAL
  oldPos : Position
  teleport : Bool := false

/-- What a move does about a creature other than the monster. -/
inductive Sighting
  | enter
  | leave
  | pass

def sighting (v : Move) : Sighting :=
  if w.canSee v.newPos && !w.canSee v.oldPos then .enter
  else if !w.canSee v.newPos && w.canSee v.oldPos then .leave
  else if w.canSee v.newPos && w.canSee v.oldPos then
    if v.oldZone ≠ .ZONE_PROTECTION ∧ v.newZone = .ZONE_PROTECTION then .leave
    else if v.oldZone = .ZONE_PROTECTION ∧ v.newZone ≠ .ZONE_PROTECTION then .enter
    else .pass
  else .pass

def needsFullTargetRefresh (v : Move) : Bool :=
  v.teleport || decide (v.oldPos.z ≠ v.newPos.z) || (m.followCreature.bind w.creature).isNone

def onCreatureMove (i : CreatureId) (v : Move) : Monster :=
  if i = w.self then
    if m.needsFullTargetRefresh w v then m.updateTargetList w else m.updateTargetListAfterMovement w v.oldPos v.newPos
  else
    match w.creature i with
    | none => m
    | some c =>
      match sighting w v with
      | .enter => (m.onCreatureEnter w i).reconsider w i c
      | .leave => (m.onCreatureLeave w i).reconsider w i c
      | .pass => m.reconsider w i c

def onCreatureInstanceChange (i : CreatureId) (visible : Bool) : Monster :=
  if i = w.self then m.updateTargetList w else if visible then m.onCreatureEnter w i else m.onCreatureLeave w i

end Monster

inductive Notification
  | appear (creature : CreatureId)
  | move (creature : CreatureId) (v : Monster.Move)
  | remove (creature : CreatureId)
  | instanceChange (creature : CreatureId) (visible : Bool)

def Notification.creature : Notification → CreatureId
  | appear i => i
  | move i _ => i
  | remove i => i
  | instanceChange i _ => i

def Monster.handle (w : World) (m : Monster) : Notification → Monster
  | .appear i => m.onCreatureAppear w i
  | .move i v => m.onCreatureMove w i v
  | .remove i => m.onRemoveCreature w i
  | .instanceChange i visible => m.onCreatureInstanceChange w i visible

abbrev Ev := World × Notification

/-- Whom it attacks and follows by then. -/
def Monster.resume (w : World) (m : Monster) : Monster :=
  { m with attackedCreature := w.attackedCreature, followCreature := w.followCreature }

def step (m : Monster) (e : Ev) : Monster := (m.resume e.1).handle e.1 e.2

/-! ## What a handler should leave -/

/-- `i` is on the list only as a valid target. -/
def ValidOf (w : World) (m : Monster) (i : CreatureId) : Prop :=
  i ∈ m.targetList → (w.creature i).isSome → w.isValidKnownTarget i

/-- Whoever the notification was about is on the list only as a valid target. -/
def OnlyValid (e : Ev) (m : Monster) : Prop :=
  if e.2.creature = e.1.self then ∀ i, ValidOf e.1 m i else ValidOf e.1 m e.2.creature

namespace World

variable (w : World)

/-- What `onCreatureFound` asks before it makes a creature a target. -/
def noticed (i : CreatureId) : Bool :=
  (w.creature i).any fun c => w.canSee c.position && w.canSeeCreature c && w.isOpponent i c

/-- What `onCreatureFound` does not ask. -/
def exempt (i : CreatureId) : Bool :=
  (w.creature i).any fun c => !c.attackable || c.tile.isNone || decide (c.getZone = .ZONE_PROTECTION)

end World

/-- No creature the handler searches for is an opponent in sight that must not be fought. -/
def Clear (w : World) (spectators : List CreatureId) : Prop := ∀ i ∈ spectators, w.noticed i → ¬w.exempt i

def ClearOf (w : World) (m : Monster) (i : CreatureId) : Monster.Sighting → Prop
  | .enter =>
    if (w.creature i).any Creature.isPlayer then i ∈ w.getSpectators w.position 0 0 → w.noticed i → ¬w.exempt i
    else (w.noticed i → ¬w.exempt i) ∧ ValidOf w m i
  | .leave =>
    (w.creature i).any Creature.isPlayer → i ∈ w.getSpectators w.position 0 0 → w.noticed i → ¬w.exempt i
  | .pass => ValidOf w m i

def UpheldSelf (w : World) (m : Monster) : Notification → Prop
  | .remove _ => (w.removed = false ∧ w.health > 0 ∧ m.isIdle = false) ∨ ∀ i, ValidOf w m i
  | .move _ v =>
    if m.needsFullTargetRefresh w v then Clear w (w.getSpectators w.position 0 0)
    else Clear w (w.edgeSpectators v.oldPos v.newPos)
  | _ => Clear w (w.getSpectators w.position 0 0)

def UpheldOther (w : World) (m : Monster) : Notification → Prop
  | .appear i => ClearOf w m i .enter
  | .move i v => ClearOf w m i (Monster.sighting w v)
  | .remove i => ClearOf w m i .leave
  | .instanceChange i visible => ClearOf w m i (if visible then .enter else .leave)

/-- The notifications that leave a valid list. -/
def Upheld (m : Monster) (e : Ev) : Prop :=
  if e.2.creature = e.1.self then UpheldSelf e.1 (m.resume e.1) e.2 else UpheldOther e.1 (m.resume e.1) e.2

/-! ## Where the two tests differ -/

section
variable {w : World} {i : CreatureId} {c : Creature}

theorem allowed_of_opponent (ho : w.isOpponent i c = true) (ht : w.isFactionCombatTarget c = true) :
    w.isFactionCombatAllowed = true := by
  cases hk : c.kind with
  | player b => simp [World.isFactionCombatTarget, hk] at ht
  | npc => simp [World.isFactionCombatTarget, hk] at ht
  | monster f =>
    have hs : (w.getMaster c).isSome = false := by
      simp only [World.isFactionCombatTarget, hk, Bool.and_eq_true, Bool.not_eq_true'] at ht
      exact ht.2.1
    have hm : w.getMaster c = none := Option.not_isSome_iff_eq_none.mp (by simp [hs])
    simp only [World.isOpponent, hk, hm, Bool.and_eq_true, Option.any_none, Bool.false_or, World.canAttackByFaction] at ho
    exact ho.2.1

theorem fightable_of_opponent (ho : w.isOpponent i c = true) :
    (match c.kind with
      | .monster _ => if w.isSummon c then w.isOpponent i c else w.monsterFactionSystem && w.isFactionCombatTarget c
      | _ => w.isOpponent i c) = true := by
  cases hk : c.kind with
  | player b => exact ho
  | npc => exact ho
  | monster f =>
    by_cases hs : w.isSummon c
    · simpa [hs] using ho
    have hm : w.getMaster c = none := Option.not_isSome_iff_eq_none.mp hs
    have hfaction : w.canAttackByFaction c = true := by
      simpa [World.isOpponent, hk, hm] using (show _ ∧ _ by simpa [World.isOpponent, hk, hm] using ho).2
    simp only [World.canAttackByFaction, World.isFactionCombatAllowed, Bool.and_eq_true] at hfaction
    simp [hs, hfaction.1.1.1, hfaction.2]

theorem noticed_iff : w.noticed i = true ↔
    ∃ c, w.creature i = some c ∧ w.canSee c.position = true ∧ w.canSeeCreature c = true ∧ w.isOpponent i c = true := by
  cases hc : w.creature i with
  | none => simp [World.noticed, hc]
  | some c => simp [World.noticed, hc, and_assoc]

theorem isSome_of_noticed (h : w.noticed i = true) : (w.creature i).isSome = true := by
  obtain ⟨c, hc, _⟩ := noticed_iff.mp h
  rw [hc]
  rfl

/-- Of the creatures that are noticed, those that must not be fought are the invalid ones. -/
theorem valid_iff_of_noticed (h : w.noticed i = true) : w.isValidKnownTarget i = true ↔ ¬w.exempt i = true := by
  obtain ⟨c, hc, hpos, hsee, ho⟩ := noticed_iff.mp h
  have hfight := fightable_of_opponent ho
  have halive : c.removed = false ∧ c.isDead = false := by
    simp only [World.isOpponent, Bool.and_eq_true, Bool.not_eq_true'] at ho
    exact ⟨ho.1.1.2, ho.1.2⟩
  simp only [World.isValidKnownTarget, World.exempt, hc, Option.any_some, hpos, hsee, hfight, halive]
  by_cases hz : c.getZone = .ZONE_PROTECTION <;> simp [hz, Option.isSome_iff_ne_none]

end

/-! ## What each part does to the list -/

namespace Monster

variable {w : World} {m : Monster} {i j : CreatureId}

theorem setIdle_targetList (h : m.shouldBeIdle w = true → m.targetList = []) :
    (m.setIdle w (m.shouldBeIdle w)).targetList = m.targetList := by
  unfold setIdle
  split
  · rfl
  split
  · rfl
  split
  · exact (h ‹_›).symm
  · rfl

@[simp] theorem updateIdleStatus_targetList : (m.updateIdleStatus w).targetList = m.targetList :=
  setIdle_targetList fun h => List.isEmpty_iff.mp (Bool.and_eq_true_iff.mp h).1

@[simp] theorem clearFriendListIfIdle_targetList : m.clearFriendListIfIdle.targetList = m.targetList := by
  unfold clearFriendListIfIdle
  split <;> rfl

theorem refreshed_targetList (b : Bool) :
    (if b then (m.updateIdleStatus w).clearFriendListIfIdle else m).targetList = m.targetList := by
  split <;> simp

@[simp] theorem addFriend_targetList : (m.addFriend w i).2.targetList = m.targetList := by
  unfold addFriend
  split <;> rfl

@[simp] theorem prune_targetList :
    (m.pruneInvalidTargetState w).2.targetList = m.targetList.filter w.isValidKnownTarget := rfl

theorem mem_removeTarget : j ∈ (m.removeTarget w i).2.targetList ↔ j ∈ m.targetList ∧ (w.creature j).isSome = true ∧ j ≠ i := by
  simp [removeTarget]

section
variable {c : Creature} (hc : w.creature i = some c) (hsee : w.canSeeCreature c = true)
include hc hsee

theorem mem_addTarget (b : Bool) : j ∈ (m.addTarget w i b).2.targetList ↔ j ∈ m.targetList ∨ j = i := by
  by_cases hm : i ∈ m.targetList
  · have : j = i → j ∈ m.targetList := fun e => e ▸ hm
    simpa [addTarget, hc, hsee, hm] using this
  · cases b <;> simp [addTarget, hc, hsee, hm, or_comm]

theorem nodup_addTarget (h : m.targetList.Nodup) (b : Bool) : (m.addTarget w i b).2.targetList.Nodup := by
  by_cases hm : i ∈ m.targetList
  · simpa [addTarget, hc, hsee, hm] using h
  · cases b
    · simpa [addTarget, hc, hsee, hm] using List.Nodup.concat hm h
    · simpa [addTarget, hc, hsee, hm] using h

end

theorem found_cases (w : World) (m : Monster) (i : CreatureId) (pushFront refreshIdle : Bool) :
    (w.noticed i = false ∧ (m.onCreatureFound w i pushFront refreshIdle).targetList = m.targetList) ∨
    (∃ (c : Creature) (m' : Monster), w.noticed i = true ∧ w.creature i = some c ∧ w.canSeeCreature c = true ∧
      m'.targetList = m.targetList ∧
      (m.onCreatureFound w i pushFront refreshIdle).targetList = (m'.addTarget w i pushFront).2.targetList) := by
  unfold onCreatureFound
  cases hc : w.creature i with
  | none => exact .inl ⟨by simp [World.noticed, hc], rfl⟩
  | some c =>
    by_cases hpos : w.canSee c.position = true
    · by_cases hsee : w.canSeeCreature c = true
      · by_cases ho : w.isOpponent i c = true
        · refine .inr ⟨c, (if w.isFriend i c then m.addFriend w i else (false, m)).2, noticed_iff.mpr ⟨c, hc, hpos, hsee, ho⟩,
            rfl, hsee, ?_, ?_⟩
          · split <;> simp
          · simp only [hpos, hsee, ho, Bool.not_true, Bool.false_eq_true, if_false, if_true]
            exact refreshed_targetList _
        · refine .inl ⟨by simp [World.noticed, hc, ho], ?_⟩
          simp only [hpos, hsee, ho, Bool.not_true, Bool.false_eq_true, if_false]
          refine (refreshed_targetList _).trans ?_
          split <;> simp
      · exact .inl ⟨by simp [World.noticed, hc, hsee], by simp [hpos, hsee]⟩
    · exact .inl ⟨by simp [World.noticed, hc, hpos], by simp [hpos]⟩

theorem mem_onCreatureFound {b r : Bool} :
    j ∈ (m.onCreatureFound w i b r).targetList ↔ j ∈ m.targetList ∨ (j = i ∧ w.noticed i = true) := by
  obtain ⟨hn, he⟩ | ⟨c, m', hn, hc, hsee, hm', he⟩ := found_cases w m i b r
  · simp [he, hn]
  · rw [he, mem_addTarget hc hsee, hm']
    simp [hn]

theorem nodup_onCreatureFound {b r : Bool} (h : m.targetList.Nodup) : (m.onCreatureFound w i b r).targetList.Nodup := by
  obtain ⟨_, he⟩ | ⟨c, m', _, hc, hsee, hm', he⟩ := found_cases w m i b r
  · rw [he]
    exact h
  · rw [he]
    exact nodup_addTarget hc hsee (hm'.symm ▸ h) b

theorem foundAll_spec (spectators : List CreatureId) (m : Monster) :
    (∀ j, j ∈ (m.foundAll w spectators).targetList ↔ j ∈ m.targetList ∨ (j ∈ spectators ∧ w.noticed j = true)) ∧
    (m.targetList.Nodup → (m.foundAll w spectators).targetList.Nodup) := by
  induction spectators generalizing m with
  | nil => simp [foundAll]
  | cons i spectators ih =>
    obtain ⟨hmem, hnodup⟩ := ih (m.onCreatureFound w i false false)
    refine ⟨fun j => (hmem j).trans ?_, fun h => hnodup (nodup_onCreatureFound h)⟩
    rw [mem_onCreatureFound, mem_cons]
    constructor
    · rintro ((hj | ⟨rfl, hn⟩) | ⟨hj, hn⟩)
      · exact .inl hj
      · exact .inr ⟨.inl rfl, hn⟩
      · exact .inr ⟨.inr hj, hn⟩
    · rintro (hj | ⟨rfl | hj, hn⟩)
      · exact .inl (.inl hj)
      · exact .inl (.inr ⟨rfl, hn⟩)
      · exact .inr ⟨hj, hn⟩

theorem clearFaction_spec :
    (∀ j ∈ (m.clearFactionTargetIfNotAllowed w).2.targetList, j ∈ m.targetList) ∧
    (∀ j ∈ m.targetList, w.noticed j = true → j ∈ (m.clearFactionTargetIfNotAllowed w).2.targetList) ∧
    (m.targetList.Nodup → (m.clearFactionTargetIfNotAllowed w).2.targetList.Nodup) := by
  unfold clearFactionTargetIfNotAllowed
  simp only []
  split
  · exact ⟨fun _ h => h, fun _ h _ => h, fun h => h⟩
  rename_i hno
  have hallowed : w.isFactionCombatAllowed = false := by
    simp only [Bool.or_eq_true, not_or] at hno
    simpa using hno.2
  refine ⟨fun j h => (mem_filter.mp h).1, fun j h hn => mem_filter.mpr ⟨h, ?_⟩, fun h => h.filter _⟩
  obtain ⟨c, hc, _, _, ho⟩ := noticed_iff.mp hn
  cases ht : w.isFactionCombatTarget c with
  | false => simp [hc, ht]
  | true => rw [allowed_of_opponent ho ht] at hallowed; cases hallowed

/-- A list that was cleared of the invalid and has had `spectators` shown to it. -/
structure Rescanned (w : World) (spectators : List CreatureId) (m : Monster) : Prop where
  fair : ∀ j ∈ m.targetList, w.isValidKnownTarget j = true ∨ (j ∈ spectators ∧ w.noticed j = true)
  full : ∀ j ∈ spectators, w.noticed j = true → j ∈ m.targetList

variable {spectators : List CreatureId}

theorem not_noticed_self : w.noticed w.self = false := by
  rw [Bool.eq_false_iff, Ne, noticed_iff]
  rintro ⟨c, _, _, _, ho⟩
  simp [World.isOpponent] at ho

theorem mem_erase_self : j ∈ spectators.erase w.self ∧ w.noticed j = true ↔ j ∈ spectators ∧ w.noticed j = true := by
  grind [not_noticed_self]

theorem rescanned_of_clear (spectators : List CreatureId) (m : Monster) :
    Rescanned w spectators
      (((m.pruneInvalidTargetState w).2.foundAll w (spectators.erase w.self)).clearFactionTargetIfNotAllowed w).2 := by
  obtain ⟨hmem, _⟩ := foundAll_spec (w := w) (spectators.erase w.self) (m.pruneInvalidTargetState w).2
  obtain ⟨hsub, hkeep, _⟩ := clearFaction_spec (w := w) (m := (m.pruneInvalidTargetState w).2.foundAll w (spectators.erase w.self))
  constructor
  · intro j hj
    obtain hold | hnew := (hmem j).mp (hsub j hj)
    · exact .inl (mem_filter.mp hold).2
    · exact .inr (mem_erase_self.mp hnew)
  · intro j hj hn
    exact hkeep j ((hmem j).mpr (.inr (mem_erase_self.mpr ⟨hj, hn⟩))) hn

theorem Rescanned.congr {m' : Monster} (h : Rescanned w spectators m) (he : m'.targetList = m.targetList) :
    Rescanned w spectators m' :=
  ⟨by rw [he]; exact h.fair, by rw [he]; exact h.full⟩

theorem rescanned_updateTargetList : Rescanned w (w.getSpectators w.position 0 0) (m.updateTargetList w) :=
  (rescanned_of_clear _ m).congr (by simp [updateTargetList])

theorem rescanned_afterMovement (oldPosition newPosition : Position) :
    Rescanned w (w.edgeSpectators oldPosition newPosition) (m.updateTargetListAfterMovement w oldPosition newPosition) := by
  refine (rescanned_of_clear _ m).congr ?_
  exact refreshed_targetList _

/-- A list seen through holds only valid targets exactly when nobody was noticed who must not be fought. -/
theorem Rescanned.valid_iff (h : Rescanned w spectators m) (i : CreatureId) :
    ValidOf w m i ↔ (i ∈ spectators → w.noticed i = true → ¬w.exempt i = true) := by
  constructor
  · intro hvalid hj hn
    exact (valid_iff_of_noticed hn).mp (hvalid (h.full i hj hn) (isSome_of_noticed hn))
  intro hclear hj _
  obtain hv | ⟨hj, hn⟩ := h.fair i hj
  · exact hv
  · exact (valid_iff_of_noticed hn).mpr (hclear hj hn)

theorem Rescanned.valid_iff_clear (h : Rescanned w spectators m) : (∀ i, ValidOf w m i) ↔ Clear w spectators :=
  forall_congr' fun i => h.valid_iff i

/-! ## What each handler leaves -/

theorem onCreatureEnter_valid : ValidOf w (m.onCreatureEnter w i) i ↔ ClearOf w m i .enter := by
  unfold onCreatureEnter ClearOf
  split
  · exact rescanned_updateTargetList.valid_iff i
  unfold ValidOf
  rw [mem_onCreatureFound]
  constructor
  · intro h
    refine ⟨fun hn => ?_, fun hi hs => h (.inl hi) hs⟩
    exact (valid_iff_of_noticed hn).mp (h (.inr ⟨rfl, hn⟩) (isSome_of_noticed hn))
  · rintro ⟨hn, hi⟩ (hj | ⟨_, hj⟩) hs
    · exact hi hj hs
    · exact (valid_iff_of_noticed hj).mpr (hn hj)

theorem onCreatureLeave_valid : ValidOf w (m.onCreatureLeave w i) i ↔ ClearOf w m i .leave := by
  unfold onCreatureLeave ClearOf
  split
  · rename_i hp
    simp only [hp, true_imp_iff]
    exact rescanned_updateTargetList.valid_iff i
  rename_i hp
  refine iff_of_true (fun hi _ => ?_) (fun h => absurd h hp)
  -- the creature was taken off, and nothing after that puts one on
  exfalso
  rw [show ∀ (b : Bool) (m : Monster), (if b then m.updateIdleStatus w else m).targetList = m.targetList from
    fun b m => by split <;> simp] at hi
  have hleft := (mem_filter.mp (clearFaction_spec.1 i hi)).1
  exact (mem_removeTarget.mp hleft).2.2 rfl

theorem selectTarget_of_opponent (h : (w.creature i).any (w.isOpponent i) = true) : m.selectTarget w i = m := by
  unfold selectTarget
  cases hc : w.creature i with
  | none => rfl
  | some c =>
    rw [hc] at h
    dsimp only
    split
    · rfl
    split
    · rename_i hf
      simp only [Bool.and_eq_true, Bool.not_eq_true'] at hf
      rw [allowed_of_opponent h hf.1] at hf
      cases hf.2
    · rfl

theorem selectBlockerTarget_eq (fc : CreatureId) : m.selectBlockerTarget w fc = m := by
  unfold selectBlockerTarget
  split
  · rfl
  split
  · split
    · rename_i h
      exact selectTarget_of_opponent (Bool.and_eq_true_iff.mp h).2
    · rfl
  · rfl

/-- To choose whom to fight takes nobody off the list. -/
theorem reconsider_eq {c : Creature} (hc : w.creature i = some c) : m.reconsider w i c = m := by
  have hselect : w.isOpponent i c = true → m.selectTarget w i = m := fun ho =>
    selectTarget_of_opponent (by simpa [hc] using ho)
  unfold reconsider
  split
  · split
    · rename_i h
      grind
    · split
      · exact selectBlockerTarget_eq _
      · rfl
  · grind

theorem onCreatureMove_valid {c : Creature} (hi : i ≠ w.self) (hc : w.creature i = some c) (v : Move) :
    ValidOf w (m.onCreatureMove w i v) i ↔ ClearOf w m i (sighting w v) := by
  simp only [onCreatureMove, hi, hc, if_false]
  cases sighting w v with
  | enter =>
    rw [reconsider_eq hc]
    exact onCreatureEnter_valid
  | leave =>
    dsimp only
    rw [reconsider_eq hc]
    exact onCreatureLeave_valid
  | pass =>
    dsimp only
    rw [reconsider_eq hc]
    rfl

theorem onCreatureMove_absent (hi : i ≠ w.self) (hc : w.creature i = none) (v : Move) : m.onCreatureMove w i v = m := by
  simp [onCreatureMove, hi, hc]

theorem setIdle_valid :
    (∀ i, ValidOf w (m.setIdle w true) i) ↔
      (w.removed = false ∧ w.health > 0 ∧ m.isIdle = false) ∨ ∀ i, ValidOf w m i := by
  unfold setIdle
  split
  · rename_i h
    refine (or_iff_right ?_).symm
    rintro ⟨hr, hh, _⟩
    simp [hr] at h
    omega
  split
  · rename_i _ h
    grind
  · rename_i h hidle
    simp only [Bool.or_eq_true, not_or, Bool.not_eq_true, decide_eq_true_eq, Int.not_le] at h
    refine iff_of_true (fun i hi => absurd hi (by simp)) (.inl ⟨h.1, h.2, by simpa using hidle⟩)

/-! ## No creature twice -/

theorem nodup_rescan (spectators : List CreatureId) (h : m.targetList.Nodup) :
    (((m.pruneInvalidTargetState w).2.foundAll w spectators).clearFactionTargetIfNotAllowed w).2.targetList.Nodup :=
  clearFaction_spec.2.2 ((foundAll_spec spectators _).2 (h.filter _))

theorem nodup_updateTargetList (h : m.targetList.Nodup) : (m.updateTargetList w).targetList.Nodup := by
  have hscan := nodup_rescan (w := w) ((w.getSpectators w.position 0 0).erase w.self) h
  simpa [updateTargetList] using hscan

theorem nodup_afterMovement (oldPosition newPosition : Position) (h : m.targetList.Nodup) :
    (m.updateTargetListAfterMovement w oldPosition newPosition).targetList.Nodup := by
  have hscan := nodup_rescan (w := w) ((w.edgeSpectators oldPosition newPosition).erase w.self) h
  unfold updateTargetListAfterMovement
  rw [refreshed_targetList]
  exact hscan

theorem nodup_onCreatureEnter (h : m.targetList.Nodup) : (m.onCreatureEnter w i).targetList.Nodup := by
  unfold onCreatureEnter
  split
  · exact nodup_updateTargetList (nodup_onCreatureFound h)
  · exact nodup_onCreatureFound h

theorem nodup_onCreatureLeave (h : m.targetList.Nodup) : (m.onCreatureLeave w i).targetList.Nodup := by
  have hleft : (m.targetList.filter fun j => (w.creature j).isSome && decide (j ≠ i)).Nodup := h.filter _
  unfold onCreatureLeave
  simp only []
  split
  · exact nodup_updateTargetList hleft
  split
  · rw [updateIdleStatus_targetList]
    exact clearFaction_spec.2.2 (hleft.filter _)
  · exact clearFaction_spec.2.2 (hleft.filter _)

theorem nodup_setIdle (b : Bool) (h : m.targetList.Nodup) : (m.setIdle w b).targetList.Nodup := by
  unfold setIdle
  split
  · exact h
  split
  · exact h
  split
  · exact nodup_nil
  · exact h

theorem nodup_handle (n : Notification) (h : m.targetList.Nodup) : (handle w m n).targetList.Nodup := by
  cases n with
  | appear i =>
    show (m.onCreatureAppear w i).targetList.Nodup
    unfold onCreatureAppear
    split
    · exact nodup_updateTargetList h
    · exact nodup_onCreatureEnter h
  | remove i =>
    show (m.onRemoveCreature w i).targetList.Nodup
    unfold onRemoveCreature
    split
    · exact nodup_setIdle true h
    · exact nodup_onCreatureLeave h
  | instanceChange i visible =>
    show (m.onCreatureInstanceChange w i visible).targetList.Nodup
    unfold onCreatureInstanceChange
    split
    · exact nodup_updateTargetList h
    split
    · exact nodup_onCreatureEnter h
    · exact nodup_onCreatureLeave h
  | move i v =>
    show (m.onCreatureMove w i v).targetList.Nodup
    by_cases hi : i = w.self
    · rw [onCreatureMove, if_pos hi]
      split
      · exact nodup_updateTargetList h
      · exact nodup_afterMovement _ _ h
    · cases hc : w.creature i with
      | none => rwa [onCreatureMove_absent hi hc]
      | some c =>
        simp only [onCreatureMove, hi, hc, if_false]
        split
        · rw [reconsider_eq hc]
          exact nodup_onCreatureEnter h
        · rw [reconsider_eq hc]
          exact nodup_onCreatureLeave h
        · rwa [reconsider_eq hc]

end Monster

variable {w : World}

theorem clearOf_absent {m : Monster} {i : CreatureId} (hc : w.creature i = none) (s : Monster.Sighting) :
    ClearOf w m i s := by
  have hvalid : ValidOf w m i := fun _ hs => by simp [hc] at hs
  cases s with
  | enter =>
    have hn : ¬w.noticed i = true := by simp [World.noticed, hc]
    rw [ClearOf, if_neg (by simp [hc])]
    exact ⟨fun h => absurd h hn, hvalid⟩
  | leave => exact fun h => by simp [hc] at h
  | pass => exact hvalid

theorem handle_self {m : Monster} {n : Notification} (hself : n.creature = w.self) :
    (∀ i, ValidOf w (m.handle w n) i) ↔ UpheldSelf w m n := by
  cases n with
  | appear i =>
    have hi : i = w.self := hself
    simp only [Monster.handle, Monster.onCreatureAppear, hi, if_true]
    exact Monster.rescanned_updateTargetList.valid_iff_clear
  | remove i =>
    have hi : i = w.self := hself
    simp only [Monster.handle, Monster.onRemoveCreature, hi, if_true]
    exact Monster.setIdle_valid
  | instanceChange i visible =>
    have hi : i = w.self := hself
    simp only [Monster.handle, Monster.onCreatureInstanceChange, hi, if_true]
    exact Monster.rescanned_updateTargetList.valid_iff_clear
  | move i v =>
    have hi : i = w.self := hself
    simp only [Monster.handle, Monster.onCreatureMove, hi, if_true, UpheldSelf]
    split
    · exact Monster.rescanned_updateTargetList.valid_iff_clear
    · exact (Monster.rescanned_afterMovement _ _).valid_iff_clear

theorem handle_other {m : Monster} {n : Notification} (hother : n.creature ≠ w.self) :
    ValidOf w (m.handle w n) n.creature ↔ UpheldOther w m n := by
  cases n with
  | appear i =>
    have hi : i ≠ w.self := hother
    simp only [Monster.handle, Monster.onCreatureAppear, hi, if_false]
    exact Monster.onCreatureEnter_valid
  | remove i =>
    have hi : i ≠ w.self := hother
    simp only [Monster.handle, Monster.onRemoveCreature, hi, if_false]
    exact Monster.onCreatureLeave_valid
  | instanceChange i visible =>
    have hi : i ≠ w.self := hother
    simp only [Monster.handle, Monster.onCreatureInstanceChange, hi, if_false]
    cases visible with
    | true => exact Monster.onCreatureEnter_valid
    | false => exact Monster.onCreatureLeave_valid
  | move i v =>
    cases hc : w.creature i with
    | none => exact iff_of_true (fun _ hs => by simp [Notification.creature, hc] at hs) (clearOf_absent hc _)
    | some c => exact Monster.onCreatureMove_valid hother hc v

theorem step_valid (m : Monster) (e : Ev) : OnlyValid e (step m e) ↔ Upheld m e := by
  unfold OnlyValid Upheld step
  split
  · exact handle_self ‹_›
  · exact handle_other ‹_›

theorem nodup_step {m : Monster} {e : Ev} (h : m.targetList.Nodup) : (step m e).targetList.Nodup :=
  Monster.nodup_handle e.2 h

theorem nodup_run {m : Monster} (h : m.targetList.Nodup) (es : List Ev) : (run step m es).targetList.Nodup := by
  induction es generalizing m with
  | nil => exact h
  | cons e es ih => exact ih (nodup_step h)

/-- No creature is ever listed twice, and after each handler the list holds of those the
    notification was about only valid targets exactly when each handler leaves alone the
    opponents in sight that cannot be attacked or stand in a protection zone. -/
theorem targets_valid {m : Monster} (h : m.targetList.Nodup) (es : List Ev) :
    (run step m es).targetList.Nodup ∧
    ((∀ k, (hk : k < es.length) → OnlyValid (es.get ⟨k, hk⟩) (run step m (es.take (k + 1)))) ↔ Allowed step Upheld m es) :=
  ⟨nodup_run h es, @steps_iff_allowed Monster Ev step Upheld (fun _ => True) (fun _ _ => True) OnlyValid
    (fun _ _ _ _ => trivial) (fun m e _ _ => step_valid m e) m trivial es (allowed_true m es)⟩

/-! ## A player in sight of a monster -/

def meeting (x : BitVec 16) (zone : ZoneType) : World where
  creature := fun i =>
    if i = 1 then some { kind := .monster 0, position := ⟨100, 100, 7⟩ }
    else if i = 2 then some { kind := .player false, position := ⟨x, 100, 7⟩, tile := some zone }
    else none
  listed := [1, 2]
  self := 1
  position := ⟨100, 100, 7⟩

def walkOn (x x' : BitVec 16) (zone zone' : ZoneType) : Ev :=
  (meeting x' zone', .move 2 { newPos := ⟨x', 100, 7⟩, oldPos := ⟨x, 100, 7⟩, newZone := zone', oldZone := zone })

/-- A monster appears with a player in sight, who then takes a step closer. -/
theorem player_comes_closer :
    (run step {} [(meeting 103 .ZONE_NORMAL, .appear 1), walkOn 103 102 .ZONE_NORMAL .ZONE_NORMAL]).targetList.Nodup ∧
    OnlyValid (walkOn 103 102 .ZONE_NORMAL .ZONE_NORMAL)
      (run step {} [(meeting 103 .ZONE_NORMAL, .appear 1), walkOn 103 102 .ZONE_NORMAL .ZONE_NORMAL]) := by
  have h := targets_valid (m := {}) nodup_nil
    [(meeting 103 .ZONE_NORMAL, .appear 1), walkOn 103 102 .ZONE_NORMAL .ZONE_NORMAL]
  refine ⟨h.1, h.2.mpr ⟨?_, ?_, trivial⟩ 1 (by decide)⟩
  · show ∀ i ∈ (meeting 103 .ZONE_NORMAL).getSpectators ⟨100, 100, 7⟩ 0 0, _
    decide
  · exact fun _ _ => by decide

/-- A player whom a monster has as its target steps into a protection zone in its sight:
    `onCreatureLeave` takes the player off the list and the search that follows puts the player on again. -/
theorem player_enters_protection_zone :
    (run step {} [(meeting 102 .ZONE_NORMAL, .appear 1), walkOn 102 103 .ZONE_NORMAL .ZONE_PROTECTION]).targetList = [2] ∧
    (meeting 103 .ZONE_PROTECTION).isValidKnownTarget 2 = false ∧
    ¬OnlyValid (walkOn 102 103 .ZONE_NORMAL .ZONE_PROTECTION)
      (run step {} [(meeting 102 .ZONE_NORMAL, .appear 1), walkOn 102 103 .ZONE_NORMAL .ZONE_PROTECTION]) := by
  have hlist : (run step {} [(meeting 102 .ZONE_NORMAL, .appear 1),
      walkOn 102 103 .ZONE_NORMAL .ZONE_PROTECTION]).targetList = [2] := by decide
  have hvalid : (meeting 103 .ZONE_PROTECTION).isValidKnownTarget 2 = false := by decide
  refine ⟨hlist, hvalid, fun h => ?_⟩
  have hv : (meeting 103 .ZONE_PROTECTION).isValidKnownTarget 2 = true :=
    h (hlist ▸ mem_singleton_self 2) (by decide)
  rw [hvalid] at hv
  cases hv

end Backlands.Creatures.Targets
