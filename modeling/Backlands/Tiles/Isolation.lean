/-
  Backlands.Tiles.Isolation — what the things of other instances change in the answer of
  `Tile::queryAdd` (src/tile.cpp).

  The query passes over an item or a creature of another instance where it looks at them one
  by one. The flags of the tile, its ground, the number of its items, what hangs there and who
  stands where a blocking item is put are the same to every instance.

  Proved: `queryAdd_isolated`, `run_own`. Counterexample: `wall_of_another_instance`.
-/

import Backlands.Lib.Runs
import Backlands.Tiles.Query

namespace Backlands.Tiles

open Backlands.Lib List Tilestate Backlands.Tiles.Flag

/-! ## What the query reads whatever the instance -/

/-- In the way of a player on any ground. -/
def Creature.stays (cfg : Config) (zone : Bool) (c : Creature) : Bool :=
  match c.kind with
  | .player ghostMode isAccountManager level =>
    !ghostMode && !isAccountManager && !(cfg.allowWalkthrough && (zone || (level : Int) ≤ cfg.protectionLevel))
  | _ => true

/-- In the way of a player on a ground that does not hold up two of them. -/
def Creature.yields (cfg : Config) (zone : Bool) (c : Creature) : Bool :=
  match c.kind with
  | .player ghostMode isAccountManager level =>
    !ghostMode && !isAccountManager && cfg.allowWalkthrough && (zone || (level : Int) ≤ cfg.protectionLevel)
  | _ => false

namespace Tile

variable (cfg : Config) (items : Items) (i : Nat) (t : Tile)

def leads : Bool := t.hasFlag (floorchange ||| teleport)

/-- The tile has the flag, or the instance an item that would set it. -/
def marked (flag : BitVec 32) (prop : ItemProperty) : Bool := t.hasFlag flag || t.hasInstancedProperty items prop i

/-- Of what is shared or of the instance. -/
def ownAny (p : Item → Bool) : Bool := t.items.any fun a => !(a.instanceID ≠ 0 && a.instanceID ≠ i) && p a

def solid : Bool := t.marked items i blocksolid .blocksolid

def solidForGood : Bool := t.marked items i immovableblocksolid .immovableblocksolid

def noPathForGood : Bool := t.marked items i immovablenofieldblockpath .immovablenofieldblockpath

def noPath : Bool := t.marked items i nofieldblockpath .nofieldblockpath

def blockedForGood : Bool := t.ground.any items.blocksForGood || t.ownAny i items.blocksForGood

def walkStack : Bool := t.ground.any fun ground => (items ground.id).walkStack

def burns : Bool := (t.getFieldItem i).any fun field => (items field.id).damage ≠ 0

/-- What stops monsters in a field: the type of combat and the owner. -/
def harm : Option (Nat × Nat) :=
  ((t.getFieldItem i).filter fun field => !((items field.id).blockSolid || (items field.id).damage = 0)).map
    fun field => ((items field.id).combatType, field.owner)

/-- The ground decides whether a player walks through those of its instance. -/
def asksGround : Bool :=
  t.creatures.any (fun c => c.yields cfg (t.hasFlag protectionzone) && i = c.instanceID) &&
    !t.creatures.any fun c => c.stays cfg (t.hasFlag protectionzone) && i = c.instanceID

/-- Some monster of the instance has its zone and its creatures behind it. -/
def asksWay : Bool :=
  (cfg.familiarEnterPz || !t.hasFlag protectionzone) &&
    (t.queryCreatures { instanceID := i, canPushCreatures := true }).isNone

end Tile

/-! What is read unfiltered is the same on both tiles, each where somebody comes to it and
    nothing of the instance answers before. -/

/-- For monsters that nothing of their instance stops. -/
structure WayAlike (items : Items) (i : Nat) (t t' : Tile) : Prop where
  immovableblocksolid : t.hasInstancedProperty items .immovableblocksolid i = false →
    t.hasFlag immovableblocksolid = t'.hasFlag immovableblocksolid
  immovablenofieldblockpath : t.solidForGood items i = false →
    t.hasInstancedProperty items .immovablenofieldblockpath i = false →
    t.hasFlag immovablenofieldblockpath = t'.hasFlag immovablenofieldblockpath
  harm : t.solidForGood items i = false → t.harm items i = t'.harm items i
  nofieldblockpath : t.solidForGood items i = false → t.noPathForGood items i = false → t.solid items i = false →
    t.hasInstancedProperty items .nofieldblockpath i = false →
    t.hasFlag nofieldblockpath = t'.hasFlag nofieldblockpath

/-- On a ground. -/
structure GroundAlike (cfg : Config) (items : Items) (i : Nat) (t t' : Tile) : Prop where
  leads : t.leads = t'.leads
  blocksolid : t.hasInstancedProperty items .blocksolid i = false →
    t.hasFlag blocksolid = t'.hasFlag blocksolid
  blocksForGood : t.ownAny i items.blocksForGood = false →
    t.ground.any items.blocksForGood = t'.ground.any items.blocksForGood
  walkStack : t.asksGround cfg i = true → t.walkStack items = t'.walkStack items
  burns : t.leads = false → t.burns items i = t'.burns items i
  way : t.leads = false → t.asksWay cfg i = true → WayAlike items i t t'

structure CreaturesAlike (cfg : Config) (items : Items) (i : Nat) (t t' : Tile) : Prop where
  ground : t.ground.isSome = t'.ground.isSome
  onGround : t.ground.isSome = true → GroundAlike cfg items i t t'

namespace Tile

variable (items : Items) (i : Nat) (t : Tile) (item : Item)

def full : Bool := t.items.length ≥ 0xFFFF

def crowded : Bool := t.items.length ≥ tileMaxItems

/-- The trash holder takes it. -/
def discards : Bool := t.hasFlag trashholder && items.hasProperty item .moveable

def holds : Bool := t.ground.isSome || (items item.id).isHangable

def stoodOn : Bool := (items item.id).blockSolid && t.creatures.any fun c => !c.isInGhostMode

def hangs : Bool := (items item.id).isHangable && t.hasFlag supportsHangable

/-- Something hangs where it would hang. -/
def hung : Bool := t.hangs items item && t.items.any fun a => (items a.id).isHangable

/-- Something leaves no room where it would lie. -/
def cramped : Bool :=
  !t.hangs items item && (t.ground.any (items.leavesNoRoom · item) || t.ownAny i (items.leavesNoRoom · item))

/-- Nothing is against the item. -/
def clear : Bool :=
  t.holds items item && !t.stoodOn items item && !t.hung items item && !t.cramped items i item

end Tile

/-- For an item that is not thrown away. -/
structure LaidAlike (items : Items) (i : Nat) (t t' : Tile) (item : Item) : Prop where
  holds : t.holds items item = t'.holds items item
  hung : t.holds items item = true → t.hung items item = t'.hung items item
  hangs : t.holds items item = true → t.ownAny i (items.leavesNoRoom · item) = true →
    t.hangs items item = t'.hangs items item
  leavesNoRoom : t.holds items item = true → t.ownAny i (items.leavesNoRoom · item) = false →
    (!t.hangs items item && t.ground.any (items.leavesNoRoom · item)) =
      (!t'.hangs items item && t'.ground.any (items.leavesNoRoom · item))
  stoodOn : t.holds items item = true → t.cramped items i item = false → t.stoodOn items item = t'.stoodOn items item

/-- An item that is thrown away on one tile meets nothing on the other. -/
structure ItemAlike (items : Items) (i : Nat) (t t' : Tile) (item : Item) : Prop where
  full : t.full = t'.full
  crowded : t.crowded = t'.crowded
  discards : t.crowded = false → item.storeItem = false → t.discards items item = true →
    t'.discards items item = false → t'.clear items i item = true
  discards' : t.crowded = false → item.storeItem = false → t.discards items item = false →
    t'.discards items item = true → t.clear items i item = true
  laid : t.crowded = false → item.storeItem = false → t.discards items item = false →
    t'.discards items item = false → LaidAlike items i t t' item

def Moving.isCreature : Moving → Bool
  | .item _ => false
  | _ => true

/-! ## Tiles that differ in the things of other instances -/

/-- Not of another instance than `i`. -/
def ownTo (i instanceID : Nat) : Bool := instanceID = 0 || instanceID = i

/-- The flags that come from the map and from no item. -/
def Tilestate.zones : BitVec 32 := protectionzone ||| nopvpzone ||| nologout ||| pvpzone

structure SameOwn (i : Nat) (t t' : Tile) : Prop where
  ground : t.ground.filter (fun a => ownTo i a.instanceID) = t'.ground.filter (fun a => ownTo i a.instanceID)
  items : t.items.filter (fun a => ownTo i a.instanceID) = t'.items.filter (fun a => ownTo i a.instanceID)
  creatures : t.creatures.filter (fun c => ownTo i c.instanceID) = t'.creatures.filter (fun c => ownTo i c.instanceID)
  zones : t.flags &&& zones = t'.flags &&& zones

section
variable {i : Nat} {t t' : Tile}

theorem any_eq_of_filter {α : Type} {l l' : List α} {p q : α → Bool} (h : l.filter p = l'.filter p)
    (hq : ∀ a, q a = true → p a = true) : l.any q = l'.any q := by
  have hsame : (fun a => p a && q a) = q := by
    funext a
    cases hqa : q a with
    | false => exact Bool.and_false _
    | true => simp [hq a hqa]
  have hany := congrArg (List.any · q) h
  simpa only [any_filter, hsame] using hany

theorem SameOwn.hasFlag (h : SameOwn i t t') {z : BitVec 32} (hz : Tilestate.zones &&& z = z) :
    t.hasFlag z = t'.hasFlag z := by
  unfold Tile.hasFlag hasBitSet
  rw [← hz, ← BitVec.and_assoc, ← BitVec.and_assoc, h.zones]

theorem SameOwn.anyCreature (h : SameOwn i t t') (p : Creature → Bool) :
    t.creatures.any (fun c => p c && i = c.instanceID) = t'.creatures.any (fun c => p c && i = c.instanceID) := by
  refine any_eq_of_filter h.creatures fun c hc => ?_
  simp only [Bool.and_eq_true, decide_eq_true_eq] at hc
  simp [ownTo, hc.2]

theorem SameOwn.queryZone (h : SameOwn i t t') (p : MovingPlayer) : t.queryZone p = t'.queryZone p := by
  unfold Tile.queryZone
  rw [h.hasFlag (z := pvpzone) (by decide), h.hasFlag (z := nopvpzone) (by decide),
    h.hasFlag (z := protectionzone) (by decide)]

theorem SameOwn.queryCreatures {m : MovingMonster} (h : SameOwn m.instanceID t t') :
    t.queryCreatures m = t'.queryCreatures m := by
  unfold Tile.queryCreatures
  rw [h.anyCreature]
  congr 2
  refine congrArg (· = true) (any_eq_of_filter h.creatures fun c hc => ?_)
  simp only [Bool.and_eq_true, decide_eq_true_eq] at hc
  simp [ownTo, hc.1.2]

theorem queryCreatures_none {m : MovingMonster} (h : t.queryCreatures m = none) :
    t.queryCreatures { instanceID := m.instanceID, canPushCreatures := true } = none := by
  grind [Tile.queryCreatures]

theorem SameOwn.asksGround (h : SameOwn i t t') (cfg : Config) : t.asksGround cfg i = t'.asksGround cfg i := by
  unfold Tile.asksGround
  rw [h.hasFlag (z := protectionzone) (by decide), h.anyCreature, h.anyCreature]

theorem SameOwn.asksWay (h : SameOwn i t t') (cfg : Config) : t.asksWay cfg i = t'.asksWay cfg i := by
  unfold Tile.asksWay
  rw [h.hasFlag (z := protectionzone) (by decide),
    @SameOwn.queryCreatures t t' { instanceID := i, canPushCreatures := true } h]

theorem SameOwn.ownAny (h : SameOwn i t t') (p : Item → Bool) : t.ownAny i p = t'.ownAny i p := by
  refine any_eq_of_filter h.items fun a ha => ?_
  unfold ownTo
  grind

theorem SameOwn.marked (h : SameOwn i t t') (items : Items) (flag : BitVec 32) (prop : ItemProperty) :
    t.marked items i flag prop = t'.marked items i flag prop ↔
      (t.hasInstancedProperty items prop i = false → t.hasFlag flag = t'.hasFlag flag) := by
  have hown : t.hasInstancedProperty items prop i = t'.hasInstancedProperty items prop i := by
    unfold Tile.hasInstancedProperty
    split
    · rfl
    · refine any_eq_of_filter h.items fun a ha => ?_
      simp only [Bool.and_eq_true, decide_eq_true_eq] at ha
      simp [ownTo, ha.1]
  unfold Tile.marked
  rw [← hown]
  cases t.hasInstancedProperty items prop i <;> simp

theorem SameOwn.blockedForGood (h : SameOwn i t t') (items : Items) : t.blockedForGood items i = t'.blockedForGood items i ↔
    (t.ownAny i items.blocksForGood = false → t.ground.any items.blocksForGood = t'.ground.any items.blocksForGood) := by
  unfold Tile.blockedForGood
  rw [← h.ownAny]
  cases t.ownAny i items.blocksForGood <;> simp

/-! ## The answers by what is read -/

variable (cfg : Config) (items : Items) (flags : BitVec 32)

theorem queryItems_reads : t.queryItems items flags i =
    if hasBitSet ignoreblockitem flags then if t.blockedForGood items i then .notPossible else .noError
    else if t.solid items i then .notEnoughRoom else .noError := by
  unfold Tile.queryItems Tile.blockedForGood Tile.solid Tile.marked Tile.ownAny
  cases hasBitSet ignoreblockitem flags with
  | false => simp
  | true =>
    cases t.ground.any items.blocksForGood with
    | false => simp
    | true => simp

/-- Two reasons with one answer. -/
theorem ite_or_same {α : Type} (a b : Bool) {_ : Decidable ((a || b) = true)} (x y : α) :
    (if (a || b) = true then x else y) = if a = true then x else if b = true then x else y := by
  cases a
  · simp
  · simp

/-- The monster is stopped by the damage of that type of combat and owner. -/
def MovingMonster.stoppedBy (m : MovingMonster) (harm : Nat × Nat) : Bool :=
  !m.isImmune harm.1 && !(hasBitSet ignorefielddamage flags && (m.canWalkOnFieldType harm.1 ||
    (harm.2 ≠ 0 && m.isIgnoringFieldDamage && m.hasBeenAttacked harm.2)))

theorem queryField_reads (m : MovingMonster) : queryField items m flags (t.getFieldItem i) =
    if (t.harm items i).any (m.stoppedBy flags) then .notPossible else .noError := by
  unfold queryField Tile.harm
  cases t.getFieldItem i with
  | none => rfl
  | some field =>
    have hfield : ∀ stops : Bool, stops = !((items field.id).blockSolid || decide ((items field.id).damage = 0)) →
        ((if stops then some field else none).map fun field => ((items field.id).combatType, field.owner)).any
            (m.stoppedBy flags) =
          (stops && m.stoppedBy flags ((items field.id).combatType, field.owner)) := by
      intro stops _
      cases stops
      · rfl
      · rfl
    rw [Option.filter_some, hfield _ rfl]
    unfold MovingMonster.stoppedBy
    grind

theorem queryMonster_reads (m : MovingMonster) : t.queryMonster cfg items m flags i =
    if !(m.isFamiliar && cfg.familiarEnterPz) && t.hasFlag protectionzone || t.leads then .notPossible
    else (t.queryCreatures m).getD (if t.solidForGood items i then .notPossible
      else if hasBitSet pathfinding flags && t.noPathForGood items i then .notPossible
      else if (t.solid items i || hasBitSet pathfinding flags && t.noPath items i) &&
          !(m.canPushItems || hasBitSet ignoreblockitem flags) then .notPossible
      else if (t.harm items i).any (m.stoppedBy flags) then .notPossible else .noError) := by
  unfold Tile.queryMonster
  rw [queryField_reads]
  cases t.queryCreatures m with
  | none => rfl
  | some ret => rfl

theorem any_canWalkthrough (p : MovingPlayer) (hp : p.isAccessPlayer = false) (hm : p.isAccountManager = false) :
    t.creatures.any (fun c => !t.canWalkthrough cfg items p c) =
      (t.creatures.any (fun c => c.stays cfg (t.hasFlag protectionzone) && p.instanceID = c.instanceID) ||
        t.creatures.any (fun c => c.yields cfg (t.hasFlag protectionzone) && p.instanceID = c.instanceID) &&
          !t.walkStack items) := by
  have hc : ∀ c : Creature, (!t.canWalkthrough cfg items p c) =
      ((c.stays cfg (t.hasFlag protectionzone) && p.instanceID = c.instanceID) ||
        (c.yields cfg (t.hasFlag protectionzone) && p.instanceID = c.instanceID) && !t.walkStack items) := by
    intro c
    unfold Tile.canWalkthrough Creature.stays Creature.yields Creature.isInGhostMode Tile.walkStack
    cases c.kind with
    | player ghostMode isAccountManager level => grind
    | monster => simp [hp]
    | npc => simp [hp]
  simp only [hc]
  induction t.creatures with
  | nil => rfl
  | cons c cs ih => grind

theorem SameOwn.canWalkthrough {p : MovingPlayer} (h : SameOwn p.instanceID t t')
    (hsame : ∀ c, t.canWalkthrough cfg items p c = t'.canWalkthrough cfg items p c) :
    t.creatures.any (fun c => !t.canWalkthrough cfg items p c) =
      t'.creatures.any (fun c => !t'.canWalkthrough cfg items p c) := by
  simp only [hsame]
  refine any_eq_of_filter h.creatures fun c hc => ?_
  by_cases hi : p.instanceID = c.instanceID
  · simp [ownTo, hi]
  · simp [Tile.canWalkthrough, hi] at hc

end

/-! ## Alike to creatures -/

section
variable {cfg : Config} {items : Items} {i : Nat} {t t' : Tile} (flags : BitVec 32)

theorem GroundAlike.solid (ha : GroundAlike cfg items i t t') (h : SameOwn i t t') :
    t.solid items i = t'.solid items i :=
  (h.marked items _ _).mpr ha.blocksolid

theorem GroundAlike.queryItems (ha : GroundAlike cfg items i t t') (h : SameOwn i t t') :
    t.queryItems items flags i = t'.queryItems items flags i := by
  rw [queryItems_reads, queryItems_reads, ha.solid h, (h.blockedForGood items).mpr ha.blocksForGood]

theorem GroundAlike.canWalkthrough {p : MovingPlayer} (ha : GroundAlike cfg items p.instanceID t t')
    (h : SameOwn p.instanceID t t') (hp : p.isAccessPlayer = false) :
    t.creatures.any (fun c => !t.canWalkthrough cfg items p c) =
      t'.creatures.any (fun c => !t'.canWalkthrough cfg items p c) := by
  have hzone : t.hasFlag protectionzone = t'.hasFlag protectionzone := h.hasFlag (by decide)
  cases hm : p.isAccountManager with
  | true =>
    refine h.canWalkthrough cfg items fun c => ?_
    simp [Tile.canWalkthrough, hm]
  | false =>
    have hground := ha.walkStack
    unfold Tile.asksGround at hground
    rw [any_canWalkthrough cfg items p hp hm, any_canWalkthrough cfg items p hp hm, ← hzone, ← h.anyCreature, ← h.anyCreature]
    grind

theorem GroundAlike.player {p : MovingPlayer} (ha : GroundAlike cfg items p.instanceID t t')
    (h : SameOwn p.instanceID t t') (hout : (hasBitSet pathfinding flags && t.leads) = false) :
    t.queryPlayer cfg items p flags p.instanceID = t'.queryPlayer cfg items p flags p.instanceID := by
  have hnologout : t.hasFlag nologout = t'.hasFlag nologout := h.hasFlag (by decide)
  have hburns := ha.burns
  have hwalk := ha.canWalkthrough h
  unfold Tile.queryPlayer
  unfold Tile.burns at hburns
  rw [← h.queryZone, ← ha.queryItems flags h, ← hnologout]
  grind

theorem GroundAlike.monster {m : MovingMonster} (ha : GroundAlike cfg items m.instanceID t t')
    (h : SameOwn m.instanceID t t') :
    t.queryMonster cfg items m flags m.instanceID = t'.queryMonster cfg items m flags m.instanceID := by
  have hzone : t.hasFlag protectionzone = t'.hasFlag protectionzone := h.hasFlag (by decide)
  rw [queryMonster_reads, queryMonster_reads, ← hzone, ← ha.leads, ← h.queryCreatures]
  cases hleads : t.leads with
  | true => simp
  | false =>
    cases hown : t.queryCreatures m with
    | some ret => rfl
    | none =>
      cases hopen : !(m.isFamiliar && cfg.familiarEnterPz) && t.hasFlag protectionzone with
      | true => rfl
      | false =>
        have hask : t.asksWay cfg m.instanceID = true := by
          unfold Tile.asksWay
          rw [queryCreatures_none hown]
          grind
        have hway := ha.way hleads hask
        have hfirst : t.solidForGood items m.instanceID = t'.solidForGood items m.instanceID :=
          (h.marked items _ _).mpr hway.immovableblocksolid
        rw [← hfirst, ← ha.solid h]
        cases hgood : t.solidForGood items m.instanceID with
        | true => rfl
        | false =>
          have hsecond : t.noPathForGood items m.instanceID = t'.noPathForGood items m.instanceID :=
            (h.marked items _ _).mpr (hway.immovablenofieldblockpath hgood)
          have hpath : t.noPathForGood items m.instanceID = false → t.solid items m.instanceID = false →
              t.noPath items m.instanceID = t'.noPath items m.instanceID :=
            fun hsearch hsolid => (h.marked items _ _).mpr (hway.nofieldblockpath hgood hsearch hsolid)
          rw [← hsecond, ← hway.harm hgood]
          generalize (t.harm items m.instanceID).any _ = stopped
          grind

/-- Before its own checks every creature is asked the same. -/
theorem CreaturesAlike.toCreature (ha : CreaturesAlike cfg items i t t') {ret ret' : ReturnValue}
    (h : GroundAlike cfg items i t t' → (hasBitSet pathfinding flags && t.leads) = false → ret = ret') :
    (if hasBitSet nolimit flags then .noError else if hasBitSet pathfinding flags && t.leads then .notPossible
      else if t.ground.isNone then .notPossible else ret) =
    if hasBitSet nolimit flags then .noError else if hasBitSet pathfinding flags && t'.leads then .notPossible
      else if t'.ground.isNone then .notPossible else ret' := by
  rw [← Option.not_isSome, ← Option.not_isSome, ← ha.ground]
  cases hg : t.ground.isSome with
  | false => simp
  | true =>
    have hon := ha.onGround hg
    rw [← hon.leads]
    cases hout : hasBitSet pathfinding flags && t.leads with
    | true => rfl
    | false => rw [h hon hout]

theorem CreaturesAlike.queryAdd (ha : CreaturesAlike cfg items i t t') (h : SameOwn i t t') {thing : Moving}
    (hc : thing.isCreature = true) (hi : thing.instanceID = i) :
    t.queryAdd cfg items thing flags (some i) = t'.queryAdd cfg items thing flags (some i) := by
  subst hi
  cases thing with
  | item item => cases hc
  | monster m => exact ha.toCreature flags fun hon _ => GroundAlike.monster flags hon h
  | player p => exact ha.toCreature flags fun hon hout => GroundAlike.player flags hon h hout
  | npc id =>
    refine ha.toCreature flags fun hon _ => ?_
    have hstand : t.creatures.any (fun c => !c.isInGhostMode && id = c.instanceID) =
        t'.creatures.any (fun c => !c.isInGhostMode && id = c.instanceID) := h.anyCreature _
    have hitems : t.queryItems items flags id = t'.queryItems items flags id := hon.queryItems flags h
    show t.queryNpc items id flags id = t'.queryNpc items id flags id
    unfold Tile.queryNpc
    rw [hstand, hitems]

end

/-! ## What the answers to creatures tell -/

/-- One answer to every creature of the instance. -/
def CreaturesAnswered (cfg : Config) (items : Items) (i : Nat) (t t' : Tile) : Prop :=
  ∀ thing : Moving, thing.isCreature = true → thing.instanceID = i → ∀ flags,
    t.queryAdd cfg items thing flags (some i) = t'.queryAdd cfg items thing flags (some i)

section
variable {cfg : Config} {items : Items} {i : Nat} {t t' : Tile}

/-- The flags of one that walks past creatures, looks for a way or not, and passes items or not. -/
def asking (search through : Bool) : BitVec 32 :=
  ignoreblockcreature ||| (if search then pathfinding else 0) ||| if through then ignoreblockitem else 0

theorem npc_told (search through : Bool) : t.queryAdd cfg items (.npc i) (asking search through) (some i) =
    if search && t.leads then .notPossible else if t.ground.isNone then .notPossible
    else if through then if t.blockedForGood items i then .notPossible else .noError
    else if t.solid items i then .notEnoughRoom else .noError := by
  have hbits : hasBitSet nolimit (asking search through) = false ∧ hasBitSet ignoreblockcreature (asking search through) = true ∧
      hasBitSet pathfinding (asking search through) = search ∧ hasBitSet ignoreblockitem (asking search through) = through := by
    cases search <;> cases through <;> decide
  obtain ⟨hlimit, hcreature, hsearch, hthrough⟩ := hbits
  have hitems := queryItems_reads (t := t) (i := i) items (asking search through)
  rw [hthrough] at hitems
  rw [← hitems]
  simp [Tile.queryAdd, Tile.queryNpc, Tile.leads, hlimit, hcreature, hsearch]

theorem player_told (p : MovingPlayer) (flags : BitVec 32) (hlimit : hasBitSet nolimit flags = false)
    (hg : t.ground.isSome = true) (hout : (hasBitSet pathfinding flags && t.leads) = false) (htile : p.tile = some 0)
    (hlock : p.isPzLocked = false) :
    t.queryAdd cfg items (.player p) flags (some i) =
      if !hasBitSet ignoreblockcreature flags && !p.isAccessPlayer &&
        t.creatures.any (fun c => !t.canWalkthrough cfg items p c) then .notPossible
      else if t.burns items i && hasBitSet pathfinding flags && !hasBitSet ignorefielddamage flags then .notPossible
      else t.queryItems items flags i := by
  rw [← Option.not_isNone, Bool.not_eq_true'] at hg
  unfold Tile.leads at hout
  simp only [Tile.queryAdd, Option.getD_some, Tile.queryPlayer, Tile.queryZone, Tile.burns, hlimit, hg, hout, htile, hlock]
  rfl

/-- Something is in the way of a monster that nothing of its instance stops. -/
def Tile.stops (items : Items) (t : Tile) (m : MovingMonster) (flags : BitVec 32) : Bool :=
  t.solidForGood items m.instanceID || hasBitSet pathfinding flags && t.noPathForGood items m.instanceID ||
    (t.solid items m.instanceID || hasBitSet pathfinding flags && t.noPath items m.instanceID) &&
      !(m.canPushItems || hasBitSet ignoreblockitem flags) ||
    (t.harm items m.instanceID).any (m.stoppedBy flags)

theorem monster_told (m : MovingMonster) (flags : BitVec 32) (hlimit : hasBitSet nolimit flags = false)
    (hg : t.ground.isSome = true) (hleads : t.leads = false) (hway : t.asksWay cfg m.instanceID = true)
    (hfamiliar : m.isFamiliar = true) (hpush : m.canPushCreatures = true) (hsummon : m.isSummon = false) :
    t.queryAdd cfg items (.monster m) flags (some m.instanceID) = if t.stops items m flags then .notPossible else .noError := by
  unfold Tile.asksWay at hway
  rw [Bool.and_eq_true, Option.isNone_iff_eq_none] at hway
  obtain ⟨hzone, hown⟩ := hway
  have hnone : t.queryCreatures m = none := by
    simpa [Tile.queryCreatures, hpush, hsummon] using hown
  have hopen : (!(m.isFamiliar && cfg.familiarEnterPz) && t.hasFlag protectionzone) = false := by
    rw [hfamiliar]
    grind
  have hmonster := queryMonster_reads (t := t) (i := m.instanceID) cfg items flags m
  rw [hopen, hleads, hnone] at hmonster
  rw [← Option.not_isNone, Bool.not_eq_true'] at hg
  unfold Tile.leads at hleads
  unfold Tile.stops
  simp only [Tile.queryAdd, Option.getD_some, hlimit, hg, hleads, hmonster, ite_or_same]
  simp

theorem CreaturesAnswered.before (h : CreaturesAnswered cfg items i t t') :
    t.ground.isSome = t'.ground.isSome ∧ (t.ground.isSome = true →
      t.leads = t'.leads ∧ t.solid items i = t'.solid items i ∧ t.blockedForGood items i = t'.blockedForGood items i) := by
  have hsolid := h (.npc i) rfl rfl (asking false false)
  have hleads := h (.npc i) rfl rfl (asking true false)
  have hblocked := h (.npc i) rfl rfl (asking false true)
  rw [npc_told, npc_told, ← Option.not_isSome, ← Option.not_isSome] at hsolid hleads hblocked
  grind

theorem CreaturesAnswered.walkStack (h : CreaturesAnswered cfg items i t t') (hown : SameOwn i t t') (hg : t.ground.isSome = true)
    (hask : t.asksGround cfg i = true) : t.walkStack items = t'.walkStack items := by
  have hg' : t'.ground.isSome = true := h.before.1 ▸ hg
  have hout : ∀ t : Tile, (hasBitSet pathfinding 0 && t.leads) = false := fun t => rfl
  have hanswer := h (.player { instanceID := i, tile := some 0 }) rfl rfl 0
  have hask' := hown.asksGround cfg ▸ hask
  rw [player_told _ _ rfl hg (hout t) rfl rfl, player_told _ _ rfl hg' (hout t') rfl rfl, any_canWalkthrough _ _ _ rfl rfl,
    any_canWalkthrough _ _ _ rfl rfl, queryItems_reads, queryItems_reads] at hanswer
  have hbits : hasBitSet ignoreblockcreature 0 = false ∧ hasBitSet pathfinding 0 = false ∧
    hasBitSet ignoreblockitem 0 = false := by decide
  unfold Tile.asksGround at hask hask'
  rw [hbits.1, hbits.2.1, hbits.2.2] at hanswer
  grind

theorem CreaturesAnswered.burns (h : CreaturesAnswered cfg items i t t') (hg : t.ground.isSome = true)
    (hleads : t.leads = false) : t.burns items i = t'.burns items i := by
  have hg' : t'.ground.isSome = true := h.before.1 ▸ hg
  have hleads' : t'.leads = false := (h.before.2 hg).1 ▸ hleads
  have hanswer := h (.player { instanceID := i, tile := some 0, isAccessPlayer := true }) rfl rfl pathfinding
  rw [player_told _ _ rfl hg (by simp [hleads]) rfl rfl, player_told _ _ rfl hg' (by simp [hleads']) rfl rfl, queryItems_reads,
    queryItems_reads] at hanswer
  have hbits : hasBitSet ignorefielddamage pathfinding = false ∧ hasBitSet pathfinding pathfinding = true ∧
    hasBitSet ignoreblockitem pathfinding = false := by decide
  rw [hbits.1, hbits.2.1, hbits.2.2] at hanswer
  grind

/-- What a familiar that pushes creatures is told, one that meets nothing before. -/
theorem CreaturesAnswered.monster {m : MovingMonster} (h : CreaturesAnswered cfg items m.instanceID t t')
    (hown : SameOwn m.instanceID t t') (hg : t.ground.isSome = true) (hleads : t.leads = false)
    (hway : t.asksWay cfg m.instanceID = true) (hfamiliar : m.isFamiliar = true) (hpush : m.canPushCreatures = true)
    (hsummon : m.isSummon = false) (flags : BitVec 32) (hlimit : hasBitSet nolimit flags = false) :
    t.stops items m flags = t'.stops items m flags := by
  have hg' : t'.ground.isSome = true := h.before.1 ▸ hg
  have hleads' : t'.leads = false := (h.before.2 hg).1 ▸ hleads
  have hanswer := h (.monster m) rfl rfl flags
  rw [monster_told m flags hlimit hg hleads hway hfamiliar hpush hsummon,
    monster_told m flags hlimit hg' hleads' (hown.asksWay cfg ▸ hway) hfamiliar hpush hsummon] at hanswer
  grind

/-- It pushes creatures and fears no field. -/
def pusher (i : Nat) (canPushItems : Bool) : MovingMonster where
  instanceID := i
  isFamiliar := true
  canPushCreatures := true
  canPushItems := canPushItems
  isImmune _ := true

theorem pusher_stops (canPushItems : Bool) (flags : BitVec 32) : t.stops items (pusher i canPushItems) flags =
    (t.solidForGood items i || hasBitSet pathfinding flags && t.noPathForGood items i ||
      (t.solid items i || hasBitSet pathfinding flags && t.noPath items i) &&
        !(canPushItems || hasBitSet ignoreblockitem flags)) := by
  have hquiet : (pusher i canPushItems).stoppedBy flags = fun _ => false := by
    funext harm
    rfl
  unfold Tile.stops
  rw [hquiet, Option.any_false, Bool.or_false]
  rfl

theorem stops_field {m : MovingMonster} {flags : BitVec 32} (hpush : m.canPushItems = true)
    (hplain : hasBitSet pathfinding flags = false) :
    t.stops items m flags = (t.solidForGood items m.instanceID || (t.harm items m.instanceID).any (m.stoppedBy flags)) := by
  simp [Tile.stops, hpush, hplain]

theorem harm_ext {harm harm' : Option (Nat × Nat)} (hkind : ∀ kind, harm.any (fun x => x.1 = kind) = harm'.any (fun x => x.1 = kind))
    (howner : ∀ owner, harm.any (fun x => !(x.2 ≠ 0 && x.2 = owner)) = harm'.any (fun x => !(x.2 ≠ 0 && x.2 = owner))) :
    harm = harm' := by
  cases harm with
  | none =>
    cases harm' with
    | none => rfl
    | some y => simpa using hkind y.1
  | some x =>
    cases harm' with
    | none => simpa using hkind x.1
    | some y =>
      have hsame := hkind x.1
      have hx := howner x.2
      have hy := howner y.2
      grind

theorem CreaturesAnswered.harm (h : CreaturesAnswered cfg items i t t') (hown : SameOwn i t t') (hg : t.ground.isSome = true)
    (hleads : t.leads = false) (hway : t.asksWay cfg i = true) (hout : t.solidForGood items i = false)
    (hout' : t'.solidForGood items i = false) : t.harm items i = t'.harm items i := by
  have hasked : ∀ m : MovingMonster, m.instanceID = i → m.isFamiliar = true → m.canPushCreatures = true → m.canPushItems = true →
      m.isSummon = false → ∀ flags, hasBitSet nolimit flags = false → hasBitSet pathfinding flags = false →
      (t.harm items i).any (m.stoppedBy flags) = (t'.harm items i).any (m.stoppedBy flags) := by
    rintro m rfl hfamiliar hpush hitems hsummon flags hlimit hplain
    have hanswer := h.monster hown hg hleads hway hfamiliar hpush hsummon flags hlimit
    rwa [stops_field hitems hplain, stops_field hitems hplain, hout, hout', Bool.false_or, Bool.false_or] at hanswer
  refine harm_ext (fun kind => ?_) fun owner => ?_
  · let m : MovingMonster := { pusher i true with isImmune := fun c => c ≠ kind }
    have hfears : m.stoppedBy 0 = fun x => decide (x.1 = kind) := by
      funext x
      simp [m, MovingMonster.stoppedBy, hasBitSet]
    exact hfears ▸ hasked m rfl rfl rfl rfl rfl 0 rfl rfl
  · let m : MovingMonster := { pusher i true with
      isImmune := fun _ => false
      canWalkOnFieldType := fun _ => false
      isIgnoringFieldDamage := true
      hasBeenAttacked := fun attacker => attacker = owner }
    have hfears : m.stoppedBy ignorefielddamage = fun x => !(x.2 ≠ 0 && x.2 = owner) := by
      funext x
      simp [m, MovingMonster.stoppedBy, hasBitSet, ignorefielddamage]
    exact hfears ▸ hasked m rfl rfl rfl rfl rfl ignorefielddamage rfl rfl

theorem CreaturesAnswered.way (h : CreaturesAnswered cfg items i t t') (hown : SameOwn i t t')
    (hg : t.ground.isSome = true) (hleads : t.leads = false) (hway : t.asksWay cfg i = true) :
    WayAlike items i t t' := by
  have hbits : hasBitSet pathfinding 0 = false ∧ hasBitSet pathfinding pathfinding = true ∧
      hasBitSet ignoreblockitem pathfinding = false := by decide
  obtain ⟨hplain, hsearch, hsearch'⟩ := hbits
  have hasked := fun canPushItems => h.monster (m := pusher i canPushItems) hown hg hleads hway rfl rfl rfl
  have hsolid := hasked true 0 rfl
  have hpath := hasked true pathfinding rfl
  have hweak := hasked false pathfinding rfl
  rw [pusher_stops, pusher_stops, hplain] at hsolid
  rw [pusher_stops, pusher_stops, hsearch] at hpath
  rw [pusher_stops, pusher_stops, hsearch, hsearch'] at hweak
  have hsame := (h.before.2 hg).2.1
  have hgood : t.solidForGood items i = t'.solidForGood items i := by
    simpa using hsolid
  refine ⟨(hown.marked items _ _).mp hgood, fun hout => (hown.marked items _ _).mp ?_,
    fun hout => h.harm hown hg hleads hway hout (hgood ▸ hout), fun hout hsearch hsolid => (hown.marked items _ _).mp ?_⟩
  · show t.noPathForGood items i = t'.noPathForGood items i
    grind
  · show t.noPath items i = t'.noPath items i
    grind

theorem creatures_answered_iff (h : SameOwn i t t') : CreaturesAnswered cfg items i t t' ↔ CreaturesAlike cfg items i t t' := by
  constructor
  · intro hanswered
    refine ⟨hanswered.before.1, fun hg => ?_⟩
    obtain ⟨hleads, hsolid, hblocked⟩ := hanswered.before.2 hg
    exact ⟨hleads, (h.marked items _ _).mp hsolid, (h.blockedForGood items).mp hblocked, hanswered.walkStack h hg,
      hanswered.burns hg, hanswered.way h hg⟩
  · intro halike thing hc hi flags
    exact halike.queryAdd flags h hc hi

end

/-! ## The answers to an item -/

section
variable {cfg : Config} {items : Items} {i : Nat} {t t' : Tile} {item : Item}

/-- Said of an item that is not thrown away. -/
def Tile.laidAnswer (items : Items) (i : Nat) (t : Tile) (item : Item) (ignoresCreatures : Bool) : ReturnValue :=
  if !t.holds items item then .notPossible
  else if t.stoodOn items item && !ignoresCreatures then .notEnoughRoom
  else if t.hung items item then .needExchange
  else if t.cramped items i item then .notEnoughRoom
  else .noError

theorem item_told (flags : BitVec 32) : t.queryAdd cfg items (.item item) flags (some i) =
    if t.full then .notPossible
    else if hasBitSet nolimit flags then .noError
    else if t.crowded then .cannotAddMoreItemsOnTile
    else if item.storeItem then .itemCannotBeMovedThere
    else if t.discards items item then .noError
    else t.laidAnswer items i item (hasBitSet ignoreblockcreature flags) := by
  have hrest : t.laidAnswer items i item (hasBitSet ignoreblockcreature flags) =
      if t.ground.isNone && !(items item.id).isHangable then .notPossible
      else if (items item.id).blockSolid && !hasBitSet ignoreblockcreature flags &&
          t.creatures.any (fun c => !c.isInGhostMode) then .notEnoughRoom
      else if (items item.id).isHangable && t.hasFlag supportsHangable then
        if t.items.any fun a => (items a.id).isHangable then .needExchange else .noError
      else if t.ground.any fun ground => items.leavesNoRoom ground item then .notEnoughRoom
      else if t.items.any fun a => !(a.instanceID ≠ 0 && a.instanceID ≠ i) && items.leavesNoRoom a item then
        .notEnoughRoom
      else .noError := by
    unfold Tile.laidAnswer Tile.holds Tile.stoodOn Tile.hung Tile.cramped Tile.hangs Tile.ownAny
    rw [← Option.not_isSome]
    grind
  rw [hrest]
  simp only [Tile.queryAdd, Option.getD_some, Tile.queryItem, Tile.full, Tile.crowded, decide_eq_true_eq]
  rfl

theorem laidAnswer_iff (h : SameOwn i t t') : (∀ ignoresCreatures, t.laidAnswer items i item ignoresCreatures =
    t'.laidAnswer items i item ignoresCreatures) ↔ LaidAlike items i t t' item := by
  have hown := h.ownAny (items.leavesNoRoom · item)
  have hapart : ∀ t : Tile, t.hung items item = true → t.hangs items item = true := by
    intro t hhung
    simp only [Tile.hung, Bool.and_eq_true] at hhung
    exact hhung.1
  have ht := hapart t
  have ht' := hapart t'
  constructor
  · intro h
    have hwith := h true
    have hwithout := h false
    unfold Tile.laidAnswer Tile.cramped at hwith hwithout
    rw [← hown] at hwith hwithout
    constructor
    case stoodOn =>
      unfold Tile.cramped
      grind
    all_goals grind
  · intro h ignoresCreatures
    obtain ⟨hholds, hhung, hhangs, hroom, hstood⟩ := h
    unfold Tile.cramped at hstood
    unfold Tile.laidAnswer Tile.cramped
    rw [← hown]
    grind

theorem laidAnswer_noError : (∀ ignoresCreatures, t.laidAnswer items i item ignoresCreatures = .noError) ↔
    t.clear items i item = true := by
  constructor
  · intro h
    have hwithout := h false
    unfold Tile.laidAnswer at hwithout
    unfold Tile.clear
    grind
  · intro h ignoresCreatures
    unfold Tile.clear at h
    unfold Tile.laidAnswer
    grind

theorem full_crowded (h : t.full = true) : t.crowded = true := by
  simp only [Tile.full, Tile.crowded, decide_eq_true_eq] at h ⊢
  exact le_trans (by decide) h

/-- What is said before the trash holder and the rest of the tile come to it. -/
theorem room_told (h : ∀ flags, t.queryAdd cfg items (.item item) flags (some i) =
    t'.queryAdd cfg items (.item item) flags (some i)) : t.full = t'.full ∧ t.crowded = t'.crowded := by
  have hlimit := h nolimit
  have hplain := h 0
  rw [item_told, item_told, show hasBitSet nolimit nolimit = true by decide] at hlimit
  rw [item_told, item_told, show hasBitSet nolimit 0 = false by decide] at hplain
  have hfull := @full_crowded t
  have hfull' := @full_crowded t'
  have hlaid : ∀ (t : Tile) (b : Bool), t.laidAnswer items i item b ≠ .cannotAddMoreItemsOnTile := by
    intro t b
    unfold Tile.laidAnswer
    grind
  grind

theorem item_answered_iff (hown : SameOwn i t t') : (∀ flags, t.queryAdd cfg items (.item item) flags (some i) =
    t'.queryAdd cfg items (.item item) flags (some i)) ↔ ItemAlike items i t t' item := by
  constructor
  · intro h
    obtain ⟨hfull, hcrowded⟩ := room_told h
    have hanswer : t.crowded = false → item.storeItem = false → ∀ b,
        (if t.discards items item then .noError else t.laidAnswer items i item b) =
          if t'.discards items item then .noError else t'.laidAnswer items i item b := by
      intro hroom hstore b
      have hasked := h (if b then ignoreblockcreature else 0)
      have hbits : hasBitSet nolimit (if b then ignoreblockcreature else 0) = false ∧
          hasBitSet ignoreblockcreature (if b then ignoreblockcreature else 0) = b := by
        cases b <;> decide
      have hnotFull : t.full = false := by
        by_contra hnot
        exact absurd (full_crowded (by simpa using hnot)) (by simp [hroom])
      rw [item_told, item_told, hbits.1, hbits.2, ← hfull, ← hcrowded, hnotFull, hroom, hstore] at hasked
      exact hasked
    refine ⟨hfull, hcrowded, fun hroom hstore hd hd' => ?_, fun hroom hstore hd hd' => ?_, fun hroom hstore hd hd' => ?_⟩
    · refine laidAnswer_noError.mp fun b => ?_
      have hasked := hanswer hroom hstore b
      rw [hd, hd'] at hasked
      exact hasked.symm
    · refine laidAnswer_noError.mp fun b => ?_
      have hasked := hanswer hroom hstore b
      rw [hd, hd'] at hasked
      exact hasked
    · refine (laidAnswer_iff hown).mp fun b => ?_
      have hasked := hanswer hroom hstore b
      rw [hd, hd'] at hasked
      exact hasked
  · intro h flags
    rw [item_told, item_told, ← h.full, ← h.crowded]
    have hrest : t.crowded = false → item.storeItem = false →
        (if t.discards items item then .noError else t.laidAnswer items i item (hasBitSet ignoreblockcreature flags)) =
          if t'.discards items item then .noError else t'.laidAnswer items i item (hasBitSet ignoreblockcreature flags) := by
      intro hroom hstore
      cases hd : t.discards items item with
      | true =>
        cases hd' : t'.discards items item with
        | true => rfl
        | false => exact (laidAnswer_noError.mpr (h.discards hroom hstore hd hd') _).symm
      | false =>
        cases hd' : t'.discards items item with
        | true => exact laidAnswer_noError.mpr (h.discards' hroom hstore hd hd') _
        | false => exact (laidAnswer_iff hown).mpr (h.laid hroom hstore hd hd') _
    grind

end

/-! ## Things of other instances come and go -/

def Thing.instanceID : Thing → Nat
  | .item a => a.instanceID
  | .creature c => c.instanceID

def Items.takesNoPlace (items : Items) (a : Item) : Bool :=
  !(items a.id).isGroundTile && !(items a.id).isSplash && !(items a.id).isMagicField

/-- A thing of another instance comes or goes. -/
def Op.Foreign (items : Items) (i : Nat) : Op → Prop
  | .internalAddThing thing | .removeThing thing _ => ownTo i thing.instanceID = false
  | .addThing (.creature c) => ownTo i c.instanceID = false
  | .addThing (.item a) => ownTo i a.instanceID = false ∧ items.takesNoPlace a = true
  | .updateThing _ _ _ | .replaceThing _ _ => False

section
variable {i : Nat} {t t' t'' : Tile} {items : Items} {a : Item}

theorem SameOwn.refl (i : Nat) (t : Tile) : SameOwn i t t := ⟨rfl, rfl, rfl, rfl⟩

theorem SameOwn.trans (h : SameOwn i t t') (h' : SameOwn i t' t'') : SameOwn i t t'' :=
  ⟨h.ground.trans h'.ground, h.items.trans h'.items, h.creatures.trans h'.creatures, h.zones.trans h'.zones⟩

theorem and_ite_or {z f m : BitVec 32} {c : Prop} [Decidable c] (h : m &&& z = 0) :
    (if c then f ||| m else f) &&& z = f &&& z := by
  split
  · simp [BitVec.and_or_distrib_right, h]
  · rfl

theorem and_ite_clear {z f m : BitVec 32} {c : Prop} [Decidable c] (h : ~~~m &&& z = z) :
    (if c then f &&& ~~~m else f) &&& z = f &&& z := by
  split
  · rw [BitVec.and_assoc, h]
  · rfl

theorem setTileFlags_own (t : Tile) (items : Items) (a : Item) : SameOwn i t (t.setTileFlags items a) := by
  refine ⟨rfl, rfl, rfl, ?_⟩
  have hdirection : (items a.id).floorChange &&& zones = 0 := by
    have hout : zones = ~~~floorchange &&& zones := by decide
    rw [hout, ← BitVec.and_assoc, (items a.id).directions]
    decide
  unfold Tile.setTileFlags
  iterate 12 rw [and_ite_or (by decide)]
  rw [and_ite_or hdirection]

theorem resetTileFlags_own (t : Tile) (items : Items) (a : Item) : SameOwn i t (t.resetTileFlags items a) := by
  refine ⟨rfl, rfl, rfl, ?_⟩
  unfold Tile.resetTileFlags
  dsimp only
  iterate 14 rw [and_ite_clear (by decide)]

theorem SameOwn.set (h : SameOwn i t t') : SameOwn i t (t'.setTileFlags items a) := h.trans (setTileFlags_own t' items a)

theorem SameOwn.reset (h : SameOwn i t t') : SameOwn i t (t'.resetTileFlags items a) := h.trans (resetTileFlags_own t' items a)

theorem filter_eraseP {α : Type} {p q : α → Bool} {l : List α} (h : ∀ b ∈ l, q b = true → p b = false) :
    (l.eraseP q).filter p = l.filter p := by
  induction l with
  | nil => rfl
  | cons b l ih =>
    cases hq : q b with
    | true => simp [hq, h b mem_cons_self hq]
    | false =>
      have hrest := ih fun c hc => h c (mem_cons_of_mem _ hc)
      simp [hq, filter_cons, hrest]

theorem insertDown_own (ha : ownTo i a.instanceID = false) : SameOwn i t (t.insertDown a) :=
  ⟨rfl, by simp [Tile.insertDown, ha], rfl, rfl⟩

theorem insertTop_own (ha : ownTo i a.instanceID = false) (p : Item → Bool) : SameOwn i t (t.insertTop a p) := by
  refine ⟨rfl, ?_, rfl, rfl⟩
  show t.items.filter _ = (t.downItems ++ (t.topItems.takeWhile _ ++ a :: t.topItems.dropWhile _)).filter _
  rw [filter_append, filter_append, filter_cons_of_neg (by simp [ha]), ← filter_append,
    takeWhile_append_dropWhile, ← filter_append, down_top]

theorem change_own {f : Item → Item} (ha : ownTo i a.instanceID = false) (ht : ∀ b ∈ t.stack, b.ptr = a.ptr → b = a)
    (hf : (f a).instanceID = a.instanceID) : SameOwn i t (t.change a.ptr f) := by
  have hkeep : ∀ l : List Item, (∀ b ∈ l, b.ptr = a.ptr → b = a) →
      l.filter (fun b => ownTo i b.instanceID) =
        (l.map fun b => if b.ptr = a.ptr then f b else b).filter (fun b => ownTo i b.instanceID) := by
    intro l hl
    induction l with
    | nil => rfl
    | cons b l ih =>
      have hrest := ih fun c hc => hl c (mem_cons_of_mem _ hc)
      by_cases hb : b.ptr = a.ptr
      · have heq := hl b mem_cons_self hb
        subst heq
        simpa [ha, hf] using hrest
      · simp [hb, filter_cons, ← hrest]
  refine ⟨?_, hkeep t.items fun b hb => ht b (mem_append_right _ hb), rfl, rfl⟩
  show t.ground.filter _ = (t.ground.map fun b => if b.ptr = a.ptr then f b else b).filter _
  cases hg : t.ground with
  | none => rfl
  | some g =>
    by_cases hb : g.ptr = a.ptr
    · have heq := ht g (by simp [Tile.stack, hg]) hb
      subst heq
      simp [Option.filter, ha, hf]
    · simp [hb]

theorem removeItem_own (ha : ownTo i a.instanceID = false) (ht : ∀ b ∈ t.stack, b.ptr = a.ptr → b = a) (count : Nat) :
    SameOwn i t (t.removeItem items a count) := by
  have hforeign : ∀ b ∈ t.items, decide (b.ptr = a.ptr) = true → ownTo i b.instanceID = false := by
    intro b hb hp
    rw [ht b (mem_append_right _ hb) (by simpa using hp)]
    exact ha
  unfold Tile.removeItem
  split_ifs with hnone hground htop hin hdown hcount
  · exact .refl i t
  · refine SameOwn.reset ⟨?_, rfl, rfl, rfl⟩
    cases hg : t.ground with
    | none => rfl
    | some g =>
      have heq : g = a := ht g (by simp [Tile.stack, hg]) (by simpa [hg] using hground)
      simp [Option.filter, heq, ha]
  · exact .refl i t
  · refine SameOwn.reset ⟨rfl, ?_, rfl, rfl⟩
    show t.items.filter _ = (t.downItems ++ t.topItems.eraseP _).filter _
    rw [filter_append, filter_eraseP, ← filter_append, down_top]
    exact fun b hb => hforeign b (mem_of_mem_drop hb)
  · exact .refl i t
  · exact change_own ha ht rfl
  · refine SameOwn.reset ⟨rfl, ?_, rfl, rfl⟩
    show t.items.filter _ = (t.downItems.eraseP _ ++ t.topItems).filter _
    rw [filter_append, filter_eraseP, ← filter_append, down_top]
    exact fun b hb => hforeign b (mem_of_mem_take hb)

theorem internalAddItem_own (ha : ownTo i a.instanceID = false) : SameOwn i t (t.internalAddItem items a) := by
  unfold Tile.internalAddItem
  dsimp only
  split_ifs with hg hnone hfull htop
  · refine SameOwn.set ⟨?_, rfl, rfl, rfl⟩
    simp [Option.isNone_iff_eq_none.mp hnone, Option.filter, ha]
  · exact .refl i t
  · exact .refl i t
  · exact (insertTop_own ha _).set
  · exact (insertDown_own ha).set

theorem addItem_own (ha : ownTo i a.instanceID = false) (hplace : items.takesNoPlace a = true) :
    SameOwn i t (t.addItem items a) := by
  simp only [Items.takesNoPlace, Bool.and_eq_true, Bool.not_eq_true'] at hplace
  obtain ⟨⟨hg, hs⟩, hm⟩ := hplace
  unfold Tile.addItem
  simp only [hg, hs, hm, Bool.false_eq_true, if_false]
  split_ifs with hfull htop
  · exact .refl i t
  · exact (insertTop_own ha _).set
  · exact (insertDown_own ha).set

theorem step_own {op : Op} (hf : op.Foreign items i) (hreal : op.Real t) : SameOwn i t (step items t op) := by
  have hcreature : ∀ c : Creature, ownTo i c.instanceID = false → SameOwn i t { t with creatures := c :: t.creatures } := by
    intro c hc
    exact ⟨rfl, rfl, by simp [hc], rfl⟩
  cases op with
  | internalAddThing thing =>
    cases thing with
    | item a => exact internalAddItem_own hf
    | creature c => exact hcreature c hf
  | addThing thing =>
    cases thing with
    | item a => exact addItem_own hf.1 hf.2
    | creature c => exact hcreature c hf
  | removeThing thing count =>
    cases thing with
    | item a => exact removeItem_own hf hreal count
    | creature c =>
      refine ⟨rfl, rfl, ?_, rfl⟩
      show t.creatures.filter _ = (t.creatures.eraseP _).filter _
      rw [filter_eraseP]
      intro d hd hp
      rw [hreal d hd (by simpa using hp)]
      exact hf
  | updateThing thing itemId count => exact hf.elim
  | replaceThing index thing => exact hf.elim

end

/-! ## Isolation -/

theorem run_own {items : Items} {i : Nat} {t : Tile} {ops : List Op}
    (h : Allowed (step items) (fun t op => op.Foreign items i ∧ op.Real t) t ops) : SameOwn i t (run (step items) t ops) := by
  induction ops generalizing t with
  | nil => exact .refl i t
  | cons op ops ih => exact (step_own h.1.1 h.1.2).trans (ih h.2)

/-- Two tiles that differ in the things of other instances give one answer to every creature of
    this one exactly when they are alike to its creatures, and to an item of it, whatever the
    flags, exactly when they are alike to that item. -/
theorem queryAdd_isolated (cfg : Config) (items : Items) (i : Nat) (t t' : Tile) (h : SameOwn i t t') :
    ((∀ thing : Moving, thing.isCreature = true → thing.instanceID = i → ∀ flags,
      t.queryAdd cfg items thing flags (some i) = t'.queryAdd cfg items thing flags (some i)) ↔
        CreaturesAlike cfg items i t t') ∧
    ∀ item : Item, item.instanceID = i →
      ((∀ flags, t.queryAdd cfg items (.item item) flags (some i) = t'.queryAdd cfg items (.item item) flags (some i)) ↔
        ItemAlike items i t t' item) :=
  ⟨creatures_answered_iff h, fun _ _ => item_answered_iff h⟩

theorem level_floor : (0 : BitVec 32) &&& ~~~floorchange = 0 := by decide

def blocks : Items := fun id =>
  if id = 1 then { isGroundTile := true, directions := level_floor }
  else { blockSolid := true, moveable := false, directions := level_floor }

def paved : Tile := { ground := some { ptr := 0, id := 1 } }

def visitor : Moving := .player { instanceID := 1, tile := some 0 }

def stranger : Thing := .creature { ptr := 1, instanceID := 2, kind := .npc }

theorem stranger_passed : paved.queryAdd {} blocks visitor 0 (some visitor.instanceID) =
    (paved.addThing blocks stranger).queryAdd {} blocks visitor 0 (some visitor.instanceID) := by
  have hown : SameOwn visitor.instanceID paved (paved.addThing blocks stranger) :=
    @step_own 1 paved blocks (.addThing stranger) rfl (by decide)
  have halike : CreaturesAlike {} blocks visitor.instanceID paved (paved.addThing blocks stranger) := by
    refine ⟨rfl, fun _ => ⟨rfl, fun _ => rfl, fun _ => rfl, fun _ => rfl, fun _ => rfl, fun _ _ => ?_⟩⟩
    exact ⟨fun _ => rfl, fun _ _ => rfl, fun _ => rfl, fun _ _ _ _ => rfl⟩
  exact (queryAdd_isolated {} blocks visitor.instanceID paved (paved.addThing blocks stranger) hown).1.mpr halike visitor rfl rfl 0

/-- A wall of another instance stops the visitor. -/
theorem wall_of_another_instance : ¬∀ (cfg : Config) (items : Items) (t t' : Tile) (thing : Moving) (flags : BitVec 32),
    SameOwn thing.instanceID t t' →
    t.queryAdd cfg items thing flags (some thing.instanceID) = t'.queryAdd cfg items thing flags (some thing.instanceID) := by
  intro h
  let wall : Thing := .item { ptr := 1, id := 2, instanceID := 2 }
  have hown : SameOwn visitor.instanceID paved (paved.addThing blocks wall) :=
    @step_own 1 paved blocks (.addThing wall) ⟨rfl, rfl⟩ (by decide)
  exact absurd (h {} blocks paved (paved.addThing blocks wall) visitor 0 hown) (by decide)

end Backlands.Tiles
