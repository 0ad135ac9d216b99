/-
  Backlands.Players.Charms — what charms cost (src/bestiary_charm.cpp).

  Charms are upgraded, assigned to a race, removed from it and reset. The tiers, the races and
  the minor echoes of a player are rows of the database; the charm points are in memory while
  the player is online, and gold is in the inventory and on the bank. `Answers` is what the
  rest of the server answers to one call. A map over charm ids is a function; a loop over it
  goes through the charms there are, which have distinct ids.

  Proved: `charm_economy`.
-/

import Backlands.Db.Transaction
import Backlands.Lib.Runs
import Backlands.Lib.Tally
import Mathlib.Data.List.Range

namespace Backlands.Players.Charms

open Backlands.Lib Backlands.Db Function List Option

inductive BestiaryCharmCategory where
  | Major
  | Minor
  deriving DecidableEq

structure BestiaryCharmDefinition where
  id : Nat
  category : BestiaryCharmCategory
  prices : List Nat
  deriving DecidableEq

def charmDefinitions : List BestiaryCharmDefinition :=
  [⟨0, .Major, [240, 360, 1200]⟩, ⟨1, .Major, [400, 600, 2000]⟩, ⟨2, .Major, [240, 360, 1200]⟩,
    ⟨3, .Major, [320, 480, 1600]⟩, ⟨4, .Major, [320, 480, 1600]⟩, ⟨5, .Major, [360, 540, 1800]⟩,
    ⟨6, .Minor, [100, 150, 225]⟩, ⟨7, .Major, [400, 600, 2000]⟩, ⟨8, .Major, [240, 360, 1200]⟩,
    ⟨9, .Minor, [100, 150, 225]⟩, ⟨10, .Minor, [100, 150, 225]⟩, ⟨11, .Minor, [100, 150, 225]⟩,
    ⟨12, .Minor, [100, 150, 225]⟩, ⟨13, .Minor, [100, 150, 225]⟩, ⟨14, .Minor, [100, 150, 225]⟩,
    ⟨15, .Major, [800, 1200, 4000]⟩, ⟨16, .Major, [600, 900, 3000]⟩, ⟨17, .Minor, [100, 150, 225]⟩,
    ⟨18, .Minor, [100, 150, 225]⟩, ⟨19, .Major, [800, 1200, 4000]⟩, ⟨20, .Minor, [100, 150, 225]⟩,
    ⟨21, .Minor, [100, 150, 225]⟩, ⟨22, .Major, [600, 900, 3000]⟩, ⟨23, .Major, [600, 900, 3000]⟩,
    ⟨24, .Major, [600, 900, 3000]⟩]

def getCharmDefinition (charmId : Nat) : Option BestiaryCharmDefinition :=
  charmDefinitions[charmId]?.filter fun definition => definition.id = charmId

def sameCategory (leftCharmId rightCharmId : Nat) : Bool :=
  match getCharmDefinition leftCharmId, getCharmDefinition rightCharmId with
  | some left, some right => left.category = right.category
  | _, _ => false

def getCharmPriceForTier (charm : BestiaryCharmDefinition) (tier : Nat) : Nat := charm.prices.getD tier 0

def getSpentCharmPointsForTier (charm : BestiaryCharmDefinition) (tier : Nat) : Nat := (charm.prices.take tier).sum

def getMinorEchoRewardForMajorTier (tier : Nat) : Nat := 25 * tier * tier + 25 * tier + 50

structure BestiaryCreatureInfo where
  raceId : Nat
  toKill : Nat
  firstUnlock : Nat
  secondUnlock : Nat

structure Bestiary where
  monstersByRaceId : Nat → Option BestiaryCreatureInfo
  no_zero : monstersByRaceId 0 = none

namespace Bestiary

def empty : Bestiary := ⟨fun _ => none, rfl⟩

def registerMonster (info : BestiaryCreatureInfo) (b : Bestiary) : Bestiary :=
  if h : info.raceId = 0 ∨ info.toKill = 0 then b
  else
    let first := if info.firstUnlock = 0 ∨ info.firstUnlock > info.toKill then info.toKill else info.firstUnlock
    let second := if info.secondUnlock < first ∨ info.secondUnlock > info.toKill then info.toKill else info.secondUnlock
    { monstersByRaceId :=
        update b.monstersByRaceId info.raceId (some { info with firstUnlock := first, secondUnlock := second })
      no_zero := (update_of_ne (fun heq => h (.inl heq.symm)) _ _).trans b.no_zero }

end Bestiary

/-- A row of `player_bestiary_charms`. -/
structure CharmRow where
  unlocked : Nat
  raceid : Nat
  deriving DecidableEq

structure CharmState where
  tier : Nat := 0
  raceId : Nat := 0
  deriving DecidableEq

abbrev CharmStateMap := Nat → Option CharmState

/-- The rows of the player; `resources` is that of `player_bestiary_resources`. -/
structure Tables where
  charms : Nat → Option CharmRow
  resources : Option (Nat × Nat)

structure State where
  tables : Tables
  bestiaryCharmPoints : Nat
  inventoryMoney : Nat
  bankBalance : Nat

/-- What the rest of the server answers to a call. -/
structure Answers where
  enabled : Bool
  /-- `INSERT IGNORE` of the resources. -/
  insert : Execution
  transaction : Nat → Attempt
  restore : Nat → Attempt
  /-- The statement of an assignment or of a grant. -/
  update : Execution
  bestiary : Bestiary
  killCount : Nat
  isPremium : Bool
  level : Nat
  /-- `removeMoney` takes the money, or nothing. -/
  removeMoney : Bool

/-- A sum of `uint32_t`. -/
def add32 (a b : Nat) : Nat := (a + b) % 2 ^ 32

namespace State

def loadCharmStates (s : State) : CharmStateMap := fun id => (s.tables.charms id).map fun row => ⟨min row.unlocked 3, row.raceid⟩

/-- The echoes in the row, and none without a row. -/
def echoes (s : State) : Nat × Nat := s.tables.resources.getD (0, 0)

def getMinorCharmEchoes (insert : Execution) (s : State) : (Nat × Nat) × State :=
  let s := { s with tables :=
    (executeQuery insert (fun t => (0, { t with resources := some (t.resources.getD (0, 0)) })) s.tables).2.2 }
  (s.echoes, s)

end State

/-- The statement of `setMinorCharmEchoes`. -/
def setMinorCharmEchoes (echoes maxEchoes : Nat) (t : Tables) : Tables := { t with resources := some (echoes, maxEchoes) }

def unlock (charmId nextTier : Nat) (t : Tables) : Tables :=
  { t with charms := update t.charms charmId (some ⟨nextTier, ((t.charms charmId).map CharmRow.raceid).getD 0⟩) }

def setRace (charmId raceId : Nat) (t : Tables) : Tables :=
  { t with charms := update t.charms charmId ((t.charms charmId).map fun row => { row with raceid := raceId }) }

def resetAll (t : Tables) : Tables := { t with charms := fun id => (t.charms id).map fun _ => ⟨0, 0⟩ }

/-- The statements of `writeCharmStates` together. -/
def writeCharmStates (states : CharmStateMap) (t : Tables) : Tables :=
  { t with charms := fun id => (states id).map fun state => ⟨state.tier, state.raceId⟩ }

/-- How many statements those are. -/
def writes (states : CharmStateMap) : Nat := 1 + (List.range 256).countP fun id => (states id).isSome

namespace State

def hasGold (amount : Nat) (s : State) : Bool :=
  amount = 0 || s.inventoryMoney ≥ amount || s.bankBalance ≥ amount - s.inventoryMoney

def removeGold (removeMoney : Bool) (amount : Nat) (s : State) : Bool × State :=
  if amount = 0 then (true, s)
  else if !s.hasGold amount then (false, s)
  else
    let fromInventory := min s.inventoryMoney amount
    if fromInventory > 0 && !removeMoney then (false, s)
    else (true, { s with
      inventoryMoney := s.inventoryMoney - fromInventory
      bankBalance := s.bankBalance - (amount - fromInventory) })

/-- `executeWithinTransactionRollbackOnFailure` of `n` statements with an effect together. -/
def within (io : Nat → Attempt) (n : Nat) (f : Tables → Tables) (s : State) : Bool × State :=
  let r := executeWithinTransactionRollbackOnFailure io n f s.tables
  (r.1, { s with tables := r.2 })

end State

def getAssignedCharmCount (states : CharmStateMap) : Nat :=
  charmDefinitions.countP fun charm => match states charm.id with
    | some state => state.tier > 0 && state.raceId > 0
    | none => false

def getSpentMajorCharmPoints (states : CharmStateMap) : Nat :=
  (charmDefinitions.map fun charm => match states charm.id with
    | some state => if charm.category ≠ .Major ∨ state.tier = 0 then 0 else getSpentCharmPointsForTier charm state.tier
    | none => 0).sum

abbrev ActionResult := Bool × String

section

variable (a : Answers)

def upgrade (charm : BestiaryCharmDefinition) (currentState : CharmState) (s : State) : ActionResult × State :=
  if currentState.tier ≥ 3 then ((false, "This charm is already fully unlocked."), s)
  else
    let nextTier := currentState.tier + 1
    let price := getCharmPriceForTier charm currentState.tier
    if price = 0 then ((false, "This charm cannot be upgraded."), s)
    else
      let done (r : Bool × State) : ActionResult × State :=
        if r.1 then ((true, if currentState.tier = 0 then "Charm unlocked." else "Charm upgraded."), r.2)
        else ((false, "Could not upgrade this charm."), r.2)
      match charm.category with
      | .Major =>
        let charmPoints := s.bestiaryCharmPoints
        if charmPoints < price then ((false, "You do not have enough charm points."), s)
        else
          let ((minorEchoes, maxMinorEchoes), s) := s.getMinorCharmEchoes a.insert
          let echoReward := getMinorEchoRewardForMajorTier currentState.tier
          let r := s.within a.transaction 2 fun t =>
            setMinorCharmEchoes (add32 minorEchoes echoReward) (add32 maxMinorEchoes echoReward) (unlock charm.id nextTier t)
          done (r.1, if r.1 then { r.2 with bestiaryCharmPoints := charmPoints - price } else r.2)
      | .Minor =>
        let ((minorEchoes, maxMinorEchoes), s) := s.getMinorCharmEchoes a.insert
        if minorEchoes < price then ((false, "You do not have enough minor charm echoes."), s)
        else done (s.within a.transaction 2 fun t =>
          setMinorCharmEchoes (minorEchoes - price) maxMinorEchoes (unlock charm.id nextTier t))

def restoreCharmStates (states : CharmStateMap) (s : State) : Bool × State :=
  s.within a.restore (writes states) (writeCharmStates states)

def restoreCharmStatesAndResources (states : CharmStateMap) (charmPoints minorEchoes maxMinorEchoes : Nat) (s : State) :
    Bool × State :=
  let r := s.within a.restore (writes states + 1) fun t =>
    setMinorCharmEchoes minorEchoes maxMinorEchoes (writeCharmStates states t)
  if r.1 then (true, { r.2 with bestiaryCharmPoints := charmPoints }) else r

/-- The end of a reset and of a removal: the gold is taken or the charms are restored. -/
def charge (cost : Nat) (done failed : String) (restore : State → Bool × State) (s : State) : ActionResult × State :=
  let (removed, s) := s.removeGold a.removeMoney cost
  if removed then ((true, done), s)
  else
    let r := restore s
    if !r.1 then ((false, "Could not charge gold or restore charm state."), r.2) else ((false, failed), r.2)

def resetCost (level : Nat) : Nat := 100000 + if level > 100 then level * 11000 else 0

def reset (states : CharmStateMap) (s : State) : ActionResult × State :=
  if !s.hasGold (resetCost a.level) then ((false, "You do not have enough gold."), s)
  else
    let charmPoints := s.bestiaryCharmPoints
    let refund := getSpentMajorCharmPoints states
    let ((minorEchoes, maxMinorEchoes), s) := s.getMinorCharmEchoes a.insert
    let r := s.within a.transaction 2 fun t => setMinorCharmEchoes 0 0 (resetAll t)
    if !r.1 then ((false, "Could not reset charms."), r.2)
    else charge a (resetCost a.level) "All charms were reset." "Could not charge gold for resetting charms."
      (restoreCharmStatesAndResources a states charmPoints minorEchoes maxMinorEchoes)
      { r.2 with bestiaryCharmPoints := add32 charmPoints refund }

def requiredKills (charm : BestiaryCharmDefinition) (monster : BestiaryCreatureInfo) : Nat :=
  if charm.category = .Major then monster.toKill else monster.secondUnlock

def alreadySet (states : CharmStateMap) (charm : BestiaryCharmDefinition) (raceId : Nat) : Bool :=
  charmDefinitions.any fun other => match states other.id with
    | some state => other.id ≠ charm.id && state.tier ≠ 0 && state.raceId = raceId && sameCategory charm.id other.id
    | none => false

def assign (states : CharmStateMap) (charm : BestiaryCharmDefinition) (currentState : CharmState) (raceId : Nat) (s : State) :
    ActionResult × State :=
  match a.bestiary.monstersByRaceId raceId with
  | none => ((false, "Creature not found."), s)
  | some monster =>
    if a.killCount < requiredKills charm monster then
      ((false, if charm.category = .Major then "This creature is not fully unlocked."
        else "This creature has not reached the charm assignment stage."), s)
    else if currentState.raceId = 0 ∧ getAssignedCharmCount states ≥ (if a.isPremium then 6 else 2) then
      ((false, "You do not have any charm slots available."), s)
    else if alreadySet states charm raceId then
      ((false, "You already have this creature set on another " ++ (if charm.category = .Major then "major" else "minor") ++
        " charm."), s)
    else
      let r := executeQuery a.update (fun t => (1, setRace charm.id raceId t)) s.tables
      let s := { s with tables := r.2.2 }
      if r.1 then ((true, "Charm assigned."), s) else ((false, "Could not assign this charm."), s)

def remove (states : CharmStateMap) (charm : BestiaryCharmDefinition) (currentState : CharmState) (s : State) :
    ActionResult × State :=
  if currentState.raceId = 0 then ((false, "This charm is not assigned."), s)
  else
    let removeCost := a.level * 100
    if !s.hasGold removeCost then ((false, "You do not have enough gold."), s)
    else
      let r := s.within a.transaction 1 (setRace charm.id 0)
      if !r.1 then ((false, "Could not remove this charm."), r.2)
      else charge a removeCost "Charm removed." "Could not charge gold for removing this charm." (restoreCharmStates a states) r.2

def handleCharmAction (charmId action raceId : Nat) (s : State) : ActionResult × State :=
  if !a.enabled then ((false, "Bestiary system is disabled."), s)
  else
    let states := s.loadCharmStates
    let currentState := (states charmId).getD {}
    match getCharmDefinition charmId with
    | none => if action = 3 then reset a states s else ((false, "Charm not found."), s)
    | some charm =>
      if action = 0 then upgrade a charm currentState s
      else if action = 3 then reset a states s
      else if currentState.tier = 0 then ((false, "This charm is not unlocked."), s)
      else if action = 1 then assign a states charm currentState raceId s
      else if action = 2 then remove a states charm currentState s
      else ((false, "Invalid charm action."), s)

def addMinorCharmEchoes (amount : Nat) (s : State) : Bool × State :=
  if !a.enabled then (false, s)
  else
    let ((echoes, maxEchoes), s) := s.getMinorCharmEchoes a.insert
    let r := executeQuery a.update
      (fun t => (1, setMinorCharmEchoes (min (echoes + amount) (2 ^ 32 - 1)) (min (maxEchoes + amount) (2 ^ 32 - 1)) t)) s.tables
    (r.1, { s with tables := r.2.2 })

end

def addBestiaryCharmPoints (amount : Nat) (s : State) : State :=
  { s with bestiaryCharmPoints := min (s.bestiaryCharmPoints + amount) (2 ^ 32 - 1) }

inductive Event where
  | handleCharmAction (charmId action raceId : Nat)
  | addMinorCharmEchoes (amount : Nat)
  | addBestiaryCharmPoints (amount : Nat)
  /-- Gold comes and goes elsewhere. -/
  | earn (inventoryMoney bankBalance : Nat)

def step (s : State) : Event × Answers → State
  | (.handleCharmAction charmId action raceId, a) => (handleCharmAction a charmId action raceId s).2
  | (.addMinorCharmEchoes amount, a) => (addMinorCharmEchoes a amount s).2
  | (.addBestiaryCharmPoints amount, _) => addBestiaryCharmPoints amount s
  | (.earn inventoryMoney bankBalance, _) => { s with inventoryMoney := inventoryMoney, bankBalance := bankBalance }

/-! ## What a player has -/

def tier (charms : Nat → Option CharmRow) (id : Nat) : Nat := ((charms id).map CharmRow.unlocked).getD 0

def race (charms : Nat → Option CharmRow) (id : Nat) : Nat := ((charms id).map CharmRow.raceid).getD 0

def spent (category : BestiaryCharmCategory) (charms : Nat → Option CharmRow) : Nat :=
  (charmDefinitions.map fun charm =>
    if charm.category = category then getSpentCharmPointsForTier charm (tier charms charm.id) else 0).sum

def assigned (charms : Nat → Option CharmRow) : Nat :=
  charmDefinitions.countP fun charm => tier charms charm.id > 0 && race charms charm.id > 0

def locked (charms : Nat → Option CharmRow) : Nat → Option CharmRow := fun id => (charms id).map fun _ => ⟨0, 0⟩

def Rows (charms : Nat → Option CharmRow) : Prop :=
  ∀ id row, charms id = some row → row.unlocked ≤ 3 ∧ (row.unlocked = 0 → row.raceid = 0)

def Apart (charms : Nat → Option CharmRow) : Prop :=
  ∀ charm ∈ charmDefinitions, ∀ other ∈ charmDefinitions, charm.category = other.category → charm.id ≠ other.id →
    tier charms charm.id ≠ 0 → tier charms other.id ≠ 0 → race charms charm.id ≠ 0 →
      race charms charm.id ≠ race charms other.id

structure Consistent (s : State) : Prop where
  rows : Rows s.tables.charms
  minor : s.echoes.1 + spent .Minor s.tables.charms = s.echoes.2
  apart : Apart s.tables.charms
  slots : assigned s.tables.charms ≤ 6
  points_lt : s.bestiaryCharmPoints + spent .Major s.tables.charms < 2 ^ 32
  echoes_lt : s.echoes.2 < 2 ^ 32

structure Same (s s' : State) : Prop where
  charms : s'.tables.charms = s.tables.charms
  echoes : s'.echoes = s.echoes
  points : s'.bestiaryCharmPoints = s.bestiaryCharmPoints
  inventory : s'.inventoryMoney = s.inventoryMoney
  bank : s'.bankBalance = s.bankBalance

theorem Same.refl (s : State) : Same s s := ⟨rfl, rfl, rfl, rfl, rfl⟩

/-! ## What a call does -/

/-- What a call does that succeeds. -/
inductive Acted (charmId action : Nat) (s s' : State) : Prop
  | upgradedMajor (charm : BestiaryCharmDefinition) (hcharm : charm ∈ charmDefinitions) (hmajor : charm.category = .Major)
      (hid : charm.id = charmId) (haction : action = 0)
      (htier : tier s.tables.charms charm.id < 3)
      (hpaid : s'.bestiaryCharmPoints + getCharmPriceForTier charm (tier s.tables.charms charm.id) = s.bestiaryCharmPoints)
      (hcharms : s'.tables.charms = update s.tables.charms charm.id
        (some ⟨tier s.tables.charms charm.id + 1, race s.tables.charms charm.id⟩))
      (hechoes : s'.echoes = (add32 s.echoes.1 (getMinorEchoRewardForMajorTier (tier s.tables.charms charm.id)),
        add32 s.echoes.2 (getMinorEchoRewardForMajorTier (tier s.tables.charms charm.id))))
  | upgradedMinor (charm : BestiaryCharmDefinition) (hcharm : charm ∈ charmDefinitions) (hminor : charm.category = .Minor)
      (htier : tier s.tables.charms charm.id < 3) (hpoints : s'.bestiaryCharmPoints = s.bestiaryCharmPoints)
      (hcharms : s'.tables.charms = update s.tables.charms charm.id
        (some ⟨tier s.tables.charms charm.id + 1, race s.tables.charms charm.id⟩))
      (hpaid : s'.echoes.1 + getCharmPriceForTier charm (tier s.tables.charms charm.id) = s.echoes.1)
      (hmaximum : s'.echoes.2 = s.echoes.2)
  | reset (hcharms : s'.tables.charms = locked s.tables.charms) (hechoes : s'.echoes = (0, 0))
      (hpoints : s'.bestiaryCharmPoints = add32 s.bestiaryCharmPoints (spent .Major s.tables.charms))
  | assigned (charm : BestiaryCharmDefinition) (hcharm : charm ∈ charmDefinitions) (raceId : Nat) (hrace : raceId ≠ 0)
      (htier : tier s.tables.charms charm.id ≠ 0)
      (hslot : race s.tables.charms charm.id = 0 → assigned s.tables.charms < 6)
      (hfree : ∀ other ∈ charmDefinitions, charm.category = other.category → charm.id ≠ other.id →
        tier s.tables.charms other.id ≠ 0 → race s.tables.charms other.id ≠ raceId)
      (hcharms : s'.tables.charms = update s.tables.charms charm.id
        (some ⟨tier s.tables.charms charm.id, raceId⟩))
      (hechoes : s'.echoes = s.echoes) (hpoints : s'.bestiaryCharmPoints = s.bestiaryCharmPoints)
  | removed (charm : BestiaryCharmDefinition) (hcharm : charm ∈ charmDefinitions)
      (hcharms : s'.tables.charms = update s.tables.charms charm.id
        (some ⟨tier s.tables.charms charm.id, 0⟩))
      (hechoes : s'.echoes = s.echoes) (hpoints : s'.bestiaryCharmPoints = s.bestiaryCharmPoints)

/-- Statements that fail have no effect. -/
structure Answers.Honest (a : Answers) : Prop where
  insert : a.insert.Undone
  transaction : Undone a.transaction
  restore : Undone a.restore
  update : a.update.Undone

section

variable {a : Answers} {s : State} {charm : BestiaryCharmDefinition}

theorem getMinorCharmEchoes_spec {insert : Execution} (h : insert.Undone) (s : State) :
    (s.getMinorCharmEchoes insert).1 = s.echoes ∧ Same s (s.getMinorCharmEchoes insert).2 := by
  obtain hran | hfailed := executeQuery_cases h
    (fun t : Tables => (0, { t with resources := some (t.resources.getD (0, 0)) })) s.tables
  · refine ⟨?_, ?_, ?_, rfl, rfl, rfl⟩
    · unfold State.getMinorCharmEchoes
      rw [hran]
      rfl
    · unfold State.getMinorCharmEchoes
      rw [hran]
    · unfold State.getMinorCharmEchoes
      rw [hran]
      rfl
  · have hsame : (s.getMinorCharmEchoes insert).2 = s := by
      unfold State.getMinorCharmEchoes
      rw [hfailed]
    refine ⟨?_, ?_⟩
    · show (s.getMinorCharmEchoes insert).2.echoes = _
      rw [hsame]
    · rw [hsame]
      exact Same.refl s

theorem within_done_or_not {io : Nat → Attempt} (h : Undone io) (n : Nat) (f : Tables → Tables) (s : State) :
    s.within io n f = (true, { s with tables := f s.tables }) ∨ s.within io n f = (false, s) := by
  unfold State.within
  obtain hdone | hnot := execute_cases h n f s.tables
  · rw [hdone]
    exact .inl rfl
  · rw [hnot]
    exact .inr rfl

theorem removeGold_cases (removeMoney : Bool) (amount : Nat) (s : State) :
    (s.removeGold removeMoney amount = (false, s)) ∨
      ∃ inventoryMoney bankBalance, s.removeGold removeMoney amount =
        (true, { s with inventoryMoney := inventoryMoney, bankBalance := bankBalance }) := by
  unfold State.removeGold
  split
  · exact .inr ⟨s.inventoryMoney, s.bankBalance, rfl⟩
  split
  · exact .inl rfl
  dsimp only
  split
  · exact .inl rfl
  · exact .inr ⟨_, _, rfl⟩

theorem loadCharmStates_eq (h : Rows s.tables.charms) (id : Nat) :
    s.loadCharmStates id = (s.tables.charms id).map fun row => ⟨row.unlocked, row.raceid⟩ := by
  unfold State.loadCharmStates
  cases hrow : s.tables.charms id with
  | none => rfl
  | some row => rw [map_some, map_some, Nat.min_eq_left (h id row hrow).1]

theorem currentState_eq (h : Rows s.tables.charms) (id : Nat) :
    (s.loadCharmStates id).getD {} = ⟨tier s.tables.charms id, race s.tables.charms id⟩ := by
  rw [loadCharmStates_eq h, tier, race]
  cases s.tables.charms id with
  | none => rfl
  | some row => rfl

theorem writeCharmStates_load (h : Rows s.tables.charms) (t : Tables) :
    (writeCharmStates s.loadCharmStates t).charms = s.tables.charms := by
  funext id
  show (s.loadCharmStates id).map _ = _
  rw [loadCharmStates_eq h, Option.map_map]
  cases s.tables.charms id with
  | none => rfl
  | some row => rfl

theorem getSpent_zero (charm : BestiaryCharmDefinition) : getSpentCharmPointsForTier charm 0 = 0 := rfl

theorem getSpentMajorCharmPoints_load (h : Rows s.tables.charms) :
    getSpentMajorCharmPoints s.loadCharmStates = spent .Major s.tables.charms := by
  refine congrArg List.sum (map_congr_left fun charm _ => ?_)
  rw [loadCharmStates_eq h, tier]
  cases s.tables.charms charm.id with
  | none => simp [getSpent_zero]
  | some row =>
    by_cases hmajor : charm.category = .Major
    · by_cases hzero : row.unlocked = 0
      · simp [hzero, getSpent_zero]
      · simp [hmajor, hzero]
    · simp [hmajor]

theorem getAssignedCharmCount_load (h : Rows s.tables.charms) :
    getAssignedCharmCount s.loadCharmStates = Charms.assigned s.tables.charms := by
  refine countP_congr fun charm _ => ?_
  rw [loadCharmStates_eq h, tier, race]
  cases s.tables.charms charm.id with
  | none => simp
  | some row => simp

/-- A call fails and changes nothing, or succeeds with its effect; or it fails because the charms
    could not be restored. -/
def Settled (charmId action : Nat) (s : State) (r : ActionResult × State) : Prop :=
  (r.1.1 = false ∧ Same s r.2) ∨ (r.1.1 = true ∧ Acted charmId action s r.2) ∨
    r.1 = (false, "Could not charge gold or restore charm state.")

variable {s' : State} {charmId : Nat}

theorem Settled.refused {action : Nat} (s : State) (message : String) : Settled charmId action s ((false, message), s) :=
  Or.inl ⟨rfl, Same.refl s⟩

theorem unlock_charms (charmId nextTier : Nat) (t : Tables) :
    (unlock charmId nextTier t).charms = update t.charms charmId (some ⟨nextTier, race t.charms charmId⟩) := rfl

theorem upgrade_settled (hhonest : a.Honest) (hcharm : charm ∈ charmDefinitions) (s : State) :
    Settled charm.id 0 s (upgrade a charm ⟨tier s.tables.charms charm.id, race s.tables.charms charm.id⟩ s) := by
  obtain ⟨hechoes, hsame⟩ := getMinorCharmEchoes_spec hhonest.insert s
  unfold upgrade
  split
  · exact Settled.refused s _
  rename_i htier
  dsimp only at htier ⊢
  split
  · exact Settled.refused s _
  generalize s.getMinorCharmEchoes a.insert = read at hechoes hsame ⊢
  obtain ⟨⟨minorEchoes, maxMinorEchoes⟩, s'⟩ := read
  have hechoes₁ : minorEchoes = s.echoes.1 := congrArg Prod.fst hechoes
  have hechoes₂ : maxMinorEchoes = s.echoes.2 := congrArg Prod.snd hechoes
  cases hcategory : charm.category with
  | Major =>
    dsimp only
    split
    · exact Settled.refused s _
    rename_i hpoints
    obtain hdone | hnot := within_done_or_not hhonest.transaction 2 (fun t =>
      setMinorCharmEchoes (add32 minorEchoes (getMinorEchoRewardForMajorTier (tier s.tables.charms charm.id)))
        (add32 maxMinorEchoes (getMinorEchoRewardForMajorTier (tier s.tables.charms charm.id)))
        (unlock charm.id (tier s.tables.charms charm.id + 1) t)) s'
    · rw [hdone]
      refine .inr (.inl ⟨rfl, .upgradedMajor charm hcharm hcategory rfl rfl (by omega) ?_ ?_ ?_⟩)
      · exact Nat.sub_add_cancel (by omega)
      · show (unlock charm.id _ s'.tables).charms = _
        rw [unlock_charms, hsame.charms]
      · rw [← hechoes₁, ← hechoes₂]
        rfl
    · rw [hnot]
      exact .inl ⟨rfl, hsame⟩
  | Minor =>
    dsimp only
    split
    · exact .inl ⟨rfl, hsame⟩
    rename_i hpoints
    obtain hdone | hnot := within_done_or_not hhonest.transaction 2 (fun t =>
      setMinorCharmEchoes (minorEchoes - getCharmPriceForTier charm (tier s.tables.charms charm.id)) maxMinorEchoes
        (unlock charm.id (tier s.tables.charms charm.id + 1) t)) s'
    · rw [hdone]
      refine .inr (.inl ⟨rfl, .upgradedMinor charm hcharm hcategory (by omega) hsame.points ?_ ?_ ?_⟩)
      · show (unlock charm.id _ s'.tables).charms = _
        rw [unlock_charms, hsame.charms]
      · rw [← hechoes₁]
        exact Nat.sub_add_cancel (by omega)
      · rw [← hechoes₂]
        rfl
    · rw [hnot]
      exact .inl ⟨rfl, hsame⟩

theorem charge_cases (cost : Nat) (done failed : String) (restore : State → Bool × State) (s' : State) :
    (∃ inventoryMoney bankBalance, charge a cost done failed restore s' =
      ((true, done), { s' with inventoryMoney := inventoryMoney, bankBalance := bankBalance })) ∨
      (charge a cost done failed restore s').1 = (false, "Could not charge gold or restore charm state.") ∨
        ((restore s').1 = true ∧ charge a cost done failed restore s' = ((false, failed), (restore s').2)) := by
  unfold charge
  obtain hfailed | ⟨inventoryMoney, bankBalance, hremoved⟩ := removeGold_cases a.removeMoney cost s'
  · rw [hfailed]
    dsimp only
    cases hrestored : (restore s').1 with
    | false => exact .inr (.inl rfl)
    | true => exact .inr (.inr ⟨rfl, rfl⟩)
  · rw [hremoved]
    exact .inl ⟨inventoryMoney, bankBalance, rfl⟩

theorem restoreCharmStates_done (hhonest : a.Honest) {states : CharmStateMap}
    (hrestored : (restoreCharmStates a states s').1 = true) :
    (restoreCharmStates a states s').2 = { s' with tables := writeCharmStates states s'.tables } := by
  unfold restoreCharmStates at hrestored ⊢
  obtain hdone | hnot := within_done_or_not hhonest.restore (writes states) (writeCharmStates states) s'
  · rw [hdone]
  · rw [hnot] at hrestored
    cases hrestored

theorem restoreCharmStatesAndResources_done (hhonest : a.Honest) {states : CharmStateMap}
    {points echoes maximum : Nat}
    (hrestored : (restoreCharmStatesAndResources a states points echoes maximum s').1 = true) :
    (restoreCharmStatesAndResources a states points echoes maximum s').2 = { s' with
      tables := setMinorCharmEchoes echoes maximum (writeCharmStates states s'.tables)
      bestiaryCharmPoints := points } := by
  unfold restoreCharmStatesAndResources at hrestored ⊢
  obtain hdone | hnot := within_done_or_not hhonest.restore (writes states + 1)
    (fun t => setMinorCharmEchoes echoes maximum (writeCharmStates states t)) s'
  · rw [hdone]
    rfl
  · rw [hnot] at hrestored
    cases hrestored

theorem reset_settled (hhonest : a.Honest) (h : Rows s.tables.charms) (charmId action : Nat) :
    Settled charmId action s (reset a s.loadCharmStates s) := by
  obtain ⟨hechoes, hsame⟩ := getMinorCharmEchoes_spec hhonest.insert s
  unfold reset
  split
  · exact Settled.refused s _
  generalize s.getMinorCharmEchoes a.insert = read at hechoes hsame ⊢
  obtain ⟨⟨minorEchoes, maxMinorEchoes⟩, s'⟩ := read
  dsimp only at hechoes hsame ⊢
  obtain hdone | hnot := within_done_or_not hhonest.transaction 2 (fun t => setMinorCharmEchoes 0 0 (resetAll t)) s'
  · rw [hdone]
    show Settled _ _ s (charge a _ _ _ _ _)
    obtain ⟨inventoryMoney, bankBalance, hcharged⟩ | hstuck | ⟨hrestored, hrestore⟩ := charge_cases (a := a)
      (resetCost a.level) "All charms were reset." "Could not charge gold for resetting charms."
      (restoreCharmStatesAndResources a s.loadCharmStates s.bestiaryCharmPoints minorEchoes maxMinorEchoes)
      { s' with
        tables := setMinorCharmEchoes 0 0 (resetAll s'.tables)
        bestiaryCharmPoints := add32 s.bestiaryCharmPoints (getSpentMajorCharmPoints s.loadCharmStates) }
    · rw [hcharged]
      refine .inr (.inl ⟨rfl, .reset ?_ rfl ?_⟩)
      · rw [← hsame.charms]
        rfl
      · rw [← getSpentMajorCharmPoints_load h]
    · exact .inr (.inr hstuck)
    · rw [hrestore]
      rw [restoreCharmStatesAndResources_done hhonest hrestored]
      exact .inl ⟨rfl, writeCharmStates_load h (resetAll s'.tables), hechoes, rfl, hsame.inventory, hsame.bank⟩
  · rw [hnot]
    exact .inl ⟨rfl, hsame⟩

theorem setRace_charms (charmId raceId : Nat) (t : Tables) (htier : tier t.charms charmId ≠ 0) :
    (setRace charmId raceId t).charms = update t.charms charmId (some ⟨tier t.charms charmId, raceId⟩) := by
  refine congrArg (update t.charms charmId) ?_
  rw [tier] at htier ⊢
  cases hrow : t.charms charmId with
  | none =>
    rw [hrow] at htier
    exact absurd rfl htier
  | some row => rfl

theorem remove_settled (hhonest : a.Honest) (h : Rows s.tables.charms) (hcharm : charm ∈ charmDefinitions)
    (htier : tier s.tables.charms charm.id ≠ 0) (action : Nat) :
    Settled charm.id action s (remove a s.loadCharmStates charm ⟨tier s.tables.charms charm.id, race s.tables.charms charm.id⟩ s) := by
  unfold remove
  split
  · exact Settled.refused s _
  dsimp only
  split
  · exact Settled.refused s _
  obtain hdone | hnot := within_done_or_not hhonest.transaction 1 (setRace charm.id 0) s
  · rw [hdone]
    obtain ⟨inventoryMoney, bankBalance, hcharged⟩ | hstuck | ⟨hrestored, hrestore⟩ := charge_cases (a := a)
      (a.level * 100) "Charm removed." "Could not charge gold for removing this charm."
      (restoreCharmStates a s.loadCharmStates) { s with tables := setRace charm.id 0 s.tables }
    · rw [hcharged]
      exact .inr (.inl ⟨rfl, .removed charm hcharm (setRace_charms charm.id 0 s.tables htier) rfl rfl⟩)
    · exact .inr (.inr hstuck)
    · rw [hrestore]
      rw [restoreCharmStates_done hhonest hrestored]
      exact .inl ⟨rfl, writeCharmStates_load h _, rfl, rfl, rfl, rfl⟩
  · rw [hnot]
    exact Settled.refused s _

theorem getCharmDefinition_mem (h : getCharmDefinition charmId = some charm) :
    charm ∈ charmDefinitions ∧ charm.id = charmId := by
  obtain ⟨hget, hid⟩ := filter_eq_some_iff.mp h
  exact ⟨mem_of_getElem? hget, of_decide_eq_true hid⟩

theorem getCharmDefinition_id : ∀ charm ∈ charmDefinitions, getCharmDefinition charm.id = some charm := by
  decide

theorem sameCategory_eq (hcharm : charm ∈ charmDefinitions) {other : BestiaryCharmDefinition} (hother : other ∈ charmDefinitions) :
    sameCategory charm.id other.id = decide (charm.category = other.category) := by
  unfold sameCategory
  rw [getCharmDefinition_id charm hcharm, getCharmDefinition_id other hother]

theorem alreadySet_false (h : Rows s.tables.charms) (hcharm : charm ∈ charmDefinitions) {raceId : Nat}
    (hset : ¬ alreadySet s.loadCharmStates charm raceId = true) :
    ∀ other ∈ charmDefinitions, charm.category = other.category → charm.id ≠ other.id →
      tier s.tables.charms other.id ≠ 0 → race s.tables.charms other.id ≠ raceId := by
  intro other hother hcategory hid htier hrace
  refine hset (any_eq_true.mpr ⟨other, hother, ?_⟩)
  rw [loadCharmStates_eq h]
  rw [tier] at htier
  rw [race] at hrace
  cases hrow : s.tables.charms other.id with
  | none =>
    rw [hrow] at htier
    exact absurd rfl htier
  | some row =>
    rw [hrow] at htier hrace
    have hunlocked : row.unlocked ≠ 0 := htier
    have hassigned : row.raceid = raceId := hrace
    simp [hid.symm, hunlocked, hassigned, sameCategory_eq hcharm hother, hcategory]

theorem assign_settled (hhonest : a.Honest) (h : Rows s.tables.charms) (hcharm : charm ∈ charmDefinitions)
    (htier : tier s.tables.charms charm.id ≠ 0) (action raceId : Nat) :
    Settled charm.id action s (assign a s.loadCharmStates charm ⟨tier s.tables.charms charm.id, race s.tables.charms charm.id⟩ raceId s) := by
  unfold assign
  cases hmonster : a.bestiary.monstersByRaceId raceId with
  | none => exact Settled.refused s _
  | some monster =>
    have hrace : raceId ≠ 0 := by
      rintro rfl
      rw [a.bestiary.no_zero] at hmonster
      cases hmonster
    dsimp only
    by_cases hkills : a.killCount < requiredKills charm monster
    · rw [if_pos hkills]
      exact Settled.refused s _
    rw [if_neg hkills]
    by_cases hslots : race s.tables.charms charm.id = 0 ∧
        getAssignedCharmCount s.loadCharmStates ≥ (if a.isPremium then 6 else 2)
    · rw [if_pos hslots]
      exact Settled.refused s _
    rw [if_neg hslots]
    by_cases hset : alreadySet s.loadCharmStates charm raceId = true
    · rw [if_pos hset]
      exact Settled.refused s _
    rw [if_neg hset]
    have hslot : race s.tables.charms charm.id = 0 → Charms.assigned s.tables.charms < 6 := by
      intro hnone
      have hfew := not_and.mp hslots hnone
      rw [getAssignedCharmCount_load h] at hfew
      split at hfew
      · omega
      · omega
    obtain hran | hfailed := executeQuery_cases hhonest.update (fun t => (1, setRace charm.id raceId t)) s.tables
    · rw [hran]
      refine .inr (.inl ⟨rfl, .assigned charm hcharm raceId hrace htier hslot ?_ ?_ rfl rfl⟩)
      · exact alreadySet_false h hcharm hset
      · exact setRace_charms charm.id raceId s.tables htier
    · rw [hfailed]
      exact .inl ⟨rfl, Same.refl s⟩

theorem handleCharmAction_settled (hhonest : a.Honest) (h : Rows s.tables.charms) (charmId action raceId : Nat) :
    Settled charmId action s (handleCharmAction a charmId action raceId s) := by
  unfold handleCharmAction
  split
  · exact Settled.refused s _
  dsimp only
  rw [currentState_eq h]
  cases hdefinition : getCharmDefinition charmId with
  | none =>
    dsimp only
    split
    · exact reset_settled hhonest h _ _
    · exact Settled.refused s _
  | some charm =>
    obtain ⟨hcharm, rfl⟩ := getCharmDefinition_mem hdefinition
    dsimp only
    split
    · rename_i hupgrade
      subst hupgrade
      exact upgrade_settled hhonest hcharm s
    split
    · exact reset_settled hhonest h _ _
    split
    · exact Settled.refused s _
    rename_i htier
    split
    · exact assign_settled hhonest h hcharm htier action raceId
    · split
      · exact remove_settled hhonest h hcharm htier action
      · exact Settled.refused s _

/-! ## The sums -/

variable {charms : Nat → Option CharmRow} {row : CharmRow}

theorem charmIds_nodup : (charmDefinitions.map BestiaryCharmDefinition.id).Nodup := by
  decide

theorem tier_update (id : Nat) (row : CharmRow) (charms : Nat → Option CharmRow) (j : Nat) :
    tier (update charms id (some row)) j = if j = id then row.unlocked else tier charms j := by
  unfold tier
  by_cases hj : j = id
  · rw [if_pos hj, hj, update_self]
    rfl
  · rw [if_neg hj, update_of_ne hj]

theorem race_update (id : Nat) (row : CharmRow) (charms : Nat → Option CharmRow) (j : Nat) :
    race (update charms id (some row)) j = if j = id then row.raceid else race charms j := by
  unfold race
  by_cases hj : j = id
  · rw [if_pos hj, hj, update_self]
    rfl
  · rw [if_neg hj, update_of_ne hj]

theorem spent_update (category : BestiaryCharmCategory) (hcharm : charm ∈ charmDefinitions) (row : CharmRow)
    (charms : Nat → Option CharmRow) :
    spent category (update charms charm.id (some row)) +
        (if charm.category = category then getSpentCharmPointsForTier charm (tier charms charm.id) else 0) =
      spent category charms + if charm.category = category then getSpentCharmPointsForTier charm row.unlocked else 0 := by
  have hdistinct := charmIds_nodup
  unfold spent
  generalize charmDefinitions = l at hcharm hdistinct ⊢
  exact sum_update BestiaryCharmDefinition.id
    (fun charm found => if charm.category = category
      then getSpentCharmPointsForTier charm ((found.map CharmRow.unlocked).getD 0) else 0)
    charms (some row) hdistinct hcharm

theorem assigned_update (hcharm : charm ∈ charmDefinitions) (row : CharmRow) (charms : Nat → Option CharmRow) :
    assigned (update charms charm.id (some row)) +
        unit (tier charms charm.id > 0 && race charms charm.id > 0) =
      assigned charms + unit (row.unlocked > 0 && row.raceid > 0) := by
  have hdistinct := charmIds_nodup
  unfold assigned
  rw [countP_eq_sum, countP_eq_sum]
  generalize charmDefinitions = l at hcharm hdistinct ⊢
  exact sum_update BestiaryCharmDefinition.id
    (fun _ found => unit ((found.map CharmRow.unlocked).getD 0 > 0 && (found.map CharmRow.raceid).getD 0 > 0))
    charms (some row) hdistinct hcharm

theorem getSpent_succ (charm : BestiaryCharmDefinition) (n : Nat) :
    getSpentCharmPointsForTier charm (n + 1) = getSpentCharmPointsForTier charm n + getCharmPriceForTier charm n := by
  unfold getSpentCharmPointsForTier getCharmPriceForTier
  rw [take_add_one, sum_append, getD_eq_getElem?_getD]
  cases charm.prices[n]? with
  | none => rfl
  | some price => simp

theorem spent_unlock (category : BestiaryCharmCategory) (hcharm : charm ∈ charmDefinitions) (raceid : Nat)
    (charms : Nat → Option CharmRow) :
    spent category (update charms charm.id (some ⟨tier charms charm.id + 1, raceid⟩)) =
      spent category charms +
        if charm.category = category then getCharmPriceForTier charm (tier charms charm.id) else 0 := by
  have hupdate := spent_update category hcharm ⟨tier charms charm.id + 1, raceid⟩ charms
  by_cases hcategory : charm.category = category
  · rw [if_pos hcategory, if_pos hcategory, getSpent_succ] at hupdate
    rw [if_pos hcategory]
    omega
  · rw [if_neg hcategory, if_neg hcategory] at hupdate
    rw [if_neg hcategory]
    omega

theorem spent_race (category : BestiaryCharmCategory) (hcharm : charm ∈ charmDefinitions) (raceid : Nat)
    (charms : Nat → Option CharmRow) :
    spent category (update charms charm.id (some ⟨tier charms charm.id, raceid⟩)) = spent category charms := by
  have hupdate := spent_update category hcharm ⟨tier charms charm.id, raceid⟩ charms
  dsimp only at hupdate
  omega

@[simp] theorem tier_locked (charms : Nat → Option CharmRow) (id : Nat) : tier (locked charms) id = 0 := by
  unfold tier locked
  cases charms id with
  | none => rfl
  | some row => rfl

theorem spent_locked (category : BestiaryCharmCategory) (charms : Nat → Option CharmRow) : spent category (locked charms) = 0 := by
  unfold spent
  generalize charmDefinitions = l
  induction l with
  | nil => rfl
  | cons charm l ih =>
    rw [map_cons, sum_cons, ih, tier_locked, getSpent_zero, ite_self]

theorem assigned_locked (charms : Nat → Option CharmRow) : assigned (locked charms) = 0 := by
  unfold assigned
  rw [countP_eq_zero]
  intro charm _
  simp

/-! ## Consistency -/

theorem Rows.race_locked (h : Rows charms) {id : Nat} (hlocked : tier charms id = 0) : race charms id = 0 := by
  unfold tier at hlocked
  unfold race
  cases hrow : charms id with
  | none => rfl
  | some row =>
    rw [hrow] at hlocked
    exact (h id row hrow).2 hlocked

theorem Rows.update (h : Rows charms) (hle : row.unlocked ≤ 3) (hlocked : row.unlocked = 0 → row.raceid = 0) (id : Nat) :
    Rows (update charms id (some row)) := by
  intro j row' hrow'
  by_cases hj : j = id
  · rw [hj, update_self] at hrow'
    cases hrow'
    exact ⟨hle, hlocked⟩
  · rw [update_of_ne hj] at hrow'
    exact h j row' hrow'

theorem Apart.update (h : Apart charms) (hfree : row.raceid ≠ 0 → ∀ other ∈ charmDefinitions,
    charm.category = other.category → charm.id ≠ other.id → tier charms other.id ≠ 0 → race charms other.id ≠ row.raceid)
    (hcharm : charm ∈ charmDefinitions) : Apart (update charms charm.id (some row)) := by
  have hunique : ∀ other ∈ charmDefinitions, other.id = charm.id → other = charm := by
    intro other hother hid
    exact inj_on_of_nodup_map charmIds_nodup hother hcharm hid
  intro left hleft right hright hcategory hid htier htier' hrace
  rw [tier_update] at htier htier'
  rw [race_update] at hrace
  rw [race_update, race_update]
  by_cases hl : left.id = charm.id
  · have hr : right.id ≠ charm.id := fun hr => hid (hl.trans hr.symm)
    obtain rfl := hunique left hleft hl
    rw [if_pos hl] at hrace
    rw [if_neg hr] at htier' ⊢
    rw [if_pos hl]
    exact (hfree hrace right hright hcategory hid htier').symm
  · rw [if_neg hl] at htier hrace ⊢
    by_cases hr : right.id = charm.id
    · obtain rfl := hunique right hright hr
      rw [if_pos hr]
      by_cases hnone : row.raceid = 0
      · rw [hnone]
        exact hrace
      · exact hfree hnone left hleft hcategory.symm (Ne.symm hid) htier
    · rw [if_neg hr] at htier' ⊢
      exact h left hleft right hright hcategory hid htier htier' hrace

/-- All that was ever granted: the points, and what the major charms have cost. -/
def wealth (s : State) : Nat := s.bestiaryCharmPoints + spent .Major s.tables.charms

theorem add32_of_lt {m n : Nat} (h : m + n < 2 ^ 32) : add32 m n = m + n := Nat.mod_eq_of_lt h

theorem Consistent.tier_le (h : Consistent s) (id : Nat) : tier s.tables.charms id ≤ 3 := by
  unfold tier
  cases hrow : s.tables.charms id with
  | none => exact Nat.zero_le 3
  | some row => exact (h.rows id row hrow).1

/-- What an upgrade leaves of the assignments. -/
theorem Consistent.unlock {charms : Nat → Option CharmRow} (h : Consistent s) (hcharm : charm ∈ charmDefinitions)
    (htier : tier s.tables.charms charm.id < 3) (hcharms : charms = update s.tables.charms charm.id
      (some ⟨tier s.tables.charms charm.id + 1, race s.tables.charms charm.id⟩)) :
    Rows charms ∧ Apart charms ∧ assigned charms ≤ 6 := by
  rw [hcharms]
  refine ⟨h.rows.update ?_ ?_ _, h.apart.update ?_ hcharm, ?_⟩
  · exact htier
  · intro hzero
    exact absurd hzero (Nat.succ_ne_zero _)
  · intro hrace other hother hcategory hid hother_tier
    have hunlocked : tier s.tables.charms charm.id ≠ 0 := fun hlocked => hrace (h.rows.race_locked hlocked)
    exact (h.apart charm hcharm other hother hcategory hid hunlocked hother_tier hrace).symm
  have hcount := assigned_update hcharm ⟨tier s.tables.charms charm.id + 1, race s.tables.charms charm.id⟩ s.tables.charms
  have hslots := h.slots
  by_cases hlocked : tier s.tables.charms charm.id = 0
  · have hnone := h.rows.race_locked hlocked
    rw [hnone] at hcount ⊢
    simp only [Nat.lt_irrefl, gt_iff_lt, decide_false, Bool.and_false, unit_false, Nat.add_zero] at hcount
    omega
  · have hpos : 0 < tier s.tables.charms charm.id := Nat.pos_of_ne_zero hlocked
    simp only [gt_iff_lt, hpos, Nat.succ_pos, decide_true, Bool.true_and] at hcount
    omega

theorem Consistent.acted {action : Nat} (h : Consistent s) (hacted : Acted charmId action s s')
    (hroom : action = 0 → (∃ charm ∈ charmDefinitions, charm.id = charmId ∧ charm.category = .Major) →
      s.echoes.2 + getMinorEchoRewardForMajorTier (tier s.tables.charms charmId) < 2 ^ 32) :
    Consistent s' ∧ wealth s' = wealth s := by
  have hpoints_lt := h.points_lt
  have hechoes_lt := h.echoes_lt
  have hminor := h.minor
  cases hacted with
  | upgradedMajor charm hcharm hmajor hid haction htier hpaid hcharms hechoes =>
    obtain ⟨hrows, hapart, hslots⟩ := h.unlock hcharm htier hcharms
    have hsum := hroom haction ⟨charm, hcharm, hid, hmajor⟩
    rw [← hid] at hsum
    have hspent := spent_unlock .Major hcharm (race s.tables.charms charm.id) s.tables.charms
    rw [if_pos hmajor] at hspent
    have hspent' := spent_unlock .Minor hcharm (race s.tables.charms charm.id) s.tables.charms
    rw [if_neg (by rw [hmajor]; decide)] at hspent'
    rw [add32_of_lt (by omega), add32_of_lt hsum] at hechoes
    have hwealth : wealth s' = wealth s := by
      unfold wealth
      rw [hcharms, hspent]
      omega
    refine ⟨⟨hrows, ?_, hapart, hslots, hwealth.trans_lt hpoints_lt, ?_⟩, hwealth⟩
    · rw [hcharms, hechoes, hspent']
      omega
    · rw [hechoes]
      exact hsum
  | upgradedMinor charm hcharm hcategory htier hpoints hcharms hpaid hmaximum =>
    obtain ⟨hrows, hapart, hslots⟩ := h.unlock hcharm htier hcharms
    have hspent := spent_unlock .Major hcharm (race s.tables.charms charm.id) s.tables.charms
    rw [if_neg (by rw [hcategory]; decide)] at hspent
    have hspent' := spent_unlock .Minor hcharm (race s.tables.charms charm.id) s.tables.charms
    rw [if_pos hcategory] at hspent'
    have hwealth : wealth s' = wealth s := by
      unfold wealth
      rw [hcharms, hspent, hpoints, Nat.add_zero]
    refine ⟨⟨hrows, ?_, hapart, hslots, hwealth.trans_lt hpoints_lt, ?_⟩, hwealth⟩
    · rw [hcharms, hmaximum, hspent']
      omega
    · rw [hmaximum]
      exact hechoes_lt
  | reset hcharms hechoes hpoints =>
    have hwealth : wealth s' = wealth s := by
      unfold wealth
      rw [hcharms, hpoints, spent_locked, add32_of_lt hpoints_lt, Nat.add_zero]
    refine ⟨⟨?_, ?_, ?_, ?_, hwealth.trans_lt hpoints_lt, ?_⟩, hwealth⟩
    · intro id row hrow
      rw [hcharms] at hrow
      obtain ⟨_, -, rfl⟩ := map_eq_some_iff.mp hrow
      exact ⟨Nat.zero_le 3, fun _ => rfl⟩
    · rw [hcharms, hechoes, spent_locked]
    · intro left _ right _ _ _ htier
      rw [hcharms, tier_locked] at htier
      exact absurd rfl htier
    · rw [hcharms, assigned_locked]
      exact Nat.zero_le 6
    · rw [hechoes]
      exact Nat.pow_pos (by decide)
  | assigned charm hcharm raceId hrace htier hslot hfree hcharms hechoes hpoints =>
    have hwealth : wealth s' = wealth s := by
      unfold wealth
      rw [hcharms, hpoints, spent_race .Major hcharm]
    have hcount := assigned_update hcharm ⟨tier s.tables.charms charm.id, raceId⟩ s.tables.charms
    refine ⟨⟨?_, ?_, ?_, ?_, hwealth.trans_lt hpoints_lt, ?_⟩, hwealth⟩
    · rw [hcharms]
      exact h.rows.update (h.tier_le charm.id) (fun hzero => absurd hzero htier) _
    · rw [hcharms, hechoes, spent_race .Minor hcharm]
      exact hminor
    · rw [hcharms]
      exact h.apart.update (fun _ => hfree) hcharm
    · rw [hcharms]
      have hpos : 0 < tier s.tables.charms charm.id := Nat.pos_of_ne_zero htier
      have hpos' : 0 < raceId := Nat.pos_of_ne_zero hrace
      have hslots := h.slots
      simp only [gt_iff_lt, hpos, hpos', decide_true, Bool.true_and, unit_true] at hcount
      by_cases hnone : race s.tables.charms charm.id = 0
      · omega
      · simp only [Nat.pos_of_ne_zero hnone, decide_true, unit_true] at hcount
        omega
    · rw [hechoes]
      exact hechoes_lt
  | removed charm hcharm hcharms hechoes hpoints =>
    have hwealth : wealth s' = wealth s := by
      unfold wealth
      rw [hcharms, hpoints, spent_race .Major hcharm]
    have hcount := assigned_update hcharm ⟨tier s.tables.charms charm.id, 0⟩ s.tables.charms
    refine ⟨⟨?_, ?_, ?_, ?_, hwealth.trans_lt hpoints_lt, ?_⟩, hwealth⟩
    · rw [hcharms]
      exact h.rows.update (h.tier_le charm.id) (fun _ => rfl) _
    · rw [hcharms, hechoes, spent_race .Minor hcharm]
      exact hminor
    · rw [hcharms]
      exact h.apart.update (fun hnone => absurd rfl hnone) hcharm
    · rw [hcharms]
      have hslots := h.slots
      simp only [gt_iff_lt, Nat.lt_irrefl, decide_false, Bool.and_false, unit_false, Nat.add_zero] at hcount
      omega
    · rw [hechoes]
      exact hechoes_lt

/-! ## Runs -/

theorem Consistent.same (h : Consistent s) (hsame : Same s s') : Consistent s' ∧ wealth s' = wealth s := by
  have hwealth : wealth s' = wealth s := by
    unfold wealth
    rw [hsame.charms, hsame.points]
  refine ⟨⟨?_, ?_, ?_, ?_, hwealth.trans_lt h.points_lt, ?_⟩, hwealth⟩
  · rw [hsame.charms]
    exact h.rows
  · rw [hsame.charms, hsame.echoes]
    exact h.minor
  · rw [hsame.charms]
    exact h.apart
  · rw [hsame.charms]
    exact h.slots
  · rw [hsame.echoes]
    exact h.echoes_lt

/-- The sums a call makes stay below 2^32. -/
def Below (s : State) : Event → Prop
  | .handleCharmAction charmId action _ =>
    action = 0 → (∃ charm ∈ charmDefinitions, charm.id = charmId ∧ charm.category = .Major) →
      s.echoes.2 + getMinorEchoRewardForMajorTier (tier s.tables.charms charmId) < 2 ^ 32
  | .addMinorCharmEchoes amount => s.echoes.2 + amount < 2 ^ 32
  | .addBestiaryCharmPoints amount => wealth s + amount < 2 ^ 32
  | .earn _ _ => True

/-- A call does not have to give up on restoring the charms. -/
def Restores (s : State) : Event × Answers → Prop
  | (.handleCharmAction charmId action raceId, a) =>
    (handleCharmAction a charmId action raceId s).1 ≠ (false, "Could not charge gold or restore charm state.")
  | _ => True

structure Fair (s : State) (e : Event × Answers) : Prop where
  honest : e.2.Honest
  below : Below s e.1
  restores : Restores s e

def granted : Event × Answers → Nat
  | (.addBestiaryCharmPoints amount, _) => amount
  | _ => 0

theorem Consistent.handle (h : Consistent s) {action raceId : Nat}
    (hfair : Fair s (.handleCharmAction charmId action raceId, a)) :
    Consistent (handleCharmAction a charmId action raceId s).2 ∧ wealth (handleCharmAction a charmId action raceId s).2 = wealth s := by
  obtain ⟨-, hsame⟩ | ⟨-, hacted⟩ | hstuck := handleCharmAction_settled hfair.honest h.rows charmId action raceId
  · exact h.same hsame
  · exact h.acted hacted hfair.below
  · exact absurd hstuck hfair.restores

theorem Consistent.addEchoes (h : Consistent s) (hhonest : a.Honest) {amount : Nat} (hlt : s.echoes.2 + amount < 2 ^ 32) :
    Consistent (addMinorCharmEchoes a amount s).2 ∧ wealth (addMinorCharmEchoes a amount s).2 = wealth s := by
  have hminor := h.minor
  obtain ⟨hechoes, hsame⟩ := getMinorCharmEchoes_spec hhonest.insert s
  unfold addMinorCharmEchoes
  split
  · exact ⟨h, rfl⟩
  generalize s.getMinorCharmEchoes a.insert = read at hechoes hsame ⊢
  obtain ⟨⟨echoes, maxEchoes⟩, s'⟩ := read
  have hechoes₁ : echoes = s.echoes.1 := congrArg Prod.fst hechoes
  have hechoes₂ : maxEchoes = s.echoes.2 := congrArg Prod.snd hechoes
  obtain ⟨hconsistent, hwealth⟩ := h.same hsame
  dsimp only
  rw [Nat.min_eq_left (by omega), Nat.min_eq_left (by omega)]
  obtain hran | hfailed := executeQuery_cases hhonest.update
    (fun t : Tables => (1, setMinorCharmEchoes (echoes + amount) (maxEchoes + amount) t)) s'.tables
  · rw [hran]
    refine ⟨{ hconsistent with minor := ?_, echoes_lt := ?_ }, hwealth⟩
    · show echoes + amount + spent .Minor s'.tables.charms = maxEchoes + amount
      rw [hsame.charms]
      omega
    · show maxEchoes + amount < 2 ^ 32
      omega
  · rw [hfailed]
    exact ⟨hconsistent, hwealth⟩

theorem Consistent.step (h : Consistent s) {e : Event × Answers} (hfair : Fair s e) :
    Consistent (step s e) ∧ wealth (step s e) = wealth s + granted e := by
  obtain ⟨e, a⟩ := e
  cases e with
  | handleCharmAction charmId action raceId =>
    rw [granted, Nat.add_zero]
    · exact h.handle hfair
    · intro amount _ heq
      cases heq
  | addMinorCharmEchoes amount =>
    rw [granted, Nat.add_zero]
    · exact h.addEchoes hfair.honest hfair.below
    · intro amount _ heq
      cases heq
  | addBestiaryCharmPoints amount =>
    have hlt : s.bestiaryCharmPoints + spent .Major s.tables.charms + amount < 2 ^ 32 := hfair.below
    have hpoints : (addBestiaryCharmPoints amount s).bestiaryCharmPoints = s.bestiaryCharmPoints + amount :=
      Nat.min_eq_left (by omega)
    have hwealth : wealth (addBestiaryCharmPoints amount s) = wealth s + amount := by
      unfold wealth
      show _ + spent .Major s.tables.charms = _
      omega
    refine ⟨{ h with points_lt := ?_ }, hwealth⟩
    exact hwealth.trans_lt hlt
  | earn inventoryMoney bankBalance =>
    rw [granted, Nat.add_zero]
    · exact ⟨{ h with }, rfl⟩
    · intro amount _ heq
      cases heq

theorem run_consistent (h : Consistent s) {es : List (Event × Answers)} (hfair : Allowed Charms.step Fair s es) :
    Consistent (run Charms.step s es) ∧ wealth (run Charms.step s es) = wealth s + (es.map granted).sum := by
  induction es generalizing s with
  | nil =>
    rw [map_nil, sum_nil, Nat.add_zero]
    exact ⟨h, rfl⟩
  | cons e es ih =>
    obtain ⟨hconsistent, hwealth⟩ := h.step hfair.1
    obtain ⟨hrun, hrest⟩ := ih hconsistent hfair.2
    refine ⟨hrun, ?_⟩
    rw [run_cons, hrest, hwealth, map_cons, sum_cons, Nat.add_assoc]

/-- From a consistent state on, where statements that fail have no effect, sums stay below 2^32
    and what is restored is: the points and the prices of the major charms change by what is
    granted, the echoes and the prices of the minor charms are the maximum, no race is on two
    unlocked charms of a category, at most six charms are assigned, and a call that fails
    changes nothing. -/
theorem charm_economy (h : Consistent s) (es : List (Event × Answers)) (hfair : Allowed Charms.step Fair s es) :
    (run Charms.step s es).bestiaryCharmPoints + spent .Major (run Charms.step s es).tables.charms =
        s.bestiaryCharmPoints + spent .Major s.tables.charms + (es.map granted).sum ∧
      (run Charms.step s es).echoes.1 + spent .Minor (run Charms.step s es).tables.charms = (run Charms.step s es).echoes.2 ∧
        Apart (run Charms.step s es).tables.charms ∧ assigned (run Charms.step s es).tables.charms ≤ 6 ∧
          ∀ charmId action raceId a, Fair (run Charms.step s es) (.handleCharmAction charmId action raceId, a) →
            (handleCharmAction a charmId action raceId (run Charms.step s es)).1.1 = false →
              Same (run Charms.step s es) (handleCharmAction a charmId action raceId (run Charms.step s es)).2 := by
  obtain ⟨hconsistent, hwealth⟩ := run_consistent h hfair
  refine ⟨hwealth, hconsistent.minor, hconsistent.apart, hconsistent.slots, ?_⟩
  intro charmId action raceId a hcall hfailed
  obtain ⟨-, hsame⟩ | ⟨hdone, -⟩ | hstuck := handleCharmAction_settled hcall.honest hconsistent.rows charmId action raceId
  · exact hsame
  · rw [hdone] at hfailed
    cases hfailed
  · exact absurd hstuck hcall.restores

end

def newPlayer : State := ⟨⟨fun _ => none, none⟩, 0, 0, 0⟩

def goodAnswers : Answers where
  enabled := true
  insert := .good
  transaction := fun _ => .good
  restore := fun _ => .good
  update := .good
  bestiary := .empty
  killCount := 0
  isPremium := true
  level := 8
  removeMoney := true

theorem goodAnswers_honest : goodAnswers.Honest := by
  refine ⟨by decide, fun _ => ?_, fun _ => ?_, by decide⟩
  · intro hlost
    cases hlost
  · intro hlost
    cases hlost

theorem newPlayer_consistent : Consistent newPlayer := by
  have htier : ∀ id, tier newPlayer.tables.charms id = 0 := fun _ => rfl
  refine ⟨?_, ?_, ?_, ?_, ?_, ?_⟩
  · intro id row hrow
    cases hrow
  · rfl
  · intro left _ right _ _ _ hlocked
    exact absurd (htier left.id) hlocked
  · exact Nat.zero_le 6
  · decide
  · decide

/-- A new player is granted a thousand points and unlocks a charm for 240. -/
def firstCharm : List (Event × Answers) :=
  [(.addBestiaryCharmPoints 1000, goodAnswers), (.handleCharmAction 0 0 0, goodAnswers)]

theorem first_charm_paid :
    (run step newPlayer firstCharm).bestiaryCharmPoints + spent .Major (run step newPlayer firstCharm).tables.charms =
      newPlayer.bestiaryCharmPoints + spent .Major newPlayer.tables.charms + 1000 := by
  have hspent : spent .Major newPlayer.tables.charms = 0 := spent_locked .Major fun _ => none
  have hgranted : Fair newPlayer (.addBestiaryCharmPoints 1000, goodAnswers) := by
    refine ⟨goodAnswers_honest, ?_, trivial⟩
    show newPlayer.bestiaryCharmPoints + spent .Major newPlayer.tables.charms + 1000 < 2 ^ 32
    rw [hspent]
    decide
  have hunlocked : Fair (step newPlayer (.addBestiaryCharmPoints 1000, goodAnswers)) (.handleCharmAction 0 0 0, goodAnswers) := by
    refine ⟨goodAnswers_honest, ?_, ?_⟩
    · intro _ _
      decide +kernel
    · show ¬ _ = _
      decide +kernel
  exact (charm_economy newPlayer_consistent firstCharm ⟨hgranted, hunlocked, trivial⟩).1

end Backlands.Players.Charms
