/-
  Backlands.Echo.Raids — the portals and raids of `EchoRaidManager` (src/echo_raid.cpp) and the
  marks its Wardens leave on monsters (src/monster.cpp).

  The maps that are only looked up are functions; `raids` has no id from `nextRaidId` on. What
  a call reads of the rest of the server is in the event: the clock, the roll, whether a spawn
  is placed, whether the portal item can be removed, whom the Warden sees, and the order in which
  `raids` is walked. A creature leaves the game by `Game::removeCreature`, which tells the
  manager; its summons leave by calls of their own, and one call ends before the next begins.
  A new monster's id is in the event too. Messages and effects are left out.

  Ghost: `plans` and `spawned`, what each raid was planned to spawn and has spawned; `started`,
  the raids each portal has started; `cleanedUp`.

  Proved: `raid_bookkeeping`, for every state reached (`Bookkeeping`).
-/

import Backlands.Lib.Runs
import Mathlib.Data.List.Infix

namespace Backlands.Echo.Raids

open Backlands.Lib Function List Option

abbrev CreatureId := Nat

abbrev RaidId := Nat

/-- The uid of the portal item. -/
abbrev Token := Nat

structure PositionKey where
  position : Nat
  instanceId : Nat
  deriving DecidableEq

def ECHO_TICK_INTERVAL_MS : Nat := 100

inductive EchoRaidOutcome where
  | Normal
  | Influenced
  | Warden
  deriving DecidableEq

/-- A validated configuration. -/
structure EchoRaidConfig where
  portalTtlMs : Nat
  normalCountMin : Nat
  normalCountMax : Nat
  influencedCount : Nat
  wardenNormalCompanionCount : Nat
  wardenInfluencedCompanionCount : Nat
  auraIntervalMs : Nat
  spawnIntervalMs : Nat
  lifetimeMs : Nat
  portalTtl_pos : 0 < portalTtlMs
  lifetime_pos : 0 < lifetimeMs
  normalCount_pos : 0 < normalCountMin
  normalCount_le : normalCountMin ≤ normalCountMax
  influencedCount_pos : 0 < influencedCount
  auraInterval_pos : 0 < auraIntervalMs
  spawnInterval_pos : 0 < spawnIntervalMs

/-! ## Monsters -/

inductive EchoRaidVisualState where
  | None
  | Empowered
  | Warden
  deriving DecidableEq

/-- What the rest of the server says of a monster. -/
structure Kind where
  raceId : Nat
  instanceId : Nat
  summon : Bool
  boss : Bool
  fiendish : Bool

structure Monster where
  kind : Kind
  echoRaidId : RaidId := 0
  echoWarden : Bool := false
  influenced : Bool := false
  echoWardProtected : Bool := false
  echoWardOwnerRaidId : RaidId := 0
  echoRaidVisualState : EchoRaidVisualState := .None

def Monster.setEchoWardProtected (value : Bool) (ownerRaidId : RaidId) (m : Monster) : Monster :=
  { m with echoWardProtected := value, echoWardOwnerRaidId := if value then ownerRaidId else 0 }

/-! ## Raids -/

structure PendingEcho where
  raceId : Nat
  dueAt : Nat

structure PortalRecord where
  key : PositionKey
  raceId : Nat
  expiresAt : Nat

structure RaidInstance where
  id : RaidId
  raceId : Nat
  instanceId : Nat
  outcome : EchoRaidOutcome
  createdAt : Nat
  expiresAt : Nat
  nextAuraAt : Nat
  nextSpawnAt : Nat := 0
  wardenPending : Bool := false
  pendingSpawns : List Bool := []
  wardenId : CreatureId := 0
  creatureIds : List CreatureId := []
  protectedCreatureIds : List CreatureId := []

inductive Spawn where
  | warden
  | companion (influenced : Bool)
  deriving DecidableEq

def buildSpawnPlan (cfg : EchoRaidConfig) (outcome : EchoRaidOutcome) (normalCount : Nat) : List Bool :=
  match outcome with
  | .Normal => List.replicate normalCount false
  | .Influenced => List.replicate cfg.influencedCount true
  | .Warden => List.replicate cfg.wardenNormalCompanionCount false ++ List.replicate cfg.wardenInfluencedCompanionCount true

def hasPendingSpawns (raid : RaidInstance) : Bool := raid.wardenPending || !raid.pendingSpawns.isEmpty

def finishSpawnAttempt (spawned attemptedWarden : Bool) (raid : RaidInstance) : RaidInstance :=
  if !spawned then raid
  else if attemptedWarden then { raid with wardenPending := false }
  else { raid with pendingSpawns := raid.pendingSpawns.tail }

def RaidInstance.remaining (raid : RaidInstance) : List Spawn :=
  (if raid.wardenPending then [.warden] else []) ++ raid.pendingSpawns.map .companion

/-! ## The manager and the game -/

/-- The monsters of the game, and the raids. -/
structure Field where
  monsters : CreatureId → Option Monster := fun _ => none
  raids : RaidId → Option RaidInstance := fun _ => none
  creatureToRaid : CreatureId → Option RaidId := fun _ => none
  nextRaidId : RaidId := 1
  plans : RaidId → List Spawn := fun _ => []
  spawned : RaidId → List Spawn := fun _ => []

structure World where
  field : Field := {}
  nextItemUID : Token := 1
  pendingEchoes : List (PositionKey × PendingEcho) := []
  portals : List (Token × PortalRecord) := []
  nextTickAt : Nat := 0
  started : List (Token × RaidId) := []
  cleanedUp : RaidId → Bool := fun _ => false

structure Placing where
  /-- The id, if `createMonster`, `findSpawnPosition`, `eventMonsterOnSpawn` and `placeCreature` succeed. -/
  placed : Option CreatureId
  applyEchoWarden : Bool
  kind : Kind
  clock : Nat

namespace Field

/-- The raid that a reference of the source points to is written back. -/
def setRaid (raid : RaidInstance) (f : Field) : Field := { f with raids := update f.raids raid.id (some raid) }

/-- `getMonsterByIDShared` for each id. -/
def forMonsters (ids : List CreatureId) (change : Monster → Monster) (f : Field) : Field :=
  { f with monsters := fun c => if c ∈ ids then (f.monsters c).map change else f.monsters c }

/-- A mark of the raid goes. -/
def unprotect (raidId : RaidId) (m : Monster) : Monster :=
  if m.echoWardOwnerRaidId = raidId then
    let m := m.setEchoWardProtected false 0
    if m.echoRaidVisualState = .Empowered then { m with echoRaidVisualState := .None } else m
  else m

def clearWardenProtection (raid : RaidInstance) (f : Field) : RaidInstance × Field :=
  ({ raid with protectedCreatureIds := [] }, f.forMonsters raid.protectedCreatureIds (unprotect raid.id))

/-- The filter of the loop over the spectators. -/
def protects (raid : RaidInstance) (f : Field) (c : CreatureId) : Bool :=
  match f.monsters c with
  | none => false
  | some m => c ≠ raid.wardenId && !m.kind.summon && !m.kind.boss && !m.kind.fiendish &&
      m.kind.instanceId = raid.instanceId && m.kind.raceId = raid.raceId &&
      (m.echoRaidId = 0 || m.echoRaidId = raid.id) && (m.echoWardOwnerRaidId = 0 || m.echoWardOwnerRaidId = raid.id)

def updateWardenAura (cfg : EchoRaidConfig) (raid : RaidInstance) (now : Nat) (spectators : List CreatureId) (f : Field) :
    RaidInstance × Field :=
  if !(f.monsters raid.wardenId).any (·.echoWarden) then
    let r := f.clearWardenProtection raid
    ({ r.1 with wardenId := 0 }, r.2)
  else
    let protectedNow := spectators.filter (f.protects raid)
    let f := f.forMonsters protectedNow fun m =>
      { m.setEchoWardProtected true raid.id with echoRaidVisualState := .Empowered }
    let f := f.forMonsters (raid.protectedCreatureIds.filter (· ∉ protectedNow)) (unprotect raid.id)
    ({ raid with protectedCreatureIds := protectedNow, nextAuraAt := now + cfg.auraIntervalMs }, f)

def settleRaid (raid : RaidInstance) (f : Field) : Field :=
  if raid.creatureIds.isEmpty && !hasPendingSpawns raid then { f with raids := update f.raids raid.id none }
  else f.setRaid raid

def onCreatureRemoved (c : CreatureId) (f : Field) : Field :=
  match f.creatureToRaid c with
  | none => f
  | some raidId =>
    let f := { f with creatureToRaid := update f.creatureToRaid c none }
    match f.raids raidId with
    | none => f
    | some raid =>
      let raid := { raid with
        creatureIds := raid.creatureIds.filter (· ≠ c)
        protectedCreatureIds := raid.protectedCreatureIds.filter (· ≠ c) }
      let r :=
        if raid.wardenId = c then f.clearWardenProtection { raid with wardenId := 0, wardenPending := false } else (raid, f)
      r.2.settleRaid r.1

/-- `Game::removeCreature`. -/
def removeCreature (c : CreatureId) (f : Field) : Field :=
  let f := f.onCreatureRemoved c
  { f with monsters := update f.monsters c none }

def spawnRaidMonster (raid : RaidInstance) (warden influenced : Bool) (p : Placing) (f : Field) : Bool × RaidInstance × Field :=
  match p.placed with
  | none => (false, raid, f)
  | some id =>
    let monster : Monster := { kind := p.kind, echoRaidId := raid.id }
    let f := { f with monsters := update f.monsters id (some monster) }
    if warden && !p.applyEchoWarden then (false, raid, f.removeCreature id)
    else
      let monster := { monster with
        echoWarden := warden
        influenced
        echoRaidVisualState := if warden then EchoRaidVisualState.Warden else .None }
      let f := { f with
        monsters := update f.monsters id (some monster)
        creatureToRaid := update f.creatureToRaid id (some raid.id) }
      (true, { raid with creatureIds := id :: raid.creatureIds, wardenId := if warden then id else raid.wardenId }, f)

def spawnNextRaidMonster (cfg : EchoRaidConfig) (raid : RaidInstance) (p : Placing) (f : Field) : RaidInstance × Field :=
  if !hasPendingSpawns raid then (raid, f)
  else
    let attemptedWarden := raid.wardenPending
    let influenced := !attemptedWarden && raid.pendingSpawns.headD false
    let r := f.spawnRaidMonster raid attemptedWarden influenced p
    let spawn := if attemptedWarden then Spawn.warden else .companion influenced
    let f := if r.1 then
      { r.2.2 with spawned := update r.2.2.spawned raid.id (r.2.2.spawned raid.id ++ [spawn]) } else r.2.2
    let raid := finishSpawnAttempt r.1 attemptedWarden r.2.1
    ({ raid with nextSpawnAt := if hasPendingSpawns raid then p.clock + cfg.spawnIntervalMs else 0 }, f)

def uniform_random (lo hi roll : Nat) : Nat := lo + roll % (hi - lo + 1)

/-- What a start of a raid reads. -/
structure Starting where
  /-- `getMonsterType`. -/
  registered : Bool
  createdAt : Nat
  roll : Nat
  placing : Placing
  spectators : List CreatureId

/-- A raid before its first spawn. -/
def newRaid (cfg : EchoRaidConfig) (id : RaidId) (instanceId raceId : Nat) (outcome : EchoRaidOutcome) (s : Starting) :
    RaidInstance :=
  let normalCount := if outcome = .Normal then uniform_random cfg.normalCountMin cfg.normalCountMax s.roll else 0
  { id, raceId, instanceId, outcome, createdAt := s.createdAt, expiresAt := s.createdAt + cfg.lifetimeMs
    nextAuraAt := s.createdAt + cfg.auraIntervalMs, nextSpawnAt := s.createdAt, wardenPending := outcome = .Warden
    pendingSpawns := buildSpawnPlan cfg outcome normalCount }

def startRaid (cfg : EchoRaidConfig) (instanceId raceId : Nat) (outcome : EchoRaidOutcome) (s : Starting) (f : Field) :
    Option RaidId × Field :=
  if !s.registered then (none, f)
  else
    let id := f.nextRaidId
    let raid := newRaid cfg id instanceId raceId outcome s
    let f := { f with
      nextRaidId := id + 1
      plans := update f.plans id raid.remaining
      spawned := update f.spawned id [] }
    let r := f.spawnNextRaidMonster cfg raid s.placing
    let r := if outcome = .Warden ∧ r.1.wardenId ≠ 0 then r.2.updateWardenAura cfg r.1 s.createdAt s.spectators else r
    (some id, r.2.setRaid r.1)

def removeCreatures (ids : List CreatureId) (f : Field) : Field :=
  ids.foldl (fun f c =>
    if (f.monsters c).isSome then
      (f.forMonsters [c] fun m => { m with echoRaidVisualState := .None }).removeCreature c
    else f) f

def cleanupRaid (raidId : RaidId) (f : Field) : Field :=
  match f.raids raidId with
  | none => f
  | some raid =>
    let f := { f with
      raids := update f.raids raidId none
      creatureToRaid := fun c => if c ∈ raid.creatureIds then none else f.creatureToRaid c }
    let f := (f.clearWardenProtection raid).2
    f.removeCreatures raid.creatureIds

def monsterAppears (c : CreatureId) (kind : Kind) (f : Field) : Field :=
  { f with monsters := update f.monsters c (some { kind }) }

end Field

namespace World

def cleanupRaid (raidId : RaidId) (w : World) : World :=
  { w with
    field := w.field.cleanupRaid raidId
    cleanedUp := if (w.field.raids raidId).isSome then update w.cleanedUp raidId true else w.cleanedUp }

/-- What `activateEcho` reads. -/
structure Activation extends Field.Starting where
  enabled : Bool
  /-- The item is a portal of the player's instance. -/
  isPortal : Bool
  token : Token
  /-- The item of the record is this one. -/
  tracked : Bool
  now : Nat
  outcome : EchoRaidOutcome
  /-- After a raid that did not start: `isRemoved` of the item, and the clock. -/
  itemRemoved : Bool
  later : Nat
  /-- `internalRemoveItem` of the portal succeeds. -/
  removal : Bool

def activateEcho (cfg : EchoRaidConfig) (a : Activation) (w : World) : Bool × World :=
  if !a.enabled || !a.isPortal then (false, w)
  else
    match w.portals.lookup a.token with
    | none => (false, w)
    | some portal =>
      let erased := { w with portals := w.portals.filter (·.1 ≠ a.token) }
      if !a.tracked || a.now ≥ portal.expiresAt then (false, erased)
      else
        let r := w.field.startRaid cfg portal.key.instanceId portal.raceId a.outcome a.toStarting
        let w := { erased with field := r.2 }
        match r.1 with
        | none =>
          if !a.itemRemoved && a.later < portal.expiresAt then
            (false, { w with portals := w.portals ++ [(a.token, portal)] })
          else (false, w)
        | some raidId =>
          let w := { w with started := w.started ++ [(a.token, raidId)] }
          if a.removal then (true, w)
          else
            let w := w.cleanupRaid raidId
            (false, { w with portals := w.portals ++ [(a.token, portal)] })

structure Ticking where
  now : Nat
  enabled : Bool
  /-- For an echo that is due: the portal is created, after so many other items, and the clock. -/
  createPortal : PositionKey → Option (Nat × Nat)
  /-- The item of the portal is gone. -/
  itemExpired : Token → Bool
  order : List RaidId
  placing : RaidId → Placing
  spectators : RaidId → List CreatureId

def createPortal (cfg : EchoRaidConfig) (t : Ticking) (w : World) (e : PositionKey × PendingEcho) : World :=
  match t.createPortal e.1 with
  | none => w
  | some (gap, clock) =>
    let token := w.nextItemUID + gap
    { w with
      nextItemUID := token + 1
      portals := w.portals ++ [(token, { key := e.1, raceId := e.2.raceId, expiresAt := clock + cfg.portalTtlMs })] }

/-- `expirePortals`. -/
def expirePortals (t : Ticking) (w : World) : World :=
  { w with portals := w.portals.filter fun p => !(t.now ≥ p.2.expiresAt || t.itemExpired p.1) }

def tickSpawn (cfg : EchoRaidConfig) (t : Ticking) (raid : RaidInstance) (f : Field) : RaidInstance × Field :=
  if hasPendingSpawns raid && t.now ≥ raid.nextSpawnAt then f.spawnNextRaidMonster cfg raid (t.placing raid.id) else (raid, f)

def tickRaid (cfg : EchoRaidConfig) (t : Ticking) (raid : RaidInstance) (f : Field) : Field :=
  let r := tickSpawn cfg t raid f
  let r := if r.1.wardenId ≠ 0 && t.now ≥ r.1.nextAuraAt then
    r.2.updateWardenAura cfg r.1 t.now (t.spectators raid.id) else r
  r.2.setRaid r.1

def tickRaids (cfg : EchoRaidConfig) (t : Ticking) : List RaidId → List RaidId → Field → List RaidId × Field
  | [], expired, f => (expired, f)
  | id :: ids, expired, f =>
    match f.raids id with
    | none => tickRaids cfg t ids expired f
    | some raid =>
      if t.now ≥ raid.expiresAt then tickRaids cfg t ids (expired ++ [id]) f
      else tickRaids cfg t ids expired (tickRaid cfg t raid f)

def tick (cfg : EchoRaidConfig) (t : Ticking) (w : World) : World :=
  if t.now < w.nextTickAt then w
  else
    let w := { w with nextTickAt := t.now + ECHO_TICK_INTERVAL_MS }
    if !t.enabled then w
    else
      let ready := w.pendingEchoes.filter (t.now ≥ ·.2.dueAt)
      let w := { w with pendingEchoes := w.pendingEchoes.filter (t.now < ·.2.dueAt) }
      let w := (ready.foldl (createPortal cfg t) w).expirePortals t
      let r := tickRaids cfg t t.order [] w.field
      r.1.foldl (fun w id => w.cleanupRaid id) { w with field := r.2 }

def cleanupAll (w : World) : World :=
  let w := { w with pendingEchoes := [], portals := [] }
  let w := (List.range w.field.nextRaidId).foldl (fun w id => w.cleanupRaid id) w
  { w with field := { w.field with creatureToRaid := fun _ => none } }

/-- The monster that died is eligible and the roll let it leave an echo. -/
def onMonsterDeath (key : PositionKey) (pending : PendingEcho) (w : World) : World :=
  if w.pendingEchoes.any (·.1 = key) || w.portals.any (·.2.key = key) then w
  else { w with pendingEchoes := w.pendingEchoes ++ [(key, pending)] }

end World

inductive Event where
  | activateEcho (a : World.Activation)
  | tick (t : World.Ticking)
  | removeCreature (c : CreatureId)
  | cleanupAll
  | onMonsterDeath (key : PositionKey) (pending : PendingEcho)
  | monsterAppears (c : CreatureId) (kind : Kind)
  | monsterChanges (c : CreatureId) (kind : Kind)

def step (cfg : EchoRaidConfig) (w : World) : Event → World
  | .activateEcho a => (w.activateEcho cfg a).2
  | .tick t => w.tick cfg t
  | .removeCreature c => { w with field := w.field.removeCreature c }
  | .cleanupAll => w.cleanupAll
  | .onMonsterDeath key pending => w.onMonsterDeath key pending
  | .monsterAppears c kind => { w with field := w.field.monsterAppears c kind }
  | .monsterChanges c kind => { w with field := w.field.forMonsters [c] fun m => { m with kind } }

def Event.newIds : Event → List CreatureId
  | .activateEcho a => a.placing.placed.toList
  | .tick t => t.order.filterMap fun r => (t.placing r).placed
  | .monsterAppears c _ => [c]
  | _ => []

/-- No living monster has the id of a new one. -/
abbrev Fresh (ids : List CreatureId) (f : Field) : Prop := ids.Nodup ∧ ∀ c ∈ ids, c ≠ 0 ∧ f.monsters c = none

/-! ## What the books say -/

structure Bookkeeping (w : World) : Prop where
  creatures : ∀ c r, w.field.creatureToRaid c = some r ↔ ∃ raid, w.field.raids r = some raid ∧ c ∈ raid.creatureIds
  busy : ∀ r raid, w.field.raids r = some raid → raid.creatureIds ≠ [] ∨ hasPendingSpawns raid = true
  /-- The spawns that were made are the first of the plan, each once. -/
  planned : ∀ r, w.field.spawned r <+: w.field.plans r
  portals : ∀ t r r', (t, r) ∈ w.started → (t, r') ∈ w.started → r ≠ r' → w.cleanedUp r = true ∨ w.cleanedUp r' = true
  marks : ∀ c m, w.field.monsters c = some m → m.echoWardProtected = true →
    ∃ raid, w.field.raids m.echoWardOwnerRaidId = some raid ∧ c ∈ raid.protectedCreatureIds ∧ raid.wardenId ≠ 0

/-! ## The invariant of the raids -/

structure RaidOk (f : Field) (r : RaidId) (raid : RaidInstance) : Prop where
  id : raid.id = r
  started : r < f.nextRaidId
  busy : raid.creatureIds ≠ [] ∨ hasPendingSpawns raid = true
  /-- Only a Warden in the game marks monsters. -/
  warden : raid.wardenId ≠ 0 → raid.wardenId ∈ raid.creatureIds ∧ raid.wardenPending = false
  unprotected : raid.wardenId = 0 → raid.protectedCreatureIds = []
  plan : f.spawned r ++ raid.remaining = f.plans r

def Marks (f : Field) : Prop :=
  ∀ c m, f.monsters c = some m → m.echoWardProtected = true →
    ∃ raid, f.raids m.echoWardOwnerRaidId = some raid ∧ c ∈ raid.protectedCreatureIds

structure Inv (f : Field) : Prop where
  raid : ∀ r raid, f.raids r = some raid → RaidOk f r raid
  planned : ∀ r, f.spawned r <+: f.plans r
  creatures : ∀ c r, f.creatureToRaid c = some r ↔ ∃ raid, f.raids r = some raid ∧ c ∈ raid.creatureIds
  marks : Marks f
  alive : ∀ c, f.monsters c = none → f.creatureToRaid c = none
  nonzero : f.creatureToRaid 0 = none

namespace Field

variable {cfg : EchoRaidConfig} {f : Field} {raid raid' : RaidInstance}

/-- What a creature that leaves takes out of the game. -/
def without (c : CreatureId) (f : Field) : Field := { f with monsters := update f.monsters c none }

theorem without_settleRaid (c : CreatureId) : (f.settleRaid raid).without c = (f.without c).settleRaid raid := by
  unfold settleRaid
  split
  · rfl
  · rfl

theorem settleRaid_monsters : (f.settleRaid raid).monsters = f.monsters := by
  unfold settleRaid
  split
  · rfl
  · rfl

theorem without_forMonsters (c : CreatureId) (ids : List CreatureId) (change : Monster → Monster) :
    (f.forMonsters ids change).without c = (f.without c).forMonsters ids change := by
  unfold without forMonsters
  congr 1
  grind

@[simp]
theorem forMonsters_none {ids : List CreatureId} {change : Monster → Monster} {c : CreatureId} :
    (f.forMonsters ids change).monsters c = none ↔ f.monsters c = none := by
  unfold forMonsters
  dsimp only
  split
  · exact map_eq_none_iff
  · rfl

theorem unprotect_protected {r : RaidId} {m : Monster} (h : (unprotect r m).echoWardProtected = true) :
    unprotect r m = m ∧ m.echoWardOwnerRaidId ≠ r := by
  unfold unprotect at h ⊢
  split at h
  · dsimp only at h
    split at h
    · cases h
    · cases h
  · next hne =>
    rw [if_neg hne]
    exact ⟨rfl, hne⟩

end Field

section
variable {cfg : EchoRaidConfig} {f : Field} {raid raid' : RaidInstance}

theorem RaidOk.congr {f' : Field} {r : RaidId} (h : RaidOk f r raid) (hn : f.nextRaidId ≤ f'.nextRaidId)
    (hs : f'.spawned r = f.spawned r) (hp : f'.plans r = f.plans r) : RaidOk f' r raid :=
  { h with started := Nat.lt_of_lt_of_le h.started hn, plan := by rw [hs, hp]; exact h.plan }

theorem Inv.self (h : Inv f) (hr : f.raids raid.id = some raid) : Inv (f.setRaid raid) := by
  unfold Field.setRaid
  rw [← hr, update_eq_self]
  exact h

theorem Inv.monsters {monsters : CreatureId → Option Monster} (h : Inv f)
    (ha : ∀ c, monsters c = none → f.creatureToRaid c = none) (hm : Marks { f with monsters }) : Inv { f with monsters } :=
  { h with raid := fun r raid hr => (h.raid r raid hr).congr le_rfl rfl rfl, marks := hm, alive := ha }

theorem Inv.reraid (h : Inv (f.setRaid raid)) (monsters : CreatureId → Option Monster)
    (ha : ∀ c, monsters c = none → f.monsters c = none) (hid : raid'.id = raid.id)
    (hc : raid'.creatureIds = raid.creatureIds) (hok : RaidOk (f.setRaid raid) raid.id raid → RaidOk f raid.id raid')
    (hm : Marks (({ f with monsters } : Field).setRaid raid')) : Inv (({ f with monsters } : Field).setRaid raid') := by
  refine ⟨?_, h.planned, ?_, hm, fun c hc => h.alive c (ha c hc), h.nonzero⟩
  · intro r x hr
    by_cases hne : r = raid.id
    · subst hne
      obtain rfl : raid' = x := by simpa [Field.setRaid, hid] using hr
      exact (hok (h.raid _ raid (by simp [Field.setRaid]))).congr le_rfl rfl rfl
    · have hr' : (f.setRaid raid).raids r = some x := by simpa [Field.setRaid, hid, hne] using hr
      exact (h.raid r x hr').congr le_rfl rfl rfl
  · intro c r
    rw [show (({ f with monsters } : Field).setRaid raid').creatureToRaid c = (f.setRaid raid).creatureToRaid c from rfl,
      h.creatures]
    by_cases hne : r = raid.id <;> simp [hne, Field.setRaid, hid, hc]

/-! ## The marks of a Warden -/

theorem marked_setRaid {c : CreatureId} {r : RaidId} (hid : raid'.id = raid.id)
    (hp : r = raid.id → c ∈ raid.protectedCreatureIds → c ∈ raid'.protectedCreatureIds)
    (hx : ∃ x, (f.setRaid raid).raids r = some x ∧ c ∈ x.protectedCreatureIds) :
    ∃ x, (f.setRaid raid').raids r = some x ∧ c ∈ x.protectedCreatureIds := by
  obtain ⟨x, hx, hcx⟩ := hx
  by_cases hne : r = raid.id
  · obtain rfl : raid = x := by simpa [Field.setRaid, hne] using hx
    exact ⟨raid', by simp [Field.setRaid, hid, hne], hp hne hcx⟩
  · exact ⟨x, by simpa [Field.setRaid, hid, hne] using hx, hcx⟩

theorem Marks.unprotect (h : Marks (f.setRaid raid)) (raid' : RaidInstance) (ids : List CreatureId) (hid : raid'.id = raid.id)
    (hp : ∀ c ∈ raid.protectedCreatureIds, c ∈ ids ∨ c ∈ raid'.protectedCreatureIds) :
    Marks ((f.forMonsters ids (Field.unprotect raid.id)).setRaid raid') := by
  intro c m hm hprot
  have hm : (if c ∈ ids then (f.monsters c).map (Field.unprotect raid.id) else f.monsters c) = some m := hm
  -- the mark was there before
  obtain ⟨hm₀, hlisted⟩ : f.monsters c = some m ∧ (c ∈ ids → m.echoWardOwnerRaidId ≠ raid.id) := by
    split at hm
    · obtain ⟨m₀, hm₀, rfl⟩ := map_eq_some_iff.mp hm
      obtain ⟨heq, hne⟩ := Field.unprotect_protected hprot
      rw [heq]
      exact ⟨hm₀, fun _ => hne⟩
    · next hn => exact ⟨hm, fun hin => absurd hin hn⟩
  refine marked_setRaid hid (fun hown hcp => ?_) (h c m hm₀ hprot)
  exact (hp c hcp).resolve_left fun hin => hlisted hin hown

theorem Inv.clear (h : Inv (f.setRaid raid)) {raid' : RaidInstance} (hid : raid'.id = raid.id)
    (hc : raid'.creatureIds = raid.creatureIds) (hp : raid'.protectedCreatureIds = [])
    (hw : raid'.wardenId = 0) (hpending : raid'.wardenPending = raid.wardenPending)
    (hspawns : raid'.pendingSpawns = raid.pendingSpawns) :
    Inv ((f.clearWardenProtection raid).2.setRaid raid') := by
  refine h.reraid _ (fun c => Field.forMonsters_none.mp) hid hc ?_ (Marks.unprotect h.marks _ _ hid fun c hcp => .inl hcp)
  intro hok
  refine ⟨hid, hok.started, ?_, fun hne => absurd hw hne, fun _ => hp, ?_⟩
  · rw [hc]
    unfold hasPendingSpawns
    rw [hpending, hspawns]
    exact hok.busy
  · unfold RaidInstance.remaining
    rw [hpending, hspawns]
    exact hok.plan

theorem Marks.protect (h : Marks (f.setRaid raid)) (raid' : RaidInstance) (ids : List CreatureId)
    (visual : EchoRaidVisualState) (hid : raid'.id = raid.id)
    (hp : ∀ c, c ∈ raid.protectedCreatureIds ∨ c ∈ ids → c ∈ raid'.protectedCreatureIds) :
    Marks ((f.forMonsters ids fun m =>
      { m.setEchoWardProtected true raid.id with echoRaidVisualState := visual }).setRaid raid') := by
  intro c m hm hprot
  have hm : (if c ∈ ids then (f.monsters c).map fun m =>
    { m.setEchoWardProtected true raid.id with echoRaidVisualState := visual } else f.monsters c) = some m := hm
  split at hm
  · next hin =>
    obtain ⟨m₀, -, rfl⟩ := map_eq_some_iff.mp hm
    exact ⟨raid', by simp [Field.setRaid, Field.forMonsters, Monster.setEchoWardProtected, hid], hp c (.inr hin)⟩
  · exact marked_setRaid hid (fun _ hcp => hp c (.inl hcp)) (h c m hm hprot)

theorem Inv.aura {now : Nat} {spectators : List CreatureId} (h : Inv (f.setRaid raid)) (hw : raid.wardenId ≠ 0) :
    Inv ((f.updateWardenAura cfg raid now spectators).2.setRaid (f.updateWardenAura cfg raid now spectators).1) := by
  unfold Field.updateWardenAura
  split
  · exact h.clear rfl rfl rfl rfl rfl rfl
  refine h.reraid _ (fun c hc => Field.forMonsters_none.mp (Field.forMonsters_none.mp hc)) rfl rfl ?_ ?_
  · intro hok
    exact { hok with id := rfl, unprotected := fun h0 => absurd h0 hw }
  have hseen := h.marks.protect
    { raid with protectedCreatureIds := raid.protectedCreatureIds ++ spectators.filter (f.protects raid) }
    (spectators.filter (f.protects raid)) .Empowered rfl fun c hc => mem_append.mpr hc
  refine hseen.unprotect _ _ rfl fun c hc => ?_
  grind

/-! ## A creature leaves the game -/

variable {c : CreatureId}

theorem Inv.bystander (h : Inv f) (hnone : f.creatureToRaid c = none) :
    Inv { f with monsters := update f.monsters c none } := by
  have halive := h.alive
  refine h.monsters (by grind) fun c' m hm hprot => ?_
  by_cases hc : c' = c
  · subst hc
    simp at hm
  · exact h.marks c' m (by simpa [hc] using hm) hprot

theorem Inv.left {monsters : CreatureId → Option Monster} (h : Inv f) (hr : f.raids raid.id = some raid)
    (ha : ∀ c', c' ≠ c → monsters c' = none → f.monsters c' = none)
    (hmap : f.creatureToRaid c = some raid.id) (hid : raid'.id = raid.id)
    (hc : raid'.creatureIds = raid.creatureIds.filter (· ≠ c)) (hspawns : raid'.remaining = raid.remaining)
    (hwarden : raid'.wardenId ≠ 0 → raid'.wardenId ∈ raid'.creatureIds ∧ raid'.wardenPending = false)
    (hunprotected : raid'.wardenId = 0 → raid'.protectedCreatureIds = [])
    (hm : Marks (({ f with monsters } : Field).setRaid raid')) :
    Inv (({ f with monsters, creatureToRaid := update f.creatureToRaid c none } : Field).settleRaid raid') := by
  have hmapped : ∀ c' r, update f.creatureToRaid c none c' = some r ↔ c' ≠ c ∧ f.creatureToRaid c' = some r := by
    grind
  have hothers : ∀ c' r, r ≠ raid.id → ((c' ≠ c ∧ f.creatureToRaid c' = some r) ↔ f.creatureToRaid c' = some r) := by
    intro c' r hne
    refine ⟨fun hx => hx.2, fun hx => ⟨?_, hx⟩⟩
    rintro rfl
    exact hne (Option.some.inj (hx.symm.trans hmap))
  have hown : ∀ c', (c' ≠ c ∧ f.creatureToRaid c' = some raid.id) ↔ c' ∈ raid'.creatureIds := by
    intro c'
    rw [h.creatures, hc, mem_filter]
    constructor
    · rintro ⟨hne, x, hx, hin⟩
      obtain rfl : raid = x := Option.some.inj (hr.symm.trans hx)
      exact ⟨hin, by simpa using hne⟩
    · rintro ⟨hin, hne⟩
      exact ⟨by simpa using hne, raid, hr, hin⟩
  have hok := h.raid _ raid hr
  have hnonzero : update f.creatureToRaid c none 0 = none := by
    have := h.nonzero
    grind
  have halive : ∀ c', monsters c' = none → update f.creatureToRaid c none c' = none := by
    have := h.alive
    grind
  unfold Field.settleRaid
  rw [hid]
  split
  · next hover =>
    simp only [Bool.and_eq_true, List.isEmpty_iff, Bool.not_eq_true'] at hover
    refine ⟨?_, h.planned, ?_, ?_, halive, hnonzero⟩
    · intro r x hx
      by_cases hne : r = raid.id
      · simp [hne] at hx
      · exact (h.raid r x (by simpa [hne] using hx)).congr le_rfl rfl rfl
    · intro c' r
      rw [hmapped]
      by_cases hne : r = raid.id
      · subst hne
        rw [hown, hover.1]
        simp
      · rw [hothers c' r hne, h.creatures]
        simp [hne]
    · -- a raid that is over has no Warden, and no marks
      have hnone : raid'.protectedCreatureIds = [] := by
        by_cases h0 : raid'.wardenId = 0
        · exact hunprotected h0
        · have := (hwarden h0).1
          simp [hover.1] at this
      intro c' m hm' hprot
      obtain ⟨x, hx, hin⟩ := hm c' m hm' hprot
      by_cases hne : m.echoWardOwnerRaidId = raid.id
      · obtain rfl : raid' = x := by simpa [Field.setRaid, hid, hne] using hx
        simp [hnone] at hin
      · exact ⟨x, by simpa [Field.setRaid, hid, hne] using hx, hin⟩
  · next hover =>
    refine ⟨?_, h.planned, ?_, hm, halive, hnonzero⟩
    · intro r x hx
      by_cases hne : r = raid.id
      · subst hne
        obtain rfl : raid' = x := by simpa [Field.setRaid, hid] using hx
        refine ⟨hid, hok.started, ?_, hwarden, hunprotected, ?_⟩
        · simpa [List.isEmpty_iff, or_iff_not_imp_left] using hover
        · rw [hspawns]
          exact hok.plan
      · exact (h.raid r x (by simpa [Field.setRaid, hid, hne] using hx)).congr le_rfl rfl rfl
    · intro c' r
      show update f.creatureToRaid c none c' = some r ↔ _
      rw [hmapped]
      by_cases hne : r = raid.id
      · subst hne
        rw [hown]
        simp [Field.setRaid, hid]
      · rw [hothers c' r hne, h.creatures]
        simp [Field.setRaid, hid, hne]

theorem Marks.gone (h : Marks (f.setRaid raid)) (raid' : RaidInstance) (c : CreatureId) (hid : raid'.id = raid.id)
    (hp : raid'.protectedCreatureIds = raid.protectedCreatureIds.filter (· ≠ c)) :
    Marks (({ f with monsters := update f.monsters c none } : Field).setRaid raid') := by
  intro c' m hm hprot
  by_cases hc : c' = c
  · subst hc
    simp [Field.setRaid] at hm
  refine marked_setRaid hid (fun _ hin => ?_) (h c' m (by simpa [Field.setRaid, hc] using hm) hprot)
  rw [hp]
  exact mem_filter.mpr ⟨hin, by simpa using hc⟩

theorem Inv.removeCreature (h : Inv f) : Inv (f.removeCreature c) := by
  show Inv ((f.onCreatureRemoved c).without c)
  unfold Field.onCreatureRemoved
  cases hmap : f.creatureToRaid c with
  | none => exact h.bystander hmap
  | some r =>
    obtain ⟨raid, hr, hin⟩ := (h.creatures c r).mp hmap
    have hok := h.raid r raid hr
    obtain rfl := hok.id
    have hpos : c ≠ 0 := by
      rintro rfl
      exact absurd (h.nonzero.symm.trans hmap) nofun
    have hmarks := (h.self hr).marks
    simp only [hr]
    rw [Field.without_settleRaid]
    by_cases hw : raid.wardenId = c
    · -- the Warden: his marks go with him
      have hpending : raid.wardenPending = false := (hok.warden (by rw [hw]; exact hpos)).2
      have hm := (hmarks.gone { raid with protectedCreatureIds := raid.protectedCreatureIds.filter (· ≠ c) } c
        rfl rfl).unprotect
        { raid with
          creatureIds := raid.creatureIds.filter (· ≠ c), protectedCreatureIds := [], wardenId := 0, wardenPending := false }
        _ rfl fun c' hc' => .inl hc'
      rw [if_pos hw, Field.clearWardenProtection, Field.without_forMonsters]
      refine h.left hr (fun c' hne hc => ?_) hmap rfl rfl (by simp [RaidInstance.remaining, hpending])
        (fun hne => absurd rfl hne) (fun _ => rfl) hm
      simpa [Field.without, hne] using Field.forMonsters_none.mp hc
    · rw [if_neg hw]
      refine h.left hr (fun c' hne hc => by simpa [hne] using hc) hmap rfl rfl rfl ?_ ?_ (hmarks.gone _ c rfl rfl)
      · intro hne
        exact ⟨mem_filter.mpr ⟨(hok.warden hne).1, by simpa using hw⟩, (hok.warden hne).2⟩
      · intro h0
        simp [hok.unprotected h0]

theorem Inv.look {ids : List CreatureId} {change : Monster → Monster} (h : Inv f)
    (hm : ∀ m, (change m).echoWardProtected = m.echoWardProtected ∧ (change m).echoWardOwnerRaidId = m.echoWardOwnerRaidId) :
    Inv (f.forMonsters ids change) := by
  refine h.monsters (fun c hc => h.alive c (Field.forMonsters_none.mp hc)) fun c m hc hprot => ?_
  have hc : (if c ∈ ids then (f.monsters c).map change else f.monsters c) = some m := hc
  split at hc
  · obtain ⟨m₀, hm₀, rfl⟩ := map_eq_some_iff.mp hc
    rw [(hm m₀).1] at hprot
    rw [(hm m₀).2]
    exact h.marks c m₀ hm₀ hprot
  · exact h.marks c m hc hprot

theorem Inv.removeCreatures {ids : List CreatureId} (h : Inv f) : Inv (f.removeCreatures ids) := by
  induction ids generalizing f with
  | nil => exact h
  | cons c ids ih =>
    unfold Field.removeCreatures
    rw [foldl_cons]
    apply ih
    split
    · have hlook : Inv (f.forMonsters [c] fun m => { m with echoRaidVisualState := .None }) := h.look fun m => ⟨rfl, rfl⟩
      exact hlook.removeCreature
    · exact h

/-! ## A raid is cleaned up -/

/-- The raid is off the books and its marks are gone; its creatures are still in the game. -/
theorem Inv.over (h : Inv f) (hr : f.raids raid.id = some raid) : Inv (({ f with
      raids := update f.raids raid.id none
      creatureToRaid := fun c => if c ∈ raid.creatureIds then none else f.creatureToRaid c } : Field).clearWardenProtection raid).2 := by
  have hcleared := (h.self hr).marks.unprotect { raid with protectedCreatureIds := [] } _ rfl fun c hc => .inl hc
  have hmapped : ∀ c r, (if c ∈ raid.creatureIds then none else f.creatureToRaid c) = some r ↔
      r ≠ raid.id ∧ f.creatureToRaid c = some r := by
    intro c r
    have hc := h.creatures c raid.id
    by_cases hin : c ∈ raid.creatureIds
    · rw [if_pos hin, hc.mpr ⟨raid, hr, hin⟩]
      simp [eq_comm]
    rw [if_neg hin]
    refine ⟨fun hx => ⟨?_, hx⟩, fun hx => hx.2⟩
    rintro rfl
    obtain ⟨x, hx, hin'⟩ := hc.mp hx
    obtain rfl : raid = x := Option.some.inj (hr.symm.trans hx)
    exact hin hin'
  refine ⟨?_, h.planned, ?_, ?_, ?_, ite_eq_left_iff.mpr fun _ => h.nonzero⟩
  · intro r x hx
    by_cases hne : r = raid.id
    · simp [Field.clearWardenProtection, Field.forMonsters, hne] at hx
    · exact (h.raid r x (by simpa [Field.clearWardenProtection, Field.forMonsters, hne] using hx)).congr
        le_rfl rfl rfl
  · intro c r
    refine (hmapped c r).trans ?_
    rw [h.creatures]
    by_cases hne : r = raid.id
    · simp [Field.clearWardenProtection, Field.forMonsters, hne]
    · simp [Field.clearWardenProtection, Field.forMonsters, hne]
  · intro c m hm hprot
    obtain ⟨x, hx, hin⟩ := hcleared c m hm hprot
    by_cases hne : m.echoWardOwnerRaidId = raid.id
    · obtain rfl : { raid with protectedCreatureIds := [] } = x := by simpa [Field.setRaid, hne] using hx
      cases hin
    · exact ⟨x, by simpa [Field.setRaid, Field.clearWardenProtection, Field.forMonsters, hne] using hx, hin⟩
  · exact fun c hc => ite_eq_left_iff.mpr fun _ => h.alive c (Field.forMonsters_none.mp hc)

theorem Inv.cleanup {r : RaidId} (h : Inv f) : Inv (f.cleanupRaid r) := by
  unfold Field.cleanupRaid
  split
  · exact h
  · next raid hr =>
    obtain rfl := (h.raid r raid hr).id
    exact (h.over hr).removeCreatures

/-! ## A spawn -/

theorem Inv.appears {m : Monster} (h : Inv f) (c : CreatureId) (hm : m.echoWardProtected = false) :
    Inv { f with monsters := update f.monsters c (some m) } := by
  have halive := h.alive
  refine h.monsters (by grind) fun c' m' hm' hprot => ?_
  by_cases hc : c' = c
  · obtain rfl : m = m' := by simpa [hc] using hm'
    exact absurd (hm.symm.trans hprot) Bool.false_ne_true
  · exact h.marks c' m' (by simpa [hc] using hm') hprot

/-- A spawn that is placed: it is off the list of what is to come, and the new creature is on that of the raid. -/
theorem Inv.placed {m : Monster} {spawn : Spawn} (h : Inv (f.setRaid raid)) (warden : Bool)
    (hnew : c ≠ 0 ∧ f.monsters c = none) (hid : raid'.id = raid.id) (hc : raid'.creatureIds = c :: raid.creatureIds)
    (hw : raid'.wardenId = if warden then c else raid.wardenId)
    (hp : raid'.protectedCreatureIds = raid.protectedCreatureIds) (hremaining : raid.remaining = spawn :: raid'.remaining)
    (hpending : raid'.wardenPending = false) (hm : m.echoWardProtected = false) :
    Inv (({ f with
      monsters := update f.monsters c (some m)
      creatureToRaid := update f.creatureToRaid c (some raid.id)
      spawned := update f.spawned raid.id (f.spawned raid.id ++ [spawn]) } : Field).setRaid raid') := by
  have hok := h.raid raid.id raid (by simp [Field.setRaid])
  have hplan : f.spawned raid.id ++ spawn :: raid'.remaining = f.plans raid.id := by
    rw [← hremaining]
    exact hok.plan
  have hfresh : f.creatureToRaid c = none := h.alive c hnew.2
  refine ⟨?_, ?_, ?_, ?_, ?_, ?_⟩
  · intro r x hx
    by_cases hne : r = raid.id
    · subst hne
      obtain rfl : raid' = x := by simpa [Field.setRaid, hid] using hx
      refine ⟨hid, hok.started, .inl (by simp [hc]), ?_, ?_, ?_⟩
      · intro h0
        refine ⟨?_, hpending⟩
        rw [hw] at h0 ⊢
        rw [hc]
        split
        · exact mem_cons_self
        · next hnot =>
          rw [if_neg hnot] at h0
          exact mem_cons_of_mem _ (hok.warden h0).1
      · intro h0
        rw [hw] at h0
        rw [hp]
        split at h0
        · exact absurd h0 hnew.1
        · exact hok.unprotected h0
      · simpa [Field.setRaid] using hplan
    · refine (h.raid r x (by simpa [Field.setRaid, hid, hne] using hx)).congr le_rfl ?_ rfl
      simp [Field.setRaid, hne]
  · intro r
    by_cases hne : r = raid.id
    · subst hne
      refine ⟨raid'.remaining, ?_⟩
      simpa [Field.setRaid] using hplan
    · simpa [Field.setRaid, hne] using h.planned r
  · intro c' r
    have hold := h.creatures c' r
    by_cases hcid : c' = c
    · subst hcid
      by_cases hne : r = raid.id
      · simp [Field.setRaid, hid, hne, hc]
      · have hnot := mt hold.mpr (by simp [Field.setRaid, hfresh])
        simpa [Field.setRaid, hid, hne, Ne.symm hne] using hnot
    · by_cases hne : r = raid.id
      · simpa [Field.setRaid, hid, hne, hc, hcid] using hold
      · simpa [Field.setRaid, hid, hne, hcid] using hold
  · intro c' m' hm' hprot
    by_cases hcid : c' = c
    · obtain rfl : m = m' := by simpa [Field.setRaid, hcid] using hm'
      exact absurd (hm.symm.trans hprot) Bool.false_ne_true
    exact marked_setRaid hid (fun _ hin => by rw [hp]; exact hin)
      (h.marks c' m' (by simpa [Field.setRaid, hcid] using hm') hprot)
  · intro c' hm'
    have hne : c' ≠ c := by
      rintro rfl
      simp [Field.setRaid] at hm'
    simpa [Field.setRaid, hne] using h.alive c' (by simpa [Field.setRaid, hne] using hm')
  · simpa [Field.setRaid, Ne.symm hnew.1] using h.nonzero

theorem Inv.due {n : Nat} (h : Inv (f.setRaid raid)) : Inv (f.setRaid { raid with nextSpawnAt := n }) := by
  refine h.reraid f.monsters (fun _ hc => hc) rfl rfl
    (fun hok => { hok with id := rfl }) ?_
  exact h.marks.unprotect _ [] rfl fun c hc => .inr hc

theorem Inv.refused {m : Monster} (h : Inv (f.setRaid raid)) (hnew : f.monsters c = none) (hm : m.echoWardProtected = false) :
    Inv ((({ f with monsters := update f.monsters c (some m) } : Field).removeCreature c).setRaid raid) := by
  have hnone : f.creatureToRaid c = none := h.alive c hnew
  unfold Field.removeCreature Field.onCreatureRemoved
  simp only [hnone]
  exact (h.appears c hm).bystander hnone

theorem Inv.spawnNext (h : Inv (f.setRaid raid)) (cfg : EchoRaidConfig) (p : Placing)
    (hp : ∀ c ∈ p.placed, c ≠ 0 ∧ f.monsters c = none) :
    Inv ((f.spawnNextRaidMonster cfg raid p).2.setRaid (f.spawnNextRaidMonster cfg raid p).1) := by
  unfold Field.spawnNextRaidMonster
  split
  · exact h
  next hmore =>
  unfold Field.spawnRaidMonster
  cases hplaced : p.placed with
  | none => exact h.due
  | some c =>
    have hnew := hp c hplaced
    dsimp only
    cases hpending : raid.wardenPending with
    | true =>
      cases happly : p.applyEchoWarden with
      | false =>
        exact (h.refused hnew.2 rfl).due
      | true =>
        rw [update_idem]
        refine h.placed true hnew rfl rfl rfl rfl ?_ rfl rfl
        simp [RaidInstance.remaining, finishSpawnAttempt, hpending]
    | false =>
      rw [update_idem]
      refine h.placed false hnew rfl rfl rfl rfl ?_ rfl rfl
      cases hspawns : raid.pendingSpawns with
      | nil => simp [hasPendingSpawns, hpending, hspawns] at hmore
      | cons influenced rest => simp [RaidInstance.remaining, finishSpawnAttempt, hpending, hspawns]

/-! ## The start of a raid -/

theorem uniform_random_ge (lo hi roll : Nat) : lo ≤ Field.uniform_random lo hi roll := Nat.le_add_right _ _

theorem hasPendingSpawns_newRaid (cfg : EchoRaidConfig) (id : RaidId) (instanceId raceId : Nat) (outcome : EchoRaidOutcome)
    (s : Field.Starting) :
    hasPendingSpawns (Field.newRaid cfg id instanceId raceId outcome s) = true := by
  unfold hasPendingSpawns Field.newRaid
  cases outcome with
  | Normal =>
    have := uniform_random_ge cfg.normalCountMin cfg.normalCountMax s.roll
    have := cfg.normalCount_pos
    have hpos : Field.uniform_random cfg.normalCountMin cfg.normalCountMax s.roll ≠ 0 := by omega
    simp [buildSpawnPlan, hpos]
  | Influenced =>
    have hpos : cfg.influencedCount ≠ 0 := Nat.ne_of_gt cfg.influencedCount_pos
    simp [buildSpawnPlan, hpos]
  | Warden => simp

theorem Inv.begin (h : Inv f) (hid : raid.id = f.nextRaidId) (hc : raid.creatureIds = []) (hw : raid.wardenId = 0)
    (hp : raid.protectedCreatureIds = []) (hspawns : hasPendingSpawns raid = true) :
    Inv (({ f with
      nextRaidId := f.nextRaidId + 1
      plans := update f.plans f.nextRaidId raid.remaining
      spawned := update f.spawned f.nextRaidId [] } : Field).setRaid raid) := by
  have hnone : f.raids f.nextRaidId = none := by
    cases hr : f.raids f.nextRaidId with
    | none => rfl
    | some x => exact absurd (h.raid _ x hr).started (Nat.lt_irrefl _)
  refine ⟨?_, ?_, ?_, ?_, h.alive, h.nonzero⟩
  · intro r x hx
    by_cases hne : r = f.nextRaidId
    · subst hne
      obtain rfl : raid = x := by simpa [Field.setRaid, hid] using hx
      exact ⟨hid, Nat.lt_succ_self _, .inr hspawns, fun h0 => absurd hw h0, fun _ => hp, by simp [Field.setRaid]⟩
    · have hx' : f.raids r = some x := by simpa [Field.setRaid, hid, hne] using hx
      exact (h.raid r x hx').congr (Nat.le_succ _) (by simp [Field.setRaid, hne]) (by simp [Field.setRaid, hne])
  · intro r
    by_cases hne : r = f.nextRaidId
    · simp [Field.setRaid, hne]
    · simpa [Field.setRaid, hne] using h.planned r
  · intro c r
    refine (h.creatures c r).trans ?_
    by_cases hne : r = f.nextRaidId <;> simp [hne, Field.setRaid, hid, hnone, hc]
  · intro c m hm hprot
    obtain ⟨x, hx, hin⟩ := h.marks c m hm hprot
    have hne : m.echoWardOwnerRaidId ≠ f.nextRaidId := by
      grind
    exact ⟨x, by simpa [Field.setRaid, hid, hne] using hx, hin⟩

theorem Inv.startRaid (h : Inv f) (cfg : EchoRaidConfig) (instanceId raceId : Nat) (outcome : EchoRaidOutcome)
    (s : Field.Starting) (hp : ∀ c ∈ s.placing.placed, c ≠ 0 ∧ f.monsters c = none) :
    Inv (f.startRaid cfg instanceId raceId outcome s).2 := by
  unfold Field.startRaid
  split
  · exact h
  have hspawned := (h.begin rfl rfl rfl rfl
    (hasPendingSpawns_newRaid cfg _ instanceId raceId outcome s)).spawnNext cfg s.placing hp
  dsimp only
  split
  · next hw => exact hspawned.aura hw.2
  · exact hspawned

theorem spawnNext_id (cfg : EchoRaidConfig) (p : Placing) : (f.spawnNextRaidMonster cfg raid p).1.id = raid.id := by
  unfold Field.spawnNextRaidMonster Field.spawnRaidMonster finishSpawnAttempt
  grind

theorem startRaid_there {instanceId raceId : Nat} {outcome : EchoRaidOutcome} {s : Field.Starting} {id : RaidId}
    (hid : (f.startRaid cfg instanceId raceId outcome s).1 = some id) :
    ((f.startRaid cfg instanceId raceId outcome s).2.raids id).isSome = true := by
  have haura : ∀ (raid : RaidInstance) (now : Nat) (spectators : List CreatureId) (f : Field),
      (f.updateWardenAura cfg raid now spectators).1.id = raid.id := by
    intro raid now spectators f
    unfold Field.updateWardenAura Field.clearWardenProtection
    split
    · rfl
    · rfl
  unfold Field.startRaid at hid ⊢
  split at hid
  · cases hid
  next hknown =>
    obtain rfl := Option.some.inj hid
    rw [if_neg hknown]
    dsimp only [Field.setRaid]
    split
    · rw [haura, spawnNext_id]
      simp [Field.newRaid]
    · rw [spawnNext_id]
      simp [Field.newRaid]

/-! ## A tick -/

theorem Inv.tickRaid {t : World.Ticking} {r : RaidId} (h : Inv f) (hr : f.raids r = some raid)
    (hp : ∀ c ∈ (t.placing raid.id).placed, c ≠ 0 ∧ f.monsters c = none) :
    Inv (World.tickRaid cfg t raid f) := by
  obtain rfl := (h.raid r raid hr).id
  have hspawned : Inv ((World.tickSpawn cfg t raid f).2.setRaid (World.tickSpawn cfg t raid f).1) := by
    unfold World.tickSpawn
    split
    · exact (h.self hr).spawnNext _ _ hp
    · exact h.self hr
  unfold World.tickRaid
  dsimp only
  split
  · next hw =>
    simp only [Bool.and_eq_true, decide_eq_true_eq] at hw
    exact hspawned.aura hw.1
  · exact hspawned

/-! A creature that is not in the game does not come, but as the spawn. -/

theorem removeCreature_stays {c' : CreatureId} (hc : f.monsters c = none) : (f.removeCreature c').monsters c = none := by
  have hcame : (f.onCreatureRemoved c').monsters c = none := by
    unfold Field.onCreatureRemoved
    split
    · exact hc
    dsimp only
    split
    · exact hc
    rw [Field.settleRaid_monsters]
    split
    · exact Field.forMonsters_none.mpr hc
    · exact hc
  by_cases hne : c = c'
  · simp [Field.removeCreature, hne]
  · simpa [Field.removeCreature, hne] using hcame

theorem spawnNext_stays {p : Placing} (hc : f.monsters c = none) (hp : c ∉ p.placed) :
    (f.spawnNextRaidMonster cfg raid p).2.monsters c = none := by
  have hspawn : ∀ warden influenced, (f.spawnRaidMonster raid warden influenced p).2.2.monsters c = none := by
    intro warden influenced
    unfold Field.spawnRaidMonster
    cases hplaced : p.placed with
    | none => exact hc
    | some id =>
      have hne : c ≠ id := by
        rintro rfl
        exact hp hplaced
      dsimp only
      split
      · exact removeCreature_stays (by simpa [hne] using hc)
      · simpa [hne] using hc
  unfold Field.spawnNextRaidMonster
  split
  · exact hc
  dsimp only
  split
  · exact hspawn _ _
  · exact hspawn _ _

theorem tickRaid_stays {t : World.Ticking} (hc : f.monsters c = none) (hp : c ∉ (t.placing raid.id).placed) :
    (World.tickRaid cfg t raid f).monsters c = none := by
  have haura : ∀ (raid : RaidInstance) (spectators : List CreatureId) (f : Field), f.monsters c = none →
      (f.updateWardenAura cfg raid t.now spectators).2.monsters c = none := by
    intro raid spectators f hc
    unfold Field.updateWardenAura Field.clearWardenProtection
    split
    · exact Field.forMonsters_none.mpr hc
    · exact Field.forMonsters_none.mpr (Field.forMonsters_none.mpr hc)
  have hspawned : (World.tickSpawn cfg t raid f).2.monsters c = none := by
    unfold World.tickSpawn
    split
    · exact spawnNext_stays hc hp
    · exact hc
  unfold World.tickRaid
  dsimp only [Field.setRaid]
  split
  · exact haura _ _ _ hspawned
  · exact hspawned

theorem Inv.tickRaids {t : World.Ticking} (ids : List RaidId) (expired : List RaidId) (h : Inv f)
    (hp : Fresh (ids.filterMap fun r => (t.placing r).placed) f) : Inv (World.tickRaids cfg t ids expired f).2 := by
  induction ids generalizing expired f with
  | nil => exact h
  | cons id ids ih =>
    have hfewer := (sublist_cons_self id ids).filterMap fun r => (t.placing r).placed
    have hrest : Fresh (ids.filterMap fun r => (t.placing r).placed) f :=
      ⟨hp.1.sublist hfewer, fun c hc => hp.2 c (hfewer.subset hc)⟩
    unfold World.tickRaids
    split
    · exact ih expired h hrest
    next raid hr =>
    split
    · exact ih _ h hrest
    obtain rfl := (h.raid id raid hr).id
    refine ih expired (h.tickRaid hr fun c hc => hp.2 c (mem_filterMap.mpr ⟨_, mem_cons_self, hc⟩)) ⟨hrest.1, ?_⟩
    intro c hc
    refine ⟨(hrest.2 c hc).1, tickRaid_stays (hrest.2 c hc).2 fun hown => ?_⟩
    rw [filterMap_cons_some (f := fun r => (t.placing r).placed) hown] at hp
    exact (nodup_cons.mp hp.1).1 hc

end

/-! ## The portals -/

structure Portals (w : World) : Prop where
  one : ∀ t r r', (t, r) ∈ w.started → (t, r') ∈ w.started → r ≠ r' → w.cleanedUp r = true ∨ w.cleanedUp r' = true
  there : ∀ p ∈ w.portals, ∀ r, (p.1, r) ∈ w.started → w.cleanedUp r = true
  uids : ∀ p ∈ w.portals, p.1 < w.nextItemUID
  started : ∀ s ∈ w.started, s.1 < w.nextItemUID

variable {w : World}

theorem Portals.fewer {portals : List (Token × PortalRecord)} (h : Portals w) (hp : portals ⊆ w.portals) :
    Portals { w with portals } :=
  { h with
    there := fun p hm => h.there p (hp hm)
    uids := fun p hm => h.uids p (hp hm) }

theorem cleanedUp_mono (id : RaidId) : ∀ r, w.cleanedUp r = true → (w.cleanupRaid id).cleanedUp r = true := by
  intro r hr
  unfold World.cleanupRaid
  dsimp only
  split
  · by_cases hne : r = id
    · simp [hne]
    · simpa [hne] using hr
  · exact hr

theorem cleanedUp_self {id : RaidId} (h : (w.field.raids id).isSome = true) : (w.cleanupRaid id).cleanedUp id = true := by
  simp [World.cleanupRaid, h]

theorem Portals.cleaned (h : Portals w) (id : RaidId) : Portals (w.cleanupRaid id) where
  one t r r' hr hr' hne := (h.one t r r' hr hr' hne).imp (cleanedUp_mono id r) (cleanedUp_mono id r')
  there p hp r hr := cleanedUp_mono id r (h.there p hp r hr)
  uids := h.uids
  started := h.started

/-- Both invariants. -/
structure Sound (w : World) : Prop where
  field : Inv w.field
  portals : Portals w

theorem Sound.cleanupRaids (ids : List RaidId) (h : Sound w) : Sound (ids.foldl (fun w id => w.cleanupRaid id) w) := by
  induction ids generalizing w with
  | nil => exact h
  | cons id ids ih => exact ih ⟨h.field.cleanup, h.portals.cleaned id⟩

theorem Portals.putBack {token : Token} {portal : PortalRecord} (h : Portals w) (hn : token < w.nextItemUID)
    (hc : ∀ r, (token, r) ∈ w.started → w.cleanedUp r = true) :
    Portals { w with portals := w.portals ++ [(token, portal)] } := by
  refine ⟨h.one, ?_, ?_, h.started⟩
  · intro p hm r hr
    rcases mem_append.mp hm with hm | hm
    · exact h.there p hm r hr
    · rw [mem_singleton.mp hm] at hr
      exact hc r hr
  · intro p hm
    rcases mem_append.mp hm with hm | hm
    · exact h.uids p hm
    · rw [mem_singleton.mp hm]
      exact hn

theorem Portals.created {cfg : EchoRaidConfig} {t : World.Ticking} {w : World} (h : Portals w)
    (e : PositionKey × PendingEcho) : Portals (w.createPortal cfg t e) := by
  unfold World.createPortal
  split
  · exact h
  next gap clock hc =>
  have hlater : ∀ t, t < w.nextItemUID → t < w.nextItemUID + gap + 1 := fun t ht =>
    Nat.lt_succ_of_lt (Nat.lt_of_lt_of_le ht (Nat.le_add_right _ _))
  have hnext : Portals { w with nextItemUID := w.nextItemUID + gap + 1 } :=
    { h with
      uids := fun p hp => hlater _ (h.uids p hp)
      started := fun s hs => hlater _ (h.started s hs) }
  refine hnext.putBack (Nat.lt_succ_self _) fun r hr => ?_
  -- a new uid has started no raid
  have hlt : w.nextItemUID + gap < w.nextItemUID := h.started _ hr
  exact absurd hlt (Nat.not_lt.mpr (Nat.le_add_right _ _))

theorem createPortal_field {cfg : EchoRaidConfig} {t : World.Ticking} (e : PositionKey × PendingEcho) :
    (w.createPortal cfg t e).field = w.field := by
  unfold World.createPortal
  split
  · rfl
  · rfl

theorem Portals.ready (h : Portals w) (cfg : EchoRaidConfig) (t : World.Ticking) (ready : List (PositionKey × PendingEcho)) :
    Portals (ready.foldl (World.createPortal cfg t) w) ∧ (ready.foldl (World.createPortal cfg t) w).field = w.field := by
  induction ready generalizing w with
  | nil => exact ⟨h, rfl⟩
  | cons e ready ih => exact (ih (h.created e)).imp_right (·.trans (createPortal_field e))

/-! ## Steps and runs -/

section
variable {cfg : EchoRaidConfig} {w : World}

theorem Sound.tick {t : World.Ticking} (h : Sound w) (hp : Fresh (Event.tick t).newIds w.field) : Sound (w.tick cfg t) := by
  unfold World.tick
  split
  · exact h
  split
  · exact ⟨h.field, { h.portals with }⟩
  apply Sound.cleanupRaids
  have hdue : Portals { w with
      nextTickAt := t.now + ECHO_TICK_INTERVAL_MS
      pendingEchoes := w.pendingEchoes.filter (t.now < ·.2.dueAt) } := { h.portals with }
  obtain ⟨hportals, hfield⟩ := hdue.ready cfg t (w.pendingEchoes.filter (t.now ≥ ·.2.dueAt))
  refine ⟨?_, { hportals.fewer filter_sublist.subset with }⟩
  dsimp only [World.expirePortals]
  rw [hfield]
  exact h.field.tickRaids t.order [] hp

theorem Portals.activated {token : Token} {portal : PortalRecord} (h : Portals w) (id : RaidId) (field : Field)
    (hp : (token, portal) ∈ w.portals) :
    Portals { w with field, portals := w.portals.filter (·.1 ≠ token), started := w.started ++ [(token, id)] } := by
  have hold : ∀ {t r}, t ≠ token → (t, r) ∈ w.started ++ [(token, id)] → (t, r) ∈ w.started := by
    grind
  refine ⟨?_, ?_, ?_, ?_⟩
  · intro t r r' hr hr' hne
    rcases mem_append.mp hr with hold₁ | hnew₁
    · rcases mem_append.mp hr' with hold₂ | hnew₂
      · exact h.one t r r' hold₁ hold₂ hne
      · rw [(Prod.mk.inj (mem_singleton.mp hnew₂)).1] at hold₁
        exact .inl (h.there _ hp r hold₁)
    · rcases mem_append.mp hr' with hold₂ | hnew₂
      · rw [(Prod.mk.inj (mem_singleton.mp hnew₁)).1] at hold₂
        exact .inr (h.there _ hp r' hold₂)
      · exact absurd ((Prod.mk.inj (mem_singleton.mp hnew₁)).2.trans
          (Prod.mk.inj (mem_singleton.mp hnew₂)).2.symm) hne
  · intro p hm r hr
    obtain ⟨hm, hne⟩ := mem_filter.mp hm
    exact h.there p hm r (hold (by simpa using hne) hr)
  · intro p hm
    exact h.uids p (mem_filter.mp hm).1
  intro s hs
  rcases mem_append.mp hs with hs | hs
  · exact h.started s hs
  · rw [mem_singleton.mp hs]
    exact h.uids _ hp

theorem Sound.activate {a : World.Activation} (h : Sound w) (hnew : Fresh (Event.activateEcho a).newIds w.field) :
    Sound (w.activateEcho cfg a).2 := by
  unfold World.activateEcho
  split
  · exact h
  split
  · exact h
  next portal hl =>
  have hp : (a.token, portal) ∈ w.portals := by
    obtain ⟨l, r, hs, -⟩ := lookup_eq_some_iff.mp hl
    simp [hs]
  have hstart := h.field.startRaid cfg portal.key.instanceId portal.raceId a.outcome a.toStarting
    fun c hc => hnew.2 c (mem_toList.mpr hc)
  dsimp only
  split
  · exact ⟨h.field, h.portals.fewer filter_sublist.subset⟩
  split
  · split
    · refine ⟨hstart, { h.portals.fewer ?_ with }⟩
      grind
    · exact ⟨hstart, { h.portals.fewer filter_sublist.subset with }⟩
  · next id hid =>
    have hactive := h.portals.activated id
      (w.field.startRaid cfg portal.key.instanceId portal.raceId a.outcome a.toStarting).2 hp
    split
    · exact ⟨hstart, hactive⟩
    refine ⟨hstart.cleanup, (hactive.cleaned id).putBack (h.portals.uids _ hp) ?_⟩
    intro r hr
    rcases mem_append.mp hr with hr | hr
    · exact cleanedUp_mono id r (h.portals.there _ hp r hr)
    · obtain ⟨-, rfl⟩ := Prod.mk.inj (mem_singleton.mp hr)
      exact cleanedUp_self (startRaid_there hid)

/-! A raid that is gone does not come back. -/

theorem settleRaid_none {f : Field} {raid : RaidInstance} {r : RaidId} (hne : r ≠ raid.id) (hr : f.raids r = none) :
    (f.settleRaid raid).raids r = none := by
  unfold Field.settleRaid
  split
  · simpa [hne] using hr
  · simpa [Field.setRaid, hne] using hr

theorem removeCreature_none {f : Field} {c : CreatureId} {r : RaidId} (h : Inv f) (hr : f.raids r = none) :
    (f.removeCreature c).raids r = none := by
  unfold Field.removeCreature Field.onCreatureRemoved
  cases hmap : f.creatureToRaid c with
  | none => exact hr
  | some r' =>
    obtain ⟨raid, hraid, -⟩ := (h.creatures c r').mp hmap
    have hne : r ≠ raid.id := by
      rintro rfl
      rw [(h.raid r' raid hraid).id, hraid] at hr
      cases hr
    simp only [hraid]
    split
    · exact settleRaid_none hne hr
    · exact settleRaid_none hne hr

theorem removeCreatures_none {f : Field} {ids : List CreatureId} {r : RaidId} (h : Inv f) (hr : f.raids r = none) :
    (f.removeCreatures ids).raids r = none := by
  induction ids generalizing f with
  | nil => exact hr
  | cons c ids ih =>
    unfold Field.removeCreatures
    rw [foldl_cons]
    split
    · have hlook : Inv (f.forMonsters [c] fun m => { m with echoRaidVisualState := .None }) := h.look fun m => ⟨rfl, rfl⟩
      exact ih hlook.removeCreature (removeCreature_none hlook hr)
    · exact ih h hr

theorem cleanupRaid_none {f : Field} {id r : RaidId} (h : Inv f) (hr : r = id ∨ f.raids r = none) :
    (f.cleanupRaid id).raids r = none := by
  unfold Field.cleanupRaid
  split
  · next hnone =>
    rcases hr with rfl | hr <;> omega
  next raid hraid =>
  obtain rfl := (h.raid id raid hraid).id
  apply removeCreatures_none (h.over hraid)
  rcases hr with rfl | hr
  · simp [Field.clearWardenProtection, Field.forMonsters]
  · have hne : r ≠ raid.id := by
      grind
    simpa [Field.clearWardenProtection, Field.forMonsters, hne] using hr

theorem cleanupRaids_none {r : RaidId} {ids : List RaidId} (h : Sound w) (hr : r ∈ ids ∨ w.field.raids r = none) :
    (ids.foldl (fun w id => w.cleanupRaid id) w).field.raids r = none := by
  induction ids generalizing w with
  | nil =>
    grind
  | cons id ids ih =>
    refine ih ⟨h.field.cleanup, h.portals.cleaned id⟩ ?_
    rcases hr with hr | hr
    · rcases mem_cons.mp hr with rfl | hr
      · exact .inr (cleanupRaid_none h.field (.inl rfl))
      · exact .inl hr
    · exact .inr (cleanupRaid_none h.field (.inr hr))

theorem Sound.cleanupAll (h : Sound w) : Sound w.cleanupAll := by
  have hempty : Sound { w with pendingEchoes := [], portals := [] } :=
    ⟨h.field, { h.portals.fewer (nil_subset _) with }⟩
  have hclean := hempty.cleanupRaids (List.range w.field.nextRaidId)
  have hnone : ∀ r, ((List.range w.field.nextRaidId).foldl (fun w id => World.cleanupRaid id w)
      { w with pendingEchoes := [], portals := [] }).field.raids r = none := by
    intro r
    apply cleanupRaids_none hempty
    cases hr : w.field.raids r with
    | none => exact .inr rfl
    | some raid => exact .inl (mem_range.mpr (h.field.raid r raid hr).started)
  refine ⟨⟨?_, hclean.field.planned, ?_, hclean.field.marks, fun _ _ => rfl, rfl⟩, ?_⟩
  · intro r raid hr
    rw [show w.cleanupAll.field.raids r = _ from hnone r] at hr
    cases hr
  · simp [World.cleanupAll, hnone]
  · exact { hclean.portals with }

theorem Sound.step {e : Event} (h : Sound w) (hp : Fresh e.newIds w.field) : Sound (step cfg w e) := by
  cases e with
  | activateEcho a => exact h.activate hp
  | tick t => exact h.tick hp
  | removeCreature c => exact ⟨h.field.removeCreature, { h.portals with }⟩
  | cleanupAll => exact h.cleanupAll
  | onMonsterDeath key pending =>
    show Sound (w.onMonsterDeath key pending)
    unfold World.onMonsterDeath
    split
    · exact h
    · exact ⟨h.field, { h.portals with }⟩
  | monsterAppears c kind => exact ⟨h.field.appears c rfl, { h.portals with }⟩
  | monsterChanges c kind =>
    have hlook : Inv (w.field.forMonsters [c] fun m => { m with kind }) := h.field.look fun m => ⟨rfl, rfl⟩
    exact ⟨hlook, { h.portals with }⟩

theorem Sound.bookkeeping (h : Sound w) : Bookkeeping w where
  creatures := h.field.creatures
  busy r raid hr := (h.field.raid r raid hr).busy
  planned := h.field.planned
  portals := h.portals.one
  marks := by
    intro c m hm hprot
    obtain ⟨raid, hr, hin⟩ := h.field.marks c m hm hprot
    refine ⟨raid, hr, hin, fun h0 => ?_⟩
    rw [(h.field.raid _ raid hr).unprotected h0] at hin
    cases hin

end

structure Start (w : World) : Prop where
  raids : ∀ r, w.field.raids r = none
  creatureToRaid : ∀ c, w.field.creatureToRaid c = none
  spawned : ∀ r, w.field.spawned r = []
  marks : ∀ c m, w.field.monsters c = some m → m.echoWardProtected = false
  portals : w.portals = []
  started : w.started = []

theorem Sound.start (h : Start w) : Sound w := by
  refine ⟨⟨by simp [h.raids], by simp [h.spawned], by simp [h.creatureToRaid, h.raids], ?_, fun c _ => h.creatureToRaid c,
    h.creatureToRaid 0⟩, ⟨by simp [h.started], by simp [h.portals], by simp [h.portals], by simp [h.started]⟩⟩
  intro c m hm hprot
  exact absurd ((h.marks c m hm).symm.trans hprot) Bool.false_ne_true

/-- The books agree in every state reached, no new monster having the id of one that lives. -/
theorem raid_bookkeeping {cfg : EchoRaidConfig} {w : World}
    (h : Reach Start (step cfg) (fun w e => Fresh e.newIds w.field) w) : Bookkeeping w :=
  (h.inv (I := Sound) (fun _ => Sound.start) fun _ _ hp hi => hi.step hp).bookkeeping

/-- A portal is made and activated; the Warden marks the monster beside him and leaves the game. -/
def oneRaid : List Event :=
  let kind : Kind := ⟨7, 0, false, false, false⟩
  let placing : Placing := ⟨some 0x40000001, true, kind, 0⟩
  [.monsterAppears 0x40000000 kind, .onMonsterDeath ⟨5, 0⟩ ⟨7, 0⟩,
    .tick ⟨100, true, fun _ => some (0, 100), fun _ => false, [], fun _ => placing, fun _ => []⟩,
    .activateEcho ⟨⟨true, 200, 0, placing, [0x40000000]⟩, true, true, 1, true, 200, .Warden, false, 200, true⟩,
    .removeCreature 0x40000001]

def config : EchoRaidConfig where
  portalTtlMs := 120000
  normalCountMin := 5
  normalCountMax := 8
  influencedCount := 4
  wardenNormalCompanionCount := 2
  wardenInfluencedCompanionCount := 2
  auraIntervalMs := 2000
  spawnIntervalMs := 400
  lifetimeMs := 600000
  portalTtl_pos := by decide
  lifetime_pos := by decide
  normalCount_pos := by decide
  normalCount_le := by decide
  influencedCount_pos := by decide
  auraInterval_pos := by decide
  spawnInterval_pos := by decide

theorem start_empty : Start {} where
  raids _ := rfl
  creatureToRaid _ := rfl
  spawned _ := rfl
  marks := by
    intro c m hm
    cases hm
  portals := rfl
  started := rfl

theorem one_raid_booked : Bookkeeping (run (step config) {} oneRaid) :=
  raid_bookkeeping ((Reach.init start_empty).run ⟨by decide, by decide, by decide, by decide, by decide, trivial⟩)

end Backlands.Echo.Raids
