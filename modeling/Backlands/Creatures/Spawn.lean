/-
  Backlands.Creatures.Spawn — a spawn, its blocks and its two kinds of scheduled event
  (src/spawn.cpp).

  What the surroundings answer in a step is its `Env`: the clock, the settings, whether a
  player is near, what the dice say and where a monster finds a place. `nextWait` stands for
  the floating-point share of the waiting time. The game runs: no step is taken at shutdown.

  Proved: `spawns_fed`. Counterexample: `start_unwatched`.
-/

import Backlands.Lib.Runs
import Mathlib.Data.List.Nodup
import Mathlib.Data.List.Perm.Subperm

namespace Backlands.Creatures.Spawn

open Backlands.Lib List

structure MonsterType where
  isBlockable : Bool
  chance : Nat

structure Monster where
  ptr : Nat
  removed : Bool := false
  removedTime : Int := 0
  deriving DecidableEq

/-- `spawnBlock_t`. -/
structure Block where
  mTypes : List MonsterType
  interval : Nat
  lastSpawn : Int := 0
  effectInitialInterval : Nat := 0

/-- A pending event of a spawn-effect chain: the rest of the wait, or the spawn itself. -/
inductive Chain
  | next (spawnId interval : Nat)
  | last (spawnId : Nat)
  deriving DecidableEq

def Chain.spawnId : Chain → Nat
  | next spawnId _ => spawnId
  | last spawnId => spawnId

structure State where
  spawnMap : List (Nat × Block)
  spawnedMap : List (Nat × Monster) := []
  /-- `checkSpawnEvent` is not 0. -/
  checkSpawnEvent : Bool := false
  pendingSpawnEvents : List Chain := []

/-- One try at a monster type: the dice, and the address of the monster if the event lets it
    be and a place is found. -/
structure Try where
  roll : Nat := 1
  placed : Option Nat

structure Env where
  now : Int
  rate : Int := 1
  currentRate : Nat → Nat := fun _ => 1
  startEffect : Bool := false
  startInterval : Nat := 0
  nextWait : Nat → Nat → Nat := fun interval _ => interval
  findPlayer : Nat → Bool := fun _ => false
  tries : Nat → Nat → Try

def minspawnInterval : Nat := 10 * 1000

variable (env : Env)

namespace State

variable (s : State)

def contains (spawnId : Nat) : Bool := s.spawnedMap.any (·.1 = spawnId)

def setBlock (spawnId : Nat) (f : Block → Block) : State :=
  { s with spawnMap := s.spawnMap.map fun b => if b.1 = spawnId then (b.1, f b.2) else b }

def startSpawnCheck : State := if s.checkSpawnEvent then s else { s with checkSpawnEvent := true }

/-- `spawnMonster` of a type; a monster that finds the block taken is removed again. -/
def spawnType (spawnId : Nat) (try_ : Try) : Bool × State :=
  match try_.placed with
  | none => (false, s)
  | some ptr =>
    if s.contains spawnId then (false, s)
    else (true, { s with spawnedMap := (spawnId, { ptr }) :: s.spawnedMap }.setBlock spawnId fun b => { b with lastSpawn := env.now })

def spawnFunc (spawnId : Nat) (isBlocked roll : Bool) (tries : Nat → Try) : List MonsterType → Nat → State → Bool × State
  | [], _, s => (false, s)
  | ty :: mTypes, i, s =>
    if isBlocked && ty.isBlockable then spawnFunc spawnId isBlocked roll tries mTypes (i + 1) s
    else if !roll then s.spawnType env spawnId (tries i)
    else if ty.chance ≥ (tries i).roll && (s.spawnType env spawnId (tries i)).1 then s.spawnType env spawnId (tries i)
    else spawnFunc spawnId isBlocked roll tries mTypes (i + 1) s

def spawnMonster (spawnId : Nat) (sb : Block) (startup : Bool) : Bool × State :=
  let isBlocked := !startup && env.findPlayer spawnId
  let monstersCount := sb.mTypes.length
  let first := spawnFunc env spawnId isBlocked (monstersCount > 1) (env.tries spawnId) sb.mTypes 0 s
  if first.1 then first
  else if monstersCount = sb.mTypes.countP fun ty => isBlocked && ty.isBlockable then (false, s)
  else spawnFunc env spawnId isBlocked false (fun i => env.tries spawnId (monstersCount + i)) sb.mTypes 0 s

def startup : State := s.spawnMap.foldl (fun s b => (s.spawnMonster env b.1 b.2 true).2) s

def scheduleSpawn (spawnId interval : Nat) : State :=
  match s.spawnMap.find? (·.1 = spawnId) with
  | none => s
  | some (_, sb) =>
    if interval > 0 then
      let nextWait := env.nextWait interval sb.effectInitialInterval
      if interval > nextWait then
        { s with pendingSpawnEvents := s.pendingSpawnEvents ++ [.next spawnId (interval - nextWait)] }
      else { s with pendingSpawnEvents := s.pendingSpawnEvents ++ [.last spawnId] }
    else (s.spawnMonster env spawnId sb false).2.setBlock spawnId fun b => { b with effectInitialInterval := 0 }

def cleanup : State :=
  let gone : List (Nat × Monster) := s.spawnedMap.filter (·.2.removed)
  { s with
    spawnedMap := s.spawnedMap.filter (!·.2.removed)
    spawnMap := s.spawnMap.map fun b =>
      match gone.find? (·.1 = b.1) with
      | some m => (b.1, { b.2 with lastSpawn := m.2.removedTime })
      | none => b }

/-- The loop of `checkSpawn`. -/
def checkBlocks : List (Nat × Block) → Nat → State → State
  | [], _, s => s
  | (spawnId, sb) :: blocks, spawnCount, s =>
    if s.contains spawnId then checkBlocks blocks spawnCount s
    else if env.now ≥ sb.lastSpawn + max minspawnInterval (sb.interval / env.currentRate spawnId) then
      if env.startEffect then
        let s := if sb.effectInitialInterval = 0 then
            ((s.setBlock spawnId fun b => { b with effectInitialInterval := env.startInterval }).scheduleSpawn env spawnId
              env.startInterval).setBlock spawnId fun b => { b with lastSpawn := env.now }
          else s
        if (spawnCount + 1 : Int) ≥ max 1 env.rate then s else checkBlocks blocks (spawnCount + 1) s
      else if !(s.spawnMonster env spawnId sb false).1 then
        checkBlocks blocks spawnCount (s.setBlock spawnId fun b => { b with lastSpawn := env.now })
      else
        let s := (s.spawnMonster env spawnId sb false).2
        if (spawnCount + 1 : Int) ≥ max 1 env.rate then s else checkBlocks blocks (spawnCount + 1) s
    else checkBlocks blocks spawnCount s

def checkSpawn : State :=
  let s := { s with checkSpawnEvent := false }.cleanup
  let s := checkBlocks env s.spawnMap 0 s
  if s.spawnedMap.length < s.spawnMap.length then { s with checkSpawnEvent := true } else s

/-- A pending event of a chain comes due. -/
def chainEvent (i : Nat) : State :=
  let event := s.pendingSpawnEvents[i]?
  let s := { s with pendingSpawnEvents := s.pendingSpawnEvents.eraseIdx i }
  match event with
  | none => s
  | some (.next spawnId interval) => s.scheduleSpawn env spawnId interval
  | some (.last spawnId) =>
    match s.spawnMap.find? (·.1 = spawnId) with
    | none => s
    | some (_, sb) => (s.spawnMonster env spawnId sb false).2.setBlock spawnId fun b => { b with effectInitialInterval := 0 }

/-- A monster of the spawn is removed from the game, and `onRemoveCreature` starts the check. -/
def creatureRemoved (ptr : Nat) (time : Int) : State :=
  let mark := fun m : Nat × Monster => if m.2.ptr = ptr then (m.1, { m.2 with removed := true, removedTime := time }) else m
  { s with spawnedMap := s.spawnedMap.map mark }.startSpawnCheck

def removeMonster (ptr : Nat) : State := { s with spawnedMap := s.spawnedMap.eraseP (·.2.ptr = ptr) }

end State

inductive Ev
  | startup (env : Env)
  | creatureRemoved (ptr : Nat) (time : Int)
  | removeMonster (ptr : Nat)
  | checkSpawn (env : Env)
  | chainEvent (env : Env) (i : Nat)

def step (s : State) : Ev → State
  | .startup env => s.startup env
  | .creatureRemoved ptr time => s.creatureRemoved ptr time
  | .removeMonster ptr => s.removeMonster ptr
  | .checkSpawn env => s.checkSpawn env
  | .chainEvent env i => s.chainEvent env i

def Due (s : State) : Ev → Prop
  | .checkSpawn _ => s.checkSpawnEvent = true
  | .chainEvent _ i => i < s.pendingSpawnEvents.length
  | _ => True

/-! ## What is required -/

/-- The block has a living monster. -/
def State.living (s : State) (spawnId : Nat) : Bool := s.spawnedMap.any fun m => m.1 = spawnId && !m.2.removed

def State.chainPending (s : State) (spawnId : Nat) : Bool := s.pendingSpawnEvents.any (·.spawnId = spawnId)

/-- Every block without a living monster is waited for. -/
def Fed (s : State) : Prop := ∀ b ∈ s.spawnMap, s.living b.1 = true ∨ s.checkSpawnEvent = true ∨ s.chainPending b.1 = true

/-- No block has two living monsters. -/
def Single (s : State) : Prop := ∀ spawnId, (s.spawnedMap.filter fun m => m.1 = spawnId && !m.2.removed).length ≤ 1

/-- A try at one of the block's types places a monster: with the dice where there are several
    types, and then the first that no player blocks. -/
def Placed (env : Env) (spawnId : Nat) (sb : Block) (startup : Bool) : Prop :=
  let isBlocked := !startup && env.findPlayer spawnId
  let open_ := fun ty : MonsterType => !(isBlocked && ty.isBlockable)
  let n := sb.mTypes.length
  (∃ i ty, sb.mTypes[i]? = some ty ∧ open_ ty = true ∧ (env.tries spawnId i).placed.isSome = true ∧
      (n > 1 → (env.tries spawnId i).roll ≤ ty.chance)) ∨
    ∃ i, sb.mTypes.findIdx? open_ = some i ∧ (env.tries spawnId (n + i)).placed.isSome = true

/-- The step leaves no block unwatched: a start finds a place for every block that nothing else
    is waiting for, and so does the end of a chain. -/
def Feeds (s : State) : Ev → Prop
  | .startup env => ∀ b ∈ s.spawnMap, s.living b.1 = true ∨ s.checkSpawnEvent = true ∨ s.chainPending b.1 = true ∨
      (s.contains b.1 = false ∧ Placed env b.1 b.2 true)
  | .chainEvent env i =>
    let rest := { s with pendingSpawnEvents := s.pendingSpawnEvents.eraseIdx i }
    ∀ b ∈ s.spawnMap, s.living b.1 = true ∨ s.checkSpawnEvent = true ∨ rest.chainPending b.1 = true ∨
      match s.pendingSpawnEvents[i]? with
      | some (.next spawnId _) => b.1 = spawnId
      | some (.last spawnId) => b.1 = spawnId ∧ s.contains b.1 = false ∧ Placed env b.1 b.2 false
      | none => False
  | _ => True

/-! ## The tries -/

section
variable {env : Env} {s : State} {spawnId : Nat}

/-- The new monster of a block. -/
def State.insert (env : Env) (s : State) (spawnId ptr : Nat) : State :=
  { s with spawnedMap := (spawnId, { ptr }) :: s.spawnedMap }.setBlock spawnId fun b => { b with lastSpawn := env.now }

theorem spawnType_taken (h : s.contains spawnId = true) (t : Try) : s.spawnType env spawnId t = (false, s) := by
  unfold State.spawnType
  cases t.placed with
  | none => rfl
  | some ptr => simp [h]

theorem spawnType_free (h : s.contains spawnId = false) (t : Try) : s.spawnType env spawnId t =
    match t.placed with
    | none => (false, s)
    | some ptr => (true, s.insert env spawnId ptr) := by
  unfold State.spawnType State.insert
  cases t.placed with
  | none => rfl
  | some ptr => simp [h]

theorem spawnFunc_cases (isBlocked roll : Bool) (tries : Nat → Try) (mTypes : List MonsterType) (i : Nat) :
    State.spawnFunc env spawnId isBlocked roll tries mTypes i s = (false, s) ∨
      (s.contains spawnId = false ∧ ∃ ptr, State.spawnFunc env spawnId isBlocked roll tries mTypes i s =
        (true, s.insert env spawnId ptr)) := by
  have hone : ∀ t : Try, s.spawnType env spawnId t = (false, s) ∨
      (s.contains spawnId = false ∧ ∃ ptr, s.spawnType env spawnId t = (true, s.insert env spawnId ptr)) := by
    intro t
    cases h : s.contains spawnId with
    | true => exact .inl (spawnType_taken h t)
    | false =>
      rw [spawnType_free h]
      cases t.placed with
      | none => exact .inl rfl
      | some ptr => exact .inr ⟨rfl, ptr, rfl⟩
  induction mTypes generalizing i with
  | nil => exact .inl rfl
  | cons ty mTypes ih =>
    rw [State.spawnFunc]
    split
    · exact ih _
    split
    · exact hone _
    split
    · exact hone _
    · exact ih _

theorem spawnMonster_cases (sb : Block) (startup : Bool) : s.spawnMonster env spawnId sb startup = (false, s) ∨
    (s.contains spawnId = false ∧ ∃ ptr, s.spawnMonster env spawnId sb startup = (true, s.insert env spawnId ptr)) := by
  unfold State.spawnMonster
  dsimp only
  split
  · exact spawnFunc_cases _ _ _ _ _
  split
  · exact .inl rfl
  · exact spawnFunc_cases _ _ _ _ _

theorem spawnType_fst (h : s.contains spawnId = false) (t : Try) : (s.spawnType env spawnId t).1 = t.placed.isSome := by
  rw [spawnType_free h]
  cases t.placed <;> rfl

theorem spawnFunc_roll (h : s.contains spawnId = false) (isBlocked : Bool) (tries : Nat → Try) (mTypes : List MonsterType)
    (k : Nat) : (State.spawnFunc env spawnId isBlocked true tries mTypes k s).1 = true ↔
      ∃ i ty, mTypes[i]? = some ty ∧ (!(isBlocked && ty.isBlockable)) = true ∧ (tries (k + i)).placed.isSome = true ∧
        (tries (k + i)).roll ≤ ty.chance := by
  induction mTypes generalizing k with
  | nil => simp [State.spawnFunc]
  | cons ty mTypes ih =>
    have hrest := ih (k + 1)
    simp only [Nat.add_right_comm k 1, Nat.add_assoc] at hrest
    rw [← Nat.or_exists_add_one]
    simp only [getElem?_cons_zero, getElem?_cons_succ, Option.some.injEq, exists_eq_left', Nat.add_zero]
    rw [State.spawnFunc]
    cases hb : isBlocked && ty.isBlockable with
    | true =>
      rw [if_pos rfl, hrest]
      simp
    | false =>
      rw [if_neg Bool.false_ne_true, if_neg (by simp), spawnType_fst h]
      split
      · next htry =>
        rw [spawnType_fst h]
        simp only [Bool.and_eq_true, decide_eq_true_eq, ge_iff_le] at htry
        simp [htry]
      · next htry =>
        grind

theorem spawnFunc_noRoll (h : s.contains spawnId = false) (isBlocked : Bool) (tries : Nat → Try) (mTypes : List MonsterType)
    (k : Nat) : (State.spawnFunc env spawnId isBlocked false tries mTypes k s).1 = true ↔
      ∃ i, mTypes.findIdx? (fun ty => !(isBlocked && ty.isBlockable)) = some i ∧ (tries (k + i)).placed.isSome = true := by
  induction mTypes generalizing k with
  | nil => simp [State.spawnFunc]
  | cons ty mTypes ih =>
    rw [State.spawnFunc, findIdx?_cons]
    cases hb : isBlocked && ty.isBlockable with
    | true =>
      rw [if_pos rfl, ih (k + 1)]
      simp [Nat.add_assoc, Nat.add_comm 1]
    | false =>
      rw [if_neg Bool.false_ne_true, if_pos (by simp), spawnType_fst h]
      simp

theorem spawnFunc_first (h : s.contains spawnId = false) (isBlocked : Bool) (tries : Nat → Try) (mTypes : List MonsterType) :
    (State.spawnFunc env spawnId isBlocked (mTypes.length > 1) tries mTypes 0 s).1 = true ↔
      ∃ i ty, mTypes[i]? = some ty ∧ (!(isBlocked && ty.isBlockable)) = true ∧ (tries i).placed.isSome = true ∧
        (mTypes.length > 1 → (tries i).roll ≤ ty.chance) := by
  by_cases hfew : mTypes.length > 1
  · have hroll := @spawnFunc_roll env s spawnId h isBlocked tries mTypes 0
    simpa [hfew] using hroll
  have hone := @spawnFunc_noRoll env s spawnId h isBlocked tries mTypes 0
  simp only [hfew, decide_false, hone, Nat.zero_add, false_implies, and_true]
  rcases mTypes with - | ⟨ty, - | ⟨ty', mTypes⟩⟩
  · simp
  · have hget : ∀ i ty', [ty][i]? = some ty' ↔ i = 0 ∧ ty' = ty := by
      intro i ty'
      cases i with
      | zero => simp [eq_comm]
      | succ i => simp
    simp only [hget, findIdx?_cons]
    cases hb : isBlocked && ty.isBlockable with
    | true => simp [hb]
    | false => simp [hb]
  · exact absurd (by simp) hfew

theorem spawnMonster_iff (h : s.contains spawnId = false) (sb : Block) (startup : Bool) :
    (s.spawnMonster env spawnId sb startup).1 = true ↔ Placed env spawnId sb startup := by
  unfold State.spawnMonster Placed
  dsimp only
  generalize (!startup && env.findPlayer spawnId) = isBlocked
  have hfirst := @spawnFunc_first env s spawnId h isBlocked (env.tries spawnId) sb.mTypes
  have hsecond := @spawnFunc_noRoll env s spawnId h isBlocked (fun i => env.tries spawnId (sb.mTypes.length + i)) sb.mTypes 0
  simp only [Nat.zero_add] at hsecond
  rw [← hfirst, ← hsecond]
  split
  · next ht => simp [ht]
  next ht =>
  split
  · next hall =>
    -- every type is blocked
    have hnone : sb.mTypes.findIdx? (fun ty => !(isBlocked && ty.isBlockable)) = none := by
      rw [findIdx?_eq_none_iff]
      intro ty hty
      simp [countP_eq_length.mp hall.symm ty hty]
    rw [hsecond, hnone]
    simpa using ht
  · simp [ht]

/-! ## What every step keeps -/

def State.ids (s : State) : List Nat := s.spawnMap.map (·.1)

structure Inv (s : State) : Prop where
  blocks : s.ids.Nodup
  single : (s.spawnedMap.map (·.1)).Nodup
  known : ∀ m ∈ s.spawnedMap, m.1 ∈ s.ids
  chains : ∀ e ∈ s.pendingSpawnEvents, e.spawnId ∈ s.ids ∧ ∀ id interval, e = .next id interval → 0 < interval

@[simp] theorem setBlock_ids (id : Nat) (f : Block → Block) : (s.setBlock id f).ids = s.ids := by
  unfold State.setBlock State.ids
  rw [map_map]
  refine map_congr_left fun b _ => ?_
  grind

theorem Inv.of_ids (h : Inv s) {s' : State} (hi : s'.ids = s.ids) (hm : s'.spawnedMap.Sublist s.spawnedMap)
    (hp : ∀ e ∈ s'.pendingSpawnEvents, e ∈ s.pendingSpawnEvents) : Inv s' :=
  ⟨hi ▸ h.blocks, h.single.sublist (hm.map _), fun m h' => hi ▸ h.known m (hm.subset h'),
    fun e he => hi ▸ h.chains e (hp e he)⟩

theorem Inv.setBlock (h : Inv s) (id : Nat) (f : Block → Block) : Inv (s.setBlock id f) :=
  h.of_ids (setBlock_ids id f) (List.Sublist.refl _) fun _ he => he

theorem contains_iff (id : Nat) : s.contains id = true ↔ id ∈ s.spawnedMap.map (·.1) := by
  unfold State.contains
  rw [any_eq_true, mem_map]
  simp

theorem Inv.insert (h : Inv s) (hid : spawnId ∈ s.ids) (hfree : s.contains spawnId = false) (ptr : Nat) :
    Inv (s.insert env spawnId ptr) := by
  refine Inv.setBlock (s := { s with spawnedMap := (spawnId, { ptr }) :: s.spawnedMap }) ⟨h.blocks, ?_, ?_, h.chains⟩ _ _
  · refine nodup_cons.mpr ⟨fun hin => ?_, h.single⟩
    rw [(contains_iff spawnId).mpr hin] at hfree
    cases hfree
  · intro m hm
    rcases mem_cons.mp hm with rfl | hm
    · exact hid
    · exact h.known m hm

/-- What a `spawnMonster` leaves as it was, and what it brings. -/
structure Spawned (env : Env) (s : State) (spawnId : Nat) (placed : Prop) (s' : State) : Prop where
  inv : Inv s'
  ids : s'.ids = s.ids
  check : s'.checkSpawnEvent = s.checkSpawnEvent
  pending : s'.pendingSpawnEvents = s.pendingSpawnEvents
  contains : ∀ id, s'.contains id = true ↔ s.contains id = true ∨ (id = spawnId ∧ placed)
  living : ∀ id, s'.living id = true ↔ s.living id = true ∨ (id = spawnId ∧ s.contains id = false ∧ placed)
  alive : (∀ m ∈ s.spawnedMap, m.2.removed = false) → ∀ m ∈ s'.spawnedMap, m.2.removed = false

theorem insert_contains (ptr id : Nat) : (s.insert env spawnId ptr).contains id = (decide (spawnId = id) || s.contains id) := rfl

theorem insert_living (ptr id : Nat) : (s.insert env spawnId ptr).living id = (decide (spawnId = id) || s.living id) := by
  show ((decide (spawnId = id) && true) || s.living id) = _
  rw [Bool.and_true]

theorem spawnMonster_spawned (h : Inv s) (hid : spawnId ∈ s.ids) (sb : Block) (startup : Bool) :
    Spawned env s spawnId (Placed env spawnId sb startup) (s.spawnMonster env spawnId sb startup).2 := by
  rcases @spawnMonster_cases env s spawnId sb startup with he | ⟨hfree, ptr, he⟩
  · have hnot : s.contains spawnId = false → ¬Placed env spawnId sb startup := by
      intro hfree hp
      have := (spawnMonster_iff hfree sb startup).mpr hp
      rw [he] at this
      cases this
    rw [he]
    refine ⟨h, rfl, rfl, rfl, fun id => ⟨.inl, ?_⟩, fun id => ⟨.inl, ?_⟩, id⟩
    · grind
    · grind
  · have hp : Placed env spawnId sb startup := (spawnMonster_iff hfree sb startup).mp (by rw [he])
    rw [he]
    refine ⟨h.insert hid hfree ptr, setBlock_ids _ _, rfl, rfl, fun id => ?_, fun id => ?_, fun ha m hm => ?_⟩
    · rw [insert_contains, Bool.or_eq_true, decide_eq_true_iff]
      grind
    · rw [insert_living, Bool.or_eq_true, decide_eq_true_iff]
      grind
    · rcases mem_cons.mp hm with rfl | hm
      · rfl
      · exact ha m hm

theorem startup_spawned (h : Inv s) {blocks : List (Nat × Block)} (hb : ∀ b ∈ blocks, b.1 ∈ s.ids)
    (hd : (blocks.map (·.1)).Nodup) :
    let s' := blocks.foldl (fun s b => (s.spawnMonster env b.1 b.2 true).2) s
    Inv s' ∧ s'.ids = s.ids ∧ s'.checkSpawnEvent = s.checkSpawnEvent ∧ s'.pendingSpawnEvents = s.pendingSpawnEvents ∧
      ∀ id, s'.living id = true ↔ s.living id = true ∨
        (s.contains id = false ∧ ∃ b ∈ blocks, b.1 = id ∧ Placed env b.1 b.2 true) := by
  induction blocks generalizing s with
  | nil => exact ⟨h, rfl, rfl, rfl, fun id => by simp⟩
  | cons b blocks ih =>
    rw [map_cons, nodup_cons] at hd
    have hone := @spawnMonster_spawned env s b.1 h (hb b mem_cons_self) b.2 true
    obtain ⟨hinv, hids, hcheck, hpending, hliving⟩ := ih hone.inv
      (fun c hc => hone.ids ▸ hb c (mem_cons_of_mem _ hc)) hd.2
    refine ⟨hinv, hids.trans hone.ids, hcheck.trans hone.check, hpending.trans hone.pending, fun id => ?_⟩
    refine (hliving id).trans ?_
    simp only [hone.living, Bool.eq_false_iff, ne_eq, hone.contains]
    have hother : (∃ c ∈ blocks, c.1 = id ∧ Placed env c.1 c.2 true) → b.1 ≠ id := by
      rintro ⟨c, hc, rfl, -⟩ he
      exact hd.1 (mem_map.mpr ⟨c, hc, he.symm⟩)
    constructor
    · rintro ((hl | ⟨rfl, hfree, hp⟩) | ⟨hfree, c, hc, hp⟩)
      · exact .inl hl
      · exact .inr ⟨hfree, b, mem_cons_self, rfl, hp⟩
      · exact .inr ⟨fun hin => hfree (.inl hin), c, mem_cons_of_mem _ hc, hp⟩
    · rintro (hl | ⟨hfree, c, hc, hp⟩)
      · exact .inl (.inl hl)
      rcases mem_cons.mp hc with rfl | hc
      · exact .inl (.inr ⟨hp.1.symm, hp.1 ▸ hfree, hp.2⟩)
      · have hne := hother ⟨c, hc, hp⟩
        exact .inr ⟨fun hin => hin.elim hfree fun h => hne h.1.symm, c, hc, hp⟩

def Alive (s : State) : Prop := ∀ m ∈ s.spawnedMap, m.2.removed = false

theorem fed_iff : Fed s ↔ ∀ id ∈ s.ids, s.living id = true ∨ s.checkSpawnEvent = true ∨ s.chainPending id = true := by
  unfold Fed State.ids
  simp

theorem find_block (hd : s.ids.Nodup) (hid : spawnId ∈ s.ids) : ∃ sb, s.spawnMap.find? (·.1 = spawnId) = some (spawnId, sb) ∧
    ∀ b ∈ s.spawnMap, b.1 = spawnId → b.2 = sb := by
  obtain ⟨b, hb, hp⟩ := mem_map.mp hid
  cases hf : s.spawnMap.find? (·.1 = spawnId) with
  | none =>
    have := find?_eq_none.mp hf b hb
    simp [hp] at this
  | some c =>
    have hc : c.1 = spawnId := of_decide_eq_true (@find?_some _ (fun b => decide (b.1 = spawnId)) c s.spawnMap hf)
    refine ⟨c.2, by rw [← hc], fun b' hb' hp' => ?_⟩
    rw [inj_on_of_nodup_map hd hb' (mem_of_find?_eq_some hf) (hp'.trans hc.symm)]

theorem spawnNow (h : Inv s) (hid : spawnId ∈ s.ids) (sb : Block) (f : Block → Block) :
    Spawned env s spawnId (Placed env spawnId sb false) ((s.spawnMonster env spawnId sb false).2.setBlock spawnId f) := by
  have hs := @spawnMonster_spawned env s spawnId h hid sb false
  exact { hs with inv := hs.inv.setBlock _ _, ids := (setBlock_ids _ _).trans hs.ids }

theorem Inv.pend (h : Inv s) {e : Chain} (he : e.spawnId ∈ s.ids) (hpos : ∀ id interval, e = .next id interval → 0 < interval) :
    Inv { s with pendingSpawnEvents := s.pendingSpawnEvents ++ [e] } := by
  refine { h with chains := fun e' he' => ?_ }
  rcases mem_append.mp he' with he' | he'
  · exact h.chains e' he'
  · rw [mem_singleton] at he'
    subst he'
    exact ⟨he, hpos⟩

theorem scheduleSpawn_wait (h : Inv s) (hid : spawnId ∈ s.ids) {interval : Nat} (hw : 0 < interval) :
    ∃ e : Chain, e.spawnId = spawnId ∧ (∀ id interval, e = .next id interval → 0 < interval) ∧
      s.scheduleSpawn env spawnId interval = { s with pendingSpawnEvents := s.pendingSpawnEvents ++ [e] } := by
  obtain ⟨sb, hf, -⟩ := find_block h.blocks hid
  unfold State.scheduleSpawn
  rw [hf]
  dsimp only
  rw [if_pos hw]
  split
  · next hlt =>
    refine ⟨.next spawnId _, rfl, fun id k he => ?_, rfl⟩
    cases he
    exact Nat.sub_pos_of_lt hlt
  · exact ⟨.last spawnId, rfl, nofun, rfl⟩

theorem scheduleSpawn_kept (h : Inv s) (hid : spawnId ∈ s.ids) (ha : Alive s) (interval : Nat) :
    let s' := s.scheduleSpawn env spawnId interval
    Inv s' ∧ s'.ids = s.ids ∧ Alive s' := by
  by_cases hw : 0 < interval
  · obtain ⟨e, he, hpos, hs⟩ := @scheduleSpawn_wait env s spawnId h hid interval hw
    rw [hs]
    exact ⟨h.pend (he ▸ hid) hpos, rfl, ha⟩
  obtain ⟨sb, hf, -⟩ := find_block h.blocks hid
  unfold State.scheduleSpawn
  rw [hf]
  dsimp only
  rw [if_neg hw]
  have hs := @spawnNow env s spawnId h hid sb fun b => { b with effectInitialInterval := 0 }
  exact ⟨hs.inv, hs.ids, hs.alive ha⟩

theorem cleanup_ids : s.cleanup.ids = s.ids := by
  unfold State.cleanup State.ids
  rw [map_map]
  refine map_congr_left fun b _ => ?_
  simp only [Function.comp]
  split <;> rfl

theorem Inv.cleanup (h : Inv s) : Inv s.cleanup := h.of_ids cleanup_ids filter_sublist fun _ he => he

theorem cleanup_alive : Alive s.cleanup := by
  intro m hm
  simpa using (mem_filter.mp hm).2

theorem checkBlocks_kept {blocks : List (Nat × Block)} (hb : ∀ b ∈ blocks, b.1 ∈ s.ids) (h : Inv s) (ha : Alive s)
    (spawnCount : Nat) : let s' := State.checkBlocks env blocks spawnCount s
    Inv s' ∧ s'.ids = s.ids ∧ Alive s' := by
  induction blocks generalizing s spawnCount with
  | nil => exact ⟨h, rfl, ha⟩
  | cons b blocks ih =>
    obtain ⟨spawnId, sb⟩ := b
    have hid : spawnId ∈ s.ids := hb _ mem_cons_self
    have hnext : ∀ {s' : State}, Inv s' → s'.ids = s.ids → Alive s' → ∀ count,
        let t := State.checkBlocks env blocks count s'
        Inv t ∧ t.ids = s.ids ∧ Alive t := by
      intro s' h' hi ha' count
      obtain ⟨hinv, hids, halive⟩ := @ih s' (fun c hc => hi ▸ hb c (mem_cons_of_mem _ hc)) h' ha' count
      exact ⟨hinv, hids.trans hi, halive⟩
    rw [State.checkBlocks]
    split
    · exact hnext h rfl ha _
    split
    · split
      · -- the chain starts unless it has started
        have hchain : ∀ s' : State, (s' = if sb.effectInitialInterval = 0 then
            ((s.setBlock spawnId fun b => { b with effectInitialInterval := env.startInterval }).scheduleSpawn env spawnId
              env.startInterval).setBlock spawnId fun b => { b with lastSpawn := env.now }
            else s) → Inv s' ∧ s'.ids = s.ids ∧ Alive s' := by
          rintro s' rfl
          split
          · have hset : (s.setBlock spawnId fun b => { b with effectInitialInterval := env.startInterval }).ids = s.ids :=
              setBlock_ids _ _
            obtain ⟨hinv, hids, halive⟩ := @scheduleSpawn_kept env _ spawnId (h.setBlock spawnId _) (hset ▸ hid) ha
              env.startInterval
            exact ⟨hinv.setBlock _ _, (setBlock_ids _ _).trans (hids.trans hset), halive⟩
          · exact ⟨h, rfl, ha⟩
        obtain ⟨hinv, hids, halive⟩ := hchain _ rfl
        dsimp only
        split
        · exact ⟨hinv, hids, halive⟩
        · exact hnext hinv hids halive _
      split
      · exact hnext (h.setBlock _ _) (setBlock_ids _ _) ha _
      have hs := @spawnMonster_spawned env s spawnId h hid sb false
      split
      · exact ⟨hs.inv, hs.ids, hs.alive ha⟩
      · exact hnext hs.inv hs.ids (hs.alive ha) _
    · exact hnext h rfl ha _

/-- A check leaves every block with a living monster or comes again. -/
theorem checkSpawn_fed (h : Inv s) : Inv (s.checkSpawn env) ∧ Fed (s.checkSpawn env) := by
  let s₀ : State := { s with checkSpawnEvent := false }
  have h₀ : Inv s₀ := { h with }
  obtain ⟨hinv, -, halive⟩ := @checkBlocks_kept env s₀.cleanup s₀.cleanup.spawnMap
    (fun b hb => mem_map_of_mem hb) h₀.cleanup cleanup_alive 0
  unfold State.checkSpawn
  dsimp only
  split
  · exact ⟨{ hinv with }, fun b _ => .inr (.inl rfl)⟩
  next hfull =>
  refine ⟨hinv, fed_iff.mpr fun id hid => .inl ?_⟩
  generalize State.checkBlocks env s₀.cleanup.spawnMap 0 s₀.cleanup = t at *
  have hsub : (t.spawnedMap.map (·.1)).Subperm t.ids := by
    refine subperm_of_subset hinv.single fun id hin => ?_
    obtain ⟨m, hm, rfl⟩ := mem_map.mp hin
    exact hinv.known m hm
  have hperm : (t.spawnedMap.map (·.1)).Perm t.ids := by
    refine hsub.perm_of_length_le ?_
    rw [State.ids, length_map, length_map]
    exact Nat.le_of_not_lt hfull
  obtain ⟨m, hm, rfl⟩ := mem_map.mp (hperm.mem_iff.mpr hid)
  exact any_eq_true.mpr ⟨m, hm, by simp [halive m hm]⟩

theorem watched_comm {l p c w : Prop} : (l ∨ p ∨ c ∨ w) ↔ (l ∨ c ∨ w ∨ p) := by
  rw [or_comm (a := p), or_assoc]

theorem startup_step (h : Inv s) : Inv (s.startup env) ∧ (Fed (s.startup env) ↔ Feeds s (.startup env)) := by
  obtain ⟨hinv, hids, hcheck, hpending, hliving⟩ := @startup_spawned env s h s.spawnMap
    (fun b hb => mem_map_of_mem hb) h.blocks
  refine ⟨hinv, ?_⟩
  rw [fed_iff]
  rw [show (s.startup env).ids = s.ids from hids]
  have hone : ∀ b ∈ s.spawnMap, (∃ c ∈ s.spawnMap, c.1 = b.1 ∧ Placed env c.1 c.2 true) ↔ Placed env b.1 b.2 true := by
    intro b hb
    constructor
    · rintro ⟨c, hc, he, hp⟩
      rwa [inj_on_of_nodup_map h.blocks hc hb he] at hp
    · exact fun hp => ⟨b, hb, rfl, hp⟩
  have hat : ∀ b ∈ s.spawnMap, ((s.startup env).living b.1 = true ∨ (s.startup env).checkSpawnEvent = true ∨
      (s.startup env).chainPending b.1 = true) ↔ (s.living b.1 = true ∨ s.checkSpawnEvent = true ∨ s.chainPending b.1 = true ∨
        (s.contains b.1 = false ∧ Placed env b.1 b.2 true)) := by
    intro b hb
    have hl : (s.startup env).living b.1 = true ↔ s.living b.1 = true ∨ (s.contains b.1 = false ∧ _) := hliving b.1
    rw [hl, hone b hb, show (s.startup env).checkSpawnEvent = s.checkSpawnEvent from hcheck, State.chainPending,
      show (s.startup env).pendingSpawnEvents = s.pendingSpawnEvents from hpending, or_assoc]
    exact watched_comm
  constructor
  · exact fun hf b hb => (hat b hb).mp (hf b.1 (mem_map_of_mem hb))
  · intro hf id hid
    obtain ⟨b, hb, rfl⟩ := mem_map.mp hid
    exact (hat b hb).mpr (hf b hb)

theorem chainEvent_step (h : Inv s) {i : Nat} (hdue : i < s.pendingSpawnEvents.length) :
    Inv (s.chainEvent env i) ∧ (Fed (s.chainEvent env i) ↔ Feeds s (.chainEvent env i)) := by
  let s₀ : State := { s with pendingSpawnEvents := s.pendingSpawnEvents.eraseIdx i }
  have h₀ : Inv s₀ := h.of_ids rfl (List.Sublist.refl _) fun e he => (eraseIdx_sublist _ _).subset he
  have hevent := getElem?_eq_getElem hdue
  obtain ⟨hid, hpos⟩ := h.chains _ (getElem_mem hdue)
  simp only [State.chainEvent, Feeds, hevent]
  generalize s.pendingSpawnEvents[i] = event at *
  cases event with
  | next spawnId interval =>
    obtain ⟨e, he, hepos, hs⟩ := @scheduleSpawn_wait env s₀ spawnId h₀ hid interval (hpos spawnId interval rfl)
    dsimp only
    rw [hs]
    refine ⟨h₀.pend (he ▸ hid) hepos, forall₂_congr fun b hb => ?_⟩
    have hpend : State.chainPending { s₀ with pendingSpawnEvents := s₀.pendingSpawnEvents ++ [e] } b.1 = true ↔
        s₀.chainPending b.1 = true ∨ b.1 = spawnId := by
      unfold State.chainPending
      rw [any_append, Bool.or_eq_true, any_cons, any_nil, Bool.or_false, decide_eq_true_iff, he]
      exact or_congr Iff.rfl eq_comm
    rw [hpend]
    exact .rfl
  | last spawnId =>
    obtain ⟨sb, hf, hsb⟩ := find_block h₀.blocks hid
    have hs := @spawnNow env s₀ spawnId h₀ hid sb fun b => { b with effectInitialInterval := 0 }
    dsimp only
    rw [show List.find? (fun x => decide (x.1 = spawnId)) s.spawnMap = some (spawnId, sb) from hf]
    show Inv ((s₀.spawnMonster env spawnId sb false).2.setBlock spawnId fun b => { b with effectInitialInterval := 0 }) ∧
      (Fed ((s₀.spawnMonster env spawnId sb false).2.setBlock spawnId fun b => { b with effectInitialInterval := 0 }) ↔ _)
    generalize (s₀.spawnMonster env spawnId sb false).2.setBlock spawnId (fun b => { b with effectInitialInterval := 0 }) = t at *
    refine ⟨hs.inv, ?_⟩
    have hat : ∀ b ∈ s.spawnMap, (t.living b.1 = true ∨ t.checkSpawnEvent = true ∨ t.chainPending b.1 = true) ↔
        (s.living b.1 = true ∨ s.checkSpawnEvent = true ∨ s₀.chainPending b.1 = true ∨
          (b.1 = spawnId ∧ s.contains b.1 = false ∧ Placed env b.1 b.2 false)) := by
      intro b hb
      have hl : t.living b.1 = true ↔ s.living b.1 = true ∨ (b.1 = spawnId ∧ s.contains b.1 = false ∧ _) := hs.living b.1
      have hblock : (b.1 = spawnId ∧ s.contains b.1 = false ∧ Placed env spawnId sb false) ↔
          (b.1 = spawnId ∧ s.contains b.1 = false ∧ Placed env b.1 b.2 false) := by
        refine and_congr_right fun he => ?_
        rw [hsb b hb he, he]
      rw [hl, hblock, hs.check, State.chainPending, hs.pending, or_assoc]
      exact watched_comm
    rw [fed_iff, hs.ids]
    constructor
    · exact fun hfed b hb => (hat b hb).mp (hfed b.1 (mem_map_of_mem hb))
    · intro hfed id hid
      obtain ⟨b, hb, rfl⟩ := mem_map.mp hid
      exact (hat b hb).mpr (hfed b hb)

end

variable {s : State}

theorem Inv.single_living (h : Inv s) : Single s := by
  intro spawnId
  have hsub : ((s.spawnedMap.filter fun m => m.1 = spawnId && !m.2.removed).map (·.1)).Sublist (s.spawnedMap.map (·.1)) :=
    filter_sublist.map _
  have hnd := h.single.sublist hsub
  have hall : ∀ id ∈ (s.spawnedMap.filter fun m => m.1 = spawnId && !m.2.removed).map (·.1), id = spawnId := by
    intro id hid
    obtain ⟨m, hm, rfl⟩ := mem_map.mp hid
    have := (mem_filter.mp hm).2
    simp only [Bool.and_eq_true, decide_eq_true_eq] at this
    exact this.1
  rw [← length_map (·.1)]
  generalize (s.spawnedMap.filter fun m => m.1 = spawnId && !m.2.removed).map (·.1) = l at *
  match l, hnd, hall with
  | [], _, _ => exact Nat.zero_le _
  | [_], _, _ => exact le_rfl
  | a :: b :: l, hnd, hall =>
    have ha := hall a mem_cons_self
    have hb := hall b (mem_cons_of_mem _ mem_cons_self)
    exact absurd mem_cons_self (ha.trans hb.symm ▸ (nodup_cons.mp hnd).1)

theorem Inv.startSpawnCheck (h : Inv s) : Inv s.startSpawnCheck := by
  unfold State.startSpawnCheck
  split
  · exact h
  · exact { h with }

theorem creatureRemoved_step (h : Inv s) (ptr : Nat) (time : Int) :
    Inv (s.creatureRemoved ptr time) ∧ Fed (s.creatureRemoved ptr time) := by
  unfold State.creatureRemoved
  constructor
  · refine Inv.startSpawnCheck ⟨h.blocks, ?_, ?_, h.chains⟩
    · rw [map_map]
      have hkeys : s.spawnedMap.map ((·.1) ∘ fun m => if m.2.ptr = ptr then
          (m.1, { m.2 with removed := true, removedTime := time }) else m) = s.spawnedMap.map (·.1) := by
        refine map_congr_left fun m _ => ?_
        grind
      exact hkeys ▸ h.single
    · intro m hm
      obtain ⟨m', hm', rfl⟩ := mem_map.mp hm
      have := h.known m' hm'
      split
      · exact this
      · exact this
  · intro b _
    grind [State.startSpawnCheck]

/-! ## Runs -/

/-- Every step but a `removeMonster` leaves every block watched. -/
def FedAfter (e : Ev) (s : State) : Prop :=
  match e with
  | .removeMonster _ => True
  | _ => Fed s

theorem step_inv {e : Ev} (hdue : Due s e) (h : Inv s) : Inv (step s e) := by
  cases e with
  | startup env => exact (startup_step h).1
  | creatureRemoved ptr time => exact (creatureRemoved_step h ptr time).1
  | removeMonster ptr => exact h.of_ids rfl (eraseP_sublist) fun _ he => he
  | checkSpawn env => exact (checkSpawn_fed h).1
  | chainEvent env i => exact (chainEvent_step h hdue).1

theorem step_fed_iff {e : Ev} (hdue : Due s e) (h : Inv s) : FedAfter e (step s e) ↔ Feeds s e := by
  cases e with
  | startup env => exact (startup_step h).2
  | creatureRemoved ptr time => exact iff_of_true (creatureRemoved_step h ptr time).2 trivial
  | removeMonster ptr => exact .rfl
  | checkSpawn env => exact iff_of_true (checkSpawn_fed h).2 trivial
  | chainEvent env i => exact (chainEvent_step h hdue).2

def Loaded (s : State) : Prop := s.ids.Nodup ∧ s.spawnedMap = [] ∧ s.checkSpawnEvent = false ∧ s.pendingSpawnEvents = []

/-- In every run no block has two living monsters, and every block is watched after each step
    but a `removeMonster` exactly when every start and every end of a chain `Feeds`. -/
theorem spawns_fed (s : State) (hs : Loaded s) (es : List Ev) (hdue : Allowed step Due s es) :
    (∀ k ≤ es.length, Single (run step s (es.take k))) ∧
      ((∀ k, (hk : k < es.length) → FedAfter (es.get ⟨k, hk⟩) (run step s (es.take (k + 1)))) ↔ Allowed step Feeds s es) := by
  obtain ⟨hids, hmonsters, -, hpending⟩ := hs
  have hinv : Inv s := ⟨hids, by simp [hmonsters], by simp [hmonsters], by simp [hpending]⟩
  have hkept : ∀ s e, Due s e → Inv s → Inv (step s e) := fun _ _ hd h => step_inv hd h
  refine ⟨fun k _ => ?_, steps_iff_allowed hkept (fun _ _ hd h => step_fed_iff hd h) hinv hdue⟩
  have htake : Allowed step Due s (es.take k) := by
    rw [← take_append_drop k es] at hdue
    exact (allowed_append.mp hdue).1
  have hreach : Reach (Eq s) step Due (run step s (es.take k)) := Reach.run (Reach.init rfl) htake
  refine Inv.single_living (Reach.inv (I := Inv) ?_ hkept hreach)
  rintro _ rfl
  exact hinv

def rat : MonsterType := { isBlockable := false, chance := 100 }

def rats : State := { spawnMap := [(1, { mTypes := [rat], interval := 60 * 1000 })] }

def finds (ptr : Option Nat) : Env := { now := 0, tries := fun _ _ => { placed := ptr } }

/-- A rat that dies is waited for. -/
theorem rat_watched : FedAfter (.creatureRemoved 7 0) (run step rats [.startup (finds (some 7)), .creatureRemoved 7 0]) := by
  refine (spawns_fed rats ⟨by decide, rfl, rfl, rfl⟩ [.startup (finds (some 7)), .creatureRemoved 7 0] ?_).2.mpr ?_ 1
    (by decide)
  · exact ⟨trivial, trivial, trivial⟩
  · refine ⟨fun b hb => ?_, trivial, trivial⟩
    rw [mem_singleton.mp hb]
    exact .inr (.inr (.inr ⟨rfl, .inl ⟨0, rat, rfl, rfl, rfl, by decide⟩⟩))

/-- A start that finds no place leaves the block alone for good. -/
theorem start_unwatched : ¬∀ (s : State), Loaded s → ∀ es : List Ev, Allowed step Due s es →
    ∀ k, (hk : k < es.length) → FedAfter (es.get ⟨k, hk⟩) (run step s (es.take (k + 1))) := by
  intro h
  have hfed := h rats ⟨by decide, rfl, rfl, rfl⟩ [.startup (finds none)] ⟨trivial, trivial⟩ 0 (by decide)
  have hblock := hfed (1, { mTypes := [rat], interval := 60 * 1000 }) mem_cons_self
  rcases hblock with hl | hc | hp
  · exact absurd hl (by decide)
  · exact absurd hc (by decide)
  · exact absurd hp (by decide)

end Backlands.Creatures.Spawn
