/-
  Backlands.Creatures.Walk — the callback that makes a creature walk (src/creature.cpp).

  A creature that walks has a callback on the scheduler; `eventWalk` is its identifier, and
  `walkGeneration`, which every stop raises, is written into it. When the callback runs it may find
  that the game stopped the creature and set it walking again from inside, and then leaves the new
  callback alone; otherwise it makes the next one. The calls the game makes while it moves a
  creature are any, and so are its speeds and delays. The reactor gives a callback an identifier
  that no scheduled one has, or none, and may drop a cancellation.

  `walkGeneration` has 32 bits. Proved: `one_walk_callback`, as long as no callback is stopped 2^32
  times while it is scheduled or runs, at most one scheduled callback carries the generation of the
  creature, and after a callback `eventWalk` is 0 or the identifier of that one; `stopped_around`,
  that a creature stopped 2^32 times from inside has two.
-/

import Backlands.World.PathSearch

namespace Backlands.Creatures

open Backlands.Lib List
open World (Direction)

/-- A scheduled call of `checkCreatureWalk`. -/
structure Callback where
  id : Nat
  generation : UInt32
  /-- Ghost: the `stops` of the creature when it was scheduled. -/
  armed : Nat

structure Creature where
  isPlayer : Bool := false
  listWalkDir : List Direction := []
  eventWalk : Nat := 0
  walkGeneration : UInt32 := 0
  cancelNextWalk : Bool := false
  movementBlocked : Bool := false
  speed : Int := 0
  /-- `Player::walkTask` is set. -/
  walkTask : Bool := false
  /-- Ghost: how often the creature was stopped. -/
  stops : Nat := 0
  scheduled : List Callback := []

/-- What the rest of the server answers to `addEventWalk`. -/
structure Timing where
  stepSpeed : Int
  eventStepTicks : Bool → Int
  /-- What `schedule` hands out. -/
  identifier : Nat

namespace Creature

/-- `g_scheduler.addEvent`: an identifier in use is never handed out, and 0 is a refusal. -/
def addEvent (t : Timing) (c : Creature) : Creature :=
  if t.identifier = 0 ∨ t.identifier ∈ c.scheduled.map Callback.id then { c with eventWalk := 0 }
  else { c with
    eventWalk := t.identifier
    scheduled := c.scheduled ++ [⟨t.identifier, c.walkGeneration, c.stops⟩] }

def stopEvent (id : Nat) (dropped : Bool) (c : Creature) : Creature :=
  if dropped then c else { c with scheduled := c.scheduled.filter fun callback => callback.id ≠ id }

def addEventWalk (firstStep : Bool) (t : Timing) (c : Creature) : Creature :=
  let c := { c with cancelNextWalk := false }
  if t.stepSpeed ≤ 0 then c
  else if c.eventWalk ≠ 0 then c
  else if t.eventStepTicks firstStep ≤ 0 then c
  else c.addEvent t

def stopEventWalk (dropped : Bool) (c : Creature) : Creature :=
  let c := { c with walkGeneration := c.walkGeneration + 1, stops := c.stops + 1 }
  if c.eventWalk ≠ 0 then { c.stopEvent c.eventWalk dropped with eventWalk := 0 } else c

def startAutoWalk (t : Timing) (c : Creature) : Creature :=
  if c.movementBlocked then c else c.addEventWalk (c.listWalkDir.length == 1) t

def startAutoWalkDirection (direction : Direction) (t : Timing) (c : Creature) : Creature :=
  if c.movementBlocked then c else { c with listWalkDir := [direction] }.addEventWalk true t

def startAutoWalkList (listDir : List Direction) (t : Timing) (c : Creature) : Creature :=
  if c.movementBlocked then c else { c with listWalkDir := listDir }.addEventWalk (listDir.length == 1) t

def setSpeed (speed : Int) (t : Timing) (dropped : Bool) (c : Creature) : Creature :=
  let oldSpeed := c.speed
  let c := { c with speed := speed }
  if c.speed ≤ 0 then { c.stopEventWalk dropped with cancelNextWalk := true }
  else if oldSpeed ≤ 0 ∧ c.listWalkDir ≠ [] then c.addEventWalk false t
  else c

def shouldScheduleWalkCompletion (c : Creature) : Bool := !c.isPlayer || c.walkTask

end Creature

/-- What the game does to a creature that walks. -/
inductive Call where
  | startAutoWalk (t : Timing)
  | startAutoWalkDirection (direction : Direction) (t : Timing)
  | startAutoWalkList (listDir : List Direction) (t : Timing)
  | addEventWalk (firstStep : Bool) (t : Timing)
  | stopEventWalk (dropped : Bool)
  | setSpeed (speed : Int) (t : Timing) (dropped : Bool)
  | setMovementBlocked (state : Bool)
  | stopWalk
  /-- Other code that touches the way, the walk task or the base speed. -/
  | change (listWalkDir : List Direction) (walkTask : Bool) (speed : Int)

namespace Creature

def call (c : Creature) : Call → Creature
  | .startAutoWalk t => c.startAutoWalk t
  | .startAutoWalkDirection direction t => c.startAutoWalkDirection direction t
  | .startAutoWalkList listDir t => c.startAutoWalkList listDir t
  | .addEventWalk firstStep t => c.addEventWalk firstStep t
  | .stopEventWalk dropped => c.stopEventWalk dropped
  | .setSpeed speed t dropped => c.setSpeed speed t dropped
  | .setMovementBlocked state => { c with movementBlocked := state, cancelNextWalk := true }
  | .stopWalk => { c with cancelNextWalk := true }
  | .change listWalkDir walkTask speed => { c with listWalkDir := listWalkDir, walkTask := walkTask, speed := speed }

def calls (l : List Call) (c : Creature) : Creature := l.foldl call c

theorem calls_append (l l' : List Call) (c : Creature) : c.calls (l ++ l') = (c.calls l).calls l' := foldl_append

end Creature

/-- The ways of `getNextStep`. -/
inductive NextStep where
  /-- `Creature::getNextStep`, with what `onWalk(dir)` does. -/
  | creature (onWalk : List Call)
  /-- A monster that is blocked or idle. -/
  | blocked
  /-- The other ways of monsters and NPCs. -/
  | other (l : List Call) (found : Bool)

/-- What a callback meets. -/
structure Turn where
  /-- `getWalkDelay()` is above 0. -/
  delayed : Bool
  nextStep : NextStep
  internalMoveCreature : List Call
  onWalkComplete : List Call
  onWalkAborted : List Call
  dropped : Bool
  timing : Timing

namespace Creature

def getNextStep (c : Creature) : NextStep → Bool × Creature
  | .creature onWalk =>
    if c.listWalkDir = [] then (false, c) else (true, { c with listWalkDir := c.listWalkDir.dropLast }.calls onWalk)
  | .blocked => (false, { c with eventWalk := 0 })
  | .other l found => (found, c.calls l)

/-- The part of `onWalk` for a creature that may step. -/
def walk (turn : Turn) (c : Creature) : Creature :=
  let (found, c) := c.getNextStep turn.nextStep
  if found then c.calls turn.internalMoveCreature
  else
    let c := c.stopEventWalk turn.dropped
    if c.listWalkDir = [] then c.calls turn.onWalkComplete else c

/-- The part of `onWalk` for a walk that is cancelled. -/
def abort (turn : Turn) (c : Creature) : Creature :=
  if c.cancelNextWalk then { { c with listWalkDir := [] }.calls turn.onWalkAborted with cancelNextWalk := false } else c

/-- The end of `onWalk`. -/
def rearm (generationAtEntry : UInt32) (turn : Turn) (c : Creature) : Creature :=
  if c.walkGeneration = generationAtEntry ∧ c.eventWalk ≠ 0 then
    if c.listWalkDir = [] ∧ !c.shouldScheduleWalkCompletion then c.stopEventWalk turn.dropped
    else { c with eventWalk := 0 }.addEventWalk false turn.timing
  else c

def onWalk (turn : Turn) (c : Creature) : Creature :=
  ((if turn.delayed then c else c.walk turn).abort turn).rearm c.walkGeneration turn

/-- `Game::checkCreatureWalk`; a creature that is removed or dead is not `alive`. -/
def checkCreatureWalk (generation : UInt32) (alive : Bool) (turn : Turn) (c : Creature) : Creature :=
  if c.walkGeneration = generation ∧ alive then c.onWalk turn else c

end Creature

inductive Event where
  | call (call : Call)
  /-- The `i`-th callback is taken off the scheduler and runs. -/
  | fire (i : Nat) (alive : Bool) (turn : Turn)

def step (c : Creature) : Event → Creature
  | .call call => c.call call
  | .fire i alive turn =>
    match c.scheduled[i]? with
    | none => c
    | some callback => { c with scheduled := c.scheduled.eraseIdx i }.checkCreatureWalk callback.generation alive turn

def start (c : Creature) : Prop := c.eventWalk = 0 ∧ c.walkGeneration = 0 ∧ c.stops = 0 ∧ c.scheduled = []

/-- No callback is stopped 2^32 times while it is scheduled or runs. -/
def Recent (c : Creature) (e : Event) : Prop := ∀ callback ∈ c.scheduled, (step c e).stops < callback.armed + 2 ^ 32

def Creature.current (c : Creature) : List Callback :=
  c.scheduled.filter fun callback => callback.generation = c.walkGeneration

/-! ## One callback -/

section

variable {c c' c'' : Creature}

structure Inv (c : Creature) : Prop where
  generation : c.walkGeneration = UInt32.ofNat c.stops
  stamped : ∀ callback ∈ c.scheduled, callback.generation = UInt32.ofNat callback.armed ∧ callback.armed ≤ c.stops
  distinct : (c.scheduled.map Callback.id).Nodup
  nonzero : ∀ callback ∈ c.scheduled, callback.id ≠ 0
  current : ∀ callback ∈ c.scheduled, callback.armed = c.stops → callback.id = c.eventWalk

/-- `eventWalk` is 0 or a callback of now. -/
def Tracked (c : Creature) : Prop :=
  c.eventWalk = 0 ∨ ∃ callback ∈ c.scheduled, callback.armed = c.stops ∧ callback.id = c.eventWalk

/-- Inside a callback that came in after `entry` stops: nothing has stopped the creature, and
    `eventWalk` is the callback that runs, or something has. -/
def Within (entry : Nat) (c : Creature) : Prop :=
  (c.stops = entry ∧ c.eventWalk ≠ 0 ∧ ∀ callback ∈ c.scheduled, callback.armed ≠ c.stops) ∨ (entry < c.stops ∧ Tracked c)

/-- What the game's calls keep. -/
structure Kept (c c' : Creature) : Prop where
  inv : Inv c'
  within : ∀ entry, Within entry c → Within entry c'
  stops : c.stops ≤ c'.stops
  scheduled : ∀ callback ∈ c'.scheduled, callback ∈ c.scheduled ∨ c.stops ≤ callback.armed

theorem Kept.refl (h : Inv c) : Kept c c := ⟨h, fun _ h => h, le_rfl, fun _ hmem => .inl hmem⟩

theorem Kept.trans (h : Kept c c') (h' : Kept c' c'') : Kept c c'' := by
  refine ⟨h'.inv, fun entry hw => h'.within entry (h.within entry hw), Nat.le_trans h.stops h'.stops, ?_⟩
  intro callback hmem
  obtain hmem | harmed := h'.scheduled callback hmem
  · exact h.scheduled callback hmem
  · exact .inr (Nat.le_trans h.stops harmed)

theorem Kept.of_same (h : Inv c) (hevent : c'.eventWalk = c.eventWalk := by rfl)
    (hgeneration : c'.walkGeneration = c.walkGeneration := by rfl) (hstops : c'.stops = c.stops := by rfl)
    (hscheduled : c'.scheduled = c.scheduled := by rfl) : Kept c c' := by
  refine ⟨⟨?_, ?_, ?_, ?_, ?_⟩, ?_, hstops.ge, ?_⟩
  · rw [hgeneration, hstops]
    exact h.generation
  · rw [hscheduled, hstops]
    exact h.stamped
  · rw [hscheduled]
    exact h.distinct
  · rw [hscheduled]
    exact h.nonzero
  · rw [hscheduled, hstops, hevent]
    exact h.current
  · simp [Within, Tracked, hscheduled, hstops, hevent]
  · rw [hscheduled]
    exact fun callback hmem => .inl hmem

theorem Inv.no_current (h : Inv c) (hzero : c.eventWalk = 0) : ∀ callback ∈ c.scheduled, callback.armed ≠ c.stops :=
  fun callback hmem harmed => h.nonzero callback hmem ((h.current callback hmem harmed).trans hzero)

/-- Where `eventWalk` was 0, it is 0 or the new callback. -/
structure Rearmed (c c' : Creature) : Prop where
  inv : Inv c'
  tracked : Tracked c'
  stops : c'.stops = c.stops
  scheduled : ∀ callback ∈ c'.scheduled, callback ∈ c.scheduled ∨ c.stops ≤ callback.armed

theorem Inv.addEvent (h : Inv c) (hnone : ∀ callback ∈ c.scheduled, callback.armed ≠ c.stops) (t : Timing) :
    Rearmed c (c.addEvent t) := by
  unfold Creature.addEvent
  split
  · refine ⟨{ h with current := ?_ }, .inl rfl, rfl, fun _ hmem => .inl hmem⟩
    intro callback hmem harmed
    exact absurd harmed (hnone callback hmem)
  rename_i hgranted
  rw [not_or] at hgranted
  have hmem_or : ∀ callback, callback ∈ c.scheduled ++ [⟨t.identifier, c.walkGeneration, c.stops⟩] →
      callback ∈ c.scheduled ∨ callback = ⟨t.identifier, c.walkGeneration, c.stops⟩ := by
    simp
  refine ⟨⟨h.generation, ?_, ?_, ?_, ?_⟩, .inr ⟨⟨t.identifier, c.walkGeneration, c.stops⟩, by simp, rfl, rfl⟩, rfl, ?_⟩
  · intro callback hmem
    obtain hmem | rfl := hmem_or callback hmem
    · exact h.stamped callback hmem
    · exact ⟨h.generation, le_rfl⟩
  · rw [map_append, map_singleton]
    exact h.distinct.append (nodup_singleton _) (disjoint_singleton.mpr hgranted.2)
  · intro callback hmem
    obtain hmem | rfl := hmem_or callback hmem
    · exact h.nonzero callback hmem
    · exact hgranted.1
  · grind
  · grind

theorem addEventWalk_cases (c : Creature) (firstStep : Bool) (t : Timing) :
    c.addEventWalk firstStep t = { c with cancelNextWalk := false } ∨
      (c.eventWalk = 0 ∧ c.addEventWalk firstStep t = { c with cancelNextWalk := false }.addEvent t) := by
  unfold Creature.addEventWalk
  by_cases hspeed : t.stepSpeed ≤ 0
  · exact .inl (if_pos hspeed)
  · grind

@[simp] theorem addEventWalk_stops (c : Creature) (firstStep : Bool) (t : Timing) :
    (c.addEventWalk firstStep t).stops = c.stops := by
  obtain heq | ⟨-, heq⟩ := addEventWalk_cases c firstStep t
  · rw [heq]
  · grind [Creature.addEvent]

theorem Inv.addEventWalk (h : Inv c) (hzero : c.eventWalk = 0) (firstStep : Bool) (t : Timing) :
    Rearmed c (c.addEventWalk firstStep t) := by
  have hcleared : Inv { c with cancelNextWalk := false } := { h with }
  obtain heq | ⟨-, heq⟩ := addEventWalk_cases c firstStep t
  · rw [heq]
    exact ⟨hcleared, .inl hzero, rfl, fun _ hmem => .inl hmem⟩
  · have hrearmed := hcleared.addEvent (h.no_current hzero) t
    rw [heq]
    exact { hrearmed with }

theorem kept_addEventWalk (h : Inv c) (firstStep : Bool) (t : Timing) : Kept c (c.addEventWalk firstStep t) := by
  by_cases hzero : c.eventWalk = 0
  · have hrearmed := h.addEventWalk hzero firstStep t
    refine ⟨hrearmed.inv, ?_, hrearmed.stops.ge, hrearmed.scheduled⟩
    intro entry hw
    obtain ⟨-, hne, -⟩ | ⟨hlt, -⟩ := hw
    · exact absurd hzero hne
    · exact .inr ⟨hrearmed.stops ▸ hlt, hrearmed.tracked⟩
  · obtain heq | ⟨hevent, -⟩ := addEventWalk_cases c firstStep t
    · rw [heq]
      exact Kept.of_same h
    · exact absurd hevent hzero

theorem stopEventWalk_spec (c : Creature) (dropped : Bool) :
    (c.stopEventWalk dropped).eventWalk = 0 ∧ (c.stopEventWalk dropped).stops = c.stops + 1 ∧
      (c.stopEventWalk dropped).walkGeneration = c.walkGeneration + 1 ∧
        ((c.stopEventWalk dropped).scheduled).Sublist c.scheduled := by
  unfold Creature.stopEventWalk Creature.stopEvent
  by_cases hevent : c.eventWalk = 0
  · simp [hevent]
  · cases dropped <;> simp [hevent]

theorem call_stops_le (c : Creature) (call : Call) : (c.call call).stops ≤ c.stops + 1 := by
  have hle := Nat.le_succ c.stops
  cases call with
  | startAutoWalk t =>
    show (if c.movementBlocked then c else c.addEventWalk _ t).stops ≤ _
    split
    · exact hle
    · simp
  | startAutoWalkDirection direction t =>
    show (if c.movementBlocked then c else { c with listWalkDir := [direction] }.addEventWalk true t).stops ≤ _
    split
    · exact hle
    · simp
  | startAutoWalkList listDir t =>
    show (if c.movementBlocked then c else { c with listWalkDir := listDir }.addEventWalk _ t).stops ≤ _
    split
    · exact hle
    · simp
  | addEventWalk firstStep t => simp [Creature.call]
  | stopEventWalk dropped => exact (stopEventWalk_spec c dropped).2.1.le
  | setSpeed speed t dropped =>
    show (if speed ≤ 0 then { { c with speed := speed }.stopEventWalk dropped with cancelNextWalk := true }
      else if c.speed ≤ 0 ∧ c.listWalkDir ≠ [] then { c with speed := speed }.addEventWalk false t else _).stops ≤ _
    split
    · exact (stopEventWalk_spec { c with speed := speed } dropped).2.1.le
    · split
      · simp
      · exact hle
  | setMovementBlocked state => exact hle
  | stopWalk => exact hle
  | change listWalkDir walkTask speed => exact hle

theorem kept_stopEventWalk (h : Inv c) (dropped : Bool) : Kept c (c.stopEventWalk dropped) := by
  obtain ⟨hevent, hstops, hgeneration, hsub⟩ := stopEventWalk_spec c dropped
  have hold : ∀ callback ∈ (c.stopEventWalk dropped).scheduled, callback.armed ≠ c.stops + 1 := by
    intro callback hmem
    have hle := (h.stamped callback (hsub.subset hmem)).2
    omega
  refine ⟨⟨?_, ?_, ?_, ?_, ?_⟩, ?_, by omega, fun callback hmem => .inl (hsub.subset hmem)⟩
  · simp [hgeneration, hstops, h.generation]
  · intro callback hmem
    have hstamped := h.stamped callback (hsub.subset hmem)
    exact ⟨hstamped.1, by omega⟩
  · exact h.distinct.sublist (hsub.map _)
  · intro callback hmem
    exact h.nonzero callback (hsub.subset hmem)
  · intro callback hmem harmed
    exact absurd (harmed.trans hstops) (hold callback hmem)
  · intro entry hw
    have hle : entry ≤ c.stops := by
      obtain ⟨heq, -⟩ | ⟨hlt, -⟩ := hw
      · omega
      · omega
    exact .inr ⟨by omega, .inl hevent⟩

theorem kept_call (h : Inv c) (call : Call) : Kept c (c.call call) := by
  cases call with
  | startAutoWalk t =>
    show Kept c (if c.movementBlocked then c else _)
    split
    · exact Kept.refl h
    · exact kept_addEventWalk h _ t
  | startAutoWalkDirection direction t =>
    show Kept c (if c.movementBlocked then c else _)
    split
    · exact Kept.refl h
    · have hsame : Kept c { c with listWalkDir := [direction] } := Kept.of_same h
      exact hsame.trans (kept_addEventWalk hsame.inv true t)
  | startAutoWalkList listDir t =>
    show Kept c (if c.movementBlocked then c else _)
    split
    · exact Kept.refl h
    · have hsame : Kept c { c with listWalkDir := listDir } := Kept.of_same h
      exact hsame.trans (kept_addEventWalk hsame.inv _ t)
  | addEventWalk firstStep t => exact kept_addEventWalk h firstStep t
  | stopEventWalk dropped => exact kept_stopEventWalk h dropped
  | setSpeed speed t dropped =>
    have hsame : Kept c { c with speed := speed } := Kept.of_same h
    show Kept c (if speed ≤ 0 then _ else if c.speed ≤ 0 ∧ c.listWalkDir ≠ [] then _ else _)
    split
    · have hstop := kept_stopEventWalk hsame.inv dropped
      exact hsame.trans (hstop.trans (Kept.of_same hstop.inv))
    · split
      · exact hsame.trans (kept_addEventWalk hsame.inv false t)
      · exact hsame
  | setMovementBlocked state => exact Kept.of_same h
  | stopWalk => exact Kept.of_same h
  | change listWalkDir walkTask speed => exact Kept.of_same h

theorem kept_calls (h : Inv c) (l : List Call) : Kept c (c.calls l) := by
  induction l generalizing c with
  | nil => exact Kept.refl h
  | cons call l ih =>
    have hcall := kept_call h call
    exact hcall.trans (ih hcall.inv)

/-! ## A callback runs -/

/-- From a callback that came in at `c` on. -/
structure Inside (c c' : Creature) : Prop where
  inv : Inv c'
  within : Within c.stops c'
  scheduled : ∀ callback ∈ c'.scheduled, callback ∈ c.scheduled ∨ c.stops ≤ callback.armed

theorem Inside.stops (h : Inside c c') : c.stops ≤ c'.stops := by
  obtain ⟨heq, -⟩ | ⟨hlt, -⟩ := h.within
  · omega
  · omega

theorem Inside.kept (h : Inside c c') (h' : Kept c' c'') : Inside c c'' := by
  refine ⟨h'.inv, h'.within _ h.within, ?_⟩
  intro callback hmem
  obtain hmem | harmed := h'.scheduled callback hmem
  · exact h.scheduled callback hmem
  · exact .inr (Nat.le_trans h.stops harmed)

theorem Inside.stopEventWalk (h : Inside c c') (turn : Turn) : Inside c (c'.stopEventWalk turn.dropped) :=
  h.kept (kept_stopEventWalk h.inv turn.dropped)

theorem Inside.completed (h : Inside c c') (turn : Turn) :
    Inside c (if c'.listWalkDir = [] then c'.calls turn.onWalkComplete else c') := by
  split
  · exact h.kept (kept_calls h.inv _)
  · exact h

/-- A creature that is stopped whose `eventWalk` was cleared before. -/
theorem Inside.blocked (h : Inv c) (hnone : ∀ callback ∈ c.scheduled, callback.armed ≠ c.stops) (dropped : Bool) :
    Inside c ({ c with eventWalk := 0 }.stopEventWalk dropped) := by
  have hcleared : Inv { c with eventWalk := 0 } :=
    { h with current := fun callback hmem harmed => absurd harmed (hnone callback hmem) }
  have hkept := kept_stopEventWalk hcleared dropped
  obtain ⟨hevent, hstops, -⟩ := stopEventWalk_spec { c with eventWalk := 0 } dropped
  exact ⟨hkept.inv, .inr ⟨by rw [hstops]; exact Nat.lt_succ_self _, .inl hevent⟩, hkept.scheduled⟩

/-- A creature that may step: `getNextStep` clears `eventWalk` only to have the creature stopped. -/
theorem Inside.walk (h : Inside c c) (hnone : ∀ callback ∈ c.scheduled, callback.armed ≠ c.stops) (turn : Turn) :
    Inside c (c.walk turn) := by
  unfold Creature.walk
  cases hnext : turn.nextStep with
  | creature onWalk =>
    by_cases hempty : c.listWalkDir = []
    · have hstep : c.getNextStep (.creature onWalk) = (false, c) := if_pos hempty
      rw [hstep]
      exact (h.stopEventWalk turn).completed turn
    have hstep : c.getNextStep (.creature onWalk) =
        (true, { c with listWalkDir := c.listWalkDir.dropLast }.calls onWalk) := if_neg hempty
    have hpopped := h.kept (@Kept.of_same c { c with listWalkDir := c.listWalkDir.dropLast } h.inv rfl rfl rfl rfl)
    have hturned := hpopped.kept (kept_calls hpopped.inv onWalk)
    rw [hstep]
    exact hturned.kept (kept_calls hturned.inv _)
  | blocked => exact (Inside.blocked h.inv hnone turn.dropped).completed turn
  | other l found =>
    have hsearched := h.kept (kept_calls h.inv l)
    cases found with
    | true => exact hsearched.kept (kept_calls hsearched.inv _)
    | false => exact (hsearched.stopEventWalk turn).completed turn

theorem Inside.abort (h : Inside c c') (turn : Turn) : Inside c (c'.abort turn) := by
  unfold Creature.abort
  split
  · have hcleared := h.kept (@Kept.of_same c' { c' with listWalkDir := [] } h.inv rfl rfl rfl rfl)
    have haborted := hcleared.kept (kept_calls hcleared.inv turn.onWalkAborted)
    exact haborted.kept (Kept.of_same haborted.inv)
  · exact h

theorem stops_eq {a b : Nat} (hle : a ≤ b) (hlt : b < a + 2 ^ 32) (h : UInt32.ofNat b = UInt32.ofNat a) : a = b := by
  have hmod := congrArg UInt32.toNat h
  rw [UInt32.toNat_ofNat', UInt32.toNat_ofNat'] at hmod
  omega

structure Returned (c c' : Creature) : Prop where
  inv : Inv c'
  tracked : Tracked c'
  scheduled : ∀ callback ∈ c'.scheduled, callback ∈ c.scheduled ∨ c.stops ≤ callback.armed

variable {callback : Callback}

theorem rearm_stops_le (c : Creature) (generationAtEntry : UInt32) (turn : Turn) : c.stops ≤ (c.rearm generationAtEntry turn).stops := by
  unfold Creature.rearm
  split
  · split
    · rw [(stopEventWalk_spec c turn.dropped).2.1]
      exact Nat.le_succ _
    · rw [addEventWalk_stops]
  · exact le_rfl

/-- The creature goes on where nothing has stopped it since the callback came in. -/
theorem Inside.rearm (h : Inside c c') (hc : Inv c) (turn : Turn)
    (hlt : (c'.rearm c.walkGeneration turn).stops < c.stops + 2 ^ 32) : Returned c (c'.rearm c.walkGeneration turn) := by
  have hlt' := Nat.lt_of_le_of_lt (rearm_stops_le c' c.walkGeneration turn) hlt
  unfold Creature.rearm
  split
  next hsame =>
    have hstops : c.stops = c'.stops := by
      refine stops_eq h.stops hlt' ?_
      rw [← h.inv.generation, hsame.1, hc.generation]
    have hnone : ∀ callback ∈ c'.scheduled, callback.armed ≠ c'.stops := by
      obtain ⟨-, -, hnone⟩ | ⟨hstopped, -⟩ := h.within
      · exact hnone
      · omega
    split
    · have hstopped := h.stopEventWalk turn
      exact ⟨hstopped.inv, .inl (stopEventWalk_spec c' turn.dropped).1, hstopped.scheduled⟩
    have hcleared : Inv { c' with eventWalk := 0 } :=
      ⟨h.inv.generation, h.inv.stamped, h.inv.distinct, h.inv.nonzero, fun callback hmem harmed => absurd harmed (hnone callback hmem)⟩
    have hrearmed := hcleared.addEventWalk rfl false turn.timing
    refine ⟨hrearmed.inv, hrearmed.tracked, ?_⟩
    intro callback hmem
    obtain hmem | harmed := hrearmed.scheduled callback hmem
    · exact h.scheduled callback hmem
    · exact .inr (Nat.le_trans h.stops harmed)
  next hother =>
    refine ⟨h.inv, ?_, h.scheduled⟩
    obtain ⟨heq, hevent, -⟩ | ⟨-, htracked⟩ := h.within
    · refine absurd ⟨?_, hevent⟩ hother
      rw [h.inv.generation, hc.generation, heq]
    · exact htracked

theorem Inside.onWalk (h : Inside c c) (hnone : ∀ callback ∈ c.scheduled, callback.armed ≠ c.stops) (turn : Turn)
    (hlt : (c.onWalk turn).stops < c.stops + 2 ^ 32) : Returned c (c.onWalk turn) := by
  have hinside : Inside c ((if turn.delayed then c else c.walk turn).abort turn) := by
    refine Inside.abort ?_ turn
    split
    · exact h
    · exact h.walk hnone turn
  exact hinside.rearm h.inv turn hlt

theorem Inv.sublist (h : Inv c) {l : List Callback} (hsub : l.Sublist c.scheduled) : Inv { c with scheduled := l } :=
  ⟨h.generation, fun callback hmem => h.stamped callback (hsub.subset hmem), h.distinct.sublist (hsub.map _),
    fun callback hmem => h.nonzero callback (hsub.subset hmem), fun callback hmem => h.current callback (hsub.subset hmem)⟩

theorem Inv.fire (h : Inv c) {i : Nat} (hi : c.scheduled[i]? = some callback) (harmed : callback.armed = c.stops) :
    Inside { c with scheduled := c.scheduled.eraseIdx i } { c with scheduled := c.scheduled.eraseIdx i } ∧
      ∀ other ∈ c.scheduled.eraseIdx i, other.armed ≠ c.stops := by
  obtain ⟨hlt, heq⟩ := List.getElem?_eq_some_iff.mp hi
  have hperm := getElem_cons_eraseIdx_perm hlt
  rw [heq] at hperm
  have hid := h.current callback (mem_of_getElem? hi) harmed
  have hnone : ∀ other ∈ c.scheduled.eraseIdx i, other.armed ≠ c.stops := by
    intro other hmem hother
    have hdistinct := (hperm.map Callback.id).nodup_iff.mpr h.distinct
    rw [map_cons, nodup_cons] at hdistinct
    refine hdistinct.1 (mem_map.mpr ⟨other, hmem, ?_⟩)
    rw [h.current other (mem_of_mem_eraseIdx hmem) hother, hid]
  have hevent : c.eventWalk ≠ 0 := hid ▸ h.nonzero callback (mem_of_getElem? hi)
  exact ⟨⟨h.sublist (eraseIdx_sublist _ _), .inl ⟨rfl, hevent, hnone⟩, fun _ hmem => .inl hmem⟩, hnone⟩

/-! ## Runs -/

/-- The callbacks are not older than 2^32 stops. -/
def Young (c : Creature) : Prop := ∀ callback ∈ c.scheduled, c.stops < callback.armed + 2 ^ 32

theorem Inv.armed_iff (h : Inv c) (hyoung : Young c) (hmem : callback ∈ c.scheduled) :
    callback.generation = c.walkGeneration ↔ callback.armed = c.stops := by
  obtain ⟨hgeneration, hle⟩ := h.stamped callback hmem
  rw [hgeneration, h.generation]
  constructor
  · intro heq
    exact stops_eq hle (hyoung callback hmem) heq.symm
  · intro heq
    rw [heq]

theorem step_fire {i : Nat} (hi : c.scheduled[i]? = some callback) (alive : Bool) (turn : Turn) :
    step c (.fire i alive turn) =
      { c with scheduled := c.scheduled.eraseIdx i }.checkCreatureWalk callback.generation alive turn := by
  show (match c.scheduled[i]? with | none => c | some callback => _) = _
  rw [hi]

theorem fire_returned (h : Inv c) (hyoung : Young c) {i : Nat} (hi : c.scheduled[i]? = some callback)
    (hgeneration : callback.generation = c.walkGeneration) {turn : Turn} (hrecent : Recent c (.fire i true turn)) :
    Returned c (step c (.fire i true turn)) := by
  have hmem := mem_of_getElem? hi
  have harmed := (h.armed_iff hyoung hmem).mp hgeneration
  obtain ⟨hinside, hnone⟩ := h.fire hi harmed
  have hlt := hrecent callback hmem
  have hrun : step c (.fire i true turn) = { c with scheduled := c.scheduled.eraseIdx i }.onWalk turn := by
    rw [step_fire hi]
    exact if_pos ⟨hgeneration.symm, rfl⟩
  rw [hrun, harmed] at hlt
  have hreturned := hinside.onWalk hnone turn hlt
  rw [hrun]
  refine ⟨hreturned.inv, hreturned.tracked, ?_⟩
  intro other hmem
  obtain hmem | hother := hreturned.scheduled other hmem
  · exact .inl (mem_of_mem_eraseIdx hmem)
  · exact .inr hother

theorem inv_step (h : Inv c) (hyoung : Young c) {e : Event} (hrecent : Recent c e) : Inv (step c e) ∧ Young (step c e) := by
  cases e with
  | call call =>
    have hkept := kept_call h call
    refine ⟨hkept.inv, ?_⟩
    intro callback hmem
    obtain hmem | harmed := hkept.scheduled callback hmem
    · exact hrecent callback hmem
    · have hle := call_stops_le c call
      show (c.call call).stops < _
      omega
  | fire i alive turn =>
    cases hi : c.scheduled[i]? with
    | none =>
      have hstep : step c (.fire i alive turn) = c := by
        show (match c.scheduled[i]? with | none => c | some callback => _) = _
        rw [hi]
      rw [hstep]
      exact ⟨h, hyoung⟩
    | some callback =>
      by_cases hruns : c.walkGeneration = callback.generation ∧ alive = true
      · obtain ⟨hgeneration, rfl⟩ := hruns
        have hreturned := fire_returned h hyoung hi hgeneration.symm hrecent
        refine ⟨hreturned.inv, ?_⟩
        intro other hmem
        have harmed := (h.armed_iff hyoung (mem_of_getElem? hi)).mp hgeneration.symm
        have hlt := hrecent callback (mem_of_getElem? hi)
        obtain hmem | hother := hreturned.scheduled other hmem
        · exact hrecent other hmem
        · omega
      · have hignored : step c (.fire i alive turn) = { c with scheduled := c.scheduled.eraseIdx i } := by
          rw [step_fire hi]
          exact if_neg hruns
        rw [hignored]
        exact ⟨h.sublist (eraseIdx_sublist _ _), fun other hmem => hyoung other (mem_of_mem_eraseIdx hmem)⟩

theorem reach_inv (h : Reach start step Recent c) : Inv c ∧ Young c := by
  refine h.inv (I := fun c => Inv c ∧ Young c) ?_ ?_
  · rintro c ⟨hevent, hgeneration, hstops, hscheduled⟩
    have hempty : ∀ callback ∈ c.scheduled, False := by
      simp [hscheduled]
    refine ⟨⟨?_, fun callback hmem => (hempty callback hmem).elim, ?_, fun callback hmem => (hempty callback hmem).elim,
      fun callback hmem => (hempty callback hmem).elim⟩, fun callback hmem => (hempty callback hmem).elim⟩
    · rw [hgeneration, hstops]
      rfl
    · rw [hscheduled]
      exact nodup_nil
  · intro c e hrecent hc
    exact inv_step hc.1 hc.2 hrecent

theorem Inv.current_cases (h : Inv c) (hyoung : Young c) :
    c.current = [] ∨ ∃ callback, c.current = [callback] ∧ callback.id = c.eventWalk := by
  have hid : ∀ callback ∈ c.current, callback.id = c.eventWalk := by
    intro callback hmem
    rw [Creature.current, mem_filter, decide_eq_true_eq] at hmem
    exact h.current callback hmem.1 ((h.armed_iff hyoung hmem.1).mp hmem.2)
  have hdistinct : (c.current.map Callback.id).Nodup := h.distinct.sublist (filter_sublist.map _)
  cases hcurrent : c.current with
  | nil => exact .inl rfl
  | cons callback l =>
    rw [hcurrent] at hid hdistinct
    cases l with
    | nil => exact .inr ⟨callback, rfl, hid callback mem_cons_self⟩
    | cons other l =>
      rw [map_cons, nodup_cons] at hdistinct
      refine absurd (mem_map.mpr ⟨other, mem_cons_self, ?_⟩) hdistinct.1
      rw [hid other (by simp), hid callback (by simp)]

/-- At most one scheduled callback carries the generation of the creature, and after a callback
    that ran for the creature `eventWalk` is 0 or the identifier of that one. -/
theorem one_walk_callback (h : Reach start step Recent c) :
    c.current.length ≤ 1 ∧
      ∀ i callback turn, c.scheduled[i]? = some callback → callback.generation = c.walkGeneration →
        Recent c (.fire i true turn) →
          (step c (.fire i true turn)).eventWalk = 0 ∨
            ∃ next, (step c (.fire i true turn)).current = [next] ∧ next.id = (step c (.fire i true turn)).eventWalk := by
  obtain ⟨hinv, hyoung⟩ := reach_inv h
  constructor
  · obtain hnone | ⟨callback, hone, -⟩ := hinv.current_cases hyoung
    · simp [hnone]
    · simp [hone]
  · intro i callback turn hi hgeneration hrecent
    obtain ⟨hinv', hyoung'⟩ := inv_step hinv hyoung hrecent
    have hreturned := fire_returned hinv hyoung hi hgeneration hrecent
    obtain hzero | ⟨next, hmem, harmed, hid⟩ := hreturned.tracked
    · exact .inl hzero
    · right
      obtain hnone | hone := hinv'.current_cases hyoung'
      · have hcurrent : next ∈ (step c (.fire i true turn)).current := by
          rw [Creature.current, mem_filter, decide_eq_true_eq]
          exact ⟨hmem, (hinv'.armed_iff hyoung' hmem).mpr harmed⟩
        grind
      · exact hone

def twoSteps : Call := .startAutoWalkList [.DIRECTION_NORTH, .DIRECTION_NORTH] ⟨220, fun _ => 500, 1⟩

/-- The first of two steps, and the creature goes on. -/
def firstStep : Turn where
  delayed := false
  nextStep := .creature []
  internalMoveCreature := []
  onWalkComplete := []
  onWalkAborted := []
  dropped := false
  timing := ⟨220, fun _ => 500, 2⟩

theorem second_step_scheduled :
    (step {} (.call twoSteps)).current.length ≤ 1 ∧
      ((step (step {} (.call twoSteps)) (.fire 0 true firstStep)).eventWalk = 0 ∨
        ∃ next, (step (step {} (.call twoSteps)) (.fire 0 true firstStep)).current = [next] ∧
          next.id = (step (step {} (.call twoSteps)) (.fire 0 true firstStep)).eventWalk) := by
  have hstart : Reach start step Recent {} := .init ⟨rfl, rfl, rfl, rfl⟩
  have hreach := hstart.step (.call twoSteps) (by intro callback hmem; cases hmem)
  have hrecent : Recent (step {} (.call twoSteps)) (.fire 0 true firstStep) := by
    intro callback hmem
    obtain rfl := mem_singleton.mp hmem
    decide
  obtain ⟨hone, hfired⟩ := one_walk_callback hreach
  exact ⟨hone, hfired 0 ⟨1, 0, 0⟩ firstStep rfl rfl hrecent⟩

theorem calls_stopEventWalk (n : Nat) (hzero : c.eventWalk = 0) :
    c.calls (List.replicate n (.stopEventWalk false)) =
      { c with walkGeneration := c.walkGeneration + UInt32.ofNat n, stops := c.stops + n } := by
  induction n generalizing c with
  | zero => simp [Creature.calls]
  | succ n ih =>
    have hstop : c.call (.stopEventWalk false) = { c with walkGeneration := c.walkGeneration + 1, stops := c.stops + 1 } := by
      show c.stopEventWalk false = _
      simp [Creature.stopEventWalk, hzero]
    have hrest := ih (c := { c with walkGeneration := c.walkGeneration + 1, stops := c.stops + 1 }) hzero
    show (c.call (.stopEventWalk false)).calls _ = _
    rw [hstop, hrest, UInt32.ofNat_add]
    simp only [UInt32.add_assoc, Nat.add_assoc, Nat.add_comm 1, UInt32.add_comm 1]
    rfl

end

/-- While a creature with two steps to go makes the first, it is stopped and then set walking. -/
def stoppedInside (n : Nat) : Turn where
  delayed := false
  nextStep := .creature []
  internalMoveCreature := List.replicate (n + 1) (.stopEventWalk false) ++ [.addEventWalk false ⟨220, fun _ => 500, 2⟩]
  onWalkComplete := []
  onWalkAborted := []
  dropped := false
  timing := ⟨220, fun _ => 500, 3⟩

theorem stoppedInside_run (n : Nat) (hwraps : UInt32.ofNat (n + 1) = 0) :
    (run step {} [.call twoSteps, .fire 0 true (stoppedInside n)]).current.length = 2 := by
  have hfirst : ({ listWalkDir := [.DIRECTION_NORTH], eventWalk := 1 } : Creature).call (.stopEventWalk false) =
      { listWalkDir := [.DIRECTION_NORTH], walkGeneration := 1, stops := 1 } := rfl
  have hstops : ({ listWalkDir := [.DIRECTION_NORTH], eventWalk := 1 } : Creature).calls
      (List.replicate (n + 1) (.stopEventWalk false)) =
        { listWalkDir := [.DIRECTION_NORTH], walkGeneration := 0, stops := n + 1 } := by
    show (({ listWalkDir := [.DIRECTION_NORTH], eventWalk := 1 } : Creature).call (.stopEventWalk false)).calls _ = _
    rw [hfirst, calls_stopEventWalk n rfl]
    rw [UInt32.ofNat_add, UInt32.add_comm] at hwraps
    simp only [Nat.add_comm 1 n]
    exact congrArg (fun g => ({ listWalkDir := [.DIRECTION_NORTH], walkGeneration := g, stops := n + 1 } : Creature)) hwraps
  have hwalk : ({ listWalkDir := [.DIRECTION_NORTH, .DIRECTION_NORTH], eventWalk := 1 } : Creature).walk (stoppedInside n) =
      { listWalkDir := [.DIRECTION_NORTH], eventWalk := 2, stops := n + 1, scheduled := [⟨2, 0, n + 1⟩] } := by
    show ({ listWalkDir := [.DIRECTION_NORTH], eventWalk := 1 } : Creature).calls
      (List.replicate (n + 1) (.stopEventWalk false) ++ [.addEventWalk false ⟨220, fun _ => 500, 2⟩]) = _
    rw [Creature.calls_append, hstops]
    rfl
  show (Creature.current (Creature.rearm 0 (stoppedInside n) (Creature.abort (stoppedInside n) (Creature.walk (stoppedInside n)
    { listWalkDir := [.DIRECTION_NORTH, .DIRECTION_NORTH], eventWalk := 1 })))).length = 2
  rw [hwalk]
  rfl

/-- Stopped 2^32 times from inside a callback, a creature has two callbacks of its generation. -/
theorem stopped_around : ¬ ∀ c, Reach start step (fun _ _ => True) c → c.current.length ≤ 1 := by
  intro hone
  have hstart : Reach start step (fun _ _ => True) {} := .init ⟨rfl, rfl, rfl, rfl⟩
  have htwo := stoppedInside_run (2 ^ 32 - 1) rfl
  have hallowed : Allowed step (fun _ _ => True) {} [.call twoSteps, .fire 0 true (stoppedInside (2 ^ 32 - 1))] :=
    ⟨trivial, trivial, trivial⟩
  have hle := hone _ (hstart.run hallowed)
  omega

end Backlands.Creatures
