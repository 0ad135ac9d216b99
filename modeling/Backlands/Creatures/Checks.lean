/-
  Backlands.Creatures.Checks — the think scheduling of creatures: `Game::addCreatureCheck`,
  `Game::removeCreatureCheck` and the passes of `Game::checkCreatures` (src/game.cpp).

  A run interleaves the steps of the passes with the calls, which may come between two passes
  and from inside `onThink`. What the rest of the game decides is the `World`: the ids of the
  creatures, the registry `creatureSharedRefs`, which creatures are dead or removed, whether
  the game shuts down. It may change wherever a call may come.

  Proved: `checks_run`. In a run every creature is placed as its flag says, thinks at most once
  a round, only while it is enabled, and exactly once if it is alive and enabled throughout,
  exactly when every call that puts a creature in a bucket finds it in the registry.
  Counterexample: `early_call_lost`.
-/

import Backlands.Lib.Runs
import Backlands.Lib.Sweep

namespace Backlands.Creatures.Checks

open Backlands.Lib Function List

abbrev EVENT_CREATURECOUNT : Nat := 10

abbrev Index := Fin EVENT_CREATURECOUNT

structure World (C : Type*) where
  getID : C → Nat
  creatureSharedRefs : Nat → Option C
  isRemoved : C → Bool := fun _ => false
  isDead : C → Bool := fun _ => false
  /-- `gameState` is `GAME_STATE_SHUTDOWN`. -/
  shutdown : Bool := false

/-- Where the passes stand. -/
inductive Phase (C : Type*) where
  /-- `checkCreatures(index)` is scheduled. -/
  | scheduled (index : Index)
  /-- Before the test of the loop. -/
  | loop (index : Index) (i : Nat)
  /-- In `onThink`, `onAttacking` or `executeConditions` of the creature. -/
  | onThink (index : Index) (i : Nat) (creature : C)

structure State (C : Type*) where
  world : World C
  creatureCheck : C → Bool
  inCheckCreaturesVector : C → Bool
  checkCreatureLists : Index → List (Option C)
  phase : Phase C

variable {C : Type*} [DecidableEq C]

def World.getCreatureSharedRef (w : World C) (creature : C) : Option C := w.creatureSharedRefs (w.getID creature)

/-- `std::min_element` by the sizes: the first of the shortest. -/
def targetBucket (lists : Index → List (Option C)) : Index :=
  (List.finRange EVENT_CREATURECOUNT).foldl (fun b j => if (lists j).length < (lists b).length then j else b) 0

namespace State

variable (s : State C)

def addCreatureCheck : Option C → State C
  | none => s
  | some creature =>
    if s.world.isRemoved creature then s
    else if s.world.shutdown then s
    else
      let s := { s with creatureCheck := update s.creatureCheck creature true }
      if s.inCheckCreaturesVector creature then s
      else
        let target := targetBucket s.checkCreatureLists
        { s with
          inCheckCreaturesVector := update s.inCheckCreaturesVector creature true
          checkCreatureLists := update s.checkCreatureLists target
            (s.checkCreatureLists target ++ [s.world.getCreatureSharedRef creature]) }

def removeCreatureCheck : Option C → State C
  | none => s
  | some creature =>
    if s.inCheckCreaturesVector creature then
      { s with creatureCheck := update s.creatureCheck creature false }
    else s

/-- The entry at `i` makes room for the last one of its bucket. -/
def popAt (index : Index) (i : Nat) : State C :=
  { s with checkCreatureLists := update s.checkCreatureLists index (dropAt i (s.checkCreatureLists index)) }

/-- One turn of the loop of `checkCreatures`, up to the call of `onThink`. -/
def turn (index : Index) (i : Nat) : State C :=
  match (s.checkCreatureLists index)[i]? with
  | none => { s with phase := .scheduled (index + 1) }
  | some none => s.popAt index i
  | some (some creature) =>
    if s.creatureCheck creature then
      if !s.world.isDead creature && !s.world.isRemoved creature then { s with phase := .onThink index i creature }
      else { s with creatureCheck := update s.creatureCheck creature false, phase := .loop index (i + 1) }
    else
      { s with inCheckCreaturesVector := update s.inCheckCreaturesVector creature false }.popAt index i

/-- `checkCreatures` goes on: it is called, takes a turn, or is back from `onThink`. -/
def advance : State C :=
  match s.phase with
  | .scheduled index => { s with phase := .loop index 0 }
  | .loop index i => s.turn index i
  | .onThink index i _ => { s with phase := .loop index (i + 1) }

end State

inductive Event (C : Type*) where
  | addCreatureCheck (creature : Option C)
  | removeCreatureCheck (creature : Option C)
  | world (w : World C)
  | advance

def step (s : State C) : Event C → State C
  | .addCreatureCheck creature => s.addCreatureCheck creature
  | .removeCreatureCheck creature => s.removeCreatureCheck creature
  | .world w => { s with world := w }
  | .advance => s.advance

/-- No creature has been added yet; the first pass is that of the first bucket. -/
def start (w : World C) : State C where
  world := w
  creatureCheck _ := false
  inCheckCreaturesVector _ := false
  checkCreatureLists _ := []
  phase := .scheduled 0

/-! ## What a run is to do -/

/-- Each creature is in at most one bucket, at most once, exactly when its flag is set. -/
structure Placed (s : State C) : Prop where
  once : ∀ c b, (s.checkCreatureLists b).count (some c) ≤ 1
  one : ∀ {c b b'}, some c ∈ s.checkCreatureLists b → some c ∈ s.checkCreatureLists b' → b = b'
  flag : ∀ c, s.inCheckCreaturesVector c = true ↔ ∃ b, some c ∈ s.checkCreatureLists b

/-- The creature whose `onThink` is called on the way from one phase to the next. -/
def Phase.enters : Phase C → Phase C → Option C
  | .loop .., .onThink _ _ creature => some creature
  | _, _ => none

def thinks (s : State C) (e : Event C) : Option C := s.phase.enters (step s e).phase

/-- The creatures that think in a run, in order. -/
def thoughts : State C → List (Event C) → List C
  | _, [] => []
  | s, e :: es => (thinks s e).toList ++ thoughts (step s e) es

def Phase.between : Phase C → Bool
  | .scheduled _ => true
  | _ => false

def startsPass (s : State C) : Event C → Bool
  | .advance => s.phase.between
  | _ => false

def passes : State C → List (Event C) → Nat
  | _, [] => 0
  | s, e :: es => (startsPass s e).toNat + passes (step s e) es

structure Round (s : State C) (es : List (Event C)) : Prop where
  first : s.phase.between = true
  last : (run step s es).phase.between = true
  passes : passes s es = EVENT_CREATURECOUNT

structure Up (c : C) (s : State C) : Prop where
  enabled : s.creatureCheck c = true
  alive : s.world.isDead c = false
  there : s.world.isRemoved c = false

structure WellScheduled (s : State C) (es : List (Event C)) : Prop where
  placed : ∀ k ≤ es.length, Placed (run step s (es.take k))
  enabled : ∀ {before e after}, es = before ++ e :: after → ∀ {c}, thinks (run step s before) e = some c →
    (run step s before).creatureCheck c = true
  atMostOnce : ∀ {before part after}, es = before ++ part ++ after → (run step s before).phase.between = true →
    passes (run step s before) part ≤ EVENT_CREATURECOUNT → ∀ c, (thoughts (run step s before) part).count c ≤ 1
  exactlyOnce : ∀ {before round after}, es = before ++ round ++ after → Round (run step s before) round →
    ∀ c, (∀ k ≤ round.length, Up c (run step (run step s before) (round.take k))) →
      (thoughts (run step s before) round).count c = 1

/-- `addCreatureCheck` puts the creature in a bucket. -/
def State.enlists (s : State C) (creature : C) : Bool :=
  !s.world.isRemoved creature && !s.world.shutdown && !s.inCheckCreaturesVector creature

/-- A call that puts a creature in a bucket finds it in the registry. -/
def Registered (s : State C) : Event C → Prop
  | .addCreatureCheck (some creature) => s.enlists creature = true → s.world.getCreatureSharedRef creature = some creature
  | _ => True

/-! ## The buckets as sweeps -/

def Phase.pos : Phase C → Option (Index × Nat)
  | .scheduled _ => none
  | .loop index i => some (index, i)
  | .onThink index i _ => some (index, i + 1)

def Phase.next : Phase C → Index
  | .scheduled index => index
  | .loop index _ => index + 1
  | .onThink index _ _ => index + 1

def State.sweeps (s : State C) : Sweeps EVENT_CREATURECOUNT (Option C) where
  buckets := s.checkCreatureLists
  pos := s.phase.pos
  next := s.phase.next

/-- What a step does to the buckets. -/
def act (s : State C) : Event C → Act (Option C)
  | .addCreatureCheck (some creature) =>
    if s.enlists creature then .push (s.world.getCreatureSharedRef creature) else .stay
  | .advance =>
    match s.phase with
    | .scheduled _ => .begin
    | .onThink .. => .stay
    | .loop index i =>
      match (s.checkCreatureLists index)[i]? with
      | none => .finish
      | some none => .drop none
      | some (some creature) => if s.creatureCheck creature then .visit (some creature) else .drop (some creature)
  | _ => .stay

/-- Nothing but creatures is in the buckets, each in one of them as its flag says, and those
    that are enabled are there. -/
structure Inv (s : State C) : Prop where
  ok : s.sweeps.Ok
  refs : ¬ s.sweeps.Present none
  flag : ∀ c, s.inCheckCreaturesVector c = true ↔ s.sweeps.Present (some c)
  listed : ∀ c, s.creatureCheck c = true → s.inCheckCreaturesVector c = true

variable {s : State C}

omit [DecidableEq C] in
theorem start_inv (w : World C) : Inv (start w) where
  ok := ⟨fun _ => nodup_nil, fun h => absurd h not_mem_nil, fun h => by cases h⟩
  refs := fun ⟨_, h⟩ => absurd h not_mem_nil
  flag c := by simp [start, Sweeps.Present, State.sweeps]
  listed c h := by cases h

theorem Inv.placed (h : Inv s) : Placed s where
  once c b := nodup_iff_count_le_one.mp (h.ok.nodup b) (some c)
  one ha hb := h.ok.one ha hb
  flag c := h.flag c

theorem addCreatureCheck_enlists {c : C} (h : s.enlists c = true) :
    s.addCreatureCheck (some c) =
      { s with
        creatureCheck := update s.creatureCheck c true
        inCheckCreaturesVector := update s.inCheckCreaturesVector c true
        checkCreatureLists := update s.checkCreatureLists (targetBucket s.checkCreatureLists)
          (s.checkCreatureLists (targetBucket s.checkCreatureLists) ++ [s.world.getCreatureSharedRef c]) } := by
  simp only [State.enlists, Bool.and_eq_true, Bool.not_eq_true'] at h
  obtain ⟨⟨hr, hd⟩, hv⟩ := h
  simp [State.addCreatureCheck, hr, hd, hv]

theorem addCreatureCheck_other {c : C} (h : s.enlists c = false) :
    s.addCreatureCheck (some c) = s ∨ s.inCheckCreaturesVector c = true ∧
      s.addCreatureCheck (some c) = { s with creatureCheck := update s.creatureCheck c true } := by
  by_cases hr : s.world.isRemoved c = true
  · exact .inl (by simp [State.addCreatureCheck, hr])
  by_cases hd : s.world.shutdown = true
  · exact .inl (by simp [State.addCreatureCheck, hd])
  have hv : s.inCheckCreaturesVector c = true := by simpa [State.enlists, hr, hd] using h
  exact .inr ⟨hv, by simp [State.addCreatureCheck, hr, hd, hv]⟩

theorem turn_end {index : Index} {i : Nat} (h : (s.checkCreatureLists index)[i]? = none) :
    s.turn index i = { s with phase := .scheduled (index + 1) } := by simp [State.turn, h]

theorem turn_think {index : Index} {i : Nat} {c : C} (h : (s.checkCreatureLists index)[i]? = some (some c))
    (hup : Up c s) : s.turn index i = { s with phase := .onThink index i c } := by
  simp [State.turn, h, hup.enabled, hup.alive, hup.there]

theorem turn_dead {index : Index} {i : Nat} {c : C} (h : (s.checkCreatureLists index)[i]? = some (some c))
    (hc : s.creatureCheck c = true) (hup : ¬ Up c s) :
    s.turn index i =
      { s with creatureCheck := update s.creatureCheck c false, phase := .loop index (i + 1) } := by
  have hout : ¬ (s.world.isDead c = false ∧ s.world.isRemoved c = false) := fun ⟨ha, hr⟩ => hup ⟨hc, ha, hr⟩
  simp [State.turn, h, hc]
  simpa using hout

theorem turn_drop {index : Index} {i : Nat} {c : C} (h : (s.checkCreatureLists index)[i]? = some (some c))
    (hc : s.creatureCheck c = false) :
    s.turn index i =
      { s with inCheckCreaturesVector := update s.inCheckCreaturesVector c false }.popAt index i := by
  simp [State.turn, h, hc]

/-- All that a step can do where every creature put in a bucket is in the registry. -/
inductive Steps (s : State C) : Event C → State C → Act (Option C) → Prop
  | same {e} : Steps s e s .stay
  | enable {e c} (hv : s.inCheckCreaturesVector c = true) :
    Steps s e { s with creatureCheck := update s.creatureCheck c true } .stay
  | disable {e c} : Steps s e { s with creatureCheck := update s.creatureCheck c false } .stay
  | world {e w} : Steps s e { s with world := w } .stay
  | enlist {e c b} (hv : s.inCheckCreaturesVector c = false) :
    Steps s e
      { s with
        creatureCheck := update s.creatureCheck c true
        inCheckCreaturesVector := update s.inCheckCreaturesVector c true
        checkCreatureLists := update s.checkCreatureLists b (s.checkCreatureLists b ++ [some c]) }
      (.push (some c))
  | begin {index} (hp : s.phase = .scheduled index) : Steps s .advance { s with phase := .loop index 0 } .begin
  | finish {index i} (hp : s.phase = .loop index i) (hi : (s.checkCreatureLists index)[i]? = none) :
    Steps s .advance { s with phase := .scheduled (index + 1) } .finish
  | think {index i c} (hp : s.phase = .loop index i) (hi : (s.checkCreatureLists index)[i]? = some (some c))
    (hup : Up c s) : Steps s .advance { s with phase := .onThink index i c } (.visit (some c))
  | skip {index i c} (hp : s.phase = .loop index i) (hi : (s.checkCreatureLists index)[i]? = some (some c))
    (hup : ¬ Up c s) :
    Steps s .advance { s with creatureCheck := update s.creatureCheck c false, phase := .loop index (i + 1) }
      (.visit (some c))
  | drop {index i c} (hp : s.phase = .loop index i) (hi : (s.checkCreatureLists index)[i]? = some (some c))
    (hc : s.creatureCheck c = false) :
    Steps s .advance ({ s with inCheckCreaturesVector := update s.inCheckCreaturesVector c false }.popAt index i)
      (.drop (some c))
  | back {index i c} (hp : s.phase = .onThink index i c) : Steps s .advance { s with phase := .loop index (i + 1) } .stay

variable {a : Act (Option C)}

theorem step_cases {e : Event C} (h : Inv s) (hr : Registered s e) : Steps s e (step s e) (act s e) := by
  cases e with
  | addCreatureCheck creature =>
    rcases creature with _ | c
    · exact .same
    by_cases hin : s.enlists c = true
    · have hv : s.inCheckCreaturesVector c = false := by
        simp only [State.enlists, Bool.and_eq_true, Bool.not_eq_true'] at hin
        exact hin.2
      simp only [step, act, addCreatureCheck_enlists hin, if_pos hin, hr hin]
      exact .enlist hv
    · simp only [act, if_neg hin, step]
      rcases addCreatureCheck_other (by simpa using hin) with heq | ⟨hv, heq⟩
      · rw [heq]
        exact .same
      · rw [heq]
        exact .enable hv
  | removeCreatureCheck creature =>
    rcases creature with _ | c
    · exact .same
    simp only [step, act, State.removeCreatureCheck]
    split
    · exact .disable
    · exact .same
  | world w => exact .world
  | advance =>
    rcases hp : s.phase with index | ⟨index, i⟩ | ⟨index, i, c⟩
    · simpa only [step, act, State.advance, hp] using .begin hp
    · rcases hi : (s.checkCreatureLists index)[i]? with _ | _ | c
      · simpa only [step, act, State.advance, hp, hi, turn_end hi] using .finish hp hi
      · exact absurd ⟨index, mem_of_getElem? hi⟩ h.refs
      simp only [step, act, State.advance, hp, hi]
      by_cases hc : s.creatureCheck c = true
      · rw [if_pos hc]
        by_cases hup : Up c s
        · rw [turn_think hi hup]
          exact .think hp hi hup
        · rw [turn_dead hi hc hup]
          exact .skip hp hi hup
      · rw [if_neg hc, turn_drop hi (by simpa using hc)]
        exact .drop hp hi (by simpa using hc)
    · simpa only [step, act, State.advance, hp] using .back hp

theorem Steps.moves {s' : State C} {e : Event C} (hs : Steps s e s' a) (h : Inv s) :
    Sweeps.Move s.sweeps a s'.sweeps := by
  cases hs with
  | same => exact .stay
  | enable hv => exact .stay
  | disable => exact .stay
  | world => exact .stay
  | @enlist _ c b hv =>
    refine .push b fun hc => ?_
    rw [(h.flag c).mpr hc] at hv
    cases hv
  | @begin index hp =>
    have hnext : s.sweeps.next = index := by simp [State.sweeps, Phase.next, hp]
    have hmove := Sweeps.Move.begin (s := s.sweeps) (by simp [State.sweeps, Phase.pos, hp])
    rwa [hnext] at hmove
  | @finish index i hp hi =>
    have hmove := Sweeps.Move.finish (s := s.sweeps) (b := index) (i := i) (by simp [State.sweeps, Phase.pos, hp])
      (List.getElem?_eq_none_iff.mp hi)
    simpa [State.sweeps, Phase.next, Phase.pos, hp] using hmove
  | @think index i c hp hi hup =>
    have hmove := Sweeps.Move.visit (s := s.sweeps) (b := index) (i := i) (by simp [State.sweeps, Phase.pos, hp]) hi
    simpa [State.sweeps, Phase.next, Phase.pos, hp] using hmove
  | @skip index i c hp hi hup =>
    have hmove := Sweeps.Move.visit (s := s.sweeps) (b := index) (i := i) (by simp [State.sweeps, Phase.pos, hp]) hi
    simpa [State.sweeps, Phase.next, Phase.pos, hp] using hmove
  | @drop index i c hp hi hc => exact .drop (by simp [State.sweeps, Phase.pos, hp]) hi
  | @back index i c hp =>
    have hsame : s.sweeps = State.sweeps { s with phase := .loop index (i + 1) } := by
      simp [State.sweeps, Phase.pos, Phase.next, hp]
    rw [← hsame]
    exact .stay

theorem Steps.flag {s' : State C} {e : Event C} (hs : Steps s e s' a) (d : C) :
    s'.inCheckCreaturesVector d = true ↔
      s.inCheckCreaturesVector d = true ∧ a ≠ .drop (some d) ∨ a = .push (some d) := by
  cases hs with
  | @enlist _ c b hv =>
    grind
  | @drop index i c hp hi hc =>
    rcases eq_or_ne d c with rfl | hd
    · simp [State.popAt]
    · simp [State.popAt, hd, hd.symm]
  | _ => simp

theorem Steps.listed {s' : State C} {e : Event C} (hs : Steps s e s' a)
    (h : ∀ c, s.creatureCheck c = true → s.inCheckCreaturesVector c = true) (d : C) (hd : s'.creatureCheck d = true) :
    s'.inCheckCreaturesVector d = true := by
  cases hs with
  | @enable _ c hv =>
    grind
  | @disable _ c =>
    grind
  | @enlist _ c b hv =>
    grind
  | @skip index i c hp hi hup =>
    grind
  | @drop index i c hp hi hc =>
    rcases eq_or_ne d c with rfl | hne
    · have hcheck : s.creatureCheck d = true := hd
      simp [hc] at hcheck
    · simpa [State.popAt, hne] using h d hd
  | _ => exact h d hd

theorem Steps.inv {s' : State C} {e : Event C} (hs : Steps s e s' a) (h : Inv s) : Inv s' where
  ok := (hs.moves h).ok h.ok
  refs hn := by
    rcases ((hs.moves h).present h.ok).mp hn with ⟨hn, -⟩ | hn
    · exact h.refs hn
    · cases hs <;> cases hn
  flag d := by rw [hs.flag, (hs.moves h).present h.ok, h.flag]
  listed := hs.listed h.listed

theorem step_inv {e : Event C} (hr : Registered s e) (h : Inv s) : Inv (step s e) :=
  (step_cases h hr).inv h

/-- A creature put in a bucket while it is not in the registry has its flag set, and is nowhere. -/
theorem registered_of_placed {e : Event C} (h : Inv s) (hp : Placed (step s e)) : Registered s e := by
  cases e with
  | addCreatureCheck creature =>
    rcases creature with _ | c
    · exact trivial
    intro hin
    have hv : ¬ s.sweeps.Present (some c) := by
      rw [← h.flag]
      simp only [State.enlists, Bool.and_eq_true, Bool.not_eq_true'] at hin
      simp [hin.2]
    simp only [step, addCreatureCheck_enlists hin] at hp
    obtain ⟨b, hb⟩ := (hp.flag c).mp (by simp)
    rcases Sweeps.mem_push.mp hb with hb | ⟨hb, -⟩
    · exact absurd ⟨b, hb⟩ hv
    · exact hb.symm
  | removeCreatureCheck creature => exact trivial
  | world w => exact trivial
  | advance => exact trivial

/-! ## Runs -/

omit [DecidableEq C] in
theorem Phase.enters_self (p : Phase C) : p.enters p = none := by cases p <;> rfl

theorem Steps.enters {s' : State C} {e : Event C} (hs : Steps s e s' a) (c : C) :
    s.phase.enters s'.phase = some c ↔ a = .visit (some c) ∧ Up c s := by
  cases hs with
  | begin hp => simp [hp, Phase.enters]
  | finish hp hi => simp [hp, Phase.enters]
  | @think index i d hp hi hup =>
    simp only [hp, Phase.enters, Option.some.injEq, Act.visit.injEq]
    refine ⟨?_, And.left⟩
    rintro rfl
    exact ⟨rfl, hup⟩
  | @skip index i d hp hi hup =>
    simp only [hp, Phase.enters, reduceCtorEq, Act.visit.injEq, Option.some.injEq, false_iff, not_and]
    rintro rfl
    exact hup
  | back hp => simp [hp, Phase.enters]
  | _ => simp [Phase.enters_self, State.popAt]

theorem Steps.not_drop {s' : State C} {e : Event C} {c : C} (hs : Steps s e s' a) (hup : Up c s) :
    a ≠ .drop (some c) := by
  rintro rfl
  cases hs with
  | drop hp hi hc => simp [hup.enabled] at hc

omit [DecidableEq C] in
theorem act_begins (s : State C) (e : Event C) : (act s e).begins = (startsPass s e).toNat := by
  cases e with
  | addCreatureCheck creature =>
    rcases creature with _ | c
    · rfl
    · simp only [act]
      split <;> rfl
  | removeCreatureCheck creature => rfl
  | world w => rfl
  | advance =>
    grind [act, startsPass, Phase.between, Act.begins]

def acts : State C → List (Event C) → List (Act (Option C))
  | _, [] => []
  | s, e :: es => act s e :: acts (step s e) es

variable {es : List (Event C)}

theorem begins_acts (s : State C) (es : List (Event C)) : Sweeps.begins (acts s es) = passes s es := by
  induction es generalizing s with
  | nil => rfl
  | cons e es ih => rw [acts, passes, Sweeps.begins_cons, act_begins, ih]

theorem run_inv (ha : Allowed step Registered s es) (h : Inv s) : Inv (run step s es) := by
  induction es generalizing s with
  | nil => exact h
  | cons e es ih => exact ih ha.2 (step_inv ha.1 h)

theorem run_moves (ha : Allowed step Registered s es) (h : Inv s) :
    Sweeps.Moves s.sweeps (acts s es) (run step s es).sweeps := by
  induction es generalizing s with
  | nil => exact .nil
  | cons e es ih => exact .cons ((step_cases h ha.1).moves h) (ih ha.2 (step_inv ha.1 h))

theorem thoughts_le (ha : Allowed step Registered s es) (h : Inv s) (c : C) :
    (thoughts s es).count c ≤ (acts s es).count (.visit (some c)) := by
  induction es generalizing s with
  | nil => simp [thoughts]
  | cons e es ih =>
    have hrest := ih ha.2 (step_inv ha.1 h)
    have hthink := (step_cases h ha.1).enters c
    rw [thoughts, acts, count_append, count_cons]
    rcases ht : thinks s e with _ | d
    · simp
      omega
    rcases eq_or_ne d c with rfl | hd
    · simp [(hthink.mp ht).1]
      omega
    · simp [hd]
      omega

theorem thoughts_eq (ha : Allowed step Registered s es) (h : Inv s) {c : C}
    (hup : ∀ k ≤ es.length, Up c (run step s (es.take k))) :
    (thoughts s es).count c = (acts s es).count (.visit (some c)) ∧ .drop (some c) ∉ acts s es := by
  induction es generalizing s with
  | nil => simp [thoughts, acts]
  | cons e es ih =>
    have hhere : Up c s := hup 0 (Nat.zero_le _)
    obtain ⟨hcount, hdrop⟩ := ih ha.2 (step_inv ha.1 h) fun k hk => hup (k + 1) (Nat.succ_le_succ hk)
    have hcases := step_cases h ha.1
    have hthink := hcases.enters c
    have hno := hcases.not_drop hhere
    refine ⟨?_, by simp [acts, hno.symm, hdrop]⟩
    rw [thoughts, acts, count_append, count_cons, hcount]
    by_cases hv : act s e = .visit (some c)
    · have ht : thinks s e = some c := hthink.mpr ⟨hv, hhere⟩
      simp [ht, hv, Nat.add_comm]
    have ht : thinks s e ≠ some c := fun ht => hv (hthink.mp ht).1
    rcases hd : thinks s e with _ | d
    · simp [hv]
    · have hne : d ≠ c := fun hdc => ht (hdc ▸ hd)
      simp [hv, hne]

omit [DecidableEq C] in
theorem pos_none (h : s.phase.between = true) : s.sweeps.pos = none := by
  rcases hp : s.phase with index | ⟨index, i⟩ | ⟨index, i, c⟩
  · simp [State.sweeps, Phase.pos, hp]
  · simp [Phase.between, hp] at h
  · simp [Phase.between, hp] at h

section Rounds

variable {s : State C} {es : List (Event C)} (ha : Allowed step Registered s es) (h : Inv s)

include ha h

theorem thinks_at_most_once (hb : s.phase.between = true) (hp : passes s es ≤ EVENT_CREATURECOUNT) (c : C) :
    (thoughts s es).count c ≤ 1 := by
  have hvisits := Sweeps.visits_le_one (run_moves ha h) h.ok
    (by rw [begins_acts, if_pos (pos_none hb)]; omega) (some c)
  have hle := thoughts_le ha h c
  omega

theorem thinks_exactly_once (hround : Round s es) {c : C} (hup : ∀ k ≤ es.length, Up c (run step s (es.take k))) :
    (thoughts s es).count c = 1 := by
  have hhere : Up c s := hup 0 (Nat.zero_le _)
  obtain ⟨hcount, hdrop⟩ := thoughts_eq ha h hup
  have hthere : s.sweeps.Present (some c) := (h.flag c).mp (h.listed c hhere.enabled)
  rw [hcount]
  exact Sweeps.visits_eq_one (run_moves ha h) h.ok (by rw [begins_acts, hround.passes]) (pos_none hround.first)
    (pos_none hround.last) hthere hdrop

end Rounds

/-- A run schedules the creatures well exactly when every call that puts a creature in a bucket
    finds it in the registry. -/
theorem checks_run (w : World C) (es : List (Event C)) :
    WellScheduled (start w) es ↔ Allowed step Registered (start w) es := by
  have hiff : (∀ k ≤ es.length, Placed (run step (start w) (es.take k))) ↔ Allowed step Registered (start w) es :=
    along_iff_allowed (fun s (h : Inv s) => h.placed) (fun s e hr h => step_inv hr h)
      (fun s e h hp => registered_of_placed h hp) (start_inv w) es
  refine ⟨fun h => hiff.mp h.placed, fun ha => ⟨hiff.mpr ha, ?_, ?_, ?_⟩⟩
  · rintro before e after rfl c ht
    obtain ⟨hbefore, hr, -⟩ := allowed_append.mp ha
    exact (((step_cases (run_inv hbefore (start_inv w)) hr).enters c).mp ht).2.enabled
  · rintro before part after rfl hb hp c
    rw [append_assoc] at ha
    obtain ⟨hbefore, hrest⟩ := allowed_append.mp ha
    exact thinks_at_most_once (allowed_append.mp hrest).1 (run_inv hbefore (start_inv w)) hb hp c
  · rintro before round after rfl hround c hup
    rw [append_assoc] at ha
    obtain ⟨hbefore, hrest⟩ := allowed_append.mp ha
    exact thinks_exactly_once (allowed_append.mp hrest).1 (run_inv hbefore (start_inv w)) hround hup

/-! ## A call before the registration -/

/-- A monster that is being made: it has no id yet. -/
def unplaced : World Unit where
  getID _ := 0
  creatureSharedRefs _ := none

/-- `internalPlaceCreature` has given it an id and put it in the registry. -/
def placed : World Unit where
  getID _ := 1
  creatureSharedRefs id := if id = 1 then some () else none

/-- A pass in `k` steps of the loop. -/
def pass (k : Nat) : List (Event Unit) := List.replicate (k + 2) .advance

/-- A monster that is added once it is placed thinks once in the round. -/
example : thoughts (start placed) (.addCreatureCheck (some ()) :: pass 2 ++ (List.replicate 9 (pass 0)).flatten) =
    [()] := by decide

/-- The monster's `onSpawn` wakes it, it is placed and added again, and the null that stands
    for it in the first bucket goes. -/
def early : List (Event Unit) :=
  [.addCreatureCheck (some ()), .world placed, .addCreatureCheck (some ())] ++ pass 1

def emptyRound : List (Event Unit) := (List.replicate 10 (pass 0)).flatten

theorem early_call_lost : ¬ WellScheduled (start unplaced) (early ++ emptyRound) ∧
    (run step (start unplaced) (early ++ emptyRound)).creatureCheck () = true ∧
      thoughts (start unplaced) (early ++ emptyRound) = [] := by
  refine ⟨fun h => ?_, by decide, by decide⟩
  have henabled : ∀ k ≤ emptyRound.length,
      (run step (run step (start unplaced) early) (emptyRound.take k)).creatureCheck () = true := by decide
  have halive : ∀ k ≤ emptyRound.length,
      (run step (run step (start unplaced) early) (emptyRound.take k)).world.isDead () = false := by decide
  have hthere : ∀ k ≤ emptyRound.length,
      (run step (run step (start unplaced) early) (emptyRound.take k)).world.isRemoved () = false := by decide
  have honce := h.exactlyOnce (append_nil _).symm ⟨by decide, by decide, by decide⟩ () fun k hk =>
    ⟨henabled k hk, halive k hk, hthere k hk⟩
  exact absurd honce (by decide)

end Backlands.Creatures.Checks
