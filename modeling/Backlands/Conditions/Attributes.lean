/-
  Backlands.Conditions.Attributes — conditions that change the attributes of a player
  (src/condition.cpp: `ConditionAttributes`; src/creature.cpp: `addCondition`; src/player.h).

  A condition changes what varies about a player when it starts, undoes that when it ends, and
  when another with its key is added does both, unless it lasts longer than the other. Numbers
  are words of 32 bits. A percentage is taken of a base of the player in floating point; that
  product is `scaled`, any function. The player's base may change at any time.

  An experience rate is set at the start and subtracted at the end, and a merge does neither for
  the new one; the flag for defence is written and not counted. Proved:
  `attributes_add_up_iff`, the run is free of residues exactly when every step meets `Meets`,
  and `rate_lost`, that for a new player one condition with an experience rate leaves none.
-/

import Backlands.Lib.Balance
import Backlands.Lib.Runs
import Mathlib.Data.BitVec

namespace Backlands.Conditions.Attributes

open Backlands.Lib List

/-- An `int32_t`. -/
abbrev Word := BitVec 32

inductive Skill where
  | fist | club | sword | axe | distance | shield | fishing
  deriving DecidableEq

inductive SpecialSkill where
  | criticalHitChance | criticalHitAmount | lifeLeechChance | lifeLeechAmount | manaLeechChance | manaLeechAmount
  deriving DecidableEq

inductive Stat where
  | maxHitPoints | maxManaPoints | soulPoints | magicPoints | capacity
  deriving DecidableEq

inductive ExperienceRateType where
  | base | lowLevel | bonus | stamina
  deriving DecidableEq

structure ConditionAttributes where
  id : Nat := 0
  subId : Nat := 0
  ticks : Int := 0
  endTime : Int := 0
  skills : Skill → Word := fun _ => 0
  skillsPercent : Skill → Word := fun _ => 0
  specialSkills : SpecialSkill → Word := fun _ => 0
  stats : Stat → Word := fun _ => 0
  statsPercent : Stat → Word := fun _ => 0
  experienceRate : ExperienceRateType → Word := fun _ => 0
  disableDefense : Bool := false

/-- What percentages are taken of. -/
structure Base where
  healthMax : Word := 150
  resetHpBonus : Word := 0
  manaMax : Word := 0
  resetManaBonus : Word := 0
  magLevel : Nat := 0
  capacity : Word := 40000
  cannotPickupItem : Bool := false
  hasInfiniteCapacity : Bool := false
  skillLevel : Skill → Nat := fun _ => 10

structure Player where
  base : Base := {}
  varSkills : Skill → Word := fun _ => 0
  varSpecialSkills : SpecialSkill → Word := fun _ => 0
  varStats : Stat → Word := fun _ => 0
  experienceRate : ExperienceRateType → Word := fun _ => 100
  canUseDefense : Bool := true
  conditions : List ConditionAttributes := []

namespace Player

def getMaxHealth (p : Player) : Int := max 1 (p.base.healthMax + p.varStats .maxHitPoints + p.base.resetHpBonus).toInt

def getMaxMana (p : Player) : Int := max 0 (p.base.manaMax + p.varStats .maxManaPoints + p.base.resetManaBonus).toInt

def getBaseMagicLevel (p : Player) : Int := p.base.magLevel

def getCapacity (p : Player) : Int :=
  if p.base.cannotPickupItem then 0
  else if p.base.hasInfiniteCapacity then 2 ^ 32 - 1
  else max 0 (p.base.capacity + p.varStats .capacity).toInt

def getBaseSkill (i : Skill) (p : Player) : Int := p.base.skillLevel i

end Player

section

variable (scaled : Int → Word → Word)

namespace ConditionAttributes

def updatePercentSkills (p : Player) (c : ConditionAttributes) : ConditionAttributes :=
  { c with skills := fun i => if c.skillsPercent i = 0 then c.skills i else scaled (p.getBaseSkill i) (c.skillsPercent i) }

def updatePercentStats (p : Player) (c : ConditionAttributes) : ConditionAttributes :=
  { c with stats := fun i =>
      if c.statsPercent i = 0 then c.stats i
      else match i with
        | .maxHitPoints => scaled p.getMaxHealth (c.statsPercent i)
        | .maxManaPoints => scaled p.getMaxMana (c.statsPercent i)
        | .soulPoints => c.stats i
        | .magicPoints => scaled p.getBaseMagicLevel (c.statsPercent i)
        | .capacity => scaled p.getCapacity (c.statsPercent i) }

def updateSkills (c : ConditionAttributes) (p : Player) : Player :=
  { p with
    varSkills := fun i => if c.skills i = 0 then p.varSkills i else p.varSkills i + c.skills i
    varSpecialSkills := fun i =>
      if c.specialSkills i = 0 then p.varSpecialSkills i else p.varSpecialSkills i + c.specialSkills i }

def updateStats (c : ConditionAttributes) (p : Player) : Player :=
  { p with varStats := fun i => if c.stats i = 0 then p.varStats i else p.varStats i + c.stats i }

/-- `setExperienceRate` for every rate that is not 0. -/
def updateExperienceRate (c : ConditionAttributes) (p : Player) : Player :=
  { p with experienceRate := fun i => if c.experienceRate i = 0 then p.experienceRate i else c.experienceRate i }

def startCondition (now : Int) (c : ConditionAttributes) (p : Player) : ConditionAttributes × Player :=
  let c := if 0 < c.ticks ∧ c.endTime = 0 then { c with endTime := c.ticks + now } else c
  let p := { p with canUseDefense := !c.disableDefense }
  let c := c.updatePercentSkills scaled p
  let p := c.updateSkills p
  let c := c.updatePercentStats scaled p
  let p := c.updateStats p
  (c, c.updateExperienceRate p)

/-- `addExperienceRate` for every rate that is not 0. -/
def endCondition (c : ConditionAttributes) (p : Player) : Player :=
  { p with
    varSkills := fun i => if c.skills i = 0 ∧ c.skillsPercent i = 0 then p.varSkills i else p.varSkills i + -c.skills i
    varSpecialSkills := fun i =>
      if c.specialSkills i = 0 then p.varSpecialSkills i else p.varSpecialSkills i + -c.specialSkills i
    varStats := fun i => if c.stats i = 0 then p.varStats i else p.varStats i + -c.stats i
    experienceRate := fun i => if c.experienceRate i = 0 then p.experienceRate i else p.experienceRate i + -c.experienceRate i
    canUseDefense := if c.disableDefense then true else p.canUseDefense }

/-- Whether a condition gives way to another of its type. -/
def updateCondition (c : ConditionAttributes) (now : Int) (addCondition : ConditionAttributes) : Bool :=
  if c.ticks = -1 ∧ 0 < addCondition.ticks then false
  else if 0 ≤ addCondition.ticks ∧ now + addCondition.ticks < c.endTime then false
  else true

def addCondition (c : ConditionAttributes) (now : Int) (condition : ConditionAttributes) (p : Player) : ConditionAttributes × Player :=
  if c.updateCondition now condition then
    let p := c.endCondition p
    let c := { condition with id := c.id, subId := c.subId, endTime := condition.ticks + now }
    let c := c.updatePercentSkills scaled p
    let p := c.updateSkills p
    let c := c.updatePercentStats scaled p
    (c, c.updateStats p)
  else (c, p)

end ConditionAttributes

namespace Player

/-- The condition with the key of another, and where it is. -/
def getCondition (c : ConditionAttributes) (p : Player) : Option (Nat × ConditionAttributes) :=
  (p.conditions.findIdx? fun d => d.id = c.id ∧ d.subId = c.subId).bind fun i => p.conditions[i]?.map (i, ·)

/-- `Creature::addCondition` -/
def addCondition (now : Int) (c : ConditionAttributes) (p : Player) : Player :=
  match p.getCondition c with
  | some (i, prev) =>
    let (prev, p) := prev.addCondition scaled now c p
    { p with conditions := p.conditions.set i prev }
  | none =>
    let (c, p) := c.startCondition scaled now p
    { p with conditions := p.conditions ++ [c] }

/-- The `i`-th condition ends. -/
def endCondition (i : Nat) (p : Player) : Player :=
  match p.conditions[i]? with
  | none => p
  | some c => c.endCondition { p with conditions := p.conditions.eraseIdx i }

end Player

inductive Event where
  | addCondition (now : Int) (c : ConditionAttributes)
  | endCondition (i : Nat)
  /-- The player grows, or gains a flag. -/
  | change (base : Base)

def step (p : Player) : Event → Player
  | .addCondition now c => p.addCondition scaled now c
  | .endCondition i => p.endCondition i
  | .change base => { p with base := base }

end

/-! ## What a condition does -/

section

variable {scaled : Int → Word → Word} {p p₀ : Player} {c d : ConditionAttributes} {i : Nat}

theorem add_unless_zero (x y : Word) : (if x = 0 then y else y + x) = y + x := by
  split
  · rename_i hzero
    rw [hzero, add_zero]
  · rfl

theorem sub_unless_zero (x y : Word) : (if x = 0 then y else y + -x) = y + -x := by
  split
  · rename_i hzero
    rw [hzero, neg_zero, add_zero]
  · rfl

/-- The effects of a condition on what varies are added, whatever they were worked out to be. -/
structure Applied (p : Player) (c : ConditionAttributes) (p' : Player) : Prop where
  skills : ∀ i, p'.varSkills i = p.varSkills i + c.skills i
  specialSkills : ∀ i, p'.varSpecialSkills i = p.varSpecialSkills i + c.specialSkills i
  stats : ∀ i, p'.varStats i = p.varStats i + c.stats i

theorem startCondition_applied (now : Int) (c : ConditionAttributes) (p : Player) :
    Applied p (c.startCondition scaled now p).1 (c.startCondition scaled now p).2 := by
  refine ⟨fun i => ?_, fun i => ?_, fun i => ?_⟩
  · exact add_unless_zero _ _
  · exact add_unless_zero _ _
  · exact add_unless_zero _ _

@[simp] theorem startCondition_rates (now : Int) (c : ConditionAttributes) (p : Player) :
    (c.startCondition scaled now p).1.experienceRate = c.experienceRate := by
  unfold ConditionAttributes.startCondition
  split
  · rfl
  · rfl

@[simp] theorem startCondition_disableDefense (now : Int) (c : ConditionAttributes) (p : Player) :
    (c.startCondition scaled now p).1.disableDefense = c.disableDefense := by
  unfold ConditionAttributes.startCondition
  split
  · rfl
  · rfl

theorem startCondition_experienceRate (now : Int) (c : ConditionAttributes) (p : Player) (i : ExperienceRateType) :
    (c.startCondition scaled now p).2.experienceRate i = if c.experienceRate i = 0 then p.experienceRate i else c.experienceRate i := by
  unfold ConditionAttributes.startCondition
  split
  · rfl
  · rfl

theorem startCondition_canUseDefense (now : Int) (c : ConditionAttributes) (p : Player) :
    (c.startCondition scaled now p).2.canUseDefense = !c.disableDefense := by
  unfold ConditionAttributes.startCondition
  split
  · rfl
  · rfl

theorem endCondition_skills (c : ConditionAttributes) (p : Player) (i : Skill) :
    (c.endCondition p).varSkills i = p.varSkills i + -c.skills i := by
  show (if c.skills i = 0 ∧ c.skillsPercent i = 0 then p.varSkills i else p.varSkills i + -c.skills i) = _
  grind

theorem endCondition_specialSkills (c : ConditionAttributes) (p : Player) (i : SpecialSkill) :
    (c.endCondition p).varSpecialSkills i = p.varSpecialSkills i + -c.specialSkills i := sub_unless_zero _ _

theorem endCondition_stats (c : ConditionAttributes) (p : Player) (i : Stat) :
    (c.endCondition p).varStats i = p.varStats i + -c.stats i := sub_unless_zero _ _

theorem endCondition_experienceRate (c : ConditionAttributes) (p : Player) (i : ExperienceRateType) :
    (c.endCondition p).experienceRate i = p.experienceRate i + -c.experienceRate i := sub_unless_zero _ _

theorem addCondition_applied (now : Int) (d c : ConditionAttributes) (p : Player) (h : c.updateCondition now d = true) :
    Applied (c.endCondition p) (c.addCondition scaled now d p).1 (c.addCondition scaled now d p).2 := by
  unfold ConditionAttributes.addCondition
  rw [if_pos h]
  refine ⟨fun i => ?_, fun i => ?_, fun i => ?_⟩
  · exact add_unless_zero _ _
  · exact add_unless_zero _ _
  · exact add_unless_zero _ _

theorem addCondition_rest (now : Int) (d c : ConditionAttributes) (p : Player) (h : c.updateCondition now d = true) :
    (c.addCondition scaled now d p).1.experienceRate = d.experienceRate ∧
      (c.addCondition scaled now d p).1.disableDefense = d.disableDefense ∧
        (c.addCondition scaled now d p).2.experienceRate = (c.endCondition p).experienceRate ∧
          (c.addCondition scaled now d p).2.canUseDefense = (c.endCondition p).canUseDefense ∧
            (c.addCondition scaled now d p).2.conditions = p.conditions := by
  unfold ConditionAttributes.addCondition
  rw [if_pos h]
  exact ⟨rfl, rfl, rfl, rfl, rfl⟩

/-! ## What a player is made up of -/

def defends (l : List ConditionAttributes) : Bool := l.all fun c => !c.disableDefense

/-- Skills, special skills and stats are what they were before the first condition, and the effects of
    those that are active. -/
structure Skilled (p₀ p : Player) : Prop where
  skills : ∀ i, Balance (p₀.varSkills i) (fun c => c.skills i) p.conditions (p.varSkills i)
  specialSkills : ∀ i, Balance (p₀.varSpecialSkills i) (fun c => c.specialSkills i) p.conditions (p.varSpecialSkills i)
  stats : ∀ i, Balance (p₀.varStats i) (fun c => c.stats i) p.conditions (p.varStats i)

/-- The experience rates too; and defence is used if it was before and no condition disables it. -/
structure Rated (p₀ p : Player) : Prop where
  rates : ∀ i, Balance (p₀.experienceRate i) (fun c => c.experienceRate i) p.conditions (p.experienceRate i)
  defense : p.canUseDefense = (p₀.canUseDefense && defends p.conditions)

/-- A condition starts next to the others without a trace of it being lost. -/
def MeetsStart (p : Player) (c : ConditionAttributes) : Prop :=
  (∀ i, c.experienceRate i ≠ 0 → p.experienceRate i = 0) ∧ (c.disableDefense = true ∨ p.canUseDefense = true)

/-- So does the `i`-th end. -/
def MeetsEnd (p₀ p : Player) (i : Nat) (c : ConditionAttributes) : Prop :=
  c.disableDefense = true → p₀.canUseDefense = true ∧ defends (p.conditions.eraseIdx i) = true

/-- So is the `i`-th replaced. -/
def MeetsMerge (p₀ p : Player) (i : Nat) (prev c : ConditionAttributes) : Prop :=
  (∀ i, c.experienceRate i = 0) ∧
    if prev.disableDefense then
      p₀.canUseDefense = true ∧ defends (p.conditions.eraseIdx i) = true ∧ c.disableDefense = false
    else c.disableDefense = false ∨ p.canUseDefense = false

def Meets (p₀ p : Player) : Event → Prop
  | .addCondition now c =>
    match p.getCondition c with
    | none => MeetsStart p c
    | some (i, prev) => prev.updateCondition now c = true → MeetsMerge p₀ p i prev c
  | .endCondition i => ∀ c, p.conditions[i]? = some c → MeetsEnd p₀ p i c
  | .change _ => True

theorem defends_perm {l l' : List ConditionAttributes} (h : l.Perm l') : defends l = defends l' := h.all_eq

theorem defends_cons (c : ConditionAttributes) (l : List ConditionAttributes) :
    defends (c :: l) = (!c.disableDefense && defends l) := rfl

theorem getCondition_get {d : ConditionAttributes} (h : p.getCondition c = some (i, d)) : p.conditions[i]? = some d := by
  obtain ⟨j, -, hj⟩ := Option.bind_eq_some_iff.mp h
  grind

/-! ### A start -/

theorem Skilled.start (h : Skilled p₀ p) (now : Int) (c : ConditionAttributes) :
    Skilled p₀ { (c.startCondition scaled now p).2 with
      conditions := (c.startCondition scaled now p).2.conditions ++ [(c.startCondition scaled now p).1] } := by
  have happlied := @startCondition_applied scaled now c p
  refine ⟨fun i => ?_, fun i => ?_, fun i => ?_⟩
  · exact ((h.skills i).append_iff _).mpr (happlied.skills i)
  · exact ((h.specialSkills i).append_iff _).mpr (happlied.specialSkills i)
  · exact ((h.stats i).append_iff _).mpr (happlied.stats i)

theorem set_rate_iff (x y : Word) : (if x = 0 then y else x) = y + x ↔ (x ≠ 0 → y = 0) := by
  by_cases hzero : x = 0
  · simp [hzero]
  · rw [if_neg hzero, right_eq_add]
    exact ⟨fun h _ => h, fun h => h hzero⟩

theorem Rated.start_iff (h : Rated p₀ p) (now : Int) (c : ConditionAttributes) :
    Rated p₀ { (c.startCondition scaled now p).2 with
      conditions := (c.startCondition scaled now p).2.conditions ++ [(c.startCondition scaled now p).1] } ↔ MeetsStart p c := by
  have hrate : ∀ i, Balance (p₀.experienceRate i) (fun c => c.experienceRate i) (p.conditions ++ [(c.startCondition scaled now p).1])
      ((c.startCondition scaled now p).2.experienceRate i) ↔ (c.experienceRate i ≠ 0 → p.experienceRate i = 0) := by
    intro i
    rw [(h.rates i).append_iff, startCondition_experienceRate, startCondition_rates]
    exact set_rate_iff _ _
  have hdefense : (c.startCondition scaled now p).2.canUseDefense =
      (p₀.canUseDefense && defends (p.conditions ++ [(c.startCondition scaled now p).1])) ↔
        (c.disableDefense = true ∨ p.canUseDefense = true) := by
    rw [startCondition_canUseDefense, defends_perm (perm_append_singleton _ _), defends_cons,
      startCondition_disableDefense, h.defense]
    cases c.disableDefense with
    | true => simp
    | false =>
      simp
  constructor
  · intro hrated
    exact ⟨fun i => (hrate i).mp (hrated.rates i), hdefense.mp hrated.defense⟩
  · intro hmeets
    exact ⟨fun i => (hrate i).mpr (hmeets.1 i), hdefense.mpr hmeets.2⟩

/-! ### An end -/

theorem Skilled.end (h : Skilled p₀ p) (hi : p.conditions[i]? = some c) :
    Skilled p₀ (c.endCondition { p with conditions := p.conditions.eraseIdx i }) := by
  refine ⟨fun j => ?_, fun j => ?_, fun j => ?_⟩
  · exact ((h.skills j).eraseIdx_iff hi).mpr (endCondition_skills c _ j)
  · exact ((h.specialSkills j).eraseIdx_iff hi).mpr (endCondition_specialSkills c _ j)
  · exact ((h.stats j).eraseIdx_iff hi).mpr (endCondition_stats c _ j)

theorem perm_of_getElem? {l : List ConditionAttributes} (hi : l[i]? = some c) : l.Perm (c :: l.eraseIdx i) := by
  obtain ⟨hlt, rfl⟩ := List.getElem?_eq_some_iff.mp hi
  exact (getElem_cons_eraseIdx_perm hlt).symm

theorem Rated.end_iff (h : Rated p₀ p) (hi : p.conditions[i]? = some c) :
    Rated p₀ (c.endCondition { p with conditions := p.conditions.eraseIdx i }) ↔ MeetsEnd p₀ p i c := by
  have hrates : ∀ j, Balance (p₀.experienceRate j) (fun c => c.experienceRate j) (p.conditions.eraseIdx i)
      ((c.endCondition { p with conditions := p.conditions.eraseIdx i }).experienceRate j) :=
    fun j => ((h.rates j).eraseIdx_iff hi).mpr (endCondition_experienceRate c _ j)
  have hdefense : (if c.disableDefense then true else p.canUseDefense) =
      (p₀.canUseDefense && defends (p.conditions.eraseIdx i)) ↔ MeetsEnd p₀ p i c := by
    have hnow := h.defense
    rw [defends_perm (perm_of_getElem? hi), defends_cons] at hnow
    rw [hnow, MeetsEnd]
    cases c.disableDefense with
    | true =>
      rw [if_pos rfl, eq_comm, Bool.and_eq_true]
      exact ⟨fun h _ => h, fun h => h rfl⟩
    | false => simp
  constructor
  · intro hrated
    exact hdefense.mp hrated.defense
  · intro hmeets
    exact ⟨hrates, hdefense.mpr hmeets⟩

/-! ### A merge -/

theorem Skilled.merge (h : Skilled p₀ p) (hi : p.conditions[i]? = some c) (now : Int) (d : ConditionAttributes)
    (hupdate : c.updateCondition now d = true) :
    Skilled p₀ { (c.addCondition scaled now d p).2 with
      conditions := (c.addCondition scaled now d p).2.conditions.set i (c.addCondition scaled now d p).1 } := by
  have happlied := @addCondition_applied scaled now d c p hupdate
  have hconditions := (@addCondition_rest scaled now d c p hupdate).2.2.2.2
  refine ⟨fun j => ?_, fun j => ?_, fun j => ?_⟩
  · rw [hconditions, (h.skills j).set_iff hi, happlied.skills, endCondition_skills]
  · rw [hconditions, (h.specialSkills j).set_iff hi, happlied.specialSkills, endCondition_specialSkills]
  · rw [hconditions, (h.stats j).set_iff hi, happlied.stats, endCondition_stats]

theorem Rated.merge_iff (h : Rated p₀ p) (hi : p.conditions[i]? = some c) (now : Int) (d : ConditionAttributes)
    (hupdate : c.updateCondition now d = true) :
    Rated p₀ { (c.addCondition scaled now d p).2 with
      conditions := (c.addCondition scaled now d p).2.conditions.set i (c.addCondition scaled now d p).1 } ↔
        MeetsMerge p₀ p i c d := by
  obtain ⟨hrates, hdisable, hrate, hcan, hconditions⟩ := @addCondition_rest scaled now d c p hupdate
  have hperm : (p.conditions.set i (c.addCondition scaled now d p).1).Perm
      ((c.addCondition scaled now d p).1 :: p.conditions.eraseIdx i) := by
    obtain ⟨hlt, -⟩ := List.getElem?_eq_some_iff.mp hi
    exact set_perm_cons_eraseIdx hlt _
  have hrate_iff : ∀ j, Balance (p₀.experienceRate j) (fun c => c.experienceRate j)
      (p.conditions.set i (c.addCondition scaled now d p).1) ((c.addCondition scaled now d p).2.experienceRate j) ↔
        d.experienceRate j = 0 := by
    intro j
    rw [(h.rates j).set_iff hi, hrates, hrate, endCondition_experienceRate, left_eq_add]
  have hdefense_iff : (c.addCondition scaled now d p).2.canUseDefense =
      (p₀.canUseDefense && defends (p.conditions.set i (c.addCondition scaled now d p).1)) ↔
        if c.disableDefense then p₀.canUseDefense = true ∧ defends (p.conditions.eraseIdx i) = true ∧ d.disableDefense = false
        else d.disableDefense = false ∨ p.canUseDefense = false := by
    have hnow := h.defense
    rw [defends_perm (perm_of_getElem? hi), defends_cons] at hnow
    rw [hcan, defends_perm hperm, defends_cons, hdisable]
    show (if c.disableDefense then true else p.canUseDefense) = _ ↔ _
    rw [hnow]
    cases c.disableDefense with
    | true => cases p₀.canUseDefense <;> cases defends (p.conditions.eraseIdx i) <;> cases d.disableDefense <;> decide
    | false => cases p₀.canUseDefense <;> cases defends (p.conditions.eraseIdx i) <;> cases d.disableDefense <;> decide
  rw [hconditions]
  constructor
  · intro hrated
    exact ⟨fun j => (hrate_iff j).mp (hrated.rates j), hdefense_iff.mp hrated.defense⟩
  · intro hmeets
    exact ⟨fun j => (hrate_iff j).mpr (hmeets.1 j), hdefense_iff.mpr hmeets.2⟩

theorem addCondition_refused (hi : p.conditions[i]? = some c) (now : Int) (d : ConditionAttributes)
    (hupdate : c.updateCondition now d = false) :
    ({ (c.addCondition scaled now d p).2 with
      conditions := (c.addCondition scaled now d p).2.conditions.set i (c.addCondition scaled now d p).1 } : Player) = p := by
  have hrefused : c.addCondition scaled now d p = (c, p) := by
    simp [ConditionAttributes.addCondition, hupdate]
  obtain ⟨hlt, rfl⟩ := List.getElem?_eq_some_iff.mp hi
  rw [hrefused, set_getElem_self]

/-! ### Steps -/

theorem Skilled.step (h : Skilled p₀ p) (e : Event) : Skilled p₀ (step scaled p e) := by
  cases e with
  | addCondition now c =>
    show Skilled p₀ (p.addCondition scaled now c)
    unfold Player.addCondition
    cases hget : p.getCondition c with
    | none => exact h.start now c
    | some found =>
      obtain ⟨i, prev⟩ := found
      cases hupdate : prev.updateCondition now c with
      | true => exact h.merge (getCondition_get hget) now c hupdate
      | false =>
        show Skilled p₀ { (prev.addCondition scaled now c p).2 with
          conditions := (prev.addCondition scaled now c p).2.conditions.set i (prev.addCondition scaled now c p).1 }
        rw [addCondition_refused (getCondition_get hget) now c hupdate]
        exact h
  | endCondition i =>
    show Skilled p₀ (p.endCondition i)
    unfold Player.endCondition
    cases hi : p.conditions[i]? with
    | none => exact h
    | some c => exact h.end hi
  | change base => exact { h with }

theorem Rated.step_iff (h : Rated p₀ p) (e : Event) : Rated p₀ (step scaled p e) ↔ Meets p₀ p e := by
  cases e with
  | addCondition now c =>
    show Rated p₀ (p.addCondition scaled now c) ↔ (match p.getCondition c with
      | none => MeetsStart p c
      | some (i, prev) => prev.updateCondition now c = true → MeetsMerge p₀ p i prev c)
    unfold Player.addCondition
    cases hget : p.getCondition c with
    | none => exact h.start_iff now c
    | some found =>
      obtain ⟨i, prev⟩ := found
      show Rated p₀ { (prev.addCondition scaled now c p).2 with
        conditions := (prev.addCondition scaled now c p).2.conditions.set i (prev.addCondition scaled now c p).1 } ↔
          (prev.updateCondition now c = true → MeetsMerge p₀ p i prev c)
      cases hupdate : prev.updateCondition now c with
      | true =>
        rw [h.merge_iff (getCondition_get hget) now c hupdate]
        exact ⟨fun h _ => h, fun h => h rfl⟩
      | false =>
        rw [addCondition_refused (getCondition_get hget) now c hupdate]
        exact ⟨fun _ h => (Bool.false_ne_true h).elim, fun _ => h⟩
  | endCondition i =>
    show Rated p₀ (p.endCondition i) ↔ ∀ c, p.conditions[i]? = some c → MeetsEnd p₀ p i c
    unfold Player.endCondition
    cases hi : p.conditions[i]? with
    | none => exact ⟨fun _ c h => (by cases h), fun _ => h⟩
    | some c =>
      rw [h.end_iff hi]
      exact ⟨fun h d heq => (by cases heq; exact h), fun h => h c rfl⟩
  | change base => exact ⟨fun _ => trivial, fun _ => ⟨h.rates, h.defense⟩⟩

/-! ## Runs -/

/-- The attributes are those before the first condition and the effects of the active ones, so
    without one they are what they were. -/
def AddsUp (p₀ p : Player) : Prop :=
  (Skilled p₀ p ∧ Rated p₀ p) ∧
    (p.conditions = [] → p.varSkills = p₀.varSkills ∧ p.varSpecialSkills = p₀.varSpecialSkills ∧ p.varStats = p₀.varStats ∧
      p.experienceRate = p₀.experienceRate ∧ p.canUseDefense = p₀.canUseDefense)

theorem addsUp_iff : AddsUp p₀ p ↔ Skilled p₀ p ∧ Rated p₀ p := by
  refine ⟨fun h => h.1, fun h => ⟨h, fun hnone => ?_⟩⟩
  obtain ⟨⟨hskills, hspecial, hstats⟩, hrates, hdefense⟩ := h
  rw [hnone] at hskills hspecial hstats hrates hdefense
  refine ⟨funext fun i => balance_nil.mp (hskills i), funext fun i => balance_nil.mp (hspecial i),
    funext fun i => balance_nil.mp (hstats i), funext fun i => balance_nil.mp (hrates i), ?_⟩
  rw [hdefense]
  exact Bool.and_true _

theorem addsUp_start (hnone : p₀.conditions = []) : AddsUp p₀ p₀ := by
  refine addsUp_iff.mpr ⟨⟨fun i => ?_, fun i => ?_, fun i => ?_⟩, fun i => ?_, ?_⟩
  · rw [hnone]
    exact balance_nil.mpr rfl
  · rw [hnone]
    exact balance_nil.mpr rfl
  · rw [hnone]
    exact balance_nil.mpr rfl
  · rw [hnone]
    exact balance_nil.mpr rfl
  · rw [hnone]
    exact (Bool.and_true _).symm

/-- For a player without a condition: the attributes add up all along a run exactly when every
    step meets the condition. -/
theorem attributes_add_up_iff (hnone : p₀.conditions = []) (es : List Event) :
    (∀ k ≤ es.length, AddsUp p₀ (run (step scaled) p₀ (es.take k))) ↔ Allowed (step scaled) (Meets p₀) p₀ es := by
  refine along_iff_allowed (I := AddsUp p₀) (fun _ h => h) ?_ ?_ (addsUp_start hnone) es
  · intro p e hmeets h
    exact addsUp_iff.mpr ⟨h.1.1.step e, (h.1.2.step_iff e).mpr hmeets⟩
  · intro p e h hadds
    exact (h.1.2.step_iff e).mp hadds.1.2

end

/-- A condition that gives ten to every skill comes and goes. -/
theorem skills_add_up :
    AddsUp {} (run (step fun _ _ => 0) {} [.addCondition 0 { skills := fun _ => 10 }, .endCondition 0]) := by
  refine (attributes_add_up_iff rfl [.addCondition 0 { skills := fun _ => 10 }, .endCondition 0]).mpr ⟨?_, ?_, trivial⟩ 2 (le_refl 2)
  · exact ⟨fun i hrate => absurd rfl hrate, .inr rfl⟩
  · intro c hc hdisable
    cases hc
    cases hdisable

/-- A new player's rate is 100 and is none after a condition that makes it 150. -/
theorem rate_lost :
    ¬ AddsUp {} (run (step fun _ _ => 0) {} [.addCondition 0 { experienceRate := fun _ => 150 }, .endCondition 0]) := by
  intro hadds
  have hrate := congrFun (hadds.2 rfl).2.2.2.1 .base
  revert hrate
  decide

end Backlands.Conditions.Attributes
