/-
  Backlands.Conditions.Lighting — the light condition and the light of its creature
  (src/condition.cpp: `ConditionLight`; src/creature.cpp, src/player.cpp: `getCreatureLight`).

  A condition is that of `Codec`, with the proof that its class is `ConditionLight`. A division
  by zero is `none`. `now` is `OTSYS_TIME()` in a call. Only a player has light items, and the
  light of a creature is the stronger one of theirs and its own. A read that fails leaves the
  condition as it was; the source keeps the fields read before, but its callers drop it then.

  Proved: `light_safe_iff`. Counterexample: `level_cut_to_zero`.
-/

import Backlands.Conditions.Codec

namespace Backlands.Conditions.Lighting

open Backlands.Lib Option BitVec

/-! ## The condition and its creature -/

structure LightInfo where
  level : BitVec 8 := 0
  color : BitVec 8 := 215
  deriving DecidableEq

structure Creature where
  internalLight : LightInfo := {}
  itemsLight : Option LightInfo := none
  deriving DecidableEq

namespace Creature

def getCreatureLight (c : Creature) : LightInfo :=
  match c.itemsLight with
  | none => c.internalLight
  | some itemsLight => if c.internalLight.level > itemsLight.level then c.internalLight else itemsLight

def setCreatureLight (lightInfo : LightInfo) (c : Creature) : Creature := { c with internalLight := lightInfo }

/-- What `executeCondition` does at a change. -/
def dim (c : Creature) : Creature :=
  let lightInfo := c.getCreatureLight
  if lightInfo.level > 0 then c.setCreatureLight { lightInfo with level := lightInfo.level - 1 } else c

def itemsLevel (c : Creature) : Nat := (c.itemsLight.map fun light => light.level.toNat).getD 0

end Creature

/-- What the class `ConditionLight` adds. -/
def toLight : Body → Light
  | .light l => l
  | _ => { level := 0, color := 0 }

structure ConditionLight where
  base : Condition
  lightInfo : Light
  body_eq : base.body = .light lightInfo

inductive ConditionParam where
  | ticks | buffSpell | subId | aggressive | lightLevel | lightColor | other

/-- `Condition::setParam`. -/
def setParamBase (param : ConditionParam) (value : BitVec 32) (c : Condition) : Bool × Condition :=
  match param with
  | .ticks => (true, { c with ticks := value })
  | .buffSpell => (true, { c with isBuff := decide (value ≠ 0) })
  | .subId => (true, { c with subId := value })
  | .aggressive => (true, { c with aggressive := decide (value ≠ 0) })
  | .lightLevel | .lightColor | .other => (false, c)

theorem setParamBase_body (param : ConditionParam) (value : BitVec 32) (c : Condition) :
    (setParamBase param value c).2.body = c.body := by
  cases param <;> rfl

/-- `Condition::startCondition`. -/
def startBase (now : BitVec 64) (c : Condition) : Condition :=
  if 0 < c.ticks.toInt ∧ c.endTime = 0 then { c with endTime := c.ticks.signExtend 64 + now } else c

theorem startBase_body (now : BitVec 64) (c : Condition) : (startBase now c).body = c.body := by
  unfold startBase
  split <;> rfl

/-- `Condition::executeCondition`. -/
def executeBase (now : BitVec 64) (interval : BitVec 32) (c : Condition) : Bool × Condition :=
  if c.ticks = -1 then (true, c)
  else
    let ticks := c.ticks - interval
    (decide (now.toInt ≤ c.endTime.toInt), { c with ticks := if 0 < ticks.toInt then ticks else 0 })

theorem executeBase_body (now : BitVec 64) (interval : BitVec 32) (c : Condition) :
    (executeBase now interval c).2.body = c.body := by
  unfold executeBase
  split <;> rfl

/-- `Condition::updateCondition`. -/
def updateCondition (now : BitVec 64) (c addCondition : Condition) : Bool :=
  if c.conditionType ≠ addCondition.conditionType then false
  else if c.ticks = -1 ∧ 0 < addCondition.ticks.toInt then false
  else if 0 ≤ addCondition.ticks.toInt ∧ (now + addCondition.ticks.signExtend 64).toInt < c.endTime.toInt then false
  else true

/-- `ticks / lightInfo.level`, with the level widened to an `int`. -/
def changeInterval (ticks : BitVec 32) (level : BitVec 8) : Option (BitVec 32) :=
  if level = 0 then none else some (ticks.sdiv (level.setWidth 32))

theorem unserialize_light (now : Condition → BitVec 64) {c : Condition} (hc : ∃ l, c.body = .light l) (bs : Bytes) :
    (unserialize now c bs).Satisfies fun c => ∃ l, c.body = .light l := by
  refine tags_satisfies (P := fun c : Condition => ∃ l, c.body = .light l) (fun t c bs hc => ?_) bs.length hc bs
  obtain ⟨l, hl⟩ := hc
  unfold unserializeByte
  cases ConditionAttr.ofCode t with
  | none => trivial
  | some a =>
    simp only [unserializeProp, hl]
    cases a with
    | lightColor | lightLevel | lightTicks | lightInterval => exact Outcome.field_satisfies (fun _ => ⟨_, rfl⟩) ..
    | type | type64 | id | ticks | isBuff | subId | isAggressive | constant | endTime =>
      exact Outcome.field_satisfies (fun _ => ⟨l, hl⟩) ..
    | _ => trivial

namespace ConditionLight

/-- `createCondition` for a light. -/
def create (id : BitVec 8) (ticks param : BitVec 32) (buff : Bool) (subId : BitVec 32) (aggressive : Bool) : ConditionLight :=
  let lightInfo : Light := { level := (param &&& 0xFF).setWidth 8, color := ((param &&& 0xFF00) >>> 8).setWidth 8 }
  ⟨newCondition id ConditionType.light.value ticks buff subId aggressive (.light lightInfo), lightInfo, rfl⟩

def withLight (lightInfo : Light) (c : ConditionLight) : ConditionLight :=
  ⟨{ c.base with body := .light lightInfo }, lightInfo, rfl⟩

def setParam (param : ConditionParam) (value : BitVec 32) (c : ConditionLight) : Bool × ConditionLight :=
  let ret := setParamBase param value c.base
  let c : ConditionLight := ⟨ret.2, c.lightInfo, (setParamBase_body param value c.base).trans c.body_eq⟩
  if ret.1 then (false, c)
  else
    match param with
    | .lightLevel => (true, c.withLight { c.lightInfo with level := value.setWidth 8 })
    | .lightColor => (true, c.withLight { c.lightInfo with color := value.setWidth 8 })
    | _ => (false, c)

def unserialize (propStream : Bytes) (c : ConditionLight) : ConditionLight :=
  match h : Conditions.unserialize (fun _ => 0) c.base propStream with
  | .ended base _ =>
    have hbase : ∃ l, base.body = .light l := by
      have hread := unserialize_light (fun _ => 0) ⟨c.lightInfo, c.body_eq⟩ propStream
      rw [h] at hread
      exact hread
    ⟨base, toLight base.body, by
      obtain ⟨l, hl⟩ := hbase
      rw [hl]
      rfl⟩
  | .more _ _ | .failed _ _ => c

def startCondition (now : BitVec 64) (c : ConditionLight) (creature : Creature) : Option (ConditionLight × Creature) :=
  let c : ConditionLight := ⟨startBase now c.base, c.lightInfo, (startBase_body now c.base).trans c.body_eq⟩
  (changeInterval c.base.ticks c.lightInfo.level).map fun lightChangeInterval =>
    (c.withLight { c.lightInfo with internalLightTicks := 0, lightChangeInterval := lightChangeInterval },
      creature.setCreatureLight ⟨c.lightInfo.level, c.lightInfo.color⟩)

/-- Whether the condition goes on, and the condition and its creature after the call. -/
def executeCondition (now : BitVec 64) (interval : BitVec 32) (c : ConditionLight) (creature : Creature) :
    Bool × ConditionLight × Creature :=
  let internalLightTicks := c.lightInfo.internalLightTicks + interval
  let changed := internalLightTicks ≥ c.lightInfo.lightChangeInterval
  let c := c.withLight { c.lightInfo with internalLightTicks := if changed then 0 else internalLightTicks }
  let ret := executeBase now interval c.base
  (ret.1, ⟨ret.2, c.lightInfo, (executeBase_body now interval c.base).trans c.body_eq⟩, if changed then creature.dim else creature)

def addCondition (now : BitVec 64) (c condition : ConditionLight) (creature : Creature) : Option (ConditionLight × Creature) :=
  if updateCondition now c.base condition.base then
    let base := setTicks now condition.base.ticks c.base
    let level := condition.lightInfo.level
    let color := condition.lightInfo.color
    (changeInterval base.ticks level).map fun lightChangeInterval =>
      (⟨{ base with body := .light ⟨level, color, 0, lightChangeInterval⟩ }, ⟨level, color, 0, lightChangeInterval⟩, rfl⟩,
        creature.setCreatureLight ⟨level, color⟩)
  else some (c, creature)

end ConditionLight

/-! ## Runs -/

structure State where
  condition : ConditionLight
  creature : Creature

inductive Event where
  | setParam (param : ConditionParam) (value : BitVec 32)
  | unserialize (propStream : Bytes)
  | startCondition (now : BitVec 64)
  | executeCondition (now : BitVec 64) (interval : BitVec 32)
  | addCondition (now : BitVec 64) (condition : ConditionLight)

namespace State

def step (s : State) : Event → Option State
  | .setParam param value => some { s with condition := (s.condition.setParam param value).2 }
  | .unserialize propStream => some { s with condition := s.condition.unserialize propStream }
  | .startCondition now => (s.condition.startCondition now s.creature).map fun r => ⟨r.1, r.2⟩
  | .executeCondition now interval =>
    let r := s.condition.executeCondition now interval s.creature
    some ⟨r.2.1, r.2.2⟩
  | .addCondition now condition => (s.condition.addCondition now condition s.creature).map fun r => ⟨r.1, r.2⟩

def run (s : State) : List Event → Option State
  | [] => some s
  | e :: es => (s.step e).bind fun s => s.run es

end State

def Event.Lights (s : State) : Event → Prop
  | .startCondition _ => True
  | .addCondition now condition => updateCondition now s.condition.base condition.base = true
  | .setParam .. | .unserialize _ | .executeCondition .. => False

/-- The level that is divided by is not zero. -/
def Event.Meets (s : State) : Event → Prop
  | .startCondition _ => s.condition.lightInfo.level ≠ 0
  | .addCondition now condition => updateCondition now s.condition.base condition.base = true → condition.lightInfo.level ≠ 0
  | .setParam .. | .unserialize _ | .executeCondition .. => True

/-- The intervals counted while times pass, the first with `passed` of it over. -/
def changes (interval : Nat) : Nat → List Nat → Nat
  | _, [] => 0
  | passed, time :: times =>
    if interval ≤ passed + time then changes interval 0 times + 1 else changes interval (passed + time) times

/-- From a light that has just been set, the level goes down by one with each change. -/
def CountsDown (s : State) : Prop :=
  let level := s.condition.lightInfo.level.toNat
  let interval := s.condition.base.ticks.toNat / level
  0 < s.condition.base.ticks.toInt → ∀ calls : List (BitVec 64 × Nat), (∀ call ∈ calls, call.2 ≤ interval) →
    ∃ s', s.run (calls.map fun call => .executeCondition call.1 (BitVec.ofNat 32 call.2)) = some s' ∧
      s'.creature.getCreatureLight.level.toNat = max (level - changes interval 0 (calls.map Prod.snd)) s.creature.itemsLevel

/-! ## What a step does -/

section
variable {s s' : State}

theorem changeInterval_isSome (ticks : BitVec 32) (level : BitVec 8) : (changeInterval ticks level).isSome = true ↔ level ≠ 0 := by
  simp [changeInterval]

theorem step_isSome (s : State) (e : Event) : (s.step e).isSome = true ↔ e.Meets s := by
  cases e with
  | setParam param value => exact iff_of_true rfl trivial
  | unserialize propStream => exact iff_of_true rfl trivial
  | executeCondition now interval => exact iff_of_true rfl trivial
  | startCondition now =>
    simp only [State.step, ConditionLight.startCondition, isSome_map]
    exact changeInterval_isSome _ _
  | addCondition now condition =>
    simp only [State.step, ConditionLight.addCondition, isSome_map, Event.Meets]
    split
    · next hupdate =>
      rw [isSome_map, changeInterval_isSome]
      exact ⟨fun h _ => h, fun h => h hupdate⟩
    · next hupdate => exact iff_of_true rfl fun h => absurd h hupdate

theorem run_append (s : State) (es es' : List Event) : s.run (es ++ es') = (s.run es).bind fun s => s.run es' := by
  induction es generalizing s with
  | nil => rfl
  | cons e es ih =>
    rw [List.cons_append, State.run, State.run, bind_assoc]
    exact congrArg _ (funext ih)

theorem two_mul_toNat_lt {ticks : BitVec 32} (h : 0 < ticks.toInt) : 2 * ticks.toNat < 2 ^ 32 := by
  have hlt := ticks.isLt
  rw [toInt_eq_toNat_cond] at h
  split at h
  · assumption
  · omega

theorem toNat_changeInterval {ticks : BitVec 32} {level : BitVec 8} (hticks : 0 < ticks.toInt) {interval : BitVec 32}
    (h : changeInterval ticks level = some interval) : interval.toNat = ticks.toNat / level.toNat := by
  unfold changeInterval at h
  split at h
  · cases h
  obtain rfl := Option.some.inj h
  have hmsb : ticks.msb = false := by
    rw [msb_eq_false_iff_two_mul_lt]
    exact two_mul_toNat_lt hticks
  have hwide : (level.setWidth 32).msb = false := by
    rw [msb_eq_false_iff_two_mul_lt, toNat_setWidth]
    omega
  rw [sdiv_eq, hmsb, hwide]
  rfl

structure JustSet (s : State) : Prop where
  light : s.creature.internalLight.level = s.condition.lightInfo.level
  internalLightTicks : s.condition.lightInfo.internalLightTicks = 0
  lightChangeInterval : changeInterval s.condition.base.ticks s.condition.lightInfo.level =
    some s.condition.lightInfo.lightChangeInterval

theorem step_lights {e : Event} (h : s.step e = some s') (hlights : e.Lights s) : JustSet s' := by
  cases e with
  | setParam param value => exact hlights.elim
  | unserialize propStream => exact hlights.elim
  | executeCondition now interval => exact hlights.elim
  | startCondition now =>
    obtain ⟨r, hr, rfl⟩ := map_eq_some_iff.mp h
    obtain ⟨interval, hinterval, rfl⟩ := map_eq_some_iff.mp hr
    exact ⟨rfl, rfl, hinterval⟩
  | addCondition now condition =>
    obtain ⟨r, hr, rfl⟩ := map_eq_some_iff.mp h
    unfold ConditionLight.addCondition at hr
    rw [if_pos (show updateCondition now s.condition.base condition.base = true from hlights)] at hr
    obtain ⟨interval, hinterval, rfl⟩ := map_eq_some_iff.mp hr
    exact ⟨rfl, rfl, hinterval⟩

/-! ## Counting down -/

theorem level_getCreatureLight (c : Creature) : c.getCreatureLight.level.toNat = max c.internalLight.level.toNat c.itemsLevel := by
  unfold Creature.getCreatureLight Creature.itemsLevel
  cases c.itemsLight with
  | none => simp
  | some itemsLight =>
    show (if c.internalLight.level > itemsLight.level then c.internalLight else itemsLight).level.toNat = max _ itemsLight.level.toNat
    split
    · next h =>
      have h : itemsLight.level.toNat < c.internalLight.level.toNat := h
      omega
    · next h =>
      have h : ¬ itemsLight.level.toNat < c.internalLight.level.toNat := h
      omega

theorem level_dim (c : Creature) : c.dim.itemsLight = c.itemsLight ∧
    c.dim.getCreatureLight.level.toNat = max (c.getCreatureLight.level.toNat - 1) c.itemsLevel := by
  have hlight := level_getCreatureLight c
  unfold Creature.dim
  dsimp only
  split
  · next h =>
    have hpos : 0 < c.getCreatureLight.level.toNat := h
    have hless : (c.getCreatureLight.level - 1).toNat = c.getCreatureLight.level.toNat - 1 :=
      toNat_sub_of_le (le_def.mpr hpos)
    refine ⟨rfl, ?_⟩
    rw [level_getCreatureLight]
    exact congrArg (max · c.itemsLevel) hless
  · next h =>
    have hzero : ¬ 0 < c.getCreatureLight.level.toNat := h
    exact ⟨rfl, by omega⟩

/-- While the light counts down from `level`, with `passed` of the interval over. -/
structure Counting (interval items passed level : Nat) (s : State) : Prop where
  internalLightTicks : s.condition.lightInfo.internalLightTicks.toNat = passed
  lightChangeInterval : s.condition.lightInfo.lightChangeInterval.toNat = interval
  light : s.creature.getCreatureLight.level.toNat = max level items
  items : s.creature.itemsLevel = items

theorem step_execute {now : BitVec 64} {interval : BitVec 32} (h : s.step (.executeCondition now interval) = some s') :
    s'.condition.lightInfo = { s.condition.lightInfo with
      internalLightTicks :=
        if s.condition.lightInfo.internalLightTicks + interval ≥ s.condition.lightInfo.lightChangeInterval then 0
        else s.condition.lightInfo.internalLightTicks + interval } ∧
    s'.creature =
      if s.condition.lightInfo.internalLightTicks + interval ≥ s.condition.lightInfo.lightChangeInterval then s.creature.dim
      else s.creature := by
  obtain rfl := Option.some.inj h
  exact ⟨rfl, rfl⟩

theorem step_counting {interval items passed level : Nat} (h : Counting interval items passed level s) (hpassed : passed ≤ interval)
    (hinterval : interval < 2 ^ 31) (now : BitVec 64) {time : Nat} (htime : time ≤ interval) :
    ∃ s', s.step (.executeCondition now (BitVec.ofNat 32 time)) = some s' ∧
      if interval ≤ passed + time then Counting interval items 0 (level - 1) s' else Counting interval items (passed + time) level s' := by
  obtain ⟨s', hs'⟩ : ∃ s', s.step (.executeCondition now (BitVec.ofNat 32 time)) = some s' := ⟨_, rfl⟩
  obtain ⟨hlightInfo, hcreature⟩ := step_execute hs'
  refine ⟨s', hs', ?_⟩
  have hsum : (s.condition.lightInfo.internalLightTicks + BitVec.ofNat 32 time).toNat = passed + time := by
    rw [toNat_add, toNat_ofNat, h.internalLightTicks]
    omega
  have hreaches : s.condition.lightInfo.internalLightTicks + BitVec.ofNat 32 time ≥ s.condition.lightInfo.lightChangeInterval ↔
      interval ≤ passed + time := by
    rw [ge_iff_le, le_def, hsum, h.lightChangeInterval]
  by_cases hchange : interval ≤ passed + time
  · rw [if_pos (hreaches.mpr hchange)] at hlightInfo hcreature
    rw [if_pos hchange]
    obtain ⟨hitems, hlevel⟩ := level_dim s.creature
    refine ⟨by rw [hlightInfo]; rfl, by rw [hlightInfo]; exact h.lightChangeInterval, ?_, ?_⟩
    · rw [hcreature, hlevel, h.light, h.items]
      omega
    · rw [hcreature, ← h.items]
      unfold Creature.itemsLevel
      rw [hitems]
  · rw [if_neg (mt hreaches.mp hchange)] at hlightInfo hcreature
    rw [if_neg hchange]
    refine ⟨by rw [hlightInfo]; exact hsum, by rw [hlightInfo]; exact h.lightChangeInterval, ?_, ?_⟩
    · rw [hcreature, h.light]
    · rw [hcreature, h.items]

theorem run_counting {interval items : Nat} (hinterval : interval < 2 ^ 31) {calls : List (BitVec 64 × Nat)}
    (hcalls : ∀ call ∈ calls, call.2 ≤ interval) {passed level : Nat} (h : Counting interval items passed level s)
    (hpassed : passed ≤ interval) :
    ∃ s', s.run (calls.map fun call => .executeCondition call.1 (BitVec.ofNat 32 call.2)) = some s' ∧
      s'.creature.getCreatureLight.level.toNat = max (level - changes interval passed (calls.map Prod.snd)) items := by
  induction calls generalizing s passed level with
  | nil => exact ⟨s, rfl, h.light⟩
  | cons call calls ih =>
    obtain ⟨hcall, hcalls⟩ := List.forall_mem_cons.mp hcalls
    obtain ⟨s₁, hstep, hnext⟩ := step_counting h hpassed hinterval call.1 hcall
    rw [List.map_cons, State.run, hstep, List.map_cons, changes]
    by_cases hchange : interval ≤ passed + call.2
    · rw [if_pos hchange] at hnext ⊢
      obtain ⟨s', hrun, hlight⟩ := ih hcalls hnext (Nat.zero_le _)
      refine ⟨s', hrun, hlight.trans ?_⟩
      rw [Nat.sub_sub, Nat.add_comm 1]
    · rw [if_neg hchange] at hnext ⊢
      exact ih hcalls hnext (by omega)

theorem JustSet.countsDown (h : JustSet s) : CountsDown s := by
  intro hticks calls hcalls
  have hchange := toNat_changeInterval hticks h.lightChangeInterval
  have hbound : s.condition.base.ticks.toNat / s.condition.lightInfo.level.toNat < 2 ^ 31 := by
    have hpos := two_mul_toNat_lt hticks
    have hle := Nat.div_le_self s.condition.base.ticks.toNat s.condition.lightInfo.level.toNat
    omega
  have hlight : s.creature.getCreatureLight.level.toNat = max s.condition.lightInfo.level.toNat s.creature.itemsLevel := by
    rw [level_getCreatureLight, h.light]
  have hzero : s.condition.lightInfo.internalLightTicks.toNat = 0 := by
    rw [h.internalLightTicks]
    rfl
  exact run_counting hbound hcalls ⟨hzero, hchange, hlight, rfl⟩ (Nat.zero_le _)

end

/-- Nothing is divided by zero, and the lights count down, exactly when no light of level 0 is started or renewed. -/
theorem light_safe_iff (s : State) (events : List Event) :
    (∀ pre e post, events = pre ++ e :: post →
      ∃ s₁ s₂, s.run pre = some s₁ ∧ s₁.step e = some s₂ ∧ (e.Lights s₁ → CountsDown s₂)) ↔
      ∀ pre e post, events = pre ++ e :: post → ∀ s₁, s.run pre = some s₁ → e.Meets s₁ := by
  constructor
  · grind [step_isSome]
  · intro h pre
    induction pre using List.reverseRecOn with
    | nil =>
      intro e post hsplit
      obtain ⟨s₂, hstep⟩ := isSome_iff_exists.mp ((step_isSome s e).mpr (h [] e post hsplit s rfl))
      exact ⟨s, s₂, rfl, hstep, fun hlights => (step_lights hstep hlights).countsDown⟩
    | append_singleton pre e' ih =>
      intro e post hsplit
      obtain ⟨s₀, s₁, hrun, hstep, -⟩ := ih e' (e :: post) (by rw [hsplit, List.append_assoc, List.singleton_append])
      have hrun₁ : s.run (pre ++ [e']) = some s₁ := by
        rw [run_append, hrun, bind_some, State.run, hstep]
        rfl
      obtain ⟨s₂, hstep₂⟩ := isSome_iff_exists.mp ((step_isSome s₁ e).mpr (h (pre ++ [e']) e post hsplit s₁ hrun₁))
      exact ⟨s₁, s₂, hrun₁, hstep₂, fun hlights => (step_lights hstep₂ hlights).countsDown⟩

/-- A light condition of a minute, as a script makes it. -/
def lamp : State where
  condition := .create CONDITIONID_COMBAT 60000 0 false 0 false
  creature := {}

/-- No level set, a level of 256, and a stored level of 0: each divides by zero at the start. -/
theorem level_cut_to_zero : (lamp.run [.startCondition 0]).isNone = true ∧
    (lamp.run [.setParam .lightLevel 256, .startCondition 0]).isNone = true ∧
    (lamp.run [.setParam .lightLevel 6, .unserialize [17, 0, 254], .startCondition 0]).isNone = true ∧
    (lamp.run [.setParam .lightLevel 6, .startCondition 0, .addCondition 0 lamp.condition]).isNone = true := by
  decide

end Backlands.Conditions.Lighting
