/-
  Backlands.Conditions.Damage — the queue of a condition that damages over time
  (`ConditionDamage::addDamage`, `executeCondition`, `Condition::executeCondition`,
  src/condition.cpp).

  Each entry waits its own interval in front of the queue, and what a call has beyond that is
  dropped. The end is told from the clock, by the sum of the intervals. The field on the
  creature's tile may keep the front where it is, which burns on (`onTickCondition`). What a
  damage does is left out: `delivered` is what is passed to `doDamage`.

  Proved: `delivered_once_in_order`. Along a run each value is delivered once, in order and
  before the end is told, exactly when every step is `Timely`; and so is every step of a run
  whose calls lie apart by what divides every interval (`whole_timely`). Counterexample:
  `third_left_over`.
-/

import Backlands.Lib.Runs
import Mathlib.Tactic.Tauto

namespace Backlands.Conditions.Damage

open Backlands.Lib List

/-! ## The condition -/

def int32 (v : Int) : Int := (v + 2 ^ 31) % 2 ^ 32 - 2 ^ 31

/-- `EVENT_CREATURE_THINK_INTERVAL`. -/
def thinkInterval : Int := 1000

structure IntervalInfo where
  timeLeft : Int
  value : Int
  interval : Int
  deriving DecidableEq

structure ConditionDamage where
  ticks : Int := 0
  endTime : Int := 0
  periodDamage : Int := 0
  periodDamageTick : Int := 0
  tickInterval : Int := 2000
  damageList : List IntervalInfo := []

namespace ConditionDamage

variable (c : ConditionDamage) (now : Int)

def setTicks (newTicks : Int) : ConditionDamage :=
  { c with ticks := newTicks, endTime := newTicks + now }

/-- One round of `addDamage`. -/
def pushRound (time value : Int) : ConditionDamage :=
  let c' := { c with damageList := c.damageList ++ [{ timeLeft := time, value, interval := time }] }
  if c.ticks ≠ -1 then c'.setTicks now (int32 (c.ticks + time)) else c'

def pushRounds (time value : Int) : Nat → ConditionDamage
  | 0 => c
  | n + 1 => (pushRounds time value n).pushRound now time value

def addDamage (rounds time value : Int) : ConditionDamage :=
  let time := max time thinkInterval
  if rounds = -1 then { c with periodDamage := value, tickInterval := time, ticks := -1 }
  else if c.periodDamage > 0 then c
  else c.pushRounds now time value rounds.toNat

/-- `Condition::executeCondition`; false is the end. -/
def executeBase (interval : Int) : ConditionDamage × Bool :=
  if c.ticks = -1 then (c, true)
  else ({ c with ticks := max 0 (int32 (c.ticks - interval)) }, c.endTime ≥ now)

/-- A call with something queued. What is passed to `doDamage` stands between. -/
def executeFront (interval : Int) (front : IntervalInfo) (rest : List IntervalInfo) (bRemove : Bool) :
    ConditionDamage × List Int × Bool :=
  let timeLeft := int32 (front.timeLeft - interval)
  let damageList :=
    if timeLeft > 0 then { front with timeLeft } :: rest
    else if bRemove then rest
    else { front with timeLeft := front.interval } :: rest
  let endTime := c.endTime + if bRemove = false ∧ c.ticks > 0 then interval else 0
  let r := { c with damageList, endTime }.executeBase now (if bRemove then interval else 0)
  (r.1, if timeLeft > 0 then [] else [front.value], r.2)

/-- `field` is what the field on the tile says of the front's removal, where there is a field of
a kind that does. -/
def executeCondition (interval : Int) (field : Option Bool) : ConditionDamage × List Int × Bool :=
  if c.periodDamage ≠ 0 then
    let tick := int32 (c.periodDamageTick + interval)
    let due := tick ≥ c.tickInterval
    let r := { c with periodDamageTick := if due then 0 else tick }.executeBase now interval
    (r.1, if due then [c.periodDamage] else [], r.2)
  else
    match c.damageList with
    | [] =>
      let r := c.executeBase now interval
      (r.1, [], r.2)
    | front :: rest => c.executeFront now interval front rest (field.getD (c.ticks ≠ -1))

end ConditionDamage

/-! ## Runs -/

structure State where
  condition : ConditionDamage
  now : Int
  /-- When `executeCondition` was called last. -/
  called : Int
  added : List Int := []
  delivered : List Int := []
  /-- The last call told the end, and nothing was added since. -/
  ended : Bool := false

inductive Event
  | pass (time : Nat)
  | addDamage (rounds : Nat) (time value : Int)
  | executeCondition (field : Option Bool)

namespace State

variable (s : State)

def interval : Int := s.now - s.called

def queued : List Int := s.condition.damageList.map IntervalInfo.value

def step : Event → State
  | .pass time => { s with now := s.now + time }
  | .addDamage rounds time value =>
    { s with condition := s.condition.addDamage s.now rounds time value,
             added := s.added ++ List.replicate rounds value, ended := false }
  | .executeCondition field =>
    let r := s.condition.executeCondition s.now s.interval field
    { s with condition := r.1, called := s.now, delivered := s.delivered ++ r.2.1, ended := !r.2.2 }

/-- Each value is delivered once and in order, and none is left when the end is told. -/
def Delivers : Prop := s.delivered ++ s.queued = s.added ∧ (s.ended = true → s.condition.damageList = [])

def RunsOut (front : IntervalInfo) : Prop := int32 (front.timeLeft - s.interval) ≤ 0

/-- What runs out in a call is removed, and a call past the end finds nothing but a front that
runs out. -/
def Timely : Event → Prop
  | .pass _ | .addDamage _ _ _ => True
  | .executeCondition field =>
    match s.condition.damageList with
    | [] => True
    | front :: rest =>
      let bRemove := field.getD (s.condition.ticks ≠ -1)
      let endTime := s.condition.endTime + if bRemove = false ∧ s.condition.ticks > 0 then s.interval else 0
      (s.RunsOut front → bRemove = true) ∧
        (s.condition.ticks ≠ -1 → endTime < s.now → s.RunsOut front ∧ rest = [])

end State

/-! ## What a step does -/

section Steps

variable {c : ConditionDamage} {s : State}

@[simp] theorem executeBase_damageList (now interval : Int) :
    (c.executeBase now interval).1.damageList = c.damageList := by
  unfold ConditionDamage.executeBase
  split <;> rfl

@[simp] theorem executeBase_periodDamage (now interval : Int) :
    (c.executeBase now interval).1.periodDamage = c.periodDamage := by
  unfold ConditionDamage.executeBase
  split <;> rfl

theorem executeBase_ends (now interval : Int) :
    (c.executeBase now interval).2 = false ↔ c.ticks ≠ -1 ∧ c.endTime < now := by
  unfold ConditionDamage.executeBase
  split <;> rename_i h <;> simp [h]

theorem pushRound_damageList (now time value : Int) :
    (c.pushRound now time value).damageList = c.damageList ++ [⟨time, value, time⟩] := by
  unfold ConditionDamage.pushRound
  dsimp only
  split <;> rfl

theorem pushRound_periodDamage (now time value : Int) : (c.pushRound now time value).periodDamage = c.periodDamage := by
  unfold ConditionDamage.pushRound
  dsimp only
  split <;> rfl

theorem pushRounds_queue (now time value : Int) (n : Nat) :
    (c.pushRounds now time value n).damageList = c.damageList ++ List.replicate n ⟨time, value, time⟩ ∧
      (c.pushRounds now time value n).periodDamage = c.periodDamage := by
  induction n with
  | zero => exact ⟨(append_nil _).symm, rfl⟩
  | succ n ih =>
    unfold ConditionDamage.pushRounds
    rw [pushRound_damageList, pushRound_periodDamage, ih.1, append_assoc, ← replicate_succ']
    exact ⟨rfl, ih.2⟩

theorem addDamage_rounds (h : c.periodDamage = 0) (now : Int) (rounds : Nat) (time value : Int) :
    c.addDamage now rounds time value = c.pushRounds now (max time thinkInterval) value rounds := by
  unfold ConditionDamage.addDamage
  rw [if_neg (by omega), if_neg (by omega), Int.toNat_natCast]

structure Invariant (s : State) : Prop where
  noPeriod : s.condition.periodDamage = 0
  delivers : s.Delivers

theorem Invariant.addDamage (h : Invariant s) (rounds : Nat) (time value : Int) :
    Invariant (s.step (.addDamage rounds time value)) := by
  obtain ⟨hlist, hperiod⟩ := pushRounds_queue (c := s.condition) s.now (max time thinkInterval) value rounds
  refine ⟨?_, ?_, fun hend => nomatch hend⟩
  · show (s.condition.addDamage s.now rounds time value).periodDamage = 0
    rw [addDamage_rounds h.noPeriod, hperiod]
    exact h.noPeriod
  · show s.delivered ++ (s.condition.addDamage s.now rounds time value).damageList.map IntervalInfo.value = _
    rw [addDamage_rounds h.noPeriod, hlist, map_append, map_replicate, ← append_assoc]
    exact congrArg (· ++ List.replicate rounds value) h.delivers.1

theorem Invariant.executeCondition_nil (h : Invariant s) (hnil : s.condition.damageList = []) (field : Option Bool) :
    Invariant (s.step (.executeCondition field)) := by
  have hr : s.condition.executeCondition s.now s.interval field =
      ((s.condition.executeBase s.now s.interval).1, [], (s.condition.executeBase s.now s.interval).2) := by
    unfold ConditionDamage.executeCondition
    rw [if_neg (not_not.mpr h.noPeriod), hnil]
  refine ⟨?_, ?_, ?_⟩
  · simp [State.step, hr, h.noPeriod]
  · have hall := h.delivers.1
    simpa [State.step, State.queued, hr, hnil] using hall
  · simp [State.step, hr, hnil]

theorem executeCondition_cons (h : Invariant s) {front : IntervalInfo} {rest : List IntervalInfo}
    (hcons : s.condition.damageList = front :: rest) (field : Option Bool) :
    (s.step (.executeCondition field)).condition.periodDamage = 0 ∧
      ((s.step (.executeCondition field)).Delivers ↔ s.Timely (.executeCondition field)) := by
  have hall : s.delivered ++ front.value :: rest.map IntervalInfo.value = s.added := by
    have hall := h.delivers.1
    rwa [State.queued, hcons] at hall
  have hr : s.condition.executeCondition s.now s.interval field =
      s.condition.executeFront s.now s.interval front rest (field.getD (s.condition.ticks ≠ -1)) := by
    unfold ConditionDamage.executeCondition
    rw [if_neg (not_not.mpr h.noPeriod), hcons]
  unfold State.Timely
  rw [hcons]
  simp only [State.step, State.Delivers, State.queued, State.RunsOut, hr]
  generalize field.getD (s.condition.ticks ≠ -1) = bRemove
  unfold ConditionDamage.executeFront
  dsimp only
  refine ⟨(executeBase_periodDamage _ _).trans h.noPeriod, ?_⟩
  rw [executeBase_damageList, Bool.not_eq_true', executeBase_ends]
  by_cases hout : int32 (front.timeLeft - s.interval) > 0
  · rw [if_pos hout, if_pos hout, append_nil]
    have hkept : s.delivered ++ ({ front with timeLeft := int32 (front.timeLeft - s.interval) } :: rest).map IntervalInfo.value =
        s.added := hall
    have hstays : ¬ int32 (front.timeLeft - s.interval) ≤ 0 := by omega
    simp only [hkept, hstays, true_and, false_imp_iff, false_and, imp_false, reduceCtorEq]
    tauto
  · have hruns : int32 (front.timeLeft - s.interval) ≤ 0 := Int.not_lt.mp hout
    rw [if_neg hout, if_neg hout]
    cases bRemove with
    | true =>
      have hall' : s.delivered ++ [front.value] ++ rest.map IntervalInfo.value = s.added := by
        rw [append_assoc]
        exact hall
      simp only [if_true, hall', hruns, true_and, forall_const]
      tauto
    | false =>
      refine iff_of_false (fun hd => ?_) (fun ht => nomatch ht.1 hruns)
      have hlength := congrArg List.length (hd.1.trans hall.symm)
      simp at hlength

theorem Invariant.step (h : Invariant s) {e : Event} (ht : s.Timely e) : Invariant (s.step e) := by
  cases e with
  | pass time => exact ⟨h.noPeriod, h.delivers⟩
  | addDamage rounds time value => exact h.addDamage rounds time value
  | executeCondition field =>
    cases hlist : s.condition.damageList with
    | nil => exact h.executeCondition_nil hlist field
    | cons front rest =>
      obtain ⟨hperiod, hiff⟩ := executeCondition_cons h hlist field
      exact ⟨hperiod, hiff.mpr ht⟩

theorem timely_of_delivers (h : Invariant s) {e : Event} (hd : (s.step e).Delivers) : s.Timely e := by
  cases e with
  | pass time => trivial
  | addDamage rounds time value => trivial
  | executeCondition field =>
    cases hlist : s.condition.damageList with
    | nil =>
      simp [State.Timely, hlist]
    | cons front rest => exact (executeCondition_cons h hlist field).2.mp hd

end Steps

/-! ## Calls at whole intervals -/

/-- Calls lie `I` apart, no field keeps the front, and every interval added is a multiple of `I`. -/
def Whole (I : Int) (s : State) : Event → Prop
  | .pass _ => True
  | .addDamage rounds time _ =>
    I ∣ max time thinkInterval ∧ s.condition.ticks + rounds * max time thinkInterval < 2 ^ 31
  | .executeCondition field => s.interval = I ∧ field ≠ some false

def waiting (list : List IntervalInfo) : Int := (list.map IntervalInfo.timeLeft).sum

structure OnTime (I now called : Int) (c : ConditionDamage) : Prop where
  noPeriod : c.periodDamage = 0
  called_le : called ≤ now
  nonneg : 0 ≤ c.ticks
  lt : c.ticks < 2 ^ 31
  entries : ∀ e ∈ c.damageList, 0 < e.timeLeft ∧ I ∣ e.timeLeft
  enough : waiting c.damageList ≤ c.ticks
  late : c.damageList ≠ [] → called + waiting c.damageList ≤ c.endTime

section Whole

variable {I now called : Int} {c : ConditionDamage} {s : State}

theorem OnTime.pushRound (h : OnTime I now called c) {time : Int} (value : Int) (hpos : 0 < time) (hdvd : I ∣ time)
    (hfits : c.ticks + time < 2 ^ 31) :
    OnTime I now called (c.pushRound now time value) ∧ (c.pushRound now time value).ticks = c.ticks + time := by
  have hticks : c.ticks ≠ -1 := by have := h.nonneg; omega
  have hsum : int32 (c.ticks + time) = c.ticks + time := by
    have := h.nonneg
    unfold int32
    omega
  have hlist : (c.pushRound now time value).damageList = c.damageList ++ [⟨time, value, time⟩] := pushRound_damageList ..
  have hwaiting : waiting (c.pushRound now time value).damageList = waiting c.damageList + time := by
    rw [hlist]
    simp [waiting]
  have henough := h.enough
  have hnonneg := h.nonneg
  have hcalled := h.called_le
  have hr : (c.pushRound now time value).ticks = c.ticks + time ∧
      (c.pushRound now time value).endTime = c.ticks + time + now := by
    unfold ConditionDamage.pushRound ConditionDamage.setTicks
    simp only [if_pos hticks, hsum]
    exact ⟨trivial, trivial⟩
  refine ⟨⟨(pushRound_periodDamage ..).trans h.noPeriod, h.called_le, ?_, ?_, ?_, ?_, fun _ => ?_⟩, hr.1⟩
  · omega
  · omega
  · intro e he
    rw [hlist, mem_append, mem_singleton] at he
    rcases he with he | rfl
    · exact h.entries e he
    · exact ⟨hpos, hdvd⟩
  · omega
  · omega

theorem OnTime.pushRounds (h : OnTime I now called c) {time value : Int} (hpos : 0 < time) (hdvd : I ∣ time) {n : Nat}
    (hfits : c.ticks + n * time < 2 ^ 31) :
    OnTime I now called (c.pushRounds now time value n) ∧ (c.pushRounds now time value n).ticks = c.ticks + n * time := by
  induction n with
  | zero => exact ⟨h, by simp [ConditionDamage.pushRounds]⟩
  | succ n ih =>
    have hsucc : ((n + 1 : Nat) : Int) * time = n * time + time := by
      rw [Int.natCast_succ, Int.add_mul, Int.one_mul]
    obtain ⟨hontime, hticks⟩ := ih (by omega)
    obtain ⟨hround, hafter⟩ := hontime.pushRound value hpos hdvd (by omega)
    exact ⟨hround, by unfold ConditionDamage.pushRounds; omega⟩

theorem waiting_nonneg {list : List IntervalInfo} (h : ∀ e ∈ list, 0 < e.timeLeft ∧ I ∣ e.timeLeft) :
    0 ≤ waiting list := by
  induction list with
  | nil => exact Int.le_refl 0
  | cons e rest ih =>
    have hpos := (h e (mem_cons_self ..)).1
    have hrest := ih fun e' he' => h e' (mem_cons_of_mem _ he')
    show 0 ≤ e.timeLeft + waiting rest
    omega

theorem executeBase_ticks (hticks : c.ticks ≠ -1) (now interval : Int) :
    c.executeBase now interval = ({ c with ticks := max 0 (int32 (c.ticks - interval)) }, decide (c.endTime ≥ now)) :=
  if_neg hticks

abbrev OnTimeState (I : Int) (s : State) : Prop := OnTime I s.now s.called s.condition

theorem OnTime.front (h : OnTimeState I s) {front : IntervalInfo} {rest : List IntervalInfo}
    (hcons : s.condition.damageList = front :: rest) :
    I ≤ front.timeLeft ∧ front.timeLeft + waiting rest ≤ s.condition.ticks ∧ 0 ≤ waiting rest := by
  have hentries := h.entries
  have henough := h.enough
  rw [hcons] at hentries henough
  obtain ⟨hpos, hdvd⟩ := hentries front (mem_cons_self ..)
  exact ⟨Int.le_of_dvd hpos hdvd, henough, waiting_nonneg fun e he => hentries e (mem_cons_of_mem _ he)⟩

theorem OnTime.executeFront (hI : 0 < I) (h : OnTimeState I s) {front : IntervalInfo} {rest : List IntervalInfo}
    (hcons : s.condition.damageList = front :: rest) (hinterval : s.interval = I) :
    OnTime I s.now s.now (s.condition.executeFront s.now I front rest true).1 := by
  obtain ⟨hfront, henough, hrest⟩ := h.front hcons
  have hentries := h.entries
  have hlate := h.late
  rw [hcons] at hentries hlate
  have hticks : s.condition.ticks ≠ -1 := by omega
  have hlt := h.lt
  have hleft : int32 (front.timeLeft - I) = front.timeLeft - I := by
    unfold int32
    omega
  have hafter : max 0 (int32 (s.condition.ticks - I)) = s.condition.ticks - I := by
    unfold int32
    omega
  have hend := hlate (cons_ne_nil _ _)
  change s.called + (front.timeLeft + waiting rest) ≤ s.condition.endTime at hend
  unfold State.interval at hinterval
  unfold ConditionDamage.executeFront
  dsimp only
  rw [hleft, if_pos rfl, executeBase_ticks]
  case hticks => exact hticks
  rw [if_pos rfl, hafter]
  have hsmall : s.condition.ticks - I < 2 ^ 31 := by omega
  have hnonneg : 0 ≤ s.condition.ticks - I := by omega
  have hsame : s.condition.endTime + (if true = false ∧ s.condition.ticks > 0 then I else 0) = s.condition.endTime := by
    rw [if_neg (fun h => nomatch h.1), Int.add_zero]
  by_cases hout : front.timeLeft - I > 0
  · rw [if_pos hout, hsame]
    refine ⟨h.noPeriod, Int.le_refl _, hnonneg, hsmall, ?_, ?_, fun _ => ?_⟩
    · intro e he
      rcases mem_cons.mp he with rfl | he
      · exact ⟨hout, Int.dvd_sub (hentries front (mem_cons_self ..)).2 (Int.dvd_refl I)⟩
      · exact hentries e (mem_cons_of_mem _ he)
    · show front.timeLeft - I + waiting rest ≤ s.condition.ticks - I
      omega
    · show s.now + (front.timeLeft - I + waiting rest) ≤ s.condition.endTime
      omega
  · rw [if_neg hout, hsame]
    refine ⟨h.noPeriod, Int.le_refl _, hnonneg, hsmall, fun e he => hentries e (mem_cons_of_mem _ he), ?_, fun _ => ?_⟩
    · show waiting rest ≤ s.condition.ticks - I
      omega
    · show s.now + waiting rest ≤ s.condition.endTime
      omega

theorem OnTime.removes (h : OnTimeState I s) {field : Option Bool} (hfield : field ≠ some false) :
    field.getD (s.condition.ticks ≠ -1) = true := by
  have hticks : s.condition.ticks ≠ -1 := by have := h.nonneg; omega
  match field with
  | none => simpa using hticks
  | some true => rfl
  | some false => exact absurd rfl hfield

theorem OnTime.step (hI : 0 < I) {e : Event} (hw : Whole I s e) (h : OnTimeState I s) : OnTimeState I (s.step e) := by
  cases e with
  | pass time =>
    have hcalled := h.called_le
    refine { h with called_le := ?_ }
    show s.called ≤ s.now + time
    omega
  | addDamage rounds time value =>
    have hpos : 0 < max time thinkInterval := by unfold thinkInterval; omega
    show OnTime I s.now s.called (s.condition.addDamage s.now rounds time value)
    rw [addDamage_rounds h.noPeriod]
    exact (h.pushRounds hpos hw.1 hw.2).1
  | executeCondition field =>
    obtain ⟨hinterval, hfield⟩ := hw
    show OnTime I s.now s.now (s.condition.executeCondition s.now s.interval field).1
    unfold ConditionDamage.executeCondition
    rw [if_neg (not_not.mpr h.noPeriod), hinterval]
    cases hlist : s.condition.damageList with
    | nil =>
      have hnonneg := h.nonneg
      rw [executeBase_ticks (by omega)]
      refine ⟨h.noPeriod, Int.le_refl _, Int.le_max_left _ _, ?_, ?_, ?_, fun hne => absurd hlist hne⟩
      · show max 0 (int32 (s.condition.ticks - I)) < 2 ^ 31
        unfold int32
        omega
      · simp [hlist]
      · rw [hlist]
        exact Int.le_max_left _ _
    | cons front rest =>
      rw [h.removes hfield]
      exact h.executeFront hI hlist hinterval

theorem OnTime.timely {e : Event} (hw : Whole I s e) (h : OnTimeState I s) : s.Timely e := by
  cases e with
  | pass time => trivial
  | addDamage rounds time value => trivial
  | executeCondition field =>
    obtain ⟨hinterval, hfield⟩ := hw
    unfold State.Timely
    cases hlist : s.condition.damageList with
    | nil => trivial
    | cons front rest =>
      dsimp only
      obtain ⟨hfront, henough, hrest⟩ := h.front hlist
      have hlate := h.late
      rw [hlist] at hlate
      have hend : s.called + (front.timeLeft + waiting rest) ≤ s.condition.endTime := hlate (cons_ne_nil _ _)
      unfold State.interval at hinterval
      rw [h.removes hfield, if_neg (fun h => nomatch h.1), Int.add_zero]
      exact ⟨fun _ => rfl, fun _ hpast => by omega⟩

theorem whole_timely (hI : 0 < I) (h : OnTimeState I s) {es : List Event} (hw : Allowed State.step (Whole I) s es) :
    Allowed State.step State.Timely s es :=
  hw.of_inv (J := OnTimeState I) (fun _ _ hw h => OnTime.step hI hw h) (fun _ _ hw h => OnTime.timely hw h) h

end Whole

/-! ## Delivery -/

instance (s : State) : Decidable s.Delivers := inferInstanceAs (Decidable (_ ∧ _))

/-- All along a run each value is delivered once and in order exactly when the calls are timely. -/
theorem delivered_once_in_order (s : State) (hperiod : s.condition.periodDamage = 0) (hstart : s.Delivers)
    (es : List Event) :
    (∀ k ≤ es.length, (run State.step s (es.take k)).Delivers) ↔ Allowed State.step State.Timely s es :=
  along_iff_allowed (I := Invariant) (fun _ h => h.delivers) (fun _ _ ht h => h.step ht)
    (fun _ _ h hd => timely_of_delivers h hd) ⟨hperiod, hstart⟩ es

/-- A creature that nothing damages yet, called last now. -/
def unharmed : State := { condition := {}, now := 0, called := 0 }

def calls (n : Nat) : List Event := (List.replicate n [.pass 1000, .executeCondition none]).flatten

theorem unharmed_onTime (I : Int) : OnTimeState I unharmed where
  noPeriod := rfl
  called_le := Int.le_refl 0
  nonneg := Int.le_refl 0
  lt := by decide
  entries _ he := absurd he not_mem_nil
  enough := Int.le_refl 0
  late hne := absurd rfl hne

theorem poison_whole : Allowed State.step (Whole 1000) unharmed (.addDamage 2 2000 (-7) :: calls 4) := by
  have hadd : Whole 1000 unharmed (.addDamage 2 2000 (-7)) := ⟨by decide, by decide⟩
  exact ⟨hadd, trivial, ⟨by decide, by decide⟩, trivial, ⟨by decide, by decide⟩, trivial, ⟨by decide, by decide⟩,
    trivial, ⟨by decide, by decide⟩, trivial⟩

theorem poison_delivered : (run State.step unharmed (.addDamage 2 2000 (-7) :: calls 4)).Delivers :=
  (delivered_once_in_order unharmed rfl (by decide) _).mpr
    (whole_timely (by decide) (unharmed_onTime 1000) poison_whole) 9 (Nat.le_refl 9)

/-- Calls 1000 apart spend 2000 on each of three entries of 1500; the end is told at 5000. -/
theorem third_left_over :
    ¬ ∀ k ≤ 11, (run State.step unharmed ((.addDamage 3 1500 (-5) :: calls 5).take k)).Delivers :=
  fun h => absurd (h 11 (Nat.le_refl 11)) (by decide)

end Backlands.Conditions.Damage
