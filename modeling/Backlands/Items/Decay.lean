/-
  Backlands.Items.Decay — the decay of items (src/decay.cpp).

  `decayMap` holds, under each timestamp, the items whose decay is due then. `checkDecay` moves what
  is due out of the map first, so the decay of one item may call `startDecay` and `stopDecay` for
  another that waits in the batch and is in no bucket any more.

  There is one clock, OTSYS_TIME, which never goes back. The reactor takes an event (`accepted`) or
  refuses it; what runs when an item decays is the environment's, as a list of calls. The references
  in the map are weak: an item that is gone is skipped. `plan` and `decayed` are not in the source:
  the timestamp of an item's latest `startDecay`, unless it was stopped, cleared or let go since,
  and the decays so far with the plan they found.

  Proved: `decay_discipline`. Counterexample: `stopped_item_decays`.
-/

import Backlands.Lib.Buckets
import Backlands.Lib.Runs
import Mathlib.Data.Int.Order.Basic

namespace Backlands.Items.Decay

open Backlands.Lib Function List Option Buckets

abbrev ItemId := Nat

inductive ItemDecayState where
  | DECAYING_FALSE
  | DECAYING_TRUE
  | DECAYING_PENDING
  | DECAYING_STOPPING
  deriving DecidableEq, Repr

/-- The attributes of an item that have to do with decay. -/
structure Attributes where
  duration : Option Int := none
  durationTimestamp : Option Int := none
  decayState : Option ItemDecayState := none
  deriving DecidableEq, Repr

structure Decayed where
  item : ItemId
  time : Int
  plan : Option Int

structure State where
  clock : Int := 0
  /-- `none` is an item that does not exist, or not any more. -/
  items : ItemId → Option Attributes
  decayMap : Buckets Int ItemId := []
  eventId : Nat := 0
  /-- The checks the reactor has, each with its time. -/
  events : List (Nat × Int) := []
  nextIdentifier : Nat := 1
  plan : ItemId → Option Int := fun _ => none
  decayed : List Decayed := []

def MIN_TASK_INTERVAL : Int := 50

def clampSchedulerDuration (duration : Int) : Int := max MIN_TASK_INTERVAL duration

/-- `static_cast<int32_t>`. -/
def int32 (n : Int) : Int := n.bmod (2 ^ 32)

/-! ## Items -/

def getDuration (now : Int) (a : Attributes) : Int :=
  if a.decayState = some .DECAYING_TRUE ∨ a.decayState = some .DECAYING_STOPPING then
    max 0 (int32 (a.durationTimestamp.getD 0 - now))
  else int32 (a.duration.getD 0)

def setDuration (time : Int) (a : Attributes) : Attributes := { a with duration := some (max 0 time) }

def State.setItem (s : State) (item : ItemId) (f : Attributes → Attributes) : State :=
  { s with items := update s.items item ((s.items item).map f) }

/-! ## The scheduler -/

def addEvent (accepted : Bool) (delay : Int) (s : State) : State :=
  if accepted then
    { s with events := (s.nextIdentifier, s.clock + delay) :: s.events
             eventId := s.nextIdentifier
             nextIdentifier := s.nextIdentifier + 1 }
  else { s with eventId := 0 }

def stopEvent (eventId : Nat) (s : State) : State :=
  { s with events := s.events.filter fun e => e.1 != eventId }

def scheduleNextCheck (accepted : Bool) (nextTimestamp : Int) (s : State) : State :=
  let delay := clampSchedulerDuration (int32 (nextTimestamp - s.clock))
  addEvent accepted delay (if s.eventId ≠ 0 then stopEvent s.eventId s else s)

/-! ## Starting and stopping -/

def stopDecay (item : ItemId) (timestamp : Int) (s : State) : State :=
  match s.items item, takeOut timestamp item s.decayMap with
  | some _, some decayMap =>
    { s.setItem item (fun a =>
        let a := if a.duration.isSome then setDuration (getDuration s.clock a) a else a
        { a with decayState := none }) with decayMap := decayMap }
  | _, _ => s

/-- The stop at the top of `startDecay`. -/
def unschedule (item : ItemId) (s : State) : State :=
  match (s.items item).bind (·.durationTimestamp) with
  | some timestamp => stopDecay item timestamp s
  | none => s

def reschedule (accepted : Bool) (timestamp duration : Int) (s : State) : State :=
  match s.decayMap with
  | [] => addEvent accepted (clampSchedulerDuration duration) s
  | (first, _) :: _ =>
    if timestamp < first then addEvent accepted (clampSchedulerDuration duration) (stopEvent s.eventId s)
    else s

def enqueue (item : ItemId) (timestamp : Int) (s : State) : State :=
  { s.setItem item (fun a => { a with decayState := some .DECAYING_TRUE, durationTimestamp := some timestamp }) with
    decayMap := put timestamp item s.decayMap }

def startDecay (item : ItemId) (duration : Int) (accepted : Bool) (s : State) : State :=
  if (s.items item).isSome then
    let timestamp := s.clock + duration
    enqueue item timestamp (reschedule accepted timestamp duration (unschedule item s))
  else s

/-! ## Calls from anywhere -/

inductive Op where
  | startDecay (item : ItemId) (duration : Int) (accepted : Bool)
  | stopDecay (item : ItemId) (timestamp : Int)
  /-- The rest of the program writes an item's attributes. -/
  | write (item : ItemId) (a : Attributes)
  /-- The last owner lets an item go. -/
  | drop (item : ItemId)
  | tick (elapsed : Nat)

def State.setPlan (s : State) (item : ItemId) (timestamp : Option Int) : State :=
  { s with plan := if (s.items item).isSome then update s.plan item timestamp else s.plan }

def apply (s : State) : Op → State
  | .startDecay item duration accepted =>
    (startDecay item duration accepted s).setPlan item (some (s.clock + duration))
  | .stopDecay item timestamp => (stopDecay item timestamp s).setPlan item none
  | .write item a => s.setItem item fun _ => a
  | .drop item => { s with items := update s.items item none }
  | .tick elapsed => { s with clock := s.clock + elapsed }

/-! ## A batch -/

/-- What happens when a batch comes to an item: `canDecay()`, and the calls made by its decay. -/
structure Visit where
  canDecay : Bool := true
  ops : List Op := []

/-- An item of the batch up to `internalDecayItem`. -/
def letGo (item : ItemId) (canDecay : Bool) (s : State) : State :=
  match s.items item with
  | none => s
  | some _ =>
    if canDecay then
      { s.setItem item (fun a => { a with decayState := some .DECAYING_FALSE }) with
        plan := update s.plan item none
        decayed := ⟨item, s.clock, s.plan item⟩ :: s.decayed }
    else
      { s.setItem item (fun a =>
          { setDuration (getDuration s.clock a) a with decayState := some .DECAYING_FALSE }) with
        plan := update s.plan item none }

/-- The calls made by the decay of an item: none when it is gone or cannot decay. -/
def callsOf (item : ItemId) (v : Visit) (s : State) : List Op :=
  if (s.items item).isSome && v.canDecay then v.ops else []

def visit (item : ItemId) (v : Visit) (s : State) : State :=
  run apply (letGo item v.canDecay s) (callsOf item v s)

def processDecayBatch : List ItemId → List Visit → State → State
  | [], _, s => s
  | item :: rest, visits, s => processDecayBatch rest visits.tail (visit item (visits.headD {}) s)

def checkDecay (visits : List Visit) (accepted : Bool) (s : State) : State :=
  let expiredItems := items (due s.clock s.decayMap)
  let s := processDecayBatch expiredItems visits { s with decayMap := later s.clock s.decayMap }
  match s.decayMap with
  | [] => s
  | (first, _) :: _ => scheduleNextCheck accepted first s

def clear (s : State) : State :=
  let s := if s.eventId ≠ 0 then { stopEvent s.eventId s with eventId := 0 } else s
  { s with items := fun item =>
             if item ∈ items s.decayMap then (s.items item).map fun a => { a with decayState := none }
             else s.items item
           decayMap := []
           plan := fun _ => none }

/-! ## Runs -/

inductive Event where
  | call (op : Op)
  | clear
  /-- The reactor runs the check it has under `fired`. -/
  | checkDecay (fired : Nat) (visits : List Visit) (accepted : Bool)

def step (s : State) : Event → State
  | .call op => apply s op
  | .clear => clear s
  | .checkDecay fired visits accepted => checkDecay visits accepted (stopEvent fired s)

/-- Nothing is scheduled when the server starts. -/
def started (s : State) : Prop := ∃ items, s = { items := items }

/-- A property of the calls of a batch, each taken where it is made, with the items that still
    wait then. -/
def EachCall (P : List ItemId → State → Op → Prop) : List ItemId → List Visit → State → Prop
  | [], _, _ => True
  | item :: rest, visits, s =>
    Allowed apply (P rest) (letGo item (visits.headD {}).canDecay s) (callsOf item (visits.headD {}) s) ∧
      EachCall P rest visits.tail (visit item (visits.headD {}) s)

def Op.elapsed : Op → Nat
  | .tick n => n
  | _ => 0

/-- What the callers see to: `startDecay` gets a duration above zero, `stopDecay` the item's own
    timestamp, nobody writes the timestamp of an item that is in a bucket; and the reactor
    takes the events. -/
def Called (_waiting : List ItemId) (s : State) : Op → Prop
  | .startDecay _ duration accepted => 0 < duration ∧ duration < 2 ^ 31 ∧ accepted = true
  | .stopDecay item timestamp => ∀ a, s.items item = some a → a.durationTimestamp = some timestamp
  | .write item a => item ∈ items s.decayMap → ∀ b, s.items item = some b →
      a.durationTimestamp = b.durationTimestamp
  | _ => True

def Apart (waiting : List ItemId) (_s : State) : Op → Prop
  | .startDecay item _ _ => item ∉ waiting
  | .stopDecay item _ => item ∉ waiting
  | _ => True

def Calls (P : List ItemId → State → Op → Prop) (s : State) : Event → Prop
  | .call op => P [] s op
  | .clear => True
  | .checkDecay fired visits _ => EachCall P (items (due s.clock s.decayMap)) visits
      { stopEvent fired s with decayMap := later s.clock s.decayMap }

/-- The callers keep to their side, the reactor takes the next check, and no batch lasts for
    2^31 ms. -/
def Promised (s : State) (e : Event) : Prop :=
  Calls Called s e ∧ ∀ fired visits accepted, e = .checkDecay fired visits accepted → accepted = true ∧
    ((visits.flatMap (·.ops)).map Op.elapsed).sum < 2 ^ 31

structure Discipline (s : State) : Prop where
  once : (items s.decayMap).Nodup
  keyed : ∀ timestamp item, Holds s.decayMap timestamp item → ∀ a, s.items item = some a →
    a.durationTimestamp = some timestamp
  decayed : ∀ d ∈ s.decayed, ∃ timestamp, d.plan = some timestamp ∧ timestamp ≤ d.time
  checked : ∀ first ∈ (keys s.decayMap).head?, ∃ time, (s.eventId, time) ∈ s.events ∧
    time ≤ max first (s.clock + MIN_TASK_INTERVAL)

/-! ## What holds at every moment -/

/-- What holds at every moment, also within a batch in which the items `waiting` are still to
    come; every timestamp in the map is after `floor`. -/
structure Inv (floor : Int) (waiting : List ItemId) (s : State) : Prop where
  sorted : Sorted s.decayMap
  nodup : (items s.decayMap ++ waiting).Nodup
  keyed : ∀ timestamp item, Holds s.decayMap timestamp item → ∀ a, s.items item = some a →
    a.durationTimestamp = some timestamp ∧ s.plan item = some timestamp
  range : ∀ timestamp ∈ keys s.decayMap, floor < timestamp ∧ timestamp < s.clock + 2 ^ 31
  late : floor ≤ s.clock
  waiting : ∀ item ∈ waiting, (s.items item).isSome → ∃ timestamp, s.plan item = some timestamp ∧
    timestamp ≤ s.clock
  decayed : ∀ d ∈ s.decayed, ∃ timestamp, d.plan = some timestamp ∧ timestamp ≤ d.time

/-- A check is scheduled in time. -/
def Checked (s : State) : Prop := ∀ first ∈ (keys s.decayMap).head?, ∃ time, (s.eventId, time) ∈ s.events ∧
  time ≤ max first (s.clock + MIN_TASK_INTERVAL)

variable {floor : Int} {waiting : List ItemId} {s : State} {item : ItemId}

theorem Inv.apart (h : Inv floor waiting s) (hw : item ∈ waiting) : item ∉ items s.decayMap :=
  fun hm => (nodup_append.mp h.nodup).2.2 item hm item hw rfl

theorem Inv.events (h : Inv floor waiting s) (es : List (Nat × Int)) (i n : Nat) :
    Inv floor waiting { s with events := es, eventId := i, nextIdentifier := n } :=
  { h with }

theorem Inv.addEvent (h : Inv floor waiting s) (accepted : Bool) (delay : Int) :
    Inv floor waiting (addEvent accepted delay s) := by
  unfold Decay.addEvent
  split
  · exact h.events _ _ _
  · exact h.events s.events 0 s.nextIdentifier

theorem Inv.stopEvent (h : Inv floor waiting s) (i : Nat) : Inv floor waiting (stopEvent i s) :=
  h.events _ s.eventId s.nextIdentifier

theorem Inv.setItem (h : Inv floor waiting s) {f : Attributes → Attributes}
    (hf : item ∈ items s.decayMap → ∀ a, s.items item = some a →
      (f a).durationTimestamp = a.durationTimestamp) : Inv floor waiting (s.setItem item f) := by
  refine { h with keyed := ?_, waiting := ?_ }
  · intro ts x hx a ha
    by_cases hxi : x = item
    · subst hxi
      simp only [State.setItem, update_self] at ha
      obtain ⟨b, hb, rfl⟩ := map_eq_some_iff.mp ha
      rw [hf (mem_items.mpr ⟨ts, hx⟩) b hb]
      exact h.keyed ts x hx b hb
    · simp only [State.setItem, update_of_ne hxi] at ha
      exact h.keyed ts x hx a ha
  · intro x hx hlive
    refine h.waiting x hx ?_
    by_cases hxi : x = item
    · subst hxi
      simpa [State.setItem] using hlive
    · simpa [State.setItem, update_of_ne hxi] using hlive

theorem Inv.setPlan (h : Inv floor waiting s) (hm : item ∉ items s.decayMap) (hw : item ∉ waiting)
    (p : Option Int) : Inv floor waiting { s with plan := update s.plan item p } := by
  refine { h with keyed := ?_, waiting := ?_ }
  · intro ts x hx a ha
    have hne : x ≠ item := fun he => hm (mem_items.mpr ⟨ts, he ▸ hx⟩)
    show _ ∧ update s.plan item p x = _
    rw [update_of_ne hne]
    exact h.keyed ts x hx a ha
  · intro x hx hlive
    have hne : x ≠ item := fun he => hw (he ▸ hx)
    show ∃ ts, update s.plan item p x = _ ∧ _
    rw [update_of_ne hne]
    exact h.waiting x hx hlive

/-! ## Stopping -/

variable {timestamp : Int}

theorem stopDecay_cases (item : ItemId) (timestamp : Int) (s : State) :
    stopDecay item timestamp s = s ∧ (s.items item = none ∨ takeOut timestamp item s.decayMap = none) ∨
    ∃ f m, takeOut timestamp item s.decayMap = some m ∧
      (∀ a, (f a).durationTimestamp = a.durationTimestamp) ∧
      stopDecay item timestamp s = { s.setItem item f with decayMap := m } := by
  unfold stopDecay
  split
  · next a m ha hm =>
    refine .inr ⟨_, m, hm, ?_, rfl⟩
    intro a
    split <;> rfl
  · next hno =>
    refine .inl ⟨rfl, ?_⟩
    cases ha : s.items item with
    | none => exact .inl rfl
    | some a =>
      cases hm : takeOut timestamp item s.decayMap with
      | none => exact .inr rfl
      | some m => exact absurd hm (hno a m ha)

theorem Inv.takeOut (h : Inv floor waiting s) {m : Buckets Int ItemId}
    (hm : takeOut timestamp item s.decayMap = some m) : Inv floor waiting { s with decayMap := m } := by
  obtain ⟨hperm, hkeys, hholds⟩ := takeOut_spec hm
  refine ⟨sorted_takeOut h.sorted hm, ?_, ?_, ?_, h.late, h.waiting, h.decayed⟩
  · have hn := (hperm.append_right waiting).nodup_iff.mp h.nodup
    exact (nodup_cons.mp hn).2
  · intro ts x hx
    exact h.keyed ts x (hholds ts x hx)
  · intro ts hts
    exact h.range ts (hkeys.subset hts)

theorem stopDecay_inv (h : Inv floor waiting s) (item : ItemId) (timestamp : Int) :
    Inv floor waiting (stopDecay item timestamp s) := by
  rcases stopDecay_cases item timestamp s with ⟨heq, -⟩ | ⟨f, m, hm, hf, heq⟩
  · rw [heq]
    exact h
  · rw [heq]
    exact (h.takeOut hm).setItem (s := { s with decayMap := m }) fun _ a _ => hf a

theorem stopDecay_gone (h : Inv floor waiting s) (hlive : (s.items item).isSome)
    (hown : ∀ a, s.items item = some a → a.durationTimestamp = some timestamp) :
    item ∉ items (stopDecay item timestamp s).decayMap := by
  obtain ⟨a, ha⟩ := isSome_iff_exists.mp hlive
  rcases stopDecay_cases item timestamp s with ⟨heq, hnone⟩ | ⟨f, m, hm, hf, heq⟩
  · rw [heq]
    intro hin
    obtain ⟨ts, hts⟩ := mem_items.mp hin
    have hkey := (h.keyed ts item hts a ha).1
    rw [hown a ha] at hkey
    obtain rfl := Option.some.inj hkey
    rcases hnone with hnone | hnone
    · rw [ha] at hnone
      cases hnone
    · exact not_holds_of_takeOut h.sorted hnone hts
  · rw [heq]
    have hn := (nodup_append.mp h.nodup).1
    exact (nodup_cons.mp ((takeOut_spec hm).1.nodup_iff.mp hn)).1

theorem stopDecay_isSome (item x : ItemId) (timestamp : Int) (s : State) :
    ((stopDecay item timestamp s).items x).isSome = (s.items x).isSome := by
  rcases stopDecay_cases item timestamp s with ⟨heq, -⟩ | ⟨f, m, hm, hf, heq⟩
  · rw [heq]
  · rw [heq]
    show (update s.items item ((s.items item).map f) x).isSome = _
    by_cases hxi : x = item <;> simp [hxi, update_self, isSome_map]

theorem stopDecay_clock (item : ItemId) (timestamp : Int) (s : State) :
    (stopDecay item timestamp s).clock = s.clock := by
  rcases stopDecay_cases item timestamp s with ⟨heq, -⟩ | ⟨f, m, hm, hf, heq⟩
  · rw [heq]
  · rw [heq]
    rfl

/-! ## Starting -/

theorem unschedule_spec (h : Inv floor waiting s) (hlive : (s.items item).isSome) :
    Inv floor waiting (unschedule item s) ∧ item ∉ items (unschedule item s).decayMap ∧
      ((unschedule item s).items item).isSome ∧ (unschedule item s).clock = s.clock := by
  obtain ⟨a, ha⟩ := isSome_iff_exists.mp hlive
  unfold unschedule
  split
  · next ts hts =>
    rw [ha, bind_some] at hts
    have hown : ∀ b, s.items item = some b → b.durationTimestamp = some ts := by
      intro b hb
      rw [ha] at hb
      obtain rfl := Option.some.inj hb
      exact hts
    exact ⟨stopDecay_inv h item ts, stopDecay_gone h hlive hown, by rw [stopDecay_isSome, ha]; rfl,
      stopDecay_clock item ts s⟩
  · next hnone =>
    rw [ha, bind_some] at hnone
    refine ⟨h, ?_, hlive, rfl⟩
    intro hin
    obtain ⟨ts, hts⟩ := mem_items.mp hin
    have hkey := (h.keyed ts item hts a ha).1
    rw [hnone] at hkey
    cases hkey

theorem reschedule_eq (accepted : Bool) (timestamp duration : Int) (s : State) :
    ∃ es i n, reschedule accepted timestamp duration s =
      { s with events := es, eventId := i, nextIdentifier := n } := by
  have hadd (s : State) (delay : Int) : ∃ es i n, addEvent accepted delay s =
      { s with events := es, eventId := i, nextIdentifier := n } := by
    unfold addEvent
    split
    · exact ⟨_, _, _, rfl⟩
    · exact ⟨s.events, 0, s.nextIdentifier, rfl⟩
  unfold reschedule
  split
  · exact hadd s _
  · split
    · exact hadd (stopEvent s.eventId s) _
    · exact ⟨s.events, s.eventId, s.nextIdentifier, rfl⟩

theorem enqueue_inv (h : Inv floor waiting s) (hm : item ∉ items s.decayMap) (hw : item ∉ waiting)
    (hlo : floor < timestamp) (hhi : timestamp < s.clock + 2 ^ 31) :
    Inv floor waiting { enqueue item timestamp s with
      plan := update s.plan item (some timestamp) } := by
  refine ⟨sorted_put h.sorted timestamp item, ?_, ?_, ?_, h.late, ?_, h.decayed⟩
  · have hperm := (put_perm timestamp item s.decayMap).append_right waiting
    refine hperm.nodup_iff.mpr (nodup_cons.mpr ⟨?_, h.nodup⟩)
    intro hin
    exact (mem_append.mp hin).elim hm hw
  · intro ts x hx a ha
    show _ ∧ update s.plan item (some timestamp) x = _
    have ha' : update s.items item ((s.items item).map fun a =>
      { a with decayState := some .DECAYING_TRUE, durationTimestamp := some timestamp }) x = some a := ha
    rcases holds_put hx with ⟨rfl, rfl⟩ | hx
    · rw [update_self] at ha' ⊢
      obtain ⟨b, -, rfl⟩ := map_eq_some_iff.mp ha'
      exact ⟨rfl, rfl⟩
    · have hne : x ≠ item := fun he => hm (mem_items.mpr ⟨ts, he ▸ hx⟩)
      rw [update_of_ne hne] at ha' ⊢
      exact h.keyed ts x hx a ha'
  · intro ts hts
    rcases mem_keys_put hts with rfl | hts
    · exact ⟨hlo, hhi⟩
    · exact h.range ts hts
  · intro x hx hlive
    have hne : x ≠ item := fun he => hw (he ▸ hx)
    show ∃ ts, update s.plan item (some timestamp) x = _ ∧ _
    rw [update_of_ne hne]
    refine h.waiting x hx ?_
    have hlive' : (update s.items item _ x).isSome = true := hlive
    rwa [update_of_ne hne] at hlive'

theorem startDecay_inv (h : Inv floor waiting s) (hw : item ∉ waiting) {duration : Int} (hpos : 0 < duration)
    (hmax : duration < 2 ^ 31) (accepted : Bool) :
    Inv floor waiting (apply s (.startDecay item duration accepted)) := by
  unfold apply startDecay
  dsimp only
  by_cases hlive : (s.items item).isSome = true
  · rw [if_pos hlive]
    obtain ⟨hinv, hgone, hsome, hclock⟩ := unschedule_spec h hlive
    obtain ⟨es, i, n, heq⟩ := reschedule_eq accepted (s.clock + duration) duration (unschedule item s)
    have hlate := h.late
    have hlo : floor < s.clock + duration := by omega
    have hhi : s.clock + duration < (unschedule item s).clock + 2 ^ 31 := by omega
    have hres := enqueue_inv (hinv.events es i n) hgone hw hlo hhi
    rw [heq]
    unfold State.setPlan
    rw [if_pos]
    · exact hres
    · show (update (unschedule item s).items item _ item).isSome = true
      rw [update_self, isSome_map]
      exact hsome
  · rw [if_neg hlive]
    unfold State.setPlan
    rw [if_neg hlive]
    exact h

theorem apply_inv (h : Inv floor waiting s) {op : Op} (hc : Called waiting s op) (ha : Apart waiting s op) :
    Inv floor waiting (apply s op) := by
  cases op with
  | startDecay x duration accepted => exact startDecay_inv h ha hc.1 hc.2.1 accepted
  | stopDecay x ts =>
    have hinv := stopDecay_inv h x ts
    unfold apply State.setPlan
    dsimp only
    rw [stopDecay_isSome]
    by_cases hlive : (s.items x).isSome = true
    · rw [if_pos hlive]
      exact hinv.setPlan (stopDecay_gone h hlive hc) ha none
    · rw [if_neg hlive]
      exact hinv
  | write x a => exact h.setItem hc
  | drop x =>
    refine { h with keyed := ?_, waiting := ?_ }
    · intro ts y hy a ha
      by_cases hyx : y = x
      · subst hyx
        simp only [apply, update_self] at ha
        cases ha
      · simp only [apply, update_of_ne hyx] at ha
        exact h.keyed ts y hy a ha
    · intro y hy hlive
      by_cases hyx : y = x
      · subst hyx
        simp only [apply, update_self] at hlive
        cases hlive
      · simp only [apply, update_of_ne hyx] at hlive
        exact h.waiting y hy hlive
  | tick n =>
    refine { h with range := ?_, late := ?_, waiting := ?_ }
    · intro ts hts
      obtain ⟨hlo, hhi⟩ := h.range ts hts
      exact ⟨hlo, by show ts < s.clock + n + _; omega⟩
    · have := h.late
      show floor ≤ s.clock + n
      omega
    · intro y hy hlive
      obtain ⟨ts, hp, hle⟩ := h.waiting y hy hlive
      exact ⟨ts, hp, by show ts ≤ s.clock + n; omega⟩

/-! ## The next check -/

theorem checked_addEvent {delay : Int} (hd : ∀ first ∈ (keys s.decayMap).head?,
    s.clock + delay ≤ max first (s.clock + MIN_TASK_INTERVAL)) : Checked (addEvent true delay s) := by
  intro first hf
  exact ⟨s.clock + delay, mem_cons_self, hd first hf⟩

theorem checked_stopDecay (hs : Sorted s.decayMap) (h : Checked s) (item : ItemId) (timestamp : Int) :
    Checked (stopDecay item timestamp s) := by
  rcases stopDecay_cases item timestamp s with ⟨heq, -⟩ | ⟨f, m, hm, hf, heq⟩
  · rw [heq]
    exact h
  rw [heq]
  intro first hfirst
  obtain ⟨j, hj, hle⟩ := head_le_of_sublist hs (takeOut_spec hm).2.1 hfirst
  obtain ⟨time, hmem, htime⟩ := h j hj
  refine ⟨time, hmem, htime.trans ?_⟩
  show max j (s.clock + _) ≤ max first (s.clock + _)
  omega

theorem checked_enqueue (h : Checked s) (item : ItemId) (duration : Int) :
    Checked (enqueue item (s.clock + duration) (reschedule true (s.clock + duration) duration s)) := by
  have hown : s.clock + clampSchedulerDuration duration ≤
      max (s.clock + duration) (s.clock + MIN_TASK_INTERVAL) := by
    unfold clampSchedulerDuration
    omega
  intro first hfirst
  unfold reschedule at hfirst ⊢
  cases hmap : s.decayMap with
  | nil =>
    simp only [enqueue, addEvent, if_true, State.setItem, hmap] at hfirst ⊢
    obtain rfl := Option.some.inj hfirst
    exact ⟨_, mem_cons_self, hown⟩
  | cons e m =>
    obtain ⟨j, as⟩ := e
    rw [hmap] at hfirst
    dsimp only at hfirst ⊢
    split at hfirst
    · next hlt =>
      simp only [enqueue, addEvent, if_true, State.setItem, stopEvent, hmap, put, if_pos hlt] at hfirst ⊢
      obtain rfl := Option.some.inj hfirst
      exact ⟨_, mem_cons_self, hown⟩
    · next hge =>
      rw [if_neg hge]
      have hj : first = j := by
        simp only [enqueue, State.setItem, hmap, put, if_neg hge] at hfirst
        split at hfirst <;> exact (Option.some.inj hfirst).symm
      rw [hj]
      exact h j (by rw [hmap]; rfl)

theorem apply_checked (h : Inv floor waiting s) (hk : Checked s) {op : Op} (hc : Called waiting s op) :
    Checked (apply s op) := by
  cases op with
  | startDecay x duration accepted =>
    obtain ⟨-, -, rfl⟩ := hc
    unfold apply startDecay
    dsimp only
    by_cases hlive : (s.items x).isSome = true
    · rw [if_pos hlive]
      have hclock := (unschedule_spec h hlive).2.2.2
      have hun : Checked (unschedule x s) := by
        unfold unschedule
        split
        · exact checked_stopDecay h.sorted hk x _
        · exact hk
      rw [← hclock]
      exact checked_enqueue hun x duration
    · rw [if_neg hlive]
      exact hk
  | stopDecay x ts => exact checked_stopDecay h.sorted hk x ts
  | write x a => exact hk
  | drop x => exact hk
  | tick n =>
    intro first hf
    obtain ⟨time, hmem, htime⟩ := hk first hf
    refine ⟨time, hmem, htime.trans ?_⟩
    show max first (s.clock + _) ≤ max first (s.clock + n + _)
    omega

/-! ## A batch -/

variable {visits : List Visit}

theorem apply_clock (s : State) (op : Op) : (apply s op).clock = s.clock + op.elapsed := by
  cases op with
  | startDecay x duration accepted =>
    show (startDecay x duration accepted s).clock = s.clock + 0
    unfold startDecay
    split
    · obtain ⟨es, i, n, heq⟩ := reschedule_eq accepted (s.clock + duration) duration (unschedule x s)
      dsimp only
      rw [heq]
      show (unschedule x s).clock = _
      unfold unschedule
      split <;> simp [stopDecay_clock]
    · rw [Int.add_zero]
  | stopDecay x ts =>
    show (stopDecay x ts s).clock = s.clock + 0
    rw [stopDecay_clock, Int.add_zero]
  | write x a => exact (Int.add_zero _).symm
  | drop x => exact (Int.add_zero _).symm
  | tick n => rfl

theorem run_clock (s : State) (ops : List Op) : (run apply s ops).clock = s.clock + (ops.map Op.elapsed).sum := by
  induction ops generalizing s with
  | nil => exact (Int.add_zero _).symm
  | cons op ops ih =>
    rw [run_cons, ih, apply_clock, map_cons, sum_cons]
    omega

theorem letGo_clock (item : ItemId) (canDecay : Bool) (s : State) : (letGo item canDecay s).clock = s.clock := by
  unfold letGo
  split
  · rfl
  · split <;> rfl

theorem processDecayBatch_clock (items : List ItemId) (visits : List Visit) (s : State) :
    (processDecayBatch items visits s).clock ≤ s.clock + ((visits.flatMap (·.ops)).map Op.elapsed).sum := by
  induction items generalizing visits s with
  | nil =>
    show s.clock ≤ _
    omega
  | cons x rest ih =>
    have htail := ih visits.tail (visit x (visits.headD {}) s)
    have hvisit : (visit x (visits.headD {}) s).clock ≤
        s.clock + ((visits.headD {}).ops.map Op.elapsed).sum := by
      grind [visit, callsOf, run_clock, letGo_clock]
    show (processDecayBatch rest visits.tail _).clock ≤ _
    cases visits with
    | nil => exact htail.trans (by simpa using hvisit)
    | cons v vs =>
      rw [flatMap_cons, map_append, sum_append]
      rw [headD_cons] at hvisit htail
      rw [tail_cons] at htail
      rw [headD_cons, tail_cons]
      omega

theorem letGo_inv (h : Inv floor (item :: waiting) s) (canDecay : Bool) :
    Inv floor waiting (letGo item canDecay s) := by
  have hitem := mem_cons_self (a := item) (l := waiting)
  have hw : item ∉ waiting := by
    have hn := (perm_middle.nodup_iff.mp h.nodup)
    exact fun hin => (nodup_cons.mp hn).1 (mem_append_right _ hin)
  have hm := h.apart hitem
  have hsmall : Inv floor waiting s := by
    refine { h with nodup := ?_, waiting := ?_ }
    · exact (nodup_cons.mp (perm_middle.nodup_iff.mp h.nodup)).2
    · exact fun x hx => h.waiting x (mem_cons_of_mem item hx)
  unfold letGo
  split
  · exact hsmall
  next a ha =>
  split
  · have hkept : Inv floor waiting (s.setItem item fun a => { a with decayState := some .DECAYING_FALSE }) :=
      hsmall.setItem fun hin => absurd hin hm
    have hset := hkept.setPlan hm hw none
    refine { hset with decayed := ?_ }
    intro d hd
    rcases mem_cons.mp hd with rfl | hd
    · exact h.waiting item hitem (by rw [ha]; rfl)
    · exact h.decayed d hd
  · refine (Inv.setItem hsmall ?_).setPlan hm hw none
    exact fun hin => absurd hin hm

theorem run_inv (h : Inv floor waiting s) {ops : List Op}
    (ha : Allowed apply (fun s op => Called waiting s op ∧ Apart waiting s op) s ops) :
    Inv floor waiting (run apply s ops) := by
  induction ops generalizing s with
  | nil => exact h
  | cons op ops ih => exact ih (apply_inv h ha.1.1 ha.1.2) ha.2

theorem EachCall.and {P Q : List ItemId → State → Op → Prop} {items : List ItemId} (h : EachCall P items visits s)
    (h' : EachCall Q items visits s) : EachCall (fun w s op => P w s op ∧ Q w s op) items visits s := by
  induction items generalizing visits s with
  | nil => trivial
  | cons x rest ih => exact ⟨h.1.and h'.1, ih h.2 h'.2⟩

theorem processDecayBatch_inv {items : List ItemId} (h : Inv floor items s)
    (hc : EachCall (fun w s op => Called w s op ∧ Apart w s op) items visits s) :
    Inv floor [] (processDecayBatch items visits s) := by
  induction items generalizing visits s with
  | nil => exact h
  | cons x rest ih => exact ih (run_inv (letGo_inv h _) hc.1) hc.2

/-! ## A check -/

variable {lo : Int}

theorem int32_eq {n : Int} (hlo : -(2 ^ 31) ≤ n) (hhi : n < 2 ^ 31) : int32 n = n := by
  show n.bmod (2 ^ 32) = n
  refine Int.bmod_eq_of_le_mul_two ?_ ?_
  · omega
  · omega

theorem due_inv (h : Inv lo [] s) :
    Inv s.clock (items (due s.clock s.decayMap))
      { s with decayMap := later s.clock s.decayMap } := by
  have hsplit : items s.decayMap = items (due s.clock s.decayMap) ++
      items (later s.clock s.decayMap) := by
    rw [items, items, items, ← flatMap_append, due_append_later]
  refine ⟨sorted_later h.sorted _, ?_, ?_, ?_, le_refl _, ?_, h.decayed⟩
  · have hn := h.nodup
    grind
  · exact fun ts x hx => h.keyed ts x hx.of_later
  · intro ts hts
    have hin : ts ∈ keys s.decayMap := ((dropWhile_sublist _).map _).subset hts
    exact ⟨lt_later h.sorted hts, (h.range ts hin).2⟩
  · intro x hx hlive
    obtain ⟨a, ha⟩ := isSome_iff_exists.mp hlive
    obtain ⟨ts, hts⟩ := mem_items.mp hx
    exact ⟨ts, (h.keyed ts x hts.of_due a ha).2, due_le hts⟩

/-- The bound below is only for the length of a batch. -/
theorem Inv.lower (h : Inv floor waiting s) (hlo : lo ≤ floor) : Inv lo waiting s :=
  { h with range := fun ts hts => ⟨lt_of_le_of_lt hlo (h.range ts hts).1, (h.range ts hts).2⟩, late := hlo.trans h.late }

theorem checkDecay_inv (h : Inv lo [] s) (hc : EachCall (fun w s op => Called w s op ∧ Apart w s op)
      (items (due s.clock s.decayMap)) visits
      { s with decayMap := later s.clock s.decayMap })
    (htime : ((visits.flatMap (·.ops)).map Op.elapsed).sum < 2 ^ 31) :
    Inv lo [] (checkDecay visits true s) ∧ Checked (checkDecay visits true s) := by
  have hbatch := processDecayBatch_inv (due_inv h) hc
  have hclock := processDecayBatch_clock (items (due s.clock s.decayMap)) visits
    { s with decayMap := later s.clock s.decayMap }
  unfold checkDecay
  dsimp only
  generalize processDecayBatch (items (due s.clock s.decayMap)) visits
    { s with decayMap := later s.clock s.decayMap } = t at hbatch hclock
  have hlow := hbatch.lower h.late
  split
  · next hmap =>
    refine ⟨hlow, ?_⟩
    intro first hf
    rw [hmap] at hf
    cases hf
  · next first as m hmap =>
    have hstopped (u : State) (hu : Inv lo [] u) : Inv lo [] (if u.eventId ≠ 0 then stopEvent u.eventId u else u) := by
      split
      · exact hu.stopEvent _
      · exact hu
    refine ⟨(hstopped t hlow).addEvent _ _, checked_addEvent ?_⟩
    intro j hj
    have hfirst : first ∈ keys t.decayMap := by
      rw [hmap]
      exact mem_cons_self
    obtain ⟨hlo, hhi⟩ := hbatch.range first hfirst
    have hsame : ∀ u : State, (if u.eventId ≠ 0 then stopEvent u.eventId u else u).clock = u.clock ∧
        (if u.eventId ≠ 0 then stopEvent u.eventId u else u).decayMap = u.decayMap := by
      intro u
      split <;> exact ⟨rfl, rfl⟩
    rw [(hsame t).2, hmap] at hj
    have hj : first = j := Option.some.inj hj
    have hend : t.clock ≤ s.clock + ((visits.flatMap (·.ops)).map Op.elapsed).sum := hclock
    rw [(hsame t).1, clampSchedulerDuration, int32_eq (by omega) (by omega), hj]
    omega

theorem clear_inv (h : Inv lo [] s) : Inv lo [] (clear s) ∧ Checked (clear s) := by
  refine ⟨⟨List.Pairwise.nil, nodup_nil, ?_, ?_, ?_, ?_, ?_⟩, ?_⟩
  · rintro ts x ⟨as, has, -⟩
    cases has
  · intro ts hts
    cases hts
  · unfold clear
    split <;> exact h.late
  · intro x hx
    cases hx
  · intro d hd
    refine h.decayed d ?_
    unfold clear at hd
    split at hd <;> exact hd
  · intro first hf
    cases hf

/-! ## Runs -/

/-- In every run in which the callers keep to their side and no call made during a batch is for
    an item that still waits in it, the rules of decay hold. -/
theorem decay_discipline (h : Reach started step (fun s e => Promised s e ∧ Calls Apart s e) s) :
    Discipline s := by
  have hs : (∃ lo, Inv lo [] s) ∧ Checked s := by
    refine Reach.inv (I := fun s => (∃ lo, Inv lo [] s) ∧ Checked s) ?_ ?_ h
    · rintro s ⟨items, rfl⟩
      refine ⟨⟨0, ⟨List.Pairwise.nil, nodup_nil, ?_, ?_, le_refl _, ?_, ?_⟩⟩, ?_⟩
      · rintro ts x ⟨as, has, -⟩
        cases has
      · intro ts hts
        cases hts
      · intro x hx
        cases hx
      · intro d hd
        cases hd
      · intro first hf
        cases hf
    · rintro s e ⟨hp, ha⟩ ⟨⟨lo, hinv⟩, hk⟩
      cases e with
      | call op =>
        have hcall : Called [] s op := hp.1
        have hdue : Apart [] s op := ha
        exact ⟨⟨lo, apply_inv hinv hcall hdue⟩, apply_checked hinv hk hcall⟩
      | clear => exact ⟨⟨lo, (clear_inv hinv).1⟩, (clear_inv hinv).2⟩
      | checkDecay fired visits accepted =>
        obtain ⟨haccepted, htime⟩ := hp.2 fired visits accepted rfl
        have hboth := checkDecay_inv (hinv.stopEvent fired) (hp.1.and ha) htime
        rw [haccepted]
        exact ⟨⟨lo, hboth.1⟩, hboth.2⟩
  obtain ⟨⟨lo, hinv⟩, hk⟩ := hs
  refine ⟨?_, fun ts x hx a ha' => (hinv.keyed ts x hx a ha').1, hinv.decayed, hk⟩
  simpa using hinv.nodup

def twoItems : State := { items := fun item => if item = 1 ∨ item = 2 then some {} else none }

theorem reached_twoItems {ok : State → Event → Prop} {es : List Event} (h : Allowed step ok twoItems es) :
    Reach started step ok (run step twoItems es) := by
  have h0 : Reach started step ok twoItems := .init ⟨_, rfl⟩
  exact h0.run h

def decayAgain : List Event :=
  [.call (.startDecay 1 100 true), .call (.startDecay 2 100 true), .call (.tick 100),
    .checkDecay 1 [{ ops := [.startDecay 1 500 true] }] true]

theorem decay_discipline_decayAgain : Discipline (run step twoItems decayAgain) := by
  refine decay_discipline (reached_twoItems ⟨?_, ?_, ?_, ?_, trivial⟩)
  · exact ⟨⟨⟨by decide, by decide, rfl⟩, by rintro _ _ _ ⟨⟩⟩, not_mem_nil⟩
  · exact ⟨⟨⟨by decide, by decide, rfl⟩, by rintro _ _ _ ⟨⟩⟩, not_mem_nil⟩
  · exact ⟨⟨trivial, by rintro _ _ _ ⟨⟩⟩, trivial⟩
  · refine ⟨⟨⟨⟨⟨by decide, by decide, rfl⟩, trivial⟩, trivial, trivial⟩, ?_⟩, ⟨⟨?_, trivial⟩, trivial, trivial⟩⟩
    · rintro _ _ _ ⟨⟩
      exact ⟨rfl, by decide⟩
    · show 1 ∉ [2]
      decide

def stopWaiting : List Event :=
  [.call (.startDecay 1 100 true), .call (.startDecay 2 100 true), .call (.tick 100),
    .checkDecay 1 [{ ops := [.stopDecay 2 100] }] true]

/-- An item that is stopped while it waits decays all the same. -/
theorem stopped_item_decays : ¬ ∀ s, Reach started step Promised s → Discipline s := by
  intro hall
  have hrun : Reach started step Promised (run step twoItems stopWaiting) := by
    refine reached_twoItems ⟨?_, ?_, ?_, ?_, trivial⟩
    · exact ⟨⟨by decide, by decide, rfl⟩, by rintro _ _ _ ⟨⟩⟩
    · exact ⟨⟨by decide, by decide, rfl⟩, by rintro _ _ _ ⟨⟩⟩
    · exact ⟨trivial, by rintro _ _ _ ⟨⟩⟩
    · refine ⟨⟨⟨?_, trivial⟩, trivial, trivial⟩, ?_⟩
      · intro a ha
        obtain rfl := Option.some.inj ha
        rfl
      · rintro _ _ _ ⟨⟩
        exact ⟨rfl, by decide⟩
  obtain ⟨ts, hts, -⟩ := (hall _ hrun).decayed ⟨2, 100, none⟩ mem_cons_self
  cases hts

end Backlands.Items.Decay
