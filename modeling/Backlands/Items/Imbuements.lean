/-
  Backlands.Items.Imbuements — the imbuements of an item and its slots for them
  (`Item::addImbuementSlots`, `removeImbuementSlots`, `addImbuement`, `removeImbuement`,
  src/item.cpp).

  An imbuement is its object, and `imbuetype` what kind the object is. What a player gains by
  one is `effects`: how often more it was added than removed. Scripts may refuse what a player
  puts on and change nothing else. The values of an imbuement are left out, as is its decay.

  The room for more slots is reckoned from the imbuements held and not from the slots, so slots
  may pass 16 bits. A boost of the capacity has an effect on a worn backpack only. Proved:
  `imbuements_right`, the slots are right along a run exactly when no call adds `Past` 16 bits,
  and a worn item's effects exactly when each imbuement added `Applies`. Counterexample:
  `slots_wrap`.
-/

import Backlands.Lib.Runs
import Mathlib.Data.List.Nodup

namespace Backlands.Items.Imbuements

open Backlands.Lib List

inductive ImbuementType where
  | none | fireDamage | earthDamage | iceDamage | energyDamage | deathDamage | holyDamage | lifeLeech | manaLeech
  | criticalChance | criticalAmount | fireResist | earthResist | iceResist | energyResist | holyResist | deathResist
  | paralysisDeflection | speedBoost | capacityBoost | fistSkill | axeSkill | swordSkill | clubSkill | distanceSkill
  | fishingSkill | shieldSkill | magicLevel
  deriving DecidableEq

/-- Where a call finds the server and the item. -/
structure Circumstances where
  imbuementSystemEnabled : Bool
  /-- The item is equipped by a player. -/
  isEquipped : Bool
  /-- That player's `CONST_SLOT_BACKPACK` is the item. -/
  inBackpackSlot : Bool
  deriving DecidableEq

structure State (ι : Type) where
  imbuementSlots : UInt16
  imbuements : List ι
  effects : ι → Int
  /-- The slots there were, and what was added and removed since. -/
  expected : Int

variable {ι : Type} [DecidableEq ι] (imbuetype : ι → ImbuementType)

inductive Op (ι : Type) where
  | addImbuementSlots (amount : UInt16)
  | removeImbuementSlots (amount : UInt16) (destroyImbues : Bool)
  /-- `onImbue` is what the script answers, which is asked only if `created`. -/
  | addImbuement (imbuement : ι) (created onImbue : Bool)
  | removeImbuement (imbuement : ι)

/-- What the imbuement does is the player's. -/
def Circumstances.affects (at' : Circumstances) (imbuement : ι) : Bool :=
  at'.imbuementSystemEnabled && at'.isEquipped &&
    (imbuetype imbuement ≠ .capacityBoost || at'.inBackpackSlot)

namespace State

variable (at' : Circumstances) (s : State ι)

def changeEffect (imbuement : ι) (by' : Int) : State ι :=
  if at'.affects imbuetype imbuement then
    { s with effects := Function.update s.effects imbuement (s.effects imbuement + by') }
  else s

def addImbuementSlots (amount : UInt16) : State ι × Bool :=
  let currentSlots := s.imbuements.length % 2 ^ 16
  if currentSlots + amount.toNat ≥ 65535 then (s, false)
  else ({ s with imbuementSlots := s.imbuementSlots + amount, expected := s.expected + amount.toNat }, true)

def removeImbuement (imbuement : ι) : State ι × Bool :=
  if imbuement ∈ s.imbuements then
    ({ s.changeEffect imbuetype at' imbuement (-1) with imbuements := s.imbuements.filter (· ≠ imbuement) }, true)
  else (s, false)

/-- The loop that destroys from the end. -/
def removeExcess : Nat → State ι
  | 0 => s
  | n + 1 =>
    let s' := removeExcess n
    match s'.imbuements.getLast? with
    | some imbuement => (s'.removeImbuement imbuetype at' imbuement).1
    | none => s'

def removeImbuementSlots (amount : UInt16) (destroyImbues : Bool) : State ι × Bool :=
  if amount = 0 ∨ amount > s.imbuementSlots then (s, false)
  else
    let newSlotCount := s.imbuementSlots - amount
    let activeCount := s.imbuements.length % 2 ^ 16
    if activeCount > newSlotCount.toNat ∧ destroyImbues = false then (s, false)
    else
      let s' := s.removeExcess imbuetype at' (activeCount - newSlotCount.toNat)
      ({ s' with imbuementSlots := newSlotCount, expected := s'.expected - amount.toNat }, true)

def addImbuement (imbuement : ι) (created onImbue : Bool) : State ι × Bool :=
  if created && !at'.imbuementSystemEnabled then (s, false)
  else if imbuement ∈ s.imbuements then (s, false)
  else
    let hasRoom := s.imbuementSlots > 0 ∧ s.imbuementSlots.toNat > s.imbuements.length
    if hasRoom ∧ (!created || onImbue) then
      ({ s.changeEffect imbuetype at' imbuement 1 with imbuements := s.imbuements ++ [imbuement] }, true)
    else (s, false)

def call (e : Circumstances × Op ι) : State ι × Bool :=
  match e.2 with
  | .addImbuementSlots amount => s.addImbuementSlots amount
  | .removeImbuementSlots amount destroyImbues => s.removeImbuementSlots imbuetype e.1 amount destroyImbues
  | .addImbuement imbuement created onImbue => s.addImbuement imbuetype e.1 imbuement created onImbue
  | .removeImbuement imbuement => s.removeImbuement imbuetype e.1 imbuement

def step (e : Circumstances × Op ι) : State ι := (s.call imbuetype e).1

end State

/-! ## What is to hold -/

namespace State

/-- No imbuement twice, no more of them than slots, and as many slots as were ever given. -/
structure Sound (s : State ι) : Prop where
  nodup : s.imbuements.Nodup
  length_le : s.imbuements.length ≤ s.imbuementSlots.toNat
  exact : (s.imbuementSlots.toNat : Int) = s.expected

/-- Each imbuement held was added to the player once more than removed. -/
def Effective (s : State ι) : Prop := ∀ i ∈ s.imbuements, s.effects i = 1

structure Settled (at' : Circumstances) (s : State ι) : Prop where
  effects : ∀ i, s.effects i = if i ∈ s.imbuements then 1 else 0
  affects : ∀ i ∈ s.imbuements, at'.affects imbuetype i = true

/-- The call brings the slots past 16 bits. -/
def Past (s : State ι) : Op ι → Prop
  | .addImbuementSlots amount =>
    s.imbuements.length % 2 ^ 16 + amount.toNat < 65535 ∧ 2 ^ 16 ≤ s.imbuementSlots.toNat + amount.toNat
  | _ => False

/-- What a call puts on has an effect there. -/
def Applies (s : State ι) (e : Circumstances × Op ι) : Prop :=
  match e.2 with
  | .addImbuement imbuement created onImbue =>
    imbuement ∈ s.imbuements ∨ s.imbuementSlots.toNat ≤ s.imbuements.length ∨ (created = true ∧ onImbue = false) ∨
      e.1.affects imbuetype imbuement = true
  | _ => True

end State

/-! ## Slots -/

section Slots

variable {imbuetype} {at' : Circumstances} {s : State ι}

@[simp] theorem changeEffect_imbuementSlots (i : ι) (by' : Int) :
    (s.changeEffect imbuetype at' i by').imbuementSlots = s.imbuementSlots := by
  unfold State.changeEffect
  split <;> rfl

@[simp] theorem changeEffect_expected (i : ι) (by' : Int) :
    (s.changeEffect imbuetype at' i by').expected = s.expected := by
  unfold State.changeEffect
  split <;> rfl

@[simp] theorem removeImbuement_imbuements (i : ι) :
    (s.removeImbuement imbuetype at' i).1.imbuements = s.imbuements.filter (· ≠ i) := by
  unfold State.removeImbuement
  split
  · rfl
  rename_i hi
  refine (filter_eq_self.mpr fun j hj => ?_).symm
  simp only [decide_eq_true_eq]
  rintro rfl
  exact hi hj

@[simp] theorem removeImbuement_imbuementSlots (i : ι) :
    (s.removeImbuement imbuetype at' i).1.imbuementSlots = s.imbuementSlots := by
  unfold State.removeImbuement
  split
  · exact changeEffect_imbuementSlots i (-1)
  · rfl

@[simp] theorem removeImbuement_expected (i : ι) :
    (s.removeImbuement imbuetype at' i).1.expected = s.expected := by
  unfold State.removeImbuement
  split
  · exact changeEffect_expected i (-1)
  · rfl

theorem filter_ne_last {l : List ι} (h : l.Nodup) {i : ι} (hlast : l.getLast? = some i) :
    l.filter (· ≠ i) = l.dropLast := by
  obtain ⟨l', rfl⟩ := getLast?_eq_some_iff.mp hlast
  have hnot : i ∉ l' := fun hi => (nodup_append.mp h).2.2 i hi i (mem_singleton_self i) rfl
  rw [filter_append, dropLast_concat, filter_eq_self.mpr fun j hj => ?_]
  · simp
  · simp only [decide_eq_true_eq]
    rintro rfl
    exact hnot hj

theorem removeExcess_slots (hnodup : s.imbuements.Nodup) (n : Nat) :
    (s.removeExcess imbuetype at' n).imbuements = s.imbuements.take (s.imbuements.length - n) ∧
      (s.removeExcess imbuetype at' n).imbuementSlots = s.imbuementSlots ∧
      (s.removeExcess imbuetype at' n).expected = s.expected := by
  induction n with
  | zero => exact ⟨(take_length ..).symm, rfl, rfl⟩
  | succ n ih =>
    obtain ⟨himbuements, hslots, hexpected⟩ := ih
    unfold State.removeExcess
    dsimp only
    have hleft : (s.removeExcess imbuetype at' n).imbuements.Nodup := by
      rw [himbuements]
      exact hnodup.sublist (take_sublist _ _)
    cases hlast : (s.removeExcess imbuetype at' n).imbuements.getLast? with
    | some i =>
      refine ⟨?_, (removeImbuement_imbuementSlots i).trans hslots, (removeImbuement_expected i).trans hexpected⟩
      rw [removeImbuement_imbuements, filter_ne_last hleft hlast, himbuements, dropLast_eq_take, take_take,
        length_take]
      congr 1
      omega
    | none =>
      refine ⟨?_, hslots, hexpected⟩
      have hempty := getLast?_eq_none_iff.mp hlast
      rw [hempty]
      rw [himbuements] at hempty
      have hlength := congrArg List.length hempty
      rw [length_take, length_nil] at hlength
      have hnone : s.imbuements.length - (n + 1) = 0 := by omega
      rw [hnone, take_zero]

omit [DecidableEq ι] in
theorem State.Sound.length_lt (h : s.Sound) : s.imbuements.length % 2 ^ 16 = s.imbuements.length := by
  have hslots := s.imbuementSlots.toNat_lt
  have hle := h.length_le
  omega

omit [DecidableEq ι] in
/-- Slots are right after an addition exactly when it does not bring them past 16 bits. -/
theorem addImbuementSlots_sound (h : s.Sound) (amount : UInt16) :
    (s.addImbuementSlots amount).1.Sound ↔ ¬ s.Past (.addImbuementSlots amount) := by
  have hle := h.length_le
  have hexact := h.exact
  unfold State.addImbuementSlots State.Past
  rw [h.length_lt]
  by_cases hfull : s.imbuements.length + amount.toNat ≥ 65535
  · rw [if_pos hfull]
    exact iff_of_true h fun hpast => absurd hpast.1 (Nat.not_lt.mpr hfull)
  rw [if_neg hfull]
  have hsum : (s.imbuementSlots + amount).toNat = (s.imbuementSlots.toNat + amount.toNat) % 2 ^ 16 :=
    UInt16.toNat_add ..
  constructor
  · intro hsound hpast
    have hexact' : ((s.imbuementSlots + amount).toNat : Int) = s.expected + amount.toNat := hsound.exact
    omega
  intro hpast
  have hfits : s.imbuementSlots.toNat + amount.toNat < 2 ^ 16 := by omega
  rw [Nat.mod_eq_of_lt hfits] at hsum
  refine ⟨h.nodup, ?_, ?_⟩
  · show s.imbuements.length ≤ (s.imbuementSlots + amount).toNat
    omega
  · show ((s.imbuementSlots + amount).toNat : Int) = s.expected + amount.toNat
    omega

theorem State.Sound.removeImbuement (h : s.Sound) (i : ι) : (s.removeImbuement imbuetype at' i).1.Sound where
  nodup := by
    rw [removeImbuement_imbuements]
    exact h.nodup.filter _
  length_le := by
    rw [removeImbuement_imbuements, removeImbuement_imbuementSlots]
    exact Nat.le_trans (length_filter_le _ _) h.length_le
  exact := by
    rw [removeImbuement_imbuementSlots, removeImbuement_expected]
    exact h.exact

theorem State.Sound.removeImbuementSlots (h : s.Sound) (amount : UInt16) (destroyImbues : Bool) :
    (s.removeImbuementSlots imbuetype at' amount destroyImbues).1.Sound := by
  unfold State.removeImbuementSlots
  split
  · exact h
  rename_i hamount
  have hle : amount ≤ s.imbuementSlots := by
    rw [not_or, gt_iff_lt, UInt16.not_lt] at hamount
    exact hamount.2
  have hsub : (s.imbuementSlots - amount).toNat = s.imbuementSlots.toNat - amount.toNat := UInt16.toNat_sub_of_le _ _ hle
  rw [UInt16.le_iff_toNat_le] at hle
  dsimp only
  split
  · exact h
  obtain ⟨himbuements, -, hexpected⟩ := @removeExcess_slots _ _ imbuetype at' s h.nodup
    (s.imbuements.length % 2 ^ 16 - (s.imbuementSlots - amount).toNat)
  have hexact := h.exact
  refine ⟨?_, ?_, ?_⟩
  · rw [himbuements]
    exact h.nodup.sublist (take_sublist _ _)
  · show (s.removeExcess imbuetype at' _).imbuements.length ≤ (s.imbuementSlots - amount).toNat
    rw [himbuements, length_take, h.length_lt]
    omega
  · show ((s.imbuementSlots - amount).toNat : Int) = (s.removeExcess imbuetype at' _).expected - amount.toNat
    omega

theorem State.Sound.addImbuement (h : s.Sound) (i : ι) (created onImbue : Bool) :
    (s.addImbuement imbuetype at' i created onImbue).1.Sound := by
  unfold State.addImbuement
  split
  · exact h
  split
  · exact h
  rename_i hnew
  dsimp only
  split
  · rename_i hroom
    refine ⟨?_, ?_, ?_⟩
    · exact nodup_append.mpr ⟨h.nodup, nodup_singleton i, fun a ha b hb hab => hnew (by
        rw [mem_singleton] at hb
        rwa [← hb, ← hab])⟩
    · rw [length_append, changeEffect_imbuementSlots]
      exact hroom.1.2
    · rw [changeEffect_imbuementSlots, changeEffect_expected]
      exact h.exact
  · exact h

theorem step_sound (h : s.Sound) (e : Circumstances × Op ι) : (s.step imbuetype e).Sound ↔ ¬ s.Past e.2 := by
  obtain ⟨at', op⟩ := e
  cases op with
  | addImbuementSlots amount => exact addImbuementSlots_sound h amount
  | removeImbuementSlots amount destroyImbues => exact iff_of_true (h.removeImbuementSlots amount destroyImbues) id
  | addImbuement i created onImbue => exact iff_of_true (h.addImbuement i created onImbue) id
  | removeImbuement i => exact iff_of_true (h.removeImbuement i) id

end Slots

/-! ## Effects -/

section Effects

variable {imbuetype} {at' : Circumstances} {s : State ι}

theorem State.Settled.removeImbuement (h : s.Settled imbuetype at') (i : ι) :
    (s.removeImbuement imbuetype at' i).1.Settled imbuetype at' where
  affects j hj := by
    rw [removeImbuement_imbuements] at hj
    exact h.affects j (mem_filter.mp hj).1
  effects j := by
    unfold State.removeImbuement State.changeEffect
    split
    · rename_i hi
      rw [if_pos (h.affects i hi)]
      by_cases hj : j = i
      · subst hj
        simp [h.effects j, hi]
      · simp [h.effects j, hj]
    · rename_i hi
      by_cases hj : j = i
      · subst hj
        simp [h.effects j, hi]
      · simp [h.effects j]

theorem State.Settled.removeExcess (h : s.Settled imbuetype at') (n : Nat) :
    (s.removeExcess imbuetype at' n).Settled imbuetype at' := by
  induction n with
  | zero => exact h
  | succ n ih =>
    unfold State.removeExcess
    dsimp only
    split
    · exact ih.removeImbuement _
    · exact ih

theorem State.Settled.removeImbuementSlots (h : s.Settled imbuetype at') (amount : UInt16) (destroyImbues : Bool) :
    (s.removeImbuementSlots imbuetype at' amount destroyImbues).1.Settled imbuetype at' := by
  unfold State.removeImbuementSlots
  split
  · exact h
  dsimp only
  split
  · exact h
  · have hleft := h.removeExcess (s.imbuements.length % 2 ^ 16 - (s.imbuementSlots - amount).toNat)
    exact ⟨hleft.effects, hleft.affects⟩

theorem addImbuement_settled (hsystem : at'.imbuementSystemEnabled = true) (h : s.Settled imbuetype at') (i : ι)
    (created onImbue : Bool) :
    let r := (s.addImbuement imbuetype at' i created onImbue).1
    (s.Applies imbuetype (at', .addImbuement i created onImbue) → r.Settled imbuetype at') ∧
      (r.Effective → s.Applies imbuetype (at', .addImbuement i created onImbue)) := by
  unfold State.addImbuement State.Applies
  rw [if_neg (by simp [hsystem])]
  by_cases hheld : i ∈ s.imbuements
  · rw [if_pos hheld]
    exact ⟨fun _ => h, fun _ => .inl hheld⟩
  rw [if_neg hheld]
  by_cases hgoes : (s.imbuementSlots > 0 ∧ s.imbuementSlots.toNat > s.imbuements.length) ∧ (!created || onImbue) = true
  · rw [if_pos hgoes]
    constructor
    · intro happlies
      have haffects : at'.affects imbuetype i = true := by
        grind
      refine ⟨fun j => ?_, fun j hj => ?_⟩
      · unfold State.changeEffect
        rw [if_pos haffects]
        by_cases hj : j = i
        · subst hj
          simp [h.effects j, hheld]
        · simp [h.effects j, hj]
      · rcases mem_append.mp hj with hj | hj
        · exact h.affects j hj
        · rw [mem_singleton.mp hj]
          exact haffects
    · intro heffective
      by_contra hnone
      have haffects : ¬ at'.affects imbuetype i = true := fun haffects => hnone (.inr (.inr (.inr haffects)))
      have heffect := heffective i (mem_append.mpr (.inr (mem_singleton_self i)))
      unfold State.changeEffect at heffect
      rw [if_neg haffects, h.effects, if_neg hheld] at heffect
      exact absurd heffect (by decide)
  · rw [if_neg hgoes]
    refine ⟨fun _ => h, fun _ => ?_⟩
    by_cases hroom : s.imbuementSlots.toNat ≤ s.imbuements.length
    · exact .inr (.inl hroom)
    refine .inr (.inr (.inl ?_))
    have hslots : s.imbuementSlots > 0 := by
      show 0 < s.imbuementSlots.toNat
      omega
    simpa [hslots, Nat.lt_of_not_le hroom] using hgoes

theorem State.Settled.effective (h : s.Settled imbuetype at') : s.Effective := by
  intro i hi
  rw [h.effects, if_pos hi]

theorem step_settled (hsystem : at'.imbuementSystemEnabled = true) (h : s.Settled imbuetype at') (op : Op ι) :
    (s.Applies imbuetype (at', op) → (s.step imbuetype (at', op)).Settled imbuetype at') ∧
      ((s.step imbuetype (at', op)).Effective → s.Applies imbuetype (at', op)) := by
  cases op with
  | addImbuementSlots amount =>
    refine ⟨fun _ => ?_, fun _ => trivial⟩
    show (s.addImbuementSlots amount).1.Settled imbuetype at'
    unfold State.addImbuementSlots
    dsimp only
    split
    · exact h
    · exact ⟨h.effects, h.affects⟩
  | removeImbuementSlots amount destroyImbues =>
    exact ⟨fun _ => h.removeImbuementSlots amount destroyImbues, fun _ => trivial⟩
  | addImbuement i created onImbue => exact addImbuement_settled hsystem h i created onImbue
  | removeImbuement i => exact ⟨fun _ => h.removeImbuement i, fun _ => trivial⟩

end Effects

/-! ## Runs -/

theorem call_refused (s : State ι) (e : Circumstances × Op ι) (h : (s.call imbuetype e).2 = false) :
    s.step imbuetype e = s := by
  unfold State.step
  revert h
  obtain ⟨at', op⟩ := e
  cases op with
  | addImbuementSlots amount =>
    grind [State.call, State.addImbuementSlots]
  | removeImbuementSlots amount destroyImbues =>
    grind [State.call, State.removeImbuementSlots]
  | addImbuement i created onImbue =>
    grind [State.call, State.addImbuement]
  | removeImbuement i =>
    grind [State.call, State.removeImbuement]

theorem allowed_stays {s : State ι} {at' : Circumstances} {es : List (Circumstances × Op ι)} (h : ∀ e ∈ es, e.1 = at') :
    Allowed (State.step imbuetype) (fun _ e => e.1 = at') s es := by
  induction es generalizing s with
  | nil => trivial
  | cons e es ih => exact ⟨h e (mem_cons_self ..), ih fun e' he' => h e' (mem_cons_of_mem _ he')⟩

/-- The slots are exact while they do not wrap, effects while they apply, and a refused call changes nothing. -/
theorem imbuements_right (s : State ι) (h : s.Sound) (es : List (Circumstances × Op ι)) :
    ((∀ k ≤ es.length, (run (State.step imbuetype) s (es.take k)).Sound) ↔
      Allowed (State.step imbuetype) (fun s e => ¬ s.Past e.2) s es) ∧
    (∀ at' : Circumstances, at'.imbuementSystemEnabled = true → at'.isEquipped = true → s.Settled imbuetype at' →
      (∀ e ∈ es, e.1 = at') →
      ((∀ k ≤ es.length, (run (State.step imbuetype) s (es.take k)).Effective) ↔
        Allowed (State.step imbuetype) (State.Applies imbuetype) s es)) ∧
    ∀ k ≤ es.length, ∀ e, let r := run (State.step imbuetype) s (es.take k)
      (r.call imbuetype e).2 = false → r.step imbuetype e = r := by
  refine ⟨?_, fun at' hsystem _ hsettled hstays => ?_, fun k _ e => call_refused imbuetype _ e⟩
  · exact along_iff_allowed (I := State.Sound) (fun _ hs => hs) (fun _ e hok hs => (step_sound hs e).mpr hok)
      (fun _ e hs hnext => (step_sound hs e).mp hnext) h es
  · refine along_iff_allowed_of (I := State.Settled imbuetype at') (fun _ hs => hs.effective) ?_ ?_ hsettled
      (allowed_stays imbuetype hstays)
    · rintro s ⟨_, op⟩ rfl hok hs
      exact (step_settled hsystem hs op).1 hok
    · rintro s ⟨_, op⟩ rfl hs hnext
      exact (step_settled hsystem hs op).2 hnext

/-- An item without slots. -/
def plain : State Nat := { imbuementSlots := 0, imbuements := [], effects := fun _ => 0, expected := 0 }

def worn : Circumstances := { imbuementSystemEnabled := true, isEquipped := true, inBackpackSlot := false }

def swordSkill (_ : Nat) : ImbuementType := .swordSkill

theorem plain_sound : plain.Sound := ⟨nodup_nil, Nat.le_refl 0, rfl⟩

def imbuing : List (Circumstances × Op Nat) := [(worn, .addImbuementSlots 1), (worn, .addImbuement 7 true true)]

theorem sword_imbued :
    (∀ k ≤ 2, (run (State.step swordSkill) plain (imbuing.take k)).Sound) ∧
      ∀ k ≤ 2, (run (State.step swordSkill) plain (imbuing.take k)).Effective := by
  obtain ⟨hslots, heffects, -⟩ := imbuements_right swordSkill plain plain_sound imbuing
  have hsettled : plain.Settled swordSkill worn := ⟨fun _ => rfl, fun _ hi => absurd hi not_mem_nil⟩
  have hstays : ∀ e ∈ imbuing, e.1 = worn := by
    unfold imbuing
    simp
  refine ⟨hslots.mpr ⟨fun hpast => ?_, id, trivial⟩,
    (heffects worn rfl rfl hsettled hstays).mpr ⟨trivial, ?_, trivial⟩⟩
  · exact absurd hpast.2 (by decide)
  · exact .inr (.inr (.inr rfl))

/-- Five of ten slots are used; 65529 more leave three. -/
theorem slots_wrap :
    ¬ ∀ es : List (Circumstances × Op Nat), (run (State.step swordSkill) plain es).Sound := by
  intro h
  have hlength := (h ((worn, .addImbuementSlots 10) :: (List.range 5).map (fun i => (worn, .addImbuement i true true)) ++
    [(worn, .addImbuementSlots 65529)])).length_le
  exact absurd hlength (by decide)

end Backlands.Items.Imbuements
