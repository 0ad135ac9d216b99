/-
  Backlands.Conditions.RoundTrip — what of a player's conditions comes back at the next
  login.

  The claim of the format is `RoundTrips`: every condition is stored again with its fields,
  its reader stops where the next condition begins, and no table is indexed past its end.
  The end time is a field only of a constant condition; of the others it is set from the
  ticks when the condition starts.

  Proved: `conditions_round_trip_iff`. A list round trips exactly when each of its conditions
  `Survives`: a light condition is refused at the second byte of its color, an attribute
  condition runs past the table of special skills, an outfit is read one member off, and
  what a class does not write comes back as its constructor leaves it.
-/

import Backlands.Conditions.Codec

namespace Backlands.Conditions

open Backlands.Lib

/-! ## The round trip -/

def Body.sameClass : Body → Body → Bool
  | .generic, .generic => true
  | .attributes _, .attributes _ => true
  | .regeneration _, .regeneration _ => true
  | .soul _, .soul _ => true
  | .invisible, .invisible => true
  | .damage _, .damage _ => true
  | .speed _, .speed _ => true
  | .rooted, .rooted => true
  | .feared _, .feared _ => true
  | .outfit _, .outfit _ => true
  | .light _, .light _ => true
  | .spellCooldown, .spellCooldown => true
  | .spellGroupCooldown, .spellGroupCooldown => true
  | .drunk _, .drunk _ => true
  | _, _ => false

/-- A condition has the class that `createCondition` makes for its type. -/
def Made (c : Condition) : Prop :=
  ∃ t : ConditionType, c.conditionType = t.value ∧ (newBody 0 t).sameClass c.body = true

def fields (c : Condition) : Condition := if c.constant then c else { c with endTime := 0 }

def rests : List Condition → List (Option Bytes)
  | [] => []
  | _ :: cs => some (stream cs) :: rests cs

/-- The turns of the loop are one for each condition. -/
structure RoundTrips (cs : List Condition) (events : List Event) : Prop where
  restored : (storedConditionList events).map fields = (cs.map fields).reverse
  framed : events.map Event.rest? = rests cs
  inRange : Event.outOfRange ∉ events

/-- The ticks that reading a damage list ends with. -/
def sumTicks (l : List IntervalInfo) : BitVec 32 := l.foldl (fun t i => if t ≠ -1 then t + i.interval else t) 0

/-- The conditions that come back as they were. -/
def Survives (c : Condition) : Prop :=
  match c.body with
  | .attributes _ | .light _ => False
  | .outfit o => o.lookFamiliar = 0 ∧ o.lookHead = 0 ∧ o.lookBody = 0 ∧ o.lookLegs = 0 ∧ o.lookFeet = 0 ∧ o.lookAddons = 0
  | .regeneration r => r.internalHealthTicks = 0 ∧ r.internalManaTicks = 0
  | .soul s => s.internalSoulTicks = 0
  | .damage d =>
    d = { periodDamage := d.periodDamage, delayed := d.delayed, damageList := d.damageList } ∧
      c.ticks = sumTicks d.damageList ∧ (c.constant = true → d.damageList = [])
  | .feared p => p = {}
  | .drunk n => n = 25
  | .generic | .invisible | .speed _ | .rooted | .spellCooldown | .spellGroupCooldown => True

/-! ## Codes -/

theorem ofCode_code (a : ConditionAttr) : ConditionAttr.ofCode a.code = some a := by
  cases a <;> decide

theorem code_ne_end (a : ConditionAttr) : a.code ≠ CONDITIONATTR_END := by
  cases a <;> decide

theorem ofValue_value (t : ConditionType) : ConditionType.ofValue t.value = some t := by
  cases t <;> decide

theorem value_single (t : ConditionType) : ¬ (t.value = 0 ∨ t.value &&& (t.value - 1) ≠ 0) := by
  cases t <;> decide

theorem flag_ne_zero (b : Bool) : decide (flag b ≠ 0) = b := by
  cases b <;> decide

/-! ## The header -/

variable {n : Nat}

theorem parses_expect (a : ConditionAttr) : Parses (expect a) [a.code] () := by
  intro rest
  simp [expect]

theorem parses_attr {α : Type*} (h8 : 8 ∣ n) (a : ConditionAttr) (x : BitVec n) {f : BitVec n → Reader α} {bs : Bytes}
    {v : α} (h : Parses (f x) bs v) : Parses ((expect a).bind fun _ => (readWord n).bind f) (attr a x ++ bs) v :=
  (parses_expect a).bind ((parses_readWord h8 x).bind h)

theorem parses_readType (c : Condition) : Parses readType
    (if 2 ^ 32 - 1 < c.conditionType.toNat then attr .type64 c.conditionType
      else attr .type (c.conditionType.setWidth 32)) c.conditionType := by
  intro rest
  split
  · exact parses_readWord (by decide) c.conditionType rest
  rename_i hlt
  have hsmall : (c.conditionType.setWidth 32).setWidth 64 = c.conditionType := by
    apply BitVec.eq_of_toNat_eq
    simp only [BitVec.toNat_setWidth]
    omega
  have hp := (parses_readWord (by decide) (c.conditionType.setWidth 32)).map (·.setWidth 64) rest
  rw [hsmall] at hp
  exact hp

/-- The condition that the header of `c` makes. -/
def fresh (t : ConditionType) (c : Condition) : Condition :=
  let n := newCondition c.id c.conditionType (newTicks c.ticks (newBody 0 t)) c.isBuff c.subId c.aggressive (newBody 0 t)
  { n with constant := c.constant, endTime := if c.constant then c.endTime else n.endTime }

variable {t : ConditionType} {c : Condition}

theorem parses_readConstant (n c : Condition) : Parses (readConstant n (flag c.constant))
    (if c.constant then attr .endTime c.endTime else [])
    { n with constant := c.constant, endTime := if c.constant then c.endTime else n.endTime } := by
  cases hc : c.constant with
  | true =>
    have hp := (parses_readWord (by decide) c.endTime).map fun e => { n with constant := true, endTime := e }
    exact (parses_expect .endTime).bind
      (f := fun _ => (readWord 64).map fun e => { n with constant := true, endTime := e }) hp
  | false => exact fun rest => rfl

theorem parses_header (ht : c.conditionType = t.value) : Parses createFromStream (serializeBase c) (fresh t c) := by
  have hcreate : createCondition ((c.id.signExtend 32).setWidth 8) c.conditionType c.ticks 0
      (decide (flag c.isBuff ≠ 0)) c.subId (decide (flag c.aggressive ≠ 0)) =
      some (newCondition c.id c.conditionType (newTicks c.ticks (newBody 0 t)) c.isBuff c.subId c.aggressive
        (newBody 0 t)) := by
    rw [setWidth_signExtend (by decide), flag_ne_zero, flag_ne_zero, createCondition, ht, ofValue_value, Option.map_some]
  unfold serializeBase createFromStream
  simp only [List.append_assoc]
  refine (parses_readType c).bind ?_
  rw [if_neg (by rw [ht]; exact value_single t)]
  refine parses_attr (by decide) .id _ (parses_attr (by decide) .ticks _ (parses_attr (by decide) .isBuff _
    (parses_attr (by decide) .subId _ (parses_attr (by decide) .isAggressive _
    (parses_attr (by decide) .constant _ ?_)))))
  rw [hcreate]
  exact parses_readConstant _ c

/-! ## Fields of the classes -/

section
variable (now : Condition → BitVec 64)

theorem runs_attr {a : ConditionAttr} {bs : Bytes} {c' : Condition}
    (h : ∀ rest, unserializeProp now a c (bs ++ rest) = .more c' rest) :
    Runs CONDITIONATTR_END (unserializeByte now) (a.code :: bs) c c' := by
  refine Runs.field (code_ne_end a) ?_
  intro rest
  rw [unserializeByte, ofCode_code]
  exact h rest

theorem runs_member {a : ConditionAttr} {x : BitVec n} {f : BitVec n → Body} (h8 : 8 ∣ n)
    (h : ∀ bs, unserializeProp now a c bs = member n c f bs) :
    Runs CONDITIONATTR_END (unserializeByte now) (attr a x) c { c with body := f x } := by
  refine runs_attr now ?_
  intro rest
  rw [h]
  exact Outcome.field_parses (parses_readWord h8 x) rest

theorem runs_regeneration (c : Condition) (r : Regeneration) :
    Runs CONDITIONATTR_END (unserializeByte now) r.serialize { c with body := .regeneration {} }
      { c with body := .regeneration { r with internalHealthTicks := 0, internalManaTicks := 0 } } := by
  have h32 : 8 ∣ 32 := by decide
  unfold Regeneration.serialize
  simp only [List.append_assoc]
  refine Runs.trans (runs_member now h32 fun _ => rfl) ?_
  refine Runs.trans (runs_member now h32 fun _ => rfl) ?_
  refine Runs.trans (runs_member now h32 fun _ => rfl) ?_
  refine Runs.trans (runs_member now h32 fun _ => rfl) ?_
  refine Runs.trans (runs_member now h32 fun _ => rfl) ?_
  exact (runs_member now h32 fun _ => rfl).of_eq rfl

theorem runs_soul (c : Condition) (s : Soul) :
    Runs CONDITIONATTR_END (unserializeByte now) s.serialize { c with body := .soul {} }
      { c with body := .soul { s with internalSoulTicks := 0 } } := by
  have h32 : 8 ∣ 32 := by decide
  refine Runs.trans (runs_member now h32 fun _ => rfl) ?_
  exact (runs_member now h32 fun _ => rfl).of_eq rfl

theorem runs_speed (c : Condition) (s : Speed) :
    Runs CONDITIONATTR_END (unserializeByte now) s.serialize { c with body := .speed { speedDelta := 0 } }
      { c with body := .speed s } := by
  have h32 : 8 ∣ 32 := by decide
  unfold Speed.serialize
  simp only [List.append_assoc]
  refine Runs.trans (runs_member now h32 fun _ => rfl) ?_
  refine Runs.trans (runs_member now h32 fun _ => rfl) ?_
  refine Runs.trans (runs_member now h32 fun _ => rfl) ?_
  refine Runs.trans (runs_member now h32 fun _ => rfl) ?_
  exact (runs_member now h32 fun _ => rfl).of_eq rfl

/-! ### Damage -/

theorem parses_intervalInfo (i : IntervalInfo) : Parses readIntervalInfo i.bytes i := by
  have h32 : 8 ∣ 32 := by decide
  refine (parses_readWord h32 i.timeLeft).bind ((parses_readWord h32 i.value).bind ?_)
  exact (parses_readWord h32 i.interval).map fun interval => IntervalInfo.mk i.timeLeft i.value interval

def pushInterval (c : Condition) (i : IntervalInfo) : Condition :=
  match c.body with
  | .damage d => addInterval c d (now c) i
  | _ => c

variable {d : Damage}

theorem pushInterval_eq (h : c.body = .damage d) (i : IntervalInfo) :
    pushInterval now c i = { c with
      ticks := if c.ticks ≠ -1 then c.ticks + i.interval else c.ticks
      endTime := (pushInterval now c i).endTime
      body := .damage { d with damageList := d.damageList ++ [i] } } := by
  have hpush : pushInterval now c i = addInterval c d (now c) i := by
    rw [pushInterval, h]
  rw [hpush]
  unfold addInterval
  by_cases ht : c.ticks ≠ -1
  · rw [if_pos ht, if_pos ht]
    rfl
  · rw [if_neg ht, if_neg ht]

theorem foldl_pushInterval (l : List IntervalInfo) (h : c.body = .damage d) :
    l.foldl (pushInterval now) c = { c with
      ticks := l.foldl (fun t i => if t ≠ -1 then t + i.interval else t) c.ticks
      endTime := (l.foldl (pushInterval now) c).endTime
      body := .damage { d with damageList := d.damageList ++ l } } := by
  induction l generalizing c d with
  | nil => simp [← h]
  | cons i l ih =>
    have hpush := pushInterval_eq now h i
    have hbody : (pushInterval now c i).body = .damage { d with damageList := d.damageList ++ [i] } := by rw [hpush]
    rw [List.foldl_cons]
    refine (ih hbody).trans ?_
    rw [hpush, List.append_assoc, List.singleton_append, List.foldl_cons]

theorem runs_intervals (l : List IntervalInfo) (h : c.body = .damage d) :
    Runs CONDITIONATTR_END (unserializeByte now)
      (l.flatMap fun i => ConditionAttr.intervalData.code :: i.bytes) c (l.foldl (pushInterval now) c) := by
  induction l generalizing c d with
  | nil => exact Runs.refl c
  | cons i l ih =>
    have hfirst : Runs CONDITIONATTR_END (unserializeByte now) (ConditionAttr.intervalData.code :: i.bytes) c
        (pushInterval now c i) := by
      refine runs_attr now ?_
      intro rest
      rw [unserializeProp, h, pushInterval, h]
      exact Outcome.field_parses (e := .malformed) (parses_intervalInfo i) rest
    exact hfirst.trans (ih (congrArg Condition.body (pushInterval_eq now h i)))

theorem runs_damage (c : Condition) (d : Damage) :
    Runs CONDITIONATTR_END (unserializeByte now) d.serialize { c with body := .damage {} }
      (d.damageList.foldl (pushInterval now)
        { c with body := .damage { delayed := d.delayed, periodDamage := d.periodDamage } }) := by
  refine Runs.trans (Runs.trans (runs_member now (by decide) fun _ => rfl)
    (runs_member now (by decide) fun _ => rfl)) ?_
  rw [flag_ne_zero]
  exact runs_intervals now d.damageList rfl

/-! ### Outfit -/

/-- The outfit that is read: head and body land in the familiar, and what follows two
    members too early. -/
def Outfit.misread (o : Outfit) : Outfit where
  lookType := o.lookType
  lookTypeEx := o.lookTypeEx
  lookMount := o.lookMount
  lookFamiliar := o.lookBody ++ o.lookHead
  lookHead := o.lookLegs
  lookBody := o.lookFeet
  lookLegs := o.lookAddons
  lookFeet := 0
  lookAddons := 0

theorem word_append (x y : BitVec 8) : word (x ++ y) = word y ++ word x := by
  have hy := y.isLt
  have hn : (x ++ y).toNat = x.toNat * 256 + y.toNat := by
    rw [BitVec.toNat_append, ← Nat.shiftLeft_add_eq_or_of_lt hy, Nat.shiftLeft_eq]
  have hlow : UInt8.ofNat (x.toNat * 256 + y.toNat) = UInt8.ofNat y.toNat := by
    apply UInt8.toNat.inj
    simp
  have hdiv : (x.toNat * 256 + y.toNat) / 256 = x.toNat := by omega
  show le 2 (x ++ y).toNat = le 1 y.toNat ++ le 1 x.toNat
  rw [hn, le, hlow, hdiv]
  rfl

theorem parses_outfit (o : Outfit) : Parses readOutfit o.bytes o.misread := by
  have h8 : 8 ∣ 8 := by decide
  have h16 : 8 ∣ 16 := by decide
  have hzero : ([0, 0, 0] : Bytes) = word (0 : BitVec 8) ++ (word (0 : BitVec 8) ++ [0]) := rfl
  unfold Outfit.bytes readOutfit
  simp only [List.append_assoc]
  rw [← List.append_assoc (word o.lookHead), ← word_append, hzero]
  refine (parses_readWord h16 _).bind ((parses_readWord h16 _).bind ((parses_readWord h16 _).bind
    ((parses_readWord h16 _).bind ((parses_readWord h8 _).bind ((parses_readWord h8 _).bind
    ((parses_readWord h8 _).bind ((parses_readWord h8 _).bind ((parses_readWord h8 _).bind ?_))))))))
  exact (parses_cut [0]).map fun _ => o.misread

theorem runs_outfit (c : Condition) (o : Outfit) :
    Runs CONDITIONATTR_END (unserializeByte now) (ConditionAttr.outfit.code :: o.bytes) { c with body := .outfit {} }
      { c with body := .outfit o.misread } := by
  refine runs_attr now ?_
  intro rest
  show Outcome.field ReadError.malformed readOutfit (fun o => { c with body := .outfit o }) (o.bytes ++ rest) = _
  exact Outcome.field_parses (parses_outfit o) rest

theorem misread_eq_iff (o : Outfit) : o.misread = o ↔ o.lookFamiliar = 0 ∧ o.lookHead = 0 ∧ o.lookBody = 0 ∧
    o.lookLegs = 0 ∧ o.lookFeet = 0 ∧ o.lookAddons = 0 := by
  cases o with
  | mk lookType lookTypeEx lookMount lookFamiliar lookHead lookBody lookLegs lookFeet lookAddons =>
    simp only [Outfit.misread, Outfit.mk.injEq, true_and]
    constructor
    · rintro ⟨rfl, rfl, rfl, rfl, rfl, rfl⟩
      exact ⟨by decide, rfl, rfl, rfl, rfl, rfl⟩
    · rintro ⟨rfl, rfl, rfl, rfl, rfl, rfl⟩
      exact ⟨by decide, rfl, rfl, rfl, rfl, rfl⟩

/-! ### Light -/

theorem word_widen (x : BitVec 8) : word (x.setWidth 32) = word x ++ [0, 0, 0] := by
  have hn : (x.setWidth 32).toNat = x.toNat := by
    rw [BitVec.toNat_setWidth]
    omega
  have hdiv : x.toNat / 256 = 0 := by omega
  show le 4 (x.setWidth 32).toNat = le 1 x.toNat ++ [0, 0, 0]
  rw [hn, le, hdiv]
  rfl

theorem unserialize_light (c : Condition) (l l' : Light) (rest : Bytes) :
    ∃ left, unserialize now { c with body := .light l' } (l.serialize ++ rest) = .failed .malformed left := by
  have h8 : 8 ∣ 8 := by decide
  have hcolor : Runs CONDITIONATTR_END (unserializeByte now) (attr .lightColor l.color) { c with body := .light l' }
      { c with body := .light { l' with color := l.color } } := (runs_member now h8 fun _ => rfl).of_eq rfl
  unfold Light.serialize
  rw [attr, word_widen]
  exact ⟨_, hcolor.readTags_failed (by decide) rfl⟩

/-! ### Attributes -/

theorem runs_table {a : ConditionAttr} {size : Nat} {cursor : Attributes → Nat} {next : Attributes → BitVec 32 → Attributes}
    {c : Condition} (hread : ∀ t x rest, cursor t < size →
      unserializeProp now a { c with body := .attributes t } (word x ++ rest) =
        .more { c with body := .attributes (next t x) } rest)
    (hnext : ∀ t x, cursor (next t x) = cursor t + 1) (xs : List (BitVec 32)) {t : Attributes}
    (h : cursor t + xs.length ≤ size) :
    cursor (xs.foldl next t) = cursor t + xs.length ∧
    Runs CONDITIONATTR_END (unserializeByte now) (xs.flatMap (attr a)) { c with body := .attributes t }
      { c with body := .attributes (xs.foldl next t) } := by
  induction xs generalizing t with
  | nil => exact ⟨rfl, Runs.refl _⟩
  | cons x xs ih =>
    rw [List.length_cons] at h
    obtain ⟨hcursor, hruns⟩ := ih (t := next t x) (by rw [hnext]; omega)
    refine ⟨?_, (runs_attr now fun rest => hread t x rest (by omega)).trans hruns⟩
    rw [List.foldl_cons, hcursor, hnext, List.length_cons]
    omega

theorem foldl_keeps {α β γ : Type*} {f : β → α → β} {g : β → γ} (h : ∀ b a, g (f b a) = g b) (l : List α) (b : β) :
    g (l.foldl f b) = g b := by
  induction l generalizing b with
  | nil => rfl
  | cons a l ih => rw [List.foldl_cons, ih, h]

theorem readEntry_word {table : Vector (BitVec 32) n} {cursor : Nat} (h : cursor < n) (c : Condition)
    (f : Vector (BitVec 32) n → Body) (x : BitVec 32) (rest : Bytes) :
    readEntry table cursor c f (word x ++ rest) = .more { c with body := f (table.setIfInBounds cursor x) } rest := by
  rw [readEntry, if_pos h]
  exact Outcome.field_parses (parses_readWord (by decide) x) rest

def Attributes.pushSkill (t : Attributes) (x : BitVec 32) : Attributes :=
  { t with skills := t.skills.setIfInBounds t.currentSkill x, currentSkill := t.currentSkill + 1 }

def Attributes.pushStat (t : Attributes) (x : BitVec 32) : Attributes :=
  { t with stats := t.stats.setIfInBounds t.currentStat x, currentStat := t.currentStat + 1 }

def Attributes.pushSpecialSkill (t : Attributes) (x : BitVec 32) : Attributes :=
  { t with
    specialSkills := t.specialSkills.setIfInBounds t.currentSpecialSkill x
    currentSpecialSkill := t.currentSpecialSkill + 1 }

/-- The first experience rate is read as a seventh special skill. -/
theorem unserialize_attributes (c : Condition) (a : Attributes) (rest : Bytes) :
    ∃ left, unserialize now { c with body := .attributes {} } (a.serialize ++ rest) = .failed .outOfRange left := by
  let t1 : Attributes := a.skills.toList.foldl Attributes.pushSkill {}
  let t2 : Attributes := a.stats.toList.foldl Attributes.pushStat t1
  let t3 : Attributes := { t2 with disableDefense := a.disableDefense }
  have hstat : t1.currentStat = 0 := 
    foldl_keeps (f := Attributes.pushSkill) (g := Attributes.currentStat) (fun _ _ => rfl) a.skills.toList {}
  have hspecial : t3.currentSpecialSkill = 0 := by
    have h1 : t1.currentSpecialSkill = 0 :=
      foldl_keeps (f := Attributes.pushSkill) (g := Attributes.currentSpecialSkill) (fun _ _ => rfl) a.skills.toList {}
    have h2 : t2.currentSpecialSkill = t1.currentSpecialSkill :=
      foldl_keeps (f := Attributes.pushStat) (g := Attributes.currentSpecialSkill) (fun _ _ => rfl) a.stats.toList t1
    exact h2.trans h1
  obtain ⟨-, hr1⟩ := @runs_table now .skills 7 Attributes.currentSkill Attributes.pushSkill c
    (fun t x rest h => readEntry_word h { c with body := .attributes t }
      (fun v => .attributes { t with skills := v, currentSkill := t.currentSkill + 1 }) x rest)
    (fun _ _ => rfl) a.skills.toList {} (by simp)
  obtain ⟨-, hr2⟩ := @runs_table now .stats 5 Attributes.currentStat Attributes.pushStat c
    (fun t x rest h => readEntry_word h { c with body := .attributes t }
      (fun v => .attributes { t with stats := v, currentStat := t.currentStat + 1 }) x rest)
    (fun _ _ => rfl) a.stats.toList t1 (by simp [hstat])
  have hr3 : Runs CONDITIONATTR_END (unserializeByte now) (attr .disableDefense (flag a.disableDefense))
      { c with body := .attributes t2 } { c with body := .attributes t3 } := by
    have h8 : 8 ∣ 8 := by decide
    refine (runs_member now h8 fun _ => rfl).of_eq ?_
    rw [flag_ne_zero]
  obtain ⟨hcursor, hr4⟩ := @runs_table now .specialSkills 6 Attributes.currentSpecialSkill
    Attributes.pushSpecialSkill c
    (fun t x rest h => readEntry_word h { c with body := .attributes t }
      (fun v => .attributes { t with specialSkills := v, currentSpecialSkill := t.currentSpecialSkill + 1 }) x rest)
    (fun _ _ => rfl) a.specialSkills.toList t3 (by simp [hspecial])
  have hruns := ((hr1.trans hr2).trans hr3).trans hr4
  obtain ⟨x, xs, hx⟩ : ∃ x xs, a.experienceRate.toList.drop 1 = x :: xs :=
    List.exists_cons_of_ne_nil (List.ne_nil_of_length_pos (by simp))
  unfold Attributes.serialize
  rw [hx, List.flatMap_cons, attr]
  simp only [List.append_assoc, List.cons_append]
  have hover : ∀ bs, unserializeByte now ConditionAttr.specialSkills.code
      { c with body := .attributes (a.specialSkills.toList.foldl Attributes.pushSpecialSkill t3) } bs =
      .failed .outOfRange bs := by
    intro bs
    rw [unserializeByte, ofCode_code]
    simp only [unserializeProp, Attributes.unserializeProp, readEntry]
    rw [hcursor, if_neg (by simp)]
  have hfail := hruns.readTags_failed (code_ne_end .specialSkills)
    (hover (word x ++ (xs.flatMap (attr .specialSkills) ++ rest)))
  simp only [List.append_assoc] at hfail
  exact ⟨_, hfail⟩

end

/-! ## One condition -/

/-- A body as the constructor of its class leaves it. -/
def blank : Body → Body
  | .attributes _ => .attributes {}
  | .regeneration _ => .regeneration {}
  | .soul _ => .soul {}
  | .damage _ => .damage {}
  | .speed _ => .speed { speedDelta := 0 }
  | .feared _ => .feared {}
  | .outfit _ => .outfit {}
  | .light _ => .light { level := 0, color := 0 }
  | .drunk _ => .drunk 25
  | b => b

theorem newBody_eq_blank {b : Body} (h : (newBody 0 t).sameClass b = true) : newBody 0 t = blank b := by
  cases b <;> cases t <;> first | rfl | cases h

def back : Body → Body
  | .regeneration r => .regeneration { r with internalHealthTicks := 0, internalManaTicks := 0 }
  | .soul s => .soul { s with internalSoulTicks := 0 }
  | .feared _ => .feared {}
  | .outfit o => .outfit o.misread
  | .drunk _ => .drunk 25
  | b => b

def Plain : Body → Prop
  | .attributes _ | .light _ | .damage _ => False
  | _ => True

section
variable (now : Condition → BitVec 64) {t : ConditionType} {c : Condition}

variable {d : Damage}

theorem fresh_eq (h : (newBody 0 t).sameClass c.body = true) : fresh t c = { fresh t c with body := blank c.body } := by
  rw [← newBody_eq_blank h]
  rfl

theorem runs_plain (h : (newBody 0 t).sameClass c.body = true) (hp : Plain c.body) :
    Runs CONDITIONATTR_END (unserializeByte now) (serializeBody c.body) (fresh t c)
      { fresh t c with body := back c.body } := by
  have hf := fresh_eq h
  cases hb : c.body with
  | attributes a => simp [hb, Plain] at hp
  | light l => simp [hb, Plain] at hp
  | damage d => simp [hb, Plain] at hp
  | regeneration r =>
    rw [hf, hb]
    exact runs_regeneration now (fresh t c) r
  | soul s =>
    rw [hf, hb]
    exact runs_soul now (fresh t c) s
  | speed s =>
    rw [hf, hb]
    exact runs_speed now (fresh t c) s
  | outfit o =>
    rw [hf, hb]
    exact runs_outfit now (fresh t c) o
  | generic | invisible | rooted | feared p | spellCooldown | spellGroupCooldown | drunk n =>
    rw [hf, hb]
    exact Runs.refl _

theorem fields_fresh (h : newTicks c.ticks (newBody 0 t) = c.ticks) (b : Body) :
    fields { fresh t c with body := b } = fields c ↔ b = c.body := by
  cases c with
  | mk endTime subId ticks conditionType isBuff aggressive constant id body =>
    cases constant with
    | true => simp only [fields, fresh, newCondition, h, reduceIte, Condition.mk.injEq, true_and]
    | false => simp only [fields, fresh, newCondition, h, Bool.false_eq_true, reduceIte, Condition.mk.injEq, true_and]

theorem survives_iff_back (hp : Plain c.body) : Survives c ↔ back c.body = c.body := by
  unfold Survives
  cases hb : c.body with
  | attributes a => simp [hb, Plain] at hp
  | light l => simp [hb, Plain] at hp
  | damage d => simp [hb, Plain] at hp
  | regeneration r =>
    cases r with
    | mk =>
      simp only [back, Body.regeneration.injEq, Regeneration.mk.injEq, and_true]
      exact ⟨fun h => ⟨h.1.symm, h.2.symm⟩, fun h => ⟨h.1.symm, h.2.symm⟩⟩
  | soul s =>
    cases s with
    | mk =>
      simp only [back, Body.soul.injEq, Soul.mk.injEq, and_true]
      exact eq_comm
  | outfit o =>
    simp only [back, Body.outfit.injEq]
    exact (misread_eq_iff o).symm
  | feared p => simp [back, eq_comm]
  | drunk n => simp [back, eq_comm]
  | generic | invisible | speed s | rooted | spellCooldown | spellGroupCooldown => simp [back]

theorem fields_damage (hb : c.body = .damage d) {e : BitVec 64} {n : BitVec 32} :
    fields { fresh t c with
      ticks := n
      endTime := e
      body := .damage { periodDamage := d.periodDamage, delayed := d.delayed, damageList := d.damageList } } =
        fields c ↔
    d = { periodDamage := d.periodDamage, delayed := d.delayed, damageList := d.damageList } ∧ c.ticks = n ∧
      (c.constant = true → e = c.endTime) := by
  cases c with
  | mk endTime subId ticks conditionType isBuff aggressive constant id body =>
    subst hb
    cases constant with
    | true =>
      simp only [fields, fresh, newCondition, reduceIte, Condition.mk.injEq, Body.damage.injEq, true_and, true_implies]
      constructor
      · rintro ⟨rfl, rfl, h⟩
        exact ⟨h.symm, rfl, rfl⟩
      · rintro ⟨h, rfl, rfl⟩
        exact ⟨rfl, rfl, h.symm⟩
    | false =>
      simp only [fields, fresh, newCondition, Bool.false_eq_true, reduceIte, Condition.mk.injEq, Body.damage.injEq,
        true_and, and_true, false_implies]
      constructor
      · rintro ⟨rfl, h⟩
        exact ⟨h.symm, rfl⟩
      · rintro ⟨h, rfl⟩
        exact ⟨rfl, h.symm⟩

theorem endTime_pushInterval (k : BitVec 64) (i : IntervalInfo) (hb : c.body = .damage d)
    (h : c.ticks ≠ -1 ∨ c.endTime = c.ticks.signExtend 64 + k) :
    (pushInterval (fun _ => k) c i).endTime = (pushInterval (fun _ => k) c i).ticks.signExtend 64 + k := by
  unfold pushInterval addInterval
  rw [hb]
  by_cases ht : c.ticks ≠ -1
  · simp only [if_pos ht]
    rfl
  simp only [if_neg ht]
  rcases h with h | h
  · exact absurd h ht
  · exact h

theorem endTime_foldl (k : BitVec 64) (l : List IntervalInfo) (hb : c.body = .damage d)
    (h : c.endTime = c.ticks.signExtend 64 + k) :
    (l.foldl (pushInterval fun _ => k) c).endTime = (l.foldl (pushInterval fun _ => k) c).ticks.signExtend 64 + k := by
  induction l generalizing c d with
  | nil => exact h
  | cons i l ih =>
    exact ih (congrArg Condition.body (pushInterval_eq _ hb i)) (endTime_pushInterval k i hb (.inr h))

theorem damage_back (h : (newBody 0 t).sameClass c.body = true) (hb : c.body = .damage d) :
    ∃ c', Runs CONDITIONATTR_END (unserializeByte now) (serializeBody c.body) (fresh t c) c' ∧
      c' = { fresh t c with
        ticks := sumTicks d.damageList
        endTime := c'.endTime
        body := .damage { periodDamage := d.periodDamage, delayed := d.delayed, damageList := d.damageList } } ∧
      c' = d.damageList.foldl (pushInterval now)
        { fresh t c with body := .damage { delayed := d.delayed, periodDamage := d.periodDamage } } := by
  have hf := fresh_eq h
  have hnew := newBody_eq_blank h
  rw [hb] at hf hnew
  have hzero : (fresh t c).ticks = 0 := by
    show newTicks c.ticks (newBody 0 t) = 0
    rw [hnew]
    rfl
  refine ⟨_, ?_, ?_, rfl⟩
  · rw [hf, hb]
    exact runs_damage now (fresh t c) d
  · refine (foldl_pushInterval now d.damageList rfl).trans ?_
    rw [hzero]
    rfl

theorem newTicks_plain (h : (newBody 0 t).sameClass c.body = true) (hp : Plain c.body) :
    newTicks c.ticks (newBody 0 t) = c.ticks := by
  rw [newBody_eq_blank h]
  cases hb : c.body with
  | damage d => simp [hb, Plain] at hp
  | _ => rfl

theorem Survives.reads (h : (newBody 0 t).sameClass c.body = true) (hs : Survives c) :
    ∃ c', fields c' = fields c ∧ ∀ rest,
      unserialize now (fresh t c) (serializeBody c.body ++ CONDITIONATTR_END :: rest) = .ended c' rest := by
  by_cases hp : Plain c.body
  · refine ⟨_, ?_, (runs_plain now h hp).readTags⟩
    exact (fields_fresh (newTicks_plain h hp) _).mpr ((survives_iff_back hp).mp hs)
  unfold Survives at hs
  cases hb : c.body with
  | damage d =>
    rw [hb] at hs
    obtain ⟨hsaved, hticks, hconst⟩ := hs
    obtain ⟨c', hruns, hc', hfold⟩ := damage_back now h hb
    rw [hb] at hruns
    refine ⟨c', ?_, hruns.readTags⟩
    rw [hc']
    refine (fields_damage hb).mpr ⟨hsaved, hticks, ?_⟩
    intro hc
    rw [hfold, hconst hc]
    show (if c.constant then c.endTime else _) = c.endTime
    rw [hc]
    rfl
  | attributes a => simp [hb] at hs
  | light l => simp [hb] at hs
  | _ => simp [hb, Plain] at hp

theorem survives_of_reads (h : (newBody 0 t).sameClass c.body = true) (rest : Bytes)
    (hr : ∀ k : BitVec 64, ∃ c' left, fields c' = fields c ∧
      unserialize (fun _ => k) (fresh t c) (serializeBody c.body ++ CONDITIONATTR_END :: rest) = .ended c' left) :
    Survives c := by
  by_cases hp : Plain c.body
  · obtain ⟨c', left, hfields, hread⟩ := hr 0
    have hback := (runs_plain (fun _ => 0) h hp).readTags rest
    rw [unserialize, hback] at hread
    cases hread
    exact (survives_iff_back hp).mpr ((fields_fresh (newTicks_plain h hp) _).mp hfields)
  · have hf := fresh_eq h
    cases hb : c.body with
    | attributes a =>
      obtain ⟨c', left, -, hread⟩ := hr 0
      rw [hf, hb] at hread
      obtain ⟨l, hfail⟩ := unserialize_attributes (fun _ => 0) (fresh t c) a (CONDITIONATTR_END :: rest)
      cases hread.symm.trans hfail
    | light l =>
      obtain ⟨c', left, -, hread⟩ := hr 0
      rw [hf, hb] at hread
      obtain ⟨r, hfail⟩ := unserialize_light (fun _ => 0) (fresh t c) l { level := 0, color := 0 }
        (CONDITIONATTR_END :: rest)
      cases hread.symm.trans hfail
    | damage d =>
      have hread : ∀ k : BitVec 64, ∃ c', fields c' = fields c ∧ c' = { fresh t c with
            ticks := sumTicks d.damageList
            endTime := c'.endTime
            body := .damage { periodDamage := d.periodDamage, delayed := d.delayed, damageList := d.damageList } } ∧
          c' = d.damageList.foldl (pushInterval fun _ => k)
            { fresh t c with body := .damage { delayed := d.delayed, periodDamage := d.periodDamage } } := by
        intro k
        obtain ⟨c', left, hfields, hread⟩ := hr k
        obtain ⟨c'', hruns, hc, hfold⟩ := damage_back (fun _ => k) h hb
        rw [unserialize, hruns.readTags rest] at hread
        cases hread
        exact ⟨c', hfields, hc, hfold⟩
      have hkept : ∀ k : BitVec 64, ∃ e, (d.damageList ≠ [] → e = (sumTicks d.damageList).signExtend 64 + k) ∧
          d = { periodDamage := d.periodDamage, delayed := d.delayed, damageList := d.damageList } ∧
          c.ticks = sumTicks d.damageList ∧ (c.constant = true → e = c.endTime) := by
        intro k
        obtain ⟨c', hfields, hc, hfold⟩ := hread k
        refine ⟨c'.endTime, ?_, ?_⟩
        · intro hne
          obtain ⟨i, l, hl⟩ := List.exists_cons_of_ne_nil hne
          have hticks : c'.ticks = sumTicks d.damageList := by rw [hc]
          rw [← hticks, hfold, hl, List.foldl_cons]
          have hnew : (fresh t c).ticks ≠ -1 := by
            show newTicks c.ticks (newBody 0 t) ≠ -1
            rw [newBody_eq_blank h, hb]
            show (0 : BitVec 32) ≠ -1
            decide
          exact endTime_foldl k l (congrArg Condition.body (pushInterval_eq _ rfl i))
            (endTime_pushInterval k i rfl (.inl hnew))
        · rw [hc] at hfields
          exact (fields_damage hb).mp hfields
      obtain ⟨e0, he0, hsaved, hticks, hc0⟩ := hkept 0
      obtain ⟨e1, he1, -, -, hc1⟩ := hkept 1
      unfold Survives
      rw [hb]
      refine ⟨hsaved, hticks, ?_⟩
      intro hconst
      by_contra hne
      have hsame := (he0 hne).symm.trans ((hc0 hconst).trans ((hc1 hconst).symm.trans (he1 hne)))
      exact absurd ((BitVec.add_right_inj _).mp hsame) (by decide)
    | _ => simp [hb, Plain] at hp

end

/-! ## The whole list -/

variable {cs : List Condition}

theorem loadEvents_serialize (ht : c.conditionType = t.value) (clock : Nat → Condition → BitVec 64) (n : Nat)
    (rest : Bytes) :
    loadEvents clock (n + 1) (serialize c ++ rest) =
      nextEvents (loadEvents (fun n => clock (n + 1)) n)
        (unserialize (clock 0) (fresh t c) (serializeBody c.body ++ rest)) := by
  rw [serialize, List.append_assoc, loadEvents, parses_header ht]

theorem stream_cons (c : Condition) (cs : List Condition) :
    stream (c :: cs) = serialize c ++ CONDITIONATTR_END :: stream cs := by
  simp [stream]

theorem RoundTrips.cons_iff {c' : Condition} {left : Bytes} {events : List Event} :
    RoundTrips (c :: cs) (.stored c' left :: events) ↔
      fields c' = fields c ∧ left = stream cs ∧ RoundTrips cs events := by
  have hlist : storedConditionList (.stored c' left :: events) = storedConditionList events ++ [c'] := by
    simp [storedConditionList, Event.condition?]
  constructor
  · rintro ⟨hrestored, hframed, hrange⟩
    rw [hlist, List.map_append, List.map_cons (l := cs), List.reverse_cons] at hrestored
    obtain ⟨hinit, hlast⟩ := List.append_inj' hrestored rfl
    rw [rests, List.map_cons, List.cons.injEq] at hframed
    exact ⟨List.head_eq_of_cons_eq hlast, Option.some.inj hframed.1, hinit, hframed.2,
      fun h => hrange (List.mem_cons_of_mem _ h)⟩
  · rintro ⟨hfields, rfl, hrestored, hframed, hrange⟩
    refine ⟨?_, ?_, ?_⟩
    · rw [hlist, List.map_append, hrestored, List.map_singleton, hfields, List.map_cons, List.reverse_cons]
    · rw [rests, List.map_cons, hframed]
      rfl
    · grind

theorem round_trips (hmade : ∀ c ∈ cs, Made c) (hs : ∀ c ∈ cs, Survives c) (clock : Nat → Condition → BitVec 64)
    (hn : (stream cs).length ≤ n) : RoundTrips cs (loadEvents clock n (stream cs)) := by
  induction cs generalizing clock n with
  | nil =>
    have hnone : loadEvents clock n (stream []) = [] := by
      cases n with
      | zero => rfl
      | succ n => rfl
    rw [hnone]
    exact ⟨rfl, rfl, List.not_mem_nil⟩
  | cons c cs ih =>
    obtain ⟨t, ht, hclass⟩ := hmade c List.mem_cons_self
    obtain ⟨c', hfields, hread⟩ := (hs c List.mem_cons_self).reads (clock 0) hclass
    rw [stream_cons, List.length_append, List.length_cons] at hn
    obtain ⟨m, rfl⟩ : ∃ m, n = m + 1 := ⟨n - 1, by omega⟩
    rw [stream_cons, loadEvents_serialize ht, hread]
    refine RoundTrips.cons_iff.mpr ⟨hfields, rfl, ?_⟩
    exact ih (fun x hx => hmade x (List.mem_cons_of_mem _ hx)) (fun x hx => hs x (List.mem_cons_of_mem _ hx)) _ (by omega)

theorem survive_of_round_trips (hmade : ∀ c ∈ cs, Made c) (hn : (stream cs).length ≤ n)
    (h : ∀ clock, RoundTrips cs (loadEvents clock n (stream cs))) : ∀ c ∈ cs, Survives c := by
  induction cs generalizing n with
  | nil => exact fun c hc => absurd hc List.not_mem_nil
  | cons c cs ih =>
    obtain ⟨t, ht, hclass⟩ := hmade c List.mem_cons_self
    rw [stream_cons, List.length_append, List.length_cons] at hn
    obtain ⟨m, rfl⟩ : ∃ m, n = m + 1 := ⟨n - 1, by omega⟩
    -- The first turn stores the condition, or the turns are not one for each condition.
    have hfirst : ∀ clock : Nat → Condition → BitVec 64, ∃ c', fields c' = fields c ∧
        unserialize (clock 0) (fresh t c) (serializeBody c.body ++ CONDITIONATTR_END :: stream cs) =
          .ended c' (stream cs) ∧ RoundTrips cs (loadEvents (fun n => clock (n + 1)) m (stream cs)) := by
      intro clock
      have hturn := h clock
      rw [stream_cons, loadEvents_serialize ht] at hturn
      cases hout : unserialize (clock 0) (fresh t c) (serializeBody c.body ++ CONDITIONATTR_END :: stream cs) with
      | more c' left => exact absurd hout (tags_ne_more _ _ _ _ _)
      | ended c' left =>
        rw [hout] at hturn
        obtain ⟨hfields, rfl, hrest⟩ := RoundTrips.cons_iff.mp hturn
        exact ⟨c', hfields, rfl, hrest⟩
      | failed e left =>
        rw [hout] at hturn
        cases e with
        | malformed => exact absurd (List.cons.inj hturn.framed).1 (by simp [Event.rest?])
        | outOfRange => exact absurd List.mem_cons_self hturn.inRange
    intro x hx
    rcases List.mem_cons.mp hx with rfl | hx
    · refine survives_of_reads hclass (stream cs) ?_
      intro k
      obtain ⟨c', hfields, hread, -⟩ := hfirst fun _ _ => k
      exact ⟨c', stream cs, hfields, hread⟩
    · refine ih (fun y hy => hmade y (List.mem_cons_of_mem _ hy)) (n := m) (by omega) ?_ x hx
      intro clock
      obtain ⟨-, -, -, hrest⟩ := hfirst fun n => clock (n - 1)
      exact hrest

/-- A list of conditions comes back, whatever the clock shows, exactly when each of them
    survives. -/
theorem conditions_round_trip_iff {cs : List Condition} (hmade : ∀ c ∈ cs, Made c) :
    (∀ clock, RoundTrips cs (loadConditions clock (stream cs))) ↔ ∀ c ∈ cs, Survives c :=
  ⟨fun h => survive_of_round_trips hmade le_rfl h, fun h clock => round_trips hmade h clock le_rfl⟩

def poisonAndHaste : List Condition :=
  [⟨1700, 0, 4000, ConditionType.poison.value, false, true, false, CONDITIONID_COMBAT,
      .damage { delayed := true, damageList := [⟨1500, -5, 2000⟩, ⟨2000, -4, 2000⟩] }⟩,
    ⟨0, 0, 30000, ConditionType.haste.value, false, false, false, CONDITIONID_COMBAT, .speed { speedDelta := 70 }⟩]

theorem conditions_round_trip_iff_poisonAndHaste :
    (∀ c ∈ poisonAndHaste, isPersistent c = true ∧ Survives c) ∧
      ∀ clock, RoundTrips poisonAndHaste (loadConditions clock (stream poisonAndHaste)) := by
  have hmade : ∀ c ∈ poisonAndHaste, Made c := by
    intro c hc
    rcases List.mem_cons.mp hc with rfl | hc
    · exact ⟨.poison, rfl, rfl⟩
    · rw [List.mem_singleton.mp hc]
      exact ⟨.haste, rfl, rfl⟩
  have hs : ∀ c ∈ poisonAndHaste, isPersistent c = true ∧ Survives c := by
    intro c hc
    rcases List.mem_cons.mp hc with rfl | hc
    · exact ⟨by decide, rfl, by decide, fun h => by cases h⟩
    · rw [List.mem_singleton.mp hc]
      exact ⟨by decide, trivial⟩
  exact ⟨hs, (conditions_round_trip_iff hmade).mpr fun c hc => (hs c hc).2⟩

def lit : Condition :=
  ⟨0, 0, 60000, ConditionType.light.value, false, false, false, CONDITIONID_DEFAULT, .light { level := 6, color := 215 }⟩

/-- The light is not there after a login, and its bytes are not read to their end. -/
theorem light_lost : isPersistent lit = true ∧ Made lit ∧
    ¬ RoundTrips [lit] (loadConditions (fun _ _ => 0) (stream [lit])) := by
  refine ⟨by decide, ⟨.light, rfl, rfl⟩, ?_⟩
  intro h
  have hlist : storedConditionList (loadConditions (fun _ _ => 0) (stream [lit])) = [] := by decide
  have hrestored := h.restored
  rw [hlist] at hrestored
  cases hrestored

end Backlands.Conditions
