/-
  Backlands.Players.Tries — the tries of a skill and the mana spent on magic
  (`Player::addSkillAdvance`, `removeSkillTries`, `addManaSpent`, `removeManaSpent`,
  src/player.cpp).

  A skill's level has 16 bits, the magic level 32, tries and mana 64. `req` is what a level
  asks for, 64 bits of the vocation's formula. A script is told of each gain and may change
  it. Percentages and what is sent are left out; a death calls the same functions.

  Proved: `tries_conserved`. A gain adds and a loss takes exactly what it is to, as far as the
  ladder of levels reaches, exactly when it `Fits`. Counterexample: `great_skill_truncated`.
-/

import Backlands.Lib.Ladder
import Mathlib.Algebra.Order.Ring.Int
import Mathlib.Data.UInt

namespace Backlands.Players.Tries

open Backlands.Lib.Ladder

/-! ## The player -/

inductive Skill
  | fist | club | sword | axe | distance | shield | fishing
  deriving DecidableEq

def minimumSkillLevel : Nat := 10

inductive Which
  | skill (s : Skill)
  | magic
  deriving DecidableEq

structure Counter where
  level : Nat
  tries : UInt64
  deriving DecidableEq

structure Vocation where
  getReqSkillTries : Skill → Nat → UInt64
  getReqMana : Nat → UInt64

structure Player where
  skills : Skill → Counter
  /-- The magic level and the mana spent. -/
  magic : Counter
  /-- `PlayerFlag_NotGainMana`. -/
  notGainMana : Bool := false

def int32 (v : Int) : Int := (v + 2 ^ 31) % 2 ^ 32 - 2 ^ 31

/-- The loop of a gain. The level has `w` bits. -/
def advance (w : Nat) (req : Nat → UInt64) (c : Counter) (count nextReq : UInt64) : Counter :=
  if c.tries + count < nextReq then { c with tries := c.tries + count }
  else
    let level := (c.level + 1) % 2 ^ w
    let next := req ((level + 1) % 2 ^ w)
    if nextReq ≥ next then { level, tries := 0 }
    else advance w req { level, tries := 0 } (count - (nextReq - c.tries)) next
termination_by 2 ^ 64 - nextReq.toNat
decreasing_by
  have hlt : nextReq.toNat < (req (((c.level + 1) % 2 ^ w + 1) % 2 ^ w)).toNat :=
    UInt64.lt_iff_toNat_lt.mp (UInt64.not_le.mp ‹_›)
  have hbound := UInt64.toNat_lt (req (((c.level + 1) % 2 ^ w + 1) % 2 ^ w))
  omega

def gain (w : Nat) (req : Nat → UInt64) (c : Counter) (count : UInt64) : Counter :=
  let nextReq := req ((c.level + 1) % 2 ^ w)
  if req c.level ≥ nextReq then c
  else if count = 0 then c
  else advance w req c count nextReq

def descendSkill (req : Nat → UInt64) (c : Counter) (count : UInt64) : Counter × UInt64 :=
  if count > c.tries then
    if c.level ≤ minimumSkillLevel then ({ level := minimumSkillLevel, tries := 0 }, 0)
    else descendSkill req { level := c.level - 1, tries := req c.level } (count - c.tries)
  else (c, count)
termination_by c.level

def descendMagic (req : Nat → UInt64) (c : Counter) (amount : UInt64) : Counter × UInt64 :=
  if amount > c.tries ∧ c.level > 0 then
    descendMagic req { level := c.level - 1, tries := req c.level } (amount - c.tries)
  else (c, amount)
termination_by c.level

def loseSkill (req : Nat → UInt64) (c : Counter) (count : UInt64) : Counter :=
  let (c, count) := descendSkill req c count
  { c with tries := UInt64.ofNat (max 0 (int32 (c.tries - count).toNat)).toNat }

def loseMagic (req : Nat → UInt64) (c : Counter) (amount : UInt64) : Counter :=
  if amount = 0 then c
  else
    let (c, amount) := descendMagic req c amount
    { c with tries := c.tries - amount }

namespace Player

variable (voc : Vocation) (p : Player)

def setSkill (skill : Skill) (c : Counter) : Player :=
  { p with skills := fun s => if s = skill then c else p.skills s }

/-- `script` is what a script makes of the count. -/
def addSkillAdvance (skill : Skill) (count : UInt64) (script : UInt64 → UInt64) : Player :=
  p.setSkill skill (gain 16 (voc.getReqSkillTries skill) (p.skills skill) (script count))

def removeSkillTries (skill : Skill) (count : UInt64) : Player :=
  p.setSkill skill (loseSkill (voc.getReqSkillTries skill) (p.skills skill) count)

def addManaSpent (amount : UInt64) (script : UInt64 → UInt64) : Player :=
  if p.notGainMana then p
  else { p with magic := gain 32 voc.getReqMana p.magic (script amount) }

def removeManaSpent (amount : UInt64) : Player :=
  { p with magic := loseMagic voc.getReqMana p.magic amount }

def counter : Which → Counter
  | .skill s => p.skills s
  | .magic => p.magic

end Player

/-! ## What the ladders are -/

def Which.width : Which → Nat
  | .skill _ => 16
  | .magic => 32

def Which.base : Which → Nat
  | .skill _ => minimumSkillLevel
  | .magic => 0

def Vocation.req (voc : Vocation) : Which → Nat → UInt64
  | .skill s => voc.getReqSkillTries s
  | .magic => voc.getReqMana

/-- The requirements rise from the lowest level to `top`, and there no further. -/
structure Requirements (w base top : Nat) (req : Nat → UInt64) : Prop where
  base_le : base ≤ top
  top_lt : top < 2 ^ w
  rising : ∀ n, base ≤ n → n < top → req n < req (n + 1)
  highest : req ((top + 1) % 2 ^ w) ≤ req top

theorem requirements_of_rising {w base : Nat} {req : Nat → UInt64} (hbase : base < 2 ^ w)
    (h : ∀ m n, m < n → n < 2 ^ w → req m < req n) : Requirements w base (2 ^ w - 1) req where
  base_le := by omega
  top_lt := by omega
  rising n _ hn := h n (n + 1) (Nat.lt_succ_self n) (by omega)
  highest := by
    have hlast : 2 ^ w - 1 + 1 = 2 ^ w := Nat.sub_add_cancel (by omega)
    rw [hlast, Nat.mod_self]
    rcases Nat.eq_zero_or_pos (2 ^ w - 1) with hzero | hpos
    · rw [hzero]
      exact UInt64.le_refl _
    · exact UInt64.le_of_lt (h 0 _ hpos (by omega))

section Ladder

variable (base top : Nat) (req : Nat → UInt64)

abbrev Counter.Valid (c : Counter) : Prop := Place (fun n => (req n).toNat) base top c.level c.tries.toNat

/-- All tries: those of the levels passed and those beyond. -/
def Counter.total (c : Counter) : Nat := height (fun n => (req n).toNat) base c.level + c.tries.toNat

end Ladder

/-! ## A gain -/

section Gain

variable {w base top : Nat} {req : Nat → UInt64} {c : Counter} {count : UInt64}

theorem Requirements.succ_mod (hreq : Requirements w base top req) {n : Nat} (h : n < top) :
    (n + 1) % 2 ^ w = n + 1 := by
  have := hreq.top_lt
  exact Nat.mod_eq_of_lt (by omega)

theorem Requirements.next_le_iff (hreq : Requirements w base top req) {n : Nat} (hb : base ≤ n) (hn : n ≤ top) :
    req ((n + 1) % 2 ^ w) ≤ req n ↔ n = top := by
  constructor
  · intro h
    by_contra hne
    have hlt : n < top := by omega
    rw [hreq.succ_mod hlt] at h
    exact UInt64.not_le.mpr (hreq.rising n hb hlt) h
  · rintro rfl
    exact hreq.highest

theorem le_of_not_lt {nextReq : UInt64} (hmore : ¬ c.tries + count < nextReq)
    (hfits : c.tries.toNat + count.toNat < 2 ^ 64) : nextReq.toNat ≤ c.tries.toNat + count.toNat := by
  have h := UInt64.le_iff_toNat_le.mp (UInt64.not_lt.mp hmore)
  rwa [UInt64.toNat_add, Nat.mod_eq_of_lt hfits] at h

theorem valid_start (hreq : Requirements w base top req) {n : Nat} (hb : base ≤ n) (hn : n ≤ top) :
    Counter.Valid base top req { level := n, tries := 0 } := by
  refine ⟨hb, hn, fun hlt => ?_⟩
  have hrise := UInt64.lt_iff_toNat_lt.mp (hreq.rising n hb hlt)
  show 0 < (req (n + 1)).toNat
  omega

theorem advance_spec (hreq : Requirements w base top req) {nextReq : UInt64} (hnext : nextReq = req (c.level + 1))
    (hc : c.Valid base top req) (hlt : c.level < top) (hfits : c.tries.toNat + count.toNat < 2 ^ 64) :
    (advance w req c count nextReq).Valid base top req ∧
      (advance w req c count nextReq).total base req =
        min (c.total base req + count.toNat) (height (fun n => (req n).toNat) base top) := by
  fun_induction advance w req c count nextReq with
  | case1 c count nextReq hless =>
    have hsum : (c.tries + count).toNat = c.tries.toNat + count.toNat := by
      rw [UInt64.toNat_add]
      exact Nat.mod_eq_of_lt hfits
    have hplace : Counter.Valid base top req { c with tries := c.tries + count } := by
      refine ⟨hc.base_le, hc.le_top, fun _ => ?_⟩
      rw [hnext] at hless
      exact UInt64.lt_iff_toNat_lt.mp hless
    have hbelow := hplace.lt_height hlt (Nat.le_refl top)
    refine ⟨hplace, ?_⟩
    unfold Counter.total
    dsimp only at hbelow ⊢
    omega
  | case2 c count nextReq hmore level next hstop =>
    have hlevel : level = c.level + 1 := hreq.succ_mod hlt
    have henough := le_of_not_lt hmore hfits
    have hbase := hc.base_le
    have hrung := height_succ (fun n => (req n).toNat) hbase
    have htop : level = top := by
      refine (hreq.next_le_iff (by omega) (by omega)).mp ?_
      rw [hnext, ← hlevel] at hstop
      exact hstop
    refine ⟨valid_start hreq (by omega) (by omega), ?_⟩
    rw [hnext] at henough
    rw [← hlevel, htop] at hrung henough
    simp only [Counter.total, htop, UInt64.toNat_zero]
    omega
  | case3 c count nextReq hmore level next hgo ih =>
    have hlevel : level = c.level + 1 := hreq.succ_mod hlt
    have henough := le_of_not_lt hmore hfits
    have hbase := hc.base_le
    have hrung := height_succ (fun n => (req n).toNat) hbase
    have hbelow : level < top := by
      refine Nat.lt_of_le_of_ne (by omega) fun htop => hgo ?_
      have h := (hreq.next_le_iff (by omega) (Nat.le_of_eq htop)).mpr htop
      rw [hnext, ← hlevel]
      exact h
    have hneeded : c.tries.toNat < nextReq.toNat := by
      rw [hnext]
      exact hc.lt_next hlt
    have hleft : (count - (nextReq - c.tries)).toNat = c.tries.toNat + count.toNat - nextReq.toNat := by
      have hsub : (nextReq - c.tries).toNat = nextReq.toNat - c.tries.toNat :=
        UInt64.toNat_sub_of_le _ _ (UInt64.le_iff_toNat_le.mpr hneeded.le)
      rw [UInt64.toNat_sub_of_le _ _ (UInt64.le_iff_toNat_le.mpr (by omega)), hsub]
      omega
    obtain ⟨hvalid, htotal⟩ := ih (congrArg req (hreq.succ_mod hbelow)) (valid_start hreq (by omega) hbelow.le) hbelow
      (by rw [hleft, UInt64.toNat_zero]; omega)
    refine ⟨hvalid, htotal.trans ?_⟩
    simp only [← hnext] at hrung
    simp only [Counter.total, hleft, hlevel, hrung, UInt64.toNat_zero]
    omega

theorem advance_overflow {nextReq : UInt64} (hnext : c.tries < nextReq)
    (h : 2 ^ 64 ≤ c.tries.toNat + count.toNat) :
    (advance w req c count nextReq).total base req < c.total base req := by
  have hcount := UInt64.toNat_lt count
  have htries := UInt64.toNat_lt c.tries
  have hsum : (c.tries + count).toNat = c.tries.toNat + count.toNat - 2 ^ 64 := by
    rw [UInt64.toNat_add]
    omega
  rw [UInt64.lt_iff_toNat_lt] at hnext
  rw [advance, if_pos (UInt64.lt_iff_toNat_lt.mpr (by omega))]
  unfold Counter.total
  dsimp only
  omega

def gained (base top : Nat) (req : Nat → UInt64) (c : Counter) (count : UInt64) : Nat :=
  if c.level = top then c.total base req
  else min (c.total base req + count.toNat) (height (fun n => (req n).toNat) base top)

theorem gain_iff (hreq : Requirements w base top req) (hc : c.Valid base top req) :
    (gain w req c count).Valid base top req ∧ (gain w req c count).total base req = gained base top req c count ↔
      c.level = top ∨ c.tries.toNat + count.toNat < 2 ^ 64 := by
  unfold gain gained
  by_cases htop : c.level = top
  · rw [if_pos ((hreq.next_le_iff hc.base_le hc.le_top).mpr htop), if_pos htop]
    exact iff_of_true ⟨hc, rfl⟩ (.inl htop)
  have hlt : c.level < top := Nat.lt_of_le_of_ne hc.le_top htop
  rw [if_neg fun h => htop ((hreq.next_le_iff hc.base_le hc.le_top).mp h), if_neg htop, hreq.succ_mod hlt]
  have hbelow : c.total base req < height (fun n => (req n).toNat) base top := hc.lt_height hlt (Nat.le_refl top)
  by_cases hzero : count = 0
  · subst hzero
    refine iff_of_true ⟨hc, ?_⟩ (.inr (UInt64.toNat_lt c.tries))
    exact (Nat.min_eq_left hbelow.le).symm
  rw [if_neg hzero]
  by_cases hfits : c.tries.toNat + count.toNat < 2 ^ 64
  · exact iff_of_true (advance_spec hreq rfl hc hlt hfits) (.inr hfits)
  refine iff_of_false (fun h => ?_) (fun h => h.elim htop hfits)
  have hless := @advance_overflow w base req c count _
    (UInt64.lt_iff_toNat_lt.mpr (hc.lt_next hlt)) (Nat.le_of_not_lt hfits)
  omega

end Gain

/-! ## A loss -/

section Loss

variable {w base top : Nat} {req : Nat → UInt64} {c : Counter} {count amount : UInt64}

/-- A counter that is `count` short of a place. -/
structure Owing (base top : Nat) (req : Nat → UInt64) (c : Counter) (count : UInt64) : Prop where
  base_le : base ≤ c.level
  le_top : c.level ≤ top
  lt_next : c.level < top → c.tries.toNat < (req (c.level + 1)).toNat + count.toNat

theorem Counter.Valid.owing (hc : c.Valid base top req) (count : UInt64) : Owing base top req c count :=
  ⟨hc.base_le, hc.le_top, fun h => Nat.lt_add_right _ (hc.lt_next h)⟩

theorem toNat_rest (hless : c.tries < count) : (count - c.tries).toNat = count.toNat - c.tries.toNat :=
  UInt64.toNat_sub_of_le _ _ (UInt64.le_of_lt hless)

theorem Owing.down (h : Owing base top req c count) (hlevel : base < c.level) (hless : c.tries < count) :
    Owing base top req { level := c.level - 1, tries := req c.level } (count - c.tries) := by
  have hle := h.le_top
  rw [UInt64.lt_iff_toNat_lt] at hless
  refine ⟨Nat.le_sub_one_of_lt hlevel, (Nat.sub_le _ _).trans hle, fun _ => ?_⟩
  have hrest := toNat_rest (UInt64.lt_iff_toNat_lt.mpr hless)
  have hback : c.level - 1 + 1 = c.level := by omega
  show (req c.level).toNat < (req (c.level - 1 + 1)).toNat + (count - c.tries).toNat
  rw [hback]
  omega

theorem total_down (hlevel : base < c.level) :
    Counter.total base req { level := c.level - 1, tries := req c.level } =
      height (fun n => (req n).toNat) base c.level := by
  obtain ⟨n, hn⟩ : ∃ n, c.level = n + 1 := ⟨c.level - 1, by omega⟩
  rw [hn] at hlevel ⊢
  exact (height_succ (fun n => (req n).toNat) (Nat.le_of_lt_succ hlevel)).symm

theorem Owing.valid_of_le (h : Owing base top req c count) (hle : count ≤ c.tries) :
    Counter.Valid base top req { c with tries := c.tries - count } := by
  have hsub := UInt64.toNat_sub_of_le _ _ hle
  rw [UInt64.le_iff_toNat_le] at hle
  refine ⟨h.base_le, h.le_top, fun hlt => ?_⟩
  have hnext := h.lt_next hlt
  dsimp only at hlt ⊢
  omega

theorem descendSkill_spec (hreq : Requirements w minimumSkillLevel top req)
    (h : Owing minimumSkillLevel top req c count) :
    (descendSkill req c count).2 ≤ (descendSkill req c count).1.tries ∧
      Owing minimumSkillLevel top req (descendSkill req c count).1 (descendSkill req c count).2 ∧
      (descendSkill req c count).1.total minimumSkillLevel req - (descendSkill req c count).2.toNat =
        c.total minimumSkillLevel req - count.toNat := by
  fun_induction descendSkill req c count with
  | case1 c count hless hlow =>
    have hlevel : c.level = minimumSkillLevel := Nat.le_antisymm hlow h.base_le
    rw [gt_iff_lt, UInt64.lt_iff_toNat_lt] at hless
    refine ⟨UInt64.le_refl _, (valid_start hreq le_rfl hreq.base_le).owing _, ?_⟩
    unfold Counter.total
    rw [hlevel]
    simp only [height_base, UInt64.toNat_zero]
    omega
  | case2 c count hless hhigh ih =>
    have hlevel : minimumSkillLevel < c.level := Nat.lt_of_not_le hhigh
    obtain ⟨hle, howing, htotal⟩ := ih (h.down hlevel hless)
    refine ⟨hle, howing, htotal.trans ?_⟩
    rw [total_down hlevel, toNat_rest hless]
    unfold Counter.total
    rw [gt_iff_lt, UInt64.lt_iff_toNat_lt] at hless
    omega
  | case3 c count hmore => exact ⟨UInt64.not_lt.mp hmore, h, rfl⟩

theorem int32_toNat_eq_iff {v : Nat} (h : v < 2 ^ 64) :
    (UInt64.ofNat (max 0 (int32 v)).toNat).toNat = v ↔ v < 2 ^ 31 := by
  unfold int32
  rw [UInt64.toNat_ofNat']
  omega

theorem loseSkill_iff (hreq : Requirements w minimumSkillLevel top req) (hc : c.Valid minimumSkillLevel top req) :
    (loseSkill req c count).Valid minimumSkillLevel top req ∧
        (loseSkill req c count).total minimumSkillLevel req = c.total minimumSkillLevel req - count.toNat ↔
      restOf (fun n => (req n).toNat) minimumSkillLevel top (c.total minimumSkillLevel req - count.toNat) < 2 ^ 31 := by
  obtain ⟨hle, howing, htotal⟩ := descendSkill_spec hreq (hc.owing count)
  unfold loseSkill
  generalize descendSkill req c count = d at hle howing htotal
  obtain ⟨c', count'⟩ := d
  dsimp only at hle howing htotal ⊢
  have hplace := howing.valid_of_le hle
  have hsub := UInt64.toNat_sub_of_le _ _ hle
  rw [UInt64.le_iff_toNat_le] at hle
  have hplaced : Counter.total minimumSkillLevel req { c' with tries := c'.tries - count' } =
      c.total minimumSkillLevel req - count.toNat := by
    unfold Counter.total at htotal ⊢
    dsimp only at htotal ⊢
    omega
  rw [← hplaced]
  unfold Counter.total
  rw [hplace.levelOf_eq.2, ← int32_toNat_eq_iff (UInt64.toNat_lt _)]
  constructor
  · simp
  intro hsame
  rw [UInt64.toNat_inj] at hsame
  rw [hsame]
  exact ⟨hplace, rfl⟩

theorem descendMagic_spec (h : Owing 0 top req c amount) :
    ((descendMagic req c amount).2 ≤ (descendMagic req c amount).1.tries ∨ (descendMagic req c amount).1.level = 0) ∧
      Owing 0 top req (descendMagic req c amount).1 (descendMagic req c amount).2 ∧
      (descendMagic req c amount).1.total 0 req + amount.toNat = c.total 0 req + (descendMagic req c amount).2.toNat := by
  fun_induction descendMagic req c amount with
  | case1 c amount hmore ih =>
    obtain ⟨hless, hlevel⟩ := hmore
    obtain ⟨hend, howing, htotal⟩ := ih (h.down hlevel hless)
    refine ⟨hend, howing, ?_⟩
    rw [total_down hlevel, toNat_rest hless] at htotal
    unfold Counter.total at htotal ⊢
    rw [gt_iff_lt, UInt64.lt_iff_toNat_lt] at hless
    omega
  | case2 c amount hend =>
    grind

theorem loseMagic_iff (hc : c.Valid 0 top req) :
    (loseMagic req c amount).Valid 0 top req ∧ (loseMagic req c amount).total 0 req = c.total 0 req - amount.toNat ↔
      amount.toNat ≤ c.total 0 req := by
  unfold loseMagic
  by_cases hzero : amount = 0
  · rw [if_pos hzero, hzero]
    exact iff_of_true ⟨hc, rfl⟩ (Nat.zero_le _)
  rw [if_neg hzero]
  obtain ⟨hend, howing, htotal⟩ := descendMagic_spec (hc.owing amount)
  generalize descendMagic req c amount = d at hend howing htotal
  obtain ⟨c', amount'⟩ := d
  dsimp only at hend howing htotal ⊢
  by_cases hle : amount' ≤ c'.tries
  · have hsub := UInt64.toNat_sub_of_le _ _ hle
    have hplace := howing.valid_of_le hle
    rw [UInt64.le_iff_toNat_le] at hle
    unfold Counter.total at htotal ⊢
    refine iff_of_true ⟨hplace, ?_⟩ (by omega)
    dsimp only
    omega
  · have hlevel := hend.resolve_left hle
    have hlarge := UInt64.toNat_lt amount'
    rw [UInt64.not_le, UInt64.lt_iff_toNat_lt] at hle
    have hwrap : (c'.tries - amount').toNat = 2 ^ 64 - amount'.toNat + c'.tries.toNat := by
      rw [UInt64.toNat_sub]
      omega
    unfold Counter.total at htotal ⊢
    rw [hlevel] at htotal ⊢
    simp only [height_base, hwrap] at htotal ⊢
    omega

end Loss

/-! ## Every operation -/

inductive Op
  | addSkillAdvance (skill : Skill) (count : UInt64) (script : UInt64 → UInt64)
  | removeSkillTries (skill : Skill) (count : UInt64)
  | addManaSpent (amount : UInt64) (script : UInt64 → UInt64)
  | removeManaSpent (amount : UInt64)

section Run

variable (voc : Vocation) (tops : Which → Nat) (p : Player)

def Player.step : Op → Player
  | .addSkillAdvance skill count script => p.addSkillAdvance voc skill count script
  | .removeSkillTries skill count => p.removeSkillTries voc skill count
  | .addManaSpent amount script => p.addManaSpent voc amount script
  | .removeManaSpent amount => p.removeManaSpent voc amount

def Op.which : Op → Which
  | .addSkillAdvance skill _ _ | .removeSkillTries skill _ => .skill skill
  | .addManaSpent _ _ | .removeManaSpent _ => .magic

def Player.Valid : Prop := ∀ k : Which, (p.counter k).Valid k.base (tops k) (voc.req k)

def Player.total (k : Which) : Nat := (p.counter k).total k.base (voc.req k)

def Op.expected (op : Op) : Nat :=
  match op with
  | .addSkillAdvance _ count script =>
    gained op.which.base (tops op.which) (voc.req op.which) (p.counter op.which) (script count)
  | .removeSkillTries _ count => p.total voc op.which - count.toNat
  | .addManaSpent amount script =>
    if p.notGainMana then p.total voc op.which
    else gained op.which.base (tops op.which) (voc.req op.which) (p.counter op.which) (script amount)
  | .removeManaSpent amount => p.total voc op.which - amount.toNat

structure Conserved (op : Op) : Prop where
  valid : (p.step voc op).Valid voc tops
  total : (p.step voc op).total voc op.which = op.expected voc tops p
  others : ∀ k, k ≠ op.which → (p.step voc op).counter k = p.counter k

/-- A gain does not pass 64 bits, a loss leaves less than 31 bits of a skill's level and takes
no more mana than was spent. -/
def Op.Fits (op : Op) : Prop :=
  match op with
  | .addSkillAdvance _ count script =>
    (p.counter op.which).level = tops op.which ∨ (p.counter op.which).tries.toNat + (script count).toNat < 2 ^ 64
  | .removeSkillTries _ count =>
    restOf (fun n => (voc.req op.which n).toNat) op.which.base (tops op.which) (p.total voc op.which - count.toNat) < 2 ^ 31
  | .addManaSpent amount script =>
    p.notGainMana ∨ (p.counter op.which).level = tops op.which ∨
      (p.counter op.which).tries.toNat + (script amount).toNat < 2 ^ 64
  | .removeManaSpent amount => amount.toNat ≤ p.total voc op.which

variable {voc tops p} {skill : Skill} {c : Counter}

@[simp] theorem counter_setSkill_self : (p.setSkill skill c).counter (.skill skill) = c := if_pos rfl

theorem counter_setSkill_other {k : Which} (h : k ≠ .skill skill) : (p.setSkill skill c).counter k = p.counter k := by
  cases k with
  | skill s => exact if_neg fun hs => h (congrArg Which.skill hs)
  | magic => rfl

theorem counter_setMagic_other {k : Which} (h : k ≠ .magic) : ({ p with magic := c } : Player).counter k = p.counter k := by
  cases k with
  | skill s => rfl
  | magic => exact absurd rfl h

theorem step_others (op : Op) {k : Which} (h : k ≠ op.which) : (p.step voc op).counter k = p.counter k := by
  cases op with
  | addSkillAdvance skill count script => exact counter_setSkill_other h
  | removeSkillTries skill count => exact counter_setSkill_other h
  | addManaSpent amount script =>
    show (p.addManaSpent voc amount script).counter k = p.counter k
    unfold Player.addManaSpent
    split
    · rfl
    · exact counter_setMagic_other h
  | removeManaSpent amount => exact counter_setMagic_other h

theorem conserved_iff (hp : p.Valid voc tops) (op : Op) :
    Conserved voc tops p op ↔
      ((p.step voc op).counter op.which).Valid op.which.base (tops op.which) (voc.req op.which) ∧
        (p.step voc op).total voc op.which = op.expected voc tops p := by
  constructor
  · intro h
    exact ⟨h.valid op.which, h.total⟩
  intro ⟨hvalid, htotal⟩
  refine ⟨fun k => ?_, htotal, fun k => step_others op⟩
  by_cases hk : k = op.which
  · rw [hk]
    exact hvalid
  · rw [step_others op hk]
    exact hp k

/-- A call keeps the tries, whatever the requirements and the script, exactly when it fits. -/
theorem tries_conserved (hreq : ∀ k : Which, Requirements k.width k.base (tops k) (voc.req k)) (hp : p.Valid voc tops)
    (op : Op) : Conserved voc tops p op ↔ op.Fits voc tops p := by
  rw [conserved_iff hp]
  cases op with
  | addSkillAdvance skill count script =>
    unfold Player.total Player.step Player.addSkillAdvance
    simp only [Op.which, counter_setSkill_self]
    exact gain_iff (hreq (.skill skill)) (hp (.skill skill))
  | removeSkillTries skill count =>
    unfold Player.total Player.step Player.removeSkillTries
    simp only [Op.which, counter_setSkill_self]
    exact loseSkill_iff (hreq (.skill skill)) (hp (.skill skill))
  | addManaSpent amount script =>
    by_cases hflag : p.notGainMana
    · simp only [Op.Fits, Op.expected, Player.step, Player.addManaSpent, hflag, if_true, true_or, iff_true]
      exact ⟨hp .magic, trivial⟩
    · simp only [Op.Fits, Op.expected, Player.step, Player.addManaSpent, hflag, Bool.false_eq_true, if_false, false_or]
      exact gain_iff (hreq .magic) (hp .magic)
  | removeManaSpent amount => exact loseMagic_iff (hp .magic)

end Run

/-- Requirements that rise by 2 ^ 31 from level to level. -/
def steepVocation : Vocation where
  getReqSkillTries _ n := UInt64.ofNat (n * 2 ^ 31)
  getReqMana n := UInt64.ofNat (n * 2 ^ 31)

def lastLevel (k : Which) : Nat := 2 ^ k.width - 1

theorem steep_requirements (k : Which) : Requirements k.width k.base (lastLevel k) (steepVocation.req k) := by
  have hrise : ∀ m n, m < n → n < 2 ^ 32 → UInt64.ofNat (m * 2 ^ 31) < UInt64.ofNat (n * 2 ^ 31) := by
    intro m n hlt hn
    rw [UInt64.lt_iff_toNat_lt, UInt64.toNat_ofNat', UInt64.toNat_ofNat']
    omega
  cases k with
  | skill s =>
    have hwidth : (2 : Nat) ^ 16 < 2 ^ 32 := by decide
    have hbase : minimumSkillLevel < 2 ^ 16 := by decide
    exact requirements_of_rising hbase fun m n hlt hn => hrise m n hlt (Nat.lt_trans hn hwidth)
  | magic => exact requirements_of_rising (by decide) hrise

/-- A novice of all skills but for the sword, on which more than 32 bits of tries are spent. -/
def swordsman : Player where
  skills s := { level := 10, tries := if s = .sword then 2 ^ 32 + 5 else 0 }
  magic := { level := 0, tries := 0 }

theorem swordsman_valid : swordsman.Valid steepVocation lastLevel := by
  intro k
  cases k with
  | skill s => cases s <;> exact ⟨by decide, by decide, fun _ => by decide⟩
  | magic => exact ⟨by decide, by decide, fun _ => by decide⟩

theorem club_practised :
    Conserved steepVocation lastLevel swordsman (.addSkillAdvance .club 100 id) :=
  (tries_conserved steep_requirements swordsman_valid _).mpr (.inr (by decide))

/-- All but five tries are lost by a loss of one. -/
theorem great_skill_truncated :
    swordsman.Valid steepVocation lastLevel ∧ ¬ Conserved steepVocation lastLevel swordsman (.removeSkillTries .sword 1) := by
  have hlose : loseSkill (steepVocation.getReqSkillTries .sword) ⟨10, 2 ^ 32 + 5⟩ 1 = ⟨10, 4⟩ := by
    unfold loseSkill
    rw [descendSkill, if_neg (by decide)]
    decide +kernel
  refine ⟨swordsman_valid, fun h => ?_⟩
  have htotal : Counter.total 10 _ (loseSkill (steepVocation.getReqSkillTries .sword) ⟨10, 2 ^ 32 + 5⟩ 1) =
      Counter.total 10 _ ⟨10, 2 ^ 32 + 5⟩ - 1 := h.total
  rw [hlose] at htotal
  unfold Counter.total at htotal
  simp only [height_base] at htotal
  exact absurd htotal (by decide)

end Backlands.Players.Tries
