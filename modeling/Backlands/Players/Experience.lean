/-
  Backlands.Players.Experience — experience and level of a player (`Player::addExperience`,
  `Player::removeExperience`, src/player.cpp; `getExpForLevel`, src/player.h).

  Numbers wrap as their types do: 64 bits for experience, 32 for the level, the mana and the
  capacity, 32 with a sign for the health. A script is told of each gain and loss and may
  change the amount. Current health and mana, the percentage and what is sent are left out.

  `getExpForLevel` is a cubic that leaves 64 bits above level 1034406, and the code takes the
  last level before for the highest.

  Proved: `experience_consistent`. Counterexample: `gain_past_the_end`.
-/

import Backlands.Lib.Runs
import Mathlib.Tactic.Linarith

namespace Backlands.Players.Experience

open Backlands.Lib Function

/-! ## The player -/

structure Vocation where
  gainHP : Nat
  gainMana : Nat
  gainCap : Nat

structure Stats where
  level : Nat
  healthMax : Int
  manaMax : Nat
  capacity : Nat
  deriving DecidableEq

structure Player extends Stats where
  experience : Nat
  deriving DecidableEq

def int32 (v : Int) : Int := (v + 2 ^ 31) % 2 ^ 32 - 2 ^ 31

def int64 (v : Int) : Int := (v + 2 ^ 63) % 2 ^ 64 - 2 ^ 63

def getExpForLevel (lv : Nat) : Nat :=
  let lv := UInt64.ofNat lv
  ((((lv - 6) * lv + 17) * lv - 12) / 6 * 100).toNat

namespace Stats

variable (v : Vocation) (st : Stats)

def nextLevel : Nat := (st.level + 1) % 2 ^ 32

def up : Stats where
  level := st.nextLevel
  healthMax := int32 (st.healthMax + v.gainHP)
  manaMax := (st.manaMax + v.gainMana) % 2 ^ 32
  capacity := (st.capacity + v.gainCap) % 2 ^ 32

def down : Stats where
  level := st.level - 1
  healthMax := max 0 (int32 (st.healthMax - v.gainHP))
  manaMax := (max 0 (int32 (st.manaMax - v.gainMana))).toNat
  capacity := (max 0 (int32 (st.capacity - v.gainCap))).toNat

end Stats

theorem getExpForLevel_lt (lv : Nat) : getExpForLevel lv < 2 ^ 64 := UInt64.toNat_lt _

/-- The loop of a gain: on to the next level, until it is not reached or there is none. -/
def gainLevels (v : Vocation) (experience : Nat) (st : Stats) (nextLevelExp : Nat) : Stats :=
  if experience < nextLevelExp then st
  else
    let next := getExpForLevel (st.up v).nextLevel
    if nextLevelExp ≥ next then st.up v else gainLevels v experience (st.up v) next
termination_by 2 ^ 64 - nextLevelExp
decreasing_by
  have := getExpForLevel_lt (st.up v).nextLevel
  omega

def loseLevels (v : Vocation) (experience : Nat) (st : Stats) : Stats :=
  if 1 < st.level ∧ experience < getExpForLevel st.level then loseLevels v experience (st.down v) else st
termination_by st.level
decreasing_by
  simp only [Stats.down]
  omega

/-- `script` is what a script makes of the amount. -/
def addExperience (v : Vocation) (p : Player) (exp : UInt64) (script : UInt64 → UInt64) : Player :=
  let nextLevelExp := getExpForLevel p.nextLevel
  if getExpForLevel p.level ≥ nextLevelExp then p
  else if script exp = 0 then p
  else
    let experience := (p.experience + (script exp).toNat) % 2 ^ 64
    { gainLevels v experience p.toStats nextLevelExp with experience }

def removeExperience (v : Vocation) (p : Player) (exp : UInt64) (script : UInt64 → UInt64) : Player :=
  if p.experience = 0 ∨ exp = 0 then p
  else if script exp = 0 then p
  else
    let experience := (max 0 (int64 (p.experience - (script exp).toNat))).toNat
    { loseLevels v experience p.toStats with experience }

inductive Op
  | addExperience (exp : UInt64) (script : UInt64 → UInt64)
  | removeExperience (exp : UInt64) (script : UInt64 → UInt64)

def step (v : Vocation) (p : Player) : Op → Player
  | .addExperience exp script => addExperience v p exp script
  | .removeExperience exp script => removeExperience v p exp script

/-! ## The cubic -/

/-- The last level whose experience has 64 bits. -/
def maxLevel : Nat := 1034406

/-- What the cubic is meant to be. -/
def expFor : Nat → Nat
  | 0 => 0
  | 1 => 0
  | n + 2 => expFor (n + 1) + 100 * (n * (n - 1) / 2 + 1)

theorem expFor_closed (n : Nat) : 6 * expFor (n + 1) + 300 * n ^ 2 = 100 * n ^ 3 + 800 * n := by
  induction n with
  | zero => rfl
  | succ n ih =>
    rw [expFor]
    cases n with
    | zero => rfl
    | succ m =>
      have heven := Nat.div_mul_cancel (Nat.even_mul_pred_self (m + 1)).two_dvd
      rw [Nat.add_sub_cancel] at heven ⊢
      linarith

theorem hundred_dvd (n : Nat) : 100 ∣ expFor (n + 1) := by
  induction n with
  | zero => exact Nat.dvd_zero 100
  | succ n ih =>
    rw [expFor]
    exact Nat.dvd_add ih (Nat.dvd_mul_right _ _)

theorem expFor_lt_succ {n : Nat} (h : 1 ≤ n) : expFor n < expFor (n + 1) := by
  obtain ⟨m, rfl⟩ : ∃ m, n = m + 1 := ⟨n - 1, by omega⟩
  rw [expFor]
  omega

theorem expFor_lt {m n : Nat} (hm : 1 ≤ m) (h : m < n) : expFor m < expFor n := by
  induction n with
  | zero => omega
  | succ n ih =>
    have hstep := expFor_lt_succ (n := n) (by omega)
    rcases Nat.lt_succ_iff_lt_or_eq.mp h with h | rfl <;> omega

theorem expFor_le {m n : Nat} (hm : 1 ≤ m) (h : m ≤ n) : expFor m ≤ expFor n := by
  rcases Nat.lt_or_eq_of_le h with h | rfl
  · exact (expFor_lt hm h).le
  · exact le_rfl

theorem expFor_maxLevel : expFor maxLevel = 18446727123985721500 := by
  have h := expFor_closed 1034405
  rw [show maxLevel = 1034405 + 1 from rfl]
  generalize expFor (1034405 + 1) = e at h ⊢
  omega

theorem expFor_beyond : expFor (maxLevel + 1) = 2 ^ 64 + 36549909650984 := by
  have h := expFor_closed 1034406
  rw [show maxLevel + 1 = 1034406 + 1 from rfl]
  generalize expFor (1034406 + 1) = e at h ⊢
  omega

theorem cubic_eq (y b : UInt64) (h : b + 3 * (y * y) = y * y * y + 8 * y) :
    ((y + 1 - 6) * (y + 1) + 17) * (y + 1) - 12 = b := by
  grind

/-- The code's cubic is the meant one up to the first level beyond the last, where it wraps. -/
theorem getExpForLevel_eq {lv : Nat} (h1 : 1 ≤ lv) (h : lv ≤ maxLevel + 1) :
    getExpForLevel lv = expFor lv % 2 ^ 64 := by
  obtain ⟨n, rfl⟩ : ∃ n, lv = n + 1 := ⟨lv - 1, by omega⟩
  have hn : n ≤ 1034406 := Nat.le_of_succ_le_succ h
  obtain ⟨b, hb⟩ : ∃ b, b + 3 * (n * n) = n * n * n + 8 * n := by
    refine ⟨n * n * n + 8 * n - 3 * (n * n), Nat.sub_add_cancel ?_⟩
    nlinarith [sq_nonneg ((n : ℤ) - 2)]
  have hcubic : ((UInt64.ofNat (n + 1) - 6) * UInt64.ofNat (n + 1) + 17) * UInt64.ofNat (n + 1) - 12 = UInt64.ofNat b := by
    have hwords := congrArg UInt64.ofNat hb
    simp only [UInt64.ofNat_add, UInt64.ofNat_mul] at hwords ⊢
    exact cubic_eq _ _ hwords
  have hb6 : 6 * expFor (n + 1) = 100 * b := by
    have hclosed := expFor_closed n
    nlinarith
  have hlt : b < 2 ^ 64 := by
    have hcube : n * n * n ≤ 1034406 * 1034406 * 1034406 := Nat.mul_le_mul (Nat.mul_le_mul hn hn) hn
    omega
  unfold getExpForLevel
  dsimp only
  rw [hcubic]
  simp only [UInt64.toNat_mul, UInt64.toNat_div, UInt64.toNat_ofNat', UInt64.reduceToNat, Nat.mod_eq_of_lt hlt]
  clear hb hcubic
  have hsixth : b / 6 * 100 = expFor (n + 1) := by
    obtain ⟨k, hk⟩ := hundred_dvd n
    omega
  rw [hsixth]

theorem getExpForLevel_of_le {lv : Nat} (h1 : 1 ≤ lv) (h : lv ≤ maxLevel) : getExpForLevel lv = expFor lv := by
  have hle := expFor_le h1 h
  rw [expFor_maxLevel] at hle
  rw [getExpForLevel_eq h1 (h.trans (Nat.le_succ _))]
  exact Nat.mod_eq_of_lt (by omega)

theorem top_iff {lv : Nat} (h1 : 1 ≤ lv) (h : lv ≤ maxLevel) :
    getExpForLevel lv ≥ getExpForLevel (lv + 1) ↔ lv = maxLevel := by
  rw [getExpForLevel_of_le h1 h, @getExpForLevel_eq (lv + 1) (by omega) (by omega)]
  constructor
  · by_contra hne
    have hnext : expFor (lv + 1) ≤ expFor maxLevel := expFor_le (by omega) (by omega)
    have hlt := expFor_lt_succ h1
    rw [expFor_maxLevel] at hnext
    omega
  · rintro rfl
    rw [expFor_beyond, expFor_maxLevel]
    decide

/-! ## The level of an experience -/

/-- `level` is reached and the next is not, or there is none. -/
def IsLevel (experience level : Nat) : Prop :=
  1 ≤ level ∧ level ≤ maxLevel ∧ getExpForLevel level ≤ experience ∧
    (level = maxLevel ∨ experience < getExpForLevel (level + 1))

theorem isLevel_iff {e L : Nat} (he : e < 2 ^ 64) :
    IsLevel e L ↔ 1 ≤ L ∧ L ≤ maxLevel ∧ expFor L ≤ e ∧ e < expFor (L + 1) := by
  refine and_congr_right fun h1 => and_congr_right fun hm => ?_
  rw [getExpForLevel_of_le h1 hm]
  refine and_congr_right fun _ => ?_
  by_cases hL : L = maxLevel
  · subst hL
    rw [expFor_beyond]
    omega
  · rw [@getExpForLevel_of_le (L + 1) (by omega) (by omega)]
    simp [hL]

theorem IsLevel.unique {e L L' : Nat} (he : e < 2 ^ 64) (h : IsLevel e L) (h' : IsLevel e L') : L = L' := by
  obtain ⟨h1, -, hle, hlt⟩ := (isLevel_iff he).mp h
  obtain ⟨h1', -, hle', hlt'⟩ := (isLevel_iff he).mp h'
  have hno : ∀ {A B : Nat}, 1 ≤ A → expFor B ≤ e → e < expFor (A + 1) → ¬A < B := by
    intro A B hA hB hA' hAB
    have := @expFor_le (A + 1) B (by omega) hAB
    omega
  have := hno h1 hle' hlt
  have := hno h1' hle hlt'
  omega

theorem exists_isLevel {e : Nat} (he : e < 2 ^ 64) : ∃ L, IsLevel e L := by
  have hup : ∀ n, ∃ L, 1 ≤ L ∧ expFor L ≤ e ∧ (e < expFor (L + 1) ∨ L = n + 1) := by
    intro n
    induction n with
    | zero => exact ⟨1, Nat.le_refl 1, Nat.zero_le e, .inr rfl⟩
    | succ n ih =>
      obtain ⟨L, h1, hle, hlt | rfl⟩ := ih
      · exact ⟨L, h1, hle, .inl hlt⟩
      · by_cases h : e < expFor (n + 1 + 1)
        · exact ⟨n + 1, h1, hle, .inl h⟩
        · exact ⟨n + 2, by omega, not_lt.mp h, .inr rfl⟩
  obtain ⟨L, h1, hle, hlt⟩ := hup maxLevel
  refine ⟨L, (isLevel_iff he).mpr ?_⟩
  have hmax : L ≤ maxLevel := by
    by_contra hgt
    have := @expFor_le (maxLevel + 1) L (by omega) (by omega)
    rw [expFor_beyond] at this
    omega
  omega

theorem IsLevel.mono {e e' L L' : Nat} (he' : e' < 2 ^ 64) (hle : e ≤ e') (h : IsLevel e L) (h' : IsLevel e' L') : L ≤ L' := by
  obtain ⟨h1, -, hL, -⟩ := (isLevel_iff (hle.trans_lt he')).mp h
  obtain ⟨-, -, -, hlt⟩ := (isLevel_iff he').mp h'
  by_contra hgt
  have := @expFor_le (L' + 1) L (by omega) (by omega)
  omega

/-! ## The loops -/

variable {v : Vocation}

variable {st : Stats} {L : Nat}

theorem nextLevel_eq (h : st.level ≤ maxLevel) : st.nextLevel = st.level + 1 := by
  unfold maxLevel at h
  exact Nat.mod_eq_of_lt (by omega)

theorem up_level (h : st.level ≤ maxLevel) : (st.up v).level = st.level + 1 := nextLevel_eq h

@[simp] theorem down_level (st : Stats) : (st.down v).level = st.level - 1 := rfl

theorem gainLevels_eq {e : Nat} (he : e < 2 ^ 64) (hL : IsLevel e L) (n : Nat) (st : Stats) (h1 : 1 ≤ st.level)
    (hmax : st.level < maxLevel) (hn : st.level + n = L) :
    gainLevels v e st (getExpForLevel (st.level + 1)) = (Stats.up v)^[n] st := by
  obtain ⟨-, hLmax, hle, hlt⟩ := (isLevel_iff he).mp hL
  induction n generalizing st with
  | zero =>
    have hstop : e < getExpForLevel (st.level + 1) := by
      rw [getExpForLevel_of_le (by omega) (by omega)]
      rw [← hn] at hlt
      exact hlt
    rw [gainLevels, if_pos hstop]
    rfl
  | succ n ih =>
    have hgo : ¬e < getExpForLevel (st.level + 1) := by
      rw [getExpForLevel_of_le (by omega) (by omega)]
      have := @expFor_le (st.level + 1) L (by omega) (by omega)
      omega
    have hup : (st.up v).level = st.level + 1 := up_level (by omega)
    have hnext : (st.up v).nextLevel = (st.up v).level + 1 := nextLevel_eq (by omega)
    rw [gainLevels, if_neg hgo, iterate_succ_apply]
    rw [hnext]
    by_cases htop : (st.up v).level = maxLevel
    · have hbreak : getExpForLevel (st.level + 1) ≥ getExpForLevel ((st.up v).level + 1) := by
        rw [← hup]
        exact (top_iff (by omega) (by omega)).mpr htop
      have hzero : n = 0 := by omega
      rw [if_pos hbreak, hzero]
      rfl
    · have hbreak : ¬getExpForLevel (st.level + 1) ≥ getExpForLevel ((st.up v).level + 1) := by
        rw [← hup]
        exact fun h => htop ((top_iff (by omega) (by omega)).mp h)
      rw [if_neg hbreak]
      exact ih (st.up v) (by omega) (by omega) (by omega)

theorem loseLevels_eq {e : Nat} (he : e < 2 ^ 64) (hL : IsLevel e L) (n : Nat) (st : Stats)
    (hmax : st.level ≤ maxLevel) (hn : st.level = L + n) : loseLevels v e st = (Stats.down v)^[n] st := by
  obtain ⟨h1, -, hle, hlt⟩ := (isLevel_iff he).mp hL
  induction n generalizing st with
  | zero =>
    have hstop : ¬(1 < st.level ∧ e < getExpForLevel st.level) := by
      rw [getExpForLevel_of_le (by omega) hmax, hn, Nat.add_zero]
      omega
    rw [loseLevels, if_neg hstop]
    rfl
  | succ n ih =>
    have hgo : 1 < st.level ∧ e < getExpForLevel st.level := by
      rw [getExpForLevel_of_le (by omega) hmax]
      have := @expFor_le (L + 1) st.level (by omega) (by omega)
      omega
    rw [loseLevels, if_pos hgo, iterate_succ_apply]
    refine ih (st.down v) ?_ ?_
    · rw [down_level]
      omega
    · rw [down_level]
      omega

theorem iterate_up_level (n : Nat) (st : Stats) (h : st.level + n ≤ maxLevel + 1) :
    ((Stats.up v)^[n] st).level = st.level + n := by
  induction n with
  | zero => rfl
  | succ n ih =>
    have hn := ih (by omega)
    rw [Function.iterate_succ_apply', up_level (by omega), hn]
    rfl

theorem iterate_down_level (n : Nat) (st : Stats) : ((Stats.down v)^[n] st).level = st.level - n := by
  induction n with
  | zero => rfl
  | succ n ih =>
    rw [Function.iterate_succ_apply', down_level, ih]
    omega

/-! ## Steps -/

structure Stats.Typed (st : Stats) : Prop where
  healthMax_ge : -2 ^ 31 ≤ st.healthMax
  healthMax_lt : st.healthMax < 2 ^ 31
  manaMax_lt : st.manaMax < 2 ^ 32
  capacity_lt : st.capacity < 2 ^ 32

theorem Stats.Typed.up (v : Vocation) : (st.up v).Typed := by
  refine ⟨?_, ?_, Nat.mod_lt _ (by decide), Nat.mod_lt _ (by decide)⟩
  · show -2 ^ 31 ≤ int32 _
    unfold int32
    omega
  · show int32 _ < 2 ^ 31
    unfold int32
    omega

theorem Stats.Typed.down (v : Vocation) : (st.down v).Typed := by
  refine ⟨?_, ?_, ?_, ?_⟩
  · exact le_trans (by decide) (le_max_left 0 _)
  · show max 0 (int32 _) < 2 ^ 31
    unfold int32
    omega
  · show (max 0 (int32 _)).toNat < 2 ^ 32
    unfold int32
    omega
  · show (max 0 (int32 _)).toNat < 2 ^ 32
    unfold int32
    omega

theorem Stats.Typed.iterate {f : Stats → Stats} (hf : ∀ st, (f st).Typed) (h : st.Typed) (n : Nat) :
    (f^[n] st).Typed := by
  cases n with
  | zero => exact h
  | succ n =>
    rw [Function.iterate_succ_apply']
    exact hf _

structure Consistent (p : Player) : Prop where
  experience_lt : p.experience < 2 ^ 64
  isLevel : IsLevel p.experience p.level
  typed : p.toStats.Typed

/-- What a gain or a loss is to make of the experience: nothing is gained at the highest level. -/
def expected (experience : Nat) : Op → Nat
  | .addExperience exp script =>
    if experience ≥ getExpForLevel maxLevel then experience else experience + (script exp).toNat
  | .removeExperience exp script => if exp = 0 then experience else experience - min (script exp).toNat experience

/-- A gain stays below 2^64. A loss leaves less than 2^63, and where there is not so much to
    lose it is above what there is by 2^63 at most. -/
def Fits (p : Player) : Op → Prop
  | .addExperience exp script =>
    p.experience ≥ getExpForLevel maxLevel ∨ p.experience + (script exp).toNat < 2 ^ 64
  | .removeExperience exp script => p.experience = 0 ∨ exp = 0 ∨ script exp = 0 ∨
      if (script exp).toNat ≤ p.experience then p.experience - (script exp).toNat < 2 ^ 63
      else (script exp).toNat - p.experience ≤ 2 ^ 63

variable {p : Player} {exp : UInt64} {script : UInt64 → UInt64}

theorem top_of_isLevel {e : Nat} (he : e < 2 ^ 64) (h : IsLevel e L) : e ≥ getExpForLevel maxLevel ↔ L = maxLevel := by
  constructor
  · intro htop
    exact h.unique he ⟨by decide, le_rfl, htop, .inl rfl⟩
  · rintro rfl
    exact h.2.2.1

theorem addExperience_top (hl : p.level = maxLevel) (exp : UInt64) (script : UInt64 → UInt64) :
    addExperience v p exp script = p := by
  have hnext : p.nextLevel = p.level + 1 := nextLevel_eq hl.le
  have htop : getExpForLevel p.level ≥ getExpForLevel p.nextLevel := by
    rw [hnext]
    exact (top_iff (hl ▸ by decide) hl.le).mpr hl
  unfold addExperience
  rw [if_pos htop]

theorem addExperience_below (h : Consistent p) (hl : p.level ≠ maxLevel)
    (hlt : p.experience + (script exp).toNat < 2 ^ 64) (hL : IsLevel (p.experience + (script exp).toNat) L) :
    addExperience v p exp script =
      { (Stats.up v)^[L - p.level] p.toStats with experience := p.experience + (script exp).toNat } := by
  have hbelow : p.level < maxLevel := Nat.lt_of_le_of_ne h.isLevel.2.1 hl
  have hnext : p.nextLevel = p.level + 1 := nextLevel_eq hbelow.le
  have htop : ¬getExpForLevel p.level ≥ getExpForLevel p.nextLevel := by
    rw [hnext]
    exact fun hge => hl ((top_iff h.isLevel.1 hbelow.le).mp hge)
  have hle : p.level ≤ L := h.isLevel.mono hlt (Nat.le_add_right _ _) hL
  unfold addExperience
  rw [if_neg htop]
  by_cases hzero : script exp = 0
  · rw [hzero, UInt64.toNat_zero, Nat.add_zero] at hL ⊢
    rw [if_pos rfl, hL.unique h.experience_lt h.isLevel, Nat.sub_self]
    rfl
  · rw [if_neg hzero]
    dsimp only
    rw [Nat.mod_eq_of_lt hlt, hnext, gainLevels_eq hlt hL (L - p.level) p.toStats h.isLevel.1 hbelow (by omega)]

theorem addExperience_experience (h : Consistent p) (hl : p.level ≠ maxLevel) :
    (addExperience v p exp script).experience = (p.experience + (script exp).toNat) % 2 ^ 64 := by
  have hnext : p.nextLevel = p.level + 1 := nextLevel_eq h.isLevel.2.1
  have htop : ¬getExpForLevel p.level ≥ getExpForLevel p.nextLevel := by
    rw [hnext]
    exact fun hge => hl ((top_iff h.isLevel.1 h.isLevel.2.1).mp hge)
  unfold addExperience
  rw [if_neg htop]
  by_cases hzero : script exp = 0
  · rw [hzero, if_pos rfl]
    exact (Nat.mod_eq_of_lt h.experience_lt).symm
  · rw [if_neg hzero]

/-- The clamp of a loss takes a number of 63 bits for a negative one. -/
theorem removed_iff {e x : Nat} (he : e < 2 ^ 64) (hx : x < 2 ^ 64) : (max 0 (int64 (e - x))).toNat = e - min x e ↔
    if x ≤ e then e - x < 2 ^ 63 else x - e ≤ 2 ^ 63 := by
  unfold int64
  split
  · next hle =>
    rw [Nat.min_eq_left hle]
    omega
  · next hgt =>
    omega

theorem removeExperience_none (h : p.experience = 0 ∨ exp = 0 ∨ script exp = 0) :
    removeExperience v p exp script = p := by
  unfold removeExperience
  by_cases hfirst : p.experience = 0 ∨ exp = 0
  · rw [if_pos hfirst]
  · have hscript : script exp = 0 := by tauto
    rw [if_neg hfirst, if_pos hscript]

theorem removeExperience_some (h : ¬(p.experience = 0 ∨ exp = 0 ∨ script exp = 0)) : removeExperience v p exp script =
      { loseLevels v (max 0 (int64 (p.experience - (script exp).toNat))).toNat p.toStats with
        experience := (max 0 (int64 (p.experience - (script exp).toNat))).toNat } := by
  unfold removeExperience
  rw [if_neg (by tauto), if_neg (by tauto)]

theorem removeExperience_fits (h : Consistent p) (hsome : ¬(p.experience = 0 ∨ exp = 0 ∨ script exp = 0))
    (hfits : Fits p (.removeExperience exp script))
    (hL : IsLevel (p.experience - min (script exp).toNat p.experience) L) : removeExperience v p exp script =
      { (Stats.down v)^[p.level - L] p.toStats with experience := p.experience - min (script exp).toNat p.experience } := by
  have hexact := (removed_iff h.experience_lt (UInt64.toNat_lt (script exp))).mpr (by unfold Fits at hfits; tauto)
  have hlt : p.experience - min (script exp).toNat p.experience < 2 ^ 64 := (Nat.sub_le _ _).trans_lt h.experience_lt
  have hle : L ≤ p.level := hL.mono h.experience_lt (Nat.sub_le _ _) h.isLevel
  rw [removeExperience_some hsome, hexact, loseLevels_eq hlt hL (p.level - L) p.toStats h.isLevel.2.1 (by omega)]

theorem step_right (h : Consistent p) {op : Op} (hfits : Fits p op) :
    (step v p op).experience = expected p.experience op ∧ Consistent (step v p op) := by
  cases op with
  | addExperience exp script =>
    show (addExperience v p exp script).experience = expected p.experience (.addExperience exp script) ∧
      Consistent (addExperience v p exp script)
    dsimp only [expected]
    by_cases htop : p.level = maxLevel
    · rw [addExperience_top htop, if_pos ((top_of_isLevel h.experience_lt h.isLevel).mpr htop)]
      exact ⟨rfl, h⟩
    have hbelow : ¬p.experience ≥ getExpForLevel maxLevel := fun hge => htop ((top_of_isLevel h.experience_lt h.isLevel).mp hge)
    have hlt := hfits.resolve_left hbelow
    obtain ⟨L, hL⟩ := exists_isLevel hlt
    have hle : p.level ≤ L := h.isLevel.mono hlt (Nat.le_add_right _ _) hL
    rw [addExperience_below h htop hlt hL, if_neg hbelow]
    refine ⟨rfl, hlt, ?_, h.typed.iterate (fun _ => .up v) _⟩
    have hmax := hL.2.1
    rw [iterate_up_level _ _ (by omega), Nat.add_sub_cancel' hle]
    exact hL
  | removeExperience exp script =>
    show (removeExperience v p exp script).experience = expected p.experience (.removeExperience exp script) ∧
      Consistent (removeExperience v p exp script)
    dsimp only [expected]
    by_cases hnone : p.experience = 0 ∨ exp = 0 ∨ script exp = 0
    · rw [removeExperience_none hnone]
      refine ⟨?_, h⟩
      split
      · rfl
      next hexp =>
      obtain h0 | h0 | h0 := hnone
      · simp [h0]
      · exact absurd h0 hexp
      · simp [h0]
    · have hlt : p.experience - min (script exp).toNat p.experience < 2 ^ 64 := (Nat.sub_le _ _).trans_lt h.experience_lt
      obtain ⟨L, hL⟩ := exists_isLevel hlt
      have hle : L ≤ p.level := hL.mono h.experience_lt (Nat.sub_le _ _) h.isLevel
      rw [removeExperience_fits h hnone hfits hL, if_neg (by tauto)]
      refine ⟨rfl, hlt, ?_, h.typed.iterate (fun _ => .down v) _⟩
      rw [iterate_down_level, Nat.sub_sub_self hle]
      exact hL

theorem fits_of_right (h : Consistent p) {op : Op} (hright : (step v p op).experience = expected p.experience op) :
    Fits p op := by
  cases op with
  | addExperience exp script =>
    by_cases htop : p.experience ≥ getExpForLevel maxLevel
    · exact .inl htop
    have hlevel : p.level ≠ maxLevel := fun hl => htop ((top_of_isLevel h.experience_lt h.isLevel).mpr hl)
    change (addExperience v p exp script).experience = if p.experience ≥ getExpForLevel maxLevel then _ else _ at hright
    rw [addExperience_experience h hlevel, if_neg htop] at hright
    refine .inr ?_
    omega
  | removeExperience exp script =>
    by_cases hnone : p.experience = 0 ∨ exp = 0 ∨ script exp = 0
    · tauto
    refine .inr (.inr (.inr ?_))
    have hexp : exp ≠ 0 := by tauto
    change (removeExperience v p exp script).experience = if exp = 0 then _ else _ at hright
    rw [removeExperience_some hnone, if_neg hexp] at hright
    exact (removed_iff h.experience_lt (UInt64.toNat_lt _)).mp hright

/-! ## Losing and gaining again -/

/-- None of the `n` levels lost takes more than there is. -/
def Unclamped (v : Vocation) (n : Nat) (st : Stats) : Prop :=
  ∀ k < n, let s := (Stats.down v)^[k] st
    0 ≤ int32 (s.healthMax - v.gainHP) ∧ 0 ≤ int32 (s.manaMax - v.gainMana) ∧ 0 ≤ int32 (s.capacity - v.gainCap)

theorem up_down (h : st.Typed) (h1 : 1 ≤ st.level) (hmax : st.level ≤ maxLevel)
    (hc : 0 ≤ int32 (st.healthMax - v.gainHP) ∧ 0 ≤ int32 (st.manaMax - v.gainMana) ∧ 0 ≤ int32 (st.capacity - v.gainCap)) :
    (st.down v).up v = st := by
  obtain ⟨hhp, hmana, hcap⟩ := hc
  obtain ⟨hge, hlt, hm, hp⟩ := h
  have hword : ∀ {c g : Nat}, c < 2 ^ 32 → 0 ≤ int32 (c - g) → ((max 0 (int32 (c - g))).toNat + g) % 2 ^ 32 = c := by
    intro c g hc h0
    unfold int32 at h0 ⊢
    omega
  have hlevel : ((st.down v).up v).level = st.level := by
    rw [up_level (by rw [down_level]; omega), down_level]
    omega
  have hhealth : int32 (max 0 (int32 (st.healthMax - v.gainHP)) + v.gainHP) = st.healthMax := by
    rw [max_eq_right hhp]
    unfold int32 at hhp ⊢
    omega
  cases st with
  | mk level healthMax manaMax capacity =>
    exact Stats.mk.injEq _ _ _ _ _ _ _ _ |>.mpr ⟨hlevel, hhealth, hword hm hmana, hword hp hcap⟩

theorem iterate_up_down (n : Nat) (h : st.Typed) (h1 : n < st.level) (hmax : st.level ≤ maxLevel)
    (hc : Unclamped v n st) : (Stats.up v)^[n] ((Stats.down v)^[n] st) = st := by
  induction n with
  | zero => rfl
  | succ n ih =>
    have hlevel := @iterate_down_level v n st
    rw [iterate_succ_apply, Function.iterate_succ_apply',
      up_down (h.iterate (f := Stats.down v) (fun _ => .down v) n) (by omega) (by omega) (hc n (Nat.lt_succ_self n))]
    exact ih (by omega) fun k hk => hc k (by omega)

/-- What is lost and gained again restores the player, where nothing was clamped. -/
theorem regain (h : Consistent p) (hfits : Fits p (.removeExperience exp script))
    (hc : Unclamped v (p.level - (removeExperience v p exp script).level) p.toStats) :
    (addExperience v (removeExperience v p exp script)
      (UInt64.ofNat (p.experience - (removeExperience v p exp script).experience)) id).toStats = p.toStats := by
  have hexact := (step_right (v := v) h hfits).1
  have hq : Consistent (removeExperience v p exp script) := (step_right h hfits).2
  change (removeExperience v p exp script).experience = expected p.experience (.removeExperience exp script) at hexact
  have hle : (removeExperience v p exp script).experience ≤ p.experience := by
    rw [hexact]
    dsimp only [expected]
    split <;> omega
  have hdown : (removeExperience v p exp script).toStats =
      (Stats.down v)^[p.level - (removeExperience v p exp script).level] p.toStats := by
    by_cases hnone : p.experience = 0 ∨ exp = 0 ∨ script exp = 0
    · rw [removeExperience_none hnone, Nat.sub_self]
      rfl
    have hlt : p.experience - min (script exp).toNat p.experience < 2 ^ 64 := (Nat.sub_le _ _).trans_lt h.experience_lt
    obtain ⟨L, hL⟩ := exists_isLevel hlt
    have heq := removeExperience_fits (v := v) h hnone hfits hL
    have hlevel : (removeExperience v p exp script).level = L := by
      rw [heq]
      rw [iterate_down_level, Nat.sub_sub_self (hL.mono h.experience_lt (Nat.sub_le _ _) h.isLevel)]
    rw [hlevel, heq]
  generalize removeExperience v p exp script = q at hq hle hdown hc
  have hlevels : q.level ≤ p.level := hq.isLevel.mono h.experience_lt hle h.isLevel
  by_cases htop : q.level = maxLevel
  · have hmax := h.isLevel.2.1
    rw [addExperience_top htop, hdown, show p.level - q.level = 0 by omega]
    rfl
  have hlost : q.experience + (id (UInt64.ofNat (p.experience - q.experience)) : UInt64).toNat = p.experience := by
    have hlt := h.experience_lt
    rw [id, UInt64.toNat_ofNat', Nat.mod_eq_of_lt (by omega)]
    omega
  rw [addExperience_below hq htop (by rw [hlost]; exact h.experience_lt) (by rw [hlost]; exact h.isLevel)]
  have h1 := hq.isLevel.1
  exact (congrArg _ hdown).trans (iterate_up_down _ h.typed (by omega) h.isLevel.2.1 hc)

/-! ## Runs -/

def Right (p : Player) (experience : Nat) : Prop :=
  p.experience = experience ∧ IsLevel experience p.level ∧ ∀ L, IsLevel experience L → L = p.level

theorem Consistent.right (h : Consistent p) : Right p p.experience :=
  ⟨rfl, h.isLevel, fun _ hL => hL.unique h.experience_lt h.isLevel⟩

/-- Experience and level are right all along a run exactly when every step fits, and in such a
    run what is lost and gained again restores level, health, mana and capacity where nothing is
    clamped. -/
theorem experience_consistent (v : Vocation) (p : Player) (h : Consistent p) (ops : List Op) :
    ((∀ k ≤ ops.length, Right (run (step v) p (ops.take k)) (run expected p.experience (ops.take k))) ↔
      Allowed (step v) Fits p ops) ∧
    (Allowed (step v) Fits p ops → ∀ exp script, Fits (run (step v) p ops) (.removeExperience exp script) →
      let q := run (step v) p ops
      let lost := removeExperience v q exp script
      Unclamped v (q.level - lost.level) q.toStats →
        (addExperience v lost (UInt64.ofNat (q.experience - lost.experience)) id).toStats = q.toStats) := by
  -- the player beside the experience it is to have
  let both : Player × Nat → Op → Player × Nat := fun s op => (step v s.1 op, expected s.2 op)
  have hrun : ∀ ops (s : Player × Nat), run both s ops = (run (step v) s.1 ops, run expected s.2 ops) := by
    intro ops
    induction ops with
    | nil => exact fun _ => rfl
    | cons op ops ih => exact fun s => ih (both s op)
  have hallowed : ∀ ops (s : Player × Nat), Allowed both (fun s => Fits s.1) s ops ↔ Allowed (step v) Fits s.1 ops := by
    intro ops
    induction ops with
    | nil => exact fun _ => Iff.rfl
    | cons op ops ih => exact fun s => and_congr_right fun _ => ih (both s op)
  constructor
  · have hkept : ∀ (s : Player × Nat) op, Fits s.1 op → Consistent s.1 ∧ s.1.experience = s.2 →
        Consistent (both s op).1 ∧ (both s op).1.experience = (both s op).2 := by
      intro s op hok hs
      obtain ⟨hexperience, hconsistent⟩ := step_right (v := v) hs.1 hok
      rw [hs.2] at hexperience
      exact ⟨hconsistent, hexperience⟩
    have hneeded : ∀ (s : Player × Nat) op, Consistent s.1 ∧ s.1.experience = s.2 →
        Right (both s op).1 (both s op).2 → Fits s.1 op := by
      intro s op hs hP
      refine fits_of_right (v := v) hs.1 ?_
      rw [hs.2]
      exact hP.1
    have hiff := along_iff_allowed (fun (s : Player × Nat) hs => hs.2 ▸ hs.1.right) hkept hneeded (s := (p, p.experience))
      ⟨h, rfl⟩ ops
    simpa only [hrun, hallowed] using hiff
  · intro hops exp script hfits
    have hreach : Reach (Eq p) (step v) Fits (run (step v) p ops) := Reach.run (Reach.init rfl) hops
    have hq : Consistent (run (step v) p ops) :=
      hreach.inv (fun s hs => hs ▸ h) fun s op hok hs => (step_right hs hok).2
    exact fun hc => regain hq hfits hc

def knight : Vocation := ⟨15, 5, 2500⟩

def novice : Player := { level := 2, healthMax := 155, manaMax := 60, capacity := 41000, experience := 100 }

theorem novice_consistent : Consistent novice :=
  ⟨by decide, ⟨by decide, by decide, by decide, .inr (by decide)⟩, by decide, by decide, by decide, by decide⟩

theorem novice_gains : Right (run (step knight) novice [.addExperience 150 id]) (run expected 100 [.addExperience 150 id]) :=
  (experience_consistent knight novice novice_consistent [.addExperience 150 id]).1.mpr ⟨.inr (by decide), trivial⟩ 1
    (Nat.le_refl 1)

/-- A gain of 2^64 - 1 leaves the novice with 99. -/
theorem gain_past_the_end : ¬∀ (v : Vocation) (p : Player), Consistent p → ∀ ops : List Op, ∀ k ≤ ops.length,
    Right (run (step v) p (ops.take k)) (run expected p.experience (ops.take k)) := by
  intro h
  have hright := (h knight novice novice_consistent [.addExperience 18446744073709551615 id] 1 (Nat.le_refl 1)).1
  have hgain : (addExperience knight novice 18446744073709551615 id).experience = 99 :=
    addExperience_experience novice_consistent (by decide)
  have hexpected : run expected novice.experience [.addExperience 18446744073709551615 id] = 18446744073709551715 := by
    decide
  exact absurd (hgain.symm.trans (hright.trans hexpected)) (by decide)

end Backlands.Players.Experience
