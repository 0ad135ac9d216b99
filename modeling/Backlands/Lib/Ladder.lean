/-
  Backlands.Lib.Ladder — places on a ladder whose rungs lie apart as they like.

  From rung `n` the next is `req (n + 1)` higher; `base` is the lowest rung and `top` the
  highest. A place is a rung and what is climbed beyond it, which is less than to the next
  rung unless it is the top.

  Proved: a height has one place (`Place.unique`), which `levelOf` finds (`place_levelOf`).
-/

import Mathlib.Data.Nat.Find
import Mathlib.Order.Basic

namespace Backlands.Lib.Ladder

variable (req : Nat → Nat) (base top : Nat)

/-- How high a rung lies above the lowest. -/
def height : Nat → Nat
  | 0 => 0
  | n + 1 => if n < base then 0 else height n + req (n + 1)

/-- What is climbed beyond a rung. -/
structure Place (n t : Nat) : Prop where
  base_le : base ≤ n
  le_top : n ≤ top
  lt_next : n < top → t < req (n + 1)

/-- The highest rung that is not above `h`. -/
def levelOf (h : Nat) : Nat := Nat.findGreatest (fun n => base ≤ n ∧ height req base n ≤ h) top

/-- What `h` is beyond its rung. -/
def restOf (h : Nat) : Nat := h - height req base (levelOf req base top h)

variable {req base top} {n t n' t' h : Nat}

@[simp] theorem height_base : height req base base = 0 := by
  cases base with
  | zero => rfl
  | succ b => exact if_pos (Nat.lt_succ_self b)

theorem height_succ (req : Nat → Nat) (hn : base ≤ n) : height req base (n + 1) = height req base n + req (n + 1) :=
  if_neg (Nat.not_lt.mpr hn)

theorem height_mono (req : Nat → Nat) (hb : base ≤ n) (h : n ≤ n') : height req base n ≤ height req base n' := by
  induction n' with
  | zero => rw [Nat.le_zero.mp h]
  | succ m ih =>
    obtain h | rfl := Nat.le_succ_iff.mp h
    · rw [height_succ _ (hb.trans h)]
      exact (ih h).trans (Nat.le_add_right _ _)
    · exact le_rfl

theorem Place.lt_height (p : Place req base top n t) (h : n < n') (hn' : n' ≤ top) :
    height req base n + t < height req base n' := by
  have hnext := p.lt_next (h.trans_le hn')
  have hmono := height_mono req (p.base_le.trans (Nat.le_succ n)) h
  rw [height_succ _ p.base_le] at hmono
  omega

theorem Place.unique (p : Place req base top n t) (p' : Place req base top n' t')
    (h : height req base n + t = height req base n' + t') : n = n' ∧ t = t' := by
  obtain hlt | rfl | hgt := Nat.lt_trichotomy n n'
  · have := p.lt_height hlt p'.le_top
    omega
  · exact ⟨rfl, by omega⟩
  · have := p'.lt_height hgt p.le_top
    omega

theorem place_levelOf (req : Nat → Nat) (hbase : base ≤ top) (h : Nat) :
    Place req base top (levelOf req base top h) (restOf req base top h) ∧
      height req base (levelOf req base top h) + restOf req base top h = h := by
  have hspec : base ≤ levelOf req base top h ∧ height req base (levelOf req base top h) ≤ h :=
    Nat.findGreatest_spec (P := fun n => base ≤ n ∧ height req base n ≤ h) hbase ⟨le_rfl, by simp⟩
  refine ⟨⟨hspec.1, Nat.findGreatest_le top, fun hlt => ?_⟩, Nat.add_sub_cancel' hspec.2⟩
  have hno := Nat.findGreatest_is_greatest (P := fun n => base ≤ n ∧ height req base n ≤ h)
    (Nat.lt_succ_self (levelOf req base top h)) hlt
  rw [height_succ _ hspec.1] at hno
  unfold restOf
  by_contra hge
  exact hno ⟨by omega, by omega⟩

theorem Place.levelOf_eq (p : Place req base top n t) :
    levelOf req base top (height req base n + t) = n ∧ restOf req base top (height req base n + t) = t := by
  obtain ⟨hplace, hheight⟩ := place_levelOf req (p.base_le.trans p.le_top) (height req base n + t)
  exact hplace.unique p hheight

end Backlands.Lib.Ladder
