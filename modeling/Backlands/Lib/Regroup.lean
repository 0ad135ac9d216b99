/-
  Backlands.Lib.Regroup — a stream of bits, the most significant first, cut into groups.

  Proved: a group is the number of the whole stream, shifted and cut (`ofBits_group`), so that
  a few more bits complete one more group or none (`groups_append`).
-/

import Mathlib.Data.List.Basic
import Mathlib.Tactic.Ring

namespace Backlands.Lib.Regroup

open List

/-- The low `w` bits of `n`. -/
def bits : Nat → Nat → List Bool
  | 0, _ => []
  | w + 1, n => n.testBit w :: bits w n

def ofBits (l : List Bool) : Nat := l.foldl (fun n b => 2 * n + b.toNat) 0

/-- The whole groups of `w` bits; what is left over is dropped. -/
def groups (w : Nat) (l : List Bool) : List Nat :=
  (List.range (l.length / w)).map fun i => ofBits ((l.drop (i * w)).take w)

variable {w n a : Nat} {l l' : List Bool}

@[simp] theorem length_bits (w n : Nat) : (bits w n).length = w := by
  induction w with
  | zero => rfl
  | succ w ih => rw [bits, length_cons, ih]

theorem ofBits_append (l l' : List Bool) : ofBits (l ++ l') = ofBits l * 2 ^ l'.length + ofBits l' := by
  have hfold : ∀ (l' : List Bool) m, l'.foldl (fun n b => 2 * n + b.toNat) m = m * 2 ^ l'.length + ofBits l' := by
    intro l'
    induction l' with
    | nil => simp [ofBits]
    | cons b l' ih =>
      intro m
      unfold ofBits
      rw [foldl_cons, foldl_cons, ih, ih (2 * 0 + b.toNat), length_cons]
      ring
  rw [ofBits, foldl_append, hfold]
  rfl

theorem ofBits_lt (l : List Bool) : ofBits l < 2 ^ l.length := by
  induction l with
  | nil => decide
  | cons b l ih =>
    have hcons := ofBits_append [b] l
    have hb : ofBits [b] ≤ 1 := by cases b <;> decide
    have hle := Nat.mul_le_mul_right (2 ^ l.length) hb
    rw [singleton_append] at hcons
    rw [length_cons, Nat.pow_succ]
    omega

theorem ofBits_bits (h : n < 2 ^ w) : ofBits (bits w n) = n := by
  have hmod : ∀ w, ofBits (bits w n) = n % 2 ^ w := by
    intro w
    induction w with
    | zero => simp [bits, ofBits, Nat.mod_one]
    | succ w ih =>
      have hcons := ofBits_append [n.testBit w] (bits w n)
      have hone : ofBits [n.testBit w] = (n.testBit w).toNat := Nat.zero_add _
      rw [singleton_append, length_bits, hone, ih] at hcons
      rw [bits, hcons, Nat.mod_pow_succ, Nat.toNat_testBit, Nat.mul_comm, Nat.add_comm]
  rw [hmod, Nat.mod_eq_of_lt h]

theorem ofBits_group (h : a + w ≤ l.length) :
    ofBits ((l.drop a).take w) = ofBits l / 2 ^ (l.length - (a + w)) % 2 ^ w := by
  have hgroup : ((l.drop a).take w).length = w := by
    rw [length_take, length_drop]
    omega
  have hsplit : ofBits l = (ofBits (l.take a) * 2 ^ w + ofBits ((l.drop a).take w)) * 2 ^ (l.length - (a + w)) +
      ofBits (l.drop (a + w)) := by
    calc ofBits l = ofBits ((l.take a ++ (l.drop a).take w) ++ l.drop (a + w)) := by
          rw [append_assoc, ← drop_drop, take_append_drop, take_append_drop]
      _ = _ := by rw [ofBits_append, ofBits_append, hgroup, length_drop]
  have hrest := ofBits_lt (l.drop (a + w))
  have hlt := ofBits_lt ((l.drop a).take w)
  rw [length_drop] at hrest
  rw [hgroup] at hlt
  rw [hsplit, Nat.add_comm, Nat.add_mul_div_right _ _ (Nat.two_pow_pos _), Nat.div_eq_of_lt hrest, Nat.zero_add,
    Nat.mul_add_mod_self_right, Nat.mod_eq_of_lt hlt]

theorem groups_append (h : l'.length < w) : groups w (l ++ l') = groups w l ++
    if l.length % w + l'.length < w then []
    else [ofBits (l ++ l') / 2 ^ (l.length % w + l'.length - w) % 2 ^ w] := by
  have hw : 0 < w := Nat.zero_lt_of_lt h
  have hlength := Nat.div_add_mod' l.length w
  have hmod := Nat.mod_lt l.length hw
  have hold : (List.range (l.length / w)).map (fun i => ofBits (((l ++ l').drop (i * w)).take w)) = groups w l := by
    refine map_congr_left fun i hi => ?_
    have hle := Nat.mul_le_mul_right w (mem_range.mp hi)
    rw [Nat.succ_mul] at hle
    rw [drop_append_of_le_length (by omega), take_append_of_le_length (by rw [length_drop]; omega)]
  have hsum : (l ++ l').length = l.length % w + l'.length + l.length / w * w := by
    rw [length_append]
    omega
  unfold groups at hold ⊢
  rw [hsum, Nat.add_mul_div_right _ _ hw]
  split
  · next hfew => rw [Nat.div_eq_of_lt hfew, Nat.zero_add, append_nil, hold]
  next hmany =>
  have hone : (l.length % w + l'.length) / w = 1 := Nat.div_eq_of_lt_le (by omega) (by omega)
  have hgroup := ofBits_group (l := l ++ l') (a := l.length / w * w) (w := w) (by rw [hsum]; omega)
  have hback : l.length % w + l'.length + l.length / w * w - (l.length / w * w + w) = l.length % w + l'.length - w := by omega
  rw [hsum, hback] at hgroup
  rw [hone, Nat.add_comm 1, range_succ, map_append, hold, map_singleton, hgroup]

end Backlands.Lib.Regroup
