/-
  Backlands.Lib.Bits — flags in a word: whether one of a mask's bits is set, after bits are
  set and cleared.
-/

import Mathlib.Data.BitVec

namespace Backlands.Lib

variable {w : Nat}

/-- One of the bits of `flag` is set in `flags`. -/
def hasBitSet (flag flags : BitVec w) : Bool := flags &&& flag ≠ 0

theorem hasBitSet_or (m f g : BitVec w) : hasBitSet m (f ||| g) = (hasBitSet m f || hasBitSet m g) := by
  simp [hasBitSet, BitVec.and_or_distrib_right, BitVec.or_eq_zero_iff, imp_iff_not_or]

theorem hasBitSet_ite_or (c : Prop) [Decidable c] (m f g : BitVec w) :
    hasBitSet m (if c then f ||| g else f) = (hasBitSet m f || (decide c && hasBitSet m g)) := by
  split
  · next h => simp [hasBitSet_or, h]
  · next h => simp [h]

theorem hasBitSet_clear_of_disjoint {m g : BitVec w} (h : g &&& m = 0) (f : BitVec w) :
    hasBitSet m (f &&& ~~~g) = hasBitSet m f := by
  have hrest : ~~~g &&& m = m := by
    ext i hi
    have hbit := congrArg (fun v : BitVec w => v[i]) h
    simp only [BitVec.getElem_and, BitVec.getElem_not, BitVec.ofNat_eq_ofNat, BitVec.getElem_zero] at hbit ⊢
    cases hg : g[i] with
    | true => simpa [hg] using hbit
    | false => simp
  simp [hasBitSet, BitVec.and_assoc, hrest]

theorem hasBitSet_clear_self (m f : BitVec w) : hasBitSet m (f &&& ~~~m) = false := by
  simp [hasBitSet, BitVec.and_assoc]

end Backlands.Lib
