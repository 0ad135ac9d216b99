/-
  Backlands.Lib.Heap — the order of a binary heap with the least value at the root.

  `v` is the value in each of the first `size` places. `Hole` is what is left of the order
  while the value of one place is open; it moves up (`Hole.up`) and down (`Hole.down`) with the
  value of a neighbour put in its place.

  Proved: a value that is not below that of the parent nor above those of the children fills
  the hole (`Hole.fill`); and the root has the least value (`Ordered.root_le`).
-/

import Mathlib.Order.Defs.PartialOrder
import Mathlib.Logic.Function.Basic
import Mathlib.Tactic.Common

namespace Backlands.Lib.Heap

open Function

variable {β : Type*} [Preorder β] {v w : Nat → β} {size pos : Nat} {f : β}

def parent (i : Nat) : Nat := (i - 1) / 2

theorem parent_lt {i : Nat} (h : 0 < i) : parent i < i := by
  unfold parent
  omega

/-- No value is below that of its parent. -/
def Ordered (v : Nat → β) (size : Nat) : Prop := ∀ i < size, 0 < i → v (parent i) ≤ v i

/-- The order, but for the value in place `pos`. -/
structure Hole (v : Nat → β) (size pos : Nat) : Prop where
  away : ∀ i < size, 0 < i → i ≠ pos → parent i ≠ pos → v (parent i) ≤ v i
  across : ∀ i < size, 0 < i → parent i = pos → 0 < pos → v (parent pos) ≤ v i

/-- The value is not above those of the children of `pos`. -/
def BelowChildren (v : Nat → β) (size pos : Nat) (f : β) : Prop := ∀ i < size, 0 < i → parent i = pos → f ≤ v i

/-- The value is not below that of the parent of `pos`. -/
def AboveParent (v : Nat → β) (pos : Nat) (f : β) : Prop := 0 < pos → v (parent pos) ≤ f

namespace Ordered

theorem congr (h : Ordered v size) (hw : ∀ i < size, w i = v i) : Ordered w size := by
  intro i hi hpos
  rw [hw i hi, hw (parent i) (Nat.lt_trans (parent_lt hpos) hi)]
  exact h i hi hpos

theorem mono (h : Ordered v size) {size' : Nat} (hle : size' ≤ size) : Ordered v size' :=
  fun i hi => h i (Nat.lt_of_lt_of_le hi hle)

theorem hole (h : Ordered v size) (hpos : pos < size) : Hole v size pos where
  away i hi hpos _ _ := h i hi hpos
  across i hi hpos' he hp := le_trans (h pos hpos hp) (he ▸ h i hi hpos')

theorem belowChildren (h : Ordered v size) (hf : f ≤ v pos) : BelowChildren v size pos f := by
  rintro i hi hpos rfl
  exact le_trans hf (h i hi hpos)

theorem push (h : Ordered v size) (f : β) : Hole v (size + 1) size ∧ BelowChildren v (size + 1) size f := by
  have hno : ∀ i < size + 1, 0 < i → parent i ≠ size := by
    intro i hi hpos he
    have := parent_lt hpos
    omega
  refine ⟨⟨?_, ?_⟩, ?_⟩
  · intro i hi hpos hne _
    exact h i (by omega) hpos
  · intro i hi hpos he
    exact absurd he (hno i hi hpos)
  · intro i hi hpos he
    exact absurd he (hno i hi hpos)

theorem root_le (h : Ordered v size) {i : Nat} (hi : i < size) : v 0 ≤ v i := by
  induction i using Nat.strongRecOn with
  | ind i ih =>
    by_cases h0 : i = 0
    · rw [h0]
    · have hpos : 0 < i := Nat.pos_of_ne_zero h0
      exact le_trans (ih (parent i) (parent_lt hpos) (Nat.lt_trans (parent_lt hpos) hi)) (h i hi hpos)

end Ordered

namespace Hole

theorem congr (h : Hole v size pos) (hw : ∀ i < size, i ≠ pos → w i = v i) : Hole w size pos where
  away i hi hpos hne hpne := by
    rw [hw i hi hne, hw (parent i) (Nat.lt_trans (parent_lt hpos) hi) hpne]
    exact h.away i hi hpos hne hpne
  across i hi hpos he hp := by
    have hlt : parent i < i := parent_lt hpos
    have hpp : parent pos < pos := parent_lt hp
    rw [hw i hi (by omega), hw (parent pos) (by omega) (by omega)]
    exact h.across i hi hpos he hp

theorem fill (h : Hole v size pos) (hchildren : BelowChildren v size pos f) (hparent : AboveParent v pos f) :
    Ordered (update v pos f) size := by
  intro i hi hpos
  have hlt : parent i < i := parent_lt hpos
  by_cases hip : i = pos
  · subst hip
    rw [update_self, update_of_ne (Nat.ne_of_lt hlt)]
    exact hparent hpos
  rw [update_of_ne hip]
  by_cases hpp : parent i = pos
  · rw [hpp, update_self]
    exact hchildren i hi hpos hpp
  · rw [update_of_ne hpp]
    exact h.away i hi hpos hip hpp

theorem up (h : Hole v size pos) (h0 : 0 < pos) (hsize : pos < size) (hf : f ≤ v (parent pos)) :
    Hole (update v pos (v (parent pos))) size (parent pos) ∧
      BelowChildren (update v pos (v (parent pos))) size (parent pos) f := by
  have hlt := parent_lt h0
  refine ⟨⟨?_, ?_⟩, ?_⟩
  · intro i hi hpos hne hpne
    have hip : i ≠ pos := by
      rintro rfl
      exact hpne rfl
    rw [update_of_ne hip]
    by_cases hpp : parent i = pos
    · rw [hpp, update_self]
      exact h.across i hi hpos hpp h0
    · rw [update_of_ne hpp]
      exact h.away i hi hpos hip hpp
  · intro i hi hpos he hp
    have hpp := parent_lt hp
    have hgrand : v (parent (parent pos)) ≤ v (parent pos) := h.away _ (by omega) hp (by omega) (by omega)
    rw [update_of_ne (by omega)]
    by_cases hip : i = pos
    · rw [hip, update_self]
      exact hgrand
    rw [update_of_ne hip]
    have hsibling := h.away i hi hpos hip (by omega)
    rw [he] at hsibling
    exact le_trans hgrand hsibling
  · intro i hi hpos he
    by_cases hip : i = pos
    · rw [hip, update_self]
      exact hf
    rw [update_of_ne hip]
    have hsibling := h.away i hi hpos hip (by omega)
    rw [he] at hsibling
    exact le_trans hf hsibling

theorem down (h : Hole v size pos) {child : Nat} (hchild : child < size) (h0 : 0 < child) (hp : parent child = pos)
    (hleast : ∀ i < size, 0 < i → parent i = pos → v child ≤ v i) :
    Hole (update v pos (v child)) size child := by
  have hlt := parent_lt h0
  constructor
  · intro i hi hpos hne hpne
    by_cases hip : i = pos
    · subst hip
      have hpp := parent_lt hpos
      rw [update_self, update_of_ne (by omega)]
      exact h.across child hchild h0 hp hpos
    · rw [update_of_ne hip]
      by_cases hpp : parent i = pos
      · rw [hpp, update_self]
        exact hleast i hi hpos hpp
      · rw [update_of_ne hpp]
        exact h.away i hi hpos hip hpp
  · intro i hi hpos he _
    have hpi := parent_lt hpos
    rw [hp, update_self, update_of_ne (by omega), ← he]
    exact h.away i hi hpos (by omega) (by omega)

end Hole

end Backlands.Lib.Heap
