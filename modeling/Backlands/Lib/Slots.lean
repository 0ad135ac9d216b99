/-
  Backlands.Lib.Slots — items in numbered slots, with the slot of every item.

  `slot` is the item in each of the first `size` slots and `place` the slot of each item that
  has one. An item that moves leaves a hole: `Hole` is what holds while the item `n` has no
  slot and slot `i` no item.

  Proved: an item is put behind the others (`push`), taken out with the last in its slot
  (`takeOut`), and a hole moves (`Hole.move`), with the same items in slots after it.
-/

import Mathlib.Data.Set.Insert

namespace Backlands.Lib

open Function

variable {slot : Nat → Nat} {place : Nat → Option Nat} {size : Nat} {items : Set Nat} {n i : Nat}

/-- The slots hold `items`, each once, and `place` says where. -/
structure Slots (slot : Nat → Nat) (place : Nat → Option Nat) (size : Nat) (items : Set Nat) : Prop where
  placed : ∀ i < size, place (slot i) = some i
  slotted : ∀ n i, place n = some i → i < size ∧ slot i = n
  mem_iff : ∀ n, n ∈ items ↔ place n ≠ none

namespace Slots

theorem slot_mem (h : Slots slot place size items) (hi : i < size) : slot i ∈ items := by
  rw [h.mem_iff, h.placed i hi]
  simp

theorem exists_place (h : Slots slot place size items) (hn : n ∈ items) : ∃ i < size, place n = some i ∧ slot i = n := by
  obtain ⟨i, hi⟩ := Option.ne_none_iff_exists'.mp ((h.mem_iff n).mp hn)
  exact ⟨i, (h.slotted n i hi).1, hi, (h.slotted n i hi).2⟩

theorem nil (h : ∀ n, place n = none) : Slots slot place 0 ∅ where
  placed i hi := absurd hi (Nat.not_lt_zero i)
  slotted n i hn := by
    rw [h n] at hn
    cases hn
  mem_iff n := by simp [h n]

theorem push (h : Slots slot place size items) (hn : n ∉ items) :
    Slots (update slot size n) (update place n (some size)) (size + 1) (insert n items) where
  placed := by
    intro i hi
    rcases Nat.lt_succ_iff_lt_or_eq.mp hi with hi | rfl
    · have hne : slot i ≠ n := fun heq => hn (heq ▸ h.slot_mem hi)
      rw [update_of_ne (Nat.ne_of_lt hi), update_of_ne hne, h.placed i hi]
    · rw [update_self, update_self]
  slotted := by
    intro m i hm
    by_cases hmn : m = n
    · subst hmn
      rw [update_self] at hm
      obtain rfl := Option.some.inj hm
      exact ⟨Nat.lt_succ_self _, update_self ..⟩
    · rw [update_of_ne hmn] at hm
      obtain ⟨hi, hslot⟩ := h.slotted m i hm
      rw [update_of_ne (Nat.ne_of_lt hi)]
      exact ⟨Nat.lt_succ_of_lt hi, hslot⟩
  mem_iff := by
    intro m
    by_cases hmn : m = n
    · subst hmn
      simp
    · rw [update_of_ne hmn, ← h.mem_iff, Set.mem_insert_iff, or_iff_right hmn]

/-- The slots with the item `n` put in slot `i`. -/
def Hole (slot : Nat → Nat) (place : Nat → Option Nat) (size : Nat) (items : Set Nat) (n i : Nat) : Prop :=
  Slots (update slot i n) (update place n (some i)) size items

theorem Hole.move (h : Hole slot place size items n i) {j : Nat} (hi : i < size) (hj : j < size) (hij : j ≠ i) :
    Hole (update slot i (slot j)) (update place (slot j) (some i)) size items n j := by
  have hslot : ∀ l, l ≠ i → update slot i n l = slot l := fun l hl => update_of_ne hl ..
  have hne : ∀ l < size, l ≠ i → slot l ≠ n := by
    intro l hl hli heq
    have hpl := h.placed l hl
    rw [hslot l hli, heq, update_self] at hpl
    exact hli (Option.some.inj hpl).symm
  have hplace : ∀ l < size, l ≠ i → place (slot l) = some l := by
    intro l hl hli
    have hpl := h.placed l hl
    rwa [hslot l hli, update_of_ne (hne l hl hli)] at hpl
  refine ⟨fun l hl => ?_, fun m l hm => ?_, fun m => ?_⟩
  · by_cases hlj : l = j
    · subst hlj
      rw [update_self, update_self]
    rw [update_of_ne hlj]
    by_cases hli : l = i
    · subst hli
      rw [update_self, update_of_ne (hne j hj hij), update_self]
    have hslots : slot l ≠ slot j := by
      intro heq
      have hpl := hplace l hl hli
      rw [heq, hplace j hj hij] at hpl
      exact hlj (Option.some.inj hpl).symm
    rw [update_of_ne hli, update_of_ne (hne l hl hli), update_of_ne hslots]
    exact hplace l hl hli
  · by_cases hmn : m = n
    · subst hmn
      rw [update_self] at hm
      obtain rfl := Option.some.inj hm
      exact ⟨hj, update_self ..⟩
    · rw [update_of_ne hmn] at hm
      by_cases hmj : m = slot j
      · subst hmj
        rw [update_self] at hm
        obtain rfl := Option.some.inj hm
        rw [update_of_ne hij.symm, update_self]
        exact ⟨hi, rfl⟩
      · rw [update_of_ne hmj] at hm
        obtain ⟨hl, hslotl⟩ := h.slotted m l (by rw [update_of_ne hmn, hm])
        have hli : l ≠ i := by
          intro heq
          rw [heq, update_self] at hslotl
          exact hmn hslotl.symm
        rw [hslot l hli] at hslotl
        have hlj : l ≠ j := fun heq => hmj (heq ▸ hslotl.symm)
        rw [update_of_ne hlj, update_of_ne hli]
        exact ⟨hl, hslotl⟩
  · rw [h.mem_iff]
    grind

theorem pop (h : Slots slot place (size + 1) items) (hn : place n = some size) :
    Slots slot (update place n none) size (items \ {n}) where
  placed := by
    intro i hi
    have hne : slot i ≠ n := by
      intro heq
      have hpl := h.placed i (Nat.lt_succ_of_lt hi)
      rw [heq, hn] at hpl
      exact Nat.ne_of_gt hi (Option.some.inj hpl)
    rw [update_of_ne hne]
    exact h.placed i (Nat.lt_succ_of_lt hi)
  slotted := by
    intro m i hm
    have hmn : m ≠ n := by
      grind
    rw [update_of_ne hmn] at hm
    obtain ⟨hi, hslot⟩ := h.slotted m i hm
    refine ⟨?_, hslot⟩
    rcases Nat.lt_succ_iff_lt_or_eq.mp hi with hi | hi
    · exact hi
    · rw [hi, (h.slotted n size hn).2] at hslot
      exact absurd hslot.symm hmn
  mem_iff := by
    grind [h.mem_iff]

theorem takeOut (h : Slots slot place (size + 1) items) (hn : place n = some i) (hi : i ≠ size) :
    Hole slot (update place n none) size (items \ {n}) (slot size) i := by
  obtain ⟨hsize, hslot⟩ := h.slotted n i hn
  have hlast := h.placed size (Nat.lt_succ_self _)
  have hne : slot size ≠ n := by
    intro heq
    rw [heq, hn] at hlast
    exact hi (Option.some.inj hlast)
  -- The hole of the item that goes moves to the end, where the item is taken off.
  have hhole : Hole slot place (size + 1) items n i := by
    unfold Hole
    rw [← hslot, update_eq_self, hslot, ← hn, update_eq_self]
    exact h
  have hend := (hhole.move hsize (Nat.lt_succ_self size) (Ne.symm hi)).pop (update_self ..)
  rw [update_idem, update_comm hne] at hend
  refine ⟨fun l hl => ?_, fun m l hm => ?_, fun m => ?_⟩
  · have hpl := hend.placed l hl
    rw [update_of_ne (Nat.ne_of_lt hl)] at hpl
    exact hpl
  · obtain ⟨hl, hslotl⟩ := hend.slotted m l hm
    rw [update_of_ne (Nat.ne_of_lt hl)] at hslotl
    exact ⟨hl, hslotl⟩
  · exact hend.mem_iff m

end Slots

end Backlands.Lib
