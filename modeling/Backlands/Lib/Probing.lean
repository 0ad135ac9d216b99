/-
  Backlands.Lib.Probing — a hash table with open addressing that is only added to.

  A table is the keys and the values of its slots; a slot without a value is free. A key is
  looked for from its home slot along `next` until its slot or a free one comes; a new key
  goes to the first free slot.

  Proved: `Holds.find_eq`, a search that meets a free slot gives what the table holds for the
  key; `Holds.insert`, what it holds after an insertion; `exists_free`, a table with fewer keys
  than slots has a free slot on every way.
-/

import Mathlib.Data.List.Nodup
import Mathlib.Data.List.Perm.Subperm
import Mathlib.Logic.Function.Iterate

namespace Backlands.Lib.Probing

open Function List

variable {K V : Type*} [DecidableEq K] {next : Nat → Nat} {home : K → Nat} {keys : Nat → K} {values : Nat → Option V}
  {m : K → Option V} {k : K}

/-- `none` when no slot of the first `n` ends the search. -/
def find (next : Nat → Nat) (keys : Nat → K) (values : Nat → Option V) (k : K) : Nat → Nat → Option (Option V)
  | 0, _ => none
  | n + 1, slot =>
    match values slot with
    | none => some none
    | some v => if keys slot = k then some (some v) else find next keys values k n (next slot)

/-- The first free slot among the first `n`. -/
def free (next : Nat → Nat) (values : Nat → Option V) : Nat → Nat → Option Nat
  | 0, _ => none
  | n + 1, slot =>
    match values slot with
    | none => some slot
    | some _ => free next values n (next slot)

/-- The slots of the table hold `m`, and no slot on the way to a key's slot is free. -/
structure Holds (next : Nat → Nat) (home : K → Nat) (keys : Nat → K) (values : Nat → Option V) (m : K → Option V) : Prop where
  found : ∀ k v, m k = some v → ∃ i, values (next^[i] (home k)) = some v ∧ keys (next^[i] (home k)) = k ∧
    ∀ j < i, values (next^[j] (home k)) ≠ none
  only : ∀ slot v, values slot = some v → m (keys slot) = some v

omit [DecidableEq K] in
theorem Holds.nil (h : ∀ slot, values slot = none) : Holds next home keys values fun _ => none where
  found _ _ hk := nomatch hk
  only slot v hv := by
    rw [h slot] at hv
    cases hv

theorem Holds.find_from (h : Holds next home keys values m) (n j : Nat)
    (hpassed : ∀ i < j, values (next^[i] (home k)) ≠ none ∧ keys (next^[i] (home k)) ≠ k)
    (hfree : ∃ i, j ≤ i ∧ i < j + n ∧ values (next^[i] (home k)) = none) :
    find next keys values k n (next^[j] (home k)) = some (m k) := by
  induction n generalizing j with
  | zero =>
    omega
  | succ n ih =>
    unfold find
    cases hv : values (next^[j] (home k)) with
    | none =>
      cases hm : m k with
      | none => rfl
      | some v =>
        -- The key's slot would lie before the free one, and was not passed.
        obtain ⟨i, hvi, hki, hway⟩ := h.found k v hm
        grind
    | some v =>
      dsimp only
      split
      · next hkey =>
        rw [← hkey, h.only _ v hv]
      next hkey =>
      rw [← Function.iterate_succ_apply' next j]
      refine ih (j + 1) ?_ ?_
      · intro i hi
        rcases Nat.lt_succ_iff_lt_or_eq.mp hi with hi | hi
        · exact hpassed i hi
        · rw [hi, hv]
          exact ⟨by simp, hkey⟩
      · obtain ⟨i, hji, hij, hi⟩ := hfree
        have hne : i ≠ j := by
          grind
        exact ⟨i, by omega, by omega, hi⟩

theorem Holds.find_eq (h : Holds next home keys values m) {n : Nat}
    (hfree : ∃ i < n, values (next^[i] (home k)) = none) : find next keys values k n (home k) = some (m k) := by
  obtain ⟨i, hi, hv⟩ := hfree
  exact h.find_from n 0 (fun i hi => absurd hi (Nat.not_lt_zero i)) ⟨i, Nat.zero_le i, by omega, hv⟩

theorem free_eq {n slot : Nat} (hfree : ∃ i < n, values (next^[i] slot) = none) :
    ∃ i, free next values n slot = some (next^[i] slot) ∧ values (next^[i] slot) = none ∧
      ∀ j < i, values (next^[j] slot) ≠ none := by
  induction n generalizing slot with
  | zero =>
    omega
  | succ n ih =>
    unfold free
    cases hv : values slot with
    | none => exact ⟨0, rfl, hv, fun j hj => absurd hj (Nat.not_lt_zero j)⟩
    | some v =>
      obtain ⟨i, hi, hvi⟩ := hfree
      cases i with
      | zero =>
        rw [Function.iterate_zero, id, hv] at hvi
        cases hvi
      | succ i =>
        obtain ⟨l, hl, hvl, hway⟩ := ih ⟨i, by omega, hvi⟩
        refine ⟨l + 1, hl, hvl, fun j hj => ?_⟩
        cases j with
        | zero =>
          rw [Function.iterate_zero, id, hv]
          simp
        | succ j => exact hway j (by omega)

theorem Holds.insert (h : Holds next home keys values m) (hk : m k = none) {i : Nat}
    (hfree : values (next^[i] (home k)) = none) (hway : ∀ j < i, values (next^[j] (home k)) ≠ none) (v : V) :
    Holds next home (update keys (next^[i] (home k)) k) (update values (next^[i] (home k)) (some v))
      (update m k (some v)) where
  found := by
    intro k' v' hm
    by_cases hkk : k' = k
    · subst hkk
      rw [update_self] at hm
      refine ⟨i, by rw [update_self, hm], update_self .., fun j hj => ?_⟩
      rw [update_of_ne]
      · exact hway j hj
      · intro heq
        exact hway j hj (heq ▸ hfree)
    · rw [update_of_ne hkk] at hm
      obtain ⟨l, hvl, hkl, hwayl⟩ := h.found k' v' hm
      have hne : ∀ slot, values slot ≠ none → slot ≠ next^[i] (home k) := by
        intro slot hslot heq
        exact hslot (heq ▸ hfree)
      refine ⟨l, ?_, ?_, fun j hj => ?_⟩
      · rw [update_of_ne (hne _ (by rw [hvl]; simp)), hvl]
      · rw [update_of_ne (hne _ (by rw [hvl]; simp)), hkl]
      · rw [update_of_ne (hne _ (hwayl j hj))]
        exact hwayl j hj
  only := by
    intro slot v' hv
    by_cases hs : slot = next^[i] (home k)
    · subst hs
      rw [update_self] at hv ⊢
      rw [update_self, hv]
    · rw [update_of_ne hs] at hv ⊢
      have hm := h.only slot v' hv
      grind

theorem iterate_succ_mod {size : Nat} (i : Nat) {slot : Nat} (h : slot < size) :
    (fun s => (s + 1) % size)^[i] slot = (slot + i) % size := by
  induction i with
  | zero => exact (Nat.mod_eq_of_lt h).symm
  | succ i ih =>
    rw [Function.iterate_succ_apply', ih, Nat.mod_add_mod, Nat.add_assoc]

theorem exists_free {size : Nat} (used : List Nat) (hused : ∀ slot, values slot ≠ none → slot ∈ used)
    (hlength : used.length < size) {slot : Nat} (hslot : slot < size) :
    ∃ i < size, values ((fun s => (s + 1) % size)^[i] slot) = none := by
  by_contra hnone
  have hall : ∀ i < size, values ((slot + i) % size) ≠ none := by
    intro i hi hv
    exact hnone ⟨i, hi, by rw [iterate_succ_mod i hslot, hv]⟩
  have hnodup : ((List.range size).map fun i => (slot + i) % size).Nodup := by
    refine nodup_range.map_on fun i hi j hj heq => ?_
    have hi := mem_range.mp hi
    have hj := mem_range.mp hj
    have hcase : ∀ l < size, (slot + l) % size = if slot + l < size then slot + l else slot + l - size := by
      intro l hl
      split
      · next hlt => exact Nat.mod_eq_of_lt hlt
      · next hge =>
        rw [Nat.mod_eq_sub_mod (by omega)]
        exact Nat.mod_eq_of_lt (by omega)
    rw [hcase i hi, hcase j hj] at heq
    split at heq <;> split at heq <;> omega
  have hsubset : ((List.range size).map fun i => (slot + i) % size) ⊆ used := by
    intro s hs
    obtain ⟨i, hi, heq⟩ := mem_map.mp hs
    exact hused s (heq ▸ hall i (mem_range.mp hi))
  have hle := (hnodup.subperm hsubset).length_le
  rw [length_map, length_range] at hle
  omega

end Backlands.Lib.Probing
