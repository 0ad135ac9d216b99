/-
  Backlands.Lib.Rollup — totals kept up a forest of parent pointers.

  A node's total is the sum of what its children come to, and a change at `c` is passed up:
  added to the total of `c` and of every node above it. The lists of children and the parent
  pointers are kept apart; a `Grove` is where they agree and no pointer leads back to itself.

  Proved: `sum_raised`, what the sums of the children become when all from `c` up is raised;
  `Grove.link` and `Grove.unlink`, that a loose node not above `c` can be put under it and
  taken out again.
-/

import Mathlib.Algebra.BigOperators.Group.List.Basic
import Mathlib.Data.List.Nodup
import Mathlib.Order.WellFounded

namespace Backlands.Lib

open List Option Function Relation

variable {ρ : Type*} {parent : ρ → Option ρ} {children : ρ → List ρ} {c r x y : ρ}

/-- `x` is `c` or above it. -/
def Above (parent : ρ → Option ρ) : ρ → ρ → Prop := ReflTransGen fun y x => parent y = some x

/-- No pointer leads back. -/
def Rooted (parent : ρ → Option ρ) : Prop := WellFounded fun x y => parent y = some x

structure Grove (parent : ρ → Option ρ) (children : ρ → List ρ) : Prop where
  nodup : ∀ x, (children x).Nodup
  mem_iff : ∀ x y, y ∈ children x ↔ parent y = some x
  rooted : Rooted parent

/-! ## Chains -/

theorem above_none (h : parent c = none) : Above parent c x ↔ x = c := by
  constructor
  · intro hx
    cases ReflTransGen.cases_head hx with
    | inl he => exact he.symm
    | inr hy =>
      obtain ⟨y, hy, _⟩ := hy
      exact absurd (h.symm.trans hy) (some_ne_none y).symm
  · intro he
    exact he ▸ .refl

theorem above_some (h : parent c = some y) : Above parent c x ↔ x = c ∨ Above parent y x := by
  constructor
  · intro hx
    cases ReflTransGen.cases_head hx with
    | inl he => exact .inl he.symm
    | inr hz =>
      obtain ⟨z, hz, hzx⟩ := hz
      have he : y = z := Option.some.inj (h.symm.trans hz)
      exact .inr (he ▸ hzx)
  · intro hx
    cases hx with
    | inl he => exact he ▸ .refl
    | inr hy => exact .head h hy

theorem Rooted.not_above (h : Rooted parent) (hr : parent r = some c) : ¬ Above parent c r := by
  intro hc
  have hloop : TransGen (fun y x => parent y = some x) r r := TransGen.head' hr hc
  have hwf : WellFounded (TransGen fun x y => parent y = some x) := WellFounded.transGen h
  exact hwf.irrefl.irrefl r (TransGen.swap _ _ hloop)

theorem above_update [DecidableEq ρ] {v : Option ρ} (hr : ¬ Above parent c r) :
    Above (update parent r v) c x ↔ Above parent c x := by
  constructor
  · intro hx
    induction hx with
    | refl => exact .refl
    | @tail y z _ hyz ih =>
      have hy : y ≠ r := fun he => hr (he ▸ ih)
      rw [update_of_ne hy] at hyz
      exact .tail ih hyz
  · intro hx
    induction hx with
    | refl => exact .refl
    | @tail y z hcy hyz ih =>
      have hy : y ≠ r := fun he => hr (he ▸ hcy)
      exact .tail ih (by rw [update_of_ne hy]; exact hyz)

theorem Rooted.child_unique (h : Rooted parent) {z : ρ} (hy : parent y = some x) (hz : parent z = some x)
    (hcy : Above parent c y) (hcz : Above parent c z) : y = z := by
  have hunique : Relator.RightUnique fun y x => parent y = some x := by
    intro a b b' hb hb'
    exact Option.some.inj (hb.symm.trans hb')
  cases ReflTransGen.total_of_right_unique hunique hcy hcz with
  | inl hyz =>
    cases (above_some hy).mp hyz with
    | inl he => exact he.symm
    | inr hxz => exact absurd hxz (h.not_above hz)
  | inr hzy =>
    cases (above_some hz).mp hzy with
    | inl he => exact he
    | inr hxy => exact absurd hxy (h.not_above hy)

/-! ## What a change passed up leaves -/

section Raise

variable {M : Type*} [AddCommGroup M]

open Classical in
/-- `d` on `c` and all above it. -/
noncomputable def raise (parent : ρ → Option ρ) (c : ρ) (d : M) (x : ρ) : M := if Above parent c x then d else 0

theorem raise_above {d : M} (h : Above parent c x) : raise parent c d x = d := if_pos h

theorem raise_aside {d : M} (h : ¬ Above parent c x) : raise parent c d x = 0 := if_neg h

theorem raise_congr {parent' : ρ → Option ρ} {c' : ρ} (d : M) (h : Above parent c x ↔ Above parent' c' x) :
    raise parent c d x = raise parent' c' d x := by
  rw [raise, raise, propext h]

theorem sum_one {l : List ρ} {f : ρ → M} {d : M} (hl : l.Nodup) (hy : y ∈ l) (hd : f y = d)
    (h0 : ∀ z ∈ l, z ≠ y → f z = 0) : (l.map f).sum = d := by
  obtain ⟨s, t, rfl⟩ := append_of_mem hy
  obtain ⟨hys, hyt⟩ : y ∉ s ∧ y ∉ t := by
    have hmid := nodup_middle.mp hl
    simpa [not_or] using (nodup_cons.mp hmid).1
  have hs : (s.map f).sum = 0 := by
    refine sum_eq_zero fun v hv => ?_
    obtain ⟨z, hz, rfl⟩ := mem_map.mp hv
    exact h0 z (by simp [hz]) fun he => hys (he ▸ hz)
  have ht : (t.map f).sum = 0 := by
    refine sum_eq_zero fun v hv => ?_
    obtain ⟨z, hz, rfl⟩ := mem_map.mp hv
    exact h0 z (by simp [hz]) fun he => hyt (he ▸ hz)
  rw [map_append, map_cons, sum_append, sum_cons, hs, ht, hd, add_zero, zero_add]

open Classical in
/-- The children of a node strictly above `c` come to `d` more, those of every other node to
    the same. -/
theorem sum_raised (hg : Grove parent children) (W : ρ → M) (d : M) :
    ((children x).map fun y => W y + raise parent c d y).sum =
      ((children x).map W).sum + if x = c then 0 else raise parent c d x := by
  rw [sum_map_add]
  congr 1
  by_cases hx : ∃ y ∈ children x, Above parent c y
  · obtain ⟨y, hy, hcy⟩ := hx
    have hyx := (hg.mem_iff x y).mp hy
    have hcx : Above parent c x := .tail hcy hyx
    have hne : x ≠ c := fun he => hg.rooted.not_above hyx (he ▸ hcy)
    rw [if_neg hne, raise_above hcx]
    refine sum_one (hg.nodup x) hy (raise_above hcy) fun z hz hzy => raise_aside fun hcz => ?_
    exact hzy (hg.rooted.child_unique ((hg.mem_iff x z).mp hz) hyx hcz hcy)
  · have hzero : ((children x).map (raise parent c d)).sum = 0 := by
      refine sum_eq_zero fun v hv => ?_
      obtain ⟨y, hy, rfl⟩ := mem_map.mp hv
      exact raise_aside fun hcy => hx ⟨y, hy, hcy⟩
    rw [hzero]
    by_cases he : x = c
    · rw [if_pos he]
    rw [if_neg he, raise_aside]
    intro hcx
    cases ReflTransGen.cases_tail hcx with
    | inl he' => exact he he'
    | inr hy =>
      obtain ⟨y, hcy, hyx⟩ := hy
      exact hx ⟨y, (hg.mem_iff x y).mpr hyx, hcy⟩

end Raise

/-! ## Putting a node in and taking it out -/

section Moves

variable [DecidableEq ρ] {l : List ρ}

theorem Rooted.link (h : Rooted parent) (hr : ¬ Above parent c r) : Rooted (update parent r (some c)) := by
  have hchain : ∀ y, Above parent c y → Acc (fun x y => update parent r (some c) y = some x) y := by
    intro y
    induction y using h.induction with
    | h y ih =>
      intro hy
      refine .intro y fun x hx => ?_
      have hne : y ≠ r := fun he => hr (he ▸ hy)
      rw [update_of_ne hne] at hx
      exact ih x hx (.tail hy hx)
  refine ⟨fun y => ?_⟩
  induction y using h.induction with
  | h y ih =>
    refine .intro y fun x hx => ?_
    by_cases hy : y = r
    · subst hy
      rw [update_self] at hx
      exact hchain x (Option.some.inj hx ▸ .refl)
    · rw [update_of_ne hy] at hx
      exact ih x hx

theorem Rooted.unlink (h : Rooted parent) : Rooted (update parent r none) := by
  refine WellFounded.mono h fun x y hx => ?_
  by_cases hy : y = r
  · rw [hy, update_self] at hx
    cases hx
  · rwa [update_of_ne hy] at hx

theorem Grove.link (hg : Grove parent children) (hloose : parent r = none) (hr : ¬ Above parent c r)
    (hl : l.Perm (r :: children c)) : Grove (update parent r (some c)) (update children c l) := by
  have hnot : ∀ x, r ∉ children x := by
    simp [hg.mem_iff, hloose]
  refine ⟨fun x => ?_, fun x y => ?_, hg.rooted.link hr⟩
  · by_cases hx : x = c
    · subst hx
      rw [update_self, hl.nodup_iff]
      exact nodup_cons.mpr ⟨hnot x, hg.nodup x⟩
    · rw [update_of_ne hx]
      exact hg.nodup x
  · by_cases hx : x = c <;> by_cases hy : y = r
    · simp [hx, hy, hl.mem_iff]
    · rw [hx, update_self, update_of_ne hy, hl.mem_iff, mem_cons, or_iff_right hy, hg.mem_iff]
    · rw [hy, update_self, update_of_ne hx, some_inj]
      exact iff_of_false (hnot x) (Ne.symm hx)
    · rw [update_of_ne hx, update_of_ne hy, hg.mem_iff]

theorem Grove.unlink (hg : Grove parent children) (hl : (children c).Perm (r :: l)) :
    Grove (update parent r none) (update children c l) := by
  have hr : parent r = some c := (hg.mem_iff c r).mp (hl.mem_iff.mpr (mem_cons_self ..))
  obtain ⟨hrl, hnodup⟩ := nodup_cons.mp (hl.nodup_iff.mp (hg.nodup c))
  refine ⟨fun x => ?_, fun x y => ?_, hg.rooted.unlink⟩
  · by_cases hx : x = c
    · rw [hx, update_self]
      exact hnodup
    · rw [update_of_ne hx]
      exact hg.nodup x
  · by_cases hx : x = c <;> by_cases hy : y = r
    · simp [hx, hy, hrl]
    · rw [hx, update_self, update_of_ne hy, ← hg.mem_iff, hl.mem_iff, mem_cons, or_iff_right hy]
    · rw [hy, update_self, update_of_ne hx, hg.mem_iff, hr, some_inj]
      exact iff_of_false (Ne.symm hx) (some_ne_none x).symm
    · rw [update_of_ne hx, update_of_ne hy, hg.mem_iff]

end Moves

end Backlands.Lib
