/-
  Backlands.Lib.Tally — counting the entries of queues and of keyed tables that meet a
  test, through the updates a program makes to them: appending, taking the `i`-th entry
  out, inserting at a key, erasing a key. The last lemmas are for a 32-bit counter.
-/

import Mathlib.Data.List.AList
import Mathlib.Data.List.Perm.Basic
import Mathlib.Algebra.Order.Ring.Int

namespace Backlands.Lib

open List Function

variable {α β : Type*}

/-- One for a test that holds. -/
def unit (b : Bool) : Nat := if b then 1 else 0

@[simp] theorem unit_true : unit true = 1 := rfl
@[simp] theorem unit_false : unit false = 0 := rfl

theorem unit_le_one (b : Bool) : unit b ≤ 1 := by
  cases b <;> decide

theorem countP_singleton' (p : α → Bool) (x : α) : [x].countP p = unit (p x) := by
  simp [unit, countP_cons]

theorem countP_snoc (p : α → Bool) (l : List α) (x : α) : (l ++ [x]).countP p = l.countP p + unit (p x) := by
  rw [countP_append, countP_singleton']

theorem countP_eraseIdx (p : α → Bool) :
    ∀ (l : List α) (i : Nat) (x : α), l[i]? = some x → (l.eraseIdx i).countP p + unit (p x) = l.countP p := by
  intro l
  induction l with
  | nil => intro i x h; simp at h
  | cons y l ih =>
    intro i x h
    cases i with
    | zero =>
      simp only [getElem?_cons_zero, Option.some.injEq] at h
      subst h
      simp [countP_cons, unit]
    | succ i =>
      have := ih i x h
      simp only [eraseIdx_cons_succ, countP_cons]
      omega

theorem countP_set_add (p : α → Bool) {l : List α} {i : Nat} {x : α} (h : l[i]? = some x) (y : α) :
    (l.set i y).countP p + unit (p x) = l.countP p + unit (p y) := by
  induction l generalizing i with
  | nil => simp at h
  | cons z l ih =>
    cases i with
    | zero =>
      simp only [getElem?_cons_zero, Option.some.injEq] at h
      subst h
      simp only [set_cons_zero, countP_cons, unit]
      omega
    | succ i =>
      have := ih h
      simp only [set_cons_succ, countP_cons]
      omega

theorem countP_eq_sum (p : α → Bool) (l : List α) : l.countP p = (l.map fun x => unit (p x)).sum := by
  induction l with
  | nil => rfl
  | cons x l ih =>
    rw [countP_cons, map_cons, sum_cons, ih, Nat.add_comm]
    rfl

theorem sum_update {κ ν : Type*} [DecidableEq κ] (key : α → κ) (F : α → ν → Nat) (g : κ → ν) (x : ν) {l : List α} {a : α}
    (hdistinct : (l.map key).Nodup) (ha : a ∈ l) :
    (l.map fun b => F b (update g (key a) x (key b))).sum + F a (g (key a)) =
      (l.map fun b => F b (g (key b))).sum + F a x := by
  induction l with
  | nil => cases ha
  | cons b l ih =>
    rw [map_cons, nodup_cons] at hdistinct
    rw [map_cons, map_cons, sum_cons, sum_cons]
    by_cases hba : key b = key a
    · have hsame : a = b := by
        cases ha with
        | head => rfl
        | tail _ ha => exact absurd (mem_map.mpr ⟨a, ha, hba.symm⟩) hdistinct.1
      subst hsame
      have hrest : (l.map fun b => F b (update g (key a) x (key b))) = l.map fun b => F b (g (key b)) := by
        refine map_congr_left fun c hc => ?_
        have hne : key c ≠ key a := fun heq => hdistinct.1 (mem_map.mpr ⟨c, hc, heq⟩)
        rw [update_of_ne hne]
      rw [hrest, update_self]
      omega
    · have ha' : a ∈ l := by
        cases ha with
        | head => exact absurd rfl hba
        | tail _ ha => exact ha
      have hrest := ih hdistinct.2 ha'
      rw [update_of_ne hba]
      omega

theorem mem_eraseIdx_or (l : List α) (i : Nat) (x y : α) (h : l[i]? = some x) (hy : y ∈ l) :
    y = x ∨ y ∈ l.eraseIdx i := by
  induction l generalizing i with
  | nil => cases hy
  | cons z l ih =>
    cases i with
    | zero =>
      simp only [getElem?_cons_zero, Option.some.injEq] at h
      subst h
      simpa using hy
    | succ i =>
      rcases mem_cons.mp hy with rfl | hy
      · exact .inr (by simp)
      · rcases ih i h hy with e | e
        · exact .inl e
        · exact .inr (by simp [e])

/-- How many entries of a keyed table meet a test. -/
def tally (w : β → Bool) (m : AList fun _ : α => β) : Nat := m.entries.countP fun e => w e.2

variable [DecidableEq α]

/-- What a key's entry adds to the tally. -/
def share (w : β → Bool) (a : α) (m : AList fun _ : α => β) : Nat :=
  match m.lookup a with
  | some b => unit (w b)
  | none => 0

theorem tally_erase (w : β → Bool) (a : α) (m : AList fun _ : α => β) :
    tally w (m.erase a) + share w a m = tally w m := by
  by_cases h : a ∈ m
  · obtain ⟨b, l₁, l₂, hn, he, hk⟩ := exists_of_kerase (AList.mem_keys.mp h)
    have hb : m.lookup a = some b := by
      apply AList.mem_lookup_iff.mpr
      rw [he]; simp
    have hker : (m.erase a).entries = l₁ ++ l₂ := hk
    simp only [tally, share, hb, hker, he, countP_append, countP_cons, unit]
    omega
  · have hl : m.lookup a = none := AList.lookup_eq_none.mpr h
    have he : (m.erase a).entries = m.entries := kerase_of_notMem_keys h
    simp [tally, share, hl, he]

theorem tally_insert (w : β → Bool) (a : α) (b : β) (m : AList fun _ : α => β) :
    tally w (m.insert a b) + share w a m = tally w m + unit (w b) := by
  have h := tally_erase w a m
  have he : (m.insert a b).entries = ⟨a, b⟩ :: (m.erase a).entries := rfl
  simp only [tally, he, countP_cons, unit] at h ⊢
  omega

theorem share_eq_zero (w : β → Bool) {a : α} {m : AList fun _ : α => β} (h : m.lookup a = none) : share w a m = 0 := by
  simp [share, h]

theorem share_eq (w : β → Bool) {a : α} {b : β} {m : AList fun _ : α => β} (h : m.lookup a = some b) :
    share w a m = unit (w b) := by simp [share, h]

theorem toNat_add_one {x : UInt32} (h : x.toNat + 1 < 2 ^ 32) : (x + 1).toNat = x.toNat + 1 := by
  rw [UInt32.toNat_add]
  exact Nat.mod_eq_of_lt h

theorem toNat_sub_one {x : UInt32} (h : 0 < x.toNat) : (x - 1).toNat + 1 = x.toNat := by
  have h1 : (1 : UInt32) ≤ x := UInt32.le_iff_toNat_le.mpr h
  rw [UInt32.toNat_sub_of_le x 1 h1]
  exact Nat.sub_add_cancel h

end Backlands.Lib
