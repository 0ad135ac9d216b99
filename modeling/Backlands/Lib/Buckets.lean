/-
  Backlands.Lib.Buckets — an ordered map from keys to buckets of items.

  The map is the list of its entries in the order of their keys. `put` adds an item behind
  the others of its bucket, `takeOut` takes one out of the bucket of a key and fills the gap
  with the bucket's last item; a bucket that would be empty goes. `split` takes the entries
  up to a key off the front.
-/

import Mathlib.Data.List.Perm.Basic
import Mathlib.Data.List.TakeWhile
import Mathlib.Algebra.Order.Ring.Int

namespace Backlands.Lib

open List

variable {κ α : Type*} [LinearOrder κ] [DecidableEq α]

abbrev Buckets (κ α : Type*) := List (κ × List α)

namespace Buckets

/-- `a` in `as`, replaced by the last item, which goes from the end. -/
def swapPop (a : α) (as : List α) : List α :=
  match as.getLast? with
  | none => []
  | some last => (as.set (as.idxOf a) last).dropLast

def put (k : κ) (a : α) : Buckets κ α → Buckets κ α
  | [] => [(k, [a])]
  | (j, as) :: m =>
    if k < j then (k, [a]) :: (j, as) :: m
    else if k = j then (j, as ++ [a]) :: m
    else (j, as) :: put k a m

/-- `none` when the bucket of `k` does not hold `a`. -/
def takeOut (k : κ) (a : α) : Buckets κ α → Option (Buckets κ α)
  | [] => none
  | (j, as) :: m =>
    if k = j then
      if a ∈ as then some (if as.length = 1 then m else (j, swapPop a as) :: m) else none
    else (takeOut k a m).map ((j, as) :: ·)

def due (k : κ) (m : Buckets κ α) : Buckets κ α := m.takeWhile fun e => decide (e.1 ≤ k)

def later (k : κ) (m : Buckets κ α) : Buckets κ α := m.dropWhile fun e => decide (e.1 ≤ k)

def items (m : Buckets κ α) : List α := m.flatMap (·.2)

def keys (m : Buckets κ α) : List κ := m.map (·.1)

/-- The bucket of `k` holds `a`. -/
def Holds (m : Buckets κ α) (k : κ) (a : α) : Prop := ∃ as, (k, as) ∈ m ∧ a ∈ as

def Sorted (m : Buckets κ α) : Prop := (keys m).Pairwise (· < ·)

variable {m : Buckets κ α} {a : α} {k : κ}

omit [DecidableEq α] [LinearOrder κ] in
theorem mem_items : a ∈ items m ↔ ∃ k, Holds m k a := by
  constructor
  · intro h
    obtain ⟨⟨k, as⟩, he, ha⟩ := mem_flatMap.mp h
    exact ⟨k, as, he, ha⟩
  · rintro ⟨k, as, he, ha⟩
    exact mem_flatMap.mpr ⟨(k, as), he, ha⟩

theorem swapPop_perm {as : List α} (h : a ∈ as) : as.Perm (a :: swapPop a as) := by
  have hi : as.idxOf a < as.length := idxOf_lt_length_of_mem h
  have hne : as ≠ [] := ne_nil_of_mem h
  rw [swapPop, getLast?_eq_some_getLast hne]
  have hset : as.set (as.idxOf a) (as.getLast hne) ≠ [] := by
    rw [ne_eq, set_eq_nil_iff]
    exact hne
  have hlast : (as.set (as.idxOf a) (as.getLast hne)).getLast hset = as.getLast hne := by
    simp [getLast_eq_getElem, getElem_set, length_set]
  have hsplit := dropLast_append_getLast hset
  rw [hlast] at hsplit
  have hperm := set_perm_cons_eraseIdx hi (as.getLast hne)
  rw [← hsplit] at hperm
  have hrest := ((perm_append_singleton _ _).symm.trans hperm).cons_inv
  have hback := getElem_cons_eraseIdx_perm hi
  rw [getElem_idxOf hi] at hback
  exact hback.symm.trans (hrest.symm.cons a)

omit [DecidableEq α] in
theorem put_perm (k : κ) (a : α) (m : Buckets κ α) : (items (put k a m)).Perm (a :: items m) := by
  induction m with
  | nil => exact List.Perm.refl _
  | cons e m ih =>
    obtain ⟨j, as⟩ := e
    unfold put
    split
    · exact List.Perm.refl _
    split
    · show ((as ++ [a]) ++ items m).Perm (a :: (as ++ items m))
      simp
    · exact (ih.append_left as).trans perm_middle

omit [DecidableEq α] in
theorem holds_put {j : κ} {b : α} (h : Holds (put k a m) j b) : j = k ∧ b = a ∨ Holds m j b := by
  induction m with
  | nil =>
    obtain ⟨as, he, hb⟩ := h
    obtain ⟨rfl, rfl⟩ := Prod.mk.inj (mem_singleton.mp he)
    exact .inl ⟨rfl, mem_singleton.mp hb⟩
  | cons e m ih =>
    obtain ⟨i, as⟩ := e
    obtain ⟨bs, he, hb⟩ := h
    unfold put at he
    split at he
    · rcases mem_cons.mp he with he | he
      · obtain ⟨rfl, rfl⟩ := Prod.mk.inj he
        exact .inl ⟨rfl, mem_singleton.mp hb⟩
      · exact .inr ⟨bs, he, hb⟩
    · split at he
      · next hk =>
        rcases mem_cons.mp he with he | he
        · obtain ⟨rfl, rfl⟩ := Prod.mk.inj he
          rcases mem_append.mp hb with hb | hb
          · exact .inr ⟨as, mem_cons_self, hb⟩
          · exact .inl ⟨hk.symm, mem_singleton.mp hb⟩
        · exact .inr ⟨bs, mem_cons_of_mem _ he, hb⟩
      · rcases mem_cons.mp he with he | he
        · exact .inr ⟨bs, he ▸ mem_cons_self, hb⟩
        · rcases ih ⟨bs, he, hb⟩ with h | ⟨cs, hc, hcb⟩
          · exact .inl h
          · exact .inr ⟨cs, mem_cons_of_mem _ hc, hcb⟩

omit [DecidableEq α] in
theorem mem_keys_put {j : κ} (h : j ∈ keys (put k a m)) : j = k ∨ j ∈ keys m := by
  induction m with
  | nil => exact .inl (mem_singleton.mp h)
  | cons e m ih =>
    obtain ⟨i, as⟩ := e
    unfold put at h
    split at h
    · exact mem_cons.mp h
    split at h
    · exact .inr h
    · rcases mem_cons.mp h with h | h
      · exact .inr (h ▸ mem_cons_self)
      · exact (ih h).imp_right (mem_cons_of_mem i)

omit [DecidableEq α] in
theorem sorted_put (h : Sorted m) (k : κ) (a : α) : Sorted (put k a m) := by
  induction m with
  | nil => exact pairwise_singleton _ _
  | cons e m ih =>
    obtain ⟨hj, hm⟩ := pairwise_cons.mp h
    unfold put
    split
    · next hlt =>
      refine pairwise_cons.mpr ⟨?_, h⟩
      grind
    next hge =>
    split
    · exact h
    next hne =>
    refine pairwise_cons.mpr ⟨?_, ih hm⟩
    intro i hi
    rcases mem_keys_put hi with rfl | hi
    · exact lt_of_le_of_ne (not_lt.mp hge) (Ne.symm hne)
    · exact hj i hi

theorem takeOut_spec {m' : Buckets κ α} (h : takeOut k a m = some m') :
    (items m).Perm (a :: items m') ∧ (keys m').Sublist (keys m) ∧ ∀ j b, Holds m' j b → Holds m j b := by
  induction m generalizing m' with
  | nil => cases h
  | cons e m ih =>
    obtain ⟨j, as⟩ := e
    unfold takeOut at h
    split at h
    · split at h
      · next ha =>
        have hperm := swapPop_perm ha
        split at h
        · next hlen =>
          cases h
          obtain ⟨b, rfl⟩ := length_eq_one_iff.mp hlen
          obtain rfl := mem_singleton.mp ha
          refine ⟨List.Perm.refl _, sublist_cons_self _ _, ?_⟩
          rintro i c ⟨bs, he, hc⟩
          exact ⟨bs, mem_cons_of_mem _ he, hc⟩
        · cases h
          refine ⟨hperm.append_right (items m), List.Sublist.refl _, ?_⟩
          rintro i c ⟨bs, he, hc⟩
          rcases mem_cons.mp he with he | he
          · obtain ⟨rfl, rfl⟩ := Prod.mk.inj he
            exact ⟨as, mem_cons_self, hperm.mem_iff.mpr (mem_cons_of_mem a hc)⟩
          · exact ⟨bs, mem_cons_of_mem _ he, hc⟩
      · cases h
    · obtain ⟨m'', hm, rfl⟩ := Option.map_eq_some_iff.mp h
      obtain ⟨hperm, hkeys, hholds⟩ := ih hm
      refine ⟨?_, hkeys.cons_cons j, ?_⟩
      · exact (hperm.append_left as).trans perm_middle
      rintro i c ⟨bs, he, hc⟩
      rcases mem_cons.mp he with he | he
      · exact ⟨bs, he ▸ mem_cons_self, hc⟩
      · obtain ⟨cs, hcs, hcc⟩ := hholds i c ⟨bs, he, hc⟩
        exact ⟨cs, mem_cons_of_mem _ hcs, hcc⟩

theorem not_holds_of_takeOut (hm : Sorted m) (h : takeOut k a m = none) : ¬ Holds m k a := by
  rintro ⟨as, he, ha⟩
  induction m with
  | nil => cases he
  | cons e m ih =>
    obtain ⟨hj, hm'⟩ := pairwise_cons.mp hm
    unfold takeOut at h
    rcases mem_cons.mp he with he | he
    · grind
    · have hlt := hj k (mem_map_of_mem he)
      rw [if_neg (ne_of_gt hlt), Option.map_eq_none_iff] at h
      exact ih hm' h he

theorem sorted_takeOut {m' : Buckets κ α} (hm : Sorted m) (h : takeOut k a m = some m') :
    Sorted m' := hm.sublist (takeOut_spec h).2.1

omit [DecidableEq α] in
/-- Fewer keys do not start earlier. -/
theorem head_le_of_sublist {m m' : Buckets κ α} (hm : Sorted m) (hsub : (keys m').Sublist (keys m)) {k : κ}
    (h : k ∈ (keys m').head?) : ∃ j ∈ (keys m).head?, j ≤ k := by
  have hk : k ∈ keys m := hsub.subset (mem_of_mem_head? h)
  cases m with
  | nil => cases hk
  | cons e m =>
    refine ⟨e.1, rfl, ?_⟩
    rcases mem_cons.mp hk with hk | hk
    · exact le_of_eq hk.symm
    · exact le_of_lt ((pairwise_cons.mp hm).1 k hk)

omit [DecidableEq α] in
theorem due_append_later (k : κ) (m : Buckets κ α) : due k m ++ later k m = m := takeWhile_append_dropWhile

omit [DecidableEq α] in
theorem sorted_later (h : Sorted m) (k : κ) : Sorted (later k m) :=
  h.sublist ((dropWhile_sublist _).map _)

omit [DecidableEq α] in
theorem due_le {j : κ} (h : Holds (due k m) j a) : j ≤ k := by
  obtain ⟨as, he, -⟩ := h
  have hle := mem_takeWhile_imp he
  exact of_decide_eq_true hle

omit [DecidableEq α] in
theorem lt_later {j : κ} (hm : Sorted m) (h : j ∈ keys (later k m)) : k < j := by
  induction m with
  | nil => cases h
  | cons e m ih =>
    obtain ⟨i, as⟩ := e
    obtain ⟨hi, hm'⟩ := pairwise_cons.mp hm
    unfold later at h
    rw [dropWhile_cons] at h
    split at h
    · exact ih hm' h
    next hgt =>
    have hki : k < i := not_le.mp fun hle => hgt (decide_eq_true hle)
    rcases mem_cons.mp h with rfl | h
    · exact hki
    · exact lt_trans hki (hi j h)

omit [DecidableEq α] in
theorem Holds.of_due {j : κ} (h : Holds (due k m) j a) : Holds m j a := by
  obtain ⟨as, he, ha⟩ := h
  exact ⟨as, (takeWhile_sublist _).subset he, ha⟩

omit [DecidableEq α] in
theorem Holds.of_later {j : κ} (h : Holds (later k m) j a) : Holds m j a := by
  obtain ⟨as, he, ha⟩ := h
  exact ⟨as, (dropWhile_sublist _).subset he, ha⟩

end Buckets

end Backlands.Lib
