/-
  Backlands.Lib.Worklist — a worklist over nested containers whose every step adds all the
  containers inside the one it takes, not only the next ones.

  `worklist` takes a tree, adds what `expand` gives for it and goes on. `nestedAll` lists the
  containers once each; `spreadAll` lists each twice as often as the one it stands in.

  Proved: what the worklist comes to (`worklist_perm`), that it ends, and that it lists each
  container once exactly when those in the first hold no others (`spreadAll_perm_iff`).
-/

import Backlands.Lib.Breadth

namespace Backlands.Lib

open List

variable {α : Type*} (holds : α → Bool)

namespace RoseTree

mutual
/-- The tree and those in it, as far as they hold. -/
def nested : RoseTree α → List (RoseTree α)
  | node a ts => if holds a then node a ts :: nestedAll ts else []
def nestedAll : List (RoseTree α) → List (RoseTree α)
  | [] => []
  | t :: ts => nested t ++ nestedAll ts
end

mutual
/-- The tree `k` times and those in it twice as often, as far as they hold. -/
def spread (k : Nat) : RoseTree α → List (RoseTree α)
  | node a ts => if holds a then List.replicate k (node a ts) ++ spreadAll (2 * k) ts else []
def spreadAll (k : Nat) : List (RoseTree α) → List (RoseTree α)
  | [] => []
  | t :: ts => spread k t ++ spreadAll k ts
end

/-- The trees taken from a list that grows at its end. -/
def worklist (expand : RoseTree α → List (RoseTree α)) : Nat → List (RoseTree α) → List (RoseTree α)
  | 0, _ => []
  | _, [] => []
  | n + 1, t :: q => t :: worklist expand n (q ++ expand t)

variable {holds} {t : RoseTree α} {ts : List (RoseTree α)}

/-! ## What is nested -/

theorem nested_eq (t : RoseTree α) : nested holds t = if holds t.label then t :: nestedAll holds t.contents else [] := by
  cases t
  rfl

theorem spread_eq (k : Nat) (t : RoseTree α) : spread holds k t =
    if holds t.label then List.replicate k t ++ spreadAll holds (2 * k) t.contents else [] := by
  cases t
  rfl

theorem treesAll_filter (ts : List (RoseTree α)) :
    (treesAll holds ts).filter (fun t => holds t.label) = nestedAll holds ts := by
  induction ts using inductionAll with
  | hnil => rfl
  | hcons t ts iht ihts =>
    rw [treesAll, nestedAll, filter_append, ihts, trees_eq, nested_eq, filter_cons]
    cases hh : holds t.label with
    | true => simp [iht]
    | false => simp

/-! ## How often each is listed -/

theorem spreadAll_add (k l : Nat) (ts : List (RoseTree α)) :
    (spreadAll holds (k + l) ts).Perm (spreadAll holds k ts ++ spreadAll holds l ts) := by
  induction ts using inductionAll generalizing k l with
  | hnil => exact List.Perm.refl _
  | hcons t ts iht ihts =>
    have ht : (spread holds (k + l) t).Perm (spread holds k t ++ spread holds l t) := by
      rw [spread_eq, spread_eq, spread_eq]
      cases holds t.label with
      | false => exact List.Perm.refl _
      | true =>
        rw [if_pos rfl, if_pos rfl, if_pos rfl, ← replicate_append_replicate, Nat.mul_add]
        exact ((iht _ _).append_left _).trans (perm_shuffle _ _ _ _)
    exact (ht.append (ihts k l)).trans (perm_shuffle _ _ _ _)

def listed (holds : α → Bool) (t : RoseTree α) : List (RoseTree α) := t :: spreadAll holds 1 t.contents

theorem nestedAll_listed (ts : List (RoseTree α)) :
    ((nestedAll holds ts).flatMap (listed holds)).Perm (spreadAll holds 1 ts) := by
  induction ts using inductionAll with
  | hnil => exact List.Perm.refl _
  | hcons t ts iht ihts =>
    rw [nestedAll, spreadAll, flatMap_append]
    refine List.Perm.append ?_ ihts
    rw [nested_eq, spread_eq]
    cases holds t.label with
    | false => exact List.Perm.refl _
    | true =>
      exact List.Perm.cons _ ((iht.append_left _).trans (spreadAll_add 1 1 t.contents).symm)

theorem flatMap_listed_step {expand : RoseTree α → List (RoseTree α)}
    (hexpand : ∀ t, (expand t).Perm (nestedAll holds t.contents)) (t : RoseTree α) (q : List (RoseTree α)) :
    ((q ++ expand t).flatMap (listed holds)).Perm (spreadAll holds 1 t.contents ++ q.flatMap (listed holds)) := by
  rw [flatMap_append]
  exact perm_append_comm.trans ((((hexpand t).flatMap_right _).trans (nestedAll_listed t.contents)).append_right _)

/-- Where each step adds all the containers inside the one it takes, the worklist comes to what
    is `listed` from each it starts with. -/
theorem worklist_perm {expand : RoseTree α → List (RoseTree α)} (hexpand : ∀ t, (expand t).Perm (nestedAll holds t.contents))
    {n : Nat} {q : List (RoseTree α)} (hn : (q.flatMap (listed holds)).length ≤ n) :
    (worklist expand n q).Perm (q.flatMap (listed holds)) := by
  induction n generalizing q with
  | zero =>
    cases q with
    | nil => exact List.Perm.refl _
    | cons t q => simp [listed] at hn
  | succ n ih =>
    cases q with
    | nil => exact List.Perm.refl _
    | cons t q =>
      have hstep := flatMap_listed_step hexpand t q
      have hlen : ((q ++ expand t).flatMap (listed holds)).length ≤ n := by
        rw [hstep.length_eq]
        rw [flatMap_cons, listed, cons_append, length_cons] at hn
        omega
      exact List.Perm.cons _ ((ih hlen).trans hstep)

theorem worklist_stable {expand : RoseTree α → List (RoseTree α)} (hexpand : ∀ t, (expand t).Perm (nestedAll holds t.contents))
    {n : Nat} {q : List (RoseTree α)} (hn : (q.flatMap (listed holds)).length ≤ n) :
    worklist expand n q = worklist expand (q.flatMap (listed holds)).length q := by
  induction n generalizing q with
  | zero => rw [Nat.le_zero.mp hn]
  | succ n ih =>
    cases q with
    | nil => rfl
    | cons t q =>
      have hlen : ((t :: q).flatMap (listed holds)).length = ((q ++ expand t).flatMap (listed holds)).length + 1 := by
        rw [flatMap_cons, listed, cons_append, length_cons, (flatMap_listed_step hexpand t q).length_eq]
      rw [hlen] at hn ⊢
      rw [worklist, worklist, ih (Nat.le_of_succ_le_succ hn)]

theorem length_double (ts : List (RoseTree α)) :
    (spreadAll holds (2 * 1) ts).length = 2 * (spreadAll holds 1 ts).length := by
  have hadd := (@spreadAll_add α holds 1 1 ts).length_eq
  rw [length_append] at hadd
  exact hadd.trans (Nat.two_mul _).symm

theorem length_nestedAll_le (ts : List (RoseTree α)) : (nestedAll holds ts).length ≤ (spreadAll holds 1 ts).length := by
  induction ts using inductionAll with
  | hnil => exact le_rfl
  | hcons t ts iht ihts =>
    have hdouble := @length_double α holds t.contents
    rw [nestedAll, spreadAll, nested_eq, spread_eq]
    cases holds t.label with
    | false => simpa using ihts
    | true =>
      simp only [if_true, length_append, length_cons, length_replicate]
      omega

theorem spreadAll_nil (h : nestedAll holds ts = []) (k : Nat) : spreadAll holds k ts = [] := by
  induction ts with
  | nil => rfl
  | cons t ts ih =>
    rw [nestedAll, nested_eq, append_eq_nil_iff] at h
    rw [spreadAll, spread_eq, ih h.2, append_nil]
    cases hh : holds t.label with
    | false => rfl
    | true => simp [hh] at h

theorem nestedAll_eq_nil_iff : nestedAll holds ts = [] ↔ ∀ t ∈ ts, holds t.label = false := by
  induction ts with
  | nil => simp [nestedAll]
  | cons t ts ih =>
    rw [nestedAll, nested_eq, append_eq_nil_iff, ih, forall_mem_cons]
    refine and_congr_left' ?_
    cases holds t.label with
    | false => simp
    | true => simp

theorem spreadAll_perm_iff (ts : List (RoseTree α)) : (spreadAll holds 1 ts).Perm (nestedAll holds ts) ↔
    ∀ t ∈ ts, holds t.label = true → nestedAll holds t.contents = [] := by
  induction ts with
  | nil => simp [spreadAll, nestedAll]
  | cons t ts ih =>
    have hdouble := @length_double α holds t.contents
    have hle := @length_nestedAll_le α holds t.contents
    have hles := @length_nestedAll_le α holds ts
    rw [forall_mem_cons, ← ih, spreadAll, nestedAll, spread_eq, nested_eq]
    cases holds t.label with
    | false => simp
    | true =>
      simp only [if_true, forall_const]
      constructor
      · intro h
        have hlen := h.length_eq
        simp only [length_append, length_cons, length_replicate] at hlen
        have hnone : nestedAll holds t.contents = [] := eq_nil_of_length_eq_zero (by omega)
        refine ⟨hnone, ?_⟩
        have hspread : spreadAll holds (2 * 1) t.contents = [] := eq_nil_of_length_eq_zero (by omega)
        rw [hnone, hspread] at h
        exact (perm_append_left_iff [t]).mp h
      · intro h
        rw [h.1, spreadAll_nil h.1]
        exact List.Perm.cons t h.2

end RoseTree

end Backlands.Lib
