/-
  Backlands.Lib.Breadth — what a walk through containers comes to, and what is left of it
  when things are taken away.

  `walk` goes through a queue of containers breadth first and lists what they hold; `reached`
  lists the same depth first. Only labels that hold are gone into. `prune` takes the trees
  away whose labels are gone, with all they hold.

  Proved: the two lists are the same up to order (`walk_perm`); what is reached before is
  what is left and what went with something that is gone (`reachedAll_prune`), which is only
  what is gone itself when nothing in it holds (`reachedAll_prune_leaves`).
-/

import Backlands.Lib.Harvest

namespace Backlands.Lib

open List

variable {α β : Type*} (holds : α → Bool)

namespace RoseTree

mutual
/-- The label of the tree and, if it holds, what is reached in it. -/
def reached : RoseTree α → List α
  | node a ts => a :: if holds a then reachedAll ts else []
def reachedAll : List (RoseTree α) → List α
  | [] => []
  | t :: ts => reached t ++ reachedAll ts
end

mutual
/-- The tree and, if it holds, the trees in it. -/
def trees : RoseTree α → List (RoseTree α)
  | node a ts => node a ts :: if holds a then treesAll ts else []
def treesAll : List (RoseTree α) → List (RoseTree α)
  | [] => []
  | t :: ts => trees t ++ treesAll ts
end

/-- The trees that a queue of containers holds, breadth first. -/
def walkTrees : Nat → List (RoseTree α) → List (RoseTree α)
  | 0, _ => []
  | _, [] => []
  | n + 1, t :: q => t.contents ++ walkTrees n (q ++ t.contents.filter fun u => holds u.label)

/-- What a queue of containers holds, breadth first. -/
def walk : Nat → List (RoseTree α) → List α
  | 0, _ => []
  | _, [] => []
  | n + 1, t :: q => t.contents.map label ++ walk n (q ++ t.contents.filter fun u => holds u.label)

mutual
/-- The tree without those in it that are gone. -/
def prune (gone : α → Bool) : RoseTree α → List (RoseTree α)
  | node a ts => if gone a then [] else [node a (pruneAll gone ts)]
def pruneAll (gone : α → Bool) : List (RoseTree α) → List (RoseTree α)
  | [] => []
  | t :: ts => prune gone t ++ pruneAll gone ts
end

mutual
/-- What is reached of the tree and goes with one that is gone. -/
def lost (gone : α → Bool) : RoseTree α → List α
  | node a ts => if gone a then a :: (if holds a then reachedAll holds ts else []) else if holds a then lostAll gone ts else []
def lostAll (gone : α → Bool) : List (RoseTree α) → List α
  | [] => []
  | t :: ts => lost gone t ++ lostAll gone ts
end

variable {holds}

theorem inductionAll {P : List (RoseTree α) → Prop} (hnil : P [])
    (hcons : ∀ t ts, P t.contents → P ts → P (t :: ts)) (ts : List (RoseTree α)) : P ts := by
  have hall : ∀ ts : List (RoseTree α), (∀ t ∈ ts, P t.contents) → P ts := by
    intro ts
    induction ts with
    | nil => exact fun _ => hnil
    | cons t ts ih => exact fun h => hcons t ts (h t mem_cons_self) (ih fun u hu => h u (mem_cons_of_mem _ hu))
  have htree : ∀ t : RoseTree α, P t.contents := fun t => induction (P := fun t => P t.contents) (fun _ ts h => hall ts h) t
  exact hall ts fun t _ => htree t

theorem reached_eq (t : RoseTree α) :
    reached holds t = t.label :: if holds t.label then reachedAll holds t.contents else [] := by
  cases t
  rfl

theorem trees_eq (t : RoseTree α) : trees holds t = t :: if holds t.label then treesAll holds t.contents else [] := by
  cases t
  rfl

theorem reachedAll_append (ts us : List (RoseTree α)) :
    reachedAll holds (ts ++ us) = reachedAll holds ts ++ reachedAll holds us := by
  induction ts with
  | nil => rfl
  | cons t ts ih => rw [cons_append, reachedAll, ih, reachedAll, append_assoc]

theorem treesAll_perm (ts : List (RoseTree α)) : (treesAll holds ts).Perm
    (ts ++ (ts.filter fun t => holds t.label).flatMap fun t => treesAll holds t.contents) := by
  induction ts with
  | nil => exact List.Perm.refl _
  | cons t ts ih =>
    rw [treesAll, trees_eq, cons_append, cons_append]
    refine List.Perm.cons _ ?_
    cases hh : holds t.label with
    | false =>
      rw [filter_cons_of_neg (by simp [hh])]
      simpa using ih
    | true =>
      rw [if_pos rfl, filter_cons_of_pos (by simp [hh]), flatMap_cons]
      exact (ih.append_left _).trans (by
        rw [← append_assoc, ← append_assoc]
        exact perm_append_comm.append_right _)

theorem sizes_filter_le (p : RoseTree α → Bool) (ts : List (RoseTree α)) : sizes (ts.filter p) ≤ sizes ts := by
  induction ts with
  | nil => exact le_rfl
  | cons u ts ih =>
    rw [filter_cons]
    split
    · simp only [sizes]
      omega
    · simp only [sizes]
      omega

theorem walkTrees_perm {n : Nat} {q : List (RoseTree α)} (hn : sizes q ≤ n) :
    (walkTrees holds n q).Perm (q.flatMap fun t => treesAll holds t.contents) := by
  induction n generalizing q with
  | zero =>
    cases q with
    | nil => exact List.Perm.refl _
    | cons t q =>
      rw [sizes, size_eq] at hn
      omega
  | succ n ih =>
    cases q with
    | nil => exact List.Perm.refl _
    | cons t q =>
      have hsize : sizes (q ++ t.contents.filter fun u => holds u.label) ≤ n := by
        have := sizes_filter_le (fun u => holds u.label) t.contents
        rw [sizes, size_eq] at hn
        rw [sizes_append]
        omega
      refine ((ih hsize).append_left _).trans ?_
      rw [flatMap_append]
      refine (List.Perm.append_left _ perm_append_comm).trans ?_
      rw [← append_assoc]
      exact (treesAll_perm t.contents).symm.append_right _

theorem map_treesAll (ts : List (RoseTree α)) : (treesAll holds ts).map label = reachedAll holds ts := by
  induction ts using inductionAll with
  | hnil => rfl
  | hcons t ts iht ihts =>
    rw [treesAll, reachedAll, map_append, ihts, trees_eq, reached_eq]
    cases holds t.label with
    | true => simp [iht]
    | false => rfl

theorem map_walkTrees (n : Nat) (q : List (RoseTree α)) : (walkTrees holds n q).map label = walk holds n q := by
  induction n generalizing q with
  | zero => rfl
  | succ n ih =>
    cases q with
    | nil => rfl
    | cons t q => rw [walkTrees, walk, map_append, ih]

theorem walk_perm {n : Nat} {q : List (RoseTree α)} (hn : sizes q ≤ n) :
    (walk holds n q).Perm (q.flatMap fun t => reachedAll holds t.contents) := by
  have htrees : (walkTrees holds n q).Perm (q.flatMap fun t => treesAll holds t.contents) := walkTrees_perm hn
  have hwalk := htrees.map label
  simpa only [map_walkTrees, map_flatMap, map_treesAll] using hwalk

theorem reachedAll_perm (ts : List (RoseTree α)) : (reachedAll holds ts).Perm
    (ts.map label ++ (ts.filter fun t => holds t.label).flatMap fun t => reachedAll holds t.contents) := by
  have htrees := (@treesAll_perm _ holds ts).map label
  simpa only [map_treesAll, map_append, map_flatMap] using htrees

theorem perm_shuffle (a b c d : List α) : ((a ++ b) ++ (c ++ d)).Perm ((a ++ c) ++ (b ++ d)) := by
  rw [append_assoc, append_assoc]
  refine List.Perm.append_left _ ?_
  rw [← append_assoc, ← append_assoc]
  exact perm_append_comm.append_right _

theorem pruneAll_append (gone : α → Bool) (ts us : List (RoseTree α)) :
    pruneAll gone (ts ++ us) = pruneAll gone ts ++ pruneAll gone us := by
  induction ts with
  | nil => rfl
  | cons t ts ih => rw [cons_append, pruneAll, ih, pruneAll, append_assoc]

theorem prune_eq (gone : α → Bool) (t : RoseTree α) :
    prune gone t = if gone t.label then [] else [node t.label (pruneAll gone t.contents)] := by
  cases t
  rfl

theorem lost_eq (gone : α → Bool) (t : RoseTree α) : lost holds gone t =
    if gone t.label then t.label :: (if holds t.label then reachedAll holds t.contents else [])
    else if holds t.label then lostAll holds gone t.contents else [] := by
  cases t
  rfl

theorem reachedAll_node (a : α) (ts : List (RoseTree α)) :
    reachedAll holds [node a ts] = a :: if holds a then reachedAll holds ts else [] := by
  rw [reachedAll, reachedAll, append_nil, reached]

theorem reachedAll_prune (gone : α → Bool) (ts : List (RoseTree α)) :
    (reachedAll holds ts).Perm (reachedAll holds (pruneAll gone ts) ++ lostAll holds gone ts) := by
  induction ts using inductionAll with
  | hnil => exact List.Perm.refl _
  | hcons t ts iht ihts =>
    have ht : (reached holds t).Perm (reachedAll holds (prune gone t) ++ lost holds gone t) := by
      rw [reached_eq, prune_eq, lost_eq]
      cases gone t.label with
      | true => exact List.Perm.refl _
      | false =>
        simp only [Bool.false_eq_true, if_false, reachedAll_node]
        cases holds t.label with
        | true => exact List.Perm.cons _ iht
        | false => exact List.Perm.refl _
    rw [reachedAll, pruneAll, reachedAll_append, lostAll]
    exact (ht.append ihts).trans (perm_shuffle _ _ _ _)

theorem reachedAll_prune_leaves {gone : α → Bool} {ts : List (RoseTree α)}
    (hg : ∀ a ∈ reachedAll holds ts, gone a = true → holds a = false) :
    reachedAll holds (pruneAll gone ts) = (reachedAll holds ts).filter fun a => !gone a := by
  induction ts using inductionAll with
  | hnil => rfl
  | hcons t ts iht ihts =>
    have hts := ihts fun b hb => hg b (mem_append_right _ hb)
    have ht : reachedAll holds (prune gone t) = (reached holds t).filter fun a => !gone a := by
      have hin : ∀ a ∈ reached holds t, gone a = true → holds a = false := fun a ha => hg a (mem_append_left _ ha)
      rw [reached_eq] at hin ⊢
      rw [prune_eq]
      cases hgt : gone t.label with
      | true => simp [hin t.label mem_cons_self hgt, hgt, reachedAll]
      | false =>
        simp only [Bool.false_eq_true, if_false, reachedAll_node]
        cases hh : holds t.label with
        | true =>
          have hdeep := iht fun b hb => hin b (mem_cons_of_mem _ (by rw [if_pos hh]; exact hb))
          simp [hgt, hdeep]
        | false => simp [hgt]
    rw [pruneAll, reachedAll_append, ht, hts, reachedAll, filter_append]

theorem kept_pruneAll (gone : α → Bool) (ts : List (RoseTree α)) :
    ∀ a ∈ reachedAll holds (pruneAll gone ts), gone a = false := by
  induction ts using inductionAll with
  | hnil => exact nofun
  | hcons t ts iht ihts =>
    intro b hb
    rw [pruneAll, reachedAll_append, prune_eq] at hb
    rcases mem_append.mp hb with hb | hb
    · cases hg : gone t.label with
      | true => simp [hg, reachedAll] at hb
      | false =>
        simp only [hg, Bool.false_eq_true, if_false, reachedAll_node] at hb
        grind
    · exact ihts b hb

theorem lostAll_gone (gone : α → Bool) (ts : List (RoseTree α)) :
    ((lostAll holds gone ts).filter gone).Perm ((reachedAll holds ts).filter gone) := by
  have h : (reachedAll holds ts).filter gone |>.Perm
      ((reachedAll holds (pruneAll gone ts) ++ lostAll holds gone ts).filter gone) := (reachedAll_prune gone ts).filter gone
  have hnone : (reachedAll holds (pruneAll gone ts)).filter gone = [] := by
    refine filter_eq_nil_iff.mpr fun a ha => ?_
    rw [kept_pruneAll gone ts a ha]
    exact Bool.false_ne_true
  rw [filter_append, hnone, nil_append] at h
  exact h.symm

theorem pruneAll_pruneAll (g g' : α → Bool) (ts : List (RoseTree α)) :
    pruneAll g' (pruneAll g ts) = pruneAll (fun a => g a || g' a) ts := by
  induction ts using inductionAll with
  | hnil => rfl
  | hcons t ts iht ihts =>
    rw [pruneAll, pruneAll_append, ihts, pruneAll, prune_eq, prune_eq]
    cases hg : g t.label with
    | true => simp [pruneAll]
    | false =>
      cases hg' : g' t.label with
      | true => simp [prune, hg', pruneAll]
      | false => simp [prune, hg', pruneAll, iht]

theorem pruneAll_congr {g g' : α → Bool} (h : ∀ a, g a = g' a) (ts : List (RoseTree α)) :
    pruneAll g ts = pruneAll g' ts := by rw [show g = g' from funext h]

theorem pruneAll_none (ts : List (RoseTree α)) : pruneAll (fun _ => false) ts = ts := by
  induction ts using inductionAll with
  | hnil => rfl
  | hcons t ts iht ihts =>
    rw [pruneAll, prune_eq, iht, ihts]
    cases t
    rfl

theorem reachedAll_map {f : α → α} (hf : ∀ a, holds (f a) = holds a) (ts : List (RoseTree α)) :
    reachedAll holds (mapAll f ts) = (reachedAll holds ts).map f := by
  induction ts using inductionAll with
  | hnil => rfl
  | hcons t ts iht ihts =>
    have ht : reached holds (map f t) = (reached holds t).map f := by
      cases t with
      | node a us =>
        have iht : reachedAll holds (mapAll f us) = (reachedAll holds us).map f := iht
        rw [map, reached, reached, hf, iht, map_cons]
        split
        · rfl
        · rfl
    rw [mapAll, reachedAll, ht, ihts, reachedAll, map_append]

end RoseTree

end Backlands.Lib
