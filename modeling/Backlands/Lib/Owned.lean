/-
  Backlands.Lib.Owned — a keyed table whose rows each own one node of an ordered index.

  The table is a list of rows, the index a list of nodes in the order of their ranks; a row
  keeps a handle on its node (the node's identity, as an iterator into the index would be)
  and a node carries its row's key. The two are tied by `Owned`: every row's handle is the
  identity of the one node with its key, and that node has the rank the row asks for.

  Proved: `Owned` is kept when a row and its node are added (`Owned.add`) or removed
  (`Owned.remove`); under it rows and nodes are as many (`Owned.length_eq`) and each finds
  its other half (`Owned.node`, `Owned.row`).
-/

import Mathlib.Data.List.Sort
import Backlands.Lib.Table

namespace Backlands.Lib

open List

variable {κ β τ : Type*}

structure IndexNode (τ κ : Type*) where
  id : Nat
  rank : τ
  key : κ
  deriving DecidableEq

/-- A new node goes behind those of its own rank, as in a multimap. -/
def emplace [LT τ] [DecidableLT τ] (n : IndexNode τ κ) (index : List (IndexNode τ κ)) : List (IndexNode τ κ) :=
  index.orderedInsert (fun m m' => m.rank < m'.rank) n

theorem emplace_cons_of_not_lt [LT τ] [DecidableLT τ] {n m : IndexNode τ κ} (h : ¬ n.rank < m.rank)
    (index : List (IndexNode τ κ)) : emplace n (m :: index) = m :: emplace n index := by
  unfold emplace
  rw [orderedInsert_cons, if_neg h]

theorem sorted_emplace [LE τ] [LT τ] [DecidableLT τ] [Std.IsLinearPreorder τ] [Std.LawfulOrderLT τ]
    {n : IndexNode τ κ} {index : List (IndexNode τ κ)} (h : index.Pairwise fun m m' => m.rank ≤ m'.rank) :
    (emplace n index).Pairwise fun m m' => m.rank ≤ m'.rank := by
  induction index with
  | nil => exact pairwise_singleton _ _
  | cons m index ih =>
    have hm := pairwise_cons.mp h
    unfold emplace
    rw [orderedInsert_cons]
    split
    · next hlt =>
      grind
    next hge =>
    refine pairwise_cons.mpr ⟨fun x hx => ?_, ih hm.2⟩
    rcases mem_cons.mp ((perm_orderedInsert _ _ _).subset hx) with rfl | hx
    · exact Std.not_lt.mp hge
    · exact hm.1 x hx

/-! ## The tie between the table and its index -/

/-- Rows and nodes in bijection: `paired` matches each row's handle, rank and key with a node's. -/
structure Owned [LE τ] (handle : β → Option Nat) (rank : β → τ) (rows : List (κ × β))
    (index : List (IndexNode τ κ)) (fresh : Nat) : Prop where
  keys : (rows.map Prod.fst).Nodup
  ids : (index.map IndexNode.id).Nodup
  below : ∀ n ∈ index, n.id < fresh
  sorted : index.Pairwise fun m n => m.rank ≤ n.rank
  paired : (rows.map fun r => (handle r.2, rank r.2, r.1)).Perm (index.map fun n => (some n.id, n.rank, n.key))

namespace Owned

variable [LE τ] {handle : β → Option Nat} {rank : β → τ} {rows rows' : List (κ × β)}
  {index : List (IndexNode τ κ)} {fresh : Nat} {k : κ} {b : β} {n : IndexNode τ κ}

theorem empty : Owned handle rank ([] : List (κ × β)) [] fresh :=
  ⟨nodup_nil, nodup_nil, by simp, List.Pairwise.nil, List.Perm.refl _⟩

theorem perm (h : Owned handle rank rows index fresh) (hp : rows.Perm rows') :
    Owned handle rank rows' index fresh :=
  ⟨(hp.map _).nodup_iff.mp h.keys, h.ids, h.below, h.sorted, (hp.map _).symm.trans h.paired⟩

theorem length_eq (h : Owned handle rank rows index fresh) : rows.length = index.length := by
  simpa using h.paired.length_eq

theorem node (h : Owned handle rank rows index fresh) (hm : (k, b) ∈ rows) :
    ∃ n ∈ index, handle b = some n.id ∧ n.rank = rank b ∧ n.key = k := by
  have hg := h.paired.subset (mem_map.mpr ⟨_, hm, rfl⟩)
  obtain ⟨n, hn, e⟩ := mem_map.mp hg
  simp only [Prod.mk.injEq] at e
  exact ⟨n, hn, e.1.symm, e.2.1, e.2.2⟩

theorem row (h : Owned handle rank rows index fresh) (hn : n ∈ index) :
    ∃ b, (n.key, b) ∈ rows ∧ handle b = some n.id ∧ rank b = n.rank := by
  have hg := h.paired.symm.subset (mem_map.mpr ⟨n, hn, rfl⟩)
  obtain ⟨⟨k, b⟩, hr, e⟩ := mem_map.mp hg
  simp only [Prod.mk.injEq] at e
  refine ⟨b, ?_, e.1, e.2.1⟩
  rwa [← e.2.2]

theorem node_keys (h : Owned handle rank rows index fresh) : (index.map IndexNode.key).Nodup := by
  have hp := h.paired.map fun p => p.2.2
  simp only [map_map, Function.comp_def] at hp
  exact hp.nodup_iff.mp h.keys

theorem remove [DecidableEq κ] (h : Owned handle rank rows index fresh) (hm : (k, b) ∈ rows) (hn : n ∈ index)
    (hb : handle b = some n.id) :
    Owned handle rank (rows.filter fun r => r.1 ≠ k) (index.filter fun m => m.id ≠ n.id) fresh := by
  obtain ⟨n', hn', hid, hrank, hkey⟩ := h.node hm
  have he : n' = n := inj_on_of_nodup_map h.ids hn' hn (Option.some.inj (hid.symm.trans hb))
  subst he
  refine ⟨h.keys.sublist (filter_sublist.map _), h.ids.sublist (filter_sublist.map _),
    fun m hm => h.below m (mem_filter.mp hm).1, h.sorted.sublist filter_sublist, ?_⟩
  have hrows := (perm_cons_filter h.keys hm).map fun r => (handle r.2, rank r.2, r.1)
  have hindex := (perm_cons_filter h.ids hn).map fun m => (some m.id, m.rank, m.key)
  have hp := (hrows.symm.trans h.paired).trans hindex
  rw [map_cons, map_cons, hid, ← hrank, ← hkey] at hp
  rw [hkey] at hp
  exact hp.cons_inv

theorem add [LT τ] [DecidableLT τ] [Std.IsLinearPreorder τ] [Std.LawfulOrderLT τ]
    (h : Owned handle rank rows index fresh) (hk : k ∉ rows.map Prod.fst) (hb : handle b = some fresh) :
    Owned handle rank ((k, b) :: rows) (emplace ⟨fresh, rank b, k⟩ index) (fresh + 1) := by
  have hp : (emplace ⟨fresh, rank b, k⟩ index).Perm (⟨fresh, rank b, k⟩ :: index) :=
    perm_orderedInsert _ _ _
  refine ⟨?_, ?_, ?_, ?_, ?_⟩
  · rw [map_cons, nodup_cons]
    exact ⟨hk, h.keys⟩
  · rw [(hp.map IndexNode.id).nodup_iff, map_cons, nodup_cons]
    refine ⟨fun hmem => ?_, h.ids⟩
    obtain ⟨m, hm, e⟩ := mem_map.mp hmem
    have := h.below m hm
    simp only at e
    omega
  · intro m hm
    rcases mem_cons.mp (hp.subset hm) with rfl | hm
    · exact Nat.lt_succ_self _
    · exact Nat.lt_succ_of_lt (h.below m hm)
  · exact sorted_emplace h.sorted
  · refine List.Perm.trans ?_ (hp.map fun m => (some m.id, m.rank, m.key)).symm
    rw [map_cons, map_cons, hb]
    exact h.paired.cons _

end Owned

end Backlands.Lib
