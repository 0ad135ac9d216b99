/-
  Backlands.World.OpenList — the order of the open nodes of a path search, over all the
  searches of a thread (src/map.cpp).

  The searches of a thread come one after the other on one workspace. A call is one that the
  search loop can make (`Can`): a node is created for a square that `GetNodeByPosition` has
  none for, opened after its `f` was lowered, and closed while it is open. The nodes that are
  open and the squares in the order of their nodes are kept beside the state.

  Proved: in every state reached the heap has the least `f` at the root and holds the open
  nodes, the table finds the squares of this search, and no probe is without end
  (`open_list`); and the calls of `search` are such calls (`search_calls`).
-/

import Backlands.Lib.Heap
import Backlands.World.PathSearch
import Mathlib.Data.Finset.Basic

namespace Backlands.World

open Backlands.Lib Function Option List

namespace AStarNodes

variable {s : AStarNodes} {items : Set Nat} {n pos size f : Nat}

/-! ## The order of the heap -/

/-- No node of the heap has a lower `f` than its parent. -/
def MinHeap (s : AStarNodes) : Prop := Heap.Ordered s.heapF s.heap_size

theorem heapF_put (pos n : Nat) (s : AStarNodes) :
    (s.put pos n).heapF = update s.heapF pos (s.nodes.read n).f := by
  funext i
  show (s.nodes.read ((s.heap.write pos n).read i)).f = _
  by_cases hi : i = pos
  · rw [hi, Memory.read_write_self, update_self]
  · rw [Memory.read_write_of_ne _ hi, update_of_ne hi]
    rfl

theorem rise_order (f pos : Nat) (s : AStarNodes) (h : Heap.Hole s.heapF size pos)
    (hb : Heap.BelowChildren s.heapF size pos f) (hpos : pos < size) :
    Heap.Hole (SiftUp.rise f pos s).2.heapF size (SiftUp.rise f pos s).1 ∧
      Heap.BelowChildren (SiftUp.rise f pos s).2.heapF size (SiftUp.rise f pos s).1 f ∧
      Heap.AboveParent (SiftUp.rise f pos s).2.heapF (SiftUp.rise f pos s).1 f := by
  induction pos, s using SiftUp.rise.induct (f := f) with
  | case1 pos s hpos0 parentPos hstop =>
    rw [SiftUp.rise, if_pos hpos0]
    rw [if_pos hstop]
    exact ⟨h, hb, fun _ => hstop⟩
  | case2 pos s hpos0 parentPos hgo ih =>
    rw [SiftUp.rise, if_pos hpos0]
    rw [if_neg hgo]
    have hup := h.up hpos0 hpos (Nat.le_of_lt (Nat.lt_of_not_le hgo))
    have hput : (s.put pos (s.heap.read parentPos)).heapF = update s.heapF pos (s.heapF (Heap.parent pos)) :=
      heapF_put ..
    exact ih (hput ▸ hup.1) (hput ▸ hup.2) (by omega)
  | case3 pos s hpos0 =>
    rw [SiftUp.rise, if_neg hpos0]
    exact ⟨h, hb, fun hp => absurd hp hpos0⟩

theorem smallerChild_spec (hpos : 2 * pos + 1 < s.heap_size) :
    smallerChild (2 * pos + 1) s < s.heap_size ∧ Heap.parent (smallerChild (2 * pos + 1) s) = pos ∧
      ∀ i < s.heap_size, 0 < i → Heap.parent i = pos → s.heapF (smallerChild (2 * pos + 1) s) ≤ s.heapF i := by
  have htwo : ∀ i, 0 < i → Heap.parent i = pos → i = 2 * pos + 1 ∨ i = 2 * pos + 1 + 1 := by
    intro i hi he
    unfold Heap.parent at he
    omega
  unfold smallerChild
  split
  · next hless =>
    refine ⟨hless.1, by unfold Heap.parent; omega, ?_⟩
    grind
  · next hless =>
    refine ⟨hpos, by unfold Heap.parent; omega, ?_⟩
    grind

/-- The hole sinks until its value is not above its children's, and is not below the parent's if it moved. -/
theorem sink_order (f pos : Nat) (s : AStarNodes) (h : Heap.Hole s.heapF s.heap_size pos) :
    Heap.Hole (SiftDown.sink f pos s).2.heapF s.heap_size (SiftDown.sink f pos s).1 ∧
      Heap.BelowChildren (SiftDown.sink f pos s).2.heapF s.heap_size (SiftDown.sink f pos s).1 f ∧
      (SiftDown.sink f pos s = (pos, s) ∨ Heap.AboveParent (SiftDown.sink f pos s).2.heapF (SiftDown.sink f pos s).1 f) := by
  induction pos, s using SiftDown.sink.induct (f := f) with
  | case1 pos s hlast =>
    rw [SiftDown.sink, if_pos hlast]
    refine ⟨h, ?_, .inl rfl⟩
    intro i hi hi0 he
    unfold Heap.parent at he
    omega
  | case2 pos s hlast child hstop =>
    rw [SiftDown.sink, if_neg hlast]
    dsimp only
    rw [if_pos hstop]
    refine ⟨h, ?_, .inl rfl⟩
    intro i hi hi0 he
    exact le_trans hstop ((smallerChild_spec (by omega)).2.2 i hi hi0 he)
  | case3 pos s hlast child hgo ih =>
    rw [SiftDown.sink, if_neg hlast]
    dsimp only
    rw [if_neg hgo]
    rcases smallerChild_spec (Nat.lt_of_not_ge hlast) with ⟨hlt, hparent, hleast⟩
    have hgt : pos < child := smallerChild_gt pos s
    have hdown := h.down hlt (by omega) hparent hleast
    have hput : (s.put pos (s.heap.read child)).heapF = update s.heapF pos (s.heapF child) := heapF_put ..
    rcases ih (hput ▸ hdown) with ⟨hhole, hbelow, hend⟩
    refine ⟨hhole, hbelow, .inr ?_⟩
    rcases hend with hstay | habove
    · rw [hstay]
      intro _
      rw [hput, hparent, update_self]
      exact Nat.le_of_lt (Nat.lt_of_not_ge hgo)
    · exact habove

theorem SiftUp_eq (pos : Nat) (s : AStarNodes) : s.SiftUp pos =
    (SiftUp.rise (s.heapF pos) pos s).2.put (SiftUp.rise (s.heapF pos) pos s).1 (s.heap.read pos) := rfl

theorem SiftDown_eq (pos : Nat) (s : AStarNodes) : s.SiftDown pos =
    ((SiftDown.sink (s.heapF pos) pos s).2.put (SiftDown.sink (s.heapF pos) pos s).1 (s.heap.read pos),
      (SiftDown.sink (s.heapF pos) pos s).1) := rfl

theorem SiftUp_order (hs : HeapOf s items) (hpos : pos < s.heap_size) (h : Heap.Hole s.heapF s.heap_size pos)
    (hb : Heap.BelowChildren s.heapF s.heap_size pos (s.heapF pos)) : Heap.Ordered (s.SiftUp pos).heapF s.heap_size := by
  rcases rise_order _ pos s h hb hpos with ⟨hhole, hbelow, habove⟩
  rcases rise_spec (s.heapF pos) pos s (hs.hole hpos) hpos with ⟨hsame, -⟩
  rw [SiftUp_eq, heapF_put, hsame.nodes]
  exact hhole.fill hbelow habove

theorem SiftDown_order (hs : HeapOf s items) (hpos : pos < s.heap_size) (h : Heap.Hole s.heapF s.heap_size pos) :
    Heap.Hole (s.SiftDown pos).1.heapF s.heap_size (s.SiftDown pos).2 ∧
      Heap.BelowChildren (s.SiftDown pos).1.heapF s.heap_size (s.SiftDown pos).2
        ((s.SiftDown pos).1.heapF (s.SiftDown pos).2) ∧
      ((s.SiftDown pos).2 ≠ pos → Heap.Ordered (s.SiftDown pos).1.heapF s.heap_size) := by
  rcases sink_order (s.heapF pos) pos s h with ⟨hhole, hbelow, hend⟩
  rcases sink_spec (s.heapF pos) pos s (hs.hole hpos) hpos with ⟨hsame, -, -⟩
  have hput : (s.SiftDown pos).1.heapF =
      update (SiftDown.sink (s.heapF pos) pos s).2.heapF (SiftDown.sink (s.heapF pos) pos s).1 (s.heapF pos) := by
    rw [SiftDown_eq, heapF_put, hsame.nodes]
    rfl
  have hat : (s.SiftDown pos).2 = (SiftDown.sink (s.heapF pos) pos s).1 := rfl
  have hne : ∀ i, i ≠ (SiftDown.sink (s.heapF pos) pos s).1 →
      (s.SiftDown pos).1.heapF i = (SiftDown.sink (s.heapF pos) pos s).2.heapF i := by
    intro i hi
    rw [hput, update_of_ne hi]
  rw [hat]
  refine ⟨hhole.congr fun i _ hi => hne i hi, ?_, ?_⟩
  · intro i hi hi0 he
    have hlt := Heap.parent_lt hi0
    rw [hne i (by omega), hput, update_self]
    exact hbelow i hi hi0 he
  · intro hmoved
    rw [hput]
    refine hhole.fill hbelow (hend.resolve_left ?_)
    intro hstay
    exact hmoved (congrArg Prod.fst hstay)

/-! ## Every operation keeps the order -/

theorem pushNode_order (hs : HeapOf s items) (hn : n ∉ items) (h : s.MinHeap) : (s.pushNode n).MinHeap := by
  rcases pushNode_spec hs hn with ⟨hsame, -⟩
  rcases h.push (s.nodes.read n).f with ⟨hhole, hbelow⟩
  have hput := heapF_put s.heap_size n s
  have hhole : Heap.Hole (s.put s.heap_size n).heapF (s.heap_size + 1) s.heap_size := by
    rw [hput]
    exact hhole.congr fun i _ hi => update_of_ne hi ..
  have hbelow : Heap.BelowChildren (s.put s.heap_size n).heapF (s.heap_size + 1) s.heap_size
      ((s.put s.heap_size n).heapF s.heap_size) := by
    intro i hi hi0 he
    have hlt := Heap.parent_lt hi0
    omega
  unfold MinHeap
  rw [hsame.heap_size]
  exact SiftUp_order (hs.pushed hn) (Nat.lt_succ_self _) hhole hbelow

theorem closeNode_order (hs : HeapOf s items) (hn : n ∈ items) (h : s.MinHeap) : (s.CloseNode n).MinHeap := by
  rcases closeNode_heap hs hn with ⟨hsame, -, hpos⟩
  rcases hs.exists_place hn with ⟨position, hlt, hplace, -⟩
  obtain ⟨size, hsize⟩ : ∃ size, s.heap_size = size + 1 := ⟨s.heap_size - 1, by omega⟩
  have hless : s.heap_size - 1 = size := by omega
  unfold MinHeap
  rw [hsame.heap_size]
  unfold CloseNode
  rw [hplace]
  dsimp only
  rw [hless]
  have hshort : Heap.Ordered s.heapF size := Heap.Ordered.mono h (by omega)
  split
  · exact hshort
  next hlast =>
  have hposition : position < size := by omega
  have htaken := hs.taken hsize hplace hlast
  have hhole : Heap.Hole (put position (s.heap.read size) { s with
      node_to_heap := s.node_to_heap.write n none, closed_nodes := s.closed_nodes + 1, heap_size := size }).heapF
      size position := by
    rw [heapF_put]
    exact (hshort.hole hposition).congr fun i _ hi => update_of_ne hi ..
  rcases SiftDown_spec htaken hposition with ⟨hdown, hslots⟩
  rcases SiftDown_order htaken hposition hhole with ⟨hhole', hbelow, hmoved⟩
  split
  · next hstay =>
    rw [hstay] at hhole' hbelow
    have hup := SiftUp_order hslots (show position < _ by rw [hdown.heap_size]; exact hposition)
    rw [hdown.heap_size] at hup
    exact hup hhole' hbelow
  · next hstay => exact hmoved hstay

theorem createOpenNode_order (h : Inv s items) (ho : s.MinHeap) {parent g_score i : Nat} {x y : BitVec 16}
    {s' : AStarNodes} (hcreate : s.CreateOpenNode parent x y f g_score = some (s', some i)) : s'.MinHeap := by
  unfold CreateOpenNode at hcreate
  split at hcreate
  · cases hcreate
  rcases map_eq_some_iff.mp hcreate with ⟨t, hinsert, he⟩
  rcases map_eq_some_iff.mp hinsert with ⟨slot, -, rfl⟩
  cases he
  refine pushNode_order (s := fill slot _ _ _) h.heap (fun hmem => Nat.lt_irrefl _ (h.items_lt _ hmem)) ?_
  refine ho.congr fun j hj => ?_
  have hne : s.heap.read j ≠ s.current_node := Nat.ne_of_lt (h.items_lt _ (h.heap.slot_mem hj))
  exact congrArg AStarNode.f (Memory.read_write_of_ne _ hne _)

theorem rewriteNode_order (h : Inv s items) (ho : s.MinHeap) (node : AStarNode) (hf : node.f ≤ (s.GetNode n).f) :
    (OpenNode n { s with nodes := s.nodes.write n node }).MinHeap := by
  have hwrite : ∀ i, s.heap.read i ≠ n → heapF { s with nodes := s.nodes.write n node } i = s.heapF i :=
    fun i hi => congrArg AStarNode.f (Memory.read_write_of_ne _ hi _)
  have hheap : HeapOf { s with nodes := s.nodes.write n node } items := h.heap
  unfold OpenNode
  cases hp : s.node_to_heap.read n with
  | none =>
    have hn : n ∉ items := fun hmem => (h.heap.mem_iff n).mp hmem hp
    refine pushNode_order hheap hn ?_
    exact ho.congr fun i hi => hwrite i fun he => hn (he ▸ h.heap.slot_mem hi)
  | some pos =>
    rcases h.heap.slotted n pos hp with ⟨hpos, hslot⟩
    have hat : heapF { s with nodes := s.nodes.write n node } pos = node.f := by
      show ((s.nodes.write n node).read (s.heap.read pos)).f = node.f
      rw [hslot, Memory.read_write_self]
    have haway : ∀ i < s.heap_size, i ≠ pos → heapF { s with nodes := s.nodes.write n node } i = s.heapF i := by
      intro i hi hne
      refine hwrite i fun he => hne ?_
      have hplaced := h.heap.placed i hi
      rw [he, hp] at hplaced
      exact (Option.some.inj hplaced).symm
    have hbelow : Heap.BelowChildren s.heapF s.heap_size pos node.f :=
      ho.belowChildren (by rw [heapF, hslot]; exact hf)
    rcases SiftUp_spec hheap hpos with ⟨hsame, -⟩
    unfold MinHeap
    rw [hsame.heap_size]
    refine SiftUp_order hheap hpos ((ho.hole hpos).congr haway) ?_
    intro i hi hi0 he
    have hlt := Heap.parent_lt hi0
    rw [hat, haway i hi (by omega)]
    exact hbelow i hi hi0 he

/-! ## The searches of a thread -/

abbrev Square := BitVec 16 × BitVec 16

inductive Phase where
  | idle (w : AStarWorkspace)
  | searching (s : AStarNodes) (opened : Finset Nat) (created : List Square)
  /-- A probe that does not end. -/
  | stuck

inductive Call where
  | start (x y : BitVec 16)
  | GetBestNode
  | GetNodeByPosition (x y : BitVec 16)
  | CreateOpenNode (parent : Nat) (x y : BitVec 16) (f g_score : Nat)
  /-- `OpenNode` of the node of a square, with a new parent and new costs. -/
  | OpenNode (x y : BitVec 16) (node_index parent f g_score : Nat)
  | CloseNode (node_index : Nat)
  | finish

def step : Phase → Call → Phase
  | .idle w, .start x y =>
    match make x y w with
    | some s => .searching s {0} [(x, y)]
    | none => .stuck
  | .searching s opened created, .GetNodeByPosition x y =>
    if (s.GetNodeByPosition x y).isSome then .searching s opened created else .stuck
  | .searching s opened created, .CreateOpenNode parent x y f g_score =>
    match s.CreateOpenNode parent x y f g_score with
    | some (s, some node_index) => .searching s (insert node_index opened) (created ++ [(x, y)])
    | some (s, none) => .searching s opened created
    | none => .stuck
  | .searching s opened created, .OpenNode _ _ node_index parent f g_score =>
    let node := { s.GetNode node_index with f := f, g_score := g_score, parent := some parent }
    .searching ({ s with nodes := s.nodes.write node_index node }.OpenNode node_index) (insert node_index opened) created
  | .searching s opened created, .CloseNode node_index =>
    .searching (s.CloseNode node_index) (opened.erase node_index) created
  | .searching s _ _, .finish => .idle s.release
  | p, _ => p

def Can : Phase → Call → Prop
  | .searching s _ _, .CreateOpenNode _ x y _ _ => s.GetNodeByPosition x y = some none
  | .searching s _ _, .OpenNode x y node_index _ f _ =>
    s.GetNodeByPosition x y = some (some node_index) ∧ f < (s.GetNode node_index).f
  | .searching _ opened _, .CloseNode node_index => node_index ∈ opened
  | _, _ => True

instance : ∀ p c, Decidable (Can p c)
  | .searching s _ _, .CreateOpenNode _ x y _ _ => inferInstanceAs (Decidable (s.GetNodeByPosition x y = some none))
  | .searching s _ _, .OpenNode x y node_index _ f _ =>
    inferInstanceAs (Decidable (s.GetNodeByPosition x y = some (some node_index) ∧ f < (s.GetNode node_index).f))
  | .searching _ opened _, .CloseNode node_index => inferInstanceAs (Decidable (node_index ∈ opened))
  | .searching _ _ _, .start _ _ => inferInstanceAs (Decidable True)
  | .searching _ _ _, .GetBestNode => inferInstanceAs (Decidable True)
  | .searching _ _ _, .GetNodeByPosition _ _ => inferInstanceAs (Decidable True)
  | .searching _ _ _, .finish => inferInstanceAs (Decidable True)
  | .idle _, _ => inferInstanceAs (Decidable True)
  | .stuck, _ => inferInstanceAs (Decidable True)

/-- What a search keeps. -/
structure Kept (s : AStarNodes) (opened : Finset Nat) (created : List Square) : Prop where
  inv : Inv s opened
  order : s.MinHeap
  created : created = (List.range s.current_node).map fun i => ((s.GetNode i).x, (s.GetNode i).y)

def PhaseInv : Phase → Prop
  | .idle w => Ready w
  | .searching s opened created => Kept s opened created
  | .stuck => False

variable {opened : Finset Nat} {created : List Square}

theorem Kept.found (h : Kept s opened created) (x y : BitVec 16) :
    ∃ r, s.GetNodeByPosition x y = some r ∧ ∀ i, r = some i ↔ created[i]? = some (x, y) := by
  rcases h.inv.find x y with ⟨r, hr, hiff⟩
  refine ⟨r, hr, fun i => ?_⟩
  rw [hiff, h.created, getElem?_map]
  by_cases hi : i < s.current_node
  · simp [hi]
  · simp [hi]

theorem Kept.start {w : AStarWorkspace} (h : Ready w) (x y : BitVec 16) :
    ∃ s, make x y w = some s ∧ Kept s {0} [(x, y)] := by
  rcases make_spec h x y with ⟨s, hmake, hinv, hcurrent, hsize, hnode⟩
  refine ⟨s, hmake, by simpa using hinv, ?_, ?_⟩
  · intro i hi hi0
    omega
  · rw [hcurrent]
    simp [hnode]

theorem Kept.create (h : Kept s opened created) {x y : BitVec 16} (hnone : s.GetNodeByPosition x y = some none)
    (parent f g_score : Nat) :
    s.CreateOpenNode parent x y f g_score = some (s, none) ∨
      ∃ s', s.CreateOpenNode parent x y f g_score = some (s', some s.current_node) ∧
        Kept s' (insert s.current_node opened) (created ++ [(x, y)]) := by
  rcases h.inv.find x y with ⟨r, hr, hiff⟩
  rw [hnone] at hr
  cases hr
  have hfree : ∀ i < s.current_node, ¬((s.GetNode i).x = x ∧ (s.GetNode i).y = y) := by
    intro i hi hxy
    cases (hiff i).mpr ⟨hi, hxy⟩
  rcases createOpenNode_spec h.inv parent f g_score hfree with ⟨-, he⟩ | ⟨s', he, hinv, hcurrent, hnodes⟩
  · exact .inl he
  refine .inr ⟨s', he, by simpa using hinv, createOpenNode_order h.inv h.order he, ?_⟩
  rw [hcurrent, range_succ, map_append, h.created]
  congr 1
  · refine map_congr_left fun i hi => ?_
    rw [hnodes, if_neg (Nat.ne_of_lt (mem_range.mp hi))]
  · simp [hnodes]

theorem Kept.open (h : Kept s opened created) {x y : BitVec 16} (hfound : s.GetNodeByPosition x y = some (some n))
    (parent g_score : Nat) (hf : f < (s.GetNode n).f) :
    Kept ({ s with nodes := s.nodes.write n { s.GetNode n with f := f, g_score := g_score, parent := some parent } }.OpenNode n)
      (insert n opened) created := by
  rcases h.inv.find x y with ⟨r, hr, hiff⟩
  rw [hfound] at hr
  cases hr
  rcases (hiff n).mp rfl with ⟨hn, -⟩
  rcases rewriteNode_spec h.inv hn { s.GetNode n with f := f, g_score := g_score, parent := some parent } rfl rfl with
    ⟨hinv, hcurrent, hnodes⟩
  refine ⟨by simpa using hinv, rewriteNode_order h.inv h.order _ (Nat.le_of_lt hf), ?_⟩
  rw [hcurrent, h.created]
  refine map_congr_left fun i _ => ?_
  rw [hnodes]
  split
  · next hi => rw [hi]
  · rfl

theorem Kept.close (h : Kept s opened created) (hn : n ∈ opened) : Kept (s.CloseNode n) (opened.erase n) created := by
  rcases closeNode_spec h.inv (n := n) (by simpa using hn) with ⟨hinv, hnodes, hcurrent, -⟩
  refine ⟨by simpa using hinv, closeNode_order h.inv.heap (by simpa using hn) h.order, ?_⟩
  rw [hcurrent, h.created]
  unfold GetNode
  rw [hnodes]

theorem phaseInv_step (p : Phase) (c : Call) (hc : Can p c) (h : PhaseInv p) : PhaseInv (step p c) := by
  fun_cases step p c with
  | case1 w x y s hmake =>
    rcases Kept.start h x y with ⟨s', hmake', hkept⟩
    rw [hmake] at hmake'
    cases hmake'
    exact hkept
  | case2 w x y hmake =>
    rcases Kept.start h x y with ⟨s', hmake', -⟩
    rw [hmake] at hmake'
    cases hmake'
  | case3 s opened created x y hsome => exact h
  | case4 s opened created x y hnone =>
    rcases Kept.found h x y with ⟨r, hr, -⟩
    rw [hr] at hnone
    exact hnone rfl
  | case5 s opened created parent x y f g_score s' node_index he =>
    rcases Kept.create h hc parent f g_score with hfull | ⟨s'', he', hkept⟩
    · rw [he] at hfull
      cases hfull
    · rw [he] at he'
      cases he'
      exact hkept
  | case6 s opened created parent x y f g_score s' he =>
    rcases Kept.create h hc parent f g_score with hfull | ⟨s'', he', -⟩
    · grind
    · rw [he] at he'
      cases he'
  | case7 s opened created parent x y f g_score he =>
    rcases Kept.create h hc parent f g_score with hfull | ⟨s'', he', -⟩
    · rw [he] at hfull
      cases hfull
    · rw [he] at he'
      cases he'
  | case8 s opened created x y node_index parent f g_score node =>
    rcases hc with ⟨hfound, hf⟩
    exact Kept.open h hfound parent g_score hf
  | case9 s opened created node_index => exact Kept.close h hc
  | case10 s opened created => exact Inv.ready (Kept.inv h)
  | case11 p c => exact h

/-- The states that the searches of a thread reach. -/
def Reached (p : Phase) : Prop := Reach (fun p => p = .idle {}) step Can p

theorem Reached.call {p : Phase} (h : Reached p) (c : Call) (hc : Can p c) : Reached (step p c) := Reach.step c h hc

theorem Reached.create (h : Reached (.searching s opened created)) {parent g_score : Nat} {x y : BitVec 16}
    (hnone : s.GetNodeByPosition x y = some none) {s' : AStarNodes} {made : Option Nat}
    (hcreate : s.CreateOpenNode parent x y f g_score = some (s', made)) :
    ∃ opened' created', opened ⊆ opened' ∧ Reached (.searching s' opened' created') := by
  have hcall := h.call (.CreateOpenNode parent x y f g_score) hnone
  simp only [step, hcreate] at hcall
  cases made with
  | none => exact ⟨_, _, Finset.Subset.refl _, hcall⟩
  | some i => exact ⟨_, _, Finset.subset_insert i opened, hcall⟩

theorem Reached.cheaper (h : Reached (.searching s opened created)) {x y : BitVec 16}
    (hfound : s.GetNodeByPosition x y = some (some n)) (parent g_score : Nat) (hf : f < (s.GetNode n).f) :
    Reached (.searching
      ({ s with nodes := s.nodes.write n { s.GetNode n with f := f, g_score := g_score, parent := some parent } }.OpenNode n)
      (insert n opened) created) :=
  h.call (.OpenNode x y n parent f g_score) ⟨hfound, hf⟩

theorem Reached.inv {p : Phase} (h : Reached p) : PhaseInv p := by
  refine Reach.inv ?_ (fun p c hc hp => phaseInv_step p c hc hp) h
  rintro p rfl
  exact ready_new

/-- The open list of a search: `opened` are the open nodes and `created` the squares of the nodes. -/
structure OpenList (s : AStarNodes) (opened : Finset Nat) (created : List Square) : Prop where
  minHeap : ∀ i, 0 < i → i < s.heap_size → (s.GetNode (s.heap.read ((i - 1) / 2))).f ≤ (s.GetNode (s.heap.read i)).f
  holds : ∀ n, n ∈ opened ↔ ∃ i < s.heap_size, s.heap.read i = n
  index : ∀ n i, s.node_to_heap.read n = some i ↔ i < s.heap_size ∧ s.heap.read i = n
  found : ∀ x y, ∃ r, s.GetNodeByPosition x y = some r ∧ ∀ i, r = some i ↔ created[i]? = some (x, y)
  room : ∃ slot < ASTAR_HASH_SIZE, s.h_table_values.read slot = none
  create_ends : ∀ parent x y f g_score, s.GetNodeByPosition x y = some none →
    s.CreateOpenNode parent x y f g_score ≠ none
  best : (s.GetBestNode = none ∧ opened = ∅) ∨
    ∃ n ∈ opened, s.GetBestNode = some n ∧ ∀ m ∈ opened, (s.GetNode n).f ≤ (s.GetNode m).f

def PhaseSpec : Phase → Prop
  | .idle w => ∀ x y, make x y w ≠ none
  | .searching s opened created => OpenList s opened created
  | .stuck => False

theorem Inv.room (h : Inv s items) : ∃ slot < ASTAR_HASH_SIZE, s.h_table_values.read slot = none := by
  rcases h.table with ⟨m, hm, -⟩
  rcases hm.free_slot h.used_count_lt 0 with ⟨i, -, hnone⟩
  refine ⟨_, ?_, hnone⟩
  rw [nextSlot_eq]
  cases i with
  | zero => exact slotOf_lt 0
  | succ i =>
    rw [Function.iterate_succ_apply']
    exact Nat.mod_lt _ (by decide)

theorem Kept.openList (h : Kept s opened created) : OpenList s opened created where
  minHeap i hi0 hi := h.order i hi hi0
  holds n := by
    constructor
    · intro hn
      rcases h.inv.heap.exists_place hn with ⟨i, hi, -, he⟩
      exact ⟨i, hi, he⟩
    · rintro ⟨i, hi, rfl⟩
      exact h.inv.heap.slot_mem hi
  index n i := by
    constructor
    · exact h.inv.heap.slotted n i
    · rintro ⟨hi, rfl⟩
      exact h.inv.heap.placed i hi
  found := h.found
  room := h.inv.room
  create_ends parent x y f g_score hnone hend := by
    rcases h.create hnone parent f g_score with he | ⟨s', he, -⟩
    · rw [he] at hend
      cases hend
    · rw [he] at hend
      cases hend
  best := by
    by_cases hsize : s.heap_size = 0
    · left
      refine ⟨if_pos hsize, Finset.eq_empty_of_forall_notMem fun n hn => ?_⟩
      rcases h.inv.heap.exists_place (Finset.mem_coe.mpr hn) with ⟨i, hi, -⟩
      omega
    · right
      refine ⟨s.heap.read 0, Finset.mem_coe.mp (h.inv.heap.slot_mem (Nat.pos_of_ne_zero hsize)), if_neg hsize, ?_⟩
      intro m hm
      rcases h.inv.heap.exists_place (Finset.mem_coe.mpr hm) with ⟨i, hi, -, rfl⟩
      exact Heap.Ordered.root_le h.order hi

end AStarNodes

/-! ## The calls of the search loop -/

namespace PathQuery

open AStarNodes

variable {v : Variant} {q : PathQuery} {s : PathSearch} {opened : Finset Nat} {created : List Square} {nodeIdx : Nat}

theorem tryNeighbor_calls (hp : Reached (.searching s.nodes opened created)) {node : AStarNode} {d : Int × Int} {t : Tried}
    (h : tryNeighbor v q nodeIdx node d s = some t) : ∃ s' opened' created', (t = .next s' ∨ t = .full s') ∧
      opened ⊆ opened' ∧ Reached (.searching s'.nodes opened' created') := by
  unfold tryNeighbor at h
  dsimp only at h
  split at h
  · cases h
    exact ⟨s, opened, created, .inl rfl, Finset.Subset.refl _, hp⟩
  rcases bind_eq_some_iff.mp h with ⟨neighborNodeIdx, hfind, h⟩
  split at h
  · cases h
    exact ⟨_, opened, created, .inl rfl, Finset.Subset.refl _, hp⟩
  next tile _ =>
  split at h
  · next i _ =>
    split at h
    · cases h
      exact ⟨_, opened, created, .inl rfl, Finset.Subset.refl _, hp⟩
    next hless =>
    have hcall := hp.cheaper hfind nodeIdx (node.g_score + walkCost d + q.creature.GetTileWalkCost tile)
      (Nat.lt_of_not_le hless)
    cases h
    exact ⟨_, insert i opened, created, .inl rfl, Finset.subset_insert i opened, hcall⟩
  · rcases bind_eq_some_iff.mp h with ⟨⟨nodes, made⟩, hcreate, h⟩
    rcases hp.create hfind hcreate with ⟨opened', created', hsub, hp'⟩
    split at h
    · cases h
      exact ⟨_, opened', created', .inl rfl, hsub, hp'⟩
    · cases h
      exact ⟨_, opened', created', .inr rfl, hsub, hp'⟩

theorem expand_calls (hp : Reached (.searching s.nodes opened created)) {node : AStarNode} {ds : List (Int × Int)}
    {t : Tried} (h : expand v q nodeIdx node ds s = some t) : ∃ s' opened' created', (t = .next s' ∨ t = .full s') ∧
      opened ⊆ opened' ∧ Reached (.searching s'.nodes opened' created') := by
  induction ds generalizing s opened created with
  | nil =>
    cases h
    exact ⟨s, opened, created, .inl rfl, Finset.Subset.refl _, hp⟩
  | cons d ds ih =>
    unfold expand at h
    cases ht : tryNeighbor v q nodeIdx node d s with
    | none =>
      rw [ht] at h
      cases h
    | some t' =>
      rw [ht] at h
      rcases tryNeighbor_calls hp ht with ⟨s', opened', created', rfl | rfl, hsub, hp'⟩
      · rcases ih hp' h with ⟨s'', opened'', created'', hend, hsub', hp''⟩
        exact ⟨s'', opened'', created'', hend, hsub.trans hsub', hp''⟩
      · cases h
        exact ⟨s', opened', created', .inr rfl, hsub, hp'⟩

theorem turn_calls (hp : Reached (.searching s.nodes opened created)) {t : Turn} (h : turn v q s = some t) :
    ∃ s' opened' created', (t = .again s' ∨ t = .done s' ∨ t = .failed s') ∧
      Reached (.searching s'.nodes opened' created') := by
  have hlook : ∀ i, (q.look i s).2.nodes = s.nodes := by
    grind [look]
  unfold turn at h
  split at h
  · cases h
    exact ⟨s, opened, created, .inr (.inl rfl), hp⟩
  rcases (show OpenList s.nodes opened created from Kept.openList hp.inv).best with ⟨hbest, -⟩ | ⟨i, hi, hbest, -⟩
  · rw [hbest] at h
    dsimp only at h
    split at h
    · cases h
      exact ⟨s, opened, created, .inr (.inl rfl), hp⟩
    · cases h
      exact ⟨s, opened, created, .inr (.inr rfl), hp⟩
  · rw [hbest] at h
    dsimp only at h
    have hp' : Reached (.searching (q.look i s).2.nodes opened created) := by
      rw [hlook]
      exact hp
    split at h
    · cases h
      exact ⟨_, opened, created, .inr (.inl rfl), hp'⟩
    split at h
    · cases h
    · next s' hexpand =>
      cases h
      rcases expand_calls hp' hexpand with ⟨s'', opened', created', hend | hend, hsub, hp''⟩
      · cases hend
        exact ⟨_, _, created', .inl rfl, hp''.call (.CloseNode i) (hsub hi)⟩
      · cases hend
    · next s' hexpand =>
      rcases expand_calls hp' hexpand with ⟨s'', opened', created', hend | hend, hsub, hp''⟩
      · cases hend
      cases hend
      split at h
      · cases h
        exact ⟨_, _, created', .inl rfl, hp''.call (.CloseNode i) (hsub hi)⟩
      · cases h
        exact ⟨_, opened', created', .inr (.inr rfl), hp''⟩

theorem search_calls (hp : Reached (.searching s.nodes opened created)) {fuel : Nat} {r : Bool × PathSearch}
    (h : search v q fuel s = some r) : ∃ opened' created', Reached (.searching r.2.nodes opened' created') := by
  induction fuel generalizing s opened created with
  | zero => cases h
  | succ fuel ih =>
    unfold search at h
    cases ht : turn v q s with
    | none =>
      rw [ht] at h
      cases h
    | some t =>
      rw [ht] at h
      rcases turn_calls hp ht with ⟨s', opened', created', rfl | rfl | rfl, hp'⟩
      · exact ih hp' h
      · cases h
        exact ⟨opened', created', hp'⟩
      · cases h
        exact ⟨opened', created', hp'⟩

theorem searchPath_calls {w : AStarWorkspace} (hw : Reached (.idle w)) {dirList : List Direction} {fuel : Nat}
    {r : PathResult} (h : searchPath v q dirList w fuel = some r) : Reached (.idle r.2.2) := by
  rcases bind_eq_some_iff.mp h with ⟨nodes, hmake, h⟩
  rcases bind_eq_some_iff.mp h with ⟨⟨success, s⟩, hsearch, h⟩
  have hstart := hw.call (.start q.start.x q.start.y) trivial
  simp only [AStarNodes.step, hmake] at hstart
  rcases search_calls (s := { nodes := nodes }) hstart hsearch with ⟨opened', created', hp⟩
  have hend : Reached (.idle s.nodes.release) := hp.call .finish trivial
  dsimp only at h
  split at h
  · rcases bind_eq_some_iff.mp h with ⟨dirs, -, h⟩
    cases h
    exact hend
  · cases h
    exact hend

/-- Over all the searches of a thread and all the calls that the loop can make in them, the heap
is ordered and holds the open nodes, squares are found by this search's nodes and every probe
ends. And what the searches do are such calls. -/
theorem open_list : (∀ p, Reached p → PhaseSpec p) ∧
    ∀ v q dirList w fuel r, Reached (.idle w) → searchPath v q dirList w fuel = some r → Reached (.idle r.2.2) := by
  refine ⟨?_, fun v q dirList w fuel r hw h => searchPath_calls hw h⟩
  intro p hp
  have hinv := hp.inv
  cases p with
  | idle w =>
    intro x y hend
    rcases Kept.start hinv x y with ⟨s, hmake, -⟩
    rw [hmake] at hend
    cases hend
  | searching s opened created => exact Kept.openList hinv
  | stuck => exact hinv

/-- A node is made beside the start, which is closed, and the next search starts on that square. -/
theorem two_searches :
    let calls := [.start 5 7, .CreateOpenNode 0 6 7 20 10, .CloseNode 0, .finish, .start 6 7]
    PhaseSpec (run step (.idle {}) calls) := by
  have hcan : Allowed step Can (.idle {})
      [.start 5 7, .CreateOpenNode 0 6 7 20 10, .CloseNode 0, .finish, .start 6 7] :=
    ⟨by decide, by decide +kernel, by decide +kernel, by decide +kernel, by decide +kernel, trivial⟩
  have hstart : Reached (.idle {}) := .init rfl
  exact open_list.1 _ (hstart.run hcan)

end PathQuery

end Backlands.World
