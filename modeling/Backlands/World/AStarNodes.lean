/-
  Backlands.World.AStarNodes — the nodes of a path search (src/map.cpp).

  A search makes at most MAX_NODES nodes, one for a square. A hash table finds the node of a
  square, and a binary heap with the index of every node in it gives the open node with the
  least `f`. All of it lies in a workspace that is left to the next search, which clears the
  parts that were used. A search of the table that would never end is `none`; `f` and
  `g_score` are taken without overflow.

  Proved: `Inv` says what the table and the heap are and every operation keeps it: the
  searches of the table end, a node is found exactly by its square, and the heap holds the
  open nodes once each.
-/

import Backlands.Lib.Memory
import Backlands.Lib.Probing
import Backlands.Lib.Slots
import Mathlib.Algebra.Order.Ring.Int

namespace Backlands.World

open Backlands.Lib Function List

def MAX_NODES : Nat := 512

def MAP_NORMALWALKCOST : Nat := 10

def MAP_DIAGONALWALKCOST : Nat := 25

def ASTAR_HASH_BITS : Nat := 10

def ASTAR_HASH_SIZE : Nat := 1 <<< ASTAR_HASH_BITS

def ASTAR_HASH_MASK : Nat := ASTAR_HASH_SIZE - 1

def FIB_MULT : Nat := 2654435761

structure AStarNode where
  parent : Option Nat := none
  f : Nat
  g_score : Nat
  x : BitVec 16
  y : BitVec 16
  deriving DecidableEq

/-- `threaded_workspace`; ASTAR_INVALID is `none`. -/
structure AStarWorkspace where
  nodes : Memory AStarNode := { blank := { f := 0, g_score := 0, x := 0, y := 0 } }
  heap : Memory Nat := { blank := 0 }
  node_to_heap : Memory (Option Nat) := { blank := none }
  h_table_keys : Memory Nat := { blank := 0 }
  h_table_values : Memory (Option Nat) := { blank := none }
  used_nodes : Memory Nat := { blank := 0 }
  used_count : Nat := 0
  previous_node : Nat := 0

structure AStarNodes extends AStarWorkspace where
  heap_size : Nat := 1
  current_node : Nat := 1
  closed_nodes : Int := 0

namespace AStarNodes

/-- `(x << 16) | y` -/
def key (x y : BitVec 16) : Nat := x.toNat <<< 16 ||| y.toNat

/-- `(key * FIB_MULT) >> (32 - ASTAR_HASH_BITS)` in uint32. -/
def slotOf (k : Nat) : Nat := (k * FIB_MULT % 2 ^ 32) >>> (32 - ASTAR_HASH_BITS)

def nextSlot (slot : Nat) : Nat := (slot + 1) &&& ASTAR_HASH_MASK

/-! ## The heap -/

def put (pos node_index : Nat) (s : AStarNodes) : AStarNodes :=
  { s with heap := s.heap.write pos node_index, node_to_heap := s.node_to_heap.write node_index (some pos) }

/-- The `f` of the node in a place of the heap. -/
def heapF (s : AStarNodes) (pos : Nat) : Nat := (s.nodes.read (s.heap.read pos)).f

/-- The place the node of value `f` rises to, with the nodes on the way moved down. -/
def SiftUp.rise (f pos : Nat) (s : AStarNodes) : Nat × AStarNodes :=
  if pos > 0 then
    let parentPos := (pos - 1) / 2
    if s.heapF parentPos ≤ f then (pos, s) else rise f parentPos (s.put pos (s.heap.read parentPos))
  else (pos, s)
termination_by pos

def SiftUp (pos : Nat) (s : AStarNodes) : AStarNodes :=
  let node_index := s.heap.read pos
  let (pos, s) := SiftUp.rise (s.nodes.read node_index).f pos s
  s.put pos node_index

/-- The child with the smaller `f`. -/
def smallerChild (child : Nat) (s : AStarNodes) : Nat :=
  if child + 1 < s.heap_size ∧ s.heapF (child + 1) < s.heapF child then child + 1 else child

theorem smallerChild_gt (pos : Nat) (s : AStarNodes) : pos < smallerChild (2 * pos + 1) s := by
  unfold smallerChild
  split
  · omega
  · omega

def SiftDown.sink (f pos : Nat) (s : AStarNodes) : Nat × AStarNodes :=
  if 2 * pos + 1 ≥ s.heap_size then (pos, s)
  else
    let child := smallerChild (2 * pos + 1) s
    if s.heapF child ≥ f then (pos, s) else sink f child (s.put pos (s.heap.read child))
termination_by s.heap_size - pos
decreasing_by
  have hchild := smallerChild_gt pos s
  show s.heap_size - child < s.heap_size - pos
  omega

def SiftDown (pos : Nat) (s : AStarNodes) : AStarNodes × Nat :=
  let node_index := s.heap.read pos
  let (pos, s) := SiftDown.sink (s.nodes.read node_index).f pos s
  (s.put pos node_index, pos)

/-! ## The table -/

def fill (slot k node_index : Nat) (s : AStarNodes) : AStarNodes :=
  { s with
    h_table_keys := s.h_table_keys.write slot k
    h_table_values := s.h_table_values.write slot (some node_index)
    used_nodes := s.used_nodes.write s.used_count slot
    used_count := s.used_count + 1 }

def Insert (k node_index : Nat) (s : AStarNodes) : Option AStarNodes :=
  (Probing.free nextSlot s.h_table_values.read ASTAR_HASH_SIZE (slotOf k)).map fun slot => s.fill slot k node_index

def Find (k : Nat) (s : AStarNodes) : Option (Option Nat) :=
  Probing.find nextSlot s.h_table_keys.read s.h_table_values.read k ASTAR_HASH_SIZE (slotOf k)

/-! ## Operations -/

def clear (w : AStarWorkspace) : AStarWorkspace :=
  { w with
    h_table_values := (List.range w.used_count).foldl (fun m i => m.write (w.used_nodes.read i) none) w.h_table_values
    node_to_heap := (List.range w.previous_node).foldl (fun m i => m.write i none) w.node_to_heap
    used_count := 0 }

/-- The constructor. -/
def make (x y : BitVec 16) (w : AStarWorkspace) : Option AStarNodes :=
  let w := clear w
  let s : AStarNodes :=
    { w with
      nodes := w.nodes.write 0 { f := 0, g_score := 0, x := x, y := y }
      heap := w.heap.write 0 0
      node_to_heap := w.node_to_heap.write 0 (some 0) }
  s.Insert (key x y) 0

/-- The destructor. -/
def release (s : AStarNodes) : AStarWorkspace := { s.toAStarWorkspace with previous_node := s.current_node }

/-- A node behind the others in the heap, and then up. -/
def pushNode (node_index : Nat) (s : AStarNodes) : AStarNodes :=
  let s := s.put s.heap_size node_index
  let s := { s with heap_size := s.heap_size + 1 }
  s.SiftUp (s.heap_size - 1)

def CreateOpenNode (parent : Nat) (x y : BitVec 16) (f g_score : Nat) (s : AStarNodes) : Option (AStarNodes × Option Nat) :=
  if s.current_node ≥ MAX_NODES then some (s, none)
  else
    let node_index := s.current_node
    let s :=
      { s with
        current_node := s.current_node + 1
        nodes := s.nodes.write node_index { parent := some parent, f := f, g_score := g_score, x := x, y := y } }
    (s.Insert (key x y) node_index).map fun s => (s.pushNode node_index, some node_index)

def GetBestNode (s : AStarNodes) : Option Nat := if s.heap_size = 0 then none else some (s.heap.read 0)

def CloseNode (node_index : Nat) (s : AStarNodes) : AStarNodes :=
  match s.node_to_heap.read node_index with
  -- `assert(position != ASTAR_INVALID)`
  | none => s
  | some position =>
    let s :=
      { s with
        node_to_heap := s.node_to_heap.write node_index none
        closed_nodes := s.closed_nodes + 1
        heap_size := s.heap_size - 1 }
    if position = s.heap_size then s
    else
      let (s, new_position) := (s.put position (s.heap.read s.heap_size)).SiftDown position
      if new_position = position then s.SiftUp position else s

def OpenNode (node_index : Nat) (s : AStarNodes) : AStarNodes :=
  match s.node_to_heap.read node_index with
  | none =>
    let s := s.pushNode node_index
    { s with closed_nodes := s.closed_nodes - 1 }
  | some pos => s.SiftUp pos

def GetNodeByPosition (x y : BitVec 16) (s : AStarNodes) : Option (Option Nat) := s.Find (key x y)

def GetNode (node_index : Nat) (s : AStarNodes) : AStarNode := s.nodes.read node_index

/-! ## Sifting -/

variable {s : AStarNodes} {items : Set Nat} {n i : Nat}

/-- The heap holds `items`. -/
abbrev HeapOf (s : AStarNodes) (items : Set Nat) : Prop := Slots s.heap.read s.node_to_heap.read s.heap_size items

/-- The heap would hold `items` if the node `n` were in place `i`. -/
abbrev HoleOf (s : AStarNodes) (items : Set Nat) (n i : Nat) : Prop :=
  Slots.Hole s.heap.read s.node_to_heap.read s.heap_size items n i

/-- Nothing but the heap's order changes. -/
structure SameBut (s s' : AStarNodes) : Prop where
  nodes : s'.nodes = s.nodes
  keys : s'.h_table_keys = s.h_table_keys
  values : s'.h_table_values = s.h_table_values
  used_nodes : s'.used_nodes = s.used_nodes
  used_count : s'.used_count = s.used_count
  heap_size : s'.heap_size = s.heap_size
  current_node : s'.current_node = s.current_node
  closed_nodes : s'.closed_nodes = s.closed_nodes

theorem SameBut.refl (s : AStarNodes) : SameBut s s := ⟨rfl, rfl, rfl, rfl, rfl, rfl, rfl, rfl⟩

theorem SameBut.trans {s' s'' : AStarNodes} (h : SameBut s s') (h' : SameBut s' s'') : SameBut s s'' :=
  ⟨h'.nodes.trans h.nodes, h'.keys.trans h.keys, h'.values.trans h.values, h'.used_nodes.trans h.used_nodes,
    h'.used_count.trans h.used_count, h'.heap_size.trans h.heap_size, h'.current_node.trans h.current_node,
    h'.closed_nodes.trans h.closed_nodes⟩

theorem sameBut_put (pos n : Nat) (s : AStarNodes) : SameBut s (s.put pos n) := ⟨rfl, rfl, rfl, rfl, rfl, rfl, rfl, rfl⟩

theorem heapOf_put : HeapOf (s.put i n) items ↔ HoleOf s items n i := by
  show Slots (s.heap.write i n).read (s.node_to_heap.write n (some i)).read s.heap_size items ↔ _
  rw [Memory.read_write_eq_update, Memory.read_write_eq_update]
  rfl

theorem HoleOf.move (h : HoleOf s items n i) {j : Nat} (hi : i < s.heap_size) (hj : j < s.heap_size) (hij : j ≠ i) :
    HoleOf (s.put i (s.heap.read j)) items n j := by
  have hmove := Slots.Hole.move h hi hj hij
  show Slots.Hole (s.heap.write i (s.heap.read j)).read (s.node_to_heap.write (s.heap.read j) (some i)).read s.heap_size items n j
  rw [Memory.read_write_eq_update, Memory.read_write_eq_update]
  exact hmove

theorem rise_spec (f pos : Nat) (s : AStarNodes) (h : HoleOf s items n pos) (hpos : pos < s.heap_size) :
    SameBut s (SiftUp.rise f pos s).2 ∧ HoleOf (SiftUp.rise f pos s).2 items n (SiftUp.rise f pos s).1 := by
  induction pos, s using SiftUp.rise.induct (f := f) with
  | case1 pos s hpos0 parentPos hstop =>
    rw [SiftUp.rise, if_pos hpos0]
    rw [if_pos hstop]
    exact ⟨SameBut.refl s, h⟩
  | case2 pos s hpos0 parentPos hgo ih =>
    rw [SiftUp.rise, if_pos hpos0]
    rw [if_neg hgo]
    have hlt : parentPos < pos := by omega
    obtain ⟨hsame, hhole⟩ := ih (h.move hpos (by omega) (Nat.ne_of_lt hlt)) (show parentPos < s.heap_size by omega)
    exact ⟨(sameBut_put _ _ s).trans hsame, hhole⟩
  | case3 pos s hpos0 =>
    rw [SiftUp.rise, if_neg hpos0]
    exact ⟨SameBut.refl s, h⟩

theorem sink_spec (f pos : Nat) (s : AStarNodes) (h : HoleOf s items n pos) (hpos : pos < s.heap_size) :
    SameBut s (SiftDown.sink f pos s).2 ∧ HoleOf (SiftDown.sink f pos s).2 items n (SiftDown.sink f pos s).1 ∧
      (SiftDown.sink f pos s).1 < s.heap_size := by
  induction pos, s using SiftDown.sink.induct (f := f) with
  | case1 pos s hlast =>
    rw [SiftDown.sink, if_pos hlast]
    exact ⟨SameBut.refl s, h, hpos⟩
  | case2 pos s hlast child hstop =>
    rw [SiftDown.sink, if_neg hlast]
    rw [if_pos hstop]
    exact ⟨SameBut.refl s, h, hpos⟩
  | case3 pos s hlast child hgo ih =>
    rw [SiftDown.sink, if_neg hlast]
    rw [if_neg hgo]
    have hgt : pos < child := smallerChild_gt pos s
    have hlt : child < s.heap_size := by
      grind [smallerChild]
    obtain ⟨hsame, hhole, hend⟩ := ih (h.move hpos hlt (Nat.ne_of_gt hgt)) hlt
    exact ⟨(sameBut_put _ _ s).trans hsame, hhole, hend⟩

theorem HeapOf.hole (h : HeapOf s items) (hi : i < s.heap_size) : HoleOf s items (s.heap.read i) i := by
  unfold HoleOf Slots.Hole
  rw [update_eq_self, ← h.placed i hi, update_eq_self]
  exact h

theorem SiftUp_spec (h : HeapOf s items) {pos : Nat} (hpos : pos < s.heap_size) :
    SameBut s (s.SiftUp pos) ∧ HeapOf (s.SiftUp pos) items := by
  obtain ⟨hsame, hhole⟩ := rise_spec (s.nodes.read (s.heap.read pos)).f pos s (h.hole hpos) hpos
  exact ⟨hsame.trans (sameBut_put ..), heapOf_put.mpr hhole⟩

theorem SiftDown_spec (h : HeapOf s items) {pos : Nat} (hpos : pos < s.heap_size) :
    SameBut s (s.SiftDown pos).1 ∧ HeapOf (s.SiftDown pos).1 items := by
  obtain ⟨hsame, hhole, -⟩ := sink_spec (s.nodes.read (s.heap.read pos)).f pos s (h.hole hpos) hpos
  exact ⟨hsame.trans (sameBut_put ..), heapOf_put.mpr hhole⟩

theorem HeapOf.pushed (h : HeapOf s items) (hn : n ∉ items) :
    HeapOf { s.put s.heap_size n with heap_size := s.heap_size + 1 } (insert n items) := by
  show Slots (s.heap.write s.heap_size n).read (s.node_to_heap.write n (some s.heap_size)).read (s.heap_size + 1) _
  rw [Memory.read_write_eq_update, Memory.read_write_eq_update]
  exact h.push hn

theorem pushNode_spec (h : HeapOf s items) (hn : n ∉ items) :
    SameBut { s with heap_size := s.heap_size + 1 } (s.pushNode n) ∧ HeapOf (s.pushNode n) (insert n items) := by
  obtain ⟨hsame, hspec⟩ := SiftUp_spec (h.pushed hn) (show s.heap_size < s.heap_size + 1 from Nat.lt_succ_self _)
  exact ⟨{ hsame with }, hspec⟩

/-! ## The table's contents -/

theorem key_injective {x y x' y' : BitVec 16} (h : key x y = key x' y') : x = x' ∧ y = y' := by
  have hy := y.isLt
  have hy' := y'.isLt
  unfold key at h
  rw [← Nat.shiftLeft_add_eq_or_of_lt hy, ← Nat.shiftLeft_add_eq_or_of_lt hy', Nat.shiftLeft_eq, Nat.shiftLeft_eq] at h
  exact ⟨BitVec.eq_of_toNat_eq (by omega), BitVec.eq_of_toNat_eq (by omega)⟩

theorem nextSlot_eq : nextSlot = fun slot => (slot + 1) % ASTAR_HASH_SIZE := by
  funext slot
  exact Nat.and_two_pow_sub_one_eq_mod _ 10

theorem slotOf_lt (k : Nat) : slotOf k < ASTAR_HASH_SIZE := by
  show (k * FIB_MULT % 2 ^ 32) >>> 22 < 1024
  rw [Nat.shiftRight_eq_div_pow]
  omega

/-- The table holds `m`, and the slots in use are noted. -/
structure TableOf (s : AStarNodes) (m : Nat → Option Nat) : Prop where
  holds : Probing.Holds nextSlot slotOf s.h_table_keys.read s.h_table_values.read m
  used : ∀ slot, s.h_table_values.read slot ≠ none → ∃ i < s.used_count, s.used_nodes.read i = slot

variable {m : Nat → Option Nat}

theorem TableOf.free_slot (h : TableOf s m) (hcount : s.used_count < ASTAR_HASH_SIZE) (k : Nat) :
    ∃ i < ASTAR_HASH_SIZE, s.h_table_values.read (nextSlot^[i] (slotOf k)) = none := by
  rw [nextSlot_eq]
  refine Probing.exists_free ((List.range s.used_count).map s.used_nodes.read) ?_ ?_ (slotOf_lt k)
  · intro slot hslot
    obtain ⟨i, hi, heq⟩ := h.used slot hslot
    exact mem_map.mpr ⟨i, mem_range.mpr hi, heq⟩
  · rw [length_map, length_range]
    exact hcount

theorem Find_spec (h : TableOf s m) (hcount : s.used_count < ASTAR_HASH_SIZE) (k : Nat) : s.Find k = some (m k) :=
  h.holds.find_eq (h.free_slot hcount k)

theorem Insert_spec (h : TableOf s m) (hcount : s.used_count < ASTAR_HASH_SIZE) {k : Nat} (hk : m k = none) (v : Nat) :
    ∃ slot, s.Insert k v = some (s.fill slot k v) ∧ TableOf (s.fill slot k v) (update m k (some v)) := by
  obtain ⟨i, hfree, hnone, hway⟩ := Probing.free_eq (h.free_slot hcount k)
  refine ⟨nextSlot^[i] (slotOf k), by rw [Insert, hfree]; rfl, ?_, ?_⟩
  · show Probing.Holds nextSlot slotOf (s.h_table_keys.write _ k).read (s.h_table_values.write _ (some v)).read _
    rw [Memory.read_write_eq_update, Memory.read_write_eq_update]
    exact h.holds.insert hk hnone hway v
  intro slot hslot
  show ∃ l < s.used_count + 1, (s.used_nodes.write s.used_count (nextSlot^[i] (slotOf k))).read l = slot
  by_cases hs : slot = nextSlot^[i] (slotOf k)
  · exact ⟨s.used_count, Nat.lt_succ_self _, by rw [Memory.read_write_self, hs]⟩
  have hslot : (s.h_table_values.write (nextSlot^[i] (slotOf k)) (some v)).read slot ≠ none := hslot
  rw [Memory.read_write_of_ne _ hs] at hslot
  obtain ⟨l, hl, heq⟩ := h.used slot hslot
  refine ⟨l, Nat.lt_succ_of_lt hl, ?_⟩
  rw [Memory.read_write_of_ne _ (Nat.ne_of_lt hl), heq]

/-! ## What a search relies on -/

/-- A workspace that a search may start on: what was used is noted. -/
structure Ready (w : AStarWorkspace) : Prop where
  used : ∀ slot, w.h_table_values.read slot ≠ none → ∃ i < w.used_count, w.used_nodes.read i = slot
  previous : ∀ n, w.node_to_heap.read n ≠ none → n < w.previous_node

/-- `m` gives for the key of a square its node among the first `count`. -/
def Indexes (m : Nat → Option Nat) (count : Nat) (node : Nat → AStarNode) : Prop :=
  ∀ x y i, m (key x y) = some i ↔ i < count ∧ (node i).x = x ∧ (node i).y = y

theorem Indexes.add {count : Nat} {node : Nat → AStarNode} (h : Indexes m count node) (new : AStarNode)
    (hnew : m (key new.x new.y) = none) :
    Indexes (update m (key new.x new.y) (some count)) (count + 1) (update node count new) := by
  intro x y i
  by_cases hi : i = count
  · subst hi
    rw [update_self]
    constructor
    · intro hm
      by_cases hkey : key x y = key new.x new.y
      · obtain ⟨rfl, rfl⟩ := key_injective hkey
        exact ⟨Nat.lt_succ_self _, rfl, rfl⟩
      · rw [update_of_ne hkey] at hm
        exact absurd ((h x y i).mp hm).1 (Nat.lt_irrefl _)
    · intro hx
      rw [← hx.2.1, ← hx.2.2, update_self]
  · rw [update_of_ne hi]
    by_cases hkey : key x y = key new.x new.y
    · rw [hkey, update_self]
      obtain ⟨rfl, rfl⟩ := key_injective hkey
      constructor
      · intro hm
        exact absurd (Option.some.inj hm).symm hi
      intro hx
      have hm := (h _ _ i).mpr ⟨by omega, hx.2⟩
      rw [hnew] at hm
      cases hm
    · rw [update_of_ne hkey, h x y i]
      constructor
      · intro hx
        exact ⟨Nat.lt_succ_of_lt hx.1, hx.2⟩
      · intro hx
        exact ⟨by omega, hx.2⟩

/-- The nodes of a search with `items` open. -/
structure Inv (s : AStarNodes) (items : Set Nat) : Prop where
  heap : HeapOf s items
  items_lt : ∀ n ∈ items, n < s.current_node
  table : ∃ m, TableOf s m ∧ Indexes m s.current_node s.nodes.read
  used_count : s.used_count = s.current_node
  current_node_le : s.current_node ≤ MAX_NODES

theorem ready_new : Ready {} where
  used _ hslot := absurd rfl hslot
  previous _ hn := absurd rfl hn

theorem Inv.ready (h : Inv s items) : Ready s.release where
  used := by
    obtain ⟨m, hm, -⟩ := h.table
    exact hm.used
  previous n hn := h.items_lt n ((h.heap.mem_iff n).mpr hn)

theorem Inv.used_count_lt (h : Inv s items) : s.used_count < ASTAR_HASH_SIZE := by
  have hle := h.current_node_le
  rw [h.used_count]
  exact Nat.lt_of_le_of_lt hle (by decide)

theorem Inv.find (h : Inv s items) (x y : BitVec 16) : ∃ r, s.GetNodeByPosition x y = some r ∧
    ∀ i, r = some i ↔ i < s.current_node ∧ (s.GetNode i).x = x ∧ (s.GetNode i).y = y := by
  obtain ⟨m, hm, hkeys⟩ := h.table
  exact ⟨m (key x y), Find_spec hm h.used_count_lt _, hkeys x y⟩

theorem Inv.node_injective (h : Inv s items) {j : Nat} (hi : i < s.current_node) (hj : j < s.current_node)
    (hx : (s.GetNode i).x = (s.GetNode j).x) (hy : (s.GetNode i).y = (s.GetNode j).y) : i = j := by
  obtain ⟨m, -, hkeys⟩ := h.table
  have hmi := (hkeys _ _ i).mpr ⟨hi, hx, hy⟩
  have hmj := (hkeys _ _ j).mpr ⟨hj, rfl, rfl⟩
  exact Option.some.inj (hmi.symm.trans hmj)

theorem Inv.congr {s' : AStarNodes} {items' : Set Nat} (h : Inv s items) (hheap : HeapOf s' items')
    (hitems : ∀ n ∈ items', n < s.current_node) (hkeys : s'.h_table_keys = s.h_table_keys)
    (hvalues : s'.h_table_values = s.h_table_values) (hnodes : s'.used_nodes = s.used_nodes)
    (hcount : s'.used_count = s.used_count) (hcurrent : s'.current_node = s.current_node)
    (hsquare : ∀ i, (s'.GetNode i).x = (s.GetNode i).x ∧ (s'.GetNode i).y = (s.GetNode i).y) : Inv s' items' where
  heap := hheap
  items_lt n hn := hcurrent ▸ hitems n hn
  table := by
    obtain ⟨m, hm, hiff⟩ := h.table
    refine ⟨m, ⟨?_, ?_⟩, fun x y i => ?_⟩
    · rw [hkeys, hvalues]
      exact hm.holds
    · rw [hvalues, hcount, hnodes]
      exact hm.used
    · show _ ↔ i < s'.current_node ∧ (s'.GetNode i).x = x ∧ (s'.GetNode i).y = y
      rw [hcurrent, (hsquare i).1, (hsquare i).2]
      exact hiff x y i
  used_count := by rw [hcount, hcurrent, h.used_count]
  current_node_le := by rw [hcurrent]; exact h.current_node_le

theorem Inv.sameBut {s' : AStarNodes} {items' : Set Nat} (h : Inv s items) (hsame : SameBut s s') (hheap : HeapOf s' items')
    (hitems : ∀ n ∈ items', n < s.current_node) : Inv s' items' :=
  h.congr hheap hitems hsame.keys hsame.values hsame.used_nodes hsame.used_count hsame.current_node
    fun i => by rw [GetNode, GetNode, hsame.nodes]; exact ⟨rfl, rfl⟩

/-! ## Every operation keeps it -/

variable {w : AStarWorkspace}

theorem clear_values (h : Ready w) (slot : Nat) : (clear w).h_table_values.read slot = none := by
  refine Memory.read_foldl_write w.used_nodes.read none _ _ slot ?_
  by_cases hslot : w.h_table_values.read slot = none
  · exact .inl hslot
  · obtain ⟨i, hi, heq⟩ := h.used slot hslot
    exact .inr ⟨i, mem_range.mpr hi, heq⟩

theorem clear_node_to_heap (h : Ready w) (n : Nat) : (clear w).node_to_heap.read n = none := by
  refine Memory.read_foldl_write id none _ _ n ?_
  by_cases hn : w.node_to_heap.read n = none
  · exact .inl hn
  · exact .inr ⟨n, mem_range.mpr (h.previous n hn), rfl⟩

theorem make_spec (h : Ready w) (x y : BitVec 16) :
    ∃ s, make x y w = some s ∧ Inv s {0} ∧ s.current_node = 1 ∧ s.heap_size = 1 ∧
      s.GetNode 0 = { f := 0, g_score := 0, x := x, y := y } := by
  have htable : TableOf ({ clear w with
      nodes := (clear w).nodes.write 0 { f := 0, g_score := 0, x := x, y := y }
      heap := (clear w).heap.write 0 0
      node_to_heap := (clear w).node_to_heap.write 0 (some 0) } : AStarNodes) fun _ => none :=
    ⟨.nil (clear_values h), fun slot hslot => absurd (clear_values h slot) hslot⟩
  obtain ⟨slot, hinsert, hfill⟩ := Insert_spec htable (show 0 < ASTAR_HASH_SIZE by decide) (k := key x y) rfl 0
  refine ⟨_, hinsert, ⟨?_, ?_, ⟨_, hfill, ?_⟩, rfl, show 1 ≤ 512 by decide⟩, rfl, rfl, Memory.read_write_self ..⟩
  · have hnil : Slots (clear w).heap.read (clear w).node_to_heap.read 0 ∅ := Slots.nil (clear_node_to_heap h)
    have hpush := hnil.push (Set.notMem_empty 0)
    show Slots ((clear w).heap.write 0 0).read ((clear w).node_to_heap.write 0 (some 0)).read 1 {0}
    rw [Memory.read_write_eq_update, Memory.read_write_eq_update, ← insert_empty_eq]
    exact hpush
  · intro n hn
    rw [Set.mem_singleton_iff.mp hn]
    exact Nat.zero_lt_one
  have hempty : Indexes (fun _ => none) 0 (clear w).nodes.read := by
    intro x y i
    simp
  show Indexes _ 1 ((clear w).nodes.write 0 { f := 0, g_score := 0, x := x, y := y }).read
  rw [Memory.read_write_eq_update]
  exact hempty.add { f := 0, g_score := 0, x := x, y := y } rfl

theorem getBestNode_spec (h : Inv s items) : (s.GetBestNode = none ∧ s.heap_size = 0) ∨ ∃ n ∈ items, s.GetBestNode = some n := by
  unfold GetBestNode
  split
  · next hsize => exact .inl ⟨rfl, hsize⟩
  · next hsize => exact .inr ⟨_, h.heap.slot_mem (Nat.pos_of_ne_zero hsize), rfl⟩

theorem createOpenNode_spec (h : Inv s items) (parent : Nat) {x y : BitVec 16} (f g_score : Nat)
    (hnone : ∀ i < s.current_node, ¬((s.GetNode i).x = x ∧ (s.GetNode i).y = y)) :
    (MAX_NODES ≤ s.current_node ∧ s.CreateOpenNode parent x y f g_score = some (s, none)) ∨
      ∃ s', s.CreateOpenNode parent x y f g_score = some (s', some s.current_node) ∧
        Inv s' (insert s.current_node items) ∧ s'.current_node = s.current_node + 1 ∧
        ∀ i, s'.GetNode i = if i = s.current_node then { parent := some parent, f := f, g_score := g_score, x := x, y := y }
          else s.GetNode i := by
  unfold CreateOpenNode
  by_cases hfull : s.current_node ≥ MAX_NODES
  · rw [if_pos hfull]
    exact .inl ⟨hfull, rfl⟩
  rw [if_neg hfull]
  right
  obtain ⟨m, hm, hindex⟩ := h.table
  have hfree : m (key x y) = none := by
    cases hi : m (key x y) with
    | none => rfl
    | some i =>
      obtain ⟨hlt, hx, hy⟩ := (hindex x y i).mp hi
      exact absurd ⟨hx, hy⟩ (hnone i hlt)
  have htable : TableOf ({ s with
      current_node := s.current_node + 1
      nodes := s.nodes.write s.current_node { parent := some parent, f := f, g_score := g_score, x := x, y := y } } :
        AStarNodes) m := ⟨hm.holds, hm.used⟩
  obtain ⟨slot, hinsert, hfill⟩ := Insert_spec htable h.used_count_lt hfree s.current_node
  have hheap : HeapOf (fill slot (key x y) s.current_node { s with
      current_node := s.current_node + 1
      nodes := s.nodes.write s.current_node { parent := some parent, f := f, g_score := g_score, x := x, y := y } })
      items := h.heap
  have hnew : s.current_node ∉ items := fun hmem => Nat.lt_irrefl _ (h.items_lt _ hmem)
  obtain ⟨hsame, hpushed⟩ := pushNode_spec hheap hnew
  refine ⟨_, by dsimp only; rw [hinsert]; rfl, ⟨hpushed, ?_, ⟨update m (key x y) (some s.current_node), ⟨?_, ?_⟩, ?_⟩, ?_, ?_⟩,
    hsame.current_node, fun i => ?_⟩
  · intro n hn
    rw [hsame.current_node]
    rcases Set.mem_insert_iff.mp hn with rfl | hn
    · exact Nat.lt_succ_self _
    · exact Nat.lt_succ_of_lt (h.items_lt n hn)
  · rw [hsame.keys, hsame.values]
    exact hfill.holds
  · rw [hsame.values, hsame.used_count, hsame.used_nodes]
    exact hfill.used
  · rw [hsame.current_node, hsame.nodes]
    show Indexes _ (s.current_node + 1)
      (s.nodes.write s.current_node { parent := some parent, f := f, g_score := g_score, x := x, y := y }).read
    rw [Memory.read_write_eq_update]
    exact hindex.add { parent := some parent, f := f, g_score := g_score, x := x, y := y } hfree
  · rw [hsame.used_count, hsame.current_node]
    exact congrArg (· + 1) h.used_count
  · rw [hsame.current_node]
    exact Nat.lt_of_not_ge hfull
  · rw [GetNode, hsame.nodes]
    exact Memory.read_write ..

theorem openNode_spec (h : Inv s items) (hn : n < s.current_node) :
    Inv (s.OpenNode n) (insert n items) ∧ (s.OpenNode n).nodes = s.nodes ∧ (s.OpenNode n).current_node = s.current_node := by
  have hlt : ∀ i ∈ insert n items, i < s.current_node := by
    intro i hi
    rcases Set.mem_insert_iff.mp hi with rfl | hi
    · exact hn
    · exact h.items_lt i hi
  unfold OpenNode
  cases hp : s.node_to_heap.read n with
  | none =>
    have hnot : n ∉ items := fun hmem => (h.heap.mem_iff n).mp hmem hp
    obtain ⟨hsame, hheap⟩ := pushNode_spec h.heap hnot
    refine ⟨h.congr hheap hlt hsame.keys hsame.values hsame.used_nodes hsame.used_count hsame.current_node fun i => ?_,
      hsame.nodes, hsame.current_node⟩
    show ((s.pushNode n).nodes.read i).x = _ ∧ ((s.pushNode n).nodes.read i).y = _
    rw [hsame.nodes]
    exact ⟨rfl, rfl⟩
  | some pos =>
    have hmem : n ∈ items := (h.heap.mem_iff n).mpr (by rw [hp]; simp)
    obtain ⟨hsame, hheap⟩ := SiftUp_spec h.heap (h.heap.slotted n pos hp).1
    rw [Set.insert_eq_of_mem hmem]
    exact ⟨h.sameBut hsame hheap h.items_lt, hsame.nodes, hsame.current_node⟩

theorem rewriteNode_spec (h : Inv s items) (hn : n < s.current_node) (node : AStarNode) (hx : node.x = (s.GetNode n).x)
    (hy : node.y = (s.GetNode n).y) :
    Inv (OpenNode n { s with nodes := s.nodes.write n node }) (insert n items) ∧
      (OpenNode n { s with nodes := s.nodes.write n node }).current_node = s.current_node ∧
      ∀ i, (OpenNode n { s with nodes := s.nodes.write n node }).GetNode i = if i = n then node else s.GetNode i := by
  have hwrite : ∀ i, GetNode i { s with nodes := s.nodes.write n node } = if i = n then node else s.GetNode i :=
    fun i => Memory.read_write ..
  have hinv : Inv { s with nodes := s.nodes.write n node } items := by
    refine h.congr h.heap h.items_lt rfl rfl rfl rfl rfl fun i => ?_
    rw [hwrite]
    split
    · next hi =>
      rw [hi]
      exact ⟨hx, hy⟩
    · exact ⟨rfl, rfl⟩
  obtain ⟨hopen, hnodes, hcurrent⟩ := openNode_spec hinv hn
  refine ⟨hopen, hcurrent, fun i => ?_⟩
  rw [← hwrite, GetNode, hnodes]
  rfl

theorem HeapOf.taken (h : HeapOf s items) {position size : Nat} (hsize : s.heap_size = size + 1)
    (hplace : s.node_to_heap.read n = some position) (hlast : position ≠ size) :
    HeapOf (put position (s.heap.read size) { s with
      node_to_heap := s.node_to_heap.write n none, closed_nodes := s.closed_nodes + 1, heap_size := size })
      (items \ {n}) := by
  have hslots : Slots s.heap.read s.node_to_heap.read (size + 1) items := hsize ▸ h
  refine heapOf_put.mpr ?_
  show Slots.Hole s.heap.read (s.node_to_heap.write n none).read size (items \ {n}) (s.heap.read size) position
  rw [Memory.read_write_eq_update]
  exact hslots.takeOut hplace hlast

theorem closeNode_heap (h : HeapOf s items) (hn : n ∈ items) :
    SameBut { s with heap_size := s.heap_size - 1, closed_nodes := s.closed_nodes + 1 } (s.CloseNode n) ∧
      HeapOf (s.CloseNode n) (items \ {n}) ∧ 0 < s.heap_size := by
  obtain ⟨position, hlt, hplace, -⟩ := h.exists_place hn
  obtain ⟨size, hsize⟩ : ∃ size, s.heap_size = size + 1 := ⟨s.heap_size - 1, by omega⟩
  have hslots : Slots s.heap.read s.node_to_heap.read (size + 1) items := hsize ▸ h
  refine and_assoc.mp ⟨?_, Nat.lt_of_le_of_lt (Nat.zero_le _) hlt⟩
  unfold CloseNode
  rw [hplace]
  dsimp only
  have hless : s.heap_size - 1 = size := by omega
  rw [hless]
  split
  · next hlast =>
    refine ⟨⟨rfl, rfl, rfl, rfl, rfl, rfl, rfl, rfl⟩, ?_⟩
    show Slots s.heap.read (s.node_to_heap.write n none).read size (items \ {n})
    rw [Memory.read_write_eq_update]
    exact hslots.pop (hlast ▸ hplace)
  · next hlast =>
    have hposition : position < size := by omega
    obtain ⟨hsame, hdown⟩ := SiftDown_spec (h.taken hsize hplace hlast) hposition
    have hput : ∀ t, SameBut (put position (s.heap.read size) { s with
        node_to_heap := s.node_to_heap.write n none, closed_nodes := s.closed_nodes + 1, heap_size := size }) t →
        SameBut { s with heap_size := size, closed_nodes := s.closed_nodes + 1 } t := fun t ht =>
      { ht with }
    split
    · obtain ⟨hsame', hup⟩ := SiftUp_spec hdown (Nat.lt_of_lt_of_eq hposition hsame.heap_size.symm)
      exact ⟨hput _ (hsame.trans hsame'), hup⟩
    · exact ⟨hput _ hsame, hdown⟩

theorem closeNode_spec (h : Inv s items) (hn : n ∈ items) :
    Inv (s.CloseNode n) (items \ {n}) ∧ (s.CloseNode n).nodes = s.nodes ∧ (s.CloseNode n).current_node = s.current_node ∧
      (s.CloseNode n).heap_size + 1 = s.heap_size := by
  obtain ⟨hsame, hheap, hpos⟩ := closeNode_heap h.heap hn
  refine ⟨h.congr hheap (fun i hi => h.items_lt i hi.1) hsame.keys hsame.values hsame.used_nodes hsame.used_count
    hsame.current_node fun i => ?_, hsame.nodes, hsame.current_node, ?_⟩
  · rw [GetNode, GetNode, hsame.nodes]
    exact ⟨rfl, rfl⟩
  · rw [hsame.heap_size]
    show s.heap_size - 1 + 1 = s.heap_size
    omega

end AStarNodes

end Backlands.World
