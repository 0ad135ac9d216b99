/-
  Backlands.World.PathSound — the ways that a path search finds (src/map.cpp).

  A parent is set when the node gets cheaper, and a node only gets cheaper; so a node costs
  more than its parent, whatever was opened again since, and the parents of a node lead to the
  start. A turn of the loop makes a node, makes one cheaper or closes one, so the loop ends.

  Proved: `getPathMatching_sound`, on a workspace of any earlier searches, where no step
  crosses the border of the coordinates: the search ends; on success the directions appended
  lead over tiles that may be entered, none twice and none too far away, to a square that
  meets the path condition; and on failure there are none.
-/

import Backlands.World.PathSearch
import Mathlib.Algebra.Order.BigOperators.Group.Finset
import Mathlib.Data.Prod.Lex

namespace Backlands.World

open Backlands.Lib List Option

/-! ## Tiles -/

variable {p : Position}

theorem div_of_mask {x x' : BitVec 16} (h : x &&& ~~~7 = x' &&& ~~~7) : x.toNat / 8 = x'.toNat / 8 := by
  have hmask : ∀ v : BitVec 16, (v &&& ~~~7).toNat / 2 ^ 3 = v.toNat / 2 ^ 3 := by
    intro v
    rw [BitVec.toNat_and]
    rw [Nat.and_div_two_pow]
    show v.toNat / 2 ^ 3 &&& 2 ^ 13 - 1 = _
    rw [Nat.and_two_pow_sub_one_eq_mod]
    omega
  have hdiv := congrArg (fun v => v.toNat / 2 ^ 3) h
  exact (hmask x).symm.trans (hdiv.trans (hmask x'))

theorem Map.getLeaf_of_mask (map : Map) {p' : Position} (hx : p.x &&& ~~~7 = p'.x &&& ~~~7)
    (hy : p.y &&& ~~~7 = p'.y &&& ~~~7) :
    getLeaf map.root (p.x.setWidth 32) (p.y.setWidth 32) = getLeaf map.root (p'.x.setWidth 32) (p'.y.setWidth 32) := by
  have hblock : block (p.x.setWidth 32) (p.y.setWidth 32) = block (p'.x.setWidth 32) (p'.y.setWidth 32) := by
    have hcut : ∀ v : BitVec 16, (v.setWidth 32).toNat % 2 ^ 16 / 8 = v.toNat / 8 := by
      intro v
      rw [BitVec.toNat_setWidth]
      omega
    rw [block, block, hcut, hcut, hcut, hcut, div_of_mask hx, div_of_mask hy]
  rw [getLeaf_eq_find (.inr map.deep), getLeaf_eq_find (.inr map.deep), digits_eq_iff.mpr hblock]

structure PathLeaf.Valid (map : Map) (c : PathLeaf) : Prop where
  leaf : ∀ id, c.pathLeaf = some id → ∀ p : Position, p.x &&& ~~~7 = c.pathLeafBaseX → p.y &&& ~~~7 = c.pathLeafBaseY →
    getLeaf map.root (p.x.setWidth 32) (p.y.setWidth 32) = some id
  floor : (c.pathFloorZ.toNat : Int) < MAP_MAX_LAYERS → c.pathFloor = c.pathLeaf.bind fun leaf => map.floors leaf c.pathFloorZ

variable {c : PathLeaf} {map : Map}

theorem PathLeaf.valid_new (map : Map) : PathLeaf.Valid map {} where
  leaf _ h := nomatch h
  floor h := absurd h (by decide)

theorem PathLeaf.loadLeaf_spec (h : c.Valid map) (p : Position) :
    (c.loadLeaf map p).Valid map ∧ (c.loadLeaf map p).pathLeaf = getLeaf map.root (p.x.setWidth 32) (p.y.setWidth 32) := by
  unfold PathLeaf.loadLeaf
  split
  · refine ⟨⟨fun id hid p' hx hy => ?_, fun hz => absurd hz (show ¬((16 : BitVec 8).toNat : Int) < MAP_MAX_LAYERS by decide)⟩, rfl⟩
    rw [map.getLeaf_of_mask hx hy]
    exact hid
  · next hsame =>
    refine ⟨h, ?_⟩
    simp only [not_or, not_not] at hsame
    obtain ⟨id, hid⟩ := ne_none_iff_exists'.mp hsame.1
    rw [hid, h.leaf id hid p hsame.2.1 hsame.2.2]

theorem PathLeaf.loadFloor_spec (h : c.Valid map) (hz : (p.z.toNat : Int) < MAP_MAX_LAYERS) :
    (c.loadFloor map p).Valid map ∧ (c.loadFloor map p).pathFloor = c.pathLeaf.bind fun leaf => map.floors leaf p.z := by
  unfold PathLeaf.loadFloor
  split
  · exact ⟨⟨h.leaf, fun _ => rfl⟩, rfl⟩
  · next hsame =>
    rw [← not_not.mp hsame] at hz ⊢
    exact ⟨h, h.floor hz⟩

theorem getPathTile_spec (h : c.Valid map) (p : Position) :
    (getPathTile map p c).1 = map.getTile p ∧ (getPathTile map p c).2.Valid map := by
  unfold getPathTile Map.getTile tileOf
  split
  · exact ⟨rfl, h⟩
  next hz =>
  obtain ⟨hvalid, hleaf⟩ := PathLeaf.loadLeaf_spec h p
  obtain ⟨hvalid', hfloor⟩ := PathLeaf.loadFloor_spec hvalid (Int.not_le.mp hz)
  refine ⟨?_, hvalid'⟩
  dsimp only
  rw [hfloor, hleaf]
  exact bind_assoc ..

structure Variant.Valid (v : Variant) : Prop where
  neighbors : ∀ allowDiagonal node parent, v.neighbors allowDiagonal node parent ⊆ allNeighbors
  getTile : ∀ {map : Map} {c : PathLeaf}, c.Valid map → ∀ p,
    (v.getTile map p c).1 = map.getTile p ∧ (v.getTile map p c).2.Valid map

theorem optimised_valid : optimised.Valid where
  neighbors := by
    intro allowDiagonal node parent
    cases parent with
    | none => exact fun _ hd => hd
    | some parent =>
      refine List.Subset.trans (take_subset _ _) ?_
      cases parentDirection allowDiagonal ((parent.x.toNat : Int) - node.x.toNat) ((parent.y.toNat : Int) - node.y.toNat)
      all_goals decide
  getTile := getPathTile_spec

theorem plain_valid : plain.Valid where
  neighbors := by
    intro allowDiagonal node parent
    cases parent with
    | none => exact fun _ hd => hd
    | some parent => exact take_subset _ _
  getTile h _ := ⟨rfl, h⟩

namespace PathQuery

variable {v : Variant} {q : PathQuery} {s : PathSearch} {opened : Set Nat}

/-! ## Squares a search may come to -/

/-- A square that a node may be made for. -/
def Enters (q : PathQuery) (p : Position) : Prop :=
  q.skips p = false ∧ ∃ t, canWalkToForPath q.creature (q.map.getTile p) = some t

/-- The squares that can be come to in so many steps. -/
inductive Reaches (q : PathQuery) : Nat → Position → Prop
  | start : Reaches q 0 q.start
  | step {n : Nat} {p : Position} {d : Int × Int} (hd : d ∈ allNeighbors) (hp : Reaches q n p) (henters : q.Enters (p.shift d)) :
      Reaches q (n + 1) (p.shift d)

def tileCost (q : PathQuery) (p : Position) : Nat := ((q.map.getTile p).map q.creature.GetTileWalkCost).getD 0

variable {d : Int × Int}

theorem canWalkToForPath_eq {creature : PathCreature} {tile : Option Tile} {t : Tile}
    (h : canWalkToForPath creature tile = some t) : tile = some t := by
  unfold canWalkToForPath at h
  grind

theorem shift_ne (hd : d ∈ allNeighbors) (p : Position) : p.shift d ≠ p := by
  intro heq
  have hx : p.x + BitVec.ofInt 16 d.1 = p.x := congrArg Position.x heq
  have hy : p.y + BitVec.ofInt 16 d.2 = p.y := congrArg Position.y heq
  rw [BitVec.add_right_eq_self] at hx hy
  have hnone : ∀ d ∈ allNeighbors, ¬(BitVec.ofInt 16 d.1 = 0#16 ∧ BitVec.ofInt 16 d.2 = 0#16) := by decide
  exact hnone d hd ⟨hx, hy⟩

/-! ## What a turn of the inner loop does -/

/-- A node is made for its square, or made cheaper. -/
structure SetNode (nodes nodes' : AStarNodes) (opened : Set Nat) (j : Nat) (new : AStarNode) : Prop where
  inv : AStarNodes.Inv nodes' (insert j opened)
  pos : 0 < j
  node : nodes'.GetNode j = new
  others : ∀ i, i ≠ j → nodes'.GetNode i = nodes.GetNode i
  change : (j = nodes.current_node ∧ nodes'.current_node = nodes.current_node + 1) ∨
    (j < nodes.current_node ∧ nodes'.current_node = nodes.current_node ∧ (nodes.GetNode j).x = new.x ∧
      (nodes.GetNode j).y = new.y ∧ new.g_score < (nodes.GetNode j).g_score)

/-- A node that was set while its parent's cost was `g`. -/
structure Child (q : PathQuery) (nodes : AStarNodes) (parent i g : Nat) : Prop where
  lt : parent < nodes.current_node
  cheaper : (nodes.GetNode parent).g_score ≤ g
  step : ∃ d ∈ allNeighbors, q.squareOf (nodes.GetNode i) = (q.squareOf (nodes.GetNode parent)).shift d ∧
    (nodes.GetNode i).g_score = g + walkCost d + q.tileCost (q.squareOf (nodes.GetNode i))

variable {nodes : AStarNodes} {i : Nat}

theorem walkCost_ge (d : Int × Int) : MAP_NORMALWALKCOST ≤ walkCost d := by
  unfold walkCost
  split
  · decide
  · exact le_rfl

theorem Child.g_score_lt {parent g : Nat} (h : Child q nodes parent i g) :
    (nodes.GetNode parent).g_score < (nodes.GetNode i).g_score := by
  obtain ⟨d, -, -, hcost⟩ := h.step
  have hle := h.cheaper
  have hwalk : 0 < walkCost d := (show 0 < MAP_NORMALWALKCOST from by decide).trans_le (walkCost_ge d)
  omega

/-- What a search keeps from turn to turn. -/
structure Sound (q : PathQuery) (s : PathSearch) (opened : Set Nat) : Prop where
  inv : AStarNodes.Inv s.nodes opened
  leaf : s.leaf.Valid q.map
  current_node_pos : 0 < s.nodes.current_node
  start : s.nodes.GetNode 0 = { f := 0, g_score := 0, x := q.start.x, y := q.start.y }
  child : ∀ i, 0 < i → i < s.nodes.current_node → ∃ parent g, (s.nodes.GetNode i).parent = some parent ∧ Child q s.nodes parent i g ∧
    (s.nodes.GetNode i).f = (s.nodes.GetNode i).g_score + q.estimate (q.squareOf (s.nodes.GetNode i)) ∧
    q.Enters (q.squareOf (s.nodes.GetNode i))
  reached : ∀ i < s.nodes.current_node, ∃ n ≤ i, Reaches q n (q.squareOf (s.nodes.GetNode i))
  found : ∀ i, s.found = some i → i < s.nodes.current_node ∧ s.end_position = q.squareOf (s.nodes.GetNode i) ∧
    (q.pathCondition q.start s.end_position 0).1 = true
  best_match : 0 ≤ s.best_match

def Covered (q : PathQuery) (nodes : AStarNodes) (p : Position) (g : Nat) : Prop :=
  q.Enters p → ∃ j < nodes.current_node, q.squareOf (nodes.GetNode j) = p ∧ (nodes.GetNode j).g_score ≤ g + q.tileCost p

/-- Where the inner loop stands in the node `node`. -/
structure At (s : PathSearch) (opened : Set Nat) (nodeIdx : Nat) (node : AStarNode) : Prop where
  mem : nodeIdx ∈ opened
  x : node.x = (s.nodes.GetNode nodeIdx).x
  y : node.y = (s.nodes.GetNode nodeIdx).y
  g_score : node.g_score = (s.nodes.GetNode nodeIdx).g_score

theorem Sound.f_eq (h : Sound q s opened) (hi : 0 < i) (hlt : i < s.nodes.current_node) :
    (s.nodes.GetNode i).f = (s.nodes.GetNode i).g_score + q.estimate (q.squareOf (s.nodes.GetNode i)) := by
  obtain ⟨parent, g, -, -, hf, -⟩ := h.child i hi hlt
  exact hf

/-- A neighbour is passed over, gets its node set, or finds the nodes used up. -/
theorem tryNeighbor_cases (hv : v.Valid) (h : Sound q s opened) (nodeIdx : Nat) (node : AStarNode) (d : Int × Int) :
    ∃ leaf : PathLeaf, leaf.Valid q.map ∧
      ((tryNeighbor v q nodeIdx node d s = some (.next { s with leaf := leaf }) ∧
          Covered q s.nodes ((q.squareOf node).shift d) (node.g_score + walkCost d)) ∨
        (∃ j nodes', tryNeighbor v q nodeIdx node d s = some (.next { s with leaf := leaf, nodes := nodes' }) ∧
          q.Enters ((q.squareOf node).shift d) ∧
          SetNode s.nodes nodes' opened j {
            parent := some nodeIdx
            f := node.g_score + walkCost d + q.tileCost ((q.squareOf node).shift d) + q.estimate ((q.squareOf node).shift d)
            g_score := node.g_score + walkCost d + q.tileCost ((q.squareOf node).shift d)
            x := ((q.squareOf node).shift d).x
            y := ((q.squareOf node).shift d).y }) ∨
        (tryNeighbor v q nodeIdx node d s = some (.full { s with leaf := leaf }) ∧ q.Enters ((q.squareOf node).shift d) ∧
          (∀ i < s.nodes.current_node, q.squareOf (s.nodes.GetNode i) ≠ (q.squareOf node).shift d) ∧
          MAX_NODES ≤ s.nodes.current_node)) := by
  generalize hp : (q.squareOf node).shift d = p
  have hz : p.z = q.start.z := by rw [← hp]; rfl
  have hsquare : ∀ n : AStarNode, q.squareOf n = p ↔ n.x = p.x ∧ n.y = p.y := by
    intro n
    cases p
    simp only [squareOf, Position.mk.injEq]
    constructor
    · intro hn
      exact ⟨hn.1, hn.2.1⟩
    · intro hn
      exact ⟨hn.1, hn.2, hz.symm⟩
  unfold tryNeighbor
  dsimp only
  rw [hp]
  by_cases hskips : q.skips p = true
  · rw [if_pos hskips]
    refine ⟨s.leaf, h.leaf, .inl ⟨rfl, fun henters => ?_⟩⟩
    rw [henters.1] at hskips
    cases hskips
  · rw [if_neg hskips]
    have hskips : q.skips p = false := by simpa using hskips
    obtain ⟨r, hfind, hr⟩ := h.inv.find p.x p.y
    obtain ⟨htile, hleaf⟩ := hv.getTile h.leaf p
    refine ⟨(v.getTile q.map p s.leaf).2, hleaf, ?_⟩
    rw [hfind, htile]
    simp only [bind_eq_bind, bind_some]
    cases r with
    | none =>
      have hnone : ∀ i < s.nodes.current_node, ¬((s.nodes.GetNode i).x = p.x ∧ (s.nodes.GetNode i).y = p.y) := by
        intro i hi hxy
        have hri := (hr i).mpr ⟨hi, hxy⟩
        cases hri
      cases hcan : canWalkToForPath q.creature (q.map.getTile p) with
      | none =>
        refine .inl ⟨by simp, fun henters => ?_⟩
        obtain ⟨t, ht⟩ := henters.2
        rw [hcan] at ht
        cases ht
      | some t =>
        have hcost : q.tileCost p = q.creature.GetTileWalkCost t := by
          rw [tileCost, canWalkToForPath_eq hcan]
          rfl
        have henters : q.Enters p := ⟨hskips, t, hcan⟩
        rcases AStarNodes.createOpenNode_spec h.inv nodeIdx (node.g_score + walkCost d + q.tileCost p + q.estimate p)
            (node.g_score + walkCost d + q.tileCost p) hnone with ⟨hfull, hcreate⟩ | ⟨nodes', hcreate, hinv, hcurrent, hnodes⟩
        · refine .inr (.inr ⟨?_, henters, fun i hi heq => hnone i hi ((hsquare _).mp heq), hfull⟩)
          simp [← hcost, hcreate]
        refine .inr (.inl ⟨s.nodes.current_node, nodes', ?_, henters, hinv, h.current_node_pos, ?_, ?_, ?_⟩)
        · simp [← hcost, hcreate]
        · rw [hnodes, if_pos rfl]
        · intro i hi
          rw [hnodes, if_neg hi]
        · exact .inl ⟨rfl, hcurrent⟩
    | some j =>
      obtain ⟨hj, hx, hy⟩ := (hr j).mp rfl
      have hsquarej : q.squareOf (s.nodes.GetNode j) = p := (hsquare _).mpr ⟨hx, hy⟩
      cases ht : q.map.getTile p with
      | none =>
        refine .inl ⟨by simp, fun henters => ?_⟩
        obtain ⟨t, hcan⟩ := henters.2
        rw [canWalkToForPath_eq hcan] at ht
        cases ht
      | some t =>
        have hcost : q.creature.GetTileWalkCost t = q.tileCost p := by
          rw [tileCost, ht]
          rfl
        simp only [isSome_some, if_true, hcost]
        split
        · next hle =>
          refine .inl ⟨rfl, fun _ => ⟨j, hj, hsquarej, ?_⟩⟩
          rcases Nat.eq_zero_or_pos j with rfl | hpos
          · simp [h.start]
          · rw [h.f_eq hpos hj, hsquarej] at hle
            omega
        · next hgt =>
          have hpos : 0 < j := by
            by_contra hzero
            obtain rfl : j = 0 := by omega
            rw [h.start] at hgt
            exact hgt (Nat.zero_le _)
          obtain ⟨parent, g, -, -, hf, henters⟩ := h.child j hpos hj
          rw [hf, hsquarej] at hgt
          rw [hsquarej] at henters
          obtain ⟨hinv, hcurrent, hnodes⟩ := AStarNodes.rewriteNode_spec h.inv hj { s.nodes.GetNode j with
            f := node.g_score + walkCost d + q.tileCost p + q.estimate p
            g_score := node.g_score + walkCost d + q.tileCost p
            parent := some nodeIdx } rfl rfl
          refine .inr (.inl ⟨j, _, rfl, henters, hinv, hpos, ?_, fun i hi => ?_, .inr ⟨hj, hcurrent, hx, hy, ?_⟩⟩)
          · rw [hnodes, if_pos rfl]
            dsimp only
            rw [hx, hy]
          · rw [hnodes, if_neg hi]
          · show node.g_score + walkCost d + q.tileCost p < (s.nodes.GetNode j).g_score
            omega

/-! ## Nodes only get cheaper -/

/-- Nodes stay on their squares and none gets dearer. -/
structure Grows (nodes nodes' : AStarNodes) : Prop where
  current_node : nodes.current_node ≤ nodes'.current_node
  x : ∀ i < nodes.current_node, (nodes'.GetNode i).x = (nodes.GetNode i).x
  y : ∀ i < nodes.current_node, (nodes'.GetNode i).y = (nodes.GetNode i).y
  g_score : ∀ i < nodes.current_node, (nodes'.GetNode i).g_score ≤ (nodes.GetNode i).g_score

variable {nodes' : AStarNodes}

theorem Grows.refl (nodes : AStarNodes) : Grows nodes nodes :=
  ⟨le_rfl, fun _ _ => rfl, fun _ _ => rfl, fun _ _ => le_rfl⟩

theorem Grows.trans {nodes'' : AStarNodes} (h : Grows nodes nodes') (h' : Grows nodes' nodes'') :
    Grows nodes nodes'' where
  current_node := h.current_node.trans h'.current_node
  x i hi := (h'.x i (hi.trans_le h.current_node)).trans (h.x i hi)
  y i hi := (h'.y i (hi.trans_le h.current_node)).trans (h.y i hi)
  g_score i hi := (h'.g_score i (hi.trans_le h.current_node)).trans (h.g_score i hi)

theorem Grows.squareOf_eq (h : Grows nodes nodes') (hi : i < nodes.current_node) :
    q.squareOf (nodes'.GetNode i) = q.squareOf (nodes.GetNode i) := by
  rw [squareOf, squareOf, h.x i hi, h.y i hi]

theorem Covered.grows {g : Nat} (h : Covered q nodes p g) (hgrows : Grows nodes nodes') : Covered q nodes' p g := by
  intro henters
  obtain ⟨j, hj, hsquare, hle⟩ := h henters
  exact ⟨j, hj.trans_le hgrows.current_node, (hgrows.squareOf_eq hj).trans hsquare, (hgrows.g_score j hj).trans hle⟩

def weight (nodes : AStarNodes) : Nat := ∑ i ∈ Finset.range nodes.current_node, (nodes.GetNode i).g_score

/-- There are more nodes, or as many that cost less. -/
def Advances (nodes nodes' : AStarNodes) : Prop :=
  nodes.current_node < nodes'.current_node ∨ nodes'.current_node = nodes.current_node ∧ weight nodes' < weight nodes

theorem Advances.trans {nodes'' : AStarNodes} (h : Advances nodes nodes') (h' : Advances nodes' nodes'') :
    Advances nodes nodes'' := by
  unfold Advances at *
  omega

section SetNode

variable {nodes nodes' : AStarNodes} {j : Nat} {new : AStarNode}

theorem SetNode.grows (h : SetNode nodes nodes' opened j new) : Grows nodes nodes' := by
  rcases h.change with ⟨hj, hcurrent⟩ | ⟨hj, hcurrent, hx, hy, hg⟩
  · have hold : ∀ i < nodes.current_node, nodes'.GetNode i = nodes.GetNode i := fun i hi => h.others i (by omega)
    refine ⟨by omega, fun i hi => ?_, fun i hi => ?_, fun i hi => ?_⟩
    all_goals rw [hold i hi]
  have hold : ∀ i, (nodes'.GetNode i).x = (nodes.GetNode i).x ∧ (nodes'.GetNode i).y = (nodes.GetNode i).y ∧
      (nodes'.GetNode i).g_score ≤ (nodes.GetNode i).g_score := by
    intro i
    by_cases hi : i = j
    · rw [hi, h.node]
      exact ⟨hx.symm, hy.symm, hg.le⟩
    · rw [h.others i hi]
      exact ⟨rfl, rfl, le_rfl⟩
  exact ⟨hcurrent.ge, fun i _ => (hold i).1, fun i _ => (hold i).2.1, fun i _ => (hold i).2.2⟩

theorem SetNode.advances (h : SetNode nodes nodes' opened j new) : Advances nodes nodes' := by
  rcases h.change with ⟨-, hcurrent⟩ | ⟨hj, hcurrent, -, -, hg⟩
  · exact .inl (by omega)
  refine .inr ⟨hcurrent, ?_⟩
  unfold weight
  rw [hcurrent]
  refine Finset.sum_lt_sum (fun i hi => h.grows.g_score i (Finset.mem_range.mp hi)) ⟨j, Finset.mem_range.mpr hj, ?_⟩
  rw [h.node]
  exact hg

theorem SetNode.lt (h : SetNode nodes nodes' opened j new) : j < nodes'.current_node := by
  rcases h.change with ⟨hj, hcurrent⟩ | ⟨hj, hcurrent, -⟩
  · omega
  · omega

theorem SetNode.cases (h : SetNode nodes nodes' opened j new) (hi : i < nodes'.current_node) :
    i = j ∨ i < nodes.current_node := by
  rcases h.change with ⟨hj, hcurrent⟩ | ⟨hj, hcurrent, -⟩
  · omega
  · omega

end SetNode

variable {nodes' : AStarNodes} {node : AStarNode} {leaf : PathLeaf}

theorem Child.grows {nodes : AStarNodes} {parent g : Nat} (h : Child q nodes parent i g) (hgrows : Grows nodes nodes')
    (hsame : nodes'.GetNode i = nodes.GetNode i) : Child q nodes' parent i g := by
  refine ⟨h.lt.trans_le hgrows.current_node, (hgrows.g_score _ h.lt).trans h.cheaper, ?_⟩
  rw [hsame, hgrows.squareOf_eq h.lt]
  exact h.step

theorem At.squareOf_eq {nodeIdx : Nat} (h : At s opened nodeIdx node) :
    q.squareOf node = q.squareOf (s.nodes.GetNode nodeIdx) := by
  rw [squareOf, squareOf, h.x, h.y]

theorem At.child {nodeIdx : Nat} (h : At s opened nodeIdx node) (hlt : nodeIdx < s.nodes.current_node)
    (hd : d ∈ allNeighbors) {j f : Nat} (hset : SetNode s.nodes nodes' opened j {
      parent := some nodeIdx
      f := f
      g_score := node.g_score + walkCost d + q.tileCost ((q.squareOf node).shift d)
      x := ((q.squareOf node).shift d).x
      y := ((q.squareOf node).shift d).y }) : Child q nodes' nodeIdx j node.g_score := by
  have hnew : q.squareOf (nodes'.GetNode j) = (q.squareOf node).shift d := by
    rw [hset.node]
    rfl
  refine ⟨hlt.trans_le hset.grows.current_node, ?_, d, hd, ?_, ?_⟩
  · rw [h.g_score]
    exact hset.grows.g_score nodeIdx hlt
  · rw [hnew, hset.grows.squareOf_eq hlt, h.squareOf_eq]
  · rw [hnew, hset.node]

theorem Sound.set (h : Sound q s opened) {nodeIdx : Nat} (hat : At s opened nodeIdx node) (hd : d ∈ allNeighbors)
    (henters : q.Enters ((q.squareOf node).shift d)) {j f : Nat}
    (hf : f = node.g_score + walkCost d + q.tileCost ((q.squareOf node).shift d) + q.estimate ((q.squareOf node).shift d))
    (hset : SetNode s.nodes nodes' opened j {
      parent := some nodeIdx
      f := f
      g_score := node.g_score + walkCost d + q.tileCost ((q.squareOf node).shift d)
      x := ((q.squareOf node).shift d).x
      y := ((q.squareOf node).shift d).y }) (hleaf : leaf.Valid q.map) :
    Sound q { s with leaf := leaf, nodes := nodes' } (insert j opened) ∧ j ≠ nodeIdx := by
  have hlt : nodeIdx < s.nodes.current_node := h.inv.items_lt _ hat.mem
  have hgrows := hset.grows
  have hsquare := hat.squareOf_eq (q := q)
  have hne : j ≠ nodeIdx := by
    intro heq
    rcases hset.change with ⟨hj, -⟩ | ⟨-, -, hx, hy, -⟩
    · omega
    · refine shift_ne hd (q.squareOf node) ?_
      rw [heq] at hx hy
      exact (congrArg₂ (fun x y => (⟨x, y, q.start.z⟩ : Position)) hx hy).symm.trans hsquare.symm
  have hnew : q.squareOf (nodes'.GetNode j) = (q.squareOf node).shift d := by
    rw [hset.node]
    rfl
  refine ⟨⟨hset.inv, hleaf, hgrows.current_node.trans_lt' h.current_node_pos, ?_, fun i hi hlti => ?_, fun i hi => ?_, fun i hi => ?_,
    h.best_match⟩, hne⟩
  · rw [hset.others 0 (Nat.ne_of_lt hset.pos)]
    exact h.start
  · by_cases hij : i = j
    · subst hij
      refine ⟨nodeIdx, node.g_score, by rw [hset.node], hat.child hlt hd hset, ?_, ?_⟩
      · rw [hnew, hset.node, hf]
      · rw [hnew]
        exact henters
    · have hi' := (hset.cases hlti).resolve_left hij
      obtain ⟨parent, g, hparent, hchild, hrest⟩ := h.child i hi hi'
      rw [hset.others i hij]
      exact ⟨parent, g, hparent, hchild.grows hgrows (hset.others i hij), hrest⟩
  · by_cases hij : i = j
    · subst hij
      rcases hset.change with ⟨hi0, -⟩ | ⟨hi0, -⟩
      · obtain ⟨n, hn, hreach⟩ := h.reached nodeIdx hlt
        refine ⟨n + 1, by omega, ?_⟩
        rw [hnew, hsquare]
        exact .step hd hreach (hsquare ▸ henters)
      · rw [hgrows.squareOf_eq hi0]
        exact h.reached i hi0
    · have hi' := (hset.cases hi).resolve_left hij
      rw [hset.others i hij]
      exact h.reached i hi'
  · obtain ⟨hlti, hend, hcond⟩ := h.found i hi
    exact ⟨hlti.trans_le hgrows.current_node, hend.trans (hgrows.squareOf_eq hlti).symm, hcond⟩

/-! ## The inner loop -/

/-- What the turns of the inner loop for the node `nodeIdx` leave. -/
structure Expanded (q : PathQuery) (nodeIdx : Nat) (s s' : PathSearch) (opened opened' : Set Nat) : Prop where
  sound : Sound q s' opened'
  opened : opened ⊆ opened'
  found : s'.found = s.found
  grows : Grows s.nodes s'.nodes
  node : s'.nodes.GetNode nodeIdx = s.nodes.GetNode nodeIdx
  advances : s'.nodes = s.nodes ∨ Advances s.nodes s'.nodes

variable {opened' : Set Nat} {s' : PathSearch}

theorem Expanded.trans {nodeIdx : Nat} {s'' : PathSearch} {opened'' : Set Nat}
    (h : Expanded q nodeIdx s s' opened opened') (h' : Expanded q nodeIdx s' s'' opened' opened'') :
    Expanded q nodeIdx s s'' opened opened'' where
  sound := h'.sound
  opened := h.opened.trans h'.opened
  found := h'.found.trans h.found
  grows := h.grows.trans h'.grows
  node := h'.node.trans h.node
  advances := by
    rcases h.advances with heq | hadv
    · rw [← heq]
      exact h'.advances
    rcases h'.advances with heq' | hadv'
    · rw [heq']
      exact .inr hadv
    · exact .inr (hadv.trans hadv')

theorem Sound.withLeaf (h : Sound q s opened) (hleaf : leaf.Valid q.map) : Sound q { s with leaf := leaf } opened :=
  { h with leaf := hleaf }

theorem Sound.expanded (h : Sound q s opened) (nodeIdx : Nat) (hleaf : leaf.Valid q.map) :
    Expanded q nodeIdx s { s with leaf := leaf } opened opened :=
  ⟨h.withLeaf hleaf, fun _ hn => hn, rfl, .refl _, rfl, .inl rfl⟩

theorem At.expanded {nodeIdx : Nat} (hat : At s opened nodeIdx node) (h : Expanded q nodeIdx s s' opened opened') :
    At s' opened' nodeIdx node := by
  refine ⟨h.opened hat.mem, ?_, ?_, ?_⟩
  · rw [h.node, hat.x]
  · rw [h.node, hat.y]
  · rw [h.node, hat.g_score]

theorem tryNeighbor_spec (hv : v.Valid) (h : Sound q s opened) {nodeIdx : Nat} (hat : At s opened nodeIdx node)
    (hd : d ∈ allNeighbors) :
    ∃ s' opened', (tryNeighbor v q nodeIdx node d s = some (.next s') ∨ tryNeighbor v q nodeIdx node d s = some (.full s')) ∧
      Expanded q nodeIdx s s' opened opened' := by
  obtain ⟨leaf, hleaf, ⟨hnext, -⟩ | ⟨j, nodes', hnext, henters, hset⟩ | ⟨hfull, -⟩⟩ := tryNeighbor_cases hv h nodeIdx node d
  · exact ⟨_, _, .inl hnext, h.expanded nodeIdx hleaf⟩
  · obtain ⟨hsound, hne⟩ := h.set hat hd henters rfl hset hleaf
    exact ⟨_, _, .inl hnext, hsound, Set.subset_insert j opened, rfl, hset.grows, hset.others nodeIdx hne.symm,
      Or.inr hset.advances⟩
  · exact ⟨_, _, .inr hfull, h.expanded nodeIdx hleaf⟩

theorem expand_spec (hv : v.Valid) (h : Sound q s opened) {nodeIdx : Nat} (hat : At s opened nodeIdx node)
    {ds : List (Int × Int)} (hds : ds ⊆ allNeighbors) :
    ∃ s' opened', (expand v q nodeIdx node ds s = some (.next s') ∨ expand v q nodeIdx node ds s = some (.full s')) ∧
      Expanded q nodeIdx s s' opened opened' := by
  induction ds generalizing s opened with
  | nil => exact ⟨s, opened, .inl rfl, h.expanded nodeIdx h.leaf⟩
  | cons d ds ih =>
    obtain ⟨hd, hds⟩ := cons_subset.mp hds
    obtain ⟨s', opened', hnext | hfull, hturn⟩ := tryNeighbor_spec hv h hat hd
    · obtain ⟨s'', opened'', hrest, hlast⟩ := ih hturn.sound (hat.expanded hturn) hds
      unfold expand
      rw [hnext]
      exact ⟨s'', opened'', hrest, hturn.trans hlast⟩
    · unfold expand
      rw [hfull]
      exact ⟨s', opened', .inr rfl, hturn⟩

/-! ## The loop -/

theorem pathCondition_nonneg {p' : Position} {best : Int} (hbest : 0 ≤ best) : 0 ≤ (q.pathCondition p p' best).2 := by
  unfold pathCondition
  split
  · exact hbest
  split
  · exact hbest
  · split
    · split <;> omega
    · grind

theorem pathCondition_zero {p' : Position} {best : Int} (hbest : 0 ≤ best) (h : (q.pathCondition p p' best).1 = true) :
    (q.pathCondition p p' 0).1 = true := by
  unfold pathCondition at h ⊢
  split at h
  · cases h
  next hrange =>
  split at h
  · cases h
  next hsight =>
  split at h
  · next hone =>
    grind
  next hone =>
  split at h
  · next hmax =>
    split at h
    · cases h
    · next hmin =>
      grind
  · cases h

theorem Sound.look (h : Sound q s opened) {nodeIdx : Nat} (hlt : nodeIdx < s.nodes.current_node) :
    Sound q (q.look nodeIdx s).2 opened ∧ (q.look nodeIdx s).2.nodes = s.nodes := by
  have hbest : 0 ≤ (q.pathCondition q.start (q.squareOf (s.nodes.GetNode nodeIdx)) s.best_match).2 := pathCondition_nonneg h.best_match
  unfold PathQuery.look
  dsimp only
  split
  · next hmatch =>
    refine ⟨{ h with found := fun i hi => ?_, best_match := hbest }, rfl⟩
    obtain rfl := Option.some.inj hi
    exact ⟨hlt, rfl, pathCondition_zero h.best_match hmatch⟩
  · exact ⟨{ h with best_match := hbest }, rfl⟩

theorem Sound.close (h : Sound q s opened) {nodeIdx : Nat} (hmem : nodeIdx ∈ opened) :
    Sound q { s with nodes := s.nodes.CloseNode nodeIdx } (opened \ {nodeIdx}) ∧
      (∀ i, (s.nodes.CloseNode nodeIdx).GetNode i = s.nodes.GetNode i) ∧
      (s.nodes.CloseNode nodeIdx).current_node = s.nodes.current_node ∧
      (s.nodes.CloseNode nodeIdx).heap_size + 1 = s.nodes.heap_size := by
  obtain ⟨hinv, hnodes, hcurrent, hsize⟩ := AStarNodes.closeNode_spec h.inv hmem
  have hget : ∀ i, (s.nodes.CloseNode nodeIdx).GetNode i = s.nodes.GetNode i := by
    simp [AStarNodes.GetNode, hnodes]
  refine ⟨⟨hinv, h.leaf, hcurrent ▸ h.current_node_pos, ?_, fun i hi hlt => ?_, fun i hi => ?_, fun i hi => ?_, h.best_match⟩,
    hget, hcurrent, hsize⟩
  · rw [hget]
    exact h.start
  · rw [hcurrent] at hlt
    obtain ⟨parent, g, hparent, hchild, hrest⟩ := h.child i hi hlt
    rw [hget]
    refine ⟨parent, g, hparent, ⟨hcurrent ▸ hchild.lt, ?_, ?_⟩, hrest⟩
    · rw [hget]
      exact hchild.cheaper
    · rw [hget, hget]
      exact hchild.step
  · rw [hcurrent] at hi
    rw [hget]
    exact h.reached i hi
  · rw [hcurrent, hget]
    exact h.found i hi

/-- What a turn that goes on gets smaller: the nodes left, their costs, the open nodes. -/
def size (nodes : AStarNodes) : ℕ ×ₗ ℕ ×ₗ ℕ := toLex (MAX_NODES - nodes.current_node, toLex (weight nodes, nodes.heap_size))

theorem size_lt_of_advances {nodes : AStarNodes} (hle : nodes'.current_node ≤ MAX_NODES) (h : Advances nodes nodes') :
    size nodes' < size nodes := by
  rw [Prod.Lex.lt_iff]
  rcases h with hmore | ⟨hcurrent, hless⟩
  · refine .inl ?_
    show MAX_NODES - nodes'.current_node < MAX_NODES - nodes.current_node
    omega
  · refine .inr ⟨congrArg (MAX_NODES - ·) hcurrent, ?_⟩
    rw [Prod.Lex.lt_iff]
    exact .inl hless

theorem size_lt_of_closed {nodes : AStarNodes} (hcurrent : nodes'.current_node = nodes.current_node)
    (hweight : weight nodes' = weight nodes) (hsize : nodes'.heap_size < nodes.heap_size) : size nodes' < size nodes := by
  rw [Prod.Lex.lt_iff]
  refine .inr ⟨congrArg (MAX_NODES - ·) hcurrent, ?_⟩
  rw [Prod.Lex.lt_iff]
  exact .inr ⟨hweight, hsize⟩

theorem Expanded.close {nodeIdx : Nat} (h : Expanded q nodeIdx s s' opened opened') (hmem : nodeIdx ∈ opened) :
    Sound q { s' with nodes := s'.nodes.CloseNode nodeIdx } (Set.diff opened' {nodeIdx}) ∧
      size (s'.nodes.CloseNode nodeIdx) < size s.nodes := by
  obtain ⟨hsound, hget, hcurrent, hsize⟩ := h.sound.close (h.opened hmem)
  have hweight : weight (s'.nodes.CloseNode nodeIdx) = weight s'.nodes := by
    simp [weight, hcurrent, hget]
  refine ⟨hsound, ?_⟩
  have hclosed : size (s'.nodes.CloseNode nodeIdx) < size s'.nodes := size_lt_of_closed hcurrent hweight (by omega)
  rcases h.advances with heq | hadv
  · rwa [← heq]
  · exact hclosed.trans (size_lt_of_advances h.sound.inv.current_node_le hadv)

theorem turn_spec (hv : v.Valid) (h : Sound q s opened) :
    ∃ s' opened', Sound q s' opened' ∧
      ((turn v q s = some (.again s') ∧ size s'.nodes < size s.nodes) ∨ turn v q s = some (.done s') ∨
        turn v q s = some (.failed s')) := by
  unfold turn
  split
  · exact ⟨s, opened, h, .inr (.inl rfl)⟩
  rcases AStarNodes.getBestNode_spec h.inv with ⟨hbest, -⟩ | ⟨nodeIdx, hmem, hbest⟩
  · rw [hbest]
    dsimp only
    split
    · exact ⟨s, opened, h, .inr (.inl rfl)⟩
    · exact ⟨s, opened, h, .inr (.inr rfl)⟩
  · rw [hbest]
    dsimp only
    obtain ⟨hlook, hnodes⟩ := h.look (h.inv.items_lt nodeIdx hmem)
    split
    · exact ⟨_, opened, hlook, .inr (.inl rfl)⟩
    have hat : At (q.look nodeIdx s).2 opened nodeIdx (s.nodes.GetNode nodeIdx) := by
      rw [← hnodes]
      exact ⟨hmem, rfl, rfl, rfl⟩
    obtain ⟨s', opened', hnext | hfull, hexpanded⟩ := expand_spec hv hlook hat (hv.neighbors q.fpp.allowDiagonal
      (s.nodes.GetNode nodeIdx) ((s.nodes.GetNode nodeIdx).parent.map fun i => (q.look nodeIdx s).2.nodes.GetNode i))
    · obtain ⟨hsound, hsmaller⟩ := hexpanded.close hmem
      rw [hnext]
      exact ⟨_, _, hsound, .inl ⟨rfl, hnodes ▸ hsmaller⟩⟩
    obtain ⟨hsound, hsmaller⟩ := hexpanded.close hmem
    rw [hfull]
    dsimp only
    split
    · exact ⟨_, _, hsound, .inl ⟨rfl, hnodes ▸ hsmaller⟩⟩
    · exact ⟨_, _, hexpanded.sound, .inr (.inr rfl)⟩

theorem search_ends (hv : v.Valid) (h : Sound q s opened) : ∃ n r, search v q n s = some r := by
  generalize hsize : size s.nodes = a
  induction a using WellFoundedLT.induction generalizing s opened with
  | ind a ih =>
    obtain ⟨s', opened', hsound, ⟨hagain, hless⟩ | hdone | hfailed⟩ := turn_spec hv h
    · obtain ⟨n, r, hr⟩ := ih (size s'.nodes) (hsize ▸ hless) hsound rfl
      refine ⟨n + 1, r, ?_⟩
      rw [search, hagain]
      exact hr
    · exact ⟨1, _, by rw [search, hdone]⟩
    · exact ⟨1, _, by rw [search, hfailed]⟩

theorem search_sound (hv : v.Valid) (h : Sound q s opened) {n : Nat} {r : Bool × PathSearch} (hr : search v q n s = some r) :
    (∃ opened', Sound q r.2 opened') ∧ (r.1 = true → r.2.found.isSome = true) := by
  induction n generalizing s opened with
  | zero => cases hr
  | succ n ih =>
    rw [search] at hr
    obtain ⟨s', opened', hsound, ⟨hagain, -⟩ | hdone | hfailed⟩ := turn_spec hv h
    · rw [hagain] at hr
      exact ih hsound hr
    · rw [hdone] at hr
      obtain rfl := Option.some.inj hr
      exact ⟨⟨opened', hsound⟩, id⟩
    · rw [hfailed] at hr
      obtain rfl := Option.some.inj hr
      exact ⟨⟨opened', hsound⟩, fun h => nomatch h⟩

theorem search_mono {n : Nat} {r : Bool × PathSearch} (hr : search v q n s = some r) {m : Nat} (hm : n ≤ m) :
    search v q m s = some r := by
  induction n generalizing s m with
  | zero => cases hr
  | succ n ih =>
    obtain ⟨m, rfl⟩ : ∃ k, m = k + 1 := ⟨m - 1, by omega⟩
    rw [search] at hr ⊢
    cases ht : turn v q s with
    | none =>
      rw [ht] at hr
      cases hr
    | some t =>
      rw [ht] at hr
      cases t with
      | again s' => exact ih hr (by omega)
      | done s' => exact hr
      | failed s' => exact hr

theorem sound_start {w : AStarWorkspace} (hw : AStarNodes.Ready w) :
    ∃ nodes, AStarNodes.make q.start.x q.start.y w = some nodes ∧ Sound q { nodes := nodes } {0} ∧ nodes.current_node = 1 := by
  obtain ⟨nodes, hmake, hinv, hcurrent, -, hnode⟩ := AStarNodes.make_spec hw q.start.x q.start.y
  refine ⟨nodes, hmake, ⟨hinv, PathLeaf.valid_new _, ?_, hnode, fun i hi hlt => ?_, fun i hi => ?_, (fun i hi => nomatch hi),
    le_rfl⟩, hcurrent⟩
  · show 0 < nodes.current_node
    omega
  · have hlt : i < nodes.current_node := hlt
    omega
  have hi : i < nodes.current_node := hi
  obtain rfl : i = 0 := by omega
  refine ⟨0, le_rfl, ?_⟩
  rw [hnode]
  exact .start

end PathQuery

/-! ## The way back -/

/-- The squares that directions lead over. -/
def visited : Position → List Direction → List Position
  | _, [] => []
  | p, d :: ds => getNextPosition d p :: visited (getNextPosition d p) ds

variable {d : Int × Int}

theorem visited_concat (p : Position) (ds : List Direction) (d : Direction) :
    visited p (ds ++ [d]) = visited p ds ++ [getNextPosition d ((visited p ds).getLastD p)] := by
  induction ds generalizing p with
  | nil => rfl
  | cons e ds ih =>
    rw [cons_append, visited, ih, visited, cons_append]
    cases visited (getNextPosition e p) ds with
    | nil => rfl
    | cons r rs => rfl

theorem stepDirection_spec (hd : d ∈ allNeighbors) :
    ∃ dir, stepDirection (-d.1) (-d.2) = some dir ∧ ∀ p, getNextPosition dir p = p.shift d := by
  have hzero : ∀ v : BitVec 16, v + BitVec.ofInt 16 0 = v := fun v => BitVec.add_zero v
  have hone : ∀ v : BitVec 16, v + BitVec.ofInt 16 1 = v + 1 := fun v => rfl
  have hback : ∀ v : BitVec 16, v + BitVec.ofInt 16 (-1) = v - 1 := fun v => (BitVec.sub_eq_add_neg v 1).symm
  simp only [allNeighbors, mem_cons, not_mem_nil, or_false] at hd
  rcases hd with rfl | rfl | rfl | rfl | rfl | rfl | rfl | rfl
  all_goals exact ⟨_, rfl, fun p => by simp only [getNextPosition, Position.shift, hzero, hone, hback]⟩

namespace PathQuery

variable {v : Variant} {q : PathQuery} {s : PathSearch} {opened : Set Nat}

/-- No step that a search may take crosses the border of the coordinates. -/
def AwayFromBorder (q : PathQuery) : Prop :=
  ∀ n < MAX_NODES, ∀ p, Reaches q n p → ∀ d ∈ allNeighbors, q.Enters (p.shift d) →
    ((p.shift d).x.toNat : Int) = p.x.toNat + d.1 ∧ ((p.shift d).y.toNat : Int) = p.y.toNat + d.2

/-- Where every step ends on the map. -/
def Inner (p : Position) : Prop := 0 < p.x.toNat ∧ p.x.toNat < 65535 ∧ 0 < p.y.toNat ∧ p.y.toNat < 65535

theorem Inner.shift (hp : Inner p) (hd : d ∈ allNeighbors) :
    ((p.shift d).x.toNat : Int) = p.x.toNat + d.1 ∧ ((p.shift d).y.toNat : Int) = p.y.toNat + d.2 := by
  obtain ⟨hx0, hx1, hy0, hy1⟩ := hp
  have hmove : ∀ (v : BitVec 16) (i : Int), (i = -1 ∨ i = 0 ∨ i = 1) → 0 < v.toNat → v.toNat < 65535 →
      ((v + BitVec.ofInt 16 i).toNat : Int) = v.toNat + i := by
    grind
  have hunit : (d.1 = -1 ∨ d.1 = 0 ∨ d.1 = 1) ∧ (d.2 = -1 ∨ d.2 = 0 ∨ d.2 = 1) := by
    revert d
    decide
  exact ⟨hmove _ _ hunit.1 hx0 hx1, hmove _ _ hunit.2 hy0 hy1⟩

theorem awayFromBorder_of_inner (hstart : Inner q.start) (htiles : ∀ p t, q.map.getTile p = some t → Inner p) :
    q.AwayFromBorder := by
  intro n _ p hp d hd _
  refine Inner.shift ?_ hd
  cases hp with
  | start => exact hstart
  | step _ _ henters =>
    obtain ⟨t, ht⟩ := henters.2
    exact htiles _ t (canWalkToForPath_eq ht)

theorem Sound.offset (h : Sound q s opened) (haway : q.AwayFromBorder) {parent i : Nat}
    (hparent : parent < s.nodes.current_node) (hd : d ∈ allNeighbors)
    (hsquare : q.squareOf (s.nodes.GetNode i) = (q.squareOf (s.nodes.GetNode parent)).shift d)
    (henters : q.Enters (q.squareOf (s.nodes.GetNode i))) :
    ((s.nodes.GetNode parent).x.toNat : Int) - (s.nodes.GetNode i).x.toNat = -d.1 ∧
      ((s.nodes.GetNode parent).y.toNat : Int) - (s.nodes.GetNode i).y.toNat = -d.2 := by
  obtain ⟨k, hk, hreach⟩ := h.reached parent hparent
  have hlt : k < MAX_NODES := hk.trans_lt (hparent.trans_le h.inv.current_node_le)
  obtain ⟨hx, hy⟩ := haway k hlt _ hreach d hd (hsquare ▸ henters)
  rw [← hsquare] at hx hy
  have hx : ((s.nodes.GetNode i).x.toNat : Int) = (s.nodes.GetNode parent).x.toNat + d.1 := hx
  have hy : ((s.nodes.GetNode i).y.toNat : Int) = (s.nodes.GetNode parent).y.toNat + d.2 := hy
  exact ⟨by omega, by omega⟩

/-- The directions lead from the start to the node `i`, over the squares of cheaper nodes. -/
structure WayTo (q : PathQuery) (nodes : AStarNodes) (i : Nat) (dirs : List Direction) : Prop where
  last : (visited q.start dirs).getLastD q.start = q.squareOf (nodes.GetNode i)
  cheaper : ∀ p ∈ q.start :: visited q.start dirs, ∃ j < nodes.current_node, q.squareOf (nodes.GetNode j) = p ∧
    (nodes.GetNode j).g_score ≤ (nodes.GetNode i).g_score
  nodup : (q.start :: visited q.start dirs).Nodup
  enters : ∀ p ∈ visited q.start dirs, q.Enters p

theorem Sound.squareOf_injective (h : Sound q s opened) {i j : Nat} (hi : i < s.nodes.current_node) (hj : j < s.nodes.current_node)
    (hsquare : q.squareOf (s.nodes.GetNode i) = q.squareOf (s.nodes.GetNode j)) : i = j :=
  h.inv.node_injective hi hj (congrArg Position.x hsquare) (congrArg Position.y hsquare)

theorem WayTo.step (h : Sound q s opened) {parent i g : Nat} (hi : i < s.nodes.current_node) (hchild : Child q s.nodes parent i g)
    (henters : q.Enters (q.squareOf (s.nodes.GetNode i))) {dirs : List Direction} (hway : WayTo q s.nodes parent dirs) {dir : Direction}
    (hdir : getNextPosition dir (q.squareOf (s.nodes.GetNode parent)) = q.squareOf (s.nodes.GetNode i)) :
    WayTo q s.nodes i (dirs ++ [dir]) := by
  have hcost := hchild.g_score_lt
  have hvisited : visited q.start (dirs ++ [dir]) = visited q.start dirs ++ [q.squareOf (s.nodes.GetNode i)] := by
    rw [visited_concat, hway.last, hdir]
  have hnot : q.squareOf (s.nodes.GetNode i) ∉ q.start :: visited q.start dirs := by
    intro hmem
    obtain ⟨j, hj, hsquare, hle⟩ := hway.cheaper _ hmem
    rw [h.squareOf_injective hj hi hsquare] at hle
    omega
  refine ⟨?_, fun p hp => ?_, ?_, fun p hp => ?_⟩
  · rw [hvisited, getLastD_concat]
  · rw [hvisited, ← cons_append, mem_append, mem_singleton] at hp
    rcases hp with hp | rfl
    · obtain ⟨j, hj, hsquare, hle⟩ := hway.cheaper p hp
      exact ⟨j, hj, hsquare, hle.trans hcost.le⟩
    · exact ⟨i, hi, rfl, le_rfl⟩
  · rw [hvisited, ← cons_append]
    exact (perm_append_singleton _ _).nodup_iff.mpr (nodup_cons.mpr ⟨hnot, hway.nodup⟩)
  rw [hvisited, mem_append, mem_singleton] at hp
  rcases hp with hp | rfl
  · exact hway.enters p hp
  · exact henters

theorem appendPath_spec (h : Sound q s opened) (haway : q.AwayFromBorder) {i : Nat} (hi : i < s.nodes.current_node) :
    ∃ dirs, WayTo q s.nodes i dirs.reverse ∧ ∃ n, ∀ m ≥ n, ∀ dirList,
      appendPath s.nodes m (s.nodes.GetNode i).x.toNat (s.nodes.GetNode i).y.toNat (s.nodes.GetNode i).parent dirList =
        some (dirList ++ dirs) := by
  generalize hg : (s.nodes.GetNode i).g_score = g
  induction g using Nat.strong_induction_on generalizing i with
  | _ g ih =>
    rcases Nat.eq_zero_or_pos i with rfl | hpos
    · refine ⟨[], ⟨?_, fun p hp => ?_, nodup_singleton _, fun p hp => nomatch hp⟩, 0, fun m _ dirList => ?_⟩
      · rw [h.start]
        rfl
      · refine ⟨0, hi, ?_, le_rfl⟩
        rw [mem_singleton.mp hp, h.start]
        rfl
      · rw [h.start, append_nil]
        cases m <;> rfl
    · obtain ⟨parent, g', hparent, hchild, -, henters⟩ := h.child i hpos hi
      obtain ⟨d, hd, hsquare, -⟩ := hchild.step
      obtain ⟨dirs, hway, n, hn⟩ := ih _ (hg ▸ hchild.g_score_lt) hchild.lt rfl
      obtain ⟨dir, hdir, hnext⟩ := stepDirection_spec hd
      obtain ⟨hdx, hdy⟩ := h.offset haway hchild.lt hd hsquare henters
      refine ⟨dir :: dirs, ?_, n + 1, fun m hm dirList => ?_⟩
      · rw [reverse_cons]
        exact WayTo.step h hi hchild henters hway ((hnext _).trans hsquare.symm)
      · obtain ⟨m, rfl⟩ : ∃ l, m = l + 1 := ⟨m - 1, by omega⟩
        rw [hparent, appendPath, hdx, hdy, hdir, hn m (by omega)]
        simp

/-! ## Results -/

structure PathOk (q : PathQuery) (dirs : List Direction) : Prop where
  nodup : (q.start :: visited q.start dirs).Nodup
  queryAdd : ∀ p ∈ visited q.start dirs, ∃ t, q.map.getTile p = some t ∧ q.creature.queryAdd t = true
  near : q.fpp.maxSearchDist ≠ 0 → ∀ p ∈ visited q.start dirs,
    (((p.x.toNat : Int) - q.start.x.toNat).natAbs : Int) ≤ q.fpp.maxSearchDist ∧
      (((p.y.toNat : Int) - q.start.y.toNat).natAbs : Int) ≤ q.fpp.maxSearchDist
  target : (q.pathCondition q.start ((visited q.start dirs).getLastD q.start) 0).1 = true

variable {w : AStarWorkspace} {dirList : List Direction} {r : PathResult}

theorem skips_near (h : q.skips p = false) (hdist : q.fpp.maxSearchDist ≠ 0) :
    (((p.x.toNat : Int) - q.start.x.toNat).natAbs : Int) ≤ q.fpp.maxSearchDist ∧
      (((p.y.toNat : Int) - q.start.y.toNat).natAbs : Int) ≤ q.fpp.maxSearchDist := by
  unfold skips at h
  rw [Bool.or_eq_false_iff, decide_eq_true hdist, Bool.true_and, Bool.or_eq_false_iff, decide_eq_false_iff_not,
    decide_eq_false_iff_not] at h
  exact ⟨Int.not_lt.mp h.1.1, Int.not_lt.mp h.1.2⟩

theorem Enters.queryAdd (h : q.Enters p) (hne : p ≠ q.start) :
    ∃ t, q.map.getTile p = some t ∧ q.creature.queryAdd t = true := by
  obtain ⟨t, ht⟩ := h.2
  have htile := canWalkToForPath_eq ht
  refine ⟨t, htile, ?_⟩
  rw [htile, canWalkToForPath] at ht
  split at ht
  · grind
  · next hown =>
    have hstart := q.creature.tile_pos t (not_not.mp hown)
    exact absurd ((q.map.tile_pos p t htile).symm.trans hstart) hne

theorem WayTo.pathOk {i : Nat} {dirs : List Direction} (h : WayTo q s.nodes i dirs)
    (hcond : (q.pathCondition q.start (q.squareOf (s.nodes.GetNode i)) 0).1 = true) : PathOk q dirs where
  nodup := h.nodup
  queryAdd p hp := by
    refine (h.enters p hp).queryAdd fun heq => ?_
    exact (nodup_cons.mp h.nodup).1 (heq ▸ hp)
  near hdist p hp := skips_near (h.enters p hp).1 hdist
  target := by
    rw [h.last]
    exact hcond

theorem searchPath_ready (hv : v.Valid) (hw : AStarNodes.Ready w) {fuel : Nat}
    (hr : searchPath v q dirList w fuel = some r) : AStarNodes.Ready r.2.2 := by
  obtain ⟨nodes, hmake, hsound, -⟩ := sound_start hw (q := q)
  unfold searchPath at hr
  rw [hmake] at hr
  simp only [bind_eq_bind, bind_some, bind_eq_some_iff] at hr
  obtain ⟨⟨success, s⟩, hsearch, hr⟩ := hr
  obtain ⟨⟨opened, hs⟩, -⟩ := search_sound hv hsound hsearch
  split at hr
  · simp only [bind_eq_some_iff] at hr
    obtain ⟨dirs, -, hr⟩ := hr
    obtain rfl := Option.some.inj hr
    exact hs.inv.ready
  · obtain rfl := Option.some.inj hr
    exact hs.inv.ready

/-- What follows the early exits ends with a path that is right, or without one. -/
theorem searchPath_spec (hv : v.Valid) (hw : AStarNodes.Ready w) (haway : q.AwayFromBorder) (dirList : List Direction) :
    ∃ n r, (∀ m ≥ n, searchPath v q dirList w m = some r) ∧
      (r.1 = true → ∃ dirs, r.2.1 = dirList ++ dirs ∧ PathOk q dirs.reverse) ∧ (r.1 = false → r.2.1 = dirList) := by
  obtain ⟨nodes, hmake, hsound, -⟩ := sound_start hw (q := q)
  obtain ⟨n, ⟨success, s⟩, hsearch⟩ := search_ends hv hsound
  obtain ⟨⟨opened, hs⟩, hfound⟩ := search_sound hv hsound hsearch
  cases success with
  | false =>
    refine ⟨n, (false, dirList, s.nodes.release), fun m hm => ?_, (fun h => nomatch h), fun _ => rfl⟩
    unfold searchPath
    rw [hmake]
    simp only [bind_eq_bind, bind_some]
    rw [search_mono hsearch hm]
    rfl
  | true =>
    obtain ⟨i, hi⟩ := isSome_iff_exists.mp (hfound rfl)
    obtain ⟨hlt, hend, hcond⟩ := hs.found i hi
    obtain ⟨dirs, hway, k, hpath⟩ := appendPath_spec hs haway hlt
    refine ⟨max n k, (true, dirList ++ dirs, s.nodes.release), fun m hm => ?_, fun _ => ⟨dirs, rfl, hway.pathOk (hend ▸ hcond)⟩,
      (fun h => nomatch h)⟩
    have hx : s.end_position.x = (s.nodes.GetNode i).x := by rw [hend]; rfl
    have hy : s.end_position.y = (s.nodes.GetNode i).y := by rw [hend]; rfl
    have hfound : s.found.bind (fun found => (s.nodes.GetNode found).parent) = (s.nodes.GetNode i).parent := by
      rw [hi]
      rfl
    unfold searchPath
    rw [hmake]
    simp only [bind_eq_bind, bind_some]
    rw [search_mono hsearch ((le_max_left n k).trans hm)]
    simp only [bind_some, if_true, hfound]
    rw [hx, hy, hpath m ((le_max_right n k).trans hm)]
    rfl

/-- The workspaces that any searches leave, whatever they were asked. -/
inductive Used : AStarWorkspace → Prop
  | new : Used {}
  | search {w : AStarWorkspace} {dirList : List Direction} {fuel : Nat} {r : PathResult} (q : PathQuery) (hw : Used w)
      (hr : q.getPathMatching dirList w fuel = some r) : Used r.2.2

theorem getPathMatching_cases (q : PathQuery) (dirList : List Direction) (w : AStarWorkspace) :
    (∀ fuel, q.getPathMatching dirList w fuel = some (false, dirList, w)) ∨
      ((q.pathCondition q.start q.start 0).1 = true ∧ ∀ fuel, q.getPathMatching dirList w fuel = some (true, dirList, w)) ∨
      ∀ fuel, q.getPathMatching dirList w fuel = searchPath optimised q dirList w fuel := by
  unfold getPathMatching
  grind

theorem appendPath_mono {nodes : AStarNodes} {n m : Nat} (hm : n ≤ m) {x y : Int} {found : Option Nat}
    {dirs : List Direction} (h : appendPath nodes n x y found dirList = some dirs) :
    appendPath nodes m x y found dirList = some dirs := by
  induction n generalizing m x y found dirList with
  | zero =>
    cases found with
    | none => cases m <;> exact h
    | some i => cases h
  | succ n ih =>
    obtain ⟨m, rfl⟩ : ∃ k, m = k + 1 := ⟨m - 1, by omega⟩
    cases found with
    | none => exact h
    | some i => exact ih (Nat.le_of_succ_le_succ hm) h

theorem searchPath_mono {n m : Nat} (h : searchPath v q dirList w n = some r) (hm : n ≤ m) :
    searchPath v q dirList w m = some r := by
  unfold searchPath at h ⊢
  simp only [bind_eq_bind, bind_eq_some_iff] at h ⊢
  obtain ⟨nodes, hmake, ⟨success, s⟩, hsearch, h⟩ := h
  refine ⟨nodes, hmake, ⟨success, s⟩, search_mono hsearch hm, ?_⟩
  cases success with
  | false => exact h
  | true =>
    simp only [if_true, bind_eq_some_iff] at h ⊢
    obtain ⟨dirs, hdirs, h⟩ := h
    exact ⟨dirs, appendPath_mono hm hdirs, h⟩

theorem getPathMatching_mono {n m : Nat} (h : q.getPathMatching dirList w n = some r) (hm : n ≤ m) :
    q.getPathMatching dirList w m = some r := by
  rcases q.getPathMatching_cases dirList w with hexit | ⟨-, hexit⟩ | hsearch
  · rw [hexit] at h ⊢
    exact h
  · rw [hexit] at h ⊢
    exact h
  · rw [hsearch] at h ⊢
    exact searchPath_mono h hm

theorem Used.ready (h : Used w) : AStarNodes.Ready w := by
  induction h with
  | new => exact AStarNodes.ready_new
  | @search w dirList fuel r q _ hr ih =>
    rcases q.getPathMatching_cases dirList w with hexit | ⟨-, hexit⟩ | hsearch
    · rw [hexit] at hr
      obtain rfl := Option.some.inj hr
      exact ih
    · rw [hexit] at hr
      obtain rfl := Option.some.inj hr
      exact ih
    · rw [hsearch] at hr
      exact searchPath_ready optimised_valid ih hr

/-- A search ends, and the directions it appends are right. -/
theorem getPathMatching_sound {w : AStarWorkspace} (hw : Used w) (haway : q.AwayFromBorder) (dirList : List Direction) :
    ∃ n r, (∀ fuel ≥ n, q.getPathMatching dirList w fuel = some r) ∧
      (r.1 = true → ∃ dirs, r.2.1 = dirList ++ dirs ∧ PathOk q dirs.reverse) ∧ (r.1 = false → r.2.1 = dirList) := by
  rcases q.getPathMatching_cases dirList w with hexit | ⟨hcond, hexit⟩ | hsearch
  · exact ⟨0, _, fun fuel _ => hexit fuel, (fun h => nomatch h), fun _ => rfl⟩
  · refine ⟨0, _, fun fuel _ => hexit fuel, fun _ => ⟨[], (append_nil _).symm, ?_⟩, (fun h => nomatch h)⟩
    exact ⟨nodup_singleton _, (fun p hp => nomatch hp), (fun _ p hp => nomatch hp), hcond⟩
  · obtain ⟨n, r, hr, hright⟩ := searchPath_spec optimised_valid hw.ready haway dirList
    exact ⟨n, r, fun fuel hfuel => (hsearch fuel).trans (hr fuel hfuel), hright⟩

def corridorTiles (p : Position) : Option Tile :=
  if p.y = 1000 ∧ p.z = 7 ∧ 1000 ≤ p.x ∧ p.x ≤ 1002 then some { tilePos := p, id := 0 } else none

theorem corridorTiles_pos {t : Tile} (h : corridorTiles p = some t) :
    t.tilePos = p ∧ p.y = 1000 ∧ p.z = 7 ∧ 1000 ≤ p.x ∧ p.x ≤ 1002 := by
  unfold corridorTiles at h
  split at h
  · next hin =>
    obtain rfl := Option.some.inj h
    exact ⟨rfl, hin⟩
  · cases h

def corridor : PathQuery where
  map := .ofTiles corridorTiles fun _ _ h => (corridorTiles_pos h).1
  creature :=
    { position := ⟨1000, 1000, 7⟩
      tile := corridorTiles ⟨1000, 1000, 7⟩
      queryAdd := fun _ => true
      GetTileWalkCost := fun _ => 0
      tile_pos := fun _ h => (corridorTiles_pos h).1 }
  targetPos := ⟨1002, 1000, 7⟩
  fpp := { maxTargetDist := 0 }

theorem corridor_inner : Inner corridor.start ∧ ∀ p t, corridor.map.getTile p = some t → Inner p := by
  refine ⟨⟨by decide, by decide, by decide, by decide⟩, fun p t h => ?_⟩
  obtain ⟨-, hy, -, hx0, hx1⟩ := corridorTiles_pos (Map.getTile_ofTiles (fun _ _ h => (corridorTiles_pos h).1) h)
  have hx0 : 1000 ≤ p.x.toNat := hx0
  have hx1 : p.x.toNat ≤ 1002 := hx1
  rw [Inner, hy]
  exact ⟨by omega, by omega, by decide, by decide⟩

theorem corridor_found : ∃ n r, (∀ fuel ≥ n, corridor.getPathMatching [] {} fuel = some r) ∧ r.1 = true ∧
    r.2.1 = [.DIRECTION_EAST, .DIRECTION_EAST] ∧ ∃ dirs, r.2.1 = [] ++ dirs ∧ PathOk corridor dirs.reverse := by
  obtain ⟨n, r, hr, hright, -⟩ :=
    getPathMatching_sound Used.new (awayFromBorder_of_inner corridor_inner.1 corridor_inner.2) []
  have hrun : (corridor.getPathMatching [] {} 10).map (fun r => (r.1, r.2.1)) =
      some (true, [.DIRECTION_EAST, .DIRECTION_EAST]) := by decide +kernel
  obtain ⟨r', hr', heq⟩ := map_eq_some_iff.mp hrun
  obtain rfl : r = r' :=
    Option.some.inj ((hr _ (le_max_left n 10)).symm.trans (getPathMatching_mono hr' (le_max_right n 10)))
  have htrue : r.1 = true := congrArg Prod.fst heq
  exact ⟨n, r, hr, htrue, congrArg Prod.snd heq, hright htrue⟩

end PathQuery

end Backlands.World
