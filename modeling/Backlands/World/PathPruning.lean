/-
  Backlands.World.PathPruning — the search for a way against the plain one (src/map.cpp).

  When a node is expanded, its orthogonal neighbours get nodes that cost at most the way over
  it. What the pruning leaves out of the expansion of a child are such squares, and nodes only
  get cheaper; so trying them would change nothing. That needs expansions that come to their
  end: once the nodes are used up, a search that has a match goes on without.

  Proved: `getPathMatching_eq_plain`, where no step crosses the border of the coordinates and
  no expansion is cut short, the search has the answer and the directions of the plain one;
  `prunedSearch_differs`, it may find no way where a step crosses the border.
-/

import Backlands.World.PathSound

namespace Backlands.World

open Backlands.Lib List Option

/-! ## The last leaf -/

def PathSearch.bare (s : PathSearch) : PathSearch := { s with leaf := {} }

namespace PathQuery

def Tried.bare : Tried → Tried
  | .next s => .next s.bare
  | .full s => .full s.bare

def Turn.bare : Turn → Turn
  | .again s => .again s.bare
  | .done s => .done s.bare
  | .failed s => .failed s.bare

variable {v : Variant} {q : PathQuery} {s : PathSearch} {opened : Set Nat}

variable {nodeIdx : Nat} {node : AStarNode} {ds : List (Int × Int)}

theorem tryNeighbor_bare (hv : v.Valid) (hleaf : s.leaf.Valid q.map) (nodeIdx : Nat) (node : AStarNode) (d : Int × Int) :
    tryNeighbor plain q nodeIdx node d s.bare = (tryNeighbor v q nodeIdx node d s).map Tried.bare := by
  unfold tryNeighbor
  dsimp only
  split
  · rfl
  show Option.bind (s.nodes.GetNodeByPosition _ _) _ = Option.map _ (Option.bind (s.nodes.GetNodeByPosition _ _) _)
  cases s.nodes.GetNodeByPosition _ _ with
  | none => rfl
  | some found =>
    simp only [bind_some, (hv.getTile hleaf _).1]
    dsimp only [plain]
    cases if found.isSome then q.map.getTile ((q.squareOf node).shift d) else
        canWalkToForPath q.creature (q.map.getTile ((q.squareOf node).shift d)) with
    | none => rfl
    | some tile =>
      cases found with
      | some i =>
        rw [apply_ite (Option.map Tried.bare)]
        rfl
      | none =>
        show Option.bind (s.nodes.CreateOpenNode _ _ _ _ _) _ = Option.map _ (Option.bind (s.nodes.CreateOpenNode _ _ _ _ _) _)
        cases s.nodes.CreateOpenNode _ _ _ _ _ with
        | none => rfl
        | some created =>
          simp only [bind_some, map_some]
          cases created.2 <;> rfl

theorem expand_bare (hv : v.Valid) (h : Sound q s opened) (hat : At s opened nodeIdx node) (hds : ds ⊆ allNeighbors) :
    expand plain q nodeIdx node ds s.bare = (expand v q nodeIdx node ds s).map Tried.bare := by
  induction ds generalizing s opened with
  | nil => rfl
  | cons d ds ih =>
    obtain ⟨hd, hds⟩ := cons_subset.mp hds
    unfold expand
    rw [tryNeighbor_bare hv h.leaf]
    obtain ⟨s', opened', hnext | hfull, hturn⟩ := tryNeighbor_spec hv h hat hd
    · rw [hnext]
      exact ih hturn.sound (hat.expanded hturn) hds
    · rw [hfull]
      rfl

/-! ## What a pruned neighbour is -/

theorem Position.shift_shift (p : Position) (d e : Int × Int) : (p.shift d).shift e = p.shift (d + e) := by
  simp only [Position.shift, Prod.fst_add, Prod.snd_add, BitVec.ofInt_add, BitVec.add_assoc]

theorem Position.shift_zero (p : Position) : p.shift 0 = p := by
  show Position.mk (p.x + 0#16) (p.y + 0#16) p.z = p
  rw [BitVec.add_zero, BitVec.add_zero]

def orthogonal : List (Int × Int) := allNeighbors.take 4

variable {d : Int × Int}

theorem walkCost_orthogonal (hd : d ∈ orthogonal) : walkCost d = MAP_NORMALWALKCOST := by
  revert d
  decide

/-- The neighbours that a node tries, when its parent is at the offset `e` back. -/
def prunedBy (allowDiagonal : Bool) (e : Int × Int) : List (Int × Int) :=
  (dirNeighbors (parentDirection allowDiagonal (-e.1) (-e.2))).take (if allowDiagonal then 5 else 3)

variable {e : Int × Int}

theorem prunedBy_eq_filter (allowDiagonal : Bool) (he : e ∈ allNeighbors) :
    prunedBy allowDiagonal e =
      (allNeighbors.take (if allowDiagonal then 8 else 4)).filter fun d => d ∈ prunedBy allowDiagonal e := by
  revert allowDiagonal
  revert e
  decide

theorem left_out (allowDiagonal : Bool) (he : e ∈ allNeighbors)
    (hd : d ∈ allNeighbors.take (if allowDiagonal then 8 else 4)) (hnot : d ∉ prunedBy allowDiagonal e) :
    e + d = 0 ∨ e + d ∈ orthogonal := by
  have hall : ∀ allowDiagonal, ∀ e ∈ allNeighbors, ∀ d ∈ allNeighbors.take (if allowDiagonal then 8 else 4),
      d ∉ prunedBy allowDiagonal e → e + d = 0 ∨ e + d ∈ orthogonal := by decide
  exact hall allowDiagonal e he d hd hnot

/-! ## What an expansion leaves -/

/-- The squares next to one are covered from the cost `g` there. -/
def Around (q : PathQuery) (nodes : AStarNodes) (p : Position) (g : Nat) : Prop :=
  ∀ d ∈ orthogonal, Covered q nodes (p.shift d) (g + MAP_NORMALWALKCOST)

/-- The node was set when its parent cost `g`, and the parent has been expanded at that cost. -/
structure Settled (q : PathQuery) (nodes : AStarNodes) (i parent g : Nat) : Prop where
  link : (nodes.GetNode i).parent = some parent
  child : Child q nodes parent i g
  around : Around q nodes (q.squareOf (nodes.GetNode parent)) g

/-- Between turns every node but the first is settled. -/
def AllSettled (q : PathQuery) (nodes : AStarNodes) : Prop :=
  ∀ i, 0 < i → i < nodes.current_node → ∃ parent g, Settled q nodes i parent g

/-- During the expansion of `nodeIdx` the others are. -/
def SettledBut (q : PathQuery) (nodeIdx : Nat) (node : AStarNode) (nodes : AStarNodes) : Prop :=
  ∀ i, 0 < i → i < nodes.current_node → (∃ parent g, Settled q nodes i parent g) ∨
    ((nodes.GetNode i).parent = some nodeIdx ∧ Child q nodes nodeIdx i node.g_score)

variable {nodes : AStarNodes} {p : Position} {s' : PathSearch}

theorem Covered.mono {g g' : Nat} (h : Covered q nodes p g) (hle : g ≤ g') : Covered q nodes p g' := by
  intro henters
  obtain ⟨j, hj, hsquare, hcost⟩ := h henters
  exact ⟨j, hj, hsquare, by omega⟩

theorem tryNeighbor_covered (h : Sound q s opened)
    (hcovered : Covered q s.nodes ((q.squareOf node).shift d) (node.g_score + walkCost d)) :
    tryNeighbor plain q nodeIdx node d s.bare = some (.next s.bare) := by
  rw [tryNeighbor_bare plain_valid h.leaf]
  obtain ⟨leaf, -, ⟨hnext, -⟩ | ⟨j, nodes', -, henters, hset⟩ | ⟨-, henters, hnone, -⟩⟩ :=
    tryNeighbor_cases plain_valid h nodeIdx node d
  · rw [hnext]
    rfl
  · exfalso
    obtain ⟨i, hi, hsquare, hcost⟩ := hcovered henters
    have hxy : (nodes'.GetNode i).x = (nodes'.GetNode j).x ∧ (nodes'.GetNode i).y = (nodes'.GetNode j).y := by
      rw [hset.node, hset.grows.x i hi, hset.grows.y i hi]
      exact ⟨congrArg Position.x hsquare, congrArg Position.y hsquare⟩
    have hij : i = j := hset.inv.node_injective (hi.trans_le hset.grows.current_node) hset.lt hxy.1 hxy.2
    subst hij
    rcases hset.change with ⟨hnew, -⟩ | ⟨-, -, -, -, hless⟩
    · omega
    · dsimp only at hless
      omega
  · obtain ⟨i, hi, hsquare, -⟩ := hcovered henters
    exact absurd hsquare (hnone i hi)

theorem expand_filter (h : Sound q s opened) (hat : At s opened nodeIdx node) (hds : ds ⊆ allNeighbors)
    {keep : Int × Int → Bool}
    (hcovered : ∀ d ∈ ds, keep d = false → Covered q s.nodes ((q.squareOf node).shift d) (node.g_score + walkCost d)) :
    expand plain q nodeIdx node ds s.bare = expand plain q nodeIdx node (ds.filter keep) s.bare := by
  induction ds generalizing s opened with
  | nil => rfl
  | cons d ds ih =>
    obtain ⟨hd, hds⟩ := cons_subset.mp hds
    have hrest : ∀ e ∈ ds, keep e = false → Covered q s.nodes ((q.squareOf node).shift e) (node.g_score + walkCost e) :=
      fun e he => hcovered e (mem_cons_of_mem d he)
    cases hkeep : keep d with
    | false =>
      rw [filter_cons_of_neg (by rw [hkeep]; exact Bool.false_ne_true), expand,
        tryNeighbor_covered h (hcovered d mem_cons_self hkeep)]
      exact ih h hat hds hrest
    | true =>
      rw [filter_cons_of_pos hkeep, expand, expand, tryNeighbor_bare plain_valid h.leaf]
      obtain ⟨s', opened', hnext | hfull, hturn⟩ := tryNeighbor_spec plain_valid h hat hd
      · rw [hnext]
        exact ih hturn.sound (hat.expanded hturn) hds fun e he hdrop => (hrest e he hdrop).grows hturn.grows
      · rw [hfull]
        rfl

theorem Around.grows {nodes' : AStarNodes} {g : Nat} (h : Around q nodes p g) (hgrows : Grows nodes nodes') :
    Around q nodes' p g :=
  fun d hd => (h d hd).grows hgrows

theorem Settled.covered {i parent g : Nat} (h : Settled q s.nodes i parent g)
    (hsquare : q.squareOf (s.nodes.GetNode i) = (q.squareOf (s.nodes.GetNode parent)).shift e)
    (hd : e + d = 0 ∨ e + d ∈ orthogonal) :
    Covered q s.nodes ((q.squareOf (s.nodes.GetNode i)).shift d) ((s.nodes.GetNode i).g_score + walkCost d) := by
  obtain ⟨e', -, -, hcost⟩ := h.child.step
  have hwalk := walkCost_ge e'
  rw [hsquare, Position.shift_shift]
  rcases hd with hzero | horth
  · rw [hzero, Position.shift_zero]
    intro _
    have hcheaper := h.child.g_score_lt
    exact ⟨parent, h.child.lt, rfl, by omega⟩
  · refine (h.around _ horth).mono ?_
    omega

/-- The start has no parent; of a child's neighbours the pruning keeps some, and the others are covered. -/
theorem pruned_covered (h : Sound q s opened) (haway : q.AwayFromBorder) (hsettled : AllSettled q s.nodes) {i : Nat}
    (hi : i < s.nodes.current_node) :
    let parent := (s.nodes.GetNode i).parent.map fun j => s.nodes.GetNode j
    ∃ keep : Int × Int → Bool,
      prunedNeighbors q.fpp.allowDiagonal (s.nodes.GetNode i) parent =
        (allowedNeighbors q.fpp.allowDiagonal (s.nodes.GetNode i) parent).filter keep ∧
      ∀ d ∈ allowedNeighbors q.fpp.allowDiagonal (s.nodes.GetNode i) parent, keep d = false →
        Covered q s.nodes ((q.squareOf (s.nodes.GetNode i)).shift d) ((s.nodes.GetNode i).g_score + walkCost d) := by
  intro parent
  rcases Nat.eq_zero_or_pos i with rfl | hpos
  · have hnone : parent = none := by
      show (s.nodes.GetNode 0).parent.map _ = none
      rw [h.start]
      rfl
    refine ⟨fun _ => true, ?_, fun d _ hdrop => nomatch hdrop⟩
    rw [hnone, filter_true]
    rfl
  · obtain ⟨parentIdx, g, hset⟩ := hsettled i hpos hi
    obtain ⟨e, he, hsquare, -⟩ := hset.child.step
    obtain ⟨_, _, -, -, -, henters⟩ := h.child i hpos hi
    obtain ⟨hx, hy⟩ := h.offset haway hset.child.lt he hsquare henters
    have hsome : parent = some (s.nodes.GetNode parentIdx) := by
      show (s.nodes.GetNode i).parent.map _ = _
      rw [hset.link]
      rfl
    have hpruned : prunedNeighbors q.fpp.allowDiagonal (s.nodes.GetNode i) (some (s.nodes.GetNode parentIdx)) =
        prunedBy q.fpp.allowDiagonal e := by
      rw [prunedNeighbors, hx, hy]
      rfl
    rw [hsome, hpruned]
    refine ⟨fun d => d ∈ prunedBy q.fpp.allowDiagonal e, prunedBy_eq_filter q.fpp.allowDiagonal he, fun d hd hdrop => ?_⟩
    exact hset.covered hsquare (left_out q.fpp.allowDiagonal he hd (by simpa using hdrop))

/-- An expansion that comes to its end covers what it tries, and its node's children are the only ones not settled. -/
theorem expand_settles (hv : v.Valid) (h : Sound q s opened) (hat : At s opened nodeIdx node)
    (hds : ds ⊆ allNeighbors) (hsettled : SettledBut q nodeIdx node s.nodes)
    (hnext : expand v q nodeIdx node ds s = some (.next s')) :
    SettledBut q nodeIdx node s'.nodes ∧ Grows s.nodes s'.nodes ∧
      ∀ d ∈ ds, Covered q s'.nodes ((q.squareOf node).shift d) (node.g_score + walkCost d) := by
  induction ds generalizing s opened with
  | nil =>
    obtain rfl : s = s' := by
      injection hnext with hnext
      injection hnext
    exact ⟨hsettled, .refl _, fun d hd => nomatch hd⟩
  | cons d ds ih =>
    obtain ⟨hd, hds⟩ := cons_subset.mp hds
    rw [expand] at hnext
    obtain ⟨leaf, hleaf, ⟨htry, hcovered⟩ | ⟨j, nodes', htry, henters, hset⟩ | ⟨htry, -⟩⟩ :=
      tryNeighbor_cases hv h nodeIdx node d
    · rw [htry] at hnext
      obtain ⟨hsettled', hgrows, hrest⟩ := ih (h.withLeaf hleaf) (hat.expanded (h.expanded nodeIdx hleaf)) hds hsettled hnext
      refine ⟨hsettled', hgrows, fun e he => ?_⟩
      rcases mem_cons.mp he with rfl | he
      · exact hcovered.grows hgrows
      · exact hrest e he
    · rw [htry] at hnext
      have hlt := h.inv.items_lt nodeIdx hat.mem
      have hchild := hat.child hlt hd hset
      have hsettled' : SettledBut q nodeIdx node nodes' := by
        intro i hi hlti
        by_cases hij : i = j
        · subst hij
          exact .inr ⟨by rw [hset.node], hchild⟩
        have hsame := hset.others i hij
        rcases hsettled i hi ((hset.cases hlti).resolve_left hij) with ⟨parent, g, hold⟩ | ⟨hlink, hold⟩
        · refine .inl ⟨parent, g, hsame ▸ hold.link, hold.child.grows hset.grows hsame, ?_⟩
          rw [hset.grows.squareOf_eq hold.child.lt]
          exact hold.around.grows hset.grows
        · exact .inr ⟨hsame ▸ hlink, hold.grows hset.grows hsame⟩
      obtain ⟨hsound, hne⟩ := h.set hat hd henters rfl hset hleaf
      obtain ⟨hlast, hgrows, hrest⟩ := ih hsound
        ⟨Set.mem_insert_of_mem j hat.mem, by rw [hset.others nodeIdx hne.symm, hat.x], by rw [hset.others nodeIdx hne.symm, hat.y],
          by rw [hset.others nodeIdx hne.symm, hat.g_score]⟩ hds hsettled' hnext
      refine ⟨hlast, hset.grows.trans hgrows, fun e he => ?_⟩
      rcases mem_cons.mp he with rfl | he
      · refine Covered.grows (fun _ => ⟨j, hset.lt, ?_, ?_⟩) hgrows
        · rw [hset.node]
          rfl
        · rw [hset.node]
      · exact hrest e he
    · rw [htry] at hnext
      cases hnext

/-! ## A turn -/

def neighborsOf (v : Variant) (q : PathQuery) (nodes : AStarNodes) (i : Nat) : List (Int × Int) :=
  v.neighbors q.fpp.allowDiagonal (nodes.GetNode i) ((nodes.GetNode i).parent.map fun j => nodes.GetNode j)

theorem neighborsOf_subset (hv : v.Valid) (nodes : AStarNodes) (i : Nat) : neighborsOf v q nodes i ⊆ allNeighbors :=
  hv.neighbors _ _ _

theorem orthogonal_allowed (nodes : AStarNodes) (i : Nat) : orthogonal ⊆ neighborsOf plain q nodes i := by
  unfold neighborsOf
  cases (nodes.GetNode i).parent with
  | none => exact take_subset 4 allNeighbors
  | some parent =>
    show allNeighbors.take 4 ⊆ allNeighbors.take (if q.fpp.allowDiagonal then 8 else 4)
    cases q.fpp.allowDiagonal <;> decide

theorem expand_plain (h : Sound q s opened) (haway : q.AwayFromBorder) (hsettled : AllSettled q s.nodes)
    (hmem : nodeIdx ∈ opened) :
    expand plain q nodeIdx (s.nodes.GetNode nodeIdx) (neighborsOf plain q s.nodes nodeIdx) s.bare =
      (expand optimised q nodeIdx (s.nodes.GetNode nodeIdx) (neighborsOf optimised q s.nodes nodeIdx) s).map Tried.bare := by
  obtain ⟨keep, hkeep, hcovered⟩ := pruned_covered h haway hsettled (h.inv.items_lt nodeIdx hmem)
  have hat : At s opened nodeIdx (s.nodes.GetNode nodeIdx) := ⟨hmem, rfl, rfl, rfl⟩
  have hpruned : neighborsOf optimised q s.nodes nodeIdx = (neighborsOf plain q s.nodes nodeIdx).filter keep := hkeep
  rw [← expand_bare optimised_valid h hat (neighborsOf_subset optimised_valid _ _), hpruned]
  exact expand_filter h hat (neighborsOf_subset plain_valid _ _) hcovered

theorem expand_allSettled (h : Sound q s opened) (haway : q.AwayFromBorder) (hsettled : AllSettled q s.nodes)
    (hmem : nodeIdx ∈ opened)
    (hnext : expand optimised q nodeIdx (s.nodes.GetNode nodeIdx) (neighborsOf optimised q s.nodes nodeIdx) s = some (.next s')) :
    AllSettled q s'.nodes := by
  have hlt := h.inv.items_lt nodeIdx hmem
  obtain ⟨keep, hkeep, hcovered⟩ := pruned_covered h haway hsettled hlt
  have hat : At s opened nodeIdx (s.nodes.GetNode nodeIdx) := ⟨hmem, rfl, rfl, rfl⟩
  obtain ⟨hbut, hgrows, hdone⟩ := expand_settles optimised_valid h hat
    (neighborsOf_subset optimised_valid _ _) (fun i hi hlti => .inl (hsettled i hi hlti)) hnext
  intro i hi hlti
  rcases hbut i hi hlti with hset | ⟨hlink, hchild⟩
  · exact hset
  refine ⟨nodeIdx, (s.nodes.GetNode nodeIdx).g_score, hlink, hchild, fun d hd => ?_⟩
  rw [hgrows.squareOf_eq hlt, ← walkCost_orthogonal hd]
  have hallowed := orthogonal_allowed (q := q) s.nodes nodeIdx hd
  cases hd : keep d with
  | false => exact (hcovered d hallowed hd).grows hgrows
  | true =>
    refine hdone d ?_
    show d ∈ prunedNeighbors _ _ _
    rw [hkeep]
    exact mem_filter.mpr ⟨hallowed, hd⟩

theorem look_bare (nodeIdx : Nat) : q.look nodeIdx s.bare = ((q.look nodeIdx s).1, (q.look nodeIdx s).2.bare) := by
  unfold look
  dsimp only
  rw [apply_ite PathSearch.bare]
  rfl

theorem look_nodes (nodeIdx : Nat) (s : PathSearch) : (q.look nodeIdx s).2.nodes = s.nodes := by
  unfold look
  dsimp only
  split
  · rfl
  · rfl

theorem At.look (hmem : nodeIdx ∈ opened) : At (q.look nodeIdx s).2 opened nodeIdx (s.nodes.GetNode nodeIdx) := by
  have hnodes := look_nodes (q := q) nodeIdx s
  exact ⟨hmem, by rw [hnodes], by rw [hnodes], by rw [hnodes]⟩

/-- What follows the inner loop. -/
def closing (nodeIdx : Nat) : Tried → Turn
  | .next s => .again { s with nodes := s.nodes.CloseNode nodeIdx }
  | .full s => if s.found.isSome then .again { s with nodes := s.nodes.CloseNode nodeIdx } else .failed s

theorem closing_bare (nodeIdx : Nat) (tried : Tried) : closing nodeIdx tried.bare = (closing nodeIdx tried).bare := by
  cases tried with
  | next s => rfl
  | full s =>
    show _ = Turn.bare (if s.found.isSome then _ else _)
    rw [apply_ite Turn.bare]
    rfl

def Expands (q : PathQuery) (s : PathSearch) (nodeIdx : Nat) : Prop :=
  (q.fpp.maxSearchDist ≠ 0 ∨ s.nodes.closed_nodes < 100) ∧ s.nodes.GetBestNode = some nodeIdx ∧
    ¬((q.look nodeIdx s).1 = true ∧ (q.look nodeIdx s).2.best_match = 0)

theorem Expands.mem (h : Sound q s opened) (hexpands : Expands q s nodeIdx) : nodeIdx ∈ opened := by
  obtain ⟨-, hbest, -⟩ := hexpands
  rcases AStarNodes.getBestNode_spec h.inv with ⟨hnone, -⟩ | ⟨i, hi, hsome⟩
  · rw [hnone] at hbest
    cases hbest
  · rw [hsome] at hbest
    exact Option.some.inj hbest ▸ hi

theorem turn_expand (h : Expands q s nodeIdx) :
    turn v q s = (expand v q nodeIdx (s.nodes.GetNode nodeIdx) (neighborsOf v q s.nodes nodeIdx) (q.look nodeIdx s).2).map
      (closing nodeIdx) := by
  obtain ⟨hgo, hbest, hmatch⟩ := h
  unfold turn neighborsOf
  rw [if_neg (not_not.mpr hgo), hbest]
  dsimp only
  rw [if_neg hmatch, look_nodes]
  cases expand v q nodeIdx _ _ (q.look nodeIdx s).2 with
  | none => rfl
  | some tried =>
    cases tried with
    | next s' => rfl
    | full s' => rfl

theorem turn_of_not_expands (h : ∀ nodeIdx, ¬Expands q s nodeIdx) :
    turn plain q s.bare = (turn v q s).map Turn.bare ∧ ∀ s', turn v q s ≠ some (.again s') := by
  unfold turn
  rw [show s.bare.nodes = s.nodes from rfl]
  by_cases hgo : q.fpp.maxSearchDist ≠ 0 ∨ s.nodes.closed_nodes < 100
  · rw [if_neg (not_not.mpr hgo), if_neg (not_not.mpr hgo)]
    cases hbest : s.nodes.GetBestNode with
    | none =>
      show some (if s.found.isSome then _ else _) = _ ∧ _
      cases s.found.isSome with
      | false => exact ⟨rfl, fun s' h => nomatch h⟩
      | true => exact ⟨rfl, fun s' h => nomatch h⟩
    | some nodeIdx =>
      have hmatch : (q.look nodeIdx s).1 = true ∧ (q.look nodeIdx s).2.best_match = 0 :=
        not_not.mp fun hmatch => h nodeIdx ⟨hgo, hbest, hmatch⟩
      dsimp only
      rw [look_bare, if_pos hmatch, if_pos (show _ ∧ (q.look nodeIdx s).2.bare.best_match = 0 from hmatch)]
      exact ⟨rfl, fun s' h => nomatch h⟩
  · rw [if_pos hgo, if_pos hgo]
    exact ⟨rfl, fun s' h => nomatch h⟩

/-- The nodes are used up in the turn from `s`, and the search goes on with the match it has. -/
def CutShort (q : PathQuery) (s : PathSearch) : Prop :=
  ∃ nodeIdx s', Expands q s nodeIdx ∧ s'.found.isSome = true ∧
    expand optimised q nodeIdx (s.nodes.GetNode nodeIdx) (neighborsOf optimised q s.nodes nodeIdx) (q.look nodeIdx s).2 =
      some (.full s')

theorem turn_plain (h : Sound q s opened) (haway : q.AwayFromBorder) (hsettled : AllSettled q s.nodes) :
    turn plain q s.bare = (turn optimised q s).map Turn.bare := by
  by_cases hexpands : ∃ nodeIdx, Expands q s nodeIdx
  · obtain ⟨nodeIdx, hexpands⟩ := hexpands
    obtain ⟨hgo, hbest, hmatch⟩ := id hexpands
    have hexpands' : Expands q s.bare nodeIdx := by
      refine ⟨hgo, hbest, ?_⟩
      rw [look_bare]
      exact hmatch
    have hmem := hexpands.mem h
    obtain ⟨hlook, hnodes⟩ := h.look (h.inv.items_lt nodeIdx hmem)
    have hexpand := expand_plain hlook haway (hnodes ▸ hsettled) hmem
    rw [hnodes] at hexpand
    rw [turn_expand hexpands, turn_expand hexpands', look_bare]
    show Option.map _ (expand plain q nodeIdx (s.nodes.GetNode nodeIdx) (neighborsOf plain q s.nodes nodeIdx) (q.look nodeIdx s).2.bare) = _
    rw [hexpand, Option.map_map, Option.map_map]
    exact congrArg (fun f => Option.map f _) (funext fun tried => closing_bare nodeIdx tried)
  · exact (turn_of_not_expands fun nodeIdx h => hexpands ⟨nodeIdx, h⟩).1

theorem AllSettled.of_get {nodes' : AStarNodes} (hget : ∀ i, nodes'.GetNode i = nodes.GetNode i)
    (hcurrent : nodes'.current_node = nodes.current_node) (h : AllSettled q nodes) : AllSettled q nodes' := by
  have hgrows : Grows nodes nodes' :=
    ⟨hcurrent.ge, fun i _ => by rw [hget], fun i _ => by rw [hget], fun i _ => by rw [hget]⟩
  intro i hi hlt
  obtain ⟨parent, g, hset⟩ := h i hi (hcurrent ▸ hlt)
  refine ⟨parent, g, (hget i).symm ▸ hset.link, hset.child.grows hgrows (hget i), ?_⟩
  rw [hget]
  exact hset.around.grows hgrows

theorem turn_allSettled (h : Sound q s opened) (haway : q.AwayFromBorder) (hsettled : AllSettled q s.nodes)
    (hcut : ¬CutShort q s) (hturn : turn optimised q s = some (.again s')) : AllSettled q s'.nodes := by
  by_cases hexpands : ∃ nodeIdx, Expands q s nodeIdx
  · obtain ⟨nodeIdx, hexpands⟩ := hexpands
    have hmem := hexpands.mem h
    obtain ⟨hlook, hnodes⟩ := h.look (h.inv.items_lt nodeIdx hmem)
    rw [turn_expand hexpands] at hturn
    obtain ⟨s₁, opened', hnext | hfull, hexpanded⟩ := expand_spec optimised_valid hlook (At.look hmem)
      (neighborsOf_subset optimised_valid s.nodes nodeIdx)
    · rw [hnext] at hturn
      obtain rfl := Turn.again.inj (Option.some.inj hturn)
      obtain ⟨-, hget, hcurrent, -⟩ := hexpanded.sound.close (hexpanded.opened hmem)
      refine AllSettled.of_get hget hcurrent (expand_allSettled hlook haway (hnodes ▸ hsettled) hmem ?_)
      rw [hnodes]
      exact hnext
    · rw [hfull] at hturn
      cases hfound : s₁.found.isSome with
      | false =>
        rw [map_some, closing, if_neg (by rw [hfound]; exact Bool.false_ne_true)] at hturn
        cases hturn
      | true => exact absurd ⟨nodeIdx, s₁, hexpands, hfound, hfull⟩ hcut
  · exact absurd hturn ((turn_of_not_expands fun nodeIdx h => hexpands ⟨nodeIdx, h⟩).2 s')

/-! ## The searches -/

/-- No turn of the search on the workspace `w` is cut short. -/
def Uncut (q : PathQuery) (w : AStarWorkspace) : Prop :=
  ∀ nodes, AStarNodes.make q.start.x q.start.y w = some nodes →
    ∀ s, Relation.ReflTransGen (fun s s' => turn optimised q s = some (.again s')) { nodes := nodes } s → ¬CutShort q s

variable {w : AStarWorkspace}

theorem search_plain (h : Sound q s opened) (haway : q.AwayFromBorder) (hsettled : AllSettled q s.nodes)
    (huncut : ∀ s', Relation.ReflTransGen (fun s s' => turn optimised q s = some (.again s')) s s' → ¬CutShort q s') (n : Nat) :
    search plain q n s.bare = (search optimised q n s).map fun r => (r.1, r.2.bare) := by
  induction n generalizing s opened with
  | zero => rfl
  | succ n ih =>
    rw [search, search, turn_plain h haway hsettled]
    obtain ⟨s', opened', hsound, ⟨hagain, -⟩ | hdone | hfailed⟩ := turn_spec optimised_valid h
    · have hsettled' := turn_allSettled h haway hsettled (huncut s .refl) hagain
      rw [hagain]
      exact ih hsound hsettled' fun s'' hs => huncut s'' (.head hagain hs)
    · rw [hdone]
      rfl
    · rw [hfailed]
      rfl

theorem searchPath_plain (hw : AStarNodes.Ready w) (haway : q.AwayFromBorder) (huncut : q.Uncut w)
    (dirList : List Direction) (fuel : Nat) : plainSearch q dirList w fuel = searchPath optimised q dirList w fuel := by
  obtain ⟨nodes, hmake, hsound, hcurrent⟩ := sound_start hw (q := q)
  have hsettled : AllSettled q nodes := by
    intro i hi hlt
    omega
  have hsearch : search plain q fuel { nodes := nodes } =
      (search optimised q fuel { nodes := nodes }).map fun r => (r.1, r.2.bare) :=
    search_plain hsound haway hsettled (huncut nodes hmake) fuel
  unfold plainSearch searchPath
  rw [hmake]
  simp only [bind_eq_bind, bind_some]
  rw [hsearch]
  cases search optimised q fuel { nodes := nodes } with
  | none => rfl
  | some r =>
    obtain ⟨success, s⟩ := r
    cases success with
    | false => rfl
    | true => rfl

/-! ## Searches that are not cut short -/

theorem expand_full (hv : v.Valid) (h : Sound q s opened) (hat : At s opened nodeIdx node) (hds : ds ⊆ allNeighbors)
    (hfull : expand v q nodeIdx node ds s = some (.full s')) :
    MAX_NODES ≤ s'.nodes.current_node ∧ ∃ opened', Sound q s' opened' := by
  induction ds generalizing s opened with
  | nil =>
    cases hfull
  | cons d ds ih =>
    obtain ⟨hd, hds⟩ := cons_subset.mp hds
    rw [expand] at hfull
    obtain ⟨leaf, hleaf, ⟨htry, -⟩ | ⟨j, nodes', htry, henters, hset⟩ | ⟨htry, -, -, hmax⟩⟩ := tryNeighbor_cases hv h nodeIdx node d
    · rw [htry] at hfull
      exact ih (h.withLeaf hleaf) (hat.expanded (h.expanded nodeIdx hleaf)) hds hfull
    · rw [htry] at hfull
      obtain ⟨hsound, hne⟩ := h.set hat hd henters rfl hset hleaf
      refine ih hsound ⟨Set.mem_insert_of_mem j hat.mem, ?_, ?_, ?_⟩ hds hfull
      · rw [hset.others nodeIdx hne.symm, hat.x]
      · rw [hset.others nodeIdx hne.symm, hat.y]
      · rw [hset.others nodeIdx hne.symm, hat.g_score]
    · rw [htry] at hfull
      obtain rfl := Tried.full.inj (Option.some.inj hfull)
      exact ⟨hmax, opened, h.withLeaf hleaf⟩

theorem nodes_le_squares (h : Sound q s opened) {squares : Finset Position}
    (hsquares : ∀ p, p = q.start ∨ q.Enters p → p ∈ squares) : s.nodes.current_node ≤ squares.card := by
  rw [← Finset.card_range s.nodes.current_node]
  refine Finset.card_le_card_of_injOn (fun i => q.squareOf (s.nodes.GetNode i)) (fun i hi => ?_) fun i hi j hj => ?_
  · refine hsquares _ ?_
    rcases Nat.eq_zero_or_pos i with rfl | hpos
    · left
      show q.squareOf (s.nodes.GetNode 0) = q.start
      rw [h.start]
      rfl
    · obtain ⟨_, _, -, -, -, henters⟩ := h.child i hpos (Finset.mem_range.mp hi)
      exact .inr henters
  · exact h.squareOf_injective (Finset.mem_range.mp hi) (Finset.mem_range.mp hj)

theorem uncut_of_squares (hw : AStarNodes.Ready w) {squares : Finset Position}
    (hsquares : ∀ p, p = q.start ∨ q.Enters p → p ∈ squares) (hcard : squares.card < MAX_NODES) : q.Uncut w := by
  obtain ⟨nodes, hmake, hsound, -⟩ := sound_start hw (q := q)
  intro nodes' hmake' s hreach hcut
  obtain rfl : nodes = nodes' := Option.some.inj (hmake.symm.trans hmake')
  have hs : ∃ opened, Sound q s opened := by
    clear hcut
    induction hreach with
    | refl => exact ⟨_, hsound⟩
    | tail _ hturn ih =>
      obtain ⟨opened, hs⟩ := ih
      obtain ⟨s', opened', hsound', ⟨hagain, -⟩ | hdone | hfailed⟩ := turn_spec optimised_valid hs
      · rw [hagain] at hturn
        obtain rfl := Turn.again.inj (Option.some.inj hturn)
        exact ⟨opened', hsound'⟩
      · rw [hdone] at hturn
        cases hturn
      · rw [hfailed] at hturn
        cases hturn
  obtain ⟨opened, hs⟩ := hs
  obtain ⟨nodeIdx, s', hexpands, -, hfull⟩ := hcut
  have hmem := hexpands.mem hs
  obtain ⟨hlook, -⟩ := hs.look (hs.inv.items_lt nodeIdx hmem)
  obtain ⟨hmax, opened', hsound'⟩ :=
    expand_full optimised_valid hlook (At.look hmem) (neighborsOf_subset optimised_valid s.nodes nodeIdx) hfull
  have hle := nodes_le_squares hsound' hsquares
  omega

/-! ## The early exits -/

theorem getNextPosition_z (d : Direction) (p : Position) : (getNextPosition d p).z = p.z := by
  cases d <;> rfl

theorem visited_z {p' : Position} {dirs : List Direction} (h : p' ∈ p :: visited p dirs) : p'.z = p.z := by
  induction dirs generalizing p with
  | nil =>
    rw [mem_singleton.mp h]
  | cons d dirs ih =>
    rcases mem_cons.mp h with rfl | h
    · rfl
    · exact (ih h).trans (getNextPosition_z d p)

theorem pathCondition_floor (hsight : q.fpp.clearSight = true) (hz : q.start.z ≠ q.targetPos.z) (hp : p.z = q.start.z)
    (best : Int) : (q.pathCondition q.start p best).1 = false := by
  have hclear : q.map.isSightClear p q.targetPos true = false := by
    unfold Map.isSightClear
    rw [if_neg (fun h => hz (hp ▸ h)), if_pos rfl]
  simp [pathCondition, hsight, hclear]

theorem pathCondition_far (hfar : q.testDist p > q.fpp.maxTargetDist) (best : Int) :
    (q.pathCondition q.start p best).1 = false := by
  unfold pathCondition
  grind

theorem testDist_far (hreach : max (Map.getDistanceX q.start q.targetPos) (Map.getDistanceY q.start q.targetPos) >
      q.fpp.maxSearchDist + q.fpp.maxTargetDist)
    (hx : (((p.x.toNat : Int) - q.start.x.toNat).natAbs : Int) ≤ q.fpp.maxSearchDist)
    (hy : (((p.y.toNat : Int) - q.start.y.toNat).natAbs : Int) ≤ q.fpp.maxSearchDist) :
    q.testDist p > q.fpp.maxTargetDist := by
  unfold testDist Map.getDistanceX Map.getDistanceY at *
  omega

theorem searchPath_fails (hv : v.Valid) (hw : AStarNodes.Ready w) (haway : q.AwayFromBorder)
    (hnone : ∀ p : Position, p.z = q.start.z → (q.fpp.maxSearchDist > 0 →
      (((p.x.toNat : Int) - q.start.x.toNat).natAbs : Int) ≤ q.fpp.maxSearchDist ∧
        (((p.y.toNat : Int) - q.start.y.toNat).natAbs : Int) ≤ q.fpp.maxSearchDist) → (q.pathCondition q.start p 0).1 = false)
    (dirList : List Direction) :
    ∃ n r, (∀ m ≥ n, searchPath v q dirList w m = some r) ∧ r.1 = false ∧ r.2.1 = dirList := by
  obtain ⟨n, ⟨success, dirs, w'⟩, hr, hright, hwrong⟩ := searchPath_spec hv hw haway dirList
  cases success with
  | false => exact ⟨n, _, hr, rfl, hwrong rfl⟩
  | true =>
    obtain ⟨dirs, -, hok⟩ := hright rfl
    have hlast : (visited q.start dirs.reverse).getLastD q.start ∈ q.start :: visited q.start dirs.reverse :=
      getLastD_mem_cons
    have hcond := hnone _ (visited_z hlast) fun hdist => by
      rcases mem_cons.mp hlast with heq | hmem
      · rw [heq]
        simpa using hdist.le
      · exact hok.near (ne_of_gt hdist) _ hmem
    rw [hok.target] at hcond
    cases hcond

theorem make_counts {x y : BitVec 16} (h : AStarNodes.make x y w = some nodes) :
    nodes.closed_nodes = 0 ∧ nodes.heap_size = 1 := by
  obtain ⟨slot, -, rfl⟩ := map_eq_some_iff.mp h
  exact ⟨rfl, rfl⟩

theorem searchPath_start (hw : AStarNodes.Ready w) (hmatch : (q.pathCondition q.start q.start 0).1 = true)
    (hbest : (q.pathCondition q.start q.start 0).2 = 0) (dirList : List Direction) :
    ∃ n r, (∀ m ≥ n, searchPath v q dirList w m = some r) ∧ r.1 = true ∧ r.2.1 = dirList := by
  obtain ⟨nodes, hmake, hsound, -⟩ := sound_start hw (q := q)
  obtain ⟨hclosed, hsize⟩ := make_counts hmake
  have hbestNode : nodes.GetBestNode = some 0 := by
    rcases AStarNodes.getBestNode_spec hsound.inv with ⟨-, hempty⟩ | ⟨i, hi, hsome⟩
    · dsimp only at hempty
      omega
    · exact hsome.trans (congrArg some (Set.mem_singleton_iff.mp hi))
  have hsquare : q.squareOf (nodes.GetNode 0) = q.start := by
    rw [hsound.start]
    rfl
  have hlook : q.look 0 { nodes := nodes } = (true, { nodes := nodes, found := some 0, end_position := q.start }) := by
    simp [look, hsquare, hmatch, hbest]
  have hturn : turn v q { nodes := nodes } = some (.done { nodes := nodes, found := some 0, end_position := q.start }) := by
    unfold turn
    rw [if_neg (not_not.mpr (.inr (by rw [hclosed]; decide))), hbestNode]
    dsimp only
    rw [hlook]
    exact if_pos ⟨rfl, rfl⟩
  refine ⟨1, (true, dirList, nodes.release), fun m hm => ?_, rfl, rfl⟩
  obtain ⟨m, rfl⟩ : ∃ k, m = k + 1 := ⟨m - 1, by omega⟩
  have hparent : (nodes.GetNode 0).parent = none := by
    rw [hsound.start]
  unfold searchPath
  rw [hmake]
  simp only [bind_eq_bind, bind_some, search, hturn, isSome_some, if_true, hparent]
  rfl

def answer (r : PathResult) : Bool × List Direction := (r.1, r.2.1)

/-- The search has the answer of the plain one, when it is not cut short. -/
theorem getPathMatching_eq_plain {w : AStarWorkspace} (hw : Used w) (haway : q.AwayFromBorder) (huncut : q.Uncut w)
    (dirList : List Direction) :
    ∃ n a, ∀ fuel ≥ n, (q.getPathMatching dirList w fuel).map answer = some a ∧ (q.plainSearch dirList w fuel).map answer = some a := by
  unfold getPathMatching
  dsimp only
  split
  · next hfloor =>
    obtain ⟨n, r, hr, hfalse, hdirs⟩ := searchPath_fails plain_valid hw.ready haway
      (fun p hp _ => pathCondition_floor hfloor.1 hfloor.2 hp 0) dirList
    refine ⟨n, (false, dirList), fun fuel hfuel => ⟨rfl, ?_⟩⟩
    rw [plainSearch, hr fuel hfuel, map_some, answer, hfalse, hdirs]
  · split
    · next hreach =>
      obtain ⟨n, r, hr, hfalse, hdirs⟩ := searchPath_fails plain_valid hw.ready haway
        (fun p _ hnear => pathCondition_far (testDist_far hreach.2.2 (hnear hreach.1).1 (hnear hreach.1).2) 0) dirList
      refine ⟨n, (false, dirList), fun fuel hfuel => ⟨rfl, ?_⟩⟩
      rw [plainSearch, hr fuel hfuel, map_some, answer, hfalse, hdirs]
    · split
      · next hstart =>
        obtain ⟨n, r, hr, htrue, hdirs⟩ := searchPath_start hw.ready hstart.1 hstart.2 dirList
        refine ⟨n, (true, dirList), fun fuel hfuel => ⟨rfl, ?_⟩⟩
        rw [plainSearch, hr fuel hfuel, map_some, answer, htrue, hdirs]
      · obtain ⟨n, r, hr, -⟩ := searchPath_spec optimised_valid hw.ready haway dirList
        refine ⟨n, answer r, fun fuel hfuel => ?_⟩
        rw [searchPath_plain hw.ready haway huncut, hr fuel hfuel]
        exact ⟨rfl, rfl⟩

theorem corridor_plain : ∃ n a, ∀ fuel ≥ n, (corridor.getPathMatching [] {} fuel).map answer = some a ∧
    (corridor.plainSearch [] {} fuel).map answer = some a := by
  refine getPathMatching_eq_plain Used.new (awayFromBorder_of_inner corridor_inner.1 corridor_inner.2) ?_ []
  have hsquares : ∀ p, p = corridor.start ∨ corridor.Enters p →
      p ∈ (Finset.range 3).image fun i => (⟨BitVec.ofNat 16 (1000 + i), 1000, 7⟩ : Position) := by
    intro p hp
    rw [Finset.mem_image]
    rcases hp with rfl | henters
    · exact ⟨0, by decide, rfl⟩
    · obtain ⟨t, ht⟩ := henters.2
      obtain ⟨-, hy, hz, hx0, hx1⟩ := corridorTiles_pos (Map.getTile_ofTiles (fun _ _ h => (corridorTiles_pos h).1) (canWalkToForPath_eq ht))
      rw [BitVec.le_def] at hx0 hx1
      have hx0 : 1000 ≤ p.x.toNat := hx0
      have hx1 : p.x.toNat ≤ 1002 := hx1
      refine ⟨p.x.toNat - 1000, Finset.mem_range.mpr (by omega), ?_⟩
      rw [show 1000 + (p.x.toNat - 1000) = p.x.toNat from by omega, BitVec.ofNat_toNat, BitVec.setWidth_eq, ← hy, ← hz]
  exact uncut_of_squares Used.new.ready hsquares (lt_of_le_of_lt Finset.card_image_le (by decide))

/-! ## Where the searches differ -/

/-- Three squares in a row over the border: after the border the parent looks far away, in the east. -/
def borderTiles (p : Position) : Option Tile :=
  if p.y = 1000 ∧ p.z = 7 ∧ (p.x = 65535 ∨ p.x = 0 ∨ p.x = 1) then some { tilePos := p, id := 0 } else none

theorem borderTiles_pos {t : Tile} (h : borderTiles p = some t) : t.tilePos = p := by
  unfold borderTiles at h
  split at h
  · obtain rfl := Option.some.inj h
    rfl
  · cases h

def overBorder : PathQuery where
  map := .ofTiles borderTiles fun _ _ h => borderTiles_pos h
  creature :=
    { position := ⟨65535, 1000, 7⟩
      tile := borderTiles ⟨65535, 1000, 7⟩
      queryAdd := fun _ => true
      GetTileWalkCost := fun _ => 0
      tile_pos := fun _ h => borderTiles_pos h }
  targetPos := ⟨1, 1000, 7⟩
  fpp := { maxTargetDist := 0 }

/-- Over the border the pruned search finds no way. -/
theorem prunedSearch_differs :
    (overBorder.getPathMatching [] {} 10).map answer = some (false, []) ∧
      (overBorder.plainSearch [] {} 10).map answer = some (true, [.DIRECTION_EAST]) := by
  refine ⟨?_, ?_⟩
  all_goals decide +kernel

end PathQuery

end Backlands.World
