/-
  Backlands.World.PathDiagonals — the search for a way without diagonal steps (src/map.cpp).

  With `allowDiagonal` off a node tries three orthogonal neighbours, but the first one, which
  has no parent, tries all eight. So a way may start with a diagonal step, and no other step of
  it is one.

  Proved: `straight_after_first`. Counterexample: `corner_cut`.
-/

import Backlands.World.PathPruning

namespace Backlands.World

open Backlands.Lib List Option Bool
open Query (int32)

def Direction.diagonal : Direction → Bool
  | .DIRECTION_SOUTHWEST | .DIRECTION_SOUTHEAST | .DIRECTION_NORTHWEST | .DIRECTION_NORTHEAST => true
  | .DIRECTION_NORTH | .DIRECTION_EAST | .DIRECTION_SOUTH | .DIRECTION_WEST => false

/-- A square diagonally next to another, not over the border of the coordinates. -/
structure DiagonalTo (p p' : Position) : Prop where
  x : ((p.x.toNat : Int) - p'.x.toNat).natAbs = 1
  y : ((p.y.toNat : Int) - p'.y.toNat).natAbs = 1
  z : p'.z = p.z

theorem stepDirection_diagonal {dx dy : Int} {dir : Direction} (h : stepDirection dx dy = some dir) :
    dir.diagonal = true ↔ dx.natAbs = 1 ∧ dy.natAbs = 1 := by
  have hone : ∀ v : Int, v.natAbs = 1 ↔ v = 1 ∨ v = -1 := by omega
  rw [hone, hone]
  unfold stepDirection at h
  split at h
  · next hd =>
    obtain rfl := Option.some.inj h
    exact iff_of_true rfl ⟨.inl hd.1, .inl hd.2⟩
  split at h
  · next hd =>
    obtain rfl := Option.some.inj h
    exact iff_of_true rfl ⟨.inr hd.1, .inl hd.2⟩
  split at h
  · next hd =>
    obtain rfl := Option.some.inj h
    exact iff_of_true rfl ⟨.inl hd.1, .inr hd.2⟩
  split at h
  · next hd =>
    obtain rfl := Option.some.inj h
    exact iff_of_true rfl ⟨.inr hd.1, .inr hd.2⟩
  have hnot : ¬ ((dx = 1 ∨ dx = -1) ∧ (dy = 1 ∨ dy = -1)) := by omega
  have hplain : dir.diagonal = false := by
    split at h
    · exact Option.some.inj h ▸ rfl
    split at h
    · exact Option.some.inj h ▸ rfl
    split at h
    · exact Option.some.inj h ▸ rfl
    split at h
    · exact Option.some.inj h ▸ rfl
    · exact nomatch h
  exact iff_of_false (by simp [hplain]) hnot

namespace PathQuery

variable {v : Variant} {q : PathQuery} {s : PathSearch} {opened : Set Nat}

/-! ## Nodes after the first -/

/-- A node whose parent is not the first one is orthogonally next to it. -/
def Straight (q : PathQuery) (nodes : AStarNodes) : Prop :=
  ∀ i, 0 < i → i < nodes.current_node → ∀ parent, (nodes.GetNode i).parent = some parent → 0 < parent →
    ∃ d ∈ orthogonal, q.squareOf (nodes.GetNode i) = (q.squareOf (nodes.GetNode parent)).shift d

variable {nodeIdx : Nat} {node : AStarNode} {ds : List (Int × Int)}

theorem Straight.set (h : Sound q s opened) (hstraight : Straight q s.nodes) (hat : At s opened nodeIdx node)
    {d : Int × Int} (hd : 0 < nodeIdx → d ∈ orthogonal) {nodes' : AStarNodes} {j f g_score : Nat}
    (hset : SetNode s.nodes nodes' opened j {
      parent := some nodeIdx
      f := f
      g_score := g_score
      x := ((q.squareOf node).shift d).x
      y := ((q.squareOf node).shift d).y }) : Straight q nodes' := by
  have hlt : nodeIdx < s.nodes.current_node := h.inv.items_lt _ hat.mem
  have hgrows := hset.grows
  intro i hi hlti parent hparent hpos
  by_cases hij : i = j
  · subst hij
    rw [hset.node] at hparent
    obtain rfl := Option.some.inj hparent
    refine ⟨d, hd hpos, ?_⟩
    rw [hset.node, hgrows.squareOf_eq hlt, ← hat.squareOf_eq]
    rfl
  · have hold := (hset.cases hlti).resolve_left hij
    rw [hset.others i hij] at hparent ⊢
    obtain ⟨parent', g, hparent', hchild, -⟩ := h.child i hi hold
    obtain rfl := Option.some.inj (hparent'.symm.trans hparent)
    rw [hgrows.squareOf_eq hchild.lt]
    exact hstraight i hi hold _ hparent hpos

theorem expand_straight (hv : v.Valid) (h : Sound q s opened) (hstraight : Straight q s.nodes)
    (hat : At s opened nodeIdx node) (hds : ds ⊆ allNeighbors) (horth : 0 < nodeIdx → ds ⊆ orthogonal) :
    ∃ s' opened', (expand v q nodeIdx node ds s = some (.next s') ∨ expand v q nodeIdx node ds s = some (.full s')) ∧
      Expanded q nodeIdx s s' opened opened' ∧ Straight q s'.nodes := by
  induction ds generalizing s opened with
  | nil => exact ⟨s, opened, .inl rfl, h.expanded nodeIdx h.leaf, hstraight⟩
  | cons d ds ih =>
    obtain ⟨hd, hds⟩ := cons_subset.mp hds
    have hrest : 0 < nodeIdx → ds ⊆ orthogonal := fun hpos => (cons_subset.mp (horth hpos)).2
    have hfirst : 0 < nodeIdx → d ∈ orthogonal := fun hpos => (cons_subset.mp (horth hpos)).1
    unfold expand
    obtain ⟨leaf, hleaf, ⟨htry, -⟩ | ⟨j, nodes', htry, henters, hset⟩ | ⟨htry, -⟩⟩ := tryNeighbor_cases hv h nodeIdx node d
    · rw [htry]
      have hturn := h.expanded nodeIdx hleaf
      obtain ⟨s', opened', hresult, hlast, hnext⟩ := ih hturn.sound hstraight (hat.expanded hturn) hds hrest
      exact ⟨s', opened', hresult, hturn.trans hlast, hnext⟩
    · rw [htry]
      obtain ⟨hsound, hne⟩ := h.set hat hd henters rfl hset hleaf
      have hturn : Expanded q nodeIdx s { s with leaf := leaf, nodes := nodes' } opened (insert j opened) :=
        ⟨hsound, Set.subset_insert j opened, rfl, hset.grows, hset.others nodeIdx hne.symm, .inr hset.advances⟩
      obtain ⟨s', opened', hresult, hlast, hnext⟩ :=
        ih hsound (hstraight.set h hat hfirst hset) (hat.expanded hturn) hds hrest
      exact ⟨s', opened', hresult, hturn.trans hlast, hnext⟩
    · rw [htry]
      exact ⟨_, opened, .inr rfl, h.expanded nodeIdx hleaf, hstraight⟩

theorem Straight.of_get {nodes nodes' : AStarNodes} (hget : ∀ i, nodes'.GetNode i = nodes.GetNode i)
    (hcurrent : nodes'.current_node = nodes.current_node) (h : Straight q nodes) : Straight q nodes' := by
  intro i hi hlt parent hparent hpos
  rw [hget] at hparent ⊢
  rw [hget]
  exact h i hi (hcurrent ▸ hlt) parent hparent hpos

theorem prunedNeighbors_orthogonal (node parent : AStarNode) : prunedNeighbors false node (some parent) ⊆ orthogonal := by
  have hall : ∀ x_offset y_offset, (dirNeighbors (parentDirection false x_offset y_offset)).take 3 ⊆ orthogonal := by
    intro x_offset y_offset
    unfold parentDirection
    rw [Bool.not_false, Bool.true_or, if_pos rfl]
    split
    · split <;> decide
    · split <;> decide
  exact hall _ _

theorem turn_straight (h : Sound q s opened) (hstraight : Straight q s.nodes) (hfalse : q.fpp.allowDiagonal = false) :
    ∃ s' opened', Sound q s' opened' ∧ Straight q s'.nodes ∧
      (turn optimised q s = some (.again s') ∨ turn optimised q s = some (.done s') ∨ turn optimised q s = some (.failed s')) := by
  unfold turn
  split
  · exact ⟨s, opened, h, hstraight, .inr (.inl rfl)⟩
  rcases AStarNodes.getBestNode_spec h.inv with ⟨hbest, -⟩ | ⟨nodeIdx, hmem, hbest⟩
  · rw [hbest]
    dsimp only
    split
    · exact ⟨s, opened, h, hstraight, .inr (.inl rfl)⟩
    · exact ⟨s, opened, h, hstraight, .inr (.inr rfl)⟩
  · rw [hbest]
    dsimp only
    have hlt := h.inv.items_lt nodeIdx hmem
    obtain ⟨hlook, hnodes⟩ := h.look hlt
    have hlooked : Straight q (q.look nodeIdx s).2.nodes := hnodes ▸ hstraight
    split
    · exact ⟨_, opened, hlook, hlooked, .inr (.inl rfl)⟩
    have hat : At (q.look nodeIdx s).2 opened nodeIdx (s.nodes.GetNode nodeIdx) := At.look hmem
    obtain ⟨ds, hds⟩ : ∃ ds, ds = optimised.neighbors q.fpp.allowDiagonal (s.nodes.GetNode nodeIdx)
      ((s.nodes.GetNode nodeIdx).parent.map fun i => (q.look nodeIdx s).2.nodes.GetNode i) := ⟨_, rfl⟩
    have hsubset : ds ⊆ allNeighbors := hds ▸ optimised_valid.neighbors _ _ _
    have horth : 0 < nodeIdx → ds ⊆ orthogonal := by
      intro hpos
      obtain ⟨parent, g, hparent, -⟩ := h.child nodeIdx hpos hlt
      rw [hds, hfalse, hparent]
      exact prunedNeighbors_orthogonal _ _
    rw [← hds]
    obtain ⟨s', opened', hnext | hfull, hexpanded, hafter⟩ := expand_straight optimised_valid hlook hlooked hat hsubset horth
    · obtain ⟨hsound, hget, hcurrent, -⟩ := hexpanded.sound.close (hexpanded.opened hmem)
      rw [hnext]
      exact ⟨_, _, hsound, hafter.of_get hget hcurrent, .inl rfl⟩
    obtain ⟨hsound, hget, hcurrent, -⟩ := hexpanded.sound.close (hexpanded.opened hmem)
    rw [hfull]
    dsimp only
    split
    · exact ⟨_, _, hsound, hafter.of_get hget hcurrent, .inl rfl⟩
    · exact ⟨_, _, hexpanded.sound, hafter, .inr (.inr rfl)⟩

theorem search_straight (h : Sound q s opened) (hstraight : Straight q s.nodes) (hfalse : q.fpp.allowDiagonal = false) {n : Nat}
    {r : Bool × PathSearch} (hr : search optimised q n s = some r) : Straight q r.2.nodes := by
  induction n generalizing s opened with
  | zero => cases hr
  | succ n ih =>
    rw [search] at hr
    obtain ⟨s', opened', hsound, hnext, hagain | hdone | hfailed⟩ := turn_straight h hstraight hfalse
    · rw [hagain] at hr
      exact ih hsound hnext hr
    · rw [hdone] at hr
      obtain rfl := Option.some.inj hr
      exact hnext
    · rw [hfailed] at hr
      obtain rfl := Option.some.inj hr
      exact hnext

/-! ## The way back -/

/-- The creature cannot walk on any square diagonally next to the start. -/
def CornersBlocked (map : Map) (creature : PathCreature) : Prop :=
  ∀ p, DiagonalTo creature.position p → canWalkToForPath creature (map.getTile p) = none

theorem Straight.step (h : Sound q s opened) (hstraight : Straight q s.nodes) {i : Nat}
    (hi : i < s.nodes.current_node) {parent : Nat} (hparent : (s.nodes.GetNode i).parent = some parent) :
    parent < s.nodes.current_node ∧ (0 < parent ∨ CornersBlocked q.map q.creature → ∀ dir,
      stepDirection (((s.nodes.GetNode parent).x.toNat : Int) - (s.nodes.GetNode i).x.toNat)
        (((s.nodes.GetNode parent).y.toNat : Int) - (s.nodes.GetNode i).y.toNat) = some dir → dir.diagonal = false) := by
  rcases Nat.eq_zero_or_pos i with rfl | hpos
  · rw [h.start] at hparent
    exact nomatch hparent
  obtain ⟨parent', g, hparent', hchild, -, henters⟩ := h.child i hpos hi
  obtain rfl := Option.some.inj (hparent'.symm.trans hparent)
  refine ⟨hchild.lt, fun hplain dir hdir => ?_⟩
  rw [← not_eq_true, stepDirection_diagonal hdir]
  rintro ⟨hx, hy⟩
  rcases Nat.eq_zero_or_pos parent' with rfl | hparentPos
  · rw [h.start] at hx hy
    obtain ⟨t, ht⟩ := henters.2
    have hcorner : DiagonalTo q.creature.position (q.squareOf (s.nodes.GetNode i)) := ⟨hx, hy, rfl⟩
    rw [hplain.resolve_left (Nat.lt_irrefl 0) _ hcorner] at ht
    exact nomatch ht
  · obtain ⟨d, hd, hsquare⟩ := hstraight i hpos hi _ hparent hparentPos
    have horth : ∀ d ∈ orthogonal, d.1 = 0 ∨ d.2 = 0 := by decide
    rcases horth d hd with hzero | hzero
    · have hcolumn : (s.nodes.GetNode i).x = (s.nodes.GetNode parent').x + BitVec.ofInt 16 d.1 := congrArg Position.x hsquare
      rw [hzero] at hcolumn
      rw [hcolumn.trans (BitVec.add_zero _)] at hx
      omega
    · have hrow : (s.nodes.GetNode i).y = (s.nodes.GetNode parent').y + BitVec.ofInt 16 d.2 := congrArg Position.y hsquare
      rw [hzero] at hrow
      rw [hrow.trans (BitVec.add_zero _)] at hy
      omega

variable {dirList : List Direction} {w : AStarWorkspace}

/-- Only the direction put into the list last may be diagonal, and none where the corners are
    blocked. -/
structure StraightWay (q : PathQuery) (dirs : List Direction) : Prop where
  after : ∀ dir ∈ dirs.dropLast, dir.diagonal = false
  all : CornersBlocked q.map q.creature → ∀ dir ∈ dirs, dir.diagonal = false

theorem StraightWay.nil : StraightWay q [] := ⟨by simp, by simp⟩

theorem appendPath_straight (h : Sound q s opened) (hstraight : Straight q s.nodes) {n i : Nat}
    (hi : i < s.nodes.current_node) {result : List Direction}
    (hresult : appendPath s.nodes n (s.nodes.GetNode i).x.toNat (s.nodes.GetNode i).y.toNat (s.nodes.GetNode i).parent dirList =
      some result) : ∃ dirs, result = dirList ++ dirs ∧ StraightWay q dirs ∧ ((s.nodes.GetNode i).parent = none → dirs = []) := by
  induction n generalizing i dirList with
  | zero =>
    cases hparent : (s.nodes.GetNode i).parent with
    | none =>
      rw [hparent] at hresult
      obtain rfl := Option.some.inj hresult
      exact ⟨[], (append_nil _).symm, .nil, fun _ => rfl⟩
    | some parent =>
      rw [hparent] at hresult
      cases hresult
  | succ n ih =>
    cases hparent : (s.nodes.GetNode i).parent with
    | none =>
      rw [hparent] at hresult
      obtain rfl := Option.some.inj hresult
      exact ⟨[], (append_nil _).symm, .nil, fun _ => rfl⟩
    | some parent =>
      rw [hparent, appendPath] at hresult
      obtain ⟨hlt, hstep⟩ := hstraight.step h hi hparent
      obtain ⟨dirs, rfl, hdirs, hlast⟩ := ih hlt hresult
      refine ⟨_ ++ dirs, append_assoc .., ⟨fun dir hdir => ?_, fun hblocked dir hdir => ?_⟩,
        fun hnone => absurd hnone (Option.some_ne_none _)⟩
      · rcases Nat.eq_zero_or_pos parent with rfl | hpos
        · -- nothing is put into the list after the step from the first node
          have hnone := hlast (by rw [h.start])
          subst hnone
          rw [append_nil] at hdir
          generalize stepDirection _ _ = d at hdir
          cases d
          · simp at hdir
          · simp at hdir
        by_cases hnil : dirs = []
        · subst hnil
          rw [append_nil] at hdir
          exact hstep (.inl hpos) dir (mem_toList.mp (mem_of_mem_dropLast hdir))
        rw [dropLast_append_of_ne_nil hnil] at hdir
        rcases mem_append.mp hdir with hdir | hdir
        · exact hstep (.inl hpos) dir (mem_toList.mp hdir)
        · exact hdirs.after dir hdir
      · rcases mem_append.mp hdir with hdir | hdir
        · exact hstep (.inr hblocked) dir (mem_toList.mp hdir)
        · exact hdirs.all hblocked dir hdir

theorem searchPath_straight (hw : AStarNodes.Ready w) (hfalse : q.fpp.allowDiagonal = false) {fuel : Nat} {r : PathResult}
    (hr : searchPath optimised q dirList w fuel = some r) : ∃ dirs, r.2.1 = dirList ++ dirs ∧ StraightWay q dirs := by
  obtain ⟨nodes, hmake, hsound, hone⟩ := sound_start hw (q := q)
  have hstart : Straight q nodes := by
    intro i hi hlt
    omega
  unfold searchPath at hr
  rw [hmake] at hr
  simp only [bind_eq_bind, bind_some, bind_eq_some_iff] at hr
  obtain ⟨⟨success, s⟩, hsearch, hr⟩ := hr
  obtain ⟨⟨opened, hs⟩, hfound⟩ := search_sound optimised_valid hsound hsearch
  have hstraight : Straight q s.nodes := search_straight hsound hstart hfalse hsearch
  cases success with
  | false =>
    obtain rfl := Option.some.inj hr
    exact ⟨[], (append_nil _).symm, .nil⟩
  | true =>
    obtain ⟨i, hi⟩ := isSome_iff_exists.mp (hfound rfl)
    obtain ⟨hlt, hend, -⟩ := hs.found i hi
    rw [if_pos rfl, hi, bind_some, hend] at hr
    obtain ⟨dirs, hdirs, hr⟩ := bind_eq_some_iff.mp hr
    obtain rfl := Option.some.inj hr
    obtain ⟨way, hway, hplain, -⟩ := appendPath_straight hs hstraight hlt hdirs
    exact ⟨way, hway, hplain⟩

theorem getPathMatching_straight (hw : Used w) (hfalse : q.fpp.allowDiagonal = false) {fuel : Nat} {r : PathResult}
    (hr : q.getPathMatching dirList w fuel = some r) : ∃ dirs, r.2.1 = dirList ++ dirs ∧ StraightWay q dirs := by
  rcases q.getPathMatching_cases dirList w with hexit | ⟨-, hexit⟩ | hsearch
  · rw [hexit] at hr
    obtain rfl := Option.some.inj hr
    exact ⟨[], (append_nil _).symm, .nil⟩
  · rw [hexit] at hr
    obtain rfl := Option.some.inj hr
    exact ⟨[], (append_nil _).symm, .nil⟩
  · rw [hsearch] at hr
    exact searchPath_straight hw.ready hfalse hr

/-! ## A search for a corner -/

/-- The search for one square, with nothing else near enough to be entered. -/
def searchFor (map : Map) (creature : PathCreature) (p : Position) : PathQuery where
  map := map
  creature := creature
  targetPos := p
  fpp := { clearSight := false, allowDiagonal := false, keepDistance := true, maxSearchDist := 1, maxTargetDist := 0 }

variable {map : Map} {creature : PathCreature} {p : Position}

theorem searchFor_isInRange (startPos testPos : Position) :
    (searchFor map creature p).isInRange startPos testPos = true ↔ testPos.x = p.x ∧ testPos.y = p.y := by
  have hint : ∀ v : BitVec 16, int32 ((v.toNat : Int) + 0) = v.toNat ∧ int32 ((v.toNat : Int) - 0) = v.toNat := by
    unfold int32
    omega
  unfold isInRange searchFor
  simp only [if_true, (hint _).1, (hint _).2, not_eq_true', or_eq_false_iff, decide_eq_false_iff_not, ← BitVec.toNat_inj]
  omega

theorem searchFor_condition (hz : p.z = creature.position.z) (startPos testPos : Position) (htest : testPos.z = creature.position.z) :
    (searchFor map creature p).pathCondition startPos testPos 0 = (decide (testPos = p), 0) := by
  have hrange := @searchFor_isInRange map creature p startPos testPos
  unfold pathCondition
  by_cases hsame : testPos = p
  · subst hsame
    have hdist : (searchFor map creature testPos).testDist testPos = 0 := by
      show max (Map.getDistanceX testPos testPos) (Map.getDistanceY testPos testPos) = 0
      unfold Map.getDistanceX Map.getDistanceY
      omega
    rw [hrange.mpr ⟨rfl, rfl⟩, hdist]
    simp [searchFor]
  · have hnot : (searchFor map creature p).isInRange startPos testPos = false := by
      rw [← not_eq_true, hrange]
      rintro ⟨hx, hy⟩
      refine hsame ?_
      cases testPos
      cases p
      simp only [Position.mk.injEq] at *
      exact ⟨hx, hy, htest.trans hz.symm⟩
    rw [hnot]
    simp [hsame]

theorem searchFor_skips (hp : DiagonalTo creature.position p) {testPos : Position} (htest : testPos.z = creature.position.z) :
    (searchFor map creature p).skips testPos = false ↔ testPos = p := by
  have hrange := @searchFor_isInRange map creature p creature.position testPos
  unfold skips
  constructor
  · intro h
    rw [or_eq_false_iff] at h
    have hin : (searchFor map creature p).isInRange creature.position testPos = true := by
      have hkeep := h.2
      unfold start at hkeep
      simpa [searchFor] using hkeep
    obtain ⟨hx, hy⟩ := hrange.mp hin
    have hz := hp.z
    cases testPos
    cases p
    simp only [Position.mk.injEq] at *
    exact ⟨hx, hy, htest.trans hz.symm⟩
  · rintro rfl
    have hin := hrange.mpr ⟨rfl, rfl⟩
    have hx := hp.x
    have hy := hp.y
    have hin' : (searchFor map creature testPos).isInRange (searchFor map creature testPos).start testPos = true := hin
    rw [hin']
    have hnear : ¬ ((((testPos.x.toNat : Int) - creature.position.x.toNat).natAbs : Int) > 1) ∧
        ¬ ((((testPos.y.toNat : Int) - creature.position.y.toNat).natAbs : Int) > 1) := by omega
    simp only [searchFor, start, Bool.not_true, or_eq_false_iff]
    rw [and_eq_false_iff, or_eq_false_iff]
    exact ⟨.inr ⟨decide_eq_false hnear.1, decide_eq_false hnear.2⟩, rfl⟩

theorem exists_shift {a b : Position} (h : DiagonalTo a b) : ∃ e ∈ allNeighbors, a.shift e = b := by
  have hx := h.x
  have hy := h.y
  have hmove : ∀ (u w : BitVec 16) (i : Int), (w.toNat : Int) = u.toNat + i → u + BitVec.ofInt 16 i = w := by
    intro u w i hi
    rw [← BitVec.toNat_inj, BitVec.toNat_add, BitVec.toNat_ofInt]
    omega
  refine ⟨((b.x.toNat : Int) - a.x.toNat, (b.y.toNat : Int) - a.y.toNat), ?_, ?_⟩
  · have hcases : ((b.x.toNat : Int) - a.x.toNat = 1 ∨ (b.x.toNat : Int) - a.x.toNat = -1) ∧
        ((b.y.toNat : Int) - a.y.toNat = 1 ∨ (b.y.toNat : Int) - a.y.toNat = -1) := by omega
    obtain ⟨hx | hx, hy | hy⟩ := hcases
    all_goals
      rw [hx, hy]
      decide
  · have hcolumn := hmove a.x b.x ((b.x.toNat : Int) - a.x.toNat) (by omega)
    have hrow := hmove a.y b.y ((b.y.toNat : Int) - a.y.toNat) (by omega)
    unfold Position.shift
    rw [hcolumn, hrow]
    exact congrArg _ h.z.symm

theorem expand_skips (h : ∀ d ∈ ds, q.skips ((q.squareOf node).shift d) = true) :
    expand v q nodeIdx node ds s = some (.next s) := by
  induction ds with
  | nil => rfl
  | cons d ds ih =>
    have htry : tryNeighbor v q nodeIdx node d s = some (.next s) := if_pos (h d (mem_cons_self ..))
    rw [expand, htry]
    exact ih fun d' hd' => h d' (mem_cons_of_mem _ hd')

theorem expand_only {e : Int × Int} (he : e ∈ ds) (hnodup : ds.Nodup)
    (h : ∀ d ∈ ds, d ≠ e → q.skips ((q.squareOf node).shift d) = true) {s' : PathSearch}
    (htry : tryNeighbor v q nodeIdx node e s = some (.next s')) : expand v q nodeIdx node ds s = some (.next s') := by
  induction ds with
  | nil => exact absurd he not_mem_nil
  | cons d ds ih =>
    obtain ⟨hd, hnodup⟩ := nodup_cons.mp hnodup
    rcases mem_cons.mp he with rfl | he
    · rw [expand, htry]
      exact expand_skips fun d' hd' => h d' (mem_cons_of_mem _ hd') fun heq => hd (heq ▸ hd')
    have hskip : tryNeighbor v q nodeIdx node d s = some (.next s) :=
      if_pos (h d (mem_cons_self ..) fun heq => hd (heq ▸ he))
    rw [expand, hskip]
    exact ih he hnodup fun d' hd' => h d' (mem_cons_of_mem _ hd')

theorem shift_injective {a : Position} {d e : Int × Int} (hd : d ∈ allNeighbors) (he : e ∈ allNeighbors)
    (h : a.shift d = a.shift e) : d = e := by
  have hx : BitVec.ofInt 16 d.1 = BitVec.ofInt 16 e.1 := (BitVec.add_right_inj _).mp (congrArg Position.x h)
  have hy : BitVec.ofInt 16 d.2 = BitVec.ofInt 16 e.2 := (BitVec.add_right_inj _).mp (congrArg Position.y h)
  have hall : ∀ d ∈ allNeighbors, ∀ e ∈ allNeighbors, BitVec.ofInt 16 d.1 = BitVec.ofInt 16 e.1 →
      BitVec.ofInt 16 d.2 = BitVec.ofInt 16 e.2 → d = e := by decide
  exact hall d hd e he hx hy

theorem searchFor_first (hp : DiagonalTo creature.position p) (hwalk : ∃ t, canWalkToForPath creature (map.getTile p) = some t)
    {nodes : AStarNodes} (hsound : Sound (searchFor map creature p) { nodes := nodes } {0}) (hone : nodes.current_node = 1)
    (hbest : nodes.GetBestNode = some 0) :
    ∃ s j, turn optimised (searchFor map creature p) { nodes := nodes } = some (.again s) ∧
      Sound (searchFor map creature p) s {j} ∧ (s.nodes.GetNode j).parent = some 0 ∧
      (searchFor map creature p).squareOf (s.nodes.GetNode j) = p ∧ s.best_match = 0 := by
  obtain ⟨q, hq⟩ : ∃ q, q = searchFor map creature p := ⟨_, rfl⟩
  have hstart : q.start = creature.position := by rw [hq]; rfl
  have hsquare : q.squareOf (nodes.GetNode 0) = creature.position := by
    rw [← hstart, hq, hsound.start]
    rfl
  have hne : creature.position ≠ p := by
    intro heq
    have hx := hp.x
    rw [heq] at hx
    omega
  have hlook : q.look 0 { nodes := nodes } = (false, { nodes := nodes }) := by
    unfold look
    dsimp only
    rw [hsquare, hstart, hq, searchFor_condition hp.z creature.position creature.position rfl]
    simp [hne]
  have hparent : (nodes.GetNode 0).parent = none := by rw [hsound.start]
  have hneighbors : neighborsOf optimised q nodes 0 = allNeighbors := by
    unfold neighborsOf
    rw [hparent]
    rfl
  have hexpands : Expands q { nodes := nodes } 0 := by
    refine ⟨.inl (by rw [hq]; exact one_ne_zero), hbest, ?_⟩
    rw [hlook]
    exact fun h => Bool.false_ne_true h.1
  obtain ⟨e, he, hcorner⟩ := exists_shift hp
  rw [← hq] at hsound ⊢
  have henters : q.Enters p := by
    rw [hq]
    exact ⟨(searchFor_skips hp hp.z).mpr rfl, hwalk⟩
  have hat : At { nodes := nodes } {0} 0 (nodes.GetNode 0) := ⟨rfl, rfl, rfl, rfl⟩
  have honly : ∀ i < nodes.current_node, q.squareOf (nodes.GetNode i) ≠ p := by
    intro i hi
    obtain rfl : i = 0 := by omega
    rw [hsquare]
    exact hne
  have htried := tryNeighbor_cases optimised_valid hsound 0 (nodes.GetNode 0) e
  rw [hsquare, hcorner] at htried
  obtain ⟨leaf, hleaf, ⟨-, hcovered⟩ | ⟨j, nodes', htry, -, hset⟩ | ⟨-, -, -, hfull⟩⟩ := htried
  · obtain ⟨i, hi, hsame, -⟩ := hcovered henters
    exact absurd hsame (honly i hi)
  · have hskips : ∀ d ∈ allNeighbors, d ≠ e → q.skips ((q.squareOf (nodes.GetNode 0)).shift d) = true := by
      intro d hd hde
      rw [← not_eq_false, hsquare, hq, @searchFor_skips map creature p hp (creature.position.shift d) rfl, ← hcorner]
      exact fun heq => hde (shift_injective hd he heq)
    have hnodup : allNeighbors.Nodup := by decide
    have hexpand := expand_only he hnodup hskips htry
    have hcorner' : (q.squareOf (nodes.GetNode 0)).shift e = p := by rw [hsquare, hcorner]
    obtain ⟨hset', hj⟩ := hsound.set hat he (hcorner'.symm ▸ henters) rfl (hcorner'.symm ▸ hset) hleaf
    obtain ⟨hclosed, hget, -, -⟩ := hset'.close (show 0 ∈ insert j ({0} : Set Nat) from Set.mem_insert_of_mem j rfl)
    have hleft : insert j {0} \ {0} = ({j} : Set Nat) := by
      ext i
      simp only [Set.mem_sdiff, Set.mem_insert_iff, Set.mem_singleton_iff]
      omega
    rw [hleft] at hclosed
    refine ⟨_, j, ?_, hclosed, ?_, ?_, rfl⟩
    · rw [turn_expand hexpands, hneighbors, hlook, hexpand]
      rfl
    · simp [hget, hset.node]
    · rw [hget, hset.node]
      exact congrArg _ (hstart ▸ hp.z.symm)
  · rw [hone] at hfull
    exact absurd hfull (by decide)

theorem look_match {j : Nat} (hsquare : q.squareOf (s.nodes.GetNode j) = p)
    (hcondition : q.pathCondition q.start p s.best_match = (true, s.best_match)) :
    q.look j s = (true, { s with found := some j, end_position := p }) := by
  simp [look, hsquare, hcondition]

theorem searchFor_second (hp : DiagonalTo creature.position p) {j : Nat} (h : Sound (searchFor map creature p) s {j})
    (hsquare : (searchFor map creature p).squareOf (s.nodes.GetNode j) = p) (hmatch : s.best_match = 0) :
    turn optimised (searchFor map creature p) s = some (.done { s with found := some j, end_position := p }) := by
  have hbest : s.nodes.GetBestNode = some j := by
    obtain ⟨i, hi, -⟩ := h.inv.heap.exists_place (Set.mem_singleton j)
    rcases AStarNodes.getBestNode_spec h.inv with ⟨-, hempty⟩ | ⟨k, hk, hsome⟩
    · omega
    · exact hsome.trans (congrArg some (Set.mem_singleton_iff.mp hk))
  have hcondition := @searchFor_condition map creature p hp.z creature.position p hp.z
  obtain ⟨q, hq⟩ : ∃ q, q = searchFor map creature p := ⟨_, rfl⟩
  have hstart : q.start = creature.position := by
    rw [hq]
    rfl
  have hlimit : q.fpp.maxSearchDist ≠ 0 := by
    rw [hq]
    exact one_ne_zero
  rw [← hq, ← hstart, decide_eq_true rfl, ← hmatch] at hcondition
  rw [← hq] at hsquare ⊢
  have hlook := look_match hsquare hcondition
  unfold turn
  rw [if_neg (not_not.mpr (.inl hlimit)), hbest]
  dsimp only
  rw [hlook]
  exact if_pos ⟨rfl, hmatch⟩

theorem searchFor_finds (hp : DiagonalTo creature.position p)
    (hwalk : ∃ t, canWalkToForPath creature (map.getTile p) = some t) (hw : AStarNodes.Ready w)
    (dirList : List Direction) :
    ∃ r dir, (searchFor map creature p).getPathMatching dirList w 2 = some r ∧ r.1 = true ∧ r.2.1 = dirList ++ [dir] ∧
      dir.diagonal = true := by
  obtain ⟨nodes, hmake, hsound, hone⟩ := sound_start hw (q := searchFor map creature p)
  obtain ⟨-, hsize⟩ := make_counts hmake
  have hbest : nodes.GetBestNode = some 0 := by
    rcases AStarNodes.getBestNode_spec hsound.inv with ⟨-, hempty⟩ | ⟨i, hi, hsome⟩
    · dsimp only at hempty
      omega
    · exact hsome.trans (congrArg some (Set.mem_singleton_iff.mp hi))
  obtain ⟨s, j, hfirst, hs, hparent, hsquare, hmatch⟩ := searchFor_first hp hwalk hsound hone hbest
  have hsecond := searchFor_second hp hs hsquare hmatch
  have hstart : (s.nodes.GetNode 0).x = creature.position.x ∧ (s.nodes.GetNode 0).y = creature.position.y ∧
      (s.nodes.GetNode 0).parent = none := by
    rw [hs.start]
    exact ⟨rfl, rfl, rfl⟩
  have hx := hp.x
  have hy := hp.y
  obtain ⟨dir, hdir⟩ : ∃ dir, stepDirection ((creature.position.x.toNat : Int) - p.x.toNat)
      ((creature.position.y.toNat : Int) - p.y.toNat) = some dir := by
    rw [← ne_none_iff_exists']
    grind [stepDirection]
  have hsearch : search optimised (searchFor map creature p) 2 { nodes := nodes } =
      some (true, { s with found := some j, end_position := p }) := by
    rw [search, hfirst]
    dsimp only
    rw [search, hsecond]
    rfl
  have happend : appendPath s.nodes 2 p.x.toNat p.y.toNat (some 0) dirList = some (dirList ++ [dir]) := by
    rw [appendPath, hstart.1, hstart.2.1, hstart.2.2, hdir]
    rfl
  have hpath : searchPath optimised (searchFor map creature p) dirList w 2 = some (true, dirList ++ [dir], s.nodes.release) := by
    unfold searchPath
    rw [hmake]
    simp only [bind_eq_bind, bind_some, hsearch, if_true, hparent, happend]
  have hrun : (searchFor map creature p).getPathMatching dirList w 2 =
      searchPath optimised (searchFor map creature p) dirList w 2 := by
    have hcondition := @searchFor_condition map creature p hp.z creature.position creature.position rfl
    have hne : creature.position ≠ p := by
      intro heq
      rw [heq] at hx
      omega
    rw [decide_eq_false hne] at hcondition
    have hnear : ¬ max (Map.getDistanceX creature.position p) (Map.getDistanceY creature.position p) > (1 : Int) + 0 := by
      unfold Map.getDistanceX Map.getDistanceY
      omega
    unfold getPathMatching
    rw [if_neg (fun h => Bool.false_ne_true h.1), if_neg (fun h => hnear h.2.2), if_neg]
    rintro ⟨h, -⟩
    exact Bool.false_ne_true ((congrArg Prod.fst hcondition).symm.trans h)
  exact ⟨_, dir, hrun.trans hpath, rfl, rfl, (stepDirection_diagonal hdir).mpr ⟨hx, hy⟩⟩

/-- Of every way found without `allowDiagonal`. -/
def EveryWay (map : Map) (creature : PathCreature) (P : List Direction → Prop) : Prop :=
  ∀ targetPos fpp, fpp.allowDiagonal = false → ∀ dirList w fuel r, Used w →
    PathQuery.getPathMatching ⟨map, creature, targetPos, fpp⟩ dirList w fuel = some r → r.1 = true →
      ∃ dirs, r.2.1 = dirList ++ dirs ∧ P dirs

/-- The way back is put into the list, so its last direction is the first step: no other one of
    a way that is found is diagonal, and none of the ways found from a square has a diagonal one
    exactly when its corners are blocked. -/
theorem straight_after_first (map : Map) (creature : PathCreature) :
    EveryWay map creature (fun dirs => ∀ dir ∈ dirs.dropLast, dir.diagonal = false) ∧
      (EveryWay map creature (fun dirs => ∀ dir ∈ dirs, dir.diagonal = false) ↔ CornersBlocked map creature) := by
  refine ⟨?_, ?_, ?_⟩
  · intro targetPos fpp hfalse dirList w fuel r hw hr _
    obtain ⟨dirs, hdirs, hway⟩ := getPathMatching_straight (q := ⟨map, creature, targetPos, fpp⟩) hw hfalse hr
    exact ⟨dirs, hdirs, hway.after⟩
  · intro h p hp
    by_contra hwalk
    obtain ⟨r, dir, hr, hfound, hdirs, hdiagonal⟩ :=
      searchFor_finds hp (ne_none_iff_exists'.mp hwalk) Used.new.ready []
    obtain ⟨dirs, hsame, hstraight⟩ := h p (searchFor map creature p).fpp rfl [] {} 2 r Used.new hr hfound
    have hmem : dir ∈ dirs := by
      rw [hdirs, nil_append, nil_append] at hsame
      exact hsame ▸ mem_singleton_self dir
    rw [hstraight dir hmem] at hdiagonal
    exact Bool.false_ne_true hdiagonal
  · intro hblocked targetPos fpp hfalse dirList w fuel r hw hr _
    obtain ⟨dirs, hdirs, hway⟩ := getPathMatching_straight (q := ⟨map, creature, targetPos, fpp⟩) hw hfalse hr
    exact ⟨dirs, hdirs, hway.all hblocked⟩

def cornerTiles (p : Position) : Option Tile :=
  if p.z = 7 ∧ (p.x = 1000 ∧ p.y = 1000 ∨ p.x = 1001 ∧ p.y = 1001) then some { tilePos := p, id := 0 } else none

theorem cornerTiles_pos {t : Tile} (h : cornerTiles p = some t) : t.tilePos = p := by
  unfold cornerTiles at h
  split at h
  · exact (Option.some.inj h) ▸ rfl
  · cases h

def corner : PathQuery where
  map := .ofTiles cornerTiles fun _ _ h => cornerTiles_pos h
  creature :=
    { position := ⟨1000, 1000, 7⟩
      tile := cornerTiles ⟨1000, 1000, 7⟩
      queryAdd := fun _ => true
      GetTileWalkCost := fun _ => 0
      tile_pos := fun _ h => cornerTiles_pos h }
  targetPos := ⟨1001, 1001, 7⟩
  fpp := { allowDiagonal := false, maxTargetDist := 0 }

/-- The only way is over the corner, and it is taken. -/
theorem corner_cut : corner.fpp.allowDiagonal = false ∧
    (corner.getPathMatching [] {} 10).map (fun r => (r.1, r.2.1)) = some (true, [.DIRECTION_SOUTHEAST]) ∧
    Direction.diagonal .DIRECTION_SOUTHEAST = true :=
  ⟨rfl, by decide +kernel, rfl⟩

end PathQuery

end Backlands.World
