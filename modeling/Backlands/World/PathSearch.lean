/-
  Backlands.World.PathSearch — the search for a way (src/map.cpp, src/creature.cpp).

  `getPathMatching` first rejects or accepts what it can tell at once, and then runs an A*
  search over the tiles of one floor until a square meets the path condition. A node tries
  only the neighbours that its parent has not covered, and tiles are read through the leaf
  and the floor of the last one. `plainSearch` is the same loop as one would write it first:
  no early exits, every neighbour, every tile from the map.

  A search is given the turns it may take; `none` is a search that has not ended in them, or
  a look into the table of nodes that would not end.
-/

import Backlands.World.AStarNodes
import Backlands.World.Sight

namespace Backlands.World

open Backlands.Lib
open Query (int32)

inductive Direction where
  | DIRECTION_NORTH
  | DIRECTION_EAST
  | DIRECTION_SOUTH
  | DIRECTION_WEST
  | DIRECTION_SOUTHWEST
  | DIRECTION_SOUTHEAST
  | DIRECTION_NORTHWEST
  | DIRECTION_NORTHEAST
  deriving DecidableEq

def getNextPosition (direction : Direction) (pos : Position) : Position :=
  match direction with
  | .DIRECTION_NORTH => { pos with y := pos.y - 1 }
  | .DIRECTION_SOUTH => { pos with y := pos.y + 1 }
  | .DIRECTION_WEST => { pos with x := pos.x - 1 }
  | .DIRECTION_EAST => { pos with x := pos.x + 1 }
  | .DIRECTION_SOUTHWEST => { pos with x := pos.x - 1, y := pos.y + 1 }
  | .DIRECTION_NORTHWEST => { pos with x := pos.x - 1, y := pos.y - 1 }
  | .DIRECTION_NORTHEAST => { pos with x := pos.x + 1, y := pos.y - 1 }
  | .DIRECTION_SOUTHEAST => { pos with x := pos.x + 1, y := pos.y + 1 }

structure FindPathParams where
  fullPathSearch : Bool := true
  clearSight : Bool := true
  allowDiagonal : Bool := true
  keepDistance : Bool := false
  maxSearchDist : Int := 0
  minTargetDist : Int := -1
  maxTargetDist : Int := -1

structure PathCreature where
  position : Position
  tile : Option Tile
  /-- `tile->queryAdd(0, creature, 1, flags) == RETURNVALUE_NOERROR` -/
  queryAdd : Tile → Bool
  GetTileWalkCost : Tile → Nat
  /-- `setParent` sets both. -/
  tile_pos : ∀ t, tile = some t → t.tilePos = position

/-- What a search is asked. -/
structure PathQuery where
  map : Map
  creature : PathCreature
  targetPos : Position
  fpp : FindPathParams

namespace PathQuery

variable (q : PathQuery)

def start : Position := q.creature.position

/-! ## The path condition -/

/-- `FrozenPathingConditionCall::isInRange` -/
def isInRange (startPos testPos : Position) : Bool :=
  let x : Int := testPos.x.toNat
  let y : Int := testPos.y.toNat
  let targetX : Int := q.targetPos.x.toNat
  let targetY : Int := q.targetPos.y.toNat
  if q.fpp.fullPathSearch then
    !(decide (x > int32 (targetX + q.fpp.maxTargetDist)) || decide (x < int32 (targetX - q.fpp.maxTargetDist)) ||
      decide (y > int32 (targetY + q.fpp.maxTargetDist)) || decide (y < int32 (targetY - q.fpp.maxTargetDist)))
  else
    let dx : Int := startPos.x.toNat - targetX
    let dxMax := if dx ≥ 0 then q.fpp.maxTargetDist else 0
    let dxMin := if dx ≤ 0 then q.fpp.maxTargetDist else 0
    let dy : Int := startPos.y.toNat - targetY
    let dyMax := if dy ≥ 0 then q.fpp.maxTargetDist else 0
    let dyMin := if dy ≤ 0 then q.fpp.maxTargetDist else 0
    !(decide (x > int32 (targetX + dxMax)) || decide (x < int32 (targetX - dxMin)) ||
      decide (y > int32 (targetY + dyMax)) || decide (y < int32 (targetY - dyMin)))

def testDist (testPos : Position) : Int := max (Map.getDistanceX q.targetPos testPos) (Map.getDistanceY q.targetPos testPos)

/-- `FrozenPathingConditionCall::operator()`: the answer and `bestMatchDist`. -/
def pathCondition (startPos testPos : Position) (bestMatchDist : Int) : Bool × Int :=
  if !q.isInRange startPos testPos then (false, bestMatchDist)
  else if q.fpp.clearSight && !q.map.isSightClear testPos q.targetPos true then (false, bestMatchDist)
  else if q.fpp.maxTargetDist = 1 then
    if q.testDist testPos < q.fpp.minTargetDist ∨ q.testDist testPos > q.fpp.maxTargetDist then (false, bestMatchDist)
    else (true, bestMatchDist)
  else if q.testDist testPos ≤ q.fpp.maxTargetDist then
    if q.testDist testPos < q.fpp.minTargetDist then (false, bestMatchDist)
    else if q.testDist testPos = q.fpp.maxTargetDist then (true, 0)
    else if q.testDist testPos > bestMatchDist then (true, q.testDist testPos)
    else (false, bestMatchDist)
  else (false, bestMatchDist)

end PathQuery

/-! ## Tiles -/

/-- The leaf and the floor of the last tile. -/
structure PathLeaf where
  pathLeaf : Option LeafId := none
  pathFloor : Option TileFloor := none
  pathLeafBaseX : BitVec 16 := 0
  pathLeafBaseY : BitVec 16 := 0
  pathFloorZ : BitVec 8 := 16

namespace PathLeaf

def loadLeaf (map : Map) (p : Position) (c : PathLeaf) : PathLeaf :=
  if c.pathLeaf = none ∨ p.x &&& ~~~7 ≠ c.pathLeafBaseX ∨ p.y &&& ~~~7 ≠ c.pathLeafBaseY then
    { c with
      pathLeaf := getLeaf map.root (p.x.setWidth 32) (p.y.setWidth 32)
      pathLeafBaseX := p.x &&& ~~~7
      pathLeafBaseY := p.y &&& ~~~7
      pathFloorZ := 16 }
  else c

def loadFloor (map : Map) (p : Position) (c : PathLeaf) : PathLeaf :=
  if c.pathFloorZ ≠ p.z then
    { c with
      pathFloor := c.pathLeaf.bind fun leaf => map.floors leaf p.z
      pathFloorZ := p.z }
  else c

end PathLeaf

def getPathTile (map : Map) (p : Position) (c : PathLeaf) : Option Tile × PathLeaf :=
  if (p.z.toNat : Int) ≥ MAP_MAX_LAYERS then (none, c)
  else
    let c := (c.loadLeaf map p).loadFloor map p
    (c.pathFloor.bind fun floor => floor.getTile p.x p.y, c)

/-- The check of `canWalkToForPath` on the tile of a square. -/
def canWalkToForPath (creature : PathCreature) (tile : Option Tile) : Option Tile :=
  if creature.tile ≠ tile then
    match tile with
    | none => none
    | some t => if creature.queryAdd t then some t else none
  else tile

/-! ## Neighbours -/

def dirNeighbors : Direction → List (Int × Int)
  | .DIRECTION_NORTH => [(-1, 0), (0, 1), (1, 0), (1, 1), (-1, 1)]
  | .DIRECTION_EAST => [(-1, 0), (0, 1), (0, -1), (-1, -1), (-1, 1)]
  | .DIRECTION_SOUTH => [(-1, 0), (1, 0), (0, -1), (-1, -1), (1, -1)]
  | .DIRECTION_WEST => [(0, 1), (1, 0), (0, -1), (1, -1), (1, 1)]
  | .DIRECTION_SOUTHWEST => [(1, 0), (0, -1), (-1, -1), (1, -1), (1, 1)]
  | .DIRECTION_SOUTHEAST => [(-1, 0), (0, -1), (-1, -1), (1, -1), (-1, 1)]
  | .DIRECTION_NORTHWEST => [(0, 1), (1, 0), (1, -1), (1, 1), (-1, 1)]
  | .DIRECTION_NORTHEAST => [(-1, 0), (0, 1), (-1, -1), (1, 1), (-1, 1)]

def allNeighbors : List (Int × Int) := [(-1, 0), (0, 1), (1, 0), (0, -1), (-1, -1), (1, -1), (1, 1), (-1, 1)]

def parentDirection (allowDiagonal : Bool) (x_offset y_offset : Int) : Direction :=
  if y_offset = 0 then if x_offset = -1 then .DIRECTION_WEST else .DIRECTION_EAST
  else if !allowDiagonal || x_offset = 0 then if y_offset = -1 then .DIRECTION_NORTH else .DIRECTION_SOUTH
  else if y_offset = -1 then if x_offset = -1 then .DIRECTION_NORTHWEST else .DIRECTION_NORTHEAST
  else if x_offset = -1 then .DIRECTION_SOUTHWEST
  else .DIRECTION_SOUTHEAST

def prunedNeighbors (allowDiagonal : Bool) (node : AStarNode) : Option AStarNode → List (Int × Int)
  | some parent =>
    let direction := parentDirection allowDiagonal ((parent.x.toNat : Int) - node.x.toNat) ((parent.y.toNat : Int) - node.y.toNat)
    (dirNeighbors direction).take (if allowDiagonal then 5 else 3)
  | none => allNeighbors

/-- Every neighbour that a node may try. -/
def allowedNeighbors (allowDiagonal : Bool) (_ : AStarNode) : Option AStarNode → List (Int × Int)
  | some _ => allNeighbors.take (if allowDiagonal then 8 else 4)
  | none => allNeighbors

/-- What the two searches differ in. -/
structure Variant where
  neighbors : Bool → AStarNode → Option AStarNode → List (Int × Int)
  getTile : Map → Position → PathLeaf → Option Tile × PathLeaf

def optimised : Variant := { neighbors := prunedNeighbors, getTile := getPathTile }

def plain : Variant := { neighbors := allowedNeighbors, getTile := fun map p c => (map.getTile p, c) }

/-! ## The search -/

structure PathSearch where
  nodes : AStarNodes
  best_match : Int := 0
  found : Option Nat := none
  end_position : Position := ⟨0, 0, 0⟩
  leaf : PathLeaf := {}

/-- The square `d` away. -/
def Position.shift (p : Position) (d : Int × Int) : Position :=
  { p with x := p.x + BitVec.ofInt 16 d.1, y := p.y + BitVec.ofInt 16 d.2 }

namespace PathQuery

variable (v : Variant) (q : PathQuery)

def squareOf (node : AStarNode) : Position := ⟨node.x, node.y, q.start.z⟩

/-- The checks on a neighbour before its tile is read. -/
def skips (position : Position) : Bool :=
  (decide (q.fpp.maxSearchDist ≠ 0) &&
    (decide ((((position.x.toNat : Int) - q.start.x.toNat).natAbs : Int) > q.fpp.maxSearchDist) ||
      decide ((((position.y.toNat : Int) - q.start.y.toNat).natAbs : Int) > q.fpp.maxSearchDist))) ||
  (q.fpp.keepDistance && !q.isInRange q.start position)

def walkCost (d : Int × Int) : Nat := if d.1 ≠ 0 ∧ d.2 ≠ 0 then MAP_DIAGONALWALKCOST else MAP_NORMALWALKCOST

def estimate (position : Position) : Nat :=
  (((position.x.toNat : Int) - q.targetPos.x.toNat).natAbs + ((position.y.toNat : Int) - q.targetPos.y.toNat).natAbs) *
    MAP_NORMALWALKCOST

/-- A neighbour was tried, or there was no node left for it. -/
inductive Tried where
  | next (s : PathSearch)
  | full (s : PathSearch)

/-- One turn of the inner loop, from a node with its square and its `g_score`. -/
def tryNeighbor (nodeIdx : Nat) (node : AStarNode) (d : Int × Int) (s : PathSearch) : Option Tried := do
  let position := (q.squareOf node).shift d
  if q.skips position then some (.next s)
  else
    let neighborNodeIdx ← s.nodes.GetNodeByPosition position.x position.y
    let (tile, leaf) := v.getTile q.map position s.leaf
    let s := { s with leaf := leaf }
    match if neighborNodeIdx.isSome then tile else canWalkToForPath q.creature tile with
    | none => some (.next s)
    | some tile =>
      let neighbor_g_score := node.g_score + walkCost d + q.creature.GetTileWalkCost tile
      let neighbor_f_score := neighbor_g_score + q.estimate position
      match neighborNodeIdx with
      | some i =>
        if (s.nodes.GetNode i).f ≤ neighbor_f_score then some (.next s)
        else
          let node := { s.nodes.GetNode i with f := neighbor_f_score, g_score := neighbor_g_score, parent := some nodeIdx }
          some (.next { s with nodes := { s.nodes with nodes := s.nodes.nodes.write i node }.OpenNode i })
      | none =>
        let (nodes, created) ← s.nodes.CreateOpenNode nodeIdx position.x position.y neighbor_f_score neighbor_g_score
        let s := { s with nodes := nodes }
        some (if created.isSome then .next s else .full s)

/-- The inner loop. -/
def expand (nodeIdx : Nat) (node : AStarNode) : List (Int × Int) → PathSearch → Option Tried
  | [], s => some (.next s)
  | d :: ds, s =>
    match tryNeighbor v q nodeIdx node d s with
    | none => none
    | some (.next s) => expand nodeIdx node ds s
    | some (.full s) => some (.full s)

inductive Turn where
  | again (s : PathSearch)
  | done (s : PathSearch)
  | failed (s : PathSearch)

def look (nodeIdx : Nat) (s : PathSearch) : Bool × PathSearch :=
  let position := q.squareOf (s.nodes.GetNode nodeIdx)
  let condition := q.pathCondition q.start position s.best_match
  let s := { s with best_match := condition.2 }
  (condition.1, if condition.1 then { s with found := some nodeIdx, end_position := position } else s)

def turn (s : PathSearch) : Option Turn :=
  if ¬(q.fpp.maxSearchDist ≠ 0 ∨ s.nodes.closed_nodes < 100) then some (.done s)
  else
    match s.nodes.GetBestNode with
    | none => some (if s.found.isSome then .done s else .failed s)
    | some nodeIdx =>
      let node := s.nodes.GetNode nodeIdx
      let (isMatch, s) := q.look nodeIdx s
      if isMatch ∧ s.best_match = 0 then some (.done s)
      else
        let neighbors := v.neighbors q.fpp.allowDiagonal node (node.parent.map s.nodes.GetNode)
        match expand v q nodeIdx node neighbors s with
        | none => none
        | some (.next s) => some (.again { s with nodes := s.nodes.CloseNode nodeIdx })
        | some (.full s) =>
          some (if s.found.isSome then .again { s with nodes := s.nodes.CloseNode nodeIdx } else .failed s)

/-- The loop, with the answer: whether a square was found. -/
def search : Nat → PathSearch → Option (Bool × PathSearch)
  | 0, _ => none
  | n + 1, s =>
    match turn v q s with
    | none => none
    | some (.again s) => search n s
    | some (.done s) => some (s.found.isSome, s)
    | some (.failed s) => some (false, s)

end PathQuery

/-! ## The directions -/

/-- The direction from a square to the next, from the offset back. -/
def stepDirection (dx dy : Int) : Option Direction :=
  if dx = 1 ∧ dy = 1 then some .DIRECTION_NORTHWEST
  else if dx = -1 ∧ dy = 1 then some .DIRECTION_NORTHEAST
  else if dx = 1 ∧ dy = -1 then some .DIRECTION_SOUTHWEST
  else if dx = -1 ∧ dy = -1 then some .DIRECTION_SOUTHEAST
  else if dx = 1 then some .DIRECTION_WEST
  else if dx = -1 then some .DIRECTION_EAST
  else if dy = 1 then some .DIRECTION_NORTH
  else if dy = -1 then some .DIRECTION_SOUTH
  else none

/-- The loop over the parents, from a square of which the parent is `found`. -/
def appendPath (nodes : AStarNodes) : Nat → Int → Int → Option Nat → List Direction → Option (List Direction)
  | _, _, _, none, dirList => some dirList
  | 0, _, _, some _, _ => none
  | n + 1, prevx, prevy, some found, dirList =>
    let node := nodes.GetNode found
    let dx := node.x.toNat - prevx
    let dy := node.y.toNat - prevy
    appendPath nodes n node.x.toNat node.y.toNat node.parent (dirList ++ (stepDirection dx dy).toList)

namespace PathQuery

variable (v : Variant) (q : PathQuery)

/-- The answer, the directions and the workspace that is left. -/
abbrev PathResult := Bool × List Direction × AStarWorkspace

/-- What follows the early exits. -/
def searchPath (dirList : List Direction) (w : AStarWorkspace) (fuel : Nat) : Option PathResult := do
  let nodes ← AStarNodes.make q.start.x q.start.y w
  let (success, s) ← search v q fuel { nodes := nodes }
  if success then
    let parent := s.found.bind fun found => (s.nodes.GetNode found).parent
    let dirList ← appendPath s.nodes fuel s.end_position.x.toNat s.end_position.y.toNat parent dirList
    some (true, dirList, s.nodes.release)
  else some (false, dirList, s.nodes.release)

def getPathMatching (dirList : List Direction) (w : AStarWorkspace) (fuel : Nat) : Option PathResult :=
  let startChebyshev := max (Map.getDistanceX q.start q.targetPos) (Map.getDistanceY q.start q.targetPos)
  let condition := q.pathCondition q.start q.start 0
  if q.fpp.clearSight ∧ q.start.z ≠ q.targetPos.z then some (false, dirList, w)
  else if q.fpp.maxSearchDist > 0 ∧ q.fpp.maxTargetDist ≥ 0 ∧ startChebyshev > q.fpp.maxSearchDist + q.fpp.maxTargetDist then
    some (false, dirList, w)
  else if condition.1 ∧ condition.2 = 0 then some (true, dirList, w)
  else searchPath optimised q dirList w fuel

/-- The search without the early exits, the choice of neighbours and the last leaf. -/
def plainSearch (dirList : List Direction) (w : AStarWorkspace) (fuel : Nat) : Option PathResult :=
  searchPath plain q dirList w fuel

end PathQuery

end Backlands.World
