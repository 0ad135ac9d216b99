/-
  Backlands.Creatures.Refresh — the target list of a monster that has taken a step
  (src/monster.cpp): `updateTargetListAfterMovement`, which looks at the strips that come into
  sight, against `updateTargetList`, which looks at everybody.

  The worlds before and after the step differ in where the monster stands and in what that
  decides; everybody else is as before, in whatever order the leaves then list them.

  Proved: `refresh_agrees`. The two make the same valid targets of a list that
  `updateTargetList` made before the step exactly when nobody is `Overlooked`: an enemy faction
  the monster may fight only since the step, whom it has had in sight all along.
  Counterexample: `player_comes_near`.
-/

import Backlands.Creatures.Targets
import Mathlib.Data.List.Dedup

namespace Backlands.Creatures.Refresh

open List

open Backlands.World (Position CreatureId Query MAP_MAX_LAYERS maxViewportX maxViewportY)
open Backlands.World.CreatureMap (Visible)
open Targets

instance (q : Query) (p : Position) : Decidable (Visible q p) :=
  inferInstanceAs (Decidable (_ ∧ _ ∧ _ ∧ _ ∧ _ ∧ _))

/-- `hasPlayerNearby(20)` with a search of its own, over the floors near by. -/
def playerNearby (playersOnline : Nat) (w : World) : Bool :=
  let q : Query :=
    { centerPos := w.position, multifloor := true, onlyPlayers := true, minRangeX := 20, maxRangeX := 20,
      minRangeY := 20, maxRangeY := 20 }
  decide (playersOnline ≠ 0) && decide (q.centerZ < MAP_MAX_LAYERS) &&
    w.listed.any fun i => (w.creature i).any fun c => c.isPlayer && !c.removed && decide (Visible q c.position)

/-- A monster takes a step on its floor. -/
structure Stepped (playersOnline : Nat) (w w' : World) : Prop where
  self : w'.self = w.self
  others : ∀ i ≠ w.self, w'.creature i = w.creature i
  kind : (w'.creature w.self).map Creature.kind = (w.creature w.self).map Creature.kind
  listed : ∀ i, i ∈ w'.listed ↔ i ∈ w.listed
  monsterFactionSystem : w'.monsterFactionSystem = w.monsterFactionSystem
  requirePlayerNearby : w'.requirePlayerNearby = w.requirePlayerNearby
  mType : w'.mType = w.mType
  instanceId : w'.instanceId = w.instanceId
  x : ((w'.position.x.toNat : Int) - w.position.x.toNat).natAbs ≤ 1
  y : ((w'.position.y.toNat : Int) - w.position.y.toNat).natAbs ≤ 1
  z : w'.position.z = w.position.z
  nearby : w.hasPlayerNearby = playerNearby playersOnline w
  nearby' : w'.hasPlayerNearby = playerNearby playersOnline w'

/-- On the list as a valid target. -/
def Accepted (w : World) (m : Monster) (i : CreatureId) : Prop := i ∈ m.targetList ∧ w.isValidKnownTarget i = true

/-- At most one square from the middle of a strip. -/
def close (v middle : BitVec 16) : Bool := decide (((v.toNat : Int) - middle.toNat).natAbs ≤ 1)

/-- The column and the row that a step looks at, as far as they are in sight. -/
def inStrips (oldPosition newPosition pos : Position) : Bool :=
  let column := fun offset => (World.shiftedPosition newPosition offset 0).x
  let row := fun offset => (World.shiftedPosition newPosition 0 offset).y
  (decide (newPosition.x.toNat > oldPosition.x.toNat) && close pos.x (column (classicViewportX + 1))) ||
    (decide (newPosition.x.toNat < oldPosition.x.toNat) && close pos.x (column (-(classicViewportX + 1)))) ||
    (decide (newPosition.y.toNat > oldPosition.y.toNat) && close pos.y (row (classicViewportY + 1))) ||
    (decide (newPosition.y.toNat < oldPosition.y.toNat) && close pos.y (row (-(classicViewportY + 1))))

/-- A valid target of an enemy faction, of a monster that may fight it since the step, on the
    map and outside the strips. -/
structure Overlooked (w w' : World) (i : CreatureId) : Prop where
  before : w.isFactionCombatAllowed = false
  after : w'.isFactionCombatAllowed = true
  other : i ≠ w'.self
  listed : i ∈ w'.listed
  valid : w'.isValidKnownTarget i = true
  enemy : (w'.creature i).any w'.isFactionCombatTarget = true
  outside : (w'.creature i).any (fun c => !inStrips w.position w'.position c.position) = true
  floor : (w'.position.z.toNat : Int) < MAP_MAX_LAYERS

/-! ## Searches -/

section
variable {w : World} {i : CreatureId} {c : Creature} (hc : w.creature i = some c)
include hc

theorem mem_getSpectators (centerPos : Position) (rangeX rangeY : Int) :
    i ∈ w.getSpectators centerPos rangeX rangeY ↔
      (centerPos.z.toNat : Int) < MAP_MAX_LAYERS ∧ i ∈ w.listed ∧ c.removed = false ∧ c.position.z = centerPos.z ∧
        ((c.position.x.toNat : Int) - centerPos.x.toNat).natAbs ≤ (if rangeX = 0 then maxViewportX else rangeX) ∧
        ((c.position.y.toNat : Int) - centerPos.y.toNat).natAbs ≤ (if rangeY = 0 then maxViewportY else rangeY) := by
  unfold World.getSpectators
  dsimp only
  split
  · next h => simp [Int.not_lt.mpr h]
  next h =>
  rw [mem_filter, hc]
  simp only [Bool.and_eq_true, Bool.not_eq_true', decide_eq_true_eq]
  constructor
  · rintro ⟨hl, ⟨⟨⟨⟨hr, hz⟩, h1⟩, h2⟩, h3⟩, h4⟩
    exact ⟨by omega, hl, hr, hz, by omega, by omega⟩
  · rintro ⟨-, hl, hr, hz, hx, hy⟩
    exact ⟨hl, ⟨⟨⟨⟨hr, hz⟩, by omega⟩, by omega⟩, by omega⟩, by omega⟩

omit hc in
theorem canSee_iff (pos : Position) : w.canSee pos = true ↔
    pos.z = w.position.z ∧ ((pos.x.toNat : Int) - w.position.x.toNat).natAbs ≤ (9 : Int) ∧
      ((pos.y.toNat : Int) - w.position.y.toNat).natAbs ≤ (7 : Int) := by
  simp only [World.canSee, Bool.and_eq_true, decide_eq_true_eq]
  unfold classicViewportX classicViewportY
  constructor
  · rintro ⟨⟨⟨⟨hz, h1⟩, h2⟩, h3⟩, h4⟩
    exact ⟨hz, by omega, by omega⟩
  · rintro ⟨hz, hx, hy⟩
    exact ⟨⟨⟨⟨hz, by omega⟩, by omega⟩, by omega⟩, by omega⟩

/-- A full search finds whoever is in sight. -/
theorem mem_viewport (hsee : w.canSee c.position = true) :
    i ∈ w.getSpectators w.position 0 0 ↔
      (w.position.z.toNat : Int) < MAP_MAX_LAYERS ∧ i ∈ w.listed ∧ c.removed = false := by
  obtain ⟨hz, hx, hy⟩ := (canSee_iff c.position).mp hsee
  rw [mem_getSpectators hc]
  simp only [maxViewportX, maxViewportY, if_true]
  constructor
  · rintro ⟨hfloor, hl, hr, -⟩
    exact ⟨hfloor, hl, hr⟩
  · rintro ⟨hfloor, hl, hr⟩
    exact ⟨hfloor, hl, hr, hz, by omega, by omega⟩

omit hc in
theorem toNat_clamped (v : Int) : ((BitVec.ofInt 16 (max 0 (min 65535 v))).toNat : Int) = max 0 (min 65535 v) := by
  rw [BitVec.toNat_ofInt]
  omega

omit hc in
theorem close_column (v : BitVec 16) (p : Position) (offset : Int) :
    close v (World.shiftedPosition p offset 0).x = true ↔
      ((v.toNat : Int) - max 0 (min 65535 (p.x.toNat + offset))).natAbs ≤ 1 := by
  simp only [close, World.shiftedPosition, toNat_clamped, decide_eq_true_eq]

omit hc in
theorem close_row (v : BitVec 16) (p : Position) (offset : Int) :
    close v (World.shiftedPosition p 0 offset).y = true ↔
      ((v.toNat : Int) - max 0 (min 65535 (p.y.toNat + offset))).natAbs ≤ 1 := by
  simp only [close, World.shiftedPosition, toNat_clamped, decide_eq_true_eq]

omit hc in
theorem inStrips_iff (oldPosition newPosition pos : Position) : inStrips oldPosition newPosition pos = true ↔
    (oldPosition.x.toNat < newPosition.x.toNat ∧
        ((pos.x.toNat : Int) - max 0 (min 65535 ((newPosition.x.toNat : Int) + 9))).natAbs ≤ 1 ∨
      newPosition.x.toNat < oldPosition.x.toNat ∧
        ((pos.x.toNat : Int) - max 0 (min 65535 ((newPosition.x.toNat : Int) + -9))).natAbs ≤ 1) ∨
      oldPosition.y.toNat < newPosition.y.toNat ∧
        ((pos.y.toNat : Int) - max 0 (min 65535 ((newPosition.y.toNat : Int) + 7))).natAbs ≤ 1 ∨
      newPosition.y.toNat < oldPosition.y.toNat ∧
        ((pos.y.toNat : Int) - max 0 (min 65535 ((newPosition.y.toNat : Int) + -7))).natAbs ≤ 1 := by
  simp only [inStrips, Bool.or_eq_true, Bool.and_eq_true, close_column, close_row, decide_eq_true_eq, or_assoc, gt_iff_lt]
  rfl

omit hc in
/-- Of one coordinate: what is within `r` after a step, and not at the strip ahead, was so before. -/
theorem within_before {v old new r : Int} (hstep : (new - old).natAbs ≤ 1) (hv : 0 ≤ v) (hv' : v ≤ 65535) (hr : 0 ≤ r)
    (hnew : (v - new).natAbs ≤ r) (hup : ¬ (old < new ∧ (v - max 0 (min 65535 (new + r))).natAbs ≤ 1))
    (hdown : ¬ (new < old ∧ (v - max 0 (min 65535 (new + -r))).natAbs ≤ 1)) : (v - old).natAbs ≤ r := by
  omega

omit hc in
theorem toNat_le (v : BitVec 16) : (v.toNat : Int) ≤ 65535 := by
  have h := v.isLt
  omega

omit hc in
/-- Who is in sight at the new position, and not in the strips, was in sight at the old one. -/
theorem canSee_before {w' : World} (hx : ((w'.position.x.toNat : Int) - w.position.x.toNat).natAbs ≤ 1)
    (hy : ((w'.position.y.toNat : Int) - w.position.y.toNat).natAbs ≤ 1) (hz : w'.position.z = w.position.z)
    {pos : Position} (hsee : w'.canSee pos = true) (hout : inStrips w.position w'.position pos = false) :
    w.canSee pos = true := by
  rw [canSee_iff] at hsee ⊢
  have hno := mt (inStrips_iff w.position w'.position pos).mpr (by simp [hout])
  simp only [not_or] at hno
  obtain ⟨⟨heast, hwest⟩, hsouth, hnorth⟩ := hno
  refine ⟨hsee.1.trans hz, ?_, ?_⟩
  · exact within_before hx (Int.natCast_nonneg _) (toNat_le _) (by decide) hsee.2.1 (by exact_mod_cast heast)
      (by exact_mod_cast hwest)
  · exact within_before hy (Int.natCast_nonneg _) (toNat_le _) (by decide) hsee.2.2 (by exact_mod_cast hsouth)
      (by exact_mod_cast hnorth)

omit hc in
/-- A search on the side the step went to. -/
theorem mem_side {a b : Nat} {s t : List CreatureId} {p q r : Prop} (hs : i ∈ s ↔ p ∧ q) (ht : i ∈ t ↔ p ∧ r) :
    i ∈ (if a > b then s else if a < b then t else []) ↔ p ∧ (a > b ∧ q ∨ a < b ∧ r) := by
  grind

theorem mem_column (hsee : w.canSee c.position = true) (offset : Int) :
    i ∈ w.getSpectators (World.shiftedPosition w.position offset 0) 1 (classicViewportY + 1) ↔
      ((w.position.z.toNat : Int) < MAP_MAX_LAYERS ∧ i ∈ w.listed ∧ c.removed = false) ∧
        close c.position.x (World.shiftedPosition w.position offset 0).x = true := by
  obtain ⟨hz, -, hy⟩ := (canSee_iff c.position).mp hsee
  have hrow : ((World.shiftedPosition w.position offset 0).y.toNat : Int) = w.position.y.toNat := by
    simp only [World.shiftedPosition, toNat_clamped]
    omega
  rw [mem_getSpectators hc, hrow, if_neg (by decide), if_neg (by decide), close, decide_eq_true_eq]
  constructor
  · rintro ⟨hfloor, hl, hr, -, hx, -⟩
    exact ⟨⟨hfloor, hl, hr⟩, by exact_mod_cast hx⟩
  · rintro ⟨⟨hfloor, hl, hr⟩, hx⟩
    exact ⟨hfloor, hl, hr, hz, by exact_mod_cast hx, hy⟩

theorem mem_row (hsee : w.canSee c.position = true) (offset : Int) :
    i ∈ w.getSpectators (World.shiftedPosition w.position 0 offset) (classicViewportX + 1) 1 ↔
      ((w.position.z.toNat : Int) < MAP_MAX_LAYERS ∧ i ∈ w.listed ∧ c.removed = false) ∧
        close c.position.y (World.shiftedPosition w.position 0 offset).y = true := by
  obtain ⟨hz, hx, -⟩ := (canSee_iff c.position).mp hsee
  have hcolumn : ((World.shiftedPosition w.position 0 offset).x.toNat : Int) = w.position.x.toNat := by
    simp only [World.shiftedPosition, toNat_clamped]
    omega
  rw [mem_getSpectators hc, hcolumn, if_neg (by decide), if_neg (by decide), close, decide_eq_true_eq]
  constructor
  · rintro ⟨hfloor, hl, hr, -, -, hy⟩
    exact ⟨⟨hfloor, hl, hr⟩, by exact_mod_cast hy⟩
  · rintro ⟨⟨hfloor, hl, hr⟩, hy⟩
    exact ⟨hfloor, hl, hr, hz, hx, by exact_mod_cast hy⟩

theorem mem_edgeSpectators (oldPosition : Position) (hsee : w.canSee c.position = true) :
    i ∈ w.edgeSpectators oldPosition w.position ↔
      ((w.position.z.toNat : Int) < MAP_MAX_LAYERS ∧ i ∈ w.listed ∧ c.removed = false) ∧
        inStrips oldPosition w.position c.position = true := by
  have hcolumn := mem_column hc hsee
  have hrow := mem_row hc hsee
  rw [World.edgeSpectators, mem_dedup, mem_append, inStrips]
  simp only [Bool.or_eq_true, Bool.and_eq_true, decide_eq_true_eq]
  rw [mem_side (hcolumn _) (hcolumn _), mem_side (hrow _) (hrow _), ← and_or_left]
  simp only [or_assoc]

/-! ## What is left of a list -/

theorem mem_clearFaction (m : Monster) : i ∈ (m.clearFactionTargetIfNotAllowed w).2.targetList ↔
    i ∈ m.targetList ∧ (w.isFactionCombatTarget c = true → w.isFactionCombatAllowed = true) := by
  unfold Monster.clearFactionTargetIfNotAllowed
  dsimp only
  split
  · next h =>
    refine ⟨fun hi => ⟨hi, fun ht => ?_⟩, And.left⟩
    have hany : m.targetList.any (fun i => (w.creature i).any w.isFactionCombatTarget) = true :=
      any_eq_true.mpr ⟨i, hi, by simp [hc, ht]⟩
    simpa [hany] using h
  · next h =>
    have hno : w.isFactionCombatAllowed = false := by
      simp only [Bool.or_eq_true, not_or] at h
      simpa using h.2
    simp [hc, hno]

theorem mem_scan (m : Monster) (spectators : List CreatureId) :
    i ∈ (((m.pruneInvalidTargetState w).2.foundAll w (spectators.erase w.self)).clearFactionTargetIfNotAllowed w).2.targetList ↔
      (i ∈ m.targetList ∧ w.isValidKnownTarget i = true ∨ i ∈ spectators ∧ w.noticed i = true) ∧
        (w.isFactionCombatTarget c = true → w.isFactionCombatAllowed = true) := by
  rw [mem_clearFaction hc, (Monster.foundAll_spec _ _).1 i, Monster.mem_erase_self, Monster.prune_targetList,
    mem_filter]

theorem mem_updateTargetList (m : Monster) : i ∈ (m.updateTargetList w).targetList ↔
    (i ∈ m.targetList ∧ w.isValidKnownTarget i = true ∨ i ∈ w.getSpectators w.position 0 0 ∧ w.noticed i = true) ∧
      (w.isFactionCombatTarget c = true → w.isFactionCombatAllowed = true) := by
  rw [← mem_scan hc m]
  simp [Monster.updateTargetList]

theorem mem_afterMovement (m : Monster) (oldPosition newPosition : Position) :
    i ∈ (m.updateTargetListAfterMovement w oldPosition newPosition).targetList ↔
      (i ∈ m.targetList ∧ w.isValidKnownTarget i = true ∨
          i ∈ w.edgeSpectators oldPosition newPosition ∧ w.noticed i = true) ∧
        (w.isFactionCombatTarget c = true → w.isFactionCombatAllowed = true) := by
  rw [← mem_scan hc m, Monster.updateTargetListAfterMovement, Monster.refreshed_targetList]

end

/-! ## The step -/

variable {i : CreatureId} {w : World}

theorem valid_spec (hv : w.isValidKnownTarget i = true) :
    ∃ c, w.creature i = some c ∧ c.removed = false ∧ c.isDead = false ∧ w.canSee c.position = true ∧
      w.canSeeCreature c = true := by
  rcases hc : w.creature i with _ | c
  · simp [World.isValidKnownTarget, hc] at hv
  · simp only [World.isValidKnownTarget, hc, Bool.and_eq_true, Bool.not_eq_true'] at hv
    exact ⟨c, rfl, hv.1.1.1.1.1.1.1, hv.1.1.1.1.1.1.2, hv.1.1.1.2, hv.1.1.2⟩

theorem full_of_afterMovement {m : Monster} (oldPosition : Position) (hv : w.isValidKnownTarget i = true)
    (hi : i ∈ (m.updateTargetListAfterMovement w oldPosition w.position).targetList) :
    i ∈ (m.updateTargetList w).targetList := by
  obtain ⟨c, hc, -, -, hsee, -⟩ := valid_spec hv
  rw [mem_afterMovement hc, mem_edgeSpectators hc _ hsee] at hi
  rw [mem_updateTargetList hc, mem_viewport hc hsee]
  exact ⟨hi.1.imp_right fun hl => ⟨hl.1.1, hl.2⟩, hi.2⟩

theorem opponent_of_enemy {c : Creature} (hi : i ≠ w.self) (hr : c.removed = false) (hd : c.isDead = false)
    (ht : w.isFactionCombatTarget c = true) (ha : w.isFactionCombatAllowed = true) : w.isOpponent i c = true := by
  grind [World.isFactionCombatTarget, World.isOpponent, World.canAttackByFaction]

section
variable {playersOnline : Nat} {w w' : World} (h : Stepped playersOnline w w')
include h

theorem master_step (c : Creature) : (w'.getMaster c).map Creature.kind = (w.getMaster c).map Creature.kind := by
  rcases hm : c.master with _ | j
  · simp [World.getMaster, hm]
  · by_cases hj : j = w.self
    · simpa [World.getMaster, hm, hj] using h.kind
    · simp [World.getMaster, hm, h.others j hj]

theorem summon_step (c : Creature) : w'.isSummon c = w.isSummon c := by
  have hsome := congrArg Option.isSome (master_step h c)
  simpa [World.isSummon] using hsome

theorem ownedByPlayer_step (c : Creature) : (w'.getMaster c).any Creature.isPlayer = (w.getMaster c).any Creature.isPlayer := by
  have hmap := master_step h c
  rcases hm : w.getMaster c with _ | a <;> rcases hm' : w'.getMaster c with _ | a'
  · rfl
  · simp [hm, hm'] at hmap
  · simp [hm, hm'] at hmap
  · have hkind : a'.kind = a.kind := by simpa [hm, hm'] using hmap
    simp [Creature.isPlayer, hkind]

theorem enemy_step (c : Creature) : w'.isFactionCombatTarget c = w.isFactionCombatTarget c := by
  simp only [World.isFactionCombatTarget, World.isEnemyFaction, h.mType, summon_step h]

theorem sees_step (c : Creature) : w'.canSeeCreature c = w.canSeeCreature c := by
  simp only [World.canSeeCreature, h.mType, h.instanceId]

theorem opponent_before {c : Creature} (ho : w'.isOpponent i c = true)
    (hf : w'.isFactionCombatTarget c = true → w.isFactionCombatAllowed = true) : w.isOpponent i c = true := by
  rw [enemy_step h] at hf
  simp only [World.isOpponent, Bool.and_eq_true, h.self] at ho ⊢
  refine ⟨ho.1, ?_⟩
  rcases hk : c.kind with b | f | _
  · simpa [hk] using ho.2
  · simp only [hk, Bool.or_eq_true, ownedByPlayer_step h, World.canAttackByFaction, Bool.and_eq_true, enemy_step h] at ho ⊢
    grind
  · simp [hk] at ho

variable {m m₀ : Monster} (hm : m.targetList = (m₀.updateTargetList w).targetList) {i : CreatureId}
include hm

theorem missed_iff (hv : w'.isValidKnownTarget i = true) :
    (i ∈ (m.updateTargetList w').targetList ∧ i ∉ (m.updateTargetListAfterMovement w' w.position w'.position).targetList) ↔
      Overlooked w w' i := by
  obtain ⟨c, hc, hr, hd, hsee, hsees⟩ := valid_spec hv
  rw [mem_updateTargetList hc, mem_afterMovement hc, mem_viewport hc hsee, mem_edgeSpectators hc _ hsee]
  constructor
  · rintro ⟨⟨hfull, hfaction⟩, hno⟩
    have hunlisted : i ∉ m.targetList := fun hl => hno ⟨.inl ⟨hl, hv⟩, hfaction⟩
    obtain ⟨hfound, hn⟩ : ((w'.position.z.toNat : Int) < MAP_MAX_LAYERS ∧ i ∈ w'.listed ∧ c.removed = false) ∧
        w'.noticed i = true := hfull.resolve_left fun hl => hunlisted hl.1
    have hout : inStrips w.position w'.position c.position = false :=
      Bool.eq_false_iff.mpr fun hin => hno ⟨.inr ⟨⟨hfound, hin⟩, hn⟩, hfaction⟩
    have hother : i ≠ w'.self := by
      rintro rfl
      simp [Monster.not_noticed_self] at hn
    have hold : w.creature i = some c := by rw [← h.others i (h.self ▸ hother), hc]
    obtain ⟨d, hcd, -, -, ho⟩ := noticed_iff.mp hn
    obtain rfl : c = d := Option.some.inj (hc.symm.trans hcd)
    have hsee' : w.canSee c.position = true := canSee_before h.x h.y h.z hsee hout
    -- were it an opponent before the step, the old list would have it
    have hnew : ¬ (w'.isFactionCombatTarget c = true → w.isFactionCombatAllowed = true) := by
      intro hf
      refine hunlisted ?_
      rw [hm, mem_updateTargetList hold, mem_viewport hold hsee', ← enemy_step h]
      refine ⟨.inr ⟨⟨h.z ▸ hfound.1, (h.listed i).mp hfound.2.1, hr⟩, ?_⟩, hf⟩
      exact noticed_iff.mpr ⟨c, hold, hsee', (sees_step h c).symm.trans hsees, opponent_before h ho hf⟩
    obtain ⟨henemy, hbefore⟩ := Classical.not_imp.mp hnew
    exact
      { before := Bool.eq_false_iff.mpr hbefore
        after := hfaction henemy
        other := hother
        listed := hfound.2.1
        valid := hv
        enemy := by simpa [hc] using henemy
        outside := by simpa [hc] using hout
        floor := hfound.1 }
  · intro ho
    have henemy : w'.isFactionCombatTarget c = true := by simpa [hc] using ho.enemy
    have hout : inStrips w.position w'.position c.position = false := by simpa [hc] using ho.outside
    have hold : w.creature i = some c := by rw [← h.others i (h.self ▸ ho.other), hc]
    have hunlisted : i ∉ m.targetList := by
      rw [hm, mem_updateTargetList hold, ← enemy_step h]
      simp [ho.before, henemy]
    have hn : w'.noticed i = true :=
      noticed_iff.mpr ⟨c, hc, hsee, hsees, opponent_of_enemy ho.other hr hd henemy ho.after⟩
    refine ⟨⟨.inr ⟨⟨ho.floor, ho.listed, hr⟩, hn⟩, fun _ => ho.after⟩, ?_⟩
    simp [hunlisted, hout]

end

/-- After a step the strips make the valid targets of the list that the full search makes
    exactly when nobody is overlooked. -/
theorem refresh_agrees {playersOnline : Nat} {w w' : World} (h : Stepped playersOnline w w') {m m₀ : Monster}
    (hm : m.targetList = (m₀.updateTargetList w).targetList) :
    (∀ i, Accepted w' (m.updateTargetListAfterMovement w' w.position w'.position) i ↔ Accepted w' (m.updateTargetList w') i) ↔
      ∀ i, ¬ Overlooked w w' i := by
  refine forall_congr' fun i => ?_
  by_cases hv : w'.isValidKnownTarget i = true
  · have hmissed := missed_iff h hm hv
    have hfull : i ∈ (m.updateTargetListAfterMovement w' w.position w'.position).targetList →
        i ∈ (m.updateTargetList w').targetList := full_of_afterMovement _ hv
    simp only [Accepted, hv, and_true, ← hmissed, not_and, not_not]
    exact ⟨Iff.mpr, fun hi => ⟨hfull, hi⟩⟩
  · exact iff_of_true (by simp [Accepted, hv]) fun ho => hv ho.valid

/-! ## A step east -/

/-- A monster of faction 1, whose enemies are of faction 2, among others. -/
def scene (requirePlayerNearby : Bool) (others : CreatureId → Option Creature) (position : Position) : World :=
  let w : World :=
    { creature := fun i => if i = 1 then some { kind := .monster 1, position } else others i
      listed := [1, 2, 3, 4]
      monsterFactionSystem := true
      requirePlayerNearby
      self := 1
      mType := { faction := 1, enemyFactions := [2] }
      position }
  { w with hasPlayerNearby := playerNearby 1 w }

theorem scene_stepped (requirePlayerNearby : Bool) (others : CreatureId → Option Creature) {p p' : Position}
    (hx : ((p'.x.toNat : Int) - p.x.toNat).natAbs ≤ 1) (hy : ((p'.y.toNat : Int) - p.y.toNat).natAbs ≤ 1) (hz : p'.z = p.z) :
    Stepped 1 (scene requirePlayerNearby others p) (scene requirePlayerNearby others p') where
  self := rfl
  others i hi := by
    have hne : i ≠ 1 := hi
    simp [scene, hne]
  kind := rfl
  listed _ := Iff.rfl
  monsterFactionSystem := rfl
  requirePlayerNearby := rfl
  mType := rfl
  instanceId := rfl
  x := hx
  y := hy
  z := hz
  nearby := rfl
  nearby' := rfl

/-- One enemy next to the monster, another ten squares to the east of it. -/
def enemies : CreatureId → Option Creature := fun i =>
  if i = 2 then some { kind := .monster 2, position := ⟨940, 501, 7⟩ }
  else if i = 3 then some { kind := .monster 2, position := ⟨950, 500, 7⟩ }
  else none

def field (x : BitVec 16) : World := scene false enemies ⟨x, 500, 7⟩

/-- A step finds the enemy that it brings into sight. -/
theorem stationary_target_found :
    (∀ i, Accepted (field 941)
        ((Monster.updateTargetList (field 940) {}).updateTargetListAfterMovement (field 941) ⟨940, 500, 7⟩ ⟨941, 500, 7⟩) i ↔
      Accepted (field 941) ((Monster.updateTargetList (field 940) {}).updateTargetList (field 941)) i) ∧
    (Monster.updateTargetList (field 940) {}).targetList = [2] ∧
    ((Monster.updateTargetList (field 940) {}).updateTargetList (field 941)).targetList = [2, 3] := by
  have hstep : Stepped 1 (field 940) (field 941) := scene_stepped false enemies (by decide) (by decide) rfl
  refine ⟨(@refresh_agrees 1 _ _ hstep (Monster.updateTargetList (field 940) {}) {} rfl).mpr fun i ho => ?_, by decide, by decide⟩
  have hbefore : (field 940).isFactionCombatAllowed = false := ho.before
  exact absurd hbefore (by decide)

/-- An enemy in sight, a player far off and a summon of the player. -/
def ambush : CreatureId → Option Creature := fun i =>
  if i = 2 then some { kind := .monster 2, position := ⟨105, 100, 7⟩ }
  else if i = 3 then some { kind := .player false, position := ⟨121, 100, 7⟩ }
  else if i = 4 then some { kind := .monster 0, position := ⟨102, 100, 7⟩, master := some 3 }
  else none

def road (x : BitVec 16) : World := scene true ambush ⟨x, 100, 7⟩

/-- The step brings the player within 20 squares: the full search makes a target of the enemy,
    the search of the strips leaves the summon alone on the list. -/
theorem player_comes_near :
    ((Monster.updateTargetList (road 100) {}).updateTargetListAfterMovement (road 101) ⟨100, 100, 7⟩ ⟨101, 100, 7⟩).targetList = [4] ∧
    ((Monster.updateTargetList (road 100) {}).updateTargetList (road 101)).targetList = [4, 2] ∧
    ¬ ∀ (playersOnline : Nat) (w w' : World) (m m₀ : Monster), Stepped playersOnline w w' →
      m.targetList = (m₀.updateTargetList w).targetList →
      ∀ i, Accepted w' (m.updateTargetListAfterMovement w' w.position w'.position) i ↔ Accepted w' (m.updateTargetList w') i := by
  refine ⟨by decide, by decide, fun h => ?_⟩
  have hstep : Stepped 1 (road 100) (road 101) := scene_stepped true ambush (by decide) (by decide) rfl
  have hsame := h 1 (road 100) (road 101) (Monster.updateTargetList (road 100) {}) {} hstep rfl 2
  exact absurd (hsame.mpr ⟨by decide, by decide⟩).1 (by decide)

end Backlands.Creatures.Refresh
