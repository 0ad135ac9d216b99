/-
  Backlands.Tiles.Order — the order of the things on a tile and their three kinds of index
  (src/tile.cpp, src/instance_utils.h, src/player.cpp).

  The vector holds the down items and then the top items by their order; the server counts
  ground, top items, creatures and down items, and a client the same, less what the viewer
  does not see and with the creatures the other way round. What lies on a tile lies on no
  creature, so `canSeeItemInInstance` has two cases here.

  Proved: `tile_order`.
-/

import Backlands.Lib.Views
import Backlands.Tiles.Flags

namespace Backlands.Tiles

open Backlands.Lib List

/-! ## Viewers -/

/-- A player as a viewer; `access` is the group's. -/
structure Viewer where
  ptr : Nat
  instanceID : Nat
  access : Bool
  canSeeInvisibility : Bool

def canSeeItemInInstance (viewerInstanceId : Nat) (a : Item) : Bool :=
  a.instanceID = viewerInstanceId || (a.instanceID = 0 && a.loadedFromMap)

def Creature.isPlayer (c : Creature) : Bool :=
  match c.kind with
  | .player .. => true
  | _ => false

def Viewer.canSeeCreature (v : Viewer) (c : Creature) : Bool :=
  if c.ptr = v.ptr then true
  else if v.instanceID ≠ c.instanceID then false
  else if c.isInGhostMode && !v.access then false
  else if !c.isPlayer && !v.canSeeInvisibility && c.invisible then false
  else true

namespace Tile

variable (items : Items) (t : Tile) (v : Viewer)

def sees (a : Item) : Bool := canSeeItemInInstance v.instanceID a

def getClientIndexOfCreature (c : Creature) : Option Nat :=
  indexAmong v.canSeeCreature (·.ptr = c.ptr) t.creatures.reverse (t.groundCount + t.topItems.countP (sees v))

def getStackposOfItem (a : Item) : Option Nat :=
  if t.ground.any (·.ptr = a.ptr) then some 0
  else if items.isAlwaysOnTop a then indexAmong (sees v) (·.ptr = a.ptr) t.topItems t.groundCount
  else indexAmong (sees v) (·.ptr = a.ptr) t.downItems
    (t.groundCount + t.topItems.countP (sees v) + t.creatures.countP v.canSeeCreature)

/-- `getThing` for a player. -/
def getThingFor (index : Nat) : Option Thing :=
  if t.ground.isSome && index = 0 then t.ground.map .item
  else
    match pick (sees v) t.topItems (index - t.groundCount) with
    | .inl a => some (.item a)
    | .inr index =>
      match pick v.canSeeCreature t.creatures.reverse index with
      | .inl c => some (.creature c)
      | .inr index =>
        match pick (sees v) t.downItems index with
        | .inl a => some (.item a)
        | .inr _ => none

end Tile

/-! ## What holds in every state -/

structure Ordered (items : Items) (t : Tile) : Prop where
  down : ∀ a ∈ t.downItems, items.isAlwaysOnTop a = false
  top : ∀ a ∈ t.topItems, items.isAlwaysOnTop a = true
  sorted : t.topItems.Pairwise fun a b => (items a.id).alwaysOnTopOrder ≤ (items b.id).alwaysOnTopOrder
  count : t.downItemCount ≤ t.items.length
  size : t.items.length ≤ 0xFFFF

/-- An address has one object, and an item is on the tile once. -/
structure Objects (t : Tile) : Prop where
  addresses : (t.stack.map (·.ptr)).Nodup
  creatures : ∀ c ∈ t.creatures, ∀ d ∈ t.creatures, d.ptr = c.ptr → d = c

structure Indexed (items : Items) (t : Tile) : Prop where
  item : ∀ a ∈ t.stack, ∃ i, t.getThingIndex items (.item a) = some i ∧ t.getThing i = some (.item a)
  creature : ∀ c ∈ t.creatures, ∃ i, t.getThingIndex items (.creature c) = some i ∧ t.getThing i = some (.creature c)

structure Shown (items : Items) (t : Tile) (v : Viewer) : Prop where
  item : ∀ a ∈ t.stack, Tile.sees v a = true →
    ∃ i, t.getStackposOfItem items v a = some i ∧ t.getThingFor v i = some (.item a)
  creature : ∀ c ∈ t.creatures, v.canSeeCreature c = true →
    ∃ i, t.getClientIndexOfCreature v c = some i ∧ t.getThingFor v i = some (.creature c)

section
variable {items : Items} {t : Tile}

theorem mem_stack {a : Item} : a ∈ t.stack ↔ t.ground = some a ∨ a ∈ t.downItems ∨ a ∈ t.topItems := by
  unfold Tile.stack
  rw [mem_append, Option.mem_toList, ← mem_append, Tile.downItems, Tile.topItems, take_append_drop]

theorem Objects.object (ho : Objects t) (a : Item) (ha : a ∈ t.stack) : ∀ b ∈ t.stack, b.ptr = a.ptr → b = a :=
  Tiles.object ho.addresses ha

theorem Objects.ground_iff (ho : Objects t) {a : Item} (ha : a ∈ t.stack) :
    t.ground.any (·.ptr = a.ptr) = true ↔ t.ground = some a := by
  rw [Option.any_eq_true]
  constructor
  · rintro ⟨g, hg, hp⟩
    have hgs : g ∈ t.stack := mem_stack.mpr (.inl hg)
    rw [hg, ho.object a ha g hgs (of_decide_eq_true hp)]
  · exact fun h => ⟨a, h, decide_eq_true rfl⟩

theorem Objects.at_item (ho : Objects t) {a : Item} (ha : a ∈ t.stack) {l : List Item} (hl : ∀ b ∈ l, b ∈ t.stack) :
    ∀ b ∈ l, decide (b.ptr = a.ptr) = true ↔ b = a := by
  intro b hb
  rw [decide_eq_true_iff]
  exact ⟨ho.object a ha b (hl b hb), fun h => h ▸ rfl⟩

theorem Objects.at_creature (ho : Objects t) {c : Creature} (hc : c ∈ t.creatures) {l : List Creature}
    (hl : ∀ d ∈ l, d ∈ t.creatures) : ∀ d ∈ l, decide (d.ptr = c.ptr) = true ↔ d = c := by
  intro d hd
  rw [decide_eq_true_iff]
  exact ⟨ho.creatures c hc d (hl d hd), fun h => h ▸ rfl⟩

theorem getThing_ground (a : Item) (h : t.ground = some a) : t.getThing 0 = some (.item a) := by
  simp [Tile.getThing, h]

theorem getThing_past (i : Nat) : t.getThing (t.groundCount + i) =
    if i < t.topItems.length then (t.items[t.downItemCount + i]?).map .item
    else if i - t.topItems.length < t.creatures.length then (t.creatures[i - t.topItems.length]?).map .creature
    else if i - t.topItems.length - t.creatures.length < t.downItemCount then
      (t.items[i - t.topItems.length - t.creatures.length]?).map .item else none := by
  unfold Tile.getThing
  have hne : ¬(t.ground.isSome && decide (t.groundCount + i = 0)) = true := by
    grind [Tile.groundCount]
  rw [if_neg hne]
  simp only [Nat.add_sub_cancel_left]

theorem indexed (hord : Ordered items t) (ho : Objects t) : Indexed items t := by
  constructor
  · intro a ha
    simp only [Tile.getThingIndex, Tile.indexIn]
    cases hg : t.ground.any (·.ptr = a.ptr) with
    | true => exact ⟨0, rfl, getThing_ground a ((ho.ground_iff ha).mp hg)⟩
    | false =>
      have hnot : ¬t.ground = some a := fun h => Bool.false_ne_true (hg.symm.trans ((ho.ground_iff ha).mpr h))
      simp only [Bool.false_eq_true, if_false]
      rcases (mem_stack.mp ha).resolve_left hnot with hdown | htop
      · obtain ⟨k, hk, hget⟩ := getElem?_findIdx? hdown (ho.at_item ha fun b hb => mem_stack.mpr (.inr (.inl hb)))
        have hlt : k < t.downItemCount := by
          have := (List.getElem?_eq_some_iff.mp hget).1
          rw [Tile.downItems, length_take] at this
          omega
        rw [Tile.downItems, getElem?_take_of_lt hlt] at hget
        rw [hord.down a hdown, if_neg Bool.false_ne_true, hk]
        refine ⟨t.groundCount + (t.topItems.length + t.creatures.length + k), by simp only [Option.map_some]; congr 1; omega, ?_⟩
        rw [getThing_past, if_neg (by omega), if_neg (by omega), if_pos (by omega),
          show t.topItems.length + t.creatures.length + k - t.topItems.length - t.creatures.length = k by omega, hget]
        rfl
      · obtain ⟨k, hk, hget⟩ := getElem?_findIdx? htop (ho.at_item ha fun b hb => mem_stack.mpr (.inr (.inr hb)))
        have hlt := (List.getElem?_eq_some_iff.mp hget).1
        rw [hord.top a htop, if_pos rfl, hk]
        refine ⟨_, rfl, ?_⟩
        rw [Tile.topItems, getElem?_drop] at hget
        rw [getThing_past, if_pos hlt, hget]
        rfl
  · intro c hc
    obtain ⟨k, hk, hget⟩ := getElem?_findIdx? hc (ho.at_creature hc fun d hd => hd)
    have hlt := (List.getElem?_eq_some_iff.mp hget).1
    refine ⟨t.groundCount + (t.topItems.length + k), ?_, ?_⟩
    · simp only [Tile.getThingIndex, hk, Option.map_some]
      congr 1
      omega
    · rw [getThing_past, if_neg (by omega), if_pos (by omega),
        show t.topItems.length + k - t.topItems.length = k by omega, hget]
      rfl

theorem getThingFor_past (v : Viewer) (i : Nat) : t.getThingFor v (t.groundCount + i) =
    match pick (Tile.sees v) t.topItems i with
    | .inl a => some (.item a)
    | .inr index =>
      match pick v.canSeeCreature t.creatures.reverse index with
      | .inl c => some (.creature c)
      | .inr index =>
        match pick (Tile.sees v) t.downItems index with
        | .inl a => some (.item a)
        | .inr _ => none := by
  unfold Tile.getThingFor
  have hne : ¬(t.ground.isSome && decide (t.groundCount + i = 0)) = true := by
    grind [Tile.groundCount]
  rw [if_neg hne, Nat.add_sub_cancel_left]

theorem shown (hord : Ordered items t) (ho : Objects t) (v : Viewer) : Shown items t v := by
  constructor
  · intro a ha hs
    unfold Tile.getStackposOfItem
    cases hg : t.ground.any (·.ptr = a.ptr) with
    | true =>
      have hground := (ho.ground_iff ha).mp hg
      exact ⟨0, rfl, by simp [Tile.getThingFor, hground]⟩
    | false =>
      have hnot : ¬t.ground = some a := fun h => Bool.false_ne_true (hg.symm.trans ((ho.ground_iff ha).mpr h))
      rcases (mem_stack.mp ha).resolve_left hnot with hdown | htop
      · rw [hord.down a hdown, if_neg Bool.false_ne_true]
        obtain ⟨k, hk, hpick⟩ := pick_index hdown hs (ho.at_item ha fun b hb => mem_stack.mpr (.inr (.inl hb)))
          (t.groundCount + t.topItems.countP (Tile.sees v) + t.creatures.countP v.canSeeCreature)
        refine ⟨_, hk, ?_⟩
        rw [Nat.add_assoc, Nat.add_assoc, getThingFor_past, pick_left, ← countP_reverse]
        simp only [pick_left, hpick]
      · rw [hord.top a htop, if_pos rfl]
        obtain ⟨k, hk, hpick⟩ := pick_index htop hs (ho.at_item ha fun b hb => mem_stack.mpr (.inr (.inr hb)))
          t.groundCount
        refine ⟨_, hk, ?_⟩
        rw [getThingFor_past, hpick]
  · intro c hc hs
    obtain ⟨k, hk, hpick⟩ := pick_index (mem_reverse.mpr hc) hs
      (ho.at_creature hc fun d hd => mem_reverse.mp hd) (t.groundCount + t.topItems.countP (Tile.sees v))
    refine ⟨_, hk, ?_⟩
    rw [Nat.add_assoc, getThingFor_past, pick_left]
    simp only [hpick]

/-! ## The order is kept -/

/-- What the order of the vector depends on. -/
def Items.rank (items : Items) (a : Item) : Bool × Nat :=
  (items.isAlwaysOnTop a, if items.isAlwaysOnTop a then (items a.id).alwaysOnTopOrder else 0)

theorem Ordered.flags (h : Ordered items t) (flags : BitVec 32) : Ordered items { t with flags } :=
  { h with }

theorem Ordered.of_rank (h : Ordered items t) {t' : Tile} (hr : t'.items.map items.rank = t.items.map items.rank)
    (hc : t'.downItemCount = t.downItemCount) : Ordered items t' := by
  have hlen : t'.items.length = t.items.length := by
    simpa using congrArg List.length hr
  have htake : t'.downItems.map items.rank = t.downItems.map items.rank := by
    rw [Tile.downItems, Tile.downItems, map_take, map_take, hr, hc]
  have hdrop : t'.topItems.map items.rank = t.topItems.map items.rank := by
    rw [Tile.topItems, Tile.topItems, map_drop, map_drop, hr, hc]
  have hmem : ∀ a ∈ t'.topItems, items.isAlwaysOnTop a = true := by
    intro a ha
    have hin : items.rank a ∈ t.topItems.map items.rank := hdrop ▸ mem_map_of_mem ha
    obtain ⟨b, hb, he⟩ := mem_map.mp hin
    exact (congrArg Prod.fst he).symm.trans (h.top b hb)
  have hkey : ∀ l : List Item, (∀ a ∈ l, items.isAlwaysOnTop a = true) →
      (l.Pairwise (fun a b => (items a.id).alwaysOnTopOrder ≤ (items b.id).alwaysOnTopOrder) ↔
        (l.map items.rank).Pairwise fun r r' => r.2 ≤ r'.2) := by
    intro l hl
    rw [pairwise_map]
    refine List.Pairwise.iff_of_mem fun {a b} ha hb => ?_
    simp [Items.rank, hl a ha, hl b hb]
  refine ⟨fun a ha => ?_, hmem, ?_, by rw [hc, hlen]; exact h.count, by rw [hlen]; exact h.size⟩
  · have hin : items.rank a ∈ t.downItems.map items.rank := htake ▸ mem_map_of_mem ha
    obtain ⟨b, hb, he⟩ := mem_map.mp hin
    exact (congrArg Prod.fst he).symm.trans (h.down b hb)
  · rw [hkey _ hmem, hdrop, ← hkey _ h.top]
    exact h.sorted

theorem Ordered.down_length (h : Ordered items t) : t.downItems.length = t.downItemCount := by
  rw [Tile.downItems, length_take]
  exact Nat.min_eq_left h.count

theorem Ordered.of_parts {down top : List Item} (hd : ∀ a ∈ down, items.isAlwaysOnTop a = false)
    (ht : ∀ a ∈ top, items.isAlwaysOnTop a = true)
    (hs : top.Pairwise fun a b => (items a.id).alwaysOnTopOrder ≤ (items b.id).alwaysOnTopOrder) {t' : Tile}
    (hi : t'.items = down ++ top) (hc : t'.downItemCount = down.length) (hsize : t'.items.length ≤ 0xFFFF) :
    Ordered items t' := by
  have hdown : t'.downItems = down := by
    rw [Tile.downItems, hi, hc, take_left]
  have htop : t'.topItems = top := by
    rw [Tile.topItems, hi, hc, drop_left]
  refine ⟨by rwa [hdown], by rwa [htop], by rwa [htop], ?_, hsize⟩
  rw [hi, hc, length_append]
  omega

theorem Ordered.insertTop (h : Ordered items t) {a : Item} (ha : items.isAlwaysOnTop a = true) (hsize : t.items.length < 0xFFFF)
    {before : Item → Bool} (hb : ∀ b, before b = true → (items a.id).alwaysOnTopOrder ≤ (items b.id).alwaysOnTopOrder)
    (hn : ∀ b, before b = false → (items b.id).alwaysOnTopOrder ≤ (items a.id).alwaysOnTopOrder) :
    Ordered items (t.insertTop a before) := by
  refine Ordered.of_parts h.down ?_ (insert_pairwise h.sorted hb hn) rfl h.down_length.symm ?_
  · intro b hb'
    rcases mem_append.mp hb' with hb' | hb'
    · exact h.top b ((takeWhile_sublist _).subset hb')
    · rcases mem_cons.mp hb' with rfl | hb'
      · exact ha
      · exact h.top b ((dropWhile_sublist _).subset hb')
  · have hlen : (t.insertTop a before).items.length = t.items.length + 1 := (insertTop_items t a before).length_eq
    omega

theorem Ordered.insertDown (h : Ordered items t) {a : Item} (ha : items.isAlwaysOnTop a = false)
    (hsize : t.items.length < 0xFFFF) : Ordered items (t.insertDown a) := by
  refine @Ordered.of_parts items (a :: t.downItems) t.topItems ?_ h.top h.sorted _ ?_ ?_ hsize
  · intro b hb
    rcases mem_cons.mp hb with rfl | hb
    · exact ha
    · exact h.down b hb
  · show a :: t.items = a :: (t.downItems ++ t.topItems)
    rw [down_top]
  · show t.downItemCount + 1 = t.downItems.length + 1
    rw [h.down_length]

theorem Ordered.withoutTop (h : Ordered items t) (ptr : Nat) :
    Ordered items { t with items := t.downItems ++ Tile.without ptr t.topItems } := by
  have hsub : (Tile.without ptr t.topItems).Sublist t.topItems := eraseP_sublist
  refine Ordered.of_parts h.down (fun a ha => h.top a (hsub.subset ha)) (h.sorted.sublist hsub) rfl h.down_length.symm ?_
  have hle := (hsub.append_left t.downItems).length_le
  rw [down_top] at hle
  exact hle.trans h.size

theorem Ordered.withoutDown (h : Ordered items t) {ptr : Nat} (hin : t.downItems.any (·.ptr = ptr) = true) :
    Ordered items { t with items := Tile.without ptr t.downItems ++ t.topItems, downItemCount := t.downItemCount - 1 } := by
  have hsub : (Tile.without ptr t.downItems).Sublist t.downItems := eraseP_sublist
  refine Ordered.of_parts (fun a ha => h.down a (hsub.subset ha)) h.top h.sorted rfl ?_ ?_
  · obtain ⟨b, hb, hp⟩ := any_eq_true.mp hin
    have hlen := @length_eraseP_of_mem Item t.downItems b (fun c => c.ptr = ptr) hb hp
    simp [Tile.without, hlen, h.down_length]
  · have hle := (hsub.append_right t.topItems).length_le
    rw [down_top] at hle
    exact hle.trans h.size

theorem Ordered.change (h : Ordered items t) (ptr : Nat) {f : Item → Item}
    (hf : ∀ b ∈ t.items, b.ptr = ptr → items.rank (f b) = items.rank b) : Ordered items (t.change ptr f) := by
  refine h.of_rank ?_ rfl
  show (t.items.map _).map items.rank = _
  rw [map_map]
  refine map_congr_left fun b hb => ?_
  grind

theorem removeItem_cases (items : Items) (t : Tile) (a : Item) (count : Nat) : t.removeItem items a count = t ∨
    t.removeItem items a count = { t with ground := none }.resetTileFlags items a ∨
    t.removeItem items a count = { t with items := t.downItems ++ Tile.without a.ptr t.topItems }.resetTileFlags items a ∨
    (t.downItems.any (·.ptr = a.ptr) = true ∧ t.removeItem items a count =
      { t with items := Tile.without a.ptr t.downItems ++ t.topItems
               downItemCount := t.downItemCount - 1 }.resetTileFlags items a) ∨
    t.removeItem items a count = t.change a.ptr fun b => { b with count := Tile.countLeft a.count count } := by
  unfold Tile.removeItem
  split
  · exact .inl rfl
  split
  · exact .inr (.inl rfl)
  split
  · split <;> simp
  grind

theorem Ordered.removeItem (h : Ordered items t) (a : Item) (count : Nat) : Ordered items (t.removeItem items a count) := by
  rcases removeItem_cases items t a count with he | he | he | ⟨hin, he⟩ | he
  · rw [he]
    exact h
  · rw [he]
    exact { h with }
  · rw [he]
    exact (h.withoutTop a.ptr).flags _
  · rw [he]
    exact (h.withoutDown hin).flags _
  · rw [he]
    exact h.change a.ptr fun _ _ _ => rfl

theorem removeItem_length (items : Items) (t : Tile) (a : Item) (count : Nat) :
    (t.removeItem items a count).items.length ≤ t.items.length := by
  have hsub : ∀ l : List Item, (Tile.without a.ptr l).length ≤ l.length := fun l => (eraseP_sublist).length_le
  have hlen := congrArg List.length (down_top t)
  rw [length_append] at hlen
  rcases removeItem_cases items t a count with he | he | he | ⟨-, he⟩ | he
  · rw [he]
  · rw [he]
    exact le_rfl
  · rw [he]
    show (t.downItems ++ Tile.without a.ptr t.topItems).length ≤ _
    have := hsub t.topItems
    rw [length_append]
    omega
  · rw [he]
    show (Tile.without a.ptr t.downItems ++ t.topItems).length ≤ _
    have := hsub t.downItems
    rw [length_append]
    omega
  · rw [he]
    show (t.items.map _).length ≤ _
    rw [length_map]

theorem Ordered.internalAddItem (h : Ordered items t) (a : Item) : Ordered items (t.internalAddItem items a) := by
  unfold Tile.internalAddItem
  dsimp only
  split
  · split
    · exact { h with }
    · exact h
  split
  · exact h
  next hsize =>
  split
  · next ha =>
    exact (h.insertTop ha (by omega) (fun b hb => Nat.le_of_lt (of_decide_eq_true hb))
      fun b hb => Nat.le_of_not_lt (of_decide_eq_false hb)).flags _
  · next ha => exact (h.insertDown (Bool.eq_false_iff.mpr ha) (by omega)).flags _

theorem Ordered.addItem (h : Ordered items t) (a : Item) : Ordered items (t.addItem items a) := by
  have hbefore : ∀ b : Item, decide ((items a.id).alwaysOnTopOrder ≤ (items b.id).alwaysOnTopOrder) = true →
      (items a.id).alwaysOnTopOrder ≤ (items b.id).alwaysOnTopOrder := fun b hb => of_decide_eq_true hb
  have hafter : ∀ b : Item, decide ((items a.id).alwaysOnTopOrder ≤ (items b.id).alwaysOnTopOrder) = false →
      (items b.id).alwaysOnTopOrder ≤ (items a.id).alwaysOnTopOrder := fun b hb => by
    have := of_decide_eq_false hb
    omega
  unfold Tile.addItem
  dsimp only
  split
  · exact h
  next hsize =>
  split
  · split
    · exact { h with }
    · exact { h with }
  split
  · next ha =>
    -- the old splash goes first
    have hsplash : Ordered items (t.removeSplash items) ∧ (t.removeSplash items).items.length < 0xFFFF := by
      unfold Tile.removeSplash
      split
      · next oldSplash _ =>
        have := removeItem_length items t oldSplash 1
        exact ⟨h.removeItem oldSplash 1, by omega⟩
      · exact ⟨h, by omega⟩
    split
    · exact (hsplash.1.insertTop ha hsplash.2 hbefore hafter).flags _
    · exact (h.insertTop ha (by omega) hbefore hafter).flags _
  · next ha =>
    replace ha : items.isAlwaysOnTop a = false := Bool.eq_false_iff.mpr ha
    split
    · split
      · exact (h.insertDown ha (by omega)).flags _
      next oldField _ =>
      have := removeItem_length items t oldField 1
      split
      · exact ((h.removeItem oldField 1).insertDown ha (by omega)).flags _
      · exact h
    · exact (h.insertDown ha (by omega)).flags _

/-! ## Runs -/

def SameOrder (it it' : ItemType) : Prop := it'.alwaysOnTop = it.alwaysOnTop ∧ it'.alwaysOnTopOrder = it.alwaysOnTopOrder

def Op.Kept (items : Items) (t : Tile) : Op → Prop
  | .updateThing (.item a) itemId _ => SameOrder (items a.id) (items itemId)
  | .replaceThing index (.item a) => ∀ old, t.getThing index = some (.item old) → SameOrder (items old.id) (items a.id)
  | _ => True

theorem SameOrder.rank {a b : Item} (h : SameOrder (items a.id) (items b.id)) : items.rank b = items.rank a := by
  unfold Items.rank Items.isAlwaysOnTop
  rw [h.1, h.2]

theorem getThing_place {index i : Nat} {old : Item} (hg : ¬(t.ground.isSome && decide (index = 0)) = true)
    (hp : t.place index = some i) (hi : t.items[i]? = some old) : t.getThing index = some (.item old) := by
  unfold Tile.place at hp
  unfold Tile.getThing
  rw [if_neg hg]
  dsimp only at hp ⊢
  split at hp
  · next h =>
    cases hp
    rw [if_pos h, hi]
    rfl
  · next h =>
    rw [if_neg h]
    split at hp
    · cases hp
    next h' =>
    rw [if_neg h']
    split at hp
    · next h'' =>
      cases hp
      rw [if_pos h'', hi]
      rfl
    · cases hp

theorem Ordered.replaceThing (h : Ordered items t) (index : Nat) (a : Item)
    (hk : ∀ old, t.getThing index = some (.item old) → SameOrder (items old.id) (items a.id)) :
    Ordered items (t.replaceThing items index (.item a)) := by
  have hplace : ∀ index, (∀ old, t.getThing index = some (.item old) → SameOrder (items old.id) (items a.id)) →
      ¬(t.ground.isSome && decide (index = 0)) = true → Ordered items ((t.place index).elim t fun i =>
        (t.items[i]?).elim t fun oldItem => ({ t with items := t.items.set i a }.resetTileFlags items oldItem).setTileFlags items a) := by
    intro index hk hg
    cases hi : t.place index with
    | none => exact h
    | some i =>
      rw [Option.elim_some]
      cases hold : t.items[i]? with
      | none => exact h
      | some old =>
        have hrank := (hk old (getThing_place hg hi hold)).rank
        refine Ordered.of_rank h ?_ rfl
        show (t.items.set i a).map items.rank = _
        refine ext_getElem (by simp) fun k hk hk' => ?_
        grind
  have hat := hplace index hk
  cases hg : t.ground with
  | none =>
    rw [replaceThing_item items t index a (by simp [hg])]
    exact hat (by simp [hg])
  | some oldItem =>
    cases index with
    | zero =>
      simp only [Tile.replaceThing, hg]
      exact { h with }
    | succ index =>
      rw [replaceThing_item items t (index + 1) a (by simp)]
      exact hat (by simp)

theorem Ordered.updateThing (h : Ordered items t) {a : Item} (hreal : ∀ b ∈ t.stack, b.ptr = a.ptr → b = a) {itemId : Nat}
    (hk : SameOrder (items a.id) (items itemId)) (count : Nat) : Ordered items (t.updateThing items (.item a) itemId count) := by
  unfold Tile.updateThing
  split
  · exact h
  refine Ordered.flags (Ordered.change (h.flags _) a.ptr fun b hb hp => ?_) _
  rw [hreal b (mem_append_right _ hb) hp]
  unfold Items.rank Items.isAlwaysOnTop
  simp [setSubType_id, hk.1, hk.2]

theorem step_ordered (h : Ordered items t) {op : Op} (hreal : op.Real t) (hk : op.Kept items t) :
    Ordered items (step items t op) := by
  have hcreatures : ∀ cs, Ordered items { t with creatures := cs } := fun _ => { h with }
  cases op with
  | internalAddThing thing =>
    cases thing with
    | creature c => exact hcreatures _
    | item a => exact h.internalAddItem a
  | addThing thing =>
    cases thing with
    | creature c => exact hcreatures _
    | item a => exact h.addItem a
  | updateThing thing itemId count =>
    cases thing with
    | creature c =>
      show Ordered items (t.updateThing items (.creature c) itemId count)
      grind [Tile.updateThing]
    | item a => exact h.updateThing hreal hk count
  | replaceThing index thing =>
    cases thing with
    | creature c => exact h
    | item a => exact h.replaceThing index a hk
  | removeThing thing count =>
    cases thing with
    | creature c => exact hcreatures _
    | item a => exact h.removeItem a count

/-! The creatures stay where items come and go. -/

theorem removeItem_creatures (items : Items) (t : Tile) (a : Item) (count : Nat) :
    (t.removeItem items a count).creatures = t.creatures := by
  rcases removeItem_cases items t a count with he | he | he | ⟨-, he⟩ | he
  all_goals
    rw [he]
    try rfl

theorem addItem_creatures (items : Items) (t : Tile) (a : Item) : (t.addItem items a).creatures = t.creatures := by
  have hsplash : (t.removeSplash items).creatures = t.creatures := by
    unfold Tile.removeSplash
    split
    · exact removeItem_creatures items t _ 1
    · rfl
  unfold Tile.addItem
  dsimp only
  split
  · rfl
  split
  · split
    · rfl
    · rfl
  split
  · split
    · exact hsplash
    · rfl
  split
  · split
    · rfl
    · split
      · exact removeItem_creatures items t _ 1
      · rfl
  · rfl

theorem internalAddItem_creatures (items : Items) (t : Tile) (a : Item) :
    (t.internalAddItem items a).creatures = t.creatures := by
  unfold Tile.internalAddItem
  dsimp only
  split
  · split
    · rfl
    · rfl
  split
  · rfl
  split
  · rfl
  · rfl

theorem replaceThing_creatures (items : Items) (t : Tile) (index : Nat) (thing : Thing) :
    (t.replaceThing items index thing).creatures = t.creatures := by
  unfold Tile.replaceThing
  split
  · rfl
  split
  · rfl
  split
  · rfl
  split
  · rfl
  · rfl

theorem updateThing_creatures (items : Items) (t : Tile) (thing : Thing) (itemId count : Nat) :
    (t.updateThing items thing itemId count).creatures = t.creatures := by
  unfold Tile.updateThing
  split
  · rfl
  split
  · rfl
  · rfl

theorem step_objects (ho : Objects t) {op : Op} (hreal : op.Real t) : Objects (step items t op) := by
  refine ⟨step_nodup items ho.addresses hreal, ?_⟩
  have hcons : ∀ {c : Creature}, (∀ d ∈ t.creatures, d.ptr = c.ptr → d = c) →
      ∀ d ∈ c :: t.creatures, ∀ e ∈ c :: t.creatures, e.ptr = d.ptr → e = d := by
    intro c hc d hd e he hp
    rcases mem_cons.mp hd with hdc | hd'
    · grind
    rcases mem_cons.mp he with hec | he'
    · rw [hec]
      exact (hc d hd' (hec ▸ hp.symm)).symm
    · exact ho.creatures d hd' e he' hp
  have hsame : ∀ t' : Tile, t'.creatures = t.creatures → ∀ d ∈ t'.creatures, ∀ e ∈ t'.creatures, e.ptr = d.ptr → e = d := by
    intro t' h
    rw [h]
    exact ho.creatures
  cases op with
  | internalAddThing thing =>
    cases thing with
    | creature c => exact hcons hreal
    | item a => exact hsame _ (internalAddItem_creatures items t a)
  | addThing thing =>
    cases thing with
    | creature c => exact hcons hreal
    | item a => exact hsame _ (addItem_creatures items t a)
  | updateThing thing itemId count => exact hsame _ (updateThing_creatures items t thing itemId count)
  | replaceThing index thing => exact hsame _ (replaceThing_creatures items t index thing)
  | removeThing thing count =>
    cases thing with
    | creature c =>
      have hsub : (t.creatures.eraseP fun d => d.ptr = c.ptr).Sublist t.creatures := eraseP_sublist
      exact fun d hd e he => ho.creatures d (hsub.subset hd) e (hsub.subset he)
    | item a => exact hsame _ (removeItem_creatures items t a count)

end

def Tile.Empty (t : Tile) : Prop := t.stack = [] ∧ t.downItemCount = 0 ∧ t.creatures = []

/-- In every state of every run the vector of items is in order, and each thing is at its
    index, for the server and for every viewer who sees it. -/
theorem tile_order (items : Items) (t : Tile) (ht : t.Empty) (ops : List Op)
    (hops : Allowed (step items) (fun s op => op.Real s ∧ op.Kept items s) t ops) :
    Ordered items (run (step items) t ops) ∧ Indexed items (run (step items) t ops) ∧
      ∀ v, Shown items (run (step items) t ops) v := by
  obtain ⟨hstack, hcount, hcreatures⟩ := ht
  have hitems : t.items = [] := (append_eq_nil_iff.mp hstack).2
  have hbase : Ordered items t ∧ Objects t := by
    refine ⟨⟨?_, ?_, ?_, ?_, ?_⟩, ⟨?_, ?_⟩⟩
    all_goals simp [Tile.downItems, Tile.topItems, hitems, hcount, hstack, hcreatures]
  have hreach : Reach (Eq t) (step items) (fun s op => op.Real s ∧ op.Kept items s) (run (step items) t ops) :=
    Reach.run (Reach.init rfl) hops
  have hinv : Ordered items (run (step items) t ops) ∧ Objects (run (step items) t ops) := by
    refine Reach.inv (I := fun s => Ordered items s ∧ Objects s) ?_ ?_ hreach
    · rintro s rfl
      exact hbase
    · intro s op hok hs
      exact ⟨step_ordered hs.1 hok.1 hok.2, step_objects hs.2 hok.1⟩
  exact ⟨hinv.1, indexed hinv.1 hinv.2, shown hinv.1 hinv.2⟩

/-- Two walls, of which the first is changed. -/
theorem walls_ordered :
    let t := run (step walls) {} [.addThing (wall 0), .addThing (wall 1), .updateThing (wall 0) 3 1]
    Ordered walls t ∧ Indexed walls t ∧ ∀ v, Shown walls t v :=
  tile_order walls {} ⟨rfl, rfl, rfl⟩ _ ⟨⟨by decide, trivial⟩, ⟨by decide, trivial⟩, ⟨by decide, rfl, rfl⟩, trivial⟩

end Backlands.Tiles
