/-
  Backlands.Items.Holdings — what a player holds, saved by `savePlayerQueries` and loaded
  again by `loadPlayer` (src/iologindata.cpp): the inventory, the depots, the inboxes and
  the store inbox, each in a table of its own.

  A depot chest holds its seventeen boxes, which are made with it, behind the items put
  into it; a chest is given by those two parts. The maps of chests and of lockers are
  given by their keys, in the order they are walked in, and what they hold at each key.
  Depot numbers are 16 bits wide, so the code of a depot box fits its column.

  Proved: `load_save_iff`.
-/

import Mathlib.Data.List.FinRange
import Backlands.Items.Storage
import Mathlib.Algebra.Order.Ring.Int

namespace Backlands.Items

open Backlands.Lib List

/-! ## What a player holds -/

structure DepotChest where
  items : List Item
  boxes : Fin 17 → List Item

/-- A depot box as `CreateItem` makes it, with its contents. -/
def depotBox (i : Fin 17) (ts : List Item) : Item := .node ⟨ITEM_DEPOT_BOX_1 + i, 1, true, none, []⟩ ts

/-- The items of the chest: `checkDepotBoxes` puts the boxes in first. -/
def DepotChest.getItemList (c : DepotChest) : List Item :=
  c.items ++ (List.finRange 17).map fun i => depotBox i (c.boxes i)

structure Belongings where
  inventory : Fin 10 → Option Item
  chest : Nat → DepotChest
  inbox : Nat → List Item
  storeInbox : List Item

def DepotChest.Mem (c : DepotChest) (t : Item) : Prop := t ∈ c.items ∨ ∃ i, t ∈ c.boxes i

def DepotChest.map (f : Item → Item) (c : DepotChest) : DepotChest := ⟨c.items.map f, fun i => (c.boxes i).map f⟩

def Belongings.map (f : Item → Item) (b : Belongings) : Belongings where
  inventory s := (b.inventory s).map f
  chest d := (b.chest d).map f
  inbox d := (b.inbox d).map f
  storeInbox := b.storeInbox.map f

structure Holdings (types : Nat → ItemType) extends Belongings where
  depotIds : List Nat
  lockerIds : List Nat
  depotIds_nodup : depotIds.Nodup
  lockerIds_nodup : lockerIds.Nodup
  depotIds_lt : ∀ d ∈ depotIds, d < 2 ^ 16
  lockerIds_lt : ∀ d ∈ lockerIds, d < 2 ^ 16
  chest_off : ∀ d, d ∉ depotIds → chest d = ⟨[], fun _ => []⟩
  inbox_off : ∀ d, d ∉ lockerIds → inbox d = []
  inventory_ok : ∀ s t, inventory s = some t → ItemOk types t
  chest_ok : ∀ d t, (chest d).Mem t → ItemOk types t
  inbox_ok : ∀ d, ∀ t ∈ inbox d, ItemOk types t
  storeInbox_ok : ∀ t ∈ storeInbox, ItemOk types t

/-! ## Saving -/

structure Tables where
  player_items : List ItemRow
  player_depotitems : List ItemRow
  player_inboxitems : List ItemRow
  player_storeinboxitems : List ItemRow

def inventoryList (b : Belongings) : List (Int × Item) :=
  (List.finRange 10).filterMap fun s => (b.inventory s).map fun t => ((s : Int) + 1, t)

/-- One item of a chest: a box gives its contents, under the code of the box. -/
def depotEntry (d : Nat) (t : Item) : List (Int × Item) :=
  if isDepotBox t.label.id then
    if t.label.isContainer then
      t.contents.map fun u => (-((d * 20 + (t.label.id - ITEM_DEPOT_BOX_1) + 1 : Nat) : Int), u)
    else []
  else [((d : Int), t)]

def depotList (depotIds : List Nat) (b : Belongings) : List (Int × Item) :=
  depotIds.flatMap fun d => (b.chest d).getItemList.flatMap (depotEntry d)

def collectInboxItems (lockerIds : List Nat) (b : Belongings) : List (Int × Item) :=
  lockerIds.flatMap fun d => (b.inbox d).map fun t => ((d : Int), t)

def storeInboxList (b : Belongings) : List (Int × Item) := b.storeInbox.map fun t => (0, t)

/-- The item part of `savePlayerQueries`. -/
def Holdings.save {types : Nat → ItemType} (h : Holdings types) : Tables where
  player_items := saveItems types (inventoryList h.toBelongings)
  player_depotitems := saveItems types (depotList h.depotIds h.toBelongings)
  player_inboxitems := saveItems types (collectInboxItems h.lockerIds h.toBelongings)
  player_storeinboxitems := saveItems types (storeInboxList h.toBelongings)

/-! ## Loading -/

def inventoryAnchor (pid : Int) : Option (Fin 10) :=
  if h : 1 ≤ pid ∧ pid ≤ 10 then some ⟨(pid - 1).toNat, by omega⟩ else none

inductive DepotPlace where
  | chest (d : Nat)
  | box (d : Nat) (i : Fin 17)
  | lost
  deriving DecidableEq

/-- The codes from 17 to 19 stand for no box. -/
def depotAnchor (pid : Int) : Option DepotPlace :=
  if 0 ≤ pid ∧ pid < 100 then some (.chest pid.toNat)
  else if pid < 0 then
    if h : (-pid - 1).toNat % 20 < 17 then some (.box ((-pid - 1).toNat / 20) ⟨(-pid - 1).toNat % 20, h⟩)
    else some .lost
  else none

def inboxAnchor (pid : Int) : Option Nat := if 0 ≤ pid ∧ pid < 100 then some pid.toNat else none

def storeInboxAnchor (pid : Int) : Option Unit := if 0 ≤ pid ∧ pid < 100 then some () else none

/-- The item part of `loadPlayer`, for a player who holds nothing yet. -/
def load (types : Nat → ItemType) (t : Tables) : Belongings :=
  let keep : ItemData → Bool := fun _ => false
  let depot := loadPass types (fun d => isDepotBox d.id) depotAnchor pushFront t.player_depotitems
  { inventory := fun s => (loadPass types keep inventoryAnchor equip t.player_items s).head?
    chest := fun d => ⟨depot (.chest d), fun i => depot (.box d i)⟩
    inbox := loadPass types keep inboxAnchor pushFront t.player_inboxitems
    storeInbox := loadPass types keep storeInboxAnchor pushFront t.player_storeinboxitems () }

/-! ## The entries of a place -/

/-- Of lists keyed by distinct numbers, only one is left when the others are empty. -/
theorem flatMap_single {α β : Type*} [DecidableEq α] {ids : List α} (hn : ids.Nodup) {g : α → List β} {d : α}
    (h : ∀ x, x ≠ d → g x = []) : ids.flatMap g = if d ∈ ids then g d else [] := by
  induction ids with
  | nil => rfl
  | cons x ids ih =>
    obtain ⟨hx, hn⟩ := nodup_cons.mp hn
    rw [flatMap_cons, ih hn]
    by_cases e : x = d
    · subst e
      rw [if_neg hx, if_pos mem_cons_self, append_nil]
    have hd : d ∈ x :: ids ↔ d ∈ ids := by
      rw [mem_cons]
      exact ⟨fun h => h.resolve_left fun h => e h.symm, .inr⟩
    rw [h x e, nil_append]
    simp only [hd]

theorem filter_keyed {α : Type*} {π : Type*} [DecidableEq π] (anchor : Int → Option π) (p : π) (k : Int) (l : List α) :
    (l.map fun t => (k, t)).filter (fun e => decide (anchor e.1 = some p)) =
      if anchor k = some p then l.map fun t => (k, t) else [] := by
  by_cases e : anchor k = some p <;> simp [e, filter_eq_self, filter_eq_nil_iff]

theorem placed_pushFront {π : Type*} [DecidableEq π] (anchor : Int → Option π) (p : π) (f : Item → Item)
    (l : List (Int × Item)) :
    placed anchor pushFront p (l.map fun e => (e.1, f e.2)) [] =
      (l.filter fun e => decide (anchor e.1 = some p)).map fun e => f e.2 := by
  unfold placed
  rw [filter_map, map_map]
  show List.foldr List.cons [] _ = _
  rw [foldr_cons_nil]
  rfl

theorem depotAnchor_chest {d : Nat} (h : d < 100) : depotAnchor (d : Int) = some (.chest d) := by
  unfold depotAnchor
  rw [if_pos (by omega), Int.toNat_natCast]

theorem depotAnchor_chest_of_le {d : Nat} (h : 100 ≤ d) (pid : Int) : depotAnchor pid ≠ some (.chest d) := by
  unfold depotAnchor
  split
  · intro e
    simp only [Option.some.injEq, DepotPlace.chest.injEq] at e
    omega
  · split
    · split <;> simp
    · simp

theorem depotAnchor_box (d : Nat) (i : Fin 17) :
    depotAnchor (-((d * 20 + i + 1 : Nat) : Int)) = some (.box d i) := by
  have hi := i.isLt
  have e : (-(-((d * 20 + i + 1 : Nat) : Int)) - 1).toNat = d * 20 + i := by omega
  have hm : (d * 20 + (i : Nat)) % 20 = i := by omega
  have hd : (d * 20 + (i : Nat)) / 20 = d := by omega
  unfold depotAnchor
  rw [if_neg (by omega), if_pos (by omega)]
  simp only [e, hm, hd]
  rw [dif_pos hi]

theorem depotAnchor_number {s : Nat} (h : 101 ≤ s) : depotAnchor (s : Int) = none := by
  unfold depotAnchor
  rw [if_neg (by omega), if_neg (by omega)]

theorem isDepotBox_depotBox (i : Fin 17) (ts : List Item) : isDepotBox (depotBox i ts).label.id = true := by
  show (decide (22797 ≤ 22797 + (i : Nat)) && decide (22797 + (i : Nat) ≤ 22813)) = true
  rw [Bool.and_eq_true, decide_eq_true_eq, decide_eq_true_eq]
  omega

theorem depotEntry_depotBox (d : Nat) (i : Fin 17) (ts : List Item) :
    depotEntry d (depotBox i ts) = ts.map fun u => (-((d * 20 + i + 1 : Nat) : Int), u) := by
  have e : (depotBox i ts).label.id - ITEM_DEPOT_BOX_1 = i := by
    show ITEM_DEPOT_BOX_1 + (i : Nat) - ITEM_DEPOT_BOX_1 = i
    omega
  unfold depotEntry
  rw [if_pos (isDepotBox_depotBox i ts), e]
  rfl

def DepotChest.NoBox (c : DepotChest) : Prop := ∀ t, c.Mem t → ∀ d ∈ t.labels, isDepotBox d.id = false

theorem depotEntry_item (d : Nat) {c : DepotChest} (h : c.NoBox) :
    c.items.flatMap (depotEntry d) = c.items.map fun t => ((d : Int), t) := by
  rw [map_eq_flatMap]
  apply flatMap_congr
  intro t ht
  have hb := h t (.inl ht) t.label t.label_mem
  simp [depotEntry, hb]

theorem chest_entries (d : Nat) {c : DepotChest} (h : c.NoBox) :
    c.getItemList.flatMap (depotEntry d) = (c.items.map fun t => ((d : Int), t)) ++
      (List.finRange 17).flatMap fun i => (c.boxes i).map fun u => (-((d * 20 + i + 1 : Nat) : Int), u) := by
  have hbox : ((List.finRange 17).flatMap fun i => depotEntry d (depotBox i (c.boxes i))) = _ :=
    flatMap_congr fun i _ => depotEntry_depotBox d i (c.boxes i)
  unfold DepotChest.getItemList
  rw [flatMap_append, depotEntry_item d h, flatMap_map, hbox]

/-! ## The round trip, table by table -/

section
variable {types : Nat → ItemType} (h : Holdings types)

theorem depot_chest_entries (hb : ∀ d, (h.chest d).NoBox) (d : Nat) (hd : d < 100) :
    ((depotList h.depotIds h.toBelongings).filter fun e => decide (depotAnchor e.1 = some (.chest d))) =
      (h.chest d).items.map fun t => ((d : Int), t) := by
  have hbox : ∀ x : Nat, ((List.finRange 17).flatMap fun i => ((h.chest x).boxes i).map
      fun u => (-((x * 20 + i + 1 : Nat) : Int), u)).filter (fun e => decide (depotAnchor e.1 = some (.chest d))) = [] := by
    intro x
    rw [filter_flatMap, flatMap_eq_nil_iff]
    intro i _
    rw [filter_keyed, depotAnchor_box, if_neg (by simp)]
  unfold depotList
  rw [filter_flatMap, flatMap_single h.depotIds_nodup (d := d)]
  · rw [chest_entries d (hb d), filter_append, hbox, append_nil, filter_keyed, if_pos (depotAnchor_chest hd)]
    split
    · rfl
    · rename_i hn
      rw [h.chest_off d hn]
      rfl
  · intro x hx
    rw [chest_entries x (hb x), filter_append, hbox, append_nil, filter_keyed, if_neg]
    intro e
    by_cases hlt : x < 100
    · rw [depotAnchor_chest hlt, Option.some.injEq, DepotPlace.chest.injEq] at e
      exact hx e
    · unfold depotAnchor at e
      rw [if_neg (by omega), if_neg (by omega)] at e
      cases e

theorem depot_box_entries (hb : ∀ d, (h.chest d).NoBox) (d : Nat) (i : Fin 17) :
    ((depotList h.depotIds h.toBelongings).filter fun e => decide (depotAnchor e.1 = some (.box d i))) =
      ((h.chest d).boxes i).map fun u => (-((d * 20 + i + 1 : Nat) : Int), u) := by
  have hitem : ∀ x : Nat, ((h.chest x).items.map fun t => ((x : Int), t)).filter
      (fun e => decide (depotAnchor e.1 = some (.box d i))) = [] := by
    intro x
    rw [filter_keyed, if_neg]
    intro e
    by_cases hlt : x < 100
    · rw [depotAnchor_chest hlt] at e
      cases e
    · unfold depotAnchor at e
      rw [if_neg (by omega), if_neg (by omega)] at e
      cases e
  unfold depotList
  rw [filter_flatMap, flatMap_single h.depotIds_nodup (d := d)]
  · rw [chest_entries d (hb d), filter_append, hitem, nil_append, filter_flatMap,
      flatMap_single (nodup_finRange 17) (d := i), if_pos (mem_finRange i), filter_keyed,
      if_pos (depotAnchor_box d i)]
    · split
      · rfl
      · rename_i hn
        rw [h.chest_off d hn]
        rfl
    · intro j hj
      rw [filter_keyed, depotAnchor_box, if_neg]
      intro e
      rw [Option.some.injEq, DepotPlace.box.injEq] at e
      exact hj e.2
  · intro x hx
    rw [chest_entries x (hb x), filter_append, hitem, nil_append, filter_flatMap, flatMap_eq_nil_iff]
    intro j _
    rw [filter_keyed, depotAnchor_box, if_neg]
    intro e
    rw [Option.some.injEq, DepotPlace.box.injEq] at e
    exact hx e.1

theorem mem_depotList (hb : ∀ d, (h.chest d).NoBox) {e : Int × Item}
    (he : e ∈ depotList h.depotIds h.toBelongings) :
    (∃ d : Nat, e.2 ∈ (h.chest d).items ∧ e.1 = d) ∨
      ∃ d i, e.2 ∈ (h.chest d).boxes i ∧ e.1 = -((d * 20 + i + 1 : Nat) : Int) := by
  obtain ⟨d, _, he⟩ := mem_flatMap.mp he
  rw [chest_entries d (hb d)] at he
  rcases mem_append.mp he with he | he
  · obtain ⟨t, ht, rfl⟩ := mem_map.mp he
    exact .inl ⟨d, ht, rfl⟩
  · obtain ⟨i, _, he⟩ := mem_flatMap.mp he
    obtain ⟨t, ht, rfl⟩ := mem_map.mp he
    exact .inr ⟨d, i, ht, rfl⟩

theorem depot_pass (hd : ∀ d, (h.chest d).items ≠ [] → d < 100) (hb : ∀ d, (h.chest d).NoBox) (p : DepotPlace) :
    loadPass types (fun d => isDepotBox d.id) depotAnchor pushFront h.save.player_depotitems p =
      ((depotList h.depotIds h.toBelongings).filter fun e => decide (depotAnchor e.1 = some p)).map
        fun e => comesBack types e.2 := by
  rw [← placed_pushFront]
  apply loadPass_saveItems
  · intro e he
    rcases mem_depotList h hb he with ⟨d, ht, _⟩ | ⟨d, i, ht, _⟩
    · exact h.chest_ok d _ (.inl ht)
    · exact h.chest_ok d _ (.inr ⟨i, ht⟩)
  · intro e he
    rcases mem_depotList h hb he with ⟨d, ht, e1⟩ | ⟨d, i, _, e1⟩
    · rw [e1, depotAnchor_chest (hd d (ne_nil_of_mem ht))]
      rfl
    · rw [e1, depotAnchor_box]
      rfl
  · intro s hs
    exact depotAnchor_number hs
  intro e he x hx
  rcases mem_depotList h hb he with ⟨d, ht, _⟩ | ⟨d, i, ht, _⟩
  · rw [reload_box types ((h.chest_ok d _ (.inl ht)).2 x hx)]
    exact hb d _ (.inl ht) x hx
  · rw [reload_box types ((h.chest_ok d _ (.inr ⟨i, ht⟩)).2 x hx)]
    exact hb d _ (.inr ⟨i, ht⟩) x hx

theorem depot_load (hd : ∀ d, (h.chest d).items ≠ [] → d < 100) (hb : ∀ d, (h.chest d).NoBox) (d : Nat) :
    (load types h.save).chest d = (h.chest d).map (comesBack types) := by
  have hitems : (load types h.save).chest d = ⟨loadPass types (fun d => isDepotBox d.id) depotAnchor pushFront
      h.save.player_depotitems (.chest d), fun i => loadPass types (fun d => isDepotBox d.id) depotAnchor pushFront
      h.save.player_depotitems (.box d i)⟩ := rfl
  rw [hitems]
  simp only [depot_pass h hd hb, depot_box_entries h hb, map_map]
  by_cases hlt : d < 100
  · rw [depot_chest_entries h hb d hlt, map_map]
    rfl
  have hnil : (h.chest d).items = [] := by
    by_contra hne
    exact hlt (hd d hne)
  have hnone : (depotList h.depotIds h.toBelongings).filter
      (fun e => decide (depotAnchor e.1 = some (.chest d))) = [] := by
    rw [filter_eq_nil_iff]
    intro e _
    simpa using depotAnchor_chest_of_le (by omega) e.1
  rw [hnone]
  simp only [DepotChest.map, hnil, map_nil]
  rfl

theorem depot_items_lost (types : Nat → ItemType) {d : Nat} (hd : 100 ≤ d) (t : Tables) : ((load types t).chest d).items = [] := by
  show loadPass types _ depotAnchor pushFront t.player_depotitems (.chest d) = []
  unfold loadPass
  rw [attach_untouched]
  intro r _
  exact depotAnchor_chest_of_le hd r.pid

theorem load_noBox (t : Tables) (d : Nat) : ((load types t).chest d).NoBox := by
  have hp : ∀ p : DepotPlace, ∀ u ∈ loadPass types (fun d => isDepotBox d.id) depotAnchor pushFront
      t.player_depotitems p, ∀ a ∈ u.labels, isDepotBox a.id = false := by
    intro p
    refine attach_labels ?_ ?_ ?_ ?_ p
    · intro t l u hu
      exact mem_cons.mp hu
    · intro a b
      rw [enter_id]
    · intro s t ht
      cases ht
    · intro p t ht
      cases ht
  rintro u (hu | ⟨i, hu⟩)
  · exact hp _ u hu
  · exact hp _ u hu

theorem noBox_of_comesBack {d : Nat} (hn : ((h.chest d).map (comesBack types)).NoBox) : (h.chest d).NoBox := by
  intro t ht a ha
  have hm : ((h.chest d).map (comesBack types)).Mem (comesBack types t) := by
    rcases ht with ht | ⟨i, ht⟩
    · exact .inl (mem_map_of_mem ht)
    · exact .inr ⟨i, mem_map_of_mem ht⟩
  have ha' : isDepotBox a.id ∈ (comesBack types t).labels.map fun d => isDepotBox d.id := by
    rw [labels_comesBack types (h.chest_ok d t ht).2]
    exact mem_map_of_mem (f := fun d : ItemData => isDepotBox d.id) ha
  obtain ⟨b, hb, e⟩ := mem_map.mp ha'
  rw [← e]
  exact hn _ hm b hb

/-- The depots come back exactly when no chest numbered 100 or above holds items and no
    depot box is among the items. -/
theorem depot_load_iff :
    (∀ d, (load types h.save).chest d = (h.chest d).map (comesBack types)) ↔
      (∀ d, (h.chest d).items ≠ [] → d < 100) ∧ ∀ d, (h.chest d).NoBox := by
  constructor
  · intro hl
    refine ⟨?_, ?_⟩
    · intro d hne
      by_contra hge
      apply hne
      have hlost := depot_items_lost types (d := d) (by omega) h.save
      rw [hl d] at hlost
      exact map_eq_nil_iff.mp hlost
    · intro d
      apply noBox_of_comesBack
      rw [← hl d]
      exact load_noBox _ d
  · rintro ⟨hd, hb⟩ d
    exact depot_load h hd hb d

theorem inbox_load_iff :
    (∀ d, (load types h.save).inbox d = (h.inbox d).map (comesBack types)) ↔ ∀ d, h.inbox d ≠ [] → d < 100 := by
  have hkey : ∀ d : Nat, d < 100 → inboxAnchor (d : Int) = some d := by
    intro d hd
    unfold inboxAnchor
    rw [if_pos (by omega), Int.toNat_natCast]
  have hout : ∀ (d : Nat), 100 ≤ d → ∀ pid, inboxAnchor pid ≠ some d := by
    grind [inboxAnchor, Option.some.injEq]
  constructor
  · intro hl d hne
    by_contra hge
    apply hne
    have hlost : (load types h.save).inbox d = [] := by
      show loadPass types _ inboxAnchor pushFront h.save.player_inboxitems d = []
      unfold loadPass
      rw [attach_untouched]
      intro r _
      exact hout d (by omega) r.pid
    rw [hl d] at hlost
    exact map_eq_nil_iff.mp hlost
  · intro hd d
    have hmem : ∀ e ∈ collectInboxItems h.lockerIds h.toBelongings, ∃ d : Nat, e.2 ∈ h.inbox d ∧ e.1 = d := by
      intro e he
      obtain ⟨d, _, he⟩ := mem_flatMap.mp he
      obtain ⟨t, ht, rfl⟩ := mem_map.mp he
      exact ⟨d, ht, rfl⟩
    have hok : ∀ e ∈ collectInboxItems h.lockerIds h.toBelongings, ItemOk types e.2 := by
      intro e he
      obtain ⟨d, ht, _⟩ := hmem e he
      exact h.inbox_ok d _ ht
    have hanchor : ∀ e ∈ collectInboxItems h.lockerIds h.toBelongings, (inboxAnchor e.1).isSome = true := by
      intro e he
      obtain ⟨d, ht, e1⟩ := hmem e he
      rw [e1, hkey d (hd d (ne_nil_of_mem ht))]
      rfl
    have hnumber : ∀ s : Nat, 101 ≤ s → inboxAnchor (s : Int) = none := by
      intro s hs
      unfold inboxAnchor
      rw [if_neg (by omega)]
    refine (loadPass_saveItems (fun _ => false) pushFront hok hanchor hnumber (fun _ _ _ _ => rfl) d).trans ?_
    rw [placed_pushFront]
    unfold collectInboxItems
    rw [filter_flatMap, flatMap_single h.lockerIds_nodup (d := d)]
    · rw [filter_keyed]
      by_cases hm : d ∈ h.lockerIds
      · rw [if_pos hm]
        by_cases hne : h.inbox d = []
        · rw [hne]
          simp
        · rw [if_pos (hkey d (hd d hne)), map_map]
          rfl
      · rw [if_neg hm, h.inbox_off d hm]
        rfl
    · intro x hx
      rw [filter_keyed]
      grind

theorem storeInbox_load : (load types h.save).storeInbox = h.storeInbox.map (comesBack types) := by
  have hok : ∀ e ∈ storeInboxList h.toBelongings, ItemOk types e.2 := by
    intro e he
    obtain ⟨t, ht, rfl⟩ := mem_map.mp he
    exact h.storeInbox_ok t ht
  have hanchor : ∀ e ∈ storeInboxList h.toBelongings, (storeInboxAnchor e.1).isSome = true := by
    intro e he
    obtain ⟨t, _, rfl⟩ := mem_map.mp he
    rfl
  have hnumber : ∀ s : Nat, 101 ≤ s → storeInboxAnchor (s : Int) = none := by
    intro s hs
    unfold storeInboxAnchor
    rw [if_neg (by omega)]
  refine (loadPass_saveItems (fun _ => false) pushFront hok hanchor hnumber (fun _ _ _ _ => rfl) ()).trans ?_
  rw [placed_pushFront]
  unfold storeInboxList
  rw [filter_keyed, if_pos (show storeInboxAnchor 0 = some () from rfl), map_map]
  rfl

theorem inventoryAnchor_slot (s : Fin 10) : inventoryAnchor ((s : Int) + 1) = some s := by
  have hs := s.isLt
  unfold inventoryAnchor
  rw [dif_pos (by omega)]
  congr
  omega

theorem inventory_load (s : Fin 10) : (load types h.save).inventory s = (h.inventory s).map (comesBack types) := by
  have hmem : ∀ e ∈ inventoryList h.toBelongings, ∃ s : Fin 10, h.inventory s = some e.2 ∧ e.1 = (s : Int) + 1 := by
    intro e he
    obtain ⟨s, _, he⟩ := mem_filterMap.mp he
    obtain ⟨t, ht, rfl⟩ := Option.map_eq_some_iff.mp he
    exact ⟨s, ht, rfl⟩
  have hok : ∀ e ∈ inventoryList h.toBelongings, ItemOk types e.2 := by
    intro e he
    obtain ⟨s, ht, _⟩ := hmem e he
    exact h.inventory_ok s _ ht
  have hanchor : ∀ e ∈ inventoryList h.toBelongings, (inventoryAnchor e.1).isSome = true := by
    intro e he
    obtain ⟨s, _, e1⟩ := hmem e he
    rw [e1, inventoryAnchor_slot]
    rfl
  have hnumber : ∀ s : Nat, 101 ≤ s → inventoryAnchor (s : Int) = none := by
    intro s hs
    unfold inventoryAnchor
    rw [dif_neg (by omega)]
  have hslot : (inventoryList h.toBelongings).filter (fun e => decide (inventoryAnchor e.1 = some s)) =
      ((h.inventory s).map fun t => ((s : Int) + 1, t)).toList := by
    unfold inventoryList
    rw [← filterMap_eq_filter, filterMap_filterMap, filterMap_eq_flatMap_toList,
      flatMap_single (nodup_finRange 10) (d := s), if_pos (mem_finRange s)]
    · cases h.inventory s <;> simp [inventoryAnchor_slot]
    intro x hx
    cases h.inventory x with
    | none => rfl
    | some t => simp [inventoryAnchor_slot, hx]
  show (loadPass types _ inventoryAnchor equip (saveItems types (inventoryList h.toBelongings)) s).head? = _
  rw [loadPass_saveItems (fun _ => false) equip hok hanchor hnumber (fun _ _ _ _ => rfl) s]
  unfold placed
  rw [filter_map, map_map]
  show (List.foldr equip [] (List.map _ (List.filter (fun e : Int × Item => decide (inventoryAnchor e.1 = some s)) _))).head? = _
  rw [hslot]
  cases h.inventory s with
  | none => rfl
  | some t => rfl

end

/-- What a player holds comes back from the tables as it was saved exactly when no depot
    numbered 100 or above holds items outside its boxes or in its inbox, and no depot box
    is among the items of a chest or of its boxes. -/
theorem load_save_iff {types : Nat → ItemType} (h : Holdings types) :
    load types h.save = h.toBelongings.map (comesBack types) ↔
      (∀ d, (h.chest d).items ≠ [] → d < 100) ∧ (∀ d, h.inbox d ≠ [] → d < 100) ∧ ∀ d, (h.chest d).NoBox := by
  constructor
  · intro e
    have hd := (depot_load_iff h).mp fun d => by rw [e]; rfl
    have hi := (inbox_load_iff h).mp fun d => by rw [e]; rfl
    exact ⟨hd.1, hi, hd.2⟩
  · rintro ⟨hd, hi, hb⟩
    have h1 : (load types h.save).inventory = _ := funext (inventory_load h)
    have h2 : (load types h.save).chest = _ := funext ((depot_load_iff h).mpr ⟨hd, hb⟩)
    have h3 : (load types h.save).inbox = _ := funext ((inbox_load_iff h).mpr hi)
    have h4 := storeInbox_load h
    cases hl : load types h.save with
    | mk inv ch inb st =>
      rw [hl] at h1 h2 h3 h4
      simp only at h1 h2 h3 h4
      rw [h1, h2, h3, h4]
      rfl

def plainTypes : Nat → ItemType := fun _ =>
  { deprecated := false, known := true, stackable := false, fluid := false, charges := 0, container := false,
    depot := false, rewardChest := false, fixed := false }

def depotHundred : Holdings plainTypes where
  inventory _ := none
  chest d := if d = 100 then ⟨[.node ⟨3031, 1, false, none, []⟩ []], fun _ => []⟩ else ⟨[], fun _ => []⟩
  inbox _ := []
  storeInbox := []
  depotIds := [100]
  lockerIds := []
  depotIds_nodup := by decide
  lockerIds_nodup := by decide
  depotIds_lt := by decide
  lockerIds_lt := by decide
  chest_off := by
    intro d hd
    exact if_neg (by simpa using hd)
  inbox_off _ _ := rfl
  inventory_ok := by
    intro s t h
    cases h
  chest_ok := by
    intro d t h
    split at h
    · rcases h with h | ⟨_, h⟩
      · rw [mem_singleton.mp h]
        simp [ItemOk, RoseTree.Sound, RoseTree.SoundAll, RoseTree.labels, RoseTree.labelsAll, Valid, plainTypes, containerClass, isDepotBox,
          ITEM_DEPOT_BOX_1, ITEM_INBOX]
      · cases h
    · rcases h with h | ⟨_, h⟩ <;> cases h
  inbox_ok := by
    intro d t h
    cases h
  storeInbox_ok := by
    intro t h
    cases h

/-- The item is gone after the next login. -/
theorem depotHundred_lost :
    load plainTypes depotHundred.save ≠ depotHundred.toBelongings.map (comesBack plainTypes) := by
  intro e
  have hlost := depot_items_lost plainTypes (d := 100) (by decide) depotHundred.save
  rw [e] at hlost
  exact cons_ne_nil _ _ hlost

end Backlands.Items
