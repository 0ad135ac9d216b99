/-
  Backlands.Items.Reward — the reward chest across logins (src/iologindata.cpp, the reward
  parts of `savePlayerQueries` and `loadPlayer`; src/container.cpp, `internalAddThing`).

  Saving writes the items of the chest's bags, not the bags. Loading puts each row, from
  the last, into a bag for the date the row carries, whatever its parent was, and drops
  rows dated before the cutoff; a row without a date counts as dated zero. A reward
  container takes the date off stackable items as they enter it.

  The bags stand in the chest in the order an unordered map is walked in: `order`, any
  reordering. `c` gives the cutoff of each login.

  Proved: `rewards_survive_iff`. Every item is in the chest, with its count and in its bag,
  after every number of logins, exactly when (`Keeps`) the chest holds only bags, and each
  item in them has no contents, is not stackable, is not one of the ids that loading
  changes and carries the date of its bag, and no two bags that hold items have one date.
-/

import Mathlib.Data.Multiset.Bind
import Mathlib.Algebra.Order.BigOperators.Group.List
import Backlands.Items.Storage

namespace Backlands.Items

open Backlands.Lib List

/-! ## Saving and loading the chest -/

/-- The items to save: a container's contents under a number of its own, others as they are. -/
def rewardList : Nat → List Item → List (Int × Item)
  | _, [] => []
  | pidCounter, t :: ts =>
    if t.label.isContainer then (t.contents.map fun u => ((pidCounter : Int), u)) ++ rewardList (pidCounter + 1) ts
    else (0, t) :: rewardList pidCounter ts

def dateOf (d : ItemData) : Int := getIntAttr d.date

section
variable (types : Nat → ItemType)

/-- One row into the bag of its date, which is made when it is missing. -/
def putReward (d : ItemData) : List Item → List Item
  | [] =>
    match createItem types ITEM_REWARD_CONTAINER 0 with
    | none => []
    | some b =>
      if b.isContainer then
        [.node { b with date := some (dateOf d) } [.node (enter types b d) []]]
      else []
  | b :: bags =>
    if dateOf b.label = dateOf d then .node b.label (.node (enter types b.label d) [] :: b.contents) :: bags
    else b :: putReward d bags

def fillBags (cutoff : Int) (ds : List ItemData) : List Item :=
  ds.foldl (fun bags d => if dateOf d < cutoff then bags else putReward types d bags) []

/-- A logout and the next login. -/
def cycle (order : List Item → List Item) (cutoff : Int) (chest : List Item) : List Item :=
  order (fillBags types cutoff
    ((loadItems types (storeQuery (saveItems types (rewardList 1 chest)))).map (·.label)))

def cycles (order : Nat → List Item → List Item) (c : Nat → Int) : Nat → List Item → List Item
  | 0, chest => chest
  | n + 1, chest => cycle types (order n) (c n) (cycles order c n chest)

/-! ## What the chest holds -/

def entries (chest : List Item) : List (Option Int × Item) :=
  chest.flatMap fun t =>
    if t.label.isContainer then t.contents.map fun u => (some (dateOf t.label), u)
    else [(none, t)]

/-- `getItemCount`. -/
def getItemCount (d : ItemData) : Nat := if (types d.id).stackable then d.subType else 1

/-- An item as a player sees it: ids and counts, with its contents. -/
def view (t : Item) : RoseTree (Nat × Nat) := t.map fun d => (d.id, getItemCount types d)

def content (chest : List Item) : Multiset (Option Int × RoseTree (Nat × Nat)) :=
  ((entries chest).map fun e => (e.1, view types e.2) : List _)

/-- What a thing of the chest holds: the date of a bag and the items in it with their
    counts, for a bag that holds any; an item outside a bag is by itself. -/
def holding (t : Item) : Option (Option Int × Multiset (RoseTree (Nat × Nat))) :=
  if t.label.isContainer then
    if t.contents.isEmpty then none else some (some (dateOf t.label), (t.contents.map (view types) : List _))
  else some (none, {view types t})

def filledBags (chest : List Item) : Multiset (Option Int × Multiset (RoseTree (Nat × Nat))) :=
  (chest.filterMap (holding types) : List _)

/-- A chest as the game makes it: bags carry the time they were made at, the items in them
    that time or none. The item table has the reward container. -/
structure RewardOk (chest : List Item) : Prop where
  table : (types ITEM_REWARD_CONTAINER).deprecated = false ∧ (types ITEM_REWARD_CONTAINER).known = true ∧
    (types ITEM_REWARD_CONTAINER).container = true
  ok : ∀ t ∈ chest, ItemOk types t
  bagDate : ∀ t ∈ chest, t.label.isContainer = true → 0 < dateOf t.label ∧ dateOf t.label < 2 ^ 31
  itemDate : ∀ t ∈ chest, t.label.isContainer = true → ∀ u ∈ t.contents,
    dateOf u.label = 0 ∨ dateOf u.label = dateOf t.label

structure Stays (chest : List Item) : Prop where
  bags : ∀ t ∈ chest, t.label.isContainer = true
  flat : ∀ t ∈ chest, ∀ u ∈ t.contents, u.contents = []
  fixed : ∀ t ∈ chest, ∀ u ∈ t.contents, createdId types u.label.id = u.label.id
  dated : ∀ t ∈ chest, ∀ u ∈ t.contents, dateOf u.label = dateOf t.label

/-- What keeps it there at every login: a stackable item loses its date at the first. Bags of
    one date come back as one. -/
structure Keeps (chest : List Item) : Prop extends Stays types chest where
  single : ∀ t ∈ chest, ∀ u ∈ t.contents, (types u.label.id).stackable = false
  distinct : chest.Pairwise fun t t' => t.contents ≠ [] → t'.contents ≠ [] → dateOf t.label ≠ dateOf t'.label

/-! ## Rows into bags -/

/-- What a reward container makes of an item. -/
def strip (d : ItemData) : ItemData :=
  if (types d.id).stackable then { d with date := none } else d

/-- The reward container that `CreateItem` makes. -/
structure IsBag (b : ItemData) : Prop where
  made : createItem types ITEM_REWARD_CONTAINER 0 = some b
  valid : Valid types b
  container : b.isContainer = true
  id : b.id = ITEM_REWARD_CONTAINER

/-- Bags as loading makes them. -/
structure Bagged (bags : List Item) : Prop where
  bag : ∀ b ∈ bags, Valid types b.label ∧ b.label.isContainer = true ∧ b.label.id = ITEM_REWARD_CONTAINER
  filled : ∀ b ∈ bags, b.contents ≠ []
  flat : ∀ b ∈ bags, ∀ u ∈ b.contents, u.contents = []

end

section
variable {types : Nat → ItemType}

variable {b : ItemData} {chest : List Item}

theorem enter_bag (h : b.id = ITEM_REWARD_CONTAINER) (d : ItemData) : enter types b d = strip types d := by
  unfold enter strip
  simp only [h, true_and]

theorem RewardOk.bag (h : RewardOk types chest) : ∃ b, IsBag types b := by
  obtain ⟨h1, h2, h3⟩ := h.table
  have hc : containerClass types ITEM_REWARD_CONTAINER = true := by simp [containerClass, h3]
  have hid : createdId types ITEM_REWARD_CONTAINER = ITEM_REWARD_CONTAINER := by simp [createdId, hc]
  refine ⟨⟨createdId types ITEM_REWARD_CONTAINER, initialSubType types (createdId types ITEM_REWARD_CONTAINER) 0,
    containerClass types ITEM_REWARD_CONTAINER, none, []⟩, ?_, ?_, hc, hid⟩
  · simp [createItem, h1, h2, hc]
  · rw [hid]
    exact ⟨h1, h2, rfl⟩

section
variable {b : ItemData}

theorem putReward_nil (hb : IsBag types b) (d : ItemData) : putReward types d [] =
    [.node { b with date := some (dateOf d) } [.node (strip types d) []]] := by
  simp only [putReward, hb.made, hb.container, if_true, enter_bag hb.id]

theorem Bagged.put (hb : IsBag types b) {bags : List Item} (h : Bagged types bags) (d : ItemData) :
    Bagged types (putReward types d bags) := by
  induction bags with
  | nil =>
    rw [putReward_nil hb]
    refine ⟨?_, ?_, ?_⟩
    · intro x hx
      rw [mem_singleton.mp hx]
      exact ⟨hb.valid, hb.container, hb.id⟩
    · simp
    · simp
  | cons x bags ih =>
    have hx := h.bag x mem_cons_self
    have hrest : Bagged types bags :=
      ⟨fun y hy => h.bag y (mem_cons_of_mem _ hy), fun y hy => h.filled y (mem_cons_of_mem _ hy),
        fun y hy => h.flat y (mem_cons_of_mem _ hy)⟩
    unfold putReward
    split
    · refine ⟨?_, ?_, ?_⟩
      · intro y hy
        rcases mem_cons.mp hy with rfl | hy
        · exact hx
        · exact hrest.bag y hy
      · intro y hy
        rcases mem_cons.mp hy with rfl | hy
        · exact cons_ne_nil _ _
        · exact hrest.filled y hy
      · intro y hy u hu
        rcases mem_cons.mp hy with rfl | hy
        · rcases mem_cons.mp hu with rfl | hu
          · rfl
          · exact h.flat x mem_cons_self u hu
        · exact hrest.flat y hy u hu
    · have hput := ih hrest
      refine ⟨?_, ?_, ?_⟩
      · intro y hy
        rcases mem_cons.mp hy with rfl | hy
        · exact hx
        · exact hput.bag y hy
      · intro y hy
        rcases mem_cons.mp hy with rfl | hy
        · exact h.filled y mem_cons_self
        · exact hput.filled y hy
      · intro y hy
        rcases mem_cons.mp hy with rfl | hy
        · exact h.flat y mem_cons_self
        · exact hput.flat y hy

theorem entries_cons (t : Item) (chest : List Item) (h : t.label.isContainer = true) :
    entries (t :: chest) = (t.contents.map fun u => (some (dateOf t.label), u)) ++ entries chest := by
  simp [entries, h]

theorem entries_put (hb : IsBag types b) {bags : List Item} (h : Bagged types bags) (d : ItemData) :
    (entries (putReward types d bags)).Perm ((some (dateOf d), .node (strip types d) []) :: entries bags) := by
  induction bags with
  | nil =>
    rw [putReward_nil hb, entries_cons]
    · exact List.Perm.refl _
    · exact hb.container
  | cons x bags ih =>
    obtain ⟨_, hx, hxid⟩ := h.bag x mem_cons_self
    have hrest : Bagged types bags :=
      ⟨fun y hy => h.bag y (mem_cons_of_mem _ hy), fun y hy => h.filled y (mem_cons_of_mem _ hy),
        fun y hy => h.flat y (mem_cons_of_mem _ hy)⟩
    unfold putReward
    split
    · rename_i hd
      have hnew := entries_cons (.node x.label (.node (enter types x.label d) [] :: x.contents)) bags hx
      rw [hnew, entries_cons x bags hx, enter_bag hxid]
      simp only [RoseTree.label_node, RoseTree.contents_node, map_cons, cons_append]
      rw [hd]
    · exact (List.Perm.append_left _ (ih hrest)).trans perm_middle

theorem fillBags_snoc (cutoff : Int) (ds : List ItemData) (d : ItemData) :
    fillBags types cutoff (ds ++ [d]) =
      if dateOf d < cutoff then fillBags types cutoff ds else putReward types d (fillBags types cutoff ds) := by
  simp [fillBags, foldl_append]

theorem fillBags_bagged (hb : IsBag types b) (cutoff : Int) (ds : List ItemData) :
    Bagged types (fillBags types cutoff ds) := by
  induction ds using reverseRecOn with
  | nil => exact ⟨fun _ h => (not_mem_nil h).elim, fun _ h => (not_mem_nil h).elim,
      fun _ h => (not_mem_nil h).elim⟩
  | append_singleton ds d ih =>
    rw [fillBags_snoc]
    split
    · exact ih
    · exact ih.put hb d

def keptRows (cutoff : Int) (ds : List ItemData) : List ItemData := ds.filter fun d => decide (cutoff ≤ dateOf d)

theorem keptRows_snoc (cutoff : Int) (ds : List ItemData) (d : ItemData) :
    keptRows cutoff (ds ++ [d]) = if dateOf d < cutoff then keptRows cutoff ds else keptRows cutoff ds ++ [d] := by
  unfold keptRows
  by_cases hd : dateOf d < cutoff
  · have hn : ¬ cutoff ≤ dateOf d := by omega
    simp [hd, hn]
  · have hn : cutoff ≤ dateOf d := by omega
    simp [hd, hn]

theorem entries_fillBags (hb : IsBag types b) (cutoff : Int) (ds : List ItemData) :
    (entries (fillBags types cutoff ds)).Perm
      ((keptRows cutoff ds).map fun d => (some (dateOf d), .node (strip types d) [])) := by
  induction ds using reverseRecOn with
  | nil => exact List.Perm.refl _
  | append_singleton ds d ih =>
    rw [fillBags_snoc, keptRows_snoc]
    split
    · exact ih
    · rw [map_append]
      refine (entries_put hb (fillBags_bagged hb cutoff ds) d).trans ?_
      exact (List.Perm.cons _ ih).trans (perm_append_singleton _ _).symm

end

/-! ## One login -/

variable {e : Option Int × Item} {d : ItemData}

theorem mem_entries : e ∈ entries chest ↔ ∃ t ∈ chest,
    (t.label.isContainer = true ∧ ∃ u ∈ t.contents, e = (some (dateOf t.label), u)) ∨
      (t.label.isContainer = false ∧ e = (none, t)) := by
  unfold entries
  rw [mem_flatMap]
  apply exists_congr
  intro t
  apply and_congr_right
  intro _
  cases hc : t.label.isContainer with
  | true =>
    simp only [if_true, mem_map, true_and, Bool.true_eq_false, false_and, or_false]
    exact ⟨fun ⟨u, hu, h⟩ => ⟨u, hu, h.symm⟩, fun ⟨u, hu, h⟩ => ⟨u, hu, h.symm⟩⟩
  | false => simp

theorem entries_perm {l l' : List Item} (h : l.Perm l') : (entries l).Perm (entries l') := h.flatMap_right _

theorem rewardList_items (n : Nat) (chest : List Item) :
    (rewardList n chest).map (·.2) = (entries chest).map (·.2) := by
  induction chest generalizing n with
  | nil => rfl
  | cons t chest ih =>
    cases hc : t.label.isContainer with
    | true =>
      rw [entries_cons t chest hc]
      simp [rewardList, hc, ih]
    | false =>
      have hone : entries (t :: chest) = (none, t) :: entries chest := by simp [entries, hc]
      rw [hone]
      simp [rewardList, hc, ih]

theorem RewardOk.entry {chest : List Item} (h : RewardOk types chest) {e : Option Int × Item}
    (he : e ∈ entries chest) : ItemOk types e.2 := by
  obtain ⟨t, ht, ⟨_, u, hu, rfl⟩ | ⟨_, rfl⟩⟩ := mem_entries.mp he
  · obtain ⟨h1, h2⟩ := h.ok t ht
    exact ⟨(RoseTree.sound_iff.mp h1).2 u hu, fun d hd => h2 d (RoseTree.labels_child hu hd)⟩
  · exact h.ok t ht

theorem RewardOk.valid (h : RewardOk types chest) (he : e ∈ entries chest) :
    Valid types e.2.label := (h.entry he).2 _ e.2.label_mem

theorem cycle_flat (h : RewardOk types chest) (hflat : ∀ e ∈ entries chest, e.2.contents = [])
    (order : List Item → List Item) (cutoff : Int) : cycle types order cutoff chest =
      order (fillBags types cutoff ((entries chest).map fun e => reload types e.2.label).reverse) := by
  have hitem : ∀ e ∈ rewardList 1 chest, ∃ e' ∈ entries chest, e'.2 = e.2 := by
    intro e he
    have hm : e.2 ∈ (entries chest).map (·.2) := by
      rw [← rewardList_items 1 chest]
      exact mem_map_of_mem he
    exact mem_map.mp hm
  have hok : ∀ e ∈ rewardList 1 chest, ItemOk types e.2 := by
    intro e he
    obtain ⟨e', he', h'⟩ := hitem e he
    rw [← h']
    exact h.entry he'
  have hleaf : ∀ e ∈ (rewardList 1 chest).map fun e => (e.1, e.2.map (reload types)), e.2.contents = [] := by
    intro e he
    obtain ⟨x, hx, rfl⟩ := mem_map.mp he
    obtain ⟨e', he', h'⟩ := hitem x hx
    rw [RoseTree.contents_map, ← h', hflat e' he', map_nil]
  have hlabels : (rewardList 1 chest).map (fun e => reload types e.2.label) =
      (entries chest).map fun e => reload types e.2.label := by
    have := congrArg (List.map fun t : Item => reload types t.label) (rewardList_items 1 chest)
    rwa [map_map, map_map] at this
  unfold cycle
  rw [loadItems_saveItems hok, encode_leaves 101 hleaf, map_reverse, numberTop_labels, map_map, ← hlabels]
  congr 4
  funext e
  simp

theorem reload_eq (h : Valid types d) : (reload types d).id = createdId types d.id ∧
    (reload types d).date = (serializeAttr types d).writtenDate.map (·.toInt) := by
  obtain ⟨h1, h2, _⟩ := h
  simp [reload, readRow, store, createItem, unserializeAttr, h1, h2]

theorem dateOf_reload (h : Valid types d) (h0 : 0 ≤ dateOf d) (h1 : dateOf d < 2 ^ 31) :
    dateOf (reload types d) = dateOf d := by
  unfold dateOf at *
  rw [(reload_eq h).2]
  simp only [serializeAttr]
  split
  · rename_i e
    rw [e]
    rfl
  · simp only [Option.map_some, getIntAttr, Option.getD_some, BitVec.toInt_ofInt]
    unfold getIntAttr at h0 h1
    rw [Int.bmod_def]
    split <;> omega

def entryAfter (types : Nat → ItemType) (e : Option Int × Item) : Option Int × Item :=
  (some (dateOf e.2.label), .node (strip types (reload types e.2.label)) [])

section
variable {chest : List Item} {order : List Item → List Item} {cutoff : Int}

theorem RewardOk.date (h : RewardOk types chest) (hbags : ∀ t ∈ chest, t.label.isContainer = true)
    (he : e ∈ entries chest) : dateOf (reload types e.2.label) = dateOf e.2.label := by
  have hv := h.valid he
  obtain ⟨t, ht, ⟨hc, u, hu, rfl⟩ | ⟨hn, _⟩⟩ := mem_entries.mp he
  · have hb := h.bagDate t ht hc
    rcases h.itemDate t ht hc u hu with e | e
    · exact dateOf_reload hv (by rw [e]) (by rw [e]; decide)
    · exact dateOf_reload hv (by rw [e]; omega) (by rw [e]; exact hb.2)
  · rw [hbags t ht] at hn
    cases hn

/-- The rows of a chest of bags with plain items: their kept part decides what comes back. -/
theorem entries_cycle (h : RewardOk types chest) (hbags : ∀ t ∈ chest, t.label.isContainer = true)
    (hflat : ∀ e ∈ entries chest, e.2.contents = []) (horder : ∀ l, (order l).Perm l)
    (hkept : ∀ e ∈ entries chest, cutoff ≤ dateOf e.2.label) :
    (entries (cycle types order cutoff chest)).Perm ((entries chest).map (entryAfter types)) := by
  obtain ⟨b, hb⟩ := h.bag
  have hall : keptRows cutoff ((entries chest).map fun e => reload types e.2.label).reverse =
      ((entries chest).map fun e => reload types e.2.label).reverse := by
    unfold keptRows
    rw [filter_eq_self]
    intro d hd
    obtain ⟨e, he, rfl⟩ := mem_map.mp (mem_reverse.mp hd)
    rw [decide_eq_true_eq, h.date hbags he]
    exact hkept e he
  rw [cycle_flat h hflat]
  refine (entries_perm (horder _)).trans ((entries_fillBags hb cutoff _).trans ?_)
  rw [hall]
  refine ((reverse_perm _).map _).trans ?_
  rw [map_map]
  apply List.Perm.of_eq
  apply map_congr_left
  intro e he
  rw [Function.comp_apply, h.date hbags he]
  rfl

theorem content_cycle_shape (h : RewardOk types chest) (horder : ∀ l, (order l).Perm l)
    {x : Option Int × RoseTree (Nat × Nat)} (hx : x ∈ content types (cycle types order cutoff chest)) :
    x.1 ≠ none ∧ x.2.contents = [] := by
  obtain ⟨b, hb⟩ := h.bag
  obtain ⟨e, he, rfl⟩ := mem_map.mp (Multiset.mem_coe.mp hx)
  obtain ⟨t, ht, he⟩ := mem_entries.mp he
  have hm := (horder _).mem_iff.mp ht
  have hbag := fillBags_bagged hb cutoff ((loadItems types (storeQuery (saveItems types (rewardList 1 chest)))).map
    (·.label))
  rcases he with ⟨_, u, hu, rfl⟩ | ⟨hn, _⟩
  · refine ⟨by simp, ?_⟩
    rw [view, RoseTree.contents_map, hbag.flat t hm u hu, map_nil]
  · rw [(hbag.bag t hm).2.1] at hn
    cases hn

/-- A login that loses nothing drops no row. -/
theorem kept_of_le (h : RewardOk types chest) (hbags : ∀ t ∈ chest, t.label.isContainer = true)
    (hflat : ∀ e ∈ entries chest, e.2.contents = []) (horder : ∀ l, (order l).Perm l)
    (hle : content types chest ≤ content types (cycle types order cutoff chest)) :
    ∀ e ∈ entries chest, cutoff ≤ dateOf e.2.label := by
  obtain ⟨b, hb⟩ := h.bag
  have hcard := Multiset.card_le_card hle
  have hlen : (entries (cycle types order cutoff chest)).length =
      (keptRows cutoff ((entries chest).map fun e => reload types e.2.label).reverse).length := by
    rw [cycle_flat h hflat, (entries_perm (horder _)).length_eq, (entries_fillBags hb cutoff _).length_eq,
      length_map]
  simp only [content, Multiset.coe_card, length_map, hlen] at hcard
  have hall := length_filter_eq_length_iff.mp (Nat.le_antisymm (length_filter_le _ _) (by
    simpa [keptRows] using hcard) : (keptRows cutoff ((entries chest).map
      fun e => reload types e.2.label).reverse).length = _)
  intro e he
  have := hall (reload types e.2.label) (mem_reverse.mpr (mem_map_of_mem
    (f := fun e : Option Int × Item => reload types e.2.label) he))
  rw [decide_eq_true_eq, h.date hbags he] at this
  exact this

theorem createdId_idem (id : Nat) : createdId types (createdId types id) = createdId types id := by
  by_cases hc : (containerClass types id || (types id).fixed) = true
  · have e : createdId types id = id := by simp [createdId, hc]
    rw [e, e]
  have e : createdId types id = if 3094 ≤ id ∧ id ≤ 3096 then id - 3
      else if id = 3099 ∨ id = 3100 then id - 2
      else if 3086 ≤ id ∧ id ≤ 3090 then id - 37
      else if id = 3549 then 6529
      else if id = 6299 then 6300
      else id := by
    unfold createdId
    rw [if_neg hc]
  generalize createdId types id = id' at e
  have hout : ¬ (3094 ≤ id' ∧ id' ≤ 3096) ∧ ¬ (id' = 3099 ∨ id' = 3100) ∧ ¬ (3086 ≤ id' ∧ id' ≤ 3090) ∧
      ¬ id' = 3549 ∧ ¬ id' = 6299 := by
    rw [e]
    repeat' split
    all_goals omega
  obtain ⟨h1, h2, h3, h4, h5⟩ := hout
  unfold createdId
  rw [if_neg h1, if_neg h2, if_neg h3, if_neg h4, if_neg h5, ite_self]

def bagDate (k : Option Int) : Int := k.getD 0

theorem RewardOk.bag_entry (hbags : ∀ t ∈ chest, t.label.isContainer = true) (he : e ∈ entries chest) :
    ∃ t ∈ chest, e.2 ∈ t.contents ∧ e.1 = some (dateOf t.label) := by
  obtain ⟨t, ht, ⟨_, u, hu, rfl⟩ | ⟨hn, _⟩⟩ := mem_entries.mp he
  · exact ⟨t, ht, hu, rfl⟩
  · rw [hbags t ht] at hn
    cases hn

theorem Stays.of_le (h : RewardOk types chest) (horder : ∀ l, (order l).Perm l)
    (hle : content types chest ≤ content types (cycle types order cutoff chest)) : Stays types chest := by
  have hin : ∀ e ∈ entries chest, (e.1, view types e.2) ∈ content types (cycle types order cutoff chest) := by
    intro e he
    apply Multiset.mem_of_le hle
    exact Multiset.mem_coe.mpr (mem_map_of_mem
      (f := fun e : Option Int × Item => (e.1, view types e.2)) he)
  have hbags : ∀ t ∈ chest, t.label.isContainer = true := by
    intro t ht
    by_contra hc
    rw [Bool.not_eq_true] at hc
    exact (content_cycle_shape h horder (hin (none, t) (mem_entries.mpr ⟨t, ht, .inr ⟨hc, rfl⟩⟩))).1 rfl
  have hflat : ∀ e ∈ entries chest, e.2.contents = [] := by
    intro e he
    have := (content_cycle_shape h horder (hin e he)).2
    rw [view, RoseTree.contents_map] at this
    exact map_eq_nil_iff.mp this
  have hmem : ∀ t ∈ chest, ∀ u ∈ t.contents, (some (dateOf t.label), u) ∈ entries chest :=
    fun t ht u hu => mem_entries.mpr ⟨t, ht, .inl ⟨hbags t ht, u, hu, rfl⟩⟩
  -- Nothing is dropped, so the contents before and after are the same multiset.
  have hperm := entries_cycle h hbags hflat horder (kept_of_le h hbags hflat horder hle)
  have hafter : content types (cycle types order cutoff chest) =
      ((entries chest).map fun e => ((entryAfter types e).1, view types (entryAfter types e).2) : List _) := by
    unfold content
    rw [Multiset.coe_eq_coe]
    refine (hperm.map _).trans ?_
    rw [map_map]
    exact List.Perm.refl _
  have heq : content types chest = content types (cycle types order cutoff chest) := by
    apply Multiset.eq_of_le_of_card_le hle
    rw [hafter]
    simp [content]
  rw [hafter] at heq
  -- The dates of the bags and the dates of the items have one sum, and none of these is above its bag's.
  have hsum : ((entries chest).map fun e => dateOf e.2.label).sum = ((entries chest).map fun e => bagDate e.1).sum := by
    have := congrArg (fun m => (m.map fun x => bagDate x.1).sum) heq
    simp only [content, Multiset.map_coe, Multiset.sum_coe, map_map] at this
    exact this.symm
  have hdate_le : ∀ e ∈ entries chest, dateOf e.2.label ≤ bagDate e.1 := by
    intro e he
    obtain ⟨t, ht, hu, hk⟩ := RewardOk.bag_entry hbags he
    have hb := h.bagDate t ht (hbags t ht)
    rw [hk]
    show dateOf e.2.label ≤ dateOf t.label
    rcases h.itemDate t ht (hbags t ht) e.2 hu with e | e <;> omega
  have hdate : ∀ t ∈ chest, ∀ u ∈ t.contents, dateOf u.label = dateOf t.label := by
    intro t ht u hu
    by_contra hne
    have hlt := sum_lt_sum (fun e => dateOf e.2.label) (fun e => bagDate e.1) hdate_le
      ⟨_, hmem t ht u hu, lt_of_le_of_ne (hdate_le _ (hmem t ht u hu)) hne⟩
    exact absurd hsum (ne_of_lt hlt)
  have hfound : ∀ e ∈ entries chest, ∃ e' ∈ entries chest, (entryAfter types e').1 = e.1 ∧
      view types (entryAfter types e').2 = view types e.2 := by
    intro e he
    have hx : (e.1, view types e.2) ∈ content types chest := Multiset.mem_coe.mpr (mem_map_of_mem
      (f := fun e : Option Int × Item => (e.1, view types e.2)) he)
    rw [heq] at hx
    obtain ⟨e', he', h'⟩ := mem_map.mp (Multiset.mem_coe.mp hx)
    rw [Prod.mk.injEq] at h'
    exact ⟨e', he', h'.1, h'.2⟩
  refine ⟨hbags, fun t ht u hu => hflat _ (hmem t ht u hu), ?_, hdate⟩
  · intro t ht u hu
    obtain ⟨e', he', _, hv⟩ := hfound _ (hmem t ht u hu)
    have hid := congrArg (fun t => t.label.1) hv
    simp only [view, RoseTree.label_map, entryAfter, RoseTree.label_node] at hid
    have hstrip : (strip types (reload types e'.2.label)).id = createdId types e'.2.label.id := by
      unfold strip
      split
      · exact (reload_eq (h.valid he')).1
      · exact (reload_eq (h.valid he')).1
    rw [hstrip] at hid
    rw [← hid, createdId_idem]

theorem Stays.entries_cycle (h : RewardOk types chest) (hs : Stays types chest) (horder : ∀ l, (order l).Perm l)
    (hc : ∀ t ∈ chest, t.label.isContainer = true → cutoff ≤ dateOf t.label) :
    (entries (cycle types order cutoff chest)).Perm
      ((entries chest).map fun e => (e.1, .node (strip types (reload types e.2.label)) [])) := by
  have hflat : ∀ e ∈ entries chest, e.2.contents = [] := by
    intro e he
    obtain ⟨t, ht, hu, _⟩ := RewardOk.bag_entry hs.bags he
    exact hs.flat t ht e.2 hu
  have hkept : ∀ e ∈ entries chest, cutoff ≤ dateOf e.2.label := by
    intro e he
    obtain ⟨t, ht, hu, _⟩ := RewardOk.bag_entry hs.bags he
    rw [hs.dated t ht e.2 hu]
    exact hc t ht (hs.bags t ht)
  refine (Items.entries_cycle h hs.bags hflat horder hkept).trans ?_
  apply List.Perm.of_eq
  apply map_congr_left
  intro e he
  obtain ⟨t, ht, hu, hk⟩ := RewardOk.bag_entry hs.bags he
  rw [entryAfter, hk, hs.dated t ht e.2 hu]

/-- Where a bag that comes back is from. -/
theorem Stays.mem_cycle (h : RewardOk types chest) (hs : Stays types chest) (horder : ∀ l, (order l).Perm l)
    (hc : ∀ t ∈ chest, t.label.isContainer = true → cutoff ≤ dateOf t.label) {t : Item}
    (ht : t ∈ cycle types order cutoff chest) :
    Valid types t.label ∧ t.label.isContainer = true ∧ t.contents ≠ [] ∧ ∀ u ∈ t.contents, ∃ t' ∈ chest,
      ∃ u' ∈ t'.contents, Valid types u'.label ∧ dateOf t.label = dateOf t'.label ∧
        u = .node (strip types (reload types u'.label)) [] := by
  obtain ⟨b, hb⟩ := h.bag
  have hm := (horder _).mem_iff.mp ht
  have hbag := fillBags_bagged hb cutoff ((loadItems types (storeQuery (saveItems types (rewardList 1 chest)))).map
    (·.label))
  obtain ⟨hv, hcont, _⟩ := hbag.bag t hm
  refine ⟨hv, hcont, hbag.filled t hm, ?_⟩
  intro u hu
  have hin := (hs.entries_cycle h horder hc).mem_iff.mp (mem_entries.mpr ⟨t, ht, .inl ⟨hcont, u, hu, rfl⟩⟩)
  obtain ⟨e, he, heq⟩ := mem_map.mp hin
  obtain ⟨t', ht', hu', hk⟩ := RewardOk.bag_entry hs.bags he
  rw [hk] at heq
  simp only [Prod.mk.injEq, Option.some.injEq] at heq
  exact ⟨t', ht', e.2, hu', h.valid he, heq.1.symm, heq.2.symm⟩

theorem valid_strip (h : Valid types d) : Valid types (strip types d) := by
  unfold strip
  split
  · exact h
  · exact h

theorem valid_reload (h : Valid types d) (hid : createdId types d.id = d.id) : Valid types (reload types d) := by
  have e : (reload types d).id = d.id := (reload_eq h).1.trans hid
  have hc := reload_isContainer types h
  obtain ⟨h1, h2, h3⟩ := h
  unfold Valid
  rw [e, hc]
  exact ⟨h1, h2, h3⟩

theorem Stays.rewardOk (h : RewardOk types chest) (hs : Stays types chest) (horder : ∀ l, (order l).Perm l)
    (hc : ∀ t ∈ chest, t.label.isContainer = true → cutoff ≤ dateOf t.label) :
    RewardOk types (cycle types order cutoff chest) := by
  refine ⟨h.table, ?_, ?_, ?_⟩
  · intro t ht
    obtain ⟨hv, hcont, _, hin⟩ := hs.mem_cycle h horder hc ht
    refine ⟨RoseTree.sound_iff.mpr ⟨fun _ => hcont, ?_⟩, ?_⟩
    · intro u hu
      obtain ⟨_, _, _, _, _, _, rfl⟩ := hin u hu
      exact ⟨fun hne => absurd rfl hne, trivial⟩
    intro d hd
    rw [RoseTree.labels_eq] at hd
    rcases mem_cons.mp hd with rfl | hd
    · exact hv
    obtain ⟨u, hu, hd⟩ := RoseTree.mem_labelsAll.mp hd
    obtain ⟨t', ht', u', hu', hv', _, rfl⟩ := hin u hu
    rw [mem_singleton.mp hd]
    exact valid_strip (valid_reload hv' (hs.fixed t' ht' u' hu'))
  · intro t ht _
    obtain ⟨_, _, hne, hin⟩ := hs.mem_cycle h horder hc ht
    obtain ⟨u, hu⟩ := exists_mem_of_ne_nil _ hne
    obtain ⟨t', ht', _, _, _, hd, _⟩ := hin u hu
    rw [hd]
    exact h.bagDate t' ht' (hs.bags t' ht')
  · intro t ht _ u hu
    obtain ⟨_, _, _, hin⟩ := hs.mem_cycle h horder hc ht
    obtain ⟨t', ht', u', hu', hv', hd, rfl⟩ := hin u hu
    have hb := h.bagDate t' ht' (hs.bags t' ht')
    have hu'd := hs.dated t' ht' u' hu'
    rw [RoseTree.label_node]
    unfold strip
    split
    · exact .inl rfl
    · right
      rw [dateOf_reload hv' (by omega) (by omega), hu'd, hd]

/-! ## Bags after a login -/

theorem putReward_dates (hb : IsBag types b) (d : ItemData) {bags : List Item} {x : Item}
    (hx : x ∈ putReward types d bags) : dateOf x.label = dateOf d ∨ ∃ y ∈ bags, dateOf x.label = dateOf y.label := by
  induction bags with
  | nil =>
    rw [putReward_nil hb] at hx
    rw [mem_singleton.mp hx]
    exact .inl rfl
  | cons y bags ih =>
    unfold putReward at hx
    split at hx
    · rcases mem_cons.mp hx with rfl | hx
      · exact .inr ⟨y, mem_cons_self, rfl⟩
      · exact .inr ⟨x, mem_cons_of_mem _ hx, rfl⟩
    · rcases mem_cons.mp hx with rfl | hx
      · exact .inr ⟨x, mem_cons_self, rfl⟩
      · rcases ih hx with e | ⟨z, hz, e⟩
        · exact .inl e
        · exact .inr ⟨z, mem_cons_of_mem _ hz, e⟩

theorem putReward_nodup (hb : IsBag types b) (d : ItemData) {bags : List Item}
    (h : (bags.map fun x => dateOf x.label).Nodup) : ((putReward types d bags).map fun x => dateOf x.label).Nodup := by
  induction bags with
  | nil =>
    rw [putReward_nil hb]
    exact nodup_singleton _
  | cons x bags ih =>
    obtain ⟨hx, hrest⟩ := nodup_cons.mp (map_cons ▸ h)
    unfold putReward
    split
    · exact h
    rename_i e
    refine nodup_cons.mpr ⟨?_, ih hrest⟩
    intro hmem
    obtain ⟨y, hy, ey⟩ := mem_map.mp hmem
    rcases putReward_dates hb d hy with e' | ⟨z, hz, e'⟩
    · exact e (ey.symm.trans e')
    · exact hx (mem_map.mpr ⟨z, hz, e'.symm.trans ey⟩)

theorem fillBags_nodup (hb : IsBag types b) (ds : List ItemData) :
    ((fillBags types cutoff ds).map fun x => dateOf x.label).Nodup := by
  induction ds using reverseRecOn with
  | nil => exact nodup_nil
  | append_singleton ds d ih =>
    rw [fillBags_snoc]
    split
    · exact ih
    · exact putReward_nodup hb d ih

theorem dates_cycle (h : RewardOk types chest) (horder : ∀ l, (order l).Perm l) :
    ((cycle types order cutoff chest).map fun t => dateOf t.label).Nodup := by
  obtain ⟨b, hb⟩ := h.bag
  exact ((horder _).map _).nodup_iff.mpr (fillBags_nodup hb _)

theorem Keeps.cycle (h : RewardOk types chest) (hk : Keeps types chest) (horder : ∀ l, (order l).Perm l)
    (hc : ∀ t ∈ chest, t.label.isContainer = true → cutoff ≤ dateOf t.label) :
    content types (cycle types order cutoff chest) = content types chest ∧
      Keeps types (cycle types order cutoff chest) := by
  have hs := hk.toStays
  have hlabel : ∀ t ∈ chest, ∀ u ∈ t.contents, Valid types u.label → strip types (reload types u.label) =
      reload types u.label ∧ (reload types u.label).id = u.label.id := by
    intro t ht u hu hv
    have hid := (reload_eq hv).1.trans (hs.fixed t ht u hu)
    refine ⟨?_, hid⟩
    unfold strip
    rw [hid, hk.single t ht u hu]
    rfl
  refine ⟨?_, ⟨?_, ?_, ?_, ?_⟩, ?_, ?_⟩
  · unfold content
    rw [Multiset.coe_eq_coe]
    refine ((hs.entries_cycle h horder hc).map _).trans ?_
    rw [map_map]
    apply List.Perm.of_eq
    apply map_congr_left
    intro e he
    obtain ⟨t, ht, hu, _⟩ := RewardOk.bag_entry hs.bags he
    obtain ⟨h1, h2⟩ := hlabel t ht e.2 hu (h.valid he)
    have hflat := hs.flat t ht e.2 hu
    have hsingle := hk.single t ht e.2 hu
    have hview : view types (.node (strip types (reload types e.2.label)) []) = view types e.2 := by
      cases hn : e.2 with
      | node d ts =>
        rw [hn] at hflat hsingle h1 h2
        simp only [RoseTree.label_node, RoseTree.contents_node] at hflat hsingle h1 h2
        rw [RoseTree.label_node, h1, hflat]
        simp [view, RoseTree.map, RoseTree.mapAll, getItemCount, h2, hsingle]
    rw [Function.comp_apply, hview]
  · intro t ht
    exact (hs.mem_cycle h horder hc ht).2.1
  · intro t ht u hu
    obtain ⟨_, _, _, _, _, _, rfl⟩ := (hs.mem_cycle h horder hc ht).2.2.2 u hu
    rfl
  · intro t ht u hu
    obtain ⟨t', ht', u', hu', hv', _, rfl⟩ := (hs.mem_cycle h horder hc ht).2.2.2 u hu
    obtain ⟨h1, h2⟩ := hlabel t' ht' u' hu' hv'
    rw [RoseTree.label_node, h1, h2]
    exact hs.fixed t' ht' u' hu'
  · intro t ht u hu
    obtain ⟨t', ht', u', hu', hv', hd, rfl⟩ := (hs.mem_cycle h horder hc ht).2.2.2 u hu
    have hb := h.bagDate t' ht' (hs.bags t' ht')
    have hu'd := hs.dated t' ht' u' hu'
    rw [RoseTree.label_node, (hlabel t' ht' u' hu' hv').1, dateOf_reload hv' (by omega) (by omega), hu'd, hd]
  · intro t ht u hu
    obtain ⟨t', ht', u', hu', hv', _, rfl⟩ := (hs.mem_cycle h horder hc ht).2.2.2 u hu
    obtain ⟨h1, h2⟩ := hlabel t' ht' u' hu' hv'
    rw [RoseTree.label_node, h1, h2]
    exact hk.single t' ht' u' hu'
  · refine (pairwise_map.mp (dates_cycle h horder)).imp ?_
    intro t t' hne _ _
    exact hne

end

/-! ## Bags and their items -/

theorem group_eq {κ α : Type*} [DecidableEq κ] {s : Multiset (κ × Multiset α)} (h : (s.map Prod.fst).Nodup)
    {g : κ × Multiset α} (hg : g ∈ s) :
    ((s.bind fun b => b.2.map (Prod.mk b.1)).filter (·.1 = g.1)).map Prod.snd = g.2 := by
  obtain ⟨rest, rfl⟩ := Multiset.exists_cons_of_mem hg
  rw [Multiset.map_cons, Multiset.nodup_cons] at h
  have hown : (g.2.map (Prod.mk g.1)).filter (·.1 = g.1) = g.2.map (Prod.mk g.1) := by
    simp
  have hother : (rest.bind fun b => b.2.map (Prod.mk b.1)).filter (·.1 = g.1) = 0 := by
    rw [Multiset.filter_eq_nil]
    intro x hx e
    obtain ⟨b, hb, hx⟩ := Multiset.mem_bind.mp hx
    obtain ⟨_, _, rfl⟩ := Multiset.mem_map.mp hx
    exact h.1 (Multiset.mem_map.mpr ⟨b, hb, e⟩)
  rw [Multiset.cons_bind, Multiset.filter_add, hown, hother, add_zero, Multiset.map_map]
  exact Multiset.map_id _

theorem groups_subset {κ α : Type*} [DecidableEq κ] {s t : Multiset (κ × Multiset α)} (hs : (s.map Prod.fst).Nodup)
    (ht : (t.map Prod.fst).Nodup) (hne : ∀ g ∈ s, g.2 ≠ 0)
    (h : (s.bind fun b => b.2.map (Prod.mk b.1)) = t.bind fun b => b.2.map (Prod.mk b.1)) : s ⊆ t := by
  intro g hg
  obtain ⟨a, ha⟩ := Multiset.exists_mem_of_ne_zero (hne g hg)
  have hmem : (g.1, a) ∈ s.bind fun b => b.2.map (Prod.mk b.1) :=
    Multiset.mem_bind.mpr ⟨g, hg, Multiset.mem_map_of_mem _ ha⟩
  rw [h] at hmem
  obtain ⟨g', hg', hx⟩ := Multiset.mem_bind.mp hmem
  obtain ⟨_, _, e⟩ := Multiset.mem_map.mp hx
  have hkey : g'.1 = g.1 := (Prod.mk.inj e).1
  have hval : g'.2 = g.2 := by
    rw [← group_eq ht hg', ← group_eq hs hg, h, hkey]
  rwa [← Prod.ext hkey hval]

theorem content_eq_bind (chest : List Item) :
    content types chest = (filledBags types chest).bind fun b => b.2.map (Prod.mk b.1) := by
  induction chest with
  | nil => rfl
  | cons t chest ih =>
    have hsplit : content types (t :: chest) = content types [t] + content types chest := by
      simp [content, entries]
    have hone : filledBags types (t :: chest) = filledBags types [t] + filledBags types chest := by
      unfold filledBags
      rw [← singleton_append, filterMap_append, Multiset.coe_add]
    rw [hsplit, hone, Multiset.add_bind, ih]
    congr 1
    cases hc : t.label.isContainer with
    | false => simp [content, entries, filledBags, holding, hc]
    | true =>
      by_cases hne : t.contents = [] <;> simp [hne, content, entries, filledBags, holding, hc, Function.comp_def]

theorem holding_ne_zero {t : Item} {g : Option Int × Multiset (RoseTree (Nat × Nat))} (h : holding types t = some g) :
    g.2 ≠ 0 := by
  unfold holding at h
  split at h
  · grind [Multiset.coe_eq_zero, map_eq_nil_iff]
  · cases h
    exact Multiset.singleton_ne_zero _

theorem keys_nodup_iff {chest : List Item} (hbags : ∀ t ∈ chest, t.label.isContainer = true) :
    ((filledBags types chest).map Prod.fst).Nodup ↔
      chest.Pairwise fun t t' => t.contents ≠ [] → t'.contents ≠ [] → dateOf t.label ≠ dateOf t'.label := by
  have hold : ∀ t ∈ chest, ∀ g, holding types t = some g ↔
      t.contents ≠ [] ∧ (some (dateOf t.label), ((t.contents.map (view types) : List _) : Multiset _)) = g := by
    intro t ht g
    simp [holding, hbags t ht]
  unfold filledBags
  rw [Multiset.map_coe, Multiset.coe_nodup, List.Nodup, pairwise_map, pairwise_filterMap]
  apply List.Pairwise.iff_of_mem
  intro t t' ht ht'
  constructor
  · intro h hne hne' e
    exact h _ ((hold t ht _).mpr ⟨hne, rfl⟩) _ ((hold t' ht' _).mpr ⟨hne', rfl⟩) (congrArg some e)
  intro h g hg g' hg' e
  obtain ⟨hne, rfl⟩ := (hold t ht g).mp hg
  obtain ⟨hne', rfl⟩ := (hold t' ht' g').mp hg'
  exact h hne hne' (Option.some.inj e)

theorem filledBags_eq {chest' : List Item} (hk : Keeps types chest) (hk' : Keeps types chest')
    (h : content types chest = content types chest') : filledBags types chest = filledBags types chest' := by
  have hkeys := (@keys_nodup_iff types _ hk.bags).mpr hk.distinct
  have hkeys' := (@keys_nodup_iff types _ hk'.bags).mpr hk'.distinct
  have hne : ∀ c : List Item, ∀ g ∈ filledBags types c, g.2 ≠ 0 := by
    intro c g hg
    obtain ⟨t, _, ht⟩ := mem_filterMap.mp (Multiset.mem_coe.mp hg)
    exact holding_ne_zero ht
  rw [content_eq_bind, content_eq_bind] at h
  apply (Multiset.Nodup.ext (Multiset.Nodup.of_map _ hkeys) (Multiset.Nodup.of_map _ hkeys')).mpr
  intro g
  exact ⟨fun hg => groups_subset hkeys hkeys' (hne _) h hg, fun hg => groups_subset hkeys' hkeys (hne _) h.symm hg⟩

theorem content_le {chest' : List Item} (h : filledBags types chest ≤ filledBags types chest') :
    content types chest ≤ content types chest' := by
  obtain ⟨rest, hrest⟩ := Multiset.le_iff_exists_add.mp h
  rw [content_eq_bind, content_eq_bind, hrest, Multiset.add_bind]
  exact Multiset.le_add_right _ _

/-! ## Every number of logins -/

theorem Keeps.cycles (h : RewardOk types chest) (hk : Keeps types chest) {order : Nat → List Item → List Item}
    (horder : ∀ n l, (order n l).Perm l) {c : Nat → Int}
    (hc : ∀ n, ∀ t ∈ chest, t.label.isContainer = true → c n ≤ dateOf t.label) (n : Nat) :
    content types (cycles types order c n chest) = content types chest ∧
      RewardOk types (cycles types order c n chest) ∧ Keeps types (cycles types order c n chest) ∧
      ∀ m, ∀ t ∈ cycles types order c n chest, t.label.isContainer = true → c m ≤ dateOf t.label := by
  induction n with
  | zero => exact ⟨rfl, h, hk, hc⟩
  | succ n ih =>
    obtain ⟨hcon, hok, hkeep, hdate⟩ := ih
    obtain ⟨h1, h2⟩ := hkeep.cycle hok (horder n) (hdate n)
    refine ⟨h1.trans hcon, hkeep.toStays.rewardOk hok (horder n) (hdate n), h2, ?_⟩
    intro m t ht _
    obtain ⟨_, _, hne, hin⟩ := hkeep.toStays.mem_cycle hok (horder n) (hdate n) ht
    obtain ⟨u, hu⟩ := exists_mem_of_ne_nil _ hne
    obtain ⟨t', ht', _, _, _, hd, _⟩ := hin u hu
    rw [hd]
    exact hdate m t' ht' (hkeep.bags t' ht')

theorem Stays.single (h : RewardOk types chest) (hs : Stays types chest) {order : List Item → List Item}
    (horder : ∀ l, (order l).Perm l) {cutoff : Int}
    (hc : ∀ t ∈ chest, t.label.isContainer = true → cutoff ≤ dateOf t.label)
    (hs' : Stays types (cycle types order cutoff chest)) :
    ∀ t ∈ chest, ∀ u ∈ t.contents, (types u.label.id).stackable = false := by
  intro t ht u hu
  by_contra hst
  rw [Bool.not_eq_false] at hst
  have he : (some (dateOf t.label), u) ∈ entries chest :=
    mem_entries.mpr ⟨t, ht, .inl ⟨hs.bags t ht, u, hu, rfl⟩⟩
  have hv := h.valid he
  have hid : (reload types u.label).id = u.label.id := (reload_eq hv).1.trans (hs.fixed t ht u hu)
  have hnext : (some (dateOf t.label), .node (strip types (reload types u.label)) []) ∈
      entries (cycle types order cutoff chest) :=
    (hs.entries_cycle h horder hc).mem_iff.mpr (mem_map.mpr ⟨_, he, rfl⟩)
  obtain ⟨t', ht', hu', hk⟩ := RewardOk.bag_entry hs'.bags hnext
  have hzero : dateOf (strip types (reload types u.label)) = 0 := by
    unfold strip
    rw [hid, hst]
    rfl
  have hdated := hs'.dated t' ht' _ hu'
  rw [RoseTree.label_node, hzero] at hdated
  have hpos := ((hs.rewardOk h horder hc).bagDate t' ht' (hs'.bags t' ht')).1
  omega

/-- Every bag that holds items is in the chest with all of them and their counts, over every
    number of logins before it expires, exactly when the chest keeps them. -/
theorem rewards_survive_iff {chest : List Item} (h : RewardOk types chest) {order : Nat → List Item → List Item}
    (horder : ∀ n l, (order n l).Perm l) {c : Nat → Int}
    (hc : ∀ n, ∀ t ∈ chest, t.label.isContainer = true → c n ≤ dateOf t.label) :
    (∀ n, filledBags types chest ≤ filledBags types (cycles types order c n chest)) ↔ Keeps types chest := by
  constructor
  · intro hle
    have hs := Stays.of_le h (horder 0) (content_le (hle 1))
    have hok := hs.rewardOk h (horder 0) (hc 0)
    have hcard : Multiset.card (content types (cycle types (order 0) (c 0) chest)) ≤
        Multiset.card (content types chest) := by
      have hlen := (hs.entries_cycle h (horder 0) (hc 0)).length_eq
      simp [length_map, content, hlen]
    have heq := Multiset.eq_of_le_of_card_le (content_le (hle 1)) hcard
    have hs' : Stays types (cycle types (order 0) (c 0) chest) := by
      have hnext : content types (cycle types (order 0) (c 0) chest) ≤
          content types (cycle types (order 1) (c 1) (cycle types (order 0) (c 0) chest)) := by
        show content types (cycles types order c 1 chest) ≤ content types (cycles types order c 2 chest)
        rw [← heq]
        exact content_le (hle 2)
      exact Stays.of_le hok (horder 1) hnext
    have hdates : ((filledBags types (cycle types (order 0) (c 0) chest)).map Prod.fst).Nodup := by
      refine (keys_nodup_iff hs'.bags).mpr ?_
      exact (pairwise_map.mp (dates_cycle h (horder 0))).imp fun hne _ _ => hne
    have hkeys : ((filledBags types chest).map Prod.fst).Nodup :=
      Multiset.nodup_of_le (Multiset.map_le_map (hle 1)) hdates
    exact ⟨hs, hs.single h (horder 0) (hc 0) hs', (keys_nodup_iff hs.bags).mp hkeys⟩
  · intro hk n
    obtain ⟨hcontent, _, hk', _⟩ := hk.cycles h horder hc n
    exact le_of_eq (filledBags_eq hk hk' hcontent.symm)

/-- Reward containers, a stackable coin (3031) and plain items. -/
def rewardTypes : Nat → ItemType := fun id =>
  { deprecated := false, known := true, stackable := decide (id = 3031), fluid := false, charges := 0,
    container := decide (id = ITEM_REWARD_CONTAINER), depot := false, rewardChest := false, fixed := false }

def bagWith (d : ItemData) : List Item := [.node ⟨ITEM_REWARD_CONTAINER, 1, true, some 1000, []⟩ [.node d []]]

theorem bagWith_ok (hv : Valid rewardTypes d) (hd : dateOf d = 0 ∨ dateOf d = 1000) :
    RewardOk rewardTypes (bagWith d) := by
  refine ⟨by decide, ?_, ?_, ?_⟩
  · intro t ht
    rw [mem_singleton.mp ht]
    refine ⟨by simp [RoseTree.Sound, RoseTree.SoundAll], ?_⟩
    intro x hx
    simp only [RoseTree.labels, RoseTree.labelsAll, append_nil, mem_cons, not_mem_nil, or_false] at hx
    rcases hx with rfl | rfl
    · exact ⟨rfl, rfl, by decide⟩
    · exact hv
  · intro t ht _
    rw [mem_singleton.mp ht]
    show (0 : Int) < 1000 ∧ (1000 : Int) < 2 ^ 31
    decide
  · intro t ht _ u hu
    rw [mem_singleton.mp ht] at hu ⊢
    rw [mem_singleton.mp hu]
    exact hd

/-- A sword in its bag, dated as the game dates it, stays. -/
theorem rewards_survive_iff_sword :
    Keeps rewardTypes (bagWith ⟨3264, 1, false, some 1000, []⟩) ∧
      ∀ n, filledBags rewardTypes (bagWith ⟨3264, 1, false, some 1000, []⟩) ≤
        filledBags rewardTypes (cycles rewardTypes (fun _ l => l) (fun _ => 500) n
          (bagWith ⟨3264, 1, false, some 1000, []⟩)) := by
  have hk : Keeps rewardTypes (bagWith ⟨3264, 1, false, some 1000, []⟩) := by
    refine ⟨⟨?_, ?_, ?_, ?_⟩, ?_, pairwise_singleton _ _⟩
    all_goals
      intro t ht
      rw [mem_singleton.mp ht]
    · rfl
    · simp
    · intro u hu
      rw [mem_singleton.mp hu]
      decide
    · intro u hu
      rw [mem_singleton.mp hu]
      rfl
    · intro u hu
      rw [mem_singleton.mp hu]
      decide
  refine ⟨hk, ?_⟩
  refine (rewards_survive_iff (bagWith_ok ⟨rfl, rfl, by decide⟩ (.inr rfl)) (fun _ _ => List.Perm.refl _) ?_).mpr hk
  intro n t ht _
  rw [mem_singleton.mp ht]
  decide

/-- Coins in a bag, as the game leaves them there, are gone after the next login. -/
theorem coins_lost :
    ¬ ∀ n, filledBags rewardTypes (bagWith ⟨3031, 5, false, none, []⟩) ≤
      filledBags rewardTypes (cycles rewardTypes (fun _ l => l) (fun _ => 500) n
        (bagWith ⟨3031, 5, false, none, []⟩)) := by
  intro h
  have hempty : cycles rewardTypes (fun _ l => l) (fun _ => 500) 1 (bagWith ⟨3031, 5, false, none, []⟩) = [] := rfl
  have hcard := Multiset.card_le_card (h 1)
  rw [hempty] at hcard
  exact absurd hcard (by decide)

end

end Backlands.Items
