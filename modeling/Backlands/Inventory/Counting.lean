/-
  Backlands.Inventory.Counting — `Player::getItemTypeCount` and `Player::removeItemOfType`
  (src/player.cpp) with `Game::internalRemoveItems` (src/game.cpp).

  `slots` are the things in the slots, in order. A thing that is asked for is not searched by
  the removal, although what is in it is counted; and removing a container takes along what
  is in it.

  Proved: `removeItemOfType_exact`. Where the count fits 32 bits, the removal answers what the
  count says and takes exactly the amount when, and only when, the items it finds first can be
  removed, come to the amount or can be parted without losing their subtype, and no other
  counted item lies in them.
-/

import Backlands.Inventory.Things

namespace Backlands.Inventory

open Backlands.Lib Backlands.Lib.RoseTree List

/-- What is asked for. -/
structure Query where
  itemId : ItemId
  subType : Int
  ignoreEquipped : Bool

namespace Items

variable (items : Items) (q : Query)

def counted (a : Item) : Nat := if a.id = q.itemId then items.countByType a q.subType else 0

/-- What a `ContainerIterator` goes through. -/
def iterator (t : Tree) : List Item := if items.isContainer t.label then walk items.isContainer (sizes [t]) [t] else []

def getItemTypeCount (slots : List Tree) : Nat :=
  (slots.map fun t => (if q.ignoreEquipped then 0 else items.counted q t.label) +
    ((items.iterator t).map (items.counted q)).sum).sum % 2 ^ 32

/-- The items `removeItemOfType` looks at in a slot. -/
def slotItems (t : Tree) : List Item :=
  if !q.ignoreEquipped && t.label.id = q.itemId then [t.label] else items.iterator t

def finds (slots : List Tree) : List Item := (slots.flatMap (items.slotItems q)).filter fun a => items.counted q a ≠ 0

/-- `itemList`, once `count` has reached the amount. -/
def itemList (amount : Nat) : List Item → Nat → Option (List Item)
  | [], _ => none
  | a :: l, count =>
    let count := (count + items.counted q a) % 2 ^ 32
    if count ≥ amount then some [a] else (itemList amount l count).map (a :: ·)

/-- `internalRemoveItem` of the whole item, which may be gone already. -/
def internalRemoveItem (a : Item) (slots : List Tree) : List Tree :=
  if (items.type a.id).removable then remove a.ptr slots else slots

/-- `internalRemoveItems` of what stacks. -/
def removeStacks : List Item → Nat → List Tree → List Tree
  | [], _, slots => slots
  | a :: l, amount, slots =>
    if !(items.all slots).any (·.ptr = a.ptr) then removeStacks l amount slots
    else if a.count > amount then
      if (items.type a.id).removable && amount ≠ 0 then setCount a.ptr (a.count - amount) slots else slots
    else removeStacks l (amount - a.count) (items.internalRemoveItem a slots)

def internalRemoveItems (itemList : List Item) (amount : Nat) (stackable : Bool) (slots : List Tree) : List Tree :=
  if stackable then items.removeStacks itemList amount slots
  else itemList.foldl (fun slots a => items.internalRemoveItem a slots) slots

def removeItemOfType (amount : Nat) (slots : List Tree) : Bool × List Tree :=
  if amount = 0 then (true, slots)
  else
    match items.itemList q amount (items.finds q slots) 0 with
    | none => (false, slots)
    | some itemList => (true, items.internalRemoveItems itemList amount (items.type q.itemId).stackable slots)

/-! ## What is counted -/

def field (slots : List Tree) : List Tree :=
  if q.ignoreEquipped then slots.flatMap fun t => if items.isContainer t.label then t.contents else [] else slots

/-- The count, however large. -/
def total (slots : List Tree) : Nat := ((items.all (items.field q slots)).map (items.counted q)).sum

/-- The items a removal takes away with those of `itemList`. -/
def taken (itemList : List Item) (slots : List Tree) : List Item :=
  lostAll items.isContainer (fun b => itemList.any (·.ptr = b.ptr)) (items.field q slots)

end Items

/-- The removal answers what the count says, and takes what it answers. -/
def Agrees (items : Items) (q : Query) (amount : Nat) (slots : List Tree) : Prop :=
  let r := items.removeItemOfType q amount slots
  (r.1 = true ↔ amount ≤ items.getItemTypeCount q slots) ∧
    (r.1 = true → items.getItemTypeCount q r.2 + amount = items.getItemTypeCount q slots) ∧ (r.1 = false → r.2 = slots)

/-- The items in `itemList` can be removed, come to the amount or can be parted, and no other
    counted item goes with them. -/
structure Exactly (items : Items) (q : Query) (amount : Nat) (slots : List Tree) (itemList : List Item) : Prop where
  removable : (items.type q.itemId).removable = true
  parted : (itemList.map (items.counted q)).sum = amount ∨
    ((items.type q.itemId).stackable = true ∧ (q.subType = -1 ∨ (items.type q.itemId).fluid = true))
  alone : ∀ a ∈ items.taken q itemList slots, items.counted q a ≠ 0 → a ∈ itemList

/-- `T` is the shortest beginning of `l` that comes to the amount. -/
structure Shortest (items : Items) (q : Query) (amount : Nat) (l T : List Item) : Prop where
  beginning : T <+: l
  reaches : amount ≤ (T.map (items.counted q)).sum
  least : ∀ T', T' <+: l → amount ≤ (T'.map (items.counted q)).sum → T <+: T'

/-- What a player wears and carries; every item has an address of its own. -/
structure Worn (items : Items) where
  slots : List Tree
  distinct : Distinct items slots

section
variable {items : Items} {q : Query} {slots : List Tree}

theorem iterator_perm (t : Tree) : (items.iterator t).Perm
    (if items.isContainer t.label then reachedAll items.isContainer t.contents else []) := by
  unfold Items.iterator
  split
  · have h := @walk_perm Item items.isContainer _ [t] le_rfl
    rwa [flatMap_cons, flatMap_nil, append_nil] at h
  · exact List.Perm.refl _

/-- The items of a slot that are counted. -/
def Items.visible (items : Items) (q : Query) (t : Tree) : List Item :=
  (if q.ignoreEquipped then [] else [t.label]) ++ items.iterator t

theorem field_perm (slots : List Tree) : (items.all (items.field q slots)).Perm (slots.flatMap (items.visible q)) := by
  unfold Items.all Items.field Items.visible
  cases q.ignoreEquipped with
  | true =>
    simp only [if_true, nil_append]
    induction slots with
    | nil => exact List.Perm.refl _
    | cons t slots ih =>
      rw [flatMap_cons, reachedAll_append, flatMap_cons]
      refine List.Perm.append ?_ ih
      refine List.Perm.trans ?_ (iterator_perm t).symm
      split <;> rfl
  | false =>
    simp only [Bool.false_eq_true, if_false]
    induction slots with
    | nil => exact List.Perm.refl _
    | cons t slots ih =>
      rw [reachedAll, reached_eq, flatMap_cons]
      exact List.Perm.append (List.Perm.cons _ (iterator_perm t).symm) ih

theorem getItemTypeCount_eq (slots : List Tree) : items.getItemTypeCount q slots = items.total q slots % 2 ^ 32 := by
  unfold Items.getItemTypeCount Items.total
  rw [((field_perm slots).map _).sum_nat]
  congr 1
  induction slots with
  | nil => rfl
  | cons t slots ih =>
    rw [map_cons, sum_cons, ih, flatMap_cons, map_append, sum_append]
    congr 1
    unfold Items.visible
    split <;> simp

theorem finds_perm (slots : List Tree) : ∃ rest, (items.all (items.field q slots)).Perm (items.finds q slots ++ rest) := by
  have hslot : ∀ t, ∃ rest, (items.visible q t).Perm (items.slotItems q t ++ rest) := by
    intro t
    unfold Items.visible Items.slotItems
    by_cases hid : t.label.id = q.itemId
    · cases q.ignoreEquipped with
      | true => exact ⟨[], by simp⟩
      | false => exact ⟨items.iterator t, by simp [hid]⟩
    · cases q.ignoreEquipped with
      | true => exact ⟨[], by simp⟩
      | false =>
        have hswap : ([t.label] ++ items.iterator t).Perm (items.iterator t ++ [t.label]) := perm_append_comm
        exact ⟨[t.label], by simpa [hid] using hswap⟩
  choose rest hrest using hslot
  have hall : (slots.flatMap (items.visible q)).Perm (slots.flatMap (items.slotItems q) ++ slots.flatMap rest) :=
    (List.Perm.flatMap_left slots fun t _ => hrest t).trans (flatMap_append_perm _ _ _).symm
  refine ⟨(slots.flatMap (items.slotItems q)).filter (fun a => !decide (items.counted q a ≠ 0)) ++ slots.flatMap rest, ?_⟩
  refine (field_perm slots).trans (hall.trans ?_)
  rw [← append_assoc]
  exact (filter_append_perm _ _).symm.append_right _

/-! ## Taking things out of the field -/

theorem all_perm_field (h : q.ignoreEquipped = true) (slots : List Tree) :
    (items.all slots).Perm (slots.map label ++ items.all (items.field q slots)) := by
  have hfield : items.all (items.field q slots) =
      (slots.filter fun t => items.isContainer t.label).flatMap fun t => reachedAll items.isContainer t.contents := by
    unfold Items.all Items.field
    rw [if_pos h]
    induction slots with
    | nil => rfl
    | cons t slots ih =>
      rw [flatMap_cons, reachedAll_append, ih, filter_cons]
      cases hc : items.isContainer t.label with
      | true => simp
      | false => simp [reachedAll]
  rw [hfield]
  exact reachedAll_perm slots

theorem mem_field {a : Item} (ha : a ∈ items.all (items.field q slots)) : a ∈ items.all slots := by
  cases h : q.ignoreEquipped with
  | true => exact (all_perm_field h slots).mem_iff.mpr (mem_append_right _ ha)
  | false =>
    unfold Items.field at ha
    rwa [h, if_neg Bool.false_ne_true] at ha

theorem Distinct.field (hd : Distinct items slots) (q : Query) : Distinct items (items.field q slots) := by
  unfold Distinct at hd ⊢
  cases h : q.ignoreEquipped with
  | true =>
    rw [((all_perm_field h slots).map _).nodup_iff, map_append] at hd
    exact (nodup_append.mp hd).2.1
  | false =>
    unfold Items.field
    rwa [h, if_neg Bool.false_ne_true]

theorem top_ne (hd : Distinct items slots) {a : Item} (ha : a ∈ items.all (items.field q slots))
    (h : q.ignoreEquipped = true) : ∀ t ∈ slots, a.ptr ≠ t.label.ptr := by
  intro t ht he
  unfold Distinct at hd
  rw [((all_perm_field h slots).map _).nodup_iff, map_append] at hd
  exact (nodup_append.mp hd).2.2 _ (mem_map_of_mem (mem_map_of_mem ht)) _ (mem_map_of_mem ha) he.symm

theorem field_prune {gone : Item → Bool} (h : q.ignoreEquipped = true → ∀ t ∈ slots, gone t.label = false) :
    items.field q (pruneAll gone slots) = pruneAll gone (items.field q slots) := by
  unfold Items.field
  cases hi : q.ignoreEquipped with
  | false => rfl
  | true =>
    replace h := h hi
    simp only [if_true]
    clear hi
    induction slots with
    | nil => rfl
    | cons t slots ih =>
      obtain ⟨a, ts⟩ := t
      have ha : gone a = false := h _ mem_cons_self
      rw [flatMap_cons, pruneAll_append, ← ih fun u hu => h u (mem_cons_of_mem _ hu), pruneAll, prune, ha]
      cases hc : items.isContainer a with
      | true => simp [hc]
      | false => simp [hc, pruneAll]

theorem field_map {f : Item → Item} (hf : ∀ a, items.isContainer (f a) = items.isContainer a) :
    items.field q (mapAll f slots) = mapAll f (items.field q slots) := by
  unfold Items.field
  cases q.ignoreEquipped with
  | false => rfl
  | true =>
    simp only [if_true]
    induction slots with
    | nil => rfl
    | cons t slots ih =>
      rw [mapAll, flatMap_cons, ih, flatMap_cons, mapAll_eq, mapAll_eq, map_append, label_map, hf, contents_map]
      congr 1
      split
      · rfl
      · rfl

theorem total_prune {gone : Item → Bool} (h : q.ignoreEquipped = true → ∀ t ∈ slots, gone t.label = false) :
    items.total q (pruneAll gone slots) +
      ((lostAll items.isContainer gone (items.field q slots)).map (items.counted q)).sum = items.total q slots := by
  unfold Items.total
  rw [field_prune h]
  show ((reachedAll items.isContainer (pruneAll gone (items.field q slots))).map _).sum + _ =
    ((reachedAll items.isContainer (items.field q slots)).map _).sum
  rw [((reachedAll_prune gone (items.field q slots)).map _).sum_nat, map_append, sum_append]

theorem total_remove (hd : Distinct items slots) {a : Item} (ha : a ∈ items.all (items.field q slots))
    (hc : items.isContainer a = false) :
    items.all (items.field q (remove a.ptr slots)) = (items.all (items.field q slots)).filter (fun b => b.ptr ≠ a.ptr) ∧
      items.total q (remove a.ptr slots) + items.counted q a = items.total q slots := by
  have hfield : items.field q (remove a.ptr slots) = remove a.ptr (items.field q slots) := by
    refine field_prune fun h t ht => ?_
    simpa using Ne.symm (top_ne hd ha h t ht)
  have hall := all_remove (hd.field q) ha hc
  refine ⟨by rw [hfield, hall], ?_⟩
  unfold Items.total
  rw [hfield, hall, (((hd.field q).split ha).map _).sum_nat, map_cons, sum_cons, Nat.add_comm]

theorem total_setCount (hd : Distinct items slots) {a : Item} (ha : a ∈ items.all (items.field q slots)) (count : Nat) :
    items.total q (setCount a.ptr count slots) + items.counted q a =
      items.total q slots + items.counted q { a with count } := by
  have hfield : items.field q (setCount a.ptr count slots) = setCount a.ptr count (items.field q slots) := by
    refine field_map fun b => ?_
    split <;> rfl
  unfold Items.total
  rw [hfield, all_setCount, (((hd.field q).split ha).map (items.counted q)).sum_nat,
    ((((hd.field q).split ha).map fun b => if b.ptr = a.ptr then { b with count } else b).map (items.counted q)).sum_nat,
    map_cons, if_pos rfl, map_cons, sum_cons, map_cons, sum_cons]
  have hrest : ((items.all (items.field q slots)).filter fun b => b.ptr ≠ a.ptr).map
      (fun b => if b.ptr = a.ptr then { b with count } else b) =
      (items.all (items.field q slots)).filter fun b => b.ptr ≠ a.ptr := by
    refine (map_congr_left fun b hb => ?_).trans (map_id _)
    rw [if_neg (by simpa using (mem_filter.mp hb).2)]
    rfl
  rw [hrest]
  omega

/-! ## The list of items -/

variable {amount : Nat} {T : List Item}

theorem itemList_some {l : List Item} {count : Nat} (h : items.itemList q amount l count = some T)
    (hsum : count + (l.map (items.counted q)).sum < 2 ^ 32) (hc : count < amount) :
    Shortest items q (amount - count) l T := by
  induction l generalizing count T with
  | nil => cases h
  | cons a l ih =>
    rw [map_cons, sum_cons] at hsum
    rw [Items.itemList] at h
    have hnil : ∀ T', T' <+: a :: l → amount - count ≤ (T'.map (items.counted q)).sum → ∃ T'', T' = a :: T'' ∧ T'' <+: l := by
      intro T' hT' hle
      rcases T' with - | ⟨b, T''⟩
      · rw [map_nil, sum_nil] at hle
        omega
      · obtain ⟨rfl, hT''⟩ := cons_prefix_cons.mp hT'
        exact ⟨T'', rfl, hT''⟩
    split at h
    · next hge =>
      cases h
      refine ⟨⟨l, rfl⟩, by rw [map_singleton, sum_singleton]; omega, fun T' hT' hle => ?_⟩
      obtain ⟨T'', rfl, -⟩ := hnil T' hT' hle
      exact ⟨T'', rfl⟩
    · obtain ⟨T', hT', rfl⟩ := Option.map_eq_some_iff.mp h
      obtain ⟨hpre, hreach, hleast⟩ := ih hT' (by omega) (by omega)
      refine ⟨cons_prefix_cons.mpr ⟨rfl, hpre⟩, by rw [map_cons, sum_cons]; omega, fun U hU hle => ?_⟩
      obtain ⟨U', rfl, hU'⟩ := hnil U hU hle
      rw [map_cons, sum_cons] at hle
      exact cons_prefix_cons.mpr ⟨rfl, hleast U' hU' (by omega)⟩

theorem itemList_none {l : List Item} {count : Nat} (h : items.itemList q amount l count = none)
    (hsum : count + (l.map (items.counted q)).sum < 2 ^ 32) (hc : count < amount) :
    count + (l.map (items.counted q)).sum < amount := by
  induction l generalizing count with
  | nil => simpa using hc
  | cons a l ih =>
    rw [map_cons, sum_cons] at hsum ⊢
    rw [Items.itemList] at h
    split at h
    · cases h
    · next hlt =>
      have := ih (Option.map_eq_none_iff.mp h) (by omega) (Nat.lt_of_not_le hlt)
      omega

/-! ## What the removal leaves -/

theorem foldl_remove (hr : (items.type q.itemId).removable = true) (hid : ∀ a ∈ T, a.id = q.itemId)
    (slots : List Tree) : T.foldl (fun slots a => items.internalRemoveItem a slots) slots =
      pruneAll (fun b => T.any (·.ptr = b.ptr)) slots := by
  induction T generalizing slots with
  | nil => exact (pruneAll_none slots).symm
  | cons a T ih =>
    rw [foldl_cons, ih fun b hb => hid b (mem_cons_of_mem _ hb)]
    unfold Items.internalRemoveItem
    rw [hid a mem_cons_self, hr, if_pos rfl]
    unfold remove
    rw [pruneAll_pruneAll]
    refine pruneAll_congr (fun b => ?_) slots
    congr 1
    exact decide_eq_decide.mpr eq_comm

theorem counted_pos {a : Item} (h : items.counted q a ≠ 0) : a.id = q.itemId ∧ items.counted q a = a.count ∧
    (q.subType = -1 ∨ q.subType = items.getSubType a) := by
  unfold Items.counted Items.countByType at h ⊢
  split at h
  · next hid =>
    split at h
    · next hs =>
      rw [if_pos hid, if_pos hs]
      exact ⟨hid, rfl, by simpa using hs⟩
    · exact absurd rfl h
  · exact absurd rfl h

theorem counted_parted {a : Item} (h : items.counted q a ≠ 0) (hs : (items.type q.itemId).stackable = true) {count : Nat}
    (hlt : count < a.count) : items.counted q { a with count } =
      if q.subType = -1 ∨ (items.type q.itemId).fluid = true then count else 0 := by
  obtain ⟨hid, -, hsub⟩ := counted_pos h
  have hold : items.getSubType a = if (items.type q.itemId).fluid = true then a.fluidType else a.count := by
    simp [Items.getSubType, hid, hs]
  have hnew : items.getSubType { a with count } = if (items.type q.itemId).fluid = true then a.fluidType else count := by
    simp [Items.getSubType, hid, hs]
  unfold Items.counted Items.countByType
  rw [if_pos hid, hnew]
  rw [hold] at hsub
  by_cases hany : q.subType = -1
  · simp [hany]
  replace hsub := hsub.resolve_left hany
  cases hf : (items.type q.itemId).fluid with
  | true =>
    simp [hf, hsub]
  | false =>
    rw [hf, if_neg Bool.false_ne_true] at hsub
    have hne : ¬q.subType = (count : Int) := by omega
    simp [hany, hne]

theorem removeStacks_total {l : List Item} {count : Nat} {slots : List Tree}
    (h : items.itemList q amount l count = some T) (hsum : count + (l.map (items.counted q)).sum < 2 ^ 32)
    (hcount : count < amount) (hs : (items.type q.itemId).stackable = true)
    (hr : (items.type q.itemId).removable = true) (hd : Distinct items slots) (hnd : (T.map (·.ptr)).Nodup)
    (hmem : ∀ a ∈ T, a ∈ items.all (items.field q slots) ∧ items.counted q a ≠ 0) :
    items.total q (items.removeStacks T (amount - count) slots) +
      (if count + (T.map (items.counted q)).sum = amount ∨ q.subType = -1 ∨ (items.type q.itemId).fluid = true
        then amount - count else (T.map (items.counted q)).sum) = items.total q slots := by
  induction l generalizing count T slots with
  | nil => cases h
  | cons a l ih =>
    rw [map_cons, sum_cons] at hsum
    rw [Items.itemList] at h
    rw [Nat.mod_eq_of_lt (by omega)] at h
    have hfirst : a ∈ T := by
      split at h
      · cases h
        exact mem_cons_self
      · obtain ⟨T', -, rfl⟩ := Option.map_eq_some_iff.mp h
        exact mem_cons_self
    obtain ⟨ha, hpos⟩ := hmem a hfirst
    obtain ⟨hid, hcounted, -⟩ := counted_pos hpos
    have hc : items.isContainer a = false := by
      unfold Items.isContainer
      rw [hid]
      have := (items.type q.itemId).apart
      simpa [hs] using this
    have hpresent : (!(items.all slots).any fun b => b.ptr = a.ptr) = false := by
      have : ((items.all slots).any fun b => b.ptr = a.ptr) = true :=
        any_eq_true.mpr ⟨a, mem_field ha, by simp⟩
      rw [this]
      rfl
    obtain ⟨hfield, hremove⟩ := total_remove hd ha hc
    have hwhole : items.internalRemoveItem a slots = remove a.ptr slots := by
      simp [Items.internalRemoveItem, hid, hr]
    split at h
    · next hge =>
      cases h
      rw [Items.removeStacks, hpresent, if_neg Bool.false_ne_true, map_singleton, sum_singleton]
      by_cases hpart : a.count > amount - count
      · -- the last stack is parted
        have hset := total_setCount hd ha (a.count - (amount - count))
        rw [counted_parted hpos hs (show a.count - (amount - count) < a.count by omega)] at hset
        grind
      · have heq : count + items.counted q a = amount := by omega
        rw [if_neg hpart, Items.removeStacks, hwhole, if_pos (.inl heq)]
        omega
    · next hlt =>
      obtain ⟨T', hT', rfl⟩ := Option.map_eq_some_iff.mp h
      rw [map_cons, nodup_cons] at hnd
      have hrest : ∀ b ∈ T', b ∈ items.all (items.field q (remove a.ptr slots)) ∧ items.counted q b ≠ 0 := by
        intro b hb
        obtain ⟨hbm, hbc⟩ := hmem b (mem_cons_of_mem _ hb)
        refine ⟨?_, hbc⟩
        rw [hfield]
        refine mem_filter.mpr ⟨hbm, decide_eq_true fun he => ?_⟩
        exact hnd.1 (mem_map.mpr ⟨b, hb, he⟩)
      have hstep := ih hT' (by omega) (by omega) (hd.remove (mem_field ha) hc) hnd.2 hrest
      rw [Items.removeStacks, hpresent, if_neg Bool.false_ne_true, if_neg (by omega), hwhole,
        show amount - count - a.count = amount - (count + items.counted q a) by omega, map_cons, sum_cons]
      grind

theorem internalRemoveItems_fixed (hr : (items.type q.itemId).removable = false) (hid : ∀ a ∈ T, a.id = q.itemId)
    (amount : Nat) (stackable : Bool) (slots : List Tree) :
    items.internalRemoveItems T amount stackable slots = slots := by
  have hone : ∀ a ∈ T, items.internalRemoveItem a slots = slots := by
    intro a ha
    unfold Items.internalRemoveItem
    rw [hid a ha, hr, if_neg Bool.false_ne_true]
  unfold Items.internalRemoveItems
  split
  · induction T generalizing amount with
    | nil => rfl
    | cons a T ih =>
      rw [Items.removeStacks]
      grind
  · induction T with
    | nil => rfl
    | cons a T ih =>
      rw [foldl_cons, hone a mem_cons_self]
      exact ih (fun b hb => hid b (mem_cons_of_mem _ hb)) fun b hb => hone b (mem_cons_of_mem _ hb)

/-! ## The removal -/

/-- What `removeItemOfType` finds, once it has enough. -/
structure Found (items : Items) (q : Query) (amount : Nat) (slots : List Tree) (T : List Item) : Prop where
  mem : ∀ a ∈ T, a ∈ items.all (items.field q slots)
  counted : ∀ a ∈ T, items.counted q a ≠ 0
  nodup : (T.map (·.ptr)).Nodup
  reached : amount ≤ (T.map (items.counted q)).sum
  le_total : amount ≤ items.total q slots

theorem total_finds (items : Items) (q : Query) (slots : List Tree) :
    ((items.finds q slots).map (items.counted q)).sum ≤ items.total q slots := by
  obtain ⟨rest, hperm⟩ := @finds_perm items q slots
  unfold Items.total
  rw [(hperm.map _).sum_nat, map_append, sum_append]
  omega

theorem Shortest.found (hd : Distinct items slots) (h : Shortest items q amount (items.finds q slots) T) :
    Found items q amount slots T := by
  obtain ⟨rest, hperm⟩ := @finds_perm items q slots
  obtain ⟨⟨rest', hfinds⟩, hle, -⟩ := h
  have hmem : ∀ a ∈ T, a ∈ items.finds q slots := fun a ha => hfinds ▸ mem_append_left _ ha
  have hsum : (T.map (items.counted q)).sum ≤ items.total q slots := by
    have htotal := total_finds items q slots
    rw [← hfinds, map_append, sum_append] at htotal
    omega
  refine ⟨fun a ha => hperm.mem_iff.mpr (mem_append_left _ (hmem a ha)), fun a ha => ?_, ?_, hle, by omega⟩
  · simpa using (mem_filter.mp (hmem a ha)).2
  have hnd := hd.field q
  unfold Distinct at hnd
  rw [(hperm.map _).nodup_iff, ← hfinds, map_append, map_append] at hnd
  exact (nodup_append.mp (nodup_append.mp hnd).1).1

theorem mem_taken {a : Item} (ha : a ∈ items.taken q T slots) : a ∈ items.all (items.field q slots) :=
  (reachedAll_prune _ _).mem_iff.mpr (mem_append_right _ ha)

section
variable {amount : Nat} {T : List Item} (hd : Distinct items slots) (hT : Found items q amount slots T)
include hd hT

theorem Found.gone_iff {a : Item} (ha : a ∈ items.all (items.field q slots)) :
    (T.any (·.ptr = a.ptr)) = true ↔ a ∈ T := by
  rw [any_eq_true]
  constructor
  · rintro ⟨b, hb, hp⟩
    rwa [← (hd.field q).eq (hT.mem b hb) ha (of_decide_eq_true hp)]
  · exact fun h => ⟨a, h, decide_eq_true rfl⟩

theorem Found.taken_perm : (items.taken q T slots).Perm
    (T ++ (items.taken q T slots).filter fun a => !T.any (·.ptr = a.ptr)) := by
  refine (filter_append_perm (fun a => T.any (·.ptr = a.ptr)) _).symm.trans (List.Perm.append_right _ ?_)
  refine (lostAll_gone _ _).trans ?_
  refine (perm_ext_iff_of_nodup (((hd.field q).of_map _).filter _) (hT.nodup.of_map _)).mpr fun a => ?_
  rw [mem_filter]
  constructor
  · rintro ⟨ha, hg⟩
    exact (hT.gone_iff hd ha).mp hg
  · exact fun ha => ⟨hT.mem a ha, (hT.gone_iff hd (hT.mem a ha)).mpr ha⟩

theorem Found.sum_taken : ((items.taken q T slots).map (items.counted q)).sum = amount ↔
    (T.map (items.counted q)).sum = amount ∧ ∀ a ∈ items.taken q T slots, items.counted q a ≠ 0 → a ∈ T := by
  have hreached := hT.reached
  rw [((hT.taken_perm hd).map _).sum_nat, map_append, sum_append]
  have hzero : (((items.taken q T slots).filter fun a => !T.any (·.ptr = a.ptr)).map (items.counted q)).sum = 0 ↔
      ∀ a ∈ items.taken q T slots, items.counted q a ≠ 0 → a ∈ T := by
    rw [List.sum_eq_zero_iff_forall_eq_nat]
    constructor
    · intro h a ha hc
      by_contra hn
      refine hc (h _ (mem_map_of_mem (mem_filter.mpr ⟨ha, ?_⟩)))
      rw [Bool.not_eq_true', ← Bool.not_eq_true]
      exact fun hg => hn ((hT.gone_iff hd (mem_taken ha)).mp hg)
    · grind
  rw [← hzero]
  omega

/-- Nothing lies in what stacks. -/
theorem Found.taken_stackable (hs : (items.type q.itemId).stackable = true) {a : Item} (ha : a ∈ items.taken q T slots) : a ∈ T := by
  have hmem := mem_taken ha
  have hleaves : ∀ b ∈ items.all (items.field q slots), T.any (·.ptr = b.ptr) = true → items.isContainer b = false := by
    intro b hb hg
    have hid := (counted_pos (hT.counted b ((hT.gone_iff hd hb).mp hg))).1
    unfold Items.isContainer
    rw [hid]
    simpa [hs] using (items.type q.itemId).apart
  have hperm := @reachedAll_prune Item items.isContainer (fun b => T.any (·.ptr = b.ptr)) (items.field q slots)
  have hnd : (items.all (items.field q slots)).Nodup := (hd.field q).of_map _
  rw [reachedAll_prune_leaves hleaves] at hperm
  have hdisjoint := (nodup_append.mp (hperm.nodup_iff.mp hnd)).2.2
  by_contra hn
  refine hdisjoint a (mem_filter.mpr ⟨hmem, ?_⟩) a ha rfl
  rw [Bool.not_eq_true', ← Bool.not_eq_true]
  exact fun hg => hn ((hT.gone_iff hd hmem).mp hg)

end

theorem removed_iff (hd : Distinct items slots) (hsum : items.total q slots < 2 ^ 32) (hpos : amount ≠ 0)
    (hlist : items.itemList q amount (items.finds q slots) 0 = some T) (hT : Found items q amount slots T) :
    items.getItemTypeCount q (items.internalRemoveItems T amount (items.type q.itemId).stackable slots) + amount =
      items.total q slots ↔ Exactly items q amount slots T := by
  have hid : ∀ a ∈ T, a.id = q.itemId := fun a ha => (counted_pos (hT.counted a ha)).1
  rw [getItemTypeCount_eq]
  cases hr : (items.type q.itemId).removable with
  | false =>
    rw [internalRemoveItems_fixed hr hid, Nat.mod_eq_of_lt hsum]
    constructor
    · omega
    · intro h
      rw [h.removable] at hr
      cases hr
  | true =>
    cases hs : (items.type q.itemId).stackable with
    | false =>
      have htop : q.ignoreEquipped = true → ∀ t ∈ slots, (T.any (·.ptr = t.label.ptr)) = false := by
        intro hi t ht
        rw [← Bool.not_eq_true, any_eq_true]
        rintro ⟨a, ha, hp⟩
        exact top_ne hd (hT.mem a ha) hi t ht (of_decide_eq_true hp)
      have htotal := @total_prune items q slots (fun b => T.any (·.ptr = b.ptr)) htop
      have htaken := hT.sum_taken hd
      unfold Items.taken at htaken
      unfold Items.internalRemoveItems
      rw [if_neg Bool.false_ne_true, foldl_remove hr hid, Nat.mod_eq_of_lt (by omega)]
      have heq : items.total q (pruneAll (fun b => T.any (·.ptr = b.ptr)) slots) + amount = items.total q slots ↔
          ((lostAll items.isContainer (fun b => T.any (·.ptr = b.ptr)) (items.field q slots)).map (items.counted q)).sum =
            amount := by omega
      rw [heq, htaken]
      constructor
      · rintro ⟨hsumT, halone⟩
        exact ⟨hr, .inl hsumT, halone⟩
      rintro ⟨-, hparted | hparted, halone⟩
      · exact ⟨hparted, halone⟩
      · rw [hs] at hparted
        exact absurd hparted.1 Bool.false_ne_true
    | true =>
      have htotal := removeStacks_total hlist (by have := total_finds items q slots; omega) (by omega) hs hr hd hT.nodup
        fun a ha => ⟨hT.mem a ha, hT.counted a ha⟩
      rw [Nat.sub_zero, Nat.zero_add] at htotal
      unfold Items.internalRemoveItems
      rw [if_pos rfl, Nat.mod_eq_of_lt (by omega)]
      constructor
      · intro h
        refine ⟨hr, ?_, fun a ha _ => hT.taken_stackable hd hs ha⟩
        by_contra hparted
        rw [if_neg fun hc => hparted (hc.imp_right fun hk => ⟨hs, hk⟩)] at htotal
        exact hparted (.inl (by omega))
      · intro h
        rw [if_pos (h.parted.imp_right And.right)] at htotal
        exact htotal

/-- The removal agrees with the count when and only when the amount is none or more than there
    is, or the items found come out exactly. -/
theorem removeItemOfType_exact (items : Items) (q : Query) (amount : Nat) (w : Worn items)
    (hsum : items.total q w.slots < 2 ^ 32) : Agrees items q amount w.slots ↔
      amount = 0 ∨ items.total q w.slots < amount ∨
        ∃ T, Shortest items q amount (items.finds q w.slots) T ∧ Exactly items q amount w.slots T := by
  obtain ⟨slots, hd⟩ := w
  have hcount : items.getItemTypeCount q slots = items.total q slots := by
    rw [getItemTypeCount_eq, Nat.mod_eq_of_lt hsum]
  have hfinds : 0 + ((items.finds q slots).map (items.counted q)).sum < 2 ^ 32 := by
    have htotal := total_finds items q slots
    change items.total q slots < 2 ^ 32 at hsum
    omega
  show Agrees items q amount slots ↔ amount = 0 ∨ items.total q slots < amount ∨ _
  unfold Agrees Items.removeItemOfType
  rw [hcount]
  by_cases hzero : amount = 0
  · simp [hzero, hcount]
  rw [if_neg hzero]
  cases hlist : items.itemList q amount (items.finds q slots) 0 with
  | none =>
    have hshort := itemList_none hlist hfinds (by omega)
    have hnone : ∀ T, ¬Shortest items q amount (items.finds q slots) T := by
      rintro T ⟨⟨rest, hrest⟩, hle, -⟩
      rw [← hrest, map_append, sum_append] at hshort
      omega
    simp [hzero, hnone]
  | some T =>
    have hshortest := itemList_some hlist hfinds (by omega)
    rw [Nat.sub_zero] at hshortest
    have hfound := hshortest.found hd
    have hremoved := removed_iff hd hsum hzero hlist hfound
    have hle := hfound.le_total
    constructor
    · rintro ⟨-, htrue, -⟩
      exact .inr (.inr ⟨T, hshortest, hremoved.mp (htrue rfl)⟩)
    · rintro (h | h | ⟨T', hT', hexact⟩)
      · exact absurd h hzero
      · omega
      · have heq : T' = T := (hT'.least T hshortest.beginning hshortest.reaches).eq_of_length_le
          (hshortest.least T' hT'.beginning hT'.reaches).length_le
        rw [heq] at hexact
        exact ⟨⟨fun _ => hle, fun _ => rfl⟩, fun _ => hremoved.mpr hexact, nofun⟩

end

def goldAndBags : Items where
  type id := if id = 2148 then { stackable := true } else { container := true }
  currencyItems := []
  descending := List.Pairwise.nil
  worths := nofun

def fifty : Item := { ptr := 1, id := 2148, count := 50 }

/-- A backpack with fifty gold coins. -/
def filledBag : Worn goldAndBags where
  slots := [.node { ptr := 0, id := 1988, count := 1 } [.node fifty []]]
  distinct := (by decide : [0, 1].Nodup)

theorem filledBag_exact : Agrees goldAndBags ⟨2148, -1, false⟩ 20 filledBag.slots := by
  refine (removeItemOfType_exact goldAndBags ⟨2148, -1, false⟩ 20 filledBag (by decide)).mpr (.inr (.inr ⟨[fifty], ?_, ?_⟩))
  · show Shortest _ _ _ [fifty] _
    refine ⟨prefix_refl _, by decide, fun T' hT' hle => ?_⟩
    rcases prefix_cons_iff.mp hT' with rfl | ⟨T'', rfl, -⟩
    · exact absurd hle (by decide)
    · exact ⟨T'', rfl⟩
  · refine ⟨rfl, .inr ⟨rfl, .inl rfl⟩, fun a ha _ => ?_⟩
    exact ha

/-- Two backpacks are counted where one is worn inside the other, and two cannot be taken. -/
theorem nested_backpack : ¬∀ (items : Items) (q : Query) (amount : Nat) (w : Worn items),
    items.total q w.slots < 2 ^ 32 → Agrees items q amount w.slots := by
  intro h
  let w : Worn goldAndBags :=
    { slots := [.node { ptr := 0, id := 1988, count := 1 } [.node { ptr := 1, id := 1988, count := 1 } []]]
      distinct := (by decide : [0, 1].Nodup) }
  have hagrees := (h goldAndBags ⟨1988, -1, false⟩ 2 w (by decide)).1.mpr (by decide)
  exact absurd hagrees (by decide)

end Backlands.Inventory
