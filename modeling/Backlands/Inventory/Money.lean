/-
  Backlands.Inventory.Money — `Game::addMoney` and `Game::removeMoney` (src/game.cpp).

  Coins go to the cylinder or, where it has no room (`fits`), to its tile; whether they join a
  stack there does not change what they are worth. `none` stands for what does not return: a
  division by zero, or a loop that has not ended after `fuel` turns.

  Proved: `addMoney_exact`. The coins are worth the amount exactly when it is paid greedily
  with fewer than 2^16 coins of each kind; from 2^16 coins on the 16-bit count comes to zero
  and the loop goes on for ever (`addCoins_none`). `removeMoney_exact`. Taking an amount takes
  exactly it when the change that is due can be paid so, which it can with the coins of
  data/items/items.xml.
-/

import Backlands.Inventory.Things
import Mathlib.Data.List.Sort

namespace Backlands.Inventory

open Backlands.Lib Backlands.Lib.RoseTree List

/-- The things in a cylinder and those on its tile; `next` is the next free address. -/
structure Purse where
  cylinder : List Tree
  tile : List Tree
  next : Nat

namespace Items

variable (items : Items)

def coinWorth (a : Item) : Nat := if items.isContainer a then 0 else (items.type a.id).worth * a.count

def worth (ts : List Tree) : Nat := ((items.all ts).map items.coinWorth).sum

def worthOf (s : Purse) : Nat := items.worth s.cylinder + items.worth s.tile

section
variable (fits : List Tree → Item → Bool)

/-- `internalAddItem` to the cylinder and, if that fails, to its tile. -/
def addItem (id : ItemId) (count : Nat) (s : Purse) : Purse :=
  let remaindItem := items.createItem s.next id count
  if fits s.cylinder remaindItem then { s with cylinder := s.cylinder ++ [.node remaindItem []], next := s.next + 1 }
  else { s with tile := s.tile ++ [.node remaindItem []], next := s.next + 1 }

/-- The loop over the coins of one kind. -/
def addCoins (id : ItemId) : Nat → Nat → Purse → Option Purse
  | fuel, currencyCoins, s =>
    if currencyCoins = 0 then some s
    else
      match fuel with
      | 0 => none
      | fuel + 1 =>
        let count := min 100 (currencyCoins % 2 ^ 16)
        addCoins id fuel (currencyCoins - count) (items.addItem fits id count s)

/-- The loop over the kinds of coins. -/
def addCurrency (fuel : Nat) : List (Nat × ItemId) → Nat → Purse → Option Purse
  | [], _, s => some s
  | (worth, id) :: table, money, s =>
    if worth = 0 then none
    else
      let currencyCoins := money / worth % 2 ^ 32
      if currencyCoins = 0 then addCurrency fuel table money s
      else (items.addCoins fits id fuel currencyCoins s).bind (addCurrency fuel table (money - currencyCoins * worth))

def addMoney (fuel money : Nat) (s : Purse) : Option Purse :=
  if money = 0 then some s else items.addCurrency fits fuel items.currencyItems money s

end

/-- A kind of coin that keeps its count: it is not a container, and stacks if there are several. -/
def Counts (id : ItemId) (coins : Nat) : Prop :=
  coins = 0 ∨ ((items.type id).container = false ∧
    (coins = 1 ∨ ((items.type id).fluid = false ∧ (items.type id).stackable = true)))

/-- Paying the largest coins first takes fewer than 2^16 of each kind. -/
def Payable : List (Nat × ItemId) → Nat → Prop
  | [], money => money = 0
  | (worth, id) :: table, money =>
    0 < worth ∧ money / worth < 2 ^ 16 ∧ items.Counts id (money / worth) ∧ Payable table (money % worth)

end Items

/-! ## Coins of one kind -/

section
variable {items : Items} {fits : List Tree → Item → Bool} {s s' : Purse}

theorem worth_append (ts us : List Tree) : items.worth (ts ++ us) = items.worth ts + items.worth us := by
  unfold Items.worth
  rw [all_append, map_append, sum_append]

theorem worth_leaf (a : Item) : items.worth [.node a []] = items.coinWorth a := by
  unfold Items.worth Items.all
  simp [reachedAll, reached]

theorem worthOf_addItem (id : ItemId) (count : Nat) : items.worthOf (items.addItem fits id count s) =
    items.worthOf s + items.coinWorth (items.createItem s.next id count) := by
  unfold Items.addItem Items.worthOf
  grind [worth_append, worth_leaf]

theorem createItem_id (ptr : Nat) (id : ItemId) (count : Nat) : (items.createItem ptr id count).id = id := by
  unfold Items.createItem
  dsimp only
  split
  · rfl
  · split <;> rfl

theorem createItem_count (ptr : Nat) (id : ItemId) {count : Nat} (hc : 0 < count) :
    (items.createItem ptr id count).count =
      if (items.type id).fluid = false ∧ (items.type id).stackable = true then count else 1 := by
  unfold Items.createItem
  cases hf : (items.type id).fluid with
  | true => simp [hf]
  | false =>
    cases hs : (items.type id).stackable with
    | true => simp [hf, hs, Nat.ne_of_gt hc]
    | false => simp [hf, hs]

theorem coinWorth_createItem (ptr : Nat) (id : ItemId) {count : Nat} (hc : 0 < count) :
    items.coinWorth (items.createItem ptr id count) = if (items.type id).container = true then 0 else
      (items.type id).worth * if (items.type id).fluid = false ∧ (items.type id).stackable = true then count else 1 := by
  unfold Items.coinWorth Items.isContainer
  rw [createItem_id, createItem_count ptr id hc]

theorem coinWorth_le (ptr : Nat) (id : ItemId) {count : Nat} (hc : 0 < count) :
    items.coinWorth (items.createItem ptr id count) ≤ (items.type id).worth * count := by
  rw [coinWorth_createItem ptr id hc]
  split
  · exact Nat.zero_le _
  · refine Nat.mul_le_mul_left _ ?_
    split <;> omega

theorem coinWorth_eq_iff (ptr : Nat) (id : ItemId) {count : Nat} (hc : 0 < count) (hw : 0 < (items.type id).worth) :
    items.coinWorth (items.createItem ptr id count) = (items.type id).worth * count ↔ items.Counts id count := by
  rw [coinWorth_createItem ptr id hc]
  unfold Items.Counts
  have hpos : 0 < (items.type id).worth * count := Nat.mul_pos hw hc
  cases (items.type id).container with
  | true =>
    simp only [if_true, Bool.true_eq_false, false_and, or_false]
    omega
  | false =>
    simp only [Bool.false_eq_true, if_false, true_and]
    rw [Nat.mul_right_inj (Nat.ne_of_gt hw)]
    grind

/-! ## Coins of one kind -/

variable {id : ItemId}

theorem addCoins_none {fuel coins : Nat} (hc : 2 ^ 16 ≤ coins) : items.addCoins fits id fuel coins s = none := by
  induction fuel generalizing coins s with
  | zero =>
    rw [Items.addCoins, if_neg (by omega)]
  | succ fuel ih =>
    rw [Items.addCoins, if_neg (by omega)]
    refine ih ?_
    omega

theorem addCoins_some {id : ItemId} {fuel coins : Nat} (hc : coins < 2 ^ 16) (hf : coins ≤ fuel) :
    ∃ s', items.addCoins fits id fuel coins s = some s' := by
  induction fuel generalizing coins s with
  | zero =>
    rw [Items.addCoins, if_pos (by omega)]
    exact ⟨s, rfl⟩
  | succ fuel ih =>
    rw [Items.addCoins]
    split
    · exact ⟨s, rfl⟩
    · next hne =>
      rw [Nat.mod_eq_of_lt hc]
      exact ih (by omega) (by omega)

theorem addCoins_le {fuel coins : Nat} (h : items.addCoins fits id fuel coins s = some s') :
    items.worthOf s' ≤ items.worthOf s + (items.type id).worth * coins := by
  induction fuel generalizing coins s with
  | zero =>
    grind [Items.addCoins]
  | succ fuel ih =>
    by_cases hc : coins < 2 ^ 16
    · rw [Items.addCoins] at h
      split at h
      · cases h
        omega
      next hne =>
      rw [Nat.mod_eq_of_lt hc] at h
      have hrest := ih h
      have hcoin := @coinWorth_le items s.next id (min 100 coins) (by omega)
      rw [worthOf_addItem] at hrest
      have hsplit : (items.type id).worth * coins =
          (items.type id).worth * min 100 coins + (items.type id).worth * (coins - min 100 coins) := by
        rw [← Nat.mul_add]
        congr 1
        omega
      omega
    · rw [addCoins_none (Nat.le_of_not_lt hc)] at h
      cases h

theorem counts_of_le {coins count : Nat} (h : items.Counts id coins) (hle : count ≤ coins) :
    items.Counts id count := by
  rcases h with h | ⟨hcont, h | h⟩
  · exact .inl (by omega)
  · by_cases hz : count = 0
    · exact .inl hz
    · exact .inr ⟨hcont, .inl (by omega)⟩
  · exact .inr ⟨hcont, .inr h⟩

theorem addCoins_eq_iff {fuel coins : Nat} (hw : 0 < (items.type id).worth)
    (h : items.addCoins fits id fuel coins s = some s') :
    items.worthOf s' = items.worthOf s + (items.type id).worth * coins ↔ items.Counts id coins := by
  induction fuel generalizing coins s with
  | zero =>
    grind [Items.addCoins, Items.Counts]
  | succ fuel ih =>
    by_cases hc : coins < 2 ^ 16
    · rw [Items.addCoins] at h
      split at h
      · next hz =>
        cases h
        simp [hz, Items.Counts]
      next hne =>
      rw [Nat.mod_eq_of_lt hc] at h
      have hpos : 0 < min 100 coins := by omega
      have hrest := ih h
      have hle := addCoins_le h
      have hcoin := @coinWorth_le items s.next id _ hpos
      have hiff := @coinWorth_eq_iff items s.next id _ hpos hw
      rw [worthOf_addItem] at hrest hle
      have hsplit : (items.type id).worth * coins =
          (items.type id).worth * min 100 coins + (items.type id).worth * (coins - min 100 coins) := by
        rw [← Nat.mul_add]
        congr 1
        omega
      constructor
      · intro heq
        have hfirst := hiff.mp (by omega)
        rcases hfirst with hz | ⟨hcont, hone | hkeeps⟩
        · omega
        · exact .inr ⟨hcont, .inl (by omega)⟩
        · exact .inr ⟨hcont, .inr hkeeps⟩
      · intro hcounts
        have h1 := hiff.mpr (counts_of_le hcounts (by omega))
        have h2 := hrest.mpr (counts_of_le hcounts (by omega))
        omega
    · rw [addCoins_none (Nat.le_of_not_lt hc)] at h
      cases h

/-! ## The table -/

variable {table : List (Nat × ItemId)} {money : Nat}

theorem coins_le (money worth : Nat) : money / worth % 2 ^ 32 * worth ≤ money :=
  Nat.le_trans (Nat.mul_le_mul_right _ (Nat.mod_le _ _)) (Nat.div_mul_le_self _ _)

theorem addCurrency_le {fuel : Nat} (hworth : ∀ e ∈ table, (items.type e.2).worth = e.1)
    (h : items.addCurrency fits fuel table money s = some s') : items.worthOf s' ≤ items.worthOf s + money := by
  induction table generalizing money s with
  | nil =>
    cases h
    omega
  | cons e table ih =>
    obtain ⟨worth, id⟩ := e
    have hid : (items.type id).worth = worth := hworth (worth, id) mem_cons_self
    have hrest := fun e he => hworth e (mem_cons_of_mem _ he)
    rw [Items.addCurrency] at h
    split at h
    · cases h
    dsimp only at h
    split at h
    · exact ih hrest h
    obtain ⟨s1, hs1, h⟩ := Option.bind_eq_some_iff.mp h
    have h1 := addCoins_le hs1
    have h2 := ih hrest h
    have hcoins := coins_le money worth
    rw [hid, Nat.mul_comm] at h1
    omega

theorem payable_lt {worth : Nat} (h : items.Payable table money) (hw : 0 < worth) (hlt : ∀ e ∈ table, e.1 < worth) :
    money < 2 ^ 16 * worth := by
  cases table with
  | nil =>
    rw [show money = 0 from h]
    omega
  | cons e table =>
    obtain ⟨worth', id⟩ := e
    obtain ⟨hpos, hq, -, -⟩ := h
    have hless := hlt (worth', id) mem_cons_self
    calc money < 2 ^ 16 * worth' := (Nat.div_lt_iff_lt_mul hpos).mp hq
      _ ≤ 2 ^ 16 * worth := Nat.mul_le_mul_left _ (Nat.le_of_lt hless)

theorem payable_pays (hworth : ∀ e ∈ table, (items.type e.2).worth = e.1) (h : items.Payable table money) (s : Purse) :
    ∃ s', items.addCurrency fits (2 ^ 16) table money s = some s' ∧ items.worthOf s' = items.worthOf s + money := by
  induction table generalizing money s with
  | nil => exact ⟨s, rfl, by rw [show money = 0 from h, Nat.add_zero]⟩
  | cons e table ih =>
    obtain ⟨worth, id⟩ := e
    have hid : (items.type id).worth = worth := hworth (worth, id) mem_cons_self
    obtain ⟨hpos, hq, hcounts, hpay⟩ := h
    have hdiv : worth * (money / worth) + money % worth = money := Nat.div_add_mod _ _
    rw [Items.addCurrency, if_neg (Nat.ne_of_gt hpos), Nat.mod_eq_of_lt (Nat.lt_trans hq (by decide))]
    have hrest : money - money / worth * worth = money % worth := by
      rw [Nat.mul_comm] at hdiv
      omega
    dsimp only
    split
    · next hz =>
      rw [hz, Nat.mul_zero, Nat.zero_add] at hdiv
      rw [hdiv] at hpay
      exact ih (fun e he => hworth e (mem_cons_of_mem _ he)) hpay s
    · obtain ⟨s1, hs1⟩ := @addCoins_some items fits s id (2 ^ 16) _ hq (Nat.le_of_lt hq)
      obtain ⟨s2, hs2, hw2⟩ := ih (fun e he => hworth e (mem_cons_of_mem _ he)) hpay s1
      refine ⟨s2, ?_, ?_⟩
      · rw [hs1, hrest]
        exact hs2
      · have h1 := (addCoins_eq_iff (hid ▸ hpos) hs1).mpr hcounts
        rw [hid] at h1
        omega

theorem payable_of_pays {fuel : Nat} (hworth : ∀ e ∈ table, (items.type e.2).worth = e.1)
    (hdesc : table.Pairwise fun e e' => e'.1 < e.1) (h : items.addCurrency fits fuel table money s = some s')
    (heq : items.worthOf s' = items.worthOf s + money) : items.Payable table money := by
  induction table generalizing money s with
  | nil =>
    cases h
    show money = 0
    omega
  | cons e table ih =>
    obtain ⟨worth, id⟩ := e
    have hid : (items.type id).worth = worth := hworth (worth, id) mem_cons_self
    have hrest := fun e he => hworth e (mem_cons_of_mem _ he)
    obtain ⟨hless, hdesc⟩ := pairwise_cons.mp hdesc
    have hdiv : worth * (money / worth) + money % worth = money := Nat.div_add_mod _ _
    rw [Items.addCurrency] at h
    split at h
    · cases h
    next hw =>
    have hpos : 0 < worth := Nat.pos_of_ne_zero hw
    dsimp only at h
    -- a count cut off at 32 bits leaves more than the smaller coins can pay
    have hcut : ∀ paid, items.Payable table (money - paid * worth) → paid = money / worth % 2 ^ 32 →
        money / worth = paid := by
      intro paid hpay hpaid
      have hlt := payable_lt hpay hpos fun e he => hless e he
      have hmod := Nat.div_add_mod (money / worth) (2 ^ 32)
      by_contra hne
      have hk : 2 ^ 32 ≤ money / worth - paid := by
        omega
      have hmore : 2 ^ 32 * worth ≤ money - paid * worth := by
        calc 2 ^ 32 * worth ≤ (money / worth - paid) * worth := Nat.mul_le_mul_right _ hk
          _ = money / worth * worth - paid * worth := Nat.sub_mul _ _ _
          _ ≤ money - paid * worth := Nat.sub_le_sub_right (Nat.div_mul_le_self _ _) _
      omega
    split at h
    · next hz =>
      have hpay := ih hrest hdesc h heq
      have hq : money / worth = 0 := hcut 0 (by rwa [Nat.zero_mul, Nat.sub_zero]) hz.symm
      have hm : money % worth = money := by
        rw [hq, Nat.mul_zero, Nat.zero_add] at hdiv
        exact hdiv
      refine ⟨hpos, by rw [hq]; decide, .inl hq, ?_⟩
      rw [hm]
      exact hpay
    · obtain ⟨s1, hs1, h⟩ := Option.bind_eq_some_iff.mp h
      have hle1 := addCoins_le hs1
      have hle2 := addCurrency_le hrest h
      have hcoins := coins_le money worth
      rw [hid, Nat.mul_comm] at hle1
      have hpay := ih hrest hdesc h (by omega)
      have hq := hcut _ hpay rfl
      rw [← hq] at hs1 hpay hle1 hle2 hcoins
      have hcounts := (addCoins_eq_iff (hid ▸ hpos) hs1).mp (by rw [hid, Nat.mul_comm]; omega)
      have hsmall : money / worth < 2 ^ 16 := by
        by_contra hbig
        rw [addCoins_none (Nat.le_of_not_lt hbig)] at hs1
        cases hs1
      refine ⟨hpos, hsmall, hcounts, ?_⟩
      have hm : money - money / worth * worth = money % worth := by
        rw [Nat.mul_comm] at hdiv
        omega
      rw [← hm]
      exact hpay

theorem pays_iff (items : Items) (fits : List Tree → Item → Bool) (money : Nat) (s : Purse) :
    (∃ fuel s', items.addCurrency fits fuel items.currencyItems money s = some s' ∧
      items.worthOf s' = items.worthOf s + money) ↔ items.Payable items.currencyItems money := by
  constructor
  · rintro ⟨fuel, s', h, heq⟩
    exact payable_of_pays items.worths items.descending h heq
  · intro h
    obtain ⟨s', hs', hw⟩ := payable_pays items.worths h s
    exact ⟨2 ^ 16, s', hs', hw⟩

end

theorem stackable_only : ¬(true = true ∧ false = true) := by decide

/-- The items of the cylinder and of the containers in it, these breadth first. -/
def Items.searched (items : Items) (ts : List Tree) : List Item :=
  (ts.map label).filter (fun a => !items.isContainer a) ++
    (walk items.isContainer (sizes ts) (ts.filter fun t => items.isContainer t.label)).filter fun a => !items.isContainer a

/-- `moneyMap`: the coin stacks by their worth, equal ones in the order they were found in. -/
def Items.moneyMap (items : Items) (ts : List Tree) : List (Nat × Item) :=
  (((items.searched ts).filter fun a => items.getWorth a ≠ 0).map fun a => (items.getWorth a, a)).insertionSort
    fun e e' => e.1 ≤ e'.1

/-- `internalRemoveItem` of a whole item. -/
def Purse.removeItem (item : Item) (s : Purse) : Purse := { s with cylinder := remove item.ptr s.cylinder }

/-- `internalRemoveItem` of some of a stack; only a stack can be parted. -/
def Items.removeCount (items : Items) (item : Item) (count : Nat) (s : Purse) : Purse :=
  if items.isStackable item && count > item.count then s
  else if items.isStackable item && count ≠ item.count then
    { s with cylinder := setCount item.ptr (item.count - count) s.cylinder }
  else s.removeItem item

namespace Items

variable (items : Items) (fits : List Tree → Item → Bool)

/-- The loop over `moneyMap`. Both sides of the division are below 2^32, so its double-precision
    quotient has the ceiling of the exact one. -/
def takeCoins (fuel : Nat) : List (Nat × Item) → Nat → Purse → Option Purse
  | [], _, s => some s
  | (first, item) :: moneyMap, money, s =>
    if first < money then takeCoins fuel moneyMap (money - first) (s.removeItem item)
    else if first > money then
      let worth := first / item.count
      if worth = 0 then none
      else
        let removeCount := (money + worth - 1) / worth
        (items.addMoney fits fuel ((worth * removeCount % 2 ^ 32 + 2 ^ 64 - money) % 2 ^ 64) s).map
          (items.removeCount item removeCount)
    else some (s.removeItem item)

/-- The sum has 64 bits, more than any number of stacks can fill. -/
def removeMoney (fuel money : Nat) (s : Purse) : Option (Bool × Purse) :=
  if money = 0 then some (true, s)
  else if ((items.moneyMap s.cylinder).map (·.1)).sum < money then some (false, s)
  else (items.takeCoins fits fuel (items.moneyMap s.cylinder) money s).map fun s => (true, s)

end Items

/-- A purse whose items have addresses of their own, and counts of 8 bits. -/
structure Carried (items : Items) extends Purse where
  distinct : Distinct items cylinder
  fresh : ∀ a ∈ items.all cylinder, a.ptr < next
  counts : ∀ a ∈ items.all cylinder, a.count < 256

/-- The call returns, true with exactly the amount gone if there is that much, else false with
    nothing changed. -/
def RemovesExactly (items : Items) (fits : List Tree → Item → Bool) (money : Nat) (s : Purse) : Prop :=
  ∃ fuel r, items.removeMoney fits fuel money s = some r ∧
    (money ≤ items.worth s.cylinder → r.1 = true ∧ items.worthOf r.2 + money = items.worthOf s) ∧
    (items.worth s.cylinder < money → r = (false, s))

/-- The change that is due: the first stack that is worth more than what remains is parted. -/
def Items.changeDue (items : Items) : List Item → Nat → Nat
  | [], _ => 0
  | item :: coins, money =>
    let worth := (items.type item.id).worth
    if worth * item.count < money then changeDue items coins (money - worth * item.count)
    else (worth - money % worth) % worth

def Items.Plain (items : Items) (ts : List Tree) : Prop :=
  ∀ a ∈ items.all ts, items.isContainer a = false → (items.type a.id).worth * a.count < 2 ^ 32 ∧
    (items.isStackable a = true ∨ a.count = 1)

/-! ## What is taken -/

section
variable {items : Items} {fits : List Tree → Item → Bool} {ts : List Tree} {a : Item}

theorem searched_perm (ts : List Tree) :
    (items.searched ts).Perm ((items.all ts).filter fun a => !items.isContainer a) := by
  have hsize : sizes (ts.filter fun t => items.isContainer t.label) ≤ sizes ts := sizes_filter_le _ _
  have hwalk := (@walk_perm Item items.isContainer _ _ hsize).filter fun a => !items.isContainer a
  have hall := (@reachedAll_perm Item items.isContainer ts).filter fun a => !items.isContainer a
  rw [filter_append] at hall
  exact (hwalk.append_left _).trans hall.symm

theorem mem_moneyMap {e : Nat × Item} : e ∈ items.moneyMap ts ↔
    e.2 ∈ items.all ts ∧ items.isContainer e.2 = false ∧ items.getWorth e.2 ≠ 0 ∧ e.1 = items.getWorth e.2 := by
  obtain ⟨first, item⟩ := e
  unfold Items.moneyMap
  rw [(perm_insertionSort _ _).mem_iff, mem_map]
  constructor
  · rintro ⟨b, hb, he⟩
    obtain ⟨rfl, rfl⟩ := Prod.mk.inj he
    obtain ⟨hs, hw⟩ := mem_filter.mp hb
    obtain ⟨hall, hc⟩ := mem_filter.mp ((searched_perm ts).mem_iff.mp hs)
    exact ⟨hall, by simpa using hc, by simpa using hw, rfl⟩
  · rintro ⟨hall, hc, hw, hfirst⟩
    refine ⟨item, mem_filter.mpr ⟨?_, by simpa using hw⟩, by rw [show first = items.getWorth item from hfirst]⟩
    exact (searched_perm ts).mem_iff.mpr (mem_filter.mpr ⟨hall, by simp [hc]⟩)

theorem moneyMap_nodup (h : Distinct items ts) : ((items.moneyMap ts).map (·.2.ptr)).Nodup := by
  unfold Items.moneyMap
  rw [((perm_insertionSort _ _).map _).nodup_iff, map_map]
  have hsearched : ((items.searched ts).map (·.ptr)).Nodup := by
    rw [((searched_perm ts).map _).nodup_iff]
    exact h.sublist (filter_sublist.map _)
  exact hsearched.sublist (filter_sublist.map _)

theorem getWorth_eq (hp : items.Plain ts) (ha : a ∈ items.all ts) (hc : items.isContainer a = false) :
    items.getWorth a = items.coinWorth a := by
  unfold Items.getWorth Items.coinWorth
  rw [Nat.mod_eq_of_lt (hp a ha hc).1, if_neg (by simp [hc])]

theorem moneyMap_sum (hp : items.Plain ts) : ((items.moneyMap ts).map (·.1)).sum = items.worth ts := by
  have hnonzero : ∀ l : List Item, ((l.filter fun a => items.getWorth a ≠ 0).map items.getWorth).sum =
      (l.map items.getWorth).sum := by
    intro l
    induction l with
    | nil => rfl
    | cons b l ih =>
      by_cases hz : items.getWorth b = 0
      · simpa [hz] using ih
      · simpa [hz] using ih
  have hcoins : ∀ l : List Item, (∀ b ∈ l, b ∈ items.all ts) →
      ((l.filter fun b => !items.isContainer b).map items.getWorth).sum = (l.map items.coinWorth).sum := by
    intro l
    induction l with
    | nil => exact fun _ => rfl
    | cons b l ih =>
      intro hl
      have hrest := ih fun c hc => hl c (mem_cons_of_mem _ hc)
      rw [filter_cons, map_cons, sum_cons]
      cases hc : items.isContainer b with
      | true =>
        have hzero : items.coinWorth b = 0 := by
          unfold Items.coinWorth
          rw [if_pos hc]
        simpa [hzero] using hrest
      | false => simpa [getWorth_eq hp (hl b mem_cons_self) hc] using hrest
  unfold Items.moneyMap
  rw [((perm_insertionSort _ _).map _).sum_nat, map_map]
  show ((List.filter _ (items.searched ts)).map items.getWorth).sum = _
  rw [hnonzero, ((searched_perm ts).map _).sum_nat, hcoins _ fun _ hb => hb]
  rfl

theorem worth_remove (h : Distinct items ts) (ha : a ∈ items.all ts) (hc : items.isContainer a = false) :
    items.worth (remove a.ptr ts) + items.coinWorth a = items.worth ts := by
  unfold Items.worth
  rw [all_remove h ha hc, ((h.split ha).map _).sum_nat, map_cons, sum_cons, Nat.add_comm]

theorem worth_setCount (h : Distinct items ts) (ha : a ∈ items.all ts) (hc : items.isContainer a = false) (count : Nat) :
    items.worth (setCount a.ptr count ts) + items.coinWorth a = items.worth ts + (items.type a.id).worth * count := by
  unfold Items.worth
  rw [all_setCount, ((h.split ha).map items.coinWorth).sum_nat,
    (((h.split ha).map fun b => if b.ptr = a.ptr then { b with count } else b).map items.coinWorth).sum_nat,
    map_cons, if_pos rfl, map_cons, sum_cons, map_cons, sum_cons]
  have hrest : ((items.all ts).filter fun b => b.ptr ≠ a.ptr).map (fun b => if b.ptr = a.ptr then { b with count } else b) =
      (items.all ts).filter fun b => b.ptr ≠ a.ptr := by
    refine (map_congr_left fun b hb => ?_).trans (map_id _)
    rw [if_neg (by simpa using (mem_filter.mp hb).2)]
    rfl
  have hcount : items.coinWorth { a with count } = (items.type a.id).worth * count := by
    unfold Items.coinWorth
    rw [if_neg (by simpa [Items.isContainer] using hc)]
  rw [hrest, hcount]
  omega

/-! ## Adding keeps what is there -/

structure Grows (items : Items) (s s' : Purse) : Prop where
  stays : ∀ a ∈ items.all s.cylinder, a ∈ items.all s'.cylinder
  distinct : Distinct items s.cylinder → (∀ a ∈ items.all s.cylinder, a.ptr < s.next) →
    Distinct items s'.cylinder ∧ ∀ a ∈ items.all s'.cylinder, a.ptr < s'.next

theorem Grows.refl (s : Purse) : Grows items s s := ⟨fun _ h => h, fun h h' => ⟨h, h'⟩⟩

theorem Grows.trans {s s' s'' : Purse} (h : Grows items s s') (h' : Grows items s' s'') : Grows items s s'' :=
  ⟨fun a ha => h'.stays a (h.stays a ha), fun hd hf => have hn := h.distinct hd hf; h'.distinct hn.1 hn.2⟩

theorem createItem_ptr (ptr : Nat) (id : ItemId) (count : Nat) : (items.createItem ptr id count).ptr = ptr := by
  unfold Items.createItem
  dsimp only
  split
  · rfl
  · split <;> rfl

theorem grows_addItem (id : ItemId) (count : Nat) (s : Purse) : Grows items s (items.addItem fits id count s) := by
  have hleaf : ∀ b : Item, items.all [.node b []] = [b] := by
    simp [Items.all, reachedAll, reached]
  unfold Items.addItem
  dsimp only
  split
  · refine ⟨?_, ?_⟩
    · intro a ha
      rw [all_append]
      exact mem_append_left _ ha
    intro hd hf
    constructor
    · unfold Distinct
      rw [all_append, hleaf, map_append, nodup_append]
      refine ⟨hd, nodup_singleton _, ?_⟩
      intro p hp p' hp' he
      obtain ⟨b, hb, rfl⟩ := mem_map.mp hp
      rw [map_singleton, mem_singleton, createItem_ptr] at hp'
      have := hf b hb
      omega
    · grind [all_append, createItem_ptr]
  · exact ⟨fun _ h => h, fun hd hf => ⟨hd, fun a ha => Nat.lt_succ_of_lt (hf a ha)⟩⟩

theorem grows_addCoins {id : ItemId} {fuel coins : Nat} {s s' : Purse} (h : items.addCoins fits id fuel coins s = some s') :
    Grows items s s' := by
  induction fuel generalizing coins s with
  | zero =>
    rw [Items.addCoins] at h
    split at h
    · cases h
      exact Grows.refl _
    · cases h
  | succ fuel ih =>
    rw [Items.addCoins] at h
    split at h
    · cases h
      exact Grows.refl _
    · exact (grows_addItem _ _ _).trans (ih h)

theorem grows_addMoney {fuel money : Nat} {s s' : Purse} (h : items.addMoney fits fuel money s = some s') :
    Grows items s s' := by
  have htable : ∀ (table : List (Nat × ItemId)) {money : Nat} {s : Purse},
      items.addCurrency fits fuel table money s = some s' → Grows items s s' := by
    intro table
    induction table with
    | nil =>
      intro money s h
      cases h
      exact Grows.refl _
    | cons e table ih =>
      intro money s h
      rw [Items.addCurrency] at h
      split at h
      · cases h
      dsimp only at h
      split at h
      · exact ih h
      · obtain ⟨s1, hs1, h⟩ := Option.bind_eq_some_iff.mp h
        exact (grows_addCoins hs1).trans (ih h)
  unfold Items.addMoney at h
  split at h
  · cases h
    exact Grows.refl _
  · exact htable _ h

/-! ## The loop -/

theorem worthOf_removeCount {s : Purse} (h : Distinct items s.cylinder) (ha : a ∈ items.all s.cylinder)
    (hc : items.isContainer a = false) (hs : items.isStackable a = true ∨ a.count = 1) {count : Nat} (hpos : 0 < count)
    (hle : count ≤ a.count) :
    items.worthOf (items.removeCount a count s) + (items.type a.id).worth * count = items.worthOf s := by
  have hcoin : items.coinWorth a = (items.type a.id).worth * a.count := by
    simp [Items.coinWorth, hc]
  unfold Items.removeCount Items.worthOf
  split
  · next hgt =>
    simp only [Bool.and_eq_true, decide_eq_true_eq] at hgt
    omega
  split
  · have hset := worth_setCount h ha hc (a.count - count)
    have hsplit : (items.type a.id).worth * (a.count - count) + (items.type a.id).worth * count =
        (items.type a.id).worth * a.count := by
      rw [← Nat.mul_add]
      congr 1
      omega
    dsimp only
    omega
  · next hne =>
    have hall : count = a.count := by
      grind
    have hrem := worth_remove h ha hc
    rw [hcoin, ← hall] at hrem
    show items.worth (remove a.ptr s.cylinder) + items.worth s.tile + _ = _
    omega

/-- What the loop needs to know of the stacks that are left. -/
structure Ready (items : Items) (moneyMap : List (Nat × Item)) (s : Purse) : Prop where
  distinct : Distinct items s.cylinder
  fresh : ∀ a ∈ items.all s.cylinder, a.ptr < s.next
  nodup : (moneyMap.map (·.2.ptr)).Nodup
  mem : ∀ e ∈ moneyMap, e.2 ∈ items.all s.cylinder ∧ items.isContainer e.2 = false ∧ 0 < e.1 ∧
    e.1 = (items.type e.2.id).worth * e.2.count ∧ e.1 < 2 ^ 32 ∧ (items.isStackable e.2 = true ∨ e.2.count = 1)

theorem Ready.tail {e : Nat × Item} {moneyMap : List (Nat × Item)} {s : Purse} (h : Ready items (e :: moneyMap) s) :
    Ready items moneyMap (s.removeItem e.2) := by
  obtain ⟨ha, hc, -⟩ := h.mem e mem_cons_self
  obtain ⟨hne, hnd⟩ := nodup_cons.mp h.nodup
  refine ⟨h.distinct.remove ha hc, ?_, hnd, ?_⟩
  · intro b hb
    rw [show items.all (s.removeItem e.2).cylinder = _ from all_remove h.distinct ha hc] at hb
    exact h.fresh b (mem_filter.mp hb).1
  intro e' he'
  obtain ⟨ha', hrest⟩ := h.mem e' (mem_cons_of_mem _ he')
  refine ⟨?_, hrest⟩
  rw [show items.all (s.removeItem e.2).cylinder = _ from all_remove h.distinct ha hc]
  refine mem_filter.mpr ⟨ha', decide_eq_true ?_⟩
  intro heq
  exact hne (mem_map.mpr ⟨e', he', heq⟩)

theorem worthOf_removeItem {s : Purse} (h : Distinct items s.cylinder) (ha : a ∈ items.all s.cylinder)
    (hc : items.isContainer a = false) :
    items.worthOf (s.removeItem a) + (items.type a.id).worth * a.count = items.worthOf s := by
  have hrem := worth_remove h ha hc
  unfold Items.coinWorth at hrem
  rw [if_neg (by simp [hc])] at hrem
  show items.worth (remove a.ptr s.cylinder) + items.worth s.tile + _ = items.worth s.cylinder + items.worth s.tile
  omega

theorem roundUp_eq {worth : Nat} (hw : 0 < worth) (money : Nat) :
    worth * ((money + worth - 1) / worth) = money + (worth - money % worth) % worth := by
  have hdiv := Nat.div_add_mod money worth
  have hlt := Nat.mod_lt money hw
  have hq : (money + worth - 1) / worth = money / worth + (money % worth + worth - 1) / worth := by
    rw [← Nat.mul_add_div hw]
    congr 1
    omega
  rw [hq, Nat.mul_add]
  by_cases hz : money % worth = 0
  · have hnone : (money % worth + worth - 1) / worth = 0 := Nat.div_eq_of_lt (by omega)
    have hself : (worth - money % worth) % worth = 0 := by rw [hz, Nat.sub_zero, Nat.mod_self]
    rw [hnone, hself]
    omega
  · have hone : (money % worth + worth - 1) / worth = 1 := Nat.div_eq_of_lt_le (by omega) (by omega)
    have hself : (worth - money % worth) % worth = worth - money % worth := Nat.mod_eq_of_lt (by omega)
    rw [hone, hself]
    omega

theorem takeCoins_exact {moneyMap : List (Nat × Item)} {money : Nat} {s : Purse} (h : Ready items moneyMap s)
    (hpos : 0 < money) (hle : money ≤ (moneyMap.map (·.1)).sum) :
    (∃ fuel s', items.takeCoins fits fuel moneyMap money s = some s' ∧ items.worthOf s' + money = items.worthOf s) ↔
      (items.changeDue (moneyMap.map (·.2)) money = 0 ∨
        items.Payable items.currencyItems (items.changeDue (moneyMap.map (·.2)) money)) := by
  induction moneyMap generalizing money s with
  | nil =>
    rw [map_nil, sum_nil] at hle
    omega
  | cons e moneyMap ih =>
    obtain ⟨first, item⟩ := e
    obtain ⟨ha, hc, hfirst, hworth, hlt, hstack⟩ := h.mem (first, item) mem_cons_self
    simp only at ha hc hfirst hworth hlt hstack
    have hremove := worthOf_removeItem h.distinct ha hc
    rw [map_cons, sum_cons] at hle
    rw [map_cons, Items.changeDue, ← hworth]
    have hw : 0 < (items.type item.id).worth := Nat.pos_of_mul_pos_right (hworth ▸ hfirst)
    have hcount : 0 < item.count := Nat.pos_of_mul_pos_left (hworth ▸ hfirst)
    by_cases hless : first < money
    · rw [if_pos hless]
      have htail : Ready items moneyMap (s.removeItem item) := h.tail
      have hstep := ih htail (Nat.sub_pos_of_lt hless) (by omega)
      rw [← hstep]
      constructor
      · rintro ⟨fuel, s', hs', heq⟩
        rw [Items.takeCoins, if_pos hless] at hs'
        exact ⟨fuel, s', hs', by omega⟩
      · rintro ⟨fuel, s', hs', heq⟩
        refine ⟨fuel, s', ?_, by omega⟩
        rw [Items.takeCoins, if_pos hless]
        exact hs'
    · rw [if_neg hless]
      have hround := roundUp_eq hw money
      generalize hchange : ((items.type item.id).worth - money % (items.type item.id).worth) %
        (items.type item.id).worth = change at hround ⊢
      by_cases hmore : first > money
      · have hper : first / item.count = (items.type item.id).worth := by
          rw [hworth, Nat.mul_div_cancel _ hcount]
        have htaken : (money + (items.type item.id).worth - 1) / (items.type item.id).worth ≤ item.count := by
          refine (Nat.div_le_iff_le_mul_add_pred hw).mpr ?_
          omega
        generalize hcoins : (money + (items.type item.id).worth - 1) / (items.type item.id).worth = coins at hround htaken
        have hcoinspos : 0 < coins := by
          by_contra hz
          rw [Nat.eq_zero_of_not_pos hz, Nat.mul_zero] at hround
          omega
        have hmul : (items.type item.id).worth * coins ≤ first := hworth ▸ Nat.mul_le_mul_left _ htaken
        have hamount : ((items.type item.id).worth * coins % 2 ^ 32 + 2 ^ 64 - money) % 2 ^ 64 = change := by
          omega
        have hrun : ∀ fuel, items.takeCoins fits fuel ((first, item) :: moneyMap) money s =
            (items.addMoney fits fuel change s).map (items.removeCount item coins) := by
          intro fuel
          rw [Items.takeCoins, if_neg hless, if_pos hmore]
          dsimp only
          rw [hper, if_neg (Nat.ne_of_gt hw), hcoins, hamount]
        -- the coins go from the stack, wherever the change has gone
        have hgone : ∀ {fuel s1}, items.addMoney fits fuel change s = some s1 →
            items.worthOf (items.removeCount item coins s1) + (items.type item.id).worth * coins = items.worthOf s1 := by
          intro fuel s1 hs1
          have hgrows := grows_addMoney hs1
          exact worthOf_removeCount (hgrows.distinct h.distinct h.fresh).1 (hgrows.stays item ha) hc hstack hcoinspos htaken
        simp only [hrun]
        have hpays : (∃ fuel s1, items.addMoney fits fuel change s = some s1 ∧
            items.worthOf s1 = items.worthOf s + change) ↔
            (change = 0 ∨ items.Payable items.currencyItems change) := by
          unfold Items.addMoney
          by_cases hz : change = 0
          · simp only [hz, if_true, true_or, iff_true]
            exact ⟨0, s, rfl, rfl⟩
          · simp only [hz, if_false, false_or]
            exact pays_iff items fits change s
        rw [← hpays]
        constructor
        · rintro ⟨fuel, s', hs', heq⟩
          obtain ⟨s1, hs1, rfl⟩ := Option.map_eq_some_iff.mp hs'
          have := hgone hs1
          exact ⟨fuel, s1, hs1, by omega⟩
        · rintro ⟨fuel, s1, hs1, heq⟩
          have := hgone hs1
          exact ⟨fuel, _, by rw [hs1]; rfl, by omega⟩
      · have heq : first = money := by omega
        have hzero : change = 0 := by
          rw [← hchange, ← heq, hworth, Nat.mul_mod_right, Nat.sub_zero, Nat.mod_self]
        refine ⟨fun _ => .inl hzero, fun _ => ⟨0, s.removeItem item, ?_, by omega⟩⟩
        rw [Items.takeCoins, if_neg hless, if_neg hmore]

theorem ready_moneyMap (s : Carried items) (hp : items.Plain s.cylinder) :
    Ready items (items.moneyMap s.cylinder) s.toPurse := by
  refine ⟨s.distinct, s.fresh, moneyMap_nodup s.distinct, ?_⟩
  intro e he
  obtain ⟨ha, hc, hw, heq⟩ := mem_moneyMap.mp he
  obtain ⟨hlt, hstack⟩ := hp e.2 ha hc
  have hworth : e.1 = (items.type e.2.id).worth * e.2.count := by
    rw [heq]
    exact Nat.mod_eq_of_lt hlt
  exact ⟨ha, hc, by omega, hworth, by omega, hstack⟩

end

theorem removesExactly_zero (items : Items) (fits : List Tree → Item → Bool) (s : Purse) : RemovesExactly items fits 0 s :=
  ⟨0, (true, s), by simp [Items.removeMoney], fun _ => ⟨rfl, rfl⟩, fun hlt => absurd hlt (Nat.not_lt_zero _)⟩

theorem removesExactly_iff (items : Items) (fits : List Tree → Item → Bool) (money : Nat) (s : Carried items)
    (hp : items.Plain s.cylinder) : RemovesExactly items fits money s.toPurse ↔
      (money = 0 ∨ items.worth s.cylinder < money ∨
        items.changeDue ((items.moneyMap s.cylinder).map (·.2)) money = 0 ∨
        items.Payable items.currencyItems (items.changeDue ((items.moneyMap s.cylinder).map (·.2)) money)) := by
  have hsum := moneyMap_sum hp
  unfold RemovesExactly Items.removeMoney
  by_cases hz : money = 0
  · subst hz
    exact iff_of_true (removesExactly_zero items fits s.toPurse) (.inl rfl)
  by_cases hless : items.worth s.cylinder < money
  · simp only [hz, if_false, hsum, hless, if_true, true_or, or_true, iff_true]
    exact ⟨0, _, rfl, fun hle => absurd hless (Nat.not_lt.mpr hle), fun _ => rfl⟩
  have hexact := @takeCoins_exact items fits _ money s.toPurse (ready_moneyMap s hp) (Nat.pos_of_ne_zero hz)
    (by rw [hsum]; exact Nat.not_lt.mp hless)
  simp only [hz, hsum, hless, if_false, false_or]
  rw [← hexact]
  constructor
  · rintro ⟨fuel, r, hr, htrue, -⟩
    obtain ⟨s', hs', rfl⟩ := Option.map_eq_some_iff.mp hr
    exact ⟨fuel, s', hs', (htrue (Nat.not_lt.mp hless)).2⟩
  · rintro ⟨fuel, s', hs', heq⟩
    exact ⟨fuel, (true, s'), by rw [hs']; rfl, fun _ => ⟨rfl, heq⟩, fun hlt => hlt.elim⟩

/-! ## The coins of items.xml -/

/-- The worths of data/items/items.xml; all four are plain stackable items in items.otb. -/
def currency : List (Nat × ItemId) := [(1000000, 32724), (10000, 3043), (100, 3035), (1, 3031)]

structure Shipped (items : Items) : Prop where
  currencyItems : items.currencyItems = currency
  worth : ∀ id, (items.type id).worth ≠ 0 → ((items.type id).worth, id) ∈ currency
  plain : ∀ e ∈ currency, (items.type e.2).stackable = true ∧ (items.type e.2).container = false ∧
    (items.type e.2).fluid = false

variable {items : Items}

theorem Shipped.worth_le (h : Shipped items) (id : ItemId) : (items.type id).worth ≤ 1000000 := by
  by_cases hz : (items.type id).worth = 0
  · omega
  · have hmem := h.worth id hz
    simp only [currency, mem_cons, Prod.mk.injEq, not_mem_nil, or_false] at hmem
    omega

theorem Shipped.payable (h : Shipped items) {money : Nat} (hm : money < 1000000) :
    items.Payable items.currencyItems money := by
  have hcounts : ∀ e ∈ currency, ∀ coins, items.Counts e.2 coins := by
    intro e he coins
    obtain ⟨hs, hc, hf⟩ := h.plain e he
    exact .inr ⟨hc, .inr ⟨hf, hs⟩⟩
  rw [h.currencyItems]
  refine ⟨by omega, by omega, hcounts (1000000, 32724) (by simp [currency]) _, ?_⟩
  refine ⟨by omega, by omega, hcounts (10000, 3043) (by simp [currency]) _, ?_⟩
  refine ⟨by omega, by omega, hcounts (100, 3035) (by simp [currency]) _, ?_⟩
  refine ⟨by omega, by omega, hcounts (1, 3031) (by simp [currency]) _, ?_⟩
  exact Nat.mod_one _

theorem Shipped.changeDue_lt (h : Shipped items) (coins : List Item) (money : Nat) :
    items.changeDue coins money < 1000000 := by
  induction coins generalizing money with
  | nil =>
    show 0 < 1000000
    decide
  | cons item coins ih =>
    rw [Items.changeDue]
    split
    · exact ih _
    have hle := h.worth_le item.id
    by_cases hz : (items.type item.id).worth = 0
    · rw [hz]
      simp
    · exact Nat.lt_of_lt_of_le (Nat.mod_lt _ (Nat.pos_of_ne_zero hz)) hle

theorem Shipped.plainCoins (h : Shipped items) (s : Carried items)
    (hone : ∀ a ∈ items.all s.cylinder, items.isStackable a = false → a.count = 1) : items.Plain s.cylinder := by
  intro a ha _
  have hcount := s.counts a ha
  constructor
  · calc (items.type a.id).worth * a.count ≤ 1000000 * 255 := Nat.mul_le_mul (h.worth_le a.id) (by omega)
      _ < 2 ^ 32 := by decide
  · grind

/-- Exactly the amount is taken when the change can be paid, and only then; with the coins of
    items.xml it always can. -/
theorem removeMoney_exact (items : Items) (fits : List Tree → Item → Bool) (money : Nat) (s : Carried items) :
    (money = 0 → RemovesExactly items fits money s.toPurse) ∧
    (items.Plain s.cylinder → (RemovesExactly items fits money s.toPurse ↔
      (money = 0 ∨ items.worth s.cylinder < money ∨
        items.changeDue ((items.moneyMap s.cylinder).map (·.2)) money = 0 ∨
        items.Payable items.currencyItems (items.changeDue ((items.moneyMap s.cylinder).map (·.2)) money)))) ∧
    (Shipped items → (∀ a ∈ items.all s.cylinder, items.isStackable a = false → a.count = 1) →
      RemovesExactly items fits money s.toPurse) := by
  refine ⟨fun hzero => hzero ▸ removesExactly_zero items fits s.toPurse, removesExactly_iff items fits money s, ?_⟩
  intro h hone
  refine (removesExactly_iff items fits money s (h.plainCoins s hone)).mpr (.inr (.inr (.inr ?_)))
  exact h.payable (h.changeDue_lt _ _)

def coarseCoins : Items where
  type id := { stackable := true, worth := if id = 2 then 100000 else 1, apart := stackable_only }
  currencyItems := [(100000, 2), (1, 1)]
  descending := by simp
  worths := by simp

def onePiece : Item := { ptr := 0, id := 2, count := 1 }

def onePurse : Carried coarseCoins where
  cylinder := [.node onePiece []]
  tile := []
  next := 1
  distinct := nodup_singleton _
  fresh := by simp [Items.all, reachedAll, reached, Items.isContainer, coarseCoins, onePiece]
  counts := by simp [Items.all, reachedAll, reached, Items.isContainer, coarseCoins, onePiece]

theorem onePurse_plain : coarseCoins.Plain onePurse.cylinder := by
  simp [Items.Plain, onePurse, Items.all, reachedAll, reached, Items.isContainer, coarseCoins, onePiece]

theorem onePurse_exact : RemovesExactly coarseCoins (fun _ _ => true) 40000 onePurse.toPurse :=
  ((removeMoney_exact coarseCoins _ 40000 onePurse).2.1 onePurse_plain).mpr (.inr (.inr (.inr (by
    show coarseCoins.Payable [(100000, 2), (1, 1)] 60000
    simp [Items.Payable, Items.Counts, coarseCoins]))))

/-- To pay 1 from it, 99999 coins of change are due. -/
theorem change_endless : ¬∀ (items : Items) (fits : List Tree → Item → Bool) (money : Nat) (s : Carried items),
    money < 2 ^ 64 → RemovesExactly items fits money s.toPurse := by
  intro h
  obtain ⟨fuel, r, hr, -⟩ := h coarseCoins (fun _ _ => true) 1 onePurse (by decide)
  have hcoins : coarseCoins.addCoins (fun _ _ => true) 1 fuel 99999 onePurse.toPurse = none := addCoins_none (by decide)
  have hchange : coarseCoins.addMoney (fun _ _ => true) fuel 99999 onePurse.toPurse = none := by
    simp [Items.addMoney, show coarseCoins.currencyItems = [(100000, 2), (1, 1)] from rfl, Items.addCurrency, hcoins]
  have hmap : coarseCoins.moneyMap onePurse.cylinder = [(100000, onePiece)] := rfl
  have hnone : coarseCoins.removeMoney (fun _ _ => true) fuel 1 onePurse.toPurse = none := by
    simp [Items.removeMoney, hmap, Items.takeCoins, show onePiece.count = 1 from rfl, hchange]
  rw [hnone] at hr
  cases hr

end Backlands.Inventory
