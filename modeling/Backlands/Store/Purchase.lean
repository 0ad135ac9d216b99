/-
  Backlands.Store.Purchase — buying from the store (src/store/store_service.cpp:
  `StoreService::purchase`, `deliverItem`, `deliverHouseItem`).

  Only the offers that put items into the store inbox are here, of type Item and House; they are
  available to every player. The purchase is debited first, then delivered, and refunded when the
  delivery fails.

  Proved: for every offer and every answer to the debit, the purchase is atomic in every state and
  at every point at which a creation or an addition fails exactly when what is debited is what is
  reported and the offer can be delivered (`purchase_atomic`).
-/

import Backlands.Coins.Accounts
import Backlands.Store.Inbox

namespace Backlands.Store

open Backlands.Lib Backlands.Db Backlands.Coins List Option Bool

/-! ## Offers -/

inductive StoreOfferType where
  | Item
  | House
  deriving DecidableEq, Repr

structure StoreOffer where
  id : UInt32
  name : String
  price : UInt32
  itemId : UInt16
  items : List UInt16
  count : UInt16
  type : StoreOfferType
  deriving DecidableEq

structure StoreManager where
  catalog : Option (List StoreOffer)
  dailyOffers : List (UInt32 × UInt32)

def findOffer (offerId : UInt32) (catalog : List StoreOffer) : Option StoreOffer := catalog.find? fun o => o.id == offerId

def StoreManager.purchasePrice (store : StoreManager) (offer : StoreOffer) : UInt32 :=
  (store.dailyOffers.lookup offer.id).getD offer.price

/-! ## Delivery -/

/-- How a delivery fares: which objects are created and with what, and its calls of
    `internalAddItem`. -/
structure DeliveryEnv where
  created : Nat → Bool
  pick : Nat → Nat
  add : Nat → AddEnv

def stackCounts (stackSize : Nat) : Nat → Nat → List Nat
  | 0, _ => []
  | _ + 1, 0 => []
  | fuel + 1, remaining + 1 =>
    min (remaining + 1) stackSize :: stackCounts stackSize fuel (remaining + 1 - min (remaining + 1) stackSize)

/-- The counts the objects are created with; those that do not stack are created one by one. -/
def deliveryCounts (ty : ItemType) (count : Nat) : List Nat :=
  if ty.stackable then stackCounts (max 1 ty.stackSize.toNat) count count else List.replicate count 0

def createItems (types : ItemTypes) (env : DeliveryEnv) (itemId : UInt16) : Nat → List Nat → Option (List Item)
  | _, [] => some []
  | i, n :: ns =>
    match if env.created i then CreateItem types (env.pick i) itemId n else none with
    | none => none
    | some item =>
      if (types.type itemId).stackable = true ∧ item.count ≠ n then none
      else (createItems types env itemId (i + 1) ns).map fun items => item :: items

/-- The loop of `deliverItem`, with its rollback to `snapshot`. -/
def addItems (types : ItemTypes) (env : DeliveryEnv) (snapshot : StoreInbox) :
    Nat → List Item → StoreInbox → Option String × StoreInbox
  | _, [], inbox => (none, inbox)
  | k, item :: items, inbox =>
    let r := internalAddItem types (env.add k) (item.count + 1) item inbox
    if r.1 = true ∧ r.2.1 = 0 then addItems types env snapshot (k + 1) items r.2.2
    else (some "Your store inbox is full.", rollbackInboxDelivery types snapshot r.2.2)

/-- `deliverItem`: the error, if there is one, and the inbox. -/
def deliverItem (types : ItemTypes) (env : DeliveryEnv) (offer : StoreOffer) (inbox : StoreInbox) :
    Option String × StoreInbox :=
  if offer.itemId = 0 then (some "Invalid item.", inbox)
  else if (types.type offer.itemId).known = false ∨ offer.count = 0 then (some "Invalid item.", inbox)
  else
    match createItems types env offer.itemId 0 (deliveryCounts (types.type offer.itemId) offer.count.toNat) with
    | none => (some "Failed to create item.", inbox)
    | some items =>
      if items = [] then (some "Failed to create item.", inbox)
      else if queryMaxCount offer.count.toNat < offer.count.toNat then (some "Your store inbox is full.", inbox)
      else addItems types env inbox 0 items inbox

def kitDescription (name : String) : String :=
  "You bought this item in the Store.\nUnwrap it in your own house to create a <" ++ name ++ ">."

def createKits (types : ItemTypes) (env : DeliveryEnv) : Nat → List UInt16 → Except String (List Item)
  | _, [] => .ok []
  | i, itemId :: ids =>
    if (types.type itemId).known = false then .error "Invalid house item."
    else
      match if env.created i then CreateItem types (env.pick i) ITEM_DECORATION_KIT 1 else none with
      | none => .error "Failed to create item."
      | some kit =>
        (createKits types env (i + 1) ids).map fun kits =>
          { kit with
            attributes := { kit.attributes with
              description := some (kitDescription (types.type itemId).name)
              wrapId := some itemId } } :: kits

def removeInserted (types : ItemTypes) (inserted : List Nat) (inbox : StoreInbox) : StoreInbox :=
  inserted.foldl (fun inbox ref =>
    inbox.choose fun k item => if k = ref then item.internalRemove types item.count else some item) inbox

/-- The loop of `deliverHouseItem`: a kit that is added stands in front, under a number of its own. -/
def addKits (types : ItemTypes) (env : DeliveryEnv) :
    Nat → List Item → List Nat → StoreInbox → Option String × StoreInbox
  | _, [], _, inbox => (none, inbox)
  | k, kit :: kits, inserted, inbox =>
    let r := internalAddItem types (env.add k) (kit.count + 1) kit inbox
    if r.1 then addKits types env (k + 1) kits (inserted ++ [inbox.next]) r.2.2
    else (some "Your store inbox is full.", removeInserted types inserted r.2.2)

def deliveryIds (offer : StoreOffer) : List UInt16 :=
  if offer.items = [] ∧ 0 < offer.itemId then [offer.itemId] else offer.items

def deliverHouseItem (types : ItemTypes) (env : DeliveryEnv) (offer : StoreOffer) (inbox : StoreInbox) :
    Option String × StoreInbox :=
  if deliveryIds offer = [] then (some "Invalid house item.", inbox)
  else
    match createKits types env 0 (deliveryIds offer) with
    | .error text => (some text, inbox)
    | .ok kits => addKits types env 0 kits [] inbox

def deliverOffer (types : ItemTypes) (env : DeliveryEnv) (offer : StoreOffer) (inbox : StoreInbox) :
    Option String × StoreInbox :=
  match offer.type with
  | .Item => deliverItem types env offer inbox
  | .House => deliverHouseItem types env offer inbox

/-! ## `purchase` -/

structure Player where
  account : UInt32
  guid : UInt32

structure State where
  bank : Bank
  inbox : StoreInbox
  /-- Milliseconds of the steady clock. -/
  lastPurchase : Int

structure PurchaseEnv where
  now : Int
  delivery : DeliveryEnv
  refund : Execution
  history : Bool
  date : Nat

structure StoreResult where
  success : Bool
  message : String
  deriving DecidableEq

structure Outcome where
  result : StoreResult
  refunded : Option Bool
  state : State

/-- Milliseconds. -/
def PurchaseCooldown : Int := 2000

def historyCount (offer : StoreOffer) : Nat :=
  match offer.type with
  | .Item => offer.count.toNat
  | .House => max offer.items.length offer.count.toNat % 65536

/-- `addHistory`: the title is cut at a hundred characters. -/
def addHistory (answered : Bool) (date : Nat) (player : Player) (offer : StoreOffer) (price : UInt32) (bank : Bank) : Bank :=
  if answered then
    { bank with
      shop_history := bank.shop_history ++
        [⟨player.account, player.guid, date, String.ofList (offer.name.toList.take 100), -price.toUInt64.toInt64, 0,
          historyCount offer, ""⟩] }
  else bank

def settle (types : ItemTypes) (player : Player) (debit : Execution) (env : PurchaseEnv) (offer : StoreOffer)
    (price : UInt32) (s : State) : Outcome :=
  let d := Coins.debit (executeQuery debit) player.account price.toUInt64 s.bank.accounts
  let s := { s with bank := { s.bank with accounts := d.2 } }
  if d.1 = false then ⟨⟨false, "Not enough Tibia Coins."⟩, none, s⟩
  else
    match deliverOffer types env.delivery offer s.inbox with
    | (some deliveryError, inbox) =>
      let c := credit (executeQuery env.refund) player.account price.toUInt64 s.bank.accounts
      ⟨⟨false, deliveryError⟩, some c.1, { s with bank := { s.bank with accounts := c.2 }, inbox := inbox }⟩
    | (none, inbox) =>
      ⟨⟨true, "Purchase complete: " ++ offer.name⟩, none,
        { s with bank := addHistory env.history env.date player offer price s.bank, inbox := inbox }⟩

/-- `purchase`; `debit` is how the server fares through the debit. -/
def purchase (types : ItemTypes) (store : StoreManager) (player : Player) (offerId : UInt32) (debit : Execution)
    (env : PurchaseEnv) (s : State) : Outcome :=
  if env.now - s.lastPurchase < PurchaseCooldown then
    ⟨⟨false, "You are purchasing too fast. Please wait a moment."⟩, none, s⟩
  else
    let s := { s with lastPurchase := env.now }
    match store.catalog with
    | none => ⟨⟨false, "Store is not available."⟩, none, s⟩
    | some catalog =>
      match findOffer offerId catalog with
      | none => ⟨⟨false, "Offer not found."⟩, none, s⟩
      | some offer =>
        if store.purchasePrice offer = 0 then ⟨⟨false, "Invalid offer price."⟩, none, s⟩
        else settle types player debit env offer (store.purchasePrice offer) s

/-! ## Atomicity -/

def kitWare (types : ItemTypes) (itemId : UInt16) : Ware :=
  ⟨ITEM_DECORATION_KIT, some itemId, some (kitDescription (types.type itemId).name)⟩

/-- The offer's items and counts: of an Item offer `count` units of its item; of a House offer
    a kit for each of its items, or `count` kits of its one item. -/
def StoreOffer.wares (types : ItemTypes) (offer : StoreOffer) : List Ware :=
  match offer.type with
  | .Item => List.replicate offer.count.toNat ⟨transformed offer.itemId, none, none⟩
  | .House =>
    (if offer.items = [] then List.replicate offer.count.toNat offer.itemId else offer.items).map (kitWare types)

/-- Every object of the one inbox is in the other, as it was or as a stack that took units. -/
def Kept (types : ItemTypes) (inbox inbox' : StoreInbox) : Prop :=
  ∀ k item, inbox.find? k = some item →
    ∃ item', inbox'.find? k = some item' ∧ (item' = item ∨ item.Grown types item')

/-- What the purchase was to do: nothing when it answers failure, and its refund did not fail;
    else take the price and give the offer. -/
structure Atomic (types : ItemTypes) (store : StoreManager) (player : Player) (offerId : UInt32) (s : State)
    (o : Outcome) : Prop where
  failed : o.result.success = false → o.refunded ≠ some false →
    o.state.bank.accounts = s.bank.accounts ∧
      (o.state.inbox.rows.map Prod.snd).Perm (s.inbox.rows.map Prod.snd)
  sold : o.result.success = true → ∃ catalog offer a, store.catalog = some catalog ∧
    findOffer offerId catalog = some offer ∧ s.bank.accounts.find? player.account = some a ∧
      o.state.bank.accounts =
        s.bank.accounts.set player.account ⟨a.tibia_coins - (store.purchasePrice offer).toNat⟩ ∧
      (o.state.inbox.wares types).Perm (offer.wares types ++ s.inbox.wares types) ∧
      Kept types s.inbox o.state.inbox

/-- The debit took effect exactly when it was answered. -/
def Reported (debit : Execution) : Prop :=
  debit.first ≠ .lost ∧
    (debit.first = .failed → debit.lostConnection = true → debit.reconnect = true → debit.second ≠ .lost)

def answers (debit : Execution) : Bool :=
  debit.first.ok || (debit.lostConnection && debit.reconnect && debit.second.ok)

def ItemType.perObject (ty : ItemType) : Nat := if ty.stackable then max 1 ty.stackSize.toNat else 1

/-- The offer can be delivered whole or not at all: what takes several objects can be removed
    again and, if it stacks, does not decay; a House offer of one item is of one kit. -/
def Deliverable (types : ItemTypes) (offer : StoreOffer) : Prop :=
  match offer.type with
  | .Item =>
    let made := types.type (transformed offer.itemId)
    offer.itemId ≠ 0 → (types.type offer.itemId).known = true →
      (types.type offer.itemId).perObject < offer.count.toNat → made.pickupable = true →
        made.canRemove = true ∧ (2 ≤ made.getStackSize → made.steady = true)
  | .House => offer.items = [] → offer.itemId ≠ 0 → (types.type offer.itemId).known = true → offer.count = 1

/-! ## Debit and refund -/

section
variable {debit refund : Execution} {accountId : UInt32} {price : UInt32} {accounts : Accounts}

theorem executeQuery_lost {σ : Type} (h : debit.first = .lost) (stmt : σ → Nat × σ) (s : σ) :
    executeQuery debit stmt s =
      if debit.lostConnection && debit.reconnect then
        (debit.second.ok, if debit.second.ok then (stmt (stmt s).2).1 else 0,
          if debit.second.applied then (stmt (stmt s).2).2 else (stmt s).2)
      else (false, 0, (stmt s).2) := by
  unfold executeQuery
  rw [h]
  rfl

theorem executeQuery_failed {σ : Type} (h : debit.first = .failed) (stmt : σ → Nat × σ) (s : σ) :
    executeQuery debit stmt s =
      if debit.lostConnection && debit.reconnect then
        (debit.second.ok, if debit.second.ok then (stmt s).1 else 0, if debit.second.applied then (stmt s).2 else s)
      else (false, 0, s) := by
  unfold executeQuery
  rw [h]
  rfl

theorem executeQuery_reported {σ : Type} (h : Reported debit) (stmt : σ → Nat × σ) (s : σ) :
    executeQuery debit stmt s = if answers debit then (true, stmt s) else (false, 0, s) := by
  obtain ⟨h1, h2⟩ := h
  unfold answers
  cases hf : debit.first with
  | done =>
    unfold executeQuery
    rw [hf]
    rfl
  | lost => exact absurd hf h1
  | failed =>
    rw [executeQuery_failed hf]
    cases hl : debit.lostConnection && debit.reconnect with
    | false => rfl
    | true =>
      obtain ⟨hl1, hl2⟩ := and_eq_true_iff.mp hl
      have h3 := h2 hf hl1 hl2
      cases hs : debit.second with
      | done => rfl
      | lost => exact absurd hs h3
      | failed => rfl

theorem guarded_eq (exec : (Accounts → Nat × Accounts) → Accounts → Bool × Nat × Accounts)
    (stmt : Accounts → Nat × Accounts) (ha : accountId ≠ 0) (hp : price ≠ 0) (accounts : Accounts) :
    guarded exec stmt accountId price.toUInt64 accounts = one (exec stmt accounts) := by
  have hz : price.toUInt64 ≠ 0 := fun h => hp (by simpa using congrArg UInt64.toUInt32 h)
  have hm : ¬ MaxCoins < price.toUInt64 := by
    rw [UInt64.lt_iff_toNat_lt, UInt32.toNat_toUInt64]
    have := price.toNat_lt
    show ¬ 4294967295 < _
    omega
  unfold guarded
  rw [if_neg ha, if_neg hz, if_neg hm]

theorem debit_cases (h : Reported debit) (ha : accountId ≠ 0) (hp : price ≠ 0) (accounts : Accounts) :
    Coins.debit (executeQuery debit) accountId price.toUInt64 accounts = (false, accounts) ∨
      (answers debit = true ∧ ∃ a, accounts.find? accountId = some a ∧
        Coins.debit (executeQuery debit) accountId price.toUInt64 accounts =
          (true, accounts.set accountId ⟨a.tibia_coins - price.toNat⟩)) := by
  unfold Coins.debit
  rw [guarded_eq _ _ ha hp, executeQuery_reported h]
  cases answers debit with
  | false => exact .inl rfl
  | true =>
    unfold debitQuery
    rcases alter_cases accountId (-price.toUInt64.toNat) (fun coins => decide ((price.toUInt64.toNat : ℤ) ≤ coins))
        accounts with he | ⟨a, hf, -, he⟩
    · left
      rw [he]
      rfl
    · right
      refine ⟨rfl, a, hf, ?_⟩
      rw [he, UInt32.toNat_toUInt64, ← Int.sub_eq_add_neg]
      rfl

theorem refund_cases (hu : refund.Undone) (ha : accountId ≠ 0) (hp : price ≠ 0) {a : Account}
    (hf : accounts.find? accountId = some a) :
    (credit (executeQuery refund) accountId price.toUInt64
        (accounts.set accountId ⟨a.tibia_coins - price.toNat⟩)).1 = false ∨
      credit (executeQuery refund) accountId price.toUInt64
        (accounts.set accountId ⟨a.tibia_coins - price.toNat⟩) = (true, accounts) := by
  unfold credit
  rw [guarded_eq _ _ ha hp]
  rcases executeQuery_cases hu (creditQuery accountId price.toUInt64)
      (accounts.set accountId ⟨a.tibia_coins - price.toNat⟩) with he | he
  · rw [he]
    unfold creditQuery
    rcases alter_cases accountId price.toUInt64.toNat
        (fun coins => decide (coins ≤ (MaxCoins - price.toUInt64).toNat))
        (accounts.set accountId ⟨a.tibia_coins - price.toNat⟩) with he | ⟨b, hb, -, he⟩
    · left
      rw [he]
      rfl
    right
    rw [Table.find?_set hf, if_pos rfl] at hb
    cases hb
    rw [he, Table.set_set]
    show (true, accounts.set accountId ⟨a.tibia_coins - price.toNat + price.toUInt64.toNat⟩) = _
    rw [UInt32.toNat_toUInt64, Int.sub_add_cancel, Table.set_self hf]
  · left
    rw [he]
    rfl

end

/-! ## Delivering items -/

section
variable {types : ItemTypes} {env : DeliveryEnv} {itemId : UInt16} {ware : Ware} {item : Item} {items : List Item}
  {inbox snapshot : StoreInbox}

structure Made (types : ItemTypes) (ware : Ware) (item : Item) : Prop where
  ware : item.ware = ware
  instanceId : item.instanceId = 0
  count : item.count ≤ 255
  single : (types.type item.id).stackable = false → item.count = 1
  attributes : item.attributes.Unused (types.type item.id)

theorem Made.id (h : Made types ware item) : item.id = ware.id := congrArg Ware.id h.ware

theorem Made.add (h : Made types ware item) (env : AddEnv) (inbox : StoreInbox) :
    (queryAdd types env.capacity item = false ∧
        internalAddItem types env (item.count + 1) item inbox = (false, 0, inbox)) ∨
      (queryAdd types env.capacity item = true ∧
        ∃ inbox', internalAddItem types env (item.count + 1) item inbox = (true, 0, inbox') ∧
          Extended types ware.id inbox inbox' ∧
          (inbox'.wares types).Perm (List.replicate item.count ware ++ inbox.wares types)) := by
  have hc := internalAddItem_cases env item inbox (Nat.lt_succ_self item.count) h.instanceId h.count h.single
    h.attributes
  rw [h.id, h.ware] at hc
  exact hc

theorem transformed_plain (h : (types.type itemId).stackable = false) :
    (types.type (transformed itemId)).stackable = false := by
  by_cases e : transformed itemId = itemId
  · rw [e]
    exact h
  · exact (types.plain itemId e).2

theorem transformed_stackable (h : (types.type itemId).stackable = true) : transformed itemId = itemId := by
  by_contra e
  rw [(types.plain itemId e).1] at h
  cases h

theorem made_created {pick n : Nat} (h : CreateItem types pick itemId n = some item) (hn : n ≤ 255) :
    Made types ⟨transformed itemId, none, none⟩ item := by
  unfold CreateItem at h
  split at h
  · cases h
    refine ⟨rfl, rfl, ?_, ?_, unused_fresh _ _⟩
    · grind
    · grind
  · cases h

theorem createItems_spec {ns : List Nat} (hn : ∀ n ∈ ns, n ≤ 255) {i : Nat}
    (h : createItems types env itemId i ns = some items) :
    (∀ item ∈ items, Made types ⟨transformed itemId, none, none⟩ item) ∧ items.length = ns.length ∧
      ((types.type itemId).stackable = true → items.map Item.count = ns) := by
  induction ns generalizing i items with
  | nil =>
    cases h
    exact ⟨fun item hm => (by cases hm), rfl, fun _ => rfl⟩
  | cons n ns ih =>
    unfold createItems at h
    split at h
    · cases h
    next item hitem =>
    split at h
    · cases h
    next hcount =>
    obtain ⟨rest, hrest, rfl⟩ := map_eq_some_iff.mp h
    have hcreated : CreateItem types (env.pick i) itemId n = some item := by
      grind
    obtain ⟨hmade, hlen, hcounts⟩ := ih (fun m hm => hn m (mem_cons_of_mem _ hm)) hrest
    refine ⟨?_, by rw [length_cons, length_cons, hlen], ?_⟩
    · intro x hx
      rcases mem_cons.mp hx with rfl | hx
      · exact made_created hcreated (hn n mem_cons_self)
      · exact hmade x hx
    · intro hst
      rw [map_cons, hcounts hst]
      congr 1
      by_contra hne
      exact hcount ⟨hst, hne⟩

theorem mem_stackCounts {stackSize fuel n m : Nat} (h : m ∈ stackCounts stackSize fuel n) : m ≤ stackSize := by
  induction fuel generalizing n with
  | zero => cases h
  | succ fuel ih =>
    cases n with
    | zero => cases h
    | succ n =>
      rcases mem_cons.mp h with rfl | h
      · exact Nat.min_le_right _ _
      · exact ih h

theorem sum_stackCounts {stackSize fuel n : Nat} (hs : 0 < stackSize) (hf : n ≤ fuel) :
    (stackCounts stackSize fuel n).sum = n := by
  induction fuel generalizing n with
  | zero =>
    have : n = 0 := by omega
    rw [this]
    rfl
  | succ fuel ih =>
    cases n with
    | zero => rfl
    | succ n =>
      show (_ :: stackCounts stackSize fuel _).sum = _
      rw [sum_cons, ih (by omega)]
      omega

theorem length_deliveryCounts {ty : ItemType} {n : Nat} (h : n ≤ ty.perObject) :
    (deliveryCounts ty n).length ≤ 1 := by
  unfold ItemType.perObject at h
  unfold deliveryCounts
  split at h
  · next hst =>
    rw [if_pos hst]
    cases n with
    | zero => exact Nat.zero_le 1
    | succ n =>
      show (_ :: stackCounts _ n _).length ≤ 1
      rw [Nat.min_eq_left h, Nat.sub_self]
      cases n with
      | zero => exact Nat.le_refl 1
      | succ n => exact Nat.le_refl 1
  · next hst =>
    rw [if_neg hst, length_replicate]
    exact h

theorem deliveryCounts_le {ty : ItemType} {n m : Nat} (h : m ∈ deliveryCounts ty n) : m ≤ 255 := by
  unfold deliveryCounts at h
  split at h
  · have := mem_stackCounts h
    have := ty.stackSize.toNat_lt
    omega
  · rw [(mem_replicate.mp h).2]
    omega

theorem sum_counts {n i : Nat} (h : createItems types env itemId i (deliveryCounts (types.type itemId) n) = some items) :
    (items.map Item.count).sum = n := by
  obtain ⟨hmade, hlen, hcounts⟩ := createItems_spec (fun m hm => deliveryCounts_le hm) h
  cases hst : (types.type itemId).stackable with
  | true =>
    rw [hcounts hst, deliveryCounts, if_pos hst]
    exact sum_stackCounts (by omega) (Nat.le_refl n)
  | false =>
    have hone : items.map Item.count = List.replicate items.length 1 := by
      refine eq_replicate_iff.mpr ⟨length_map _, ?_⟩
      intro m hm
      obtain ⟨item, hi, rfl⟩ := mem_map.mp hm
      refine (hmade item hi).single ?_
      rw [(hmade item hi).id]
      exact transformed_plain hst
    rw [hone, hlen, deliveryCounts, hst]
    simp

theorem addItems_cases (env : DeliveryEnv) (hmade : ∀ item ∈ items, Made types ware item) (hext : Extended types ware.id snapshot inbox)
    (k : Nat) :
    (∃ inbox', addItems types env snapshot k items inbox = (none, inbox') ∧ Extended types ware.id snapshot inbox' ∧
        (inbox'.wares types).Perm (List.replicate (items.map Item.count).sum ware ++ inbox.wares types)) ∨
      ∃ text inbox', addItems types env snapshot k items inbox =
          (some text, rollbackInboxDelivery types snapshot inbox') ∧
        Extended types ware.id snapshot inbox' ∧
        (inbox' = inbox ∨ (1 < items.length ∧ (types.type ware.id).pickupable = true)) := by
  induction items generalizing inbox k with
  | nil => exact .inl ⟨inbox, rfl, hext, List.Perm.refl _⟩
  | cons item items ih =>
    unfold addItems
    have hitem := hmade item mem_cons_self
    rcases hitem.add (env.add k) inbox with ⟨-, he⟩ | ⟨hq, inbox', he, hext', hperm⟩
    · rw [he]
      exact .inr ⟨_, inbox, rfl, hext, .inl rfl⟩
    rw [he]
    have hpick : (types.type ware.id).pickupable = true := by
      rw [← hitem.id]
      exact (and_eq_true_iff.mp hq).1
    rcases ih (fun x hx => hmade x (mem_cons_of_mem _ hx)) (hext.trans hext') (k + 1) with
      ⟨inbox'', he', hext'', hperm'⟩ | ⟨text, inbox'', he', hext'', -⟩
    · refine .inl ⟨inbox'', he', hext'', hperm'.trans ((hperm.append_left _).trans ?_)⟩
      rw [← append_assoc, replicate_append_replicate, map_cons, sum_cons, Nat.add_comm]
    refine .inr ⟨text, inbox'', he', hext'', .inr ⟨?_, hpick⟩⟩
    cases items with
    | nil => cases he'
    | cons x xs =>
      simp

theorem rollback_self (types : ItemTypes) (inbox : StoreInbox) (k : Nat) :
    (rollbackInboxDelivery types inbox inbox).find? k = inbox.find? k := by
  unfold rollbackInboxDelivery
  rw [Table.find?_choose]
  cases hk : inbox.find? k with
  | none => rfl
  | some item =>
    simp

def Ended (types : ItemTypes) (offer : StoreOffer) (inbox : StoreInbox) (r : Option String × StoreInbox) : Prop :=
  (r.1 ≠ none ∧ ∀ k, r.2.find? k = inbox.find? k) ∨
    (r.1 = none ∧ (r.2.wares types).Perm (offer.wares types ++ inbox.wares types) ∧ Kept types inbox r.2)

variable {offer : StoreOffer}

theorem Extended.keeps {id : UInt16} {inbox' : StoreInbox} (h : Extended types id inbox inbox') :
    Kept types inbox inbox' := by
  intro k item hk
  obtain ⟨item', hk', hg⟩ := h.kept k item hk
  exact ⟨item', hk', hg.imp_right And.right⟩

theorem deliverItem_ended (ht : offer.type = .Item) (hd : Deliverable types offer) (env : DeliveryEnv)
    (inbox : StoreInbox) : Ended types offer inbox (deliverItem types env offer inbox) := by
  have refused (text : String) : Ended types offer inbox (some text, inbox) :=
    Or.inl ⟨some_ne_none _, fun _ => rfl⟩
  unfold deliverItem
  split
  · exact refused _
  next hid =>
  split
  · exact refused _
  next hk =>
  split
  · exact refused _
  next items hitems =>
  split
  · exact refused _
  split
  · exact refused _
  obtain ⟨hmade, hlen, -⟩ := createItems_spec (fun m hm => deliveryCounts_le hm) hitems
  rcases addItems_cases env hmade (Extended.refl inbox) 0 with
    ⟨inbox', he, hext, hperm⟩ | ⟨text, inbox', he, hext, hback⟩
  · rw [he]
    refine .inr ⟨rfl, ?_, hext.keeps⟩
    rw [sum_counts hitems] at hperm
    unfold StoreOffer.wares
    rw [ht]
    exact hperm
  · rw [he]
    refine .inl ⟨some_ne_none _, ?_⟩
    rcases hback with rfl | ⟨hlong, hpick⟩
    · exact rollback_self types inbox'
    unfold Deliverable at hd
    rw [ht] at hd
    have hmany : (types.type offer.itemId).perObject < offer.count.toNat := by
      by_contra hle
      have := length_deliveryCounts (Nat.not_lt.mp hle)
      omega
    obtain ⟨hr, hs⟩ := hd hid (by simpa using fun h => hk (.inl h)) hmany hpick
    exact rollback_extended hext hr hs

/-! ## Delivering kits -/

/-- A kit stands for itself: it is put in front, under a new number. -/
theorem internalAddItem_plain (hst : (types.type item.id).stackable = false) (env : AddEnv)
    (inbox : StoreInbox) :
    internalAddItem types env (item.count + 1) item inbox =
      if queryAdd types env.capacity item then (true, 0, inbox.push item) else (false, 0, inbox) := by
  have hd : inbox.queryDestination types item = (INDEX_WHEREEVER, none) := by
    simp [StoreInbox.queryDestination, hst]
  unfold internalAddItem
  rw [hd]
  rfl

structure Kit (types : ItemTypes) (itemId : UInt16) (item : Item) : Prop extends
    Made types (kitWare types itemId) item where
  known : (types.type itemId).known = true

theorem Kit.plain (h : Kit types itemId item) :
    (types.type item.id).stackable = false ∧ (types.type item.id).canRemove = true := by
  rw [h.id]
  exact ⟨types.kit.2.1, types.kit.2.2.2⟩

theorem createKits_spec {ids : List UInt16} {i : Nat} {kits : List Item} (h : createKits types env i ids = .ok kits) :
    List.Forall₂ (Kit types) ids kits := by
  induction ids generalizing i kits with
  | nil =>
    cases h
    exact .nil
  | cons id ids ih =>
    unfold createKits at h
    split at h
    · cases h
    next hknown =>
    split at h
    · cases h
    next kit hkit =>
    cases hrest : createKits types env (i + 1) ids with
    | error text =>
      rw [hrest] at h
      cases h
    | ok rest =>
      rw [hrest] at h
      cases h
      have hcreated : CreateItem types (env.pick i) ITEM_DECORATION_KIT 1 = some kit := by
        grind
      have hm := made_created hcreated (by omega)
      have hid : kit.id = ITEM_DECORATION_KIT := hm.id
      refine .cons ⟨{ hm with ware := ?_, attributes := ?_ }, ?_⟩ (ih hrest)
      · rw [hid]
        rfl
      · exact ⟨hm.attributes.corpseOwner, hm.attributes.still, hm.attributes.running⟩
      · simpa using hknown

/-- The numbers under which the kits are, and nothing else that is new. -/
structure Inserted (types : ItemTypes) (snapshot : StoreInbox) (inserted : List Nat) (inbox : StoreInbox) : Prop where
  new : ∀ k ∈ inserted, snapshot.find? k = none ∧
    ∃ item, inbox.find? k = some item ∧ (types.type item.id).canRemove = true
  old : ∀ k, k ∉ inserted → inbox.find? k = snapshot.find? k

variable {inserted : List Nat}

theorem Inserted.nil (inbox : StoreInbox) : Inserted types inbox [] inbox :=
  ⟨fun k hk => (by cases hk), fun _ _ => rfl⟩

theorem Inserted.push {inserted : List Nat} (h : Inserted types snapshot inserted inbox)
    (hr : (types.type item.id).canRemove = true) :
    Inserted types snapshot (inserted ++ [inbox.next]) (inbox.push item) := by
  have hnext : inbox.next ∉ inserted := by
    intro hm
    obtain ⟨-, x, hx, -⟩ := h.new _ hm
    rw [find?_next] at hx
    cases hx
  refine ⟨?_, ?_⟩
  · intro k hk
    rw [find?_push]
    rcases mem_append.mp hk with hk | hk
    · obtain ⟨hn, x, hx, hxr⟩ := h.new k hk
      exact ⟨hn, x, by rw [if_neg (fun e => hnext (by rw [← e]; exact hk))]; exact hx, hxr⟩
    · cases mem_singleton.mp hk
      exact ⟨by rw [← h.old _ hnext]; exact find?_next inbox, item, if_pos rfl, hr⟩
  · intro k hk
    rw [find?_push, if_neg (fun e => hk (by rw [e]; simp)), h.old k (fun hm => hk (mem_append_left _ hm))]

theorem find?_removeInserted
    (hr : ∀ k ∈ inserted, ∀ item, inbox.find? k = some item → (types.type item.id).canRemove = true) (k : Nat) :
    (removeInserted types inserted inbox).find? k = if k ∈ inserted then none else inbox.find? k := by
  induction inserted generalizing inbox with
  | nil => rfl
  | cons ref inserted ih =>
    have hstep (j : Nat) :
        (inbox.choose fun k item => if k = ref then item.internalRemove types item.count else some item).find? j =
          if j = ref then none else inbox.find? j := by
      rw [Table.find?_choose]
      cases hj : inbox.find? j with
      | none => simp
      | some item =>
        show (if j = ref then item.internalRemove types item.count else some item) = _
        by_cases e : j = ref
        · rw [if_pos e, if_pos e]
          exact internalRemove_all (hr j (by rw [e]; exact mem_cons_self) item hj)
        · rw [if_neg e, if_neg e]
    show (removeInserted types inserted _).find? k = _
    rw [ih, hstep]
    · by_cases e : k = ref
      · simp [e]
      · simp [e]
    · intro j hj item hf
      rw [hstep] at hf
      split at hf
      · cases hf
      · exact hr j (mem_cons_of_mem _ hj) item hf

theorem addKits_cases (env : DeliveryEnv) {ids : List UInt16} {kits : List Item}
    (hkits : List.Forall₂ (Kit types) ids kits) (h : Inserted types snapshot inserted inbox) (k : Nat) :
    (∃ text inbox', addKits types env k kits inserted inbox = (some text, inbox') ∧
        ∀ j, inbox'.find? j = snapshot.find? j) ∨
      ∃ inbox' inserted', addKits types env k kits inserted inbox = (none, inbox') ∧
        Inserted types snapshot inserted' inbox' ∧
        (inbox'.wares types).Perm (ids.map (kitWare types) ++ inbox.wares types) := by
  induction hkits generalizing inserted inbox k with
  | nil => exact .inr ⟨inbox, inserted, rfl, h, List.Perm.refl _⟩
  | @cons id kit ids kits hkit _ ih =>
    obtain ⟨hst, hr⟩ := hkit.plain
    unfold addKits
    rw [internalAddItem_plain hst]
    cases hq : queryAdd types (env.add k).capacity kit with
    | false =>
      refine .inl ⟨_, _, rfl, ?_⟩
      intro j
      rw [find?_removeInserted ?_]
      · split
        · next hj => exact (h.new j hj).1.symm
        · next hj => exact h.old j hj
      · intro j hj item hf
        obtain ⟨-, x, hx, hxr⟩ := h.new j hj
        grind
    | true =>
      rcases ih (h.push hr) (k + 1) with ⟨text, inbox', he, hback⟩ | ⟨inbox', inserted', he, hins, hperm⟩
      · exact .inl ⟨text, inbox', he, hback⟩
      refine .inr ⟨inbox', inserted', he, hins, hperm.trans ?_⟩
      have hunits : kit.units types = 1 := by
        simp [Item.units, hst]
      simp [wares_push, hunits, hkit.ware, map_cons]

theorem Inserted.keeps (h : Inserted types snapshot inserted inbox) : Kept types snapshot inbox := by
  intro k item hk
  refine ⟨item, ?_, .inl rfl⟩
  rw [h.old k ?_]
  · exact hk
  · intro hm
    rw [(h.new k hm).1] at hk
    cases hk

theorem wares_deliveryIds (ht : offer.type = .House) (hc : offer.items = [] → offer.itemId ≠ 0 → offer.count = 1)
    (hne : deliveryIds offer ≠ []) : offer.wares types = (deliveryIds offer).map (kitWare types) := by
  unfold StoreOffer.wares
  rw [ht]
  unfold deliveryIds at hne ⊢
  by_cases hi : offer.items = []
  · by_cases hid : 0 < offer.itemId
    · rw [if_pos hi, if_pos ⟨hi, hid⟩, hc hi (fun e => by rw [e] at hid; exact absurd hid (by decide))]
      rfl
    · rw [if_neg (fun h => hid h.2)] at hne
      exact absurd hi hne
  · rw [if_neg hi, if_neg (fun h => hi h.1)]

theorem deliverHouseItem_ended (ht : offer.type = .House) (hd : Deliverable types offer) (env : DeliveryEnv)
    (inbox : StoreInbox) : Ended types offer inbox (deliverHouseItem types env offer inbox) := by
  have refused (text : String) : Ended types offer inbox (some text, inbox) :=
    Or.inl ⟨some_ne_none _, fun _ => rfl⟩
  unfold deliverHouseItem
  split
  · exact refused _
  next hne =>
  split
  · exact refused _
  next kits hkits =>
  have hspec := createKits_spec hkits
  rcases addKits_cases env hspec (Inserted.nil inbox) 0 with
    ⟨text, inbox', he, hback⟩ | ⟨inbox', inserted, he, hins, hperm⟩
  · rw [he]
    exact .inl ⟨some_ne_none _, hback⟩
  rw [he]
  refine .inr ⟨rfl, ?_, hins.keeps⟩
  rw [wares_deliveryIds ht ?_ hne]
  · exact hperm
  intro hi hid
  unfold Deliverable at hd
  rw [ht] at hd
  refine hd hi hid ?_
  rw [deliveryIds, if_pos ⟨hi, UInt16.pos_iff_ne_zero.mpr hid⟩] at hspec
  cases hspec with
  | cons hkit _ => exact hkit.known

theorem deliverOffer_ended (hd : Deliverable types offer) (env : DeliveryEnv) (inbox : StoreInbox) :
    Ended types offer inbox (deliverOffer types env offer inbox) := by
  unfold deliverOffer
  split
  · next ht => exact deliverItem_ended ht hd env inbox
  · next ht => exact deliverHouseItem_ended ht hd env inbox

end

/-! ## The purchase -/

section
variable {types : ItemTypes} {store : StoreManager} {player : Player} {offerId : UInt32} {debit : Execution}
  {env : PurchaseEnv} {s : State} {offer : StoreOffer} {price : UInt32}

def Sound (types : ItemTypes) (player : Player) (debit : Execution) (offer : StoreOffer) (price : UInt32) : Prop :=
  price ≠ 0 → player.account ≠ 0 → Reported debit ∧ (answers debit = true → Deliverable types offer)

theorem guarded_zero (exec : (Accounts → Nat × Accounts) → Accounts → Bool × Nat × Accounts)
    (stmt : Accounts → Nat × Accounts) (amount : UInt64) (accounts : Accounts) :
    guarded exec stmt 0 amount accounts = (false, accounts) := if_pos rfl

theorem settle_sound (hp : price ≠ 0) (hs : Sound types player debit offer price) (hu : env.refund.Undone) :
    (settle types player debit env offer price s).result.success = false ∧
        ((settle types player debit env offer price s).refunded ≠ some false →
          (settle types player debit env offer price s).state.bank.accounts = s.bank.accounts ∧
            ((settle types player debit env offer price s).state.inbox.rows.map Prod.snd).Perm
              (s.inbox.rows.map Prod.snd)) ∨
      (settle types player debit env offer price s).result.success = true ∧
        ∃ a, s.bank.accounts.find? player.account = some a ∧
          (settle types player debit env offer price s).state.bank.accounts =
            s.bank.accounts.set player.account ⟨a.tibia_coins - price.toNat⟩ ∧
          ((settle types player debit env offer price s).state.inbox.wares types).Perm
            (offer.wares types ++ s.inbox.wares types) ∧
          Kept types s.inbox (settle types player debit env offer price s).state.inbox := by
  have unpaid (h : Coins.debit (executeQuery debit) player.account price.toUInt64 s.bank.accounts =
      (false, s.bank.accounts)) : settle types player debit env offer price s =
        ⟨⟨false, "Not enough Tibia Coins."⟩, none, s⟩ := by
    unfold settle
    rw [h]
    rfl
  by_cases ha : player.account = 0
  · left
    rw [unpaid (by unfold Coins.debit; rw [ha]; exact guarded_zero _ _ _ _)]
    exact ⟨rfl, fun _ => ⟨rfl, List.Perm.refl _⟩⟩
  obtain ⟨hr, hd⟩ := hs hp ha
  rcases debit_cases hr ha hp s.bank.accounts with he | ⟨hans, a, hf, he⟩
  · left
    rw [unpaid he]
    exact ⟨rfl, fun _ => ⟨rfl, List.Perm.refl _⟩⟩
  unfold settle
  rw [he]
  dsimp only
  have hend := deliverOffer_ended (hd hans) env.delivery s.inbox
  generalize deliverOffer types env.delivery offer s.inbox = r at hend
  obtain ⟨error, inbox⟩ := r
  rcases hend with ⟨herr, hback⟩ | ⟨herr, hperm, hkept⟩
  · obtain ⟨text, rfl⟩ := ne_none_iff_exists'.mp herr
    left
    refine ⟨rfl, ?_⟩
    intro hne
    rcases refund_cases hu ha hp hf with hc | hc
    · exact absurd (congrArg some hc) hne
    · exact ⟨congrArg Prod.snd hc, (Table.perm_of_find? hback).map Prod.snd⟩
  · subst herr
    right
    refine ⟨rfl, a, hf, ?_, hperm, hkept⟩
    show (addHistory env.history env.date player offer price _).accounts = _
    unfold addHistory
    split
    · rfl
    · rfl

end

/-! ## What goes wrong otherwise -/

/-- One account, with `coins`. -/
def solo (accountId : UInt32) (coins : ℤ) : Accounts := ⟨[(accountId, ⟨coins⟩)], nodup_singleton _⟩

def ready (player : Player) (price : UInt32) (inbox : StoreInbox) : State :=
  ⟨⟨solo player.account price.toNat, []⟩, inbox, 0⟩

def calm (delivery : DeliveryEnv) : PurchaseEnv := ⟨PurchaseCooldown, delivery, Execution.good, true, 0⟩

section
variable {types : ItemTypes} {player : Player} {debit : Execution} {delivery : DeliveryEnv} {offer : StoreOffer}
  {accountId price : UInt32} {inbox : StoreInbox}

theorem alter_solo {guard : ℤ → Bool} {coins delta : ℤ} (hg : guard coins = true) (hd : delta ≠ 0) :
    alter accountId delta guard (solo accountId coins) = (1, solo accountId (coins + delta)) := by
  rcases alter_cases accountId delta guard (solo accountId coins) with he | ⟨a, hf, -, he⟩
  · have h1 : (alter accountId delta guard (solo accountId coins)).1 = 1 := by
      simp [alter, Table.affected, solo, hg, hd]
    rw [he] at h1
    cases h1
  · cases mem_singleton.mp (Table.find?_iff.mp hf)
    rw [he]
    refine congrArg (Prod.mk 1) (Table.ext ?_)
    show [(accountId, if accountId = accountId then _ else _)] = _
    rw [if_pos rfl]
    rfl

theorem alter_poor {guard : ℤ → Bool} {coins delta : ℤ} (hg : guard coins = false) :
    alter accountId delta guard (solo accountId coins) = (0, solo accountId coins) := by
  rcases alter_cases accountId delta guard (solo accountId coins) with he | ⟨a, hf, hga, -⟩
  · exact he
  · cases mem_singleton.mp (Table.find?_iff.mp hf)
    rw [hg] at hga
    cases hga

theorem debitQuery_ready (hp : price ≠ 0) :
    debitQuery accountId price.toUInt64 (solo accountId price.toNat) = (1, solo accountId 0) := by
  have hpos : price.toNat ≠ 0 := fun h => hp (UInt32.toNat_inj.mp h)
  unfold debitQuery
  rw [UInt32.toNat_toUInt64, alter_solo (by simp) (by omega), Int.add_right_neg]

theorem debitQuery_poor (hp : price ≠ 0) :
    debitQuery accountId price.toUInt64 (solo accountId 0) = (0, solo accountId 0) := by
  have hpos : price.toNat ≠ 0 := fun h => hp (UInt32.toNat_inj.mp h)
  unfold debitQuery
  rw [UInt32.toNat_toUInt64, alter_poor (by simp only [decide_eq_false_iff_not]; omega)]

theorem credit_ready (hp : price ≠ 0) (ha : accountId ≠ 0) :
    credit (executeQuery Execution.good) accountId price.toUInt64 (solo accountId 0) =
      (true, solo accountId price.toNat) := by
  have hpos : price.toNat ≠ 0 := fun h => hp (UInt32.toNat_inj.mp h)
  unfold credit
  rw [guarded_eq _ _ ha hp]
  show one (true, creditQuery accountId price.toUInt64 (solo accountId 0)) = _
  unfold creditQuery
  rw [UInt32.toNat_toUInt64, alter_solo (decide_eq_true (Int.natCast_nonneg _)) (by omega), Int.zero_add]
  rfl

theorem debit_unreported (h : ¬ Reported debit) (hp : price ≠ 0) (ha : accountId ≠ 0) :
    Coins.debit (executeQuery debit) accountId price.toUInt64 (solo accountId price.toNat) = (false, solo accountId 0) := by
  unfold Coins.debit
  rw [guarded_eq _ _ ha hp]
  cases hf : debit.first with
  | done =>
    refine absurd ⟨?_, ?_⟩ h
    · rw [hf]
      exact Db.Outcome.noConfusion
    · rw [hf]
      exact fun h => (by cases h)
  | lost =>
    rw [executeQuery_lost hf, debitQuery_ready hp, debitQuery_poor hp]
    cases debit.lostConnection && debit.reconnect with
    | false => rfl
    | true =>
      cases debit.second with
      | done => rfl
      | failed => rfl
      | lost => rfl
  | failed =>
    have hl : debit.lostConnection = true ∧ debit.reconnect = true ∧ debit.second = .lost := by
      by_contra hn
      refine h ⟨by rw [hf]; exact Db.Outcome.noConfusion, fun _ h1 h2 h3 => hn ⟨h1, h2, h3⟩⟩
    obtain ⟨h1, h2, h3⟩ := hl
    rw [executeQuery_failed hf, h1, h2, h3, debitQuery_ready hp]
    rfl

theorem debit_answered (h : Reported debit) (hans : answers debit = true) (hp : price ≠ 0) (ha : accountId ≠ 0) :
    Coins.debit (executeQuery debit) accountId price.toUInt64 (solo accountId price.toNat) = (true, solo accountId 0) := by
  unfold Coins.debit
  rw [guarded_eq _ _ ha hp, executeQuery_reported h, if_pos hans, debitQuery_ready hp]
  rfl

theorem settle_ready (h : Reported debit) (hans : answers debit = true) (hp : price ≠ 0) (ha : player.account ≠ 0)
    {s : State} (hs : s.bank.accounts = solo player.account price.toNat) :
    (settle types player debit (calm delivery) offer price s).state.inbox =
        (deliverOffer types delivery offer s.inbox).2 ∧
      ((deliverOffer types delivery offer s.inbox).1 = none →
        (settle types player debit (calm delivery) offer price s).result.success = true) ∧
      ((deliverOffer types delivery offer s.inbox).1 ≠ none →
        (settle types player debit (calm delivery) offer price s).result.success = false ∧
        (settle types player debit (calm delivery) offer price s).refunded = some true) := by
  unfold settle
  rw [hs, debit_answered h hans hp ha]
  rw [if_neg true_eq_false.mp, show (calm delivery).delivery = delivery from rfl]
  obtain ⟨error, inbox'⟩ := deliverOffer types delivery offer s.inbox
  cases error with
  | none => exact ⟨rfl, fun _ => rfl, fun hne => absurd rfl hne⟩
  | some text =>
    refine ⟨rfl, fun hno => (by cases hno), fun _ => ⟨rfl, ?_⟩⟩
    show some (credit (executeQuery Execution.good) _ _ (solo player.account 0)).1 = some true
    rw [credit_ready hp ha]

/-! ## What cannot be delivered -/

def roomy : Capacity := ⟨false, true, 0⟩

def broken : Capacity := ⟨true, false, 0⟩

/-- Everything is created, and nothing is added after the first object; what is merged draws
    the duration `merged`. -/
def firstOnly (merged : Nat) : DeliveryEnv :=
  ⟨fun _ => true, fun _ => 0, fun k => ⟨if k = 0 then roomy else broken, 0, fun _ => merged, fun _ => 0⟩⟩

theorem queryAdd_roomy {item : Item} (h : (types.type item.id).pickupable = true) : queryAdd types roomy item = true := by
  unfold queryAdd
  rw [h]
  rfl

theorem queryAdd_broken (item : Item) : queryAdd types broken item = false := by
  unfold queryAdd
  rw [Bool.and_comm]
  rfl

theorem stackCounts_pos {stackSize fuel n m : Nat} (hs : 0 < stackSize) (h : m ∈ stackCounts stackSize fuel n) :
    0 < m := by
  induction fuel generalizing n with
  | zero => cases h
  | succ fuel ih =>
    cases n with
    | zero => cases h
    | succ n =>
      rcases mem_cons.mp h with rfl | h
      · omega
      · exact ih h

/-- What takes more than one object is delivered as several, the first of them full. -/
theorem deliveryCounts_many {ty : ItemType} {n : Nat} (h : ty.perObject < n) :
    ∃ n0 n1 ns, deliveryCounts ty n = n0 :: n1 :: ns ∧ (2 ≤ ty.getStackSize → n0 = ty.getStackSize) ∧
      (ty.stackable = true → ∀ m ∈ n0 :: n1 :: ns, 0 < m) := by
  unfold ItemType.perObject at h
  unfold deliveryCounts ItemType.getStackSize
  split at h
  · next hst =>
    rw [if_pos hst, if_pos hst]
    generalize hS : max 1 ty.stackSize.toNat = S at h
    obtain ⟨k, rfl⟩ : ∃ k, n = k + 2 := ⟨n - 2, by omega⟩
    obtain ⟨j, hj⟩ : ∃ j, k + 2 - min (k + 2) S = j + 1 := ⟨k + 1 - S, by omega⟩
    have hc : stackCounts S (k + 2) (k + 2) = min (k + 2) S :: min (j + 1) S :: stackCounts S k (j + 1 - min (j + 1) S) := by
      show _ :: stackCounts S (k + 1) (k + 2 - min (k + 2) S) = _
      rw [hj]
      rfl
    refine ⟨_, _, _, hc, fun h2 => by omega, ?_⟩
    intro _ m hm
    rw [← hc] at hm
    exact stackCounts_pos (by omega) hm
  · next hst =>
    rw [if_neg hst, if_neg hst]
    obtain ⟨k, rfl⟩ : ∃ k, n = k + 2 := ⟨n - 2, by omega⟩
    exact ⟨0, 0, List.replicate k 0, rfl, fun h2 => absurd h2 (by omega), fun hs => absurd hs hst⟩

/-- With nothing in the way every object is created, with the duration drawn for zero. -/
theorem createItems_all {itemId : UInt16} (merged : Nat) (hk : (types.type itemId).known = true) {ns : List Nat}
    (hn : (types.type itemId).stackable = true → ∀ m ∈ ns, 0 < m) (i : Nat) :
    ∃ items, createItems types (firstOnly merged) itemId i ns = some items ∧
      ∀ item ∈ items, item.attributes = .fresh (types.type (transformed itemId)) 0 := by
  induction ns generalizing i with
  | nil => exact ⟨[], rfl, fun item hm => (by cases hm)⟩
  | cons n ns ih =>
    obtain ⟨rest, hrest, hfresh⟩ := ih (fun hs m hm => hn hs m (mem_cons_of_mem _ hm)) (i + 1)
    unfold createItems
    rw [show (if (firstOnly merged).created i then
      CreateItem types ((firstOnly merged).pick i) itemId n else none) = CreateItem types 0 itemId n from rfl]
    unfold CreateItem
    rw [if_pos hk]
    dsimp only
    rw [if_neg, hrest]
    · grind
    rintro ⟨hs, hne⟩
    refine hne (if_pos ⟨?_, hn hs n mem_cons_self⟩)
    rw [transformed_stackable hs]
    exact hs

theorem deliverItem_firstOnly (merged : Nat) (ht : offer.type = .Item) (hid : offer.itemId ≠ 0)
    (hk : (types.type offer.itemId).known = true) (hmany : (types.type offer.itemId).perObject < offer.count.toNat)
    (hpick : (types.type (transformed offer.itemId)).pickupable = true) (inbox : StoreInbox) :
    ∃ item text inbox', Made types ⟨transformed offer.itemId, none, none⟩ item ∧
      item.attributes = .fresh (types.type (transformed offer.itemId)) 0 ∧
      (2 ≤ (types.type offer.itemId).getStackSize → item.count = (types.type offer.itemId).getStackSize) ∧
      internalAddItem types ((firstOnly merged).add 0) (item.count + 1) item inbox = (true, 0, inbox') ∧
      deliverOffer types (firstOnly merged) offer inbox = (some text, rollbackInboxDelivery types inbox inbox') := by
  obtain ⟨n0, n1, ns, hcounts, hfull, hpos⟩ := deliveryCounts_many hmany
  obtain ⟨items, hitems, hfresh⟩ := createItems_all merged hk hpos 0
  rw [← hcounts] at hitems
  obtain ⟨hmade, hlen, hcount⟩ := createItems_spec (fun m hm => deliveryCounts_le hm) hitems
  rw [hcounts] at hlen hcount
  match items, hlen with
  | x0 :: x1 :: xs, _ =>
    have h0 := hmade x0 mem_cons_self
    rcases h0.add ((firstOnly merged).add 0) inbox with ⟨hq, -⟩ | ⟨-, inbox', he, -, -⟩
    · have hq' : queryAdd types roomy x0 = true := queryAdd_roomy (by rw [h0.id]; exact hpick)
      cases hq.symm.trans hq'
    refine ⟨x0, "Your store inbox is full.", inbox', h0, hfresh x0 mem_cons_self, ?_, he, ?_⟩
    · intro h2
      have hc := hcount (stackable_of_stacks h2)
      rw [(List.cons.inj hc).1]
      exact hfull h2
    · have h1 := hmade x1 (mem_cons_of_mem _ mem_cons_self)
      rcases h1.add ((firstOnly merged).add 1) inbox' with ⟨-, he1⟩ | ⟨hq, -⟩
      · unfold deliverOffer
        rw [ht]
        unfold deliverItem
        rw [if_neg hid, if_neg, hitems]
        · dsimp only
          rw [if_neg (cons_ne_nil _ _), if_neg]
          · unfold addItems
            rw [he]
            dsimp only
            unfold addItems
            rw [he1]
            rfl
          · unfold queryMaxCount
            omega
        · rintro (h | h)
          · rw [hk] at h
            cases h
          · rw [h] at hmany
            exact absurd hmany (Nat.not_lt_zero _)
      · cases hq.symm.trans (queryAdd_broken x1)

/-- Nothing in the way. -/
def allGood : DeliveryEnv := ⟨fun _ => true, fun _ => 0, fun _ => ⟨roomy, 0, fun _ => 0, fun _ => 0⟩⟩

theorem deliverOffer_one (ht : offer.type = .House) (hi : offer.items = []) (hid : offer.itemId ≠ 0)
    (hk : (types.type offer.itemId).known = true) (inbox : StoreInbox) :
    ∃ kit, Kit types offer.itemId kit ∧ deliverOffer types allGood offer inbox = (none, inbox.push kit) := by
  have hids : deliveryIds offer = [offer.itemId] := if_pos ⟨hi, UInt16.pos_iff_ne_zero.mpr hid⟩
  obtain ⟨kit, hkits⟩ : ∃ kit, createKits types allGood 0 [offer.itemId] = .ok [kit] := by
    unfold createKits
    rw [if_neg (by rw [hk]; exact true_eq_false.mp)]
    obtain ⟨kit, hkit⟩ : ∃ kit, CreateItem types 0 ITEM_DECORATION_KIT 1 = some kit := ⟨_, if_pos types.kit.1⟩
    rw [show (if allGood.created 0 then CreateItem types (allGood.pick 0) ITEM_DECORATION_KIT 1 else none) = some kit
      from hkit]
    exact ⟨_, rfl⟩
  have hspec := createKits_spec hkits
  cases hspec with
  | cons hkit _ =>
    refine ⟨kit, hkit, ?_⟩
    unfold deliverOffer
    rw [ht]
    unfold deliverHouseItem
    rw [hids, if_neg (cons_ne_nil _ _), hkits]
    show addKits types allGood 0 [kit] [] inbox = _
    unfold addKits
    rw [internalAddItem_plain hkit.plain.1]
    have hq : queryAdd types (allGood.add 0).capacity kit = true :=
      queryAdd_roomy (by rw [hkit.id]; exact types.kit.2.2.1)
    rw [hq]
    rfl

def emptyInbox : StoreInbox := ⟨[], nodup_nil⟩

theorem rollback_stays {id : UInt16} {inbox' : StoreInbox} (h : Extended types id emptyInbox inbox')
    (hr : (types.type id).canRemove = false) (hne : inbox'.rows ≠ []) :
    (rollbackInboxDelivery types emptyInbox inbox').rows ≠ [] := by
  obtain ⟨x, hx⟩ := exists_mem_of_ne_nil _ hne
  have hk : inbox'.find? x.1 = some x.2 := Table.find?_iff.mpr hx
  have hid := h.added x.1 x.2 hk rfl
  have hk' : (rollbackInboxDelivery types emptyInbox inbox').find? x.1 = some x.2 := by
    unfold rollbackInboxDelivery
    rw [Table.find?_choose, hk]
    show x.2.internalRemove types x.2.count = some x.2
    unfold Item.internalRemove
    have hpos := x.2.pos
    rw [if_neg (by omega), hid, hr]
    rfl
  exact ne_nil_of_mem (Table.find?_iff.mp hk')

theorem setID_unsteady {ty : ItemType} (h : ty.steady = false) :
    (Attributes.fresh ty 0).setID ty ty.decayTimeMax ≠ Attributes.fresh ty 0 := by
  simp only [ItemType.steady, or_eq_false_iff, and_eq_false_iff, beq_eq_false_iff_ne, bne_eq_false_iff_eq] at h
  obtain ⟨h1, h2⟩ := h
  have hpos : 0 < ty.newDuration ty.decayTimeMax := by
    unfold ItemType.newDuration
    split
    · unfold normal_random
      omega
    · omega
  have hstops : ty.stopTime = false ∨ (Attributes.fresh ty 0).duration = none := by
    rcases h2 with h2 | h2
    · right
      have hz : ty.defaultDuration 0 = 0 := by
        unfold ItemType.defaultDuration normal_random
        split <;> omega
      show (if ty.defaultDuration 0 ≠ 0 then _ else none) = none
      rw [if_neg (fun hne => hne hz)]
    · exact .inl h2
  have hrun : ¬ (ty.newDuration ty.decayTimeMax = 0 ∧ ty.stopTime = false ∧ ty.decayTo < 0) := by
    omega
  intro he
  have hd : ((Attributes.fresh ty 0).setID ty ty.decayTimeMax).decayState = none := congrArg Attributes.decayState he
  unfold Attributes.setID at hd
  rw [if_neg hrun] at hd
  rw [if_pos ⟨hpos, hstops⟩] at hd
  cases hd

def oneStack (item : Item) : StoreInbox := ⟨[(0, item)], nodup_singleton _⟩

theorem queryDestination_oneStack {item x : Item} (hst : (types.type item.id).stackable = true) :
    (oneStack x).queryDestination types item =
      if item.takes types x then (0, some (0, x)) else (INDEX_WHEREEVER, none) := by
  unfold StoreInbox.queryDestination
  rw [if_pos hst]
  cases h : item.takes types x with
  | true => simp [oneStack, h]
  | false => simp [oneStack, h]

theorem takes_iff {item x : Item} (hi : x.instanceId = 0) (hid : x.id = item.id) (ha : x.attributes = item.attributes) :
    item.takes types x = decide (x.count < (types.type item.id).getStackSize) := by
  simp [Item.takes, Item.equalsIgnoringInstance, hi, hid, ha]

theorem internalAddItem_full (env : AddEnv) {item : Item} {size : Nat} (hsize : (types.type item.id).getStackSize = size)
    (h2 : 2 ≤ size) (hi : item.instanceId = 0) (hc : item.count = size) (hc' : item.count ≤ 255)
    (hq : queryAdd types env.capacity item = true) :
    ∃ clone, internalAddItem types env (item.count + 1) item (oneStack ⟨item.id, 1, 0, item.attributes, Nat.one_pos⟩) =
      (true, 0, (oneStack ((Item.mk item.id 1 0 item.attributes Nat.one_pos).grow types (env.merged item.count)
        (size - 1))).push clone) := by
  have hst : (types.type item.id).stackable = true := stackable_of_stacks (by omega)
  obtain ⟨stack, hstack⟩ : ∃ stack, stack = Item.mk item.id 1 0 item.attributes Nat.one_pos := ⟨_, rfl⟩
  have hsid : stack.id = item.id := by rw [hstack]
  have hsc : stack.count = 1 := by rw [hstack]
  have htakes : item.takes types stack = true := by
    rw [takes_iff (by rw [hstack]) hsid (by rw [hstack]), hsize, hsc]
    exact decide_eq_true h2
  have heq : item.equals stack = true := by
    simp [Item.equals, Item.equalsIgnoringInstance, hi, hstack]
  rw [← hstack]
  unfold internalAddItem
  rw [if_pos hq, queryDestination_oneStack hst, if_pos htakes]
  show ∃ clone, (if (types.type item.id).stackable && item.equals stack then _ else _) = _
  rw [hst, heq, Bool.and_self, if_pos rfl]
  generalize hm : min item.count (queryMaxCount item.count) = m
  dsimp only
  generalize hn : min ((types.type stack.id).getStackSize - stack.count) m = n
  have hmn : m = size ∧ n = size - 1 := by
    unfold queryMaxCount at hm
    rw [hsid, hsize, hsc] at hn
    omega
  obtain ⟨rfl, rfl⟩ := hmn
  rw [dif_pos (by omega), if_pos (by omega)]
  obtain ⟨clone, hclone⟩ : ∃ clone, clone =
    item.clone types env.now (env.cloned item.count) (m - (m - 1)) (by omega) := ⟨_, rfl⟩
  have hcid : clone.id = item.id := by rw [hclone]; rfl
  have hcc : clone.count = 1 := by
    rw [hclone]
    show m - (m - 1) = 1
    omega
  rw [← hclone]
  have hrow : Table.set 0 (stack.grow types (env.merged item.count) (m - 1)) (oneStack stack) =
      oneStack (stack.grow types (env.merged item.count) (m - 1)) := Table.ext rfl
  rw [hrow]
  refine ⟨clone, ?_⟩
  have hadd : internalAddItem types env item.count clone (oneStack (stack.grow types (env.merged item.count) (m - 1))) =
      (true, 0, (oneStack (stack.grow types (env.merged item.count) (m - 1))).push clone) := by
    obtain ⟨fuel, hfuel⟩ : ∃ fuel, item.count = fuel + 1 := ⟨item.count - 1, by omega⟩
    generalize hg : stack.grow types (env.merged item.count) (m - 1) = grown
    have hgc : ¬ grown.count < (types.type grown.id).getStackSize := by
      rw [← hg]
      show ¬ stack.count + (m - 1) < (types.type stack.id).getStackSize
      omega
    have hno : clone.takes types grown = false := by
      unfold Item.takes
      rw [decide_eq_false hgc, Bool.and_false]
    have hcq : queryAdd types env.capacity clone = true := by
      obtain ⟨hp, hcap⟩ := and_eq_true_iff.mp hq
      unfold queryAdd
      rw [hcid, hp, hcc, hasCapacity_mono (by omega) hc' hcap]
      rfl
    rw [hfuel]
    unfold internalAddItem
    rw [if_pos hcq, queryDestination_oneStack (by rw [hcid]; exact hst), hno]
    rfl
  rw [hadd]
  rfl

theorem rollback_alters {stack : Item} (clone : Item) (pick : Nat) {n : Nat} (hst : (types.type stack.id).stackable = true)
    (hr : (types.type stack.id).canRemove = true) (hn : 0 < n) :
    ∃ x, (rollbackInboxDelivery types (oneStack stack) ((oneStack (stack.grow types pick n)).push clone)).find? 0 =
      some x ∧ x.attributes = stack.attributes.setID (types.type stack.id) pick := by
  unfold rollbackInboxDelivery
  have hnext : 0 ≠ (oneStack (stack.grow types pick n)).next := (Nat.succ_ne_zero _).symm
  rw [Table.find?_choose, find?_push, if_neg hnext]
  have hpos := stack.pos
  have hlt : stack.count + n - stack.count < (stack.grow types pick n).count := by
    show _ < stack.count + n
    omega
  have hpart := internalRemove_part (stack.count + n - stack.count) (show (types.type (stack.grow types pick n).id).canRemove = true
    from hr) hst (by omega) hlt
  refine ⟨{ stack.grow types pick n with
    count := (stack.grow types pick n).count - (stack.count + n - stack.count), pos := Nat.sub_pos_of_lt hlt }, ?_, rfl⟩
  show (if (types.type stack.id).stackable = true ∧ stack.count < stack.count + n then _ else _) = some _
  rw [if_pos ⟨hst, by omega⟩]
  exact hpart

variable {store : StoreManager} {offerId : UInt32} {catalog : List StoreOffer}

theorem delivery_of_atomic (hcat : store.catalog = some catalog) (hfind : findOffer offerId catalog = some offer)
    (hp : store.purchasePrice offer ≠ 0) (ha : player.account ≠ 0) (hr : Reported debit) (hans : answers debit = true)
    (hall : ∀ env s, env.refund.Undone →
      Atomic types store player offerId s (purchase types store player offerId debit env s))
    (delivery : DeliveryEnv) (inbox : StoreInbox) :
    ((deliverOffer types delivery offer inbox).1 ≠ none →
        ((deliverOffer types delivery offer inbox).2.rows.map Prod.snd).Perm (inbox.rows.map Prod.snd)) ∧
      ((deliverOffer types delivery offer inbox).1 = none →
        ((deliverOffer types delivery offer inbox).2.wares types).Perm (offer.wares types ++ inbox.wares types)) := by
  have hatomic := hall (calm delivery) (ready player (store.purchasePrice offer) inbox) ⟨nofun, nofun⟩
  have hpurchase : purchase types store player offerId debit (calm delivery)
      (ready player (store.purchasePrice offer) inbox) =
        settle types player debit (calm delivery) offer (store.purchasePrice offer)
          { ready player (store.purchasePrice offer) inbox with lastPurchase := PurchaseCooldown } := by
    unfold purchase
    rw [if_neg (by show ¬ (2000 : Int) - 0 < 2000; omega), hcat]
    dsimp only
    rw [hfind]
    dsimp only
    rw [if_neg hp]
    rfl
  rw [hpurchase] at hatomic
  obtain ⟨hinbox, hok, hfail⟩ := settle_ready hr hans hp ha
    (s := { ready player (store.purchasePrice offer) inbox with lastPurchase := PurchaseCooldown }) rfl
  constructor
  · intro hne
    obtain ⟨hf, href⟩ := hfail hne
    have hperm := (hatomic.failed hf (by rw [href]; decide)).2
    rw [hinbox] at hperm
    exact hperm
  · intro hno
    obtain ⟨catalog', offer', a, hcat', hfind', -, -, hperm, -⟩ := hatomic.sold (hok hno)
    rw [hcat] at hcat'
    cases hcat'
    rw [hfind] at hfind'
    cases hfind'
    rw [hinbox] at hperm
    exact hperm

theorem deliverable_of_ended
    (h : ∀ delivery inbox, ((deliverOffer types delivery offer inbox).1 ≠ none →
        ((deliverOffer types delivery offer inbox).2.rows.map Prod.snd).Perm (inbox.rows.map Prod.snd)) ∧
      ((deliverOffer types delivery offer inbox).1 = none →
        ((deliverOffer types delivery offer inbox).2.wares types).Perm (offer.wares types ++ inbox.wares types))) :
    Deliverable types offer := by
  unfold Deliverable
  split
  · next ht =>
    intro made hid hk hmany hpick
    have hremove : made.canRemove = true := by
      by_contra hno
      obtain ⟨item, text, inbox', hmade, -, -, he, hd⟩ := deliverItem_firstOnly 0 ht hid hk hmany hpick emptyInbox
      have hperm := (h (firstOnly 0) emptyInbox).1 (by rw [hd]; exact some_ne_none _)
      rw [hd] at hperm
      rcases hmade.add ((firstOnly 0).add 0) emptyInbox with ⟨-, he'⟩ | ⟨-, inbox'', he', hext, hwares⟩
      · rw [he] at he'
        cases he'
      rw [he] at he'
      cases he'
      refine rollback_stays hext (by simpa using hno) ?_ (map_eq_nil_iff.mp hperm.eq_nil)
      intro hnil
      have hlen := hwares.length_eq
      unfold StoreInbox.wares at hlen
      rw [hnil, length_append, length_replicate] at hlen
      have := item.pos
      simp at hlen
      omega
    refine ⟨hremove, ?_⟩
    intro h2
    by_contra hno
    have hsteady : made.steady = false := by simpa using hno
    have hst : (types.type offer.itemId).stackable = true := by
      by_contra hns
      have hplain := transformed_plain (show (types.type offer.itemId).stackable = false by simpa using hns)
      have hmst := stackable_of_stacks h2
      rw [hplain] at hmst
      cases hmst
    have htid := transformed_stackable hst
    obtain ⟨stack, hstack⟩ : ∃ stack, stack = Item.mk offer.itemId 1 0 (.fresh made 0) Nat.one_pos := ⟨_, rfl⟩
    obtain ⟨item, text, inbox', hmade, hfresh, hcount, he, hd⟩ :=
      deliverItem_firstOnly made.decayTimeMax ht hid hk hmany hpick (oneStack stack)
    have hitem : item.id = offer.itemId := by rw [hmade.id]; exact htid
    have hsize : (types.type item.id).getStackSize = made.getStackSize := by rw [hmade.id]
    have hcount : item.count = made.getStackSize := by
      rw [hcount (by show 2 ≤ (types.type offer.itemId).getStackSize; rw [← htid]; exact h2), ← htid]
    obtain ⟨clone, hadd⟩ := internalAddItem_full ((firstOnly made.decayTimeMax).add 0) hsize h2 hmade.instanceId
      hcount hmade.count (queryAdd_roomy (by rw [hmade.id]; exact hpick))
    have hstack' : Item.mk item.id 1 0 item.attributes Nat.one_pos = stack := by
      rw [hstack]
      exact Item.ext hitem rfl rfl hfresh
    rw [hstack', he] at hadd
    have hinbox : inbox' = (oneStack (stack.grow types made.decayTimeMax (made.getStackSize - 1))).push clone :=
      congrArg (fun r => r.2.2) hadd
    have hperm := (h (firstOnly made.decayTimeMax) (oneStack stack)).1 (by rw [hd]; exact some_ne_none _)
    rw [hd, hinbox] at hperm
    have hsid : stack.id = offer.itemId := by rw [hstack]
    have hmade' : types.type stack.id = made := by
      rw [hsid, ← htid]
    obtain ⟨x, hx, hxa⟩ := rollback_alters clone made.decayTimeMax (show (types.type stack.id).stackable = true by
      rw [hsid]; exact hst) (by rw [hmade']; exact hremove) (show 0 < made.getStackSize - 1 by omega)
    have hmem := hperm.subset (mem_map_of_mem (Table.find?_iff.mp hx))
    have hxs : x = stack := mem_singleton.mp hmem
    rw [hxs, hmade', show stack.attributes = .fresh made 0 by rw [hstack]] at hxa
    exact setID_unsteady hsteady hxa.symm
  · next ht =>
    intro hi hid hk
    obtain ⟨kit, hkit, hd⟩ := deliverOffer_one ht hi hid hk emptyInbox
    have hperm := (h allGood emptyInbox).2 (by rw [hd])
    rw [hd] at hperm
    have hlen := hperm.length_eq
    rw [wares_push, length_append, length_append, length_replicate] at hlen
    unfold StoreOffer.wares at hlen
    rw [ht, if_pos hi] at hlen
    rw [length_map, length_replicate] at hlen
    have hunits : kit.units types = 1 := by
      simp [Item.units, hkit.plain.1]
    rw [hunits] at hlen
    exact UInt16.toNat_inj.mp (Nat.add_right_cancel hlen).symm

theorem reported_of_atomic (hcat : store.catalog = some catalog) (hfind : findOffer offerId catalog = some offer)
    (hp : store.purchasePrice offer ≠ 0) (ha : player.account ≠ 0)
    (hall : ∀ env s, env.refund.Undone →
      Atomic types store player offerId s (purchase types store player offerId debit env s)) : Reported debit := by
  by_contra hr
  have hatomic := hall (calm allGood) (ready player (store.purchasePrice offer) emptyInbox) ⟨nofun, nofun⟩
  have hpurchase : purchase types store player offerId debit (calm allGood)
      (ready player (store.purchasePrice offer) emptyInbox) =
        ⟨⟨false, "Not enough Tibia Coins."⟩, none, ⟨⟨solo player.account 0, []⟩, emptyInbox, PurchaseCooldown⟩⟩ := by
    unfold purchase
    rw [if_neg (by show ¬ (2000 : Int) - 0 < 2000; omega), hcat]
    dsimp only
    rw [hfind]
    dsimp only
    rw [if_neg hp]
    unfold settle
    rw [show (ready player (store.purchasePrice offer) emptyInbox).bank.accounts =
      solo player.account (store.purchasePrice offer).toNat from rfl, debit_unreported hr hp ha]
    rfl
  rw [hpurchase] at hatomic
  have hsame := (hatomic.failed rfl (some_ne_none false).symm).1
  have hrows : [(player.account, (⟨0⟩ : Account))] = [(player.account, ⟨(store.purchasePrice offer).toNat⟩)] :=
    congrArg Table.rows hsame
  have hcoins : (0 : ℤ) = (store.purchasePrice offer).toNat :=
    congrArg (fun x => x.2.tibia_coins) (List.cons.inj hrows).1
  refine hp (UInt32.toNat_inj.mp ?_)
  rw [show (0 : UInt32).toNat = 0 from rfl]
  omega

/-- A purchase is atomic in every state, wherever its delivery fails, exactly when the debit
    took effect as it was answered and, if it was answered, the offer can be delivered. -/
theorem purchase_atomic (types : ItemTypes) (store : StoreManager) (player : Player) (offerId : UInt32)
    (debit : Execution) :
    (∀ env s, env.refund.Undone →
        Atomic types store player offerId s (purchase types store player offerId debit env s)) ↔
      ∀ catalog offer, store.catalog = some catalog → findOffer offerId catalog = some offer →
        Sound types player debit offer (store.purchasePrice offer) := by
  constructor
  · intro hall catalog offer hcat hfind hp ha
    have hr := reported_of_atomic hcat hfind hp ha hall
    refine ⟨hr, ?_⟩
    intro hans
    exact deliverable_of_ended fun delivery inbox =>
      delivery_of_atomic hcat hfind hp ha hr hans hall delivery inbox
  · intro hsound env s hu
    have refused (text : String) (t : State) (hb : t.bank = s.bank) (hi : t.inbox = s.inbox) :
        Atomic types store player offerId s ⟨⟨false, text⟩, none, t⟩ := by
      refine ⟨fun _ _ => ⟨congrArg Bank.accounts hb, ?_⟩, fun h => (by cases h)⟩
      simp [hi]
    unfold purchase
    split
    · exact refused _ s rfl rfl
    · dsimp only
      split
      · exact refused _ _ rfl rfl
      · next catalog hcat =>
        split
        · exact refused _ _ rfl rfl
        · next offer hfind =>
          split
          · exact refused _ _ rfl rfl
          · next hp =>
            rcases settle_sound (s := { s with lastPurchase := env.now }) hp (hsound catalog offer hcat hfind) hu with
              ⟨hf, hback⟩ | ⟨hok, a, hfa, haccounts, hperm, hkept⟩
            · refine ⟨fun _ hne => hback hne, fun h => ?_⟩
              rw [hf] at h
              cases h
            · refine ⟨fun h => ?_, fun _ => ⟨catalog, offer, a, hcat, hfind, hfa, haccounts, hperm, hkept⟩⟩
              rw [hok] at h
              cases h

end

/-- Every id is known, can be carried and does not stack. -/
theorem weightless : (0 : UInt32).toNat * 255 < 2 ^ 32 := by decide

def plainTypes : ItemTypes where
  type _ := ⟨true, "barrel", false, 0, true, true, 0, 0, 0, -1, false, [], weightless⟩
  plain _ _ := ⟨rfl, rfl⟩
  kit := ⟨rfl, rfl, rfl, rfl⟩

/-- Five barrels for 100 coins, by their `itemid`. -/
def fiveBarrels : StoreOffer := ⟨1, "Barrels", 100, 2523, [], 5, .House⟩

/-- Five kits are paid for, and one is delivered. -/
theorem house_offer_short :
    ¬ ∀ (types : ItemTypes) (store : StoreManager) (player : Player) (offerId : UInt32) (debit : Execution)
        (env : PurchaseEnv) (s : State), debit.Undone → env.refund.Undone →
      Atomic types store player offerId s (purchase types store player offerId debit env s) := by
  intro hall
  have hatomic := hall plainTypes ⟨some [fiveBarrels], []⟩ ⟨7, 3⟩ 1 Execution.good (calm allGood)
    (ready ⟨7, 3⟩ 100 emptyInbox) ⟨nofun, nofun⟩ ⟨nofun, nofun⟩
  obtain ⟨catalog, offer, a, hcat, hfind, -, -, hperm, -⟩ := hatomic.sold (by decide)
  cases hcat
  cases hfind
  exact absurd hperm.length_eq (by decide)

end Backlands.Store
