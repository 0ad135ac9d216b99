/-
  Backlands.Bazaar.Auctions — listing a character and settling its auction
  (src/character_bazaar.cpp).

  Three tables move together: the coins of `accounts`, the owner in `players` and the rows
  of `character_auctions`. `createAuction` and `finalizeAuction` are one retried transaction
  each. A `SELECT` whose answer is lost reads as one without rows: `queryHasRows` says
  there are none, `finalizeAuction` takes the auction for settled.

  Proved: all that each of the two can have done when it answers true
  (`createAuction_cases`, `finalizeAuction_cases`), where a failed transaction is undone.
-/

import Backlands.Coins.Accounts

namespace Backlands.Bazaar

open Backlands.Lib Backlands.Db

inductive AuctionStatus where
  | ACTIVE
  | FINISHED
  | CANCELLED
  deriving DecidableEq, Repr

def MAX_DESCRIPTION_LENGTH : Nat := 512

/-! ## Configuration -/

/-- The integers are `int64_t`, as the Lua file gives them. -/
structure Config where
  enabled : Bool
  minLevel : Int
  minPrice : Int
  auctionFee : Int
  commissionPercent : Int
  minDurationHours : Int
  maxDurationDays : Int
  marketSystemEnabled : Bool

def UINT32_MAX : UInt32 := 4294967295

def asUnsignedConfig (value : Int) (fallback maximum : UInt32) : UInt32 :=
  if value < 0 then fallback else UInt32.ofNat (min value.toNat maximum.toNat)

def Config.getMinimumLevel (c : Config) : UInt32 := max 1 (asUnsignedConfig c.minLevel 50 UINT32_MAX)

def Config.getMinimumPrice (c : Config) : UInt32 := max 1 (asUnsignedConfig c.minPrice 100 UINT32_MAX)

def Config.getAuctionFee (c : Config) : UInt32 := asUnsignedConfig c.auctionFee 50 UINT32_MAX

def Config.getCommissionPercent (c : Config) : UInt32 := min 100 (asUnsignedConfig c.commissionPercent 10 100)

def Config.getMinimumDuration (c : Config) : UInt32 :=
  let seconds := (asUnsignedConfig c.minDurationHours 24 UINT32_MAX).toUInt64 * 60 * 60
  max 60 (min seconds UINT32_MAX.toUInt64).toUInt32

def Config.getMaximumDuration (c : Config) : UInt32 :=
  let seconds := (asUnsignedConfig c.maxDurationDays 7 UINT32_MAX).toUInt64 * 24 * 60 * 60
  (min seconds UINT32_MAX.toUInt64).toUInt32

/-! ## The tables -/

structure Outfit_t where
  lookType : UInt16
  lookAddons : UInt8
  lookHead : UInt8
  lookBody : UInt8
  lookLegs : UInt8
  lookFeet : UInt8
  deriving DecidableEq

/-- A row of `character_auctions`. -/
structure Auction where
  player_id : UInt32
  player_name : String
  seller_account_id : UInt32
  current_bidder_account_id : Option UInt32
  winner_account_id : Option UInt32
  start_price : UInt32
  current_bid : UInt32
  final_price : Option UInt32
  auction_fee : UInt32
  commission_percent : UInt32
  status : AuctionStatus
  created_at : Nat
  end_at : Nat
  finished_at : Option Nat
  description : List UInt8
  snapshot_level : UInt32
  snapshot_vocation : UInt16
  vocation : UInt16
  level : UInt32
  look : Outfit_t
  deriving DecidableEq

/-- A row of `character_auction_history`. -/
structure AuctionHistory where
  auction_id : UInt32
  action : String
  account_id : UInt32
  player_id : UInt32
  amount : UInt64
  message : String
  created_at : Nat
  deriving DecidableEq

/-- What the bazaar reads and writes of a row of `players`. -/
structure Owner where
  account_id : UInt32
  deriving DecidableEq

structure Tables where
  accounts : Coins.Accounts
  players : Table UInt32 Owner
  auctions : Table UInt32 Auction
  history : List AuctionHistory
  deriving DecidableEq

/-! ## Checks -/

/-- `isPlayerOnActiveAuction`; `answered` says whether its `SELECT` was. -/
def isPlayerOnActiveAuction (answered : Bool) (playerId : UInt32) (auctions : Table UInt32 Auction) : Bool :=
  playerId != 0 && answered &&
    auctions.rows.any fun r => decide (r.2.player_id = playerId ∧ r.2.status = .ACTIVE)

def hasActiveAuctionForAccount (answered : Bool) (accountId : UInt32) (auctions : Table UInt32 Auction) : Bool :=
  answered && auctions.rows.any fun r => decide (r.2.seller_account_id = accountId ∧ r.2.status = .ACTIVE)

def ACCOUNT_TYPE_NORMAL : UInt8 := 1

/-- The character at the keyboard; `available` stands for a player that is there and not removed. -/
structure Player where
  available : Bool
  isDead : Bool
  accountType : UInt8
  level : UInt32
  protectionZone : Bool
  isPzLocked : Bool
  inFight : Bool
  guid : UInt32
  account : UInt32
  name : String
  vocationId : UInt16
  outfit : Outfit_t

/-- Which of the check's statements were answered. -/
structure Answered where
  player : Bool
  account : Bool
  guild : Bool
  house : Bool
  market : Bool
  coins : Bool

/-- Whether the character has rows in the tables of guilds, houses and market offers. -/
structure Involved where
  guild : Bool
  house : Bool
  market : Bool

def getTransferableCoins (answered : Bool) (accountId : UInt32) (accounts : Coins.Accounts) : ℤ :=
  if accountId = 0 ∨ answered = false then 0 else ((accounts.find? accountId).map (·.tibia_coins)).getD 0

/-- The two statements that look for an ACTIVE auction, before the transaction and in it. -/
def alreadyListed (player account : Bool) (p : Player) (auctions : Table UInt32 Auction) : Bool :=
  isPlayerOnActiveAuction player p.guid auctions || hasActiveAuctionForAccount account p.account auctions

/-- The reason for which `canCreateAuction` refuses, if it does. -/
def canCreateAuction (c : Config) (p : Player) (a : Answered) (v : Involved) (db : Tables) : Option String :=
  if !c.enabled then some "Character Bazaar is disabled."
  else if !p.available then some "The character is not available."
  else if p.isDead then some "Dead characters cannot be listed."
  else if ACCOUNT_TYPE_NORMAL < p.accountType then some "Staff characters cannot be listed."
  else if p.level < c.getMinimumLevel then
    some ("Your character must be at least level " ++ toString c.getMinimumLevel ++ ".")
  else if !p.protectionZone then some "You must be in a protection zone."
  else if p.isPzLocked || p.inFight then some "You cannot list a character while in a fight."
  else if alreadyListed a.player a.account p db.auctions then
    some "This account already has an active character auction."
  else if a.guild && v.guild then some "Leave your guild before listing this character."
  else if a.house && v.house then some "Characters involved with houses cannot be listed."
  else if c.marketSystemEnabled && (a.market && v.market) then
    some "Cancel your market offers before listing this character."
  else if getTransferableCoins a.coins p.account db.accounts < c.getAuctionFee.toNat then
    some "You do not have enough transferable Tibia Coins for the auction fee."
  else none

/-! ## `createAuction` -/

/-- `iscntrl` of the C locale. -/
def iscntrl (b : UInt8) : Bool := b < 32 || b == 127

def sanitizeDescription (description : List UInt8) : List UInt8 := description.map fun b => if iscntrl b then 32 else b

/-- What the player asks for, and the time of the call. -/
structure Listing where
  startPrice : UInt32
  durationSeconds : UInt32
  description : List UInt8
  currentTime : Nat

/-- How one call fares: the answers of the checks, then of the transaction. Attempt `k` gets
    `fresh k` from AUTO_INCREMENT and writes its history row at `clock k`. -/
structure Env where
  answered : Answered
  involved : Involved
  io : Nat → Attempt
  fresh : Nat → UInt32
  clock : Nat → Nat

def newAuction (c : Config) (p : Player) (l : Listing) : Auction where
  player_id := p.guid
  player_name := p.name
  seller_account_id := p.account
  current_bidder_account_id := none
  winner_account_id := none
  start_price := l.startPrice
  current_bid := 0
  final_price := none
  auction_fee := c.getAuctionFee
  commission_percent := c.getCommissionPercent
  status := .ACTIVE
  created_at := l.currentTime
  end_at := l.currentTime + l.durationSeconds.toNat
  finished_at := none
  description := sanitizeDescription l.description
  snapshot_level := p.level
  snapshot_vocation := p.vocationId
  vocation := p.vocationId
  level := p.level
  look := p.outfit

/-- The variables the callback of `createAuction` captures. -/
structure Captured where
  reason : String
  auctionId : UInt32

def createCallback (c : Config) (p : Player) (l : Listing) (q : Nat → Bool) (fresh : UInt32) (clock : Nat) (db : Tables)
    (x : Captured) : Bool × Tables × Captured :=
  if !Coins.locked (q 0) p.account db.accounts then
    (false, db, { x with reason := "The account is no longer available." })
  else if alreadyListed (q 1) (q 2) p db.auctions then
    (false, db, { x with reason := "This account already has an active character auction." })
  else
    let d := Coins.debit (query (q 3)) p.account c.getAuctionFee.toUInt64 db.accounts
    if !d.1 then
      (false, db, { x with reason := "You do not have enough transferable Tibia Coins for the auction fee." })
    else
      match if q 4 then db.auctions.insert? fresh (newAuction c p l) else none with
      | none => (false, db, { x with reason := "The auction could not be created." })
      | some auctions =>
        if fresh = 0 ∨ q 5 = false then (false, db, ⟨"The auction history could not be created.", fresh⟩)
        else
          (true,
            { db with
              accounts := d.2
              auctions := auctions
              history := db.history ++ [⟨fresh, "created", p.account, p.guid, c.getAuctionFee.toUInt64,
                "Character auction created.", clock⟩] },
            { x with auctionId := fresh })

/-- What `createAuction` answers, the reason it gives and the database. -/
def createAuction (c : Config) (p : Player) (l : Listing) (env : Env) (db : Tables) : Bool × String × Tables :=
  match canCreateAuction c p env.answered env.involved db with
  | some reason => (false, reason, db)
  | none =>
    let maxDuration := max c.getMinimumDuration c.getMaximumDuration
    if l.startPrice < c.getMinimumPrice then
      (false, "The starting price must be at least " ++ toString c.getMinimumPrice ++ " coins.", db)
    else if l.durationSeconds < c.getMinimumDuration ∨ maxDuration < l.durationSeconds then
      (false, "The auction duration must be between " ++ toString c.getMinimumDuration ++ " and " ++
        toString maxDuration ++ " seconds.", db)
    else if MAX_DESCRIPTION_LENGTH < l.description.length then
      (false, "The description may contain at most " ++ toString MAX_DESCRIPTION_LENGTH ++ " characters.", db)
    else
      let r := within env.io (fun k => createCallback c p l (env.io k).query (env.fresh k) (env.clock k))
        TRANSACTION_MAX_ATTEMPTS db ⟨"", 0⟩
      if r.1 then
        (true, "Auction #" ++ toString r.2.2.auctionId ++ " created. You will now be logged out.", r.2.1)
      else if r.2.2.reason.isEmpty then (false, "The auction could not be created. Please try again.", r.2.1)
      else (false, r.2.2.reason, r.2.1)

/-! ## `finalizeAuction` -/

def commission (bid percent : UInt64) : UInt64 := bid * percent / 100

/-- ``UPDATE `players` SET `account_id` = bidder WHERE `id` = playerId AND `account_id` = seller``. -/
def movePlayer (playerId seller bidder : UInt32) (players : Table UInt32 Owner) : Nat × Table UInt32 Owner :=
  (players.affected (fun id r => id = playerId ∧ r.account_id = seller) (fun _ => ⟨bidder⟩),
    players.update (fun id r => id = playerId ∧ r.account_id = seller) (fun _ => ⟨bidder⟩))

/-- ``UPDATE `character_auctions` SET … WHERE `id` = auctionId AND `status` = ACTIVE``. -/
def closeAuction (auctionId : UInt32) (f : Auction → Auction) (auctions : Table UInt32 Auction) : Table UInt32 Auction :=
  auctions.update (fun id r => id = auctionId ∧ r.status = .ACTIVE) f

def Auction.cancel (currentTime : Nat) (r : Auction) : Auction :=
  { r with status := .CANCELLED, finished_at := some currentTime }

def Auction.finish (bidder bid : UInt32) (currentTime : Nat) (r : Auction) : Auction :=
  { r with
    status := .FINISHED
    winner_account_id := some bidder
    final_price := some bid
    finished_at := some currentTime }

/-- The row `finalizeAuction` locks: none when it is gone, not due, or the answer is lost. -/
def dueAuction (answered : Bool) (auctionId : UInt32) (currentTime : Nat) (auctions : Table UInt32 Auction) :
    Option Auction :=
  if answered then (auctions.find? auctionId).filter fun r => r.status == .ACTIVE && decide (r.end_at ≤ currentTime)
  else none

/-- The callback of `finalizeAuction` once it has read its row: none when it returns false. -/
def settle (auctionId : UInt32) (currentTime clock : Nat) (q : Nat → Bool) (row : Auction) (db : Tables) :
    Option Tables :=
  let bidder := row.current_bidder_account_id.getD 0
  let bid := row.current_bid.toUInt64
  let percent := min 100 row.commission_percent
  if bidder = 0 ∨ bid = 0 then
    if q 1 && q 2 then
      some { db with
        auctions := closeAuction auctionId (Auction.cancel currentTime) db.auctions
        history := db.history ++ [⟨auctionId, "expired_no_bid", row.seller_account_id, row.player_id, 0,
          "Auction expired without a bid.", clock⟩] }
    else none
  else
    let sellerPayout := bid - commission bid percent.toUInt64
    let m := one (query (q 1) (movePlayer row.player_id row.seller_account_id bidder) db.players)
    let r := Coins.credit (query (q 2)) row.seller_account_id sellerPayout db.accounts
    if m.1 && r.1 && q 3 && q 4 then
      some { db with
        accounts := r.2
        players := m.2
        auctions := closeAuction auctionId (Auction.finish bidder row.current_bid currentTime) db.auctions
        history := db.history ++ [⟨auctionId, "finished", bidder, row.player_id, sellerPayout,
          "Auction finished for " ++ toString bid ++ " coins (commission: " ++
            toString (commission bid percent.toUInt64) ++ ").", clock⟩] }
    else none

def finalizeCallback (auctionId : UInt32) (currentTime clock : Nat) (q : Nat → Bool) (db : Tables) (x : Unit) :
    Bool × Tables × Unit :=
  match dueAuction (q 0) auctionId currentTime db.auctions with
  | none => (true, db, x)
  | some row => answered (settle auctionId currentTime clock q row db) db x

def finalizeAuction (auctionId : UInt32) (currentTime : Nat) (io : Nat → Attempt) (clock : Nat → Nat) (db : Tables) :
    Bool × Tables :=
  let r := within io (fun k => finalizeCallback auctionId currentTime (clock k) (io k).query)
    TRANSACTION_MAX_ATTEMPTS db ()
  (r.1, r.2.1)

/-! ## All that a call can do -/

/-- The auction `id` was listed: one row more, the fee off the seller's balance. -/
structure Created (c : Config) (p : Player) (l : Listing) (id : UInt32) (db db' : Tables) : Prop where
  fresh : db.auctions.find? id = none
  auctions : ∀ k, db'.auctions.find? k = if k = id then some (newAuction c p l) else db.auctions.find? k
  accounts : ∀ k, db'.accounts.find? k =
    if k = p.account then (db.accounts.find? k).map fun a => ⟨a.tibia_coins + -c.getAuctionFee.toUInt64.toNat⟩
    else db.accounts.find? k
  players : db'.players = db.players

/-- The row the auction `id` had while ACTIVE, and the row it has now. -/
structure Closed (id : UInt32) (row row' : Auction) (db db' : Tables) : Prop where
  found : db.auctions.find? id = some row
  active : row.status = .ACTIVE
  seller : row'.seller_account_id = row.seller_account_id
  percent : row'.commission_percent = row.commission_percent
  auctions : db'.auctions = db.auctions.set id row'

def sellerPayout (row : Auction) : UInt64 :=
  row.current_bid.toUInt64 - commission row.current_bid.toUInt64 (min 100 row.commission_percent).toUInt64

/-- The auction `id` was sold: the character moved and its seller was paid. -/
structure Sold (id : UInt32) (row row' : Auction) (db db' : Tables) : Prop extends Closed id row row' db db' where
  finished : row'.status = .FINISHED
  bidder : row'.winner_account_id = some (row.current_bidder_account_id.getD 0)
  owned : db.players.find? row.player_id = some ⟨row.seller_account_id⟩
  moved : row.current_bidder_account_id.getD 0 ≠ row.seller_account_id
  players : db'.players = db.players.set row.player_id ⟨row.current_bidder_account_id.getD 0⟩
  accounts : ∀ k, db'.accounts.find? k =
    if k = row.seller_account_id then (db.accounts.find? k).map fun a => ⟨a.tibia_coins + (sellerPayout row).toNat⟩
    else db.accounts.find? k

/-- The auction `id` ended without a bid. -/
structure Expired (id : UInt32) (row row' : Auction) (db db' : Tables) : Prop extends Closed id row row' db db' where
  cancelled : row'.status = .CANCELLED
  players : db'.players = db.players
  accounts : db'.accounts = db.accounts

section
variable {c : Config} {p : Player} {l : Listing} {q : Nat → Bool} {fresh id : UInt32} {now clock : Nat}
  {db db' : Tables} {row : Auction} {x : Captured}

theorem createCallback_true (h : (createCallback c p l q fresh clock db x).1 = true) :
    alreadyListed (q 1) (q 2) p db.auctions = false ∧
      Created c p l fresh db (createCallback c p l q fresh clock db x).2.1 := by
  unfold createCallback at h ⊢
  split at h
  · cases h
  next hlock =>
  rw [if_neg hlock]
  split at h
  · cases h
  next hlisted =>
  rw [if_neg hlisted]
  simp only at h ⊢
  split at h
  · cases h
  next hdebit =>
  rw [if_neg hdebit]
  have hd : (Coins.debit (query (q 3)) p.account c.getAuctionFee.toUInt64 db.accounts).1 = true := by
    simpa using hdebit
  cases hins : if q 4 = true then db.auctions.insert? fresh (newAuction c p l) else none with
  | none => simp [hins] at h
  | some auctions =>
    simp only [hins] at h ⊢
    split at h
    · cases h
    next hhist =>
    rw [if_neg hhist]
    have hq : db.auctions.insert? fresh (newAuction c p l) = some auctions := by
      cases hq4 : q 4 with
      | false => simp [hq4] at hins
      | true => simpa [hq4] using hins
    obtain ⟨hnone, hfind⟩ := Table.insert?_some hq
    exact ⟨by simpa using hlisted, hnone, hfind, Coins.debit_find? hd, rfl⟩

theorem refuses_none {P : Prop} [Decidable P] {reason : String} {rest : Option String} :
    (if P then some reason else rest) = none ↔ ¬ P ∧ rest = none := by
  by_cases h : P
  · grind
  · rw [if_neg h]
    exact ⟨fun e => ⟨h, e⟩, And.right⟩

theorem canCreateAuction_none {a : Answered} {v : Involved} (h : canCreateAuction c p a v db = none) :
    alreadyListed a.player a.account p db.auctions = false := by
  simp only [canCreateAuction, refuses_none] at h
  obtain ⟨-, -, -, -, -, -, -, hl, -⟩ := h
  simpa using hl

theorem createAuction_cases {env : Env} (hu : Undone env.io) (c : Config) (p : Player) (l : Listing) (db : Tables) :
    ((createAuction c p l env db).1 = false ∧ (createAuction c p l env db).2.2 = db) ∨
      ((createAuction c p l env db).1 = true ∧
        alreadyListed env.answered.player env.answered.account p db.auctions = false ∧
        ∃ k < TRANSACTION_MAX_ATTEMPTS, alreadyListed ((env.io k).query 1) ((env.io k).query 2) p db.auctions = false ∧
          Created c p l (env.fresh k) db (createAuction c p l env db).2.2) := by
  unfold createAuction
  cases hc : canCreateAuction c p env.answered env.involved db with
  | some reason => exact .inl ⟨rfl, rfl⟩
  | none =>
    simp only
    split
    · exact .inl ⟨rfl, rfl⟩
    split
    · exact .inl ⟨rfl, rfl⟩
    split
    · exact .inl ⟨rfl, rfl⟩
    rcases within_cases (fun k => createCallback c p l (env.io k).query (env.fresh k) (env.clock k)) hu
      TRANSACTION_MAX_ATTEMPTS db ⟨"", 0⟩ with ⟨k, x, hk, hx, he⟩ | ⟨hf, hs⟩
    · right
      rw [he, if_pos hx]
      obtain ⟨hl, hcr⟩ := createCallback_true hx
      exact ⟨rfl, canCreateAuction_none hc, k, hk, hl, hcr⟩
    · left
      rw [if_neg (by rw [hf]; exact Bool.false_ne_true)]
      split
      · exact ⟨rfl, hs⟩
      · exact ⟨rfl, hs⟩

theorem movePlayer_one {b : Bool} {seller bidder : UInt32} {players : Table UInt32 Owner} {pid : UInt32}
    (h : (one (query b (movePlayer pid seller bidder) players)).1 = true) :
    players.find? pid = some ⟨seller⟩ ∧ bidder ≠ seller ∧
      (one (query b (movePlayer pid seller bidder) players)).2 = players.set pid ⟨bidder⟩ := by
  cases b with
  | false => simp [one, query] at h
  | true =>
    have hp : ∀ id (r : Owner), id = pid ∧ r.account_id = seller → id = pid := fun _ _ h => h.1
    simp only [one, query, if_true, Bool.true_and, movePlayer] at h ⊢
    rcases Table.update_cases hp (fun _ => ⟨bidder⟩) players with ⟨hn, -⟩ | ⟨r, hr, hpr, hne, -, ht⟩
    · rw [hn] at h
      cases h
    obtain ⟨-, hseller⟩ := hpr
    have he : r = ⟨seller⟩ := by rw [← hseller]
    rw [he] at hr hne
    exact ⟨hr, fun e => hne (by rw [e]), ht⟩

theorem closeAuction_eq (hf : db.auctions.find? id = some row) (ha : row.status = .ACTIVE) (f : Auction → Auction) :
    closeAuction id f db.auctions = db.auctions.set id (f row) :=
  Table.update_eq_set (fun _ _ h => h.1) hf ⟨rfl, ha⟩ f

theorem dueAuction_some {b : Bool} (h : dueAuction b id now db.auctions = some row) :
    db.auctions.find? id = some row ∧ row.status = .ACTIVE := by
  unfold dueAuction at h
  split at h
  · obtain ⟨hf, hp⟩ := Option.filter_eq_some_iff.mp h
    exact ⟨hf, by simpa using (Bool.and_eq_true_iff.mp hp).1⟩
  · cases h

theorem settle_some (hf : db.auctions.find? id = some row) (ha : row.status = .ACTIVE)
    (h : settle id now clock q row db = some db') :
    ∃ row', Expired id row row' db db' ∨ Sold id row row' db db' := by
  unfold settle at h
  simp only at h
  split at h
  · split at h
    · cases h
      exact ⟨row.cancel now, .inl ⟨⟨hf, ha, rfl, rfl, closeAuction_eq hf ha _⟩, rfl, rfl, rfl⟩⟩
    · cases h
  · split at h
    · next hall =>
      simp only [Bool.and_eq_true] at hall
      obtain ⟨⟨⟨hm, hcr⟩, -⟩, -⟩ := hall
      obtain ⟨howned, hmoved, hset⟩ := movePlayer_one hm
      cases h
      exact ⟨row.finish (row.current_bidder_account_id.getD 0) row.current_bid now,
        Or.inr ⟨⟨hf, ha, rfl, rfl, closeAuction_eq hf ha _⟩, rfl, rfl, howned, hmoved, hset, Coins.credit_find? hcr⟩⟩
    · cases h

theorem finalizeAuction_cases {io : Nat → Attempt} (hu : Undone io) (id : UInt32) (now : Nat) (clock : Nat → Nat)
    (db : Tables) :
    (finalizeAuction id now io clock db).2 = db ∨
      ((finalizeAuction id now io clock db).1 = true ∧
        ∃ row row', Expired id row row' db (finalizeAuction id now io clock db).2 ∨
          Sold id row row' db (finalizeAuction id now io clock db).2) := by
  unfold finalizeAuction
  rcases within_cases (fun k => finalizeCallback id now (clock k) (io k).query) hu TRANSACTION_MAX_ATTEMPTS db ()
    with ⟨k, x, -, hx, he⟩ | ⟨-, hs⟩
  · simp only [he]
    unfold finalizeCallback at hx ⊢
    cases hd : dueAuction ((io k).query 0) id now db.auctions with
    | none => exact .inl rfl
    | some row =>
      obtain ⟨hf, ha⟩ := dueAuction_some hd
      simp only [hd] at hx ⊢
      cases hst : settle id now (clock k) (io k).query row db with
      | none => simp [hst, answered] at hx
      | some db' =>
        obtain ⟨row', h⟩ := settle_some hf ha hst
        exact .inr ⟨rfl, row, row', h⟩
  · exact .inl hs

end

end Backlands.Bazaar
