/-
  Backlands.Houses.Owner — giving a house to an owner and taking it away (src/house.cpp:
  `House::setOwner`, `House::transferToDepot`).

  What lies in a house and what a player owns are left open here (`η`, `ι`): moving the one
  into the other is a parameter (`Goods.transfer`), so that what is proved about owners, rent
  and balances holds however the items are moved. A player object is a copy of its row; what
  is done to a copy is lost unless the copy is saved.

  Proved: all that `setOwner` can do to a house that is taken away (`release_cases`), and
  that no balance changes with it (`SameBalances`).
-/

import Backlands.Lib.Table

namespace Backlands.Houses

open Backlands.Lib

/-- `HouseType_t`. -/
inductive HouseType where
  | NORMAL
  | GUILDHALL
  deriving DecidableEq, Repr

inductive Mailbox where
  | inbox
  | depotLocker (townId : UInt32)
  deriving DecidableEq

/-- What can be done with the contents of a house and the belongings of a player. -/
structure Goods (η ι : Type*) where
  transfer : UInt32 → η → ι → η × ι
  letter : Mailbox → String → ι → ι

structure Player (ι : Type*) where
  guid : UInt32
  name : String
  accountId : UInt32
  bankBalance : UInt64
  belongings : ι

/-- A row of `players`; its key is the guid. -/
structure PlayerRow (ι : Type*) where
  name : String
  account_id : UInt32
  balance : UInt64
  belongings : ι

/-- A row of `guilds`. -/
structure GuildRow where
  name : String
  balance : UInt64
  ownerid : UInt32

structure Guild where
  name : String
  bankBalance : UInt64
  ownerGUID : UInt32

/-- A row of `guild_transactions`. -/
structure GuildTransaction where
  guild_id : UInt32
  type : String
  category : String
  balance : UInt32
  time : Int
  deriving DecidableEq

structure House (η : Type*) where
  name : String
  type : HouseType
  townId : UInt32
  rent : UInt32
  owner : UInt32
  ownerAccountId : UInt32
  ownerName : String
  paidUntil : Int
  rentWarnings : UInt32
  isLoaded : Bool
  isProtected : Bool
  ownerTransitionInProgress : Bool
  subOwnerList : String
  guestList : String
  doorLists : List String
  /-- `owner` and `is_protected` of its row in `houses`. -/
  stored : UInt32 × Bool
  content : η

structure World (η ι : Type*) where
  players : Table UInt32 (PlayerRow ι)
  guilds : Table UInt32 GuildRow
  guild_transactions : List GuildTransaction
  /-- The players that are online, by guid. -/
  online : Table UInt32 (Player ι)
  /-- `g_game.guilds`. -/
  registry : Table UInt32 Guild
  houses : Table UInt32 (House η)

variable {η ι : Type*}

/-! ## Loading and saving -/

/-- `loadPlayerById`; `answered` says whether its statements were. -/
def loadPlayerById (answered : Bool) (guid : UInt32) (players : Table UInt32 (PlayerRow ι)) : Option (Player ι) :=
  if answered then (players.find? guid).map fun r => ⟨guid, r.name, r.account_id, r.balance, r.belongings⟩ else none

/-- `savePlayerSync`; `saved` says whether the transaction took effect. -/
def savePlayer (saved : Bool) (p : Player ι) (players : Table UInt32 (PlayerRow ι)) : Table UInt32 (PlayerRow ι) :=
  if saved then players.set p.guid ⟨p.name, p.accountId, p.bankBalance, p.belongings⟩ else players

/-- `IOGuild::loadGuild`: the owner is not among the columns it reads. -/
def loadGuild (answered : Bool) (guildId : UInt32) (guilds : Table UInt32 GuildRow) : Option Guild :=
  if answered then (guilds.find? guildId).map fun r => ⟨r.name, r.balance, 0⟩ else none

/-- `g_game.getGuild`, or `loadGuild`. -/
def findGuild (answered : Bool) (guildId : UInt32) (w : World η ι) : Option Guild :=
  (w.registry.find? guildId).or (loadGuild answered guildId w.guilds)

/-! ## `transferToDepot` -/

/-- How the server fares when the former owner is looked up and saved. -/
structure DepotEnv where
  guild : Bool
  player : Bool
  saved : Bool

/-- The player that gets the items: the owner, or the owner of the guild. -/
def receiver (env : DepotEnv) (h : House η) (w : World η ι) : Option UInt32 :=
  match h.type with
  | .NORMAL => some h.owner
  | .GUILDHALL => (findGuild env.guild h.owner w).map Guild.ownerGUID

def Player.receive (g : Goods η ι) (h : House η) (p : Player ι) : House η × Player ι :=
  if h.townId = 0 ∨ h.owner = 0 then (h, p)
  else
    let r := g.transfer h.townId h.content p.belongings
    ({ h with content := r.1 }, { p with belongings := r.2 })

/-- `transferToDepot()`: to the player if it is online, else to a copy that is then saved. -/
def transferToDepot (g : Goods η ι) (env : DepotEnv) (h : House η) (w : World η ι) : House η × World η ι :=
  if h.townId = 0 ∨ h.owner = 0 then (h, w)
  else
    match receiver env h w with
    | none => (h, w)
    | some guid =>
      match w.online.find? guid with
      | some p =>
        let r := p.receive g h
        (r.1, { w with online := w.online.set guid r.2 })
      | none =>
        match loadPlayerById env.player guid w.players with
        | none => (h, w)
        | some p =>
          let r := p.receive g h
          (r.1, { w with players := savePlayer env.saved r.2 w.players })

/-! ## `setOwner` -/

/-- How one call fares: the owner's data is read, the sleepers are woken, the row is updated;
    `now` is the time and `rentPeriod` the configured period in lower case. -/
structure OwnerEnv where
  ownerData : Bool
  wake : Bool
  update : Bool
  depot : DepotEnv
  now : Int
  rentPeriod : String

/-- `initializeOwnerDataFromDatabase`: the account and the name shown for the owner. -/
def initializeOwnerDataFromDatabase (answered : Bool) (guid : UInt32) (type : HouseType) (w : World η ι) :
    Option (UInt32 × String) :=
  if answered then
    match type with
    | .NORMAL => (w.players.find? guid).map fun r => (r.account_id, r.name)
    | .GUILDHALL => (w.guilds.find? guid).bind fun guild =>
      (w.players.find? guild.ownerid).map fun leader => (leader.account_id, "The " ++ guild.name)
  else none

/-- The date up to which a new owner has paid. -/
def firstPaidUntil (rentPeriod : String) (now : Int) : Int :=
  if rentPeriod = "yearly" ∨ rentPeriod = "annual" then now + 24 * 60 * 60 * 365
  else if rentPeriod = "monthly" then now + 24 * 60 * 60 * 30
  else if rentPeriod = "weekly" then now + 24 * 60 * 60 * 7
  else if rentPeriod = "daily" then now + 24 * 60 * 60
  else if rentPeriod = "dev" then now + 5 * 60
  else 0

/-- `updateOwnerInDatabase` and the protection that goes with it. -/
def House.store (guid : UInt32) (h : House η) : House η :=
  if guid = 0 ∨ h.owner = 0 then { h with stored := (guid, false), isProtected := false }
  else { h with stored := (guid, h.stored.2) }

/-- The former owner's traces are removed. -/
def House.clear (h : House η) : House η :=
  { h with
    owner := 0
    ownerAccountId := 0
    ownerName := ""
    isProtected := false
    subOwnerList := ""
    guestList := ""
    doorLists := h.doorLists.map fun _ => "" }

/-- The last part of `setOwner`: the new owner, if there is one. -/
def House.assign (guid : UInt32) (data : UInt32 × String) (h : House η) : House η :=
  if guid = 0 then { h with rentWarnings := 0, owner := 0, ownerAccountId := 0, ownerName := "" }
  else { h with rentWarnings := 0, owner := guid, ownerAccountId := data.1, ownerName := data.2 }

def House.markLoaded (h : House η) : House η := { h with isLoaded := true }

/-- `setOwner` on the house `id`; `previous` is the player object the caller passes, given back
    with what it received. -/
def setOwner (g : Goods η ι) (id guid : UInt32) (updateDatabase : Bool) (previous : Option (Player ι)) (env : OwnerEnv)
    (w : World η ι) : Bool × World η ι × Option (Player ι) :=
  match w.houses.find? id with
  | none => (false, w, previous)
  | some h =>
    if h.ownerTransitionInProgress then (false, w, previous)
    else if h.isLoaded && h.owner == guid then (true, w, previous)
    else
      let data := initializeOwnerDataFromDatabase env.ownerData guid h.type w
      if guid ≠ 0 ∧ data = none then (false, w, previous)
      else if h.owner ≠ 0 ∧ updateDatabase = true ∧ env.wake = false then (false, w, previous)
      else if updateDatabase = true ∧ h.owner ≠ guid ∧ env.update = false then (false, w, previous)
      else
        let stored := if updateDatabase = true ∧ h.owner ≠ guid then h.store guid else h
        let loaded := stored.markLoaded
        let (h', w', previous') :=
          if h.owner ≠ 0 ∧ updateDatabase = true then
            match previous with
            | some p => ((p.receive g loaded).1.clear, w, some (p.receive g loaded).2)
            | none => ((transferToDepot g env.depot loaded w).1.clear, (transferToDepot g env.depot loaded w).2, none)
          else ({ loaded with paidUntil := firstPaidUntil env.rentPeriod env.now }, w, previous)
        (true, { w' with houses := w'.houses.set id (h'.assign guid (data.getD (0, ""))) }, previous')

/-! ## Balances -/

/-- Nothing was taken from anyone or given to anyone in the database. -/
structure SameBalances (w w' : World η ι) : Prop where
  players : ∀ k, (w'.players.find? k).map PlayerRow.balance = (w.players.find? k).map PlayerRow.balance
  guilds : w'.guilds = w.guilds

section
variable {g : Goods η ι} {w w' : World η ι} {h : House η} {p p' : Player ι} {id guid : UInt32} {answered : Bool}

variable {players : Table UInt32 (PlayerRow ι)}

theorem SameBalances.refl (w : World η ι) : SameBalances w w := ⟨fun _ => rfl, rfl⟩

theorem loadPlayerById_some (h : loadPlayerById answered guid players = some p) :
    answered = true ∧ p.guid = guid ∧ ∃ r, players.find? guid = some r ∧ r.balance = p.bankBalance := by
  unfold loadPlayerById at h
  split at h
  · next ha =>
    obtain ⟨r, hr, rfl⟩ := Option.map_eq_some_iff.mp h
    exact ⟨ha, rfl, r, hr, rfl⟩
  · cases h

theorem savePlayer_balance {r : PlayerRow ι} (saved : Bool) (hr : players.find? p.guid = some r) (k : UInt32) :
    ((savePlayer saved p players).find? k).map PlayerRow.balance =
      if saved = true ∧ k = p.guid then some p.bankBalance else (players.find? k).map PlayerRow.balance := by
  cases saved with
  | false => simp [savePlayer]
  | true =>
    unfold savePlayer
    rw [if_pos rfl, Table.find?_set hr]
    by_cases e : k = p.guid
    · rw [if_pos e, if_pos ⟨rfl, e⟩]
      rfl
    · rw [if_neg e, if_neg (fun h => e h.2)]

theorem savePlayer_same {r : PlayerRow ι} (saved : Bool) (hr : players.find? p.guid = some r)
    (hb : r.balance = p.bankBalance) (k : UInt32) :
    ((savePlayer saved p players).find? k).map PlayerRow.balance = (players.find? k).map PlayerRow.balance := by
  rw [savePlayer_balance saved hr]
  grind

theorem receive_guid : (p.receive g h).2.guid = p.guid := by
  unfold Player.receive
  split
  · rfl
  · rfl

theorem receive_balance : (p.receive g h).2.bankBalance = p.bankBalance := by
  unfold Player.receive
  split
  · rfl
  · rfl

theorem receive_house : ∃ c, (p.receive g h).1 = { h with content := c } := by
  unfold Player.receive
  split
  · exact ⟨h.content, rfl⟩
  · exact ⟨_, rfl⟩

theorem transferToDepot_spec (g : Goods η ι) (env : DepotEnv) (h : House η) (w : World η ι) :
    (∃ c, (transferToDepot g env h w).1 = { h with content := c }) ∧
      (transferToDepot g env h w).2.houses = w.houses ∧ SameBalances w (transferToDepot g env h w).2 := by
  unfold transferToDepot
  split
  · exact ⟨⟨h.content, rfl⟩, rfl, .refl w⟩
  split
  · exact ⟨⟨h.content, rfl⟩, rfl, .refl w⟩
  next guid hg =>
  split
  · exact ⟨receive_house, rfl, ⟨fun _ => rfl, rfl⟩⟩
  split
  · exact ⟨⟨h.content, rfl⟩, rfl, .refl w⟩
  next p hp =>
  obtain ⟨-, rfl, r, hr, hb⟩ := loadPlayerById_some hp
  refine ⟨receive_house, rfl, ⟨?_, rfl⟩⟩
  intro k
  exact savePlayer_same _ (by rw [receive_guid]; exact hr) (by rw [receive_balance]; exact hb) k

theorem paidUntil_store : (h.store guid).markLoaded.paidUntil = h.paidUntil := by
  unfold House.store
  split
  · rfl
  · rfl

/-- What is left of a house that was taken away. -/
structure Released (h h' : House η) : Prop where
  owner : h'.owner = 0
  paidUntil : h'.paidUntil = h.paidUntil
  rentWarnings : h'.rentWarnings = 0

/-- What taking a house away leaves besides the house itself: no balance changes, and a copy
    of the player that the caller passed still has its own. -/
structure Handed (previous previous' : Option (Player ι)) (w w' : World η ι) : Prop where
  balances : SameBalances w w'
  players : previous.isSome = true → w'.players = w.players
  copy : ∀ p, previous = some p → ∃ p', previous' = some p' ∧ p'.guid = p.guid ∧ p'.bankBalance = p.bankBalance

/-- All that taking the house `id` from its owner can do: nothing at all, or the house is
    released. -/
theorem release_cases (g : Goods η ι) (previous : Option (Player ι)) (env : OwnerEnv)
    (hf : w.houses.find? id = some h) (ho : h.owner ≠ 0) :
    (∃ b, setOwner g id 0 true previous env w = (b, w, previous)) ∨
      ∃ h' w' previous', setOwner g id 0 true previous env w =
          (true, { w' with houses := w.houses.set id h' }, previous') ∧
        Released h h' ∧ Handed previous previous' w w' := by
  unfold setOwner
  rw [hf]
  simp only
  split
  · exact .inl ⟨_, rfl⟩
  split
  · exact .inl ⟨_, rfl⟩
  split
  · exact .inl ⟨_, rfl⟩
  split
  · exact .inl ⟨_, rfl⟩
  split
  · exact .inl ⟨_, rfl⟩
  right
  rw [if_pos ⟨ho, trivial⟩, if_pos ⟨trivial, ho⟩]
  cases previous with
  | some p =>
    obtain ⟨c, hc⟩ := receive_house (g := g) (p := p) (h := (h.store 0).markLoaded)
    refine ⟨_, _, _, rfl, ⟨rfl, ?_, rfl⟩, .refl w, fun _ => rfl, ?_⟩
    · show ((Player.receive g (h.store 0).markLoaded p).1).paidUntil = h.paidUntil
      rw [hc]
      exact paidUntil_store
    · intro q hq
      cases hq
      exact ⟨_, rfl, receive_guid, receive_balance⟩
  | none =>
    obtain ⟨⟨c, hc⟩, hh, hs⟩ := transferToDepot_spec g env.depot (h.store 0).markLoaded w
    rw [hh]
    refine ⟨_, _, _, rfl, ⟨rfl, ?_, rfl⟩, ⟨hs, fun hn => (by cases hn), fun p hp => (by cases hp)⟩⟩
    rw [hc]
    exact paidUntil_store

end

end Backlands.Houses
