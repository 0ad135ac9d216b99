/-
  Backlands.Save.PlayerQueries — the queries a player snapshot is made of (`savePlayerQueries`,
  `saveAutoLootConfig` and `buildPlayerSave` of src/iologindata.cpp) and what replaying them
  does (`flushPlayerSave`, `recoverPendingFlushes`).

  Every query names the player's guid. All of them are absolute but one: the time the
  player was online is added to the column.

  Proved: `replay_idempotent_iff`. For every player and database, replaying a snapshot that
  was committed leaves the database as it is exactly when the snapshot adds nothing to the
  online time: the player is not saved, is offline, was built in the second of the login,
  has no row, or the second sum is one the database refuses.
-/

import Backlands.Db.Statements
import Backlands.Items.Holdings
import Backlands.Items.Reward

namespace Backlands.PlayerSave

open Backlands.Lib Backlands.Db Backlands.Items Function List Option

/-! ## The player -/

structure Outfit where
  lookType : Int
  lookHead : Int
  lookBody : Int
  lookLegs : Int
  lookFeet : Int
  lookAddons : Int
  lookMount : Int
  deriving Inhabited

structure Position where
  x : Int
  y : Int
  z : Int
  deriving Inhabited

structure Skill where
  level : Int
  tries : Int
  deriving Inhabited

structure Skills where
  fist : Skill
  club : Skill
  sword : Skill
  axe : Skill
  distance : Skill
  shield : Skill
  fishing : Skill
  deriving Inhabited

inductive Skull where
  | none
  | yellow
  | green
  | white
  | red
  | black
  deriving DecidableEq, Inhabited

structure Condition where
  persistent : Bool
  constant : Bool
  serialized : List UInt8

structure AutoLootConfig where
  /-- An item id with a category and a flag, each. -/
  itemList : List (Nat × Nat × Nat)
  text : List UInt8
  lootAnything : Bool
  goldEnabled : Bool
  enabled : Bool
  deriving Inhabited

/-- The columns of `players` that are copied from the player as they are. -/
structure Stats where
  level : Int
  resetCount : Int
  group : Int
  vocationId : Int
  health : Int
  healthMax : Int
  /-- `getMaxHealth`, with what conditions add. -/
  maxHealth : Int
  experience : Int
  defaultOutfit : Outfit
  currentMount : Int
  randomizeMount : Bool
  magLevel : Int
  mana : Int
  manaMax : Int
  manaSpent : Int
  soul : Int
  town : Int
  loginPosition : Position
  capacity : Int
  sex : Int
  skullTicks : Int
  skull : Skull
  lastLogout : Int
  bankBalance : Int
  preyWildcards : Int
  bestiaryCharmPoints : Int
  taskHuntingPoints : Int
  bountyPoints : Int
  soulsealsPoints : Int
  hasWeeklyExpansion : Bool
  xpBoostPercent : Int
  xpBoostTime : Int
  offlineTrainingTime : Int
  offlineTrainingSkill : Int
  staminaMinutes : Int
  skills : Skills
  direction : Int
  blessingCount : Fin 8 → Int
  tokenProtected : Bool
  tokenHash : String
  deriving Inhabited

structure Player (types : Nat → ItemType) where
  guid : Nat
  /-- The creature id; zero while the player is offline. -/
  id : Nat
  saveFlag : Bool
  lastLoginSaved : Int
  lastIP : Int
  stats : Stats
  conditions : List Condition
  learnedInstantSpellList : List String
  holdings : Holdings types
  /-- Some depot locker `needsSave`. -/
  depotNeedsSave : Bool
  rewardChest : List Item
  autolootConfig : AutoLootConfig
  storageMap : Nat → Option Int
  modifiedStorageKeys : List Nat
  removedStorageKeys : List Nat
  bestiaryKills : Nat → Option Int
  bosstiaryPoints : Int
  outfits : List (Nat × Nat)
  mounts : List Nat

/-- What is read beside the player: the world, the configuration, the packet size and the
    clock, which is read for the skull and again for the online time. -/
structure Env where
  pvpEnforced : Bool
  bestiarySystemEnabled : Bool
  protectionTime : Int
  fits : List Record → Record → Bool
  skullNow : Int
  onlineNow : Int

/-! ## Writing bytes -/

def writeU8 (n : Nat) : List UInt8 := [UInt8.ofNat n]

def writeU16 (n : Nat) : List UInt8 := [UInt8.ofNat n, UInt8.ofNat (n / 256)]

/-- `PropWriteStream::writeString`: a text too long for its length is written as empty. -/
def writeString (s : List UInt8) : List UInt8 := if 65535 < s.length then writeU16 0 else writeU16 s.length ++ s

def CONDITIONATTR_END : Nat := 254

def serializeConditions (cs : List Condition) : List UInt8 :=
  cs.flatMap fun c => if c.persistent || c.constant then c.serialized ++ writeU8 CONDITIONATTR_END else []

def serializeAutoLoot (c : AutoLootConfig) : List UInt8 :=
  writeU16 c.itemList.length ++ (c.itemList.flatMap fun e => writeU16 e.1 ++ writeU16 e.2.1 ++ writeU8 e.2.2) ++
    writeString c.text ++ writeU8 c.lootAnything.toNat ++ writeU8 c.goldEnabled.toNat ++ writeU8 c.enabled.toNat

/-! ## The row of the player -/

def savedSkull : Skull → Int
  | .red => 4
  | .black => 5
  | _ => 0

section
variable {types : Nat → ItemType} (env : Env) (p : Player types)

/-- A dead player is given one point of health before saving. -/
def savedHealth : Int :=
  if p.stats.health ≤ 0 then p.stats.health + min 1 (p.stats.maxHealth - p.stats.health) else p.stats.health

def bodyColumns : List (Col × Value) :=
  [(.level, .int p.stats.level), (.reset, .int p.stats.resetCount), (.group_id, .int p.stats.group),
    (.vocation, .int p.stats.vocationId), (.health, .int (savedHealth p)), (.healthmax, .int p.stats.healthMax),
    (.experience, .int p.stats.experience), (.lookbody, .int p.stats.defaultOutfit.lookBody),
    (.lookfeet, .int p.stats.defaultOutfit.lookFeet), (.lookhead, .int p.stats.defaultOutfit.lookHead),
    (.looklegs, .int p.stats.defaultOutfit.lookLegs), (.looktype, .int p.stats.defaultOutfit.lookType),
    (.lookaddons, .int p.stats.defaultOutfit.lookAddons), (.lookmount, .int p.stats.defaultOutfit.lookMount),
    (.currentmount, .int p.stats.currentMount), (.randomizemount, .int p.stats.randomizeMount.toInt),
    (.maglevel, .int p.stats.magLevel), (.mana, .int p.stats.mana), (.manamax, .int p.stats.manaMax),
    (.manaspent, .int p.stats.manaSpent), (.soul, .int p.stats.soul), (.town_id, .int p.stats.town),
    (.posx, .int p.stats.loginPosition.x), (.posy, .int p.stats.loginPosition.y),
    (.posz, .int p.stats.loginPosition.z), (.cap, .int (p.stats.capacity / 100)), (.sex, .int p.stats.sex)]

/-- A login time or address of zero is not written. -/
def loginColumns : List (Col × Value) :=
  (if p.lastLoginSaved ≠ 0 then [(Col.lastlogin, Value.int p.lastLoginSaved)] else []) ++
    (if p.lastIP ≠ 0 then [(Col.lastip, Value.int p.lastIP)] else [])

def skullColumns : List (Col × Value) :=
  if env.pvpEnforced then []
  else
    [(.skulltime, .int (if 0 < p.stats.skullTicks then env.skullNow + p.stats.skullTicks else 0)),
      (.skull, .int (savedSkull p.stats.skull))]

def progressColumns : List (Col × Value) :=
  [(.lastlogout, .int p.stats.lastLogout), (.balance, .int p.stats.bankBalance),
    (.bonus_rerolls, .int p.stats.preyWildcards), (.charmpoints, .int p.stats.bestiaryCharmPoints),
    (.task_hunting_points, .int p.stats.taskHuntingPoints), (.bounty_points, .int p.stats.bountyPoints),
    (.soulseals_points, .int p.stats.soulsealsPoints),
    (.has_weekly_expansion, .int p.stats.hasWeeklyExpansion.toInt), (.xpboost_value, .int p.stats.xpBoostPercent),
    (.xpboost_stamina, .int p.stats.xpBoostTime),
    (.offlinetraining_time, .int (p.stats.offlineTrainingTime.tdiv 1000)),
    (.offlinetraining_skill, .int p.stats.offlineTrainingSkill), (.stamina, .int p.stats.staminaMinutes),
    (.skill_fist, .int p.stats.skills.fist.level), (.skill_fist_tries, .int p.stats.skills.fist.tries),
    (.skill_club, .int p.stats.skills.club.level), (.skill_club_tries, .int p.stats.skills.club.tries),
    (.skill_sword, .int p.stats.skills.sword.level), (.skill_sword_tries, .int p.stats.skills.sword.tries),
    (.skill_axe, .int p.stats.skills.axe.level), (.skill_axe_tries, .int p.stats.skills.axe.tries),
    (.skill_dist, .int p.stats.skills.distance.level), (.skill_dist_tries, .int p.stats.skills.distance.tries),
    (.skill_shielding, .int p.stats.skills.shield.level), (.skill_shielding_tries, .int p.stats.skills.shield.tries),
    (.skill_fishing, .int p.stats.skills.fishing.level), (.skill_fishing_tries, .int p.stats.skills.fishing.tries),
    (.direction, .int p.stats.direction), (.protection_time, .int env.protectionTime)]

/-- The assignments before the online time. -/
def columnsBefore : List (Col × Value) :=
  bodyColumns p ++ loginColumns p ++ [(Col.conditions, Value.blob (serializeConditions p.conditions))] ++
    skullColumns env p ++ progressColumns env p

/-- The assignments after it. -/
def columnsAfter : List (Col × Value) :=
  [(.blessings1, .int (p.stats.blessingCount 0)), (.blessings2, .int (p.stats.blessingCount 1)),
    (.blessings3, .int (p.stats.blessingCount 2)), (.blessings4, .int (p.stats.blessingCount 3)),
    (.blessings5, .int (p.stats.blessingCount 4)), (.blessings6, .int (p.stats.blessingCount 5)),
    (.blessings7, .int (p.stats.blessingCount 6)), (.blessings8, .int (p.stats.blessingCount 7)),
    (.blessings, .int 0), (.token_protected, .int p.stats.tokenProtected.toInt),
    (.token_hash, .text p.stats.tokenHash)]

def isOffline : Bool := p.id == 0

/-- What is added to the online time. -/
def onlineDelta : Int := env.onlineNow - p.lastLoginSaved

def playerSets : List (Col × Expr) :=
  consts (columnsBefore env p) ++
    (if isOffline p then [] else [(.onlinetime, .plus (onlineDelta env p))]) ++ consts (columnsAfter p)

/-! ## The other tables -/

def record (cells : List (Col × Value)) : Record := setAll cells fun _ => .null

def itemRecord (r : ItemRow) : Record :=
  record [(.player_id, .int p.guid), (.pid, .int r.pid), (.sid, .int r.sid), (.itemtype, .int r.label.itemtype),
    (.count, .int r.label.count), (.attributes, .attributes r.label.attributes)]

def replaceRows (t : Table) (rows : List Record) : Table × List Stmt :=
  (t, .delete t p.guid :: dbInsert env.fits t [] rows)

def itemPart (t : Table) (itemList : List (Int × Item)) : Table × List Stmt :=
  replaceRows env p t ((saveItems types itemList).map (itemRecord p))

def spellPart : Table × List Stmt :=
  replaceRows env p .player_spells
    (p.learnedInstantSpellList.map fun spellName => record [(.player_id, .int p.guid), (.name, .text spellName)])

/-- The depots are written only when a locker was changed. -/
def depotPart : Table × List Stmt :=
  if p.depotNeedsSave then itemPart env p .player_depotitems (depotList p.holdings.depotIds p.holdings.toBelongings)
  else (.player_depotitems, [])

/-- `saveAutoLootConfig`. -/
def autoLootPart : Table × List Stmt :=
  (.player_autolootconfig, [.delete .player_autolootconfig p.guid,
    .insert .player_autolootconfig []
      [record [(.player_id, .int p.guid), (.config, .blob (serializeAutoLoot p.autolootConfig))]]])

def storageRows : List Record :=
  p.modifiedStorageKeys.filterMap fun key =>
    (p.storageMap key).map fun value => record [(.player_id, .int p.guid), (.key, .int key), (.value, .int value)]

/-- Only the keys changed since they were last saved. -/
def storagePart : Table × List Stmt :=
  (.player_storage,
    (if p.removedStorageKeys.isEmpty then []
      else [.deleteKeys .player_storage p.guid (p.removedStorageKeys.map Int.ofNat)]) ++
    dbInsert env.fits .player_storage [.value] (storageRows p))

def bestiaryRows (modifiedRaceIds : List Nat) : List Record :=
  modifiedRaceIds.filterMap fun raceId =>
    (p.bestiaryKills raceId).map fun kills => record [(.player_id, .int p.guid), (.raceid, .int raceId), (.kills, .int kills)]

def bestiaryPart (modifiedRaceIds : List Nat) : Table × List Stmt :=
  (.player_bestiary_kills,
    if env.bestiarySystemEnabled then
      dbInsert env.fits .player_bestiary_kills [.kills] (bestiaryRows p modifiedRaceIds)
    else [])

def bosstiaryPart : Table × List Stmt :=
  (.player_bosstiary,
    if env.bestiarySystemEnabled then
      [.insert .player_bosstiary [.points] [record [(.player_id, .int p.guid), (.points, .int p.bosstiaryPoints)]]]
    else [])

def outfitPart : Table × List Stmt :=
  replaceRows env p .player_outfits
    (p.outfits.map fun e => record [(.player_id, .int p.guid), (.outfit_id, .int e.1), (.addons, .int e.2)])

def mountPart : Table × List Stmt :=
  replaceRows env p .player_mounts
    (p.mounts.map fun mount => record [(.player_id, .int p.guid), (.mount_id, .int mount)])

/-- Everything after the row of the player, in the order it is written. -/
def parts (modifiedRaceIds : List Nat) : List (Table × List Stmt) :=
  [spellPart env p,
    itemPart env p .player_items (inventoryList p.holdings.toBelongings),
    depotPart env p,
    itemPart env p .player_inboxitems (collectInboxItems p.holdings.lockerIds p.holdings.toBelongings),
    itemPart env p .player_rewarditems (rewardList 1 p.rewardChest),
    itemPart env p .player_storeinboxitems (storeInboxList p.holdings.toBelongings),
    autoLootPart p,
    storagePart env p,
    bestiaryPart env p modifiedRaceIds,
    bosstiaryPart env p,
    outfitPart env p,
    mountPart env p]

/-- `savePlayerQueries`, captured by `buildPlayerSave`. -/
def savePlayerQueries (modifiedRaceIds : List Nat) : List Stmt :=
  if p.saveFlag then
    .update .players p.guid (playerSets env p) :: (parts env p modifiedRaceIds).flatMap (·.2)
  else
    [.update .players p.guid (consts [(.lastlogin, .int p.lastLoginSaved), (.lastip, .int p.lastIP)])]

end

/-! ## The parts -/

section
variable {types : Nat → ItemType} (env : Env) (p : Player types)

theorem replaceRows_part {t : Table} (ht : t ≠ .players) {rows : List Record} (ho : OwnedBy p.guid rows) :
    Part p.guid (replaceRows env p t rows).1 ((replaceRows env p t rows).2.flatMap Stmt.ops) :=
  Part.replace ht ho env.fits

theorem ownedBy_map {α : Type*} {guid : Nat} {f : α → Record} (h : ∀ a, f a .player_id = .int guid) (l : List α) :
    OwnedBy guid (l.map f) := by
  intro r hr
  obtain ⟨a, _, rfl⟩ := mem_map.mp hr
  exact h a

theorem itemPart_part {t : Table} (ht : t ≠ .players) (itemList : List (Int × Item)) :
    Part p.guid (itemPart env p t itemList).1 ((itemPart env p t itemList).2.flatMap Stmt.ops) :=
  replaceRows_part env p ht (ownedBy_map (fun _ => rfl) _)

theorem autoLootPart_part : Part p.guid (autoLootPart p).1 ((autoLootPart p).2.flatMap Stmt.ops) := by
  have ho : OwnedBy p.guid
      [record [(.player_id, .int p.guid), (.config, .blob (serializeAutoLoot p.autolootConfig))]] := by
    intro r hr
    rw [mem_singleton.mp hr]
    rfl
  have h := Part.replace (t := .player_autolootconfig) (by decide) ho fun _ _ => true
  exact h

theorem storageRows_owned : OwnedBy p.guid (storageRows p) := by
  intro r hr
  obtain ⟨key, _, hk⟩ := mem_filterMap.mp hr
  obtain ⟨value, _, rfl⟩ := map_eq_some_iff.mp hk
  rfl

theorem storagePart_part : Part p.guid (storagePart env p).1 ((storagePart env p).2.flatMap Stmt.ops) := by
  unfold storagePart
  split
  · exact Part.insert (t := .player_storage) (by decide) (by simp) (storageRows_owned p) env.fits
  · exact Part.upsert (t := .player_storage) (by decide) (by simp) (storageRows_owned p) _ env.fits

theorem bestiaryPart_part (ids : List Nat) :
    Part p.guid (bestiaryPart env p ids).1 ((bestiaryPart env p ids).2.flatMap Stmt.ops) := by
  unfold bestiaryPart
  split
  · refine Part.insert (t := .player_bestiary_kills) (by decide) (by simp) ?_ env.fits
    intro r hr
    obtain ⟨raceId, _, hk⟩ := mem_filterMap.mp hr
    obtain ⟨kills, _, rfl⟩ := map_eq_some_iff.mp hk
    rfl
  · exact Part.nil _ _

theorem bosstiaryPart_part : Part p.guid (bosstiaryPart env p).1 ((bosstiaryPart env p).2.flatMap Stmt.ops) := by
  unfold bosstiaryPart
  split
  · have ho : OwnedBy p.guid [record [(.player_id, .int p.guid), (.points, .int p.bosstiaryPoints)]] := by
      intro r hr
      rw [mem_singleton.mp hr]
      rfl
    have h := Part.insert (t := .player_bosstiary) (by decide) (cons_ne_nil Col.points []) ho fun _ _ => true
    rw [dbInsert_ops] at h
    simpa [Stmt.ops] using h
  · exact Part.nil _ _

theorem depotPart_part : Part p.guid (depotPart env p).1 ((depotPart env p).2.flatMap Stmt.ops) := by
  unfold depotPart
  split
  · exact itemPart_part env p (by decide) _
  · exact Part.nil _ _

theorem parts_tables (ids : List Nat) : (parts env p ids).map (·.1) =
    [.player_spells, .player_items, .player_depotitems, .player_inboxitems, .player_rewarditems,
      .player_storeinboxitems, .player_autolootconfig, .player_storage, .player_bestiary_kills, .player_bosstiary,
      .player_outfits, .player_mounts] := by
  have hdepot : (depotPart env p).1 = .player_depotitems := by
    unfold depotPart
    split <;> rfl
  simp only [parts, map_cons, map_nil, hdepot]
  rfl

theorem parts_ok (ids : List Nat) : Parts p.guid (parts env p ids) := by
  have htables := parts_tables env p ids
  refine ⟨?_, ?_, ?_⟩
  · intro e he
    simp only [parts, mem_cons, not_mem_nil, or_false] at he
    rcases he with rfl | rfl | rfl | rfl | rfl | rfl | rfl | rfl | rfl | rfl | rfl | rfl
    · exact replaceRows_part env p (by decide) (ownedBy_map (fun _ => rfl) _)
    · exact itemPart_part env p (by decide) _
    · exact depotPart_part env p
    · exact itemPart_part env p (by decide) _
    · exact itemPart_part env p (by decide) _
    · exact itemPart_part env p (by decide) _
    · exact autoLootPart_part p
    · exact storagePart_part env p
    · exact bestiaryPart_part env p ids
    · exact bosstiaryPart_part env p
    · exact replaceRows_part env p (by decide) (ownedBy_map (fun _ => rfl) _)
    · exact replaceRows_part env p (by decide) (ownedBy_map (fun _ => rfl) _)
  · rw [htables]
    decide
  intro e he hp
  have hm : Table.players ∈ (parts env p ids).map (·.1) := by
    rw [← hp]
    exact mem_map_of_mem he
  rw [htables] at hm
  revert hm
  decide

/-! ## Replaying -/

theorem onlinetime_before : Col.onlinetime ∉ (columnsBefore env p).map (·.1) := by
  have hbody : Col.onlinetime ∉ (bodyColumns p).map (·.1) := by
    simp [bodyColumns]
  have hlogin : Col.onlinetime ∉ (loginColumns p).map (·.1) := by
    simp [loginColumns]
  have hskull : Col.onlinetime ∉ (skullColumns env p).map (·.1) := by
    unfold skullColumns
    split <;> simp
  have hprogress : Col.onlinetime ∉ (progressColumns env p).map (·.1) := by
    simp [progressColumns]
  unfold columnsBefore
  simp only [map_append, mem_append, not_or]
  exact ⟨⟨⟨⟨hbody, hlogin⟩, by simp⟩, hskull⟩, hprogress⟩

theorem onlinetime_after : Col.onlinetime ∉ (columnsAfter p).map (·.1) := by
  simp [columnsAfter]

theorem playerSets_offline (h : isOffline p = true) {x y : List Record}
    (hxy : updateRows (assignAll (playerSets env p)) x = some y) :
    updateRows (assignAll (playerSets env p)) y = some y := by
  have e : playerSets env p = consts (columnsBefore env p ++ columnsAfter p) := by simp [playerSets, h, consts]
  rw [e] at hxy ⊢
  exact updateRows_consts_again hxy

theorem playerSets_online_iff (h : isOffline p = false) {x y : List Record}
    (hxy : updateRows (assignAll (playerSets env p)) x = some y) :
    (updateRows (assignAll (playerSets env p)) y = none ∨ updateRows (assignAll (playerSets env p)) y = some y) ↔
      onlineDelta env p = 0 ∨ x = [] ∨
        ∃ r ∈ x, ∃ m, r .onlinetime = .int m ∧ ¬ inBigint (m + 2 * onlineDelta env p) := by
  have hsets : playerSets env p = consts (columnsBefore env p) ++
      (.onlinetime, .plus (onlineDelta env p)) :: consts (columnsAfter p) := by simp [playerSets, h]
  have hrow : ∀ r q, assignAll (playerSets env p) r = some q → ∃ m, r .onlinetime = .int m ∧
      inBigint (m + onlineDelta env p) ∧ q .onlinetime = .int (m + onlineDelta env p) ∧
      assignAll (playerSets env p) q = if inBigint (m + onlineDelta env p + onlineDelta env p) then
        some (update q .onlinetime (.int (m + onlineDelta env p + onlineDelta env p))) else none := by
    intro r q hrq
    rw [hsets] at hrq ⊢
    exact assignAll_plus_again (onlinetime_before env p) (onlinetime_after p) hrq
  have hmem := updateRows_mem hxy
  rw [updateRows_eq_none_iff, updateRows_self_iff]
  constructor
  · rintro (⟨q, hq, hnone⟩ | hself)
    · obtain ⟨r, hr, hrq⟩ := hmem.1 q hq
      obtain ⟨m, hm, _, _, hagain⟩ := hrow r q hrq
      refine .inr (.inr ⟨r, hr, m, hm, ?_⟩)
      grind
    · cases x with
      | nil => exact .inr (.inl rfl)
      | cons r x =>
        left
        obtain ⟨q, hq, hrq⟩ := hmem.2 r mem_cons_self
        obtain ⟨m, _, _, hqm, hagain⟩ := hrow r q hrq
        have hs := hself q hq
        rw [hagain] at hs
        split at hs
        · have e := congrFun (Option.some.inj hs) .onlinetime
          rw [update_self, hqm, Value.int.injEq] at e
          omega
        · cases hs
  · rintro (hzero | rfl | ⟨r, hr, m, hm, hout⟩)
    · right
      intro q hq
      obtain ⟨r, _, hrq⟩ := hmem.1 q hq
      obtain ⟨m, _, hin, hqm, hagain⟩ := hrow r q hrq
      have e : m + onlineDelta env p + onlineDelta env p = m + onlineDelta env p := by omega
      rw [hagain, e, if_pos hin, ← hqm, update_eq_self]
    · right
      intro q hq
      obtain ⟨r, hr, _⟩ := hmem.1 q hq
      exact (not_mem_nil hr).elim
    · left
      obtain ⟨q, hq, hrq⟩ := hmem.2 r hr
      obtain ⟨m', hm', _, _, hagain⟩ := hrow r q hrq
      have em : m' = m := Value.int.inj (hm'.symm.trans hm)
      have e : m' + onlineDelta env p + onlineDelta env p = m + 2 * onlineDelta env p := by omega
      refine ⟨q, hq, ?_⟩
      rw [hagain, e, if_neg hout]

/-- Replaying a committed snapshot leaves the database as it is exactly when nothing is
    added to the online time of a row. -/
theorem replay_idempotent_iff (ids : List Nat) {db db' : Database}
    (h : executeAll (savePlayerQueries env p ids) db = some db') :
    replay (savePlayerQueries env p ids) db' = db' ↔
      p.saveFlag = false ∨ isOffline p = true ∨ onlineDelta env p = 0 ∨ db (playerCell p.guid) = [] ∨
        ∃ r ∈ db (playerCell p.guid), ∃ m, r .onlinetime = .int m ∧ ¬ inBigint (m + 2 * onlineDelta env p) := by
  cases hflag : p.saveFlag with
  | false =>
    have hquery : savePlayerQueries env p ids = .update .players p.guid
        (consts [(.lastlogin, .int p.lastLoginSaved), (.lastip, .int p.lastIP)]) :: ([] : List (Table × List Stmt)).flatMap
          (·.2) := by simp [savePlayerQueries, hflag]
    rw [hquery] at h ⊢
    obtain ⟨hrow, hiff⟩ := replay_update_parts (Parts.nil p.guid) h
    simp only [hiff, true_or, iff_true]
    exact .inr (updateRows_consts_again hrow)
  | true =>
    have hquery : savePlayerQueries env p ids = .update .players p.guid (playerSets env p) ::
        (parts env p ids).flatMap (·.2) := by simp [savePlayerQueries, hflag]
    rw [hquery] at h ⊢
    obtain ⟨hrow, hiff⟩ := replay_update_parts (parts_ok env p ids) h
    rw [hiff]
    cases hoff : isOffline p with
    | true =>
      simp only [true_or, or_true, iff_true]
      exact .inr (playerSets_offline env p hoff hrow)
    | false =>
      rw [playerSets_online_iff env p hoff hrow]
      simp

end

theorem no_ids_lt : ∀ d ∈ ([] : List Nat), d < 2 ^ 16 := by decide

theorem none_ok (_ : Fin 10) (t : Item) (h : none = some t) : ItemOk plainTypes t := by cases h

theorem nil_ok (t : Item) (h : t ∈ []) : ItemOk plainTypes t := by cases h

theorem nils_ok (_ : Nat) (t : Item) (h : t ∈ []) : ItemOk plainTypes t := by cases h

theorem nil_off (d : Nat) (_ : d ∉ []) : ([] : List Item) = [] := rfl

def noHoldings : Holdings plainTypes where
  inventory _ := none
  chest _ := ⟨[], fun _ => []⟩
  inbox _ := []
  storeInbox := []
  depotIds := []
  lockerIds := []
  depotIds_nodup := nodup_nil
  lockerIds_nodup := nodup_nil
  depotIds_lt := no_ids_lt
  lockerIds_lt := no_ids_lt
  chest_off _ _ := rfl
  inbox_off := nil_off
  inventory_ok := none_ok
  chest_ok := by
    rintro d t (h | ⟨_, h⟩) <;> cases h
  inbox_ok := nils_ok
  storeInbox_ok := nil_ok

def plainPlayer (id : Nat) : Player plainTypes where
  guid := 1
  id := id
  saveFlag := true
  lastLoginSaved := 1000
  lastIP := 0
  stats := default
  conditions := []
  learnedInstantSpellList := []
  holdings := noHoldings
  depotNeedsSave := false
  rewardChest := []
  autolootConfig := default
  storageMap _ := none
  modifiedStorageKeys := []
  removedStorageKeys := []
  bestiaryKills _ := none
  bosstiaryPoints := 0
  outfits := []
  mounts := []

def minuteLater : Env where
  pvpEnforced := false
  bestiarySystemEnabled := false
  protectionTime := 0
  fits _ _ := true
  skullNow := 1060
  onlineNow := 1060

/-- One row, never online before. -/
def newPlayerDb : Database := fun c =>
  if c = playerCell 1 then [fun col => if col = .onlinetime then .int 0 else .null] else []

/-- An offline player's snapshot can be replayed. -/
theorem replay_idempotent_iff_offline :
    ∃ db', executeAll (savePlayerQueries minuteLater (plainPlayer 0) []) newPlayerDb = some db' ∧
      replay (savePlayerQueries minuteLater (plainPlayer 0) []) db' = db' := by
  have hsome : (executeAll (savePlayerQueries minuteLater (plainPlayer 0) []) newPlayerDb).isSome = true := rfl
  obtain ⟨db', h⟩ := isSome_iff_exists.mp hsome
  exact ⟨db', h, (replay_idempotent_iff minuteLater (plainPlayer 0) [] h).mpr (.inr (.inl rfl))⟩

/-- An online player's minute is counted again. -/
theorem online_minute_counted_twice :
    ∃ db', executeAll (savePlayerQueries minuteLater (plainPlayer 7) []) newPlayerDb = some db' ∧
      replay (savePlayerQueries minuteLater (plainPlayer 7) []) db' ≠ db' := by
  have hsome : (executeAll (savePlayerQueries minuteLater (plainPlayer 7) []) newPlayerDb).isSome = true := rfl
  have hone : ((replay (savePlayerQueries minuteLater (plainPlayer 7) []) newPlayerDb) (playerCell 1)).map
      (fun r => r .onlinetime) = [.int 60] := rfl
  have htwo : ((replay (savePlayerQueries minuteLater (plainPlayer 7) [])
      (replay (savePlayerQueries minuteLater (plainPlayer 7) []) newPlayerDb)) (playerCell 1)).map
      (fun r => r .onlinetime) = [.int 120] := rfl
  obtain ⟨db', h⟩ := isSome_iff_exists.mp hsome
  refine ⟨db', h, ?_⟩
  intro e
  have hdb : replay (savePlayerQueries minuteLater (plainPlayer 7) []) newPlayerDb = db' := by
    unfold replay
    rw [h, getD_some]
  rw [hdb] at hone htwo
  rw [e, hone] at htwo
  revert htwo
  decide

end Backlands.PlayerSave
