/-
  Backlands.Echo.Rewards — the first-kill rewards of Echo Wardens (src/echo_raid.cpp) beside the
  saves and logins of the players they go to (src/save_manager.cpp, src/iologindata.cpp).

  A reward is a claim row and a relative UPDATE of `charmpoints`, in one transaction, and an
  addition in memory for a player in the game. A save writes the charm points it captured when it
  was built: on the thread pool (`flushPlayerSave`), or at once when none is in flight. A login
  reads the row on the thread pool, after the flushes of the guid, and enters the world later, one
  at a time. A row whose `save` column is zero is never saved over.

  Ghost: `Charms.elsewhere`, what of the points is not for a Warden, until an addition is cut off at
  the bound.

  Proved: `warden_rewards_paid_once`. In every run in which no retry commits a claim for a player
  who is offline while a snapshot of him is still to be written, or a login of his has read the row,
  the points in memory, and those of the row once nothing of the guid is under way, are those from
  elsewhere and the reward of each claim row once. Else a reward is lost (`reward_lost`).
-/

import Backlands.Lib.Runs
import Backlands.Db.Transaction
import Mathlib.Data.Fin.VecNotation

namespace Backlands.Echo.Rewards

open Backlands.Lib Backlands.Db Function List

abbrev Guid := Nat

abbrev RaceId := Nat

abbrev MonsterId := Nat

def WARDEN_REWARD_RETRY_INITIAL_MS : Nat := 1000

def WARDEN_REWARD_RETRY_MAX_MS : Nat := 60000

/-- The largest charm points, `std::numeric_limits<uint32_t>::max()`. -/
def maxPoints : Nat := 4294967295

/-! ## Charm points -/

structure Charms where
  points : Nat := 0
  /-- Ghost: what of them is not for a Warden; none once an addition was cut off. -/
  elsewhere : Option Int := some 0

namespace Charms

/-- `LEAST(4294967295, charmpoints + n)`. -/
def least (n : Nat) (c : Charms) : Charms :=
  ⟨min maxPoints (c.points + n), if c.points + n ≤ maxPoints then c.elsewhere else none⟩

/-- `Player::addBestiaryCharmPoints`. -/
def addBestiaryCharmPoints (n : Nat) (c : Charms) : Charms :=
  if n > maxPoints - c.points then ⟨maxPoints, none⟩ else { c with points := c.points + n }

/-- `Player::setBestiaryCharmPoints`: a charm is bought, a charm is reset, a race is completed. -/
def setBestiaryCharmPoints (n : Nat) (c : Charms) : Charms :=
  ⟨n, c.elsewhere.map fun e => e + (n - c.points)⟩

end Charms

/-! ## The database, the saves and the manager -/

structure Database where
  player_echo_warden_rewards : List (Guid × RaceId) := []
  charmpoints : Guid → Charms := fun _ => {}

/-- What a snapshot writes of the charm points: nothing when `getSaveFlag` is false. -/
abbrev PlayerSaveSnapshot := Option Charms

structure Flush where
  save : PlayerSaveSnapshot
  /-- The thread pool has written it; `onPlayerFlushed` is still to come. -/
  written : Bool := false

structure PendingWardenReward where
  playerGuid : Guid
  raceId : RaceId
  charmPoints : Nat
  nextAttemptAt : Nat
  attempts : Nat := 0

structure World where
  db : Database := {}
  /-- The players in the game. -/
  players : Guid → Option Charms := fun _ => none
  /-- The logins that have read the row and not entered the world. -/
  loading : Guid → Option Charms := fun _ => none
  flushInFlight : Guid → Option Flush := fun _ => none
  pendingFlushes : Guid → Option PlayerSaveSnapshot := fun _ => none
  pendingWardenRewards : List PendingWardenReward := []
  /-- The Wardens with `markEchoWardenRewardsGranted`. -/
  granted : MonsterId → Bool := fun _ => false

/-- What the configuration and the tables say and no run changes. -/
structure Config where
  charmPointsByStars : Fin 6 → Nat
  /-- The stars of a race, for a race of the bestiary. -/
  getMonster : RaceId → Option Nat
  /-- The column `save` of a player. -/
  save : Guid → Bool

def Config.firstWardenCharmPoints (cfg : Config) (stars : Nat) : Nat :=
  cfg.charmPointsByStars ⟨min stars 5, by omega⟩

def Config.reward (cfg : Config) (raceId : RaceId) : Nat :=
  ((cfg.getMonster raceId).map cfg.firstWardenCharmPoints).getD 0

/-! ## A transaction -/

namespace Database

/-- `INSERT IGNORE INTO player_echo_warden_rewards`, with the rows it affects. -/
def insertIgnore (guid : Guid) (raceId : RaceId) (db : Database) : Nat × Database :=
  if (guid, raceId) ∈ db.player_echo_warden_rewards then (0, db)
  else (1, { db with player_echo_warden_rewards := db.player_echo_warden_rewards ++ [(guid, raceId)] })

/-- `UPDATE players SET charmpoints = LEAST(..)`. -/
def addPoints (guid : Guid) (charmPoints : Nat) (db : Database) : Nat × Database :=
  (1, { db with charmpoints := update db.charmpoints guid ((db.charmpoints guid).least charmPoints) })

/-- A recipient in the transaction, the `i`-th: whether the claim was inserted; none when a
    statement was refused. -/
def claim (query : Nat → Bool) (i : Nat) (guid : Guid) (raceId : RaceId) (charmPoints : Nat) (db : Database) :
    Option (Bool × Database) :=
  let r := Db.query (query (2 * i)) (insertIgnore guid raceId) db
  if !r.1 then none
  else if r.2.1 == 1 then
    let u := Db.query (query (2 * i + 1)) (addPoints guid charmPoints) r.2.2
    if u.1 then some (true, u.2.2) else none
  else some (false, r.2.2)

/-- The recipients from the `i`-th on. -/
def claims (query : Nat → Bool) (raceId : RaceId) (charmPoints : Nat) :
    Nat → List Guid → Database → Option (List Bool × Database)
  | _, [], db => some ([], db)
  | i, guid :: guids, db =>
    (claim query i guid raceId charmPoints db).bind fun c =>
      (claims query raceId charmPoints (i + 1) guids c.2).map fun r => (c.1 :: r.1, r.2)

/-- `persistWardenReward`: its answer, the database and `insertedClaim`. -/
def persistWardenReward (io : Nat → Attempt) (playerGuid : Guid) (raceId : RaceId) (charmPoints : Nat) (db : Database) :
    Bool × Database × Bool :=
  within io (fun k db _ =>
    match claim (io k).query 0 playerGuid raceId charmPoints db with
    | some (inserted, db') => (true, db', inserted)
    | none => (false, db, false)) TRANSACTION_MAX_ATTEMPTS db false

/-- The transaction of `grantWardenRewards`: its answer, the database and `insertedClaims`. -/
def persistWardenRewards (io : Nat → Attempt) (raceId : RaceId) (charmPoints : Nat) (recipients : List Guid) (db : Database) :
    Bool × Database × List Bool :=
  within io (fun k db insertedClaims =>
    match claims (io k).query raceId charmPoints 0 recipients db with
    | some (inserted, db') => (true, db', inserted)
    | none => (false, db, insertedClaims)) TRANSACTION_MAX_ATTEMPTS db []

end Database

/-! ## The calls -/

namespace World

variable (cfg : Config)

def addBestiaryCharmPoints (guid : Guid) (n : Nat) (w : World) : World :=
  { w with players := update w.players guid ((w.players guid).map (·.addBestiaryCharmPoints n)) }

/-- The additions after the commit. -/
def payInserted (n : Nat) (w : World) : List (Guid × Bool) → World
  | [] => w
  | (guid, inserted) :: rest => payInserted n (if inserted then w.addBestiaryCharmPoints guid n else w) rest

def eligibleRecipients (w : World) : List Guid → List Guid → List Guid
  | _, [] => []
  | rewardedPlayers, guid :: guids =>
    if (w.players guid).isNone || rewardedPlayers.contains guid then eligibleRecipients w rewardedPlayers guids
    else guid :: eligibleRecipients w (guid :: rewardedPlayers) guids

/-- `try_emplace` under the player and the race. -/
def queueWardenRewardRetry (playerGuid : Guid) (raceId : RaceId) (charmPoints now : Nat) (w : World) : World :=
  if w.pendingWardenRewards.any fun r => r.playerGuid = playerGuid ∧ r.raceId = raceId then w
  else { w with pendingWardenRewards := w.pendingWardenRewards ++
    [{ playerGuid, raceId, charmPoints, nextAttemptAt := now + WARDEN_REWARD_RETRY_INITIAL_MS }] }

def grantWardenRewards (monster : MonsterId) (raceId : RaceId) (recipients : List Guid) (now : Nat)
    (io : Nat → Attempt) (w : World) : World :=
  if recipients.isEmpty || w.granted monster then w
  else
    let w := { w with granted := update w.granted monster true }
    match if 0 < raceId ∧ raceId ≤ 65535 then cfg.getMonster raceId else none with
    | none => w
    | some stars =>
      let charmPoints := cfg.firstWardenCharmPoints stars
      let eligible := w.eligibleRecipients [] recipients
      if eligible.isEmpty then w
      else
        let r := w.db.persistWardenRewards io raceId charmPoints eligible
        let w := { w with db := r.2.1 }
        if r.1 then w.payInserted charmPoints (eligible.zip r.2.2)
        else eligible.foldl (fun w guid => w.queueWardenRewardRetry guid raceId charmPoints now) w

/-- The reward stays in the map. -/
def keepReward (r : PendingWardenReward) (w : World) : World :=
  { w with pendingWardenRewards := w.pendingWardenRewards ++ [r] }

def delayed (now : Nat) (r : PendingWardenReward) : PendingWardenReward :=
  let attempts := min (r.attempts + 1) 6
  { r with attempts, nextAttemptAt := now + min (WARDEN_REWARD_RETRY_INITIAL_MS <<< attempts) WARDEN_REWARD_RETRY_MAX_MS }

/-- One turn of the loop of `retryPendingWardenRewards`. -/
def retryReward (now : Nat) (io : Guid → RaceId → Nat → Attempt) (w : World) (reward : PendingWardenReward) : World :=
  if now < reward.nextAttemptAt then w.keepReward reward
  else
    let r := w.db.persistWardenReward (io reward.playerGuid reward.raceId) reward.playerGuid reward.raceId reward.charmPoints
    let w := { w with db := r.2.1 }
    if !r.1 then w.keepReward (delayed now reward)
    else if r.2.2 then w.addBestiaryCharmPoints reward.playerGuid reward.charmPoints
    else w

def retryPendingWardenRewards (now : Nat) (io : Guid → RaceId → Nat → Attempt) (w : World) : World :=
  w.pendingWardenRewards.foldl (retryReward now io) { w with pendingWardenRewards := [] }

/-- `loadPlayerById` of a login: nothing of the guid is in the game, loading or being flushed. -/
def loadPlayerById (guid : Guid) (w : World) : World :=
  if (w.players guid).isNone && (w.loading guid).isNone && (w.flushInFlight guid).isNone then
    { w with loading := update w.loading guid (some (w.db.charmpoints guid)) }
  else w

/-- `finishLogin`: the player is placed, or the login is given up. -/
def finishLogin (guid : Guid) (placed : Bool) (w : World) : World :=
  match w.loading guid with
  | none => w
  | some c => { w with
      loading := update w.loading guid none
      players := if placed then update w.players guid (some c) else w.players }

/-- `buildPlayerSave`. -/
def buildPlayerSave (guid : Guid) (c : Charms) : PlayerSaveSnapshot := if cfg.save guid then some c else none

/-- `IOLoginData::flushPlayerSave`. -/
def writeSave (guid : Guid) (save : PlayerSaveSnapshot) (w : World) : World :=
  { w with db := { w.db with
      charmpoints := update w.db.charmpoints guid (save.getD (w.db.charmpoints guid)) } }

/-- `schedulePlayerFlush`, of a player in the game. -/
def savePlayer (guid : Guid) (w : World) : World :=
  match w.players guid with
  | none => w
  | some c =>
    let save := buildPlayerSave cfg guid c
    if (w.flushInFlight guid).isSome then { w with pendingFlushes := update w.pendingFlushes guid (some save) }
    else { w with flushInFlight := update w.flushInFlight guid (some { save }) }

def savePlayerSync (guid : Guid) (w : World) : World :=
  match w.players guid with
  | none => w
  | some c =>
    let save := buildPlayerSave cfg guid c
    if (w.flushInFlight guid).isSome then { w with pendingFlushes := update w.pendingFlushes guid (some save) }
    else w.writeSave guid save

/-- `Player::onRemoveCreature`. -/
def logout (guid : Guid) (w : World) : World :=
  { w.savePlayerSync cfg guid with players := update w.players guid none }

/-- The task of the thread pool. -/
def flushPlayerSave (guid : Guid) (w : World) : World :=
  match w.flushInFlight guid with
  | some ⟨save, false⟩ =>
    { w.writeSave guid save with flushInFlight := update w.flushInFlight guid (some ⟨save, true⟩) }
  | _ => w

def onPlayerFlushed (guid : Guid) (w : World) : World :=
  match w.flushInFlight guid with
  | some ⟨_, true⟩ =>
    { w with
      flushInFlight := update w.flushInFlight guid ((w.pendingFlushes guid).map fun save => { save })
      pendingFlushes := update w.pendingFlushes guid none }
  | _ => w

def setBestiaryCharmPoints (guid : Guid) (n : Nat) (w : World) : World :=
  { w with players := update w.players guid ((w.players guid).map (·.setBestiaryCharmPoints n)) }

end World

inductive Event where
  | grantWardenRewards (monster : MonsterId) (raceId : RaceId) (recipients : List Guid) (now : Nat) (io : Nat → Attempt)
  | retryPendingWardenRewards (now : Nat) (io : Guid → RaceId → Nat → Attempt)
  | loadPlayerById (guid : Guid)
  | finishLogin (guid : Guid) (placed : Bool)
  | logout (guid : Guid)
  | savePlayer (guid : Guid)
  | savePlayerSync (guid : Guid)
  | flushPlayerSave (guid : Guid)
  | onPlayerFlushed (guid : Guid)
  | setBestiaryCharmPoints (guid : Guid) (n : Nat)

def step (cfg : Config) (w : World) : Event → World
  | .grantWardenRewards monster raceId recipients now io => w.grantWardenRewards cfg monster raceId recipients now io
  | .retryPendingWardenRewards now io => w.retryPendingWardenRewards now io
  | .loadPlayerById guid => w.loadPlayerById guid
  | .finishLogin guid placed => w.finishLogin guid placed
  | .logout guid => w.logout cfg guid
  | .savePlayer guid => w.savePlayer cfg guid
  | .savePlayerSync guid => w.savePlayerSync cfg guid
  | .flushPlayerSave guid => w.flushPlayerSave guid
  | .onPlayerFlushed guid => w.onPlayerFlushed guid
  | .setBestiaryCharmPoints guid n => w.setBestiaryCharmPoints guid n

/-! ## What is owed -/

def Database.owed (cfg : Config) (db : Database) (guid : Guid) : Nat :=
  ((db.player_echo_warden_rewards.filter (·.1 = guid)).map fun row => cfg.reward row.2).sum

/-- The points are those from elsewhere and the reward of each claim row, once. -/
def Database.Contains (cfg : Config) (db : Database) (guid : Guid) (c : Charms) : Prop :=
  ∀ e, c.elsewhere = some e → (c.points : Int) = e + db.owed cfg guid

structure PaidOnce (cfg : Config) (w : World) : Prop where
  rows : w.db.player_echo_warden_rewards.Nodup
  online : ∀ guid c, w.players guid = some c → w.db.Contains cfg guid c
  offline : ∀ guid, w.players guid = none → w.loading guid = none → w.flushInFlight guid = none →
    w.db.Contains cfg guid (w.db.charmpoints guid)

/-- The server is up: nobody is in the game and nothing is under way. -/
structure Start (cfg : Config) (w : World) : Prop where
  rows : w.db.player_echo_warden_rewards.Nodup
  stored : ∀ guid, w.db.Contains cfg guid (w.db.charmpoints guid)
  players : ∀ guid, w.players guid = none
  loading : ∀ guid, w.loading guid = none
  flushInFlight : ∀ guid, w.flushInFlight guid = none
  pendingFlushes : ∀ guid, w.pendingFlushes guid = none
  pendingWardenRewards : w.pendingWardenRewards = []

/-- The points that the newest snapshot not yet written is going to write. -/
def World.unwritten (w : World) (guid : Guid) : Option Charms :=
  match w.pendingFlushes guid with
  | some save => save
  | none => (w.flushInFlight guid).bind fun f => if f.written then none else f.save

/-- A row may be changed behind the player's back: no login has read it, no snapshot is going
    to write over it; or the player is in the game, and gets the same in memory. -/
def World.Settled (w : World) (guid : Guid) : Prop :=
  (w.players guid).isSome ∨ (w.loading guid = none ∧ w.unwritten guid = none)

/-- No retry commits a claim that is not in the table for a player who is not settled, and
    every commit does what it answers. -/
def Timely (w : World) : Event → Prop
  | .grantWardenRewards _ _ _ _ io => Undone io
  | .retryPendingWardenRewards now io => (∀ guid raceId, Undone (io guid raceId)) ∧
      ∀ r ∈ w.pendingWardenRewards, r.nextAttemptAt ≤ now →
        (r.playerGuid, r.raceId) ∉ w.db.player_echo_warden_rewards →
        answer (io r.playerGuid r.raceId) 2 TRANSACTION_MAX_ATTEMPTS = true → w.Settled r.playerGuid
  | _ => True

/-! ## The transactions -/

namespace Database

variable {cfg : Config} {db : Database}

/-- What a claim that is inserted leaves. -/
def pay (guid : Guid) (raceId : RaceId) (n : Nat) (db : Database) : Database :=
  { player_echo_warden_rewards := db.player_echo_warden_rewards ++ [(guid, raceId)]
    charmpoints := update db.charmpoints guid ((db.charmpoints guid).least n) }

variable {guid : Guid} {raceId : RaceId} {c : Charms}

theorem claim_cases {query : Nat → Bool} {i : Nat} {n : Nat} {inserted : Bool} {db' : Database}
    (h : claim query i guid raceId n db = some (inserted, db')) :
    ((guid, raceId) ∈ db.player_echo_warden_rewards ∧ inserted = false ∧ db' = db) ∨
    ((guid, raceId) ∉ db.player_echo_warden_rewards ∧ inserted = true ∧ db' = db.pay guid raceId n ∧
      query (2 * i) = true ∧ query (2 * i + 1) = true) := by
  by_cases hq : query (2 * i) = true
  · by_cases hm : (guid, raceId) ∈ db.player_echo_warden_rewards
    · left
      simp only [claim, Db.query, hq, insertIgnore, hm, if_true] at h
      obtain ⟨rfl, rfl⟩ : false = inserted ∧ db = db' := by simpa using h
      exact ⟨hm, rfl, rfl⟩
    · right
      by_cases hu : query (2 * i + 1) = true
      · simp only [claim, Db.query, hq, hu, insertIgnore, addPoints, hm, if_true, if_false] at h
        obtain ⟨rfl, rfl⟩ : true = inserted ∧ db.pay guid raceId n = db' := by simpa [pay] using h
        exact ⟨hm, rfl, rfl, hq, hu⟩
      · simp [claim, Db.query, hq, hu, insertIgnore, hm] at h
  · simp [claim, Db.query, hq] at h

theorem owed_pay (guid : Guid) (raceId : RaceId) (n : Nat) (g : Guid) :
    (db.pay guid raceId n).owed cfg g = db.owed cfg g + if guid = g then cfg.reward raceId else 0 := by
  simp only [owed, pay, filter_append, map_append, sum_append]
  by_cases h : guid = g
  · simp [h]
  · simp [h]

/-- A payment changes what is owed to the player alone. -/
theorem Contains.pay_ne {g : Guid} (h : db.Contains cfg g c) (raceId : RaceId) (n : Nat) (hne : guid ≠ g) :
    (db.pay guid raceId n).Contains cfg g c := by
  intro e he
  rw [owed_pay, if_neg hne, Nat.add_zero]
  exact h e he

theorem Contains.least (h : db.Contains cfg guid c) :
    (db.pay guid raceId (cfg.reward raceId)).Contains cfg guid (c.least (cfg.reward raceId)) := by
  intro e he
  rw [owed_pay, if_pos rfl]
  simp only [Charms.least] at he ⊢
  split at he
  · next hle =>
    have := h e he
    omega
  · cases he

theorem Contains.add (h : db.Contains cfg guid c) :
    (db.pay guid raceId (cfg.reward raceId)).Contains cfg guid (c.addBestiaryCharmPoints (cfg.reward raceId)) := by
  intro e he
  rw [owed_pay, if_pos rfl]
  simp only [Charms.addBestiaryCharmPoints] at he ⊢
  split at he
  · cases he
  next hle =>
  have := h e he
  rw [if_neg hle]
  show ((c.points + cfg.reward raceId : Nat) : Int) = _
  omega

theorem Contains.set {n : Nat} (h : db.Contains cfg guid c) : db.Contains cfg guid (c.setBestiaryCharmPoints n) := by
  intro e he
  obtain ⟨e', he', rfl⟩ := Option.map_eq_some_iff.mp he
  have := h e' he'
  show (n : Int) = _
  omega

end Database

/-! ## One reward, in the database and in memory -/

namespace World

variable {cfg : Config} {w : World}

/-- The claim row, the points of the row and those in memory. -/
def award (guid : Guid) (raceId : RaceId) (n : Nat) (w : World) : World :=
  if (guid, raceId) ∈ w.db.player_echo_warden_rewards then w
  else { w.addBestiaryCharmPoints guid n with db := w.db.pay guid raceId n }

variable {io : Nat → Attempt}

/-- The transaction for all recipients and the additions after it come to one reward after the other. -/
theorem claims_award {query : Nat → Bool} {raceId : RaceId} {n : Nat} (guids : List Guid) :
    ∀ (i : Nat) (w : World) {inserted : List Bool} {db' : Database},
      Database.claims query raceId n i guids w.db = some (inserted, db') →
      ({ w with db := db' } : World).payInserted n (guids.zip inserted) =
        guids.foldl (fun w guid => w.award guid raceId n) w := by
  induction guids with
  | nil =>
    intro i w inserted db' h
    obtain ⟨rfl, rfl⟩ : [] = inserted ∧ w.db = db' := by simpa [Database.claims] using h
    rfl
  | cons guid guids ih =>
    intro i w inserted db' h
    obtain ⟨⟨first, db1⟩, hfirst, h⟩ := Option.bind_eq_some_iff.mp h
    obtain ⟨⟨rest, db2⟩, hrest, h⟩ := Option.map_eq_some_iff.mp h
    obtain ⟨rfl, rfl⟩ : first :: rest = inserted ∧ db2 = db' := by simpa using h
    rw [foldl_cons]
    rcases Database.claim_cases hfirst with ⟨hm, rfl, rfl⟩ | ⟨hm, rfl, rfl, -⟩
    · rw [award, if_pos hm]
      exact ih (i + 1) w hrest
    · rw [award, if_neg hm]
      exact ih (i + 1) { w.addBestiaryCharmPoints guid n with db := w.db.pay guid raceId n } hrest

/-- A transaction for one player that went through, and the addition after it. -/
theorem persist_award (hu : Undone io) (guid : Guid) (raceId : RaceId) (n : Nat) :
    ((w.db.persistWardenReward io guid raceId n).1 = false ∧ (w.db.persistWardenReward io guid raceId n).2.1 = w.db) ∨
    ((w.db.persistWardenReward io guid raceId n).1 = true ∧
      (if (w.db.persistWardenReward io guid raceId n).2.2
        then ({ w with db := (w.db.persistWardenReward io guid raceId n).2.1 } : World).addBestiaryCharmPoints guid n
        else { w with db := (w.db.persistWardenReward io guid raceId n).2.1 }) = w.award guid raceId n) := by
  unfold Database.persistWardenReward
  rcases within_cases (fun k db (_ : Bool) =>
      match Database.claim (io k).query 0 guid raceId n db with
      | some (inserted, db') => (true, db', inserted)
      | none => (false, db, false)) hu TRANSACTION_MAX_ATTEMPTS w.db false with ⟨j, y, -, hok, heq⟩ | hfailed
  · right
    rw [heq]
    cases hc : Database.claim (io j).query 0 guid raceId n w.db with
    | none => simp [hc] at hok
    | some c =>
      obtain ⟨inserted, db'⟩ := c
      refine ⟨rfl, ?_⟩
      rcases Database.claim_cases hc with ⟨hm, rfl, rfl⟩ | ⟨hm, rfl, rfl, -⟩
      · rw [award, if_pos hm]
        rfl
      · rw [award, if_neg hm]
        rfl
  · exact .inl hfailed

/-- The transaction of a grant and the additions after it: all of it, or nothing. -/
theorem persist_awards (hu : Undone io) (raceId : RaceId) (n : Nat) (guids : List Guid) :
    ((w.db.persistWardenRewards io raceId n guids).1 = false ∧ (w.db.persistWardenRewards io raceId n guids).2.1 = w.db) ∨
    ((w.db.persistWardenRewards io raceId n guids).1 = true ∧
      ({ w with db := (w.db.persistWardenRewards io raceId n guids).2.1 } : World).payInserted n
          (guids.zip (w.db.persistWardenRewards io raceId n guids).2.2) =
        guids.foldl (fun w guid => w.award guid raceId n) w) := by
  unfold Database.persistWardenRewards
  rcases within_cases (fun k db (insertedClaims : List Bool) =>
      match Database.claims (io k).query raceId n 0 guids db with
      | some (inserted, db') => (true, db', inserted)
      | none => (false, db, insertedClaims)) hu TRANSACTION_MAX_ATTEMPTS w.db [] with ⟨j, y, -, hok, heq⟩ | hfailed
  · right
    rw [heq]
    cases hc : Database.claims (io j).query raceId n 0 guids w.db with
    | none => simp [hc] at hok
    | some c => exact ⟨rfl, claims_award guids 0 w hc⟩
  · exact .inl hfailed

theorem answer_of_persist (hu : Undone io) {guid : Guid} {raceId : RaceId} {n : Nat} {db : Database}
    (hm : (guid, raceId) ∉ db.player_echo_warden_rewards) (k : Nat) (x : Bool) (h : (within io (fun k db (_ : Bool) =>
      match Database.claim (io k).query 0 guid raceId n db with
      | some (inserted, db') => (true, db', inserted)
      | none => (false, db, false)) k db x).1 = true) : answer io 2 k = true := by
  induction k generalizing x with
  | zero => cases h
  | succ k ih =>
    simp only [within] at h
    simp only [answer]
    by_cases hb : (io k).begin = true
    · rw [if_pos hb] at h
      rw [hb, Bool.true_and]
      cases hc : Database.claim (io k).query 0 guid raceId n db with
      | none =>
        simp only [hc, Bool.false_and, Bool.false_eq_true, if_false] at h
        cases hr : (io k).deadlock && k != 0 with
        | false => simp [hr] at h
        | true =>
          rw [hr, if_pos rfl] at h
          rw [Bool.true_and, ih _ h, Bool.or_true]
      | some c =>
        have hanswered : (io k).queries 2 = true := by
          rcases Database.claim_cases (hc : _ = some (c.1, c.2)) with ⟨hm', -⟩ | ⟨-, -, -, h0, h1⟩
          · exact absurd hm' hm
          · show [0, 1].all (io k).query = true
            simpa using ⟨h0, h1⟩
        simp only [hc, Bool.true_and] at h
        rw [Outcome.applied_eq_ok (hu k)] at h
        cases ho : (io k).commit.ok with
        | true => simp [Attempt.ok, hb, hanswered, ho]
        | false =>
          simp only [ho, Bool.false_eq_true, if_false] at h
          cases hr : (io k).deadlock && k != 0 with
          | false => simp [hr] at h
          | true =>
            rw [hr, if_pos rfl] at h
            rw [Bool.true_and, ih _ h, Bool.or_true]
    · rw [if_neg hb] at h
      cases h

end World

/-! ## The invariant -/

structure Good (cfg : Config) (w : World) (guid : Guid) : Prop where
  online : ∀ c, w.players guid = some c → w.db.Contains cfg guid c
  loaded : ∀ c, w.loading guid = some c → w.players guid = none ∧ w.flushInFlight guid = none ∧ w.db.Contains cfg guid c
  /-- What the row is going to be is right, whatever older snapshot is written before. -/
  offline : w.players guid = none → w.db.Contains cfg guid ((w.unwritten guid).getD (w.db.charmpoints guid))
  unsaved : cfg.save guid = false → w.db.Contains cfg guid (w.db.charmpoints guid)
  flush : ∀ f, w.flushInFlight guid = some f → f.save.isSome = cfg.save guid
  pending : ∀ save, w.pendingFlushes guid = some save → save.isSome = cfg.save guid ∧ (w.flushInFlight guid).isSome

structure Inv (cfg : Config) (w : World) : Prop where
  rows : w.db.player_echo_warden_rewards.Nodup
  due : ∀ r ∈ w.pendingWardenRewards, r.charmPoints = cfg.reward r.raceId
  good : ∀ guid, Good cfg w guid

section
variable {cfg : Config} {w : World}

variable {guid : Guid}

theorem Inv.start (h : Start cfg w) : Inv cfg w := by
  refine ⟨h.rows, by simp [h.pendingWardenRewards], fun guid => ?_⟩
  exact {
    online := by simp [h.players]
    loaded := by simp [h.loading]
    offline := by
      intro _
      simpa [World.unwritten, h.pendingFlushes, h.flushInFlight] using h.stored guid
    unsaved := fun _ => h.stored guid
    flush := by simp [h.flushInFlight]
    pending := by simp [h.pendingFlushes] }

theorem Good.not_pending (h : Good cfg w guid) (hf : w.flushInFlight guid = none) : w.pendingFlushes guid = none := by
  cases hs : w.pendingFlushes guid with
  | none => rfl
  | some save => simpa [hf] using (h.pending save hs).2

theorem Good.not_unwritten (h : Good cfg w guid) (hf : w.flushInFlight guid = none) : w.unwritten guid = none := by
  simp [World.unwritten, h.not_pending hf, hf]

theorem Inv.paidOnce (h : Inv cfg w) : PaidOnce cfg w where
  rows := h.rows
  online guid := (h.good guid).online
  offline := by
    intro guid hp _ hf
    have hoff := (h.good guid).offline hp
    rwa [(h.good guid).not_unwritten hf] at hoff

/-! ## A reward is paid -/

variable {raceId : RaceId} {now : Nat}

theorem award_players (guid : Guid) (raceId : RaceId) (n : Nat) (g : Guid) :
    ((w.award guid raceId n).players g).isSome = (w.players g).isSome := by
  unfold World.award
  split
  · rfl
  · by_cases hg : g = guid <;> simp [hg, World.addBestiaryCharmPoints]

theorem Inv.award (h : Inv cfg w) (hs : (guid, raceId) ∉ w.db.player_echo_warden_rewards → w.Settled guid) :
    Inv cfg (w.award guid raceId (cfg.reward raceId)) := by
  unfold World.award
  split
  · exact h
  next hm =>
  refine ⟨?_, h.due, fun g => ?_⟩
  · show (w.db.player_echo_warden_rewards ++ [(guid, raceId)]).Nodup
    rw [nodup_append]
    refine ⟨h.rows, nodup_cons.mpr ⟨not_mem_nil, nodup_nil⟩, ?_⟩
    rintro a ha b hb rfl
    rw [mem_singleton.mp hb] at ha
    exact hm ha
  · have hg := h.good g
    by_cases hne : guid = g
    · subst hne
      refine ⟨?_, ?_, ?_, ?_, hg.flush, hg.pending⟩
      · intro c hc
        simp only [World.addBestiaryCharmPoints, update_self] at hc
        obtain ⟨c', hc', rfl⟩ := Option.map_eq_some_iff.mp hc
        exact (hg.online c' hc').add
      · intro c hc
        -- no login of a settled player has read the row
        rcases hs hm with hp | ⟨hn, -⟩
        · simp [(hg.loaded c hc).1] at hp
        · exact absurd (hc.symm.trans hn) (by simp)
      · intro hp
        show (w.db.pay guid raceId (cfg.reward raceId)).Contains cfg guid
          ((w.unwritten guid).getD ((w.db.pay guid raceId (cfg.reward raceId)).charmpoints guid))
        have hp' : w.players guid = none := by simpa [World.addBestiaryCharmPoints] using hp
        rcases hs hm with hon | ⟨-, hn⟩
        · simp [hp'] at hon
        · have hoff := hg.offline hp'
          rw [hn, Option.getD_none] at hoff ⊢
          simpa [Database.pay] using hoff.least
      · intro hsave
        simpa [Database.pay] using (hg.unsaved hsave).least
    · refine ⟨?_, ?_, ?_, ?_, hg.flush, hg.pending⟩
      · intro c hc
        simp only [World.addBestiaryCharmPoints, update_of_ne (Ne.symm hne)] at hc
        exact (hg.online c hc).pay_ne _ _ hne
      · intro c hc
        have hl := hg.loaded c hc
        refine ⟨?_, hl.2.1, hl.2.2.pay_ne _ _ hne⟩
        simp [World.addBestiaryCharmPoints, update_of_ne (Ne.symm hne), hl.1]
      · intro hp
        simp only [World.addBestiaryCharmPoints, update_of_ne (Ne.symm hne)] at hp
        show (w.db.pay guid raceId (cfg.reward raceId)).Contains cfg g
          ((w.unwritten g).getD ((w.db.pay guid raceId (cfg.reward raceId)).charmpoints g))
        have hoff := (hg.offline hp).pay_ne raceId (cfg.reward raceId) hne
        simpa [Database.pay, update_of_ne (Ne.symm hne)] using hoff
      · intro hsave
        simpa [Database.pay, update_of_ne (Ne.symm hne)] using
          (hg.unsaved hsave).pay_ne raceId (cfg.reward raceId) hne

theorem Inv.keep {rewards : List PendingWardenReward} (h : Inv cfg w) (granted : MonsterId → Bool)
    (hd : ∀ r ∈ rewards, r.charmPoints = cfg.reward r.raceId) :
    Inv cfg { w with pendingWardenRewards := rewards, granted } :=
  ⟨h.rows, hd, fun guid => have hg := h.good guid; { hg with }⟩

theorem Inv.keepReward {r : PendingWardenReward} (h : Inv cfg w) (hr : r.charmPoints = cfg.reward r.raceId) :
    Inv cfg (w.keepReward r) := by
  refine h.keep w.granted ?_
  intro r' hr'
  rcases mem_append.mp hr' with hr' | hr'
  · exact h.due r' hr'
  · rw [mem_singleton.mp hr']
    exact hr

theorem Inv.queue (h : Inv cfg w) : Inv cfg (w.queueWardenRewardRetry guid raceId (cfg.reward raceId) now) := by
  unfold World.queueWardenRewardRetry
  split
  · exact h
  · exact h.keepReward (r := ⟨guid, raceId, _, _, _⟩) rfl

/-! ## The grant -/

variable {guids : List Guid}

theorem eligible_online {rewarded : List Guid} :
    ∀ guid ∈ w.eligibleRecipients rewarded guids, (w.players guid).isSome := by
  induction guids generalizing rewarded with
  | nil => simp [World.eligibleRecipients]
  | cons g guids ih =>
    intro guid hm
    simp only [World.eligibleRecipients] at hm
    split at hm
    · exact ih guid hm
    next hc =>
    rcases mem_cons.mp hm with rfl | hm
    · simp only [Bool.or_eq_true, not_or] at hc
      simpa [Option.isSome_iff_ne_none] using hc.1
    · exact ih guid hm

theorem Inv.awards (h : Inv cfg w) (hon : ∀ guid ∈ guids, (w.players guid).isSome) :
    Inv cfg (guids.foldl (fun w guid => w.award guid raceId (cfg.reward raceId)) w) := by
  induction guids generalizing w with
  | nil => exact h
  | cons g guids ih =>
    apply ih
    · exact h.award fun _ => .inl (hon g mem_cons_self)
    · intro guid hm
      rw [award_players]
      exact hon guid (mem_cons_of_mem _ hm)

theorem Inv.queues (h : Inv cfg w) :
    Inv cfg (guids.foldl (fun w guid => w.queueWardenRewardRetry guid raceId (cfg.reward raceId) now) w) := by
  induction guids generalizing w with
  | nil => exact h
  | cons g guids ih => exact ih h.queue

theorem Inv.grant {monster : MonsterId} {recipients : List Guid} {io : Nat → Attempt} (h : Inv cfg w) (hu : Undone io) :
    Inv cfg (w.grantWardenRewards cfg monster raceId recipients now io) := by
  unfold World.grantWardenRewards
  split
  · exact h
  have hmark : Inv cfg { w with granted := update w.granted monster true } := h.keep _ h.due
  split
  · exact hmark
  next stars hstars =>
  have hreward : cfg.firstWardenCharmPoints stars = cfg.reward raceId := by
    grind [Config.reward]
  simp only [hreward]
  split
  · exact hmark
  rcases World.persist_awards (w := { w with granted := update w.granted monster true }) hu raceId
    (cfg.reward raceId)
    (({ w with granted := update w.granted monster true } : World).eligibleRecipients [] recipients) with
    ⟨hfailed, hdb⟩ | ⟨hok, hpaid⟩
  · rw [hfailed, hdb, if_neg Bool.false_ne_true]
    exact hmark.queues
  · rw [hok, if_pos rfl, hpaid]
    exact hmark.awards eligible_online

/-! ## The retries -/

variable {io : Guid → RaceId → Nat → Attempt}

theorem retry_cases (now : Nat) {r : PendingWardenReward} (hu : Undone (io r.playerGuid r.raceId)) :
    (∃ r', w.retryReward now io r = w.keepReward r' ∧ r'.charmPoints = r.charmPoints ∧ r'.raceId = r.raceId) ∨
    (r.nextAttemptAt ≤ now ∧ w.retryReward now io r = w.award r.playerGuid r.raceId r.charmPoints ∧
      ((r.playerGuid, r.raceId) ∉ w.db.player_echo_warden_rewards →
        answer (io r.playerGuid r.raceId) 2 TRANSACTION_MAX_ATTEMPTS = true)) := by
  unfold World.retryReward
  split
  · exact .inl ⟨r, rfl, rfl, rfl⟩
  next hdue =>
  rcases World.persist_award (w := w) hu r.playerGuid r.raceId r.charmPoints with
    ⟨hfailed, hdb⟩ | ⟨hok, hpaid⟩
  · refine .inl ⟨World.delayed now r, ?_, rfl, rfl⟩
    simp only [hfailed, hdb]
    rfl
  · refine .inr ⟨Nat.not_lt.mp hdue, ?_, ?_⟩
    · simp only [hok, Bool.not_true, Bool.false_eq_true, if_false]
      exact hpaid
    · intro hm
      exact World.answer_of_persist hu hm _ _ hok

/-- What a reward that is paid leaves of the world: who is in the game, what is loading or to be
    written; claim rows are only added. -/
structure Beside (w w' : World) : Prop where
  players : ∀ guid, (w.players guid).isSome = (w'.players guid).isSome
  loading : w.loading = w'.loading
  unwritten : ∀ guid, w.unwritten guid = w'.unwritten guid
  rows : ∀ row ∈ w.db.player_echo_warden_rewards, row ∈ w'.db.player_echo_warden_rewards

theorem Beside.settled {w w' : World} (h : Beside w w') (hs : w.Settled guid) : w'.Settled guid := by
  unfold World.Settled at hs ⊢
  rw [← h.players, ← h.loading, ← h.unwritten]
  exact hs

theorem Beside.award {w w' : World} (h : Beside w w') (guid : Guid) (raceId : RaceId) (n : Nat) :
    Beside w (w'.award guid raceId n) := by
  refine ⟨?_, ?_, ?_, ?_⟩
  · intro g
    rw [award_players, h.players]
  all_goals
    unfold World.award
    split
  · exact h.loading
  · exact h.loading
  · exact h.unwritten
  · exact h.unwritten
  · exact h.rows
  · intro row hrow
    exact mem_append_left _ (h.rows row hrow)

theorem Inv.retryRewards (hu : ∀ guid raceId, Undone (io guid raceId)) {u : World}
    (rewards : List PendingWardenReward) (hd : ∀ r ∈ rewards, r.charmPoints = cfg.reward r.raceId)
    (hs : ∀ r ∈ rewards, r.nextAttemptAt ≤ now → (r.playerGuid, r.raceId) ∉ u.db.player_echo_warden_rewards →
      answer (io r.playerGuid r.raceId) 2 TRANSACTION_MAX_ATTEMPTS = true → u.Settled r.playerGuid) :
    ∀ {w : World}, Inv cfg w → Beside u w → Inv cfg (rewards.foldl (World.retryReward now io) w) := by
  induction rewards with
  | nil => exact fun h _ => h
  | cons r rewards ih =>
    intro w h hb
    have hr := mem_cons_self (a := r) (l := rewards)
    have hrest : ∀ r' ∈ rewards, r' ∈ r :: rewards := fun r' hr' => mem_cons_of_mem _ hr'
    rw [foldl_cons]
    rcases retry_cases (w := w) now (hu r.playerGuid r.raceId) with ⟨r', heq, hpoints, hrace⟩ | ⟨hdue, heq, hanswer⟩
    · rw [heq]
      refine ih (fun r' hr' => hd r' (hrest r' hr')) (fun r' hr' => hs r' (hrest r' hr')) ?_ ?_
      · exact h.keepReward (by rw [hpoints, hrace, hd r hr])
      · exact { hb with }
    · rw [heq, hd r hr]
      refine ih (fun r' hr' => hd r' (hrest r' hr')) (fun r' hr' => hs r' (hrest r' hr')) ?_ (hb.award _ _ _)
      apply h.award
      intro hm
      exact hb.settled (hs r hr hdue (fun hrow => hm (hb.rows _ hrow)) (hanswer hm))

theorem Inv.retry (h : Inv cfg w) (ht : Timely w (.retryPendingWardenRewards now io)) :
    Inv cfg (w.retryPendingWardenRewards now io) := by
  refine Inv.retryRewards (u := w) ht.1 _ h.due ht.2 (h.keep w.granted ?_) ?_
  · simp
  · exact ⟨fun _ => rfl, rfl, fun _ => rfl, fun _ hrow => hrow⟩

/-! ## Saves and logins -/

variable {c : Charms}

theorem Inv.alone {w' : World} (h : Inv cfg w) (guid : Guid)
    (hrows : w'.db.player_echo_warden_rewards = w.db.player_echo_warden_rewards)
    (hrewards : w'.pendingWardenRewards = w.pendingWardenRewards)
    (hother : ∀ g ≠ guid, w'.players g = w.players g ∧ w'.loading g = w.loading g ∧ w'.flushInFlight g = w.flushInFlight g ∧
      w'.pendingFlushes g = w.pendingFlushes g ∧ w'.db.charmpoints g = w.db.charmpoints g)
    (hself : Good cfg w' guid) : Inv cfg w' := by
  refine ⟨by rw [hrows]; exact h.rows, by rw [hrewards]; exact h.due, fun g => ?_⟩
  by_cases hg : g = guid
  · rw [hg]
    exact hself
  obtain ⟨hplayers, hloading, hflush, hpending, hstored⟩ := hother g hg
  have hgood := h.good g
  have hunwritten : w'.unwritten g = w.unwritten g := by simp only [World.unwritten, hflush, hpending]
  have hcontains : ∀ c, w'.db.Contains cfg g c ↔ w.db.Contains cfg g c := by
    simp [Database.Contains, Database.owed, hrows]
  refine ⟨?_, ?_, ?_, ?_, ?_, ?_⟩
  · simpa only [hplayers, hcontains] using hgood.online
  · simpa only [hplayers, hloading, hflush, hcontains] using hgood.loaded
  · simpa only [hplayers, hunwritten, hstored, hcontains] using hgood.offline
  · simpa only [hstored, hcontains] using hgood.unsaved
  · simpa only [hflush] using hgood.flush
  · simpa only [hflush, hpending] using hgood.pending

theorem Inv.load (h : Inv cfg w) : Inv cfg (w.loadPlayerById guid) := by
  unfold World.loadPlayerById
  split
  · next hfree =>
    simp only [Bool.and_eq_true, Option.isNone_iff_eq_none] at hfree
    obtain ⟨⟨hp, -⟩, hf⟩ := hfree
    have hg := h.good guid
    refine h.alone guid rfl rfl ?_ { hg with loaded := ?_ }
    · intro g hne
      exact ⟨rfl, update_of_ne hne _ _, rfl, rfl, rfl⟩
    intro c hc
    have hoff := hg.offline hp
    rw [hg.not_unwritten hf, Option.getD_none] at hoff
    obtain rfl : w.db.charmpoints guid = c := by simpa using hc
    exact ⟨hp, hf, hoff⟩
  · exact h

theorem Inv.finish {guid : Guid} {placed : Bool} (h : Inv cfg w) : Inv cfg (w.finishLogin guid placed) := by
  unfold World.finishLogin
  split
  · exact h
  next c hc =>
  have hg := h.good guid
  obtain ⟨hp, hf, hin⟩ := hg.loaded c hc
  refine h.alone guid rfl rfl ?_ ⟨?_, ?_, ?_, hg.unsaved, hg.flush, hg.pending⟩
  · grind
  · grind
  · simp
  · intro _
    exact hg.offline hp

theorem Good.save {w' : World} (h : Good cfg w guid) (hc : w.players guid = some c)
    (hrows : w'.db.player_echo_warden_rewards = w.db.player_echo_warden_rewards)
    (hplayers : w'.players guid = w.players guid ∨ w'.players guid = none)
    (hloading : w'.loading guid = w.loading guid) (hrow : (w'.unwritten guid).getD (w'.db.charmpoints guid) =
      (World.buildPlayerSave cfg guid c).getD (w.db.charmpoints guid))
    (hstored : cfg.save guid = false → w'.db.charmpoints guid = w.db.charmpoints guid)
    (hflush : ∀ f, w'.flushInFlight guid = some f → f.save.isSome = cfg.save guid)
    (hpending : ∀ save, w'.pendingFlushes guid = some save → save.isSome = cfg.save guid ∧ (w'.flushInFlight guid).isSome) :
    Good cfg w' guid := by
  have hcontains : ∀ c, w'.db.Contains cfg guid c ↔ w.db.Contains cfg guid c := by
    simp [Database.Contains, Database.owed, hrows]
  refine ⟨?_, ?_, ?_, ?_, hflush, hpending⟩
  · intro c' hc'
    rcases hplayers with hp | hp
    · exact (hcontains c').mpr (h.online c' (hp ▸ hc'))
    · simp [hp] at hc'
  · intro c' hc'
    -- a player in the game is not loading
    have := (h.loaded c' (hloading ▸ hc')).1
    simp [hc] at this
  · intro _
    rw [hrow, hcontains]
    unfold World.buildPlayerSave
    split
    · exact h.online c hc
    · next hs => exact h.unsaved (Bool.eq_false_iff.mpr hs)
  · intro hs
    rw [hstored hs, hcontains]
    exact h.unsaved hs


theorem buildPlayerSave_isSome (guid : Guid) (c : Charms) : (World.buildPlayerSave cfg guid c).isSome = cfg.save guid := by
  unfold World.buildPlayerSave
  split
  · next h => exact h.symm
  · next h => exact (Bool.eq_false_iff.mpr h).symm

theorem buildPlayerSave_unsaved (c : Charms) (h : cfg.save guid = false) :
    World.buildPlayerSave cfg guid c = none := by
  simp [World.buildPlayerSave, h]

theorem Inv.wait {players : Guid → Option Charms} (h : Inv cfg w) (hc : w.players guid = some c)
    (hf : (w.flushInFlight guid).isSome = true)
    (hp : players = w.players ∨ players = update w.players guid none) :
    Inv cfg { w with
      players
      pendingFlushes := update w.pendingFlushes guid (some (World.buildPlayerSave cfg guid c)) } := by
  refine h.alone guid rfl rfl ?_ ((h.good guid).save hc rfl ?_ rfl ?_ (fun _ => rfl) (h.good guid).flush ?_)
  · intro g hne
    refine ⟨?_, rfl, rfl, update_of_ne hne _ _, rfl⟩
    rcases hp with rfl | rfl
    · rfl
    · exact update_of_ne hne _ _
  · rcases hp with rfl | rfl <;> simp
  · simp [World.unwritten]
  · intro save hs
    obtain rfl : World.buildPlayerSave cfg guid c = save := by simpa using hs
    exact ⟨buildPlayerSave_isSome guid c, hf⟩

theorem Inv.savePlayer (h : Inv cfg w) : Inv cfg (w.savePlayer cfg guid) := by
  unfold World.savePlayer
  split
  · exact h
  next c hc =>
  split
  · next hf => exact h.wait hc hf (.inl rfl)
  next hf =>
  have hg := h.good guid
  have hpending := hg.not_pending (Option.not_isSome_iff_eq_none.mp hf)
  refine h.alone guid rfl rfl ?_ (hg.save hc rfl (.inl rfl) rfl ?_ (fun _ => rfl) ?_ ?_)
  · intro g hne
    exact ⟨rfl, rfl, update_of_ne hne _ _, rfl, rfl⟩
  · simp [World.unwritten, hpending]
  · intro f hf'
    obtain rfl : ({ save := World.buildPlayerSave cfg guid c } : Flush) = f := by simpa using hf'
    exact buildPlayerSave_isSome guid c
  · simp [hpending]

theorem Inv.written {players : Guid → Option Charms} (h : Inv cfg w) (hc : w.players guid = some c)
    (hf : ¬(w.flushInFlight guid).isSome = true)
    (hp : players = w.players ∨ players = update w.players guid none) :
    Inv cfg { w.writeSave guid (World.buildPlayerSave cfg guid c) with players } := by
  have hg := h.good guid
  have hnone := Option.not_isSome_iff_eq_none.mp hf
  refine h.alone guid rfl rfl ?_ (hg.save hc rfl ?_ rfl ?_ ?_ hg.flush hg.pending)
  · intro g hne
    refine ⟨?_, rfl, rfl, rfl, update_of_ne hne _ _⟩
    rcases hp with rfl | rfl
    · rfl
    · exact update_of_ne hne _ _
  · rcases hp with rfl | rfl <;> simp
  · show (w.unwritten guid).getD _ = _
    rw [hg.not_unwritten hnone]
    simp [World.writeSave]
  · intro hs
    rw [buildPlayerSave_unsaved c hs]
    simp [World.writeSave]

theorem Inv.savePlayerSync (h : Inv cfg w) : Inv cfg (w.savePlayerSync cfg guid) := by
  unfold World.savePlayerSync
  split
  · exact h
  next c hc =>
  split
  · next hf => exact h.wait hc hf (.inl rfl)
  · next hf => exact h.written hc hf (.inl rfl)

theorem Inv.logout (h : Inv cfg w) : Inv cfg (w.logout cfg guid) := by
  unfold World.logout World.savePlayerSync
  split
  · next hc =>
    rwa [← hc, update_eq_self]
  next c hc =>
  split
  · next hf => exact h.wait hc hf (.inr rfl)
  · next hf => exact h.written hc hf (.inr rfl)

theorem Inv.flushed (h : Inv cfg w) : Inv cfg (w.flushPlayerSave guid) := by
  unfold World.flushPlayerSave
  split
  · next save hf =>
    have hg := h.good guid
    refine h.alone guid rfl rfl ?_ ⟨hg.online, ?_, ?_, ?_, ?_, ?_⟩
    · intro g hne
      exact ⟨rfl, rfl, update_of_ne hne _ _, rfl, update_of_ne hne _ _⟩
    · intro c hc
      simpa [hf] using (hg.loaded c hc).2.1
    · intro hp
      have hoff := hg.offline hp
      show w.db.Contains cfg guid _
      cases hpending : w.pendingFlushes guid with
      | none => simpa [World.unwritten, World.writeSave, hpending, hf] using hoff
      | some newer =>
        -- the snapshot behind it, of the same player, writes over it
        cases newer with
        | none =>
          have hsave : save = none := by
            have h1 := (hg.pending none hpending).1
            have h2 := hg.flush _ hf
            simpa [← h1] using h2
          simpa [World.unwritten, World.writeSave, hpending, hf, hsave] using hoff
        | some c => simpa [World.unwritten, World.writeSave, hpending, hf] using hoff
    · intro hs
      have hsave : save = none := by simpa [hs] using hg.flush _ hf
      simpa [World.writeSave, hsave] using hg.unsaved hs
    · intro f hf'
      obtain rfl : (⟨save, true⟩ : Flush) = f := by simpa using hf'
      exact hg.flush ⟨save, false⟩ hf
    · intro save' hs
      exact ⟨(hg.pending save' hs).1, by simp⟩
  · exact h

theorem Inv.acknowledged (h : Inv cfg w) : Inv cfg (w.onPlayerFlushed guid) := by
  unfold World.onPlayerFlushed
  split
  · next save hf =>
    have hg := h.good guid
    refine h.alone guid rfl rfl ?_ ⟨hg.online, ?_, ?_, hg.unsaved, ?_, ?_⟩
    · intro g hne
      exact ⟨rfl, rfl, update_of_ne hne _ _, update_of_ne hne _ _, rfl⟩
    · intro c hc
      simpa [hf] using (hg.loaded c hc).2.1
    · intro hp
      have hoff := hg.offline hp
      cases hpending : w.pendingFlushes guid with
      | none => simpa [World.unwritten, hpending, hf] using hoff
      | some newer => simpa [World.unwritten, hpending] using hoff
    · intro f hf'
      obtain ⟨save', hs, rfl⟩ := Option.map_eq_some_iff.mp (show (w.pendingFlushes guid).map _ = some f by simpa using hf')
      exact (hg.pending save' hs).1
    · simp
  · exact h

theorem Inv.set {n : Nat} (h : Inv cfg w) : Inv cfg (w.setBestiaryCharmPoints guid n) := by
  have hg := h.good guid
  refine h.alone guid rfl rfl ?_ ⟨?_, ?_, ?_, hg.unsaved, hg.flush, hg.pending⟩
  · intro g hne
    exact ⟨update_of_ne hne _ _, rfl, rfl, rfl, rfl⟩
  · intro c hc
    simp only [World.setBestiaryCharmPoints, update_self] at hc
    obtain ⟨c', hc', rfl⟩ := Option.map_eq_some_iff.mp hc
    exact (hg.online c' hc').set
  · intro c hc
    have hl := hg.loaded c hc
    exact ⟨by simp [World.setBestiaryCharmPoints, hl.1], hl.2⟩
  · intro hp
    exact hg.offline (by simpa [World.setBestiaryCharmPoints] using hp)

theorem Inv.step {e : Event} (h : Inv cfg w) (ht : Timely w e) : Inv cfg (step cfg w e) := by
  cases e with
  | grantWardenRewards monster raceId recipients now io => exact h.grant ht
  | retryPendingWardenRewards now io => exact h.retry ht
  | loadPlayerById guid => exact h.load
  | finishLogin guid placed => exact h.finish
  | logout guid => exact h.logout
  | savePlayer guid => exact h.savePlayer
  | savePlayerSync guid => exact h.savePlayerSync
  | flushPlayerSave guid => exact h.flushed
  | onPlayerFlushed guid => exact h.acknowledged
  | setBestiaryCharmPoints guid n => exact h.set

end

/-! ## Runs -/

/-- In every timely run each row of a reward stands once and is in the points once. -/
theorem warden_rewards_paid_once {cfg : Config} {w : World} (h : Reach (Start cfg) (step cfg) Timely w) :
    PaidOnce cfg w :=
  (h.inv (I := Inv cfg) (fun _ => Inv.start) fun _ _ ht hi => hi.step ht).paidOnce

def oneRace : Config where
  charmPointsByStars := ![1, 2, 5, 10, 15, 30]
  getMonster raceId := if raceId = 7 then some 0 else none
  save _ := true

def refused : Nat → Attempt := fun _ => .refused

def good : Nat → Attempt := fun _ => .good

def retriedOnline : List Event :=
  [.loadPlayerById 1, .finishLogin 1 true, .grantWardenRewards 100 7 [1] 0 refused,
    .retryPendingWardenRewards 1000 fun _ _ => good, .logout 1]

theorem start_empty (cfg : Config) : Start cfg {} where
  rows := nodup_nil
  stored := by
    intro guid e he
    obtain rfl : (0 : Int) = e := by simpa using he
    rfl
  players _ := rfl
  loading _ := rfl
  flushInFlight _ := rfl
  pendingFlushes _ := rfl
  pendingWardenRewards := rfl

theorem undone_good : Undone good := by
  intro k
  exact nofun

theorem undone_refused : Undone refused := by
  intro k
  exact nofun

theorem retried_reward_paid : PaidOnce oneRace (run (step oneRace) {} retriedOnline) :=
  warden_rewards_paid_once ((Reach.init (start_empty oneRace)).run
    ⟨trivial, trivial, undone_refused, ⟨fun _ _ => undone_good, by
      intro r hr _ _ _
      obtain rfl := mem_singleton.mp (show r ∈ [⟨1, 7, 1, 1000, 0⟩] from hr)
      exact .inl rfl⟩, trivial, trivial⟩)

/-- The same reward, committed between the reading of the row and the entrance into the world. -/
def retriedAtLogin : List Event :=
  [.loadPlayerById 1, .finishLogin 1 true, .grantWardenRewards 100 7 [1] 0 refused, .logout 1,
    .loadPlayerById 1, .retryPendingWardenRewards 1000 fun _ _ => good, .finishLogin 1 true]

theorem reward_lost : ¬∀ w, Reach (Start oneRace) (step oneRace) (fun _ _ => True) w → PaidOnce oneRace w := by
  intro h
  have hreach : Reach (Start oneRace) (step oneRace) (fun _ _ => True) (run (step oneRace) {} retriedAtLogin) :=
    (Reach.init (start_empty oneRace)).run ⟨trivial, trivial, trivial, trivial, trivial, trivial, trivial, trivial⟩
  have hpaid := (h _ hreach).online 1 ⟨0, some 0⟩ rfl 0 rfl
  exact absurd hpaid (by decide)

end Backlands.Echo.Rewards
