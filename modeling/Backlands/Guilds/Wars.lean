/-
  Backlands.Guilds.Wars — guild wars: `IOGuild::guildWar`, `IOGuild::registerGuildWarKill`
  (src/guild.cpp) and the script that ends wars nobody fights
  (data/scripts/globalevents/guild_war_expire.lua).

  `guild_wars` is a table; every command reads it with a condition of its own and takes the row that
  comes first, whichever that is (`Answers.first`). Names and messages are left out, the words of a
  command are parsed already. Logins, changes of guild and the balances are events of their own,
  with any values.

  Proved: `guild_war_lifecycle`. No row ever leaves its path, and in every run in which no command
  meets an open war beside a closed one of its own guild, and no invitation is accepted while a war
  is on, there is one active war at most between two guilds and every command acts on an open row.
  Counterexample: `closed_war_blocks`.
-/

import Backlands.Db.Transaction
import Backlands.Lib.Runs
import Mathlib.Data.List.Nodup

namespace Backlands.Guilds.Wars

open Backlands.Lib Backlands.Db List

abbrev GuildId := Nat

abbrev WarId := Nat

abbrev PlayerId := Nat

/-- The column `status`: 0 to 5. -/
inductive Status where
  | pending
  | active
  | rejected
  | canceled
  | won
  | ended
  deriving DecidableEq

structure GuildWar where
  id : WarId
  guild1 : GuildId
  guild2 : GuildId
  status : Status
  started : Int
  ended : Int
  fraglimit : Int
  payment : Int
  deriving DecidableEq

structure GuildWarKill where
  war_id : WarId
  killer_guild : GuildId
  killer : PlayerId
  victim : PlayerId
  time : Int
  deriving DecidableEq

structure Player where
  guild : Option GuildId
  level : Nat
  guildWarVector : List GuildId

structure Config where
  GUILD_WAR_MIN_FRAG_LIMIT : Int := 10
  GUILD_WAR_MAX_FRAG_LIMIT : Int := 1000

structure World where
  guild_wars : List GuildWar := []
  guild_war_kills : List GuildWarKill := []
  autoIncrement : WarId := 1
  bankBalance : GuildId → Nat := fun _ => 0
  players : PlayerId → Option Player := fun _ => none

/-- What the database and the clock answer to one call. -/
structure Answers where
  now : Int
  stored : Bool
  first : Nat
  execute : Execution
  scored : Bool
  finish : Execution

inductive Action where
  | invite (fragLimit payment durationDays : Int)
  | accept
  | reject
  | cancel
  | «end»
  | unknown
  deriving DecidableEq

def Action.isInvite : Action → Bool
  | .invite .. => true
  | _ => false

/-- `storeQuery` and the row of its result that comes first. -/
def Answers.storeQuery (a : Answers) (rows : List GuildWar) : Option GuildWar :=
  if a.stored then rows[a.first % rows.length]? else none

namespace World

/-- `UPDATE guild_wars SET … WHERE id = …` -/
def updateWar (id : WarId) (f : GuildWar → GuildWar) (w : World) : World :=
  { w with guild_wars := w.guild_wars.map fun r => if r.id = id then f r else r }

def insertWar (r : WarId → GuildWar) (w : World) : World :=
  { w with guild_wars := w.guild_wars ++ [r w.autoIncrement], autoIncrement := w.autoIncrement + 1 }

/-- What `reloadWarList` reads. -/
def warList (g : GuildId) (w : World) : List GuildId :=
  (w.guild_wars.filter fun r => (r.guild1 = g || r.guild2 = g) && r.status = .active).map fun r =>
    if r.guild1 = g then r.guild2 else r.guild1

def reloadWarList (player : Player) (w : World) : Player :=
  match player.guild with
  | some g => { player with guildWarVector := w.warList g }
  | none => player

def refreshWarStateForGuilds (firstGuildId secondGuildId : GuildId) (w : World) : World :=
  { w with players := fun p => (w.players p).map fun player =>
      if player.guild = some firstGuildId || player.guild = some secondGuildId then w.reloadWarList player else player }

/-- The checks at the head of `guildWar`, and the guild that gives the command. An enemy that
    is not found has the id 0. -/
def leads (p : PlayerId) (enemyId : GuildId) (w : World) : Option GuildId :=
  match w.players p with
  | none => none
  | some player =>
    match player.guild with
    | none => none
    | some guild => if player.level < 3 || enemyId = 0 || enemyId = guild then none else some guild

def row (guild enemyId : GuildId) (action : Action) (a : Answers) (w : World) : Option GuildWar :=
  match action with
  | .invite .. =>
    a.storeQuery (w.guild_wars.filter fun r => (r.guild1 = guild && r.guild2 = enemyId) && r.status = .pending)
  | _ =>
    a.storeQuery (w.guild_wars.filter fun r => (r.guild1 = guild && r.guild2 = enemyId) ||
      (r.guild1 = enemyId && r.guild2 = guild) && (r.status = .pending || r.status = .active))

/-- `executeQuery` of an update, and whether it was answered. -/
def execute (e : Execution) (stmt : World → World) (w : World) : Bool × World :=
  let r := executeQuery e (fun w => (1, stmt w)) w
  (r.1, r.2.2)

def guildWar (cfg : Config) (p : PlayerId) (action : Action) (enemyId : GuildId) (a : Answers) (w : World) : World :=
  match w.leads p enemyId with
  | none => w
  | some guild =>
    match action with
    | .invite fragLimit payment durationDays =>
      if fragLimit < cfg.GUILD_WAR_MIN_FRAG_LIMIT || fragLimit > cfg.GUILD_WAR_MAX_FRAG_LIMIT then w
      else if (w.bankBalance guild : Int) < payment % 2 ^ 64 then w
      else if (w.players p).any (·.guildWarVector.contains enemyId) then w
      else if (w.row guild enemyId action a).isSome then w
      else
        (execute a.execute (insertWar fun id =>
          ⟨id, guild, enemyId, .pending, a.now, a.now + durationDays * 86400, fragLimit, payment⟩) w).2
    | _ =>
      match w.row guild enemyId action a with
      | none => w
      | some war =>
        match action with
        | .accept =>
          if war.status ≠ .pending then w
          else if war.guild1 = guild then w
          else if (w.bankBalance guild : Int) < war.payment then w
          else
            let originalDuration := if war.ended > war.started then war.ended - war.started else 0
            let newEnd := if originalDuration > 0 then a.now + originalDuration else 0
            let r := execute a.execute
              (updateWar war.id fun r => { r with status := .active, started := a.now, ended := newEnd }) w
            if r.1 then r.2.refreshWarStateForGuilds guild enemyId else r.2
        | .reject =>
          if war.status ≠ .pending then w
          else if war.guild1 = guild then w
          else (execute a.execute (updateWar war.id fun r => { r with status := .rejected, ended := a.now }) w).2
        | .cancel =>
          if war.status ≠ .pending then w
          else if war.guild1 ≠ guild then w
          else (execute a.execute (updateWar war.id fun r => { r with status := .canceled, ended := a.now }) w).2
        | .«end» =>
          if war.status ≠ .active then w
          else
            let r := execute a.execute (updateWar war.id fun r => { r with status := .ended, ended := a.now }) w
            if r.1 then r.2.refreshWarStateForGuilds guild enemyId else r.2
        | _ => w

def kills (war_id : WarId) (killer_guild : GuildId) (w : World) : Int :=
  (w.guild_war_kills.filter fun k => k.war_id = war_id && k.killer_guild = killer_guild).length

def registerGuildWarKill (killer victim : PlayerId) (a : Answers) (w : World) : World :=
  match (w.players killer).bind (·.guild), (w.players victim).bind (·.guild) with
  | some killerGuild, some victimGuild =>
    if killerGuild = victimGuild then w
    else
      match a.storeQuery (w.guild_wars.filter fun r =>
        ((r.guild1 = killerGuild && r.guild2 = victimGuild) || (r.guild1 = victimGuild && r.guild2 = killerGuild)) &&
          r.status = .active) with
      | none => w
      | some war =>
        let r := execute a.execute
          (fun w => { w with guild_war_kills := w.guild_war_kills ++ [⟨war.id, killerGuild, killer, victim, a.now⟩] }) w
        if !r.1 then r.2
        else if !a.scored then r.2
        else if r.2.kills war.id war.guild1 ≥ war.fraglimit || r.2.kills war.id war.guild2 ≥ war.fraglimit then
          (execute a.finish (updateWar war.id fun r => { r with status := .won, ended := a.now }) r.2).2
            |>.refreshWarStateForGuilds killerGuild victimGuild
        else r.2
  | _, _ => w

/-- A turn of the loop of `guild_war_expire.lua` over the wars it has read. -/
def expireWar (now : Int) (a : WarId → Execution) (w : World) (war : GuildWar) : World :=
  if w.guild_war_kills.any (·.war_id = war.id) then w
  else
    let r := execute (a war.id)
      (updateWar war.id fun r => if r.status = .active then { r with status := .ended, ended := now } else r) w
    if r.1 then r.2.refreshWarStateForGuilds war.guild1 war.guild2 else r.2

def guildWarExpire (now : Int) (a : WarId → Execution) (w : World) : World :=
  (w.guild_wars.filter fun r => r.status = .active && r.ended > 0 && r.ended < now).foldl (expireWar now a) w

end World

inductive Event where
  | guildWar (p : PlayerId) (action : Action) (enemyId : GuildId) (a : Answers)
  | registerGuildWarKill (killer victim : PlayerId) (a : Answers)
  | guildWarExpire (now : Int) (a : WarId → Execution)
  | setPlayer (p : PlayerId) (player : Option Player)
  | setBankBalance (g : GuildId) (balance : Nat)

def step (cfg : Config) (w : World) : Event → World
  | .guildWar p action enemyId a => w.guildWar cfg p action enemyId a
  | .registerGuildWarKill killer victim a => w.registerGuildWarKill killer victim a
  | .guildWarExpire now a => w.guildWarExpire now a
  | .setPlayer p player => { w with players := fun q => if q = p then player else w.players q }
  | .setBankBalance g balance => { w with bankBalance := fun h => if h = g then balance else w.bankBalance h }

/-! ## The property -/

def GuildWar.IsOpen (r : GuildWar) : Prop := r.status = .pending ∨ r.status = .active

def GuildWar.Between (r : GuildWar) (g h : GuildId) : Prop :=
  (r.guild1 = g ∧ r.guild2 = h) ∨ (r.guild1 = h ∧ r.guild2 = g)

instance (r : GuildWar) : Decidable r.IsOpen := inferInstanceAs (Decidable (_ ∨ _))

instance (r : GuildWar) (g h : GuildId) : Decidable (r.Between g h) := inferInstanceAs (Decidable (_ ∨ _))

/-- One step of a row on its path. -/
inductive Moves : Status → Status → Prop
  | stay (s : Status) : Moves s s
  | accepted : Moves .pending .active
  | rejected : Moves .pending .rejected
  | canceled : Moves .pending .canceled
  | won : Moves .active .won
  | ended : Moves .active .ended

def World.OneActive (w : World) : Prop :=
  ∀ r ∈ w.guild_wars, ∀ r' ∈ w.guild_wars, r.status = .active → r'.status = .active →
    r'.Between r.guild1 r.guild2 → r = r'

def World.OpenBetween (w : World) (g h : GuildId) : Prop := ∃ r ∈ w.guild_wars, r.Between g h ∧ r.IsOpen

/-- Every row is still there, with its guilds, and its status has gone the way of `R`. -/
def Follows (R : Status → Status → Prop) (w w' : World) : Prop :=
  ∀ r ∈ w.guild_wars, ∃ r' ∈ w'.guild_wars,
    r'.id = r.id ∧ r'.guild1 = r.guild1 ∧ r'.guild2 = r.guild2 ∧ R r.status r'.status

def ActsOnOpen (w : World) : Event → Prop
  | .guildWar p action enemyId a => ∀ guild, w.leads p enemyId = some guild → w.OpenBetween guild enemyId →
      (∀ r, w.row guild enemyId action a = some r → r.Between guild enemyId ∧ r.IsOpen) ∧
        (action.isInvite = false → a.stored = true → (w.row guild enemyId action a).isSome = true)
  | _ => True

/-- The table has its primary key, and one active war at most between two guilds. -/
structure Start (w : World) : Prop where
  ids : (w.guild_wars.map (·.id)).Nodup
  autoIncrement : ∀ r ∈ w.guild_wars, r.id < w.autoIncrement
  oneActive : w.OneActive

/-- A command other than `invite` meets no closed war of its own guild beside an open one, and
    no invitation can be accepted while a war is on. -/
def Fair (w : World) : Event → Prop
  | .guildWar p action enemyId _ => ∀ guild, w.leads p enemyId = some guild → action.isInvite = false →
      (w.OpenBetween guild enemyId → ∀ r ∈ w.guild_wars, r.guild1 = guild → r.guild2 = enemyId → r.IsOpen) ∧
        (action = .accept → (∃ r ∈ w.guild_wars, r.Between guild enemyId ∧ r.status = .active) →
          ∀ r ∈ w.guild_wars, r.guild1 = enemyId → r.guild2 = guild → r.status ≠ .pending)
  | _ => True

/-! ## One row changes -/

variable {R : Status → Status → Prop}

/-- Rows are added only. -/
theorem Follows.of_subset {w w' : World} (hrefl : ∀ s, R s s) (h : w.guild_wars ⊆ w'.guild_wars) : Follows R w w' :=
  fun r hr => ⟨r, h hr, rfl, rfl, rfl, hrefl _⟩

theorem Follows.trans {w w' w'' : World} (htrans : ∀ {a b c}, R a b → R b c → R a c) (h : Follows R w w')
    (h' : Follows R w' w'') : Follows R w w'' := by
  intro r hr
  obtain ⟨r', hr', hid, h1, h2, hs⟩ := h r hr
  obtain ⟨r'', hr'', hid', h1', h2', hs'⟩ := h' r' hr'
  exact ⟨r'', hr'', hid'.trans hid, h1'.trans h1, h2'.trans h2, htrans hs hs'⟩

theorem Follows.mono {R' : Status → Status → Prop} {w w' : World} (hR : ∀ s s', R s s' → R' s s') (h : Follows R w w') :
    Follows R' w w' := by
  intro r hr
  obtain ⟨r', hr', hid, h1, h2, hs⟩ := h r hr
  exact ⟨r', hr', hid, h1, h2, hR _ _ hs⟩

/-- Where the table is not touched, nothing of it changes. -/
theorem Start.of_eq {w w' : World} (h : Start w) (hw : w'.guild_wars = w.guild_wars)
    (hi : w'.autoIncrement = w.autoIncrement) : Start w' := by
  refine ⟨hw ▸ h.ids, ?_, ?_⟩
  · rw [hw, hi]
    exact h.autoIncrement
  · unfold World.OneActive
    rw [hw]
    exact h.oneActive

section
variable {R : Status → Status → Prop} {w : World} {war : GuildWar} {f : GuildWar → GuildWar}

theorem Start.eq_of_id (h : Start w) {r r' : GuildWar} (hr : r ∈ w.guild_wars) (hr' : r' ∈ w.guild_wars)
    (hid : r.id = r'.id) : r = r' := inj_on_of_nodup_map h.ids hr hr' hid

theorem mem_updateWar {id : WarId} {r : GuildWar} : r ∈ (w.updateWar id f).guild_wars ↔
    ∃ r' ∈ w.guild_wars, r = if r'.id = id then f r' else r' := by
  show r ∈ w.guild_wars.map _ ↔ _
  simp [eq_comm]

/-- An update of the columns other than the key and the guilds, one step on the path of its
    row; if it makes the row active, there was no active war between the guilds. -/
theorem Start.update (h : Start w) (hwar : war ∈ w.guild_wars) (hid : ∀ r, (f r).id = r.id)
    (h1 : ∀ r, (f r).guild1 = r.guild1) (h2 : ∀ r, (f r).guild2 = r.guild2) (hrefl : ∀ s, R s s)
    (hmoves : R war.status (f war).status)
    (hactive : (f war).status = .active → war.status ≠ .active →
      ∀ r ∈ w.guild_wars, r.Between war.guild1 war.guild2 → r.status ≠ .active) :
    Start (w.updateWar war.id f) ∧ Follows R w (w.updateWar war.id f) := by
  have hthe : ∀ r ∈ w.guild_wars, r.id = war.id → r = war := fun r hr hi => h.eq_of_id hr hwar hi
  have hids : (w.updateWar war.id f).guild_wars.map (·.id) = w.guild_wars.map (·.id) := by
    show (w.guild_wars.map _).map _ = _
    rw [map_map]
    refine map_congr_left fun r _ => ?_
    grind
  refine ⟨⟨?_, ?_, ?_⟩, ?_⟩
  · rw [hids]
    exact h.ids
  · intro r hr
    obtain ⟨r', hr', rfl⟩ := mem_updateWar.mp hr
    split
    · rw [hid]
      exact h.autoIncrement r' hr'
    · exact h.autoIncrement r' hr'
  · -- an active row was active before, or it is the one made so
    have hold : ∀ r' ∈ w.guild_wars, ∀ s ∈ w.guild_wars,
        (if r'.id = war.id then f r' else r').status = .active → (if s.id = war.id then f s else s).status = .active →
        (if s.id = war.id then f s else s).Between (if r'.id = war.id then f r' else r').guild1
          (if r'.id = war.id then f r' else r').guild2 → r' = s := by
      intro r hr s hs hra hsa hb
      have hguilds : ∀ t : GuildWar, (if t.id = war.id then f t else t).guild1 = t.guild1 ∧
          (if t.id = war.id then f t else t).guild2 = t.guild2 := by
        intro t
        split
        · exact ⟨h1 t, h2 t⟩
        · exact ⟨rfl, rfl⟩
      replace hb : s.Between r.guild1 r.guild2 := by
        unfold GuildWar.Between at hb ⊢
        rw [(hguilds s).1, (hguilds s).2, (hguilds r).1, (hguilds r).2] at hb
        exact hb
      have hb' : r.Between s.guild1 s.guild2 := by
        rcases hb with ⟨ha, hc⟩ | ⟨ha, hc⟩
        · exact .inl ⟨ha.symm, hc.symm⟩
        · exact .inr ⟨hc.symm, ha.symm⟩
      by_cases hrw : r.id = war.id
      · obtain rfl := hthe r hr hrw
        by_cases hsw : s.id = r.id
        · exact (hthe s hs hsw).symm
        rw [if_pos rfl] at hra
        rw [if_neg hsw] at hsa
        by_cases hwas : r.status = .active
        · exact h.oneActive r hr s hs hwas hsa hb
        · exact absurd hsa (hactive hra hwas s hs hb)
      · rw [if_neg hrw] at hra
        by_cases hsw : s.id = war.id
        · obtain rfl := hthe s hs hsw
          rw [if_pos rfl] at hsa
          by_cases hwas : s.status = .active
          · exact h.oneActive r hr s hs hra hwas hb
          · exact absurd hra (hactive hsa hwas r hr hb')
        · rw [if_neg hsw] at hsa
          exact h.oneActive r hr s hs hra hsa hb
    intro r hr s hs hra hsa hb
    obtain ⟨r', hr', rfl⟩ := mem_updateWar.mp hr
    obtain ⟨s', hs', rfl⟩ := mem_updateWar.mp hs
    rw [hold r' hr' s' hs' hra hsa hb]
  · intro r hr
    refine ⟨if r.id = war.id then f r else r, mem_updateWar.mpr ⟨r, hr, rfl⟩, ?_⟩
    split
    · next hi =>
      obtain rfl := hthe r hr hi
      exact ⟨hid r, h1 r, h2 r, hmoves⟩
    · exact ⟨rfl, rfl, rfl, hrefl _⟩

theorem updateWar_updateWar {id : WarId} (hid : ∀ r, (f r).id = r.id) (htwice : ∀ r, f (f r) = f r) :
    (w.updateWar id f).updateWar id f = w.updateWar id f := by
  show { w with guild_wars := (w.guild_wars.map _).map _ } = { w with guild_wars := w.guild_wars.map _ }
  congr 1
  rw [map_map]
  refine map_congr_left fun r _ => ?_
  grind

theorem Start.executeUpdate (h : Start w) (e : Execution) (hwar : war ∈ w.guild_wars) (hid : ∀ r, (f r).id = r.id)
    (h1 : ∀ r, (f r).guild1 = r.guild1) (h2 : ∀ r, (f r).guild2 = r.guild2) (hrefl : ∀ s, R s s)
    (hmoves : R war.status (f war).status)
    (hactive : (f war).status = .active → war.status ≠ .active →
      ∀ r ∈ w.guild_wars, r.Between war.guild1 war.guild2 → r.status ≠ .active) (htwice : ∀ r, f (f r) = f r) :
    Start (World.execute e (World.updateWar war.id f) w).2 ∧
      Follows R w (World.execute e (World.updateWar war.id f) w).2 := by
  have hstmt : ∀ w : World, (w.updateWar war.id f).updateWar war.id f = w.updateWar war.id f :=
    fun _ => updateWar_updateWar hid htwice
  show Start (executeQuery e _ w).2.2 ∧ Follows R w (executeQuery e _ w).2.2
  rcases executeQuery_idempotent e (fun w : World => (1, w.updateWar war.id f)) hstmt w with hran | ⟨-, hnot⟩
  · rw [hran]
    exact h.update hwar hid h1 h2 hrefl hmoves hactive
  · rw [hnot]
    exact ⟨h, Follows.of_subset hrefl (List.Subset.refl _)⟩

theorem Start.insert (h : Start w) {r : WarId → GuildWar} (hid : ∀ id, (r id).id = id)
    (hpending : ∀ id, (r id).status = .pending) : Start (w.insertWar r) := by
  refine ⟨?_, ?_, ?_⟩
  · show ((w.guild_wars ++ [r w.autoIncrement]).map (·.id)).Nodup
    rw [map_append, nodup_append]
    refine ⟨h.ids, nodup_singleton _, ?_⟩
    intro i hi j hj he
    obtain ⟨r', hr', rfl⟩ := mem_map.mp hi
    rw [map_singleton, mem_singleton, hid] at hj
    exact Nat.ne_of_lt (h.autoIncrement r' hr') (he.trans hj)
  · intro r' hr'
    rcases mem_append.mp hr' with hr' | hr'
    · exact Nat.lt_succ_of_lt (h.autoIncrement r' hr')
    · rw [mem_singleton.mp hr', hid]
      exact Nat.lt_succ_self _
  · have hold : ∀ s ∈ (w.insertWar r).guild_wars, s.status = .active → s ∈ w.guild_wars := by
      intro s hs ha
      rcases mem_append.mp hs with hs | hs
      · exact hs
      · grind
    intro s hs s' hs' ha ha' hb
    exact h.oneActive s (hold s hs ha) s' (hold s' hs' ha') ha ha' hb

/-! ## Steps -/

variable {enemyId : GuildId} {action : Action}

theorem Start.refresh {w' : World} {c : Bool} {g h : GuildId} (hs : Start w' ∧ Follows R w w') :
    Start (if c then w'.refreshWarStateForGuilds g h else w') ∧
      Follows R w (if c then w'.refreshWarStateForGuilds g h else w') := by
  split
  · exact ⟨hs.1.of_eq rfl rfl, hs.2⟩
  · exact hs

theorem storeQuery_mem {a : Answers} {rows : List GuildWar} {r : GuildWar} (h : a.storeQuery rows = some r) : r ∈ rows := by
  unfold Answers.storeQuery at h
  split at h
  · exact mem_of_getElem? h
  · cases h

theorem storeQuery_isSome {a : Answers} {rows : List GuildWar} (hs : a.stored = true) (hr : rows ≠ []) :
    (a.storeQuery rows).isSome = true := by
  unfold Answers.storeQuery
  have hlt : a.first % rows.length < rows.length := Nat.mod_lt _ (length_pos_iff.mpr hr)
  simp [hs, hlt]

theorem row_cases {guild : GuildId} {a : Answers} (hi : action.isInvite = false)
    (h : w.row guild enemyId action a = some war) : war ∈ w.guild_wars ∧
      ((war.guild1 = guild ∧ war.guild2 = enemyId) ∨ (war.guild1 = enemyId ∧ war.guild2 = guild ∧ war.IsOpen)) := by
  have hmem : war ∈ w.guild_wars.filter fun r => (r.guild1 = guild && r.guild2 = enemyId) ||
      (r.guild1 = enemyId && r.guild2 = guild) && (r.status = .pending || r.status = .active) := by
    cases action with
    | invite => cases hi
    | _ => exact storeQuery_mem h
  obtain ⟨hw, hc⟩ := mem_filter.mp hmem
  refine ⟨hw, ?_⟩
  simpa [GuildWar.IsOpen, and_assoc] using hc

theorem actsOnOpen {p : PlayerId} {a : Answers} (hf : Fair w (.guildWar p action enemyId a)) :
    ActsOnOpen w (.guildWar p action enemyId a) := by
  intro guild hl hopen
  cases hi : action.isInvite with
  | true =>
    refine ⟨?_, nofun⟩
    intro r hr
    cases action with
    | invite fragLimit payment durationDays =>
      obtain ⟨-, hc⟩ := mem_filter.mp (storeQuery_mem hr)
      simp only [Bool.and_eq_true, decide_eq_true_eq] at hc
      exact ⟨.inl hc.1, .inl hc.2⟩
    | _ => cases hi
  | false =>
    obtain ⟨hclosed, -⟩ := hf guild hl hi
    constructor
    · intro r hr
      obtain ⟨hw, ⟨h1, h2⟩ | ⟨h1, h2, ho⟩⟩ := row_cases hi hr
      · exact ⟨.inl ⟨h1, h2⟩, hclosed hopen r hw h1 h2⟩
      · exact ⟨.inr ⟨h1, h2⟩, ho⟩
    · intro _ hs
      obtain ⟨r, hr, hb, ho⟩ := hopen
      have hmem : r ∈ w.guild_wars.filter fun r => (r.guild1 = guild && r.guild2 = enemyId) ||
          (r.guild1 = enemyId && r.guild2 = guild) && (r.status = .pending || r.status = .active) := by
        refine mem_filter.mpr ⟨hr, ?_⟩
        rcases hb with ⟨h1, h2⟩ | ⟨h1, h2⟩
        · simp [h1, h2]
        · rcases ho with ho | ho
          · simp [h1, h2, ho]
          · simp [h1, h2, ho]
      cases action with
      | invite => cases hi
      | _ => exact storeQuery_isSome hs (ne_nil_of_mem hmem)

theorem Start.invite (h : Start w) (e : Execution) {r : WarId → GuildWar} (hid : ∀ id, (r id).id = id)
    (hpending : ∀ id, (r id).status = .pending) :
    Start (World.execute e (World.insertWar r) w).2 ∧ Follows Moves w (World.execute e (World.insertWar r) w).2 := by
  have hrel := @executeQuery_rel World (fun w w' => Start w → Start w' ∧ w.guild_wars ⊆ w'.guild_wars)
    (fun w => (1, w.insertWar r)) (fun _ h => ⟨h, List.Subset.refl _⟩)
    (fun hab hbc h => ⟨(hbc (hab h).1).1, List.Subset.trans (hab h).2 (hbc (hab h).1).2⟩)
    (fun _ h => ⟨h.insert hid hpending, subset_append_left _ _⟩) e w h
  exact ⟨hrel.1, Follows.of_subset Moves.stay hrel.2⟩

theorem Start.guildWar (h : Start w) {cfg : Config} {p : PlayerId} {a : Answers}
    (hf : Fair w (.guildWar p action enemyId a)) :
    Start (w.guildWar cfg p action enemyId a) ∧ Follows Moves w (w.guildWar cfg p action enemyId a) := by
  have hsame : Start w ∧ Follows Moves w w := ⟨h, Follows.of_subset Moves.stay (List.Subset.refl _)⟩
  unfold World.guildWar
  cases hl : w.leads p enemyId with
  | none => exact hsame
  | some guild =>
    cases hi : action.isInvite with
    | true =>
      cases action with
      | invite fragLimit payment durationDays =>
        dsimp only
        split
        · exact hsame
        split
        · exact hsame
        split
        · exact hsame
        · split
          · exact hsame
          · exact h.invite a.execute (fun _ => rfl) fun _ => rfl
      | _ => cases hi
    | false =>
      obtain ⟨-, haccept⟩ := hf guild hl hi
      cases hrow : w.row guild enemyId action a with
      | none =>
        cases action with
        | invite => cases hi
        | _ =>
          simp only [hrow]
          exact hsame
      | some war =>
        obtain ⟨hwar, hguilds⟩ := row_cases hi hrow
        cases action with
        | invite => cases hi
        | accept =>
          simp only [hrow]
          split
          · exact hsame
          next hs =>
          have hpending : war.status = .pending := not_not.mp hs
          split
          · exact hsame
          next hg =>
          split
          · exact hsame
          refine Start.refresh (h.executeUpdate a.execute hwar (fun _ => rfl) (fun _ => rfl) (fun _ => rfl)
            Moves.stay (hpending ▸ Moves.accepted) ?_ fun _ => rfl)
          -- the invitation is the enemy's, so no war is on
          intro _ _ r hr hb hra
          obtain ⟨h1, h2, -⟩ := hguilds.resolve_left fun hc => hg hc.1
          rw [h1, h2] at hb
          exact haccept rfl ⟨r, hr, Or.symm hb, hra⟩ war hwar h1 h2 hpending
        | reject =>
          simp only [hrow]
          split
          · exact hsame
          next hs =>
          have hpending : war.status = .pending := not_not.mp hs
          split
          · exact hsame
          · exact h.executeUpdate a.execute hwar (fun _ => rfl) (fun _ => rfl) (fun _ => rfl)
              Moves.stay (hpending ▸ Moves.rejected) nofun fun _ => rfl
        | cancel =>
          simp only [hrow]
          split
          · exact hsame
          next hs =>
          have hpending : war.status = .pending := not_not.mp hs
          split
          · exact hsame
          · exact h.executeUpdate a.execute hwar (fun _ => rfl) (fun _ => rfl) (fun _ => rfl)
              Moves.stay (hpending ▸ Moves.canceled) nofun fun _ => rfl
        | «end» =>
          simp only [hrow]
          split
          · exact hsame
          next hs =>
          have hactive : war.status = .active := not_not.mp hs
          exact Start.refresh (h.executeUpdate a.execute hwar (fun _ => rfl) (fun _ => rfl) (fun _ => rfl)
            Moves.stay (hactive ▸ Moves.ended) nofun fun _ => rfl)
        | unknown =>
          simp only [hrow]
          exact hsame

theorem Start.registerGuildWarKill (h : Start w) (killer victim : PlayerId) (a : Answers) :
    Start (w.registerGuildWarKill killer victim a) ∧ Follows Moves w (w.registerGuildWarKill killer victim a) := by
  have hsame : ∀ {w' : World}, w'.guild_wars = w.guild_wars → w'.autoIncrement = w.autoIncrement →
      Start w' ∧ Follows Moves w w' :=
    fun hw hi => ⟨h.of_eq hw hi, Follows.of_subset Moves.stay (hw ▸ List.Subset.refl _)⟩
  unfold World.registerGuildWarKill
  split
  · next killerGuild victimGuild _ _ =>
    split
    · exact hsame rfl rfl
    cases hwar : a.storeQuery (w.guild_wars.filter fun r =>
        ((r.guild1 = killerGuild && r.guild2 = victimGuild) || (r.guild1 = victimGuild && r.guild2 = killerGuild)) &&
          r.status = .active) with
    | none => exact hsame rfl rfl
    | some war =>
      obtain ⟨hmem, hc⟩ := mem_filter.mp (storeQuery_mem hwar)
      have hactive : war.status = .active := by
        simp only [Bool.and_eq_true, decide_eq_true_eq] at hc
        exact hc.2
      -- the kill is a row of another table
      obtain ⟨hw, hi⟩ := @executeQuery_rel World
        (fun w w' => w'.guild_wars = w.guild_wars ∧ w'.autoIncrement = w.autoIncrement)
        (fun w => (1, { w with
          guild_war_kills := w.guild_war_kills ++ [⟨war.id, killerGuild, killer, victim, a.now⟩] }))
        (fun _ => ⟨rfl, rfl⟩) (fun hab hbc => ⟨hbc.1.trans hab.1, hbc.2.trans hab.2⟩) (fun _ => ⟨rfl, rfl⟩) a.execute w
      dsimp only [World.execute]
      split
      · exact hsame hw hi
      split
      · exact hsame hw hi
      split
      · have hstart := h.of_eq hw hi
        have hupdated := hstart.executeUpdate (R := Moves)
          (f := fun r => { r with status := .won, ended := a.now }) a.finish (hw ▸ hmem) (fun _ => rfl)
          (fun _ => rfl) (fun _ => rfl) Moves.stay (hactive ▸ Moves.won) nofun fun _ => rfl
        refine ⟨hupdated.1.of_eq rfl rfl, ?_⟩
        intro r hr
        exact hupdated.2 r (hw ▸ hr)
      · exact hsame hw hi
  · exact hsame rfl rfl

/-- What the script does to a row. -/
def Expires (s s' : Status) : Prop := s' = s ∨ (s = .active ∧ s' = .ended)

theorem Expires.trans {s s' s'' : Status} (h : Expires s s') (h' : Expires s' s'') : Expires s s'' := by
  rcases h with rfl | ⟨rfl, rfl⟩
  · exact h'
  · rcases h' with rfl | ⟨hs, -⟩
    · exact .inr ⟨rfl, rfl⟩
    · cases hs

theorem Start.expireWar (h : Start w) (now : Int) (a : WarId → Execution) (war : GuildWar) :
    Start (World.expireWar now a w war) ∧ Follows Expires w (World.expireWar now a w war) := by
  have hrefl : ∀ s, Expires s s := fun _ => .inl rfl
  have hsame : Start w ∧ Follows Expires w w := ⟨h, Follows.of_subset hrefl (List.Subset.refl _)⟩
  have hid : ∀ r : GuildWar, (if r.status = .active then { r with status := .ended, ended := now } else r).id = r.id :=
    fun r => by split <;> rfl
  have htwice : ∀ r : GuildWar, (fun r : GuildWar =>
      if r.status = .active then { r with status := .ended, ended := now } else r)
        (if r.status = .active then { r with status := .ended, ended := now } else r) =
      if r.status = .active then { r with status := .ended, ended := now } else r := by
    intro r
    by_cases ha : r.status = .active
    · simp [ha]
    · simp [ha]
  unfold World.expireWar
  split
  · exact hsame
  apply Start.refresh
  by_cases hex : ∃ r ∈ w.guild_wars, r.id = war.id
  · obtain ⟨r, hr, hrid⟩ := hex
    rw [← hrid]
    refine h.executeUpdate _ hr hid ?_ ?_ hrefl ?_ ?_ htwice
    · intro r
      split <;> rfl
    · intro r
      split <;> rfl
    · split
      · next ha => exact .inr ⟨ha, rfl⟩
      · exact .inl rfl
    · intro ha hna
      rw [if_neg hna] at ha
      exact absurd ha hna
  · -- no row has the id
    have hnone : ∀ f, w.updateWar war.id f = w := by
      intro f
      show { w with guild_wars := w.guild_wars.map _ } = w
      have hmap : w.guild_wars.map (fun r => if r.id = war.id then f r else r) = w.guild_wars := by
        refine (map_congr_left fun r hr => ?_).trans (map_id _)
        rw [if_neg fun hi => hex ⟨r, hr, hi⟩]
        rfl
      rw [hmap]
    show Start (executeQuery _ _ w).2.2 ∧ Follows Expires w (executeQuery _ _ w).2.2
    rcases executeQuery_idempotent (a war.id) (fun w : World => (1, w.updateWar war.id fun r =>
      if r.status = .active then { r with status := .ended, ended := now } else r))
      (fun _ => updateWar_updateWar hid htwice) w with hran | ⟨-, hnot⟩
    · rw [hran]
      rw [hnone]
      exact hsame
    · rw [hnot]
      exact hsame

theorem Start.guildWarExpire (h : Start w) (now : Int) (a : WarId → Execution) :
    Start (w.guildWarExpire now a) ∧ Follows Moves w (w.guildWarExpire now a) := by
  have hfold : ∀ (wars : List GuildWar) {w : World}, Start w →
      Start (wars.foldl (World.expireWar now a) w) ∧ Follows Expires w (wars.foldl (World.expireWar now a) w) := by
    intro wars
    induction wars with
    | nil => exact fun h => ⟨h, Follows.of_subset (fun _ => .inl rfl) (List.Subset.refl _)⟩
    | cons war wars ih =>
      intro w h
      obtain ⟨h', hf'⟩ := h.expireWar now a war
      obtain ⟨h'', hf''⟩ := ih h'
      exact ⟨h'', hf'.trans Expires.trans hf''⟩
  obtain ⟨h', hf⟩ := hfold (w.guild_wars.filter fun r => r.status = .active && r.ended > 0 && r.ended < now) h
  refine ⟨h', hf.mono ?_⟩
  rintro s s' (rfl | ⟨rfl, rfl⟩)
  · exact Moves.stay _
  · exact Moves.ended

theorem Start.step (h : Start w) (cfg : Config) {e : Event} (hf : Fair w e) :
    Start (step cfg w e) ∧ Follows Moves w (step cfg w e) := by
  cases e with
  | guildWar p action enemyId a => exact h.guildWar hf
  | registerGuildWarKill killer victim a => exact h.registerGuildWarKill killer victim a
  | guildWarExpire now a => exact h.guildWarExpire now a
  | setPlayer p player => exact ⟨h.of_eq rfl rfl, Follows.of_subset Moves.stay (List.Subset.refl _)⟩
  | setBankBalance g balance => exact ⟨h.of_eq rfl rfl, Follows.of_subset Moves.stay (List.Subset.refl _)⟩

/-- In every fair run two guilds have one active war at most, and a command moves an open one. -/
theorem guild_war_lifecycle (cfg : Config) (w : World) (h : Reach Start (Wars.step cfg) Fair w) :
    w.OneActive ∧ ∀ e, Fair w e → Follows Moves w (Wars.step cfg w e) ∧ ActsOnOpen w e := by
  have hstart : Start w := h.inv (I := Start) (fun _ h => h) fun _ _ hf h => (h.step cfg hf).1
  refine ⟨hstart.oneActive, ?_⟩
  intro e hf
  refine ⟨(hstart.step cfg hf).2, ?_⟩
  cases e with
  | guildWar p action enemyId a => exact actsOnOpen hf
  | _ => trivial

end

/-! ## The closed war -/

def leader (p : PlayerId) : Option Player :=
  if p = 1 ∨ p = 2 then some ⟨some p, 3, []⟩ else none

def twoGuilds : World := { players := leader }

theorem twoGuilds_start : Start twoGuilds := ⟨nodup_nil, nofun, nofun⟩

def Answers.good : Answers := ⟨100, true, 0, .good, true, .good⟩

/-- Guild 1 invites guild 2, which accepts. -/
def firstWar : List Event := [.guildWar 1 (.invite 10 0 3) 2 .good, .guildWar 2 .accept 1 .good]

theorem firstWar_active : (run (step {}) twoGuilds firstWar).OneActive ∧
    (∀ e, Fair (run (step {}) twoGuilds firstWar) e →
      Follows Moves (run (step {}) twoGuilds firstWar) (step {} (run (step {}) twoGuilds firstWar) e) ∧
        ActsOnOpen (run (step {}) twoGuilds firstWar) e) ∧
    (run (step {}) twoGuilds firstWar).guild_wars.map (·.status) = [.active] := by
  have hreach : Reach Start (step {}) Fair (run (step {}) twoGuilds firstWar) := by
    refine (Reach.init twoGuilds_start).run ⟨nofun, ?_, trivial⟩
    intro guild hl _
    obtain rfl : 2 = guild := Option.some.inj hl
    have hwars : (step {} twoGuilds (.guildWar 1 (.invite 10 0 3) 2 .good)).guild_wars =
        [⟨1, 1, 2, .pending, 100, 259300, 10, 0⟩] := rfl
    simp [hwars]
  obtain ⟨h1, h2⟩ := guild_war_lifecycle {} _ hreach
  exact ⟨h1, h2, rfl⟩

def secondInvitation : List Event :=
  firstWar ++ [.guildWar 1 .«end» 2 .good, .guildWar 2 (.invite 10 0 3) 1 .good]

/-- Guild 1 accepts and gets the war that has ended. -/
theorem closed_war_blocks : ¬∀ (cfg : Config) (w : World), Reach Start (step cfg) (fun _ _ => True) w →
    w.OneActive ∧ ∀ e, Follows Moves w (step cfg w e) ∧ ActsOnOpen w e := by
  intro h
  have hreach : Reach Start (step {}) (fun _ _ => True) (run (step {}) twoGuilds secondInvitation) :=
    (Reach.init twoGuilds_start).run ⟨trivial, trivial, trivial, trivial, trivial⟩
  obtain ⟨-, hacts⟩ := h {} _ hreach
  have hwars : (run (step {}) twoGuilds secondInvitation).guild_wars =
      [⟨1, 1, 2, .ended, 100, 100, 10, 0⟩, ⟨2, 2, 1, .pending, 100, 259300, 10, 0⟩] := rfl
  have hopen : (run (step {}) twoGuilds secondInvitation).OpenBetween 1 2 := by
    unfold World.OpenBetween
    rw [hwars]
    decide
  obtain ⟨hrow, -⟩ := (hacts (.guildWar 1 .accept 2 .good)).2 1 rfl hopen
  have hended := (hrow ⟨1, 1, 2, .ended, 100, 100, 10, 0⟩ rfl).2
  exact absurd hended (by decide)

end Backlands.Guilds.Wars
