/-
  Backlands.Save.Dirty — saving storage values and bestiary kills by the keys that changed
  (`Player::setStorageValue`, `setBestiaryKillCount`, the dirty snapshots and their acknowledgement
  in src/player.cpp, `buildPlayerSave` in src/iologindata.cpp).

  `Creature::setStorageValue` changes the map and then runs a script, before the player's own part
  marks the key: `enterStorage` is the call up to the script, `leaveStorage` the rest. A script may
  do anything meanwhile. The snapshots are committed in the order they were built; one that the
  database refuses, or that is refused otherwise, is lost.

  Both maps are `Delta`s of Backlands.Lib.Delta (`Sim`), and both revisions are `Nat`s for 64 bits.

  Proved: `delta_saving_loses_nothing`.
-/

import Backlands.Lib.Delta
import Backlands.Save.PlayerQueries

namespace Backlands.PlayerSave

open Backlands.Lib Backlands.Db Backlands.Items
open Function (update update_of_ne update_self)

/-! ## The tables as they are loaded -/

/-- A value of -1 stands for none. -/
def normalize (v : Int) : Option Int := if v = -1 then none else some v

/-- `loadStorageValue` of the row with the key. -/
def storageTable (db : Database) (guid key : Nat) : Option Int :=
  (lookup db .player_storage guid .value key).bind normalize

/-- `setBestiaryKillCount` of the row with the race; race zero is ignored. -/
def killsTable (db : Database) (guid raceId : Nat) : Option Int :=
  if raceId = 0 then none else lookup db .player_bestiary_kills guid .kills raceId

/-! ## The player, the snapshots and the database -/

structure PlayerSaveSnapshot where
  queries : List Stmt
  storageSnapshotId : Nat
  snapshotModifiedKeys : List Nat
  snapshotRemovedKeys : List Nat
  bestiarySnapshotId : Nat
  snapshotModifiedBestiaryRaceIds : List Nat

structure PlayerMemory where
  storageMap : Nat → Option Int
  modifiedStorageKeys : List Nat
  removedStorageKeys : List Nat
  storageDirtyRevision : Nat
  storageDirtyKeyRevisions : Nat → Option Nat
  bestiaryKills : Nat → Option Int
  modifiedBestiaryRaceIds : List Nat
  bestiaryDirtyRevision : Nat
  bestiaryDirtyRaceRevisions : Nat → Option Nat
  /-- The storage calls whose script is running: the key and its value before. -/
  calls : List (Nat × Option Int)

structure St where
  guid : Nat
  saveFlag : Bool
  memory : PlayerMemory
  db : Database
  /-- Built and not yet committed, oldest first. -/
  queue : List PlayerSaveSnapshot
  /-- Committed; their acknowledgement may come at any time. -/
  committed : List PlayerSaveSnapshot

def eraseKey (keys : List Nat) (key : Nat) : List Nat := keys.filter fun k => k ≠ key

def newerThan (revisions : Nat → Option Nat) (key snapshotId : Nat) : Bool :=
  match revisions key with
  | some revision => snapshotId < revision
  | none => false

/-- `setStorageValue` up to the script. -/
def enterStorage (m : PlayerMemory) (key : Nat) (value : Option Int) : PlayerMemory :=
  { m with
    storageMap := update m.storageMap key (value.bind normalize)
    calls := (key, m.storageMap key) :: m.calls }

def markStorage (m : PlayerMemory) (key : Nat) : PlayerMemory :=
  { m with
    modifiedStorageKeys :=
      if (m.storageMap key).isSome then m.modifiedStorageKeys.insert key else eraseKey m.modifiedStorageKeys key
    removedStorageKeys :=
      if (m.storageMap key).isSome then eraseKey m.removedStorageKeys key else m.removedStorageKeys.insert key
    storageDirtyRevision := m.storageDirtyRevision + 1
    storageDirtyKeyRevisions := update m.storageDirtyKeyRevisions key (some (m.storageDirtyRevision + 1)) }

/-- The rest of `setStorageValue`, for the call that entered last. -/
def leaveStorage (m : PlayerMemory) : PlayerMemory :=
  match m.calls with
  | [] => m
  | (key, oldValue) :: calls =>
    if oldValue = m.storageMap key then { m with calls := calls } else { markStorage m key with calls := calls }

def setBestiaryKillCount (m : PlayerMemory) (raceId count : Nat) : PlayerMemory :=
  if raceId = 0 then m
  else if m.bestiaryKills raceId = some (count : Int) then m
  else
    { m with
      bestiaryKills := update m.bestiaryKills raceId (some (count : Int))
      modifiedBestiaryRaceIds := m.modifiedBestiaryRaceIds.insert raceId
      bestiaryDirtyRevision := m.bestiaryDirtyRevision + 1
      bestiaryDirtyRaceRevisions :=
        update m.bestiaryDirtyRaceRevisions raceId (some (m.bestiaryDirtyRevision + 1)) }

section
variable {types : Nat → ItemType}

def St.player (s : St) (rest : Player types) : Player types :=
  { rest with
    guid := s.guid
    saveFlag := s.saveFlag
    storageMap := s.memory.storageMap
    modifiedStorageKeys := s.memory.modifiedStorageKeys
    removedStorageKeys := s.memory.removedStorageKeys
    bestiaryKills := s.memory.bestiaryKills }

/-- The races of `getBestiaryDirtySnapshot`, none when the system is disabled. -/
def snapshotRaceIds (s : St) (env : Env) : List Nat :=
  if env.bestiarySystemEnabled then s.memory.modifiedBestiaryRaceIds else []

def buildPlayerSave (s : St) (env : Env) (rest : Player types) : PlayerSaveSnapshot where
  queries := savePlayerQueries env (s.player rest) (snapshotRaceIds s env)
  storageSnapshotId := s.memory.storageDirtyRevision
  snapshotModifiedKeys := s.memory.modifiedStorageKeys
  snapshotRemovedKeys := s.memory.removedStorageKeys
  bestiarySnapshotId := if env.bestiarySystemEnabled then s.memory.bestiaryDirtyRevision else 0
  snapshotModifiedBestiaryRaceIds := snapshotRaceIds s env

end

/-- The oldest snapshot in a transaction. -/
def flushPlayerSave (s : St) (ok : Bool) : St :=
  match s.queue with
  | [] => s
  | save :: queue =>
    match ok, executeAll save.queries s.db with
    | true, some db => { s with db := db, queue := queue, committed := s.committed ++ [save] }
    | _, _ => { s with queue := queue }

def acknowledgeStorageKey (snapshotId : Nat) (m : PlayerMemory) (key : Nat) : PlayerMemory :=
  if newerThan m.storageDirtyKeyRevisions key snapshotId then m
  else
    { m with
      modifiedStorageKeys := eraseKey m.modifiedStorageKeys key
      removedStorageKeys := eraseKey m.removedStorageKeys key
      storageDirtyKeyRevisions := update m.storageDirtyKeyRevisions key none }

def acknowledgeStorageDirty (m : PlayerMemory) (save : PlayerSaveSnapshot) : PlayerMemory :=
  save.snapshotRemovedKeys.foldl (acknowledgeStorageKey save.storageSnapshotId)
    (save.snapshotModifiedKeys.foldl (acknowledgeStorageKey save.storageSnapshotId) m)

def acknowledgeBestiaryRace (snapshotId : Nat) (m : PlayerMemory) (raceId : Nat) : PlayerMemory :=
  if newerThan m.bestiaryDirtyRaceRevisions raceId snapshotId then m
  else
    { m with
      modifiedBestiaryRaceIds := eraseKey m.modifiedBestiaryRaceIds raceId
      bestiaryDirtyRaceRevisions := update m.bestiaryDirtyRaceRevisions raceId none }

def acknowledgeBestiaryDirty (m : PlayerMemory) (save : PlayerSaveSnapshot) : PlayerMemory :=
  save.snapshotModifiedBestiaryRaceIds.foldl (acknowledgeBestiaryRace save.bestiarySnapshotId) m

def acknowledgePlayerSave (m : PlayerMemory) (save : PlayerSaveSnapshot) : PlayerMemory :=
  acknowledgeBestiaryDirty (acknowledgeStorageDirty m save) save

inductive Ev (types : Nat → ItemType) where
  | enterStorage (key : Nat) (value : Option Int)
  | leaveStorage
  | setBestiaryKillCount (raceId count : Nat)
  | build (env : Env) (rest : Player types)
  | commit (ok : Bool)
  /-- The acknowledgement of one of the committed snapshots. -/
  | acknowledge (i : Nat)

def step {types : Nat → ItemType} (s : St) : Ev types → St
  | .enterStorage key value => { s with memory := enterStorage s.memory key value }
  | .leaveStorage => { s with memory := leaveStorage s.memory }
  | .setBestiaryKillCount raceId count => { s with memory := setBestiaryKillCount s.memory raceId count }
  | .build env rest => { s with queue := s.queue ++ [buildPlayerSave s env rest] }
  | .commit ok => flushPlayerSave s ok
  | .acknowledge i =>
    match s.committed[i]? with
    | none => s
    | some save => { s with memory := acknowledgePlayerSave s.memory save }

/-- A player who has just been loaded, with the bestiary system enabled. -/
structure Loaded (s : St) : Prop where
  storageMap : ∀ key, s.memory.storageMap key = storageTable s.db s.guid key
  bestiaryKills : ∀ raceId, s.memory.bestiaryKills raceId = killsTable s.db s.guid raceId
  modifiedStorageKeys : s.memory.modifiedStorageKeys = []
  removedStorageKeys : s.memory.removedStorageKeys = []
  storageDirtyKeyRevisions : s.memory.storageDirtyKeyRevisions = fun _ => none
  modifiedBestiaryRaceIds : s.memory.modifiedBestiaryRaceIds = []
  bestiaryDirtyRaceRevisions : s.memory.bestiaryDirtyRaceRevisions = fun _ => none
  calls : s.memory.calls = []
  queue : s.queue = []
  committed : s.committed = []

/-- The states reached by any order of events after the login. -/
def Reached (types : Nat → ItemType) (s : St) : Prop := Reach Loaded (@step types) (fun _ _ => True) s

/-! ## What a save does to the two tables -/

def markOf (modified removed : List Nat) (key : Nat) : Option Mark :=
  if key ∈ modified then some .modified else if key ∈ removed then some .removed else none

section
variable {types : Nat → ItemType} (env : Env) (p : Player types)

theorem storagePart_ops : (storagePart env p).2.flatMap Stmt.ops =
    (if p.removedStorageKeys.isEmpty then []
      else (Stmt.deleteKeys .player_storage p.guid (p.removedStorageKeys.map Int.ofNat)).ops) ++
      (storageRows p).flatMap (insertRow .player_storage [.value]) := by
  unfold storagePart
  rw [List.flatMap_append, dbInsert_ops]
  split
  · rfl
  · simp

theorem cellRun_storagePart (key : Nat) (x : List Record) :
    cellRun ⟨.player_storage, p.guid, key⟩ ((storagePart env p).2.flatMap Stmt.ops) x =
      some (((storageRows p).filter fun r => decide (cellOf .player_storage r = ⟨.player_storage, p.guid, key⟩)).foldl
        (put [.value]) (if key ∈ p.removedStorageKeys then [] else x)) := by
  rw [storagePart_ops, cellRun_append]
  have hdel : cellRun ⟨.player_storage, p.guid, key⟩ (if p.removedStorageKeys.isEmpty then []
      else (Stmt.deleteKeys .player_storage p.guid (p.removedStorageKeys.map Int.ofNat)).ops) x =
      some (if key ∈ p.removedStorageKeys then [] else x) := by
    cases p.removedStorageKeys with
    | nil => rfl
    | cons k keys =>
      have hmem : (key : Int) ∈ (k :: keys).map Int.ofNat ↔ key ∈ k :: keys := by
        rw [List.mem_map]
        constructor
        · rintro ⟨a, ha, e⟩
          rwa [Int.ofNat.inj e] at ha
        · intro h
          exact ⟨key, h, rfl⟩
      show some (if (Table.player_storage = .player_storage ∧ p.guid = p.guid ∧
        (key : Int) ∈ (k :: keys).map Int.ofNat) then [] else x) = _
      simp only [hmem, true_and]
  rw [hdel, Option.bind_some]
  exact cellRun_put (t := .player_storage) (List.cons_ne_nil _ _) rfl (by decide) _

theorem savePlayerQueries_saved (h : p.saveFlag = true) (ids : List Nat) :
    savePlayerQueries env p ids =
      .update .players p.guid (playerSets env p) :: (parts env p ids).flatMap (·.2) := by
  unfold savePlayerQueries
  rw [if_pos h]

theorem storageTable_save (hflag : p.saveFlag = true)
    (hdisjoint : ∀ key ∈ p.modifiedStorageKeys, key ∉ p.removedStorageKeys)
    (hvalue : ∀ key, p.storageMap key ≠ some (-1)) {ids : List Nat} {db db' : Database}
    (hrun : executeAll (savePlayerQueries env p ids) db = some db') (id key : Nat) :
    storageTable db' p.guid key =
      Snap.write ⟨id, markOf p.modifiedStorageKeys p.removedStorageKeys, p.storageMap⟩ key
        (storageTable db p.guid key) := by
  rw [savePlayerQueries_saved env p hflag] at hrun
  have hcell := save_cell (j := ⟨.player_storage, p.guid, key⟩) (parts_ok env p ids)
    (e := storagePart env p) (by simp [parts]) rfl hrun
  rw [cellRun_storagePart, Option.some.injEq] at hcell
  have hread := lookup_foldl_put .player_storage p.guid [.value] (c := .value)
    List.mem_cons_self (f := fun key value => record [(.player_id, .int p.guid), (.key, .int key), (.value, .int value)])
    (fun _ _ => rfl) (fun _ _ => rfl) p.modifiedStorageKeys p.storageMap key
    (if key ∈ p.removedStorageKeys then [] else db ⟨.player_storage, p.guid, key⟩)
  rw [show (p.modifiedStorageKeys.filterMap fun key => (p.storageMap key).map fun value =>
    record [(.player_id, .int p.guid), (.key, .int key), (.value, .int value)]) = storageRows p from rfl, hcell] at hread
  have hlookup : lookup db' .player_storage p.guid .value key =
      ((if key ∈ p.modifiedStorageKeys then p.storageMap key else none).map some).getD
        ((if key ∈ p.removedStorageKeys then [] else db ⟨.player_storage, p.guid, key⟩).head?.map
          fun r => intOf (r .value)) := hread
  unfold storageTable Snap.write markOf
  rw [hlookup]
  by_cases hm : key ∈ p.modifiedStorageKeys
  · have hr := hdisjoint key hm
    cases hv : p.storageMap key with
    | none => simp [hm, hr, hv, lookup]
    | some v =>
      have hne : v ≠ -1 := by
        rintro rfl
        exact hvalue key hv
      simp [hm, hv, normalize, hne]
  · grind [lookup]

theorem killsTable_save (hflag : p.saveFlag = true) (hzero : p.bestiaryKills 0 = none) {ids : List Nat}
    (hoff : env.bestiarySystemEnabled = false → ids = []) {db db' : Database}
    (hrun : executeAll (savePlayerQueries env p ids) db = some db') (id raceId : Nat) :
    killsTable db' p.guid raceId =
      Snap.write ⟨id, markOf ids [], p.bestiaryKills⟩ raceId (killsTable db p.guid raceId) := by
  rw [savePlayerQueries_saved env p hflag] at hrun
  have hcell := save_cell (j := ⟨.player_bestiary_kills, p.guid, raceId⟩) (parts_ok env p ids)
    (e := bestiaryPart env p ids) (by simp [parts]) rfl hrun
  have hops : (bestiaryPart env p ids).2.flatMap Stmt.ops =
      (bestiaryRows p ids).flatMap (insertRow .player_bestiary_kills [.kills]) := by
    unfold bestiaryPart
    cases hon : env.bestiarySystemEnabled with
    | true => exact dbInsert_ops ..
    | false =>
      rw [hoff hon]
      rfl
  rw [hops, cellRun_put (t := .player_bestiary_kills) (List.cons_ne_nil _ _) rfl (by decide),
    Option.some.injEq] at hcell
  have hread := lookup_foldl_put .player_bestiary_kills p.guid [.kills] (c := .kills)
    List.mem_cons_self
    (f := fun raceId kills => record [(.player_id, .int p.guid), (.raceid, .int raceId), (.kills, .int kills)])
    (fun _ _ => rfl) (fun _ _ => rfl) ids p.bestiaryKills raceId (db ⟨.player_bestiary_kills, p.guid, raceId⟩)
  rw [show (ids.filterMap fun raceId => (p.bestiaryKills raceId).map fun kills =>
    record [(.player_id, .int p.guid), (.raceid, .int raceId), (.kills, .int kills)]) = bestiaryRows p ids from rfl,
    hcell] at hread
  have hlookup : lookup db' .player_bestiary_kills p.guid .kills raceId =
      ((if raceId ∈ ids then p.bestiaryKills raceId else none).map some).getD
        (lookup db .player_bestiary_kills p.guid .kills raceId) := hread
  unfold killsTable Snap.write markOf
  by_cases h0 : raceId = 0
  · grind
  · grind

end

/-! ## Two deltas -/

/-- One of the two maps, as a `Delta` has it. -/
structure Side where
  map : PlayerMemory → Nat → Option Int
  marks : PlayerMemory → Nat → Option Mark
  revs : PlayerMemory → Nat → Option Nat
  clock : PlayerMemory → Nat
  calls : PlayerMemory → List (Nat × Option Int)
  table : Database → Nat → Nat → Option Int
  snapshotId : PlayerSaveSnapshot → Nat
  snapshotMarks : PlayerSaveSnapshot → Nat → Option Mark

def storageSide : Side where
  map m := m.storageMap
  marks m := markOf m.modifiedStorageKeys m.removedStorageKeys
  revs m := m.storageDirtyKeyRevisions
  clock m := m.storageDirtyRevision
  calls m := m.calls
  table := storageTable
  snapshotId save := save.storageSnapshotId
  snapshotMarks save := markOf save.snapshotModifiedKeys save.snapshotRemovedKeys

def killsSide : Side where
  map m := m.bestiaryKills
  marks m := markOf m.modifiedBestiaryRaceIds []
  revs m := m.bestiaryDirtyRaceRevisions
  clock m := m.bestiaryDirtyRevision
  calls _ := []
  table := killsTable
  snapshotId save := save.bestiarySnapshotId
  snapshotMarks save := markOf save.snapshotModifiedBestiaryRaceIds []

structure Side.Sees (F : Side) (m : PlayerMemory) (d : Delta Nat Int) : Prop where
  map : F.map m = d.map
  marks : F.marks m = d.marks
  revs : F.revs m = d.revs
  clock : F.clock m = d.clock
  calls : F.calls m = d.calls

structure Side.Stands (F : Side) (guid : Nat) (save : PlayerSaveSnapshot) (S : Snap Nat Int) : Prop where
  marks : F.snapshotMarks save = S.marks
  id : ∀ k, S.marks k ≠ none → F.snapshotId save = S.id
  write : ∀ db db', executeAll save.queries db = some db' →
    ∀ k, F.table db' guid k = S.write k (F.table db guid k)

structure Side.Sim (F : Side) (s : St) (d : Delta Nat Int) : Prop where
  sees : F.Sees s.memory d
  table : F.table s.db s.guid = d.table
  queue : List.Forall₂ (F.Stands s.guid) s.queue d.queue
  committed : List.Forall₂ (F.Stands s.guid) s.committed d.done

/-! ## Acknowledging -/

theorem newerThan_iff (revs : Nat → Option Nat) (key id : Nat) :
    newerThan revs key id = false ↔ Delta.Old id revs key := by
  unfold newerThan Delta.Old
  cases revs key with
  | none => simp
  | some r => simp

theorem markOf_eq_none {modified removed : List Nat} {key : Nat} :
    markOf modified removed key = none ↔ key ∉ modified ∧ key ∉ removed := by
  unfold markOf
  by_cases hm : key ∈ modified <;> simp [hm]

theorem markOf_erase (modified removed : List Nat) (key : Nat) :
    markOf (eraseKey modified key) (eraseKey removed key) = update (markOf modified removed) key none := by
  funext k
  by_cases e : k = key <;> simp [e, update_self, eraseKey, markOf]

def Side.AcksKey (F : Side) (ack : Nat → PlayerMemory → Nat → PlayerMemory) : Prop :=
  ∀ (m : PlayerMemory) (d : Delta Nat Int) (id key : Nat), F.Sees m d → F.Sees (ack id m key) (d.ackKey id key)

variable {m : PlayerMemory} {d : Delta Nat Int} {F : Side}

theorem Side.AcksKey.foldl {ack : Nat → PlayerMemory → Nat → PlayerMemory} (h : F.AcksKey ack) (hs : F.Sees m d)
    (id : Nat) (keys : List Nat) : F.Sees (keys.foldl (ack id) m) (keys.foldl (Delta.ackKey id) d) := by
  induction keys generalizing m d with
  | nil => exact hs
  | cons key keys ih => exact ih (h m d id key hs)

theorem Side.AcksKey.of_clear {ack : Nat → PlayerMemory → Nat → PlayerMemory}
    {clear : PlayerMemory → Nat → PlayerMemory}
    (hack : ∀ id m key, ack id m key = if newerThan (F.revs m) key id then m else clear m key)
    (hmap : ∀ m key, F.map (clear m key) = F.map m)
    (hmarks : ∀ m key, F.marks (clear m key) = update (F.marks m) key none)
    (hrevs : ∀ m key, F.revs (clear m key) = update (F.revs m) key none)
    (hclock : ∀ m key, F.clock (clear m key) = F.clock m) (hcalls : ∀ m key, F.calls (clear m key) = F.calls m) :
    F.AcksKey ack := by
  intro m d id key hs
  rw [hack]
  unfold Delta.ackKey
  cases hn : newerThan (F.revs m) key id with
  | false =>
    have hold := (newerThan_iff _ _ _).mp hn
    rw [hs.revs] at hold
    rw [if_pos hold]
    refine ⟨?_, ?_, ?_, ?_, ?_⟩
    · exact (hmap m key).trans hs.map
    · simp [hmarks, hs.marks]
    · simp [hrevs, hs.revs]
    · exact (hclock m key).trans hs.clock
    · exact (hcalls m key).trans hs.calls
  | true =>
    have hold : ¬ Delta.Old id d.revs key := by
      rw [← hs.revs, ← newerThan_iff, hn]
      decide
    rw [if_neg hold]
    exact hs

theorem storage_acksKey : storageSide.AcksKey acknowledgeStorageKey :=
  .of_clear (fun _ _ _ => rfl) (fun _ _ => rfl) (fun _ _ => markOf_erase ..) (fun _ _ => rfl) (fun _ _ => rfl)
    (fun _ _ => rfl)

theorem kills_acksKey : killsSide.AcksKey acknowledgeBestiaryRace :=
  .of_clear (fun _ _ _ => rfl) (fun _ _ => rfl) (fun m raceId => markOf_erase m.modifiedBestiaryRaceIds [] raceId)
    (fun _ _ => rfl) (fun _ _ => rfl) (fun _ _ => rfl)

theorem Side.Sees.foldl {f : PlayerMemory → Nat → PlayerMemory} (h : ∀ m key, F.Sees m d → F.Sees (f m key) d)
    (hs : F.Sees m d) (keys : List Nat) : F.Sees (keys.foldl f m) d := by
  induction keys generalizing m with
  | nil => exact hs
  | cons key keys ih => exact ih (h m key hs)

theorem storage_sees_bestiary (id raceId : Nat) (hs : storageSide.Sees m d) :
    storageSide.Sees (acknowledgeBestiaryRace id m raceId) d := by
  unfold acknowledgeBestiaryRace
  split
  · exact hs
  · exact { hs with }

theorem kills_sees_storage (id key : Nat) (hs : killsSide.Sees m d) :
    killsSide.Sees (acknowledgeStorageKey id m key) d := by
  unfold acknowledgeStorageKey
  split
  · exact hs
  · exact { hs with }

def Side.Acks (F : Side) : Prop :=
  ∀ (m : PlayerMemory) (d : Delta Nat Int) (guid : Nat) (save : PlayerSaveSnapshot) (S : Snap Nat Int),
    F.Stands guid save S → F.Sees m d → F.Sees (acknowledgePlayerSave m save) (d.acknowledge S)

theorem storage_acks : storageSide.Acks := by
  intro m d guid save S hS hs
  have hkeys : ∀ k, S.marks k ≠ none ↔ k ∈ save.snapshotModifiedKeys ++ save.snapshotRemovedKeys := by
    intro k
    rw [← hS.marks, List.mem_append]
    show ¬ markOf _ _ k = none ↔ _
    rw [markOf_eq_none]
    simp only [not_and_or, not_not]
  have hstorage : storageSide.Sees (acknowledgeStorageDirty m save) (d.acknowledge S) := by
    rw [Delta.acknowledge_eq hkeys hS.id, List.foldl_append]
    exact storage_acksKey.foldl (storage_acksKey.foldl hs _ _) _ _
  exact hstorage.foldl (fun _ raceId h => storage_sees_bestiary _ raceId h) _

theorem kills_acks : killsSide.Acks := by
  intro m d guid save S hS hs
  have hkeys : ∀ k, S.marks k ≠ none ↔ k ∈ save.snapshotModifiedBestiaryRaceIds := by
    intro k
    rw [← hS.marks]
    show ¬ markOf _ _ k = none ↔ _
    rw [markOf_eq_none]
    simp
  have hkept : killsSide.Sees (acknowledgeStorageDirty m save) d :=
    (hs.foldl (fun _ key h => kills_sees_storage _ key h) _).foldl (fun _ key h => kills_sees_storage _ key h) _
  rw [Delta.acknowledge_eq hkeys hS.id]
  exact kills_acksKey.foldl hkept _ _

/-! ## Changing -/

theorem markOf_mark (m : PlayerMemory) (key : Nat) :
    markOf (markStorage m key).modifiedStorageKeys (markStorage m key).removedStorageKeys =
      update (markOf m.modifiedStorageKeys m.removedStorageKeys) key
        (some (if m.storageMap key = none then .removed else .modified)) := by
  funext k
  unfold markStorage markOf
  by_cases e : k = key
  · subst e
    cases m.storageMap k with
    | none => simp [eraseKey]
    | some v => simp
  · cases m.storageMap key with
    | none => simp [eraseKey, e]
    | some v => simp [eraseKey, e]

section
variable {m : PlayerMemory} {d : Delta Nat Int}

theorem storage_enter (hs : storageSide.Sees m d) (key : Nat) (value : Option Int) :
    storageSide.Sees (enterStorage m key value) (d.step (.enter key (value.bind normalize))) := by
  have hmap : m.storageMap = d.map := hs.map
  have hcalls : m.calls = d.calls := hs.calls
  refine { hs with map := ?_, calls := ?_ }
  · show update m.storageMap key _ = update d.map key _
    rw [hmap]
  · show (key, m.storageMap key) :: m.calls = (key, d.map key) :: d.calls
    rw [hmap, hcalls]

theorem storage_leave (hs : storageSide.Sees m d) : storageSide.Sees (leaveStorage m) (d.step .leave) := by
  have hmap : m.storageMap = d.map := hs.map
  have hcalls : m.calls = d.calls := hs.calls
  show storageSide.Sees (leaveStorage m) d.leave
  unfold leaveStorage Delta.leave
  rw [← hcalls]
  cases m.calls with
  | nil => exact hs
  | cons c calls =>
    obtain ⟨key, oldValue⟩ := c
    have hkey : d.map key = m.storageMap key := by rw [hmap]
    simp only [hkey]
    by_cases hold : oldValue = m.storageMap key
    · rw [if_pos hold, if_pos hold]
      exact { hs with calls := rfl }
    rw [if_neg hold, if_neg hold]
    refine ⟨hs.map, ?_, ?_, ?_, rfl⟩
    · show markOf (markStorage m key).modifiedStorageKeys (markStorage m key).removedStorageKeys = _
      rw [markOf_mark, hmap, show markOf m.modifiedStorageKeys m.removedStorageKeys = d.marks from hs.marks]
      rfl
    · show update m.storageDirtyKeyRevisions key (some (m.storageDirtyRevision + 1)) = _
      rw [show m.storageDirtyKeyRevisions = d.revs from hs.revs, show m.storageDirtyRevision = d.clock from hs.clock]
      rfl
    · show m.storageDirtyRevision + 1 = d.clock + 1
      rw [show m.storageDirtyRevision = d.clock from hs.clock]

theorem kills_leave (hs : killsSide.Sees m d) : killsSide.Sees (leaveStorage m) d := by
  unfold leaveStorage
  split
  · exact hs
  · split
    · exact { hs with }
    · exact { hs with }

theorem storage_setKills (hs : storageSide.Sees m d) (raceId count : Nat) :
    storageSide.Sees (setBestiaryKillCount m raceId count) d := by
  unfold setBestiaryKillCount
  split
  · exact hs
  · split
    · exact hs
    · exact { hs with }

theorem kills_setKills (hs : killsSide.Sees m d) (raceId count : Nat) :
    ∃ es : List (Delta.Ev Nat Int), killsSide.Sees (setBestiaryKillCount m raceId count) (es.foldl Delta.step d) ∧
      (es.foldl Delta.step d).table = d.table ∧ (es.foldl Delta.step d).queue = d.queue ∧
      (es.foldl Delta.step d).done = d.done := by
  have hmap : m.bestiaryKills = d.map := hs.map
  have hmarks : markOf m.modifiedBestiaryRaceIds [] = d.marks := hs.marks
  have hrevs : m.bestiaryDirtyRaceRevisions = d.revs := hs.revs
  have hclock : m.bestiaryDirtyRevision = d.clock := hs.clock
  have hcalls : [] = d.calls := hs.calls
  unfold setBestiaryKillCount
  split
  · exact ⟨[], hs, rfl, rfl, rfl⟩
  split
  · exact ⟨[], hs, rfl, rfl, rfl⟩
  rename_i _ hne
  refine ⟨[.enter raceId (some (count : Int)), .leave], ?_⟩
  have hstep : [Delta.Ev.enter raceId (some (count : Int)), .leave].foldl Delta.step d =
      { d with
        map := update d.map raceId (some (count : Int))
        marks := update d.marks raceId (some .modified)
        revs := update d.revs raceId (some (d.clock + 1))
        clock := d.clock + 1 } := by
    have hchanged : ¬ d.map raceId = some (count : Int) := by
      rw [← hmap]
      exact hne
    simp [Delta.leave, Delta.step, Delta.mark, hchanged]
  rw [hstep]
  refine ⟨⟨?_, ?_, ?_, ?_, hcalls⟩, rfl, rfl, rfl⟩
  · show update m.bestiaryKills raceId _ = _
    rw [hmap]
  · show markOf (m.modifiedBestiaryRaceIds.insert raceId) [] = update d.marks raceId (some .modified)
    rw [← hmarks]
    grind [markOf]
  · show update m.bestiaryDirtyRaceRevisions raceId (some (m.bestiaryDirtyRevision + 1)) = _
    rw [hrevs, hclock]
  · show m.bestiaryDirtyRevision + 1 = d.clock + 1
    rw [hclock]

end

/-! ## Every step is the delta's -/

/-- What the queries of a snapshot lean on. -/
structure Sane (m : PlayerMemory) : Prop where
  disjoint : ∀ key ∈ m.modifiedStorageKeys, key ∉ m.removedStorageKeys
  value : ∀ key, m.storageMap key ≠ some (-1)
  race : m.bestiaryKills 0 = none

theorem forall₂_getElem? {α β : Type*} {R : α → β → Prop} {l : List α} {l' : List β} (h : List.Forall₂ R l l')
    (i : Nat) : (l[i]? = none ∧ l'[i]? = none) ∨ ∃ a b, l[i]? = some a ∧ l'[i]? = some b ∧ R a b := by
  induction h generalizing i with
  | nil => exact .inl ⟨rfl, rfl⟩
  | cons hab _ ih =>
    cases i with
    | zero => exact .inr ⟨_, _, rfl, rfl, hab⟩
    | succ i =>
      exact ih i

section
variable {types : Nat → ItemType} {F : Side} {s : St} {d : Delta Nat Int}

theorem Side.Sim.memory (h : F.Sim s d) {d' : Delta Nat Int} (hs : F.Sees m d') (htable : d'.table = d.table)
    (hqueue : d'.queue = d.queue) (hdone : d'.done = d.done) : F.Sim { s with memory := m } d' := by
  refine ⟨hs, ?_, ?_, ?_⟩
  · rw [htable]
    exact h.table
  · rw [hqueue]
    exact h.queue
  · rw [hdone]
    exact h.committed

theorem Side.Sees.frame (h : F.Sees m d) (table : Nat → Option Int) (queue done : List (Snap Nat Int)) :
    F.Sees m { d with table := table, queue := queue, done := done } :=
  { h with }

theorem Side.Sim.commit (h : F.Sim s d) (ok : Bool) : ∃ ok', F.Sim (flushPlayerSave s ok) (d.commitFirst ok') := by
  have hqueue := h.queue
  unfold flushPlayerSave Delta.commitFirst
  cases hq : s.queue with
  | nil =>
    rw [hq, List.forall₂_nil_left_iff] at hqueue
    rw [hqueue]
    exact ⟨true, h⟩
  | cons save queue =>
    rw [hq, List.forall₂_cons_left_iff] at hqueue
    obtain ⟨S, rest, hS, hrest, e⟩ := hqueue
    have hlost : F.Sim { s with queue := queue } { d with queue := rest } :=
      ⟨h.sees.frame _ _ _, h.table, hrest, h.committed⟩
    simp only [e]
    cases hrun : executeAll save.queries s.db with
    | none =>
      refine ⟨false, ?_⟩
      cases ok <;> exact hlost
    | some db =>
      cases ok with
      | false => exact ⟨false, hlost⟩
      | true =>
        refine ⟨true, h.sees.frame _ _ _, ?_, hrest, List.rel_append h.committed (.cons hS .nil)⟩
        funext k
        show F.table db s.guid k = S.write k (d.table k)
        rw [hS.write s.db db hrun k, h.table]

theorem Side.Sim.acknowledge (hA : F.Acks) (h : F.Sim s d) (i : Nat) :
    F.Sim (@step types s (.acknowledge i)) (d.ackAt i) := by
  show F.Sim (match s.committed[i]? with
    | none => s
    | some save => { s with memory := acknowledgePlayerSave s.memory save }) _
  unfold Delta.ackAt
  rcases forall₂_getElem? h.committed i with ⟨hs, hd⟩ | ⟨save, S, hs, hd, hS⟩
  · rw [hs, hd]
    exact h
  · rw [hs, hd]
    exact h.memory (hA _ _ _ _ _ hS h.sees) rfl rfl rfl

theorem storage_build (h : storageSide.Sim s d) (hflag : s.saveFlag = true) (hs : Sane s.memory) (env : Env)
    (rest : Player types) : storageSide.Stands s.guid (buildPlayerSave s env rest) (d.snapshot true) := by
  refine ⟨h.sees.marks, fun _ _ => h.sees.clock, ?_⟩
  intro db db' hrun k
  have hwrite := storageTable_save env (s.player rest) hflag hs.disjoint hs.value hrun d.clock k
  rw [show markOf (s.player rest).modifiedStorageKeys (s.player rest).removedStorageKeys = d.marks from h.sees.marks,
    show (s.player rest).storageMap = d.map from h.sees.map] at hwrite
  exact hwrite

theorem kills_build (h : killsSide.Sim s d) (hflag : s.saveFlag = true) (hs : Sane s.memory) (env : Env)
    (rest : Player types) :
    killsSide.Stands s.guid (buildPlayerSave s env rest) (d.snapshot env.bestiarySystemEnabled) := by
  have hmarks : markOf (snapshotRaceIds s env) [] = (d.snapshot env.bestiarySystemEnabled).marks := by
    unfold snapshotRaceIds Delta.snapshot
    cases env.bestiarySystemEnabled with
    | true => exact h.sees.marks
    | false => rfl
  refine ⟨hmarks, ?_, ?_⟩
  · intro k hk
    show (if env.bestiarySystemEnabled then s.memory.bestiaryDirtyRevision else 0) = d.clock
    cases hon : env.bestiarySystemEnabled with
    | true => exact h.sees.clock
    | false =>
      rw [hon] at hk
      exact absurd rfl hk
  · intro db db' hrun k
    have hoff : env.bestiarySystemEnabled = false → snapshotRaceIds s env = [] := by
      intro hon
      simp [snapshotRaceIds, hon]
    have hwrite := killsTable_save env (s.player rest) hflag hs.race hoff hrun d.clock k
    rw [hmarks, show (s.player rest).bestiaryKills = d.map from h.sees.map] at hwrite
    exact hwrite

theorem Side.Sim.build (h : F.Sim s d) {save : PlayerSaveSnapshot} {on : Bool}
    (hS : F.Stands s.guid save (d.snapshot on)) :
    F.Sim { s with queue := s.queue ++ [save] } (d.step (.build on)) :=
  ⟨h.sees.frame _ _ _, h.table, List.rel_append h.queue (.cons hS .nil), h.committed⟩

end

/-! ## Every run -/

section
variable {m : PlayerMemory}

theorem normalize_ne (v : Int) : normalize v ≠ some (-1) := by
  unfold normalize
  split
  · simp
  · rename_i h
    simpa using h

theorem Sane.enter (h : Sane m) (key : Nat) (value : Option Int) : Sane (enterStorage m key value) := by
  refine ⟨h.disjoint, ?_, h.race⟩
  intro k
  show update m.storageMap key (value.bind normalize) k ≠ some (-1)
  by_cases e : k = key
  · subst e
    rw [update_self]
    cases value with
    | none => simp
    | some v => exact normalize_ne v
  · rw [update_of_ne e]
    exact h.value k

theorem Sane.mark (h : Sane m) (key : Nat) : Sane (markStorage m key) := by
  refine ⟨?_, h.value, h.race⟩
  unfold markStorage
  cases m.storageMap key with
  | none =>
    intro k hk hr
    obtain ⟨hk, hne⟩ := List.mem_filter.mp hk
    rcases List.mem_insert_iff.mp hr with rfl | hr
    · simp at hne
    · exact h.disjoint k hk hr
  | some v =>
    intro k hk hr
    obtain ⟨hr, hne⟩ := List.mem_filter.mp hr
    rcases List.mem_insert_iff.mp hk with rfl | hk
    · simp at hne
    · exact h.disjoint k hk hr

theorem Sane.leave (h : Sane m) : Sane (leaveStorage m) := by
  unfold leaveStorage
  split
  · exact h
  rename_i key _ _ _
  split
  · exact { h with }
  · have hm := h.mark key
    exact { hm with }

theorem Sane.setKills (h : Sane m) (raceId count : Nat) : Sane (setBestiaryKillCount m raceId count) := by
  unfold setBestiaryKillCount
  split
  · exact h
  split
  · exact h
  rename_i h0 _
  refine ⟨h.disjoint, h.value, ?_⟩
  show update m.bestiaryKills raceId _ 0 = none
  rw [update_of_ne fun e => h0 e.symm]
  exact h.race

theorem Sane.acknowledge (h : Sane m) (save : PlayerSaveSnapshot) : Sane (acknowledgePlayerSave m save) := by
  have hfold : ∀ (f : PlayerMemory → Nat → PlayerMemory), (∀ m k, Sane m → Sane (f m k)) →
      ∀ (keys : List Nat) (m : PlayerMemory), Sane m → Sane (keys.foldl f m) := by
    intro f hf keys
    induction keys with
    | nil => exact fun m hm => hm
    | cons key keys ih => exact fun m hm => ih _ (hf m key hm)
  have hstorage : ∀ m key, Sane m → Sane (acknowledgeStorageKey save.storageSnapshotId m key) := by
    intro m key hm
    unfold acknowledgeStorageKey
    split
    · exact hm
    · refine ⟨?_, hm.value, hm.race⟩
      intro k hk hr
      exact hm.disjoint k (List.mem_filter.mp hk).1 (List.mem_filter.mp hr).1
  have hkills : ∀ m raceId, Sane m → Sane (acknowledgeBestiaryRace save.bestiarySnapshotId m raceId) := by
    intro m raceId hm
    unfold acknowledgeBestiaryRace
    split
    · exact hm
    · exact { hm with }
  exact hfold _ hkills _ _ (hfold _ hstorage _ _ (hfold _ hstorage _ _ h))

end

section
variable {types : Nat → ItemType} {F : Side} {s : St}

/-- Each side of a saved player follows a delta that keeps its invariant. -/
structure Tracks (s : St) : Prop where
  sane : Sane s.memory
  storage : ∃ d, storageSide.Sim s d ∧ d.Inv
  kills : ∃ d, killsSide.Sim s d ∧ d.Inv

theorem step_saveFlag (s : St) (e : Ev types) : (step s e).saveFlag = s.saveFlag := by
  cases e with
  | enterStorage key value => rfl
  | leaveStorage => rfl
  | setBestiaryKillCount raceId count => rfl
  | build env rest => rfl
  | commit ok =>
    show (flushPlayerSave s ok).saveFlag = s.saveFlag
    grind [flushPlayerSave]
  | acknowledge i =>
    simp only [step]
    split <;> rfl

theorem Sane.step (h : Sane s.memory) (e : Ev types) : Sane (step s e).memory := by
  cases e with
  | enterStorage key value => exact h.enter key value
  | leaveStorage => exact h.leave
  | setBestiaryKillCount raceId count => exact h.setKills raceId count
  | build env rest => exact h
  | commit ok =>
    show Sane (flushPlayerSave s ok).memory
    grind [flushPlayerSave]
  | acknowledge i =>
    simp only [PlayerSave.step]
    split
    · exact h
    · exact h.acknowledge _

theorem storage_step (h : storageSide.Sim s d) (hflag : s.saveFlag = true) (hs : Sane s.memory) (e : Ev types) :
    ∃ es : List (Delta.Ev Nat Int), storageSide.Sim (step s e) (es.foldl Delta.step d) := by
  cases e with
  | enterStorage key value =>
    exact ⟨[.enter key (value.bind normalize)], h.memory (storage_enter h.sees key value) rfl rfl rfl⟩
  | leaveStorage =>
    obtain ⟨htable, hqueue, hdone⟩ := d.leave_frame
    exact ⟨[.leave], h.memory (storage_leave h.sees) htable hqueue hdone⟩
  | setBestiaryKillCount raceId count => exact ⟨[], h.memory (storage_setKills h.sees raceId count) rfl rfl rfl⟩
  | build env rest => exact ⟨[.build true], h.build (storage_build h hflag hs env rest)⟩
  | commit ok =>
    obtain ⟨ok', h'⟩ := h.commit ok
    exact ⟨[.commit ok'], h'⟩
  | acknowledge i => exact ⟨[.ack i], h.acknowledge storage_acks i⟩

theorem kills_step (h : killsSide.Sim s d) (hflag : s.saveFlag = true) (hs : Sane s.memory) (e : Ev types) :
    ∃ es : List (Delta.Ev Nat Int), killsSide.Sim (step s e) (es.foldl Delta.step d) := by
  cases e with
  | enterStorage key value =>
    have hsees := h.sees
    exact ⟨[], h.memory { hsees with } rfl rfl rfl⟩
  | leaveStorage => exact ⟨[], h.memory (kills_leave h.sees) rfl rfl rfl⟩
  | setBestiaryKillCount raceId count =>
    obtain ⟨es, hsees, htable, hqueue, hdone⟩ := kills_setKills h.sees raceId count
    exact ⟨es, h.memory hsees htable hqueue hdone⟩
  | build env rest => exact ⟨[.build env.bestiarySystemEnabled], h.build (kills_build h hflag hs env rest)⟩
  | commit ok =>
    obtain ⟨ok', h'⟩ := h.commit ok
    exact ⟨[.commit ok'], h'⟩
  | acknowledge i => exact ⟨[.ack i], h.acknowledge kills_acks i⟩

theorem Tracks.step (h : Tracks s) (hflag : s.saveFlag = true) (e : Ev types) : Tracks (step s e) := by
  obtain ⟨d, hd, hi⟩ := h.storage
  obtain ⟨d', hd', hi'⟩ := h.kills
  obtain ⟨es, hes⟩ := storage_step hd hflag h.sane e
  obtain ⟨es', hes'⟩ := kills_step hd' hflag h.sane e
  exact ⟨h.sane.step e, ⟨_, hes, Delta.inv_run hi es⟩, ⟨_, hes', Delta.inv_run hi' es'⟩⟩

theorem Side.start (hmap : F.map s.memory = F.table s.db s.guid) (hmarks : F.marks s.memory = fun _ => none)
    (hrevs : F.revs s.memory = fun _ => none) (hcalls : F.calls s.memory = []) (hqueue : s.queue = [])
    (hcommitted : s.committed = []) : ∃ d, F.Sim s d ∧ d.Inv := by
  let d : Delta Nat Int :=
    ⟨F.map s.memory, fun _ => none, fun _ => none, F.clock s.memory, [], F.table s.db s.guid, [], []⟩
  have hstart : d.Start := ⟨hmap.symm, rfl, rfl, rfl, rfl, rfl⟩
  refine ⟨d, ⟨⟨rfl, hmarks, hrevs, rfl, hcalls⟩, rfl, ?_, ?_⟩, hstart.inv⟩
  · rw [hqueue]
    exact .nil
  · rw [hcommitted]
    exact .nil

theorem Loaded.tracks (h : Loaded s) : Tracks s := by
  refine ⟨⟨?_, ?_, ?_⟩, ?_, ?_⟩
  · simp [h.modifiedStorageKeys]
  · intro key
    rw [h.storageMap]
    unfold storageTable
    cases lookup s.db .player_storage s.guid .value key with
    | none => simp
    | some v => exact normalize_ne v
  · rw [h.bestiaryKills]
    rfl
  · apply Side.start (funext h.storageMap) ?_ h.storageDirtyKeyRevisions h.calls h.queue h.committed
    funext k
    exact markOf_eq_none.mpr ⟨by simp [h.modifiedStorageKeys], by simp [h.removedStorageKeys]⟩
  · apply Side.start (funext h.bestiaryKills) ?_ h.bestiaryDirtyRaceRevisions rfl h.queue h.committed
    funext k
    exact markOf_eq_none.mpr ⟨by simp [h.modifiedBestiaryRaceIds], by simp⟩

theorem tracks (h : Reached types s) (hflag : s.saveFlag = true) : Tracks s := by
  have hinv : s.saveFlag = true → Tracks s := by
    apply h.inv (I := fun s => s.saveFlag = true → Tracks s)
    · exact fun s hs _ => hs.tracks
    · intro s e _ ih hf
      rw [step_saveFlag] at hf
      exact (ih hf).step hf e
  exact hinv hflag

/-! ## The last save -/

/-- Committing and acknowledging change nothing the player has. -/
def Ev.settles : Ev types → Bool
  | .commit _ | .acknowledge _ => true
  | .enterStorage _ _ | .leaveStorage | .setBestiaryKillCount _ _ | .build _ _ => false

/-- A snapshot of the side as it is now is the last in the queue, unless it left it. -/
def Side.Ready (F : Side) (map : Nat → Option Int) (earlier : List (Snap Nat Int)) (S : Snap Nat Int) (s : St) :
    Prop :=
  ∃ d, F.Sim s d ∧ d.Inv ∧ d.Current S ∧ d.map = map ∧ d.queue <:+ earlier ++ [S]

theorem Side.Ready.step {map : Nat → Option Int} {earlier : List (Snap Nat Int)} {S : Snap Nat Int} (hA : F.Acks)
    (h : F.Ready map earlier S s) {e : Ev types} (he : e.settles = true) : F.Ready map earlier S (step s e) := by
  obtain ⟨d, hd, hi, hc, hmap, hq⟩ := h
  have hstep : ∃ e' : Delta.Ev Nat Int, e'.settles = true ∧ F.Sim (PlayerSave.step s e) (d.step e') := by
    cases e with
    | enterStorage key value => cases he
    | leaveStorage => cases he
    | setBestiaryKillCount raceId count => cases he
    | build env rest => cases he
    | commit ok =>
      obtain ⟨ok', h'⟩ := hd.commit ok
      exact ⟨.commit ok', rfl, h'⟩
    | acknowledge i => exact ⟨.ack i, rfl, hd.acknowledge hA i⟩
  obtain ⟨e', he', hsim⟩ := hstep
  obtain ⟨hc', hmap'⟩ := hc.step he'
  exact ⟨_, hsim, Delta.inv_step hi e', hc', hmap'.trans hmap, (Delta.settles_queue d he').trans hq⟩

theorem Side.Ready.run {map : Nat → Option Int} {earlier : List (Snap Nat Int)} {S : Snap Nat Int} (hA : F.Acks)
    (h : F.Ready map earlier S s) {es : List (Ev types)} (hes : ∀ e ∈ es, e.settles = true) :
    F.Ready map earlier S (Lib.run PlayerSave.step s es) := by
  induction es generalizing s with
  | nil => exact h
  | cons e es ih =>
    exact ih (h.step hA (hes e List.mem_cons_self)) fun e' he' => hes e' (List.mem_cons_of_mem _ he')

theorem Side.Ready.commit {map : Nat → Option Int} {earlier : List (Snap Nat Int)} {S : Snap Nat Int}
    (h : F.Ready map earlier S s) {save : PlayerSaveSnapshot} (hq : s.queue = [save]) {db : Database}
    (hrun : executeAll save.queries s.db = some db) (k : Nat) : F.table db s.guid k = map k := by
  obtain ⟨d, hd, hi, hc, hmap, hsuffix⟩ := h
  have hqueue := hd.queue
  rw [hq, List.forall₂_cons_left_iff] at hqueue
  obtain ⟨T, rest, hT, hrest, e⟩ := hqueue
  rw [List.forall₂_nil_left_iff] at hrest
  subst hrest
  have hTS : T = S := by
    obtain ⟨pre, hpre⟩ := hsuffix
    rw [e] at hpre
    exact (List.append_inj' hpre rfl).2 |> List.singleton_inj.mp
  subst hTS
  have hmem : T ∈ d.queue := by
    rw [e]
    exact List.mem_cons_self
  rw [hT.write _ _ hrun, hd.table, ← hmap]
  exact hc.commit hi hmem k

theorem Side.Ready.build (h : F.Sim s d) (hi : d.Inv) (hcalls : F.calls s.memory = []) {save : PlayerSaveSnapshot}
    (hS : F.Stands s.guid save (d.snapshot true)) :
    F.Ready (F.map s.memory) d.queue (d.snapshot true) { s with queue := s.queue ++ [save] } := by
  have hc : d.Current (d.snapshot true) := Delta.Current.build hi (h.sees.calls.symm.trans hcalls)
  exact ⟨_, h.build hS, Delta.inv_step hi (.build true), { hc with }, h.sees.map.symm,
    List.suffix_rfl⟩

theorem step_guid (s : St) (e : Ev types) : (step s e).guid = s.guid := by
  cases e with
  | enterStorage key value => rfl
  | leaveStorage => rfl
  | setBestiaryKillCount raceId count => rfl
  | build env rest => rfl
  | commit ok =>
    show (flushPlayerSave s ok).guid = s.guid
    grind [flushPlayerSave]
  | acknowledge i =>
    simp only [step]
    split <;> rfl

theorem run_guid (s : St) (es : List (Ev types)) : (run step s es).guid = s.guid := by
  induction es generalizing s with
  | nil => rfl
  | cons e es ih => exact (ih _).trans (step_guid s e)

/-- The state when what was built before and some of what was built now has been settled. -/
def settled (s : St) (env : Env) (rest : Player types) (es : List (Ev types)) : St :=
  run step (step s (.build env rest)) es

/-- A saved player, in any state reached with no call open: what is not marked is in the
    tables, and a save of that state, when it is the one left and its queries run, makes the
    tables equal to the maps. -/
theorem delta_saving_loses_nothing (h : Reached types s) (hflag : s.saveFlag = true) (hcalls : s.memory.calls = []) :
    (∀ key, key ∉ s.memory.modifiedStorageKeys → key ∉ s.memory.removedStorageKeys →
      storageTable s.db s.guid key = s.memory.storageMap key) ∧
    (∀ raceId, raceId ∉ s.memory.modifiedBestiaryRaceIds →
      killsTable s.db s.guid raceId = s.memory.bestiaryKills raceId) ∧
    ∀ (env : Env) (rest : Player types) (es : List (Ev types)), (∀ e ∈ es, e.settles = true) →
      (settled s env rest es).queue = [buildPlayerSave s env rest] →
      executeAll (buildPlayerSave s env rest).queries (settled s env rest es).db ≠ none →
      (∀ key, storageTable (flushPlayerSave (settled s env rest es) true).db s.guid key = s.memory.storageMap key) ∧
      (env.bestiarySystemEnabled = true → ∀ raceId,
        killsTable (flushPlayerSave (settled s env rest es) true).db s.guid raceId =
          s.memory.bestiaryKills raceId) := by
  have ht := tracks h hflag
  obtain ⟨d, hd, hi⟩ := ht.storage
  obtain ⟨d', hd', hi'⟩ := ht.kills
  have hdcalls : d.calls = [] := hd.sees.calls.symm.trans hcalls
  have hdcalls' : d'.calls = [] := hd'.sees.calls.symm
  refine ⟨?_, ?_, ?_⟩
  · intro key hm hr
    have hclean : d.marks key = none := by
      rw [← hd.sees.marks]
      exact markOf_eq_none.mpr ⟨hm, hr⟩
    have htable := hi.clean hdcalls hclean
    rw [← hd.table, ← hd.sees.map] at htable
    exact htable
  · intro raceId hm
    have hclean : d'.marks raceId = none := by
      rw [← hd'.sees.marks]
      exact markOf_eq_none.mpr ⟨hm, by simp⟩
    have htable := hi'.clean hdcalls' hclean
    rw [← hd'.table, ← hd'.sees.map] at htable
    exact htable
  · intro env rest es hes hq hrun
    obtain ⟨db, hdb⟩ := Option.ne_none_iff_exists'.mp hrun
    have hguid : (settled s env rest es).guid = s.guid := run_guid _ es
    have hflush : (flushPlayerSave (settled s env rest es) true).db = db := by
      simp [flushPlayerSave, hq, hdb]
    have hstorage := (Side.Ready.build hd hi hcalls (storage_build hd hflag ht.sane env rest)).run storage_acks hes
    rw [hflush, ← hguid]
    refine ⟨fun key => hstorage.commit hq hdb key, ?_⟩
    intro hon raceId
    have hS := kills_build hd' hflag ht.sane env rest
    rw [hon] at hS
    exact ((Side.Ready.build hd' hi' rfl hS).run kills_acks hes).commit hq hdb raceId

end

def newPlayer (saveFlag : Bool) (db : Database) : St where
  guid := 1
  saveFlag := saveFlag
  memory :=
    { storageMap := fun _ => none
      modifiedStorageKeys := []
      removedStorageKeys := []
      storageDirtyRevision := 0
      storageDirtyKeyRevisions := fun _ => none
      bestiaryKills := fun _ => none
      modifiedBestiaryRaceIds := []
      bestiaryDirtyRevision := 0
      bestiaryDirtyRaceRevisions := fun _ => none
      calls := [] }
  db := db
  queue := []
  committed := []

theorem newPlayer_loaded (saveFlag : Bool) : Loaded (newPlayer saveFlag newPlayerDb) := by
  refine ⟨?_, ?_, rfl, rfl, rfl, rfl, rfl, rfl, rfl, rfl⟩
  · simp [newPlayer, storageTable, lookup, newPlayerDb, playerCell]
  · simp [newPlayer, killsTable, lookup, newPlayerDb, playerCell]

def setFive : List (Ev plainTypes) := [.enterStorage 5 (some 7), .leaveStorage]

/-- Set and saved, the value is in the table. -/
theorem delta_saving_loses_nothing_five :
    storageTable (flushPlayerSave (settled (run step (newPlayer true newPlayerDb) setFive) minuteLater (plainPlayer 7) [])
      true).db 1 5 = some 7 := by
  have hreach : Reached plainTypes (run step (newPlayer true newPlayerDb) setFive) :=
    Reach.run (.init (newPlayer_loaded true)) ⟨trivial, trivial, trivial⟩
  obtain ⟨-, -, hfinal⟩ := delta_saving_loses_nothing hreach rfl rfl
  have hrun : (executeAll (buildPlayerSave (run step (newPlayer true newPlayerDb) setFive) minuteLater
      (plainPlayer 7)).queries newPlayerDb).isSome = true := rfl
  exact (hfinal minuteLater (plainPlayer 7) [] (by simp) rfl (Option.isSome_iff_ne_none.mp hrun)).1 5

def killOne : List (Ev plainTypes) := [.setBestiaryKillCount 21 1]

/-- A row that holds -1, written by other means. -/
def minusOneDb : Database := fun c =>
  if c = ⟨.player_storage, 1, 5⟩ then [fun _ => .int (-1)] else newPlayerDb c

theorem minusOne_loaded : Loaded (newPlayer true minusOneDb) := by
  refine ⟨?_, ?_, rfl, rfl, rfl, rfl, rfl, rfl, rfl, rfl⟩
  · intro key
    by_cases e : key = 5
    · subst e
      rfl
    · have hcell : (key : Int) ≠ 5 := by omega
      simp [newPlayer, storageTable, lookup, minusOneDb, newPlayerDb, playerCell, hcell]
  · simp [newPlayer, killsTable, lookup, minusOneDb, newPlayerDb, playerCell]

/-- Where a table does not follow its map. A save of a player who is not saved has no
    storage, and yet its acknowledgement clears the keys. A row of -1 is not loaded. And
    with the bestiary system disabled a save has no kills. -/
theorem table_differs :
    (∃ s, Reached plainTypes s ∧ s.memory.calls = [] ∧ 5 ∉ s.memory.modifiedStorageKeys ∧
      5 ∉ s.memory.removedStorageKeys ∧ s.memory.storageMap 5 = some 7 ∧
      lookup s.db .player_storage s.guid .value 5 = none) ∧
    (∃ s, Reached plainTypes s ∧ s.saveFlag = true ∧ s.memory.calls = [] ∧ 5 ∉ s.memory.modifiedStorageKeys ∧
      5 ∉ s.memory.removedStorageKeys ∧ s.memory.storageMap 5 = none ∧
      lookup s.db .player_storage s.guid .value 5 = some (-1)) ∧
    ∃ s, Reached plainTypes s ∧ s.saveFlag = true ∧ s.memory.calls = [] ∧ s.queue = [] ∧
      (settled s minuteLater (plainPlayer 7) []).queue = [buildPlayerSave s minuteLater (plainPlayer 7)] ∧
      (flushPlayerSave (settled s minuteLater (plainPlayer 7) []) true).committed.length = 1 ∧
      s.memory.bestiaryKills 21 = some 1 ∧
      lookup (flushPlayerSave (settled s minuteLater (plainPlayer 7) []) true).db .player_bestiary_kills s.guid .kills 21
        = none := by
  refine ⟨⟨run step (newPlayer false newPlayerDb)
    (setFive ++ [.build minuteLater (plainPlayer 7), .commit true, .acknowledge 0]), ?_, rfl, ?_, ?_, rfl, rfl⟩,
    ⟨newPlayer true minusOneDb, .init minusOne_loaded, rfl, rfl, ?_, ?_, rfl, rfl⟩,
    ⟨run step (newPlayer true newPlayerDb) killOne, ?_, rfl, rfl, rfl, rfl, rfl, rfl, rfl⟩⟩
  · exact Reach.run (.init (newPlayer_loaded false)) ⟨trivial, trivial, trivial, trivial, trivial, trivial⟩
  · exact List.not_mem_nil
  · exact List.not_mem_nil
  · exact List.not_mem_nil
  · exact List.not_mem_nil
  · exact Reach.run (.init (newPlayer_loaded true)) ⟨trivial, trivial⟩

end Backlands.PlayerSave
