/-
  Backlands.Save.Manager — `SaveManager` (src/save_manager.cpp): the asynchronous player saves,
  their write-ahead log and its recovery.

  Threads. The bookkeeping runs on the dispatcher; the SQL of an asynchronous flush runs on the
  thread pool and posts its completion back to the dispatcher. A step is one of: a call made on the
  dispatcher, one queued dispatcher task, one pool job (`poolRun`), a slice of `saveAll` (which is
  cut at its players and at its map saves, since pool jobs run in between), or a crash with the next
  start's recovery. Any of them may be next, and every answer of the database is in the event. Each
  step commits at most one transaction, so a crash inside a step leaves what a crash before or after
  it leaves.

  Database. `rows` is, for each guid, the statements committed to the player's rows in order; `wal`
  is the table `player_save_async_pending`. A statement carries the number of its snapshot; what it
  says is in `Backlands.Save.PlayerQueries`.

  Ghost state: `next` numbers the snapshots in the order they are built, `built` and `started` list
  a guid's snapshots built and flushed, `finished` is its last completed flush, `walFailed` records
  that a log write of the guid failed, `issued` numbers the callbacks handed to
  `drainPlayerFlushAsync`, `invoked` lists those run, `underflow` records that
  `completeTrackedFlush` ran at zero. Left out: names and log lines, and the dirty sets of a
  snapshot with their acknowledgement (`Backlands.Save.Dirty`).
-/

import Mathlib.Data.Finset.Basic
import Mathlib.Data.List.AList
import Mathlib.Data.List.Sort
import Backlands.Lib.Runs
import Backlands.Db.Transaction

namespace Backlands.Save

open Backlands.Db Backlands.Lib Function

abbrev Guid := Nat
abbrev Callback := Nat

/-- A captured statement and the number of the snapshot it belongs to. -/
structure Stmt where
  build : Nat
  text : String
  deriving DecidableEq, Repr

/-- `IOLoginData::PlayerSaveSnapshot`. A save always captures at least one statement. -/
structure PlayerSaveSnapshot where
  build : Nat
  queries : List String
  nonempty : queries ≠ []

def PlayerSaveSnapshot.stmts (save : PlayerSaveSnapshot) : List Stmt := save.queries.map (⟨save.build, ·⟩)

structure PendingPlayerFlush where
  save : PlayerSaveSnapshot
  trackedBySaveAll : Bool

/-- A row of `player_save_async_pending`. -/
structure WalRow where
  guid : Guid
  queryIndex : Nat
  query : Stmt
  deriving DecidableEq, Repr

structure Disk where
  rows : Guid → List Stmt
  wal : List WalRow

inductive Task where
  | drain (guid : Guid) (cb : Callback)
  | callback (cb : Callback) (success : Bool)
  | flushed (guid : Guid) (trackedBySaveAll : Bool) (success : Bool) (save : PlayerSaveSnapshot)

/-- Where the dispatcher is inside `saveAll`. -/
inductive Phase where
  | idle
  | players (rest : List Guid)
  | map (tries : Nat)
  deriving DecidableEq, Repr

structure St where
  saving : Bool
  /-- The code's counter is a `uint32_t`; two per player and one never fill it. -/
  pendingSaveFlushes : Nat
  lastSaveTimestamp : Int
  flushInFlight : Finset Guid
  pendingFlushes : AList fun _ : Guid => PendingPlayerFlush
  /-- The map from a guid to its callbacks, as the list of its pairs. -/
  flushChainCallbacks : List (Guid × Callback)
  failedRecoveryGuids : Finset Guid
  pool : List (Guid × PendingPlayerFlush)
  tasks : List Task
  phase : Phase
  disk : Disk
  next : Nat
  built : Guid → List Nat
  started : Guid → List Nat
  finished : Guid → Option (Nat × Bool)
  walFailed : Guid → Bool
  issued : Nat
  invoked : List (Callback × Bool)
  underflow : Bool

/-- A started process over a given database, with nothing in memory. -/
def boot (disk : Disk) (failed : Finset Guid) (next : Nat) : St where
  saving := false
  pendingSaveFlushes := 0
  lastSaveTimestamp := 0
  flushInFlight := ∅
  pendingFlushes := ∅
  flushChainCallbacks := []
  failedRecoveryGuids := failed
  pool := []
  tasks := []
  phase := .idle
  disk := disk
  next := next
  built := fun _ => []
  started := fun _ => []
  finished := fun _ => none
  walFailed := fun _ => false
  issued := 0
  invoked := []
  underflow := false

/-- The first start: nothing committed, nothing logged. -/
def init : St := boot ⟨fun _ => [], []⟩ ∅ 0

/-! ## The write-ahead log -/

/-- The log's rows of a guid, in the order of `query_index`. -/
def walOf (wal : List WalRow) (guid : Guid) : List WalRow :=
  (wal.filter (·.guid = guid)).insertionSort (fun a b => a.queryIndex ≤ b.queryIndex)

def walDelete (guid : Guid) (wal : List WalRow) : List WalRow := wal.filter (·.guid ≠ guid)

def walRows (guid : Guid) (save : PlayerSaveSnapshot) : List WalRow :=
  save.stmts.zipIdx.map fun p => ⟨guid, p.2, p.1⟩

/-- Delete the guid's rows, insert one row a statement: the effect of the transaction
    in `savePendingFlushToDB`. -/
def walReplace (guid : Guid) (save : PlayerSaveSnapshot) (d : Disk) : Disk :=
  { d with wal := walDelete guid d.wal ++ walRows guid save }

/-- `savePendingFlushToDB`: refused for a guid whose recovery failed. The transaction
    has one statement to delete and one for each row. -/
def savePendingFlushToDB (io : Attempt) (guid : Guid) (save : PlayerSaveSnapshot) (s : St) : Bool × St :=
  if guid ∈ s.failedRecoveryGuids then
    (false, { s with walFailed := update s.walFailed guid true })
  else
    let r := transaction io (1 + save.queries.length) (walReplace guid save) s.disk
    if r.1 then (true, { s with disk := r.2 })
    else (false, { s with disk := r.2, walFailed := update s.walFailed guid true })

/-- `deletePendingFlushFromDB`; its answer is not looked at. -/
def deletePendingFlushFromDB (ok : Bool) (guid : Guid) (s : St) : St :=
  if ok then { s with disk := { s.disk with wal := walDelete guid s.disk.wal } } else s

/-! ## Tracked flushes -/

def beginTrackedFlush (s : St) : St := { s with pendingSaveFlushes := s.pendingSaveFlushes + 1 }

def completeTrackedFlush (s : St) : St :=
  if s.pendingSaveFlushes = 0 then { s with underflow := true, saving := false }
  else if s.pendingSaveFlushes = 1 then { s with pendingSaveFlushes := 0, saving := false }
  else { s with pendingSaveFlushes := s.pendingSaveFlushes - 1 }

/-- Complete a flush that `saveAll` tracks. -/
def completeIf (tracked : Bool) (s : St) : St := if tracked then completeTrackedFlush s else s

def isSaving (s : St) : Bool := s.saving || s.pendingSaveFlushes != 0

/-! ## The flush chain -/

/-- `buildPlayerSave`: `none` when a query could not be built. -/
abbrev Build := Option { qs : List String // qs ≠ [] }

/-- A snapshot taken: it gets the next number. -/
def snapshot (qs : { qs : List String // qs ≠ [] }) (s : St) : PlayerSaveSnapshot := ⟨s.next, qs.1, qs.2⟩

def noteBuilt (guid : Guid) (s : St) : St :=
  { s with next := s.next + 1, built := update s.built guid (s.built guid ++ [s.next]) }

def postCallbacks (guid : Guid) (success : Bool) (s : St) : St :=
  { s with
    tasks := s.tasks ++ (s.flushChainCallbacks.filter (·.1 = guid)).map fun p => .callback p.2 success
    flushChainCallbacks := s.flushChainCallbacks.filter (·.1 ≠ guid) }

def dispatchPlayerFlush (io : Attempt) (guid : Guid) (pending : PendingPlayerFlush) (s : St) : St :=
  let r := savePendingFlushToDB io guid pending.save s
  if r.1 then
    { r.2 with
      pool := r.2.pool ++ [(guid, pending)]
      started := update r.2.started guid (r.2.started guid ++ [pending.save.build]) }
  else
    let s1 := { r.2 with
      flushInFlight := r.2.flushInFlight.erase guid
      pendingFlushes := r.2.pendingFlushes.erase guid }
    completeIf pending.trackedBySaveAll (postCallbacks guid false s1)

def pendingTracked (guid : Guid) (s : St) : Bool :=
  match s.pendingFlushes.lookup guid with
  | some p => p.trackedBySaveAll
  | none => false

/-- Write the log and replace the guid's pending snapshot, even when the write failed. -/
def enqueuePending (io : Attempt) (guid : Guid) (pending : PendingPlayerFlush) (s : St) : St :=
  let r := savePendingFlushToDB io guid pending.save s
  { r.2 with pendingFlushes := r.2.pendingFlushes.insert guid pending }

def schedulePlayerFlush (b : Build) (io : Attempt) (guid : Guid) (trackSaveAll : Bool) (s : St) : Bool × St :=
  match b with
  | none => (false, s)
  | some qs =>
    let save := snapshot qs s
    let s := noteBuilt guid s
    if guid ∈ s.flushInFlight then
      let oldTracked := pendingTracked guid s
      let s1 := if trackSaveAll && !oldTracked then beginTrackedFlush s else s
      (true, enqueuePending io guid ⟨save, oldTracked || trackSaveAll⟩ s1)
    else
      let s1 := { s with flushInFlight := insert guid s.flushInFlight }
      let s2 := if trackSaveAll then beginTrackedFlush s1 else s1
      (true, dispatchPlayerFlush io guid ⟨save, trackSaveAll⟩ s2)

/-- The second half of `onPlayerFlushed`: the chain ends, or its pending snapshot is
    the next to be flushed. -/
def continueChain (io : Attempt) (del : Bool) (guid : Guid) (success : Bool) (s : St) : St :=
  match s.pendingFlushes.lookup guid with
  | none =>
    let s1 := { s with flushInFlight := s.flushInFlight.erase guid }
    let s2 := if success then deletePendingFlushFromDB del guid s1 else s1
    postCallbacks guid success s2
  | some pending => dispatchPlayerFlush io guid pending { s with pendingFlushes := s.pendingFlushes.erase guid }

def onPlayerFlushed (io : Attempt) (del : Bool) (guid : Guid) (tracked success : Bool)
    (save : PlayerSaveSnapshot) (s : St) : St :=
  let s0 := { s with finished := update s.finished guid (some (save.build, success)) }
  continueChain io del guid success (completeIf tracked s0)

/-! ## Flushing -/

def commitSave (guid : Guid) (save : PlayerSaveSnapshot) (d : Disk) : Disk :=
  { d with rows := update d.rows guid (d.rows guid ++ save.stmts) }

/-- `IOLoginData::flushPlayerSave`. -/
def flushPlayerSave (io : Nat → Attempt) (guid : Guid) (save : PlayerSaveSnapshot) (d : Disk) : Bool × Disk :=
  executeWithinTransactionRollbackOnFailure io save.queries.length (commitSave guid save) d

/-- The loop of `savePlayerSync`, with `n` tries left. -/
def flushTries (io : Nat → Nat → Attempt) (guid : Guid) (save : PlayerSaveSnapshot) : Nat → Disk → Bool × Disk
  | 0, d => (false, d)
  | n + 1, d =>
    let r := flushPlayerSave (io n) guid save d
    if r.1 then r else flushTries io guid save n r.2

def savePlayerSync (b : Build) (wal : Attempt) (io : Nat → Nat → Attempt) (guid : Guid) (s : St) : Bool × St :=
  if guid ∈ s.flushInFlight then
    match b with
    | none => (false, s)
    | some qs =>
      let save := snapshot qs s
      let s := noteBuilt guid s
      (false, enqueuePending wal guid ⟨save, pendingTracked guid s⟩ s)
  else
    match b with
    | none => (false, s)
    | some qs =>
      let save := snapshot qs s
      let s := noteBuilt guid s
      let r := flushTries io guid save 3 s.disk
      let s1 := { s with
        disk := r.2
        started := update s.started guid (s.started guid ++ [save.build])
        finished := update s.finished guid (some (save.build, r.1)) }
      match s1.pendingFlushes.lookup guid with
      | none => (r.1, s1)
      | some pending =>
        (r.1, dispatchPlayerFlush wal guid pending
          { s1 with pendingFlushes := s1.pendingFlushes.erase guid, flushInFlight := insert guid s1.flushInFlight })

def hasPendingPlayerSave (guid : Guid) (s : St) : Bool :=
  decide (guid ∈ s.flushInFlight) || (s.pendingFlushes.lookup guid).isSome

/-- The building loop of `savePlayersSync`: one snapshot a player, or `none` at the
    first player that has a save outstanding, whose recovery failed, that occurs twice
    or that cannot be built. Snapshots built before that are dropped. -/
def buildAll : List (Guid × Build) → List (Guid × PlayerSaveSnapshot) → St →
    Option (List (Guid × PlayerSaveSnapshot)) × St
  | [], acc, s => (some acc, s)
  | (guid, b) :: rest, acc, s =>
    if hasPendingPlayerSave guid s || decide (guid ∈ s.failedRecoveryGuids) || acc.any (·.1 = guid) then (none, s)
    else
      match b with
      | none => (none, s)
      | some qs => buildAll rest (acc ++ [(guid, snapshot qs s)]) (noteBuilt guid s)

/-- All the snapshots committed together, in order. -/
def commitAll (saves : List (Guid × PlayerSaveSnapshot)) (d : Disk) : Disk :=
  saves.foldl (fun d p => commitSave p.1 p.2 d) d

/-- `savePlayersSync`. `flushInFlight` holds the guids only while the transaction runs,
    which no other dispatcher step can see. -/
def savePlayersSync (players : List (Guid × Build)) (inTransaction : Bool) (io : Nat → Attempt) (s : St) : Bool × St :=
  if players.isEmpty then (true, s)
  else if inTransaction then (false, s)
  else
    match buildAll players [] s with
    | (none, s) => (false, s)
    | (some saves, s) =>
      let r := executeWithinTransactionRollbackOnFailure io (saves.map fun p => p.2.queries.length).sum
        (commitAll saves) s.disk
      (r.1, { s with disk := r.2 })

/-! ## Saving everything -/

def MIN_SAVE_INTERVAL_MS : Int := 2000

/-- `saveAll` up to its first player. -/
def saveAllStart (now : Int) (players : List Guid) (s : St) : St :=
  if isSaving s then s
  else if 0 < s.lastSaveTimestamp ∧ now - s.lastSaveTimestamp < MIN_SAVE_INTERVAL_MS then { s with saving := false }
  else { s with saving := true, lastSaveTimestamp := now, phase := .players players }

/-- One more try to save the map; the third failure gives up. -/
def saveAllMap (ok : Bool) (tries : Nat) (s : St) : St :=
  if ok || decide (2 ≤ tries) then completeTrackedFlush { s with phase := .idle }
  else { s with phase := .map (tries + 1) }

/-! ## Recovery -/

/-- How the database fares through one recovery: the `SELECT`, and for each guid its
    transaction and the `DELETE` after it. -/
structure Recovery where
  select : Bool
  tx : Guid → Attempt
  delete : Guid → Bool

def replay (guid : Guid) (qs : List Stmt) (d : Disk) : Disk :=
  { d with rows := update d.rows guid (d.rows guid ++ qs) }

/-- One guid of `recoverPendingFlushes`. A refused `begin` and a failed commit leave
    the guid unmarked; only a failed statement marks it. -/
def recoverGuid (r : Recovery) (guid : Guid) (p : Disk × Finset Guid) : Disk × Finset Guid :=
  let qs := (walOf p.1.wal guid).map (·.query)
  let a := r.tx guid
  if !a.begin then p
  else if a.queries qs.length then
    let t := transaction a qs.length (replay guid qs) p.1
    if t.1 then
      (if r.delete guid then { t.2 with wal := walDelete guid t.2.wal } else t.2, p.2)
    else (t.2, p.2)
  else (p.1, insert guid p.2)

/-- `recoverPendingFlushes`: the database and the guids marked. The code groups the rows
    in an unordered map; the order of its guids does not matter, since each touches only
    its own rows. -/
def recoverPendingFlushes (r : Recovery) (d : Disk) : Disk × Finset Guid :=
  if r.select then ((d.wal.map (·.guid)).dedup).foldl (fun p g => recoverGuid r g p) (d, ∅) else (d, ∅)

/-! ## Steps -/

inductive Ev where
  | saveAllStart (now : Int) (players : List Guid)
  | saveAllPlayer (b : Build) (wal : Attempt)
  | saveAllMapBegin
  | saveAllMap (ok : Bool)
  | savePlayer (guid : Guid) (b : Build) (wal : Attempt)
  | savePlayerSync (guid : Guid) (b : Build) (wal : Attempt) (io : Nat → Nat → Attempt)
  | savePlayersSync (players : List (Guid × Build)) (inTransaction : Bool) (io : Nat → Attempt)
  | drain (guid : Guid)
  | poolRun (i : Nat) (io : Nat → Attempt)
  | taskRun (i : Nat) (wal : Attempt) (delete : Bool)
  | crash (r : Recovery)

/-- `drainPlayerFlushAsync`, from any thread: only posts its task. -/
def drainPlayerFlushAsync (guid : Guid) (s : St) : St :=
  { s with issued := s.issued + 1, tasks := s.tasks ++ [.drain guid s.issued] }

def poolRun (io : Nat → Attempt) (i : Nat) (s : St) : St :=
  match s.pool[i]? with
  | none => s
  | some (guid, pending) =>
    let r := flushPlayerSave io guid pending.save s.disk
    { s with
      pool := s.pool.eraseIdx i
      disk := r.2
      tasks := s.tasks ++ [.flushed guid pending.trackedBySaveAll r.1 pending.save] }

def runTask (wal : Attempt) (delete : Bool) (t : Task) (s : St) : St :=
  match t with
  | .drain guid cb =>
    if hasPendingPlayerSave guid s then { s with flushChainCallbacks := s.flushChainCallbacks ++ [(guid, cb)] }
    else { s with tasks := s.tasks ++ [.callback cb true] }
  | .callback cb success => { s with invoked := s.invoked ++ [(cb, success)] }
  | .flushed guid tracked success save => onPlayerFlushed wal delete guid tracked success save s

/-- Dispatcher calls and tasks wait while `saveAll` runs; the pool does not. -/
def step (s : St) (e : Ev) : St :=
  match e, s.phase with
  | .saveAllStart now players, .idle => saveAllStart now players s
  | .saveAllPlayer b wal, .players (g :: rest) => (schedulePlayerFlush b wal g true { s with phase := .players rest }).2
  | .saveAllMapBegin, .players [] => beginTrackedFlush { s with phase := .map 0 }
  | .saveAllMap ok, .map tries => saveAllMap ok tries s
  | .savePlayer guid b wal, .idle => (schedulePlayerFlush b wal guid false s).2
  | .savePlayerSync guid b wal io, .idle => (savePlayerSync b wal io guid s).2
  | .savePlayersSync players inTransaction io, .idle => (savePlayersSync players inTransaction io s).2
  | .drain guid, _ => drainPlayerFlushAsync guid s
  | .poolRun i io, _ => poolRun io i s
  | .taskRun i wal delete, .idle =>
    match s.tasks[i]? with
    | none => s
    | some t => runTask wal delete t { s with tasks := s.tasks.eraseIdx i }
  | .crash r, _ =>
    let p := recoverPendingFlushes r s.disk
    boot p.1 p.2 s.next
  | _, _ => s

def Start (s : St) : Prop := s = init

end Backlands.Save
