/-
  Backlands.Kv.Store — `KVStore` (src/kv/kv.cpp): the bounded cache, the evictions that wait
  for the database, and the calls over both.

  `store_` is the list of its entries in some order, each with its value and the list node
  its iterator points at; `lruQueue_` is a list of nodes, told apart by the number they were
  made with. What is done under the mutex is a function on the `Cache`, for any type of
  value: the cache never looks into one. The database is the table `kv_store` by key.

  A save is one statement; `io i` is what becomes of the `i`-th one of a call. `saveAll`
  writes in one transaction: a removed key is deleted at once, rows are gathered and sent when
  the next one does not fit. A statement that is refused has no effect; one that runs into a
  deadlock takes the transaction with it, and what follows is committed at once.
-/

import Backlands.Db.Transaction
import Backlands.Kv.Value

namespace Backlands.Kv

open Backlands.Lib Backlands.Db List

abbrev Key := Bytes

def MAX_SIZE : Nat := 1000000

/-! ## The cache -/

structure Cache (V : Type) where
  /-- `store_`: the value of a key and the node its iterator points at. -/
  store : List (Key × V × Nat)
  lruQueue : List (Nat × Key)
  pendingEvictions : List (Key × V)
  /-- How many nodes were made. -/
  nodes : Nat

variable {V : Type}

def Cache.empty : Cache V := ⟨[], [], [], 0⟩

def Cache.find (c : Cache V) (key : Key) : Option (V × Nat) := c.store.lookup key

/-- `splice` of one node to the front. -/
def toFront (queue : List (Nat × Key)) (node : Nat) : List (Nat × Key) :=
  queue.filter (fun n => n.1 == node) ++ queue.filter (fun n => n.1 != node)

/-- `splice` of one node to the end. -/
def toBack (queue : List (Nat × Key)) (node : Nat) : List (Nat × Key) :=
  queue.filter (fun n => n.1 != node) ++ queue.filter (fun n => n.1 == node)

/-- `it->second.first = value`. -/
def Cache.assign (c : Cache V) (key : Key) (value : V) : List (Key × V × Nat) :=
  c.store.map fun e => if e.1 == key then (e.1, value, e.2.2) else e

/-- The last node's key leaves a full cache and is queued to be saved. `store_[*last]` makes
    a new value (`fresh`) where the key is not there. -/
def Cache.evict (c : Cache V) (fresh : V) : Cache V :=
  if MAX_SIZE ≤ c.store.length then
    match c.lruQueue.getLast? with
    | none => c
    | some last =>
      { c with
        store := c.store.filter (fun e => e.1 != last.2)
        lruQueue := c.lruQueue.dropLast
        pendingEvictions := c.pendingEvictions ++ [(last.2, ((c.find last.2).map (·.1)).getD fresh)] }
  else c

def Cache.insert (c : Cache V) (key : Key) (value : V) : Cache V :=
  { c with
    store := c.store ++ [(key, value, c.nodes)]
    lruQueue := (c.nodes, key) :: c.lruQueue
    nodes := c.nodes + 1 }

def Cache.setLocked (c : Cache V) (fresh : V) (key : Key) (value : V) : Cache V :=
  match c.find key with
  | some cell => { c with store := c.assign key value, lruQueue := toFront c.lruQueue cell.2 }
  | none => (c.evict fresh).insert key value

/-! ## Values and the table -/

structure ValueWrapper where
  data : Value
  timestamp : Nat
  deleted : Bool

def resolveTimestamp (now timestamp : Nat) : Nat := if timestamp = 0 then now else timestamp

/-- `ValueWrapper()`. -/
def ValueWrapper.fresh (now : Nat) : ValueWrapper := ⟨.string [], now, false⟩

/-- `ValueWrapper::deleted()`. -/
def ValueWrapper.deletedAt (now : Nat) : ValueWrapper := ⟨.string [], now, true⟩

structure Row where
  timestamp : Nat
  value : Bytes
  deriving DecidableEq

/-- `kv_store` by its primary key. -/
abbrev Table := Key → Option Row

def ValueWrapper.row (w : ValueWrapper) : Option Row :=
  if w.deleted then none else some ⟨w.timestamp, w.data.serialize⟩

/-- The statement of `prepareSave` for one key: a `DELETE` or an upsert. -/
def put (db : Table) (key : Key) (w : ValueWrapper) : Table := Function.update db key w.row

def load (now : Nat) (db : Table) (key : Key) : Option ValueWrapper :=
  (db key).bind fun row =>
    if row.value.isEmpty then none
    else (deserialize row.value).map fun data => ⟨data, resolveTimestamp now row.timestamp, false⟩

/-! ## The calls -/

structure System where
  cache : Cache ValueWrapper
  db : Table

abbrev Entry := Key × ValueWrapper

def save (o : Outcome) (e : Entry) (db : Table) : Bool × Table := (o.ok, if o.applied then put db e.1 e.2 else db)

/-- The loop of `processEvictions`: the entries whose save failed, and the table. -/
def saveEach (io : Nat → Outcome) : List Entry → Table → List Entry × Table
  | [], db => ([], db)
  | e :: es, db =>
    let saved := save (io 0) e db
    let r := saveEach (fun i => io (i + 1)) es saved.2
    (if saved.1 then r.1 else e :: r.1, r.2)

def processEvictions (io : Nat → Outcome) (s : System) : Bool × System :=
  let r := saveEach io s.cache.pendingEvictions s.db
  (r.1.isEmpty, ⟨{ s.cache with pendingEvictions := r.1 }, r.2⟩)

def set (now : Nat) (io : Nat → Outcome) (key : Key) (value : ValueWrapper) (s : System) : System :=
  (processEvictions io { s with cache := s.cache.setLocked (.fresh now) key value }).2

def remove (now : Nat) (io : Nat → Outcome) (key : Key) (s : System) : System :=
  set now io key (.deletedAt now) s

/-- The part of `get` under the mutex: the answer if the key is cached, and the cache. -/
def Cache.getLocked (c : Cache ValueWrapper) (key : Key) : Option (Option ValueWrapper) × Cache ValueWrapper :=
  match c.find key with
  | none => (none, c)
  | some cell =>
    if cell.1.deleted then (some none, { c with lruQueue := toBack c.lruQueue cell.2 })
    else (some (some cell.1), { c with lruQueue := toFront c.lruQueue cell.2 })

/-- `setLocked` of a loaded value, unless the key came in meanwhile. -/
def Cache.adopt (c : Cache ValueWrapper) (now : Nat) (key : Key) (value : ValueWrapper) : Cache ValueWrapper :=
  if (c.find key).isNone then c.setLocked (.fresh now) key value else c

def getLoad (now : Nat) (io : Nat → Outcome) (key : Key) (s : System) : Option ValueWrapper × System :=
  match load now s.db key with
  | none => (none, s)
  | some value => (some value, (processEvictions io { s with cache := s.cache.adopt now key value }).2)

def get (now : Nat) (io : Nat → Outcome) (key : Key) (forceLoad : Bool) (s : System) :
    Option ValueWrapper × System :=
  if forceLoad then getLoad now io key s
  else
    match s.cache.getLocked key with
    | (some answer, c) => (answer, { s with cache := c })
    | (none, _) => getLoad now io key s

/-- The full keys of the rows `LIKE` selects, in the order the server gives them. -/
def selected (order : List Key) (db : Table) (scope : Key) : List Key :=
  order.filter fun k => scope.isPrefixOf k && (db k).isSome

/-- The loop of `loadPrefix` over the rows. -/
def loadRows (now : Nat) (db : Table) : List Key → Cache ValueWrapper → Cache ValueWrapper
  | [], c => c
  | key :: keys, c =>
    match load now db key with
    | none => loadRows now db keys c
    | some value => loadRows now db keys (c.adopt now key value)

/-- `loadPrefix`; the evictions it causes are processed later, by a task of the pool. -/
def loadPrefix (now : Nat) (order : List Key) (scope : Key) (s : System) : List Key × System :=
  let rows := selected order s.db scope
  (rows.map (·.drop scope.length), { s with cache := loadRows now s.db rows s.cache })

def keys (now : Nat) (order : List Key) (scope : Key) (s : System) : List Key × System :=
  let cached := (s.cache.store.filter fun e => scope.isPrefixOf e.1 && !e.2.1.deleted).map (·.1.drop scope.length)
  let loaded := loadPrefix now order scope s
  let kept := loaded.1.filter fun key =>
    match loaded.2.cache.find (scope ++ key) with
    | some cell => !cell.1.deleted
    | none => true
  (cached ++ kept, loaded.2)

def Cache.getStore (c : Cache V) : List (Key × V) := c.store.map fun e => (e.1, e.2.1)

/-- What `flush` saves: the cache, then the queue. -/
def Cache.snapshot (c : Cache V) : List (Key × V) := c.getStore ++ c.pendingEvictions

/-- `store_.clear()` and `pendingEvictions_.clear()`. -/
def Cache.clear (c : Cache V) : Cache V := { c with store := [], pendingEvictions := [] }

def flush (io : Nat → Outcome) (s : System) : System :=
  let r := saveEach io s.cache.snapshot s.db
  ⟨if r.1.isEmpty then s.cache.clear else s.cache, r.2⟩

/-! ## `saveAll` -/

inductive Answer where
  | ok
  | refused
  | deadlock
  deriving DecidableEq

section Batch

variable {E T : Type}

/-- A transaction: the table as it sees it, the table a rollback goes back to, and whether it
    is still open. -/
structure Transaction (T : Type) where
  db : T
  undo : T
  opened : Bool

def Transaction.exec (t : Transaction T) (a : Answer) (f : T → T) : Bool × Transaction T :=
  match a with
  | .ok => (true, ⟨f t.db, if t.opened then t.undo else f t.db, t.opened⟩)
  | .refused => (false, t)
  | .deadlock => (false, ⟨t.undo, t.undo, false⟩)

/-- How the server fares through the transaction: what goes into a packet beside the rows in
    it, and what each statement gets. -/
structure Batch (E : Type) where
  begins : Bool
  fits : List E → E → Bool
  answers : Nat → Answer
  commit : Outcome

/-- The loop of `saveAll` and its `execute`: `values` are the rows gathered, `n` counts the
    statements. An entry that is `gone` is deleted, any other is upserted. -/
def saveRows (gone : E → Bool) (put : T → E → T) (b : Batch E) :
    List E → List E → Nat → Transaction T → Bool × Transaction T
  | [], values, n, t => if values.isEmpty then (true, t) else t.exec (b.answers n) fun db => values.foldl put db
  | e :: es, values, n, t =>
    if gone e then
      match t.exec (b.answers n) (fun db => put db e) with
      | (true, t) => saveRows gone put b es values (n + 1) t
      | (false, t) => (false, t)
    else if !values.isEmpty && !b.fits values e then
      -- `addRow` sends what it has; when that fails it drops the new row too, and
      -- `prepareSave` does not look at its answer.
      match t.exec (b.answers n) (fun db => values.foldl put db) with
      | (true, t) => saveRows gone put b es [e] (n + 1) t
      | (false, t) => saveRows gone put b es [] (n + 1) t
    else saveRows gone put b es (values ++ [e]) n t

def writeBatch (gone : E → Bool) (put : T → E → T) (b : Batch E) (store : List E) (db : T) : Bool × T :=
  if b.begins then
    match saveRows gone put b store [] 0 ⟨db, db, true⟩ with
    | (true, t) => (b.commit.ok, if b.commit.applied then t.db else t.undo)
    | (false, t) => (false, t.undo)
  else (false, db)

end Batch

def saveAll (io : Nat → Outcome) (b : Batch Entry) (s : System) : Bool × System :=
  match processEvictions io s with
  | (false, s) => (false, s)
  | (true, s) =>
    let r := writeBatch (·.2.deleted) (fun db e => put db e.1 e.2) b s.cache.getStore s.db
    (r.1, { s with db := r.2 })

/-! ## What the cache operations do -/

variable {c : Cache V} {key : Key}

theorem find_mem {cell : V × Nat} (h : c.find key = some cell) : (key, cell) ∈ c.store := by
  obtain ⟨l, r, hs, -⟩ := lookup_eq_some_iff.mp h
  rw [hs]
  exact mem_append_right l mem_cons_self

theorem find_none (h : c.find key = none) : ∀ e ∈ c.store, e.1 ≠ key := by
  intro e he heq
  have hne := lookup_eq_none_iff.mp h e he
  rw [heq] at hne
  simp at hne

theorem find_of_mem (hn : (c.store.map (·.1)).Nodup) {cell : V × Nat} (h : (key, cell) ∈ c.store) :
    c.find key = some cell := by
  obtain ⟨l, r, hs⟩ := append_of_mem h
  refine lookup_eq_some_iff.mpr ⟨l, r, hs, ?_⟩
  intro e he
  rw [hs, map_append, nodup_append] at hn
  have hne : key ≠ e.1 := (hn.2.2 e.1 (mem_map_of_mem he) key (by simp)).symm
  simpa using hne

@[simp] theorem keys_assign (c : Cache V) (key : Key) (value : V) :
    (c.assign key value).map (·.1) = c.store.map (·.1) := by
  rw [Cache.assign, map_map]
  refine map_congr_left fun e _ => ?_
  grind

end Backlands.Kv
