/-
  Backlands.Market.Inbox — delivering bought items to an inbox (src/market.cpp:
  `insertInboxItems`; src/database.cpp: `DBInsert`).

  The amount is split into stacks, each stack is a row with the next `sid`, and the rows are
  gathered and sent when the next one does not fit into a packet, and at the end. The server
  may refuse any query. A statement that it answers stores all of its rows: they fit their
  columns (schema.sql), belong to a player and have keys that are not taken.

  Proved: `insertInboxItems_spec`.
-/

import Backlands.Db.Insert
import Backlands.Db.Transaction
import Backlands.Lib.Bytes

namespace Backlands.Market.Inbox

open Backlands.Lib Backlands.Db List

/-! ## The table -/

/-- A row of `player_inboxitems`; all columns but the item type are signed. -/
structure Row where
  player_id : BitVec 32
  sid : BitVec 32
  pid : BitVec 32
  itemtype : BitVec 16
  count : BitVec 16
  attributes : Bytes
  deriving DecidableEq

/-- A row as the text of a statement has it. -/
structure Values where
  player_id : Nat
  sid : Nat
  pid : Nat
  itemtype : Nat
  count : Nat
  attributes : Bytes

def Values.store (v : Values) : Option Row :=
  if v.player_id < 2 ^ 31 ∧ v.sid < 2 ^ 31 ∧ v.pid < 2 ^ 31 ∧ v.itemtype < 2 ^ 16 ∧ v.count < 2 ^ 15 then
    some
      { player_id := BitVec.ofNat 32 v.player_id
        sid := BitVec.ofNat 32 v.sid
        pid := BitVec.ofNat 32 v.pid
        itemtype := BitVec.ofNat 16 v.itemtype
        count := BitVec.ofNat 16 v.count
        attributes := v.attributes }
  else none

def storeAll : List Values → Option (List Row)
  | [] => some []
  | v :: vs => v.store.bind fun r => (storeAll vs).map (r :: ·)

/-- `UNIQUE KEY (player_id, sid)`. -/
def Row.key (r : Row) : BitVec 32 × BitVec 32 := (r.player_id, r.sid)

/-- What the server holds and how it answers in one attempt. -/
structure Server where
  /-- The rows of `players`. -/
  players : BitVec 32 → Bool
  /-- Whether the query of a number is answered. -/
  answers : Nat → Bool
  maxPacketSize : Nat
  /-- The length of `escapeBlob`'s answer. -/
  escapedLength : Bytes → Nat

structure Connection where
  table : List Row
  queries : Nat := 0

namespace Server

variable (server : Server)

/-- An `INSERT` of rows. -/
def insert (values : List Values) (c : Connection) : Option Connection :=
  if !server.answers c.queries then none
  else
    (storeAll values).bind fun rows =>
      if (rows.map Row.key).Nodup ∧ ∀ r ∈ rows, server.players r.player_id = true ∧ ∀ e ∈ c.table, e.key ≠ r.key then
        some { table := c.table ++ rows, queries := c.queries + 1 }
      else none

/-- `SELECT id FROM players WHERE id = … FOR UPDATE`. -/
def lockPlayer (playerId : BitVec 32) (c : Connection) : Option Connection :=
  if server.answers c.queries && (decide (playerId.toNat < 2 ^ 31) && server.players playerId) then
    some { c with queries := c.queries + 1 }
  else none

end Server

/-! ## `DBInsert` -/

def digits (n : Nat) : Nat := (Nat.toDigits 10 n).length

/-- The length of `"{:d}, {:d}, 0, {:d}, {:d}, {:s}"`. -/
def Values.length (server : Server) (v : Values) : Nat :=
  digits v.player_id + digits v.sid + digits v.itemtype + digits v.count + server.escapedLength v.attributes + 11

def insertQuery : String :=
  "INSERT INTO `player_inboxitems` (`player_id`, `sid`, `pid`, `itemtype`, `count`, `attributes`) VALUES "

structure DBInsert where
  values : List Values := []
  length : Nat := insertQuery.utf8ByteSize

namespace DBInsert

variable (server : Server)

def execute (d : DBInsert) (c : Connection) : Option (DBInsert × Connection) :=
  if d.values.isEmpty then some (d, c) else (server.insert d.values c).map fun c => ({}, c)

/-- `upsertClause` is empty. -/
def overflows (d : DBInsert) (rowLength : Nat) : Bool :=
  let projectedRowLength := rowLength + if d.values.isEmpty then 2 else 3
  !d.values.isEmpty &&
    decide (Insert.projectedInsertQueryLength d.length projectedRowLength 0 > Insert.maxQueryLength server.maxPacketSize)

def addRow (row : Values) (d : DBInsert) (c : Connection) : Option (DBInsert × Connection) :=
  let rowLength := row.length server
  (if d.overflows server rowLength then d.execute server c else some (d, c)).map fun (d, c) =>
    ({ values := d.values ++ [row], length := d.length + rowLength + if d.values.isEmpty then 2 else 3 }, c)

end DBInsert

/-! The rows are gathered and sent as in `Backlands.Db.Insert`, where a row is its text. -/

structure Mirrors (d : DBInsert) (s : Insert.Session) : Prop where
  query : s.insert.query.length = insertQuery.utf8ByteSize
  length : s.insert.length = d.length
  isEmpty : s.insert.values.isEmpty = d.values.isEmpty
  upsertClause : s.insert.upsertClause = []

section
variable {server : Server} {sqlServer : Insert.Server} {d d' : DBInsert} {s : Insert.Session} {c c' : Connection} {row : Values}
  {text : Bytes}

theorem Mirrors.append (h : Mirrors d s) (htext : text.length = row.length server) :
    Mirrors
      { values := d.values ++ [row], length := d.length + row.length server + if d.values.isEmpty then 2 else 3 }
      { s with insert := s.insert.append text } := by
  refine ⟨h.query, ?_, ?_, h.upsertClause⟩
  · show s.insert.length + (text.length + if s.insert.values.isEmpty then 2 else 3) = _
    rw [h.length, htext, h.isEmpty, Nat.add_assoc]
  · have hnew : (s.insert.append text).values.isEmpty = false := by
      unfold Insert.DBInsert.append
      split <;> simp [Insert.ascii, isEmpty_eq_false_iff]
    rw [hnew]
    simp [isEmpty_eq_false_iff]

theorem Mirrors.execute (h : Mirrors d s) (hanswer : ∀ q, sqlServer.executeQuery s.issued q = true)
    (hexecute : d.execute server c = some (d', c')) :
    (Insert.execute sqlServer s).1 = true ∧ Mirrors d' (Insert.execute sqlServer s).2 := by
  unfold Insert.execute
  unfold DBInsert.execute at hexecute
  rw [h.isEmpty]
  split at hexecute
  · next hempty =>
    obtain ⟨rfl, rfl⟩ := Prod.mk.inj (Option.some.inj hexecute)
    rw [if_pos hempty]
    exact ⟨rfl, h⟩
  · next hrows =>
    obtain ⟨c'', -, heq⟩ := Option.map_eq_some_iff.mp hexecute
    obtain ⟨rfl, rfl⟩ := Prod.mk.inj heq
    rw [if_neg hrows]
    exact ⟨hanswer _, h.query, h.query, rfl, h.upsertClause⟩

/-- What one model of `addRow` adds or sends, the other does. -/
theorem Mirrors.addRow (h : Mirrors d s) (htext : text.length = row.length server)
    (hmax : sqlServer.maxPacketSize s.issued = server.maxPacketSize) (hanswer : ∀ q, sqlServer.executeQuery s.issued q = true)
    (hadd : d.addRow server row c = some (d', c')) :
    (Insert.addRow sqlServer s text).1 = true ∧ Mirrors d' (Insert.addRow sqlServer s text).2 := by
  have hsent : (!s.insert.values.isEmpty && Insert.exceeds sqlServer s text) = d.overflows server (row.length server) := by
    unfold Insert.exceeds DBInsert.overflows
    rw [h.isEmpty, h.length, h.upsertClause, htext, hmax]
    rfl
  obtain ⟨⟨d₁, c₁⟩, hflushed, heq⟩ := Option.map_eq_some_iff.mp hadd
  obtain ⟨rfl, rfl⟩ := Prod.mk.inj heq
  unfold Insert.addRow
  rw [hsent]
  split at hflushed
  · next hover =>
    obtain ⟨htrue, hmirrors⟩ := h.execute hanswer hflushed
    rw [if_pos hover]
    rcases hx : Insert.execute sqlServer s with ⟨b, s'⟩
    rw [hx] at htrue hmirrors
    obtain rfl : b = true := htrue
    exact ⟨rfl, hmirrors.append htext⟩
  · next hroom =>
    obtain ⟨rfl, rfl⟩ := Prod.mk.inj (Option.some.inj hflushed)
    rw [if_neg hroom]
    exact ⟨rfl, h.append htext⟩

end

/-! ## A delivery -/

structure ItemType where
  id : BitVec 16
  stackable : Bool
  stackSize : BitVec 8

/-- `stackSize` in a delivery. -/
def ItemType.perRow (itemType : ItemType) : Nat := if itemType.stackable then max 1 itemType.stackSize.toNat else 1

theorem ItemType.perRow_pos (itemType : ItemType) : 0 < itemType.perRow := by
  unfold perRow
  split <;> omega

/-- `COALESCE(MAX(sid), 100)` of a player. -/
def maxSid (playerId : BitVec 32) (table : List Row) : Int :=
  (((table.filter fun r => decide (r.player_id = playerId)).map fun r => r.sid.toInt).max?).getD 100

/-- `getNumber<uint64_t>`: a minus is taken, and the number wraps. -/
def getNumber (n : Int) : Nat := (n % 2 ^ 64).toNat

/-- A `uint32_t`. -/
def rowCount (stackSize : Nat) (amount : BitVec 32) (attributes : Bytes) : Nat :=
  if attributes.isEmpty then (1 + (amount.toNat - 1) / stackSize) % 2 ^ 32 else 1

section
variable (server : Server) (playerId : BitVec 32) (itemId : BitVec 16) (attributes : Bytes)

def values (sid count : Nat) : Values := ⟨playerId.toNat, sid, 0, itemId.toNat, count, attributes⟩

/-- The loop, and the `execute` after it. `sid` is a `uint64_t`. -/
def addRows {stackSize : Nat} (hstack : 0 < stackSize) (remaining sid : Nat) (insert : DBInsert) (c : Connection) :
    Option Connection :=
  if remaining > 0 then
    let count := min remaining stackSize
    (insert.addRow server (values playerId itemId attributes sid count) c).bind fun (insert, c) =>
      addRows hstack (remaining - count) ((sid + 1) % 2 ^ 64) insert c
  else (insert.execute server c).map Prod.snd
termination_by remaining
decreasing_by omega

/-- The callback: the table it leaves, if it returns true. -/
def deliver (itemType : ItemType) (amount : BitVec 32) (table : List Row) : Option (List Row) :=
  (server.lockPlayer playerId { table := table }).bind fun c =>
  if !server.answers c.queries then none
  else
    let sid := (getNumber (maxSid playerId c.table) + 1) % 2 ^ 64
    let stackSize := itemType.perRow
    if (sid + rowCount stackSize amount attributes) % 2 ^ 64 > 2 ^ 32 - 1 then none
    else
      (addRows server playerId itemId attributes itemType.perRow_pos amount.toNat sid {} { c with queries := c.queries + 1 }).map
        Connection.table

end

/-- Whether it was delivered, and the table. `io` and `answers` are by the attempts that are left. -/
def insertInboxItems (io : Nat → Attempt) (server : Server) (items : BitVec 16 → ItemType) (playerId : BitVec 32)
    (itemId : BitVec 16) (amount : BitVec 32) (attributes : Bytes) (table : List Row) : Bool × List Row :=
  let itemType := items itemId
  if playerId = 0 ∨ itemType.id = 0 ∨ amount = 0 ∨ (attributes ≠ [] ∧ amount ≠ 1) then (false, table)
  else
    let r := within io (fun k table (_ : Unit) =>
      answered (deliver { server with answers := (io k).query } playerId itemId attributes itemType amount table) table ())
      TRANSACTION_MAX_ATTEMPTS table ()
    (r.1, r.2.1)

/-! ## What a delivery appends -/

/-- The rows of a delivery: they add up to the amount and have new `sid`s. -/
structure Delivered (itemType : ItemType) (playerId : BitVec 32) (itemId : BitVec 16) (amount : BitVec 32) (attributes : Bytes)
    (table rows : List Row) : Prop where
  amount : (rows.map fun r => r.count.toNat).sum = amount.toNat
  count : ∀ r ∈ rows, 1 ≤ r.count.toNat ∧ r.count.toNat ≤ itemType.perRow
  sids : (rows.map Row.sid).Nodup
  sid_gt : ∀ r ∈ rows, ∀ e ∈ table, e.player_id = playerId → e.sid.toInt < r.sid.toInt
  item : ∀ r ∈ rows, r.player_id = playerId ∧ r.pid = 0 ∧ r.itemtype = itemId ∧ r.attributes = attributes

section
variable {server : Server} {playerId : BitVec 32} {itemId : BitVec 16} {attributes : Bytes}

theorem storeAll_append {vs ws : List Values} {rows more : List Row} (hvs : storeAll vs = some rows) (hws : storeAll ws = some more) :
    storeAll (vs ++ ws) = some (rows ++ more) := by
  induction vs generalizing rows with
  | nil =>
    obtain rfl := Option.some.inj hvs
    exact hws
  | cons v vs ih =>
    obtain ⟨r, hr, hrest⟩ := Option.bind_eq_some_iff.mp hvs
    obtain ⟨rows, hrows, rfl⟩ := Option.map_eq_some_iff.mp hrest
    show (v.store.bind fun r => (storeAll (vs ++ ws)).map (r :: ·)) = _
    rw [hr, Option.bind_some, ih hrows]
    rfl

theorem execute_spec {d d' : DBInsert} {c c' : Connection} (h : d.execute server c = some (d', c')) :
    d'.values = [] ∧ ∃ rows, storeAll d.values = some rows ∧ c'.table = c.table ++ rows := by
  unfold DBInsert.execute at h
  split at h
  · next hempty =>
    obtain ⟨rfl, rfl⟩ := Prod.mk.inj (Option.some.inj h)
    have hempty := List.isEmpty_iff.mp hempty
    exact ⟨hempty, [], by rw [hempty]; rfl, (append_nil _).symm⟩
  · obtain ⟨c'', hinsert, heq⟩ := Option.map_eq_some_iff.mp h
    obtain ⟨rfl, rfl⟩ := Prod.mk.inj heq
    unfold Server.insert at hinsert
    split at hinsert
    · cases hinsert
    obtain ⟨rows, hrows, hinsert⟩ := Option.bind_eq_some_iff.mp hinsert
    split at hinsert
    · obtain rfl := Option.some.inj hinsert
      exact ⟨rfl, rows, hrows, rfl⟩
    · cases hinsert

theorem addRow_spec {d d' : DBInsert} {c c' : Connection} {row : Values} (h : d.addRow server row c = some (d', c')) :
    ∃ sent left rows, d.values = sent ++ left ∧ d'.values = left ++ [row] ∧ storeAll sent = some rows ∧
      c'.table = c.table ++ rows := by
  obtain ⟨⟨d₁, c₁⟩, hflushed, heq⟩ := Option.map_eq_some_iff.mp h
  obtain ⟨rfl, rfl⟩ := Prod.mk.inj heq
  split at hflushed
  · obtain ⟨hempty, rows, hrows, htable⟩ := execute_spec hflushed
    exact ⟨d.values, [], rows, (append_nil _).symm, by rw [hempty], hrows, htable⟩
  · obtain ⟨rfl, rfl⟩ := Prod.mk.inj (Option.some.inj hflushed)
    exact ⟨[], d.values, [], rfl, rfl, rfl, (append_nil _).symm⟩

/-- The counts of the stacks an amount is split into. -/
def pieces {stackSize : Nat} (hstack : 0 < stackSize) (remaining : Nat) : List Nat :=
  if remaining > 0 then min remaining stackSize :: pieces hstack (remaining - min remaining stackSize) else []
termination_by remaining
decreasing_by omega

theorem sum_pieces {stackSize : Nat} (hstack : 0 < stackSize) (remaining : Nat) : (pieces hstack remaining).sum = remaining := by
  induction remaining using pieces.induct hstack with
  | case1 remaining hpos ih =>
    rw [pieces, if_pos hpos, sum_cons, ih]
    omega
  | case2 remaining hzero =>
    rw [pieces, if_neg hzero, sum_nil]
    omega

theorem mem_pieces {stackSize : Nat} (hstack : 0 < stackSize) {remaining count : Nat} (h : count ∈ pieces hstack remaining) :
    1 ≤ count ∧ count ≤ stackSize := by
  induction remaining using pieces.induct hstack with
  | case1 remaining hpos ih =>
    rw [pieces, if_pos hpos] at h
    rcases mem_cons.mp h with rfl | h
    · omega
    · exact ih h
  | case2 remaining hzero =>
    rw [pieces, if_neg hzero] at h
    cases h

/-- The rows of stacks, from a `sid` on. -/
def stackValues (playerId : BitVec 32) (itemId : BitVec 16) (attributes : Bytes) : Nat → List Nat → List Values
  | _, [] => []
  | sid, count :: counts =>
    values playerId itemId attributes sid count :: stackValues playerId itemId attributes ((sid + 1) % 2 ^ 64) counts

theorem addRows_spec {stackSize : Nat} (hstack : 0 < stackSize) {remaining sid : Nat} {d : DBInsert} {c c' : Connection}
    (h : addRows server playerId itemId attributes hstack remaining sid d c = some c') :
    ∃ rows, storeAll (d.values ++ stackValues playerId itemId attributes sid (pieces hstack remaining)) = some rows ∧
      c'.table = c.table ++ rows := by
  induction remaining using pieces.induct hstack generalizing sid d c with
  | case1 remaining hpos ih =>
    rw [addRows, if_pos hpos] at h
    obtain ⟨⟨d₁, c₁⟩, hadd, hrest⟩ := Option.bind_eq_some_iff.mp h
    obtain ⟨sent, left, rows, hsplit, hleft, hrows, htable⟩ := addRow_spec hadd
    obtain ⟨more, hmore, hlast⟩ := ih hrest
    refine ⟨rows ++ more, ?_, ?_⟩
    · rw [hleft] at hmore
      rw [pieces, if_pos hpos, stackValues, hsplit, append_assoc]
      refine storeAll_append hrows ?_
      rw [← hmore, append_assoc, singleton_append]
    · rw [hlast, htable, append_assoc]
  | case2 remaining hzero =>
    rw [addRows, if_neg hzero] at h
    obtain ⟨⟨d₁, c₁⟩, hexecute, rfl⟩ := Option.map_eq_some_iff.mp h
    obtain ⟨-, rows, hrows, htable⟩ := execute_spec hexecute
    rw [pieces, if_neg hzero, stackValues, append_nil]
    exact ⟨rows, hrows, htable⟩

structure Stacked (playerId : BitVec 32) (itemId : BitVec 16) (attributes : Bytes) (sid : Nat) (counts : List Nat) (rows : List Row) :
    Prop where
  counts : rows.map (fun r => r.count.toNat) = counts
  sids : rows.map (fun r => r.sid.toNat) = List.range' sid rows.length
  bound : ∀ r ∈ rows, r.sid.toNat < 2 ^ 31
  item : ∀ r ∈ rows, r.player_id = playerId ∧ r.pid = 0 ∧ r.itemtype = itemId ∧ r.attributes = attributes

theorem ofNat_toNat_self {n : Nat} (x : BitVec n) : BitVec.ofNat n x.toNat = x := by
  rw [BitVec.ofNat_toNat, BitVec.setWidth_eq]

theorem store_values {sid count : Nat} {r : Row} (h : (values playerId itemId attributes sid count).store = some r) :
    sid < 2 ^ 31 ∧ r.sid.toNat = sid ∧ r.count.toNat = count ∧ r.player_id = playerId ∧ r.pid = 0 ∧ r.itemtype = itemId ∧
      r.attributes = attributes := by
  unfold Values.store at h
  split at h
  · next hfits =>
    obtain ⟨-, hsid, -, -, hcount⟩ := hfits
    obtain rfl := Option.some.inj h
    refine ⟨hsid, ?_, ?_, ofNat_toNat_self _, rfl, ofNat_toNat_self _, rfl⟩
    · exact (BitVec.toNat_ofNat _ _).trans (Nat.mod_eq_of_lt (by omega))
    · exact (BitVec.toNat_ofNat _ _).trans (Nat.mod_eq_of_lt (by omega))
  · cases h

theorem stacked_of_store {counts : List Nat} {sid : Nat} {rows : List Row}
    (h : storeAll (stackValues playerId itemId attributes sid counts) = some rows) :
    Stacked playerId itemId attributes sid counts rows := by
  induction counts generalizing sid rows with
  | nil =>
    obtain rfl := Option.some.inj h
    exact ⟨rfl, rfl, (fun r hr => nomatch hr), (fun r hr => nomatch hr)⟩
  | cons count counts ih =>
    obtain ⟨r, hr, hrest⟩ := Option.bind_eq_some_iff.mp h
    obtain ⟨rows, hrows, rfl⟩ := Option.map_eq_some_iff.mp hrest
    obtain ⟨hbound, hsid, hcount, hitem⟩ := store_values hr
    have hnext : (sid + 1) % 2 ^ 64 = sid + 1 := Nat.mod_eq_of_lt (by omega)
    rw [hnext] at hrows
    have hrows := ih hrows
    refine ⟨?_, ?_, ?_, ?_⟩
    · rw [map_cons, hcount, hrows.counts]
    · rw [map_cons, hsid, hrows.sids]
      rfl
    · exact forall_mem_cons.mpr ⟨hsid ▸ hbound, hrows.bound⟩
    · exact forall_mem_cons.mpr ⟨hitem, hrows.item⟩

theorem toInt_eq_toNat {x : BitVec 32} (h : x.toNat < 2 ^ 31) : x.toInt = x.toNat := BitVec.toInt_eq_toNat_of_lt (by omega)

theorem maxSid_lt {table : List Row} {e : Row} (he : e ∈ table) (hplayer : e.player_id = playerId)
    (hfits : (getNumber (maxSid playerId table) + 1) % 2 ^ 64 < 2 ^ 31) :
    e.sid.toInt < ((getNumber (maxSid playerId table) + 1) % 2 ^ 64 : Nat) := by
  have hmem : e.sid.toInt ∈ (table.filter fun r => decide (r.player_id = playerId)).map fun r => r.sid.toInt :=
    mem_map_of_mem (mem_filter.mpr ⟨he, decide_eq_true hplayer⟩)
  obtain ⟨m, hm⟩ := Option.isSome_iff_exists.mp (isSome_max?_of_mem hmem)
  obtain ⟨hin, hle⟩ := max?_eq_some_iff.mp hm
  obtain ⟨r, -, hr⟩ := mem_map.mp hin
  have hmax : maxSid playerId table = m := by
    unfold maxSid
    rw [hm]
    rfl
  have hle := hle _ hmem
  have hhigh := @BitVec.toInt_lt 32 r.sid
  unfold getNumber at hfits ⊢
  omega

theorem Stacked.delivered {itemType : ItemType} {amount : BitVec 32} {table rows : List Row}
    (h : Stacked playerId itemId attributes ((getNumber (maxSid playerId table) + 1) % 2 ^ 64)
      (pieces itemType.perRow_pos amount.toNat) rows) : Delivered itemType playerId itemId amount attributes table rows := by
  refine ⟨?_, fun r hr => ?_, ?_, fun r hr e he hplayer => ?_, h.item⟩
  · rw [h.counts, sum_pieces]
  · have hcount : r.count.toNat ∈ pieces itemType.perRow_pos amount.toNat := h.counts ▸ mem_map_of_mem hr
    exact mem_pieces itemType.perRow_pos hcount
  · have hnodup : ((rows.map Row.sid).map BitVec.toNat).Nodup := by
      rw [map_map]
      exact h.sids ▸ nodup_range'
    exact List.Pairwise.of_map BitVec.toNat (fun a b hne heq => hne (congrArg _ heq)) hnodup
  · have hsid : r.sid.toNat ∈ List.range' ((getNumber (maxSid playerId table) + 1) % 2 ^ 64) rows.length :=
      h.sids ▸ mem_map_of_mem hr
    have hfirst := (mem_range'_1.mp hsid).1
    have hbound := h.bound r hr
    have hgt := maxSid_lt he hplayer (by omega)
    rw [toInt_eq_toNat hbound]
    omega

theorem deliver_spec {itemType : ItemType} {amount : BitVec 32} {table table' : List Row}
    (h : deliver server playerId itemId attributes itemType amount table = some table') :
    ∃ rows, table' = table ++ rows ∧ Delivered itemType playerId itemId amount attributes table rows := by
  obtain ⟨c, hlock, hrest⟩ := Option.bind_eq_some_iff.mp h
  have htable : c.table = table := by
    grind [Server.lockPlayer]
  split at hrest
  · cases hrest
  dsimp only at hrest
  split at hrest
  · cases hrest
  obtain ⟨c', hadd, rfl⟩ := Option.map_eq_some_iff.mp hrest
  obtain ⟨rows, hrows, hlast⟩ := addRows_spec itemType.perRow_pos hadd
  have hstacked := stacked_of_store hrows
  rw [htable] at hlast hstacked
  exact ⟨rows, hlast, hstacked.delivered⟩

end

/-- A delivery appends its rows, or it fails and leaves the table as it was. -/
theorem insertInboxItems_spec {io : Nat → Attempt} (hu : Undone io) (server : Server) (items : BitVec 16 → ItemType)
    (playerId : BitVec 32) (itemId : BitVec 16) (amount : BitVec 32) (attributes : Bytes) (table : List Row) :
    (∃ rows, insertInboxItems io server items playerId itemId amount attributes table = (true, table ++ rows) ∧
      Delivered (items itemId) playerId itemId amount attributes table rows) ∨
      insertInboxItems io server items playerId itemId amount attributes table = (false, table) := by
  unfold insertInboxItems
  dsimp only
  split
  · exact .inr rfl
  rcases within_cases (fun k table (_ : Unit) => answered (deliver { server with answers := (io k).query } playerId itemId attributes
    (items itemId) amount table) table ()) hu TRANSACTION_MAX_ATTEMPTS table () with ⟨j, y, -, hok, hdone⟩ | ⟨hfailed, hnone⟩
  · obtain ⟨table', hdeliver⟩ := Option.isSome_iff_exists.mp hok
    obtain ⟨rows, rfl, hdelivered⟩ := deliver_spec hdeliver
    rw [hdone, hdeliver]
    exact .inl ⟨rows, rfl, hdelivered⟩
  · rw [hfailed, hnone]
    exact .inr rfl

def quiver : Server where
  players := fun p => p = 7
  answers := fun _ => true
  maxPacketSize := 180
  escapedLength := fun attributes => 2 * attributes.length + 2

def arrow : ItemType := ⟨3447, true, 100⟩

def letter : Row := ⟨7, 105, 0, 2597, 1, []⟩

/-- Two hundred and fifty arrows, in three rows and two statements. -/
theorem arrows_delivered : ∃ rows,
    insertInboxItems (fun _ => .good) quiver (fun _ => arrow) 7 3447 250 [] [letter] = (true, [letter] ++ rows) ∧
      Delivered arrow 7 3447 250 [] [letter] rows := by
  have hdone : (insertInboxItems (fun _ => .good) quiver (fun _ => arrow) 7 3447 250 [] [letter]).1 = true := by decide +kernel
  rcases @insertInboxItems_spec (fun _ => .good) (fun _ h => nomatch h) quiver (fun _ => arrow) 7 3447 250 [] [letter]
    with hrows | hfailed
  · exact hrows
  · rw [hfailed] at hdone
    cases hdone

end Backlands.Market.Inbox
