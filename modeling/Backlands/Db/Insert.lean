/-
  Backlands.Db.Insert — `DBInsert` (src/database.cpp): rows gathered into `INSERT`s that fit
  into a packet.

  The server answers each query and names its `max_allowed_packet` by what was sent to it
  before: a connection that is lost and opened anew may come back with another limit.
  Lengths of texts in memory are far from 2^64.

  Proved: what is sent is the rows cut into stretches, none empty (`calls_batches`); a
  stretch that does not fit is one row; and a call fails when the query it sent did
  (`addRow_reports`, `execute_reports`). `buildBatchSaveQuery_eq`: a batch of the key-value
  store is one query with every row once, or none when that is too long.
-/

import Backlands.Lib.Bytes

namespace Backlands.Db.Insert

open Backlands.Lib List

def ascii (s : String) : Bytes := s.toList.map fun c => UInt8.ofNat c.toNat

/-- The database: whether a query succeeds and what a packet may hold after the queries before. -/
structure Server where
  executeQuery : List Bytes → Bytes → Bool
  maxPacketSize : List Bytes → Nat

def DB_INSERT_PACKET_SAFETY_MARGIN : Nat := 4096

def projectedInsertQueryLength (currentLength additionalGrowth upsertClauseLength : Nat) : Nat :=
  currentLength + additionalGrowth + 1 + upsertClauseLength

def maxQueryLength (maxPacketSize : Nat) : Nat :=
  if maxPacketSize > DB_INSERT_PACKET_SAFETY_MARGIN then maxPacketSize - DB_INSERT_PACKET_SAFETY_MARGIN
  else maxPacketSize

structure DBInsert where
  query : Bytes
  values : Bytes
  upsertClause : Bytes
  length : Nat
  length_eq : length = query.length + values.length

/-- What a `DBInsert` has gathered and the queries sent so far. -/
structure Session where
  insert : DBInsert
  issued : List Bytes

namespace DBInsert

def new (query : Bytes) : DBInsert where
  query := query
  values := []
  upsertClause := []
  length := query.length
  length_eq := rfl

def buildQuery (d : DBInsert) : Bytes :=
  if d.values.isEmpty then [] else d.query ++ ascii " " ++ d.values ++ d.upsertClause

/-- `values.clear()`, with the length of what stays. -/
def clear (d : DBInsert) : DBInsert where
  query := d.query
  values := []
  upsertClause := d.upsertClause
  length := d.query.length
  length_eq := rfl

/-- A row at the end of the values; `length` grows by its text. -/
def append (d : DBInsert) (row : Bytes) : DBInsert where
  query := d.query
  values :=
    if d.values.isEmpty then ascii "(" ++ row ++ ascii ")" else d.values ++ ascii ",(" ++ row ++ ascii ")"
  upsertClause := d.upsertClause
  length := d.length + (row.length + if d.values.isEmpty then 2 else 3)
  length_eq := by
    rw [d.length_eq]
    split
    · next h =>
      rw [List.isEmpty_iff] at h
      simp [h, ascii]
    · simp [ascii]
      omega

/-! `upsert` and the names it accepts, in the C locale. -/

def isIdentifierHead (ch : UInt8) : Bool :=
  (65 ≤ ch.toNat && ch.toNat ≤ 90) || (97 ≤ ch.toNat && ch.toNat ≤ 122) || ch == 95

def isIdentifierTail (ch : UInt8) : Bool := isIdentifierHead ch || (48 ≤ ch.toNat && ch.toNat ≤ 57)

def isValidSqlIdentifier : Bytes → Bool
  | [] => false
  | ch :: rest => isIdentifierHead ch && rest.all isIdentifierTail

def updateColumn (column : Bytes) : Bytes := ascii "`" ++ column ++ ascii "` = VALUES(`" ++ column ++ ascii "`)"

def upsert (columns : List Bytes) (d : DBInsert) : DBInsert :=
  if columns.isEmpty then d
  else if columns.all isValidSqlIdentifier then
    { d with upsertClause :=
        ascii " ON DUPLICATE KEY UPDATE " ++ (ascii ", ").intercalate (columns.map updateColumn) }
  else { d with upsertClause := [] }

end DBInsert

def execute (server : Server) (s : Session) : Bool × Session :=
  if s.insert.values.isEmpty then (true, s)
  else
    (server.executeQuery s.issued s.insert.buildQuery, ⟨s.insert.clear, s.issued ++ [s.insert.buildQuery]⟩)

def exceeds (server : Server) (s : Session) (row : Bytes) : Bool :=
  projectedInsertQueryLength s.insert.length (row.length + if s.insert.values.isEmpty then 2 else 3)
    s.insert.upsertClause.length > maxQueryLength (server.maxPacketSize s.issued)

def addRow (server : Server) (s : Session) (row : Bytes) : Bool × Session :=
  if !s.insert.values.isEmpty && exceeds server s row then
    match execute server s with
    | (false, s) => (false, s)
    | (true, s) => (true, { s with insert := s.insert.append row })
  else (true, { s with insert := s.insert.append row })

/-- Never sends anything, so that a first row that is too long is refused as well. -/
def appendRowForBatch (server : Server) (s : Session) (row : Bytes) : Bool × Session :=
  if exceeds server s row then (false, s) else (true, { s with insert := s.insert.append row })

/-- Each row added, and `execute` at the end. -/
def calls (server : Server) : List Bytes → Session → Bool × Session
  | [], s => execute server s
  | row :: rows, s => calls server rows (addRow server s row).2

/-! ## What a call reports -/

/-- The call sent nothing and succeeded, or it sent one query and returned its answer. -/
def Reports (server : Server) (s : Session) (r : Bool × Session) : Prop :=
  (r.1 = true ∧ r.2.issued = s.issued) ∨
    ∃ q, r.1 = server.executeQuery s.issued q ∧ r.2.issued = s.issued ++ [q]

variable {server : Server} {s : Session} {row : Bytes}

theorem execute_reports (server : Server) (s : Session) : Reports server s (execute server s) := by
  unfold execute
  split
  · exact .inl ⟨rfl, rfl⟩
  · exact .inr ⟨s.insert.buildQuery, rfl, rfl⟩

theorem addRow_reports (server : Server) (s : Session) (row : Bytes) : Reports server s (addRow server s row) := by
  unfold addRow
  split
  · have h := execute_reports server s
    rcases hx : execute server s with ⟨b, s'⟩
    rw [hx] at h
    cases b with
    | false => exact h
    | true => exact h
  · exact .inl ⟨rfl, rfl⟩

/-! ## The stretches -/

def valuesText (rows : List Bytes) : Bytes := (ascii ",").intercalate (rows.map fun row => ascii "(" ++ row ++ ascii ")")

def batchText (d : DBInsert) (rows : List Bytes) : Bytes := d.query ++ ascii " " ++ valuesText rows ++ d.upsertClause

def Fits (server : Server) (issued : List Bytes) (d : DBInsert) (rows : List Bytes) : Prop :=
  (batchText d rows).length ≤ maxQueryLength (server.maxPacketSize issued) ∨ ∃ row, rows = [row]

structure Gathered (server : Server) (d : DBInsert) (s : Session) (rows : List Bytes) : Prop where
  query : s.insert.query = d.query
  upsertClause : s.insert.upsertClause = d.upsertClause
  values : s.insert.values = valuesText rows
  fits : rows ≠ [] → Fits server s.issued d rows

variable {d : DBInsert} {rows : List Bytes}

@[simp] theorem valuesText_nil : valuesText [] = [] := intercalate_nil

@[simp] theorem valuesText_single : valuesText [row] = ascii "(" ++ row ++ ascii ")" := intercalate_singleton

theorem valuesText_cons (h : rows ≠ []) :
    valuesText (row :: rows) = ascii "(" ++ row ++ ascii ")," ++ valuesText rows := by
  unfold valuesText
  rw [map_cons, intercalate_cons_of_ne_nil (by simpa using h)]
  simp [ascii]

theorem valuesText_append (h : rows ≠ []) :
    valuesText (rows ++ [row]) = valuesText rows ++ ascii ",(" ++ row ++ ascii ")" := by
  induction rows with
  | nil => exact absurd rfl h
  | cons r rows ih =>
    by_cases hr : rows = []
    · subst hr
      rw [cons_append, nil_append, valuesText_cons (cons_ne_nil row [])]
      simp [ascii]
    · rw [cons_append, valuesText_cons (by simp), ih hr, valuesText_cons hr]
      simp

theorem valuesText_eq_nil : valuesText rows = [] ↔ rows = [] := by
  rcases eq_nil_or_concat rows with rfl | ⟨init, row, rfl⟩
  · simp
  · by_cases h : init = []
    · simp [h, ascii]
    · simp [valuesText_append h, ascii]

theorem Gathered.isEmpty (h : Gathered server d s rows) : s.insert.values.isEmpty = rows.isEmpty := by
  rw [h.values, Bool.eq_iff_iff, List.isEmpty_iff, List.isEmpty_iff, valuesText_eq_nil]

theorem Gathered.buildQuery (h : Gathered server d s rows) (hr : rows ≠ []) :
    s.insert.buildQuery = batchText d rows := by
  unfold DBInsert.buildQuery batchText
  rw [h.isEmpty, h.query, h.values, h.upsertClause]
  simp [hr]

theorem Gathered.clear (h : Gathered server d s rows) (issued : List Bytes) :
    Gathered server d ⟨s.insert.clear, issued⟩ [] where
  query := h.query
  upsertClause := h.upsertClause
  values := rfl
  fits := fun hne => absurd rfl hne

theorem Gathered.exceeds (h : Gathered server d s rows) (row : Bytes) : exceeds server s row =
    decide ((batchText d (rows ++ [row])).length > maxQueryLength (server.maxPacketSize s.issued)) := by
  have hlength : s.insert.length = d.query.length + (valuesText rows).length := by
    rw [s.insert.length_eq, h.query, h.values]
  unfold Insert.exceeds projectedInsertQueryLength
  rw [h.isEmpty, hlength, h.upsertClause]
  congr 2
  by_cases hr : rows = []
  · subst hr
    simp [batchText, ascii]
    omega
  · have he : rows.isEmpty = false := by simpa using hr
    simp [batchText, valuesText_append hr, ascii, he]
    omega

theorem Gathered.append (h : Gathered server d s rows) (hrow : rows = [] ∨ Insert.exceeds server s row = false) :
    Gathered server d { s with insert := s.insert.append row } (rows ++ [row]) where
  query := h.query
  upsertClause := h.upsertClause
  values := by
    show (if s.insert.values.isEmpty then _ else _) = _
    rw [h.isEmpty]
    by_cases hr : rows = []
    · subst hr
      simp
    · rw [if_neg (by simpa using hr), h.values, valuesText_append hr]
  fits := by
    intro _
    rcases hrow with rfl | hfit
    · exact .inr ⟨row, rfl⟩
    · left
      rw [h.exceeds] at hfit
      simpa using hfit

theorem execute_cases (h : Gathered server d s rows) :
    (rows = [] ∧ execute server s = (true, s)) ∨
      (rows ≠ [] ∧ execute server s =
        (server.executeQuery s.issued (batchText d rows), ⟨s.insert.clear, s.issued ++ [batchText d rows]⟩)) := by
  by_cases hr : rows = []
  · simp [execute, h.isEmpty, hr]
  right
  refine ⟨hr, ?_⟩
  rw [execute, if_neg, h.buildQuery hr]
  rw [h.isEmpty]
  simp [hr]

theorem addRow_cases (h : Gathered server d s rows) (row : Bytes) :
    (∃ s', addRow server s row = (true, s') ∧ s'.issued = s.issued ∧ Gathered server d s' (rows ++ [row])) ∨
      (rows ≠ [] ∧ (addRow server s row).2.issued = s.issued ++ [batchText d rows] ∧
        (server.executeQuery s.issued (batchText d rows) = true → Gathered server d (addRow server s row).2 [row])) := by
  unfold addRow
  split
  · next hsend =>
    right
    have hr : rows ≠ [] := by
      intro hr
      simp [h.isEmpty, hr] at hsend
    rcases execute_cases h with ⟨hnil, -⟩ | ⟨-, he⟩
    · exact absurd hnil hr
    refine ⟨hr, ?_, ?_⟩
    · grind
    · intro hok
      rw [he, hok]
      exact (h.clear _).append (.inl rfl)
  · next hkeep =>
    left
    refine ⟨_, rfl, rfl, h.append ?_⟩
    rw [h.isEmpty, Bool.and_eq_true, not_and_or, Bool.not_eq_true', Bool.not_eq_false, Bool.not_eq_true,
      List.isEmpty_iff] at hkeep
    exact hkeep

theorem issued_calls (server : Server) (rows : List Bytes) (s : Session) : s.issued <+: (calls server rows s).2.issued := by
  have hreports : ∀ {s : Session} {r : Bool × Session}, Reports server s r → s.issued <+: r.2.issued := by
    intro s r h
    rcases h with ⟨-, h⟩ | ⟨q, -, h⟩
    · exact h ▸ prefix_rfl
    · rw [h]
      exact prefix_append _ _
  induction rows generalizing s with
  | nil => exact hreports (execute_reports server s)
  | cons row rows ih => exact (hreports (addRow_reports server s row)).trans (ih _)

/-- The queries sent after the first ones all succeeded. -/
def Succeeded (server : Server) (before issued : List Bytes) : Prop :=
  ∀ sent q, before <+: sent → sent ++ [q] <+: issued → server.executeQuery sent q = true

/-- The stretches are sent one after the other, none empty, each within the limit of its time. -/
inductive Sent (server : Server) (d : DBInsert) : List Bytes → List (List Bytes) → Prop where
  | nil (issued : List Bytes) : Sent server d issued []
  | cons {issued : List Bytes} {batch : List Bytes} {batches : List (List Bytes)} (rows : batch ≠ [])
      (fits : Fits server issued d batch) (rest : Sent server d (issued ++ [batchText d batch]) batches) :
      Sent server d issued (batch :: batches)

theorem calls_batches {gathered : List Bytes} (h : Gathered server d s gathered) (rows : List Bytes)
    (hok : Succeeded server s.issued (calls server rows s).2.issued) :
    (calls server rows s).1 = true ∧ ∃ batches, batches.flatten = gathered ++ rows ∧
      (calls server rows s).2.issued = s.issued ++ batches.map (batchText d) ∧ Sent server d s.issued batches := by
  induction rows generalizing s gathered with
  | nil =>
    unfold calls at hok ⊢
    rcases execute_cases h with ⟨hnil, he⟩ | ⟨hne, he⟩
    · rw [he]
      exact ⟨rfl, [], by simp [hnil], by simp, .nil _⟩
    · rw [he] at hok ⊢
      have hq : server.executeQuery s.issued (batchText d gathered) = true := hok _ _ prefix_rfl prefix_rfl
      exact ⟨hq, [gathered], by simp, by simp, .cons hne (h.fits hne) (.nil _)⟩
  | cons row rows ih =>
    unfold calls at hok ⊢
    rcases addRow_cases h row with ⟨s', he, hsent, hs'⟩ | ⟨hne, hsent, hadd⟩
    · rw [he] at hok ⊢
      rcases ih hs' (hsent ▸ hok) with ⟨hret, batches, hrows, hissued, hfits⟩
      rw [hsent] at hissued hfits
      exact ⟨hret, batches, by simpa using hrows, hissued, hfits⟩
    · have hnext := issued_calls server rows (addRow server s row).2
      rw [hsent] at hnext
      have hq := hok _ _ prefix_rfl hnext
      have hlater : Succeeded server (addRow server s row).2.issued
          (calls server rows (addRow server s row).2).2.issued := by
        intro sent q hsent' hq
        refine hok sent q (List.IsPrefix.trans ?_ hsent') hq
        simp [hsent]
      rcases ih (hadd hq) hlater with ⟨hret, batches, hrows, hissued, hfits⟩
      rw [hsent] at hissued hfits
      exact ⟨hret, gathered :: batches, by simp [hrows], by simp [hissued], .cons hne (h.fits hne) hfits⟩

/-- The rows are sent once each and in order, in queries that fit or are of one row; and a
call fails when its query does. -/
theorem rows_sent (server : Server) (s : Session) (hnew : s.insert.values = []) (rows : List Bytes) :
    (Succeeded server s.issued (calls server rows s).2.issued →
        (calls server rows s).1 = true ∧ ∃ batches, batches.flatten = rows ∧
          (calls server rows s).2.issued = s.issued ++ batches.map (batchText s.insert) ∧
          Sent server s.insert s.issued batches) ∧
      (∀ s row, Reports server s (addRow server s row)) ∧ ∀ s, Reports server s (execute server s) := by
  refine ⟨?_, addRow_reports server, execute_reports server⟩
  intro hok
  have h : Gathered server s.insert s [] := ⟨rfl, rfl, hnew, fun hne => absurd rfl hne⟩
  exact calls_batches h rows hok

/-- A session right after the constructor and `upsert`. -/
def begin (query : Bytes) (columns : List Bytes) : Session := ⟨(DBInsert.new query).upsert columns, []⟩

@[simp] theorem values_begin (query : Bytes) (columns : List Bytes) : (begin query columns).insert.values = [] := by
  unfold begin DBInsert.upsert
  split
  · rfl
  · split
    · rfl
    · rfl

/-! ## A batch in one query -/

/-- `KVStore::dbUpdate` (src/kv/kv.cpp) -/
def dbUpdate : Session :=
  begin (ascii "INSERT INTO `kv_store` (`key_name`, `timestamp`, `value`) VALUES")
    [ascii "key_name", ascii "timestamp", ascii "value"]

/-- The loop of `buildBatchSaveQuery`: `row` is the text of an entry, none of a deleted one. -/
def appendEntries {ε : Type} (server : Server) (row : ε → Option Bytes) : List ε → Bool × Session → Option (Bool × Session)
  | [], found => some found
  | entry :: entries, (hasRows, s) =>
    match row entry with
    | none => appendEntries server row entries (hasRows, s)
    | some text =>
      match appendRowForBatch server s text with
      | (false, _) => none
      | (true, s) => appendEntries server row entries (true, s)

/-- `KVStore::buildBatchSaveQuery`, where `none` is the answer false. -/
def buildBatchSaveQuery {ε : Type} (server : Server) (row : ε → Option Bytes) (entries : List ε) : Option Bytes :=
  (appendEntries server row entries (false, dbUpdate)).bind fun (hasRows, s) =>
    if !hasRows then some []
    else if s.insert.buildQuery.isEmpty then none
    else some s.insert.buildQuery

theorem appendRowForBatch_spec (h : Gathered server d s rows) (row : Bytes) :
    if (batchText d (rows ++ [row])).length ≤ maxQueryLength (server.maxPacketSize s.issued) then
      ∃ s', appendRowForBatch server s row = (true, s') ∧ s'.issued = s.issued ∧ Gathered server d s' (rows ++ [row])
    else appendRowForBatch server s row = (false, s) := by
  unfold appendRowForBatch
  split
  · next hfit =>
    have hex : exceeds server s row = false := by
      rw [h.exceeds]
      simpa using hfit
    rw [hex]
    exact ⟨_, rfl, rfl, h.append (.inr hex)⟩
  · next hfit =>
    rw [h.exceeds, if_pos (by simpa using hfit)]

theorem length_batchText_le (d : DBInsert) (rows more : List Bytes) :
    (batchText d rows).length ≤ (batchText d (rows ++ more)).length := by
  induction more generalizing rows with
  | nil => rw [append_nil]
  | cons row more ih =>
    have hnext : (batchText d rows).length ≤ (batchText d (rows ++ [row])).length := by
      by_cases hr : rows = []
      · simp [batchText, hr]
        omega
      · simp [batchText, valuesText_append hr]
        omega
    rw [append_cons]
    exact hnext.trans (ih (rows ++ [row]))

/-- The loop gets to its end exactly when all the rows together fit. -/
theorem appendEntries_spec {ε : Type} (text : ε → Option Bytes) (entries : List ε) (hasRows : Bool)
    (h : Gathered server d s rows) :
    if entries.filterMap text = [] ∨
        (batchText d (rows ++ entries.filterMap text)).length ≤ maxQueryLength (server.maxPacketSize s.issued) then
      ∃ s', appendEntries server text entries (hasRows, s) = some (hasRows || !(entries.filterMap text).isEmpty, s') ∧
        Gathered server d s' (rows ++ entries.filterMap text)
    else appendEntries server text entries (hasRows, s) = none := by
  induction entries generalizing hasRows s rows with
  | nil => simpa [appendEntries] using h
  | cons entry entries ih =>
    unfold appendEntries
    cases ht : text entry with
    | none =>
      rw [filterMap_cons_none ht]
      exact ih hasRows h
    | some row =>
      have hrow := appendRowForBatch_spec h row
      rw [filterMap_cons_some ht]
      have hmono := length_batchText_le d (rows ++ [row]) (entries.filterMap text)
      rw [append_assoc, singleton_append] at hmono
      split at hrow
      · next hfit =>
        obtain ⟨s', he, hissued, hs'⟩ := hrow
        have hrest := ih true hs'
        rw [hissued, append_assoc, singleton_append] at hrest
        dsimp only
        rw [he]
        by_cases hnil : entries.filterMap text = []
        · rw [if_pos (.inl hnil)] at hrest
          rw [if_pos (.inr (by rw [hnil]; exact hfit))]
          simpa using hrest
        · simp only [hnil, false_or] at hrest
          simpa using hrest
      · next hfit =>
        rw [if_neg]
        · dsimp only
          rw [hrow]
        · simp only [reduceCtorEq, false_or]
          omega

/-- The query has the row of every entry that is not deleted, once and in order; it is not made
exactly when it is too long, and empty without rows. -/
theorem buildBatchSaveQuery_eq {ε : Type} (server : Server) (row : ε → Option Bytes) (entries : List ε) :
    buildBatchSaveQuery server row entries =
      if entries.filterMap row = [] then some []
      else if (batchText dbUpdate.insert (entries.filterMap row)).length ≤ maxQueryLength (server.maxPacketSize []) then
        some (batchText dbUpdate.insert (entries.filterMap row))
      else none := by
  have h : Gathered server dbUpdate.insert dbUpdate [] := ⟨rfl, rfl, values_begin _ _, fun hne => absurd rfl hne⟩
  have hloop := appendEntries_spec row entries false h
  have hissued : dbUpdate.issued = [] := rfl
  rw [nil_append, hissued] at hloop
  unfold buildBatchSaveQuery
  by_cases hnil : entries.filterMap row = []
  · rw [if_pos (.inl hnil)] at hloop
    obtain ⟨s', he, -⟩ := hloop
    rw [he, if_pos hnil]
    simp [hnil]
  simp only [hnil, false_or] at hloop
  rw [if_neg hnil]
  split at hloop
  · next hfit =>
    obtain ⟨s', he, hs'⟩ := hloop
    have hquery := hs'.buildQuery hnil
    have hne : (batchText dbUpdate.insert (entries.filterMap row)).isEmpty = false := by simp [batchText, ascii]
    rw [he, Option.bind_some, if_pos hfit]
    simp [hnil, hquery, hne]
  · next hfit =>
    rw [hloop, if_neg hfit]
    rfl

/-- Three rows of which two fit into a packet of twenty bytes. -/
theorem three_rows_sent :
    let server : Server := ⟨fun _ _ => true, fun _ => 20⟩
    let s := begin [73] []
    let rows := [[97, 97, 97, 97], [98, 98, 98, 98], [99, 99, 99, 99]]
    (calls server rows s).2.issued.map List.length = [15, 8] ∧
      ∃ batches, batches.flatten = rows ∧
        (calls server rows s).2.issued = s.issued ++ batches.map (batchText s.insert) ∧
        Sent server s.insert s.issued batches :=
  ⟨by decide, ((rows_sent _ _ (values_begin _ _) _).1 fun _ _ _ _ => rfl).2⟩

end Backlands.Db.Insert
