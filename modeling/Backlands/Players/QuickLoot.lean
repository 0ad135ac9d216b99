/-
  Backlands.Players.QuickLoot — how the quick loot settings of a player come into `kv_store`
  (src/player.cpp: `saveQuickLootState`, `scheduleQuickLootPersistence`,
  `flushQuickLootPersistence`; src/databasetasks.cpp).

  A change raises the generation and schedules a save. The save queues one query with the worker
  of the database, and its callback tells the player whether what was saved is still the latest.
  A logout waits for the queue and saves at once, three times at most.

  The reactor may refuse an event or drop a cancellation, the worker may be stopped, a query may
  fail or take effect without being answered, and the dispatcher may drop a callback. Settings are
  of any type, `rows` is the text of their two rows but for the time in it, and `saveGeneration` is
  a `Nat` for the source's 64 bits. The store's own saves are left out, and so is the clock:
  whether a save comes too early is any.

  Proved: `quick_loot_persisted`, in every state reached settings that are not dirty are those in
  the table; dirty ones have an event scheduled, a query queued or a callback waiting, unless the
  reactor refused an event, the dispatcher dropped a callback or a logout gave up (`forgotten`, a
  ghost); and a logout that answers true leaves the settings in the table.
-/

import Backlands.Db.Insert
import Backlands.Db.Transaction
import Backlands.Lib.Runs

namespace Backlands.Players.QuickLoot

open Backlands.Lib Function List
open Db (Outcome)
open Db.Insert (Server buildBatchSaveQuery buildBatchSaveQuery_eq)

/-- What the saves are about. -/
structure Record (σ : Type) where
  settings : σ
  saveDirty : Bool := false
  saveGeneration : Nat := 0
  /-- The queue of the worker, each query with its generation. -/
  tasks : List (Nat × σ) := []
  /-- On the dispatcher: the generation, and whether the query succeeded. -/
  callbacks : List (Nat × Bool) := []
  /-- What a login would load. -/
  table : σ

structure State (σ : Type) extends Record σ where
  saveEventId : Nat := 0
  /-- On the reactor: the identifier, and whether it is the retry. -/
  events : List (Nat × Bool) := []
  /-- The worker takes tasks. -/
  running : Bool := true
  forgotten : Bool := false

/-- What the reactor answers: whether a cancellation is taken, and the identifier of an event, 0
    when it is refused. -/
structure Reactor where
  cancels : Bool
  id : Nat

section
variable {σ : Type} (server : Server) (rows : σ → Bytes × Bytes) (r : Reactor) (s : State σ)

namespace State

def stopEvent : State σ :=
  if s.saveEventId ≠ 0 then
    { s with saveEventId := 0, events := if r.cancels then s.events.filter (·.1 ≠ s.saveEventId) else s.events }
  else s

def addEvent (retry : Bool) : State σ :=
  { s with
    saveEventId := r.id
    events := if r.id = 0 then s.events else (r.id, retry) :: s.events
    forgotten := s.forgotten || r.id == 0 }

def scheduleQuickLootPersistence : State σ := (s.stopEvent r).addEvent r false

/-- A setter, with the save at its end. -/
def saveQuickLootState (settings : σ) : State σ :=
  scheduleQuickLootPersistence r { s with settings, saveGeneration := s.saveGeneration + 1, saveDirty := true }

/-- The query of the snapshot. -/
def query : Option Bytes :=
  buildBatchSaveQuery server some [(rows s.settings).1, (rows s.settings).2]

/-- `flushQuickLootPersistence(false)` -/
def flushQuickLootPersistence : State σ :=
  let s := s.stopEvent r
  if !s.saveDirty then s
  else
    let flushGeneration := s.saveGeneration
    match s.query server rows with
    | none => s.scheduleQuickLootPersistence r
    | some query =>
      if query.isEmpty then
        if s.saveGeneration = flushGeneration then { s with saveDirty := false } else s.scheduleQuickLootPersistence r
      else if s.running then { s with tasks := s.tasks ++ [(flushGeneration, s.settings)] }
      else s.scheduleQuickLootPersistence r

/-- The worker runs a query and posts its callback, if the dispatcher takes it. -/
def runTask (o : Outcome) (posted : Bool) : State σ :=
  match s.tasks with
  | [] => s
  | (flushGeneration, settings) :: tasks =>
    { s with
      tasks
      table := if o = .failed then s.table else settings
      callbacks := if posted then s.callbacks ++ [(flushGeneration, o == .done)] else s.callbacks
      forgotten := s.forgotten || !posted }

/-- The dispatcher runs a callback. -/
def callback : State σ :=
  match s.callbacks with
  | [] => s
  | (flushGeneration, success) :: callbacks =>
    let s := { s with callbacks }
    if !success then s.scheduleQuickLootPersistence r
    else if s.saveGeneration = flushGeneration then { s with saveDirty := false }
    else s.scheduleQuickLootPersistence r

/-- An event comes due, within the minimal interval after the last save or not. -/
def fire (early : Bool) (i : Nat) : State σ :=
  match s.events[i]? with
  | none => s
  | some (_, retry) =>
    let s := { s with events := s.events.eraseIdx i }
    if retry then s.flushQuickLootPersistence server rows r
    else
      let s := { s with saveEventId := 0 }
      if early then s.addEvent r true else s.flushQuickLootPersistence server rows r

/-- `DatabaseTasks::flush` -/
def flush (answers : Nat → Outcome × Bool) : Nat → State σ → State σ
  | 0, s => s
  | n + 1, s => flush answers n (s.runTask (answers n).1 (answers n).2)

/-- One turn of the loop at logout. -/
def attempt (o : Outcome) : Bool × State σ :=
  if !s.saveDirty then (true, s)
  else
    let flushGeneration := s.saveGeneration
    match s.query server rows with
    | none => (false, s)
    | some query =>
      if query.isEmpty then
        if s.saveGeneration = flushGeneration then (true, { s with saveDirty := false }) else (false, s)
      else
        match o with
        | .failed => (false, s)
        | .lost => (false, { s with table := s.settings })
        | .done =>
          let s := { s with table := s.settings }
          if s.saveGeneration = flushGeneration then (true, { s with saveDirty := false }) else (false, s)

def attempts (answers : Nat → Outcome) : Nat → State σ → Bool × State σ
  | 0, s => (false, { s with forgotten := true })
  | n + 1, s =>
    match s.attempt server rows (answers n) with
    | (true, s) => (true, s)
    | (false, s) => attempts answers n s

/-- `flushQuickLootPersistence(true)`: the answers to what is queued, and to the queries of its own. -/
def flushSync (queued : Nat → Outcome × Bool) (own : Nat → Outcome) : Bool × State σ :=
  let s := s.stopEvent r
  if !s.saveDirty then (true, s) else attempts server rows own 3 (flush queued s.tasks.length s)

end State

inductive Event (σ : Type) where
  | change (r : Reactor) (settings : σ)
  | fire (r : Reactor) (early : Bool) (i : Nat)
  | runTask (o : Outcome) (posted : Bool)
  | callback (r : Reactor)
  | flushSync (r : Reactor) (queued : Nat → Outcome × Bool) (own : Nat → Outcome)
  | setRunning (running : Bool)

def step : Event σ → State σ
  | .change r settings => s.saveQuickLootState r settings
  | .fire r early i => s.fire server rows r early i
  | .runTask o posted => s.runTask o posted
  | .callback r => s.callback r
  | .flushSync r queued own => (s.flushSync server rows r queued own).2
  | .setRunning running => { s with running }

end

variable {σ : Type} {server : Server} {rows : σ → Bytes × Bytes} {r : Reactor} {s : State σ}

/-! ## What the table holds -/

/-- `history` is the settings of each generation, and that of the table is `saved`. -/
structure Saved (history : Nat → σ) (saved : Nat) (s : Record σ) : Prop where
  current : history s.saveGeneration = s.settings
  table : history saved = s.table
  le : saved ≤ s.saveGeneration
  tasks : ∀ t ∈ s.tasks, history t.1 = t.2 ∧ saved ≤ t.1 ∧ t.1 ≤ s.saveGeneration
  ordered : s.tasks.Pairwise (·.1 ≤ ·.1)
  callbacks : ∀ c ∈ s.callbacks, c.2 = true → c.1 ≤ saved
  clean : s.saveDirty = false → s.saveGeneration ≤ saved

def Safe (s : State σ) : Prop := ∃ history saved, Saved history saved s.toRecord

theorem Safe.table (h : Safe s) (hclean : s.saveDirty = false) : s.table = s.settings := by
  obtain ⟨history, saved, h⟩ := h
  rw [← h.table, ← h.current, Nat.le_antisymm h.le (h.clean hclean)]

@[simp] theorem toRecord_stopEvent : (s.stopEvent r).toRecord = s.toRecord := by
  unfold State.stopEvent
  split <;> rfl

@[simp] theorem toRecord_schedule : (s.scheduleQuickLootPersistence r).toRecord = s.toRecord := toRecord_stopEvent

theorem query_ne_nil {query : Bytes} (h : s.query server rows = some query) : query.isEmpty = false := by
  unfold State.query at h
  rw [buildBatchSaveQuery_eq, if_neg (by simp)] at h
  split at h
  · obtain rfl := Option.some.inj h
    simp [Db.Insert.batchText, Db.Insert.ascii]
  · cases h

theorem Safe.change (h : Safe s) (settings : σ) : Safe (s.saveQuickLootState r settings) := by
  obtain ⟨history, saved, h⟩ := h
  have hold : ∀ g ≤ s.saveGeneration, update history (s.saveGeneration + 1) settings g = history g :=
    fun g hg => update_of_ne (by omega) ..
  refine ⟨update history (s.saveGeneration + 1) settings, saved, ?_⟩
  unfold State.saveQuickLootState
  rw [toRecord_schedule]
  exact {
    current := update_self ..
    table := (hold saved h.le).trans h.table
    le := Nat.le_succ_of_le h.le
    tasks := fun t ht => by
      obtain ⟨hx, hlo, hhi⟩ := h.tasks t ht
      exact ⟨(hold _ hhi).trans hx, hlo, Nat.le_succ_of_le hhi⟩
    ordered := h.ordered
    callbacks := h.callbacks
    clean := nofun }

theorem Safe.flush (h : Safe s) : Safe (s.flushQuickLootPersistence server rows r) := by
  obtain ⟨history, saved, h⟩ := h
  refine ⟨history, saved, ?_⟩
  have hstop : Saved history saved (s.stopEvent r).toRecord := by rwa [toRecord_stopEvent]
  unfold State.flushQuickLootPersistence
  generalize s.stopEvent r = t at hstop ⊢
  dsimp only
  split
  · exact hstop
  split
  · rwa [toRecord_schedule]
  · next hquery =>
    rw [query_ne_nil hquery, if_neg Bool.false_ne_true]
    split
    · exact {
        hstop with
        tasks := fun task htask => by
          rcases mem_append.mp htask with htask | htask
          · exact hstop.tasks task htask
          · obtain rfl := mem_singleton.mp htask
            exact ⟨hstop.current, hstop.le, le_rfl⟩
        ordered := by
          refine pairwise_append.mpr ⟨hstop.ordered, pairwise_singleton .., fun a ha b hb => ?_⟩
          obtain rfl := mem_singleton.mp hb
          exact (hstop.tasks a ha).2.2 }
    · rwa [toRecord_schedule]

theorem Safe.runTask (h : Safe s) (o : Outcome) (posted : Bool) : Safe (s.runTask o posted) := by
  obtain ⟨history, saved, h⟩ := h
  unfold State.runTask
  split
  · exact ⟨history, saved, h⟩
  next g settings tasks heq =>
  have hall := h.tasks
  have hordered := h.ordered
  rw [heq] at hall hordered
  obtain ⟨hx, hlo, hhi⟩ := hall (g, settings) mem_cons_self
  obtain ⟨hfirst, hrest⟩ := pairwise_cons.mp hordered
  have hposted : ∀ c ∈ (if posted then s.callbacks ++ [(g, o == .done)] else s.callbacks),
      c ∈ s.callbacks ∨ c = (g, o == .done) := by
    intro c hc
    split at hc
    · exact (mem_append.mp hc).imp id mem_singleton.mp
    · exact .inl hc
  -- the query failed, or its generation is now the one saved
  by_cases ho : o = .failed
  · refine ⟨history, saved, ⟨h.current, ?_, h.le, fun t ht => hall t (mem_cons_of_mem _ ht), hrest, ?_, h.clean⟩⟩
    · exact h.table.trans (if_pos ho).symm
    · intro c hc hsuccess
      rcases hposted c hc with hc | rfl
      · exact h.callbacks c hc hsuccess
      · simp [ho] at hsuccess
  · refine ⟨history, g, ⟨h.current, ?_, hhi, fun t ht => ?_, hrest, ?_, fun hclean => (h.clean hclean).trans hlo⟩⟩
    · exact hx.trans (if_neg ho).symm
    · obtain ⟨hx', -, hhi'⟩ := hall t (mem_cons_of_mem _ ht)
      exact ⟨hx', hfirst t ht, hhi'⟩
    · intro c hc hsuccess
      rcases hposted c hc with hc | rfl
      · exact (h.callbacks c hc hsuccess).trans hlo
      · exact le_rfl

theorem Safe.callback (h : Safe s) : Safe (s.callback r) := by
  obtain ⟨history, saved, h⟩ := h
  refine ⟨history, saved, ?_⟩
  unfold State.callback
  split
  · exact h
  next g success callbacks heq =>
  have hall := h.callbacks
  rw [heq] at hall
  have hless : Saved history saved { s.toRecord with callbacks } :=
    { h with callbacks := fun c hc => hall c (mem_cons_of_mem _ hc) }
  dsimp only
  split
  · rwa [toRecord_schedule]
  next hsuccess =>
  split
  · next hg =>
    exact { hless with clean := fun _ => hg.le.trans (hall (g, success) mem_cons_self (by simpa using hsuccess)) }
  · rwa [toRecord_schedule]

theorem Safe.fire (h : Safe s) (early : Bool) (i : Nat) : Safe (s.fire server rows r early i) := by
  unfold State.fire
  split
  · exact h
  dsimp only
  split
  · exact Safe.flush h
  split
  · exact h
  · exact Safe.flush h

theorem Safe.drained (h : Safe s) (answers : Nat → Outcome × Bool) {n : Nat} (hn : s.tasks.length = n) :
    Safe (State.flush answers n s) ∧ (State.flush answers n s).tasks = [] := by
  induction n generalizing s with
  | zero => exact ⟨h, length_eq_zero_iff.mp hn⟩
  | succ n ih =>
    refine ih (h.runTask ..) ?_
    unfold State.runTask
    split
    · next heq => simp [heq] at hn
    · next heq => simpa [heq] using hn

variable (server rows) in
theorem Safe.attempt (h : Safe s) (hqueue : s.tasks = []) (o : Outcome) :
    Safe (s.attempt server rows o).2 ∧ (s.attempt server rows o).2.tasks = [] ∧
      ((s.attempt server rows o).1 = true → (s.attempt server rows o).2.saveDirty = false) := by
  unfold State.attempt
  split
  · next hclean => exact ⟨h, hqueue, fun _ => by simpa using hclean⟩
  dsimp only
  split
  · exact ⟨h, hqueue, nofun⟩
  next hquery =>
  rw [query_ne_nil hquery, if_neg Bool.false_ne_true]
  obtain ⟨history, saved, h⟩ := h
  -- the query took effect: the settings are in the table
  have hput : ∀ dirty, Saved history s.saveGeneration { s.toRecord with table := s.settings, saveDirty := dirty } := by
    refine fun dirty => ⟨h.current, h.current, le_rfl, ?_, h.ordered, ?_, fun _ => le_rfl⟩
    · simp [hqueue]
    · exact fun c hc hsuccess => (h.callbacks c hc hsuccess).trans h.le
  cases o with
  | done =>
    rw [if_pos rfl]
    exact ⟨⟨history, _, hput false⟩, hqueue, fun _ => rfl⟩
  | failed => exact ⟨⟨history, saved, h⟩, hqueue, nofun⟩
  | lost => exact ⟨⟨history, _, hput s.saveDirty⟩, hqueue, nofun⟩

theorem Safe.attempts (h : Safe s) (hqueue : s.tasks = []) (answers : Nat → Outcome) (n : Nat) :
    Safe (State.attempts server rows answers n s).2 ∧
      ((State.attempts server rows answers n s).1 = true → (State.attempts server rows answers n s).2.saveDirty = false) := by
  induction n generalizing s with
  | zero => exact ⟨h, nofun⟩
  | succ n ih =>
    obtain ⟨hsafe, hempty, hclean⟩ := h.attempt server rows hqueue (answers n)
    unfold State.attempts
    split
    · next heq =>
      rw [heq] at hsafe hclean
      exact ⟨hsafe, fun _ => hclean rfl⟩
    · next heq =>
      rw [heq] at hsafe hempty
      exact ih hsafe hempty

variable (server rows r) in
theorem Safe.flushSync (h : Safe s) (queued : Nat → Outcome × Bool) (own : Nat → Outcome) :
    Safe (s.flushSync server rows r queued own).2 ∧
      ((s.flushSync server rows r queued own).1 = true → (s.flushSync server rows r queued own).2.saveDirty = false) := by
  have hstop : Safe (s.stopEvent r) := by
    unfold Safe
    rwa [toRecord_stopEvent]
  unfold State.flushSync
  dsimp only
  split
  · next hclean => exact ⟨hstop, fun _ => by simpa using hclean⟩
  · obtain ⟨hsafe, hempty⟩ := hstop.drained queued rfl
    exact hsafe.attempts hempty own 3

theorem Safe.step (h : Safe s) (e : Event σ) : Safe (step server rows s e) := by
  cases e with
  | change r settings => exact h.change settings
  | fire r early i => exact h.fire early i
  | runTask o posted => exact h.runTask o posted
  | callback r => exact h.callback
  | flushSync r queued own => exact (h.flushSync server rows r queued own).1
  | setRunning running => exact h

/-! ## What is still to come -/

/-- A change that is not saved is not forgotten. -/
def Pending (s : State σ) : Prop :=
  s.saveDirty = true → s.events ≠ [] ∨ s.tasks ≠ [] ∨ s.callbacks ≠ [] ∨ s.forgotten = true

theorem pending_addEvent (retry : Bool) : Pending (s.addEvent r retry) := by
  intro _
  by_cases hid : r.id = 0
  · exact .inr (.inr (.inr (by simp [State.addEvent, hid])))
  · exact .inl (by simp [State.addEvent, hid])

theorem pending_clean (h : s.saveDirty = false) : Pending s := fun hdirty => absurd (h.symm.trans hdirty) Bool.false_ne_true

theorem pending_flush : Pending (s.flushQuickLootPersistence server rows r) := by
  unfold State.flushQuickLootPersistence
  dsimp only
  split
  · next hclean => exact pending_clean (by simpa using hclean)
  split
  · exact pending_addEvent false
  · next hquery =>
    rw [query_ne_nil hquery, if_neg Bool.false_ne_true]
    split
    · exact fun _ => .inr (.inl (by simp))
    · exact pending_addEvent false

theorem pending_attempts (answers : Nat → Outcome) (n : Nat) :
    Pending (State.attempts server rows answers n s).2 ∨ (State.attempts server rows answers n s).1 = true := by
  induction n generalizing s with
  | zero => exact .inl fun _ => .inr (.inr (.inr rfl))
  | succ n ih =>
    unfold State.attempts
    split
    · exact .inr rfl
    · exact ih

theorem Pending.step (hsafe : Safe s) (h : Pending s) (e : Event σ) : Pending (step server rows s e) := by
  cases e with
  | change r settings => exact pending_addEvent false
  | fire r early i =>
    show Pending (s.fire server rows r early i)
    unfold State.fire
    split
    · exact h
    dsimp only
    split
    · exact pending_flush
    split
    · exact pending_addEvent true
    · exact pending_flush
  | runTask o posted =>
    show Pending (s.runTask o posted)
    unfold State.runTask
    split
    · exact h
    · intro _
      cases posted with
      | true => exact .inr (.inr (.inl (by simp)))
      | false => exact .inr (.inr (.inr (by simp)))
  | callback r =>
    show Pending (s.callback r)
    unfold State.callback
    split
    · exact h
    dsimp only
    split
    · exact pending_addEvent false
    split
    · exact pending_clean rfl
    · exact pending_addEvent false
  | flushSync r queued own =>
    have hclean := (hsafe.flushSync server rows r queued own).2
    show Pending (s.flushSync server rows r queued own).2
    unfold State.flushSync at hclean ⊢
    dsimp only at hclean ⊢
    split
    · next hstop => exact pending_clean (by simpa using hstop)
    · next hstop =>
      rw [if_neg hstop] at hclean
      exact (pending_attempts own 3).elim id fun hdone => pending_clean (hclean hdone)
  | setRunning running => exact h

theorem safe_run (h : Safe s) (hp : Pending s) (es : List (Event σ)) :
    Safe (run (step server rows) s es) ∧ Pending (run (step server rows) s es) := by
  induction es generalizing s with
  | nil => exact ⟨h, hp⟩
  | cons e es ih => exact ih (h.step e) (hp.step h e)

/-- A player whose settings were loaded. -/
def start (settings : σ) : State σ := { settings, table := settings }

/-- The settings are in the table unless they are dirty, and then they are on their way there. -/
theorem quick_loot_persisted (server : Server) (rows : σ → Bytes × Bytes) (settings : σ) (es : List (Event σ)) :
    let s := run (step server rows) (start settings) es
    (s.saveDirty = false → s.table = s.settings) ∧
      (s.saveDirty = true → s.events ≠ [] ∨ s.tasks ≠ [] ∨ s.callbacks ≠ [] ∨ s.forgotten = true) ∧
      ∀ r queued own, (s.flushSync server rows r queued own).1 = true →
        (s.flushSync server rows r queued own).2.table = (s.flushSync server rows r queued own).2.settings := by
  intro s
  have hstart : Safe (start settings) :=
    ⟨fun _ => settings, 0, rfl, rfl, le_rfl, nofun, .nil, nofun, fun _ => le_rfl⟩
  have hs : Safe s ∧ Pending s := safe_run hstart nofun es
  refine ⟨hs.1.table, hs.2, fun r queued own hdone => ?_⟩
  obtain ⟨hsafe, hclean⟩ := hs.1.flushSync server rows r queued own
  exact hsafe.table (hclean hdone)

end Backlands.Players.QuickLoot
