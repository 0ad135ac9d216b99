/-
  Backlands.Kv.Durability — the order in which values reach the table (src/kv/kv.cpp: `set`,
  `processEvictions`, `saveAll`, `flush`).

  Any number of calls are under way at once. What a call does under the mutex is one step, and so is
  each statement it sends; between two steps of a call the others go on (`Job` is where a call
  stands). `saveAll`'s transaction is one step, the commit: a row it has written stays locked until
  then. `serial` numbers the sets and, like the number beside a row, is not in the code.

  Proved: when every step is `Orderly` (a statement that takes effect finds no older value of its
  key still waiting; an eviction finds its victim cached; a `flush` clears only what is in its
  snapshot or in the table), no value is written after a newer one, no set is lost, and when a
  `flush` or a `saveAll` ends that has seen everything, the table has the value last set on every
  key (`durable`). `flush` does clear what was set after its snapshot (`set_during_flush_lost`).
-/

import Mathlib.Data.List.Induction
import Backlands.Kv.Linked

namespace Backlands.Kv.Durability

open Backlands.Lib Backlands.Db Function List

/-! ## The machine -/

/-- A value and the number of the set it comes from. -/
structure Stamped where
  value : ValueWrapper
  serial : Nat

abbrev Item := Key × Stamped

/-- A row, or none, and the number of the value it is. -/
structure Mark where
  row : Option Row
  serial : Nat
  deriving DecidableEq

def mark (e : Item) : Mark := ⟨e.2.value.row, e.2.serial⟩

abbrev Marks := Key → Mark

def put (db : Marks) (e : Item) : Marks := update db e.1 (mark e)

/-- Where a call stands. `saving` tells a pass made by `saveAll`. -/
inductive Job where
  /-- `processEvictions`, before it takes the queue. -/
  | evict (saving : Bool)
  | passing (saving success : Bool) (evictions : List Item)
  /-- A save failed; the entry is about to be queued again. -/
  | requeue (saving : Bool) (e : Item) (evictions : List Item)
  /-- `saveAll`, before `getStore`. -/
  | copying
  | writing (store : List Item)
  | flush
  | flushing (allSaved : Bool) (saved snapshot : List Item)
  | clearing (snapshot : List Item)

structure State where
  cache : Cache Stamped
  db : Marks
  jobs : List Job
  /-- Every set made, in order. -/
  sets : List Item

inductive Ev where
  | set (now : Nat) (key : Key) (value : ValueWrapper)
  | processEvictions
  | saveAll
  | flush
  /-- The `j`-th call goes on. -/
  | work (j : Nat) (o : Outcome) (b : Batch Item)

def gone (e : Item) : Bool := e.2.value.deleted

/-- One step of a call: where it stands then, and what it did. -/
def advance (o : Outcome) (b : Batch Item) (s : State) : Job → Option Job × State
  | .evict saving =>
    (some (.passing saving true s.cache.pendingEvictions), { s with cache := { s.cache with pendingEvictions := [] } })
  | .passing saving success [] => (if saving && success then some .copying else none, s)
  | .passing saving success (e :: evictions) =>
    (some (if o.ok then .passing saving success evictions else .requeue saving e evictions),
      if o.applied then { s with db := put s.db e } else s)
  | .requeue saving e evictions =>
    (some (.passing saving false evictions),
      { s with cache := { s.cache with pendingEvictions := s.cache.pendingEvictions ++ [e] } })
  | .copying => (some (.writing s.cache.getStore), s)
  | .writing store => (none, { s with db := (writeBatch gone put b store s.db).2 })
  | .flush => (some (.flushing true [] s.cache.snapshot), s)
  | .flushing allSaved saved [] => (if allSaved then some (.clearing saved) else none, s)
  | .flushing allSaved saved (e :: snapshot) =>
    (some (.flushing (allSaved && o.ok) (saved ++ [e]) snapshot), if o.applied then { s with db := put s.db e } else s)
  | .clearing _ => (none, { s with cache := s.cache.clear })

def step (s : State) : Ev → State
  | .set now key value =>
    let stamped : Stamped := ⟨value, s.sets.length + 1⟩
    { s with
      cache := s.cache.setLocked ⟨.fresh now, 0⟩ key stamped
      jobs := s.jobs ++ [.evict false]
      sets := s.sets ++ [(key, stamped)] }
  | .processEvictions => { s with jobs := s.jobs ++ [.evict false] }
  | .saveAll => { s with jobs := s.jobs ++ [.evict true] }
  | .flush => { s with jobs := s.jobs ++ [.flush] }
  | .work j o b =>
    match s.jobs[j]? with
    | none => s
    | some job =>
      let r := advance o b s job
      { r.2 with jobs := s.jobs.take j ++ r.1.toList ++ s.jobs.drop (j + 1) }

/-- Nothing is cached and nothing under way; the table is any. -/
def Starts (s : State) : Prop :=
  s.cache = Cache.empty ∧ s.jobs = [] ∧ s.sets = [] ∧ ∀ k, (s.db k).serial = 0

def latest (sets : List Item) (key : Key) : Option Item := (sets.filter (·.1 == key)).getLast?

/-! ## What waits -/

def Job.hands : Job → List Item
  | .passing _ _ evictions => evictions
  | .requeue _ e evictions => e :: evictions
  | _ => []

/-- What a `flush` or a `saveAll` has yet to write of its copy. -/
def Job.copied : Job → List Item
  | .writing store => store
  | .flushing _ _ snapshot => snapshot
  | _ => []

def inHands (s : State) : List Item := s.jobs.flatMap Job.hands

/-- Every value on its way to the table. -/
def waiting (s : State) : List Item := s.cache.pendingEvictions ++ inHands s ++ s.jobs.flatMap Job.copied

/-- No older value of the key waits. -/
def NoOlder (s : State) (e : Item) : Prop := ∀ d ∈ waiting s, d.1 = e.1 → e.2.serial ≤ d.2.serial

/-- The value is in the copy, or in the table already. -/
def Seen (s : State) (copy : List Item) (e : Item) : Prop := e ∈ copy ∨ s.db e.1 = mark e

def VictimCached (c : Cache Stamped) (key : Key) : Prop :=
  c.find key = none → MAX_SIZE ≤ c.store.length → ∀ last, c.lruQueue.getLast? = some last → (c.find last.2).isSome = true

def Orderly (s : State) : Ev → Prop
  | .set _ key _ => VictimCached s.cache key
  | .work j o b =>
    match s.jobs[j]? with
    | some (.passing _ _ (e :: _)) => o.applied = true → NoOlder s e
    | some (.flushing _ _ (e :: _)) => o.applied = true → NoOlder s e
    | some (.writing store) => b.begins = true → ∀ e ∈ store, NoOlder s e
    | some (.clearing snapshot) => ∀ e ∈ s.cache.snapshot, Seen s snapshot e
    | _ => True
  | _ => True

/-! ## The sets by number -/

/-- The `i`-th set has the number `i + 1`. -/
def Numbered (sets : List Item) : Prop := ∀ i e, sets[i]? = some e → e.2.serial = i + 1

variable {sets : List Item} {e d : Item} {key : Key}

theorem numbered_snoc (h : Numbered sets) (key : Key) (value : ValueWrapper) :
    Numbered (sets ++ [(key, ⟨value, sets.length + 1⟩)]) := by
  intro i e hi
  rcases Nat.lt_or_ge i sets.length with hlt | hge
  · rw [getElem?_append_left hlt] at hi
    exact h i e hi
  rw [getElem?_append_right hge] at hi
  have hzero : i - sets.length = 0 := by
    have hlt := (List.getElem?_eq_some_iff.mp hi).1
    rw [length_singleton] at hlt
    omega
  rw [hzero] at hi
  rw [← Option.some.inj hi]
  show sets.length + 1 = i + 1
  omega

theorem serial_le_length (h : Numbered sets) (he : e ∈ sets) : 0 < e.2.serial ∧ e.2.serial ≤ sets.length := by
  obtain ⟨i, hi⟩ := mem_iff_getElem?.mp he
  obtain ⟨hlt, -⟩ := List.getElem?_eq_some_iff.mp hi
  have hs := h i e hi
  omega

theorem eq_of_serial (h : Numbered sets) (he : e ∈ sets) (hd : d ∈ sets) (hs : e.2.serial = d.2.serial) : e = d := by
  obtain ⟨i, hi⟩ := mem_iff_getElem?.mp he
  obtain ⟨j, hj⟩ := mem_iff_getElem?.mp hd
  have hei := h i e hi
  have hdj := h j d hj
  obtain rfl : i = j := by omega
  rw [hi] at hj
  exact Option.some.inj hj

theorem latest_mem (h : latest sets key = some e) : e ∈ sets ∧ e.1 = key := by
  have hm := mem_of_getLast? h
  exact ⟨(mem_filter.mp hm).1, by simpa using (mem_filter.mp hm).2⟩

theorem latest_snoc (sets : List Item) (d : Item) (key : Key) :
    latest (sets ++ [d]) key = if d.1 = key then some d else latest sets key := by
  unfold latest
  rw [filter_append]
  by_cases hd : d.1 = key
  · rw [if_pos hd, filter_cons_of_pos (by simpa using hd)]
    simp
  · rw [if_neg hd, filter_cons_of_neg (by simpa using hd), filter_nil, append_nil]

theorem serial_le_latest (h : Numbered sets) (hl : latest sets key = some e) (hd : d ∈ sets) (hk : d.1 = key) :
    d.2.serial ≤ e.2.serial := by
  induction sets using reverseRecOn with
  | nil => cases hd
  | append_singleton sets last ih =>
    have hlast : last.2.serial = sets.length + 1 := h sets.length last (by simp)
    have hsub : Numbered sets := by
      intro i b hi
      exact h i b (by rw [getElem?_append_left (List.getElem?_eq_some_iff.mp hi).1]; exact hi)
    rw [latest_snoc] at hl
    rcases mem_append.mp hd with hd | hd
    · by_cases hkey : last.1 = key
      · rw [if_pos hkey] at hl
        obtain rfl : last = e := Option.some.inj hl
        have hle := (serial_le_length hsub hd).2
        omega
      · rw [if_neg hkey] at hl
        exact ih hsub hl hd
    · obtain rfl : d = last := mem_singleton.mp hd
      rw [if_pos hk] at hl
      obtain rfl : d = e := Option.some.inj hl
      exact le_refl _

/-! ## What every orderly run keeps -/

/-- What a `flush` that failed nothing so far has saved. -/
def Job.saved : Job → List Item
  | .flushing true saved _ => saved
  | .clearing snapshot => snapshot
  | _ => []

structure Inv (s : State) : Prop where
  numbered : Numbered s.sets
  /-- A cached value is the last one set. -/
  cached : ∀ e ∈ s.cache.getStore, latest s.sets e.1 = some e
  /-- What waits is not older than what is written. -/
  onTime : ∀ e ∈ waiting s, e ∈ s.sets ∧ (s.db e.1).serial ≤ e.2.serial
  table : ∀ k, (s.db k).serial = 0 ∨ ∃ e ∈ s.sets, e.1 = k ∧ s.db k = mark e
  /-- The last value set is somewhere. -/
  kept : ∀ k e, latest s.sets k = some e →
    e ∈ s.cache.getStore ∨ e ∈ s.cache.pendingEvictions ++ inHands s ∨ s.db k = mark e
  saved : ∀ e ∈ s.jobs.flatMap Job.saved, e.2.serial ≤ (s.db e.1).serial
  /-- A copy of the cache has one value of a key. -/
  single : ∀ store, Job.writing store ∈ s.jobs → ∀ e ∈ store, ∀ d ∈ store, e.1 = d.1 → e = d

variable {s t : State}

theorem Inv.table_le (h : Inv s) (hl : latest s.sets key = some e) : (s.db key).serial ≤ e.2.serial := by
  rcases h.table key with hz | ⟨d, hd, hk, hdb⟩
  · omega
  · rw [hdb]
    exact serial_le_latest h.numbered hl hd hk

theorem Inv.table_eq (h : Inv s) (hl : latest s.sets key = some e) (hs : e.2.serial ≤ (s.db key).serial) :
    s.db key = mark e := by
  obtain ⟨he, rfl⟩ := latest_mem hl
  have hpos := (serial_le_length h.numbered he).1
  rcases h.table e.1 with hz | ⟨d, hd, hk, hdb⟩
  · omega
  · have hle := serial_le_latest h.numbered hl hd hk
    rw [hdb] at hs ⊢
    rw [eq_of_serial h.numbered hd he (le_antisymm hle hs)]

/-- Calls move what they hold: nothing is written, nothing set, and what is let go is in the
    table. -/
theorem inv_move (h : Inv s) (hsets : t.sets = s.sets) (hdb : t.db = s.db) (hstore : t.cache.getStore = s.cache.getStore)
    (hwait : ∀ e ∈ waiting t, e ∈ waiting s ∨ e ∈ s.cache.getStore)
    (hkept : ∀ e ∈ s.cache.pendingEvictions ++ inHands s, e ∈ t.cache.pendingEvictions ++ inHands t ∨ s.db e.1 = mark e)
    (hsaved : ∀ e ∈ t.jobs.flatMap Job.saved, e ∈ s.jobs.flatMap Job.saved ∨ e.2.serial ≤ (s.db e.1).serial)
    (hsingle : ∀ store, Job.writing store ∈ t.jobs → Job.writing store ∈ s.jobs ∨ store = s.cache.getStore) : Inv t where
  numbered := hsets ▸ h.numbered
  cached := by
    rw [hstore, hsets]
    exact h.cached
  onTime := by
    rw [hsets, hdb]
    intro e he
    rcases hwait e he with he | he
    · exact h.onTime e he
    · have hl := h.cached e he
      exact ⟨(latest_mem hl).1, h.table_le hl⟩
  table := by
    rw [hsets, hdb]
    exact h.table
  kept := by
    rw [hsets, hdb, hstore]
    intro k e hl
    rcases h.kept k e hl with hc | hw | hd
    · exact .inl hc
    · obtain ⟨-, rfl⟩ := latest_mem hl
      exact .inr (hkept e hw)
    · exact .inr (.inr hd)
  saved := by
    rw [hdb]
    intro e he
    rcases hsaved e he with he | he
    · exact h.saved e he
    · exact he
  single := by
    intro store hj e he d hd hk
    rcases hsingle store hj with hj | rfl
    · exact h.single store hj e he d hd hk
    have hle := h.cached e he
    have hld := h.cached d hd
    rw [hk, hld] at hle
    exact (Option.some.inj hle).symm

/-- The table after some of the copy was written. -/
def Patched (db db' : Marks) (copy : List Item) : Prop := ∀ k, db' k = db k ∨ ∃ e ∈ copy, e.1 = k ∧ db' k = mark e

variable {copy : List Item}

theorem Patched.serial_le {db db' : Marks} (h : Patched db db' copy) (hle : ∀ e ∈ copy, (db e.1).serial ≤ e.2.serial)
    (k : Key) : (db k).serial ≤ (db' k).serial := by
  rcases h k with heq | ⟨e, he, rfl, heq⟩
  · rw [heq]
  · rw [heq]
    exact hle e he

theorem inv_patch (h : Inv s) {db' : Marks} (hp : Patched s.db db' copy) (hcopy : ∀ e ∈ copy, e ∈ waiting s)
    (hno : ∀ e ∈ copy, NoOlder s e) : Inv { s with db := db' } where
  numbered := h.numbered
  cached := h.cached
  onTime := by
    intro d hd
    refine ⟨(h.onTime d hd).1, ?_⟩
    show (db' d.1).serial ≤ d.2.serial
    rcases hp d.1 with heq | ⟨e, he, hk, heq⟩
    · rw [heq]
      exact (h.onTime d hd).2
    · rw [heq]
      exact hno e he d hd hk.symm
  table := by
    intro k
    show (db' k).serial = 0 ∨ ∃ e ∈ s.sets, e.1 = k ∧ db' k = mark e
    rcases hp k with heq | ⟨e, he, hk, heq⟩
    · rw [heq]
      exact h.table k
    · exact .inr ⟨e, (h.onTime e (hcopy e he)).1, hk, heq⟩
  kept := by
    intro k f hl
    rcases h.kept k f hl with hc | hw | hd
    · exact .inl hc
    · exact .inr (.inl hw)
    refine .inr (.inr ?_)
    show db' k = mark f
    rcases hp k with heq | ⟨e, he, hk, heq⟩
    · rw [heq]
      exact hd
    · -- The one written is the last set as well: it is between the table and that.
      obtain ⟨hmem, hle⟩ := h.onTime e (hcopy e he)
      have hup := serial_le_latest h.numbered hl hmem hk
      rw [hk, hd] at hle
      rw [heq, eq_of_serial h.numbered hmem (latest_mem hl).1 (le_antisymm hup hle)]
  saved := by
    intro e he
    exact (h.saved e he).trans (hp.serial_le (fun d hd => (h.onTime d (hcopy d hd)).2) e.1)
  single := h.single

theorem patched_put (db : Marks) (e : Item) : Patched db (put db e) [e] := by
  intro k
  by_cases hk : k = e.1
  · subst hk
    exact .inr ⟨e, mem_singleton_self e, rfl, update_self _ _ _⟩
  · exact .inl (update_of_ne hk _ _)

/-! ## The transaction -/

section Batch

variable {E T : Type} {gone : E → Bool} {put : T → E → T} {b : Batch E} {base : T} {copy : List E}

def Wrote (put : T → E → T) (base : T) (copy : List E) (db : T) : Prop :=
  ∃ written : List E, (∀ e ∈ written, e ∈ copy) ∧ db = written.foldl put base

theorem Wrote.more {db : T} (h : Wrote put base copy db) {es : List E} (hes : ∀ e ∈ es, e ∈ copy) :
    Wrote put base copy (es.foldl put db) := by
  obtain ⟨written, hmem, rfl⟩ := h
  refine ⟨written ++ es, ?_, foldl_append.symm⟩
  grind

/-- Both what the transaction sees and what it would go back to. -/
def WroteBoth (put : T → E → T) (base : T) (copy : List E) (t : Transaction T) : Prop :=
  Wrote put base copy t.db ∧ Wrote put base copy t.undo

theorem wroteBoth_exec {t : Transaction T} (h : WroteBoth put base copy t) (a : Answer) {es : List E}
    (hes : ∀ e ∈ es, e ∈ copy) : WroteBoth put base copy (t.exec a fun db => es.foldl put db).2 := by
  cases a with
  | ok =>
    refine ⟨h.1.more hes, ?_⟩
    show Wrote put base copy (if t.opened then t.undo else es.foldl put t.db)
    split
    · exact h.2
    · exact h.1.more hes
  | refused => exact h
  | deadlock => exact ⟨h.2, h.2⟩

theorem wroteBoth_saveRows {es values : List E} {t : Transaction T} (n : Nat) (hes : ∀ e ∈ es, e ∈ copy)
    (hvalues : ∀ e ∈ values, e ∈ copy) (h : WroteBoth put base copy t) :
    WroteBoth put base copy (saveRows gone put b es values n t).2 := by
  induction es generalizing values n t with
  | nil =>
    unfold saveRows
    split
    · exact h
    · exact wroteBoth_exec h _ hvalues
  | cons e es ih =>
    have hmem : e ∈ copy := hes e mem_cons_self
    have htail : ∀ d ∈ es, d ∈ copy := fun d hd => hes d (mem_cons_of_mem e hd)
    have hone : ∀ d ∈ [e], d ∈ copy := fun d hd => mem_singleton.mp hd ▸ hmem
    unfold saveRows
    split
    · have hexec := wroteBoth_exec h (b.answers n) hone
      rcases hr : t.exec (b.answers n) (fun db => put db e) with ⟨ok, u⟩
      rw [show (fun db => [e].foldl put db) = fun db => put db e from rfl, hr] at hexec
      cases ok with
      | true => exact ih (n + 1) htail hvalues hexec
      | false => exact hexec
    · split
      · have hexec := wroteBoth_exec h (b.answers n) hvalues
        rcases hr : t.exec (b.answers n) (fun db => values.foldl put db) with ⟨ok, u⟩
        rw [hr] at hexec
        cases ok with
        | true => exact ih (n + 1) htail hone hexec
        | false => exact ih (n + 1) htail (fun d hd => by cases hd) hexec
      · refine ih n htail ?_ h
        grind

/-- Whatever becomes of the transaction, the table has some of the copy written to it. -/
theorem wrote_writeBatch (gone : E → Bool) (put : T → E → T) (b : Batch E) (copy : List E) (base : T) :
    Wrote put base copy (writeBatch gone put b copy base).2 := by
  have hbase : Wrote put base copy base := ⟨[], (fun e he => nomatch he), rfl⟩
  have hboth : WroteBoth put base copy (saveRows gone put b copy [] 0 ⟨base, base, true⟩).2 :=
    wroteBoth_saveRows 0 (fun e he => he) (fun e he => by cases he) ⟨hbase, hbase⟩
  unfold writeBatch
  split
  · rcases hr : saveRows gone put b copy [] 0 ⟨base, base, true⟩ with ⟨ok, t⟩
    rw [hr] at hboth
    cases ok with
    | true =>
      show Wrote put base copy (if b.commit.applied then t.db else t.undo)
      split
      · exact hboth.1
      · exact hboth.2
    | false => exact hboth.2
  · exact hbase

theorem saveRows_all (hok : ∀ n, b.answers n = .ok) (es values : List E) (n : Nat) (t : Transaction T) :
    (saveRows gone put b es values n t).1 = true ∧
    ∃ written : List E, written.Perm (values ++ es) ∧ (saveRows gone put b es values n t).2.db = written.foldl put t.db := by
  induction es generalizing values n t with
  | nil =>
    unfold saveRows
    split
    · rename_i hempty
      rw [List.isEmpty_iff.mp hempty]
      exact ⟨rfl, [], List.Perm.refl _, rfl⟩
    · rw [hok n]
      exact ⟨rfl, values, by rw [append_nil], rfl⟩
  | cons e es ih =>
    unfold saveRows
    split
    · rw [hok n]
      obtain ⟨h1, written, hperm, hdb⟩ := ih values (n + 1) ⟨put t.db e, if t.opened then t.undo else put t.db e, t.opened⟩
      refine ⟨h1, e :: written, ?_, hdb⟩
      exact (hperm.cons e).trans perm_middle.symm
    · split
      · rw [hok n]
        obtain ⟨h1, written, hperm, hdb⟩ := ih [e] (n + 1)
          ⟨values.foldl put t.db, if t.opened then t.undo else values.foldl put t.db, t.opened⟩
        refine ⟨h1, values ++ written, hperm.append_left values, ?_⟩
        rw [foldl_append]
        exact hdb
      · obtain ⟨h1, written, hperm, hdb⟩ := ih (values ++ [e]) n t
        refine ⟨h1, written, ?_, hdb⟩
        rw [append_assoc] at hperm
        exact hperm

theorem writeBatch_all (hok : ∀ n, b.answers n = .ok) (hsuccess : (writeBatch gone put b copy base).1 = true) :
    ∃ written : List E, written.Perm copy ∧ (writeBatch gone put b copy base).2 = written.foldl put base := by
  obtain ⟨h1, written, hperm, hdb⟩ := @saveRows_all E T gone put b hok copy [] 0 ⟨base, base, true⟩
  refine ⟨written, hperm, ?_⟩
  unfold writeBatch at hsuccess ⊢
  split at hsuccess
  · rename_i hbegins
    rw [if_pos hbegins]
    rcases hr : saveRows gone put b copy [] 0 ⟨base, base, true⟩ with ⟨ok, t⟩
    rw [hr] at h1 hdb hsuccess
    obtain rfl : ok = true := h1
    show (if b.commit.applied then t.db else t.undo) = _
    rw [if_pos (Outcome.applied_of_ok hsuccess)]
    exact hdb
  · cases hsuccess

end Batch

theorem patched_foldl (es : List Item) (db : Marks) : Patched db (es.foldl put db) es := by
  induction es using reverseRecOn with
  | nil => exact fun k => .inl rfl
  | append_singleton es e ih =>
    intro k
    rw [foldl_append]
    rcases patched_put (es.foldl put db) e k with heq | ⟨d, hd, hk, heq⟩
    · rcases ih k with hold | ⟨d, hd, hk, hd'⟩
      · exact .inl (heq.trans hold)
      · exact .inr ⟨d, mem_append_left _ hd, hk, heq.trans hd'⟩
    · exact .inr ⟨d, mem_append_right _ hd, hk, heq⟩

theorem foldl_put_mem {es : List Item} (hone : ∀ e ∈ es, ∀ d ∈ es, e.1 = d.1 → e = d) (db : Marks) (he : e ∈ es) :
    es.foldl put db e.1 = mark e := by
  induction es using reverseRecOn with
  | nil => cases he
  | append_singleton es last ih =>
    rw [foldl_append]
    show update (es.foldl put db) last.1 (mark last) e.1 = mark e
    by_cases hk : e.1 = last.1
    · rw [hk, update_self, hone e he last (by simp) hk]
    rw [update_of_ne hk]
    have hmem : e ∈ es := by
      grind
    exact ih (fun a ha d hd => hone a (mem_append_left _ ha) d (mem_append_left _ hd)) hmem

/-! ## The steps -/

variable {j : Nat} {o : Outcome} {snapshot : List Item} {b : Batch Item}

theorem jobs_split {jobs : List Job} {job : Job} (h : jobs[j]? = some job) :
    jobs = jobs.take j ++ job :: jobs.drop (j + 1) := by
  obtain ⟨hlt, rfl⟩ := List.getElem?_eq_some_iff.mp h
  rw [← drop_eq_getElem_cons hlt, take_append_drop]

theorem waiting_of_job {job : Job} (hj : s.jobs[j]? = some job) (he : e ∈ job.hands ∨ e ∈ job.copied) :
    e ∈ waiting s := by
  have hjob := mem_of_getElem? hj
  rcases he with he | he
  · exact mem_append_left _ (mem_append_right _ (mem_flatMap.mpr ⟨job, hjob, he⟩))
  · exact mem_append_right _ (mem_flatMap.mpr ⟨job, hjob, he⟩)

theorem inv_advance (h : Inv s) {before after : List Job} {job : Job} {next : Option Job} {c : Cache Stamped}
    (hjobs : s.jobs = before ++ job :: after) (hstore : c.getStore = s.cache.getStore)
    (hwait : ∀ e ∈ c.pendingEvictions ++ next.toList.flatMap Job.hands ++ next.toList.flatMap Job.copied,
      e ∈ s.cache.pendingEvictions ∨ e ∈ job.hands ∨ e ∈ job.copied ∨ e ∈ s.cache.getStore)
    (hkept : ∀ e ∈ s.cache.pendingEvictions ++ job.hands,
      e ∈ c.pendingEvictions ++ next.toList.flatMap Job.hands ∨ s.db e.1 = mark e)
    (hsaved : ∀ e ∈ next.toList.flatMap Job.saved, e ∈ job.saved ∨ e.2.serial ≤ (s.db e.1).serial)
    (hsingle : ∀ store, Job.writing store ∈ next.toList → store = s.cache.getStore) :
    Inv { s with cache := c, jobs := before ++ next.toList ++ after } := by
  refine inv_move h rfl rfl hstore ?_ ?_ ?_ ?_
  · intro e he
    simp only [waiting, inHands, hjobs, flatMap_append, flatMap_cons, mem_append] at he hwait ⊢
    have hw := hwait e
    tauto
  · intro e he
    simp only [inHands, hjobs, flatMap_append, flatMap_cons, mem_append] at he hkept ⊢
    have hk := hkept e
    tauto
  · intro e he
    simp only [hjobs, flatMap_append, flatMap_cons, mem_append] at he ⊢
    have hs := hsaved e
    tauto
  · intro store hj
    simp only [hjobs, mem_append, mem_cons] at hj ⊢
    tauto

theorem inv_call (h : Inv s) (job : Job) (hh : job.hands = []) (hc : job.copied = []) (hs : job.saved = [])
    (hw : ∀ store, job ≠ .writing store) : Inv { s with jobs := s.jobs ++ [job] } := by
  refine inv_move h rfl rfl rfl ?_ ?_ ?_ ?_
  · intro e he
    simpa [waiting, inHands, hh, hc] using Or.inl he
  · intro e he
    left
    simpa [inHands, hh] using he
  · intro e he
    left
    simpa [hs] using he
  · grind

theorem getStore_setLocked {c : Cache Stamped} {fresh value : Stamped} (hv : VictimCached c key)
    (hone : ∀ e ∈ c.getStore, ∀ d ∈ c.getStore, e.1 = d.1 → e = d) :
    (∀ e ∈ (c.setLocked fresh key value).getStore, e = (key, value) ∨ e ∈ c.getStore ∧ e.1 ≠ key) ∧
    (key, value) ∈ (c.setLocked fresh key value).getStore ∧
    (∀ e ∈ c.snapshot, e.1 ≠ key → e ∈ (c.setLocked fresh key value).snapshot) ∧
    (∀ e ∈ (c.setLocked fresh key value).pendingEvictions, e ∈ c.pendingEvictions ∨ e ∈ c.getStore) := by
  unfold Cache.setLocked
  cases hf : c.find key with
  | some cell =>
    refine ⟨?_, ?_, ?_, fun e he => .inl he⟩
    · intro e he
      obtain ⟨b, hb, rfl⟩ := mem_map.mp he
      obtain ⟨d, hd, rfl⟩ := mem_map.mp hb
      by_cases hk : d.1 = key
      · left
        simp [hk]
      · right
        simp only [beq_eq_false_iff_ne.mpr hk, Bool.false_eq_true, if_false]
        exact ⟨mem_map.mpr ⟨d, hd, rfl⟩, hk⟩
    · refine mem_map.mpr ⟨(key, value, cell.2), ?_, rfl⟩
      exact mem_map.mpr ⟨(key, cell), find_mem hf, by simp⟩
    intro e he hk
    rcases mem_append.mp he with he | he
    · obtain ⟨d, hd, rfl⟩ := mem_map.mp he
      refine mem_append_left _ (mem_map.mpr ⟨d, mem_map.mpr ⟨d, hd, ?_⟩, rfl⟩)
      rw [if_neg (by simpa using hk)]
    · exact mem_append_right _ he
  | none =>
    have hin : ∀ {d : Key × Stamped × Nat}, d ∈ c.store → (d.1, d.2.1) ∈ c.getStore := fun hd =>
      mem_map.mpr ⟨_, hd, rfl⟩
    rcases evict_cases c fresh with ⟨heq, -⟩ | ⟨queue, node, victim, hfull, hq, heq⟩
    · simp only [heq]
      refine ⟨?_, ?_, ?_, fun e he => .inl he⟩
      · intro e he
        obtain ⟨d, hd, rfl⟩ := mem_map.mp he
        rcases mem_append.mp hd with hd | hd
        · exact .inr ⟨hin hd, find_none hf d hd⟩
        · rw [mem_singleton.mp hd]
          exact .inl rfl
      · exact mem_map.mpr ⟨(key, value, c.nodes), mem_append_right _ (mem_singleton_self _), rfl⟩
      intro e he _
      rcases mem_append.mp he with he | he
      · obtain ⟨d, hd, rfl⟩ := mem_map.mp he
        exact mem_append_left _ (mem_map.mpr ⟨d, mem_append_left _ hd, rfl⟩)
      · exact mem_append_right _ he
    · have hlast : c.lruQueue.getLast? = some (node, victim) := by
        rw [hq]
        simp
      obtain ⟨cell, hcell⟩ := Option.isSome_iff_exists.mp (hv hf hfull _ hlast)
      have hqueue : c.pendingEvictions ++ [(victim, ((c.find victim).map (·.1)).getD fresh)] =
          c.pendingEvictions ++ [(victim, cell.1)] := by
        rw [hcell]
        rfl
      rw [hqueue] at heq
      simp only [heq]
      refine ⟨?_, ?_, ?_, ?_⟩
      · intro e he
        obtain ⟨d, hd, rfl⟩ := mem_map.mp he
        rcases mem_append.mp hd with hd | hd
        · have hd := (mem_filter.mp hd).1
          exact .inr ⟨hin hd, find_none hf d hd⟩
        · rw [mem_singleton.mp hd]
          exact .inl rfl
      · exact mem_map.mpr ⟨(key, value, c.nodes), mem_append_right _ (mem_singleton_self _), rfl⟩
      · intro e he _
        rcases mem_append.mp he with he | he
        · by_cases hk : e.1 = victim
          · have hsame : e = (victim, cell.1) := hone e he _ (hin (find_mem hcell)) hk
            rw [hsame]
            exact mem_append_right _ (mem_append_right _ (mem_singleton_self _))
          · obtain ⟨d, hd, rfl⟩ := mem_map.mp he
            refine mem_append_left _ (mem_map.mpr ⟨d, mem_append_left _ ?_, rfl⟩)
            exact mem_filter.mpr ⟨hd, by simpa using hk⟩
        · exact mem_append_right _ (mem_append_left _ he)
      · intro e he
        rcases mem_append.mp he with he | he
        · exact .inl he
        · rw [mem_singleton.mp he]
          exact .inr (hin (find_mem hcell))

theorem Inv.cached_single (h : Inv s) : ∀ e ∈ s.cache.getStore, ∀ d ∈ s.cache.getStore, e.1 = d.1 → e = d := by
  intro e he d hd hk
  have hle := h.cached e he
  rw [hk, h.cached d hd] at hle
  exact (Option.some.inj hle).symm

theorem inv_set (h : Inv s) {now : Nat} {value : ValueWrapper} (hv : VictimCached s.cache key) :
    Inv (step s (.set now key value)) := by
  obtain ⟨hstore, hnew, hsnap, hpend⟩ := @getStore_setLocked key s.cache ⟨.fresh now, 0⟩ ⟨value, s.sets.length + 1⟩ hv
    h.cached_single
  have hlatest : ∀ k, latest (s.sets ++ [(key, ⟨value, s.sets.length + 1⟩)]) k =
      if key = k then some (key, ⟨value, s.sets.length + 1⟩) else latest s.sets k := fun k => latest_snoc _ _ k
  have hjobs : ∀ {f : Job → List Item}, f (.evict false) = [] → (s.jobs ++ [Job.evict false]).flatMap f = s.jobs.flatMap f := by
    intro f hf
    simp [hf]
  refine ⟨numbered_snoc h.numbered key value, ?_, ?_, ?_, ?_, ?_, ?_⟩
  · intro e he
    show latest (s.sets ++ _) e.1 = some e
    rw [hlatest]
    rcases hstore e he with rfl | ⟨hold, hk⟩
    · rw [if_pos rfl]
    · rw [if_neg (Ne.symm hk)]
      exact h.cached e hold
  · intro e he
    have hwait : e ∈ waiting s ∨ e ∈ s.cache.getStore := by
      simp only [waiting, inHands, step, hjobs (f := Job.hands) rfl, hjobs (f := Job.copied) rfl, mem_append] at he ⊢
      have hp := hpend e
      tauto
    have hold : e ∈ s.sets ∧ (s.db e.1).serial ≤ e.2.serial := by
      rcases hwait with hw | hc
      · exact h.onTime e hw
      · have hl := h.cached e hc
        exact ⟨(latest_mem hl).1, h.table_le hl⟩
    exact ⟨mem_append_left _ hold.1, hold.2⟩
  · intro k
    rcases h.table k with hz | ⟨e, he, hk, hdb⟩
    · exact .inl hz
    · exact .inr ⟨e, mem_append_left _ he, hk, hdb⟩
  · intro k e hl
    rw [show (step s (.set now key value)).sets = s.sets ++ [(key, ⟨value, s.sets.length + 1⟩)] from rfl, hlatest] at hl
    by_cases hk : key = k
    · rw [if_pos hk] at hl
      obtain rfl := Option.some.inj hl
      exact .inl hnew
    rw [if_neg hk] at hl
    have hne : e.1 ≠ key := fun heq => hk (heq.symm.trans (latest_mem hl).2)
    have hsnap' : e ∈ s.cache.snapshot → e ∈ (step s (.set now key value)).cache.snapshot := fun hm => hsnap e hm hne
    simp only [step, inHands, Cache.snapshot, hjobs (f := Job.hands) rfl, mem_append] at hsnap' ⊢
    have hkept := h.kept k e hl
    simp only [inHands, mem_append] at hkept
    tauto
  · intro e he
    rw [show (step s (.set now key value)).jobs.flatMap Job.saved = s.jobs.flatMap Job.saved from hjobs rfl] at he
    exact h.saved e he
  · intro store hj
    rcases mem_append.mp hj with hj | hj
    · exact h.single store hj
    · cases mem_singleton.mp hj

theorem inv_save (h : Inv s) (he : e ∈ waiting s) (hno : o.applied = true → NoOlder s e) :
    Inv { s with db := if o.applied then put s.db e else s.db } := by
  split
  · rename_i ha
    refine inv_patch h (patched_put s.db e) ?_ ?_
    · intro d hd
      rw [mem_singleton.mp hd]
      exact he
    · intro d hd
      rw [mem_singleton.mp hd]
      exact hno ha
  · exact h

/-- The table when a `flush` is about to clear has what its snapshot has. -/
theorem Inv.seen_written (h : Inv s) {copy : List Item} (hcopy : ∀ d ∈ copy, d.2.serial ≤ (s.db d.1).serial)
    (hseen : Seen s copy e) (hl : latest s.sets key = some e) : s.db key = mark e := by
  obtain ⟨-, rfl⟩ := latest_mem hl
  rcases hseen with hm | hdb
  · exact h.table_eq hl (hcopy e hm)
  · exact hdb

theorem save_eq (o : Outcome) (s : State) (e : Item) :
    (if o.applied then { s with db := put s.db e } else s) = { s with db := if o.applied then put s.db e else s.db } := by
  split <;> rfl

theorem inv_clear (h : Inv s) {before after : List Job} (hjobs : s.jobs = before ++ .clearing snapshot :: after)
    (hseen : ∀ e ∈ s.cache.snapshot, Seen s snapshot e) :
    Inv { s with cache := s.cache.clear, jobs := before ++ after } := by
  have hcopy : ∀ d ∈ snapshot, d.2.serial ≤ (s.db d.1).serial := by
    intro d hd
    refine h.saved d ?_
    rw [hjobs, flatMap_append, flatMap_cons]
    exact mem_append_right _ (mem_append_left _ hd)
  refine ⟨h.numbered, ?_, ?_, h.table, ?_, ?_, ?_⟩
  · intro e he
    cases he
  · intro e he
    refine h.onTime e ?_
    simp only [waiting, inHands, hjobs, Cache.clear, flatMap_append, flatMap_cons, mem_append,
      not_mem_nil, Job.hands, Job.copied] at he ⊢
    tauto
  · intro k e hl
    have hkept := h.kept k e hl
    have hfrom : e ∈ s.cache.snapshot → s.db k = mark e := fun hm => h.seen_written hcopy (hseen e hm) hl
    simp only [inHands, hjobs, Cache.snapshot, Cache.clear, flatMap_append, flatMap_cons, mem_append,
      not_mem_nil, Job.hands] at hkept hfrom ⊢
    tauto
  · intro e he
    refine h.saved e ?_
    rw [hjobs]
    simp only [flatMap_append, flatMap_cons, mem_append] at he ⊢
    tauto
  · intro store hj
    refine h.single store ?_
    rw [hjobs]
    simp only [mem_append, mem_cons] at hj ⊢
    tauto

theorem patched_writeBatch (b : Batch Item) (store : List Item) (db : Marks) :
    Patched db (writeBatch gone put b store db).2 store := by
  obtain ⟨written, hmem, hdb⟩ := wrote_writeBatch gone put b store db
  intro k
  rcases patched_foldl written db k with heq | ⟨e, he, hk, heq⟩
  · exact .inl (by rw [hdb, heq])
  · exact .inr ⟨e, hmem e he, hk, by rw [hdb, heq]⟩

theorem inv_batch (h : Inv s) {store : List Item} (hstore : ∀ e ∈ store, e ∈ waiting s)
    (hno : b.begins = true → ∀ e ∈ store, NoOlder s e) : Inv { s with db := (writeBatch gone put b store s.db).2 } := by
  by_cases hb : b.begins = true
  · exact inv_patch h (patched_writeBatch b store s.db) hstore (hno hb)
  have hsame : (writeBatch gone put b store s.db).2 = s.db := by
    unfold writeBatch
    rw [if_neg hb]
  rw [hsame]
  exact h

/-- After a statement that was answered, the value is in the table. -/
theorem put_of_ok (ho : o.ok = true) (db : Marks) (e : Item) : (if o.applied then put db e else db) e.1 = mark e := by
  rw [if_pos (Outcome.applied_of_ok ho)]
  exact update_self _ _ _

theorem inv_passing (h : Inv s) {before after : List Job} {saving success : Bool} {evictions : List Item}
    (hjobs : s.jobs = before ++ .passing saving success (e :: evictions) :: after) (he : e ∈ waiting s)
    (hno : o.applied = true → NoOlder s e) :
    Inv { s with
      db := if o.applied then put s.db e else s.db
      jobs := before ++ [if o.ok then .passing saving success evictions else .requeue saving e evictions] ++ after } := by
  have hsave := inv_save h he hno
  by_cases hok : o.ok = true
  · rw [if_pos hok]
    refine @inv_advance _ hsave before after _ (some (.passing saving success evictions)) s.cache hjobs rfl ?_ ?_ ?_ ?_
    · simp [Job.hands, Job.copied]
      tauto
    · intro d hd
      simp only [Job.hands, mem_append, mem_cons] at hd
      rcases hd with hd | rfl | hd
      · exact .inl (mem_append_left _ hd)
      · exact .inr (put_of_ok hok s.db d)
      · exact .inl (mem_append_right _ (by simpa [Job.hands] using hd))
    · simp [Job.saved]
    · simp
  · rw [if_neg hok]
    refine @inv_advance _ hsave before after _ (some (.requeue saving e evictions)) s.cache hjobs rfl ?_ ?_ ?_ ?_
    · simp [Job.hands, Job.copied]
      tauto
    · intro d hd
      exact .inl (by simpa [Job.hands] using hd)
    · simp [Job.saved]
    · simp

theorem inv_flushing (h : Inv s) {before after : List Job} {allSaved : Bool} {saved : List Item}
    (hjobs : s.jobs = before ++ .flushing allSaved saved (e :: snapshot) :: after) (he : e ∈ waiting s)
    (hno : o.applied = true → NoOlder s e) :
    Inv { s with
      db := if o.applied then put s.db e else s.db
      jobs := before ++ [.flushing (allSaved && o.ok) (saved ++ [e]) snapshot] ++ after } := by
  have hsave := inv_save h he hno
  refine @inv_advance _ hsave before after _ (some (.flushing (allSaved && o.ok) (saved ++ [e]) snapshot)) s.cache hjobs rfl
    ?_ ?_ ?_ ?_
  · simp [Job.hands, Job.copied]
    tauto
  · intro d hd
    exact .inl (by simpa [Job.hands] using hd)
  · intro d hd
    by_cases hall : allSaved = true ∧ o.ok = true
    · obtain ⟨rfl, hok⟩ := hall
      simp only [hok, Bool.and_true, Option.toList, flatMap_cons, flatMap_nil, Job.saved, append_nil,
        mem_append, mem_singleton] at hd
      rcases hd with hd | rfl
      · exact .inl hd
      right
      show d.2.serial ≤ ((if o.applied then put s.db d else s.db) d.1).serial
      rw [put_of_ok hok]
      exact le_refl _
    · have hfalse : (allSaved && o.ok) = false := by
        grind
      rw [hfalse] at hd
      simp [Job.saved] at hd
  · simp

theorem inv_work (h : Inv s) (ho : Orderly s (.work j o b)) : Inv (step s (.work j o b)) := by
  simp only [step]
  cases hj : s.jobs[j]? with
  | none => exact h
  | some job =>
    have hjobs := jobs_split hj
    simp only [Orderly, hj] at ho
    cases job with
    | evict saving =>
      refine inv_advance h hjobs rfl ?_ ?_ ?_ ?_ <;> simp [advance, Job.hands, Job.copied, Job.saved] <;> tauto
    | passing saving success evictions =>
      cases evictions with
      | nil =>
        refine inv_advance h hjobs rfl ?_ ?_ ?_ ?_ <;> simp only [advance] <;> split <;>
          simp [Job.hands, Job.copied, Job.saved] <;> tauto
      | cons e evictions =>
        simp only [advance, save_eq]
        exact inv_passing h hjobs (waiting_of_job hj (.inl mem_cons_self)) ho
    | requeue saving e evictions =>
      refine inv_advance h hjobs rfl ?_ ?_ ?_ ?_ <;> simp [advance, Job.hands, Job.copied, Job.saved] <;> tauto
    | copying =>
      refine inv_advance h hjobs rfl ?_ ?_ ?_ ?_ <;> simp [advance, Job.hands, Job.copied, Job.saved]
      tauto
    | writing store =>
      have hbatch := inv_batch h (fun e he => waiting_of_job hj (.inr he)) ho
      refine @inv_advance _ hbatch _ _ _ none s.cache hjobs rfl ?_ ?_ ?_ ?_ <;> simp [Job.hands] <;> tauto
    | flush =>
      refine inv_advance h hjobs rfl ?_ ?_ ?_ ?_ <;> simp [advance, Job.hands, Job.copied, Job.saved, Cache.snapshot] <;> tauto
    | flushing allSaved saved snapshot =>
      cases snapshot with
      | nil =>
        cases allSaved <;> refine inv_advance h hjobs rfl ?_ ?_ ?_ ?_ <;>
          simp [advance, Job.hands, Job.copied, Job.saved] <;> tauto
      | cons e snapshot =>
        simp only [advance, save_eq]
        exact inv_flushing h hjobs (waiting_of_job hj (.inr mem_cons_self)) ho
    | clearing snapshot =>
      simp only [advance, Option.toList, append_nil]
      exact inv_clear h hjobs ho

theorem inv_step {ev : Ev} (ho : Orderly s ev) (h : Inv s) : Inv (step s ev) := by
  cases ev with
  | set now key value => exact inv_set h ho
  | processEvictions => exact inv_call h _ rfl rfl rfl (fun _ heq => by cases heq)
  | saveAll => exact inv_call h _ rfl rfl rfl (fun _ heq => by cases heq)
  | flush => exact inv_call h _ rfl rfl rfl (fun _ heq => by cases heq)
  | work j o b => exact inv_work h ho

theorem inv_of_reach (h : Reach Starts step Orderly s) : Inv s := by
  refine Reach.inv (I := Inv) ?_ ?_ h
  · rintro ⟨c, db, jobs, sets⟩ ⟨hc, hj, hsets, hdb⟩
    obtain rfl : c = Cache.empty := hc
    obtain rfl : jobs = [] := hj
    obtain rfl : sets = [] := hsets
    refine ⟨?_, ?_, ?_, fun k => .inl (hdb k), ?_, ?_, ?_⟩
    · intro i e hi
      cases hi
    · intro e he
      cases he
    · intro e he
      cases he
    · intro k e hl
      cases hl
    · intro e he
      cases he
    · intro store hj
      cases hj
  · intro s ev ho h
    exact inv_step ho h

/-! ## What is in the table -/

theorem serial_le_step (h : Inv s) {ev : Ev} (ho : Orderly s ev) (k : Key) :
    (s.db k).serial ≤ ((step s ev).db k).serial := by
  cases ev with
  | set now key value => exact le_refl _
  | processEvictions => exact le_refl _
  | saveAll => exact le_refl _
  | flush => exact le_refl _
  | work j o b =>
    simp only [step]
    cases hj : s.jobs[j]? with
    | none => exact le_refl _
    | some job =>
      have hone : ∀ {e}, e ∈ waiting s → (s.db k).serial ≤ ((if o.applied then put s.db e else s.db) k).serial := by
        intro e he
        split
        · refine (patched_put s.db e).serial_le ?_ k
          intro d hd
          rw [mem_singleton.mp hd]
          exact (h.onTime e he).2
        · exact le_refl _
      cases job with
      | passing saving success evictions =>
        cases evictions with
        | nil => exact le_refl _
        | cons e evictions =>
          simp only [advance, save_eq]
          exact hone (waiting_of_job hj (.inl mem_cons_self))
      | flushing allSaved saved snapshot =>
        cases snapshot with
        | nil => exact le_refl _
        | cons e snapshot =>
          simp only [advance, save_eq]
          exact hone (waiting_of_job hj (.inr mem_cons_self))
      | writing store =>
        exact (patched_writeBatch b store s.db).serial_le (fun e he => (h.onTime e (waiting_of_job hj (.inr he))).2) k
      | evict saving => exact le_refl _
      | requeue saving e evictions => exact le_refl _
      | copying => exact le_refl _
      | flush => exact le_refl _
      | clearing snapshot => exact le_refl _

/-- A value that is cached, queued or in the hands of a pass. -/
def unsaved (s : State) : List Item := s.cache.snapshot ++ inHands s

theorem Inv.latest_seen (h : Inv s) (hl : latest s.sets key = some e) : e ∈ unsaved s ∨ s.db key = mark e := by
  have hk := h.kept key e hl
  simp only [unsaved, Cache.snapshot, mem_append] at hk ⊢
  tauto

theorem row_after_flush (h : Inv s) (hj : s.jobs[j]? = some (.clearing snapshot))
    (hseen : ∀ d ∈ unsaved s, Seen s snapshot d) (hl : latest s.sets key = some e) : s.db key = mark e := by
  have hcopy : ∀ d ∈ snapshot, d.2.serial ≤ (s.db d.1).serial := by
    intro d hd
    exact h.saved d (mem_flatMap.mpr ⟨_, mem_of_getElem? hj, hd⟩)
  rcases h.latest_seen hl with hm | hdb
  · exact h.seen_written hcopy (hseen e hm) hl
  · exact hdb

theorem row_after_saveAll (h : Inv s) {store : List Item} (hj : s.jobs[j]? = some (.writing store))
    (hok : ∀ n, b.answers n = .ok) (hsuccess : (writeBatch gone put b store s.db).1 = true)
    (hseen : ∀ d ∈ unsaved s, Seen s store d) (hl : latest s.sets key = some e) :
    (writeBatch gone put b store s.db).2 key = mark e := by
  obtain ⟨written, hperm, hdb⟩ := writeBatch_all hok hsuccess
  have hsingle := h.single store (mem_of_getElem? hj)
  have hwritten : ∀ d ∈ store, (writeBatch gone put b store s.db).2 d.1 = mark d := by
    intro d hd
    rw [hdb]
    exact foldl_put_mem (fun a ha c hc => hsingle a (hperm.mem_iff.mp ha) c (hperm.mem_iff.mp hc)) s.db
      (hperm.mem_iff.mpr hd)
  have hin : e ∈ store ∨ s.db key = mark e := by
    obtain ⟨-, rfl⟩ := latest_mem hl
    rcases h.latest_seen hl with hm | hdb
    · exact hseen e hm
    · exact .inr hdb
  obtain ⟨hmem, rfl⟩ := latest_mem hl
  rcases hin with hin | hin
  · exact hwritten e hin
  · -- It is in the table already; what the copy has of the key is not older, so it is the same.
    rcases patched_writeBatch b store s.db e.1 with heq | ⟨d, hd, hk, heq⟩
    · rw [heq, hin]
    have hwait : d ∈ waiting s := by
      refine mem_append_right _ (mem_flatMap.mpr ⟨_, mem_of_getElem? hj, hd⟩)
    obtain ⟨hdsets, hle⟩ := h.onTime d hwait
    rw [hk, hin] at hle
    have hup := serial_le_latest h.numbered hl hdsets hk
    rw [heq, eq_of_serial h.numbered hdsets hmem (le_antisymm hup hle)]

/-- Along every orderly run: no value is written after a newer one of its key; the last value
    set on a key is cached, queued, in the hands of a pass or in the table; and when a `flush`
    that saved everything, or a `saveAll` that succeeds with no statement refused, ends and has
    seen everything unsaved, the table has the last value set on every key, no row if that was
    a remove. -/
theorem durable (h : Reach Starts step Orderly s) :
    (∀ ev, Orderly s ev → ∀ k, (s.db k).serial ≤ ((step s ev).db k).serial) ∧
    (∀ k e, latest s.sets k = some e → e ∈ unsaved s ∨ (s.db k).row = e.2.value.row) ∧
    (∀ j o b snapshot, s.jobs[j]? = some (.clearing snapshot) → (∀ d ∈ unsaved s, Seen s snapshot d) →
      ∀ k e, latest s.sets k = some e → ((step s (.work j o b)).db k).row = e.2.value.row) ∧
    (∀ j o b store, s.jobs[j]? = some (.writing store) → (∀ n, b.answers n = .ok) →
      (writeBatch gone put b store s.db).1 = true → (∀ d ∈ unsaved s, Seen s store d) →
      ∀ k e, latest s.sets k = some e → ((step s (.work j o b)).db k).row = e.2.value.row) := by
  have hinv := inv_of_reach h
  refine ⟨fun ev ho k => serial_le_step hinv ho k, ?_, ?_, ?_⟩
  · intro k e hl
    rcases hinv.latest_seen hl with hm | hdb
    · exact .inl hm
    · exact .inr (by rw [hdb]; rfl)
  · intro j o b snapshot hj hseen k e hl
    have hdb := row_after_flush hinv hj hseen hl
    simp only [step, hj, advance]
    rw [hdb]
    rfl
  · intro j o b store hj hok hsuccess hseen k e hl
    have hdb := row_after_saveAll hinv hj hok hsuccess hseen hl
    simp only [step, hj, advance]
    rw [hdb]
    rfl

/-- An empty store over an empty table. -/
def opened : State := ⟨Cache.empty, fun _ => ⟨none, 0⟩, [], []⟩

/-- The next step of the first call, with every statement answered. -/
def goOn : Ev := .work 0 .done ⟨true, fun _ _ => true, fun _ => .ok, .done⟩

def flushedAlone : List Ev :=
  [.set 1000 [107] ⟨.boolean false, 1000, false⟩, goOn, goOn, .flush, goOn, goOn, goOn]

theorem durable_flushedAlone :
    Allowed step Orderly opened flushedAlone ∧
      ((step (run step opened flushedAlone) goOn).db [107]).row = some ⟨1000, [1, 0]⟩ := by
  have hnothing : ∀ {s : State}, (waiting s).length ≤ 1 → ∀ e ∈ waiting s, NoOlder s e := by
    intro s hlen e he d hd _
    obtain ⟨x, hx⟩ := length_eq_one_iff.mp (le_antisymm hlen (length_pos_of_mem he))
    rw [hx, mem_singleton] at he hd
    rw [he, hd]
  have hallowed : Allowed step Orderly opened flushedAlone := by
    refine ⟨?_, trivial, trivial, trivial, trivial, ?_, trivial, trivial⟩
    · intro _ hfull
      exact absurd hfull (by decide)
    · intro _
      exact hnothing (by decide) _ (by exact mem_cons_self)
  have hstart : Starts opened := ⟨rfl, rfl, rfl, fun _ => rfl⟩
  have hclearing : (run step opened flushedAlone).jobs[0]? =
      some (.clearing [([107], ⟨⟨.boolean false, 1000, false⟩, 1⟩)]) := rfl
  have hseen : ∀ d ∈ unsaved (run step opened flushedAlone),
      Seen (run step opened flushedAlone) [([107], ⟨⟨.boolean false, 1000, false⟩, 1⟩)] d := fun d hd => .inl hd
  refine ⟨hallowed, ?_⟩
  exact (durable ((Reach.init hstart).run hallowed)).2.2.1 0 .done _ _ hclearing hseen [107] _ rfl

/-- A key is set, a `flush` copies it, the key is set again before the `flush` clears; then a
    second `flush`, with every statement answered. -/
def setDuringFlush : List Ev :=
  [.set 1000 [107] ⟨.boolean false, 1000, false⟩, goOn, goOn, .flush, goOn,
    .set 1001 [107] ⟨.boolean true, 1001, false⟩, goOn, goOn, goOn, goOn, goOn, .flush, goOn, goOn, goOn]

theorem set_during_flush_lost :
    (run step opened setDuringFlush).jobs.length = 0 ∧
    (latest (run step opened setDuringFlush).sets [107]).map (·.2.value.row) = some (some ⟨1001, [1, 1]⟩) ∧
    ((run step opened setDuringFlush).db [107]).row = some ⟨1000, [1, 0]⟩ := by
  refine ⟨rfl, rfl, rfl⟩

end Backlands.Kv.Durability
