/-
  Backlands.Kv.Reads — the store as a plain map (src/kv/kv.cpp: `set`, `get`, `keys`, `KV::remove`,
  `processEvictions`).

  A key's newest value is in the cache, else in the queue of evictions that wait to be saved, else
  in the table (`newest`). `get` and `keys` look in the cache and in the table only. Values are
  compared as `ValueWrapper::operator==` does, by their data.

  Proved: while no key is read from the table with an eviction of it still queued, and no eviction
  of an uncached key is saved after an earlier one of the key failed in the same pass
  (`ReadsTable`), `newest` is the plain map (`Refines`), so `get` answers with the last value
  set. Counterexample: `evicted_key_reads_nothing`.
-/

import Backlands.Kv.Linked
import Backlands.Lib.Table

namespace Backlands.Kv

open Backlands.Lib Backlands.Db Function List Option

/-! ## Where a key's value is -/

/-- What a reader gets of a value: nothing when it is removed. -/
def ValueWrapper.content (w : ValueWrapper) : Option Value := if w.deleted then none else some w.data

/-- The value comes back from the table as it is. -/
def ValueWrapper.Holds (w : ValueWrapper) : Prop := w.deleted = true ∨ w.data.fits = true

instance (w : ValueWrapper) : Decidable w.Holds := inferInstanceAs (Decidable (w.deleted = true ∨ w.data.fits = true))

def stored (db : Table) (key : Key) : Option Value :=
  (db key).bind fun row => if row.value.isEmpty then none else deserialize row.value

def queued (es : List Entry) (key : Key) : Option ValueWrapper :=
  ((es.filter (·.1 == key)).getLast?).map (·.2)

/-- The newest value of a key outside the cache. -/
def behind (es : List Entry) (db : Table) (key : Key) : Option Value :=
  match queued es key with
  | some w => w.content
  | none => stored db key

def newest (s : System) (key : Key) : Option Value :=
  match s.cache.find key with
  | some cell => cell.1.content
  | none => behind s.cache.pendingEvictions s.db key

/-! ## Loading and saving -/

variable {now : Nat} {key k : Key} {e : Entry}

theorem load_data (now : Nat) (db : Table) (key : Key) : (load now db key).map (·.data) = stored db key := by
  unfold load stored
  cases db key with
  | none => rfl
  | some row =>
    simp only [bind_some]
    split
    · rfl
    · cases deserialize row.value <;> rfl

theorem load_spec {db : Table} {w : ValueWrapper} (h : load now db key = some w) :
    w.deleted = false ∧ w.Holds ∧ stored db key = w.content := by
  have hdata := load_data now db key
  rw [h, map_some] at hdata
  obtain ⟨row, -, hrow⟩ := bind_eq_some_iff.mp h
  split at hrow
  · cases hrow
  · obtain ⟨data, hd, rfl⟩ := map_eq_some_iff.mp hrow
    exact ⟨rfl, .inr (deserialize_fits hd), hdata.symm⟩

theorem stored_put_self {w : ValueWrapper} (h : w.Holds) (db : Table) (key : Key) :
    stored (put db key w) key = w.content := by
  unfold stored put ValueWrapper.row ValueWrapper.content
  rw [update_self]
  by_cases hd : w.deleted = true
  · simp [hd]
  · have hfits : w.data.fits = true := h.resolve_left hd
    simp only [hd, Bool.false_eq_true, if_false, bind_some]
    rw [if_neg (by simpa using serialize_ne_nil w.data), deserialize_serialize hfits]

theorem stored_put_ne (h : k ≠ key) (db : Table) (w : ValueWrapper) : stored (put db key w) k = stored db k := by
  unfold stored put
  rw [update_of_ne h]

theorem stored_save_ne (h : k ≠ e.1) (o : Outcome) (db : Table) : stored (save o e db).2 k = stored db k := by
  show stored (if o.applied then put db e.1 e.2 else db) k = stored db k
  split
  · exact stored_put_ne h db e.2
  · rfl

/-! ## The queue -/

variable {es : List Entry}

theorem queued_cons_ne (h : e.1 ≠ k) (es : List Entry) : queued (e :: es) k = queued es k := by
  unfold queued
  rw [filter_cons_of_neg (by simpa using h)]

theorem queued_cons_self (e : Entry) (es : List Entry) :
    queued (e :: es) e.1 = some ((queued es e.1).getD e.2) := by
  unfold queued
  rw [filter_cons_of_pos (by simp), getLast?_cons]
  cases (es.filter (·.1 == e.1)).getLast? <;> rfl

theorem queued_snoc_self (es : List Entry) (e : Entry) : queued (es ++ [e]) e.1 = some e.2 := by
  unfold queued
  rw [filter_append, filter_cons_of_pos (by simp)]
  simp

theorem queued_snoc_ne (h : e.1 ≠ k) (es : List Entry) : queued (es ++ [e]) k = queued es k := by
  unfold queued
  rw [filter_append, filter_cons_of_neg (by simpa using h), filter_nil, append_nil]

theorem queued_eq_none : queued es k = none ↔ ∀ e ∈ es, e.1 ≠ k := by
  unfold queued
  rw [map_eq_none_iff, getLast?_eq_none_iff, filter_eq_nil_iff]
  simp

/-- No eviction of the key is saved after an earlier one of it has failed. -/
def KeyInTurn (io : Nat → Outcome) (es : List Entry) (key : Key) : Prop :=
  ∀ i j, i < j → (es[i]?.map (·.1)) = some key → (es[j]?.map (·.1)) = some key →
    (io i).ok = false → (io j).ok = false

theorem KeyInTurn.tail {io : Nat → Outcome} {e : Entry} {es : List Entry} {key : Key}
    (h : KeyInTurn io (e :: es) key) : KeyInTurn (fun i => io (i + 1)) es key := by
  intro i j hij hi hj
  exact h (i + 1) (j + 1) (by omega) hi hj

variable {io : Nat → Outcome}

theorem queued_saveEach_failing (db : Table) (h : ∀ j, (es[j]?.map (·.1)) = some key → (io j).ok = false) :
    queued (saveEach io es db).1 key = queued es key := by
  induction es generalizing io db with
  | nil => rfl
  | cons e es ih =>
    have htail := ih (save (io 0) e db).2 (fun j hj => h (j + 1) hj)
    show queued (if (io 0).ok then _ else e :: _) key = _
    by_cases hk : e.1 = key
    · subst hk
      have hfail : (io 0).ok = false := h 0 rfl
      rw [hfail, if_neg (by simp), queued_cons_self, queued_cons_self, htail]
    · rw [queued_cons_ne hk]
      split
      · exact htail
      · rw [queued_cons_ne hk, htail]

theorem saveEach_of_not_queued {io : Nat → Outcome} {es : List Entry} {key : Key} (db : Table)
    (h : ∀ e ∈ es, e.1 ≠ key) :
    queued (saveEach io es db).1 key = none ∧ stored (saveEach io es db).2 key = stored db key := by
  induction es generalizing io db with
  | nil => exact ⟨rfl, rfl⟩
  | cons e es ih =>
    have he : e.1 ≠ key := h e mem_cons_self
    obtain ⟨hq, hs⟩ := @ih (fun i => io (i + 1)) (save (io 0) e db).2 fun d hd => h d (mem_cons_of_mem e hd)
    refine ⟨?_, hs.trans (stored_save_ne he.symm _ db)⟩
    show queued (if (io 0).ok then _ else e :: _) key = none
    split
    · exact hq
    · rw [queued_cons_ne he]
      exact hq

theorem behind_saveEach (db : Table) (hholds : ∀ e ∈ es, e.2.Holds) (h : KeyInTurn io es key) :
    behind (saveEach io es db).1 (saveEach io es db).2 key = behind es db key := by
  induction es generalizing io db with
  | nil => rfl
  | cons e es ih =>
    have htail := ih (save (io 0) e db).2 (fun d hd => hholds d (mem_cons_of_mem e hd)) h.tail
    show behind (if (io 0).ok then _ else e :: _) (saveEach _ es (save (io 0) e db).2).2 key = _
    by_cases hk : e.1 = key
    · subst hk
      by_cases hlater : queued es e.1 = none
      · -- The last one of the key: it is in the table now, or still queued.
        obtain ⟨hq, hs⟩ := @saveEach_of_not_queued (fun i => io (i + 1)) es e.1 (save (io 0) e db).2
          (queued_eq_none.mp hlater)
        have hright : behind (e :: es) db e.1 = e.2.content := by
          simp only [behind, queued_cons_self, hlater, getD_none]
        rw [hright]
        by_cases hok : (io 0).ok = true
        · rw [if_pos hok]
          simp only [behind, hq, hs]
          show stored (if (io 0).applied then _ else _) e.1 = _
          rw [if_pos (Outcome.applied_of_ok hok)]
          exact stored_put_self (hholds e mem_cons_self) db e.1
        · rw [if_neg hok]
          simp only [behind, queued_cons_self, hq, getD_none]
      · obtain ⟨w, hw⟩ := ne_none_iff_exists'.mp hlater
        have hright : behind (e :: es) db e.1 = behind es (save (io 0) e db).2 e.1 := by
          simp only [behind, queued_cons_self, hw, getD_some]
        rw [hright]
        by_cases hok : (io 0).ok = true
        · rw [if_pos hok]
          exact htail
        rw [if_neg hok]
        have hfails : ∀ j, (es[j]?.map (·.1)) = some e.1 → (io (j + 1)).ok = false := by
          intro j hj
          exact h 0 (j + 1) (by omega) rfl hj (by simpa using hok)
        have hsame := queued_saveEach_failing (save (io 0) e db).2 hfails
        simp only [behind, queued_cons_self, hsame, hw, getD_some]
    · have hright : behind (e :: es) db key = behind es (save (io 0) e db).2 key := by
        simp only [behind, queued_cons_ne hk, stored_save_ne (Ne.symm hk)]
      rw [hright, ← htail]
      split
      · rfl
      · simp only [behind, queued_cons_ne hk]

/-! ## The cache -/

section Cache

variable {V : Type} {c : Cache V} {k key : Key} {value fresh : V}

theorem find_assign (h : k ≠ key) (store : List (Key × V × Nat)) :
    (store.map fun e => if e.1 == key then (e.1, value, e.2.2) else e).lookup k = store.lookup k := by
  induction store with
  | nil => rfl
  | cons e store ih =>
    grind

theorem find_assign_self {store : List (Key × V × Nat)} {cell : V × Nat} (h : store.lookup key = some cell) :
    (store.map fun e => if e.1 == key then (e.1, value, e.2.2) else e).lookup key = some (value, cell.2) := by
  induction store with
  | nil => cases h
  | cons e store ih =>
    obtain ⟨l, v, n⟩ := e
    rw [lookup_cons] at h
    rw [map_cons, lookup_cons]
    by_cases hl : key = l
    · subst hl
      obtain rfl : (v, n) = cell := by simpa using h
      simp
    · have hl' : ¬ l = key := fun heq => hl heq.symm
      simp only [beq_eq_false_iff_ne.mpr hl, beq_eq_false_iff_ne.mpr hl', Bool.false_eq_true, if_false] at h ⊢
      exact ih h

theorem find_insert (hnew : c.find key = none) :
    (c.insert key value).find k = if k = key then some (value, c.nodes) else c.find k := by
  show (c.store ++ [(key, value, c.nodes)]).lookup k = _
  rw [lookup_append]
  by_cases hk : k = key
  · subst hk
    rw [show c.store.lookup k = none from hnew, if_pos rfl]
    simp
  rw [if_neg hk]
  have hlast : [(key, value, c.nodes)].lookup k = none := by
    rw [lookup_cons, beq_eq_false_iff_ne.mpr hk]
    rfl
  rw [hlast, or_none]
  rfl

end Cache

/-- Setting a key changes the newest value of that key alone: an evicted key's value is
    queued last. -/
theorem newest_setLocked {s : System} (h : Linked s.cache) (fresh w : ValueWrapper) (key k : Key) :
    newest { s with cache := s.cache.setLocked fresh key w } k = if k = key then w.content else newest s k := by
  unfold Cache.setLocked
  cases hf : s.cache.find key with
  | some cell =>
    by_cases hk : k = key
    · subst hk
      have hself : Cache.find { s.cache with store := s.cache.assign k w, lruQueue := toFront s.cache.lruQueue cell.2 } k =
          some (w, cell.2) := find_assign_self hf
      simp only [newest, hself, if_true]
    · have hother : Cache.find { s.cache with store := s.cache.assign key w, lruQueue := toFront s.cache.lruQueue cell.2 } k =
          s.cache.find k := find_assign hk s.cache.store
      simp only [newest, hother, if_neg hk]
  | none =>
    have hins := @find_insert _ (s.cache.evict fresh) k key w (find_evict_none hf fresh)
    by_cases hk : k = key
    · simp only [newest, hins, if_pos hk]
    simp only [newest, hins, if_neg hk]
    show (match (s.cache.evict fresh).find k with
      | some cell => cell.1.content
      | none => behind (s.cache.evict fresh).pendingEvictions s.db k) = newest s k
    rcases evict_cases s.cache fresh with ⟨heq, -⟩ | ⟨queue, node, victim, -, hq, heq⟩
    · rw [heq]
      rfl
    obtain ⟨v, hv⟩ := linked_victim h hq
    have hfind : (s.cache.evict fresh).find k = if k = victim then none else s.cache.find k := by
      rw [heq]
      exact lookup_filter victim _ s.cache.store
    have hpend : (s.cache.evict fresh).pendingEvictions = s.cache.pendingEvictions ++ [(victim, v)] := by
      simp [heq, hv]
    rw [hfind, hpend]
    by_cases hkv : k = victim
    · subst hkv
      rw [if_pos rfl]
      simp only [behind, newest, hv]
      rw [queued_snoc_self s.cache.pendingEvictions (k, v)]
    · rw [if_neg hkv]
      simp only [behind, newest, queued_snoc_ne (e := (victim, v)) (Ne.symm hkv)]

theorem mem_snapshot_setLocked {V : Type} {c : Cache V} (h : Linked c) (fresh : V) (key : Key) (value : V) {e : Key × V}
    (he : e ∈ (c.setLocked fresh key value).snapshot) : e ∈ c.snapshot ∨ e = (key, value) := by
  have hstore : ∀ {d : Key × V × Nat}, d ∈ c.store → (d.1, d.2.1) ∈ c.snapshot := fun hd =>
    mem_append_left _ (mem_map.mpr ⟨_, hd, rfl⟩)
  have hpending : ∀ {d : Key × V}, d ∈ c.pendingEvictions → d ∈ c.snapshot := fun hd => mem_append_right _ hd
  unfold Cache.setLocked at he
  cases hf : c.find key with
  | some cell =>
    simp only [hf] at he
    rcases mem_append.mp he with he | he
    · obtain ⟨b, hb, rfl⟩ := mem_map.mp he
      obtain ⟨d, hd, rfl⟩ := mem_map.mp hb
      grind
    · exact .inl (hpending he)
  | none =>
    simp only [hf] at he
    have hsub : ∀ d ∈ (c.evict fresh).snapshot, d ∈ c.snapshot := by
      intro d hd
      rcases evict_cases c fresh with ⟨heq, -⟩ | ⟨queue, node, victim, -, hq, heq⟩
      · rwa [heq] at hd
      rw [heq] at hd
      rcases mem_append.mp hd with hd | hd
      · obtain ⟨b, hb, rfl⟩ := mem_map.mp hd
        exact hstore (mem_filter.mp hb).1
      rcases mem_append.mp hd with hd | hd
      · exact hpending hd
      · obtain ⟨v, hv⟩ := linked_victim h hq
        rw [mem_singleton.mp hd, hv]
        exact hstore (find_mem hv)
    rcases mem_append.mp he with he | he
    · obtain ⟨d, hd, rfl⟩ := mem_map.mp he
      rcases mem_append.mp hd with hd | hd
      · exact .inl (hsub _ (mem_append_left _ (mem_map.mpr ⟨d, hd, rfl⟩)))
      · rw [mem_singleton.mp hd]
        exact .inr rfl
    · exact .inl (hsub e (mem_append_right _ he))

theorem mem_saveEach {db : Table} (h : e ∈ (saveEach io es db).1) : e ∈ es := by
  induction es generalizing io db with
  | nil => cases h
  | cons d es ih =>
    grind [saveEach]

/-! ## Requests -/

inductive Request where
  | set (now : Nat) (io : Nat → Outcome) (key : Key) (value : ValueWrapper)
  | remove (now : Nat) (io : Nat → Outcome) (key : Key)
  | get (now : Nat) (io : Nat → Outcome) (key : Key)
  | keys (now : Nat) (order : List Key) (scope : Key)
  | processEvictions (io : Nat → Outcome)

def Request.op : Request → Op
  | .set now io key value => .set now io key value
  | .remove now io key => .remove now io key
  | .get now io key => .get now io key false
  | .keys now order scope => .keys now order scope
  | .processEvictions io => .processEvictions io

/-- The store beside the plain map it stands for. -/
structure Served where
  sys : System
  map : Key → Option Value

/-- The plain map's own step. -/
def assigned (map : Key → Option Value) : Request → Key → Option Value
  | .set _ _ key value => update map key value.content
  | .remove _ _ key => update map key none
  | _ => map

def serve (s : Served) (r : Request) : Served := ⟨step s.sys r.op, assigned s.map r⟩

/-- Nothing is cached yet; the map is what the table has. -/
def Opens (s : Served) : Prop := Starts s.sys ∧ s.map = stored s.sys.db

/-! ## What a reader of the table relies on -/

def Unqueued (c : Cache ValueWrapper) (key : Key) : Prop :=
  c.find key = none → ∀ e ∈ c.pendingEvictions, e.1 ≠ key

/-- No eviction of an uncached key is saved after an earlier one of it failed in the pass. -/
def InTurn (io : Nat → Outcome) (c : Cache ValueWrapper) : Prop :=
  ∀ key, c.find key = none → KeyInTurn io c.pendingEvictions key

/-- The rows of `loadPrefix`, each at its turn in the loop. -/
def RowsUnqueued (now : Nat) (db : Table) : List Key → Cache ValueWrapper → Prop
  | [], _ => True
  | key :: keys, c =>
    match load now db key with
    | none => RowsUnqueued now db keys c
    | some value => Unqueued c key ∧ RowsUnqueued now db keys (c.adopt now key value)

/-- The request reads no key from the table whose eviction is queued, and saves no eviction
    out of turn. -/
def ReadsTable (s : Served) : Request → Prop
  | .set now io key value => value.Holds ∧ InTurn io (s.sys.cache.setLocked (.fresh now) key value)
  | .remove now io key => InTurn io (s.sys.cache.setLocked (.fresh now) key (.deletedAt now))
  | .get now io key => Unqueued s.sys.cache key ∧
      ∀ value, load now s.sys.db key = some value → InTurn io (s.sys.cache.adopt now key value)
  | .keys now order scope => RowsUnqueued now s.sys.db (selected order s.sys.db scope) s.sys.cache
  | .processEvictions io => InTurn io s.sys.cache

/-! ## The refinement -/

structure Refines (s : System) (map : Key → Option Value) : Prop where
  linked : Linked s.cache
  newest : ∀ key, newest s key = map key
  holds : ∀ e ∈ s.cache.snapshot, e.2.Holds

variable {s : System} {map : Key → Option Value}

theorem refines_processEvictions (h : Refines s map) (ht : InTurn io s.cache) :
    Refines (processEvictions io s).2 map where
  linked := linked_processEvictions h.linked io
  newest := by
    intro key
    rw [← h.newest key]
    show (match s.cache.find key with
      | some cell => cell.1.content
      | none => behind (saveEach io s.cache.pendingEvictions s.db).1 (saveEach io s.cache.pendingEvictions s.db).2 key) =
        newest s key
    unfold newest
    cases hf : s.cache.find key with
    | some cell => rfl
    | none => exact behind_saveEach s.db (fun e he => h.holds e (mem_append_right _ he)) (ht key hf)
  holds := by
    intro e he
    rcases mem_append.mp he with he | he
    · exact h.holds e (mem_append_left _ he)
    · exact h.holds e (mem_append_right _ (mem_saveEach he))

theorem refines_setLocked (h : Refines s map) {value : ValueWrapper} (hv : value.Holds) (now : Nat) (key : Key) :
    Refines { s with cache := s.cache.setLocked (.fresh now) key value } (update map key value.content) where
  linked := linked_setLocked h.linked _ key value
  newest := by
    intro k
    rw [newest_setLocked h.linked]
    by_cases hk : k = key
    · rw [if_pos hk, hk, update_self]
    · rw [if_neg hk, update_of_ne hk, h.newest k]
  holds := by
    intro e he
    rcases mem_snapshot_setLocked h.linked _ key value he with he | rfl
    · exact h.holds e he
    · exact hv

theorem refines_adopt (h : Refines s map) {key : Key} {value : ValueWrapper} (hl : load now s.db key = some value)
    (hu : Unqueued s.cache key) : Refines { s with cache := s.cache.adopt now key value } map := by
  unfold Cache.adopt
  split
  · rename_i hn
    have hfind : s.cache.find key = none := isNone_iff_eq_none.mp hn
    obtain ⟨-, hholds, hstored⟩ := load_spec hl
    have hsame : update map key value.content = map := by
      rw [Function.update_eq_self_iff, ← h.newest key, ← hstored]
      simp only [newest, hfind, behind, queued_eq_none.mpr (hu hfind)]
    have hset := refines_setLocked h hholds now key
    rwa [hsame] at hset
  · exact h

theorem refines_loadRows (h : Refines s map) {rows : List Key} (hu : RowsUnqueued now s.db rows s.cache) :
    Refines { s with cache := loadRows now s.db rows s.cache } map := by
  obtain ⟨c, db⟩ := s
  induction rows generalizing c with
  | nil => exact h
  | cons key rows ih =>
    simp only [RowsUnqueued] at hu
    simp only [loadRows]
    cases hl : load now db key with
    | none =>
      rw [hl] at hu
      exact ih c h hu
    | some value =>
      rw [hl] at hu
      exact ih (c.adopt now key value) (refines_adopt h hl hu.1) hu.2

theorem newest_getLocked (key k : Key) :
    newest { s with cache := (s.cache.getLocked key).2 } k = newest s k := by
  unfold Cache.getLocked
  cases s.cache.find key with
  | none => rfl
  | some cell =>
    show newest { s with cache := (if cell.1.deleted then _ else _ : _ × Cache ValueWrapper).2 } k = _
    split <;> rfl

theorem refines_getLocked (h : Refines s map) (key : Key) :
    Refines { s with cache := (s.cache.getLocked key).2 } map where
  linked := linked_getLocked h.linked key
  newest := fun k => (newest_getLocked key k).trans (h.newest k)
  holds := by
    have hsame : (s.cache.getLocked key).2.snapshot = s.cache.snapshot := by
      unfold Cache.getLocked
      cases s.cache.find key with
      | none => rfl
      | some cell =>
        show (if cell.1.deleted then _ else _ : _ × Cache ValueWrapper).2.snapshot = _
        split <;> rfl
    rw [show ({ s with cache := (s.cache.getLocked key).2 } : System).cache.snapshot = s.cache.snapshot from hsame]
    exact h.holds

theorem refines_getLoad (h : Refines s map) {key : Key} (hu : Unqueued s.cache key)
    (ht : ∀ value, load now s.db key = some value → InTurn io (s.cache.adopt now key value)) :
    Refines (getLoad now io key s).2 map := by
  unfold getLoad
  cases hl : load now s.db key with
  | none => exact h
  | some value => exact refines_processEvictions (refines_adopt h hl hu) (ht value hl)

theorem refines_get (h : Refines s map) {key : Key} (hu : Unqueued s.cache key)
    (ht : ∀ value, load now s.db key = some value → InTurn io (s.cache.adopt now key value)) :
    Refines (get now io key false s).2 map := by
  have hlocked := refines_getLocked h key
  unfold get
  rcases hg : s.cache.getLocked key with ⟨answer | answer, c⟩
  · exact refines_getLoad h hu ht
  · rw [hg] at hlocked
    exact hlocked

theorem refines_serve {s : Served} {r : Request} (hr : ReadsTable s r) (h : Refines s.sys s.map) :
    Refines (serve s r).sys (serve s r).map := by
  cases r with
  | set now io key value => exact refines_processEvictions (refines_setLocked h hr.1 now key) hr.2
  | remove now io key =>
    have hremoved : (ValueWrapper.deletedAt now).Holds := .inl rfl
    exact refines_processEvictions (refines_setLocked h hremoved now key) hr
  | get now io key => exact refines_get h hr.1 hr.2
  | keys now order scope => exact refines_loadRows h hr
  | processEvictions io => exact refines_processEvictions h hr

theorem refines_of_reach {s : Served} (h : Reach Opens serve ReadsTable s) : Refines s.sys s.map := by
  refine Reach.inv (I := fun s => Refines s.sys s.map) ?_ ?_ h
  · rintro ⟨⟨c, db⟩, map⟩ ⟨hc, hmap⟩
    obtain rfl : c = Cache.empty := hc
    refine ⟨linked_empty, ?_, ?_⟩
    · intro key
      exact (congrFun hmap key).symm
    · intro e he
      cases he
  · intro s r hr href
    exact refines_serve hr href

theorem get_data (now : Nat) (io : Nat → Outcome) (key : Key) :
    (get now io key false s).1.map (·.data) =
      match s.cache.find key with
      | some cell => cell.1.content
      | none => stored s.db key := by
  unfold get
  unfold Cache.getLocked
  cases hf : s.cache.find key with
  | some cell =>
    simp only [ValueWrapper.content]
    by_cases hd : cell.1.deleted = true <;> simp [hd, Bool.false_eq_true]
  | none =>
    rw [← load_data now s.db key]
    grind [getLoad]

/-- Along every sequence of requests that read no key from the table whose eviction is queued
    and save no eviction out of turn, `get` answers with the value last set on the key, exactly
    when it is cached, or no eviction of it is queued, or the table has that value anyway. -/
theorem get_last_set_iff {s : Served} (h : Reach Opens serve ReadsTable s) (now : Nat) (io : Nat → Outcome)
    (key : Key) :
    (get now io key false s.sys).1.map (·.data) = s.map key ↔
      Unqueued s.sys.cache key ∨ stored s.sys.db key = s.map key := by
  have hnewest := (refines_of_reach h).newest key
  rw [get_data, ← hnewest]
  unfold newest
  cases hf : s.sys.cache.find key with
  | some cell =>
    have hu : Unqueued s.sys.cache key := fun hn => by rw [hf] at hn; cases hn
    exact ⟨fun _ => .inl hu, fun _ => rfl⟩
  | none =>
    constructor
    · intro heq
      exact .inr heq
    · rintro (hu | heq)
      · simp only [behind, queued_eq_none.mpr (hu hf)]
      · exact heq

def twoKeys : List Request :=
  [.set 1000 (fun _ => .done) [107] ⟨.int 5, 1000, false⟩, .set 1000 (fun _ => .done) [108] ⟨.boolean true, 1000, false⟩,
    .remove 1001 (fun _ => .done) [108]]

theorem get_last_set_iff_twoKeys :
    Allowed serve ReadsTable ⟨⟨.empty, fun _ => none⟩, fun _ => none⟩ twoKeys ∧
      (get 1002 (fun _ => .failed) [107] false
        (run serve ⟨⟨.empty, fun _ => none⟩, fun _ => none⟩ twoKeys).sys).1.map (·.data) = some (.int 5) := by
  have hnone : ∀ (io : Nat → Outcome) (key : Key), KeyInTurn io [] key := fun io key i j _ hi => by cases hi
  have hallowed : Allowed serve ReadsTable ⟨⟨.empty, fun _ => none⟩, fun _ => none⟩ twoKeys :=
    ⟨⟨.inr rfl, fun key _ => hnone _ key⟩, ⟨.inr rfl, fun key _ => hnone _ key⟩, fun key _ => hnone _ key, trivial⟩
  have hstart : Opens ⟨⟨.empty, fun _ => none⟩, fun _ => none⟩ := ⟨rfl, rfl⟩
  have hmap : (run serve ⟨⟨.empty, fun _ => none⟩, fun _ => none⟩ twoKeys).map [107] = some (.int 5) := rfl
  have hcached : Unqueued (run serve ⟨⟨.empty, fun _ => none⟩, fun _ => none⟩ twoKeys).sys.cache [107] := fun hn => nomatch hn
  refine ⟨hallowed, ?_⟩
  exact ((get_last_set_iff ((Reach.init hstart).run hallowed) 1002 (fun _ => .failed) [107]).mpr (.inl hcached)).trans hmap

/-! ## A full cache -/

/-- The low `w` hexadecimal digits of `n`, as letters. -/
def name : Nat → Nat → Key
  | 0, _ => []
  | w + 1, n => UInt8.ofNat (97 + n % 16) :: name w (n / 16)

variable {n : Nat}

theorem name_inj {w m : Nat} (h : name w n = name w m) : n % 16 ^ w = m % 16 ^ w := by
  induction w generalizing n m with
  | zero => simp [Nat.mod_one]
  | succ w ih =>
    obtain ⟨hd, ht⟩ := List.cons.inj h
    have hdigit := congrArg UInt8.toNat hd
    simp only [UInt8.toNat_ofNat'] at hdigit
    rw [pow_succ', Nat.mod_mul, Nat.mod_mul, ih ht]
    omega

def five : ValueWrapper := ⟨.int 5, 1000, false⟩

/-- The first `n` keys are set, and no eviction can be saved. -/
def fill (n : Nat) : List Request := (List.range n).map fun i => .set 1000 (fun _ => .failed) (name 5 i) five

/-- The cache that holds the first `n` keys, the last one set in front. -/
def filled (n : Nat) : Cache ValueWrapper where
  store := (List.range n).map fun i => (name 5 i, five, i)
  lruQueue := ((List.range n).map fun i => (i, name 5 i)).reverse
  pendingEvictions := []
  nodes := n

theorem find_filled {m : Nat} (hnm : n ≤ m) (hm : m < 16 ^ 5) : (filled n).find (name 5 m) = none := by
  refine lookup_eq_none_iff.mpr ?_
  intro e he
  obtain ⟨i, hi, rfl⟩ := mem_map.mp he
  have hlt : i < n := mem_range.mp hi
  have hne : name 5 m ≠ name 5 i := by
    intro heq
    have hmod := name_inj heq
    omega
  simpa using hne

theorem insert_filled (n : Nat) : (filled n).insert (name 5 n) five = filled (n + 1) := by
  simp [Cache.insert, filled, range_succ]

theorem run_fill_succ (n : Nat) (s : Served) :
    run serve s (fill (n + 1)) = serve (run serve s (fill n)) (.set 1000 (fun _ => .failed) (name 5 n) five) := by
  rw [fill, range_succ, map_append, run, foldl_append]
  rfl

theorem run_fill (hn : n ≤ MAX_SIZE) (map : Key → Option Value) :
    (run serve ⟨⟨.empty, fun _ => none⟩, map⟩ (fill n)).sys = ⟨filled n, fun _ => none⟩ := by
  induction n with
  | zero => rfl
  | succ n ih =>
    have hfull : ¬ MAX_SIZE ≤ (filled n).store.length := by
      simp only [filled, length_map, length_range]
      omega
    have hset : ((filled n).setLocked (.fresh 1000) (name 5 n) five) = filled (n + 1) := by
      unfold Cache.setLocked
      rw [find_filled (le_refl n) (by unfold MAX_SIZE at hn; omega)]
      rw [show (filled n).evict (.fresh 1000) = filled n from if_neg hfull, insert_filled]
    rw [run_fill_succ]
    show set 1000 _ (name 5 n) five (run serve _ (fill n)).sys = _
    rw [ih (by omega)]
    show (processEvictions _ ⟨(filled n).setLocked (.fresh 1000) (name 5 n) five, fun _ => none⟩).2 = _
    rw [hset]
    rfl

theorem map_fill (n : Nat) (s : Served) : (run serve s (fill (n + 1))).map (name 5 0) = some (.int 5) := by
  rw [run_fill_succ]
  show update (run serve s (fill n)).map (name 5 n) five.content (name 5 0) = _
  by_cases hk : name 5 0 = name 5 n
  · rw [hk, update_self]
    rfl
  rw [update_of_ne hk]
  cases n with
  | zero => exact absurd rfl hk
  | succ n => exact map_fill n s

theorem last_filled (hn : 0 < n) : (filled n).lruQueue.getLast? = some (0, name 5 0) := by
  obtain ⟨m, rfl⟩ := Nat.exists_eq_succ_of_ne_zero hn.ne'
  show (((List.range (m + 1)).map fun i => (i, name 5 i)).reverse).getLast? = _
  simp [range_succ_eq_map]

/-- One key more, and the first one has left the full cache. -/
theorem find_overfilled (hfull : MAX_SIZE ≤ n) (h0 : 0 < n) (h16 : n < 16 ^ 5) :
    ((filled n).setLocked (.fresh 1000) (name 5 n) five).find (name 5 0) = none := by
  have hnew : (filled n).find (name 5 n) = none := find_filled (le_refl n) h16
  have hne : name 5 0 ≠ name 5 n := by
    intro heq
    have hmod := name_inj heq
    omega
  have hlen : (filled n).store.length = n := by simp [filled]
  have hlast := last_filled h0
  have hevict : ((filled n).evict (.fresh 1000)).find (name 5 0) = none := by
    rcases evict_cases (filled n) (.fresh 1000) with ⟨-, hroom | hempty⟩ | ⟨queue, node, victim, -, hq, heq⟩
    · omega
    · rw [hempty] at hlast
      cases hlast
    rw [hq, getLast?_append] at hlast
    obtain ⟨rfl, rfl⟩ : node = 0 ∧ victim = name 5 0 := by simpa using hlast
    rw [heq]
    refine (lookup_filter (name 5 0) _ _).trans ?_
    rw [if_pos rfl]
  unfold Cache.setLocked
  rw [hnew]
  rw [find_insert (find_evict_none hnew _), if_neg hne]
  exact hevict

theorem saveEach_failed (es : List Entry) (db : Table) : (saveEach (fun _ => .failed) es db).2 = db := by
  induction es generalizing db with
  | nil => rfl
  | cons e es ih => exact ih db

theorem serve_set (now : Nat) (io : Nat → Outcome) (key : Key) (value : ValueWrapper) (s : Served) :
    (serve s (.set now io key value)).sys = set now io key value s.sys := rfl

theorem find_set (now : Nat) (io : Nat → Outcome) (key k : Key) (value : ValueWrapper) (s : System) :
    (set now io key value s).cache.find k = (s.cache.setLocked (.fresh now) key value).find k := rfl

theorem set_failed (now : Nat) (key : Key) (value : ValueWrapper) (s : System) :
    (set now (fun _ => .failed) key value s).db = s.db := saveEach_failed _ s.db

/-- Everything is over the number of keys, so that the million is never counted out. -/
theorem get_overfilled (hn : n = MAX_SIZE) (h0 : 0 < n) (h16 : n < 16 ^ 5) (map : Key → Option Value) :
    (get 2000 (fun _ => .done) (name 5 0) false (run serve ⟨⟨.empty, fun _ => none⟩, map⟩ (fill (n + 1))).sys).1.map
      (·.data) = none := by
  rw [get_data, run_fill_succ, serve_set, run_fill hn.le, find_set, find_overfilled hn.ge h0 h16]
  simp only [stored, set_failed, bind_none]

/-- A million keys and one more are set while the database is out of reach: the first key has
    left the cache, its value waits to be saved, and `get` answers that there is none. -/
theorem evicted_key_reads_nothing :
    (run serve ⟨⟨.empty, fun _ => none⟩, fun _ => none⟩ (fill (MAX_SIZE + 1))).map (name 5 0) = some (.int 5) ∧
    (get 2000 (fun _ => .done) (name 5 0) false
      (run serve ⟨⟨.empty, fun _ => none⟩, fun _ => none⟩ (fill (MAX_SIZE + 1))).sys).1.map (·.data) = none :=
  ⟨map_fill MAX_SIZE _, get_overfilled rfl (by decide) (by decide) _⟩

end Backlands.Kv
