/-
  Backlands.Kv.Linked — the cache and its queue stay linked (src/kv/kv.cpp: `setLocked`,
  `get`, `keys`, `flush`, `saveAll`).

  `Linked` is what the code relies on: the queue holds each key of the map once, every
  iterator points at the node of its own key, and the map is no larger than `MAX_SIZE`.

  Proved: every operation but `flush` keeps it. `flush` clears the map and leaves the queue,
  so it keeps it exactly when a save failed or the map was empty (`linked_flush_iff`). While
  it holds, an eviction takes a key that is there and queues that key's value
  (`linked_evict`).
-/

import Mathlib.Data.List.Nodup
import Backlands.Kv.Store
import Backlands.Lib.Runs

namespace Backlands.Kv

open Backlands.Lib Backlands.Db List

variable {V : Type} {c : Cache V} {key : Key} {value fresh : V}

structure Linked (c : Cache V) : Prop where
  /-- The queue holds the keys of the map, each once. -/
  keys : (c.lruQueue.map (·.2)).Perm (c.store.map (·.1))
  nodup : (c.store.map (·.1)).Nodup
  /-- An iterator points at the node of its own key. -/
  own : ∀ key value node, (key, value, node) ∈ c.store → (node, key) ∈ c.lruQueue
  size : c.store.length ≤ MAX_SIZE
  distinct : (c.lruQueue.map (·.1)).Nodup
  made : ∀ node ∈ c.lruQueue, node.1 < c.nodes

theorem linked_empty : Linked (Cache.empty : Cache V) := by
  refine ⟨.nil, .nil, ?_, Nat.zero_le _, .nil, ?_⟩
  · intro _ _ _ h
    cases h
  · intro _ h
    cases h

/-! ## Moving a node -/

theorem toFront_perm (queue : List (Nat × Key)) (node : Nat) : (toFront queue node).Perm queue :=
  filter_append_perm (fun n : Nat × Key => n.1 == node) queue

theorem toBack_perm (queue : List (Nat × Key)) (node : Nat) : (toBack queue node).Perm queue :=
  perm_append_comm.trans (toFront_perm queue node)

theorem linked_reorder (h : Linked c) {queue : List (Nat × Key)} (hq : queue.Perm c.lruQueue) :
    Linked { c with lruQueue := queue } where
  keys := (hq.map _).trans h.keys
  nodup := h.nodup
  own := fun k v n hm => hq.mem_iff.mpr (h.own k v n hm)
  size := h.size
  distinct := (hq.map _).nodup_iff.mpr h.distinct
  made := fun n hn => h.made n (hq.mem_iff.mp hn)

/-! ## Setting a key -/

theorem mem_assign {e : Key × V × Nat} (h : e ∈ c.assign key value) :
    ∃ v, (e.1, v, e.2.2) ∈ c.store := by
  obtain ⟨d, hd, rfl⟩ := mem_map.mp h
  refine ⟨d.2.1, ?_⟩
  split <;> exact hd

theorem linked_assign (h : Linked c) : Linked { c with store := c.assign key value } where
  keys := by simpa using h.keys
  nodup := by simpa using h.nodup
  own := by
    intro k v n hm
    obtain ⟨w, hw⟩ := mem_assign hm
    exact h.own k w n hw
  size := by simpa [Cache.assign] using h.size
  distinct := h.distinct
  made := h.made

theorem linked_insert (h : Linked c) (hnew : c.find key = none) (hroom : c.store.length < MAX_SIZE) :
    Linked (c.insert key value) where
  keys := by
    simp only [Cache.insert, map_cons, map_append, map_nil]
    exact (h.keys.cons key).trans (perm_append_singleton key _).symm
  nodup := by
    simp only [Cache.insert, map_append, map_cons, map_nil]
    refine nodup_append.mpr ⟨h.nodup, nodup_singleton key, ?_⟩
    intro a ha b hb
    obtain ⟨e, he, rfl⟩ := mem_map.mp ha
    rw [mem_singleton.mp hb]
    exact find_none hnew e he
  own := by
    intro k v n hm
    rcases mem_append.mp hm with hm | hm
    · exact mem_cons_of_mem _ (h.own k v n hm)
    · obtain ⟨rfl, rfl, rfl⟩ : k = key ∧ v = value ∧ n = c.nodes := by simpa using hm
      exact mem_cons_self
  size := by
    simp only [Cache.insert, length_append, length_cons, length_nil]
    omega
  distinct := by
    refine nodup_cons.mpr ⟨?_, h.distinct⟩
    intro hm
    obtain ⟨node, hnode, heq⟩ := mem_map.mp hm
    exact absurd (show node.1 = c.nodes from heq) (h.made node hnode).ne
  made := by
    intro node hm
    show node.1 < c.nodes + 1
    rcases mem_cons.mp hm with rfl | hm
    · exact Nat.lt_succ_self c.nodes
    · have hlt := h.made node hm
      omega

theorem evict_cases (c : Cache V) (fresh : V) :
    (c.evict fresh = c ∧ (c.store.length < MAX_SIZE ∨ c.lruQueue = [])) ∨
    ∃ queue node victim, MAX_SIZE ≤ c.store.length ∧ c.lruQueue = queue ++ [(node, victim)] ∧
      c.evict fresh = { c with
        store := c.store.filter (fun e => e.1 != victim)
        lruQueue := queue
        pendingEvictions := c.pendingEvictions ++ [(victim, ((c.find victim).map (·.1)).getD fresh)] } := by
  unfold Cache.evict
  by_cases hfull : MAX_SIZE ≤ c.store.length
  · rw [if_pos hfull]
    rcases eq_nil_or_concat c.lruQueue with hq | ⟨queue, last, hq⟩
    · left
      rw [hq]
      exact ⟨rfl, .inr rfl⟩
    · right
      rw [concat_eq_append] at hq
      refine ⟨queue, last.1, last.2, hfull, hq, ?_⟩
      simp [hq]
  · left
    rw [if_neg hfull]
    exact ⟨rfl, .inl (by omega)⟩

theorem linked_victim (h : Linked c) {queue : List (Nat × Key)} {node : Nat} {victim : Key}
    (hq : c.lruQueue = queue ++ [(node, victim)]) : ∃ v, c.find victim = some (v, node) := by
  have hmem : victim ∈ c.store.map (·.1) := by
    refine h.keys.mem_iff.mp ?_
    rw [hq]
    simp
  obtain ⟨⟨k, v, n⟩, he, rfl⟩ := mem_map.mp hmem
  refine ⟨v, ?_⟩
  have hown := h.own k v n he
  -- The key has one node only, so the iterator points at the last one.
  have hkeys : (c.lruQueue.map (·.2)).Nodup := h.keys.nodup_iff.mpr h.nodup
  have hsame : n = node := by
    rw [hq] at hown hkeys
    rcases mem_append.mp hown with hown | hown
    · rw [map_append, nodup_append] at hkeys
      exact absurd rfl (hkeys.2.2 k (mem_map.mpr ⟨(n, k), hown, rfl⟩) k (by simp))
    · simpa using hown
  rw [← hsame]
  exact find_of_mem h.nodup he

theorem filter_ne_perm {store : List (Key × V × Nat)} (hn : (store.map (·.1)).Nodup) {k : Key}
    (hk : k ∈ store.map (·.1)) : (store.map (·.1)).Perm (k :: (store.filter (fun e => e.1 != k)).map (·.1)) := by
  have hfilter : (store.filter (fun e => e.1 != k)).map (·.1) = (store.map (·.1)).erase k := by
    rw [hn.erase_eq_filter, filter_map]
    rfl
  rw [hfilter]
  exact perm_cons_erase hk

theorem linked_evict (h : Linked c) (fresh : V) :
    Linked (c.evict fresh) ∧ (c.evict fresh).store.length < MAX_SIZE := by
  rcases evict_cases c fresh with ⟨heq, hroom⟩ | ⟨queue, node, victim, hfull, hq, heq⟩
  · rw [heq]
    refine ⟨h, ?_⟩
    rcases hroom with hroom | hempty
    · exact hroom
    have hlen := h.keys.length_eq
    rw [hempty] at hlen
    simp only [map_nil, length_nil, length_map] at hlen
    rw [← hlen]
    decide
  · obtain ⟨v, hv⟩ := linked_victim h hq
    have hmem : victim ∈ c.store.map (·.1) := mem_map_of_mem (find_mem hv)
    have hperm := filter_ne_perm h.nodup hmem
    have hlen := hperm.length_eq
    simp only [length_map, length_cons] at hlen
    have hsize := h.size
    have hkeys := h.keys
    have hdistinct := h.distinct
    rw [hq] at hkeys hdistinct
    rw [heq]
    refine ⟨⟨?_, ?_, ?_, ?_, ?_, ?_⟩, ?_⟩
    · have hq' : (victim :: queue.map (·.2)).Perm (c.store.map (·.1)) := by
        refine List.Perm.trans ?_ hkeys
        rw [map_append]
        exact (perm_append_singleton victim _).symm
      exact (hq'.trans hperm).cons_inv
    · exact (nodup_cons.mp (hperm.nodup_iff.mp h.nodup)).2
    · intro k w n hm
      obtain ⟨hm, hne⟩ := mem_filter.mp hm
      have hown := h.own k w n hm
      rw [hq] at hown
      rcases mem_append.mp hown with hown | hown
      · exact hown
      have hk : k = victim := by
        have hpair : (n, k) = (node, victim) := by simpa using hown
        exact (Prod.mk.inj hpair).2
      simp [hk] at hne
    · show (c.store.filter fun e => e.1 != victim).length ≤ MAX_SIZE
      omega
    · rw [map_append, nodup_append] at hdistinct
      exact hdistinct.1
    · intro n hn
      refine h.made n ?_
      rw [hq]
      exact mem_append_left _ hn
    · show (c.store.filter fun e => e.1 != victim).length < MAX_SIZE
      omega

theorem find_evict_none (hnew : c.find key = none) (fresh : V) : (c.evict fresh).find key = none := by
  rcases evict_cases c fresh with ⟨heq, -⟩ | ⟨queue, node, victim, -, -, heq⟩
  · rw [heq]
    exact hnew
  rw [heq]
  refine lookup_eq_none_iff.mpr ?_
  intro e he
  exact lookup_eq_none_iff.mp hnew e (mem_filter.mp he).1

theorem linked_setLocked (h : Linked c) (fresh : V) (key : Key) (value : V) :
    Linked (c.setLocked fresh key value) := by
  unfold Cache.setLocked
  cases hf : c.find key with
  | some cell => exact linked_reorder (linked_assign h) (toFront_perm _ _)
  | none =>
    obtain ⟨hevict, hroom⟩ := linked_evict h fresh
    exact linked_insert hevict (find_evict_none hf fresh) hroom

/-! ## The calls -/

section Calls

variable {c : Cache ValueWrapper} {s : System}

theorem linked_getLocked (h : Linked c) (key : Key) : Linked (c.getLocked key).2 := by
  unfold Cache.getLocked
  cases c.find key with
  | none => exact h
  | some cell =>
    show Linked (if cell.1.deleted then _ else _ : _ × Cache ValueWrapper).2
    split
    · exact linked_reorder h (toBack_perm _ _)
    · exact linked_reorder h (toFront_perm _ _)

theorem linked_adopt (h : Linked c) (now : Nat) (key : Key) (value : ValueWrapper) :
    Linked (c.adopt now key value) := by
  unfold Cache.adopt
  split
  · exact linked_setLocked h _ key value
  · exact h

theorem linked_loadRows (h : Linked c) (now : Nat) (db : Table) (rows : List Key) :
    Linked (loadRows now db rows c) := by
  induction rows generalizing c with
  | nil => exact h
  | cons key rows ih =>
    unfold loadRows
    cases load now db key with
    | none => exact ih h
    | some value => exact ih (linked_adopt h now key value)

theorem linked_processEvictions (h : Linked s.cache) (io : Nat → Outcome) : Linked (processEvictions io s).2.cache :=
  { h with }

theorem linked_set (h : Linked s.cache) (now : Nat) (io : Nat → Outcome) (key : Key) (value : ValueWrapper) :
    Linked (set now io key value s).cache :=
  linked_processEvictions (linked_setLocked h _ key value) io

theorem linked_getLoad (h : Linked s.cache) (now : Nat) (io : Nat → Outcome) (key : Key) :
    Linked (getLoad now io key s).2.cache := by
  unfold getLoad
  cases load now s.db key with
  | none => exact h
  | some value => exact linked_processEvictions (linked_adopt h now key value) io

theorem linked_get (h : Linked s.cache) (now : Nat) (io : Nat → Outcome) (key : Key) (forceLoad : Bool) :
    Linked (get now io key forceLoad s).2.cache := by
  unfold get
  split
  · exact linked_getLoad h now io key
  have hlocked := linked_getLocked h key
  rcases hg : s.cache.getLocked key with ⟨answer | answer, c⟩
  · exact linked_getLoad h now io key
  · rw [hg] at hlocked
    exact hlocked

theorem linked_saveAll (h : Linked s.cache) (io : Nat → Outcome) (b : Batch Entry) : Linked (saveAll io b s).2.cache := by
  have hp := linked_processEvictions h io
  grind [saveAll]

/-- Every save of the call answers. -/
def AllSaved (io : Nat → Outcome) (n : Nat) : Prop := ∀ i < n, (io i).ok = true

instance (io : Nat → Outcome) (n : Nat) : Decidable (AllSaved io n) :=
  inferInstanceAs (Decidable (∀ i < n, (io i).ok = true))

theorem saveEach_isEmpty (io : Nat → Outcome) (es : List Entry) (db : Table) :
    (saveEach io es db).1.isEmpty = true ↔ AllSaved io es.length := by
  induction es generalizing io db with
  | nil => simp [saveEach, AllSaved]
  | cons e es ih =>
    have hsplit : AllSaved io (es.length + 1) ↔ (io 0).ok = true ∧ AllSaved (fun i => io (i + 1)) es.length := by
      constructor
      · intro h
        exact ⟨h 0 (by omega), fun i hi => h (i + 1) (by omega)⟩
      rintro ⟨h0, h⟩ i hi
      cases i with
      | zero => exact h0
      | succ i => exact h i (by omega)
    rw [length_cons, hsplit, ← ih _ (save (io 0) e db).2]
    simp only [saveEach]
    by_cases hok : (save (io 0) e db).1 = true
    · rw [if_pos hok]
      exact (and_iff_right hok).symm
    rw [if_neg hok]
    constructor
    · intro h
      cases h
    · intro h
      exact absurd h.1 hok

theorem linked_flush_iff (h : Linked s.cache) (io : Nat → Outcome) :
    Linked (flush io s).cache ↔ s.cache.store = [] ∨ ¬ AllSaved io s.cache.snapshot.length := by
  have hiff := saveEach_isEmpty io s.cache.snapshot s.db
  unfold flush
  by_cases hall : AllSaved io s.cache.snapshot.length
  · simp only [hiff.mpr hall, if_true, hall, not_true, or_false]
    constructor
    · intro hc
      have hlen := hc.keys.length_eq
      have hlen' := h.keys.length_eq
      simp only [Cache.clear, length_map, map_nil, length_nil] at hlen hlen'
      exact length_eq_zero_iff.mp (by omega)
    · intro hs
      refine ⟨?_, .nil, ?_, Nat.zero_le _, h.distinct, h.made⟩
      · have hk := h.keys
        rw [hs] at hk
        exact hk
      · intro k v n hm
        cases hm
  · have hfalse : (saveEach io s.cache.snapshot s.db).1.isEmpty = false := by
      rw [← Bool.not_eq_true, hiff]
      exact hall
    simp only [hfalse, Bool.false_eq_true, if_false, hall, not_false_eq_true, or_true, iff_true]
    exact h

end Calls

/-! ## Every sequence of calls -/

inductive Op where
  | set (now : Nat) (io : Nat → Outcome) (key : Key) (value : ValueWrapper)
  | remove (now : Nat) (io : Nat → Outcome) (key : Key)
  | get (now : Nat) (io : Nat → Outcome) (key : Key) (forceLoad : Bool)
  | keys (now : Nat) (order : List Key) (scope : Key)
  | processEvictions (io : Nat → Outcome)
  | flush (io : Nat → Outcome)
  | saveAll (io : Nat → Outcome) (b : Batch Entry)

def step (s : System) : Op → System
  | .set now io key value => set now io key value s
  | .remove now io key => remove now io key s
  | .get now io key forceLoad => (get now io key forceLoad s).2
  | .keys now order scope => (keys now order scope s).2
  | .processEvictions io => (processEvictions io s).2
  | .flush io => flush io s
  | .saveAll io b => (saveAll io b s).2

/-- A store with nothing cached yet, over any table. -/
def Starts (s : System) : Prop := s.cache = Cache.empty

/-- No `flush` saves everything while something is cached. -/
def KeepsQueue (s : System) : Op → Prop
  | .flush io => s.cache.store = [] ∨ ¬ AllSaved io s.cache.snapshot.length
  | _ => True

theorem linked_step {s : System} {op : Op} (hk : KeepsQueue s op) (h : Linked s.cache) : Linked (step s op).cache := by
  cases op with
  | set now io key value => exact linked_set h now io key value
  | remove now io key => exact linked_set h now io key _
  | get now io key forceLoad => exact linked_get h now io key forceLoad
  | keys now order scope => exact linked_loadRows h now s.db _
  | processEvictions io => exact linked_processEvictions h io
  | flush io => exact (linked_flush_iff h io).mpr hk
  | saveAll io b => exact linked_saveAll h io b

theorem linked_of_reach {s : System} (h : Reach Starts step KeepsQueue s) : Linked s.cache := by
  refine Reach.inv (I := fun s => Linked s.cache) ?_ ?_ h
  · intro s hs
    rw [show s.cache = Cache.empty from hs]
    exact linked_empty
  · intro s op hk hl
    exact linked_step hk hl

/-- Along every sequence of calls in which no `flush` saves everything while something is
    cached, the map and the queue stay linked, and every eviction takes a cached key off and
    queues its value; and a `flush` from there keeps them linked only on that condition. -/
theorem cache_stays_linked {s : System} (h : Reach Starts step KeepsQueue s) :
    Linked s.cache ∧
    (∀ fresh key value,
      (s.cache.setLocked fresh key value).pendingEvictions = s.cache.pendingEvictions ∨
      ∃ victim v node, s.cache.find victim = some (v, node) ∧
        (s.cache.setLocked fresh key value).find victim = none ∧
        (s.cache.setLocked fresh key value).pendingEvictions = s.cache.pendingEvictions ++ [(victim, v)]) ∧
    (∀ io, Linked (flush io s).cache ↔ s.cache.store = [] ∨ ¬ AllSaved io s.cache.snapshot.length) := by
  have hl := linked_of_reach h
  refine ⟨hl, ?_, fun io => linked_flush_iff hl io⟩
  intro fresh key value
  unfold Cache.setLocked
  cases hf : s.cache.find key with
  | some cell => exact .inl rfl
  | none =>
    rcases evict_cases s.cache fresh with ⟨heq, -⟩ | ⟨queue, node, victim, -, hq, heq⟩
    · left
      simp only [heq]
      rfl
    · right
      obtain ⟨v, hv⟩ := linked_victim hl hq
      refine ⟨victim, v, node, hv, ?_, ?_⟩
      · simp only [heq]
        refine lookup_eq_none_iff.mpr ?_
        intro e he
        rcases mem_append.mp he with he | he
        · have hne := (mem_filter.mp he).2
          simp only [bne_iff_ne] at hne
          simpa using hne.symm
        · have hkey : e.1 = key := by
            rw [mem_singleton.mp he]
          rw [hkey]
          have hvk : victim ≠ key := by
            grind
          simpa using hvk
      · simp only [heq, hv]
        rfl

/-- A key is set and a `flush` cannot save it. -/
def refusedFlush : List Op :=
  [.set 1000 (fun _ => .done) [107] (.fresh 1000), .flush fun _ => .failed]

theorem cache_stays_linked_refusedFlush :
    Allowed step KeepsQueue ⟨.empty, fun _ => none⟩ refusedFlush ∧
      Linked (run step ⟨.empty, fun _ => none⟩ refusedFlush).cache := by
  have hallowed : Allowed step KeepsQueue ⟨.empty, fun _ => none⟩ refusedFlush := by
    refine ⟨trivial, .inr ?_, trivial⟩
    intro hall
    exact absurd (hall 0 (by decide)) (by decide)
  have hstart : Starts ⟨.empty, fun _ => none⟩ := rfl
  exact ⟨hallowed, (cache_stays_linked (Reach.run (.init hstart) hallowed)).1⟩

/-- One key is set and flushed: the map is empty and the key's node is still queued. -/
theorem flush_leaves_node :
    ¬ Linked (run step ⟨.empty, fun _ => none⟩
      [.set 1000 (fun _ => .done) [107] (.fresh 1000), .flush fun _ => .done]).cache := by
  intro h
  have hlen := h.keys.length_eq
  revert hlen
  decide

end Backlands.Kv
