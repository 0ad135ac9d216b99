/-
  Backlands.Net.RateLimiter — the limiter of new connections (connection_rate_limiter.cpp).

  `ConnectionRateLimiter` keeps one entry an address and, beside them, an index of the
  addresses ordered by the time their entry expires. An entry holds an iterator into the
  index; here a node of the index has an identity no other node gets, and an iterator is the
  node's identity (`none` is `end()`). Every call is under the limiter's mutex, so a run is a
  list of calls. Times are the source's 64-bit words and wrap as they do.

  Proved: entries and index stay in bijection over every run and the table stays within one
  of its ceiling.
-/

import Backlands.Lib.Owned
import Backlands.Lib.Runs

namespace Backlands.Net.RateLimiter

open Backlands.Lib List

def CLEANUP_INTERVAL : UInt64 := 60000
def ENTRY_LIFETIME : UInt64 := 300000
def ATTEMPT_WINDOW : UInt64 := 5000
def CLEANUP_BATCH_SIZE : Nat := 256
def CLEANUP_DIVISOR : Nat := 8
def MAX_ENTRIES : Nat := 65536

def getBlockDuration (totalBlocks : UInt32) : UInt64 :=
  if totalBlocks ≥ 10 then 300000
  else if totalBlocks ≥ 5 then 60000
  else if totalBlocks ≥ 3 then 15000
  else 3000

structure Entry where
  lastAttempt : UInt64
  blockUntil : UInt64 := 0
  count : UInt32 := 1
  totalBlocks : UInt32 := 0
  expiry : Option Nat

structure Limiter where
  entries : List (UInt32 × Entry) := []
  expiryIndex : List (IndexNode UInt64 UInt32) := []
  lastCleanup : UInt64 := 0
  /-- The identity of the next node of `expiryIndex`. -/
  nodes : Nat := 0

structure Result where
  allowed : Bool := true
  blockStarted : Bool := false
  blockDuration : UInt64 := 0
  totalBlocks : UInt32 := 0
  deriving DecidableEq

structure Call where
  clientIp : UInt32
  currentTime : UInt64
  allowedConnections : UInt32
  minimumInterval : UInt64

def expiresAt (entry : Entry) : UInt64 :=
  max entry.blockUntil (entry.lastAttempt + ENTRY_LIFETIME + 1)

def eraseNode (expiry : Option Nat) (index : List (IndexNode UInt64 UInt32)) : List (IndexNode UInt64 UInt32) :=
  match expiry with
  | some id => index.filter fun n => n.id ≠ id
  | none => index

/-- The entry is the one at `clientIp`, with the fields the caller has just assigned. -/
def refreshExpiry (s : Limiter) (clientIp : UInt32) (entry : Entry) : Limiter :=
  { s with
    entries := put clientIp { entry with expiry := some s.nodes } s.entries
    expiryIndex := emplace ⟨s.nodes, expiresAt entry, clientIp⟩ (eraseNode entry.expiry s.expiryIndex)
    nodes := s.nodes + 1 }

def eraseOldestEntry (s : Limiter) : Limiter :=
  match s.expiryIndex with
  | [] => s
  | n :: index =>
    { s with
      entries :=
        match s.entries.lookup n.key with
        | some entry => if entry.expiry = some n.id then s.entries.filter fun r => r.1 ≠ n.key else s.entries
        | none => s.entries
      expiryIndex := index }

/-- The periodic sweep: at most `batch` entries, and none that has not expired. -/
def sweep (currentTime : UInt64) : Nat → Limiter → Limiter
  | 0, s => s
  | batch + 1, s =>
    match s.expiryIndex with
    | [] => s
    | n :: _ => if n.rank > currentTime then s else sweep currentTime batch (eraseOldestEntry s)

theorem eraseOldestEntry_expiryIndex (s : Limiter) :
    (eraseOldestEntry s).expiryIndex = s.expiryIndex.tail := by
  unfold eraseOldestEntry
  split
  · next h => rw [h, tail_nil]
  · next h => rw [h, tail_cons]

/-- The hard ceiling. -/
def evict (s : Limiter) : Limiter :=
  if _ : MAX_ENTRIES < s.entries.length ∧ s.expiryIndex ≠ [] then evict (eraseOldestEntry s) else s
termination_by s.expiryIndex.length
decreasing_by
  rename_i h
  rw [eraseOldestEntry_expiryIndex, length_tail]
  have := length_pos_iff.mpr h.2
  omega

def cleanup (s : Limiter) (currentTime : UInt64) : Limiter :=
  if s.lastCleanup = 0 ∨ currentTime - s.lastCleanup ≥ CLEANUP_INTERVAL then
    evict (sweep currentTime (max CLEANUP_BATCH_SIZE (s.entries.length / CLEANUP_DIVISOR))
      { s with lastCleanup := currentTime })
  else evict s

/-- `check` once the address is known to have an entry. -/
def attempt (s : Limiter) (c : Call) (entry : Entry) : Result × Limiter :=
  if entry.blockUntil > c.currentTime then
    ({ allowed := false, totalBlocks := entry.totalBlocks }, s)
  else
    let timeDifference := c.currentTime - entry.lastAttempt
    let entry := { entry with lastAttempt := c.currentTime, blockUntil := 0 }
    if timeDifference ≤ ATTEMPT_WINDOW then
      let entry := { entry with count := entry.count + 1 }
      if entry.count > c.allowedConnections then
        let entry := { entry with count := 0 }
        if timeDifference ≤ c.minimumInterval then
          let entry := { entry with totalBlocks := entry.totalBlocks + 1 }
          let blockDuration := getBlockDuration entry.totalBlocks
          let entry := { entry with blockUntil := c.currentTime + blockDuration }
          ({ allowed := false, blockStarted := true, blockDuration := blockDuration,
             totalBlocks := entry.totalBlocks }, refreshExpiry s c.clientIp entry)
        else ({}, refreshExpiry s c.clientIp entry)
      else ({}, refreshExpiry s c.clientIp entry)
    else
      let entry := { entry with count := 1 }
      let entry :=
        if timeDifference > CLEANUP_INTERVAL ∧ entry.totalBlocks > 0 then
          { entry with totalBlocks := entry.totalBlocks - 1 }
        else entry
      ({}, refreshExpiry s c.clientIp entry)

def check (s : Limiter) (c : Call) : Result × Limiter :=
  let s := cleanup s c.currentTime
  match s.entries.lookup c.clientIp with
  | none =>
    let entry : Entry := { lastAttempt := c.currentTime, expiry := none }
    ({}, refreshExpiry { s with entries := s.entries ++ [(c.clientIp, entry)] } c.clientIp entry)
  | some entry => attempt s c entry

def step (s : Limiter) (c : Call) : Limiter := (check s c).2

/-! ## What a call does to the table -/

/-- Entries and index in bijection. -/
def Tied (s : Limiter) : Prop := Owned Entry.expiry expiresAt s.entries s.expiryIndex s.nodes

variable {s : Limiter} {clientIp : UInt32} {entry : Entry} {P : Limiter → Prop}

theorem eraseOldestEntry_eq (h : Tied s) {n : IndexNode UInt64 UInt32} {index : List (IndexNode UInt64 UInt32)}
    (hi : s.expiryIndex = n :: index) :
    eraseOldestEntry s = { s with entries := s.entries.filter fun r => r.1 ≠ n.key, expiryIndex := index } := by
  obtain ⟨entry, hm, hid, -⟩ := h.row (n := n) (by rw [hi]; exact mem_cons_self)
  have hl := (lookup_iff_mem h.keys).mpr hm
  unfold eraseOldestEntry
  rw [hi]
  simp only [hl, if_pos hid]

theorem tied_eraseOldestEntry (h : Tied s) : Tied (eraseOldestEntry s) := by
  cases hi : s.expiryIndex with
  | nil =>
    have he : eraseOldestEntry s = s := by
      unfold eraseOldestEntry
      rw [hi]
    rwa [he]
  | cons n index =>
    have hn : n ∈ s.expiryIndex := by rw [hi]; exact mem_cons_self
    obtain ⟨entry, hm, hid, -⟩ := h.row hn
    have hr := h.remove hm hn hid
    -- the front is the only node with its identity
    have hids := h.ids
    rw [hi, map_cons, nodup_cons] at hids
    have hf : (s.expiryIndex.filter fun m => m.id ≠ n.id) = index := by
      rw [hi, filter_cons_of_neg (by simp), filter_eq_self]
      intro m hm
      have hne : m.id ≠ n.id := fun e => hids.1 (mem_map.mpr ⟨m, hm, e⟩)
      simpa using hne
    rw [hf] at hr
    rw [eraseOldestEntry_eq h hi]
    exact hr

theorem length_eraseOldestEntry (h : Tied s) (hi : s.expiryIndex ≠ []) :
    (eraseOldestEntry s).entries.length + 1 = s.entries.length ∧
      (eraseOldestEntry s).expiryIndex.length + 1 = s.expiryIndex.length := by
  have hpos := length_pos_iff.mpr hi
  have hlen : (eraseOldestEntry s).expiryIndex.length + 1 = s.expiryIndex.length := by
    rw [eraseOldestEntry_expiryIndex, length_tail]
    omega
  have h0 := h.length_eq
  have h1 := (tied_eraseOldestEntry h).length_eq
  omega

theorem tied_refreshExpiry {old : Entry} (hk : (s.entries.map Prod.fst).Nodup) (hm : (clientIp, old) ∈ s.entries)
    (hrest : Owned Entry.expiry expiresAt (s.entries.filter fun r => r.1 ≠ clientIp)
      (eraseNode entry.expiry s.expiryIndex) s.nodes) : Tied (refreshExpiry s clientIp entry) := by
  have hnew : clientIp ∉ (s.entries.filter fun r => r.1 ≠ clientIp).map Prod.fst := by
    simp
  exact (hrest.add (b := { entry with expiry := some s.nodes }) hnew rfl).perm (put_perm hk hm).symm

theorem tied_refresh_old (h : Tied s) {old : Entry} (hm : (clientIp, old) ∈ s.entries)
    (he : entry.expiry = old.expiry) : Tied (refreshExpiry s clientIp entry) := by
  obtain ⟨n, hn, hid, -⟩ := h.node hm
  refine tied_refreshExpiry h.keys hm ?_
  rw [he, hid]
  exact h.remove hm hn hid

theorem tied_refresh_new (h : Tied s) (hk : s.entries.lookup clientIp = none) (he : entry.expiry = none) :
    Tied (refreshExpiry { s with entries := s.entries ++ [(clientIp, entry)] } clientIp entry) := by
  have hne := lookup_none_iff.mp hk
  have hkeys : ((s.entries ++ [(clientIp, entry)]).map Prod.fst).Nodup := by
    rw [map_append, nodup_append_comm]
    exact nodup_cons.mpr ⟨hne, h.keys⟩
  have hold : ∀ r ∈ s.entries, r.1 ≠ clientIp := fun r hr e => hne (mem_map.mpr ⟨r, hr, e⟩)
  have hf : ((s.entries ++ [(clientIp, entry)]).filter fun r => r.1 ≠ clientIp) = s.entries := by
    rw [filter_append, filter_cons_of_neg (by simp), filter_nil, append_nil,
      filter_eq_self]
    intro r hr
    simpa using hold r hr
  have hm : (clientIp, entry) ∈ s.entries ++ [(clientIp, entry)] := mem_append_right _ mem_cons_self
  refine tied_refreshExpiry hkeys hm ?_
  rw [hf, he]
  exact h

theorem length_refreshExpiry (s : Limiter) (clientIp : UInt32) (entry : Entry) :
    (refreshExpiry s clientIp entry).entries.length = s.entries.length := by
  show (put _ _ _).length = _
  unfold put
  rw [length_map]

/-- What `check` does to an address with an entry: refuses it while blocked and leaves all as
    it was, else assigns the entry's fields and refreshes it; a block it starts ends when the
    result says. -/
theorem attempt_cases (s : Limiter) (c : Call) (entry : Entry) :
    (entry.blockUntil > c.currentTime ∧ (attempt s c entry).1.allowed = false ∧
      (attempt s c entry).1.blockStarted = false ∧ (attempt s c entry).2 = s) ∨
    (¬ entry.blockUntil > c.currentTime ∧ ∃ new : Entry,
      (attempt s c entry).2 = refreshExpiry s c.clientIp new ∧ new.expiry = entry.expiry ∧
      ((attempt s c entry).1.blockStarted = true →
        new.blockUntil = c.currentTime + (attempt s c entry).1.blockDuration)) := by
  by_cases hb : entry.blockUntil > c.currentTime
  · refine .inl ⟨hb, ?_⟩
    unfold attempt
    rw [if_pos hb]
    exact ⟨rfl, rfl, rfl⟩
  · refine .inr ⟨hb, ?_⟩
    unfold attempt
    rw [if_neg hb]
    dsimp only
    split
    · split
      · split
        · exact ⟨_, rfl, rfl, fun _ => rfl⟩
        · exact ⟨_, rfl, rfl, fun h => by cases h⟩
      · exact ⟨_, rfl, rfl, fun h => by cases h⟩
    · grind

theorem check_of_none {c : Call} (hl : (cleanup s c.currentTime).entries.lookup c.clientIp = none) :
    check s c = ({}, refreshExpiry { cleanup s c.currentTime with
      entries := (cleanup s c.currentTime).entries ++ [(c.clientIp, { lastAttempt := c.currentTime, expiry := none })] }
      c.clientIp { lastAttempt := c.currentTime, expiry := none }) := by
  unfold check
  simp only [hl]

theorem check_of_some {c : Call} (hl : (cleanup s c.currentTime).entries.lookup c.clientIp = some entry) :
    check s c = attempt (cleanup s c.currentTime) c entry := by
  unfold check
  simp only [hl]

theorem sweep_inv {currentTime : UInt64}
    (hP : ∀ s n index, P s → s.expiryIndex = n :: index → n.rank ≤ currentTime → P (eraseOldestEntry s)) (batch : Nat)
    (h : P s) : P (sweep currentTime batch s) := by
  induction batch generalizing s with
  | zero => exact h
  | succ batch ih =>
    unfold sweep
    split
    · exact h
    next n index hi =>
    split
    · exact h
    · next hle => exact ih (hP s n index h hi (Std.not_lt.mp hle))

theorem evict_inv (hP : ∀ s, P s → MAX_ENTRIES < s.entries.length → s.expiryIndex ≠ [] → P (eraseOldestEntry s))
    (h : P s) : P (evict s) := by
  fun_induction evict s with
  | case1 s hgo ih => exact ih (hP s h hgo.1 hgo.2)
  | case2 s hstop => exact h

theorem cleanup_eq_iterate (s : Limiter) (currentTime : UInt64) :
    ∃ k lastCleanup, cleanup s currentTime = eraseOldestEntry^[k] { s with lastCleanup := lastCleanup } := by
  have hP : ∀ {t : UInt64} (s' : Limiter), (∃ k, s' = eraseOldestEntry^[k] { s with lastCleanup := t }) →
      ∃ k, eraseOldestEntry s' = eraseOldestEntry^[k] { s with lastCleanup := t } := by
    intro t s' h
    obtain ⟨k, rfl⟩ := h
    exact ⟨k + 1, (Function.iterate_succ_apply' _ _ _).symm⟩
  unfold cleanup
  split
  · obtain ⟨k, hk⟩ := evict_inv (fun s' h _ _ => hP s' h)
      (sweep_inv (fun s' _ _ h _ _ => hP s' h) (max CLEANUP_BATCH_SIZE (s.entries.length / CLEANUP_DIVISOR))
        ⟨0, rfl⟩)
    exact ⟨k, currentTime, hk⟩
  · obtain ⟨k, hk⟩ := evict_inv (fun s' h _ _ => hP s' h) ⟨0, rfl⟩
    exact ⟨k, s.lastCleanup, hk⟩

theorem erased_inv (hP : ∀ s, P s → P (eraseOldestEntry s)) (h : P s) (k : Nat) : P (eraseOldestEntry^[k] s) := by
  induction k with
  | zero => exact h
  | succ k ih =>
    rw [Function.iterate_succ_apply']
    exact hP _ ih

theorem tied_cleanup (h : Tied s) (currentTime : UInt64) : Tied (cleanup s currentTime) := by
  obtain ⟨k, lastCleanup, e⟩ := cleanup_eq_iterate s currentTime
  have h0 : Tied { s with lastCleanup := lastCleanup } := h
  rw [e]
  exact erased_inv (P := Tied) (fun _ => tied_eraseOldestEntry) h0 k

theorem length_evict_le (h : Tied s) : (evict s).entries.length ≤ MAX_ENTRIES := by
  fun_induction evict s with
  | case1 s hgo ih => exact ih (tied_eraseOldestEntry h)
  | case2 s hstop =>
    -- over the ceiling the index would be empty, and with it the table
    rcases Nat.lt_or_ge MAX_ENTRIES s.entries.length with hlt | hge
    · have hi : s.expiryIndex = [] := by
        by_contra hne
        exact hstop ⟨hlt, hne⟩
      simp [h.length_eq, hi]
    · exact hge

theorem length_cleanup_le (h : Tied s) (currentTime : UInt64) :
    (cleanup s currentTime).entries.length ≤ MAX_ENTRIES := by
  unfold cleanup
  split
  · exact length_evict_le (sweep_inv (fun _ _ _ h _ _ => tied_eraseOldestEntry h) _ h)
  · exact length_evict_le h

/-- The limiter between two calls. -/
structure Sound (s : Limiter) : Prop where
  tied : Tied s
  size : s.entries.length ≤ MAX_ENTRIES + 1

theorem sound_step (h : Sound s) (c : Call) : Sound (step s c) := by
  have ht := tied_cleanup h.tied c.currentTime
  have hlen := length_cleanup_le h.tied c.currentTime
  unfold step
  cases hl : (cleanup s c.currentTime).entries.lookup c.clientIp with
  | none =>
    rw [check_of_none hl]
    refine ⟨tied_refresh_new ht hl rfl, ?_⟩
    rw [length_refreshExpiry, length_append]
    exact Nat.succ_le_succ hlen
  | some entry =>
    rw [check_of_some hl]
    have hm := (lookup_iff_mem ht.keys).mp hl
    rcases attempt_cases (cleanup s c.currentTime) c entry with ⟨-, -, -, hs⟩ | ⟨-, new, hs, he, -⟩
    · rw [hs]
      exact ⟨ht, Nat.le_succ_of_le hlen⟩
    rw [hs]
    refine ⟨tied_refresh_old ht hm he, ?_⟩
    rw [length_refreshExpiry]
    exact Nat.le_succ_of_le hlen

theorem sound_run (calls : List Call) : Sound (run step {} calls) := by
  have h : ∀ s, Sound s → Sound (run step s calls) := by
    induction calls with
    | nil => exact fun s hs => hs
    | cons c calls ih => exact fun s hs => ih _ (sound_step hs c)
  exact h {} ⟨Owned.empty, Nat.zero_le _⟩

theorem sound_eraseOldestEntry (h : Sound s) : Sound (eraseOldestEntry s) := by
  refine ⟨tied_eraseOldestEntry h.tied, ?_⟩
  by_cases hi : s.expiryIndex = []
  · have he : eraseOldestEntry s = s := by
      unfold eraseOldestEntry
      rw [hi]
    rw [he]
    exact h.size
  · have := (length_eraseOldestEntry h.tied hi).1
    have := h.size
    omega

/-- After any calls, and after any number of the erasures the next `cleanup` makes, each entry's
    iterator is at the one node with its address and key, each node belongs to one entry,
    erasing the front shortens both containers by one, and the table is at most one over its
    ceiling. -/
theorem entries_index_bijection (calls : List Call) (erased : Nat) (lastCleanup : UInt64) :
    let s := eraseOldestEntry^[erased] { run step {} calls with lastCleanup := lastCleanup }
    (s.entries.map Prod.fst).Nodup ∧ s.expiryIndex.Nodup ∧
    (∀ clientIp entry, (clientIp, entry) ∈ s.entries → ∃ n ∈ s.expiryIndex, entry.expiry = some n.id ∧
      n.key = clientIp ∧ n.rank = max entry.blockUntil (entry.lastAttempt + ENTRY_LIFETIME + 1) ∧
      ∀ m ∈ s.expiryIndex, m.key = clientIp ∨ m.id = n.id → m = n) ∧
    (∀ n ∈ s.expiryIndex, ∃! entry, (n.key, entry) ∈ s.entries ∧ entry.expiry = some n.id) ∧
    (s.expiryIndex ≠ [] → (eraseOldestEntry s).entries.length + 1 = s.entries.length ∧
      (eraseOldestEntry s).expiryIndex.length + 1 = s.expiryIndex.length) ∧
    s.entries.length ≤ MAX_ENTRIES + 1 := by
  intro s
  have hsound : Sound s := by
    have hrun := sound_run calls
    have h0 : Sound { run step {} calls with lastCleanup := lastCleanup } := ⟨hrun.tied, hrun.size⟩
    exact erased_inv (P := Sound) (fun _ => sound_eraseOldestEntry) h0 erased
  have ht := hsound.tied
  refine ⟨ht.keys, ht.ids.of_map, ?_, ?_, length_eraseOldestEntry ht, hsound.size⟩
  · intro clientIp entry hm
    obtain ⟨n, hn, hid, hrank, hkey⟩ := ht.node hm
    refine ⟨n, hn, hid, hkey, hrank, ?_⟩
    intro m hm h
    rcases h with h | h
    · exact inj_on_of_nodup_map ht.node_keys hm hn (h.trans hkey.symm)
    · exact inj_on_of_nodup_map ht.ids hm hn h
  · intro n hn
    obtain ⟨entry, hm, hid, -⟩ := ht.row hn
    refine ⟨entry, ⟨hm, hid⟩, ?_⟩
    intro other h
    exact congrArg Prod.snd (inj_on_of_nodup_map ht.keys h.1 hm rfl)

end Backlands.Net.RateLimiter
