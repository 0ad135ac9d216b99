/-
  Backlands.Net.RateLimiterBlocks — how long the limiter remembers a block.

  An entry's key in the index is never before the end of its block, so the periodic sweep,
  which takes expired entries only, leaves a blocked address alone. The ceiling takes
  whatever is at the front, and the key is `lastAttempt + ENTRY_LIFETIME + 1` when that is
  later: no block outlasts the lifetime, so a blocked address sorts by its last attempt like
  any idle one.

  Proved: `blocked_until_refused`. `block_flushed`: 65536 other addresses take the front to a
  blocked one.
-/

import Backlands.Net.RateLimiter

namespace Backlands.Net.RateLimiter

open Backlands.Lib List

def FrontIdle (s : Limiter) (c : Call) : Prop :=
  MAX_ENTRIES < s.entries.length →
    ∀ n index entry, s.expiryIndex = n :: index → (n.key, entry) ∈ s.entries → entry.blockUntil ≤ c.currentTime

variable {s : Limiter} {clientIp : UInt32} {entry : Entry} {currentTime : UInt64}

variable {n : IndexNode UInt64 UInt32} {index : List (IndexNode UInt64 UInt32)} {c : Call}

theorem blockUntil_le_expiresAt (entry : Entry) : entry.blockUntil ≤ expiresAt entry := by
  show entry.blockUntil ≤ if entry.blockUntil ≤ entry.lastAttempt + ENTRY_LIFETIME + 1 then _ else _
  split
  · next h => exact h
  · exact Std.le_refl _

theorem front_rank (h : Tied s) (hi : s.expiryIndex = n :: index) (hm : (n.key, entry) ∈ s.entries) :
    expiresAt entry = n.rank := by
  obtain ⟨other, ho, -, hr⟩ := h.row (n := n) (by rw [hi]; exact mem_cons_self)
  have he := inj_on_of_nodup_map h.keys hm ho rfl
  rw [Prod.mk.injEq] at he
  rw [he.2, hr]

theorem mem_eraseOldestEntry (h : Tied s) (hi : s.expiryIndex = n :: index) (hm : (clientIp, entry) ∈ s.entries)
    (hne : n.key ≠ clientIp) : (clientIp, entry) ∈ (eraseOldestEntry s).entries := by
  rw [eraseOldestEntry_eq h hi]
  refine mem_filter.mpr ⟨hm, ?_⟩
  simpa using hne.symm

theorem evict_of_le (h : s.entries.length ≤ MAX_ENTRIES) : evict s = s := by
  rw [evict, dif_neg]
  omega

theorem evict_of_over (h : Sound s) (hlen : MAX_ENTRIES < s.entries.length) : evict s = eraseOldestEntry s := by
  have hi : s.expiryIndex ≠ [] := by
    intro hi
    rw [h.tied.length_eq, hi] at hlen
    exact Nat.not_lt_zero _ hlen
  have := (length_eraseOldestEntry h.tied hi).1
  have := h.size
  rw [evict, dif_pos ⟨hlen, hi⟩, evict_of_le (by omega)]

theorem sweep_keeps_blocked (h : Sound s) (hm : (clientIp, entry) ∈ s.entries)
    (hb : currentTime < entry.blockUntil) (batch : Nat) :
    Sound (sweep currentTime batch s) ∧ (clientIp, entry) ∈ (sweep currentTime batch s).entries ∧
      (sweep currentTime batch s = s ∨ (sweep currentTime batch s).entries.length ≤ MAX_ENTRIES) := by
  refine sweep_inv (P := fun s' => Sound s' ∧ (clientIp, entry) ∈ s'.entries ∧
    (s' = s ∨ s'.entries.length ≤ MAX_ENTRIES)) ?_ batch ⟨h, hm, .inl rfl⟩
  intro s' n index hs' hi hrank
  obtain ⟨hs, hm, -⟩ := hs'
  have hne : n.key ≠ clientIp := by
    intro e
    subst e
    have hle := blockUntil_le_expiresAt entry
    rw [front_rank hs.tied hi hm] at hle
    exact absurd (Std.le_trans hle hrank) (Std.not_le.mpr hb)
  have hlen := (length_eraseOldestEntry hs.tied (by rw [hi]; exact cons_ne_nil _ _)).1
  have := hs.size
  exact ⟨sound_eraseOldestEntry hs, mem_eraseOldestEntry hs.tied hi hm hne, .inr (by omega)⟩

theorem evict_keeps_blocked (h : Sound s) (hf : FrontIdle s c) (hm : (clientIp, entry) ∈ s.entries)
    (hb : c.currentTime < entry.blockUntil) : (clientIp, entry) ∈ (evict s).entries := by
  rcases Nat.lt_or_ge MAX_ENTRIES s.entries.length with hlt | hge
  · rw [evict_of_over h hlt]
    cases hi : s.expiryIndex with
    | nil =>
      rw [h.tied.length_eq, hi] at hlt
      exact absurd hlt (Nat.not_lt_zero _)
    | cons n index =>
      refine mem_eraseOldestEntry h.tied hi hm ?_
      intro e
      subst e
      exact absurd (hf hlt n index entry hi hm) (Std.not_le.mpr hb)
  · rwa [evict_of_le hge]

theorem cleanup_keeps_blocked (h : Sound s) (hf : FrontIdle s c) (hm : (clientIp, entry) ∈ s.entries)
    (hb : c.currentTime < entry.blockUntil) : (clientIp, entry) ∈ (cleanup s c.currentTime).entries := by
  unfold cleanup
  split
  · have h0 : Sound { s with lastCleanup := c.currentTime } := ⟨h.tied, h.size⟩
    obtain ⟨hs, hm', he⟩ := sweep_keeps_blocked h0 hm hb
      (max CLEANUP_BATCH_SIZE (s.entries.length / CLEANUP_DIVISOR))
    rcases he with he | hle
    · rw [he]
      exact evict_keeps_blocked h0 hf hm hb
    · rwa [evict_of_le hle]
  · exact evict_keeps_blocked h hf hm hb

theorem step_keeps_blocked (h : Sound s) (hf : FrontIdle s c) (hm : (clientIp, entry) ∈ s.entries)
    (hb : c.currentTime < entry.blockUntil) :
    (clientIp, entry) ∈ (step s c).entries ∧ (c.clientIp = clientIp → (check s c).1.allowed = false) := by
  have hm' := cleanup_keeps_blocked h hf hm hb
  have hl := (lookup_iff_mem (tied_cleanup h.tied c.currentTime).keys).mpr hm'
  unfold step
  cases hold : (cleanup s c.currentTime).entries.lookup c.clientIp with
  | none =>
    have hne : clientIp ≠ c.clientIp := by
      grind
    rw [check_of_none hold]
    exact ⟨(mem_put_of_ne hne).mpr (mem_append_left _ hm'), fun e => absurd e.symm hne⟩
  | some old =>
    rw [check_of_some hold]
    by_cases e : c.clientIp = clientIp
    · rw [e, hl] at hold
      cases hold
      rcases attempt_cases (cleanup s c.currentTime) c entry with ⟨-, ha, -, hs⟩ | ⟨hnb, -⟩
      · rw [hs]
        exact ⟨hm', fun _ => ha⟩
      · exact absurd hb hnb
    · refine ⟨?_, fun e' => absurd e' e⟩
      rcases attempt_cases (cleanup s c.currentTime) c old with ⟨-, -, -, hs⟩ | ⟨-, new, hs, -⟩
      · rwa [hs]
      · rw [hs]
        exact (mem_put_of_ne (Ne.symm e)).mpr hm'

theorem run_keeps_blocked {calls : List Call} (h : Sound s) (ha : Allowed step FrontIdle s calls)
    (hm : (clientIp, entry) ∈ s.entries) (hb : ∀ c ∈ calls, c.currentTime < entry.blockUntil) :
    Sound (run step s calls) ∧ (clientIp, entry) ∈ (run step s calls).entries := by
  induction calls generalizing s with
  | nil => exact ⟨h, hm⟩
  | cons c calls ih =>
    have hc := (step_keeps_blocked h ha.1 hm (hb c mem_cons_self)).1
    exact ih (sound_step h c) ha.2 hc fun d hd => hb d (mem_cons_of_mem _ hd)

theorem blocked_of_blockStarted (h : Sound s) (hc : (check s c).1.blockStarted = true) :
    ∃ entry, (c.clientIp, entry) ∈ (step s c).entries ∧
      entry.blockUntil = c.currentTime + (check s c).1.blockDuration := by
  have ht := tied_cleanup h.tied c.currentTime
  unfold step
  cases hl : (cleanup s c.currentTime).entries.lookup c.clientIp with
  | none =>
    rw [check_of_none hl] at hc
    cases hc
  | some old =>
    rw [check_of_some hl] at hc ⊢
    have hm := (lookup_iff_mem ht.keys).mp hl
    rcases attempt_cases (cleanup s c.currentTime) c old with ⟨-, -, hb, -⟩ | ⟨-, new, hs, -, hblock⟩
    · rw [hb] at hc
      cases hc
    · refine ⟨{ new with expiry := some (cleanup s c.currentTime).nodes }, ?_, hblock hc⟩
      rw [hs]
      exact (put_perm ht.keys hm).symm.subset mem_cons_self

/-! ## A first block -/

def first : Call := ⟨0, 1, 1, 1000⟩

def other (i : Nat) : Call := ⟨UInt32.ofNat i, 2, 1, 1000⟩

def victim : Entry := { lastAttempt := 1, blockUntil := 3001, count := 0, totalBlocks := 1, expiry := some 1 }

def blockedOnce : Limiter :=
  { entries := [(0, victim)], expiryIndex := [⟨1, 300002, 0⟩], lastCleanup := 1, nodes := 2 }

theorem sweep_of_empty (hi : s.expiryIndex = []) (batch : Nat) : sweep currentTime batch s = s := by
  cases batch with
  | zero => rfl
  | succ batch =>
    unfold sweep
    simp only [hi]

def seenOnce : Limiter :=
  { entries := [(0, { lastAttempt := 1, expiry := some 0 })], expiryIndex := [⟨0, 300002, 0⟩], lastCleanup := 1,
    nodes := 1 }

theorem step_first : step {} first = seenOnce := by
  have hc : cleanup {} first.currentTime = { lastCleanup := 1 } := by
    unfold cleanup
    rw [if_pos (.inl rfl), sweep_of_empty rfl, evict_of_le (Nat.zero_le _)]
    rfl
  unfold step
  rw [check_of_none (by rw [hc]; rfl), hc]
  rfl

theorem cleanup_quiet {now : UInt64} (hl : s.lastCleanup = 1) (h1 : 1 ≤ now) (h2 : now ≤ 2)
    (hlen : s.entries.length ≤ MAX_ENTRIES) : cleanup s now = s := by
  unfold cleanup
  rw [hl, if_neg, evict_of_le hlen]
  simp only [CLEANUP_INTERVAL]
  intro h
  rcases h with h | h
  · cases h
  have := UInt64.le_iff_toNat_le.mp h
  have := UInt64.le_iff_toNat_le.mp h2
  simp [UInt64.toNat_sub_of_le _ _ h1] at *
  omega

theorem check_first : check seenOnce first =
    ({ allowed := false, blockStarted := true, blockDuration := 3000, totalBlocks := 1 }, blockedOnce) := by
  have hc : cleanup seenOnce first.currentTime = seenOnce :=
    cleanup_quiet rfl (by decide) (by decide) (by decide)
  rw [check_of_some (by rw [hc]; rfl), hc]
  rfl

theorem frontIdle_of_le (h : s.entries.length ≤ MAX_ENTRIES) : FrontIdle s c :=
  fun hlt => absurd hlt (Nat.not_lt.mpr h)

/-! ## While the front is idle, a block holds -/

/-- `c` starts a block; until it ends, every later call for the address is refused as long as
    the front of an overfull table is never blocked. -/
theorem blocked_until_refused (before between : List Call) (c d : Call)
    (hsorted : ((before ++ c :: between ++ [d]).map Call.currentTime).Pairwise (· ≤ ·))
    (hstart : (check (run step {} before) c).1.blockStarted = true) (hip : d.clientIp = c.clientIp)
    (hend : d.currentTime < c.currentTime + (check (run step {} before) c).1.blockDuration)
    (hok : Allowed step FrontIdle {} (before ++ c :: between ++ [d])) :
    (check (run step {} (before ++ c :: between)) d).1.allowed = false := by
  have hs := sound_run before
  obtain ⟨entry, hm, hb⟩ := blocked_of_blockStarted hs hstart
  rw [← hb] at hend
  -- the run up to `c`, then the calls that find the block, then `d`
  rw [append_assoc] at hok
  have hrest := (allowed_append.mp hok).2
  have hcalls := allowed_append.mp hrest.2
  have hbefore : ∀ e ∈ between, e.currentTime < entry.blockUntil := by
    intro e he
    rw [map_append, pairwise_append] at hsorted
    have hle := hsorted.2.2 e.currentTime (mem_map.mpr ⟨e, by simp [he], rfl⟩) d.currentTime (by simp)
    exact Std.lt_of_le_of_lt hle hend
  obtain ⟨hs', hm'⟩ := run_keeps_blocked (sound_step hs c) hcalls.1 hm hbefore
  rw [run_append]
  exact (step_keeps_blocked hs' hcalls.2.1 hm' hend).2 hip

theorem blocked_until_refused_first : (check (run step {} ([first] ++ first :: [])) (other 0)).1.allowed = false := by
  have hstart := check_first
  have hblocked : step seenOnce first = blockedOnce := congrArg Prod.snd check_first
  rw [← step_first] at hstart
  have hok : Allowed step FrontIdle {} ([first] ++ first :: [] ++ [other 0]) := by
    refine ⟨frontIdle_of_le (Nat.zero_le _), ?_⟩
    rw [step_first]
    refine ⟨frontIdle_of_le (by decide), ?_⟩
    rw [hblocked]
    exact ⟨frontIdle_of_le (by decide), trivial⟩
  have hsorted : (([first] ++ first :: [] ++ [other 0]).map Call.currentTime).Pairwise (· ≤ ·) := by decide
  exact blocked_until_refused [first] [] first (other 0) hsorted (congrArg (fun p => p.1.blockStarted) hstart) rfl
    (by rw [show run step {} [first] = step {} first from rfl, hstart]; decide) hok

/-! ## A full table forgets a block -/

theorem sweep_of_front (hi : s.expiryIndex = n :: index) (h : currentTime < n.rank) (batch : Nat) :
    sweep currentTime batch s = s := by
  cases batch with
  | zero => rfl
  | succ batch =>
    unfold sweep
    simp only [hi]
    exact if_pos h

theorem allowed_of_front_blocked (h : Sound s) (hlen : MAX_ENTRIES < s.entries.length)
    (hi : s.expiryIndex = n :: index) (hm : (n.key, entry) ∈ s.entries) (hb : c.currentTime < entry.blockUntil)
    (hc : c.clientIp = n.key) : (check s c).1.allowed = true := by
  have hrank : c.currentTime < n.rank := by
    rw [← front_rank h.tied hi hm]
    exact Std.lt_of_lt_of_le hb (blockUntil_le_expiresAt entry)
  have hgone : (cleanup s c.currentTime).entries = s.entries.filter fun r => r.1 ≠ n.key := by
    have h0 : Sound { s with lastCleanup := c.currentTime } := ⟨h.tied, h.size⟩
    unfold cleanup
    split
    · rw [sweep_of_front (s := { s with lastCleanup := c.currentTime }) hi hrank, evict_of_over h0 hlen,
        eraseOldestEntry_eq h0.tied hi]
    · rw [evict_of_over h hlen, eraseOldestEntry_eq h.tied hi]
  have hl : (cleanup s c.currentTime).entries.lookup c.clientIp = none := by
    rw [hgone, hc, lookup_none_iff]
    simp
  rw [check_of_none hl]

/-- Addresses `1 .. n`, each connecting once. -/
def flood (n : Nat) : List Call := (List.range n).map fun i => other (i + 1)

structure Filled (n : Nat) (s : Limiter) : Prop where
  size : s.entries.length = n + 1
  front : ∃ index, s.expiryIndex = ⟨1, 300002, 0⟩ :: index
  clock : s.lastCleanup = 1
  seen : ∀ r ∈ s.entries, r.1.toNat ≤ n
  held : (0, victim) ∈ s.entries

theorem filled_step {n : Nat} (h : Filled n s) (hn : n < MAX_ENTRIES) : Filled (n + 1) (step s (other (n + 1))) := by
  have hlt : n + 1 < 2 ^ 32 := by
    simp only [MAX_ENTRIES] at hn
    omega
  have hip : (UInt32.ofNat (n + 1)).toNat = n + 1 := UInt32.toNat_ofNat_of_lt' hlt
  have h12 : (1 : UInt64) ≤ 2 := by decide
  have hc : cleanup s (other (n + 1)).currentTime = s :=
    cleanup_quiet h.clock h12 (Std.le_refl _) (by rw [h.size]; exact hn)
  have hne : ∀ r ∈ s.entries, r.1 ≠ UInt32.ofNat (n + 1) := by
    intro r hr e
    have := h.seen r hr
    rw [e, hip] at this
    omega
  have hl : (cleanup s (other (n + 1)).currentTime).entries.lookup (other (n + 1)).clientIp = none := by
    rw [hc, lookup_none_iff]
    intro hk
    obtain ⟨r, hr, e⟩ := mem_map.mp hk
    exact hne r hr e
  unfold step
  rw [check_of_none hl, hc]
  obtain ⟨index, hi⟩ := h.front
  refine ⟨?_, ?_, h.clock, ?_, ?_⟩
  · rw [length_refreshExpiry, length_append, h.size]
    rfl
  · have hrank : expiresAt { lastAttempt := 2, expiry := none } = 300003 := by decide
    have hlater : ¬ (300003 : UInt64) < 300002 := by decide
    refine ⟨emplace ⟨s.nodes, 300003, UInt32.ofNat (n + 1)⟩ index, ?_⟩
    show emplace ⟨s.nodes, expiresAt { lastAttempt := 2, expiry := none }, UInt32.ofNat (n + 1)⟩ s.expiryIndex = _
    rw [hrank, hi, emplace_cons_of_not_lt hlater]
  · intro r hr
    obtain ⟨r', hr', e⟩ := mem_map.mp hr
    split at e
    · rw [← e]
      exact hip.le
    rcases mem_append.mp hr' with hold | hnew
    · rw [← e]
      exact Nat.le_succ_of_le (h.seen r' hold)
    · rw [← e, mem_singleton.mp hnew]
      exact hip.le
  · exact (mem_put_of_ne (hne _ h.held)).mpr (mem_append_left _ h.held)

theorem filled_flood {n : Nat} (hn : n ≤ MAX_ENTRIES) : Filled n (run step blockedOnce (flood n)) := by
  induction n with
  | zero =>
    exact ⟨rfl, ⟨[], rfl⟩, rfl, fun r hr => by rw [mem_singleton.mp hr]; exact le_rfl,
      mem_cons_self⟩
  | succ n ih =>
    have hflood : flood (n + 1) = flood n ++ [other (n + 1)] := by
      simp [flood, range_succ, map_append]
    rw [hflood, run_append]
    exact filled_step (ih (Nat.le_of_succ_le hn)) hn

/-- An address blocked until 3001 is let in at 2, after 65536 others have connected. -/
theorem block_flushed : ¬ ∀ (before between : List Call) (c d : Call),
    ((before ++ c :: between ++ [d]).map Call.currentTime).Pairwise (· ≤ ·) →
    (check (run step {} before) c).1.blockStarted = true → d.clientIp = c.clientIp →
    d.currentTime < c.currentTime + (check (run step {} before) c).1.blockDuration →
    (check (run step {} (before ++ c :: between)) d).1.allowed = false := by
  intro hall
  have hbefore : run step {} [first] = seenOnce := step_first
  have hstart := check_first
  rw [← hbefore] at hstart
  have hafter : run step {} ([first] ++ first :: flood MAX_ENTRIES) = run step blockedOnce (flood MAX_ENTRIES) := by
    have hblocked : step seenOnce first = blockedOnce := congrArg Prod.snd check_first
    rw [run_append, hbefore, run_cons, hblocked]
  have hsorted : (([first] ++ first :: flood MAX_ENTRIES ++ [other 0]).map Call.currentTime).Pairwise (· ≤ ·) := by
    have htimes : (flood MAX_ENTRIES ++ [other 0]).map Call.currentTime = List.replicate (MAX_ENTRIES + 1) 2 := by
      refine eq_replicate_iff.mpr ⟨?_, fun t ht => ?_⟩
      · simp [flood]
      · obtain ⟨c, hc, rfl⟩ := mem_map.mp ht
        rcases mem_append.mp hc with hc | hc
        · obtain ⟨i, -, rfl⟩ := mem_map.mp hc
          rfl
        · rw [mem_singleton.mp hc]
          rfl
    have h12 : (1 : UInt64) ≤ 2 := by decide
    have hlater : ∀ t ∈ List.replicate (MAX_ENTRIES + 1) (2 : UInt64), 1 ≤ t := fun t ht => by
      rwa [eq_of_mem_replicate ht]
    rw [append_assoc, cons_append, nil_append, cons_append, map_cons, map_cons, htimes]
    refine pairwise_cons.mpr ⟨fun t ht => ?_, pairwise_cons.mpr ⟨hlater, ?_⟩⟩
    · rcases mem_cons.mp ht with ht | ht
      · rw [ht]
        exact Std.le_refl _
      · exact hlater t ht
    · exact pairwise_replicate.mpr (.inr (Std.le_refl _))
  have hfilled := filled_flood (Nat.le_refl MAX_ENTRIES)
  rw [← hafter] at hfilled
  obtain ⟨index, hi⟩ := hfilled.front
  have hlet := allowed_of_front_blocked (sound_run _) (c := other 0) (by rw [hfilled.size]; exact Nat.lt_succ_self _)
    hi hfilled.held (by decide) rfl
  have hrefused := hall [first] (flood MAX_ENTRIES) first (other 0) hsorted (by rw [hstart]) rfl (by rw [hstart]; decide)
  rw [hlet] at hrefused
  cases hrefused

end Backlands.Net.RateLimiter
