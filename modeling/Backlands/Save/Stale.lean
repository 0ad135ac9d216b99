/-
  Backlands.Save.Stale — whether a recovery can put back an older snapshot of a player
  (see `Backlands.Save.Manager` and `Backlands.Save.Recovery`).

  The log holds the statements of one snapshot of a guid. It is kept when the chain's last
  flush failed, when its deletion failed, and when the recovery of the guid failed; the
  asynchronous path replaces it before it flushes a newer snapshot. A synchronous save
  flushes without touching it.

  Proved, for every run with crashes and failures anywhere:
  - `Kept`: while no synchronous save commits over logged rows, what is logged of a guid is
    at least as new as everything committed of it, and so is what is still to be flushed.
  - `recovery_never_older_iff`: after every prefix of a run a crash and any recovery leave
    no player older than what was committed, exactly when every synchronous save whose SQL
    took effect found no logged row of its players.
-/

import Backlands.Save.Order
import Backlands.Save.Recovery

namespace Backlands.Save

open Backlands.Db Backlands.Lib Function List

/-! ## The database of one guid -/

structure Kept (g : Guid) (next : Nat) (d : Disk) : Prop where
  committed : ∀ q ∈ d.rows g, q.build < next
  sorted : (d.rows g).Pairwise (fun a b => a.build ≤ b.build)
  bound : ∀ row ∈ d.wal, row.guid = g → row.query.build < next
  newer : ∀ row ∈ d.wal, row.guid = g → ∀ q ∈ d.rows g, q.build ≤ row.query.build
  one : ∀ row ∈ d.wal, ∀ row' ∈ d.wal, row.guid = g → row'.guid = g → row.query.build = row'.query.build

variable {g : Guid} {n : Nat} {d : Disk} {save : PlayerSaveSnapshot}

theorem Kept.mono {n' : Nat} {d' : Disk} (h : Kept g n d) (hn : n ≤ n') (hr : d'.rows g = d.rows g)
    (hw : ∀ row ∈ d'.wal, row.guid = g → row ∈ d.wal) : Kept g n' d' := by
  refine ⟨?_, ?_, ?_, ?_, ?_⟩
  · intro q hq
    rw [hr] at hq
    exact Nat.lt_of_lt_of_le (h.committed q hq) hn
  · rw [hr]
    exact h.sorted
  · intro row hm hg
    exact Nat.lt_of_lt_of_le (h.bound row (hw row hm hg) hg) hn
  · intro row hm hg q hq
    rw [hr] at hq
    exact h.newer row (hw row hm hg) hg q hq
  · intro row hm row' hm' hg hg'
    exact h.one row (hw row hm hg) row' (hw row' hm' hg') hg hg'

/-- Logging a snapshot that is not older than what is committed. -/
theorem Kept.replace (h : Kept g n d) (hn : save.build < n) (hq : ∀ q ∈ d.rows g, q.build ≤ save.build) :
    Kept g n (walReplace g save d) := by
  refine ⟨h.committed, h.sorted, ?_, ?_, ?_⟩
  · intro row hm hg
    rw [mem_walReplace_self hg hm]
    exact hn
  · intro row hm hg q hq'
    rw [mem_walReplace_self hg hm]
    exact hq q hq'
  · intro row hm row' hm' hg hg'
    rw [mem_walReplace_self hg hm, mem_walReplace_self hg' hm']

/-- Committing statements of a snapshot `k` that is not older than what is committed and
    not newer than what is logged. -/
theorem Kept.append {k : Nat} {d' : Disk} {l : List Stmt} (h : Kept g n d) (hl : ∀ q ∈ l, q.build = k)
    (hk : l ≠ [] → k < n ∧ (∀ q ∈ d.rows g, q.build ≤ k) ∧ ∀ row ∈ d.wal, row.guid = g → k ≤ row.query.build)
    (hr : d'.rows g = d.rows g ++ l) (hw : d'.wal = d.wal) : Kept g n d' := by
  have hne : ∀ q ∈ l, l ≠ [] := fun q hq => ne_nil_of_mem hq
  refine ⟨?_, ?_, ?_, ?_, ?_⟩
  · intro q hq
    rw [hr] at hq
    rcases mem_append.mp hq with hq | hq
    · exact h.committed q hq
    · rw [hl q hq]
      exact (hk (hne q hq)).1
  · rw [hr]
    refine pairwise_append.mpr ⟨h.sorted, ?_, ?_⟩
    · apply pairwise_of_forall_mem_list
      intro a ha b hb
      rw [hl a ha, hl b hb]
    · intro a ha b hb
      rw [hl b hb]
      exact (hk (hne b hb)).2.1 a ha
  · rw [hw]
    exact h.bound
  · intro row hm hg q hq
    rw [hw] at hm
    rw [hr] at hq
    rcases mem_append.mp hq with hq | hq
    · exact h.newer row hm hg q hq
    · rw [hl q hq]
      exact (hk (hne q hq)).2.2 row hm hg
  · rw [hw]
    exact h.one

theorem Kept.recover (h : Kept g n d) (r : Recovery) : Kept g n (recoverPendingFlushes r d).1 := by
  have hmem : ∀ q ∈ logged g d, ∃ row ∈ d.wal, row.guid = g ∧ row.query = q := by
    intro q hq
    obtain ⟨row, hm, rfl⟩ := mem_map.mp hq
    obtain ⟨hm, hg⟩ := mem_walOf.mp hm
    exact ⟨row, hm, hg, rfl⟩
  have h1 : Kept g n { d with rows := update d.rows g (d.rows g ++ logged g d) } := by
    by_cases hl : logged g d = []
    · rw [hl, append_nil, update_eq_self]
      exact h
    obtain ⟨q, hq⟩ := exists_mem_of_ne_nil _ hl
    obtain ⟨row, hm, hg, rfl⟩ := hmem q hq
    refine h.append (k := row.query.build) (l := logged g d) ?_ ?_ (update_self _ _ _) rfl
    · intro q' hq'
      obtain ⟨row', hm', hg', rfl⟩ := hmem q' hq'
      exact h.one row' hm' row hm hg' hg
    · intro _
      refine ⟨h.bound row hm hg, h.newer row hm hg, ?_⟩
      intro row' hm' hg'
      exact Nat.le_of_eq (h.one row hm row' hm' hg hg')
  have hrows := recover_rows r d g
  split at hrows
  · refine h1.mono le_rfl ?_ fun row hm _ => recover_wal_subset r d hm
    rw [hrows]
    simp
  · exact h.mono le_rfl hrows fun row hm _ => recover_wal_subset r d hm

/-- No recovery of this database leaves a player older than what is committed: the last
    statement committed afterwards belongs to no older snapshot than any committed now. -/
def NeverOlder (d : Disk) : Prop :=
  ∀ r g, ∀ q ∈ d.rows g, ∃ last, ((recoverPendingFlushes r d).1.rows g).getLast? = some last ∧ q.build ≤ last.build

theorem Kept.neverOlder (h : ∀ g, Kept g n d) : NeverOlder d := by
  intro r g q hq
  have hk := (h g).recover r
  have hmem : q ∈ (recoverPendingFlushes r d).1.rows g := by
    grind [recover_rows]
  have hne := ne_nil_of_mem hmem
  refine ⟨_, getLast?_eq_getLast_of_ne_nil hne, ?_⟩
  exact hk.sorted.rel_getLast_of_rel_getLast_getLast hmem le_rfl

/-! ## The flushes of one guid -/

/-- What is still to be flushed of a guid is not older than what is committed of it, and
    what is logged is not older than what the pool flushes. -/
structure Held (g : Guid) (s : St) : Prop where
  kept : Kept g s.next s.disk
  job : ∀ p, (g, p) ∈ s.pool → p.save.build < s.next ∧ (∀ q ∈ s.disk.rows g, q.build ≤ p.save.build) ∧
    ∀ row ∈ s.disk.wal, row.guid = g → p.save.build ≤ row.query.build
  pending : ∀ p, s.pendingFlushes.lookup g = some p → p.save.build < s.next ∧
    (∀ q ∈ s.disk.rows g, q.build ≤ p.save.build) ∧ ∀ j, (g, j) ∈ s.pool → j.save.build ≤ p.save.build

variable {s : St} {p : PendingPlayerFlush}

theorem Held.same {s' : St} (h : Held g s) (hs : Same g s s') : Held g s' := by
  refine ⟨h.kept.mono hs.next hs.rows hs.wal, ?_, ?_⟩
  · intro p hp
    obtain ⟨h1, h2, h3⟩ := h.job p (hs.pool p hp)
    refine ⟨Nat.lt_of_lt_of_le h1 hs.next, ?_, fun row hm hg => h3 row (hs.wal row hm hg) hg⟩
    rw [hs.rows]
    exact h2
  · intro p hp
    rw [hs.pending] at hp
    obtain ⟨h1, h2, h3⟩ := h.pending p hp
    refine ⟨Nat.lt_of_lt_of_le h1 hs.next, ?_, fun j hj => h3 j (hs.pool j hj)⟩
    rw [hs.rows]
    exact h2

theorem Held.dispatch (h : Kept g s.next s.disk) (hn : p.save.build < s.next)
    (hq : ∀ q ∈ s.disk.rows g, q.build ≤ p.save.build) (hf : outstanding g s = 0)
    (hp : s.pendingFlushes.lookup g = none) (io : Attempt) : Held g (dispatchPlayerFlush io g p s) := by
  obtain ⟨hpool, _⟩ := outstanding_eq_zero hf
  rcases dispatchPlayerFlush_cases io g p s with ⟨e, _⟩ | ⟨d, hd, e⟩
  · rw [e]
    refine ⟨h.replace hn hq, ?_, ?_⟩
    · intro j hj
      rcases mem_append.mp hj with hj | hj
      · exact absurd hj (hpool j)
      · obtain ⟨_, rfl⟩ := Prod.mk.inj (mem_singleton.mp hj)
        exact ⟨hn, hq, fun row hm hg => Nat.le_of_eq (mem_walReplace_self hg hm).symm⟩
    · simp [hp]
  · rw [e]
    have hk : Kept g s.next d := by
      rcases hd with rfl | ⟨rfl, _⟩
      · exact h
      · exact h.replace hn hq
    refine Held.same ⟨hk, ?_, ?_⟩ (.completeIf _ _ _)
    · intro j hj
      exact absurd hj (hpool j)
    · simp [abandon, postCallbacks]

/-- A snapshot `n` is not older than anything committed or dispatched of the guid. -/
structure Newest (g : Guid) (n : Nat) (s : St) : Prop where
  bound : n < s.next
  rows : ∀ q ∈ s.disk.rows g, q.build ≤ n
  job : ∀ j, (g, j) ∈ s.pool → j.save.build ≤ n

theorem Held.bump {s' : St} (h : Held g s) (hd : s'.disk = s.disk) (hn : s.next ≤ s'.next) (hp : s'.pool = s.pool)
    (hq : s'.pendingFlushes = s.pendingFlushes) : Held g s' := by
  refine ⟨?_, ?_, ?_⟩
  · rw [hd]
    exact h.kept.mono hn rfl fun _ hm _ => hm
  · rw [hd, hp]
    intro p hm
    obtain ⟨h1, h2, h3⟩ := h.job p hm
    exact ⟨Nat.lt_of_lt_of_le h1 hn, h2, h3⟩
  · rw [hd, hp, hq]
    intro p hm
    obtain ⟨h1, h2, h3⟩ := h.pending p hm
    exact ⟨Nat.lt_of_lt_of_le h1 hn, h2, h3⟩

theorem Held.newest {s' : St} (h : Held g s) (hd : s'.disk = s.disk) (hn : s.next < s'.next) (hp : s'.pool = s.pool) :
    Newest g s.next s' := by
  refine ⟨hn, ?_, ?_⟩
  · rw [hd]
    intro q hq
    exact Nat.le_of_lt (h.kept.committed q hq)
  · rw [hp]
    intro j hj
    exact Nat.le_of_lt (h.job j hj).1

theorem Held.enqueue (h : Held g s) (hn : Newest g p.save.build s) (io : Attempt) : Held g (enqueuePending io g p s) := by
  obtain ⟨d, w, hw, _, e⟩ := enqueuePending_cases io g p s
  have hd : d = s.disk ∨ d = walReplace g p.save s.disk := by
    grind
  have hpend : ∀ j, (s.pendingFlushes.insert g p).lookup g = some j → j = p := by
    simp
  rw [e]
  rcases hd with rfl | rfl
  · refine ⟨h.kept, h.job, ?_⟩
    intro j hj
    rw [hpend j hj]
    exact ⟨hn.bound, hn.rows, hn.job⟩
  · refine ⟨h.kept.replace hn.bound hn.rows, ?_, ?_⟩
    · intro j hj
      obtain ⟨h1, h2, _⟩ := h.job j hj
      refine ⟨h1, h2, ?_⟩
      intro row hm hg
      rw [mem_walReplace_self hg hm]
      exact hn.job j hj
    · intro j hj
      rw [hpend j hj]
      exact ⟨hn.bound, hn.rows, hn.job⟩

theorem Held.schedule (h : Held g s) (hc : Chain none 0 s) (b : Build) (io : Attempt) (t : Bool) :
    Held g (schedulePlayerFlush b io g t s).2 := by
  cases b with
  | none => exact h
  | some qs =>
    have h0 : Held g (noteBuilt g s) := h.bump rfl (Nat.le_succ _) rfl rfl
    have hn : Newest g s.next (noteBuilt g s) := h.newest rfl (Nat.lt_succ_self _) rfl
    unfold schedulePlayerFlush
    simp only
    by_cases hg : g ∈ (noteBuilt g s).flushInFlight
    · rw [if_pos hg]
      split
      · have h1 : Held g (beginTrackedFlush (noteBuilt g s)) := { h0 with }
        exact h1.enqueue (p := ⟨snapshot qs s, _⟩) { hn with } io
      · exact h0.enqueue (p := ⟨snapshot qs s, _⟩) hn io
    · rw [if_neg hg]
      have hl : s.pendingFlushes.lookup g = none := AList.lookup_eq_none.mpr (hc.free hg).2
      have hd : ∀ (t : Bool) (s' : St), s'.next = s.next + 1 → s'.disk = s.disk → s'.pool = s.pool →
          s'.tasks = s.tasks → s'.pendingFlushes = s.pendingFlushes →
          Held g (dispatchPlayerFlush io g ⟨snapshot qs s, t⟩ s') := by
        intro t s' e1 e2 e3 e4 e5
        refine Held.dispatch ?_ ?_ ?_ ?_ ?_ io
        · rw [e1, e2]
          exact h0.kept
        · rw [e1]
          exact Nat.lt_succ_self _
        · rw [e2]
          exact hn.rows
        · unfold outstanding
          rw [e3, e4]
          exact (hc.free hg).1
        · rw [e5]
          exact hl
      cases t
      · exact hd false _ rfl rfl rfl rfl rfl
      · exact hd true _ rfl rfl rfl rfl rfl

theorem Held.flushed (h : Held g s) (hc : Chain none 0 s) {i : Nat} {t b : Bool}
    (hi : s.tasks[i]? = some (.flushed g t b save)) (wal : Attempt) (del : Bool) :
    Held g (onPlayerFlushed wal del g t b save { s with tasks := s.tasks.eraseIdx i }) := by
  have hk : Chain (some g) (unit t) { s with
      tasks := s.tasks.eraseIdx i, finished := update s.finished g (some (save.build, b)) } := { hc.takeTask hi with }
  have h1 : Held g { s with
      tasks := s.tasks.eraseIdx i, finished := update s.finished g (some (save.build, b)) } := { h with }
  unfold onPlayerFlushed
  dsimp only
  revert hk h1
  generalize { s with tasks := s.tasks.eraseIdx i, finished := update s.finished g (some (save.build, b)) } = s1
  intro hk h1
  have h2 := h1.same (.completeIf g t s1)
  have hfree : outstanding g (completeIf t s1) = 0 := by
    have := hk.completeIf.one g
    rw [held_self] at this
    have := unit_le_one (decide (g ∈ (completeIf t s1).flushInFlight))
    omega
  revert h2 hfree
  generalize completeIf t s1 = s2
  intro h2 hfree
  unfold continueChain
  cases hl : s2.pendingFlushes.lookup g with
  | none =>
    have h3 : Held g { s2 with flushInFlight := s2.flushInFlight.erase g } := { h2 with }
    cases b
    · exact h3.same (.post g g false _)
    · exact (h3.same (.delete g g del _)).same (.post g g true _)
  | some p =>
    obtain ⟨hn, hq, _⟩ := h2.pending p hl
    exact Held.dispatch (s := { s2 with pendingFlushes := s2.pendingFlushes.erase g }) h2.kept hn hq hfree
      (AList.lookup_erase _ _) wal

theorem stmts_build {m : Nat} : ∀ q ∈ (List.replicate m save.stmts).flatten, q.build = save.build := by
  intro q hq
  obtain ⟨l, hl, hq⟩ := mem_flatten.mp hq
  rw [(mem_replicate.mp hl).2] at hq
  obtain ⟨_, _, rfl⟩ := mem_map.mp hq
  rfl

theorem Held.poolRun (h : Held g s) (hc : Chain none 0 s) {i : Nat} (hi : s.pool[i]? = some (g, p))
    (io : Nat → Attempt) : Held g (poolRun io i s) := by
  have hp : (g, p) ∈ s.pool := mem_of_getElem? hi
  obtain ⟨hn, hq, hw⟩ := h.job p hp
  have he := countP_eraseIdx (fun j : Guid × PendingPlayerFlush => decide (j.1 = g)) s.pool i _ hi
  have h2 := hc.one g
  have hle := unit_le_one (decide (g ∈ s.flushInFlight))
  simp only [outstanding, held_none, Nat.add_zero, decide_true, unit_true] at h2 he
  have hnone : (s.pool.eraseIdx i).countP (fun j => decide (j.1 = g)) = 0 := by omega
  have hpool : ∀ j, (g, j) ∉ s.pool.eraseIdx i := by
    intro j hj
    exact countP_eq_zero.mp hnone _ hj (by simp)
  unfold Save.poolRun
  simp only [hi, flushPlayerSave_eq, commitSave_iterate]
  refine ⟨h.kept.append stmts_build (fun _ => ⟨hn, hq, hw⟩) (update_self _ _ _) rfl, ?_, ?_⟩
  · intro j hj
    exact absurd hj (hpool j)
  intro j hj
  obtain ⟨h1, h2, h3⟩ := h.pending j hj
  refine ⟨h1, ?_, fun k hk => absurd hk (hpool k)⟩
  intro q hm
  simp only [update_self] at hm
  rcases mem_append.mp hm with hm | hm
  · exact h2 q hm
  · rw [stmts_build q hm]
    exact h3 p hp

/-- Committing a snapshot built after everything else of a guid that has nothing in
    flight and, if anything is written, nothing logged. -/
theorem Held.commit {s' : St} {l : List Stmt} {k : Nat} (h : Held g s) (hc : Chain none 0 s)
    (hg : g ∉ s.flushInFlight) (hl : ∀ q ∈ l, q.build = k) (hk : l ≠ [] → s.next ≤ k ∧ k < s'.next)
    (hw : l ≠ [] → ∀ row ∈ s.disk.wal, row.guid ≠ g) (hn : s.next ≤ s'.next)
    (hr : s'.disk.rows g = s.disk.rows g ++ l) (hd : s'.disk.wal = s.disk.wal) (hp : s'.pool = s.pool)
    (hq : s'.pendingFlushes = s.pendingFlushes) : Held g s' := by
  obtain ⟨hpool, _⟩ := outstanding_eq_zero (hc.free hg).1
  have hnone : s.pendingFlushes.lookup g = none := AList.lookup_eq_none.mpr (hc.free hg).2
  have hb := h.kept.mono hn rfl fun _ hm _ => hm
  refine ⟨hb.append hl ?_ hr hd, ?_, ?_⟩
  · intro hne
    obtain ⟨h1, h2⟩ := hk hne
    refine ⟨h2, ?_, fun row hm hg => absurd hg (hw hne row hm)⟩
    intro q hq
    exact Nat.le_of_lt (Nat.lt_of_lt_of_le (h.kept.committed q hq) h1)
  · rw [hp]
    intro j hj
    exact absurd hj (hpool j)
  · rw [hq, hnone]
    intro j hj
    cases hj

/-! ## Batches -/

/-- The snapshots a batch builds, numbered from `n`. -/
def numbered : Nat → List (Guid × Build) → List (Guid × PlayerSaveSnapshot)
  | _, [] => []
  | n, (g, some ⟨qs, hqs⟩) :: l => (g, ⟨n, qs, hqs⟩) :: numbered (n + 1) l
  | n, (_, none) :: l => numbered n l

/-- What `savePlayersSync` asks of its players before it writes. -/
def Accepted (s : St) (l : List (Guid × Build)) : Prop :=
  (∀ p ∈ l, hasPendingPlayerSave p.1 s = false ∧ p.1 ∉ s.failedRecoveryGuids ∧ p.2.isSome = true) ∧
    (l.map (·.1)).Nodup

theorem buildAll_next (l : List (Guid × Build)) (acc : List (Guid × PlayerSaveSnapshot)) (s : St) :
    s.next ≤ (buildAll l acc s).2.next := by
  induction l generalizing acc s with
  | nil => exact le_rfl
  | cons x l ih =>
    obtain ⟨g, b⟩ := x
    simp only [buildAll]
    split
    · exact le_rfl
    · cases b with
      | none => exact le_rfl
      | some qs => exact (Nat.le_succ _).trans (ih _ (noteBuilt g s))

theorem buildAll_accepted (l : List (Guid × Build)) (acc : List (Guid × PlayerSaveSnapshot)) (s : St)
    (h : Accepted s l) (ha : ∀ p ∈ l, ∀ a ∈ acc, a.1 ≠ p.1) :
    (buildAll l acc s).1 = some (acc ++ numbered s.next l) ∧ (buildAll l acc s).2.next = s.next + l.length := by
  induction l generalizing acc s with
  | nil => simp [buildAll, numbered]
  | cons x l ih =>
    obtain ⟨g, b⟩ := x
    obtain ⟨h1, h2⟩ := h
    obtain ⟨hp, hf, hb⟩ := h1 (g, b) mem_cons_self
    obtain ⟨hg, hn⟩ := nodup_cons.mp h2
    have hacc : (acc.any (·.1 = g)) = false := by
      rw [any_eq_false]
      intro a hm
      simpa using ha (g, b) mem_cons_self a hm
    have hf' : decide (g ∈ s.failedRecoveryGuids) = false := by simpa using hf
    obtain ⟨qs, rfl⟩ := Option.isSome_iff_exists.mp hb
    simp only [buildAll, hp, hacc, hf', Bool.or_self, Bool.false_eq_true, if_false]
    obtain ⟨e1, e2⟩ := ih (acc ++ [(g, snapshot qs s)]) (noteBuilt g s)
      ⟨fun p hm => h1 p (mem_cons_of_mem _ hm), hn⟩ (by
        intro p hm a hma
        rcases mem_append.mp hma with hma | hma
        · exact ha p (mem_cons_of_mem _ hm) a hma
        · rw [mem_singleton.mp hma]
          intro e
          exact hg (mem_map.mpr ⟨p, hm, e.symm⟩))
    refine ⟨?_, ?_⟩
    · rw [e1]
      simp [numbered, snapshot, noteBuilt]
    · rw [e2]
      show s.next + 1 + l.length = s.next + (l.length + 1)
      omega

theorem accepted_of_buildAll (l : List (Guid × Build)) (acc : List (Guid × PlayerSaveSnapshot)) (s : St)
    (h : (buildAll l acc s).1.isSome = true) : Accepted s l ∧ ∀ p ∈ l, ∀ a ∈ acc, a.1 ≠ p.1 := by
  induction l generalizing acc s with
  | nil => simp [Accepted]
  | cons x l ih =>
    obtain ⟨g, b⟩ := x
    simp only [buildAll] at h
    split at h
    · simp at h
    rename_i hc
    cases b with
    | none => simp at h
    | some qs =>
      obtain ⟨⟨h1, h2⟩, h3⟩ := ih _ _ h
      have hc' : hasPendingPlayerSave g s = false ∧ g ∉ s.failedRecoveryGuids ∧ ∀ a ∈ acc, a.1 ≠ g := by
        simp only [Bool.or_eq_true, not_or, Bool.not_eq_true, any_eq_false, decide_eq_true_eq] at hc
        exact ⟨hc.1.1, hc.1.2, hc.2⟩
      refine ⟨⟨?_, ?_⟩, ?_⟩
      · intro p hm
        rcases mem_cons.mp hm with rfl | hm
        · exact ⟨hc'.1, hc'.2.1, rfl⟩
        · exact h1 p hm
      · refine nodup_cons.mpr ⟨?_, h2⟩
        intro hm
        obtain ⟨p, hm, e⟩ := mem_map.mp hm
        exact h3 p hm (g, snapshot qs s) (by simp) e.symm
      · intro p hm a hma
        rcases mem_cons.mp hm with rfl | hm
        · exact hc'.2.2 a hma
        · exact h3 p hm a (mem_append_left _ hma)

/-- The statements a batch commits for a guid. -/
def stmtsOf (g : Guid) (saves : List (Guid × PlayerSaveSnapshot)) : List Stmt :=
  (saves.filter (·.1 = g)).flatMap (·.2.stmts)

theorem commitAll_eq (saves : List (Guid × PlayerSaveSnapshot)) (d : Disk) :
    (∀ g, (commitAll saves d).rows g = d.rows g ++ stmtsOf g saves) ∧ (commitAll saves d).wal = d.wal := by
  unfold commitAll
  induction saves generalizing d with
  | nil => simp [stmtsOf]
  | cons p saves ih =>
    obtain ⟨h1, h2⟩ := ih (commitSave p.1 p.2 d)
    refine ⟨?_, h2⟩
    intro g
    rw [foldl_cons, h1]
    by_cases e : p.1 = g
    · subst e
      simp [stmtsOf, commitSave, append_assoc]
    · have e' : ¬ g = p.1 := fun h => e h.symm
      simp [stmtsOf, commitSave, e, e']

theorem commitAll_iterate (saves : List (Guid × PlayerSaveSnapshot)) (m : Nat) (d : Disk) :
    (∀ g, ((commitAll saves)^[m] d).rows g = d.rows g ++ (List.replicate m (stmtsOf g saves)).flatten) ∧
      ((commitAll saves)^[m] d).wal = d.wal := by
  induction m generalizing d with
  | zero => simp
  | succ m ih =>
    rw [iterate_succ_apply]
    obtain ⟨h1, h2⟩ := ih (commitAll saves d)
    obtain ⟨h3, h4⟩ := commitAll_eq saves d
    refine ⟨?_, h2.trans h4⟩
    intro g
    rw [h1, h3]
    simp [replicate_succ, append_assoc]

theorem stmtsOf_numbered_of_notMem (n : Nat) (l : List (Guid × Build)) (hg : g ∉ l.map (·.1)) :
    stmtsOf g (numbered n l) = [] := by
  induction l generalizing n with
  | nil => rfl
  | cons x l ih =>
    obtain ⟨g', b⟩ := x
    simp only [map_cons, mem_cons, not_or] at hg
    cases b with
    | none => exact ih n hg.2
    | some qs =>
      have := ih (n + 1) hg.2
      have e : ¬ g' = g := fun h => hg.1 h.symm
      simpa [stmtsOf, numbered, e] using this

theorem stmtsOf_numbered (g : Guid) (n : Nat) (l : List (Guid × Build)) (hl : (l.map (·.1)).Nodup) :
    ∃ k, n ≤ k ∧ ∀ q ∈ stmtsOf g (numbered n l), q.build = k ∧ k < n + l.length := by
  induction l generalizing n with
  | nil => exact ⟨n, le_rfl, by simp [stmtsOf, numbered]⟩
  | cons x l ih =>
    obtain ⟨g', b⟩ := x
    obtain ⟨hg, hn⟩ := nodup_cons.mp hl
    cases b with
    | none =>
      obtain ⟨k, h1, h2⟩ := ih n hn
      refine ⟨k, h1, ?_⟩
      intro q hq
      obtain ⟨h3, h4⟩ := h2 q hq
      exact ⟨h3, by simp only [length_cons]; omega⟩
    | some qs =>
      by_cases e : g' = g
      · subst e
        have hrest := stmtsOf_numbered_of_notMem (n + 1) l hg
        refine ⟨n, le_rfl, ?_⟩
        intro q hq
        have hq' : q ∈ PlayerSaveSnapshot.stmts ⟨n, qs.1, qs.2⟩ := by
          simp only [stmtsOf] at hrest hq
          simpa [numbered, hrest] using hq
        obtain ⟨_, _, rfl⟩ := mem_map.mp hq'
        exact ⟨rfl, by simp only [length_cons]; omega⟩
      · obtain ⟨k, h1, h2⟩ := ih (n + 1) hn
        refine ⟨k, by omega, ?_⟩
        intro q hq
        have hq' : q ∈ stmtsOf g (numbered (n + 1) l) := by simpa [stmtsOf, numbered, e] using hq
        obtain ⟨h3, h4⟩ := h2 q hq'
        exact ⟨h3, by simp only [length_cons]; omega⟩

/-- How often a batch applies its snapshots. -/
def batchTimes (io : Nat → Attempt) (s : St) (l : List (Guid × Build)) : Nat :=
  times io ((numbered s.next l).map fun p => p.2.queries.length).sum TRANSACTION_MAX_ATTEMPTS

theorem savePlayersSync_cases (l : List (Guid × Build)) (t : Bool) (io : Nat → Attempt) (s : St) :
    (¬ (t = false ∧ Accepted s l ∧ l ≠ []) ∧
      ∃ n b, s.next ≤ n ∧ (savePlayersSync l t io s).2 = { s with next := n, built := b }) ∨
    (t = false ∧ Accepted s l ∧ ∃ b, (savePlayersSync l t io s).2 =
      { s with
        disk := (commitAll (numbered s.next l))^[batchTimes io s l] s.disk
        next := s.next + l.length
        built := b }) := by
  unfold savePlayersSync
  by_cases hl : l = []
  · subst hl
    exact .inl ⟨fun h => h.2.2 rfl, s.next, s.built, le_rfl, rfl⟩
  have hl' : l.isEmpty = false := by simpa using hl
  rw [hl']
  cases t with
  | true => exact .inl ⟨fun h => by simp at h, s.next, s.built, le_rfl, rfl⟩
  | false =>
    simp only [Bool.false_eq_true, if_false]
    by_cases ha : Accepted s l
    · obtain ⟨e1, e2⟩ := buildAll_accepted l [] s ha (fun _ _ _ h => by cases h)
      obtain ⟨n, b, e3⟩ := buildAll_frame l [] s
      cases hr : buildAll l [] s with
      | mk r s' =>
        rw [hr] at e1 e2 e3
        subst e1 e3
        refine .inr ⟨trivial, ha, b, ?_⟩
        subst e2
        simp only [execute_eq, nil_append]
        rfl
    · obtain ⟨n, b, e3⟩ := buildAll_frame l [] s
      have hnext := buildAll_next l [] s
      cases hr : buildAll l [] s with
      | mk r s' =>
        rw [hr] at e3 hnext
        subst e3
        cases r with
        | none => exact .inl ⟨fun h => ha h.2.1, n, b, hnext, rfl⟩
        | some saves =>
          have := accepted_of_buildAll l [] s (by rw [hr]; rfl)
          exact absurd this.1 ha

/-! ## Runs -/

/-- A synchronous save whose SQL takes effect finds no logged row of its players. -/
def SyncClear (s : St) : Ev → Prop
  | .savePlayerSync g (some qs) _ io => s.phase = .idle → g ∉ s.flushInFlight →
      0 < triesTimes io (snapshot qs s) 3 → ∀ row ∈ s.disk.wal, row.guid ≠ g
  | .savePlayersSync l inTransaction io => s.phase = .idle → inTransaction = false → Accepted s l →
      0 < batchTimes io s l → ∀ row ∈ s.disk.wal, row.guid ∉ l.map (·.1)
  | _ => True

theorem replicate_flatten_ne_nil {α : Type*} {m : Nat} {l : List α} (h : (List.replicate m l).flatten ≠ []) :
    0 < m ∧ l ≠ [] := by
  constructor
  · by_contra hm
    have : m = 0 := by omega
    simp [this] at h
  · rintro rfl
    simp at h

theorem Held.sync (h : Held g s) (hc : Chain none 0 s) (b : Build) (wal : Attempt) (io : Nat → Nat → Attempt)
    (hp : s.phase = .idle) (hk : SyncClear s (.savePlayerSync g b wal io)) :
    Held g (savePlayerSync b wal io g s).2 := by
  by_cases hg : g ∈ s.flushInFlight
  · unfold savePlayerSync
    rw [if_pos hg]
    cases b with
    | none => exact h
    | some qs =>
      have h0 : Held g (noteBuilt g s) := h.bump rfl (Nat.le_succ _) rfl rfl
      exact h0.enqueue (p := ⟨snapshot qs s, _⟩) (h.newest rfl (Nat.lt_succ_self _) rfl) wal
  · cases b with
    | none => simpa [savePlayerSync] using h
    | some qs =>
      rw [savePlayerSync_direct hg (hc.free hg).2]
      refine h.commit hc hg stmts_build ?_ ?_ (Nat.le_succ _) (update_self _ _ _) rfl rfl rfl
      · exact fun _ => ⟨le_rfl, Nat.lt_succ_self _⟩
      · exact fun hne => hk hp hg (replicate_flatten_ne_nil hne).1

theorem hasPending_false (h : hasPendingPlayerSave g s = false) : g ∉ s.flushInFlight := by
  unfold hasPendingPlayerSave at h
  simp only [Bool.or_eq_false_iff, decide_eq_false_iff_not] at h
  exact h.1

theorem Held.batch (h : Held g s) (hc : Chain none 0 s) (l : List (Guid × Build)) (t : Bool) (io : Nat → Attempt)
    (hp : s.phase = .idle) (hk : SyncClear s (.savePlayersSync l t io)) : Held g (savePlayersSync l t io s).2 := by
  rcases savePlayersSync_cases l t io s with ⟨_, n, b, hn, e⟩ | ⟨ht, ha, b, e⟩
  · rw [e]
    exact h.bump rfl hn rfl rfl
  rw [e]
  obtain ⟨h1, h2⟩ := commitAll_iterate (numbered s.next l) (batchTimes io s l) s.disk
  by_cases hg : g ∈ l.map (·.1)
  · obtain ⟨p, hm, hpg⟩ := mem_map.mp hg
    have hf : g ∉ s.flushInFlight := hasPending_false (hpg ▸ (ha.1 p hm).1)
    obtain ⟨k, hk1, hk2⟩ := stmtsOf_numbered g s.next l ha.2
    refine h.commit hc hf (k := k) (l := (List.replicate (batchTimes io s l) (stmtsOf g (numbered s.next l))).flatten)
      ?_ ?_ ?_ (Nat.le_add_right _ _) (h1 g) h2 rfl rfl
    · intro q hq
      obtain ⟨l', hl', hq⟩ := mem_flatten.mp hq
      rw [(mem_replicate.mp hl').2] at hq
      exact (hk2 q hq).1
    · intro hne
      obtain ⟨q, hq⟩ := exists_mem_of_ne_nil _ (replicate_flatten_ne_nil hne).2
      exact ⟨hk1, (hk2 q hq).2⟩
    · intro hne row hm e
      exact hk hp ht ha (replicate_flatten_ne_nil hne).1 row hm (e ▸ hg)
  · have hs := stmtsOf_numbered_of_notMem s.next l hg
    have hr : ((commitAll (numbered s.next l))^[batchTimes io s l] s.disk).rows g = s.disk.rows g := by
      rw [h1, hs]
      simp
    refine ⟨h.kept.mono (Nat.le_add_right _ _) hr ?_, ?_, ?_⟩
    · intro row hm _
      rwa [h2] at hm
    · intro p hm
      obtain ⟨h3, h4, h5⟩ := h.job p hm
      simp only [hr, h2]
      exact ⟨Nat.lt_of_lt_of_le h3 (Nat.le_add_right _ _), h4, h5⟩
    · intro p hm
      obtain ⟨h3, h4, h5⟩ := h.pending p hm
      simp only [hr]
      exact ⟨Nat.lt_of_lt_of_le h3 (Nat.le_add_right _ _), h4, h5⟩

/-- The invariant of the runs in which every synchronous save is clear. -/
def Safe (s : St) : Prop := Chain none 0 s ∧ ∀ g, Held g s

theorem Safe.neverOlder (h : Safe s) : NeverOlder s.disk := Kept.neverOlder fun g => (h.2 g).kept

theorem Safe.step {s : St} (h : Safe s) (e : Ev) (hk : SyncClear s e) : Safe (step s e) := by
  obtain ⟨hc, hh⟩ := h
  refine ⟨hc.step e, fun g => ?_⟩
  by_cases he : OnChain e
  · rcases step_own hc e he g with hs | ⟨ph, b, wal, t, hp, hs⟩ | ⟨b, wal, io, rfl, hp, hs⟩ | ⟨i, p, io, hi, hs⟩ |
      ⟨i, t, b, save, wal, del, hi, hs⟩
    · exact (hh g).same hs
    · rw [hs]
      exact ((hh g).same (.rephase g ph s)).schedule (hc.rephase ph hp) b wal t
    · rw [hs]
      exact (hh g).sync hc b wal io hp hk
    · rw [hs]
      exact (hh g).poolRun hc hi io
    · rw [hs]
      exact (hh g).flushed hc hi wal del
  · cases e with
    | savePlayersSync l t io =>
      cases hp : s.phase with
      | idle =>
        simp only [Save.step, hp]
        exact (hh g).batch hc l t io hp hk
      | players rest =>
        simp only [Save.step, hp]
        exact hh g
      | map tries =>
        simp only [Save.step, hp]
        exact hh g
    | crash r =>
      refine ⟨(hh g).kept.recover r, ?_, ?_⟩
      · intro p hm
        cases hm
      · intro p hm
        cases hm
    | _ => exact absurd trivial he

theorem Safe.init : Safe init := by
  refine ⟨Chain.boot _ _ _, fun g => ⟨⟨?_, List.Pairwise.nil, ?_, ?_, ?_⟩, ?_, ?_⟩⟩
  · intro q hq
    cases hq
  · intro row hm
    cases hm
  · intro row hm
    cases hm
  · intro row hm
    cases hm
  · intro p hm
    cases hm
  · intro p hm
    cases hm

/-! ## A synchronous save over a log -/

def Recovery.good : Recovery := ⟨true, fun _ => .good, fun _ => true⟩

/-- A committed snapshot newer than a guid's log is overwritten by the next recovery. -/
theorem not_neverOlder {q : Stmt} (hq : q ∈ d.rows g) {row : WalRow} (hr : row ∈ d.wal) (hg : row.guid = g)
    (hn : ∀ row ∈ d.wal, row.guid = g → row.query.build < q.build) : ¬ NeverOlder d := by
  intro h
  obtain ⟨last, hl, hle⟩ := h Recovery.good g q hq
  have hne : logged g d ≠ [] := logged_ne_nil.mpr ⟨row, hr, hg⟩
  have ha : (Recovery.good.tx g).applied (logged g d).length = true := by
    simp [Recovery.good, Attempt.good, Attempt.applied, Attempt.queries, Outcome.applied]
  rw [recover_rows, if_pos ⟨rfl, ha⟩, getLast?_append_of_ne_nil _ hne] at hl
  have hm : last ∈ logged g d := mem_of_getLast? hl
  obtain ⟨row', hm', rfl⟩ := mem_map.mp hm
  obtain ⟨hm', hg'⟩ := mem_walOf.mp hm'
  have := hn row' hm' hg'
  omega

theorem mem_replicate_flatten {α : Type*} {m : Nat} {l : List α} {x : α} (hm : 0 < m) (hx : x ∈ l) :
    x ∈ (List.replicate m l).flatten :=
  mem_flatten.mpr ⟨l, mem_replicate.mpr ⟨by omega, rfl⟩, hx⟩

theorem exists_stmt (save : PlayerSaveSnapshot) : ∃ q ∈ save.stmts, q.build = save.build := by
  obtain ⟨x, hx⟩ := exists_mem_of_ne_nil _ save.nonempty
  exact ⟨⟨save.build, x⟩, mem_map.mpr ⟨x, hx, rfl⟩, rfl⟩

/-- An accepted player has a snapshot in the batch. -/
theorem exists_stmtsOf (n : Nat) (l : List (Guid × Build)) (hb : ∀ p ∈ l, p.2.isSome = true) (hg : g ∈ l.map (·.1)) :
    ∃ q ∈ stmtsOf g (numbered n l), n ≤ q.build := by
  induction l generalizing n with
  | nil => cases hg
  | cons x l ih =>
    obtain ⟨g', b⟩ := x
    obtain ⟨qs, rfl⟩ := Option.isSome_iff_exists.mp (hb (g', b) mem_cons_self)
    by_cases e : g' = g
    · subst e
      obtain ⟨q, hq, hbq⟩ := exists_stmt ⟨n, qs.1, qs.2⟩
      exact ⟨q, by simp [stmtsOf, numbered, hq], Nat.le_of_eq hbq.symm⟩
    · have hg' : g ∈ l.map (·.1) := (mem_cons.mp hg).resolve_left fun h => e h.symm
      obtain ⟨q, hq, hle⟩ := ih (n + 1) (fun p hm => hb p (mem_cons_of_mem _ hm)) hg'
      exact ⟨q, by simpa [stmtsOf, numbered, e] using hq, by omega⟩

theorem Safe.syncClear (h : Safe s) (e : Ev) (hn : NeverOlder (Save.step s e).disk) : SyncClear s e := by
  obtain ⟨hc, hh⟩ := h
  cases e with
  | savePlayerSync g b wal io =>
    cases b with
    | none => trivial
    | some qs =>
      intro hp hg ht row hr hrow
      revert hn
      simp only [Save.step, hp]
      rw [savePlayerSync_direct hg (hc.free hg).2]
      obtain ⟨q, hq, hb⟩ := exists_stmt (snapshot qs s)
      refine not_neverOlder (g := g) (q := q) ?_ hr hrow ?_
      · simp only [update_self]
        exact mem_append_right _ (mem_replicate_flatten ht hq)
      · intro row' hm' hg'
        rw [hb]
        exact (hh g).kept.bound row' hm' hg'
  | savePlayersSync l t io =>
    intro hp ht ha hb row hr hrow
    have hne : l ≠ [] := by
      rintro rfl
      cases hrow
    revert hn
    simp only [Save.step, hp]
    rcases savePlayersSync_cases l t io s with ⟨hno, _⟩ | ⟨_, _, b, e⟩
    · exact absurd ⟨ht, ha, hne⟩ hno
    rw [e]
    obtain ⟨h1, h2⟩ := commitAll_iterate (numbered s.next l) (batchTimes io s l) s.disk
    obtain ⟨q, hq, hle⟩ := exists_stmtsOf s.next l (fun p hm => (ha.1 p hm).2.2) hrow
    refine not_neverOlder (g := row.guid) (q := q) ?_ (by simpa only [h2] using hr) rfl ?_
    · simp only [h1]
      exact mem_append_right _ (mem_replicate_flatten hb hq)
    · intro row' hm' hg'
      simp only [h2] at hm'
      exact Nat.lt_of_lt_of_le ((hh row.guid).kept.bound row' hm' hg') hle
  | _ => trivial

theorem Safe.run_iff (h : Safe s) (es : List Ev) :
    (∀ k ≤ es.length, NeverOlder (run Save.step s (es.take k)).disk) ↔ Allowed Save.step SyncClear s es := by
  induction es generalizing s with
  | nil =>
    refine ⟨fun _ => trivial, fun _ k _ => ?_⟩
    rw [take_nil]
    exact h.neverOlder
  | cons e es ih =>
    constructor
    · intro hk
      have he : SyncClear s e := h.syncClear e (hk 1 (by simp))
      refine ⟨he, (ih (h.step e he)).mp ?_⟩
      intro k hle
      exact hk (k + 1) (by simpa using hle)
    · rintro ⟨he, ha⟩ k hle
      cases k with
      | zero => exact h.neverOlder
      | succ k => exact (ih (h.step e he)).mpr ha k (by simpa using hle)

/-- In a run from the first start, no crash and recovery after any of its steps leaves a
    player older than what was committed, exactly when every synchronous save whose SQL
    took effect found no logged row of its players. -/
theorem recovery_never_older_iff (es : List Ev) :
    (∀ k ≤ es.length, NeverOlder (run step init (es.take k)).disk) ↔ Allowed step SyncClear init es :=
  Safe.run_iff Safe.init es

/-- An asynchronous save whose flush fails keeps its log; a synchronous save then commits
    the next snapshot beside it. -/
def overwrittenRun : List Ev :=
  let b : Build := some ⟨["UPDATE"], update_ne_nil⟩
  [.savePlayer 7 b .good, .poolRun 0 (fun _ => .refused), .taskRun 0 .good true,
    .savePlayerSync 7 b .good (fun _ _ => .good)]

/-- Snapshot 1 is committed, and the recovery leaves snapshot 0. -/
theorem overwrittenRun_older :
    ¬ (∀ k ≤ overwrittenRun.length, NeverOlder (run step init (overwrittenRun.take k)).disk) ∧
    lastBuild ((run step init overwrittenRun).disk.rows 7) = some 1 ∧
    lastBuild ((recoverPendingFlushes Recovery.good (run step init overwrittenRun).disk).1.rows 7) = some 0 := by
  refine ⟨?_, rfl, rfl⟩
  intro h
  obtain ⟨last, hl, hle⟩ := h 4 (by simp [overwrittenRun]) Recovery.good 7 ⟨1, "UPDATE"⟩ (by decide)
  have hlast : ((recoverPendingFlushes Recovery.good (run step init (overwrittenRun.take 4)).disk).1.rows 7).getLast? =
      some ⟨0, "UPDATE"⟩ := rfl
  rw [hlast] at hl
  obtain rfl := Option.some.inj hl
  simp at hle

end Backlands.Save
