/-
  Backlands.Save.Recovery — `recoverPendingFlushes` (see `Backlands.Save.Manager`), guid by
  guid.

  Proved, for every table, every order of its rows and every answer of the database:
  - `recover_rows`, `recover_wal`, `recover_failed`: what the recovery leaves of a guid's
    rows, of its log, and whether it is marked, in terms of the guid's own transaction.
  - `recovery_protects_iff`: each guid whose log was not replayed and committed is marked,
    so that no later log write of the process touches its rows, exactly when no guid with
    logged rows was refused its transaction, failed its commit, or was never read. Those
    exits leave the guid unmarked; only a failed statement marks it.
-/

import Backlands.Save.Chain

namespace Backlands.Save

open Backlands.Db Backlands.Lib List

def logged (g : Guid) (d : Disk) : List Stmt := (walOf d.wal g).map (·.query)

variable {g : Guid} {d : Disk}

theorem mem_walOf {wal : List WalRow} {row : WalRow} : row ∈ walOf wal g ↔ row ∈ wal ∧ row.guid = g := by
  simp [walOf, mem_insertionSort, mem_filter]

theorem logged_ne_nil : logged g d ≠ [] ↔ ∃ row ∈ d.wal, row.guid = g := by
  constructor
  · intro h
    obtain ⟨q, hq⟩ := exists_mem_of_ne_nil _ h
    obtain ⟨row, hr, _⟩ := mem_map.mp hq
    exact ⟨row, mem_walOf.mp hr⟩
  · rintro ⟨row, hr⟩ h
    have hm := mem_map_of_mem (f := fun r : WalRow => r.query) (mem_walOf.mpr hr)
    grind [logged]

theorem walOf_walDelete (g g' : Guid) (wal : List WalRow) :
    walOf (walDelete g wal) g' = if g' = g then [] else walOf wal g' := by
  unfold walOf walDelete
  rw [filter_filter]
  split
  · rename_i e
    subst e
    have : wal.filter (fun a => decide (a.guid = g') && decide (a.guid ≠ g')) = [] := by
      simp
    rw [this]
    rfl
  · rename_i e
    congr 1
    grind

/-! ## One guid -/

/-- One guid's recovery as a transaction, a deletion after a success and a mark after a
    failed statement. -/
theorem recoverGuid_eq (r : Recovery) (g : Guid) (p : Disk × Finset Guid) :
    recoverGuid r g p =
      (let t := transaction (r.tx g) (logged g p.1).length (replay g (logged g p.1)) p.1
       (if t.1 && r.delete g then { t.2 with wal := walDelete g t.2.wal } else t.2,
        if (r.tx g).begin && !(r.tx g).queries (logged g p.1).length then insert g p.2 else p.2)) := by
  have hl : (walOf p.1.wal g).map (·.query) = logged g p.1 := rfl
  unfold recoverGuid
  simp only [hl]
  cases hb : (r.tx g).begin with
  | false => simp [transaction, Attempt.ok, Attempt.applied, hb]
  | true =>
    cases hq : (r.tx g).queries (logged g p.1).length with
    | false => simp [transaction, Attempt.ok, Attempt.applied, hb, hq]
    | true =>
      grind

theorem recoverGuid_rows (r : Recovery) (g g' : Guid) (p : Disk × Finset Guid) :
    (recoverGuid r g p).1.rows g' =
      if g' = g ∧ (r.tx g).applied (logged g p.1).length = true then p.1.rows g' ++ logged g p.1 else p.1.rows g' := by
  have h : (recoverGuid r g p).1.rows =
      (transaction (r.tx g) (logged g p.1).length (replay g (logged g p.1)) p.1).2.rows := by
    grind [recoverGuid_eq]
  rw [h]
  unfold transaction
  by_cases ha : (r.tx g).applied (logged g p.1).length = true
  · by_cases e : g' = g <;> simp [e, ha, replay]
  · simp [ha]

theorem recoverGuid_wal (r : Recovery) (g g' : Guid) (p : Disk × Finset Guid) :
    walOf (recoverGuid r g p).1.wal g' =
      if g' = g ∧ (r.tx g).ok (logged g p.1).length = true ∧ r.delete g = true then [] else walOf p.1.wal g' := by
  have h : (transaction (r.tx g) (logged g p.1).length (replay g (logged g p.1)) p.1).2.wal = p.1.wal := by
    unfold transaction
    split <;> rfl
  rw [recoverGuid_eq]
  simp only
  by_cases hd : ((transaction (r.tx g) (logged g p.1).length (replay g (logged g p.1)) p.1).1 && r.delete g) = true
  · rw [if_pos hd, h, walOf_walDelete]
    have hk : (r.tx g).ok (logged g p.1).length = true ∧ r.delete g = true := by
      simpa [transaction] using hd
    simp [hk]
  · rw [if_neg hd, h]
    have hk : ¬ ((r.tx g).ok (logged g p.1).length = true ∧ r.delete g = true) := by
      simpa [transaction] using hd
    rw [if_neg (fun hc => hk hc.2)]

theorem recoverGuid_failed (r : Recovery) (g g' : Guid) (p : Disk × Finset Guid) :
    g' ∈ (recoverGuid r g p).2 ↔
      g' ∈ p.2 ∨ g' = g ∧ (r.tx g).begin = true ∧ (r.tx g).queries (logged g p.1).length = false := by
  rw [recoverGuid_eq]
  grind

/-! ## All of them -/

theorem recoverLoop_other (r : Recovery) (gs : List Guid) (hg : g ∉ gs) (p : Disk × Finset Guid) :
    (gs.foldl (fun p g => recoverGuid r g p) p).1.rows g = p.1.rows g ∧
    walOf (gs.foldl (fun p g => recoverGuid r g p) p).1.wal g = walOf p.1.wal g ∧
    (g ∈ (gs.foldl (fun p g => recoverGuid r g p) p).2 ↔ g ∈ p.2) := by
  induction gs generalizing p with
  | nil => exact ⟨rfl, rfl, .rfl⟩
  | cons a gs ih =>
    have hne : ¬ g = a := fun e => hg (e ▸ mem_cons_self)
    obtain ⟨h1, h2, h3⟩ := ih (fun h => hg (mem_cons_of_mem _ h)) (recoverGuid r a p)
    simp [foldl_cons, h1, recoverGuid_rows, hne, h2, recoverGuid_wal, h3, recoverGuid_failed]

theorem recoverLoop_self (r : Recovery) (gs : List Guid) (hn : gs.Nodup) (hg : g ∈ gs) (p : Disk × Finset Guid) :
    (gs.foldl (fun p g => recoverGuid r g p) p).1.rows g = (recoverGuid r g p).1.rows g ∧
    walOf (gs.foldl (fun p g => recoverGuid r g p) p).1.wal g = walOf (recoverGuid r g p).1.wal g ∧
    (g ∈ (gs.foldl (fun p g => recoverGuid r g p) p).2 ↔ g ∈ (recoverGuid r g p).2) := by
  induction gs generalizing p with
  | nil => cases hg
  | cons a gs ih =>
    obtain ⟨ha, hn⟩ := nodup_cons.mp hn
    rw [foldl_cons]
    by_cases e : g = a
    · subst e
      exact recoverLoop_other r gs ha _
    have hm : g ∈ gs := (mem_cons.mp hg).resolve_left e
    obtain ⟨h1, h2, h3⟩ := ih hn hm (recoverGuid r a p)
    have hrows : (recoverGuid r a p).1.rows g = p.1.rows g := by
      rw [recoverGuid_rows]
      simp [e]
    have hwal : walOf (recoverGuid r a p).1.wal g = walOf p.1.wal g := by
      rw [recoverGuid_wal]
      simp [e]
    have hlog : logged g (recoverGuid r a p).1 = logged g p.1 := by
      unfold logged
      rw [hwal]
    have hfail : g ∈ (recoverGuid r a p).2 ↔ g ∈ p.2 := by
      rw [recoverGuid_failed]
      simp [e]
    refine ⟨?_, ?_, ?_⟩
    · rw [h1, recoverGuid_rows r g g, recoverGuid_rows r g g, hrows, hlog]
    · rw [h2, recoverGuid_wal r g g, recoverGuid_wal r g g, hwal, hlog]
    · rw [h3, recoverGuid_failed r g g, recoverGuid_failed r g g, hfail, hlog]

theorem mem_guids : g ∈ (d.wal.map (·.guid)).dedup ↔ logged g d ≠ [] := by
  rw [mem_dedup, mem_map, logged_ne_nil]

theorem recover_rows (r : Recovery) (d : Disk) (g : Guid) :
    (recoverPendingFlushes r d).1.rows g =
      if r.select = true ∧ (r.tx g).applied (logged g d).length = true then d.rows g ++ logged g d else d.rows g := by
  unfold recoverPendingFlushes
  cases r.select with
  | false => simp
  | true =>
    simp only [if_true, true_and]
    by_cases hg : g ∈ (d.wal.map (·.guid)).dedup
    · rw [(recoverLoop_self r _ (nodup_dedup _) hg _).1, recoverGuid_rows]
      simp
    rw [(recoverLoop_other r _ hg _).1]
    have hl : logged g d = [] := by
      by_contra h
      exact hg (mem_guids.mpr h)
    simp [hl]

theorem recover_wal (r : Recovery) (d : Disk) (g : Guid) :
    walOf (recoverPendingFlushes r d).1.wal g =
      if r.select = true ∧ (r.tx g).ok (logged g d).length = true ∧ r.delete g = true then [] else walOf d.wal g := by
  unfold recoverPendingFlushes
  cases r.select with
  | false => simp
  | true =>
    simp only [if_true, true_and]
    by_cases hg : g ∈ (d.wal.map (·.guid)).dedup
    · rw [(recoverLoop_self r _ (nodup_dedup _) hg _).2.1, recoverGuid_wal]
      simp
    rw [(recoverLoop_other r _ hg _).2.1]
    have hl : walOf d.wal g = [] := by
      by_contra h
      exact hg (mem_guids.mpr (by simpa [logged] using h))
    simp [hl]

theorem recover_failed (r : Recovery) (d : Disk) (g : Guid) :
    g ∈ (recoverPendingFlushes r d).2 ↔ r.select = true ∧ logged g d ≠ [] ∧ (r.tx g).begin = true ∧
      (r.tx g).queries (logged g d).length = false := by
  unfold recoverPendingFlushes
  cases r.select with
  | false => simp
  | true =>
    simp only [if_true, true_and]
    by_cases hg : g ∈ (d.wal.map (·.guid)).dedup
    · rw [(recoverLoop_self r _ (nodup_dedup _) hg _).2.2, recoverGuid_failed]
      simp [mem_guids.mp hg]
    rw [(recoverLoop_other r _ hg _).2.2]
    have hl : logged g d = [] := by
      by_contra h
      exact hg (mem_guids.mpr h)
    simp [hl]

theorem recover_wal_subset (r : Recovery) (d : Disk) {row : WalRow} (h : row ∈ (recoverPendingFlushes r d).1.wal) :
    row ∈ d.wal := by
  have hm : row ∈ walOf (recoverPendingFlushes r d).1.wal row.guid := mem_walOf.mpr ⟨h, rfl⟩
  rw [recover_wal] at hm
  split at hm
  · cases hm
  · exact (mem_walOf.mp hm).1

/-! ## The marks -/

section
variable (io : Attempt) (g : Guid) (s : St)

theorem completeIf_failed (t : Bool) : (completeIf t s).failedRecoveryGuids = s.failedRecoveryGuids := by
  cases t
  · rfl
  · show (completeTrackedFlush s).failedRecoveryGuids = _
    grind [completeTrackedFlush]

theorem dispatchPlayerFlush_failed (p : PendingPlayerFlush) :
    (dispatchPlayerFlush io g p s).failedRecoveryGuids = s.failedRecoveryGuids := by
  rcases dispatchPlayerFlush_cases io g p s with ⟨h, _⟩ | ⟨d, _, h⟩
  · rw [h]
  · rw [h, completeIf_failed]
    rfl

theorem enqueuePending_failed (p : PendingPlayerFlush) :
    (enqueuePending io g p s).failedRecoveryGuids = s.failedRecoveryGuids := by
  obtain ⟨d, w, _, _, h⟩ := enqueuePending_cases io g p s
  rw [h]

theorem schedulePlayerFlush_failed (b : Build) (t : Bool) :
    (schedulePlayerFlush b io g t s).2.failedRecoveryGuids = s.failedRecoveryGuids := by
  cases b with
  | none => rfl
  | some qs =>
    unfold schedulePlayerFlush
    simp only
    split
    · rw [enqueuePending_failed]
      split <;> rfl
    · rw [dispatchPlayerFlush_failed]
      split <;> rfl

theorem savePlayerSync_failed (b : Build) (tries : Nat → Nat → Attempt) :
    (savePlayerSync b io tries g s).2.failedRecoveryGuids = s.failedRecoveryGuids := by
  unfold savePlayerSync
  split
  · cases b with
    | none => rfl
    | some qs => exact enqueuePending_failed io g _ _
  cases b with
  | none => rfl
  | some qs =>
    simp only
    split
    · rfl
    · exact dispatchPlayerFlush_failed io g _ _

theorem onPlayerFlushed_failed (del t b : Bool) (save : PlayerSaveSnapshot) :
    (onPlayerFlushed io del g t b save s).failedRecoveryGuids = s.failedRecoveryGuids := by
  unfold onPlayerFlushed continueChain
  simp only
  split
  · cases b
    · exact completeIf_failed _ t
    · cases del
      · exact completeIf_failed _ t
      · exact completeIf_failed _ t
  · rw [dispatchPlayerFlush_failed]
    exact completeIf_failed _ t

end

/-- The marks stay until the next start. -/
theorem step_failed (s : St) (e : Ev) (he : ∀ r, e ≠ .crash r) :
    (step s e).failedRecoveryGuids = s.failedRecoveryGuids := by
  unfold step
  split
  · grind [saveAllStart]
  · exact schedulePlayerFlush_failed _ _ _ _ _
  · rfl
  · unfold saveAllMap
    split
    · exact completeIf_failed _ true
    · rfl
  · exact schedulePlayerFlush_failed _ _ _ _ _
  · exact savePlayerSync_failed _ _ _ _ _
  · rename_i l t io _
    obtain ⟨d, n, b, h⟩ := savePlayersSync_frame l t io s
    rw [h]
  · rfl
  · unfold poolRun
    split <;> rfl
  · split
    · rfl
    rename_i t _
    cases t with
    | flushed g t b save => exact onPlayerFlushed_failed _ g _ _ t b save
    | drain g cb =>
      simp only [runTask]
      split <;> rfl
    | callback cb b => rfl
  · rename_i r
    exact absurd rfl (he r)
  · rfl

/-- The states of the process started after a recovery, until its next crash. -/
def Later (r : Recovery) (d : Disk) (n : Nat) : St → Prop :=
  Reach (· = boot (recoverPendingFlushes r d).1 (recoverPendingFlushes r d).2 n) step fun _ e => ∀ r, e ≠ .crash r

theorem Later.failed {r : Recovery} {n : Nat} {s : St} (h : Later r d n s) :
    s.failedRecoveryGuids = (recoverPendingFlushes r d).2 := by
  refine Reach.inv (I := fun s => s.failedRecoveryGuids = (recoverPendingFlushes r d).2) ?_ ?_ h
  · rintro s rfl
    rfl
  · intro s e he hs
    rw [step_failed s e he]
    exact hs

/-- The guid's log was replayed and committed. -/
def Replayed (r : Recovery) (d : Disk) (g : Guid) : Prop :=
  (recoverPendingFlushes r d).1.rows g = d.rows g ++ logged g d

/-- Each guid with logged rows is replayed and committed, or it is marked and no log
    write of the process started then changes the database. -/
def Protected (r : Recovery) (d : Disk) : Prop :=
  ∀ g, logged g d ≠ [] → Replayed r d g ∨ (g ∈ (recoverPendingFlushes r d).2 ∧
    ∀ n s, Later r d n s → ∀ io save, (savePendingFlushToDB io g save s).2.disk = s.disk)

/-- The log was read, and the guid's transaction began and, its statements accepted, committed. -/
def Answered (r : Recovery) (d : Disk) (g : Guid) : Prop :=
  r.select = true ∧ (r.tx g).begin = true ∧
    ((r.tx g).queries (logged g d).length = true → (r.tx g).commit ≠ .failed)

theorem replayed_iff {r : Recovery} (hl : logged g d ≠ []) :
    Replayed r d g ↔ r.select = true ∧ (r.tx g).applied (logged g d).length = true := by
  unfold Replayed
  rw [recover_rows]
  split
  · rename_i h
    simp [h]
  rename_i h
  simp only [h, iff_false]
  intro e
  exact hl (by simpa using e)

theorem Attempt.commit_applied (a : Attempt) : a.commit.applied = true ↔ a.commit ≠ .failed := by
  cases a.commit <;> simp [Outcome.applied]

/-- Exactly when every guid with logged rows was answered is every one of them protected. -/
theorem recovery_protects_iff (r : Recovery) (d : Disk) :
    Protected r d ↔ ∀ row ∈ d.wal, Answered r d row.guid := by
  constructor
  · intro h row hr
    have hl : logged row.guid d ≠ [] := logged_ne_nil.mpr ⟨row, hr, rfl⟩
    rcases h row.guid hl with hp | ⟨hf, _⟩
    · obtain ⟨hs, ha⟩ := (replayed_iff hl).mp hp
      simp only [Attempt.applied, Bool.and_eq_true] at ha
      exact ⟨hs, ha.1.1, fun _ => (Attempt.commit_applied _).mp ha.2⟩
    · obtain ⟨hs, _, hb, hq⟩ := (recover_failed r d row.guid).mp hf
      refine ⟨hs, hb, fun hq' => ?_⟩
      rw [hq] at hq'
      cases hq'
  · intro h g hl
    obtain ⟨row, hr, rfl⟩ := logged_ne_nil.mp hl
    obtain ⟨hs, hb, hc⟩ := h row hr
    cases hq : (r.tx row.guid).queries (logged row.guid d).length with
    | true =>
      refine .inl ((replayed_iff hl).mpr ⟨hs, ?_⟩)
      simp only [Attempt.applied, hb, hq, (Attempt.commit_applied _).mpr (hc hq), Bool.and_self]
    | false =>
      have hm : row.guid ∈ (recoverPendingFlushes r d).2 := (recover_failed r d _).mpr ⟨hs, hl, hb, hq⟩
      refine .inr ⟨hm, ?_⟩
      intro n s h io save
      have hm' : row.guid ∈ s.failedRecoveryGuids := by
        rw [h.failed]
        exact hm
      unfold savePendingFlushToDB
      rw [if_pos hm']

/-- A player with one logged statement whose recovery is refused its transaction. -/
def refusedDisk : Disk := ⟨fun _ => [], [⟨7, 0, ⟨0, "UPDATE"⟩⟩]⟩

def refusedRecovery : Recovery := ⟨true, fun _ => .refused, fun _ => true⟩

/-- The refused guid is neither replayed nor marked, and its next log write deletes the
    statement that was never replayed. -/
theorem refused_begin_unprotected :
    ¬ Protected refusedRecovery refusedDisk ∧ (recoverPendingFlushes refusedRecovery refusedDisk).2 = ∅ ∧
    ((dispatchPlayerFlush .good 7 ⟨⟨1, ["UPDATE"], by simp⟩, false⟩
      (boot (recoverPendingFlushes refusedRecovery refusedDisk).1 ∅ 1)).disk.wal.map (·.query.build)) = [1] := by
  refine ⟨?_, rfl, rfl⟩
  intro h
  have hl : logged 7 refusedDisk ≠ [] := logged_ne_nil.mpr ⟨⟨7, 0, ⟨0, "UPDATE"⟩⟩, by simp [refusedDisk], rfl⟩
  rcases h 7 hl with hp | ⟨hf, _⟩
  · have := ((replayed_iff hl).mp hp).2
    simp [refusedRecovery, Attempt.refused, Attempt.applied] at this
  · have := ((recover_failed refusedRecovery refusedDisk 7).mp hf).2.2.1
    simp [refusedRecovery, Attempt.refused] at this

end Backlands.Save
