/-
  Backlands.Save.Chain — the bookkeeping of the flush chains (see `Backlands.Save.Manager`).

  Proved, in every reachable state of any run (crashes and failures included):
  - `Chain`: a guid is in flight exactly when one flush of it is dispatched and not
    completed; a pending snapshot and a waiting callback belong to a guid in flight; the
    counter of tracked flushes counts the tracked ones in flight or pending, plus one
    while `saveAll` saves the map; `completeTrackedFlush` never runs at zero.
  - `Placed`: a callback handed to `drainPlayerFlushAsync` is in exactly one place, once:
    on its way to the dispatcher, waiting, posted, or run.
  - `waiting_posted`: a callback leaves the waiting list only by being posted.

  A dispatcher step takes a flush out of its queue before it settles it, so both are
  stated with what the step holds in its hands: a guid `h` and `k` tracked flushes.
-/

import Backlands.Save.Manager
import Backlands.Lib.Tally

namespace Backlands.Save

open Backlands.Db Backlands.Lib Function List

/-! ## What each operation does -/

variable {g : Guid} {save : PlayerSaveSnapshot} {row : WalRow}

theorem mem_walRows (h : row ∈ walRows g save) : row.guid = g ∧ row.query.build = save.build := by
  obtain ⟨p, hp, rfl⟩ := mem_map.mp h
  have hq : p.1 ∈ save.stmts := fst_mem_of_mem_zipIdx hp
  obtain ⟨q, _, hq⟩ := mem_map.mp hq
  exact ⟨rfl, by rw [← hq]⟩

theorem mem_walReplace_ne {d : Disk} (hne : row.guid ≠ g) (h : row ∈ (walReplace g save d).wal) : row ∈ d.wal := by
  rcases mem_append.mp h with h | h
  · exact mem_of_mem_filter h
  · exact absurd (mem_walRows h).1 hne

theorem mem_walReplace_self {d : Disk} (he : row.guid = g) (h : row ∈ (walReplace g save d).wal) :
    row.query.build = save.build := by
  rcases mem_append.mp h with h | h
  · exact absurd he (by simpa using (mem_filter.mp h).2)
  · exact (mem_walRows h).2

theorem savePendingFlushToDB_cases (io : Attempt) (g : Guid) (save : PlayerSaveSnapshot) (s : St) :
    (savePendingFlushToDB io g save s = (true, { s with disk := walReplace g save s.disk }) ∧
      g ∉ s.failedRecoveryGuids) ∨
    ∃ d, (d = s.disk ∨ d = walReplace g save s.disk ∧ g ∉ s.failedRecoveryGuids) ∧
      savePendingFlushToDB io g save s =
        (false, { s with disk := d, walFailed := update s.walFailed g true }) := by
  unfold savePendingFlushToDB
  by_cases hf : g ∈ s.failedRecoveryGuids
  · exact .inr ⟨s.disk, .inl rfl, by rw [if_pos hf]⟩
  rw [if_neg hf]
  rcases transaction_cases io (1 + save.queries.length) (walReplace g save) s.disk with h | ⟨h, _⟩
  · simp only [h]
    by_cases ho : io.ok (1 + save.queries.length) = true
    · exact .inl ⟨by rw [if_pos ho], hf⟩
    · exact .inr ⟨_, .inr ⟨rfl, hf⟩, by rw [if_neg ho]⟩
  · simp [h]

def abandon (g : Guid) (b : Bool) (s : St) : St :=
  postCallbacks g b { s with flushInFlight := s.flushInFlight.erase g, pendingFlushes := s.pendingFlushes.erase g }

/-- A dispatch logs the snapshot and hands it to the pool, or gives the chain up. -/
theorem dispatchPlayerFlush_cases (io : Attempt) (g : Guid) (p : PendingPlayerFlush) (s : St) :
    (dispatchPlayerFlush io g p s =
      { s with
        disk := walReplace g p.save s.disk
        pool := s.pool ++ [(g, p)]
        started := update s.started g (s.started g ++ [p.save.build]) } ∧ g ∉ s.failedRecoveryGuids) ∨
    ∃ d, (d = s.disk ∨ d = walReplace g p.save s.disk ∧ g ∉ s.failedRecoveryGuids) ∧
      dispatchPlayerFlush io g p s = completeIf p.trackedBySaveAll
        (abandon g false { s with disk := d, walFailed := update s.walFailed g true }) := by
  unfold dispatchPlayerFlush
  rcases savePendingFlushToDB_cases io g p.save s with ⟨h, hf⟩ | ⟨d, hd, h⟩
  · exact .inl ⟨by simp [h], hf⟩
  · refine .inr ⟨d, hd, ?_⟩
    simp only [h, Bool.false_eq_true, if_false]
    rfl

theorem enqueuePending_cases (io : Attempt) (g : Guid) (p : PendingPlayerFlush) (s : St) :
    ∃ d w, ((d = walReplace g p.save s.disk ∧ w = s.walFailed) ∨
        ((d = s.disk ∨ d = walReplace g p.save s.disk) ∧ w = update s.walFailed g true)) ∧
      (d = s.disk ∨ g ∉ s.failedRecoveryGuids) ∧
      enqueuePending io g p s =
        { s with disk := d, walFailed := w, pendingFlushes := s.pendingFlushes.insert g p } := by
  unfold enqueuePending
  rcases savePendingFlushToDB_cases io g p.save s with ⟨h, hf⟩ | ⟨d, hd, h⟩
  · exact ⟨_, _, .inl ⟨rfl, rfl⟩, .inr hf, by simp [h]⟩
  · refine ⟨d, _, .inr ⟨?_, rfl⟩, ?_, by simp [h]⟩
    · rcases hd with rfl | ⟨rfl, _⟩ <;> simp
    · grind

/-- How often a flush applies its snapshot. -/
def flushTimes (io : Nat → Attempt) (save : PlayerSaveSnapshot) : Nat :=
  times io save.queries.length TRANSACTION_MAX_ATTEMPTS

def flushAnswer (io : Nat → Attempt) (save : PlayerSaveSnapshot) : Bool :=
  answer io save.queries.length TRANSACTION_MAX_ATTEMPTS

/-- The same over the `k` tries of a synchronous save, the first of them `io (k - 1)`. -/
def triesTimes (io : Nat → Nat → Attempt) (save : PlayerSaveSnapshot) : Nat → Nat
  | 0 => 0
  | k + 1 => flushTimes (io k) save + if flushAnswer (io k) save then 0 else triesTimes io save k

def triesAnswer (io : Nat → Nat → Attempt) (save : PlayerSaveSnapshot) : Nat → Bool
  | 0 => false
  | k + 1 => flushAnswer (io k) save || triesAnswer io save k

variable {k : Nat} {s : St}

theorem flushPlayerSave_eq (io : Nat → Attempt) (g : Guid) (save : PlayerSaveSnapshot) (d : Disk) :
    flushPlayerSave io g save d = (flushAnswer io save, (commitSave g save)^[flushTimes io save] d) :=
  execute_eq io _ _ d

theorem flushTries_eq (io : Nat → Nat → Attempt) (g : Guid) (save : PlayerSaveSnapshot) (k : Nat) (d : Disk) :
    flushTries io g save k d = (triesAnswer io save k, (commitSave g save)^[triesTimes io save k] d) := by
  induction k generalizing d with
  | zero => rfl
  | succ k ih =>
    simp only [flushTries, flushPlayerSave_eq, triesAnswer, triesTimes]
    cases flushAnswer (io k) save with
    | true => simp
    | false =>
      simp only [Bool.false_eq_true, if_false, Bool.false_or, ih]
      rw [Nat.add_comm, iterate_add_apply]

theorem triesTimes_pos {io : Nat → Nat → Attempt} (h : triesAnswer io save k = true) : 0 < triesTimes io save k := by
  induction k with
  | zero => simp [triesAnswer] at h
  | succ k ih =>
    simp only [triesAnswer, triesTimes] at h ⊢
    cases hf : flushAnswer (io k) save with
    | true =>
      have : 0 < flushTimes (io k) save := times_pos hf
      omega
    | false =>
      have := ih (by simpa [hf] using h)
      simp only [Bool.false_eq_true, if_false]
      omega

theorem commitSave_iterate (g : Guid) (save : PlayerSaveSnapshot) (m : Nat) (d : Disk) :
    (commitSave g save)^[m] d =
      { d with rows := update d.rows g (d.rows g ++ (List.replicate m save.stmts).flatten) } := by
  induction m generalizing d with
  | zero => simp
  | succ m ih =>
    rw [iterate_succ_apply, ih]
    simp [commitSave, replicate_succ, append_assoc]

theorem savePlayerSync_direct (hg : g ∉ s.flushInFlight) (hp : g ∉ s.pendingFlushes)
    (qs : { qs : List String // qs ≠ [] }) (wal : Attempt) (io : Nat → Nat → Attempt) :
    savePlayerSync (some qs) wal io g s =
      (triesAnswer io (snapshot qs s) 3,
        { noteBuilt g s with
          disk := { s.disk with
            rows := update s.disk.rows g
              (s.disk.rows g ++ (List.replicate (triesTimes io (snapshot qs s) 3) (snapshot qs s).stmts).flatten) }
          started := update s.started g (s.started g ++ [s.next])
          finished := update s.finished g (some (s.next, triesAnswer io (snapshot qs s) 3)) }) := by
  have hl : s.pendingFlushes.lookup g = none := AList.lookup_eq_none.mpr hp
  unfold savePlayerSync
  rw [if_neg hg]
  simp only [noteBuilt, hl, flushTries_eq, commitSave_iterate]
  rfl

/-! ## Counting -/

def isFlushed (g : Guid) : Task → Bool
  | .flushed g' _ _ _ => g' = g
  | _ => false

def isTracked : Task → Bool
  | .flushed _ t _ _ => t
  | _ => false

def carries (c : Callback) : Task → Bool
  | .drain _ c' => c' = c
  | .callback c' _ => c' = c
  | .flushed .. => false

/-- The flushes of a guid that are dispatched and not completed. -/
def outstanding (g : Guid) (s : St) : Nat := s.pool.countP (·.1 = g) + s.tasks.countP (isFlushed g)

def trackedFlushes (s : St) : Nat :=
  s.pool.countP (·.2.trackedBySaveAll) + s.tasks.countP isTracked + tally (·.trackedBySaveAll) s.pendingFlushes

/-- One while `saveAll` saves the map. -/
def savingMap (s : St) : Nat :=
  match s.phase with
  | .map _ => 1
  | _ => 0

def places (c : Callback) (s : St) : Nat :=
  s.tasks.countP (carries c) + s.flushChainCallbacks.countP (·.2 = c) + s.invoked.countP (·.1 = c)

def held (h : Option Guid) (g : Guid) : Nat := unit (decide (h = some g))

structure Chain (h : Option Guid) (k : Nat) (s : St) : Prop where
  one : ∀ g, outstanding g s + held h g = unit (decide (g ∈ s.flushInFlight))
  pending : ∀ g, g ∈ s.pendingFlushes → g ∈ s.flushInFlight
  counter : s.pendingSaveFlushes = trackedFlushes s + savingMap s + k
  waiting : ∀ p ∈ s.flushChainCallbacks, p.1 ∈ s.flushInFlight
  noUnderflow : s.underflow = false

variable {h : Option Guid} {t : Bool} {i : Nat}

theorem countP_callbacks_flushed (g : Guid) (b : Bool) (l : List (Guid × Callback)) :
    (l.map fun p => Task.callback p.2 b).countP (isFlushed g) = 0 := by
  simp [countP_eq_zero, isFlushed]

theorem countP_callbacks_tracked (b : Bool) (l : List (Guid × Callback)) :
    (l.map fun p => Task.callback p.2 b).countP isTracked = 0 := by
  rw [countP_eq_zero]
  intro t ht
  obtain ⟨p, _, rfl⟩ := mem_map.mp ht
  simp [isTracked]

@[simp] theorem held_none (g : Guid) : held none g = 0 := rfl

theorem held_self (g : Guid) : held (some g) g = 1 := by simp [held]

theorem held_ne {g' : Guid} (h : g' ≠ g) : held (some g) g' = 0 := by
  simp [held, Ne.symm h]

theorem Chain.requeue (hc : Chain h k s) (ts : List Task)
    (hf : ∀ g, ts.countP (isFlushed g) = s.tasks.countP (isFlushed g))
    (ht : ts.countP isTracked = s.tasks.countP isTracked) : Chain h k { s with tasks := ts } := by
  refine { hc with one := fun g => ?_, counter := ?_ }
  · have := hc.one g
    simp only [outstanding] at this ⊢
    rw [hf]
    exact this
  · have := hc.counter
    simp only [trackedFlushes, savingMap] at this ⊢
    rw [ht]
    exact this

theorem Chain.rephase (hc : Chain none 0 s) (ph : Phase) (h : savingMap { s with phase := ph } = savingMap s) :
    Chain none 0 { s with phase := ph } := by
  refine { hc with counter := ?_ }
  have := hc.counter
  rw [h]
  exact this

theorem Chain.complete (hc : Chain h (k + 1) s) : Chain h k (completeTrackedFlush s) := by
  have hn := hc.counter
  unfold completeTrackedFlush
  split
  · omega
  split
  · refine { hc with counter := ?_ }
    show 0 = trackedFlushes s + savingMap s + k
    omega
  · refine { hc with counter := ?_ }
    show s.pendingSaveFlushes - 1 = trackedFlushes s + savingMap s + k
    omega

theorem Chain.completeIf (hc : Chain h (unit t) s) : Chain h 0 (completeIf t s) := by
  cases t
  · exact hc
  · exact hc.complete

theorem Chain.abandon (b : Bool) (hc : Chain (some g) k s) (hp : g ∉ s.pendingFlushes) :
    Chain none k (abandon g b s) := by
  have hl : s.pendingFlushes.lookup g = none := AList.lookup_eq_none.mpr hp
  have ht := tally_erase (fun p : PendingPlayerFlush => p.trackedBySaveAll) g s.pendingFlushes
  rw [share_eq_zero _ hl] at ht
  refine ⟨fun g' => ?_, fun g' h' => ?_, ?_, fun p h' => ?_, hc.noUnderflow⟩
  · have := hc.one g'
    simp only [outstanding, Save.abandon, postCallbacks, countP_append, countP_callbacks_flushed, Nat.add_zero,
      held_none] at this ⊢
    by_cases e : g' = g
    · subst e
      rw [held_self] at this
      have hle := unit_le_one (decide (g' ∈ s.flushInFlight))
      simp only [Finset.mem_erase, ne_eq, not_true_eq_false, false_and, decide_false, unit_false]
      omega
    · rw [held_ne e] at this
      simpa [Finset.mem_erase, e] using this
  · obtain ⟨hne, hm⟩ := AList.mem_erase.mp h'
    exact Finset.mem_erase.mpr ⟨hne, hc.pending g' hm⟩
  · have := hc.counter
    simp only [trackedFlushes, Save.abandon, postCallbacks, countP_append, countP_callbacks_tracked,
      savingMap] at this ⊢
    omega
  · simp only [Save.abandon, postCallbacks, mem_filter, decide_eq_true_eq] at h'
    exact Finset.mem_erase.mpr ⟨h'.2, hc.waiting p h'.1⟩

theorem Chain.dispatch {p : PendingPlayerFlush} (io : Attempt) (hc : Chain (some g) (unit p.trackedBySaveAll) s)
    (hp : g ∉ s.pendingFlushes) : Chain none 0 (dispatchPlayerFlush io g p s) := by
  rcases dispatchPlayerFlush_cases io g p s with ⟨h, _⟩ | ⟨d, _, h⟩
  · rw [h]
    refine { hc with one := fun g' => ?_, counter := ?_ }
    · have := hc.one g'
      simp only [outstanding, countP_snoc, held_none] at this ⊢
      by_cases e : g' = g
      · subst e
        rw [held_self] at this
        simp only [decide_true, unit_true]
        omega
      · rw [held_ne e] at this
        have e' : ¬ g = g' := fun h => e h.symm
        simp only [e', decide_false, unit_false]
        omega
    · have := hc.counter
      simp only [trackedFlushes, countP_snoc, savingMap] at this ⊢
      omega
  · rw [h]
    have hc' : Chain (some g) (unit p.trackedBySaveAll)
        { s with disk := d, walFailed := update s.walFailed g true } :=
      { hc with }
    exact (hc'.abandon false hp).completeIf

theorem Chain.free (hc : Chain none 0 s) (hg : g ∉ s.flushInFlight) : outstanding g s = 0 ∧ g ∉ s.pendingFlushes := by
  refine ⟨?_, fun h => hg (hc.pending g h)⟩
  have := hc.one g
  simpa [hg] using this

theorem Chain.take (hc : Chain none 0 s) (hg : g ∉ s.flushInFlight) :
    Chain (some g) 0 { s with flushInFlight := insert g s.flushInFlight } := by
  refine ⟨fun g' => ?_, fun g' h => Finset.mem_insert_of_mem (hc.pending g' h), hc.counter,
    fun p h => Finset.mem_insert_of_mem (hc.waiting p h), hc.noUnderflow⟩
  have := hc.one g'
  by_cases e : g' = g
  · subst e
    show outstanding g' s + _ = _
    rw [(hc.free hg).1, held_self]
    simp
  · rw [held_ne e]
    simpa [Finset.mem_insert, e, outstanding] using this

theorem Chain.begin {h : Option Guid} {k : Nat} {s : St} (hc : Chain h k s) : Chain h (k + 1) (beginTrackedFlush s) := by
  refine { hc with counter := ?_ }
  have := hc.counter
  show s.pendingSaveFlushes + 1 = trackedFlushes s + savingMap s + (k + 1)
  omega

theorem share_pendingTracked (g : Guid) (s : St) :
    share (·.trackedBySaveAll) g s.pendingFlushes = unit (pendingTracked g s) := by
  unfold share pendingTracked
  cases s.pendingFlushes.lookup g <;> rfl

/-- Queueing a snapshot behind a flush keeps the chain: what it adds to the tally of
    tracked snapshots over the one it replaces is in the step's hands. -/
theorem Chain.enqueue {p : PendingPlayerFlush} (io : Attempt) (hc : Chain none k s) (hg : g ∈ s.flushInFlight)
    (hk : k + unit (pendingTracked g s) = unit p.trackedBySaveAll) : Chain none 0 (enqueuePending io g p s) := by
  obtain ⟨d, w, _, _, h⟩ := enqueuePending_cases io g p s
  rw [h]
  refine { hc with pending := fun g' h' => ?_, counter := ?_ }
  · rcases (AList.mem_insert _).mp h' with rfl | h'
    · exact hg
    · exact hc.pending g' h'
  · have hn := hc.counter
    have ht := tally_insert (fun q : PendingPlayerFlush => q.trackedBySaveAll) g p s.pendingFlushes
    rw [share_pendingTracked] at ht
    simp only [trackedFlushes, savingMap] at hn ⊢
    omega

theorem Chain.schedule (hc : Chain none 0 s) (b : Build) (io : Attempt) (g : Guid) (t : Bool) :
    Chain none 0 (schedulePlayerFlush b io g t s).2 := by
  cases b with
  | none => exact hc
  | some qs =>
    have hb : Chain none 0 (noteBuilt g s) := { hc with }
    unfold schedulePlayerFlush
    simp only
    by_cases hg : g ∈ (noteBuilt g s).flushInFlight
    · rw [if_pos hg]
      cases ht : t && !pendingTracked g (noteBuilt g s)
      · refine hb.enqueue io hg ?_
        cases h1 : pendingTracked g (noteBuilt g s) <;> cases h2 : t <;> simp_all
      simp only [Bool.and_eq_true, Bool.not_eq_true'] at ht
      refine hb.begin.enqueue io hg ?_
      have : pendingTracked g (beginTrackedFlush (noteBuilt g s)) = false := ht.2
      simp [this, ht.1]
    · rw [if_neg hg]
      have hp := (hb.free hg).2
      cases t
      · exact (hb.take hg).dispatch io hp
      · exact (hb.take hg).begin.dispatch io hp

theorem Chain.continue (hc : Chain (some g) 0 s) (io : Attempt) (del b : Bool) :
    Chain none 0 (continueChain io del g b s) := by
  unfold continueChain
  cases hl : s.pendingFlushes.lookup g with
  | none =>
    have hp : g ∉ s.pendingFlushes := AList.lookup_eq_none.mp hl
    have he : s.pendingFlushes.erase g = s.pendingFlushes := AList.ext (kerase_of_notMem_keys hp)
    have ha := hc.abandon b hp
    unfold Save.abandon at ha
    rw [he] at ha
    cases b
    · exact ha
    · cases del
      · exact ha
      · exact { ha with }
  | some p =>
    refine Chain.dispatch io { hc with pending := fun g' h' => ?_, counter := ?_ } (by simp)
    · exact hc.pending g' (AList.mem_erase.mp h').2
    have hn := hc.counter
    have ht := tally_erase (fun q : PendingPlayerFlush => q.trackedBySaveAll) g s.pendingFlushes
    rw [share_eq _ hl] at ht
    simp only [trackedFlushes, savingMap] at hn ⊢
    omega

theorem Chain.flushed (hc : Chain (some g) (unit t) s) (io : Attempt) (del b : Bool) (save : PlayerSaveSnapshot) :
    Chain none 0 (onPlayerFlushed io del g t b save s) := by
  have h0 : Chain (some g) (unit t) { s with finished := update s.finished g (some (save.build, b)) } :=
    { hc with }
  exact h0.completeIf.continue io del b

theorem Chain.sync (hc : Chain none 0 s) (b : Build) (wal : Attempt) (io : Nat → Nat → Attempt) (g : Guid) :
    Chain none 0 (savePlayerSync b wal io g s).2 := by
  by_cases hg : g ∈ s.flushInFlight
  · unfold savePlayerSync
    rw [if_pos hg]
    cases b with
    | none => exact hc
    | some qs =>
      have hb : Chain none 0 (noteBuilt g s) := { hc with }
      exact hb.enqueue wal hg (by simp)
  · cases b with
    | none => simpa [savePlayerSync] using hc
    | some qs =>
      rw [savePlayerSync_direct hg (hc.free hg).2]
      exact { hc with }

theorem buildAll_frame : ∀ (l : List (Guid × Build)) (acc : List (Guid × PlayerSaveSnapshot)) (s : St),
    ∃ n b, (buildAll l acc s).2 = { s with next := n, built := b } := by
  intro l
  induction l with
  | nil => intro acc s; exact ⟨_, _, rfl⟩
  | cons x l ih =>
    intro acc s
    obtain ⟨g, b⟩ := x
    simp only [buildAll]
    split
    · exact ⟨_, _, rfl⟩
    cases b with
    | none => exact ⟨_, _, rfl⟩
    | some qs =>
      obtain ⟨n, b, h⟩ := ih (acc ++ [(g, snapshot qs s)]) (noteBuilt g s)
      exact ⟨n, b, by rw [h]; rfl⟩

theorem savePlayersSync_frame (l : List (Guid × Build)) (t : Bool) (io : Nat → Attempt) (s : St) :
    ∃ d n b, (savePlayersSync l t io s).2 = { s with disk := d, next := n, built := b } := by
  unfold savePlayersSync
  split
  · exact ⟨_, _, _, rfl⟩
  split
  · exact ⟨_, _, _, rfl⟩
  obtain ⟨n, b, h⟩ := buildAll_frame l [] s
  cases hr : buildAll l [] s with
  | mk r s' =>
    rw [hr] at h
    subst h
    cases r with
    | none => exact ⟨_, _, _, rfl⟩
    | some saves => exact ⟨_, _, _, rfl⟩

theorem Chain.takeTask (hc : Chain none 0 s) {b : Bool} (hi : s.tasks[i]? = some (.flushed g t b save)) :
    Chain (some g) (unit t) { s with tasks := s.tasks.eraseIdx i } := by
  refine { hc with one := fun g' => ?_, counter := ?_ }
  · have := hc.one g'
    have he := countP_eraseIdx (isFlushed g') s.tasks i _ hi
    rw [held_none] at this
    simp only [outstanding, isFlushed, held, Option.some.injEq] at this he ⊢
    omega
  · have hn := hc.counter
    have he := countP_eraseIdx isTracked s.tasks i _ hi
    simp only [trackedFlushes, savingMap, isTracked] at hn he ⊢
    omega

theorem Chain.dropTask (hc : Chain none 0 s) {t : Task} (hi : s.tasks[i]? = some t) (hf : ∀ g, isFlushed g t = false)
    (ht : isTracked t = false) : Chain none 0 { s with tasks := s.tasks.eraseIdx i } := by
  refine hc.requeue _ (fun g => ?_) ?_
  · have := countP_eraseIdx (isFlushed g) s.tasks i _ hi
    rw [hf, unit_false] at this
    exact this
  · have := countP_eraseIdx isTracked s.tasks i _ hi
    rw [ht, unit_false] at this
    exact this

theorem Chain.taskRun (hc : Chain none 0 s) {t : Task} (hi : s.tasks[i]? = some t) (wal : Attempt) (del : Bool) :
    Chain none 0 (runTask wal del t { s with tasks := s.tasks.eraseIdx i }) := by
  cases t with
  | flushed g t b save => exact (hc.takeTask hi).flushed wal del b save
  | drain g cb =>
    have h0 := hc.dropTask hi (fun _ => rfl) rfl
    simp only [runTask]
    split
    · rename_i hp
      refine { h0 with waiting := fun p hp' => ?_ }
      rcases mem_append.mp hp' with hp' | hp'
      · exact h0.waiting p hp'
      simp only [mem_singleton] at hp'
      subst hp'
      simp only [hasPendingPlayerSave, Bool.or_eq_true, decide_eq_true_eq] at hp
      rcases hp with hp | hp
      · exact hp
      · exact hc.pending g (AList.lookup_isSome.mp hp)
    · exact h0.requeue _ (fun g' => countP_snoc _ _ _) (countP_snoc _ _ _)
  | callback cb b =>
    have h0 := hc.dropTask hi (fun _ => rfl) rfl
    exact { h0 with }

theorem Chain.poolRun (hc : Chain none 0 s) (io : Nat → Attempt) (i : Nat) : Chain none 0 (poolRun io i s) := by
  unfold Save.poolRun
  cases hi : s.pool[i]? with
  | none => exact hc
  | some j =>
    refine { hc with one := fun g' => ?_, counter := ?_ }
    · have := hc.one g'
      have he := countP_eraseIdx (fun j : Guid × PendingPlayerFlush => decide (j.1 = g')) s.pool i _ hi
      simp only [outstanding, countP_snoc, isFlushed] at this he ⊢
      omega
    · have hn := hc.counter
      have he := countP_eraseIdx (fun j : Guid × PendingPlayerFlush => j.2.trackedBySaveAll) s.pool i _ hi
      simp only [trackedFlushes, countP_snoc, isTracked, savingMap] at hn he ⊢
      omega

theorem Chain.boot (d : Disk) (f : Finset Guid) (n : Nat) : Chain none 0 (boot d f n) := by
  refine ⟨fun g => rfl, fun g h => ?_, rfl, fun p h => ?_, rfl⟩
  · exact absurd h (AList.notMem_empty g)
  · cases h

theorem Chain.step {s : St} (hc : Chain none 0 s) (e : Ev) : Chain none 0 (step s e) := by
  unfold Save.step
  split
  · unfold saveAllStart
    rename_i players hp
    split
    · exact hc
    split
    · exact { hc with }
    · have h1 := hc.rephase (.players players) (by simp [savingMap, hp])
      exact { h1 with }
  · rename_i b wal g rest hp
    exact (hc.rephase (.players rest) (by simp [savingMap, hp])).schedule b wal g true
  · rename_i hp
    refine { hc with counter := ?_ }
    have := hc.counter
    simp only [savingMap, hp, trackedFlushes, beginTrackedFlush] at this ⊢
    omega
  · rename_i ok tries hp
    unfold saveAllMap
    split
    · refine Chain.complete { hc with counter := ?_ }
      have := hc.counter
      simp only [savingMap, hp, trackedFlushes] at this ⊢
      omega
    · exact hc.rephase _ (by simp [savingMap, hp])
  · exact hc.schedule _ _ _ false
  · exact hc.sync _ _ _ _
  · rename_i l t io _
    obtain ⟨d, n, b, h⟩ := savePlayersSync_frame l t io s
    rw [h]
    exact { hc with }
  · rename_i g
    have h1 := hc.requeue (s.tasks ++ [.drain g s.issued]) (fun g' => countP_snoc _ _ _) (countP_snoc _ _ _)
    exact { h1 with }
  · exact hc.poolRun _ _
  · split
    · exact hc
    · rename_i hi
      exact hc.taskRun hi _ _
  · exact Chain.boot _ _ _
  · exact hc

theorem chain {ok : St → Ev → Prop} (h : Reach Start step ok s) : Chain none 0 s := by
  refine h.inv (fun s hs => ?_) fun s e _ hc => hc.step e
  rw [hs]
  exact Chain.boot _ _ _

/-! ## Callbacks -/

/-- What an operation may do to callbacks: none is lost or copied, and one that stops
    waiting is posted, its guid no longer in flight. -/
structure Keeps (s s' : St) : Prop where
  issued : s'.issued = s.issued
  places : ∀ c, places c s' = places c s
  posted : ∀ t ∈ s.tasks, t ∈ s'.tasks
  flying : s'.flushInFlight ⊆ s.flushInFlight
  waiting : ∀ p ∈ s.flushChainCallbacks, p ∈ s'.flushChainCallbacks ∨
    p.1 ∉ s'.flushInFlight ∧ ∃ b, Task.callback p.2 b ∈ s'.tasks

theorem Keeps.of_eq {s' : St} (hf : s'.flushInFlight ⊆ s.flushInFlight := by exact Finset.Subset.refl _)
    (hi : s'.issued = s.issued := by rfl) (ht : s'.tasks = s.tasks := by rfl)
    (hc : s'.flushChainCallbacks = s.flushChainCallbacks := by rfl) (hv : s'.invoked = s.invoked := by rfl) : Keeps s s' := by
  refine ⟨hi, fun c => ?_, fun t h => ?_, hf, fun p h => .inl ?_⟩
  · unfold Save.places; rw [ht, hc, hv]
  · rw [ht]; exact h
  · rw [hc]; exact h

theorem Keeps.refl (s : St) : Keeps s s := .of_eq

theorem Keeps.trans {a b c : St} (h : Keeps a b) (h' : Keeps b c) : Keeps a c := by
  refine ⟨h'.issued.trans h.issued, fun x => (h'.places x).trans (h.places x), fun t ht => h'.posted t (h.posted t ht),
    h'.flying.trans h.flying, fun p hp => ?_⟩
  rcases h.waiting p hp with hp | ⟨hn, b, hb⟩
  · exact h'.waiting p hp
  · exact .inr ⟨fun hf => hn (h'.flying hf), b, h'.posted _ hb⟩

theorem countP_split (g : Guid) (q : Guid × Callback → Bool) (l : List (Guid × Callback)) :
    (l.filter (·.1 = g)).countP q + (l.filter (·.1 ≠ g)).countP q = l.countP q := by
  induction l with
  | nil => rfl
  | cons x l ih =>
    by_cases e : x.1 = g
    · simp only [e, filter_cons, decide_true, if_true, countP_cons, ne_eq, not_true_eq_false, decide_false,
        Bool.false_eq_true, if_false] at ih ⊢
      omega
    · simp only [e, filter_cons, decide_false, Bool.false_eq_true, if_false, countP_cons, ne_eq,
        not_false_eq_true, decide_true, if_true] at ih ⊢
      omega

theorem Keeps.post (b : Bool) (hg : g ∉ s.flushInFlight) : Keeps s (postCallbacks g b s) := by
  refine ⟨rfl, fun c => ?_, fun t h => mem_append_left _ h, Finset.Subset.refl _, fun p hp => ?_⟩
  · have hc : ((s.flushChainCallbacks.filter (·.1 = g)).map fun p => Task.callback p.2 b).countP (carries c) =
        (s.flushChainCallbacks.filter (·.1 = g)).countP (·.2 = c) := by
      rw [countP_map]
      rfl
    have := countP_split g (·.2 = c) s.flushChainCallbacks
    simp only [Save.places, postCallbacks, countP_append, hc]
    omega
  · by_cases e : p.1 = g
    · refine .inr ⟨by rw [e]; exact hg, b, mem_append_right _ ?_⟩
      exact mem_map.mpr ⟨p, mem_filter.mpr ⟨hp, by simp [e]⟩, rfl⟩
    · exact .inl (mem_filter.mpr ⟨hp, by simp [e]⟩)

theorem Keeps.completeIf (t : Bool) (s : St) : Keeps s (completeIf t s) := by
  cases t
  · exact .refl s
  show Keeps s (completeTrackedFlush s)
  unfold completeTrackedFlush
  split
  · exact .of_eq
  · split <;> exact .of_eq

theorem Keeps.abandon (g : Guid) (b : Bool) (s : St) : Keeps s (abandon g b s) := by
  have h0 : Keeps s
      { s with flushInFlight := s.flushInFlight.erase g, pendingFlushes := s.pendingFlushes.erase g } :=
    .of_eq (Finset.erase_subset _ _)
  exact h0.trans (.post b (by simp))

theorem Keeps.dispatch (io : Attempt) (g : Guid) (p : PendingPlayerFlush) (s : St) :
    Keeps s (dispatchPlayerFlush io g p s) := by
  rcases dispatchPlayerFlush_cases io g p s with ⟨h, _⟩ | ⟨d, _, h⟩
  · rw [h]
    exact .of_eq
  rw [h]
  have h0 : Keeps s { s with disk := d, walFailed := update s.walFailed g true } := .of_eq
  exact (h0.trans (.abandon g false _)).trans (.completeIf _ _)

theorem Keeps.enqueue (io : Attempt) (g : Guid) (p : PendingPlayerFlush) (s : St) :
    Keeps s (enqueuePending io g p s) := by
  obtain ⟨d, w, _, _, h⟩ := enqueuePending_cases io g p s
  rw [h]
  exact .of_eq

theorem Keeps.continue (io : Attempt) (del : Bool) (g : Guid) (b : Bool) (s : St) :
    Keeps s (continueChain io del g b s) := by
  unfold continueChain
  cases s.pendingFlushes.lookup g with
  | none =>
    have h0 : Keeps s { s with flushInFlight := s.flushInFlight.erase g } := .of_eq (Finset.erase_subset _ _)
    refine h0.trans ?_
    cases b
    · exact .post false (by simp)
    have h1 : Keeps { s with flushInFlight := s.flushInFlight.erase g }
        (deletePendingFlushFromDB del g { s with flushInFlight := s.flushInFlight.erase g }) := by
      cases del <;> exact .of_eq
    refine h1.trans (.post true ?_)
    cases del <;> simp [deletePendingFlushFromDB]
  | some p =>
    have h0 : Keeps s { s with pendingFlushes := s.pendingFlushes.erase g } := .of_eq
    exact h0.trans (.dispatch io g p _)

theorem Keeps.flushed (io : Attempt) (del : Bool) (g : Guid) (t b : Bool) (save : PlayerSaveSnapshot) (s : St) :
    Keeps s (onPlayerFlushed io del g t b save s) := by
  have h0 : Keeps s { s with finished := update s.finished g (some (save.build, b)) } := .of_eq
  exact (h0.trans (.completeIf t _)).trans (.continue io del g b _)

/-- The callbacks' part of `Keeps`, for a step that may put a guid in flight. -/
structure Moves (s s' : St) : Prop where
  issued : s'.issued = s.issued
  places : ∀ c, places c s' = places c s
  posted : ∀ t ∈ s.tasks, t ∈ s'.tasks
  waiting : ∀ p ∈ s.flushChainCallbacks, p ∈ s'.flushChainCallbacks ∨
    p.1 ∉ s'.flushInFlight ∧ ∃ b, Task.callback p.2 b ∈ s'.tasks

theorem Keeps.moves {s' : St} (h : Keeps s s') : Moves s s' := { h with }

theorem Keeps.after_take {s' : St} {f : Finset Guid} (h : Keeps { s with flushInFlight := f } s') : Moves s s' :=
  { h with }

theorem schedulePlayerFlush_moves (b : Build) (io : Attempt) (g : Guid) (t : Bool) (s : St) :
    Moves s (schedulePlayerFlush b io g t s).2 := by
  cases b with
  | none => exact (Keeps.refl s).moves
  | some qs =>
    have h0 : Keeps s (noteBuilt g s) := .of_eq
    unfold schedulePlayerFlush
    simp only
    split
    · split
      · have h1 : Keeps (noteBuilt g s) (beginTrackedFlush (noteBuilt g s)) := .of_eq
        exact ((h0.trans h1).trans (.enqueue io g _ _)).moves
      · exact (h0.trans (.enqueue io g _ _)).moves
    · have h1 : Keeps { s with flushInFlight := insert g s.flushInFlight }
          { noteBuilt g s with flushInFlight := insert g (noteBuilt g s).flushInFlight } := .of_eq
      cases t
      · exact (h1.trans (.dispatch io g _ _)).after_take
      have h2 : Keeps { noteBuilt g s with flushInFlight := insert g (noteBuilt g s).flushInFlight }
          (beginTrackedFlush { noteBuilt g s with flushInFlight := insert g (noteBuilt g s).flushInFlight }) := .of_eq
      exact ((h1.trans h2).trans (.dispatch io g _ _)).after_take

theorem savePlayerSync_moves (b : Build) (wal : Attempt) (io : Nat → Nat → Attempt) (g : Guid) (s : St) :
    Moves s (savePlayerSync b wal io g s).2 := by
  unfold savePlayerSync
  split
  · cases b with
    | none => exact (Keeps.refl s).moves
    | some qs =>
      have h0 : Keeps s (noteBuilt g s) := .of_eq
      exact (h0.trans (.enqueue wal g _ _)).moves
  · cases b with
    | none => exact (Keeps.refl s).moves
    | some qs =>
      simp only
      split
      · exact ⟨rfl, fun _ => rfl, fun t ht => ht, fun p hp => .inl hp⟩
      · rename_i p _
        refine Keeps.after_take (f := insert g s.flushInFlight) (Keeps.trans ?_ (.dispatch wal g p _))
        exact .of_eq

def Placed (s : St) : Prop := ∀ c, places c s = unit (decide (c < s.issued))

theorem Placed.moves {s' : St} (hp : Placed s) (h : Moves s s') : Placed s' := by
  intro c
  rw [h.places, h.issued]
  exact hp c

theorem places_eraseIdx {t : Task} (hi : s.tasks[i]? = some t) (c : Callback) :
    places c { s with tasks := s.tasks.eraseIdx i } + unit (carries c t) = places c s := by
  have := countP_eraseIdx (carries c) s.tasks i t hi
  simp only [places]
  omega

theorem Placed.taskRun (hp : Placed s) {t : Task} (hi : s.tasks[i]? = some t) (wal : Attempt) (del : Bool) :
    Placed (runTask wal del t { s with tasks := s.tasks.eraseIdx i }) := by
  intro c
  have he := places_eraseIdx hi c
  have hc := hp c
  cases t with
  | flushed g t b save =>
    have hk := Keeps.flushed wal del g t b save { s with tasks := s.tasks.eraseIdx i }
    calc places c (onPlayerFlushed wal del g t b save { s with tasks := s.tasks.eraseIdx i })
        = places c s := (hk.places c).trans he
      _ = unit (decide (c < s.issued)) := hc
      _ = unit (decide (c < (onPlayerFlushed wal del g t b save { s with tasks := s.tasks.eraseIdx i }).issued)) :=
        congrArg (fun n => unit (decide (c < n))) hk.issued.symm
  | drain g cb =>
    simp only [runTask]
    split
    · refine Eq.trans ?_ hc
      rw [← he]
      simp only [places, countP_snoc, carries]
      omega
    · refine Eq.trans ?_ hc
      rw [← he]
      simp only [places, countP_snoc, carries]
      omega
  | callback cb b =>
    refine Eq.trans ?_ hc
    rw [← he]
    simp only [runTask, places, countP_snoc, carries]
    omega

theorem Placed.step {s : St} (hp : Placed s) (e : Ev) : Placed (step s e) := by
  unfold Save.step
  split
  · unfold saveAllStart
    split
    · exact hp
    · split <;> exact hp
  · rename_i b wal g rest _
    have h0 : Placed { s with phase := .players rest } := hp
    exact h0.moves (schedulePlayerFlush_moves b wal g true _)
  · exact hp
  · unfold saveAllMap
    split
    · have h0 : Placed { s with phase := .idle } := hp
      exact h0.moves (Keeps.completeIf true _).moves
    · exact hp
  · exact hp.moves (schedulePlayerFlush_moves _ _ _ _ _)
  · exact hp.moves (savePlayerSync_moves _ _ _ _ _)
  · rename_i l t io _
    obtain ⟨d, n, b, h⟩ := savePlayersSync_frame l t io s
    rw [h]
    exact hp
  · rename_i g
    intro c
    have h0 : places c (drainPlayerFlushAsync g s) = places c s + unit (decide (s.issued = c)) := by
      simp only [drainPlayerFlushAsync, places, countP_snoc, carries]
      omega
    rw [h0, hp c]
    show _ = unit (decide (c < s.issued + 1))
    by_cases e : c = s.issued
    · subst e
      simp
    have e' : ¬ s.issued = c := fun h => e h.symm
    have e'' : c < s.issued + 1 ↔ c < s.issued :=
      ⟨fun h => lt_of_le_of_ne (Nat.lt_succ_iff.mp h) e, Nat.lt_succ_of_lt⟩
    simp [e', e'']
  · unfold poolRun
    split
    · exact hp
    intro c
    have := hp c
    simp only [places, countP_snoc, carries, unit_false, Nat.add_zero] at this ⊢
    exact this
  · split
    · exact hp
    · rename_i hi
      exact hp.taskRun hi _ _
  · intro c
    rfl
  · exact hp

theorem placed {ok : St → Ev → Prop} (h : Reach Start step ok s) : Placed s := by
  refine h.inv (fun s hs => ?_) fun s e _ hp => hp.step e
  rw [hs]
  intro c
  rfl

theorem waiting_posted (s : St) (e : Ev) (he : ∀ r, e ≠ .crash r) (p : Guid × Callback)
    (hp : p ∈ s.flushChainCallbacks) : p ∈ (step s e).flushChainCallbacks ∨
      p.1 ∉ (step s e).flushInFlight ∧ ∃ b, Task.callback p.2 b ∈ (step s e).tasks := by
  unfold step
  split
  · grind [saveAllStart]
  · exact (schedulePlayerFlush_moves _ _ _ _ _).waiting p hp
  · exact .inl hp
  · unfold saveAllMap
    split
    · exact (Keeps.completeIf true _).waiting p hp
    · exact .inl hp
  · exact (schedulePlayerFlush_moves _ _ _ _ _).waiting p hp
  · exact (savePlayerSync_moves _ _ _ _ _).waiting p hp
  · rename_i l t io _
    obtain ⟨d, n, b, h⟩ := savePlayersSync_frame l t io s
    rw [h]
    exact .inl hp
  · exact .inl hp
  · grind [poolRun]
  · split
    · exact .inl hp
    rename_i t _
    cases t with
    | flushed g t b save => exact (Keeps.flushed _ _ g t b save _).waiting p hp
    | drain g cb =>
      grind [runTask]
    | callback cb b => exact .inl hp
  · rename_i r
    exact absurd rfl (he r)
  · exact .inl hp

theorem posted_invoked (s : St) (e : Ev) (he : ∀ r, e ≠ .crash r) (c : Callback) (b : Bool)
    (hp : Task.callback c b ∈ s.tasks) :
    Task.callback c b ∈ (step s e).tasks ∨ (c, b) ∈ (step s e).invoked := by
  unfold step
  split
  · grind [saveAllStart]
  · exact .inl ((schedulePlayerFlush_moves _ _ _ _ _).posted _ hp)
  · exact .inl hp
  · unfold saveAllMap
    split
    · exact .inl ((Keeps.completeIf true _).posted _ hp)
    · exact .inl hp
  · exact .inl ((schedulePlayerFlush_moves _ _ _ _ _).posted _ hp)
  · exact .inl ((savePlayerSync_moves _ _ _ _ _).posted _ hp)
  · rename_i l t io _
    obtain ⟨d, n, b, h⟩ := savePlayersSync_frame l t io s
    rw [h]
    exact .inl hp
  · exact .inl (mem_append_left _ hp)
  · grind [poolRun]
  · split
    · exact .inl hp
    rename_i i _ _ _ _ t hi
    rcases mem_eraseIdx_or s.tasks i t _ hi hp with rfl | hp
    · exact .inr (mem_append_right _ (mem_singleton.mpr rfl))
    refine .inl ?_
    cases t with
    | flushed g t b save => exact (Keeps.flushed _ _ g t b save _).posted _ hp
    | drain g cb =>
      simp only [runTask]
      split
      · exact hp
      · exact mem_append_left _ hp
    | callback cb b => exact hp
  · rename_i r
    exact absurd rfl (he r)
  · exact .inl hp

/-- The counter of tracked flushes is exact and never underflows; a waiting callback's
    guid is in flight, every callback handed over is in exactly one place (queued,
    waiting, posted or run), it leaves the waiting list exactly when its guid's chain
    ends, by being posted, and a posted one leaves the queue only by being run. -/
theorem tracked_counter_and_callbacks {s : St} (h : Reach Start step (fun _ _ => True) s) :
    s.pendingSaveFlushes = trackedFlushes s + savingMap s ∧ s.underflow = false ∧
    (∀ p ∈ s.flushChainCallbacks, p.1 ∈ s.flushInFlight) ∧
    (∀ c < s.issued, places c s = 1) ∧
    ∀ e, (∀ r, e ≠ .crash r) →
      (∀ p ∈ s.flushChainCallbacks,
        (p ∉ (step s e).flushChainCallbacks ↔ p.1 ∉ (step s e).flushInFlight) ∧
        (p ∉ (step s e).flushChainCallbacks → ∃ b, Task.callback p.2 b ∈ (step s e).tasks)) ∧
      ∀ c b, Task.callback c b ∈ s.tasks →
        Task.callback c b ∈ (step s e).tasks ∨ (c, b) ∈ (step s e).invoked := by
  have hc := chain h
  refine ⟨by simpa using hc.counter, hc.noUnderflow, hc.waiting, fun c hi => ?_, fun e he => ⟨fun p hp => ?_, ?_⟩⟩
  · rw [placed h c]
    simp [hi]
  · refine ⟨⟨fun hn => ?_, fun hn hm => hn ((hc.step e).waiting p hm)⟩, fun hn => ?_⟩
    · rcases waiting_posted s e he p hp with hm | ⟨hf, _⟩
      · exact absurd hm hn
      · exact hf
    · rcases waiting_posted s e he p hp with hm | ⟨_, hb⟩
      · exact absurd hm hn
      · exact hb
  · exact posted_invoked s e he

/-- A tracked save with a callback waiting for it: one flush is counted, and running its
    completion posts the callback. -/
theorem update_ne_nil : ["UPDATE"] ≠ [] := by simp

def waitingRun : List Ev :=
  [.saveAllStart 1 [7], .saveAllPlayer (some ⟨["UPDATE"], update_ne_nil⟩) .good, .saveAllMapBegin, .saveAllMap true,
    .drain 7, .taskRun 0 .good true]

theorem tracked_counter_and_callbacks_waitingRun :
    (run step init waitingRun).pendingSaveFlushes = trackedFlushes (run step init waitingRun) +
      savingMap (run step init waitingRun) ∧ (run step init waitingRun).flushChainCallbacks = [(7, 0)] ∧
      (run step init waitingRun).pendingSaveFlushes = 1 := by
  have h0 : Reach Start step (fun _ _ => True) init := .init rfl
  have hr := h0.run (by simp [waitingRun, Allowed] : Allowed step (fun _ _ => True) init waitingRun)
  exact ⟨(tracked_counter_and_callbacks hr).1, rfl, rfl⟩

end Backlands.Save
