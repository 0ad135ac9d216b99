/-
  Backlands.Save.Order — the order in which a player's snapshots are flushed
  (see `Backlands.Save.Manager`).

  `built g` lists the snapshots taken of a guid, `started g` those whose flush began, by a
  dispatch or by a synchronous save. A snapshot queued behind a flush may be superseded by
  a later one before it starts; none starts out of order.

  Proved, for every run from a started process over any database, of the dispatcher's
  calls and tasks and of the pool (not the batch `savePlayersSync`, which may drop the
  snapshots it built, nor a crash):
  - `Ordered`: what was started, followed by what is pending, is a sublist of what was
    built; a flush outstanding is the last one started; unless a log write of the guid
    failed, the last snapshot built is the last started or pending.
  - `flushes_in_order`: one flush at a time, pending only behind a flight, in order, and
    when the chain is idle after a success the last snapshot built is the last committed.

  Each operation touches one guid; `Same` is what it leaves of the others.
-/

import Backlands.Save.Chain

namespace Backlands.Save

open Backlands.Db Backlands.Lib Function List

/-- A started process over any database. -/
def Booted (s : St) : Prop := ∃ d f n, s = boot d f n

def OnChain : Ev → Prop
  | .savePlayersSync .. => False
  | .crash _ => False
  | _ => True

/-- The snapshot the last committed statement belongs to. -/
def lastBuild (l : List Stmt) : Option Nat := l.getLast?.map (·.build)

def queue (g : Guid) (s : St) : List Nat :=
  s.started g ++ ((s.pendingFlushes.lookup g).map (·.save.build)).toList

structure Ordered (g : Guid) (s : St) : Prop where
  increasing : (s.built g).Pairwise (· < ·)
  below : ∀ n ∈ s.built g, n < s.next
  order : (queue g s).Sublist (s.built g)
  last : s.walFailed g = false → (s.built g).getLast? = (queue g s).getLast?
  job : ∀ p, (g, p) ∈ s.pool → (s.started g).getLast? = some p.save.build
  done : ∀ t b save, Task.flushed g t b save ∈ s.tasks → (s.started g).getLast? = some save.build ∧
    (b = true → lastBuild (s.disk.rows g) = some save.build)
  idle : g ∉ s.flushInFlight → ∀ n b, s.finished g = some (n, b) → (s.started g).getLast? = some n ∧
    (b = true → lastBuild (s.disk.rows g) = some n)

/-! ## The other guids -/

/-- What an operation on another guid leaves of this one. -/
structure Same (g : Guid) (s s' : St) : Prop where
  flying : g ∈ s'.flushInFlight ↔ g ∈ s.flushInFlight
  pending : s'.pendingFlushes.lookup g = s.pendingFlushes.lookup g
  pool : ∀ p, (g, p) ∈ s'.pool → (g, p) ∈ s.pool
  tasks : ∀ t b save, Task.flushed g t b save ∈ s'.tasks → Task.flushed g t b save ∈ s.tasks
  rows : s'.disk.rows g = s.disk.rows g
  wal : ∀ row ∈ s'.disk.wal, row.guid = g → row ∈ s.disk.wal
  next : s.next ≤ s'.next
  built : s'.built g = s.built g
  started : s'.started g = s.started g
  finished : s'.finished g = s.finished g
  walFailed : s'.walFailed g = s.walFailed g

variable {g : Guid} {s : St}

theorem Same.refl (g : Guid) (s : St) : Same g s s :=
  ⟨.rfl, rfl, fun _ h => h, fun _ _ _ h => h, rfl, fun _ h _ => h, le_rfl, rfl, rfl, rfl, rfl⟩

theorem Same.trans {a b c : St} (h : Same g a b) (h' : Same g b c) : Same g a c where
  flying := h'.flying.trans h.flying
  pending := h'.pending.trans h.pending
  pool p hp := h.pool p (h'.pool p hp)
  tasks t b save ht := h.tasks t b save (h'.tasks t b save ht)
  rows := h'.rows.trans h.rows
  wal row hr hg := h.wal row (h'.wal row hr hg) hg
  next := h.next.trans h'.next
  built := h'.built.trans h.built
  started := h'.started.trans h.started
  finished := h'.finished.trans h.finished
  walFailed := h'.walFailed.trans h.walFailed

theorem Same.queue {s' : St} (h : Same g s s') : queue g s' = queue g s := by
  unfold Save.queue
  rw [h.started, h.pending]

theorem Ordered.same {s' : St} (ho : Ordered g s) (h : Same g s s') : Ordered g s' := by
  refine ⟨?_, ?_, ?_, ?_, ?_, ?_, ?_⟩
  · rw [h.built]
    exact ho.increasing
  · intro n hn
    rw [h.built] at hn
    exact Nat.lt_of_lt_of_le (ho.below n hn) h.next
  · rw [h.queue, h.built]
    exact ho.order
  · intro hw
    rw [h.walFailed] at hw
    rw [h.queue, h.built]
    exact ho.last hw
  · intro p hp
    rw [h.started]
    exact ho.job p (h.pool p hp)
  · intro t b save ht
    rw [h.started, h.rows]
    exact ho.done t b save (h.tasks t b save ht)
  · intro hf n b hn
    rw [h.finished] at hn
    rw [h.started, h.rows]
    exact ho.idle (fun hm => hf (h.flying.mpr hm)) n b hn

theorem Same.completeIf (g : Guid) (t : Bool) (s : St) : Same g s (completeIf t s) := by
  cases t
  · exact .refl g s
  show Same g s (completeTrackedFlush s)
  unfold completeTrackedFlush
  split
  · exact { Same.refl _ _ with }
  · split <;> exact { Same.refl _ _ with }

theorem Same.begin (g : Guid) (s : St) : Same g s (beginTrackedFlush s) :=
  { Same.refl _ _ with }

theorem flushed_mem_post {g' : Guid} {b c t : Bool} {save : PlayerSaveSnapshot}
    (h : Task.flushed g t c save ∈ (postCallbacks g' b s).tasks) : Task.flushed g t c save ∈ s.tasks := by
  rcases mem_append.mp h with h | h
  · exact h
  · grind

theorem Same.post (g g' : Guid) (b : Bool) (s : St) : Same g s (postCallbacks g' b s) :=
  { Same.refl _ _ with tasks := fun _ _ _ h => flushed_mem_post h }

theorem Same.delete (g' g : Guid) (del : Bool) (s : St) : Same g' s (deletePendingFlushFromDB del g s) := by
  cases del
  · exact .refl g' s
  · exact { Same.refl _ _ with wal := fun _ h _ => mem_of_mem_filter h }

theorem Same.rephase (g : Guid) (ph : Phase) (s : St) : Same g s { s with phase := ph } :=
  { Same.refl _ _ with }

/-- One more task that is not a completion; callbacks may be numbered meanwhile. -/
theorem Same.post_one (g : Guid) (s : St) (t : Task) (n : Nat) (ht : ∀ t' b save, t ≠ .flushed g t' b save) :
    Same g s { s with issued := n, tasks := s.tasks ++ [t] } := by
  refine { Same.refl _ _ with tasks := ?_ }
  grind

section
variable {g g' : Guid} (hne : g' ≠ g)
include hne

theorem Same.noteBuilt (s : St) : Same g' s (noteBuilt g s) :=
  { Same.refl _ _ with next := Nat.le_succ _, built := update_of_ne hne _ _ }

theorem Same.take (s : St) : Same g' s { s with flushInFlight := insert g s.flushInFlight } :=
  { Same.refl _ _ with flying := by simp [hne] }

theorem Same.abandon (b : Bool) (s : St) : Same g' s (abandon g b s) := by
  refine Same.trans (b := { s with flushInFlight := s.flushInFlight.erase g, pendingFlushes := s.pendingFlushes.erase g })
    ?_ (.post g' g b _)
  exact { Same.refl _ _ with flying := by simp [hne], pending := AList.lookup_erase_ne hne }

theorem Same.dispatch (io : Attempt) (p : PendingPlayerFlush) (s : St) : Same g' s (dispatchPlayerFlush io g p s) := by
  rcases dispatchPlayerFlush_cases io g p s with ⟨h, _⟩ | ⟨d, hd, h⟩
  · rw [h]
    refine { Same.refl _ _ with pool := ?_, wal := fun _ h e => mem_walReplace_ne (e ▸ hne) h, started := update_of_ne hne _ _ }
    grind
  · rw [h]
    have hr : d.rows g' = s.disk.rows g' := by
      rcases hd with rfl | ⟨rfl, _⟩ <;> rfl
    have hl : ∀ row ∈ d.wal, row.guid = g' → row ∈ s.disk.wal := by
      rcases hd with rfl | ⟨rfl, _⟩
      · exact fun _ h _ => h
      · exact fun _ h e => mem_walReplace_ne (e ▸ hne) h
    have h0 : Same g' s { s with disk := d, walFailed := update s.walFailed g true } :=
      { Same.refl _ _ with rows := hr, wal := hl, walFailed := update_of_ne hne _ _ }
    exact (h0.trans (.abandon hne false _)).trans (.completeIf _ _ _)

theorem Same.enqueue (io : Attempt) (p : PendingPlayerFlush) (s : St) : Same g' s (enqueuePending io g p s) := by
  obtain ⟨d, w, hw, _, h⟩ := enqueuePending_cases io g p s
  rw [h]
  have hr : d.rows g' = s.disk.rows g' := by
    rcases hw with ⟨rfl, _⟩ | ⟨rfl | rfl, _⟩ <;> rfl
  have hl : ∀ row ∈ d.wal, row.guid = g' → row ∈ s.disk.wal := by
    rcases hw with ⟨rfl, _⟩ | ⟨rfl | rfl, _⟩
    · exact fun _ h e => mem_walReplace_ne (e ▸ hne) h
    · exact fun _ h _ => h
    · exact fun _ h e => mem_walReplace_ne (e ▸ hne) h
  have hw' : w g' = s.walFailed g' := by
    rcases hw with ⟨_, rfl⟩ | ⟨_, rfl⟩
    · rfl
    · exact update_of_ne hne _ _
  exact { Same.refl _ _ with pending := AList.lookup_insert_ne hne, rows := hr, wal := hl, walFailed := hw' }

theorem Same.schedule (b : Build) (io : Attempt) (t : Bool) (s : St) :
    Same g' s (schedulePlayerFlush b io g t s).2 := by
  cases b with
  | none => exact .refl g' s
  | some qs =>
    have h0 := Same.noteBuilt hne s
    unfold schedulePlayerFlush
    simp only
    split
    · split
      · exact (h0.trans (.begin _ _)).trans (.enqueue hne io _ _)
      · exact h0.trans (.enqueue hne io _ _)
    · have h1 := h0.trans (.take hne _)
      cases t
      · exact h1.trans (.dispatch hne io _ _)
      · exact (h1.trans (.begin _ _)).trans (.dispatch hne io _ _)

theorem Same.continue (io : Attempt) (del b : Bool) (s : St) : Same g' s (continueChain io del g b s) := by
  unfold continueChain
  split
  · have h0 : Same g' s { s with flushInFlight := s.flushInFlight.erase g } :=
      { Same.refl _ _ with flying := by simp [hne] }
    cases b
    · exact h0.trans (.post _ _ _ _)
    · exact (h0.trans (.delete g' g del _)).trans (.post _ _ _ _)
  · have h0 : Same g' s { s with pendingFlushes := s.pendingFlushes.erase g } :=
      { Same.refl _ _ with pending := AList.lookup_erase_ne hne }
    exact h0.trans (.dispatch hne io _ _)

theorem Same.flushed (io : Attempt) (del t b : Bool) (save : PlayerSaveSnapshot) (s : St) :
    Same g' s (onPlayerFlushed io del g t b save s) := by
  have h0 : Same g' s { s with finished := update s.finished g (some (save.build, b)) } :=
    { Same.refl _ _ with finished := update_of_ne hne _ _ }
  exact (h0.trans (.completeIf g' t _)).trans (.continue hne io del b _)

theorem Same.sync (hc : Chain none 0 s) (b : Build) (wal : Attempt) (io : Nat → Nat → Attempt) :
    Same g' s (savePlayerSync b wal io g s).2 := by
  by_cases hg : g ∈ s.flushInFlight
  · unfold savePlayerSync
    rw [if_pos hg]
    cases b with
    | none => exact .refl g' s
    | some qs => exact (Same.noteBuilt hne s).trans (.enqueue hne wal _ _)
  · cases b with
    | none => simp [savePlayerSync, Same.refl]
    | some qs =>
      rw [savePlayerSync_direct hg (hc.free hg).2]
      exact { Same.refl _ _ with
        rows := update_of_ne hne _ _
        next := Nat.le_succ _
        built := update_of_ne hne _ _
        started := update_of_ne hne _ _
        finished := update_of_ne hne _ _ }

theorem Same.poolRun {i : Nat} {p : PendingPlayerFlush} (hi : s.pool[i]? = some (g, p)) (io : Nat → Attempt) :
    Same g' s (poolRun io i s) := by
  unfold Save.poolRun
  simp only [hi, flushPlayerSave_eq, commitSave_iterate]
  refine { Same.refl _ _ with pool := fun q hq => mem_of_mem_eraseIdx hq, tasks := ?_, rows := update_of_ne hne _ _ }
  intro t b save ht
  rcases mem_append.mp ht with ht | ht
  · exact ht
  · have := mem_singleton.mp ht
    simp only [Task.flushed.injEq] at this
    exact absurd this.1 hne

end

theorem step_own {s : St} (hc : Chain none 0 s) (e : Ev) (he : OnChain e) (g : Guid) :
    Same g s (step s e) ∨
    (∃ ph b wal t, savingMap { s with phase := ph } = savingMap s ∧
      step s e = (schedulePlayerFlush b wal g t { s with phase := ph }).2) ∨
    (∃ b wal io, e = .savePlayerSync g b wal io ∧ s.phase = .idle ∧ step s e = (savePlayerSync b wal io g s).2) ∨
    (∃ i p io, s.pool[i]? = some (g, p) ∧ step s e = poolRun io i s) ∨
    (∃ i t b save wal del, s.tasks[i]? = some (.flushed g t b save) ∧
      step s e = onPlayerFlushed wal del g t b save { s with tasks := s.tasks.eraseIdx i }) := by
  unfold step
  split
  · refine .inl ?_
    unfold saveAllStart
    split
    · exact .refl g s
    · split
      · exact { Same.refl _ _ with }
      · exact { Same.refl _ _ with }
  · rename_i b wal g' rest hp
    by_cases e : g = g'
    · subst e
      exact .inr (.inl ⟨.players rest, b, wal, true, by simp [savingMap, hp], rfl⟩)
    · exact .inl ((Same.rephase g (.players rest) s).trans (.schedule e b wal true _))
  · exact .inl ((Same.rephase g (.map 0) s).trans (.begin g _))
  · refine .inl ?_
    unfold saveAllMap
    split
    · exact (Same.rephase g .idle s).trans (.completeIf g true _)
    · exact .rephase g _ s
  · rename_i g' b wal hp
    by_cases e : g = g'
    · subst e
      exact .inr (.inl ⟨s.phase, b, wal, false, rfl, rfl⟩)
    · exact .inl (.schedule e b wal false s)
  · rename_i g' b wal io hp
    by_cases e : g = g'
    · subst e
      exact .inr (.inr (.inl ⟨b, wal, io, rfl, hp, rfl⟩))
    · exact .inl (.sync e hc b wal io)
  · exact absurd he id
  · exact .inl (.post_one g s _ _ (fun _ _ _ h => by cases h))
  · rename_i i io
    cases hi : s.pool[i]? with
    | none =>
      unfold poolRun
      simp only [hi]
      exact .inl (.refl g s)
    | some j =>
      obtain ⟨g', p⟩ := j
      by_cases e : g = g'
      · subst e
        exact .inr (.inr (.inr (.inl ⟨i, p, io, hi, rfl⟩)))
      · exact .inl (.poolRun e hi io)
  · rename_i i wal del hp
    cases hi : s.tasks[i]? with
    | none => exact .inl (.refl g s)
    | some t =>
      have h0 : Same g s { s with tasks := s.tasks.eraseIdx i } :=
        { Same.refl _ _ with tasks := fun _ _ _ h => mem_of_mem_eraseIdx h }
      cases t with
      | drain g' cb =>
        refine .inl (h0.trans ?_)
        simp only [runTask]
        split
        · exact { Same.refl _ _ with }
        · exact .post_one g _ _ _ (fun _ _ _ h => by cases h)
      | callback cb b =>
        refine .inl (h0.trans ?_)
        exact { Same.refl _ _ with }
      | flushed g' t b save =>
        by_cases e : g = g'
        · subst e
          exact .inr (.inr (.inr (.inr ⟨i, t, b, save, wal, del, hi, rfl⟩)))
        · exact .inl (h0.trans (.flushed e wal del t b save _))
  · exact absurd he id
  · exact .inl (.refl g s)

/-! ## The guid itself -/

theorem lastBuild_flush (l : List Stmt) (save : PlayerSaveSnapshot) {m : Nat} (hm : 0 < m) :
    lastBuild (l ++ (List.replicate m save.stmts).flatten) = some save.build := by
  obtain ⟨m, rfl⟩ : ∃ k, m = k + 1 := ⟨m - 1, by omega⟩
  have hq := getLast?_eq_getLast_of_ne_nil save.nonempty
  simp [replicate_succ', flatten_append, lastBuild, PlayerSaveSnapshot.stmts, hq, Option.map_some]

theorem outstanding_eq_zero (h : outstanding g s = 0) :
    (∀ p, (g, p) ∉ s.pool) ∧ ∀ t b save, Task.flushed g t b save ∉ s.tasks := by
  simp only [outstanding, Nat.add_eq_zero_iff, countP_eq_zero] at h
  refine ⟨fun p hp => ?_, fun t b save ht => ?_⟩
  · exact h.1 _ hp (by simp)
  · exact h.2 _ ht (by simp [isFlushed])

/-- A snapshot `n` of the guid was just taken and is not yet queued or started. -/
structure Took (g : Guid) (n : Nat) (s : St) : Prop where
  increasing : (s.built g).Pairwise (· < ·)
  below : ∀ n ∈ s.built g, n < s.next
  order : (s.started g ++ [n]).Sublist (s.built g)
  last : (s.built g).getLast? = some n
  job : ∀ p, (g, p) ∈ s.pool → (s.started g).getLast? = some p.save.build
  done : ∀ t b save, Task.flushed g t b save ∈ s.tasks → (s.started g).getLast? = some save.build ∧
    (b = true → lastBuild (s.disk.rows g) = some save.build)
  idle : g ∉ s.flushInFlight → ∀ n b, s.finished g = some (n, b) → (s.started g).getLast? = some n ∧
    (b = true → lastBuild (s.disk.rows g) = some n)

/-- A snapshot `n` of a guid is about to be dispatched, with no flush of it outstanding. -/
structure Ready (g : Guid) (n : Nat) (s : St) : Prop where
  increasing : (s.built g).Pairwise (· < ·)
  below : ∀ n ∈ s.built g, n < s.next
  order : (s.started g ++ [n]).Sublist (s.built g)
  last : s.walFailed g = false → (s.built g).getLast? = some n
  free : outstanding g s = 0
  notPending : s.pendingFlushes.lookup g = none
  flying : g ∈ s.flushInFlight
  fin : ∀ n b, s.finished g = some (n, b) → (s.started g).getLast? = some n ∧
    (b = true → lastBuild (s.disk.rows g) = some n)

variable {p : PendingPlayerFlush}

theorem Ordered.took (h : Ordered g s) : Took g s.next (noteBuilt g s) := by
  have hb : (noteBuilt g s).built g = s.built g ++ [s.next] := update_self _ _ _
  refine ⟨?_, ?_, ?_, ?_, h.job, h.done, h.idle⟩
  · rw [hb]
    refine pairwise_append.mpr ⟨h.increasing, pairwise_singleton _ _, ?_⟩
    intro a ha b hb
    rw [mem_singleton.mp hb]
    exact h.below a ha
  · intro n hn
    rw [hb] at hn
    rcases mem_append.mp hn with hn | hn
    · exact Nat.lt_succ_of_lt (h.below n hn)
    · rw [mem_singleton.mp hn]
      exact Nat.lt_succ_self _
  · rw [hb]
    have hs : (s.started g).Sublist (s.built g) := (sublist_append_left _ _).trans h.order
    exact hs.append (List.Sublist.refl _)
  · rw [hb]
    simp

theorem Ready.dispatch (h : Ready g p.save.build s) (io : Attempt) : Ordered g (dispatchPlayerFlush io g p s) := by
  obtain ⟨hpool, htask⟩ := outstanding_eq_zero h.free
  rcases dispatchPlayerFlush_cases io g p s with ⟨e, _⟩ | ⟨d, hd, e⟩
  · rw [e]
    have hs : update s.started g (s.started g ++ [p.save.build]) g = s.started g ++ [p.save.build] :=
      update_self _ _ _
    refine ⟨h.increasing, h.below, ?_, ?_, ?_, ?_, ?_⟩
    · simpa [queue, h.notPending, hs] using h.order
    · intro hw
      simpa [queue, h.notPending, hs] using h.last hw
    · intro q hq
      rcases mem_append.mp hq with hq | hq
      · exact absurd hq (hpool q)
      · obtain ⟨_, rfl⟩ := Prod.mk.inj (mem_singleton.mp hq)
        simp
    · intro t b save ht
      exact absurd ht (htask t b save)
    · intro hf
      exact absurd h.flying hf
  · rw [e]
    refine Ordered.same ?_ (.completeIf _ _ _)
    have hr : d.rows g = s.disk.rows g := by
      rcases hd with rfl | ⟨rfl, _⟩ <;> rfl
    refine ⟨h.increasing, h.below, ?_, ?_, ?_, ?_, ?_⟩
    · have hq : queue g (abandon g false { s with disk := d, walFailed := update s.walFailed g true }) =
          s.started g := by simp [queue, abandon, postCallbacks]
      rw [hq]
      exact (sublist_append_left _ _).trans h.order
    · simp [abandon, postCallbacks]
    · intro q hq
      exact absurd hq (hpool q)
    · intro t b save ht
      exact absurd (flushed_mem_post ht) (htask t b save)
    · intro _ n b hn
      show _ ∧ (b = true → lastBuild (d.rows g) = some n)
      rw [hr]
      exact h.fin n b hn

theorem Took.enqueue (h : Took g p.save.build s) (hg : g ∈ s.flushInFlight) (io : Attempt) :
    Ordered g (enqueuePending io g p s) := by
  obtain ⟨d, w, hw, _, e⟩ := enqueuePending_cases io g p s
  have hr : d.rows g = s.disk.rows g := by
    rcases hw with ⟨rfl, _⟩ | ⟨rfl | rfl, _⟩ <;> rfl
  rw [e]
  refine ⟨h.increasing, h.below, ?_, ?_, h.job, ?_, ?_⟩
  · simpa [queue] using h.order
  · intro _
    simpa [queue] using h.last
  · intro t b save ht
    rw [hr]
    exact h.done t b save ht
  · intro hf
    exact absurd hg hf

theorem Took.ready {n : Nat} (h : Took g n s) (hc : Chain none 0 s) (hg : g ∉ s.flushInFlight) :
    Ready g n { s with flushInFlight := insert g s.flushInFlight } where
  increasing := h.increasing
  below := h.below
  order := h.order
  last _ := h.last
  free := (hc.free hg).1
  notPending := AList.lookup_eq_none.mpr (hc.free hg).2
  flying := Finset.mem_insert_self _ _
  fin := h.idle hg

theorem Chain.built (hc : Chain none 0 s) (g : Guid) : Chain none 0 (noteBuilt g s) :=
  { hc with }

theorem Ordered.schedule (h : Ordered g s) (hc : Chain none 0 s) (b : Build) (io : Attempt) (t : Bool) :
    Ordered g (schedulePlayerFlush b io g t s).2 := by
  cases b with
  | none => exact h
  | some qs =>
    have h0 := h.took
    unfold schedulePlayerFlush
    simp only
    by_cases hg : g ∈ (noteBuilt g s).flushInFlight
    · rw [if_pos hg]
      split
      · have h1 : Took g s.next (beginTrackedFlush (noteBuilt g s)) :=
          { h0 with }
        exact Took.enqueue (p := ⟨snapshot qs s, _⟩) h1 hg io
      · exact Took.enqueue (p := ⟨snapshot qs s, _⟩) h0 hg io
    · rw [if_neg hg]
      have h1 := h0.ready (hc.built g) hg
      cases t
      · exact Ready.dispatch (p := ⟨snapshot qs s, false⟩) h1 io
      · refine Ready.dispatch (p := ⟨snapshot qs s, true⟩) ?_ io
        exact { h1 with }

theorem Ordered.sync (h : Ordered g s) (hc : Chain none 0 s) (b : Build) (wal : Attempt) (io : Nat → Nat → Attempt) :
    Ordered g (savePlayerSync b wal io g s).2 := by
  by_cases hg : g ∈ s.flushInFlight
  · unfold savePlayerSync
    rw [if_pos hg]
    cases b with
    | none => exact h
    | some qs => exact Took.enqueue (p := ⟨snapshot qs s, _⟩) h.took hg wal
  · cases b with
    | none => simpa [savePlayerSync] using h
    | some qs =>
      have h0 := h.took
      obtain ⟨hpool, htask⟩ := outstanding_eq_zero (hc.free hg).1
      have hl : s.pendingFlushes.lookup g = none := AList.lookup_eq_none.mpr (hc.free hg).2
      have hs : update s.started g (s.started g ++ [s.next]) g = s.started g ++ [s.next] :=
        update_self _ _ _
      rw [savePlayerSync_direct hg (hc.free hg).2]
      refine ⟨h0.increasing, h0.below, ?_, ?_, ?_, ?_, ?_⟩
      · simpa [queue, noteBuilt, hl, hs] using h0.order
      · simp [queue, noteBuilt, hl]
      · intro p hp
        exact absurd hp (hpool p)
      · intro t b save ht
        exact absurd ht (htask t b save)
      · intro _ n b hn
        simp only [update_self, Option.some.injEq, Prod.mk.injEq] at hn ⊢
        obtain ⟨rfl, rfl⟩ := hn
        refine ⟨by simp, fun hb => ?_⟩
        exact lastBuild_flush (s.disk.rows g) (snapshot qs s) (triesTimes_pos hb)

theorem Ordered.continue {n : Nat} {b : Bool} (h : Ordered g s) (hc : Chain (some g) 0 s)
    (hn : (s.started g).getLast? = some n ∧ (b = true → lastBuild (s.disk.rows g) = some n))
    (hf : s.finished g = some (n, b)) (io : Attempt) (del : Bool) : Ordered g (continueChain io del g b s) := by
  have h1 := hc.one g
  rw [held_self] at h1
  have hle := unit_le_one (decide (g ∈ s.flushInFlight))
  have hfree : outstanding g s = 0 := by omega
  have hg : g ∈ s.flushInFlight := by
    by_contra hg
    simp [hg] at h1
  have hfin : ∀ m c, s.finished g = some (m, c) → (s.started g).getLast? = some m ∧
      (c = true → lastBuild (s.disk.rows g) = some m) := by
    intro m c hm
    rw [hf] at hm
    obtain ⟨rfl, rfl⟩ := hm
    exact hn
  unfold continueChain
  cases hl : s.pendingFlushes.lookup g with
  | none =>
    have h2 : Ordered g { s with flushInFlight := s.flushInFlight.erase g } :=
      { h with idle := fun _ => hfin }
    cases b
    · exact h2.same (.post g g false _)
    · exact (h2.same (.delete g g del _)).same (.post g g true _)
  | some p =>
    have hq : queue g s = s.started g ++ [p.save.build] := by simp [queue, hl]
    have hready : Ready g p.save.build { s with pendingFlushes := s.pendingFlushes.erase g } := by
      refine ⟨h.increasing, h.below, ?_, ?_, hfree, AList.lookup_erase _ _, hg, hfin⟩
      · have := h.order
        rw [hq] at this
        exact this
      · intro hw
        have := h.last hw
        rw [hq] at this
        simpa using this
    exact hready.dispatch io

theorem Ordered.poolRun (h : Ordered g s) (hc : Chain none 0 s) {i : Nat} (hi : s.pool[i]? = some (g, p))
    (io : Nat → Attempt) : Ordered g (poolRun io i s) := by
  have hp : (g, p) ∈ s.pool := mem_of_getElem? hi
  have h1 : 0 < s.pool.countP (fun j => decide (j.1 = g)) := countP_pos_iff.mpr ⟨_, hp, by simp⟩
  have h2 := hc.one g
  have hle := unit_le_one (decide (g ∈ s.flushInFlight))
  simp only [outstanding, held_none, Nat.add_zero] at h2
  have hg : g ∈ s.flushInFlight := by
    by_contra hg
    simp only [hg, decide_false, unit_false] at h2
    omega
  have ht : s.tasks.countP (isFlushed g) = 0 := by omega
  unfold Save.poolRun
  simp only [hi, flushPlayerSave_eq, commitSave_iterate]
  refine { h with job := ?_, done := ?_, idle := ?_ }
  · intro q hq
    exact h.job q (mem_of_mem_eraseIdx hq)
  · intro t b save hm
    rcases mem_append.mp hm with hm | hm
    · exact absurd (by simp [isFlushed]) (countP_eq_zero.mp ht _ hm)
    have := mem_singleton.mp hm
    obtain ⟨_, rfl, rfl, rfl⟩ := this
    refine ⟨h.job p hp, fun hb => ?_⟩
    simp only [update_self]
    exact lastBuild_flush _ _ (times_pos hb)
  · intro hf
    exact absurd hg hf

/-! ## Runs -/

theorem Ordered.flushed (h : Ordered g s) (hc : Chain none 0 s) {i : Nat} {t b : Bool} {save : PlayerSaveSnapshot}
    (hi : s.tasks[i]? = some (.flushed g t b save)) (wal : Attempt) (del : Bool) :
    Ordered g (onPlayerFlushed wal del g t b save { s with tasks := s.tasks.eraseIdx i }) := by
  have hd := h.done t b save (mem_of_getElem? hi)
  have hk : Chain (some g) (unit t) { s with
      tasks := s.tasks.eraseIdx i, finished := update s.finished g (some (save.build, b)) } := { hc.takeTask hi with }
  -- The guid is in flight, so what its last completion was says nothing yet.
  have hg : g ∈ s.flushInFlight := by
    have h1 := hk.one g
    rw [held_self] at h1
    by_contra hg
    simp [hg] at h1
  have h2 : Ordered g { s with
      tasks := s.tasks.eraseIdx i, finished := update s.finished g (some (save.build, b)) } := by
    refine { h with done := ?_, idle := fun hf => absurd hg hf }
    intro t b save ht
    exact h.done t b save (mem_of_mem_eraseIdx ht)
  have hs := Same.completeIf g t { s with
      tasks := s.tasks.eraseIdx i, finished := update s.finished g (some (save.build, b)) }
  refine (h2.same hs).continue (n := save.build) hk.completeIf ?_ ?_ wal del
  · rw [hs.started, hs.rows]
    exact hd
  · simp [hs.finished]

theorem Ordered.step {s : St} (h : ∀ g, Ordered g s) (hc : Chain none 0 s) (e : Ev) (he : OnChain e) (g : Guid) :
    Ordered g (step s e) := by
  rcases step_own hc e he g with hs | ⟨ph, b, wal, t, hp, hs⟩ | ⟨b, wal, io, _, _, hs⟩ | ⟨i, p, io, hi, hs⟩ |
    ⟨i, t, b, save, wal, del, hi, hs⟩
  · exact (h g).same hs
  · rw [hs]
    exact ((h g).same (.rephase g ph s)).schedule (hc.rephase ph hp) b wal t
  · rw [hs]
    exact (h g).sync hc b wal io
  · rw [hs]
    exact (h g).poolRun hc hi io
  · rw [hs]
    exact (h g).flushed hc hi wal del

theorem Ordered.boot (d : Disk) (f : Finset Guid) (n : Nat) (g : Guid) : Ordered g (boot d f n) := by
  refine ⟨List.Pairwise.nil, ?_, List.Sublist.refl _, fun _ => rfl, ?_, ?_, ?_⟩
  · intro n hn
    cases hn
  · intro p hp
    cases hp
  · intro t b save ht
    cases ht
  · intro _ n b hn
    cases hn

theorem ordered (h : Reach Booted step (fun _ e => OnChain e) s) : Chain none 0 s ∧ ∀ g, Ordered g s := by
  refine h.inv (I := fun s => Chain none 0 s ∧ ∀ g, Ordered g s) ?_ ?_
  · rintro s ⟨d, f, n, rfl⟩
    exact ⟨Chain.boot d f n, Ordered.boot d f n⟩
  · rintro s e he ⟨hc, ho⟩
    exact ⟨hc.step e, Ordered.step ho hc e he⟩

/-- For each guid: at most one flush is dispatched and not completed, a snapshot pends
    only behind a flight, flushes start in the order their snapshots were built, and,
    where its log writes succeeded, when its chain is idle after a successful last flush
    the last snapshot built is the one committed last. -/
theorem flushes_in_order {s : St} (h : Reach Booted step (fun _ e => OnChain e) s) (g : Guid) :
    outstanding g s ≤ 1 ∧ (g ∈ s.pendingFlushes → g ∈ s.flushInFlight) ∧
    (s.built g).Pairwise (· < ·) ∧ (s.started g).Sublist (s.built g) ∧
    (s.walFailed g = false → g ∉ s.flushInFlight → ∀ n, s.finished g = some (n, true) →
      (s.built g).getLast? = some n ∧ lastBuild (s.disk.rows g) = some n) := by
  obtain ⟨hc, ho⟩ := ordered h
  have h1 := hc.one g
  have hle := unit_le_one (decide (g ∈ s.flushInFlight))
  refine ⟨by omega, hc.pending g, (ho g).increasing, (sublist_append_left _ _).trans (ho g).order, ?_⟩
  intro hw hg n hn
  have hi := (ho g).idle hg n true hn
  have hl : s.pendingFlushes.lookup g = none := AList.lookup_eq_none.mpr (hc.free hg).2
  have hq : queue g s = s.started g := by simp [queue, hl]
  refine ⟨?_, hi.2 rfl⟩
  rw [(ho g).last hw, hq]
  exact hi.1

/-- Three saves of a player: the second is superseded by the third while the first is
    in flight. -/
def supersededRun : List Ev :=
  let b : Build := some ⟨["UPDATE"], update_ne_nil⟩
  [.savePlayer 7 b .good, .savePlayer 7 b .good, .savePlayer 7 b .good, .poolRun 0 (fun _ => .good),
    .taskRun 0 .good true, .poolRun 0 (fun _ => .good), .taskRun 0 .good true]

theorem flushes_in_order_supersededRun :
    (run step init supersededRun).started 7 = [0, 2] ∧
      ((run step init supersededRun).built 7).getLast? = some 2 ∧
      lastBuild ((run step init supersededRun).disk.rows 7) = some 2 := by
  have h0 : Reach Booted step (fun _ e => OnChain e) init := .init ⟨_, _, _, rfl⟩
  have hr := h0.run (by simp [supersededRun, Allowed, OnChain] : Allowed step (fun _ e => OnChain e) init supersededRun)
  obtain ⟨_, _, _, _, hlast⟩ := flushes_in_order hr 7
  exact ⟨rfl, hlast rfl (by decide) 2 rfl⟩

end Backlands.Save
