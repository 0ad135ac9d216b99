/-
  Backlands.Reactor.Cancel — a cancelled task does not run.

  Proved: once a cancellation of a task is taken in, the task's callback is started in no
  later cycle, and in the cycle under way only if the driver had already looked at the
  cancellations for the last time (`Doomed`, `doomed_run`).
-/

import Backlands.Reactor.Accounts

namespace Backlands.Reactor

open Backlands.Lib List

variable {s : State} {t : Task}

/-! ## Steps of the other threads -/

/-- What a step of another thread leaves alone. -/
structure Aside (s s' : State) : Prop where
  driver : s'.driver = s.driver
  cycle : s'.cycle = s.cycle
  started : s'.started = s.started
  dropped : s'.dropped = s.dropped
  accepted : s.accepted ⊆ s'.accepted
  marked : ∀ i, Marked s i → Marked s' i

theorem aside_enter (s : State) (i : Nat) : Aside s (enter i s) := by
  have hkeep : ∀ calls, Aside s { s with calls := calls } := fun calls =>
    ⟨rfl, rfl, rfl, rfl, fun _ h => h, fun _ h => h⟩
  unfold enter
  split
  · exact hkeep s.calls
  rename_i c hc
  cases c with
  | send u =>
    simp only [enterCall, enterSend]
    split
    · exact hkeep _
    · exact ⟨rfl, rfl, rfl, rfl, subset_append_left _ _, fun _ h => h⟩
  | schedule u =>
    simp only [enterCall, enterSchedule]
    split
    · exact hkeep _
    · split
      · exact hkeep _
      · exact ⟨rfl, rfl, rfl, rfl, subset_append_left _ _, fun _ h => h⟩
  | cancel j =>
    simp only [enterCall, enterCancel]
    split
    · refine ⟨rfl, rfl, rfl, rfl, fun _ h => h, ?_⟩
      rintro k (hk | hk)
      · exact .inl (mem_append_left _ hk)
      · exact .inr hk
    · exact hkeep _

theorem aside_call (s : State) (r : Request) : Aside s (call r s) := by
  have hkeep : ∀ n calls, Aside s { s with nextSequence := n, calls := calls } := fun n calls =>
    ⟨rfl, rfl, rfl, rfl, fun _ h => h, fun _ h => h⟩
  cases r with
  | send now expirationTime callback =>
    simp only [call, callSend]
    split
    · exact hkeep _ _
    · exact hkeep _ _
  | schedule now delay callback =>
    simp only [call, callSchedule]
    split
    · exact hkeep _ _
    · exact hkeep _ _
  | cancel i =>
    simp only [call, callCancel]
    split
    · exact hkeep _ _
    · exact hkeep s.nextSequence _

theorem aside_step (s : State) {e : Ev} (he : e ≠ .drive) : Aside s (step s e) := by
  cases e with
  | tick d => exact ⟨rfl, rfl, rfl, rfl, fun _ h => h, fun _ h => h⟩
  | start => exact ⟨rfl, rfl, rfl, rfl, fun _ h => h, fun _ h => h⟩
  | shutdown => exact ⟨rfl, rfl, rfl, rfl, fun _ h => h, fun _ h => h⟩
  | configure _ _ _ => exact ⟨rfl, rfl, rfl, rfl, fun _ h => h, fun _ h => h⟩
  | call r => exact aside_call s r
  | enter i => exact aside_enter s i
  | drive => exact absurd rfl he

/-- A task that was taken in and has left does not come back. -/
theorem waiting_of_aside {s' : State} (h : Accounted s) (h' : Accounted s') (ha : Aside s s') (ht : t ∈ s.accepted)
    (hw : t ∈ waiting s') : t ∈ waiting s := by
  rcases mem_append.mp (h.everywhere.mem_iff.mpr ht) with hm | hm
  · rw [← ha.started] at hm
    exact absurd rfl ((nodup_append.mp h'.nodup).2.2 t hm t (mem_append_right _ hw))
  rcases mem_append.mp hm with hm | hm
  · rw [← ha.dropped] at hm
    exact absurd rfl ((nodup_append.mp (nodup_append.mp h'.nodup).2.1).2.2 t hm t hw)
  · exact hm

/-! ## The last look at the cancellations -/

theorem hasCancellation_of_chosen (h : (drive s).driver.chosen = some t) : hasCancellation s t.identifier = false := by
  unfold drive at h
  split at h
  · cases h
  · cases h
  · cases h
  · unfold drainSent at h
    split at h
    · cases h
    · split at h <;> cases h
  · unfold drainReadyTasks beginExecution at h
    split at h
    · cases h
    split at h
    · cases h
    dsimp only at h
    split at h
    · cases h
    · split at h <;> cases h
  · unfold executeReadyTasks at h
    split at h
    · cases h
    rename_i u hu
    split at h
    · cases h
    split at h
    · cases h
    split at h
    · cases h
    rename_i hfree
    have htu : some u = some t := by
      rw [← hu]
      exact h
    obtain rfl := Option.some.inj htu
    exact Bool.not_eq_true _ ▸ hfree
  · rename_i hd
    grind [startCallback, Driver.chosen]
  · rename_i hd
    unfold finishCallback at h
    split at h
    · rw [hd] at h
      cases h
    · split at h <;> cases h
  · cases h

theorem started_of_chosen (h : s.driver.chosen = some t) : (drive s).started = s.started ++ [(s.cycle, t)] := by
  unfold drive
  cases hd : s.driver with
  | committed cycleStart readyTasks index n =>
    rw [hd] at h
    have ht : readyTasks[index]? = some t := h
    simp only [startCallback, ht]
  | idle => rw [hd] at h; cases h
  | swapped _ => rw [hd] at h; cases h
  | sent _ _ _ => rw [hd] at h; cases h
  | popping _ _ => rw [hd] at h; cases h
  | executing _ _ _ _ => rw [hd] at h; cases h
  | calling _ _ _ _ => rw [hd] at h; cases h
  | deferring _ _ => rw [hd] at h; cases h

/-! ## A cancelled task -/

/-- A cancellation of the task was taken in in cycle `n`; `late` says that the driver had
    already committed to the task. -/
structure Doomed (t : Task) (n : Nat) (late : Prop) (s : State) : Prop where
  known : t ∈ s.accepted
  ran : ∀ c, (c, t) ∈ s.started → c = n ∧ late
  here : t ∈ waiting s →
    Marked s t.identifier ∧ s.driver.chosen ≠ some t ∨ s.driver.chosen = some t ∧ s.cycle = n ∧ late

variable {late : Prop} {n : Nat}

theorem doomed_aside {s' : State} (hd : Doomed t n late s) (h : Accounted s) (h' : Accounted s') (ha : Aside s s') :
    Doomed t n late s' := by
  refine ⟨ha.accepted hd.known, ?_, ?_⟩
  · rw [ha.started]
    exact hd.ran
  intro hw
  rw [ha.driver, ha.cycle]
  rcases hd.here (waiting_of_aside h h' ha hd.known hw) with ⟨hm, hc⟩ | hc
  · exact .inl ⟨ha.marked _ hm, hc⟩
  · exact .inr hc

theorem marked_drive (hres : Reserved s) (hm : Marked s t.identifier) (hw : t ∈ waiting (drive s)) :
    Marked (drive s) t.identifier ∧ (drive s).driver.chosen ≠ some t := by
  have h0 : t.identifier ≠ 0 := (mem_ids.mp ((hres.active _).mp (hres.marked _ hm))).1
  constructor
  · rcases drive_live hres.placed with ⟨-, hu⟩ | ⟨u, hl, hr⟩
    · exact (hu.marked _).mpr hm
    refine (hr.marked _).mpr ⟨hm, ?_⟩
    by_cases hid : t.identifier = u.identifier
    · exact .inl (hres.unique hl (mem_append_left _ hw) hid)
    · exact .inr hid
  · intro hc
    have hfree := hasCancellation_of_chosen hc
    simp only [hasCancellation, Bool.and_eq_false_iff, Bool.or_eq_false_iff, decide_eq_false_iff_not] at hfree
    rcases hfree with hfree | hfree
    · exact hfree h0
    · rcases hm with hm | hm
      · exact hfree.1 hm
      · exact hfree.2 hm

theorem doomed_drive (hd : Doomed t n late s) (hres : Reserved s) (h' : Accounted (drive s)) :
    Doomed t n late (drive s) := by
  have hknown : t ∈ (drive s).accepted := by
    rw [(drive_sameCalls s).accepted]
    exact hd.known
  -- A task that waits after the step waited before it and was not the one chosen.
  have hkept : t ∈ waiting (drive s) → t ∈ waiting s := by
    intro hw
    rcases drive_effect hres.placed with ⟨hp, -, -, -, -, -⟩ | ⟨u, r, hp, -, -, -, -, -, -⟩ |
      ⟨u, hp, -, -, -, -, -, -⟩ | ⟨u, hp, -, -, -, -, -⟩
    · exact hp.mem_iff.mp hw
    · exact hp.mem_iff.mpr (mem_cons_of_mem _ hw)
    · exact hp.mem_iff.mpr (mem_cons_of_mem _ hw)
    · exact hp ▸ hw
  refine ⟨hknown, ?_, ?_⟩
  · intro c hc
    rcases drive_effect hres.placed with ⟨-, -, -, -, hs, -⟩ | ⟨u, r, -, -, -, -, -, hs, -⟩ |
      ⟨u, hp, -, -, -, hn, hs, -⟩ | ⟨u, -, -, -, -, hs, -⟩
    · rw [hs] at hc
      exact hd.ran c hc
    · rw [hs] at hc
      exact hd.ran c hc
    · rw [hs] at hc
      rcases mem_append.mp hc with hc | hc
      · exact hd.ran c hc
      obtain ⟨rfl, rfl⟩ := Prod.mk.inj (mem_singleton.mp hc)
      rcases hd.here (hp.mem_iff.mpr mem_cons_self) with ⟨-, hne⟩ | ⟨-, hcyc, hlate⟩
      · exact absurd hn hne
      · exact ⟨hcyc, hlate⟩
    · rw [hs] at hc
      exact hd.ran c hc
  · intro hw
    rcases hd.here (hkept hw) with ⟨hm, -⟩ | ⟨hc, -, -⟩
    · exact .inl (marked_drive hres hm hw)
    have hs : (s.cycle, t) ∈ (drive s).started := by
      rw [started_of_chosen hc]
      exact mem_append_right _ (mem_singleton_self _)
    exact absurd hw (h'.not_waiting_of_started hs)

theorem doomed_run (es : List Ev) :
    ∀ {s : State}, Doomed t n late s → Reserved s → Accounted s → Doomed t n late (run step s es) := by
  induction es with
  | nil => exact fun hd _ _ => hd
  | cons e es ih =>
    intro s hd hres h
    have hres' := reserved_step hres e
    have h' := accounted_step hres h e
    refine ih ?_ hres' h'
    by_cases he : e = .drive
    · subst he
      exact doomed_drive hd hres h'
    · exact doomed_aside hd h h' (aside_step s he)

/-- A task whose cancellation is taken in before its callback starts is started in no later
    cycle; in the cycle under way it is started only if the driver was already past its last
    look at the cancellations. -/
theorem cancelled_task_never_starts_later {i : Nat} (h : Reachable s) (hw : t ∈ waiting s)
    (hcall : s.calls[i]? = some (.cancel t.identifier)) (hroom : admitsCancel s t.identifier = true) (es : List Ev) :
    ∀ c, (c, t) ∈ (run step (step s (.enter i)) es).started → c = s.cycle ∧ s.driver.chosen = some t := by
  obtain ⟨hres, hacc⟩ := accounted_of_reachable h
  have ha := aside_enter s i
  have hmark : Marked (step s (.enter i)) t.identifier := by
    simp only [step, enter, hcall, enterCall, enterCancel]
    rw [if_pos (show admitsCancel { s with calls := s.calls.eraseIdx i } t.identifier = true from hroom)]
    exact .inl (mem_append_right _ (mem_singleton_self _))
  have hdoomed : Doomed t s.cycle (s.driver.chosen = some t) (step s (.enter i)) := by
    refine ⟨ha.accepted (hacc.accepted_of_waiting hw), ?_, ?_⟩
    · intro c hc
      have hc' : (c, t) ∈ s.started := ha.started ▸ hc
      exact absurd hw (hacc.not_waiting_of_started hc')
    · intro _
      show _ ∧ (enter i s).driver.chosen ≠ some t ∨ (enter i s).driver.chosen = some t ∧ (enter i s).cycle = _ ∧ _
      grind [ha.driver, ha.cycle]
  exact (doomed_run es hdoomed (reserved_step hres (.enter i)) (accounted_step hres hacc (.enter i))).ran

/-- Two tasks are due and a cycle runs one; the other, deferred, is being cancelled. -/
def cancelDeferred : List Ev :=
  [.configure 1 0 0, .call (.schedule 0 0 true), .enter 0, .call (.schedule 0 0 true), .enter 0] ++
    List.replicate 11 .drive ++ [.call (.cancel 2)]

/-- The next cycle does not run it. -/
theorem cancelled_task_never_starts_later_deferred :
    (⟨0, none, 2, 1, true⟩ : Task) ∈ waiting (run step wrapping cancelDeferred) ∧
    ∀ c, (c, (⟨0, none, 2, 1, true⟩ : Task)) ∉
      (run step (step (run step wrapping cancelDeferred) (.enter 0)) (List.replicate 12 .drive)).started := by
  have hw : (⟨0, none, 2, 1, true⟩ : Task) ∈ waiting (run step wrapping cancelDeferred) := by decide
  refine ⟨hw, ?_⟩
  intro c hc
  have h := cancelled_task_never_starts_later (reachable_wrapping cancelDeferred) hw (by decide) (by decide)
    (List.replicate 12 .drive) c hc
  have hnone : (run step wrapping cancelDeferred).driver.chosen = none := by decide
  rw [hnone] at h
  cases h.2

end Backlands.Reactor
