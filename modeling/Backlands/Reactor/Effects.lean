/-
  Backlands.Reactor.Effects — what one step of the driver does to the tasks.

  Proved: a driver's step either moves tasks about, or lets one task go without running it,
  or starts one, or sees one return (`Effect`, `drive_effect`). The rest of the development
  is about these four cases and not about the eight places the driver can be in.
-/

import Backlands.Reactor.Machine

namespace Backlands.Reactor

open Backlands.Lib List

/-! ## Where the driver is -/

/-- The loop's index and its counter agree, a task past the cancellations is in the batch,
    and the clock does not go back. -/
def Driver.Placed (clock : Int) : Driver → Prop
  | .idle => True
  | .swapped _ => True
  | .sent now _ _ => now ≤ clock
  | .popping now _ => now ≤ clock
  | .executing _ _ index n => index = n
  | .committed _ readyTasks index n => index = n ∧ index < readyTasks.length
  | .calling _ readyTasks index n => index = n ∧ index < readyTasks.length
  | .deferring _ _ => True

def Placed (s : State) : Prop := s.driver.Placed s.clock

variable {d : Driver}

theorem Driver.Placed.mono {c c' : Int} (h : d.Placed c) (hc : c ≤ c') : d.Placed c' := by
  cases d with
  | sent now _ _ => exact le_trans h hc
  | popping now _ => exact le_trans h hc
  | idle => trivial
  | swapped _ => trivial
  | executing _ _ _ _ => exact h
  | committed _ _ _ _ => exact h
  | calling _ _ _ _ => exact h
  | deferring _ _ => trivial

/-! ## Retiring an identifier -/

/-- Of the reservations and the cancellations only those of `i` are gone. -/
structure Retired (i : Nat) (s s' : State) : Prop where
  marked : ∀ j, Marked s' j ↔ Marked s j ∧ (i = 0 ∨ j ≠ i)
  active : ∀ j, j ∈ s'.activeIdentifiers ↔ j ∈ s.activeIdentifiers ∧ (i = 0 ∨ j ≠ i)

theorem retired_retireIdentifier (i : Nat) (s : State) : Retired i s (retireIdentifier i s) := by
  unfold retireIdentifier
  by_cases hi : i = 0
  · exact ⟨fun j => by simp [hi], fun j => by simp [hi]⟩
  rw [if_neg hi]
  constructor
  · simp only [Marked, mem_filter, Finset.mem_erase, decide_eq_true_eq, hi, false_or]
    tauto
  · simp only [Finset.mem_erase, hi, false_or]
    tauto

section
variable (i : Nat) (s : State)

@[simp] theorem retire_sendInbox : (retireIdentifier i s).sendInbox = s.sendInbox := by
  unfold retireIdentifier; split <;> rfl

@[simp] theorem retire_scheduleInbox : (retireIdentifier i s).scheduleInbox = s.scheduleInbox := by
  unfold retireIdentifier; split <;> rfl

@[simp] theorem retire_taskHeap : (retireIdentifier i s).taskHeap = s.taskHeap := by
  unfold retireIdentifier; split <;> rfl

@[simp] theorem retire_started : (retireIdentifier i s).started = s.started := by
  unfold retireIdentifier; split <;> rfl

@[simp] theorem retire_dropped : (retireIdentifier i s).dropped = s.dropped := by
  unfold retireIdentifier; split <;> rfl

@[simp] theorem retire_clock : (retireIdentifier i s).clock = s.clock := by
  unfold retireIdentifier; split <;> rfl

@[simp] theorem retire_cycle : (retireIdentifier i s).cycle = s.cycle := by
  unfold retireIdentifier; split <;> rfl

@[simp] theorem retire_accepted : (retireIdentifier i s).accepted = s.accepted := by
  unfold retireIdentifier; split <;> rfl

@[simp] theorem retire_cancels : (retireIdentifier i s).cancels = s.cancels := by
  unfold retireIdentifier; split <;> rfl

@[simp] theorem retire_calls : (retireIdentifier i s).calls = s.calls := by
  unfold retireIdentifier; split <;> rfl

@[simp] theorem retire_nextSequence : (retireIdentifier i s).nextSequence = s.nextSequence := by
  unfold retireIdentifier; split <;> rfl

@[simp] theorem retire_nextIdentifier : (retireIdentifier i s).nextIdentifier = s.nextIdentifier := by
  unfold retireIdentifier; split <;> rfl

end

/-! ## Effects -/

variable {t : Task} {now : Int}

theorem hasExpired_mono {clock : Int} (h : t.hasExpired now = true) (hn : now ≤ clock) :
    t.hasExpired clock = true := by
  unfold Task.hasExpired at h ⊢
  cases hd : t.deadline with
  | none => simp [hd] at h
  | some d =>
    simp only [hd, decide_eq_true_eq] at h ⊢
    omega

def Because (s : State) (t : Task) : Reason → Prop
  | .cancelled => Marked s t.identifier
  | .expired => t.hasExpired s.clock = true
  | .empty => t.function = false

/-- The reservations and the cancellations stay. -/
structure Untouched (s s' : State) : Prop where
  marked : ∀ j, Marked s' j ↔ Marked s j
  active : s'.activeIdentifiers = s.activeIdentifiers

inductive Effect (s s' : State) : Prop where
  | moved (hw : (waiting s').Perm (waiting s)) (hc : s.driver.current = none) (hc' : s'.driver.current = none)
      (hu : Untouched s s') (hs : s'.started = s.started) (hd : s'.dropped = s.dropped)
  | discarded (t : Task) (r : Reason) (hw : (waiting s).Perm (t :: waiting s')) (hc : s.driver.current = none)
      (hc' : s'.driver.current = none) (hr : Retired t.identifier s s') (hb : Because s t r)
      (hs : s'.started = s.started) (hd : s'.dropped = s.dropped ++ [(t, r)])
  | started (t : Task) (hw : (waiting s).Perm (t :: waiting s')) (hc : s.driver.current = none)
      (hc' : s'.driver.current = some t) (hu : Untouched s s') (hn : s.driver.chosen = some t)
      (hs : s'.started = s.started ++ [(s.cycle, t)]) (hd : s'.dropped = s.dropped)
  | returned (t : Task) (hw : waiting s' = waiting s) (hc : s.driver.current = some t)
      (hc' : s'.driver.current = none) (hr : Retired t.identifier s s') (hs : s'.started = s.started)
      (hd : s'.dropped = s.dropped)

variable {s : State}

theorem waiting_discard (t : Task) (r : Reason) (d : Driver) (s : State) :
    waiting (discard t r d s) = s.scheduleInbox ++ (s.taskHeap ++ (s.sendInbox ++ d.batch)) := by
  simp [waiting, discard]

theorem effect_discard {r : Reason} (hb : Because s t r) (hbatch : s.driver.batch.Perm (t :: d.batch))
    (hc : s.driver.current = none) (hc' : d.current = none) : Effect s (discard t r d s) := by
  have hr := retired_retireIdentifier t.identifier s
  refine .discarded t r ?_ hc hc' ⟨hr.marked, hr.active⟩ hb (by simp [discard]) (by simp [discard])
  rw [waiting_discard]
  have h1 : (waiting s).Perm (s.scheduleInbox ++ (s.taskHeap ++ (s.sendInbox ++ (t :: d.batch)))) :=
    (((hbatch.append_left _).append_left _).append_left _)
  refine h1.trans ?_
  refine (((perm_middle.append_left _).append_left _)).trans ?_
  exact (perm_middle.append_left _).trans perm_middle

theorem effect_driver (hbatch : d.batch.Perm s.driver.batch) (hc : s.driver.current = none) (hc' : d.current = none) :
    Effect s { s with driver := d } := by
  refine .moved ?_ hc hc' ⟨fun _ => Iff.rfl, rfl⟩ rfl rfl
  exact ((hbatch.append_left _).append_left _).append_left _

/-! ## One step of the driver -/

variable {readyTasks : List Task} {cycleStart : Int}

theorem perm_foldl_orderedInsert (l heap : List Task) :
    (l.foldl (fun heap t => heap.orderedInsert Before t) heap).Perm (l ++ heap) := by
  induction l generalizing heap with
  | nil => exact List.Perm.refl _
  | cons t l ih =>
    refine (ih _).trans ?_
    refine ((perm_orderedInsert Before t heap).append_left l).trans ?_
    exact perm_middle

theorem effect_drainInbox (hd : s.driver = .idle) : Effect s (drainInbox s) := by
  have hc : s.driver.current = none := by rw [hd]; rfl
  refine .moved ?_ hc rfl ⟨?_, rfl⟩ rfl rfl
  · simp only [waiting, drainInbox, hd, Driver.batch, nil_append, append_nil]
    refine ((perm_foldl_orderedInsert s.scheduleInbox s.taskHeap).append_right _).trans ?_
    rw [append_assoc]
  · simp only [Marked, drainInbox, not_mem_nil, Finset.mem_union, mem_toFinset, false_or]
    tauto

theorem effect_drainSent {sentTasks : List Task} (hd : s.driver = .sent now (t :: sentTasks) readyTasks)
    (hn : now ≤ s.clock) : Effect s (drainSent now t sentTasks readyTasks s) := by
  have hc : s.driver.current = none := by rw [hd]; rfl
  have hbatch : s.driver.batch.Perm (t :: (Driver.sent now sentTasks readyTasks).batch) := by
    rw [hd]
    exact List.Perm.refl _
  unfold drainSent
  split
  · rename_i hcancel
    exact effect_discard (.inr hcancel.2) hbatch hc rfl
  split
  · rename_i hexp
    exact effect_discard (hasExpired_mono hexp hn) hbatch hc rfl
  refine effect_driver ?_ hc rfl
  rw [hd]
  show (sentTasks ++ (readyTasks ++ [t])).Perm (t :: sentTasks ++ readyTasks)
  rw [← append_assoc]
  exact @perm_append_comm _ (sentTasks ++ readyTasks) [t]

theorem effect_beginExecution (hd : s.driver = .popping now readyTasks) : Effect s (beginExecution readyTasks s) := by
  refine effect_driver ?_ (by rw [hd]; rfl) rfl
  rw [hd]
  exact perm_insertionSort Before readyTasks

theorem effect_drainReadyTasks (hd : s.driver = .popping now readyTasks) (hn : now ≤ s.clock) :
    Effect s (drainReadyTasks now readyTasks s) := by
  have hc : s.driver.current = none := by rw [hd]; rfl
  unfold drainReadyTasks
  split
  · exact effect_beginExecution hd
  rename_i t heap hheap
  split
  · exact effect_beginExecution hd
  dsimp only
  have hw : (waiting s).Perm (t :: (s.scheduleInbox ++ (heap ++ (s.sendInbox ++ readyTasks)))) := by
    simp [waiting, hheap, hd, Driver.batch]
  split
  · rename_i hcancel
    have hr := retired_retireIdentifier t.identifier { s with taskHeap := heap }
    refine .discarded t .cancelled ?_ hc rfl ⟨hr.marked, hr.active⟩ (.inr hcancel) (by simp [discard]) (by simp [discard])
    rw [waiting_discard]
    exact hw
  · split
    · rename_i hexp
      have hr := retired_retireIdentifier t.identifier { s with taskHeap := heap }
      refine .discarded t .expired ?_ hc rfl ⟨hr.marked, hr.active⟩ (hasExpired_mono hexp hn) (by simp [discard])
        (by simp [discard])
      rw [waiting_discard]
      exact hw
    · refine .moved ?_ hc rfl ⟨fun _ => Iff.rfl, rfl⟩ rfl rfl
      refine List.Perm.trans ?_ hw.symm
      simp only [waiting, Driver.batch]
      rw [← append_assoc s.sendInbox, ← append_assoc heap, ← append_assoc s.scheduleInbox]
      exact @perm_append_comm _ _ [t]

theorem drop_eq_cons {l : List Task} {i : Nat} (h : l[i]? = some t) : l.drop i = t :: l.drop (i + 1) := by
  obtain ⟨hi, rfl⟩ := List.getElem?_eq_some_iff.mp h
  exact drop_eq_getElem_cons hi

theorem effect_executeReadyTasks {index n : Nat} (hd : s.driver = .executing cycleStart readyTasks index n)
    (hp : index = n) : Effect s (executeReadyTasks cycleStart readyTasks index n s) := by
  have hc : s.driver.current = none := by rw [hd]; rfl
  subst hp
  have hdefer : Effect s { s with driver := .deferring readyTasks index } := by
    refine effect_driver ?_ hc rfl
    rw [hd]
    exact List.Perm.refl _
  unfold executeReadyTasks
  split
  · exact hdefer
  rename_i t ht
  have hbatch : s.driver.batch.Perm
      (t :: (Driver.executing cycleStart readyTasks (index + 1) (index + 1)).batch) := by
    rw [hd]
    exact (drop_eq_cons ht) ▸ List.Perm.refl _
  split
  · rename_i hf
    exact effect_discard (by simpa [Because] using hf) hbatch hc rfl
  split
  · exact hdefer
  split
  · rename_i hcancel
    refine effect_discard ?_ hbatch hc rfl
    simp only [hasCancellation, Bool.and_eq_true, Bool.or_eq_true, decide_eq_true_eq] at hcancel
    exact hcancel.2
  · refine effect_driver ?_ hc rfl
    rw [hd]
    exact List.Perm.refl _

theorem effect_startCallback {index n : Nat} (hd : s.driver = .committed cycleStart readyTasks index n)
    (hi : index < readyTasks.length) : Effect s (startCallback cycleStart readyTasks index n s) := by
  have ht : readyTasks[index]? = some readyTasks[index] := getElem?_eq_getElem hi
  unfold startCallback
  rw [ht]
  refine .started readyTasks[index] ?_ (by rw [hd]; rfl) ht ⟨fun _ => Iff.rfl, rfl⟩ (by rw [hd]; exact ht) rfl rfl
  simp only [waiting, hd, Driver.batch, drop_eq_cons ht]
  refine (((perm_middle.append_left _).append_left _)).trans ?_
  exact (perm_middle.append_left _).trans perm_middle

theorem effect_finishCallback {index n : Nat} (hd : s.driver = .calling cycleStart readyTasks index n)
    (hp : index = n) (hi : index < readyTasks.length) :
    Effect s (finishCallback cycleStart readyTasks index n s) := by
  have ht : readyTasks[index]? = some readyTasks[index] := getElem?_eq_getElem hi
  have hr := retired_retireIdentifier readyTasks[index].identifier s
  unfold finishCallback
  rw [ht]
  subst hp
  refine .returned readyTasks[index] ?_ (by rw [hd]; exact ht) ?_ ⟨hr.marked, hr.active⟩ (by simp) (by simp)
  · simp only [waiting, hd, retire_scheduleInbox, retire_taskHeap, retire_sendInbox]
    split <;> rfl
  · show Driver.current (if _ then _ else _) = none
    split <;> rfl

theorem drive_effect (hp : Placed s) : Effect s (drive s) := by
  unfold Placed at hp
  unfold drive
  split
  · rename_i hd
    exact effect_drainInbox hd
  · rename_i sentTasks hd
    refine effect_driver ?_ (by rw [hd]; rfl) rfl
    rw [hd]
    simp [Driver.batch]
  · rename_i now readyTasks hd
    refine effect_driver ?_ (by rw [hd]; rfl) rfl
    rw [hd]
    simp [Driver.batch]
  · rename_i now t sentTasks readyTasks hd
    rw [hd] at hp
    exact effect_drainSent hd hp
  · rename_i now readyTasks hd
    rw [hd] at hp
    exact effect_drainReadyTasks hd hp
  · rename_i cycleStart readyTasks index n hd
    rw [hd] at hp
    exact effect_executeReadyTasks hd hp
  · rename_i cycleStart readyTasks index n hd
    rw [hd] at hp
    exact effect_startCallback hd hp.2
  · rename_i cycleStart readyTasks index n hd
    rw [hd] at hp
    exact effect_finishCallback hd hp.1 hp.2
  · rename_i readyTasks n hd
    refine .moved ?_ (by rw [hd]; rfl) rfl ⟨fun _ => Iff.rfl, rfl⟩ rfl rfl
    simp [waiting, hd, deferTasks, Driver.batch]

end Backlands.Reactor
