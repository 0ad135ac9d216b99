/-
  Backlands.Reactor.Order — tasks that are ready together run in order.

  Proved: of two tasks that are both ready before a cycle, the one that comes later by
  (fireAt, sequence) is not started before the other, in this cycle or in any later one the
  two are deferred to (`InTurn`, `inTurn_run`). What makes it so: the batch is sorted
  (`Sorted`), and a task that is ready before a cycle is in its batch, so both are
  (`unready_of_drive`).
-/

import Backlands.Reactor.Cancel
import Backlands.Reactor.Progress

namespace Backlands.Reactor

open Backlands.Lib List

variable {s : State} {a b t : Task}

/-! ## Sorted batches -/

instance : Std.Total Before where
  total a b := by
    unfold Before
    omega

instance : IsTrans Task Before where
  trans a b c := by
    unfold Before
    omega

/-- `a` comes before `b` by time and sequence number. -/
def Outranks (a b : Task) : Prop := a.fireAt < b.fireAt ∨ a.fireAt = b.fireAt ∧ a.sequence < b.sequence

theorem Outranks.not_before (h : Outranks a b) : ¬ Before b a := by
  unfold Outranks at h
  unfold Before
  omega

theorem Outranks.ne (h : Outranks a b) : a ≠ b := by
  rintro rfl
  unfold Outranks at h
  omega

def Driver.Sorted : Driver → Prop
  | .executing _ readyTasks _ _ => readyTasks.Pairwise Before
  | .committed _ readyTasks _ _ => readyTasks.Pairwise Before
  | .calling _ readyTasks _ _ => readyTasks.Pairwise Before
  | _ => True

structure Sorted (s : State) : Prop where
  heap : s.taskHeap.Pairwise Before
  batch : s.driver.Sorted

theorem pairwise_foldl_orderedInsert (l heap : List Task) (h : heap.Pairwise Before) :
    (l.foldl (fun heap t => heap.orderedInsert Before t) heap).Pairwise Before := by
  induction l generalizing heap with
  | nil => exact h
  | cons t l ih => exact ih _ (h.orderedInsert t _)

theorem sorted_discard {r : Reason} {d : Driver} (h : s.taskHeap.Pairwise Before) (hd : d.Sorted) :
    Sorted (discard t r d s) := by
  refine ⟨?_, hd⟩
  simpa [discard] using h

theorem sorted_drive (h : Sorted s) : Sorted (drive s) := by
  obtain ⟨hheap, hbatch⟩ := h
  unfold drive
  split
  · exact ⟨pairwise_foldl_orderedInsert _ _ hheap, trivial⟩
  · exact ⟨hheap, trivial⟩
  · exact ⟨hheap, trivial⟩
  · unfold drainSent
    split
    · exact sorted_discard hheap trivial
    · split
      · exact sorted_discard hheap trivial
      · exact ⟨hheap, trivial⟩
  · rename_i now readyTasks hd
    have hbegin : Sorted (beginExecution readyTasks s) := ⟨hheap, pairwise_insertionSort Before readyTasks⟩
    unfold drainReadyTasks
    split
    · exact hbegin
    rename_i u heap hcons
    have htail : heap.Pairwise Before := by
      rw [hcons] at hheap
      exact hheap.of_cons
    split
    · exact hbegin
    dsimp only
    split
    · exact sorted_discard htail trivial
    · split
      · exact sorted_discard htail trivial
      · exact ⟨htail, trivial⟩
  · rename_i cycleStart readyTasks index n hd
    rw [hd] at hbatch
    unfold executeReadyTasks
    split
    · exact ⟨hheap, trivial⟩
    split
    · exact sorted_discard hheap hbatch
    split
    · exact ⟨hheap, trivial⟩
    · split
      · exact sorted_discard hheap hbatch
      · exact ⟨hheap, hbatch⟩
  · rename_i cycleStart readyTasks index n hd
    have hkeep : Sorted s := ⟨hheap, hbatch⟩
    rw [hd] at hbatch
    unfold startCallback
    split
    · exact hkeep
    · exact ⟨hheap, hbatch⟩
  · rename_i cycleStart readyTasks index n hd
    have hkeep : Sorted s := ⟨hheap, hbatch⟩
    rw [hd] at hbatch
    unfold finishCallback
    split
    · exact hkeep
    refine ⟨by simpa using hheap, ?_⟩
    split
    · trivial
    · exact hbatch
  · exact ⟨hheap, trivial⟩

theorem enter_taskHeap (s : State) (i : Nat) : (enter i s).taskHeap = s.taskHeap := by
  unfold enter
  split
  · rfl
  rename_i c _
  cases c with
  | send u => simp only [enterCall, enterSend]; split <;> rfl
  | schedule u =>
    grind [enterCall, enterSchedule]
  | cancel j => simp only [enterCall, enterCancel]; split <;> rfl

theorem call_queues (s : State) (r : Request) :
    (call r s).taskHeap = s.taskHeap ∧ (call r s).sendInbox = s.sendInbox ∧
    (call r s).scheduleInbox = s.scheduleInbox ∧ (call r s).clock = s.clock := by
  cases r with
  | send now expirationTime callback => simp only [call, callSend]; split <;> exact ⟨rfl, rfl, rfl, rfl⟩
  | schedule now delay callback => simp only [call, callSchedule]; split <;> exact ⟨rfl, rfl, rfl, rfl⟩
  | cancel i => simp only [call, callCancel]; split <;> exact ⟨rfl, rfl, rfl, rfl⟩

theorem sorted_step (h : Sorted s) (e : Ev) : Sorted (step s e) := by
  cases e with
  | tick d => exact ⟨h.heap, h.batch⟩
  | start => exact ⟨h.heap, h.batch⟩
  | shutdown => exact ⟨h.heap, h.batch⟩
  | configure _ _ _ => exact ⟨h.heap, h.batch⟩
  | call r =>
    refine ⟨?_, ?_⟩
    · show (call r s).taskHeap.Pairwise Before
      rw [(call_queues s r).1]
      exact h.heap
    · show (call r s).driver.Sorted
      rw [(aside_call s r).driver]
      exact h.batch
  | enter i =>
    refine ⟨?_, ?_⟩
    · show (enter i s).taskHeap.Pairwise Before
      rw [enter_taskHeap]
      exact h.heap
    · show (enter i s).driver.Sorted
      rw [(aside_enter s i).driver]
      exact h.batch
  | drive => exact sorted_drive h

theorem sorted_fresh (h : Fresh s) : Sorted s := by
  obtain ⟨-, -, -, -, -, -, hheap, -, hdrv, -⟩ := h
  refine ⟨by simp [hheap], ?_⟩
  rw [hdrv]
  trivial

/-! ## Ready tasks stay ready -/

/-- The task waits where this cycle does not take it from: it is not due, or it came too
    late. -/
def Unready (t : Task) (s : State) : Prop :=
  match s.driver with
  | .idle => (t ∈ s.scheduleInbox ∨ t ∈ s.taskHeap) ∧ s.clock < t.fireAt
  | .swapped _ => t ∈ s.scheduleInbox ∨ t ∈ s.sendInbox ∨ t ∈ s.taskHeap ∧ s.clock < t.fireAt
  | .sent _ _ _ => t ∈ s.scheduleInbox ∨ t ∈ s.sendInbox ∨ t ∈ s.taskHeap ∧ s.clock < t.fireAt
  | .popping now _ => t ∈ s.scheduleInbox ∨ t ∈ s.sendInbox ∨ t ∈ s.taskHeap ∧ now < t.fireAt
  | _ => t ∈ s.scheduleInbox ∨ t ∈ s.sendInbox ∨ t ∈ s.taskHeap

theorem unready_discard {u : Task} {r : Reason} {d : Driver} :
    Unready t (discard u r d s) ↔ Unready t { s with driver := d } := by
  unfold Unready
  simp only [discard, retire_scheduleInbox, retire_sendInbox, retire_taskHeap, retire_clock]

theorem not_due_of_head {now : Int} {u : Task} {heap : List Task} (h : s.taskHeap = u :: heap) (hs : Sorted s)
    (hu : now < u.fireAt) (ht : t ∈ s.taskHeap) : now < t.fireAt := by
  have hsorted := hs.heap
  rw [h] at hsorted ht
  rcases mem_cons.mp ht with rfl | ht
  · exact hu
  · have hb := (pairwise_cons.mp hsorted).1 t ht
    unfold Before at hb
    omega

theorem unready_of_drive (hs : Sorted s) (h : Unready t (drive s)) : Unready t s := by
  cases hdr : s.driver with
  | idle =>
    simp only [drive, hdr, drainInbox, Unready, not_mem_nil, false_or] at h ⊢
    obtain ⟨hmem, hlate⟩ := h
    have hmem' := (perm_foldl_orderedInsert s.scheduleInbox s.taskHeap).mem_iff.mp hmem
    exact ⟨mem_append.mp hmem', hlate⟩
  | swapped sentTasks =>
    simp only [drive, hdr, Unready] at h ⊢
    exact h
  | sent now sentTasks readyTasks =>
    cases sentTasks with
    | nil =>
      simp only [drive, hdr, Unready] at h ⊢
      exact h
    | cons u sentTasks =>
      simp only [drive, hdr, drainSent] at h
      simp only [Unready, hdr]
      split at h
      · exact unready_discard.mp h
      · split at h
        · exact unready_discard.mp h
        · exact h
  | popping now readyTasks =>
    have hstep : drive s = drainReadyTasks now readyTasks s := by simp only [drive, hdr]
    rw [hstep] at h
    simp only [Unready, hdr]
    unfold drainReadyTasks beginExecution at h
    split at h
    · rename_i hnil
      rcases h with h | h | h
      · exact .inl h
      · exact .inr (.inl h)
      · grind
    · rename_i u heap hcons
      have hpop : Unready t { s with taskHeap := heap, driver := .popping now readyTasks } →
          t ∈ s.scheduleInbox ∨ t ∈ s.sendInbox ∨ t ∈ s.taskHeap ∧ now < t.fireAt := by
        rintro (h | h | ⟨h, hlate⟩)
        · exact .inl h
        · exact .inr (.inl h)
        · refine .inr (.inr ⟨?_, hlate⟩)
          rw [hcons]
          exact mem_cons_of_mem _ h
      split at h
      · rename_i hu
        rcases h with h | h | h
        · exact .inl h
        · exact .inr (.inl h)
        · exact .inr (.inr ⟨h, not_due_of_head hcons hs hu h⟩)
      · dsimp only at h
        split at h
        · exact hpop (unready_discard.mp h)
        · split at h
          · exact hpop (unready_discard.mp h)
          · exact hpop h
  | executing cycleStart readyTasks index n =>
    simp only [drive, hdr, executeReadyTasks] at h
    simp only [Unready, hdr]
    split at h
    · exact h
    split at h
    · exact unready_discard.mp h
    split at h
    · exact h
    · split at h
      · exact unready_discard.mp h
      · exact h
  | committed cycleStart readyTasks index n =>
    simp only [drive, hdr, startCallback] at h
    simp only [Unready, hdr]
    split at h
    · simpa only [Unready, hdr] using h
    · exact h
  | calling cycleStart readyTasks index n =>
    simp only [drive, hdr, finishCallback] at h
    simp only [Unready, hdr]
    split at h
    · simpa only [Unready, hdr] using h
    by_cases hbudget : 0 < s.timeBudget ∧ s.timeBudget ≤ s.clock - cycleStart
    · simp only [Unready, if_pos hbudget, retire_scheduleInbox, retire_sendInbox, retire_taskHeap] at h
      exact h
    · simp only [Unready, if_neg hbudget, retire_scheduleInbox, retire_sendInbox, retire_taskHeap] at h
      exact h
  | deferring readyTasks n =>
    grind [drive, deferTasks, Unready]

theorem enter_queues (s : State) (i : Nat) :
    (enter i s).taskHeap = s.taskHeap ∧ (enter i s).clock = s.clock ∧
    ∃ u, (∀ t, t ∈ (enter i s).sendInbox → t ∈ s.sendInbox ∨ t = u ∧ (enter i s).accepted = s.accepted ++ [u]) ∧
      ∀ t, t ∈ (enter i s).scheduleInbox → t ∈ s.scheduleInbox ∨ t = u ∧ (enter i s).accepted = s.accepted ++ [u] := by
  have hnew : ∀ {l : List Task} {u t : Task} {P : Prop}, P → t ∈ l ++ [u] → t ∈ l ∨ t = u ∧ P := by
    grind
  unfold enter
  split
  · exact ⟨rfl, rfl, ⟨0, none, 0, 0, false⟩, fun t h => .inl h, fun t h => .inl h⟩
  rename_i c _
  cases c with
  | send u =>
    simp only [enterCall, enterSend]
    split
    · exact ⟨rfl, rfl, u, fun t h => .inl h, fun t h => .inl h⟩
    · exact ⟨rfl, rfl, u, fun t h => hnew rfl h, fun t h => .inl h⟩
  | schedule u =>
    simp only [enterCall, enterSchedule]
    split
    · exact ⟨rfl, rfl, u, fun t h => .inl h, fun t h => .inl h⟩
    · split
      · exact ⟨rfl, rfl, u, fun t h => .inl h, fun t h => .inl h⟩
      · exact ⟨rfl, rfl, _, fun t h => .inl h, fun t h => hnew rfl h⟩
  | cancel j =>
    simp only [enterCall, enterCancel]
    split
    · exact ⟨rfl, rfl, ⟨0, none, 0, 0, false⟩, fun t h => .inl h, fun t h => .inl h⟩
    · exact ⟨rfl, rfl, ⟨0, none, 0, 0, false⟩, fun t h => .inl h, fun t h => .inl h⟩

theorem unready_mono {s' : State} (hd : s'.driver = s.driver) (hc : s.clock ≤ s'.clock)
    (hheap : t ∈ s'.taskHeap → t ∈ s.taskHeap) (hsend : t ∈ s'.sendInbox → t ∈ s.sendInbox)
    (hsched : t ∈ s'.scheduleInbox → t ∈ s.scheduleInbox) (h : Unready t s') : Unready t s := by
  have hlate : s'.clock < t.fireAt → s.clock < t.fireAt := fun h => lt_of_le_of_lt hc h
  unfold Unready at h ⊢
  rw [hd] at h
  cases hdr : s.driver with
  | idle =>
    rw [hdr] at h
    exact ⟨h.1.imp hsched hheap, hlate h.2⟩
  | swapped _ =>
    rw [hdr] at h
    exact h.imp hsched (Or.imp hsend (And.imp hheap hlate))
  | sent _ _ _ =>
    rw [hdr] at h
    exact h.imp hsched (Or.imp hsend (And.imp hheap hlate))
  | popping _ _ =>
    rw [hdr] at h
    exact h.imp hsched (Or.imp hsend (And.imp_left hheap))
  | executing _ _ _ _ =>
    rw [hdr] at h
    exact h.imp hsched (Or.imp hsend hheap)
  | committed _ _ _ _ =>
    rw [hdr] at h
    exact h.imp hsched (Or.imp hsend hheap)
  | calling _ _ _ _ =>
    rw [hdr] at h
    exact h.imp hsched (Or.imp hsend hheap)
  | deferring _ _ =>
    rw [hdr] at h
    exact h.imp hsched (Or.imp hsend hheap)

theorem unready_of_aside {e : Ev} (he : e ≠ .drive) (h' : Accounted (step s e)) (ht : t ∈ s.accepted)
    (h : Unready t (step s e)) : Unready t s := by
  cases e with
  | drive => exact absurd rfl he
  | tick d =>
    have hc : s.clock ≤ (step s (.tick d)).clock := by
      show s.clock ≤ s.clock + d
      omega
    refine unready_mono ?_ hc ?_ ?_ ?_ h
    · rfl
    · exact id
    · exact id
    · exact id
  | start => exact unready_mono rfl (le_refl _) id id id h
  | shutdown => exact unready_mono rfl (le_refl _) id id id h
  | configure _ _ _ => exact unready_mono rfl (le_refl _) id id id h
  | call r =>
    obtain ⟨hheap, hsend, hsched, hclock⟩ := call_queues s r
    refine unready_mono (aside_call s r).driver hclock.ge ?_ ?_ ?_ h
    · exact fun hm => hheap ▸ hm
    · exact fun hm => hsend ▸ hm
    · exact fun hm => hsched ▸ hm
  | enter i =>
    obtain ⟨hheap, hclock, u, hsend, hsched⟩ := enter_queues s i
    have hnew : ¬ (t = u ∧ (enter i s).accepted = s.accepted ++ [u]) := by
      rintro ⟨rfl, hacc⟩
      have hn : (enter i s).accepted.Nodup := h'.everywhere.nodup_iff.mp h'.nodup
      rw [hacc] at hn
      exact (nodup_append.mp hn).2.2 t ht t (mem_singleton_self _) rfl
    refine unready_mono (aside_enter s i).driver hclock.ge ?_ ?_ ?_ h
    · exact fun hm => hheap ▸ hm
    · exact fun hm => (hsend t hm).resolve_right hnew
    · exact fun hm => (hsched t hm).resolve_right hnew

/-! ## Two tasks that are ready together -/

/-- `b` has not been started before `a`, and will not be: while `a` waits, either both are
    ready, or `b` has gone without being started. -/
structure InTurn (a b : Task) (s : State) : Prop where
  knownA : a ∈ s.accepted
  knownB : b ∈ s.accepted
  order : ¬ [b, a].Sublist (s.started.map (·.2))
  here : a ∈ waiting s →
    b ∈ waiting s ∧ ¬ Unready a s ∧ ¬ Unready b s ∨ b ∉ s.started.map (·.2) ∧ b ∉ waiting s

theorem pair_sublist_snoc {l : List Task} {x : Task} (h : [b, a].Sublist (l ++ [x])) :
    [b, a].Sublist l ∨ x = a ∧ b ∈ l := by
  obtain ⟨l₁, l₂, he, h₁, h₂⟩ := sublist_append_iff.mp h
  rcases sublist_singleton.mp h₂ with rfl | rfl
  · left
    rw [append_nil] at he
    exact he ▸ h₁
  · right
    have he' : [b] ++ [a] = l₁ ++ [x] := he
    obtain ⟨hb, ha⟩ := append_inj' he' rfl
    refine ⟨(List.cons.inj ha).1.symm, ?_⟩
    exact h₁.subset (hb ▸ mem_singleton_self b)

theorem inTurn_aside {e : Ev} (he : e ≠ .drive) (hi : InTurn a b s) (h : Accounted s) (h' : Accounted (step s e)) :
    InTurn a b (step s e) := by
  have ha := aside_step s he
  refine ⟨ha.accepted hi.knownA, ha.accepted hi.knownB, ?_, ?_⟩
  · rw [ha.started]
    exact hi.order
  intro hw
  rcases hi.here (waiting_of_aside h h' ha hi.knownA hw) with ⟨hb, hra, hrb⟩ | ⟨hns, hnw⟩
  · by_cases hb' : b ∈ waiting (step s e)
    · left
      exact ⟨hb', fun hu => hra (unready_of_aside he h' hi.knownA hu),
        fun hu => hrb (unready_of_aside he h' hi.knownB hu)⟩
    right
    refine ⟨?_, hb'⟩
    rw [ha.started]
    intro hs
    obtain ⟨⟨c, u⟩, hm, rfl⟩ := mem_map.mp hs
    exact h.not_waiting_of_started hm hb
  · right
    rw [ha.started]
    exact ⟨hns, fun hw' => hnw (waiting_of_aside h h' ha hi.knownB hw')⟩

theorem not_ready_of_chosen (hs : Sorted s) (ho : Outranks a b) (hc : s.driver.chosen = some b) (hw : a ∈ waiting s) :
    Unready a s := by
  cases hdr : s.driver with
  | committed cycleStart readyTasks index n =>
    rw [hdr] at hc
    have hsorted := hs.batch
    rw [hdr] at hsorted
    simp only [Unready, hdr]
    simp only [waiting, hdr, mem_append, Driver.batch] at hw
    rcases hw with hw | hw | hw | hw
    · exact .inl hw
    · exact .inr (.inr hw)
    · exact .inr (.inl hw)
    exfalso
    rw [drop_eq_cons hc] at hw
    rcases mem_cons.mp hw with rfl | hw
    · exact ho.ne rfl
    · have hdrop : (readyTasks.drop index).Pairwise Before := List.Pairwise.sublist (drop_sublist _ _) hsorted
      rw [drop_eq_cons hc] at hdrop
      exact ho.not_before ((pairwise_cons.mp hdrop).1 a hw)
  | idle => rw [hdr] at hc; cases hc
  | swapped _ => rw [hdr] at hc; cases hc
  | sent _ _ _ => rw [hdr] at hc; cases hc
  | popping _ _ => rw [hdr] at hc; cases hc
  | executing _ _ _ _ => rw [hdr] at hc; cases hc
  | calling _ _ _ _ => rw [hdr] at hc; cases hc
  | deferring _ _ => rw [hdr] at hc; cases hc

theorem inTurn_drive (hi : InTurn a b s) (ho : Outranks a b) (hres : Reserved s) (hs : Sorted s) (h : Accounted s) :
    InTurn a b (drive s) := by
  have hacc := (drive_sameCalls s).accepted
  have hsub := waiting_drive_subset hres.placed
  have hnotStarted : ∀ {t : Task}, t ∈ waiting s → t ∉ s.started.map (·.2) := by
    intro t hw hm
    obtain ⟨⟨c, u⟩, hstarted, rfl⟩ := mem_map.mp hm
    exact h.not_waiting_of_started hstarted hw
  -- What a started callback does to the order.
  have horder : ¬ [b, a].Sublist ((drive s).started.map (·.2)) := by
    rcases drive_effect hres.placed with ⟨-, -, -, -, hst, -⟩ | ⟨u, r, -, -, -, -, -, hst, -⟩ |
      ⟨u, hw, -, -, -, -, hst, -⟩ | ⟨u, -, -, -, -, hst, -⟩
    · rw [hst]
      exact hi.order
    · rw [hst]
      exact hi.order
    · rw [hst, map_append]
      intro hsubl
      rcases pair_sublist_snoc hsubl with hsubl | ⟨rfl, hb⟩
      · exact hi.order hsubl
      · rcases hi.here (hw.mem_iff.mpr mem_cons_self) with ⟨hbw, -, -⟩ | ⟨hns, -⟩
        · exact hnotStarted hbw hb
        · exact hns hb
    · rw [hst]
      exact hi.order
  refine ⟨hacc ▸ hi.knownA, hacc ▸ hi.knownB, horder, ?_⟩
  intro hw
  have hwa := hsub hw
  rcases hi.here hwa with ⟨hb, hra, hrb⟩ | ⟨hns, hnw⟩
  · by_cases hb' : b ∈ waiting (drive s)
    · left
      exact ⟨hb', fun hu => hra (unready_of_drive hs hu), fun hu => hrb (unready_of_drive hs hu)⟩
    right
    refine ⟨?_, hb'⟩
    rcases drive_effect hres.placed with ⟨-, -, -, -, hst, -⟩ | ⟨u, r, -, -, -, -, -, hst, -⟩ |
      ⟨u, -, -, -, -, hn, hst, -⟩ | ⟨u, -, -, -, -, hst, -⟩
    · rw [hst]
      exact hnotStarted hb
    · rw [hst]
      exact hnotStarted hb
    · rw [hst, map_append]
      intro hm
      rcases mem_append.mp hm with hm | hm
      · exact hnotStarted hb hm
      · obtain rfl : b = u := by simpa using hm
        exact hra (not_ready_of_chosen hs ho hn hwa)
    · rw [hst]
      exact hnotStarted hb
  · right
    refine ⟨?_, fun hbw => hnw (hsub hbw)⟩
    rcases drive_effect hres.placed with ⟨-, -, -, -, hst, -⟩ | ⟨u, r, -, -, -, -, -, hst, -⟩ |
      ⟨u, hp, -, -, -, -, hst, -⟩ | ⟨u, -, -, -, -, hst, -⟩
    · rw [hst]
      exact hns
    · rw [hst]
      exact hns
    · rw [hst, map_append]
      intro hm
      rcases mem_append.mp hm with hm | hm
      · exact hns hm
      · obtain rfl : b = u := by simpa using hm
        exact hnw (hp.mem_iff.mpr mem_cons_self)
    · rw [hst]
      exact hns

theorem inTurn_run (ho : Outranks a b) (es : List Ev) :
    ∀ {s : State}, InTurn a b s → Reserved s → Sorted s → Accounted s → InTurn a b (run step s es) := by
  induction es with
  | nil => exact fun hi _ _ _ => hi
  | cons e es ih =>
    intro s hi hres hs h
    have hres' := reserved_step hres e
    have h' := accounted_step hres h e
    refine ih ?_ hres' (sorted_step hs e) h'
    by_cases he : e = .drive
    · subst he
      exact inTurn_drive hi ho hres hs h
    · exact inTurn_aside he hi h h'

/-! ## Every run -/

theorem sorted_of_reachable (h : Reachable s) : Sorted s := by
  refine Reach.inv (I := Sorted) ?_ ?_ h
  · intro s hs
    exact sorted_fresh hs
  · intro s e _ hs
    exact sorted_step hs e

/-- The task is ready before a cycle: it was sent or deferred, or it is scheduled and due. -/
def ReadyBefore (s : State) (t : Task) : Prop :=
  t ∈ s.sendInbox ∨ (t ∈ s.scheduleInbox ∨ t ∈ s.taskHeap) ∧ t.fireAt ≤ s.clock

theorem ReadyBefore.waiting (h : ReadyBefore s t) : t ∈ waiting s := by
  simp only [Reactor.waiting, mem_append]
  rcases h with h | ⟨h | h, -⟩
  · exact .inr (.inr (.inl h))
  · exact .inl h
  · exact .inr (.inl h)

theorem ReadyBefore.not_unready (h : ReadyBefore s t) (hd : s.driver = .idle) (hn : (Reactor.waiting s).Nodup) :
    ¬ Unready t s := by
  simp only [Unready, hd]
  rintro ⟨hmem, hlate⟩
  rcases h with h | ⟨-, h⟩
  · rcases hmem with hmem | hmem
    · exact (nodup_append.mp hn).2.2 t hmem t (mem_append_right _ (mem_append_left _ h)) rfl
    · exact (nodup_append.mp (nodup_append.mp hn).2.1).2.2 t hmem t (mem_append_left _ h) rfl
  · omega

/-- No task is lost or run twice, and none out of turn. In every reachable state each task
    taken in waits, has been started once or was let go, once and for all, for a cancellation
    of it or a deadline it has passed; left alone, with every task due, the driver leaves none
    waiting; and of two tasks that are ready before a cycle, the later one is never started
    before the earlier one. -/
theorem tasks_run_once_in_order (h : Reachable s) :
    (∀ t ∈ s.accepted,
      (s.started.map (·.2)).count t + (s.dropped.map (·.1)).count t + (waiting s).count t = 1) ∧
    (∀ t ∈ s.started.map (·.2) ++ s.dropped.map (·.1) ++ waiting s, t ∈ s.accepted) ∧
    (∀ t r, (t, r) ∈ s.dropped →
      r = .cancelled ∧ t ∈ s.cancels ∨ r = .expired ∧ t.hasExpired s.clock = true) ∧
    ((∀ t ∈ waiting s, t.fireAt ≤ s.clock) → ∃ n, waiting (drive^[n] s) = []) ∧
    (s.driver = .idle → ∀ a b, ReadyBefore s a → ReadyBefore s b → Outranks a b →
      ∀ es, ¬ [b, a].Sublist ((run step s es).started.map (·.2))) := by
  obtain ⟨hres, hacc⟩ := accounted_of_reachable h
  refine ⟨?_, ?_, ?_, ?_, ?_⟩
  · intro t ht
    have hone := count_eq_one_of_mem hacc.nodup (hacc.everywhere.mem_iff.mpr ht)
    rw [everywhere, count_append, count_append] at hone
    omega
  · intro t ht
    apply hacc.everywhere.mem_iff.mp
    rw [everywhere, ← append_assoc]
    exact ht
  · intro t r hm
    have hex := hacc.excused (t, r) hm
    cases r with
    | cancelled => exact .inl ⟨rfl, hex⟩
    | expired => exact .inr ⟨rfl, hex⟩
    | empty => exact hex.elim
  · exact drive_exhausts hres.placed
  · intro hd a b ha hb ho es
    have hn := hacc.nodup_waiting
    have hstart : InTurn a b s := by
      refine ⟨hacc.accepted_of_waiting ha.waiting, hacc.accepted_of_waiting hb.waiting, ?_, ?_⟩
      · intro hsub
        obtain ⟨⟨c, u⟩, hm, rfl⟩ := mem_map.mp (hsub.subset (mem_cons_of_mem b mem_cons_self))
        exact hacc.not_waiting_of_started hm ha.waiting
      · intro _
        exact .inl ⟨hb.waiting, ha.not_unready hd hn, hb.not_unready hd hn⟩
    exact (inTurn_run ho es hstart hres (sorted_of_reachable h) hacc).order

/-- Two sent tasks, one started by the first cycle and one deferred by it. -/
theorem tasks_run_once_in_order_deferred :
    ¬ [(⟨0, none, 0, 1, true⟩ : Task), ⟨0, none, 0, 0, true⟩].Sublist
      ((run step (run step wrapping
        [.configure 1 0 0, .call (.send 0 none true), .enter 0, .call (.send 0 none true), .enter 0])
        (List.replicate 20 .drive)).started.map (·.2)) := by
  have h := tasks_run_once_in_order (reachable_wrapping
    [.configure 1 0 0, .call (.send 0 none true), .enter 0, .call (.send 0 none true), .enter 0])
  refine h.2.2.2.2 (by decide) ⟨0, none, 0, 0, true⟩ ⟨0, none, 0, 1, true⟩ (.inl (by decide)) (.inl (by decide)) ?_ _
  exact .inr ⟨rfl, by decide⟩

end Backlands.Reactor
