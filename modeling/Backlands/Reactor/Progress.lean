/-
  Backlands.Reactor.Progress — a reactor that is left alone runs out of tasks.

  Proved: a cycle ends after finitely many of the driver's steps (`rank_drive`), and a cycle
  that begins with a task that is due lets at least one task run or go (`undone_drive`): the
  fairness limit and the time budget are looked at only after the first one. So when every
  task is due, no call is made and the clock stands, no task is waiting in the end
  (`drive_exhausts`).
-/

import Backlands.Reactor.Accounts

namespace Backlands.Reactor

open Backlands.Lib List

variable {s : State}

/-! ## A cycle ends -/

/-- How many steps the cycle can still take, at most. -/
def rank (s : State) : Nat :=
  match s.driver with
  | .idle => 0
  | .swapped sentTasks => 4 * s.taskHeap.length + 4 * sentTasks.length + 5
  | .sent _ sentTasks readyTasks =>
    4 * s.taskHeap.length + 4 * sentTasks.length + 3 * readyTasks.length + 4
  | .popping _ readyTasks => 4 * s.taskHeap.length + 3 * readyTasks.length + 3
  | .executing _ readyTasks index _ => 3 * (readyTasks.length - index) + 2
  | .committed _ readyTasks index _ => 3 * (readyTasks.length - index) + 1
  | .calling _ readyTasks index _ => 3 * (readyTasks.length - index)
  | .deferring _ _ => 1

theorem rank_discard (t : Task) (r : Reason) (d : Driver) (s : State) : rank (discard t r d s) = rank { s with driver := d } := by
  simp [rank, discard]

theorem rank_drive (hp : Placed s) (hd : s.driver ≠ .idle) : rank (drive s) < rank s := by
  unfold Placed at hp
  cases hdr : s.driver with
  | idle => exact absurd hdr hd
  | swapped sentTasks => simp [drive, rank, hdr]
  | sent now sentTasks readyTasks =>
    cases sentTasks with
    | nil => simp [drive, rank, hdr]
    | cons t sentTasks =>
      simp only [drive, hdr, drainSent]
      split
      · rw [rank_discard]
        simp [rank, hdr, length_cons]
      split
      · rw [rank_discard]
        simp only [rank, hdr, length_cons]
        omega
      · simp only [rank, hdr, length_cons, length_append, length_nil]
        omega
  | popping now readyTasks =>
    simp only [drive, hdr, drainReadyTasks, beginExecution]
    split
    · simp only [rank, hdr, length_insertionSort]
      omega
    rename_i t heap hheap
    split
    · simp only [rank, hdr, length_insertionSort]
      omega
    split
    · rw [rank_discard]
      simp [rank, hdr, hheap, length_cons]
    split
    · rw [rank_discard]
      simp only [rank, hdr, hheap, length_cons]
      omega
    · simp only [rank, hdr, hheap, length_cons, length_append, length_nil]
      omega
  | executing cycleStart readyTasks index n =>
    simp only [drive, hdr, executeReadyTasks]
    split
    · simp only [rank, hdr]
      omega
    rename_i t ht
    have hlt := (List.getElem?_eq_some_iff.mp ht).1
    split
    · rw [rank_discard]
      simp only [rank, hdr]
      omega
    split
    · simp only [rank, hdr]
      omega
    split
    · rw [rank_discard]
      simp only [rank, hdr]
      omega
    · simp only [rank, hdr]
      omega
  | committed cycleStart readyTasks index n =>
    rw [hdr] at hp
    simp only [drive, hdr, startCallback, getElem?_eq_getElem hp.2, rank]
    omega
  | calling cycleStart readyTasks index n =>
    rw [hdr] at hp
    have hi : index < readyTasks.length := hp.2
    simp only [drive, hdr, finishCallback, getElem?_eq_getElem hi]
    split
    · simp only [rank, hdr]
      omega
    · simp only [rank, hdr]
      omega
  | deferring readyTasks n => simp [drive, hdr, deferTasks, rank]

/-! ## A cycle lets a task go -/

/-- The cycle under way has all that waits in its hands and has let none of it go yet. -/
def Undone (s : State) : Prop :=
  s.sendInbox = [] ∧ s.scheduleInbox = [] ∧
  match s.driver with
  | .swapped _ => True
  | .sent _ _ _ => True
  | .popping now _ => now = s.clock
  | .executing _ _ index n => index = 0 ∧ n = 0 ∧ s.taskHeap = []
  | .committed _ _ _ _ => True
  | _ => False

def AllDue (s : State) : Prop := ∀ t ∈ waiting s, t.fireAt ≤ s.clock

theorem waiting_drive_length (hp : Placed s) : (waiting (drive s)).length ≤ (waiting s).length := by
  rcases drive_effect hp with ⟨hw, -, -, -, -, -⟩ | ⟨t, r, hw, -, -, -, -, -, -⟩ | ⟨t, hw, -, -, -, -, -, -⟩ |
    ⟨t, hw, -, -, -, -, -⟩
  · exact hw.length_eq.le
  · have := hw.length_eq
    simp only [length_cons] at this
    omega
  · have := hw.length_eq
    simp only [length_cons] at this
    omega
  · rw [hw]

theorem waiting_drive_subset (hp : Placed s) : waiting (drive s) ⊆ waiting s := by
  rcases drive_effect hp with ⟨hw, -, -, -, -, -⟩ | ⟨t, r, hw, -, -, -, -, -, -⟩ | ⟨t, hw, -, -, -, -, -, -⟩ |
    ⟨t, hw, -, -, -, -, -⟩
  · exact hw.subset
  · exact fun u hu => hw.mem_iff.mpr (mem_cons_of_mem _ hu)
  · exact fun u hu => hw.mem_iff.mpr (mem_cons_of_mem _ hu)
  · rw [hw]
    exact fun u hu => hu

theorem allDue_drive (hp : Placed s) (h : AllDue s) : AllDue (drive s) := by
  intro t ht
  rw [(drive_sameCalls s).clock]
  exact h t (waiting_drive_subset hp ht)

theorem waiting_discard_length {t : Task} {r : Reason} {d : Driver} (hb : s.driver.batch = t :: d.batch) :
    (waiting (discard t r d s)).length < (waiting s).length := by
  rw [waiting_discard, waiting, hb]
  simp

/-- A step of the cycle lets a task go, or the cycle has still let none go. -/
theorem undone_drive (hp : Placed s) (h : Undone s) (hdue : AllDue s) (hw : waiting s ≠ []) :
    (waiting (drive s)).length < (waiting s).length ∨ Undone (drive s) := by
  obtain ⟨hsend, hsched, hd⟩ := h
  unfold Placed at hp
  cases hdr : s.driver with
  | idle => rw [hdr] at hd; exact hd.elim
  | calling _ _ _ _ => rw [hdr] at hd; exact hd.elim
  | deferring _ _ => rw [hdr] at hd; exact hd.elim
  | swapped sentTasks =>
    right
    simp only [drive, hdr]
    exact ⟨hsend, hsched, trivial⟩
  | sent now sentTasks readyTasks =>
    cases sentTasks with
    | nil =>
      right
      simp only [drive, hdr]
      exact ⟨hsend, hsched, rfl⟩
    | cons t sentTasks =>
      have hb : ∀ now, s.driver.batch = t :: (Driver.sent now sentTasks readyTasks).batch := by
        intro now
        rw [hdr]
        rfl
      simp only [drive, hdr, drainSent]
      split
      · exact .inl (waiting_discard_length (hb now))
      · split
        · exact .inl (waiting_discard_length (hb now))
        · exact .inr ⟨hsend, hsched, trivial⟩
  | popping now readyTasks =>
    rw [hdr] at hd
    obtain rfl : now = s.clock := hd
    have hstep : drive s = drainReadyTasks s.clock readyTasks s := by simp only [drive, hdr]
    rw [hstep]
    unfold drainReadyTasks beginExecution
    split
    · rename_i hheap
      exact .inr ⟨hsend, hsched, rfl, rfl, hheap⟩
    rename_i t heap hheap
    have htw : t ∈ waiting s := by simp [waiting, hheap]
    rw [if_neg (by have := hdue t htw; omega)]
    have hlen : ∀ r, (waiting (discard t r (.popping s.clock readyTasks) { s with taskHeap := heap })).length <
        (waiting s).length := by
      intro r
      rw [waiting_discard, waiting, hdr, hheap]
      simp
    dsimp only
    split
    · exact .inl (hlen _)
    · split
      · exact .inl (hlen _)
      · exact .inr ⟨hsend, hsched, rfl⟩
  | executing cycleStart readyTasks index n =>
    rw [hdr] at hd
    obtain ⟨rfl, rfl, hheap⟩ := hd
    simp only [drive, hdr, executeReadyTasks]
    split
    · rename_i hnone
      have hnil : readyTasks = [] := by simpa using hnone
      simp [waiting, hsend, hsched, hheap, hdr, Driver.batch, hnil] at hw
    rename_i t ht
    have hb : s.driver.batch = t :: (Driver.executing cycleStart readyTasks (0 + 1) (0 + 1)).batch := by
      rw [hdr]
      exact drop_eq_cons ht
    split
    · exact .inl (waiting_discard_length hb)
    rw [if_neg (by omega)]
    split
    · exact .inl (waiting_discard_length hb)
    · exact .inr ⟨hsend, hsched, trivial⟩
  | committed cycleStart readyTasks index n =>
    rw [hdr] at hp
    left
    have hi : index < readyTasks.length := hp.2
    simp only [drive, hdr, startCallback, getElem?_eq_getElem hi, waiting, Driver.batch, length_append,
      length_drop]
    omega

/-! ## Cycle after cycle -/

theorem placed_iterate (hp : Placed s) (n : Nat) : Placed (drive^[n] s) := by
  induction n generalizing s with
  | zero => exact hp
  | succ n ih => exact ih (placed_drive hp)

theorem exists_idle (hp : Placed s) (hdue : AllDue s) :
    ∃ n, (drive^[n] s).driver = .idle ∧ AllDue (drive^[n] s) ∧ (waiting (drive^[n] s)).length ≤ (waiting s).length := by
  induction hr : rank s using Nat.strong_induction_on generalizing s with
  | _ k ih =>
    by_cases hd : s.driver = .idle
    · exact ⟨0, hd, hdue, le_refl _⟩
    · obtain ⟨n, hn, hdue', hlen⟩ :=
        ih _ (hr ▸ rank_drive hp hd) (placed_drive hp) (allDue_drive hp hdue) rfl
      exact ⟨n + 1, hn, hdue', hlen.trans (waiting_drive_length hp)⟩

theorem exists_shorter (hp : Placed s) (hdue : AllDue s) (hu : Undone s) (hw : waiting s ≠ []) :
    ∃ n, AllDue (drive^[n] s) ∧ (waiting (drive^[n] s)).length < (waiting s).length := by
  induction hr : rank s using Nat.strong_induction_on generalizing s with
  | _ k ih =>
    rcases undone_drive hp hu hdue hw with hlt | hu'
    · exact ⟨1, allDue_drive hp hdue, hlt⟩
    by_cases hlt : (waiting (drive s)).length < (waiting s).length
    · exact ⟨1, allDue_drive hp hdue, hlt⟩
    have hlen := waiting_drive_length hp
    have hw' : waiting (drive s) ≠ [] := by
      intro hnil
      rw [hnil, length_nil] at hlt hlen
      exact hw (length_eq_zero_iff.mp (by omega))
    have hidle : s.driver ≠ .idle := by
      intro hd
      have := hu.2.2
      rw [hd] at this
      exact this
    obtain ⟨n, hdue', hn⟩ :=
      ih _ (hr ▸ rank_drive hp hidle) (placed_drive hp) (allDue_drive hp hdue) hu' hw' rfl
    exact ⟨n + 1, hdue', by
      show (waiting (drive^[n] (drive s))).length < _
      omega⟩

theorem drive_exhausts (hp : Placed s) (hdue : AllDue s) : ∃ n, waiting (drive^[n] s) = [] := by
  induction hr : (waiting s).length using Nat.strong_induction_on generalizing s with
  | _ k ih =>
    by_cases hw : waiting s = []
    · exact ⟨0, hw⟩
    obtain ⟨m, hidle, hdue₁, hlen₁⟩ := exists_idle hp hdue
    have hp₁ := placed_iterate hp m
    by_cases hw₁ : waiting (drive^[m] s) = []
    · exact ⟨m, hw₁⟩
    · -- The next cycle takes everything in.
      have hu : Undone (drive (drive^[m] s)) := by
        simp only [drive, hidle, drainInbox]
        exact ⟨rfl, rfl, trivial⟩
      have hp₂ := placed_drive hp₁
      have hdue₂ := allDue_drive hp₁ hdue₁
      have hlen₂ := waiting_drive_length hp₁
      by_cases hw₂ : waiting (drive (drive^[m] s)) = []
      · refine ⟨m + 1, ?_⟩
        rw [Function.iterate_succ_apply']
        exact hw₂
      · obtain ⟨n, hdue₃, hlen₃⟩ := exists_shorter hp₂ hdue₂ hu hw₂
        obtain ⟨k', hk'⟩ := ih _ (by omega) (placed_iterate hp₂ n) hdue₃ rfl
        refine ⟨k' + (n + (m + 1)), ?_⟩
        rw [Function.iterate_add_apply, Function.iterate_add_apply, Function.iterate_succ_apply']
        exact hk'

end Backlands.Reactor
