/-
  Backlands.Reactor.Identifiers — task identifiers are reservations.

  Proved: in every reachable state, also after the counter has wrapped, `activeIdentifiers`
  is exactly the identifiers of the live tasks, no two of them share one, and every
  cancellation taken in is for one of them (`Reserved`, `reserved_step`).
-/

import Mathlib.Data.Nat.ModEq
import Backlands.Reactor.Effects

namespace Backlands.Reactor

open Backlands.Lib List

/-! ## A free identifier -/

theorem nextFree_free (active : Finset Nat) :
    ∀ (fuel n : Nat), (∃ j ≤ fuel, (n + 1 + j) % identifierLimit ∉ insert 0 active) →
      nextFree active fuel n ∉ insert 0 active := by
  intro fuel
  induction fuel with
  | zero =>
    rintro n ⟨j, hj, hfree⟩
    obtain rfl : j = 0 := by omega
    exact hfree
  | succ fuel ih =>
    rintro n ⟨j, hj, hfree⟩
    unfold nextFree
    split
    · rename_i htaken
      -- The first candidate is taken, so the free one is among the later ones.
      have hj0 : j ≠ 0 := by
        rintro rfl
        apply hfree
        rw [Finset.mem_insert]
        exact htaken
      refine ih _ ⟨j - 1, by omega, ?_⟩
      have hshift : ((n + 1) % identifierLimit + 1 + (j - 1)) % identifierLimit = (n + 1 + j) % identifierLimit := by
        rw [Nat.add_assoc, Nat.mod_add_mod]
        congr 1
        omega
      rwa [hshift]
    · rename_i hopen
      rw [Finset.mem_insert]
      exact hopen

theorem exists_free (active : Finset Nat) (n : Nat) (h : active.card + 2 ≤ identifierLimit) :
    ∃ j ≤ active.card + 1, (n + 1 + j) % identifierLimit ∉ insert 0 active := by
  have hinj : Set.InjOn (fun j => (n + 1 + j) % identifierLimit) (Finset.range (active.card + 2)) := by
    intro a ha b hb hab
    simp only [Finset.coe_range, Set.mem_Iio] at ha hb
    have hmod : a ≡ b [MOD identifierLimit] := Nat.ModEq.add_left_cancel' (n + 1) hab
    exact hmod.eq_of_lt_of_lt (by omega) (by omega)
  have hcard : (insert 0 active).card < ((Finset.range (active.card + 2)).image fun j => (n + 1 + j) % identifierLimit).card := by
    rw [Finset.card_image_of_injOn hinj, Finset.card_range]
    exact lt_of_le_of_lt (Finset.card_insert_le 0 active) (by omega)
  obtain ⟨x, hx, hfree⟩ := Finset.exists_mem_notMem_of_card_lt_card hcard
  obtain ⟨j, hj, rfl⟩ := Finset.mem_image.mp hx
  exact ⟨j, by have := Finset.mem_range.mp hj; omega, hfree⟩

theorem nextFree_spec {active : Finset Nat} (n : Nat) (h : active.card < identifierLimit - 1) :
    nextFree active (active.card + 1) n ≠ 0 ∧ nextFree active (active.card + 1) n ∉ active := by
  have hfree := nextFree_free active (active.card + 1) n (exists_free active n (by omega))
  rw [Finset.mem_insert, not_or] at hfree
  exact hfree

/-! ## What the driver leaves alone -/

/-- What only the other threads' calls change. -/
structure SameCalls (s s' : State) : Prop where
  calls : s'.calls = s.calls
  nextSequence : s'.nextSequence = s.nextSequence
  accepted : s'.accepted = s.accepted
  cancels : s'.cancels = s.cancels
  clock : s'.clock = s.clock

theorem sameCalls_discard (t : Task) (r : Reason) (d : Driver) (s : State) : SameCalls s (discard t r d s) := by
  constructor <;> simp [discard]

theorem drive_sameCalls (s : State) : SameCalls s (drive s) := by
  have hmove : ∀ d, SameCalls s { s with driver := d } := fun d => ⟨rfl, rfl, rfl, rfl, rfl⟩
  unfold drive
  split
  · exact ⟨rfl, rfl, rfl, rfl, rfl⟩
  · exact hmove _
  · exact hmove _
  · unfold drainSent
    split
    · exact sameCalls_discard _ _ _ s
    · split
      · exact sameCalls_discard _ _ _ s
      · exact hmove _
  · unfold drainReadyTasks beginExecution
    split
    · exact hmove _
    rename_i t heap _
    have hpop : ∀ r d, SameCalls s (discard t r d { s with taskHeap := heap }) := by
      intro r d
      constructor <;> simp [discard]
    split
    · exact hmove _
    dsimp only
    split
    · exact hpop _ _
    · split
      · exact hpop _ _
      · exact ⟨rfl, rfl, rfl, rfl, rfl⟩
  · unfold executeReadyTasks
    split
    · exact hmove _
    split
    · exact sameCalls_discard _ _ _ s
    split
    · exact hmove _
    · split
      · exact sameCalls_discard _ _ _ s
      · exact hmove _
  · unfold startCallback
    split
    · exact ⟨rfl, rfl, rfl, rfl, rfl⟩
    · exact ⟨rfl, rfl, rfl, rfl, rfl⟩
  · unfold finishCallback
    split
    · exact ⟨rfl, rfl, rfl, rfl, rfl⟩
    · constructor <;> simp
  · exact ⟨rfl, rfl, rfl, rfl, rfl⟩

/-! ## Identifiers of a list of tasks -/

def ids (l : List Task) : List Nat := (l.map (·.identifier)).filter (· ≠ 0)

variable {l : List Task} {t : Task}

theorem ids_perm {l' : List Task} (h : l.Perm l') : (ids l).Perm (ids l') := (h.map _).filter _

theorem mem_ids {i : Nat} : i ∈ ids l ↔ i ≠ 0 ∧ ∃ t ∈ l, t.identifier = i := by
  simp only [ids, mem_filter, mem_map, decide_eq_true_eq]
  tauto

theorem ids_cons_zero (h : t.identifier = 0) : ids (t :: l) = ids l := by
  simp [ids, h]

theorem ids_cons (h : t.identifier ≠ 0) : ids (t :: l) = t.identifier :: ids l := by
  simp [ids, h]

/-! ## The invariant -/

/-- The task of a `send` under way carries no identifier. -/
def Call.Plain : Call → Prop
  | .send t => t.identifier = 0
  | _ => True

structure Reserved (s : State) : Prop where
  placed : Placed s
  plain : ∀ c ∈ s.calls, c.Plain
  distinct : (ids (live s)).Nodup
  active : ∀ i, i ∈ s.activeIdentifiers ↔ i ∈ ids (live s)
  marked : ∀ i, Marked s i → i ∈ s.activeIdentifiers
  /-- A cancellation was taken in for the very task it is going to hit. -/
  aimed : ∀ t ∈ live s, Marked s t.identifier → t ∈ s.cancels

variable {s : State}

theorem Reserved.unique (h : Reserved s) {u : Task} {rest : List Task} (hl : (live s).Perm (t :: rest))
    (hu : u ∈ rest) (hid : u.identifier = t.identifier) : t.identifier = 0 := by
  by_contra hne
  have hn := (ids_perm hl).nodup_iff.mp h.distinct
  rw [ids_cons hne, nodup_cons] at hn
  exact hn.1 (mem_ids.mpr ⟨hne, u, hu, hid⟩)

theorem reserved_retired {s' : State} (h : Reserved s) (hp : Placed s') (hsame : SameCalls s s')
    (hl : (live s).Perm (t :: live s')) (hr : Retired t.identifier s s') : Reserved s' := by
  have hn := (ids_perm hl).nodup_iff.mp h.distinct
  constructor
  · exact hp
  · rw [hsame.calls]
    exact h.plain
  · by_cases h0 : t.identifier = 0
    · rwa [ids_cons_zero h0] at hn
    · rw [ids_cons h0] at hn
      exact (nodup_cons.mp hn).2
  · intro i
    rw [hr.active, h.active, (ids_perm hl).mem_iff]
    by_cases h0 : t.identifier = 0
    · rw [ids_cons_zero h0]
      simp [h0]
    rw [ids_cons h0] at hn ⊢
    have hnotin := (nodup_cons.mp hn).1
    rw [mem_cons]
    constructor
    · grind
    intro hi
    refine ⟨.inr hi, .inr ?_⟩
    rintro rfl
    exact hnotin hi
  · intro i hi
    obtain ⟨hm, hne⟩ := (hr.marked i).mp hi
    exact (hr.active i).mpr ⟨h.marked i hm, hne⟩
  · intro u hu hm
    rw [hsame.cancels]
    exact h.aimed u (hl.mem_iff.mpr (mem_cons_of_mem _ hu)) ((hr.marked _).mp hm).1

theorem reserved_untouched {s' : State} (h : Reserved s) (hp : Placed s') (hsame : SameCalls s s')
    (hl : (live s').Perm (live s)) (hu : Untouched s s') : Reserved s' := by
  constructor
  · exact hp
  · rw [hsame.calls]
    exact h.plain
  · exact (ids_perm hl).nodup_iff.mpr h.distinct
  · intro i
    rw [hu.active, h.active, (ids_perm hl).mem_iff]
  · intro i hi
    rw [hu.active]
    exact h.marked i ((hu.marked i).mp hi)
  · intro t ht hm
    rw [hsame.cancels]
    exact h.aimed t (hl.mem_iff.mp ht) ((hu.marked _).mp hm)

/-! ## The driver's steps -/

theorem placed_discard {r : Reason} {d : Driver} (h : d.Placed s.clock) : Placed (discard t r d s) := by
  simpa [Placed, discard] using h

theorem placed_drive (hp : Placed s) : Placed (drive s) := by
  unfold Placed at hp
  unfold drive
  split
  · trivial
  · exact le_refl s.clock
  · exact le_refl s.clock
  · rename_i now t sentTasks readyTasks hd
    rw [hd] at hp
    unfold drainSent
    split
    · exact placed_discard hp
    · split
      · exact placed_discard hp
      · exact hp
  · rename_i now readyTasks hd
    rw [hd] at hp
    unfold drainReadyTasks
    split
    · exact rfl
    split
    · exact rfl
    dsimp only
    split
    · exact placed_discard hp
    · split
      · exact placed_discard hp
      · exact hp
  · rename_i cycleStart readyTasks index n hd
    rw [hd] at hp
    obtain rfl : index = n := hp
    unfold executeReadyTasks
    split
    · trivial
    rename_i t ht
    split
    · exact placed_discard rfl
    split
    · trivial
    · split
      · exact placed_discard rfl
      · exact ⟨rfl, (List.getElem?_eq_some_iff.mp ht).1⟩
  · rename_i cycleStart readyTasks index n hd
    rw [hd] at hp
    unfold startCallback
    rw [getElem?_eq_getElem hp.2]
    exact hp
  · rename_i cycleStart readyTasks index n hd
    rw [hd] at hp
    obtain ⟨rfl, hi⟩ := hp
    unfold finishCallback
    rw [getElem?_eq_getElem hi]
    dsimp only
    split
    · trivial
    · exact rfl
  · trivial

theorem drive_live (hp : Placed s) :
    ((live (drive s)).Perm (live s) ∧ Untouched s (drive s)) ∨
    ∃ t, (live s).Perm (t :: live (drive s)) ∧ Retired t.identifier s (drive s) := by
  rcases drive_effect hp with ⟨hw, hc, hc', hu, -, -⟩ | ⟨t, r, hw, hc, hc', hr, -, -, -⟩ |
    ⟨t, hw, hc, hc', hu, -, -, -⟩ | ⟨t, hw, hc, hc', hr, -, -⟩
  · left
    refine ⟨?_, hu⟩
    simp only [live, hc, hc', Option.toList_none, append_nil]
    exact hw
  · right
    refine ⟨t, ?_, hr⟩
    simp only [live, hc, hc', Option.toList_none, append_nil]
    exact hw
  · left
    refine ⟨?_, hu⟩
    simp only [live, hc, hc', Option.toList_none, Option.toList_some, append_nil]
    exact perm_append_comm.trans hw.symm
  · right
    refine ⟨t, ?_, hr⟩
    simp [live, hc, hc', hw, Option.toList_none, Option.toList_some, append_nil]

theorem reserved_drive (h : Reserved s) : Reserved (drive s) := by
  have hp := placed_drive h.placed
  have hsame := drive_sameCalls s
  rcases drive_live h.placed with ⟨hl, hu⟩ | ⟨t, hl, hr⟩
  · exact reserved_untouched h hp hsame hl hu
  · exact reserved_retired h hp hsame hl hr

/-! ## The other threads' steps -/

theorem reserved_calls (h : Reserved s) (n : Nat) {calls : List Call} (hc : ∀ c ∈ calls, c.Plain) :
    Reserved { s with nextSequence := n, calls := calls } :=
  { h with plain := hc }

theorem plain_snoc (h : Reserved s) {c : Call} (hc : c.Plain) : ∀ d ∈ s.calls ++ [c], d.Plain := by
  intro d hd
  rcases mem_append.mp hd with hd | hd
  · exact h.plain d hd
  · obtain rfl := mem_singleton.mp hd
    exact hc

theorem reserved_call (h : Reserved s) (r : Request) : Reserved (call r s) := by
  cases r with
  | send now expirationTime callback =>
    simp only [call, callSend]
    split
    · exact h
    · exact reserved_calls h _ (plain_snoc h rfl)
  | schedule now delay callback =>
    simp only [call, callSchedule]
    split
    · exact h
    · exact reserved_calls h _ (plain_snoc h trivial)
  | cancel i =>
    simp only [call, callCancel]
    split
    · exact h
    · exact reserved_calls h s.nextSequence (plain_snoc h trivial)

theorem reserved_enterSend (h : Reserved s) (ht : t.identifier = 0) : Reserved (enterSend t s) := by
  unfold enterSend
  split
  · exact h
  have hl : (live { s with sendInbox := s.sendInbox ++ [t], accepted := s.accepted ++ [t] }).Perm (t :: live s) := by
    simp only [live, waiting, append_assoc, singleton_append]
    exact ((perm_middle.append_left _).append_left _).trans
      ((perm_middle.append_left _).trans perm_middle)
  have hids := ids_perm hl
  rw [ids_cons_zero ht] at hids
  refine ⟨h.placed, h.plain, hids.nodup_iff.mpr h.distinct, ?_, h.marked, ?_⟩
  · intro i
    rw [hids.mem_iff]
    exact h.active i
  · intro u hu hm
    rcases mem_cons.mp (hl.mem_iff.mp hu) with rfl | hu
    · have hactive := (h.active _).mp (h.marked _ hm)
      exact absurd ht (mem_ids.mp hactive).1
    · exact h.aimed u hu hm

theorem reserved_enterSchedule (h : Reserved s) (t : Task) : Reserved (enterSchedule t s) := by
  unfold enterSchedule
  split
  · exact h
  split
  · exact h
  rename_i hcard
  obtain ⟨h0, hfree⟩ := nextFree_spec s.nextIdentifier (by omega : s.activeIdentifiers.card < identifierLimit - 1)
  generalize nextFree s.activeIdentifiers (s.activeIdentifiers.card + 1) s.nextIdentifier = identifier at h0 hfree
  have hl : (live { s with
      activeIdentifiers := insert identifier s.activeIdentifiers
      nextIdentifier := identifier
      scheduleInbox := s.scheduleInbox ++ [{ t with identifier := identifier }]
      accepted := s.accepted ++ [{ t with identifier := identifier }] }).Perm
      ({ t with identifier := identifier } :: live s) := by
    simp [live, waiting, append_assoc, cons_append]
  have hids := ids_perm hl
  rw [ids_cons h0] at hids
  refine ⟨h.placed, h.plain, ?_, ?_, ?_, ?_⟩
  · rw [hids.nodup_iff, nodup_cons]
    refine ⟨?_, h.distinct⟩
    rw [← h.active]
    exact hfree
  · intro i
    rw [hids.mem_iff, mem_cons, Finset.mem_insert, h.active]
  · intro i hi
    exact Finset.mem_insert_of_mem (h.marked i hi)
  intro u hu hm
  rcases mem_cons.mp (hl.mem_iff.mp hu) with rfl | hu
  · exact absurd (h.marked _ hm) hfree
  · exact h.aimed u hu hm

theorem reserved_enterCancel (h : Reserved s) (i : Nat) : Reserved (enterCancel i s) := by
  unfold enterCancel
  split
  · rename_i hroom
    simp only [admitsCancel, Bool.and_eq_true, decide_eq_true_eq] at hroom
    refine { h with marked := ?_, aimed := ?_ }
    · rintro j (hj | hj)
      · rcases mem_append.mp hj with hj | hj
        · exact h.marked j (.inl hj)
        · obtain rfl := mem_singleton.mp hj
          exact hroom.1
      · exact h.marked j (.inr hj)
    · intro u hu hm
      rw [mem_append, mem_filter, beq_iff_eq]
      by_cases hi : u.identifier = i
      · exact .inr ⟨hu, hi⟩
      left
      apply h.aimed u hu
      rcases hm with hm | hm
      · rcases mem_append.mp hm with hm | hm
        · exact .inl hm
        · exact absurd (mem_singleton.mp hm) hi
      · exact .inr hm
  · exact h

theorem reserved_enter (h : Reserved s) (i : Nat) : Reserved (enter i s) := by
  unfold enter
  split
  · exact h
  rename_i c hc
  have hplain := h.plain c (mem_of_getElem? hc)
  have h' : Reserved { s with calls := s.calls.eraseIdx i } :=
    reserved_calls h s.nextSequence (fun d hd => h.plain d (mem_of_mem_eraseIdx hd))
  cases c with
  | send t => exact reserved_enterSend h' hplain
  | schedule t => exact reserved_enterSchedule h' t
  | cancel j => exact reserved_enterCancel h' j

/-! ## Every run -/

theorem reserved_step (h : Reserved s) (e : Ev) : Reserved (step s e) := by
  cases e with
  | tick d => exact { h with placed := h.placed.mono (by show s.clock ≤ s.clock + d; omega) }
  | start => exact { h with }
  | shutdown => exact { h with }
  | configure _ _ _ => exact { h with }
  | call r => exact reserved_call h r
  | enter i => exact reserved_enter h i
  | drive => exact reserved_drive h

theorem reserved_fresh (h : Fresh s) : Reserved s := by
  obtain ⟨hsend, hsched, hcin, hact, -, hcan, hheap, hcalls, hdrv, -⟩ := h
  have hlive : live s = [] := by simp [live, waiting, hsend, hsched, hheap, hdrv, Driver.batch, Driver.current]
  refine ⟨?_, ?_, ?_, ?_, ?_, ?_⟩
  · rw [Placed, hdrv]
    trivial
  · simp [hcalls]
  · rw [hlive]
    exact nodup_nil
  · simp [hact, hlive, ids]
  · rintro i (hi | hi)
    · simp [hcin] at hi
    · simp [hcan] at hi
  · simp [hlive]

theorem reserved_of_reachable (h : Reachable s) : Reserved s := by
  refine Reach.inv (I := Reserved) ?_ ?_ h
  · intro s hs
    exact reserved_fresh hs
  · intro s e _ hs
    exact reserved_step hs e

/-- Identifiers are exact reservations: `activeIdentifiers` is the identifiers of the live
    tasks, which are pairwise distinct; cancellations are only for them, and each was taken
    in for the task that has the identifier now. -/
theorem activeIdentifiers_exact {s : State} (h : Reachable s) :
    (∀ i, i ∈ s.activeIdentifiers ↔ i ≠ 0 ∧ ∃ t ∈ live s, t.identifier = i) ∧
    ((live s).map (·.identifier) |>.filter (· ≠ 0)).Nodup ∧
    (∀ i ∈ s.cancelInbox, i ∈ s.activeIdentifiers) ∧
    (∀ i ∈ s.cancelled, i ∈ s.activeIdentifiers) ∧
    ∀ t ∈ live s, t.identifier ∈ s.cancelInbox ∨ t.identifier ∈ s.cancelled → t ∈ s.cancels := by
  have hr := reserved_of_reachable h
  refine ⟨?_, hr.distinct, ?_, ?_, ?_⟩
  · intro i
    rw [hr.active, mem_ids]
  · intro i hi
    exact hr.marked i (.inl hi)
  · intro i hi
    exact hr.marked i (.inr hi)
  · intro t ht hm
    exact hr.aimed t ht hm

/-- A new reactor whose counter is about to wrap. -/
def wrapping : State where
  clock := 0
  running := true
  maxTasksPerCycle := 0
  timeBudget := 0
  maxInboxSize := 100000
  sendInbox := []
  scheduleInbox := []
  cancelInbox := []
  activeIdentifiers := ∅
  nextIdentifier := 4294967295
  cancelled := ∅
  taskHeap := []
  nextSequence := 0
  calls := []
  driver := .idle
  cycle := 0
  accepted := []
  started := []
  dropped := []
  cancels := []

theorem fresh_wrapping : Fresh wrapping :=
  ⟨rfl, rfl, rfl, rfl, by decide, rfl, rfl, rfl, rfl, rfl, rfl, rfl, rfl⟩

theorem reachable_wrapping (es : List Ev) : Reachable (run step wrapping es) := by
  refine (Reach.init fresh_wrapping).run ?_
  generalize wrapping = s
  induction es generalizing s with
  | nil => trivial
  | cons e es ih => exact ⟨trivial, ih _⟩

/-- The task scheduled next gets the identifier after zero. -/
theorem activeIdentifiers_exact_wrapping :
    (run step wrapping [.call (.schedule 0 5 true), .enter 0]).activeIdentifiers = {1} := by
  have h := (activeIdentifiers_exact (reachable_wrapping [.call (.schedule 0 5 true), .enter 0])).1
  have hlive : live (run step wrapping [.call (.schedule 0 5 true), .enter 0]) = [⟨5, none, 1, 0, true⟩] := by decide
  ext i
  rw [h i, hlive, Finset.mem_singleton]
  constructor
  · rintro ⟨-, t, ht, rfl⟩
    obtain rfl := mem_singleton.mp ht
    rfl
  · rintro rfl
    exact ⟨by decide, _, mem_singleton_self _, rfl⟩

end Backlands.Reactor
