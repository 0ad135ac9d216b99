/-
  Backlands.Lib.Delta — saving a map by the keys that changed.

  A key that is changed is marked and given a revision, the next of one clock. A snapshot
  takes the marks, the values of that moment and the clock; snapshots are committed to the
  table in the order they were made, or lost. Acknowledging a committed snapshot clears
  its keys, but not a key whose revision is newer than the snapshot.

  A change is made in two steps, since the changing call may let others run in between:
  `enter` changes the map and `leave` compares with what was there before the call and
  marks. Anything may happen between the two.

  Proved: the invariant `Delta.Inv` is kept by every step (`Delta.inv_step`). It gives that
  with no call open a key that is not marked is in the table as it is in the map
  (`Inv.clean`), and that committing a snapshot of the map as it is makes the table the map
  (`Current.commit`).
-/

import Backlands.Lib.Runs
import Mathlib.Data.List.Basic

namespace Backlands.Lib

open List

open Function (update update_of_ne update_self)

variable {κ ν : Type*}

inductive Mark where
  | modified
  | removed
  deriving DecidableEq

structure Snap (κ ν : Type*) where
  id : Nat
  marks : κ → Option Mark
  value : κ → Option ν

/-- What committing a snapshot makes of an entry: a modified key that has no value in it
    is skipped. -/
def Snap.write (S : Snap κ ν) (k : κ) (x : Option ν) : Option ν :=
  match S.marks k, S.value k with
  | none, _ => x
  | some .modified, none => x
  | some .modified, some v => some v
  | some .removed, _ => none

variable {S : Snap κ ν} {k : κ}

theorem Snap.write_unmarked (h : S.marks k = none) (x : Option ν) : S.write k x = x := by
  unfold write
  rw [h]

theorem Snap.write_marked {m : Mark} (h : S.marks k = some m) (hm : m = .removed ↔ S.value k = none) (x : Option ν) :
    S.write k x = S.value k := by
  unfold write
  cases m with
  | modified =>
    cases hv : S.value k with
    | none => cases hm.mpr hv
    | some v => rw [h]
  | removed => rw [h, hm.mp rfl]

structure Delta (κ ν : Type*) where
  map : κ → Option ν
  marks : κ → Option Mark
  revs : κ → Option Nat
  clock : Nat
  /-- The calls that have changed the map and not returned: the key and its value before. -/
  calls : List (κ × Option ν)
  table : κ → Option ν
  queue : List (Snap κ ν)
  done : List (Snap κ ν)

namespace Delta

inductive Ev (κ ν : Type*) where
  | enter (k : κ) (v : Option ν)
  | leave
  /-- A snapshot, which leaves everything out when it is off. -/
  | build (on : Bool)
  | commit (ok : Bool)
  | ack (i : Nat)

def snapshot (s : Delta κ ν) (on : Bool) : Snap κ ν := ⟨s.clock, if on then s.marks else fun _ => none, s.map⟩

def mark [DecidableEq κ] (s : Delta κ ν) (k : κ) : Delta κ ν :=
  { s with
    marks := update s.marks k (some (if s.map k = none then .removed else .modified))
    revs := update s.revs k (some (s.clock + 1))
    clock := s.clock + 1 }

/-- The key has no revision newer than the given one. -/
def Old (id : Nat) (revs : κ → Option Nat) (k : κ) : Prop := ∀ r, revs k = some r → r ≤ id

instance (id : Nat) (revs : κ → Option Nat) (k : κ) : Decidable (Old id revs k) :=
  inferInstanceAs (Decidable (∀ r, revs k = some r → r ≤ id))

/-- The snapshot clears the key: it has it, and the key did not change since. -/
def Clears (S : Snap κ ν) (revs : κ → Option Nat) (k : κ) : Prop := S.marks k ≠ none ∧ Old S.id revs k

instance (S : Snap κ ν) (revs : κ → Option Nat) (k : κ) : Decidable (Clears S revs k) :=
  inferInstanceAs (Decidable (_ ∧ _))

def acknowledge (s : Delta κ ν) (S : Snap κ ν) : Delta κ ν :=
  { s with
    marks := fun k => if Clears S s.revs k then none else s.marks k
    revs := fun k => if Clears S s.revs k then none else s.revs k }

/-- One key acknowledged by a snapshot of the given clock. -/
def ackKey [DecidableEq κ] (id : Nat) (s : Delta κ ν) (k : κ) : Delta κ ν :=
  if Old id s.revs k then
    { s with marks := update s.marks k none, revs := update s.revs k none }
  else s

def commitFirst (s : Delta κ ν) (ok : Bool) : Delta κ ν :=
  match s.queue with
  | [] => s
  | S :: rest =>
    if ok then { s with table := fun k => S.write k (s.table k), queue := rest, done := s.done ++ [S] }
    else { s with queue := rest }

def ackAt (s : Delta κ ν) (i : Nat) : Delta κ ν :=
  match s.done[i]? with
  | none => s
  | some S => s.acknowledge S

section
variable [DecidableEq κ] [DecidableEq ν]

/-- The call opened last returns. -/
def leave (s : Delta κ ν) : Delta κ ν :=
  match s.calls with
  | [] => s
  | (k, old) :: rest => if old = s.map k then { s with calls := rest } else { s.mark k with calls := rest }

def step (s : Delta κ ν) : Ev κ ν → Delta κ ν
  | .enter k v => { s with map := update s.map k v, calls := (k, s.map k) :: s.calls }
  | .leave => s.leave
  | .build on => { s with queue := s.queue ++ [s.snapshot on] }
  | .commit ok => s.commitFirst ok
  | .ack i => s.ackAt i

end

/-! ## The invariant -/

/-- The table has the key as the map does and no snapshot in the queue will change that. -/
def Settled (s : Delta κ ν) (k : κ) : Prop :=
  s.table k = s.map k ∧ ∀ S ∈ s.queue, S.write k (s.map k) = s.map k

/-- What holds of a key when no call on it is open. A snapshot that would clear the key
    writes its value while it is in the queue (`fresh`) and has written it when it is
    committed (`written`). -/
structure KeyInv (s : Delta κ ν) (k : κ) : Prop where
  shape : ∀ m, s.marks k = some m → (m = .removed ↔ s.map k = none)
  dated : s.marks k ≠ none → s.revs k ≠ none
  clean : s.marks k = none → Settled s k
  fresh : ∀ S ∈ s.queue, ∀ r, S.marks k ≠ none → s.revs k = some r → r ≤ S.id → ∀ x, S.write k x = s.map k
  written : ∀ S ∈ s.done, ∀ r, S.marks k ≠ none → s.revs k = some r → r ≤ S.id → Settled s k

/-- The snapshots are in order and none is newer than the clock. -/
structure Ordered (s : Delta κ ν) : Prop where
  sorted : s.queue.Pairwise fun S T => S.id ≤ T.id
  queueLe : ∀ S ∈ s.queue, S.id ≤ s.clock
  doneLe : ∀ S ∈ s.done, S.id ≤ s.clock
  revsLe : ∀ k r, s.revs k = some r → r ≤ s.clock

/-- A call on the key is open and would mark it if it returned now. -/
def Pending (s : Delta κ ν) (k : κ) : Prop := ∃ old, (k, old) ∈ s.calls ∧ old ≠ s.map k

structure Inv (s : Delta κ ν) : Prop where
  ordered : Ordered s
  key : ∀ k, KeyInv s k ∨ Pending s k

/-! ## What is kept for a key -/

section
variable {s t : Delta κ ν} {k : κ}

theorem KeyInv.congr (h : KeyInv s k) (hmap : t.map k = s.map k) (hmarks : t.marks k = s.marks k)
    (hrevs : t.revs k = s.revs k) (htable : t.table k = s.table k) (hqueue : t.queue = s.queue)
    (hdone : t.done = s.done) : KeyInv t k := by
  have hsettled : Settled t k ↔ Settled s k := by
    unfold Settled
    rw [hmap, htable, hqueue]
  refine ⟨?_, ?_, ?_, ?_, ?_⟩
  · rw [hmarks, hmap]
    exact h.shape
  · rw [hmarks, hrevs]
    exact h.dated
  · rw [hmarks, hsettled]
    exact h.clean
  · rw [hqueue, hrevs, hmap]
    exact h.fresh
  · rw [hdone, hrevs, hsettled]
    exact h.written

theorem KeyInv.build (h : KeyInv s k) (on : Bool) : KeyInv { s with queue := s.queue ++ [s.snapshot on] } k := by
  have hnew : ∀ x, (s.snapshot on).marks k ≠ none → (s.snapshot on).write k x = s.map k := by
    intro x hm
    cases on with
    | false => exact absurd rfl hm
    | true =>
      cases hk : s.marks k with
      | none => exact absurd hk hm
      | some m => exact Snap.write_marked (S := s.snapshot true) hk (h.shape m hk) x
  have hsettled : Settled s k → Settled { s with queue := s.queue ++ [s.snapshot on] } k := by
    rintro ⟨htable, hqueue⟩
    refine ⟨htable, ?_⟩
    intro S hS
    rcases mem_append.mp hS with hS | hS
    · exact hqueue S hS
    rw [mem_singleton.mp hS]
    by_cases hm : (s.snapshot on).marks k = none
    · exact Snap.write_unmarked hm _
    · exact hnew _ hm
  refine ⟨h.shape, h.dated, fun hm => hsettled (h.clean hm), ?_, ?_⟩
  · intro S hS r hm hr hle x
    rcases mem_append.mp hS with hS | hS
    · exact h.fresh S hS r hm hr hle x
    · rw [mem_singleton.mp hS] at hm ⊢
      exact hnew x hm
  · intro S hS r hm hr hle
    exact hsettled (h.written S hS r hm hr hle)

theorem KeyInv.commit (h : KeyInv s k) (ho : Ordered s) {rest : List (Snap κ ν)} (hq : s.queue = S :: rest) :
    KeyInv { s with table := fun k => S.write k (s.table k), queue := rest, done := s.done ++ [S] } k := by
  have hfirst : S ∈ s.queue := by
    rw [hq]
    exact mem_cons_self
  have hrest : ∀ T ∈ rest, T ∈ s.queue := by
    intro T hT
    rw [hq]
    exact mem_cons_of_mem _ hT
  have hsettled : Settled s k →
      Settled { s with table := fun k => S.write k (s.table k), queue := rest, done := s.done ++ [S] } k := by
    rintro ⟨htable, hqueue⟩
    refine ⟨?_, fun T hT => hqueue T (hrest T hT)⟩
    show S.write k (s.table k) = s.map k
    rw [htable]
    exact hqueue S hfirst
  refine ⟨h.shape, h.dated, fun hm => hsettled (h.clean hm), fun T hT => h.fresh T (hrest T hT), ?_⟩
  intro T hT r hm hr hle
  rcases mem_append.mp hT with hT | hT
  · exact hsettled (h.written T hT r hm hr hle)
  · -- The one just committed wrote the value, and so will those after it.
    rw [mem_singleton.mp hT] at hm hle
    refine ⟨h.fresh S hfirst r hm hr hle _, ?_⟩
    intro U hU
    by_cases hmU : U.marks k = none
    · exact Snap.write_unmarked hmU _
    have hsorted := ho.sorted
    rw [hq] at hsorted
    have hSU := (pairwise_cons.mp hsorted).1 U hU
    exact h.fresh U (hrest U hU) r hmU hr (by omega) _

theorem KeyInv.lose (h : KeyInv s k) {rest : List (Snap κ ν)} (hq : s.queue = S :: rest) :
    KeyInv { s with queue := rest } k := by
  have hrest : ∀ T ∈ rest, T ∈ s.queue := by
    intro T hT
    rw [hq]
    exact mem_cons_of_mem _ hT
  have hsettled : Settled s k → Settled { s with queue := rest } k := by
    rintro ⟨htable, hqueue⟩
    exact ⟨htable, fun T hT => hqueue T (hrest T hT)⟩
  exact ⟨h.shape, h.dated, fun hm => hsettled (h.clean hm), fun T hT => h.fresh T (hrest T hT),
    fun T hT r hm hr hle => hsettled (h.written T hT r hm hr hle)⟩

theorem KeyInv.acknowledge (h : KeyInv s k) (hS : S ∈ s.done) : KeyInv (s.acknowledge S) k := by
  by_cases hc : Clears S s.revs k
  · have hmarks : (s.acknowledge S).marks k = none := if_pos hc
    have hrevs : (s.acknowledge S).revs k = none := if_pos hc
    have hsettled : Settled s k := by
      cases hr : s.revs k with
      | none =>
        apply h.clean
        by_contra hm
        exact h.dated hm hr
      | some r => exact h.written S hS r hc.1 hr (hc.2 r hr)
    refine ⟨?_, ?_, fun _ => hsettled, ?_, ?_⟩
    · simp [hmarks]
    · intro hm
      exact absurd hmarks hm
    · simp [hrevs]
    · simp [hrevs]
  · exact h.congr rfl (if_neg hc) (if_neg hc) rfl rfl rfl

structure Start (s : Delta κ ν) : Prop where
  table : s.table = s.map
  marks : s.marks = fun _ => none
  revs : s.revs = fun _ => none
  calls : s.calls = []
  queue : s.queue = []
  done : s.done = []

theorem Start.inv (h : Start s) : Inv s := by
  refine ⟨⟨?_, ?_, ?_, ?_⟩, ?_⟩
  · rw [h.queue]
    exact List.Pairwise.nil
  · simp [h.queue]
  · simp [h.done]
  · simp [h.revs]
  · intro k
    left
    refine ⟨?_, ?_, ?_, ?_, ?_⟩
    · simp [h.marks]
    · intro hm
      exact absurd (congrFun h.marks k) hm
    · intro _
      refine ⟨congrFun h.table k, ?_⟩
      simp [h.queue]
    · simp [h.queue]
    · simp [h.done]

/-! ## What the invariant gives -/

theorem Inv.keyInv (h : Inv s) (hc : s.calls = []) (k : κ) : KeyInv s k := by
  rcases h.key k with hk | ⟨old, hm, _⟩
  · exact hk
  · rw [hc] at hm
    cases hm

theorem Inv.clean (h : Inv s) (hc : s.calls = []) (hm : s.marks k = none) : s.table k = s.map k :=
  ((h.keyInv hc k).clean hm).1

/-- The map has not changed since the snapshot was made: a mark that is left is in it. -/
structure Current (S : Snap κ ν) (s : Delta κ ν) : Prop where
  calls : s.calls = []
  marked : ∀ k, s.marks k ≠ none → S.marks k ≠ none
  newer : ∀ k r, s.revs k = some r → r ≤ S.id

theorem Current.build (h : Inv s) (hc : s.calls = []) : Current (s.snapshot true) s :=
  ⟨hc, fun _ hm => hm, h.ordered.revsLe⟩

theorem Current.commit (h : Current S s) (hi : Inv s) (hS : S ∈ s.queue) (k : κ) :
    S.write k (s.table k) = s.map k := by
  have hk := hi.keyInv h.calls k
  by_cases hm : s.marks k = none
  · obtain ⟨htable, hqueue⟩ := hk.clean hm
    rw [htable]
    exact hqueue S hS
  · obtain ⟨r, hr⟩ := Option.ne_none_iff_exists'.mp (hk.dated hm)
    exact hk.fresh S hS r (h.marked k hm) hr (h.newer k r hr) _

/-! ## Steps -/

variable [DecidableEq κ]

theorem ackKey_eq (id : Nat) (s : Delta κ ν) (k : κ) : s.ackKey id k =
    { s with
      marks := fun j => if j = k ∧ Old id s.revs j then none else s.marks j
      revs := fun j => if j = k ∧ Old id s.revs j then none else s.revs j } := by
  have hpoint : ∀ {α : Type _} (f : κ → Option α), Old id s.revs k →
      update f k none = fun j => if j = k ∧ Old id s.revs j then none else f j := by
    intro α f hr
    funext j
    by_cases e : j = k
    · subst e
      rw [update_self, if_pos ⟨rfl, hr⟩]
    · rw [update_of_ne e, if_neg fun h => e h.1]
  have hsame : ∀ {α : Type _} (f : κ → Option α), ¬ Old id s.revs k →
      f = fun j => if j = k ∧ Old id s.revs j then none else f j := by
    intro α f hr
    funext j
    rw [if_neg]
    rintro ⟨rfl, h⟩
    exact hr h
  unfold ackKey
  by_cases hr : Old id s.revs k
  · rw [if_pos hr, ← hpoint s.marks hr, ← hpoint s.revs hr]
  · rw [if_neg hr, ← hsame s.marks hr, ← hsame s.revs hr]

theorem ackKeys_eq (id : Nat) (s : Delta κ ν) (keys : List κ) : keys.foldl (ackKey id) s =
    { s with
      marks := fun j => if j ∈ keys ∧ Old id s.revs j then none else s.marks j
      revs := fun j => if j ∈ keys ∧ Old id s.revs j then none else s.revs j } := by
  induction keys generalizing s with
  | nil => simp
  | cons k keys ih =>
    -- A key cleared before has no revision, which is old.
    have hold : ∀ j, Old id (fun j => if j = k ∧ Old id s.revs j then none else s.revs j) j ↔ Old id s.revs j := by
      intro j
      by_cases hc : j = k ∧ Old id s.revs j
      · simp only [hc.2, iff_true]
        intro r hr
        grind
      · have e : (if j = k ∧ Old id s.revs j then none else s.revs j) = s.revs j := if_neg hc
        show (∀ r, (if j = k ∧ Old id s.revs j then none else s.revs j) = some r → r ≤ id) ↔ Old id s.revs j
        rw [e]
        rfl
    rw [foldl_cons, ih, ackKey_eq]
    grind

theorem acknowledge_eq {id : Nat} {keys : List κ} (hkeys : ∀ k, S.marks k ≠ none ↔ k ∈ keys)
    (hid : ∀ k, S.marks k ≠ none → id = S.id) (s : Delta κ ν) : s.acknowledge S = keys.foldl (ackKey id) s := by
  have hclears : ∀ k, Clears S s.revs k ↔ k ∈ keys ∧ Old id s.revs k := by
    intro k
    rw [← hkeys]
    constructor
    · rintro ⟨hm, hr⟩
      rw [hid k hm]
      exact ⟨hm, hr⟩
    · rintro ⟨hm, hr⟩
      rw [hid k hm] at hr
      exact ⟨hm, hr⟩
  simp [ackKeys_eq, acknowledge, hclears]

theorem Ordered.mark (h : Ordered s) (k : κ) : Ordered (s.mark k) := by
  refine ⟨h.sorted, ?_, ?_, ?_⟩
  · intro S hS
    have := h.queueLe S hS
    show S.id ≤ s.clock + 1
    omega
  · intro S hS
    have := h.doneLe S hS
    show S.id ≤ s.clock + 1
    omega
  · intro j r hr
    show r ≤ s.clock + 1
    by_cases e : j = k
    · subst e
      rw [show (s.mark j).revs j = some (s.clock + 1) from update_self ..] at hr
      cases hr
      omega
    · rw [show (s.mark k).revs j = s.revs j from update_of_ne e ..] at hr
      have := h.revsLe j r hr
      omega

theorem KeyInv.marked (h : Ordered s) (k : κ) : KeyInv (s.mark k) k := by
  have hmarks : (s.mark k).marks k = some (if s.map k = none then .removed else .modified) := update_self ..
  have hrevs : (s.mark k).revs k = some (s.clock + 1) := update_self ..
  refine ⟨?_, ?_, ?_, ?_, ?_⟩
  · intro m hm
    show m = .removed ↔ s.map k = none
    grind
  · intro _ e
    rw [hrevs] at e
    cases e
  · intro e
    rw [hmarks] at e
    cases e
  · intro S hS r _ hr hle
    rw [hrevs] at hr
    cases hr
    have := h.queueLe S hS
    omega
  · intro S hS r _ hr hle
    rw [hrevs] at hr
    cases hr
    have := h.doneLe S hS
    omega

theorem KeyInv.mark_other {j : κ} (e : j ≠ k) (h : KeyInv s j) : KeyInv (s.mark k) j :=
  h.congr rfl (update_of_ne e ..) (update_of_ne e ..) rfl rfl rfl

variable [DecidableEq ν]

theorem inv_enter (h : Inv s) (k : κ) (v : Option ν) : Inv (s.step (.enter k v)) := by
  refine ⟨⟨h.ordered.sorted, h.ordered.queueLe, h.ordered.doneLe, h.ordered.revsLe⟩, ?_⟩
  intro j
  by_cases hmap : (s.step (.enter k v)).map j = s.map j
  · rcases h.key j with hk | ⟨old, hm, hne⟩
    · exact .inl (hk.congr hmap rfl rfl rfl rfl rfl)
    right
    refine ⟨old, mem_cons_of_mem _ hm, ?_⟩
    rw [hmap]
    exact hne
  · -- Only the key of the call changes, and the call is open.
    have e : j = k := by
      by_contra e
      exact hmap (update_of_ne e ..)
    subst e
    exact .inr ⟨s.map j, mem_cons_self, fun e => hmap e.symm⟩

theorem inv_leave (h : Inv s) : Inv (s.step .leave) := by
  show Inv s.leave
  unfold leave
  cases hcalls : s.calls with
  | nil => exact h
  | cons c rest =>
    obtain ⟨k, old⟩ := c
    show Inv (if old = s.map k then { s with calls := rest } else { s.mark k with calls := rest })
    by_cases hold : old = s.map k
    · rw [if_pos hold]
      refine ⟨⟨h.ordered.sorted, h.ordered.queueLe, h.ordered.doneLe, h.ordered.revsLe⟩, ?_⟩
      intro j
      rcases h.key j with hk | ⟨old', hm, hne⟩
      · exact .inl (hk.congr rfl rfl rfl rfl rfl rfl)
      · -- The call that will mark the key is another one.
        right
        refine ⟨old', ?_, hne⟩
        grind
    · rw [if_neg hold]
      have ho := h.ordered.mark k
      refine ⟨{ ho with }, ?_⟩
      intro j
      by_cases ej : j = k
      · subst ej
        exact .inl ((KeyInv.marked h.ordered j).congr rfl rfl rfl rfl rfl rfl)
      rcases h.key j with hk | ⟨old', hm, hne⟩
      · exact .inl ((hk.mark_other ej).congr rfl rfl rfl rfl rfl rfl)
      · right
        refine ⟨old', ?_, hne⟩
        grind

theorem inv_build (h : Inv s) (on : Bool) : Inv (s.step (.build on)) := by
  refine ⟨⟨?_, ?_, h.ordered.doneLe, h.ordered.revsLe⟩, ?_⟩
  · show (s.queue ++ [s.snapshot on]).Pairwise _
    rw [pairwise_append]
    refine ⟨h.ordered.sorted, pairwise_singleton _ _, ?_⟩
    intro S hS T hT
    rw [mem_singleton.mp hT]
    exact h.ordered.queueLe S hS
  · intro S hS
    rcases mem_append.mp hS with hS | hS
    · exact h.ordered.queueLe S hS
    · rw [mem_singleton.mp hS]
      exact le_rfl
  · intro j
    rcases h.key j with hk | hp
    · exact .inl (hk.build on)
    · exact .inr hp

theorem inv_commit (h : Inv s) (ok : Bool) : Inv (s.step (.commit ok)) := by
  show Inv (s.commitFirst ok)
  unfold commitFirst
  cases hq : s.queue with
  | nil => exact h
  | cons S rest =>
    have hsorted := h.ordered.sorted
    rw [hq] at hsorted
    have hrest : ∀ T ∈ rest, T.id ≤ s.clock := by
      intro T hT
      apply h.ordered.queueLe
      rw [hq]
      exact mem_cons_of_mem _ hT
    cases ok with
    | true =>
      refine ⟨⟨(pairwise_cons.mp hsorted).2, hrest, ?_, h.ordered.revsLe⟩, ?_⟩
      · intro T hT
        rcases mem_append.mp hT with hT | hT
        · exact h.ordered.doneLe T hT
        rw [mem_singleton.mp hT]
        apply h.ordered.queueLe
        rw [hq]
        exact mem_cons_self
      · intro j
        rcases h.key j with hk | hp
        · exact .inl (hk.commit h.ordered hq)
        · exact .inr hp
    | false =>
      refine ⟨⟨(pairwise_cons.mp hsorted).2, hrest, h.ordered.doneLe, h.ordered.revsLe⟩, ?_⟩
      intro j
      rcases h.key j with hk | hp
      · exact .inl (hk.lose hq)
      · exact .inr hp

theorem inv_ack (h : Inv s) (i : Nat) : Inv (s.step (.ack i)) := by
  show Inv (s.ackAt i)
  unfold ackAt
  cases hi : s.done[i]? with
  | none => exact h
  | some S =>
    refine ⟨⟨h.ordered.sorted, h.ordered.queueLe, h.ordered.doneLe, ?_⟩, ?_⟩
    · intro k r hr
      by_cases hc : Clears S s.revs k
      · rw [show (s.acknowledge S).revs k = none from if_pos hc] at hr
        cases hr
      · rw [show (s.acknowledge S).revs k = s.revs k from if_neg hc] at hr
        exact h.ordered.revsLe k r hr
    · intro j
      rcases h.key j with hk | hp
      · exact .inl (hk.acknowledge (mem_of_getElem? hi))
      · exact .inr hp

theorem inv_step (h : Inv s) (e : Ev κ ν) : Inv (s.step e) := by
  cases e with
  | enter k v => exact inv_enter h k v
  | leave => exact inv_leave h
  | build on => exact inv_build h on
  | commit ok => exact inv_commit h ok
  | ack i => exact inv_ack h i

theorem inv_run (h : Inv s) (es : List (Ev κ ν)) : Inv (es.foldl step s) := by
  induction es generalizing s with
  | nil => exact h
  | cons e es ih => exact ih (inv_step h e)

theorem leave_frame (s : Delta κ ν) : s.leave.table = s.table ∧ s.leave.queue = s.queue ∧ s.leave.done = s.done := by
  unfold leave
  split
  · exact ⟨rfl, rfl, rfl⟩
  · split
    · exact ⟨rfl, rfl, rfl⟩
    · exact ⟨rfl, rfl, rfl⟩

/-- Committing and acknowledging change no key. -/
def Ev.settles : Ev κ ν → Bool
  | .commit _ | .ack _ => true
  | .enter _ _ | .leave | .build _ => false

theorem settles_queue (s : Delta κ ν) {e : Ev κ ν} (he : e.settles = true) : (s.step e).queue <:+ s.queue := by
  cases e with
  | enter k v => cases he
  | leave => cases he
  | build on => cases he
  | commit ok =>
    show (s.commitFirst ok).queue <:+ s.queue
    unfold commitFirst
    cases hq : s.queue with
    | nil => exact ⟨[], hq⟩
    | cons S rest =>
      cases ok with
      | true => exact suffix_cons S rest
      | false => exact suffix_cons S rest
  | ack i =>
    show (s.ackAt i).queue <:+ s.queue
    unfold ackAt
    split
    · exact suffix_rfl
    · exact suffix_rfl

theorem Current.step {S : Snap κ ν} (h : Current S s) {e : Ev κ ν} (he : e.settles = true) :
    Current S (s.step e) ∧ (s.step e).map = s.map := by
  cases e with
  | enter k v => cases he
  | leave => cases he
  | build on => cases he
  | commit ok =>
    show Current S (s.commitFirst ok) ∧ (s.commitFirst ok).map = s.map
    unfold commitFirst
    split
    · exact ⟨h, rfl⟩
    · split
      · exact ⟨{ h with }, rfl⟩
      · exact ⟨{ h with }, rfl⟩
  | ack i =>
    show Current S (s.ackAt i) ∧ (s.ackAt i).map = s.map
    unfold ackAt
    split
    · exact ⟨h, rfl⟩
    rename_i T _
    refine ⟨⟨h.calls, ?_, ?_⟩, rfl⟩
    · intro k hm
      apply h.marked
      by_cases hc : Clears T s.revs k
      · exact absurd (if_pos hc) hm
      · rwa [show (s.acknowledge T).marks k = s.marks k from if_neg hc] at hm
    · intro k r hr
      by_cases hc : Clears T s.revs k
      · rw [show (s.acknowledge T).revs k = none from if_pos hc] at hr
        cases hr
      · rw [show (s.acknowledge T).revs k = s.revs k from if_neg hc] at hr
        exact h.newer k r hr

end

end Delta

end Backlands.Lib
