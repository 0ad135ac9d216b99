/-
  Backlands.Lib.Runs — runs of an event-driven machine.

  A machine is a start predicate and a step function; everything an environment
  decides (which call is made, how it fares) is in the event. `Reach` takes a guard
  as well, so that a result about every run and a result about the runs whose steps
  all meet a condition are stated over the same machine.
-/

import Mathlib.Logic.Basic
import Mathlib.Algebra.Order.Ring.Int

namespace Backlands.Lib

open List

variable {σ ε : Type*} {start : σ → Prop} {step : σ → ε → σ} {ok : σ → ε → Prop}

/-- The states reached from `start` by steps that each meet `ok`. -/
inductive Reach (start : σ → Prop) (step : σ → ε → σ) (ok : σ → ε → Prop) : σ → Prop
  | init {s : σ} : start s → Reach start step ok s
  | step {s : σ} (e : ε) : Reach start step ok s → ok s e → Reach start step ok (step s e)

theorem Reach.inv {I : σ → Prop} (h0 : ∀ s, start s → I s) (hs : ∀ s e, ok s e → I s → I (step s e))
    {s : σ} (h : Reach start step ok s) : I s := by
  induction h with
  | init h => exact h0 _ h
  | step e _ ho ih => exact hs _ e ho ih

def run (step : σ → ε → σ) (s : σ) (es : List ε) : σ := es.foldl step s

/-- Every event of the list meets the guard where it is taken. -/
def Allowed (step : σ → ε → σ) (ok : σ → ε → Prop) : σ → List ε → Prop
  | _, [] => True
  | s, e :: es => ok s e ∧ Allowed step ok (step s e) es

theorem run_cons (s : σ) (e : ε) (es : List ε) : run step s (e :: es) = run step (step s e) es := rfl

theorem run_append (s : σ) (es es' : List ε) : run step s (es ++ es') = run step (run step s es) es' :=
  foldl_append

theorem allowed_append {s : σ} {es es' : List ε} :
    Allowed step ok s (es ++ es') ↔ Allowed step ok s es ∧ Allowed step ok (run step s es) es' := by
  induction es generalizing s with
  | nil => exact (true_and _).to_iff.symm
  | cons e es ih =>
    show ok s e ∧ Allowed step ok (step s e) (es ++ es') ↔ (ok s e ∧ Allowed step ok (step s e) es) ∧ _
    rw [ih, and_assoc]
    rfl

theorem Allowed.and {ok' : σ → ε → Prop} {s : σ} {es : List ε} (h : Allowed step ok s es)
    (h' : Allowed step ok' s es) : Allowed step (fun s e => ok s e ∧ ok' s e) s es := by
  induction es generalizing s with
  | nil => trivial
  | cons e es ih => exact ⟨⟨h.1, h'.1⟩, ih h.2 h'.2⟩

theorem Allowed.of_inv {J : σ → Prop} {can : σ → ε → Prop} (hJ : ∀ s e, can s e → J s → J (step s e))
    (hok : ∀ s e, can s e → J s → ok s e) {s : σ} (h : J s) {es : List ε} (hc : Allowed step can s es) :
    Allowed step ok s es := by
  induction es generalizing s with
  | nil => trivial
  | cons e es ih => exact ⟨hok s e hc.1 h, ih (hJ s e hc.1 h) hc.2⟩

/-- A property holds all along a run of steps that are each possible exactly when every step
    meets the guard, where an invariant carries it over the steps that do and the others
    break it. -/
theorem along_iff_allowed_of {I P : σ → Prop} {can : σ → ε → Prop} (hP : ∀ s, I s → P s)
    (hs : ∀ s e, can s e → ok s e → I s → I (step s e)) (hb : ∀ s e, can s e → I s → P (step s e) → ok s e) {s : σ}
    (h : I s) {es : List ε} (hc : Allowed step can s es) :
    (∀ k ≤ es.length, P (run step s (es.take k))) ↔ Allowed step ok s es := by
  induction es generalizing s with
  | nil =>
    refine ⟨fun _ => trivial, fun _ k _ => ?_⟩
    rw [take_nil]
    exact hP s h
  | cons e es ih =>
    constructor
    · intro hk
      have he : ok s e := hb s e hc.1 h (hk 1 (by simp))
      refine ⟨he, (ih (hs s e hc.1 he h) hc.2).mp ?_⟩
      intro k hle
      exact hk (k + 1) (by simpa using hle)
    · intro ha k hle
      cases k with
      | zero => exact hP s h
      | succ k => exact (ih (hs s e hc.1 ha.1 h) hc.2).mpr ha.2 k (by simpa using hle)

theorem allowed_true (s : σ) (es : List ε) : Allowed step (fun _ _ => True) s es := by
  induction es generalizing s with
  | nil => trivial
  | cons e es ih => exact ⟨trivial, ih _⟩

theorem along_iff_allowed {I P : σ → Prop} (hP : ∀ s, I s → P s)
    (hs : ∀ s e, ok s e → I s → I (step s e)) (hb : ∀ s e, I s → P (step s e) → ok s e) {s : σ} (h : I s)
    (es : List ε) : (∀ k ≤ es.length, P (run step s (es.take k))) ↔ Allowed step ok s es :=
  along_iff_allowed_of hP (fun s e _ => hs s e) (fun s e _ => hb s e) h (allowed_true s es)

theorem steps_iff_allowed {I : σ → Prop} {can : σ → ε → Prop} {P : ε → σ → Prop}
    (hI : ∀ s e, can s e → I s → I (step s e)) (hs : ∀ s e, can s e → I s → (P e (step s e) ↔ ok s e)) {s : σ} (h : I s)
    {es : List ε} (hc : Allowed step can s es) :
    (∀ k, (hk : k < es.length) → P (es.get ⟨k, hk⟩) (run step s (es.take (k + 1)))) ↔ Allowed step ok s es := by
  induction es generalizing s with
  | nil => exact ⟨fun _ => trivial, fun _ k hk => absurd hk (Nat.not_lt_zero k)⟩
  | cons e es ih =>
    have hrest := ih (hI s e hc.1 h) hc.2
    constructor
    · intro hk
      refine ⟨(hs s e hc.1 h).mp (hk 0 (Nat.zero_lt_succ _)), hrest.mp fun k hlt => ?_⟩
      exact hk (k + 1) (Nat.succ_lt_succ hlt)
    · intro ha k hlt
      cases k with
      | zero => exact (hs s e hc.1 h).mpr ha.1
      | succ k => exact hrest.mpr ha.2 k (Nat.lt_of_succ_lt_succ hlt)

theorem run_le {m : σ → Nat} {v : ε → Nat} (h : ∀ s e, m (step s e) ≤ m s + v e) (s : σ) (es : List ε) :
    m (run step s es) ≤ m s + (es.map v).sum := by
  induction es generalizing s with
  | nil => exact le_rfl
  | cons e es ih =>
    have hstep := h s e
    have hrest := ih (step s e)
    rw [run_cons, map_cons, sum_cons]
    omega

theorem run_eq_iff {ι : Type*} {W : ι → Prop} {m : ι → σ → Nat} {v : ι → ε → Nat}
    (hle : ∀ i s e, m i (step s e) ≤ m i s + v i e)
    (hok : ∀ s e, ok s e ↔ ∀ i, W i → m i (step s e) = m i s + v i e) (s : σ) (es : List ε) :
    Allowed step ok s es ↔ ∀ i, W i → m i (run step s es) = m i s + (es.map (v i)).sum := by
  induction es generalizing s with
  | nil => simp [Allowed, run]
  | cons e es ih =>
    show ok s e ∧ Allowed step ok (step s e) es ↔ _
    rw [hok, ih, ← forall₂_and]
    refine forall₂_congr fun i _ => ?_
    have hstep := hle i s e
    have hrest := run_le (hle i) (step s e) es
    rw [run_cons, map_cons, sum_cons]
    omega

theorem Reach.run {s : σ} (h : Reach start step ok s) {es : List ε} (ha : Allowed step ok s es) :
    Reach start step ok (run step s es) := by
  induction es generalizing s with
  | nil => exact h
  | cons e es ih => exact ih (.step e h ha.1) ha.2

end Backlands.Lib
