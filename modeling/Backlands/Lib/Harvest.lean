/-
  Backlands.Lib.Harvest — taking things out of nested containers, breadth first.

  A walk goes through a queue of containers. Each child of the container it is at meets its
  fate: it is left alone, it is destroyed with all it holds, or it becomes something else,
  which keeps its contents or is hollow. What it becomes is queued if it opens, is taken out
  if it is wanted, and stays otherwise.

  Parameters: `fate`, by the label of the container and that of the child; `opens`, which
  labels are containers; `takes`, which of the others are taken out.

  Proved: whatever is counted on labels, the walk leaves, takes out and destroys what was
  there (`harvest_total`), and it destroys nothing exactly where every fate it comes to is
  a harmless one (`sparedAll_iff`).
-/

import Backlands.Lib.Forest
import Mathlib.Algebra.Order.Ring.Int

namespace Backlands.Lib

open List

variable {α ι : Type*}

/-! ## Counting on labels -/

namespace RoseTree

mutual
/-- The sum of `f` over the labels. -/
def total (f : α → Nat) : RoseTree α → Nat
  | node a ts => f a + totalAll f ts
def totalAll (f : α → Nat) : List (RoseTree α) → Nat
  | [] => 0
  | t :: ts => total f t + totalAll f ts
end

variable {f : α → Nat} {t : RoseTree α} {ts us : List (RoseTree α)}

theorem total_eq (f : α → Nat) (t : RoseTree α) : total f t = f t.label + totalAll f t.contents := by
  cases t
  rfl

theorem totalAll_append (f : α → Nat) (ts us : List (RoseTree α)) :
    totalAll f (ts ++ us) = totalAll f ts + totalAll f us := by
  induction ts with
  | nil => simp [totalAll]
  | cons t ts ih =>
    simp only [cons_append, totalAll, ih]
    omega

theorem totalAll_eq_sum (f : α → Nat) (ts : List (RoseTree α)) : totalAll f ts = (ts.map (total f)).sum := by
  induction ts with
  | nil => rfl
  | cons t ts ih => rw [totalAll, ih, map_cons, sum_cons]

theorem totalAll_perm (h : ts.Perm us) : totalAll f ts = totalAll f us := by
  rw [totalAll_eq_sum, totalAll_eq_sum]
  exact (h.map _).sum_nat

theorem sizes_append (ts us : List (RoseTree α)) : sizes (ts ++ us) = sizes ts + sizes us := by
  induction ts with
  | nil => simp [sizes]
  | cons t ts ih =>
    simp only [cons_append, sizes, ih]
    omega

end RoseTree

open RoseTree

/-! ## The walk -/

/-- What becomes of a child: it is left alone, it is destroyed, or it becomes `a`, in front of
    the others or in its place, hollow or with its contents. -/
inductive Fate (α : Type*) where
  | alone
  | gone
  | becomes (front : Bool) (a : α) (hollow : Bool)

section
variable (fate : α → α → Fate α) (opens : α → Bool) (takes : RoseTree α → Bool)

/-- A child that is to be walked through. -/
def queued (p : α) : RoseTree α → List (RoseTree α)
  | .node b ds =>
    match fate p b with
    | .becomes _ a hollow => if opens a then [.node a (if hollow then [] else ds)] else []
    | _ => []

/-- A child that is taken out. -/
def sent (p : α) : RoseTree α → List (RoseTree α)
  | .node b ds =>
    match fate p b with
    | .becomes _ a hollow =>
      if opens a then []
      else if takes (.node a (if hollow then [] else ds)) then [.node a (if hollow then [] else ds)]
      else []
    | _ => []

/-- The things put in front of the others, the last of them first, and the others. -/
def joined (r : List (RoseTree α) × List (RoseTree α)) : List (RoseTree α) := r.1.reverse ++ r.2

mutual
/-- What is left of a child when the walk is over, in front of the others or in its place. -/
def remains (p : α) : RoseTree α → List (RoseTree α) × List (RoseTree α)
  | .node b ds =>
    match fate p b with
    | .alone => ([], [.node b ds])
    | .gone => ([], [])
    | .becomes front a hollow =>
      let left :=
        if opens a then [.node a (if hollow then [] else joined (remainsAll a ds))]
        else if takes (.node a (if hollow then [] else ds)) then []
        else [.node a (if hollow then [] else ds)]
      if front then (left, []) else ([], left)
def remainsAll (p : α) : List (RoseTree α) → List (RoseTree α) × List (RoseTree α)
  | [] => ([], [])
  | t :: ts => ((remains p t).1 ++ (remainsAll p ts).1, (remains p t).2 ++ (remainsAll p ts).2)
end

/-- The container `t` when the walk is over. -/
def emptied (t : RoseTree α) : RoseTree α :=
  .node t.label (joined (remainsAll fate opens takes t.label t.contents))

/-- What is taken out of the queued containers, in the order of the walk. -/
def harvest : Nat → List (RoseTree α) → List (RoseTree α)
  | 0, _ => []
  | _ + 1, [] => []
  | k + 1, t :: q =>
    t.contents.flatMap (sent fate opens takes t.label) ++
      harvest k (q ++ t.contents.flatMap (queued fate opens t.label))

mutual
/-- What is destroyed, counted by `f`. -/
def destroyed (f : α → Nat) (p : α) : RoseTree α → Nat
  | .node b ds =>
    match fate p b with
    | .alone => 0
    | .gone => f b + totalAll f ds
    | .becomes _ a hollow =>
      f b - f a + if hollow then totalAll f ds else if opens a then destroyedAll f a ds else 0
def destroyedAll (f : α → Nat) (p : α) : List (RoseTree α) → Nat
  | [] => 0
  | t :: ts => destroyed f p t + destroyedAll f p ts
end

mutual
/-- Every fate the walk comes to is harmless to what is counted by the `f i` with `W i`. -/
def Spared (W : ι → Prop) (f : ι → α → Nat) (p : α) : RoseTree α → Prop
  | .node b ds =>
    match fate p b with
    | .alone => True
    | .gone => ∀ i, W i → f i b + totalAll (f i) ds = 0
    | .becomes _ a hollow =>
      (∀ i, W i → f i a = f i b) ∧
        if hollow then ∀ i, W i → totalAll (f i) ds = 0 else if opens a then SparedAll W f a ds else True
def SparedAll (W : ι → Prop) (f : ι → α → Nat) (p : α) : List (RoseTree α) → Prop
  | [] => True
  | t :: ts => Spared W f p t ∧ SparedAll W f p ts
end

end

/-! ## What the walk does -/

section
variable {fate : α → α → Fate α} {opens : α → Bool} {takes : RoseTree α → Bool} {f : α → Nat}

theorem queued_sizes (fate : α → α → Fate α) (opens : α → Bool) (p : α) (t : RoseTree α) : sizes (queued fate opens p t) ≤ size t := by
  obtain ⟨b, ds⟩ := t
  simp only [queued]
  cases fate p b with
  | alone => exact Nat.zero_le _
  | gone => exact Nat.zero_le _
  | becomes front a hollow =>
    grind [sizes, size]

theorem queuedAll_sizes (fate : α → α → Fate α) (opens : α → Bool) (p : α) (ts : List (RoseTree α)) :
    sizes (ts.flatMap (queued fate opens p)) ≤ sizes ts := by
  induction ts with
  | nil => exact Nat.zero_le _
  | cons t ts ih =>
    rw [flatMap_cons, sizes_append, sizes]
    have := queued_sizes fate opens p t
    omega

theorem totalAll_joined (r : List (RoseTree α) × List (RoseTree α)) :
    totalAll f (joined r) = totalAll f r.1 + totalAll f r.2 := by
  rw [joined, totalAll_append, totalAll_perm (reverse_perm _)]

theorem totalAll_placed (front : Bool) (ts : List (RoseTree α)) :
    totalAll f (joined (if front then (ts, []) else ([], ts))) = totalAll f ts := by
  rw [totalAll_joined]
  cases front with
  | true => exact Nat.add_zero _
  | false => exact Nat.zero_add _

def stock (f : α → Nat) : List (RoseTree α) → Nat
  | [] => 0
  | t :: q => totalAll f t.contents + stock f q

/-- What is left in the containers of a queue and what is destroyed in them. -/
def fallow (fate : α → α → Fate α) (opens : α → Bool) (takes : RoseTree α → Bool) (f : α → Nat) :
    List (RoseTree α) → Nat
  | [] => 0
  | t :: q =>
    totalAll f (emptied fate opens takes t).contents + destroyedAll fate opens f t.label t.contents +
      fallow fate opens takes f q

theorem stock_append (q q' : List (RoseTree α)) : stock f (q ++ q') = stock f q + stock f q' := by
  induction q with
  | nil => simp [stock]
  | cons t q ih =>
    simp only [cons_append, stock, ih]
    omega

theorem fallow_append (q q' : List (RoseTree α)) :
    fallow fate opens takes f (q ++ q') = fallow fate opens takes f q + fallow fate opens takes f q' := by
  induction q with
  | nil => simp [fallow]
  | cons t q ih =>
    simp only [cons_append, fallow, ih]
    omega

theorem child_total (opens : α → Bool) (takes : RoseTree α → Bool)
    (hf : ∀ p b front a hollow, fate p b = .becomes front a hollow → f a ≤ f b) (p : α) (t : RoseTree α) :
    total f t + fallow fate opens takes f (queued fate opens p t) =
      totalAll f (joined (remains fate opens takes p t)) + totalAll f (sent fate opens takes p t) +
        destroyed fate opens f p t + stock f (queued fate opens p t) := by
  obtain ⟨b, ds⟩ := t
  simp only [queued, sent, remains, destroyed]
  cases h : fate p b with
  | alone => simp [fallow, stock, totalAll_joined, totalAll]
  | gone => simp [fallow, stock, totalAll_joined, totalAll, total]
  | becomes front a hollow =>
    have hle := hf p b front a hollow h
    simp only [totalAll_placed]
    by_cases ho : opens a = true
    · -- It is walked through later: what it holds is in the queue.
      cases hollow with
      | true =>
        simp [ho, fallow, stock, totalAll, total, emptied, remainsAll, joined, destroyedAll]
        omega
      | false =>
        simp [ho, fallow, stock, totalAll, total, emptied]
        omega
    · cases hollow with
      | true =>
        grind [fallow, stock, totalAll, total]
      | false =>
        grind [fallow, stock, totalAll, total]

theorem children_total (opens : α → Bool) (takes : RoseTree α → Bool)
    (hf : ∀ p b front a hollow, fate p b = .becomes front a hollow → f a ≤ f b) (p : α) (ts : List (RoseTree α)) :
    totalAll f ts + fallow fate opens takes f (ts.flatMap (queued fate opens p)) =
      totalAll f (joined (remainsAll fate opens takes p ts)) + totalAll f (ts.flatMap (sent fate opens takes p)) +
        destroyedAll fate opens f p ts + stock f (ts.flatMap (queued fate opens p)) := by
  induction ts with
  | nil => simp [fallow, stock, totalAll, remainsAll, joined, destroyedAll]
  | cons t ts ih =>
    have ht := child_total opens takes hf p t
    rw [totalAll_joined] at ht ih
    simp only [totalAll_joined, remainsAll, flatMap_cons, totalAll_append, fallow_append, stock_append, totalAll,
      destroyedAll]
    omega

/-- The walk leaves, takes out or destroys what there is in the containers, once and no more;
    as many rounds as there are labels are enough. -/
theorem harvest_total (hf : ∀ p b front a hollow, fate p b = .becomes front a hollow → f a ≤ f b) {k : Nat}
    {q : List (RoseTree α)} (hk : sizes q ≤ k) :
    stock f q = fallow fate opens takes f q + totalAll f (harvest fate opens takes k q) := by
  induction k generalizing q with
  | zero =>
    cases q with
    | nil => rfl
    | cons t q =>
      have := size_eq t
      simp only [sizes] at hk
      omega
  | succ k ih =>
    cases q with
    | nil => rfl
    | cons t q =>
      have hsize := size_eq t
      have hq := queuedAll_sizes fate opens t.label t.contents
      simp only [sizes] at hk
      have hrest := ih (q := q ++ t.contents.flatMap (queued fate opens t.label)) (by rw [sizes_append]; omega)
      have ht := children_total opens takes hf t.label t.contents
      simp only [stock, fallow, harvest, totalAll_append, stock_append, fallow_append, emptied, contents_node] at hrest ⊢
      omega

mutual
theorem spared_iff {W : ι → Prop} {f : ι → α → Nat}
    (hf : ∀ i p b front a hollow, fate p b = .becomes front a hollow → f i a ≤ f i b) (p : α) :
    ∀ t : RoseTree α, Spared fate opens W f p t ↔ ∀ i, W i → destroyed fate opens (f i) p t = 0
  | .node b ds => by
    simp only [Spared, destroyed]
    cases h : fate p b with
    | alone => simp
    | gone => simp
    | becomes front a hollow =>
      have hle : ∀ i, (f i a = f i b ↔ f i b - f i a = 0) := by
        intro i
        have := hf i p b front a hollow h
        omega
      have hds := sparedAll_iff (W := W) hf a ds
      simp only [hle, Nat.add_eq_zero_iff]
      cases hollow with
      | true => simp [forall_and]
      | false =>
        by_cases ho : opens a = true
        · simp [ho, hds, forall_and]
        · simp [ho]
theorem sparedAll_iff {W : ι → Prop} {f : ι → α → Nat}
    (hf : ∀ i p b front a hollow, fate p b = .becomes front a hollow → f i a ≤ f i b) (p : α) :
    ∀ ts : List (RoseTree α), SparedAll fate opens W f p ts ↔ ∀ i, W i → destroyedAll fate opens (f i) p ts = 0
  | [] => by simp [SparedAll, destroyedAll]
  | t :: ts => by
    simp only [SparedAll, destroyedAll, Nat.add_eq_zero_iff]
    rw [spared_iff hf p t, sparedAll_iff hf p ts]
    simp [forall_and]
end

end

end Backlands.Lib
