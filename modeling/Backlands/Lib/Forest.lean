/-
  Backlands.Lib.Forest — forests stored as rows and rebuilt from them.

  A row has its own number (`sid`), the number of its parent or a code of the place it
  stands in (`pid`), and a label. Storing numbers the trees breadth first, so a parent's
  number is below its children's. Rebuilding takes the rows from the highest number down:
  each is finished when it is taken, and goes to the front of its parent's contents or of
  its place.

  Parameters: `holds`, which labels can have contents; `anchor`, which codes are places;
  `skip`, which labels are left out on the way back; `enter`, what a label becomes inside
  another; `put`, how a place takes a tree.

  Proved: `attach_encode`, that storing and rebuilding gives each place its trees, settled
  and in order, when every tree stands in a place, no row's number is a place and nothing is
  left out; `attach_untouched` and `attach_labels`, what rebuilding cannot do.
-/

import Mathlib.Data.List.Induction
import Mathlib.Logic.Function.Basic

namespace Backlands.Lib

open List

open Function

inductive RoseTree (α : Type*) where
  | node (label : α) (contents : List (RoseTree α))

namespace RoseTree

variable {α β : Type*}

def label : RoseTree α → α
  | node a _ => a

def contents : RoseTree α → List (RoseTree α)
  | node _ ts => ts

@[simp] theorem label_node (a : α) (ts : List (RoseTree α)) : (node a ts).label = a := rfl

@[simp] theorem contents_node (a : α) (ts : List (RoseTree α)) : (node a ts).contents = ts := rfl

@[simp] theorem node_eta (t : RoseTree α) : node t.label t.contents = t := by
  cases t
  rfl

mutual
def size : RoseTree α → Nat
  | node _ ts => 1 + sizes ts
def sizes : List (RoseTree α) → Nat
  | [] => 0
  | t :: ts => size t + sizes ts
end

mutual
/-- The labels of a tree, the root's first. -/
def labels : RoseTree α → List α
  | node a ts => a :: labelsAll ts
def labelsAll : List (RoseTree α) → List α
  | [] => []
  | t :: ts => labels t ++ labelsAll ts
end

mutual
def map (f : α → β) : RoseTree α → RoseTree β
  | node a ts => node (f a) (mapAll f ts)
def mapAll (f : α → β) : List (RoseTree α) → List (RoseTree β)
  | [] => []
  | t :: ts => map f t :: mapAll f ts
end

mutual
/-- The tree once everything in it has entered what holds it. -/
def settle (enter : α → α → α) : RoseTree α → RoseTree α
  | node a ts => node a (settleAll enter a ts)
def settleAll (enter : α → α → α) (a : α) : List (RoseTree α) → List (RoseTree α)
  | [] => []
  | t :: ts => node (enter a t.label) (settle enter t).contents :: settleAll enter a ts
end

/-- A settled tree inside a label. -/
def entered (enter : α → α → α) (a : α) (t : RoseTree α) : RoseTree α := node (enter a t.label) (settle enter t).contents

mutual
/-- Only labels that hold have contents. -/
def Sound (holds : α → Bool) : RoseTree α → Prop
  | node a ts => (ts ≠ [] → holds a = true) ∧ SoundAll holds ts
def SoundAll (holds : α → Bool) : List (RoseTree α) → Prop
  | [] => True
  | t :: ts => Sound holds t ∧ SoundAll holds ts
end

theorem induction {P : RoseTree α → Prop} (h : ∀ a ts, (∀ t ∈ ts, P t) → P (node a ts)) (t : RoseTree α) : P t := by
  refine @RoseTree.rec α P (fun ts => ∀ t ∈ ts, P t) h ?_ ?_ t
  · intro t ht
    cases ht
  intro t ts iht ihts u hu
  rcases mem_cons.mp hu with rfl | hu
  · exact iht
  · exact ihts u hu

theorem size_eq (t : RoseTree α) : size t = 1 + sizes t.contents := by
  cases t
  rfl

theorem mapAll_eq (f : α → β) (ts : List (RoseTree α)) : mapAll f ts = ts.map (map f) := by
  induction ts with
  | nil => rfl
  | cons t ts ih => rw [mapAll, ih, map_cons]

theorem contents_settle (enter : α → α → α) (t : RoseTree α) :
    (settle enter t).contents = t.contents.map (entered enter t.label) := by
  obtain ⟨a, ts⟩ := t
  show settleAll enter a ts = ts.map (entered enter a)
  induction ts with
  | nil => rfl
  | cons t ts ih => rw [settleAll, ih, map_cons, entered]

@[simp] theorem label_settle (enter : α → α → α) (t : RoseTree α) : (settle enter t).label = t.label := by
  cases t
  rfl

@[simp] theorem label_map (f : α → β) (t : RoseTree α) : (map f t).label = f t.label := by
  cases t
  rfl

@[simp] theorem contents_map (f : α → β) (t : RoseTree α) : (map f t).contents = t.contents.map (map f) := by
  cases t
  exact mapAll_eq f _

theorem labels_eq (t : RoseTree α) : labels t = t.label :: labelsAll t.contents := by
  cases t
  rfl

theorem mem_labelsAll {a : α} {ts : List (RoseTree α)} : a ∈ labelsAll ts ↔ ∃ t ∈ ts, a ∈ labels t := by
  induction ts with
  | nil => simp [labelsAll]
  | cons t ts ih => simp [labelsAll, ih]

theorem soundAll_iff {holds : α → Bool} {ts : List (RoseTree α)} : SoundAll holds ts ↔ ∀ t ∈ ts, Sound holds t := by
  induction ts with
  | nil => simp [SoundAll]
  | cons t ts ih => simp [SoundAll, ih]

theorem sound_iff {holds : α → Bool} {t : RoseTree α} :
    Sound holds t ↔ (t.contents ≠ [] → holds t.label = true) ∧ ∀ u ∈ t.contents, Sound holds u := by
  cases t
  rw [Sound, soundAll_iff]
  rfl

mutual
theorem size_map (f : α → β) : ∀ t : RoseTree α, size (map f t) = size t
  | node _ ts => by rw [map, size, size, sizes_mapAll f ts]
theorem sizes_mapAll (f : α → β) : ∀ ts : List (RoseTree α), sizes (mapAll f ts) = sizes ts
  | [] => rfl
  | t :: ts => by rw [mapAll, sizes, sizes, size_map f t, sizes_mapAll f ts]
end

mutual
theorem labels_map (f : α → β) : ∀ t : RoseTree α, labels (map f t) = (labels t).map f
  | node _ ts => by rw [map, labels, labels, labelsAll_mapAll f ts, map_cons]
theorem labelsAll_mapAll (f : α → β) : ∀ ts : List (RoseTree α), labelsAll (mapAll f ts) = (labelsAll ts).map f
  | [] => rfl
  | t :: ts => by rw [mapAll, labelsAll, labelsAll, labels_map f t, labelsAll_mapAll f ts, map_append]
end

mutual
theorem labels_settle {enter : α → α → α} {g : α → β} (h : ∀ a b, g (enter a b) = g b) :
    ∀ t : RoseTree α, (labels (settle enter t)).map g = (labels t).map g
  | node a ts => by
    show g a :: (labelsAll (settleAll enter a ts)).map g = g a :: (labelsAll ts).map g
    rw [labelsAll_settle h a ts]
theorem labelsAll_settle {enter : α → α → α} {g : α → β} (h : ∀ a b, g (enter a b) = g b) (a : α) :
    ∀ ts : List (RoseTree α), (labelsAll (settleAll enter a ts)).map g = (labelsAll ts).map g
  | [] => rfl
  | t :: ts => by
    have ht := labels_settle h t
    rw [labels_eq (settle enter t), label_settle, map_cons] at ht
    simp only [settleAll, labelsAll, labels, map_append, map_cons, h, labelsAll_settle h a ts]
    rw [ht]
end

theorem labels_child {t u : RoseTree α} {a : α} (hu : u ∈ t.contents) (ha : a ∈ labels u) : a ∈ labels t := by
  rw [labels_eq]
  exact mem_cons_of_mem _ (mem_labelsAll.mpr ⟨u, hu, ha⟩)

theorem label_mem (t : RoseTree α) : t.label ∈ labels t := by
  rw [labels_eq]
  exact mem_cons_self

mutual
theorem sound_map {f : α → β} {holds : α → Bool} {holds' : β → Bool} :
    ∀ t : RoseTree α, (∀ a ∈ labels t, holds' (f a) = holds a) → Sound holds t → Sound holds' (map f t)
  | node a ts => by
    intro h hs
    rw [map, Sound]
    rw [Sound] at hs
    refine ⟨?_, sound_mapAll ts (fun b hb => h b (mem_cons_of_mem _ hb)) hs.2⟩
    intro hne
    rw [h a mem_cons_self]
    apply hs.1
    rintro rfl
    exact hne rfl
theorem sound_mapAll {f : α → β} {holds : α → Bool} {holds' : β → Bool} :
    ∀ ts : List (RoseTree α), (∀ a ∈ labelsAll ts, holds' (f a) = holds a) → SoundAll holds ts →
      SoundAll holds' (mapAll f ts)
  | [] => by
    intro _ _
    trivial
  | t :: ts => by
    intro h hs
    rw [mapAll, SoundAll]
    rw [SoundAll] at hs
    exact ⟨sound_map t (fun a ha => h a (mem_append_left _ ha)) hs.1,
      sound_mapAll ts (fun a ha => h a (mem_append_right _ ha)) hs.2⟩
end

end RoseTree

/-! ## Rows -/

structure Row (α : Type*) where
  pid : Int
  sid : Nat
  label : α
  deriving DecidableEq, Repr

variable {α β π : Type*}

def Row.map (f : α → β) (r : Row α) : Row β := ⟨r.pid, r.sid, f r.label⟩

/-- The rows of some trees with the codes of their places, numbered from `n`. -/
def numberTop : Nat → List (Int × RoseTree α) → List (Row α)
  | _, [] => []
  | n, (pid, t) :: ts => ⟨pid, n, t.label⟩ :: numberTop (n + 1) ts

/-- The rows of some siblings. -/
def number (pid : Int) (n : Nat) (ts : List (RoseTree α)) : List (Row α) := numberTop n (ts.map fun t => (pid, t))

/-- The siblings that hold, with their numbers, whose contents are to be stored next. -/
def queueOf (holds : α → Bool) : Nat → List (RoseTree α) → List (Nat × RoseTree α)
  | _, [] => []
  | n, t :: ts => if holds t.label then (n, t) :: queueOf holds (n + 1) ts else queueOf holds (n + 1) ts

/-- The queue stored breadth first, the next free number being `n`. -/
def drain (holds : α → Bool) : Nat → List (Nat × RoseTree α) → Nat → List (Row α)
  | 0, _, _ => []
  | _ + 1, [], _ => []
  | k + 1, (p, t) :: q, n =>
    number p n t.contents ++ drain holds k (q ++ queueOf holds n t.contents) (n + t.contents.length)

/-- The whole forest stored, numbered from `n`. -/
def encode (holds : α → Bool) (n : Nat) (tops : List (Int × RoseTree α)) : List (Row α) :=
  numberTop n tops ++
    drain holds (RoseTree.sizes (tops.map (·.2))) (queueOf holds n (tops.map (·.2))) (n + tops.length)

section
variable [DecidableEq π] (holds : α → Bool) (skip : α → Bool) (enter : α → α → α) (anchor : Int → Option π)
  (put : RoseTree α → List (RoseTree α) → List (RoseTree α))

/-- Rebuild from rows given from the highest number down: `C` is the contents collected so
    far for the rows still to come, `P` what the places hold. -/
def attach : (Nat → List (RoseTree α)) → List (Row α) → (π → List (RoseTree α)) → π → List (RoseTree α)
  | _, [], P => P
  | C, r :: rest, P =>
    if skip r.label then attach C rest P
    else
      match anchor r.pid with
      | some p => attach C rest (update P p (put (.node r.label (C r.sid)) (P p)))
      | none =>
        match rest.find? (fun q => decide ((q.sid : Int) = r.pid)) with
        | some q =>
          if holds q.label then
            attach (update C q.sid (.node (enter q.label r.label) (C r.sid) :: C q.sid)) rest P
          else attach C rest P
        | none => attach C rest P

end

/-! ## Numbers -/

theorem mem_numberTop {n : Nat} {tops : List (Int × RoseTree α)} {r : Row α} (h : r ∈ numberTop n tops) :
    n ≤ r.sid ∧ r.sid < n + tops.length := by
  induction tops generalizing n with
  | nil => cases h
  | cons e tops ih =>
    rcases mem_cons.mp h with rfl | h
    · exact ⟨Nat.le_refl _, by simp⟩
    · obtain ⟨h1, h2⟩ := ih h
      exact ⟨by omega, by simp only [length_cons]; omega⟩

theorem numberTop_append (n : Nat) (ts us : List (Int × RoseTree α)) :
    numberTop n (ts ++ us) = numberTop n ts ++ numberTop (n + ts.length) us := by
  induction ts generalizing n with
  | nil => rfl
  | cons e ts ih =>
    simp only [cons_append, numberTop, ih, length_cons]
    congr 3
    omega

theorem mem_number {pid : Int} {n : Nat} {ts : List (RoseTree α)} {r : Row α} (h : r ∈ number pid n ts) :
    n ≤ r.sid ∧ r.sid < n + ts.length := by
  have := mem_numberTop h
  rwa [length_map] at this

theorem mem_queueOf {holds : α → Bool} {n : Nat} {ts : List (RoseTree α)} {p : Nat × RoseTree α}
    (h : p ∈ queueOf holds n ts) : n ≤ p.1 ∧ p.1 < n + ts.length ∧ p.2 ∈ ts ∧ holds p.2.label = true := by
  induction ts generalizing n with
  | nil => cases h
  | cons t ts ih =>
    unfold queueOf at h
    split at h
    · rename_i ht
      rcases mem_cons.mp h with rfl | h
      · exact ⟨Nat.le_refl _, by simp, mem_cons_self, ht⟩
      · obtain ⟨h1, h2, hu, e⟩ := ih h
        exact ⟨by omega, by simp only [length_cons]; omega, mem_cons_of_mem _ hu, e⟩
    · obtain ⟨h1, h2, hu, e⟩ := ih h
      exact ⟨by omega, by simp only [length_cons]; omega, mem_cons_of_mem _ hu, e⟩

theorem queueOf_nodup (holds : α → Bool) (n : Nat) (ts : List (RoseTree α)) :
    ((queueOf holds n ts).map (·.1)).Nodup := by
  induction ts generalizing n with
  | nil => exact nodup_nil
  | cons t ts ih =>
    unfold queueOf
    split
    · refine nodup_cons.mpr ⟨?_, ih (n + 1)⟩
      intro h
      obtain ⟨p, hp, e⟩ := mem_map.mp h
      have := (mem_queueOf hp).1
      simp only at e
      omega
    · exact ih (n + 1)

/-- What the queue holds for a number, settled. -/
def contentsAt (enter : α → α → α) : List (Nat × RoseTree α) → Nat → List (RoseTree α)
  | [], _ => []
  | (a, t) :: q, s => if s = a then (t.settle enter).contents else contentsAt enter q s

theorem contentsAt_of_notMem {enter : α → α → α} {q : List (Nat × RoseTree α)} {s : Nat} (h : s ∉ q.map (·.1)) :
    contentsAt enter q s = [] := by
  induction q with
  | nil => rfl
  | cons p q ih =>
    simp only [map_cons, mem_cons, not_or] at h
    rw [contentsAt, if_neg h.1]
    exact ih h.2

theorem contentsAt_append {enter : α → α → α} (q q' : List (Nat × RoseTree α)) (s : Nat) :
    contentsAt enter (q ++ q') s = if s ∈ q.map (·.1) then contentsAt enter q s else contentsAt enter q' s := by
  induction q with
  | nil => simp
  | cons p q ih =>
    obtain ⟨a, t⟩ := p
    by_cases e : s = a
    · simp [contentsAt, e]
    · simp only [cons_append, contentsAt, e, if_false, ih, map_cons, mem_cons, false_or]

theorem contentsAt_queueOf {holds : α → Bool} {enter : α → α → α} {n : Nat} {ts : List (RoseTree α)}
    (hs : ∀ t ∈ ts, RoseTree.Sound holds t) (i : Nat) (t : RoseTree α) (hi : ts[i]? = some t) :
    contentsAt enter (queueOf holds n ts) (n + i) = (t.settle enter).contents := by
  induction ts generalizing n i with
  | nil => simp at hi
  | cons u ts ih =>
    have hu := RoseTree.sound_iff.mp (hs u mem_cons_self)
    cases i with
    | zero =>
      simp only [getElem?_cons_zero, Option.some.injEq] at hi
      subst hi
      unfold queueOf
      split
      · simp [contentsAt]
      rename_i hh
      have hc : u.contents = [] := by
        by_contra hne
        exact hh (hu.1 hne)
      rw [RoseTree.contents_settle, hc, contentsAt_of_notMem, map_nil]
      intro h
      obtain ⟨p, hp, e⟩ := mem_map.mp h
      have := (mem_queueOf hp).1
      omega
    | succ i =>
      have := ih (n := n + 1) (fun t ht => hs t (mem_cons_of_mem _ ht)) i hi
      have en : n + 1 + i = n + (i + 1) := by omega
      rw [en] at this
      unfold queueOf
      split
      · have hne : ¬ n + (i + 1) = n := by omega
        rw [contentsAt, if_neg hne]
        exact this
      · exact this

/-! ## Rebuilding -/

section
variable [DecidableEq π] {holds : α → Bool} {skip : α → Bool} {enter : α → α → α} {anchor : Int → Option π}
  {put : RoseTree α → List (RoseTree α) → List (RoseTree α)}

theorem attach_congr {C C' : Nat → List (RoseTree α)} {rows : List (Row α)} (h : ∀ r ∈ rows, C r.sid = C' r.sid)
    (P : π → List (RoseTree α)) : attach holds skip enter anchor put C rows P = attach holds skip enter anchor put C' rows P := by
  induction rows generalizing C C' P with
  | nil => rfl
  | cons r rest ih =>
    have hr := h r mem_cons_self
    have hrest : ∀ q ∈ rest, C q.sid = C' q.sid := fun q hq => h q (mem_cons_of_mem _ hq)
    simp only [attach, hr]
    split
    · exact ih hrest P
    split
    · exact ih hrest _
    split
    · rename_i q hq
      split
      · apply ih
        grind
      · exact ih hrest P
    · exact ih hrest P

theorem find?_reverse_append {A B : List (Row α)} {p : Nat} {q : Row α}
    (hA : A.reverse.find? (fun r => decide ((r.sid : Int) = (p : Int))) = some q) (hB : ∀ r ∈ B, r.sid ≠ p) :
    (A ++ B).reverse.find? (fun r => decide ((r.sid : Int) = (p : Int))) = some q := by
  rw [reverse_append, find?_append]
  have hnone : B.reverse.find? (fun r => decide ((r.sid : Int) = (p : Int))) = none := by
    rw [find?_eq_none]
    intro r hr
    have := hB r (mem_reverse.mp hr)
    simp only [decide_eq_true_eq]
    omega
  rw [hnone, Option.none_or]
  exact hA

theorem attach_number {C : Nat → List (RoseTree α)} {A : List (Row α)} {p n : Nat} {q : Row α} (ts : List (RoseTree α))
    (hq : A.reverse.find? (fun r => decide ((r.sid : Int) = (p : Int))) = some q) (hh : holds q.label = true)
    (ha : anchor (p : Int) = none) (hp : p < n) (hs : ∀ t ∈ ts, skip t.label = false)
    (hc : ∀ i t, ts[i]? = some t → C (n + i) = (t.settle enter).contents) (P : π → List (RoseTree α)) :
    attach holds skip enter anchor put C (A ++ number p n ts).reverse P =
      attach holds skip enter anchor put (update C p (ts.map (RoseTree.entered enter q.label) ++ C p))
        A.reverse P := by
  induction ts using reverseRecOn generalizing C with
  | nil => simp [number, numberTop]
  | append_singleton ts t ih =>
    have hqs : q.sid = p := by
      have := find?_some hq
      simp only [decide_eq_true_eq] at this
      omega
    have hlast : C (n + ts.length) = (t.settle enter).contents := hc ts.length t (by simp)
    have hrest := find?_reverse_append hq (B := number p n ts) (fun r hr => by
      have := (mem_number hr).1
      omega)
    have hsnoc : number (p : Int) n (ts ++ [t]) = number p n ts ++ [⟨p, n + ts.length, t.label⟩] := by
      simp [number, numberTop_append, numberTop]
    rw [hsnoc, ← append_assoc, reverse_append]
    simp only [reverse_cons, reverse_nil, nil_append, cons_append, attach]
    rw [hs t (by simp)]
    simp only [Bool.false_eq_true, if_false, ha, hrest, hh, if_true, hlast, hqs]
    rw [ih (fun u hu => hs u (mem_append_left _ hu))]
    · congr 1
      simp [RoseTree.entered]
    intro i u hi
    have hlt : i < ts.length := (List.getElem?_eq_some_iff.mp hi).1
    rw [update_of_ne (by omega)]
    exact hc i u (by rw [getElem?_append_left hlt]; exact hi)

theorem find?_numberTop {n : Nat} {tops : List (Int × RoseTree α)} {e : Nat × RoseTree α}
    (h : e ∈ queueOf holds n (tops.map (·.2))) :
    ∃ q, (numberTop n tops).reverse.find? (fun r => decide ((r.sid : Int) = (e.1 : Int))) = some q ∧
      q.label = e.2.label := by
  induction tops generalizing n with
  | nil => cases h
  | cons u tops ih =>
    obtain ⟨pid, t⟩ := u
    simp only [numberTop, reverse_cons, find?_append]
    have hrest : e ∈ queueOf holds (n + 1) (tops.map (·.2)) → ∃ q, ((numberTop (n + 1) tops).reverse.find?
        (fun r => decide ((r.sid : Int) = (e.1 : Int)))).or ([⟨pid, n, t.label⟩].find?
        (fun r => decide ((r.sid : Int) = (e.1 : Int)))) = some q ∧ q.label = e.2.label := by
      intro h
      obtain ⟨q, h1, h2⟩ := ih h
      exact ⟨q, by rw [h1]; rfl, h2⟩
    simp only [map_cons] at h
    unfold queueOf at h
    split at h
    · rcases mem_cons.mp h with rfl | h
      · have hnone : (numberTop (n + 1) tops).reverse.find? (fun r => decide ((r.sid : Int) = (n : Int))) = none := by
          rw [find?_eq_none]
          intro r hr
          have := (mem_numberTop (mem_reverse.mp hr)).1
          simp only [decide_eq_true_eq]
          omega
        refine ⟨⟨pid, n, t.label⟩, ?_, rfl⟩
        dsimp only
        rw [hnone, Option.none_or, find?_cons_of_pos (by simp)]
      · exact hrest h
    · exact hrest h

theorem find?_number (pid : Int) {n : Nat} {ts : List (RoseTree α)} {e : Nat × RoseTree α}
    (h : e ∈ queueOf holds n ts) :
    ∃ q, (number pid n ts).reverse.find? (fun r => decide ((r.sid : Int) = (e.1 : Int))) = some q ∧
      q.label = e.2.label := by
  apply find?_numberTop
  have : (ts.map fun t => (pid, t)).map (·.2) = ts := by
    rw [map_map]
    exact map_id ts
  rwa [this]

/-- The weight of a queue: enough steps to store it. -/
def weight : List (Nat × RoseTree α) → Nat
  | [] => 0
  | (_, t) :: q => t.size + weight q

theorem weight_append (q q' : List (Nat × RoseTree α)) : weight (q ++ q') = weight q + weight q' := by
  induction q with
  | nil => simp [weight]
  | cons p q ih =>
    simp only [cons_append, weight, ih]
    omega

theorem weight_queueOf (holds : α → Bool) (n : Nat) (ts : List (RoseTree α)) :
    weight (queueOf holds n ts) ≤ RoseTree.sizes ts := by
  induction ts generalizing n with
  | nil => exact Nat.le_refl _
  | cons t ts ih =>
    grind [queueOf, weight, RoseTree.sizes]

/-- A queue whose rows were taken: each of its numbers has its contents back. -/
theorem attach_drain {k m : Nat} {Q : List (Nat × RoseTree α)} {n : Nat} {A : List (Row α)}
    {C : Nat → List (RoseTree α)} (hk : weight Q ≤ k) (hA : ∀ r ∈ A, r.sid < n)
    (hQ : ∀ e ∈ Q, m ≤ e.1 ∧ e.1 < n ∧ ∃ q, A.reverse.find? (fun r => decide ((r.sid : Int) = (e.1 : Int))) = some q ∧
      q.label = e.2.label)
    (hh : ∀ e ∈ Q, holds e.2.label = true)
    (hn : (Q.map (·.1)).Nodup) (ha : ∀ s : Nat, m ≤ s → anchor (s : Int) = none) (hm : m ≤ n)
    (hs : ∀ e ∈ Q, ∀ a ∈ e.2.labels, skip a = false) (hw : ∀ e ∈ Q, RoseTree.Sound holds e.2)
    (hC : ∀ s, n ≤ s → C s = []) (P : π → List (RoseTree α)) :
    attach holds skip enter anchor put C (A ++ drain holds k Q n).reverse P =
      attach holds skip enter anchor put (fun s => contentsAt enter Q s ++ C s) A.reverse P := by
  induction k generalizing Q n A C with
  | zero =>
    cases Q with
    | nil => simp [drain, contentsAt]
    | cons e Q =>
      have := RoseTree.size_eq e.2
      simp only [weight] at hk
      omega
  | succ k ih =>
    cases Q with
    | nil => simp [drain, contentsAt]
    | cons e Q =>
      obtain ⟨p, t⟩ := e
      obtain ⟨hpm, hpn, q, hq, hl⟩ := hQ (p, t) mem_cons_self
      obtain ⟨hpQ, hnQ⟩ := nodup_cons.mp hn
      have hsub : ∀ u ∈ t.contents, RoseTree.Sound holds u := (RoseTree.sound_iff.mp (hw (p, t) mem_cons_self)).2
      have hskip : ∀ u ∈ t.contents, ∀ a ∈ u.labels, skip a = false := by
        intro u hu a ha
        exact hs (p, t) mem_cons_self a (RoseTree.labels_child hu ha)
      have hnum : ∀ r ∈ number (p : Int) n t.contents, n ≤ r.sid ∧ r.sid < n + t.contents.length := fun r hr =>
        mem_number hr
      simp only [drain, ← append_assoc]
      -- First the rows of what waits behind, then the children of `p` themselves.
      rw [ih (Q := Q ++ queueOf holds n t.contents) (n := n + t.contents.length) (A := A ++ number p n t.contents)]
      · rw [attach_number t.contents hq (by rw [hl]; exact hh (p, t) mem_cons_self)]
        · apply attach_congr
          intro r hr
          have hr' := hA r (mem_reverse.mp hr)
          have hnot : r.sid ∉ (queueOf holds n t.contents).map (·.1) := by
            intro h
            obtain ⟨e, he, hes⟩ := mem_map.mp h
            have := (mem_queueOf he).1
            omega
          by_cases e : r.sid = p
          · rw [e, update_self, contentsAt_append, if_neg hpQ, contentsAt_of_notMem (by rw [← e]; exact hnot),
              hl, ← RoseTree.contents_settle]
            simp [contentsAt]
          · rw [update_of_ne e, contentsAt_append, contentsAt, if_neg e]
            split
            · rfl
            · rename_i hm
              rw [contentsAt_of_notMem hm, contentsAt_of_notMem hnot]
        · exact ha p hpm
        · exact hpn
        · intro u hu
          exact hskip u hu u.label u.label_mem
        · intro i u hi
          have hnot : n + i ∉ Q.map (·.1) := by
            intro h
            obtain ⟨e, he, hes⟩ := mem_map.mp h
            have := (hQ e (mem_cons_of_mem _ he)).2.1
            omega
          rw [contentsAt_append, if_neg hnot, contentsAt_queueOf hsub i u hi, hC (n + i) (by omega), append_nil]
      · rw [weight_append]
        have := weight_queueOf holds n t.contents
        have := RoseTree.size_eq t
        simp only [weight] at hk
        omega
      · intro r hr
        rcases mem_append.mp hr with hr | hr
        · have := hA r hr
          omega
        · exact (hnum r hr).2
      · intro e he
        rcases mem_append.mp he with he | he
        · obtain ⟨h0, h1, q', h2, h3⟩ := hQ e (mem_cons_of_mem _ he)
          refine ⟨h0, by omega, q', find?_reverse_append h2 ?_, h3⟩
          intro r hr
          have := (hnum r hr).1
          omega
        · obtain ⟨h1, h2, _⟩ := mem_queueOf he
          obtain ⟨q', h3, h4⟩ := find?_number p he
          refine ⟨by omega, by omega, q', ?_, h4⟩
          rw [reverse_append, find?_append, h3, Option.some_or]
      · intro e he
        rcases mem_append.mp he with he | he
        · exact hh e (mem_cons_of_mem _ he)
        · exact (mem_queueOf he).2.2.2
      · rw [map_append]
        refine nodup_append.mpr ⟨hnQ, queueOf_nodup holds n _, ?_⟩
        rintro a ha' b hb rfl
        obtain ⟨e, he, rfl⟩ := mem_map.mp ha'
        obtain ⟨e', he', h⟩ := mem_map.mp hb
        have h1 := (hQ e (mem_cons_of_mem _ he)).2.1
        have h2 := (mem_queueOf he').1
        omega
      · omega
      · intro e he
        rcases mem_append.mp he with he | he
        · exact hs e (mem_cons_of_mem _ he)
        · exact hskip e.2 (mem_queueOf he).2.2.1
      · intro e he
        rcases mem_append.mp he with he | he
        · exact hw e (mem_cons_of_mem _ he)
        · exact hsub e.2 (mem_queueOf he).2.2.1
      · intro s hs'
        exact hC s (by omega)

/-- What the trees standing in a place leave there, the first one put last. -/
def placed (anchor : Int → Option π) (put : RoseTree α → List (RoseTree α) → List (RoseTree α)) (p : π)
    (tops : List (Int × RoseTree α)) (l : List (RoseTree α)) : List (RoseTree α) :=
  ((tops.filter (fun e => decide (anchor e.1 = some p))).map (·.2)).foldr put l

theorem attach_numberTop {C : Nat → List (RoseTree α)} {n : Nat} (tops : List (Int × RoseTree α))
    (ha : ∀ e ∈ tops, (anchor e.1).isSome = true) (hs : ∀ e ∈ tops, skip e.2.label = false)
    (hc : ∀ (i : Nat) e, tops[i]? = some e → C (n + i) = (e.2.settle enter).contents) (P : π → List (RoseTree α)) :
    attach holds skip enter anchor put C (numberTop n tops).reverse P =
      fun p => placed anchor put p (tops.map fun e => (e.1, e.2.settle enter)) (P p) := by
  induction tops using reverseRecOn generalizing P with
  | nil => rfl
  | append_singleton tops e ih =>
    obtain ⟨pid, t⟩ := e
    have hlast : C (n + tops.length) = (t.settle enter).contents := hc tops.length (pid, t) (by simp)
    have hnode : RoseTree.node t.label (t.settle enter).contents = t.settle enter := by
      rw [← RoseTree.label_settle enter, RoseTree.node_eta]
    obtain ⟨pl, hpl⟩ := Option.isSome_iff_exists.mp (ha (pid, t) (by simp))
    rw [numberTop_append, reverse_append]
    simp only [numberTop, reverse_cons, reverse_nil, nil_append, cons_append, attach]
    rw [hs (pid, t) (by simp)]
    simp only [Bool.false_eq_true, if_false, hpl, hlast, hnode]
    rw [ih (fun e he => ha e (mem_append_left _ he)) (fun e he => hs e (mem_append_left _ he))]
    · funext p
      by_cases e : p = pl
      · subst e
        simp [placed, hpl]
      · have e' : ¬ pl = p := fun h => e h.symm
        simp [placed, hpl, update_of_ne e, e']
    · intro i e hi
      have hlt : i < tops.length := (List.getElem?_eq_some_iff.mp hi).1
      exact hc i e (by rw [getElem?_append_left hlt]; exact hi)

theorem attach_encode {n : Nat} (tops : List (Int × RoseTree α)) (ha : ∀ e ∈ tops, (anchor e.1).isSome = true)
    (hn : ∀ s : Nat, n ≤ s → anchor (s : Int) = none) (hs : ∀ e ∈ tops, ∀ a ∈ e.2.labels, skip a = false)
    (hw : ∀ e ∈ tops, RoseTree.Sound holds e.2) (P : π → List (RoseTree α)) :
    attach holds skip enter anchor put (fun _ => []) (encode holds n tops).reverse P =
      fun p => placed anchor put p (tops.map fun e => (e.1, e.2.settle enter)) (P p) := by
  have hw' : ∀ t ∈ tops.map (·.2), RoseTree.Sound holds t := by
    intro t ht
    obtain ⟨e, he, rfl⟩ := mem_map.mp ht
    exact hw e he
  unfold encode
  rw [attach_drain (m := n)]
  · apply attach_numberTop tops ha
    · intro e he
      exact hs e he _ e.2.label_mem
    intro i e hi
    have hi' : (tops.map (·.2))[i]? = some e.2 := by
      rw [getElem?_map, hi]
      rfl
    rw [contentsAt_queueOf hw' i e.2 hi', append_nil]
  · exact weight_queueOf holds n _
  · intro r hr
    exact (mem_numberTop hr).2
  · intro e he
    obtain ⟨h1, h2, _⟩ := mem_queueOf he
    simp only [length_map] at h2
    exact ⟨h1, h2, find?_numberTop he⟩
  · intro e he
    exact (mem_queueOf he).2.2.2
  · exact queueOf_nodup holds n _
  · exact hn
  · omega
  · intro e he
    obtain ⟨e', he', h3⟩ := mem_map.mp (mem_queueOf he).2.2.1
    rw [← h3]
    exact hs e' he'
  · intro e he
    exact hw' e.2 (mem_queueOf he).2.2.1
  · intro _ _
    rfl

/-! ## What rebuilding cannot do -/

theorem attach_untouched {C : Nat → List (RoseTree α)} {rows : List (Row α)} {p : π}
    (h : ∀ r ∈ rows, anchor r.pid ≠ some p) (P : π → List (RoseTree α)) :
    attach holds skip enter anchor put C rows P p = P p := by
  induction rows generalizing C P with
  | nil => rfl
  | cons r rest ih =>
    have hr := h r mem_cons_self
    have hrest : ∀ q ∈ rest, anchor q.pid ≠ some p := fun q hq => h q (mem_cons_of_mem _ hq)
    unfold attach
    split
    · exact ih hrest P
    cases hpl : anchor r.pid with
    | some pl =>
      simp only
      rw [ih hrest, update_of_ne]
      rintro rfl
      exact hr hpl
    | none =>
      cases hq : rest.find? (fun q => decide ((q.sid : Int) = r.pid)) with
      | none => exact ih hrest P
      | some q =>
        simp only
        split
        · exact ih hrest P
        · exact ih hrest P

/-- Nothing that is left out comes back. -/
theorem attach_labels {C : Nat → List (RoseTree α)} {rows : List (Row α)} {P : π → List (RoseTree α)}
    (hput : ∀ t l u, u ∈ put t l → u = t ∨ u ∈ l) (henter : ∀ a b, skip (enter a b) = skip b)
    (hC : ∀ s, ∀ t ∈ C s, ∀ a ∈ t.labels, skip a = false) (hP : ∀ p, ∀ t ∈ P p, ∀ a ∈ t.labels, skip a = false)
    (p : π) : ∀ t ∈ attach holds skip enter anchor put C rows P p, ∀ a ∈ t.labels, skip a = false := by
  induction rows generalizing C P with
  | nil => exact hP p
  | cons r rest ih =>
    unfold attach
    split
    · exact ih hC hP
    rename_i hr
    have hnode : ∀ b, skip b = skip r.label → ∀ a ∈ (RoseTree.node b (C r.sid)).labels, skip a = false := by
      intro b hb a ha
      rcases mem_cons.mp ha with rfl | ha
      · simpa [hb] using hr
      · obtain ⟨t, ht, hat⟩ := RoseTree.mem_labelsAll.mp ha
        exact hC r.sid t ht a hat
    cases hpl : anchor r.pid with
    | some pl =>
      apply ih hC
      grind
    | none =>
      cases hq : rest.find? (fun q => decide ((q.sid : Int) = r.pid)) with
      | none => exact ih hC hP
      | some q =>
        simp only
        split
        · apply ih _ hP
          intro s t ht
          by_cases e : s = q.sid
          · subst e
            rw [update_self] at ht
            rcases mem_cons.mp ht with rfl | ht
            · exact hnode _ (henter _ _)
            · exact hC q.sid t ht
          · rw [update_of_ne e] at ht
            exact hC s t ht
        · exact ih hC hP

end

/-! ## Relabelled forests -/

section
variable {f : α → β} {holds : α → Bool} {holds' : β → Bool}

theorem numberTop_map (n : Nat) (tops : List (Int × RoseTree α)) :
    numberTop n (tops.map fun e => (e.1, e.2.map f)) = (numberTop n tops).map (Row.map f) := by
  induction tops generalizing n with
  | nil => rfl
  | cons e tops ih =>
    simp [numberTop, ih, Row.map]

theorem queueOf_map (n : Nat) {ts : List (RoseTree α)} (h : ∀ t ∈ ts, holds' (f t.label) = holds t.label) :
    queueOf holds' n (ts.map (RoseTree.map f)) = (queueOf holds n ts).map fun e => (e.1, e.2.map f) := by
  induction ts generalizing n with
  | nil => rfl
  | cons t ts ih =>
    have ht := h t mem_cons_self
    have hrest := ih (n + 1) fun u hu => h u (mem_cons_of_mem _ hu)
    simp only [map_cons, queueOf, RoseTree.label_map, ht, hrest]
    split <;> rfl

theorem drain_map (k : Nat) {q : List (Nat × RoseTree α)} (n : Nat)
    (h : ∀ e ∈ q, ∀ a ∈ e.2.labels, holds' (f a) = holds a) :
    drain holds' k (q.map fun e => (e.1, e.2.map f)) n = (drain holds k q n).map (Row.map f) := by
  induction k generalizing q n with
  | zero => rfl
  | succ k ih =>
    cases q with
    | nil => rfl
    | cons e q =>
      obtain ⟨p, t⟩ := e
      have ht : ∀ u ∈ t.contents, ∀ a ∈ u.labels, holds' (f a) = holds a := by
        intro u hu a ha
        exact h (p, t) mem_cons_self a (RoseTree.labels_child hu ha)
      have hq : queueOf holds' n (t.contents.map (RoseTree.map f)) = _ :=
        queueOf_map n fun u hu => ht u hu u.label u.label_mem
      have hn : number (p : Int) n (t.contents.map (RoseTree.map f)) = (number p n t.contents).map (Row.map f) := by
        rw [number, number, ← numberTop_map, map_map, map_map]
        rfl
      simp only [map_cons, drain, map_append, RoseTree.contents_map, length_map]
      rw [hn, hq, ← map_append, ih]
      intro e he
      rcases mem_append.mp he with he | he
      · exact h e (mem_cons_of_mem _ he)
      · exact ht e.2 (mem_queueOf he).2.2.1

theorem encode_map (n : Nat) (tops : List (Int × RoseTree α))
    (h : ∀ e ∈ tops, ∀ a ∈ e.2.labels, holds' (f a) = holds a) :
    encode holds' n (tops.map fun e => (e.1, e.2.map f)) = (encode holds n tops).map (Row.map f) := by
  have hm : (tops.map fun e => (e.1, e.2.map f)).map (·.2) = (tops.map (·.2)).map (RoseTree.map f) := by
    rw [map_map, map_map]
    rfl
  have hl : ∀ t ∈ tops.map (·.2), ∀ a ∈ t.labels, holds' (f a) = holds a := by
    intro t ht
    obtain ⟨e, he, rfl⟩ := mem_map.mp ht
    exact h e he
  have hq : queueOf holds' n ((tops.map (·.2)).map (RoseTree.map f)) = _ :=
    queueOf_map n fun t ht => hl t ht t.label t.label_mem
  unfold encode
  rw [numberTop_map, hm, map_append, ← RoseTree.mapAll_eq, RoseTree.sizes_mapAll, RoseTree.mapAll_eq, length_map, hq,
    drain_map]
  intro e he
  exact hl e.2 (mem_queueOf he).2.2.1

theorem numberTop_sorted (n : Nat) (tops : List (Int × RoseTree α)) :
    (numberTop n tops).Pairwise (fun a b => a.sid < b.sid) := by
  induction tops generalizing n with
  | nil => exact List.Pairwise.nil
  | cons e tops ih =>
    refine pairwise_cons.mpr ⟨?_, ih (n + 1)⟩
    intro r hr
    exact Nat.lt_of_succ_le (mem_numberTop hr).1

theorem drain_sorted (holds : α → Bool) (k : Nat) (q : List (Nat × RoseTree α)) (n : Nat) :
    (drain holds k q n).Pairwise (fun a b => a.sid < b.sid) ∧ ∀ r ∈ drain holds k q n, n ≤ r.sid := by
  induction k generalizing q n with
  | zero => exact ⟨List.Pairwise.nil, fun r hr => by cases hr⟩
  | succ k ih =>
    cases q with
    | nil => exact ⟨List.Pairwise.nil, fun r hr => by cases hr⟩
    | cons e q =>
      obtain ⟨p, t⟩ := e
      obtain ⟨h1, h2⟩ := ih (q ++ queueOf holds n t.contents) (n + t.contents.length)
      refine ⟨pairwise_append.mpr ⟨numberTop_sorted n _, h1, ?_⟩, ?_⟩
      · intro a ha b hb
        have := (mem_number ha).2
        have := h2 b hb
        omega
      · intro r hr
        rcases mem_append.mp hr with hr | hr
        · exact (mem_number hr).1
        · have := h2 r hr
          omega

theorem encode_sorted (n : Nat) (tops : List (Int × RoseTree α)) :
    (encode holds n tops).Pairwise (fun a b => a.sid < b.sid) := by
  obtain ⟨h1, h2⟩ := drain_sorted holds (RoseTree.sizes (tops.map (·.2)))
    (queueOf holds n (tops.map (·.2))) (n + tops.length)
  refine pairwise_append.mpr ⟨numberTop_sorted n tops, h1, ?_⟩
  intro a ha b hb
  have := (mem_numberTop ha).2
  have := h2 b hb
  omega

theorem labelsAll_append (ts us : List (RoseTree α)) :
    RoseTree.labelsAll (ts ++ us) = RoseTree.labelsAll ts ++ RoseTree.labelsAll us := by
  induction ts with
  | nil => rfl
  | cons t ts ih => simp [RoseTree.labelsAll, ih, append_assoc]

theorem labelsAll_perm (n : Nat) {ts : List (RoseTree α)} (hs : ∀ t ∈ ts, RoseTree.Sound holds t) :
    (RoseTree.labelsAll ts).Perm
      (ts.map (·.label) ++ RoseTree.labelsAll ((queueOf holds n ts).flatMap (·.2.contents))) := by
  induction ts generalizing n with
  | nil => exact List.Perm.refl _
  | cons t ts ih =>
    have ht := RoseTree.sound_iff.mp (hs t mem_cons_self)
    have hrest := ih (n + 1) fun u hu => hs u (mem_cons_of_mem _ hu)
    simp only [RoseTree.labelsAll, RoseTree.labels_eq, map_cons, cons_append]
    refine List.Perm.cons _ ?_
    unfold queueOf
    split
    · simp only [flatMap_cons, labelsAll_append]
      refine (List.Perm.append_left _ hrest).trans ?_
      rw [← append_assoc, ← append_assoc]
      exact List.Perm.append_right _ perm_append_comm
    · rename_i hh
      have hc : t.contents = [] := by
        by_contra hne
        exact hh (ht.1 hne)
      rw [hc]
      exact hrest

theorem numberTop_labels (n : Nat) (tops : List (Int × RoseTree α)) :
    (numberTop n tops).map (·.label) = tops.map (·.2.label) := by
  induction tops generalizing n with
  | nil => rfl
  | cons e tops ih =>
    simp [numberTop, ih]

theorem drain_labels {k : Nat} {q : List (Nat × RoseTree α)} (n : Nat) (hk : weight q ≤ k)
    (hs : ∀ e ∈ q, RoseTree.Sound holds e.2) :
    ((drain holds k q n).map (·.label)).Perm (RoseTree.labelsAll (q.flatMap (·.2.contents))) := by
  induction k generalizing q n with
  | zero =>
    cases q with
    | nil => exact List.Perm.refl _
    | cons e q =>
      have := RoseTree.size_eq e.2
      simp only [weight] at hk
      omega
  | succ k ih =>
    cases q with
    | nil => exact List.Perm.refl _
    | cons e q =>
      obtain ⟨p, t⟩ := e
      have ht : ∀ u ∈ t.contents, RoseTree.Sound holds u := (RoseTree.sound_iff.mp (hs (p, t) mem_cons_self)).2
      have hw := weight_queueOf holds n t.contents
      have hsize := RoseTree.size_eq t
      simp only [weight] at hk
      have hrest := ih (q := q ++ queueOf holds n t.contents) (n + t.contents.length)
        (by rw [weight_append]; omega) (by
          intro e he
          rcases mem_append.mp he with he | he
          · exact hs e (mem_cons_of_mem _ he)
          · exact ht e.2 (mem_queueOf he).2.2.1)
      have hnum : (number (p : Int) n t.contents).map (·.label) = t.contents.map (·.label) := by
        rw [number, numberTop_labels, map_map]
        rfl
      simp only [drain, map_append, hnum, flatMap_cons, labelsAll_append]
      rw [flatMap_append, labelsAll_append] at hrest
      refine (List.Perm.append_left _ hrest).trans ?_
      refine (List.Perm.append_left _ perm_append_comm).trans ?_
      rw [← append_assoc]
      exact List.Perm.append_right _ (labelsAll_perm n ht).symm

theorem drain_leaves (holds : α → Bool) (k : Nat) {q : List (Nat × RoseTree α)} (n : Nat)
    (h : ∀ e ∈ q, e.2.contents = []) : drain holds k q n = [] := by
  induction k generalizing q with
  | zero => rfl
  | succ k ih =>
    cases q with
    | nil => rfl
    | cons e q =>
      have he : e.2.contents = [] := h e mem_cons_self
      have hrest := ih fun x hx => h x (mem_cons_of_mem _ hx)
      simp [drain, he, number, numberTop, queueOf, hrest]

theorem encode_leaves (n : Nat) {tops : List (Int × RoseTree α)} (h : ∀ e ∈ tops, e.2.contents = []) :
    encode holds n tops = numberTop n tops := by
  unfold encode
  rw [drain_leaves, append_nil]
  intro e he
  obtain ⟨e', he', h3⟩ := mem_map.mp (mem_queueOf he).2.2.1
  rw [← h3]
  exact h e' he'

theorem encode_labels (n : Nat) {tops : List (Int × RoseTree α)} (hs : ∀ e ∈ tops, RoseTree.Sound holds e.2) :
    ((encode holds n tops).map (·.label)).Perm (RoseTree.labelsAll (tops.map (·.2))) := by
  have hs' : ∀ t ∈ tops.map (·.2), RoseTree.Sound holds t := by
    intro t ht
    obtain ⟨e, he, rfl⟩ := mem_map.mp ht
    exact hs e he
  have hd := drain_labels (n + tops.length) (weight_queueOf holds n (tops.map (·.2))) (by
    intro e he
    exact hs' e.2 (mem_queueOf he).2.2.1)
  unfold encode
  rw [map_append, numberTop_labels]
  refine (List.Perm.append_left _ hd).trans ?_
  have := (labelsAll_perm n hs').symm
  rwa [map_map] at this

end

end Backlands.Lib
