/-
  Backlands.Lib.Sweep — buckets swept in turn while entries come and go.

  A pass sweeps one bucket from the left, by position. It goes past an entry (`visit`) or
  takes it out (`drop`), the last entry filling the gap; new entries go to the end of any
  bucket, also of the one being swept. Passes take the buckets in cyclic order.

  Proved: an entry is visited at most once in any `n` passes over `n` buckets
  (`visits_le_one`), and one that is there at the start and never dropped exactly once
  (`visits_eq_one`).
-/

import Mathlib.Algebra.Group.Fin.Basic
import Mathlib.Data.List.Nodup
import Mathlib.Algebra.Order.Ring.Int

namespace Backlands.Lib

open List Function

/-- The entry at `i` replaced by the last one, which goes from the end. -/
def dropAt {α : Type*} (i : Nat) (as : List α) : List α :=
  match as.getLast? with
  | none => []
  | some last => (as.set i last).dropLast

section Lists

variable {α : Type*} {a : α} {front back as : List α} {i : Nat}

theorem split_at (h : as[i]? = some a) : as = as.take i ++ a :: as.drop (i + 1) := by
  obtain ⟨hi, rfl⟩ := List.getElem?_eq_some_iff.mp h
  rw [getElem_cons_drop hi, take_append_drop]

theorem dropAt_split (front back : List α) (a : α) :
    ∃ rest, dropAt front.length (front ++ a :: back) = front ++ rest ∧ back.Perm rest := by
  rcases eq_nil_or_concat' back with rfl | ⟨init, last, rfl⟩
  · exact ⟨[], by simp [dropAt], .refl _⟩
  refine ⟨last :: init, ?_, ?_⟩
  · have hlast : (front ++ a :: (init ++ [last])).getLast? = some last := by
      rw [← cons_append, ← append_assoc, getLast?_concat]
    simp only [dropAt, hlast]
    rw [set_append_right _ _ le_rfl, Nat.sub_self, set_cons_zero, ← cons_append,
      ← append_assoc, dropLast_concat]
  · exact perm_append_singleton last init

theorem take_dropAt (h : as[i]? = some a) : (dropAt i as).take i = as.take i := by
  obtain ⟨hi, -⟩ := List.getElem?_eq_some_iff.mp h
  have hlen : (as.take i).length = i := length_take_of_le hi.le
  obtain ⟨rest, hrest, -⟩ := dropAt_split (as.take i) (as.drop (i + 1)) a
  rw [← split_at h, hlen] at hrest
  rw [hrest, take_append_of_le_length hlen.ge, take_take, min_self]

/-- What is left to sweep is what was, less the entry taken out. -/
theorem drop_dropAt (h : as[i]? = some a) : (as.drop i).Perm (a :: (dropAt i as).drop i) := by
  obtain ⟨hi, hget⟩ := List.getElem?_eq_some_iff.mp h
  have hlen : (as.take i).length = i := length_take_of_le hi.le
  obtain ⟨rest, hrest, hp⟩ := dropAt_split (as.take i) (as.drop (i + 1)) a
  rw [← split_at h, hlen] at hrest
  rw [hrest, drop_append_of_le_length hlen.ge, drop_take, Nat.sub_self, take_zero, nil_append,
    ← getElem_cons_drop hi, hget]
  exact hp.cons a

theorem dropAt_perm (h : as[i]? = some a) : as.Perm (a :: dropAt i as) := by
  calc as
    _ = as.take i ++ as.drop i := (take_append_drop i as).symm
    _ = (dropAt i as).take i ++ as.drop i := by rw [take_dropAt h]
    List.Perm _ ((dropAt i as).take i ++ a :: (dropAt i as).drop i) := (drop_dropAt h).append_left _
    List.Perm _ (a :: ((dropAt i as).take i ++ (dropAt i as).drop i)) := perm_middle
    _ = a :: dropAt i as := by rw [take_append_drop]

end Lists

/-- `pos` is the bucket being swept and how many of its entries the pass is past; `next` the
    bucket of the pass after. -/
structure Sweeps (n : Nat) (α : Type*) where
  buckets : Fin n → List α
  pos : Option (Fin n × Nat)
  next : Fin n

/-- What one move of the machine does. -/
inductive Act (α : Type*) where
  | stay
  | push (a : α)
  | begin
  | visit (a : α)
  | drop (a : α)
  | finish
  deriving DecidableEq

/-- How many passes the move starts. -/
def Act.begins {α : Type*} : Act α → Nat
  | .begin => 1
  | _ => 0

namespace Sweeps

section Left

variable {n : Nat} {α : Type*} {s : Sweeps n α} {b : Fin n} {i : Nat} {a : α}

/-- Some bucket holds `a`. -/
def Present (s : Sweeps n α) (a : α) : Prop := ∃ b, a ∈ s.buckets b

/-- What the pass has still to come to in bucket `b`. -/
def left (s : Sweeps n α) (b : Fin n) : List α :=
  match s.pos with
  | some (b', i) => if b = b' then (s.buckets b).drop i else []
  | none => []

@[simp] theorem left_at (h : s.pos = some (b, i)) : s.left b = (s.buckets b).drop i := by simp [left, h]

theorem left_idle (h : s.pos = none) (b : Fin n) : s.left b = [] := by simp [left, h]

theorem mem_left : a ∈ s.left b ↔ ∃ i, s.pos = some (b, i) ∧ a ∈ (s.buckets b).drop i := by
  unfold left
  rcases s.pos with _ | ⟨b', i⟩
  · simp
  · by_cases hb : b = b'
    · simp [hb]
    · simp [hb, Ne.symm hb]

end Left

variable {n : Nat} [NeZero n] {α : Type*} {s s' : Sweeps n α} {act : Act α} {acts : List (Act α)} {a : α} {b : Fin n}
  {r : Nat}

inductive Move : Sweeps n α → Act α → Sweeps n α → Prop
  | stay {s : Sweeps n α} : Move s .stay s
  | push {s : Sweeps n α} {a : α} (b : Fin n) (h : ¬ s.Present a) :
    Move s (.push a) { s with buckets := update s.buckets b (s.buckets b ++ [a]) }
  | begin {s : Sweeps n α} (h : s.pos = none) : Move s .begin { s with pos := some (s.next, 0), next := s.next + 1 }
  | visit {s : Sweeps n α} {b : Fin n} {i : Nat} {a : α} (h : s.pos = some (b, i)) (ha : (s.buckets b)[i]? = some a) :
    Move s (.visit a) { s with pos := some (b, i + 1) }
  | drop {s : Sweeps n α} {b : Fin n} {i : Nat} {a : α} (h : s.pos = some (b, i)) (ha : (s.buckets b)[i]? = some a) :
    Move s (.drop a) { s with buckets := update s.buckets b (dropAt i (s.buckets b)) }
  | finish {s : Sweeps n α} {b : Fin n} {i : Nat} (h : s.pos = some (b, i)) (hi : (s.buckets b).length ≤ i) :
    Move s .finish { s with pos := none }

inductive Moves : Sweeps n α → List (Act α) → Sweeps n α → Prop
  | nil {s : Sweeps n α} : Moves s [] s
  | cons {s s' s'' : Sweeps n α} {act : Act α} {acts : List (Act α)} : Move s act s' → Moves s' acts s'' →
    Moves s (act :: acts) s''

/-- The passes that start before that of bucket `b`. -/
def ahead (s : Sweeps n α) (b : Fin n) : Nat := (b - s.next).val

/-- Each entry is in one bucket, once, and while a bucket is swept the next one is the bucket
    after it. -/
structure Ok (s : Sweeps n α) : Prop where
  nodup : ∀ b, (s.buckets b).Nodup
  one : ∀ {a b b'}, a ∈ s.buckets b → a ∈ s.buckets b' → b = b'
  after : ∀ {b i}, s.pos = some (b, i) → s.next = b + 1

/-- `a` is in a bucket and no pass comes to it before `r` more have started. -/
def Rests (a : α) (r : Nat) (s : Sweeps n α) : Prop := ∃ b, a ∈ s.buckets b ∧ a ∉ s.left b ∧ r ≤ s.ahead b

/-- `a` is in a bucket that the pass has still to come to, or one of the next `r` passes. -/
def Due (a : α) (r : Nat) (s : Sweeps n α) : Prop := ∃ b, a ∈ s.left b ∨ a ∈ s.buckets b ∧ s.ahead b < r

theorem sub_succ {b k : Fin n} (h : b ≠ k) : (b - (k + 1)).val + 1 = (b - k).val := by
  have hd : b - k ≠ 0 := sub_ne_zero.mpr h
  have hpos : 0 < (b - k).val := Nat.pos_of_ne_zero fun h0 => hd (Fin.ext h0)
  rw [← sub_sub, Fin.val_sub_one_of_ne_zero hd]
  omega

theorem sub_self_succ (b : Fin n) : (b - (b + 1)).val + 1 = n := by
  have hn : 0 < n := Nat.pos_of_ne_zero (NeZero.ne n)
  have h : b - (b + 1) = -1 := by simp
  rw [h]
  obtain ⟨m, rfl⟩ : ∃ m, n = m + 1 := ⟨n - 1, by omega⟩
  simp

section Buckets

omit [NeZero n]

variable {ls : Fin n → List α} {k : Fin n} {x : α} {i : Nat}

theorem mem_push : a ∈ update ls k (ls k ++ [x]) b ↔ a ∈ ls b ∨ a = x ∧ b = k := by
  rcases eq_or_ne b k with rfl | hb
  · simp
  · simp [hb]

theorem mem_of_drop (hx : (ls k)[i]? = some x) (h : a ∈ update ls k (dropAt i (ls k)) b) : a ∈ ls b := by
  rcases eq_or_ne b k with rfl | hb
  · rw [update_self] at h
    exact (dropAt_perm hx).mem_iff.mpr (mem_cons_of_mem _ h)
  · rwa [update_of_ne hb] at h

theorem mem_drop (hx : (ls k)[i]? = some x) (ha : x ≠ a) (h : a ∈ ls b) :
    a ∈ update ls k (dropAt i (ls k)) b := by
  rcases eq_or_ne b k with rfl | hb
  · rw [update_self]
    exact mem_of_ne_of_mem ha.symm ((dropAt_perm hx).mem_iff.mp h)
  · rwa [update_of_ne hb]

theorem left_here {s : Sweeps n α} (h : s.pos = some (k, i)) (hx : (s.buckets k)[i]? = some x) : x ∈ s.left k := by
  rw [left_at h]
  obtain ⟨hi, rfl⟩ := List.getElem?_eq_some_iff.mp hx
  rw [← getElem_cons_drop hi]
  exact mem_cons_self

end Buckets

theorem Move.ok (hm : Move s act s') (hk : Ok s) : Ok s' := by
  cases hm with
  | stay => exact hk
  | @push x k h =>
    refine ⟨fun b => ?_, fun {a b b'} ha ha' => ?_, hk.after⟩
    · rcases eq_or_ne b k with rfl | hb
      · have hx : x ∉ s.buckets b := fun hx => h ⟨b, hx⟩
        simpa using List.Nodup.concat hx (hk.nodup b)
      · simpa [hb] using hk.nodup b
    · rcases mem_push.mp ha with hb | ⟨rfl, rfl⟩ <;> rcases mem_push.mp ha' with hb' | ⟨hx', hk'⟩
      · exact hk.one hb hb'
      · exact absurd ⟨b, hx' ▸ hb⟩ h
      · exact absurd ⟨b', hb'⟩ h
      · exact hk'.symm
  | begin h =>
    refine ⟨hk.nodup, hk.one, fun hp => ?_⟩
    cases hp
    rfl
  | visit h ha =>
    refine ⟨hk.nodup, hk.one, fun hp => ?_⟩
    cases hp
    exact hk.after h
  | @drop k i x h hx =>
    refine ⟨fun b => ?_, fun ha ha' => hk.one (mem_of_drop hx ha) (mem_of_drop hx ha'), hk.after⟩
    rcases eq_or_ne b k with rfl | hb
    · have hnd : (x :: dropAt i (s.buckets b)).Nodup := (dropAt_perm hx).nodup_iff.mp (hk.nodup b)
      simpa using hnd.of_cons
    · simpa [hb] using hk.nodup b
  | finish h hi => exact ⟨hk.nodup, hk.one, fun hp => by cases hp⟩

theorem Move.present (hm : Move s act s') (hk : Ok s) :
    s'.Present a ↔ s.Present a ∧ act ≠ .drop a ∨ act = .push a := by
  cases hm with
  | stay => simp
  | @push x k h => simp [Present, mem_push, exists_or, eq_comm]
  | begin h => simp [Present]
  | visit h hx => simp [Present]
  | @drop k i x h hx =>
    rcases eq_or_ne x a with rfl | hxa
    · simp only [ne_eq, not_true_eq_false, and_false, reduceCtorEq, or_self, iff_false]
      rintro ⟨b, hb⟩
      obtain rfl : b = k := hk.one (mem_of_drop hx hb) (mem_of_getElem? hx)
      have hnd : (x :: dropAt i (s.buckets b)).Nodup := (dropAt_perm hx).nodup_iff.mp (hk.nodup b)
      dsimp only at hb
      rw [update_self] at hb
      exact (nodup_cons.mp hnd).1 hb
    · have hiff : ∀ b, a ∈ update s.buckets k (dropAt i (s.buckets k)) b ↔ a ∈ s.buckets b :=
        fun b => ⟨mem_of_drop hx, mem_drop hx hxa⟩
      simp [Present, hiff, hxa]
  | finish h hi => simp [Present]

theorem Move.rests (hm : Move s act s') (hk : Ok s) (hr : Rests a (act.begins + r) s) :
    act ≠ .visit a ∧ Rests a r s' := by
  obtain ⟨b, hb, hl, hah⟩ := hr
  -- the entry a pass stands at is left in its bucket, so it is another one
  have hother : ∀ {k i x}, s.pos = some (k, i) → (s.buckets k)[i]? = some x → x ≠ a := by
    rintro k i x hp hx rfl
    obtain rfl : b = k := hk.one hb (mem_of_getElem? hx)
    exact hl (left_here hp hx)
  cases hm with
  | stay => exact ⟨by simp, b, hb, hl, by simpa [Act.begins, ahead] using hah⟩
  | @push x k h =>
    refine ⟨by simp, b, mem_push.mpr (.inl hb), fun hl' => ?_, by simpa [Act.begins, ahead] using hah⟩
    obtain ⟨i, hp, hd⟩ := mem_left.mp hl'
    dsimp only at hp hd
    rcases eq_or_ne b k with rfl | hne
    · rw [update_self, List.drop_append] at hd
      rcases mem_append.mp hd with hd | hd
      · exact hl (mem_left.mpr ⟨i, hp, hd⟩)
      · have hax : a = x := by simpa using mem_of_mem_drop hd
        exact h ⟨b, hax ▸ hb⟩
    · rw [update_of_ne hne] at hd
      exact hl (mem_left.mpr ⟨i, hp, hd⟩)
  | begin h =>
    have hne : b ≠ s.next := by
      rintro rfl
      simp [ahead, Act.begins] at hah
    have hstep := sub_succ hne
    refine ⟨by simp, b, hb, fun hl' => ?_, ?_⟩
    · obtain ⟨i, hp, -⟩ := mem_left.mp hl'
      cases hp
      exact hne rfl
    · simp only [ahead, Act.begins] at hah ⊢
      omega
  | @visit k i x h hx =>
    have hxa := hother h hx
    refine ⟨by simpa using hxa, b, hb, fun hl' => ?_, by simpa [Act.begins, ahead] using hah⟩
    obtain ⟨j, hp, hd⟩ := mem_left.mp hl'
    cases hp
    exact hl (mem_left.mpr ⟨i, h, mem_of_mem_drop (by rwa [drop_drop])⟩)
  | @drop k i x h hx =>
    have hxa := hother h hx
    refine ⟨by simp, b, mem_drop hx hxa hb, fun hl' => ?_, by simpa [Act.begins, ahead] using hah⟩
    obtain ⟨j, hp, hd⟩ := mem_left.mp hl'
    dsimp only at hp hd
    obtain ⟨rfl, rfl⟩ : k = b ∧ i = j := by simpa [h] using hp
    rw [update_self] at hd
    exact hl (mem_left.mpr ⟨i, h, (drop_dropAt hx).mem_iff.mpr (mem_cons_of_mem _ hd)⟩)
  | finish h hi =>
    refine ⟨by simp, b, hb, fun hl' => ?_, by simpa [Act.begins, ahead] using hah⟩
    obtain ⟨i, hp, -⟩ := mem_left.mp hl'
    cases hp

theorem Move.due (hm : Move s act s') (hd : Due a (act.begins + r) s) :
    act = .visit a ∨ act = .drop a ∨ Due a r s' := by
  obtain ⟨b, hd⟩ := hd
  cases hm with
  | stay => exact .inr (.inr ⟨b, by simpa [Act.begins] using hd⟩)
  | @push x k h =>
    refine .inr (.inr ⟨b, ?_⟩)
    rcases hd with hl | ⟨hb, hah⟩
    · obtain ⟨i, hp, hl⟩ := mem_left.mp hl
      refine .inl (mem_left.mpr ⟨i, hp, ?_⟩)
      grind [List.drop_append]
    · exact .inr ⟨mem_push.mpr (.inl hb), by simpa [Act.begins, ahead] using hah⟩
  | begin h =>
    refine .inr (.inr ⟨b, ?_⟩)
    rw [left_idle h] at hd
    obtain ⟨hb, hah⟩ : a ∈ s.buckets b ∧ s.ahead b < 1 + r := by simpa [Act.begins] using hd
    rcases eq_or_ne b s.next with rfl | hne
    · exact .inl (mem_left.mpr ⟨0, rfl, by simpa using hb⟩)
    have hstep := sub_succ hne
    refine .inr ⟨hb, ?_⟩
    simp only [ahead] at hah ⊢
    omega
  | @visit k i x h hx =>
    rcases eq_or_ne x a with rfl | hxa
    · exact .inl rfl
    refine .inr (.inr ⟨b, ?_⟩)
    rcases hd with hl | hah
    · obtain ⟨j, hp, hl⟩ := mem_left.mp hl
      obtain ⟨rfl, rfl⟩ : k = b ∧ i = j := by simpa [h] using hp
      refine .inl (mem_left.mpr ⟨i + 1, rfl, ?_⟩)
      obtain ⟨hi, rfl⟩ := List.getElem?_eq_some_iff.mp hx
      rw [← getElem_cons_drop hi] at hl
      exact mem_of_ne_of_mem hxa.symm hl
    · exact .inr (by simpa [Act.begins, ahead] using hah)
  | @drop k i x h hx =>
    rcases eq_or_ne x a with rfl | hxa
    · exact .inr (.inl rfl)
    refine .inr (.inr ⟨b, ?_⟩)
    rcases hd with hl | ⟨hb, hah⟩
    · obtain ⟨j, hp, hl⟩ := mem_left.mp hl
      obtain ⟨rfl, rfl⟩ : k = b ∧ i = j := by simpa [h] using hp
      refine .inl (mem_left.mpr ⟨i, h, ?_⟩)
      dsimp only
      rw [update_self]
      exact mem_of_ne_of_mem hxa.symm ((drop_dropAt hx).mem_iff.mp hl)
    · exact .inr ⟨mem_drop hx hxa hb, by simpa [Act.begins, ahead] using hah⟩
  | @finish k i h hi =>
    refine .inr (.inr ⟨b, ?_⟩)
    rcases hd with hl | hah
    · obtain ⟨j, hp, hl⟩ := mem_left.mp hl
      obtain ⟨rfl, rfl⟩ : k = b ∧ i = j := by simpa [h] using hp
      rw [drop_eq_nil_of_le hi] at hl
      simp at hl
    · exact .inr (by simpa [Act.begins, ahead] using hah)

/-- The passes a run of moves starts. -/
def begins (acts : List (Act α)) : Nat := (acts.map Act.begins).sum

omit [NeZero n] in
@[simp] theorem begins_cons (act : Act α) (acts : List (Act α)) : begins (act :: acts) = act.begins + begins acts := by
  simp [begins]

theorem Moves.rests (hm : Moves s acts s') (hk : Ok s) (hr : Rests a (begins acts) s) : .visit a ∉ acts := by
  induction hm with
  | nil => simp
  | cons hm _ ih =>
    obtain ⟨hne, hr'⟩ := hm.rests hk hr
    simp [Ne.symm hne, ih (hm.ok hk) hr']

theorem Moves.due (hm : Moves s acts s') (hd : Due a (begins acts) s) (hidle : s'.pos = none)
    (hdrop : .drop a ∉ acts) : .visit a ∈ acts := by
  induction hm with
  | nil =>
    obtain ⟨b, hl | ⟨-, hah⟩⟩ := hd
    · simp [left_idle hidle] at hl
    · simp [begins] at hah
  | @cons s s₁ s₂ act acts hm _ ih =>
    obtain ⟨hne, hrest⟩ : .drop a ≠ act ∧ .drop a ∉ acts := by simpa using hdrop
    rcases hm.due hd with rfl | rfl | hd'
    · exact mem_cons_self
    · exact absurd rfl hne
    · exact mem_cons_of_mem _ (ih hd' hidle hrest)

theorem Move.visited (hm : Move s (.visit a) s') (hk : Ok s) (hr : r < n) : Rests a r s' := by
  cases hm with
  | @visit b i _ h hx =>
    have hsplit := split_at hx
    have hnd := hk.nodup b
    refine ⟨b, mem_of_getElem? hx, fun hl => ?_, ?_⟩
    · obtain ⟨j, hp, hd⟩ := mem_left.mp hl
      grind
    · have hlast := sub_self_succ b
      simp only [ahead, hk.after h]
      omega

variable [DecidableEq α]

/-- In passes that are at most as many as the buckets no entry is visited twice. -/
theorem visits_le_one (hm : Moves s acts s') (hk : Ok s) (hr : begins acts < n + if s.pos = none then 1 else 0)
    (a : α) : acts.count (.visit a) ≤ 1 := by
  induction hm with
  | nil => simp
  | @cons s s₁ s₂ act acts hm hms ih =>
    rw [begins_cons] at hr
    by_cases hv : act = .visit a
    · subst hv
      have hpos : s.pos ≠ none := by
        cases hm with
        | visit h _ => simp [h]
      simp only [if_neg hpos, Act.begins] at hr
      have hrest := hms.rests (hm.ok hk) (hm.visited hk (by omega))
      rw [count_cons_self, count_eq_zero_of_not_mem hrest]
    · rw [count_cons_of_ne hv]
      refine ih (hm.ok hk) ?_
      cases hm with
      | stay => simpa [Act.begins] using hr
      | push k h => simpa [Act.begins] using hr
      | begin h =>
        simp only [h, Act.begins] at hr ⊢
        simp at hr ⊢
        omega
      | visit h hx => simpa [h, Act.begins] using hr
      | drop h hx => simpa [h, Act.begins] using hr
      | finish h hi =>
        simp only [h, Act.begins] at hr ⊢
        simp at hr ⊢
        omega

/-- In one round, from between two passes to between two passes, an entry that is there and
    never taken out is visited exactly once. -/
theorem visits_eq_one (hm : Moves s acts s') (hk : Ok s) (hr : begins acts = n) (hs : s.pos = none)
    (hs' : s'.pos = none) (ha : s.Present a) (hdrop : .drop a ∉ acts) : acts.count (.visit a) = 1 := by
  obtain ⟨b, hb⟩ := ha
  have hle := visits_le_one hm hk (by simp [hr, hs]) a
  have hmem := hm.due ⟨b, .inr ⟨hb, hr.symm ▸ (b - s.next).isLt⟩⟩ hs' hdrop
  have hpos := count_pos_iff.mpr hmem
  omega

end Sweeps

end Backlands.Lib
