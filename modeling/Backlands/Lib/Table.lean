/-
  Backlands.Lib.Table — a table with a primary key.

  Rows are pairs of a key and a record, no key twice (`Table.keys`). `update` is
  `UPDATE … WHERE`; as the server counts them, `affected` are the rows it selects and
  changes, not those it selects.

  Proved: an update whose condition fixes the key changes nothing or one record
  (`update_cases`); what replacing one record does to the other rows (`find?_set`,
  `mem_set`) and to the sum of a column (`total_set`).
-/

import Mathlib.Algebra.BigOperators.Group.List.Basic
import Mathlib.Data.List.Nodup
import Mathlib.Tactic.Abel

namespace Backlands.Lib

open List

variable {α γ κ β : Type*}

def put [DecidableEq κ] (k : κ) (b : β) (rows : List (κ × β)) : List (κ × β) :=
  rows.map fun r => if r.1 = k then (k, b) else r

/-! ## Lists with distinct labels -/

section
variable [DecidableEq γ] {f : α → γ} {l : List α} {a : α}

theorem perm_cons_filter (h : (l.map f).Nodup) (ha : a ∈ l) : l.Perm (a :: l.filter fun x => f x ≠ f a) := by
  induction l with
  | nil => cases ha
  | cons b l ih =>
    rw [map_cons, nodup_cons] at h
    by_cases e : f b = f a
    · have hb : a = b := by
        grind
      subst hb
      rw [filter_cons_of_neg (by simp), filter_eq_self.mpr]
      intro x hx
      have hne : f x ≠ f a := fun hxa => h.1 (mem_map.mpr ⟨x, hx, hxa⟩)
      simpa using hne
    · have hal : a ∈ l := by
        grind
      rw [filter_cons_of_pos (by simpa using e)]
      exact ((ih h.2 hal).cons b).trans (List.Perm.swap a b _)

end

/-- What is found once a key is taken out. -/
theorem lookup_filter [BEq κ] [LawfulBEq κ] [DecidableEq κ] (k k' : κ) (rows : List (κ × β)) :
    (rows.filter fun r => r.1 != k).lookup k' = if k' = k then none else rows.lookup k' := by
  induction rows with
  | nil => simp
  | cons r rows ih =>
    obtain ⟨l, b⟩ := r
    by_cases hl : l = k
    · grind
    · grind

section
variable [DecidableEq κ] {rows : List (κ × β)} {k : κ} {b b' : β}

theorem lookup_iff_mem (h : (rows.map Prod.fst).Nodup) : rows.lookup k = some b ↔ (k, b) ∈ rows := by
  constructor
  · intro hl
    obtain ⟨l, r, hs, -⟩ := lookup_eq_some_iff.mp hl
    simp [hs]
  intro hm
  cases hl : rows.lookup k with
  | none => simpa using lookup_eq_none_iff.mp hl (k, b) hm
  | some c =>
    obtain ⟨l, r, hs, -⟩ := lookup_eq_some_iff.mp hl
    have hc : (k, c) ∈ rows := by rw [hs]; exact mem_append_right _ mem_cons_self
    have := inj_on_of_nodup_map h hm hc rfl
    rw [Prod.mk.injEq] at this
    rw [this.2]

theorem lookup_none_iff : rows.lookup k = none ↔ k ∉ rows.map Prod.fst := by
  rw [lookup_eq_none_iff]
  constructor
  · intro h hk
    obtain ⟨r, hr, rfl⟩ := mem_map.mp hk
    simpa using h r hr
  · intro h r hr
    have : k ≠ r.1 := fun e => h (mem_map.mpr ⟨r, hr, e.symm⟩)
    simpa using this

theorem put_perm (h : (rows.map Prod.fst).Nodup) (hm : (k, b) ∈ rows) :
    (put k b' rows).Perm ((k, b') :: rows.filter fun r => r.1 ≠ k) := by
  have hp := (perm_cons_filter h hm).map fun r => if r.1 = k then (k, b') else r
  rw [map_cons, if_pos rfl] at hp
  have hrest : (rows.filter fun r => r.1 ≠ k).map (fun r => if r.1 = k then (k, b') else r) =
      rows.filter fun r => r.1 ≠ k := by
    refine (map_congr_left ?_).trans (map_id _)
    intro r hr
    exact if_neg (by simpa using (mem_filter.mp hr).2)
  rw [hrest] at hp
  exact hp

theorem mem_put_of_ne {k' : κ} (hne : k' ≠ k) : (k', b) ∈ put k b' rows ↔ (k', b) ∈ rows := by
  unfold put
  rw [mem_map]
  constructor
  · grind
  · intro h
    exact ⟨(k', b), h, if_neg hne⟩

end

/-! ## Tables -/

structure Table (κ ρ : Type*) where
  rows : List (κ × ρ)
  keys : (rows.map Prod.fst).Nodup
  deriving DecidableEq

namespace Table

variable {ρ G : Type*} {p : κ → ρ → Prop} [∀ k r, Decidable (p k r)] {f : ρ → ρ} {t : Table κ ρ} {k k' : κ} {r r' : ρ}

@[ext] theorem ext {t t' : Table κ ρ} (h : t.rows = t'.rows) : t = t' := by
  cases t
  cases t'
  cases h
  rfl

/-- Rewriting each row under its own key keeps the keys distinct. -/
def mapRows (g : κ → ρ → ρ) (t : Table κ ρ) : Table κ ρ where
  rows := t.rows.map fun x => (x.1, g x.1 x.2)
  keys := by
    rw [map_map]
    exact t.keys

def update (p : κ → ρ → Prop) [∀ k r, Decidable (p k r)] (f : ρ → ρ) (t : Table κ ρ) : Table κ ρ :=
  t.mapRows fun k r => if p k r then f r else r

def affected [DecidableEq ρ] (p : κ → ρ → Prop) [∀ k r, Decidable (p k r)] (f : ρ → ρ) (t : Table κ ρ) : Nat :=
  t.rows.countP fun x => p x.1 x.2 ∧ f x.2 ≠ x.2

def find? [DecidableEq κ] (t : Table κ ρ) (k : κ) : Option ρ := t.rows.lookup k

/-- The table with the record of `k` replaced. -/
def set [DecidableEq κ] (k : κ) (r : ρ) (t : Table κ ρ) : Table κ ρ := t.mapRows fun k' r' => if k' = k then r else r'

/-- Each record changed or left out, under its own key. -/
def choose (g : κ → ρ → Option ρ) (t : Table κ ρ) : Table κ ρ where
  rows := t.rows.filterMap fun x => (g x.1 x.2).map fun r => (x.1, r)
  keys := by
    refine List.Nodup.sublist ?_ t.keys
    induction t.rows with
    | nil => exact List.Sublist.refl _
    | cons x l ih =>
      rw [filterMap_cons]
      cases g x.1 x.2 with
      | none => exact ih.cons _
      | some r => exact ih.cons_cons _

/-- The table with the record of `k` replaced, or left out. -/
def place [DecidableEq κ] (k : κ) (o : Option ρ) (t : Table κ ρ) : Table κ ρ := t.choose fun k' r => if k' = k then o else some r

/-- `INSERT`: refused where the key is there. -/
def insert? [DecidableEq κ] (k : κ) (r : ρ) (t : Table κ ρ) : Option (Table κ ρ) :=
  if h : k ∈ t.rows.map Prod.fst then none
  else some ⟨(k, r) :: t.rows, nodup_cons.mpr ⟨h, t.keys⟩⟩

/-- The table with a new record in front. -/
def cons (k : κ) (r : ρ) (t : Table κ ρ) (h : k ∉ t.rows.map Prod.fst) : Table κ ρ :=
  ⟨(k, r) :: t.rows, nodup_cons.mpr ⟨h, t.keys⟩⟩

/-- The sum of a column. -/
def total [AddMonoid G] (v : ρ → G) (t : Table κ ρ) : G := (t.rows.map fun x => v x.2).sum

section
variable [DecidableEq κ]

theorem find?_iff : t.find? k = some r ↔ (k, r) ∈ t.rows := lookup_iff_mem t.keys

theorem find?_none_iff : t.find? k = none ↔ k ∉ t.rows.map Prod.fst := lookup_none_iff

theorem set_rows : (t.set k r).rows = put k r t.rows := by
  refine map_congr_left ?_
  grind

theorem find?_set (h : t.find? k = some r) : (t.set k r').find? k' = if k' = k then some r' else t.find? k' := by
  by_cases e : k' = k
  · subst e
    rw [if_pos rfl, find?_iff, set_rows]
    exact (put_perm t.keys (find?_iff.mp h)).symm.subset mem_cons_self
  · rw [if_neg e]
    refine Option.ext fun b => ?_
    rw [find?_iff, find?_iff, set_rows]
    exact mem_put_of_ne e

theorem find?_cons (h : k ∉ t.rows.map Prod.fst) : (t.cons k r h).find? k' = if k' = k then some r else t.find? k' := by
  show ((k, r) :: t.rows).lookup k' = _
  by_cases e : k' = k
  · simp [e]
  · have hb : (k' == k) = false := beq_eq_false_iff_ne.mpr e
    simp [lookup_cons, hb, e, find?]

theorem insert?_some {t' : Table κ ρ} (h : t.insert? k r = some t') :
    t.find? k = none ∧ ∀ k', t'.find? k' = if k' = k then some r else t.find? k' := by
  unfold insert? at h
  split at h
  · cases h
  · next hk =>
    cases h
    exact ⟨find?_none_iff.mpr hk, fun k' => find?_cons hk⟩

theorem find?_choose (g : κ → ρ → Option ρ) (t : Table κ ρ) : (t.choose g).find? k = (t.find? k).bind (g k) := by
  refine Option.ext fun r => ?_
  rw [find?_iff, Option.bind_eq_some_iff]
  show (k, r) ∈ t.rows.filterMap _ ↔ _
  rw [mem_filterMap]
  constructor
  · rintro ⟨⟨k', r'⟩, hm, he⟩
    obtain ⟨r'', hg, he⟩ := Option.map_eq_some_iff.mp he
    cases he
    exact ⟨r', find?_iff.mpr hm, hg⟩
  · rintro ⟨r', hf, hg⟩
    exact ⟨(k, r'), find?_iff.mp hf, by rw [hg]; rfl⟩

theorem perm_of_find? {t' : Table κ ρ} (h : ∀ k, t'.find? k = t.find? k) : t'.rows.Perm t.rows := by
  refine (perm_ext_iff_of_nodup t'.keys.of_map t.keys.of_map).mpr ?_
  rintro ⟨k, r⟩
  rw [← find?_iff, ← find?_iff, h]

/-- One record apart, a table is what it was before that record was replaced. -/
theorem set_perm (h : t.find? k = some r) (r' : ρ) :
    ∃ rest, t.rows.Perm ((k, r) :: rest) ∧ (t.set k r').rows.Perm ((k, r') :: rest) := by
  have hm := find?_iff.mp h
  refine ⟨_, perm_cons_filter t.keys hm, ?_⟩
  rw [set_rows]
  exact put_perm t.keys hm

theorem find?_place (k : κ) (o : Option ρ) (t : Table κ ρ) :
    (t.place k o).find? k' = if k' = k then (t.find? k).bind fun _ => o else t.find? k' := by
  rw [place, find?_choose]
  by_cases e : k' = k
  · subst e
    simp
  · simp [e]

/-- One record apart, a table is what it was before that record was replaced or left out. -/
theorem place_perm (h : t.find? k = some r) :
    ∃ rest, t.rows.Perm ((k, r) :: rest) ∧ ∀ o, (t.place k o).rows.Perm (o.toList.map (Prod.mk k) ++ rest) := by
  have hp := perm_cons_filter t.keys (find?_iff.mp h)
  refine ⟨_, hp, ?_⟩
  intro o
  have hp' := hp.filterMap fun x => (if x.1 = k then o else some x.2).map fun r => (x.1, r)
  refine hp'.trans ?_
  have hrest : (t.rows.filter fun x => x.1 ≠ k).filterMap
      (fun x => (if x.1 = k then o else some x.2).map fun r => (x.1, r)) = t.rows.filter fun x => x.1 ≠ k := by
    refine (filterMap_congr ?_).trans filterMap_some
    intro x hx
    have hne : x.1 ≠ k := by simpa using (mem_filter.mp hx).2
    rw [if_neg hne]
    rfl
  rw [filterMap_cons, hrest]
  cases o with
  | none => simp
  | some r' => simp

theorem total_set [AddCommGroup G] (v : ρ → G) (h : t.find? k = some r) :
    (t.set k r').total v = t.total v - v r + v r' := by
  obtain ⟨rest, hold, hnew⟩ := set_perm h r'
  have hold := (hold.map fun x => v x.2).sum_eq
  have hnew := (hnew.map fun x => v x.2).sum_eq
  rw [map_cons, sum_cons] at hold hnew
  unfold total
  rw [hnew, hold]
  abel

theorem set_self (h : t.find? k = some r) : t.set k r = t := by
  refine Table.ext ((map_congr_left ?_).trans (map_id _))
  intro x hx
  show (x.1, if x.1 = k then r else x.2) = x
  by_cases e : x.1 = k
  · have hx' : x = (k, r) := inj_on_of_nodup_map t.keys hx (find?_iff.mp h) e
    rw [hx', if_pos rfl]
  · rw [if_neg e]

theorem set_set (k : κ) (r r' : ρ) (t : Table κ ρ) : (t.set k r).set k r' = t.set k r' := by
  refine Table.ext ?_
  show (t.rows.map _).map _ = t.rows.map _
  rw [map_map]
  refine map_congr_left fun x _ => ?_
  grind

theorem forall_set {P : ρ → Prop} (ht : ∀ x ∈ t.rows, P x.2) (hr : P r) : ∀ x ∈ (t.set k r).rows, P x.2 := by
  intro x hx
  obtain ⟨y, hy, e⟩ := mem_map.mp hx
  grind

/-- A row the condition selects is the one row that changes, where the condition fixes the key. -/
theorem update_eq_set (hp : ∀ k' r, p k' r → k' = k) (hr : t.find? k = some r) (hpr : p k r) (f : ρ → ρ) :
    t.update p f = t.set k (f r) := by
  have hm := find?_iff.mp hr
  refine Table.ext (map_congr_left ?_)
  intro x hx
  show (x.1, if p x.1 x.2 then f x.2 else x.2) = (x.1, if x.1 = k then f r else x.2)
  by_cases e : x.1 = k
  · have hx' : x = (k, r) := inj_on_of_nodup_map t.keys hx hm e
    rw [hx']
    simp only [if_pos hpr, if_true]
  · rw [if_neg (fun h => e (hp _ _ h)), if_neg e]

variable [DecidableEq ρ]

/-- An update whose condition fixes the key reaches at most one record. -/
theorem update_cases (hp : ∀ k' r, p k' r → k' = k) (f : ρ → ρ) (t : Table κ ρ) :
    (t.affected p f = 0 ∧ t.update p f = t) ∨
      ∃ r, t.find? k = some r ∧ p k r ∧ f r ≠ r ∧ t.affected p f = 1 ∧ t.update p f = t.set k (f r) := by
  by_cases hk : ∃ r, t.find? k = some r ∧ p k r ∧ f r ≠ r
  · obtain ⟨r, hr, hpr, hne⟩ := hk
    have hm := find?_iff.mp hr
    refine .inr ⟨r, hr, hpr, hne, ?_, update_eq_set hp hr hpr f⟩
    unfold affected
    rw [(perm_cons_filter t.keys hm).countP_eq, countP_cons_of_pos (by simpa using ⟨hpr, hne⟩),
      Nat.add_eq_right, countP_eq_zero]
    intro x hx
    have hxk : x.1 ≠ k := by simpa using (mem_filter.mp hx).2
    simp only [decide_eq_true_eq, not_and]
    intro hpx
    exact absurd (hp _ _ hpx) hxk
  · have hsame : ∀ x ∈ t.rows, p x.1 x.2 → f x.2 = x.2 := by
      intro x hx hpx
      by_contra hne
      have e := hp _ _ hpx
      exact hk ⟨x.2, find?_iff.mpr (by rw [← e]; exact hx), by rw [← e]; exact hpx, hne⟩
    refine .inl ⟨countP_eq_zero.mpr ?_, Table.ext ?_⟩
    · intro x hx
      simp only [decide_eq_true_eq, not_and, not_not]
      exact hsame x hx
    · refine (map_congr_left ?_).trans (map_id _)
      grind

end

end Table

end Backlands.Lib
