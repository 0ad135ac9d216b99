/-
  Backlands.Lib.Lockstep — two readers of one tagged stream.

  The first reader is the loop `tags`: it stops at a closing tag, and its handler may end the
  record or refuse a field. The second, `exhaust`, reads to the end of the stream whatever it
  finds. Each logs the fields it takes, a tag and the bytes behind it.

  Proved: `lockstep`. Where both take the bytes that the layout has behind each tag that both
  know, and the second takes none behind the others, the two logs of an accepted stream are the
  same exactly when every tag was known and nothing follows the closing tag; and both records
  are then folds of that log. `tagsLog_eq_layout`: the log is read off the stream by the layout.
-/

import Backlands.Lib.Tagged

namespace Backlands.Lib

open List Option

/-! ## Readers that give back the bytes they take -/

/-- What the reader takes comes off the front. -/
def Cuts (p : Reader Bytes) : Prop := ∀ bs q rest, p bs = some (q, rest) → bs = q ++ rest

/-- Some bytes, and more that may depend on them. -/
def Reader.seq (p : Reader Bytes) (f : Bytes → Reader Bytes) : Reader Bytes := fun bs =>
  (p bs).bind fun r => (f r.1 r.2).map fun r' => (r.1 ++ r'.1, r'.2)

/-- The bytes of `n` values one after the other. -/
def Reader.repeated (p : Reader Bytes) : Nat → Reader Bytes
  | 0 => fun bs => some ([], bs)
  | n + 1 => p.seq fun _ => p.repeated n

theorem cut_add {m n : Nat} {bs q q' mid rest : Bytes} (h : cut m bs = some (q, mid)) (h' : cut n mid = some (q', rest)) :
    cut (m + n) bs = some (q ++ q', rest) := by
  obtain ⟨rfl, rfl⟩ := cut_eq_some h
  obtain ⟨rfl, rfl⟩ := cut_eq_some h'
  rw [← length_append, ← append_assoc]
  exact parses_cut (q ++ q') rest

theorem cut_split {m n : Nat} {bs q rest : Bytes} (h : cut (m + n) bs = some (q, rest)) :
    cut m bs = some (q.take m, q.drop m ++ rest) ∧ cut n (q.drop m ++ rest) = some (q.drop m, rest) := by
  obtain ⟨hlen, rfl⟩ := cut_eq_some h
  have htake : (q.take m).length = m := length_take_of_le (by omega)
  have hdrop : (q.drop m).length = n := by rw [length_drop]; omega
  constructor
  · have hcut := parses_cut (q.take m) (q.drop m ++ rest)
    rwa [htake, ← append_assoc, take_append_drop] at hcut
  · have hcut := parses_cut (q.drop m) rest
    rwa [hdrop] at hcut

theorem cuts_cut (n : Nat) : Cuts (cut n) := fun _ _ _ h => (cut_eq_some h).2

theorem Reader.seq_eq_some {p : Reader Bytes} {f : Bytes → Reader Bytes} {bs q rest : Bytes} :
    p.seq f bs = some (q, rest) ↔ ∃ q₁ mid q₂, p bs = some (q₁, mid) ∧ f q₁ mid = some (q₂, rest) ∧ q = q₁ ++ q₂ := by
  unfold Reader.seq
  constructor
  · intro h
    obtain ⟨⟨q₁, mid⟩, h₁, h⟩ := bind_eq_some_iff.mp h
    obtain ⟨⟨q₂, rest'⟩, h₂, he⟩ := map_eq_some_iff.mp h
    cases he
    exact ⟨q₁, mid, q₂, h₁, h₂, rfl⟩
  · rintro ⟨q₁, mid, q₂, h₁, h₂, rfl⟩
    rw [h₁, bind_some, h₂, map_some]

theorem Cuts.seq {p : Reader Bytes} {f : Bytes → Reader Bytes} (hp : Cuts p) (hf : ∀ q, Cuts (f q)) : Cuts (p.seq f) := by
  intro bs q rest h
  obtain ⟨q₁, mid, q₂, h₁, h₂, rfl⟩ := Reader.seq_eq_some.mp h
  rw [hp bs q₁ mid h₁, hf q₁ mid q₂ rest h₂, append_assoc]

theorem Cuts.repeated {p : Reader Bytes} (hp : Cuts p) (n : Nat) : Cuts (p.repeated n) := by
  induction n with
  | zero =>
    intro bs q rest h
    cases h
    rfl
  | succ n ih => exact hp.seq fun _ => ih

/-! ## The loops and their logs -/

variable {ε σ τ υ : Type*}

/-- The bytes in front of `rest`. -/
def taken (bs rest : Bytes) : Bytes := bs.take (bs.length - rest.length)

theorem taken_append (q rest : Bytes) : taken (q ++ rest) rest = q := by
  rw [taken, length_append, Nat.add_sub_cancel, take_left' rfl]

/-- The fields that `tags` takes, the closing tag and one that ends the record included. -/
def tagsLog (stop : UInt8) (step : UInt8 → σ → Bytes → Outcome ε σ) : Nat → σ → Bytes → List (UInt8 × Bytes)
  | _, _, [] => []
  | 0, _, _ => []
  | fuel + 1, s, t :: bs =>
    if t = stop then [(t, [])]
    else match step t s bs with
      | .more s' rest => (t, taken bs rest) :: tagsLog stop step fuel s' rest
      | .ended _ rest => [(t, taken bs rest)]
      | .failed _ rest => [(t, taken bs rest)]

/-- The loop that reads on whatever it finds. -/
def exhaust (step : UInt8 → τ → Bytes → τ × Bytes) : Nat → τ → Bytes → τ
  | _, u, [] => u
  | 0, u, _ => u
  | fuel + 1, u, t :: bs => exhaust step fuel (step t u bs).1 (step t u bs).2

def exhaustLog (step : UInt8 → τ → Bytes → τ × Bytes) : Nat → τ → Bytes → List (UInt8 × Bytes)
  | _, _, [] => []
  | 0, _, _ => []
  | fuel + 1, u, t :: bs => (t, taken bs (step t u bs).2) :: exhaustLog step fuel (step t u bs).1 (step t u bs).2

theorem exhaustLog_eq_nil {step : UInt8 → τ → Bytes → τ × Bytes} {n : Nat} {u : τ} {bs : Bytes} (hn : bs.length ≤ n) :
    exhaustLog step n u bs = [] ↔ bs = [] := by
  cases bs with
  | nil => cases n <;> simp [exhaustLog]
  | cons t bs =>
    obtain ⟨m, rfl⟩ : ∃ m, n = m + 1 := ⟨n - 1, by rw [length_cons] at hn; omega⟩
    simp [exhaustLog]

/-- The fields of a stream and what is left of it, by what the layout has behind each tag and which
    tags end the record. -/
def layout (stop : UInt8) (payload : UInt8 → Reader Bytes) (closes : UInt8 → Bool) : Nat → Bytes →
    List (UInt8 × Bytes) × Bytes
  | _, [] => ([], [])
  | 0, bs => ([], bs)
  | fuel + 1, t :: bs =>
    if t = stop then ([(t, [])], bs)
    else match payload t bs with
      | none => ([], t :: bs)
      | some (q, rest) =>
        if closes t then ([(t, q)], rest)
        else ((t, q) :: (layout stop payload closes fuel rest).1, (layout stop payload closes fuel rest).2)

/-! ## Two readers -/

section
variable {stop : UInt8} {payload : UInt8 → Reader Bytes} {closes : UInt8 → Bool} {step : UInt8 → σ → Bytes → Outcome ε σ} {step' : UInt8 → τ → Bytes → τ × Bytes}
  {known : UInt8 → Prop} {view : σ → υ} {read : υ → UInt8 × Bytes → υ} {store : τ → UInt8 × Bytes → τ}

/-- What the first reader takes behind a tag, the second takes as well where it knows the tag, and
    passes over the bare tag where it does not. `view` is what the record is compared in. -/
structure Agreeing (stop : UInt8) (payload : UInt8 → Reader Bytes) (closes : UInt8 → Bool)
    (step : UInt8 → σ → Bytes → Outcome ε σ) (step' : UInt8 → τ → Bytes → τ × Bytes) (known : UInt8 → Prop) (view : σ → υ)
    (read : υ → UInt8 × Bytes → υ) (store : τ → UInt8 × Bytes → τ) : Prop where
  cuts : ∀ t, Cuts (payload t)
  more : ∀ {t s bs s' rest}, t ≠ stop → step t s bs = .more s' rest → closes t = false ∧
    ∃ q, payload t bs = some (q, rest) ∧
      (known t → view s' = read (view s) (t, q) ∧ ∀ u, step' t u bs = (store u (t, q), rest)) ∧
      (¬ known t → q ≠ [] ∧ ∀ u, (step' t u bs).2 = bs)
  ended : ∀ {t s bs s' rest}, t ≠ stop → step t s bs = .ended s' rest → closes t = true ∧
    ∃ q, payload t bs = some (q, rest) ∧ ¬ known t ∧ q ≠ [] ∧ ∀ u, (step' t u bs).2 = bs
  closing : known stop ∧ (∀ v, read v (stop, []) = v) ∧ ∀ u bs, step' stop u bs = (store u (stop, []), bs)

theorem tagsLog_eq_layout (ha : Agreeing stop payload closes step step' known view read store) {n m : Nat} {s s' : σ}
    {bs rest : Bytes} (hn : bs.length ≤ n) (hm : bs.length ≤ m) (h : tags stop step n s bs = .ended s' rest) :
    layout stop payload closes m bs = (tagsLog stop step n s bs, rest) := by
  induction n generalizing s bs m with
  | zero =>
    obtain rfl : bs = [] := eq_nil_of_length_eq_zero (Nat.le_zero.mp hn)
    cases h
    cases m <;> rfl
  | succ n ih =>
    cases bs with
    | nil =>
      cases h
      cases m <;> rfl
    | cons t bs =>
      rw [length_cons] at hn hm
      obtain ⟨m, rfl⟩ : ∃ k, m = k + 1 := ⟨m - 1, by omega⟩
      rw [tags] at h
      rw [layout, tagsLog]
      by_cases ht : t = stop
      · rw [if_pos ht] at h
        obtain ⟨_, hrest⟩ := Outcome.ended.inj h
        rw [if_pos ht, if_pos ht, hrest]
      rw [if_neg ht] at h ⊢
      rw [if_neg ht]
      cases hs : step t s bs with
      | failed e r =>
        rw [hs] at h
        cases h
      | ended s₁ r =>
        rw [hs] at h
        obtain ⟨_, hr⟩ := Outcome.ended.inj h
        subst hr
        obtain ⟨hcloses, q, hcut, _⟩ := ha.ended ht hs
        have htaken : taken bs r = q := by rw [ha.cuts t bs q r hcut, taken_append]
        simp only [hcut, hcloses, htaken, if_true]
      | more s₁ r =>
        rw [hs] at h
        obtain ⟨hcloses, q, hcut, _⟩ := ha.more ht hs
        have hq := ha.cuts t bs q r hcut
        have hr : r.length ≤ bs.length := by rw [hq, length_append]; omega
        have htaken : taken bs r = q := by rw [hq, taken_append]
        have hrest := @ih m s₁ r (by omega) (by omega) h
        simp only [hcut, hcloses, htaken, hrest, Bool.false_eq_true, if_false]

theorem lockstep (ha : Agreeing stop payload closes step step' known view read store) {n m : Nat} {s s' : σ} {u : τ} {bs rest : Bytes}
    (hn : bs.length ≤ n) (hm : bs.length ≤ m) (h : tags stop step n s bs = .ended s' rest) :
    (exhaustLog step' m u bs = tagsLog stop step n s bs ↔ (∀ f ∈ tagsLog stop step n s bs, known f.1) ∧ rest = []) ∧
      (exhaustLog step' m u bs = tagsLog stop step n s bs →
        view s' = (tagsLog stop step n s bs).foldl read (view s) ∧
          exhaust step' m u bs = (tagsLog stop step n s bs).foldl store u) := by
  induction n generalizing s u bs m with
  | zero =>
    obtain rfl : bs = [] := eq_nil_of_length_eq_zero (Nat.le_zero.mp hn)
    cases h
    cases m <;> simp [tagsLog, exhaustLog, exhaust]
  | succ n ih =>
    cases bs with
    | nil =>
      cases h
      cases m <;> simp [tagsLog, exhaustLog, exhaust]
    | cons t bs =>
      rw [length_cons] at hn hm
      obtain ⟨m, rfl⟩ : ∃ k, m = k + 1 := ⟨m - 1, by omega⟩
      rw [tags] at h
      have hlog : exhaustLog step' (m + 1) u (t :: bs) =
          (t, taken bs (step' t u bs).2) :: exhaustLog step' m (step' t u bs).1 (step' t u bs).2 := rfl
      have hexhaust : exhaust step' (m + 1) u (t :: bs) = exhaust step' m (step' t u bs).1 (step' t u bs).2 := rfl
      by_cases ht : t = stop
      · -- the closing tag
        rw [if_pos ht] at h
        obtain ⟨hs, hrest⟩ := Outcome.ended.inj h
        subst hs hrest
        obtain ⟨hknown, hread, hstep⟩ := ha.closing
        have htagsLog : tagsLog stop step (n + 1) s (t :: bs) = [(stop, [])] := by rw [tagsLog, if_pos ht, ht]
        have hnone : taken bs bs = [] := by simp [taken]
        rw [ht, hstep] at hlog hexhaust
        rw [hnone] at hlog
        have hnil := @exhaustLog_eq_nil _ step' m (store u (stop, [])) bs (by omega)
        rw [htagsLog, ht, hlog, hexhaust, cons_inj_right, hnil]
        refine ⟨by simp [hknown], fun he => ?_⟩
        subst he
        cases m <;> simp [exhaust, hread]
      · rw [if_neg ht] at h
        -- a field that the second reader passes over
        have hother : ∀ {q r : Bytes} {l : List (UInt8 × Bytes)}, tagsLog stop step (n + 1) s (t :: bs) = (t, taken bs r) :: l →
            bs = q ++ r → ¬ known t → q ≠ [] → (∀ u, (step' t u bs).2 = bs) →
            (exhaustLog step' (m + 1) u (t :: bs) = tagsLog stop step (n + 1) s (t :: bs) ↔
              (∀ f ∈ tagsLog stop step (n + 1) s (t :: bs), known f.1) ∧ rest = []) ∧
            (exhaustLog step' (m + 1) u (t :: bs) = tagsLog stop step (n + 1) s (t :: bs) →
              view s' = (tagsLog stop step (n + 1) s (t :: bs)).foldl read (view s) ∧
                exhaust step' (m + 1) u (t :: bs) = (tagsLog stop step (n + 1) s (t :: bs)).foldl store u) := by
          intro q r l hl hq hk hne hstep
          have hdiffer : exhaustLog step' (m + 1) u (t :: bs) ≠ tagsLog stop step (n + 1) s (t :: bs) := by
            intro he
            rw [hlog, hl, hstep, hq, taken_append] at he
            have hpayload := (Prod.mk.inj (List.cons.inj he).1).2
            exact hne (by simpa [taken] using hpayload.symm)
          refine ⟨iff_of_false hdiffer fun hall => hk ?_, fun he => absurd he hdiffer⟩
          rw [hl] at hall
          exact hall.1 (t, taken bs r) mem_cons_self
        cases hs : step t s bs with
        | failed e r =>
          rw [hs] at h
          cases h
        | ended s₁ r =>
          obtain ⟨_, q, hcut, hk, hne, hstep⟩ := ha.ended ht hs
          have hq := ha.cuts t bs q r hcut
          have htagsLog : tagsLog stop step (n + 1) s (t :: bs) = (t, taken bs r) :: [] := by
            rw [tagsLog, if_neg ht, hs]
          exact hother htagsLog hq hk hne hstep
        | more s₁ r =>
          rw [hs] at h
          obtain ⟨_, q, hcut, hyes, hno⟩ := ha.more ht hs
          have hq := ha.cuts t bs q r hcut
          have htagsLog : tagsLog stop step (n + 1) s (t :: bs) = (t, taken bs r) :: tagsLog stop step n s₁ r := by
            rw [tagsLog, if_neg ht, hs]
          by_cases hk : known t
          · obtain ⟨hview, hstep⟩ := hyes hk
            have hr : r.length ≤ bs.length := by rw [hq, length_append]; omega
            obtain ⟨hiff, hfolds⟩ := @ih m s₁ (store u (t, q)) r (by omega) (by omega) h
            have htaken : taken bs r = q := by rw [hq, taken_append]
            rw [htaken] at htagsLog
            rw [hstep] at hlog hexhaust
            rw [htaken] at hlog
            rw [htagsLog, hlog, hexhaust, cons_inj_right, foldl_cons, foldl_cons, ← hview]
            exact ⟨hiff.trans (by simp [hk]), hfolds⟩
          · exact hother htagsLog hq hk (hno hk).1 (hno hk).2

end

end Backlands.Lib
