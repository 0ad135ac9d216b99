/-
  Backlands.Lib.Tagged — fixed-width words and streams of tagged fields.

  A record is written as fields, each behind a tag byte, and read by a loop: a tag is
  taken, a handler reads the field behind it into the record, and a closing tag or the end
  of the stream ends the record. The handler may also end the record itself, or refuse the
  field; what is left of the stream is part of its answer in each case.

  `Runs` says of a piece of a stream that the loop takes it off, whatever follows, and goes
  on with another record. Pieces compose, so a record is read back field by field.
-/

import Mathlib.Data.List.Induction
import Backlands.Lib.Bytes

namespace Backlands.Lib

open List

/-! ## Words -/

/-- A word of `n` bits in memory order. -/
def word {n : Nat} (x : BitVec n) : Bytes := le (n / 8) x.toNat

def readWord (n : Nat) : Reader (BitVec n) := (readUInt (n / 8)).map (BitVec.ofNat n)

theorem length_word {n : Nat} (x : BitVec n) : (word x).length = n / 8 := length_le _ _

theorem parses_readWord {n : Nat} (h : 8 ∣ n) (x : BitVec n) : Parses (readWord n) (word x) x := by
  obtain ⟨w, rfl⟩ := h
  have hw : 8 * w / 8 = w := by omega
  have hlt : x.toNat < 256 ^ (8 * w / 8) := by
    rw [hw]
    calc x.toNat < 2 ^ (8 * w) := x.isLt
      _ = (2 ^ 8) ^ w := pow_mul 2 8 w
  have hp := (parses_readUInt hlt).map (BitVec.ofNat (8 * w))
  rwa [BitVec.ofNat_toNat, BitVec.setWidth_eq] at hp

theorem setWidth_signExtend {w v : Nat} (h : w ≤ v) (x : BitVec w) : (x.signExtend v).setWidth w = x := by
  ext i hi
  simp [BitVec.getElem_signExtend, BitVec.getElem_setWidth, hi, show i < v by omega]

/-! ## Scans -/

/-- A reader that says what is left of the stream also when it fails: what it took before
    the failure is gone. -/
abbrev Scan (α : Type*) := Bytes → Option α × Bytes

/-- The scan takes `bs` off the front and reads `a`. -/
def Scans {α : Type*} (p : Scan α) (bs : Bytes) (a : α) : Prop := ∀ rest, p (bs ++ rest) = (some a, rest)

section
variable {α β : Type*}

/-- One value, of which nothing is taken from a stream that is too short. -/
def Reader.scan (p : Reader α) : Scan α := fun bs =>
  match p bs with
  | some (a, rest) => (some a, rest)
  | none => (none, bs)

theorem Parses.scans {p : Reader α} {bs : Bytes} {a : α} (h : Parses p bs a) : Scans p.scan bs a := by
  intro rest
  rw [Reader.scan, h rest]

def Scan.pure (a : α) : Scan α := fun bs => (some a, bs)

def Scan.bind (p : Scan α) (f : α → Scan β) : Scan β := fun bs =>
  match p bs with
  | (some a, rest) => f a rest
  | (none, rest) => (none, rest)

theorem Scans.pure (a : α) : Scans (Scan.pure a) [] a := fun _ => rfl

theorem Scans.bind {p : Scan α} {f : α → Scan β} {bs cs : Bytes} {a : α} {b : β} (hp : Scans p bs a)
    (hf : Scans (f a) cs b) : Scans (p.bind f) (bs ++ cs) b := by
  intro rest
  rw [Scan.bind, append_assoc, hp]
  exact hf rest

/-- `n` values one after the other. -/
def Scan.times (p : Scan α) : Nat → Scan (List α)
  | 0 => Scan.pure []
  | n + 1 => p.bind fun a => (p.times n).bind fun as => Scan.pure (a :: as)

theorem Scans.times {p : Scan β} {enc : α → Bytes} {dec : α → β} {as : List α}
    (h : ∀ a ∈ as, Scans p (enc a) (dec a)) : Scans (p.times as.length) (as.flatMap enc) (as.map dec) := by
  induction as with
  | nil => exact Scans.pure []
  | cons a as ih =>
    have htail := ih fun b hb => h b (mem_cons_of_mem a hb)
    have hrest := htail.bind (f := fun bs => Scan.pure (dec a :: bs)) (Scans.pure _)
    rw [append_nil] at hrest
    exact (h a mem_cons_self).bind hrest

end

/-! ## Tagged fields -/

/-- What a handler makes of a field: the record to go on with, the record at its end, or
    an error; each with the stream as it is then. -/
inductive Outcome (ε σ : Type*) where
  | more (s : σ) (rest : Bytes)
  | ended (s : σ) (rest : Bytes)
  | failed (e : ε) (rest : Bytes)

section
variable {ε σ α β : Type*}

/-- The record inside another one. -/
def Outcome.map (f : σ → β) : Outcome ε σ → Outcome ε β
  | .more s rest => .more (f s) rest
  | .ended s rest => .ended (f s) rest
  | .failed e rest => .failed e rest

/-- A field that one reader reads. Nothing is taken from a stream that is too short. -/
def Outcome.field (e : ε) (p : Reader α) (f : α → σ) (bs : Bytes) : Outcome ε σ :=
  match p bs with
  | some (a, rest) => .more (f a) rest
  | none => .failed e bs

variable {f : α → σ} {bs : Bytes}

theorem Outcome.field_parses {e : ε} {p : Reader α} {a : α} (h : Parses p bs a) (rest : Bytes) :
    Outcome.field e p f (bs ++ rest) = .more (f a) rest := by
  rw [Outcome.field, h rest]

/-- A field that a scan reads. -/
def Outcome.scan (e : ε) (p : Scan α) (f : α → σ) (bs : Bytes) : Outcome ε σ :=
  match p bs with
  | (some a, rest) => .more (f a) rest
  | (none, rest) => .failed e rest

theorem Outcome.scan_scans {e : ε} {p : Scan α} {a : α} (h : Scans p bs a) (rest : Bytes) :
    Outcome.scan e p f (bs ++ rest) = .more (f a) rest := by
  rw [Outcome.scan, h rest]

variable (stop : UInt8) (step : UInt8 → σ → Bytes → Outcome ε σ)

/-- The loop. Each turn takes a tag at least, so the length of the stream is fuel enough. -/
def tags : Nat → σ → Bytes → Outcome ε σ
  | _, s, [] => .ended s []
  | 0, s, bs => .ended s bs
  | fuel + 1, s, t :: bs =>
    if t = stop then .ended s bs
    else match step t s bs with
      | .more s' rest => tags fuel s' rest
      | .ended s' rest => .ended s' rest
      | .failed e rest => .failed e rest

def readTags (s : σ) (bs : Bytes) : Outcome ε σ := tags stop step bs.length s bs

variable {rest : Bytes}

theorem tags_ne_more (n : Nat) (s : σ) (bs : Bytes) {s' : σ} : tags stop step n s bs ≠ .more s' rest := by
  induction n generalizing s bs with
  | zero => cases bs <;> simp [tags]
  | succ n ih =>
    cases bs with
    | nil => simp [tags]
    | cons t bs =>
      rw [tags]
      split
      · simp
      cases step t s bs with
      | more s' rest => exact ih s' rest
      | ended s' rest => simp
      | failed e rest => simp

/-- The loop takes `bs` off and goes on with `s'`. -/
def Runs (bs : Bytes) (s s' : σ) : Prop :=
  ∀ rest n, (bs ++ rest).length ≤ n → ∃ m, rest.length ≤ m ∧ tags stop step n s (bs ++ rest) = tags stop step m s' rest

variable {stop} {step}

theorem Runs.refl (s : σ) : Runs stop step [] s s := fun _ n h => ⟨n, h, rfl⟩

theorem Runs.trans {cs : Bytes} {s s' s'' : σ} (h : Runs stop step bs s s') (h' : Runs stop step cs s' s'') :
    Runs stop step (bs ++ cs) s s'' := by
  intro rest n hn
  rw [append_assoc] at hn ⊢
  obtain ⟨m, hm, e⟩ := h (cs ++ rest) n hn
  obtain ⟨k, hk, e'⟩ := h' rest m hm
  exact ⟨k, hk, e.trans e'⟩

theorem Runs.of_eq {s s' s'' : σ} (h : Runs stop step bs s s') (e : s' = s'') : Runs stop step bs s s'' :=
  e ▸ h

theorem Runs.field {t : UInt8} {s s' : σ} (ht : t ≠ stop) (h : ∀ rest, step t s (bs ++ rest) = .more s' rest) :
    Runs stop step (t :: bs) s s' := by
  intro rest n hn
  rw [cons_append, length_cons, length_append] at hn
  obtain ⟨m, rfl⟩ : ∃ m, n = m + 1 := ⟨n - 1, by omega⟩
  refine ⟨m, by omega, ?_⟩
  rw [cons_append, tags, if_neg ht, h rest]

theorem Runs.flatMap {enc : α → Bytes} {f : σ → α → σ} {as : List α} {s : σ}
    (h : ∀ pre a post, as = pre ++ a :: post → Runs stop step (enc a) (pre.foldl f s) ((pre ++ [a]).foldl f s)) :
    Runs stop step (as.flatMap enc) s (as.foldl f s) := by
  induction as using reverseRecOn with
  | nil => exact Runs.refl s
  | append_singleton as a ih =>
    rw [flatMap_append, flatMap_singleton]
    refine Runs.trans (ih fun pre b post e => ?_) (h as a [] rfl)
    exact h pre b (post ++ [a]) (by rw [e, append_assoc, cons_append])

theorem Runs.readTags {s s' : σ} (h : Runs stop step bs s s') (rest : Bytes) :
    readTags stop step s (bs ++ stop :: rest) = .ended s' rest := by
  obtain ⟨m, hm, e⟩ := h (stop :: rest) _ le_rfl
  rw [Lib.readTags, e]
  obtain ⟨k, rfl⟩ : ∃ k, m = k + 1 := ⟨m - 1, by rw [length_cons] at hm; omega⟩
  rw [tags, if_pos rfl]

theorem Runs.readTags_all {s s' : σ} (h : Runs stop step bs s s') : Lib.readTags stop step s bs = .ended s' [] := by
  obtain ⟨m, -, e⟩ := h [] _ le_rfl
  rw [append_nil] at e
  rw [Lib.readTags, e]
  cases m with
  | zero => rfl
  | succ m => rfl

/-- The record that is left, if it is not refused, satisfies `P`. -/
def Outcome.Satisfies (P : σ → Prop) : Outcome ε σ → Prop
  | .more s _ | .ended s _ => P s
  | .failed _ _ => True

theorem Outcome.field_satisfies {P : σ → Prop} (h : ∀ a, P (f a)) (e : ε) (p : Reader α) (bs : Bytes) :
    (Outcome.field e p f bs).Satisfies P := by
  unfold Outcome.field
  split
  · exact h _
  · trivial

theorem tags_satisfies {P : σ → Prop} (hstep : ∀ t s bs, P s → (step t s bs).Satisfies P) (n : Nat) {s : σ} (hs : P s)
    (bs : Bytes) : (tags stop step n s bs).Satisfies P := by
  induction n generalizing s bs with
  | zero => cases bs <;> exact hs
  | succ n ih =>
    cases bs with
    | nil => exact hs
    | cons t bs =>
      rw [tags]
      split
      · exact hs
      have hnext := hstep t s bs hs
      cases hresult : step t s bs with
      | more s' rest =>
        rw [hresult] at hnext
        exact ih hnext rest
      | ended s' rest =>
        rw [hresult] at hnext
        exact hnext
      | failed e rest => trivial

theorem Runs.readTags_ended {cs : Bytes} {t : UInt8} {s s' s'' : σ} (h : Runs stop step bs s s') (ht : t ≠ stop)
    (he : step t s' cs = .ended s'' rest) : Lib.readTags stop step s (bs ++ t :: cs) = .ended s'' rest := by
  obtain ⟨m, hm, eq⟩ := h (t :: cs) _ le_rfl
  rw [Lib.readTags, eq]
  obtain ⟨k, rfl⟩ : ∃ k, m = k + 1 := ⟨m - 1, by rw [length_cons] at hm; omega⟩
  rw [tags, if_neg ht, he]

theorem Runs.readTags_failed {cs : Bytes} {t : UInt8} {s s' : σ} {e : ε} (h : Runs stop step bs s s') (ht : t ≠ stop)
    (hf : step t s' cs = .failed e rest) : Lib.readTags stop step s (bs ++ t :: cs) = .failed e rest := by
  obtain ⟨m, hm, eq⟩ := h (t :: cs) _ le_rfl
  rw [Lib.readTags, eq]
  obtain ⟨k, rfl⟩ : ∃ k, m = k + 1 := ⟨m - 1, by rw [length_cons] at hm; omega⟩
  rw [tags, if_neg ht, hf]

end

/-! ## One part of a record -/

/-- A record seen through `g`: of the fields that made it, those that `g` does not see can be
    left out. -/
theorem foldl_filter_seen {σ α γ : Type*} {f : σ → α → σ} {g : σ → γ} {p : α → Bool}
    (hskip : ∀ s a, p a = false → g (f s a) = g s)
    (hseen : ∀ s s' a, p a = true → g s = g s' → g (f s a) = g (f s' a)) (as : List α) (s : σ) :
    g (as.foldl f s) = g ((as.filter p).foldl f s) := by
  have hcongr : ∀ (as : List α) (s s' : σ), (∀ a ∈ as, p a = true) → g s = g s' → g (as.foldl f s) = g (as.foldl f s') := by
    intro as
    induction as with
    | nil => exact fun _ _ _ e => e
    | cons a as ih =>
      intro s s' has e
      exact ih _ _ (fun b hb => has b (mem_cons_of_mem a hb)) (hseen s s' a (has a mem_cons_self) e)
  induction as generalizing s with
  | nil => rfl
  | cons a as ih =>
    rw [foldl_cons, ih, filter_cons]
    split
    · rfl
    · rename_i h
      exact hcongr _ _ _ (fun b hb => (mem_filter.mp hb).2) (hskip s a (by simpa using h))

end Backlands.Lib
