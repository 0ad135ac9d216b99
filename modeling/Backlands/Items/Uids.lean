/-
  Backlands.Items.Uids — identifiers made from the clock and a counter (src/item.cpp,
  kv/kv.cpp).

  Both keep the last time that was read and count the calls made at it. The number of an item
  goes on from that time when the clock goes back; the text of the key-value store takes
  whatever the clock says, and its counter starts again. A reading is a number of
  milliseconds, with a sign.

  Proved: `identifiers_unique`. Counterexample: `clock_back_repeats`.
-/

import Backlands.Lib.Bits
import Mathlib.Data.List.Chain
import Mathlib.Tactic.Linarith

namespace Backlands.Items.Uids

open List BitVec

/-! ## Items (src/item.cpp) -/

def UID_COUNTER_BITS : Nat := 21

def UID_TIMESTAMP_BITS : Nat := 63 - UID_COUNTER_BITS

def UID_COUNTER_MASK : BitVec 64 := (1 <<< UID_COUNTER_BITS) - 1

def UID_TIMESTAMP_MASK : BitVec 64 := (1 <<< UID_TIMESTAMP_BITS) - 1

structure Uid where
  lastTimestamp : BitVec 64 := 0
  counter : BitVec 64 := 0

def getUidTimestamp (now : BitVec 64) : BitVec 64 := if 0 < now.toInt then now else 0

def generateItemUID (s : Uid) (now : BitVec 64) : BitVec 64 × Uid :=
  let timestamp := getUidTimestamp now &&& UID_TIMESTAMP_MASK
  let timestamp := if timestamp < s.lastTimestamp then s.lastTimestamp else timestamp
  let n : Uid :=
    if timestamp = s.lastTimestamp then
      if s.counter ≥ UID_COUNTER_MASK then ⟨(s.lastTimestamp + 1) &&& UID_TIMESTAMP_MASK, 0⟩
      else ⟨timestamp, s.counter + 1⟩
    else ⟨timestamp, 0⟩
  (n.lastTimestamp <<< UID_COUNTER_BITS ||| n.counter, n)

def uids : List (BitVec 64) → Uid → List (BitVec 64)
  | [], _ => []
  | now :: rest, s => (generateItemUID s now).1 :: uids rest (generateItemUID s now).2

/-! ## The key-value store (src/kv/kv.cpp) -/

structure KV where
  lastTimestamp : BitVec 64 := 0
  counter : BitVec 64 := 0

/-- A number with a sign, as a stream writes it. -/
def decimal (i : Int) : List Char := if i < 0 then '-' :: Nat.toDigits 10 i.natAbs else Nat.toDigits 10 i.natAbs

/-- `setw` with the fill character 0 -/
def setw (width : Nat) (text : List Char) : List Char := text.leftpad width '0'

def KV.text (s : KV) : List Char := setw 20 (decimal s.lastTimestamp.toInt) ++ '-' :: setw 12 (Nat.toDigits 10 s.counter.toNat)

def KV.tick (s : KV) (milliseconds : BitVec 64) : KV :=
  if milliseconds ≠ s.lastTimestamp then ⟨milliseconds, 0⟩ else { s with counter := s.counter + 1 }

def generateUUID (s : KV) (milliseconds : BitVec 64) : List Char × KV := ((s.tick milliseconds).text, s.tick milliseconds)

def uuids : List (BitVec 64) → KV → List (List Char)
  | [], _ => []
  | now :: rest, s => (generateUUID s now).1 :: uuids rest (generateUUID s now).2

/-! ## When they are unique -/

/-- The last number there is has been given. -/
def Uid.Spent (s : Uid) : Prop := s.lastTimestamp = UID_TIMESTAMP_MASK ∧ s.counter = UID_COUNTER_MASK

/-- No call of the run is made after the last number. -/
def Unspent : List (BitVec 64) → Uid → Prop
  | [], _ => True
  | now :: rest, s => ¬ s.Spent ∧ Unspent rest (generateItemUID s now).2

/-- Each reading is the one before it, or none of those before it; `seen` has the last one first. -/
def Leaves : List (BitVec 64) → List (BitVec 64) → Prop
  | _, [] => True
  | seen, now :: rest => (now ∈ seen → seen.head? = some now) ∧ Leaves (now :: seen) rest

/-! ## The numbers of items -/

structure Uid.Within (s : Uid) : Prop where
  lastTimestamp : s.lastTimestamp.toNat < 2 ^ 42
  counter : s.counter.toNat < 2 ^ 21

/-- The last number given. -/
def Uid.uid (s : Uid) : BitVec 64 := s.lastTimestamp <<< UID_COUNTER_BITS ||| s.counter

theorem toNat_timestampMask (x : BitVec 64) : (x &&& UID_TIMESTAMP_MASK).toNat = x.toNat % 2 ^ 42 := by
  have hmask : UID_TIMESTAMP_MASK.toNat = 2 ^ 42 - 1 := by decide
  rw [toNat_and, hmask, Nat.and_two_pow_sub_one_eq_mod]

theorem Uid.Within.toNat_uid {s : Uid} (h : s.Within) : s.uid.toNat = s.lastTimestamp.toNat * 2 ^ 21 + s.counter.toNat := by
  have hlast := h.lastTimestamp
  have hshift : (s.lastTimestamp <<< UID_COUNTER_BITS).toNat = 2 ^ 21 * s.lastTimestamp.toNat := by
    rw [toNat_shiftLeft, Nat.shiftLeft_eq, UID_COUNTER_BITS, Nat.mul_comm]
    exact Nat.mod_eq_of_lt (by omega)
  rw [Uid.uid, toNat_or, hshift, ← Nat.two_pow_add_eq_or_of_lt h.counter, Nat.mul_comm]

theorem spent_iff {s : Uid} : s.Spent ↔ s.lastTimestamp.toNat = 2 ^ 42 - 1 ∧ s.counter.toNat = 2 ^ 21 - 1 := by
  unfold Uid.Spent
  rw [← toNat_inj, ← toNat_inj]
  exact .rfl

/-- The time that is taken: no later than the clock allows, and not before the last one. -/
def Uid.taken (s : Uid) (now : BitVec 64) : BitVec 64 :=
  if getUidTimestamp now &&& UID_TIMESTAMP_MASK < s.lastTimestamp then s.lastTimestamp
  else getUidTimestamp now &&& UID_TIMESTAMP_MASK

theorem taken_spec {s : Uid} (h : s.Within) (now : BitVec 64) :
    (s.taken now).toNat < 2 ^ 42 ∧ s.lastTimestamp.toNat ≤ (s.taken now).toNat := by
  unfold Uid.taken
  split
  · exact ⟨h.lastTimestamp, le_rfl⟩
  rename_i hle
  rw [lt_def, Nat.not_lt] at hle
  refine ⟨?_, hle⟩
  rw [toNat_timestampMask]
  exact Nat.mod_lt _ (Nat.two_pow_pos 42)

/-- What a call does: the next number is greater, unless the last one has been given. -/
theorem generateItemUID_spec {s : Uid} (h : s.Within) (now : BitVec 64) :
    (generateItemUID s now).2.Within ∧ (generateItemUID s now).1 = (generateItemUID s now).2.uid ∧
      (s.uid < (generateItemUID s now).1 ↔ ¬ s.Spent) := by
  obtain ⟨hlt, hle⟩ := taken_spec h now
  have hcounter := h.counter
  have hmask : UID_COUNTER_MASK.toNat = 2 ^ 21 - 1 := by decide
  suffices hnext : ∀ n : Uid, n = (generateItemUID s now).2 → n.Within ∧
      (s.lastTimestamp.toNat * 2 ^ 21 + s.counter.toNat < n.lastTimestamp.toNat * 2 ^ 21 + n.counter.toNat ↔ ¬ s.Spent) by
    obtain ⟨hwithin, hiff⟩ := hnext _ rfl
    refine ⟨hwithin, rfl, ?_⟩
    show s.uid < (generateItemUID s now).2.uid ↔ _
    rw [lt_def, h.toNat_uid, hwithin.toNat_uid]
    exact hiff
  intro n hn
  have hdef : n = if s.taken now = s.lastTimestamp then
      if s.counter ≥ UID_COUNTER_MASK then ⟨(s.lastTimestamp + 1) &&& UID_TIMESTAMP_MASK, 0⟩ else ⟨s.taken now, s.counter + 1⟩
    else ⟨s.taken now, 0⟩ := hn
  rw [spent_iff]
  by_cases hsame : s.taken now = s.lastTimestamp
  · rw [if_pos hsame] at hdef
    by_cases hfull : s.counter ≥ UID_COUNTER_MASK
    · rw [if_pos hfull] at hdef
      have hall : s.counter.toNat = 2 ^ 21 - 1 := by
        rw [ge_iff_le, le_def, hmask] at hfull
        omega
      have hnext : ((s.lastTimestamp + 1) &&& UID_TIMESTAMP_MASK).toNat = (s.lastTimestamp.toNat + 1) % 2 ^ 42 := by
        rw [toNat_timestampMask, toNat_add]
        exact Nat.mod_mod_of_dvd _ ⟨2 ^ 22, rfl⟩
      subst hdef
      refine ⟨⟨?_, Nat.two_pow_pos 21⟩, ?_⟩
      · rw [hnext]
        exact Nat.mod_lt _ (Nat.two_pow_pos 42)
      · rw [hnext, hall]
        simp only [ofNat_eq_ofNat, toNat_ofNat, Nat.zero_mod, and_true]
        omega
    · rw [if_neg hfull] at hdef
      rw [ge_iff_le, le_def, hmask] at hfull
      have hnext : (s.counter + 1).toNat = s.counter.toNat + 1 := by
        have hone : (1 : BitVec 64).toNat = 1 := rfl
        exact Nat.mod_eq_of_lt (by omega)
      subst hdef
      refine ⟨⟨hlt, ?_⟩, ?_⟩
      · dsimp only
        omega
      · dsimp only
        omega
  · rw [if_neg hsame] at hdef
    have hne : (s.taken now).toNat ≠ s.lastTimestamp.toNat := fun he => hsame (toNat_inj.mp he)
    subst hdef
    refine ⟨⟨hlt, Nat.two_pow_pos 21⟩, ?_⟩
    dsimp only
    omega

theorem uids_isChain_iff {s : Uid} (h : s.Within) (readings : List (BitVec 64)) :
    (s.uid :: uids readings s).IsChain (· < ·) ↔ Unspent readings s := by
  induction readings generalizing s with
  | nil => exact iff_of_true (isChain_singleton _) trivial
  | cons now rest ih =>
    obtain ⟨hwithin, huid, hless⟩ := generateItemUID_spec h now
    have hrest := ih hwithin
    rw [uids, isChain_cons_cons, hless, Unspent, huid]
    exact and_congr_right fun _ => hrest

theorem uids_pairwise_iff (readings : List (BitVec 64)) : (uids readings {}).Pairwise (· < ·) ↔ Unspent readings {} := by
  have hstart : Uid.Within {} := ⟨by decide, by decide⟩
  rw [← uids_isChain_iff hstart, ← isChain_iff_pairwise]
  cases readings with
  | nil => exact iff_of_true .nil (isChain_singleton _)
  | cons now rest =>
    obtain ⟨-, -, hless⟩ := generateItemUID_spec hstart now
    have hfirst := hless.mpr (by unfold Uid.Spent; decide)
    rw [uids, isChain_cons_cons, and_iff_right hfirst]

/-! ## The texts of the store -/

theorem dash_notMem (n : Nat) : '-' ∉ Nat.toDigits 10 n := by
  intro h
  have hdigit := Nat.isDigit_of_mem_toDigits (by decide) (by decide) h
  exact absurd hdigit (by decide)

theorem toDigits_inj {m n : Nat} (h : Nat.toDigits 10 m = Nat.toDigits 10 n) : m = n := by
  have hread := congrArg (Nat.ofDigitChars 10 · 0) h
  simpa only [Nat.ofDigitChars_ten_toDigits] using hread

/-- Zeros in front do not change a number. -/
theorem setw_toDigits_inj {width m n : Nat} (h : setw width (Nat.toDigits 10 m) = setw width (Nat.toDigits 10 n)) : m = n := by
  have hread := congrArg (Nat.ofDigitChars 10 · 0) h
  simpa [setw, List.leftpad, Nat.ofDigitChars_append] using hread

/-- Zeros before a sign say nothing. -/
theorem replicate_dash_inj {i j : Nat} {a b : List Char} (h : List.replicate i '0' ++ '-' :: a = List.replicate j '0' ++ '-' :: b) :
    a = b := by
  have hdrop : ∀ k (l : List Char), (List.replicate k '0' ++ '-' :: l).dropWhile (· = '0') = '-' :: l := by
    intro k l
    induction k with
    | zero => rfl
    | succ k ih => exact ih
  have hboth := congrArg (List.dropWhile (· = '0')) h
  rw [hdrop, hdrop] at hboth
  exact tail_eq_of_cons_eq hboth

theorem setw_decimal_inj {width : Nat} {a b : Int} (h : setw width (decimal a) = setw width (decimal b)) : a = b := by
  have hmixed : ∀ {i j : Int}, i < 0 → ¬ j < 0 → setw width (decimal i) ≠ setw width (decimal j) := by
    intro i j hi hj he
    have hmem : '-' ∈ setw width (decimal i) := by simp [setw, List.leftpad, decimal, hi]
    rw [he] at hmem
    simp [setw, List.leftpad, decimal, hj, dash_notMem] at hmem
  by_cases ha : a < 0
  · by_cases hb : b < 0
    · unfold setw List.leftpad decimal at h
      rw [if_pos ha, if_pos hb] at h
      have := toDigits_inj (replicate_dash_inj h)
      omega
    · exact absurd h (hmixed ha hb)
  · by_cases hb : b < 0
    · exact absurd h.symm (hmixed hb ha)
    unfold decimal at h
    rw [if_neg ha, if_neg hb] at h
    have := setw_toDigits_inj h
    omega

theorem length_setw_decimal (ms : BitVec 64) : (setw 20 (decimal ms.toInt)).length = 20 := by
  have hlow := le_toInt ms
  have hhigh := @toInt_lt 64 ms
  have hdigits : (Nat.toDigits 10 ms.toInt.natAbs).length ≤ 19 :=
    (Nat.length_toDigits_le_iff (by decide) (by decide)).mpr (by omega)
  grind [setw, length_leftpad, decimal, length_cons]

theorem text_inj {s t : KV} (h : s.text = t.text) : s = t := by
  have hlen : (setw 20 (decimal s.lastTimestamp.toInt)).length = (setw 20 (decimal t.lastTimestamp.toInt)).length := by
    rw [length_setw_decimal, length_setw_decimal]
  obtain ⟨htime, hcounter⟩ := append_inj h hlen
  have hlast := toInt_inj.mp (setw_decimal_inj htime)
  have hcount := toNat_inj.mp (setw_toDigits_inj (tail_eq_of_cons_eq hcounter))
  cases s
  congr

/-- The states that the calls leave. -/
def stamps : List (BitVec 64) → KV → List KV
  | [], _ => []
  | now :: rest, s => s.tick now :: stamps rest (s.tick now)

theorem uuids_eq (readings : List (BitVec 64)) (s : KV) : uuids readings s = (stamps readings s).map KV.text := by
  induction readings generalizing s with
  | nil => rfl
  | cons now rest ih => exact congrArg ((s.tick now).text :: ·) (ih (s.tick now))

theorem tick_lastTimestamp (s : KV) (now : BitVec 64) : (s.tick now).lastTimestamp = now := by
  unfold KV.tick
  split
  · rfl
  · rename_i hsame
    exact (not_not.mp hsame).symm

theorem tick_counter {s : KV} (hroom : s.counter.toNat + 1 < 2 ^ 64) :
    (s.tick s.lastTimestamp).counter.toNat = s.counter.toNat + 1 := by
  have hone : (1 : BitVec 64).toNat = 1 := rfl
  unfold KV.tick
  rw [if_neg (not_not.mpr rfl), toNat_add, hone]
  exact Nat.mod_eq_of_lt hroom

theorem tick_counter_le (s : KV) (now : BitVec 64) : (s.tick now).counter.toNat ≤ s.counter.toNat + 1 := by
  unfold KV.tick
  split
  · exact Nat.zero_le _
  · exact Nat.mod_le _ _

theorem stamps_fresh {seen readings : List (BitVec 64)} {s : KV} (hseen : seen ≠ [] → seen.head? = some s.lastTimestamp)
    (hleaves : Leaves seen readings) (hroom : s.counter.toNat + readings.length < 2 ^ 64) :
    (stamps readings s).Nodup ∧
      ∀ t ∈ stamps readings s, t.lastTimestamp ∈ seen → t.lastTimestamp = s.lastTimestamp ∧ s.counter.toNat < t.counter.toNat := by
  induction readings generalizing seen s with
  | nil => exact ⟨.nil, nofun⟩
  | cons now rest ih =>
    obtain ⟨hnow, hrest⟩ := hleaves
    rw [length_cons] at hroom
    have hlast := tick_lastTimestamp s now
    have hle := tick_counter_le s now
    have hstart : now :: seen ≠ [] → (now :: seen).head? = some (s.tick now).lastTimestamp := by
      intro _
      rw [hlast]
      rfl
    obtain ⟨hnodup, hlater⟩ := ih hstart hrest (by omega)
    have hback : now ∈ seen → now = s.lastTimestamp ∧ s.counter.toNat < (s.tick now).counter.toNat := by
      intro hmem
      have hhead := hnow hmem
      obtain rfl := Option.some.inj (hhead.symm.trans (hseen (ne_nil_of_mem hmem)))
      refine ⟨rfl, ?_⟩
      rw [tick_counter (by omega)]
      exact Nat.lt_succ_self _
    refine ⟨nodup_cons.mpr ⟨fun hmem => ?_, hnodup⟩, fun t ht hmem => ?_⟩
    · have hself := (hlater _ hmem (by rw [hlast]; exact mem_cons_self ..)).2
      exact absurd hself (Nat.lt_irrefl _)
    rcases mem_cons.mp ht with rfl | ht
    · rw [hlast] at hmem ⊢
      exact hback hmem
    obtain ⟨heq, hlt⟩ := hlater t ht (mem_cons_of_mem _ hmem)
    rw [hlast] at heq
    obtain ⟨hsame, hstep⟩ := hback (heq ▸ hmem)
    exact ⟨heq.trans hsame, hstep.trans hlt⟩

theorem uuids_nodup {readings : List (BitVec 64)} (hleaves : Leaves [] readings) (hroom : readings.length < 2 ^ 64) :
    (uuids readings {}).Nodup := by
  have hzero : ({} : KV).counter.toNat = 0 := rfl
  have hfresh := stamps_fresh (s := {}) (fun h => absurd rfl h) hleaves (by omega)
  rw [uuids_eq]
  exact hfresh.1.map fun _ _ => text_inj

/-- Items in every run that does not go on after the last number, texts in every run whose
    clock does not return to a reading it has left. -/
theorem identifiers_unique (items readings : List (BitVec 64)) :
    ((uids items {}).Pairwise (· < ·) ↔ Unspent items {}) ∧
      (Leaves [] readings → readings.length < 2 ^ 64 → (uuids readings {}).Nodup) :=
  ⟨uids_pairwise_iff items, uuids_nodup⟩

/-- A clock that goes back for the items, and one that stands, goes on and goes back elsewhere. -/
theorem five_readings_unique : (uids [7, 3, 3] {}).Pairwise (· < ·) ∧ (uuids [5, 5, 9, 7, 8] {}).Nodup := by
  obtain ⟨hitems, htexts⟩ := identifiers_unique [7, 3, 3] [5, 5, 9, 7, 8]
  refine ⟨hitems.mpr ?_, htexts ?_ (by decide)⟩
  · unfold Unspent Unspent Unspent Unspent Uid.Spent
    decide
  · simp [Leaves]

/-- The clock goes back by a millisecond. -/
theorem clock_back_repeats : ¬ (uuids [5, 6, 5] {}).Nodup := by
  decide

end Backlands.Items.Uids
