/-
  Backlands.Net.Adler — the checksum of a packet (`adlerChecksum`, src/tools.cpp).

  The sums are 32-bit words and their remainders are taken once a chunk; `additions` are the
  sums as the loops find them, each with the byte that is added next.

  Proved: `adler_exact`.
-/

import Backlands.Net.Framing

namespace Backlands.Net.Adler

open Backlands.Lib List
open Framing (NETWORKMESSAGE_MAXSIZE adlerStep adlerLoop adlerChecksum adlerAt)

def adler : Nat := 65521

def adler32Step (s : Nat × Nat) (byte : UInt8) : Nat × Nat :=
  let a := (s.1 + byte.toNat) % adler
  (a, (s.2 + a) % adler)

def adler32 (data : Bytes) : Nat :=
  let s := data.foldl adler32Step (1, 0)
  s.2 * 2 ^ 16 + s.1

abbrev Sums := UInt32 × UInt32

def chunkAdditions : Sums → Bytes → List (Sums × UInt8)
  | _, [] => []
  | s, byte :: data => (s, byte) :: chunkAdditions (adlerStep s byte) data

/-- The additions of `adlerLoop`. -/
def loopAdditions : Nat → Bytes → Sums → List (Sums × UInt8)
  | 0, _, _ => []
  | fuel + 1, data, s =>
    if data.length = 0 then []
    else
      let t := (data.take 5552).foldl adlerStep s
      chunkAdditions s (data.take 5552) ++ loopAdditions fuel (data.drop 5552) (t.1 % 65521, t.2 % 65521)

/-- The additions of `adlerChecksum`. -/
def additions (data : Bytes) : List (Sums × UInt8) := loopAdditions data.length data (1, 0)

/-- `a += byte` and `b += a` stay below 2 ^ 32. -/
def NoOverflow (e : Sums × UInt8) : Prop :=
  e.1.1.toNat + e.2.toNat < 2 ^ 32 ∧ e.1.2.toNat + (e.1.1.toNat + e.2.toNat) < 2 ^ 32

/-! ## A chunk -/

variable {s : Sums} {t : Nat × Nat}

def Agrees (s : Sums) (t : Nat × Nat) : Prop := s.1.toNat % adler = t.1 ∧ s.2.toNat % adler = t.2

/-- What the sums can have come to after `k` bytes of a chunk. -/
def Bounded (k : Nat) (s : Sums) : Prop :=
  s.1.toNat ≤ 65520 + 255 * k ∧ 2 * s.2.toNat ≤ 131040 * (k + 1) + 255 * (k * (k + 1))

theorem Bounded.noOverflow {k : Nat} (h : Bounded k s) (hk : k < 5552) (byte : UInt8) : NoOverflow (s, byte) := by
  obtain ⟨ha, hb⟩ := h
  have hbyte := byte.toNat_lt
  have hsquare : k * (k + 1) ≤ 5551 * 5552 := Nat.mul_le_mul (by omega) (by omega)
  unfold NoOverflow
  dsimp only
  omega

theorem NoOverflow.step {byte : UInt8} (h : NoOverflow (s, byte)) :
    (adlerStep s byte).1.toNat = s.1.toNat + byte.toNat ∧
      (adlerStep s byte).2.toNat = s.2.toNat + (s.1.toNat + byte.toNat) := by
  obtain ⟨ha, hb⟩ := h
  have hfirst : (s.1 + byte.toUInt32).toNat = s.1.toNat + byte.toNat := by
    exact Nat.mod_eq_of_lt ha
  refine ⟨hfirst, ?_⟩
  show (s.2 + (s.1 + byte.toUInt32)).toNat = _
  rw [UInt32.toNat_add, hfirst]
  exact Nat.mod_eq_of_lt hb

theorem Bounded.step {k : Nat} (h : Bounded k s) (hk : k < 5552) (byte : UInt8) : Bounded (k + 1) (adlerStep s byte) := by
  obtain ⟨hfirst, hsecond⟩ := (h.noOverflow hk byte).step
  obtain ⟨ha, hb⟩ := h
  have hbyte := byte.toNat_lt
  have hnext : (k + 1) * (k + 1 + 1) = k * (k + 1) + 2 * (k + 1) := by ring
  refine ⟨?_, ?_⟩
  · omega
  · omega

theorem Agrees.step (h : Agrees s t) {byte : UInt8} (hs : NoOverflow (s, byte)) :
    Agrees (adlerStep s byte) (adler32Step t byte) := by
  obtain ⟨hfirst, hsecond⟩ := hs.step
  obtain ⟨ha, hb⟩ := h
  refine ⟨?_, ?_⟩
  · rw [hfirst]
    show _ = (t.1 + byte.toNat) % adler
    rw [← ha, Nat.mod_add_mod]
  · rw [hsecond]
    show _ = (t.2 + (t.1 + byte.toNat) % adler) % adler
    rw [← ha, ← hb]
    simp [Nat.add_mod]

theorem chunk_spec (data : Bytes) {k : Nat} (hlen : k + data.length ≤ 5552) (hs : Bounded k s) (h : Agrees s t) :
    Agrees (data.foldl adlerStep s) (data.foldl adler32Step t) ∧ ∀ e ∈ chunkAdditions s data, NoOverflow e := by
  induction data generalizing k s t with
  | nil => exact ⟨h, fun e he => nomatch he⟩
  | cons byte data ih =>
    rw [length_cons] at hlen
    have hk : k < 5552 := by omega
    have hover := hs.noOverflow hk byte
    obtain ⟨hagrees, hrest⟩ := ih (by omega) (hs.step hk byte) (h.step hover)
    refine ⟨hagrees, fun e he => ?_⟩
    rcases mem_cons.mp he with rfl | he
    · exact hover
    · exact hrest e he

/-! ## All chunks -/

def Reduced (s : Sums) (t : Nat × Nat) : Prop := s.1.toNat = t.1 ∧ s.2.toNat = t.2 ∧ t.1 < adler ∧ t.2 < adler

theorem Reduced.bounded (h : Reduced s t) : Bounded 0 s := by
  obtain ⟨ha, hb, halt, hblt⟩ := h
  unfold adler at halt hblt
  unfold Bounded
  omega

theorem Reduced.agrees (h : Reduced s t) : Agrees s t :=
  ⟨by rw [h.1, Nat.mod_eq_of_lt h.2.2.1], by rw [h.2.1, Nat.mod_eq_of_lt h.2.2.2]⟩

theorem Agrees.reduced (h : Agrees s t) : Reduced (s.1 % 65521, s.2 % 65521) t := by
  obtain ⟨ha, hb⟩ := h
  have hpos : 0 < adler := by decide
  exact ⟨by rw [← ha, UInt32.toNat_mod]; rfl, by rw [← hb, UInt32.toNat_mod]; rfl, ha ▸ Nat.mod_lt _ hpos,
    hb ▸ Nat.mod_lt _ hpos⟩

theorem loop_spec (fuel : Nat) {data : Bytes} (hfuel : data.length ≤ fuel) (h : Reduced s t) :
    Reduced (adlerLoop fuel data s) (data.foldl adler32Step t) ∧ ∀ e ∈ loopAdditions fuel data s, NoOverflow e := by
  induction fuel generalizing data s t with
  | zero =>
    rw [eq_nil_of_length_eq_zero (Nat.le_zero.mp hfuel)]
    exact ⟨h, fun e he => nomatch he⟩
  | succ fuel ih =>
    unfold adlerLoop loopAdditions
    split
    · next hnil =>
      rw [eq_nil_of_length_eq_zero hnil]
      exact ⟨h, fun e he => nomatch he⟩
    next hmore =>
    have htake : 0 + (data.take 5552).length ≤ 5552 := by
      rw [length_take]
      omega
    have hdrop : (data.drop 5552).length ≤ fuel := by
      rw [length_drop]
      omega
    obtain ⟨hagrees, hchunk⟩ := chunk_spec (data.take 5552) htake h.bounded h.agrees
    obtain ⟨hreduced, hrest⟩ := ih hdrop hagrees.reduced
    rw [← foldl_append, take_append_drop] at hreduced
    refine ⟨hreduced, fun e he => ?_⟩
    rcases mem_append.mp he with he | he
    · exact hchunk e he
    · exact hrest e he

/-- The two words are put side by side. -/
theorem Reduced.joined (h : Reduced s t) : (s.2 <<< 16 ||| s.1).toNat = t.2 * 2 ^ 16 + t.1 := by
  obtain ⟨ha, hb, halt, hblt⟩ := h
  unfold adler at halt hblt
  have hlow : t.1 < 2 ^ 16 := by omega
  have hshift : (s.2 <<< 16).toNat = t.2 <<< 16 := by
    rw [UInt32.toNat_shiftLeft, hb]
    show t.2 <<< 16 % 2 ^ 32 = t.2 <<< 16
    omega
  rw [UInt32.toNat_or, hshift, ha, ← Nat.shiftLeft_add_eq_or_of_lt hlow, Nat.shiftLeft_eq]

/-- Wherever it lies, a byte string that a message can hold has the Adler-32 checksum, and no
    sum overflows on the way. -/
theorem adler_exact {before data after : Bytes} (h : data.length ≤ NETWORKMESSAGE_MAXSIZE) :
    (∃ checksum, adlerAt (before ++ data ++ after) before.length data.length = some checksum ∧
      checksum.toNat = adler32 data) ∧ ∀ e ∈ additions data, NoOverflow e := by
  have hstart : Reduced (1, 0) (1, 0) := by
    unfold Reduced
    decide
  obtain ⟨hreduced, hadditions⟩ := loop_spec data.length le_rfl hstart
  refine ⟨⟨adlerChecksum data, ?_, hreduced.joined⟩, hadditions⟩
  rw [adlerAt, if_neg (Nat.not_lt.mpr h), peek_segment rfl rfl, Option.map_some]

/-- Three bytes in the middle of a buffer. -/
theorem three_bytes_checked :
    (∃ checksum, adlerAt ([0, 0] ++ [255, 1, 7] ++ [9]) 2 3 = some checksum ∧ checksum.toNat = 777 * 2 ^ 16 + 264) ∧
      ∀ e ∈ additions [255, 1, 7], NoOverflow e := by
  have hexact := @adler_exact [0, 0] [255, 1, 7] [9] (by decide)
  have hvalue : adler32 [255, 1, 7] = 777 * 2 ^ 16 + 264 := by decide
  rwa [hvalue] at hexact

end Backlands.Net.Adler
