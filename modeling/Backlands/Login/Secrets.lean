/-
  Backlands.Login.Secrets — the secret of the second factor (`decodeSecret`,
  src/iologindata.cpp).

  A character is five bits, which are shifted into a word of 32; as soon as eight are there
  the first eight of them are a byte of the key. What the word has shifted out or already given
  stays in it. Next to it stands the encoding by its own rule: the bits of the characters, in
  their order, are cut into bytes, and what does not fill a byte is dropped.

  Proved: `decodeSecret_eq`. Small letters and padding are not in the alphabet.
-/

import Backlands.Lib.Bytes
import Backlands.Lib.Regroup
import Mathlib.Data.FinEnum

namespace Backlands.Login.Secrets

open Backlands.Lib Backlands.Lib.Regroup List

/-! ## The source -/

structure Decoding where
  key : Bytes := []
  buffer : UInt32 := 0
  left : UInt32 := 0

/-- What a character puts into the buffer; none where the key is broken. -/
def bitsOf (ch : UInt8) : Option UInt32 :=
  if 65 ≤ ch ∧ ch ≤ 90 then some ((ch.toUInt32 &&& 0x1F) - 1)
  else if 50 ≤ ch ∧ ch ≤ 55 then some (ch.toUInt32 - 24)
  else none

def shiftIn (s : Decoding) (value : UInt32) : Decoding :=
  let buffer := s.buffer <<< 5 ||| value
  let left := s.left + 5
  if left ≥ 8 then { key := s.key ++ [(buffer >>> (left - 8)).toUInt8], buffer := buffer, left := left - 8 }
  else { s with buffer := buffer, left := left }

def decodeSecret (secret : Bytes) : Bytes :=
  match secret.foldlM (fun s ch => (bitsOf ch).map (shiftIn s)) {} with
  | some s => s.key
  | none => []

/-! ## Base 32 -/

/-- The letters, then the digits from two to seven. -/
def alphabet : Bytes := (List.range 26).map (fun i => .ofNat (65 + i)) ++ (List.range 6).map fun i => .ofNat (50 + i)

def stream (secret : Bytes) : List Bool := secret.flatMap fun ch => bits 5 (alphabet.idxOf ch)

def base32 (secret : Bytes) : Bytes := (groups 8 (stream secret)).map .ofNat

/-! ## The loop -/

theorem bitsOf_eq (ch : UInt8) : bitsOf ch = if ch ∈ alphabet then some (.ofNat (alphabet.idxOf ch)) else none := by
  have hall : ∀ n : Fin 256, bitsOf (.ofFin n) =
      if UInt8.ofFin n ∈ alphabet then some (.ofNat (alphabet.idxOf (UInt8.ofFin n))) else none := by decide +kernel
  exact hall ch.toFin

theorem idxOf_lt {ch : UInt8} (h : ch ∈ alphabet) : alphabet.idxOf ch < 32 := idxOf_lt_length_iff.mpr h

/-- The bits of what was read: whole bytes of them are the key, and the others are still in the buffer. -/
structure Inv (read : Bytes) (s : Decoding) : Prop where
  key : s.key = base32 read
  buffer : s.buffer.toNat = ofBits (stream read) % 2 ^ 32
  left : s.left.toNat = (stream read).length % 8

variable {read secret : Bytes} {s : Decoding} {ch : UInt8}

theorem stream_snoc : stream (read ++ [ch]) = stream read ++ bits 5 (alphabet.idxOf ch) := by
  simp [stream]

theorem toNat_shifted {buffer : UInt32} {n k : Nat} (hb : buffer.toNat = n % 2 ^ 32) (hk : k < 32) :
    (buffer <<< 5 ||| .ofNat k).toNat = (n * 2 ^ 5 + k) % 2 ^ 32 := by
  have hsmall : (UInt32.ofNat k).toNat = k := UInt32.toNat_ofNat_of_lt' (by show k < 4294967296; omega)
  have hshift : (buffer <<< 5).toNat = 2 ^ 5 * (n % 2 ^ 27) := by
    have hfive : (5 : UInt32).toNat % 32 = 5 := rfl
    rw [UInt32.toNat_shiftLeft, hb, hfive, Nat.shiftLeft_eq]
    omega
  rw [UInt32.toNat_or, hsmall, hshift, ← Nat.two_pow_add_eq_or_of_lt hk]
  omega

theorem toUInt8_shiftRight {buffer r : UInt32} {n k : Nat} (hb : buffer.toNat = n % 2 ^ 32) (hr : r.toNat = k) (hk : k < 8) :
    (buffer >>> r).toUInt8 = .ofNat (n / 2 ^ k % 2 ^ 8) := by
  refine UInt8.toNat_inj.mp ?_
  have hpow : 2 ^ 32 = 2 ^ k * 2 ^ (32 - k) := by rw [← Nat.pow_add, Nat.add_sub_cancel' (by omega)]
  have hdvd : 2 ^ 8 ∣ 2 ^ (32 - k) := Nat.pow_dvd_pow 2 (by omega)
  rw [UInt32.toNat_toUInt8, UInt32.toNat_shiftRight, hr, hb, Nat.mod_eq_of_lt (Nat.lt_trans hk (by decide)),
    Nat.shiftRight_eq_div_pow, hpow, Nat.mod_mul_right_div_self, Nat.mod_mod_of_dvd _ hdvd, UInt8.toNat_ofNat', Nat.mod_mod]

theorem Inv.shiftIn (h : Inv read s) (hch : ch ∈ alphabet) :
    Inv (read ++ [ch]) (shiftIn s (.ofNat (alphabet.idxOf ch))) := by
  have hk := idxOf_lt hch
  have hbuffer := toNat_shifted h.buffer hk
  have hnumber : ofBits (stream (read ++ [ch])) = ofBits (stream read) * 2 ^ 5 + alphabet.idxOf ch := by
    rw [stream_snoc, ofBits_append, length_bits, ofBits_bits hk]
  have hlength : (stream (read ++ [ch])).length = (stream read).length + 5 := by
    rw [stream_snoc, length_append, length_bits]
  have hgroups := @groups_append 8 (stream read) (bits 5 (alphabet.idxOf ch)) (by simp)
  rw [← stream_snoc, length_bits, hnumber] at hgroups
  rw [← hnumber] at hbuffer
  have hleft : (s.left + 5).toNat = (stream read).length % 8 + 5 := by
    have hfive : (5 : UInt32).toNat = 5 := rfl
    rw [UInt32.toNat_add, h.left, hfive]
    omega
  unfold Secrets.shiftIn
  by_cases hfull : s.left + 5 ≥ 8
  · have hge : 8 ≤ (stream read).length % 8 + 5 := hleft ▸ UInt32.le_iff_toNat_le.mp hfull
    have hback : (s.left + 5 - 8).toNat = (stream read).length % 8 + 5 - 8 := by
      rw [UInt32.toNat_sub_of_le _ _ hfull, hleft]
      rfl
    rw [if_pos hfull]
    refine ⟨?_, hbuffer, by rw [hback, hlength]; omega⟩
    rw [toUInt8_shiftRight hbuffer hback (by omega), base32, hgroups, if_neg (by omega), map_append, h.key, hnumber]
    rfl
  · have hlt : (stream read).length % 8 + 5 < 8 := by
      have hnot := mt UInt32.le_iff_toNat_le.mpr hfull
      rw [hleft] at hnot
      exact Nat.lt_of_not_le hnot
    rw [if_neg hfull]
    refine ⟨?_, hbuffer, by rw [hleft, hlength]; omega⟩
    rw [base32, hgroups, if_pos hlt, append_nil]
    exact h.key

theorem run_inv (h : Inv read s) (hall : ∀ ch ∈ secret, ch ∈ alphabet) :
    ∃ s', secret.foldlM (fun s ch => (bitsOf ch).map (Secrets.shiftIn s)) s = some s' ∧ Inv (read ++ secret) s' := by
  induction secret generalizing read s with
  | nil => exact ⟨s, rfl, (append_nil read).symm ▸ h⟩
  | cons ch secret ih =>
    have hch := hall ch mem_cons_self
    obtain ⟨s', hs', hinv⟩ := ih (h.shiftIn hch) fun c hc => hall c (mem_cons_of_mem ch hc)
    rw [append_assoc, singleton_append] at hinv
    refine ⟨s', ?_, hinv⟩
    rw [foldlM_cons, bitsOf_eq, if_pos hch]
    exact hs'

theorem run_broken (h : ∃ ch ∈ secret, ch ∉ alphabet) (s : Decoding) :
    secret.foldlM (fun s ch => (bitsOf ch).map (Secrets.shiftIn s)) s = none := by
  induction secret generalizing s with
  | nil => simp at h
  | cons ch secret ih =>
    rw [foldlM_cons, bitsOf_eq]
    by_cases hch : ch ∈ alphabet
    · rw [if_pos hch]
      refine ih ?_ _
      obtain ⟨c, hc, hnot⟩ := h
      rcases mem_cons.mp hc with rfl | hc
      · exact absurd hch hnot
      · exact ⟨c, hc, hnot⟩
    · rw [if_neg hch]
      rfl

/-- A secret in the alphabet is decoded, and any other is empty. -/
theorem decodeSecret_eq (secret : Bytes) :
    decodeSecret secret = if ∀ ch ∈ secret, ch ∈ alphabet then base32 secret else [] := by
  have hstart : Inv [] {} := ⟨rfl, rfl, rfl⟩
  unfold decodeSecret
  split
  · next s hs =>
    by_cases hall : ∀ ch ∈ secret, ch ∈ alphabet
    · obtain ⟨s', hs', hinv⟩ := run_inv hstart hall
      rw [if_pos hall]
      cases hs.symm.trans hs'
      exact hinv.key
    · rw [run_broken (by simpa using hall)] at hs
      cases hs
  · next hs =>
    have hbroken : ¬∀ ch ∈ secret, ch ∈ alphabet := by
      intro hall
      obtain ⟨s', hs', -⟩ := run_inv hstart hall
      cases hs.symm.trans hs'
    rw [if_neg hbroken]

end Backlands.Login.Secrets
