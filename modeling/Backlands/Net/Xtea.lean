/-
  Backlands.Net.Xtea — the cipher of the game's packets (src/xtea.cpp).

  Both loops step over the text eight bytes at a time until they are past its end, so a text
  that is no multiple of 8 has its last block reach over.

  Proved: `decrypt_encrypt` and `encrypt_decrypt`, with any round keys, of any number of blocks
  that the bytes hold; `encrypt_block`, a block of the result is made from the same block of
  the text alone, which `whole_blocks` puts together for a text of whole blocks.
-/

import Backlands.Lib.Bytes
import Backlands.Lib.Stretches

namespace Backlands.Net

open Backlands.Lib List

namespace Xtea

abbrev RoundKeys := Fin 64 → UInt32

def expand_key (k : Fin 4 → UInt32) : RoundKeys := fun i =>
  let delta : UInt32 := 0x9E3779B9
  let sum : UInt32 := UInt32.ofNat (i / 2) * delta
  let next_sum := sum + delta
  if i.val % 2 = 0 then sum + k (Fin.ofNat 4 (sum &&& 3).toNat)
  else next_sum + k (Fin.ofNat 4 ((next_sum >>> 11) &&& 3).toNat)

/-- `k[i]` and `k[i + 1]` of each round. -/
def rounds (k : RoundKeys) : List (UInt32 × UInt32) :=
  (List.finRange 32).map fun r : Fin 32 => (k ⟨2 * r, by omega⟩, k ⟨2 * r + 1, by omega⟩)

def word (bs : Bytes) : UInt32 := UInt32.ofNat (unle bs)

def mix (x : UInt32) : UInt32 := (x <<< 4 ^^^ x >>> 5) + x

def encryptBlock (b : Bytes) (k : UInt32 × UInt32) : Bytes :=
  let left := word (b.take 4)
  let right := word (b.drop 4)
  let left := left + (mix right ^^^ k.1)
  let right := right + (mix left ^^^ k.2)
  le 4 left.toNat ++ le 4 right.toNat

def decryptBlock (b : Bytes) (k : UInt32 × UInt32) : Bytes :=
  let left := word (b.take 4)
  let right := word (b.drop 4)
  let right := right - (mix left ^^^ k.2)
  let left := left - (mix right ^^^ k.1)
  le 4 left.toNat ++ le 4 right.toNat

/-- How many blocks the loops touch. -/
def blocks (length : Nat) : Nat := (length + 7) / 8

/-- `xtea::encrypt` of `n` blocks. -/
def encrypt (k : RoundKeys) (n : Nat) (data : Bytes) : Bytes :=
  (rounds k).foldl (fun data r => inBlocks 8 (encryptBlock · r) n data) data

def decrypt (k : RoundKeys) (n : Nat) (data : Bytes) : Bytes :=
  (rounds k).reverse.foldl (fun data r => inBlocks 8 (decryptBlock · r) n data) data

/-- `xtea::encrypt` of the bytes of a buffer from `start` on. -/
def encryptAt (k : RoundKeys) (buffer : Bytes) (start length : Nat) : Option Bytes :=
  (peek buffer start (8 * blocks length)).bind fun data => poke buffer start (encrypt k (blocks length) data)

def decryptAt (k : RoundKeys) (buffer : Bytes) (start length : Nat) : Option Bytes :=
  (peek buffer start (8 * blocks length)).bind fun data => poke buffer start (decrypt k (blocks length) data)

/-! ## Decryption undoes encryption -/

variable {n : Nat} {data b : Bytes}

theorem word_le (x : UInt32) : word (le 4 x.toNat) = x := by
  have hlt : x.toNat < 256 ^ 4 := x.toNat_lt
  rw [word, unle_le_of_lt hlt, UInt32.ofNat_toNat]

theorem le_word {bs : Bytes} (h : bs.length = 4) : le 4 (word bs).toNat = bs := by
  have hlt : unle bs < 2 ^ 32 := by
    have hb := unle_lt bs
    rwa [h] at hb
  rw [word, UInt32.toNat_ofNat', Nat.mod_eq_of_lt hlt, ← h, le_unle]

theorem length_encryptBlock (b : Bytes) (k : UInt32 × UInt32) : (encryptBlock b k).length = 8 := by
  simp [encryptBlock]

theorem decryptBlock_encryptBlock (h : b.length = 8) (k : UInt32 × UInt32) :
    decryptBlock (encryptBlock b k) k = b := by
  have hleft : (b.take 4).length = 4 := by simp [h]
  have hright : (b.drop 4).length = 4 := by simp [h]
  have htake : ∀ x y : UInt32, (le 4 x.toNat ++ le 4 y.toNat).take 4 = le 4 x.toNat := fun x y =>
    take_left' (length_le 4 _)
  have hdrop : ∀ x y : UInt32, (le 4 x.toNat ++ le 4 y.toNat).drop 4 = le 4 y.toNat := fun x y =>
    drop_left' (length_le 4 _)
  simp only [encryptBlock, decryptBlock, htake, hdrop, word_le, UInt32.add_sub_cancel, le_word hleft, le_word hright,
    take_append_drop]

theorem length_encrypt (k : RoundKeys) (h : 8 * n ≤ data.length) : (encrypt k n data).length = data.length := by
  refine foldl_keeps (P := fun d : Bytes => d.length = data.length) (fun d r hd => ?_) (rounds k) rfl
  rw [length_inBlocks (fun b _ => length_encryptBlock b r) (hd.symm ▸ h), hd]

theorem decrypt_encrypt (k : RoundKeys) (h : 8 * n ≤ data.length) : decrypt k n (encrypt k n data) = data := by
  refine foldl_cancel _ _ (P := fun d : Bytes => 8 * n ≤ d.length) (fun d r hd => ?_) (fun d r hd => ?_) (rounds k) h
  · rwa [length_inBlocks (fun b _ => length_encryptBlock b r) hd]
  · exact inBlocks_cancel (fun b _ => length_encryptBlock b r) (fun b hb => decryptBlock_encryptBlock hb r) hd

theorem length_decryptBlock (b : Bytes) (k : UInt32 × UInt32) : (decryptBlock b k).length = 8 := by
  simp [decryptBlock]

theorem encryptBlock_decryptBlock (h : b.length = 8) (k : UInt32 × UInt32) :
    encryptBlock (decryptBlock b k) k = b := by
  have hleft : (b.take 4).length = 4 := by simp [h]
  have hright : (b.drop 4).length = 4 := by simp [h]
  have htake : ∀ x y : UInt32, (le 4 x.toNat ++ le 4 y.toNat).take 4 = le 4 x.toNat := fun x y =>
    take_left' (length_le 4 _)
  have hdrop : ∀ x y : UInt32, (le 4 x.toNat ++ le 4 y.toNat).drop 4 = le 4 y.toNat := fun x y =>
    drop_left' (length_le 4 _)
  simp only [encryptBlock, decryptBlock, htake, hdrop, word_le, UInt32.sub_add_cancel, le_word hleft, le_word hright,
    take_append_drop]

theorem encrypt_decrypt (k : RoundKeys) (h : 8 * n ≤ data.length) : encrypt k n (decrypt k n data) = data := by
  have hcancel := foldl_cancel (fun d r => inBlocks 8 (decryptBlock · r) n d)
    (fun d r => inBlocks 8 (encryptBlock · r) n d) (P := fun d : Bytes => 8 * n ≤ d.length)
    (fun d r hd => by rwa [length_inBlocks (fun b _ => length_decryptBlock b r) hd])
    (fun d r hd => inBlocks_cancel (fun b _ => length_decryptBlock b r) (fun b hb => encryptBlock_decryptBlock hb r) hd)
    (rounds k).reverse h
  rwa [reverse_reverse] at hcancel

/-! ## Blocks by themselves -/

theorem block_rounds {f : Bytes → UInt32 × UInt32 → Bytes} (hf : ∀ b r, (f b r).length = 8)
    (rs : List (UInt32 × UInt32)) {i : Nat} (hi : i < n) (h : 8 * n ≤ data.length) :
    block 8 i (rs.foldl (fun d r => inBlocks 8 (f · r) n d) data) =
      rs.foldl (fun d r => inBlocks 8 (f · r) 1 d) (block 8 i data) := by
  have hone : ∀ r, ∀ b : Bytes, b.length = 8 → inBlocks 8 (f · r) 1 b = f b r := by
    intro r b hb
    rw [inBlocks, inBlocks, take_of_length_le hb.le, drop_of_length_le hb.le, append_nil]
  refine foldl_view (P := fun d : Bytes => 8 * n ≤ d.length) (fun d r hd => ?_) (fun d r hd => ?_) rs h
  · rwa [length_inBlocks (fun b _ => hf b r) hd]
  · rw [block_inBlocks (fun b _ => hf b r) hi hd, hone r _ (length_block hi hd)]

theorem encrypt_block (k : RoundKeys) {i : Nat} (hi : i < n) (h : 8 * n ≤ data.length) :
    block 8 i (encrypt k n data) = encrypt k 1 (block 8 i data) :=
  block_rounds length_encryptBlock (rounds k) hi h

theorem decrypt_block (k : RoundKeys) {i : Nat} (hi : i < n) (h : 8 * n ≤ data.length) :
    block 8 i (decrypt k n data) = decrypt k 1 (block 8 i data) :=
  block_rounds length_decryptBlock (rounds k).reverse hi h

/-- A text of whole blocks: each function undoes the other, and a block of either result is
    made from the same block of the text alone. -/
theorem whole_blocks (key : Fin 4 → UInt32) {data : Bytes} (h : 8 ∣ data.length) :
    decrypt (expand_key key) (blocks data.length) (encrypt (expand_key key) (blocks data.length) data) = data ∧
    encrypt (expand_key key) (blocks data.length) (decrypt (expand_key key) (blocks data.length) data) = data ∧
    ∀ i < data.length / 8,
      block 8 i (encrypt (expand_key key) (blocks data.length) data) = encrypt (expand_key key) 1 (block 8 i data) ∧
      block 8 i (decrypt (expand_key key) (blocks data.length) data) = decrypt (expand_key key) 1 (block 8 i data) := by
  have hblocks : blocks data.length = data.length / 8 := by
    unfold blocks
    omega
  have hle : 8 * blocks data.length ≤ data.length := by omega
  refine ⟨decrypt_encrypt _ hle, encrypt_decrypt _ hle, fun i hi => ?_⟩
  rw [← hblocks] at hi
  exact ⟨encrypt_block _ hi hle, decrypt_block _ hi hle⟩

/-- A text of two blocks. -/
theorem two_blocks :
    decrypt (expand_key fun _ => 0xdeadbeef) 2 (encrypt (expand_key fun _ => 0xdeadbeef) 2 (List.replicate 16 1)) =
      List.replicate 16 1 := (@whole_blocks (fun _ => 0xdeadbeef) (List.replicate 16 1) (by decide)).1

/-! ## In a buffer -/

theorem encryptAt_segment (k : RoundKeys) {a c : Bytes} {start length : Nat} (ha : a.length = start)
    (hb : b.length = 8 * blocks length) :
    encryptAt k (a ++ b ++ c) start length = some (a ++ encrypt k (blocks length) b ++ c) := by
  rw [encryptAt, peek_segment ha hb, Option.bind_some, poke_segment ha (length_encrypt k hb.ge).symm]

theorem decryptAt_segment (k : RoundKeys) {a c : Bytes} {start length : Nat} (ha : a.length = start)
    (hb : b.length = 8 * blocks length) :
    decryptAt k (a ++ encrypt k (blocks length) b ++ c) start length = some (a ++ b ++ c) := by
  have hlen := length_encrypt k hb.ge
  rw [decryptAt, peek_segment ha (hlen.trans hb), Option.bind_some, decrypt_encrypt k hb.ge, poke_segment ha hlen]

example : encrypt (expand_key fun _ => 0xdeadbeef) 1 [0xef, 0xbe, 0xad, 0xde, 0xef, 0xbe, 0xad, 0xde] =
    [0xb5, 0x8c, 0xf2, 0xfa, 0xe0, 0xc0, 0x40, 0x09] := by decide +kernel

end Xtea

end Backlands.Net
