/-
  Backlands.Login.Tokens — the one-time tokens of the second factor (src/tools.cpp).

  A token is computed from the key and a counter, the number of the time step. What it should
  be is stated next to it: the bytes of the counter with the high one first, four bytes of the
  code at the offset that its last byte gives, of these 31 bits, and of these the last digits
  in decimal, with zeros in front where there are less. The code that is authenticated with
  (`hmac`) is any function that returns twenty bytes.

  `generateToken` puts no zeros in front: it asks for a part that starts before the number.
  Proved: `generateToken_eq_hotp_iff`, it returns what it should exactly when the number has
  the digits asked for. Counterexample: `short_number_throws`.
-/

import Backlands.Lib.Bytes
import Mathlib.Tactic.Linarith

namespace Backlands.Login.Tokens

open Backlands.Lib List Option

variable (hmac : Bytes → Bytes → Bytes)

/-! ## The source -/

/-- `for (uint8_t i = 8; --i; counter >>= 8)` -/
def fillCounter : Nat → Nat → Bytes → Bytes
  | 0, _, mac => mac
  | i + 1, counter, mac => if i = 0 then mac else fillCounter i (counter / 256) (mac.set i (UInt8.ofNat (counter % 256)))

/-- The difference of two sizes, which are 64 bits wide. -/
def sizeMinus (a b : Nat) : Nat := (a + 2 ^ 64 - b) % 2 ^ 64

/-- `token.substr(pos)`, which throws behind the end. -/
def substr (token : List Char) (pos : Nat) : Option (List Char) :=
  if pos > token.length then none else some (token.drop pos)

/-- What a `char` is as an unsigned number. -/
def signed (c : UInt8) : UInt32 := UInt32.ofBitVec (c.toBitVec.signExtend 32)

/-- No result where it throws, or reads outside the code. -/
def generateToken (key : Bytes) (counter length : Nat) : Option (List Char) :=
  let mac := hmac key (fillCounter 8 counter (List.replicate 8 0))
  mac.getLast?.bind fun back =>
    let offset := (signed back % 16).toNat
    mac[offset + 0]?.bind fun b₀ => mac[offset + 1]?.bind fun b₁ => mac[offset + 2]?.bind fun b₂ => mac[offset + 3]?.bind fun b₃ =>
      let p := b₀.toUInt32 <<< 24 ||| b₁.toUInt32 <<< 16 ||| b₂.toUInt32 <<< 8 ||| b₃.toUInt32 <<< 0
      let token := Nat.toDigits 10 (p &&& 0x7fffffff).toNat
      substr token (sizeMinus token.length length)

/-! ## What a token is -/

def bigEndian (counter : Nat) : Bytes := (le 8 counter).reverse

def truncated (mac : Bytes) : Nat :=
  let offset := (mac.getLast?.getD 0).toNat % 16
  unle ((mac.drop offset).take 4).reverse % 2 ^ 31

/-- The number before its last digits are taken. -/
def number (key : Bytes) (counter : Nat) : Nat := truncated (hmac key (bigEndian counter))

def hotp (key : Bytes) (counter length : Nat) : List Char :=
  (Nat.toDigits 10 (number hmac key counter % 10 ^ length)).leftpad length '0'

/-! ## The bytes -/

theorem fillCounter_eq {counter : Nat} (h : counter < 2 ^ 56) :
    fillCounter 8 counter (List.replicate 8 0) = bigEndian counter := by
  have hhigh : counter / 256 / 256 / 256 / 256 / 256 / 256 / 256 = 0 := by omega
  have hlow : ∀ n, UInt8.ofNat (n % 256) = UInt8.ofNat n := fun n => UInt8.ofNat_mod_size
  simp [fillCounter, bigEndian, le, hhigh, hlow]

theorem toNat_signed_mod (c : UInt8) : (signed c % 16).toNat = c.toNat % 16 := by
  have hall : ∀ n : Fin 256, (signed (UInt8.ofFin n) % 16).toNat = (UInt8.ofFin n).toNat % 16 := by decide +kernel
  exact hall c.toFin

theorem or_behind {a b i : Nat} (h : b < 2 ^ i) : 2 ^ i * a ||| b = 2 ^ i * a + b := (Nat.two_pow_add_eq_or_of_lt h a).symm

theorem toNat_four (b₀ b₁ b₂ b₃ : UInt8) :
    ((b₀.toUInt32 <<< 24 ||| b₁.toUInt32 <<< 16 ||| b₂.toUInt32 <<< 8 ||| b₃.toUInt32 <<< 0) &&& 0x7fffffff).toNat =
      unle [b₃, b₂, b₁, b₀] % 2 ^ 31 := by
  have h₁ := b₁.toNat_lt
  have h₂ := b₂.toNat_lt
  have h₃ := b₃.toNat_lt
  have hshift : ∀ (b : UInt8) (k : UInt32), k.toNat < 32 → k.toNat + 8 ≤ 32 → (b.toUInt32 <<< k).toNat = 2 ^ k.toNat * b.toNat := by
    intro b k hk hk'
    have hb := b.toNat_lt
    rw [UInt32.toNat_shiftLeft, Nat.mod_eq_of_lt hk, UInt8.toNat_toUInt32, Nat.shiftLeft_eq, Nat.mul_comm]
    refine Nat.mod_eq_of_lt ?_
    calc 2 ^ k.toNat * b.toNat < 2 ^ k.toNat * 2 ^ 8 := (Nat.mul_lt_mul_left (Nat.two_pow_pos _)).mpr hb
      _ = 2 ^ (k.toNat + 8) := (Nat.pow_add ..).symm
      _ ≤ 2 ^ 32 := Nat.pow_le_pow_right (by decide) hk'
  have hor : (b₀.toUInt32 <<< 24 ||| b₁.toUInt32 <<< 16 ||| b₂.toUInt32 <<< 8 ||| b₃.toUInt32 <<< 0).toNat =
      unle [b₃, b₂, b₁, b₀] := by
    rw [UInt32.toNat_or, UInt32.toNat_or, UInt32.toNat_or, hshift b₀ 24 (by decide) (by decide),
      hshift b₁ 16 (by decide) (by decide), hshift b₂ 8 (by decide) (by decide), hshift b₃ 0 (by decide) (by decide)]
    show 2 ^ 24 * b₀.toNat ||| 2 ^ 16 * b₁.toNat ||| 2 ^ 8 * b₂.toNat ||| 2 ^ 0 * b₃.toNat = _
    rw [or_behind (by omega), show 2 ^ 24 * b₀.toNat + 2 ^ 16 * b₁.toNat = 2 ^ 16 * (2 ^ 8 * b₀.toNat + b₁.toNat) by omega,
      or_behind (by omega), show 2 ^ 16 * (2 ^ 8 * b₀.toNat + b₁.toNat) + 2 ^ 8 * b₂.toNat =
        2 ^ 8 * (2 ^ 8 * (2 ^ 8 * b₀.toNat + b₁.toNat) + b₂.toNat) by omega, or_behind (by omega)]
    simp only [unle]
    omega
  rw [UInt32.toNat_and, hor]
  exact Nat.and_two_pow_sub_one_eq_mod _ 31

/-! ## The digits -/

/-- The last `k` digits. -/
def lastDigits : Nat → Nat → List Char
  | 0, _ => []
  | k + 1, n => lastDigits k (n / 10) ++ [(n % 10).digitChar]

theorem toDigits_ten {n : Nat} (h : 10 ≤ n) : Nat.toDigits 10 n = Nat.toDigits 10 (n / 10) ++ [(n % 10).digitChar] :=
  Nat.toDigits_of_base_le (by decide) h

theorem drop_toDigits {n k : Nat} (hk : 0 < k) (h : k ≤ (Nat.toDigits 10 n).length) :
    (Nat.toDigits 10 n).drop ((Nat.toDigits 10 n).length - k) = lastDigits k n := by
  induction k generalizing n with
  | zero => omega
  | succ k ih =>
    by_cases hn : n < 10
    · rw [Nat.toDigits_of_lt_base hn, length_singleton] at h ⊢
      obtain rfl : k = 0 := by omega
      rw [lastDigits, lastDigits, Nat.mod_eq_of_lt hn]
      rfl
    · rw [toDigits_ten (Nat.not_lt.mp hn), length_append, length_singleton] at h ⊢
      rw [Nat.add_sub_add_right, drop_append_of_le_length (Nat.sub_le _ _), lastDigits]
      rcases Nat.eq_zero_or_pos k with rfl | hk'
      · simp [lastDigits]
      · rw [ih hk' (by omega)]

theorem leftpad_toDigits {k : Nat} (hk : 0 < k) (n : Nat) :
    (Nat.toDigits 10 (n % 10 ^ k)).leftpad k '0' = lastDigits k n := by
  induction k generalizing n with
  | zero => omega
  | succ k ih =>
    have hsplit : n % 10 ^ (k + 1) = 10 * (n / 10 % 10 ^ k) + n % 10 := by
      rw [Nat.pow_succ', Nat.mod_mul, Nat.add_comm]
    have hdigit : n % 10 ^ (k + 1) % 10 = n % 10 := by omega
    have hrest : n % 10 ^ (k + 1) / 10 = n / 10 % 10 ^ k := by omega
    rw [lastDigits]
    rcases Nat.eq_zero_or_pos k with rfl | hk'
    · have hlt : n % 10 ^ (0 + 1) < 10 := by omega
      rw [Nat.toDigits_of_lt_base hlt]
      simp [List.leftpad, lastDigits]
    rw [← ih hk' (n / 10)]
    by_cases hzero : n / 10 % 10 ^ k = 0
    · have hlt : n % 10 < 10 := by omega
      rw [hsplit, hzero, Nat.mul_zero, Nat.zero_add, Nat.toDigits_of_lt_base hlt, Nat.toDigits_zero]
      obtain ⟨j, rfl⟩ : ∃ j, k = j + 1 := ⟨k - 1, by omega⟩
      simp only [List.leftpad, length_singleton, Nat.add_sub_cancel]
      rw [replicate_succ', append_assoc]
    · rw [toDigits_ten (n := n % 10 ^ (k + 1)) (by omega), hrest, hdigit]
      simp only [List.leftpad, length_append, length_singleton, Nat.add_sub_add_right, append_assoc]

theorem substr_eq {n length : Nat} (h1 : 1 ≤ length) (h9 : length ≤ 9) (hn : n < 2 ^ 31) :
    substr (Nat.toDigits 10 n) (sizeMinus (Nat.toDigits 10 n).length length) =
      if length = 1 ∨ 10 ^ (length - 1) ≤ n then some ((Nat.toDigits 10 (n % 10 ^ length)).leftpad length '0') else none := by
  have hpos : 0 < (Nat.toDigits 10 n).length := Nat.length_toDigits_pos
  have hmax : (Nat.toDigits 10 n).length ≤ 10 := (Nat.length_toDigits_le_iff (by decide) (by decide)).mpr (by omega)
  have henough : length ≤ (Nat.toDigits 10 n).length ↔ length = 1 ∨ 10 ^ (length - 1) ≤ n := by
    rcases Nat.eq_or_lt_of_le h1 with rfl | hmore
    · exact iff_of_true hpos (.inl rfl)
    have hle := @Nat.length_toDigits_le_iff 10 n (length - 1) (by decide) (by omega)
    constructor
    · intro h
      right
      by_contra hlt
      omega
    · rintro (rfl | h)
      · omega
      · by_contra hlt
        omega
  unfold substr sizeMinus
  by_cases h : length ≤ (Nat.toDigits 10 n).length
  · have hmod : ((Nat.toDigits 10 n).length + 2 ^ 64 - length) % 2 ^ 64 = (Nat.toDigits 10 n).length - length := by omega
    rw [hmod, if_neg (by omega), if_pos (henough.mp h), leftpad_toDigits h1, drop_toDigits h1 h]
  · rw [if_pos (by omega), if_neg (fun h' => h (henough.mpr h'))]

/-! ## Tokens -/

theorem exists_four {mac : Bytes} (h20 : mac.length = 20) {offset : Nat} (h : offset < 16) :
    ∃ b₀ b₁ b₂ b₃, mac[offset]? = some b₀ ∧ mac[offset + 1]? = some b₁ ∧ mac[offset + 2]? = some b₂ ∧
      mac[offset + 3]? = some b₃ ∧ (mac.drop offset).take 4 = [b₀, b₁, b₂, b₃] := by
  have hlen : (mac.drop offset).length = 20 - offset := by rw [length_drop, h20]
  have hget : ∀ i, mac[offset + i]? = (mac.drop offset)[i]? := fun i => getElem?_drop.symm
  have hzero : mac[offset]? = (mac.drop offset)[0]? := hget 0
  rw [hzero, hget, hget, hget]
  match mac.drop offset, hlen with
  | b₀ :: b₁ :: b₂ :: b₃ :: rest, _ => exact ⟨b₀, b₁, b₂, b₃, rfl, rfl, rfl, rfl, rfl⟩
  | [], hlen | [_], hlen | [_, _], hlen | [_, _, _], hlen =>
    simp only [length_cons, length_nil] at hlen
    omega

theorem generateToken_eq (hlen : ∀ key message, (hmac key message).length = 20) (key : Bytes) {counter length : Nat}
    (hcounter : counter < 2 ^ 56) (h1 : 1 ≤ length) (h9 : length ≤ 9) :
    generateToken hmac key counter length =
      if length = 1 ∨ 10 ^ (length - 1) ≤ number hmac key counter then some (hotp hmac key counter length) else none := by
  unfold hotp number generateToken
  rw [fillCounter_eq hcounter]
  have h20 := hlen key (bigEndian counter)
  generalize hmac key (bigEndian counter) = mac at h20 ⊢
  obtain ⟨back, hback⟩ : ∃ back, mac.getLast? = some back := by
    cases hlast : mac.getLast? with
    | none =>
      rw [getLast?_eq_none_iff.mp hlast] at h20
      exact nomatch h20
    | some back => exact ⟨back, rfl⟩
  have hoffset : (signed back % 16).toNat = back.toNat % 16 := toNat_signed_mod back
  obtain ⟨b₀, b₁, b₂, b₃, h₀, h₁, h₂, h₃, hfour⟩ := exists_four h20 (Nat.mod_lt back.toNat (by decide : 0 < 16))
  have hnumber : truncated mac = unle [b₃, b₂, b₁, b₀] % 2 ^ 31 := by
    simp [truncated, hback, getD_some, hfour]
  have hlt : truncated mac < 2 ^ 31 := Nat.mod_lt _ (Nat.two_pow_pos 31)
  dsimp only
  rw [hback, bind_some, hoffset, Nat.add_zero, h₀, bind_some, h₁, bind_some, h₂, bind_some,
    h₃, bind_some, toNat_four, ← hnumber]
  exact substr_eq h1 h9 hlt

/-- The token is the standard one unless its number is shorter than the token. -/
theorem generateToken_eq_hotp_iff (hlen : ∀ key message, (hmac key message).length = 20) (key : Bytes) {counter length : Nat}
    (hcounter : counter < 2 ^ 56) (h1 : 1 ≤ length) (h9 : length ≤ 9) :
    generateToken hmac key counter length = some (hotp hmac key counter length) ↔
      length = 1 ∨ 10 ^ (length - 1) ≤ number hmac key counter := by
  rw [generateToken_eq hmac hlen key hcounter h1 h9]
  grind

/-- A code whose number is 1284755224. -/
theorem ten_digits_token :
    generateToken (fun _ _ => [0xcc, 0x93, 0xcf, 0x18, 0x50, 0x8d, 0x94, 0x93, 0x4c, 0x64, 0xb6, 0x5d, 0x8b, 0xa7, 0x66, 0x7f,
        0xb7, 0xcd, 0xe4, 0xb0]) [] 0 6 =
      some (hotp (fun _ _ => [0xcc, 0x93, 0xcf, 0x18, 0x50, 0x8d, 0x94, 0x93, 0x4c, 0x64, 0xb6, 0x5d, 0x8b, 0xa7, 0x66, 0x7f,
        0xb7, 0xcd, 0xe4, 0xb0]) [] 0 6) ↔
      6 = 1 ∨ 10 ^ (6 - 1) ≤ number (fun _ _ => [0xcc, 0x93, 0xcf, 0x18, 0x50, 0x8d, 0x94, 0x93, 0x4c, 0x64, 0xb6, 0x5d, 0x8b,
        0xa7, 0x66, 0x7f, 0xb7, 0xcd, 0xe4, 0xb0]) [] 0 :=
  generateToken_eq_hotp_iff _ (fun _ _ => rfl) [] (by decide) (by decide) (by decide)

/-- A code whose number is 7, and the token of six digits there should be. -/
theorem short_number_throws :
    generateToken (fun _ _ => [0, 0, 0, 7, 0, 0, 0, 0, 0, 0, 0, 0, 0, 0, 0, 0, 0, 0, 0, 0]) [] 0 6 = none ∧
      hotp (fun _ _ => [0, 0, 0, 7, 0, 0, 0, 0, 0, 0, 0, 0, 0, 0, 0, 0, 0, 0, 0, 0]) [] 0 6 = "000007".toList := by
  have hnumber : number (fun _ _ => [0, 0, 0, 7, 0, 0, 0, 0, 0, 0, 0, 0, 0, 0, 0, 0, 0, 0, 0, 0]) [] 0 = 7 := by decide
  constructor
  · rw [generateToken_eq _ (fun _ _ => rfl) [] (by decide) (by decide) (by decide), hnumber]
    decide
  · unfold hotp
    rw [hnumber]
    decide

end Backlands.Login.Tokens
