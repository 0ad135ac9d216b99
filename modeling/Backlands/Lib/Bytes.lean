/-
  Backlands.Lib.Bytes — byte strings: little-endian numbers and readers.

  A reader takes its value off the front of a byte string and hands back the rest, or
  fails. `Parses p bs a` says that `p` takes exactly the bytes `bs` off, whatever
  follows them, and reads `a`: a round trip in this form can be used inside a longer
  stream.
-/

import Mathlib.Data.List.Basic
import Mathlib.Tactic.Ring

namespace Backlands.Lib

open List

abbrev Bytes := List UInt8

abbrev Reader (α : Type*) := Bytes → Option (α × Bytes)

/-! ## Numbers -/

/-- The low `w` bytes of `n`, the lowest first. -/
def le : Nat → Nat → Bytes
  | 0, _ => []
  | w + 1, n => UInt8.ofNat n :: le w (n / 256)

def unle : Bytes → Nat
  | [] => 0
  | b :: bs => b.toNat + 256 * unle bs

variable {n : Nat}

@[simp] theorem length_le (w n : Nat) : (le w n).length = w := by
  induction w generalizing n with
  | zero => rfl
  | succ w ih => simp [le, ih]

theorem unle_le (w n : Nat) : unle (le w n) = n % 256 ^ w := by
  induction w generalizing n with
  | zero => simp [le, unle, Nat.mod_one]
  | succ w ih =>
    have hb : (UInt8.ofNat n).toNat = n % 256 := by simp
    rw [le, unle, ih, hb, pow_succ', Nat.mod_mul]

theorem unle_le_of_lt {w : Nat} (h : n < 256 ^ w) : unle (le w n) = n := by
  rw [unle_le, Nat.mod_eq_of_lt h]

/-! ## Readers -/

variable {α β : Type*}

/-- The reader takes `bs` off the front and reads `a`. -/
def Parses (p : Reader α) (bs : Bytes) (a : α) : Prop := ∀ rest, p (bs ++ rest) = some (a, rest)

/-- `n` bytes off the front. -/
def cut (n : Nat) : Reader Bytes := fun bs =>
  if bs.length < n then none else some (bs.take n, bs.drop n)

theorem parses_cut (bs : Bytes) : Parses (cut bs.length) bs bs := by
  intro rest
  simp [cut]

def readUInt (w : Nat) : Reader Nat := fun bs => (cut w bs).map fun r => (unle r.1, r.2)

theorem parses_readUInt {w : Nat} (h : n < 256 ^ w) : Parses (readUInt w) (le w n) n := by
  intro rest
  have hc := parses_cut (le w n) rest
  rw [length_le] at hc
  rw [readUInt, hc, Option.map_some, unle_le_of_lt h]

/-- A value, a second one after it that may depend on the first. -/
def Reader.bind (p : Reader α) (f : α → Reader β) : Reader β := fun bs =>
  (p bs).bind fun r => f r.1 r.2

variable {p : Reader α} {b : β}

theorem Parses.bind {f : α → Reader β} {bs cs : Bytes} {a : α} (hp : Parses p bs a) (hf : Parses (f a) cs b) :
    Parses (p.bind f) (bs ++ cs) b := by
  intro rest
  rw [Reader.bind, append_assoc, hp, Option.bind_some]
  exact hf rest

def Reader.map (f : α → β) (p : Reader α) : Reader β := fun bs => (p bs).map fun r => (f r.1, r.2)

theorem Parses.map {bs : Bytes} {a : α} (f : α → β) (hp : Parses p bs a) : Parses (p.map f) bs (f a) := by
  intro rest
  rw [Reader.map, hp, Option.map_some]

/-- A value that has to pass a test, and what the test makes of it. -/
def Reader.filterMap (p : Reader α) (f : α → Option β) : Reader β := fun bs =>
  (p bs).bind fun r => (f r.1).map fun b => (b, r.2)

theorem Parses.filterMap {bs : Bytes} {a : α} {f : α → Option β} (hp : Parses p bs a) (hf : f a = some b) :
    Parses (p.filterMap f) bs b := by
  intro rest
  rw [Reader.filterMap, hp, Option.bind_some, hf, Option.map_some]

/-- `n` values one after the other. -/
def Reader.times (p : Reader α) : Nat → Reader (List α)
  | 0 => fun bs => some ([], bs)
  | n + 1 => p.bind fun a => (p.times n).map (a :: ·)

variable {as : List α} {γ : Type*}

theorem Parses.times {enc : α → Bytes} (h : ∀ a ∈ as, Parses p (enc a) a) :
    Parses (p.times as.length) (as.flatMap enc) as := by
  induction as with
  | nil => exact fun rest => rfl
  | cons a as ih =>
    have htail := ih fun b hb => h b (mem_cons_of_mem a hb)
    exact (h a mem_cons_self).bind (htail.map (a :: ·))

theorem Parses.times_map {ι : Type*} {enc : ι → Bytes} {value : ι → α} {l : List ι}
    (h : ∀ i ∈ l, Parses p (enc i) (value i)) : Parses (p.times l.length) (l.flatMap enc) (l.map value) := by
  induction l with
  | nil => exact fun rest => rfl
  | cons i l ih =>
    have htail := ih fun j hj => h j (mem_cons_of_mem i hj)
    exact (h i mem_cons_self).bind (htail.map (value i :: ·))

theorem unle_lt (bs : Bytes) : unle bs < 256 ^ bs.length := by
  induction bs with
  | nil => simp [unle]
  | cons b bs ih =>
    have hb := b.toNat_lt
    rw [unle, length_cons, pow_succ]
    omega

theorem cut_eq_some {bs a rest : Bytes} (h : cut n bs = some (a, rest)) : a.length = n ∧ bs = a ++ rest := by
  unfold cut at h
  split at h
  · cases h
  cases h
  refine ⟨?_, (take_append_drop n bs).symm⟩
  rw [length_take]
  omega

theorem readUInt_lt {w : Nat} {bs rest : Bytes} (h : readUInt w bs = some (n, rest)) : n < 256 ^ w := by
  obtain ⟨⟨a, r⟩, hc, heq⟩ := Option.map_eq_some_iff.mp h
  obtain ⟨hlen, -⟩ := cut_eq_some hc
  have hn : unle a = n := (Prod.mk.inj heq).1
  rw [← hn, ← hlen]
  exact unle_lt a

theorem le_unle (bs : Bytes) : le bs.length (unle bs) = bs := by
  induction bs with
  | nil => rfl
  | cons b bs ih =>
    have hb := b.toNat_lt
    have hdiv : (b.toNat + 256 * unle bs) / 256 = unle bs := by omega
    have hlow : UInt8.ofNat (b.toNat + 256 * unle bs) = b := by
      simp
    rw [unle, length_cons, le, hdiv, hlow, ih]

theorem readUInt_eq_some {w : Nat} {bs rest : Bytes} (h : readUInt w bs = some (n, rest)) : bs = le w n ++ rest := by
  obtain ⟨⟨a, r⟩, hc, heq⟩ := Option.map_eq_some_iff.mp h
  obtain ⟨hlen, happ⟩ := cut_eq_some hc
  obtain ⟨rfl, rfl⟩ := Prod.mk.inj heq
  rw [happ, ← hlen, le_unle]

theorem Reader.bind_eq_some {f : α → Reader β} {bs rest : Bytes} (h : p.bind f bs = some (b, rest)) :
    ∃ a mid, p bs = some (a, mid) ∧ f a mid = some (b, rest) := by
  obtain ⟨⟨a, mid⟩, hp, hf⟩ := Option.bind_eq_some_iff.mp h
  exact ⟨a, mid, hp, hf⟩

theorem Reader.map_eq_some {f : α → β} {bs rest : Bytes} (h : p.map f bs = some (b, rest)) :
    ∃ a, p bs = some (a, rest) ∧ f a = b := by
  obtain ⟨⟨a, mid⟩, hp, heq⟩ := Option.map_eq_some_iff.mp h
  obtain ⟨rfl, rfl⟩ := Prod.mk.inj heq
  exact ⟨a, hp, rfl⟩

theorem Reader.times_eq_some {bs rest : Bytes} (h : p.times n bs = some (as, rest)) :
    as.length = n ∧ ∀ a ∈ as, ∃ cs r, p cs = some (a, r) := by
  induction n generalizing bs as with
  | zero =>
    cases h
    exact ⟨rfl, fun a ha => by cases ha⟩
  | succ n ih =>
    obtain ⟨a, mid, hp, hrest⟩ := Reader.bind_eq_some h
    obtain ⟨as', htail, rfl⟩ := Reader.map_eq_some hrest
    obtain ⟨hlen, hall⟩ := ih htail
    refine ⟨by rw [length_cons, hlen], ?_⟩
    intro b hb
    rcases mem_cons.mp hb with rfl | hb
    · exact ⟨bs, mid, hp⟩
    · exact hall b hb

theorem Reader.times_spelt {enc : α → Bytes} {P : α → Prop}
    (hp : ∀ {bs a rest}, p bs = some (a, rest) → bs = enc a ++ rest ∧ P a) {bs rest : Bytes}
    (h : p.times n bs = some (as, rest)) : as.length = n ∧ bs = as.flatMap enc ++ rest ∧ ∀ a ∈ as, P a := by
  induction n generalizing bs as with
  | zero =>
    cases h
    exact ⟨rfl, rfl, fun a ha => by cases ha⟩
  | succ n ih =>
    obtain ⟨a, mid, ha, hrest⟩ := Reader.bind_eq_some h
    obtain ⟨as', htail, rfl⟩ := Reader.map_eq_some hrest
    obtain ⟨happ, hPa⟩ := hp ha
    obtain ⟨hlen, htail, hall⟩ := ih htail
    refine ⟨by rw [length_cons, hlen], ?_, forall_mem_cons.mpr ⟨hPa, hall⟩⟩
    rw [happ, htail, flatMap_cons, append_assoc]

theorem Reader.map_map (p : Reader α) (f : α → β) (g : β → γ) : (p.map f).map g = p.map fun a => g (f a) := by
  funext bs
  exact Option.map_map _ _ (p bs)

theorem Reader.map_bind (p : Reader α) (f : α → Reader β) (g : β → γ) :
    (p.bind f).map g = p.bind fun a => (f a).map g := by
  funext bs
  exact Option.map_bind

theorem Reader.bind_map (p : Reader α) (f : α → β) (g : β → Reader γ) :
    (p.map f).bind g = p.bind fun a => g (f a) := by
  funext bs
  exact Option.bind_map

/-- A run of values made from others is made from the run of the others. -/
theorem Reader.times_map (p : Reader α) (f : α → β) (n : Nat) :
    (p.map f).times n = (p.times n).map (List.map f) := by
  induction n with
  | zero => rfl
  | succ n ih =>
    show (p.map f).bind _ = (p.bind _).map _
    rw [Reader.bind_map, Reader.map_bind, ih]
    simp only [Reader.map_map, map_cons]

end Backlands.Lib
