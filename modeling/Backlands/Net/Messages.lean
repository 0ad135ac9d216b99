/-
  Backlands.Net.Messages — what is written to a message and what is read from one
  (src/networkmessage.h, networkmessage.cpp).

  The functions that read and the ones that write test different limits: a write keeps the
  position below the length of a body, a read keeps to the length received and to the buffer.
  A string is kept in Latin-1 behind its length; the conversions are those of `simdutf`.

  Proved: `fields_round_trip`, what is added and fits is read back, and no later add takes it away,
  fitting or not; `reads_inside_iff`, the reads of a run stay in the buffer exactly when no
  step back is made from beyond its end. Only `skipBytes` goes there.
  Counterexample: `previous_byte_outside`.
-/

import Backlands.Net.Framing

namespace Backlands.Net.Messages

open Backlands.Lib List
open Framing

/-! ## Texts -/

/-- The functions of the library `simdutf` that are called. -/
structure Simdutf where
  latin1_length_from_utf8 : Bytes → Nat
  /-- The number returned, and what is written. -/
  convert_utf8_to_latin1 : Bytes → Nat × Bytes
  utf8_length_from_latin1 : Bytes → Nat
  convert_latin1_to_utf8 : Bytes → Bytes

/-- The characters of a text in UTF-8, when each is one of Latin-1. -/
def latin1 : Bytes → Option Bytes
  | [] => some []
  | [b] => if b < 0x80 then some [b] else none
  | b :: c :: bs =>
    if b < 0x80 then (latin1 (c :: bs)).map (b :: ·)
    else if (b = 0xC2 ∨ b = 0xC3) ∧ 0x80 ≤ c ∧ c < 0xC0 then (latin1 bs).map ((b <<< 6 ||| c &&& 0x3F) :: ·)
    else none

/-- What is relied on: on valid texts the conversions undo each other, and none writes less
    than it returns, or more than its length function says. -/
structure Simdutf.Documented (simdutf : Simdutf) : Prop where
  returned : ∀ t, (simdutf.convert_utf8_to_latin1 t).1 ≤ (simdutf.convert_utf8_to_latin1 t).2.length
  stored : ∀ t, (simdutf.convert_utf8_to_latin1 t).2.length ≤ simdutf.latin1_length_from_utf8 t
  encoded : ∀ l, (simdutf.convert_latin1_to_utf8 l).length = simdutf.utf8_length_from_latin1 l
  decodes : ∀ {t l}, latin1 t = some l →
    simdutf.latin1_length_from_utf8 t = l.length ∧ simdutf.convert_utf8_to_latin1 t = (l.length, l)
  encodes : ∀ {t l}, latin1 t = some l → simdutf.convert_latin1_to_utf8 l = t

/-! ## Messages -/

structure Position where
  x : BitVec 16
  y : BitVec 16
  z : BitVec 8

variable (simdutf : Simdutf) (m : NetworkMessage)

def reset : NetworkMessage := { m with length := 0, position := INITIAL_BUFFER_POSITION, overrun := false }

def getByte : Option (Nat × NetworkMessage) := m.get 1

def getPreviousByte : Option (Nat × NetworkMessage) :=
  if m.position = 0 then some (0, { m with overrun := true })
  else (peek m.buffer (m.position - 1) 1).map fun bytes => (unle bytes, { m with position := m.position - 1 })

def getString (stringLen : Nat) : Option (Bytes × NetworkMessage) :=
  (if stringLen = 0 then m.get 2 else some (stringLen, m)).bind fun (stringLen, m) =>
    if !m.canRead stringLen then some ([], { m with overrun := true })
    else (peek m.buffer m.position stringLen).bind fun text =>
      let outLen := simdutf.utf8_length_from_latin1 text
      let written := simdutf.convert_latin1_to_utf8 text
      (poke (List.replicate outLen 0) 0 written).map fun out =>
        (out.take written.length, { m with position := u16 (m.position + stringLen) })

def getPosition : Option (Position × NetworkMessage) :=
  (m.get 2).bind fun (x, m) => (m.get 2).bind fun (y, m) => (getByte m).map fun (z, m) =>
    (⟨BitVec.ofNat 16 x, BitVec.ofNat 16 y, BitVec.ofNat 8 z⟩, m)

def setBufferPosition (pos : Nat) : Bool × NetworkMessage :=
  if pos < NETWORKMESSAGE_MAXSIZE - INITIAL_BUFFER_POSITION then
    (true, { m with position := u16 (pos + INITIAL_BUFFER_POSITION) })
  else (false, m)

def addByte (value : BitVec 8) : Option NetworkMessage := m.add (le 1 value.toNat)

def addString (value : Bytes) : Option NetworkMessage :=
  if !m.canAdd 2 then some m
  else
    let stringLen := simdutf.latin1_length_from_utf8 value
    if decide (stringLen > MAX_STRING_LENGTH) || !m.canAdd (stringLen + 2) then m.add (le 2 0)
    else (m.add (le 2 (u16 stringLen))).bind fun n =>
      let written := simdutf.convert_utf8_to_latin1 value
      (poke n.buffer n.position written.2).bind fun buffer =>
        if written.1 ≠ stringLen then
          ({ n with buffer, position := m.position, length := m.length } : NetworkMessage).add (le 2 0)
        else some { n with buffer, position := u16 (n.position + written.1), length := u16 (n.length + written.1) }

def addPosition (pos : Position) : Option NetworkMessage :=
  (m.add (le 2 pos.x.toNat)).bind fun m => (m.add (le 2 pos.y.toNat)).bind fun m => addByte m pos.z

/-! ## What is added, and read back -/

/-- An add with its value; `int` is `add<T>` for a type of `n` bytes. -/
inductive Field where
  | byte (value : BitVec 8)
  | int (n : Nat) (value : BitVec (8 * n))
  | string (value : Bytes)
  | position (pos : Position)

def Field.add (f : Field) : Option NetworkMessage :=
  match f with
  | .byte value => addByte m value
  | .int n value => m.add (le n value.toNat)
  | .string value => addString simdutf m value
  | .position pos => addPosition m pos

/-- The call that reads a field of the kind. -/
def Field.get (f : Field) : Option (Field × NetworkMessage) :=
  match f with
  | .byte _ => (getByte m).map fun r => (.byte (BitVec.ofNat 8 r.1), r.2)
  | .int n _ => (m.get n).map fun r => (.int n (BitVec.ofNat (8 * n) r.1), r.2)
  | .string _ => (getString simdutf m 0).map fun r => (.string r.1, r.2)
  | .position _ => (getPosition m).map fun r => (.position r.1, r.2)

def addAll : List Field → NetworkMessage → Option NetworkMessage
  | [], m => some m
  | f :: fs, m => (f.add simdutf m).bind (addAll fs)

def getAll : List Field → NetworkMessage → Option (List Field × NetworkMessage)
  | [], m => some ([], m)
  | f :: fs, m => (f.get simdutf m).bind fun (g, m) => (getAll fs m).map fun (gs, m) => (g :: gs, m)

def Field.bytes : Field → Option Bytes
  | .byte value => some (le 1 value.toNat)
  | .int n value => some (le n value.toNat)
  | .string value => (latin1 value).bind fun l => if l.length ≤ MAX_STRING_LENGTH then some (le 2 l.length ++ l) else none
  | .position pos => some (le 2 pos.x.toNat ++ (le 2 pos.y.toNat ++ le 1 pos.z.toNat))

/-! ## Runs of reads -/

inductive Call where
  | getByte
  | getPreviousByte
  | get (n : Nat)
  | getString (stringLen : BitVec 16)
  | getPosition
  | skipBytes (count : BitVec 16)
  | setBufferPosition (pos : BitVec 16)

def Call.step (c : Call) : Option NetworkMessage :=
  match c with
  | .getByte => (Messages.getByte m).map (·.2)
  | .getPreviousByte => (Messages.getPreviousByte m).map (·.2)
  | .get n => (m.get n).map (·.2)
  | .getString stringLen => (Messages.getString simdutf m stringLen.toNat).map (·.2)
  | .getPosition => (Messages.getPosition m).map (·.2)
  | .skipBytes count => some (m.skipBytes count.toInt)
  | .setBufferPosition pos => some (Messages.setBufferPosition m pos.toNat).2

def run : List Call → NetworkMessage → Option NetworkMessage
  | [], m => some m
  | c :: cs, m => (c.step simdutf m).bind (run cs)

/-- No step back of the run is made from beyond the end of the buffer. -/
def Guarded : List Call → NetworkMessage → Prop
  | [], _ => True
  | c :: cs, m => (c = .getPreviousByte → m.position ≤ NETWORKMESSAGE_MAXSIZE) ∧
      ∀ n, c.step simdutf m = some n → Guarded cs n

/-! ## The conversions, character by character -/

def utf8Char (b : UInt8) : Bytes := if b < 0x80 then [b] else [(0xC0 : UInt8) ||| (b >>> 6), (0x80 : UInt8) ||| (b &&& 0x3F)]

def utf8 (l : Bytes) : Bytes := l.flatMap utf8Char

def starts (b : UInt8) : Bool := b < 0x80 || 0xC0 ≤ b

def scalar : Simdutf where
  latin1_length_from_utf8 t := t.countP starts
  convert_utf8_to_latin1 t :=
    match latin1 t with
    | some l => (l.length, l)
    | none => (0, [])
  utf8_length_from_latin1 l := (utf8 l).length
  convert_latin1_to_utf8 := utf8

theorem utf8Char_two {b c : UInt8} (hb : b = 0xC2 ∨ b = 0xC3) (hc : 0x80 ≤ c ∧ c < 0xC0) :
    utf8Char (b <<< 6 ||| c &&& 0x3F) = [b, c] ∧ starts b = true ∧ starts c = false := by
  have hall : ∀ k < 64, ∀ b ∈ [(0xC2 : UInt8), 0xC3],
      utf8Char (b <<< 6 ||| .ofNat (128 + k) &&& 0x3F) = [b, .ofNat (128 + k)] ∧ starts b = true ∧
        starts (.ofNat (128 + k)) = false := by decide +kernel
  have hlow : 128 ≤ c.toNat := UInt8.le_iff_toNat_le.mp hc.1
  have hhigh : c.toNat < 192 := UInt8.lt_iff_toNat_lt.mp hc.2
  have hat := hall (c.toNat - 128) (by omega) b (by simpa using hb)
  rw [Nat.add_sub_cancel' hlow, UInt8.ofNat_toNat] at hat
  exact hat

theorem latin1_spec {t l : Bytes} (h : latin1 t = some l) : t.countP starts = l.length ∧ utf8 l = t := by
  induction t using latin1.induct generalizing l with
  | case1 =>
    obtain rfl := Option.some.inj h
    exact ⟨rfl, rfl⟩
  | case2 b hb =>
    rw [latin1, if_pos hb] at h
    obtain rfl := Option.some.inj h
    simp [starts, utf8, utf8Char, hb]
  | case3 b hb =>
    rw [latin1, if_neg hb] at h
    exact nomatch h
  | case4 b c bs hb ih =>
    rw [latin1, if_pos hb] at h
    obtain ⟨l', hl', rfl⟩ := Option.map_eq_some_iff.mp h
    obtain ⟨hcount, hutf8⟩ := ih hl'
    have hstarts : starts b = true := by simp [starts, hb]
    have hchar : utf8Char b = [b] := if_pos hb
    refine ⟨?_, ?_⟩
    · rw [countP_cons_of_pos hstarts, hcount, length_cons]
    · rw [utf8, flatMap_cons, hchar]
      exact congrArg (b :: ·) hutf8
  | case5 b c bs hb htwo ih =>
    rw [latin1, if_neg hb, if_pos htwo] at h
    obtain ⟨l', hl', rfl⟩ := Option.map_eq_some_iff.mp h
    obtain ⟨hcount, hutf8⟩ := ih hl'
    obtain ⟨hchar, hfirst, hsecond⟩ := utf8Char_two htwo.1 htwo.2
    refine ⟨?_, ?_⟩
    · rw [countP_cons_of_pos hfirst, countP_cons_of_neg (by simp [hsecond]), hcount, length_cons]
    · rw [utf8, flatMap_cons, hchar]
      exact congrArg (b :: c :: ·) hutf8
  | case6 b c bs hb htwo =>
    rw [latin1, if_neg hb, if_neg htwo] at h
    exact nomatch h

theorem scalar_documented : scalar.Documented where
  returned t := by
    grind [scalar]
  stored t := by
    unfold scalar
    dsimp only
    split
    · rename_i l hl
      exact (latin1_spec hl).1.ge
    · exact Nat.zero_le _
  encoded _ := rfl
  decodes h := by
    refine ⟨(latin1_spec h).1, ?_⟩
    unfold scalar
    dsimp only
    rw [h]
  encodes h := (latin1_spec h).2

/-! ## What a message holds -/

variable {simdutf} {m}

/-- A message to which these bytes have been written. -/
structure Holds (m : NetworkMessage) (bytes : Bytes) : Prop where
  laid : Laid m
  overrun : m.overrun = false
  length : m.length = bytes.length
  buffer : ∃ head tail, m.buffer = head ++ bytes ++ tail ∧ head.length = 8

variable {bs : Bytes} {n : Nat}

theorem holds_reset (hsize : m.buffer.length = NETWORKMESSAGE_MAXSIZE) : Holds (reset m) [] := by
  refine ⟨⟨hsize, rfl, Nat.zero_le _⟩, rfl, rfl, m.buffer.take 8, m.buffer.drop 8, ?_, ?_⟩
  · rw [append_nil]
    exact (take_append_drop 8 m.buffer).symm
  · rw [length_take, hsize]
    rfl

theorem Holds.segments (h : Holds m bs) (hfits : m.length + n ≤ 65477) :
    ∃ head mid tail, m.buffer = head ++ bs ++ (mid ++ tail) ∧ head.length = 8 ∧ mid.length = n := by
  obtain ⟨head, tail, hbuffer, hhead⟩ := h.buffer
  have hlen := h.length
  have hsize := h.laid.size
  rw [hbuffer, length_append, length_append, hhead] at hsize
  refine ⟨head, tail.take n, tail.drop n, ?_, hhead, ?_⟩
  · rw [take_append_drop, hbuffer]
  · unfold NETWORKMESSAGE_MAXSIZE at hsize
    rw [length_take]
    omega

theorem Holds.poked {a : Bytes} (h : Holds m bs) (hfits : m.length + a.length ≤ 65477) :
    ∃ buffer, poke m.buffer m.position a = some buffer ∧ ∀ n, n ≤ a.length →
      Holds { m with buffer, position := u16 (m.position + n), length := u16 (m.length + n) } (bs ++ a.take n) := by
  obtain ⟨head, mid, tail, hbuffer, hhead, hmid⟩ := h.segments hfits
  have hpos := h.laid.position
  have hlen := h.length
  have hpoke : poke m.buffer m.position a = some (head ++ bs ++ a ++ tail) := by
    rw [hbuffer, ← append_assoc]
    refine poke_segment ?_ hmid
    rw [length_append]
    omega
  refine ⟨_, hpoke, fun n hn => ⟨⟨?_, ?_, ?_⟩, h.overrun, ?_, head, a.drop n ++ tail, ?_, hhead⟩⟩
  · exact (length_poke hpoke).trans h.laid.size
  · show u16 (m.position + n) = u16 (m.length + n) + 8
    unfold u16
    omega
  · show u16 (m.length + n) ≤ 65477
    unfold u16
    omega
  · show u16 (m.length + n) = (bs ++ a.take n).length
    rw [length_append, length_take]
    unfold u16
    omega
  · conv_lhs => rw [← take_append_drop n a]
    simp only [append_assoc]

theorem Holds.add (h : Holds m bs) (a : Bytes) :
    ∃ m' more, m.add a = some m' ∧ Holds m' (bs ++ more) ∧ (m.canAdd a.length = true → more = a) := by
  unfold NetworkMessage.add
  cases hc : m.canAdd a.length with
  | false => exact ⟨m, [], rfl, by rwa [append_nil], nofun⟩
  | true =>
    obtain ⟨buffer, hpoke, hheld⟩ := h.poked (fits_of_canAdd h.laid hc)
    have hheld := hheld a.length le_rfl
    rw [take_length] at hheld
    exact ⟨_, a, by rw [Bool.not_true, if_neg Bool.false_ne_true, NetworkMessage.put, hpoke, Option.map_some], hheld, fun _ => rfl⟩

theorem Holds.add_fits (h : Holds m bs) {a : Bytes} (hfits : 8 + (bs.length + a.length) < MAX_BODY_LENGTH) :
    ∃ m', m.add a = some m' ∧ Holds m' (bs ++ a) := by
  obtain ⟨m', more, hadd, hheld, hmore⟩ := h.add a
  have hpos := h.laid.position
  have hlen := h.length
  obtain rfl := hmore (decide_eq_true (by omega))
  exact ⟨m', hadd, hheld⟩

theorem Holds.addPosition (h : Holds m bs) (pos : Position) :
    ∃ m' more, addPosition m pos = some m' ∧ Holds m' (bs ++ more) := by
  obtain ⟨m₁, x, hx, h₁, -⟩ := h.add (le 2 pos.x.toNat)
  obtain ⟨m₂, y, hy, h₂, -⟩ := h₁.add (le 2 pos.y.toNat)
  obtain ⟨m₃, z, hz, h₃, -⟩ := h₂.add (le 1 pos.z.toNat)
  refine ⟨m₃, x ++ y ++ z, ?_, by simpa only [append_assoc] using h₃⟩
  unfold Messages.addPosition
  rw [hx, Option.bind_some, hy, Option.bind_some]
  exact hz

theorem Holds.back {bs more : Bytes} (h : Holds m (bs ++ more)) :
    Holds { m with position := bs.length + 8, length := bs.length } bs := by
  obtain ⟨head, tail, hbuffer, hhead⟩ := h.buffer
  have hlen := h.length
  have hle := h.laid.length
  rw [length_append] at hlen
  refine ⟨⟨h.laid.size, rfl, ?_⟩, h.overrun, rfl, head, more ++ tail, ?_, hhead⟩
  · show bs.length ≤ 65477
    omega
  · simp [hbuffer, append_assoc]

theorem Holds.addString_fits (hs : simdutf.Documented) (h : Holds m bs) {value : Bytes}
    (hlen : simdutf.latin1_length_from_utf8 value ≤ MAX_STRING_LENGTH)
    (hfits : m.canAdd (simdutf.latin1_length_from_utf8 value + 2) = true) :
    ∃ m' more, addString simdutf m value = some m' ∧ Holds m' (bs ++ more) ∧
      ∀ l, simdutf.convert_utf8_to_latin1 value = (simdutf.latin1_length_from_utf8 value, l) →
        l.length = simdutf.latin1_length_from_utf8 value → more = le 2 l.length ++ l := by
  obtain ⟨len, hvalue⟩ : ∃ len, len = simdutf.latin1_length_from_utf8 value := ⟨_, rfl⟩
  obtain ⟨written, out, hconvert⟩ : ∃ written out, simdutf.convert_utf8_to_latin1 value = (written, out) := ⟨_, _, rfl⟩
  have hreturned := hs.returned value
  have hstored := hs.stored value
  have hroom := fits_of_canAdd h.laid hfits
  rw [← hvalue] at hlen hfits hstored hroom
  rw [hconvert] at hreturned hstored
  dsimp only at hreturned hstored
  have hcan : m.canAdd 2 = true := by
    unfold NetworkMessage.canAdd at hfits ⊢
    have := of_decide_eq_true hfits
    exact decide_eq_true (by omega)
  obtain ⟨n, more, hadd, hheld, hmore⟩ := h.add (le 2 len)
  obtain rfl := hmore (by rwa [length_le])
  have hu : u16 len = len := by
    unfold u16
    omega
  have hn : n.length = m.length + 2 := by
    rw [hheld.length, length_append, length_le, h.length]
  obtain ⟨buffer, hpoke, hout⟩ := hheld.poked (a := out) (by omega)
  have htest : (decide (len > MAX_STRING_LENGTH) || !m.canAdd (len + 2)) = false := by
    rw [hfits, decide_eq_false (by omega)]
    rfl
  unfold Messages.addString
  rw [hcan, ← hvalue, hconvert]
  dsimp only
  rw [htest, hu, hadd, Option.bind_some, hpoke, Option.bind_some]
  rw [Bool.not_true, if_neg Bool.false_ne_true, if_neg Bool.false_ne_true]
  split
  · rename_i hne
    have hheld₀ := hout 0 (Nat.zero_le _)
    rw [append_assoc] at hheld₀
    have hback := hheld₀.back
    have hpos : bs.length + 8 = m.position := by rw [h.laid.position, h.length]
    rw [hpos, ← h.length] at hback
    obtain ⟨m', more, hadd', hheld', -⟩ := hback.add (le 2 0)
    exact ⟨m', more, hadd', hheld', fun l hl _ => absurd (Prod.mk.inj hl).1 hne⟩
  · rename_i heq
    obtain rfl : written = len := not_not.mp heq
    refine ⟨_, le 2 written ++ out.take written, rfl, ?_, ?_⟩
    · rw [← append_assoc]
      exact hout written hreturned
    · intro l hl hlength
      obtain rfl := (Prod.mk.inj hl).2
      rw [← hlength, take_length]

theorem Holds.addString (hs : simdutf.Documented) (h : Holds m bs) (value : Bytes) :
    ∃ m' more, addString simdutf m value = some m' ∧ Holds m' (bs ++ more) := by
  by_cases hlong : simdutf.latin1_length_from_utf8 value ≤ MAX_STRING_LENGTH ∧
      m.canAdd (simdutf.latin1_length_from_utf8 value + 2) = true
  · obtain ⟨m', more, hadd, hheld, -⟩ := h.addString_fits hs hlong.1 hlong.2
    exact ⟨m', more, hadd, hheld⟩
  have htest : (decide (simdutf.latin1_length_from_utf8 value > MAX_STRING_LENGTH) ||
      !m.canAdd (simdutf.latin1_length_from_utf8 value + 2)) = true := by
    rw [Bool.or_eq_true, decide_eq_true_iff, Bool.not_eq_true']
    by_contra hnot
    rw [not_or, Nat.not_lt, Bool.not_eq_false] at hnot
    exact hlong hnot
  unfold Messages.addString
  dsimp only
  rw [htest, if_pos rfl]
  split
  · exact ⟨m, [], rfl, by rwa [append_nil]⟩
  · obtain ⟨m', more, hadd, hheld, -⟩ := h.add (le 2 0)
    exact ⟨m', more, hadd, hheld⟩

theorem canAdd_of_fits (h : Holds m bs) (hfits : 8 + (bs.length + n) < MAX_BODY_LENGTH) : m.canAdd n = true := by
  have hpos := h.laid.position
  have hlen := h.length
  exact decide_eq_true (by omega)

theorem Field.add_spec (hs : simdutf.Documented) (h : Holds m bs) (f : Field) :
    ∃ m' more, f.add simdutf m = some m' ∧ Holds m' (bs ++ more) ∧
      ∀ a, f.bytes = some a → 8 + (bs.length + a.length) < MAX_BODY_LENGTH → more = a := by
  cases f with
  | byte value =>
    obtain ⟨m', more, hadd, hheld, hmore⟩ := h.add (le 1 value.toNat)
    refine ⟨m', more, hadd, hheld, fun a ha hfits => ?_⟩
    obtain rfl := Option.some.inj ha
    exact hmore (canAdd_of_fits h hfits)
  | int n value =>
    obtain ⟨m', more, hadd, hheld, hmore⟩ := h.add (le n value.toNat)
    refine ⟨m', more, hadd, hheld, fun a ha hfits => ?_⟩
    obtain rfl := Option.some.inj ha
    exact hmore (canAdd_of_fits h hfits)
  | string value =>
    by_cases hfit : ∃ a, Field.bytes (.string value) = some a ∧ 8 + (bs.length + a.length) < MAX_BODY_LENGTH
    · obtain ⟨a, ha, hfits⟩ := hfit
      obtain ⟨l, hl, hlen⟩ := Option.bind_eq_some_iff.mp ha
      split at hlen
      · rename_i hshort
        obtain rfl := Option.some.inj hlen
        obtain ⟨hlength, hconvert⟩ := hs.decodes hl
        obtain ⟨m', more, hadd, hheld, hmore⟩ := h.addString_fits hs (by rwa [hlength])
          (canAdd_of_fits h (by rwa [hlength]))
        refine ⟨m', more, hadd, hheld, fun a' ha' _ => ?_⟩
        obtain rfl := Option.some.inj (ha.symm.trans ha')
        exact hmore l (by rw [hlength, hconvert]) hlength.symm
      · exact nomatch hlen
    · obtain ⟨m', more, hadd, hheld⟩ := h.addString hs value
      exact ⟨m', more, hadd, hheld, fun a ha hfits => absurd ⟨a, ha, hfits⟩ hfit⟩
  | position pos =>
    by_cases hfits : 8 + (bs.length + 5) < MAX_BODY_LENGTH
    · have hx : (le 2 pos.x.toNat).length = 2 := length_le ..
      have hy : (le 2 pos.y.toNat).length = 2 := length_le ..
      have hz : (le 1 pos.z.toNat).length = 1 := length_le ..
      obtain ⟨m₁, hadd₁, h₁⟩ := h.add_fits (a := le 2 pos.x.toNat) (by omega)
      obtain ⟨m₂, hadd₂, h₂⟩ := h₁.add_fits (a := le 2 pos.y.toNat) (by rw [length_append]; omega)
      obtain ⟨m₃, hadd₃, h₃⟩ := h₂.add_fits (a := le 1 pos.z.toNat) (by simp only [length_append]; omega)
      refine ⟨m₃, _, ?_, by simpa only [append_assoc] using h₃, fun a ha _ => Option.some.inj ha⟩
      show Messages.addPosition m pos = some m₃
      unfold Messages.addPosition
      rw [hadd₁, Option.bind_some, hadd₂, Option.bind_some]
      exact hadd₃
    · obtain ⟨m', more, hadd, hheld⟩ := h.addPosition pos
      refine ⟨m', more, hadd, hheld, fun a ha hfits' => absurd ?_ hfits⟩
      obtain rfl := Option.some.inj ha
      simpa only [length_append, length_le] using hfits'

theorem addAll_append (fs more : List Field) :
    addAll simdutf (fs ++ more) m = (addAll simdutf fs m).bind (addAll simdutf more) := by
  induction fs generalizing m with
  | nil => rfl
  | cons f fs ih =>
    rw [cons_append, addAll, addAll, Option.bind_assoc]
    congr 1
    funext n
    exact ih

theorem addAll_spec (hs : simdutf.Documented) (h : Holds m bs) (fs : List Field) :
    ∃ m' more, addAll simdutf fs m = some m' ∧ Holds m' (bs ++ more) ∧
      ∀ a, fs.mapM Field.bytes = some a → 8 + (bs.length + a.flatten.length) < MAX_BODY_LENGTH → more = a.flatten := by
  induction fs generalizing m bs with
  | nil =>
    refine ⟨m, [], rfl, by rwa [append_nil], fun a ha _ => ?_⟩
    obtain rfl := Option.some.inj ha
    rfl
  | cons f fs ih =>
    obtain ⟨n, first, hadd, hheld, hfirst⟩ := f.add_spec hs h
    obtain ⟨m', rest, haddAll, hheld', hrest⟩ := ih hheld
    refine ⟨m', first ++ rest, ?_, by rwa [← append_assoc], fun a ha hfits => ?_⟩
    · rw [addAll, hadd, Option.bind_some, haddAll]
    rw [mapM_cons] at ha
    obtain ⟨b, hb, ha⟩ := Option.bind_eq_some_iff.mp ha
    obtain ⟨bs', hbs', ha⟩ := Option.bind_eq_some_iff.mp ha
    obtain rfl := Option.some.inj ha
    rw [flatten_cons, length_append] at hfits
    obtain rfl := hfirst b hb (by omega)
    rw [hrest bs' hbs' (by rw [length_append]; omega), flatten_cons]

/-! ## Reading back -/

/-- A message of which these bytes, at least, are still to be read. -/
structure Unread (m : NetworkMessage) (bytes : Bytes) : Prop where
  size : m.buffer.length = NETWORKMESSAGE_MAXSIZE
  overrun : m.overrun = false
  length : m.length ≤ 65477
  within : m.position + bytes.length ≤ m.length + 8
  buffer : ∃ front tail, m.buffer = front ++ bytes ++ tail ∧ front.length = m.position

variable {rest : Bytes}

theorem Holds.unread (h : Holds m bs) : Unread (setBufferPosition m 0).2 bs := by
  obtain ⟨head, tail, hbuffer, hhead⟩ := h.buffer
  refine ⟨h.laid.size, h.overrun, h.laid.length, ?_, head, tail, hbuffer, hhead⟩
  show 8 + bs.length ≤ m.length + 8
  rw [h.length]
  omega

theorem Unread.cut {a : Bytes} (h : Unread m (a ++ rest)) :
    m.canRead a.length = true ∧ peek m.buffer m.position a.length = some a ∧
      Unread { m with position := u16 (m.position + a.length) } rest := by
  obtain ⟨front, tail, hbuffer, hfront⟩ := h.buffer
  have hwithin := h.within
  have hlength := h.length
  rw [length_append] at hwithin
  refine ⟨?_, ?_, h.size, h.overrun, h.length, ?_, front ++ a, tail, ?_, ?_⟩
  · unfold NetworkMessage.canRead NETWORKMESSAGE_MAXSIZE
    rw [Bool.and_eq_true, decide_eq_true_iff, decide_eq_true_iff]
    omega
  · rw [hbuffer, append_assoc, append_assoc, ← append_assoc front]
    exact peek_segment hfront rfl
  · show u16 (m.position + a.length) + rest.length ≤ m.length + 8
    unfold u16
    omega
  · simp [hbuffer]
  · show (front ++ a).length = u16 (m.position + a.length)
    rw [length_append, hfront]
    unfold u16
    omega

theorem Unread.get {a : Bytes} (h : Unread m (a ++ rest)) :
    ∃ m', m.get a.length = some (unle a, m') ∧ Unread m' rest := by
  obtain ⟨hcan, hpeek, hrest⟩ := h.cut
  refine ⟨_, ?_, hrest⟩
  rw [NetworkMessage.get, hcan, hpeek]
  rfl

theorem Unread.get_le {value : Nat} (h : Unread m (le n value ++ rest)) (hvalue : value < 256 ^ n) :
    ∃ m', m.get n = some (value, m') ∧ Unread m' rest := by
  obtain ⟨m', hget, hrest⟩ := h.get
  rw [length_le, unle_le_of_lt hvalue] at hget
  exact ⟨m', hget, hrest⟩

theorem Unread.getString (hs : simdutf.Documented) {t l : Bytes} (ht : latin1 t = some l)
    (hl : l.length ≤ MAX_STRING_LENGTH) (h : Unread m (le 2 l.length ++ l ++ rest)) :
    ∃ m', getString simdutf m 0 = some (t, m') ∧ Unread m' rest := by
  unfold MAX_STRING_LENGTH at hl
  rw [append_assoc] at h
  obtain ⟨n, hget, hn⟩ := h.get_le (by omega)
  obtain ⟨hcan, hpeek, hrest⟩ := hn.cut
  have hout : poke (List.replicate (simdutf.utf8_length_from_latin1 l) 0) 0 t = some t := by
    have hlen : (List.replicate (simdutf.utf8_length_from_latin1 l) (0 : UInt8)).length = t.length := by
      rw [length_replicate, ← hs.encoded, hs.encodes ht]
    have hpoke := @poke_segment _ [] _ [] t 0 rfl hlen
    simpa only [nil_append, append_nil] using hpoke
  refine ⟨_, ?_, hrest⟩
  unfold Messages.getString
  rw [if_pos rfl, hget, Option.bind_some]
  dsimp only
  rw [hcan, Bool.not_true, if_neg Bool.false_ne_true, hpeek, Option.bind_some, hs.encodes ht, hout, Option.map_some, take_length]

theorem Unread.getPosition {pos : Position}
    (h : Unread m (le 2 pos.x.toNat ++ (le 2 pos.y.toNat ++ le 1 pos.z.toNat) ++ rest)) :
    ∃ m', getPosition m = some (pos, m') ∧ Unread m' rest := by
  simp only [append_assoc] at h
  obtain ⟨m₁, hx, h₁⟩ := h.get_le pos.x.isLt
  obtain ⟨m₂, hy, h₂⟩ := h₁.get_le pos.y.isLt
  obtain ⟨m₃, hz, h₃⟩ := h₂.get_le pos.z.isLt
  refine ⟨m₃, ?_, h₃⟩
  simp [Messages.getPosition, getByte, hx, Option.bind_some, hy, hz, Option.map_some]

theorem Field.get_spec (hs : simdutf.Documented) {f : Field} {a : Bytes} (ha : f.bytes = some a)
    (h : Unread m (a ++ rest)) : ∃ m', f.get simdutf m = some (f, m') ∧ Unread m' rest := by
  cases f with
  | byte value =>
    obtain rfl := Option.some.inj ha
    obtain ⟨m', hget, hrest⟩ := h.get_le value.isLt
    refine ⟨m', ?_, hrest⟩
    rw [Field.get, getByte, hget]
    simp
  | int n value =>
    obtain rfl := Option.some.inj ha
    have hlt : value.toNat < 256 ^ n := by
      have hpow : 2 ^ (8 * n) = 256 ^ n := by rw [Nat.pow_mul]
      exact hpow ▸ value.isLt
    obtain ⟨m', hget, hrest⟩ := h.get_le hlt
    refine ⟨m', ?_, hrest⟩
    rw [Field.get, hget]
    simp
  | string value =>
    obtain ⟨l, hl, hlen⟩ := Option.bind_eq_some_iff.mp ha
    split at hlen
    · rename_i hshort
      obtain rfl := Option.some.inj hlen
      obtain ⟨m', hget, hrest⟩ := h.getString hs hl hshort
      refine ⟨m', ?_, hrest⟩
      rw [Field.get, hget]
      rfl
    · exact nomatch hlen
  | position pos =>
    obtain rfl := Option.some.inj ha
    obtain ⟨m', hget, hrest⟩ := h.getPosition
    refine ⟨m', ?_, hrest⟩
    rw [Field.get, hget]
    rfl

theorem getAll_spec (hs : simdutf.Documented) {fs : List Field} {a : List Bytes} (ha : fs.mapM Field.bytes = some a)
    (h : Unread m (a.flatten ++ rest)) : ∃ m', getAll simdutf fs m = some (fs, m') ∧ Unread m' rest := by
  induction fs generalizing m a with
  | nil =>
    obtain rfl := Option.some.inj ha
    exact ⟨m, rfl, h⟩
  | cons f fs ih =>
    rw [mapM_cons] at ha
    obtain ⟨b, hb, ha⟩ := Option.bind_eq_some_iff.mp ha
    obtain ⟨bs, hbs, ha⟩ := Option.bind_eq_some_iff.mp ha
    obtain rfl := Option.some.inj ha
    rw [flatten_cons, append_assoc] at h
    obtain ⟨n, hget, hn⟩ := f.get_spec hs hb h
    obtain ⟨m', hgetAll, hrest⟩ := ih hbs hn
    refine ⟨m', ?_, hrest⟩
    simp [getAll, hget, Option.bind_some, hgetAll]

/-- What was added and fits is read back, whatever is added behind it, fitting or not. -/
theorem fields_round_trip (hs : simdutf.Documented) (hsize : m.buffer.length = NETWORKMESSAGE_MAXSIZE) {fs : List Field}
    {a : List Bytes} (ha : fs.mapM Field.bytes = some a) (hfits : INITIAL_BUFFER_POSITION + a.flatten.length < MAX_BODY_LENGTH)
    (more : List Field) :
    ∃ m', addAll simdutf (fs ++ more) (reset m) = some m' ∧
      ∃ m'', getAll simdutf fs (setBufferPosition m' 0).2 = some (fs, m'') ∧ m''.overrun = false := by
  obtain ⟨n, bs, hadd, hheld, hbs⟩ := addAll_spec hs (holds_reset hsize) fs
  obtain rfl := hbs a ha (by rw [length_nil, Nat.zero_add]; exact hfits)
  obtain ⟨m', rest, hmore, hheld', -⟩ := addAll_spec hs hheld more
  rw [nil_append] at hheld'
  obtain ⟨m'', hget, hrest⟩ := getAll_spec hs ha hheld'.unread
  refine ⟨m', ?_, m'', hget, hrest.overrun⟩
  rw [addAll_append, hadd, Option.bind_some, hmore]

/-- A number, a word with an accent, a place, and behind them a string that is no text. -/
theorem accented_word_round_trip :
    ∃ m', addAll scalar ([.int 2 4660, .string [0x48, 0xC3, 0xA9], .position ⟨100, 200, 7⟩] ++ [.string [0xFF]])
        (reset {}) = some m' ∧
      ∃ m'', getAll scalar [.int 2 4660, .string [0x48, 0xC3, 0xA9], .position ⟨100, 200, 7⟩] (setBufferPosition m' 0).2 =
        some ([.int 2 4660, .string [0x48, 0xC3, 0xA9], .position ⟨100, 200, 7⟩], m'') ∧ m''.overrun = false :=
  fields_round_trip scalar_documented length_replicate (a := [[0x34, 0x12], [2, 0, 0x48, 0xE9], [100, 0, 200, 0, 7]]) rfl (by decide) _

/-! ## Reading outside -/

theorem peek_isSome {α : Type} {cells : List α} {i : Nat} : (peek cells i n).isSome = true ↔ i + n ≤ cells.length := by
  unfold peek
  split <;> simp [*]

theorem within_of_canRead (h : m.canRead n = true) : m.position + n < NETWORKMESSAGE_MAXSIZE := by
  unfold NetworkMessage.canRead at h
  rw [Bool.and_eq_true, decide_eq_true_iff, decide_eq_true_iff] at h
  omega

/-- A call leaves the buffer alone, and the position in it when it was there. -/
structure Inside (m m' : NetworkMessage) : Prop where
  buffer : m'.buffer = m.buffer
  position : m.position ≤ NETWORKMESSAGE_MAXSIZE → m'.position ≤ NETWORKMESSAGE_MAXSIZE

variable {m' : NetworkMessage}

theorem Inside.rfl : Inside m m := ⟨Eq.refl _, id⟩

theorem Inside.trans {m₁ m₂ : NetworkMessage} (h : Inside m m₁) (h' : Inside m₁ m₂) : Inside m m₂ :=
  ⟨h'.buffer.trans h.buffer, fun hm => h'.position (h.position hm)⟩

theorem Inside.size (h : Inside m m') (hsize : m.buffer.length = NETWORKMESSAGE_MAXSIZE) :
    m'.buffer.length = NETWORKMESSAGE_MAXSIZE := by
  rw [h.buffer, hsize]

theorem inside_overrun : Inside m { m with overrun := true } := ⟨Eq.refl _, id⟩

theorem inside_move (h : m.position + n < NETWORKMESSAGE_MAXSIZE) :
    Inside m { m with position := u16 (m.position + n) } :=
  ⟨Eq.refl _, fun _ => (Nat.mod_le _ _).trans h.le⟩

theorem get_inside (hsize : m.buffer.length = NETWORKMESSAGE_MAXSIZE) (n : Nat) :
    ∃ value m', m.get n = some (value, m') ∧ Inside m m' := by
  unfold NetworkMessage.get
  cases hc : m.canRead n with
  | false => exact ⟨0, _, by simp, inside_overrun⟩
  | true =>
    have hwithin := within_of_canRead hc
    obtain ⟨bytes, hpeek⟩ := Option.isSome_iff_exists.mp (peek_isSome.mpr (hsize ▸ hwithin.le))
    exact ⟨unle bytes, _, by simp [hpeek], inside_move hwithin⟩

theorem getString_inside (hs : simdutf.Documented) (hsize : m.buffer.length = NETWORKMESSAGE_MAXSIZE) (stringLen : Nat) :
    ∃ value m', getString simdutf m stringLen = some (value, m') ∧ Inside m m' := by
  obtain ⟨len, n, hlen, hn⟩ : ∃ len n, (if stringLen = 0 then m.get 2 else some (stringLen, m)) = some (len, n) ∧
      Inside m n := by
    split
    · exact get_inside hsize 2
    · exact ⟨stringLen, m, Eq.refl _, .rfl⟩
  unfold Messages.getString
  rw [hlen, Option.bind_some]
  dsimp only
  cases hc : n.canRead len with
  | false => exact ⟨[], _, by simp, hn.trans inside_overrun⟩
  | true =>
    have hwithin := within_of_canRead hc
    obtain ⟨text, hpeek⟩ := Option.isSome_iff_exists.mp (peek_isSome.mpr ((hn.size hsize) ▸ hwithin.le))
    have hroom : 0 + (simdutf.convert_latin1_to_utf8 text).length ≤
        (List.replicate (simdutf.utf8_length_from_latin1 text) (0 : UInt8)).length := by
      rw [length_replicate, hs.encoded, Nat.zero_add]
    obtain ⟨out, hout⟩ : ∃ out, poke (List.replicate (simdutf.utf8_length_from_latin1 text) 0) 0
        (simdutf.convert_latin1_to_utf8 text) = some out := ⟨_, if_pos hroom⟩
    exact ⟨_, _, by simp [hpeek, hout]; rfl, hn.trans (inside_move hwithin)⟩

theorem getPosition_inside (hsize : m.buffer.length = NETWORKMESSAGE_MAXSIZE) :
    ∃ value m', getPosition m = some (value, m') ∧ Inside m m' := by
  obtain ⟨x, m₁, hx, h₁⟩ := get_inside hsize 2
  obtain ⟨y, m₂, hy, h₂⟩ := get_inside (h₁.size hsize) 2
  obtain ⟨z, m₃, hz, h₃⟩ := get_inside (h₂.size (h₁.size hsize)) 1
  refine ⟨⟨BitVec.ofNat 16 x, BitVec.ofNat 16 y, BitVec.ofNat 8 z⟩, m₃, ?_, (h₁.trans h₂).trans h₃⟩
  simp [Messages.getPosition, getByte, hx, Option.bind_some, hy, hz]

theorem setBufferPosition_inside (pos : Nat) : Inside m (setBufferPosition m pos).2 := by
  unfold setBufferPosition
  split
  · rename_i hpos
    refine ⟨Eq.refl _, fun _ => (Nat.mod_le _ _).trans ?_⟩
    omega
  · exact .rfl

theorem getPreviousByte_isSome (hsize : m.buffer.length = NETWORKMESSAGE_MAXSIZE) :
    (getPreviousByte m).isSome = true ↔ m.position ≤ NETWORKMESSAGE_MAXSIZE := by
  unfold getPreviousByte
  grind [Option.isSome_map, peek_isSome]

theorem getPreviousByte_inside {value : Nat} (h : getPreviousByte m = some (value, m')) : Inside m m' := by
  unfold getPreviousByte at h
  split at h
  · cases h
    exact inside_overrun
  · obtain ⟨bytes, -, hm'⟩ := Option.map_eq_some_iff.mp h
    cases hm'
    exact ⟨Eq.refl _, fun hm => (Nat.sub_le _ _).trans hm⟩

theorem Call.step_isSome (hs : simdutf.Documented) (hsize : m.buffer.length = NETWORKMESSAGE_MAXSIZE) (c : Call) :
    (c.step simdutf m).isSome = true ↔ (c = .getPreviousByte → m.position ≤ NETWORKMESSAGE_MAXSIZE) := by
  cases c with
  | getByte =>
    obtain ⟨value, m', hget, -⟩ := get_inside hsize 1
    simp [Call.step, Messages.getByte, hget]
  | getPreviousByte => simp [Call.step, getPreviousByte_isSome hsize]
  | get n =>
    obtain ⟨value, m', hget, -⟩ := get_inside hsize n
    simp [Call.step, hget]
  | getString stringLen =>
    obtain ⟨value, m', hget, -⟩ := getString_inside hs hsize stringLen.toNat
    simp [Call.step, hget]
  | getPosition =>
    obtain ⟨value, m', hget, -⟩ := getPosition_inside hsize
    simp [Call.step, hget]
  | skipBytes count => simp [Call.step]
  | setBufferPosition pos => simp [Call.step]

theorem Call.step_buffer (hs : simdutf.Documented) (hsize : m.buffer.length = NETWORKMESSAGE_MAXSIZE) {c : Call}
    (h : c.step simdutf m = some m') : (∃ count, c = .skipBytes count ∧ m'.buffer = m.buffer) ∨ Inside m m' := by
  cases c with
  | getByte =>
    obtain ⟨value, n, hget, hn⟩ := get_inside hsize 1
    grind [Call.step, Messages.getByte]
  | getPreviousByte =>
    obtain ⟨⟨value, n⟩, hget, hm'⟩ := Option.map_eq_some_iff.mp h
    cases hm'
    exact .inr (getPreviousByte_inside hget)
  | get n =>
    obtain ⟨value, n, hget, hn⟩ := get_inside hsize n
    grind [Call.step]
  | getString stringLen =>
    obtain ⟨value, n, hget, hn⟩ := getString_inside hs hsize stringLen.toNat
    grind [Call.step]
  | getPosition =>
    obtain ⟨value, n, hget, hn⟩ := getPosition_inside hsize
    grind [Call.step]
  | skipBytes count =>
    cases h
    exact .inl ⟨count, Eq.refl _, Eq.refl _⟩
  | setBufferPosition pos =>
    cases h
    exact .inr (setBufferPosition_inside pos.toNat)

/-- No call reads outside the buffer exactly when none steps back from beyond its end. -/
theorem reads_inside_iff (hs : simdutf.Documented) (hsize : m.buffer.length = NETWORKMESSAGE_MAXSIZE) (calls : List Call) :
    (run simdutf calls m).isSome = true ↔ Guarded simdutf calls m := by
  induction calls generalizing m with
  | nil => exact iff_of_true (Eq.refl _) trivial
  | cons c cs ih =>
    have hstep := c.step_isSome hs hsize
    rw [run, Guarded]
    cases hc : c.step simdutf m with
    | none =>
      rw [hc] at hstep
      refine iff_of_false Bool.false_ne_true fun hguarded => ?_
      exact Bool.false_ne_true (hstep.mpr hguarded.1)
    | some n =>
      rw [hc] at hstep
      have hn : n.buffer.length = NETWORKMESSAGE_MAXSIZE := by
        rcases c.step_buffer hs hsize hc with ⟨-, -, hbuffer⟩ | hinside
        · rw [hbuffer, hsize]
        · exact hinside.size hsize
      rw [Option.bind_some, ih hn]
      grind

/-- A string, a step on and one back. -/
theorem step_back_inside :
    (run scalar [.getString 0, .skipBytes 2, .getPreviousByte] { length := 20 }).isSome = true ↔
      Guarded scalar [.getString 0, .skipBytes 2, .getPreviousByte] { length := 20 } :=
  reads_inside_iff scalar_documented length_replicate _

/-- Ten bytes back from the start of the body, and one more. -/
theorem previous_byte_outside : run scalar [.skipBytes (-10), .getPreviousByte] { length := 20 } = none := by
  have hskip : (Call.skipBytes (-10)).step scalar { length := 20 } = some { length := 20, position := 65534 } := rfl
  have hprevious : Call.getPreviousByte.step scalar { length := 20, position := 65534 } = none := by
    rw [← Option.not_isSome_iff_eq_none, Call.step, Option.isSome_map, getPreviousByte_isSome length_replicate]
    decide
  rw [run, hskip, Option.bind_some, run, hprevious, Option.bind_none]

end Backlands.Net.Messages
