/-
  Backlands.Net.Framing — a message on its way from one end of a connection to the other
  (src/protocol.cpp, outputmessage.h, networkmessage.cpp, connection.cpp).

  The sender puts the length in front of the body, pads, enciphers, and puts the checksum and
  the outer length in front of that; the receiver checks the outer length, the checksum, and
  deciphers. Reading or writing outside a buffer is no result at all (`none`). Numbers lie in
  memory with the low byte first. The connection is past its first message, and its limit of
  packets is not reached.

  `addPaddingBytes` adds nothing when a message would come too close to the end of its buffer.
  Proved: `framing_round_trip`. Counterexample: `longest_body_dropped`.
-/

import Backlands.Net.Xtea

namespace Backlands.Net.Framing

open Backlands.Lib List Xtea
open Xtea (RoundKeys encryptAt decryptAt)

def NETWORKMESSAGE_MAXSIZE : Nat := 65500

def INITIAL_BUFFER_POSITION : Nat := 8

def HEADER_LENGTH : Nat := 2

def CHECKSUM_LENGTH : Nat := 4

def XTEA_MULTIPLE : Nat := 8

def MAX_BODY_LENGTH : Nat := NETWORKMESSAGE_MAXSIZE - HEADER_LENGTH - CHECKSUM_LENGTH - XTEA_MULTIPLE

def MAX_PROTOCOL_BODY_LENGTH : Nat := MAX_BODY_LENGTH - 10

def MAX_STRING_LENGTH : Nat := 8192

/-- What a `MsgSize_t` keeps. -/
def u16 (n : Nat) : Nat := n % 2 ^ 16

/-! ## Checksums (src/tools.cpp) -/

def adlerStep (s : UInt32 × UInt32) (byte : UInt8) : UInt32 × UInt32 :=
  let a := s.1 + byte.toUInt32
  (a, s.2 + a)

/-- The outer loop: 5552 bytes, then the two remainders. -/
def adlerLoop : Nat → Bytes → UInt32 × UInt32 → UInt32 × UInt32
  | 0, _, s => s
  | fuel + 1, data, s =>
    if data.length = 0 then s
    else
      let t := (data.take 5552).foldl adlerStep s
      adlerLoop fuel (data.drop 5552) (t.1 % 65521, t.2 % 65521)

def adlerChecksum (data : Bytes) : UInt32 :=
  let s := adlerLoop data.length data (1, 0)
  s.2 <<< 16 ||| s.1

def adlerAt (buffer : Bytes) (start length : Nat) : Option UInt32 :=
  if length > NETWORKMESSAGE_MAXSIZE then some 0 else (peek buffer start length).map adlerChecksum

/-! ## Messages -/

structure NetworkMessage where
  length : Nat := 0
  position : Nat := INITIAL_BUFFER_POSITION
  overrun : Bool := false
  buffer : Bytes := List.replicate NETWORKMESSAGE_MAXSIZE 0

namespace NetworkMessage

variable (m : NetworkMessage)

def canAdd (size : Nat) : Bool := decide (size + m.position < MAX_BODY_LENGTH)

def canRead (size : Nat) : Bool :=
  decide (m.position + size ≤ m.length + 8) && decide ((size : Int) < NETWORKMESSAGE_MAXSIZE - m.position)

/-- `memcpy` to the position, which moves on. -/
def put (bytes : Bytes) : Option NetworkMessage :=
  (poke m.buffer m.position bytes).map fun buffer =>
    { m with buffer, position := u16 (m.position + bytes.length), length := u16 (m.length + bytes.length) }

/-- `addByte` and `add<T>` -/
def add (bytes : Bytes) : Option NetworkMessage := if !m.canAdd bytes.length then some m else m.put bytes

def addBytes (bytes : Bytes) : Option NetworkMessage :=
  if !m.canAdd bytes.length || decide (bytes.length > 8192) then some m else m.put bytes

/-- `addString`; what the conversion leaves in the buffer is `value`, also when it fails. -/
def addString (value : Bytes) (converts : Bool) : Option NetworkMessage :=
  if !m.canAdd 2 then some m
  else if decide (value.length > MAX_STRING_LENGTH) || !m.canAdd (value.length + 2) then m.add (le 2 0)
  else (m.add (le 2 value.length)).bind fun n => (n.put value).bind fun n =>
    if converts then some n else ({ n with position := m.position, length := m.length } : NetworkMessage).add (le 2 0)

def addPaddingBytes (n : Nat) : Option NetworkMessage :=
  if !m.canAdd n then some m
  else (poke m.buffer m.position (List.replicate n 0x33)).map fun buffer => { m with buffer, length := u16 (m.length + n) }

/-- `get<T>` of `n` bytes -/
def get (n : Nat) : Option (Nat × NetworkMessage) :=
  if !m.canRead n then some (0, { m with overrun := true })
  else (peek m.buffer m.position n).map fun bytes => (unle bytes, { m with position := u16 (m.position + n) })

def skipBytes (count : Int) : NetworkMessage := { m with position := ((m.position + count) % 2 ^ 16).toNat }

/-- What has been written. -/
def body : Bytes := (m.buffer.drop INITIAL_BUFFER_POSITION).take m.length

/-- What is left to be read. -/
def unread : Bytes := (m.buffer.drop m.position).take (m.length + 8 - m.position)

end NetworkMessage

structure OutputMessage extends NetworkMessage where
  outputBufferStart : Nat := INITIAL_BUFFER_POSITION

namespace OutputMessage

variable (m : OutputMessage)

def add_header (bytes : Bytes) : Option OutputMessage :=
  if m.outputBufferStart < bytes.length then some m
  else (poke m.buffer (m.outputBufferStart - bytes.length) bytes).map fun buffer =>
    { m with buffer, outputBufferStart := m.outputBufferStart - bytes.length, length := u16 (m.length + bytes.length) }

def writeMessageLength : Option OutputMessage := m.add_header (le 2 m.length)

def addCryptoHeader (addChecksum : Bool) : Option OutputMessage :=
  (if addChecksum then
    (adlerAt m.buffer m.outputBufferStart m.length).bind fun checksum => m.add_header (le 4 checksum.toNat)
  else some m).bind writeMessageLength

def append (msg : NetworkMessage) : Option OutputMessage :=
  if m.position + msg.length > m.buffer.length then some m
  else (peek msg.buffer 8 msg.length).bind fun bytes =>
    (m.put bytes).map fun n => { m with toNetworkMessage := n }

def frame : Option Bytes := peek m.buffer m.outputBufferStart m.length

end OutputMessage

/-! ## The sender -/

structure Protocol where
  key : RoundKeys
  encryptionEnabled : Bool := false
  checksumEnabled : Bool := true
  rawMessages : Bool := false

/-- "The message must be a multiple of 8" -/
def pad (m : OutputMessage) : Option OutputMessage :=
  if m.length % 8 ≠ 0 then (m.addPaddingBytes (8 - m.length % 8)).map fun n => { m with toNetworkMessage := n } else some m

def XTEA_encrypt (key : RoundKeys) (m : OutputMessage) : Option OutputMessage :=
  (pad m).bind fun m => (encryptAt key m.buffer m.outputBufferStart m.length).map fun buffer => { m with buffer }

def Protocol.onSendMessage (p : Protocol) (m : OutputMessage) : Option OutputMessage :=
  if p.rawMessages then some m
  else m.writeMessageLength.bind fun m =>
    if p.encryptionEnabled then (XTEA_encrypt p.key m).bind fun m => m.addCryptoHeader p.checksumEnabled else some m

/-- The message that is sent first, and the buffer to write to. -/
def getOutputBuffer (outputBuffer : Option OutputMessage) (size : Nat) : Option OutputMessage × OutputMessage :=
  match outputBuffer with
  | none => (none, {})
  | some buffer => if buffer.length + size > MAX_PROTOCOL_BODY_LENGTH then (some buffer, {}) else (none, buffer)

def writeToOutputBuffer (outputBuffer : Option OutputMessage) (msg : NetworkMessage) : Option OutputMessage :=
  (getOutputBuffer outputBuffer msg.length).2.append msg

/-! ## The receiver -/

inductive Received
  /-- More bytes have to come. -/
  | waiting
  | closed
  | dropped
  /-- The protocol gets a message; the rest of the stream is still to be read. -/
  | parsed (msg : NetworkMessage) (rest : Bytes)

/-- `none` in the result is the answer false. -/
def XTEA_decrypt (key : RoundKeys) (m : NetworkMessage) : Option (Option NetworkMessage) :=
  if ((m.length : Int) - 6) % 8 ≠ 0 then some none
  else (decryptAt key m.buffer m.position (m.length - 6)).bind fun buffer =>
    (NetworkMessage.get { m with buffer } 2).map fun r =>
      if r.1 + 8 > r.2.length then none else some { r.2 with length := r.1 }

def Protocol.onRecvMessage (p : Protocol) (m : NetworkMessage) (rest : Bytes) : Option Received :=
  if p.encryptionEnabled then
    (XTEA_decrypt p.key m).map fun
      | none => .dropped
      | some m => .parsed m rest
  else some (.parsed m rest)

def parsePacket (p : Protocol) (m : NetworkMessage) (rest : Bytes) : Option Received :=
  let len : Int := m.length - m.position - CHECKSUM_LENGTH
  (if len > 0 then adlerAt m.buffer (m.position + CHECKSUM_LENGTH) len.toNat else some 0).bind fun checksum =>
    (m.get 4).bind fun r =>
      -- "it might not have been the checksum, step back"
      let m := if r.1 ≠ checksum.toNat then r.2.skipBytes (-CHECKSUM_LENGTH) else r.2
      p.onRecvMessage m rest

def parseHeader (p : Protocol) (m : NetworkMessage) (stream : Bytes) : Option Received :=
  if stream.length < HEADER_LENGTH then some .waiting
  else (poke m.buffer 0 (stream.take 2)).bind fun buffer =>
    let size := unle (buffer.take 2)
    if size = 0 ∨ size ≥ NETWORKMESSAGE_MAXSIZE - 16 then some .closed
    else if (stream.drop 2).length < size then some .waiting
    else (poke buffer 2 ((stream.drop 2).take size)).bind fun buffer =>
      parsePacket p { m with buffer, position := 2, length := u16 (size + HEADER_LENGTH) } ((stream.drop 2).drop size)

/-! ## The messages there are -/

/-- One of the functions that write, done. -/
inductive Writes (m : NetworkMessage) : NetworkMessage → Prop
  | add {m' : NetworkMessage} (bytes : Bytes) : m.add bytes = some m' → Writes m m'
  | addBytes {m' : NetworkMessage} (bytes : Bytes) : m.addBytes bytes = some m' → Writes m m'
  | addString {m' : NetworkMessage} (value : Bytes) (converts : Bool) : m.addString value converts = some m' → Writes m m'

inductive Written : NetworkMessage → Prop
  | new : Written {}
  | write {m m' : NetworkMessage} : Written m → Writes m m' → Written m'

/-- The messages that may be sent: written to directly, or by a protocol to its buffer. -/
inductive Accepted : OutputMessage → Prop
  | new : Accepted {}
  | write {m : OutputMessage} {m' : NetworkMessage} : Accepted m → Writes m.toNetworkMessage m' →
      Accepted { m with toNetworkMessage := m' }
  | buffered {outputBuffer : Option OutputMessage} {msg : NetworkMessage} {m' : OutputMessage} :
      (∀ m ∈ outputBuffer, Accepted m) → Written msg → writeToOutputBuffer outputBuffer msg = some m' → Accepted m'

def encrypted (key : RoundKeys) : Protocol := { key, encryptionEnabled := true }

/-- A message arrives as it was sent, in whole blocks. -/
def RoundTrip (key : RoundKeys) (m : OutputMessage) (r : NetworkMessage) : Prop :=
  ∃ sent frame msg, (encrypted key).onSendMessage m = some sent ∧ sent.frame = some frame ∧ 8 ∣ (frame.drop 6).length ∧
    parseHeader (encrypted key) r frame = some (.parsed msg []) ∧ msg.unread = m.body

/-! ## What is accepted -/

/-- A message with its body behind the eight bytes for the headers, and room for what follows. -/
structure Laid (m : NetworkMessage) : Prop where
  size : m.buffer.length = NETWORKMESSAGE_MAXSIZE
  position : m.position = m.length + 8
  length : m.length ≤ 65477

theorem Laid.new : Laid {} := ⟨length_replicate, rfl, by decide⟩

theorem Laid.put {m m' : NetworkMessage} {bytes : Bytes} (h : Laid m) (hfits : m.length + bytes.length ≤ 65477)
    (hput : m.put bytes = some m') : Laid m' ∧ m'.length = m.length + bytes.length := by
  obtain ⟨buffer, hpoke, rfl⟩ := Option.map_eq_some_iff.mp hput
  have hpos := h.position
  have hlen : u16 (m.length + bytes.length) = m.length + bytes.length := by
    unfold u16
    omega
  refine ⟨⟨(length_poke hpoke).trans h.size, ?_, hlen.le.trans hfits⟩, hlen⟩
  show u16 (m.position + bytes.length) = u16 (m.length + bytes.length) + 8
  unfold u16
  omega

theorem fits_of_canAdd {m : NetworkMessage} {n : Nat} (h : Laid m) (hc : m.canAdd n = true) : m.length + n ≤ 65477 := by
  have hpos := h.position
  have hlt : n + m.position < MAX_BODY_LENGTH := of_decide_eq_true hc
  simp only [MAX_BODY_LENGTH, NETWORKMESSAGE_MAXSIZE, HEADER_LENGTH, CHECKSUM_LENGTH, XTEA_MULTIPLE] at hlt
  omega

theorem Laid.add {m m' : NetworkMessage} {bytes : Bytes} (h : Laid m) (hadd : m.add bytes = some m') : Laid m' := by
  unfold NetworkMessage.add at hadd
  split at hadd
  · cases hadd
    exact h
  · rename_i hc
    exact (h.put (fits_of_canAdd h (by simpa using hc)) hadd).1

theorem Laid.writes {m m' : NetworkMessage} (h : Laid m) (hw : Writes m m') : Laid m' := by
  cases hw with
  | add bytes hadd => exact h.add hadd
  | addBytes bytes hadd =>
    unfold NetworkMessage.addBytes at hadd
    split at hadd
    · cases hadd
      exact h
    · rename_i hc
      simp only [Bool.or_eq_true, not_or, Bool.not_eq_true', Bool.not_eq_false] at hc
      exact (h.put (fits_of_canAdd h hc.1) hadd).1
  | addString value converts hadd =>
    unfold NetworkMessage.addString at hadd
    split at hadd
    · cases hadd
      exact h
    split at hadd
    · exact h.add hadd
    rename_i hc hcan
    simp only [Bool.or_eq_true, not_or, Bool.not_eq_true', Bool.not_eq_false] at hc hcan
    have hfits := fits_of_canAdd h hcan.2
    obtain ⟨n, hn, hrest⟩ := Option.bind_eq_some_iff.mp hadd
    obtain ⟨n', hn', hlast⟩ := Option.bind_eq_some_iff.mp hrest
    have hput : m.put (le 2 value.length) = some n := by
      rw [NetworkMessage.add, length_le, hc, Bool.not_true, if_neg Bool.false_ne_true] at hn
      exact hn
    obtain ⟨hlaid, hlen⟩ := h.put (by rw [length_le]; omega) hput
    rw [length_le] at hlen
    obtain ⟨hlaid', -⟩ := hlaid.put (by omega) hn'
    split at hlast
    · cases hlast
      exact hlaid'
    refine Laid.add ⟨?_, ?_, ?_⟩ hlast
    · exact hlaid'.size
    · exact h.position
    · exact h.length

theorem Laid.written {m : NetworkMessage} (h : Written m) : Laid m := by
  induction h with
  | new => exact .new
  | write _ hw ih => exact ih.writes hw

theorem Laid.append {m m' : OutputMessage} {msg : NetworkMessage} (h : Laid m.toNetworkMessage)
    (hfits : m.length + msg.length ≤ 65477) (happend : m.append msg = some m') :
    Laid m'.toNetworkMessage ∧ m'.outputBufferStart = m.outputBufferStart := by
  unfold OutputMessage.append at happend
  split at happend
  · cases happend
    exact ⟨h, rfl⟩
  · obtain ⟨bytes, hpeek, hrest⟩ := Option.bind_eq_some_iff.mp happend
    obtain ⟨n, hput, rfl⟩ := Option.map_eq_some_iff.mp hrest
    exact ⟨(h.put (by rw [length_peek hpeek]; exact hfits) hput).1, rfl⟩

theorem laid_of_accepted {m : OutputMessage} (h : Accepted m) : Laid m.toNetworkMessage ∧ m.outputBufferStart = 8 := by
  induction h with
  | new => exact ⟨.new, rfl⟩
  | write _ hw ih => exact ⟨ih.1.writes hw, ih.2⟩
  | @buffered outputBuffer msg m' _ hmsg hwrite ih =>
    have hlaid := Laid.written hmsg
    have hfresh : ∀ {m' : OutputMessage}, (({} : OutputMessage).append msg = some m') →
        Laid m'.toNetworkMessage ∧ m'.outputBufferStart = 8 := fun hap =>
      Laid.append .new (by have := hlaid.length; show 0 + _ ≤ _; omega) hap
    unfold writeToOutputBuffer getOutputBuffer at hwrite
    cases outputBuffer with
    | none => exact hfresh hwrite
    | some buffer =>
      obtain ⟨hbuffer, hstart⟩ := ih buffer rfl
      dsimp only at hwrite
      split at hwrite
      · exact hfresh hwrite
      rename_i hfits
      simp only [MAX_PROTOCOL_BODY_LENGTH, MAX_BODY_LENGTH, NETWORKMESSAGE_MAXSIZE, HEADER_LENGTH, CHECKSUM_LENGTH,
        XTEA_MULTIPLE] at hfits
      obtain ⟨hm, hs⟩ := hbuffer.append (by omega) hwrite
      exact ⟨hm, hs.trans hstart⟩

/-! ## What is sent -/

section
variable {m : OutputMessage} (h : Laid m.toNetworkMessage) (hstart : m.outputBufferStart = 8)
include h

theorem length_body : m.body.length = m.length := by
  have hsize := h.size
  have hlen := h.length
  simp only [NETWORKMESSAGE_MAXSIZE] at hsize
  simp only [NetworkMessage.body, INITIAL_BUFFER_POSITION, length_take, length_drop]
  omega

/-- The buffer: room for the outer length and the checksum, room for the length, the body, what follows. -/
theorem exists_pieces : ∃ outer inner tail, m.buffer = outer ++ inner ++ (m.body ++ tail) ∧ outer.length = 6 ∧
    inner.length = 2 ∧ tail.length + m.length + 8 = NETWORKMESSAGE_MAXSIZE := by
  have hsize := h.size
  have hlen := h.length
  refine ⟨m.buffer.take 6, (m.buffer.drop 6).take 2, m.buffer.drop (8 + m.length), ?_, ?_, ?_, ?_⟩
  · have hbody : m.body ++ m.buffer.drop (8 + m.length) = m.buffer.drop 8 := by
      rw [← drop_drop]
      exact take_append_drop _ _
    rw [hbody, append_assoc, show m.buffer.drop 8 = (m.buffer.drop 6).drop 2 by rw [drop_drop],
      take_append_drop, take_append_drop]
  · rw [length_take]
    simp only [NETWORKMESSAGE_MAXSIZE] at hsize
    omega
  · rw [length_take, length_drop]
    simp only [NETWORKMESSAGE_MAXSIZE] at hsize
    omega
  · rw [length_drop]
    simp only [NETWORKMESSAGE_MAXSIZE] at hsize ⊢
    omega

end

/-- How long the part to be enciphered gets: its padding is left out near the end of the buffer. -/
def paddedLength (length : Nat) : Nat := if length ≤ 65472 then 8 * blocks length else length

theorem pad_spec {n : OutputMessage} {front tail : Bytes} (hbuffer : n.buffer = front ++ tail) (hfront : front.length = n.position)
    (hposition : n.position = n.length + 6) (hlength : n.length ≤ 65479) (htail : tail.length + n.position = 65500) :
    ∃ n' fill rest, pad n = some n' ∧ n'.buffer = front ++ fill ++ rest ∧
      fill.length = 8 * blocks n.length - n.length ∧ n'.outputBufferStart = n.outputBufferStart ∧
      n'.length = paddedLength n.length := by
  have hroom : 8 * blocks n.length - n.length ≤ tail.length := by
    simp only [blocks]
    omega
  have hcut : n.buffer = front ++ tail.take (8 * blocks n.length - n.length) ++
      tail.drop (8 * blocks n.length - n.length) := by
    rw [append_assoc, take_append_drop, hbuffer]
  have hfill : (tail.take (8 * blocks n.length - n.length)).length = 8 * blocks n.length - n.length :=
    length_take_of_le hroom
  by_cases hmod : n.length % 8 = 0
  · refine ⟨n, _, _, by rw [pad, if_neg (by simpa using hmod)], hcut, hfill, rfl, ?_⟩
    rw [paddedLength, if_pos (by omega), blocks]
    omega
  have hmissing : 8 - n.length % 8 = 8 * blocks n.length - n.length := by
    simp only [blocks]
    omega
  by_cases hshort : n.length ≤ 65472
  · have hcan : n.canAdd (8 - n.length % 8) = true := by
      refine decide_eq_true ?_
      simp only [MAX_BODY_LENGTH, NETWORKMESSAGE_MAXSIZE, HEADER_LENGTH, CHECKSUM_LENGTH, XTEA_MULTIPLE]
      omega
    have hpoke := poke_segment (c := tail.drop (8 * blocks n.length - n.length)) hfront
      (hfill.trans (hmissing.symm.trans (length_replicate (a := (0x33 : UInt8))).symm))
    refine ⟨{ n with
      buffer := front ++ List.replicate (8 - n.length % 8) 0x33 ++ tail.drop (8 * blocks n.length - n.length)
      length := u16 (n.length + (8 - n.length % 8)) }, _, _, ?_, rfl, ?_, rfl, ?_⟩
    · rw [pad, if_pos (by simpa using hmod), NetworkMessage.addPaddingBytes, hcan, Bool.not_true,
        if_neg Bool.false_ne_true, hcut, hpoke]
      rfl
    · rw [length_replicate, hmissing]
    · show u16 _ = _
      rw [paddedLength, if_pos hshort, u16, blocks]
      omega
  · have hcan : n.canAdd (8 - n.length % 8) = false := by
      refine decide_eq_false ?_
      simp only [MAX_BODY_LENGTH, NETWORKMESSAGE_MAXSIZE, HEADER_LENGTH, CHECKSUM_LENGTH, XTEA_MULTIPLE]
      omega
    refine ⟨n, _, _, ?_, hcut, hfill, rfl, ?_⟩
    · rw [pad, if_pos (by simpa using hmod), NetworkMessage.addPaddingBytes, hcan]
      rfl
    · rw [paddedLength, if_neg hshort]

/-- Outer length and checksum, in front of a cipher text. -/
def framed (cipher : Bytes) : Bytes := le 2 (cipher.length + 4) ++ (le 4 (adlerChecksum cipher).toNat ++ cipher)

theorem length_framed (cipher : Bytes) : (framed cipher).length = cipher.length + 6 := by
  rw [framed, length_append, length_append, length_le, length_le]
  omega

theorem seal_spec (key : RoundKeys) {n : OutputMessage} {outer text rest : Bytes} (hbuffer : n.buffer = outer ++ text ++ rest)
    (houter : outer.length = 6) (htext : text.length = 8 * blocks n.length) (hstart : n.outputBufferStart = 6)
    (hlength : n.length ≤ 65480) :
    ∃ sent, ((encryptAt key n.buffer n.outputBufferStart n.length).map fun buffer => { n with buffer }).bind
        (fun m => m.addCryptoHeader true) = some sent ∧
      sent.frame = some (framed ((encrypt key (blocks n.length) text).take n.length)) := by
  have hE : (encrypt key (blocks n.length) text).length = 8 * blocks n.length :=
    (length_encrypt key htext.ge).trans htext
  generalize hcipher : (encrypt key (blocks n.length) text).take n.length = cipher
  generalize hover : (encrypt key (blocks n.length) text).drop n.length = spare
  have hsplit : encrypt key (blocks n.length) text = cipher ++ spare := by
    rw [← hcipher, ← hover, take_append_drop]
  have hlen : cipher.length = n.length := by
    rw [← hcipher, length_take, hE, blocks]
    omega
  obtain ⟨a, b, hab, ha, hb⟩ : ∃ a b, outer = a ++ b ∧ a.length = 2 ∧ b.length = 4 :=
    ⟨outer.take 2, outer.drop 2, (take_append_drop 2 outer).symm, by rw [length_take, houter]; rfl,
      by rw [length_drop, houter]⟩
  -- enciphered where it is
  rw [hbuffer, hstart, encryptAt_segment key houter htext, hsplit, Option.map_some, Option.bind_some]
  have hadler : adlerAt (outer ++ (cipher ++ spare) ++ rest) 6 n.length = some (adlerChecksum cipher) := by
    rw [adlerAt, if_neg (by simp only [NETWORKMESSAGE_MAXSIZE]; omega),
      show outer ++ (cipher ++ spare) ++ rest = outer ++ cipher ++ (spare ++ rest) by simp only [append_assoc],
      peek_segment houter hlen, Option.map_some]
  have hpoke : poke (outer ++ (cipher ++ spare) ++ rest) 2 (le 4 (adlerChecksum cipher).toNat) =
      some (a ++ le 4 (adlerChecksum cipher).toNat ++ (cipher ++ spare ++ rest)) := by
    rw [hab, show a ++ b ++ (cipher ++ spare) ++ rest = a ++ b ++ (cipher ++ spare ++ rest) by simp only [append_assoc]]
    exact poke_segment ha (by rw [hb, length_le])
  have hsum : u16 (n.length + 4) = n.length + 4 := by
    unfold u16
    omega
  have hsum' : u16 (n.length + 4 + 2) = n.length + 6 := by
    unfold u16
    omega
  have hpoke' : poke (a ++ le 4 (adlerChecksum cipher).toNat ++ (cipher ++ spare ++ rest)) 0 (le 2 (n.length + 4)) =
      some ([] ++ le 2 (n.length + 4) ++ (le 4 (adlerChecksum cipher).toNat ++ (cipher ++ spare ++ rest))) := by
    rw [append_assoc]
    exact poke_segment (a := []) rfl (by rw [ha, length_le])
  refine ⟨{ n with
    buffer := [] ++ le 2 (n.length + 4) ++ (le 4 (adlerChecksum cipher).toNat ++ (cipher ++ spare ++ rest))
    outputBufferStart := 0
    length := n.length + 6 }, ?_, ?_⟩
  · simp only [OutputMessage.addCryptoHeader, if_true, hadler, Option.bind_some, OutputMessage.add_header, length_le,
      show ¬(6 : Nat) < 4 by omega, if_false, hpoke, Option.map_some, hsum, OutputMessage.writeMessageLength,
      show ¬(6 - 4 : Nat) < 2 by omega, show 6 - 4 = 2 from rfl, show 2 - 2 = 0 from rfl, hpoke', hsum']
  have hframe : [] ++ le 2 (n.length + 4) ++ (le 4 (adlerChecksum cipher).toNat ++ (cipher ++ spare ++ rest)) =
      [] ++ framed cipher ++ (spare ++ rest) := by
    rw [framed, hlen]
    simp only [append_assoc, nil_append]
  rw [hframe]
  exact peek_segment (a := []) rfl (by rw [length_framed, hlen])

/-- What a message becomes on its way out. -/
structure Sealed (key : RoundKeys) (m : OutputMessage) (text cipher : Bytes) : Prop where
  starts : ∃ fill, text = le 2 m.length ++ (m.body ++ fill)
  length : text.length = 8 * blocks (m.length + 2)
  cipher : cipher = (encrypt key (blocks (m.length + 2)) text).take (paddedLength (m.length + 2))

theorem onSendMessage_spec (key : RoundKeys) {m : OutputMessage} (h : Laid m.toNetworkMessage)
    (hstart : m.outputBufferStart = 8) :
    ∃ sent text cipher, (encrypted key).onSendMessage m = some sent ∧ sent.frame = some (framed cipher) ∧
      Sealed key m text cipher := by
  obtain ⟨outer, inner, tail, hbuffer, houter, hinner, htail⟩ := exists_pieces h
  have hlen := h.length
  have hbody := length_body h
  have hpos := h.position
  have hsum : u16 (m.length + 2) = m.length + 2 := by
    unfold u16
    omega
  have hhead : m.writeMessageLength = some { m with
      buffer := outer ++ le 2 m.length ++ (m.body ++ tail), outputBufferStart := 6, length := m.length + 2 } := by
    rw [OutputMessage.writeMessageLength, OutputMessage.add_header, length_le, if_neg (by omega), hstart, hbuffer,
      poke_segment houter (by rw [length_le, hinner]), Option.map_some, hsum]
  obtain ⟨n, fill, rest, hpad, hbuffer', hfill, hstart', hlength⟩ := @pad_spec
    { m with buffer := outer ++ le 2 m.length ++ (m.body ++ tail), outputBufferStart := 6, length := m.length + 2 }
    (outer ++ (le 2 m.length ++ m.body)) tail (by simp only [append_assoc])
    (by rw [length_append, length_append, length_le, houter, hbody, hpos]; omega) (by show m.position = _; omega)
    (by show m.length + 2 ≤ _; omega) (by simp only [NETWORKMESSAGE_MAXSIZE] at htail; show _ + m.position = _; omega)
  have hblocks : blocks n.length = blocks (m.length + 2) := by
    rw [hlength]
    simp only [paddedLength, blocks]
    split <;> omega
  have htext : (le 2 m.length ++ (m.body ++ fill)).length = 8 * blocks (m.length + 2) := by
    rw [length_append, length_append, length_le, hbody, hfill]
    simp only [blocks]
    omega
  obtain ⟨sent, hseal, hframe⟩ := @seal_spec key n outer (le 2 m.length ++ (m.body ++ fill)) rest
    (by rw [hbuffer']; simp only [append_assoc]) houter (htext.trans (by rw [hblocks])) hstart'
    (by
      rw [hlength]
      simp only [paddedLength, blocks]
      split <;> omega)
  rw [hblocks, hlength] at hframe
  refine ⟨sent, _, _, ?_, hframe, ⟨fill, rfl⟩, htext, rfl⟩
  rw [Protocol.onSendMessage, encrypted, if_neg (by simp), hhead, Option.bind_some, if_pos rfl, XTEA_encrypt, hpad,
    Option.bind_some]
  exact hseal

/-! ## What is received -/

theorem parsePacket_framed {key : RoundKeys} {r : NetworkMessage} {cipher rest : Bytes} (hpos : 0 < cipher.length)
    (hmax : cipher.length ≤ 65479) :
    parsePacket (encrypted key) { r with
        buffer := le 2 (cipher.length + 4) ++ (le 4 (adlerChecksum cipher).toNat ++ cipher) ++ rest
        position := 2
        length := cipher.length + 6 } [] =
      (encrypted key).onRecvMessage { r with
        buffer := le 2 (cipher.length + 4) ++ le 4 (adlerChecksum cipher).toNat ++ cipher ++ rest
        position := 6
        length := cipher.length + 6 } [] := by
  have hchecked : adlerAt (le 2 (cipher.length + 4) ++ (le 4 (adlerChecksum cipher).toNat ++ cipher) ++ rest) (2 + CHECKSUM_LENGTH)
      cipher.length = some (adlerChecksum cipher) := by
    rw [adlerAt, if_neg (by simp only [NETWORKMESSAGE_MAXSIZE]; omega), ← append_assoc,
      peek_segment (by rw [length_append, length_le, length_le]; rfl) rfl, Option.map_some]
  have hlen : (((cipher.length + 6 : Nat) : Int) - ((2 : Nat) : Int) - (CHECKSUM_LENGTH : Int)) = cipher.length := by
    simp only [CHECKSUM_LENGTH]
    omega
  have hread : peek (le 2 (cipher.length + 4) ++ (le 4 (adlerChecksum cipher).toNat ++ cipher) ++ rest) 2 4 =
      some (le 4 (adlerChecksum cipher).toNat) := by
    exact peek_segment (length_le 2 _) (length_le 4 _)
  have hvalue : unle (le 4 (adlerChecksum cipher).toNat) = (adlerChecksum cipher).toNat :=
    unle_le_of_lt (adlerChecksum cipher).toNat_lt
  have hcan : ∀ m : NetworkMessage, m.position = 2 → m.length = cipher.length + 6 → m.canRead 4 = true := by
    intro m hm hl
    refine Bool.and_eq_true_iff.mpr ⟨decide_eq_true (by omega), decide_eq_true ?_⟩
    simp only [NETWORKMESSAGE_MAXSIZE]
    omega
  rw [parsePacket]
  rw [hlen, if_pos (by omega), Int.toNat_natCast, hchecked, Option.bind_some, NetworkMessage.get, hcan _ rfl rfl, Bool.not_true,
    if_neg Bool.false_ne_true, hread, Option.map_some, Option.bind_some, hvalue]
  simp only [ne_eq, not_true_eq_false, if_false, append_assoc]
  rfl

section
variable {key : RoundKeys} {r : NetworkMessage} (hr : r.buffer.length = NETWORKMESSAGE_MAXSIZE) {cipher : Bytes}
include hr

theorem parseHeader_framed (hpos : 0 < cipher.length) (hmax : cipher.length ≤ 65479) :
    ∃ rest, cipher.length + 6 + rest.length = NETWORKMESSAGE_MAXSIZE ∧ parseHeader (encrypted key) r (framed cipher) =
      (encrypted key).onRecvMessage { r with
        buffer := le 2 (cipher.length + 4) ++ le 4 (adlerChecksum cipher).toNat ++ cipher ++ rest
        position := 6
        length := cipher.length + 6 } [] := by
  simp only [NETWORKMESSAGE_MAXSIZE] at hr
  obtain ⟨a, b, rest, hbuffer, ha, hb⟩ := exists_segments (m := r.buffer) (i := 2) (n := cipher.length + 4) (by omega)
  have htotal := congrArg List.length hbuffer
  rw [length_append, length_append, ha, hb, hr] at htotal
  refine ⟨rest, by rw [NETWORKMESSAGE_MAXSIZE]; omega, ?_⟩
  have htake : (framed cipher).take 2 = le 2 (cipher.length + 4) := take_left' (length_le 2 _)
  have hdrop : (framed cipher).drop 2 = le 4 (adlerChecksum cipher).toNat ++ cipher := drop_left' (length_le 2 _)
  have hbytes : (le 4 (adlerChecksum cipher).toNat ++ cipher).length = cipher.length + 4 := by
    rw [length_append, length_le, Nat.add_comm]
  have hsize : unle (le 2 (cipher.length + 4)) = cipher.length + 4 := unle_le_of_lt (by omega)
  have hpoke : poke r.buffer 0 (le 2 (cipher.length + 4)) = some ([] ++ le 2 (cipher.length + 4) ++ (b ++ rest)) := by
    rw [hbuffer, append_assoc]
    exact poke_segment (a := []) rfl (by rw [ha, length_le])
  have hpoke' : poke (le 2 (cipher.length + 4) ++ (b ++ rest)) 2 (le 4 (adlerChecksum cipher).toNat ++ cipher) =
      some (le 2 (cipher.length + 4) ++ (le 4 (adlerChecksum cipher).toNat ++ cipher) ++ rest) := by
    rw [← append_assoc]
    exact poke_segment (length_le 2 _) (by rw [hb, hbytes])
  have hsum : u16 (cipher.length + 4 + 2) = cipher.length + 6 := by
    unfold u16
    omega
  have hlong : ¬(framed cipher).length < HEADER_LENGTH := by
    rw [length_framed, HEADER_LENGTH]
    omega
  have hfine : ¬(cipher.length + 4 = 0 ∨ cipher.length + 4 ≥ NETWORKMESSAGE_MAXSIZE - 16) := by
    simp only [NETWORKMESSAGE_MAXSIZE]
    omega
  rw [parseHeader, if_neg hlong, htake, hpoke, Option.bind_some, hdrop, nil_append]
  rw [take_left' (length_le 2 _), hsize, if_neg hfine, hbytes, if_neg (Nat.lt_irrefl _),
    take_of_length_le hbytes.le, hpoke', Option.bind_some, drop_of_length_le hbytes.le, HEADER_LENGTH, hsum]
  exact parsePacket_framed hpos hmax

end

/-- A message that was received into `r`, with its body still to be read. -/
structure Arrived (r : NetworkMessage) (body : Bytes) (msg : NetworkMessage) : Prop where
  overrun : msg.overrun = r.overrun
  position : msg.position = 8
  length : msg.length = body.length
  buffer : ∃ front tail, msg.buffer = front ++ body ++ tail ∧ front.length = 8

theorem Arrived.unread {r msg : NetworkMessage} {body : Bytes} (h : Arrived r body msg) : msg.unread = body := by
  obtain ⟨front, tail, hbuffer, hfront⟩ := h.buffer
  rw [NetworkMessage.unread, hbuffer, h.position, h.length, append_assoc, drop_left' hfront, Nat.add_sub_cancel,
    take_left]

theorem onRecvMessage_blocks {key : RoundKeys} {r : NetworkMessage} {front text body fill rest : Bytes} {n : Nat}
    (hfront : front.length = 6) (htext : text = le 2 body.length ++ (body ++ fill)) (hlen : text.length = 8 * n)
    (hmax : 8 * n ≤ 65472) :
    ∃ msg, (encrypted key).onRecvMessage { r with
        buffer := front ++ encrypt key n text ++ rest, position := 6, length := 8 * n + 6 } [] = some (.parsed msg []) ∧
      Arrived r body msg ∧ msg.buffer.length = 8 * n + 6 + rest.length := by
  have hblocks : blocks (8 * n) = n := by
    rw [blocks]
    omega
  have hbody : body.length + 2 ≤ 8 * n := by
    rw [← hlen, htext, length_append, length_append, length_le]
    omega
  have hplain : decryptAt key (front ++ encrypt key n text ++ rest) 6 (8 * n) = some (front ++ text ++ rest) := by
    have hsegment := decryptAt_segment key (b := text) (c := rest) hfront (hlen.trans (by rw [hblocks]))
    rwa [hblocks] at hsegment
  have hcan : ∀ m : NetworkMessage, m.position = 6 → m.length = 8 * n + 6 → m.canRead 2 = true := by
    intro m hm hl
    refine Bool.and_eq_true_iff.mpr ⟨decide_eq_true (by omega), decide_eq_true ?_⟩
    simp only [NETWORKMESSAGE_MAXSIZE]
    omega
  have hread : peek (front ++ text ++ rest) 6 2 = some (le 2 body.length) := by
    rw [htext, show front ++ (le 2 body.length ++ (body ++ fill)) ++ rest =
      front ++ le 2 body.length ++ (body ++ fill ++ rest) by simp only [append_assoc]]
    exact peek_segment hfront (length_le 2 _)
  have hmod : ¬(((8 * n + 6 : Nat) : Int) - 6) % 8 ≠ 0 := by omega
  have hvalue : unle (le 2 body.length) = body.length := unle_le_of_lt (by omega)
  refine ⟨{ r with buffer := front ++ text ++ rest, position := 8, length := body.length }, ?_,
    ⟨rfl, rfl, rfl, front ++ le 2 body.length, fill ++ rest, ?_, ?_⟩, ?_⟩
  · rw [Protocol.onRecvMessage, encrypted, if_pos rfl, XTEA_decrypt]
    rw [if_neg hmod, Nat.add_sub_cancel, hplain, Option.bind_some, NetworkMessage.get, hcan _ rfl rfl, Bool.not_true,
      if_neg Bool.false_ne_true, hread, Option.map_some, Option.map_some, hvalue]
    dsimp only
    rw [if_neg (by omega)]
    rfl
  · simp only [htext, append_assoc]
  · rw [length_append, hfront, length_le]
  · rw [length_append, length_append, hfront, hlen, Nat.add_comm 6]

theorem onRecvMessage_broken {key : RoundKeys} {m : NetworkMessage} (h : ¬8 ∣ m.length + 2) :
    (encrypted key).onRecvMessage m [] = some .dropped := by
  rw [Protocol.onRecvMessage, encrypted, if_pos rfl, XTEA_decrypt, if_pos (by omega)]
  rfl

/-! ## The whole way -/

/-- What the receiver's protocol gets of a message that leaves the padding room. -/
theorem delivered (key : RoundKeys) {m : OutputMessage} (h : Laid m.toNetworkMessage) (hstart : m.outputBufferStart = 8)
    {r : NetworkMessage} (hr : r.buffer.length = NETWORKMESSAGE_MAXSIZE) (hshort : m.length ≤ 65470) :
    ∃ sent frame msg, (encrypted key).onSendMessage m = some sent ∧ sent.frame = some frame ∧ 8 ∣ (frame.drop 6).length ∧
      parseHeader (encrypted key) r frame = some (.parsed msg []) ∧ Arrived r m.body msg ∧
      msg.buffer.length = NETWORKMESSAGE_MAXSIZE := by
  obtain ⟨sent, text, cipher, hsend, hframe, hsealed⟩ := onSendMessage_spec key h hstart
  obtain ⟨fill, htext⟩ := hsealed.starts
  have hwhole : cipher = encrypt key (blocks (m.length + 2)) text := by
    rw [hsealed.cipher, paddedLength, if_pos (by omega)]
    exact take_of_length_le ((length_encrypt key hsealed.length.ge).trans hsealed.length).le
  have hlen : cipher.length = 8 * blocks (m.length + 2) := by
    rw [hwhole, length_encrypt key hsealed.length.ge, hsealed.length]
  have hmax : 8 * blocks (m.length + 2) ≤ 65472 := by
    simp only [blocks]
    omega
  obtain ⟨rest, hsize, hparse⟩ := @parseHeader_framed key r hr cipher
    (by rw [hlen]; simp only [blocks]; omega) (by omega)
  obtain ⟨msg, hrecv, harrived, hbuffer⟩ := @onRecvMessage_blocks key r
    (le 2 (cipher.length + 4) ++ le 4 (adlerChecksum cipher).toNat) text m.body fill rest (blocks (m.length + 2))
    (by rw [length_append, length_le, length_le]) (by rw [length_body h]; exact htext) hsealed.length hmax
  refine ⟨sent, framed cipher, msg, hsend, hframe, ?_, ?_, harrived, by rw [hbuffer, ← hlen, hsize]⟩
  · rw [length_drop, length_framed, hlen]
    exact ⟨_, rfl⟩
  · rw [hparse, hlen, hwhole]
    rw [hlen, hwhole] at hrecv
    exact hrecv

theorem round_trip_of_short (key : RoundKeys) {m : OutputMessage} (h : Laid m.toNetworkMessage) (hstart : m.outputBufferStart = 8)
    {r : NetworkMessage} (hr : r.buffer.length = NETWORKMESSAGE_MAXSIZE) (hshort : m.length ≤ 65470) : RoundTrip key m r := by
  obtain ⟨sent, frame, msg, hsend, hframe, hblocks, hparse, harrived, -⟩ := delivered key h hstart hr hshort
  exact ⟨sent, frame, msg, hsend, hframe, hblocks, hparse, harrived.unread⟩

theorem broken_of_long (key : RoundKeys) {m : OutputMessage} (h : Laid m.toNetworkMessage) (hstart : m.outputBufferStart = 8)
    {r : NetworkMessage} (hr : r.buffer.length = NETWORKMESSAGE_MAXSIZE) (hlong : 65470 < m.length) :
    ∃ sent frame, (encrypted key).onSendMessage m = some sent ∧ sent.frame = some frame ∧ ¬8 ∣ (frame.drop 6).length ∧
      parseHeader (encrypted key) r frame = some .dropped := by
  obtain ⟨sent, text, cipher, hsend, hframe, hsealed⟩ := onSendMessage_spec key h hstart
  have hmax := h.length
  have hlen : cipher.length = m.length + 2 := by
    rw [hsealed.cipher, paddedLength, if_neg (by omega), length_take, length_encrypt key hsealed.length.ge,
      hsealed.length, blocks]
    omega
  obtain ⟨rest, -, hparse⟩ := @parseHeader_framed key r hr cipher (by omega) (by omega)
  refine ⟨sent, framed cipher, hsend, hframe, ?_, ?_⟩
  · rw [length_drop, length_framed]
    omega
  · rw [hparse]
    exact onRecvMessage_broken (by show ¬8 ∣ cipher.length + 6 + 2; omega)

/-- No accepted message leads outside a buffer, and it arrives as it was sent exactly when it
    leaves the padding room. -/
theorem framing_round_trip (key : RoundKeys) {m : OutputMessage} (hm : Accepted m) {r : NetworkMessage}
    (hr : r.buffer.length = NETWORKMESSAGE_MAXSIZE) :
    (∃ sent frame received, (encrypted key).onSendMessage m = some sent ∧ sent.frame = some frame ∧
      parseHeader (encrypted key) r frame = some received) ∧
    (RoundTrip key m r ↔ m.length ≤ 65470) := by
  obtain ⟨h, hstart⟩ := laid_of_accepted hm
  by_cases hshort : m.length ≤ 65470
  · have htrip := round_trip_of_short key h hstart hr hshort
    refine ⟨?_, iff_of_true htrip hshort⟩
    obtain ⟨sent, frame, msg, hsend, hframe, _, hparse, _⟩ := htrip
    exact ⟨sent, frame, _, hsend, hframe, hparse⟩
  · obtain ⟨sent, frame, hsend, hframe, hbroken, hparse⟩ := broken_of_long key h hstart hr (by omega)
    refine ⟨⟨sent, frame, _, hsend, hframe, hparse⟩, iff_of_false ?_ hshort⟩
    rintro ⟨sent', frame', _, hsend', hframe', hblocks, _⟩
    rw [hsend] at hsend'
    cases hsend'
    rw [hframe] at hframe'
    cases hframe'
    exact hbroken hblocks

/-! ## Two messages -/

/-- A new message with some bytes written to it. -/
def holding (bytes : Bytes) : OutputMessage where
  buffer := List.replicate 8 0 ++ bytes ++ List.replicate (65492 - bytes.length) 0
  position := 8 + bytes.length
  length := bytes.length

theorem writes_holding {bytes : Bytes} (h : bytes.length ≤ 65477) : Writes {} (holding bytes).toNetworkMessage := by
  have hcan : ({} : NetworkMessage).canAdd bytes.length = true := by
    refine decide_eq_true ?_
    show bytes.length + 8 < 65486
    omega
  have hpoke : poke ({} : NetworkMessage).buffer 8 bytes =
      some (List.replicate 8 0 ++ bytes ++ List.replicate (65492 - bytes.length) 0) := by
    have hzeros : ({} : NetworkMessage).buffer =
        List.replicate 8 0 ++ List.replicate bytes.length 0 ++ List.replicate (65492 - bytes.length) 0 := by
      rw [replicate_append_replicate, replicate_append_replicate]
      rw [NETWORKMESSAGE_MAXSIZE, show 8 + bytes.length + (65492 - bytes.length) = 65500 by omega]
    rw [hzeros]
    exact poke_segment length_replicate length_replicate
  have hadd : ({} : NetworkMessage).add bytes = some (holding bytes).toNetworkMessage := by
    have hposition : u16 (8 + bytes.length) = 8 + bytes.length := by
      unfold u16
      omega
    have hlength : u16 (0 + bytes.length) = bytes.length := by
      unfold u16
      omega
    rw [NetworkMessage.add, hcan, Bool.not_true, if_neg Bool.false_ne_true, NetworkMessage.put]
    show (poke ({} : NetworkMessage).buffer 8 bytes).map _ = _
    rw [hpoke, Option.map_some]
    show some (NetworkMessage.mk (u16 (0 + bytes.length)) (u16 (8 + bytes.length)) false _) = _
    rw [hposition, hlength]
    rfl
  exact .add bytes hadd

theorem accepted_holding {bytes : Bytes} (h : bytes.length ≤ 65477) : Accepted (holding bytes) := .write .new (writes_holding h)

theorem two_bytes_arrive : RoundTrip (expand_key fun _ => 0) (holding [72, 105]) {} :=
  (framing_round_trip _ (accepted_holding (by decide)) length_replicate).2.mpr (by decide)

/-- The longest message there is gets no padding, and the receiver drops it. -/
theorem longest_body_dropped :
    Accepted (holding (List.replicate 65477 65)) ∧
    ¬RoundTrip (expand_key fun _ => 0) (holding (List.replicate 65477 65)) {} ∧
    ∃ sent frame, (encrypted (expand_key fun _ => 0)).onSendMessage (holding (List.replicate 65477 65)) = some sent ∧
      sent.frame = some frame ∧ ¬8 ∣ (frame.drop 6).length ∧
      parseHeader (encrypted (expand_key fun _ => 0)) {} frame = some .dropped := by
  have hlength : (holding (List.replicate 65477 65)).length = 65477 := length_replicate
  have haccepted := @accepted_holding (List.replicate 65477 65) length_replicate.le
  obtain ⟨h, hstart⟩ := laid_of_accepted haccepted
  have hbroken := broken_of_long (expand_key fun _ => 0) h hstart (r := {}) length_replicate
    (by rw [hlength]; omega)
  refine ⟨haccepted, ?_, hbroken⟩
  obtain ⟨sent, frame, hsend, hframe, hodd, _⟩ := hbroken
  rintro ⟨sent', frame', _, hsend', hframe', hblocks, _⟩
  rw [hsend] at hsend'
  cases hsend'
  rw [hframe] at hframe'
  cases hframe'
  exact hodd hblocks

end Backlands.Net.Framing
