/-
  Backlands.Net.Wire — what a protocol writes, on its way to the reader (src/protocol.cpp,
  outputmessage.cpp, connection.cpp).

  Messages gather in the protocol's output buffer, which goes out when the next one would make it
  too long, and with the autosend. The frames make a stream. The receiver takes them off one by one,
  all into one message object, and reads the fields.

  Proved: `fields_cross`, whatever the order of writes and autosends, every field that was written
  is read, once and in order, and nothing of the stream is left, provided that no buffer came into
  the padding room (`Backlands.Net.Framing`).
-/

import Backlands.Net.Messages
import Mathlib.Data.List.Forall2

namespace Backlands.Net.Wire

open Backlands.Lib List Option
open Framing Messages
open Xtea (RoundKeys)

/-! ## The sender -/

inductive Event where
  /-- `writeToOutputBuffer`, of a message with these fields -/
  | write (fields : List Field)
  /-- `OutputMessagePool::sendAll` comes to the protocol. -/
  | sendAll

/-- The output messages as they are sent; what is left in the end goes out with one more autosend. -/
def outputs (simdutf : Simdutf) : List Event → Option OutputMessage → Option (List OutputMessage)
  | [], outputBuffer => some outputBuffer.toList
  | .sendAll :: es, outputBuffer => (outputs simdutf es none).map (outputBuffer.toList ++ ·)
  | .write fields :: es, outputBuffer =>
    (addAll simdutf fields {}).bind fun msg =>
      (writeToOutputBuffer outputBuffer msg).bind fun buffer =>
        (outputs simdutf es (some buffer)).map ((getOutputBuffer outputBuffer msg.length).1.toList ++ ·)

/-- The bytes that go to the socket. -/
def stream (p : Protocol) : List OutputMessage → Option Bytes
  | [] => some []
  | m :: ms => (p.onSendMessage m).bind fun sent => sent.frame.bind fun frame => (stream p ms).map (frame ++ ·)

/-! ## The receiver -/

/-- One frame after the other, with fields of these kinds read from each. -/
def receiveAll (simdutf : Simdutf) (p : Protocol) :
    List (List Field) → NetworkMessage → Bytes → Option (List (List Field) × NetworkMessage × Bytes)
  | [], m, bytes => some ([], m, bytes)
  | kinds :: more, m, bytes =>
    match parseHeader p m bytes with
    | some (.parsed msg rest) =>
      (getAll simdutf kinds msg).bind fun (fields, m) =>
        (receiveAll simdutf p more m rest).map fun (read, m, rest) => (fields :: read, m, rest)
    | _ => none

/-- All the fields, in the order of the writes. -/
def written : List Event → List Field
  | [] => []
  | .write fields :: es => fields ++ written es
  | .sendAll :: es => written es

/-! ## The output buffer -/

variable {simdutf : Simdutf} {m : OutputMessage} {msg : NetworkMessage} {fields held : List Field}

/-- The bytes of an output message are those of the fields. -/
structure Carries (m : OutputMessage) (fields : List Field) : Prop where
  start : m.outputBufferStart = 8
  holds : ∃ a, fields.mapM Field.bytes = some a ∧ Holds m.toNetworkMessage a.flatten

/-- The same of an output buffer that may be missing. -/
def Buffered (outputBuffer : Option OutputMessage) (fields : List Field) : Prop :=
  ∃ groups, groups.flatten = fields ∧ List.Forall₂ Carries outputBuffer.toList groups

theorem holds_new : Holds {} [] := @holds_reset {} length_replicate

theorem carries_new : Carries {} [] := ⟨rfl, [], rfl, holds_new⟩

theorem buffered_none : Buffered none [] := ⟨[], rfl, .nil⟩

theorem Carries.buffered (h : Carries m fields) : Buffered (some m) fields :=
  ⟨[fields], flatten_singleton, .cons h .nil⟩

theorem Carries.append {a : List Bytes} (h : Carries m held) (ha : fields.mapM Field.bytes = some a)
    (hmsg : Holds msg a.flatten) (hfits : m.length + msg.length ≤ 65477) :
    ∃ m', m.append msg = some m' ∧ Carries m' (held ++ fields) := by
  obtain ⟨b, hb, hholds⟩ := h.holds
  have hposition := hholds.laid.position
  obtain ⟨head, tail, hbuffer, hhead⟩ := hmsg.buffer
  have hpeek : peek msg.buffer 8 msg.length = some a.flatten := by
    rw [hbuffer]
    exact peek_segment hhead hmsg.length.symm
  rw [hmsg.length] at hfits
  obtain ⟨buffer, hpoke, hput⟩ := hholds.poked hfits
  have hheld := hput _ le_rfl
  rw [take_length, ← flatten_append] at hheld
  obtain ⟨n, hn, hheld⟩ : ∃ n, m.put a.flatten = some n ∧ Holds n (b ++ a).flatten :=
    ⟨_, by rw [NetworkMessage.put, hpoke, map_some], hheld⟩
  refine ⟨{ m with toNetworkMessage := n }, ?_, h.start, b ++ a, ?_, hheld⟩
  · rw [OutputMessage.append, if_neg, hpeek, bind_some, hn, map_some]
    · rw [hholds.laid.size, NETWORKMESSAGE_MAXSIZE, hmsg.length]
      omega
  · rw [mapM_append, hb, ha]
    rfl

/-- What goes out before a message is written, and what is in the buffer then. -/
theorem Buffered.write {outputBuffer : Option OutputMessage} {a : List Bytes} (h : Buffered outputBuffer held)
    (ha : fields.mapM Field.bytes = some a) (hmsg : Holds msg a.flatten) :
    ∃ m' before now, writeToOutputBuffer outputBuffer msg = some m' ∧ before ++ now = held ++ fields ∧
      Buffered (getOutputBuffer outputBuffer msg.length).1 before ∧ Carries m' now := by
  have hnew := carries_new.append ha hmsg (by rw [Nat.zero_add]; exact hmsg.laid.length)
  unfold writeToOutputBuffer getOutputBuffer
  cases outputBuffer with
  | none =>
    obtain ⟨groups, rfl, hgroups⟩ := h
    cases hgroups
    obtain ⟨m', happend, hcarries⟩ := hnew
    exact ⟨m', [], fields, happend, rfl, buffered_none, hcarries⟩
  | some m =>
    dsimp only
    split
    · obtain ⟨m', happend, hcarries⟩ := hnew
      exact ⟨m', held, fields, happend, rfl, h, hcarries⟩
    · rename_i hroom
      obtain ⟨groups, rfl, hgroups⟩ := h
      cases hgroups with
      | cons hcarries htail =>
        cases htail
        simp only [MAX_PROTOCOL_BODY_LENGTH, MAX_BODY_LENGTH, NETWORKMESSAGE_MAXSIZE, HEADER_LENGTH, CHECKSUM_LENGTH,
          XTEA_MULTIPLE] at hroom
        obtain ⟨m', happend, hcarries⟩ := hcarries.append ha hmsg (by omega)
        exact ⟨m', [], _, happend, by rw [flatten_singleton]; rfl, buffered_none, hcarries⟩

/-- Every message that is written is valid and fits. -/
def Fit (es : List Event) : Prop :=
  ∀ fields, Event.write fields ∈ es → ∃ a, fields.mapM Field.bytes = some a ∧
    INITIAL_BUFFER_POSITION + a.flatten.length < MAX_BODY_LENGTH

theorem outputs_spec (hs : simdutf.Documented) {es : List Event} (hfit : Fit es) {outputBuffer : Option OutputMessage}
    (h : Buffered outputBuffer held) :
    ∃ ms groups, outputs simdutf es outputBuffer = some ms ∧ groups.flatten = held ++ written es ∧
      List.Forall₂ Carries ms groups := by
  induction es generalizing outputBuffer held with
  | nil =>
    obtain ⟨groups, hflat, hgroups⟩ := h
    exact ⟨_, groups, rfl, by rw [hflat, written, append_nil], hgroups⟩
  | cons e es ih =>
    have hrest : Fit es := fun fields hmem => hfit fields (mem_cons_of_mem _ hmem)
    cases e with
    | sendAll =>
      obtain ⟨before, hflat, hbefore⟩ := h
      obtain ⟨ms, groups, hms, hflat', hgroups⟩ := ih hrest buffered_none
      refine ⟨_, before ++ groups, by rw [outputs, hms, map_some], ?_, rel_append hbefore hgroups⟩
      rw [flatten_append, hflat, hflat', nil_append, written]
    | write fields =>
      obtain ⟨a, ha, hroom⟩ := hfit fields mem_cons_self
      obtain ⟨msg, bytes, hadd, hholds, hbytes⟩ := addAll_spec hs holds_new fields
      obtain rfl := hbytes a ha (by rw [length_nil, Nat.zero_add]; exact hroom)
      rw [nil_append] at hholds
      obtain ⟨m', sent, now, hwrite, hall, hsent, hnow⟩ := h.write ha hholds
      obtain ⟨before, hflat, hbefore⟩ := hsent
      obtain ⟨ms, groups, hms, hflat', hgroups⟩ := ih hrest hnow.buffered
      refine ⟨_, before ++ groups, ?_, ?_, rel_append hbefore hgroups⟩
      · rw [outputs, hadd, bind_some, hwrite, bind_some, hms, map_some]
      · rw [flatten_append, hflat, hflat', ← append_assoc, hall, append_assoc, written]

/-! ## The stream -/

variable {p : Protocol} {rest more bytes : Bytes}

theorem onRecvMessage_append {m m' : NetworkMessage} (h : p.onRecvMessage m rest = some (.parsed m' bytes)) :
    p.onRecvMessage m (rest ++ more) = some (.parsed m' (bytes ++ more)) := by
  unfold Protocol.onRecvMessage at h ⊢
  split at h
  · obtain ⟨decrypted, hdecrypt, h⟩ := map_eq_some_iff.mp h
    rw [if_pos (by assumption), hdecrypt, map_some]
    cases decrypted with
    | none => cases h
    | some n =>
      cases h
      rfl
  · rw [if_neg (by assumption)]
    cases h
    rfl

theorem parsePacket_append {m m' : NetworkMessage} (h : parsePacket p m rest = some (.parsed m' bytes)) :
    parsePacket p m (rest ++ more) = some (.parsed m' (bytes ++ more)) := by
  unfold parsePacket at h ⊢
  dsimp only at h ⊢
  obtain ⟨checksum, hchecksum, h⟩ := bind_eq_some_iff.mp h
  obtain ⟨r, hr, h⟩ := bind_eq_some_iff.mp h
  rw [hchecksum, bind_some, hr, bind_some]
  exact onRecvMessage_append h

/-- A frame is read as it is read alone, whatever comes behind it. -/
theorem parseHeader_append (more : Bytes) {m m' : NetworkMessage} (h : parseHeader p m rest = some (.parsed m' bytes)) :
    parseHeader p m (rest ++ more) = some (.parsed m' (bytes ++ more)) := by
  unfold parseHeader at h ⊢
  split at h
  · cases h
  rename_i hheader
  rw [HEADER_LENGTH] at hheader
  obtain ⟨buffer, hpoke, h⟩ := bind_eq_some_iff.mp h
  rw [if_neg (by rw [length_append, HEADER_LENGTH]; omega), take_append_of_le_length (by omega), hpoke,
    bind_some]
  dsimp only at h ⊢
  split at h
  · cases h
  rename_i hsize
  split at h
  · cases h
  rename_i hcomplete
  obtain ⟨buffer', hpoke', h⟩ := bind_eq_some_iff.mp h
  rw [if_neg hsize, drop_append_of_le_length (by omega), if_neg (by rw [length_append]; omega),
    take_append_of_le_length (by omega), hpoke', bind_some, drop_append_of_le_length (by omega)]
  exact parsePacket_append h

/-- The message object of a connection between two packets. -/
structure Ready (r : NetworkMessage) : Prop where
  size : r.buffer.length = NETWORKMESSAGE_MAXSIZE
  overrun : r.overrun = false

theorem unread_of_arrived {r : NetworkMessage} {bs : Bytes} (hheld : Holds m.toNetworkMessage bs)
    (h : Arrived r m.body msg) (hr : Ready r) (hsize : msg.buffer.length = NETWORKMESSAGE_MAXSIZE) : Unread msg bs := by
  have hbody : m.body = bs := by
    obtain ⟨head, tail, hbuffer, hhead⟩ := hheld.buffer
    rw [NetworkMessage.body, hbuffer, append_assoc, INITIAL_BUFFER_POSITION, drop_left' hhead, hheld.length,
      take_left]
  rw [hbody] at h
  have hlength := hheld.length
  have hlaid := hheld.laid.length
  refine ⟨hsize, h.overrun.trans hr.overrun, by rw [h.length]; omega, by rw [h.position, h.length]; omega, ?_⟩
  rw [h.position]
  exact h.buffer

/-- One frame: it is made, and its fields are read from the front of any stream. -/
theorem frame_spec (hs : simdutf.Documented) (key : RoundKeys) (h : Carries m fields) (hshort : m.length ≤ 65470) :
    ∃ frame, (∀ ms bytes, stream (encrypted key) ms = some bytes → stream (encrypted key) (m :: ms) = some (frame ++ bytes)) ∧
      ∀ r, Ready r → ∃ r', Ready r' ∧ ∀ kinds bytes read, receiveAll simdutf (encrypted key) kinds r' bytes = some read →
        receiveAll simdutf (encrypted key) (fields :: kinds) r (frame ++ bytes) = some (fields :: read.1, read.2) := by
  obtain ⟨a, ha, hheld⟩ := h.holds
  have hnew : ({} : NetworkMessage).buffer.length = NETWORKMESSAGE_MAXSIZE := length_replicate
  obtain ⟨sent, frame, -, hsend, hframe, -⟩ := delivered key hheld.laid h.start hnew hshort
  refine ⟨frame, fun ms bytes hms => ?_, fun r hr => ?_⟩
  · rw [stream, hsend, bind_some, hframe, bind_some, hms, map_some]
  obtain ⟨sent', frame', msg, hsend', hframe', -, hparse, harrived, hsize⟩ := delivered key hheld.laid h.start hr.size hshort
  obtain rfl := Option.some.inj (hsend.symm.trans hsend')
  obtain rfl := Option.some.inj (hframe.symm.trans hframe')
  have hunread := unread_of_arrived hheld harrived hr hsize
  rw [← append_nil a.flatten] at hunread
  obtain ⟨r', hget, hr'⟩ := getAll_spec hs ha hunread
  refine ⟨r', ⟨hr'.size, hr'.overrun⟩, fun kinds bytes read hread => ?_⟩
  rw [receiveAll, parseHeader_append bytes hparse]
  dsimp only
  rw [hget, bind_some, nil_append, hread, map_some]

theorem stream_spec (hs : simdutf.Documented) (key : RoundKeys) {ms : List OutputMessage} {groups : List (List Field)}
    (h : List.Forall₂ Carries ms groups) (hshort : ∀ m ∈ ms, m.length ≤ 65470) :
    ∃ bytes, stream (encrypted key) ms = some bytes ∧ ∀ r, Ready r →
      ∃ r', receiveAll simdutf (encrypted key) groups r bytes = some (groups, r', []) ∧ r'.overrun = false := by
  induction h with
  | nil => exact ⟨[], rfl, fun r hr => ⟨r, rfl, hr.overrun⟩⟩
  | @cons m fields ms groups hcarries _ ih =>
    obtain ⟨bytes, hbytes, hread⟩ := ih fun m hm => hshort m (mem_cons_of_mem _ hm)
    obtain ⟨frame, hframe, hfirst⟩ := frame_spec hs key hcarries (hshort m mem_cons_self)
    refine ⟨frame ++ bytes, hframe ms bytes hbytes, fun r hr => ?_⟩
    obtain ⟨r₁, hr₁, hcons⟩ := hfirst r hr
    obtain ⟨r', hreceive, hoverrun⟩ := hread r₁ hr₁
    exact ⟨r', hcons groups bytes _ hreceive, hoverrun⟩

/-- Every field that is written is read, once and in order. -/
theorem fields_cross (hs : simdutf.Documented) (key : RoundKeys) {es : List Event} (hfit : Fit es) {r : NetworkMessage}
    (hr : Ready r) :
    ∃ ms, outputs simdutf es none = some ms ∧ ((∀ m ∈ ms, m.length ≤ 65470) →
      ∃ bytes groups, stream (encrypted key) ms = some bytes ∧ groups.flatten = written es ∧
        ∃ r', receiveAll simdutf (encrypted key) groups r bytes = some (groups, r', []) ∧ r'.overrun = false) := by
  obtain ⟨ms, groups, hms, hflat, hcarries⟩ := outputs_spec hs hfit buffered_none
  refine ⟨ms, hms, fun hshort => ?_⟩
  obtain ⟨bytes, hbytes, hread⟩ := stream_spec hs key hcarries hshort
  exact ⟨bytes, groups, hbytes, hflat, hread r hr⟩

theorem length_carried {ms : List OutputMessage} {groups : List (List Field)} (h : List.Forall₂ Carries ms groups)
    {a : List Bytes} (ha : groups.flatten.mapM Field.bytes = some a) : ∀ m ∈ ms, m.length ≤ a.flatten.length := by
  induction h generalizing a with
  | nil => exact fun m hm => absurd hm not_mem_nil
  | cons hcarries _ ih =>
    obtain ⟨b, hb, hholds⟩ := hcarries.holds
    rw [flatten_cons, mapM_append, hb] at ha
    obtain ⟨b', hb', ha⟩ := bind_eq_some_iff.mp ha
    obtain rfl := Option.some.inj hb'
    obtain ⟨c, hc, ha⟩ := bind_eq_some_iff.mp ha
    obtain rfl := Option.some.inj ha
    have hfirst := hholds.length
    rw [flatten_append, length_append]
    refine forall_mem_cons.mpr ⟨by omega, fun m hm => ?_⟩
    have hrest := ih hc m hm
    omega

/-- Where all the fields together are short, so is every message. -/
theorem outputs_short (hs : simdutf.Documented) {es : List Event} (hfit : Fit es) {a : List Bytes}
    (ha : (written es).mapM Field.bytes = some a) (hshort : a.flatten.length ≤ 65470) {ms : List OutputMessage}
    (hms : outputs simdutf es none = some ms) : ∀ m ∈ ms, m.length ≤ 65470 := by
  obtain ⟨ms', groups, hms', hflat, hcarries⟩ := outputs_spec hs hfit buffered_none
  obtain rfl := Option.some.inj (hms.symm.trans hms')
  have hlength := length_carried hcarries ((congrArg _ hflat).trans ha)
  exact fun m hm => (hlength m hm).trans hshort

def threeMessages : List Event := [.write [.byte 10], .write [.int 2 4660], .sendAll, .write [.position ⟨100, 200, 7⟩]]

/-- Two messages in one frame, and a third in the next. -/
theorem three_messages_cross :
    ∃ ms bytes groups, outputs scalar threeMessages none = some ms ∧
      stream (encrypted (Xtea.expand_key fun _ => 0)) ms = some bytes ∧
      groups.flatten = [.byte 10, .int 2 4660, .position ⟨100, 200, 7⟩] ∧
      ∃ r', receiveAll scalar (encrypted (Xtea.expand_key fun _ => 0)) groups {} bytes = some (groups, r', []) ∧
        r'.overrun = false := by
  have hfit : Fit threeMessages := by
    intro fields hmem
    simp only [threeMessages, mem_cons, Event.write.injEq, not_mem_nil, or_false, reduceCtorEq, false_or] at hmem
    rcases hmem with rfl | rfl | rfl
    · exact ⟨_, rfl, by decide⟩
    · exact ⟨_, rfl, by decide⟩
    · exact ⟨_, rfl, by decide⟩
  obtain ⟨ms, hms, hcross⟩ :=
    fields_cross scalar_documented (Xtea.expand_key fun _ => 0) hfit (r := {}) ⟨length_replicate, rfl⟩
  obtain ⟨bytes, groups, hbytes, hflat, hread⟩ := hcross (outputs_short scalar_documented hfit rfl (by decide) hms)
  exact ⟨ms, bytes, groups, hms, hbytes, hflat, hread⟩

end Backlands.Net.Wire
