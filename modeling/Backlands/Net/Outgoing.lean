/-
  Backlands.Net.Outgoing — what a protocol writes, on its way to the socket (src/connection.cpp,
  outputmessage.cpp, protocol.cpp).

  A body goes to the protocol's output buffer; the buffer becomes a message when it is full or when
  the autosend tick comes, and other messages are sent directly. A connection queues the messages it
  accepts: the first of an empty queue is posted to the strand, and each completion of a write
  starts the next. Which posted step or write comes to its end next, whether it fails and whether a
  call into Asio throws is any. The server is not shutting down: no `closeAll`, no
  `releaseAllProtocols`, and a connection has its protocol.

  Proved: `outgoing_in_order`.
-/

import Backlands.Lib.Buckets
import Backlands.Lib.Runs
import Backlands.Net.Framing
import Mathlib.Data.List.Nodup

namespace Backlands.Net.Outgoing

open Backlands.Lib Function List
open Framing (NetworkMessage Written Laid MAX_PROTOCOL_BODY_LENGTH NETWORKMESSAGE_MAXSIZE INITIAL_BUFFER_POSITION)

def MAX_PENDING_WRITE_MESSAGES : Nat := 128

/-- What `writeToOutputBuffer` is called with. -/
structure Body where
  msg : NetworkMessage
  written : Written msg

abbrev OutputMessage := List Body

def getLength (bodies : OutputMessage) : Nat := (bodies.map fun b => b.msg.length).sum

inductive Message
  | buffered (bodies : OutputMessage)
  | direct (bytes : Bytes)

def Message.bodies : Message → List Body
  | buffered bodies => bodies
  | direct _ => []

/-! ## Connections -/

structure Connection where
  messageQueue : List Message := []
  closed : Bool := false
  socketOpen : Bool := true
  /-- Steps posted to the strand. -/
  posted : List Message := []
  /-- Writes that Asio has not completed. -/
  inFlight : List Message := []
  /-- Calls of the protocol's `release` that the dispatcher still has. -/
  releases : Nat := 0
  accepted : List Message := []
  handed : List Message := []

namespace Connection

variable (c : Connection)

def closeSocket : Connection := { c with socketOpen := false }

def closeLocked (force : Bool) : Connection :=
  if c.closed then c
  else
    let c := { c with closed := true, releases := c.releases + 1 }
    -- else it is closed by `onWriteOperation`
    if c.messageQueue.isEmpty || force then c.closeSocket else c

/-- `throws`: posting fails. -/
def send (msg : Message) (throws : Bool) : Connection :=
  if c.closed then c
  else if c.messageQueue.length ≥ MAX_PENDING_WRITE_MESSAGES then c.closeLocked true
  else
    let queued := { c with messageQueue := c.messageQueue ++ [msg], accepted := c.accepted ++ [msg] }
    if c.messageQueue.isEmpty then
      if throws then queued.closeLocked true else { queued with posted := queued.posted ++ [msg] }
    else queued

/-- `throws`: a timer or the write does not start. -/
def internalSend (msg : Message) (throws : Bool) : Connection :=
  if throws then c.closeLocked true else { c with inFlight := c.inFlight ++ [msg], handed := c.handed ++ [msg] }

def onWriteOperation (error throws : Bool) : Connection :=
  let popped := { c with messageQueue := c.messageQueue.tail }
  if error then { popped with messageQueue := [] }.closeLocked true
  else
    match popped.messageQueue with
    | front :: _ =>
      if popped.socketOpen then popped.internalSend front throws
      else { popped with messageQueue := [] }.closeSocket
    | [] => if popped.closed then popped.closeSocket else popped

def runPosted (k : Nat) (throws : Bool) : Connection :=
  match c.posted[k]? with
  | none => c
  | some msg => { c with posted := c.posted.eraseIdx k }.internalSend msg throws

def complete (k : Nat) (error throws : Bool) : Connection :=
  match c.inFlight[k]? with
  | none => c
  | some _ => { c with inFlight := c.inFlight.eraseIdx k }.onWriteOperation error throws

end Connection

/-! ## Protocols and the autosend pool -/

structure Protocol where
  outputBuffer : Option OutputMessage := none
  inAutosend : Bool := false
  written : List Body := []
  removed : Bool := false

structure State where
  connection : Nat → Connection := fun _ => {}
  protocol : Nat → Protocol := fun _ => {}
  bufferedProtocols : List Nat := []
  sendScheduled : Bool := false
  /-- The `sendAll` events that the scheduler has. -/
  scheduled : Nat := 0

namespace State

variable (s : State)

def setProtocol (p : Nat) (f : Protocol → Protocol) : State :=
  { s with protocol := update s.protocol p (f (s.protocol p)) }

def setConnection (p : Nat) (f : Connection → Connection) : State :=
  { s with connection := update s.connection p (f (s.connection p)) }

/-- `Protocol::send` -/
def send (p : Nat) (msg : Message) (throws : Bool) : State := s.setConnection p fun c => c.send msg throws

def scheduleSendAll : State := { s with sendScheduled := true, scheduled := s.scheduled + 1 }

def addProtocolToAutosend (p : Nat) : State :=
  if (s.protocol p).inAutosend then s
  else
    let added := { s with bufferedProtocols := s.bufferedProtocols ++ [p] }.setProtocol p fun pr => { pr with inAutosend := true }
    if added.sendScheduled then added else added.scheduleSendAll

def removeProtocolFromAutosend (p : Nat) : State :=
  (if p ∈ s.bufferedProtocols then
    { s with bufferedProtocols := Buckets.swapPop p s.bufferedProtocols }.setProtocol p fun pr => { pr with inAutosend := false }
  else s).setProtocol p fun pr => { pr with removed := true }

def getOutputBuffer (p : Nat) (size : Nat) (throws : Bool) : State :=
  match (s.protocol p).outputBuffer with
  | none => (s.setProtocol p fun pr => { pr with outputBuffer := some [] }).addProtocolToAutosend p
  | some buffer =>
    if getLength buffer + size > MAX_PROTOCOL_BODY_LENGTH then
      ((s.send p (.buffered buffer) throws).setProtocol p fun pr => { pr with outputBuffer := some [] }).addProtocolToAutosend p
    else s

/-- `OutputMessage::append` -/
def append (buffer : OutputMessage) (body : Body) : OutputMessage :=
  if INITIAL_BUFFER_POSITION + getLength buffer + body.msg.length > NETWORKMESSAGE_MAXSIZE then buffer else buffer ++ [body]

def writeToOutputBuffer (p : Nat) (body : Body) (throws : Bool) : State :=
  (s.getOutputBuffer p body.msg.length throws).setProtocol p fun pr =>
    { pr with outputBuffer := pr.outputBuffer.map fun buffer => append buffer body, written := pr.written ++ [body] }

/-- One round of the loop of `sendAll`. -/
def flush (p : Nat) (throws : Bool) : State :=
  let s := s.setProtocol p fun pr => { pr with inAutosend := false }
  match (s.protocol p).outputBuffer with
  | none => s
  | some buffer => (s.setProtocol p fun pr => { pr with outputBuffer := none }).send p (.buffered buffer) throws

def sendAll (throws : Nat → Bool) : State :=
  let s := { s with sendScheduled := false }
  if s.bufferedProtocols.isEmpty then s
  else
    let flushed := s.bufferedProtocols.foldl (fun s p => s.flush p (throws p)) { s with bufferedProtocols := [] }
    if flushed.bufferedProtocols.isEmpty then flushed else flushed.scheduleSendAll

end State

inductive Ev
  | write (p : Nat) (body : Body) (throws : Bool)
  | send (p : Nat) (bytes : Bytes) (throws : Bool)
  /-- The scheduler runs `sendAll`. -/
  | tick (throws : Nat → Bool)
  | posted (p k : Nat) (throws : Bool)
  | complete (p k : Nat) (error throws : Bool)
  | close (p : Nat) (force : Bool)
  /-- The dispatcher runs `release`. -/
  | release (p : Nat)

def step (s : State) : Ev → State
  | .write p body throws => s.writeToOutputBuffer p body throws
  | .send p bytes throws => s.send p (.direct bytes) throws
  | .tick throws => if s.scheduled = 0 then s else { s with scheduled := s.scheduled - 1 }.sendAll throws
  | .posted p k throws => s.setConnection p fun c => c.runPosted k throws
  | .complete p k error throws => s.setConnection p fun c => c.complete k error throws
  | .close p force => s.setConnection p fun c => c.closeLocked force
  | .release p =>
    if (s.connection p).releases = 0 then s
    else (s.setConnection p fun c => { c with releases := c.releases - 1 }).removeProtocolFromAutosend p

/-- The bodies in the messages of a protocol's buffer that its connection accepted. -/
def sent (s : State) (p : Nat) : List Body := (s.connection p).accepted.flatMap Message.bodies

/-- The bodies that wait in a protocol's buffer. -/
def waiting (s : State) (p : Nat) : List Body := (s.protocol p).outputBuffer.getD []

structure InOrder (s : State) : Prop where
  one_write : ∀ p, (s.connection p).inFlight.length ≤ 1
  handed : ∀ p, (s.connection p).handed <+: (s.connection p).accepted
  bodies : ∀ p, (s.connection p).closed = false → (s.protocol p).written = sent s p ++ waiting s p
  watched : ∀ p, (s.protocol p).outputBuffer.isSome → (s.protocol p).removed = false →
    (s.protocol p).inAutosend = true ∧ p ∈ s.bufferedProtocols ∧ s.sendScheduled = true ∧ 0 < s.scheduled

/-! ## A connection -/

namespace Connection

variable {c : Connection}

inductive Stage (c : Connection) : Prop
  | idle : c.posted = [] → c.inFlight = [] → c.messageQueue = [] → c.accepted = c.handed → Stage c
  | posted (m : Message) (rest : List Message) : c.posted = [m] → c.inFlight = [] → c.messageQueue = m :: rest →
      c.accepted = c.handed ++ m :: rest → Stage c
  | writing (m : Message) (rest : List Message) : c.posted = [] → c.inFlight = [m] → c.messageQueue = m :: rest →
      c.accepted = c.handed ++ rest → Stage c
  /-- Nothing is under way and nothing will be. -/
  | dead : c.posted = [] → c.inFlight = [] → c.closed = true → c.handed <+: c.accepted → Stage c

structure Ok (c : Connection) : Prop where
  stage : Stage c
  socket : c.socketOpen = false → c.closed = true
  releases : 0 < c.releases → c.closed = true

theorem Ok.one_write (h : c.Ok) : c.inFlight.length ≤ 1 := by
  cases h.stage with
  | idle _ hf _ _ => simp [hf]
  | posted m rest _ hf _ _ => simp [hf]
  | writing m rest _ hf _ _ => simp [hf]
  | dead _ hf _ _ => simp [hf]

theorem Ok.handed (h : c.Ok) : c.handed <+: c.accepted := by
  cases h.stage with
  | idle _ _ _ ha => exact ha ▸ prefix_refl _
  | posted m rest _ _ _ ha => exact ha ▸ prefix_append _ _
  | writing m rest _ _ _ ha => exact ha ▸ prefix_append _ _
  | dead _ _ _ ha => exact ha

theorem Stage.of_eq {c' : Connection} (h : Stage c) (hq : c'.messageQueue = c.messageQueue) (hp : c'.posted = c.posted)
    (hf : c'.inFlight = c.inFlight) (ha : c'.accepted = c.accepted) (hh : c'.handed = c.handed)
    (hc : c.closed = true → c'.closed = true) : Stage c' := by
  cases h with
  | idle h1 h2 h3 h4 => exact .idle (hp.trans h1) (hf.trans h2) (hq.trans h3) (by rw [ha, hh, h4])
  | posted m rest h1 h2 h3 h4 => exact .posted m rest (hp.trans h1) (hf.trans h2) (hq.trans h3) (by rw [ha, hh, h4])
  | writing m rest h1 h2 h3 h4 => exact .writing m rest (hp.trans h1) (hf.trans h2) (hq.trans h3) (by rw [ha, hh, h4])
  | dead h1 h2 h3 h4 => exact .dead (hp.trans h1) (hf.trans h2) (hc h3) (by rw [ha, hh]; exact h4)

theorem closeLocked_eq (c : Connection) (force : Bool) : ∃ socketOpen releases, c.closeLocked force =
    { c with closed := true, socketOpen, releases } := by
  unfold closeLocked
  split
  · exact ⟨c.socketOpen, c.releases, by cases c; simp_all⟩
  dsimp only
  split
  · exact ⟨false, c.releases + 1, rfl⟩
  · exact ⟨c.socketOpen, c.releases + 1, rfl⟩

@[simp] theorem closeLocked_closed (c : Connection) (force : Bool) : (c.closeLocked force).closed = true := by
  obtain ⟨o, r, he⟩ := closeLocked_eq c force
  rw [he]

theorem Ok.closeLocked (h : c.Ok) (force : Bool) : (c.closeLocked force).Ok := by
  obtain ⟨o, r, he⟩ := closeLocked_eq c force
  rw [he]
  exact ⟨h.stage.of_eq rfl rfl rfl rfl rfl fun _ => rfl, fun _ => rfl, fun _ => rfl⟩

theorem dead_closeLocked (hp : c.posted = []) (hf : c.inFlight = []) (ha : c.handed <+: c.accepted) (force : Bool) :
    (c.closeLocked force).Ok := by
  obtain ⟨o, r, he⟩ := closeLocked_eq c force
  rw [he]
  exact ⟨.dead hp hf rfl ha, fun _ => rfl, fun _ => rfl⟩

theorem Ok.send (h : c.Ok) (msg : Message) (throws : Bool) : (c.send msg throws).Ok := by
  unfold Connection.send
  split
  · exact h
  rename_i hopen
  split
  · exact h.closeLocked true
  cases h.stage with
  | idle hp hf hq ha =>
    rw [if_pos (by simp [hq])]
    split
    · refine @dead_closeLocked { c with messageQueue := c.messageQueue ++ [msg], accepted := c.accepted ++ [msg] } hp hf ?_ true
      simp [ha]
    · exact ⟨.posted msg [] (by simp [hp]) hf (by simp [hq]) (by simp [ha]), h.socket, h.releases⟩
  | posted m rest hp hf hq ha =>
    rw [if_neg (by simp [hq])]
    exact ⟨.posted m (rest ++ [msg]) hp hf (by simp [hq]) (by simp [ha]), h.socket, h.releases⟩
  | writing m rest hp hf hq ha =>
    rw [if_neg (by simp [hq])]
    exact ⟨.writing m (rest ++ [msg]) hp hf (by simp [hq]) (by simp [ha]), h.socket, h.releases⟩
  | dead _ _ hc _ => exact absurd hc hopen

theorem accepted_send {msg : Message} {throws : Bool} (h : (c.send msg throws).closed = false) :
    c.closed = false ∧ (c.send msg throws).accepted = c.accepted ++ [msg] := by
  unfold Connection.send at h ⊢
  split at h
  · rename_i hc
    rw [hc] at h
    cases h
  rename_i hopen
  split at h
  · rw [closeLocked_closed] at h
    cases h
  rename_i hroom
  grind [closeLocked_closed]

theorem ok_internalSend {m : Message} {rest : List Message} (hp : c.posted = []) (hf : c.inFlight = [])
    (hq : c.messageQueue = m :: rest) (ha : c.accepted = c.handed ++ m :: rest)
    (hs : c.socketOpen = false → c.closed = true) (hr : 0 < c.releases → c.closed = true) (throws : Bool) :
    (c.internalSend m throws).Ok := by
  unfold internalSend
  split
  · exact dead_closeLocked hp hf (ha ▸ prefix_append _ _) true
  · refine ⟨.writing m rest hp (by simp [hf]) hq ?_, hs, hr⟩
    rw [ha]
    simp

theorem Ok.runPosted (h : c.Ok) (k : Nat) (throws : Bool) : (c.runPosted k throws).Ok := by
  unfold Connection.runPosted
  cases hk : c.posted[k]? with
  | none => exact h
  | some msg =>
    have hne : c.posted ≠ [] := fun e => by simp [e] at hk
    cases h.stage with
    | idle hp _ _ _ => exact absurd hp hne
    | writing m rest hp _ _ _ => exact absurd hp hne
    | dead hp _ _ _ => exact absurd hp hne
    | posted m rest hp hf hq ha =>
      have hone : k = 0 ∧ msg = m := by
        rw [hp] at hk
        cases k with
        | zero => exact ⟨rfl, (Option.some.inj hk).symm⟩
        | succ k => simp at hk
      obtain ⟨rfl, rfl⟩ := hone
      exact @ok_internalSend { c with posted := c.posted.eraseIdx 0 } msg rest (by rw [hp]; rfl) hf hq ha h.socket h.releases throws

theorem Ok.complete (h : c.Ok) (k : Nat) (error throws : Bool) : (c.complete k error throws).Ok := by
  unfold Connection.complete
  cases hk : c.inFlight[k]? with
  | none => exact h
  | some msg =>
    have hne : c.inFlight ≠ [] := fun e => by simp [e] at hk
    cases h.stage with
    | idle _ hf _ _ => exact absurd hf hne
    | posted m rest _ hf _ _ => exact absurd hf hne
    | dead _ hf _ _ => exact absurd hf hne
    | writing m rest hp hf hq ha =>
      have hzero : k = 0 := by
        rw [hf] at hk
        cases k with
        | zero => rfl
        | succ k => simp at hk
      subst hzero
      -- the message that was written leaves the queue
      unfold onWriteOperation
      simp only [hf, hq, eraseIdx_cons_zero, tail_cons]
      split
      · exact @dead_closeLocked { c with inFlight := [], messageQueue := [] } hp rfl (ha ▸ prefix_append _ _) true
      cases hrest : rest with
      | nil =>
        have hdone : c.accepted = c.handed := by rw [ha, hrest, append_nil]
        dsimp only
        split
        · rename_i hc
          exact ⟨.idle hp rfl rfl hdone, fun _ => hc, h.releases⟩
        · exact ⟨.idle hp rfl rfl hdone, h.socket, h.releases⟩
      | cons front rest' =>
        dsimp only
        split
        · exact @ok_internalSend { c with inFlight := [], messageQueue := front :: rest' } front rest' hp rfl rfl (hrest ▸ ha)
            h.socket h.releases throws
        · rename_i hs
          have hclosed : c.closed = true := h.socket (by simpa using hs)
          exact ⟨.dead hp rfl hclosed (ha ▸ prefix_append _ _), fun _ => hclosed, h.releases⟩

theorem runPosted_keeps (c : Connection) (k : Nat) (throws : Bool) :
    (c.runPosted k throws).accepted = c.accepted ∧ (c.closed = true → (c.runPosted k throws).closed = true) := by
  unfold runPosted
  split
  · exact ⟨rfl, id⟩
  unfold internalSend
  split
  · obtain ⟨o, r, he⟩ := closeLocked_eq { c with posted := c.posted.eraseIdx k } true
    rw [he]
    exact ⟨rfl, fun _ => rfl⟩
  · exact ⟨rfl, id⟩

theorem complete_keeps (c : Connection) (k : Nat) (error throws : Bool) :
    (c.complete k error throws).accepted = c.accepted ∧ (c.closed = true → (c.complete k error throws).closed = true) := by
  unfold complete
  split
  · exact ⟨rfl, id⟩
  unfold onWriteOperation
  dsimp only
  split
  · obtain ⟨o, r, he⟩ := closeLocked_eq
      { c with inFlight := c.inFlight.eraseIdx k, messageQueue := [] } true
    rw [he]
    exact ⟨rfl, fun _ => rfl⟩
  split
  · split
    · unfold internalSend
      split
      · rename_i hq hs ht
        obtain ⟨o, r, he⟩ := closeLocked_eq
          { c with inFlight := c.inFlight.eraseIdx k, messageQueue := c.messageQueue.tail } true
        rw [he]
        exact ⟨rfl, fun _ => rfl⟩
      · exact ⟨rfl, id⟩
    · exact ⟨rfl, id⟩
  · split
    · exact ⟨rfl, id⟩
    · exact ⟨rfl, id⟩

end Connection

/-! ## The pool -/

section
variable (s : State) (p : Nat)

@[simp] theorem setProtocol_self (f : Protocol → Protocol) : (s.setProtocol p f).protocol p = f (s.protocol p) :=
  update_self ..

theorem setProtocol_ne {q : Nat} (h : q ≠ p) (f : Protocol → Protocol) : (s.setProtocol p f).protocol q = s.protocol q :=
  update_of_ne h ..

@[simp] theorem setConnection_self (f : Connection → Connection) : (s.setConnection p f).connection p = f (s.connection p) :=
  update_self ..

theorem setConnection_ne {q : Nat} (h : q ≠ p) (f : Connection → Connection) :
    (s.setConnection p f).connection q = s.connection q :=
  update_of_ne h ..

@[simp] theorem setProtocol_connection (f : Protocol → Protocol) : (s.setProtocol p f).connection = s.connection := rfl

@[simp] theorem send_protocol (msg : Message) (throws : Bool) : (s.send p msg throws).protocol = s.protocol := rfl

@[simp] theorem send_connection_self (msg : Message) (throws : Bool) :
    (s.send p msg throws).connection p = (s.connection p).send msg throws :=
  setConnection_self ..

theorem send_connection_ne {q : Nat} (h : q ≠ p) (msg : Message) (throws : Bool) :
    (s.send p msg throws).connection q = s.connection q :=
  setConnection_ne s p h _

end

structure Pair (c : Connection) (pr : Protocol) : Prop where
  ok : c.Ok
  bodies : c.closed = false → pr.written = c.accepted.flatMap Message.bodies ++ pr.outputBuffer.getD []
  removed : pr.removed = true → c.closed = true

variable {pr : Protocol} {c : Connection}

theorem Pair.of_connection {c' : Connection} (h : Pair c pr) (hok : c'.Ok) (ha : c'.accepted = c.accepted)
    (hc : c.closed = true → c'.closed = true) : Pair c' pr := by
  refine ⟨hok, fun hopen => ?_, fun hr => hc (h.removed hr)⟩
  have hwas : c.closed = false := by
    cases hcl : c.closed with
    | false => rfl
    | true => rw [hc hcl] at hopen; cases hopen
  rw [ha]
  exact h.bodies hwas

theorem Pair.send (h : Pair c pr) {buffer : OutputMessage} (hb : pr.outputBuffer = some buffer)
    {next : Option OutputMessage} (hn : next.getD [] = []) (throws : Bool) :
    Pair (c.send (.buffered buffer) throws) { pr with outputBuffer := next } := by
  refine ⟨h.ok.send _ throws, fun hopen => ?_, fun hr => ?_⟩
  · obtain ⟨hwas, ha⟩ := Connection.accepted_send hopen
    have hw := h.bodies hwas
    simp [hb, hn, hw, ha, flatMap_append, append_nil, Message.bodies]
  · have hwas := h.removed hr
    unfold Connection.send
    rw [if_pos hwas]
    exact hwas

theorem Pair.direct (h : Pair c pr) (bytes : Bytes) (throws : Bool) : Pair (c.send (.direct bytes) throws) pr := by
  refine ⟨h.ok.send _ throws, fun hopen => ?_, fun hr => ?_⟩
  · obtain ⟨hwas, ha⟩ := Connection.accepted_send hopen
    rw [ha, flatMap_append, h.bodies hwas]
    simp [Message.bodies]
  · have hwas := h.removed hr
    unfold Connection.send
    rw [if_pos hwas]
    exact hwas

structure Pool (s : State) : Prop where
  nodup : s.bufferedProtocols.Nodup
  autosend : ∀ p, (s.protocol p).inAutosend = true ↔ p ∈ s.bufferedProtocols
  scheduled : s.bufferedProtocols ≠ [] → s.sendScheduled = true
  events : s.sendScheduled = true → 0 < s.scheduled

structure Inv (s : State) : Prop where
  pair : ∀ p, Pair (s.connection p) (s.protocol p)
  pool : Pool s
  watched : ∀ p, (s.protocol p).outputBuffer.isSome → (s.protocol p).removed = false → (s.protocol p).inAutosend = true

variable {p : Nat}

theorem Inv.inOrder {s : State} (h : Inv s) : InOrder s := by
  refine ⟨fun p => (h.pair p).ok.one_write, fun p => (h.pair p).ok.handed, fun p => (h.pair p).bodies, fun p hb hr => ?_⟩
  have hin := h.watched p hb hr
  have hmem := (h.pool.autosend p).mp hin
  have hs := h.pool.scheduled (ne_nil_of_mem hmem)
  exact ⟨hin, hmem, hs, h.pool.events hs⟩

theorem Pool.added {s : State} (h : Pool s) (hnew : p ∉ s.bufferedProtocols) {sendScheduled : Bool} {scheduled : Nat}
    (hs : sendScheduled = true) (he : 0 < scheduled) :
    Pool { (s.setProtocol p fun pr => { pr with inAutosend := true }) with
      bufferedProtocols := s.bufferedProtocols ++ [p], sendScheduled, scheduled } := by
  refine ⟨concat_eq_append ▸ List.Nodup.concat hnew h.nodup, fun q => ?_, fun _ => hs, fun _ => he⟩
  by_cases hq : q = p
  · subst hq
    simp
  · rw [setProtocol_ne s p hq, h.autosend q]
    simp [hq]

theorem addProtocolToAutosend_spec {s : State} (h : Pool s) (p : Nat) :
    Pool (s.addProtocolToAutosend p) ∧ (s.addProtocolToAutosend p).connection = s.connection ∧
    ((s.addProtocolToAutosend p).protocol p).inAutosend = true ∧
    (∀ q, ∃ b, (s.addProtocolToAutosend p).protocol q = { s.protocol q with inAutosend := b } ∧
      ((s.protocol q).inAutosend = true → b = true)) := by
  have hset : ∀ q, ∃ b, (s.setProtocol p fun pr => { pr with inAutosend := true }).protocol q =
      { s.protocol q with inAutosend := b } ∧ ((s.protocol q).inAutosend = true → b = true) := by
    intro q
    by_cases hq : q = p
    · subst hq
      exact ⟨true, setProtocol_self .., fun _ => rfl⟩
    · exact ⟨(s.protocol q).inAutosend, setProtocol_ne s p hq _, id⟩
  unfold State.addProtocolToAutosend
  split
  · rename_i hin
    exact ⟨h, rfl, hin, fun q => ⟨(s.protocol q).inAutosend, rfl, id⟩⟩
  rename_i hin
  have hnew : p ∉ s.bufferedProtocols := fun hm => hin ((h.autosend p).mpr hm)
  have hself : ((s.setProtocol p fun pr => { pr with inAutosend := true }).protocol p).inAutosend = true := by
    rw [setProtocol_self]
  dsimp only
  split
  · rename_i hs
    exact ⟨h.added hnew hs (h.events hs), rfl, hself, hset⟩
  · exact ⟨h.added hnew rfl (Nat.succ_pos _), rfl, hself, hset⟩

theorem Inv.newBuffer {s : State} (hpool : Pool s) (hpair : ∀ q, Pair (s.connection q) (s.protocol q))
    (hwatched : ∀ q, q ≠ p → (s.protocol q).outputBuffer.isSome → (s.protocol q).removed = false →
      (s.protocol q).inAutosend = true) : Inv (s.addProtocolToAutosend p) := by
  obtain ⟨hp, hconn, hself, hall⟩ := addProtocolToAutosend_spec hpool p
  refine ⟨fun q => ?_, hp, fun q hb hr => ?_⟩
  · obtain ⟨b, hb, _⟩ := hall q
    have h := hpair q
    rw [hconn, hb]
    exact { h with }
  · by_cases hq : q = p
    · rw [hq]
      exact hself
    · obtain ⟨b, he, hb'⟩ := hall q
      rw [he] at hb hr ⊢
      exact hb' (hwatched q hq hb hr)

theorem Pool.setConnection {s : State} (h : Pool s) (p : Nat) (f : Connection → Connection) : Pool (s.setConnection p f) :=
  { h with }

theorem Inv.setConnection {s : State} (h : Inv s) (p : Nat) {f : Connection → Connection} (hp : Pair (f (s.connection p)) (s.protocol p)) :
    Inv (s.setConnection p f) := by
  refine ⟨fun q => ?_, h.pool.setConnection p f, h.watched⟩
  by_cases hq : q = p
  · subst hq
    rw [setConnection_self]
    exact hp
  · rw [setConnection_ne s p hq]
    exact h.pair q

theorem Pool.setProtocol {s : State} (h : Pool s) (p : Nat) {f : Protocol → Protocol}
    (hf : (f (s.protocol p)).inAutosend = (s.protocol p).inAutosend) : Pool (s.setProtocol p f) := by
  refine { h with autosend := fun q => ?_ }
  by_cases hq : q = p
  · subst hq
    rw [setProtocol_self, hf]
    exact h.autosend q
  · rw [setProtocol_ne s p hq]
    exact h.autosend q

theorem Inv.getOutputBuffer {s : State} (h : Inv s) (p : Nat) {size : Nat} (hsize : size ≤ 65477) (throws : Bool) :
    Inv (s.getOutputBuffer p size throws) ∧ ∃ buffer, ((s.getOutputBuffer p size throws).protocol p).outputBuffer = some buffer ∧
      getLength buffer + size ≤ 65477 := by
  have hnew : ∀ t : State, Pool t → ∃ buffer, (((t.setProtocol p fun pr => { pr with outputBuffer := some [] }).addProtocolToAutosend
      p).protocol p).outputBuffer = some buffer ∧ getLength buffer + size ≤ 65477 := by
    intro t ht
    obtain ⟨_, _, _, hall⟩ := addProtocolToAutosend_spec (ht.setProtocol p (f := fun pr => { pr with outputBuffer := some [] }) rfl) p
    obtain ⟨b, hb, _⟩ := hall p
    rw [hb, setProtocol_self]
    exact ⟨[], rfl, by rw [getLength, map_nil, sum_nil]; omega⟩
  unfold State.getOutputBuffer
  cases hb : (s.protocol p).outputBuffer with
  | none =>
    refine ⟨Inv.newBuffer (h.pool.setProtocol p rfl) (fun q => ?_) (fun q hq => ?_), hnew s h.pool⟩
    · by_cases hq : q = p
      · subst hq
        have hpair := h.pair q
        rw [setProtocol_self]
        refine ⟨hpair.ok, fun hc => ?_, hpair.removed⟩
        have hw := hpair.bodies hc
        rwa [hb] at hw
      · rw [setProtocol_ne s p hq]
        exact h.pair q
    · rw [setProtocol_ne s p hq]
      exact h.watched q
  | some buffer =>
    dsimp only
    split
    · have hsend : Pool (s.send p (.buffered buffer) throws) := h.pool.setConnection p _
      refine ⟨Inv.newBuffer (hsend.setProtocol p rfl) (fun q => ?_) (fun q hq => ?_), hnew _ hsend⟩
      · by_cases hq : q = p
        · subst hq
          rw [setProtocol_self, setProtocol_connection, send_connection_self, send_protocol]
          exact (h.pair q).send hb rfl throws
        · rw [setProtocol_ne _ p hq, setProtocol_connection, send_connection_ne s p hq, send_protocol]
          exact h.pair q
      · rw [setProtocol_ne _ p hq]
        exact h.watched q
    · rename_i hfits
      refine ⟨h, buffer, hb, ?_⟩
      simp only [MAX_PROTOCOL_BODY_LENGTH, Framing.MAX_BODY_LENGTH, NETWORKMESSAGE_MAXSIZE, Framing.HEADER_LENGTH,
        Framing.CHECKSUM_LENGTH, Framing.XTEA_MULTIPLE] at hfits
      omega

theorem Inv.writeToOutputBuffer {s : State} (h : Inv s) (p : Nat) (body : Body) (throws : Bool) :
    Inv (s.writeToOutputBuffer p body throws) := by
  obtain ⟨hinv, buffer, hbuffer, hfits⟩ := h.getOutputBuffer p (Laid.written body.written).length throws
  unfold State.writeToOutputBuffer
  have happend : State.append buffer body = buffer ++ [body] := by
    refine if_neg ?_
    simp only [INITIAL_BUFFER_POSITION, NETWORKMESSAGE_MAXSIZE]
    omega
  refine ⟨fun q => ?_, hinv.pool.setProtocol p rfl, fun q => ?_⟩
  · by_cases hq : q = p
    · subst hq
      have hpair := hinv.pair q
      rw [setProtocol_self, setProtocol_connection]
      refine ⟨hpair.ok, fun hc => ?_, hpair.removed⟩
      have hw := hpair.bodies hc
      simp [hbuffer, Option.map_some, happend, hw]
    · rw [setProtocol_ne _ p hq, setProtocol_connection]
      exact hinv.pair q
  · by_cases hq : q = p
    · subst hq
      rw [setProtocol_self, hbuffer]
      exact fun _ => hinv.watched q (by rw [hbuffer]; rfl)
    · rw [setProtocol_ne _ p hq]
      exact hinv.watched q

theorem Inv.removed {s : State} (h : Inv s) (hc : (s.connection p).closed = true) :
    Inv (s.removeProtocolFromAutosend p) := by
  have hmark : ∀ pr : Protocol, Pair (s.connection p) pr → Pair (s.connection p) { pr with removed := true } :=
    fun pr hpr => ⟨hpr.ok, hpr.bodies, fun _ => hc⟩
  unfold State.removeProtocolFromAutosend
  split
  · rename_i hm
    have hperm := Buckets.swapPop_perm hm
    have hnodup : (p :: Buckets.swapPop p s.bufferedProtocols).Nodup := hperm.nodup h.pool.nodup
    have hmem : ∀ q, q ≠ p → (q ∈ Buckets.swapPop p s.bufferedProtocols ↔ q ∈ s.bufferedProtocols) := by
      intro q hq
      rw [hperm.mem_iff, mem_cons]
      simp [hq]
    refine ⟨fun q => ?_, ⟨(nodup_cons.mp hnodup).2, fun q => ?_, fun hne => ?_, h.pool.events⟩, fun q => ?_⟩
    · by_cases hq : q = p
      · subst hq
        rw [setProtocol_self, setProtocol_self]
        have hpair := h.pair q
        exact ⟨hpair.ok, hpair.bodies, fun _ => hc⟩
      · rw [setProtocol_ne _ p hq, setProtocol_ne _ p hq]
        exact h.pair q
    · by_cases hq : q = p
      · subst hq
        rw [setProtocol_self, setProtocol_self]
        exact iff_of_false Bool.false_ne_true (nodup_cons.mp hnodup).1
      · rw [setProtocol_ne _ p hq, setProtocol_ne _ p hq]
        exact (h.pool.autosend q).trans (hmem q hq).symm
    · exact h.pool.scheduled (ne_nil_of_mem hm)
    by_cases hq : q = p
    · grind [setProtocol_self]
    · rw [setProtocol_ne _ p hq, setProtocol_ne _ p hq]
      exact h.watched q
  · refine ⟨fun q => ?_, h.pool.setProtocol p rfl, fun q => ?_⟩
    · by_cases hq : q = p
      · subst hq
        rw [setProtocol_self]
        exact hmark _ (h.pair q)
      · rw [setProtocol_ne _ p hq]
        exact h.pair q
    · by_cases hq : q = p
      · grind [setProtocol_self]
      · rw [setProtocol_ne _ p hq]
        exact h.watched q

/-! ## The tick -/

/-- Half way through the loop of `sendAll`: these protocols are still to come. -/
structure Flushing (s : State) (protocols : List Nat) : Prop where
  pair : ∀ p, Pair (s.connection p) (s.protocol p)
  none : s.bufferedProtocols = []
  unscheduled : s.sendScheduled = false
  autosend : ∀ p, (s.protocol p).inAutosend = true ↔ p ∈ protocols
  watched : ∀ p, (s.protocol p).outputBuffer.isSome → (s.protocol p).removed = false → p ∈ protocols

theorem flush_spec (s : State) (p : Nat) (throws : Bool) :
    (∃ c, (s.flush p throws).connection = update s.connection p c ∧
      (Pair (s.connection p) (s.protocol p) → Pair c ((s.flush p throws).protocol p))) ∧
    (s.flush p throws).protocol p = { s.protocol p with inAutosend := false, outputBuffer := none } ∧
    (∀ q, q ≠ p → (s.flush p throws).protocol q = s.protocol q) ∧
    (s.flush p throws).bufferedProtocols = s.bufferedProtocols ∧ (s.flush p throws).sendScheduled = s.sendScheduled := by
  unfold State.flush
  dsimp only
  rw [setProtocol_self]
  cases hb : (s.protocol p).outputBuffer with
  | none =>
    refine ⟨⟨s.connection p, (update_eq_self p s.connection).symm, fun h => ?_⟩, ?_, fun q hq => setProtocol_ne s p hq _,
      rfl, rfl⟩
    · rw [setProtocol_self]
      exact { h with }
    · rw [setProtocol_self, ← hb]
  | some buffer =>
    refine ⟨⟨(s.connection p).send (.buffered buffer) throws, rfl, fun h => ?_⟩, ?_, fun q hq => ?_, rfl, rfl⟩
    · rw [send_protocol, setProtocol_self, setProtocol_self]
      have hsent := h.send hb (show (none : Option OutputMessage).getD [] = [] from rfl) throws
      exact { hsent with }
    · rw [send_protocol, setProtocol_self, setProtocol_self]
    · rw [send_protocol, setProtocol_ne _ p hq, setProtocol_ne s p hq]

theorem Flushing.flush {s : State} {protocols : List Nat} (h : Flushing s (p :: protocols)) (hp : p ∉ protocols)
    (throws : Bool) : Flushing (s.flush p throws) protocols := by
  obtain ⟨⟨c, hconn, hpair⟩, hself, hothers, hnone, hunscheduled⟩ := flush_spec s p throws
  refine ⟨fun q => ?_, hnone.trans h.none, hunscheduled.trans h.unscheduled, fun q => ?_, fun q => ?_⟩
  · by_cases hq : q = p
    · subst hq
      rw [hconn, update_self]
      exact hpair (h.pair q)
    · rw [hconn, update_of_ne hq, hothers q hq]
      exact h.pair q
  · by_cases hq : q = p
    · subst hq
      rw [hself]
      exact iff_of_false Bool.false_ne_true hp
    · rw [hothers q hq, h.autosend q, mem_cons]
      exact or_iff_right hq
  · by_cases hq : q = p
    · grind
    · rw [hothers q hq]
      exact fun hb hr => (mem_cons.mp (h.watched q hb hr)).resolve_left hq

theorem Flushing.all {protocols : List Nat} {s : State} (h : Flushing s protocols) (hn : protocols.Nodup) (throws : Nat → Bool) :
    Flushing (protocols.foldl (fun s p => s.flush p (throws p)) s) [] := by
  induction protocols generalizing s with
  | nil => exact h
  | cons p protocols ih =>
    have hn' := nodup_cons.mp hn
    exact ih (h.flush hn'.1 (throws p)) hn'.2

theorem Inv.tick {s : State} (h : Inv s) (throws : Nat → Bool) (scheduled : Nat) :
    Inv ({ s with scheduled }.sendAll throws) ∧
    ∀ p, (({ s with scheduled }.sendAll throws).protocol p).removed = false →
      (({ s with scheduled }.sendAll throws).protocol p).outputBuffer = none := by
  unfold State.sendAll
  dsimp only
  split
  · rename_i hempty
    have hnil : s.bufferedProtocols = [] := List.isEmpty_iff.mp hempty
    refine ⟨⟨h.pair, ⟨h.pool.nodup, h.pool.autosend, fun hne => absurd hnil hne, fun hs => by cases hs⟩, h.watched⟩, ?_⟩
    intro p hr
    by_contra hb
    have hin := (h.pool.autosend p).mp (h.watched p (Option.isSome_iff_ne_none.mpr hb) hr)
    rw [hnil] at hin
    cases hin
  · have hstart : Flushing { s with scheduled, sendScheduled := false, bufferedProtocols := [] } s.bufferedProtocols :=
      ⟨h.pair, rfl, rfl, h.pool.autosend, fun p hb hr => (h.pool.autosend p).mp (h.watched p hb hr)⟩
    have hend := hstart.all h.pool.nodup throws
    rw [if_pos (by rw [hend.none]; rfl)]
    refine ⟨⟨hend.pair, ⟨?_, ?_, fun hne => absurd hend.none hne, ?_⟩, fun p hb hr => ?_⟩, fun p hr => ?_⟩
    · rw [hend.none]
      exact nodup_nil
    · rw [hend.none]
      exact hend.autosend
    · simp [hend.unscheduled]
    · exact absurd (hend.watched p hb hr) not_mem_nil
    · by_contra hb
      exact absurd (hend.watched p (Option.isSome_iff_ne_none.mpr hb) hr) not_mem_nil

/-! ## Runs -/

theorem inv_init : Inv {} := by
  refine ⟨fun p => ⟨⟨?_, ?_, ?_⟩, fun _ => rfl, ?_⟩, ⟨nodup_nil, fun p => ?_, fun h => absurd rfl h, ?_⟩, fun p hb => ?_⟩
  · exact .idle rfl rfl rfl rfl
  · exact fun h => by cases h
  · exact fun h => absurd h (Nat.lt_irrefl 0)
  · exact fun h => by cases h
  · exact iff_of_false Bool.false_ne_true not_mem_nil
  · exact fun h => by cases h
  · cases hb

theorem Inv.step {s : State} (h : Inv s) (e : Ev) : Inv (step s e) := by
  cases e with
  | write p body throws => exact h.writeToOutputBuffer p body throws
  | send p bytes throws => exact h.setConnection p (f := fun c => c.send (.direct bytes) throws) ((h.pair p).direct bytes throws)
  | tick throws =>
    unfold Outgoing.step
    dsimp only
    split
    · exact h
    · exact (h.tick throws _).1
  | posted p k throws =>
    have hkeeps := Connection.runPosted_keeps (s.connection p) k throws
    exact h.setConnection p (f := fun c => c.runPosted k throws)
      ((h.pair p).of_connection ((h.pair p).ok.runPosted k throws) hkeeps.1 hkeeps.2)
  | complete p k error throws =>
    have hkeeps := Connection.complete_keeps (s.connection p) k error throws
    exact h.setConnection p (f := fun c => c.complete k error throws)
      ((h.pair p).of_connection ((h.pair p).ok.complete k error throws) hkeeps.1 hkeeps.2)
  | close p force =>
    refine h.setConnection p (f := fun c => c.closeLocked force)
      ((h.pair p).of_connection ((h.pair p).ok.closeLocked force) ?_ fun _ => Connection.closeLocked_closed _ force)
    obtain ⟨o, r, he⟩ := Connection.closeLocked_eq (s.connection p) force
    rw [he]
  | release p =>
    unfold Outgoing.step
    dsimp only
    split
    · exact h
    rename_i hr
    have hok := (h.pair p).ok
    have hclosed := hok.releases (Nat.pos_of_ne_zero hr)
    have hless : Inv (s.setConnection p fun c => { c with releases := c.releases - 1 }) := by
      refine h.setConnection p (f := fun c => { c with releases := c.releases - 1 })
        ((h.pair p).of_connection ⟨?_, hok.socket, fun _ => hclosed⟩ rfl id)
      exact hok.stage.of_eq rfl rfl rfl rfl rfl id
    refine hless.removed ?_
    rw [setConnection_self]
    exact hclosed

theorem step_tick {s : State} (h : 0 < s.scheduled) (throws : Nat → Bool) :
    step s (.tick throws) = { s with scheduled := s.scheduled - 1 }.sendAll throws :=
  if_neg (Nat.ne_of_gt h)

theorem inv_run (es : List Ev) {s : State} (h : Inv s) : Inv (run step s es) := by
  induction es generalizing s with
  | nil => exact h
  | cons e es ih => exact ih (h.step e)

/-! ## What is written -/

/-- The bodies that an event writes to a protocol's buffer. -/
def writes (p : Nat) : Ev → List Body
  | .write q body _ => if q = p then [body] else []
  | _ => []

theorem written_setProtocol {s : State} {q : Nat} {f : Protocol → Protocol}
    (hf : (f (s.protocol q)).written = (s.protocol q).written) (p : Nat) :
    ((s.setProtocol q f).protocol p).written = (s.protocol p).written := by
  by_cases hp : p = q
  · subst hp
    simpa [State.setProtocol] using hf
  · simp [State.setProtocol, hp]

theorem written_addProtocolToAutosend (s : State) (q p : Nat) :
    ((s.addProtocolToAutosend q).protocol p).written = (s.protocol p).written := by
  unfold State.addProtocolToAutosend
  dsimp only
  split
  · rfl
  have hadded := written_setProtocol (s := { s with bufferedProtocols := s.bufferedProtocols ++ [q] })
    (q := q) (f := fun pr => { pr with inAutosend := true }) rfl p
  split
  · exact hadded
  · exact hadded

theorem written_removeProtocolFromAutosend (s : State) (q p : Nat) :
    ((s.removeProtocolFromAutosend q).protocol p).written = (s.protocol p).written := by
  unfold State.removeProtocolFromAutosend
  refine (written_setProtocol (by split <;> rfl) p).trans ?_
  split
  · exact written_setProtocol (s := { s with bufferedProtocols := Buckets.swapPop q s.bufferedProtocols })
      (f := fun pr => { pr with inAutosend := false }) rfl p
  · rfl

theorem written_getOutputBuffer (s : State) (q size : Nat) (throws : Bool) (p : Nat) :
    ((s.getOutputBuffer q size throws).protocol p).written = (s.protocol p).written := by
  unfold State.getOutputBuffer
  split
  · exact (written_addProtocolToAutosend _ q p).trans (written_setProtocol rfl p)
  split
  · exact (written_addProtocolToAutosend _ q p).trans (written_setProtocol rfl p)
  · rfl

theorem written_flush (s : State) (q : Nat) (throws : Bool) (p : Nat) :
    ((s.flush q throws).protocol p).written = (s.protocol p).written := by
  have hleft := written_setProtocol (s := s) (q := q) (f := fun pr => { pr with inAutosend := false }) rfl p
  unfold State.flush
  dsimp only
  split
  · exact hleft
  · exact (written_setProtocol (f := fun pr => { pr with outputBuffer := none }) rfl p).trans hleft

theorem written_sendAll (s : State) (throws : Nat → Bool) (p : Nat) :
    ((s.sendAll throws).protocol p).written = (s.protocol p).written := by
  have hfold : ∀ (qs : List Nat) (s : State),
      ((qs.foldl (fun s q => s.flush q (throws q)) s).protocol p).written = (s.protocol p).written := by
    intro qs
    induction qs with
    | nil => exact fun _ => rfl
    | cons q qs ih => exact fun s => (ih _).trans (written_flush s q (throws q) p)
  unfold State.sendAll
  dsimp only
  split
  · rfl
  split
  · exact hfold _ _
  · exact hfold _ _

theorem written_step (s : State) (e : Ev) (p : Nat) :
    ((step s e).protocol p).written = (s.protocol p).written ++ writes p e := by
  cases e with
  | write q body throws =>
    have hkeeps := written_getOutputBuffer s q body.msg.length throws
    by_cases hp : p = q
    · subst hp
      simp [step, writes, State.writeToOutputBuffer, State.setProtocol, hkeeps]
    · simp [step, writes, State.writeToOutputBuffer, State.setProtocol, hkeeps, hp, Ne.symm hp]
  | tick throws =>
    show ((if s.scheduled = 0 then s else _ : State).protocol p).written = (s.protocol p).written ++ []
    rw [append_nil]
    split
    · rfl
    · exact written_sendAll _ throws p
  | release q =>
    show ((if (s.connection q).releases = 0 then s else _ : State).protocol p).written = (s.protocol p).written ++ []
    rw [append_nil]
    split
    · rfl
    · exact written_removeProtocolFromAutosend _ q p
  | send q bytes throws => exact (append_nil _).symm
  | posted q k throws => exact (append_nil _).symm
  | complete q k error throws => exact (append_nil _).symm
  | close q force => exact (append_nil _).symm

theorem written_run (es : List Ev) (s : State) (p : Nat) :
    ((run step s es).protocol p).written = (s.protocol p).written ++ es.flatMap (writes p) := by
  induction es generalizing s with
  | nil => exact (append_nil _).symm
  | cons e es ih => rw [run_cons, ih, written_step, flatMap_cons, append_assoc]

/-- In every run one write of a connection is in flight at most, the socket gets the messages in
    the order they were accepted, each once, no body of an open connection is lost or sent twice,
    and a buffer has its tick; after the tick every body has been sent. -/
theorem outgoing_in_order (es : List Ev) :
    InOrder (run step {} es) ∧ (∀ p, ((run step {} es).protocol p).written = es.flatMap (writes p)) ∧
    ∀ throws p, 0 < (run step {} es).scheduled → ((step (run step {} es) (.tick throws)).connection p).closed = false →
      ((step (run step {} es) (.tick throws)).protocol p).written = sent (step (run step {} es) (.tick throws)) p := by
  have h := inv_run es inv_init
  refine ⟨h.inOrder, written_run es {}, fun throws p hs hopen => ?_⟩
  have hafter := h.step (.tick throws)
  have hnot : ((step (run step {} es) (.tick throws)).protocol p).removed = false := by
    cases hr : ((step (run step {} es) (.tick throws)).protocol p).removed with
    | false => rfl
    | true => rw [(hafter.pair p).removed hr] at hopen; cases hopen
  have hempty : ((step (run step {} es) (.tick throws)).protocol p).outputBuffer = none := by
    have htick := (h.tick throws ((run step {} es).scheduled - 1)).2 p
    rw [step_tick hs] at hnot ⊢
    exact htick hnot
  rw [(hafter.pair p).bodies hopen, hempty]
  exact append_nil _

def short (bytes : Bytes) (h : bytes.length ≤ 65477) : Body :=
  ⟨(Framing.holding bytes).toNetworkMessage, .write .new (Framing.writes_holding h)⟩

theorem one_short : [20].length ≤ 65477 := by decide

theorem two_short : [30, 31].length ≤ 65477 := by decide

/-- Two bodies are written, one of them for another protocol's turn to come between, and the
    tick comes. -/
def twoBodies : List Ev := [.write 0 (short [20] one_short) false, .write 1 (short [20] one_short) false,
  .write 0 (short [30, 31] two_short) false]

theorem body_sent : (twoBodies.flatMap (writes 0)).map (fun b => b.msg.length) = [1, 2] ∧
    ((step (run step {} twoBodies) (.tick fun _ => false)).protocol 0).written =
      sent (step (run step {} twoBodies) (.tick fun _ => false)) 0 :=
  ⟨by decide, (outgoing_in_order twoBodies).2.2 (fun _ => false) 0 (by decide) (by decide)⟩

end Backlands.Net.Outgoing
