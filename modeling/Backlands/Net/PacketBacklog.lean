/-
  Backlands.Net.PacketBacklog — admission of packets to the dispatcher (packet_backlog.h).

  A connection's network threads call `tryAcquire` before they queue a packet; the ticket it hands
  out lives in the queued task and counts against the limit until it is released. The counter and
  the flood flag are atomics, everything else is local to a thread, so a run is an interleaving of
  the atomic steps of any number of calls with the releases and moves of tickets. The counter is the
  source's 32-bit word. The diagnostic counters are compiled out.

  Proved: `admission_iff`. Counterexample: `limit_passed`.
-/

import Backlands.Lib.Runs
import Backlands.Lib.Tally

namespace Backlands.Net.PacketBacklog

open Backlands.Lib List

structure Admission where
  ticket : Bool := false
  observedPending : UInt32 := 0
  requestDisconnect : Bool := false

/-- Where a `tryAcquire` stands between two of its atomic steps. -/
inductive Phase where
  | entered
  /-- `floodTriggered` was found clear. -/
  | loaded
  | counted (pending : UInt32)
  /-- To be refused, its increment still standing. -/
  | refused (pending : UInt32)
  | compensated (pending : UInt32)
  | admitted (pending : UInt32)
  | returned (admission : Admission)

structure Call where
  /-- `floodTriggered` was set when the call started; no code reads this. -/
  late : Bool
  phase : Phase

inductive Ticket where
  | null
  | holding
  /-- A move-assignment has released the ticket and is to take the other one's state. -/
  | assigning (other : Nat)

structure State where
  limit : UInt32
  pending : UInt32 := 0
  floodTriggered : Bool := false
  calls : List Call := []
  tickets : List Ticket := []

inductive Event where
  | tryAcquire
  /-- The next atomic step of a call. -/
  | advance (i : Nat)
  /-- `~Ticket`. -/
  | release (t : Nat)
  | moveConstruct (other : Nat)
  | moveAssign (t other : Nat)
  /-- The second half of a move-assignment. -/
  | exchange (t : Nat)

def State.setPhase (s : State) (i : Nat) (c : Call) (p : Phase) : State :=
  { s with calls := s.calls.set i { c with phase := p } }

def advance (s : State) (i : Nat) : State :=
  match s.calls[i]? with
  | none => s
  | some c =>
    match c.phase with
    | .entered =>
      if s.floodTriggered then s.setPhase i c (.returned {}) else s.setPhase i c .loaded
    | .loaded => { s with pending := s.pending + 1 }.setPhase i c (.counted (s.pending + 1))
    | .counted pending =>
      if pending > s.limit ∨ s.floodTriggered = true then s.setPhase i c (.refused pending)
      else s.setPhase i c (.admitted pending)
    | .refused pending => { s with pending := s.pending - 1 }.setPhase i c (.compensated pending)
    | .compensated pending =>
      if pending > s.limit ∧ s.floodTriggered = false then
        { s with floodTriggered := true }.setPhase i c
          (.returned { observedPending := pending, requestDisconnect := true })
      else s.setPhase i c (.returned { observedPending := pending })
    | .admitted pending =>
      { s with tickets := s.tickets ++ [Ticket.holding] }.setPhase i c
        (.returned { ticket := true, observedPending := pending })
    | .returned _ => s

def release (s : State) (t : Nat) : State :=
  match s.tickets[t]? with
  | some .holding => { s with pending := s.pending - 1, tickets := s.tickets.set t .null }
  | _ => s

def take (tickets : List Ticket) (other : Nat) : Ticket × List Ticket :=
  match tickets[other]? with
  | some .holding => (.holding, tickets.set other .null)
  | _ => (.null, tickets)

def moveConstruct (s : State) (other : Nat) : State :=
  { s with tickets := (take s.tickets other).2 ++ [(take s.tickets other).1] }

def moveAssign (s : State) (t other : Nat) : State :=
  if t ≠ other then
    { release s t with tickets := (release s t).tickets.set t (.assigning other) }
  else s

def exchange (s : State) (t : Nat) : State :=
  match s.tickets[t]? with
  | some (.assigning other) =>
    { s with tickets := (take s.tickets other).2.set t (take s.tickets other).1 }
  | _ => s

def step (s : State) : Event → State
  | .tryAcquire => { s with calls := s.calls ++ [⟨s.floodTriggered, .entered⟩] }
  | .advance i => advance s i
  | .release t => release s t
  | .moveConstruct other => moveConstruct s other
  | .moveAssign t other => moveAssign s t other
  | .exchange t => exchange s t

/-! ## What is counted -/

@[simp] def Ticket.live : Ticket → Bool
  | .holding => true
  | _ => false

/-- Between its increment and its decrement or its ticket. -/
@[simp] def Phase.inFlight : Phase → Bool
  | .counted _ | .refused _ | .admitted _ => true
  | _ => false

/-- May still become a ticket. -/
@[simp] def Phase.entitled (limit : UInt32) : Phase → Bool
  | .counted pending => pending ≤ limit
  | .admitted _ => true
  | _ => false

@[simp] def Phase.disconnects : Phase → Bool
  | .returned admission => admission.requestDisconnect
  | _ => false

/-- Has a ticket, or is past the last check before one. -/
@[simp] def Phase.yields : Phase → Bool
  | .admitted _ => true
  | .returned admission => admission.ticket
  | _ => false

def liveTickets (s : State) : Nat := s.tickets.countP Ticket.live
def inFlight (s : State) : Nat := s.calls.countP fun c => c.phase.inFlight
def entitled (s : State) : Nat := s.calls.countP fun c => c.phase.entitled s.limit
def disconnects (s : State) : Nat := s.calls.countP fun c => c.phase.disconnects

@[simp] theorem liveTickets_pending (s : State) (x : UInt32) :
    liveTickets { s with pending := x } = liveTickets s := rfl

@[simp] theorem liveTickets_floodTriggered (s : State) (x : Bool) :
    liveTickets { s with floodTriggered := x } = liveTickets s := rfl

structure Kept (limit : UInt32) (s : State) : Prop where
  counted : s.pending.toNat = liveTickets s + inFlight s
  bounded : liveTickets s ≤ limit.toNat
  releasable : ∀ t : Nat, s.tickets[t]? = some Ticket.holding → 0 < s.pending
  once : disconnects s ≤ 1
  late : ∀ c ∈ s.calls, c.late = true → c.phase.yields = false

/-- No increment finds the counter at its largest value. -/
def NoWrap (s : State) (e : Event) : Prop :=
  ∀ i c, e = .advance i → s.calls[i]? = some c → c.phase = .loaded → s.pending.toNat + 1 < 2 ^ 32

structure Inv (limit : UInt32) (s : State) : Prop where
  fixed : s.limit = limit
  counted : s.pending.toNat = liveTickets s + inFlight s
  room : liveTickets s + entitled s ≤ limit.toNat
  once : disconnects s = unit s.floodTriggered
  late : ∀ c ∈ s.calls, c.late = true → s.floodTriggered = true ∧
    (c.phase = .entered ∨ ∃ admission, c.phase = .returned admission ∧ admission.ticket = false)

variable {limit : UInt32} {s : State} {i t : Nat} {c : Call} {p : Phase}

theorem Inv.kept (h : Inv limit s) : Kept limit s := by
  refine ⟨h.counted, Nat.le_trans (Nat.le_add_right _ _) h.room, ?_, ?_, ?_⟩
  · intro t ht
    have hlive : 0 < liveTickets s :=
      countP_pos_iff.mpr ⟨_, mem_of_getElem? ht, rfl⟩
    have := h.counted
    exact UInt32.lt_iff_toNat_lt.mpr (by show 0 < s.pending.toNat; omega)
  · rw [h.once]
    exact unit_le_one _
  intro c hc hl
  rcases (h.late c hc hl).2 with hp | ⟨admission, hp, ha⟩
  · rw [hp]
    rfl
  · rw [hp]
    exact ha

theorem inv_new (limit : UInt32) : Inv limit { limit := limit } :=
  ⟨rfl, rfl, Nat.zero_le _, rfl, fun _ hc => nomatch hc⟩

theorem countP_setPhase (q : Phase → Bool) (hi : s.calls[i]? = some c) (p : Phase) :
    (s.setPhase i c p).calls.countP (fun c => q c.phase) + unit (q c.phase) =
      s.calls.countP (fun c => q c.phase) + unit (q p) :=
  countP_set_add (fun c : Call => q c.phase) hi { c with phase := p }

/-- A call moves to its next phase; `s'` is `s` after what the step does to the counter, the
    flag and the tickets. -/
theorem Inv.moved (h : Inv limit s) (hi : s.calls[i]? = some c) {s' : State} (hlimit : s'.limit = s.limit)
    (hcalls : s'.calls = s.calls)
    (hcount : s'.pending.toNat + unit c.phase.inFlight + liveTickets s =
      s.pending.toNat + unit p.inFlight + liveTickets s')
    (hroom : liveTickets s' + entitled s + unit (p.entitled limit) ≤ limit.toNat + unit (c.phase.entitled limit))
    (honce : unit s'.floodTriggered + unit c.phase.disconnects = unit s.floodTriggered + unit p.disconnects)
    (hflood : s.floodTriggered = true → s'.floodTriggered = true)
    (hlate : c.late = true → p = .entered ∨ ∃ admission, p = .returned admission ∧ admission.ticket = false) :
    Inv limit (s'.setPhase i c p) := by
  have hi' : s'.calls[i]? = some c := by rw [hcalls, hi]
  have hf := countP_setPhase Phase.inFlight hi' p
  have he := countP_setPhase (Phase.entitled limit) hi' p
  have hd := countP_setPhase Phase.disconnects hi' p
  rw [hcalls] at hf he hd
  have hc := h.counted
  have ho := h.once
  simp only [inFlight, entitled, disconnects, h.fixed] at hc ho hroom
  refine ⟨hlimit.trans h.fixed, ?_, ?_, ?_, ?_⟩
  · show s'.pending.toNat = liveTickets s' + _
    unfold inFlight
    omega
  · show liveTickets s' + entitled (s'.setPhase i c p) ≤ _
    have hl : (s'.setPhase i c p).limit = limit := hlimit.trans h.fixed
    simp only [entitled, hl]
    omega
  · show disconnects (s'.setPhase i c p) = unit s'.floodTriggered
    unfold disconnects
    omega
  intro d hd' hl
  rcases mem_or_eq_of_mem_set hd' with hd' | rfl
  · have := h.late d (by rwa [← hcalls]) hl
    exact ⟨hflood this.1, this.2⟩
  · have := h.late c (mem_of_getElem? hi) hl
    exact ⟨hflood this.1, hlate hl⟩

theorem entitled_le_inFlight (s : State) : entitled s ≤ inFlight s := by
  unfold entitled inFlight
  refine countP_mono_left ?_
  intro c _ he
  cases hp : c.phase <;> simp_all

theorem inv_advance (h : Inv limit s) (hn : NoWrap s (.advance i)) : Inv limit (advance s i) := by
  unfold advance
  cases hi : s.calls[i]? with
  | none => exact h
  | some c =>
    have hroom := h.room
    have hcount := h.counted
    have hmem := mem_of_getElem? hi
    have hlate := h.late c hmem
    dsimp only
    cases hp : c.phase with
    | entered =>
      dsimp only
      split
      · exact h.moved hi rfl rfl (by simp [hp]) (by simpa [hp] using hroom) (by simp [hp]) id
          fun _ => .inr ⟨_, rfl, rfl⟩
      · next hclear =>
        exact h.moved hi rfl rfl (by simp [hp]) (by simpa [hp] using hroom) (by simp [hp]) id
          fun hl => absurd (hlate hl).1 hclear
    | loaded =>
      have hwrap := hn i c rfl hi hp
      have hadd := toNat_add_one hwrap
      have hle := entitled_le_inFlight s
      refine h.moved hi rfl rfl ?_ ?_ (by simp [hp]) id ?_
      · simp only [hp, Phase.inFlight, hadd, unit_false, unit_true, liveTickets_pending]
      · rw [liveTickets_pending]
        by_cases hlim : s.pending + 1 ≤ limit
        · -- the counter it saw counts every ticket and call already entitled
          have := UInt32.le_iff_toNat_le.mp hlim
          simp only [Phase.entitled, decide_eq_true hlim, unit_true]
          omega
        · simp only [Phase.entitled, decide_eq_false hlim, unit_false]
          omega
      · grind
    | counted pending =>
      have hnot : c.late = true → False := by
        grind
      dsimp only
      split
      · exact h.moved hi rfl rfl (by simp [hp]) (by simp [hp]; omega) (by simp [hp]) id
          fun hl => (hnot hl).elim
      next hok =>
      have hle : pending ≤ limit := by
        rw [← h.fixed]
        exact Std.not_lt.mp fun hgt => hok (.inl hgt)
      exact h.moved hi rfl rfl (by simp [hp]) (by simp [hp, hle]; omega) (by simp [hp]) id
        fun hl => (hnot hl).elim
    | refused pending =>
      have hpos : 0 < inFlight s := countP_pos_iff.mpr ⟨c, hmem, by simp [hp]⟩
      have hsub := toNat_sub_one (x := s.pending) (by omega)
      refine h.moved hi rfl rfl ?_ (by simpa [hp] using hroom) (by simp [hp]) id ?_
      · simp only [hp, Phase.inFlight, unit_false, unit_true, liveTickets_pending]
        omega
      · grind
    | compensated pending =>
      dsimp only
      split
      · next hcas =>
        exact h.moved hi rfl rfl (by simp [hp]) (by simpa [hp] using hroom) (by simp [hp, hcas.2])
          (fun _ => rfl) fun _ => .inr ⟨_, rfl, rfl⟩
      · exact h.moved hi rfl rfl (by simp [hp]) (by simpa [hp] using hroom) (by simp [hp]) id
          fun _ => .inr ⟨_, rfl, rfl⟩
    | admitted pending =>
      have hlive : liveTickets { s with tickets := s.tickets ++ [Ticket.holding] } = liveTickets s + 1 :=
        countP_snoc _ _ _
      refine h.moved hi rfl rfl ?_ ?_ (by simp [hp]) id ?_
      · rw [hlive, hp]
        simp
        omega
      · rw [hlive, hp]
        simp
        omega
      · grind
    | returned admission => exact h

/-! ## Releases and moves -/

theorem Inv.tickets (h : Inv limit s) {ts : List Ticket} (hl : ts.countP Ticket.live = liveTickets s) :
    Inv limit { s with tickets := ts } := by
  have hcount := h.counted
  have hroom := h.room
  refine ⟨h.fixed, ?_, ?_, h.once, h.late⟩
  · show s.pending.toNat = ts.countP Ticket.live + inFlight s
    omega
  · show ts.countP Ticket.live + entitled s ≤ _
    omega

theorem inv_release (h : Inv limit s) (t : Nat) : Inv limit (release s t) := by
  unfold release
  split
  · next ht =>
    have hset := countP_set_add Ticket.live ht .null
    have hpos : 0 < liveTickets s := countP_pos_iff.mpr ⟨_, mem_of_getElem? ht, rfl⟩
    have hcount := h.counted
    have hroom := h.room
    have hsub := toNat_sub_one (x := s.pending) (by omega)
    have hlive : liveTickets { s with pending := s.pending - 1, tickets := s.tickets.set t .null } + 1 =
      liveTickets s := hset
    refine ⟨h.fixed, ?_, ?_, h.once, h.late⟩
    · show (s.pending - 1).toNat = _ + inFlight s
      omega
    · show _ + entitled s ≤ _
      omega
  · exact h

theorem take_live (tickets : List Ticket) (other : Nat) :
    (take tickets other).2.countP Ticket.live + unit (take tickets other).1.live = tickets.countP Ticket.live := by
  unfold take
  split
  · next ht => exact countP_set_add Ticket.live ht .null
  · rfl

theorem take_keeps {tickets : List Ticket} {x : Ticket} (ht : tickets[t]? = some x) (hx : x.live = false)
    (other : Nat) : (take tickets other).2[t]? = some x := by
  unfold take
  split
  · next ho =>
    have hne : other ≠ t := by
      intro e
      rw [e, ht, Option.some.injEq] at ho
      rw [ho] at hx
      cases hx
    rw [getElem?_set_ne hne, ht]
  · exact ht

theorem release_null (s : State) (t : Nat) {x : Ticket} (hx : (release s t).tickets[t]? = some x) :
    x.live = false := by
  unfold release at hx
  split at hx
  · next ht =>
    have hlt := (List.getElem?_eq_some_iff.mp ht).1
    simp only [getElem?_set_self hlt, Option.some.injEq] at hx
    rw [← hx]
    rfl
  · next hno =>
    cases x with
    | holding => exact absurd hx hno
    | null => rfl
    | assigning other => rfl

theorem live_set {tickets : List Ticket} {y : Ticket} (hx : ∀ x, tickets[t]? = some x → x.live = false)
    (hy : y.live = false) : (tickets.set t y).countP Ticket.live = tickets.countP Ticket.live := by
  cases ht : tickets[t]? with
  | none => rw [set_eq_of_length_le (List.getElem?_eq_none_iff.mp ht)]
  | some x =>
    have := countP_set_add Ticket.live ht y
    rw [hx x ht, hy] at this
    omega

theorem inv_moveAssign (h : Inv limit s) (t other : Nat) : Inv limit (moveAssign s t other) := by
  unfold moveAssign
  split
  · refine (inv_release h t).tickets ?_
    exact live_set (y := .assigning other) (fun x hx => release_null s t hx) rfl
  · exact h

theorem inv_exchange (h : Inv limit s) (t : Nat) : Inv limit (exchange s t) := by
  unfold exchange
  split
  · next other ht =>
    refine h.tickets ?_
    have hset := countP_set_add Ticket.live (take_keeps ht rfl other) (take s.tickets other).1
    have htake := take_live s.tickets other
    have hx : (Ticket.assigning other).live = false := rfl
    rw [hx, unit_false] at hset
    unfold liveTickets
    omega
  · exact h

theorem inv_tryAcquire (h : Inv limit s) : Inv limit (step s .tryAcquire) := by
  refine ⟨h.fixed, ?_, ?_, ?_, ?_⟩
  · show s.pending.toNat = liveTickets s + List.countP _ (s.calls ++ [_])
    rw [countP_snoc]
    exact h.counted
  · show liveTickets s + List.countP _ (s.calls ++ [_]) ≤ _
    rw [countP_snoc]
    exact h.room
  · show List.countP _ (s.calls ++ [_]) = _
    rw [countP_snoc]
    exact h.once
  · intro c hc hl
    rcases mem_append.mp hc with hc | hc
    · exact h.late c hc hl
    · rw [mem_singleton.mp hc] at hl ⊢
      exact ⟨hl, .inl rfl⟩

theorem inv_step (h : Inv limit s) {e : Event} (hn : NoWrap s e) : Inv limit (step s e) := by
  cases e with
  | tryAcquire => exact inv_tryAcquire h
  | advance i => exact inv_advance h hn
  | release t => exact inv_release h t
  | moveConstruct other =>
    refine h.tickets ?_
    rw [countP_snoc]
    exact take_live s.tickets other
  | moveAssign t other => exact inv_moveAssign h t other
  | exchange t => exact inv_exchange h t

/-- An increment of the largest value leaves the counter at zero with a call in flight. -/
theorem noWrap_of_kept {e : Event} (hk : Kept limit (step s e)) : NoWrap s e := by
  intro i c he hi hp
  subst he
  by_contra hwrap
  have hlt := s.pending.toNat_lt
  have hzero : s.pending + 1 = 0 := by
    refine UInt32.toNat_inj.mp ?_
    show (s.pending.toNat + 1) % 2 ^ 32 = 0
    omega
  have hstep : step s (.advance i) = { s with pending := s.pending + 1 }.setPhase i c (.counted (s.pending + 1)) := by
    show advance s i = _
    unfold advance
    simp only [hi, hp]
  have hcounted := hk.counted
  have hlt' := (List.getElem?_eq_some_iff.mp hi).1
  have hpos : 0 < inFlight (step s (.advance i)) := by
    rw [hstep]
    exact countP_pos_iff.mpr ⟨_, mem_set hlt' _, rfl⟩
  have hp0 : (step s (.advance i)).pending.toNat = 0 := by
    rw [hstep]
    rw [hzero]
    rfl
  omega

/-- All along a run from a new backlog: the counter is the live tickets and the calls between
    increment and decrement, the live tickets stay within the limit, no release decrements
    from zero, at most one call asks for the disconnect and no call that starts under a flood
    yields a ticket, exactly when no increment finds the counter at its largest value. -/
theorem admission_iff (limit : UInt32) (es : List Event) :
    (∀ k ≤ es.length, Kept limit (run step { limit := limit } (es.take k))) ↔
      Allowed step NoWrap { limit := limit } es :=
  along_iff_allowed (I := Inv limit) (fun _ => Inv.kept) (fun _ _ hn h => inv_step h hn)
    (fun _ _ _ => noWrap_of_kept) (inv_new limit) es

/-! ## A limit at the end of the counter -/

/-- Call `i` from its start to its ticket. -/
def grant (i : Nat) : List Event := [.tryAcquire, .advance i, .advance i, .advance i, .advance i]

def grants (n : Nat) : List Event := (List.range n).flatMap grant

/-- Every call so far has returned with a ticket and no ticket was given back. -/
structure Granted (n : Nat) (s : State) : Prop where
  limit : s.limit = 4294967295
  clear : s.floodTriggered = false
  size : s.calls.length = n
  live : liveTickets s = n

section
variable (x : UInt32) (cs : List Call) (ts : List Ticket)

theorem setPhase_last (limit : UInt32) (flood : Bool) (c : Call) (p : Phase) :
    (State.mk limit x flood (cs ++ [c]) ts).setPhase cs.length c p =
      ⟨limit, x, flood, cs ++ [{ c with phase := p }], ts⟩ := by
  simp [State.setPhase]

theorem call_last (c : Call) : (cs ++ [c])[cs.length]? = some c :=
  getElem?_concat_length

theorem advance_entered : advance ⟨4294967295, x, false, cs ++ [⟨false, .entered⟩], ts⟩ cs.length =
    ⟨4294967295, x, false, cs ++ [⟨false, .loaded⟩], ts⟩ := by
  unfold advance
  rw [call_last]
  exact setPhase_last x cs ts _ _ _ _

theorem advance_loaded : advance ⟨4294967295, x, false, cs ++ [⟨false, .loaded⟩], ts⟩ cs.length =
    ⟨4294967295, x + 1, false, cs ++ [⟨false, .counted (x + 1)⟩], ts⟩ := by
  unfold advance
  rw [call_last]
  exact setPhase_last (x + 1) cs ts _ _ _ _

theorem advance_counted (y : UInt32) :
    advance ⟨4294967295, x, false, cs ++ [⟨false, .counted y⟩], ts⟩ cs.length =
      ⟨4294967295, x, false, cs ++ [⟨false, .admitted y⟩], ts⟩ := by
  have hle : ¬ (y > 4294967295 ∨ false = true) := by
    intro h
    rcases h with h | h
    · have hy := y.toNat_lt
      have hlt : 4294967295 < y.toNat := UInt32.lt_iff_toNat_lt.mp h
      omega
    · cases h
  unfold advance
  rw [call_last]
  exact (if_neg hle).trans (setPhase_last x cs ts _ _ _ _)

theorem advance_admitted (y : UInt32) :
    advance ⟨4294967295, x, false, cs ++ [⟨false, .admitted y⟩], ts⟩ cs.length =
      ⟨4294967295, x, false, cs ++ [⟨false, .returned { ticket := true, observedPending := y }⟩],
        ts ++ [Ticket.holding]⟩ := by
  unfold advance
  rw [call_last]
  exact setPhase_last x cs (ts ++ [Ticket.holding]) _ _ _ _

end

theorem granted_step {n : Nat} (h : Granted n s) : Granted (n + 1) (run step s (grant n)) := by
  obtain ⟨hlimit, hclear, rfl, hlive⟩ := h
  obtain ⟨limit, x, flood, cs, ts⟩ := s
  subst hlimit hclear
  unfold grant
  rw [run_cons, run_cons, run_cons, run_cons, run_cons]
  simp only [step]
  rw [advance_entered, advance_loaded, advance_counted, advance_admitted]
  refine ⟨rfl, rfl, length_append, ?_⟩
  show (ts ++ [Ticket.holding]).countP Ticket.live = _
  rw [countP_snoc]
  exact congrArg (· + 1) hlive

theorem granted_grants (n : Nat) : Granted n (run step { limit := 4294967295 } (grants n)) := by
  induction n with
  | zero => exact ⟨rfl, rfl, rfl, rfl⟩
  | succ n ih =>
    have hgrants : grants (n + 1) = grants n ++ grant n := by
      unfold grants
      rw [range_succ, flatMap_append, flatMap_singleton]
    rw [hgrants, run_append]
    exact granted_step ih

/-- With the largest limit, `2 ^ 32` calls in a row all return with a ticket. -/
theorem limit_passed : ¬ ∀ (limit : UInt32) (es : List Event) (k : Nat), k ≤ es.length →
    Kept limit (run step { limit := limit } (es.take k)) := by
  intro hall
  have hlive := (granted_grants (2 ^ 32)).live
  have hkept := hall 4294967295 (grants (2 ^ 32)) _ le_rfl
  rw [take_length] at hkept
  have hle := hkept.bounded
  rw [hlive] at hle
  exact absurd hle (by decide)

end Backlands.Net.PacketBacklog
