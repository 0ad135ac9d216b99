/-
  Backlands.Login.Entering — from the reservation of a character to the world
  (src/protocolgame.cpp, src/save_manager.cpp).

  A login reserves the character's guid and hands over to the thread pool: a timeout is
  scheduled, and a callback waits for the flushes of the character's saves. Whoever sets
  `completed` first goes on: the timeout releases the reservation, the callback releases it or
  loads the character and finishes the login. What is still to run is in `tasks`, a piece of
  the code that runs in one go each, and any of them may be next. Clients disconnect at any
  time; each login is a session of its own.

  Proved: `reservation_released_once`, for each login in every state reached: its reservation
  is released at most once, and once when nothing of it is left to run, which is after few
  steps; it enters the world at most once, and not after a release; and
  `one_login_per_character`, two logins that are not released are for different characters.
-/

import Backlands.Lib.Runs
import Backlands.Lib.Tally

namespace Backlands.Login.Entering

open Backlands.Lib Function List

abbrev Guid := Nat

abbrev SessionId := Nat

/-- Where a reservation is released. -/
inductive Exit where
  | failedRecovery
  | timedOut
  | notDrained
  | noClient
  | notLoaded
  | notPlaced
  | entered
  deriving DecidableEq

inductive LogEntry where
  | releaseLogin (exit : Exit)
  /-- `placeCreature` has put the player into the world. -/
  | placed
  deriving DecidableEq

/-- What is left to run of a login. -/
inductive Task where
  /-- The task of the thread pool: the timeout is scheduled, then the callback is handed over. -/
  | detached
  | handOver
  /-- The task of `drainPlayerFlushAsync`. -/
  | drain
  /-- The callback, in `flushChainCallbacks` or with its outcome on the dispatcher. -/
  | chained
  | callback (drained : Bool)
  /-- The callback after `stopEvent`. -/
  | stopped (drained : Bool)
  /-- The timeout, scheduled or taken off the schedule. -/
  | timeout
  | due
  | timedOut
  | notDrained
  | load
  | finishLogin (loaded : Bool)
  deriving DecidableEq

/-- `ProtocolGame`, and what one `login` of it did. -/
structure Session where
  guid : Guid := 0
  /-- `reserveLogin` was granted. -/
  reserved : Bool := false
  /-- The flag that the timeout and the callback share. -/
  completed : Bool := false
  player : Bool := true
  connection : Bool := true
  log : List LogEntry := []

structure World where
  pendingLogins : Guid → Bool := fun _ => false
  sessions : SessionId → Session := fun _ => {}
  tasks : List (SessionId × Task) := []

/-- What the rest of the server answers to a task. -/
structure Choice where
  /-- A flush of the character is in flight or pending. -/
  inFlight : Bool
  success : Bool
  loaded : Bool
  placedAtLogin : Bool
  placedAtTemple : Bool

namespace World

def post (id : SessionId) (t : Task) (w : World) : World := { w with tasks := w.tasks ++ [(id, t)] }

def modify (id : SessionId) (f : Session → Session) (w : World) : World :=
  { w with sessions := update w.sessions id (f (w.sessions id)) }

def write (id : SessionId) (entry : LogEntry) (w : World) : World := w.modify id fun s => { s with log := s.log ++ [entry] }

def releaseLogin (id : SessionId) (exit : Exit) (w : World) : World :=
  let w := w.write id (.releaseLogin exit)
  { w with pendingLogins := update w.pendingLogins (w.sessions id).guid false }

/-- `completed->exchange(true)`: what it was goes to `f`. -/
def exchange (id : SessionId) (f : Bool → World → World) (w : World) : World :=
  f (w.sessions id).completed (w.modify id fun s => { s with completed := true })

def stopEvent (id : SessionId) (w : World) : World := { w with tasks := w.tasks.filter (· ≠ (id, .timeout)) }

def finishLogin (id : SessionId) (loaded : Bool) (c : Choice) (w : World) : World :=
  if !(w.sessions id).player || !(w.sessions id).connection then w.releaseLogin id .noClient
  else if !loaded then w.releaseLogin id .notLoaded
  else if !c.placedAtLogin && !c.placedAtTemple then w.releaseLogin id .notPlaced
  else (w.write id .placed).releaseLogin id .entered

def exec (id : SessionId) (c : Choice) (w : World) : Task → World
  | .detached => (w.post id .timeout).post id .handOver
  | .handOver => w.post id .drain
  | .drain => w.post id (if c.inFlight then .chained else .callback true)
  | .chained => w.post id (.callback c.success)
  | .callback drained => (w.stopEvent id).post id (.stopped drained)
  | .stopped drained => w.exchange id fun completed w =>
      if completed then w else if drained then w.post id .load else w.post id .notDrained
  | .timeout => w.post id .due
  | .due => w.exchange id fun completed w => if completed then w else w.post id .timedOut
  | .timedOut => w.releaseLogin id .timedOut
  | .notDrained => w.releaseLogin id .notDrained
  | .load => w.post id (.finishLogin c.loaded)
  | .finishLogin loaded => w.finishLogin id loaded c

/-- `reserveLogin`, granted. -/
def reserve (id : SessionId) (guid : Guid) (w : World) : World :=
  let w := w.modify id fun s => { s with guid := guid, reserved := true }
  { w with pendingLogins := update w.pendingLogins guid true }

/-- The part of `ProtocolGame::login` from the reservation on. -/
def login (id : SessionId) (guid : Guid) (hasFailedRecovery : Bool) (w : World) : World :=
  if w.pendingLogins guid then w
  else if hasFailedRecovery then (w.reserve id guid).releaseLogin id .failedRecovery
  else (w.reserve id guid).post id .detached

end World

inductive Event where
  | login (id : SessionId) (guid : Guid) (hasFailedRecovery : Bool)
  /-- The `i`-th of the tasks is next. -/
  | run (i : Nat) (c : Choice)
  /-- `ProtocolGame::release` -/
  | release (id : SessionId)
  | disconnect (id : SessionId)

def step (w : World) : Event → World
  | .login id guid hasFailedRecovery => w.login id guid hasFailedRecovery
  | .run i c =>
    match w.tasks[i]? with
    | none => w
    | some (id, t) => World.exec id c { w with tasks := w.tasks.eraseIdx i } t
  | .release id => w.modify id fun s => { s with player := false }
  | .disconnect id => w.modify id fun s => { s with connection := false }

def start (w : World) : Prop := w = {}

/-- A session logs in once. -/
def Enabled (w : World) : Event → Prop
  | .login id _ _ => (w.sessions id).reserved = false
  | _ => True

/-! ## Counting -/

/-- What is left to run of a winner: it ends with a release. -/
def winner : Task → Bool
  | .timedOut => true
  | .notDrained => true
  | .load => true
  | .finishLogin _ => true
  | _ => false

/-- What is left to run up to the callback's `exchange`. -/
def chain : Task → Bool
  | .detached => true
  | .handOver => true
  | .drain => true
  | .chained => true
  | .callback _ => true
  | .stopped _ => true
  | _ => false

def timer : Task → Bool
  | .timeout => true
  | .due => true
  | _ => false

/-- How many steps a task and what it leads to take at most. -/
def weight : Task → Nat
  | .detached => 11
  | .handOver => 7
  | .drain => 6
  | .chained => 5
  | .callback _ => 4
  | .stopped _ => 3
  | .timeout => 3
  | .due => 2
  | .load => 2
  | .timedOut => 1
  | .notDrained => 1
  | .finishLogin _ => 1

variable {p : Task → Bool} {w : World} {id j : SessionId} {t : Task} {e : Event}

def ofSession (p : Task → Bool) (id : SessionId) (t : SessionId × Task) : Bool := decide (t.1 = id) && p t.2

/-- How many tasks of a session meet a test. -/
def count (p : Task → Bool) (id : SessionId) (w : World) : Nat := w.tasks.countP (ofSession p id)

/-- How many steps the tasks of a session may still take. -/
def left (id : SessionId) (w : World) : Nat := (w.tasks.map fun t => if t.1 = id then weight t.2 else 0).sum

namespace World

@[simp] theorem count_post (p : Task → Bool) (id j : SessionId) (t : Task) (w : World) :
    count p j (w.post id t) = count p j w + unit (decide (id = j) && p t) := countP_snoc _ _ _

@[simp] theorem count_modify (p : Task → Bool) (id j : SessionId) (f : Session → Session) (w : World) :
    count p j (w.modify id f) = count p j w := rfl

@[simp] theorem count_releaseLogin (p : Task → Bool) (id j : SessionId) (exit : Exit) (w : World) :
    count p j (w.releaseLogin id exit) = count p j w := rfl

@[simp] theorem count_write (p : Task → Bool) (id j : SessionId) (entry : LogEntry) (w : World) :
    count p j (w.write id entry) = count p j w := rfl

theorem count_stopEvent_le (p : Task → Bool) (id j : SessionId) (w : World) : count p j (w.stopEvent id) ≤ count p j w := by
  unfold count stopEvent
  rw [countP_filter]
  refine countP_mono_left fun t _ ht => ?_
  rw [Bool.and_eq_true] at ht
  exact ht.1

@[simp] theorem count_stopEvent (hp : p .timeout = false) (id j : SessionId) (w : World) :
    count p j (w.stopEvent id) = count p j w := by
  unfold count stopEvent
  rw [countP_filter]
  refine countP_congr fun t _ => ?_
  rw [Bool.and_eq_true, and_iff_left_iff_imp]
  intro ht
  rw [decide_eq_true_eq]
  rintro rfl
  rw [ofSession, hp, Bool.and_false] at ht
  cases ht

@[simp] theorem left_post (id j : SessionId) (t : Task) (w : World) :
    left j (w.post id t) = left j w + if id = j then weight t else 0 := by
  unfold left post
  rw [map_append, sum_append, map_singleton, sum_singleton]

@[simp] theorem left_modify (id j : SessionId) (f : Session → Session) (w : World) : left j (w.modify id f) = left j w := rfl

@[simp] theorem left_releaseLogin (id j : SessionId) (exit : Exit) (w : World) : left j (w.releaseLogin id exit) = left j w := rfl

@[simp] theorem left_write (id j : SessionId) (entry : LogEntry) (w : World) : left j (w.write id entry) = left j w := rfl

theorem left_stopEvent_le (id j : SessionId) (w : World) : left j (w.stopEvent id) ≤ left j w := by
  unfold left stopEvent
  induction w.tasks with
  | nil => exact le_rfl
  | cons t ts ih =>
    rw [filter_cons]
    split
    · simpa using ih
    · exact Nat.le_trans ih (Nat.le_add_left _ _)

@[simp] theorem sessions_post (id : SessionId) (t : Task) (w : World) : (w.post id t).sessions = w.sessions := rfl

@[simp] theorem sessions_stopEvent (id : SessionId) (w : World) : (w.stopEvent id).sessions = w.sessions := rfl

@[simp] theorem sessions_modify (id : SessionId) (f : Session → Session) (w : World) :
    (w.modify id f).sessions id = f (w.sessions id) := update_self ..

@[simp] theorem sessions_reserve (id : SessionId) (guid : Guid) (w : World) :
    (w.reserve id guid).sessions id = { w.sessions id with guid := guid, reserved := true } := update_self ..

@[simp] theorem sessions_releaseLogin (id : SessionId) (exit : Exit) (w : World) :
    (w.releaseLogin id exit).sessions id = { w.sessions id with log := (w.sessions id).log ++ [.releaseLogin exit] } :=
  update_self ..

@[simp] theorem sessions_modify_of_ne (h : j ≠ id) (f : Session → Session) (w : World) :
    (w.modify id f).sessions j = w.sessions j := update_of_ne h ..

end World

theorem count_eraseIdx {i : Nat} (h : w.tasks[i]? = some (id, t)) (p : Task → Bool) (j : SessionId) :
    count p j w = count p j { w with tasks := w.tasks.eraseIdx i } + unit (decide (id = j) && p t) :=
  (countP_eraseIdx _ _ _ _ h).symm

theorem left_eraseIdx {i : Nat} (h : w.tasks[i]? = some (id, t)) (j : SessionId) :
    left j w = left j { w with tasks := w.tasks.eraseIdx i } + if id = j then weight t else 0 := by
  obtain ⟨hi, heq⟩ := List.getElem?_eq_some_iff.mp h
  have hperm := (getElem_cons_eraseIdx_perm hi).map fun t => if t.1 = j then weight t.2 else 0
  rw [heq, map_cons] at hperm
  rw [left, ← hperm.sum_nat, sum_cons, Nat.add_comm]
  rfl

/-! ## One login -/

def Ended (log : List LogEntry) : Prop :=
  (∃ exit, exit ≠ .entered ∧ log = [.releaseLogin exit]) ∨ log = [.placed, .releaseLogin .entered]

/-- A login is not made, waits for the first `exchange`, has a winner, or has ended. -/
inductive Phase (s : Session) (W C T : Nat) : Prop
  | out (hreserved : s.reserved = false) (hopen : s.completed = false) (hnone : W = 0 ∧ C = 0 ∧ T = 0) (hlog : s.log = [])
  | waiting (hreserved : s.reserved = true) (hopen : s.completed = false) (hone : W = 0 ∧ C = 1) (hlog : s.log = [])
  | won (hreserved : s.reserved = true) (hset : s.completed = true) (hone : W = 1 ∧ C ≤ 1) (hlog : s.log = [])
  | ended (hreserved : s.reserved = true) (hset : s.completed = true ∨ (C = 0 ∧ T = 0)) (hnone : W = 0 ∧ C ≤ 1) (hlog : Ended s.log)

/-- Where every login is. -/
def Inv (w : World) : Prop := ∀ id, Phase (w.sessions id) (count winner id w) (count chain id w) (count timer id w)

theorem Phase.timers {s : Session} {W C T T' : Nat} (h : Phase s W C T) (hle : T' ≤ T) : Phase s W C T' := by
  cases h with
  | out hreserved hopen hnone hlog => exact .out hreserved hopen ⟨hnone.1, hnone.2.1, by omega⟩ hlog
  | waiting hreserved hopen hone hlog => exact .waiting hreserved hopen hone hlog
  | won hreserved hset hone hlog => exact .won hreserved hset hone hlog
  | ended hreserved hset hnone hlog => exact .ended hreserved (hset.imp id fun h => ⟨h.1, by omega⟩) hnone hlog

theorem Phase.client {s s' : Session} {W C T : Nat} (h : Phase s W C T) (hreserved : s'.reserved = s.reserved)
    (hcompleted : s'.completed = s.completed) (hlog : s'.log = s.log) : Phase s' W C T := by
  cases h with
  | out h₁ h₂ h₃ h₄ => exact .out (hreserved.trans h₁) (hcompleted.trans h₂) h₃ (hlog.trans h₄)
  | waiting h₁ h₂ h₃ h₄ => exact .waiting (hreserved.trans h₁) (hcompleted.trans h₂) h₃ (hlog.trans h₄)
  | won h₁ h₂ h₃ h₄ => exact .won (hreserved.trans h₁) (hcompleted.trans h₂) h₃ (hlog.trans h₄)
  | ended h₁ h₂ h₃ h₄ => exact .ended (hreserved.trans h₁) (by rw [hcompleted]; exact h₂) h₃ (by rw [hlog]; exact h₄)

/-! ## What a task leaves alone -/

/-- Nothing of the login `j` changes, but that a timeout may be stopped. -/
structure Apart (j : SessionId) (w w' : World) : Prop where
  session : w'.sessions j = w.sessions j
  winner : count winner j w' = count winner j w
  chain : count chain j w' = count chain j w
  timer : count timer j w' ≤ count timer j w
  left : left j w' ≤ left j w

namespace Apart

variable {w' w'' : World}

theorem trans (h : Apart j w w') (h' : Apart j w' w'') : Apart j w w'' :=
  ⟨h'.session.trans h.session, h'.winner.trans h.winner, h'.chain.trans h.chain, Nat.le_trans h'.timer h.timer,
    Nat.le_trans h'.left h.left⟩

theorem refl (w : World) : Apart j w w := ⟨rfl, rfl, rfl, le_rfl, le_rfl⟩

theorem post (hne : j ≠ id) (t : Task) (w : World) : Apart j w (w.post id t) := by
  have hno : ¬ id = j := Ne.symm hne
  refine ⟨rfl, ?_, ?_, ?_, ?_⟩ <;> simp [hno]

theorem modify (hne : j ≠ id) (f : Session → Session) (w : World) : Apart j w (w.modify id f) :=
  ⟨World.sessions_modify_of_ne hne f w, rfl, rfl, le_rfl, le_rfl⟩

theorem write (hne : j ≠ id) (entry : LogEntry) (w : World) : Apart j w (w.write id entry) := modify hne _ w

theorem reserve (hne : j ≠ id) (guid : Guid) (w : World) : Apart j w (w.reserve id guid) :=
  (modify hne (fun s => { s with guid := guid, reserved := true }) w).trans ⟨rfl, rfl, rfl, le_rfl, le_rfl⟩

theorem releaseLogin (hne : j ≠ id) (exit : Exit) (w : World) : Apart j w (w.releaseLogin id exit) := by
  refine (write hne (.releaseLogin exit) w).trans ⟨rfl, rfl, rfl, le_rfl, le_rfl⟩

theorem stopEvent (w : World) : Apart j w (w.stopEvent id) :=
  ⟨rfl, World.count_stopEvent rfl id j w, World.count_stopEvent rfl id j w, World.count_stopEvent_le _ id j w,
    World.left_stopEvent_le id j w⟩

theorem exec (hne : j ≠ id) (c : Choice) (t : Task) (w : World) : Apart j w (World.exec id c w t) := by
  cases t with
  | detached => exact (post hne _ w).trans (post hne _ _)
  | handOver => exact post hne _ w
  | drain => exact post hne _ w
  | chained => exact post hne _ w
  | callback drained => exact (stopEvent w).trans (post hne _ _)
  | stopped drained =>
    refine (modify hne (fun s => { s with completed := true }) w).trans ?_
    show Apart j _ (if (w.sessions id).completed then _ else if drained then _ else _)
    split
    · exact refl _
    · split
      · exact post hne _ _
      · exact post hne _ _
  | timeout => exact post hne _ w
  | due =>
    refine (modify hne (fun s => { s with completed := true }) w).trans ?_
    show Apart j _ (if (w.sessions id).completed then _ else _)
    split
    · exact refl _
    · exact post hne _ _
  | timedOut => exact releaseLogin hne _ w
  | notDrained => exact releaseLogin hne _ w
  | load => exact post hne _ w
  | finishLogin loaded =>
    show Apart j w (w.finishLogin id loaded c)
    unfold World.finishLogin
    split
    · exact releaseLogin hne _ w
    split
    · exact releaseLogin hne _ w
    · split
      · exact releaseLogin hne _ w
      · exact (write hne _ w).trans (releaseLogin hne _ _)

end Apart

/-! ## What a task does -/

section Phase

variable {s : Session} {W C T T' : Nat}

theorem Phase.anyTimer (h : Phase s W (C + 1) T) : Phase s W (C + 1) T' := by
  cases h with
  | out _ _ hnone _ => omega
  | waiting hreserved hopen hone hlog => exact .waiting hreserved hopen hone hlog
  | won hreserved hset hone hlog => exact .won hreserved hset hone hlog
  | ended hreserved hset hnone hlog =>
    refine .ended hreserved (.inl (hset.resolve_right fun h => ?_)) hnone hlog
    omega

theorem Phase.released (h : Phase s (W + 1) C T) {log : List LogEntry} (hlog : Ended log) :
    Phase { s with log := s.log ++ log } W C T := by
  cases h with
  | out _ _ hnone _ => omega
  | waiting _ _ hone _ => omega
  | won hreserved hset hone hempty =>
    rw [hempty]
    exact .ended hreserved (.inl hset) ⟨by omega, hone.2⟩ hlog
  | ended _ _ hnone _ => omega

theorem Phase.exchangeCallback (h : Phase s W (C + 1) T) :
    (s.completed = true → Phase { s with completed := true } W C T) ∧
      (s.completed = false → Phase { s with completed := true } (W + 1) C T) := by
  cases h with
  | out _ _ hnone _ => omega
  | waiting hreserved hopen hone hlog =>
    exact ⟨fun hset => (by rw [hopen] at hset; cases hset), fun _ => .won hreserved rfl (by omega) hlog⟩
  | won hreserved hset hone hlog =>
    exact ⟨fun _ => .won hreserved rfl (by omega) hlog, fun hopen => (by rw [hset] at hopen; cases hopen)⟩
  | ended hreserved hset hnone hlog =>
    have hset := hset.resolve_right fun h => (by omega)
    exact ⟨fun _ => .ended hreserved (.inl rfl) (by omega) hlog, fun hopen => (by rw [hset] at hopen; cases hopen)⟩

theorem Phase.exchangeTimeout (h : Phase s W C (T + 1)) :
    (s.completed = true → Phase { s with completed := true } W C T) ∧
      (s.completed = false → Phase { s with completed := true } (W + 1) C T) := by
  cases h with
  | out _ _ hnone _ => omega
  | waiting hreserved hopen hone hlog =>
    exact ⟨fun hset => (by rw [hopen] at hset; cases hset), fun _ => .won hreserved rfl (by omega) hlog⟩
  | won hreserved hset hone hlog =>
    exact ⟨fun _ => .won hreserved rfl hone hlog, fun hopen => (by rw [hset] at hopen; cases hopen)⟩
  | ended hreserved hset hnone hlog =>
    have hset := hset.resolve_right fun h => (by omega)
    exact ⟨fun _ => .ended hreserved (.inl rfl) hnone hlog, fun hopen => (by rw [hset] at hopen; cases hopen)⟩

end Phase

/-- The phase of a login in a world, with tasks on top. -/
def PhaseOf (id : SessionId) (w : World) (W C T : Nat) : Prop :=
  Phase (w.sessions id) (count winner id w + W) (count chain id w + C) (count timer id w + T)

theorem PhaseOf.post (h : PhaseOf id w (unit (winner t)) (unit (chain t)) (unit (timer t))) : PhaseOf id (w.post id t) 0 0 0 := by
  unfold PhaseOf at *
  simpa using h

theorem PhaseOf.set {W : Nat} (h : Phase { w.sessions id with completed := true } (count winner id w + W) (count chain id w)
    (count timer id w)) : PhaseOf id (w.modify id fun s => { s with completed := true }) W 0 0 := by
  unfold PhaseOf
  rw [World.sessions_modify]
  exact h

theorem PhaseOf.releaseLogin {exit : Exit} (h : PhaseOf id w 1 0 0) (hexit : exit ≠ .entered) :
    PhaseOf id (w.releaseLogin id exit) 0 0 0 := by
  have hlog := Phase.released h (.inl ⟨exit, hexit, rfl⟩ : Ended [.releaseLogin exit])
  unfold PhaseOf
  rw [World.sessions_releaseLogin]
  exact hlog

theorem PhaseOf.finishLogin (h : PhaseOf id w 1 0 0) (loaded : Bool) (c : Choice) : PhaseOf id (w.finishLogin id loaded c) 0 0 0 := by
  unfold World.finishLogin
  split
  · exact h.releaseLogin (by decide)
  split
  · exact h.releaseLogin (by decide)
  split
  · exact h.releaseLogin (by decide)
  have hlog := Phase.released h (.inr rfl : Ended [.placed, .releaseLogin .entered])
  have hsession : ((w.write id .placed).releaseLogin id .entered).sessions id =
      { w.sessions id with log := (w.sessions id).log ++ [.placed, .releaseLogin .entered] } := by
    rw [World.sessions_releaseLogin, World.write, World.sessions_modify, append_assoc]
    rfl
  unfold PhaseOf
  rw [hsession]
  exact hlog

theorem PhaseOf.exec (h : PhaseOf id w (unit (winner t)) (unit (chain t)) (unit (timer t))) (c : Choice) :
    PhaseOf id (World.exec id c w t) 0 0 0 := by
  cases t with
  | detached =>
    have hposted : PhaseOf id (w.post id .timeout) 0 1 0 := by
      have h' : Phase (w.sessions id) (count winner id w) (count chain id w + 1) (count timer id w + 1) := Phase.anyTimer h
      unfold PhaseOf
      simpa [winner, chain, timer] using h'
    exact PhaseOf.post (t := .handOver) hposted
  | handOver => exact PhaseOf.post h
  | drain =>
    refine PhaseOf.post ?_
    cases c.inFlight with
    | false => exact h
    | true => exact h
  | chained => exact PhaseOf.post h
  | callback drained =>
    refine PhaseOf.post (t := .stopped drained) ?_
    unfold PhaseOf
    rw [World.sessions_stopEvent, World.count_stopEvent rfl, World.count_stopEvent rfl]
    exact Phase.timers h (World.count_stopEvent_le _ _ _ _)
  | stopped drained =>
    obtain ⟨hset, hopen⟩ := Phase.exchangeCallback h
    show PhaseOf id (if (w.sessions id).completed then _ else if drained then _ else _) 0 0 0
    cases hcompleted : (w.sessions id).completed with
    | true => exact PhaseOf.set (hset hcompleted)
    | false =>
      have hwon : PhaseOf id (w.modify id fun s => { s with completed := true }) 1 0 0 := PhaseOf.set (hopen hcompleted)
      cases drained with
      | true => exact hwon.post (t := .load)
      | false => exact hwon.post (t := .notDrained)
  | timeout => exact PhaseOf.post h
  | due =>
    obtain ⟨hset, hopen⟩ := Phase.exchangeTimeout h
    show PhaseOf id (if (w.sessions id).completed then _ else _) 0 0 0
    cases hcompleted : (w.sessions id).completed with
    | true => exact PhaseOf.set (hset hcompleted)
    | false =>
      have hwon : PhaseOf id (w.modify id fun s => { s with completed := true }) 1 0 0 := PhaseOf.set (hopen hcompleted)
      exact hwon.post (t := .timedOut)
  | timedOut => exact PhaseOf.releaseLogin h (by decide)
  | notDrained => exact PhaseOf.releaseLogin h (by decide)
  | load => exact PhaseOf.post h
  | finishLogin loaded => exact PhaseOf.finishLogin h loaded c

theorem left_exec (id : SessionId) (c : Choice) (t : Task) (w : World) : left id (World.exec id c w t) < left id w + weight t := by
  cases t with
  | callback drained =>
    have hle := World.left_stopEvent_le id id w
    simp only [World.exec, World.left_post, weight, if_true]
    omega
  | stopped drained =>
    simp only [World.exec, World.exchange]
    split
    · simp [weight]
    · split <;> simp [weight]
  | due =>
    simp only [World.exec, World.exchange]
    split <;> simp [weight]
  | finishLogin loaded =>
    simp only [World.exec, World.finishLogin]
    split
    · simp [weight]
    · split
      · simp [weight]
      · split <;> simp [weight]
  | drain =>
    simp only [World.exec, World.left_post]
    cases c.inFlight with
    | false => simp [weight]
    | true => simp [weight]
  | detached =>
    simp only [World.exec, World.left_post, weight, if_true]
    omega
  | handOver => simp [World.exec, weight]
  | chained => simp [World.exec, weight]
  | timeout => simp [World.exec, weight]
  | timedOut => simp [World.exec, weight]
  | notDrained => simp [World.exec, weight]
  | load => simp [World.exec, weight]

/-! ## Steps -/

theorem Inv.run (h : Inv w) {i : Nat} (hi : w.tasks[i]? = some (id, t)) (c : Choice) :
    Inv (World.exec id c { w with tasks := w.tasks.eraseIdx i } t) := by
  intro j
  have hphase := h j
  rw [count_eraseIdx hi winner, count_eraseIdx hi chain, count_eraseIdx hi timer] at hphase
  by_cases hj : j = id
  · subst hj
    simp only [decide_true, Bool.true_and] at hphase
    have hof : PhaseOf j { w with tasks := w.tasks.eraseIdx i } (unit (winner t)) (unit (chain t)) (unit (timer t)) := hphase
    exact hof.exec c
  · have hne : ¬ id = j := Ne.symm hj
    simp only [hne, decide_false, Bool.false_and, unit_false, Nat.add_zero] at hphase
    have hapart := Apart.exec hj c t { w with tasks := w.tasks.eraseIdx i }
    rw [hapart.session, hapart.winner, hapart.chain]
    exact hphase.timers hapart.timer

theorem Phase.of_apart {w' : World} (hapart : Apart j w w')
    (h : Phase (w.sessions j) (count winner j w) (count chain j w) (count timer j w)) :
    Phase (w'.sessions j) (count winner j w') (count chain j w') (count timer j w') := by
  rw [hapart.session, hapart.winner, hapart.chain]
  exact h.timers hapart.timer

theorem Phase.idle {s : Session} {W C T : Nat} (h : Phase s W C T) (hnew : s.reserved = false) :
    (W = 0 ∧ C = 0 ∧ T = 0) ∧ s.completed = false ∧ s.log = [] := by
  cases h with
  | out _ hopen hnone hlog => exact ⟨hnone, hopen, hlog⟩
  | waiting hreserved => rw [hnew] at hreserved; cases hreserved
  | won hreserved => rw [hnew] at hreserved; cases hreserved
  | ended hreserved => rw [hnew] at hreserved; cases hreserved

theorem Inv.login (h : Inv w) (hnew : (w.sessions id).reserved = false) (guid : Guid) (hasFailedRecovery : Bool) :
    Inv (w.login id guid hasFailedRecovery) := by
  unfold World.login
  split
  · exact h
  intro j
  by_cases hj : j = id
  · subst hj
    obtain ⟨⟨hW, hC, hT⟩, hopen, hlog⟩ := (h j).idle hnew
    have hsession := World.sessions_reserve j guid w
    split
    · refine Phase.ended ?_ (.inr ⟨hC, hT⟩) ⟨hW, ?_⟩ (.inl ⟨.failedRecovery, by decide, ?_⟩)
      · simp
      · show count chain j w ≤ 1
        omega
      · simp [hlog]
    · have hwaiting : PhaseOf j (w.reserve j guid) 0 1 0 := by
        refine Phase.waiting (by rw [hsession]) (by rw [hsession]; exact hopen) ⟨hW, ?_⟩ (by rw [hsession]; exact hlog)
        show count chain j w + 1 = 1
        omega
      exact hwaiting.post (t := .detached)
  · refine Phase.of_apart ?_ (h j)
    have hreserve := Apart.reserve hj guid w
    split
    · exact hreserve.trans (Apart.releaseLogin hj _ _)
    · exact hreserve.trans (Apart.post hj _ _)

theorem Inv.client (h : Inv w) (id : SessionId) (f : Session → Session)
    (hf : ∀ s, (f s).reserved = s.reserved ∧ (f s).completed = s.completed ∧ (f s).log = s.log) : Inv (w.modify id f) := by
  intro j
  by_cases hj : j = id
  · subst hj
    obtain ⟨hreserved, hcompleted, hlog⟩ := hf (w.sessions j)
    rw [World.sessions_modify]
    exact (h j).client hreserved hcompleted hlog
  · exact Phase.of_apart (Apart.modify hj f w) (h j)

theorem Inv.step (h : Inv w) {e : Event} (he : Enabled w e) : Inv (step w e) := by
  cases e with
  | login id guid hasFailedRecovery => exact h.login he guid hasFailedRecovery
  | run i c =>
    show Inv (match w.tasks[i]? with | none => w | some (id, t) => World.exec id c { w with tasks := w.tasks.eraseIdx i } t)
    cases hi : w.tasks[i]? with
    | none => exact h
    | some task => exact h.run hi c
  | release id => exact h.client id (fun s => { s with player := false }) fun _ => ⟨rfl, rfl, rfl⟩
  | disconnect id => exact h.client id (fun s => { s with connection := false }) fun _ => ⟨rfl, rfl, rfl⟩

theorem Inv.start : Inv {} := by
  intro id
  exact Phase.out rfl rfl ⟨rfl, rfl, rfl⟩ rfl

/-! ## Reservations -/

/-- A login that has its reservation. -/
def Holds (w : World) (id : SessionId) : Prop := (w.sessions id).reserved = true ∧ (w.sessions id).log = []

/-- The reservations are those of the logins that have theirs, one for a character. -/
structure Booked (w : World) : Prop where
  pending : ∀ id, Holds w id → w.pendingLogins (w.sessions id).guid = true
  held : ∀ guid, w.pendingLogins guid = true → ∃ id, Holds w id ∧ (w.sessions id).guid = guid
  alone : ∀ id j, Holds w id → Holds w j → (w.sessions id).guid = (w.sessions j).guid → id = j

/-- Nothing of any reservation changes. -/
structure Quiet (w w' : World) : Prop where
  pending : w'.pendingLogins = w.pendingLogins
  guid : ∀ j, (w'.sessions j).guid = (w.sessions j).guid
  reserved : ∀ j, (w'.sessions j).reserved = (w.sessions j).reserved
  log : ∀ j, (w'.sessions j).log = (w.sessions j).log

/-- The reservation of a login is released, and nothing else of any changes. -/
structure Freed (id : SessionId) (w w' : World) : Prop where
  pending : w'.pendingLogins = update w.pendingLogins (w.sessions id).guid false
  ended : (w'.sessions id).log ≠ []
  guid : ∀ j, (w'.sessions j).guid = (w.sessions j).guid
  reserved : ∀ j, (w'.sessions j).reserved = (w.sessions j).reserved
  log : ∀ j, j ≠ id → (w'.sessions j).log = (w.sessions j).log

namespace Quiet

variable {w' w'' : World}

theorem refl (w : World) : Quiet w w := ⟨rfl, fun _ => rfl, fun _ => rfl, fun _ => rfl⟩

theorem post (h : Quiet w w') (id : SessionId) (t : Task) : Quiet w (w'.post id t) := { h with }

theorem stopEvent (h : Quiet w w') (id : SessionId) : Quiet w (w'.stopEvent id) := { h with }

theorem modify (w : World) (id : SessionId) (f : Session → Session)
    (hf : ∀ s, (f s).guid = s.guid ∧ (f s).reserved = s.reserved ∧ (f s).log = s.log) : Quiet w (w.modify id f) := by
  have hsession : ∀ j, ((w.modify id f).sessions j).guid = (w.sessions j).guid ∧
      ((w.modify id f).sessions j).reserved = (w.sessions j).reserved ∧
        ((w.modify id f).sessions j).log = (w.sessions j).log := by
    intro j
    by_cases hj : j = id
    · subst hj
      rw [World.sessions_modify]
      exact hf _
    · rw [World.sessions_modify_of_ne hj]
      exact ⟨rfl, rfl, rfl⟩
  exact ⟨rfl, fun j => (hsession j).1, fun j => (hsession j).2.1, fun j => (hsession j).2.2⟩

theorem exchange (w : World) (id : SessionId) : Quiet w (w.modify id fun s => { s with completed := true }) :=
  modify w id _ fun _ => ⟨rfl, rfl, rfl⟩

theorem holds (h : Quiet w w') (id : SessionId) : Holds w' id ↔ Holds w id := by
  unfold Holds
  rw [h.reserved, h.log]

theorem booked (h : Quiet w w') (hbooked : Booked w) : Booked w' := by
  constructor
  · intro id hid
    rw [h.pending, h.guid]
    exact hbooked.pending id ((h.holds id).mp hid)
  · intro guid hguid
    rw [h.pending] at hguid
    obtain ⟨id, hid, heq⟩ := hbooked.held guid hguid
    exact ⟨id, (h.holds id).mpr hid, (h.guid id).trans heq⟩
  · intro id j hid hj heq
    rw [h.guid, h.guid] at heq
    exact hbooked.alone id j ((h.holds id).mp hid) ((h.holds j).mp hj) heq

end Quiet

theorem Freed.releaseLogin (id : SessionId) (exit : Exit) (w : World) : Freed id w (w.releaseLogin id exit) := by
  have hother : ∀ j, j ≠ id → (w.releaseLogin id exit).sessions j = w.sessions j := fun j hj =>
    World.sessions_modify_of_ne hj (fun s => { s with log := s.log ++ [.releaseLogin exit] }) w
  constructor
  · show update w.pendingLogins ((w.releaseLogin id exit).sessions id).guid false = _
    rw [World.sessions_releaseLogin]
  · simp
  · grind [World.sessions_releaseLogin]
  · grind [World.sessions_releaseLogin]
  · intro j hj
    rw [hother j hj]

theorem Freed.finishLogin (id : SessionId) (loaded : Bool) (c : Choice) (w : World) : Freed id w (w.finishLogin id loaded c) := by
  unfold World.finishLogin
  split
  · exact releaseLogin id _ w
  split
  · exact releaseLogin id _ w
  split
  · exact releaseLogin id _ w
  have hfreed := releaseLogin id .entered (w.write id .placed)
  have hsame : ∀ j, ((w.write id .placed).sessions j).guid = (w.sessions j).guid ∧
      ((w.write id .placed).sessions j).reserved = (w.sessions j).reserved := by
    intro j
    by_cases hj : j = id
    · rw [hj, World.write, World.sessions_modify]
      exact ⟨rfl, rfl⟩
    · rw [World.write, World.sessions_modify_of_ne hj]
      exact ⟨rfl, rfl⟩
  refine ⟨?_, hfreed.ended, fun j => (hfreed.guid j).trans (hsame j).1, fun j => (hfreed.reserved j).trans (hsame j).2, ?_⟩
  · rw [hfreed.pending, (hsame id).1]
    rfl
  · intro j hj
    rw [hfreed.log j hj, World.write, World.sessions_modify_of_ne hj]

theorem exec_quiet_or_freed (id : SessionId) (c : Choice) (t : Task) (w : World) :
    Quiet w (World.exec id c w t) ∨ winner t = true ∧ Freed id w (World.exec id c w t) := by
  have hquiet := Quiet.refl w
  cases t with
  | detached => exact .inl ((hquiet.post id _).post id _)
  | handOver => exact .inl (hquiet.post id _)
  | drain => exact .inl (hquiet.post id _)
  | chained => exact .inl (hquiet.post id _)
  | callback drained => exact .inl ((hquiet.stopEvent id).post id _)
  | stopped drained =>
    left
    have hset := Quiet.exchange w id
    show Quiet w (if (w.sessions id).completed then _ else if drained then _ else _)
    split
    · exact hset
    · split
      · exact hset.post id _
      · exact hset.post id _
  | timeout => exact .inl (hquiet.post id _)
  | due =>
    left
    have hset := Quiet.exchange w id
    show Quiet w (if (w.sessions id).completed then _ else _)
    split
    · exact hset
    · exact hset.post id _
  | timedOut => exact .inr ⟨rfl, Freed.releaseLogin id _ w⟩
  | notDrained => exact .inr ⟨rfl, Freed.releaseLogin id _ w⟩
  | load => exact .inl (hquiet.post id _)
  | finishLogin loaded => exact .inr ⟨rfl, Freed.finishLogin id loaded c w⟩

theorem Freed.booked {w' : World} (h : Freed id w w') (hid : Holds w id) (hbooked : Booked w) : Booked w' := by
  have hsame : ∀ j, Holds w' j → j ≠ id ∧ Holds w j := by
    intro j hj
    have hne : j ≠ id := by
      rintro rfl
      exact h.ended hj.2
    exact ⟨hne, (h.reserved j).symm.trans hj.1, (h.log j hne).symm.trans hj.2⟩
  constructor
  · intro j hj
    obtain ⟨hne, hheld⟩ := hsame j hj
    have hguid : (w.sessions j).guid ≠ (w.sessions id).guid := fun heq => hne (hbooked.alone j id hheld hid heq)
    rw [h.pending, h.guid, update_of_ne hguid]
    exact hbooked.pending j hheld
  · intro guid hguid
    rw [h.pending] at hguid
    have hother : guid ≠ (w.sessions id).guid := by
      grind
    rw [update_of_ne hother] at hguid
    obtain ⟨j, hj, heq⟩ := hbooked.held guid hguid
    have hne : j ≠ id := by
      rintro rfl
      exact hother heq.symm
    exact ⟨j, ⟨(h.reserved j).trans hj.1, (h.log j hne).trans hj.2⟩, (h.guid j).trans heq⟩
  · intro j k hj hk heq
    rw [h.guid, h.guid] at heq
    exact hbooked.alone j k (hsame j hj).2 (hsame k hk).2 heq

theorem Booked.reserve (h : Booked w) (hnew : (w.sessions id).reserved = false) (hlog : (w.sessions id).log = []) {guid : Guid}
    (hfree : ¬ w.pendingLogins guid = true) : Booked (w.reserve id guid) ∧ Holds (w.reserve id guid) id := by
  have hsession := World.sessions_reserve id guid w
  have hother : ∀ j, j ≠ id → (w.reserve id guid).sessions j = w.sessions j := fun j hj =>
    World.sessions_modify_of_ne hj (fun s => { s with guid := guid, reserved := true }) w
  have hpending : (w.reserve id guid).pendingLogins = update w.pendingLogins guid true := rfl
  have hheld : Holds (w.reserve id guid) id := by
    rw [Holds, hsession]
    exact ⟨rfl, hlog⟩
  have hback : ∀ j, j ≠ id → Holds (w.reserve id guid) j → Holds w j := by
    intro j hne hj
    rw [Holds, hother j hne] at hj
    exact hj
  have hdifferent : ∀ j, j ≠ id → Holds (w.reserve id guid) j →
      ((w.reserve id guid).sessions j).guid ≠ ((w.reserve id guid).sessions id).guid := by
    intro j hne hj heq
    rw [hsession, hother j hne] at heq
    have hguid : (w.sessions j).guid = guid := heq
    exact hfree (hguid ▸ h.pending j (hback j hne hj))
  refine ⟨⟨?_, ?_, ?_⟩, hheld⟩
  · intro j hj
    by_cases hne : j = id
    · simp [hne, hpending]
    rw [hother j hne, hpending]
    by_cases heq : (w.sessions j).guid = guid
    · simp [heq]
    · rw [update_of_ne heq]
      exact h.pending j (hback j hne hj)
  · intro g hg
    by_cases heq : g = guid
    · exact ⟨id, hheld, (congrArg Session.guid hsession).trans heq.symm⟩
    rw [hpending, update_of_ne heq] at hg
    obtain ⟨j, hj, hguid⟩ := h.held g hg
    have hne : j ≠ id := by
      grind [Holds]
    refine ⟨j, ?_, ?_⟩
    · rw [Holds, hother j hne]
      exact hj
    · rw [hother j hne]
      exact hguid
  · intro j k hj hk heq
    by_cases hne : j = id
    · grind
    by_cases hne' : k = id
    · rw [hne'] at heq
      exact absurd heq (hdifferent j hne hj)
    · rw [hother j hne, hother k hne'] at heq
      exact h.alone j k (hback j hne hj) (hback k hne' hk) heq

theorem Inv.holds (h : Inv w) (hwinner : 0 < count winner id w) : Holds w id := by
  cases h id with
  | out _ _ hnone _ => omega
  | waiting _ _ hone _ => omega
  | won hreserved _ _ hlog => exact ⟨hreserved, hlog⟩
  | ended _ _ hnone _ => omega

theorem Booked.step (h : Booked w) (hinv : Inv w) {e : Event} (he : Enabled w e) : Booked (step w e) := by
  cases e with
  | login id guid hasFailedRecovery =>
    show Booked (w.login id guid hasFailedRecovery)
    unfold World.login
    split
    next => exact h
    next hfree =>
      obtain ⟨hbooked, hheld⟩ := h.reserve he ((hinv id).idle he).2.2 hfree
      split
      · exact (Freed.releaseLogin id _ _).booked hheld hbooked
      · exact ((Quiet.refl _).post id _).booked hbooked
  | run i c =>
    show Booked (match w.tasks[i]? with | none => w | some (id, t) => World.exec id c { w with tasks := w.tasks.eraseIdx i } t)
    cases hi : w.tasks[i]? with
    | none => exact h
    | some task =>
      obtain ⟨id, t⟩ := task
      have hbooked : Booked { w with tasks := w.tasks.eraseIdx i } := { h with }
      obtain hquiet | ⟨hwinner, hfreed⟩ := exec_quiet_or_freed id c t { w with tasks := w.tasks.eraseIdx i }
      · exact hquiet.booked hbooked
      · refine hfreed.booked (hinv.holds ?_) hbooked
        have hcount := count_eraseIdx hi winner id
        simp [hwinner, hcount]
  | release id => exact (Quiet.modify w id (fun s => { s with player := false }) fun _ => ⟨rfl, rfl, rfl⟩).booked h
  | disconnect id => exact (Quiet.modify w id (fun s => { s with connection := false }) fun _ => ⟨rfl, rfl, rfl⟩).booked h

theorem Booked.start : Booked {} := by
  refine ⟨?_, ?_, ?_⟩
  · intro id hid
    cases hid.1
  · intro guid hguid
    cases hguid
  · intro id _ hid
    cases hid.1

theorem reach_inv (h : Reach start step Enabled w) : Inv w ∧ Booked w := by
  refine h.inv (I := fun w => Inv w ∧ Booked w) ?_ ?_
  · rintro _ rfl
    exact ⟨Inv.start, Booked.start⟩
  · intro w e he hw
    exact ⟨hw.1.step he, hw.2.step hw.1 he⟩

/-- Two logins that have their reservations have different characters. -/
theorem one_login_per_character (h : Reach start step Enabled w) (hid : Holds w id) (hj : Holds w j) (hne : id ≠ j) :
    (w.sessions id).guid ≠ (w.sessions j).guid := by
  intro heq
  exact hne ((reach_inv h).2.alone id j hid hj heq)

theorem two_logins_apart :
    let w := run step {} [.login 0 7 false, .login 1 8 false]
    (w.sessions 0).guid ≠ (w.sessions 1).guid := by
  have hstart : Reach start step Enabled {} := .init rfl
  have hallowed : Allowed step Enabled {} [.login 0 7 false, .login 1 8 false] := ⟨rfl, rfl, trivial⟩
  exact one_login_per_character (hstart.run hallowed) ⟨by decide +kernel, by decide +kernel⟩ ⟨by decide +kernel, by decide +kernel⟩ (by decide)

/-! ## How a login ends -/

/-- How often a login has released its reservation. -/
def releases (s : Session) : Nat := s.log.countP fun entry => entry matches .releaseLogin _

/-- How often a login has put its player into the world. -/
def enters (s : Session) : Nat := s.log.count .placed

theorem left_step {i : Nat} (hi : w.tasks[i]? = some (id, t)) (c : Choice) (j : SessionId) :
    left j (step w (.run i c)) ≤ left j w ∧ (j = id → left j (step w (.run i c)) < left j w) := by
  have hstep : step w (.run i c) = World.exec id c { w with tasks := w.tasks.eraseIdx i } t := by
    show (match w.tasks[i]? with | none => w | some (id, t) => World.exec id c { w with tasks := w.tasks.eraseIdx i } t) = _
    rw [hi]
  have herase := left_eraseIdx hi j
  rw [hstep]
  by_cases hj : j = id
  · subst hj
    have hexec := left_exec j c t { w with tasks := w.tasks.eraseIdx i }
    rw [if_pos rfl] at herase
    omega
  · have hapart := (Apart.exec hj c t { w with tasks := w.tasks.eraseIdx i }).left
    exact ⟨by omega, fun h => absurd h hj⟩

theorem Phase.log_cases {s : Session} {W C T : Nat} (h : Phase s W C T) (hreserved : s.reserved = true) :
    (s.log = [] ∧ 0 < W + C) ∨ Ended s.log := by
  cases h with
  | out hnot => rw [hnot] at hreserved; cases hreserved
  | waiting _ _ hone hlog => exact .inl ⟨hlog, by omega⟩
  | won _ _ hone hlog => exact .inl ⟨hlog, by omega⟩
  | ended _ _ _ hlog => exact .inr hlog

theorem Ended.after {log before after : List LogEntry} {exit : Exit} (h : Ended log)
    (hsplit : log = before ++ .releaseLogin exit :: after) : after = [] := by
  have hlength := congrArg List.length hsplit
  rw [length_append, length_cons] at hlength
  refine length_eq_zero_iff.mp ?_
  obtain ⟨released, -, rfl⟩ | rfl := h
  · rw [length_singleton] at hlength
    omega
  cases before with
  | nil => cases hsplit
  | cons entry before =>
    rw [length_cons, length_cons, length_cons, length_nil] at hlength
    omega

theorem count_eq_zero (hnone : ∀ t, (id, t) ∉ w.tasks) (p : Task → Bool) : count p id w = 0 := by
  refine countP_eq_zero.mpr ?_
  rintro ⟨j, t⟩ hmem hof
  rw [ofSession, Bool.and_eq_true, decide_eq_true_eq] at hof
  obtain ⟨rfl, -⟩ := hof
  exact hnone t hmem

theorem left_le (he : Enabled w e) (hreserved : (w.sessions id).reserved = true) : left id (step w e) ≤ left id w := by
  cases e with
  | login j guid hasFailedRecovery =>
    have hne : id ≠ j := by
      rintro rfl
      have hnew : (w.sessions id).reserved = false := he
      grind
    show left id (w.login j guid hasFailedRecovery) ≤ _
    unfold World.login
    split
    · exact le_rfl
    · split
      · exact ((Apart.reserve hne guid w).trans (Apart.releaseLogin hne _ _)).left
      · exact ((Apart.reserve hne guid w).trans (Apart.post hne _ _)).left
  | run i c =>
    cases hi : w.tasks[i]? with
    | none =>
      show left id (match w.tasks[i]? with | none => w | some (id, t) => World.exec id c { w with tasks := w.tasks.eraseIdx i } t) ≤ _
      rw [hi]
    | some task => exact (left_step hi c id).1
  | release j => exact le_rfl
  | disconnect j => exact le_rfl

/-- Of a login that reserved its character: its reservation is released at most once, and once
    when nothing of it is left to run, until when the character is reserved. It enters the world
    at most once, and not after a release. Each task of it that runs brings it nearer the end. -/
theorem reservation_released_once (h : Reach start step Enabled w) (id : SessionId) (hreserved : (w.sessions id).reserved = true) :
    releases (w.sessions id) ≤ 1 ∧ ((∀ t, (id, t) ∉ w.tasks) → releases (w.sessions id) = 1) ∧
      (releases (w.sessions id) = 0 → w.pendingLogins (w.sessions id).guid = true) ∧ enters (w.sessions id) ≤ 1 ∧
        (∀ before exit after, (w.sessions id).log = before ++ .releaseLogin exit :: after → .placed ∉ after) ∧
          (∀ e, Enabled w e → left id (step w e) ≤ left id w) ∧
            ∀ i c t, w.tasks[i]? = some (id, t) → left id (step w (.run i c)) < left id w := by
  obtain ⟨hinv, hbooked⟩ := reach_inv h
  have hsteps : (∀ e, Enabled w e → left id (step w e) ≤ left id w) ∧
      ∀ i c t, w.tasks[i]? = some (id, t) → left id (step w (.run i c)) < left id w :=
    ⟨fun e he => left_le he hreserved, fun i c t hi => (left_step hi c id).2 rfl⟩
  obtain ⟨hlog, hleft⟩ | hended := (hinv id).log_cases hreserved
  · have hreleases : releases (w.sessions id) = 0 := by rw [releases, hlog]; rfl
    have henters : enters (w.sessions id) = 0 := by rw [enters, hlog]; rfl
    refine ⟨by omega, fun hnone => ?_, fun _ => hbooked.pending id ⟨hreserved, hlog⟩, by omega, ?_, hsteps⟩
    · rw [count_eq_zero hnone, count_eq_zero hnone] at hleft
      omega
    · simp [hlog]
  · have hreleases : releases (w.sessions id) = 1 := by
      obtain ⟨exit, -, hlog⟩ | hlog := hended
      · rw [releases, hlog]; rfl
      · rw [releases, hlog]; rfl
    have henters : enters (w.sessions id) ≤ 1 := by
      obtain ⟨exit, -, hlog⟩ | hlog := hended
      · rw [enters, hlog]; exact Nat.zero_le 1
      · rw [enters, hlog]; exact le_rfl
    refine ⟨by omega, fun _ => hreleases, fun hzero => by omega, henters, ?_, hsteps⟩
    intro before exit after hsplit
    rw [hended.after hsplit]
    exact not_mem_nil

def slowFlush : List Event :=
  .login 0 7 false :: [0, 1, 1, 0, 1, 1, 0, 0, 0].map fun i => .run i ⟨true, true, true, true, true⟩

theorem timed_out_released :
    ((run step {} slowFlush).sessions 0).reserved = true ∧ (∀ t, (0, t) ∉ (run step {} slowFlush).tasks) ∧
      releases ((run step {} slowFlush).sessions 0) = 1 := by
  have hallowed : Allowed step Enabled {} slowFlush :=
    ⟨rfl, trivial, trivial, trivial, trivial, trivial, trivial, trivial, trivial, trivial, trivial⟩
  have hstart : Reach start step Enabled {} := .init rfl
  have hreach := hstart.run hallowed
  have hreserved : ((run step {} slowFlush).sessions 0).reserved = true := by decide +kernel
  have htasks : (run step {} slowFlush).tasks = [] := by decide +kernel
  have hnone : ∀ t, (0, t) ∉ (run step {} slowFlush).tasks := by
    simp [htasks]
  exact ⟨hreserved, hnone, (reservation_released_once hreach 0 hreserved).2.1 hnone⟩

end Backlands.Login.Entering
