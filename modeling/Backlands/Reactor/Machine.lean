/-
  Backlands.Reactor.Machine — the task reactor (src/reactor.cpp): `send`, `schedule`,
  `cancel` and the cycle of `runOnce`.

  Threads. A call of `send`, `schedule` or `cancel` has two parts: what it does before it
  takes the mutex (`call`: the state check, the clock, the sequence number) and what it does
  under it (`enter`). Calls of any number of threads, and of the callbacks themselves, are
  under way at once and enter in any order. The driver is the one thread in `runOnce`; each
  of its steps between two uses of the mutex is one `drive`, so anything may enter between
  two of them, also between the last look at the cancellations and the callback.

  `taskHeap` is the heap's content in the order it is popped: only `push_heap`, `front` and
  `pop_heap` are used on it. `serial` is not in the code: it counts the tasks ever made and
  tells them apart; the sequence number is its low 64 bits. The batch's counter
  `tasksExecuted` is not bounded here.
-/

import Mathlib.Data.Finset.Card
import Mathlib.Data.List.Sort
import Backlands.Lib.Runs

namespace Backlands.Reactor

/-! ## Tasks -/

structure Task where
  fireAt : Int
  /-- `none` is the distant future. -/
  deadline : Option Int
  identifier : Nat
  serial : Nat
  /-- The callback is not empty. -/
  function : Bool
  deriving DecidableEq

def Task.sequence (t : Task) : Nat := t.serial % 2 ^ 64

def Task.hasExpired (t : Task) (now : Int) : Bool :=
  match t.deadline with
  | none => false
  | some d => decide (d ≤ now)

/-- Not `taskComesAfter`: by time, then by sequence number. -/
def Before (a b : Task) : Prop := a.fireAt < b.fireAt ∨ a.fireAt = b.fireAt ∧ a.sequence ≤ b.sequence

instance : DecidableRel Before := fun a b =>
  inferInstanceAs (Decidable (a.fireAt < b.fireAt ∨ a.fireAt = b.fireAt ∧ a.sequence ≤ b.sequence))

/-! ## State -/

/-- Why a task left without running. -/
inductive Reason where
  | cancelled
  | expired
  | empty
  deriving DecidableEq

/-- Where the driver is, with its locals. From `executing` on the batch is kept whole: `index`
    is the loop's, `tasksExecuted` the counter beside it. -/
inductive Driver where
  | idle
  | swapped (sentTasks : List Task)
  | sent (now : Int) (sentTasks readyTasks : List Task)
  | popping (now : Int) (readyTasks : List Task)
  | executing (cycleStart : Int) (readyTasks : List Task) (index tasksExecuted : Nat)
  /-- Past `consumeCancellation`, the callback not called yet. -/
  | committed (cycleStart : Int) (readyTasks : List Task) (index tasksExecuted : Nat)
  | calling (cycleStart : Int) (readyTasks : List Task) (index tasksExecuted : Nat)
  | deferring (readyTasks : List Task) (tasksExecuted : Nat)
  deriving DecidableEq

/-- A call past its checks, before the mutex. -/
inductive Call where
  | send (t : Task)
  | schedule (t : Task)
  | cancel (taskIdentifier : Nat)
  deriving DecidableEq

structure State where
  clock : Int
  running : Bool
  maxTasksPerCycle : Nat
  timeBudget : Int
  maxInboxSize : Nat
  sendInbox : List Task
  scheduleInbox : List Task
  cancelInbox : List Nat
  activeIdentifiers : Finset Nat
  nextIdentifier : Nat
  cancelled : Finset Nat
  taskHeap : List Task
  nextSequence : Nat
  calls : List Call
  driver : Driver
  /-- How many cycles have ended. -/
  cycle : Nat
  /-- The tasks taken in, the callbacks started with their cycle, the tasks that left without
      running, and the tasks a cancellation was taken in for: what happened so far. -/
  accepted : List Task
  started : List (Nat × Task)
  dropped : List (Task × Reason)
  cancels : List Task

/-! ## Where tasks are -/

def Driver.batch : Driver → List Task
  | .idle => []
  | .swapped sentTasks => sentTasks
  | .sent _ sentTasks readyTasks => sentTasks ++ readyTasks
  | .popping _ readyTasks => readyTasks
  | .executing _ readyTasks index _ => readyTasks.drop index
  | .committed _ readyTasks index _ => readyTasks.drop index
  | .calling _ readyTasks index _ => readyTasks.drop (index + 1)
  | .deferring readyTasks tasksExecuted => readyTasks.drop tasksExecuted

/-- The task whose callback is running. -/
def Driver.current : Driver → Option Task
  | .calling _ readyTasks index _ => readyTasks[index]?
  | _ => none

/-- The task that runs next, whatever is cancelled now. -/
def Driver.chosen : Driver → Option Task
  | .committed _ readyTasks index _ => readyTasks[index]?
  | _ => none

def waiting (s : State) : List Task := s.scheduleInbox ++ (s.taskHeap ++ (s.sendInbox ++ s.driver.batch))

/-- The tasks in `scheduleInbox`, `taskHeap`, `sendInbox` and the batch, the running one with
    them. -/
def live (s : State) : List Task := waiting s ++ s.driver.current.toList

/-- A cancellation of the identifier is taken in and not used up. -/
def Marked (s : State) (i : Nat) : Prop := i ∈ s.cancelInbox ∨ i ∈ s.cancelled

/-! ## Calls -/

def identifierLimit : Nat := 2 ^ 32

/-- The loop of `schedule`: the next identifier that is neither zero nor reserved. The limit
    on the reservations leaves one among the next `card + 2`, so the fuel does not run out. -/
def nextFree (active : Finset Nat) : Nat → Nat → Nat
  | 0, n => (n + 1) % identifierLimit
  | fuel + 1, n =>
    if (n + 1) % identifierLimit = 0 ∨ (n + 1) % identifierLimit ∈ active then
      nextFree active fuel ((n + 1) % identifierLimit)
    else (n + 1) % identifierLimit

/-- What a thread asks for. `now` is its reading of the clock. -/
inductive Request where
  | send (now : Int) (expirationTime : Option Int) (callback : Bool)
  | schedule (now delay : Int) (callback : Bool)
  | cancel (taskIdentifier : Nat)
  deriving DecidableEq

def callSend (now : Int) (expirationTime : Option Int) (callback : Bool) (s : State) : State :=
  if !callback || !s.running then s
  else
    let fireAt := min now s.clock
    let task : Task := ⟨fireAt, expirationTime.map (fireAt + ·), 0, s.nextSequence, true⟩
    { s with nextSequence := s.nextSequence + 1, calls := s.calls ++ [.send task] }

def callSchedule (now delay : Int) (callback : Bool) (s : State) : State :=
  if !callback || !s.running then s
  else
    let task : Task := ⟨min now s.clock + delay, none, 0, s.nextSequence, true⟩
    { s with nextSequence := s.nextSequence + 1, calls := s.calls ++ [.schedule task] }

def callCancel (taskIdentifier : Nat) (s : State) : State :=
  if taskIdentifier = 0 ∨ !s.running then s else { s with calls := s.calls ++ [.cancel taskIdentifier] }

def full (s : State) (size : Nat) : Bool := decide (0 < s.maxInboxSize) && decide (s.maxInboxSize ≤ size)

def enterSend (t : Task) (s : State) : State :=
  if full s s.sendInbox.length then s
  else { s with sendInbox := s.sendInbox ++ [t], accepted := s.accepted ++ [t] }

def enterSchedule (t : Task) (s : State) : State :=
  if full s s.scheduleInbox.length then s
  else if identifierLimit - 1 ≤ s.activeIdentifiers.card then s
  else
    let identifier := nextFree s.activeIdentifiers (s.activeIdentifiers.card + 1) s.nextIdentifier
    let task := { t with identifier := identifier }
    { s with
      activeIdentifiers := insert identifier s.activeIdentifiers
      nextIdentifier := identifier
      scheduleInbox := s.scheduleInbox ++ [task]
      accepted := s.accepted ++ [task] }

/-- `cancel` takes the cancellation in: the identifier is reserved and the inbox has room. -/
def admitsCancel (s : State) (i : Nat) : Bool :=
  decide (i ∈ s.activeIdentifiers) && !full s s.cancelInbox.length

def enterCancel (i : Nat) (s : State) : State :=
  if admitsCancel s i then
    { s with
      cancelInbox := s.cancelInbox ++ [i]
      cancels := s.cancels ++ (live s).filter (·.identifier == i) }
  else s

/-! ## The cycle -/

/-- `retireIdentifier`, and `consumeCancellation` once it has found a cancellation. -/
def retireIdentifier (i : Nat) (s : State) : State :=
  if i = 0 then s
  else
    { s with
      cancelInbox := s.cancelInbox.filter (· ≠ i)
      cancelled := s.cancelled.erase i
      activeIdentifiers := s.activeIdentifiers.erase i }

/-- What `consumeCancellation` answers. -/
def hasCancellation (s : State) (i : Nat) : Bool :=
  decide (i ≠ 0) && (decide (i ∈ s.cancelInbox) || decide (i ∈ s.cancelled))

/-- A task leaves without running. -/
def discard (t : Task) (r : Reason) (d : Driver) (s : State) : State :=
  { retireIdentifier t.identifier s with driver := d, dropped := s.dropped ++ [(t, r)] }

/-- The locked part of `drainInbox` and what it does with it before it reads the clock. -/
def drainInbox (s : State) : State :=
  { s with
    sendInbox := []
    scheduleInbox := []
    cancelInbox := []
    taskHeap := s.scheduleInbox.foldl (fun heap t => heap.orderedInsert Before t) s.taskHeap
    cancelled := s.cancelled ∪ s.cancelInbox.toFinset
    driver := .swapped s.sendInbox }

/-- One turn of `drainInbox`'s loop over the sent tasks. -/
def drainSent (now : Int) (t : Task) (sentTasks readyTasks : List Task) (s : State) : State :=
  if t.identifier ≠ 0 ∧ t.identifier ∈ s.cancelled then discard t .cancelled (.sent now sentTasks readyTasks) s
  else if t.hasExpired now then discard t .expired (.sent now sentTasks readyTasks) s
  else { s with driver := .sent now sentTasks (readyTasks ++ [t]) }

/-- The batch is complete: `executeReadyTasks` sorts it and reads the clock. -/
def beginExecution (readyTasks : List Task) (s : State) : State :=
  { s with driver := .executing s.clock (readyTasks.insertionSort Before) 0 0 }

/-- One turn of `drainReadyTasks`' loop. -/
def drainReadyTasks (now : Int) (readyTasks : List Task) (s : State) : State :=
  match s.taskHeap with
  | [] => beginExecution readyTasks s
  | t :: heap =>
    if now < t.fireAt then beginExecution readyTasks s
    else
      let s := { s with taskHeap := heap }
      if t.identifier ∈ s.cancelled then discard t .cancelled (.popping now readyTasks) s
      else if t.hasExpired now then discard t .expired (.popping now readyTasks) s
      else { s with driver := .popping now (readyTasks ++ [t]) }

/-- One turn of `executeReadyTasks`' loop, up to the callback. -/
def executeReadyTasks (cycleStart : Int) (readyTasks : List Task) (index tasksExecuted : Nat) (s : State) : State :=
  match readyTasks[index]? with
  | none => { s with driver := .deferring readyTasks tasksExecuted }
  | some t =>
    if !t.function then
      discard t .empty (.executing cycleStart readyTasks (index + 1) (tasksExecuted + 1)) s
    else if 0 < s.maxTasksPerCycle ∧ s.maxTasksPerCycle ≤ tasksExecuted then
      { s with driver := .deferring readyTasks tasksExecuted }
    else if hasCancellation s t.identifier then
      discard t .cancelled (.executing cycleStart readyTasks (index + 1) (tasksExecuted + 1)) s
    else { s with driver := .committed cycleStart readyTasks index tasksExecuted }

def startCallback (cycleStart : Int) (readyTasks : List Task) (index tasksExecuted : Nat) (s : State) : State :=
  match readyTasks[index]? with
  | none => s
  | some t =>
    { s with
      driver := .calling cycleStart readyTasks index tasksExecuted
      started := s.started ++ [(s.cycle, t)] }

def finishCallback (cycleStart : Int) (readyTasks : List Task) (index tasksExecuted : Nat) (s : State) : State :=
  match readyTasks[index]? with
  | none => s
  | some t =>
    { retireIdentifier t.identifier s with
      driver :=
        if 0 < s.timeBudget ∧ s.timeBudget ≤ s.clock - cycleStart then .deferring readyTasks (tasksExecuted + 1)
        else .executing cycleStart readyTasks (index + 1) (tasksExecuted + 1) }

/-- What is left of the batch goes back through `sendInbox`, and the cycle ends. -/
def deferTasks (readyTasks : List Task) (tasksExecuted : Nat) (s : State) : State :=
  { s with
    sendInbox := s.sendInbox ++ readyTasks.drop tasksExecuted
    driver := .idle
    cycle := s.cycle + 1 }

def drive (s : State) : State :=
  match s.driver with
  | .idle => drainInbox s
  | .swapped sentTasks => { s with driver := .sent s.clock sentTasks [] }
  | .sent _ [] readyTasks => { s with driver := .popping s.clock readyTasks }
  | .sent now (t :: sentTasks) readyTasks => drainSent now t sentTasks readyTasks s
  | .popping now readyTasks => drainReadyTasks now readyTasks s
  | .executing cycleStart readyTasks index n => executeReadyTasks cycleStart readyTasks index n s
  | .committed cycleStart readyTasks index n => startCallback cycleStart readyTasks index n s
  | .calling cycleStart readyTasks index n => finishCallback cycleStart readyTasks index n s
  | .deferring readyTasks n => deferTasks readyTasks n s

/-! ## Steps -/

inductive Ev where
  | tick (d : Nat)
  | start
  | shutdown
  | configure (maxTasksPerCycle : Nat) (timeBudget : Int) (maxInboxSize : Nat)
  | call (r : Request)
  | enter (i : Nat)
  | drive
  deriving DecidableEq

def call (r : Request) (s : State) : State :=
  match r with
  | .send now expirationTime callback => callSend now expirationTime callback s
  | .schedule now delay callback => callSchedule now delay callback s
  | .cancel i => callCancel i s

def enterCall (c : Call) (s : State) : State :=
  match c with
  | .send t => enterSend t s
  | .schedule t => enterSchedule t s
  | .cancel i => enterCancel i s

def enter (i : Nat) (s : State) : State :=
  match s.calls[i]? with
  | none => s
  | some c => enterCall c { s with calls := s.calls.eraseIdx i }

def step (s : State) : Ev → State
  | .tick d => { s with clock := s.clock + d }
  | .start => { s with running := true }
  | .shutdown => { s with running := false }
  | .configure maxTasks budget maxSize =>
    { s with maxTasksPerCycle := maxTasks, timeBudget := budget, maxInboxSize := maxSize }
  | .call r => call r s
  | .enter i => enter i s
  | .drive => drive s

def Fresh (s : State) : Prop :=
  s.sendInbox = [] ∧ s.scheduleInbox = [] ∧ s.cancelInbox = [] ∧ s.activeIdentifiers = ∅ ∧
  s.nextIdentifier < identifierLimit ∧ s.cancelled = ∅ ∧ s.taskHeap = [] ∧ s.calls = [] ∧ s.driver = .idle ∧
  s.accepted = [] ∧ s.started = [] ∧ s.dropped = [] ∧ s.cancels = []

/-- The states reached in any order of steps. -/
abbrev Reachable (s : State) : Prop := Lib.Reach Fresh step (fun _ _ => True) s

end Backlands.Reactor
