/-
  Backlands.Login.Limiter — the guard against password guessing (`LoginAttemptLimiter` in
  protocollogin.cpp).

  A counter is kept for every address and for every account an address has tried. Each holds
  the failures since its window opened, the attempts under way that have reserved a place,
  and the end of its block. A login reserves a place on both counters, and commits or
  releases it when its outcome is known. Every call takes the limiter's mutex and reads the
  clock once, so a run is a list of calls with their readings. Log lines are left out.

  Here: the calls as the source has them, and what each does to one counter.
-/

import Backlands.Lib.Runs
import Backlands.Lib.Tally
import Mathlib.Data.List.DropRight

namespace Backlands.Login

open Backlands.Lib Function

abbrev Name := List UInt8

def isspace (ch : UInt8) : Bool := ch = 0x20 || (0x09 ≤ ch && ch ≤ 0x0d)

def tolower (ch : UInt8) : UInt8 := if 0x41 ≤ ch ∧ ch ≤ 0x5a then ch + 0x20 else ch

def asTrimmedString (source : Name) : Name := (source.dropWhile isspace).rdropWhile isspace

def normalizeAccountName (accountName : Name) : Name := (asTrimmedString accountName).map tolower

/-! ## The configuration -/

structure Config where
  bruteForceAccountFailures : Int
  bruteForceIpFailures : Int
  bruteForceBlockSeconds : Int

def WINDOW_MS : Int := 60000
def DEFAULT_ACCOUNT_FAILURES : UInt32 := 5
def DEFAULT_IP_FAILURES : UInt32 := 20
def DEFAULT_BLOCK_SECONDS : Int := 300

/-- `static_cast<uint32_t>` of a positive value. -/
def toUInt32 (configured : Int) : UInt32 := UInt32.ofNat configured.toNat

def accountFailureThreshold (cfg : Config) : UInt32 :=
  if cfg.bruteForceAccountFailures > 0 then toUInt32 cfg.bruteForceAccountFailures else DEFAULT_ACCOUNT_FAILURES

def ipFailureThreshold (cfg : Config) : UInt32 :=
  if cfg.bruteForceIpFailures > 0 then toUInt32 cfg.bruteForceIpFailures else DEFAULT_IP_FAILURES

def blockDurationMs (cfg : Config) : Int :=
  (if cfg.bruteForceBlockSeconds > 0 then cfg.bruteForceBlockSeconds else DEFAULT_BLOCK_SECONDS) * 1000

/-! ## One counter -/

structure AttemptInfo where
  failures : UInt32 := 0
  pending : UInt32 := 0
  blockUntil : Int := 0
  firstAttempt : Int := 0
  deriving DecidableEq

def expired (now : Int) (info : AttemptInfo) : Bool :=
  info.pending = 0 && info.blockUntil ≤ now && now - info.firstAttempt > WINDOW_MS

def isBlocked (info : AttemptInfo) (now : Int) : Bool × AttemptInfo :=
  if info.blockUntil > now then (true, info)
  else if info.blockUntil ≠ 0 ∨ now - info.firstAttempt > WINDOW_MS then (false, { pending := info.pending })
  else (false, info)

def hasCapacity (info : AttemptInfo) (now : Int) (threshold : UInt32) : Bool × AttemptInfo :=
  let (blocked, info) := isBlocked info now
  (!blocked && info.failures + info.pending < threshold, info)

def registerFailure (info : AttemptInfo) (now : Int) (threshold : UInt32) (blockDuration : Int) : AttemptInfo :=
  let info :=
    if info.firstAttempt = 0 ∨ now - info.firstAttempt > WINDOW_MS then
      { info with failures := 1, firstAttempt := now, blockUntil := 0 }
    else { info with failures := info.failures + 1 }
  if info.failures ≥ threshold then { info with blockUntil := now + blockDuration } else info

def release (info : AttemptInfo) : AttemptInfo :=
  if info.pending > 0 then { info with pending := info.pending - 1 } else info

/-- What a success leaves of an account's counter. -/
def clear (info : AttemptInfo) : Option AttemptInfo :=
  if info.pending = 0 then none else some { pending := info.pending }

/-! ## The limiter -/

structure Limiter where
  accountAttempts : UInt32 × Name → Option AttemptInfo := fun _ => none
  ipAttempts : UInt32 → Option AttemptInfo := fun _ => none
  lastCleanup : Int := 0

def cleanup (s : Limiter) (now : Int) : Limiter :=
  if s.lastCleanup ≠ 0 ∧ now - s.lastCleanup < WINDOW_MS then s
  else
    { accountAttempts := fun key => (s.accountAttempts key).filter fun info => !expired now info
      ipAttempts := fun ip => (s.ipAttempts ip).filter fun info => !expired now info
      lastCleanup := now }

/-- `operator[]`: a key without a counter gets a new one. -/
def Limiter.ipInfo (s : Limiter) (ip : UInt32) : AttemptInfo := (s.ipAttempts ip).getD {}

def Limiter.accountInfo (s : Limiter) (key : UInt32 × Name) : AttemptInfo := (s.accountAttempts key).getD {}

def Limiter.setIp (s : Limiter) (ip : UInt32) (info : AttemptInfo) : Limiter :=
  { s with ipAttempts := update s.ipAttempts ip (some info) }

def Limiter.setAccount (s : Limiter) (key : UInt32 × Name) (info : Option AttemptInfo) : Limiter :=
  { s with accountAttempts := update s.accountAttempts key info }

/-- A counter that `find` finds. -/
def Limiter.modifyIp (s : Limiter) (ip : UInt32) (f : AttemptInfo → AttemptInfo) : Limiter :=
  match s.ipAttempts ip with
  | some info => s.setIp ip (f info)
  | none => s

def Limiter.modifyAccount (s : Limiter) (key : UInt32 × Name) (f : AttemptInfo → Option AttemptInfo) : Limiter :=
  match s.accountAttempts key with
  | some info => s.setAccount key (f info)
  | none => s

/-- `it == end() || hasCapacity(it->second, ..)`. -/
def endOrCapacity (found : Option AttemptInfo) (now : Int) (threshold : UInt32) : Bool :=
  match found with
  | some info => (hasCapacity info now threshold).1
  | none => true

section
variable (cfg : Config)

def allowLogin (s : Limiter) (now : Int) (ip : UInt32) (accountName : Name) : Bool × Limiter :=
  let s := cleanup s now
  let ipAnswer := endOrCapacity (s.ipAttempts ip) now (ipFailureThreshold cfg)
  let s := s.modifyIp ip fun info => (hasCapacity info now (ipFailureThreshold cfg)).2
  if ipAnswer = false then (false, s)
  else
    let account := normalizeAccountName accountName
    if account = [] then (true, s)
    else
      (endOrCapacity (s.accountAttempts (ip, account)) now (accountFailureThreshold cfg),
        s.modifyAccount (ip, account) fun info => some (hasCapacity info now (accountFailureThreshold cfg)).2)

def reserveLogin (s : Limiter) (now : Int) (ip : UInt32) (accountName : Name) : Bool × Limiter :=
  let s := cleanup s now
  let (ipAnswer, ipInfo) := hasCapacity (s.ipInfo ip) now (ipFailureThreshold cfg)
  if ipAnswer = false then (false, s.setIp ip ipInfo)
  else
    let account := normalizeAccountName accountName
    if account = [] then (true, s.setIp ip { ipInfo with pending := ipInfo.pending + 1 })
    else
      let (answer, accountInfo) := hasCapacity (s.accountInfo (ip, account)) now (accountFailureThreshold cfg)
      if answer = false then (false, (s.setIp ip ipInfo).setAccount (ip, account) (some accountInfo))
      else
        (true, (s.setIp ip { ipInfo with pending := ipInfo.pending + 1 }).setAccount (ip, account)
          (some { accountInfo with pending := accountInfo.pending + 1 }))

def releaseReservationLocked (s : Limiter) (ip : UInt32) (account : Name) : Limiter :=
  let s := s.modifyIp ip release
  if account = [] then s else s.modifyAccount (ip, account) fun info => some (release info)

def recordFailureLocked (s : Limiter) (ip : UInt32) (account : Name) (now : Int) : Limiter :=
  let s := s.setIp ip (registerFailure (s.ipInfo ip) now (ipFailureThreshold cfg) (blockDurationMs cfg))
  if account = [] then s
  else
    s.setAccount (ip, account)
      (some (registerFailure (s.accountInfo (ip, account)) now (accountFailureThreshold cfg) (blockDurationMs cfg)))

def recordSuccessLocked (s : Limiter) (ip : UInt32) (account : Name) : Limiter :=
  if account = [] then s else s.modifyAccount (ip, account) clear

def commitFailure (s : Limiter) (now : Int) (ip : UInt32) (accountName : Name) : Limiter :=
  let account := normalizeAccountName accountName
  recordFailureLocked cfg (releaseReservationLocked (cleanup s now) ip account) ip account now

def commitSuccess (s : Limiter) (now : Int) (ip : UInt32) (accountName : Name) : Limiter :=
  let account := normalizeAccountName accountName
  recordSuccessLocked (releaseReservationLocked (cleanup s now) ip account) ip account

def releaseReservation (s : Limiter) (now : Int) (ip : UInt32) (accountName : Name) : Limiter :=
  releaseReservationLocked (cleanup s now) ip (normalizeAccountName accountName)

def recordFailure (s : Limiter) (now : Int) (ip : UInt32) (accountName : Name) : Limiter :=
  recordFailureLocked cfg (cleanup s now) ip (normalizeAccountName accountName) now

def recordSuccess (s : Limiter) (now : Int) (ip : UInt32) (accountName : Name) : Limiter :=
  recordSuccessLocked (cleanup s now) ip (normalizeAccountName accountName)

inductive Op where
  | allowLogin
  | reserveLogin
  | commitFailure
  | commitSuccess
  | releaseReservation
  | recordFailure
  | recordSuccess
  deriving DecidableEq

structure Call where
  now : Int
  op : Op
  ip : UInt32
  accountName : Name

def Call.account (c : Call) : Name := normalizeAccountName c.accountName

/-- What a call returns (`true` for those that return nothing) and the limiter after it. -/
def call (s : Limiter) (c : Call) : Bool × Limiter :=
  match c.op with
  | .allowLogin => allowLogin cfg s c.now c.ip c.accountName
  | .reserveLogin => reserveLogin cfg s c.now c.ip c.accountName
  | .commitFailure => (true, commitFailure cfg s c.now c.ip c.accountName)
  | .commitSuccess => (true, commitSuccess s c.now c.ip c.accountName)
  | .releaseReservation => (true, releaseReservation s c.now c.ip c.accountName)
  | .recordFailure => (true, recordFailure cfg s c.now c.ip c.accountName)
  | .recordSuccess => (true, recordSuccess s c.now c.ip c.accountName)

end

/-! ## What a call does to a counter

A key without a counter reads as a new one, and every function of the source treats the two
alike but for `allowLogin`'s answer; so each call is described by what it does to what the
keys read as. -/

@[simp] theorem ipInfo_setIp_self (s : Limiter) (ip : UInt32) (info : AttemptInfo) :
    (s.setIp ip info).ipInfo ip = info := by
  simp [Limiter.setIp, Limiter.ipInfo]

@[simp] theorem ipInfo_setIp_ne (s : Limiter) {ip ip' : UInt32} (h : ip' ≠ ip) (info : AttemptInfo) :
    (s.setIp ip info).ipInfo ip' = s.ipInfo ip' := by
  simp [Limiter.setIp, Limiter.ipInfo, update_of_ne h]

@[simp] theorem ipInfo_setAccount (s : Limiter) (key : UInt32 × Name) (info : Option AttemptInfo) (ip : UInt32) :
    (s.setAccount key info).ipInfo ip = s.ipInfo ip := rfl

@[simp] theorem accountInfo_setIp (s : Limiter) (ip : UInt32) (info : AttemptInfo) (key : UInt32 × Name) :
    (s.setIp ip info).accountInfo key = s.accountInfo key := rfl

@[simp] theorem accountInfo_setAccount_self (s : Limiter) (key : UInt32 × Name) (info : Option AttemptInfo) :
    (s.setAccount key info).accountInfo key = info.getD {} := by
  simp [Limiter.setAccount, Limiter.accountInfo]

@[simp] theorem accountInfo_setAccount_ne (s : Limiter) {key key' : UInt32 × Name} (h : key' ≠ key)
    (info : Option AttemptInfo) : (s.setAccount key info).accountInfo key' = s.accountInfo key' := by
  simp [Limiter.setAccount, Limiter.accountInfo, update_of_ne h]

/-- The counter after `isBlocked` has looked at it. -/
def looked (now : Int) (info : AttemptInfo) : AttemptInfo := (isBlocked info now).2

def tidied (now : Int) (info : AttemptInfo) : AttemptInfo := if expired now info then {} else info

def reserved (now : Int) (info : AttemptInfo) : AttemptInfo :=
  { looked now info with pending := (looked now info).pending + 1 }

def cleared (info : AttemptInfo) : AttemptInfo := { pending := info.pending }

def answers (now : Int) (threshold : UInt32) (info : AttemptInfo) : Bool := (hasCapacity info now threshold).1

theorem hasCapacity_eq (info : AttemptInfo) (now : Int) (threshold : UInt32) :
    hasCapacity info now threshold = (answers now threshold info, looked now info) := rfl

@[simp] theorem looked_new (now : Int) : looked now {} = {} := by
  simp only [looked, isBlocked]
  split
  · rfl
  · split <;> rfl

@[simp] theorem release_new : release {} = {} := rfl

@[simp] theorem getD_clear (info : AttemptInfo) : (clear info).getD {} = cleared info := by
  unfold clear
  split
  · next h =>
    show _ = cleared info
    unfold cleared
    rw [h]
    rfl
  · rfl

theorem getD_filter (now : Int) (o : Option AttemptInfo) :
    (o.filter fun info => !expired now info).getD {} = tidied now (o.getD {}) := by
  cases o with
  | none => simp [tidied]
  | some info => by_cases h : expired now info <;> simp [tidied, Option.filter, h]

theorem cleanup_cases (s : Limiter) (now : Int) :
    cleanup s now = s ∨ (∀ ip, (cleanup s now).ipInfo ip = tidied now (s.ipInfo ip)) ∧
      ∀ key, (cleanup s now).accountInfo key = tidied now (s.accountInfo key) := by
  unfold cleanup
  split
  · exact .inl rfl
  · exact .inr ⟨fun ip => getD_filter now _, fun key => getD_filter now _⟩

section
variable {cfg : Config} {s : Limiter} {now : Int} {ip ip' : UInt32} {account : Name} {key : UInt32 × Name}

theorem ipInfo_modifyIp_self {f : AttemptInfo → AttemptInfo} (hf : f {} = {}) :
    (s.modifyIp ip f).ipInfo ip = f (s.ipInfo ip) := by
  unfold Limiter.modifyIp
  cases h : s.ipAttempts ip with
  | none => simp [Limiter.ipInfo, h, hf]
  | some info => simp [Limiter.ipInfo, h, Limiter.setIp]

@[simp] theorem ipInfo_modifyIp_ne (h : ip' ≠ ip) (f : AttemptInfo → AttemptInfo) :
    (s.modifyIp ip f).ipInfo ip' = s.ipInfo ip' := by
  unfold Limiter.modifyIp
  split
  · exact ipInfo_setIp_ne s h _
  · rfl

@[simp] theorem accountInfo_modifyIp (f : AttemptInfo → AttemptInfo) :
    (s.modifyIp ip f).accountInfo key = s.accountInfo key := by
  unfold Limiter.modifyIp
  split <;> rfl

theorem accountInfo_modifyAccount_self {f : AttemptInfo → Option AttemptInfo} (hf : (f {}).getD {} = {}) :
    (s.modifyAccount key f).accountInfo key = (f (s.accountInfo key)).getD {} := by
  unfold Limiter.modifyAccount
  cases h : s.accountAttempts key with
  | none => simp [Limiter.accountInfo, h, hf]
  | some info => simp [Limiter.accountInfo, h, Limiter.setAccount]

@[simp] theorem accountInfo_modifyAccount_ne {key' : UInt32 × Name} (h : key' ≠ key)
    (f : AttemptInfo → Option AttemptInfo) : (s.modifyAccount key f).accountInfo key' = s.accountInfo key' := by
  unfold Limiter.modifyAccount
  split
  · exact accountInfo_setAccount_ne s h _
  · rfl

@[simp] theorem ipInfo_modifyAccount (f : AttemptInfo → Option AttemptInfo) :
    (s.modifyAccount key f).ipInfo ip = s.ipInfo ip := by
  unfold Limiter.modifyAccount
  split <;> rfl

def ipPasses (cfg : Config) (s : Limiter) (c : Call) : Bool :=
  match c.op with
  | .allowLogin => endOrCapacity ((cleanup s c.now).ipAttempts c.ip) c.now (ipFailureThreshold cfg)
  | .reserveLogin => answers c.now (ipFailureThreshold cfg) ((cleanup s c.now).ipInfo c.ip)
  | _ => true

/-- What a call does to the counter of its address; `granted` is what it returns. -/
def Op.ipEffect (cfg : Config) (now : Int) (granted : Bool) : Op → AttemptInfo → AttemptInfo
  | .allowLogin, info => looked now info
  | .reserveLogin, info => if granted then reserved now info else looked now info
  | .commitFailure, info => registerFailure (release info) now (ipFailureThreshold cfg) (blockDurationMs cfg)
  | .commitSuccess, info | .releaseReservation, info => release info
  | .recordFailure, info => registerFailure info now (ipFailureThreshold cfg) (blockDurationMs cfg)
  | .recordSuccess, info => info

/-- What a call does to the counter of its account; `passed` is what its address's answered. -/
def Op.accountEffect (cfg : Config) (now : Int) (passed granted : Bool) : Op → AttemptInfo → AttemptInfo
  | .allowLogin, info => if passed then looked now info else info
  | .reserveLogin, info => if granted then reserved now info else if passed then looked now info else info
  | .commitFailure, info => registerFailure (release info) now (accountFailureThreshold cfg) (blockDurationMs cfg)
  | .commitSuccess, info => cleared (release info)
  | .releaseReservation, info => release info
  | .recordFailure, info => registerFailure info now (accountFailureThreshold cfg) (blockDurationMs cfg)
  | .recordSuccess, info => cleared info

theorem ipInfo_releaseReservationLocked :
    (releaseReservationLocked s ip account).ipInfo ip = release (s.ipInfo ip) := by
  unfold releaseReservationLocked
  split
  · exact ipInfo_modifyIp_self release_new
  · rw [ipInfo_modifyAccount, ipInfo_modifyIp_self release_new]

theorem ipInfo_releaseReservationLocked_ne (h : ip' ≠ ip) :
    (releaseReservationLocked s ip account).ipInfo ip' = s.ipInfo ip' := by
  unfold releaseReservationLocked
  dsimp only
  split <;> simp [h]

theorem accountInfo_releaseReservationLocked (h : account ≠ []) :
    (releaseReservationLocked s ip account).accountInfo (ip, account) = release (s.accountInfo (ip, account)) := by
  unfold releaseReservationLocked
  rw [if_neg h, accountInfo_modifyAccount_self rfl, accountInfo_modifyIp]
  rfl

theorem accountInfo_releaseReservationLocked_ne (h : account ≠ [] → key ≠ (ip, account)) :
    (releaseReservationLocked s ip account).accountInfo key = s.accountInfo key := by
  unfold releaseReservationLocked
  split
  · simp
  · next hne => rw [accountInfo_modifyAccount_ne (h hne), accountInfo_modifyIp]

theorem ipInfo_recordFailureLocked : (recordFailureLocked cfg s ip account now).ipInfo ip =
    registerFailure (s.ipInfo ip) now (ipFailureThreshold cfg) (blockDurationMs cfg) := by
  unfold recordFailureLocked
  dsimp only
  split <;> simp

theorem ipInfo_recordFailureLocked_ne (h : ip' ≠ ip) :
    (recordFailureLocked cfg s ip account now).ipInfo ip' = s.ipInfo ip' := by
  unfold recordFailureLocked
  dsimp only
  split <;> simp [h]

theorem accountInfo_recordFailureLocked (h : account ≠ []) :
    (recordFailureLocked cfg s ip account now).accountInfo (ip, account) =
      registerFailure (s.accountInfo (ip, account)) now (accountFailureThreshold cfg) (blockDurationMs cfg) := by
  unfold recordFailureLocked
  rw [if_neg h]
  simp

theorem accountInfo_recordFailureLocked_ne (h : account ≠ [] → key ≠ (ip, account)) :
    (recordFailureLocked cfg s ip account now).accountInfo key = s.accountInfo key := by
  unfold recordFailureLocked
  split
  · simp
  · next hne => simp [h hne]

theorem ipInfo_recordSuccessLocked : (recordSuccessLocked s ip account).ipInfo ip' = s.ipInfo ip' := by
  unfold recordSuccessLocked
  split <;> simp

theorem accountInfo_recordSuccessLocked (h : account ≠ []) :
    (recordSuccessLocked s ip account).accountInfo (ip, account) = cleared (s.accountInfo (ip, account)) := by
  unfold recordSuccessLocked
  rw [if_neg h, accountInfo_modifyAccount_self (by rw [getD_clear]; rfl), getD_clear]

theorem accountInfo_recordSuccessLocked_ne (h : account ≠ [] → key ≠ (ip, account)) :
    (recordSuccessLocked s ip account).accountInfo key = s.accountInfo key := by
  unfold recordSuccessLocked
  split
  · rfl
  · next hne => exact accountInfo_modifyAccount_ne (h hne) _

variable {c : Call}

/-- The four ways a reservation goes: refused by the address, granted without an account,
    refused by the account, granted on both. -/
theorem reserveLogin_cases (cfg : Config) (s : Limiter) (now : Int) (ip : UInt32) (accountName : Name) :
    (answers now (ipFailureThreshold cfg) ((cleanup s now).ipInfo ip) = false ∧
      reserveLogin cfg s now ip accountName =
        (false, (cleanup s now).setIp ip (looked now ((cleanup s now).ipInfo ip)))) ∨
    (answers now (ipFailureThreshold cfg) ((cleanup s now).ipInfo ip) = true ∧
      normalizeAccountName accountName = [] ∧
      reserveLogin cfg s now ip accountName =
        (true, (cleanup s now).setIp ip (reserved now ((cleanup s now).ipInfo ip)))) ∨
    (answers now (ipFailureThreshold cfg) ((cleanup s now).ipInfo ip) = true ∧
      normalizeAccountName accountName ≠ [] ∧
      answers now (accountFailureThreshold cfg)
        ((cleanup s now).accountInfo (ip, normalizeAccountName accountName)) = false ∧
      reserveLogin cfg s now ip accountName =
        (false, ((cleanup s now).setIp ip (looked now ((cleanup s now).ipInfo ip))).setAccount
          (ip, normalizeAccountName accountName)
          (some (looked now ((cleanup s now).accountInfo (ip, normalizeAccountName accountName)))))) ∨
    (answers now (ipFailureThreshold cfg) ((cleanup s now).ipInfo ip) = true ∧
      normalizeAccountName accountName ≠ [] ∧
      answers now (accountFailureThreshold cfg)
        ((cleanup s now).accountInfo (ip, normalizeAccountName accountName)) = true ∧
      reserveLogin cfg s now ip accountName =
        (true, ((cleanup s now).setIp ip (reserved now ((cleanup s now).ipInfo ip))).setAccount
          (ip, normalizeAccountName accountName)
          (some (reserved now ((cleanup s now).accountInfo (ip, normalizeAccountName accountName)))))) := by
  unfold reserveLogin
  simp only [hasCapacity_eq]
  rcases Bool.eq_false_or_eq_true (answers now (ipFailureThreshold cfg) ((cleanup s now).ipInfo ip)) with hip | hip
  · grind [reserved]
  · exact .inl ⟨hip, by simp [hip]⟩

theorem reserveLogin_granted (hop : c.op = .reserveLogin) (h : (call cfg s c).1 = true) :
    answers c.now (ipFailureThreshold cfg) ((cleanup s c.now).ipInfo c.ip) = true ∧
    (c.account ≠ [] →
      answers c.now (accountFailureThreshold cfg) ((cleanup s c.now).accountInfo (c.ip, c.account)) = true) := by
  unfold call at h
  simp only [hop] at h
  rcases reserveLogin_cases cfg s c.now c.ip c.accountName with
    ⟨-, e⟩ | ⟨hip, hn, -⟩ | ⟨-, -, -, e⟩ | ⟨hip, -, hacc, -⟩
  · rw [e] at h
    cases h
  · exact ⟨hip, fun hne => absurd hn hne⟩
  · rw [e] at h
    cases h
  · exact ⟨hip, fun _ => hacc⟩

theorem ipInfo_call (cfg : Config) (s : Limiter) (c : Call) : (call cfg s c).2.ipInfo c.ip =
    c.op.ipEffect cfg c.now (call cfg s c).1 ((cleanup s c.now).ipInfo c.ip) := by
  unfold call
  cases c.op with
  | allowLogin =>
    unfold allowLogin
    dsimp only
    have hl : ((cleanup s c.now).modifyIp c.ip (looked c.now)).ipInfo c.ip = _ :=
      ipInfo_modifyIp_self (looked_new c.now)
    split
    · exact hl
    · split
      · exact hl
      · exact (ipInfo_modifyAccount _).trans hl
  | reserveLogin =>
    simp only [Op.ipEffect]
    rcases reserveLogin_cases cfg s c.now c.ip c.accountName with
      ⟨-, e⟩ | ⟨-, -, e⟩ | ⟨-, -, -, e⟩ | ⟨-, -, -, e⟩ <;> rw [e] <;> simp
  | commitFailure =>
    exact ipInfo_recordFailureLocked.trans (by rw [ipInfo_releaseReservationLocked]; rfl)
  | commitSuccess => exact ipInfo_recordSuccessLocked.trans ipInfo_releaseReservationLocked
  | releaseReservation => exact ipInfo_releaseReservationLocked
  | recordFailure => exact ipInfo_recordFailureLocked
  | recordSuccess => exact ipInfo_recordSuccessLocked

theorem ipInfo_call_ne (h : ip ≠ c.ip) : (call cfg s c).2.ipInfo ip = (cleanup s c.now).ipInfo ip := by
  unfold call
  cases c.op with
  | allowLogin =>
    unfold allowLogin
    dsimp only
    split
    · simp [h]
    · split <;> simp [h]
  | reserveLogin =>
    rcases reserveLogin_cases cfg s c.now c.ip c.accountName with
      ⟨-, e⟩ | ⟨-, -, e⟩ | ⟨-, -, -, e⟩ | ⟨-, -, -, e⟩ <;> rw [e] <;> simp [h]
  | commitFailure =>
    exact (ipInfo_recordFailureLocked_ne h).trans (ipInfo_releaseReservationLocked_ne h)
  | commitSuccess => exact ipInfo_recordSuccessLocked.trans (ipInfo_releaseReservationLocked_ne h)
  | releaseReservation => exact ipInfo_releaseReservationLocked_ne h
  | recordFailure => exact ipInfo_recordFailureLocked_ne h
  | recordSuccess => exact ipInfo_recordSuccessLocked

theorem accountInfo_call (cfg : Config) (s : Limiter) (c : Call) (h : c.account ≠ []) :
    (call cfg s c).2.accountInfo (c.ip, c.account) = c.op.accountEffect cfg c.now (ipPasses cfg s c)
      (call cfg s c).1 ((cleanup s c.now).accountInfo (c.ip, c.account)) := by
  have hn : normalizeAccountName c.accountName ≠ [] := h
  unfold call ipPasses
  cases c.op with
  | allowLogin =>
    simp only [Op.accountEffect]
    unfold allowLogin
    dsimp only
    split
    · next hp => simp [hp]
    next hp =>
    rw [if_pos (by simpa using hp)]
    refine (accountInfo_modifyAccount_self (f := fun info => some (looked c.now info)) (looked_new c.now)).trans ?_
    rw [accountInfo_modifyIp]
    rfl
  | reserveLogin =>
    rcases reserveLogin_cases cfg s c.now c.ip c.accountName with
      ⟨hip, e⟩ | ⟨-, hnil, -⟩ | ⟨hip, -, -, e⟩ | ⟨-, -, -, e⟩
    · rw [e, hip]
      rfl
    · exact absurd hnil hn
    · rw [e, hip]
      exact accountInfo_setAccount_self _ _ _
    · rw [e]
      exact accountInfo_setAccount_self _ _ _
  | commitFailure =>
    refine (accountInfo_recordFailureLocked hn).trans ?_
    rw [show c.account = normalizeAccountName c.accountName from rfl, accountInfo_releaseReservationLocked hn]
    rfl
  | commitSuccess =>
    refine (accountInfo_recordSuccessLocked hn).trans ?_
    rw [show c.account = normalizeAccountName c.accountName from rfl, accountInfo_releaseReservationLocked hn]
    rfl
  | releaseReservation => exact accountInfo_releaseReservationLocked hn
  | recordFailure => exact accountInfo_recordFailureLocked hn
  | recordSuccess => exact accountInfo_recordSuccessLocked hn

theorem accountInfo_call_ne (h : c.account ≠ [] → key ≠ (c.ip, c.account)) :
    (call cfg s c).2.accountInfo key = (cleanup s c.now).accountInfo key := by
  unfold call
  cases c.op with
  | allowLogin =>
    unfold allowLogin
    dsimp only
    split
    · simp
    · split
      · simp
      · next hne => exact (accountInfo_modifyAccount_ne (h hne) _).trans (accountInfo_modifyIp _)
  | reserveLogin =>
    rcases reserveLogin_cases cfg s c.now c.ip c.accountName with
      ⟨-, e⟩ | ⟨-, -, e⟩ | ⟨-, hne, -, e⟩ | ⟨-, hne, -, e⟩
    · rw [e, accountInfo_setIp]
    · rw [e, accountInfo_setIp]
    · rw [e]
      exact accountInfo_setAccount_ne _ (h hne) _
    · rw [e]
      exact accountInfo_setAccount_ne _ (h hne) _
  | commitFailure =>
    exact (accountInfo_recordFailureLocked_ne h).trans (accountInfo_releaseReservationLocked_ne h)
  | commitSuccess =>
    exact (accountInfo_recordSuccessLocked_ne h).trans (accountInfo_releaseReservationLocked_ne h)
  | releaseReservation => exact accountInfo_releaseReservationLocked_ne h
  | recordFailure => exact accountInfo_recordFailureLocked_ne h
  | recordSuccess => exact accountInfo_recordSuccessLocked_ne h

end

end Backlands.Login
