/-
  Backlands.Login.Isolation — what a success on one account tells of another.

  A success clears its account's counter and gives its reservation back. Two runs are compared: one
  is the other with successes on account `a` removed, or replaced by other calls that only end an
  attempt on `a`.

  A counter that is over (its block past and its window elapsed) may have been erased in one run and
  not in the other, so counters are compared by what a check reads of them.

  Proved: `success_isolated`. Counterexample: `success_frees_a_place`.
-/

import Backlands.Login.Limiter

namespace Backlands.Login

open Backlands.Lib List

/-! ## Counters that read alike -/

/-- What a counter holds besides its reservations. -/
def core (info : AttemptInfo) : UInt32 × Int × Int := (info.failures, info.blockUntil, info.firstAttempt)

/-- New, or over: the next check or failure starts it again. -/
def Over (now : Int) (info : AttemptInfo) : Prop :=
  core info = (0, 0, 0) ∨ (info.blockUntil ≤ now ∧ now - info.firstAttempt > WINDOW_MS)

def Alike (now : Int) (info info' : AttemptInfo) : Prop :=
  core info = core info' ∨ (Over now info ∧ Over now info')

/-- The failures and the block that a check finds. -/
def reading (now : Int) (info : AttemptInfo) : UInt32 × Int := ((looked now info).failures, (looked now info).blockUntil)

variable {now now' : Int} {info info' : AttemptInfo} {threshold : UInt32} {duration : Int}

variable {new : AttemptInfo}

theorem Over.later (h : Over now info) (hle : now ≤ now') : Over now' info := by
  rcases h with h | ⟨hb, hw⟩
  · exact .inl h
  · exact .inr ⟨by omega, by omega⟩

theorem over_of_core (h : Over now info) (e : core info = core info') : Over now info' := by
  rcases h with h | ⟨hb, hw⟩
  · exact .inl (e ▸ h)
  · simp only [core, Prod.mk.injEq] at e
    exact .inr ⟨e.2.1 ▸ hb, e.2.2 ▸ hw⟩

theorem Alike.symm (h : Alike now info info') : Alike now info' info := by
  rcases h with e | ⟨h, h'⟩
  · exact .inl e.symm
  · exact .inr ⟨h', h⟩

theorem Alike.later (h : Alike now info info') (hle : now ≤ now') : Alike now' info info' := by
  rcases h with e | ⟨h, h'⟩
  · exact .inl e
  · exact .inr ⟨h.later hle, h'.later hle⟩

theorem Alike.of_core (h : Alike now info info') (e : core new = core info) : Alike now new info' := by
  rcases h with e' | ⟨h, h'⟩
  · exact .inl (e.trans e')
  · exact .inr ⟨over_of_core h e.symm, h'⟩

theorem Alike.of_over (h : Alike now info info') (ho : Over now info) (e : core new = (0, 0, 0)) :
    Alike now new info' := by
  rcases h with e' | ⟨-, h'⟩
  · exact .inr ⟨.inl e, over_of_core ho e'⟩
  · exact .inr ⟨.inl e, h'⟩

theorem Alike.tidied (h : Alike now info info') : Alike now (tidied now info) info' := by
  unfold Login.tidied
  split
  · next he =>
    simp only [expired, Bool.and_eq_true, decide_eq_true_eq] at he
    exact h.of_over (.inr ⟨he.1.2, he.2⟩) rfl
  · exact h

theorem core_looked_of_over (h : Over now info) (hnow : 0 ≤ now) : core (looked now info) = (0, 0, 0) := by
  unfold looked isBlocked
  rcases h with h | ⟨hb, hw⟩
  · have hb : info.blockUntil = 0 := congrArg (fun p => p.2.1) h
    rw [if_neg (by omega)]
    split
    · rfl
    · exact h
  · rw [if_neg (by omega), if_pos (.inr hw)]
    rfl

theorem core_looked_congr (e : core info = core info') : core (looked now info) = core (looked now info') := by
  simp only [core, Prod.mk.injEq] at e
  unfold looked isBlocked
  rw [e.2.1, e.2.2]
  split
  · simp only [core, e]
  · split
    · rfl
    · simp only [core, e]

theorem Alike.core_looked (h : Alike now info info') (hnow : 0 ≤ now) :
    core (looked now info) = core (looked now info') := by
  rcases h with e | ⟨h, h'⟩
  · exact core_looked_congr e
  · rw [core_looked_of_over h hnow, core_looked_of_over h' hnow]

theorem Alike.reading (h : Alike now info info') (hnow : 0 ≤ now) : reading now info = reading now info' := by
  have e := h.core_looked hnow
  simp only [core, Prod.mk.injEq] at e
  simp only [Login.reading, e]

theorem registerFailure_of_over (h : Over now info) : registerFailure info now threshold duration =
    { failures := 1, pending := info.pending, firstAttempt := now,
      blockUntil := if 1 ≥ threshold then now + duration else 0 } := by
  have hfirst : info.firstAttempt = 0 ∨ now - info.firstAttempt > WINDOW_MS := by
    rcases h with h | ⟨-, hw⟩
    · exact .inl (congrArg (fun p => p.2.2) h)
    · exact .inr hw
  grind [registerFailure]

theorem core_registerFailure_congr (e : core info = core info') :
    core (registerFailure info now threshold duration) = core (registerFailure info' now threshold duration) := by
  simp only [core, Prod.mk.injEq] at e
  unfold registerFailure
  rw [e.2.2, e.1]
  dsimp only
  split
  · split <;> rfl
  · split <;> simp [core, e]

theorem Alike.registerFailure (h : Alike now info info') :
    Alike now (registerFailure info now threshold duration) (registerFailure info' now threshold duration) := by
  rcases h with e | ⟨h, h'⟩
  · exact .inl (core_registerFailure_congr e)
  · refine .inl ?_
    rw [registerFailure_of_over h, registerFailure_of_over h']
    rfl

theorem core_release (info : AttemptInfo) : core (release info) = core info := by
  unfold release
  split <;> rfl

/-- A block set when it is longer than the window: it ends after the window has. -/
structure Spaced (now : Int) (info : AttemptInfo) : Prop where
  first : info.firstAttempt ≤ now
  block : info.blockUntil ≠ 0 → info.firstAttempt + WINDOW_MS < info.blockUntil

theorem Spaced.of_core (h : Spaced now info) (e : core info' = core info) : Spaced now info' := by
  simp only [core, Prod.mk.injEq] at e
  exact ⟨e.2.2 ▸ h.first, fun hb => by rw [e.2.1] at hb ⊢; rw [e.2.2]; exact h.block hb⟩

theorem Spaced.of_new (hnow : 0 ≤ now) (e : core info = (0, 0, 0)) : Spaced now info := by
  simp only [core, Prod.mk.injEq] at e
  exact ⟨by omega, fun hb => absurd e.2.1 hb⟩

theorem Spaced.later (h : Spaced now info) (hle : now ≤ now') : Spaced now' info :=
  ⟨Int.le_trans h.first hle, h.block⟩

theorem Spaced.tidied (h : Spaced now info) (hnow : 0 ≤ now) : Spaced now (tidied now info) := by
  unfold Login.tidied
  split
  · exact .of_new hnow rfl
  · exact h

theorem Spaced.looked (h : Spaced now info) (hnow : 0 ≤ now) : Spaced now (looked now info) := by
  unfold Login.looked isBlocked
  split
  · exact h
  · split
    · exact .of_new hnow rfl
    · exact h

theorem Spaced.registerFailure (h : Spaced now info) (hd : WINDOW_MS < duration) :
    Spaced now (registerFailure info now threshold duration) := by
  have hf := h.first
  unfold Login.registerFailure
  dsimp only
  split
  · split
    · exact ⟨Int.le_refl _, fun _ => by show now + _ < now + _; omega⟩
    · exact ⟨Int.le_refl _, fun hb => absurd rfl hb⟩
  · split
    · exact ⟨hf, fun _ => by show info.firstAttempt + _ < now + _; omega⟩
    · exact ⟨hf, h.block⟩

/-- A check on one side only changes nothing that is read. -/
theorem Alike.looked_left (h : Alike now info info') (hs : Spaced now info) : Alike now (looked now info) info' := by
  unfold looked isBlocked
  split
  · exact h
  next hb =>
  split
  · next hreset =>
    refine h.of_over (.inr ⟨by omega, ?_⟩) rfl
    rcases hreset with hne | hw
    · have := hs.block hne
      omega
    · exact hw
  · exact h

/-! ## One call on both runs -/

variable {cfg : Config} {s s' : Limiter} {c : Call} {ip : UInt32} {account : Name} {key : UInt32 × Name}

def step (cfg : Config) (s : Limiter) (c : Call) : Limiter := (call cfg s c).2

theorem alike_cleanup_ip (h : Alike now (s.ipInfo ip) info') : Alike now ((cleanup s now).ipInfo ip) info' := by
  rcases cleanup_cases s now with e | ⟨hip, -⟩
  · rwa [e]
  · rw [hip]
    exact h.tidied

theorem alike_cleanup_account (h : Alike now (s.accountInfo key) info') :
    Alike now ((cleanup s now).accountInfo key) info' := by
  rcases cleanup_cases s now with e | ⟨-, hacc⟩
  · rwa [e]
  · rw [hacc]
    exact h.tidied

theorem pending_cleanup : ((cleanup s now).accountInfo key).pending = (s.accountInfo key).pending := by
  rcases cleanup_cases s now with e | ⟨-, hacc⟩
  · rw [e]
  rw [hacc]
  unfold tidied
  split
  · next he =>
    simp only [expired, Bool.and_eq_true, decide_eq_true_eq] at he
    exact he.1.1.symm
  · rfl

theorem spaced_cleanup (h : Spaced now (s.accountInfo key)) (hnow : 0 ≤ now) :
    Spaced now ((cleanup s now).accountInfo key) := by
  rcases cleanup_cases s now with e | ⟨-, hacc⟩
  · rwa [e]
  · rw [hacc]
    exact h.tidied hnow

/-- The address's counter under the same call in both runs. -/
theorem alike_step_ip (h : Alike c.now (s.ipInfo ip) (s'.ipInfo ip)) (hnow : 0 ≤ c.now) :
    Alike c.now ((step cfg s c).ipInfo ip) ((step cfg s' c).ipInfo ip) := by
  have hc := (alike_cleanup_ip (alike_cleanup_ip h).symm).symm
  unfold step
  by_cases e : ip = c.ip
  · subst e
    rw [ipInfo_call, ipInfo_call]
    cases c.op with
    | allowLogin => exact .inl (hc.core_looked hnow)
    | reserveLogin =>
      simp only [Op.ipEffect]
      have hl := hc.core_looked hnow
      refine .inl ?_
      split <;> split <;> exact hl
    | commitFailure =>
      exact (((hc.of_core (core_release _)).symm.of_core (core_release _)).symm).registerFailure
    | commitSuccess | releaseReservation =>
      exact ((hc.of_core (core_release _)).symm.of_core (core_release _)).symm
    | recordFailure => exact hc.registerFailure
    | recordSuccess => exact hc
  · rw [ipInfo_call_ne e, ipInfo_call_ne e]
    exact hc

theorem pending_looked (now : Int) (info : AttemptInfo) : (looked now info).pending = info.pending := by
  unfold looked isBlocked
  split
  · rfl
  · split <;> rfl

theorem isBlocked_eq (info : AttemptInfo) (hnow : 0 ≤ now) :
    (isBlocked info now).1 = decide (now < (looked now info).blockUntil) := by
  unfold looked isBlocked
  grind

theorem Alike.answers (h : Alike now info info') (hp : info.pending = info'.pending) (hnow : 0 ≤ now) :
    answers now threshold info = answers now threshold info' := by
  have e := h.core_looked hnow
  simp only [core, Prod.mk.injEq] at e
  have hl := pending_looked now info
  have hl' := pending_looked now info'
  show (!(isBlocked info now).1 && decide ((looked now info).failures + (looked now info).pending < threshold)) =
    (!(isBlocked info' now).1 && decide ((looked now info').failures + (looked now info').pending < threshold))
  rw [isBlocked_eq info hnow, isBlocked_eq info' hnow, e.1, e.2.1, hl, hl', hp]

theorem reserveLogin_answer (cfg : Config) (s : Limiter) (hop : c.op = .reserveLogin) (hk : c.account ≠ []) :
    (call cfg s c).1 = (ipPasses cfg s c &&
      Login.answers c.now (accountFailureThreshold cfg) ((cleanup s c.now).accountInfo (c.ip, c.account))) := by
  unfold call ipPasses
  simp only [hop]
  rcases reserveLogin_cases cfg s c.now c.ip c.accountName with
    ⟨hip, e⟩ | ⟨-, hn, -⟩ | ⟨hip, -, hacc, e⟩ | ⟨hip, -, hacc, e⟩
  · rw [e, hip]
    rfl
  · exact absurd hn hk
  · rw [e, hip]
    exact hacc.symm
  · rw [e, hip]
    exact hacc.symm

theorem accountInfo_step_ne (h : c.account ≠ [] → key ≠ (c.ip, c.account)) :
    (step cfg s c).accountInfo key = (cleanup s c.now).accountInfo key :=
  accountInfo_call_ne h

/-- Read alike, with as many reservations. -/
def Same (now : Int) (info info' : AttemptInfo) : Prop := Alike now info info' ∧ info.pending = info'.pending

theorem same_cleanup (h : Same now (s.accountInfo key) (s'.accountInfo key)) :
    Same now ((cleanup s now).accountInfo key) ((cleanup s' now).accountInfo key) :=
  ⟨(alike_cleanup_account (alike_cleanup_account h.1).symm).symm, by rw [pending_cleanup, pending_cleanup, h.2]⟩

theorem Same.release (h : Same now info info') : Same now (release info) (release info') := by
  refine ⟨((h.1.of_core (core_release _)).symm.of_core (core_release _)).symm, ?_⟩
  unfold Login.release
  rw [h.2]
  split <;> simp [h.2]

theorem pending_registerFailure : (registerFailure info now threshold duration).pending = info.pending := by
  unfold registerFailure
  dsimp only
  split <;> split <;> rfl

theorem same_step (h : Same c.now (s.accountInfo key) (s'.accountInfo key)) (hnow : 0 ≤ c.now)
    (hp : c.account ≠ [] → key = (c.ip, c.account) → c.op = .allowLogin ∨ c.op = .reserveLogin →
      ipPasses cfg s c = ipPasses cfg s' c) :
    Same c.now ((step cfg s c).accountInfo key) ((step cfg s' c).accountInfo key) := by
  have hc := same_cleanup h
  by_cases hk : c.account ≠ [] ∧ key = (c.ip, c.account)
  · obtain ⟨hne, rfl⟩ := hk
    have hpass := hp hne rfl
    have hlooked : Same c.now (looked c.now ((cleanup s c.now).accountInfo (c.ip, c.account)))
        (looked c.now ((cleanup s' c.now).accountInfo (c.ip, c.account))) :=
      ⟨.inl (hc.1.core_looked hnow), by rw [pending_looked, pending_looked, hc.2]⟩
    unfold step
    rw [accountInfo_call cfg s c hne, accountInfo_call cfg s' c hne]
    cases hop : c.op with
    | allowLogin =>
      grind [Op.accountEffect]
    | reserveLogin =>
      have hg : (call cfg s c).1 = (call cfg s' c).1 := by
        rw [reserveLogin_answer cfg s hop hne, reserveLogin_answer cfg s' hop hne, hpass (.inr hop),
          hc.1.answers hc.2 hnow]
      simp only [Op.accountEffect, hg, hpass (.inr hop)]
      split
      · exact ⟨hlooked.1.elim (fun e => .inl e) fun h => .inr h, congrArg (· + 1) hlooked.2⟩
      · split <;> omega
    | commitFailure =>
      refine ⟨hc.release.1.registerFailure, ?_⟩
      simp only [Op.accountEffect, pending_registerFailure]
      exact hc.release.2
    | commitSuccess => exact ⟨.inl rfl, hc.release.2⟩
    | releaseReservation => exact hc.release
    | recordFailure =>
      refine ⟨hc.1.registerFailure, ?_⟩
      simp only [Op.accountEffect, pending_registerFailure]
      exact hc.2
    | recordSuccess => exact ⟨.inl rfl, hc.2⟩
  · have hother : c.account ≠ [] → key ≠ (c.ip, c.account) := fun hne e => hk ⟨hne, e⟩
    rw [accountInfo_step_ne hother, accountInfo_step_ne hother]
    exact hc

/-- Read alike, each with its blocks longer than the window. -/
structure Apart (now : Int) (info info' : AttemptInfo) : Prop where
  alike : Alike now info info'
  left : Spaced now info
  right : Spaced now info'

theorem Apart.symm (h : Apart now info info') : Apart now info' info := ⟨h.alike.symm, h.right, h.left⟩

theorem Apart.of_core (h : Apart now info info') (e : core new = core info) : Apart now new info' :=
  ⟨h.alike.of_core e, h.left.of_core e, h.right⟩

theorem Apart.looked (h : Apart now info info') (hnow : 0 ≤ now) : Apart now (looked now info) info' :=
  ⟨h.alike.looked_left h.left, h.left.looked hnow, h.right⟩

theorem apart_cleanup (h : Apart now (s.accountInfo key) info') (hnow : 0 ≤ now) :
    Apart now ((cleanup s now).accountInfo key) info' :=
  ⟨alike_cleanup_account h.alike, spaced_cleanup h.left hnow, h.right⟩

theorem Apart.checked {op : Op} {passed granted : Bool} (h : Apart now info info') (hnow : 0 ≤ now)
    (hop : op = .allowLogin ∨ op = .reserveLogin) : Apart now (op.accountEffect cfg now passed granted info) info' := by
  have hl := h.looked hnow
  rcases hop with rfl | rfl
  · grind [Op.accountEffect]
  simp only [Op.accountEffect]
  split
  · exact hl.of_core rfl
  · split
    · exact hl
    · exact h

theorem apart_step (h : Apart c.now (s.accountInfo key) (s'.accountInfo key)) (hnow : 0 ≤ c.now)
    (hd : WINDOW_MS < blockDurationMs cfg) :
    Apart c.now ((step cfg s c).accountInfo key) ((step cfg s' c).accountInfo key) := by
  have hc := (apart_cleanup (apart_cleanup h hnow).symm hnow).symm
  by_cases hk : c.account ≠ [] ∧ key = (c.ip, c.account)
  · obtain ⟨hne, rfl⟩ := hk
    have hnew : ∀ info info', core info = (0, 0, 0) → core info' = (0, 0, 0) → Apart c.now info info' :=
      fun _ _ e e' => ⟨.inl (e.trans e'.symm), .of_new hnow e, .of_new hnow e'⟩
    unfold step
    rw [accountInfo_call cfg s c hne, accountInfo_call cfg s' c hne]
    cases hop : c.op with
    | allowLogin => exact ((hc.checked hnow (.inl rfl)).symm.checked hnow (.inl rfl)).symm
    | reserveLogin => exact ((hc.checked hnow (.inr rfl)).symm.checked hnow (.inr rfl)).symm
    | commitFailure =>
      have hr := ((hc.of_core (core_release _)).symm.of_core (core_release _)).symm
      exact ⟨hr.alike.registerFailure, hr.left.registerFailure hd, hr.right.registerFailure hd⟩
    | commitSuccess => exact hnew _ _ rfl rfl
    | releaseReservation => exact ((hc.of_core (core_release _)).symm.of_core (core_release _)).symm
    | recordFailure => exact ⟨hc.alike.registerFailure, hc.left.registerFailure hd, hc.right.registerFailure hd⟩
    | recordSuccess => exact hnew _ _ rfl rfl
  · have hother : c.account ≠ [] → key ≠ (c.ip, c.account) := fun hne e => hk ⟨hne, e⟩
    rw [accountInfo_step_ne hother, accountInfo_step_ne hother]
    exact hc

/-! ## Two runs -/

/-- A success on `account` at `ip`. -/
def Call.succeeds (ip : UInt32) (account : Name) (c : Call) : Prop :=
  c.ip = ip ∧ c.account = account ∧ (c.op = .commitSuccess ∨ c.op = .recordSuccess)

/-- A call that ends an attempt on `account` at `ip` without a failure. -/
def Call.quiet (ip : UInt32) (account : Name) (c : Call) : Prop :=
  c.ip = ip ∧ c.account = account ∧ (c.op = .commitSuccess ∨ c.op = .recordSuccess ∨ c.op = .releaseReservation)

/-- The second run is the first with successes on `account` removed or replaced. -/
inductive Edited (ip : UInt32) (account : Name) : List Call → List Call → Prop
  | nil : Edited ip account [] []
  | keep {cs cs' : List Call} (c : Call) : Edited ip account cs cs' → Edited ip account (c :: cs) (c :: cs')
  | remove {cs cs' : List Call} (c : Call) : c.succeeds ip account → Edited ip account cs cs' →
      Edited ip account (c :: cs) cs'
  | replace {cs cs' : List Call} (c c' : Call) : c.succeeds ip account → c'.quiet ip account → c'.now = c.now →
      Edited ip account cs cs' → Edited ip account (c :: cs) (c' :: cs')

/-- A call that asks the counters of account `b` at `ip`. -/
def Call.asks (ip : UInt32) (b : Name) (c : Call) : Bool :=
  c.ip = ip && c.account = b && (c.op = .allowLogin || c.op = .reserveLogin)

/-- What the address answers the calls on account `b`, along a run. -/
def ipAnswers (cfg : Config) (ip : UInt32) (b : Name) : Limiter → List Call → List Bool
  | _, [] => []
  | s, c :: cs =>
    if c.asks ip b then ipPasses cfg s c :: ipAnswers cfg ip b (step cfg s c) cs
    else ipAnswers cfg ip b (step cfg s c) cs

/-- The clock starts at `now` and does not go back. -/
def Ordered (now : Int) (calls : List Call) : Prop := (now :: calls.map Call.now).Pairwise (· ≤ ·)

instance (now : Int) (calls : List Call) : Decidable (Ordered now calls) :=
  inferInstanceAs (Decidable ((now :: calls.map Call.now).Pairwise (· ≤ ·)))

theorem Call.succeeds.quiet {a : Name} (h : c.succeeds ip a) : c.quiet ip a := by
  obtain ⟨hip, hacc, hop⟩ := h
  rcases hop with hop | hop
  · exact ⟨hip, hacc, .inl hop⟩
  · exact ⟨hip, hacc, .inr (.inl hop)⟩

theorem Ordered.head {calls : List Call} (h : Ordered now (c :: calls)) : now ≤ c.now :=
  (pairwise_cons.mp h).1 _ mem_cons_self

theorem Ordered.tail {calls : List Call} (h : Ordered now (c :: calls)) : Ordered c.now calls :=
  (pairwise_cons.mp h).2

section
variable {a b : Name}

/-- A quiet call leaves what its address holds besides reservations, up to a cleanup. -/
theorem alike_quiet_ip (hq : c.quiet ip a) (h : Alike c.now (s.ipInfo ip) info') :
    Alike c.now ((step cfg s c).ipInfo ip) info' := by
  have hc := alike_cleanup_ip h
  obtain ⟨rfl, -, hop⟩ := hq
  unfold step
  rw [ipInfo_call]
  rcases hop with hop | hop | hop <;> rw [hop]
  · exact hc.of_core (core_release _)
  · exact hc
  · exact hc.of_core (core_release _)

theorem quiet_account (hab : a ≠ b) (hq : c.quiet ip a) :
    (step cfg s c).accountInfo (ip, b) = (cleanup s c.now).accountInfo (ip, b) :=
  accountInfo_step_ne fun _ e => hab (hq.2.1.symm.trans (congrArg Prod.snd e).symm)

theorem quiet_asks (hab : a ≠ b) (hq : c.quiet ip a) : c.asks ip b = false := by
  have hne : c.account ≠ b := fun e => hab (hq.2.1.symm.trans e)
  simp [Call.asks, hne]

theorem same_quiet (hab : a ≠ b) (hq : c.quiet ip a) (h : Same c.now (s.accountInfo (ip, b)) info') :
    Same c.now ((step cfg s c).accountInfo (ip, b)) info' := by
  rw [quiet_account hab hq]
  exact ⟨alike_cleanup_account h.1, pending_cleanup.trans h.2⟩

theorem apart_quiet (hab : a ≠ b) (hq : c.quiet ip a) (hnow : 0 ≤ c.now)
    (h : Apart c.now (s.accountInfo (ip, b)) info') : Apart c.now ((step cfg s c).accountInfo (ip, b)) info' := by
  rw [quiet_account hab hq]
  exact apart_cleanup h hnow

theorem Same.symm (h : Same now info info') : Same now info' info := ⟨h.1.symm, h.2.symm⟩

theorem Same.later (h : Same now info info') (hle : now ≤ now') : Same now' info info' := ⟨h.1.later hle, h.2⟩

theorem Apart.later (h : Apart now info info') (hle : now ≤ now') : Apart now' info info' :=
  ⟨h.alike.later hle, h.left.later hle, h.right.later hle⟩

variable {calls calls' : List Call}

/-- A relation of two limiters over time that a call made in both runs keeps, and a quiet call
    made in one of them, holds after runs of which one is the other edited. -/
theorem Edited.keeps {R : Int → Limiter → Limiter → Prop}
    (hlater : ∀ {now now' s s'}, R now s s' → now ≤ now' → R now' s s')
    (hsymm : ∀ {now s s'}, R now s s' → R now s' s)
    (hboth : ∀ {s s' c}, 0 ≤ c.now → R c.now s s' → R c.now (step cfg s c) (step cfg s' c))
    (hquiet : ∀ {s s' c}, 0 ≤ c.now → c.quiet ip a → R c.now s s' → R c.now (step cfg s c) s')
    (he : Edited ip a calls calls') (ho : Ordered now calls) (hnow : 0 ≤ now) (hend : ∀ c ∈ calls, c.now ≤ now')
    (hle : now ≤ now') (h : R now s s') : R now' (run (step cfg) s calls) (run (step cfg) s' calls') := by
  induction he generalizing now s s' with
  | nil => exact hlater h hle
  | keep c _ ih =>
    have hc : 0 ≤ c.now := Int.le_trans hnow ho.head
    exact ih ho.tail hc (fun d hd => hend d (mem_cons_of_mem _ hd)) (hend c mem_cons_self)
      (hboth hc (hlater h ho.head))
  | remove c hs _ ih =>
    have hc : 0 ≤ c.now := Int.le_trans hnow ho.head
    exact ih ho.tail hc (fun d hd => hend d (mem_cons_of_mem _ hd)) (hend c mem_cons_self)
      (hquiet hc hs.quiet (hlater h ho.head))
  | replace c c' hs hq e _ ih =>
    have hc : 0 ≤ c.now := Int.le_trans hnow ho.head
    refine ih ho.tail hc (fun d hd => hend d (mem_cons_of_mem _ hd)) (hend c mem_cons_self) ?_
    have hleft := hquiet hc hs.quiet (hlater h ho.head)
    rw [← e] at hleft ⊢
    exact hsymm (hquiet (e ▸ hc) hq (hsymm hleft))

theorem Edited.same (hab : a ≠ b) (he : Edited ip a calls calls') (ho : Ordered now calls) (hnow : 0 ≤ now)
    (hend : ∀ c ∈ calls, c.now ≤ now') (hle : now ≤ now')
    (hans : ipAnswers cfg ip b s calls = ipAnswers cfg ip b s' calls')
    (h : Same now (s.accountInfo (ip, b)) (s'.accountInfo (ip, b))) :
    Same now' ((run (step cfg) s calls).accountInfo (ip, b)) ((run (step cfg) s' calls').accountInfo (ip, b)) := by
  induction he generalizing now s s' with
  | nil => exact h.later hle
  | @keep cs cs' c _ ih =>
    have hc : 0 ≤ c.now := Int.le_trans hnow ho.head
    have hpass : (c.asks ip b = true → ipPasses cfg s c = ipPasses cfg s' c) ∧
        ipAnswers cfg ip b (step cfg s c) cs = ipAnswers cfg ip b (step cfg s' c) cs' := by
      unfold ipAnswers at hans
      cases hasks : c.asks ip b with
      | true =>
        simp only [hasks, if_true, List.cons.injEq] at hans
        exact ⟨fun _ => hans.1, hans.2⟩
      | false =>
        simp only [hasks, Bool.false_eq_true, if_false] at hans
        exact ⟨fun hf => (Bool.false_ne_true hf).elim, hans⟩
    refine ih ho.tail hc (fun d hd => hend d (mem_cons_of_mem _ hd)) (hend c mem_cons_self) hpass.2 ?_
    refine same_step (h.later ho.head) hc fun _ hk hop => hpass.1 ?_
    obtain ⟨rfl, rfl⟩ := Prod.mk.inj hk
    rcases hop with hop | hop <;> simp [Call.asks, hop]
  | remove c hs _ ih =>
    have hc : 0 ≤ c.now := Int.le_trans hnow ho.head
    rw [ipAnswers, quiet_asks hab hs.quiet] at hans
    exact ih ho.tail hc (fun d hd => hend d (mem_cons_of_mem _ hd)) (hend c mem_cons_self) hans
      (same_quiet hab hs.quiet (h.later ho.head))
  | replace c c' hs hq e _ ih =>
    have hc : 0 ≤ c.now := Int.le_trans hnow ho.head
    rw [ipAnswers, ipAnswers, quiet_asks hab hs.quiet, quiet_asks hab hq] at hans
    refine ih ho.tail hc (fun d hd => hend d (mem_cons_of_mem _ hd)) (hend c mem_cons_self) hans ?_
    have hleft : Same c.now ((step cfg s c).accountInfo (ip, b)) _ := same_quiet hab hs.quiet (h.later ho.head)
    rw [← e] at hleft ⊢
    exact (same_quiet hab hq hleft.symm).symm

/-- Successes on `a` removed or replaced: what a check reads at `ip` stays, what it reads of
    account `b` stays if a block is longer than the window or the address answers the calls
    on `b` alike, and in the latter case so do its reservations and its answers. -/
theorem success_isolated (cfg : Config) (hab : a ≠ b) (he : Edited ip a calls calls') (ho : Ordered 0 calls)
    (hend : ∀ c ∈ calls, c.now ≤ now) (hnow : 0 ≤ now) :
    reading now ((run (step cfg) {} calls).ipInfo ip) = reading now ((run (step cfg) {} calls').ipInfo ip) ∧
    (WINDOW_MS < blockDurationMs cfg ∨ ipAnswers cfg ip b {} calls = ipAnswers cfg ip b {} calls' →
      reading now ((run (step cfg) {} calls).accountInfo (ip, b)) =
        reading now ((run (step cfg) {} calls').accountInfo (ip, b))) ∧
    (ipAnswers cfg ip b {} calls = ipAnswers cfg ip b {} calls' →
      ((run (step cfg) {} calls).accountInfo (ip, b)).pending =
        ((run (step cfg) {} calls').accountInfo (ip, b)).pending ∧
      ∀ threshold, Login.answers now threshold ((run (step cfg) {} calls).accountInfo (ip, b)) =
        Login.answers now threshold ((run (step cfg) {} calls').accountInfo (ip, b))) := by
  have hip : Alike now ((run (step cfg) {} calls).ipInfo ip) ((run (step cfg) {} calls').ipInfo ip) :=
    he.keeps (R := fun now s s' => Alike now (s.ipInfo ip) (s'.ipInfo ip)) (fun h hle => h.later hle)
      (fun h => h.symm) (fun hc h => alike_step_ip h hc) (fun _ hq h => alike_quiet_ip hq h) ho (Int.le_refl 0) hend
      hnow (.inl rfl)
  have hsame : ipAnswers cfg ip b {} calls = ipAnswers cfg ip b {} calls' →
      Same now ((run (step cfg) {} calls).accountInfo (ip, b)) ((run (step cfg) {} calls').accountInfo (ip, b)) :=
    fun hans => he.same hab ho (Int.le_refl 0) hend hnow hans ⟨.inl rfl, rfl⟩
  refine ⟨hip.reading hnow, ?_, fun hans => ⟨(hsame hans).2, fun _ => (hsame hans).1.answers (hsame hans).2 hnow⟩⟩
  intro hor
  rcases hor with hd | hans
  · have hnew : Spaced 0 {} := .of_new (Int.le_refl 0) rfl
    have hapart : Apart now ((run (step cfg) {} calls).accountInfo (ip, b))
        ((run (step cfg) {} calls').accountInfo (ip, b)) :=
      he.keeps (R := fun now s s' => Apart now (s.accountInfo (ip, b)) (s'.accountInfo (ip, b)))
        (fun h hle => h.later hle) (fun h => h.symm) (fun hc h => apart_step h hc hd)
        (fun hc hq h => apart_quiet hab hq hc h) ho (Int.le_refl 0) hend hnow ⟨.inl rfl, hnew, hnew⟩
    exact hapart.alike.reading hnow
  · exact (hsame hans).1.reading hnow

end

def alice : Name := [0x61]

def bob : Name := [0x62]

def oneGuess : Config := ⟨5, 1, 300⟩

/-- An attempt on `alice` that succeeds, then one on `bob`. -/
def withSuccess : List Call :=
  [⟨1000, .reserveLogin, 7, alice⟩, ⟨1000, .commitSuccess, 7, alice⟩, ⟨1000, .reserveLogin, 7, bob⟩]

def withoutSuccess : List Call := [⟨1000, .reserveLogin, 7, alice⟩, ⟨1000, .reserveLogin, 7, bob⟩]

theorem edited_withoutSuccess : Edited 7 alice withSuccess withoutSuccess :=
  .keep _ (.remove _ ⟨rfl, by decide, .inl rfl⟩ (.keep _ .nil))

theorem success_isolated_bob :
    reading 1000 ((run (step oneGuess) {} withSuccess).ipInfo 7) =
      reading 1000 ((run (step oneGuess) {} withoutSuccess).ipInfo 7) :=
  (success_isolated oneGuess (a := alice) (b := bob) (by decide) edited_withoutSuccess (by decide)
    (fun c hc => by simp [withSuccess] at hc; rcases hc with rfl | rfl | rfl <;> decide) (by decide)).1

/-- With one place at the address, the success on `alice` gives back the place that `bob` is
    then granted. -/
theorem success_frees_a_place : ¬ ∀ (cfg : Config) (ip : UInt32) (a b : Name) (calls calls' : List Call), a ≠ b →
    Edited ip a calls calls' → Ordered 0 calls →
    ((run (step cfg) {} calls).accountInfo (ip, b)).failures = ((run (step cfg) {} calls').accountInfo (ip, b)).failures ∧
    ((run (step cfg) {} calls).accountInfo (ip, b)).blockUntil =
      ((run (step cfg) {} calls').accountInfo (ip, b)).blockUntil ∧
    ((run (step cfg) {} calls).accountInfo (ip, b)).pending = ((run (step cfg) {} calls').accountInfo (ip, b)).pending ∧
    ((run (step cfg) {} calls).ipInfo ip).failures = ((run (step cfg) {} calls').ipInfo ip).failures := by
  intro hall
  have h := hall oneGuess 7 alice bob withSuccess withoutSuccess (by decide) edited_withoutSuccess (by decide)
  exact absurd h.2.2.1 (by decide)

end Backlands.Login
