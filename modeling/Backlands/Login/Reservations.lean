/-
  Backlands.Login.Reservations — what the reservations of login attempts promise.

  An attempt is a `reserveLogin` that is granted and one `commitFailure`, `commitSuccess` or
  `releaseReservation` for the same address and account; between the two its reservation is
  outstanding. The world is the limiter with the outstanding reservations and the last
  reading of the clock.

  Proved: `reservations_bound_guesses`, in every state reached by attempts in any order
  each counter's `pending` is the number of its outstanding reservations, failures and
  reservations stay within the threshold, a blocked counter has none, and every
  `reserveLogin` on it is refused until its block ends.
-/

import Backlands.Login.Limiter
import Mathlib.Data.List.Count

namespace Backlands.Login

open Backlands.Lib List

/-! ## One counter -/

/-- A counter with `n` outstanding reservations, at a time the clock has reached. -/
structure Bounded (threshold : UInt32) (clock : Int) (n : Nat) (info : AttemptInfo) : Prop where
  pending : info.pending.toNat = n
  room : info.failures.toNat + n ≤ threshold.toNat
  block : 0 ≤ info.blockUntil
  unblocked : 0 < n → info.blockUntil = 0 ∧ 0 ≤ clock

variable {threshold : UInt32} {clock now : Int} {n : Nat} {info : AttemptInfo}

theorem bounded_new : Bounded threshold clock 0 {} :=
  ⟨rfl, Nat.zero_le _, Int.le_refl _, fun h => absurd h (Nat.lt_irrefl 0)⟩

namespace Bounded

theorem later (h : Bounded threshold clock n info) (hle : clock ≤ now) : Bounded threshold now n info :=
  { h with unblocked := fun hn => ⟨(h.unblocked hn).1, Int.le_trans (h.unblocked hn).2 hle⟩ }

theorem tidied (h : Bounded threshold now n info) : Bounded threshold now n (tidied now info) := by
  unfold Login.tidied
  split
  · next he =>
    have hp : info.pending = 0 := by
      simp only [expired, Bool.and_eq_true, decide_eq_true_eq] at he
      exact he.1.1
    have hn : n = 0 := by
      rw [← h.pending, hp]
      rfl
    subst hn
    exact bounded_new
  · exact h

theorem cleared (h : Bounded threshold now n info) : Bounded threshold now n (cleared info) :=
  ⟨h.pending, Nat.le_trans (Nat.add_le_add_right (Nat.zero_le _) _) h.room, Int.le_refl _,
    fun hn => ⟨rfl, (h.unblocked hn).2⟩⟩

theorem looked (h : Bounded threshold now n info) : Bounded threshold now n (looked now info) := by
  unfold Login.looked isBlocked
  split
  · exact h
  · split
    · exact h.cleared
    · exact h

theorem reserved (h : Bounded threshold now n info) (ha : answers now threshold info = true) :
    Bounded threshold now (n + 1) (reserved now info) := by
  have hl := h.looked
  simp only [answers, hasCapacity, Bool.and_eq_true, Bool.not_eq_true', decide_eq_true_eq] at ha
  have hcap : (Login.looked now info).failures + (Login.looked now info).pending < threshold := ha.2
  have hroom := hl.room
  have hpend := hl.pending
  have hmax := threshold.toNat_lt
  have hlt := UInt32.lt_iff_toNat_lt.mp hcap
  rw [UInt32.toNat_add, Nat.mod_eq_of_lt (by omega)] at hlt
  have hadd := toNat_add_one (x := (Login.looked now info).pending) (by omega)
  rw [hpend] at hadd
  -- not blocked: the counter is new again or never had a block
  have hfree : (Login.looked now info).blockUntil = 0 ∧ 0 ≤ now := by
    have hb := h.block
    have hnb := ha.1
    unfold isBlocked at hnb
    unfold Login.looked isBlocked
    split at hnb
    · cases hnb
    next hle =>
    rw [if_neg hle]
    split
    · exact ⟨rfl, by omega⟩
    next hno =>
    have : info.blockUntil = 0 := by
      by_contra hne
      exact hno (.inl hne)
    exact ⟨this, by omega⟩
  refine ⟨hadd, ?_, hl.block, fun _ => hfree⟩
  show (Login.looked now info).failures.toNat + (n + 1) ≤ _
  omega

theorem release (h : Bounded threshold now (n + 1) info) : Bounded threshold now n (release info) ∧
    (release info).failures.toNat + n < threshold.toNat ∧ (release info).blockUntil = 0 ∧ 0 ≤ now := by
  have hp := h.pending
  have hpos : 0 < info.pending.toNat := by omega
  have hfree := h.unblocked (Nat.succ_pos n)
  have hsub := toNat_sub_one hpos
  have hroom := h.room
  unfold Login.release
  have hgt : info.pending > 0 := UInt32.lt_iff_toNat_lt.mpr hpos
  rw [if_pos hgt]
  refine ⟨⟨?_, ?_, h.block, fun _ => hfree⟩, ?_, hfree⟩
  · show (info.pending - 1).toNat = n
    omega
  · show info.failures.toNat + n ≤ _
    omega
  · show info.failures.toNat + n < _
    omega

theorem failed (h : Bounded threshold now (n + 1) info) {duration : Int} (hd : 0 ≤ duration) :
    Bounded threshold now n (registerFailure (Login.release info) now threshold duration) := by
  obtain ⟨hr, hroom, hblock, hnow⟩ := h.release
  have hmax := threshold.toNat_lt
  -- the counter with the failure counted, before the threshold is checked
  have hcounted : ∀ counted : AttemptInfo, counted.pending = (Login.release info).pending →
      counted.failures.toNat + n ≤ threshold.toNat → counted.blockUntil = 0 →
      Bounded threshold now n
        (if counted.failures ≥ threshold then { counted with blockUntil := now + duration } else counted) := by
    intro counted hp hle hb
    split
    · next hge =>
      have hge := UInt32.le_iff_toNat_le.mp hge
      refine ⟨hp ▸ hr.pending, hle, by show 0 ≤ now + duration; omega, fun hn => ?_⟩
      omega
    · exact ⟨hp ▸ hr.pending, hle, Int.le_of_eq hb.symm, fun _ => ⟨hb, hnow⟩⟩
  unfold registerFailure
  split
  · refine hcounted _ rfl ?_ rfl
    show (1 : UInt32).toNat + n ≤ _
    have : (1 : UInt32).toNat = 1 := rfl
    omega
  · refine hcounted _ rfl ?_ hblock
    rw [toNat_add_one (by omega)]
    omega

theorem unblocked_of_pos (h : Bounded threshold now n info) (hn : 0 < n) (hb : now < info.blockUntil) : False := by
  have := h.unblocked hn
  omega

theorem facts (h : Bounded threshold clock n info) : info.pending.toNat = n ∧
    info.failures.toNat + info.pending.toNat ≤ threshold.toNat ∧
    (∀ now, clock ≤ now → now < info.blockUntil → info.pending = 0) := by
  refine ⟨h.pending, by rw [h.pending]; exact h.room, fun now hle hb => ?_⟩
  have hp := h.pending
  have hn : n = 0 := by
    by_contra hne
    exact (h.later hle).unblocked_of_pos (Nat.pos_of_ne_zero hne) hb
  exact UInt32.toNat_inj.mp (hp.trans hn)

end Bounded

/-! ## A call on one counter -/

/-- The calls that end an attempt. -/
def Op.ends : Op → Bool
  | .commitFailure | .commitSuccess | .releaseReservation => true
  | _ => false

def Op.outstanding (granted : Bool) (n : Nat) : Op → Nat
  | .reserveLogin => if granted then n + 1 else n
  | .commitFailure | .commitSuccess | .releaseReservation => n - 1
  | _ => n

theorem blockDurationMs_nonneg (cfg : Config) : 0 ≤ blockDurationMs cfg := by
  unfold blockDurationMs DEFAULT_BLOCK_SECONDS
  split <;> omega

variable {cfg : Config} {op : Op} {granted passed : Bool}

theorem Bounded.ipEffect (h : Bounded (ipFailureThreshold cfg) now n info)
    (hop : op ≠ .recordFailure)
    (hg : op = .reserveLogin → granted = true → answers now (ipFailureThreshold cfg) info = true)
    (hn : op.ends = true → 0 < n) :
    Bounded (ipFailureThreshold cfg) now (op.outstanding granted n) (op.ipEffect cfg now granted info) := by
  have hd := blockDurationMs_nonneg cfg
  cases op with
  | allowLogin => exact h.looked
  | reserveLogin =>
    cases granted with
    | false => exact h.looked
    | true => exact h.reserved (hg rfl rfl)
  | recordFailure => exact absurd rfl hop
  | recordSuccess => exact h
  | commitFailure | commitSuccess | releaseReservation =>
    obtain ⟨m, rfl⟩ := Nat.exists_eq_succ_of_ne_zero (Nat.pos_iff_ne_zero.mp (hn rfl))
    first | exact h.failed hd | exact h.release.1

theorem Bounded.accountEffect (h : Bounded (accountFailureThreshold cfg) now n info)
    (hop : op ≠ .recordFailure)
    (hg : op = .reserveLogin → granted = true → answers now (accountFailureThreshold cfg) info = true)
    (hn : op.ends = true → 0 < n) :
    Bounded (accountFailureThreshold cfg) now (op.outstanding granted n)
      (op.accountEffect cfg now passed granted info) := by
  have hd := blockDurationMs_nonneg cfg
  cases op with
  | allowLogin =>
    cases passed with
    | false => exact h
    | true => exact h.looked
  | reserveLogin =>
    cases granted with
    | true => exact h.reserved (hg rfl rfl)
    | false =>
      cases passed with
      | false => exact h
      | true => exact h.looked
  | recordFailure => exact absurd rfl hop
  | recordSuccess => exact h.cleared
  | commitFailure | commitSuccess | releaseReservation =>
    obtain ⟨m, rfl⟩ := Nat.exists_eq_succ_of_ne_zero (Nat.pos_iff_ne_zero.mp (hn rfl))
    first | exact h.failed hd | exact h.release.1.cleared | exact h.release.1

/-- A blocked counter is left alone by every call but the end of an attempt. -/
theorem looked_of_blocked (hb : now < info.blockUntil) : looked now info = info := by
  unfold looked isBlocked
  rw [if_pos hb]

theorem answers_of_blocked (hb : now < info.blockUntil) : answers now threshold info = false := by
  unfold answers hasCapacity isBlocked
  rw [if_pos hb]
  rfl

theorem tidied_of_blocked (hb : now < info.blockUntil) : tidied now info = info := by
  unfold tidied
  refine if_neg ?_
  simp only [expired, Bool.and_eq_true, decide_eq_true_eq]
  omega

/-! ## The attempts -/

structure World where
  limiter : Limiter := {}
  outstanding : List (UInt32 × Name) := []
  clock : Int

def Call.key (c : Call) : UInt32 × Name := (c.ip, c.account)

def serve (cfg : Config) (w : World) (c : Call) : World :=
  { limiter := (call cfg w.limiter c).2
    outstanding :=
      if c.op = .reserveLogin ∧ (call cfg w.limiter c).1 = true then c.key :: w.outstanding
      else if c.op.ends then w.outstanding.erase c.key
      else w.outstanding
    clock := c.now }

/-- Only attempts and `allowLogin`, over readings that do not go back: an end has its reservation. -/
def Attempts (w : World) (c : Call) : Prop :=
  w.clock ≤ c.now ∧ c.op ≠ .recordFailure ∧ c.op ≠ .recordSuccess ∧ (c.op.ends = true → c.key ∈ w.outstanding)

def ofIp (w : World) (ip : UInt32) : Nat := w.outstanding.countP fun r => r.1 = ip

def ofAccount (w : World) (key : UInt32 × Name) : Nat := w.outstanding.count key

structure Inv (cfg : Config) (w : World) : Prop where
  ip : ∀ ip, Bounded (ipFailureThreshold cfg) w.clock (ofIp w ip) (w.limiter.ipInfo ip)
  account : ∀ key, key.2 ≠ [] → Bounded (accountFailureThreshold cfg) w.clock (ofAccount w key) (w.limiter.accountInfo key)

variable {w : World} {c : Call}

theorem serve_countP (ha : Attempts w c) (p : UInt32 × Name → Bool) :
    (serve cfg w c).outstanding.countP p =
      if p c.key then c.op.outstanding (call cfg w.limiter c).1 (w.outstanding.countP p)
      else w.outstanding.countP p := by
  have herase : c.op.ends = true → (w.outstanding.erase c.key).countP p =
      if p c.key then w.outstanding.countP p - 1 else w.outstanding.countP p := by
    intro he
    have hm := ha.2.2.2 he
    grind [countP_erase]
  show List.countP p (if _ then _ else _) = _
  generalize (call cfg w.limiter c).1 = granted
  cases hop : c.op with
  | reserveLogin =>
    cases granted with
    | false => simp [Op.ends, Op.outstanding]
    | true =>
      simp only [and_self, if_true, countP_cons, Op.outstanding]
      split <;> rfl
  | commitFailure | commitSuccess | releaseReservation =>
    rw [hop] at herase
    exact herase rfl
  | allowLogin | recordFailure | recordSuccess => simp [Op.ends, Op.outstanding]

theorem serve_ofIp (ha : Attempts w c) (ip : UInt32) : ofIp (serve cfg w c) ip =
    if ip = c.ip then c.op.outstanding (call cfg w.limiter c).1 (ofIp w ip) else ofIp w ip := by
  have h : ofIp (serve cfg w c) ip = _ := serve_countP ha fun r => r.1 = ip
  rw [h]
  simp only [Call.key, decide_eq_true_eq, eq_comm (a := c.ip)]
  rfl

theorem serve_ofAccount (ha : Attempts w c) (key : UInt32 × Name) : ofAccount (serve cfg w c) key =
    if key = c.key then c.op.outstanding (call cfg w.limiter c).1 (ofAccount w key) else ofAccount w key := by
  have h : ofAccount (serve cfg w c) key = _ := serve_countP ha fun r => r == key
  rw [h]
  simp only [beq_iff_eq, eq_comm (a := c.key)]
  rfl

theorem Inv.cleaned (h : Inv cfg w) (hle : w.clock ≤ now) :
    (∀ ip, Bounded (ipFailureThreshold cfg) now (ofIp w ip) ((cleanup w.limiter now).ipInfo ip)) ∧
    ∀ key, key.2 ≠ [] →
      Bounded (accountFailureThreshold cfg) now (ofAccount w key) ((cleanup w.limiter now).accountInfo key) := by
  rcases cleanup_cases w.limiter now with e | ⟨hip, hacc⟩
  · rw [e]
    exact ⟨fun ip => (h.ip ip).later hle, fun key hk => (h.account key hk).later hle⟩
  refine ⟨fun ip => ?_, fun key hk => ?_⟩
  · rw [hip]
    exact ((h.ip ip).later hle).tidied
  · rw [hacc]
    exact ((h.account key hk).later hle).tidied

theorem inv_serve (h : Inv cfg w) (ha : Attempts w c) : Inv cfg (serve cfg w c) := by
  obtain ⟨hip, hacc⟩ := h.cleaned ha.1
  constructor
  · intro ip
    rw [serve_ofIp ha]
    show Bounded _ c.now _ ((call cfg w.limiter c).2.ipInfo ip)
    split
    · next e =>
      subst e
      rw [ipInfo_call]
      refine (hip c.ip).ipEffect ha.2.1 (fun hop hg => (reserveLogin_granted hop hg).1) fun he => ?_
      exact countP_pos_iff.mpr ⟨c.key, ha.2.2.2 he, by simp [Call.key]⟩
    · next e =>
      rw [ipInfo_call_ne e]
      exact hip ip
  · intro key hk
    rw [serve_ofAccount ha]
    show Bounded _ c.now _ ((call cfg w.limiter c).2.accountInfo key)
    split
    · next e =>
      subst e
      rw [show c.key = (c.ip, c.account) from rfl, accountInfo_call cfg w.limiter c hk]
      refine (hacc c.key hk).accountEffect ha.2.1 (fun hop hg => (reserveLogin_granted hop hg).2 hk) fun he => ?_
      exact count_pos_iff.mpr (ha.2.2.2 he)
    · next e =>
      rw [accountInfo_call_ne fun _ => e]
      exact hacc key hk

/-- The limiter as it starts, at any reading of the clock. -/
def Opened (w : World) : Prop := w.limiter = {} ∧ w.outstanding = []

theorem inv_reach (h : Reach Opened (serve cfg) Attempts w) : Inv cfg w := by
  refine h.inv (fun w hw => ?_) fun w c ha hi => inv_serve hi ha
  have hout : w.outstanding = [] := hw.2
  constructor
  · intro ip
    rw [ofIp, hout, hw.1]
    exact bounded_new
  · intro key _
    rw [ofAccount, hout, hw.1]
    exact bounded_new

/-! ## A block holds -/

theorem blocked_ip (h : Inv cfg w) (ha : Attempts w c) {ip : UInt32} (hb : c.now < (w.limiter.ipInfo ip).blockUntil) :
    (serve cfg w c).limiter.ipInfo ip = w.limiter.ipInfo ip ∧
      (c.op = .reserveLogin → c.ip = ip → (call cfg w.limiter c).1 = false) := by
  have hclean : (cleanup w.limiter c.now).ipInfo ip = w.limiter.ipInfo ip := by
    rcases cleanup_cases w.limiter c.now with e | ⟨hip, -⟩
    · rw [e]
    · rw [hip, tidied_of_blocked hb]
  have hrefused : c.op = .reserveLogin → c.ip = ip → (call cfg w.limiter c).1 = false := by
    intro hop e
    by_contra hg
    have := (reserveLogin_granted hop (Bool.not_eq_false _ ▸ hg)).1
    rw [e, hclean, answers_of_blocked hb] at this
    cases this
  refine ⟨?_, hrefused⟩
  show (call cfg w.limiter c).2.ipInfo ip = _
  by_cases e : ip = c.ip
  · subst e
    rw [ipInfo_call, hclean]
    have hlooked := looked_of_blocked hb
    have hends : c.op.ends = true → False := fun he =>
      ((h.ip c.ip).later ha.1).unblocked_of_pos
        (countP_pos_iff.mpr ⟨c.key, ha.2.2.2 he, by simp [Call.key]⟩) hb
    cases hop : c.op with
    | allowLogin => exact hlooked
    | reserveLogin =>
      rw [hrefused hop rfl]
      exact hlooked
    | recordFailure => exact absurd hop ha.2.1
    | recordSuccess => rfl
    | commitFailure | commitSuccess | releaseReservation => exact (hends (by rw [hop]; rfl)).elim
  · rw [ipInfo_call_ne e, hclean]

theorem blocked_account (h : Inv cfg w) (ha : Attempts w c) {key : UInt32 × Name} (hk : key.2 ≠ [])
    (hb : c.now < (w.limiter.accountInfo key).blockUntil) :
    (serve cfg w c).limiter.accountInfo key = w.limiter.accountInfo key ∧
      (c.op = .reserveLogin → c.key = key → (call cfg w.limiter c).1 = false) := by
  have hclean : (cleanup w.limiter c.now).accountInfo key = w.limiter.accountInfo key := by
    rcases cleanup_cases w.limiter c.now with e | ⟨-, hacc⟩
    · rw [e]
    · rw [hacc, tidied_of_blocked hb]
  have hrefused : c.op = .reserveLogin → c.key = key → (call cfg w.limiter c).1 = false := by
    intro hop e
    subst e
    by_contra hg
    have := (reserveLogin_granted hop (Bool.not_eq_false _ ▸ hg)).2 hk
    rw [show (c.ip, c.account) = c.key from rfl, hclean, answers_of_blocked hb] at this
    cases this
  refine ⟨?_, hrefused⟩
  show (call cfg w.limiter c).2.accountInfo key = _
  by_cases e : key = c.key
  · subst e
    have hcall := accountInfo_call cfg w.limiter c hk
    rw [show (c.ip, c.account) = c.key from rfl, hclean] at hcall
    rw [hcall]
    have hlooked := looked_of_blocked hb
    have hends : c.op.ends = true → False := fun he =>
      ((h.account c.key hk).later ha.1).unblocked_of_pos (count_pos_iff.mpr (ha.2.2.2 he)) hb
    cases hop : c.op with
    | allowLogin =>
      simp only [Op.accountEffect, hlooked, ite_self]
    | reserveLogin =>
      rw [hrefused hop rfl]
      simp only [Op.accountEffect, hlooked, ite_self, Bool.false_eq_true, if_false]
    | recordFailure => exact absurd hop ha.2.1
    | recordSuccess => exact absurd hop ha.2.2.1
    | commitFailure | commitSuccess | releaseReservation => exact (hends (by rw [hop]; rfl)).elim
  · rw [accountInfo_call_ne fun _ => e, hclean]

theorem clock_le {calls : List Call} (ha : Allowed (serve cfg) Attempts w (calls ++ [c])) : w.clock ≤ c.now := by
  induction calls generalizing w with
  | nil => exact ha.1.1
  | cons d calls ih => exact Int.le_trans ha.1.1 (ih ha.2)

theorem refused_until {calls : List Call} (h : Inv cfg w) (ha : Allowed (serve cfg) Attempts w (calls ++ [c]))
    (hop : c.op = .reserveLogin)
    (hb : c.now < (w.limiter.ipInfo c.ip).blockUntil ∨
      (c.account ≠ [] ∧ c.now < (w.limiter.accountInfo c.key).blockUntil)) :
    (call cfg (run (serve cfg) w calls).limiter c).1 = false := by
  induction calls generalizing w with
  | nil =>
    rcases hb with hb | ⟨hk, hb⟩
    · exact (blocked_ip h ha.1 hb).2 hop rfl
    · exact (blocked_account h ha.1 hk hb).2 hop rfl
  | cons d calls ih =>
    have hd : d.now ≤ c.now := clock_le ha.2
    refine ih (inv_serve h ha.1) ha.2 ?_
    rcases hb with hb | ⟨hk, hb⟩
    · exact .inl (by rwa [(blocked_ip h ha.1 (Int.lt_of_le_of_lt hd hb)).1])
    · exact .inr ⟨hk, by rwa [(blocked_account h ha.1 hk (Int.lt_of_le_of_lt hd hb)).1]⟩

/-- What holds of a state reached by attempts, and of every attempt after it. -/
theorem reservations_bound_guesses (cfg : Config) {w : World} (h : Reach Opened (serve cfg) Attempts w) :
    (∀ ip, (w.limiter.ipInfo ip).pending.toNat = ofIp w ip ∧
      (w.limiter.ipInfo ip).failures.toNat + (w.limiter.ipInfo ip).pending.toNat ≤ (ipFailureThreshold cfg).toNat ∧
      (∀ now, w.clock ≤ now → now < (w.limiter.ipInfo ip).blockUntil → (w.limiter.ipInfo ip).pending = 0)) ∧
    (∀ key, key.2 ≠ [] → (w.limiter.accountInfo key).pending.toNat = ofAccount w key ∧
      (w.limiter.accountInfo key).failures.toNat + (w.limiter.accountInfo key).pending.toNat ≤
        (accountFailureThreshold cfg).toNat ∧
      (∀ now, w.clock ≤ now → now < (w.limiter.accountInfo key).blockUntil →
        (w.limiter.accountInfo key).pending = 0)) ∧
    (∀ (calls : List Call) (c : Call), Allowed (serve cfg) Attempts w (calls ++ [c]) → c.op = .reserveLogin →
      c.now < (w.limiter.ipInfo c.ip).blockUntil ∨
        (c.account ≠ [] ∧ c.now < (w.limiter.accountInfo c.key).blockUntil) →
      (call cfg (run (serve cfg) w calls).limiter c).1 = false) := by
  have hinv := inv_reach h
  exact ⟨fun ip => (hinv.ip ip).facts, fun key hk => (hinv.account key hk).facts,
    fun _ _ ha hop hb => refused_until hinv ha hop hb⟩

def someConfig : Config := ⟨5, 20, 300⟩

def oneReserved : World := serve someConfig { clock := 0 } ⟨1000, .reserveLogin, 7, [0x61]⟩

theorem reservations_bound_guesses_one :
    (oneReserved.limiter.ipInfo 7).pending.toNat = ofIp oneReserved 7 ∧ ofIp oneReserved 7 = 1 := by
  have h : Reach Opened (serve someConfig) Attempts oneReserved :=
    .step _ (.init ⟨rfl, rfl⟩) ⟨by decide, by decide, by decide, fun he => nomatch he⟩
  exact ⟨((reservations_bound_guesses someConfig h).1 7).1, by decide⟩

end Backlands.Login
