/-
  Backlands.Db.Transaction — `DBTransaction` (src/database.h) over an arbitrary database state.

  A transaction is `begin`, some statements and `commit`; the server may refuse any of them.
  Statements are given by their number and by the effect they have together, so the state either
  keeps the whole effect or none of it. A commit took effect, was rolled back, or took effect while
  the client saw an error (a connection lost before the answer came). `lastQueryWasDeadlock` is part
  of what the server answers.

  `within` is the same retry loop over a callback that reads the database and may give up. Outside a
  transaction `executeQuery` reconnects and repeats a statement whose connection was lost, so it too
  may take effect without being answered.

  Proved: `retry` is `within` on a callback that never reads (`retry_eq_within`); a relation that
  every successful callback keeps holds across the whole loop (`within_rel`), and with commits that
  do what they say it ends with one callback's effect or with none (`within_cases`).
-/

import Mathlib.Data.List.Basic
import Mathlib.Logic.Function.Iterate

namespace Backlands.Db

open Bool

/-- What a `commit` does: `lost` took effect although the client was told it failed. -/
inductive Outcome where
  | done
  | failed
  | lost
  deriving DecidableEq, Repr

/-- What `commit` returns. -/
def Outcome.ok : Outcome → Bool
  | .done => true
  | _ => false

/-- Whether the statements of the transaction are in the database afterwards. -/
def Outcome.applied : Outcome → Bool
  | .failed => false
  | _ => true

/-- How the server fares through one transaction: `query i` is the answer to the
    `i`-th statement, `deadlock` what `lastQueryWasDeadlock` says if the attempt fails. -/
structure Attempt where
  begin : Bool
  query : Nat → Bool
  commit : Outcome
  deadlock : Bool

def Attempt.good : Attempt := ⟨true, fun _ => true, .done, false⟩

/-- An attempt whose `begin` is refused. -/
def Attempt.refused : Attempt := ⟨false, fun _ => true, .failed, false⟩

variable {σ : Type*}

/-- The first `n` statements all succeeded. -/
def Attempt.queries (a : Attempt) (n : Nat) : Bool := (List.range n).all a.query

/-- The attempt leaves the effect of its `n` statements in the database. -/
def Attempt.applied (a : Attempt) (n : Nat) : Bool := a.begin && a.queries n && a.commit.applied

def Attempt.ok (a : Attempt) (n : Nat) : Bool := a.begin && a.queries n && a.commit.ok

/-- One transaction of `n` statements with effect `f`: the value returned and the
    state left. A failure before the commit rolls everything back. -/
def transaction (a : Attempt) (n : Nat) (f : σ → σ) (s : σ) : Bool × σ :=
  (a.ok n, if a.applied n then f s else s)

def TRANSACTION_MAX_ATTEMPTS : Nat := 3

/-- `executeWithinTransactionRollbackOnFailure` with `k` attempts left: a refused
    `begin` ends it, a deadlock on any attempt but the last is retried. -/
def retry (io : Nat → Attempt) (n : Nat) (f : σ → σ) : Nat → σ → Bool × σ
  | 0, s => (false, s)
  | k + 1, s =>
    let a := io k
    if a.begin then
      let r := transaction a n f s
      if r.1 then r
      else if a.deadlock && k != 0 then retry io n f k r.2
      else (false, r.2)
    else (false, s)

def executeWithinTransactionRollbackOnFailure (io : Nat → Attempt) (n : Nat) (f : σ → σ) (s : σ) : Bool × σ :=
  retry io n f TRANSACTION_MAX_ATTEMPTS s

theorem Outcome.applied_of_ok {o : Outcome} (h : o.ok = true) : o.applied = true := by
  cases o <;> simp_all [Outcome.ok, Outcome.applied]

theorem Attempt.applied_of_ok {a : Attempt} {n : Nat} (h : a.ok n = true) : a.applied n = true := by
  simp only [Attempt.ok, Attempt.applied, and_eq_true] at h ⊢
  exact ⟨h.1, Outcome.applied_of_ok h.2⟩

/-- Whatever a transaction answers, it leaves the state alone or applies its effect once. -/
theorem transaction_cases (a : Attempt) (n : Nat) (f : σ → σ) (s : σ) :
    transaction a n f s = (a.ok n, f s) ∨ (transaction a n f s = (false, s) ∧ a.ok n = false) := by
  unfold transaction
  by_cases h : a.applied n = true
  · exact .inl (by rw [if_pos h])
  have hk : a.ok n = false := by
    cases hk : a.ok n
    · rfl
    · exact absurd (Attempt.applied_of_ok hk) h
  exact .inr ⟨by rw [if_neg h, hk], hk⟩

/-! ## A retried transaction

What it answers and how often its effect is applied depend on the server alone. -/

/-- The answer of `retry` with `k` attempts left. -/
def answer (io : Nat → Attempt) (n : Nat) : Nat → Bool
  | 0 => false
  | k + 1 => (io k).begin && ((io k).ok n || ((io k).deadlock && k != 0) && answer io n k)

/-- How often `retry` applies the effect: more than once only after a commit whose
    answer was lost. -/
def times (io : Nat → Attempt) (n : Nat) : Nat → Nat
  | 0 => 0
  | k + 1 =>
    if (io k).begin then
      (if (io k).applied n then 1 else 0) +
        if !(io k).ok n && ((io k).deadlock && k != 0) then times io n k else 0
    else 0

theorem iterate_applied (a : Attempt) (n : Nat) (f : σ → σ) (s : σ) :
    (transaction a n f s).2 = f^[if a.applied n then 1 else 0] s := by
  unfold transaction
  split <;> rfl

theorem retry_eq (io : Nat → Attempt) (n : Nat) (f : σ → σ) (k : Nat) (s : σ) :
    retry io n f k s = (answer io n k, f^[times io n k] s) := by
  induction k generalizing s with
  | zero => rfl
  | succ k ih =>
    simp only [retry, answer, times]
    cases hb : (io k).begin with
    | false => simp
    | true =>
      have h1 : (transaction (io k) n f s).1 = (io k).ok n := rfl
      simp only [if_true, Bool.true_and, h1]
      cases ho : (io k).ok n with
      | true =>
        have ha := Attempt.applied_of_ok ho
        simp [transaction, ho, ha]
      | false =>
        cases hr : (io k).deadlock && k != 0 with
        | false =>
          simp only [false_eq_true, if_false, Bool.false_or, Bool.false_and, Bool.and_false, Nat.add_zero]
          rw [iterate_applied]
        | true =>
          simp only [false_eq_true, if_false, if_true, Bool.false_or, Bool.not_false, Bool.true_and]
          rw [ih, iterate_applied, Nat.add_comm, Function.iterate_add_apply]

theorem times_pos {io : Nat → Attempt} {n k : Nat} (h : answer io n k = true) : 0 < times io n k := by
  induction k with
  | zero => simp [answer] at h
  | succ k ih =>
    simp only [answer, and_eq_true, or_eq_true] at h
    obtain ⟨hb, h⟩ := h
    simp only [times, hb, if_true]
    cases ho : (io k).ok n with
    | true =>
      rw [if_pos (Attempt.applied_of_ok ho)]
      omega
    | false =>
      obtain ⟨hr, ha⟩ : ((io k).deadlock && k != 0) = true ∧ answer io n k = true := by simpa [ho] using h
      have := ih ha
      simp only [Bool.not_false, Bool.true_and, hr, if_true]
      omega

theorem execute_eq (io : Nat → Attempt) (n : Nat) (f : σ → σ) (s : σ) :
    executeWithinTransactionRollbackOnFailure io n f s =
      (answer io n TRANSACTION_MAX_ATTEMPTS, f^[times io n TRANSACTION_MAX_ATTEMPTS] s) :=
  retry_eq io n f _ s

/-! ## Callbacks that read -/

variable {τ : Type*}

/-- `executeWithinTransactionRollbackOnFailure` with `k` attempts left. The callback is given the
    number of its attempt, the database and the variables it captures; only the database is
    rolled back. -/
def within (io : Nat → Attempt) (callback : Nat → σ → τ → Bool × σ × τ) : Nat → σ → τ → Bool × σ × τ
  | 0, s, x => (false, s, x)
  | k + 1, s, x =>
    let a := io k
    if a.begin then
      let r := callback k s x
      if r.1 && a.commit.ok then r
      else
        let s' := if r.1 && a.commit.applied then r.2.1 else s
        if a.deadlock && k != 0 then within io callback k s' r.2.2 else (false, s', r.2.2)
    else (false, s, x)

/-- A callback that captures nothing it changes: none when it returns false. -/
def answered (r : Option σ) (s : σ) (x : τ) : Bool × σ × τ := (r.isSome, r.getD s, x)

/-- Every commit did what it answered: one that failed left nothing behind. -/
def Undone (io : Nat → Attempt) : Prop := ∀ k, (io k).commit ≠ .lost

theorem Outcome.applied_eq_ok {o : Outcome} (h : o ≠ .lost) : o.applied = o.ok := by
  cases o with
  | done => rfl
  | failed => rfl
  | lost => exact absurd rfl h

theorem retry_eq_within (io : Nat → Attempt) (n : Nat) (f : σ → σ) (k : Nat) (s : σ) :
    within io (fun k s (_ : Unit) => ((io k).queries n, f s, ())) k s () =
      ((retry io n f k s).1, (retry io n f k s).2, ()) := by
  induction k generalizing s with
  | zero => rfl
  | succ k ih =>
    simp only [within, retry, transaction, Attempt.ok, Attempt.applied]
    by_cases hb : (io k).begin = true
    · simp only [hb, if_true, Bool.true_and]
      by_cases ho : ((io k).queries n && (io k).commit.ok) = true
      · have ha := Outcome.applied_of_ok (and_eq_true_iff.mp ho).2
        rw [if_pos ho, if_pos ho, (and_eq_true_iff.mp ho).1, ha, (and_eq_true_iff.mp ho).2]
        rfl
      · rw [if_neg ho, if_neg ho]
        split
        · exact ih _
        · rfl
    · rw [if_neg hb, if_neg hb]

section
variable {io : Nat → Attempt}

theorem within_rel {callback : Nat → σ → τ → Bool × σ × τ} {R : σ → σ → Prop} (hrefl : ∀ s, R s s) (htrans : ∀ {a b c}, R a b → R b c → R a c)
    (hc : ∀ k s x, (callback k s x).1 = true → R s (callback k s x).2.1) (k : Nat) (s : σ) (x : τ) :
    R s (within io callback k s x).2.1 := by
  induction k generalizing s x with
  | zero => exact hrefl s
  | succ k ih =>
    simp only [within]
    grind

/-- With honest commits the loop answers with the effect of one callback, or fails with none. -/
theorem within_cases (callback : Nat → σ → τ → Bool × σ × τ) (hu : Undone io) (k : Nat) (s : σ) (x : τ) :
    (∃ j y, j < k ∧ (callback j s y).1 = true ∧ within io callback k s x = callback j s y) ∨
      ((within io callback k s x).1 = false ∧ (within io callback k s x).2.1 = s) := by
  induction k generalizing x with
  | zero => exact .inr ⟨rfl, rfl⟩
  | succ k ih =>
    simp only [within]
    split
    · split
      · next h =>
        exact .inl ⟨k, x, Nat.lt_succ_self k, (and_eq_true_iff.mp h).1, rfl⟩
      next h =>
      rw [Outcome.applied_eq_ok (hu k), if_neg h]
      split
      · rcases ih (callback k s x).2.2 with ⟨j, y, hj, hy⟩ | hn
        · exact .inl ⟨j, y, Nat.lt_succ_of_lt hj, hy⟩
        · exact .inr hn
      · exact .inr ⟨rfl, rfl⟩
    · exact .inr ⟨rfl, rfl⟩

/-- With honest commits the statements took effect together and were answered, or none did. -/
theorem execute_cases (hu : Undone io) (n : Nat) (f : σ → σ) (s : σ) :
    executeWithinTransactionRollbackOnFailure io n f s = (true, f s) ∨
      executeWithinTransactionRollbackOnFailure io n f s = (false, s) := by
  have heq := retry_eq_within io n f TRANSACTION_MAX_ATTEMPTS s
  rcases within_cases (fun k s (_ : Unit) => ((io k).queries n, f s, ())) hu TRANSACTION_MAX_ATTEMPTS s () with
    ⟨j, y, -, hok, hdone⟩ | ⟨hfailed, hnone⟩
  · left
    rw [heq] at hdone
    exact Prod.ext ((congrArg Prod.fst hdone).trans hok) (congrArg (fun r => r.2.1) hdone)
  · right
    rw [heq] at hfailed hnone
    exact Prod.ext hfailed hnone

end

/-! ## Statements outside a transaction -/

/-- How the server fares through one `executeQuery` outside a transaction: `lostConnection`
    says whether the first execution failed with a lost connection. -/
structure Execution where
  first : Outcome
  lostConnection : Bool
  reconnect : Bool
  second : Outcome
  deriving DecidableEq

def Execution.good : Execution := ⟨.done, false, false, .done⟩

/-- Neither execution took effect without being answered. -/
def Execution.Undone (e : Execution) : Prop := e.first ≠ .lost ∧ e.second ≠ .lost

instance (e : Execution) : Decidable e.Undone := inferInstanceAs (Decidable (_ ∧ _))

/-- `executeQuery` and the `getAffectedRows` after it, for a statement that answers the rows
    it affects and leaves a state. -/
def executeQuery (e : Execution) (stmt : σ → Nat × σ) (s : σ) : Bool × Nat × σ :=
  let s' := if e.first.applied then (stmt s).2 else s
  if e.first.ok then (true, (stmt s).1, s')
  else if e.lostConnection && e.reconnect then
    (e.second.ok, if e.second.ok then (stmt s').1 else 0, if e.second.applied then (stmt s').2 else s')
  else (false, 0, s')

/-- A statement of a transaction, which is not repeated. -/
def query (answered : Bool) (stmt : σ → Nat × σ) (s : σ) : Bool × Nat × σ :=
  if answered then (true, stmt s) else (false, 0, s)

/-- The statement was answered and affected exactly one row. -/
def one (r : Bool × Nat × σ) : Bool × σ := (r.1 && r.2.1 == 1, r.2.2)

theorem executeQuery_rel {R : σ → σ → Prop} {stmt : σ → Nat × σ} (hrefl : ∀ s, R s s)
    (htrans : ∀ {a b c}, R a b → R b c → R a c) (hs : ∀ s, R s (stmt s).2) (e : Execution) (s : σ) :
    R s (executeQuery e stmt s).2.2 := by
  grind [executeQuery]

/-- A statement that may be repeated without harm ran or did not run, and ran if it was answered. -/
theorem executeQuery_idempotent (e : Execution) (stmt : σ → Nat × σ) (hstmt : ∀ s, (stmt (stmt s).2).2 = (stmt s).2)
    (s : σ) : (executeQuery e stmt s).2.2 = (stmt s).2 ∨
      ((executeQuery e stmt s).1 = false ∧ (executeQuery e stmt s).2.2 = s) := by
  simp only [executeQuery]
  cases hf : e.first.ok with
  | true => exact .inl (by rw [Outcome.applied_of_ok hf]; rfl)
  | false =>
    cases e.lostConnection && e.reconnect with
    | false =>
      cases e.first.applied with
      | true => exact .inl rfl
      | false => exact .inr ⟨rfl, rfl⟩
    | true =>
      cases hs : e.second.applied with
      | true =>
        left
        cases e.first.applied with
        | true => exact hstmt s
        | false => rfl
      | false =>
        cases e.first.applied with
        | true => exact .inl rfl
        | false =>
          refine .inr ⟨?_, rfl⟩
          cases ho : e.second.ok with
          | false => rfl
          | true => exact absurd (Outcome.applied_of_ok ho) (by simp [hs])

/-- With honest executions the statement was answered and ran once, or failed and did not run. -/
theorem executeQuery_cases {e : Execution} (hu : e.Undone) (stmt : σ → Nat × σ) (s : σ) :
    executeQuery e stmt s = (true, stmt s) ∨ executeQuery e stmt s = (false, 0, s) := by
  simp only [executeQuery]
  rw [Outcome.applied_eq_ok hu.1, Outcome.applied_eq_ok hu.2]
  cases h1 : e.first.ok with
  | true => exact .inl rfl
  | false =>
    cases hr : e.lostConnection && e.reconnect with
    | false => exact .inr rfl
    | true =>
      cases h2 : e.second.ok with
      | true => exact .inl rfl
      | false => exact .inr rfl

end Backlands.Db
