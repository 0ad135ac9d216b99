/-
  Backlands.Coins.Accounts — Tibia Coin accounting (src/account_coins.cpp).

  A balance is an integer of the table `accounts`, as the server computes it before it is
  stored; every change is one `UPDATE` guarded by a bound on the balance. `debit` and
  `credit` run it on its own, `transfer` runs both in one transaction that locks the two
  rows first and may write two rows of `shop_history`.

  Proved: over every sequence of calls, whatever the server refuses, the balances stay
  between 0 and `MaxCoins` and a transfer keeps their sum; where the server undoes what it
  reports as failed, a call that answers false leaves balances and history as they were
  (`coins_conserved`). A transfer that answers true moved exactly its amount
  (`transferCallback_some`).
-/

import Backlands.Db.Transaction
import Backlands.Lib.Runs
import Backlands.Lib.Table

namespace Backlands.Coins

open Backlands.Lib Backlands.Db

def MaxCoins : UInt64 := 4294967295

/-- A row of `accounts`: its key is the account's id. -/
structure Account where
  tibia_coins : ℤ
  deriving DecidableEq, Repr

abbrev Accounts := Table UInt32 Account

/-- A row of `shop_history`. -/
structure ShopHistory where
  account : UInt32
  player : UInt32
  date : Nat
  title : String
  price : Int64
  costSecond : Nat
  count : Nat
  target : String
  deriving DecidableEq

structure TransferHistoryDetails where
  sourcePlayerId : UInt32
  sourcePlayerName : String
  destPlayerId : UInt32
  destPlayerName : String

structure Bank where
  accounts : Accounts
  shop_history : List ShopHistory
  deriving DecidableEq

/-! ## The statements -/

/-- ``UPDATE `accounts` SET `tibia_coins` = `tibia_coins` + delta WHERE `id` = accountId AND …``:
    the rows it affects and the table. -/
def alter (accountId : UInt32) (delta : ℤ) (guard : ℤ → Bool) (accounts : Accounts) : Nat × Accounts :=
  (accounts.affected (fun id a => id = accountId ∧ guard a.tibia_coins = true) (fun a => ⟨a.tibia_coins + delta⟩),
    accounts.update (fun id a => id = accountId ∧ guard a.tibia_coins = true) (fun a => ⟨a.tibia_coins + delta⟩))

def debitQuery (accountId : UInt32) (amount : UInt64) : Accounts → Nat × Accounts :=
  alter accountId (-amount.toNat) fun coins => decide ((amount.toNat : ℤ) ≤ coins)

def creditQuery (accountId : UInt32) (amount : UInt64) : Accounts → Nat × Accounts :=
  alter accountId amount.toNat fun coins => decide (coins ≤ (MaxCoins - amount).toNat)

/-- The checks `debit` and `credit` make before their statement; `exec` runs it. -/
def guarded (exec : (Accounts → Nat × Accounts) → Accounts → Bool × Nat × Accounts)
    (stmt : Accounts → Nat × Accounts) (accountId : UInt32) (amount : UInt64) (accounts : Accounts) : Bool × Accounts :=
  if accountId = 0 then (false, accounts)
  else if amount = 0 then (true, accounts)
  else if MaxCoins < amount then (false, accounts)
  else one (exec stmt accounts)

def debit (exec : (Accounts → Nat × Accounts) → Accounts → Bool × Nat × Accounts) (accountId : UInt32)
    (amount : UInt64) (accounts : Accounts) : Bool × Accounts :=
  guarded exec (debitQuery accountId amount) accountId amount accounts

def credit (exec : (Accounts → Nat × Accounts) → Accounts → Bool × Nat × Accounts) (accountId : UInt32)
    (amount : UInt64) (accounts : Accounts) : Bool × Accounts :=
  guarded exec (creditQuery accountId amount) accountId amount accounts

/-- ``SELECT `id` … FOR UPDATE``: answered, and the row is there. -/
def locked (answered : Bool) (accountId : UInt32) (accounts : Accounts) : Bool :=
  answered && (accounts.find? accountId).isSome

/-- The two rows a transfer writes; `now i` is `NOW()` in the `i`-th statement. -/
def historyRows (now : Nat → Nat) (source dest : UInt32) (amount : UInt64) (h : TransferHistoryDetails) :
    List ShopHistory :=
  [⟨source, h.sourcePlayerId, now 4, "Coin Transfer to " ++ h.destPlayerName, -amount.toInt64, 0, 1, h.destPlayerName⟩,
    ⟨dest, h.destPlayerId, now 5, "Coin Transfer from " ++ h.sourcePlayerName, amount.toInt64, 0, 1, h.sourcePlayerName⟩]

def writeHistory (q : Nat → Bool) (now : Nat → Nat) (source dest : UInt32) (amount : UInt64) :
    Option TransferHistoryDetails → Option (List ShopHistory)
  | none => some []
  | some h => if q 4 && q 5 then some (historyRows now source dest amount h) else none

/-- The callback of `transfer`: none when it returns false. The lower id is locked first. -/
def transferCallback (q : Nat → Bool) (now : Nat → Nat) (source dest : UInt32) (amount : UInt64)
    (history : Option TransferHistoryDetails) (bank : Bank) : Option Bank :=
  if locked (q 0) (min source dest) bank.accounts && locked (q 1) (max source dest) bank.accounts then
    let d := one (query (q 2) (debitQuery source amount) bank.accounts)
    let c := one (query (q 3) (creditQuery dest amount) d.2)
    if d.1 && c.1 then
      (writeHistory q now source dest amount history).map fun rows => ⟨c.2, bank.shop_history ++ rows⟩
    else none
  else none

def transferAttempt (io : Nat → Attempt) (now : Nat → Nat → Nat) (source dest : UInt32) (amount : UInt64)
    (history : Option TransferHistoryDetails) (k : Nat) (bank : Bank) (x : Unit) : Bool × Bank × Unit :=
  answered (transferCallback (io k).query (now k) source dest amount history bank) bank x

def transfer (io : Nat → Attempt) (now : Nat → Nat → Nat) (sourceAccountId destAccountId : UInt32) (amount : UInt64)
    (history : Option TransferHistoryDetails) (bank : Bank) : Bool × Bank :=
  if sourceAccountId = 0 ∨ destAccountId = 0 ∨ amount = 0 then (false, bank)
  else if sourceAccountId = destAccountId then (false, bank)
  else if MaxCoins < amount then (false, bank)
  else
    let r := within io (transferAttempt io now sourceAccountId destAccountId amount history)
      TRANSACTION_MAX_ATTEMPTS bank ()
    (r.1, r.2.1)

/-! ## Sequences of calls -/

/-- A call and how the server fares through it. -/
inductive Call where
  | debit (e : Execution) (accountId : UInt32) (amount : UInt64)
  | credit (e : Execution) (accountId : UInt32) (amount : UInt64)
  | transfer (io : Nat → Attempt) (now : Nat → Nat → Nat) (sourceAccountId destAccountId : UInt32) (amount : UInt64)
      (history : Option TransferHistoryDetails)

def Call.run (bank : Bank) : Call → Bool × Bank
  | .debit e accountId amount =>
    let r := Coins.debit (executeQuery e) accountId amount bank.accounts
    (r.1, { bank with accounts := r.2 })
  | .credit e accountId amount =>
    let r := Coins.credit (executeQuery e) accountId amount bank.accounts
    (r.1, { bank with accounts := r.2 })
  | .transfer io now source dest amount history => Coins.transfer io now source dest amount history bank

def step (bank : Bank) (c : Call) : Bank := (c.run bank).2

/-- What the server reports as failed left nothing behind. -/
def Call.Undone : Call → Prop
  | .debit e _ _ => e.Undone
  | .credit e _ _ => e.Undone
  | .transfer io _ _ _ _ _ => Db.Undone io

def Call.isTransfer : Call → Bool
  | .transfer .. => true
  | _ => false

/-- The balances the column can hold. -/
def InRange (accounts : Accounts) : Prop :=
  ∀ a ∈ accounts.rows, 0 ≤ a.2.tibia_coins ∧ a.2.tibia_coins ≤ MaxCoins.toNat

instance (accounts : Accounts) : Decidable (InRange accounts) := inferInstanceAs (Decidable (∀ a ∈ accounts.rows, _))

def coins (accounts : Accounts) : ℤ := accounts.total Account.tibia_coins

/-! ## What one statement does -/

section
variable {accountId : UInt32} {amount : UInt64} {accounts : Accounts}

/-- All a guarded update can do: nothing, or move one balance that meets the guard. -/
theorem alter_cases (accountId : UInt32) (delta : ℤ) (guard : ℤ → Bool) (accounts : Accounts) :
    alter accountId delta guard accounts = (0, accounts) ∨
      ∃ a, accounts.find? accountId = some a ∧ guard a.tibia_coins = true ∧
        alter accountId delta guard accounts = (1, accounts.set accountId ⟨a.tibia_coins + delta⟩) := by
  have hp : ∀ id (a : Account), id = accountId ∧ guard a.tibia_coins = true → id = accountId := fun _ _ h => h.1
  unfold alter
  rcases Table.update_cases hp (fun a => ⟨a.tibia_coins + delta⟩) accounts with ⟨hn, ht⟩ | ⟨a, hf, hg, -, hn, ht⟩
  · left
    rw [hn, ht]
  · right
    refine ⟨a, hf, hg.2, ?_⟩
    rw [hn, ht]

theorem coins_set {a : Account} (h : accounts.find? accountId = some a) (delta : ℤ) :
    coins (accounts.set accountId ⟨a.tibia_coins + delta⟩) = coins accounts + delta := by
  unfold coins
  rw [Table.total_set _ h]
  show accounts.total Account.tibia_coins - a.tibia_coins + (a.tibia_coins + delta) = _
  omega

theorem InRange.find? (h : InRange accounts) {a : Account} (hf : accounts.find? accountId = some a) :
    0 ≤ a.tibia_coins ∧ a.tibia_coins ≤ MaxCoins.toNat :=
  h _ (Table.find?_iff.mp hf)

theorem InRange.set (h : InRange accounts) {c : ℤ} (h0 : 0 ≤ c) (h1 : c ≤ MaxCoins.toNat) (accountId : UInt32) :
    InRange (accounts.set accountId ⟨c⟩) :=
  Table.forall_set (P := fun a : Account => 0 ≤ a.tibia_coins ∧ a.tibia_coins ≤ MaxCoins.toNat) h ⟨h0, h1⟩

theorem InRange.alter (h : InRange accounts) {delta : ℤ} {guard : ℤ → Bool}
    (hg : ∀ c : ℤ, 0 ≤ c → c ≤ MaxCoins.toNat → guard c = true → 0 ≤ c + delta ∧ c + delta ≤ MaxCoins.toNat)
    (accountId : UInt32) : InRange (Coins.alter accountId delta guard accounts).2 := by
  rcases alter_cases accountId delta guard accounts with he | ⟨a, hf, ha, he⟩
  · rw [he]
    exact h
  rw [he]
  obtain ⟨h0, h1⟩ := h.find? hf
  obtain ⟨h0', h1'⟩ := hg _ h0 h1 ha
  exact h.set h0' h1' accountId

/-- The guard of `credit`: below the amount that is checked first, its subtraction does not wrap. -/
theorem add_le_MaxCoins (hm : ¬ MaxCoins < amount) {c : ℤ} (h : c ≤ (MaxCoins - amount).toNat) :
    c + amount.toNat ≤ MaxCoins.toNat := by
  have hle := UInt64.not_lt.mp hm
  have hsub : (MaxCoins - amount).toNat = MaxCoins.toNat - amount.toNat := UInt64.toNat_sub_of_le _ _ hle
  have hmax : amount.toNat ≤ MaxCoins.toNat := UInt64.le_iff_toNat_le.mp hle
  omega

theorem InRange.debitQuery (h : InRange accounts) (accountId : UInt32) (amount : UInt64) :
    InRange (Coins.debitQuery accountId amount accounts).2 := by
  refine h.alter ?_ accountId
  intro c h0 h1 hg
  have hle : (amount.toNat : ℤ) ≤ c := of_decide_eq_true hg
  exact ⟨by omega, by omega⟩

theorem InRange.creditQuery (h : InRange accounts) (hm : ¬ MaxCoins < amount) (accountId : UInt32) :
    InRange (Coins.creditQuery accountId amount accounts).2 := by
  refine h.alter ?_ accountId
  intro c h0 h1 hg
  exact ⟨by omega, add_le_MaxCoins hm (of_decide_eq_true hg)⟩

theorem one_query {b : Bool} {delta : ℤ} {guard : ℤ → Bool}
    (h : (one (query b (alter accountId delta guard) accounts)).1 = true) :
    b = true ∧ ∃ a, accounts.find? accountId = some a ∧ guard a.tibia_coins = true ∧
      (one (query b (alter accountId delta guard) accounts)).2 =
        accounts.set accountId ⟨a.tibia_coins + delta⟩ := by
  cases b with
  | false => simp [one, query] at h
  | true =>
    refine ⟨rfl, ?_⟩
    rcases alter_cases accountId delta guard accounts with he | ⟨a, hf, hg, he⟩
    · simp [one, query, he] at h
    · exact ⟨a, hf, hg, by simp [one, query, he]⟩

end

/-! ## `debit` and `credit` -/

section
variable {exec : (Accounts → Nat × Accounts) → Accounts → Bool × Nat × Accounts} {stmt : Accounts → Nat × Accounts}
  {accountId : UInt32} {amount : UInt64} {accounts : Accounts}

theorem guarded_cases (exec : (Accounts → Nat × Accounts) → Accounts → Bool × Nat × Accounts)
    (stmt : Accounts → Nat × Accounts) (accountId : UInt32) (amount : UInt64) (accounts : Accounts) :
    (guarded exec stmt accountId amount accounts).2 = accounts ∨
      (¬ MaxCoins < amount ∧ guarded exec stmt accountId amount accounts = one (exec stmt accounts)) := by
  unfold guarded
  grind

theorem InRange.guarded (h : InRange accounts) (hs : ¬ MaxCoins < amount → ∀ t, InRange t → InRange (stmt t).2)
    (e : Execution) : InRange (Coins.guarded (executeQuery e) stmt accountId amount accounts).2 := by
  rcases guarded_cases (executeQuery e) stmt accountId amount accounts with he | ⟨hm, he⟩
  · rw [he]
    exact h
  · rw [he]
    exact executeQuery_rel (R := fun s s' => InRange s → InRange s') (fun _ => id) (fun h1 h2 => h2 ∘ h1)
      (hs hm) e accounts h

/-- A statement that affects no row changes none, so what is not reported did not happen. -/
theorem guarded_false {e : Execution} (hu : e.Undone) (h0 : ∀ t, (stmt t).1 ≠ 1 → (stmt t).2 = t)
    (h : (guarded (executeQuery e) stmt accountId amount accounts).1 = false) :
    (guarded (executeQuery e) stmt accountId amount accounts).2 = accounts := by
  rcases guarded_cases (executeQuery e) stmt accountId amount accounts with he | ⟨-, he⟩
  · exact he
  rw [he] at h ⊢
  rcases executeQuery_cases hu stmt accounts with hq | hq
  · rw [hq] at h ⊢
    exact h0 accounts (by simpa [one] using h)
  · rw [hq]
    rfl

theorem alter_unaffected (accountId : UInt32) (delta : ℤ) (guard : ℤ → Bool) (t : Accounts)
    (h : (alter accountId delta guard t).1 ≠ 1) : (alter accountId delta guard t).2 = t := by
  rcases alter_cases accountId delta guard t with he | ⟨a, -, -, he⟩
  · rw [he]
  · rw [he] at h
    exact absurd rfl h

theorem guarded_find? {b : Bool} {delta : ℤ} {guard : ℤ → Bool} (hd : amount = 0 → delta = 0)
    (h : (guarded (query b) (alter accountId delta guard) accountId amount accounts).1 = true) (k : UInt32) :
    (guarded (query b) (alter accountId delta guard) accountId amount accounts).2.find? k =
      if k = accountId then (accounts.find? k).map fun a => ⟨a.tibia_coins + delta⟩ else accounts.find? k := by
  unfold guarded at h ⊢
  split at h
  · cases h
  next h0 =>
  rw [if_neg h0]
  split at h
  · next hz =>
    rw [if_pos hz, hd hz]
    simp
  next hz =>
  rw [if_neg hz]
  split at h
  · cases h
  next hm =>
  rw [if_neg hm]
  obtain ⟨-, a, ha, -, he⟩ := one_query h
  rw [he, Table.find?_set ha]
  by_cases e : k = accountId <;> simp [e, ha]

theorem debit_find? {b : Bool} (h : (debit (query b) accountId amount accounts).1 = true) (k : UInt32) :
    (debit (query b) accountId amount accounts).2.find? k =
      if k = accountId then (accounts.find? k).map fun a => ⟨a.tibia_coins + -amount.toNat⟩ else accounts.find? k :=
  guarded_find? (fun hz => by simp [hz]) h k

theorem credit_find? {b : Bool} (h : (credit (query b) accountId amount accounts).1 = true) (k : UInt32) :
    (credit (query b) accountId amount accounts).2.find? k =
      if k = accountId then (accounts.find? k).map fun a => ⟨a.tibia_coins + amount.toNat⟩ else accounts.find? k :=
  guarded_find? (fun hz => by simp [hz]) h k

end

/-! ## `transfer` -/

section
variable {q : Nat → Bool} {now : Nat → Nat} {source dest : UInt32} {amount : UInt64}
  {history : Option TransferHistoryDetails} {bank bank' : Bank}

theorem transferCallback_some (h : transferCallback q now source dest amount history bank = some bank') :
    ∃ a b rows, bank.accounts.find? source = some a ∧ (amount.toNat : ℤ) ≤ a.tibia_coins ∧
      (bank.accounts.set source ⟨a.tibia_coins - amount.toNat⟩).find? dest = some b ∧
      b.tibia_coins ≤ (MaxCoins - amount).toNat ∧ writeHistory q now source dest amount history = some rows ∧
      bank' = ⟨(bank.accounts.set source ⟨a.tibia_coins - amount.toNat⟩).set dest ⟨b.tibia_coins + amount.toNat⟩,
        bank.shop_history ++ rows⟩ := by
  unfold transferCallback at h
  split at h
  · simp only at h
    split at h
    · next hdc =>
      obtain ⟨hd, hc⟩ := Bool.and_eq_true_iff.mp hdc
      obtain ⟨-, a, ha, hga, hea⟩ := one_query hd
      rw [debitQuery, hea] at hc h
      obtain ⟨-, b, hb, hgb, heb⟩ := one_query hc
      rw [creditQuery, heb] at h
      obtain ⟨rows, hrows, rfl⟩ := Option.map_eq_some_iff.mp h
      exact ⟨a, b, rows, ha, of_decide_eq_true hga, hb, of_decide_eq_true hgb, hrows, rfl⟩
    · cases h
  · cases h

theorem coins_transferCallback (h : transferCallback q now source dest amount history bank = some bank') :
    coins bank'.accounts = coins bank.accounts := by
  obtain ⟨a, b, rows, ha, -, hb, -, -, rfl⟩ := transferCallback_some h
  rw [coins_set hb, sub_eq_add_neg, coins_set ha]
  omega

theorem InRange.transferCallback (hr : InRange bank.accounts) (hm : ¬ MaxCoins < amount)
    (h : Coins.transferCallback q now source dest amount history bank = some bank') : InRange bank'.accounts := by
  obtain ⟨a, b, rows, ha, hga, hb, hgb, -, rfl⟩ := transferCallback_some h
  obtain ⟨-, ha1⟩ := hr.find? ha
  have hmid := hr.set (c := a.tibia_coins - amount.toNat) (by omega) (by omega) source
  obtain ⟨hb0, -⟩ := hmid.find? hb
  exact hmid.set (by omega) (add_le_MaxCoins hm hgb) dest

theorem transfer_cases (io : Nat → Attempt) (now : Nat → Nat → Nat) (source dest : UInt32) (amount : UInt64)
    (history : Option TransferHistoryDetails) (bank : Bank) :
    transfer io now source dest amount history bank = (false, bank) ∨
      (¬ MaxCoins < amount ∧
        ∃ r, r = within io (transferAttempt io now source dest amount history) TRANSACTION_MAX_ATTEMPTS bank () ∧
          transfer io now source dest amount history bank = (r.1, r.2.1)) := by
  unfold transfer
  grind

theorem transfer_rel {R : Bank → Bank → Prop} (hrefl : ∀ s, R s s) (htrans : ∀ {a b c}, R a b → R b c → R a c)
    (hc : ¬ MaxCoins < amount → ∀ q now s s', transferCallback q now source dest amount history s = some s' → R s s')
    (io : Nat → Attempt) (now : Nat → Nat → Nat) (bank : Bank) :
    R bank (transfer io now source dest amount history bank).2 := by
  rcases transfer_cases io now source dest amount history bank with he | ⟨hm, r, hr, he⟩
  · rw [he]
    exact hrefl bank
  rw [he, hr]
  refine within_rel hrefl htrans ?_ _ _ _
  intro k s x hs
  obtain ⟨s', hs'⟩ := Option.isSome_iff_exists.mp hs
  simpa [transferAttempt, answered, hs'] using hc hm _ _ _ _ hs'

theorem transfer_false {io : Nat → Attempt} (hu : Undone io) (now : Nat → Nat → Nat)
    (h : (transfer io now source dest amount history bank).1 = false) :
    (transfer io now source dest amount history bank).2 = bank := by
  rcases transfer_cases io now source dest amount history bank with he | ⟨-, r, hr, he⟩
  · rw [he]
  rw [he] at h ⊢
  rcases within_cases (transferAttempt io now source dest amount history) hu
    TRANSACTION_MAX_ATTEMPTS bank () with ⟨j, y, -, hj, hw⟩ | ⟨-, hs⟩
  · grind
  · rw [hr]
    exact hs

end

/-! ## Every sequence of calls -/

theorem inRange_step {bank : Bank} (h : InRange bank.accounts) (c : Call) : InRange (step bank c).accounts := by
  cases c with
  | debit e accountId amount => exact h.guarded (fun _ t ht => ht.debitQuery accountId amount) e
  | credit e accountId amount => exact h.guarded (fun hm t ht => ht.creditQuery hm accountId) e
  | transfer io now source dest amount history =>
    exact transfer_rel (R := fun s s' => InRange s.accounts → InRange s'.accounts) (fun _ => id) (fun h1 h2 => h2 ∘ h1)
      (fun hm _ _ _ _ hs hr => hr.transferCallback hm hs) io now bank h

theorem inRange_run {bank : Bank} (h : InRange bank.accounts) (cs : List Call) :
    InRange (run step bank cs).accounts := by
  induction cs generalizing bank with
  | nil => exact h
  | cons c cs ih => exact ih (inRange_step h c)

theorem coins_transfer (io : Nat → Attempt) (now : Nat → Nat → Nat) (source dest : UInt32) (amount : UInt64)
    (history : Option TransferHistoryDetails) (bank : Bank) :
    coins (transfer io now source dest amount history bank).2.accounts = coins bank.accounts :=
  transfer_rel (R := fun s s' => coins s'.accounts = coins s.accounts) (fun _ => rfl) (fun h1 h2 => h2.trans h1)
    (fun _ _ _ _ _ hs => coins_transferCallback hs) io now bank

theorem run_false {bank : Bank} {c : Call} (hu : c.Undone) (h : (c.run bank).1 = false) : (c.run bank).2 = bank := by
  cases c with
  | debit e accountId amount =>
    show { bank with accounts := _ } = bank
    rw [show (debit (executeQuery e) accountId amount bank.accounts).2 = bank.accounts from
      guarded_false hu (alter_unaffected _ _ _) h]
  | credit e accountId amount =>
    show { bank with accounts := _ } = bank
    rw [show (credit (executeQuery e) accountId amount bank.accounts).2 = bank.accounts from
      guarded_false hu (alter_unaffected _ _ _) h]
  | transfer io now source dest amount history => exact transfer_false hu now h

/-- From balances the column can hold, whatever calls were made and however they fared:
    every balance is in range, the next transfer keeps their sum, and a next call that answers
    false changes neither balances nor history. -/
theorem coins_conserved (bank : Bank) (h : InRange bank.accounts) (cs : List Call) (c : Call) :
    InRange (run step bank cs).accounts ∧
      (c.isTransfer = true → coins (step (run step bank cs) c).accounts = coins (run step bank cs).accounts) ∧
      (c.Undone → (c.run (run step bank cs)).1 = false → step (run step bank cs) c = run step bank cs) := by
  refine ⟨inRange_run h cs, ?_, fun hu hf => run_false hu hf⟩
  intro ht
  cases c with
  | debit => cases ht
  | credit => cases ht
  | transfer io now source dest amount history => exact coins_transfer io now source dest amount history _

def twoAccounts : Bank := ⟨⟨[(7, ⟨100⟩), (3, ⟨4294967290⟩)], by decide⟩, []⟩

def refusedGift : Call :=
  .transfer (fun _ => { Attempt.good with query := fun i => i != 5, deadlock := true }) (fun _ _ => 0) 7 3 5
    (some ⟨1, "Ada", 2, "Bo"⟩)

theorem coins_conserved_twoAccounts :
    InRange twoAccounts.accounts ∧ refusedGift.Undone ∧
      InRange (run step twoAccounts [.credit Execution.good 3 6, .debit Execution.good 7 1]).accounts ∧
      coins (step (run step twoAccounts [.credit Execution.good 3 6, .debit Execution.good 7 1]) refusedGift).accounts =
        4294967389 ∧
      step (run step twoAccounts [.credit Execution.good 3 6, .debit Execution.good 7 1]) refusedGift =
        run step twoAccounts [.credit Execution.good 3 6, .debit Execution.good 7 1] := by
  have hr : InRange twoAccounts.accounts := by decide
  have hu : refusedGift.Undone := by
    intro k
    exact Outcome.noConfusion
  obtain ⟨h1, h2, h3⟩ :=
    coins_conserved twoAccounts hr [.credit Execution.good 3 6, .debit Execution.good 7 1] refusedGift
  refine ⟨hr, hu, h1, ?_, h3 hu (by decide)⟩
  rw [h2 rfl]
  decide

end Backlands.Coins
