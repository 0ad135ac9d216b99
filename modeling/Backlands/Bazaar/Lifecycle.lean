/-
  Backlands.Bazaar.Lifecycle — sequences of listings, bids and settlement runs
  (src/character_bazaar.cpp: `createAuction`, `finalizeExpiredAuctions`).

  A settlement run reads the ids of the auctions that are due and then settles them one by one, so
  that runs overlap: a state holds what is left of each. A bid comes from a site outside the server:
  it names a bidder and an amount on an ACTIVE auction and moves coins as it likes.

  Proved, for every sequence in which a failed transaction is undone: what one step does to
  auctions, owners and coins (`Change`, `step_change`); that an auction leaves ACTIVE at most once,
  that characters move and sellers are paid exactly as auctions finish and that a step which fails
  changes nothing (`auctions_sound`). An account keeps at most one ACTIVE auction as long as no
  listing misses the one there is (`Checked`); a listing whose two checks both went unanswered adds
  a second (`second_auction_listed`).
-/

import Backlands.Bazaar.Auctions

namespace Backlands.Bazaar

open Backlands.Lib Backlands.Db List

structure State where
  db : Tables
  /-- For each settlement run the ids it has still to settle. -/
  runs : List (List UInt32)

inductive Ev where
  | createAuction (c : Config) (p : Player) (l : Listing) (env : Env)
  | finalizeExpiredAuctions (c : Config) (answered : Bool) (now : Nat)
  | finalizeAuction (i : Nat) (now : Nat) (io : Nat → Attempt) (clock : Nat → Nat)
  | bid (auctionId bidder amount : UInt32) (accounts : Coins.Accounts)

/-- The ids `finalizeExpiredAuctions` reads. -/
def expiredAuctions (c : Config) (answered : Bool) (now : Nat) (auctions : Table UInt32 Auction) : List UInt32 :=
  if c.enabled && answered then
    (auctions.rows.filter fun r => decide (r.2.status = .ACTIVE ∧ r.2.end_at ≤ now)).map Prod.fst
  else []

def Auction.placeBid (bidder amount : UInt32) (r : Auction) : Auction :=
  { r with current_bidder_account_id := some bidder, current_bid := amount }

def step (s : State) : Ev → State
  | .createAuction c p l env => { s with db := (createAuction c p l env s.db).2.2 }
  | .finalizeExpiredAuctions c answered now =>
    { s with runs := s.runs ++ [expiredAuctions c answered now s.db.auctions] }
  | .finalizeAuction i now io clock =>
    match s.runs[i]? with
    | some (id :: rest) => ⟨(finalizeAuction id now io clock s.db).2, s.runs.set i rest⟩
    | _ => s
  | .bid id bidder amount accounts =>
    { s with db := { s.db with
      accounts := accounts
      auctions := closeAuction id (Auction.placeBid bidder amount) s.db.auctions } }

/-- The call the step makes answers false. -/
def failed (s : State) : Ev → Bool
  | .createAuction c p l env => !(createAuction c p l env s.db).1
  | .finalizeAuction i now io clock =>
    match s.runs[i]? with
    | some (id :: _) => !(finalizeAuction id now io clock s.db).1
    | _ => false
  | _ => false

/-- A transaction that is reported as failed was rolled back. -/
def Ev.Undone : Ev → Prop
  | .createAuction _ _ _ env => Db.Undone env.io
  | .finalizeAuction _ _ io _ => Db.Undone io
  | _ => True

/-- A listing for an account with an ACTIVE auction sees one: before its transaction, or in
    each attempt of it. -/
def Checked (s : State) : Ev → Prop
  | .createAuction _ p _ env =>
    hasActiveAuctionForAccount true p.account s.db.auctions = true →
      alreadyListed env.answered.player env.answered.account p s.db.auctions = true ∨
        ∀ k < TRANSACTION_MAX_ATTEMPTS, alreadyListed ((env.io k).query 1) ((env.io k).query 2) p s.db.auctions = true
  | _ => True

/-! ## What one step changes -/

inductive Change : Ev → Tables → Tables → Prop
  | none (e : Ev) (db : Tables) : Change e db db
  | created {c : Config} {p : Player} {l : Listing} {env : Env} {k : Nat} {db db' : Tables} :
      alreadyListed env.answered.player env.answered.account p db.auctions = false →
      k < TRANSACTION_MAX_ATTEMPTS →
      alreadyListed ((env.io k).query 1) ((env.io k).query 2) p db.auctions = false →
      Created c p l (env.fresh k) db db' → Change (.createAuction c p l env) db db'
  | expired {i now : Nat} {io : Nat → Attempt} {clock : Nat → Nat} {id : UInt32} {row row' : Auction} {db db' : Tables} :
      Expired id row row' db db' → Change (.finalizeAuction i now io clock) db db'
  | sold {i now : Nat} {io : Nat → Attempt} {clock : Nat → Nat} {id : UInt32} {row row' : Auction} {db db' : Tables} :
      Sold id row row' db db' → Change (.finalizeAuction i now io clock) db db'
  | bid {id bidder amount : UInt32} {accounts : Coins.Accounts} {row : Auction} {db : Tables} :
      db.auctions.find? id = some row → row.status = .ACTIVE →
      Change (.bid id bidder amount accounts) db
        { db with accounts := accounts, auctions := db.auctions.set id (row.placeBid bidder amount) }
  | noBid {id bidder amount : UInt32} {accounts : Coins.Accounts} {db : Tables} :
      Change (.bid id bidder amount accounts) db { db with accounts := accounts }

section
variable {s : State} {e : Ev} {db db' : Tables} {id : UInt32} {row row' : Auction}

theorem closeAuction_cases (id : UInt32) (f : Auction → Auction) (db : Tables) :
    closeAuction id f db.auctions = db.auctions ∨
      ∃ row, db.auctions.find? id = some row ∧ row.status = .ACTIVE ∧
        closeAuction id f db.auctions = db.auctions.set id (f row) := by
  have hp : ∀ k (r : Auction), k = id ∧ r.status = .ACTIVE → k = id := fun _ _ h => h.1
  rcases Table.update_cases hp f db.auctions with ⟨-, ht⟩ | ⟨r, hr, hpr, -, -, ht⟩
  · exact .inl ht
  · exact .inr ⟨r, hr, hpr.2, ht⟩

theorem step_change (hu : e.Undone) (s : State) : Change e s.db (step s e).db := by
  cases e with
  | createAuction c p l env =>
    rcases createAuction_cases hu c p l s.db with ⟨-, hs⟩ | ⟨-, hpre, k, hk, hin, hc⟩
    · show Change _ s.db (createAuction c p l env s.db).2.2
      rw [hs]
      exact .none _ _
    · exact .created hpre hk hin hc
  | finalizeExpiredAuctions c answered now => exact .none _ _
  | finalizeAuction i now io clock =>
    simp only [step]
    split
    · next id rest hr =>
      rcases finalizeAuction_cases hu id now clock s.db with hs | ⟨-, row, row', he | hd⟩
      · rw [hs]
        exact .none _ _
      · exact .expired he
      · exact .sold hd
    · exact .none _ _
  | bid id bidder amount accounts =>
    show Change _ s.db { s.db with accounts := accounts, auctions := closeAuction id _ s.db.auctions }
    rcases closeAuction_cases id (Auction.placeBid bidder amount) s.db with hs | ⟨row, hf, ha, hs⟩
    · rw [hs]
      exact .noBid
    · rw [hs]
      exact .bid hf ha

theorem failed_step (hu : e.Undone) (h : failed s e = true) : (step s e).db = s.db := by
  cases e with
  | createAuction c p l env =>
    rcases createAuction_cases hu c p l s.db with ⟨-, hs⟩ | ⟨ht, -⟩
    · exact hs
    · simp [failed, ht] at h
  | finalizeExpiredAuctions c answered now => cases h
  | finalizeAuction i now io clock =>
    simp only [failed] at h
    simp only [step]
    split at h
    · next id rest hr =>
      rcases finalizeAuction_cases hu id now clock s.db with hs | ⟨ht, -⟩
      · exact hs
      · simp [ht] at h
    · cases h
  | bid id bidder amount accounts => cases h

/-! ## Statuses -/

def status (db : Tables) (id : UInt32) : Option AuctionStatus := (db.auctions.find? id).map (·.status)

/-- The auction goes from ACTIVE to FINISHED; `row` is what it was. -/
def Finishes (db db' : Tables) (id : UInt32) (row : Auction) : Prop :=
  db.auctions.find? id = some row ∧ row.status = .ACTIVE ∧ status db' id = some .FINISHED

theorem status_some (h : db.auctions.find? id = some row) : status db id = some row.status := by
  simp [status, h]

theorem Closed.status {k : UInt32} (h : Closed id row row' db db') :
    status db' k = if k = id then some row'.status else status db k := by
  unfold Bazaar.status
  rw [h.auctions, Table.find?_set h.found]
  by_cases e : k = id <;> simp [e]

theorem bid_closed (hf : db.auctions.find? id = some row) (ha : row.status = .ACTIVE) (bidder amount : UInt32)
    (accounts : Coins.Accounts) :
    Closed id row (row.placeBid bidder amount) db
      { db with accounts := accounts, auctions := db.auctions.set id (row.placeBid bidder amount) } :=
  ⟨hf, ha, rfl, rfl, rfl⟩

theorem status_change (h : Change e db db') {st : AuctionStatus} (hs : status db id = some st) :
    ∃ st', status db' id = some st' ∧ (st ≠ .ACTIVE → st' = st) := by
  have closed {row row' : Auction} {k : UInt32} (hc : Closed k row row' db db') :
      ∃ st', status db' id = some st' ∧ (st ≠ .ACTIVE → st' = st) := by
    rw [hc.status]
    by_cases e : id = k
    · subst e
      have : st = .ACTIVE := by
        rw [status_some hc.found, hc.active] at hs
        exact (Option.some.inj hs).symm
      exact ⟨row'.status, if_pos rfl, fun hne => absurd this hne⟩
    · exact ⟨st, by rw [if_neg e, hs], fun _ => rfl⟩
  cases h with
  | none => exact ⟨st, hs, fun _ => rfl⟩
  | created _ _ _ hc =>
    grind [status, hc.auctions, hc.fresh]
  | expired he => exact closed he.toClosed
  | sold hd => exact closed hd.toClosed
  | @bid k bidder amount accounts row _ hf ha => exact closed (bid_closed hf ha bidder amount accounts)
  | noBid => exact ⟨st, hs, fun _ => rfl⟩

end

/-- The step takes the auction out of ACTIVE. -/
def leaves (id : UInt32) (s : State) (e : Ev) : Bool :=
  status s.db id == some .ACTIVE && status (step s e).db id != some .ACTIVE

/-- How often the auction leaves ACTIVE along a run. -/
def departures (id : UInt32) : State → List Ev → Nat
  | _, [] => 0
  | s, e :: es => (if leaves id s e then 1 else 0) + departures id (step s e) es

variable {es : List Ev} {s : State}

theorem departures_of_closed {id : UInt32} {st : AuctionStatus} (hst : st ≠ .ACTIVE) (hu : ∀ e ∈ es, e.Undone)
    (h : status s.db id = some st) : departures id s es = 0 := by
  induction es generalizing s with
  | nil => rfl
  | cons e es ih =>
    obtain ⟨st', h', hk⟩ := status_change (step_change (hu e mem_cons_self) s) h
    rw [hk hst] at h'
    have hl : leaves id s e = false := by
      unfold leaves
      rw [h]
      cases st with
      | ACTIVE => exact absurd rfl hst
      | FINISHED => rfl
      | CANCELLED => rfl
    unfold departures
    rw [hl, ih (fun x hx => hu x (mem_cons_of_mem _ hx)) h']
    rfl

theorem departures_le_one (id : UInt32) (hu : ∀ e ∈ es, e.Undone) (s : State) : departures id s es ≤ 1 := by
  induction es generalizing s with
  | nil => exact Nat.zero_le 1
  | cons e es ih =>
    have hu' : ∀ x ∈ es, x.Undone := fun x hx => hu x (mem_cons_of_mem _ hx)
    unfold departures
    cases hl : leaves id s e with
    | false =>
      have := ih hu' (step s e)
      simpa using this
    | true =>
      obtain ⟨hs, hn⟩ : status s.db id = some .ACTIVE ∧ status (step s e).db id ≠ some .ACTIVE := by
        simpa [leaves] using hl
      obtain ⟨st', h', -⟩ := status_change (step_change (hu e mem_cons_self) s) hs
      have hne : st' ≠ .ACTIVE := by
        rintro rfl
        exact hn h'
      rw [departures_of_closed hne hu' h']
      simp

/-! ## Owners and payments -/

section
variable {e : Ev} {db db' : Tables} {id : UInt32} {row row' : Auction}

theorem Change.sold_or (h : Change e db db') :
    (∃ id row row', Sold id row row' db db' ∧ ∀ k r, Finishes db db' k r ↔ k = id ∧ r = row) ∨
      (db'.players = db.players ∧ ∀ k r, ¬ Finishes db db' k r) := by
  have keeps (hk : ∀ k r, db.auctions.find? k = some r → r.status = .ACTIVE → status db' k ≠ some .FINISHED) :
      ∀ k r, ¬ Finishes db db' k r := fun k r hf => hk k r hf.1 hf.2.1 hf.2.2
  have same {k : UInt32} {r : Auction} (hf : db.auctions.find? k = some r) (ha : r.status = .ACTIVE)
      (hs : status db' k = status db k) : status db' k ≠ some .FINISHED := by
    rw [hs, status_some hf, ha]
    exact fun e => by cases e
  have closed {k : UInt32} {row row' : Auction} (hc : Closed k row row' db db') (hne : row'.status ≠ .FINISHED) :
      ∀ j r, ¬ Finishes db db' j r := by
    grind [hc.status]
  cases h with
  | none => exact .inr ⟨rfl, keeps fun k r hf ha => same hf ha rfl⟩
  | created _ _ _ hc =>
    refine .inr ⟨hc.players, keeps fun k r hf ha => same hf ha ?_⟩
    unfold status
    rw [hc.auctions]
    split
    · next e =>
      rw [e, hc.fresh] at hf
      cases hf
    · rfl
  | expired he => exact .inr ⟨he.players, closed he.toClosed (by rw [he.cancelled]; exact fun e => by cases e)⟩
  | @sold i now io clock id row row' _ _ hd =>
    refine .inl ⟨id, row, row', hd, fun k r => ⟨?_, ?_⟩⟩
    · rintro ⟨hf, ha, hs⟩
      by_cases e : k = id
      · subst e
        exact ⟨rfl, Option.some.inj (hf.symm.trans hd.found)⟩
      · exact absurd hs (same hf ha (by rw [hd.toClosed.status, if_neg e]))
    · rintro ⟨rfl, rfl⟩
      exact ⟨hd.found, hd.active, by rw [hd.toClosed.status, if_pos rfl, hd.finished]⟩
  | @bid k bidder amount accounts row _ hf ha =>
    exact .inr ⟨rfl, closed (bid_closed hf ha bidder amount accounts) (by
      rw [show (row.placeBid bidder amount).status = .ACTIVE from ha]
      exact fun e => by cases e)⟩
  | noBid => exact .inr ⟨rfl, keeps fun k r hf ha => same hf ha rfl⟩

theorem owner_changes_iff (h : Change e db db') (playerId : UInt32) :
    db'.players.find? playerId ≠ db.players.find? playerId ↔
      ∃ id row, Finishes db db' id row ∧ row.player_id = playerId := by
  rcases h.sold_or with ⟨id, row, row', hd, hfin⟩ | ⟨hp, hno⟩
  · rw [hd.players, Table.find?_set hd.owned]
    by_cases e : playerId = row.player_id
    · rw [if_pos e, e, hd.owned]
      refine ⟨fun _ => ⟨id, row, (hfin id row).mpr ⟨rfl, rfl⟩, rfl⟩, fun _ he => hd.moved ?_⟩
      exact congrArg Owner.account_id (Option.some.inj he)
    · rw [if_neg e]
      refine ⟨fun hne => absurd rfl hne, ?_⟩
      rintro ⟨k, r, hf, hr⟩
      rw [((hfin k r).mp hf).2] at hr
      exact absurd hr.symm e
  · rw [hp]
    refine ⟨fun hne => absurd rfl hne, ?_⟩
    rintro ⟨k, r, hf, -⟩
    exact absurd hf (hno k r)

theorem min_hundred {n : UInt32} (h : n ≤ 100) : min 100 n = n := by
  show (if (100 : UInt32) ≤ n then 100 else n) = n
  split
  · next hle => exact UInt32.le_antisymm hle h
  · rfl

theorem sellerPayout_add (h : row.commission_percent ≤ 100) :
    (sellerPayout row).toNat + row.current_bid.toNat * row.commission_percent.toNat / 100 =
      row.current_bid.toNat := by
  have hbid := row.current_bid.toNat_lt
  have hpercent : row.commission_percent.toNat ≤ 100 := UInt32.le_iff_toNat_le.mp h
  have hmul : row.current_bid.toNat * row.commission_percent.toNat ≤ row.current_bid.toNat * 100 :=
    Nat.mul_le_mul_left _ hpercent
  have hcom : (commission row.current_bid.toUInt64 (min 100 row.commission_percent).toUInt64).toNat =
      row.current_bid.toNat * row.commission_percent.toNat / 100 := by
    rw [min_hundred h, commission, UInt64.toNat_div, UInt64.toNat_mul, UInt32.toNat_toUInt64, UInt32.toNat_toUInt64,
      Nat.mod_eq_of_lt (by omega)]
    rfl
  have hle : commission row.current_bid.toUInt64 (min 100 row.commission_percent).toUInt64 ≤
      row.current_bid.toUInt64 := by
    rw [UInt64.le_iff_toNat_le, hcom, UInt32.toNat_toUInt64]
    omega
  rw [sellerPayout, UInt64.toNat_sub_of_le _ _ hle, hcom, UInt32.toNat_toUInt64]
  omega

def Paid (accounts accounts' : Coins.Accounts) (seller : UInt32) (payout : Nat) : Prop :=
  ∀ k, accounts'.find? k =
    if k = seller then (accounts.find? k).map fun a => ⟨a.tibia_coins + payout⟩ else accounts.find? k

def Ev.settles : Ev → Bool
  | .finalizeExpiredAuctions .. => true
  | .finalizeAuction .. => true
  | _ => false

theorem paid_of_finishes (h : Change e db db') (hf : Finishes db db' id row) :
    Paid db.accounts db'.accounts row.seller_account_id (sellerPayout row).toNat := by
  rcases h.sold_or with ⟨k, r, r', hd, hfin⟩ | ⟨-, hno⟩
  · obtain ⟨rfl, rfl⟩ := (hfin id row).mp hf
    exact hd.accounts
  · exact absurd hf (hno id row)

theorem unpaid (h : Change e db db') (hs : e.settles = true) (hno : ∀ id row, ¬ Finishes db db' id row) :
    db'.accounts = db.accounts := by
  cases h with
  | none => rfl
  | created => cases hs
  | expired he => exact he.accounts
  | sold hd =>
    exact absurd ⟨hd.found, hd.active, by rw [hd.toClosed.status, if_pos rfl, hd.finished]⟩ (hno _ _)
  | bid => cases hs
  | noBid => cases hs

/-! ## One ACTIVE auction an account -/

def OneActive (db : Tables) : Prop :=
  ∀ id id' row row', db.auctions.find? id = some row → db.auctions.find? id' = some row' → row.status = .ACTIVE →
    row'.status = .ACTIVE → row.seller_account_id = row'.seller_account_id → id = id'

/-- The percentage column holds what `getCommissionPercent` gives. -/
def Percents (db : Tables) : Prop := ∀ id row, db.auctions.find? id = some row → row.commission_percent ≤ 100

theorem hasActive_iff {accountId : UInt32} {auctions : Table UInt32 Auction} :
    hasActiveAuctionForAccount true accountId auctions = true ↔
      ∃ id row, auctions.find? id = some row ∧ row.seller_account_id = accountId ∧ row.status = .ACTIVE := by
  unfold hasActiveAuctionForAccount
  rw [Bool.true_and, any_eq_true]
  constructor
  · rintro ⟨r, hr, hp⟩
    exact ⟨r.1, r.2, Table.find?_iff.mpr hr, by simpa using hp⟩
  · rintro ⟨id, row, hf, hp⟩
    exact ⟨(id, row), Table.find?_iff.mp hf, by simpa using hp⟩

theorem oneActive_created {c : Config} {p : Player} {l : Listing} (hc : Created c p l id db db') (h : OneActive db) :
    OneActive db' ↔ hasActiveAuctionForAccount true p.account db.auctions = false := by
  rw [← Bool.not_eq_true, hasActive_iff]
  have hnew : db'.auctions.find? id = some (newAuction c p l) := by rw [hc.auctions, if_pos rfl]
  have hold {k : UInt32} {r : Auction} (hf : db.auctions.find? k = some r) :
      k ≠ id ∧ db'.auctions.find? k = some r := by
    have hne : k ≠ id := by
      grind [hc.fresh]
    exact ⟨hne, by rw [hc.auctions, if_neg hne, hf]⟩
  constructor
  · rintro h' ⟨k, r, hf, hseller, hactive⟩
    obtain ⟨hne, hf'⟩ := hold hf
    exact hne (h' k id r _ hf' hnew hactive rfl hseller)
  intro hno k k' r r' hf hf' ha ha' hs
  rw [hc.auctions] at hf hf'
  split at hf
  · next e =>
    split at hf'
    · next e' => exact e.trans e'.symm
    · cases hf
      exact absurd ⟨k', r', hf', hs.symm, ha'⟩ hno
  · split at hf'
    · cases hf'
      exact absurd ⟨k, r, hf, hs, ha⟩ hno
    · exact h k k' r r' hf hf' ha ha' hs

theorem Closed.oneActive (hc : Closed id row row' db db') (h : OneActive db) : OneActive db' := by
  have back {k : UInt32} {r : Auction} (hf : db'.auctions.find? k = some r) (ha : r.status = .ACTIVE) :
      ∃ q, db.auctions.find? k = some q ∧ q.status = .ACTIVE ∧ q.seller_account_id = r.seller_account_id := by
    rw [hc.auctions, Table.find?_set hc.found] at hf
    split at hf
    · next e =>
      cases hf
      exact ⟨row, by rw [e, hc.found], hc.active, hc.seller.symm⟩
    · exact ⟨r, hf, ha, rfl⟩
  intro k k' r r' hf hf' ha ha' hs
  obtain ⟨q, hq, hqa, hqs⟩ := back hf ha
  obtain ⟨q', hq', hqa', hqs'⟩ := back hf' ha'
  exact h k k' q q' hq hq' hqa hqa' (hqs.trans (hs.trans hqs'.symm))

theorem Closed.percents (hc : Closed id row row' db db') (h : Percents db) : Percents db' := by
  intro k r hf
  rw [hc.auctions, Table.find?_set hc.found] at hf
  split at hf
  · cases hf
    rw [hc.percent]
    exact h id row hc.found
  · exact h k r hf

theorem getCommissionPercent_le (c : Config) : c.getCommissionPercent ≤ 100 := by
  show (if (100 : UInt32) ≤ asUnsignedConfig c.commissionPercent 10 100 then 100 else _) ≤ (100 : UInt32)
  grind

theorem percents_change (h : Change e db db') (hp : Percents db) : Percents db' := by
  cases h with
  | none => exact hp
  | @created c p l env k _ _ _ _ _ hc =>
    intro k r hf
    rw [hc.auctions] at hf
    split at hf
    · cases hf
      exact getCommissionPercent_le c
    · exact hp k r hf
  | expired he => exact he.toClosed.percents hp
  | sold hd => exact hd.toClosed.percents hp
  | @bid k bidder amount accounts row _ hf ha => exact (bid_closed hf ha bidder amount accounts).percents hp
  | noBid => exact hp

end

theorem oneActive_step {e : Ev} (hu : e.Undone) (hc : Checked s e) (h : OneActive s.db) :
    OneActive (step s e).db := by
  have hch := step_change hu s
  generalize (step s e).db = db' at hch ⊢
  cases hch with
  | none => exact h
  | created hpre hk hin hcr =>
    refine (oneActive_created hcr h).mpr ?_
    rw [← Bool.not_eq_true]
    intro hactive
    rcases hc hactive with hseen | hseen
    · rw [hpre] at hseen
      cases hseen
    · rw [hseen _ hk] at hin
      cases hin
  | expired he => exact he.toClosed.oneActive h
  | sold hd => exact hd.toClosed.oneActive h
  | @bid k bidder amount accounts row _ hf ha => exact (bid_closed hf ha bidder amount accounts).oneActive h
  | noBid => exact h

/-! ## Every sequence -/

/-- What one step of a sequence owes: characters move exactly as their auctions finish, each
    seller is then paid the bid less the commission and no one is otherwise, and a step that
    fails changes nothing. -/
structure StepSound (s : State) (e : Ev) : Prop where
  owner : ∀ playerId, (step s e).db.players.find? playerId ≠ s.db.players.find? playerId ↔
    ∃ id row, Finishes s.db (step s e).db id row ∧ row.player_id = playerId
  paid : ∀ id row, Finishes s.db (step s e).db id row → ∃ payout : Nat,
    Paid s.db.accounts (step s e).db.accounts row.seller_account_id payout ∧
      payout + row.current_bid.toNat * row.commission_percent.toNat / 100 = row.current_bid.toNat
  unpaid : e.settles = true → (∀ id row, ¬ Finishes s.db (step s e).db id row) → (step s e).db.accounts = s.db.accounts
  failed : failed s e = true → (step s e).db = s.db

theorem stepSound {e : Ev} (hu : e.Undone) (hp : Percents s.db) : StepSound s e := by
  have hch := step_change hu s
  refine ⟨owner_changes_iff hch, ?_, unpaid hch, failed_step hu⟩
  intro id row hf
  exact ⟨_, paid_of_finishes hch hf, sellerPayout_add (hp id row hf.1)⟩

theorem percents_run (hu : ∀ e ∈ es, e.Undone) (hp : Percents s.db) : Percents (run step s es).db := by
  induction es generalizing s with
  | nil => exact hp
  | cons e es ih =>
    exact ih (fun x hx => hu x (mem_cons_of_mem _ hx))
      (percents_change (step_change (hu e mem_cons_self) s) hp)

theorem oneActive_run (hu : ∀ e ∈ es, e.Undone) (hc : Allowed step Checked s es) (h : OneActive s.db) :
    OneActive (run step s es).db := by
  induction es generalizing s with
  | nil => exact h
  | cons e es ih =>
    exact ih (fun x hx => hu x (mem_cons_of_mem _ hx)) hc.2 (oneActive_step (hu e mem_cons_self) hc.1 h)

/-- In every sequence in which failed transactions are undone: an auction leaves ACTIVE at
    most once and each step is sound. Where moreover no listing misses the ACTIVE auction of
    its account, no account ever has two. -/
theorem auctions_sound (s : State) (h1 : OneActive s.db) (hp : Percents s.db) (es : List Ev)
    (hu : ∀ e ∈ es, e.Undone) :
    (∀ id, departures id s es ≤ 1) ∧
      (∀ before e after, es = before ++ e :: after → StepSound (run step s before) e) ∧
      (Allowed step Checked s es → ∀ before after, es = before ++ after → OneActive (run step s before).db) := by
  refine ⟨fun id => departures_le_one id hu s, ?_, ?_⟩
  · rintro before e after rfl
    have hb : ∀ x ∈ before, x.Undone := fun x hx => hu x (mem_append_left _ hx)
    exact stepSound (hu e (by simp)) (percents_run hb hp)
  · rintro hc before after rfl
    exact oneActive_run (fun x hx => hu x (mem_append_left _ hx)) (allowed_append.mp hc).1 h1

/-! ## A listing whose checks go unanswered -/

def plainConfig : Config := ⟨true, 50, 100, 50, 10, 24, 7, true⟩

def knight (guid : UInt32) : Player :=
  ⟨true, false, 1, 80, true, false, false, guid, 5, "Knight", 4, ⟨131, 0, 78, 69, 58, 76⟩⟩

def dayListing : Listing := ⟨300, 86400, [], 1000⟩

/-- Everything is answered and the row gets the id given. -/
def answeredEnv (id : UInt32) : Env :=
  ⟨⟨true, true, true, true, true, true⟩, ⟨false, false, false⟩, fun _ => Attempt.good, fun _ => id, fun _ => 1000⟩

/-- The two statements that ask for an ACTIVE auction of the account are not answered. -/
def blindEnv (id : UInt32) : Env :=
  { answeredEnv id with
    answered := ⟨true, false, true, true, true, true⟩
    io := fun _ => { Attempt.good with query := fun i => i != 2 } }

/-- Account 5 with two characters, and account 6 that bids. -/
def twoKnights : State :=
  ⟨⟨⟨[(5, ⟨1000⟩), (6, ⟨900⟩)], by decide⟩, ⟨[(1, ⟨5⟩), (2, ⟨5⟩)], by decide⟩, ⟨[], by decide⟩, []⟩, []⟩

/-- A listing, a second one that is refused, a bid and the settlement. -/
def soldKnight : List Ev :=
  [.createAuction plainConfig (knight 1) dayListing (answeredEnv 1),
    .createAuction plainConfig (knight 2) dayListing (answeredEnv 2),
    .bid 1 6 333 ⟨[(5, ⟨950⟩), (6, ⟨567⟩)], by decide⟩,
    .finalizeExpiredAuctions plainConfig true 90000,
    .finalizeAuction 0 90000 (fun _ => Attempt.good) (fun _ => 90000)]

theorem oneActive_twoKnights : OneActive twoKnights.db := by
  intro id id' row row' hf
  cases hf

theorem percents_twoKnights : Percents twoKnights.db := by
  intro id row hf
  cases hf

theorem undone_good : Undone fun _ => Attempt.good := fun _ => Outcome.noConfusion

theorem auctions_sound_soldKnight :
    departures 1 twoKnights soldKnight ≤ 1 ∧
      StepSound (run step twoKnights (soldKnight.take 4)) (soldKnight.getLast (by decide)) ∧
      OneActive (run step twoKnights soldKnight).db ∧
      status (run step twoKnights soldKnight).db 1 = some .FINISHED ∧
      (run step twoKnights soldKnight).db.accounts.find? 5 = some ⟨1250⟩ := by
  have hu : ∀ e ∈ soldKnight, e.Undone := by
    intro e he
    simp only [soldKnight, mem_cons, not_mem_nil, or_false] at he
    rcases he with rfl | rfl | rfl | rfl | rfl
    · exact undone_good
    · exact undone_good
    · trivial
    · trivial
    · exact undone_good
  obtain ⟨h1, h2, h3⟩ := auctions_sound twoKnights oneActive_twoKnights percents_twoKnights soldKnight hu
  refine ⟨h1 1, h2 (soldKnight.take 4) _ [] rfl, h3 ?_ soldKnight [] rfl, by decide, by decide⟩
  refine ⟨?_, ?_, trivial, trivial, trivial, trivial⟩
  · intro h
    exact absurd h (by decide)
  · intro _
    exact .inl (by decide)

/-- The first character is listed; of the second listing both checks go unanswered. -/
def blindListing : List Ev :=
  [.createAuction plainConfig (knight 1) dayListing (answeredEnv 1),
    .createAuction plainConfig (knight 2) dayListing (blindEnv 2)]

theorem second_auction_listed :
    ¬ ∀ (s : State) (es : List Ev), OneActive s.db → Percents s.db → (∀ e ∈ es, e.Undone) →
      OneActive (run step s es).db := by
  intro h
  have hu : ∀ e ∈ blindListing, e.Undone := by
    intro e he
    simp only [blindListing, mem_cons, not_mem_nil, or_false] at he
    rcases he with rfl | rfl
    · exact undone_good
    · exact fun _ => Outcome.noConfusion
  have htwo := h twoKnights blindListing oneActive_twoKnights percents_twoKnights hu 1 2
    (newAuction plainConfig (knight 1) dayListing) (newAuction plainConfig (knight 2) dayListing)
    (by decide) (by decide) rfl rfl rfl
  exact absurd htwo (by decide)

end Backlands.Bazaar
