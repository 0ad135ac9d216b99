/-
  Backlands.Market.Offers — claiming an offer and giving the claim back (src/market.cpp:
  `claimOffer`, `restoreOffer`).

  `market_offers` is a map from its primary key. A buyer reads the row (`read`), claims
  against the amount it read (`claim`, one compare-and-swap statement) and may give a
  successful claim back with the record it read (`restore`). Any number of buyers do so in
  any order; every statement is atomic.

  Proved: along every run the row's amount and the open claims add up to the initial
  amount, at most one open claim took all that was left, and the row is gone exactly while
  there is one (`Inv`, `inv_step`). A claim of a part is given back by an `UPDATE`, so it
  can be given back exactly while the row is there (`restoreOffer_iff`); a claim of the
  rest can always be.
-/

import Mathlib.Algebra.BigOperators.Group.List.Basic
import Backlands.Lib.Runs
import Backlands.Lib.Tally

namespace Backlands.Market

open Backlands.Lib Function List Option

/-! ## The statements -/

def MAX_ITEM_TIER : Nat := 10

structure MarketOfferRecord where
  id : Nat
  playerId : Nat
  sale : Nat
  itemId : Nat
  amount : Nat
  created : Nat
  anonymous : Bool
  price : Nat
  tier : Nat
  attributes : List UInt8
  deriving DecidableEq

/-- `market_offers`, by its primary key. -/
abbrev Offers := Nat → Option MarketOfferRecord

def normalizeTier (tier : Nat) : Nat := min tier MAX_ITEM_TIER

/-- The row that `WHERE id = … AND amount = …` and the owner's guard select. -/
def guarded (offers : Offers) (offerId expectedAmount ownerId : Nat) : Option MarketOfferRecord :=
  (offers offerId).filter fun r => r.amount == expectedAmount && (ownerId == 0 || r.playerId == ownerId)

/-- `claimOffer`: whether exactly one row was affected, and the table. -/
def claimOffer (offers : Offers) (offerId expectedAmount acceptedAmount ownerId : Nat) : Bool × Offers :=
  if offerId = 0 ∨ expectedAmount = 0 ∨ acceptedAmount = 0 ∨ expectedAmount < acceptedAmount then (false, offers)
  else
    match guarded offers offerId expectedAmount ownerId with
    | none => (false, offers)
    | some r =>
      if acceptedAmount = expectedAmount then (true, update offers offerId none)
      else (true, update offers offerId (some { r with amount := r.amount - acceptedAmount }))

/-- The checks `restoreOffer` makes before it writes. -/
def restorable (offer : MarketOfferRecord) (acceptedAmount : Nat) : Bool :=
  offer.id != 0 && offer.playerId != 0 && offer.itemId != 0 && offer.amount != 0 && acceptedAmount != 0 &&
    decide (acceptedAmount ≤ offer.amount) && decide (offer.sale ≤ 1) && (offer.attributes.isEmpty || offer.amount == 1)

/-- `restoreOffer`: an `INSERT` fails on a row that is there, an `UPDATE` affects none when
    there is none. -/
def restoreOffer (offers : Offers) (offer : MarketOfferRecord) (acceptedAmount : Nat) : Bool × Offers :=
  if !restorable offer acceptedAmount then (false, offers)
  else if acceptedAmount = offer.amount then
    match offers offer.id with
    | some _ => (false, offers)
    | none => (true, update offers offer.id (some { offer with tier := normalizeTier offer.tier }))
  else
    match offers offer.id with
    | none => (false, offers)
    | some r => (true, update offers offer.id (some { r with amount := r.amount + acceptedAmount }))

/-! ## Buyers -/

structure State where
  offers : Offers
  /-- What the buyers have read, in the order of the reads. -/
  seen : List MarketOfferRecord
  /-- The successful claims not given back, each with the record its buyer read. -/
  claims : List (MarketOfferRecord × Nat)
  /-- The claims whose `restoreOffer` failed. -/
  refused : List (MarketOfferRecord × Nat)

inductive Ev where
  | read
  | claim (i acceptedAmount ownerId : Nat)
  | restore (j : Nat)
  deriving DecidableEq

/-- What the row holds; nothing when it is not there. -/
def remaining (offers : Offers) (id : Nat) : Nat := ((offers id).map (·.amount)).getD 0

def outstanding (claims : List (MarketOfferRecord × Nat)) : Nat := (claims.map (·.2)).sum

/-- One buyer's step on the offer `id`. -/
def step (id : Nat) (s : State) : Ev → State
  | .read => { s with seen := s.seen ++ (s.offers id).toList }
  | .claim i accepted ownerId =>
    match s.seen[i]? with
    | none => s
    | some r =>
      let c := claimOffer s.offers r.id r.amount accepted ownerId
      if c.1 then { s with offers := c.2, claims := s.claims ++ [(r, accepted)] } else s
  | .restore j =>
    match s.claims[j]? with
    | none => s
    | some (r, accepted) =>
      let c := restoreOffer s.offers r accepted
      if c.1 then { s with offers := c.2, claims := s.claims.eraseIdx j }
      else { s with refused := s.refused ++ [(r, accepted)] }

/-- A row as `createOffer` and the readers leave it. -/
structure Listed (offer : MarketOfferRecord) : Prop where
  id : offer.id ≠ 0
  playerId : offer.playerId ≠ 0
  itemId : offer.itemId ≠ 0
  amount : offer.amount ≠ 0
  sale : offer.sale ≤ 1
  attributes : offer.attributes ≠ [] → offer.amount = 1
  tier : offer.tier ≤ MAX_ITEM_TIER

def Starts (offer : MarketOfferRecord) (s : State) : Prop :=
  Listed offer ∧ s.offers offer.id = some offer ∧ s.seen = [] ∧ s.claims = [] ∧ s.refused = []

/-! ## What every run keeps -/

/-- The claim took all that its buyer saw: it deleted the row. -/
def whole (c : MarketOfferRecord × Nat) : Bool := c.2 == c.1.amount

def Of (offer r : MarketOfferRecord) : Prop :=
  r = { offer with amount := r.amount } ∧ 0 < r.amount ∧ r.amount ≤ offer.amount

structure Inv (offer : MarketOfferRecord) (s : State) : Prop where
  listed : Listed offer
  row : ∀ r, s.offers offer.id = some r → Of offer r
  seen : ∀ r ∈ s.seen, Of offer r
  claims : ∀ c ∈ s.claims, Of offer c.1 ∧ 0 < c.2 ∧ c.2 ≤ c.1.amount
  total : remaining s.offers offer.id + outstanding s.claims = offer.amount
  wholes : s.claims.countP whole = unit (s.offers offer.id).isNone

section
variable {offer : MarketOfferRecord} {s : State}

variable {r : MarketOfferRecord} {offers : Offers} {c : MarketOfferRecord × Nat}

theorem Of.id (h : Of offer r) : r.id = offer.id := by rw [h.1]

theorem Of.restorable {a : Nat} (h : Of offer r) (hl : Listed offer) (h0 : 0 < a) (ha : a ≤ r.amount) :
    restorable r a = true := by
  obtain ⟨he, hp, hle⟩ := h
  have hattr : r.attributes.isEmpty = true ∨ r.amount = 1 := by
    by_cases hn : offer.attributes = []
    · left
      rw [he]
      simp [hn]
    · right
      have := hl.attributes hn
      omega
  have hid : r.id ≠ 0 := by rw [he]; exact hl.id
  have hplayer : r.playerId ≠ 0 := by rw [he]; exact hl.playerId
  have hitem : r.itemId ≠ 0 := by rw [he]; exact hl.itemId
  have hsale : r.sale ≤ 1 := by rw [he]; exact hl.sale
  simp only [Market.restorable, Bool.and_eq_true, bne_iff_ne, decide_eq_true_eq, Bool.or_eq_true, beq_iff_eq]
  exact ⟨⟨⟨⟨⟨⟨⟨hid, hplayer⟩, hitem⟩, by omega⟩, by omega⟩, ha⟩, hsale⟩, hattr⟩

theorem remaining_some {id : Nat} (h : offers id = some r) : remaining offers id = r.amount := by
  simp [remaining, h]

theorem remaining_none {id : Nat} (h : offers id = none) : remaining offers id = 0 := by
  simp [remaining, h]

theorem outstanding_snoc (l : List (MarketOfferRecord × Nat)) (c : MarketOfferRecord × Nat) :
    outstanding (l ++ [c]) = outstanding l + c.2 := by
  simp [outstanding]

theorem outstanding_eraseIdx {l : List (MarketOfferRecord × Nat)} {j : Nat} (h : l[j]? = some c) :
    outstanding (l.eraseIdx j) + c.2 = outstanding l := by
  have hperm := (List.getElem?_eq_some_iff.mp h).2 ▸
    getElem_cons_eraseIdx_perm (List.getElem?_eq_some_iff.mp h).1
  have hsum := (hperm.map (·.2)).sum_eq
  simp only [map_cons, sum_cons] at hsum
  simp only [outstanding]
  omega

theorem claimOffer_cases {id expected accepted ownerId : Nat}
    (h : (claimOffer offers id expected accepted ownerId).1 = true) :
    ∃ r, offers id = some r ∧ r.amount = expected ∧ 0 < accepted ∧ accepted ≤ expected ∧
      (claimOffer offers id expected accepted ownerId).2 =
        update offers id
          (if accepted = expected then none else some { r with amount := r.amount - accepted }) := by
  unfold claimOffer at h ⊢
  split at h
  · cases h
  rename_i hargs
  split at h
  · cases h
  · rename_i r hr
    obtain ⟨hrow, hguard⟩ := filter_eq_some_iff.mp hr
    grind

/-- When a restore succeeds: a whole claim needs the row gone, a part needs it there. -/
theorem restoreOffer_fst (offers : Offers) (r : MarketOfferRecord) (a : Nat) (hr : restorable r a = true) :
    (restoreOffer offers r a).1 = if a = r.amount then (offers r.id).isNone else (offers r.id).isSome := by
  unfold restoreOffer
  grind

theorem Inv.row_none_of_whole (hi : Inv offer s) (hc : c ∈ s.claims) (hw : c.2 = c.1.amount) :
    s.offers offer.id = none := by
  have hpos : 0 < s.claims.countP whole := by
    rw [countP_pos_iff]
    exact ⟨c, hc, by simp [whole, hw]⟩
  rw [hi.wholes] at hpos
  cases h : s.offers offer.id with
  | none => rfl
  | some r => simp [h, unit] at hpos

/-- An open claim can be given back exactly when it was a whole one or the row is there. -/
theorem restoreOffer_iff (hi : Inv offer s) (hc : c ∈ s.claims) :
    (restoreOffer s.offers c.1 c.2).1 = true ↔ c.2 = c.1.amount ∨ s.offers offer.id ≠ none := by
  obtain ⟨hof, h0, hle⟩ := hi.claims c hc
  rw [restoreOffer_fst _ _ _ (hof.restorable hi.listed h0 hle), hof.id]
  by_cases hw : c.2 = c.1.amount
  · have hnone := hi.row_none_of_whole hc hw
    simp [hw, hnone]
  · simp [hw, isSome_iff_ne_none]

/-! ## One step -/

theorem inv_read (hi : Inv offer s) : Inv offer (step offer.id s .read) := by
  refine { hi with seen := ?_ }
  intro r hr
  rcases mem_append.mp hr with hr | hr
  · exact hi.seen r hr
  · exact hi.row r (by simpa using hr)

theorem inv_claimed (hi : Inv offer s) {q : MarketOfferRecord} {accepted : Nat} (hof : Of offer r)
    (hq : s.offers offer.id = some q) (hamount : q.amount = r.amount) (h0 : 0 < accepted) (hle : accepted ≤ r.amount)
    (hrow : offers offer.id = if accepted = r.amount then none else some { q with amount := q.amount - accepted }) :
    Inv offer { s with offers := offers, claims := s.claims ++ [(r, accepted)] } := by
  have hqof := hi.row q hq
  have htotal := hi.total
  rw [remaining_some hq] at htotal
  have hwholes := hi.wholes
  rw [hq] at hwholes
  constructor
  · exact hi.listed
  · intro p (hp : offers offer.id = some p)
    rw [hrow] at hp
    split at hp
    · cases hp
    obtain rfl := Option.some.inj hp
    refine ⟨?_, ?_, ?_⟩
    · rw [hqof.1]
    · show 0 < q.amount - accepted
      omega
    · show q.amount - accepted ≤ offer.amount
      omega
  · exact hi.seen
  · intro c hc
    rcases mem_append.mp hc with hc | hc
    · exact hi.claims c hc
    · obtain rfl := mem_singleton.mp hc
      exact ⟨hof, h0, hle⟩
  · rw [outstanding_snoc]
    by_cases hw : accepted = r.amount
    · rw [if_pos hw] at hrow
      rw [remaining_none hrow]
      omega
    · rw [if_neg hw] at hrow
      rw [remaining_some hrow]
      show q.amount - accepted + _ = _
      omega
  · rw [countP_snoc, hwholes]
    by_cases hw : accepted = r.amount
    · simp [hrow, whole, hw]
    · rw [if_neg hw] at hrow
      have hpart : whole (r, accepted) = false := by simp [whole, hw]
      simp [hrow, hpart]

theorem inv_claim (hi : Inv offer s) (i accepted ownerId : Nat) :
    Inv offer (step offer.id s (.claim i accepted ownerId)) := by
  simp only [step]
  cases hr : s.seen[i]? with
  | none => exact hi
  | some r =>
    have hof := hi.seen r (mem_of_getElem? hr)
    dsimp only
    by_cases hok : (claimOffer s.offers r.id r.amount accepted ownerId).1 = true
    · rw [if_pos hok]
      obtain ⟨q, hq, hamount, h0, hle, htable⟩ := claimOffer_cases hok
      refine inv_claimed hi hof (hof.id ▸ hq) hamount h0 hle ?_
      rw [htable, ← hof.id, update_self]
    · rw [if_neg hok]
      exact hi

theorem restoreOffer_row (hi : Inv offer s) (hc : c ∈ s.claims) (hok : (restoreOffer s.offers c.1 c.2).1 = true) :
    ∃ r, (restoreOffer s.offers c.1 c.2).2 offer.id = some r ∧ r = { offer with amount := r.amount } ∧
      r.amount = remaining s.offers offer.id + c.2 := by
  obtain ⟨hof, h0, hle⟩ := hi.claims c hc
  have hrest := hof.restorable hi.listed h0 hle
  have hcond := (restoreOffer_iff hi hc).mp hok
  unfold restoreOffer
  rw [hrest, hof.id]
  by_cases hw : c.2 = c.1.amount
  · have hnone := hi.row_none_of_whole hc hw
    have htier : normalizeTier c.1.tier = offer.tier := by
      rw [hof.1]
      exact Nat.min_eq_left hi.listed.tier
    refine ⟨{ c.1 with tier := normalizeTier c.1.tier }, ?_, ?_, ?_⟩
    · simp [hw, hnone, hof.id]
    · rw [htier, hof.1]
    · rw [remaining_none hnone]
      show c.1.amount = 0 + c.2
      omega
  · cases hrow : s.offers offer.id with
    | none =>
      rcases hcond with hcond | hcond
      · exact absurd hcond hw
      · exact absurd hrow hcond
    | some q =>
      refine ⟨{ q with amount := q.amount + c.2 }, ?_, ?_, ?_⟩
      · simp [hw]
      · rw [(hi.row q hrow).1]
      · rw [remaining_some hrow]

theorem inv_restored (hi : Inv offer s) {j : Nat} (hj : s.claims[j]? = some c)
    (hcond : c.2 = c.1.amount ∨ s.offers offer.id ≠ none) (hrow : offers offer.id = some r)
    (hr : r = { offer with amount := r.amount }) (hamount : r.amount = remaining s.offers offer.id + c.2) :
    Inv offer { s with offers := offers, claims := s.claims.eraseIdx j } := by
  have hc := mem_of_getElem? hj
  obtain ⟨hof, h0, hle⟩ := hi.claims c hc
  have hsum := outstanding_eraseIdx hj
  have htotal := hi.total
  constructor
  · exact hi.listed
  · intro p (hp : offers offer.id = some p)
    rw [hrow] at hp
    obtain rfl := Option.some.inj hp
    exact ⟨hr, by omega, by omega⟩
  · exact hi.seen
  · intro d hd
    exact hi.claims d (mem_of_mem_eraseIdx hd)
  · show remaining offers offer.id + outstanding (s.claims.eraseIdx j) = offer.amount
    rw [remaining_some hrow]
    omega
  · show (s.claims.eraseIdx j).countP whole = unit (offers offer.id).isNone
    have hcount := countP_eraseIdx whole s.claims j c hj
    have hwholes := hi.wholes
    rw [hrow]
    by_cases hw : c.2 = c.1.amount
    · rw [hi.row_none_of_whole hc hw] at hwholes
      have hone : whole c = true := by simp [whole, hw]
      simp only [hone, unit_true, isNone_none] at hcount hwholes
      simp only [isNone_some, unit_false]
      omega
    · have hone : whole c = false := by simp [whole, hw]
      have hsome : (s.offers offer.id).isNone = false := by
        rw [← Bool.not_eq_true, isNone_iff_eq_none]
        exact hcond.resolve_left hw
      rw [hsome] at hwholes
      simp only [hone, unit_false, isNone_some] at hcount hwholes ⊢
      omega

theorem inv_restore (hi : Inv offer s) (j : Nat) : Inv offer (step offer.id s (.restore j)) := by
  simp only [step]
  cases hj : s.claims[j]? with
  | none => exact hi
  | some c =>
    dsimp only
    by_cases hok : (restoreOffer s.offers c.1 c.2).1 = true
    · rw [if_pos hok]
      have hc := mem_of_getElem? hj
      obtain ⟨r, hrow, hr, hamount⟩ := restoreOffer_row hi hc hok
      exact inv_restored hi hj ((restoreOffer_iff hi hc).mp hok) hrow hr hamount
    · rw [if_neg hok]
      exact { hi with }

theorem inv_step (hi : Inv offer s) (e : Ev) : Inv offer (step offer.id s e) := by
  cases e with
  | read => exact inv_read hi
  | claim i accepted ownerId => exact inv_claim hi i accepted ownerId
  | restore j => exact inv_restore hi j

theorem inv_starts (h : Starts offer s) : Inv offer s := by
  obtain ⟨hl, hrow, hseen, hclaims, -⟩ := h
  refine ⟨hl, ?_, ?_, ?_, ?_, ?_⟩
  · intro r hr
    rw [hrow] at hr
    obtain rfl := Option.some.inj hr
    have := hl.amount
    exact ⟨rfl, by omega, le_rfl⟩
  · simp [hseen]
  · simp [hclaims]
  · rw [remaining_some hrow, hclaims]
    rfl
  · simp [hrow, hclaims]

/-! ## Every run -/

/-- The step does not give a part back after another buyer took the rest away. -/
def RowThere (id : Nat) (s : State) : Ev → Prop
  | .restore j => ∀ c, s.claims[j]? = some c → c.2 = c.1.amount ∨ s.offers id ≠ none
  | _ => True

theorem refused_step (hi : Inv offer s) (h : s.refused = []) (e : Ev) (ho : RowThere offer.id s e) :
    (step offer.id s e).refused = [] := by
  cases e with
  | read => exact h
  | claim i accepted ownerId =>
    simp only [step]
    cases s.seen[i]? with
    | none => exact h
    | some r =>
      grind
  | restore j =>
    simp only [step]
    cases hj : s.claims[j]? with
    | none => exact h
    | some c =>
      have hok := (restoreOffer_iff hi (mem_of_getElem? hj)).mpr (ho c hj)
      dsimp only
      rw [if_pos hok]
      exact h

/-- Along every run that gives a part back only while the row is there, the row and the
    open claims add up to the initial amount, no claim takes more than the row holds, and no
    restore has failed. -/
theorem offer_conserved (h : Reach (Starts offer) (step offer.id) (RowThere offer.id) s) :
    remaining s.offers offer.id + outstanding s.claims = offer.amount ∧
    (∀ expected accepted ownerId, (claimOffer s.offers offer.id expected accepted ownerId).1 = true →
      accepted ≤ remaining s.offers offer.id) ∧
    s.refused = [] ∧
    ∀ c ∈ s.claims,
      ((restoreOffer s.offers c.1 c.2).1 = true ↔ c.2 = c.1.amount ∨ s.offers offer.id ≠ none) := by
  have hinv : Inv offer s ∧ s.refused = [] := by
    refine Reach.inv (I := fun s => Inv offer s ∧ s.refused = []) ?_ ?_ h
    · intro s hs
      exact ⟨inv_starts hs, hs.2.2.2.2⟩
    · intro s e ho hi
      exact ⟨inv_step hi.1 e, refused_step hi.1 hi.2 e ho⟩
  refine ⟨hinv.1.total, ?_, hinv.2, ?_⟩
  · intro expected accepted ownerId hok
    obtain ⟨r, hr, hamount, -, hle, -⟩ := claimOffer_cases hok
    rw [remaining_some hr]
    omega
  · intro c hc
    exact restoreOffer_iff hinv.1 hc

def pair : MarketOfferRecord := ⟨7, 3, 1, 2160, 2, 0, false, 100, 0, []⟩

def pairListed : State := ⟨update (fun _ => none) 7 (some pair), [], [], []⟩

theorem starts_pairListed : Starts pair pairListed :=
  ⟨⟨by decide, by decide, by decide, by decide, by decide, by decide, by decide⟩, rfl, rfl, rfl, rfl⟩

/-- A part is taken and given back while the row is there. -/
theorem offer_conserved_pair :
    remaining (run (step 7) pairListed [.read, .claim 0 1 0, .restore 0]).offers 7 = 2 := by
  have hallowed : Allowed (step 7) (RowThere 7) pairListed [.read, .claim 0 1 0, .restore 0] := by
    refine ⟨trivial, trivial, ?_, trivial⟩
    intro c _
    exact .inr (by decide)
  have h := @offer_conserved pair _ ((Reach.init starts_pairListed).run hallowed)
  have ht : remaining (run (step 7) pairListed [.read, .claim 0 1 0, .restore 0]).offers 7 +
      outstanding (run (step 7) pairListed [.read, .claim 0 1 0, .restore 0]).claims = 2 := h.1
  have hc : outstanding (run (step 7) pairListed [.read, .claim 0 1 0, .restore 0]).claims = 0 := by decide
  omega

/-- One buyer takes one of two pieces, another takes the other, and the first one's restore
    finds no row to add its piece to. -/
theorem restore_of_part_refused :
    Starts pair pairListed ∧
    (run (step 7) pairListed [.read, .claim 0 1 0, .read, .claim 1 1 0, .restore 0]).refused = [(pair, 1)] :=
  ⟨starts_pairListed, by decide⟩

end

end Backlands.Market
