/-
  Backlands.Trades.Protocol — the trade between two players: `internalStartTrade`,
  `playerAcceptTrade` and `internalCloseTrade` (src/game.cpp).

  An item on the table is a weak reference: one that is gone is none (`itemDestroyed`), in the
  player and in `tradeItems`. Instances, line of sight and the script's veto are in the event;
  whether the two items can then be moved is no matter here, a transfer is logged when it is
  attempted.

  Ghost: every offer has a number of its own; `saw` is what lay on the table, the own offer and the
  partner's, when the player accepted.

  Proved: `trade_protocol`. In every run in which no item is offered that is registered already, and
  nobody makes a counter offer to a partner who has accepted, the partners are each other's, the
  offers are those registered, and both players of every transfer had seen the two offers when they
  accepted. Counterexample: `accepted_unseen`.
-/

import Backlands.Lib.Runs
import Mathlib.Logic.Function.Basic

namespace Backlands.Trades.Protocol

open Backlands.Lib Function

abbrev PlayerId := Nat

abbrev ItemId := Nat

inductive TradeState where
  | TRADE_NONE
  | TRADE_INITIATED
  | TRADE_ACCEPT
  | TRADE_ACKNOWLEDGE
  | TRADE_TRANSFER
  deriving DecidableEq

structure Offer where
  item : ItemId
  no : Nat
  deriving DecidableEq

structure Player where
  tradeState : TradeState := .TRADE_NONE
  tradeItem : Option Offer := none
  tradePartner : Option PlayerId := none
  saw : Option (Option Offer × Option Offer) := none
  deriving DecidableEq

/-- An exchange: the two players, their offers and what each saw when he accepted. -/
structure Transfer where
  player : PlayerId
  tradePartner : PlayerId
  playerTradeItem : Offer
  partnerTradeItem : Offer
  playerSaw : Option (Option Offer × Option Offer)
  partnerSaw : Option (Option Offer × Option Offer)

structure World where
  players : PlayerId → Player := fun _ => {}
  tradeItems : ItemId → Option PlayerId := fun _ => none
  offers : Nat := 0
  transfers : List Transfer := []

structure Answer where
  areDifferentNonZeroInstances : Bool
  canThrowObjectTo : Bool
  eventPlayerOnTradeAccept : Bool

namespace World

def modify (p : PlayerId) (f : Player → Player) (w : World) : World :=
  { w with players := update w.players p (f (w.players p)) }

def eraseTradeItem (x : ItemId) (w : World) : World := { w with tradeItems := update w.tradeItems x none }

/-- The two tests of `internalStartTrade`. -/
def mayStart (p q : PlayerId) (w : World) : Bool :=
  !((w.players p).tradeState ≠ .TRADE_NONE &&
    !((w.players p).tradeState = .TRADE_ACKNOWLEDGE && (w.players p).tradePartner = some q)) &&
  !((w.players q).tradeState ≠ .TRADE_NONE && (w.players q).tradePartner ≠ some p)

def internalStartTrade (p q : PlayerId) (x : ItemId) (w : World) : World :=
  if !w.mayStart p q then w
  else
    let w := w.modify p fun player =>
      { player with tradeItem := some ⟨x, w.offers⟩, tradePartner := some q, tradeState := .TRADE_INITIATED }
    let w := { w with tradeItems := update w.tradeItems x (some p), offers := w.offers + 1 }
    if (w.players q).tradeState = .TRADE_NONE then
      w.modify q fun player => { player with tradeState := .TRADE_ACKNOWLEDGE, tradePartner := some p }
    else w

/-- What `internalCloseTrade` does with each of the two. -/
def leave (p : PlayerId) (w : World) : World :=
  let w := match (w.players p).tradeItem with
    | some offer => (w.modify p fun player => { player with tradeItem := none }).eraseTradeItem offer.item
    | none => w
  w.modify p fun player => { player with tradeState := .TRADE_NONE, tradePartner := none, saw := none }

def internalCloseTrade (p : PlayerId) (w : World) : World :=
  let tradePartner := (w.players p).tradePartner
  if tradePartner.any (fun q => (w.players q).tradeState = .TRADE_TRANSFER) ||
      (w.players p).tradeState = .TRADE_TRANSFER then w
  else
    let w := w.leave p
    match tradePartner with
    | some q => w.leave q
    | none => w

/-- The end of `playerAcceptTrade`. -/
def finish (p : PlayerId) (w : World) : World :=
  w.modify p fun _ => {}

def playerAcceptTrade (p : PlayerId) (a : Answer) (w : World) : World :=
  if !((w.players p).tradeState = .TRADE_ACKNOWLEDGE || (w.players p).tradeState = .TRADE_INITIATED) then w
  else
    match (w.players p).tradePartner with
    | none => w
    | some q =>
      if a.areDifferentNonZeroInstances then w.internalCloseTrade p
      else
        let w := w.modify p fun player =>
          { player with tradeState := .TRADE_ACCEPT, saw := some (player.tradeItem, (w.players q).tradeItem) }
        if (w.players q).tradeState ≠ .TRADE_ACCEPT then w
        else if !a.canThrowObjectTo then w.internalCloseTrade p
        else
          match (w.players p).tradeItem, (w.players q).tradeItem with
          | some playerTradeItem, some partnerTradeItem =>
            if !a.eventPlayerOnTradeAccept then w.internalCloseTrade p
            else
              let transfer : Transfer := { player := p, tradePartner := q, playerTradeItem, partnerTradeItem
                                           playerSaw := (w.players p).saw, partnerSaw := (w.players q).saw }
              let w := w.modify p fun player => { player with tradeState := .TRADE_TRANSFER }
              let w := w.modify q fun player => { player with tradeState := .TRADE_TRANSFER }
              let w := (w.eraseTradeItem playerTradeItem.item).eraseTradeItem partnerTradeItem.item
              let w := { w with transfers := w.transfers ++ [transfer] }
              (w.finish p).finish q
          | _, _ => w.internalCloseTrade p

def itemDestroyed (x : ItemId) (w : World) : World :=
  { w with
    players := fun p => if (w.players p).tradeItem.any (·.item = x) then { w.players p with tradeItem := none } else w.players p
    tradeItems := update w.tradeItems x none }

end World

inductive Event where
  | internalStartTrade (p q : PlayerId) (x : ItemId)
  | playerAcceptTrade (p : PlayerId) (a : Answer)
  | internalCloseTrade (p : PlayerId)
  | itemDestroyed (x : ItemId)

def step (w : World) : Event → World
  | .internalStartTrade p q x => w.internalStartTrade p q x
  | .playerAcceptTrade p a => w.playerAcceptTrade p a
  | .internalCloseTrade p => w.internalCloseTrade p
  | .itemDestroyed x => w.itemDestroyed x

/-- Both players saw the two offers when they accepted. -/
def Transfer.Informed (t : Transfer) : Prop :=
  t.playerSaw = some (some t.playerTradeItem, some t.partnerTradeItem) ∧
    t.partnerSaw = some (some t.partnerTradeItem, some t.playerTradeItem)

structure Kept (w : World) : Prop where
  symmetric : ∀ p q, (w.players p).tradePartner = some q ↔ (w.players q).tradePartner = some p
  registered : ∀ p x, (w.players p).tradeItem.map (·.item) = some x ↔ w.tradeItems x = some p
  informed : ∀ t ∈ w.transfers, t.Informed

structure Start (w : World) : Prop where
  players : ∀ p, w.players p = {}
  tradeItems : ∀ x, w.tradeItems x = none
  transfers : w.transfers = []

/-- No item is offered that is registered already, and nobody makes a counter offer to a
    partner who has accepted. -/
def Fair (w : World) : Event → Prop
  | .internalStartTrade p q x => w.mayStart p q = true → w.tradeItems x = none ∧
      ¬((w.players p).tradeState = .TRADE_ACKNOWLEDGE ∧ (w.players q).tradeState = .TRADE_ACCEPT)
  | _ => True

/-! ## The invariant -/

structure Side (player partner : Player) : Prop where
  active : player.tradeState ≠ .TRADE_NONE
  settled : player.tradeState ≠ .TRADE_TRANSFER
  acknowledged : player.tradeState = .TRADE_ACKNOWLEDGE → player.tradeItem = none
  /-- A player who has accepted saw the offers that lie on the table. -/
  seen : player.tradeState = .TRADE_ACCEPT → ∀ a b, player.tradeItem = some a → partner.tradeItem = some b →
    player.saw = some (some a, some b)

theorem Side.initiated {player partner : Player} (h : player.tradeState = .TRADE_INITIATED) : Side player partner := by
  refine ⟨?_, ?_, ?_, ?_⟩
  all_goals simp [h]

theorem Side.invited {player partner : Player} (h : player.tradeState = .TRADE_ACKNOWLEDGE) (hnone : player.tradeItem = none) :
    Side player partner := by
  refine ⟨?_, ?_, fun _ => hnone, ?_⟩
  all_goals simp [h]

structure Inv (w : World) : Prop where
  symmetric : ∀ p q, (w.players p).tradePartner = some q → (w.players q).tradePartner = some p
  registered : ∀ p x, (w.players p).tradeItem.map (·.item) = some x ↔ w.tradeItems x = some p
  idle : ∀ p, (w.players p).tradePartner = none → w.players p = {}
  side : ∀ p q, (w.players p).tradePartner = some q → Side (w.players p) (w.players q)
  informed : ∀ t ∈ w.transfers, t.Informed

section
variable {w w' : World} {p q : PlayerId} {P Q : Player}

theorem Inv.start (h : Start w) : Inv w := by
  refine ⟨?_, ?_, ?_, ?_, ?_⟩
  all_goals simp [h.players, h.tradeItems, h.transfers]

theorem Inv.kept (h : Inv w) : Kept w :=
  ⟨fun p q => ⟨h.symmetric p q, h.symmetric q p⟩, h.registered, h.informed⟩

theorem Inv.none_iff (h : Inv w) : (w.players p).tradeState = .TRADE_NONE ↔ (w.players p).tradePartner = none := by
  constructor
  · intro hs
    cases hp : (w.players p).tradePartner with
    | none => rfl
    | some q => exact absurd hs (h.side p q hp).active
  · intro hp
    rw [h.idle p hp]

def Pair (w : World) (p q : PlayerId) : Prop :=
  ∀ r, r ≠ p → r ≠ q → (w.players r).tradePartner ≠ some p ∧ (w.players r).tradePartner ≠ some q

theorem Inv.pair (h : Inv w) (hq : (w.players p).tradePartner = some q) : Pair w p q := by
  intro r hrp hrq
  constructor
  · intro hr
    exact hrq (Option.some.inj ((h.symmetric r p hr).symm.trans hq))
  · intro hr
    exact hrp (Option.some.inj ((h.symmetric r q hr).symm.trans (h.symmetric p q hq)))

theorem Inv.pair_free (h : Inv w) (hp : (w.players p).tradePartner = none) (hq : (w.players q).tradePartner = none) :
    Pair w p q := by
  intro r _ _
  constructor
  · intro hr
    simpa [hp] using h.symmetric r p hr
  · intro hr
    simpa [hq] using h.symmetric r q hr

theorem Inv.replace (h : Inv w) (hpair : Pair w p q)
    (hplayers : ∀ r, w'.players r = if r = p then P else if r = q then Q else w.players r)
    (hself : p = q → P = Q)
    (hnew : (P.tradePartner = some q ∧ Q.tradePartner = some p ∧ Side P Q ∧ Side Q P) ∨ (P = {} ∧ Q = {}))
    (hother : ∀ r, r ≠ p → r ≠ q → ∀ x, w'.tradeItems x = some r ↔ w.tradeItems x = some r)
    (hP : ∀ x, P.tradeItem.map (·.item) = some x ↔ w'.tradeItems x = some p)
    (hQ : ∀ x, Q.tradeItem.map (·.item) = some x ↔ w'.tradeItems x = some q)
    (hinformed : ∀ t ∈ w'.transfers, t.Informed) : Inv w' := by
  have hp : w'.players p = P := by rw [hplayers, if_pos rfl]
  have hq : w'.players q = Q := by
    grind
  have hr : ∀ r, r ≠ p → r ≠ q → w'.players r = w.players r := by
    intro r h1 h2
    rw [hplayers, if_neg h1, if_neg h2]
  have hcases : ∀ r, r = p ∨ r = q ∨ (r ≠ p ∧ r ≠ q) := by
    grind
  refine ⟨?_, ?_, ?_, ?_, hinformed⟩
  · intro r s hs
    rcases hcases r with rfl | rfl | ⟨h1, h2⟩
    · rw [hp] at hs
      rcases hnew with ⟨hPq, hQp, -⟩ | ⟨rfl, -⟩
      · obtain rfl := Option.some.inj (hs.symm.trans hPq)
        rw [hq]
        exact hQp
      · cases hs
    · rw [hq] at hs
      rcases hnew with ⟨hPq, hQp, -⟩ | ⟨-, rfl⟩
      · obtain rfl := Option.some.inj (hs.symm.trans hQp)
        rw [hp]
        exact hPq
      · cases hs
    · rw [hr r h1 h2] at hs
      have hne := hpair r h1 h2
      have hs1 : s ≠ p := fun he => hne.1 (he ▸ hs)
      have hs2 : s ≠ q := fun he => hne.2 (he ▸ hs)
      rw [hr s hs1 hs2]
      exact h.symmetric r s hs
  · intro r x
    rcases hcases r with rfl | rfl | ⟨h1, h2⟩
    · rw [hp]
      exact hP x
    · rw [hq]
      exact hQ x
    · rw [hr r h1 h2, hother r h1 h2]
      exact h.registered r x
  · intro r hs
    rcases hcases r with rfl | rfl | ⟨h1, h2⟩
    · rw [hp] at hs ⊢
      rcases hnew with ⟨hPq, -⟩ | ⟨hP, -⟩
      · simp [hPq] at hs
      · exact hP
    · rw [hq] at hs ⊢
      rcases hnew with ⟨-, hQp, -⟩ | ⟨-, hQ⟩
      · simp [hQp] at hs
      · exact hQ
    · rw [hr r h1 h2] at hs ⊢
      exact h.idle r hs
  · intro r s hs
    rcases hcases r with rfl | rfl | ⟨h1, h2⟩
    · rw [hp] at hs ⊢
      rcases hnew with ⟨hPq, -, hside, -⟩ | ⟨rfl, -⟩
      · obtain rfl := Option.some.inj (hs.symm.trans hPq)
        rw [hq]
        exact hside
      · cases hs
    · rw [hq] at hs ⊢
      rcases hnew with ⟨-, hQp, -, hside⟩ | ⟨-, rfl⟩
      · obtain rfl := Option.some.inj (hs.symm.trans hQp)
        rw [hp]
        exact hside
      · cases hs
    · rw [hr r h1 h2] at hs ⊢
      have hne := hpair r h1 h2
      have hs1 : s ≠ p := fun he => hne.1 (he ▸ hs)
      have hs2 : s ≠ q := fun he => hne.2 (he ▸ hs)
      rw [hr s hs1 hs2]
      exact h.side r s hs

/-! ## Closing -/

theorem leave_players (p : PlayerId) : (w.leave p).players = update w.players p {} := by
  unfold World.leave
  cases hx : (w.players p).tradeItem with
  | none => simp [World.modify, hx]
  | some offer => simp [World.modify, World.eraseTradeItem]

theorem leave_tradeItems (hp : ∀ x, (w.players p).tradeItem.map (·.item) = some x ↔ w.tradeItems x = some p) (x : ItemId)
    (r : PlayerId) : (w.leave p).tradeItems x = some r ↔ r ≠ p ∧ w.tradeItems x = some r := by
  have hx := hp x
  unfold World.leave
  cases ho : (w.players p).tradeItem with
  | none =>
    rw [ho] at hx
    refine ⟨fun hr => ⟨?_, hr⟩, fun hr => hr.2⟩
    rintro rfl
    simpa using hx.mpr hr
  | some offer =>
    show update w.tradeItems offer.item none x = some r ↔ _
    grind

theorem Inv.leaveBoth (h : Inv w) (hpair : Pair w p q) : Inv ((w.leave p).leave q) := by
  have hp := leave_tradeItems (h.registered p)
  have hq : ∀ x, ((w.leave p).players q).tradeItem.map (·.item) = some x ↔ (w.leave p).tradeItems x = some q := by
    intro x
    rw [hp, leave_players]
    by_cases hqp : q = p
    · simp [hqp]
    · rw [update_of_ne hqp, h.registered q x]
      simp [hqp]
  have hboth : ∀ x r, ((w.leave p).leave q).tradeItems x = some r ↔ r ≠ q ∧ r ≠ p ∧ w.tradeItems x = some r := by
    intro x r
    rw [leave_tradeItems hq, hp]
  have htransfers : ((w.leave p).leave q).transfers = w.transfers := by
    unfold World.leave
    split
    all_goals
      split
      all_goals rfl
  refine h.replace (P := {}) (Q := {}) hpair ?_ (fun _ => rfl) (.inr ⟨rfl, rfl⟩) ?_ ?_ ?_ (htransfers ▸ h.informed)
  · rw [leave_players, leave_players]
    grind
  · intro r h1 h2 x
    rw [hboth]
    simp [h1, h2]
  · intro x
    rw [hboth]
    simp
  · intro x
    rw [hboth]
    simp

theorem Inv.close (h : Inv w) (p : PlayerId) : Inv (w.internalCloseTrade p) := by
  unfold World.internalCloseTrade
  cases hq : (w.players p).tradePartner with
  | none =>
    have hidle := h.idle p hq
    have hsame : w.leave p = w := by
      have hplayers : update w.players p {} = w.players := by rw [← hidle, update_eq_self]
      simp [World.leave, hidle, World.modify, hplayers]
    simp [hidle, hsame, h]
  | some q =>
    have h1 := (h.side p q hq).settled
    have h2 := (h.side q p (h.symmetric p q hq)).settled
    simp only [Option.any_some, h1, h2, decide_false, Bool.or_self, Bool.false_eq_true, if_false]
    exact h.leaveBoth (h.pair hq)

/-! ## Accepting -/

theorem Inv.adjust (h : Inv w) (hq : (w.players p).tradePartner = some q) (hpartner : P.tradePartner = some q)
    (hitem : P.tradeItem = (w.players p).tradeItem) (hself : p = q → Side P P)
    (hP : p ≠ q → Side P (w.players q)) (hQ : p ≠ q → Side (w.players q) P) :
    Inv { w with players := update w.players p P } := by
  have hregistered := h.registered p
  rw [← hitem] at hregistered
  by_cases hpq : p = q
  · subst hpq
    refine h.replace (P := P) (Q := P) (h.pair hq) ?_ (fun _ => rfl)
      (.inl ⟨hpartner, hpartner, hself rfl, hself rfl⟩) (fun _ _ _ _ => Iff.rfl) hregistered hregistered h.informed
    grind
  · refine h.replace (P := P) (Q := w.players q) (h.pair hq) ?_ (fun he => absurd he hpq)
      (.inl ⟨hpartner, h.symmetric p q hq, hP hpq, hQ hpq⟩) (fun _ _ _ _ => Iff.rfl) hregistered (h.registered q)
      h.informed
    grind

theorem Inv.accept (h : Inv w) (hq : (w.players p).tradePartner = some q) :
    Inv (w.modify p fun player =>
      { player with tradeState := .TRADE_ACCEPT, saw := some (player.tradeItem, (w.players q).tradeItem) }) := by
  have hside := h.side q p (h.symmetric p q hq)
  have hactive : TradeState.TRADE_ACCEPT ≠ .TRADE_NONE := by decide
  have hsettled : TradeState.TRADE_ACCEPT ≠ .TRADE_TRANSFER := by decide
  refine h.adjust hq hq rfl ?_ (fun _ => ?_) fun _ => ?_
  · intro hpq
    subst hpq
    refine ⟨hactive, hsettled, nofun, ?_⟩
    intro _ a b ha hb
    show some ((w.players p).tradeItem, (w.players p).tradeItem) = _
    rw [show (w.players p).tradeItem = some a from ha, show some a = some b from ha.symm.trans hb]
  · refine ⟨hactive, hsettled, nofun, ?_⟩
    intro _ a b ha hb
    show some ((w.players p).tradeItem, (w.players q).tradeItem) = _
    rw [show (w.players p).tradeItem = some a from ha, hb]
  · exact { hside with }

theorem Inv.exchange (h : Inv w) (hq : (w.players p).tradePartner = some q)
    (hpa : (w.players p).tradeState = .TRADE_ACCEPT) (hqa : (w.players q).tradeState = .TRADE_ACCEPT) {a b : Offer}
    (ha : (w.players p).tradeItem = some a) (hb : (w.players q).tradeItem = some b)
    (hplayers : ∀ r, w'.players r = if r = p then {} else if r = q then {} else w.players r)
    (htradeItems : ∀ x, w'.tradeItems x = if x = a.item ∨ x = b.item then none else w.tradeItems x)
    (htransfers : w'.transfers = w.transfers ++ [⟨p, q, a, b, (w.players p).saw, (w.players q).saw⟩]) : Inv w' := by
  have hra : w.tradeItems a.item = some p := (h.registered p a.item).mp (by simp [ha])
  have hrb : w.tradeItems b.item = some q := (h.registered q b.item).mp (by simp [hb])
  refine h.replace (P := {}) (Q := {}) (h.pair hq) hplayers (fun _ => rfl) (.inr ⟨rfl, rfl⟩) ?_ ?_ ?_ ?_
  · grind
  · intro x
    rw [htradeItems]
    by_cases hx : x = a.item ∨ x = b.item
    · simp [hx]
    · rw [if_neg hx, ← h.registered p x, ha]
      simp [Ne.symm (not_or.mp hx).1]
  · intro x
    rw [htradeItems]
    by_cases hx : x = a.item ∨ x = b.item
    · simp [hx]
    · rw [if_neg hx, ← h.registered q x, hb]
      simp [Ne.symm (not_or.mp hx).2]
  · rw [htransfers]
    intro t ht
    rcases List.mem_append.mp ht with ht | ht
    · exact h.informed t ht
    · rw [List.mem_singleton.mp ht]
      exact ⟨(h.side p q hq).seen hpa a b ha hb, (h.side q p (h.symmetric p q hq)).seen hqa b a hb ha⟩

theorem Inv.playerAccept (h : Inv w) (p : PlayerId) (a : Answer) : Inv (w.playerAcceptTrade p a) := by
  unfold World.playerAcceptTrade
  split
  · exact h
  cases hq : (w.players p).tradePartner with
  | none => exact h
  | some q =>
    have h1 := h.accept hq
    generalize hw1 : (w.modify p fun player =>
      { player with tradeState := .TRADE_ACCEPT, saw := some (player.tradeItem, (w.players q).tradeItem) }) = w1 at h1
    have hp1 : (w1.players p).tradeState = .TRADE_ACCEPT := by simp [← hw1, World.modify]
    have hq1 : (w1.players p).tradePartner = some q := by simp [← hw1, World.modify, hq]
    simp only [hw1]
    split
    · exact h.close p
    split
    · exact h1
    rename_i hqa
    split
    · exact h1.close p
    split
    · rename_i ours theirs ha hb
      split
      · exact h1.close p
      refine h1.exchange hq1 hp1 (not_not.mp hqa) ha hb ?_ ?_ ?_
      · intro r
        by_cases hrq : r = q
        · simp [World.finish, World.modify, hrq]
        by_cases hrp : r = p
        · subst hrp
          simp [World.finish, World.modify, World.eraseTradeItem, hrq]
        · simp [World.finish, World.modify, World.eraseTradeItem, hrp, hrq]
      · intro x
        show update (update w1.tradeItems ours.item none) theirs.item none x = _
        grind
      · rfl
    · exact h1.close p

/-! ## Offering -/

theorem mayStart_iff : w.mayStart p q = true ↔
    ((w.players p).tradeState = .TRADE_NONE ∨
      ((w.players p).tradeState = .TRADE_ACKNOWLEDGE ∧ (w.players p).tradePartner = some q)) ∧
    ((w.players q).tradeState = .TRADE_NONE ∨ (w.players q).tradePartner = some p) := by
  simp [World.mayStart]

theorem Inv.offer (h : Inv w) (hpair : Pair w p q) {x : ItemId} {offer : Offer} (hitem : offer.item = x)
    (hfree : w.tradeItems x = none) (hnone : (w.players p).tradeItem = none) (hP : P.tradeItem = some offer)
    (hQ : p ≠ q → Q.tradeItem = (w.players q).tradeItem) (hself : p = q → P = Q)
    (hnew : P.tradePartner = some q ∧ Q.tradePartner = some p ∧ Side P Q ∧ Side Q P)
    (hplayers : ∀ r, w'.players r = if r = p then P else if r = q then Q else w.players r)
    (htradeItems : w'.tradeItems = update w.tradeItems x (some p)) (htransfers : w'.transfers = w.transfers) :
    Inv w' := by
  have hother : ∀ r, r ≠ p → ∀ y, w'.tradeItems y = some r ↔ w.tradeItems y = some r := by
    rw [htradeItems]
    grind
  have hreg : ∀ y, P.tradeItem.map (·.item) = some y ↔ w'.tradeItems y = some p := by
    intro y
    rw [htradeItems]
    by_cases hy : y = x
    · simp [hy, hP, hitem]
    · rw [update_of_ne hy, ← h.registered p y]
      simp [hP, hnone, hitem, Ne.symm hy]
  refine h.replace hpair hplayers hself (.inl hnew) (fun r hr _ => hother r hr) hreg ?_ (htransfers ▸ h.informed)
  by_cases hpq : p = q
  · rw [← hself hpq, ← hpq]
    exact hreg
  · intro y
    rw [hQ hpq, hother q (Ne.symm hpq), h.registered q y]

theorem Inv.startTrade (h : Inv w) {x : ItemId} (hf : Fair w (.internalStartTrade p q x)) :
    Inv (w.internalStartTrade p q x) := by
  unfold World.internalStartTrade
  by_cases hmay : w.mayStart p q = true
  · obtain ⟨hfree, hcounter⟩ := hf hmay
    obtain ⟨hp, hq⟩ := mayStart_iff.mp hmay
    simp only [hmay, Bool.not_true, Bool.false_eq_true, if_false]
    rcases hp with hp | ⟨hack, hpq⟩
    · -- a new trade: the partner is free as well
      have hpnone := h.none_iff.mp hp
      have hqnone : (w.players q).tradePartner = none := by
        rcases hq with hq | hq
        · exact h.none_iff.mp hq
        · rw [h.symmetric q p hq] at hpnone
          cases hpnone
      have hpidle := h.idle p hpnone
      have hqidle := h.idle q hqnone
      by_cases hpq : p = q
      · subst hpq
        refine h.offer (P := ⟨.TRADE_INITIATED, some ⟨x, w.offers⟩, some p, none⟩)
          (Q := ⟨.TRADE_INITIATED, some ⟨x, w.offers⟩, some p, none⟩) (h.pair_free hpnone hpnone) rfl hfree
          (by rw [hpidle]) rfl (fun hne => absurd rfl hne) (fun _ => rfl)
          ⟨rfl, rfl, Side.initiated rfl, Side.initiated rfl⟩ ?_ ?_ ?_
        · intro r
          by_cases hr : r = p <;> simp [hr, World.modify, hpidle]
        · simp [World.modify]
        · simp [World.modify]
      · have hqp := Ne.symm hpq
        refine h.offer (P := ⟨.TRADE_INITIATED, some ⟨x, w.offers⟩, some q, none⟩)
          (Q := ⟨.TRADE_ACKNOWLEDGE, none, some p, none⟩) (h.pair_free hpnone hqnone) rfl hfree
          (by rw [hpidle]) rfl (fun _ => by rw [hqidle]) (fun he => absurd he hpq)
          ⟨rfl, rfl, Side.initiated rfl, Side.invited rfl rfl⟩ ?_ ?_ ?_
        · intro r
          by_cases hr : r = p
          · subst hr
            simp [World.modify, hpidle, hqidle, hqp, hpq]
          · by_cases hrq : r = q <;> simp [hrq, World.modify, hqidle, hr, hqp]
        · simp [World.modify, hqidle, hqp]
        · simp [World.modify, hqidle, hqp]
    · -- a counter offer: the partner has not accepted
      have hqp := h.symmetric p q hpq
      have hside := h.side q p hqp
      have hqa : (w.players q).tradeState ≠ .TRADE_ACCEPT := fun he => hcounter ⟨hack, he⟩
      have hnone := (h.side p q hpq).acknowledged hack
      by_cases heq : p = q
      · subst heq
        refine h.offer (P := ⟨.TRADE_INITIATED, some ⟨x, w.offers⟩, some p, (w.players p).saw⟩)
          (Q := ⟨.TRADE_INITIATED, some ⟨x, w.offers⟩, some p, (w.players p).saw⟩) (h.pair hpq) rfl hfree
          hnone rfl (fun hne => absurd rfl hne) (fun _ => rfl)
          ⟨rfl, rfl, Side.initiated rfl, Side.initiated rfl⟩ ?_ ?_ ?_
        · intro r
          by_cases hr : r = p <;> simp [hr, World.modify]
        · simp [World.modify]
        · simp [World.modify]
      · have hne := Ne.symm heq
        refine h.offer (P := ⟨.TRADE_INITIATED, some ⟨x, w.offers⟩, some q, (w.players p).saw⟩)
          (Q := w.players q) (h.pair hpq) rfl hfree hnone rfl (fun _ => rfl) (fun he => absurd he heq)
          ⟨rfl, hqp, Side.initiated rfl, { hside with seen := fun ha => absurd ha hqa }⟩ ?_ ?_ ?_
        · intro r
          by_cases hr : r = p
          · subst hr
            simp [World.modify, hne, hside.active]
          · by_cases hrq : r = q <;> simp [hrq, World.modify, hr, hside.active, hne]
        · simp [World.modify, hne, hside.active]
        · simp [World.modify, hne, hside.active]
  · simp only [hmay, Bool.not_false, if_true]
    exact h

/-! ## Runs -/

theorem Inv.destroyed (h : Inv w) (x : ItemId) : Inv (w.itemDestroyed x) := by
  have hplayers : ∀ p, (w.itemDestroyed x).players p =
      if (w.players p).tradeItem.any (·.item = x) then { w.players p with tradeItem := none } else w.players p :=
    fun _ => rfl
  have hpartner : ∀ p, ((w.itemDestroyed x).players p).tradePartner = (w.players p).tradePartner := by
    grind
  have hitem : ∀ p a, ((w.itemDestroyed x).players p).tradeItem = some a → (w.players p).tradeItem = some a := by
    grind
  refine ⟨?_, ?_, ?_, ?_, h.informed⟩
  · intro p q
    rw [hpartner, hpartner]
    exact h.symmetric p q
  · intro p y
    have hreg := h.registered p
    rw [hplayers]
    show _ ↔ update w.tradeItems x none y = some p
    cases ho : (w.players p).tradeItem with
    | none =>
      grind
    | some offer =>
      rw [ho] at hreg
      by_cases hy : y = x
      · by_cases he : offer.item = x
        · simp [hy, he]
        · simp [hy, he, ho]
      · by_cases he : offer.item = x
        · rw [update_of_ne hy, ← hreg y]
          simp [he, Ne.symm hy]
        · rw [update_of_ne hy, ← hreg y]
          simp [he, ho]
  · intro p hp
    have hidle := h.idle p ((hpartner p).symm.trans hp)
    rw [hplayers, hidle]
    rfl
  · intro p q hq
    have hside := h.side p q ((hpartner p).symm.trans hq)
    have hstate : ((w.itemDestroyed x).players p).tradeState = (w.players p).tradeState ∧
        ((w.itemDestroyed x).players p).saw = (w.players p).saw := by
      rw [hplayers]
      split
      · exact ⟨rfl, rfl⟩
      · exact ⟨rfl, rfl⟩
    refine ⟨hstate.1 ▸ hside.active, hstate.1 ▸ hside.settled, ?_, ?_⟩
    · intro hack
      cases ho : ((w.itemDestroyed x).players p).tradeItem with
      | none => rfl
      | some a =>
        have hnone := hside.acknowledged (hstate.1 ▸ hack)
        rw [hitem p a ho] at hnone
        cases hnone
    · intro ha a b hpa hqb
      rw [hstate.2]
      exact hside.seen (hstate.1 ▸ ha) a b (hitem p a hpa) (hitem q b hqb)

theorem Inv.step (h : Inv w) (e : Event) (hf : Fair w e) : Inv (step w e) := by
  cases e with
  | internalStartTrade p q x => exact h.startTrade hf
  | playerAcceptTrade p a => exact h.playerAccept p a
  | internalCloseTrade p => exact h.close p
  | itemDestroyed x => exact h.destroyed x

/-- In every fair run trades have two sides, offers are registered, and both have seen what changes hands. -/
theorem trade_protocol (w : World) (h : Reach Start Protocol.step Fair w) : Kept w :=
  (h.inv (I := Inv) (fun _ h => Inv.start h) fun _ e hf h => h.step e hf).kept

end

def bothAccept : List Event :=
  let a : Answer := ⟨false, true, true⟩
  [.internalStartTrade 1 2 10, .internalStartTrade 2 1 20, .playerAcceptTrade 1 a, .playerAcceptTrade 2 a]

theorem start_empty : Start {} := ⟨fun _ => rfl, fun _ => rfl, rfl⟩

theorem bothAccept_kept : Kept (run step {} bothAccept) ∧
    (run step {} bothAccept).transfers =
      [⟨2, 1, ⟨20, 1⟩, ⟨10, 0⟩, some (some ⟨20, 1⟩, some ⟨10, 0⟩), some (some ⟨10, 0⟩, some ⟨20, 1⟩)⟩] := by
  refine ⟨trade_protocol _ ((Reach.init start_empty).run ?_), rfl⟩
  exact ⟨fun _ => ⟨rfl, by decide⟩, fun _ => ⟨rfl, by decide⟩, trivial, trivial, trivial⟩

/-- Player 1 offers item 10 and accepts; player 2 offers item 20 only then, and accepts. -/
def acceptFirst : List Event :=
  let a : Answer := ⟨false, true, true⟩
  [.internalStartTrade 1 2 10, .playerAcceptTrade 1 a, .internalStartTrade 2 1 20, .playerAcceptTrade 2 a]

theorem accepted_unseen : ¬∀ w, Reach Start step (fun _ _ => True) w → Kept w := by
  intro h
  have hreach : Reach Start step (fun _ _ => True) (run step {} acceptFirst) :=
    (Reach.init start_empty).run ⟨trivial, trivial, trivial, trivial, trivial⟩
  have hkept := h _ hreach
  have hmem : ⟨2, 1, ⟨20, 1⟩, ⟨10, 0⟩, some (some ⟨20, 1⟩, some ⟨10, 0⟩), some (some ⟨10, 0⟩, none)⟩ ∈
      (run step {} acceptFirst).transfers := List.mem_cons_self
  -- player 1 saw his own offer alone
  have hsaw := (hkept.informed _ hmem).2
  cases hsaw

end Backlands.Trades.Protocol
