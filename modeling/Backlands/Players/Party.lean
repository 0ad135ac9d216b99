/-
  Backlands.Players.Party — parties, their members and their invitations (src/party.cpp,
  src/player.cpp).

  A party and a player point at each other: the leader and the members have the party, and the
  invited have it among their invitations. A script answers every event; the answers are read
  off one after the other, `script n` the n-th. The methods do not check whom they are called
  for: the game lets a player create or join a party only without one, and invites only
  players that are not in it. Players are taken to stay in the game.

  Proved: `membership_consistent`, in every state reached by calls as the game makes them, where
  no disband is vetoed that a leaving leader asks for, both sides agree; and
  `any_calls_inconsistent`, that under other calls they need not.
-/

import Backlands.Lib.Runs
import Mathlib.Data.List.Nodup

namespace Backlands.Players

open Backlands.Lib Function List

abbrev PlayerId := Nat

abbrev PartyId := Nat

structure Party where
  leader : Option PlayerId := none
  memberList : List PlayerId := []
  inviteList : List PlayerId := []
  /-- A party keeps itself until it is disbanded. -/
  self : Bool := false

structure World where
  parties : PartyId → Party := fun _ => {}
  /-- The parties made so far are the numbers below. -/
  made : Nat := 0
  party : PlayerId → Option PartyId := fun _ => none
  invitePartyList : PlayerId → List PartyId := fun _ => []
  script : Nat → Bool
  asked : Nat := 0

namespace World

def modify (P : PartyId) (f : Party → Party) (w : World) : World :=
  { w with parties := update w.parties P (f (w.parties P)) }

/-- The answer of the script to the next event. -/
def answer (w : World) : Bool := w.script w.asked

def ask (w : World) : World := { w with asked := w.asked + 1 }

/-! ## Player -/

/-- A pointer to a party that is gone reads as none. -/
def getParty (p : PlayerId) (w : World) : Option PartyId := (w.party p).filter fun P => (w.parties P).self

def setParty (p : PlayerId) (P : Option PartyId) (w : World) : World :=
  { w with party := update w.party p P }

def addPartyInvitation (p : PlayerId) (P : PartyId) (w : World) : World :=
  if P ∈ w.invitePartyList p then w
  else { w with invitePartyList := update w.invitePartyList p (P :: w.invitePartyList p) }

def removePartyInvitation (p : PlayerId) (P : PartyId) (w : World) : World :=
  { w with
    invitePartyList := update w.invitePartyList p
      ((w.invitePartyList p).filter fun Q => (w.parties Q).self && decide (Q ≠ P)) }

/-! ## Party -/

def create (leader : PlayerId) (w : World) : World :=
  let P := w.made
  let w := { w with made := w.made + 1 }
  (w.modify P fun _ => { leader := some leader, self := true }).setParty leader (some P)

def empty (P : PartyId) (w : World) : Bool := (w.parties P).memberList.isEmpty && (w.parties P).inviteList.isEmpty

/-- What `disband` does once it may. -/
def disbanded (P : PartyId) (w : World) : World :=
  let party := w.parties P
  let w := w.modify P fun party => { party with leader := none }
  let w := match party.leader with
    | some currentLeader => w.setParty currentLeader none
    | none => w
  let w := party.inviteList.foldl (fun w invitee => w.removePartyInvitation invitee P) w
  let w := w.modify P fun party => { party with inviteList := [] }
  let w := party.memberList.foldl (fun w member => w.setParty member none) w
  w.modify P fun party => { party with memberList := [], self := false }

def disband (P : PartyId) (w : World) : World := if w.answer then w.ask.disbanded P else w.ask

def removeInvite (player : PlayerId) (removeFromPlayer : Bool) (P : PartyId) (w : World) : Bool × World :=
  let found := decide (player ∈ (w.parties P).inviteList)
  let w := w.modify P fun party => { party with inviteList := party.inviteList.filter (· ≠ player) }
  if !found then (false, w)
  else
    let w := if removeFromPlayer then w.removePartyInvitation player P else w
    (true, if w.empty P then w.disband P else w)

/-- `Player::clearPartyInvitations` -/
def clearPartyInvitations (p : PlayerId) (w : World) : World :=
  let w := (w.invitePartyList p).foldl (fun w Q => if (w.parties Q).self then (w.removeInvite p false Q).2 else w) w
  { w with invitePartyList := update w.invitePartyList p [] }

def revokeInvitation (player : PlayerId) (P : PartyId) (w : World) : World :=
  if w.answer then (w.ask.removeInvite player true P).2 else w.ask

def isPlayerInvited (player : PlayerId) (P : PartyId) (w : World) : Bool := decide (player ∈ (w.parties P).inviteList)

def invitePlayer (player : PlayerId) (P : PartyId) (w : World) : Bool × World :=
  if w.isPlayerInvited player P then (false, w)
  else
    match (w.parties P).leader with
    | none => (false, w)
    | some _ =>
      let w := w.modify P fun party => { party with inviteList := party.inviteList ++ [player] }
      (true, w.addPartyInvitation player P)

def joinParty (player : PlayerId) (P : PartyId) (w : World) : Bool × World :=
  match (w.parties P).leader with
  | none => (false, w)
  | some currentLeader =>
    if !w.answer then (false, w.ask)
    else
      let w := w.ask
      let w := if (w.parties P).memberList.isEmpty then w.clearPartyInvitations currentLeader else w
      let w := w.modify P fun party => { party with memberList := party.memberList ++ [player] }
      let w := w.setParty player (some P)
      let w := w.clearPartyInvitations player
      (true, w.removePartyInvitation player P)

def passPartyLeadership (player : PlayerId) (forceRemove : Bool) (P : PartyId) (w : World) : Bool × World :=
  let oldLeader := (w.parties P).leader
  if oldLeader = some player ∨ w.getParty player ≠ some P then (false, w)
  else if !w.answer && !forceRemove then (false, w.ask)
  else
    (true, w.ask.modify P fun party =>
      { party with leader := some player, memberList := oldLeader.toList ++ party.memberList.filter (· ≠ player) })

/-- The members that could follow a leader who leaves. -/
def validMembers (player : PlayerId) (P : PartyId) (w : World) : List PlayerId := (w.parties P).memberList.filter (· ≠ player)

/-- `missingLeader`, for a leader who leaves. -/
def missingLeader (player : PlayerId) (P : PartyId) (w : World) : Bool :=
  let valid := w.validMembers player P
  valid.length = 0 ∨ (valid.length = 1 ∧ (w.parties P).inviteList.isEmpty ∧ (w.parties P).leader = some player)

def leaveParty (player : PlayerId) (forceRemove : Bool) (P : PartyId) (w : World) : Bool × World :=
  let currentLeader := (w.parties P).leader
  if w.getParty player ≠ some P ∧ currentLeader ≠ some player then (false, w)
  else if !forceRemove && !w.answer then (false, w.ask)
  else
    let w := w.ask
    let leaves := decide (currentLeader = some player ∨ currentLeader = none)
    let missing := leaves && w.missingLeader player P
    let w := match (w.validMembers player P).head? with
      | some nextLeader => if leaves && !missing then (w.passPartyLeadership nextLeader true P).2 else w
      | none => w
    let w := w.modify P fun party => { party with memberList := party.memberList.filter (· ≠ player) }
    let w := w.setParty player none
    (true, if missing || w.empty P then w.disband P else w)

end World

/-! ## Calls -/

inductive Call where
  | create (leader : PlayerId)
  | invitePlayer (player : PlayerId) (P : PartyId)
  | joinParty (player : PlayerId) (P : PartyId)
  | removeInvite (player : PlayerId) (P : PartyId)
  | revokeInvitation (player : PlayerId) (P : PartyId)
  | passPartyLeadership (player : PlayerId) (forceRemove : Bool) (P : PartyId)
  | leaveParty (player : PlayerId) (forceRemove : Bool) (P : PartyId)
  | disband (P : PartyId)

def step (w : World) : Call → World
  | .create leader => w.create leader
  | .invitePlayer player P => (w.invitePlayer player P).2
  | .joinParty player P => (w.joinParty player P).2
  | .removeInvite player P => (w.removeInvite player true P).2
  | .revokeInvitation player P => w.revokeInvitation player P
  | .passPartyLeadership player forceRemove P => (w.passPartyLeadership player forceRemove P).2
  | .leaveParty player forceRemove P => (w.leaveParty player forceRemove P).2
  | .disband P => w.disband P

def start (w : World) : Prop := ∃ script, w = { script := script }

/-! ## What a disband does -/

def Belongs (party : Party) (p : PlayerId) : Prop := party.leader = some p ∨ p ∈ party.memberList

instance (party : Party) (p : PlayerId) : Decidable (Belongs party p) := inferInstanceAs (Decidable (_ ∨ _))

namespace World

theorem foldl_setParty (l : List PlayerId) (w : World) :
    l.foldl (fun w member => w.setParty member none) w = { w with party := fun p => if p ∈ l then none else w.party p } := by
  induction l generalizing w with
  | nil => simp
  | cons a l ih =>
    rw [foldl_cons, ih]
    simp only [setParty, mem_cons, mk.injEq, true_and, and_true]
    grind

theorem foldl_removePartyInvitation (P : PartyId) (l : List PlayerId) (w : World) :
    l.foldl (fun w invitee => w.removePartyInvitation invitee P) w =
      { w with invitePartyList := fun p =>
          if p ∈ l then (w.invitePartyList p).filter fun Q => (w.parties Q).self && decide (Q ≠ P) else w.invitePartyList p } := by
  induction l generalizing w with
  | nil => simp
  | cons a l ih =>
    rw [foldl_cons, ih]
    simp only [removePartyInvitation, mem_cons, mk.injEq, true_and, and_true]
    grind [filter_filter]

theorem disbanded_eq (P : PartyId) (w : World) :
    w.disbanded P =
      { w with
        parties := update w.parties P {}
        party := fun p => if Belongs (w.parties P) p then none else w.party p
        invitePartyList := fun p =>
          if p ∈ (w.parties P).inviteList then
            (w.invitePartyList p).filter fun Q => (update w.parties P { w.parties P with leader := none } Q).self && decide (Q ≠ P)
          else w.invitePartyList p } := by
  unfold disbanded
  simp only [foldl_setParty, foldl_removePartyInvitation]
  cases hleader : (w.parties P).leader with
  | none =>
    simp only [modify, Belongs, hleader, mk.injEq, update_self, update_idem, true_and, and_true]
    funext p
    simp
  | some l =>
    simp only [modify, setParty, Belongs, hleader, mk.injEq, update_self, update_idem, true_and, and_true]
    grind

end World

/-! ## The invariant -/

/-- Both sides agree, but that members of `torn` may have lost the party, and that the
    invitations of `loose` are being cleared. -/
structure Inv (torn : Option PartyId) (loose : Option PlayerId) (w : World) : Prop where
  belongs : ∀ p P, w.party p = some P → Belongs (w.parties P) p
  party : ∀ p P, Belongs (w.parties P) p → w.party p = some P ∨ (torn = some P ∧ w.party p = none)
  nodup : ∀ P, (w.parties P).memberList.Nodup
  leader : ∀ P p, (w.parties P).leader = some p → p ∉ (w.parties P).memberList
  invited : ∀ p P, loose ≠ some p → (p ∈ (w.parties P).inviteList ↔ P ∈ w.invitePartyList p)
  gone : ∀ P, (w.parties P).self = false → w.parties P = {}
  led : ∀ P, (w.parties P).self = true → (w.parties P).leader.isSome
  fresh : ∀ P, w.made ≤ P → (w.parties P).self = false

variable {torn : Option PartyId} {loose : Option PlayerId} {w : World} {p player : PlayerId} {P Q : PartyId}

theorem Inv.self_of_belongs (h : Inv torn loose w) (hp : Belongs (w.parties P) p) : (w.parties P).self = true := by
  by_contra hself
  rw [h.gone P (by simpa using hself)] at hp
  rcases hp with hp | hp
  · cases hp
  · cases hp

theorem Inv.self_of_invited (h : Inv torn loose w) (hp : p ∈ (w.parties P).inviteList) : (w.parties P).self = true := by
  by_contra hself
  rw [h.gone P (by simpa using hself)] at hp
  cases hp

theorem Inv.getParty (h : Inv torn loose w) (p : PlayerId) : w.getParty p = w.party p := by
  unfold World.getParty
  cases hp : w.party p with
  | none => rfl
  | some P => rw [Option.filter_some, if_pos (h.self_of_belongs (h.belongs p P hp))]

theorem Inv.ask (h : Inv torn loose w) : Inv torn loose w.ask :=
  { h with }

theorem Inv.disbanded (h : Inv torn loose w) (htorn : torn = none ∨ torn = some P) : Inv none loose (w.disbanded P) := by
  rw [World.disbanded_eq]
  have hother : ∀ {p Q}, Q ≠ P → Belongs (w.parties Q) p → w.party p = some Q := by
    intro p Q hQ hp
    rcases h.party p Q hp with hp | ⟨heq, -⟩
    · exact hp
    · grind
  refine ⟨fun p Q hp => ?_, fun p Q hp => ?_, fun Q => ?_, fun Q p hp => ?_, fun p Q hloose => ?_, fun Q hQ => ?_, fun Q hQ => ?_,
    fun Q hQ => ?_⟩
  all_goals dsimp only at *
  · split at hp
    · cases hp
    next hnot =>
    have hold := h.belongs p Q hp
    have hne : Q ≠ P := by
      rintro rfl
      exact hnot hold
    rwa [update_of_ne hne]
  · by_cases hQ : Q = P
    · rw [hQ, update_self] at hp
      rcases hp with hp | hp
      · cases hp
      · cases hp
    · rw [update_of_ne hQ] at hp
      have hold := hother hQ hp
      rw [if_neg, hold]
      · exact .inl rfl
      intro hboth
      rcases h.party p P hboth with hboth | ⟨-, hboth⟩
      · exact hQ (Option.some.inj (hold.symm.trans hboth))
      · rw [hold] at hboth
        cases hboth
  · by_cases hQ : Q = P
    · simp [hQ, update_self]
    · rw [update_of_ne hQ]
      exact h.nodup Q
  · by_cases hQ : Q = P
    · simp [hQ, update_self]
    · rw [update_of_ne hQ] at hp ⊢
      exact h.leader Q p hp
  · by_cases hQ : Q = P
    · rw [hQ, update_self]
      constructor
      · intro hp
        cases hp
      intro hp
      split at hp
      · simp at hp
      · next hnot => exact absurd ((h.invited p P hloose).mpr hp) hnot
    · rw [update_of_ne hQ, h.invited p Q hloose]
      split
      · rw [mem_filter, update_of_ne hQ]
        refine ⟨fun hp => ⟨hp, ?_⟩, fun hp => hp.1⟩
        simp [h.self_of_invited ((h.invited p Q hloose).mpr hp), hQ]
      · exact .rfl
  · by_cases hQP : Q = P
    · rw [hQP, update_self]
    · rw [update_of_ne hQP] at hQ ⊢
      exact h.gone Q hQ
  · by_cases hQP : Q = P
    · grind
    · rw [update_of_ne hQP] at hQ ⊢
      exact h.led Q hQ
  · by_cases hQP : Q = P
    · rw [hQP, update_self]
    · rw [update_of_ne hQP]
      exact h.fresh Q hQ

/-! ## Invitations -/

/-- Invitations and parties are only taken away. -/
structure Shrinks (w w' : World) : Prop where
  invited : ∀ P p, p ∈ (w'.parties P).inviteList → p ∈ (w.parties P).inviteList
  party : ∀ p, w'.party p = w.party p ∨ w'.party p = none

theorem Shrinks.refl (w : World) : Shrinks w w := ⟨fun _ _ h => h, fun _ => .inl rfl⟩

theorem Shrinks.trans {w' w'' : World} (h : Shrinks w w') (h' : Shrinks w' w'') : Shrinks w w'' where
  invited P p hp := h.invited P p (h'.invited P p hp)
  party p := by
    rcases h'.party p with heq | hnone
    · rw [heq]
      exact h.party p
    · exact .inr hnone

theorem shrinks_disband (P : PartyId) (w : World) : Shrinks w (w.disband P) := by
  unfold World.disband
  split
  · rw [World.disbanded_eq]
    refine ⟨fun Q p hp => ?_, fun p => ?_⟩
    · dsimp only at hp
      by_cases hQ : Q = P
      · grind
      · rw [update_of_ne hQ] at hp
        exact hp
    · dsimp only
      split
      · exact .inr rfl
      · exact .inl rfl
  · exact ⟨fun _ _ hp => hp, fun _ => .inl rfl⟩

theorem Inv.disband (h : Inv none loose w) : Inv none loose (w.disband P) := by
  unfold World.disband
  split
  · exact h.ask.disbanded (.inl rfl)
  · exact h.ask

theorem Inv.setInvites (h : Inv torn loose w) (hself : (w.parties P).self = true) {invitees : List PlayerId}
    {invites : PlayerId → List PartyId}
    (hinvited : ∀ p Q, loose ≠ some p → (p ∈ (if Q = P then invitees else (w.parties Q).inviteList) ↔ Q ∈ invites p)) :
    Inv torn loose { w with
      parties := update w.parties P { w.parties P with inviteList := invitees }
      invitePartyList := invites } := by
  have hbelongs : ∀ p Q, Belongs (update w.parties P { w.parties P with inviteList := invitees } Q) p ↔ Belongs (w.parties Q) p := by
    intro p Q
    by_cases hQ : Q = P
    · rw [hQ, update_self]
      exact .rfl
    · rw [update_of_ne hQ]
  refine ⟨fun p Q hp => (hbelongs p Q).mpr (h.belongs p Q hp), fun p Q hp => h.party p Q ((hbelongs p Q).mp hp), fun Q => ?_,
    fun Q p hp => ?_, fun p Q hloose => ?_, fun Q hQ => ?_, fun Q hQ => ?_, fun Q hQ => ?_⟩
  all_goals
    dsimp only at *
    by_cases hQP : Q = P
  · rw [hQP, update_self]
    exact h.nodup P
  · rw [update_of_ne hQP]
    exact h.nodup Q
  · rw [hQP, update_self] at hp ⊢
    exact h.leader P p hp
  · rw [update_of_ne hQP] at hp ⊢
    exact h.leader Q p hp
  · rw [← hinvited p Q hloose, if_pos hQP, hQP, update_self]
  · rw [← hinvited p Q hloose, if_neg hQP, update_of_ne hQP]
  · grind
  · rw [update_of_ne hQP] at hQ ⊢
    exact h.gone Q hQ
  · rw [hQP, update_self]
    exact h.led P hself
  · rw [update_of_ne hQP] at hQ ⊢
    exact h.led Q hQ
  · rw [hQP] at hQ
    have hfresh := h.fresh P hQ
    rw [hself] at hfresh
    cases hfresh
  · rw [update_of_ne hQP]
    exact h.fresh Q hQ

namespace World

theorem removeInvite_of_not (hnot : player ∉ (w.parties P).inviteList) (removeFromPlayer : Bool) :
    w.removeInvite player removeFromPlayer P = (false, w) := by
  have hsame : (w.parties P).inviteList.filter (· ≠ player) = (w.parties P).inviteList := by
    rw [filter_eq_self]
    intro p hp
    simp only [ne_eq, decide_not, Bool.not_eq_true', decide_eq_false_iff_not]
    rintro rfl
    exact hnot hp
  unfold removeInvite modify
  dsimp only
  rw [hsame]
  simp [hnot]

/-- The invitation is gone, and then the party may be. -/
theorem removeInvite_of_mem (hmem : player ∈ (w.parties P).inviteList) (removeFromPlayer : Bool) :
    let w' : World := { w with
      parties := update w.parties P { w.parties P with inviteList := (w.parties P).inviteList.filter (· ≠ player) } }
    let w'' := if removeFromPlayer then w'.removePartyInvitation player P else w'
    (w.removeInvite player removeFromPlayer P).2 = if w''.empty P then w''.disband P else w'' := by
  unfold removeInvite
  simp [hmem, modify]

end World

theorem Inv.ite_disband (h : Inv none loose w) (b : Bool) : Inv none loose (if b then w.disband P else w) := by
  cases b with
  | false => exact h
  | true => exact h.disband

theorem shrinks_ite_disband (b : Bool) : Shrinks w (if b then w.disband P else w) := by
  cases b with
  | false => exact .refl w
  | true => exact shrinks_disband P w

theorem shrinks_removeInvite (removeFromPlayer : Bool) : Shrinks w (w.removeInvite player removeFromPlayer P).2 := by
  by_cases hmem : player ∈ (w.parties P).inviteList
  · rw [World.removeInvite_of_mem hmem]
    refine Shrinks.trans ?_ (shrinks_ite_disband _)
    have hfilter : ∀ Q p, p ∈ (update w.parties P
        { w.parties P with inviteList := (w.parties P).inviteList.filter (· ≠ player) } Q).inviteList →
          p ∈ (w.parties Q).inviteList := by
      grind
    cases removeFromPlayer with
    | false => exact ⟨hfilter, fun _ => .inl rfl⟩
    | true => exact ⟨hfilter, fun _ => .inl rfl⟩
  · rw [World.removeInvite_of_not hmem]
    exact .refl w

theorem Inv.removeInvite (h : Inv none none w) : Inv none none (w.removeInvite player true P).2 := by
  by_cases hmem : player ∈ (w.parties P).inviteList
  · rw [World.removeInvite_of_mem hmem]
    refine Inv.ite_disband (h.setInvites (h.self_of_invited hmem) fun p Q hloose => ?_) _
    rw [update_apply]
    by_cases hp : p = player
    · rw [if_pos hp, hp, mem_filter]
      by_cases hQ : Q = P
      · simp [hQ]
      · rw [if_neg hQ, h.invited player Q (fun hno => nomatch hno)]
        refine ⟨fun hin => ⟨hin, ?_⟩, fun hin => hin.1⟩
        simp [hQ, h.self_of_invited ((h.invited player Q (fun hno => nomatch hno)).mpr hin)]
    · rw [if_neg hp, ← h.invited p Q hloose]
      grind
  · rw [World.removeInvite_of_not hmem]
    exact h

theorem Inv.removeInvite_loose (h : Inv none (some player) w) : Inv none (some player) (w.removeInvite player false P).2 := by
  by_cases hmem : player ∈ (w.parties P).inviteList
  · rw [World.removeInvite_of_mem hmem]
    refine Inv.ite_disband (h.setInvites (h.self_of_invited hmem) fun p Q hp => ?_) _
    rw [← h.invited p Q hp]
    grind
  · rw [World.removeInvite_of_not hmem]
    exact h

theorem notMem_removeInvite (removeFromPlayer : Bool) : player ∉ ((w.removeInvite player removeFromPlayer P).2.parties P).inviteList := by
  by_cases hmem : player ∈ (w.parties P).inviteList
  · intro hp
    rw [World.removeInvite_of_mem hmem] at hp
    have hp := (shrinks_ite_disband _).invited P player hp
    cases removeFromPlayer with
    | false => simp at hp
    | true => simp [World.removePartyInvitation] at hp
  · rw [World.removeInvite_of_not hmem]
    exact hmem

theorem disband_parties_of_ne (hQ : Q ≠ P) : (w.disband P).parties Q = w.parties Q := by
  unfold World.disband
  split
  · rw [World.disbanded_eq]
    exact update_of_ne hQ _ _
  · rfl

theorem ite_disband_parties_of_ne (hQ : Q ≠ P) (b : Bool) : (if b then w.disband P else w).parties Q = w.parties Q := by
  cases b with
  | false => rfl
  | true => exact disband_parties_of_ne hQ

theorem removeInvite_parties_of_ne (hQ : Q ≠ P) (removeFromPlayer : Bool) :
    (w.removeInvite player removeFromPlayer P).2.parties Q = w.parties Q := by
  by_cases hmem : player ∈ (w.parties P).inviteList
  · rw [World.removeInvite_of_mem hmem]
    refine (ite_disband_parties_of_ne hQ _).trans ?_
    cases removeFromPlayer with
    | false => exact update_of_ne hQ _ _
    | true => exact update_of_ne hQ _ _
  · rw [World.removeInvite_of_not hmem]

/-! ## Clearing the invitations of a player -/

/-- The loop of `clearPartyInvitations` over the parties `l`. -/
def clearing (player : PlayerId) (l : List PartyId) (w : World) : World :=
  l.foldl (fun w Q => if (w.parties Q).self then (w.removeInvite player false Q).2 else w) w

theorem Inv.clearing (h : Inv none (some player) w) {l : List PartyId} (hl : ∀ Q, player ∈ (w.parties Q).inviteList → Q ∈ l) :
    Inv none (some player) (clearing player l w) ∧ Shrinks w (clearing player l w) ∧
      (∀ Q, player ∉ ((clearing player l w).parties Q).inviteList) ∧
      ∀ Q, player ∉ (w.parties Q).inviteList → (clearing player l w).parties Q = w.parties Q := by
  induction l generalizing w with
  | nil => exact ⟨h, .refl w, fun Q hp => (by simpa using hl Q hp), fun _ _ => rfl⟩
  | cons P l ih =>
    by_cases hself : (w.parties P).self = true
    · have hshrinks : Shrinks w (w.removeInvite player false P).2 := shrinks_removeInvite false
      obtain ⟨hinv, hrest, hnone, hother⟩ := ih (h.removeInvite_loose (P := P)) fun Q hp => by
        rcases mem_cons.mp (hl Q (hshrinks.invited Q player hp)) with rfl | hQ
        · exact absurd hp (notMem_removeInvite false)
        · exact hQ
      have hcons : Players.clearing player (P :: l) w = Players.clearing player l (w.removeInvite player false P).2 := by
        rw [Players.clearing, foldl_cons, if_pos hself]
        rfl
      rw [hcons]
      refine ⟨hinv, hshrinks.trans hrest, hnone, fun Q hQ => ?_⟩
      rw [hother Q fun hp => hQ (hshrinks.invited Q player hp)]
      by_cases hQP : Q = P
      · rw [hQP, World.removeInvite_of_not (hQP ▸ hQ)]
      · exact removeInvite_parties_of_ne hQP false
    · have hcons : Players.clearing player (P :: l) w = Players.clearing player l w := by
        rw [Players.clearing, foldl_cons, if_neg hself]
        rfl
      rw [hcons]
      refine ih h fun Q hp => ?_
      rcases mem_cons.mp (hl Q hp) with rfl | hQ
      · exact absurd (h.self_of_invited hp) hself
      · exact hQ

theorem Inv.clearPartyInvitations (h : Inv none none w) (player : PlayerId) :
    Inv none none (w.clearPartyInvitations player) ∧ Shrinks w (w.clearPartyInvitations player) ∧
      (∀ Q, player ∉ ((w.clearPartyInvitations player).parties Q).inviteList) ∧
      ∀ Q, player ∉ (w.parties Q).inviteList → (w.clearPartyInvitations player).parties Q = w.parties Q := by
  have hloose : Inv none (some player) w :=
    { h with invited := fun p P _ => h.invited p P (fun hno => nomatch hno) }
  obtain ⟨hinv, hshrinks, hnone, hother⟩ := hloose.clearing (l := w.invitePartyList player)
    fun Q hp => (h.invited player Q (fun hno => nomatch hno)).mp hp
  refine ⟨{ hinv with invited := fun p P _ => ?_ },
    ⟨hshrinks.invited, hshrinks.party⟩, hnone, hother⟩
  show p ∈ ((Players.clearing player (w.invitePartyList player) w).parties P).inviteList ↔
    P ∈ update (Players.clearing player (w.invitePartyList player) w).invitePartyList player [] p
  rw [update_apply]
  split
  · next hp =>
    rw [hp]
    exact ⟨fun hp => absurd hp (hnone P), fun hp => nomatch hp⟩
  · next hp => exact hinv.invited p P fun heq => hp (Option.some.inj heq).symm

/-! ## Members -/

structure Seated (torn : Option PartyId) (P : PartyId) (old party : Party) (before after : PlayerId → Option PartyId) : Prop where
  self : party.self = true
  inviteList : party.inviteList = old.inviteList
  led : party.leader.isSome
  nodup : party.memberList.Nodup
  leader : ∀ p, party.leader = some p → p ∉ party.memberList
  belongs : ∀ p, after p = some P → Belongs party p
  party : ∀ p, Belongs party p → after p = some P ∨ (torn = some P ∧ after p = none)
  others : ∀ p Q, Q ≠ P → (after p = some Q ↔ before p = some Q)

theorem Inv.setMembers (h : Inv none loose w) {party : Party} {pointers : PlayerId → Option PartyId} {made : Nat}
    (hseated : Seated torn P (w.parties P) party w.party pointers) (hmade : w.made ≤ made) (hP : P < made) :
    Inv torn loose { w with parties := update w.parties P party, party := pointers, made := made } := by
  refine ⟨fun p Q hp => ?_, fun p Q hp => ?_, fun Q => ?_, fun Q p hp => ?_, fun p Q hloose => ?_, fun Q hQ => ?_, fun Q hQ => ?_,
    fun Q hQ => ?_⟩
  all_goals
    dsimp only at *
    by_cases hQP : Q = P
  · rw [hQP, update_self]
    exact hseated.belongs p (hQP ▸ hp)
  · rw [update_of_ne hQP]
    exact h.belongs p Q ((hseated.others p Q hQP).mp hp)
  · rw [hQP, update_self] at hp
    rw [hQP]
    exact hseated.party p hp
  · rw [update_of_ne hQP] at hp
    rcases h.party p Q hp with hp | ⟨hno, -⟩
    · exact .inl ((hseated.others p Q hQP).mpr hp)
    · cases hno
  · rw [hQP, update_self]
    exact hseated.nodup
  · rw [update_of_ne hQP]
    exact h.nodup Q
  · rw [hQP, update_self] at hp ⊢
    exact hseated.leader p hp
  · rw [update_of_ne hQP] at hp ⊢
    exact h.leader Q p hp
  · rw [hQP, update_self, hseated.inviteList]
    exact h.invited p P hloose
  · rw [update_of_ne hQP]
    exact h.invited p Q hloose
  · grind [update_self, hseated.self]
  · rw [update_of_ne hQP] at hQ ⊢
    exact h.gone Q hQ
  · rw [hQP, update_self]
    exact hseated.led
  · rw [update_of_ne hQP] at hQ ⊢
    exact h.led Q hQ
  · exact absurd (hQP ▸ hQ) (Nat.not_le.mpr hP)
  · rw [update_of_ne hQP]
    exact h.fresh Q (Nat.le_trans hmade hQ)

theorem Inv.lt_made (h : Inv torn loose w) (hself : (w.parties P).self = true) : P < w.made := by
  by_contra hle
  rw [h.fresh P (Nat.not_lt.mp hle)] at hself
  cases hself

theorem Inv.party_iff (h : Inv none loose w) (p : PlayerId) (P : PartyId) : w.party p = some P ↔ Belongs (w.parties P) p := by
  constructor
  · exact h.belongs p P
  intro hp
  rcases h.party p P hp with hp | ⟨hno, -⟩
  · exact hp
  · cases hno

theorem Inv.create (h : Inv none none w) {leader : PlayerId} (hnone : w.party leader = none) : Inv none none (w.create leader) := by
  have hgone : w.parties w.made = {} := h.gone _ (h.fresh _ le_rfl)
  refine h.setMembers (P := w.made) ⟨rfl, ?_, rfl, nodup_nil, (fun p _ hp => nomatch hp), fun p hp => ?_, fun p hp => ?_,
    fun p Q hQ => ?_⟩ (Nat.le_succ _) (Nat.lt_succ_self _)
  · rw [hgone]
  · rw [update_apply] at hp
    split at hp
    · next heq =>
      rw [heq]
      exact .inl rfl
    · have hold := h.belongs p _ hp
      rw [hgone] at hold
      rcases hold with hold | hold
      · cases hold
      · cases hold
  · rcases hp with hp | hp
    · obtain rfl := Option.some.inj hp
      exact .inl (update_self ..)
    · cases hp
  · dsimp only [World.modify]
    grind

theorem Inv.passed (h : Inv none none w) (hp : w.party player = some P) (hne : (w.parties P).leader ≠ some player) :
    Inv none none (w.modify P fun party =>
      { party with leader := some player, memberList := (w.parties P).leader.toList ++ party.memberList.filter (· ≠ player) }) := by
  have hself := h.self_of_belongs (h.belongs player P hp)
  have hold : ∀ p, Belongs { w.parties P with
      leader := some player, memberList := (w.parties P).leader.toList ++ (w.parties P).memberList.filter (· ≠ player) } p ↔
        Belongs (w.parties P) p := by
    intro p
    have hmember := (h.belongs player P hp).resolve_left hne
    simp only [Belongs, Option.some.injEq, mem_append, Option.mem_toList, mem_filter, decide_eq_true_eq]
    constructor
    · grind
    · grind
  refine h.setMembers (P := P) ⟨hself, rfl, rfl, ?_, fun p hleader => ?_, fun p hp => ?_, fun p hp => ?_, fun _ _ _ => Iff.rfl⟩
    le_rfl (h.lt_made hself)
  · have hone : (w.parties P).leader.toList.Nodup := by
      cases (w.parties P).leader with
      | none => exact nodup_nil
      | some l => exact nodup_singleton l
    refine List.Nodup.append hone ((h.nodup P).filter _) fun p hp hmem => ?_
    exact h.leader P p (Option.mem_toList.mp hp) (mem_filter.mp hmem).1
  · grind
  · exact (hold p).mpr (h.belongs p P hp)
  · exact .inl ((h.party_iff p P).mpr ((hold p).mp hp))

/-- Who leaves is gone on both sides, but a leader still leads. -/
theorem Inv.left (h : Inv none none w) (hp : Belongs (w.parties P) player) :
    Inv (if (w.parties P).leader = some player then some P else none) none
      ((w.modify P fun party => { party with memberList := party.memberList.filter (· ≠ player) }).setParty player none) := by
  have hself := h.self_of_belongs hp
  have hparty := (h.party_iff player P).mpr hp
  refine h.setMembers (P := P) ⟨hself, rfl, h.led P hself, (h.nodup P).filter _, fun p hleader hmem => ?_, fun p hp => ?_, fun p hp => ?_,
    fun p Q hQ => ?_⟩ le_rfl (h.lt_made hself)
  · exact h.leader P p hleader (mem_filter.mp hmem).1
  · rw [update_apply] at hp
    split at hp
    · cases hp
    next hne =>
    rcases h.belongs p P hp with hbelongs | hbelongs
    · exact .inl hbelongs
    · exact .inr (mem_filter.mpr ⟨hbelongs, by simpa using hne⟩)
  · rw [update_apply]
    by_cases heq : p = player
    · rw [if_pos heq]
      rw [heq] at hp
      rcases hp with hp | hp
      · exact .inr ⟨if_pos hp, rfl⟩
      · simp at hp
    · rw [if_neg heq]
      refine .inl ((h.party_iff p P).mpr ?_)
      rcases hp with hp | hp
      · exact .inl hp
      · exact .inr (mem_filter.mp hp).1
  · rw [update_apply]
    split
    · next heq =>
      rw [heq, hparty]
      exact ⟨(fun hno => nomatch hno), fun hno => absurd (Option.some.inj hno).symm hQ⟩
    · exact .rfl

theorem Inv.joined (h : Inv none none w) (hself : (w.parties P).self = true) (hnone : w.party player = none) :
    Inv none none ((w.modify P fun party => { party with memberList := party.memberList ++ [player] }).setParty player (some P)) := by
  have hnot : ∀ Q, ¬Belongs (w.parties Q) player := by
    intro Q hQ
    have hparty := (h.party_iff player Q).mpr hQ
    rw [hnone] at hparty
    cases hparty
  refine h.setMembers (P := P) ⟨hself, rfl, h.led P hself, ?_, fun p hleader hmem => ?_, fun p hp => ?_, fun p hp => ?_,
    fun p Q hQ => ?_⟩ le_rfl (h.lt_made hself)
  · refine List.Nodup.append (h.nodup P) (nodup_singleton _) fun p hp hmem => ?_
    rw [mem_singleton.mp hmem] at hp
    exact hnot P (.inr hp)
  · rcases mem_append.mp hmem with hmem | hmem
    · exact h.leader P p hleader hmem
    · rw [mem_singleton.mp hmem] at hleader
      exact hnot P (.inl hleader)
  · rw [update_apply] at hp
    split at hp
    · next heq => exact .inr (by simp [heq])
    · rcases h.belongs p P hp with hbelongs | hbelongs
      · exact .inl hbelongs
      · exact .inr (mem_append_left _ hbelongs)
  · rw [update_apply]
    split
    · exact .inl rfl
    next hne =>
    refine .inl ((h.party_iff p P).mpr ?_)
    rcases hp with hp | hp
    · exact .inl hp
    · rcases mem_append.mp hp with hp | hp
      · exact .inr hp
      · exact absurd (mem_singleton.mp hp) hne
  · rw [update_apply]
    split
    · next heq =>
      rw [heq, hnone]
      exact ⟨fun hno => absurd (Option.some.inj hno).symm hQ, fun hno => nomatch hno⟩
    · exact .rfl

/-! ## Calls as the game makes them -/

/-- A leader who leaves without one to follow, and the script that may veto the disband. -/
def LeavesVetoed (w : World) (player : PlayerId) (forceRemove : Bool) (P : PartyId) : Prop :=
  (w.parties P).leader = some player ∧ w.missingLeader player P = true ∧ (forceRemove || w.answer) = true ∧ w.ask.answer = false

/-- The calls that the game makes, without the disband that leaves the leader behind. -/
def Made (w : World) : Call → Prop
  | .create leader => w.getParty leader = none
  | .invitePlayer player P => (w.parties P).self = true ∧ w.getParty player ≠ some P
  | .joinParty player P => (w.parties P).self = true ∧ w.getParty player = none
  | .leaveParty player forceRemove P => (w.parties P).self = true ∧ ¬LeavesVetoed w player forceRemove P
  | .removeInvite _ P => (w.parties P).self = true
  | .revokeInvitation _ P => (w.parties P).self = true
  | .passPartyLeadership _ _ P => (w.parties P).self = true
  | .disband P => (w.parties P).self = true

/-- Nobody is invited to his own party. -/
def Outside (w : World) : Prop := ∀ P p, p ∈ (w.parties P).inviteList → w.party p ≠ some P

theorem Shrinks.outside {w' : World} (h : Shrinks w w') (hout : Outside w) : Outside w' := by
  intro P p hp
  rcases h.party p with heq | hnone
  · rw [heq]
    exact hout P p (h.invited P p hp)
  · rw [hnone]
    exact fun hno => nomatch hno

theorem Inv.invitePlayer (h : Inv none none w) (hself : (w.parties P).self = true) (player : PlayerId) :
    Inv none none (w.invitePlayer player P).2 := by
  unfold World.invitePlayer World.isPlayerInvited
  split
  · exact h
  next hnot =>
  have hnot : player ∉ (w.parties P).inviteList := by simpa using hnot
  obtain ⟨l, hl⟩ := Option.isSome_iff_exists.mp (h.led P hself)
  rw [hl]
  have hlist : P ∉ w.invitePartyList player := mt (h.invited player P (fun hno => nomatch hno)).mpr hnot
  dsimp only [World.addPartyInvitation, World.modify]
  rw [if_neg hlist]
  refine h.setInvites hself fun p Q hloose => ?_
  rw [update_apply]
  by_cases hp : p = player
  · rw [if_pos hp, hp, mem_cons, ← h.invited player Q (fun hno => nomatch hno)]
    by_cases hQ : Q = P <;> simp [hQ]
  · rw [if_neg hp, ← h.invited p Q hloose]
    grind

theorem Outside.invitePlayer (h : Outside w) (hne : w.party player ≠ some P) : Outside (w.invitePlayer player P).2 := by
  unfold World.invitePlayer
  split
  · exact h
  split
  · exact h
  intro Q p hp
  have hparty : ∀ w : World, (w.addPartyInvitation player P).party = w.party := by
    grind [World.addPartyInvitation]
  have hparties : ∀ w : World, (w.addPartyInvitation player P).parties = w.parties := by
    intro w
    unfold World.addPartyInvitation
    split
    · rfl
    · rfl
  rw [hparties] at hp
  rw [hparty]
  dsimp only [World.modify] at hp ⊢
  by_cases hQ : Q = P
  · rw [hQ, update_self, mem_append, mem_singleton] at hp
    rw [hQ]
    rcases hp with hp | rfl
    · exact h P p hp
    · exact hne
  · rw [update_of_ne hQ] at hp
    exact h Q p hp

theorem shrinks_modify {f : Party → Party} (hf : ∀ party, (f party).inviteList = party.inviteList) : Shrinks w (w.modify P f) := by
  refine ⟨fun Q p hp => ?_, fun _ => .inl rfl⟩
  dsimp only [World.modify] at hp
  grind

theorem shrinks_ask : Shrinks w w.ask := ⟨fun _ _ hp => hp, fun _ => .inl rfl⟩

theorem shrinks_setParty : Shrinks w (w.setParty player none) := by
  refine ⟨fun _ _ hp => hp, fun p => ?_⟩
  dsimp only [World.setParty]
  rw [update_apply]
  split
  · exact .inr rfl
  · exact .inl rfl

theorem Inv.passPartyLeadership (h : Inv none none w) (player : PlayerId) (forceRemove : Bool) (P : PartyId) :
    Inv none none (w.passPartyLeadership player forceRemove P).2 ∧ Shrinks w (w.passPartyLeadership player forceRemove P).2 := by
  unfold World.passPartyLeadership
  dsimp only
  split
  · exact ⟨h, .refl w⟩
  next hmember =>
  obtain ⟨hne, hparty⟩ := not_or.mp hmember
  rw [h.getParty, not_not] at hparty
  split
  · exact ⟨h.ask, shrinks_ask⟩
  · refine ⟨h.ask.passed hparty hne, shrinks_ask.trans ?_⟩
    dsimp only
    exact shrinks_modify fun _ => rfl

theorem Inv.leaves (h : Inv none none w) (hp : Belongs (w.parties P) player) (missing : Bool)
    (hmissing : (w.parties P).leader = some player → missing = true ∧ w.answer = true) :
    let w' := (w.modify P fun party => { party with memberList := party.memberList.filter (· ≠ player) }).setParty player none
    Inv none none (if missing || w'.empty P then w'.disband P else w') ∧ Shrinks w (if missing || w'.empty P then w'.disband P else w') := by
  intro w'
  have hleft := h.left hp
  have hshrinks : Shrinks w w' := by
    refine Shrinks.trans ?_ shrinks_setParty
    exact shrinks_modify fun _ => rfl
  refine ⟨?_, hshrinks.trans (shrinks_ite_disband _)⟩
  by_cases hleader : (w.parties P).leader = some player
  · obtain ⟨hmissing, hanswer⟩ := hmissing hleader
    rw [if_pos hleader] at hleft
    rw [hmissing, Bool.true_or, if_pos rfl, World.disband, if_pos (show w'.answer = true from hanswer)]
    exact hleft.ask.disbanded (.inr rfl)
  · rw [if_neg hleader] at hleft
    exact hleft.ite_disband _

theorem Inv.leaveParty (h : Inv none none w) (hself : (w.parties P).self = true) {forceRemove : Bool}
    (hveto : ¬LeavesVetoed w player forceRemove P) :
    Inv none none (w.leaveParty player forceRemove P).2 ∧ Shrinks w (w.leaveParty player forceRemove P).2 := by
  unfold World.leaveParty
  dsimp only
  split
  · exact ⟨h, .refl w⟩
  next hmember =>
  have hbelongs : Belongs (w.parties P) player := by
    by_cases hleader : (w.parties P).leader = some player
    · exact .inl hleader
    · refine h.belongs player P ?_
      rw [← h.getParty]
      exact not_not.mp fun hno => hmember ⟨hno, hleader⟩
  split
  · exact ⟨h.ask, shrinks_ask⟩
  next hallowed =>
  have hallowed : (forceRemove || w.answer) = true := by
    cases forceRemove <;> cases hanswer : w.answer <;> simp_all
  obtain ⟨l, hl⟩ := Option.isSome_iff_exists.mp (h.led P hself)
  have hnotNone : (w.parties P).leader ≠ none := by
    simp [hl]
  by_cases hleader : (w.parties P).leader = some player
  · rw [decide_eq_true (.inl hleader), Bool.true_and]
    cases hmissing : w.ask.missingLeader player P with
    | true =>
      have hanswer : w.ask.answer = true := by
        by_contra hno
        exact hveto ⟨hleader, hmissing, hallowed, by simpa using hno⟩
      obtain ⟨hinv, hshrinks⟩ := h.ask.leaves hbelongs true fun _ => ⟨rfl, hanswer⟩
      cases (w.ask.validMembers player P).head? with
      | none => exact ⟨hinv, shrinks_ask.trans hshrinks⟩
      | some nextLeader => exact ⟨hinv, shrinks_ask.trans hshrinks⟩
    | false =>
      cases hnext : (w.ask.validMembers player P).head? with
      | none =>
        rw [head?_eq_none_iff] at hnext
        rw [World.missingLeader, hnext] at hmissing
        simp at hmissing
      | some nextLeader =>
        -- The next leader is a member, so leadership is passed on, and the player is a member then.
        have hmem := mem_filter.mp (mem_of_head? hnext)
        have hne : nextLeader ≠ player := by simpa using hmem.2
        obtain ⟨hpass, hpassed⟩ := h.ask.passPartyLeadership nextLeader true P
        have hlead : ((w.ask.passPartyLeadership nextLeader true P).2.parties P).leader = some nextLeader ∧
            Belongs ((w.ask.passPartyLeadership nextLeader true P).2.parties P) player := by
          have hparty : w.ask.getParty nextLeader = some P := by
            rw [h.ask.getParty]
            exact (h.ask.party_iff nextLeader P).mpr (.inr hmem.1)
          have hnot : ¬((w.ask.parties P).leader = some nextLeader ∨ w.ask.getParty nextLeader ≠ some P) := by
            rw [hparty, show (w.ask.parties P).leader = some player from hleader]
            simpa using Ne.symm hne
          unfold World.passPartyLeadership
          rw [if_neg hnot, if_neg (by simp), show (w.ask.parties P).leader = some player from hleader]
          simp [World.modify, Belongs]
        obtain ⟨hinv, hshrinks⟩ := hpass.leaves hlead.2 false fun heq => by
          rw [hlead.1] at heq
          exact absurd (Option.some.inj heq) hne
        exact ⟨hinv, shrinks_ask.trans (hpassed.trans hshrinks)⟩
  · have hleaves : ¬((w.parties P).leader = some player ∨ (w.parties P).leader = none) := not_or.mpr ⟨hleader, hnotNone⟩
    rw [decide_eq_false hleaves, Bool.false_and]
    obtain ⟨hinv, hshrinks⟩ := h.ask.leaves hbelongs false fun heq => absurd heq hleader
    cases (w.ask.validMembers player P).head? with
    | none => exact ⟨hinv, shrinks_ask.trans hshrinks⟩
    | some nextLeader => exact ⟨hinv, shrinks_ask.trans hshrinks⟩

theorem Inv.joinParty (h : Inv none none w) (hout : Outside w) (hself : (w.parties P).self = true) (hnone : w.party player = none) :
    Inv none none (w.joinParty player P).2 ∧ Outside (w.joinParty player P).2 := by
  unfold World.joinParty
  obtain ⟨l, hl⟩ := Option.isSome_iff_exists.mp (h.led P hself)
  rw [hl]
  dsimp only
  split
  · exact ⟨h.ask, hout⟩
  · -- The leader's invitations may be cleared; the party is not among them.
    obtain ⟨w₁, hw₁, hinv, hshrinks, hparty⟩ : ∃ w₁, (if (w.ask.parties P).memberList.isEmpty = true then
        w.ask.clearPartyInvitations l else w.ask) = w₁ ∧ Inv none none w₁ ∧ Shrinks w w₁ ∧ w₁.parties P = w.parties P := by
      refine ⟨_, rfl, ?_⟩
      split
      · obtain ⟨hinv, hshrinks, -, hother⟩ := h.ask.clearPartyInvitations l
        refine ⟨hinv, shrinks_ask.trans hshrinks, hother P fun hl' => hout P l hl' ?_⟩
        exact (h.party_iff l P).mpr (.inl hl)
      · exact ⟨h.ask, shrinks_ask, rfl⟩
    rw [hw₁]
    have hnone₁ : w₁.party player = none := by
      rcases hshrinks.party player with heq | heq
      · rw [heq, hnone]
      · exact heq
    have hjoined := hinv.joined (hparty ▸ hself) hnone₁
    obtain ⟨hcleared, hshrinks', hgone, -⟩ := hjoined.clearPartyInvitations player
    have hlist : (((w₁.modify P fun party => { party with memberList := party.memberList ++ [player] }).setParty player
        (some P)).clearPartyInvitations player).invitePartyList player = [] := update_self ..
    generalize hw₂ : ((w₁.modify P fun party => { party with memberList := party.memberList ++ [player] }).setParty player
        (some P)).clearPartyInvitations player = w₂ at hcleared hshrinks' hgone hlist ⊢
    have hsame : w₂.removePartyInvitation player P = w₂ := by
      unfold World.removePartyInvitation
      rw [hlist, filter_nil, ← hlist, update_eq_self]
    rw [hsame]
    refine ⟨hcleared, fun Q p hp => ?_⟩
    have hne : p ≠ player := by
      rintro rfl
      exact hgone Q hp
    have hold : p ∈ (w₁.parties Q).inviteList := by
      have hp := hshrinks'.invited Q p hp
      dsimp only [World.modify, World.setParty] at hp
      grind
    rcases hshrinks'.party p with heq | hgone
    · rw [heq]
      dsimp only [World.modify, World.setParty]
      rw [update_of_ne hne]
      exact hshrinks.outside hout Q p hold
    · simp [hgone]

theorem Inv.step (h : Inv none none w) (hout : Outside w) {c : Call} (hmade : Made w c) :
    Inv none none (step w c) ∧ Outside (step w c) := by
  cases c with
  | create leader =>
    have hnone : w.party leader = none := h.getParty leader ▸ hmade
    refine ⟨h.create hnone, fun P p hp => ?_⟩
    dsimp only [Players.step, World.create, World.modify, World.setParty] at hp ⊢
    by_cases hP : P = w.made
    · grind
    rw [update_of_ne hP] at hp
    rw [update_apply]
    split
    · exact fun heq => hP (Option.some.inj heq).symm
    · exact hout P p hp
  | invitePlayer player P => exact ⟨h.invitePlayer hmade.1 player, hout.invitePlayer (h.getParty player ▸ hmade.2)⟩
  | joinParty player P => exact h.joinParty hout hmade.1 (h.getParty player ▸ hmade.2)
  | removeInvite player P => exact ⟨h.removeInvite, (shrinks_removeInvite true).outside hout⟩
  | revokeInvitation player P =>
    show Inv none none (w.revokeInvitation player P) ∧ Outside (w.revokeInvitation player P)
    unfold World.revokeInvitation
    split
    · exact ⟨h.ask.removeInvite, (shrinks_ask.trans (shrinks_removeInvite true)).outside hout⟩
    · exact ⟨h.ask, hout⟩
  | passPartyLeadership player forceRemove P =>
    obtain ⟨hinv, hshrinks⟩ := h.passPartyLeadership player forceRemove P
    exact ⟨hinv, hshrinks.outside hout⟩
  | leaveParty player forceRemove P =>
    obtain ⟨hinv, hshrinks⟩ := h.leaveParty hmade.1 hmade.2
    exact ⟨hinv, hshrinks.outside hout⟩
  | disband P => exact ⟨h.disband, (shrinks_disband P w).outside hout⟩

theorem inv_start (h : start w) : Inv none none w ∧ Outside w := by
  obtain ⟨script, rfl⟩ := h
  refine ⟨⟨(fun _ _ hp => nomatch hp), fun _ _ hp => ?_, fun _ => nodup_nil, (fun _ _ hp => nomatch hp), fun _ _ _ => ?_,
    fun _ _ => rfl, (fun _ hp => nomatch hp), fun _ _ => rfl⟩, fun _ _ hp => nomatch hp⟩
  · rcases hp with hp | hp
    · cases hp
    · cases hp
  · exact ⟨(fun hp => nomatch hp), fun hp => nomatch hp⟩

/-- Both sides of every party and every invitation agree. -/
structure Consistent (w : World) : Prop where
  party : ∀ p P, w.getParty p = some P ↔ (w.parties P).leader = some p ∨ p ∈ (w.parties P).memberList
  nodup : ∀ P, (w.parties P).memberList.Nodup
  leader : ∀ P p, (w.parties P).leader = some p → p ∉ (w.parties P).memberList
  invited : ∀ p P, p ∈ (w.parties P).inviteList ↔ P ∈ w.invitePartyList p

theorem Inv.consistent (h : Inv none none w) : Consistent w where
  party p P := by
    rw [h.getParty]
    exact h.party_iff p P
  nodup := h.nodup
  leader := h.leader
  invited p P := h.invited p P fun hno => nomatch hno

/-- Parties stay consistent under the calls that the game makes, whatever the scripts answer. -/
theorem membership_consistent (h : Reach start step Made w) : Consistent w := by
  have hinv : Inv none none w ∧ Outside w := by
    refine h.inv (I := fun w => Inv none none w ∧ Outside w) (fun _ => inv_start) fun w c hmade hinv => ?_
    exact hinv.1.step hinv.2 hmade
  exact hinv.1.consistent

/-- A party of three with one more invited, and then without its leader. -/
theorem party_of_three_consistent :
    Consistent (run step { script := fun _ => true }
      [.create 1, .invitePlayer 2 0, .joinParty 2 0, .invitePlayer 3 0, .joinParty 3 0, .invitePlayer 4 0, .leaveParty 1 false 0]) := by
  refine membership_consistent (Reach.run (.init ⟨_, rfl⟩) ⟨rfl, ⟨rfl, by decide⟩, ⟨rfl, rfl⟩, ⟨rfl, by decide⟩, ⟨rfl, rfl⟩,
    ⟨rfl, by decide⟩, ⟨rfl, fun hveto => absurd hveto.2.1 (by decide)⟩, trivial⟩)

def Exists (w : World) : Call → Prop
  | .create _ => True
  | .invitePlayer _ P => (w.parties P).self = true
  | .joinParty _ P => (w.parties P).self = true
  | .removeInvite _ P => (w.parties P).self = true
  | .revokeInvitation _ P => (w.parties P).self = true
  | .passPartyLeadership _ _ P => (w.parties P).self = true
  | .leaveParty _ _ P => (w.parties P).self = true
  | .disband P => (w.parties P).self = true

/-- A vetoed disband leaves a leader who does not have the party; and a player may join twice,
    lead two parties, or join one that is disbanded because its leader was invited to it. -/
theorem any_calls_inconsistent :
    (∃ w, Reach start step Exists w ∧ (w.parties 0).leader = some 1 ∧ w.getParty 1 = none) ∧
      (∃ w, Reach start step Exists w ∧ ¬(w.parties 0).memberList.Nodup) ∧
      (∃ w, Reach start step Exists w ∧ (w.parties 0).leader = some 1 ∧ w.getParty 1 = some 1) ∧
      ∃ w, Reach start step Exists w ∧ 2 ∈ (w.parties 0).memberList ∧ w.getParty 2 = none := by
  refine ⟨?_, ?_, ?_, ?_⟩
  · refine ⟨run step { script := fun n => n = 0 } [.create 1, .leaveParty 1 false 0], ?_, by decide, by decide⟩
    exact Reach.run (.init ⟨_, rfl⟩) ⟨trivial, rfl, trivial⟩
  · refine ⟨run step { script := fun _ => true } [.create 1, .joinParty 2 0, .joinParty 2 0], ?_, by decide⟩
    exact Reach.run (.init ⟨_, rfl⟩) ⟨trivial, rfl, rfl, trivial⟩
  · refine ⟨run step { script := fun _ => true } [.create 1, .create 1], ?_, by decide, by decide⟩
    exact Reach.run (.init ⟨_, rfl⟩) ⟨trivial, trivial, trivial⟩
  · refine ⟨run step { script := fun _ => true } [.create 1, .invitePlayer 1 0, .joinParty 2 0], ?_, by decide, by decide⟩
    exact Reach.run (.init ⟨_, rfl⟩) ⟨trivial, rfl, rfl, trivial⟩

end Backlands.Players
