/-
  Backlands.Houses.Rent — collecting the rent (src/house.cpp: `Houses::payHouses`).

  A run visits every house; each visit loads its own copy of the owner, or takes the guild, and
  either charges the rent, leaves a warning, or takes the house away. What a visit finds (`finding`)
  is a function of the state before it and of what the server answers.

  Proved: along every sequence of runs and balances in which each visit gets its answers
  (`Answered`), a house whose owner exists is lost only on a visit that finds the rent unpaid after
  seven unpaid ones since the last payment, and its paid-until date moves exactly when the rent is
  off a balance that is in the database (`rent_kept`). Counterexample: `guildhall_lost_at_once`.
-/

import Backlands.Houses.Owner
import Backlands.Lib.Runs

namespace Backlands.Houses

open Backlands.Lib Option List

inductive RentPeriod where
  | DAILY
  | WEEKLY
  | MONTHLY
  | YEARLY
  | DEV
  | NEVER
  deriving DecidableEq, Repr

def increasePaidUntil : RentPeriod → Int → Int
  | .DAILY, paidUntil => paidUntil + 24 * 60 * 60
  | .WEEKLY, paidUntil => paidUntil + 7 * 24 * 60 * 60
  | .MONTHLY, paidUntil => paidUntil + 30 * 24 * 60 * 60
  | .YEARLY, paidUntil => paidUntil + 365 * 24 * 60 * 60
  | .DEV, paidUntil => paidUntil + 5 * 60
  | .NEVER, paidUntil => paidUntil

def getRentPeriod : RentPeriod → String
  | .DAILY => "daily"
  | .WEEKLY => "weekly"
  | .MONTHLY => "monthly"
  | .YEARLY => "annual"
  | .DEV => "dev"
  | .NEVER => "never"

/-- The last letter is left with `warnings` at six; at seven the house is taken. -/
def MAX_WARNINGS : UInt32 := 7

/-- How one visit fares. `loadPlayer` is the load of the owner (of the guild's owner, for a
    guildhall), `saved` whether its copy is saved, `guildUpdate` whether the new balance of
    the guild is written. -/
structure VisitEnv where
  loadPlayer : Bool
  loadGuild : Bool
  saved : Bool
  guildUpdate : Bool
  transaction : Bool
  owner : OwnerEnv

structure Run where
  rentPeriod : RentPeriod
  currentTime : Int
  towns : UInt32 → Bool

variable {η ι : Type*}

def due (r : Run) (h : House η) : Bool :=
  r.rentPeriod != .NEVER && h.owner != 0 && h.rent != 0 && decide (h.paidUntil ≤ r.currentTime) && r.towns h.townId

def warning (r : Run) (h : House η) : String :=
  let thing := match h.type with
    | .NORMAL => "house"
    | .GUILDHALL => "guildhall"
  "Warning! \nThe " ++ getRentPeriod r.rentPeriod ++ " rent of " ++ toString h.rent ++ " gold for your " ++ thing ++
    " \"" ++ h.name ++ "\" is payable. Have it within " ++ toString (MAX_WARNINGS - h.rentWarnings) ++
    " days or you will lose this " ++ thing ++ "."

def World.setHouse (w : World η ι) (id : UInt32) (h : House η) : World η ι := { w with houses := w.houses.set id h }

def Player.post (g : Goods η ι) (box : Mailbox) (text : String) (p : Player ι) : Player ι :=
  { p with belongings := g.letter box text p.belongings }

def Player.pay (rent : UInt32) (p : Player ι) : Player ι := { p with bankBalance := p.bankBalance - rent.toUInt64 }

/-- The rent is not there: a warning, or the house is taken. The copy of the player is saved
    with what it got. -/
def unpaidVisit (g : Goods η ι) (r : Run) (env : VisitEnv) (id : UInt32) (h : House η) (box : Mailbox) (p : Player ι)
    (w : World η ι) : World η ι :=
  if h.rentWarnings < MAX_WARNINGS then
    { w.setHouse id { h with rentWarnings := h.rentWarnings + 1 } with
      players := savePlayer env.saved (p.post g box (warning r h)) w.players }
  else
    let t := setOwner g id 0 true (some p) env.owner w
    { t.2.1 with players := savePlayer env.saved (t.2.2.getD p) t.2.1.players }

def paidVisit (r : Run) (h : House η) : House η := { h with paidUntil := increasePaidUntil r.rentPeriod r.currentTime }

/-- A visit to a house of `HOUSE_TYPE_NORMAL`. -/
def visitNormal (g : Goods η ι) (r : Run) (env : VisitEnv) (id : UInt32) (h : House η) (w : World η ι) : World η ι :=
  match loadPlayerById env.loadPlayer h.owner w.players with
  | none => (setOwner g id 0 true none env.owner w).2.1
  | some p =>
    if h.rent.toUInt64 ≤ p.bankBalance then
      { w.setHouse id { paidVisit r h with rentWarnings := 0 } with
        players := savePlayer env.saved (p.pay h.rent) w.players }
    else unpaidVisit g r env id h .inbox p w

/-- `Guild::setBankBalance`: the object changes, its row only if the statement is answered. -/
def setGuildBalance (answered : Bool) (id : UInt32) (guild : Guild) (balance : UInt64) (w : World η ι) : World η ι :=
  { w with
    registry := if (w.registry.find? id).isSome then w.registry.set id { guild with bankBalance := balance } else w.registry
    guilds := if answered then w.guilds.update (fun k _ => k = id) (fun r => { r with balance := balance }) else w.guilds }

def visitGuildhall (g : Goods η ι) (r : Run) (env : VisitEnv) (id : UInt32) (h : House η) (w : World η ι) :
    World η ι :=
  match findGuild env.loadGuild h.owner w with
  | none => (setOwner g id 0 true none env.owner w).2.1
  | some guild =>
    if h.rent.toUInt64 ≤ guild.bankBalance then
      let w' := setGuildBalance env.guildUpdate h.owner guild (guild.bankBalance - h.rent.toUInt64) w
      { w'.setHouse id (paidVisit r h) with
        guild_transactions :=
          if env.transaction then
            w.guild_transactions ++ [⟨h.owner, "WITHDRAW", "RENT", h.rent, r.currentTime⟩]
          else w.guild_transactions }
    else
      match loadPlayerById env.loadPlayer guild.ownerGUID w.players with
      | none => (setOwner g id 0 true none env.owner w).2.1
      | some p => unpaidVisit g r env id h (.depotLocker h.townId) p w

/-- The loop body of `payHouses`. -/
def visit (g : Goods η ι) (r : Run) (env : VisitEnv) (id : UInt32) (w : World η ι) : World η ι :=
  match w.houses.find? id with
  | none => w
  | some h =>
    if due r h then
      match h.type with
      | .NORMAL => visitNormal g r env id h w
      | .GUILDHALL => visitGuildhall g r env id h w
    else w

/-! ## What a visit finds -/

inductive Finding where
  | skipped
  | missing
  | paid (balance : UInt64)
  | unpaid
  deriving DecidableEq

def afford (rent : UInt32) (balance : UInt64) : Finding := if rent.toUInt64 ≤ balance then .paid balance else .unpaid

def balanceRead (env : VisitEnv) (h : House η) (w : World η ι) : Option UInt64 :=
  match h.type with
  | .NORMAL => (loadPlayerById env.loadPlayer h.owner w.players).map Player.bankBalance
  | .GUILDHALL => (findGuild env.loadGuild h.owner w).map Guild.bankBalance

def finding (r : Run) (env : VisitEnv) (h : House η) (w : World η ι) : Finding :=
  if due r h then ((balanceRead env h w).map (afford h.rent)).getD .missing else .skipped

def Exists (h : House η) (w : World η ι) : Prop :=
  match h.type with
  | .NORMAL => (w.players.find? h.owner).isSome
  | .GUILDHALL => (w.guilds.find? h.owner).isSome

def storedBalance (h : House η) (w : World η ι) : Option UInt64 :=
  match h.type with
  | .NORMAL => (w.players.find? h.owner).map PlayerRow.balance
  | .GUILDHALL => (w.guilds.find? h.owner).map GuildRow.balance

section
variable {g : Goods η ι} {r : Run} {env : VisitEnv} {id : UInt32} {h : House η} {w : World η ι} {b : UInt64}

theorem finding_eq (hd : due r h = true) (hb : balanceRead env h w = some b) : finding r env h w = afford h.rent b := by
  unfold finding
  rw [if_pos hd, hb]
  rfl

theorem finding_none (hd : due r h = true) (hb : balanceRead env h w = none) : finding r env h w = .missing := by
  unfold finding
  rw [if_pos hd, hb]
  rfl

theorem afford_paid (hb : h.rent.toUInt64 ≤ b) : afford h.rent b = .paid b := if_pos hb

theorem afford_unpaid (hb : ¬ h.rent.toUInt64 ≤ b) : afford h.rent b = .unpaid := if_neg hb

theorem due_owner (hd : due r h = true) : h.owner ≠ 0 := by
  simp only [due, Bool.and_eq_true, bne_iff_ne] at hd
  exact hd.1.1.1.2

def Leaderless (env : VisitEnv) (h : House η) (w : World η ι) : Prop :=
  h.type = .GUILDHALL ∧ ∃ guild, findGuild env.loadGuild h.owner w = some guild ∧
    loadPlayerById env.loadPlayer guild.ownerGUID w.players = none

/-- The rent is off a balance that is in the database. -/
def Charged (b : UInt64) (h : House η) (w' : World η ι) : Prop := storedBalance h w' = some (b - h.rent.toUInt64)

/-- What a visit to the house `id` can do. -/
inductive Effect (r : Run) (env : VisitEnv) (id : UInt32) (h : House η) (w w' : World η ι) : Prop
  | skipped : finding r env h w = .skipped → w' = w → Effect r env id h w w'
  | missing {h' : House η} : finding r env h w = .missing → Released h h' ∨ h' = h →
      w'.houses = w.houses.set id h' → SameBalances w w' → Effect r env id h w w'
  | paidNormal {b : UInt64} : finding r env h w = .paid b → h.type = .NORMAL →
      w'.houses = w.houses.set id { paidVisit r h with rentWarnings := 0 } →
      (env.saved = true → Charged b h w') → Effect r env id h w w'
  | paidGuildhall {b : UInt64} : finding r env h w = .paid b → h.type = .GUILDHALL →
      w'.houses = w.houses.set id (paidVisit r h) →
      (env.guildUpdate = true → Exists h w → Charged b h w') → Effect r env id h w w'
  | warned : finding r env h w = .unpaid → h.rentWarnings < MAX_WARNINGS →
      w'.houses = w.houses.set id { h with rentWarnings := h.rentWarnings + 1 } → SameBalances w w' →
      Effect r env id h w w'
  | evicted {h' : House η} : finding r env h w = .unpaid → MAX_WARNINGS ≤ h.rentWarnings ∨ Leaderless env h w →
      Released h h' ∨ h' = h → w'.houses = w.houses.set id h' → SameBalances w w' → Effect r env id h w w'

theorem release_houses (previous : Option (Player ι)) (e : OwnerEnv) (hf : w.houses.find? id = some h)
    (ho : h.owner ≠ 0) :
    ∃ h', (Released h h' ∨ h' = h) ∧ (setOwner g id 0 true previous e w).2.1.houses = w.houses.set id h' := by
  rcases release_cases g previous e hf ho with ⟨b, he⟩ | ⟨h', w', previous', he, hr, -⟩
  · rw [he]
    exact ⟨h, .inr rfl, (Table.set_self hf).symm⟩
  · rw [he]
    exact ⟨h', .inl hr, rfl⟩

theorem release_balances (e : OwnerEnv) (hf : w.houses.find? id = some h) (ho : h.owner ≠ 0) :
    SameBalances w (setOwner g id 0 true none e w).2.1 := by
  rcases release_cases g none e hf ho with ⟨b, he⟩ | ⟨h', w', previous', he, -, hh⟩
  · rw [he]
    exact .refl w
  · rw [he]
    exact ⟨hh.balances.players, hh.balances.guilds⟩

theorem unpaidVisit_warned (g : Goods η ι) (r : Run) (env : VisitEnv) (id : UInt32) (box : Mailbox) {p : Player ι}
    {q : PlayerRow ι} (hq : w.players.find? p.guid = some q) (hb : q.balance = p.bankBalance) (hlt : h.rentWarnings < MAX_WARNINGS) :
    (unpaidVisit g r env id h box p w).houses = w.houses.set id { h with rentWarnings := h.rentWarnings + 1 } ∧
      SameBalances w (unpaidVisit g r env id h box p w) := by
  unfold unpaidVisit
  rw [if_pos hlt]
  exact ⟨rfl, savePlayer_same (p := p.post g box (warning r h)) _ hq hb, rfl⟩

theorem unpaidVisit_evicted (g : Goods η ι) (r : Run) (env : VisitEnv) (box : Mailbox) {p : Player ι}
    {q : PlayerRow ι} (hf : w.houses.find? id = some h) (ho : h.owner ≠ 0) (hq : w.players.find? p.guid = some q) (hb : q.balance = p.bankBalance)
    (hge : ¬ h.rentWarnings < MAX_WARNINGS) :
    (∃ h', (Released h h' ∨ h' = h) ∧ (unpaidVisit g r env id h box p w).houses = w.houses.set id h') ∧
      SameBalances w (unpaidVisit g r env id h box p w) := by
  unfold unpaidVisit
  rw [if_neg hge]
  refine ⟨release_houses (some p) env.owner hf ho, ?_⟩
  rcases release_cases g (some p) env.owner hf ho with ⟨b, he⟩ | ⟨h', w', previous', he, -, hh⟩
  · rw [he]
    exact ⟨fun k => savePlayer_same _ hq hb k, rfl⟩
  rw [he]
  obtain ⟨p', hp', hguid, hbal⟩ := hh.copy p rfl
  have hplayers := hh.players rfl
  refine ⟨fun k => ?_, hh.balances.guilds⟩
  rw [hp', hplayers]
  exact savePlayer_same _ (by rw [getD_some, hguid]; exact hq) (by rw [getD_some, hbal]; exact hb) k

theorem visitNormal_effect (hf : w.houses.find? id = some h) (hd : due r h = true) (ht : h.type = .NORMAL) :
    Effect r env id h w (visitNormal g r env id h w) := by
  have ho := due_owner hd
  unfold visitNormal
  cases hl : loadPlayerById env.loadPlayer h.owner w.players with
  | none =>
    have hm : balanceRead env h w = none := by simp only [balanceRead, ht, hl, map_none]
    obtain ⟨h', hr, hh⟩ := release_houses (g := g) none env.owner hf ho
    exact .missing (finding_none hd hm) hr hh (release_balances env.owner hf ho)
  | some p =>
    have hm : balanceRead env h w = some p.bankBalance := by simp only [balanceRead, ht, hl, map_some]
    obtain ⟨-, hguid, q, hq, hb⟩ := loadPlayerById_some hl
    rw [← hguid] at hq
    have hfind := finding_eq hd hm
    simp only
    split
    · next hle =>
      rw [afford_paid hle] at hfind
      refine .paidNormal hfind ht rfl ?_
      intro hsaved
      unfold Charged storedBalance
      rw [ht]
      rw [savePlayer_balance (p := p.pay h.rent) _ hq, if_pos ⟨hsaved, hguid.symm⟩]
      rfl
    · next hgt =>
      rw [afford_unpaid hgt] at hfind
      by_cases hlt : h.rentWarnings < MAX_WARNINGS
      · obtain ⟨hh, hs⟩ := unpaidVisit_warned g r env id .inbox hq hb hlt
        exact .warned hfind hlt hh hs
      · obtain ⟨⟨h', hr, hh⟩, hs⟩ := unpaidVisit_evicted g r env .inbox hf ho hq hb hlt
        exact .evicted hfind (.inl (UInt32.not_lt.mp hlt)) hr hh hs

theorem setGuildBalance_stored (guild : Guild) (balance : UInt64) {q : GuildRow} (hq : w.guilds.find? id = some q) :
    ((setGuildBalance true id guild balance w).guilds.find? id).map GuildRow.balance = some balance := by
  show ((w.guilds.update (fun k _ => k = id) fun r => { r with balance := balance }).find? id).map _ = _
  rw [Table.update_eq_set (fun _ _ h => h) hq rfl, Table.find?_set hq, if_pos rfl]
  rfl

theorem visitGuildhall_effect (hf : w.houses.find? id = some h) (hd : due r h = true) (ht : h.type = .GUILDHALL) :
    Effect r env id h w (visitGuildhall g r env id h w) := by
  have ho := due_owner hd
  unfold visitGuildhall
  cases hl : findGuild env.loadGuild h.owner w with
  | none =>
    have hm : balanceRead env h w = none := by simp only [balanceRead, ht, hl, map_none]
    obtain ⟨h', hr, hh⟩ := release_houses (g := g) none env.owner hf ho
    exact .missing (finding_none hd hm) hr hh (release_balances env.owner hf ho)
  | some guild =>
    have hm : balanceRead env h w = some guild.bankBalance := by simp only [balanceRead, ht, hl, map_some]
    have hfind := finding_eq hd hm
    simp only
    split
    · next hle =>
      rw [afford_paid hle] at hfind
      refine .paidGuildhall hfind ht rfl ?_
      intro hupdate hex
      unfold Exists at hex
      rw [ht] at hex
      obtain ⟨q, hq⟩ := isSome_iff_exists.mp hex
      unfold Charged storedBalance
      rw [ht, hupdate]
      exact setGuildBalance_stored guild _ hq
    · next hgt =>
      rw [afford_unpaid hgt] at hfind
      cases hp : loadPlayerById env.loadPlayer guild.ownerGUID w.players with
      | none =>
        obtain ⟨h', hr, hh⟩ := release_houses (g := g) none env.owner hf ho
        exact .evicted hfind (.inr ⟨ht, guild, hl, hp⟩) hr hh (release_balances env.owner hf ho)
      | some p =>
        obtain ⟨-, hguid, q, hq, hb⟩ := loadPlayerById_some hp
        rw [← hguid] at hq
        by_cases hlt : h.rentWarnings < MAX_WARNINGS
        · obtain ⟨hh, hs⟩ := unpaidVisit_warned g r env id (.depotLocker h.townId)
            hq hb hlt
          exact .warned hfind hlt hh hs
        · obtain ⟨⟨h', hr, hh⟩, hs⟩ := unpaidVisit_evicted g r env (.depotLocker h.townId)
            hf ho hq hb hlt
          exact .evicted hfind (.inl (UInt32.not_lt.mp hlt)) hr hh hs

theorem visit_effect (g : Goods η ι) (r : Run) (env : VisitEnv) (hf : w.houses.find? id = some h) :
    Effect r env id h w (visit g r env id w) := by
  unfold visit
  rw [hf]
  simp only
  split
  · next hd =>
    split
    · next ht => exact visitNormal_effect hf hd ht
    · next ht => exact visitGuildhall_effect hf hd ht
  · next hd =>
    refine .skipped ?_ rfl
    unfold finding
    rw [if_neg hd]

end

/-! ## Sequences of runs -/

/-- The world, and for each house the unpaid visits since the last payment. -/
structure State (η ι : Type*) where
  world : World η ι
  unpaid : UInt32 → Nat

inductive Ev (ι : Type*) where
  /-- The houses in the order of the map. -/
  | payHouses (r : Run) (env : UInt32 → VisitEnv)
  | banks (players : Table UInt32 (PlayerRow ι)) (guilds : Table UInt32 GuildRow) (online : Table UInt32 (Player ι))
      (registry : Table UInt32 Guild)

def tally : Finding → Nat → Nat
  | .paid _, _ => 0
  | .unpaid, n => n + 1
  | _, n => n

def State.visit (g : Goods η ι) (r : Run) (env : UInt32 → VisitEnv) (s : State η ι) (id : UInt32) : State η ι :=
  match s.world.houses.find? id with
  | none => s
  | some h =>
    ⟨Houses.visit g r (env id) id s.world,
      Function.update s.unpaid id (tally (finding r (env id) h s.world) (s.unpaid id))⟩

def State.ids (s : State η ι) : List UInt32 := s.world.houses.rows.map Prod.fst

def step (g : Goods η ι) (s : State η ι) : Ev ι → State η ι
  | .payHouses r env => s.ids.foldl (State.visit g r env) s
  | .banks players guilds online registry =>
    { s with world := { s.world with players := players, guilds := guilds, online := online, registry := registry } }

/-- Each visit gets its answers: an owner who exists is loaded, the charge is saved, a
    guildhall is paid with no warning standing and found unpaid only with its leader there. -/
structure Answered (r : Run) (env : VisitEnv) (h : House η) (w : World η ι) : Prop where
  loaded : Exists h w → finding r env h w ≠ .missing
  normal : ∀ b, finding r env h w = .paid b → h.type = .NORMAL → env.saved = true
  guildhall : ∀ b, finding r env h w = .paid b → h.type = .GUILDHALL →
    env.guildUpdate = true ∧ Exists h w ∧ h.rentWarnings = 0
  leader : finding r env h w = .unpaid → ¬ Leaderless env h w

def RunAnswered (g : Goods η ι) (s : State η ι) : Ev ι → Prop
  | .payHouses r env => ∀ before id after, s.ids = before ++ id :: after →
      ∀ h, (before.foldl (State.visit g r env) s).world.houses.find? id = some h →
        Answered r (env id) h (before.foldl (State.visit g r env) s).world
  | .banks .. => True

/-- What a visit to the house `id` owes. -/
structure VisitSound (g : Goods η ι) (r : Run) (env : VisitEnv) (id : UInt32) (s : State η ι) : Prop where
  lost : ∀ h h', s.world.houses.find? id = some h → (visit g r env id s.world).houses.find? id = some h' →
    h.owner ≠ 0 → Exists h s.world → h'.owner = 0 → finding r env h s.world = .unpaid ∧ 7 ≤ s.unpaid id
  paid : ∀ h h', s.world.houses.find? id = some h → (visit g r env id s.world).houses.find? id = some h' →
    (h.paidUntil < h'.paidUntil ↔
      ∃ b, finding r env h s.world = .paid b ∧ Charged b h (visit g r env id s.world))
  free : ∀ h, s.world.houses.find? id = some h → (∀ b, finding r env h s.world ≠ .paid b) →
    SameBalances s.world (visit g r env id s.world)

/-- No house has more warnings than unpaid visits. -/
def Counted (s : State η ι) : Prop := ∀ id h, s.world.houses.find? id = some h → h.rentWarnings.toNat ≤ s.unpaid id

section
variable {g : Goods η ι} {r : Run} {env : VisitEnv} {id : UInt32} {h h' : House η} {w w' : World η ι} {s : State η ι}

theorem lt_increasePaidUntil (hd : due r h = true) : h.paidUntil < increasePaidUntil r.rentPeriod r.currentTime := by
  simp only [due, Bool.and_eq_true, bne_iff_ne, decide_eq_true_eq] at hd
  obtain ⟨⟨⟨⟨hp, -⟩, -⟩, ht⟩, -⟩ := hd
  cases hr : r.rentPeriod with
  | NEVER => exact absurd hr hp
  | DAILY => show _ < r.currentTime + _; omega
  | WEEKLY => show _ < r.currentTime + _; omega
  | MONTHLY => show _ < r.currentTime + _; omega
  | YEARLY => show _ < r.currentTime + _; omega
  | DEV => show _ < r.currentTime + _; omega

theorem due_of_finding (hf : finding r env h w ≠ .skipped) : due r h = true := by
  by_contra hd
  exact hf (if_neg hd)

theorem Effect.house (he : Effect r env id h w w') (hf : w.houses.find? id = some h) (ha : Answered r env h w)
    {n : Nat} (hn : h.rentWarnings.toNat ≤ n) :
    ∃ h', w'.houses = w.houses.set id h' ∧ h'.rentWarnings.toNat ≤ tally (finding r env h w) n ∧
      (h.owner ≠ 0 → Exists h w → h'.owner = 0 → finding r env h w = .unpaid ∧ 7 ≤ n) ∧
      (h.paidUntil < h'.paidUntil ↔ ∃ b, finding r env h w = .paid b ∧ Charged b h w') := by
  have unmoved {f : Finding} (hfind : finding r env h w = f) (hne : ∀ b, f ≠ .paid b) {h' : House η}
      (hp : h'.paidUntil = h.paidUntil) :
      h.paidUntil < h'.paidUntil ↔ ∃ b, finding r env h w = .paid b ∧ Charged b h w' := by
    rw [hp]
    refine ⟨fun hlt => absurd hlt (Int.lt_irrefl _), ?_⟩
    rintro ⟨b, hb, -⟩
    exact absurd (hfind.symm.trans hb) (hne b)
  have moved {b : UInt64} (hfind : finding r env h w = .paid b) (hc : Charged b h w') {h' : House η}
      (hp : h'.paidUntil = increasePaidUntil r.rentPeriod r.currentTime) :
      h.paidUntil < h'.paidUntil ↔ ∃ b, finding r env h w = .paid b ∧ Charged b h w' := by
    have hd : due r h = true := due_of_finding (by rw [hfind]; exact Finding.noConfusion)
    rw [hp]
    exact ⟨fun _ => ⟨b, hfind, hc⟩, fun _ => lt_increasePaidUntil hd⟩
  cases he with
  | skipped hfind hw =>
    subst hw
    refine ⟨h, (Table.set_self hf).symm, by rw [hfind]; exact hn, fun ho _ h0 => absurd h0 ho, ?_⟩
    exact unmoved hfind (fun b => Finding.noConfusion) rfl
  | missing hfind hr hh hs =>
    refine ⟨_, hh, ?_, fun _ hex => absurd hfind (ha.loaded hex), ?_⟩
    · rw [hfind]
      rcases hr with hr | rfl
      · simp [hr.rentWarnings]
      · exact hn
    · refine unmoved hfind (fun b => Finding.noConfusion) ?_
      rcases hr with hr | rfl
      · exact hr.paidUntil
      · rfl
  | paidNormal hfind ht hh hc =>
    refine ⟨_, hh, by rw [hfind]; exact Nat.le_refl 0, fun ho _ h0 => absurd h0 ho, ?_⟩
    exact moved hfind (hc (ha.normal _ hfind ht)) rfl
  | paidGuildhall hfind ht hh hc =>
    obtain ⟨hu, hex, hz⟩ := ha.guildhall _ hfind ht
    refine ⟨_, hh, ?_, fun ho _ h0 => absurd h0 ho, moved hfind (hc hu hex) rfl⟩
    rw [hfind]
    show h.rentWarnings.toNat ≤ 0
    rw [hz]
    exact Nat.le_refl 0
  | warned hfind hlt hh hs =>
    refine ⟨_, hh, ?_, fun ho _ h0 => absurd h0 ho, unmoved hfind (fun b => Finding.noConfusion) rfl⟩
    rw [hfind]
    show (h.rentWarnings + 1).toNat ≤ n + 1
    have h7 : h.rentWarnings.toNat < 7 := UInt32.lt_iff_toNat_lt.mp hlt
    rw [UInt32.toNat_add, show (1 : UInt32).toNat = 1 from rfl, Nat.mod_eq_of_lt (by omega)]
    omega
  | evicted hfind hwhy hr hh hs =>
    have h7 : 7 ≤ h.rentWarnings.toNat := by
      rcases hwhy with hge | hl
      · exact UInt32.le_iff_toNat_le.mp hge
      · exact absurd hl (ha.leader hfind)
    refine ⟨_, hh, ?_, fun _ _ _ => ⟨hfind, by omega⟩, ?_⟩
    · rw [hfind]
      show _ ≤ n + 1
      rcases hr with hr | rfl
      · simp [hr.rentWarnings]
      · omega
    · refine unmoved hfind (fun b => Finding.noConfusion) ?_
      rcases hr with hr | rfl
      · exact hr.paidUntil
      · rfl

theorem Effect.free (he : Effect r env id h w w') (hn : ∀ b, finding r env h w ≠ .paid b) : SameBalances w w' := by
  cases he with
  | skipped _ hw =>
    rw [hw]
    exact .refl w
  | missing _ _ _ hs => exact hs
  | paidNormal hfind => exact absurd hfind (hn _)
  | paidGuildhall hfind => exact absurd hfind (hn _)
  | warned _ _ _ hs => exact hs
  | evicted _ _ _ _ hs => exact hs

theorem counted_visit {env : UInt32 → VisitEnv} (hc : Counted s)
    (ha : ∀ h, s.world.houses.find? id = some h → Answered r (env id) h s.world) :
    Counted (State.visit g r env s id) := by
  unfold State.visit
  cases hf : s.world.houses.find? id with
  | none => exact hc
  | some h =>
    obtain ⟨h', hh, hle, -⟩ := (visit_effect g r (env id) hf).house hf (ha h hf) (hc id h hf)
    intro k x hx
    simp only at hx ⊢
    rw [hh, Table.find?_set hf] at hx
    split at hx
    · next e =>
      grind
    · next e =>
      rw [Function.update_of_ne e]
      exact hc k x hx

theorem sound_visit (hc : Counted s) (ha : ∀ h, s.world.houses.find? id = some h → Answered r env h s.world) :
    VisitSound g r env id s := by
  have spec {h h' : House η} (hf : s.world.houses.find? id = some h)
      (hf' : (visit g r env id s.world).houses.find? id = some h') :
      (h.owner ≠ 0 → Exists h s.world → h'.owner = 0 → finding r env h s.world = .unpaid ∧ 7 ≤ s.unpaid id) ∧
        (h.paidUntil < h'.paidUntil ↔
          ∃ b, finding r env h s.world = .paid b ∧ Charged b h (visit g r env id s.world)) := by
    obtain ⟨x, hx, -, hlost, hpaid⟩ := (visit_effect g r env hf).house hf (ha h hf) (hc id h hf)
    rw [hx, Table.find?_set hf, if_pos rfl] at hf'
    cases hf'
    exact ⟨hlost, hpaid⟩
  refine ⟨fun h h' hf hf' => (spec hf hf').1, fun h h' hf hf' => (spec hf hf').2, ?_⟩
  intro h hf hn
  exact (visit_effect g r env hf).free hn

theorem counted_visits {env : UInt32 → VisitEnv} {ids : List UInt32} (hc : Counted s)
    (ha : ∀ before id after, ids = before ++ id :: after →
      ∀ h, (before.foldl (State.visit g r env) s).world.houses.find? id = some h →
        Answered r (env id) h (before.foldl (State.visit g r env) s).world) :
    Counted (ids.foldl (State.visit g r env) s) := by
  induction ids generalizing s with
  | nil => exact hc
  | cons id ids ih =>
    refine ih (counted_visit hc (ha [] id ids rfl)) ?_
    intro before k after he
    exact ha (id :: before) k after (by rw [he]; rfl)

theorem counted_step {e : Ev ι} (hc : Counted s) (ha : RunAnswered g s e) : Counted (step g s e) := by
  cases e with
  | payHouses r env => exact counted_visits hc ha
  | banks players guilds online registry => exact hc

theorem counted_run {es : List (Ev ι)} (hc : Counted s) (ha : Allowed (step g) (RunAnswered g) s es) :
    Counted (run (step g) s es) := by
  induction es generalizing s with
  | nil => exact hc
  | cons e es ih => exact ih (counted_step hc ha.1) ha.2

theorem answered_normal (ht : h.type = .NORMAL) (hm : finding r env h w ≠ .missing) (hs : env.saved = true) :
    Answered r env h w := by
  refine ⟨fun _ => hm, fun _ _ _ => hs, ?_, ?_⟩
  · intro b _ hg
    rw [ht] at hg
    cases hg
  · rintro - ⟨hg, -⟩
    rw [ht] at hg
    cases hg

/-- Along every sequence of runs and balances in which the visits get their answers, every
    visit of every run is sound. -/
theorem rent_kept (hc : Counted s) (es : List (Ev ι)) (ha : Allowed (step g) (RunAnswered g) s es)
    (before after : List (Ev ι)) (r : Run) (env : UInt32 → VisitEnv) (he : es = before ++ .payHouses r env :: after)
    (visited : List UInt32) (id : UInt32) (rest : List UInt32)
    (hids : (run (step g) s before).ids = visited ++ id :: rest) :
    VisitSound g r (env id) id (visited.foldl (State.visit g r env) (run (step g) s before)) := by
  subst he
  obtain ⟨hb, hrun, -⟩ := allowed_append.mp ha
  have hcb := counted_run hc hb
  have hcv : Counted (visited.foldl (State.visit g r env) (run (step g) s before)) := by
    refine counted_visits hcb ?_
    intro b k a e
    exact hrun b k (a ++ id :: rest) (by rw [hids, e, append_assoc]; rfl)
  exact sound_visit hcv (hrun visited id rest hids)

end

/-- A house `1` of the given type and owner, with a rent of 60. -/
def smallHouse (type : HouseType) (owner : UInt32) : House Unit where
  name := "Castle of the Winds"
  type := type
  townId := 1
  rent := 60
  owner := owner
  ownerAccountId := 4
  ownerName := "Tibianus"
  paidUntil := 0
  rentWarnings := 0
  isLoaded := true
  isProtected := false
  ownerTransitionInProgress := false
  subOwnerList := ""
  guestList := ""
  doorLists := []
  stored := (owner, false)
  content := ()

def noItems : Goods Unit Unit := ⟨fun _ c b => (c, b), fun _ _ b => b⟩

def daily (currentTime : Int) : Run := ⟨.DAILY, currentTime, fun _ => true⟩

/-- Everything is answered. -/
def calm : VisitEnv := ⟨true, true, true, true, true, ⟨true, true, true, ⟨true, true, true⟩, 0, "daily"⟩⟩

/-- The player 9 has the rent of the house for one run and not for the next. -/
def tenant : State Unit Unit where
  world :=
    { players := ⟨[(9, ⟨"Tibianus", 4, 100, ()⟩)], by decide⟩
      guilds := ⟨[], by decide⟩
      guild_transactions := []
      online := ⟨[], by decide⟩
      registry := ⟨[], by decide⟩
      houses := ⟨[(1, smallHouse .NORMAL 9)], by decide⟩ }
  unpaid := fun _ => 0

theorem rent_kept_tenant :
    VisitSound noItems (daily 200000) calm 1 (run (step noItems) tenant [.payHouses (daily 10) fun _ => calm]) := by
  have counted : Counted tenant := by
    intro id h hf
    cases mem_singleton.mp (Table.find?_iff.mp hf)
    exact Nat.le_refl 0
  have alone (s : State Unit Unit) (r : Run) (hs : s.ids = [1])
      (ha : ∀ h, s.world.houses.find? 1 = some h → Answered r calm h s.world) :
      RunAnswered noItems s (.payHouses r fun _ => calm) := by
    intro before id after he h hf
    rw [hs] at he
    rcases append_eq_singleton_iff.mp he.symm with ⟨rfl, hid⟩ | ⟨-, hid⟩
    · cases hid
      exact ha h hf
    · cases hid
  refine rent_kept counted [.payHouses (daily 10) fun _ => calm, .payHouses (daily 200000) fun _ => calm] ?_
    [.payHouses (daily 10) fun _ => calm] [] (daily 200000) (fun _ => calm) rfl [] 1 [] (by decide)
  refine ⟨alone _ _ (by decide) ?_, alone _ _ (by decide) ?_, trivial⟩
  · intro h hf
    cases hf
    exact answered_normal rfl (by decide) rfl
  · intro h hf
    cases hf
    exact answered_normal rfl (by decide) rfl

/-- The guild 3 exists and has no gold. -/
def guildTenant : State Unit Unit where
  world :=
    { players := ⟨[(9, ⟨"Tibianus", 4, 100, ()⟩)], by decide⟩
      guilds := ⟨[(3, ⟨"Red Rose", 0, 9⟩)], by decide⟩
      guild_transactions := []
      online := ⟨[], by decide⟩
      registry := ⟨[], by decide⟩
      houses := ⟨[(1, smallHouse .GUILDHALL 3)], by decide⟩ }
  unpaid := fun _ => 0

/-- The guild's leader is never read, so its house goes on the first unpaid visit. -/
theorem guildhall_lost_at_once :
    ¬ ∀ (s : State Unit Unit) (before : List (Ev Unit)) (r : Run) (env : UInt32 → VisitEnv) (visited : List UInt32)
        (id : UInt32) (rest : List UInt32), Counted s →
        (run (step noItems) s before).ids = visited ++ id :: rest →
      VisitSound noItems r (env id) id (visited.foldl (State.visit noItems r env) (run (step noItems) s before)) := by
  intro hall
  have hs := (hall guildTenant [] (daily 10) (fun _ => calm) [] 1 [] ?_ rfl).lost (smallHouse .GUILDHALL 3) _ rfl rfl
    (by decide) rfl rfl
  · exact absurd hs.2 (by decide)
  · intro id h hf
    cases mem_singleton.mp (Table.find?_iff.mp hf)
    exact Nat.le_refl 0

end Backlands.Houses
