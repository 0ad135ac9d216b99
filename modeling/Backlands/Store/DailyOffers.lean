/-
  Backlands.Store.DailyOffers — the daily offers of the store (src/store/store_daily_offers.cpp).

  A rotation shuffles the eligible offers that were not in the previous one, and behind them
  those that were, and takes offers from the front. It is saved as a document, and a document
  that is loaded is checked against the catalogue and its configuration.

  `Random` is a run of `random_`: every order of a shuffle and every value of a distribution
  may be drawn. A document is its tree; the texts in it are those that `saveState` writes.

  Proved: `daily_offers`.
-/

import Mathlib.Data.List.Perm.Basic
import Mathlib.Data.List.Sort
import Mathlib.Data.List.TakeWhile
import Mathlib.Algebra.Order.Ring.Int

namespace Backlands.Store.DailyOffers

open List

/-! ## The catalogue -/

inductive StoreOfferType where
  | Item | House | Outfit | Mount | Premium | BattlePass | ExpBoost | Blessing | PreyWildcard | ChangeName | SexChange
  | Hireling | HirelingSkill | HirelingOutfit | BountyKillBoost | WeeklyKillBoost | WeeklyReducedItems | WeeklyTaskExpansion
  deriving DecidableEq

def isTaskBoardOfferType (type : StoreOfferType) : Bool :=
  type = .BountyKillBoost || type = .WeeklyKillBoost || type = .WeeklyReducedItems || type = .WeeklyTaskExpansion

def isHirelingOfferType (type : StoreOfferType) : Bool :=
  type = .Hireling || type = .HirelingSkill || type = .HirelingOutfit

inductive StoreHighlightState where
  | None | New | Sale | Timed
  deriving DecidableEq

inductive StoreDailyHighlightMode where
  | Sale | Timed | Mixed
  deriving DecidableEq

/-- `static_cast<uint8_t>` -/
def StoreDailyHighlightMode.code : StoreDailyHighlightMode → Nat
  | .Sale => 0
  | .Timed => 1
  | .Mixed => 2

/-- The configuration as `loadFromXML` leaves it. -/
structure StoreDailyOffersConfig where
  enabled : Bool := false
  rotateOnStartup : Bool := false
  offerCount : BitVec 16 := 2
  rotationSeconds : BitVec 32 := 24 * 60 * 60
  minimumDiscountPercent : BitVec 8 := 10
  maximumDiscountPercent : BitVec 8 := 25
  highlightMode : StoreDailyHighlightMode := .Mixed
  stateFile : String := "data/store/daily_offers_state.xml"
  minimum_le : minimumDiscountPercent ≤ maximumDiscountPercent := by decide
  maximum_le : maximumDiscountPercent ≤ 99 := by decide
  stateFile_ne : stateFile ≠ "" := by decide

structure StoreOffer where
  id : BitVec 32
  price : BitVec 32
  type : StoreOfferType := .Item
  state : StoreHighlightState := .None
  dailyEligible : Bool := true
  deriving DecidableEq

structure StoreCategory where
  offers : List StoreOffer

structure StoreCatalog where
  categories : List StoreCategory
  dailyOffersConfig : StoreDailyOffersConfig
  ids_nodup : ((categories.flatMap StoreCategory.offers).map StoreOffer.id).Nodup

namespace StoreCatalog

def offers (catalog : StoreCatalog) : List StoreOffer := catalog.categories.flatMap StoreCategory.offers

/-- `offerById_` keeps the last offer of an id. -/
def findOffer (id : BitVec 32) (catalog : StoreCatalog) : Option StoreOffer := catalog.offers.reverse.find? fun o => o.id = id

end StoreCatalog

/-! ## Rotations -/

structure StoreDailyOffer where
  offerId : BitVec 32
  price : BitVec 32
  validUntilTimestamp : BitVec 32
  discountPercent : BitVec 8
  state : StoreHighlightState
  deriving DecidableEq

/-- The offers are an unordered map by their ids. -/
structure StoreDailyOffersSnapshot where
  validUntilTimestamp : BitVec 32 := 0
  offers : List StoreDailyOffer := []

def discountedPrice (basePrice : BitVec 32) (discountPercent : BitVec 8) : BitVec 32 :=
  if basePrice = 0 ∨ discountPercent = 0 then basePrice
  else
    let percentage := 100 - min discountPercent.toNat 99
    let discounted := basePrice.toNat * percentage / 100
    BitVec.ofNat 32 (max discounted 1)

def isEligible (offer : StoreOffer) : Bool :=
  if !offer.dailyEligible || offer.price = 0 || offer.state ≠ .None then false
  else offer.type ≠ .ChangeName && !isHirelingOfferType offer.type && !isTaskBoardOfferType offer.type && offer.type ≠ .BattlePass

/-- A run of `random_`. -/
structure Random where
  shufflePreferred : List StoreOffer → List StoreOffer
  shuffleRepeated : List StoreOffer → List StoreOffer
  discount : BitVec 8 → BitVec 8 → Nat → BitVec 8
  timed : Nat → Bool
  preferred_perm : ∀ l, (shufflePreferred l).Perm l
  repeated_perm : ∀ l, (shuffleRepeated l).Perm l
  discount_mem : ∀ lo hi i, lo ≤ hi → lo ≤ discount lo hi i ∧ discount lo hi i ≤ hi

/-- `emplace`: an id that is there keeps its offer. -/
def emplace (offer : StoreDailyOffer) (offers : List StoreDailyOffer) : List StoreDailyOffer :=
  if offers.any fun o => o.offerId = offer.offerId then offers else offers ++ [offer]

section
variable (config : StoreDailyOffersConfig) (random : Random)

def makeOffer (validUntilTimestamp : BitVec 32) (offer : StoreOffer) (index : Nat) : StoreDailyOffer :=
  let discount := random.discount config.minimumDiscountPercent config.maximumDiscountPercent index
  { offerId := offer.id
    price := discountedPrice offer.price discount
    validUntilTimestamp := validUntilTimestamp
    discountPercent := discount
    state := if config.highlightMode = .Timed ∨ (config.highlightMode = .Mixed ∧ random.timed index = true) then .Timed else .Sale }

def fill (validUntilTimestamp : BitVec 32) : Nat → List StoreOffer → List StoreDailyOffer → List StoreDailyOffer
  | _, [], offers => offers
  | index, offer :: selected, offers =>
    fill validUntilTimestamp (index + 1) selected (emplace (makeOffer config random validUntilTimestamp offer index) offers)

end

/-- The offers in the order they are taken. -/
def pool (catalog : StoreCatalog) (previousOfferIds : List (BitVec 32)) (random : Random) : List StoreOffer :=
  let eligible := catalog.offers.filter isEligible
  let preferred := eligible.filter fun o => !previousOfferIds.contains o.id
  let repeated := eligible.filter fun o => previousOfferIds.contains o.id
  random.shufflePreferred preferred ++ random.shuffleRepeated repeated

def rotate (catalog : StoreCatalog) (previousOfferIds : List (BitVec 32)) (nowTimestamp : BitVec 32) (random : Random) :
    StoreDailyOffersSnapshot :=
  let config := catalog.dailyOffersConfig
  if config.offerCount = 0 then {}
  else
    let preferred := pool catalog previousOfferIds random
    let selectedCount := min config.offerCount.toNat preferred.length
    if selectedCount = 0 then {}
    else
      let expiry := min (nowTimestamp.toNat + config.rotationSeconds.toNat) (2 ^ 32 - 1)
      { validUntilTimestamp := BitVec.ofNat 32 expiry
        offers := fill config random (BitVec.ofNat 32 expiry) 0 (preferred.take selectedCount) [] }

/-! ## Documents -/

inductive XmlNode where
  | mk (name : String) (attributes : List (String × String)) (children : List XmlNode)

namespace XmlNode

def name : XmlNode → String
  | mk name _ _ => name

/-- `attribute(name)` -/
def attr (name : String) : XmlNode → Option String
  | mk _ attributes _ => attributes.lookup name

/-- `children(name)` -/
def childrenNamed (child : String) : XmlNode → List XmlNode
  | mk _ _ children => children.filter fun node => node.name = child

end XmlNode

/-- The text of a number. -/
def digits (n : Nat) : String := n.repr

/-- `as_uint` of the attribute of a node: the default when it is not there. -/
def asUint (default : Nat) : Option String → Nat
  | none => default
  | some text => min (Nat.ofDigitChars 10 (text.toList.takeWhile Char.isDigit) 0) (2 ^ 32 - 1)

def asString (default : String) : Option String → String
  | none => default
  | some text => text

def parseStoreHighlightState (stateStr : String) : Option StoreHighlightState :=
  let lower := stateStr.toList.map Char.toLower
  if lower = "0".toList ∨ lower = "none".toList ∨ lower = "state_none".toList then some .None
  else if lower = "1".toList ∨ lower = "new".toList ∨ lower = "state_new".toList then some .New
  else if lower = "2".toList ∨ lower = "sale".toList ∨ lower = "state_sale".toList then some .Sale
  else if lower = "3".toList ∨ lower = "timed".toList ∨ lower = "state_timed".toList then some .Timed
  else none

def isConfiguredState (state : StoreHighlightState) (mode : StoreDailyHighlightMode) : Bool :=
  if state ≠ .Sale ∧ state ≠ .Timed then false
  else mode = .Mixed || (mode = .Sale && state = .Sale) || (mode = .Timed && state = .Timed)

def sortedOfferIds (snapshot : StoreDailyOffersSnapshot) : List (BitVec 32) :=
  (snapshot.offers.map StoreDailyOffer.offerId).mergeSort fun a b => decide (a ≤ b)

def offerNode (offer : StoreDailyOffer) : XmlNode :=
  .mk "offer"
    [("id", digits offer.offerId.toNat), ("discountPercent", digits offer.discountPercent.toNat),
      ("state", if offer.state = .Sale then "sale" else "timed")] []

def previousNode (previousOfferIds : List (BitVec 32)) : XmlNode :=
  .mk "previous" [] (previousOfferIds.map fun id => .mk "offer" [("id", digits id.toNat)] [])

def stateNode (config : StoreDailyOffersConfig) (active : StoreDailyOffersSnapshot) (previousOfferIds : List (BitVec 32)) : XmlNode :=
  .mk "dailyOffers"
    [("expiresAt", digits active.validUntilTimestamp.toNat), ("offerCount", digits config.offerCount.toNat),
      ("rotationSeconds", digits config.rotationSeconds.toNat),
      ("minDiscountPercent", digits config.minimumDiscountPercent.toNat),
      ("maxDiscountPercent", digits config.maximumDiscountPercent.toNat),
      ("highlightMode", digits config.highlightMode.code)]
    ((sortedOfferIds active).flatMap (fun id => ((active.offers.find? fun o => o.offerId = id).map offerNode).toList) ++
      if previousOfferIds = [] then [] else [previousNode previousOfferIds])

/-- The document that is written, if one is. -/
def saveState (config : StoreDailyOffersConfig) (active : StoreDailyOffersSnapshot) (previousOfferIds : List (BitVec 32)) :
    Option (List XmlNode) :=
  if config.stateFile = "" ∨ active.offers = [] then none else some [stateNode config active previousOfferIds]

/-- The checks on an offer of a document, and what they leave: `seenIds` and the offers. -/
def loadOffer (catalog : StoreCatalog) (expiresAt : BitVec 32) (node : XmlNode)
    (loaded : List (BitVec 32) × List StoreDailyOffer) : Option (List (BitVec 32) × List StoreDailyOffer) :=
  let config := catalog.dailyOffersConfig
  let offerId := BitVec.ofNat 32 (asUint 0 (node.attr "id"))
  let discount := asUint 100 (node.attr "discountPercent")
  match catalog.findOffer offerId, parseStoreHighlightState (asString "" (node.attr "state")) with
  | some offer, some state =>
    if !isEligible offer || loaded.1.contains offerId || discount < config.minimumDiscountPercent.toNat ||
        discount > config.maximumDiscountPercent.toNat || discount > 99 || !isConfiguredState state config.highlightMode then none
    else
      some (offerId :: loaded.1,
        emplace
          { offerId := offerId
            price := discountedPrice offer.price (BitVec.ofNat 8 discount)
            validUntilTimestamp := expiresAt
            discountPercent := BitVec.ofNat 8 discount
            state := state } loaded.2)
  | _, _ => none

def loadOffers (catalog : StoreCatalog) (expiresAt : BitVec 32) :
    List XmlNode → List (BitVec 32) × List StoreDailyOffer → Option (List (BitVec 32) × List StoreDailyOffer)
  | [], loaded => some loaded
  | node :: nodes, loaded => (loadOffer catalog expiresAt node loaded).bind (loadOffers catalog expiresAt nodes)

/-- The ids of the previous rotation, without those that are gone and without repetitions. -/
def loadPrevious (catalog : StoreCatalog) : List XmlNode → List (BitVec 32) → List (BitVec 32)
  | [], ids => ids
  | node :: nodes, ids =>
    let offerId := BitVec.ofNat 32 (asUint 0 (node.attr "id"))
    loadPrevious catalog nodes
      (if (catalog.findOffer offerId).isSome && !ids.contains offerId then ids ++ [offerId] else ids)

/-- The rotation and the previous ids of a document, if it is accepted. -/
def loadState (catalog : StoreCatalog) (document : List XmlNode) : Option (StoreDailyOffersSnapshot × List (BitVec 32)) :=
  let config := catalog.dailyOffersConfig
  (document.find? fun node => node.name = "dailyOffers").bind fun root =>
  let expiresAt := asUint 0 (root.attr "expiresAt")
  if expiresAt = 0 then none
  else if asUint 0 (root.attr "offerCount") ≠ config.offerCount.toNat ∨
      asUint 0 (root.attr "rotationSeconds") ≠ config.rotationSeconds.toNat ∨
      asUint 100 (root.attr "minDiscountPercent") ≠ config.minimumDiscountPercent.toNat ∨
      asUint 100 (root.attr "maxDiscountPercent") ≠ config.maximumDiscountPercent.toNat ∨
      asUint 255 (root.attr "highlightMode") ≠ config.highlightMode.code then none
  else
    let expectedCount := min config.offerCount.toNat (catalog.offers.countP isEligible)
    (loadOffers catalog (BitVec.ofNat 32 expiresAt) (root.childrenNamed "offer") ([], [])).bind fun loaded =>
    if loaded.2.length ≠ expectedCount then none
    else
      some ({ validUntilTimestamp := BitVec.ofNat 32 expiresAt, offers := loaded.2 },
        loadPrevious catalog (((root.childrenNamed "previous").head?.map fun node => node.childrenNamed "offer").getD []) [])

/-! ## The daily offers -/

structure StoreDailyOffers where
  catalog : Option StoreCatalog := none
  active : StoreDailyOffersSnapshot := {}
  previousOfferIds : List (BitVec 32) := []

/-- A new catalogue, with the document of its state file if there is one. -/
def configure (document : Option (List XmlNode)) (catalog : StoreCatalog) (nowTimestamp : BitVec 32) (random : Random) :
    StoreDailyOffers :=
  if !catalog.dailyOffersConfig.enabled then { catalog := some catalog }
  else
    let loaded := document.bind (loadState catalog)
    let active := (loaded.map Prod.fst).getD {}
    let previousOfferIds := (loaded.map Prod.snd).getD []
    if loaded.isSome && !catalog.dailyOffersConfig.rotateOnStartup && active.validUntilTimestamp > nowTimestamp then
      ⟨some catalog, active, previousOfferIds⟩
    else
      let previousOfferIds := if active.offers = [] then previousOfferIds else sortedOfferIds active
      ⟨some catalog, rotate catalog previousOfferIds nowTimestamp random, previousOfferIds⟩

def snapshot (nowTimestamp : BitVec 32) (random : Random) (s : StoreDailyOffers) : StoreDailyOffersSnapshot × StoreDailyOffers :=
  match s.catalog with
  | none => ({}, s)
  | some catalog =>
    if !catalog.dailyOffersConfig.enabled then ({}, s)
    else if s.active.validUntilTimestamp ≤ nowTimestamp then
      let previousOfferIds := sortedOfferIds s.active
      let active := rotate catalog previousOfferIds nowTimestamp random
      (active, ⟨some catalog, active, previousOfferIds⟩)
    else (s.active, s)

/-! ## What a rotation selects -/

def eligible (catalog : StoreCatalog) : List StoreOffer := catalog.offers.filter isEligible

structure Rotation (catalog : StoreCatalog) (previousOfferIds : List (BitVec 32)) (active : StoreDailyOffersSnapshot) : Prop where
  count : active.offers.length = min catalog.dailyOffersConfig.offerCount.toNat (eligible catalog).length
  distinct : (active.offers.map StoreDailyOffer.offerId).Nodup
  offer : ∀ o ∈ active.offers, ∃ offer ∈ eligible catalog, o.offerId = offer.id ∧ 1 ≤ o.price.toNat ∧ o.price.toNat ≤ offer.price.toNat
  repeats : ∀ o ∈ active.offers, o.offerId ∈ previousOfferIds → ∀ offer ∈ eligible catalog, offer.id ∉ previousOfferIds →
    offer.id ∈ active.offers.map StoreDailyOffer.offerId

section
variable {catalog : StoreCatalog} {random : Random}

variable {o : StoreDailyOffer}

theorem discountedPrice_bounds {basePrice : BitVec 32} (h : basePrice ≠ 0) (discountPercent : BitVec 8) :
    1 ≤ (discountedPrice basePrice discountPercent).toNat ∧ (discountedPrice basePrice discountPercent).toNat ≤ basePrice.toNat := by
  have hpos : 1 ≤ basePrice.toNat := Nat.pos_of_ne_zero fun hzero => h (BitVec.eq_of_toNat_eq hzero)
  unfold discountedPrice
  split
  · exact ⟨hpos, le_rfl⟩
  have hle : basePrice.toNat * (100 - min discountPercent.toNat 99) / 100 ≤ basePrice.toNat :=
    Nat.div_le_of_le_mul (by rw [Nat.mul_comm 100]; exact Nat.mul_le_mul_left _ (Nat.sub_le _ _))
  rw [BitVec.toNat_ofNat, Nat.mod_eq_of_lt (by omega)]
  omega

theorem emplace_new {offers : List StoreDailyOffer} (h : o.offerId ∉ offers.map StoreDailyOffer.offerId) :
    emplace o offers = offers ++ [o] := by
  refine if_neg ?_
  rw [any_eq_true]
  rintro ⟨x, hx, heq⟩
  exact h (mem_map.mpr ⟨x, hx, of_decide_eq_true heq⟩)

def made (config : StoreDailyOffersConfig) (random : Random) (validUntilTimestamp : BitVec 32) (index : Nat) (selected : List StoreOffer) :
    List StoreDailyOffer :=
  (selected.zipIdx index).map fun p => makeOffer config random validUntilTimestamp p.1 p.2

variable {offer : StoreOffer}

theorem ids_made (config : StoreDailyOffersConfig) (validUntilTimestamp : BitVec 32) (index : Nat) (selected : List StoreOffer) :
    (made config random validUntilTimestamp index selected).map StoreDailyOffer.offerId = selected.map StoreOffer.id := by
  induction selected generalizing index with
  | nil => rfl
  | cons offer selected ih => exact congrArg _ (ih (index + 1))

theorem fill_eq (config : StoreDailyOffersConfig) (validUntilTimestamp : BitVec 32) {index : Nat} {selected : List StoreOffer}
    {offers : List StoreDailyOffer} (h : (offers.map StoreDailyOffer.offerId ++ selected.map StoreOffer.id).Nodup) :
    fill config random validUntilTimestamp index selected offers =
      offers ++ made config random validUntilTimestamp index selected := by
  induction selected generalizing index offers with
  | nil => exact (append_nil _).symm
  | cons offer selected ih =>
    have hnew : (makeOffer config random validUntilTimestamp offer index).offerId ∉ offers.map StoreDailyOffer.offerId := by
      intro hmem
      exact (disjoint_of_nodup_append h) hmem (mem_cons_self ..)
    rw [fill, emplace_new hnew, ih]
    · rw [append_assoc]
      rfl
    · rw [map_append, append_assoc]
      exact h

theorem pool_perm (previousOfferIds : List (BitVec 32)) : (pool catalog previousOfferIds random).Perm (eligible catalog) := by
  have hperm := (random.preferred_perm ((eligible catalog).filter fun o => !previousOfferIds.contains o.id)).append
    (random.repeated_perm ((eligible catalog).filter fun o => previousOfferIds.contains o.id))
  refine hperm.trans ?_
  have hsplit := filter_append_perm (fun o : StoreOffer => !previousOfferIds.contains o.id) (eligible catalog)
  simpa using hsplit

theorem eligible_nodup (catalog : StoreCatalog) : ((eligible catalog).map StoreOffer.id).Nodup :=
  catalog.ids_nodup.sublist (filter_sublist.map _)

theorem mem_take_pool {previousOfferIds : List (BitVec 32)} {n : Nat} {o : StoreOffer}
    (ho : o ∈ (pool catalog previousOfferIds random).take n) (hprevious : o.id ∈ previousOfferIds)
    (hoffer : offer ∈ eligible catalog) (hnew : offer.id ∉ previousOfferIds) :
    offer ∈ (pool catalog previousOfferIds random).take n := by
  unfold pool at ho ⊢
  rw [take_append] at ho ⊢
  have hin : offer ∈ random.shufflePreferred ((catalog.offers.filter isEligible).filter fun o => !previousOfferIds.contains o.id) := by
    rw [(random.preferred_perm _).mem_iff, mem_filter]
    exact ⟨hoffer, by simpa using hnew⟩
  rcases mem_append.mp ho with ho | ho
  · have hmem := (random.preferred_perm _).mem_iff.mp (mem_of_mem_take ho)
    have hfresh : o.id ∉ previousOfferIds := by simpa using (mem_filter.mp hmem).2
    exact absurd hprevious hfresh
  refine mem_append_left _ ?_
  rw [take_of_length_le]
  · exact hin
  · by_contra hshort
    rw [Nat.sub_eq_zero_of_le (by omega), take_zero] at ho
    cases ho

structure MadeOf (catalog : StoreCatalog) (validUntilTimestamp : BitVec 32) (offer : StoreOffer) (o : StoreDailyOffer) : Prop where
  mem_eligible : offer ∈ eligible catalog
  offerId : o.offerId = offer.id
  price : o.price = discountedPrice offer.price o.discountPercent
  validUntilTimestamp : o.validUntilTimestamp = validUntilTimestamp
  minimum_le : catalog.dailyOffersConfig.minimumDiscountPercent ≤ o.discountPercent
  le_maximum : o.discountPercent ≤ catalog.dailyOffersConfig.maximumDiscountPercent
  state : isConfiguredState o.state catalog.dailyOffersConfig.highlightMode = true

theorem madeOf_makeOffer (h : offer ∈ eligible catalog) (validUntilTimestamp : BitVec 32) (index : Nat) :
    MadeOf catalog validUntilTimestamp offer (makeOffer catalog.dailyOffersConfig random validUntilTimestamp offer index) := by
  obtain ⟨hmin, hmax⟩ := random.discount_mem _ _ index catalog.dailyOffersConfig.minimum_le
  refine ⟨h, rfl, rfl, rfl, hmin, hmax, ?_⟩
  unfold makeOffer
  cases catalog.dailyOffersConfig.highlightMode with
  | Sale => rfl
  | Timed => rfl
  | Mixed =>
    split <;> rfl

theorem rotate_cases (catalog : StoreCatalog) (previousOfferIds : List (BitVec 32)) (nowTimestamp : BitVec 32) (random : Random) :
    (rotate catalog previousOfferIds nowTimestamp random = {} ∧
      min catalog.dailyOffersConfig.offerCount.toNat (eligible catalog).length = 0) ∨
      ∃ validUntilTimestamp, rotate catalog previousOfferIds nowTimestamp random =
        { validUntilTimestamp := validUntilTimestamp
          offers := made catalog.dailyOffersConfig random validUntilTimestamp 0
            ((pool catalog previousOfferIds random).take
              (min catalog.dailyOffersConfig.offerCount.toNat (eligible catalog).length)) } ∧
        min catalog.dailyOffersConfig.offerCount.toNat (eligible catalog).length ≠ 0 := by
  have hlength := (@pool_perm catalog random previousOfferIds).length_eq
  unfold rotate
  dsimp only
  split
  · next hzero =>
    simp [hzero]
  rw [hlength]
  split
  · next hzero => exact .inl ⟨rfl, hzero⟩
  next hpos =>
  have hnodup : (((pool catalog previousOfferIds random).take
      (min catalog.dailyOffersConfig.offerCount.toNat (eligible catalog).length)).map StoreOffer.id).Nodup :=
    (((pool_perm previousOfferIds).map _).nodup_iff.mpr (eligible_nodup catalog)).sublist ((take_sublist _ _).map _)
  exact .inr ⟨_, congrArg (StoreDailyOffersSnapshot.mk _) (fill_eq _ _ hnodup), hpos⟩

theorem mem_made {validUntilTimestamp : BitVec 32} {index : Nat} {selected : List StoreOffer}
    (hselected : ∀ o ∈ selected, o ∈ eligible catalog)
    (ho : o ∈ made catalog.dailyOffersConfig random validUntilTimestamp index selected) :
    ∃ offer ∈ selected, MadeOf catalog validUntilTimestamp offer o := by
  obtain ⟨⟨offer, i⟩, hp, rfl⟩ := mem_map.mp ho
  have hoffer : offer ∈ selected := fst_mem_of_mem_zipIdx hp
  exact ⟨offer, hoffer, madeOf_makeOffer (hselected offer hoffer) _ _⟩

theorem rotate_rotation (previousOfferIds : List (BitVec 32)) (nowTimestamp : BitVec 32) :
    Rotation catalog previousOfferIds (rotate catalog previousOfferIds nowTimestamp random) := by
  rcases rotate_cases catalog previousOfferIds nowTimestamp random with ⟨hrotate, hzero⟩ | ⟨validUntilTimestamp, hrotate, -⟩
  · rw [hrotate]
    exact ⟨hzero.symm, nodup_nil, (fun o ho => nomatch ho), (fun o ho => nomatch ho)⟩
  rw [hrotate]
  have hperm := @pool_perm catalog random previousOfferIds
  have hselected : ∀ o ∈ (pool catalog previousOfferIds random).take
      (min catalog.dailyOffersConfig.offerCount.toNat (eligible catalog).length), o ∈ eligible catalog :=
    fun o ho => hperm.mem_iff.mp (mem_of_mem_take ho)
  refine ⟨?_, ?_, fun o ho => ?_, fun o ho hprevious offer hoffer hnew => ?_⟩
  · rw [made, length_map, length_zipIdx, length_take, hperm.length_eq]
    omega
  · rw [ids_made]
    exact ((hperm.map _).nodup_iff.mpr (eligible_nodup catalog)).sublist ((take_sublist _ _).map _)
  · obtain ⟨offer, -, hmade⟩ := mem_made hselected ho
    have hprice : offer.price ≠ 0 := by
      intro hzero
      have heligible := (mem_filter.mp hmade.mem_eligible).2
      unfold isEligible at heligible
      simp [hzero] at heligible
    have hbounds := discountedPrice_bounds hprice o.discountPercent
    rw [← hmade.price] at hbounds
    exact ⟨offer, hmade.mem_eligible, hmade.offerId, hbounds⟩
  · obtain ⟨offer', hoffer', hmade⟩ := mem_made hselected ho
    rw [hmade.offerId] at hprevious
    rw [ids_made]
    exact mem_map_of_mem (mem_take_pool hoffer' hprevious hoffer hnew)

/-! ## What is restored -/

/-- The same selection with the same prices. -/
structure StoreDailyOffersSnapshot.Same (a b : StoreDailyOffersSnapshot) : Prop where
  validUntilTimestamp : a.validUntilTimestamp = b.validUntilTimestamp
  offers : a.offers.Perm b.offers

theorem asUint_digits (default : Nat) {n : Nat} (h : n < 2 ^ 32) : asUint default (some (digits n)) = n := by
  have htext : (digits n).toList.takeWhile Char.isDigit = Nat.toDigits 10 n := by
    rw [digits, Nat.toList_repr, takeWhile_eq_self_iff]
    exact fun c hc => Nat.isDigit_of_mem_toDigits (by decide) le_rfl hc
  show min (Nat.ofDigitChars 10 ((digits n).toList.takeWhile Char.isDigit) 0) (2 ^ 32 - 1) = n
  rw [htext, Nat.ofDigitChars_ten_toDigits]
  omega

theorem asUint_bitVec (default : Nat) {w : Nat} (hw : w ≤ 32) (x : BitVec w) : asUint default (some (digits x.toNat)) = x.toNat :=
  asUint_digits default (lt_of_lt_of_le x.isLt (Nat.pow_le_pow_right (by decide) hw))

theorem ofNat_toNat {w : Nat} (x : BitVec w) : BitVec.ofNat w x.toNat = x := by
  rw [BitVec.ofNat_toNat, BitVec.setWidth_eq]

theorem findOffer_eq (h : offer ∈ catalog.offers) : catalog.findOffer offer.id = some offer := by
  unfold StoreCatalog.findOffer
  have hsome : (catalog.offers.reverse.find? fun o => o.id = offer.id).isSome = true :=
    find?_isSome.mpr ⟨offer, mem_reverse.mpr h, decide_eq_true rfl⟩
  obtain ⟨found, hfound⟩ := Option.isSome_iff_exists.mp hsome
  have hid : found.id = offer.id := by simpa using find?_some hfound
  have hmem : found ∈ catalog.offers := mem_reverse.mp (mem_of_find?_eq_some hfound)
  rw [hfound, inj_on_of_nodup_map catalog.ids_nodup hmem h hid]

theorem parse_state {state : StoreHighlightState} {mode : StoreDailyHighlightMode} (h : isConfiguredState state mode = true) :
    parseStoreHighlightState (if state = .Sale then "sale" else "timed") = some state := by
  cases state with
  | None => exact absurd h Bool.false_ne_true
  | New => exact absurd h Bool.false_ne_true
  | Sale =>
    decide
  | Timed =>
    decide

theorem loadOffer_offerNode {validUntilTimestamp : BitVec 32} (h : MadeOf catalog validUntilTimestamp offer o)
    {loaded : List (BitVec 32) × List StoreDailyOffer} (hseen : o.offerId ∉ loaded.1) :
    loadOffer catalog validUntilTimestamp (offerNode o) loaded = some (o.offerId :: loaded.1, emplace o loaded.2) := by
  obtain ⟨hmem, heligible⟩ := mem_filter.mp h.mem_eligible
  have hid : BitVec.ofNat 32 (asUint 0 ((offerNode o).attr "id")) = o.offerId :=
    (congrArg (BitVec.ofNat 32) (asUint_bitVec 0 le_rfl o.offerId)).trans (ofNat_toNat _)
  have hdiscount : asUint 100 ((offerNode o).attr "discountPercent") = o.discountPercent.toNat :=
    asUint_bitVec 100 (by decide) o.discountPercent
  have hstate : parseStoreHighlightState (asString "" ((offerNode o).attr "state")) = some o.state := parse_state h.state
  have hmin : ¬ o.discountPercent.toNat < catalog.dailyOffersConfig.minimumDiscountPercent.toNat := not_lt.mpr h.minimum_le
  have hmax : ¬ o.discountPercent.toNat > catalog.dailyOffersConfig.maximumDiscountPercent.toNat := not_lt.mpr h.le_maximum
  have hlimit : ¬ o.discountPercent.toNat > 99 := not_lt.mpr (le_trans h.le_maximum catalog.dailyOffersConfig.maximum_le)
  have hfound : catalog.findOffer o.offerId = some offer := h.offerId ▸ findOffer_eq hmem
  unfold loadOffer
  dsimp only
  rw [hid, hdiscount, hstate, hfound]
  dsimp only
  rw [if_neg, ofNat_toNat, ← h.price, ← h.validUntilTimestamp]
  simp [heligible, hseen, hmin, hmax, hlimit, h.state]

theorem loadOffers_offerNodes {validUntilTimestamp : BitVec 32} {offers : List StoreDailyOffer}
    (h : ∀ o ∈ offers, ∃ offer, MadeOf catalog validUntilTimestamp offer o) {seenIds : List (BitVec 32)} {loaded : List StoreDailyOffer}
    (hseen : ∀ id, id ∈ seenIds ↔ id ∈ loaded.map StoreDailyOffer.offerId)
    (hnodup : ((loaded ++ offers).map StoreDailyOffer.offerId).Nodup) :
    ∃ ids, loadOffers catalog validUntilTimestamp (offers.map offerNode) (seenIds, loaded) = some (ids, loaded ++ offers) := by
  induction offers generalizing seenIds loaded with
  | nil => exact ⟨seenIds, by rw [append_nil]; rfl⟩
  | cons o offers ih =>
    obtain ⟨⟨offer, hmade⟩, hrest⟩ := forall_mem_cons.mp h
    have hnew : o.offerId ∉ loaded.map StoreDailyOffer.offerId := by
      rw [map_append] at hnodup
      exact fun hmem => (disjoint_of_nodup_append hnodup) hmem (mem_cons_self ..)
    rw [map_cons, loadOffers, loadOffer_offerNode hmade (mt (hseen _).mp hnew), Option.bind_some, emplace_new hnew]
    have happend : loaded ++ o :: offers = loaded ++ [o] ++ offers := by rw [append_assoc, singleton_append]
    rw [happend] at hnodup ⊢
    refine ih hrest (fun id => ?_) hnodup
    simp [hseen, or_comm]

def sorted (active : StoreDailyOffersSnapshot) : List StoreDailyOffer :=
  (sortedOfferIds active).filterMap fun id => active.offers.find? fun o => o.offerId = id

variable {active : StoreDailyOffersSnapshot}

theorem sorted_perm (h : (active.offers.map StoreDailyOffer.offerId).Nodup) : (sorted active).Perm active.offers := by
  have hids : (sortedOfferIds active).Perm (active.offers.map StoreDailyOffer.offerId) := mergeSort_perm _ _
  refine (hids.filterMap _).trans ?_
  rw [filterMap_map]
  have hfound : ∀ o ∈ active.offers, (active.offers.find? fun x => x.offerId = o.offerId) = some o := by
    intro o ho
    obtain ⟨found, hfound⟩ := Option.isSome_iff_exists.mp
      (find?_isSome.mpr ⟨o, ho, decide_eq_true rfl⟩ : (active.offers.find? fun x => x.offerId = o.offerId).isSome = true)
    have hid : found.offerId = o.offerId := by simpa using find?_some hfound
    rw [hfound, inj_on_of_nodup_map h (mem_of_find?_eq_some hfound) ho hid]
  have hself : active.offers.filterMap ((fun id => active.offers.find? fun o => o.offerId = id) ∘ StoreDailyOffer.offerId) =
      active.offers.filterMap some := filterMap_congr hfound
  rw [hself, filterMap_some]

theorem offerNodes_eq (active : StoreDailyOffersSnapshot) :
    (sortedOfferIds active).flatMap (fun id => ((active.offers.find? fun o => o.offerId = id).map offerNode).toList) =
      (sorted active).map offerNode := by
  unfold sorted
  induction sortedOfferIds active with
  | nil => rfl
  | cons id ids ih =>
    rw [flatMap_cons, ih, filterMap_cons]
    cases active.offers.find? fun o => o.offerId = id with
    | none => rfl
    | some o => rfl

theorem offers_stateNode (config : StoreDailyOffersConfig) (active : StoreDailyOffersSnapshot) (previousOfferIds : List (BitVec 32)) :
    (stateNode config active previousOfferIds).childrenNamed "offer" = (sorted active).map offerNode := by
  have hprevious : (if previousOfferIds = [] then [] else [previousNode previousOfferIds]).filter (fun node => node.name = "offer") = [] := by
    simp [previousNode, XmlNode.name]
  unfold stateNode XmlNode.childrenNamed
  dsimp only
  rw [offerNodes_eq, filter_append, hprevious, append_nil, filter_eq_self]
  intro node hnode
  obtain ⟨o, -, rfl⟩ := mem_map.mp hnode
  exact decide_eq_true rfl

theorem loadState_of_root {document : List XmlNode} {root : XmlNode} {validUntilTimestamp : BitVec 32} {offers : List StoreDailyOffer}
    {seenIds : List (BitVec 32)} (hroot : (document.find? fun node => node.name = "dailyOffers") = some root)
    (hexpires : validUntilTimestamp ≠ 0) (hexpiresAt : asUint 0 (root.attr "expiresAt") = validUntilTimestamp.toNat)
    (hoffer : asUint 0 (root.attr "offerCount") = catalog.dailyOffersConfig.offerCount.toNat)
    (hrotation : asUint 0 (root.attr "rotationSeconds") = catalog.dailyOffersConfig.rotationSeconds.toNat)
    (hmin : asUint 100 (root.attr "minDiscountPercent") = catalog.dailyOffersConfig.minimumDiscountPercent.toNat)
    (hmax : asUint 100 (root.attr "maxDiscountPercent") = catalog.dailyOffersConfig.maximumDiscountPercent.toNat)
    (hmode : asUint 255 (root.attr "highlightMode") = catalog.dailyOffersConfig.highlightMode.code)
    (hoffers : loadOffers catalog validUntilTimestamp (root.childrenNamed "offer") ([], []) = some (seenIds, offers))
    (hcount : offers.length = min catalog.dailyOffersConfig.offerCount.toNat (catalog.offers.countP isEligible)) :
    ∃ ids, loadState catalog document = some (⟨validUntilTimestamp, offers⟩, ids) := by
  have hpositive : ¬ validUntilTimestamp.toNat = 0 := fun hzero => hexpires (BitVec.eq_of_toNat_eq hzero)
  unfold loadState
  rw [hroot, Option.bind_some, hexpiresAt, if_neg hpositive, hoffer, hrotation, hmin, hmax, hmode, if_neg (by simp), ofNat_toNat, hoffers,
    Option.bind_some, if_neg (not_not.mpr hcount)]
  exact ⟨_, rfl⟩

theorem loadState_saveState {previous : List (BitVec 32)} (previousOfferIds : List (BitVec 32))
    (hrotation : Rotation catalog previous active) (hexpires : active.validUntilTimestamp ≠ 0)
    (hsome : active.offers ≠ [])
    (hmade : ∀ o ∈ active.offers, ∃ offer, MadeOf catalog active.validUntilTimestamp offer o) :
    ∃ document loaded ids, saveState catalog.dailyOffersConfig active previousOfferIds = some document ∧
      loadState catalog document = some (loaded, ids) ∧ loaded.Same active := by
  have hperm := sorted_perm hrotation.distinct
  obtain ⟨seenIds, hoffers⟩ := @loadOffers_offerNodes catalog _ (sorted active)
    (fun o ho => hmade o (hperm.mem_iff.mp ho)) [] [] (fun id => Iff.rfl) ((hperm.map _).nodup_iff.mpr hrotation.distinct)
  have hcode : catalog.dailyOffersConfig.highlightMode.code < 2 ^ 32 := by
    cases catalog.dailyOffersConfig.highlightMode <;> decide
  have hcount : (sorted active).length = min catalog.dailyOffersConfig.offerCount.toNat (catalog.offers.countP isEligible) := by
    rw [hperm.length_eq, hrotation.count, countP_eq_length_filter]
    rfl
  have hsave : saveState catalog.dailyOffersConfig active previousOfferIds =
      some [stateNode catalog.dailyOffersConfig active previousOfferIds] :=
    if_neg (not_or.mpr ⟨catalog.dailyOffersConfig.stateFile_ne, hsome⟩)
  obtain ⟨root, hroot⟩ : ∃ root, root = stateNode catalog.dailyOffersConfig active previousOfferIds := ⟨_, rfl⟩
  have hname : root.name = "dailyOffers" := by rw [hroot]; rfl
  have hexpiresAt : root.attr "expiresAt" = some (digits active.validUntilTimestamp.toNat) := by rw [hroot]; rfl
  have hoffer : root.attr "offerCount" = some (digits catalog.dailyOffersConfig.offerCount.toNat) := by rw [hroot]; rfl
  have hseconds : root.attr "rotationSeconds" = some (digits catalog.dailyOffersConfig.rotationSeconds.toNat) := by rw [hroot]; rfl
  have hmin : root.attr "minDiscountPercent" = some (digits catalog.dailyOffersConfig.minimumDiscountPercent.toNat) := by
    rw [hroot]
    rfl
  have hmax : root.attr "maxDiscountPercent" = some (digits catalog.dailyOffersConfig.maximumDiscountPercent.toNat) := by
    rw [hroot]
    rfl
  have hmode : root.attr "highlightMode" = some (digits catalog.dailyOffersConfig.highlightMode.code) := by rw [hroot]; rfl
  rw [← offers_stateNode catalog.dailyOffersConfig active previousOfferIds, ← hroot] at hoffers
  rw [← hroot] at hsave
  obtain ⟨ids, hload⟩ := @loadState_of_root catalog _ _ _ _ _ (find?_cons_of_pos (decide_eq_true hname)) hexpires
    (hexpiresAt ▸ asUint_bitVec 0 le_rfl _) (hoffer ▸ asUint_bitVec 0 (by decide) _) (hseconds ▸ asUint_bitVec 0 le_rfl _)
    (hmin ▸ asUint_bitVec 100 (by decide) _) (hmax ▸ asUint_bitVec 100 (by decide) _) (hmode ▸ asUint_digits 255 hcode) hoffers hcount
  exact ⟨_, _, ids, hsave, hload, rfl, hperm⟩

theorem rotate_saved (previousOfferIds : List (BitVec 32)) (nowTimestamp : BitVec 32)
    (hexpires : (rotate catalog previousOfferIds nowTimestamp random).validUntilTimestamp ≠ 0) :
    ∃ document loaded ids,
      saveState catalog.dailyOffersConfig (rotate catalog previousOfferIds nowTimestamp random) previousOfferIds = some document ∧
        loadState catalog document = some (loaded, ids) ∧ loaded.Same (rotate catalog previousOfferIds nowTimestamp random) := by
  have hrotation := @rotate_rotation catalog random previousOfferIds nowTimestamp
  rcases rotate_cases catalog previousOfferIds nowTimestamp random with ⟨hrotate, -⟩ | ⟨validUntilTimestamp, hrotate, hpos⟩
  · rw [hrotate] at hexpires
    exact absurd rfl hexpires
  refine loadState_saveState previousOfferIds hrotation hexpires ?_ ?_
  · intro hnone
    have hcount := hrotation.count
    rw [hnone] at hcount
    exact hpos hcount.symm
  · rw [hrotate]
    intro o ho
    have hperm := @pool_perm catalog random previousOfferIds
    obtain ⟨offer, -, hmade⟩ := mem_made (fun o ho => hperm.mem_iff.mp (mem_of_mem_take ho)) ho
    exact ⟨offer, hmade⟩

theorem configure_restores {document : List XmlNode} {loaded : StoreDailyOffersSnapshot} {ids : List (BitVec 32)}
    (hload : loadState catalog document = some (loaded, ids)) (hsame : loaded.Same active)
    (henabled : catalog.dailyOffersConfig.enabled = true) (hkeep : catalog.dailyOffersConfig.rotateOnStartup = false)
    {later : BitVec 32} (hlater : later < active.validUntilTimestamp) :
    (configure (some document) catalog later random).active = loaded := by
  have hvalid : loaded.validUntilTimestamp > later := hsame.validUntilTimestamp ▸ hlater
  unfold configure
  rw [henabled, hkeep, Option.bind_some, hload]
  simp [hvalid]

/-! ## The rotation that is replaced -/

theorem mem_sortedOfferIds (active : StoreDailyOffersSnapshot) (id : BitVec 32) :
    id ∈ sortedOfferIds active ↔ id ∈ active.offers.map StoreDailyOffer.offerId :=
  mem_mergeSort

theorem rotate_replaces (replaced : StoreDailyOffersSnapshot) (nowTimestamp : BitVec 32) :
    Rotation catalog (replaced.offers.map StoreDailyOffer.offerId)
      (rotate catalog (sortedOfferIds replaced) nowTimestamp random) := by
  have hrotation : Rotation catalog (sortedOfferIds replaced) (rotate catalog (sortedOfferIds replaced) nowTimestamp random) :=
    rotate_rotation _ _
  obtain ⟨hcount, hdistinct, hoffer, hrepeats⟩ := hrotation
  refine ⟨hcount, hdistinct, hoffer, fun o ho hold offer hin hnew => ?_⟩
  exact hrepeats o ho ((mem_sortedOfferIds replaced _).mpr hold) offer hin fun h => hnew ((mem_sortedOfferIds replaced _).mp h)

/-- One that is asked for after the rotation has expired, and one made at startup, replace the
    rotation there was. -/
theorem snapshot_rotation {s : StoreDailyOffers} {nowTimestamp : BitVec 32} (hcatalog : s.catalog = some catalog)
    (henabled : catalog.dailyOffersConfig.enabled = true) (hexpired : s.active.validUntilTimestamp ≤ nowTimestamp) :
    Rotation catalog (s.active.offers.map StoreDailyOffer.offerId) (snapshot nowTimestamp random s).1 := by
  unfold snapshot
  rw [hcatalog]
  simp only [henabled, hexpired, Bool.not_true, Bool.false_eq_true, if_false, if_true]
  exact rotate_replaces s.active nowTimestamp

theorem configure_rotation {document : List XmlNode} {loaded : StoreDailyOffersSnapshot} {ids : List (BitVec 32)}
    {nowTimestamp : BitVec 32} (hload : loadState catalog document = some (loaded, ids)) (hsome : loaded.offers ≠ [])
    (henabled : catalog.dailyOffersConfig.enabled = true)
    (hrotates : catalog.dailyOffersConfig.rotateOnStartup = true ∨ loaded.validUntilTimestamp ≤ nowTimestamp) :
    Rotation catalog (loaded.offers.map StoreDailyOffer.offerId)
      (configure (some document) catalog nowTimestamp random).active := by
  have hnot : (!catalog.dailyOffersConfig.rotateOnStartup && decide (loaded.validUntilTimestamp > nowTimestamp)) = false := by
    rcases hrotates with h | h
    · simp [h]
    · simp [BitVec.not_lt.mpr h]
  unfold configure
  rw [henabled, Option.bind_some, hload]
  simp only [Bool.not_true, Bool.false_eq_true, if_false, Option.isSome_some, Option.map_some, Option.getD_some, Bool.true_and, hnot,
    hsome]
  exact rotate_replaces loaded nowTimestamp

end

/-- A rotation selects as it should, and it is restored from what was saved of it. -/
theorem daily_offers (catalog : StoreCatalog) (previousOfferIds : List (BitVec 32)) (nowTimestamp : BitVec 32) (random : Random) :
    Rotation catalog previousOfferIds (rotate catalog previousOfferIds nowTimestamp random) ∧
      ∀ later < (rotate catalog previousOfferIds nowTimestamp random).validUntilTimestamp,
        ∃ document loaded ids,
          saveState catalog.dailyOffersConfig (rotate catalog previousOfferIds nowTimestamp random) previousOfferIds = some document ∧
          loadState catalog document = some (loaded, ids) ∧ loaded.Same (rotate catalog previousOfferIds nowTimestamp random) ∧
          (catalog.dailyOffersConfig.enabled = true → catalog.dailyOffersConfig.rotateOnStartup = false →
            ∀ again, (configure (some document) catalog later again).active = loaded) := by
  refine ⟨rotate_rotation previousOfferIds nowTimestamp, fun later hlater => ?_⟩
  have hexpires : (rotate catalog previousOfferIds nowTimestamp random).validUntilTimestamp ≠ 0 := by
    intro hzero
    rw [hzero] at hlater
    exact Nat.not_lt_zero _ hlater
  obtain ⟨document, loaded, ids, hsave, hload, hsame⟩ := rotate_saved previousOfferIds nowTimestamp hexpires
  exact ⟨document, loaded, ids, hsave, hload, hsame, fun henabled hkeep again =>
    configure_restores hload hsame henabled hkeep hlater⟩

/-- A run in which every order is kept, and every discount is the smallest. -/
def unshuffled : Random where
  shufflePreferred := id
  shuffleRepeated := id
  discount := fun lo _ _ => lo
  timed := fun _ => false
  preferred_perm := fun l => List.Perm.refl l
  repeated_perm := fun l => List.Perm.refl l
  discount_mem := fun _ _ _ h => ⟨BitVec.le_refl _, h⟩

def shop : StoreCatalog where
  categories := [⟨[⟨1, 100, .Item, .None, true⟩, ⟨2, 1, .Mount, .None, true⟩]⟩, ⟨[⟨3, 250, .Outfit, .None, true⟩]⟩]
  dailyOffersConfig := { enabled := true }
  ids_nodup := by decide

/-- Two of three offers, the one of the day before left out. -/
theorem shop_rotation : ((rotate shop [1] 0 unshuffled).offers.map fun o => (o.offerId, o.price)) = [(2, 1), (3, 225)] ∧
    Rotation shop [1] (rotate shop [1] 0 unshuffled) :=
  ⟨by decide, (daily_offers shop [1] 0 unshuffled).1⟩

end Backlands.Store.DailyOffers
