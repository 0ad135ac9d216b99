/-
  Backlands.Attributes.RoundTrip — what of an item's attributes comes back.

  The bytes that `serializeAttr` writes are read to their end by `unserializeAttr`, on every
  item whose attributes the setters made (`SetBySetters`): each field is read by the case of
  `readAttr` that has its tag. What comes back is decided field by field.

  Proved: `attributes_round_trip_iff`. All attributes come back exactly when they are `Kept`:
  the reflect and the boost table are never written, numbers are cut to the width they are
  written in and strings that are too long are dropped, the charges of an item whose type
  has none are read as its count or fluid, and what is not written is left as a new item of
  the type has it.
-/

import Mathlib.Data.List.Nodup
import Backlands.Attributes.Codec

namespace Backlands.Attributes

open Backlands.Lib Function List

/-! ## Setters -/

theorem setIntAttr_ints_ne {a b : IntAttr} (it : Item) (v : BitVec 64) (h : b ≠ a) :
    (it.setIntAttr a v).ints b = it.ints b := update_of_ne h _ _

theorem setIntAttr_ints {a : IntAttr} (it : Item) (v : BitVec 64) (h : a ≠ .attackSpeed) :
    (it.setIntAttr a v).ints a = some v := by
  show update it.ints a _ a = some v
  rw [update_self, if_neg (fun hc => h hc.1)]

/-! ## The items -/

/-- An item whose attributes the setters made. A map has fewer than 2^64 entries. -/
inductive SetBySetters (ty : TypeInfo) : Item → Prop where
  | fresh (roll : BitVec 32) (uid : Option (BitVec 64)) : SetBySetters ty (freshItem ty roll uid)
  | setIntAttr {it : Item} (a : IntAttr) (v : BitVec 64) : SetBySetters ty it → SetBySetters ty (it.setIntAttr a v)
  | setStrAttr {it : Item} (a : StrAttr) (s : Bytes) : SetBySetters ty it → SetBySetters ty (it.setStrAttr a s)
  | setItemCount {it : Item} (n : BitVec 8) : SetBySetters ty it → SetBySetters ty (it.setItemCount n)
  | setCustomAttribute {it : Item} (key : Bytes) (v : CustomValue) : SetBySetters ty it →
      it.custom.length + 1 < 2 ^ 64 → SetBySetters ty (it.setCustomAttribute key v)
  | setReflect {it : Item} (combatType : BitVec 16) (r : Reflect) : SetBySetters ty it →
      SetBySetters ty (it.setReflect combatType r)
  | setBoostPercent {it : Item} (combatType percent : BitVec 16) : SetBySetters ty it →
      SetBySetters ty (it.setBoostPercent combatType percent)
  | addImbuementSlots {it : Item} (n : BitVec 16) : SetBySetters ty it → SetBySetters ty (it.addImbuementSlots n)
  | addImbuement {it : Item} (i : Imbuement) : SetBySetters ty it → SetBySetters ty (it.addImbuement i)
  | removeInt {it : Item} (a : IntAttr) : SetBySetters ty it →
      SetBySetters ty { it with ints := update it.ints a none }
  | removeStr {it : Item} (a : StrAttr) : SetBySetters ty it →
      SetBySetters ty { it with strs := update it.strs a none }
  | removeCustom {it : Item} (key : Bytes) : SetBySetters ty it →
      SetBySetters ty { it with custom := it.custom.filter fun e => e.1 ≠ asLowerCaseString key }
  /-- The order of a hash map is its own. -/
  | reorder {it : Item} {l : List (Bytes × CustomValue)} : SetBySetters ty it → l.Perm it.custom →
      SetBySetters ty { it with custom := l }

/-- What the setters keep. -/
structure Wellformed (it : Item) : Prop where
  strs : ∀ a s, it.strs a = some s → s ≠ []
  attackSpeed : ∀ v, it.ints .attackSpeed = some v → 100 ≤ v.toInt
  keys : (it.custom.map (·.1)).Nodup
  lower : ∀ e ∈ it.custom, asLowerCaseString e.1 = e.1
  entries : it.custom.length < 2 ^ 64
  imbuements : it.imbuements.length < 2 ^ 16

variable {it : Item}

theorem toLower_toLower (b : UInt8) : toLower (toLower b) = toLower b := by
  unfold toLower
  simp only [UInt8.le_iff_toNat_le]
  split
  · rename_i h
    have h65 : (65 : UInt8).toNat = 65 := rfl
    have h90 : (90 : UInt8).toNat = 90 := rfl
    have hsum : (b + 32).toNat = b.toNat + 32 := by
      show (b.toNat + 32) % 2 ^ 8 = b.toNat + 32
      omega
    rw [if_neg (by omega)]
  · rfl

theorem asLowerCaseString_idem (s : Bytes) : asLowerCaseString (asLowerCaseString s) = asLowerCaseString s := by
  unfold asLowerCaseString
  rw [map_map]
  apply map_congr_left
  intro b _
  exact toLower_toLower b

theorem Wellformed.setIntAttr (h : Wellformed it) (a : IntAttr) (v : BitVec 64) : Wellformed (it.setIntAttr a v) := by
  refine { h with attackSpeed := ?_ }
  intro w hw
  by_cases ha : a = .attackSpeed
  · subst ha
    simp only [Item.setIntAttr, update_self, Option.some.injEq, true_and] at hw
    rw [← hw]
    split
    · decide
    · omega
  · simp only [Item.setIntAttr, update_of_ne (Ne.symm ha)] at hw
    exact h.attackSpeed w hw

theorem Wellformed.setStrAttr (h : Wellformed it) (a : StrAttr) (s : Bytes) : Wellformed (it.setStrAttr a s) := by
  unfold Item.setStrAttr
  split
  · exact h
  rename_i hs
  refine { h with strs := ?_ }
  intro b t ht
  by_cases hb : b = a
  · subst hb
    simp only [update_self, Option.some.injEq] at ht
    rw [← ht]
    exact hs
  · simp only [update_of_ne hb] at ht
    exact h.strs b t ht

theorem Wellformed.setCustomAttribute (h : Wellformed it) (key : Bytes) (v : CustomValue)
    (hlen : it.custom.length + 1 < 2 ^ 64) : Wellformed (it.setCustomAttribute key v) := by
  refine { h with keys := ?_, lower := ?_, entries := ?_ }
  · show (List.map _ (it.custom.filter _ ++ [_])).Nodup
    rw [map_append, map_singleton, nodup_append]
    refine ⟨(h.keys.sublist (filter_sublist.map _)), nodup_singleton _, ?_⟩
    intro k hk k' hk' e
    obtain ⟨x, hx, rfl⟩ := mem_map.mp hk
    rw [mem_singleton] at hk'
    have := (mem_filter.mp hx).2
    rw [decide_eq_true_eq] at this
    exact this (e.trans hk')
  · intro e he
    rcases mem_append.mp he with he | he
    · exact h.lower e (mem_filter.mp he).1
    · rw [mem_singleton.mp he]
      exact asLowerCaseString_idem key
  · show (it.custom.filter _ ++ [_]).length < 2 ^ 64
    have := length_filter_le (fun e : Bytes × CustomValue => decide (e.1 ≠ asLowerCaseString key)) it.custom
    rw [length_append, length_singleton]
    omega

theorem Wellformed.addImbuement (h : Wellformed it) (i : Imbuement) : Wellformed (it.addImbuement i) := by
  unfold Item.addImbuement
  split
  · rename_i hroom
    refine { h with imbuements := ?_ }
    rw [length_append, length_singleton]
    omega
  · exact h

theorem Wellformed.addImbuementSlots (h : Wellformed it) (n : BitVec 16) : Wellformed (it.addImbuementSlots n) := by
  unfold Item.addImbuementSlots
  split
  · exact h
  · exact { h with }

/-! ## New items -/

section
variable (ty : TypeInfo) (roll : BitVec 32)

/-- The slots of a new item. -/
def TypeInfo.startSlots (ty : TypeInfo) : BitVec 16 := if 65535 ≤ ty.imbuementSlot.toNat then 0 else ty.imbuementSlot

theorem newItem_eq (count : BitVec 16) : newItem ty count roll =
    Item.setDefaultDuration ty roll { (emptyItem.startSubType ty count) with imbuementSlots := ty.startSlots } := by
  have hstart : (emptyItem.startSubType ty count).imbuementSlots = 0 ∧
      (emptyItem.startSubType ty count).imbuements = [] := by
    unfold Item.startSubType
    split_ifs <;> exact ⟨rfl, rfl⟩
  unfold newItem
  generalize emptyItem.startSubType ty count = it at hstart
  obtain ⟨count, ints, strs, custom, reflect, boost, slots, imbuements⟩ := it
  obtain ⟨rfl, rfl⟩ := hstart
  unfold TypeInfo.startSlots Item.addImbuementSlots
  by_cases h0 : ty.imbuementSlot = 0
  · simp [h0]
  · have hsum : (0 : BitVec 16) + ty.imbuementSlot = ty.imbuementSlot := BitVec.zero_add _
    simp only [ne_eq, h0, not_false_eq_true, if_true, length_nil, Nat.zero_mod, Nat.zero_add, hsum]
    split <;> rfl

/-- The type has charges, and they are what the item's number means. -/
def TypeInfo.charged (ty : TypeInfo) : Bool := !ty.fluid && !ty.stackable && decide (ty.charges ≠ 0)

structure New (it : Item) : Prop where
  count : ¬ (ty.stackable ∧ ¬ ty.fluid) → it.count = 1
  charges : it.getCharges = if ty.charged then ty.charges.setWidth 16 else 0
  fluidType : ¬ ty.fluid → it.getFluidType = 0
  ints : ∀ a, a ≠ .fluidType → a ≠ .charges → a ≠ .duration → it.ints a = none
  duration : it.ints .duration = none ↔ ty.defaultDuration roll = 0
  strs : it.strs = fun _ => none
  reflect : it.reflect = []
  boostPercent : it.boostPercent = []
  slots : it.imbuementSlots = ty.startSlots
  imbuements : it.imbuements = []

theorem startSubType_subType : let it := emptyItem.startSubType ty (if ty.stackable then 1 else 0)
    (¬ (ty.stackable ∧ ¬ ty.fluid) → it.count = 1) ∧
    (it.getCharges = if ty.charged then ty.charges.setWidth 16 else 0) ∧
    (¬ ty.fluid → it.getFluidType = 0) := by
  unfold Item.startSubType TypeInfo.charged Item.getCharges Item.getFluidType Item.getIntAttr Item.setIntAttr
  unfold Item.setItemCount emptyItem
  cases ty.fluid <;> cases ty.stackable <;> by_cases hc : ty.charges = 0#32 <;> simp [hc]

theorem startSubType_frame (count : BitVec 16) : let it := emptyItem.startSubType ty count
    (∀ a, a ≠ .fluidType → a ≠ .charges → it.ints a = none) ∧ it.strs = (fun _ => none) ∧ it.custom = [] ∧
    it.reflect = [] ∧ it.boostPercent = [] ∧ it.imbuements = [] := by
  unfold Item.startSubType
  refine ⟨?_, ?_⟩
  · intro a hf hc
    split_ifs <;> simp [Item.setIntAttr, Item.setItemCount, emptyItem, update_of_ne, hf, hc]
  · split_ifs <;> exact ⟨rfl, rfl, rfl, rfl, rfl⟩

theorem newItem_new : New ty roll (newItem ty (if ty.stackable then 1 else 0) roll) ∧
    (newItem ty (if ty.stackable then 1 else 0) roll).custom = [] := by
  obtain ⟨hcount, hcharges, hfluid⟩ := startSubType_subType ty
  obtain ⟨hints, hstrs, hcustom, hreflect, hboost, himbuements⟩ :=
    startSubType_frame ty (if ty.stackable then 1 else 0)
  rw [newItem_eq]
  unfold Item.setDefaultDuration
  split
  · rename_i hd
    refine ⟨⟨hcount, hcharges, hfluid, ?_, ?_, hstrs, hreflect, hboost, rfl, himbuements⟩, hcustom⟩
    · intro a hf hc hdur
      rw [Item.setDuration, setIntAttr_ints_ne _ _ hdur]
      exact hints a hf hc
    · rw [Item.setDuration, setIntAttr_ints _ _ (by decide)]
      exact ⟨fun h => absurd h (by simp), fun h => absurd h hd⟩
  · rename_i hd
    refine ⟨⟨hcount, hcharges, hfluid, ?_, ?_, hstrs, hreflect, hboost, rfl, himbuements⟩, hcustom⟩
    · intro a hf hc _
      exact hints a hf hc
    · exact ⟨fun _ => not_ne_iff.mp hd, fun _ => hints _ (by decide) (by decide)⟩

theorem freshItem_new (uid : Option (BitVec 64)) : New ty roll (freshItem ty roll uid) ∧
    (freshItem ty roll uid).custom = uid.toList.map fun n => (uidKey, .int n) := by
  obtain ⟨h, hcustom⟩ := newItem_new ty roll
  cases uid with
  | none => exact ⟨h, hcustom⟩
  | some n =>
    refine ⟨{ h with }, ?_⟩
    show List.filter _ (newItem ty (if ty.stackable then 1 else 0) roll).custom ++ _ = _
    rw [hcustom]
    rfl

theorem freshItem_wellformed (uid : Option (BitVec 64)) : Wellformed (freshItem ty roll uid) := by
  obtain ⟨h, hcustom⟩ := freshItem_new ty roll uid
  have hspeed := h.ints .attackSpeed (by decide) (by decide) (by decide)
  constructor
  · simp [h.strs]
  · simp [hspeed]
  · rw [hcustom]
    cases uid <;> simp
  · rw [hcustom]
    cases uid with
    | none => simp
    | some n => simp; rfl
  · rw [hcustom]
    cases uid <;> simp
  · simp [h.imbuements]

end

theorem SetBySetters.wellformed {ty : TypeInfo} (h : SetBySetters ty it) : Wellformed it := by
  induction h with
  | fresh roll uid => exact freshItem_wellformed ty roll uid
  | setIntAttr a v _ ih => exact ih.setIntAttr a v
  | setStrAttr a s _ ih => exact ih.setStrAttr a s
  | setItemCount n _ ih => exact ⟨ih.strs, ih.attackSpeed, ih.keys, ih.lower, ih.entries, ih.imbuements⟩
  | setCustomAttribute key v _ hlen ih => exact ih.setCustomAttribute key v hlen
  | setReflect t r _ ih => exact ⟨ih.strs, ih.attackSpeed, ih.keys, ih.lower, ih.entries, ih.imbuements⟩
  | setBoostPercent t n _ ih => exact ⟨ih.strs, ih.attackSpeed, ih.keys, ih.lower, ih.entries, ih.imbuements⟩
  | addImbuementSlots n _ ih => exact ih.addImbuementSlots n
  | addImbuement i _ ih => exact ih.addImbuement i
  | removeInt a _ ih =>
    refine ⟨ih.strs, ?_, ih.keys, ih.lower, ih.entries, ih.imbuements⟩
    intro v hv
    by_cases ha : a = .attackSpeed
    · subst ha
      simp at hv
    · simp only [update_of_ne (Ne.symm ha)] at hv
      exact ih.attackSpeed v hv
  | removeStr a _ ih =>
    refine ⟨?_, ih.attackSpeed, ih.keys, ih.lower, ih.entries, ih.imbuements⟩
    intro b s hs
    by_cases hb : b = a
    · subst hb
      simp at hs
    · simp only [update_of_ne hb] at hs
      exact ih.strs b s hs
  | removeCustom key _ ih =>
    refine ⟨ih.strs, ih.attackSpeed, ih.keys.sublist (filter_sublist.map _), ?_, ?_, ih.imbuements⟩
    · intro e he
      exact ih.lower e (mem_filter.mp he).1
    · exact lt_of_le_of_lt (length_filter_le _ _) ih.entries
  | reorder _ hperm ih =>
    refine ⟨ih.strs, ih.attackSpeed, ((hperm.map _).nodup_iff).mpr ih.keys, ?_, ?_, ih.imbuements⟩
    · intro e he
      exact ih.lower e (hperm.mem_iff.mp he)
    · exact hperm.length_eq ▸ ih.entries

/-! ## Reading a field back -/

/-- A string as it comes back. -/
def stored (s : Bytes) : Bytes := if 65535 < s.length then [] else s

def CustomValue.stored : CustomValue → CustomValue
  | .string s => .string (Attributes.stored s)
  | .none => .none
  | .int n => .int n
  | .double bits => .double bits
  | .bool b => .bool b

def putCustom (it : Item) (e : Bytes × CustomValue) : Item := it.setCustomAttribute (stored e.1) e.2.stored

def apply (ty : TypeInfo) (it : Item) : Field → Item
  | .count n => it.setSubType ty (n.setWidth 16)
  | .charges n => it.setSubType ty n
  | .actionId n => it.setActionId n
  | .str a s => it.setStrAttr a (stored s)
  | .date d => it.setDate d
  | .duration d => it.setDuration d
  | .decayingState s => readDecaying s it
  | .int f v => it.setIntAttr f.attr (f.widen v)
  | .imbueSlots n => { it with imbuementSlots := n.setWidth 16 }
  | .imbuements l => l.foldl (fun it i => it.addImbuement i) it
  | .custom l => l.foldl putCustom it

theorem ofCode_code (t : AttrTag) : AttrTag.ofCode t.code = some t := by cases t <;> rfl

theorem code_ne_zero (t : AttrTag) : t.code ≠ 0 := by cases t <;> decide

theorem scans_word {n : Nat} (h : 8 ∣ n) (x : BitVec n) : Scans (readWord n).scan (word x) x := (parses_readWord h x).scans

theorem scans_readString (s : Bytes) : Scans readString (writeString s) (stored s) := by
  unfold writeString stored
  split
  · have hnone : Parses (cut (0 : BitVec 16).toNat) [] [] := parses_cut []
    exact (scans_word (by decide) (0 : BitVec 16)).bind hnone.scans
  rename_i h
  refine (scans_word (by decide) (BitVec.ofNat 16 s.length)).bind ?_
  rw [BitVec.toNat_ofNat, Nat.mod_eq_of_lt (by omega)]
  exact (parses_cut s).scans

theorem packed_halves (i : Imbuement) : let packed := i.baseId.setWidth 32 <<< 16 ||| i.decaytype.setWidth 32
    (packed &&& 0xFFFF).setWidth 8 = i.decaytype ∧ ((packed >>> 16) &&& 0xFFFF).setWidth 16 = i.baseId := by
  have hlow : ∀ k, (h : k < 8) → (255#8)[k] = true := by decide
  have hhigh : ∀ k, (h : k < 16) → (65535#16)[k] = true := by decide
  constructor
  · apply BitVec.eq_of_getLsbD_eq
    intro k hk
    simp [hk, hlow k hk]
  · apply BitVec.eq_of_getLsbD_eq
    intro k hk
    have hout : i.decaytype.getLsbD (16 + k) = false := BitVec.getLsbD_of_ge _ _ (by omega)
    simp [hk, hout, hhigh k hk, show 16 + k < 32 by omega, show k < 32 by omega]

theorem scans_readImbuement (i : Imbuement) : Scans readImbuement i.bytes i := by
  have h8 : (8 : Nat) ∣ 32 := by decide
  obtain ⟨hdecay, hbase⟩ := packed_halves i
  refine (scans_word h8 _).bind ((scans_word h8 _).bind ((scans_word h8 _).bind ((scans_word h8 _).bind ?_)))
  rw [hdecay, hbase, BitVec.setWidth_setWidth_of_le _ (by decide), BitVec.setWidth_eq]
  exact Scans.pure _

theorem singleton_eq_word (b : UInt8) : [b] = word (BitVec.ofNat 8 b.toNat) := by
  have hlt := b.toNat_lt
  show [b] = [UInt8.ofNat _]
  rw [BitVec.toNat_ofNat]
  simp

theorem scans_readCustomValue (v : CustomValue) : Scans readCustomValue v.bytes v.stored := by
  cases v with
  | none =>
    show Scans readCustomValue ([0] ++ []) .none
    rw [singleton_eq_word 0]
    exact (scans_word (by decide) _).bind (Scans.pure _)
  | string s =>
    show Scans readCustomValue ([1] ++ writeString s) (.string (stored s))
    rw [singleton_eq_word 1, ← append_nil (writeString s)]
    exact (scans_word (by decide) _).bind ((scans_readString s).bind (Scans.pure _))
  | int n =>
    show Scans readCustomValue ([2] ++ word n) (.int n)
    rw [singleton_eq_word 2, ← append_nil (word n)]
    exact (scans_word (by decide) _).bind ((scans_word (by decide) n).bind (Scans.pure _))
  | double bits =>
    show Scans readCustomValue ([3] ++ word bits) (.double bits)
    rw [singleton_eq_word 3, ← append_nil (word bits)]
    exact (scans_word (by decide) _).bind ((scans_word (by decide) bits).bind (Scans.pure _))
  | bool b =>
    cases b with
    | false =>
      show Scans readCustomValue ([4] ++ ([0] ++ [])) (.bool false)
      rw [singleton_eq_word 4, singleton_eq_word 0]
      exact (scans_word (by decide) _).bind ((scans_word (by decide) _).bind (Scans.pure _))
    | true =>
      show Scans readCustomValue ([4] ++ ([1] ++ [])) (.bool true)
      rw [singleton_eq_word 4, singleton_eq_word 1]
      exact (scans_word (by decide) _).bind ((scans_word (by decide) _).bind (Scans.pure _))

theorem scans_readCustomEntry (e : Bytes × CustomValue) :
    Scans readCustomEntry (writeString e.1 ++ e.2.bytes) (stored e.1, e.2.stored) := by
  rw [← append_nil e.2.bytes]
  exact (scans_readString e.1).bind ((scans_readCustomValue e.2).bind (Scans.pure _))

theorem scans_counted {α β : Type*} {n : Nat} {p : Scan β} {enc : α → Bytes} {dec : α → β} {as : List α} (h8 : 8 ∣ n)
    (hlen : as.length < 2 ^ n) (h : ∀ a ∈ as, Scans p (enc a) (dec a)) :
    Scans (counted n p) (word (BitVec.ofNat n as.length) ++ as.flatMap enc) (as.map dec) := by
  refine (scans_word h8 _).bind ?_
  rw [BitVec.toNat_ofNat, Nat.mod_eq_of_lt hlen]
  exact Scans.times h

/-- The tables are not longer than their counters can say. -/
def Field.Sized : Field → Prop
  | .imbuements l => l.length < 2 ^ 16
  | .custom l => l.length < 2 ^ 64
  | _ => True

section
variable (ty : TypeInfo) (addUniqueItem : BitVec 16 → Bool)

theorem set_scans {α : Type} {p : Scan α} {f : α → Item → Item} {bs : Bytes} {a : α} (h : Scans p bs a) (it : Item)
    (rest : Bytes) : set p f it (bs ++ rest) = .more (f a it) rest := Outcome.scan_scans h rest

theorem readAttr_field (f : Field) (hf : f.Sized) (it : Item) (rest : Bytes) :
    readAttr ty addUniqueItem f.tag it (f.value ++ rest) = .more (apply ty it f) rest := by
  cases f with
  | count n => exact set_scans (scans_word (by decide) n) it rest
  | charges n => exact set_scans (scans_word (by decide) n) it rest
  | actionId n => exact set_scans (scans_word (by decide) n) it rest
  | str a s => cases a <;> exact set_scans (scans_readString s) it rest
  | date d => exact set_scans (scans_word (by decide) d) it rest
  | duration d => exact set_scans (scans_word (by decide) d) it rest
  | decayingState s => exact set_scans (scans_word (by decide) s) it rest
  | int f v =>
    have hcase : ∀ bs, readAttr ty addUniqueItem f.tag it bs = setInt f it bs := by
      intro bs
      cases f <;> rfl
    have hwidth : 8 ∣ f.width := by cases f <;> decide
    exact (hcase _).trans (set_scans (f := fun v => Item.setIntAttr f.attr (f.widen v)) (scans_word hwidth v) it rest)
  | imbueSlots n =>
    exact set_scans (f := fun n it => { it with imbuementSlots := n.setWidth 16 }) (scans_word (by decide) n) it rest
  | imbuements l =>
    have h := set_scans (f := fun l it => l.foldl (fun it i => it.addImbuement i) it)
      (scans_counted (by decide) hf fun i _ => scans_readImbuement i) it rest
    rwa [map_id_fun'] at h
  | custom l =>
    have h := set_scans (f := fun l it => l.foldl (fun it e => it.setCustomAttribute e.1 e.2) it)
      (scans_counted (by decide) hf fun e _ => scans_readCustomEntry e) it rest
    rwa [foldl_map] at h

theorem runs_field (f : Field) (hf : f.Sized) (it : Item) :
    Runs 0 (readByte ty addUniqueItem) f.bytes it (apply ty it f) := by
  refine Runs.field (code_ne_zero f.tag) fun rest => ?_
  rw [readByte, ofCode_code]
  exact readAttr_field ty addUniqueItem f hf it rest

theorem runs_fields (fs : List Field) (hfs : ∀ f ∈ fs, f.Sized) (it : Item) :
    Runs 0 (readByte ty addUniqueItem) (fs.flatMap Field.bytes) it (fs.foldl (apply ty) it) := by
  refine Runs.flatMap fun pre f post e => ?_
  rw [foldl_append]
  exact runs_field ty addUniqueItem f (hfs f (by rw [e]; simp)) _

theorem fieldsOf_sized {enabled : Bool} {now : BitVec 64} (hw : Wellformed it) :
    ∀ f ∈ fieldsOf ty enabled now it, f.Sized := by
  have hif : ∀ {p : Bool} {f : Field}, f.Sized → ∀ g ∈ writeIf p f, g.Sized := by
    intro p f hf g hg
    cases p with
    | false => cases hg
    | true => rwa [mem_singleton.mp hg]
  have hint : ∀ f : IntField, ∀ g ∈ writeInt it f, g.Sized := by
    intro f g hg
    unfold writeInt at hg
    split at hg
    · rw [mem_singleton.mp hg]
      exact trivial
    · cases hg
  have hname : ∀ a : StrAttr, ∀ g ∈ writeName it a, g.Sized := by
    intro a g hg
    unfold writeName at hg
    split at hg
    · rw [mem_singleton.mp hg]
      exact trivial
    · cases hg
  unfold fieldsOf writeText
  simp only [forall_mem_append]
  refine ⟨?_, hif hw.entries⟩
  repeat' constructor
  all_goals first | exact hint _ | exact hname _ | exact hif trivial | exact hif hw.imbuements

end

/-! ## One part of the item at a time -/

inductive Part where
  | subType | actionId | str (a : StrAttr) | date | decay | int (f : IntField) | imbuing | custom
  deriving DecidableEq

def Field.part : Field → Part
  | .count _ | .charges _ => .subType
  | .actionId _ => .actionId
  | .str a _ => .str a
  | .date _ => .date
  | .duration _ | .decayingState _ => .decay
  | .int f _ => .int f
  | .imbueSlots _ | .imbuements _ => .imbuing
  | .custom _ => .custom

def only (c : Part) (fs : List Field) : List Field := fs.filter fun f => decide (f.part = c)

theorem only_append (c : Part) (fs gs : List Field) : only c (fs ++ gs) = only c fs ++ only c gs :=
  filter_append ..

theorem only_const {c d : Part} {fs : List Field} (h : ∀ f ∈ fs, f.part = d) : only c fs = if d = c then fs else [] := by
  split
  · rename_i e
    exact filter_eq_self.mpr fun f hf => decide_eq_true ((h f hf).trans e)
  · rename_i ne
    exact filter_eq_nil_iff.mpr fun f hf hd => ne ((h f hf).symm.trans (of_decide_eq_true hd))

theorem only_writeIf (c : Part) (p : Bool) (f : Field) :
    only c (writeIf p f) = if f.part = c then writeIf p f else [] := by
  apply only_const
  intro g hg
  cases p with
  | false => cases hg
  | true => rw [mem_singleton.mp hg]

theorem only_writeInt (c : Part) (it : Item) (f : IntField) :
    only c (writeInt it f) = if Part.int f = c then writeInt it f else [] := by
  apply only_const
  intro g hg
  unfold writeInt at hg
  split at hg
  · rw [mem_singleton.mp hg]
    rfl
  · cases hg

theorem only_writeName (c : Part) (it : Item) (a : StrAttr) :
    only c (writeName it a) = if Part.str a = c then writeName it a else [] := by
  apply only_const
  intro g hg
  unfold writeName at hg
  split at hg
  · rw [mem_singleton.mp hg]
    rfl
  · cases hg

section
variable (ty : TypeInfo) (enabled : Bool) (now : BitVec 64) (it : Item)

theorem only_subType : only .subType (fieldsOf ty enabled now it) =
    writeIf (ty.stackable || ty.fluid) (.count ((it.getSubType ty).setWidth 8)) ++
    writeIf (decide (it.getCharges ≠ 0)) (.charges it.getCharges) := by
  unfold fieldsOf writeText
  simp only [only_append, only_writeIf, only_writeInt, only_writeName]
  simp only [Field.part, reduceCtorEq, if_true, if_false, append_nil]

theorem only_str (a : StrAttr) (hw : Wellformed it) :
    only (.str a) (fieldsOf ty enabled now it) = (it.strs a).toList.map (.str a) := by
  have htext : writeText it a = (it.strs a).toList.map (.str a) := by
    unfold writeText Item.getStrAttr
    cases hs : it.strs a with
    | none => rfl
    | some s => simp [writeIf, hw.strs a s hs]
  have hname : writeName it a = (it.strs a).toList.map (.str a) := by
    unfold writeName
    cases it.strs a <;> rfl
  have hpart : ∀ b, only (.str a) (writeText it b) = if Part.str b = .str a then writeText it b else [] := by
    intro b
    exact only_writeIf _ _ _
  unfold fieldsOf
  simp only [only_append, hpart, only_writeIf, only_writeInt, only_writeName]
  cases a <;> simp only [Field.part, reduceCtorEq, Part.str.injEq, if_true, if_false, nil_append,
    append_nil, htext, hname]

theorem only_date : only .date (fieldsOf ty enabled now it) =
    writeIf (decide (it.getIntAttr .date ≠ 0)) (.date ((it.getIntAttr .date).setWidth 32)) := by
  unfold fieldsOf writeText
  simp only [only_append, only_writeIf, only_writeInt, only_writeName]
  simp only [Field.part, reduceCtorEq, if_true, if_false, nil_append, append_nil]

theorem only_decay : only .decay (fieldsOf ty enabled now it) =
    writeIf (it.ints .duration).isSome (.duration (it.getDuration now)) ++
    writeIf (decide (it.getDecaying = DECAYING_TRUE) || decide (it.getDecaying = DECAYING_PENDING))
      (.decayingState it.getDecaying) := by
  unfold fieldsOf writeText
  simp only [only_append, only_writeIf, only_writeInt, only_writeName]
  simp only [Field.part, reduceCtorEq, if_true, if_false, nil_append, append_nil]

theorem only_int (f : IntField) : only (.int f) (fieldsOf ty enabled now it) = writeInt it f := by
  unfold fieldsOf writeText
  simp only [only_append, only_writeIf, only_writeInt, only_writeName]
  cases f <;> simp only [Field.part, reduceCtorEq, Part.int.injEq, if_true, if_false, nil_append, append_nil]

theorem only_imbuing : only .imbuing (fieldsOf ty enabled now it) =
    writeIf (decide (it.getImbuementSlots enabled ≠ 0)) (.imbueSlots (it.imbuementSlots.setWidth 32)) ++
    writeIf (!it.imbuements.isEmpty) (.imbuements it.imbuements) := by
  unfold fieldsOf writeText
  simp only [only_append, only_writeIf, only_writeInt, only_writeName]
  simp only [Field.part, reduceCtorEq, if_true, if_false, nil_append, append_nil]

theorem only_custom : only .custom (fieldsOf ty enabled now it) = writeIf (!it.custom.isEmpty) (.custom it.custom) := by
  unfold fieldsOf writeText
  simp only [only_append, only_writeIf, only_writeInt, only_writeName]
  simp only [Field.part, reduceCtorEq, if_true, if_false, nil_append, append_nil]

end

/-! ### What a field leaves alone -/

/-- The part an integer attribute is in. -/
def IntAttr.part : IntAttr → Option Part
  | .actionId => some .actionId
  | .date => some .date
  | .duration | .decayState => some .decay
  | .charges | .fluidType => some .subType
  | .weight => some (.int .weight)
  | .attack => some (.int .attack)
  | .attackSpeed => some (.int .attackSpeed)
  | .classification => some (.int .classification)
  | .tier => some (.int .tier)
  | .defense => some (.int .defense)
  | .extraDefense => some (.int .extraDefense)
  | .armor => some (.int .armor)
  | .hitChance => some (.int .hitChance)
  | .shootRange => some (.int .shootRange)
  | .wrapId => some (.int .wrapId)
  | .storeItem => some (.int .storeItem)
  | .uniqueId | .owner | .corpseOwner | .doorId | .durationTimestamp | .reduceSkillLoss | .dropBonus => none

theorem part_attr (f : IntField) : f.attr.part = some (.int f) := by cases f <;> rfl

section
variable (ty : TypeInfo)

theorem foldl_addImbuement (l : List Imbuement) (it : Item) : l.foldl (fun it i => it.addImbuement i) it =
    { it with imbuements := it.imbuements ++ l.take (it.imbuementSlots.toNat - it.imbuements.length) } := by
  induction l generalizing it with
  | nil => simp
  | cons i l ih =>
    rw [foldl_cons, ih]
    unfold Item.addImbuement
    split
    · rename_i h
      obtain ⟨m, hm⟩ : ∃ m, it.imbuementSlots.toNat - it.imbuements.length = m + 1 :=
        ⟨it.imbuementSlots.toNat - it.imbuements.length - 1, by omega⟩
      have hm' : it.imbuementSlots.toNat - (it.imbuements.length + 1) = m := by omega
      simp [hm, hm']
    · rename_i h
      rw [Nat.sub_eq_zero_of_le (by omega)]
      simp

def putEntry (m : List (Bytes × CustomValue)) (e : Bytes × CustomValue) : List (Bytes × CustomValue) :=
  m.filter (fun x => x.1 ≠ asLowerCaseString (stored e.1)) ++ [(asLowerCaseString (stored e.1), e.2.stored)]

theorem foldl_putCustom (l : List (Bytes × CustomValue)) (it : Item) :
    l.foldl putCustom it = { it with custom := l.foldl putEntry it.custom } := by
  induction l generalizing it with
  | nil => rfl
  | cons e l ih =>
    rw [foldl_cons, ih]
    rfl

/-- `r` differs from `it` in one part at most; the reflect and the boost table are in none. -/
structure Frame (c : Part) (it r : Item) : Prop where
  count : c ≠ .subType → r.count = it.count
  ints : ∀ a, a.part ≠ some c → r.ints a = it.ints a
  strs : ∀ a, c ≠ .str a → r.strs a = it.strs a
  custom : c ≠ .custom → r.custom = it.custom
  imbuing : c ≠ .imbuing → r.imbuementSlots = it.imbuementSlots ∧ r.imbuements = it.imbuements
  reflect : r.reflect = it.reflect
  boostPercent : r.boostPercent = it.boostPercent

theorem Frame.refl (c : Part) (it : Item) : Frame c it it :=
  ⟨fun _ => rfl, fun _ _ => rfl, fun _ _ => rfl, fun _ => rfl, fun _ => ⟨rfl, rfl⟩, rfl, rfl⟩

theorem Frame.setIntAttr {c : Part} {a : IntAttr} (h : a.part = some c) (it : Item) (v : BitVec 64) :
    Frame c it (it.setIntAttr a v) := by
  refine ⟨fun _ => rfl, ?_, fun _ _ => rfl, fun _ => rfl, fun _ => ⟨rfl, rfl⟩, rfl, rfl⟩
  intro b hb
  exact setIntAttr_ints_ne _ _ (by rintro rfl; exact hb h)

theorem Frame.setSubType (it : Item) (n : BitVec 16) : Frame .subType it (it.setSubType ty n) := by
  have hcount : ∀ m, Frame .subType it (it.setItemCount m) := fun m =>
    ⟨fun h => absurd rfl h, fun _ _ => rfl, fun _ _ => rfl, fun _ => rfl, fun _ => ⟨rfl, rfl⟩, rfl, rfl⟩
  unfold Item.setSubType
  split_ifs
  · exact Frame.setIntAttr rfl it _
  · exact hcount _
  · exact Frame.setIntAttr rfl it _
  · exact hcount _

theorem apply_frame (it : Item) (f : Field) : Frame f.part it (apply ty it f) := by
  cases f with
  | count n => exact Frame.setSubType ty it _
  | charges n => exact Frame.setSubType ty it _
  | actionId n => exact Frame.setIntAttr rfl it _
  | str a s =>
    show Frame (.str a) it (it.setStrAttr a (stored s))
    unfold Item.setStrAttr
    split
    · exact Frame.refl _ it
    · refine ⟨fun _ => rfl, fun _ _ => rfl, ?_, fun _ => rfl, fun _ => ⟨rfl, rfl⟩, rfl, rfl⟩
      intro b hb
      exact update_of_ne (by rintro rfl; exact hb rfl) _ _
  | date d => exact Frame.setIntAttr rfl it _
  | duration d => exact Frame.setIntAttr rfl it _
  | decayingState s =>
    show Frame .decay it (readDecaying s it)
    unfold readDecaying
    split
    · exact Frame.setIntAttr rfl it _
    · exact Frame.refl _ it
  | int f v => exact Frame.setIntAttr (part_attr f) it _
  | imbueSlots n =>
    exact ⟨fun _ => rfl, fun _ _ => rfl, fun _ _ => rfl, fun _ => rfl, fun h => absurd rfl h, rfl, rfl⟩
  | imbuements l =>
    simp only [apply, foldl_addImbuement]
    exact ⟨fun _ => rfl, fun _ _ => rfl, fun _ _ => rfl, fun _ => rfl, fun h => absurd rfl h, rfl, rfl⟩
  | custom l =>
    simp only [apply, foldl_putCustom]
    exact ⟨fun _ => rfl, fun _ _ => rfl, fun _ _ => rfl, fun h => absurd rfl h, fun _ => ⟨rfl, rfl⟩, rfl, rfl⟩

/-- Seen through `g`, the fields of one part are all that matters. -/
structure Sees {γ : Type} (c : Part) (g : Item → γ) : Prop where
  frame : ∀ it r d, d ≠ c → Frame d it r → g r = g it
  apply : ∀ it it' f, f.part = c → g it = g it' → g (apply ty it f) = g (apply ty it' f)

/-- The item that the fields of `it` make of `fresh`. -/
def readBack (enabled : Bool) (now : BitVec 64) (fresh it : Item) : Item :=
  (fieldsOf ty enabled now it).foldl (apply ty) fresh

theorem Sees.readBack {γ : Type} {c : Part} {g : Item → γ} (h : Sees ty c g) (enabled : Bool) (now : BitVec 64)
    (fresh it : Item) : g (readBack ty enabled now fresh it) =
      g ((only c (fieldsOf ty enabled now it)).foldl (Attributes.apply ty) fresh) :=
  foldl_filter_seen
    (fun it f hf => h.frame it _ f.part (by simpa using hf) (apply_frame ty it f))
    (fun it it' f hf e => h.apply it it' f (by simpa using hf) e) _ fresh

theorem foldl_reflect (fs : List Field) (it : Item) : (fs.foldl (apply ty) it).reflect = it.reflect ∧
    (fs.foldl (apply ty) it).boostPercent = it.boostPercent := by
  induction fs generalizing it with
  | nil => exact ⟨rfl, rfl⟩
  | cons f fs ih =>
    have hf := apply_frame ty it f
    exact ⟨(ih _).1.trans hf.reflect, (ih _).2.trans hf.boostPercent⟩

end

/-! ## What fits -/

theorem signExtend_setWidth_eq_iff {w : Nat} (hw : w + 1 ≤ 64) (v : BitVec 64) :
    (v.setWidth (w + 1)).signExtend 64 = v ↔ -2 ^ w ≤ v.toInt ∧ v.toInt < 2 ^ w := by
  rw [← BitVec.toInt_inj, BitVec.toInt_signExtend_of_le hw, ← BitVec.signExtend_eq_setWidth_of_le v hw,
    BitVec.toInt_signExtend_eq_toInt_bmod_of_le v hw, Int.bmod_eq_iff (Nat.two_pow_pos _), sub_self]
  have hpow : ((2 ^ (w + 1) : Nat) : Int) = 2 * 2 ^ w := by
    push_cast
    ring
  constructor
  · rintro ⟨hlow, hhigh, -⟩
    omega
  · rintro ⟨hlow, hhigh⟩
    exact ⟨by omega, by omega, dvd_zero _⟩

/-- The value can be written in the field's width. -/
def IntField.Holds (f : IntField) (v : BitVec 64) : Prop :=
  if f.signed then -2 ^ (f.width - 1) ≤ v.toInt ∧ v.toInt < 2 ^ (f.width - 1) else v.toNat < 2 ^ f.width

theorem widen_setWidth_eq_iff (f : IntField) (v : BitVec 64) : f.widen (v.setWidth f.width) = v ↔ f.Holds v := by
  have hunsigned : ∀ w ≤ 64, (v.setWidth w).setWidth 64 = v ↔ v.toNat < 2 ^ w := by
    intro w hw
    rw [← BitVec.toNat_inj, BitVec.toNat_setWidth_of_le hw, BitVec.toNat_setWidth]
    exact ⟨fun h => h ▸ Nat.mod_lt _ (Nat.two_pow_pos w), Nat.mod_eq_of_lt⟩
  cases f with
  | attack | defense | extraDefense | armor => exact signExtend_setWidth_eq_iff (w := 31) (by decide) v
  | hitChance => exact signExtend_setWidth_eq_iff (w := 7) (by decide) v
  | weight | attackSpeed | classification | tier => exact hunsigned 32 (by decide)
  | shootRange | storeItem => exact hunsigned 8 (by decide)
  | wrapId => exact hunsigned 16 (by decide)

theorem stored_eq_iff (s : Bytes) : stored s = s ↔ s.length ≤ 65535 := by
  unfold stored
  split
  · rename_i h
    constructor
    · intro e
      rw [← e] at h
      exact absurd h (by decide)
    · omega
  · rename_i h
    exact ⟨fun _ => by omega, fun _ => rfl⟩

theorem length_stored (s : Bytes) : (stored s).length ≤ 65535 := by
  unfold stored
  split
  · decide
  · omega

/-- A string, or another value, that is not too long. -/
def CustomValue.Fits (v : CustomValue) : Prop := ∀ s, v = .string s → s.length ≤ 65535

theorem CustomValue.stored_eq_iff (v : CustomValue) : v.stored = v ↔ v.Fits := by
  cases v with
  | string s =>
    show CustomValue.string (Attributes.stored s) = .string s ↔ _
    rw [CustomValue.string.injEq, Attributes.stored_eq_iff]
    exact ⟨fun h t e => by cases e; exact h, fun h => h s rfl⟩
  | none | int | double | bool => exact ⟨fun _ s e => (by cases e), fun _ => rfl⟩

/-! ## What comes back -/

def Item.duration? (now : BitVec 64) (it : Item) : Option (BitVec 32) := (it.ints .duration).map fun _ => it.getDuration now

/-- All the attributes are what they were. The tables are compared by their entries. -/
structure Restored (now : BitVec 64) (it r : Item) : Prop where
  count : r.count = it.count
  charges : r.getCharges = it.getCharges
  fluidType : r.getFluidType = it.getFluidType
  strs : ∀ a, r.strs a = it.strs a
  date : r.getIntAttr .date = it.getIntAttr .date
  duration : r.duration? now = it.duration? now
  ints : ∀ f : IntField, r.ints f.attr = it.ints f.attr
  slots : r.imbuementSlots = it.imbuementSlots
  imbuements : r.imbuements = it.imbuements
  reflect : ∀ e, e ∈ r.reflect ↔ e ∈ it.reflect
  boostPercent : ∀ e, e ∈ r.boostPercent ↔ e ∈ it.boostPercent
  custom : ∀ e, e ∈ r.custom ↔ e ∈ it.custom

/-- What the codec can keep of an item, read back into a fresh one of the same type. -/
structure Kept (ty : TypeInfo) (enabled : Bool) (now : BitVec 64) (roll : BitVec 32) (uid : Option (BitVec 64))
    (it : Item) : Prop where
  count : (ty.stackable ∧ ¬ ty.fluid) ∨ it.count = 1
  charges : if ty.charged then it.getCharges ≠ 0 ∨ ty.charges.setWidth 16 = (0 : BitVec 16) else it.getCharges = 0
  fluidType : if ty.fluid then it.getFluidType.toNat < 256 else it.getFluidType = 0
  strs : ∀ a s, it.strs a = some s → s.length ≤ 65535
  date : -2 ^ 31 ≤ (it.getIntAttr .date).toInt ∧ (it.getIntAttr .date).toInt < 2 ^ 31
  duration : if (it.ints .duration).isSome then 0 ≤ (it.getDuration now).toInt else ty.defaultDuration roll = 0
  ints : ∀ (f : IntField) v, it.ints f.attr = some v → f.Holds v
  slots : (enabled ∧ it.imbuementSlots ≠ 0) ∨ it.imbuementSlots = ty.startSlots
  imbuements : it.imbuements.length ≤ it.imbuementSlots.toNat
  reflect : it.reflect = []
  boostPercent : it.boostPercent = []
  custom : ∀ e ∈ it.custom, e.1.length ≤ 65535 ∧ e.2.Fits
  uid : uid = none ∨ uidKey ∈ it.custom.map (·.1)

section
variable {ty : TypeInfo} (enabled : Bool) (now : BitVec 64) {roll : BitVec 32} (it : Item) {fresh : Item}

theorem foldl_writeIf (p : Bool) (f : Field) (s : Item) :
    (writeIf p f).foldl (apply ty) s = if p then apply ty s f else s := by
  cases p <;> rfl

/-- The number of the item: its count, its charges or its fluid. -/
def subType (it : Item) : BitVec 8 × BitVec 16 × BitVec 16 := (it.count, it.getCharges, it.getFluidType)

/-- `setSubType` on these three. -/
def putSubType (ty : TypeInfo) (n : BitVec 16) (t : BitVec 8 × BitVec 16 × BitVec 16) : BitVec 8 × BitVec 16 × BitVec 16 :=
  if ty.fluid then (t.1, t.2.1, n) else if ty.charged then (t.1, n, t.2.2) else (n.setWidth 8, t.2)

theorem subType_setSubType (s : Item) (n : BitVec 16) : subType (s.setSubType ty n) = putSubType ty n (subType s) := by
  unfold Item.setSubType putSubType TypeInfo.charged subType Item.getCharges Item.getFluidType Item.getIntAttr
  cases ty.fluid <;> cases ty.stackable <;> by_cases hc : ty.charges = 0#32 <;>
    simp [hc, Item.setIntAttr, Item.setItemCount]

theorem sees_subType : Sees ty .subType subType := by
  constructor
  · intro it r d hd h
    have hcharges := h.ints .charges (by simpa [IntAttr.part] using Ne.symm hd)
    have hfluid := h.ints .fluidType (by simpa [IntAttr.part] using Ne.symm hd)
    simp only [subType, Item.getCharges, Item.getFluidType, Item.getIntAttr, h.count hd, hcharges, hfluid]
  · intro it it' f hf e
    cases f with
    | count n => simp only [apply, subType_setSubType, e]
    | charges n => simp only [apply, subType_setSubType, e]
    | _ => cases hf

theorem subType_back : subType (readBack ty enabled now fresh it) =
    (let t := subType fresh
      let t := if ty.stackable || ty.fluid then putSubType ty (((it.getSubType ty).setWidth 8).setWidth 16) t else t
      if it.getCharges = 0#16 then t else putSubType ty it.getCharges t) := by
  rw [sees_subType.readBack, only_subType, foldl_append, foldl_writeIf, foldl_writeIf]
  cases h : (ty.stackable || ty.fluid) <;> by_cases hc : it.getCharges = 0#16 <;>
    simp [hc, apply, subType_setSubType]

theorem setWidth_8_16_iff (n : BitVec 16) : (n.setWidth 8).setWidth 16 = n ↔ n.toNat < 256 := by
  rw [← BitVec.toNat_inj, BitVec.toNat_setWidth_of_le (by decide), BitVec.toNat_setWidth]
  omega

theorem subType_back_iff (hn : New ty roll fresh) :
    subType (readBack ty enabled now fresh it) = subType it ↔
    ((ty.stackable ∧ ¬ ty.fluid) ∨ it.count = 1) ∧
    (if ty.charged then it.getCharges ≠ 0 ∨ ty.charges.setWidth 16 = (0 : BitVec 16) else it.getCharges = 0) ∧
    (if ty.fluid then it.getFluidType.toNat < 256 else it.getFluidType = 0) := by
  rw [subType_back]
  have hcount := hn.count
  have hcharges := hn.charges
  have hfluid := hn.fluidType
  unfold putSubType subType Item.getSubType
  by_cases hf : ty.fluid
  · have hch : ty.charged = false := by simp [TypeInfo.charged, hf]
    have hone : fresh.count = 1#8 := hcount (fun h => h.2 hf)
    by_cases hc : it.getCharges = 0#16
    · simp [hf, hch, hc, hcharges, hone, setWidth_8_16_iff, eq_comm (a := 1#8)]
    · simp [hf, hch, hc, hcharges, eq_comm (a := 0#16)]
  · have hzero : fresh.getFluidType = 0#16 := hfluid hf
    by_cases hs : ty.stackable
    · have hch : ty.charged = false := by simp [TypeInfo.charged, hs]
      by_cases hc : it.getCharges = 0#16
      · simp [hf, hs, hch, hc, hcharges, hzero, eq_comm]
      · simp [hf, hs, hch, hc, hcharges, eq_comm]
    · have hone : fresh.count = 1#8 := hcount (fun h => hs h.1)
      by_cases hch : ty.charged
      · by_cases hc : it.getCharges = 0#16
        · simp [hf, hs, hch, hc, hcharges, hzero, hone, eq_comm]
        · simp [hf, hs, hch, hc, hzero, hone, eq_comm]
      · by_cases hc : it.getCharges = 0#16
        · simp [hf, hs, hch, hc, hcharges, hzero, hone, eq_comm]
        · simp [hf, hs, hch, hc, hcharges, eq_comm]

theorem strs_back_iff (hn : New ty roll fresh) (hw : Wellformed it) (a : StrAttr) :
    (readBack ty enabled now fresh it).strs a = it.strs a ↔
    ∀ s, it.strs a = some s → s.length ≤ 65535 := by
  have hsees : Sees ty (.str a) fun it => it.strs a := by
    constructor
    · intro it r d hd h
      exact h.strs a hd
    intro it it' f hf e
    cases f with
    | str b s =>
      cases hf
      show (it.setStrAttr a (stored s)).strs a = (it'.setStrAttr a (stored s)).strs a
      unfold Item.setStrAttr
      split
      · exact e
      · simp
    | _ => cases hf
  rw [hsees.readBack, only_str ty enabled now it a hw]
  cases hs : it.strs a with
  | none => simp [hn.strs]
  | some s =>
    show (fresh.setStrAttr a (stored s)).strs a = some s ↔ _
    simp only [Option.some.injEq, forall_eq']
    rw [← stored_eq_iff]
    unfold Item.setStrAttr
    split
    · rename_i h
      rw [hn.strs, h]
      exact ⟨fun h => (by cases h), fun e => absurd e.symm (hw.strs a s hs)⟩
    · simp

theorem date_back_iff (hn : New ty roll fresh) :
    (readBack ty enabled now fresh it).getIntAttr .date = it.getIntAttr .date ↔
    -2 ^ 31 ≤ (it.getIntAttr .date).toInt ∧ (it.getIntAttr .date).toInt < 2 ^ 31 := by
  have hsees : Sees ty .date fun it => it.getIntAttr .date := by
    constructor
    · intro it r d hd h
      simp only [Item.getIntAttr, h.ints .date (by simpa [IntAttr.part] using Ne.symm hd)]
    intro it it' f hf _
    cases f with
    | date d => simp only [apply, Item.setDate, Item.getIntAttr, setIntAttr_ints _ _ (by decide : IntAttr.date ≠ .attackSpeed)]
    | _ => cases hf
  rw [hsees.readBack, only_date, foldl_writeIf]
  by_cases h0 : it.getIntAttr .date = 0
  · have hnone := hn.ints .date (by decide) (by decide) (by decide)
    simp only [h0, ne_eq, not_true_eq_false, decide_false, Bool.false_eq_true, if_false]
    simp [Item.getIntAttr, hnone]
  · rw [decide_eq_true h0, if_pos rfl, ← signExtend_setWidth_eq_iff (w := 31) (by decide)]
    simp only [apply, Item.setDate, Item.getIntAttr, setIntAttr_ints _ _ (by decide : IntAttr.date ≠ .attackSpeed),
      Option.getD_some]

theorem ints_back_iff (hn : New ty roll fresh) (hw : Wellformed it) (f : IntField) :
    (readBack ty enabled now fresh it).ints f.attr = it.ints f.attr ↔
    ∀ v, it.ints f.attr = some v → f.Holds v := by
  have hsees : Sees ty (.int f) fun it => it.ints f.attr := by
    constructor
    · intro it r d hd h
      exact h.ints f.attr (by rw [part_attr]; simpa using Ne.symm hd)
    intro it it' g hg _
    cases g with
    | int g v =>
      cases hg
      simp only [apply, Item.setIntAttr, update_self]
    | _ => cases hg
  rw [hsees.readBack, only_int]
  cases hv : it.ints f.attr with
  | none =>
    have hnone : fresh.ints f.attr = none := by
      apply hn.ints <;> cases f <;> decide
    simp [writeInt, hv, hnone]
  | some v =>
    have hput : (writeInt it f).foldl (apply ty) fresh = fresh.setIntAttr f.attr (f.widen (v.setWidth f.width)) := by
      rw [writeInt, hv]
      rfl
    simp only [hput, Option.some.injEq, forall_eq', ← widen_setWidth_eq_iff]
    show update fresh.ints f.attr _ f.attr = some v ↔ _
    rw [update_self, Option.some.injEq]
    split
    · rename_i h
      -- An attack speed that is cut below a hundred is read as a hundred, which would not have been cut.
      have hf : f = .attackSpeed := by
        cases f <;> first | rfl | exact absurd h.1 (by decide)
      subst hf
      have hmin := hw.attackSpeed v hv
      constructor
      · rintro rfl
        exact absurd h.2 (by decide)
      · intro e
        rw [e] at h
        omega
    · rfl

theorem imbuing_back (hn : New ty roll fresh) :
    let slots := if enabled ∧ it.imbuementSlots ≠ 0 then it.imbuementSlots else ty.startSlots
    (readBack ty enabled now fresh it).imbuementSlots = slots ∧
    (readBack ty enabled now fresh it).imbuements = it.imbuements.take slots.toNat := by
  have hsees : Sees ty .imbuing fun it => (it.imbuementSlots, it.imbuements) := by
    constructor
    · intro it r d hd h
      obtain ⟨hslots, himbuements⟩ := h.imbuing hd
      rw [hslots, himbuements]
    intro it it' f hf e
    rw [Prod.mk.injEq] at e
    cases f with
    | imbueSlots n => simp only [apply, e.2]
    | imbuements l => simp only [apply, foldl_addImbuement, e.1, e.2]
    | _ => cases hf
  have hback := hsees.readBack ty enabled now fresh it
  rw [only_imbuing, foldl_append, foldl_writeIf, foldl_writeIf, Prod.mk.injEq] at hback
  obtain ⟨hslots, himbuements⟩ := hback
  rw [hslots, himbuements]
  -- The item with its slots set, before the imbuements are read.
  generalize hs : (if decide (it.getImbuementSlots enabled ≠ 0) = true then
    apply ty fresh (.imbueSlots (it.imbuementSlots.setWidth 32)) else fresh) = s
  have hset : s.imbuementSlots = (if enabled ∧ it.imbuementSlots ≠ 0 then it.imbuementSlots else ty.startSlots) ∧
      s.imbuements = [] := by
    rw [← hs]
    cases enabled with
    | false => simp [Item.getImbuementSlots, hn.slots, hn.imbuements]
    | true =>
      by_cases h0 : it.imbuementSlots = 0#16
      · simp [Item.getImbuementSlots, h0, hn.slots, hn.imbuements]
      · simp [Item.getImbuementSlots, h0, apply, hn.imbuements]
  obtain ⟨hsslots, hsimbuements⟩ := hset
  rw [← hsslots]
  cases hi : it.imbuements with
  | nil => exact ⟨rfl, hsimbuements.trans take_nil.symm⟩
  | cons i l =>
    show (List.foldl _ s (i :: l)).imbuementSlots = _ ∧ (List.foldl _ s (i :: l)).imbuements = _
    rw [foldl_addImbuement, hsimbuements]
    exact ⟨rfl, rfl⟩

theorem take_eq_self_iff {α : Type} {n : Nat} {l : List α} : l.take n = l ↔ l.length ≤ n := by
  constructor
  · intro h
    have hlen := congrArg List.length h
    rw [length_take] at hlen
    omega
  · exact take_of_length_le

theorem imbuing_back_iff (hn : New ty roll fresh) :
    ((readBack ty enabled now fresh it).imbuementSlots = it.imbuementSlots ∧
      (readBack ty enabled now fresh it).imbuements = it.imbuements) ↔
    ((enabled ∧ it.imbuementSlots ≠ 0) ∨ it.imbuementSlots = ty.startSlots) ∧
    it.imbuements.length ≤ it.imbuementSlots.toNat := by
  obtain ⟨hslots, himbuements⟩ := imbuing_back enabled now it hn
  rw [hslots, himbuements]
  split
  · rename_i h
    rw [take_eq_self_iff]
    exact ⟨fun hl => ⟨.inl h, hl.2⟩, fun hl => ⟨rfl, hl.2⟩⟩
  rename_i h
  constructor
  · rintro ⟨hs, hl⟩
    rw [hs, take_eq_self_iff] at hl
    exact ⟨.inr hs.symm, hl⟩
  · rintro ⟨hs, hl⟩
    have hs := hs.resolve_left h
    rw [← hs, take_eq_self_iff]
    exact ⟨rfl, hl⟩

theorem duration?_eq {r : Item}
    (h : r.ints .decayState = none ∨ r.ints .decayState = some (DECAYING_PENDING.setWidth 64)) :
    r.duration? now = (r.ints .duration).map fun v => v.setWidth 32 := by
  have hstate : ¬ (r.getDecaying = DECAYING_TRUE ∨ r.getDecaying = DECAYING_STOPPING) := by
    unfold Item.getDecaying Item.getIntAttr
    rcases h with h | h <;> rw [h] <;> decide
  unfold Item.duration? Item.getDuration
  rw [if_neg hstate]
  cases hd : r.ints .duration with
  | none => rfl
  | some v => simp [Item.getIntAttr, hd]

theorem readDecaying_ints {s : Item} (h : s.ints .decayState = none) (t : BitVec 8) :
    ((readDecaying t s).ints .decayState = none ∨
      (readDecaying t s).ints .decayState = some (DECAYING_PENDING.setWidth 64)) ∧
    (readDecaying t s).ints .duration = s.ints .duration := by
  unfold readDecaying
  split
  · exact ⟨.inr (setIntAttr_ints _ _ (by decide)), setIntAttr_ints_ne _ _ (by decide)⟩
  · exact ⟨.inl h, rfl⟩

theorem duration_back (hn : New ty roll fresh) : (readBack ty enabled now fresh it).duration? now =
    if (it.ints .duration).isSome then some (atLeastZero (it.getDuration now))
    else (fresh.ints .duration).map fun v => v.setWidth 32 := by
  have hsees : Sees ty .decay fun it => (it.ints .duration, it.ints .decayState) := by
    constructor
    · intro it r d hd h
      rw [h.ints .duration (by simpa [IntAttr.part] using Ne.symm hd),
        h.ints .decayState (by simpa [IntAttr.part] using Ne.symm hd)]
    intro it it' f hf e
    rw [Prod.mk.injEq] at e
    cases f with
    | duration d => simp [apply, Item.setDuration, Item.setIntAttr, e.2]
    | decayingState s =>
      simp only [apply, readDecaying]
      split
      · simp [Item.setDecaying, Item.setIntAttr, e.1]
      · rw [e.1, e.2]
    | _ => cases hf
  have hback := hsees.readBack ty enabled now fresh it
  rw [only_decay, foldl_append, foldl_writeIf, foldl_writeIf, Prod.mk.injEq] at hback
  obtain ⟨hduration, hstate⟩ := hback
  generalize hs : (if (it.ints .duration).isSome = true then apply ty fresh (.duration (it.getDuration now)) else fresh)
    = s at hduration hstate
  have hset : s.ints .decayState = none ∧ s.ints .duration = if (it.ints .duration).isSome then
      some ((atLeastZero (it.getDuration now)).signExtend 64) else fresh.ints .duration := by
    have hnone := hn.ints .decayState (by decide) (by decide) (by decide)
    rw [← hs]
    split
    · exact ⟨hnone, setIntAttr_ints _ _ (by decide)⟩
    · exact ⟨hnone, rfl⟩
  have hread : ((readBack ty enabled now fresh it).ints .decayState = none ∨
      (readBack ty enabled now fresh it).ints .decayState = some (DECAYING_PENDING.setWidth 64)) ∧
      (readBack ty enabled now fresh it).ints .duration = s.ints .duration := by
    rw [hduration, hstate]
    split
    · exact readDecaying_ints hset.1 _
    · exact ⟨.inl hset.1, rfl⟩
  rw [duration?_eq now hread.1, hread.2, hset.2]
  split
  · rw [Option.map_some, setWidth_signExtend (by decide)]
  · rfl

theorem duration_back_iff (hn : New ty roll fresh) :
    (readBack ty enabled now fresh it).duration? now = it.duration? now ↔
    if (it.ints .duration).isSome then 0 ≤ (it.getDuration now).toInt else ty.defaultDuration roll = 0 := by
  rw [duration_back enabled now it hn, Item.duration?, ← hn.duration]
  cases hd : it.ints .duration with
  | none => simp
  | some v =>
    simp only [Option.isSome_some, if_true, Option.map_some, Option.some.injEq]
    unfold atLeastZero
    split
    · rename_i h
      constructor
      · intro e
        rw [← e]
        decide
      · omega
    · rename_i h
      exact ⟨fun _ => by omega, fun _ => rfl⟩

/-! ### Custom attributes -/

theorem mem_putEntry {m : List (Bytes × CustomValue)} {e x : Bytes × CustomValue} :
    x ∈ putEntry m e ↔ (x ∈ m ∧ x.1 ≠ asLowerCaseString (stored e.1)) ∨
      x = (asLowerCaseString (stored e.1), e.2.stored) := by
  simp [putEntry]

/-- What is in the table is from before, or has a key that is not too long. -/
theorem length_of_mem_foldl {l m : List (Bytes × CustomValue)} {x : Bytes × CustomValue} (h : x ∈ l.foldl putEntry m) :
    x ∈ m ∨ x.1.length ≤ 65535 := by
  induction l generalizing m with
  | nil => exact .inl h
  | cons e l ih =>
    rcases ih h with h | h
    · rcases mem_putEntry.mp h with ⟨h, -⟩ | rfl
      · exact .inl h
      · right
        rw [asLowerCaseString, length_map]
        exact length_stored e.1
    · exact .inr h

theorem mem_foldl_putEntry {l m : List (Bytes × CustomValue)} (hkeys : (l.map (·.1)).Nodup)
    (hlower : ∀ e ∈ l, asLowerCaseString e.1 = e.1) (hshort : ∀ e ∈ l, e.1.length ≤ 65535) (x : Bytes × CustomValue) :
    x ∈ l.foldl putEntry m ↔ (x ∈ m ∧ x.1 ∉ l.map (·.1)) ∨ ∃ e ∈ l, x = (e.1, e.2.stored) := by
  induction l generalizing m with
  | nil => simp
  | cons e l ih =>
    rw [map_cons, nodup_cons] at hkeys
    have hkey : asLowerCaseString (stored e.1) = e.1 := by
      rw [(stored_eq_iff e.1).mpr (hshort e mem_cons_self), hlower e mem_cons_self]
    rw [foldl_cons, ih hkeys.2 (fun e he => hlower e (mem_cons_of_mem _ he))
      (fun e he => hshort e (mem_cons_of_mem _ he)), mem_putEntry, hkey, map_cons, mem_cons]
    constructor
    · rintro (⟨⟨hm, hne⟩ | rfl, hl⟩ | ⟨e', he', rfl⟩)
      · exact .inl ⟨hm, fun h => h.elim hne hl⟩
      · exact .inr ⟨e, mem_cons_self, rfl⟩
      · exact .inr ⟨e', mem_cons_of_mem _ he', rfl⟩
    · rintro (⟨hm, hl⟩ | ⟨e', he', rfl⟩)
      · exact .inl ⟨.inl ⟨hm, fun h => hl (.inl h)⟩, fun h => hl (.inr h)⟩
      · rcases mem_cons.mp he' with rfl | he'
        · exact .inl ⟨.inr rfl, hkeys.1⟩
        · exact .inr ⟨e', he', rfl⟩

theorem custom_back : (readBack ty enabled now fresh it).custom = it.custom.foldl putEntry fresh.custom := by
  have hsees : Sees ty .custom fun it => it.custom := by
    constructor
    · intro it r d hd h
      exact h.custom hd
    intro it it' f hf e
    cases f with
    | custom l => simp only [apply, foldl_putCustom, e]
    | _ => cases hf
  rw [hsees.readBack, only_custom, foldl_writeIf]
  cases hc : it.custom with
  | nil => rfl
  | cons e l => exact congrArg Item.custom (foldl_putCustom (e :: l) fresh)

theorem custom_back_iff (ty : TypeInfo) {uid : Option (BitVec 64)} (hw : Wellformed it)
    (hcustom : fresh.custom = uid.toList.map fun n => (uidKey, .int n)) :
    (∀ e, e ∈ (readBack ty enabled now fresh it).custom ↔ e ∈ it.custom) ↔
    (∀ e ∈ it.custom, e.1.length ≤ 65535 ∧ e.2.Fits) ∧ (uid = none ∨ uidKey ∈ it.custom.map (·.1)) := by
  rw [custom_back]
  have huid : ∀ x ∈ fresh.custom, x.1 = uidKey := by
    intro x hx
    rw [hcustom] at hx
    obtain ⟨n, -, rfl⟩ := mem_map.mp hx
    rfl
  constructor
  · intro h
    have hshort : ∀ e ∈ it.custom, e.1.length ≤ 65535 := by
      intro e he
      rcases length_of_mem_foldl ((h e).mpr he) with hm | hl
      · rw [huid e hm]
        decide
      · exact hl
    have hmem := mem_foldl_putEntry (m := fresh.custom) hw.keys hw.lower hshort
    refine ⟨fun e he => ⟨hshort e he, ?_⟩, ?_⟩
    · rcases (hmem e).mp ((h e).mpr he) with ⟨-, hne⟩ | ⟨e', he', heq⟩
      · exact absurd (mem_map_of_mem he) hne
      have hsame : e = e' := inj_on_of_nodup_map hw.keys he he' (by rw [heq])
      subst hsame
      rw [← CustomValue.stored_eq_iff]
      exact (congrArg Prod.snd heq).symm
    · cases uid with
      | none => exact .inl rfl
      | some n =>
        right
        by_contra hne
        have hin : (uidKey, .int n) ∈ fresh.custom := by simp [hcustom]
        exact hne (mem_map_of_mem ((h _).mp ((hmem _).mpr (.inl ⟨hin, hne⟩))))
  · rintro ⟨hfits, hkey⟩ x
    rw [mem_foldl_putEntry hw.keys hw.lower (fun e he => (hfits e he).1) x]
    have hsame : ∀ e ∈ it.custom, (e.1, e.2.stored) = e := by
      intro e he
      rw [(CustomValue.stored_eq_iff e.2).mpr (hfits e he).2]
    constructor
    · rintro (⟨hm, hne⟩ | ⟨e, he, rfl⟩)
      · rcases hkey with rfl | hkey
        · simp [hcustom] at hm
        · rw [huid x hm] at hne
          exact absurd hkey hne
      · rwa [hsame e he]
    · intro hx
      exact .inr ⟨x, hx, (hsame x hx).symm⟩

end

/-! ## The round trip -/

theorem restored_iff {ty : TypeInfo} {enabled : Bool} {now : BitVec 64} {roll : BitVec 32} {uid : Option (BitVec 64)}
    (hw : Wellformed it) :
    Restored now it (readBack ty enabled now (freshItem ty roll uid) it) ↔ Kept ty enabled now roll uid it := by
  obtain ⟨hn, hcustom⟩ := freshItem_new ty roll uid
  obtain ⟨hreflect, hboost⟩ := foldl_reflect ty (fieldsOf ty enabled now it) (freshItem ty roll uid)
  rw [hn.reflect] at hreflect
  rw [hn.boostPercent] at hboost
  have hsub := subType_back_iff enabled now it hn
  have hstrs := strs_back_iff enabled now it hn hw
  have hdate := date_back_iff enabled now it hn
  have hduration := duration_back_iff enabled now it hn
  have hints := ints_back_iff enabled now it hn hw
  have himbuing := imbuing_back_iff enabled now it hn
  have hcust := custom_back_iff enabled now it ty hw hcustom
  constructor
  · intro h
    obtain ⟨hk1, hk2, hk3⟩ := hsub.mp (by simp only [subType, h.count, h.charges, h.fluidType])
    obtain ⟨hk4, hk5⟩ := himbuing.mp ⟨h.slots, h.imbuements⟩
    obtain ⟨hk6, hk7⟩ := hcust.mp h.custom
    refine ⟨hk1, hk2, hk3, fun a => (hstrs a).mp (h.strs a), hdate.mp h.date, hduration.mp h.duration,
      fun f => (hints f).mp (h.ints f), hk4, hk5, ?_, ?_, hk6, hk7⟩
    · apply eq_nil_iff_forall_not_mem.mpr
      intro e he
      have := (h.reflect e).mpr he
      rw [readBack, hreflect] at this
      cases this
    · apply eq_nil_iff_forall_not_mem.mpr
      intro e he
      have := (h.boostPercent e).mpr he
      rw [readBack, hboost] at this
      cases this
  · intro h
    have hsub := hsub.mpr ⟨h.count, h.charges, h.fluidType⟩
    simp only [subType, Prod.mk.injEq] at hsub
    obtain ⟨hslots, himbuements⟩ := himbuing.mpr ⟨h.slots, h.imbuements⟩
    refine ⟨hsub.1, hsub.2.1, hsub.2.2, fun a => (hstrs a).mpr (h.strs a), hdate.mpr h.date, hduration.mpr h.duration,
      fun f => (hints f).mpr (h.ints f), hslots, himbuements, ?_, ?_, hcust.mpr ⟨h.custom, h.uid⟩⟩
    · intro e
      rw [readBack, hreflect, h.reflect]
    · intro e
      rw [readBack, hboost, h.boostPercent]

/-- The bytes are always read to their end; the attributes are all there again exactly when
    they are `Kept`. -/
theorem attributes_round_trip_iff (ty : TypeInfo) (enabled : Bool) (now : BitVec 64) (roll : BitVec 32)
    (uid : Option (BitVec 64)) (addUniqueItem : BitVec 16 → Bool) (it : Item) (h : SetBySetters ty it) :
    (∃ r, unserializeAttr ty addUniqueItem (freshItem ty roll uid) (serializeAttr ty enabled now it) = .ended r [] ∧
      Restored now it r) ↔ Kept ty enabled now roll uid it := by
  have hw := h.wellformed
  have hruns := runs_fields ty addUniqueItem (fieldsOf ty enabled now it) (fieldsOf_sized ty hw) (freshItem ty roll uid)
  have hread : unserializeAttr ty addUniqueItem (freshItem ty roll uid) (serializeAttr ty enabled now it) =
      .ended (readBack ty enabled now (freshItem ty roll uid) it) [] := hruns.readTags_all
  rw [← restored_iff hw, hread]
  constructor
  · rintro ⟨r, hr, hres⟩
    rw [Outcome.ended.injEq] at hr
    rwa [hr.1]
  · intro hres
    exact ⟨_, rfl, hres⟩

/-- A sword that can be imbued twice. -/
def swordType : TypeInfo := ⟨false, false, true, 0, 2, 0, 0⟩

def sword : Item :=
  ((((freshItem swordType 0 (some 7)).setIntAttr .attack 40).setStrAttr .name [97, 120, 101]).addImbuement
    ⟨1, 5, 100, 0, 3⟩).setCustomAttribute [75] (.string [1, 2])

theorem attributes_round_trip_iff_sword : SetBySetters swordType sword ∧
    ∃ r, unserializeAttr swordType (fun _ => true) (freshItem swordType 0 (some 9)) (serializeAttr swordType true 0 sword) =
      .ended r [] ∧ Restored 0 sword r := by
  have hset : SetBySetters swordType sword :=
    .setCustomAttribute _ _ (.addImbuement _ (.setStrAttr _ _ (.setIntAttr _ _ (.fresh 0 (some 7))))) (by decide)
  refine ⟨hset, (attributes_round_trip_iff swordType true 0 0 (some 9) (fun _ => true) sword hset).mpr ?_⟩
  refine ⟨.inr rfl, rfl, rfl, ?_, by decide, rfl, ?_, .inl ⟨rfl, by decide⟩, by decide, rfl, rfl, ?_, .inr (by decide)⟩
  · intro a s hs
    cases a with
    | name =>
      cases hs
      decide
    | _ => cases hs
  · intro f v hv
    cases f with
    | attack =>
      cases hv
      exact ⟨by decide, by decide⟩
    | _ => cases hv
  · intro e he
    have he' : e ∈ [(uidKey, CustomValue.int 7), ([107], .string [1, 2])] := he
    rcases mem_cons.mp he' with rfl | he'
    · exact ⟨by decide, fun s hs => by cases hs⟩
    · rw [mem_singleton.mp he']
      refine ⟨by decide, fun s hs => ?_⟩
      cases hs
      decide

/-- An item of a type that has nothing special. -/
def mirrorType : TypeInfo := ⟨false, false, true, 0, 0, 0, 0⟩

/-- It reflects half of the damage of one kind. -/
def mirror : Item := (freshItem mirrorType 0 none).setReflect 1 ⟨50, 100⟩

/-- Nothing is written for it. -/
theorem reflect_lost : SetBySetters mirrorType mirror ∧ ¬ ∃ r,
    unserializeAttr mirrorType (fun _ => true) (freshItem mirrorType 0 none) (serializeAttr mirrorType true 0 mirror) =
      .ended r [] ∧ Restored 0 mirror r := by
  refine ⟨.setReflect _ _ (.fresh 0 none), ?_⟩
  rintro ⟨r, hr, hres⟩
  have hbytes : serializeAttr mirrorType true 0 mirror = [] := by decide
  have hread : unserializeAttr mirrorType (fun _ => true) (freshItem mirrorType 0 none)
      (serializeAttr mirrorType true 0 mirror) = .ended (freshItem mirrorType 0 none) [] := by
    rw [hbytes]
    rfl
  rw [hread, Outcome.ended.injEq] at hr
  have hin := (hres.reflect (1, ⟨50, 100⟩)).mpr mem_cons_self
  rw [← hr.1] at hin
  cases hin

end Backlands.Attributes
