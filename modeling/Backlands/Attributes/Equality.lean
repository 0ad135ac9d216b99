/-
  Backlands.Attributes.Equality — whether two items may be merged (`Item::equals`,
  `equalsIgnoringInstance`, src/item.cpp; `ItemAttributes`, src/item.h).

  An attribute's value is of the type its bit says, an attribute stands in the list once, and
  the bits are those of the list. Entries of `ITEM_ATTRIBUTE_NONE` or of several bits are left out.
  A comparison that fails (`std::bad_variant_access`) is `none`.

  The comparison takes what is no string for an integer, custom attributes as well, and looks at
  neither the reflect nor the boost table. Proved: `comparable_iff`. Two items compare as items
  that may be merged have to, whatever the order of their attributes, exactly when they are
  `Plain`; an item equals itself exactly when it has no custom attributes; and what is equal is
  so transitively. Counterexample: `custom_throws`.
-/

import Backlands.Attributes.Codec
import Mathlib.Data.List.Nodup
import Mathlib.Data.List.Perm.Basic

namespace Backlands.Attributes.Equality

open Backlands.Lib Backlands.Attributes List

/-! ## Attributes -/

inductive AttrType where
  | int (a : IntAttr)
  | str (a : StrAttr)
  | custom
  deriving DecidableEq

def AttrType.shift : AttrType → Nat
  | .int a => match a with
    | .actionId => 0
    | .uniqueId => 1
    | .date => 4
    | .weight => 9
    | .attack => 10
    | .defense => 11
    | .extraDefense => 12
    | .armor => 13
    | .hitChance => 14
    | .shootRange => 15
    | .owner => 16
    | .duration => 17
    | .decayState => 18
    | .corpseOwner => 19
    | .charges => 20
    | .fluidType => 21
    | .doorId => 22
    | .durationTimestamp => 23
    | .wrapId => 24
    | .storeItem => 25
    | .attackSpeed => 26
    | .classification => 27
    | .tier => 28
    | .reduceSkillLoss => 32
    | .dropBonus => 33
  | .str a => match a with
    | .description => 2
    | .text => 3
    | .writer => 5
    | .name => 6
    | .article => 7
    | .pluralName => 8
  | .custom => 34

def AttrType.bit (t : AttrType) : BitVec 64 := BitVec.twoPow 64 t.shift

abbrev CustomAttributeMap := List (Bytes × CustomValue)

inductive Attribute where
  | int (a : IntAttr) (value : BitVec 64)
  | str (a : StrAttr) (value : Bytes)
  | custom (value : CustomAttributeMap)
  deriving DecidableEq

namespace Attribute

def type : Attribute → AttrType
  | int a _ => .int a
  | str a _ => .str a
  | custom _ => .custom

def isStrAttrType : Attribute → Bool
  | str _ _ => true
  | _ => false

/-- `std::get<std::string>`. -/
def getString : Attribute → Option Bytes
  | str _ value => some value
  | _ => none

/-- `std::get<int64_t>`. -/
def getInt : Attribute → Option (BitVec 64)
  | int _ value => some value
  | _ => none

end Attribute

def bitsOf (list : List Attribute) : BitVec 64 := list.foldr (fun a bits => a.type.bit ||| bits) 0

structure ItemAttributes where
  attributes : List Attribute
  attributeBits : BitVec 64
  reflect : List (BitVec 16 × Reflect)
  boostPercent : List (BitVec 16 × BitVec 16)
  nodup : (attributes.map Attribute.type).Nodup
  bits_eq : attributeBits = bitsOf attributes

structure Item where
  id : UInt16
  instanceId : UInt32
  attributes : Option ItemAttributes

/-- The inner loop, which ends at the first difference. -/
def scan {β : Type} [DecidableEq β] (get : Attribute → Option β) (attr : Attribute) : List Attribute → Option Bool
  | [] => some true
  | other :: rest =>
    if attr.type = other.type then do
      let value ← get attr
      let otherValue ← get other
      if value ≠ otherValue then return false
      scan get attr rest
    else scan get attr rest

def scanOne (attr : Attribute) (others : List Attribute) : Option Bool :=
  if attr.isStrAttrType then scan Attribute.getString attr others else scan Attribute.getInt attr others

def scanAll (others : List Attribute) : List Attribute → Option Bool
  | [] => some true
  | attr :: rest => do
    let same ← scanOne attr others
    if same then scanAll others rest else return false

namespace Item

def equalsIgnoringInstance (item other : Item) : Option Bool :=
  if item.id ≠ other.id then some false
  else
    match item.attributes, other.attributes with
    | none, none => some true
    | none, some otherAttributes => some (otherAttributes.attributeBits == 0)
    | some attributes, none => some (attributes.attributeBits == 0)
    | some attributes, some otherAttributes =>
      if attributes.attributeBits ≠ otherAttributes.attributeBits then some false
      else scanAll otherAttributes.attributes attributes.attributes

def equals (item other : Item) : Option Bool :=
  if item.instanceId ≠ other.instanceId then some false else item.equalsIgnoringInstance other

end Item

/-! ## Bits -/

theorem shift_lt (t : AttrType) : t.shift < 64 := by
  cases t with
  | int a => cases a <;> decide
  | str a => cases a <;> decide
  | custom => decide

theorem shift_inj {t u : AttrType} (h : t.shift = u.shift) : t = u := by
  revert h
  cases t with
  | int a => cases u with
    | int b => cases a <;> cases b <;> decide
    | str b => cases a <;> cases b <;> decide
    | custom => cases a <;> decide
  | str a => cases u with
    | int b => cases a <;> cases b <;> decide
    | str b => cases a <;> cases b <;> decide
    | custom => cases a <;> decide
  | custom => cases u with
    | int b => cases b <;> decide
    | str b => cases b <;> decide
    | custom => exact fun _ => rfl

theorem bitsOf_shift (list : List Attribute) (t : AttrType) :
    (bitsOf list).getLsbD t.shift = decide (t ∈ list.map Attribute.type) := by
  induction list with
  | nil => simp [bitsOf]
  | cons a rest ih =>
    change (a.type.bit ||| bitsOf rest).getLsbD t.shift = _
    rw [BitVec.getLsbD_or, ih, AttrType.bit, BitVec.getLsbD_twoPow]
    have hshift : a.type.shift = t.shift ↔ t = a.type := ⟨fun h => (shift_inj h).symm, fun h => h ▸ rfl⟩
    simp [shift_lt, hshift]

theorem mem_of_bits {list other : List Attribute} (h : bitsOf list = bitsOf other) (t : AttrType) :
    t ∈ list.map Attribute.type ↔ t ∈ other.map Attribute.type := by
  have hbit := congrArg (BitVec.getLsbD · t.shift) h
  simp only [bitsOf_shift] at hbit
  exact decide_eq_decide.mp hbit

theorem bitsOf_perm {list other : List Attribute} (h : list.Perm other) : bitsOf list = bitsOf other := by
  induction h with
  | nil => rfl
  | cons a _ ih => exact congrArg (a.type.bit ||| ·) ih
  | swap a b rest =>
    change b.type.bit ||| (a.type.bit ||| bitsOf rest) = a.type.bit ||| (b.type.bit ||| bitsOf rest)
    rw [← BitVec.or_assoc, BitVec.or_comm b.type.bit, BitVec.or_assoc]
  | trans _ _ ih ih' => exact ih.trans ih'

theorem eq_nil_of_bits {list : List Attribute} (h : bitsOf list = 0) : list = [] := by
  cases list with
  | nil => rfl
  | cons a rest =>
    have hbits : bitsOf (a :: rest) = bitsOf [] := h
    have hmem := (mem_of_bits hbits a.type).mp (mem_cons_self ..)
    exact absurd hmem not_mem_nil

/-! ## Lists -/

section Lists

variable {attr : Attribute} {list others : List Attribute}

def NoCustom (list : List Attribute) : Prop := AttrType.custom ∉ list.map Attribute.type

def Agree (attr : Attribute) (others : List Attribute) : Prop := ∀ o ∈ others, o.type = attr.type → o = attr

instance (attr : Attribute) (others : List Attribute) : Decidable (Agree attr others) :=
  inferInstanceAs (Decidable (∀ o ∈ others, o.type = attr.type → o = attr))

theorem agree_cons {o : Attribute} : Agree attr (o :: others) ↔ (o.type = attr.type → o = attr) ∧ Agree attr others :=
  forall_mem_cons

theorem scan_eq {β : Type} [DecidableEq β] {get : Attribute → Option β} {value : β} (hget : get attr = some value)
    (hsame : ∀ o, o.type = attr.type → ∃ v, get o = some v ∧ (v = value ↔ o = attr)) :
    scan get attr others = some (decide (Agree attr others)) := by
  induction others with
  | nil => simp [scan, Agree]
  | cons o rest ih =>
    unfold scan
    by_cases htype : attr.type = o.type
    · obtain ⟨v, hv, hiff⟩ := hsame o htype.symm
      rw [if_pos htype, hget, hv, ih]
      by_cases heq : value = v
      · have hattr := hiff.mp heq.symm
        simp [heq, agree_cons, hattr]
      · have hattr : o ≠ attr := fun h => heq (hiff.mpr h).symm
        simp [heq, agree_cons, hattr, htype]
    · rw [if_neg htype, ih]
      simp [agree_cons, Ne.symm htype]

theorem scanAll_cons {rest : List Attribute} :
    scanAll others (attr :: rest) = (scanOne attr others).bind fun same => if same then scanAll others rest else some false :=
  rfl

theorem scanOne_plain (h : attr.type ≠ .custom) : scanOne attr others = some (decide (Agree attr others)) := by
  cases attr with
  | int a value =>
    have hget : Attribute.getInt (.int a value) = some value := rfl
    refine scan_eq hget fun o ho => ?_
    cases o with
    | int b v =>
      obtain rfl : b = a := AttrType.int.inj ho
      exact ⟨v, rfl, by simp⟩
    | str b v => exact nomatch ho
    | custom m => exact nomatch ho
  | str a value =>
    have hget : Attribute.getString (.str a value) = some value := rfl
    refine scan_eq hget fun o ho => ?_
    cases o with
    | int b v => exact nomatch ho
    | str b v =>
      obtain rfl : b = a := AttrType.str.inj ho
      exact ⟨v, rfl, by simp⟩
    | custom m => exact nomatch ho
  | custom m => exact absurd rfl h

theorem scanOne_custom (h : attr.type = .custom) (hothers : ¬ NoCustom others) : scanOne attr others = none := by
  cases attr with
  | int a value => exact nomatch h
  | str a value => exact nomatch h
  | custom m =>
    show scan Attribute.getInt (.custom m) others = none
    induction others with
    | nil => exact absurd not_mem_nil hothers
    | cons o rest ih =>
      unfold scan
      by_cases htype : (Attribute.custom m).type = o.type
      · rw [if_pos htype]
        rfl
      rw [if_neg htype]
      refine ih fun hrest => hothers fun hmem => ?_
      rw [map_cons, mem_cons] at hmem
      exact hmem.elim htype hrest

theorem scanAll_plain (h : NoCustom list) : scanAll others list = some (decide (∀ a ∈ list, Agree a others)) := by
  induction list with
  | nil => simp [scanAll]
  | cons a rest ih =>
    unfold NoCustom at h ih
    rw [map_cons, mem_cons, not_or] at h
    rw [scanAll_cons, scanOne_plain (Ne.symm h.1), ih h.2]
    by_cases hagree : Agree a others <;> simp [hagree]

theorem scanAll_ne_true (h : ¬ NoCustom list) (hothers : ¬ NoCustom others) : scanAll others list ≠ some true := by
  induction list with
  | nil => exact absurd not_mem_nil h
  | cons a rest ih =>
    rw [scanAll_cons]
    by_cases ha : a.type = .custom
    · rw [scanOne_custom ha hothers]
      exact nofun
    have hrest : ¬ NoCustom rest := by
      intro hno
      refine h fun hmem => ?_
      rw [map_cons, mem_cons] at hmem
      exact hmem.elim (fun hc => ha hc.symm) hno
    rw [scanOne_plain ha]
    by_cases hagree : Agree a others
    · simpa [hagree] using ih hrest
    · simp [hagree]

theorem agree_iff_perm (hnodup : (list.map Attribute.type).Nodup) (hothers : (others.map Attribute.type).Nodup)
    (htypes : ∀ t, t ∈ list.map Attribute.type ↔ t ∈ others.map Attribute.type) :
    (∀ a ∈ list, Agree a others) ↔ list.Perm others := by
  constructor
  · intro hagree
    refine (perm_ext_iff_of_nodup hnodup.of_map hothers.of_map).mpr fun a => ?_
    constructor
    · intro ha
      obtain ⟨o, ho, htype⟩ := mem_map.mp ((htypes a.type).mp (mem_map_of_mem ha))
      rwa [← hagree a ha o ho htype]
    · intro ha
      obtain ⟨o, ho, htype⟩ := mem_map.mp ((htypes a.type).mpr (mem_map_of_mem ha))
      rwa [hagree o ho a ha htype.symm]
  · intro hperm a ha o ho htype
    exact inj_on_of_nodup_map hnodup (hperm.mem_iff.mpr ho) ha htype

end Lists

/-! ## Items -/

namespace Item

variable (x y : Item)

def list : List Attribute := (x.attributes.map ItemAttributes.attributes).getD []
def bits : BitVec 64 := (x.attributes.map ItemAttributes.attributeBits).getD 0
def reflect : List (BitVec 16 × Reflect) := (x.attributes.map ItemAttributes.reflect).getD []
def boostPercent : List (BitVec 16 × BitVec 16) := (x.attributes.map ItemAttributes.boostPercent).getD []

/-- The same item but for the order of its attributes. -/
structure Reordered (x x' : Item) : Prop where
  id : x'.id = x.id
  instanceId : x'.instanceId = x.instanceId
  list : x'.list.Perm x.list

/-- The two compare as items that may be merged have to. -/
structure Comparable (stackable : UInt16 → Bool) (x y : Item) : Prop where
  returns : (∃ b, x.equals y = some b) ∧ ∃ b, x.equalsIgnoringInstance y = some b
  symm : y.equals x = x.equals y ∧ y.equalsIgnoringInstance x = x.equalsIgnoringInstance y
  order : ∀ x' y', x.Reordered x' → y.Reordered y' →
    x'.equals y' = x.equals y ∧ x'.equalsIgnoringInstance y' = x.equalsIgnoringInstance y
  same : stackable x.id = true → x.equalsIgnoringInstance y = some true →
    x.list.Perm y.list ∧ x.reflect = y.reflect ∧ x.boostPercent = y.boostPercent

/-- Two of an id that have the same kinds of attributes have no custom ones, and two that stack
and have the same attributes have the same tables. -/
def Plain (stackable : UInt16 → Bool) (x y : Item) : Prop :=
  x.id = y.id → x.bits = y.bits →
    NoCustom x.list ∧
      (stackable x.id = true → x.list.Perm y.list → x.reflect = y.reflect ∧ x.boostPercent = y.boostPercent)

end Item

section Items

variable {x y z : Item}

theorem list_nodup (x : Item) : (x.list.map Attribute.type).Nodup := by
  unfold Item.list
  cases x.attributes with
  | none => exact nodup_nil
  | some a => exact a.nodup

theorem bits_eq (x : Item) : x.bits = bitsOf x.list := by
  unfold Item.bits Item.list
  cases x.attributes with
  | none => rfl
  | some a => exact a.bits_eq

theorem equals_eq (x y : Item) :
    x.equals y = if x.instanceId ≠ y.instanceId then some false else x.equalsIgnoringInstance y := rfl

theorem equalsIgnoringInstance_eq (x y : Item) :
    x.equalsIgnoringInstance y =
      if x.id ≠ y.id then some false else if x.bits ≠ y.bits then some false else scanAll y.list x.list := by
  have hx := bits_eq x
  unfold Item.equalsIgnoringInstance
  unfold Item.bits Item.list at hx ⊢
  cases hax : x.attributes with
  | none =>
    cases hay : y.attributes with
    | none => simp [scanAll]
    | some b =>
      grind [scanAll]
  | some a =>
    cases hay : y.attributes with
    | none =>
      rw [hax] at hx
      by_cases hzero : a.attributeBits = 0#64
      · have hnil : a.attributes = [] := eq_nil_of_bits (hx.symm.trans hzero)
        simp [hzero, hnil, scanAll]
      · simp [hzero]
    | some b => rfl

theorem noCustom_of_bits (h : x.bits = y.bits) : NoCustom x.list ↔ NoCustom y.list := by
  rw [bits_eq, bits_eq] at h
  exact not_congr (mem_of_bits h .custom)

theorem equalsIgnoringInstance_plain (hid : x.id = y.id) (hbits : x.bits = y.bits) (h : NoCustom x.list) :
    x.equalsIgnoringInstance y = some (decide (x.list.Perm y.list)) := by
  have htypes := mem_of_bits (bits_eq x ▸ bits_eq y ▸ hbits)
  rw [equalsIgnoringInstance_eq, if_neg (not_not.mpr hid), if_neg (not_not.mpr hbits), scanAll_plain h]
  exact congrArg some (decide_eq_decide.mpr (agree_iff_perm (list_nodup x) (list_nodup y) htypes))

theorem equalsIgnoringInstance_differs (h : ¬ (x.id = y.id ∧ x.bits = y.bits)) :
    x.equalsIgnoringInstance y = some false := by
  rw [equalsIgnoringInstance_eq]
  by_cases hid : x.id = y.id
  · rw [if_neg (not_not.mpr hid), if_pos fun hbits => h ⟨hid, hbits⟩]
  · rw [if_pos hid]

theorem equalsIgnoringInstance_true_iff :
    x.equalsIgnoringInstance y = some true ↔
      x.id = y.id ∧ x.bits = y.bits ∧ NoCustom x.list ∧ x.list.Perm y.list := by
  constructor
  · intro h
    by_cases hsame : x.id = y.id ∧ x.bits = y.bits
    · by_cases hcustom : NoCustom x.list
      · rw [equalsIgnoringInstance_plain hsame.1 hsame.2 hcustom] at h
        exact ⟨hsame.1, hsame.2, hcustom, by simpa using h⟩
      · rw [equalsIgnoringInstance_eq, if_neg (not_not.mpr hsame.1), if_neg (not_not.mpr hsame.2)] at h
        exact absurd h (scanAll_ne_true hcustom fun hy => hcustom ((noCustom_of_bits hsame.2).mpr hy))
    · rw [equalsIgnoringInstance_differs hsame] at h
      exact nomatch h
  · intro ⟨hid, hbits, hcustom, hperm⟩
    rw [equalsIgnoringInstance_plain hid hbits hcustom]
    simp [hperm]

theorem Item.Reordered.bits {x' : Item} (h : x.Reordered x') : x'.bits = x.bits := by
  rw [bits_eq, bits_eq, bitsOf_perm h.list]

theorem throws_first (hid : x.id = y.id) (hbits : x.bits = y.bits) (hcustom : ¬ NoCustom x.list) :
    ∃ x', x.Reordered x' ∧ x'.equalsIgnoringInstance y = none := by
  have hothers : ¬ NoCustom y.list := fun hy => hcustom ((noCustom_of_bits hbits).mpr hy)
  obtain ⟨c, hc, htype⟩ := mem_map.mp (not_not.mp hcustom)
  cases ha : x.attributes with
  | none => simp [Item.list, ha] at hc
  | some a =>
    have hlist : x.list = a.attributes := by simp [Item.list, ha]
    rw [hlist] at hc
    have hperm : a.attributes.Perm (c :: a.attributes.erase c) := perm_cons_erase hc
    let a' : ItemAttributes :=
      { a with attributes := c :: a.attributes.erase c,
               nodup := (hperm.map _).nodup_iff.mp a.nodup
               bits_eq := a.bits_eq.trans (bitsOf_perm hperm) }
    have hreordered : x.Reordered { x with attributes := some a' } := ⟨rfl, rfl, hlist ▸ hperm.symm⟩
    refine ⟨{ x with attributes := some a' }, hreordered, ?_⟩
    rw [equalsIgnoringInstance_eq, if_neg (not_not.mpr hid), if_neg (not_not.mpr (hreordered.bits.trans hbits))]
    show scanAll y.list (c :: a.attributes.erase c) = none
    rw [scanAll_cons, scanOne_custom htype hothers]
    rfl

theorem comparable_of_plain {stackable : UInt16 → Bool} (h : x.Plain stackable y) : x.Comparable stackable y := by
  have hsymm : y.equalsIgnoringInstance x = x.equalsIgnoringInstance y := by
    by_cases hsame : x.id = y.id ∧ x.bits = y.bits
    · obtain ⟨hcustom, -⟩ := h hsame.1 hsame.2
      rw [equalsIgnoringInstance_plain hsame.1 hsame.2 hcustom,
        equalsIgnoringInstance_plain hsame.1.symm hsame.2.symm ((noCustom_of_bits hsame.2).mp hcustom)]
      exact congrArg some (decide_eq_decide.mpr (perm_comm ..))
    · rw [equalsIgnoringInstance_differs hsame, equalsIgnoringInstance_differs fun h => hsame ⟨h.1.symm, h.2.symm⟩]
  have horder : ∀ x' y', x.Reordered x' → y.Reordered y' → x'.equalsIgnoringInstance y' = x.equalsIgnoringInstance y := by
    intro x' y' hx hy
    by_cases hsame : x.id = y.id ∧ x.bits = y.bits
    · obtain ⟨hcustom, -⟩ := h hsame.1 hsame.2
      have hcustom' : NoCustom x'.list := (noCustom_of_bits hx.bits).mpr hcustom
      rw [equalsIgnoringInstance_plain hsame.1 hsame.2 hcustom, equalsIgnoringInstance_plain
        (hx.id.trans (hsame.1.trans hy.id.symm)) (hx.bits.trans (hsame.2.trans hy.bits.symm)) hcustom']
      exact congrArg some (decide_eq_decide.mpr
        ⟨fun h => hx.list.symm.trans (h.trans hy.list), fun h => hx.list.trans (h.trans hy.list.symm)⟩)
    · rw [equalsIgnoringInstance_differs hsame, equalsIgnoringInstance_differs]
      rwa [hx.id, hy.id, hx.bits, hy.bits]
  have hreturns : ∃ b, x.equalsIgnoringInstance y = some b := by
    by_cases hsame : x.id = y.id ∧ x.bits = y.bits
    · exact ⟨_, equalsIgnoringInstance_plain hsame.1 hsame.2 (h hsame.1 hsame.2).1⟩
    · exact ⟨false, equalsIgnoringInstance_differs hsame⟩
  refine ⟨⟨?_, hreturns⟩, ⟨?_, hsymm⟩, fun x' y' hx hy => ⟨?_, horder x' y' hx hy⟩, fun hstack htrue => ?_⟩
  · rw [equals_eq]
    split
    · exact ⟨false, rfl⟩
    · exact hreturns
  · rw [equals_eq, equals_eq, hsymm]
    simp only [ne_comm]
  · rw [equals_eq, equals_eq, horder x' y' hx hy, hx.instanceId, hy.instanceId]
  · obtain ⟨hid, hbits, -, hperm⟩ := equalsIgnoringInstance_true_iff.mp htrue
    exact ⟨hperm, (h hid hbits).2 hstack hperm⟩

theorem plain_of_comparable {stackable : UInt16 → Bool} (h : x.Comparable stackable y) : x.Plain stackable y := by
  intro hid hbits
  have hcustom : NoCustom x.list := by
    by_contra hcustom
    obtain ⟨x', hreordered, hthrows⟩ := throws_first hid hbits hcustom
    obtain ⟨b, hb⟩ := h.returns.2
    have horder := (h.order x' y hreordered ⟨rfl, rfl, .refl _⟩).2
    rw [hthrows, hb] at horder
    exact nomatch horder
  refine ⟨hcustom, fun hstack hperm => ?_⟩
  exact (h.same hstack (equalsIgnoringInstance_true_iff.mpr ⟨hid, hbits, hcustom, hperm⟩)).2

theorem equalsIgnoringInstance_trans (hxy : x.equalsIgnoringInstance y = some true)
    (hyz : y.equalsIgnoringInstance z = some true) : x.equalsIgnoringInstance z = some true := by
  rw [equalsIgnoringInstance_true_iff] at hxy hyz ⊢
  obtain ⟨hid, hbits, hcustom, hperm⟩ := hxy
  obtain ⟨hid', hbits', -, hperm'⟩ := hyz
  exact ⟨hid.trans hid', hbits.trans hbits', hcustom, hperm.trans hperm'⟩

theorem equals_true_iff : x.equals y = some true ↔ x.instanceId = y.instanceId ∧ x.equalsIgnoringInstance y = some true := by
  rw [equals_eq]
  by_cases h : x.instanceId = y.instanceId
  · simp [h]
  · simp [h]

theorem equals_refl_iff : (x.equals x = some true ∧ x.equalsIgnoringInstance x = some true) ↔ NoCustom x.list := by
  rw [equals_true_iff, equalsIgnoringInstance_true_iff]
  simp

end Items

/-- Items compare as they should exactly when they are plain, and one equals itself without custom attributes. -/
theorem comparable_iff (stackable : UInt16 → Bool) (x y z : Item) :
    (x.Comparable stackable y ↔ x.Plain stackable y) ∧
    ((x.equals x = some true ∧ x.equalsIgnoringInstance x = some true) ↔ NoCustom x.list) ∧
    (x.equals y = some true → y.equals z = some true → x.equals z = some true) ∧
    (x.equalsIgnoringInstance y = some true → y.equalsIgnoringInstance z = some true →
      x.equalsIgnoringInstance z = some true) := by
  refine ⟨⟨plain_of_comparable, comparable_of_plain⟩, equals_refl_iff, fun hxy hyz => ?_, equalsIgnoringInstance_trans⟩
  rw [equals_true_iff] at hxy hyz ⊢
  exact ⟨hxy.1.trans hyz.1, equalsIgnoringInstance_trans hxy.2 hyz.2⟩

/-- A gold coin that a script has marked. -/
def marked : Item where
  id := 2148
  instanceId := 0
  attributes := some
    { attributes := [.custom [([109, 97, 114, 107], .int 1)]]
      attributeBits := bitsOf [.custom [([109, 97, 114, 107], .int 1)]]
      reflect := []
      boostPercent := []
      nodup := nodup_singleton _
      bits_eq := rfl }

/-- Asked whether the coin stacks with its like, the server throws. -/
theorem custom_throws : ¬ ∀ (stackable : UInt16 → Bool) (x y : Item), x.Comparable stackable y := by
  intro h
  obtain ⟨b, hb⟩ := (h (fun _ => true) marked marked).returns.2
  have hthrows : marked.equalsIgnoringInstance marked = none := by decide
  rw [hthrows] at hb
  exact nomatch hb

end Backlands.Attributes.Equality
