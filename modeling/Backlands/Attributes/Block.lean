/-
  Backlands.Attributes.Block — the attributes of an item as they lie in memory: a vector and a word
  of bits (`ItemAttributes`, src/item.h and src/item.cpp).

  Which types are there is kept twice, in the bits and in the vector, where a removed attribute
  leaves its place to the last one. A type is a word, an enumerator one bit of it (`Single`). Sums
  are 64-bit, in two's complement. `none` is a value read as another variant than it is, or the last
  element of an empty vector.

  Proved: after any calls with enumerators the bits are the types of the vector, each there once
  with a value of its kind (`sound_run`), and what is read is what was set last (`block_run`); an
  attack speed below a hundred is set as a hundred and an empty text is not set. A call with
  `ITEM_ATTRIBUTE_NONE` puts another attribute into the vector, without a bit.
-/

import Backlands.Attributes.Equality
import Backlands.Lib.Bits
import Backlands.Lib.Table

namespace Backlands.Attributes.Block

open Backlands.Lib Backlands.Attributes Backlands.Attributes.Equality List AttrType

/-! ## Types -/

abbrev itemAttrTypes := BitVec 64

def mask (types : List AttrType) : BitVec 64 := types.foldr (fun t bits => t.bit ||| bits) 0

def intAttributeTypes : BitVec 64 :=
  mask ([.actionId, .uniqueId, .date, .weight, .attack, .defense, .extraDefense, .armor, .hitChance, .shootRange, .owner,
    .duration, .decayState, .corpseOwner, .charges, .fluidType, .doorId, .durationTimestamp, .wrapId, .storeItem,
    .attackSpeed, .classification, .tier, .reduceSkillLoss, .dropBonus].map int)

def stringAttributeTypes : BitVec 32 :=
  (mask ([.description, .text, .writer, .name, .article, .pluralName].map str)).setWidth 32

def ITEM_ATTRIBUTE_ATTACK_SPEED : itemAttrTypes := (int .attackSpeed).bit

def ITEM_ATTRIBUTE_CUSTOM : itemAttrTypes := custom.bit

def isIntAttrType (type : itemAttrTypes) : Bool := type &&& intAttributeTypes == type

def isStrAttrType (type : itemAttrTypes) : Bool := type &&& stringAttributeTypes.setWidth 64 == type

/-- One bit, as every enumerator but `ITEM_ATTRIBUTE_NONE` is. -/
def Single (type : itemAttrTypes) : Prop := ∃ k < 64, type = BitVec.twoPow 64 k

/-! ## The block -/

abbrev CustomAttributeMap := Table Bytes CustomValue

inductive Value where
  | monostate
  | int (n : BitVec 64)
  | str (s : Bytes)
  | custom (m : CustomAttributeMap)

/-- The type and the value. -/
abbrev Attribute := itemAttrTypes × Value

structure ItemAttributes where
  attributes : List Attribute := []
  attributeBits : BitVec 64 := 0

def changeFirst (type : itemAttrTypes) (f : Value → Value) : List Attribute → Option (List Attribute)
  | [] => none
  | a :: rest => if a.1 = type then some ((a.1, f a.2) :: rest) else (changeFirst type f rest).map (a :: ·)

/-- `last` in the place of the first attribute of a type. -/
def fillGap (type : itemAttrTypes) (last : Attribute) : List Attribute → Option (List Attribute)
  | [] => none
  | a :: rest => if a.1 = type then some (last :: rest) else (fillGap type last rest).map (a :: ·)

def asMap : Value → Option CustomAttributeMap
  | .custom m => some m
  | _ => none

/-- `emplace`, in a new map when the value is none. -/
def emplaced (key : Bytes) (v : CustomValue) (value : Value) : Value :=
  let m := (asMap value).getD ⟨[], nodup_nil⟩
  .custom ((m.insert? key v).getD m)

namespace ItemAttributes

def hasAttribute (type : itemAttrTypes) (b : ItemAttributes) : Bool := hasBitSet type b.attributeBits

def getExistingAttr (type : itemAttrTypes) (b : ItemAttributes) : Option Value :=
  if b.hasAttribute type then b.attributes.lookup type else none

/-- `getAttr`, with what is done to the value. -/
def getAttr (type : itemAttrTypes) (f : Value → Value) (b : ItemAttributes) : ItemAttributes :=
  match if b.hasAttribute type then changeFirst type f b.attributes else none with
  | some attributes => { b with attributes := attributes }
  | none =>
    { attributes := b.attributes ++ [(type, f .monostate)]
      attributeBits := b.attributeBits ||| type }

def getIntAttr (type : itemAttrTypes) (b : ItemAttributes) : Option (BitVec 64) :=
  if !isIntAttrType type then some 0
  else
    match b.getExistingAttr type with
    | none => some 0
    | some (.int n) => some n
    | some _ => none

def getStrAttr (type : itemAttrTypes) (b : ItemAttributes) : Option Bytes :=
  if !isStrAttrType type then some []
  else
    match b.getExistingAttr type with
    | none => some []
    | some (.str s) => some s
    | some _ => none

def setIntAttr (type : itemAttrTypes) (value : BitVec 64) (b : ItemAttributes) : ItemAttributes :=
  if !isIntAttrType type then b
  else
    let value := if type = ITEM_ATTRIBUTE_ATTACK_SPEED ∧ value.toInt < 100 then 100 else value
    b.getAttr type fun _ => .int value

def setStrAttr (type : itemAttrTypes) (value : Bytes) (b : ItemAttributes) : ItemAttributes :=
  if !isStrAttrType type then b
  else if value.isEmpty then b
  else b.getAttr type fun _ => .str value

def increaseIntAttr (type : itemAttrTypes) (value : BitVec 64) (b : ItemAttributes) : Option ItemAttributes :=
  (b.getIntAttr type).map fun n => b.setIntAttr type (n + value)

/-- The vector is looked through from its end. -/
def removeAttribute (type : itemAttrTypes) (b : ItemAttributes) : Option ItemAttributes :=
  if !b.hasAttribute type then some b
  else
    match b.attributes.reverse with
    | [] => none
    | last :: rest =>
      let attributes :=
        if last.1 = type then rest.reverse
        else
          match fillGap type last rest with
          | some rest => rest.reverse
          | none => b.attributes
      some { attributes := attributes, attributeBits := b.attributeBits &&& ~~~type }

/-- The custom attributes, made when the bit alone is there. -/
def getCustomAttributeMap (b : ItemAttributes) : ItemAttributes × Option CustomAttributeMap :=
  if !b.hasAttribute ITEM_ATTRIBUTE_CUSTOM then (b, none)
  else
    let b := b.getAttr ITEM_ATTRIBUTE_CUSTOM id
    (b, (b.attributes.lookup ITEM_ATTRIBUTE_CUSTOM).bind asMap)

def removeCustomAttribute (key : Bytes) (b : ItemAttributes) : Option (Bool × ItemAttributes) :=
  match b.getCustomAttributeMap with
  | (b, none) => some (false, b)
  | (b, some customAttrMap) =>
    if (customAttrMap.find? (asLowerCaseString key)).isSome then
      let customAttrMap := customAttrMap.place (asLowerCaseString key) none
      let b := b.getAttr ITEM_ATTRIBUTE_CUSTOM fun _ => .custom customAttrMap
      if customAttrMap.rows.isEmpty then (b.removeAttribute ITEM_ATTRIBUTE_CUSTOM).map fun b => (true, b)
      else some (true, b)
    else some (false, b)

def setCustomAttribute (key : Bytes) (v : CustomValue) (b : ItemAttributes) : Option ItemAttributes :=
  let b := if b.hasAttribute ITEM_ATTRIBUTE_CUSTOM then (b.removeCustomAttribute key).map Prod.snd else some b
  b.map fun b => b.getAttr ITEM_ATTRIBUTE_CUSTOM (emplaced (asLowerCaseString key) v)

def getCustomAttribute (key : Bytes) (b : ItemAttributes) : Option CustomValue :=
  ((b.getExistingAttr ITEM_ATTRIBUTE_CUSTOM).bind asMap).bind fun m => m.find? (asLowerCaseString key)

end ItemAttributes

/-! ## Bits -/

variable {t u : itemAttrTypes} {bits : BitVec 64}

theorem Single.ne_zero (ht : Single t) : t ≠ 0 := by
  rcases ht with ⟨k, hk, rfl⟩
  intro h0
  have hbit := congrArg (fun v => BitVec.getLsbD v k) h0
  simp [hk] at hbit

theorem Single.disjoint (ht : Single t) (hu : Single u) (hne : t ≠ u) : u &&& t = 0 := by
  rcases ht with ⟨k, -, rfl⟩
  rcases hu with ⟨j, -, rfl⟩
  have hjk : j ≠ k := fun h => hne (h ▸ rfl)
  simp [BitVec.and_twoPow, BitVec.getLsbD_twoPow, hjk]

theorem hasBitSet_twoPow {k : Nat} (hk : k < 64) : hasBitSet (BitVec.twoPow 64 k) bits = bits.getLsbD k := by
  unfold hasBitSet
  rw [BitVec.and_twoPow]
  cases bits.getLsbD k with
  | true =>
    have hne : BitVec.twoPow 64 k ≠ 0#64 := Single.ne_zero ⟨k, hk, rfl⟩
    simpa using hne
  | false => simp

theorem Single.hasBitSet_or (ht : Single t) (hu : Single u) :
    hasBitSet t (bits ||| u) = (hasBitSet t bits || decide (t = u)) := by
  rw [Lib.hasBitSet_or]
  by_cases h : t = u
  · subst h
    have hne : ¬t = 0#64 := ht.ne_zero
    simp [hasBitSet, hne]
  · simp [hasBitSet, ht.disjoint hu h, h]

theorem Single.hasBitSet_clear (ht : Single t) (hu : Single u) :
    hasBitSet t (bits &&& ~~~u) = (hasBitSet t bits && decide (t ≠ u)) := by
  by_cases h : t = u
  · subst h
    simp [hasBitSet_clear_self]
  · simp [hasBitSet_clear_of_disjoint (ht.disjoint hu h), h]

/-! ## The vector -/

variable {l l' : List Attribute} {f : Value → Value}

theorem changeFirst_some (h : t ∈ l.map Prod.fst) : ∃ l', changeFirst t f l = some l' ∧
    l'.map Prod.fst = l.map Prod.fst ∧
    ∀ u, l'.lookup u = if u = t then (l.lookup t).map f else l.lookup u := by
  induction l with
  | nil => cases h
  | cons a l ih =>
    rcases a with ⟨t', v⟩
    by_cases ht : t' = t
    · subst ht
      refine ⟨(t', f v) :: l, by simp [changeFirst], rfl, fun u => ?_⟩
      by_cases hu : u = t'
      · simp [hu]
      · simp [hu, lookup_cons, beq_eq_false_iff_ne.mpr hu]
    · have hmem : t ∈ l.map Prod.fst := (mem_cons.mp h).resolve_left (Ne.symm ht)
      rcases ih hmem with ⟨l', he, hkeys, hlookup⟩
      refine ⟨(t', v) :: l', by simp [changeFirst, ht, he], by simp [hkeys], fun u => ?_⟩
      rw [lookup_cons, lookup_cons, lookup_cons, hlookup, beq_eq_false_iff_ne.mpr (Ne.symm ht)]
      by_cases hu : u = t'
      · subst hu
        simp [ht]
      · rw [beq_eq_false_iff_ne.mpr hu]

theorem fillGap_perm (h : t ∈ l.map Prod.fst) (last : Attribute) :
    ∃ l' v, fillGap t last l = some l' ∧ (last :: l).Perm ((t, v) :: l') := by
  induction l with
  | nil => cases h
  | cons a l ih =>
    rcases a with ⟨t', v⟩
    by_cases ht : t' = t
    · subst ht
      exact ⟨last :: l, v, by simp [fillGap], List.Perm.swap ..⟩
    rcases ih ((mem_cons.mp h).resolve_left (Ne.symm ht)) with ⟨l', w, he, hperm⟩
    refine ⟨(t', v) :: l', w, by simp [fillGap, ht, he], ?_⟩
    calc (last :: (t', v) :: l).Perm ((t', v) :: last :: l) := List.Perm.swap ..
      _ |>.Perm ((t', v) :: (t, w) :: l') := hperm.cons _
      _ |>.Perm ((t, w) :: (t', v) :: l') := List.Perm.swap ..

theorem lookup_of_perm {v : Value} (hperm : l.Perm ((t, v) :: l')) (hnodup : (l.map Prod.fst).Nodup) :
    (l'.map Prod.fst).Nodup ∧ t ∉ l'.map Prod.fst ∧ ∀ u, l'.lookup u = if u = t then none else l.lookup u := by
  have hkeys : (t :: l'.map Prod.fst).Nodup := (hperm.map Prod.fst).nodup hnodup
  rcases nodup_cons.mp hkeys with ⟨hnot, hnodup'⟩
  refine ⟨hnodup', hnot, fun u => ?_⟩
  by_cases hu : u = t
  · rw [if_pos hu, hu]
    exact lookup_none_iff.mpr hnot
  rw [if_neg hu]
  refine Option.ext fun w => ?_
  rw [lookup_iff_mem hnodup', lookup_iff_mem hnodup, hperm.mem_iff, mem_cons, Prod.mk.injEq]
  simp [hu]

/-! ## One attribute -/

/-- The types of the vector, once each, are the bits. -/
structure Shape (b : ItemAttributes) : Prop where
  nodup : (b.attributes.map Prod.fst).Nodup
  single : ∀ t ∈ b.attributes.map Prod.fst, Single t
  bits : ∀ t, Single t → (b.hasAttribute t = true ↔ t ∈ b.attributes.map Prod.fst)

variable {b : ItemAttributes}

theorem Shape.getExistingAttr (h : Shape b) (ht : Single t) : b.getExistingAttr t = b.attributes.lookup t := by
  unfold ItemAttributes.getExistingAttr
  split
  · rfl
  · next hno =>
    rw [h.bits t ht] at hno
    exact (lookup_none_iff.mpr hno).symm

/-- The block `b'` is `b` with `r` as the attribute `t`. -/
structure Changed (b b' : ItemAttributes) (t : itemAttrTypes) (r : Option Value) : Prop where
  shape : Shape b'
  lookup : ∀ u, b'.attributes.lookup u = if u = t then r else b.attributes.lookup u

theorem Changed.refl (h : Shape b) : Changed b b t (b.attributes.lookup t) where
  shape := h
  lookup u := by
    split
    · next hu => rw [hu]
    · rfl

theorem Changed.trans {b' b'' : ItemAttributes} {r r' : Option Value} (h : Changed b b' t r) (h' : Changed b' b'' t r') :
    Changed b b'' t r' where
  shape := h'.shape
  lookup u := by
    rw [h'.lookup, h.lookup]
    split <;> rfl

theorem changed_getAttr (h : Shape b) (ht : Single t) (f : Value → Value) :
    Changed b (b.getAttr t f) t (some (f ((b.attributes.lookup t).getD .monostate))) := by
  unfold ItemAttributes.getAttr
  by_cases hmem : t ∈ b.attributes.map Prod.fst
  · rcases changeFirst_some (f := f) hmem with ⟨l', he, hkeys, hlookup⟩
    rw [if_pos ((h.bits t ht).mpr hmem), he]
    refine ⟨⟨hkeys ▸ h.nodup, hkeys ▸ h.single, hkeys ▸ h.bits⟩, fun u => ?_⟩
    rw [hlookup]
    cases hv : b.attributes.lookup t with
    | none => exact absurd hmem (lookup_none_iff.mp hv)
    | some v => rfl
  · have hno : ¬b.hasAttribute t = true := fun hb => hmem ((h.bits t ht).mp hb)
    rw [if_neg hno]
    have hkeys : (b.attributes ++ [(t, f .monostate)]).map Prod.fst = b.attributes.map Prod.fst ++ [t] := by simp
    refine ⟨⟨?_, ?_, fun u hu => ?_⟩, fun u => ?_⟩
    · rw [hkeys]
      refine nodup_append.mpr ⟨h.nodup, nodup_singleton t, fun u hu u' hu' => ?_⟩
      rw [mem_singleton.mp hu']
      exact ne_of_mem_of_not_mem hu hmem
    · simpa [or_imp, forall_and, ht] using h.single
    · have hbits : hasBitSet u b.attributeBits = true ↔ _ := h.bits u hu
      show hasBitSet u (b.attributeBits ||| t) = true ↔ _
      simp [hu.hasBitSet_or ht, hbits]
    · grind

theorem changed_removeAttribute (h : Shape b) (ht : Single t) :
    ∃ b', b.removeAttribute t = some b' ∧ Changed b b' t none := by
  unfold ItemAttributes.removeAttribute
  by_cases hmem : t ∈ b.attributes.map Prod.fst
  · have hhas := (h.bits t ht).mpr hmem
    rw [if_neg (by simp [hhas])]
    have hreverse : (b.attributes.reverse).Perm b.attributes := reverse_perm _
    cases hr : b.attributes.reverse with
    | nil =>
      rw [reverse_eq_nil_iff] at hr
      rw [hr] at hmem
      cases hmem
    | cons last rest =>
      rw [hr] at hreverse
      -- what is left, whichever way the attribute was found
      have hleft : ∃ l' v, (if last.1 = t then rest.reverse
          else match fillGap t last rest with
            | some rest => rest.reverse
            | none => b.attributes) = l' ∧ b.attributes.Perm ((t, v) :: l') := by
        by_cases hlast : last.1 = t
        · refine ⟨rest.reverse, last.2, if_pos hlast, ?_⟩
          rw [← hlast]
          exact hreverse.symm.trans (rest.reverse_perm.symm.cons _)
        have hrest : t ∈ rest.map Prod.fst := by
          have hin := (hreverse.map Prod.fst).mem_iff.mpr hmem
          exact (mem_cons.mp hin).resolve_left (Ne.symm hlast)
        rcases fillGap_perm hrest last with ⟨rest', v, he, hperm⟩
        refine ⟨rest'.reverse, v, by rw [if_neg hlast, he], ?_⟩
        exact hreverse.symm.trans (hperm.trans (rest'.reverse_perm.symm.cons _))
      rcases hleft with ⟨l', v, he, hperm⟩
      rcases lookup_of_perm hperm h.nodup with ⟨hnodup, hnot, hlookup⟩
      have hkeys : ∀ u, u ∈ b.attributes.map Prod.fst ↔ u = t ∨ u ∈ l'.map Prod.fst := by
        intro u
        rw [(hperm.map Prod.fst).mem_iff, map_cons, mem_cons]
      dsimp only
      rw [he]
      refine ⟨_, rfl, ⟨hnodup, ?_, ?_⟩, hlookup⟩
      · intro u hu
        exact h.single u ((hkeys u).mpr (.inr hu))
      intro u hu
      show hasBitSet u (b.attributeBits &&& ~~~t) = true ↔ _
      have hbits : hasBitSet u b.attributeBits = true ↔ _ := h.bits u hu
      rw [hu.hasBitSet_clear ht, Bool.and_eq_true, hbits, decide_eq_true_eq, hkeys]
      constructor
      · grind
      · intro hmem'
        exact ⟨.inr hmem', fun heq => hnot (heq ▸ hmem')⟩
  · have hno : b.hasAttribute t = false := by
      rw [← Bool.not_eq_true, h.bits t ht]
      exact hmem
    rw [if_pos (by simp [hno])]
    exact ⟨b, rfl, lookup_none_iff.mpr hmem ▸ .refl h⟩

/-! ## Values -/

def Kind (t : itemAttrTypes) : Value → Prop
  | .monostate => False
  | .int _ => isIntAttrType t = true
  | .str s => isStrAttrType t = true ∧ s ≠ []
  | .custom m => t = ITEM_ATTRIBUTE_CUSTOM ∧ m.rows ≠ []

structure Sound (b : ItemAttributes) : Prop extends Shape b where
  kind : ∀ t v, b.attributes.lookup t = some v → Kind t v

theorem single_custom : Single ITEM_ATTRIBUTE_CUSTOM := ⟨34, by decide, rfl⟩

theorem kinds_apart (ht : Single t) : (isIntAttrType t = true → isStrAttrType t = false ∧ t ≠ ITEM_ATTRIBUTE_CUSTOM) ∧
    (isStrAttrType t = true → t ≠ ITEM_ATTRIBUTE_CUSTOM) := by
  rcases ht with ⟨k, hk, rfl⟩
  have hall : ∀ k : Fin 64, (isIntAttrType (BitVec.twoPow 64 k) = true →
      isStrAttrType (BitVec.twoPow 64 k) = false ∧ BitVec.twoPow 64 k ≠ ITEM_ATTRIBUTE_CUSTOM) ∧
      (isStrAttrType (BitVec.twoPow 64 k) = true → BitVec.twoPow 64 k ≠ ITEM_ATTRIBUTE_CUSTOM) := by decide +kernel
  exact hall ⟨k, hk⟩

/-! What is read, of a value that may not be there. -/

def intOf : Option Value → BitVec 64
  | some (.int n) => n
  | _ => 0

def strOf : Option Value → Bytes
  | some (.str s) => s
  | _ => []

def customOf (key : Bytes) (v : Option Value) : Option CustomValue := (v.bind asMap).bind fun m => m.find? (asLowerCaseString key)

theorem Sound.getIntAttr (h : Sound b) (ht : Single t) (hi : isIntAttrType t = true) :
    b.getIntAttr t = some (intOf (b.attributes.lookup t)) := by
  unfold ItemAttributes.getIntAttr
  rw [h.getExistingAttr ht, if_neg (by simp [hi])]
  cases hv : b.attributes.lookup t with
  | none => rfl
  | some v =>
    have hkind := h.kind t v hv
    cases v with
    | monostate => exact hkind.elim
    | int n => rfl
    | str s =>
      have := ((kinds_apart ht).1 hi).1
      rw [hkind.1] at this
      cases this
    | custom m => exact absurd hkind.1 ((kinds_apart ht).1 hi).2

theorem Sound.getStrAttr (h : Sound b) (ht : Single t) (hs : isStrAttrType t = true) :
    b.getStrAttr t = some (strOf (b.attributes.lookup t)) := by
  unfold ItemAttributes.getStrAttr
  rw [h.getExistingAttr ht, if_neg (by simp [hs])]
  cases hv : b.attributes.lookup t with
  | none => rfl
  | some v =>
    have hkind := h.kind t v hv
    cases v with
    | monostate => exact hkind.elim
    | int n =>
      have := ((kinds_apart ht).1 hkind).1
      rw [hs] at this
      cases this
    | str s => rfl
    | custom m => exact absurd hkind.1 ((kinds_apart ht).2 hs)

theorem Sound.getCustomAttribute (h : Sound b) (key : Bytes) :
    b.getCustomAttribute key = customOf key (b.attributes.lookup ITEM_ATTRIBUTE_CUSTOM) := by
  unfold ItemAttributes.getCustomAttribute customOf
  rw [h.getExistingAttr single_custom]

theorem Sound.custom (h : Sound b) {v : Value} (hv : b.attributes.lookup ITEM_ATTRIBUTE_CUSTOM = some v) :
    ∃ m : CustomAttributeMap, v = .custom m ∧ m.rows ≠ [] := by
  have hkind := h.kind _ v hv
  cases v with
  | monostate => exact hkind.elim
  | int n =>
    cases hkind
  | str s =>
    have hkind := hkind.1
    cases hkind
  | custom m => exact ⟨m, rfl, hkind.2⟩

theorem Changed.sound {b' : ItemAttributes} {r : Option Value} (hb : Changed b b' t r) (h : Sound b)
    (hr : ∀ v, r = some v → Kind t v) : Sound b' where
  toShape := hb.shape
  kind u v hv := by
    rw [hb.lookup] at hv
    split at hv
    · next hu => exact hu ▸ hr v hv
    · exact h.kind u v hv

/-! ## Custom attributes -/

/-- The block `b'` is `b` with other custom attributes, among which `key` is `v`. -/
def CustomSet (b b' : ItemAttributes) (key : Bytes) (v : Option CustomValue) : Prop :=
  ∃ r, Changed b b' ITEM_ATTRIBUTE_CUSTOM r ∧ (∀ w, r = some w → Kind ITEM_ATTRIBUTE_CUSTOM w) ∧
    ∀ key', customOf key' r = if asLowerCaseString key' = asLowerCaseString key then v
      else customOf key' (b.attributes.lookup ITEM_ATTRIBUTE_CUSTOM)

theorem customSet_none (h : Sound b) (key : Bytes) (hhas : ¬b.hasAttribute ITEM_ATTRIBUTE_CUSTOM = true) :
    CustomSet b b key none := by
  have hnone : b.attributes.lookup ITEM_ATTRIBUTE_CUSTOM = none :=
    lookup_none_iff.mpr fun hmem => hhas ((h.bits _ single_custom).mpr hmem)
  refine ⟨none, hnone ▸ .refl h.toShape, by simp, fun key' => ?_⟩
  rw [hnone]
  split <;> rfl

theorem find?_of_rows_nil {m : CustomAttributeMap} (h : m.rows = []) (k : Bytes) : m.find? k = none := by
  unfold Table.find?
  rw [h]
  rfl

theorem removeCustomAttribute_spec (h : Sound b) (key : Bytes) :
    ∃ x b', b.removeCustomAttribute key = some (x, b') ∧ CustomSet b b' key none := by
  unfold ItemAttributes.removeCustomAttribute ItemAttributes.getCustomAttributeMap
  by_cases hhas : b.hasAttribute ITEM_ATTRIBUTE_CUSTOM = true
  · rw [if_neg (by simp [hhas])]
    have hget := changed_getAttr h.toShape single_custom id
    cases hv : b.attributes.lookup ITEM_ATTRIBUTE_CUSTOM with
    | none => exact absurd ((h.bits _ single_custom).mp hhas) (lookup_none_iff.mp hv)
    | some v =>
      have hkind := h.kind _ v hv
      rcases h.custom hv with ⟨m, rfl, hne⟩
      rw [hv] at hget
      have hmap : ((b.getAttr ITEM_ATTRIBUTE_CUSTOM id).attributes.lookup ITEM_ATTRIBUTE_CUSTOM).bind asMap = some m := by
        rw [hget.lookup, if_pos rfl]
        rfl
      have hfound : ∀ key', customOf key' (b.attributes.lookup ITEM_ATTRIBUTE_CUSTOM) = m.find? (asLowerCaseString key') := by
        intro key'
        rw [hv]
        rfl
      dsimp only
      rw [hmap]
      dsimp only
      split
      · have hput := hget.trans
          (changed_getAttr hget.shape single_custom fun _ => .custom (m.place (asLowerCaseString key) none))
        have hplaced : ∀ key', (m.place (asLowerCaseString key) none).find? (asLowerCaseString key') =
            if asLowerCaseString key' = asLowerCaseString key then none else m.find? (asLowerCaseString key') := by
          intro key'
          rw [Table.find?_place]
          cases m.find? (asLowerCaseString key) <;> rfl
        simp only [hfound, ← hplaced, CustomSet]
        split
        · next hempty =>
          rcases changed_removeAttribute hput.shape single_custom with ⟨b', he, hgone⟩
          rw [he]
          exact ⟨true, b', rfl, none, hput.trans hgone, by simp, fun key' =>
            (find?_of_rows_nil (List.isEmpty_iff.mp hempty) _).symm⟩
        · next hempty =>
          refine ⟨true, _, rfl, _, hput, ?_, fun _ => rfl⟩
          intro w hw
          cases hw
          exact ⟨rfl, by simpa using hempty⟩
      · next hnot =>
        refine ⟨false, _, rfl, _, hget, ?_, fun key' => ?_⟩
        · grind
        rw [hfound]
        split
        · next heq =>
          have hnone : m.find? (asLowerCaseString key) = none := by simpa using hnot
          rw [← heq] at hnone
          exact hnone
        · rfl
  · rw [if_pos (by simpa using hhas)]
    exact ⟨false, b, rfl, customSet_none h key hhas⟩

theorem setCustomAttribute_spec (h : Sound b) (key : Bytes) (v : CustomValue) :
    ∃ b', b.setCustomAttribute key v = some b' ∧ CustomSet b b' key (some v) := by
  -- the key is not there when the value is put in
  have hfirst : ∃ b₁, (if b.hasAttribute ITEM_ATTRIBUTE_CUSTOM then (b.removeCustomAttribute key).map Prod.snd
      else some b) = some b₁ ∧ CustomSet b b₁ key none := by
    split
    · rcases removeCustomAttribute_spec h key with ⟨r, b₁, he, hset⟩
      exact ⟨b₁, by rw [he]; rfl, hset⟩
    · next hhas => exact ⟨b, rfl, customSet_none h key hhas⟩
  rcases hfirst with ⟨b₁, he, r, hb₁, hkind, hcustom⟩
  unfold ItemAttributes.setCustomAttribute
  rw [he]
  have hput := changed_getAttr hb₁.shape single_custom (emplaced (asLowerCaseString key) v)
  rw [hb₁.lookup, if_pos rfl] at hput
  -- the map the value is put into
  have hold : ∀ key', ((asMap (r.getD .monostate)).getD ⟨[], nodup_nil⟩).find? (asLowerCaseString key') =
      customOf key' r := by
    intro key'
    rcases r with - | w
    · exact find?_of_rows_nil rfl _
    · rcases (hb₁.sound h hkind).custom ((hb₁.lookup _).trans (if_pos rfl)) with ⟨m, rfl, -⟩
      rfl
  generalize hm : (asMap (r.getD .monostate)).getD ⟨[], nodup_nil⟩ = m at hold
  have hfree : m.find? (asLowerCaseString key) = none := by
    rw [hold, hcustom, if_pos rfl]
  have hinsert : ∃ m', m.insert? (asLowerCaseString key) v = some m' ∧ m'.rows ≠ [] := by
    unfold Table.insert?
    rw [dif_neg (Table.find?_none_iff.mp hfree)]
    exact ⟨_, rfl, cons_ne_nil _ _⟩
  rcases hinsert with ⟨m', hinsert, hne⟩
  have hvalue : emplaced (asLowerCaseString key) v (r.getD .monostate) = .custom m' := by
    simp [emplaced, hm, hinsert]
  rw [hvalue] at hput
  refine ⟨_, rfl, _, hb₁.trans hput, ?_, fun key' => ?_⟩
  · intro w hw
    cases hw
    exact ⟨rfl, hne⟩
  · show m'.find? (asLowerCaseString key') = _
    rw [(Table.insert?_some hinsert).2]
    grind

/-! ## Runs -/

inductive Op where
  | setIntAttr (type : itemAttrTypes) (value : BitVec 64)
  | setStrAttr (type : itemAttrTypes) (value : Bytes)
  | increaseIntAttr (type : itemAttrTypes) (value : BitVec 64)
  | removeAttribute (type : itemAttrTypes)
  | setCustomAttribute (key : Bytes) (value : CustomValue)
  | removeCustomAttribute (key : Bytes)

def Op.type : Op → itemAttrTypes
  | setIntAttr type _ => type
  | setStrAttr type _ => type
  | increaseIntAttr type _ => type
  | removeAttribute type => type
  | setCustomAttribute _ _ => ITEM_ATTRIBUTE_CUSTOM
  | removeCustomAttribute _ => ITEM_ATTRIBUTE_CUSTOM

def step (b : ItemAttributes) : Op → Option ItemAttributes
  | .setIntAttr type value => some (b.setIntAttr type value)
  | .setStrAttr type value => some (b.setStrAttr type value)
  | .increaseIntAttr type value => b.increaseIntAttr type value
  | .removeAttribute type => b.removeAttribute type
  | .setCustomAttribute key value => b.setCustomAttribute key value
  | .removeCustomAttribute key => (b.removeCustomAttribute key).map Prod.snd

def run (ops : List Op) (b : ItemAttributes) : Option ItemAttributes := ops.foldlM step b

/-! What should be read: the last value that was set, of this type and of no other. -/

/-- The value an integer is set as. -/
def clamp (t : itemAttrTypes) (value : BitVec 64) : BitVec 64 :=
  if t = ITEM_ATTRIBUTE_ATTACK_SPEED ∧ value.toInt < 100 then 100 else value

def lastInt (t : itemAttrTypes) (n : BitVec 64) : Op → BitVec 64
  | .setIntAttr type value => if type = t then clamp t value else n
  | .increaseIntAttr type value => if type = t then clamp t (n + value) else n
  | .removeAttribute type => if type = t then 0 else n
  | _ => n

def lastStr (t : itemAttrTypes) (s : Bytes) : Op → Bytes
  | .setStrAttr type value => if type = t ∧ value ≠ [] then value else s
  | .removeAttribute type => if type = t then [] else s
  | _ => s

def lastCustom (key : Bytes) (v : Option CustomValue) : Op → Option CustomValue
  | .setCustomAttribute key' value => if asLowerCaseString key = asLowerCaseString key' then some value else v
  | .removeCustomAttribute key' => if asLowerCaseString key = asLowerCaseString key' then none else v
  | .removeAttribute type => if type = ITEM_ATTRIBUTE_CUSTOM then none else v
  | _ => v

/-- One call changes what is read as it should. -/
structure Reads (op : Op) (b b' : ItemAttributes) : Prop where
  int : ∀ t, Single t → isIntAttrType t = true →
    intOf (b'.attributes.lookup t) = lastInt t (intOf (b.attributes.lookup t)) op
  str : ∀ t, Single t → isStrAttrType t = true →
    strOf (b'.attributes.lookup t) = lastStr t (strOf (b.attributes.lookup t)) op
  custom : ∀ key, customOf key (b'.attributes.lookup ITEM_ATTRIBUTE_CUSTOM) =
    lastCustom key (customOf key (b.attributes.lookup ITEM_ATTRIBUTE_CUSTOM)) op

theorem lastInt_of_ne {op : Op} (h : t ≠ op.type) (n : BitVec 64) : lastInt t n op = n := by
  cases op <;> simp_all [lastInt, Op.type, eq_comm]

theorem lastStr_of_ne {op : Op} (h : t ≠ op.type) (s : Bytes) : lastStr t s op = s := by
  cases op <;> simp_all [lastStr, Op.type, eq_comm]

theorem lastCustom_of_ne {op : Op} (h : ITEM_ATTRIBUTE_CUSTOM ≠ op.type) (key : Bytes) (v : Option CustomValue) :
    lastCustom key v op = v := by
  cases op <;> simp_all [lastCustom, Op.type, eq_comm]

theorem Changed.reads {b' : ItemAttributes} {r : Option Value} (op : Op) (h : Changed b b' op.type r)
    (hint : isIntAttrType op.type = true → intOf r = lastInt op.type (intOf (b.attributes.lookup op.type)) op)
    (hstr : isStrAttrType op.type = true → strOf r = lastStr op.type (strOf (b.attributes.lookup op.type)) op)
    (hcustom : op.type = ITEM_ATTRIBUTE_CUSTOM → ∀ key,
      customOf key r = lastCustom key (customOf key (b.attributes.lookup ITEM_ATTRIBUTE_CUSTOM)) op) : Reads op b b' where
  int t _ hi := by
    rw [h.lookup]
    split
    · next ht => exact ht ▸ hint (ht ▸ hi)
    · next ht => rw [lastInt_of_ne ht]
  str t _ hs := by
    rw [h.lookup]
    split
    · next ht => exact ht ▸ hstr (ht ▸ hs)
    · next ht => rw [lastStr_of_ne ht]
  custom key := by
    rw [h.lookup]
    split
    · next ht => exact hcustom ht.symm key
    · next ht => rw [lastCustom_of_ne ht]

theorem setIntAttr_spec (h : Sound b) (ht : Single t) (value : BitVec 64) :
    Sound (b.setIntAttr t value) ∧ Reads (.setIntAttr t value) b (b.setIntAttr t value) := by
  unfold ItemAttributes.setIntAttr
  by_cases hi : isIntAttrType t = true
  · rw [if_neg (by simp [hi])]
    have hb := changed_getAttr h.toShape ht fun _ => .int (clamp t value)
    refine ⟨hb.sound h fun v hv => ?_, hb.reads (.setIntAttr t value) ?_ ?_ ?_⟩
    · cases hv
      exact hi
    · simp [lastInt, intOf, Op.type]
    · intro hs
      exact absurd hs (by simp [Op.type, ((kinds_apart ht).1 hi).1])
    · intro hc
      exact absurd hc ((kinds_apart ht).1 hi).2
  · rw [if_pos (by simpa using hi)]
    exact ⟨h, (Changed.refl h.toShape).reads (.setIntAttr t value) (fun hi' => absurd hi' hi) (fun _ => rfl) fun hc _ => hc ▸ rfl⟩

theorem setStrAttr_spec (h : Sound b) (ht : Single t) (value : Bytes) :
    Sound (b.setStrAttr t value) ∧ Reads (.setStrAttr t value) b (b.setStrAttr t value) := by
  unfold ItemAttributes.setStrAttr
  by_cases hs : isStrAttrType t = true ∧ value ≠ []
  · rw [if_neg (by simp [hs]), if_neg (by simp [hs])]
    have hb := changed_getAttr h.toShape ht fun _ => .str value
    refine ⟨hb.sound h fun v hv => ?_, hb.reads (.setStrAttr t value) ?_ ?_ ?_⟩
    · cases hv
      exact hs
    · intro hi
      have hstr := ((kinds_apart ht).1 hi).1
      simp [hs] at hstr
    · simp [lastStr, strOf, Op.type, hs.2]
    · intro hc
      exact absurd hc ((kinds_apart ht).2 hs.1)
  · have hsame : (if !isStrAttrType t then b else if value.isEmpty then b else b.getAttr t fun _ => .str value) = b := by
      grind [List.isEmpty_iff]
    rw [hsame]
    refine ⟨h, (Changed.refl h.toShape).reads (.setStrAttr t value) (fun _ => rfl) ?_ fun hc _ => hc ▸ rfl⟩
    intro hs'
    have hv : value = [] := by simpa [show isStrAttrType t = true from hs'] using hs
    simp [lastStr, Op.type, hv]

theorem increaseIntAttr_spec (h : Sound b) (ht : Single t) (value : BitVec 64) :
    ∃ b', b.increaseIntAttr t value = some b' ∧ Sound b' ∧ Reads (.increaseIntAttr t value) b b' := by
  unfold ItemAttributes.increaseIntAttr
  have hget : ∃ n, b.getIntAttr t = some n ∧ (isIntAttrType t = true → n = intOf (b.attributes.lookup t)) := by
    by_cases hi : isIntAttrType t = true
    · exact ⟨_, h.getIntAttr ht hi, fun _ => rfl⟩
    · exact ⟨0, if_pos (by simpa using hi), fun hi' => absurd hi' hi⟩
  rcases hget with ⟨n, hget, hn⟩
  rw [hget]
  rcases setIntAttr_spec h ht (n + value) with ⟨hsound, hreads⟩
  refine ⟨_, rfl, hsound, ?_, hreads.str, hreads.custom⟩
  intro u hu hi
  rw [hreads.int u hu hi]
  by_cases htu : t = u
  · subst htu
    rw [hn hi]
    rfl
  · simp [lastInt, htu]

theorem removeAttribute_spec (h : Sound b) (ht : Single t) :
    ∃ b', b.removeAttribute t = some b' ∧ Sound b' ∧ Reads (.removeAttribute t) b b' := by
  rcases changed_removeAttribute h.toShape ht with ⟨b', he, hb⟩
  refine ⟨b', he, hb.sound h (by simp), hb.reads (.removeAttribute t) ?_ ?_ ?_⟩
  · simp [lastInt, intOf, Op.type]
  · simp [lastStr, strOf, Op.type]
  · intro hc
    simp [lastCustom, customOf, show t = _ from hc]

theorem CustomSet.spec {b' : ItemAttributes} {key : Bytes} {v : Option CustomValue} (h : CustomSet b b' key v) (hb : Sound b)
    {op : Op} (hop : op.type = ITEM_ATTRIBUTE_CUSTOM)
    (hcustom : ∀ key' w, lastCustom key' w op = if asLowerCaseString key' = asLowerCaseString key then v else w) :
    Sound b' ∧ Reads op b b' := by
  rcases h with ⟨r, h, hkind, hset⟩
  have hapart := kinds_apart single_custom
  refine ⟨h.sound hb hkind, (hop ▸ h : Changed b b' op.type r).reads op ?_ ?_ fun _ key' => (hset key').trans (hcustom ..).symm⟩
  · intro hi
    exact absurd rfl (hapart.1 (hop ▸ hi)).2
  · intro hs
    exact absurd rfl (hapart.2 (hop ▸ hs))

theorem step_spec (h : Sound b) (op : Op) (hop : Single op.type) : ∃ b', step b op = some b' ∧ Sound b' ∧ Reads op b b' := by
  cases op with
  | setIntAttr t value => exact ⟨_, rfl, setIntAttr_spec h hop value⟩
  | setStrAttr t value => exact ⟨_, rfl, setStrAttr_spec h hop value⟩
  | increaseIntAttr t value => exact increaseIntAttr_spec h hop value
  | removeAttribute t => exact removeAttribute_spec h hop
  | setCustomAttribute key value =>
    rcases setCustomAttribute_spec h key value with ⟨b', he, hset⟩
    exact ⟨b', he, hset.spec h rfl fun _ _ => rfl⟩
  | removeCustomAttribute key =>
    rcases removeCustomAttribute_spec h key with ⟨x, b', he, hset⟩
    exact ⟨b', by rw [step, he]; rfl, hset.spec h rfl fun _ _ => rfl⟩

theorem sound_empty : Sound {} where
  nodup := nodup_nil
  single t ht := nomatch ht
  bits t _ := by simp [ItemAttributes.hasAttribute, hasBitSet]
  kind t v hv := by simp at hv

/-- Any calls with enumerators end, and leave a block from which is read what they set last. -/
theorem sound_run (h : Sound b) (ops : List Op) (hops : ∀ op ∈ ops, Single op.type) :
    ∃ b', run ops b = some b' ∧ Sound b' ∧
      (∀ t, Single t → isIntAttrType t = true →
        intOf (b'.attributes.lookup t) = ops.foldl (lastInt t) (intOf (b.attributes.lookup t))) ∧
      (∀ t, Single t → isStrAttrType t = true →
        strOf (b'.attributes.lookup t) = ops.foldl (lastStr t) (strOf (b.attributes.lookup t))) ∧
      ∀ key, customOf key (b'.attributes.lookup ITEM_ATTRIBUTE_CUSTOM) =
        ops.foldl (lastCustom key) (customOf key (b.attributes.lookup ITEM_ATTRIBUTE_CUSTOM)) := by
  induction ops generalizing b with
  | nil => exact ⟨b, rfl, h, fun _ _ _ => rfl, fun _ _ _ => rfl, fun _ => rfl⟩
  | cons op ops ih =>
    rcases step_spec h op (hops op mem_cons_self) with ⟨b₁, he, hsound, hreads⟩
    rcases ih hsound fun o ho => hops o (mem_cons_of_mem _ ho) with ⟨b', hrun, hsound', hint, hstr, hcustom⟩
    refine ⟨b', ?_, hsound', ?_, ?_, ?_⟩
    · rw [run, foldlM_cons, he]
      exact hrun
    · intro t ht hi
      rw [hint t ht hi, hreads.int t ht hi]
      rfl
    · intro t ht hs
      rw [hstr t ht hs, hreads.str t ht hs]
      rfl
    · simp [hcustom, hreads.custom]

/-- After any calls with enumerators, the bits are the types of the vector, once each and with
values of their kinds; and what is read of a type is the value set last, whatever was done to
the others. -/
theorem block_run (ops : List Op) (hops : ∀ op ∈ ops, Single op.type) : ∃ b, run ops {} = some b ∧
    ((b.attributes.map Prod.fst).Nodup ∧
      (∀ k < 64, b.attributeBits.getLsbD k = true ↔ BitVec.twoPow 64 k ∈ b.attributes.map Prod.fst) ∧
      ∀ a ∈ b.attributes, Single a.1 ∧ Kind a.1 a.2) ∧
    (∀ t, Single t → isIntAttrType t = true → b.getIntAttr t = some (ops.foldl (lastInt t) 0)) ∧
    (∀ t, Single t → isStrAttrType t = true → b.getStrAttr t = some (ops.foldl (lastStr t) [])) ∧
    ∀ key, b.getCustomAttribute key = ops.foldl (lastCustom key) none := by
  rcases sound_run sound_empty ops hops with ⟨b, he, h, hint, hstr, hcustom⟩
  refine ⟨b, he, ⟨h.nodup, ?_, ?_⟩, ?_, ?_, ?_⟩
  · intro k hk
    rw [← h.bits _ ⟨k, hk, rfl⟩, ← hasBitSet_twoPow hk]
    rfl
  · intro a ha
    exact ⟨h.single _ (mem_map_of_mem ha), h.kind _ _ ((lookup_iff_mem h.nodup).mpr ha)⟩
  · intro t ht hi
    rw [h.getIntAttr ht hi, hint t ht hi]
    rfl
  · intro t ht hs
    rw [h.getStrAttr ht hs, hstr t ht hs]
    rfl
  · intro key
    rw [h.getCustomAttribute, hcustom]
    rfl

theorem single_bit (t : AttrType) : Single t.bit := ⟨t.shift, shift_lt t, rfl⟩

/-- Charges are set, removed and increased from nothing beside a name and a custom attribute. -/
theorem charges_increased :
    let ops : List Op := [.setIntAttr (int .charges).bit 3, .setStrAttr (str .name).bit [97],
      .setCustomAttribute [75] (.int 1), .removeAttribute (int .charges).bit,
      .increaseIntAttr (int .charges).bit 2]
    ∃ b, run ops {} = some b ∧ b.getIntAttr (int .charges).bit = some 2 ∧
      b.getCustomAttribute [107] = some (.int 1) := by
  intro ops
  have hops : ∀ op ∈ ops, Single op.type := by
    intro op hop
    simp only [ops, mem_cons, not_mem_nil, or_false] at hop
    rcases hop with rfl | rfl | rfl | rfl | rfl
    · exact single_bit _
    · exact single_bit _
    · exact single_custom
    · exact single_bit _
    · exact single_bit _
  rcases block_run ops hops with ⟨b, he, -, hint, -, hcustom⟩
  refine ⟨b, he, ?_, ?_⟩
  · rw [hint _ (single_bit _) (by decide +kernel)]
    decide +kernel
  · rw [hcustom]
    decide +kernel

/-- An attack speed of fifty is read as a hundred, and a name that is set to nothing stays. -/
theorem attack_speed_raised :
    (∃ b, run [.setIntAttr ITEM_ATTRIBUTE_ATTACK_SPEED 50] {} = some b ∧
      b.getIntAttr ITEM_ATTRIBUTE_ATTACK_SPEED = some 100) ∧
    ∃ b, run [.setStrAttr (str .name).bit [97], .setStrAttr (str .name).bit []] {} = some b ∧
      b.getStrAttr (str .name).bit = some [97] :=
  ⟨⟨_, rfl, by decide +kernel⟩, ⟨_, rfl, by decide +kernel⟩⟩

/-! ## Items -/

def intAt (b : ItemAttributes) (a : IntAttr) : Option (BitVec 64) :=
  match b.attributes.lookup (int a).bit with
  | some (.int n) => some n
  | _ => none

def strAt (b : ItemAttributes) (a : StrAttr) : Option Bytes :=
  match b.attributes.lookup (str a).bit with
  | some (.str s) => some s
  | _ => none

/-- The block holds the integers and texts of the item. -/
def Shows (b : ItemAttributes) (it : Attributes.Item) : Prop := it.ints = intAt b ∧ it.strs = strAt b

theorem bit_injective {t u : AttrType} (h : t.bit = u.bit) : t = u := by
  refine shift_inj ?_
  have hbit := congrArg (fun v => BitVec.getLsbD v t.shift) h
  simpa [bit, shift_lt t, BitVec.getLsbD_twoPow, shift_lt u, eq_comm] using hbit

theorem bit_eq_iff {t u : AttrType} : t.bit = u.bit ↔ t = u := ⟨bit_injective, fun h => h ▸ rfl⟩

theorem isIntAttrType_bit (a : IntAttr) : isIntAttrType (int a).bit = true := by
  cases a <;> decide +kernel

theorem isStrAttrType_bit (a : StrAttr) : isStrAttrType (str a).bit = true := by
  cases a <;> decide +kernel

theorem Shows.setIntAttr {it : Attributes.Item} (h : Shows b it) (hs : Shape b) (a : IntAttr) (value : BitVec 64) :
    Shows (b.setIntAttr (int a).bit value) (it.setIntAttr a value) := by
  have hlookup := (changed_getAttr hs (single_bit (.int a)) fun _ => .int (clamp (int a).bit value)).lookup
  have hclamp : clamp (int a).bit value = if a = .attackSpeed ∧ value.toInt < 100 then 100 else value := by
    unfold clamp ITEM_ATTRIBUTE_ATTACK_SPEED
    simp only [bit_eq_iff, int.injEq]
  unfold ItemAttributes.setIntAttr
  rw [if_neg (by simp [isIntAttrType_bit])]
  constructor
  · funext a'
    show Function.update it.ints a _ a' = _
    show _ = match (b.getAttr (int a).bit fun _ => .int (clamp (int a).bit value)).attributes.lookup _ with
      | some (.int n) => some n
      | _ => none
    rw [hlookup, hclamp, h.1]
    by_cases ha : a' = a <;> simp [ha, bit_eq_iff, intAt]
  · funext a'
    show _ = match (b.getAttr (int a).bit fun _ => .int (clamp (int a).bit value)).attributes.lookup _ with
      | some (.str s) => some s
      | _ => none
    rw [hlookup]
    simp [bit_eq_iff, Item.setIntAttr, h.2, strAt]

theorem Shows.setStrAttr {it : Attributes.Item} (h : Shows b it) (hs : Shape b) (a : StrAttr) (value : Bytes) :
    Shows (b.setStrAttr (str a).bit value) (it.setStrAttr a value) := by
  have hlookup := (changed_getAttr hs (single_bit (.str a)) fun _ => .str value).lookup
  unfold ItemAttributes.setStrAttr Item.setStrAttr
  rw [if_neg (by simp [isStrAttrType_bit])]
  by_cases hv : value = []
  · simp [hv, h]
  rw [if_neg (by simpa using hv), if_neg hv]
  constructor
  · funext a'
    simp [intAt, hlookup, bit_eq_iff, h.1]
  funext a'
  unfold strAt
  rw [hlookup, h.2]
  by_cases ha : a' = a <;> simp [ha, bit_eq_iff, strAt]

theorem Shows.of_changed {b' : ItemAttributes} {it it' : Attributes.Item} {r : Option Value} (h : Shows b it)
    (hb : Changed b b' ITEM_ATTRIBUTE_CUSTOM r) (hints : it'.ints = it.ints) (hstrs : it'.strs = it.strs) : Shows b' it' := by
  constructor
  · funext a
    rw [hints, h.1, intAt, intAt, hb.lookup, if_neg (by simp [ITEM_ATTRIBUTE_CUSTOM, bit_eq_iff])]
  · funext a
    rw [hstrs, h.2, strAt, strAt, hb.lookup, if_neg (by simp [ITEM_ATTRIBUTE_CUSTOM, bit_eq_iff])]

/-- What the functions of an item that set an attribute are made of. -/
inductive Setter where
  | int (a : IntAttr) (value : BitVec 64)
  | str (a : StrAttr) (value : Bytes)
  | custom (key : Bytes) (value : CustomValue)

def Setter.onBlock (b : ItemAttributes) : Setter → Option ItemAttributes
  | .int a value => some (b.setIntAttr (AttrType.int a).bit value)
  | .str a value => some (b.setStrAttr (AttrType.str a).bit value)
  | .custom key value => b.setCustomAttribute key value

def Setter.onItem (it : Attributes.Item) : Setter → Attributes.Item
  | .int a value => it.setIntAttr a value
  | .str a value => it.setStrAttr a value
  | .custom key value => it.setCustomAttribute key value

theorem Setter.shows {it : Attributes.Item} (h : Sound b) (hs : Shows b it) (setter : Setter) :
    ∃ b', setter.onBlock b = some b' ∧ Sound b' ∧ Shows b' (setter.onItem it) := by
  cases setter with
  | int a value => exact ⟨_, rfl, (setIntAttr_spec h (single_bit _) value).1, hs.setIntAttr h.toShape a value⟩
  | str a value => exact ⟨_, rfl, (setStrAttr_spec h (single_bit _) value).1, hs.setStrAttr h.toShape a value⟩
  | custom key value =>
    rcases setCustomAttribute_spec h key value with ⟨b', he, r, hb, hkind, -⟩
    exact ⟨b', he, hb.sound h hkind, hs.of_changed hb rfl rfl⟩

theorem shows_run (it : Attributes.Item) (h : Sound b) (hs : Shows b it) (setters : List Setter) :
    ∃ b', setters.foldlM Setter.onBlock b = some b' ∧ Sound b' ∧ Shows b' (setters.foldl Setter.onItem it) := by
  induction setters generalizing b it with
  | nil => exact ⟨b, rfl, h, hs⟩
  | cons setter setters ih =>
    rcases setter.shows h hs with ⟨b₁, he, h₁, hs₁⟩
    rcases ih _ h₁ hs₁ with ⟨b', hrun, h', hs'⟩
    exact ⟨b', by rw [foldlM_cons, he]; exact hrun, h', hs'⟩

theorem Shape.hasAttribute_iff (h : Shape b) (ht : Single t) :
    b.hasAttribute t = true ↔ (b.attributes.lookup t).isSome = true := by
  rw [h.bits t ht, Option.isSome_iff_ne_none, ne_eq, lookup_none_iff, not_not]

theorem Sound.hasAttribute_int (h : Sound b) (a : IntAttr) :
    b.hasAttribute (int a).bit = true ↔ (intAt b a).isSome = true := by
  rw [h.hasAttribute_iff (single_bit _), intAt]
  cases hv : b.attributes.lookup (int a).bit with
  | none => rfl
  | some v =>
    have hkind := h.kind _ v hv
    have hapart := (kinds_apart (single_bit (.int a))).1 (isIntAttrType_bit a)
    cases v with
    | monostate => exact hkind.elim
    | int n => rfl
    | str s => exact absurd (hapart.1.symm.trans hkind.1) Bool.false_ne_true
    | custom m => exact absurd hkind.1 hapart.2

theorem Sound.hasAttribute_str (h : Sound b) (a : StrAttr) :
    b.hasAttribute (str a).bit = true ↔ (strAt b a).isSome = true := by
  rw [h.hasAttribute_iff (single_bit _), strAt]
  cases hv : b.attributes.lookup (str a).bit with
  | none => rfl
  | some v =>
    have hkind := h.kind _ v hv
    have hapart := kinds_apart (single_bit (.str a))
    cases v with
    | monostate => exact hkind.elim
    | int n => exact absurd ((hapart.1 hkind).1.symm.trans (isStrAttrType_bit a)) Bool.false_ne_true
    | str s => rfl
    | custom m => exact absurd hkind.1 (hapart.2 (isStrAttrType_bit a))

/-- An item on which nothing was set. -/
def bare (it : Attributes.Item) : Attributes.Item := { it with ints := fun _ => none, strs := fun _ => none }

/-- Set on the block or on the item whose attributes are functions: the same is there, and read. -/
theorem block_refines (it : Attributes.Item) (setters : List Setter) :
    ∃ b, setters.foldlM Setter.onBlock {} = some b ∧
      (∀ a, b.getIntAttr (int a).bit = some ((setters.foldl Setter.onItem (bare it)).getIntAttr a) ∧
        (b.hasAttribute (int a).bit = true ↔ ((setters.foldl Setter.onItem (bare it)).ints a).isSome = true)) ∧
      ∀ a, b.getStrAttr (str a).bit = some ((setters.foldl Setter.onItem (bare it)).getStrAttr a) ∧
        (b.hasAttribute (str a).bit = true ↔ ((setters.foldl Setter.onItem (bare it)).strs a).isSome = true) := by
  rcases shows_run (bare it) sound_empty ⟨rfl, rfl⟩ setters with ⟨b, hrun, h, hs⟩
  refine ⟨b, hrun, fun a => ⟨?_, ?_⟩, fun a => ⟨?_, ?_⟩⟩
  · rw [h.getIntAttr (single_bit _) (isIntAttrType_bit a), Item.getIntAttr, hs.1, intAt]
    cases b.attributes.lookup (int a).bit with
    | none => rfl
    | some v => cases v <;> rfl
  · rw [hs.1]
    exact h.hasAttribute_int a
  · rw [h.getStrAttr (single_bit _) (isStrAttrType_bit a), Item.getStrAttr, hs.2, strAt]
    cases b.attributes.lookup (str a).bit with
    | none => rfl
    | some v => cases v <;> rfl
  · rw [hs.2]
    exact h.hasAttribute_str a

end Backlands.Attributes.Block
