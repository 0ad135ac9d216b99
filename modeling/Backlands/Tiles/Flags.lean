/-
  Backlands.Tiles.Flags — the flags of a tile and the items on it (src/tile.cpp).

  `setTileFlags` and `resetTileFlags` keep fourteen flags that queries and paths look at. Six
  are cleared only after a look at the other items; the others are cleared with any item that
  has the property, and the flag of what blocks the path for good is never set.

  Proved: `tile_flags`. Counterexample: `wall_unsupported`.
-/

import Backlands.Lib.Runs
import Backlands.Lib.Table
import Backlands.Tiles.Things

namespace Backlands.Tiles

open Backlands.Lib List

/-- The flags that come from the items. -/
inductive Mark
  | blocksolid | immovableblocksolid | blockpath | nofieldblockpath | immovableblockpath | immovablenofieldblockpath
  | floorchange | teleport | magicfield | mailbox | trashholder | bed | depot | supportsHangable
  deriving DecidableEq

namespace Mark

def flag : Mark → BitVec 32
  | blocksolid => Tilestate.blocksolid
  | immovableblocksolid => Tilestate.immovableblocksolid
  | blockpath => Tilestate.blockpath
  | nofieldblockpath => Tilestate.nofieldblockpath
  | immovableblockpath => Tilestate.immovableblockpath
  | immovablenofieldblockpath => Tilestate.immovablenofieldblockpath
  | floorchange => Tilestate.floorchange
  | teleport => Tilestate.teleport
  | magicfield => Tilestate.magicfield
  | mailbox => Tilestate.mailbox
  | trashholder => Tilestate.trashholder
  | bed => Tilestate.bed
  | depot => Tilestate.depot
  | supportsHangable => Tilestate.supportsHangable

def holds (items : Items) : Mark → Item → Bool
  | blocksolid, a => items.hasProperty a .blocksolid
  | immovableblocksolid, a => items.hasProperty a .immovableblocksolid
  | blockpath, a => items.hasProperty a .blockpath
  | nofieldblockpath, a => items.hasProperty a .nofieldblockpath
  | immovableblockpath, a => items.hasProperty a .immovableblockpath
  | immovablenofieldblockpath, a => items.hasProperty a .immovablenofieldblockpath
  | floorchange, a => (items a.id).floorChange ≠ 0
  | teleport, a => a.cls = .teleport
  | magicfield, a => a.cls = .magicField
  | mailbox, a => a.cls = .mailbox
  | trashholder, a => a.cls = .trashHolder
  | bed, a => a.cls = .bedItem
  | depot, a => a.cls = .depotLocker
  | supportsHangable, a => items.hasProperty a .supporthangable

/-- The flags that `resetTileFlags` clears only after a look at the other items. -/
def shared : Mark → Bool
  | blocksolid | immovableblocksolid | blockpath | nofieldblockpath | immovableblockpath | immovablenofieldblockpath => true
  | _ => false

end Mark

section
variable {items : Items}

theorem Mark.flags : Tilestate.blocksolid = blocksolid.flag ∧ Tilestate.immovableblocksolid = immovableblocksolid.flag ∧
    Tilestate.blockpath = blockpath.flag ∧ Tilestate.nofieldblockpath = nofieldblockpath.flag ∧
    Tilestate.immovableblockpath = immovableblockpath.flag ∧
    Tilestate.immovablenofieldblockpath = immovablenofieldblockpath.flag ∧ Tilestate.floorchange = floorchange.flag ∧
    Tilestate.teleport = teleport.flag ∧ Tilestate.magicfield = magicfield.flag ∧ Tilestate.mailbox = mailbox.flag ∧
    Tilestate.trashholder = trashholder.flag ∧ Tilestate.bed = bed.flag ∧ Tilestate.depot = depot.flag ∧
    Tilestate.supportsHangable = supportsHangable.flag :=
  ⟨rfl, rfl, rfl, rfl, rfl, rfl, rfl, rfl, rfl, rfl, rfl, rfl, rfl, rfl⟩

theorem hasBitSet_flag (m m' : Mark) : hasBitSet m.flag m'.flag = decide (m = m') := by
  cases m <;> cases m' <;> decide

theorem hasBitSet_floorChange (m : Mark) (id : Nat) :
    hasBitSet m.flag (items id).floorChange = (m = .floorchange && (items id).floorChange ≠ 0) := by
  have hin : (items id).floorChange &&& Tilestate.floorchange = (items id).floorChange := by
    have hsplit : (items id).floorChange = (items id).floorChange &&& (Tilestate.floorchange ||| ~~~Tilestate.floorchange) := by
      rw [show Tilestate.floorchange ||| ~~~Tilestate.floorchange = BitVec.allOnes 32 by decide, BitVec.and_allOnes]
    rw [BitVec.and_or_distrib_left, (items id).directions] at hsplit
    simpa using hsplit.symm
  unfold hasBitSet
  by_cases hm : m = .floorchange
  · subst hm
    rw [show Mark.floorchange.flag = Tilestate.floorchange from rfl, hin]
    simp
  have hapart : Tilestate.floorchange &&& m.flag = 0 := by
    cases m
    case floorchange => exact absurd rfl hm
    all_goals decide
  rw [← hin, BitVec.and_assoc, hapart]
  simp [hm]

theorem hasFlag_setTileFlags (m : Mark) (t : Tile) (a : Item) : (t.setTileFlags items a).hasFlag m.flag =
    (t.hasFlag m.flag || (m ≠ .immovableblockpath && m.holds items a)) := by
  unfold Tile.setTileFlags Tile.hasFlag
  simp only [Mark.flags, hasBitSet_ite_or, hasBitSet_flag, hasBitSet_floorChange]
  cases m
  all_goals simp [Mark.holds]
  -- a direction is set where none is
  cases hasBitSet Mark.floorchange.flag t.flags <;> simp

theorem hasBitSet_ite_clear (c : Prop) [Decidable c] (m m' : Mark) (f : BitVec 32) :
    hasBitSet m.flag (if c then f &&& ~~~m'.flag else f) = (hasBitSet m.flag f && !(decide c && decide (m = m'))) := by
  by_cases hc : c
  · rw [if_pos hc]
    by_cases hm : m = m'
    · subst hm
      simp [hasBitSet_clear_self, hc]
    · have hapart : m'.flag &&& m.flag = 0 := by
        simpa [hasBitSet, hm] using hasBitSet_flag m m'
      simp [hasBitSet_clear_of_disjoint hapart, hm]
  · simp [hc]

theorem hasFlag_resetTileFlags (m : Mark) (t : Tile) (a : Item) : (t.resetTileFlags items a).hasFlag m.flag =
    (t.hasFlag m.flag && !(m.holds items a && !(m.shared && t.stack.any fun b => b.ptr ≠ a.ptr && m.holds items b))) := by
  unfold Tile.resetTileFlags Tile.hasFlag
  simp only [Mark.flags, hasBitSet_ite_clear, Bool.decide_eq_true, Tile.last, Tile.hasProperty]
  cases m
  all_goals simp [Mark.holds, Mark.shared]

/-! ## What a step changes -/

/-- `out` has left the tile and `inn` has come; `R` stays. A flag that looks at the other items
    may see what has come. -/
structure Changed (items : Items) (out inn : Option Item) (R : List Item) (t t' : Tile) : Prop where
  before : t.stack.Perm (out.toList ++ R)
  after : ∀ m : Mark, t'.stack.any (m.holds items) = (inn.any (m.holds items) || R.any (m.holds items))
  addresses : (t'.stack.map (·.ptr)).Perm ((inn.toList ++ R).map (·.ptr))
  flags : ∃ seen : Bool, ∀ m : Mark, t'.hasFlag m.flag = ((t.hasFlag m.flag && !(out.any (m.holds items) &&
    !(m.shared && (R.any (m.holds items) || (seen && inn.any (m.holds items)))))) ||
    (m ≠ .immovableblockpath && inn.any (m.holds items)))

def Describes (items : Items) (t : Tile) : Prop := ∀ m : Mark, t.hasFlag m.flag = t.stack.any (m.holds items)

variable {out inn : Option Item} {R : List Item} {t t' t'' : Tile}

/-- What comes does not block the path for good, and of two with a property that is cleared
    without a look at the others, none leaves. -/
structure Sound (items : Items) (out inn : Option Item) (R : List Item) : Prop where
  passable : inn.any (Mark.immovableblockpath.holds items) = false
  single : ∀ m : Mark, m.shared = false → out.any (m.holds items) = true → R.any (m.holds items) = true →
    inn.any (m.holds items) = true

theorem any_perm {l l' : List Item} (h : l.Perm l') (p : Item → Bool) : l.any p = l'.any p := by
  rw [Bool.eq_iff_iff, any_eq_true, any_eq_true]
  exact exists_congr fun a => and_congr_left' h.mem_iff

theorem Changed.any (h : Changed items out inn R t t') (m : Mark) :
    t.stack.any (m.holds items) = (out.any (m.holds items) || R.any (m.holds items)) := by
  rw [any_perm h.before, any_append]
  cases out <;> simp

theorem Changed.describes_iff (h : Changed items out inn R t t') (hd : Describes items t)
    (hp : t.hasFlag Mark.immovableblockpath.flag = false) : Describes items t' ↔ Sound items out inn R := by
  obtain ⟨seen, hflags⟩ := h.flags
  have hibp := hd .immovableblockpath
  rw [hp, h.any] at hibp
  constructor
  · intro hd'
    refine ⟨?_, fun m hm ho hR => ?_⟩
    · have hafter := hd' .immovableblockpath
      rw [hflags, h.after, hp] at hafter
      simp at hafter
      simpa using hafter.1
    · have hafter := hd' m
      rw [hflags, h.after, hd m, h.any, hm, ho, hR] at hafter
      simp at hafter
      exact hafter.2
  · rintro ⟨hpass, hsingle⟩ m
    rw [hflags, h.after, hd m, h.any]
    by_cases hm : m = .immovableblockpath
    · simp_all
    · grind

/-! ## The ways to change a tile -/

variable {a : Item} {t₁ : Tile}

theorem Changed.refl (items : Items) (t : Tile) : Changed items none none t.stack t t :=
  ⟨List.Perm.refl _, by simp, List.Perm.refl _, false, by simp⟩

theorem Changed.same (hm : ∀ m : Mark, t'.stack.any (m.holds items) = t.stack.any (m.holds items))
    (hp : t'.stack.map (·.ptr) = t.stack.map (·.ptr)) (hf : t'.flags = t.flags) : Changed items none none t.stack t t' :=
  ⟨List.Perm.refl _, by simp [hm], by simp [hp], false, by simp [Tile.hasFlag, hf]⟩

theorem Changed.seq (h : Changed items out none R t t') (h' : Changed items none inn t'.stack t' t'') :
    Changed items out inn R t t'' := by
  have hR : ∀ m : Mark, t'.stack.any (m.holds items) = R.any (m.holds items) := by
    intro m
    rw [h.after]
    simp
  obtain ⟨seen, hflags⟩ := h.flags
  obtain ⟨seen', hflags'⟩ := h'.flags
  refine ⟨h.before, fun m => by rw [h'.after, hR], ?_, false, fun m => ?_⟩
  · have hrest := h.addresses
    refine h'.addresses.trans ?_
    rw [map_append, map_append]
    exact hrest.append_left _
  · rw [hflags', hflags]
    simp

theorem Changed.put (hs : t₁.stack.Perm (a :: t.stack)) (hf : t₁.flags = t.flags) :
    Changed items none (some a) t.stack t (t₁.setTileFlags items a) := by
  refine ⟨List.Perm.refl _, fun m => ?_, ?_, false, fun m => ?_⟩
  · rw [setTileFlags_stack, any_perm hs]
    simp
  · exact hs.map _
  · rw [hasFlag_setTileFlags]
    simp [Tile.hasFlag, hf]

theorem others_eq (h : a.ptr ∉ R.map (·.ptr)) (p : Item → Bool) :
    (R.any fun b => b.ptr ≠ a.ptr && p b) = R.any p := by
  rw [Bool.eq_iff_iff, any_eq_true, any_eq_true]
  refine exists_congr fun b => and_congr_right fun hb => ?_
  have hne : b.ptr ≠ a.ptr := fun he => h (mem_map.mpr ⟨b, hb, he⟩)
  simp [hne]

theorem Changed.take (hs : t.stack.Perm (a :: t₁.stack)) (hf : t₁.flags = t.flags) (hd : a.ptr ∉ t₁.stack.map (·.ptr)) :
    Changed items (some a) none t₁.stack t (t₁.resetTileFlags items a) := by
  refine ⟨hs, by simp, List.Perm.refl _, false, fun m => ?_⟩
  · rw [hasFlag_resetTileFlags, others_eq hd]
    simp [Tile.hasFlag, hf]

theorem Changed.swap {old new : Item} (hs : t.stack.Perm (old :: R)) (hs' : t₁.stack.Perm (new :: R))
    (hf : t₁.flags = t.flags) (hd : old.ptr ∉ R.map (·.ptr)) :
    Changed items (some old) (some new) R t ((t₁.resetTileFlags items old).setTileFlags items new) := by
  refine ⟨hs, fun m => ?_, hs'.map _, new.ptr ≠ old.ptr, fun m => ?_⟩
  · rw [setTileFlags_stack, resetTileFlags_stack, any_perm hs']
    simp
  · rw [hasFlag_setTileFlags, hasFlag_resetTileFlags, any_perm hs', any_cons, others_eq hd]
    simp [Tile.hasFlag, hf, Bool.or_comm]

theorem Changed.change {a' : Item} (hs : t.stack.Perm (a :: R)) (hd : a.ptr ∉ R.map (·.ptr)) :
    Changed items (some a) (some a') R t
      (((t.resetTileFlags items a).change a.ptr fun _ => a').setTileFlags items a') := by
  have hstack : (t.change a.ptr fun _ => a').stack.Perm (a' :: R) := by
    have hrest : R.map (fun b => if b.ptr = a.ptr then a' else b) = R := by
      refine (map_congr_left fun b hb => ?_).trans (map_id _)
      have hne : b.ptr ≠ a.ptr := fun he => hd (mem_map.mpr ⟨b, hb, he⟩)
      rw [if_neg hne]
      rfl
    rw [change_stack]
    refine (hs.map _).trans ?_
    rw [map_cons, if_pos rfl, hrest]
  refine ⟨hs, fun m => ?_, hstack.map _, false, fun m => ?_⟩
  · show (t.change a.ptr fun _ => a').stack.any _ = _
    rw [any_perm hstack]
    simp
  · rw [hasFlag_setTileFlags]
    show ((t.resetTileFlags items a).hasFlag m.flag || _) = _
    rw [hasFlag_resetTileFlags, any_perm hs, any_cons, others_eq hd]
    simp

/-! ## What each step changes -/

/-- A `removeThing` of `a` takes it off the tile. -/
def Tile.takesOut (items : Items) (t : Tile) (a : Item) (count : Nat) : Bool :=
  t.ground.any (·.ptr = a.ptr) ||
    if items.isAlwaysOnTop a then t.topItems.any (·.ptr = a.ptr)
    else t.downItems.any (·.ptr = a.ptr) && !((items a.id).stackable && count ≠ a.count)

theorem getThingIndex_none : t.getThingIndex items (.item a) = none ↔ t.ground.any (·.ptr = a.ptr) = false ∧
    (if items.isAlwaysOnTop a then t.topItems else t.downItems).any (·.ptr = a.ptr) = false := by
  simp only [Tile.getThingIndex, Tile.indexIn]
  cases t.ground.any (·.ptr = a.ptr) with
  | true => simp
  | false =>
    cases items.isAlwaysOnTop a with
    | true => simp [findIdx?_eq_none_iff]
    | false => simp [findIdx?_eq_none_iff]

theorem without_perm {l : List Item} (h : l.any (·.ptr = a.ptr) = true) (hsame : ∀ b ∈ l, b.ptr = a.ptr → b = a) :
    l.Perm (a :: Tile.without a.ptr l) := by
  obtain ⟨b, hb, hp⟩ := any_eq_true.mp h
  obtain ⟨c, l₁, l₂, -, hc, hl, he⟩ := @exists_of_eraseP Item (fun c => c.ptr = a.ptr) l b hb hp
  have hca : c = a := hsame c (by rw [hl]; simp) (of_decide_eq_true hc)
  unfold Tile.without
  rw [he, hl, hca]
  exact perm_middle

theorem notin_of_perm {l : List Item} (h : l.Perm (a :: R)) (hd : (l.map (·.ptr)).Nodup) : a.ptr ∉ R.map (·.ptr) := by
  have hnd := (h.map (·.ptr)).nodup_iff.mp hd
  rw [map_cons, nodup_cons] at hnd
  exact hnd.1

theorem removeItem_changed (hd : (t.stack.map (·.ptr)).Nodup) (hsame : ∀ b ∈ t.stack, b.ptr = a.ptr → b = a)
    (count : Nat) :
    ∃ R, Changed items (if t.takesOut items a count then some a else none) none R t (t.removeItem items a count) := by
  have htake : ∀ t₁ : Tile, t.stack.Perm (a :: t₁.stack) → t₁.flags = t.flags →
      ∃ R, Changed items (some a) none R t (t₁.resetTileFlags items a) :=
    fun _ hs hf => ⟨_, Changed.take hs hf (notin_of_perm hs hd)⟩
  have hkeep : ∃ R, Changed items none none R t t := ⟨_, Changed.refl items t⟩
  have hitem : ∀ b ∈ t.items, b.ptr = a.ptr → b = a := fun b hb => hsame b (mem_append_right _ hb)
  have hparts := down_top t
  unfold Tile.removeItem Tile.takesOut
  simp only [getThingIndex_none]
  cases hg : t.ground.any (·.ptr = a.ptr) with
  | true =>
    obtain ⟨g, hground, hp⟩ := (Option.any_eq_true _ _).mp hg
    have hga : g = a := hsame g (by simp [Tile.stack, hground]) (of_decide_eq_true hp)
    refine htake { t with ground := none } ?_ rfl
    simp [Tile.stack, hground, hga]
  | false =>
    cases ht : items.isAlwaysOnTop a with
    | true =>
      cases hin : t.topItems.any (·.ptr = a.ptr) with
      | false => simpa using hkeep
      | true =>
        simp only [Bool.false_or, if_true, hin, Bool.true_eq_false, and_false, if_false, Bool.false_eq_true, Bool.not_true]
        refine htake _ (stack_perm ?_) rfl
        have htop := without_perm hin fun b hb => hitem b (mem_of_mem_drop hb)
        rw [← hparts]
        exact (htop.append_left _).trans perm_middle
    | false =>
      cases hin : t.downItems.any (·.ptr = a.ptr) with
      | false => simpa using hkeep
      | true =>
        simp only [Bool.false_or, hin, Bool.true_eq_false, and_false, if_false, Bool.false_eq_true, Bool.not_true,
          Bool.true_and]
        cases (items a.id).stackable && decide (count ≠ a.count) with
        | true =>
          simp only [Bool.not_true, Bool.false_eq_true, if_false, if_true]
          have hf : ∀ b : Item, (if b.ptr = a.ptr then { b with count := Tile.countLeft a.count count } else b).ptr = b.ptr := by
            intro b
            split <;> rfl
          refine ⟨_, Changed.same (fun m => ?_) ?_ rfl⟩
          · rw [change_stack, any_map]
            congr 1
            funext b
            simp only [Function.comp]
            split
            · cases m <;> rfl
            · rfl
          · rw [change_stack, map_map]
            exact map_congr_left fun b _ => hf b
        | false =>
          refine htake _ (stack_perm ?_) rfl
          have hdown := without_perm hin fun b hb => hitem b (mem_of_mem_take hb)
          rw [← hparts]
          exact hdown.append_right _

/-- What leaves the tile in a step. -/
def Tile.outgoing (items : Items) (t : Tile) : Op → Option Item
  | .addThing (.item a) =>
    if t.items.length ≥ 0xFFFF then none
    else if (items a.id).isGroundTile then t.ground
    else if (items a.id).alwaysOnTop then
      if (items a.id).isSplash then
        (t.topItems.find? fun b => (items b.id).isSplash).filter fun oldSplash => t.takesOut items oldSplash 1
      else none
    else if (items a.id).isMagicField then
      (t.downItems.find? (·.cls = .magicField)).filter fun oldField =>
        (items oldField.id).replaceable && t.takesOut items oldField 1
    else none
  | .updateThing (.item a) _ _ => if t.getThingIndex items (.item a) = none then none else some a
  | .replaceThing index (.item _) =>
    match t.ground, index with
    | some oldItem, 0 => some oldItem
    | _, index => (t.place index).bind fun i => t.items[i]?
  | .removeThing (.item a) count => if t.takesOut items a count then some a else none
  | _ => none

/-- What comes, or what the one that is changed becomes. -/
def Tile.incoming (items : Items) (t : Tile) : Op → Option Item
  | .internalAddThing (.item a) =>
    if (items a.id).isGroundTile then if t.ground.isNone then some a else none
    else if t.items.length ≥ 0xFFFF then none else some a
  | .addThing (.item a) =>
    if t.items.length ≥ 0xFFFF then none
    else if (items a.id).isGroundTile || (items a.id).alwaysOnTop || !(items a.id).isMagicField then some a
    else if (t.downItems.find? (·.cls = .magicField)).all fun oldField => (items oldField.id).replaceable then some a
    else none
  | .updateThing (.item a) itemId count =>
    if t.getThingIndex items (.item a) = none then none
    else some (items.setSubType { a with id := itemId } (count % 2 ^ 16))
  | .replaceThing index (.item a) => (t.outgoing items (.replaceThing index (.item a))).map fun _ => a
  | _ => none

def Tile.others (t : Tile) (out : Option Item) : List Item := t.stack.filter fun b => out.all (b.ptr ≠ ·.ptr)

/-- The step keeps the flags true. -/
def Fits (items : Items) (t : Tile) (op : Op) : Prop :=
  Sound items (t.outgoing items op) (t.incoming items op) (t.others (t.outgoing items op))

theorem internalAddItem_changed (a : Item) : ∃ R, Changed items (t.outgoing items (.internalAddThing (.item a)))
    (t.incoming items (.internalAddThing (.item a))) R t (t.internalAddItem items a) := by
  have hkeep : ∃ R, Changed items none none R t t := ⟨_, Changed.refl items t⟩
  simp only [Tile.outgoing, Tile.incoming, Tile.internalAddItem]
  split
  · cases hg : t.ground with
    | none => exact ⟨_, Changed.put (by simp [Tile.stack, hg]) rfl⟩
    | some g => exact hkeep
  · split
    · exact hkeep
    · split
      · exact ⟨_, Changed.put (insertTop_perm _ a _) rfl⟩
      · exact ⟨_, Changed.put (insertDown_perm _ a) rfl⟩

theorem object {l : List Item} (hd : (l.map (·.ptr)).Nodup) (ha : a ∈ l) : ∀ b ∈ l, b.ptr = a.ptr → b = a :=
  fun _ hb he => inj_on_of_nodup_map hd hb ha he

theorem ground_changed (hd : (t.stack.map (·.ptr)).Nodup) {oldGround : Item} (hg : t.ground = some oldGround) (a : Item) :
    ∃ R, Changed items (some oldGround) (some a) R t
      (({ t with ground := some a }.resetTileFlags items oldGround).setTileFlags items a) := by
  have hs : t.stack.Perm (oldGround :: t.items) := by
    simp [Tile.stack, hg]
  exact ⟨_, Changed.swap hs (List.Perm.refl _) rfl (notin_of_perm hs hd)⟩

theorem addItem_changed (hd : (t.stack.map (·.ptr)).Nodup) (a : Item) :
    ∃ R, Changed items (t.outgoing items (.addThing (.item a))) (t.incoming items (.addThing (.item a))) R t
      (t.addItem items a) := by
  have hkeep : ∃ R, Changed items none none R t t := ⟨_, Changed.refl items t⟩
  have hmem : ∀ b ∈ t.items, b ∈ t.stack := fun b hb => mem_append_right _ hb
  have hremove : ∀ b ∈ t.items, ∃ R, Changed items (if t.takesOut items b 1 then some b else none) none R t
      (t.removeItem items b 1) := fun b hb => removeItem_changed hd (object hd (hmem b hb)) 1
  simp only [Tile.outgoing, Tile.incoming, Tile.addItem]
  split
  · exact hkeep
  cases hground : (items a.id).isGroundTile with
  | true =>
    cases hg : t.ground with
    | none => exact ⟨_, Changed.put (by simp [Tile.stack, hg]) rfl⟩
    | some oldGround => exact ground_changed hd hg a
  | false =>
    cases htop : (items a.id).alwaysOnTop with
    | true =>
      cases hsplash : (items a.id).isSplash with
      | false => exact ⟨_, Changed.put (insertTop_perm _ a _) rfl⟩
      | true =>
        simp only [if_true, Tile.removeSplash]
        cases hfind : t.topItems.find? fun b => (items b.id).isSplash with
        | none => exact ⟨_, Changed.put (insertTop_perm _ a _) rfl⟩
        | some oldSplash =>
          have hin : oldSplash ∈ t.items := mem_of_mem_drop (mem_of_find?_eq_some hfind)
          obtain ⟨R, hR⟩ := hremove oldSplash hin
          exact ⟨R, hR.seq (Changed.put (insertTop_perm _ a _) rfl)⟩
    | false =>
      cases hfield : (items a.id).isMagicField with
      | false => exact ⟨_, Changed.put (insertDown_perm _ a) rfl⟩
      | true =>
        cases hfind : t.downItems.find? (·.cls = .magicField) with
        | none => exact ⟨_, Changed.put (insertDown_perm _ a) rfl⟩
        | some oldField =>
          have hin : oldField ∈ t.items := mem_of_mem_take (mem_of_find?_eq_some hfind)
          obtain ⟨R, hR⟩ := hremove oldField hin
          rw [Option.filter_some]
          cases hrep : (items oldField.id).replaceable with
          | false =>
            simp only [Bool.false_and, Option.all_some, hrep, Bool.false_eq_true, if_false]
            exact hkeep
          | true =>
            simp only [Bool.true_and, Option.all_some, hrep, if_true]
            exact ⟨R, hR.seq (Changed.put (insertDown_perm _ a) rfl)⟩

theorem mem_of_index (hreal : ∀ b ∈ t.stack, b.ptr = a.ptr → b = a) (hindex : ¬t.getThingIndex items (.item a) = none) :
    a ∈ t.stack := by
  by_contra hn
  have hptr : ∀ b ∈ t.stack, decide (b.ptr = a.ptr) = false :=
    fun b hb => decide_eq_false fun he => hn (hreal b hb he ▸ hb)
  refine hindex (getThingIndex_none.mpr ⟨?_, ?_⟩)
  · cases hg : t.ground with
    | none => rfl
    | some g => exact hptr g (by simp [Tile.stack, hg])
  rw [any_eq_false]
  intro b hb
  have hitems : b ∈ t.items := by
    split at hb
    · exact mem_of_mem_drop hb
    · exact mem_of_mem_take hb
  rw [hptr b (mem_append_right _ hitems)]
  exact Bool.false_ne_true

theorem updateThing_changed (hd : (t.stack.map (·.ptr)).Nodup) (hreal : ∀ b ∈ t.stack, b.ptr = a.ptr → b = a)
    (itemId count : Nat) : ∃ R, Changed items (t.outgoing items (.updateThing (.item a) itemId count))
      (t.incoming items (.updateThing (.item a) itemId count)) R t (t.updateThing items (.item a) itemId count) := by
  simp only [Tile.outgoing, Tile.incoming, Tile.updateThing]
  split
  · exact ⟨_, Changed.refl items t⟩
  next hindex =>
  have hin := mem_of_index hreal hindex
  have hs := perm_cons_filter hd hin
  exact ⟨_, Changed.change hs (notin_of_perm hs hd)⟩

theorem replaceThing_changed (hd : (t.stack.map (·.ptr)).Nodup) (index : Nat) (a : Item) :
    ∃ R, Changed items (t.outgoing items (.replaceThing index (.item a)))
      (t.incoming items (.replaceThing index (.item a))) R t (t.replaceThing items index (.item a)) := by
  have hplace : ∀ index, ∃ R, Changed items ((t.place index).bind fun i => t.items[i]?)
      (((t.place index).bind fun i => t.items[i]?).map fun _ => a) R t ((t.place index).elim t fun i =>
        (t.items[i]?).elim t fun oldItem => ({ t with items := t.items.set i a }.resetTileFlags items oldItem).setTileFlags items a) := by
    intro index
    cases t.place index with
    | none => exact ⟨_, Changed.refl items t⟩
    | some i =>
      cases hi : t.items[i]? with
      | none =>
        simp only [Option.bind_some, Option.elim_some, Option.elim_none, hi]
        exact ⟨_, Changed.refl items t⟩
      | some oldItem =>
        simp only [Option.bind_some, Option.elim_some, hi]
        obtain ⟨hlt, rfl⟩ := List.getElem?_eq_some_iff.mp hi
        have hs := stack_perm (getElem_cons_eraseIdx_perm hlt).symm
        have hs' : ({ t with items := t.items.set i a } : Tile).stack.Perm (a :: (t.ground.toList ++ t.items.eraseIdx i)) :=
          stack_perm (t := { t with items := t.items.set i a }) (set_perm_cons_eraseIdx hlt a)
        exact ⟨_, Changed.swap hs hs' rfl (notin_of_perm hs hd)⟩
  have hat := hplace index
  cases hg : t.ground with
  | none =>
    rw [← replaceThing_item items t index a (by simp [hg])] at hat
    simp only [Tile.incoming, Tile.outgoing, hg]
    cases index with
    | zero => exact hat
    | succ index => exact hat
  | some oldItem =>
    cases index with
    | zero =>
      simp only [Tile.incoming, Tile.outgoing, Tile.replaceThing, hg]
      exact ground_changed hd hg a
    | succ index =>
      rw [← replaceThing_item items t (index + 1) a (by simp)] at hat
      simp only [Tile.incoming, Tile.outgoing, hg]
      exact hat

theorem step_changed (hd : (t.stack.map (·.ptr)).Nodup) {op : Op} (hreal : op.Real t) :
    ∃ R, Changed items (t.outgoing items op) (t.incoming items op) R t (step items t op) := by
  have hkeep : ∀ cs, ∃ R, Changed items none none R t { t with creatures := cs } :=
    fun cs => ⟨_, Changed.same (fun m => rfl) rfl rfl⟩
  cases op with
  | internalAddThing thing =>
    cases thing with
    | creature c => exact hkeep _
    | item a => exact internalAddItem_changed a
  | addThing thing =>
    cases thing with
    | creature c => exact hkeep _
    | item a => exact addItem_changed hd a
  | updateThing thing itemId count =>
    cases thing with
    | creature c =>
      show ∃ R, Changed items none none R t (t.updateThing items (.creature c) itemId count)
      unfold Tile.updateThing
      split
      · exact hkeep _
      · exact hkeep _
    | item a => exact updateThing_changed hd hreal itemId count
  | replaceThing index thing =>
    cases thing with
    | creature c => exact hkeep _
    | item a => exact replaceThing_changed hd index a
  | removeThing thing count =>
    cases thing with
    | creature c => exact hkeep _
    | item a => exact removeItem_changed hd hreal count

/-- A step brings no address that stays. -/
theorem incoming_fresh (hd : (t.stack.map (·.ptr)).Nodup) {op : Op} (hreal : op.Real t)
    (hR : t.stack.Perm ((t.outgoing items op).toList ++ R)) {n : Item} (hn : t.incoming items op = some n) :
    n.ptr ∉ R.map (·.ptr) := by
  have hnew : ∀ a : Item, (∀ b ∈ t.stack, b.ptr ≠ a.ptr) → a.ptr ∉ R.map (·.ptr) := by
    intro a ha hin
    obtain ⟨b, hb, he⟩ := mem_map.mp hin
    exact ha b (hR.mem_iff.mpr (mem_append_right _ hb)) he
  cases op with
  | internalAddThing thing =>
    cases thing with
    | creature c => cases hn
    | item a =>
      have hna : n = a := by
        simp only [Tile.incoming] at hn
        grind
      exact hna ▸ hnew a hreal
  | addThing thing =>
    cases thing with
    | creature c => cases hn
    | item a =>
      have hna : n = a := by
        simp only [Tile.incoming] at hn
        grind
      exact hna ▸ hnew a hreal
  | updateThing thing itemId count =>
    cases thing with
    | creature c => cases hn
    | item a =>
      simp only [Tile.incoming] at hn
      split at hn
      · cases hn
      next hindex =>
      cases hn
      rw [setSubType_ptr]
      simp only [Tile.outgoing, if_neg hindex] at hR
      show a.ptr ∉ _
      exact notin_of_perm hR hd
  | replaceThing index thing =>
    cases thing with
    | creature c => cases hn
    | item a =>
      obtain ⟨-, -, rfl⟩ := Option.map_eq_some_iff.mp hn
      exact hnew a hreal
  | removeThing thing count => cases thing <;> cases hn

theorem Changed.nodup (h : Changed items out inn R t t') (hd : (t.stack.map (·.ptr)).Nodup)
    (hfresh : ∀ n, inn = some n → n.ptr ∉ R.map (·.ptr)) : (t'.stack.map (·.ptr)).Nodup := by
  have hR := (h.before.map (·.ptr)).nodup_iff.mp hd
  rw [map_append, nodup_append] at hR
  rw [h.addresses.nodup_iff]
  cases inn with
  | none => exact hR.2.1
  | some n => exact nodup_cons.mpr ⟨hfresh n rfl, hR.2.1⟩

theorem others_perm (hd : (t.stack.map (·.ptr)).Nodup) (h : t.stack.Perm (out.toList ++ R)) : (t.others out).Perm R := by
  cases out with
  | none =>
    have hall : t.others none = t.stack := by simp [Tile.others]
    rw [hall]
    exact h
  | some a =>
    have hs : t.stack.Perm (a :: t.others (some a)) := by
      have hin : a ∈ t.stack := h.mem_iff.mpr mem_cons_self
      exact perm_cons_filter hd hin
    exact (hs.symm.trans h).cons_inv

theorem Sound.congr {R' : List Item} (h : R.Perm R') : Sound items out inn R ↔ Sound items out inn R' := by
  have hany := any_perm h
  constructor
  · rintro ⟨hp, hs⟩
    exact ⟨hp, fun m => hany (m.holds items) ▸ hs m⟩
  · rintro ⟨hp, hs⟩
    exact ⟨hp, fun m => (hany (m.holds items)).symm ▸ hs m⟩

/-! ## Runs -/

theorem step_nodup (items : Items) (hd : (t.stack.map (·.ptr)).Nodup) {op : Op} (hreal : op.Real t) :
    ((step items t op).stack.map (·.ptr)).Nodup := by
  obtain ⟨R, h⟩ := @step_changed items t hd op hreal
  exact h.nodup hd fun n hn => incoming_fresh hd hreal h.before hn

structure Inv (items : Items) (t : Tile) : Prop where
  addresses : (t.stack.map (·.ptr)).Nodup
  describes : Describes items t
  passable : t.hasFlag Mark.immovableblockpath.flag = false

theorem step_describes_iff (hi : Inv items t) {op : Op} (hreal : op.Real t) :
    Describes items (step items t op) ↔ Fits items t op := by
  obtain ⟨R, h⟩ := @step_changed items t hi.addresses op hreal
  rw [h.describes_iff hi.describes hi.passable]
  exact (Sound.congr (others_perm hi.addresses h.before)).symm

theorem Inv.step (hi : Inv items t) {op : Op} (hreal : op.Real t) (hfits : Fits items t op) : Inv items (step items t op) := by
  have hd := (step_describes_iff hi hreal).mpr hfits
  obtain ⟨R, h⟩ := @step_changed items t hi.addresses op hreal
  refine ⟨step_nodup items hi.addresses hreal, hd, ?_⟩
  have hbefore := hi.describes .immovableblockpath
  rw [hi.passable, h.any] at hbefore
  rw [hd, h.after, hfits.passable]
  simpa using (Bool.or_eq_false_iff.mp hbefore.symm).2

/-- A new tile, perhaps in a zone. -/
def Tile.Bare (t : Tile) : Prop := t.stack = [] ∧ ∀ m : Mark, t.hasFlag m.flag = false

theorem Inv.bare (h : t.Bare) : Inv items t := by
  obtain ⟨hs, hf⟩ := h
  refine ⟨by simp [hs], fun m => ?_, hf _⟩
  rw [hs, hf]
  rfl

end

/-- The flags tell what is on the tile all along a run exactly when no step brings what blocks
    the path for good, or takes one of two things with the same property of those that are
    cleared without a look at the other. -/
theorem tile_flags (items : Items) (t : Tile) (ht : t.Bare) (ops : List Op) (hreal : Allowed (step items) Op.Real t ops) :
    (∀ k ≤ ops.length, Describes items (run (step items) t (ops.take k))) ↔ Allowed (step items) (Fits items) t ops := by
  have hkept : ∀ s op, Op.Real s op → Fits items s op → Inv items s → Inv items (step items s op) :=
    fun _ _ hc hfits hi => hi.step hc hfits
  have hneeded : ∀ s op, Op.Real s op → Inv items s → Describes items (step items s op) → Fits items s op :=
    fun _ _ hc hi => (step_describes_iff hi hc).mp
  exact along_iff_allowed_of (fun _ hi => hi.describes) hkept hneeded (Inv.bare ht) hreal

def walls : Items := fun id => if id = 1 then { isGroundTile := true } else { isVertical := true, moveable := false }

def wall (ptr : Nat) : Thing := .item { ptr, id := 2 }

theorem wall_described : Describes walls (run (step walls) {} [.addThing (wall 0), .removeThing (wall 0) 1]) := by
  refine (tile_flags walls {} ⟨rfl, fun m => by cases m <;> rfl⟩ [.addThing (wall 0), .removeThing (wall 0) 1] ?_).mpr ?_ 2
    le_rfl
  · exact ⟨by decide, by decide, trivial⟩
  · exact ⟨⟨by decide, fun m _ ho => by cases ho⟩, ⟨by decide, fun m _ _ hR => by cases hR⟩, trivial⟩

/-- Of two walls one is taken, and the other supports nothing any more. -/
theorem wall_unsupported : ¬∀ (items : Items) (t : Tile), t.Bare → ∀ ops, Allowed (step items) Op.Real t ops →
    ∀ k ≤ ops.length, Describes items (run (step items) t (ops.take k)) := by
  intro h
  let ops : List Op := [.addThing (wall 0), .addThing (wall 1), .removeThing (wall 0) 1]
  have hreal : Allowed (step walls) Op.Real {} ops := ⟨by decide, by decide, by decide, trivial⟩
  have hdescribes := h walls {} ⟨rfl, fun m => by cases m <;> rfl⟩ ops hreal 3 (by decide) .supportsHangable
  exact absurd hdescribes (by decide)

end Backlands.Tiles
