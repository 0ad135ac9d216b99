/-
  Backlands.House.Framing — whether each item of a tile is loaded from its own bytes.

  Proved: `tile_framing_iff`. Every item that `saveTile` wrote, at every depth, is read from
  its own bytes, no more and no less, with its id and its contents in order, exactly when
  each can be created under its id, is a container if and only if it was one, and is no depot
  locker. An item that cannot be created is not skipped: only its id is read.
-/

import Backlands.House.Stream

namespace Backlands.House

open Backlands.Lib List Attributes
open Backlands.Attributes (AttrTag Field)

/-! ## Attributes -/

section
variable (w : World) (x : Thing)

/-- The tags that a class may read by itself. -/
def ownTags : List AttrTag := [.containerItems, .depotId, .houseDoorId, .sleeperGuid, .sleepStart, .teleDest]

variable {t : AttrTag}

theorem readAttr_plain (ht : t ∉ ownTags) (o : Obj) (bs : Bytes) : w.readAttr x t o bs =
    (readAttr (w.types x.id).info w.addUniqueItem t o.base bs).map fun b => { o with base := b } := by
  obtain ⟨id, cls, obj⟩ := x
  cases cls <;> cases t <;> first | rfl | exact absurd (by decide) ht

theorem tag_not_mem_ownTags (f : Field) : f.tag ∉ ownTags := by
  cases f with
  | str a s =>
    show a.tag ∉ ownTags
    cases a <;> decide
  | int f v =>
    show f.tag ∉ ownTags
    cases f <;> decide
  | count | charges | actionId | date | duration | decayingState | imbueSlots | imbuements | custom =>
    simp [Field.tag, ownTags]

/-- The bytes are taken off, and the number of items to come is left alone. -/
def Takes (bs : Bytes) (o o' : Obj) : Prop :=
  Runs 0 (w.readByte x) bs o o' ∧ o'.serializationCount = o.serializationCount

variable {w x}

theorem Takes.refl (o : Obj) : Takes w x [] o o := ⟨Runs.refl o, rfl⟩

theorem Takes.trans {bs cs : Bytes} {o o' o'' : Obj} (h : Takes w x bs o o') (h' : Takes w x cs o' o'') :
    Takes w x (bs ++ cs) o o'' := ⟨h.1.trans h'.1, h'.2.trans h.2⟩

theorem Takes.tag {bs : Bytes} {o o' : Obj} (h : ∀ rest, w.readAttr x t o (bs ++ rest) = .more o' rest)
    (hc : o'.serializationCount = o.serializationCount) : Takes w x (t.code :: bs) o o' := by
  refine ⟨Runs.field (code_ne_zero t) fun rest => ?_, hc⟩
  rw [World.readByte, ofCode_code]
  exact h rest

theorem takes_field {f : Field} (hf : f.Sized) (o : Obj) :
    Takes w x f.bytes o { o with base := apply (w.types x.id).info o.base f } := by
  refine Takes.tag (fun rest => ?_) rfl
  rw [readAttr_plain w x (tag_not_mem_ownTags f), readAttr_field _ _ f hf]
  rfl

theorem takes_fields {fs : List Field} (hfs : ∀ f ∈ fs, f.Sized) (o : Obj) :
    ∃ o', Takes w x (fs.flatMap Field.bytes) o o' := by
  induction fs generalizing o with
  | nil => exact ⟨o, Takes.refl o⟩
  | cons f fs ih =>
    obtain ⟨o', h⟩ := ih (fun g hg => hfs g (mem_cons_of_mem f hg))
      { o with base := apply (w.types x.id).info o.base f }
    exact ⟨o', (takes_field (hfs f mem_cons_self) o).trans h⟩

theorem Takes.scan {α : Type} {p : Scan α} {f : α → Obj} {bs : Bytes} {a : α} {o : Obj}
    (hread : ∀ bs, w.readAttr x t o bs = .scan () p f bs) (hs : Scans p bs a)
    (hc : (f a).serializationCount = o.serializationCount) : Takes w x (t.code :: bs) o (f a) := by
  refine Takes.tag (fun rest => ?_) hc
  rw [hread]
  exact Outcome.scan_scans hs rest

theorem Takes.skip {n : Nat} {t : AttrTag} {bs : Bytes} {o : Obj}
    (hread : ∀ bs, w.readAttr x t o bs = (Attributes.skip n o.base bs).map fun b => { o with base := b })
    (hlen : bs.length = n) : Takes w x (t.code :: bs) o o := by
  subst hlen
  refine Takes.tag (fun rest => ?_) rfl
  have hcut : Attributes.skip bs.length o.base (bs ++ rest) = .more o.base rest :=
    Outcome.scan_scans (parses_cut bs).scans rest
  rw [hread, hcut]
  rfl

theorem takes_sleeperGuid (n : BitVec 32) (o : Obj) : ∃ o', Takes w x (AttrTag.sleeperGuid.code :: word n) o o' := by
  obtain ⟨id, cls, obj⟩ := x
  cases cls with
  | bed =>
    refine ⟨w.putSleeper n o, Takes.scan (f := fun n => w.putSleeper n o) (fun _ => rfl)
      (scans_word (by decide) n) ?_⟩
    grind [World.putSleeper]
  | item | container | depotLocker | door | teleport => exact ⟨o, Takes.skip (fun _ => rfl) (length_word n)⟩

theorem takes_sleepStart (n : BitVec 32) (o : Obj) : ∃ o', Takes w x (AttrTag.sleepStart.code :: word n) o o' := by
  obtain ⟨id, cls, obj⟩ := x
  cases cls with
  | bed =>
    exact ⟨_, Takes.scan (f := fun n => { o with sleepStart := n.setWidth 64 }) (fun _ => rfl)
      (scans_word (by decide) n) rfl⟩
  | item | container | depotLocker | door | teleport => exact ⟨o, Takes.skip (fun _ => rfl) (length_word n)⟩

theorem scans_readDest (p : BitVec 16 × BitVec 16 × BitVec 8) :
    Scans World.readDest (word p.1 ++ word p.2.1 ++ word p.2.2) p := by
  exact (scans_word (by decide) p.1).bind ((scans_word (by decide) p.2.1).bind
    ((scans_word (by decide) p.2.2).bind (Scans.pure _)))

theorem takes_teleDest (p : BitVec 16 × BitVec 16 × BitVec 8) (o : Obj) :
    ∃ o', Takes w x (AttrTag.teleDest.code :: (word p.1 ++ word p.2.1 ++ word p.2.2)) o o' := by
  have hlen : (word p.1 ++ word p.2.1 ++ word p.2.2).length = 5 := by
    rw [length_append, length_append, length_word, length_word, length_word]
  obtain ⟨id, cls, obj⟩ := x
  cases cls with
  | teleport =>
    exact ⟨_, Takes.scan (f := fun p => { o with destPos := p }) (fun _ => rfl) (scans_readDest p) rfl⟩
  | item | container | depotLocker | door | bed => exact ⟨o, Takes.skip (fun _ => rfl) hlen⟩

variable (w x) (types : Types) (enabled : Bool) (now : BitVec 64)

theorem takes_serializeAttr {a : Thing} (hw : Wellformed a.obj.base) (o : Obj) :
    ∃ o', Takes w x (a.serializeAttr types enabled now) o o' := by
  have hitem : ∀ o, ∃ o', Takes w x (serializeAttr (types a.id).info enabled now a.obj.base) o o' := by
    intro o
    exact takes_fields (fieldsOf_sized _ hw) o
  unfold Thing.serializeAttr
  cases a.cls with
  | item | container | depotLocker => exact hitem o
  | door => exact ⟨o, Takes.refl o⟩
  | bed =>
    have hguid : ∃ o', Takes w x
        (if a.obj.sleeperGUID ≠ 0 then AttrTag.sleeperGuid.code :: word a.obj.sleeperGUID else []) o o' := by
      split
      · exact takes_sleeperGuid _ o
      · exact ⟨o, Takes.refl o⟩
    obtain ⟨o₁, h₁⟩ := hguid
    have hstart : ∃ o', Takes w x
        (if a.obj.sleepStart ≠ 0 then AttrTag.sleepStart.code :: word (a.obj.sleepStart.setWidth 32) else []) o₁ o' := by
      split
      · exact takes_sleepStart _ o₁
      · exact ⟨o₁, Takes.refl o₁⟩
    obtain ⟨o₂, h₂⟩ := hstart
    exact ⟨o₂, h₁.trans h₂⟩
  | teleport =>
    obtain ⟨o₁, h₁⟩ := hitem o
    obtain ⟨o₂, h₂⟩ := takes_teleDest a.obj.destPos o₁
    exact ⟨o₂, h₁.trans h₂⟩

end

/-! ## Contents -/

section
variable (load : Bytes → Load (Option Tree))

theorem loadItems_add (m n : Nat) (items : List Tree) (bs : Bytes) : loadItems load (m + n) items bs =
    match loadItems load m items bs with
    | .ok items rest => loadItems load n items rest
    | .failed rest => .failed rest := by
  induction m generalizing items bs with
  | zero =>
    rw [Nat.zero_add]
    rfl
  | succ m ih =>
    rw [Nat.succ_add, loadItems, loadItems]
    cases load bs with
    | ok t rest => exact ih _ rest
    | failed rest => rfl

variable (types : Types) (enabled : Bool) (now : BitVec 64)

def Reads (load : Bytes → Load (Option Tree)) (dec : Tree → Tree) (ts : List Tree) : Prop :=
  ∀ u ∈ ts, ∀ rest, load (saveItem types enabled now u ++ rest) = .ok (some (dec u)) rest

theorem loadItems_saveItems {load : Bytes → Load (Option Tree)} {dec : Tree → Tree} {ts : List Tree}
    (h : Reads types enabled now load dec ts) (rest : Bytes) :
    loadItems load ts.length [] (saveItems types enabled now ts ++ rest) = .ok (ts.map dec) rest := by
  induction ts generalizing rest with
  | nil => rfl
  | cons t ts ih =>
    rw [saveItems, append_assoc, length_cons, loadItems_add,
      ih (fun u hu => h u (mem_cons_of_mem t hu))]
    show loadItems load 1 (ts.map dec) _ = _
    rw [loadItems, h t mem_cons_self]
    rfl

theorem saveItems_append (ts us : List Tree) : saveItems types enabled now (ts ++ us) =
    saveItems types enabled now us ++ saveItems types enabled now ts := by
  induction ts with
  | nil => rw [saveItems, nil_append, append_nil]
  | cons t ts ih => rw [cons_append, saveItems, ih, saveItems, append_assoc]

theorem saveItem_ne_nil (t : Tree) : saveItem types enabled now t ≠ [] := by
  obtain ⟨a, ts⟩ := t
  rw [saveItem]
  intro h
  have hlen := congrArg List.length h
  rw [length_append, length_word] at hlen
  simp at hlen

end

/-! ## One item -/

section
variable (types : Types) (enabled : Bool) (now : BitVec 64)

/-- What stands behind the id of an item. -/
def bodyOf (t : Tree) : Bytes := t.label.serializeAttr types enabled now ++
  ((if t.label.cls.isContainer then AttrTag.containerItems.code ::
    (word (BitVec.ofNat 32 t.contents.length) ++ saveItems types enabled now t.contents) else []) ++ [0])

theorem saveItem_eq (t : Tree) : saveItem types enabled now t = word t.label.id ++ bodyOf types enabled now t := by
  cases t
  rfl

variable (w : World) (x : Thing) {t : Tree}

theorem unserializeAttr_plain (hw : Wellformed t.label.obj.base) (hc : t.label.cls.isContainer = false) :
    ∃ o, o.serializationCount = x.obj.serializationCount ∧
      ∀ rest, w.unserializeAttr x (bodyOf types enabled now t ++ rest) = .ended o rest := by
  obtain ⟨o, hruns, hcount⟩ := takes_serializeAttr w x types enabled now hw x.obj
  refine ⟨o, hcount, fun rest => ?_⟩
  rw [bodyOf, hc, if_neg Bool.false_ne_true, nil_append, append_assoc]
  exact hruns.readTags rest

theorem unserializeAttr_container (hw : Wellformed t.label.obj.base) (hc : t.label.cls.isContainer = true)
    (hx : x.cls = .container) :
    ∃ o, o.serializationCount = BitVec.ofNat 32 t.contents.length ∧
      ∀ rest, w.unserializeAttr x (bodyOf types enabled now t ++ rest) =
        .ended o (saveItems types enabled now t.contents ++ 0 :: rest) := by
  obtain ⟨o, hruns, -⟩ := takes_serializeAttr w x types enabled now hw x.obj
  refine ⟨{ o with serializationCount := BitVec.ofNat 32 t.contents.length }, rfl, fun rest => ?_⟩
  rw [bodyOf, hc, if_pos rfl, cons_append, append_assoc, append_assoc, cons_append]
  refine hruns.readTags_ended (code_ne_zero _) ?_
  have hread : ∀ bs, w.readAttr x .containerItems o (word (BitVec.ofNat 32 t.contents.length) ++ bs) =
      .ended { o with serializationCount := BitVec.ofNat 32 t.contents.length } bs := by
    intro bs
    rw [World.readAttr, parses_readWord (by decide)]
    exact hx
  rw [World.readByte, ofCode_code, append_assoc, append_assoc]
  exact hread _

theorem unserializeAttr_failed (hw : Wellformed t.label.obj.base) (hc : t.label.cls.isContainer = true)
    (hx : x.cls ≠ .container) (rest : Bytes) :
    ∃ rest', w.unserializeAttr x (bodyOf types enabled now t ++ rest) = .failed () rest' := by
  obtain ⟨o, hruns, -⟩ := takes_serializeAttr w x types enabled now hw x.obj
  have hread : ∀ bs, w.readByte x AttrTag.containerItems.code o bs = .failed () bs := by
    intro bs
    obtain ⟨id, cls, obj⟩ := x
    cases cls with
    | container => exact absurd rfl hx
    | item | depotLocker | door | bed | teleport => rfl
  rw [bodyOf, hc, if_pos rfl, cons_append, append_assoc, cons_append]
  exact ⟨_, hruns.readTags_failed (code_ne_zero _) (hread _)⟩

/-- An object of the class `cls` can take what the item wrote. -/
structure Fits (cls : Class) (t : Tree) : Prop where
  container : t.label.cls.isContainer = cls.isContainer
  reads : cls ≠ .depotLocker
  size : t.label.cls.isContainer → t.contents.length < 2 ^ 32

variable {load : Bytes → Load (Option Tree)}

theorem eq_container {cls : Class} (h : cls.isContainer = true) (hd : cls ≠ .depotLocker) : cls = .container := by
  cases cls with
  | container => rfl
  | depotLocker => exact absurd rfl hd
  | item | door | bed | teleport => cases h

theorem loadInto_ok (fixture : Bool) (id : BitVec 16) (hw : Wellformed t.label.obj.base)
    (hsound : t.contents ≠ [] → t.label.cls.isContainer = true) (hfits : Fits x.cls t) :
    ∃ o, ∀ load dec, Reads types enabled now load dec t.contents → ∀ rest,
      loadInto load w fixture x id (bodyOf types enabled now t ++ rest) =
        .ok (some (.node ⟨id, x.cls, o⟩ (t.contents.map dec))) rest := by
  by_cases hc : t.label.cls.isContainer = true
  · have hx : x.cls.isContainer = true := hfits.container ▸ hc
    obtain ⟨o, hcount, hread⟩ := unserializeAttr_container types enabled now w x hw hc (eq_container hx hfits.reads)
    have hn : o.serializationCount.toNat = t.contents.length := by
      rw [hcount, BitVec.toNat_ofNat, Nat.mod_eq_of_lt (hfits.size hc)]
    refine ⟨{ o with serializationCount := 0 }, fun load dec hload rest => ?_⟩
    rw [loadInto, hread]
    show (if x.cls.isContainer then _ else _) = _
    rw [if_pos hx, hn, loadContainer, loadItems_saveItems types enabled now hload]
    rfl
  · have hplain : t.label.cls.isContainer = false := by simpa using hc
    have hempty : t.contents = [] := by
      by_contra hne
      exact hc (hsound hne)
    obtain ⟨o, -, hread⟩ := unserializeAttr_plain types enabled now w x hw hplain
    refine ⟨o, fun load dec hload rest => ?_⟩
    rw [loadInto, hread]
    show (if x.cls.isContainer then _ else _) = _
    rw [← hfits.container, if_neg hc, hempty]
    rfl

theorem loadContainer_nil (hnil : load [] = .failed []) (n : Nat) : loadContainer load n [] = .failed [] := by
  cases n with
  | zero => rfl
  | succ n => rw [loadContainer, loadItems, hnil]

/-- The counter has 32 bits: of more items only the last ones are read, and the bytes of the
    others are left. -/
theorem loadContainer_wrapped {dec : Tree → Tree} {ts : List Tree} (hload : Reads types enabled now load dec ts)
    (hsize : 2 ^ 32 ≤ ts.length) (items : List Tree) :
    loadContainer load (BitVec.ofNat 32 ts.length).toNat (saveItems types enabled now ts ++ [0]) ≠ .ok items [] := by
  rw [BitVec.toNat_ofNat]
  have hlt : ts.length % 2 ^ 32 < ts.length := lt_of_lt_of_le (Nat.mod_lt _ (by decide)) hsize
  generalize ts.length % 2 ^ 32 = n at hlt
  have hlen : (ts.drop (ts.length - n)).length = n := by
    rw [length_drop]
    omega
  obtain ⟨u, us, hfront⟩ : ∃ u us, ts.take (ts.length - n) = u :: us := by
    cases hf : ts.take (ts.length - n) with
    | nil =>
      have hzero := congrArg List.length hf
      rw [length_take, length_nil] at hzero
      omega
    | cons u us => exact ⟨u, us, rfl⟩
  have hback : Reads types enabled now load dec (ts.drop (ts.length - n)) := fun v hv =>
    hload v (mem_of_mem_drop hv)
  have hread := loadItems_saveItems types enabled now hback (saveItems types enabled now (u :: us) ++ [0])
  rw [hlen] at hread
  have hbytes : saveItems types enabled now ts ++ [0] = saveItems types enabled now (ts.drop (ts.length - n)) ++
      (saveItems types enabled now (u :: us) ++ [0]) := by
    rw [← append_assoc, ← saveItems_append, ← hfront, take_append_drop]
  rw [loadContainer, hbytes, hread]
  obtain ⟨b, bs, hb⟩ : ∃ b bs, saveItems types enabled now (u :: us) = b :: bs := by
    cases hs : saveItems types enabled now (u :: us) with
    | nil =>
      exact absurd (append_eq_nil_iff.mp hs).2 (saveItem_ne_nil types enabled now u)
    | cons b bs => exact ⟨b, bs, rfl⟩
  rw [hb]
  show (if b = 0 then Load.ok _ (bs ++ [0]) else Load.failed (bs ++ [0])) ≠ _
  split <;> simp

theorem fits_of_loadInto {dec : Tree → Tree} {fixture : Bool} {id : BitVec 16}
    (hload : Reads types enabled now load dec t.contents) (hnil : load [] = .failed [])
    (hw : Wellformed t.label.obj.base) {y : Tree}
    (h : loadInto load w fixture x id (bodyOf types enabled now t) = .ok (some y) []) : Fits x.cls t := by
  by_cases hc : t.label.cls.isContainer = true
  · by_cases hx : x.cls = .container
    · refine ⟨hc.trans (by rw [hx]; rfl), by rw [hx]; decide, fun _ => ?_⟩
      by_contra hsize
      obtain ⟨o, hcount, hread⟩ := unserializeAttr_container types enabled now w x hw hc hx
      have hread := hread []
      rw [append_nil] at hread
      rw [loadInto, hread] at h
      have hwrap := loadContainer_wrapped types enabled now hload (by omega)
      rw [← hcount] at hwrap
      simp only [hx, Class.isContainer, if_true] at h
      cases hl : loadContainer load o.serializationCount.toNat (saveItems types enabled now t.contents ++ [0]) with
      | ok items rest =>
        rw [hl] at h
        simp only [Load.ok.injEq] at h
        rw [h.2] at hl
        exact hwrap items hl
      | failed rest =>
        rw [hl] at h
        cases h
    · obtain ⟨rest, hfail⟩ := unserializeAttr_failed types enabled now w x hw hc hx []
      rw [append_nil] at hfail
      rw [loadInto, hfail] at h
      cases fixture <;> cases h
  · have hplain : t.label.cls.isContainer = false := by simpa using hc
    obtain ⟨o, -, hread⟩ := unserializeAttr_plain types enabled now w x hw hplain
    have hread := hread []
    rw [append_nil] at hread
    rw [loadInto, hread] at h
    have hx : x.cls.isContainer = false := by
      by_contra hx
      simp only [Bool.not_eq_false] at hx
      simp only [hx, if_true, loadContainer_nil hnil] at h
      cases h
    refine ⟨hplain.trans hx.symm, ?_, fun hc' => absurd hc' hc⟩
    intro hd
    rw [hd] at hx
    cases hx

end

/-! ## Framing -/

/-- `y` is the item `t` or one in it. -/
inductive In (y : Tree) : Tree → Prop where
  | here : In y y
  | there {a : Thing} {ts : List Tree} {u : Tree} : u ∈ ts → In y u → In y (.node a ts)

def ids (t : Tree) : RoseTree (BitVec 16) := t.map fun x => x.id

namespace World
variable (w : World)

mutual
/-- The ids that are to be there again: those of an item that cannot be created are left out,
    with what is in it. -/
def kept : Tree → Option (RoseTree (BitVec 16))
  | .node x items => if creatable w.types x.id then some (.node x.id (keptAll items)) else none
def keptAll : List Tree → List (RoseTree (BitVec 16))
  | [] => []
  | t :: ts => (kept t).toList ++ keptAll ts
end

/-- An item that there is a fixture for is not created. -/
def expected (tile : Option (List Tree)) (t : Tree) : Option (RoseTree (BitVec 16)) :=
  if (w.fixture tile t.label.id).isSome then some (.node t.label.id (w.keptAll t.contents)) else w.kept t

/-- An item that is read from its own bytes, no more and no less: what follows them does not
    matter and is left. -/
def Frames (types : Types) (enabled : Bool) (now : BitVec 64) (tile : Option (List Tree)) (t : Tree) : Prop :=
  ∃ y, (∀ rest, w.load tile (saveItem types enabled now t ++ rest) = .ok y rest) ∧ y.map ids = w.expected tile t

structure Framed (types : Types) (enabled : Bool) (now : BitVec 64) (tiles : Nat → List Tree) (tile : Tile) : Prop where
  items : ∀ k t, (tile.written types)[k]? = some t → w.Frames types enabled now (some (tiles k)) t
  inside : ∀ t ∈ tile.written types, ∀ u ∈ t.contents, ∀ y, In y u → w.Frames types enabled now none y
  row : tile.written types ≠ [] → ∃ ys, w.loadTile tiles (saveTile types enabled now tile) = some (tile.pos, ys, []) ∧
    ys.length = (tile.written types).length ∧ ∀ k t y, (tile.written types)[k]? = some t → ys[k]? = some y →
      y.map ids = w.expected (some (tiles k)) t

/-- The item can be loaded: into the fixture there is for it, or into an object that is made
    under its id. -/
def Loadable (tile : Option (List Tree)) (t : Tree) : Prop :=
  match w.fixture tile t.label.id with
  | some x => Fits x.cls t
  | none => creatable w.types t.label.id ∧ createdId w.types t.label.id = t.label.id ∧
    Fits (classOf w.types t.label.id) t

theorem createItem_none {id : BitVec 16} (h : creatable w.types id = false) : w.createItem id = none := by
  rw [createItem, h]
  rfl

theorem createItem_some {id : BitVec 16} (h : creatable w.types id = true) :
    ∃ o, w.createItem id = some ⟨createdId w.types id, classOf w.types id, o⟩ := by
  rw [createItem, h]
  exact ⟨_, rfl⟩

theorem loadItem_nil (fuel : Nat) (tile : Option (List Tree)) : w.loadItem fuel tile [] = .failed [] := by
  cases fuel <;> rfl

variable (types : Types) (enabled : Bool) (now : BitVec 64)

theorem readWord_saveItem (t : Tree) (rest : Bytes) : readWord 16 (saveItem types enabled now t ++ rest) =
    some (t.label.id, bodyOf types enabled now t ++ rest) := by
  rw [saveItem_eq, append_assoc]
  exact parses_readWord (by decide) _ _

theorem loadItem_fixture {tile : Option (List Tree)} {t : Tree} {x : Thing} (h : w.fixture tile t.label.id = some x)
    (fuel : Nat) (rest : Bytes) : w.loadItem (fuel + 1) tile (saveItem types enabled now t ++ rest) =
      loadInto (w.loadItem fuel none) w true x t.label.id (bodyOf types enabled now t ++ rest) := by
  rw [loadItem, readWord_saveItem]
  simp only [h]

theorem loadItem_new {tile : Option (List Tree)} {t : Tree} (h : w.fixture tile t.label.id = none) (fuel : Nat)
    (rest : Bytes) : w.loadItem (fuel + 1) tile (saveItem types enabled now t ++ rest) =
      loadNew (w.loadItem fuel none) w t.label.id (bodyOf types enabled now t ++ rest) := by
  rw [loadItem, readWord_saveItem]
  simp only [h]

theorem loads_of_loadable (dec : Tree → Tree) {tile : Option (List Tree)} {t : Tree}
    (hw : Wellformed t.label.obj.base) (hsound : t.contents ≠ [] → t.label.cls.isContainer = true)
    (hload : w.Loadable tile t) :
    ∃ x : Thing, x.id = t.label.id ∧ ∀ fuel, Reads types enabled now (w.loadItem fuel none) dec t.contents → ∀ rest,
      w.loadItem (fuel + 1) tile (saveItem types enabled now t ++ rest) =
        .ok (some (.node x (t.contents.map dec))) rest := by
  unfold Loadable at hload
  cases hf : w.fixture tile t.label.id with
  | some x =>
    rw [hf] at hload
    obtain ⟨o, ho⟩ := loadInto_ok types enabled now w x true t.label.id hw hsound hload
    refine ⟨⟨t.label.id, x.cls, o⟩, rfl, fun fuel hreads rest => ?_⟩
    rw [w.loadItem_fixture types enabled now hf]
    exact ho _ dec hreads rest
  | none =>
    rw [hf] at hload
    obtain ⟨hcreate, hid, hfits⟩ := hload
    obtain ⟨o, hx⟩ := w.createItem_some hcreate
    obtain ⟨o', ho⟩ := loadInto_ok types enabled now w ⟨createdId w.types t.label.id, classOf w.types t.label.id, o⟩
      false (createdId w.types t.label.id) hw hsound hfits
    refine ⟨⟨createdId w.types t.label.id, classOf w.types t.label.id, o'⟩, hid, fun fuel hreads rest => ?_⟩
    rw [w.loadItem_new types enabled now hf, loadNew, hx]
    exact ho _ dec hreads rest

/-- What the items of a tile are: only containers have contents, and the setters made the attributes. -/
structure Made (t : Tree) : Prop where
  sound : t.Sound fun x => x.cls.isContainer
  attributes : ∀ x ∈ t.labels, Wellformed x.obj.base

theorem Made.contents {t : Tree} (h : Made t) : ∀ u ∈ t.contents, Made u := by
  intro u hu
  obtain ⟨a, ts⟩ := t
  exact ⟨RoseTree.soundAll_iff.mp h.sound.2 u hu, fun x hx => h.attributes x (RoseTree.labels_child hu hx)⟩

theorem Made.label {t : Tree} (h : Made t) : Wellformed t.label.obj.base ∧
    (t.contents ≠ [] → t.label.cls.isContainer = true) := by
  obtain ⟨a, ts⟩ := t
  exact ⟨h.attributes a mem_cons_self, h.sound.1⟩

theorem length_saveItem_of_mem {t u : Tree} (hu : u ∈ t.contents) (hc : t.label.cls.isContainer = true) :
    (saveItem types enabled now u).length < (saveItem types enabled now t).length := by
  have hmem : ∀ ts : List Tree, u ∈ ts → (saveItem types enabled now u).length ≤ (saveItems types enabled now ts).length := by
    intro ts hts
    induction ts with
    | nil => cases hts
    | cons v ts ih =>
      rw [saveItems, length_append]
      rcases mem_cons.mp hts with rfl | hts
      · omega
      · have := ih hts
        omega
  have hle := hmem _ hu
  rw [saveItem_eq types enabled now t, bodyOf, hc, if_pos rfl]
  simp only [length_append, length_cons]
  omega

/-- Read with fuel enough, whatever follows. -/
def ReadsAs (t y : Tree) : Prop := ∀ fuel, (saveItem types enabled now t).length ≤ fuel → ∀ rest,
  w.loadItem fuel none (saveItem types enabled now t ++ rest) = .ok (some y) rest

theorem reads_contents {t : Tree} {dec : Tree → Tree} (hmade : Made t)
    (hdec : ∀ u ∈ t.contents, w.ReadsAs types enabled now u (dec u)) {fuel : Nat}
    (hfuel : (saveItem types enabled now t).length ≤ fuel + 1) :
    Reads types enabled now (w.loadItem fuel none) dec t.contents := by
  intro u hu
  have hc := hmade.label.2 (ne_nil_of_mem hu)
  have hlt := length_saveItem_of_mem types enabled now hu hc
  exact hdec u hu fuel (by omega)

theorem ids_node {x : Thing} {t : Tree} {dec : Tree → Tree} (hx : x.id = t.label.id)
    (hdec : ∀ u ∈ t.contents, ids (dec u) = ids u) : ids (.node x (t.contents.map dec)) = ids t := by
  obtain ⟨a, ts⟩ := t
  unfold ids
  rw [RoseTree.map, RoseTree.map, RoseTree.mapAll_eq, RoseTree.mapAll_eq, map_map, hx]
  exact congrArg (RoseTree.node a.id) (map_congr_left hdec)

theorem exists_on {ts : List Tree} {P : Tree → Tree → Prop} (h : ∀ u ∈ ts, ∃ y, P u y) :
    ∃ dec : Tree → Tree, ∀ u ∈ ts, P u (dec u) := by
  have hall : ∀ u, ∃ y, u ∈ ts → P u y := by
    intro u
    by_cases hu : u ∈ ts
    · obtain ⟨y, hy⟩ := h u hu
      exact ⟨y, fun _ => hy⟩
    · exact ⟨u, fun hmem => absurd hmem hu⟩
  choose dec hdec using hall
  exact ⟨dec, hdec⟩

theorem readsAs_of_loadable (t : Tree) (hmade : Made t) (hall : ∀ y, In y t → w.Loadable none y) :
    ∃ y, ids y = ids t ∧ w.ReadsAs types enabled now t y := by
  induction t using RoseTree.induction with
  | h a ts ih =>
    obtain ⟨hw, hsound⟩ := hmade.label
    obtain ⟨dec, hdec⟩ := exists_on fun u hu => ih u hu (hmade.contents u hu) fun y hy => hall y (.there hu hy)
    obtain ⟨x, hx, hread⟩ := w.loads_of_loadable types enabled now dec hw hsound (hall _ .here)
    refine ⟨.node x (ts.map dec), ids_node hx fun u hu => (hdec u hu).1, ?_⟩
    intro fuel hfuel rest
    have hpos : 0 < (saveItem types enabled now (.node a ts)).length :=
      length_pos_iff.mpr (saveItem_ne_nil types enabled now _)
    obtain ⟨k, rfl⟩ : ∃ k, fuel = k + 1 := ⟨fuel - 1, by omega⟩
    exact hread k (w.reads_contents types enabled now hmade (fun u hu => (hdec u hu).2) hfuel) rest

/-- What is inside an item can all be loaded. -/
def InsideLoadable (t : Tree) : Prop := ∀ u ∈ t.contents, ∀ y, In y u → w.Loadable none y

theorem contents_readsAs {t : Tree} (hmade : Made t) (hall : w.InsideLoadable t) :
    ∃ dec : Tree → Tree, ∀ u ∈ t.contents, ids (dec u) = ids u ∧ w.ReadsAs types enabled now u (dec u) :=
  exists_on fun u hu => w.readsAs_of_loadable types enabled now u (hmade.contents u hu) (hall u hu)

theorem creatable_of_loadable {t : Tree} (h : w.Loadable none t) : creatable w.types t.label.id = true := h.1

theorem keptAll_eq {ts : List Tree} (h : ∀ u ∈ ts, w.kept u = some (ids u)) : w.keptAll ts = ts.map ids := by
  induction ts with
  | nil => rfl
  | cons u ts ih =>
    rw [keptAll, h u mem_cons_self, ih fun v hv => h v (mem_cons_of_mem u hv)]
    rfl

theorem ids_eq (t : Tree) : ids t = .node t.label.id (t.contents.map ids) := by
  obtain ⟨a, ts⟩ := t
  rw [ids, RoseTree.map, RoseTree.mapAll_eq]
  rfl

theorem kept_eq (t : Tree) (hall : ∀ y, In y t → creatable w.types y.label.id = true) : w.kept t = some (ids t) := by
  induction t using RoseTree.induction with
  | h a ts ih =>
    have hroot : creatable w.types a.id = true := hall _ .here
    rw [kept, if_pos hroot, w.keptAll_eq fun u hu => ih u hu fun y hy => hall y (.there hu hy), ids_eq]
    rfl

theorem expected_eq {tile : Option (List Tree)} {t : Tree} (hroot : w.Loadable tile t) (hall : w.InsideLoadable t) :
    w.expected tile t = some (ids t) := by
  have hin : w.keptAll t.contents = t.contents.map ids := w.keptAll_eq fun u hu =>
    w.kept_eq u fun y hy => w.creatable_of_loadable (hall u hu y hy)
  unfold expected
  unfold Loadable at hroot
  cases hf : w.fixture tile t.label.id with
  | some x => rw [Option.isSome_some, if_pos rfl, hin, ids_eq]
  | none =>
    rw [hf] at hroot
    obtain ⟨a, ts⟩ := t
    have hcreate : creatable w.types a.id = true := hroot.1
    rw [Option.isSome_none, if_neg Bool.false_ne_true, kept, if_pos hcreate, ids_eq]
    exact congrArg (fun l => some (RoseTree.node a.id l)) hin

theorem frames_of_loadable {tile : Option (List Tree)} {t : Tree} (hmade : Made t) (hroot : w.Loadable tile t)
    (hall : w.InsideLoadable t) : w.Frames types enabled now tile t := by
  obtain ⟨hw, hsound⟩ := hmade.label
  obtain ⟨dec, hdec⟩ := w.contents_readsAs types enabled now hmade hall
  obtain ⟨x, hx, hread⟩ := w.loads_of_loadable types enabled now dec hw hsound hroot
  refine ⟨some (.node x (t.contents.map dec)), fun rest => ?_, ?_⟩
  · have hpos := length_pos_iff.mpr (saveItem_ne_nil types enabled now t)
    have hlen : (saveItem types enabled now t ++ rest).length =
        (saveItem types enabled now t ++ rest).length - 1 + 1 := by
      rw [length_append]
      omega
    rw [load, hlen]
    refine hread _ (w.reads_contents types enabled now hmade (fun u hu => (hdec u hu).2) ?_) rest
    rw [← hlen, length_append]
    omega
  · rw [w.expected_eq hroot hall, Option.map_some, ids_node hx fun u hu => (hdec u hu).1]

theorem loadInto_id {load : Bytes → Load (Option Tree)} {fixture : Bool} {x : Thing} {id : BitVec 16} {bs rest : Bytes}
    {y : Tree} (h : loadInto load w fixture x id bs = .ok (some y) rest) : y.label.id = id := by
  have hthing : ∀ {o : Obj} {items : List Tree} {rest' : Bytes},
      Load.ok (some (.node ⟨id, x.cls, o⟩ items)) rest' = Load.ok (some y) rest → y.label.id = id := by
    intro o items rest' e
    rw [Load.ok.injEq, Option.some.injEq] at e
    rw [← e.1]
    rfl
  unfold loadInto at h
  split at h
  · split at h
    · cases h
    · cases h
  all_goals
    split at h
    · split at h
      · exact hthing h
      · cases h
    · exact hthing h

/-- An item that is read from its own bytes can be loaded, if what is inside it can. -/
theorem loadable_of_frames {tile : Option (List Tree)} {t : Tree} (hmade : Made t) (hall : w.InsideLoadable t)
    (h : w.Frames types enabled now tile t) : w.Loadable tile t := by
  obtain ⟨y, hread, hids⟩ := h
  have hpos := length_pos_iff.mpr (saveItem_ne_nil types enabled now t)
  obtain ⟨k, hk⟩ : ∃ k, (saveItem types enabled now t).length = k + 1 :=
    ⟨(saveItem types enabled now t).length - 1, by omega⟩
  have hread := hread []
  rw [load, length_append, length_nil, Nat.add_zero, hk] at hread
  obtain ⟨dec, hdec⟩ := w.contents_readsAs types enabled now hmade hall
  have hreads := w.reads_contents types enabled now hmade (fun u hu => (hdec u hu).2) hk.le
  have hnil := w.loadItem_nil k none
  unfold Loadable
  unfold expected at hids
  cases hf : w.fixture tile t.label.id with
  | some x =>
    rw [w.loadItem_fixture types enabled now hf, append_nil] at hread
    rw [hf, Option.isSome_some, if_pos rfl] at hids
    obtain ⟨y, rfl, -⟩ := Option.map_eq_some_iff.mp hids
    exact fits_of_loadInto types enabled now w x hreads hnil hmade.label.1 hread
  | none =>
    rw [w.loadItem_new types enabled now hf, append_nil] at hread
    rw [hf, Option.isSome_none, if_neg Bool.false_ne_true] at hids
    cases hc : creatable w.types t.label.id with
    | false =>
      -- Only the id is taken: at least the closing zero is left.
      rw [loadNew, w.createItem_none hc, Load.ok.injEq, bodyOf] at hread
      simp at hread
    | true =>
      obtain ⟨o, ho⟩ := w.createItem_some hc
      rw [loadNew, ho] at hread
      have hkept : w.kept t = some (.node t.label.id (w.keptAll t.contents)) := by
        obtain ⟨a, ts⟩ := t
        exact if_pos hc
      rw [hkept] at hids
      obtain ⟨y, rfl, hy⟩ := Option.map_eq_some_iff.mp hids
      refine ⟨rfl, ?_, fits_of_loadInto types enabled now w ⟨_, classOf w.types t.label.id, o⟩ hreads hnil hmade.label.1 hread⟩
      rw [ids_eq, RoseTree.node.injEq] at hy
      exact (w.loadInto_id hread).symm.trans hy.1

/-- The condition comes down to every depth. -/
theorem insideLoadable_of_frames {t : Tree} (hmade : Made t) (h : ∀ y, In y t → w.Frames types enabled now none y) :
    ∀ y, In y t → w.Loadable none y := by
  induction t using RoseTree.induction with
  | h a ts ih =>
    have hall : w.InsideLoadable (.node a ts) := fun u hu =>
      ih u hu (hmade.contents u hu) fun y hy => h y (.there hu hy)
    intro y hy
    cases hy with
    | here => exact w.loadable_of_frames types enabled now hmade hall (h _ .here)
    | there hu hy => exact hall _ hu y hy

theorem frames_inside {t : Tree} (hmade : Made t) (h : ∀ y, In y t → w.Loadable none y) :
    ∀ y, In y t → w.Frames types enabled now none y := by
  induction t using RoseTree.induction with
  | h a ts ih =>
    intro y hy
    cases hy with
    | here =>
      exact w.frames_of_loadable types enabled now hmade (h _ .here) fun u hu y hy => h y (.there hu hy)
    | there hu hy => exact ih _ hu (hmade.contents _ hu) (fun y hy => h y (.there hu hy)) y hy

/-! ## Tiles -/

theorem made_of_written {tile : Tile} {t : Tree} (ht : t ∈ tile.written types) : Made t := by
  have hmem := (mem_filter.mp (mem_reverse.mp ht)).1
  exact ⟨tile.sound t hmem, tile.attributes t hmem⟩

theorem loadAll_flatMap (tiles : Nat → List Tree) {ts : List Tree} (k : Nat)
    (h : ∀ j t, ts[j]? = some t → w.Frames types enabled now (some (tiles (k + j))) t) (rest : Bytes) :
    ∃ ys, w.loadAll tiles k ts.length (ts.flatMap (saveItem types enabled now) ++ rest) = (ys, rest) ∧
      ys.length = ts.length ∧ ∀ j t y, ts[j]? = some t → ys[j]? = some y →
        y.map ids = w.expected (some (tiles (k + j))) t := by
  induction ts generalizing k with
  | nil => exact ⟨[], rfl, rfl, fun j t y ht => by cases ht⟩
  | cons t ts ih =>
    obtain ⟨y, hread, hids⟩ := h 0 t rfl
    obtain ⟨ys, hys, hlen, hall⟩ := ih (k + 1) fun j u hu => by
      rw [show k + 1 + j = k + (j + 1) by omega]
      exact h (j + 1) u hu
    refine ⟨y :: ys, ?_, by rw [length_cons, hlen, length_cons], ?_⟩
    · rw [flatMap_cons, append_assoc, length_cons, loadAll]
      rw [Nat.add_zero] at hread
      simp [hread, hys]
    intro j u z hu hz
    cases j with
    | zero =>
      cases hu
      cases hz
      exact hids
    | succ j =>
      rw [show k + (j + 1) = k + 1 + j by omega]
      exact hall j u z hu hz

theorem length_written (tile : Tile) : (tile.written types).length < 2 ^ 16 := by
  have hle := length_filter_le (persists types) tile.items
  have hsize := tile.size_le
  rw [Tile.written, length_reverse]
  omega

theorem row_of_frames (tiles : Nat → List Tree) (tile : Tile)
    (h : ∀ k t, (tile.written types)[k]? = some t → w.Frames types enabled now (some (tiles k)) t)
    (hne : tile.written types ≠ []) :
    ∃ ys, w.loadTile tiles (saveTile types enabled now tile) = some (tile.pos, ys, []) ∧
      ys.length = (tile.written types).length ∧ ∀ k t y, (tile.written types)[k]? = some t → ys[k]? = some y →
        y.map ids = w.expected (some (tiles k)) t := by
  obtain ⟨ys, hys, hlen, hall⟩ := w.loadAll_flatMap types enabled now tiles 0
    (fun j t ht => by rw [Nat.zero_add]; exact h j t ht) []
  have hn : ((BitVec.ofNat 16 (tile.written types).length).setWidth 32).toNat = (tile.written types).length := by
    rw [BitVec.toNat_setWidth_of_le (by decide), BitVec.toNat_ofNat, Nat.mod_eq_of_lt (length_written types tile)]
  refine ⟨ys, ?_, hlen, fun k t y ht hy => ?_⟩
  · have hempty : (tile.written types).isEmpty = false := by simpa using hne
    rw [append_nil] at hys
    rw [saveTile, hempty, if_neg Bool.false_ne_true, loadTile]
    have h8 : ∀ (n : BitVec 8) rest, readWord 8 (word n ++ rest) = some (n, rest) := parses_readWord (by decide)
    have h16 : ∀ (n : BitVec 16) rest, readWord 16 (word n ++ rest) = some (n, rest) := parses_readWord (by decide)
    have h32 : ∀ (n : BitVec 32) rest, readWord 32 (word n ++ rest) = some (n, rest) := parses_readWord (by decide)
    simp only [h8, h16, h32, Option.bind_some, Option.map_some, hn, hys]
  · have hk := hall k t y ht hy
    rwa [Nat.zero_add] at hk

/-- Every item of a tile is read from its own bytes exactly when each can be loaded, and with
    it what is inside it. -/
theorem tile_framing_iff (tiles : Nat → List Tree) (tile : Tile) : w.Framed types enabled now tiles tile ↔
    (∀ k t, (tile.written types)[k]? = some t → w.Loadable (some (tiles k)) t) ∧
    ∀ t ∈ tile.written types, w.InsideLoadable t := by
  constructor
  · intro h
    have hinside : ∀ t ∈ tile.written types, w.InsideLoadable t := fun t ht u hu =>
      w.insideLoadable_of_frames types enabled now ((made_of_written types ht).contents u hu) (h.inside t ht u hu)
    refine ⟨fun k t ht => ?_, hinside⟩
    have hmem := mem_of_getElem? ht
    exact w.loadable_of_frames types enabled now (made_of_written types hmem) (hinside t hmem) (h.items k t ht)
  · intro h
    obtain ⟨hroot, hinside⟩ := h
    have hitems : ∀ k t, (tile.written types)[k]? = some t → w.Frames types enabled now (some (tiles k)) t := by
      intro k t ht
      have hmem := mem_of_getElem? ht
      exact w.frames_of_loadable types enabled now (made_of_written types hmem) (hroot k t ht) (hinside t hmem)
    refine ⟨hitems, fun t ht u hu => ?_, w.row_of_frames types enabled now tiles tile hitems⟩
    exact w.frames_inside types enabled now ((made_of_written types ht).contents u hu) (hinside t ht u hu)

end World

/-! ## An item that cannot be created any more -/

/-- A table of moveable items without anything special, that does not have the id `gone`. -/
def tableWithout (gone : BitVec 16) : Types := fun id =>
  ⟨decide (id ≠ gone), .other, .other, ⟨false, false, true, 0, 0, 0, 0⟩, false, false, false, 0, []⟩

def plainItem (id : BitVec 16) : Tree := .node ⟨id, .item, ⟨emptyItem, 0, 0, 0, 0, (0, 0, 0)⟩⟩ []

theorem emptyItem_wellformed : Wellformed emptyItem := by
  constructor <;> simp [emptyItem]

/-- Item 5 lies on item 7, so it is written first. -/
def twoItems : Tile where
  pos := (100, 100, 7)
  items := [plainItem 7, plainItem 5]
  size_le := by decide
  sound := by
    intro t ht
    rcases mem_cons.mp ht with rfl | ht
    · exact ⟨fun h => absurd rfl h, trivial⟩
    · rw [mem_singleton.mp ht]
      exact ⟨fun h => absurd rfl h, trivial⟩
  attributes := by
    intro t ht x hx
    rcases mem_cons.mp ht with rfl | ht
    · rw [mem_singleton.mp hx]
      exact emptyItem_wellformed
    · rw [mem_singleton.mp ht] at hx
      rw [mem_singleton.mp hx]
      exact emptyItem_wellformed

/-- Loaded with a table that does not have item 5. -/
def later : World := ⟨tableWithout 5, fun _ => true, fun _ => none, fun _ => (0, 0)⟩

/-- Of item 5 only the id is read, and item 7 is read one byte too early, as item 1792. -/
theorem item_not_skipped :
    (later.loadTile (fun _ => []) (saveTile (tableWithout 0) true 0 twoItems)).map
      (fun row => (row.2.1.map (Option.map ids), row.2.2)) = some ([none, some (.node 1792 [])], [0]) ∧
    ¬ later.Framed (tableWithout 0) true 0 (fun _ => []) twoItems := by
  refine ⟨rfl, fun h => ?_⟩
  obtain ⟨y, hread, -⟩ := h.items 0 (plainItem 5) rfl
  have hread := hread []
  have hone : later.load (some []) (saveItem (tableWithout 0) true 0 (plainItem 5) ++ []) = .ok none [0] := rfl
  grind

end Backlands.House
