/-
  Backlands.Houses.Depot — what is in a house goes to its former owner (src/house.cpp:
  `House::transferToDepot`, `House::setOwner`; src/tile.cpp: `Tile::addThing`).

  The items of each tile are taken one after the other. Out of a container everything loose
  goes first, from every depth; the item itself follows, or, if it cannot be picked up, what
  it still holds. Whatever has a `WRAPID` is wrapped when its turn comes. Only wrapping takes
  another item off a tile: a splash, a field or the ground, when the wrapped item becomes one.

  Where on its tile an item stands is left out, and so are creatures.

  Proved: what one item does and when it loses nothing (`step_spec`), the same of whole houses
  (`transferItems_spec`), and exactly when a house that is taken away leaves everything of use
  where it is or with its former owner.
-/

import Backlands.Houses.Furniture
import Backlands.Houses.Owner

namespace Backlands.Houses

open Backlands.Lib List

/-! ## Tiles -/

structure Tile (π : Type*) where
  ground : Option (Thing π)
  items : Table Nat (Thing π)

variable {π : Type*}

def Tile.things (tile : Tile π) : List (Thing π) := tile.ground.toList ++ tile.items.rows.map Prod.snd

/-- The tile with something else, or nothing, in the place of an item. -/
def Tile.put (ref : Nat) (tile : Tile π) (o : Option (Thing π)) : Tile π := { tile with items := tile.items.place ref o }

section
variable (tbl : ItemTable)

/-- The item that makes room when another is added to the tile under the id. -/
def Tile.inTheWay (ref : Nat) (id : UInt16) (tile : Tile π) : Option (Nat × Thing π) :=
  if (tbl.form id).alwaysOnTop then
    if (tbl.form id).group = .SPLASH then
      (tile.items.place ref none).rows.find? fun x =>
        (tbl.form x.2.label.id).alwaysOnTop && (tbl.form x.2.label.id).group == .SPLASH
    else none
  else if (tbl.form id).type = .MAGICFIELD then
    (tile.items.place ref none).rows.find? fun x => !(tbl.form x.2.label.id).alwaysOnTop && x.2.label.cls == .MagicField
  else none

/-- `Tile::addThing` of the item that was just taken away: where it is put, or `none` if it is
    refused. -/
def Tile.addThing (ref : Nat) (id : UInt16) (tile : Tile π) : Option (Option (Thing π) → Tile π) :=
  if 0xFFFF ≤ (tile.items.place ref none).rows.length then none
  else if (tbl.form id).group = .GROUND then some fun o => { tile.put ref none with ground := o }
  else
    match tile.inTheWay tbl ref id with
    | some x =>
      if (tbl.form id).alwaysOnTop || (tbl.form x.2.label.id).replaceable then some ((tile.put x.1 none).put ref) else none
    | none => some (tile.put ref)

end

/-! ## `transferToDepot` -/

section
variable [DecidableEq π] (tbl : ItemTable) (d : Draws π) (onTile : Bool)

/-- What becomes of an item in the container `p` when its turn comes. -/
def fate (p item : Item π) : Fate (Item π) :=
  match wrap tbl d item with
  | .same item => .becomes false item false
  | .again item => if p.maxSize = 0 then .gone else .becomes true item false
  | .replaced item => .becomes false item true
  | .null => .alone

/-- What is moved out of a container, in the order of the queue. -/
def fromInside (t : Thing π) : List (Thing π) :=
  if t.label.isContainer then harvest (fate tbl d) Item.isContainer (canMove tbl) t.size [t] else []

def goneThrough (t : Thing π) : Thing π :=
  if t.label.isContainer then emptied (fate tbl d) Item.isContainer (canMove tbl) t else t

/-- The item itself in the end: what stays of it, and what is moved. -/
def atLast (t : Thing π) : Option (Thing π) × List (Thing π) :=
  if t.label.isPickupable tbl then if canMove tbl t then (none, [t]) else (some t, [])
  else if t.label.isContainer then
    (some (.node t.label (t.contents.filter fun u => !canMove tbl u)), t.contents.filter (canMove tbl))
  else (some t, [])

def finish (put : Option (Thing π) → Tile π) (t : Thing π) (inbox : Inbox π) : Tile π × Inbox π :=
  (put (atLast tbl t).1, run (internalMoveItem tbl d onTile) inbox (atLast tbl t).2)

def processItem (s : Tile π × Inbox π) (ref : Nat) : Tile π × Inbox π :=
  match s.1.items.find? ref with
  | none => s
  | some t =>
    let t' := goneThrough tbl d t
    let inbox := run (internalMoveItem tbl d onTile) s.2 (fromInside tbl d t)
    match wrap tbl d t'.label with
    | .same item => finish tbl d onTile (s.1.put ref) (.node item t'.contents) inbox
    | .again item =>
      match s.1.addThing tbl ref item.id with
      | some put => finish tbl d onTile put (.node item t'.contents) inbox
      | none => (s.1.put ref none, inbox)
    | .replaced item => finish tbl d onTile (s.1.put ref) (.node item []) inbox
    | .null => finish tbl d onTile (s.1.put ref) t' inbox

/-- `transferToDepot(Player*)`, tile by tile; the items of a tile are listed beforehand. -/
def transferItems : List (Tile π) → Inbox π → List (Tile π) × Inbox π
  | [], inbox => ([], inbox)
  | tile :: tiles, inbox =>
    let r := run (processItem tbl d onTile) (tile, inbox) (tile.items.rows.map Prod.fst)
    let rest := transferItems tiles r.2
    (r.1 :: rest.1, rest.2)

def goods (letter : Mailbox → String → (UInt32 → Inbox π) → UInt32 → Inbox π) :
    Goods (List (Tile π)) (UInt32 → Inbox π) where
  transfer townId content belongings :=
    let r := transferItems tbl d onTile content (belongings townId)
    (r.1, Function.update belongings townId r.2)
  letter := letter

end

/-! ## Conditions -/

section
variable [DecidableEq π] (tbl : ItemTable) (d : Draws π) (onTile : Bool) (ok : Inbox π → Thing π → Prop) (W : π → Prop)

/-- Nothing wanted is in the things. -/
def Free (ts : List (Thing π)) : Prop := ∀ u, W u → held u ts = 0

/-- Wrapping leaves the item its wanted units. -/
def Whole (item item' : Item π) : Prop := ∀ u, W u → named u item' = named u item

/-- One item of the tile takes no branch that loses something wanted; `ok` says of a move
    into the inbox that it loses nothing wanted. -/
def StepKeeps (s : Tile π × Inbox π) (ref : Nat) : Prop :=
  match s.1.items.find? ref with
  | none => True
  | some t =>
    let t' := goneThrough tbl d t
    let inbox := run (internalMoveItem tbl d onTile) s.2 (fromInside tbl d t)
    let moves := fun last => Allowed (internalMoveItem tbl d onTile) ok inbox (atLast tbl last).2
    (t.label.isContainer = true → SparedAll (fate tbl d) Item.isContainer W named t.label t.contents) ∧
      Allowed (internalMoveItem tbl d onTile) ok s.2 (fromInside tbl d t) ∧
        match wrap tbl d t'.label with
        | .same item => Whole W t'.label item ∧ moves (.node item t'.contents)
        | .again item =>
          if (s.1.addThing tbl ref item.id).isSome then
            Free W (if (tbl.form item.id).group = .GROUND then s.1.ground.toList
              else (s.1.inTheWay tbl ref item.id).toList.map Prod.snd) ∧ Whole W t'.label item ∧
              moves (.node item t'.contents)
          else Free W [t']
        | .replaced item => Whole W t'.label item ∧ Free W t'.contents ∧ moves (.node item [])
        | .null => moves t'

def TilesKeep : List (Tile π) → Inbox π → Prop
  | [], _ => True
  | tile :: tiles, inbox =>
    Allowed (processItem tbl d onTile) (StepKeeps tbl d onTile ok W) (tile, inbox) (tile.items.rows.map Prod.fst) ∧
      TilesKeep tiles (run (processItem tbl d onTile) (tile, inbox) (tile.items.rows.map Prod.fst)).2

end

/-! ## What one item does -/

section
variable [DecidableEq π] {tbl : ItemTable} {d : Draws π} {onTile : Bool} {W : π → Prop} {u : π} {t : Thing π}
  {ts : List (Thing π)} {tile : Tile π} {ref : Nat} {p b : Item π}

theorem fate_le {front hollow : Bool} {item : Item π} (u : π) (h : fate tbl d p b = .becomes front item hollow) :
    named u item ≤ named u b := by
  unfold fate at h
  cases hw : wrap tbl d b with
  | same i =>
    rw [hw] at h
    cases h
    exact named_wrap u (by rw [hw]; rfl)
  | again i =>
    rw [hw] at h
    simp only at h
    split at h
    · cases h
    · cases h
      exact named_wrap u (by rw [hw]; rfl)
  | replaced i =>
    rw [hw] at h
    cases h
    exact named_wrap u (by rw [hw]; rfl)
  | null =>
    rw [hw] at h
    cases h

theorem held_sum (u : π) (ts : List (Thing π)) : (ts.map fun t => held u [t]).sum = held u ts := by
  induction ts with
  | nil => rfl
  | cons t ts ih =>
    rw [map_cons, sum_cons, ih, held_cons, held_cons, held_nil]
    omega

theorem held_perm (u : π) {us : List (Thing π)} (h : ts.Perm us) : held u ts = held u us := RoseTree.totalAll_perm h

def crushed (tbl : ItemTable) (d : Draws π) (u : π) (t : Thing π) : Nat :=
  if t.label.isContainer then destroyedAll (fate tbl d) Item.isContainer (named u) t.label t.contents else 0

theorem inside_total (tbl : ItemTable) (d : Draws π) (u : π) (t : Thing π) :
    held u [goneThrough tbl d t] + held u (fromInside tbl d t) + crushed tbl d u t = held u [t] := by
  unfold goneThrough fromInside crushed
  by_cases hc : t.label.isContainer = true
  · simp only [if_pos hc]
    have h : stock (named u) [t] = fallow (fate tbl d) Item.isContainer (canMove tbl) (named u) [t] +
        held u (harvest (fate tbl d) Item.isContainer (canMove tbl) t.size [t]) :=
      harvest_total (fun p b front a hollow h => fate_le u h) (by simp [RoseTree.sizes])
    simp only [stock, fallow] at h
    have hlabel : named u (emptied (fate tbl d) Item.isContainer (canMove tbl) t).label = named u t.label := rfl
    rw [held_cons, held_cons, held_nil, hlabel]
    unfold held at *
    omega
  · simp only [if_neg hc, held_nil]
    omega

theorem crushed_iff (tbl : ItemTable) (d : Draws π) (W : π → Prop) (t : Thing π) :
    (t.label.isContainer = true → SparedAll (fate tbl d) Item.isContainer W named t.label t.contents) ↔
      ∀ u, W u → crushed tbl d u t = 0 := by
  unfold crushed
  by_cases hc : t.label.isContainer = true
  · simp only [hc, true_imp_iff]
    exact sparedAll_iff (fun u p b front a hollow h => fate_le u h) t.label t.contents
  · simp [hc]

theorem atLast_total (tbl : ItemTable) (u : π) (t : Thing π) :
    held u (atLast tbl t).1.toList + held u (atLast tbl t).2 = held u [t] := by
  unfold atLast
  split
  · split
    · exact Nat.zero_add _
    · rfl
  split
  · have hsplit : held u (t.contents.filter (canMove tbl)) + held u (t.contents.filter fun u => !canMove tbl u) =
        held u t.contents := by
      rw [← held_append]
      exact held_perm u (filter_append_perm _ _)
    rw [held_cons, held_nil, Option.toList, held_cons, held_nil]
    show named u t.label + held u (t.contents.filter fun u => !canMove tbl u) + 0 + held u (t.contents.filter _) = _
    omega
  · rfl

theorem put_total (u : π) (o : Option (Thing π)) (hf : tile.items.find? ref = some t) :
    held u (tile.put ref o).things + held u [t] = held u tile.things + held u o.toList := by
  obtain ⟨rest, hold, hnew⟩ := Table.place_perm hf
  have hold := held_perm u (hold.map Prod.snd)
  have hnew := held_perm u ((hnew o).map Prod.snd)
  rw [map_cons, held_cons] at hold
  dsimp only at hold
  rw [map_append, map_map, held_append] at hnew
  have hid : (o.toList.map (Prod.snd ∘ Prod.mk ref)) = o.toList := by
    cases o with
    | none => rfl
    | some v => rfl
  rw [hid] at hnew
  unfold Tile.things
  rw [held_append, held_append, held_cons, held_nil]
  show held u tile.ground.toList + held u ((tile.items.place ref o).rows.map Prod.snd) + _ = _
  omega

/-- What is lost from the tile when an item is added to it again. -/
def displaced (tbl : ItemTable) (ref : Nat) (id : UInt16) (tile : Tile π) : List (Thing π) :=
  if (tbl.form id).group = .GROUND then tile.ground.toList else (tile.inTheWay tbl ref id).toList.map Prod.snd

omit [DecidableEq π] in
theorem inTheWay_find? {id : UInt16} {x : Nat × Thing π} (h : tile.inTheWay tbl ref id = some x) :
    x.1 ≠ ref ∧ tile.items.find? x.1 = some x.2 := by
  have hm : x ∈ (tile.items.place ref none).rows := by
    grind [Tile.inTheWay]
  have hx := Table.find?_iff.mpr hm
  rw [Table.find?_place] at hx
  split at hx
  · simp at hx
  · next hne => exact ⟨hne, hx⟩

theorem addThing_total {id : UInt16} {put : Option (Thing π) → Tile π} (u : π) (o : Option (Thing π))
    (hf : tile.items.find? ref = some t) (ha : tile.addThing tbl ref id = some put) :
    held u (put o).things + held u [t] + held u (displaced tbl ref id tile) = held u tile.things + held u o.toList := by
  unfold Tile.addThing at ha
  unfold displaced
  split at ha
  · cases ha
  split at ha
  · next hg =>
    cases ha
    have hput := put_total u none hf
    rw [if_pos hg]
    unfold Tile.things at hput ⊢
    rw [held_append, held_append] at hput ⊢
    simp only [Option.toList, held_nil] at hput ⊢
    have hsame : (tile.put ref none).ground = tile.ground := rfl
    rw [hsame] at hput
    omega
  · next hg =>
    rw [if_neg hg]
    cases hx : tile.inTheWay tbl ref id with
    | none =>
      rw [hx] at ha
      cases ha
      have := put_total u o hf
      simp only [Option.toList, map_nil, held_nil] at this ⊢
      omega
    | some x =>
      rw [hx] at ha
      simp only at ha
      split at ha
      · cases ha
        obtain ⟨hne, hfx⟩ := inTheWay_find? hx
        have hout := put_total u none hfx
        have hf' : (tile.put x.1 none).items.find? ref = some t := by
          show (tile.items.place x.1 none).find? ref = some t
          rw [Table.find?_place, if_neg hne.symm, hf]
        have hin := put_total u o hf'
        simp only [Option.toList, map_cons, map_nil, held_nil] at hout ⊢
        simp only [Option.toList] at hin
        omega
      · cases ha

end

/-! ## Steps and runs

`m` counts what is in the inbox for the former owner; `ok` says of a move that it loses
nothing wanted by that count. -/

section
variable [DecidableEq π] {tbl : ItemTable} {d : Draws π} {onTile : Bool} {W : π → Prop} {u : π}
  {ok : Inbox π → Thing π → Prop} {m : π → Inbox π → Nat} {inbox : Inbox π}

def whole (m : π → Inbox π → Nat) (u : π) (s : Tile π × Inbox π) : Nat := held u s.1.things + m u s.2

theorem moves_le (hle : ∀ u inbox t, m u (internalMoveItem tbl d onTile inbox t) ≤ m u inbox + held u [t]) (u : π)
    (inbox : Inbox π) (ts : List (Thing π)) :
    m u (run (internalMoveItem tbl d onTile) inbox ts) ≤ m u inbox + held u ts := by
  have := run_le (hle u) inbox ts
  rwa [held_sum] at this

theorem moves_iff (hle : ∀ u inbox t, m u (internalMoveItem tbl d onTile inbox t) ≤ m u inbox + held u [t])
    (hok : ∀ inbox t, ok inbox t ↔ ∀ u, W u → m u (internalMoveItem tbl d onTile inbox t) = m u inbox + held u [t])
    (inbox : Inbox π) (ts : List (Thing π)) :
    Allowed (internalMoveItem tbl d onTile) ok inbox ts ↔
      ∀ u, W u → m u (run (internalMoveItem tbl d onTile) inbox ts) = m u inbox + held u ts := by
  have := run_eq_iff hle hok inbox ts
  simp only [held_sum] at this
  exact this

theorem finish_total (tbl : ItemTable) (d : Draws π) (onTile : Bool) (m : π → Inbox π → Nat) (u : π) (inbox : Inbox π)
    (put : Option (Thing π) → Tile π) (t : Thing π) {base before : Nat}
    (hput : ∀ o, held u (put o).things + base = before + held u o.toList) :
    whole m u (finish tbl d onTile put t inbox) + base + held u (atLast tbl t).2 =
      before + held u [t] + m u (run (internalMoveItem tbl d onTile) inbox (atLast tbl t).2) := by
  have h1 := hput (atLast tbl t).1
  have h2 := atLast_total tbl u t
  unfold finish whole
  simp only
  omega

/-- The end of a step, wherever the item is put: `away` is lost from the tile, `gone` of the
    item, and nothing is lost exactly where no part of the step loses anything. -/
theorem ending_spec (hle : ∀ u inbox t, m u (internalMoveItem tbl d onTile inbox t) ≤ m u inbox + held u [t])
    (put : Option (Thing π) → Tile π) (tile : Tile π) (t last : Thing π) (inbox inbox' : Inbox π) (away gone : π → Nat)
    (hput : ∀ u o, held u (put o).things + (held u [t] + away u) = held u tile.things + held u o.toList)
    (hgone : ∀ u, held u [last] + gone u = held u [goneThrough tbl d t])
    (hfirst : ∀ u, m u inbox' ≤ m u inbox + held u (fromInside tbl d t)) :
    (∀ u, whole m u (finish tbl d onTile put last inbox') ≤ whole m u (tile, inbox)) ∧
      ((∀ u, W u → crushed tbl d u t = 0) ∧ (∀ u, W u → m u inbox' = m u inbox + held u (fromInside tbl d t)) ∧
          (∀ u, W u → away u + gone u = 0) ∧
          (∀ u, W u → m u (run (internalMoveItem tbl d onTile) inbox' (atLast tbl last).2) =
            m u inbox' + held u (atLast tbl last).2) ↔
        ∀ u, W u → whole m u (finish tbl d onTile put last inbox') = whole m u (tile, inbox)) := by
  have hinside := fun u => inside_total tbl d u t
  have hlast := fun u => moves_le hle u inbox' (atLast tbl last).2
  have hfin := fun u => finish_total tbl d onTile m u inbox' put last (hput u)
  have hbefore : ∀ u, whole m u (tile, inbox) = held u tile.things + m u inbox := fun _ => rfl
  simp only [hbefore]
  refine ⟨?_, ?_, ?_⟩
  · intro u
    have := hinside u
    have := hfirst u
    have := hlast u
    have := hfin u
    have := hgone u
    omega
  · rintro ⟨h1, h2, h3, h4⟩ u hu
    have := hinside u
    have := hfin u
    have := hgone u
    have := h1 u hu
    have := h2 u hu
    have := h3 u hu
    have := h4 u hu
    omega
  · intro h
    refine ⟨fun u hu => ?_, fun u hu => ?_, fun u hu => ?_, fun u hu => ?_⟩
    all_goals
      have := hinside u
      have := hfirst u
      have := hlast u
      have := hfin u
      have := hgone u
      have := h u hu
      omega

theorem held_node (u : π) (item : Item π) (ts : List (Thing π)) :
    held u [RoseTree.node item ts] = named u item + held u ts := by
  rw [held_cons, held_nil]
  rfl

theorem held_singleton (u : π) (t : Thing π) : held u [t] = named u t.label + held u t.contents := by
  rw [held_cons, held_nil]
  rfl

theorem step_spec (hle : ∀ u inbox t, m u (internalMoveItem tbl d onTile inbox t) ≤ m u inbox + held u [t])
    (hok : ∀ inbox t, ok inbox t ↔ ∀ u, W u → m u (internalMoveItem tbl d onTile inbox t) = m u inbox + held u [t])
    (s : Tile π × Inbox π) (ref : Nat) :
    (∀ u, whole m u (processItem tbl d onTile s ref) ≤ whole m u s) ∧
      (StepKeeps tbl d onTile ok W s ref ↔ ∀ u, W u → whole m u (processItem tbl d onTile s ref) = whole m u s) := by
  obtain ⟨tile, inbox⟩ := s
  unfold processItem StepKeeps
  cases hf : tile.items.find? ref with
  | none => exact ⟨fun u => le_rfl, fun _ _ _ => rfl, fun _ => trivial⟩
  | some t =>
    simp only [crushed_iff, moves_iff hle hok]
    have hfirst := fun u => moves_le hle u inbox (fromInside tbl d t)
    have hput : ∀ u o, held u (tile.put ref o).things + (held u [t] + 0) = held u tile.things + held u o.toList :=
      fun u o => put_total u o hf
    have hsum := fun u => held_singleton u (goneThrough tbl d t)
    cases hw : wrap tbl d (goneThrough tbl d t).label with
    | same item =>
      have hnamed : ∀ u, named u item ≤ named u (goneThrough tbl d t).label := fun u => named_wrap u (by rw [hw]; rfl)
      obtain ⟨h1, h2⟩ := ending_spec (W := W) hle (tile.put ref) tile t (.node item (goneThrough tbl d t).contents) inbox _
        (fun _ => 0) (fun u => named u (goneThrough tbl d t).label - named u item) hput
        (fun u => by have := hsum u; have := hnamed u; rw [held_node]; omega) hfirst
      refine ⟨h1, Iff.trans (and_congr_right fun _ => and_congr_right fun _ => and_congr_left fun _ => ?_) h2⟩
      refine forall₂_congr fun u _ => ?_
      have := hnamed u
      omega
    | again item =>
      have hnamed : ∀ u, named u item ≤ named u (goneThrough tbl d t).label := fun u => named_wrap u (by rw [hw]; rfl)
      dsimp only
      cases ha : tile.addThing tbl ref item.id with
      | some put =>
        obtain ⟨h1, h2⟩ := ending_spec (W := W) hle put tile t (.node item (goneThrough tbl d t).contents) inbox _
          (fun u => held u (displaced tbl ref item.id tile)) (fun u => named u (goneThrough tbl d t).label - named u item)
          (fun u o => by have := addThing_total u o hf ha; omega)
          (fun u => by have := hsum u; have := hnamed u; rw [held_node]; omega) hfirst
        refine ⟨h1, Iff.trans (and_congr_right fun _ => and_congr_right fun _ => ?_) h2⟩
        rw [if_pos (by rfl), ← and_assoc]
        refine and_congr_left fun _ => ?_
        unfold Free Whole
        rw [← forall₂_and]
        refine forall₂_congr fun u _ => ?_
        have := hnamed u
        show held u (displaced tbl ref item.id tile) = 0 ∧ _ ↔ _
        omega
      | none =>
        have hnone := fun u => put_total u none hf
        have hinside := fun u => inside_total tbl d u t
        simp only [Option.isSome_none, Bool.false_eq_true, if_false, Free]
        refine ⟨?_, ?_, ?_⟩
        · intro u
          have := hnone u
          have := hfirst u
          have := hinside u
          unfold whole
          simp only [Option.toList, held_nil] at *
          omega
        · rintro ⟨h1, h2, h3⟩ u hu
          have := hnone u
          have := hinside u
          have := h1 u hu
          have := h2 u hu
          have := h3 u hu
          unfold whole
          simp only [Option.toList, held_nil] at *
          omega
        · intro h
          unfold whole at h
          refine ⟨fun u hu => ?_, fun u hu => ?_, fun u hu => ?_⟩
          all_goals
            have := hnone u
            have := hfirst u
            have := hinside u
            have := h u hu
            simp only [Option.toList, held_nil] at *
            omega
    | replaced item =>
      dsimp only
      have hnamed : ∀ u, named u item ≤ named u (goneThrough tbl d t).label := fun u => named_wrap u (by rw [hw]; rfl)
      obtain ⟨h1, h2⟩ := ending_spec (W := W) hle (tile.put ref) tile t (.node item []) inbox _ (fun _ => 0)
        (fun u => named u (goneThrough tbl d t).label - named u item + held u (goneThrough tbl d t).contents) hput
        (fun u => by have := hsum u; have := hnamed u; rw [held_node, held_nil]; omega) hfirst
      refine ⟨h1, Iff.trans (and_congr_right fun _ => and_congr_right fun _ => ?_) h2⟩
      rw [← and_assoc]
      refine and_congr_left fun _ => ?_
      unfold Free Whole
      rw [← forall₂_and]
      refine forall₂_congr fun u _ => ?_
      have := hnamed u
      omega
    | null =>
      obtain ⟨h1, h2⟩ := ending_spec (W := W) hle (tile.put ref) tile t (goneThrough tbl d t) inbox _ (fun _ => 0)
        (fun _ => 0) hput (fun _ => rfl) hfirst
      refine ⟨h1, Iff.trans (and_congr_right fun _ => and_congr_right fun _ => ?_) h2⟩
      refine ⟨fun h => ⟨fun _ _ => rfl, h⟩, fun h => h.2⟩

theorem run_spec (hle : ∀ u inbox t, m u (internalMoveItem tbl d onTile inbox t) ≤ m u inbox + held u [t])
    (hok : ∀ inbox t, ok inbox t ↔ ∀ u, W u → m u (internalMoveItem tbl d onTile inbox t) = m u inbox + held u [t])
    (s : Tile π × Inbox π) (refs : List Nat) :
    (∀ u, whole m u (run (processItem tbl d onTile) s refs) ≤ whole m u s) ∧
      (Allowed (processItem tbl d onTile) (StepKeeps tbl d onTile ok W) s refs ↔
        ∀ u, W u → whole m u (run (processItem tbl d onTile) s refs) = whole m u s) := by
  have hnone : (refs.map fun _ => 0).sum = 0 := by simp
  have hstep : ∀ u s ref, whole m u (processItem tbl d onTile s ref) ≤ whole m u s + 0 :=
    fun u s ref => (step_spec hle hok s ref).1 u
  constructor
  · intro u
    have := run_le (v := fun _ => 0) (hstep u) s refs
    rwa [hnone] at this
  · rw [run_eq_iff (v := fun _ _ => 0) hstep (fun s ref => (step_spec hle hok s ref).2) s refs]
    simp only [hnone, Nat.add_zero]

/-- How many units on some tiles have the name. -/
def heldOn (u : π) (tiles : List (Tile π)) : Nat := (tiles.map fun tile => held u tile.things).sum

/-- Moving the items of a house adds nothing, and loses nothing that is wanted exactly where
    every item of every tile may be processed. -/
theorem transferItems_spec (hle : ∀ u inbox t, m u (internalMoveItem tbl d onTile inbox t) ≤ m u inbox + held u [t])
    (hok : ∀ inbox t, ok inbox t ↔ ∀ u, W u → m u (internalMoveItem tbl d onTile inbox t) = m u inbox + held u [t])
    (tiles : List (Tile π)) (inbox : Inbox π) :
    (∀ u, heldOn u (transferItems tbl d onTile tiles inbox).1 + m u (transferItems tbl d onTile tiles inbox).2 ≤
        heldOn u tiles + m u inbox) ∧
      (TilesKeep tbl d onTile ok W tiles inbox ↔
        ∀ u, W u → heldOn u (transferItems tbl d onTile tiles inbox).1 + m u (transferItems tbl d onTile tiles inbox).2 =
          heldOn u tiles + m u inbox) := by
  induction tiles generalizing inbox with
  | nil => exact ⟨fun u => le_rfl, fun _ _ _ => rfl, fun _ => trivial⟩
  | cons tile tiles ih =>
    obtain ⟨hle1, hiff1⟩ := run_spec hle hok (tile, inbox) (tile.items.rows.map Prod.fst)
    simp only [transferItems, TilesKeep]
    generalize run (processItem tbl d onTile) (tile, inbox) (tile.items.rows.map Prod.fst) = r at hle1 hiff1
    obtain ⟨hle2, hiff2⟩ := ih r.2
    have hcons : ∀ u (t : Tile π) ts, heldOn u (t :: ts) = held u t.things + heldOn u ts := by
      simp [heldOn, map_cons, sum_cons]
    have hpair : ∀ u, whole m u (tile, inbox) = held u tile.things + m u inbox := fun _ => rfl
    have hr : ∀ u, whole m u r = held u r.1.things + m u r.2 := fun _ => rfl
    simp only [hpair, hr] at hle1 hiff1
    simp only [hcons]
    refine ⟨?_, ?_⟩
    · intro u
      have := hle1 u
      have := hle2 u
      omega
    · rw [hiff1, hiff2, ← forall₂_and]
      refine forall₂_congr fun u _ => ?_
      have := hle1 u
      have := hle2 u
      omega

end

/-! ## Losing a house -/

section
variable [DecidableEq π]

/-- What is in a house of use to anyone: units of an item that can be picked up or wrapped. -/
def Wanted (tbl : ItemTable) (content : List (Tile π)) (u : π) : Prop :=
  ∃ tile ∈ content, ∃ item ∈ RoseTree.labelsAll tile.things, some u ∈ item.units ∧
    (item.isPickupable tbl = true ∨ item.attributes.wrapId.getD 0 ≠ 0 ∨ (tbl.form item.id).wrapableTo ≠ 0)

end

section
variable {η ι : Type*}

/-- The player object the items are moved to, and whether that lasts: the caller passed it, it
    is online, or it is a copy that is saved. -/
def recipient (env : DepotEnv) (previous : Option (Player ι)) (h : House η) (w : World η ι) : Option (Player ι × Bool) :=
  if h.townId = 0 ∨ h.owner = 0 then none
  else
    match previous with
    | some p => some (p, true)
    | none => (receiver env h w).bind fun guid =>
      match w.online.find? guid with
      | some p => some (p, true)
      | none => (loadPlayerById env.player guid w.players).map fun p => (p, env.saved)

def TakesAway (guid : UInt32) (updateDatabase : Bool) (env : OwnerEnv) (h : House η) (w : World η ι) : Prop :=
  h.ownerTransitionInProgress = false ∧ ¬(h.isLoaded = true ∧ h.owner = guid) ∧
    (guid ≠ 0 → initializeOwnerDataFromDatabase env.ownerData guid h.type w ≠ none) ∧ env.wake = true ∧
    (h.owner ≠ guid → env.update = true) ∧ h.owner ≠ 0 ∧ updateDatabase = true

/-- The items go to the player object that was passed, or else where `transferToDepot` finds one. -/
def handOver (g : Goods η ι) (env : DepotEnv) (previous : Option (Player ι)) (h : House η) (w : World η ι) :
    House η × World η ι × Option (Player ι) :=
  match previous with
  | some p => ((p.receive g h).1, w, some (p.receive g h).2)
  | none => ((transferToDepot g env h w).1, (transferToDepot g env h w).2, none)

variable {g : Goods η ι} {id guid : UInt32} {updateDatabase : Bool} {previous : Option (Player ι)} {env : OwnerEnv}
  {w : World η ι} {h : House η}

/-- The two houses are the same to `transferToDepot`. -/
structure SameHouse (h h' : House η) : Prop where
  type : h'.type = h.type
  townId : h'.townId = h.townId
  owner : h'.owner = h.owner
  content : h'.content = h.content

theorem sameHouse_markLoaded (guid : UInt32) (p : Prop) [Decidable p] (h : House η) :
    SameHouse h (if p then h.store guid else h).markLoaded := by
  split
  · unfold House.store
    split
    · exact ⟨rfl, rfl, rfl, rfl⟩
    · exact ⟨rfl, rfl, rfl, rfl⟩
  · exact ⟨rfl, rfl, rfl, rfl⟩

theorem assign_content (guid : UInt32) (data : UInt32 × String) (h : House η) : (h.assign guid data).content = h.content := by
  unfold House.assign
  split
  · rfl
  · rfl

theorem setOwner_kept (g : Goods η ι) (previous : Option (Player ι)) (hf : w.houses.find? id = some h) (ht : ¬TakesAway guid updateDatabase env h w) :
    ∃ h', h'.content = h.content ∧ (setOwner g id guid updateDatabase previous env w).2.2 = previous ∧
      ((setOwner g id guid updateDatabase previous env w).2.1 = w ∧ h' = h ∨
        (setOwner g id guid updateDatabase previous env w).2.1 = { w with houses := w.houses.set id h' }) := by
  unfold setOwner
  rw [hf]
  simp only
  split
  · exact ⟨h, rfl, rfl, .inl ⟨rfl, rfl⟩⟩
  next h1 =>
  split
  · exact ⟨h, rfl, rfl, .inl ⟨rfl, rfl⟩⟩
  next h2 =>
  split
  · exact ⟨h, rfl, rfl, .inl ⟨rfl, rfl⟩⟩
  next h3 =>
  split
  · exact ⟨h, rfl, rfl, .inl ⟨rfl, rfl⟩⟩
  next h4 =>
  split
  · exact ⟨h, rfl, rfl, .inl ⟨rfl, rfl⟩⟩
  next h5 =>
  by_cases hu : h.owner ≠ 0 ∧ updateDatabase = true
  · refine absurd ⟨by simpa using h1, by simpa using h2, ?_, ?_, ?_, hu⟩ ht
    · intro hg hn
      exact h3 ⟨hg, hn⟩
    · by_contra hw
      exact h4 ⟨hu.1, hu.2, by simpa using hw⟩
    · intro hne
      by_contra hup
      exact h5 ⟨hu.2, hne, by simpa using hup⟩
  · rw [if_neg hu]
    refine ⟨_, ?_, rfl, .inr rfl⟩
    rw [assign_content]
    exact (sameHouse_markLoaded guid _ h).content

theorem setOwner_taken (g : Goods η ι) (previous : Option (Player ι)) (hf : w.houses.find? id = some h) (ht : TakesAway guid updateDatabase env h w) :
    ∃ h0 h', SameHouse h h0 ∧ h'.content = (handOver g env.depot previous h0 w).1.content ∧
      (setOwner g id guid updateDatabase previous env w).2 =
        ({ (handOver g env.depot previous h0 w).2.1 with
            houses := (handOver g env.depot previous h0 w).2.1.houses.set id h' }, (handOver g env.depot previous h0 w).2.2) := by
  obtain ⟨h1, h2, h3, h4, h5, ho, hu⟩ := ht
  refine ⟨(if updateDatabase = true ∧ h.owner ≠ guid then h.store guid else h).markLoaded,
    (handOver g env.depot previous (if updateDatabase = true ∧ h.owner ≠ guid then h.store guid else h).markLoaded
      w).1.clear.assign guid ((initializeOwnerDataFromDatabase env.ownerData guid h.type w).getD (0, "")),
    sameHouse_markLoaded guid (updateDatabase = true ∧ h.owner ≠ guid) h, ?_, ?_⟩
  · rw [assign_content]
    rfl
  unfold setOwner
  rw [hf]
  simp only
  rw [if_neg (by simp [h1]), if_neg (by simpa using h2), if_neg (fun e => h3 e.1 e.2), if_neg (by simp [h4]),
    if_neg (fun e => by simp [h5 e.2.1] at e), if_pos ⟨ho, hu⟩]
  cases previous with
  | some p => rfl
  | none => rfl

end

section
variable [DecidableEq π]

def contentOf (id : UInt32) (w : World (List (Tile π)) (UInt32 → Inbox π)) : List (Tile π) :=
  ((w.houses.find? id).map House.content).getD []

/-- The former owner's inbox in the town: with the object the caller passed, with the one that
    is online, or in the database. -/
def inboxOf (townId : UInt32) (former : Option UInt32) (previous : Option (Player (UInt32 → Inbox π)))
    (w : World (List (Tile π)) (UInt32 → Inbox π)) : Inbox π :=
  match previous with
  | some p => p.belongings townId
  | none =>
    match former with
    | none => []
    | some guid =>
      match w.online.find? guid with
      | some p => p.belongings townId
      | none => ((w.players.find? guid).map fun r => r.belongings townId).getD []

/-- How many units of the name are in the house or with its former owner. -/
def whereabouts (u : π) (id townId : UInt32) (former : Option UInt32) (previous : Option (Player (UInt32 → Inbox π)))
    (w : World (List (Tile π)) (UInt32 → Inbox π)) : Nat :=
  heldOn u (contentOf id w) + held u (inboxOf townId former previous w)

variable {tbl : ItemTable} {d : Draws π} {onTile : Bool}
  {letter : Mailbox → String → (UInt32 → Inbox π) → UInt32 → Inbox π} {env : DepotEnv}
  {previous : Option (Player (UInt32 → Inbox π))} {h h0 : House (List (Tile π))}
  {w : World (List (Tile π)) (UInt32 → Inbox π)} {p : Player (UInt32 → Inbox π)} {lasts : Bool}

omit [DecidableEq π] in
theorem receiver_same (hs : SameHouse h h0) : receiver env h0 w = receiver env h w := by
  unfold receiver
  rw [hs.type, hs.owner]

theorem receive_goods (tbl : ItemTable) (d : Draws π) (onTile : Bool)
    (letter : Mailbox → String → (UInt32 → Inbox π) → UInt32 → Inbox π) (p : Player (UInt32 → Inbox π)) (hs : SameHouse h h0)
    (hn : ¬(h.townId = 0 ∨ h.owner = 0)) :
    (p.receive (goods tbl d onTile letter) h0).1.content = (transferItems tbl d onTile h.content (p.belongings h.townId)).1 ∧
      (p.receive (goods tbl d onTile letter) h0).2.belongings h.townId =
        (transferItems tbl d onTile h.content (p.belongings h.townId)).2 := by
  unfold Player.receive
  rw [hs.townId, hs.owner, if_neg hn, hs.content]
  exact ⟨rfl, Function.update_self _ _ _⟩

theorem handOver_none (hs : SameHouse h h0) (hr : recipient env previous h w = none) :
    handOver (goods tbl d onTile letter) env previous h0 w = (h0, w, previous) := by
  unfold recipient at hr
  split at hr
  · next hz =>
    rw [← hs.townId, ← hs.owner] at hz
    cases previous with
    | some p => simp [handOver, Player.receive, hz]
    | none => simp [handOver, transferToDepot, hz]
  · next hz =>
    rw [← hs.townId, ← hs.owner] at hz
    cases previous with
    | some p => cases hr
    | none =>
      simp only [handOver, transferToDepot, if_neg hz, receiver_same hs]
      cases hg : receiver env h w with
      | none => rfl
      | some guid =>
        rw [hg] at hr
        simp only [Option.bind_some] at hr ⊢
        cases ho : w.online.find? guid with
        | some p =>
          rw [ho] at hr
          cases hr
        | none =>
          rw [ho] at hr
          rw [Option.map_eq_none_iff.mp hr]

omit [DecidableEq π] in
theorem loadPlayerById_belongings {ι : Type*} {answered : Bool} {guid : UInt32} {players : Table UInt32 (PlayerRow ι)}
    {p : Player ι} (h : loadPlayerById answered guid players = some p) :
    p.guid = guid ∧ ∃ r, players.find? guid = some r ∧ r.belongings = p.belongings := by
  unfold loadPlayerById at h
  split at h
  · obtain ⟨r, hr, rfl⟩ := Option.map_eq_some_iff.mp h
    exact ⟨rfl, r, hr, rfl⟩
  · cases h

theorem handOver_some (hs : SameHouse h h0) (hr : recipient env previous h w = some (p, lasts)) :
    inboxOf h.townId (receiver env h w) previous w = p.belongings h.townId ∧
      (handOver (goods tbl d onTile letter) env previous h0 w).1.content =
        (transferItems tbl d onTile h.content (p.belongings h.townId)).1 ∧
      inboxOf h.townId (receiver env h w) (handOver (goods tbl d onTile letter) env previous h0 w).2.2
          (handOver (goods tbl d onTile letter) env previous h0 w).2.1 =
        if lasts then (transferItems tbl d onTile h.content (p.belongings h.townId)).2 else p.belongings h.townId := by
  unfold recipient at hr
  split at hr
  · cases hr
  next hz =>
  have hz0 : ¬(h0.townId = 0 ∨ h0.owner = 0) := by rwa [hs.townId, hs.owner]
  cases previous with
  | some q =>
    cases hr
    obtain ⟨h1, h2⟩ := receive_goods tbl d onTile letter p hs hz
    exact ⟨rfl, h1, h2⟩
  | none =>
    simp only [handOver, transferToDepot, if_neg hz0, receiver_same hs]
    cases hg : receiver env h w with
    | none =>
      rw [hg] at hr
      cases hr
    | some guid =>
      rw [hg] at hr
      simp only [Option.bind_some] at hr ⊢
      cases ho : w.online.find? guid with
      | some q =>
        rw [ho] at hr
        cases hr
        obtain ⟨h1, h2⟩ := receive_goods tbl d onTile letter p hs hz
        refine ⟨?_, h1, ?_⟩
        · simp only [inboxOf, ho]
        · simp only [inboxOf, Table.find?_set ho, if_true]
          exact h2
      | none =>
        rw [ho] at hr
        obtain ⟨q, hq, he⟩ := Option.map_eq_some_iff.mp hr
        cases he
        obtain ⟨h1, h2⟩ := receive_goods tbl d onTile letter p hs hz
        obtain ⟨hguid, r, hfr, hb⟩ := loadPlayerById_belongings hq
        simp only [hq]
        refine ⟨?_, h1, ?_⟩
        · simp only [inboxOf, ho, hfr, Option.map_some, Option.getD_some, hb]
        simp only [inboxOf, ho]
        unfold savePlayer
        have hr' : (p.receive (goods tbl d onTile letter) h0).2.guid = guid := by rw [receive_guid, hguid]
        cases hsv : env.saved with
        | true => simp only [if_true, hr', Table.find?_set hfr, Option.map_some, Option.getD_some, h2]
        | false => simp only [Bool.false_eq_true, if_false, hfr, Option.map_some, Option.getD_some, hb]

/-- Losing a house loses nothing of use exactly where it is not taken away, nobody is there to
    receive what is in it, or every item of it may be processed: it takes no branch that loses
    something of use, and every move finds a place — or, where the former owner's copy is not
    saved, nothing of use is moved at all. -/
theorem lost_house_keeps {id guid : UInt32} {updateDatabase : Bool} {env : OwnerEnv} (hf : w.houses.find? id = some h)
    (hone : ∀ u, Wanted tbl h.content u → whereabouts u id h.townId (receiver env.depot h w) previous w = 1) :
    (∀ u, Wanted tbl h.content u → whereabouts u id h.townId (receiver env.depot h w)
        (setOwner (goods tbl d onTile letter) id guid updateDatabase previous env w).2.2
        (setOwner (goods tbl d onTile letter) id guid updateDatabase previous env w).2.1 = 1) ↔
      (TakesAway guid updateDatabase env h w → ∀ p lasts, recipient env.depot previous h w = some (p, lasts) →
        TilesKeep tbl d onTile
          (if lasts then Fits tbl (Wanted tbl h.content) onTile else fun _ t => Free (Wanted tbl h.content) [t])
          (Wanted tbl h.content) h.content (p.belongings h.townId)) := by
  have hcontent : contentOf id w = h.content := by rw [contentOf, hf]; rfl
  have hset : ∀ h', contentOf id { w with houses := w.houses.set id h' } = h'.content := by
    intro h'
    rw [contentOf, Table.find?_set hf, if_pos rfl]
    rfl
  by_cases ht : TakesAway guid updateDatabase env h w
  · obtain ⟨h0, h', hs, hc, he⟩ := setOwner_taken (goods tbl d onTile letter) previous hf ht
    rw [he]
    have hhouses : (handOver (goods tbl d onTile letter) env.depot previous h0 w).2.1.houses = w.houses := by
      cases previous with
      | some p => rfl
      | none => exact (transferToDepot_spec _ env.depot h0 w).2.1
    have hcontent' : contentOf id { (handOver (goods tbl d onTile letter) env.depot previous h0 w).2.1 with
        houses := (handOver (goods tbl d onTile letter) env.depot previous h0 w).2.1.houses.set id h' } = h'.content := by
      rw [hhouses]
      exact hset h'
    have hinbox : ∀ previous' h'', inboxOf h.townId (receiver env.depot h w) previous'
        { (handOver (goods tbl d onTile letter) env.depot previous h0 w).2.1 with houses := h'' } =
          inboxOf h.townId (receiver env.depot h w) previous'
            (handOver (goods tbl d onTile letter) env.depot previous h0 w).2.1 := fun _ _ => rfl
    simp only [whereabouts, hcontent, hcontent', hinbox, hc] at hone ⊢
    cases hr : recipient env.depot previous h w with
    | none =>
      rw [handOver_none hs hr]
      simp only [hs.content]
      exact ⟨fun _ _ p lasts h => (by cases h), fun _ => hone⟩
    | some x =>
      obtain ⟨p, lasts⟩ := x
      obtain ⟨h1, h2, h3⟩ := handOver_some (d := d) hs hr
      rw [h1] at hone
      rw [h2, h3]
      have hiff : ∀ P : Player (UInt32 → Inbox π) → Bool → Prop,
          (TakesAway guid updateDatabase env h w → ∀ q b, some (p, lasts) = some (q, b) → P q b) ↔ P p lasts := by
        grind
      rw [hiff]
      cases lasts with
      | true =>
        simp only [if_true]
        rw [(transferItems_spec internalMoveItem_le fits_iff h.content (p.belongings h.townId)).2]
        refine forall₂_congr fun u hu => ?_
        have := hone u hu
        omega
      | false =>
        simp only [Bool.false_eq_true, if_false]
        rw [(transferItems_spec (m := fun _ _ => 0) (fun _ _ _ => Nat.zero_le _) (fun _ t => ?_) h.content
          (p.belongings h.townId)).2]
        · refine forall₂_congr fun u hu => ?_
          have := hone u hu
          omega
        · refine forall₂_congr fun u _ => ?_
          omega
  · obtain ⟨h', hc, hp, hw⟩ := setOwner_kept (goods tbl d onTile letter) previous hf ht
    refine ⟨fun _ ht' => absurd ht' ht, fun _ u hu => ?_⟩
    rw [hp]
    have hbefore := hone u hu
    rcases hw with ⟨hw, -⟩ | hw
    · rw [hw]
      exact hbefore
    · rw [hw]
      unfold whereabouts at hbefore ⊢
      rw [hset, hc, ← hcontent]
      exact hbefore

end

/-! ## A bag in a chest

A chest that cannot be carried is wrapped into a kit, and a bag stands in it. -/

/-- Ids 1 to 3: the chest, its kit and the bag. -/
def chestTable : ItemTable where
  type id := ⟨true, "", false, 0, id != 1, true, 0, 0, 0, -1, false, [], by decide⟩
  form id :=
    { group := if id = 2 then .NONE else .CONTAINER
      type := if id = 2 then .NONE else .CONTAINER
      alwaysOnTop := false
      moveable := id != 1
      replaceable := true
      charges := 0
      maxItems := 8
      wrapableTo := 0 }

def chestDraws : Draws String := ⟨0, fun _ => 0, fun _ => 0, fun _ => 0, Item.attributes⟩

def chest : Item String :=
  ⟨1, .Container, 8, [some "chest"], none, none, 0, { Store.Attributes.none with wrapId := some 2 }⟩

def bag : Item String := ⟨3, .Container, 8, [some "bag"], none, none, 0, .none⟩

def theHouse (ts : List (Thing String)) : House (List (Tile String)) where
  name := "House"
  type := .NORMAL
  townId := 1
  rent := 0
  owner := 7
  ownerAccountId := 1
  ownerName := "Owner"
  paidUntil := 0
  rentWarnings := 0
  isLoaded := true
  isProtected := false
  ownerTransitionInProgress := false
  subOwnerList := ""
  guestList := ""
  doorLists := []
  stored := (7, false)
  content := [⟨none, ⟨ts.zipIdx.map fun x => (x.2, x.1), by simpa [Function.comp_def] using nodup_range'⟩⟩]

/-- Its owner is offline and has an empty inbox. -/
def houseWith (ts : List (Thing String)) : World (List (Tile String)) (UInt32 → Inbox String) where
  players := ⟨[(7, ⟨"Owner", 1, 0, fun _ => []⟩)], by decide⟩
  guilds := ⟨[], nodup_nil⟩
  guild_transactions := []
  online := ⟨[], nodup_nil⟩
  registry := ⟨[], nodup_nil⟩
  houses := ⟨[(1, theHouse ts)], nodup_singleton _⟩

def allWell : OwnerEnv := ⟨true, true, true, ⟨true, true, true⟩, 0, "monthly"⟩

/-- The call as the owner's time runs out, with every query answered and the copy saved. -/
def afterLoss (ts : List (Thing String)) :
    Bool × World (List (Tile String)) (UInt32 → Inbox String) × Option (Player (UInt32 → Inbox String)) :=
  setOwner (goods chestTable chestDraws false fun _ _ belongings => belongings) 1 0 true none allWell (houseWith ts)

theorem wanted_bag {u : String} (h : Wanted chestTable (theHouse [.node bag []]).content u) : u = "bag" := by
  obtain ⟨tile, ht, item, hi, hu, -⟩ := h
  cases mem_singleton.mp ht
  cases mem_singleton.mp hi
  cases mem_singleton.mp hu
  rfl

/-- A bag that stands on the floor by itself may be moved. -/
theorem lone_bag_kept :
    TilesKeep chestTable chestDraws false (Fits chestTable (Wanted chestTable (theHouse [.node bag []]).content) false)
      (Wanted chestTable (theHouse [.node bag []]).content) (theHouse [.node bag []]).content [] := by
  have hbefore : ∀ u, Wanted chestTable (theHouse [.node bag []]).content u →
      whereabouts u 1 1 (some 7) none (houseWith [.node bag []]) = 1 := by
    intro u hu
    cases wanted_bag hu
    decide
  have hafter : ∀ u, Wanted chestTable (theHouse [.node bag []]).content u →
      whereabouts u 1 1 (some 7)
        (setOwner (goods chestTable chestDraws false fun _ _ belongings => belongings) 1 0 true none allWell
          (houseWith [.node bag []])).2.2
        (setOwner (goods chestTable chestDraws false fun _ _ belongings => belongings) 1 0 true none allWell
          (houseWith [.node bag []])).2.1 = 1 := by
    intro u hu
    cases wanted_bag hu
    decide
  have htaken : TakesAway 0 true allWell (theHouse [.node bag []]) (houseWith [.node bag []]) :=
    ⟨rfl, by decide, by decide, rfl, fun _ => rfl, by decide, rfl⟩
  exact (lost_house_keeps rfl hbefore).mp hafter htaken ⟨7, "Owner", 1, 0, fun _ => []⟩ true rfl

/-- The bag was in the house, and is nowhere, though everything was saved. -/
theorem bag_lost_with_its_chest :
    Wanted chestTable (contentOf 1 (houseWith [.node chest [.node bag []]])) "bag" ∧
      whereabouts "bag" 1 1 (some 7) none (houseWith [.node chest [.node bag []]]) = 1 ∧
      whereabouts "bag" 1 1 (some 7) (afterLoss [.node chest [.node bag []]]).2.2
        (afterLoss [.node chest [.node bag []]]).2.1 = 0 := by
  refine ⟨⟨_, mem_cons_self, bag, ?_, ?_, .inl rfl⟩, ?_, ?_⟩
  · decide
  · decide
  · decide
  · decide

end Backlands.Houses
