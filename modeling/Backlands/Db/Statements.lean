/-
  Backlands.Db.Statements — the statements a player is saved with and what they do to the
  tables (schema.sql; `DBInsert` of src/database.cpp).

  The rows of a table are kept by the player they belong to and by their key: where a
  table has a unique key beside the player (`keyCol`), that column; else zero. A table
  without a unique key keeps all rows of a player in one place. What a column of a row
  that was not given holds, its default, is `null` here.

  `fits` says whether a row still goes into the packet beside the rows gathered.

  Proved: `dbInsert_ops`, that it does not matter how an insert is cut into packets; what
  deleting and inserting anew (`Part.replace`) and inserting with an update clause
  (`Part.upsert`) do to the cells; and that such parts of a save, on tables of their own,
  leave every cell outside `players` as it is when they run again (`Parts.stable`).
-/

import Backlands.Lib.Cells
import Backlands.Items.Storage
import Mathlib.Algebra.Order.Ring.Int

namespace Backlands.Db

open Backlands.Lib Function List

/-! ## Tables -/

inductive Table where
  | players
  | player_spells
  | player_items
  | player_depotitems
  | player_inboxitems
  | player_rewarditems
  | player_storeinboxitems
  | player_autolootconfig
  | player_storage
  | player_bestiary_kills
  | player_bosstiary
  | player_outfits
  | player_mounts
  deriving DecidableEq, Repr

inductive Col where
  | id | level | reset | group_id | vocation | health | healthmax | experience
  | lookbody | lookfeet | lookhead | looklegs | looktype | lookaddons | lookmount
  | currentmount | randomizemount | maglevel | mana | manamax | manaspent | soul | town_id
  | posx | posy | posz | cap | sex | lastlogin | lastip | conditions | skulltime | skull
  | lastlogout | balance | bonus_rerolls | charmpoints | task_hunting_points | bounty_points
  | soulseals_points | has_weekly_expansion | xpboost_value | xpboost_stamina
  | offlinetraining_time | offlinetraining_skill | stamina
  | skill_fist | skill_fist_tries | skill_club | skill_club_tries | skill_sword | skill_sword_tries
  | skill_axe | skill_axe_tries | skill_dist | skill_dist_tries | skill_shielding | skill_shielding_tries
  | skill_fishing | skill_fishing_tries | direction | protection_time | onlinetime
  | blessings1 | blessings2 | blessings3 | blessings4 | blessings5 | blessings6 | blessings7 | blessings8
  | blessings | token_protected | token_hash
  | player_id | name | pid | sid | itemtype | count | attributes | config | key | value
  | raceid | kills | points | outfit_id | addons | mount_id
  deriving DecidableEq, Repr

inductive Value where
  | null
  | int (n : Int)
  | text (s : String)
  | blob (bytes : List UInt8)
  | attributes (a : Items.Attributes)
  deriving DecidableEq

abbrev Record := Col → Value

/-- The column that makes a row of a player unique. -/
def keyCol : Table → Option Col
  | .player_depotitems | .player_inboxitems | .player_rewarditems | .player_storeinboxitems => some .sid
  | .player_storage => some .key
  | .player_bestiary_kills => some .raceid
  | .player_outfits => some .outfit_id
  | .player_mounts => some .mount_id
  | .players | .player_spells | .player_items | .player_autolootconfig | .player_bosstiary => none

def unique : Table → Bool
  | .player_spells | .player_items => false
  | _ => true

/-- `FOREIGN KEY (player_id) REFERENCES players(id)`. -/
def references : Table → Bool
  | .players | .player_autolootconfig | .player_bosstiary | .player_mounts => false
  | _ => true

structure Cell where
  table : Table
  owner : Nat
  key : Int
  deriving DecidableEq

abbrev Database := Cell → List Record

def intOf : Value → Int
  | .int n => n
  | _ => 0

def cellOf (t : Table) (r : Record) : Cell where
  table := t
  owner := (intOf (r .player_id)).toNat
  key := match keyCol t with
    | some c => intOf (r c)
    | none => 0

/-- The row of a player in `players`. -/
def playerCell (guid : Nat) : Cell := ⟨.players, guid, 0⟩

/-! ## Statements -/

/-- The right side of an assignment: a value, or the column itself plus a number. -/
inductive Expr where
  | const (v : Value)
  | plus (n : Int)

def inBigint (n : Int) : Prop := -2 ^ 63 ≤ n ∧ n < 2 ^ 63

instance (n : Int) : Decidable (inBigint n) := inferInstanceAs (Decidable (_ ∧ _))

/-- One assignment. A sum that leaves the range of BIGINT is an error. -/
def assign (r : Record) (a : Col × Expr) : Option Record :=
  match a.2 with
  | .const v => some (update r a.1 v)
  | .plus n =>
    match r a.1 with
    | .int m => if inBigint (m + n) then some (update r a.1 (.int (m + n))) else none
    | _ => none

def assignAll : List (Col × Expr) → Record → Option Record
  | [], r => some r
  | a :: sets, r => (assign r a).bind (assignAll sets)

def updateRows (f : Record → Option Record) : List Record → Option (List Record)
  | [] => some []
  | r :: rows => (f r).bind fun q => (updateRows f rows).map (q :: ·)

inductive Stmt where
  | update (t : Table) (guid : Nat) (sets : List (Col × Expr))
  | delete (t : Table) (guid : Nat)
  | deleteKeys (t : Table) (guid : Nat) (keys : List Int)
  /-- `cols` are the columns of `ON DUPLICATE KEY UPDATE`, if it is there. -/
  | insert (t : Table) (cols : List Col) (rows : List Record)

def hasRows (rows : List Record) : Bool := !rows.isEmpty

/-- The columns of `cols` as the new row has them. -/
def overwrite (cols : List Col) (r x : Record) : Record := fun c => if c ∈ cols then r c else x c

/-- A row with an update clause: it is made, or the one that is there gets its columns. -/
def put (cols : List Col) (rows : List Record) (r : Record) : List Record :=
  if hasRows rows then rows.map (overwrite cols r) else [r]

/-- One row into its place: the row of the player must be there, and without an update
    clause a row with the same key must not. -/
def insertRow (t : Table) (cols : List Col) (r : Record) : List (Op Cell (List Record)) :=
  (if references t then [.need (playerCell (cellOf t r).owner) hasRows] else []) ++
    [.modify (cellOf t r) fun rows =>
      if cols.isEmpty then
        if unique t && hasRows rows then none else some (rows ++ [r])
      else some (put cols rows r)]

def Stmt.ops : Stmt → List (Op Cell (List Record))
  | .update t guid sets => [.modify ⟨t, guid, 0⟩ (updateRows (assignAll sets))]
  | .delete t guid => [.each fun c rows => if c.table = t ∧ c.owner = guid then [] else rows]
  | .deleteKeys t guid keys =>
    [.each fun c rows => if c.table = t ∧ c.owner = guid ∧ c.key ∈ keys then [] else rows]
  | .insert t cols rows => rows.flatMap (insertRow t cols)

/-- The statements one after the other, in a transaction. -/
def executeAll (stmts : List Stmt) (db : Database) : Option Database := runOps (stmts.flatMap Stmt.ops) db

/-- The transaction, rolled back when a statement fails. -/
def replay (stmts : List Stmt) (db : Database) : Database := (executeAll stmts db).getD db

/-- `DBInsert`: rows are gathered and sent when the next one does not fit, and at the end. -/
def dbInsertLoop (fits : List Record → Record → Bool) (t : Table) (cols : List Col) :
    List Record → List Record → List Stmt
  | values, [] => if values.isEmpty then [] else [.insert t cols values]
  | values, r :: rows =>
    if !values.isEmpty && !fits values r then .insert t cols values :: dbInsertLoop fits t cols [r] rows
    else dbInsertLoop fits t cols (values ++ [r]) rows

def dbInsert (fits : List Record → Record → Bool) (t : Table) (cols : List Col) (rows : List Record) : List Stmt :=
  dbInsertLoop fits t cols [] rows

theorem dbInsertLoop_ops (fits : List Record → Record → Bool) (t : Table) (cols : List Col)
    (values rows : List Record) : (dbInsertLoop fits t cols values rows).flatMap Stmt.ops =
      (values ++ rows).flatMap (insertRow t cols) := by
  induction rows generalizing values with
  | nil =>
    unfold dbInsertLoop
    cases values with
    | nil => rfl
    | cons r values => simp [Stmt.ops]
  | cons r rows ih =>
    unfold dbInsertLoop
    split
    · rw [flatMap_cons, ih, Stmt.ops, ← flatMap_append]
      rfl
    · rw [ih, append_assoc]
      rfl

theorem dbInsert_ops (fits : List Record → Record → Bool) (t : Table) (cols : List Col) (rows : List Record) :
    (dbInsert fits t cols rows).flatMap Stmt.ops = rows.flatMap (insertRow t cols) :=
  dbInsertLoop_ops fits t cols [] rows

/-! ## Parts of a save -/

def OwnedBy (guid : Nat) (rows : List Record) : Prop := ∀ r ∈ rows, r .player_id = .int guid

theorem cellOf_owner {guid : Nat} {t : Table} {r : Record} (h : r .player_id = .int guid) :
    (cellOf t r).owner = guid := by
  simp [cellOf, h, intOf]

theorem cellOf_table (t : Table) (r : Record) : (cellOf t r).table = t := rfl

section
variable {t : Table} {cols : List Col} {guid : Nat} {rows : List Record} {j : Cell}

theorem cellRun_insertRow_away {r : Record} (h1 : cellOf t r ≠ j) (h2 : playerCell (cellOf t r).owner ≠ j)
    (x : List Record) : cellRun j (insertRow t cols r) x = some x := by
  unfold insertRow
  split
  · simp [cellRun, Op.cell, h1, h2]
  · simp [cellRun, Op.cell, h1]

theorem cellRun_insert_away (h : ∀ r ∈ rows, cellOf t r ≠ j ∧ playerCell (cellOf t r).owner ≠ j) (x : List Record) :
    cellRun j (rows.flatMap (insertRow t cols)) x = some x := by
  induction rows with
  | nil => rfl
  | cons r rows ih =>
    obtain ⟨h1, h2⟩ := h r mem_cons_self
    rw [flatMap_cons, cellRun_append, cellRun_insertRow_away h1 h2]
    exact ih fun q hq => h q (mem_cons_of_mem _ hq)

theorem cellRun_insert_other (ht : j.table ≠ t) (hp : j.table ≠ .players) (x : List Record) :
    cellRun j (rows.flatMap (insertRow t cols)) x = some x := by
  apply cellRun_insert_away
  intro r _
  exact ⟨fun e => ht (by rw [← e]; rfl), fun e => hp (by rw [← e]; rfl)⟩

theorem cellRun_insert_owner (ho : OwnedBy guid rows) (hj : j.owner ≠ guid) (x : List Record) :
    cellRun j (rows.flatMap (insertRow t cols)) x = some x := by
  apply cellRun_insert_away
  intro r hr
  have hown := cellOf_owner (t := t) (ho r hr)
  exact ⟨fun e => hj (by rw [← e]; exact hown), fun e => hj (by rw [← e]; exact hown)⟩

theorem cellRun_insert_players (ht : t ≠ .players) {k : Int} (hk : k ≠ 0) (x : List Record) :
    cellRun ⟨.players, guid, k⟩ (rows.flatMap (insertRow t cols)) x = some x := by
  apply cellRun_insert_away
  intro r _
  exact ⟨fun e => ht (by rw [← cellOf_table t r, e]), fun e => hk (congrArg Cell.key e).symm⟩

theorem cellRun_insert_player (ht : t ≠ .players) (x : List Record) :
    cellRun (playerCell guid) (rows.flatMap (insertRow t cols)) x = some x ∨
      x = [] ∧ cellRun (playerCell guid) (rows.flatMap (insertRow t cols)) x = none := by
  induction rows with
  | nil => exact .inl rfl
  | cons r rows ih =>
    have h1 : ¬ cellOf t r = playerCell guid := fun e => ht (by rw [← cellOf_table t r, e]; rfl)
    rw [flatMap_cons, cellRun_append]
    have hrow : cellRun (playerCell guid) (insertRow t cols r) x = some x ∨
        x = [] ∧ cellRun (playerCell guid) (insertRow t cols r) x = none := by
      unfold insertRow
      split
      · by_cases h2 : playerCell (cellOf t r).owner = playerCell guid
        · cases x with
          | nil => exact .inr ⟨rfl, by simp [cellRun, Op.cell, h2, hasRows]⟩
          | cons y x => exact .inl (by simp [cellRun, Op.cell, h1, h2, hasRows])
        · exact .inl (by simp [cellRun, Op.cell, h1, h2])
      · exact .inl (by simp [cellRun, Op.cell, h1])
    rcases hrow with hrow | ⟨hx, hrow⟩
    · rw [hrow]
      exact ih
    · rw [hrow]
      exact .inr ⟨hx, rfl⟩

theorem overwrite_overwrite (cols : List Col) (r q x : Record) :
    overwrite cols r (overwrite cols q x) = overwrite cols r x := by
  funext c
  unfold overwrite
  split <;> rfl

theorem overwrite_self (cols : List Col) (r : Record) : overwrite cols r r = r := by
  funext c
  unfold overwrite
  split <;> rfl

theorem foldl_put (cols : List Col) (rs : List Record) (l : Record) {x : List Record} (hx : x ≠ []) :
    (rs ++ [l]).foldl (put cols) x = x.map (overwrite cols l) := by
  induction rs generalizing x with
  | nil =>
    obtain ⟨y, ys, rfl⟩ := exists_cons_of_ne_nil hx
    rfl
  | cons r rs ih =>
    have hput : put cols x r = x.map (overwrite cols r) := by
      obtain ⟨y, ys, rfl⟩ := exists_cons_of_ne_nil hx
      rfl
    rw [cons_append, foldl_cons, hput, ih (by simpa using hx), map_map]
    apply map_congr_left
    intro y _
    exact overwrite_overwrite cols l r y

theorem foldl_put_again (cols : List Col) (rs : List Record) (x : List Record) :
    rs.foldl (put cols) (rs.foldl (put cols) x) = rs.foldl (put cols) x := by
  rcases eq_nil_or_concat rs with rfl | ⟨init, l, rfl⟩
  · rfl
  -- What is there after the first time, if anything was there before or not.
  have hfirst : ∃ y, y ≠ [] ∧ (init ++ [l]).foldl (put cols) x = y.map (overwrite cols l) := by
    cases x with
    | cons z x => exact ⟨z :: x, by simp, foldl_put cols init l (by simp)⟩
    | nil =>
      cases init with
      | nil => exact ⟨[l], by simp, by simp [put, hasRows, overwrite_self]⟩
      | cons r init =>
        refine ⟨[r], by simp, ?_⟩
        exact foldl_put cols init l (x := [r]) (by simp)
  obtain ⟨y, hy, e⟩ := hfirst
  rw [concat_eq_append, e, foldl_put cols init l (by simpa using hy), map_map]
  apply map_congr_left
  intro z _
  exact overwrite_overwrite cols l l z

theorem cellRun_put (hc : cols ≠ []) (ht : j.table = t) (hp : t ≠ .players) (x : List Record) :
    cellRun j (rows.flatMap (insertRow t cols)) x =
      some ((rows.filter fun r => decide (cellOf t r = j)).foldl (put cols) x) := by
  have hcols : cols.isEmpty = false := by simpa using hc
  induction rows generalizing x with
  | nil => rfl
  | cons r rows ih =>
    have h2 : ¬ playerCell (cellOf t r).owner = j := fun e => hp (by rw [← ht, ← e]; rfl)
    have hrow : cellRun j (insertRow t cols r) x = some (if cellOf t r = j then put cols x r else x) := by
      unfold insertRow
      by_cases h1 : cellOf t r = j
      · rw [h1] at h2 ⊢
        split
        · simp [cellRun, Op.cell, h2, hcols]
        · simp [cellRun, Op.cell, hcols]
      · split
        · simp [cellRun, Op.cell, h1, h2]
        · simp [cellRun, Op.cell, h1]
    rw [flatMap_cons, cellRun_append, hrow, Option.bind_some, ih]
    by_cases h1 : cellOf t r = j
    · simp [h1]
    · simp [h1]

end

/-- A column of a player's row with a key. -/
def lookup (db : Database) (t : Table) (guid : Nat) (c : Col) (k : Nat) : Option Int :=
  (db ⟨t, guid, k⟩).head?.map fun r => intOf (r c)

variable {cols : List Col} {c : Col}

theorem head_foldl_put (hc : c ∈ cols) {v : Int} {rs : List Record} (hne : rs ≠ []) (hv : ∀ r ∈ rs, r c = .int v)
    (x : List Record) : (rs.foldl (put cols) x).head?.map (fun r => intOf (r c)) = some v := by
  obtain ⟨init, l, rfl⟩ := (eq_nil_or_concat' rs).resolve_left hne
  have hl : l c = .int v := hv l (by simp)
  rw [foldl_append, foldl_cons, foldl_nil]
  cases init.foldl (put cols) x with
  | nil => simp [put, hasRows, hl, intOf]
  | cons y ys => simp [put, hasRows, overwrite, hc, hl, intOf]

/-- Rows made of the keys that have a value, put with an update clause: what is then read
    for a key. -/
theorem lookup_foldl_put (t : Table) (guid : Nat) (cols : List Col) (hc : c ∈ cols) {f : Nat → Int → Record}
    (hcell : ∀ key v, cellOf t (f key v) = ⟨t, guid, key⟩) (hval : ∀ key v, f key v c = .int v) (keys : List Nat)
    (m : Nat → Option Int) (k : Nat) (x : List Record) :
    (((keys.filterMap fun key => (m key).map (f key)).filter fun r => decide (cellOf t r = ⟨t, guid, k⟩)).foldl
      (put cols) x).head?.map (fun r => intOf (r c)) =
      ((if k ∈ keys then m k else none).map some).getD (x.head?.map fun r => intOf (r c)) := by
  have hmem : ∀ r ∈ (keys.filterMap fun key => (m key).map (f key)).filter fun r => decide (cellOf t r = ⟨t, guid, k⟩),
      ∃ v, k ∈ keys ∧ m k = some v ∧ r = f k v := by
    intro r hr
    obtain ⟨hr, hj⟩ := mem_filter.mp hr
    obtain ⟨key, hkey, hk⟩ := mem_filterMap.mp hr
    obtain ⟨v, hv, rfl⟩ := Option.map_eq_some_iff.mp hk
    have e : key = k := by
      have := of_decide_eq_true hj
      rw [hcell, Cell.mk.injEq] at this
      omega
    subst e
    exact ⟨v, hkey, hv, rfl⟩
  cases hm : (if k ∈ keys then m k else none) with
  | none =>
    have hnil : ((keys.filterMap fun key => (m key).map (f key)).filter
        fun r => decide (cellOf t r = ⟨t, guid, k⟩)) = [] := by
      apply eq_nil_iff_forall_not_mem.mpr
      intro r hr
      obtain ⟨v, hk, hv, _⟩ := hmem r hr
      rw [if_pos hk, hv] at hm
      cases hm
    rw [hnil]
    rfl
  | some v =>
    have hk : k ∈ keys := by
      by_contra hk
      rw [if_neg hk] at hm
      cases hm
    rw [if_pos hk] at hm
    apply head_foldl_put hc
    · apply ne_nil_of_mem (a := f k v)
      rw [mem_filter]
      exact ⟨mem_filterMap.mpr ⟨k, hk, by rw [hm]; rfl⟩, decide_eq_true (hcell k v)⟩
    · intro r hr
      obtain ⟨w, _, hw, rfl⟩ := hmem r hr
      rw [hm] at hw
      cases hw
      exact hval k v

structure Part (guid : Nat) (t : Table) (ops : List (Op Cell (List Record))) : Prop where
  other : ∀ j : Cell, j.table ≠ t → j.table ≠ .players → ∀ x, cellRun j ops x = some x
  elsewhere : ∀ j : Cell, j.owner ≠ guid → ∀ x, cellRun j ops x = some x
  player : ∀ x, cellRun (playerCell guid) ops x = some x ∨ x = [] ∧ cellRun (playerCell guid) ops x = none
  players : ∀ k x, k ≠ 0 → cellRun ⟨.players, guid, k⟩ ops x = some x
  stable : ∀ j : Cell, j.table = t → Stable (cellRun j ops)

theorem Part.congr {guid : Nat} {t : Table} {ops ops' : List (Op Cell (List Record))} (h : Part guid t ops)
    (e : ∀ j x, cellRun j ops' x = cellRun j ops x) : Part guid t ops' := by
  refine ⟨?_, ?_, ?_, ?_, ?_⟩
  · intro j h1 h2 x
    rw [e]
    exact h.other j h1 h2 x
  · intro j h1 x
    rw [e]
    exact h.elsewhere j h1 x
  · intro x
    rw [e]
    exact h.player x
  · intro k x hk
    rw [e]
    exact h.players k x hk
  · intro j hj
    exact (h.stable j hj).congr (e j)

theorem Part.nil (guid : Nat) (t : Table) : Part guid t [] :=
  ⟨fun _ _ _ _ => rfl, fun _ _ _ => rfl, fun _ => .inl rfl, fun _ _ _ => rfl, fun _ _ => Stable.pure⟩

section
variable {t : Table} {guid : Nat} {rows : List Record}

theorem Part.replace (ht : t ≠ .players) (ho : OwnedBy guid rows) (fits : List Record → Record → Bool) :
    Part guid t ((Stmt.delete t guid :: dbInsert fits t [] rows).flatMap Stmt.ops) := by
  have hops : (Stmt.delete t guid :: dbInsert fits t [] rows).flatMap Stmt.ops =
      (Stmt.delete t guid).ops ++ rows.flatMap (insertRow t []) := by
    rw [flatMap_cons, dbInsert_ops]
  have hdel : ∀ (j : Cell) x, cellRun j (Stmt.delete t guid).ops x =
      some (if j.table = t ∧ j.owner = guid then [] else x) := by
    intro j x
    rfl
  rw [hops]
  refine ⟨?_, ?_, ?_, ?_, ?_⟩
  · intro j hj hp x
    rw [cellRun_append, hdel, if_neg fun h => hj h.1]
    exact cellRun_insert_other hj hp x
  · intro j hj x
    rw [cellRun_append, hdel, if_neg fun h => hj h.2]
    exact cellRun_insert_owner ho hj x
  · intro x
    rw [cellRun_append, hdel, if_neg fun h => ht h.1.symm]
    exact cellRun_insert_player ht x
  · intro k x hk
    rw [cellRun_append, hdel, if_neg fun h => ht h.1.symm]
    exact cellRun_insert_players ht hk x
  · intro j hj
    by_cases hg : j.owner = guid
    · -- After the delete nothing is left of what was there before.
      intro x y hxy
      rw [cellRun_append, hdel, if_pos ⟨hj, hg⟩] at hxy ⊢
      exact hxy
    · apply Stable.pure.congr
      intro x
      rw [cellRun_append, hdel, if_neg fun h => hg h.2]
      exact cellRun_insert_owner ho hg x

theorem Part.upsert (ht : t ≠ .players) (hc : cols ≠ []) (ho : OwnedBy guid rows) (keys : List Int)
    (fits : List Record → Record → Bool) :
    Part guid t ((Stmt.deleteKeys t guid keys :: dbInsert fits t cols rows).flatMap Stmt.ops) := by
  have hops : (Stmt.deleteKeys t guid keys :: dbInsert fits t cols rows).flatMap Stmt.ops =
      (Stmt.deleteKeys t guid keys).ops ++ rows.flatMap (insertRow t cols) := by
    rw [flatMap_cons, dbInsert_ops]
  have hdel : ∀ (j : Cell) x, cellRun j (Stmt.deleteKeys t guid keys).ops x =
      some (if j.table = t ∧ j.owner = guid ∧ j.key ∈ keys then [] else x) := by
    intro j x
    rfl
  rw [hops]
  refine ⟨?_, ?_, ?_, ?_, ?_⟩
  · intro j hj hp x
    rw [cellRun_append, hdel, if_neg fun h => hj h.1]
    exact cellRun_insert_other hj hp x
  · intro j hj x
    rw [cellRun_append, hdel, if_neg fun h => hj h.2.1]
    exact cellRun_insert_owner ho hj x
  · intro x
    rw [cellRun_append, hdel, if_neg fun h => ht h.1.symm]
    exact cellRun_insert_player ht x
  · intro k x hk
    rw [cellRun_append, hdel, if_neg fun h => ht h.1.symm]
    exact cellRun_insert_players ht hk x
  · intro j hj x y hxy
    rw [cellRun_append, hdel, Option.bind_some, cellRun_put hc hj ht] at hxy ⊢
    by_cases hd : j.table = t ∧ j.owner = guid ∧ j.key ∈ keys
    · rw [if_pos hd] at hxy ⊢
      exact hxy
    rw [if_neg hd] at hxy ⊢
    rw [Option.some.injEq] at hxy ⊢
    rw [← hxy]
    exact foldl_put_again cols _ x

theorem Part.insert (ht : t ≠ .players) (hc : cols ≠ []) (ho : OwnedBy guid rows) (fits : List Record → Record → Bool) :
    Part guid t ((dbInsert fits t cols rows).flatMap Stmt.ops) := by
  apply (Part.upsert ht hc ho [] fits).congr
  intro j x
  rw [flatMap_cons, cellRun_append]
  have hdel : cellRun j (Stmt.deleteKeys t guid []).ops x = some x := by simp [Stmt.ops, cellRun, Op.cell]
  rw [hdel]
  rfl

end

/-- Parts on tables of their own, none of them `players`. -/
structure Parts (guid : Nat) (parts : List (Table × List Stmt)) : Prop where
  part : ∀ e ∈ parts, Part guid e.1 (e.2.flatMap Stmt.ops)
  tables : (parts.map (·.1)).Nodup
  apart : ∀ e ∈ parts, e.1 ≠ .players

def partsOps (parts : List (Table × List Stmt)) : List (Op Cell (List Record)) :=
  (parts.flatMap (·.2)).flatMap Stmt.ops

theorem partsOps_cons (e : Table × List Stmt) (parts : List (Table × List Stmt)) :
    partsOps (e :: parts) = e.2.flatMap Stmt.ops ++ partsOps parts := by
  simp [partsOps]

section
variable {guid : Nat} {parts : List (Table × List Stmt)}

theorem Parts.tail {e : Table × List Stmt} (h : Parts guid (e :: parts)) : Parts guid parts :=
  ⟨fun x hx => h.part x (mem_cons_of_mem _ hx), (nodup_cons.mp (map_cons ▸ h.tables)).2,
    fun x hx => h.apart x (mem_cons_of_mem _ hx)⟩

variable {j : Cell}

theorem Parts.other (h : Parts guid parts) (hj : j.table ∉ parts.map (·.1)) (hp : j.table ≠ .players)
    (x : List Record) : cellRun j (partsOps parts) x = some x := by
  induction parts with
  | nil => rfl
  | cons e parts ih =>
    simp only [map_cons, mem_cons, not_or] at hj
    rw [partsOps_cons, cellRun_append, (h.part e mem_cons_self).other j hj.1 hp]
    exact ih h.tail hj.2

theorem Parts.cellRun_part (h : Parts guid parts) {e : Table × List Stmt} (he : e ∈ parts) (hj : j.table = e.1)
    (x : List Record) : cellRun j (partsOps parts) x = cellRun j (e.2.flatMap Stmt.ops) x := by
  have hp : j.table ≠ .players := by
    rw [hj]
    exact h.apart e he
  induction parts with
  | nil => cases he
  | cons d parts ih =>
    have hnodup := nodup_cons.mp (map_cons ▸ h.tables)
    rw [partsOps_cons, cellRun_append]
    rcases mem_cons.mp he with rfl | he
    · cases cellRun j (e.2.flatMap Stmt.ops) x with
      | none => rfl
      | some y => exact h.tail.other (by rw [hj]; exact hnodup.1) hp y
    have hne : j.table ≠ d.1 := by
      intro e'
      apply hnodup.1
      rw [← e', hj]
      exact mem_map_of_mem he
    rw [(h.part d mem_cons_self).other j hne hp]
    exact ih h.tail he

theorem Parts.stable (h : Parts guid parts) (hp : j.table ≠ .players) : Stable (cellRun j (partsOps parts)) := by
  induction parts with
  | nil => exact Stable.pure
  | cons e parts ih =>
    have hpart := h.part e mem_cons_self
    by_cases hj : j.table = e.1
    · have hnot : j.table ∉ parts.map (·.1) := by
        rw [hj]
        exact (nodup_cons.mp (map_cons ▸ h.tables)).1
      apply (hpart.stable j hj).congr
      intro x
      rw [partsOps_cons, cellRun_append]
      cases cellRun j (e.2.flatMap Stmt.ops) x with
      | none => rfl
      | some y => exact h.tail.other hnot hp y
    · apply (ih h.tail).congr
      intro x
      rw [partsOps_cons, cellRun_append, hpart.other j hj hp]
      rfl

theorem Parts.elsewhere (h : Parts guid parts) (hj : j.owner ≠ guid) (x : List Record) :
    cellRun j (partsOps parts) x = some x := by
  induction parts with
  | nil => rfl
  | cons e parts ih =>
    rw [partsOps_cons, cellRun_append, (h.part e mem_cons_self).elsewhere j hj]
    exact ih h.tail

theorem Parts.players (h : Parts guid parts) {k : Int} (hk : k ≠ 0) (x : List Record) :
    cellRun ⟨.players, guid, k⟩ (partsOps parts) x = some x := by
  induction parts with
  | nil => rfl
  | cons e parts ih =>
    rw [partsOps_cons, cellRun_append, (h.part e mem_cons_self).players k x hk]
    exact ih h.tail

theorem Parts.player (h : Parts guid parts) (x : List Record) :
    cellRun (playerCell guid) (partsOps parts) x = some x ∨
      x = [] ∧ cellRun (playerCell guid) (partsOps parts) x = none := by
  induction parts with
  | nil => exact .inl rfl
  | cons e parts ih =>
    rw [partsOps_cons, cellRun_append]
    rcases (h.part e mem_cons_self).player x with hx | ⟨hx, hn⟩
    · rw [hx]
      exact ih h.tail
    · rw [hn]
      exact .inr ⟨hx, rfl⟩

end

/-! ## Assignments -/

def setAll : List (Col × Value) → Record → Record
  | [], r => r
  | a :: vals, r => setAll vals (update r a.1 a.2)

def consts (vals : List (Col × Value)) : List (Col × Expr) := vals.map fun a => (a.1, .const a.2)

variable {vals : List (Col × Value)} {f : Record → Option Record} {x : List Record}

theorem assignAll_append (sets sets' : List (Col × Expr)) (r : Record) :
    assignAll (sets ++ sets') r = (assignAll sets r).bind (assignAll sets') := by
  induction sets generalizing r with
  | nil => rfl
  | cons a sets ih =>
    simp only [cons_append, assignAll]
    cases assign r a with
    | none => rfl
    | some q => exact ih q

theorem assignAll_consts (vals : List (Col × Value)) (r : Record) : assignAll (consts vals) r = some (setAll vals r) := by
  induction vals generalizing r with
  | nil => rfl
  | cons a vals ih => exact ih _

theorem setAll_of_notMem (h : c ∉ vals.map (·.1)) (r : Record) : setAll vals r c = r c := by
  induction vals generalizing r with
  | nil => rfl
  | cons a vals ih =>
    simp only [map_cons, mem_cons, not_or] at h
    rw [setAll, ih h.2, update_of_ne h.1]

theorem setAll_of_mem (h : c ∈ vals.map (·.1)) (r q : Record) : setAll vals r c = setAll vals q c := by
  induction vals generalizing r q with
  | nil => cases h
  | cons a vals ih =>
    simp only [setAll]
    by_cases hc : c ∈ vals.map (·.1)
    · exact ih hc _ _
    · rcases mem_cons.mp h with e | h
      · rw [setAll_of_notMem hc, setAll_of_notMem hc, e, update_self, update_self]
      · exact absurd h hc

theorem setAll_again (vals : List (Col × Value)) (r : Record) : setAll vals (setAll vals r) = setAll vals r := by
  funext c
  by_cases hc : c ∈ vals.map (·.1)
  · exact setAll_of_mem hc _ _
  · rw [setAll_of_notMem hc]

theorem assignAll_plus {before after : List (Col × Value)} {n : Int} (hb : c ∉ before.map (·.1)) (r : Record) :
    assignAll (consts before ++ (c, .plus n) :: consts after) r =
      match r c with
      | .int m => if inBigint (m + n) then
          some (setAll after (update (setAll before r) c (.int (m + n)))) else none
      | _ => none := by
  rw [assignAll_append, assignAll_consts, Option.bind_some, assignAll, assign]
  simp only [setAll_of_notMem hb]
  cases r c with
  | int m =>
    simp only
    split
    · exact assignAll_consts after _
    · rfl
  | _ => rfl

theorem assignAll_plus_again {before after : List (Col × Value)} {n : Int} (hb : c ∉ before.map (·.1))
    (ha : c ∉ after.map (·.1)) {r q : Record}
    (h : assignAll (consts before ++ (c, .plus n) :: consts after) r = some q) :
    ∃ m, r c = .int m ∧ inBigint (m + n) ∧ q c = .int (m + n) ∧
      assignAll (consts before ++ (c, .plus n) :: consts after) q =
        if inBigint (m + n + n) then some (update q c (.int (m + n + n))) else none := by
  rw [assignAll_plus hb] at h
  cases hr : r c with
  | int m =>
    rw [hr] at h
    simp only at h
    split at h
    · rename_i hin
      rw [Option.some.injEq] at h
      have hq : q c = .int (m + n) := by rw [← h, setAll_of_notMem ha, update_self]
      refine ⟨m, rfl, hin, hq, ?_⟩
      rw [assignAll_plus hb, hq]
      simp only
      split
      · congr 1
        funext d
        by_cases hd : d = c
        · subst hd
          rw [setAll_of_notMem ha, update_self, update_self]
        rw [update_of_ne hd]
        by_cases hda : d ∈ after.map (·.1)
        · rw [← h]
          exact setAll_of_mem hda _ _
        rw [setAll_of_notMem hda, update_of_ne hd]
        by_cases hdb : d ∈ before.map (·.1)
        · rw [← h, setAll_of_notMem hda, update_of_ne hd]
          exact setAll_of_mem hdb _ _
        · rw [setAll_of_notMem hdb]
      · rfl
    · cases h
  | null => rw [hr] at h; cases h
  | text s => rw [hr] at h; cases h
  | blob b => rw [hr] at h; cases h
  | attributes a => rw [hr] at h; cases h

theorem updateRows_mem {y : List Record} (h : updateRows f x = some y) :
    (∀ q ∈ y, ∃ r ∈ x, f r = some q) ∧ ∀ r ∈ x, ∃ q ∈ y, f r = some q := by
  induction x generalizing y with
  | nil =>
    cases h
    exact ⟨fun _ h => (not_mem_nil h).elim, fun _ h => (not_mem_nil h).elim⟩
  | cons r x ih =>
    simp only [updateRows, Option.bind_eq_some_iff, Option.map_eq_some_iff] at h
    obtain ⟨q, hq, z, hz, rfl⟩ := h
    obtain ⟨h1, h2⟩ := ih hz
    constructor
    · intro a ha
      rcases mem_cons.mp ha with rfl | ha
      · exact ⟨r, mem_cons_self, hq⟩
      · obtain ⟨b, hb, e⟩ := h1 a ha
        exact ⟨b, mem_cons_of_mem _ hb, e⟩
    · intro a ha
      rcases mem_cons.mp ha with rfl | ha
      · exact ⟨q, mem_cons_self, hq⟩
      · obtain ⟨b, hb, e⟩ := h2 a ha
        exact ⟨b, mem_cons_of_mem _ hb, e⟩

theorem updateRows_eq_nil {y : List Record} (h : updateRows f x = some y) : y = [] ↔ x = [] := by
  obtain ⟨h1, h2⟩ := updateRows_mem h
  constructor
  · rintro rfl
    apply eq_nil_iff_forall_not_mem.mpr
    intro r hr
    obtain ⟨q, hq, _⟩ := h2 r hr
    exact not_mem_nil hq
  · rintro rfl
    apply eq_nil_iff_forall_not_mem.mpr
    intro q hq
    obtain ⟨r, hr, _⟩ := h1 q hq
    exact not_mem_nil hr

theorem updateRows_eq_none_iff : updateRows f x = none ↔ ∃ r ∈ x, f r = none := by
  induction x with
  | nil => simp [updateRows]
  | cons r x ih =>
    cases hr : f r with
    | none => simp [updateRows, hr]
    | some q => simp [updateRows, hr, ih]

theorem updateRows_self_iff : updateRows f x = some x ↔ ∀ r ∈ x, f r = some r := by
  induction x with
  | nil => simp [updateRows]
  | cons r x ih =>
    simp only [updateRows, Option.bind_eq_some_iff, Option.map_eq_some_iff, List.cons.injEq, forall_mem_cons]
    constructor
    · rintro ⟨q, hq, z, hz, rfl, rfl⟩
      exact ⟨hq, ih.mp hz⟩
    · rintro ⟨hr, hx⟩
      exact ⟨r, hr, x, ih.mpr hx, rfl, rfl⟩

theorem updateRows_consts_again {y : List Record} (h : updateRows (assignAll (consts vals)) x = some y) :
    updateRows (assignAll (consts vals)) y = some y := by
  rw [updateRows_self_iff]
  intro q hq
  obtain ⟨r, _, hr⟩ := (updateRows_mem h).1 q hq
  rw [assignAll_consts, Option.some.injEq] at hr
  rw [assignAll_consts, ← hr, setAll_again]

/-! ## Replaying a save -/

section
variable {guid : Nat} {parts : List (Table × List Stmt)} {sets : List (Col × Expr)}

theorem Parts.nil (guid : Nat) : Parts guid [] :=
  ⟨fun _ h => (not_mem_nil h).elim, nodup_nil, fun _ h => (not_mem_nil h).elim⟩

theorem save_ops (sets : List (Col × Expr)) (parts : List (Table × List Stmt)) :
    (Stmt.update .players guid sets :: parts.flatMap (·.2)).flatMap Stmt.ops =
      .modify (playerCell guid) (updateRows (assignAll sets)) :: partsOps parts := rfl

theorem save_stable (h : Parts guid parts) {j : Cell} (hj : j ≠ playerCell guid) :
    Stable (cellRun j (.modify (playerCell guid) (updateRows (assignAll sets)) :: partsOps parts)) := by
  have hupdate : ∀ x, cellRun j (.modify (playerCell guid) (updateRows (assignAll sets)) :: partsOps parts) x =
      cellRun j (partsOps parts) x := by
    have hne : ¬ playerCell guid = j := fun e => hj e.symm
    simp [cellRun, Op.cell, hne]
  by_cases hp : j.table = .players
  · apply Stable.pure.congr
    intro x
    rw [hupdate]
    by_cases ho : j.owner = guid
    · have e : j = ⟨.players, guid, j.key⟩ := by
        cases j
        simp only at hp ho
        rw [hp, ho]
      have hk : j.key ≠ 0 := by
        intro hk
        rw [hk] at e
        exact hj e
      rw [e]
      exact h.players hk x
    · exact h.elsewhere ho x
  · exact (h.stable hp).congr hupdate

theorem save_cell (h : Parts guid parts) {e : Table × List Stmt} (he : e ∈ parts) {j : Cell} (hj : j.table = e.1)
    {db db' : Database} (hrun : executeAll (.update .players guid sets :: parts.flatMap (·.2)) db = some db') :
    cellRun j (e.2.flatMap Stmt.ops) (db j) = some (db' j) := by
  have hne : ¬ playerCell guid = j := by
    intro e'
    apply h.apart e he
    rw [← hj, ← e']
    rfl
  unfold executeAll at hrun
  rw [save_ops] at hrun
  have hcell := runOps_eq_some_iff.mp hrun j
  rw [← h.cellRun_part he hj]
  simpa [cellRun, Op.cell, hne] using hcell

theorem replay_update_parts (h : Parts guid parts) {db db' : Database}
    (hrun : executeAll (.update .players guid sets :: parts.flatMap (·.2)) db = some db') :
    updateRows (assignAll sets) (db (playerCell guid)) = some (db' (playerCell guid)) ∧
      (replay (.update .players guid sets :: parts.flatMap (·.2)) db' = db' ↔
        updateRows (assignAll sets) (db' (playerCell guid)) = none ∨
          updateRows (assignAll sets) (db' (playerCell guid)) = some (db' (playerCell guid))) := by
  unfold replay
  unfold executeAll at hrun ⊢
  rw [save_ops] at hrun ⊢
  have hcell : ∀ x, cellRun (playerCell guid) (.modify (playerCell guid) (updateRows (assignAll sets)) :: partsOps parts)
      x = (updateRows (assignAll sets) x).bind (cellRun (playerCell guid) (partsOps parts)) := by
    simp [cellRun, Op.cell]
  have hfirst := runOps_eq_some_iff.mp hrun (playerCell guid)
  rw [hcell, Option.bind_eq_some_iff] at hfirst
  obtain ⟨y, hy, hparts⟩ := hfirst
  have hyd : y = db' (playerCell guid) := by
    rcases h.player y with e | ⟨_, e⟩
    · rw [e] at hparts
      exact Option.some.inj hparts
    · rw [e] at hparts
      cases hparts
  subst hyd
  refine ⟨hy, ?_⟩
  rw [runOps_again hrun fun j hj => save_stable h hj, hcell]
  cases hz : updateRows (assignAll sets) (db' (playerCell guid)) with
  | none => simp
  | some z =>
    -- The checks of the other parts find the row as they found it the first time.
    have hpass : cellRun (playerCell guid) (partsOps parts) z = some z := by
      rcases h.player z with e | ⟨hnil, e⟩
      · exact e
      rw [(updateRows_eq_nil hz).mp hnil] at hparts
      rw [hnil] at e
      rw [hparts] at e
      cases e
    rw [Option.bind_some, hpass, Option.map_some, Option.getD_some]
    simp only [reduceCtorEq, Option.some.injEq, false_or]
    constructor
    · intro e
      rw [← congrFun e (playerCell guid), update_self]
    · rintro rfl
      exact update_eq_self _ _

end

end Backlands.Db
