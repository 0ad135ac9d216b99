/-
  Backlands.World.SpectatorVec — the vector of creatures that see something
  (src/spectators.h, src/spectators.cpp).

  A creature is the pointer to it, null is `none`. `getPlayer` and `getMonster` say whether
  those calls give anything, so that what is neither counts with the npcs. `std::partition`
  leaves open in which order the two groups come: it is a parameter (`Partition`). Following a
  null pointer, or handing one to a predicate, is `none`.

  Proved: in every state the spans of a partitioned vector are its players, monsters and npcs
  (`sound_run`), and no pointer is null where it is followed; merging, erasing and filtering
  change the vector as they should (`calls_spec`). Merging an empty vector or the vector
  itself changes nothing, so that creatures that were there twice stay twice.
-/

import Backlands.Lib.Buckets
import Mathlib.Data.List.ReduceOption
import Mathlib.Data.List.Nodup

namespace Backlands.World

open Backlands.Lib List

/-- `std::partition`: those that satisfy the predicate first, in any order. -/
structure Partition (α : Type*) where
  partition : (α → Bool) → List α → List α × List α
  perm : ∀ p l, ((partition p l).1 ++ (partition p l).2).Perm l
  first : ∀ p l, ∀ a ∈ (partition p l).1, p a = true
  second : ∀ p l, ∀ a ∈ (partition p l).2, p a = false

structure SpectatorVec (α : Type*) where
  vec : List (Option α)
  playerEnd_ : Nat
  monsterEnd_ : Nat
  partitioned_ : Bool

/-- What `addSpectators` is given: the vector itself, or the elements of another. -/
inductive Source (α : Type*) where
  | this
  | other (vec : List (Option α))

namespace SpectatorVec

variable {α : Type*}

def empty : SpectatorVec α := ⟨[], 0, 0, false⟩

/-! ## The calls -/

/-- The order of `std::sort`, by address with null the lowest. -/
def before [LinearOrder α] : Option α → Option α → Bool
  | none, _ => true
  | some _, none => false
  | some a, some b => a ≤ b

/-- `std::unique`. -/
def unique [DecidableEq α] : List α → List α
  | [] => []
  | [a] => [a]
  | a :: b :: l => if a = b then unique (b :: l) else a :: unique (b :: l)

def addSpectators [LinearOrder α] (spectators : Source α) (s : SpectatorVec α) : SpectatorVec α :=
  match spectators with
  | .this => s
  | .other vec =>
    if vec.isEmpty then s
    else
      { s with
        vec := unique (((s.vec ++ vec).filter Option.isSome).mergeSort before)
        partitioned_ := false }

def erase [DecidableEq α] (spectator : Option α) (s : SpectatorVec α) : SpectatorVec α :=
  if spectator ∈ s.vec then { s with vec := Buckets.swapPop spectator s.vec, partitioned_ := false } else s

def emplace_back (c : Option α) (s : SpectatorVec α) : SpectatorVec α :=
  if c.isSome then { s with vec := s.vec ++ [c], partitioned_ := false } else s

def emplaceNull (s : SpectatorVec α) : SpectatorVec α := { s with vec := s.vec ++ [none], partitioned_ := false }

def partitionByType (getPlayer getMonster : α → Bool) (std : Partition α) (s : SpectatorVec α) : SpectatorVec α :=
  let players := std.partition getPlayer s.vec.reduceOption
  let monsters := std.partition getMonster players.2
  { vec := (players.1 ++ (monsters.1 ++ monsters.2)).map some
    playerEnd_ := players.1.length
    monsterEnd_ := players.1.length + monsters.1.length
    partitioned_ := true }

def swap (vec : List α) (i j : Nat) : List α :=
  match vec[i]?, vec[j]? with
  | some a, some b => (vec.set i b).set j a
  | _, _ => vec

/-- The loop of `filterPlayers` over the `n` players from `readIndex` on. -/
def filterLoop (getPlayer : α → Bool) (pred : α → Bool) :
    Nat → Nat → Nat → List (Option α) → Option (Nat × List (Option α))
  | 0, _, writeIndex, vec => some (writeIndex, vec)
  | n + 1, readIndex, writeIndex, vec =>
    match vec[readIndex]? with
    | some (some player) =>
      if !getPlayer player then none
      else if !pred player then filterLoop getPlayer pred n (readIndex + 1) writeIndex vec
      else
        filterLoop getPlayer pred n (readIndex + 1) (writeIndex + 1)
          (if writeIndex ≠ readIndex then swap vec writeIndex readIndex else vec)
    | _ => none

def filterPlayers (getPlayer getMonster : α → Bool) (std : Partition α) (pred : α → Bool) (s : SpectatorVec α) :
    Option (SpectatorVec α) :=
  let s := if !s.partitioned_ then s.partitionByType getPlayer getMonster std else s
  (filterLoop getPlayer pred s.playerEnd_ 0 0 s.vec).map fun (writeIndex, vec) =>
    let removedPlayers := s.playerEnd_ - writeIndex
    if removedPlayers = 0 then { s with vec := vec }
    else
      { s with
        vec := vec.take writeIndex ++ vec.drop s.playerEnd_
        playerEnd_ := writeIndex
        monsterEnd_ := s.monsterEnd_ - removedPlayers }

def players (s : SpectatorVec α) : List (Option α) := s.vec.take s.playerEnd_

def monsters (s : SpectatorVec α) : List (Option α) := (s.vec.drop s.playerEnd_).take (s.monsterEnd_ - s.playerEnd_)

def npcs (s : SpectatorVec α) : List (Option α) := (s.vec.drop s.monsterEnd_).take (s.vec.length - s.monsterEnd_)

/-! ## Merging and erasing -/

section
variable [LinearOrder α] {s : SpectatorVec α}

theorem before_total (a b : Option α) : (before a b || before b a) = true := by
  cases a with
  | none => simp [before]
  | some a =>
    cases b with
    | none => simp [before]
    | some b => simpa [before] using le_total a b

theorem before_trans (a b c : Option α) (hab : before a b = true) (hbc : before b c = true) : before a c = true := by
  cases a with
  | none => rfl
  | some a =>
    cases b with
    | none => cases hab
    | some b =>
      cases c with
      | none => cases hbc
      | some c =>
        simp only [before, decide_eq_true_eq] at hab hbc ⊢
        exact le_trans hab hbc

theorem before_antisymm {a b : Option α} (hab : before a b = true) (hba : before b a = true) : a = b := by
  cases a with
  | none =>
    cases b with
    | none => rfl
    | some b => cases hba
  | some a =>
    cases b with
    | none => cases hab
    | some b =>
      simp only [before, decide_eq_true_eq] at hab hba
      rw [le_antisymm hab hba]

theorem mem_unique {β : Type*} [DecidableEq β] {a : β} {l : List β} : a ∈ unique l ↔ a ∈ l := by
  fun_induction unique l with
  | case1 => simp
  | case2 b => simp
  | case3 b l ih => simp [ih]
  | case4 b c l hbc ih => simp [ih]

theorem nodup_unique {β : Type*} [DecidableEq β] {r : β → β → Prop} (hr : ∀ a b, r a b → r b a → a = b) {l : List β}
    (h : l.Pairwise r) : (unique l).Nodup := by
  fun_induction unique l with
  | case1 => exact nodup_nil
  | case2 b => exact nodup_singleton b
  | case3 b l ih => exact ih (pairwise_cons.mp h).2
  | case4 a b l hne ih =>
    rcases pairwise_cons.mp h with ⟨ha, hl⟩
    rw [nodup_cons, mem_unique]
    refine ⟨?_, ih hl⟩
    intro hmem
    rcases mem_cons.mp hmem with hab | hal
    · exact hne hab
    · exact hne (hr a b (ha b mem_cons_self) ((pairwise_cons.mp hl).1 a hal))

theorem addSpectators_spec {vec : List (Option α)} (h : vec ≠ []) (s : SpectatorVec α) :
    (s.addSpectators (.other vec)).vec.Nodup ∧
      ∀ e, e ∈ (s.addSpectators (.other vec)).vec ↔ e ≠ none ∧ (e ∈ s.vec ∨ e ∈ vec) := by
  have he : vec.isEmpty = false := by simpa using h
  simp only [addSpectators, he, Bool.false_eq_true, if_false]
  constructor
  · refine nodup_unique (r := fun a b => before a b = true) (fun _ _ => before_antisymm) ?_
    exact pairwise_mergeSort before_trans before_total _
  · intro e
    rw [mem_unique, mem_mergeSort, mem_filter, mem_append, and_comm, Option.isSome_iff_ne_none]

theorem erase_spec {spectator : Option α} (h : spectator ∈ s.vec) :
    s.vec.Perm (spectator :: (s.erase spectator).vec) := by
  rw [erase, if_pos h]
  exact Buckets.swapPop_perm h

end

/-! ## Filtering -/

theorem swap_eq (l₁ l₂ l₃ : List α) (a b : α) :
    swap (l₁ ++ a :: (l₂ ++ b :: l₃)) l₁.length (l₁.length + (l₂.length + 1)) = l₁ ++ b :: (l₂ ++ a :: l₃) := by
  simp [swap]

section
variable {getPlayer getMonster pred : α → Bool}

theorem filterLoop_eq (pred : α → Bool) (todo : List α) (htodo : ∀ c ∈ todo, getPlayer c = true) (kept passed rest : List (Option α)) :
    ∃ passed' : List (Option α), passed'.length + (todo.filter pred).length = passed.length + todo.length ∧
      filterLoop getPlayer pred todo.length (kept.length + passed.length) kept.length
        (kept ++ (passed ++ (todo.map some ++ rest))) =
      some (kept.length + (todo.filter pred).length, kept ++ ((todo.filter pred).map some ++ (passed' ++ rest))) := by
  induction todo generalizing kept passed with
  | nil => exact ⟨passed, by simp, by simp [filterLoop]⟩
  | cons c todo ih =>
    have hc := htodo c mem_cons_self
    have htodo := fun d hd => htodo d (mem_cons_of_mem _ hd)
    have hread : (kept ++ (passed ++ ((c :: todo).map some ++ rest)))[kept.length + passed.length]? = some (some c) := by
      simp
    rw [length_cons, filterLoop, hread]
    simp only [hc, Bool.not_true, Bool.false_eq_true, if_false]
    by_cases hp : pred c
    · -- the player goes behind those kept, the first that was passed over takes its place
      rw [if_neg (by simpa using hp), filter_cons_of_pos hp]
      cases passed with
      | nil =>
        rcases ih htodo (kept ++ [some c]) [] with ⟨passed', hlen, he⟩
        refine ⟨passed', by simpa [Nat.add_assoc] using congrArg Nat.succ hlen, ?_⟩
        simpa [Nat.add_comm, Nat.add_left_comm] using he
      | cons first passed =>
        rcases ih htodo (kept ++ [some c]) (passed ++ [first]) with ⟨passed', hlen, he⟩
        refine ⟨passed', ?_, ?_⟩
        · simp only [length_append, length_cons, length_nil] at hlen ⊢
          omega
        have hswap := swap_eq kept passed (todo.map some ++ rest) first (some c)
        simp only [cons_append, map_cons, length_cons] at hswap ⊢
        rw [hswap]
        simpa [Nat.add_comm, Nat.add_left_comm] using he
    · rw [if_pos (by simpa using hp), filter_cons_of_neg hp]
      rcases ih htodo kept (passed ++ [some c]) with ⟨passed', hlen, he⟩
      refine ⟨passed', ?_, ?_⟩
      · simp only [length_append, length_cons, length_nil] at hlen ⊢
        omega
      · simpa [Nat.add_assoc] using he

structure Spans (getPlayer getMonster : α → Bool) (s : SpectatorVec α) (ps ms ns : List α) : Prop where
  vec : s.vec = (ps ++ (ms ++ ns)).map some
  playerEnd : s.playerEnd_ = ps.length
  monsterEnd : s.monsterEnd_ = ps.length + ms.length
  players : ∀ c ∈ ps, getPlayer c = true
  monsters : ∀ c ∈ ms, getPlayer c = false ∧ getMonster c = true
  npcs : ∀ c ∈ ns, getPlayer c = false ∧ getMonster c = false

variable {s : SpectatorVec α} {ps ms ns : List α}

theorem reduceOption_map_some (l : List α) : (l.map some).reduceOption = l := by
  induction l with
  | nil => rfl
  | cons c l ih => rw [map_cons, reduceOption_cons_of_some, ih]

theorem partitionByType_spans (getPlayer getMonster : α → Bool) (std : Partition α) (s : SpectatorVec α) :
    ∃ ps ms ns, Spans getPlayer getMonster (s.partitionByType getPlayer getMonster std) ps ms ns ∧
      (ps ++ (ms ++ ns)).Perm s.vec.reduceOption := by
  have hperm := std.perm getMonster (std.partition getPlayer s.vec.reduceOption).2
  have hsecond : ∀ c, c ∈ (std.partition getMonster (std.partition getPlayer s.vec.reduceOption).2).1 ++
      (std.partition getMonster (std.partition getPlayer s.vec.reduceOption).2).2 → getPlayer c = false :=
    fun c hc => std.second _ _ c (hperm.subset hc)
  refine ⟨_, _, _, ⟨rfl, rfl, rfl, std.first _ _, ?_, ?_⟩, ?_⟩
  · intro c hc
    exact ⟨hsecond c (mem_append_left _ hc), std.first _ _ c hc⟩
  · intro c hc
    exact ⟨hsecond c (mem_append_right _ hc), std.second _ _ c hc⟩
  · exact (hperm.append_left _).trans (std.perm getPlayer s.vec.reduceOption)

theorem filterPlayers_partitioned (hs : Spans getPlayer getMonster s ps ms ns) (hp : s.partitioned_ = true)
    (std : Partition α) (pred : α → Bool) :
    ∃ t, s.filterPlayers getPlayer getMonster std pred = some t ∧ t.partitioned_ = true ∧
      Spans getPlayer getMonster t (ps.filter pred) ms ns := by
  rcases filterLoop_eq pred ps hs.players [] [] ((ms ++ ns).map some) with ⟨passed, hlen, he⟩
  have hloop : filterLoop getPlayer pred s.playerEnd_ 0 0 s.vec =
      some ((ps.filter pred).length, (ps.filter pred).map some ++ (passed ++ (ms ++ ns).map some)) := by
    rw [hs.playerEnd, hs.vec, map_append]
    simpa using he
  have hplayers : ∀ c ∈ ps.filter pred, getPlayer c = true := fun c hc => hs.players c (mem_of_mem_filter hc)
  simp only [length_nil, Nat.zero_add] at hlen
  unfold filterPlayers
  simp only [hp, Bool.not_true, Bool.false_eq_true, if_false, hloop, Option.map_some]
  refine ⟨_, rfl, ?_, ?_⟩
  · split
    · rfl
    · rfl
  split
  · next hnone =>
    have hpassed : passed = [] := by
      rw [hs.playerEnd] at hnone
      exact length_eq_zero_iff.mp (by omega)
    have hall : (ps.filter pred).length = ps.length := by
      rw [hs.playerEnd] at hnone
      omega
    refine ⟨?_, ?_, ?_, hplayers, hs.monsters, hs.npcs⟩
    · simp [hpassed]
    · exact hs.playerEnd.trans hall.symm
    · rw [hall]
      exact hs.monsterEnd
  · refine ⟨?_, rfl, ?_, hplayers, hs.monsters, hs.npcs⟩
    · have hdrop : ((ps.filter pred).map some ++ (passed ++ (ms ++ ns).map some)).drop s.playerEnd_ =
          (ms ++ ns).map some := by
        rw [hs.playerEnd, ← append_assoc, drop_left']
        simp only [length_append, length_map]
        omega
      rw [hdrop, take_left' (by simp), ← map_append]
    · show s.monsterEnd_ - (s.playerEnd_ - (ps.filter pred).length) = _
      rw [hs.monsterEnd, hs.playerEnd]
      omega

/-- What filtering leaves of the creatures, and of the entries. -/
def keeps (getPlayer pred : α → Bool) (c : α) : Bool := !getPlayer c || pred c

def stays (getPlayer pred : α → Bool) : Option α → Bool
  | none => false
  | some c => keeps getPlayer pred c

theorem filter_stays (l : List (Option α)) :
    l.filter (stays getPlayer pred) = (l.reduceOption.filter (keeps getPlayer pred)).map some := by
  induction l with
  | nil => rfl
  | cons e l ih =>
    cases e with
    | none =>
      rw [reduceOption_cons_of_none, ← ih]
      rfl
    | some c =>
      rw [reduceOption_cons_of_some, filter_cons, filter_cons, ih]
      show (if keeps getPlayer pred c = true then _ else _) = _
      split
      · rfl
      · rfl

theorem Spans.filter (hs : Spans getPlayer getMonster s ps ms ns) :
    (ps ++ (ms ++ ns)).filter (keeps getPlayer pred) = ps.filter pred ++ (ms ++ ns) := by
  have hps : ps.filter (keeps getPlayer pred) = ps.filter pred :=
    filter_congr fun c hc => by simp [keeps, hs.players c hc]
  have hrest : (ms ++ ns).filter (keeps getPlayer pred) = ms ++ ns := by
    refine filter_eq_self.mpr fun c hc => ?_
    rcases mem_append.mp hc with hc | hc
    · simp [keeps, (hs.monsters c hc).1]
    · simp [keeps, (hs.npcs c hc).1]
  rw [filter_append, hps, hrest]

/-- A vector that is said to be partitioned is. -/
def Sound (getPlayer getMonster : α → Bool) (s : SpectatorVec α) : Prop :=
  s.partitioned_ = true → ∃ ps ms ns, Spans getPlayer getMonster s ps ms ns

theorem filterPlayers_spec (h : Sound getPlayer getMonster s) (std : Partition α) (pred : α → Bool) :
    ∃ t, s.filterPlayers getPlayer getMonster std pred = some t ∧ Sound getPlayer getMonster t ∧
      t.vec.Perm (s.vec.filter (stays getPlayer pred)) := by
  have hmain : ∀ s' : SpectatorVec α, s'.partitioned_ = true → ∀ ps ms ns, Spans getPlayer getMonster s' ps ms ns →
      (ps ++ (ms ++ ns)).Perm s.vec.reduceOption →
      ∃ t, s'.filterPlayers getPlayer getMonster std pred = some t ∧ Sound getPlayer getMonster t ∧
        t.vec.Perm (s.vec.filter (stays getPlayer pred)) := by
    intro s' hp ps ms ns hs hperm
    rcases filterPlayers_partitioned hs hp std pred with ⟨t, he, -, ht⟩
    refine ⟨t, he, fun _ => ⟨_, _, _, ht⟩, ?_⟩
    rw [ht.vec, filter_stays, ← hs.filter]
    exact (hperm.filter _).map some
  cases hp : s.partitioned_ with
  | true =>
    rcases h hp with ⟨ps, ms, ns, hs⟩
    refine hmain s hp ps ms ns hs ?_
    rw [hs.vec, reduceOption_map_some]
  | false =>
    rcases partitionByType_spans getPlayer getMonster std s with ⟨ps, ms, ns, hs, hperm⟩
    rcases hmain _ rfl ps ms ns hs hperm with ⟨t, he, ht⟩
    refine ⟨t, ?_, ht⟩
    rw [← he, filterPlayers, filterPlayers, hp]
    rfl

/-- The spans are the players, the monsters and the npcs of the vector, none of them null. -/
structure Partitioned (getPlayer getMonster : α → Bool) (s : SpectatorVec α) : Prop where
  split : s.players ++ (s.monsters ++ s.npcs) = s.vec
  ends : s.playerEnd_ ≤ s.monsterEnd_ ∧ s.monsterEnd_ ≤ s.vec.length
  players : ∀ e ∈ s.players, ∃ c, e = some c ∧ getPlayer c = true
  monsters : ∀ e ∈ s.monsters, ∃ c, e = some c ∧ getPlayer c = false ∧ getMonster c = true
  npcs : ∀ e ∈ s.npcs, ∃ c, e = some c ∧ getPlayer c = false ∧ getMonster c = false

theorem Spans.partitioned (hs : Spans getPlayer getMonster s ps ms ns) : Partitioned getPlayer getMonster s := by
  have hplayers : s.players = ps.map some := by
    simp [SpectatorVec.players, hs.vec, hs.playerEnd]
  have hmonsters : s.monsters = ms.map some := by
    simp [SpectatorVec.monsters, hs.vec, hs.playerEnd, hs.monsterEnd]
  have hnpcs : s.npcs = ns.map some := by
    simp only [SpectatorVec.npcs, hs.vec, hs.monsterEnd, ← append_assoc, map_append]
    rw [drop_left' (by simp), take_of_length_le]
    simp
    omega
  refine ⟨?_, ?_, ?_, ?_, ?_⟩
  · rw [hplayers, hmonsters, hnpcs, hs.vec]
    simp
  · rw [hs.playerEnd, hs.monsterEnd, hs.vec]
    simp
  · rw [hplayers]
    intro e he
    rcases mem_map.mp he with ⟨c, hc, rfl⟩
    exact ⟨c, rfl, hs.players c hc⟩
  · rw [hmonsters]
    intro e he
    rcases mem_map.mp he with ⟨c, hc, rfl⟩
    exact ⟨c, rfl, hs.monsters c hc⟩
  · rw [hnpcs]
    intro e he
    rcases mem_map.mp he with ⟨c, hc, rfl⟩
    exact ⟨c, rfl, hs.npcs c hc⟩

/-! ## Runs -/

inductive Op (α : Type*) where
  | emplace_back (c : Option α)
  | emplaceNull
  | addSpectators (spectators : Source α)
  | erase (spectator : Option α)
  | partitionByType
  | filterPlayers (pred : α → Bool)

variable [LinearOrder α]

def step (getPlayer getMonster : α → Bool) (std : Partition α) (s : SpectatorVec α) : Op α → Option (SpectatorVec α)
  | .emplace_back c => some (s.emplace_back c)
  | .emplaceNull => some s.emplaceNull
  | .addSpectators spectators => some (s.addSpectators spectators)
  | .erase spectator => some (s.erase spectator)
  | .partitionByType => some (s.partitionByType getPlayer getMonster std)
  | .filterPlayers pred => s.filterPlayers getPlayer getMonster std pred

def run (getPlayer getMonster : α → Bool) (std : Partition α) (ops : List (Op α)) (s : SpectatorVec α) :
    Option (SpectatorVec α) :=
  ops.foldlM (step getPlayer getMonster std) s

theorem Sound.step (h : Sound getPlayer getMonster s) (std : Partition α) (op : Op α) :
    ∃ t, step getPlayer getMonster std s op = some t ∧ Sound getPlayer getMonster t := by
  cases op with
  | emplace_back c =>
    refine ⟨_, rfl, ?_⟩
    unfold SpectatorVec.emplace_back
    split
    · intro hp
      cases hp
    · exact h
  | emplaceNull => exact ⟨_, rfl, fun hp => by cases hp⟩
  | addSpectators spectators =>
    refine ⟨_, rfl, ?_⟩
    unfold SpectatorVec.addSpectators
    split
    · exact h
    split
    · exact h
    · intro hp
      cases hp
  | erase spectator =>
    refine ⟨_, rfl, ?_⟩
    unfold SpectatorVec.erase
    split
    · intro hp
      cases hp
    · exact h
  | partitionByType =>
    rcases partitionByType_spans getPlayer getMonster std s with ⟨ps, ms, ns, hs, -⟩
    exact ⟨_, rfl, fun _ => ⟨ps, ms, ns, hs⟩⟩
  | filterPlayers pred =>
    rcases filterPlayers_spec h std pred with ⟨t, he, ht, -⟩
    exact ⟨t, he, ht⟩

theorem sound_run (h : Sound getPlayer getMonster s) (std : Partition α) (ops : List (Op α)) :
    ∃ t, run getPlayer getMonster std ops s = some t ∧ Sound getPlayer getMonster t := by
  induction ops generalizing s with
  | nil => exact ⟨s, rfl, h⟩
  | cons op ops ih =>
    rcases h.step std op with ⟨s', he, hs'⟩
    rcases ih hs' with ⟨t, hrun, ht⟩
    refine ⟨t, ?_, ht⟩
    rw [run, foldlM_cons, he]
    exact hrun

/-- After any calls: the spans are right, a merge leaves every creature of the two vectors once
unless there is nothing to merge, an erasure takes out one occurrence, and a filter the players
that fail and the null pointers. -/
theorem calls_spec (getPlayer getMonster : α → Bool) (std : Partition α) (ops : List (Op α)) :
    ∃ s, run getPlayer getMonster std ops empty = some s ∧
      (s.partitioned_ = true → Partitioned getPlayer getMonster s) ∧
      (s.addSpectators .this = s ∧ s.addSpectators (.other []) = s ∧
        ∀ vec ≠ [], (s.addSpectators (.other vec)).vec.Nodup ∧
          ∀ e, e ∈ (s.addSpectators (.other vec)).vec ↔ e ≠ none ∧ (e ∈ s.vec ∨ e ∈ vec)) ∧
      (∀ spectator, if spectator ∈ s.vec then s.vec.Perm (spectator :: (s.erase spectator).vec)
        else s.erase spectator = s) ∧
      ∀ pred, ∃ t, s.filterPlayers getPlayer getMonster std pred = some t ∧
        t.vec.Perm (s.vec.filter (stays getPlayer pred)) := by
  have hempty : Sound getPlayer getMonster (empty : SpectatorVec α) := fun hp => by cases hp
  rcases sound_run hempty std ops with ⟨s, he, hs⟩
  refine ⟨s, he, ?_, ⟨rfl, rfl, fun vec hvec => addSpectators_spec hvec s⟩, ?_, ?_⟩
  · intro hp
    rcases hs hp with ⟨ps, ms, ns, hspans⟩
    exact hspans.partitioned
  · intro spectator
    split
    · next hmem => exact erase_spec hmem
    · next hmem => exact if_neg hmem
  · intro pred
    rcases filterPlayers_spec hs std pred with ⟨t, ht, -, hperm⟩
    exact ⟨t, ht, hperm⟩

end

/-- The partition that keeps the order in both groups. -/
def stable : Partition α where
  partition p l := (l.filter p, l.filter fun a => !p a)
  perm p l := filter_append_perm p l
  first p l a ha := (mem_filter.mp ha).2
  second p l a ha := by simpa using (mem_filter.mp ha).2

/-- A creature that was put in twice is there twice after the merge of an empty vector; and a
filter that every player passes takes a null pointer out. -/
theorem merge_empty_twice :
    (∃ s, run (fun _ => true) (fun _ => false) stable
        [.emplace_back (some 1), .emplace_back (some 1), .addSpectators (.other [])] empty = some s ∧
      s.vec = [some 1, some 1]) ∧
    ∃ s, run (fun _ => true) (fun _ => false) stable
        [.emplace_back (some 1), .emplaceNull, .filterPlayers fun _ => true] empty = some s ∧ s.vec = [some 1] :=
  ⟨⟨_, rfl, rfl⟩, ⟨_, rfl, rfl⟩⟩

end SpectatorVec

end Backlands.World
