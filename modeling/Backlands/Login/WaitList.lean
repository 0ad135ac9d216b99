/-
  Backlands.Login.WaitList — the queue in front of a full server (src/protocolgame.cpp).

  `waitList` holds a timeout and a guid for each waiting player and `priorityCount` says how many of
  them came in as premium. An entry carries as well whether it was inserted as premium, which the
  source does not keep: it is what `priorityCount` is meant to count.

  The pass over the expired entries compares an entry's index in the old list with a counter that
  goes down as it counts, so a premium entry that is reached when the counter has fallen to its
  index is removed and not counted.

  Proved: `waitList_inOrder`. Counterexample: `expired_together`.
-/

import Backlands.Lib.Runs
import Mathlib.Data.List.Perm.Basic

namespace Backlands.Login.WaitList

open Backlands.Lib List

/-- A pair of `waitList`, and whether the player was inserted as premium. -/
structure Entry where
  timeout : Int
  guid : UInt32
  premium : Bool
  deriving DecidableEq, Repr

/-- The two variables at the top of the file. -/
structure Queue where
  waitList : List Entry := []
  priorityCount : Nat := 0
  deriving DecidableEq, Repr

/-- What `clientLogin` reads: the player, the configuration, the game and the clock. -/
structure Caller where
  guid : UInt32
  canAlwaysLogin : Bool := false
  accountType : UInt8 := 1
  premium : Bool
  MAX_PLAYERS : Int
  playersOnline : Nat
  time : Int

def ACCOUNT_TYPE_GAMEMASTER : UInt8 := 4

def getWaitTime (slot : Nat) : Int :=
  if slot < 5 then 5
  else if slot < 10 then 10
  else if slot < 20 then 20
  else if slot < 50 then 60
  else 120

def getTimeout (slot : Nat) : Int := getWaitTime slot + 15

def Entry.expired (time : Int) (entry : Entry) : Bool := decide (entry.timeout - time ≤ 0)

/-- `std::erase_if(waitList, ..)` from `index` on, with `priorityCount` as it goes. -/
def eraseExpired (time : Int) : Nat → Nat → List Entry → List Entry × Nat
  | _, priorityCount, [] => ([], priorityCount)
  | index, priorityCount, entry :: rest =>
    if entry.expired time then
      eraseExpired time (index + 1)
        (if index < priorityCount ∧ 0 < priorityCount then priorityCount - 1 else priorityCount) rest
    else
      let (kept, priorityCount) := eraseExpired time (index + 1) priorityCount rest
      (entry :: kept, priorityCount)

/-- The index of the player's entry; its slot is one more. -/
def findClient (guid : UInt32) (waitList : List Entry) : Option Nat := waitList.findIdx? (·.guid == guid)

def Caller.maxPlayers (c : Caller) : Nat := (c.MAX_PLAYERS % 2 ^ 32).toNat

/-- The calls that return before they look at the list. -/
def Queue.direct (s : Queue) (c : Caller) : Bool :=
  c.canAlwaysLogin || decide (ACCOUNT_TYPE_GAMEMASTER ≤ c.accountType) || decide (c.maxPlayers = 0) ||
    (s.waitList.isEmpty && decide (c.playersOnline < c.maxPlayers))

/-- The rest of the call, once the expired entries are gone. -/
def enter (c : Caller) (s : Queue) : Nat × Queue :=
  match findClient c.guid s.waitList with
  | some i =>
    let slot := i + 1
    if c.playersOnline + slot ≤ c.maxPlayers then
      (0, { waitList := s.waitList.eraseIdx i
            priorityCount := if slot ≤ s.priorityCount ∧ 0 < s.priorityCount then s.priorityCount - 1
              else s.priorityCount })
    else
      (slot, { s with waitList := s.waitList.modify i fun entry =>
        { entry with timeout := c.time + getTimeout slot * 1000 } })
  | none =>
    if c.premium then
      let insertIndex := min s.priorityCount s.waitList.length
      (s.priorityCount + 1,
        { waitList := s.waitList.insertIdx insertIndex
            ⟨c.time + getTimeout (insertIndex + 1) * 1000, c.guid, true⟩
          priorityCount := s.priorityCount + 1 })
    else
      (s.waitList.length + 1,
        { s with waitList := s.waitList ++
          [⟨c.time + getTimeout (s.waitList.length + 1) * 1000, c.guid, false⟩] })

/-- `clientLogin`: the slot it returns (0 lets the player in) and what it leaves. -/
def clientLogin (s : Queue) (c : Caller) : Nat × Queue :=
  if s.direct c then (0, s)
  else
    let (waitList, priorityCount) := eraseExpired c.time 0 s.priorityCount s.waitList
    enter c ⟨waitList, priorityCount⟩

/-! ## The list in order -/

structure InOrder (s : Queue) : Prop where
  nodup : (s.waitList.map (·.guid)).Nodup
  count : s.priorityCount = s.waitList.countP (·.premium)
  first : ∀ entry ∈ s.waitList.take s.priorityCount, entry.premium = true

variable {s : Queue}

theorem inOrder_iff : InOrder s ↔ (s.waitList.map (·.guid)).Nodup ∧
    ∃ ps fs, s.waitList = ps ++ fs ∧ ps.length = s.priorityCount ∧ (∀ e ∈ ps, e.premium = true) ∧
      ∀ e ∈ fs, e.premium = false := by
  constructor
  · intro h
    have hlen : s.priorityCount ≤ s.waitList.length := h.count ▸ countP_le_length
    have htake : (s.waitList.take s.priorityCount).countP (·.premium) = s.priorityCount := by
      rw [countP_eq_length.mpr h.first, length_take]
      omega
    have hcount := h.count
    rw [← take_append_drop s.priorityCount s.waitList, countP_append, htake] at hcount
    have hdrop : (s.waitList.drop s.priorityCount).countP (·.premium) = 0 := by
      omega
    refine ⟨h.nodup, _, _, (take_append_drop s.priorityCount s.waitList).symm, ?_, h.first, ?_⟩
    · rw [length_take]
      omega
    · intro e he
      exact Bool.eq_false_iff.mpr (countP_eq_zero.mp hdrop e he)
  · rintro ⟨hn, ps, fs, hl, hlen, hp, hf⟩
    refine ⟨hn, ?_, ?_⟩
    · have hfs : fs.countP (·.premium) = 0 := countP_eq_zero.mpr fun e he => by simp [hf e he]
      rw [hl, countP_append, countP_eq_length.mpr hp, hfs, hlen, Nat.add_zero]
    · rw [hl, ← hlen, take_left]
      exact hp

/-- Every expired entry among the premium ones is reached while the counter is above its index. -/
def CountsExpired (s : Queue) (time : Int) : Prop :=
  ∀ i < s.priorityCount, ∀ e ∈ s.waitList[i]?, e.expired time = true →
    i + (s.waitList.take i).countP (Entry.expired time) < s.priorityCount

/-! ## The pass over the expired entries -/

variable {e : Entry}

theorem eraseExpired_gone {time : Int} (he : e.expired time = true) (index pc : Nat) (l : List Entry) :
    eraseExpired time index pc (e :: l) =
      eraseExpired time (index + 1) (if index < pc ∧ 0 < pc then pc - 1 else pc) l := if_pos he

theorem eraseExpired_kept {time : Int} (he : ¬ e.expired time = true) (index pc : Nat) (l : List Entry) :
    eraseExpired time index pc (e :: l) =
      (e :: (eraseExpired time (index + 1) pc l).1, (eraseExpired time (index + 1) pc l).2) := if_neg he

theorem eraseExpired_list (time : Int) (index pc : Nat) (l : List Entry) :
    (eraseExpired time index pc l).1 = l.filter fun e => !e.expired time := by
  induction l generalizing index pc with
  | nil => rfl
  | cons e l ih =>
    by_cases he : e.expired time = true
    · rw [eraseExpired_gone he, ih, filter_cons, if_neg (by simp [he])]
    · rw [eraseExpired_kept he, ih, filter_cons, if_pos (by simpa using he)]

theorem eraseExpired_append (time : Int) (index pc : Nat) (ps fs : List Entry) :
    (eraseExpired time index pc (ps ++ fs)).2 =
      (eraseExpired time (index + ps.length) (eraseExpired time index pc ps).2 fs).2 := by
  induction ps generalizing index pc with
  | nil => rfl
  | cons e ps ih =>
    have hidx : index + (e :: ps).length = index + 1 + ps.length := by
      rw [length_cons]
      omega
    rw [cons_append, hidx]
    by_cases he : e.expired time = true
    · rw [eraseExpired_gone he, eraseExpired_gone he, ih]
    · rw [eraseExpired_kept he, eraseExpired_kept he]
      exact ih (index + 1) pc

theorem eraseExpired_past (time : Int) {index pc : Nat} (h : pc ≤ index) (l : List Entry) :
    (eraseExpired time index pc l).2 = pc := by
  induction l generalizing index with
  | nil => rfl
  | cons e l ih =>
    by_cases he : e.expired time = true
    · rw [eraseExpired_gone he, if_neg (by omega), ih (by omega)]
    · rw [eraseExpired_kept he]
      exact ih (by omega)

theorem eraseExpired_le (time : Int) (index pc : Nat) (l : List Entry) :
    (eraseExpired time index pc l).2 ≤ pc := by
  induction l generalizing index pc with
  | nil => exact le_rfl
  | cons e l ih =>
    by_cases he : e.expired time = true
    · rw [eraseExpired_gone he]
      grind
    · rw [eraseExpired_kept he]
      exact ih (index + 1) pc

/-- The counter goes down by the expired entries exactly when each is reached below it. -/
theorem eraseExpired_counts (time : Int) (index pc : Nat) (l : List Entry) :
    (eraseExpired time index pc l).2 + l.countP (Entry.expired time) = pc ↔
      ∀ i < l.length, ∀ e ∈ l[i]?, e.expired time = true →
        index + i + (l.take i).countP (Entry.expired time) < pc := by
  induction l generalizing index pc with
  | nil => simp [eraseExpired]
  | cons e l ih =>
    rw [countP_cons]
    by_cases he : e.expired time = true
    · rw [eraseExpired_gone he, if_pos he]
      by_cases hlt : index < pc
      · rw [if_pos ⟨hlt, by omega⟩]
        have hiff := ih (index + 1) (pc - 1)
        constructor
        · intro hsum i hi d hd hx
          cases i with
          | zero => simpa using hlt
          | succ i =>
            have := hiff.mp (by omega) i (by simpa using hi) d (by simpa using hd) hx
            rw [take_succ_cons, countP_cons, if_pos he]
            omega
        · intro hall
          have := hiff.mpr fun i hi d hd hx => by
            have := hall (i + 1) (by simpa using hi) d (by simpa using hd) hx
            rw [take_succ_cons, countP_cons, if_pos he] at this
            omega
          omega
      · rw [if_neg (fun h => hlt h.1), eraseExpired_past time (by omega)]
        constructor
        · omega
        · intro hall
          exact absurd (hall 0 (by simp) e (by simp) he) (by simpa using hlt)
    · rw [eraseExpired_kept he, if_neg he]
      have hiff := ih (index + 1) pc
      constructor
      · intro hsum i hi d hd hx
        cases i with
        | zero =>
          obtain rfl : e = d := by simpa using hd
          exact absurd hx he
        | succ i =>
          have := hiff.mp hsum i (by simpa using hi) d (by simpa using hd) hx
          rw [take_succ_cons, countP_cons, if_neg he]
          omega
      · intro hall
        refine hiff.mpr fun i hi d hd hx => ?_
        have := hall (i + 1) (by simpa using hi) d (by simpa using hd) hx
        rw [take_succ_cons, countP_cons, if_neg he] at this
        omega

theorem eraseExpired_inOrder_iff (h : InOrder s) (time : Int) :
    InOrder ⟨(eraseExpired time 0 s.priorityCount s.waitList).1,
      (eraseExpired time 0 s.priorityCount s.waitList).2⟩ ↔ CountsExpired s time := by
  obtain ⟨hn, ps, fs, hl, hlen, hp, hf⟩ := inOrder_iff.mp h
  have hcounts := eraseExpired_counts time 0 s.priorityCount ps
  have hkeep : (eraseExpired time 0 s.priorityCount (ps ++ fs)).1 =
      (ps.filter fun e => !e.expired time) ++ fs.filter fun e => !e.expired time := by
    rw [eraseExpired_list, filter_append]
  have hlast : (eraseExpired time 0 s.priorityCount (ps ++ fs)).2 =
      (eraseExpired time 0 s.priorityCount ps).2 := by
    rw [eraseExpired_append, eraseExpired_past]
    have := eraseExpired_le time 0 s.priorityCount ps
    omega
  have hgone : (ps.filter fun e => !e.expired time).length + ps.countP (Entry.expired time) = s.priorityCount := by
    have := length_eq_countP_add_countP (Entry.expired time) (l := ps)
    rw [← countP_eq_length_filter]
    simp only [← hlen, this, Bool.not_eq_true, Bool.decide_eq_false]
    omega
  have hcond : CountsExpired s time ↔ ∀ i < ps.length, ∀ e ∈ ps[i]?, e.expired time = true →
      0 + i + (ps.take i).countP (Entry.expired time) < s.priorityCount := by
    unfold CountsExpired
    rw [hl, ← hlen]
    refine forall₂_congr fun i hi => ?_
    rw [getElem?_append_left hi, take_append_of_le_length (Nat.le_of_lt hi), Nat.zero_add]
  rw [hcond, ← hcounts, hl, hkeep, hlast]
  constructor
  · intro ho
    have hsum := ho.count
    have hnone : (fs.filter fun e => !e.expired time).countP (·.premium) = 0 :=
      countP_eq_zero.mpr fun e he => by simp [hf e (mem_filter.mp he).1]
    have hall : (ps.filter fun e => !e.expired time).countP (·.premium) =
        (ps.filter fun e => !e.expired time).length :=
      countP_eq_length.mpr fun e he => hp e (mem_filter.mp he).1
    simp only [countP_append, hnone, hall] at hsum
    omega
  · intro hsum
    refine inOrder_iff.mpr ⟨?_, _, _, rfl, ?_, ?_, ?_⟩
    · refine hn.sublist ?_
      rw [hl, ← filter_append]
      exact filter_sublist.map _
    · show (ps.filter fun e => !e.expired time).length = (eraseExpired time 0 s.priorityCount ps).2
      omega
    · exact fun e he => hp e (mem_filter.mp he).1
    · exact fun e he => hf e (mem_filter.mp he).1

/-! ## The rest of the call -/

theorem map_retimed {α : Type*} (g : Entry → α) (timeout : Int)
    (hg : ∀ e, g { e with timeout := timeout } = g e) (i : Nat) (l : List Entry) :
    (l.modify i fun e => { e with timeout := timeout }).map g = l.map g := by
  induction l generalizing i with
  | nil => rw [modify_nil]
  | cons e l ih =>
    cases i with
    | zero => rw [modify_zero_cons, map_cons, map_cons, hg]
    | succ i => rw [modify_succ_cons, map_cons, map_cons, ih]

theorem inOrder_retimed (h : InOrder s) (i : Nat) (timeout : Int) :
    InOrder { s with waitList := s.waitList.modify i fun e => { e with timeout := timeout } } := by
  have hflags := map_retimed (·.premium) timeout (fun _ => rfl) i s.waitList
  refine ⟨?_, ?_, ?_⟩
  · rw [map_retimed (·.guid) timeout (fun _ => rfl)]
    exact h.nodup
  · have hid (l : List Entry) : l.countP (·.premium) = (l.map (·.premium)).countP id := by
      rw [countP_map]
      rfl
    rw [hid, hflags, ← hid]
    exact h.count
  · intro e he
    have hmem : e.premium ∈ ((s.waitList.modify i fun e => { e with timeout := timeout }).map
        (·.premium)).take s.priorityCount := map_take ▸ mem_map_of_mem he
    rw [hflags, ← map_take] at hmem
    obtain ⟨d, hd, hde⟩ := mem_map.mp hmem
    rw [← hde]
    exact h.first d hd

/-- A player who is let in leaves the list, and the counter if its entry is below it. -/
theorem inOrder_erased (h : InOrder s) (i : Nat) :
    InOrder { waitList := s.waitList.eraseIdx i
              priorityCount := if i + 1 ≤ s.priorityCount ∧ 0 < s.priorityCount then s.priorityCount - 1
                else s.priorityCount } := by
  obtain ⟨hn, ps, fs, hl, hlen, hp, hf⟩ := inOrder_iff.mp h
  refine inOrder_iff.mpr ⟨hn.sublist ((eraseIdx_sublist _ _).map _), ?_⟩
  rw [hl]
  by_cases hlt : i < ps.length
  · refine ⟨ps.eraseIdx i, fs, eraseIdx_append_of_lt_length hlt fs, ?_, ?_, hf⟩
    · rw [if_pos (by omega), length_eraseIdx_of_lt hlt, hlen]
    · exact fun e he => hp e (mem_of_mem_eraseIdx he)
  · refine ⟨ps, fs.eraseIdx (i - ps.length), eraseIdx_append_of_length_le (by omega) fs, ?_, hp, ?_⟩
    · rw [if_neg (by omega), hlen]
    · exact fun e he => hf e (mem_of_mem_eraseIdx he)

theorem insertIdx_length (e : Entry) (ps fs : List Entry) : (ps ++ fs).insertIdx ps.length e = ps ++ e :: fs := by
  induction ps with
  | nil => exact insertIdx_zero
  | cons d ps ih => rw [cons_append, length_cons, insertIdx_succ_cons, ih, cons_append]

theorem inOrder_premium (h : InOrder s) (he : e.guid ∉ s.waitList.map (·.guid)) (hp : e.premium = true) :
    InOrder ⟨s.waitList.insertIdx s.priorityCount e, s.priorityCount + 1⟩ := by
  obtain ⟨hn, ps, fs, hl, hlen, hps, hfs⟩ := inOrder_iff.mp h
  have hins : s.waitList.insertIdx s.priorityCount e = ps ++ e :: fs := by rw [hl, ← hlen, insertIdx_length]
  refine inOrder_iff.mpr ⟨?_, ps ++ [e], fs, ?_, ?_, ?_, hfs⟩
  · rw [hins, (perm_middle.map _).nodup_iff, ← hl]
    exact nodup_cons.mpr ⟨he, hn⟩
  · simp [hins, append_assoc]
  · rw [length_append, length_singleton, hlen]
  · grind

theorem inOrder_free (h : InOrder s) (he : e.guid ∉ s.waitList.map (·.guid)) (hp : e.premium = false) :
    InOrder ⟨s.waitList ++ [e], s.priorityCount⟩ := by
  obtain ⟨hn, ps, fs, hl, hlen, hps, hfs⟩ := inOrder_iff.mp h
  refine inOrder_iff.mpr ⟨?_, ps, fs ++ [e], ?_, hlen, hps, ?_⟩
  · rw [((perm_append_singleton e s.waitList).map _).nodup_iff]
    exact nodup_cons.mpr ⟨he, hn⟩
  · rw [hl, append_assoc]
  intro d hd
  rcases mem_append.mp hd with hd | hd
  · exact hfs d hd
  · obtain rfl := mem_singleton.mp hd
    exact hp

/-- The players who wait, in the order of the list. -/
def Queue.guids (s : Queue) : List UInt32 := s.waitList.map (·.guid)

/-- The place of a player in the list counted from 1, 0 for a player who is not in it. -/
def Queue.place (s : Queue) (guid : UInt32) : Nat :=
  if guid ∈ s.guids then s.guids.idxOf guid + 1 else 0

theorem place_of_getElem? (h : InOrder s) {i : Nat} (he : s.waitList[i]? = some e) : s.place e.guid = i + 1 := by
  obtain ⟨hi, rfl⟩ := List.getElem?_eq_some_iff.mp he
  have hlen : i < s.guids.length := by rwa [Queue.guids, length_map]
  have hget : s.guids[i] = s.waitList[i].guid := getElem_map _
  have hidx := h.nodup.idxOf_getElem i hlen
  rw [Queue.place, ← hget, if_pos (getElem_mem hlen)]
  exact congrArg (· + 1) hidx

theorem enter_inOrder (h : InOrder s) (c : Caller) :
    InOrder (enter c s).2 ∧ (enter c s).1 = (enter c s).2.place c.guid := by
  unfold enter
  split
  · next i hi =>
    obtain ⟨hlt, hg, -⟩ := findIdx?_eq_some_iff_getElem.mp hi
    have hguid : s.waitList[i].guid = c.guid := by simpa using hg
    by_cases hroom : c.playersOnline + (i + 1) ≤ c.maxPlayers
    · rw [if_pos hroom]
      refine ⟨inOrder_erased h i, ?_⟩
      have hgone : c.guid ∉ (s.waitList.eraseIdx i).map (·.guid) := by
        intro hmem
        have hperm : (c.guid :: (s.waitList.eraseIdx i).map (·.guid)).Nodup := by
          rw [← hguid]
          exact ((getElem_cons_eraseIdx_perm hlt).map (·.guid)).nodup_iff.mpr h.nodup
        exact (nodup_cons.mp hperm).1 hmem
      exact (if_neg hgone).symm
    · rw [if_neg hroom]
      have hkeep := inOrder_retimed h i (c.time + getTimeout (i + 1) * 1000)
      refine ⟨hkeep, ?_⟩
      have hget : (s.waitList.modify i fun e => { e with timeout := c.time + getTimeout (i + 1) * 1000 })[i]? =
          some { s.waitList[i] with timeout := c.time + getTimeout (i + 1) * 1000 } := by
        rw [getElem?_modify_eq, getElem?_eq_getElem hlt]
        rfl
      have hplace := place_of_getElem? hkeep hget
      rw [← hguid]
      exact hplace.symm
  · next hnone =>
    have hnew : c.guid ∉ s.waitList.map (·.guid) := by
      intro hmem
      obtain ⟨e, he, heq⟩ := mem_map.mp hmem
      have hne := findIdx?_eq_none_iff.mp hnone e he
      grind
    have hle : s.priorityCount ≤ s.waitList.length := h.count ▸ countP_le_length
    by_cases hp : c.premium = true
    · rw [if_pos hp, Nat.min_eq_left hle]
      have hkeep := inOrder_premium h
        (e := ⟨c.time + getTimeout (s.priorityCount + 1) * 1000, c.guid, true⟩) hnew rfl
      exact ⟨hkeep, (place_of_getElem? hkeep (getElem?_insertIdx_self.trans (if_pos hle))).symm⟩
    · rw [if_neg hp]
      have hkeep := inOrder_free h
        (e := ⟨c.time + getTimeout (s.waitList.length + 1) * 1000, c.guid, false⟩) hnew rfl
      exact ⟨hkeep, (place_of_getElem? hkeep getElem?_concat_length).symm⟩

/-! ## Runs -/

/-- Any list is empty when the server starts. -/
def started (s : Queue) : Prop := s = {}

def step (s : Queue) (c : Caller) : Queue := (clientLogin s c).2

/-- The call returns before the pass, or the pass counts the premium entries it removes. -/
def counts (s : Queue) (c : Caller) : Prop := s.direct c = true ∨ CountsExpired s c.time

theorem clientLogin_inOrder {c : Caller} (h : InOrder s) (hc : counts s c) :
    InOrder (step s c) ∧ (s.direct c = false → (clientLogin s c).1 = (step s c).place c.guid) := by
  unfold step clientLogin
  by_cases hd : s.direct c = true
  · rw [if_pos hd]
    exact ⟨h, fun hf => absurd hd (by simp [hf])⟩
  rw [if_neg hd]
  have hpass := (eraseExpired_inOrder_iff h c.time).mpr (hc.resolve_left hd)
  have hrest := enter_inOrder hpass c
  exact ⟨hrest.1, fun _ => hrest.2⟩

/-- In every run whose passes all count the premium entries they remove, the list stays in
    order, and a player who is not let in at once is told its place. -/
theorem waitList_inOrder {s : Queue} (h : Reach started step counts s) :
    InOrder s ∧ ∀ c, counts s c → s.direct c = false → (clientLogin s c).1 = (step s c).place c.guid := by
  have hs : InOrder s := by
    refine Reach.inv (I := InOrder) ?_ (fun s c hc hs => (clientLogin_inOrder hs hc).1) h
    intro s hs
    rw [hs]
    exact ⟨nodup_nil, rfl, by simp⟩
  refine ⟨hs, ?_⟩
  intro c hc hd
  exact (clientLogin_inOrder hs hc).2 hd

theorem reached {ok : Queue → Caller → Prop} {cs : List Caller} (h : Allowed step ok {} cs) :
    Reach started step ok (run step {} cs) := by
  have h0 : Reach started step ok {} := .init rfl
  exact h0.run h

/-- A full server with one place. -/
def asks (guid : UInt32) (premium : Bool) (time : Int) : Caller where
  guid := guid
  premium := premium
  MAX_PLAYERS := 1
  playersOnline := 1
  time := time

instance (s : Queue) (time : Int) : Decidable (CountsExpired s time) :=
  inferInstanceAs (Decidable (∀ i < s.priorityCount, ∀ e ∈ s.waitList[i]?, e.expired time = true →
    i + (s.waitList.take i).countP (Entry.expired time) < s.priorityCount))

instance (s : Queue) (c : Caller) : Decidable (counts s c) :=
  inferInstanceAs (Decidable (s.direct c = true ∨ CountsExpired s c.time))

/-- A free player and two premium ones wait; the first premium player gives up. -/
theorem waitList_inOrder_three :
    InOrder (run step {} [asks 1 false 0, asks 2 true 0, asks 3 true 10000, asks 3 true 20000]) ∧
    (clientLogin (run step {} [asks 1 false 0, asks 2 true 0, asks 3 true 10000, asks 3 true 20000])
      (asks 3 true 20001)).1 = 1 := by
  have hrun : Reach started step counts
      (run step {} [asks 1 false 0, asks 2 true 0, asks 3 true 10000, asks 3 true 20000]) :=
    reached ⟨by decide, by decide, by decide, by decide, trivial⟩
  have hs := waitList_inOrder hrun
  exact ⟨hs.1, (hs.2 (asks 3 true 20001) (by decide) (by decide)).trans (by decide)⟩

/-- Three premium players stop asking; the pass counts two of them, and the counter is one
    over an empty list. -/
theorem expired_together : ¬ ∀ s, Reach started step (fun _ _ => True) s →
    s.priorityCount = s.waitList.countP (·.premium) := by
  intro hall
  have hrun : Reach started step (fun _ _ => True)
      (run step {} [asks 1 true 0, asks 2 true 0, asks 3 true 0, asks 4 false 20000]) :=
    reached ⟨trivial, trivial, trivial, trivial, trivial⟩
  have h := hall _ hrun
  revert h
  decide

end Backlands.Login.WaitList
