/-
  Backlands.Players.Wildcards — the tree of online names that a wildcard is looked up in
  (src/wildcardtree.cpp).

  A node has its children by character; the order of a `std::map` is not seen, since only a
  map of one child is looked into. Going down a path by pointers is recursion here, and what
  `remove` takes from its stack is done on the way back.

  Proved: a node without children is a name in every tree that is made by insertions and
  removals (`sound_run`), so that a wildcard finds nobody, one name or too many exactly as
  none, one or more of the names begin with it (`findOne_run`).
-/

import Backlands.Lib.Bytes
import Backlands.Lib.Table
import Mathlib.Data.Finset.Card

namespace Backlands.Players.Wildcards

open Backlands.Lib List Option

inductive ReturnValue where
  | RETURNVALUE_NOERROR
  | RETURNVALUE_PLAYERWITHTHISNAMEISNOTONLINE
  | RETURNVALUE_NAMEISTOOAMBIGUOUS
  deriving DecidableEq

inductive WildcardTreeNode where
  | mk (children : List (UInt8 × WildcardTreeNode)) (breakpoint : Bool)

namespace WildcardTreeNode

def children : WildcardTreeNode → List (UInt8 × WildcardTreeNode)
  | mk children _ => children

def breakpoint : WildcardTreeNode → Bool
  | mk _ breakpoint => breakpoint

def getChild (n : WildcardTreeNode) (ch : UInt8) : Option WildcardTreeNode := n.children.lookup ch

def setChild (n : WildcardTreeNode) (ch : UInt8) (child : WildcardTreeNode) : WildcardTreeNode :=
  mk ((ch, child) :: n.children.filter fun e => e.1 != ch) n.breakpoint

def eraseChild (n : WildcardTreeNode) (ch : UInt8) : WildcardTreeNode :=
  mk (n.children.filter fun e => e.1 != ch) n.breakpoint

/-- The child that `addChild` returns, which is then put in place. -/
def addChild (n : WildcardTreeNode) (ch : UInt8) (breakpoint : Bool) : WildcardTreeNode :=
  match n.getChild ch with
  | some child => if breakpoint && !child.breakpoint then mk child.children true else child
  | none => mk [] breakpoint

def insert : Bytes → WildcardTreeNode → WildcardTreeNode
  -- the length less one would wrap
  | [], n => n
  | [ch], n => n.setChild ch (n.addChild ch true)
  | ch :: str, n => n.setChild ch (insert str (n.addChild ch false))

/-- The rest of a path and the way back; `none` when the path ends on the way. -/
def removeBelow : Bytes → WildcardTreeNode → Option WildcardTreeNode
  | [], n => some (mk n.children false)
  | ch :: str, n =>
    match n.getChild ch with
    | none => none
    | some child =>
      (removeBelow str child).map fun cur =>
        if !cur.children.isEmpty || cur.breakpoint then n.setChild ch cur else n.eraseChild ch

def remove (str : Bytes) (n : WildcardTreeNode) : WildcardTreeNode := (removeBelow str n).getD n

/-- The first loop of `findOne`. -/
def follow : Bytes → WildcardTreeNode → Option WildcardTreeNode
  | [], cur => some cur
  | pos :: query, cur => (cur.getChild pos).bind (follow query)

/-- The second loop of `findOne`. -/
def complete : WildcardTreeNode → Bytes → ReturnValue × Bytes
  | mk [] _, result => (.RETURNVALUE_NOERROR, result)
  | mk [(ch, child)] breakpoint, result =>
    if breakpoint then (.RETURNVALUE_NAMEISTOOAMBIGUOUS, result) else complete child (result ++ [ch])
  | mk (_ :: _ :: _) _, result => (.RETURNVALUE_NAMEISTOOAMBIGUOUS, result)

def findOne (query result : Bytes) (n : WildcardTreeNode) : ReturnValue × Bytes :=
  match follow query n with
  | none => (.RETURNVALUE_PLAYERWITHTHISNAMEISNOTONLINE, result)
  | some cur => complete cur query

/-! ## Names -/

def Holds (n : WildcardTreeNode) (s : Bytes) : Prop := ∃ m, follow s n = some m ∧ m.breakpoint = true

variable {n m child : WildcardTreeNode} {ch : UInt8} {s t query : Bytes}

@[simp] theorem getChild_setChild (c : UInt8) :
    (n.setChild ch child).getChild c = if c = ch then some child else n.getChild c := by
  show ((ch, child) :: n.children.filter fun e => e.1 != ch).lookup c = _
  rw [lookup_cons, lookup_filter]
  grind [getChild]

@[simp] theorem getChild_eraseChild (c : UInt8) :
    (n.eraseChild ch).getChild c = if c = ch then none else n.getChild c := lookup_filter ch c n.children

@[simp] theorem getChild_nil (b : Bool) (c : UInt8) : (mk [] b).getChild c = none := rfl

@[simp] theorem getChild_mk (b : Bool) (c : UInt8) : (mk n.children b).getChild c = n.getChild c := rfl

@[simp] theorem breakpoint_mk (cs : List (UInt8 × WildcardTreeNode)) (b : Bool) : (mk cs b).breakpoint = b := rfl

@[simp] theorem children_mk (cs : List (UInt8 × WildcardTreeNode)) (b : Bool) : (mk cs b).children = cs := rfl

@[simp] theorem breakpoint_setChild : (n.setChild ch child).breakpoint = n.breakpoint := rfl

@[simp] theorem breakpoint_eraseChild : (n.eraseChild ch).breakpoint = n.breakpoint := rfl

@[simp] theorem holds_nil : Holds n [] ↔ n.breakpoint = true := by
  simp [Holds, follow]

theorem holds_cons : Holds n (ch :: s) ↔ ∃ child, n.getChild ch = some child ∧ Holds child s := by
  simp only [Holds, follow]
  cases n.getChild ch with
  | none => simp
  | some child => simp

theorem holds_append (hm : follow query n = some m) : Holds n (query ++ t) ↔ Holds m t := by
  induction query generalizing n with
  | nil =>
    cases hm
    rfl
  | cons pos query ih =>
    simp only [follow, bind_eq_some_iff] at hm
    rcases hm with ⟨child, hchild, hm⟩
    rw [cons_append, holds_cons, hchild]
    simp [ih hm]

theorem not_holds_append (hm : follow query n = none) : ¬Holds n (query ++ t) := by
  induction query generalizing n with
  | nil => cases hm
  | cons pos query ih =>
    rw [cons_append, holds_cons]
    rintro ⟨child, hchild, ht⟩
    simp only [follow, hchild, bind_some] at hm
    exact ih hm ht

theorem holds_setChild : Holds (n.setChild ch child) t ↔
    (∃ s, t = ch :: s ∧ Holds child s) ∨ (t.head? ≠ some ch ∧ Holds n t) := by
  cases t with
  | nil => simp
  | cons c t =>
    grind [holds_cons, getChild_setChild]

theorem holds_eraseChild : Holds (n.eraseChild ch) t ↔ t.head? ≠ some ch ∧ Holds n t := by
  cases t with
  | nil => simp
  | cons c t =>
    grind [holds_cons, getChild_eraseChild]

theorem holds_split (ch : UInt8) : Holds n t ↔
    (∃ s, t = ch :: s ∧ Holds n (ch :: s)) ∨ (t.head? ≠ some ch ∧ Holds n t) := by
  cases t with
  | nil => simp
  | cons c t =>
    by_cases hc : c = ch <;> simp [hc]

theorem holds_addChild (b : Bool) : Holds (n.addChild ch b) s ↔ Holds n (ch :: s) ∨ b = true ∧ s = [] := by
  unfold addChild
  rw [holds_cons]
  cases hn : n.getChild ch with
  | none =>
    cases s with
    | nil => simp
    | cons c s => simp [holds_cons]
  | some child =>
    cases s with
    | nil => cases b <;> cases hb : child.breakpoint <;> simp [hb]
    | cons c s =>
      simp only [Option.some.injEq, exists_eq_left', reduceCtorEq, and_false, or_false]
      split <;> rfl

theorem holds_insert (hs : s ≠ []) : Holds (n.insert s) t ↔ t = s ∨ Holds n t := by
  induction s generalizing n t with
  | nil => exact absurd rfl hs
  | cons ch str ih =>
    rw [holds_split (n := n) ch]
    cases str with
    | nil =>
      rw [insert, holds_setChild]
      simp only [holds_addChild, true_and]
      grind
    | cons c str =>
      rw [insert, holds_setChild]
      · simp only [ih (cons_ne_nil c str), holds_addChild, Bool.false_eq_true, false_and, or_false]
        grind
      · simp

theorem holds_removeBelow (h : removeBelow s n = some m) : Holds m t ↔ t ≠ s ∧ Holds n t := by
  induction s generalizing n m t with
  | nil =>
    cases h
    cases t with
    | nil => simp
    | cons c t => simp [holds_cons]
  | cons ch str ih =>
    unfold removeBelow at h
    split at h
    · cases h
    next child hchild =>
    rcases map_eq_some_iff.mp h with ⟨cur, hcur, rfl⟩
    have hbelow : ∀ u, Holds n (ch :: u) ↔ Holds child u := by
      simp [holds_cons, hchild]
    rw [holds_split (n := n) ch]
    split
    · rw [holds_setChild]
      constructor
      · rintro (⟨u, rfl, hu⟩ | ⟨hne, ht⟩)
        · rw [ih hcur] at hu
          exact ⟨by simpa using hu.1, .inl ⟨u, rfl, (hbelow u).mpr hu.2⟩⟩
        · refine ⟨?_, .inr ⟨hne, ht⟩⟩
          rintro rfl
          exact hne rfl
      · grind
    · next hleaf =>
      -- what is left of the child holds no name, so that nothing else is lost with it
      have hnone : ∀ u, ¬Holds cur u := by
        simp only [Bool.or_eq_true, Bool.not_eq_true', isEmpty_eq_false_iff, not_or, not_not] at hleaf
        intro u
        cases u with
        | nil => simpa using hleaf.2
        | cons c u => simp [holds_cons, getChild, hleaf.1]
      rw [holds_eraseChild]
      constructor
      · rintro ⟨hne, ht⟩
        refine ⟨?_, .inr ⟨hne, ht⟩⟩
        rintro rfl
        exact hne rfl
      · rintro ⟨hne, ⟨u, rfl, hu⟩ | ht⟩
        · exact absurd ((ih hcur).mpr ⟨by simpa using hne, (hbelow u).mp hu⟩) (hnone u)
        · exact ht

theorem removeBelow_none (h : removeBelow s n = none) : ¬Holds n s := by
  induction s generalizing n with
  | nil => cases h
  | cons ch str ih =>
    rw [holds_cons]
    rintro ⟨child, hchild, hs⟩
    simp only [removeBelow, hchild, map_eq_none_iff] at h
    exact ih h hs

theorem holds_remove : Holds (n.remove s) t ↔ t ≠ s ∧ Holds n t := by
  unfold remove
  cases h : removeBelow s n with
  | some m => exact holds_removeBelow h
  | none =>
    simp only [getD_none, iff_and_self]
    rintro ht rfl
    exact removeBelow_none h ht

/-! ## Every leaf is a name -/

/-- No two children have one character, and a node below without children is a name. -/
inductive Sound : WildcardTreeNode → Prop where
  | mk (cs : List (UInt8 × WildcardTreeNode)) (b : Bool) (nodup : (cs.map Prod.fst).Nodup)
      (leaf : ∀ e ∈ cs, e.2.children = [] → e.2.breakpoint = true) (below : ∀ e ∈ cs, Sound e.2) : Sound (mk cs b)

structure Alive (n : WildcardTreeNode) : Prop where
  sound : Sound n
  leaf : n.children = [] → n.breakpoint = true

theorem sound_nil (b : Bool) : Sound (.mk [] b) := .mk [] b nodup_nil (by simp) (by simp)

theorem Sound.nodup (h : Sound n) : (n.children.map Prod.fst).Nodup := by
  cases h
  assumption

theorem Sound.alive (h : Sound n) {e : UInt8 × WildcardTreeNode} (he : e ∈ n.children) : Alive e.2 := by
  cases h with
  | mk cs b _ leaf below => exact ⟨below e he, leaf e he⟩

theorem sound_iff : Sound n ↔ (n.children.map Prod.fst).Nodup ∧ ∀ e ∈ n.children, Alive e.2 := by
  constructor
  · intro h
    exact ⟨h.nodup, fun e he => h.alive he⟩
  · rintro ⟨hnodup, halive⟩
    cases n with
    | mk cs b => exact .mk cs b hnodup (fun e he => (halive e he).leaf) fun e he => (halive e he).sound

theorem Sound.getChild (h : Sound n) (hc : n.getChild ch = some child) : Alive child :=
  h.alive ((lookup_iff_mem h.nodup).mp hc)

theorem Sound.breakpoint (h : Sound n) (b : Bool) : Sound (.mk n.children b) := by
  rw [sound_iff] at h ⊢
  exact h

theorem nodup_filter_keys (h : Sound n) : ((n.children.filter fun e => e.1 != ch).map Prod.fst).Nodup :=
  h.nodup.sublist (filter_sublist.map _)

theorem Sound.setChild (h : Sound n) (hc : Alive child) : Sound (n.setChild ch child) := by
  rw [sound_iff]
  constructor
  · show (ch :: (n.children.filter fun e => e.1 != ch).map Prod.fst).Nodup
    rw [nodup_cons]
    refine ⟨?_, nodup_filter_keys h⟩
    simp
  · intro e he
    rcases mem_cons.mp he with rfl | he
    · exact hc
    · exact h.alive (mem_of_mem_filter he)

theorem Sound.eraseChild (h : Sound n) : Sound (n.eraseChild ch) := by
  rw [sound_iff]
  exact ⟨nodup_filter_keys h, fun e he => h.alive (mem_of_mem_filter he)⟩

theorem Sound.addChild (h : Sound n) (b : Bool) : Sound (n.addChild ch b) := by
  unfold WildcardTreeNode.addChild
  split
  · next child hchild =>
    split
    · exact (h.getChild hchild).sound.breakpoint true
    · exact (h.getChild hchild).sound
  · exact sound_nil b

theorem breakpoint_addChild : (n.addChild ch true).breakpoint = true := by
  unfold addChild
  split
  · next child _ => cases hb : child.breakpoint <;> simp [hb]
  · rfl

theorem children_insert (hs : s ≠ []) : (n.insert s).children ≠ [] := by
  fun_cases insert s n with
  | case1 => exact absurd rfl hs
  | case2 ch => exact cons_ne_nil _ _
  | case3 ch str => exact cons_ne_nil _ _

theorem Sound.insert (h : Sound n) (s : Bytes) : Sound (n.insert s) := by
  fun_induction WildcardTreeNode.insert s n with
  | case1 n => exact h
  | case2 n ch => exact h.setChild ⟨h.addChild true, fun _ => breakpoint_addChild⟩
  | case3 n ch str hstr ih =>
    exact h.setChild ⟨ih (h.addChild false), fun hnil => absurd hnil (children_insert hstr)⟩

theorem Sound.removeBelow (h : Sound n) (hm : removeBelow s n = some m) : Sound m := by
  induction s generalizing n m with
  | nil =>
    cases hm
    exact h.breakpoint false
  | cons ch str ih =>
    unfold WildcardTreeNode.removeBelow at hm
    split at hm
    · cases hm
    next child hchild =>
    rcases map_eq_some_iff.mp hm with ⟨cur, hcur, rfl⟩
    split
    · next hcond =>
      refine h.setChild ⟨ih (h.getChild hchild).sound hcur, ?_⟩
      intro hnil
      simpa [hnil] using hcond
    · exact h.eraseChild

theorem Sound.remove (h : Sound n) (s : Bytes) : Sound (n.remove s) := by
  unfold WildcardTreeNode.remove
  cases hm : WildcardTreeNode.removeBelow s n with
  | none => exact h
  | some m => exact h.removeBelow hm

theorem Sound.follow (h : Sound n) (hq : query ≠ []) (hm : follow query n = some m) : Alive m := by
  induction query generalizing n with
  | nil => exact absurd rfl hq
  | cons pos query ih =>
    simp only [WildcardTreeNode.follow, bind_eq_some_iff] at hm
    rcases hm with ⟨child, hchild, hm⟩
    have hc := h.getChild hchild
    cases query with
    | nil =>
      cases hm
      exact hc
    | cons c query => exact ih hc.sound (cons_ne_nil c query) hm

/-! ## What is found -/

theorem Sound.holds (h : Sound n) {e : UInt8 × WildcardTreeNode} (he : e ∈ n.children) (ht : Holds e.2 t) :
    Holds n (e.1 :: t) :=
  holds_cons.mpr ⟨e.2, (lookup_iff_mem h.nodup).mpr he, ht⟩

theorem Alive.exists_name (h : Alive n) : ∃ t, Holds n t := by
  rcases h with ⟨hsound, hleaf⟩
  induction hsound with
  | mk cs b nodup leaf below ih =>
    cases cs with
    | nil => exact ⟨[], by simpa using hleaf rfl⟩
    | cons e cs =>
      rcases ih e mem_cons_self (leaf e mem_cons_self) with ⟨t, ht⟩
      exact ⟨e.1 :: t, (Sound.mk _ b nodup leaf below).holds mem_cons_self ht⟩

/-- Below a node there is one name, which the loop spells, or there are two. -/
theorem complete_spec (h : Alive n) (result : Bytes) :
    (∃ t, (∀ u, Holds n u ↔ u = t) ∧ complete n result = (.RETURNVALUE_NOERROR, result ++ t)) ∨
      (∃ u v, u ≠ v ∧ Holds n u ∧ Holds n v) ∧ (complete n result).1 = .RETURNVALUE_NAMEISTOOAMBIGUOUS := by
  fun_induction complete n result with
  | case1 b result =>
    have hb : b = true := h.leaf rfl
    subst hb
    left
    refine ⟨[], ?_, by simp⟩
    intro u
    cases u with
    | nil => simp
    | cons c u => simp [holds_cons]
  | case2 ch child result =>
    right
    rcases (h.sound.alive (e := (ch, child)) mem_cons_self).exists_name with ⟨t, ht⟩
    exact ⟨⟨[], ch :: t, by simp, by simp, h.sound.holds (e := (ch, child)) mem_cons_self ht⟩, rfl⟩
  | case3 ch child breakpoint result hb ih =>
    have hnames : ∀ u, Holds (mk [(ch, child)] breakpoint) u ↔ ∃ t, u = ch :: t ∧ Holds child t := by
      intro u
      cases u with
      | nil => simp [hb]
      | cons c u =>
        by_cases hc : c = ch
        · simp [holds_cons, WildcardTreeNode.getChild, hc]
        · simp [holds_cons, WildcardTreeNode.getChild, lookup_cons, beq_eq_false_iff_ne.mpr hc, hc]
    rcases ih (h.sound.alive (e := (ch, child)) mem_cons_self) with ⟨t, ht, he⟩ | ⟨⟨u, v, hne, hu, hv⟩, he⟩
    · left
      refine ⟨ch :: t, ?_, by simpa using he⟩
      simp [hnames, ht]
    · right
      exact ⟨⟨ch :: u, ch :: v, by simpa using hne, (hnames _).mpr ⟨u, rfl, hu⟩, (hnames _).mpr ⟨v, rfl, hv⟩⟩, he⟩
  | case4 e e' cs breakpoint result =>
    right
    have he : e ∈ (mk (e :: e' :: cs) breakpoint).children := mem_cons_self
    have he' : e' ∈ (mk (e :: e' :: cs) breakpoint).children := mem_cons_of_mem _ mem_cons_self
    rcases (h.sound.alive he).exists_name with ⟨t, ht⟩
    rcases (h.sound.alive he').exists_name with ⟨t', ht'⟩
    have hne : e.1 ≠ e'.1 := by
      intro heq
      simpa [heq] using h.sound.nodup
    exact ⟨⟨e.1 :: t, e'.1 :: t', by simp [hne], h.sound.holds he ht, h.sound.holds he' ht'⟩, rfl⟩

/-- A wildcard finds nobody, spells the one name that begins with it, or there are two. -/
theorem findOne_cases (h : Sound n) (hq : query ≠ []) (result : Bytes) :
    (n.findOne query result = (.RETURNVALUE_PLAYERWITHTHISNAMEISNOTONLINE, result) ∧ ∀ t, ¬Holds n (query ++ t)) ∨
      (∃ t, n.findOne query result = (.RETURNVALUE_NOERROR, query ++ t) ∧ ∀ u, Holds n (query ++ u) ↔ u = t) ∨
      (n.findOne query result).1 = .RETURNVALUE_NAMEISTOOAMBIGUOUS ∧
        ∃ u v, u ≠ v ∧ Holds n (query ++ u) ∧ Holds n (query ++ v) := by
  unfold findOne
  cases hm : WildcardTreeNode.follow query n with
  | none => exact .inl ⟨rfl, fun t => not_holds_append hm⟩
  | some cur =>
    right
    simp only [holds_append hm]
    rcases complete_spec (h.follow hq hm) query with ⟨t, ht, he⟩ | ⟨hnames, he⟩
    · exact .inl ⟨t, he, ht⟩
    · exact .inr ⟨he, hnames⟩

end WildcardTreeNode

/-! ## Players coming and going -/

inductive Op where
  | insert (str : Bytes)
  | remove (str : Bytes)

def Op.name : Op → Bytes
  | insert str => str
  | remove str => str

def step (n : WildcardTreeNode) : Op → WildcardTreeNode
  | .insert str => n.insert str
  | .remove str => n.remove str

/-- The names that are there after an insertion or a removal. -/
def currentStep (names : Finset Bytes) : Op → Finset Bytes
  | .insert str => Insert.insert str names
  | .remove str => names.erase str

def tree (b : Bool) (ops : List Op) : WildcardTreeNode := ops.foldl step (.mk [] b)

def current (ops : List Op) : Finset Bytes := ops.foldl currentStep ∅

/-- The names a wildcard stands for. -/
def matching (query : Bytes) (ops : List Op) : Finset Bytes := (current ops).filter fun s => query <+: s

open WildcardTreeNode

/-- A tree with the names it should have; its root may be marked. -/
structure Spells (n : WildcardTreeNode) (names : Finset Bytes) : Prop where
  sound : Sound n
  names : ∀ s ≠ [], Holds n s ↔ s ∈ names

theorem Spells.step {n : WildcardTreeNode} {names : Finset Bytes} (h : Spells n names) {op : Op} (hop : op.name ≠ []) :
    Spells (step n op) (currentStep names op) := by
  cases op with
  | insert str =>
    refine ⟨h.sound.insert str, ?_⟩
    intro s hs
    show Holds (n.insert str) s ↔ s ∈ Insert.insert str names
    rw [holds_insert (show str ≠ [] from hop), h.names s hs, Finset.mem_insert]
  | remove str =>
    refine ⟨h.sound.remove str, ?_⟩
    intro s hs
    show Holds (n.remove str) s ↔ s ∈ names.erase str
    rw [holds_remove, h.names s hs, Finset.mem_erase]

theorem spells_run {ops : List Op} (hops : ∀ op ∈ ops, op.name ≠ []) {n : WildcardTreeNode} {names : Finset Bytes}
    (h : Spells n names) : Spells (ops.foldl step n) (ops.foldl currentStep names) := by
  induction ops generalizing n names with
  | nil => exact h
  | cons op ops ih =>
    exact ih (fun o ho => hops o (mem_cons_of_mem _ ho)) (h.step (hops op mem_cons_self))

theorem spells_empty (b : Bool) : Spells (.mk [] b) ∅ := by
  refine ⟨sound_nil b, ?_⟩
  intro s hs
  cases s with
  | nil => exact absurd rfl hs
  | cons c s => simp [holds_cons]

theorem mem_matching {b : Bool} {ops : List Op} (hops : ∀ op ∈ ops, op.name ≠ []) {query : Bytes} (hq : query ≠ [])
    (t : Bytes) : query ++ t ∈ matching query ops ↔ Holds (tree b ops) (query ++ t) := by
  have hs := (spells_run hops (spells_empty b)).names (query ++ t) (by simp [hq])
  rw [matching, Finset.mem_filter, tree, hs]
  exact and_iff_left (prefix_append query t)

/-- A wildcard finds nobody when no name begins with it, the whole name when one does, and
too many when two do. -/
theorem findOne_run (b : Bool) (ops : List Op) (hops : ∀ op ∈ ops, op.name ≠ []) (query result : Bytes)
    (hq : query ≠ []) :
    ((tree b ops).findOne query result = (.RETURNVALUE_PLAYERWITHTHISNAMEISNOTONLINE, result) ↔
        matching query ops = ∅) ∧
      (∀ name, (tree b ops).findOne query result = (.RETURNVALUE_NOERROR, name) ↔ matching query ops = {name}) ∧
      (((tree b ops).findOne query result).1 = .RETURNVALUE_NAMEISTOOAMBIGUOUS ↔ 2 ≤ (matching query ops).card) := by
  have hmem := fun t => mem_matching (b := b) hops hq t
  have hprefix : ∀ s ∈ matching query ops, ∃ t, s = query ++ t := by
    intro s hs
    rcases (Finset.mem_filter.mp hs).2 with ⟨t, rfl⟩
    exact ⟨t, rfl⟩
  rcases findOne_cases (spells_run hops (spells_empty b)).sound hq result with
    ⟨he, hnone⟩ | ⟨t, he, hone⟩ | ⟨he, u, v, hne, hu, hv⟩
  · have hempty : matching query ops = ∅ := by
      refine Finset.eq_empty_of_forall_notMem ?_
      intro s hs
      rcases hprefix s hs with ⟨t, rfl⟩
      exact hnone t ((hmem t).mp hs)
    rw [tree, he, hempty]
    simp [eq_comm]
  · have hsingle : matching query ops = {query ++ t} := by
      ext s
      rw [Finset.mem_singleton]
      constructor
      · intro hs
        rcases hprefix s hs with ⟨u, rfl⟩
        rw [(hone u).mp ((hmem u).mp hs)]
      · rintro rfl
        exact (hmem t).mpr ((hone t).mpr rfl)
    rw [tree, he, hsingle]
    simp
  · have htwo : 2 ≤ (matching query ops).card := by
      have hsub : {query ++ u, query ++ v} ⊆ matching query ops := by
        intro s hs
        rcases Finset.mem_insert.mp hs with rfl | hs
        · exact (hmem u).mpr hu
        · rw [Finset.mem_singleton.mp hs]
          exact (hmem v).mpr hv
      have hpair : ({query ++ u, query ++ v} : Finset Bytes).card = 2 := Finset.card_pair (by simpa using hne)
      exact hpair ▸ Finset.card_le_card hsub
    refine ⟨⟨?_, ?_⟩, fun name => ⟨?_, ?_⟩, iff_of_true he htwo⟩
    · grind [tree]
    · intro h
      rw [h] at htwo
      simp at htwo
    · grind [tree]
    · intro h
      rw [h] at htwo
      simp at htwo

/-- "ann" and "anna" come, "ann" goes and so does "a", which is not there. -/
theorem findOne_anna :
    (tree false [.insert [97, 110, 110], .insert [97, 110, 110, 97], .remove [97, 110, 110], .remove [97]]).findOne
      [97, 110] [] = (.RETURNVALUE_NOERROR, [97, 110, 110, 97]) :=
  ((findOne_run false _ (by simp [Op.name]) [97, 110] [] (by simp)).2.1 _).mpr (by decide)

end Backlands.Players.Wildcards
