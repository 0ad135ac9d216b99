/-
  Backlands.Otb.Loader — files of nested nodes (src/fileloader.cpp).

  A file is a four-byte identifier and one node: START, a type byte, properties, the nodes
  inside it, END. In properties ESCAPE takes the meaning from the byte after it; a type byte
  has none to take. A node of the source holds pointers into the mapped file; here they are
  offsets, and a read outside the file, or of a pointer that was never set, is `overrun`.
  The stack of the source points into the tree under construction; here it holds the nodes
  still open with the children each has so far.

  Proved: `otb_parsing`, a tree that is encoded is read back as it was, what is not refused
  has balanced markers and one root, and neither the parser nor `getProps` reads past the end. The smallest tree of all is refused by its size
  (`bare_root_refused`).
-/

import Backlands.Lib.Bytes
import Backlands.Lib.Forest

namespace Backlands.Otb

open Backlands.Lib List

def ESCAPE : UInt8 := 0xFD

def START : UInt8 := 0xFE

def END : UInt8 := 0xFF

/-- `invalid` is the exception InvalidOTBFormat. -/
inductive Result (α : Type) where
  | ok (a : α)
  | invalid
  | overrun

/-- A `Node` without its children. `propsEnd` is not set when a node is made. -/
structure NodeData where
  type : UInt8
  propsBegin : Nat
  propsEnd : Option Nat

abbrev Node := RoseTree NodeData

structure OpenNode where
  data : NodeData
  children : List Node

inductive Stack where
  | empty (root : Node)
  | top (current : OpenNode) (below : List OpenNode)

/-! ## Parsing -/

def OpenNode.endProps (it : Nat) (n : OpenNode) : OpenNode :=
  if n.children.isEmpty then { n with data := { n.data with propsEnd := some it } } else n

def opened (type : UInt8) (propsBegin : Nat) : OpenNode := ⟨⟨type, propsBegin, none⟩, []⟩

def pop (n : OpenNode) : List OpenNode → Stack
  | [] => .empty (.node n.data n.children)
  | parent :: below => .top { parent with children := parent.children ++ [.node n.data n.children] } below

/-- The loop of `parseTree`, from `it` on. -/
def parseLoop (file : Bytes) (it : Nat) (stack : Stack) : Result Node :=
  if it = file.length then
    match stack with
    | .empty root => .ok root
    | .top _ _ => .invalid
  else
    match hget : file[it]? with
    | none => .overrun
    | some b =>
      have : it < file.length := (List.getElem?_eq_some_iff.mp hget).1
      if b = START then
        match stack with
        | .empty _ => .invalid
        | .top current below =>
          if it + 1 = file.length then .invalid
          else
            match file[it + 1]? with
            | none => .overrun
            | some type => parseLoop file (it + 2) (.top (opened type (it + 2)) (current.endProps it :: below))
      else if b = END then
        match stack with
        | .empty _ => .invalid
        | .top current below => parseLoop file (it + 1) (pop (current.endProps it) below)
      else if b = ESCAPE then
        if it + 1 = file.length then .invalid else parseLoop file (it + 2) stack
      else parseLoop file (it + 1) stack
  termination_by file.length - it

def parseTree (file : Bytes) : Result Node :=
  match file[4]? with
  | none => .overrun
  | some b =>
    if b ≠ START then .invalid
    else
      match file[5]? with
      | none => .overrun
      | some type => parseLoop file 6 (.top (opened type 6) [])

def wildcard : Bytes := [0, 0, 0, 0]

def minimalSize : Nat := 4 + 1 + 1 + 1

/-- The checks of the constructor, then `parseTree`. -/
def load (acceptedIdentifier file : Bytes) : Result Node :=
  if file.length ≤ minimalSize then .invalid
  else if file.take 4 ≠ acceptedIdentifier ∧ file.take 4 ≠ wildcard then .invalid
  else parseTree file

/-! ## Properties -/

/-- The loop of `getProps`: up to the next escape, the byte after it, and on. -/
def unescape (src : Bytes) : Bytes :=
  match h : src.dropWhile (· != ESCAPE) with
  | [] => src.takeWhile (· != ESCAPE)
  | [_] => src.takeWhile (· != ESCAPE)
  | _ :: b :: rest =>
    have : rest.length < src.length := by
      have hle := (dropWhile_sublist (l := src) (· != ESCAPE)).length_le
      rw [h] at hle
      simp only [length_cons] at hle
      omega
    src.takeWhile (· != ESCAPE) ++ b :: unescape rest
  termination_by src.length

/-- `none` is the answer false: there are no properties. -/
def getProps (file : Bytes) (node : NodeData) : Result (Option Bytes) :=
  match node.propsEnd with
  | none => .overrun
  | some propsEnd =>
    if propsEnd < node.propsBegin ∨ file.length < propsEnd then .overrun
    else
      let props := (file.drop node.propsBegin).take (propsEnd - node.propsBegin)
      if props.isEmpty then .ok none
      else if props.contains ESCAPE then .ok (some (unescape props))
      else .ok (some props)

/-! ## What a file says -/

/-- A type byte and properties. -/
abbrev Tree := RoseTree (UInt8 × Bytes)

def escapeByte (b : UInt8) : Bytes := if b = ESCAPE ∨ b = START ∨ b = END then [ESCAPE, b] else [b]

def escape (props : Bytes) : Bytes := props.flatMap escapeByte

mutual

def encode : Tree → Bytes
  | .node (type, props) children => START :: type :: (escape props ++ (encodeAll children ++ [END]))

def encodeAll : List Tree → Bytes
  | [] => []
  | t :: ts => encode t ++ encodeAll ts

end

mutual

/-- The tree that a node of the file stands for: its type, its `getProps`, its children. -/
def readBack (file : Bytes) : Node → Option Tree
  | .node data children =>
    match getProps file data, readBackAll file children with
    | .ok props, some ts => some (.node (data.type, props.getD []) ts)
    | _, _ => none

def readBackAll (file : Bytes) : List Node → Option (List Tree)
  | [] => some []
  | n :: ns =>
    match readBack file n, readBackAll file ns with
    | some t, some ts => some (t :: ts)
    | _, _ => none

end

/-! ## Escapes -/

variable {props : Bytes}

theorem unescape_nil : unescape [] = [] := by
  rw [unescape]
  rfl

theorem unescape_escape (b : UInt8) (src : Bytes) : unescape (ESCAPE :: b :: src) = b :: unescape src := by
  rw [unescape]
  rfl

theorem unescape_clean {b : UInt8} (hb : b ≠ ESCAPE) (src : Bytes) : unescape (b :: src) = b :: unescape src := by
  have hne : (b != ESCAPE) = true := by simpa using hb
  have hdrop : (b :: src).dropWhile (· != ESCAPE) = src.dropWhile (· != ESCAPE) := dropWhile_cons_of_pos hne
  have htake : (b :: src).takeWhile (· != ESCAPE) = b :: src.takeWhile (· != ESCAPE) := takeWhile_cons_of_pos hne
  rw [unescape.eq_def, unescape.eq_def src, htake]
  split
  · next h =>
    split <;> simp_all
  · next h =>
    split <;> simp_all
  · next h =>
    split <;> simp_all

theorem unescape_props (props : Bytes) : unescape (escape props) = props := by
  induction props with
  | nil => exact unescape_nil
  | cons b props ih =>
    show unescape (escapeByte b ++ escape props) = _
    unfold escapeByte
    split
    · exact (unescape_escape b _).trans (congrArg (b :: ·) ih)
    · next hb => exact (unescape_clean (fun h => hb (.inl h)) _).trans (congrArg (b :: ·) ih)

theorem escape_clean (h : ESCAPE ∉ escape props) : escape props = props := by
  have hun := unescape_props props
  have hself : ∀ src : Bytes, ESCAPE ∉ src → unescape src = src := by
    intro src hsrc
    induction src with
    | nil => exact unescape_nil
    | cons b src ih =>
      rw [unescape_clean (fun hb => hsrc (hb ▸ mem_cons_self)),
        ih fun hm => hsrc (mem_cons_of_mem b hm)]
  rw [← hself _ h, hun]

/-! ## One turn of the loop -/

section
variable {file tail : Bytes} {it : Nat} {b : UInt8} {stack : Stack} {current : OpenNode} {below : List OpenNode}

theorem drop_cons (h : file.drop it = b :: tail) :
    it < file.length ∧ file[it]? = some b ∧ file.drop (it + 1) = tail := by
  have hlt : it < file.length := by
    rw [← Nat.not_le, ← drop_eq_nil_iff, h]
    exact cons_ne_nil b tail
  rw [drop_eq_getElem_cons hlt] at h
  obtain ⟨hb, htail⟩ := List.cons.inj h
  exact ⟨hlt, by rw [getElem?_eq_getElem hlt, hb], htail⟩

theorem drop_append {bs : Bytes} (h : file.drop it = bs ++ tail) : file.drop (it + bs.length) = tail := by
  rw [← drop_drop, h, drop_left]

theorem parseLoop_next (h : file.drop it = b :: tail) : parseLoop file it stack =
    if b = START then
      match stack with
      | .empty _ => .invalid
      | .top current below =>
        if it + 1 = file.length then .invalid
        else
          match file[it + 1]? with
          | none => .overrun
          | some type => parseLoop file (it + 2) (.top (opened type (it + 2)) (current.endProps it :: below))
    else if b = END then
      match stack with
      | .empty _ => .invalid
      | .top current below => parseLoop file (it + 1) (pop (current.endProps it) below)
    else if b = ESCAPE then
      if it + 1 = file.length then .invalid else parseLoop file (it + 2) stack
    else parseLoop file (it + 1) stack := by
  obtain ⟨hlt, hget, -⟩ := drop_cons h
  rw [parseLoop.eq_def, if_neg (by omega)]
  split
  · next hnone => rw [hget] at hnone; cases hnone
  next c hc =>
  rw [hget] at hc
  obtain rfl := Option.some.inj hc
  rfl

theorem parseLoop_start {type : UInt8} (h : file.drop it = START :: type :: tail) :
    parseLoop file it (.top current below) =
      parseLoop file (it + 2) (.top (opened type (it + 2)) (current.endProps it :: below)) := by
  obtain ⟨-, -, hdrop⟩ := drop_cons h
  obtain ⟨hlt', hget', -⟩ := drop_cons hdrop
  rw [parseLoop_next h, if_pos rfl]
  dsimp only
  rw [if_neg (by omega), hget']

theorem parseLoop_end (h : file.drop it = END :: tail) :
    parseLoop file it (.top current below) = parseLoop file (it + 1) (pop (current.endProps it) below) := by
  rw [parseLoop_next h, if_neg (by decide), if_pos rfl]

theorem parseLoop_escape (h : file.drop it = ESCAPE :: b :: tail) :
    parseLoop file it stack = parseLoop file (it + 2) stack := by
  obtain ⟨-, -, hdrop⟩ := drop_cons h
  obtain ⟨hlt', -, -⟩ := drop_cons hdrop
  rw [parseLoop_next h, if_neg (by decide), if_neg (by decide), if_pos rfl, if_neg (by omega)]

theorem parseLoop_plain (h : file.drop it = b :: tail) (hs : b ≠ START) (he : b ≠ END) (hx : b ≠ ESCAPE) :
    parseLoop file it stack = parseLoop file (it + 1) stack := by
  rw [parseLoop_next h, if_neg hs, if_neg he, if_neg hx]

theorem parseLoop_after {root : Node} (h : file.drop it = b :: tail) (hb : b = START ∨ b = END) :
    parseLoop file it (.empty root) = .invalid := by
  rw [parseLoop_next h]
  rcases hb with rfl | rfl
  · rw [if_pos rfl]
  · rw [if_neg (by decide), if_pos rfl]

theorem parseLoop_cut (h : file.drop it = [b]) (hb : b = START ∨ b = ESCAPE) : parseLoop file it stack = .invalid := by
  obtain ⟨hlt, -, hdrop⟩ := drop_cons h
  have hlast : it + 1 = file.length := by
    have := drop_eq_nil_iff.mp hdrop
    omega
  rw [parseLoop_next h]
  rcases hb with rfl | rfl
  · cases stack with
    | empty root => rfl
    | top current below => exact if_pos hlast
  · rw [if_neg (by decide), if_neg (by decide), if_pos rfl, if_pos hlast]

end

/-! ## The round trip -/

mutual

/-- The node that a tree becomes whose encoding is at `it`. -/
def nodeAt (it : Nat) : Tree → Node
  | .node (type, props) children =>
    .node ⟨type, it + 2, some (it + 2 + (escape props).length)⟩ (nodesAt (it + 2 + (escape props).length) children)

def nodesAt (it : Nat) : List Tree → List Node
  | [] => []
  | t :: ts => nodeAt it t :: nodesAt (it + (encode t).length) ts

end

section
variable {file tail : Bytes} {it : Nat} {current : OpenNode} {below : List OpenNode}

theorem parseLoop_props {stack : Stack} (h : file.drop it = escape props ++ tail) :
    parseLoop file it stack = parseLoop file (it + (escape props).length) stack := by
  induction props generalizing it with
  | nil => rfl
  | cons b props ih =>
    have happ : escape (b :: props) = escapeByte b ++ escape props := rfl
    rw [happ, append_assoc] at h
    have hrest := ih (drop_append h)
    rw [happ, length_append, ← Nat.add_assoc, ← hrest]
    unfold escapeByte at h ⊢
    split at h
    · next hb =>
      rw [if_pos hb]
      exact parseLoop_escape h
    · next hb =>
      rw [if_neg hb]
      exact parseLoop_plain h (fun hs => hb (.inr (.inl hs))) (fun he => hb (.inr (.inr he)))
        (fun hx => hb (.inl hx))

theorem endProps_append (it : Nat) (n : OpenNode) (ns : List Node) (c : Node) :
    OpenNode.endProps it { n with children := ns ++ [c] } = { n with children := ns ++ [c] } := by
  simp [OpenNode.endProps]

theorem endProps_children (type : UInt8) (propsBegin it : Nat) (ts : List Tree) :
    OpenNode.endProps (it + (encodeAll ts).length) (if ts = [] then opened type propsBegin
      else { (opened type propsBegin).endProps it with
        children := ((opened type propsBegin).endProps it).children ++ nodesAt it ts }) =
    ⟨⟨type, propsBegin, some it⟩, nodesAt it ts⟩ := by
  cases ts with
  | nil => rfl
  | cons t ts => rfl

end

theorem length_encode (type : UInt8) (props : Bytes) (children : List Tree) :
    (encode (.node (type, props) children)).length = 2 + (escape props).length + (encodeAll children).length + 1 := by
  rw [encode]
  simp only [length_cons, length_append, length_nil]
  omega

mutual

theorem parseLoop_encode (t : Tree) {file tail : Bytes} {it : Nat} {current : OpenNode} {below : List OpenNode}
    (h : file.drop it = encode t ++ tail) : parseLoop file it (.top current below) =
      parseLoop file (it + (encode t).length)
        (.top { current.endProps it with children := (current.endProps it).children ++ [nodeAt it t] } below) := by
  match t with
  | .node (type, props) children =>
    rw [encode, cons_append, cons_append, append_assoc, append_assoc] at h
    have hprops : file.drop (it + 2) = escape props ++ (encodeAll children ++ (END :: tail)) :=
      (drop_cons (drop_cons h).2.2).2.2
    have hchildren := drop_append hprops
    have hend := drop_append hchildren
    rw [parseLoop_start h, parseLoop_props hprops, parseLoop_encodeAll children hchildren, parseLoop_end hend,
      endProps_children, pop, length_encode, nodeAt]
    congr 1
    omega

theorem parseLoop_encodeAll (ts : List Tree) {file tail : Bytes} {it : Nat} {current : OpenNode}
    {below : List OpenNode} (h : file.drop it = encodeAll ts ++ tail) :
    parseLoop file it (.top current below) = parseLoop file (it + (encodeAll ts).length)
      (.top (if ts = [] then current else
        { current.endProps it with children := (current.endProps it).children ++ nodesAt it ts }) below) := by
  match ts with
  | [] => rfl
  | t :: ts =>
    rw [encodeAll, append_assoc] at h
    rw [parseLoop_encode t h, parseLoop_encodeAll ts (drop_append h), encodeAll, length_append,
      ← Nat.add_assoc, endProps_append, if_neg (cons_ne_nil t ts), nodesAt]
    split
    · next hts =>
      rw [hts]
      rfl
    · rw [append_assoc]
      rfl

end

variable {file : Bytes} {it : Nat}

theorem parseTree_body {identifier : Bytes} (hid : identifier.length = 4) (t : Tree) :
    parseTree (identifier ++ encode t) = .ok (nodeAt 4 t) := by
  obtain ⟨⟨type, props⟩, children⟩ := t
  have hdrop : (identifier ++ encode (.node (type, props) children)).drop 4 =
      encode (.node (type, props) children) := drop_left' hid
  rw [encode] at hdrop ⊢
  generalize hfile : identifier ++ START :: type :: (escape props ++ (encodeAll children ++ [END])) = file at hdrop ⊢
  obtain ⟨-, hget4, hdrop5⟩ := drop_cons hdrop
  obtain ⟨-, hget5, hprops⟩ := drop_cons hdrop5
  have hchildren := drop_append hprops
  have hend := drop_append hchildren
  have hlast : file.length = 6 + (escape props).length + (encodeAll children).length + 1 := by
    rw [← hfile]
    simp only [length_append, length_cons, length_nil, hid]
    omega
  unfold parseTree
  rw [hget4]
  dsimp only
  rw [if_neg (by simp), hget5]
  dsimp only
  rw [parseLoop_props hprops, parseLoop_encodeAll children hchildren, parseLoop_end hend, endProps_children, pop,
    parseLoop.eq_def, if_pos hlast.symm, nodeAt]

theorem escape_eq_nil_iff : escape props = [] ↔ props = [] := by
  constructor
  · intro h
    rw [← unescape_props props, h, unescape_nil]
  · rintro rfl
    rfl

theorem getProps_escape {tail : Bytes} (type : UInt8) (h : file.drop it = escape props ++ tail)
    (hle : it + (escape props).length ≤ file.length) :
    getProps file ⟨type, it, some (it + (escape props).length)⟩ = .ok (if props = [] then none else some props) := by
  have hrange : (file.drop it).take (it + (escape props).length - it) = escape props := by
    rw [h, Nat.add_sub_cancel_left, take_left]
  unfold getProps
  dsimp only
  rw [if_neg (by omega), hrange]
  by_cases hnil : props = []
  · rw [if_pos hnil, hnil]
    rfl
  rw [if_neg hnil, if_neg (by simpa [escape_eq_nil_iff] using hnil), unescape_props]
  split
  · rfl
  · next hesc =>
    have hclean : ESCAPE ∉ escape props := fun hm => hesc (contains_iff_mem.mpr hm)
    rw [escape_clean hclean]

mutual

theorem readBack_nodeAt (t : Tree) {file tail : Bytes} {it : Nat} (h : file.drop it = encode t ++ tail) :
    readBack file (nodeAt it t) = some t := by
  match t with
  | .node (type, props) children =>
    have hlen := congrArg List.length h
    rw [length_drop, length_append, length_encode] at hlen
    rw [encode, cons_append, cons_append, append_assoc] at h
    have hprops := (drop_cons (drop_cons h).2.2).2.2
    have hchildren := drop_append hprops
    rw [append_assoc] at hchildren
    rw [nodeAt, readBack, getProps_escape type hprops (by omega), readBack_nodesAt children hchildren]
    grind

theorem readBack_nodesAt (ts : List Tree) {file tail : Bytes} {it : Nat} (h : file.drop it = encodeAll ts ++ tail) :
    readBackAll file (nodesAt it ts) = some ts := by
  match ts with
  | [] => rfl
  | t :: ts =>
    rw [encodeAll, append_assoc] at h
    rw [nodesAt, readBackAll, readBack_nodeAt t h, readBack_nodesAt ts (drop_append h)]

end

theorem load_encode {acceptedIdentifier identifier : Bytes} (hid : identifier.length = 4)
    (hok : identifier = acceptedIdentifier ∨ identifier = wildcard) {t : Tree}
    (ht : ∀ type, t ≠ .node (type, []) []) : ∃ root, load acceptedIdentifier (identifier ++ encode t) = .ok root ∧
      readBack (identifier ++ encode t) root = some t := by
  have hdrop : (identifier ++ encode t).drop 4 = encode t ++ [] := by
    rw [append_nil]
    exact drop_left' hid
  refine ⟨nodeAt 4 t, ?_, readBack_nodeAt t hdrop⟩
  have hsize : ¬ (identifier ++ encode t).length ≤ minimalSize := by
    obtain ⟨⟨type, props⟩, children⟩ := t
    rw [length_append, hid, length_encode]
    unfold minimalSize
    intro hle
    have hprops : props = [] := escape_eq_nil_iff.mp (length_eq_zero_iff.mp (by omega))
    have hchildren : children = [] := by
      cases children with
      | nil => rfl
      | cons c cs =>
        obtain ⟨⟨type', props'⟩, children'⟩ := c
        rw [encodeAll, length_append, length_encode] at hle
        omega
    exact ht type (by rw [hprops, hchildren])
  have htake : (identifier ++ encode t).take 4 = identifier := take_left' hid
  rw [load, if_neg hsize, htake, if_neg, parseTree_body hid]
  rintro ⟨hne, hne'⟩
  exact hok.elim hne hne'

/-! ## Markers -/

inductive Marker where
  | opening
  | closing

/-- The START and END bytes that are neither escaped nor type bytes; `none` when the bytes stop
    before a type byte or after an escape. -/
def markers : Bytes → Option (List Marker)
  | [] => some []
  | [b] => if b = START ∨ b = ESCAPE then none else if b = END then some [.closing] else some []
  | b :: c :: rest =>
    if b = START then (markers rest).map (.opening :: ·)
    else if b = END then (markers (c :: rest)).map (.closing :: ·)
    else if b = ESCAPE then markers rest
    else markers (c :: rest)

inductive Balanced : List Marker → Prop
  | nil : Balanced []
  | node {w v : List Marker} : Balanced w → Balanced v → Balanced (.opening :: (w ++ .closing :: v))

def OneRoot (file : Bytes) : Prop :=
  ∃ w, Balanced w ∧ markers (file.drop 4) = some (.opening :: (w ++ [.closing]))

/-- The markers close `n` open nodes, and nothing is left. -/
def Closes : Nat → List Marker → Prop
  | 0, ms => ms = []
  | n + 1, ms => ∃ w rest, Balanced w ∧ ms = w ++ .closing :: rest ∧ Closes n rest

theorem closes_opening {n : Nat} {ms : List Marker} (h : Closes (n + 2) ms) : Closes (n + 1) (.opening :: ms) := by
  obtain ⟨w, rest, hw, rfl, v, rest', hv, rfl, hrest⟩ := h
  refine ⟨.opening :: (w ++ .closing :: v), rest', .node hw hv, ?_, hrest⟩
  rw [cons_append, append_assoc, cons_append]

theorem closes_closing {n : Nat} {ms : List Marker} (h : Closes n ms) : Closes (n + 1) (.closing :: ms) :=
  ⟨[], ms, .nil, rfl, h⟩

theorem markers_start (type : UInt8) (rest : Bytes) :
    markers (START :: type :: rest) = (markers rest).map (.opening :: ·) := rfl

theorem markers_end (rest : Bytes) : markers (END :: rest) = (markers rest).map (.closing :: ·) := by
  cases rest <;> rfl

theorem markers_escape (b : UInt8) (rest : Bytes) : markers (ESCAPE :: b :: rest) = markers rest := rfl

theorem markers_plain {b : UInt8} (hs : b ≠ START) (he : b ≠ END) (hx : b ≠ ESCAPE) (rest : Bytes) :
    markers (b :: rest) = markers rest := by
  cases rest with
  | nil => simp only [markers, hs, he, hx, or_self, if_false]
  | cons c rest => rw [markers, if_neg hs, if_neg he, if_neg hx]

/-! ## What is not refused -/

def Within (file : Bytes) (d : NodeData) : Prop :=
  ∃ propsEnd, d.propsEnd = some propsEnd ∧ d.propsBegin ≤ propsEnd ∧ propsEnd ≤ file.length

/-- The nodes on the stack when the loop is at `it`. -/
def Stack.Within (file : Bytes) (it : Nat) : Stack → Prop
  | .empty root => ∀ d ∈ root.labels, Otb.Within file d
  | .top current below => current.data.propsBegin ≤ it ∧ (current.children ≠ [] → Otb.Within file current.data) ∧
      (∀ d ∈ RoseTree.labelsAll current.children, Otb.Within file d) ∧
      ∀ n ∈ below, Otb.Within file n.data ∧ n.data.propsBegin ≤ it ∧
        ∀ d ∈ RoseTree.labelsAll n.children, Otb.Within file d

def Stack.depth : Stack → Nat
  | .empty _ => 0
  | .top _ below => below.length + 1

/-- Never a read past the end; and where a tree is returned its markers were balanced. -/
def Result.Fine (file : Bytes) (it depth : Nat) : Result Node → Prop
  | .ok root => (∃ ms, markers (file.drop it) = some ms ∧ Closes depth ms) ∧ ∀ d ∈ root.labels, Within file d
  | .invalid => True
  | .overrun => False

theorem within_endProps {n : OpenNode} (hle : it ≤ file.length) (hb : n.data.propsBegin ≤ it)
    (hn : n.children ≠ [] → Within file n.data) : Within file (n.endProps it).data := by
  unfold OpenNode.endProps
  split
  · exact ⟨it, rfl, hb, hle⟩
  · next hne => exact hn fun h => hne (by rw [h]; rfl)

theorem children_endProps (it : Nat) (n : OpenNode) : (n.endProps it).children = n.children := by
  unfold OpenNode.endProps
  split <;> rfl

theorem propsBegin_endProps (it : Nat) (n : OpenNode) : (n.endProps it).data.propsBegin = n.data.propsBegin := by
  unfold OpenNode.endProps
  split <;> rfl

theorem within_start {type : UInt8} {current : OpenNode} {below : List OpenNode} (hle : it ≤ file.length)
    (h : (Stack.top current below).Within file it) :
    (Stack.top (opened type (it + 2)) (current.endProps it :: below)).Within file (it + 2) := by
  obtain ⟨hb, hn, hc, hbelow⟩ := h
  refine ⟨le_rfl, fun hne => absurd rfl hne, fun d hd => absurd hd not_mem_nil, ?_⟩
  intro n hmem
  rcases mem_cons.mp hmem with rfl | hmem
  · rw [children_endProps, propsBegin_endProps]
    exact ⟨within_endProps hle hb hn, by omega, hc⟩
  · obtain ⟨hw, hbn, hcn⟩ := hbelow n hmem
    exact ⟨hw, by omega, hcn⟩

theorem within_end {current : OpenNode} {below : List OpenNode} (hle : it ≤ file.length)
    (h : (Stack.top current below).Within file it) : (pop (current.endProps it) below).Within file (it + 1) := by
  obtain ⟨hb, hn, hc, hbelow⟩ := h
  have hlabels : ∀ d ∈ (RoseTree.node (current.endProps it).data (current.endProps it).children).labels,
      Within file d := by
    intro d hd
    rw [RoseTree.labels, children_endProps] at hd
    rcases mem_cons.mp hd with rfl | hd
    · exact within_endProps hle hb hn
    · exact hc d hd
  cases below with
  | nil => exact hlabels
  | cons parent below =>
    obtain ⟨hw, hbp, hcp⟩ := hbelow parent mem_cons_self
    refine ⟨Nat.le_succ_of_le hbp, fun _ => hw, ?_, ?_⟩
    · grind [labelsAll_append, RoseTree.labelsAll]
    · intro n hmem
      obtain ⟨hwn, hbn, hcn⟩ := hbelow n (mem_cons_of_mem parent hmem)
      exact ⟨hwn, Nat.le_succ_of_le hbn, hcn⟩

theorem Stack.Within.later {it' : Nat} {stack : Stack} (h : stack.Within file it) (hle : it ≤ it') :
    stack.Within file it' := by
  cases stack with
  | empty root => exact h
  | top current below =>
    obtain ⟨hb, hn, hc, hbelow⟩ := h
    exact ⟨hb.trans hle, hn, hc, fun n hmem => ⟨(hbelow n hmem).1, (hbelow n hmem).2.1.trans hle, (hbelow n hmem).2.2⟩⟩

theorem depth_pop (n : OpenNode) (below : List OpenNode) : (pop n below).depth = below.length := by
  cases below <;> rfl

theorem Result.Fine.before {it' n n' : Nat} {r : Result Node} (h : Fine file it' n' r)
    (hm : ∀ ms, markers (file.drop it') = some ms → Closes n' ms →
      ∃ ms', markers (file.drop it) = some ms' ∧ Closes n ms') : Fine file it n r := by
  cases r with
  | ok root =>
    obtain ⟨⟨ms, hms, hc⟩, hroot⟩ := h
    exact ⟨hm ms hms hc, hroot⟩
  | invalid => trivial
  | overrun => exact h

theorem parseLoop_fine (file : Bytes) (k it : Nat) (stack : Stack) (hk : file.length - it ≤ k)
    (hle : it ≤ file.length) (hw : stack.Within file it) :
    Result.Fine file it stack.depth (parseLoop file it stack) := by
  induction k generalizing it stack with
  | zero =>
    have hend : it = file.length := by omega
    rw [parseLoop.eq_def, if_pos hend]
    cases stack with
    | empty root => exact ⟨⟨[], by rw [hend, drop_length]; rfl, rfl⟩, hw⟩
    | top current below => trivial
  | succ k ih =>
    by_cases hend : it = file.length
    · rw [parseLoop.eq_def, if_pos hend]
      cases stack with
      | empty root => exact ⟨⟨[], by rw [hend, drop_length]; rfl, rfl⟩, hw⟩
      | top current below => trivial
    · have hlt : it < file.length := by omega
      obtain ⟨b, tail, hb⟩ : ∃ b tail, file.drop it = b :: tail := ⟨_, _, drop_eq_getElem_cons hlt⟩
      have hdrop := (drop_cons hb).2.2
      by_cases hs : b = START
      · subst hs
        cases tail with
        | nil =>
          rw [parseLoop_cut hb (.inl rfl)]
          trivial
        | cons type rest =>
          have hlt' := (drop_cons hdrop).1
          have hrest := (drop_cons hdrop).2.2
          cases stack with
          | empty root =>
            rw [parseLoop_after hb (.inl rfl)]
            trivial
          | top current below =>
            rw [parseLoop_start hb]
            refine (ih _ _ (by omega) (by omega) (within_start hle hw)).before fun ms hms hc => ?_
            rw [hb, markers_start, ← hrest, hms]
            exact ⟨.opening :: ms, rfl, closes_opening hc⟩
      by_cases he : b = END
      · subst he
        cases stack with
        | empty root =>
          rw [parseLoop_after hb (.inr rfl)]
          trivial
        | top current below =>
          rw [parseLoop_end hb]
          refine (ih _ _ (by omega) (by omega) (within_end hle hw)).before fun ms hms hc => ?_
          rw [depth_pop] at hc
          rw [hb, markers_end, ← hdrop, hms]
          exact ⟨.closing :: ms, rfl, closes_closing hc⟩
      by_cases hx : b = ESCAPE
      · subst hx
        cases tail with
        | nil =>
          rw [parseLoop_cut hb (.inr rfl)]
          trivial
        | cons c rest =>
          have hlt' := (drop_cons hdrop).1
          have hrest := (drop_cons hdrop).2.2
          rw [parseLoop_escape hb]
          refine (ih _ _ (by omega) (by omega) (hw.later (by omega))).before fun ms hms hc => ?_
          rw [hb, markers_escape, ← hrest, hms]
          exact ⟨ms, rfl, hc⟩
      · rw [parseLoop_plain hb hs he hx]
        refine (ih _ _ (by omega) (by omega) (hw.later (by omega))).before fun ms hms hc => ?_
        rw [hb, markers_plain hs he hx, ← hdrop, hms]
        exact ⟨ms, rfl, hc⟩

theorem load_fine (acceptedIdentifier file : Bytes) : load acceptedIdentifier file = .invalid ∨
    ∃ root, load acceptedIdentifier file = .ok root ∧ OneRoot file ∧ ∀ d ∈ root.labels, Within file d := by
  by_cases hsize : file.length ≤ minimalSize
  · exact .inl (if_pos hsize)
  by_cases hid : file.take 4 ≠ acceptedIdentifier ∧ file.take 4 ≠ wildcard
  · refine .inl ?_
    rw [load, if_neg hsize, if_pos hid]
  rw [load, if_neg hsize, if_neg hid]
  unfold minimalSize at hsize
  have hdrop4 := drop_eq_getElem_cons (show 4 < file.length by omega)
  have hdrop5 := drop_eq_getElem_cons (show 5 < file.length by omega)
  rw [parseTree, (drop_cons hdrop4).2.1]
  dsimp only
  by_cases hstart : file[4] = START
  · rw [if_neg (not_not.mpr hstart), (drop_cons hdrop5).2.1]
    dsimp only
    have hfine := parseLoop_fine file file.length 6 (.top (opened file[5] 6) []) (by omega) (by omega)
      ⟨le_rfl, fun hne => absurd rfl hne, fun d hd => absurd hd not_mem_nil,
        fun n hn => absurd hn not_mem_nil⟩
    cases hparse : parseLoop file 6 (.top (opened file[5] 6) []) with
    | ok root =>
      rw [hparse] at hfine
      obtain ⟨⟨ms, hms, w, rest, hw, rfl, hrest⟩, hroot⟩ := hfine
      obtain rfl : rest = [] := hrest
      refine .inr ⟨root, rfl, ⟨w, hw, ?_⟩, hroot⟩
      rw [hdrop4, hdrop5, hstart, markers_start, hms]
      rfl
    | invalid => exact .inl rfl
    | overrun =>
      rw [hparse] at hfine
      exact absurd hfine id
  · rw [if_pos hstart]
    exact .inl rfl

theorem getProps_within {d : NodeData} (h : Within file d) : ∃ props, getProps file d = .ok props := by
  obtain ⟨e, he, hb, hle⟩ := h
  unfold getProps
  rw [he]
  dsimp only
  rw [if_neg (by omega)]
  split
  · exact ⟨_, rfl⟩
  · split <;> exact ⟨_, rfl⟩

/-- Every tree but one node alone and empty is read back from its encoding; and every file is
    refused, or its markers are one balanced root and all reads are inside it. -/
theorem otb_parsing (acceptedIdentifier : Bytes) :
    (∀ (identifier : Bytes) (t : Tree), identifier.length = 4 →
      (identifier = acceptedIdentifier ∨ identifier = wildcard) → (∀ type, t ≠ .node (type, []) []) →
      ∃ root, load acceptedIdentifier (identifier ++ encode t) = .ok root ∧
        readBack (identifier ++ encode t) root = some t) ∧
    ∀ file, load acceptedIdentifier file = .invalid ∨
      ∃ root, load acceptedIdentifier file = .ok root ∧ OneRoot file ∧
        ∀ d ∈ root.labels, ∃ props, getProps file d = .ok props := by
  refine ⟨fun identifier t hid hok ht => load_encode hid hok ht, fun file => ?_⟩
  refine (load_fine acceptedIdentifier file).imp_right ?_
  rintro ⟨root, hroot, hone, hwithin⟩
  exact ⟨root, hroot, hone, fun d hd => getProps_within (hwithin d hd)⟩

/-- A root with a child of type END, whose properties are the markers. -/
def nested : Tree := .node (0, [1]) [.node (0xFF, [ESCAPE, START, END]) []]

theorem otb_parsing_nested : (∃ root, load wildcard (wildcard ++ encode nested) = .ok root ∧
    readBack (wildcard ++ encode nested) root = some nested) ∧
    (load wildcard [] = .invalid ∨ ∃ root, load wildcard [] = .ok root ∧ OneRoot [] ∧
      ∀ d ∈ root.labels, ∃ props, getProps [] d = .ok props) :=
  ⟨(otb_parsing wildcard).1 wildcard nested rfl (.inl rfl) (by intro type h; cases h),
    (otb_parsing wildcard).2 []⟩

/-- One node alone, without properties, is one byte too short for the loader. -/
theorem bare_root_refused : ¬ ∀ (acceptedIdentifier identifier : Bytes) (t : Tree), identifier.length = 4 →
    (identifier = acceptedIdentifier ∨ identifier = wildcard) →
    ∃ root, load acceptedIdentifier (identifier ++ encode t) = .ok root ∧
      readBack (identifier ++ encode t) root = some t := by
  intro h
  obtain ⟨root, hroot, -⟩ := h wildcard wildcard (.node (0, []) []) rfl (.inl rfl)
  cases hroot

end Backlands.Otb
