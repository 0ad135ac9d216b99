/-
  Backlands.Kv.Format — which byte strings `ValueWrapper::deserialize` takes.

  A `Tree` is what a byte string spells for the reader: the values of the format, and the
  tags that stand alone. `Null` is one of them; a tag that the switch does not know is
  another, since the reader leaves the switch and returns the same empty value for it.

  Proved: a tree's bytes are read back as the tree and nothing else is accepted
  (`parses_readTree`, `readTree_spelt`), no tree's bytes begin another's
  (`bytes_append_inj`), and `deserialize` reads trees (`deser_eq`). So `codec_iff`: what is
  written is read back, what is cut short is refused, and a value with a tag outside the
  format is refused unless the bytes spell out a whole tree around it.
-/

import Backlands.Kv.Value

namespace Backlands.Kv

open Backlands.Lib List

inductive Tree where
  | bare (tag : UInt8)
  | boolean (b : UInt8)
  | int (i : BitVec 32)
  | double (d : BitVec 64)
  | string (s : Bytes)
  | array (items : List Tree)
  | map (entries : List (Bytes × Tree))

instance : Inhabited Tree := ⟨.bare 0⟩

mutual

def Tree.bytes : Tree → Bytes
  | .bare tag => [tag]
  | .boolean b => [1, b]
  | .int i => 2 :: le 4 i.toNat
  | .double d => 3 :: le 8 d.toNat
  | .string s => 4 :: (le 4 s.length ++ s)
  | .array items => 5 :: (le 4 items.length ++ bytesItems items)
  | .map entries => 6 :: (le 4 entries.length ++ bytesEntries entries)

def bytesItems : List Tree → Bytes
  | [] => []
  | t :: ts => t.bytes ++ bytesItems ts

def bytesEntries : List (Bytes × Tree) → Bytes
  | [] => []
  | (k, t) :: es => le 4 k.length ++ k ++ t.bytes ++ bytesEntries es

end

mutual

def Tree.fits : Tree → Bool
  | .bare tag => tag == 0 || decide (6 < tag)
  | .boolean _ => true
  | .int _ => true
  | .double _ => true
  | .string s => decide (s.length < 2 ^ 32)
  | .array items => decide (items.length ≤ 1000000) && fitsTrees items
  | .map entries => decide (entries.length ≤ 1000000) && fitsFields entries

def fitsTrees : List Tree → Bool
  | [] => true
  | t :: ts => t.fits && fitsTrees ts

def fitsFields : List (Bytes × Tree) → Bool
  | [] => true
  | (k, t) :: es => decide (k.length < 2 ^ 32) && t.fits && fitsFields es

end

mutual

def Tree.value : Tree → Value
  | .bare _ => .string []
  | .boolean b => .boolean (b != 0)
  | .int i => .int i
  | .double d => .double d
  | .string s => .string s
  | .array items => .array (valueItems items)
  | .map entries => .map ((valueEntries entries).foldl (fun m e => assign m e.1 e.2) [])

def valueItems : List Tree → List Value
  | [] => []
  | t :: ts => t.value :: valueItems ts

def valueEntries : List (Bytes × Tree) → List (Bytes × Value)
  | [] => []
  | (k, t) :: es => (k, t.value) :: valueEntries es

end

mutual

/-- Some value of the tree starts with a tag outside the format. -/
def Tree.unknown : Tree → Bool
  | .bare tag => decide (6 < tag)
  | .boolean _ => false
  | .int _ => false
  | .double _ => false
  | .string _ => false
  | .array items => unknownItems items
  | .map entries => unknownEntries entries

def unknownItems : List Tree → Bool
  | [] => false
  | t :: ts => t.unknown || unknownItems ts

def unknownEntries : List (Bytes × Tree) → Bool
  | [] => false
  | (_, t) :: es => t.unknown || unknownEntries es

end

def fieldBytes (e : Bytes × Tree) : Bytes := le 4 e.1.length ++ e.1 ++ e.2.bytes

theorem bytesItems_eq (ts : List Tree) : bytesItems ts = ts.flatMap Tree.bytes := by
  induction ts with
  | nil => rw [bytesItems]; rfl
  | cons t ts ih => rw [bytesItems, ih, flatMap_cons]

theorem bytesEntries_eq (es : List (Bytes × Tree)) : bytesEntries es = es.flatMap fieldBytes := by
  induction es with
  | nil => rw [bytesEntries]; rfl
  | cons e es ih =>
    rw [bytesEntries, ih, flatMap_cons]
    rfl

theorem fitsTrees_iff (ts : List Tree) : fitsTrees ts = true ↔ ∀ t ∈ ts, t.fits = true := by
  induction ts with
  | nil => simp [fitsTrees]
  | cons t ts ih => simp [fitsTrees, ih]

theorem fitsFields_iff (es : List (Bytes × Tree)) :
    fitsFields es = true ↔ ∀ e ∈ es, e.1.length < 2 ^ 32 ∧ e.2.fits = true := by
  induction es with
  | nil => simp [fitsFields]
  | cons e es ih =>
    simp [fitsFields, ih, and_assoc]

theorem valueItems_eq (ts : List Tree) : valueItems ts = ts.map Tree.value := by
  induction ts with
  | nil => rw [valueItems]; rfl
  | cons t ts ih => rw [valueItems, ih, map_cons]

theorem valueEntries_eq (es : List (Bytes × Tree)) : valueEntries es = es.map fun e => (e.1, e.2.value) := by
  induction es with
  | nil => rw [valueEntries]; rfl
  | cons e es ih =>
    rw [valueEntries, ih, map_cons]

theorem unknownItems_iff (ts : List Tree) : unknownItems ts = true ↔ ∃ t ∈ ts, t.unknown = true := by
  induction ts with
  | nil => simp [unknownItems]
  | cons t ts ih => simp [unknownItems, ih]

theorem unknownEntries_iff (es : List (Bytes × Tree)) :
    unknownEntries es = true ↔ ∃ e ∈ es, e.2.unknown = true := by
  induction es with
  | nil => simp [unknownEntries]
  | cons e es ih =>
    simp [unknownEntries, ih]

theorem fits_bare_iff (tag : UInt8) : (Tree.bare tag).fits = true ↔
    tag ≠ 1 ∧ tag ≠ 2 ∧ tag ≠ 3 ∧ tag ≠ 4 ∧ tag ≠ 5 ∧ tag ≠ 6 := by
  simp only [Tree.fits, Bool.or_eq_true, beq_iff_eq, decide_eq_true_eq, UInt8.lt_iff_toNat_lt, ne_eq,
    ← UInt8.toNat_inj]
  show tag.toNat = 0 ∨ 6 < tag.toNat ↔ ¬ tag.toNat = 1 ∧ ¬ tag.toNat = 2 ∧ ¬ tag.toNat = 3 ∧
    ¬ tag.toNat = 4 ∧ ¬ tag.toNat = 5 ∧ ¬ tag.toNat = 6
  omega

theorem bytes_ne_nil (t : Tree) : t.bytes ≠ [] := by
  cases t <;> simp [Tree.bytes]

/-! ## Reading a tree -/

def readField (p : Reader Tree) : Reader (Bytes × Tree) := readString.bind fun key => p.map fun t => (key, t)

def readTree : Nat → Reader Tree
  | 0, _ => none
  | _ + 1, [] => none
  | fuel + 1, tag :: bs =>
    if tag = 1 then
      match bs with
      | [] => none
      | b :: bs => some (.boolean b, bs)
    else if tag = 2 then (readUInt 4).map (fun n => .int (BitVec.ofNat 32 n)) bs
    else if tag = 3 then (readUInt 8).map (fun n => .double (BitVec.ofNat 64 n)) bs
    else if tag = 4 then readString.map .string bs
    else if tag = 5 then ((readCount.bind (readTree fuel).times).map .array) bs
    else if tag = 6 then ((readCount.bind (readField (readTree fuel)).times).map .map) bs
    else some (.bare tag, bs)

theorem parses_readTree (fuel : Nat) (t : Tree) (ht : t.fits = true) (hf : t.bytes.length ≤ fuel) :
    Parses (readTree fuel) t.bytes t := by
  induction fuel generalizing t with
  | zero => exact absurd (length_eq_zero_iff.mp (Nat.le_zero.mp hf)) (bytes_ne_nil t)
  | succ fuel ih =>
    intro rest
    cases t with
    | bare tag =>
      obtain ⟨h1, h2, h3, h4, h5, h6⟩ := (fits_bare_iff tag).mp ht
      show readTree (fuel + 1) (tag :: rest) = _
      simp only [readTree, h1, h2, h3, h4, h5, h6, if_false]
    | boolean b => rfl
    | int i =>
      have h := (parses_readUInt (w := 4) i.isLt).map (fun n => Tree.int (BitVec.ofNat 32 n)) rest
      rwa [BitVec.ofNat_toNat, BitVec.setWidth_eq] at h
    | double d =>
      have h := (parses_readUInt (w := 8) d.isLt).map (fun n => Tree.double (BitVec.ofNat 64 n)) rest
      rwa [BitVec.ofNat_toNat, BitVec.setWidth_eq] at h
    | string s =>
      rw [Tree.fits, decide_eq_true_iff] at ht
      exact (parses_readString ht).map Tree.string rest
    | array items =>
      simp only [Tree.fits, Bool.and_eq_true, decide_eq_true_eq, fitsTrees_iff] at ht
      simp only [Tree.bytes, bytesItems_eq, length_cons, length_append] at hf ⊢
      have hitem : ∀ w ∈ items, Parses (readTree fuel) w.bytes w := by
        intro w hw
        have hlen := length_le_of_mem Tree.bytes hw
        exact ih w (ht.2 w hw) (by omega)
      exact (parses_counted ht.1 (fun w _ => bytes_ne_nil w) hitem).map Tree.array rest
    | map entries =>
      simp only [Tree.fits, Bool.and_eq_true, decide_eq_true_eq, fitsFields_iff] at ht
      simp only [Tree.bytes, bytesEntries_eq, length_cons, length_append] at hf ⊢
      have hfield : ∀ e ∈ entries, Parses (readField (readTree fuel)) (fieldBytes e) e := by
        intro e he
        have hlen := length_le_of_mem fieldBytes he
        have hval : e.2.bytes.length ≤ fuel := by
          simp only [fieldBytes, length_append] at hlen
          omega
        exact (parses_readString (ht.2 e he).1).bind ((ih e.2 (ht.2 e he).2 hval).map fun t => (e.1, t))
      have hne : ∀ e ∈ entries, fieldBytes e ≠ [] := by
        simp [fieldBytes, bytes_ne_nil]
      exact (parses_counted ht.1 hne hfield).map Tree.map rest

/-! ## What is read was spelt out -/

theorem readString_spelt {bs rest s : Bytes} (h : readString bs = some (s, rest)) :
    bs = le 4 s.length ++ s ++ rest ∧ s.length < 2 ^ 32 := by
  refine ⟨?_, readString_lt h⟩
  obtain ⟨n, mid, hn, hc⟩ := Reader.bind_eq_some h
  obtain ⟨hlen, happ⟩ := cut_eq_some hc
  rw [readUInt_eq_some hn, happ, hlen, append_assoc]

theorem readCount_spelt {bs rest : Bytes} {n : Nat} (h : readCount bs = some (n, rest)) : bs = le 4 n ++ rest := by
  obtain ⟨m, mid, hm, hc⟩ := Reader.bind_eq_some h
  split at hc
  · cases hc
  · cases hc
    exact readUInt_eq_some hm

theorem counted_spelt {α : Type*} {p : Reader α} (enc : α → Bytes) (P : α → Prop)
    (hp : ∀ {bs a rest}, p bs = some (a, rest) → bs = enc a ++ rest ∧ P a) {bs rest : Bytes} {as : List α}
    (h : readCount.bind p.times bs = some (as, rest)) :
    bs = le 4 as.length ++ as.flatMap enc ++ rest ∧ as.length ≤ 1000000 ∧ ∀ a ∈ as, P a := by
  obtain ⟨n, mid, hn, htimes⟩ := Reader.bind_eq_some h
  obtain ⟨hlen, hmid, hall⟩ := Reader.times_spelt hp htimes
  have hle := readCount_le hn
  rw [readCount_spelt hn, hmid, hlen, append_assoc]
  exact ⟨rfl, hle, hall⟩

theorem readTree_spelt (fuel : Nat) {bs rest : Bytes} {t : Tree} (h : readTree fuel bs = some (t, rest)) :
    bs = t.bytes ++ rest ∧ t.fits = true := by
  induction fuel generalizing bs rest t with
  | zero => cases h
  | succ fuel ih =>
    cases bs with
    | nil => cases h
    | cons tag bs =>
      simp only [readTree] at h
      split at h
      · next htag =>
        cases bs with
        | nil => cases h
        | cons b bs =>
          cases h
          exact ⟨by rw [htag]; rfl, rfl⟩
      split at h
      · next htag =>
        obtain ⟨n, hn, rfl⟩ := Reader.map_eq_some h
        have hlt : n < 2 ^ 32 := readUInt_lt hn
        refine ⟨?_, rfl⟩
        rw [htag, readUInt_eq_some hn, Tree.bytes, BitVec.toNat_ofNat, Nat.mod_eq_of_lt hlt]
        rfl
      split at h
      · next htag =>
        obtain ⟨n, hn, rfl⟩ := Reader.map_eq_some h
        have hlt : n < 2 ^ 64 := readUInt_lt hn
        refine ⟨?_, rfl⟩
        rw [htag, readUInt_eq_some hn, Tree.bytes, BitVec.toNat_ofNat, Nat.mod_eq_of_lt hlt]
        rfl
      split at h
      · next htag =>
        obtain ⟨s, hs, rfl⟩ := Reader.map_eq_some h
        obtain ⟨happ, hlt⟩ := readString_spelt hs
        rw [htag, happ]
        exact ⟨rfl, decide_eq_true hlt⟩
      split at h
      · next htag =>
        obtain ⟨items, hi, rfl⟩ := Reader.map_eq_some h
        obtain ⟨happ, hle, hall⟩ := counted_spelt Tree.bytes (fun t => t.fits = true) ih hi
        rw [htag, happ, Tree.bytes, bytesItems_eq]
        simp only [Tree.fits, Bool.and_eq_true, decide_eq_true_eq, fitsTrees_iff]
        exact ⟨rfl, hle, hall⟩
      split at h
      · next htag =>
        obtain ⟨entries, he, rfl⟩ := Reader.map_eq_some h
        have hfield : ∀ {bs : Bytes} {e : Bytes × Tree} {rest : Bytes}, readField (readTree fuel) bs = some (e, rest) →
            bs = fieldBytes e ++ rest ∧ e.1.length < 2 ^ 32 ∧ e.2.fits = true := by
          intro bs e rest hr
          obtain ⟨k, mid, hk, hv⟩ := Reader.bind_eq_some hr
          obtain ⟨w, hw, rfl⟩ := Reader.map_eq_some hv
          obtain ⟨hkapp, hklt⟩ := readString_spelt hk
          obtain ⟨hwapp, hwfits⟩ := ih hw
          refine ⟨?_, hklt, hwfits⟩
          rw [hkapp, hwapp, fieldBytes, append_assoc _ w.bytes]
        obtain ⟨happ, hle, hall⟩ := counted_spelt fieldBytes (fun e => e.1.length < 2 ^ 32 ∧ e.2.fits = true)
          hfield he
        rw [htag, happ, Tree.bytes, bytesEntries_eq]
        simp only [Tree.fits, Bool.and_eq_true, decide_eq_true_eq, fitsFields_iff]
        exact ⟨rfl, hle, hall⟩
      · next h1 h2 h3 h4 h5 h6 =>
        cases h
        exact ⟨rfl, (fits_bare_iff tag).mpr ⟨h1, h2, h3, h4, h5, h6⟩⟩

/-! ## The reader of values reads trees -/

variable {data : Bytes} {t : Tree}

theorem readEntry_map (p : Reader Tree) : readEntry (p.map Tree.value) =
    (readField p).map fun e => (e.1, e.2.value) := by
  unfold readEntry readField
  simp only [Reader.map_bind, Reader.map_map]

theorem counted_map {α β : Type*} (p : Reader α) (f : α → β) :
    readCount.bind (p.map f).times = (readCount.bind p.times).map (List.map f) := by
  rw [Reader.map_bind]
  exact congrArg _ (funext (Reader.times_map p f))

theorem deser_eq (fuel : Nat) : deser fuel = (readTree fuel).map Tree.value := by
  induction fuel with
  | zero => rfl
  | succ fuel ih =>
    have hitems : (readCount.bind (deser fuel).times).map Value.array =
        ((readCount.bind (readTree fuel).times).map Tree.array).map Tree.value := by
      simp [ih, counted_map, Reader.map_map, Tree.value, valueItems_eq]
    have hentries : ((readCount.bind (readEntry (deser fuel)).times).map fun es =>
          Value.map (es.foldl (fun m e => assign m e.1 e.2) [])) =
        ((readCount.bind (readField (readTree fuel)).times).map Tree.map).map Tree.value := by
      rw [ih, readEntry_map, counted_map, Reader.map_map, Reader.map_map]
      simp only [Tree.value, valueEntries_eq]
    funext bs
    cases bs with
    | nil => rfl
    | cons tag bs =>
      simp only [deser, hitems, hentries]
      simp only [Reader.map, readTree]
      split
      · cases bs <;> rfl
      split
      · rw [Option.map_map]
        rfl
      split
      · rw [Option.map_map]
        rfl
      split
      · rw [Option.map_map]
        rfl
      split
      · rfl
      split <;> rfl

theorem deserialize_eq_some {v : Value} (h : deserialize data = some v) :
    ∃ (t : Tree) (rest : Bytes), t.fits = true ∧ data = t.bytes ++ rest ∧ t.value = v := by
  obtain ⟨⟨w, rest⟩, hd, rfl⟩ := Option.map_eq_some_iff.mp h
  rw [deser_eq] at hd
  obtain ⟨t, ht, hv⟩ := Reader.map_eq_some hd
  obtain ⟨happ, hfits⟩ := readTree_spelt _ ht
  exact ⟨t, rest, hfits, happ, hv⟩

theorem deserialize_bytes (ht : t.fits = true) (rest : Bytes) : deserialize (t.bytes ++ rest) = some t.value := by
  have hp := parses_readTree (t.bytes ++ rest).length t ht (by rw [length_append]; omega) rest
  rw [deserialize, deser_eq, Reader.map, hp, Option.map_some, Option.map_some]

/-! ## No tree's bytes begin another's -/

theorem bytes_append_inj {u : Tree} (ht : t.fits = true) (hu : u.fits = true) {bs cs : Bytes}
    (h : t.bytes ++ bs = u.bytes ++ cs) : t = u ∧ bs = cs := by
  have hpt := parses_readTree (t.bytes.length + u.bytes.length) t ht (by omega) bs
  have hpu := parses_readTree (t.bytes.length + u.bytes.length) u hu (by omega) cs
  rw [h, hpu] at hpt
  obtain ⟨rfl, rfl⟩ := Prod.mk.inj (Option.some.inj hpt)
  exact ⟨rfl, rfl⟩

/-- Of two runs of items in the same bytes the shorter begins the longer. -/
theorem flatMap_append_inj {α : Type*} {enc : α → Bytes} {P : α → Prop}
    (hinj : ∀ {a b : α}, P a → P b → ∀ {bs cs : Bytes}, enc a ++ bs = enc b ++ cs → a = b ∧ bs = cs)
    {as bs : List α} (ha : ∀ a ∈ as, P a) (hb : ∀ b ∈ bs, P b) {cs ds : Bytes} (hlt : as.length < bs.length)
    (h : as.flatMap enc ++ cs = bs.flatMap enc ++ ds) :
    ∃ (b : α) (bs' : List α), b ∈ bs ∧ cs = enc b ++ (bs'.flatMap enc ++ ds) := by
  induction as generalizing bs with
  | nil =>
    cases bs with
    | nil => cases hlt
    | cons b bs =>
      refine ⟨b, bs, mem_cons_self, ?_⟩
      rw [← append_assoc, ← flatMap_cons]
      exact h
  | cons a as ih =>
    cases bs with
    | nil => cases hlt
    | cons b bs =>
      rw [flatMap_cons, flatMap_cons, append_assoc, append_assoc] at h
      obtain ⟨-, htail⟩ := hinj (ha a mem_cons_self) (hb b mem_cons_self) h
      obtain ⟨c, cs', hc, hcs⟩ := ih (fun d hd => ha d (mem_cons_of_mem a hd))
        (fun d hd => hb d (mem_cons_of_mem b hd)) (by simpa using hlt) htail
      exact ⟨c, cs', mem_cons_of_mem b hc, hcs⟩

/-! ## Tags outside the format -/

/-- Reading from the front, the data comes to a value whose first byte is no tag of the format. -/
inductive Meets : Bytes → Prop
  | here {tag : UInt8} {bs : Bytes} : 6 < tag → Meets (tag :: bs)
  | item (count : Nat) {items : List Tree} {bs : Bytes} : (∀ t ∈ items, t.fits = true) →
      items.length < count → count ≤ 1000000 → Meets bs →
      Meets (5 :: (le 4 count ++ (items.flatMap Tree.bytes ++ bs)))
  | entry (count : Nat) {entries : List (Bytes × Tree)} {key bs : Bytes} :
      (∀ e ∈ entries, e.1.length < 2 ^ 32 ∧ e.2.fits = true) → entries.length < count → count ≤ 1000000 →
      key.length < 2 ^ 32 → Meets bs →
      Meets (6 :: (le 4 count ++ (entries.flatMap fieldBytes ++ (le 4 key.length ++ (key ++ bs)))))

theorem le_append_inj {w m n : Nat} (hm : m < 256 ^ w) (hn : n < 256 ^ w) {bs cs : Bytes}
    (h : le w m ++ bs = le w n ++ cs) : m = n ∧ bs = cs := by
  have hp := parses_readUInt hm bs
  rw [h, parses_readUInt hn cs] at hp
  obtain ⟨rfl, rfl⟩ := Prod.mk.inj (Option.some.inj hp)
  exact ⟨rfl, rfl⟩

theorem string_append_inj {s u : Bytes} (hs : s.length < 2 ^ 32) (hu : u.length < 2 ^ 32) {bs cs : Bytes}
    (h : le 4 s.length ++ (s ++ bs) = le 4 u.length ++ (u ++ cs)) : s = u ∧ bs = cs := by
  obtain ⟨hlen, happ⟩ := le_append_inj hs hu h
  exact append_inj happ hlen

theorem fieldBytes_append_inj {e f : Bytes × Tree} (he : e.1.length < 2 ^ 32 ∧ e.2.fits = true)
    (hf : f.1.length < 2 ^ 32 ∧ f.2.fits = true) {bs cs : Bytes}
    (h : fieldBytes e ++ bs = fieldBytes f ++ cs) : e = f ∧ bs = cs := by
  unfold fieldBytes at h
  simp only [append_assoc] at h
  obtain ⟨hkey, htail⟩ := string_append_inj he.1 hf.1 h
  obtain ⟨hval, hrest⟩ := bytes_append_inj he.2 hf.2 htail
  exact ⟨Prod.ext hkey hval, hrest⟩

theorem meets_of_unknown (n : Nat) (t : Tree) (hn : t.bytes.length ≤ n) (ht : t.fits = true)
    (hu : t.unknown = true) (rest : Bytes) : Meets (t.bytes ++ rest) := by
  induction n generalizing t rest with
  | zero => exact absurd (length_eq_zero_iff.mp (Nat.le_zero.mp hn)) (bytes_ne_nil t)
  | succ n ih =>
    cases t with
    | bare tag => exact .here (of_decide_eq_true hu)
    | boolean b => cases hu
    | int i => cases hu
    | double d => cases hu
    | string s => cases hu
    | array items =>
      obtain ⟨w, hw, hwu⟩ := (unknownItems_iff items).mp hu
      simp only [Tree.fits, Bool.and_eq_true, decide_eq_true_eq, fitsTrees_iff] at ht
      simp only [Tree.bytes, bytesItems_eq, length_cons, length_append] at hn ⊢
      have hlen := length_le_of_mem Tree.bytes hw
      obtain ⟨before, after, rfl⟩ := append_of_mem hw
      have hin := ih w (by omega) (ht.2 w hw) hwu (after.flatMap Tree.bytes ++ rest)
      have hm := Meets.item (before ++ w :: after).length
        (fun t h => ht.2 t (mem_append_left _ h)) (by simp) ht.1 hin
      simpa only [flatMap_append, flatMap_cons, append_assoc, cons_append] using hm
    | map entries =>
      obtain ⟨⟨k, w⟩, hw, hwu⟩ := (unknownEntries_iff entries).mp hu
      simp only [Tree.fits, Bool.and_eq_true, decide_eq_true_eq, fitsFields_iff] at ht
      simp only [Tree.bytes, bytesEntries_eq, length_cons, length_append] at hn ⊢
      have hlen := length_le_of_mem fieldBytes hw
      have hval : w.bytes.length ≤ n := by
        simp only [fieldBytes, length_append] at hlen
        omega
      obtain ⟨before, after, rfl⟩ := append_of_mem hw
      have hin := ih w hval (ht.2 _ hw).2 hwu (after.flatMap fieldBytes ++ rest)
      have hm := Meets.entry (before ++ (k, w) :: after).length
        (fun e h => ht.2 e (mem_append_left _ h)) (by simp) ht.1 (ht.2 _ hw).1 hin
      simpa only [flatMap_append, flatMap_cons, fieldBytes, append_assoc, cons_append] using hm

theorem unknown_of_meets (h : Meets data) {rest : Bytes} (ht : t.fits = true) (hd : data = t.bytes ++ rest) :
    t.unknown = true := by
  induction h generalizing t rest with
  | @here tag bs htag =>
    have hne (k : UInt8) (hk : k ≤ 6) : tag ≠ k := by
      intro heq
      exact absurd (heq ▸ htag) (UInt8.not_lt.mpr hk)
    cases t with
    | bare tag' =>
      obtain ⟨rfl, -⟩ := List.cons.inj hd
      exact decide_eq_true htag
    | boolean b => exact absurd (List.cons.inj hd).1 (hne 1 (by decide))
    | int i => exact absurd (List.cons.inj hd).1 (hne 2 (by decide))
    | double d => exact absurd (List.cons.inj hd).1 (hne 3 (by decide))
    | string s => exact absurd (List.cons.inj hd).1 (hne 4 (by decide))
    | array items => exact absurd (List.cons.inj hd).1 (hne 5 (by decide))
    | map entries => exact absurd (List.cons.inj hd).1 (hne 6 (by decide))
  | @item count items bs hitems hlt hle _ ih =>
    cases t with
    | array items' =>
      simp only [Tree.fits, Bool.and_eq_true, decide_eq_true_eq, fitsTrees_iff] at ht
      simp only [Tree.bytes, bytesItems_eq, cons_append, append_assoc] at hd
      obtain ⟨rfl, happ⟩ := le_append_inj (by omega) (by omega) (List.cons.inj hd).2
      obtain ⟨w, after, hw, hbs⟩ := flatMap_append_inj bytes_append_inj hitems ht.2 hlt happ
      exact (unknownItems_iff items').mpr ⟨w, hw, ih (ht.2 w hw) hbs⟩
    | bare tag =>
      obtain ⟨rfl, -⟩ := List.cons.inj hd
      cases ht
    | boolean b => cases (List.cons.inj hd).1
    | int i => cases (List.cons.inj hd).1
    | double d => cases (List.cons.inj hd).1
    | string s => cases (List.cons.inj hd).1
    | map entries => cases (List.cons.inj hd).1
  | @entry count entries key bs hentries hlt hle hkey _ ih =>
    cases t with
    | map entries' =>
      simp only [Tree.fits, Bool.and_eq_true, decide_eq_true_eq, fitsFields_iff] at ht
      simp only [Tree.bytes, bytesEntries_eq, cons_append, append_assoc] at hd
      obtain ⟨rfl, happ⟩ := le_append_inj (by omega) (by omega) (List.cons.inj hd).2
      obtain ⟨⟨k, w⟩, after, hw, hbs⟩ := flatMap_append_inj fieldBytes_append_inj hentries ht.2 hlt happ
      simp only [fieldBytes, append_assoc] at hbs
      obtain ⟨-, hval⟩ := string_append_inj hkey (ht.2 _ hw).1 hbs
      exact (unknownEntries_iff entries').mpr ⟨(k, w), hw, ih (ht.2 _ hw).2 hval⟩
    | bare tag =>
      obtain ⟨rfl, -⟩ := List.cons.inj hd
      cases ht
    | boolean b => cases (List.cons.inj hd).1
    | int i => cases (List.cons.inj hd).1
    | double d => cases (List.cons.inj hd).1
    | string s => cases (List.cons.inj hd).1
    | array items => cases (List.cons.inj hd).1

/-! ## The codec -/

/-- What is written is read back, what is cut short is refused, and so is every input with a
    value that starts with a tag outside the format. -/
structure CodecKeeps (data : Bytes) : Prop where
  whole : ∀ v : Value, v.fits = true → data = v.serialize → deserialize data = some v
  short : ∀ v : Value, v.fits = true → data <+: v.serialize → data ≠ v.serialize → deserialize data = none
  outside : Meets data → deserialize data = none

theorem deserialize_prefix {v : Value} (hv : v.fits = true) (hp : data <+: v.serialize) (hne : data ≠ v.serialize) :
    deserialize data = none := by
  rw [Option.eq_none_iff_forall_not_mem]
  intro w hw
  obtain ⟨t, rest, ht, rfl, -⟩ := deserialize_eq_some hw
  obtain ⟨tail, htail⟩ := hp
  -- The tree is read again from the whole, which is read to its end.
  have hread := parses_readTree v.serialize.length t ht
    (by rw [← htail, length_append, length_append]; omega) (rest ++ tail)
  have hwhole := parses_deser v.serialize.length v hv le_rfl []
  rw [append_nil, deser_eq, Reader.map] at hwhole
  rw [← append_assoc, htail] at hread
  rw [hread, Option.map_some] at hwhole
  have hnil : rest ++ tail = [] := (Prod.mk.inj (Option.some.inj hwhole)).2
  rw [(append_eq_nil_iff.mp hnil).2, append_nil] at htail
  exact hne htail

/-- The codec keeps its promises on an input exactly when it does not start with the bytes
    of a tree in which some value has a tag outside the format. -/
theorem codec_iff (data : Bytes) : CodecKeeps data ↔
    ¬ ∃ (t : Tree) (rest : Bytes), t.fits = true ∧ t.unknown = true ∧ data = t.bytes ++ rest := by
  constructor
  · intro h hex
    obtain ⟨t, rest, ht, hu, rfl⟩ := hex
    have hnone := h.outside (meets_of_unknown t.bytes.length t le_rfl ht hu rest)
    rw [deserialize_bytes ht] at hnone
    cases hnone
  · intro h
    refine ⟨?_, fun v hv hp hne => deserialize_prefix hv hp hne, ?_⟩
    · intro v hv heq
      rw [heq]
      exact deserialize_serialize hv
    · intro hm
      rw [Option.eq_none_iff_forall_not_mem]
      intro v hv
      obtain ⟨t, rest, ht, hd, -⟩ := deserialize_eq_some hv
      exact h ⟨t, rest, ht, unknown_of_meets hm ht hd, hd⟩

/-- A single byte that is no tag is read as an empty string. -/
theorem unknown_tag_accepted : ¬ ∀ data, CodecKeeps data := by
  intro h
  have hnone := (h [7]).outside (.here (by decide))
  have hread : deserialize [7] = some (.string []) := rfl
  rw [hread] at hnone
  cases hnone

end Backlands.Kv
