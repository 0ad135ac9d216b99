/-
  Backlands.Kv.Value — `ValueWrapper` (src/kv/value_wrapper.cpp) and its binary form.

  A value is a tag byte and its data; arrays and maps hold values. A map is the list of
  its entries in some order. The pointers in a map are never null (every constructor makes
  them), and the times of nested values are left out: nothing reads them, and a value that
  is loaded gets the row's time.

  `deserialize` recurses once for each tag it reads, so the length of the data bounds the
  depth; `deser` carries it as fuel.

  Proved: a value that the format can hold (`fits`: lengths below 2^32, at most a million
  items in an array or a map, distinct keys) is read back from exactly its own bytes
  (`parses_deser`, `deserialize_serialize`).
-/

import Backlands.Lib.Bytes

namespace Backlands.Kv

open Backlands.Lib List

/-- `ValueVariant`; a double by its bits. -/
inductive Value where
  | string (s : Bytes)
  | boolean (b : Bool)
  | int (i : BitVec 32)
  | double (d : BitVec 64)
  | array (items : List Value)
  | map (entries : List (Bytes × Value))

instance : Inhabited Value := ⟨.string []⟩

/-! ## Writing -/

mutual

def Value.serialize : Value → Bytes
  | .string s => 4 :: (le 4 s.length ++ s)
  | .boolean b => [1, if b then 1 else 0]
  | .int i => 2 :: le 4 i.toNat
  | .double d => 3 :: le 8 d.toNat
  | .array items => 5 :: (le 4 items.length ++ serializeItems items)
  | .map entries => 6 :: (le 4 entries.length ++ serializeEntries entries)

def serializeItems : List Value → Bytes
  | [] => []
  | v :: vs => v.serialize ++ serializeItems vs

def serializeEntries : List (Bytes × Value) → Bytes
  | [] => []
  | (k, v) :: es => le 4 k.length ++ k ++ v.serialize ++ serializeEntries es

end

/-! ## Reading -/

/-- `map[key] = value`. -/
def assign (m : List (Bytes × Value)) (key : Bytes) (value : Value) : List (Bytes × Value) :=
  if m.any (·.1 == key) then m.map fun e => if e.1 == key then (key, value) else e
  else m ++ [(key, value)]

def readString : Reader Bytes := (readUInt 4).bind cut

/-- A count is refused when it exceeds what is left of the data, or a million. -/
def readCount : Reader Nat := (readUInt 4).bind fun count bs =>
  if bs.length < count ∨ 1000000 < count then none else some (count, bs)

/-- One key and its value, the value read by `p`. -/
def readEntry (p : Reader Value) : Reader (Bytes × Value) := readString.bind fun key => p.map fun v => (key, v)

def deser : Nat → Reader Value
  | 0, _ => none
  | _ + 1, [] => none
  | fuel + 1, tag :: bs =>
    if tag = 1 then
      match bs with
      | [] => none
      | b :: bs => some (.boolean (b != 0), bs)
    else if tag = 2 then (readUInt 4).map (fun n => .int (BitVec.ofNat 32 n)) bs
    else if tag = 3 then (readUInt 8).map (fun n => .double (BitVec.ofNat 64 n)) bs
    else if tag = 4 then readString.map .string bs
    else if tag = 5 then ((readCount.bind (deser fuel).times).map .array) bs
    else if tag = 6 then
      ((readCount.bind (readEntry (deser fuel)).times).map fun es =>
        .map (es.foldl (fun m e => assign m e.1 e.2) [])) bs
    -- `Null`, and the tags the switch does not know.
    else some (.string [], bs)

/-- `ValueWrapper::deserialize`; what follows the value is not looked at. -/
def deserialize (data : Bytes) : Option Value := (deser data.length data).map (·.1)

/-! ## What the format can hold -/

mutual

def Value.fits : Value → Bool
  | .string s => decide (s.length < 2 ^ 32)
  | .boolean _ => true
  | .int _ => true
  | .double _ => true
  | .array items => decide (items.length ≤ 1000000) && fitsItems items
  | .map entries => decide (entries.length ≤ 1000000) && decide (entries.map (·.1)).Nodup && fitsEntries entries

def fitsItems : List Value → Bool
  | [] => true
  | v :: vs => v.fits && fitsItems vs

def fitsEntries : List (Bytes × Value) → Bool
  | [] => true
  | (k, v) :: es => decide (k.length < 2 ^ 32) && v.fits && fitsEntries es

end

theorem serializeItems_eq (vs : List Value) : serializeItems vs = vs.flatMap Value.serialize := by
  induction vs with
  | nil => rw [serializeItems]; rfl
  | cons v vs ih => rw [serializeItems, ih, flatMap_cons]

def entryBytes (e : Bytes × Value) : Bytes := le 4 e.1.length ++ e.1 ++ e.2.serialize

theorem serializeEntries_eq (es : List (Bytes × Value)) : serializeEntries es = es.flatMap entryBytes := by
  induction es with
  | nil => rw [serializeEntries]; rfl
  | cons e es ih =>
    rw [serializeEntries, ih, flatMap_cons]
    rfl

theorem fitsItems_iff (vs : List Value) : fitsItems vs = true ↔ ∀ v ∈ vs, v.fits = true := by
  induction vs with
  | nil => simp [fitsItems]
  | cons v vs ih => simp [fitsItems, ih]

theorem fitsEntries_iff (es : List (Bytes × Value)) :
    fitsEntries es = true ↔ ∀ e ∈ es, e.1.length < 2 ^ 32 ∧ e.2.fits = true := by
  induction es with
  | nil => simp [fitsEntries]
  | cons e es ih =>
    simp [fitsEntries, ih, and_assoc]

theorem serialize_ne_nil (v : Value) : v.serialize ≠ [] := by
  cases v <;> simp [Value.serialize]

/-! ## The round trip -/

variable {m : List (Bytes × Value)} {α : Type*} {v : Value}

theorem foldl_assign {es : List (Bytes × Value)} (h : ((m ++ es).map (·.1)).Nodup) :
    es.foldl (fun m e => assign m e.1 e.2) m = m ++ es := by
  induction es generalizing m with
  | nil => simp
  | cons e es ih =>
    have hnew : m.any (·.1 == e.1) = false := by
      rw [any_eq_false]
      intro d hd he
      rw [map_append, nodup_append] at h
      have heq : d.1 = e.1 := by simpa using he
      exact h.2.2 d.1 (mem_map_of_mem hd) e.1 (mem_map_of_mem mem_cons_self) heq
    have hput : assign m e.1 e.2 = m ++ [e] := by
      rw [assign, if_neg (by simp [hnew])]
    rw [foldl_cons, hput, ih (by simpa using h)]
    simp

theorem parses_readString {s : Bytes} (h : s.length < 2 ^ 32) : Parses readString (le 4 s.length ++ s) s :=
  (parses_readUInt (by simpa using h)).bind (parses_cut s)

theorem readCount_eq {n : Nat} {bs : Bytes} (hn : n ≤ 1000000) (hb : n ≤ bs.length) :
    readCount (le 4 n ++ bs) = some (n, bs) := by
  have hlt : n < 256 ^ 4 := by omega
  rw [readCount, Reader.bind, parses_readUInt hlt bs, Option.bind_some]
  exact if_neg (show ¬ (bs.length < n ∨ 1000000 < n) by omega)

theorem length_le_flatMap (enc : α → Bytes) (as : List α) (h : ∀ a ∈ as, enc a ≠ []) :
    as.length ≤ (as.flatMap enc).length := by
  induction as with
  | nil => simp
  | cons a as ih =>
    have hpos : 0 < (enc a).length := length_pos_iff.mpr (h a mem_cons_self)
    have htail := ih fun b hb => h b (mem_cons_of_mem a hb)
    simp only [flatMap_cons, length_append, length_cons]
    omega

theorem length_le_of_mem (enc : α → Bytes) {as : List α} {a : α} (h : a ∈ as) :
    (enc a).length ≤ (as.flatMap enc).length := by
  obtain ⟨s, t, rfl⟩ := append_of_mem h
  simp only [flatMap_append, flatMap_cons, length_append]
  omega

theorem parses_counted {p : Reader α} {enc : α → Bytes} {as : List α} (hn : as.length ≤ 1000000)
    (hne : ∀ a ∈ as, enc a ≠ []) (h : ∀ a ∈ as, Parses p (enc a) a) :
    Parses (readCount.bind p.times) (le 4 as.length ++ as.flatMap enc) as := by
  intro rest
  have hlen := length_le_flatMap enc as hne
  rw [Reader.bind, append_assoc, readCount_eq hn (by rw [length_append]; omega), Option.bind_some]
  exact Parses.times h rest

theorem parses_deser (fuel : Nat) (v : Value) (hv : v.fits = true) (hf : v.serialize.length ≤ fuel) :
    Parses (deser fuel) v.serialize v := by
  induction fuel generalizing v with
  | zero => exact absurd (length_eq_zero_iff.mp (Nat.le_zero.mp hf)) (serialize_ne_nil v)
  | succ fuel ih =>
    intro rest
    cases v with
    | string s =>
      rw [Value.fits, decide_eq_true_iff] at hv
      exact (parses_readString hv).map Value.string rest
    | boolean b => cases b <;> rfl
    | int i =>
      have h := (parses_readUInt (w := 4) i.isLt).map (fun n => Value.int (BitVec.ofNat 32 n)) rest
      rwa [BitVec.ofNat_toNat, BitVec.setWidth_eq] at h
    | double d =>
      have h := (parses_readUInt (w := 8) d.isLt).map (fun n => Value.double (BitVec.ofNat 64 n)) rest
      rwa [BitVec.ofNat_toNat, BitVec.setWidth_eq] at h
    | array items =>
      simp only [Value.fits, Bool.and_eq_true, decide_eq_true_eq, fitsItems_iff] at hv
      simp only [Value.serialize, serializeItems_eq, length_cons, length_append] at hf ⊢
      have hitem : ∀ w ∈ items, Parses (deser fuel) w.serialize w := by
        intro w hw
        have hlen := length_le_of_mem Value.serialize hw
        exact ih w (hv.2 w hw) (by omega)
      exact (parses_counted hv.1 (fun w _ => serialize_ne_nil w) hitem).map Value.array rest
    | map entries =>
      simp only [Value.fits, Bool.and_eq_true, decide_eq_true_eq, fitsEntries_iff] at hv
      obtain ⟨⟨hcount, hkeys⟩, hentries⟩ := hv
      simp only [Value.serialize, serializeEntries_eq, length_cons, length_append] at hf ⊢
      have hentry : ∀ e ∈ entries, Parses (readEntry (deser fuel)) (entryBytes e) e := by
        intro e he
        have hlen := length_le_of_mem entryBytes he
        have hval : e.2.serialize.length ≤ fuel := by
          simp only [entryBytes, length_append] at hlen
          omega
        exact (parses_readString (hentries e he).1).bind ((ih e.2 (hentries e he).2 hval).map fun v => (e.1, v))
      have hne : ∀ e ∈ entries, entryBytes e ≠ [] := by
        simp [entryBytes, serialize_ne_nil]
      have h := (parses_counted hcount hne hentry).map
        (fun es => Value.map (es.foldl (fun m e => assign m e.1 e.2) [])) rest
      rw [foldl_assign (by simpa using hkeys)] at h
      exact h

theorem deserialize_serialize (hv : v.fits = true) : deserialize v.serialize = some v := by
  have h := parses_deser v.serialize.length v hv (le_refl _) []
  rw [append_nil] at h
  rw [deserialize, h, Option.map_some]

/-! ## What is read can be written again -/

theorem nodup_assign (h : (m.map (·.1)).Nodup) (k : Bytes) (v : Value) : ((assign m k v).map (·.1)).Nodup := by
  unfold assign
  split
  · have hkeys : (m.map fun e => if e.1 == k then (k, v) else e).map (·.1) = m.map (·.1) := by
      rw [map_map]
      refine map_congr_left fun e _ => ?_
      grind
    rw [hkeys]
    exact h
  · rename_i hnew
    rw [map_append]
    refine nodup_append.mpr ⟨h, by simp, ?_⟩
    intro a ha b hb heq
    obtain ⟨e, he, rfl⟩ := mem_map.mp ha
    obtain rfl : b = k := by simpa using hb
    exact hnew (any_eq_true.mpr ⟨e, he, by simp [heq]⟩)

theorem mem_assign_map {k : Bytes} {e : Bytes × Value} (h : e ∈ assign m k v) : e ∈ m ∨ e = (k, v) := by
  unfold assign at h
  grind

/-- Filling a map keeps its keys distinct, makes it no longer and adds nothing else. -/
theorem foldl_assign_spec (es : List (Bytes × Value)) (h : (m.map (·.1)).Nodup) :
    ((es.foldl (fun m e => assign m e.1 e.2) m).map (·.1)).Nodup ∧
    (es.foldl (fun m e => assign m e.1 e.2) m).length ≤ m.length + es.length ∧
    ∀ e ∈ es.foldl (fun m e => assign m e.1 e.2) m, e ∈ m ∨ e ∈ es := by
  induction es generalizing m with
  | nil => exact ⟨h, le_refl _, fun e he => .inl he⟩
  | cons e es ih =>
    obtain ⟨hn, hlen, hmem⟩ := ih (nodup_assign h e.1 e.2)
    have hstep : (assign m e.1 e.2).length ≤ m.length + 1 := by
      unfold assign
      split <;> simp
    refine ⟨hn, ?_, ?_⟩
    · rw [length_cons]
      exact hlen.trans (by omega)
    intro d hd
    rcases hmem d hd with hd | hd
    · rcases mem_assign_map hd with hd | rfl
      · exact .inl hd
      · exact .inr mem_cons_self
    · exact .inr (mem_cons_of_mem e hd)

theorem readString_lt {bs rest s : Bytes} (h : readString bs = some (s, rest)) : s.length < 2 ^ 32 := by
  obtain ⟨n, mid, hn, hc⟩ := Reader.bind_eq_some h
  rw [(cut_eq_some hc).1]
  exact readUInt_lt hn

theorem readCount_le {bs rest : Bytes} {n : Nat} (h : readCount bs = some (n, rest)) : n ≤ 1000000 := by
  obtain ⟨m, mid, -, hc⟩ := Reader.bind_eq_some h
  split at hc
  · cases hc
  · cases hc
    omega

theorem deser_fits (fuel : Nat) {bs rest : Bytes} (h : deser fuel bs = some (v, rest)) : v.fits = true := by
  induction fuel generalizing bs rest v with
  | zero => cases h
  | succ fuel ih =>
    cases bs with
    | nil => cases h
    | cons tag bs =>
      simp only [deser] at h
      split at h
      · cases bs with
        | nil => cases h
        | cons b bs => cases h; rfl
      split at h
      · obtain ⟨n, -, rfl⟩ := Reader.map_eq_some h
        rfl
      split at h
      · obtain ⟨n, -, rfl⟩ := Reader.map_eq_some h
        rfl
      split at h
      · obtain ⟨s, hs, rfl⟩ := Reader.map_eq_some h
        exact decide_eq_true (readString_lt hs)
      split at h
      · obtain ⟨items, hi, rfl⟩ := Reader.map_eq_some h
        obtain ⟨n, mid, hn, hitems⟩ := Reader.bind_eq_some hi
        obtain ⟨hlen, hall⟩ := Reader.times_eq_some hitems
        have hcount := readCount_le hn
        simp only [Value.fits, Bool.and_eq_true, decide_eq_true_eq, fitsItems_iff]
        refine ⟨by omega, ?_⟩
        intro w hw
        obtain ⟨cs, r, hr⟩ := hall w hw
        exact ih hr
      split at h
      · obtain ⟨es, he, rfl⟩ := Reader.map_eq_some h
        obtain ⟨n, mid, hn, hes⟩ := Reader.bind_eq_some he
        obtain ⟨hlen, hall⟩ := Reader.times_eq_some hes
        have hcount := readCount_le hn
        obtain ⟨hnodup, hle, hmem⟩ := foldl_assign_spec es (m := []) (by simp)
        simp only [Value.fits, Bool.and_eq_true, decide_eq_true_eq, fitsEntries_iff]
        refine ⟨⟨by simp only [length_nil] at hle; omega, hnodup⟩, ?_⟩
        intro e hmap
        have hin : e ∈ es := (hmem e hmap).resolve_left (by simp)
        obtain ⟨cs, r, hr⟩ := hall e hin
        obtain ⟨k, mid', hk, hv⟩ := Reader.bind_eq_some hr
        obtain ⟨w, hw, rfl⟩ := Reader.map_eq_some hv
        exact ⟨readString_lt hk, ih hw⟩
      · cases h
        rfl

theorem deserialize_fits {data : Bytes} (h : deserialize data = some v) : v.fits = true := by
  obtain ⟨⟨w, rest⟩, hd, rfl⟩ := Option.map_eq_some_iff.mp h
  exact deser_fits data.length hd

end Backlands.Kv
