/-
  DessPlay.Lib.Postcard
  **A POSITIONAL BYTE FORMAT, AS CODECS THAT CARRY THEIR ROUND TRIP.**

  A value is written field after field with nothing in between: an unsigned number as
  a LEB128 varint, a sequence as its length and its elements, an option as one tag byte
  and its payload, an enum as a varint tag and its payload.  A `Codec` cannot be built
  without the proof that reading what was written gives the value back AND leaves what
  followed it.  Numbers are unbounded here; the format's width checks reject only bytes
  no writer produces.

  The second half says what an encoding can BEGIN with.
-/
import DessPlay.Lib.BTree

namespace Postcard

open BTree List

/-- Why bytes were refused. -/
inductive WireError where
  | deserializeUnexpectedEnd
  | deserializeBadBool
  | deserializeBadOption
  | deserializeBadEnum
  | deserializeBadUtf8
  | deserializeBadEncoding
  deriving DecidableEq, Repr

/-- A way to write a value and to read it back from the front of some bytes. -/
structure Codec (α : Type) where
  encode : α → List UInt8
  decode : List UInt8 → Except WireError (α × List UInt8)
  decode_encode : ∀ a rest, decode (encode a ++ rest) = .ok (a, rest)

namespace Codec

variable {α β : Type}

attribute [simp] decode_encode

/-- `from_bytes`: trailing bytes are ignored. -/
def fromBytes (c : Codec α) (bytes : List UInt8) : Except WireError α :=
  (c.decode bytes).map Prod.fst

@[simp] theorem fromBytes_encode (c : Codec α) (a : α) : c.fromBytes (c.encode a) = .ok a := by
  unfold fromBytes
  rw [← append_nil (c.encode a), c.decode_encode]
  rfl

/-! ## §1. Numbers. -/

/-- The LEB128 varint of a number: seven bits a byte, low bits first. -/
def varintBytes (n : Nat) : List UInt8 :=
  if n < 128 then [UInt8.ofNat n]
  else UInt8.ofNat (n % 128 + 128) :: varintBytes (n / 128)

theorem varintBytes_of_lt {n : Nat} (h : n < 128) : varintBytes n = [UInt8.ofNat n] := by
  rw [varintBytes, if_pos h]

theorem varintBytes_of_ge {n : Nat} (h : ¬ n < 128) :
    varintBytes n = UInt8.ofNat (n % 128 + 128) :: varintBytes (n / 128) := by
  rw [varintBytes, if_neg h]

/-- Read a varint off the front. -/
def readVarint : List UInt8 → Except WireError (Nat × List UInt8)
  | [] => .error .deserializeUnexpectedEnd
  | b :: rest =>
    if b.toNat < 128 then .ok (b.toNat, rest)
    else (readVarint rest).map fun (high, rest) => (b.toNat - 128 + 128 * high, rest)

theorem toNat_ofNat_of_lt {n : Nat} (h : n < 256) : (UInt8.ofNat n).toNat = n := by
  rw [UInt8.toNat_ofNat']
  exact Nat.mod_eq_of_lt h

theorem readVarint_varintBytes (n : Nat) (rest : List UInt8) :
    readVarint (varintBytes n ++ rest) = .ok (n, rest) := by
  induction n using varintBytes.induct with
  | case1 n hn =>
    rw [varintBytes_of_lt hn, singleton_append, readVarint,
      toNat_ofNat_of_lt (by omega), if_pos hn]
  | case2 n hn ih =>
    rw [varintBytes_of_ge hn, cons_append, readVarint, toNat_ofNat_of_lt (by omega),
      if_neg (by omega), ih]
    show Except.ok (n % 128 + 128 - 128 + 128 * (n / 128), rest) = _
    congr 2
    omega

/-- Unsigned numbers. -/
def varint : Codec Nat := ⟨varintBytes, readVarint, readVarint_varintBytes⟩

/-! ## §2. One field after another. -/

/-- The fields of a pair, in order. -/
def pair (c : Codec α) (d : Codec β) : Codec (α × β) where
  encode p := c.encode p.1 ++ d.encode p.2
  decode bytes := do
    let (a, bytes) ← c.decode bytes
    let (b, bytes) ← d.decode bytes
    return ((a, b), bytes)
  decode_encode := by
    rintro ⟨a, b⟩ rest
    simp only [append_assoc, c.decode_encode, d.decode_encode, bind, Except.bind]
    rfl

/-- A type read and written through another. -/
def through (c : Codec β) (put : α → β) (get : β → α) (h : ∀ a, get (put a) = a) : Codec α where
  encode a := c.encode (put a)
  decode bytes := (c.decode bytes).map fun (b, rest) => (get b, rest)
  decode_encode a rest := by
    rw [c.decode_encode]
    show Except.ok (get (put a), rest) = _
    rw [h a]

/-- A tag and what the tag says follows. -/
def tagged (tag : α → Nat) (write : α → List UInt8)
    (read : Nat → List UInt8 → Except WireError (α × List UInt8))
    (h : ∀ a rest, read (tag a) (write a ++ rest) = .ok (a, rest)) : Codec α where
  encode a := varintBytes (tag a) ++ write a
  decode bytes := do
    let (n, bytes) ← readVarint bytes
    read n bytes
  decode_encode a rest := by
    simp only [append_assoc, readVarint_varintBytes, bind, Except.bind]
    exact h a rest

/-- One of finitely many values, by its place in a list of them. -/
def enumerated (all : List α) (index : α → Nat) (h : ∀ a, all[index a]? = some a) : Codec α :=
  tagged index (fun _ => [])
    (fun n rest => match all[n]? with
      | some a => .ok (a, rest)
      | none => .error .deserializeBadEnum)
    (by intro a rest; simp [h a])

/-- Signed numbers, zigzagged into unsigned ones. -/
def zigzag : Codec Int :=
  varint.through (fun i => if 0 ≤ i then 2 * i.toNat else 2 * (-i).toNat - 1)
    (fun n => if n % 2 = 0 then (n / 2 : Nat) else -((n + 1) / 2 : Nat))
    (by intro i; split <;> split <;> omega)

/-- `true` or `false`, one byte. -/
def bool : Codec Bool where
  encode b := [if b then 1 else 0]
  decode
    | [] => .error .deserializeUnexpectedEnd
    | b :: rest =>
      if b = 0 then .ok (false, rest)
      else if b = 1 then .ok (true, rest)
      else .error .deserializeBadBool
  decode_encode := by rintro ⟨⟩ rest <;> rfl

/-- Nothing or something, after one tag byte. -/
def option (c : Codec α) : Codec (Option α) where
  encode
    | none => [0]
    | some a => 1 :: c.encode a
  decode
    | [] => .error .deserializeUnexpectedEnd
    | b :: rest =>
      if b = 0 then .ok (none, rest)
      else if b = 1 then (c.decode rest).map fun (a, rest) => (some a, rest)
      else .error .deserializeBadOption
  decode_encode := by
    rintro (_ | a) rest
    · rfl
    · show (c.decode (c.encode a ++ rest)).map _ = _
      rw [c.decode_encode]
      rfl

/-! ## §3. Sequences, sets and maps. -/

/-- Read a known number of values. -/
def readMany (c : Codec α) : Nat → List UInt8 → Except WireError (List α × List UInt8)
  | 0, bytes => .ok ([], bytes)
  | n + 1, bytes => do
      let (a, bytes) ← c.decode bytes
      let (l, bytes) ← readMany c n bytes
      return (a :: l, bytes)

theorem readMany_flatMap (c : Codec α) (l : List α) (rest : List UInt8) :
    readMany c l.length (l.flatMap c.encode ++ rest) = .ok (l, rest) := by
  induction l with
  | nil => rfl
  | cons a l ih =>
    simp only [length_cons, readMany, flatMap_cons, append_assoc,
      c.decode_encode, bind, Except.bind, ih]
    rfl

/-- A length and that many values. -/
def seq (c : Codec α) : Codec (List α) where
  encode l := varintBytes l.length ++ l.flatMap c.encode
  decode bytes := do
    let (n, bytes) ← readVarint bytes
    readMany c n bytes
  decode_encode l rest := by
    simp only [append_assoc, readVarint_varintBytes, bind, Except.bind]
    exact readMany_flatMap c l rest

section Sorted

variable {K V : Type} [LinearOrder K]

theorem mem_ofList {l : List (K × V)} (hl : l.Pairwise fun a b => a.1 ≠ b.1) (k : K) (v : V) :
    (Std.ExtTreeMap.ofList l compare)[k]? = some v ↔ (k, v) ∈ l := by
  have hdistinct : l.Pairwise fun a b => ¬ compare a.1 b.1 = .eq :=
    hl.imp fun hne heq => hne (compare_eq_iff_eq.mp heq)
  constructor
  · intro h
    by_cases hk : k ∈ l.map Prod.fst
    · obtain ⟨⟨_, w⟩, hw, rfl⟩ := mem_map.mp hk
      rw [Std.ExtTreeMap.getElem?_ofList_of_mem (compare_eq_iff_eq.mpr rfl) hdistinct hw] at h
      exact Option.some.inj h ▸ hw
    · rw [Std.ExtTreeMap.getElem?_ofList_of_contains_eq_false (by simpa using hk)] at h
      cases h
  · exact Std.ExtTreeMap.getElem?_ofList_of_mem (compare_eq_iff_eq.mpr rfl) hdistinct

theorem sorted_toList (m : BTreeMap K V) : m.toList.Pairwise fun a b => a.1 < b.1 :=
  m.ordered_keys_toList.imp fun hlt => compare_lt_iff_lt.mp hlt

theorem ofList_toList (m : BTreeMap K V) : Std.ExtTreeMap.ofList m.toList compare = m := by
  refine map_ext fun k => Option.ext fun v => ?_
  rw [mem_ofList ((sorted_toList m).imp ne_of_lt)]
  exact mem_entries m (k, v)

theorem toList_ofList {l : List (K × V)} (hl : l.Pairwise fun a b => a.1 < b.1) :
    (Std.ExtTreeMap.ofList l compare).toList = l := by
  have hne : ∀ {l : List (K × V)}, (l.Pairwise fun a b => a.1 < b.1) → l.Nodup := fun h =>
    h.imp fun {a b} (hlt : a.1 < b.1) (heq : a = b) => absurd (heq ▸ hlt) (lt_irrefl b.1)
  have hperm : (Std.ExtTreeMap.ofList l compare).toList.Perm l := by
    rw [perm_ext_iff_of_nodup (hne (sorted_toList _)) (hne hl)]
    exact fun e => (mem_entries _ e).trans (mem_ofList (hl.imp ne_of_lt) e.1 e.2)
  exact hperm.eq_of_pairwise (fun a b _ _ hab hba => absurd hab (lt_asymm hba))
    (sorted_toList _) hl

end Sorted

/-- A set, in order. -/
def btreeSet {T : Type} [LinearOrder T] (c : Codec T) : Codec (BTreeSet T) :=
  (seq c).through (fun s => s.toList) (fun l => Std.ExtTreeSet.ofList l compare) fun s => by
    refine set_ext fun x => ?_
    rw [Std.ExtTreeSet.mem_ofList, contains_iff_mem]
    exact mem_toList s x

/-- A map's entries, in the order of their keys. -/
def btreeMap {K V : Type} [LinearOrder K] (key : Codec K) (val : Codec V) : Codec (BTreeMap K V) :=
  (seq (pair key val)).through (fun m => m.toList) (fun l => Std.ExtTreeMap.ofList l compare)
    ofList_toList

/-- UTF-8 text: its length in bytes, and the bytes. -/
def text : Codec String where
  encode s := varintBytes s.toByteArray.data.toList.length ++ s.toByteArray.data.toList
  decode bytes := do
    let (n, bytes) ← readVarint bytes
    if bytes.length < n then .error .deserializeUnexpectedEnd
    else if h : (ByteArray.mk (bytes.take n).toArray).IsValidUTF8 then
      .ok (String.ofByteArray _ h, bytes.drop n)
    else .error .deserializeBadUtf8
  decode_encode s rest := by
    simp only [append_assoc, readVarint_varintBytes, bind, Except.bind]
    rw [if_neg (by rw [length_append]; omega)]
    simp only [take_left', drop_left', Array.toArray_toList]
    rw [dif_pos s.isValidUTF8]

/-! ## §4. What an encoding begins with. -/

theorem ofNat_eq_iff {a b : Nat} (ha : a < 256) (hb : b < 256) :
    UInt8.ofNat a = UInt8.ofNat b ↔ a = b := by
  rw [← UInt8.toNat_inj, toNat_ofNat_of_lt ha, toNat_ofNat_of_lt hb]

theorem small_byte_iff {b : Nat} (hb : b < 128) (n : Nat) (tail rest : List UInt8) :
    UInt8.ofNat b :: tail <+: varintBytes n ++ rest ↔ n = b ∧ tail <+: rest := by
  rw [varintBytes]
  split
  next hn =>
    rw [singleton_append, cons_prefix_cons, ofNat_eq_iff (by omega) (by omega), eq_comm]
  next hn =>
    rw [cons_append, cons_prefix_cons, ofNat_eq_iff (by omega) (by omega)]
    exact iff_of_false (fun h => by omega) (fun h => by omega)

theorem continued_byte_iff {b : Nat} (hb : b < 128) (n : Nat) (tail rest : List UInt8) :
    UInt8.ofNat (b + 128) :: tail <+: varintBytes n ++ rest ↔
      128 ≤ n ∧ n % 128 = b ∧ tail <+: varintBytes (n / 128) ++ rest := by
  rw [varintBytes]
  split
  next hn =>
    rw [singleton_append, cons_prefix_cons, ofNat_eq_iff (by omega) (by omega)]
    exact iff_of_false (fun h => by omega) (fun h => by omega)
  next hn =>
    rw [cons_append, cons_prefix_cons, ofNat_eq_iff (by omega) (by omega), ← and_assoc]
    exact and_congr_left fun _ => by omega

end Codec

end Postcard
