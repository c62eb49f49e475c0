/-
  DessPlay.Lib.Utf8
  **TEXT CUT AT BYTE OFFSETS.**

  A text is the list of its characters, each of which takes one to four bytes.  A cut
  at a byte offset inside a character is refused (`none`), so a function that only ever
  cuts at offsets it has counted out is shown never to be refused.
-/
import Mathlib

namespace Utf8

open List

/-- The length of a text in bytes. -/
def byteLen (s : List Char) : Nat := (s.map Char.utf8Size).sum

@[simp] theorem byteLen_nil : byteLen [] = 0 := rfl

@[simp] theorem byteLen_cons (c : Char) (s : List Char) :
    byteLen (c :: s) = c.utf8Size + byteLen s := rfl

@[simp] theorem byteLen_append (s t : List Char) : byteLen (s ++ t) = byteLen s + byteLen t := by
  simp [byteLen]

theorem byteLen_pos {s : List Char} (h : s ≠ []) : 0 < byteLen s := by
  cases s with
  | nil => exact absurd rfl h
  | cons c s =>
    have hc := c.utf8Size_pos
    rw [byteLen_cons]
    omega

/-- Cut a text at a byte offset, which must fall between two characters. -/
def cutAt : List Char → Nat → Option (List Char × List Char)
  | s, 0 => some ([], s)
  | [], _ + 1 => none
  | c :: s, n + 1 =>
    if c.utf8Size ≤ n + 1 then
      (cutAt s (n + 1 - c.utf8Size)).map fun parts => (c :: parts.1, parts.2)
    else none

theorem cutAt_byteLen (s t : List Char) : cutAt (s ++ t) (byteLen s) = some (s, t) := by
  induction s with
  | nil =>
    show cutAt t 0 = _
    cases t <;> rfl
  | cons c s ih =>
    obtain ⟨n, hn⟩ : ∃ n, byteLen (c :: s) = n + 1 :=
      Nat.exists_eq_succ_of_ne_zero (Nat.ne_of_gt (byteLen_pos (cons_ne_nil c s)))
    have hle : c.utf8Size ≤ n + 1 := by
      rw [← hn, byteLen_cons]
      omega
    have hrest : n + 1 - c.utf8Size = byteLen s := by
      rw [← hn, byteLen_cons]
      omega
    rw [hn, cons_append, cutAt, if_pos hle, hrest, ih]
    rfl

/-- The text between two byte offsets. -/
def slice (s : List Char) (start stop : Nat) : Option (List Char) :=
  (cutAt s stop).bind fun parts => (cutAt parts.1 start).map (·.2)

theorem slice_byteLen (before part after : List Char) :
    slice (before ++ part ++ after) (byteLen before) (byteLen before + byteLen part) =
      some part := by
  rw [slice, ← byteLen_append, cutAt_byteLen]
  show (cutAt (before ++ part) (byteLen before)).map _ = _
  rw [cutAt_byteLen]
  rfl

/-- The characters with the byte offsets they start at. -/
def charIndices : Nat → List Char → List (Nat × Char)
  | _, [] => []
  | i, c :: s => (i, c) :: charIndices (i + c.utf8Size) s

/-- Every character is a single byte. -/
def Ascii (s : List Char) : Prop := ∀ c ∈ s, c.utf8Size = 1

theorem Ascii.byteLen_eq {s : List Char} (h : Ascii s) : byteLen s = s.length := by
  induction s with
  | nil => rfl
  | cons c s ih =>
    have htail := ih fun d hd => h d (mem_cons_of_mem c hd)
    rw [byteLen_cons, h c mem_cons_self, htail, length_cons]
    omega

theorem Ascii.cutAt_eq {s : List Char} (h : Ascii s) {n : Nat} (hn : n ≤ s.length) :
    cutAt s n = some (s.take n, s.drop n) := by
  have htake : byteLen (s.take n) = n := by
    rw [Ascii.byteLen_eq fun c hc => h c (mem_of_mem_take hc), length_take]
    omega
  have hcut := cutAt_byteLen (s.take n) (s.drop n)
  rwa [take_append_drop, htake] at hcut

end Utf8
