/-
  DessPlay.Lib.Text
  **SPLITTING AT A SEPARATOR AND JOINING AGAIN.**

  `List.splitOn` and `List.intercalate` are the split and the join; this file adds
  the split at the FIRST separator, and the fact that carries the rest: what
  happens to the parts between a split and the join that follows it does not change
  how often the separator occurs, as long as no part gains one.
-/
import Mathlib

namespace Text

open List

/-- Unicode's white space: `char::is_whitespace`. -/
def isWhitespace (c : Char) : Bool :=
  let n := c.toNat
  (0x9 ≤ n && n ≤ 0xD) || n == 0x20 || n == 0x85 || n == 0xA0 || n == 0x1680 ||
    (0x2000 ≤ n && n ≤ 0x200A) || n == 0x2028 || n == 0x2029 || n == 0x202F || n == 0x205F ||
    n == 0x3000

variable {α : Type} [DecidableEq α]

/-- What stands before and after the first `sep`, if there is one. -/
def splitOnce (sep : α) : List α → Option (List α × List α)
  | [] => none
  | x :: xs =>
    if x = sep then some ([], xs)
    else (splitOnce sep xs).map fun parts => (x :: parts.1, parts.2)

variable {sep x : α} {before l : List α}

theorem splitOnce_append (h : sep ∉ before) (after : List α) :
    splitOnce sep (before ++ sep :: after) = some (before, after) := by
  induction before with
  | nil => simp [splitOnce]
  | cons x xs ih =>
    rw [mem_cons, not_or] at h
    rw [cons_append, splitOnce, if_neg (Ne.symm h.1), ih h.2]
    rfl

theorem splitOnce_eq_some {after : List α} (h : splitOnce sep l = some (before, after)) :
    l = before ++ sep :: after := by
  induction l generalizing before with
  | nil => cases h
  | cons x xs ih =>
    rw [splitOnce] at h
    split at h
    next hx =>
      cases h
      rw [hx]
      rfl
    · obtain ⟨⟨rest, tail⟩, hrest, heq⟩ := Option.map_eq_some_iff.mp h
      cases heq
      rw [ih hrest]
      rfl

theorem splitOn_intercalate_flatMap (sep : α) {parts : List (List α)} (h : parts ≠ []) :
    ([sep].intercalate parts).splitOn sep = parts.flatMap (List.splitOn sep) := by
  induction parts with
  | nil => exact absurd rfl h
  | cons part rest ih =>
    cases rest with
    | nil => simp
    | cons next rest =>
      rw [intercalate_cons_cons, append_assoc, singleton_append,
        splitOn_append_cons_self, ih (cons_ne_nil _ _), ← flatMap_cons]

theorem not_mem_of_mem_splitOn {part : List α} (h : part ∈ l.splitOn sep) : sep ∉ part := by
  -- Cut `l` at its first separator as long as there is one.
  induction hn : l.length using Nat.strong_induction_on generalizing l with
  | _ n ih =>
    by_cases hsep : sep ∈ l
    · obtain ⟨before, after, rfl, hbefore⟩ := eq_append_cons_of_mem hsep
      rw [splitOn_append_cons_self_of_not_mem hbefore, mem_cons] at h
      cases h with
      | inl heq => exact heq ▸ hbefore
      | inr hin =>
        refine ih after.length ?_ hin rfl
        rw [← hn, length_append, length_cons]
        omega
    · rw [splitOn_eq_singleton hsep, mem_singleton] at h
      exact h ▸ hsep

/-- A relation that holds on both sides of the separator holds along a list if it does along every
part. -/
theorem isChain_splitOn {R : α → α → Prop} (hbefore : ∀ a, R a sep) (hafter : ∀ b, R sep b)
    (l : List α) : l.IsChain R ↔ ∀ part ∈ l.splitOn sep, part.IsChain R := by
  induction hn : l.length using Nat.strong_induction_on generalizing l with
  | _ n ih =>
    by_cases hsep : sep ∈ l
    · obtain ⟨before, after, rfl, hnot⟩ := eq_append_cons_of_mem hsep
      have hlt : after.length < n := by
        rw [← hn, length_append, length_cons]
        omega
      rw [splitOn_append_cons_self_of_not_mem hnot, forall_mem_cons,
        ← ih _ hlt after rfl, isChain_append, isChain_cons]
      constructor
      · rintro ⟨hleft, ⟨_, hright⟩, _⟩
        exact ⟨hleft, hright⟩
      · rintro ⟨hleft, hright⟩
        refine ⟨hleft, ⟨fun b _ => hafter b, hright⟩, fun a _ b hb => ?_⟩
        cases hb
        exact hbefore a
    · rw [splitOn_eq_singleton hsep, forall_mem_singleton]

theorem count_intercalate (sep : α) (parts : List (List α)) :
    ([sep].intercalate parts).count sep
      = (parts.map (List.count sep)).sum + (parts.length - 1) := by
  induction parts with
  | nil => simp
  | cons part rest ih =>
    cases rest with
    | nil => simp
    | cons next rest =>
      rw [intercalate_cons_cons, count_append, count_append, ih,
        count_singleton_self]
      simp only [map_cons, sum_cons, length_cons]
      omega

/-- Rewriting the parts of a split leaves the number of separators as it was. -/
theorem count_intercalate_map_splitOn {f : List α → List α} (hf : ∀ part, sep ∉ part → sep ∉ f part)
    (l : List α) : ([sep].intercalate ((l.splitOn sep).map f)).count sep = l.count sep := by
  have hzero : ∀ g : List α → List α, (∀ part, sep ∉ part → sep ∉ g part) →
      (((l.splitOn sep).map g).map (List.count sep)).sum = 0 := by
    intro g hg
    refine sum_eq_zero fun n hn => ?_
    obtain ⟨part, hpart, rfl⟩ := mem_map.mp hn
    obtain ⟨old, hold, rfl⟩ := mem_map.mp hpart
    exact count_eq_zero.mpr (hg old (not_mem_of_mem_splitOn hold))
  have hback := count_intercalate sep ((l.splitOn sep).map id)
  rw [hzero id fun _ h => h, map_id, intercalate_splitOn] at hback
  rw [count_intercalate, hzero f hf, length_map, hback]

/-- Drop what matches at both ends. -/
def trimMatches (p : α → Bool) (l : List α) : List α :=
  ((l.dropWhile p).reverse.dropWhile p).reverse

omit [DecidableEq α] in
theorem mem_of_mem_trimMatches {p : α → Bool} (h : x ∈ trimMatches p l) : x ∈ l := by
  have hdrop := (dropWhile_suffix p).subset (mem_reverse.mp h)
  exact (dropWhile_suffix p).subset (mem_reverse.mp hdrop)

omit [DecidableEq α] in
theorem not_of_getLast?_trimMatches {p : α → Bool} (h : (trimMatches p l).getLast? = some x) :
    p x = false := by
  rw [trimMatches, getLast?_reverse] at h
  have hnot := head?_dropWhile_not p (l.dropWhile p).reverse
  rwa [h] at hnot

/-- Pointwise at most, and equal in sum: then equal at every point. -/
theorem eq_of_sum_map_eq {β : Type} {f g : β → Nat} {l : List β} (hle : ∀ x ∈ l, f x ≤ g x)
    (hsum : (l.map f).sum = (l.map g).sum) : ∀ x ∈ l, f x = g x := by
  induction l with
  | nil => exact fun x hx => absurd hx not_mem_nil
  | cons y ys ih =>
    have hy := hle y mem_cons_self
    have hys : (ys.map f).sum ≤ (ys.map g).sum :=
      sum_le_sum fun x hx => hle x (mem_cons_of_mem _ hx)
    rw [map_cons, map_cons, sum_cons, sum_cons] at hsum
    intro x hx
    cases mem_cons.mp hx with
    | inl heq => rw [heq]; omega
    | inr hin => exact ih (fun x hx => hle x (mem_cons_of_mem _ hx)) (by omega) x hin

end Text
