/-
  DessPlay.Lib.Index
  **INDEXES BUILT IN ONE PASS, AND THE FIRST OF A STABLE SORT.**

  A loop `for (k, v) in … { index.entry(k)… }` either collects the values of
  every key (`collect`) or keeps the first (`first`).  Each has one equation per
  key.  `head_stable` reads off what a stable sort puts first: the least by the
  sort's key, and among equals the one that stood first before.
-/
import DessPlay.Lib.BTree

namespace Index

open BTree Option
open List hiding getElem?_insert insert mem_map
open Std (ExtTreeMap)

variable {K V W : Type*} [LinearOrder K]

/-! ## §1. Collecting. -/

/-- `index.entry(k).or_insert(empty)`, then `add` of the value, for each pair. -/
def collect (empty : W) (add : W → V → W) (l : List (K × V)) : BTreeMap K W :=
  l.foldl (fun m e => m.insert e.1 (add (m[e.1]?.getD empty) e.2)) ∅

/-- The values of one key, in order. -/
def valuesAt (l : List (K × V)) (k : K) : List V := (l.filter fun e => e.1 = k).map Prod.snd

variable {l : List (K × V)}

@[simp] theorem mem_valuesAt {k : K} {v : V} : v ∈ valuesAt l k ↔ (k, v) ∈ l := by
  simp only [valuesAt, List.mem_map, mem_filter, decide_eq_true_eq]
  constructor
  · rintro ⟨⟨_, _⟩, ⟨hmem, rfl⟩, rfl⟩
    exact hmem
  · exact fun hmem => ⟨(k, v), ⟨hmem, rfl⟩, rfl⟩

theorem valuesAt_concat (l : List (K × V)) (last : K × V) (k : K) :
    valuesAt (l ++ [last]) k = valuesAt l k ++ if last.1 = k then [last.2] else [] := by
  unfold valuesAt
  rw [filter_append, map_append]
  by_cases hk : last.1 = k <;> simp [hk]

/-- **What a collecting loop leaves at a key.** -/
theorem getElem?_collect (empty : W) (add : W → V → W) (l : List (K × V)) (k : K) :
    (collect empty add l)[k]? =
      if valuesAt l k = [] then none else some ((valuesAt l k).foldl add empty) := by
  induction l using reverseRecOn with
  | nil => simp [collect, valuesAt]
  | append_singleton l last ih =>
    unfold collect at ih ⊢
    rw [foldl_concat, getElem?_insert]
    by_cases hk : k = last.1
    · subst hk
      rw [valuesAt_concat, if_pos rfl, if_pos rfl, if_neg (by simp), foldl_concat, ih]
      split
      next hnil => rw [hnil]; rfl
      · rfl
    · rw [valuesAt_concat, if_neg hk, if_neg (Ne.symm hk), append_nil, ih]

theorem mem_collect {empty : W} {add : W → V → W} {k : K} :
    k ∈ collect empty add l ↔ ∃ v, (k, v) ∈ l := by
  rw [ExtTreeMap.mem_iff_isSome_getElem?, getElem?_collect]
  by_cases hnil : valuesAt l k = []
  · rw [if_pos hnil]
    refine iff_of_false (by simp) ?_
    rintro ⟨v, hv⟩
    exact absurd (hnil ▸ mem_valuesAt.mpr hv) not_mem_nil
  · rw [if_neg hnil]
    obtain ⟨v, hv⟩ := exists_mem_of_ne_nil _ hnil
    exact iff_of_true rfl ⟨v, mem_valuesAt.mp hv⟩

/-- `index.entry(k).or_default().push(v)` for each pair. -/
def group (l : List (K × V)) : BTreeMap K (List V) := collect [] (fun vs v => vs ++ [v]) l

theorem getElem?_group (l : List (K × V)) (k : K) :
    (group l)[k]? = if valuesAt l k = [] then none else some (valuesAt l k) := by
  have hfold : (valuesAt l k).foldl (fun vs v => vs ++ [v]) [] = valuesAt l k := by
    induction valuesAt l k using reverseRecOn with
    | nil => rfl
    | append_singleton vs v ih => rw [foldl_concat, ih]
  rw [group, getElem?_collect, hfold]

theorem mem_getD_group {k : K} {v : V} : v ∈ (group l)[k]?.getD [] ↔ (k, v) ∈ l := by
  rw [getElem?_group, ← mem_valuesAt]
  split
  next hnil => rw [hnil]; rfl
  · rfl

/-! ## §2. Keeping the first. -/

/-- `index.entry(k).or_insert(v)` for each pair. -/
def first (l : List (K × V)) : BTreeMap K V :=
  l.foldl (fun m e => if e.1 ∈ m then m else m.insert e.1 e.2) ∅

/-- **What a loop that keeps the first leaves at a key.** -/
theorem getElem?_first (l : List (K × V)) (k : K) : (first l)[k]? = (valuesAt l k).head? := by
  induction l using reverseRecOn with
  | nil => simp [first, valuesAt]
  | append_singleton l last ih =>
    unfold first at ih ⊢
    rw [foldl_concat, valuesAt_concat, head?_append, ← ih]
    split
    next hmem =>
      by_cases hk : last.1 = k
      · subst hk
        rw [ExtTreeMap.mem_iff_isSome_getElem?, isSome_iff_exists] at hmem
        obtain ⟨v, hv⟩ := hmem
        rw [hv]
        rfl
      · rw [if_neg hk]
        exact (or_none).symm
    next hmem =>
      rw [getElem?_insert]
      by_cases hk : k = last.1
      · subst hk
        rw [if_pos rfl, if_pos rfl, ExtTreeMap.getElem?_eq_none hmem]
        rfl
      · rw [if_neg hk, if_neg (Ne.symm hk)]
        exact (or_none).symm

theorem getElem?_first_eq_none {k : K} : (first l)[k]? = none ↔ ∀ v, (k, v) ∉ l := by
  rw [getElem?_first, head?_eq_none_iff, eq_nil_iff_forall_not_mem]
  simp only [mem_valuesAt]

theorem mem_of_getElem?_first {k : K} {v : V} (h : (first l)[k]? = some v) : (k, v) ∈ l := by
  rw [getElem?_first] at h
  exact mem_valuesAt.mp (mem_of_mem_head? h)

/-! ## §3. Stable sorts. -/

/-- **The first of a stable sort.**  Sorting an ascending list by a key puts the least key first,
and among equal keys the least element. -/
theorem head_stable {T Key : Type*} [LinearOrder T] [LinearOrder Key] {key : T → Key} {l : List T}
    (hl : l.Pairwise (· < ·)) {x : T}
    (hx : (l.insertionSort fun a b => key a ≤ key b).head? = some x) :
    x ∈ l ∧ ∀ y ∈ l, key x < key y ∨ key x = key y ∧ x ≤ y := by
  obtain ⟨rest, hsort⟩ : ∃ rest, l.insertionSort (fun a b => key a ≤ key b) = x :: rest :=
    head?_eq_some_iff.mp hx
  have hsorted := pairwise_insertionSort (fun a b : T => key a ≤ key b) l
  have hnodup : (x :: rest).Nodup :=
    hsort ▸ (perm_insertionSort _ l).nodup_iff.mpr (hl.imp ne_of_lt)
  have hmem : ∀ y, y ∈ l ↔ y ∈ x :: rest := fun y => by
    rw [← hsort, mem_insertionSort]
  rw [hsort, pairwise_cons] at hsorted
  refine ⟨(hmem x).mpr mem_cons_self, fun y hy => ?_⟩
  rcases mem_cons.mp ((hmem y).mp hy) with rfl | hrest
  · exact .inr ⟨rfl, le_rfl⟩
  · refine (hsorted.1 y hrest).lt_or_eq.imp_right fun hkey => ⟨hkey, le_of_not_gt fun hlt => ?_⟩
    -- `y` stood before `x` and has its key, so it still stands before the first
    have hpair : [y, x].Sublist l := by
      refine sublist_of_subperm_of_pairwise (r := (· < ·)) ?_ (pairwise_pair.mpr hlt) hl
      refine (nodup_cons.mpr
        ⟨mt mem_singleton.mp hlt.ne, nodup_singleton x⟩).subperm ?_
      intro z hz
      simp only [mem_cons, not_mem_nil, or_false] at hz
      rcases hz with rfl | rfl
      · exact hy
      · exact (hmem z).mpr mem_cons_self
    have hbefore :=
      pair_sublist_insertionSort (r := fun a b : T => key a ≤ key b) hkey.ge hpair
    rw [hsort] at hbefore
    cases hbefore with
    | cons _ hrest => exact (nodup_cons.mp hnodup).1 (hrest.subset (by simp))
    | cons_cons _ _ => exact lt_irrefl x hlt

end Index
