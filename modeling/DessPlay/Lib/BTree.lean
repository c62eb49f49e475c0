/-
  DessPlay.Lib.BTree
  **ORDERED FINITE MAPS AND SETS, READ KEY BY KEY.**

  A `BTreeMap` over a linearly ordered key type is a `Std.ExtTreeMap`: two maps
  are EQUAL as soon as they answer every lookup alike.  The programs verified
  over them are loops `for (k, v) in other { … }` whose body only touches key
  `k`.  This file turns such a loop into ONE equation per key
  (`foldl_keyed`), so no later proof unrolls an iteration.
-/
import Mathlib

namespace BTree

open Std (ExtTreeMap ExtTreeSet)
open List

universe u v w

/-- An ordered map with the lookups of Rust's `BTreeMap`. -/
abbrev BTreeMap (K : Type u) (V : Type v) [LinearOrder K] : Type (max u v) :=
  ExtTreeMap K V (compare : K → K → Ordering)

/-- An ordered set with the lookups of Rust's `BTreeSet`. -/
abbrev BTreeSet (T : Type u) [LinearOrder T] : Type u :=
  ExtTreeSet T (compare : T → T → Ordering)

/-- The comparison of a linear order, as the maps need it: ONE instance, found first. -/
instance (priority := 2000) instTransCmp {K : Type u} [LinearOrder K] :
    Std.TransCmp (compare : K → K → Ordering) :=
  Std.LawfulBCmp.toTransCmp

instance (priority := 3000) instTransCmpLex {A : Type u} {B : Type v} [LinearOrder A]
    [LinearOrder B] : Std.TransCmp (compare : A ×ₗ B → A ×ₗ B → Ordering) :=
  instTransCmp

variable {K : Type u} {V : Type v} [LinearOrder K]

/-! ## §1. Lookups, with key comparison read as equality. -/

theorem getElem?_insert (m : BTreeMap K V) (k j : K) (v : V) :
    (m.insert k v)[j]? = if j = k then some v else m[j]? := by
  rw [ExtTreeMap.getElem?_insert]
  simp only [compare_eq_iff_eq, eq_comm (a := j)]

theorem getElem?_erase (m : BTreeMap K V) (k j : K) :
    (m.erase k)[j]? = if j = k then none else m[j]? := by
  rw [ExtTreeMap.getElem?_erase]
  simp only [compare_eq_iff_eq, eq_comm (a := j)]

theorem getElem?_filterMap {W : Type w} (m : BTreeMap K V) (f : K → V → Option W) (j : K) :
    (m.filterMap f)[j]? = m[j]?.bind (f j) := by
  rw [ExtTreeMap.getElem?_filterMap']

theorem getElem?_filter (m : BTreeMap K V) (f : K → V → Bool) (j : K) :
    (m.filter f)[j]? = m[j]?.filter (f j) := by
  rw [ExtTreeMap.getElem?_filter']

theorem getElem?_map {W : Type w} (m : BTreeMap K V) (f : K → V → W) (j : K) :
    (m.map f)[j]? = m[j]?.map (f j) :=
  ExtTreeMap.getElem?_map

theorem mem_entries (m : BTreeMap K V) (e : K × V) : e ∈ m.toList ↔ m[e.1]? = some e.2 :=
  ExtTreeMap.mem_toList_iff_getElem?_eq_some

theorem mem_keys (m : BTreeMap K V) (k : K) : k ∈ m.keys ↔ ∃ v, m[k]? = some v := by
  rw [ExtTreeMap.mem_keys, ExtTreeMap.mem_iff_isSome_getElem?, Option.isSome_iff_exists]

theorem sorted_keys (m : BTreeMap K V) : m.keys.Pairwise (· < ·) :=
  m.ordered_keys.imp fun hlt => compare_lt_iff_lt.mp hlt

theorem nodup_keys (m : BTreeMap K V) : m.keys.Nodup :=
  (sorted_keys m).imp ne_of_lt

theorem mem_zipIdx_of_sorted {l : List K} (hsorted : l.Pairwise (· < ·)) {k : K} (hk : k ∈ l) :
    (k, (l.filter (· < k)).length) ∈ l.zipIdx := by
  rw [mem_zipIdx_iff_getElem?]
  induction l with
  | nil => cases hk
  | cons head l ih =>
    obtain ⟨hhead, hsorted⟩ := pairwise_cons.mp hsorted
    rcases mem_cons.mp hk with rfl | hk
    · have hnone : (k :: l).filter (· < k) = [] := by
        rw [filter_eq_nil_iff]
        intro j hj
        rcases mem_cons.mp hj with rfl | hj
        · simp
        · simpa using (hhead j hj).le
      rw [hnone]
      rfl
    · rw [filter_cons_of_pos (by simpa using hhead k hk)]
      exact ih hsorted hk

variable {T : Type u}

theorem mem_insert [LinearOrder T] (s : BTreeSet T) (x y : T) : y ∈ s.insert x ↔ y = x ∨ y ∈ s := by
  rw [ExtTreeSet.mem_insert, compare_eq_iff_eq, eq_comm (a := x)]

variable {m : BTreeMap K V}

theorem map_ext {m' : BTreeMap K V} (h : ∀ k : K, m[k]? = m'[k]?) : m = m' :=
  ExtTreeMap.ext_getElem? (fun k => h k)

theorem insert_of_getElem? {k : K} {v : V} (h : m[k]? = some v) : m.insert k v = m := by
  refine map_ext fun j => ?_
  rw [getElem?_insert]
  split
  next hj => rw [hj, h]
  · rfl

theorem set_ext [LinearOrder T] {s t : BTreeSet T} (h : ∀ x, x ∈ s ↔ x ∈ t) : s = t :=
  ExtTreeSet.ext_mem h

theorem isEmpty_iff_getElem? (m : BTreeMap K V) : m.isEmpty = true ↔ ∀ k : K, m[k]? = none := by
  constructor
  · intro h k
    rw [ExtTreeMap.isEmpty_iff.mp h]
    exact ExtTreeMap.getElem?_empty
  · intro h
    have : m = ∅ := map_ext fun k => by rw [h k]; exact ExtTreeMap.getElem?_empty.symm
    rw [this]
    exact ExtTreeMap.isEmpty_empty

/-! ## §2. Loops that touch one key per iteration. -/

/-- Two entries of an association list with one key are the same entry. -/
def DistinctKeys (l : List (K × V)) : Prop := l.Pairwise fun a b => a.1 ≠ b.1

variable {σ γ : Type*}

/-- The list form of `foldl_keyed`: the entry of key `j`, if there is one, is
the ONLY iteration that changes what is observed at `j`. -/
theorem list_foldl_keyed (step : σ → K → V → σ) (obs : σ → K → γ) (upd : K → V → γ → γ)
    (hstep : ∀ s k v j, obs (step s k v) j = if j = k then upd j v (obs s j) else obs s j) (j : K) :
    ∀ (l : List (K × V)) (s : σ), DistinctKeys l →
      ((∀ v, (j, v) ∉ l) →
        obs (l.foldl (fun s e => step s e.1 e.2) s) j = obs s j) ∧
      (∀ v, (j, v) ∈ l →
        obs (l.foldl (fun s e => step s e.1 e.2) s) j = upd j v (obs s j)) := by
  intro l
  induction l with
  | nil => intro s _; simp
  | cons e l ih =>
    intro s hd
    obtain ⟨k, v⟩ := e
    have hd' := pairwise_cons.mp hd
    obtain ⟨ih_none, ih_some⟩ := ih (step s k v) hd'.2
    refine ⟨fun hnot => ?_, fun w hw => ?_⟩
    · have hjk : j ≠ k := fun h => hnot v (by rw [h]; exact mem_cons_self)
      rw [foldl_cons, ih_none fun w hw => hnot w (mem_cons_of_mem _ hw),
        hstep, if_neg hjk]
    · rw [foldl_cons]
      rcases mem_cons.mp hw with heq | htail
      · -- the head IS the entry of `j`: the tail leaves `j` alone
        obtain ⟨rfl, rfl⟩ := Prod.mk.injEq .. ▸ heq
        rw [ih_none fun w hw => hd'.1 _ hw rfl, hstep, if_pos rfl]
      · have hjk : j ≠ k := fun h => hd'.1 _ htail h.symm
        rw [ih_some w htail, hstep, if_neg hjk]

/-- **The keyed loop.**  If the body for entry `(k, v)` changes the observation
at `k` by `upd` and at no other key, the whole loop changes the observation
at `j` by the update of `j`'s own entry, once. -/
theorem foldl_keyed (m : BTreeMap K V) (step : σ → K → V → σ) (obs : σ → K → γ)
    (upd : K → V → γ → γ)
    (hstep : ∀ s k v j, obs (step s k v) j = if j = k then upd j v (obs s j) else obs s j) (s : σ)
    (j : K) : obs (m.foldl step s) j = (m[j]?).elim (obs s j) (fun v => upd j v (obs s j)) := by
  have hd : DistinctKeys m.toList := by
    refine m.distinct_keys_toList.imp ?_
    intro a b hne heq
    exact hne (compare_eq_iff_eq.mpr heq)
  obtain ⟨hnone, hsome⟩ := list_foldl_keyed step obs upd hstep j m.toList s hd
  rw [ExtTreeMap.foldl_eq_foldl_toList]
  cases hj : m[j]? with
  | none =>
    refine hnone fun v hv => ?_
    rw [ExtTreeMap.mem_toList_iff_getElem?_eq_some, hj] at hv
    exact absurd hv (by simp)
  | some v => exact hsome v (ExtTreeMap.mem_toList_iff_getElem?_eq_some.mpr hj)

theorem foldl_invariant (m : BTreeMap K V) (step : σ → K → V → σ) {P : σ → Prop} {s : σ} (h₀ : P s)
    (hstep : ∀ s k v, m[k]? = some v → P s → P (step s k v)) : P (m.foldl step s) := by
  rw [ExtTreeMap.foldl_eq_foldl_toList]
  have hmem : ∀ e ∈ m.toList, m[e.1]? = some e.2 := fun e he =>
    ExtTreeMap.mem_toList_iff_getElem?_eq_some.mp he
  generalize m.toList = l at hmem
  induction l generalizing s with
  | nil => exact h₀
  | cons e l ih =>
    exact ih (hstep _ _ _ (hmem e mem_cons_self) h₀) fun e' he' =>
      hmem e' (mem_cons_of_mem _ he')

theorem set_foldl_invariant [LinearOrder T] (t : BTreeSet T) (step : σ → T → σ) {P : σ → Prop}
    {s : σ} (h₀ : P s) (hstep : ∀ s x, P s → P (step s x)) : P (t.foldl step s) := by
  rw [ExtTreeSet.foldl_eq_foldl_toList]
  generalize t.toList = l
  induction l generalizing s with
  | nil => exact h₀
  | cons x l ih => exact ih (hstep _ _ h₀)

theorem mem_foldl_insert [LinearOrder T] (s t : BTreeSet T) (x : T) :
    x ∈ t.foldl (fun acc y => acc.insert y) s ↔ x ∈ s ∨ x ∈ t := by
  rw [ExtTreeSet.foldl_eq_foldl_toList, ← ExtTreeSet.mem_toList (t := t)]
  generalize t.toList = l
  induction l generalizing s with
  | nil => simp
  | cons y l ih =>
    rw [foldl_cons, ih, mem_insert, mem_cons]
    tauto

/-! ## §3. Reading a set in order. -/

theorem mem_toList [LinearOrder T] (s : BTreeSet T) (x : T) : x ∈ s.toList ↔ x ∈ s :=
  ExtTreeSet.mem_toList

/-- A sorted list with the elements of a set is the set, read in order. -/
theorem toList_eq_of_sorted [LinearOrder T] {s : BTreeSet T} {l : List T} (hl : l.Pairwise (· < ·))
    (h : ∀ x, x ∈ s ↔ x ∈ l) : s.toList = l := by
  have hs : s.toList.Pairwise (· < ·) :=
    s.ordered_toList.imp fun hlt => compare_lt_iff_lt.mp hlt
  have hperm : s.toList.Perm l := by
    rw [perm_ext_iff_of_nodup (hs.imp ne_of_lt) (hl.imp ne_of_lt)]
    exact fun x => (mem_toList s x).trans (h x)
  exact hperm.eq_of_pairwise (fun a b _ _ hab hba => absurd hab (lt_asymm hba)) hs hl

/-! ## §4. Sums over a map. -/

/-- The sum of `f` over the entries of a map. -/
def total (f : K → V → Nat) (m : BTreeMap K V) : Nat := (m.toList.map fun e => f e.1 e.2).sum

theorem total_eq_sum (f : K → V → Nat) {S : Finset K} (hS : ∀ k v, m[k]? = some v → k ∈ S) :
    total f m = ∑ k ∈ S, (m[k]?).elim 0 (f k) := by
  have hlist : total f m = (m.keys.map fun k => (m[k]?).elim 0 (f k)).sum := by
    unfold total
    rw [← ExtTreeMap.map_fst_toList_eq_keys, map_map]
    congr 1
    refine map_congr_left fun e he => ?_
    show f e.1 e.2 = (m[e.1]?).elim 0 (f e.1)
    rw [(mem_entries m e).mp he]
    rfl
  rw [hlist, ← sum_toFinset _ (nodup_keys m)]
  refine Finset.sum_subset (fun k hk => ?_) fun k _ hk => ?_
  · obtain ⟨v, hv⟩ := (mem_keys m k).mp (mem_toFinset.mp hk)
    exact hS k v hv
  · cases hv : m[k]? with
    | none => rfl
    | some v => exact absurd (mem_toFinset.mpr ((mem_keys m k).mpr ⟨v, hv⟩)) hk

theorem total_le {W : Type w} {f : K → V → Nat} {g : K → W → Nat} {m' : BTreeMap K W}
    (h : ∀ k, (m[k]?).elim 0 (f k) ≤ (m'[k]?).elim 0 (g k)) : total f m ≤ total g m' := by
  have hm : ∀ k v, m[k]? = some v → k ∈ m.keys.toFinset ∪ m'.keys.toFinset := fun k v hv =>
    Finset.mem_union_left _ (mem_toFinset.mpr ((mem_keys m k).mpr ⟨v, hv⟩))
  have hm' : ∀ k v, m'[k]? = some v → k ∈ m.keys.toFinset ∪ m'.keys.toFinset := fun k v hv =>
    Finset.mem_union_right _ (mem_toFinset.mpr ((mem_keys m' k).mpr ⟨v, hv⟩))
  rw [total_eq_sum f hm, total_eq_sum g hm']
  exact Finset.sum_le_sum fun k _ => h k

theorem total_mono {f g : K → V → Nat} (h : ∀ k v, f k v ≤ g k v) : total f m ≤ total g m := by
  refine total_le fun k => ?_
  cases m[k]? with
  | none => exact le_refl _
  | some v => exact h k v

/-- Replacing one entry moves the sum by the difference at its key. -/
theorem total_insert (f : K → V → Nat) (m : BTreeMap K V) (k : K) (v : V) :
    total f (m.insert k v) + (m[k]?).elim 0 (f k) = total f m + f k v := by
  let S : Finset K := insert k m.keys.toFinset
  have hold : ∀ j w, m[j]? = some w → j ∈ S := fun j w hw =>
    Finset.mem_insert_of_mem (mem_toFinset.mpr ((mem_keys m j).mpr ⟨w, hw⟩))
  have hnew : ∀ j w, (m.insert k v)[j]? = some w → j ∈ S := by
    intro j w hw
    rw [getElem?_insert] at hw
    split at hw
    next hj => exact hj ▸ Finset.mem_insert_self k _
    · exact hold j w hw
  have hk : k ∈ S := Finset.mem_insert_self k _
  have hrest : ∑ j ∈ S.erase k, ((m.insert k v)[j]?).elim 0 (f j) =
      ∑ j ∈ S.erase k, (m[j]?).elim 0 (f j) := by
    refine Finset.sum_congr rfl fun j hj => ?_
    rw [getElem?_insert, if_neg (Finset.ne_of_mem_erase hj)]
  rw [total_eq_sum f hold, total_eq_sum f hnew, ← Finset.add_sum_erase S _ hk,
    ← Finset.add_sum_erase S _ hk, hrest, getElem?_insert, if_pos rfl]
  show f k v + _ + _ = _ + _ + f k v
  omega

theorem size_eq_total (m : BTreeMap K V) : m.size = total (fun _ _ => 1) m := by
  unfold total
  rw [map_const', sum_replicate, smul_eq_mul, mul_one, ExtTreeMap.length_toList]

theorem getElem?_foldl_insert (g : K → V) (l : List K) (m : BTreeMap K V) (j : K) :
    (l.foldl (fun m k => m.insert k (g k)) m)[j]? = if j ∈ l then some (g j) else m[j]? := by
  induction l generalizing m with
  | nil => simp
  | cons k l ih =>
    rw [foldl_cons, ih, getElem?_insert]
    by_cases hj : j = k
    · simp [hj]
    · simp [hj]

/-- A loop that inserts new keys adds what each of them brings. -/
theorem total_foldl_insert (f : K → V → Nat) (g : K → V) {l : List K} (hl : l.Nodup)
    (hnew : ∀ k ∈ l, m[k]? = none) :
    total f (l.foldl (fun m k => m.insert k (g k)) m) =
      total f m + (l.map fun k => f k (g k)).sum := by
  induction l generalizing m with
  | nil => simp
  | cons k l ih =>
    obtain ⟨hk, hl'⟩ := nodup_cons.mp hl
    have hrest : ∀ j ∈ l, (m.insert k (g k))[j]? = none := by
      intro j hj
      have hne : j ≠ k := fun heq => hk (heq ▸ hj)
      rw [getElem?_insert, if_neg hne]
      exact hnew j (mem_cons_of_mem k hj)
    have hinsert := total_insert f m k (g k)
    rw [hnew k mem_cons_self] at hinsert
    rw [foldl_cons, ih hl' hrest, map_cons, sum_cons]
    simp only [Option.elim_none] at hinsert
    omega

/-! ## §5. Decidable equality, so that states can be compared by evaluation. -/

instance instDecidableEqBTreeMap [DecidableEq V] : DecidableEq (BTreeMap K V) :=
  fun m m' =>
    decidable_of_iff (m.toList = m'.toList)
      ⟨fun h => ExtTreeMap.ext_toList (h ▸ List.Perm.refl _), fun h => h ▸ rfl⟩

instance instDecidableEqBTreeSet {T : Type u} [LinearOrder T] : DecidableEq (BTreeSet T) :=
  fun s s' =>
    decidable_of_iff (s.toList = s'.toList)
      ⟨fun h => ExtTreeSet.ext_toList (h ▸ List.Perm.refl _), fun h => h ▸ rfl⟩

end BTree
