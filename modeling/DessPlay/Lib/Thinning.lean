/-
  DessPlay.Lib.Thinning
  **A LOG THINNED BY LATER ENTRIES OF THE SAME KEY.**

  Some entries of a log have a key and may be dropped in favour of a later one with the
  same key, unless an entry without a key stands between the two.  `Thinned log kept`
  says that `kept` is such a selection of `log`, in the order of `log` and with every
  entry at most once; entries without a key are never dropped.
-/
import Mathlib.Data.List.Basic

namespace Thinning

open List

variable {α κ : Type} (key? : α → Option κ)

/-- The entry at `i` has a key which a later entry has too, and only entries with keys stand
between. -/
def Superseded (log : List α) (i : Nat) : Prop :=
  ∃ x y j, i < j ∧ log[i]? = some x ∧ log[j]? = some y ∧ (key? x).isSome ∧ key? y = key? x ∧
    ∀ m z, i < m → m < j → log[m]? = some z → (key? z).isSome

/-- `kept` are the entries of `log` at `positions`, and all others are superseded. -/
structure At (log kept : List α) (positions : List Nat) : Prop where
  ordered : positions.Pairwise (· < ·)
  entries : positions.map (log[·]?) = kept.map some
  dropped : ∀ i < log.length, i ∉ positions → Superseded key? log i

def Thinned (log kept : List α) : Prop := ∃ positions, At key? log kept positions

variable {key?} {log kept : List α} {positions : List Nat}

theorem thinned_nil : Thinned key? [] [] :=
  ⟨[], .nil, rfl, fun i hi => absurd hi (Nat.not_lt_zero i)⟩

theorem Superseded.append {i : Nat} (h : Superseded key? log i) (x : α) :
    Superseded key? (log ++ [x]) i := by
  obtain ⟨a, b, j, hlt, ha, hb, hkey, heq, hbetween⟩ := h
  have hj : j < log.length := (List.getElem?_eq_some_iff.mp hb).1
  refine ⟨a, b, j, hlt, ?_, ?_, hkey, heq, fun m z hm hmj hz => hbetween m z hm hmj ?_⟩
  · rw [getElem?_append_left (by omega), ha]
  · rw [getElem?_append_left hj, hb]
  · rwa [getElem?_append_left (by omega)] at hz

theorem At.lt_length (h : At key? log kept positions) {i : Nat} (hi : i ∈ positions) :
    i < log.length := by
  have hmem : log[i]? ∈ kept.map some := h.entries ▸ mem_map_of_mem hi
  obtain ⟨x, _, hx⟩ := mem_map.mp hmem
  exact (List.getElem?_eq_some_iff.mp hx.symm).1

theorem Thinned.mem (h : Thinned key? log kept) {x : α} (hx : x ∈ kept) : x ∈ log := by
  obtain ⟨positions, hat⟩ := h
  have hmem : some x ∈ positions.map (log[·]?) := hat.entries ▸ mem_map_of_mem hx
  obtain ⟨i, _, hi⟩ := mem_map.mp hmem
  exact mem_of_getElem? hi

theorem At.map_append (h : At key? log kept positions) (x : α) {some' : List Nat}
    (hsub : ∀ i ∈ some', i ∈ positions) :
    (some' ++ [log.length]).map ((log ++ [x])[·]?) = some'.map (log[·]?) ++ [some x] := by
  rw [List.map_append, List.map_singleton, List.getElem?_concat_length]
  congr 1
  refine map_congr_left fun i hi => ?_
  rw [getElem?_append_left (h.lt_length (hsub i hi))]

theorem Thinned.append (h : Thinned key? log kept) (x : α) :
    Thinned key? (log ++ [x]) (kept ++ [x]) := by
  obtain ⟨positions, hat⟩ := h
  refine ⟨positions ++ [log.length], ?_, ?_, fun i hi hnot => ?_⟩
  · refine pairwise_append.mpr ⟨hat.ordered, pairwise_singleton _ _, fun i hi j hj => ?_⟩
    rw [mem_singleton.mp hj]
    exact hat.lt_length hi
  · rw [hat.map_append x fun i hi => hi, hat.entries, map_append]
    rfl
  · rw [mem_append, mem_singleton, not_or] at hnot
    rw [length_append, length_singleton] at hi
    exact (hat.dropped i (by omega) hnot.1).append x

/-- An entry is logged in place of a kept one with its key, behind which only entries with keys are
kept. -/
theorem Thinned.replace {before after : List α} {old new : α} {key : κ}
    (h : Thinned key? log (before ++ old :: after)) (hold : key? old = some key)
    (hnew : key? new = some key) (hafter : ∀ z ∈ after, (key? z).isSome) :
    Thinned key? (log ++ [new]) (before ++ after ++ [new]) := by
  obtain ⟨positions, hat⟩ := h
  have hentries := hat.entries
  rw [map_append, map_cons] at hentries
  obtain ⟨left, rest, rfl, hleft, hrest⟩ := map_eq_append_iff.mp hentries
  obtain ⟨p, right, rfl, hp, hright⟩ := map_eq_cons_iff.mp hrest
  have hordered := pairwise_append.mp hat.ordered
  have hright' := pairwise_cons.mp hordered.2.1
  have hplen : p < log.length := hat.lt_length (by simp)
  have hsub : ∀ i ∈ left ++ right, i ∈ left ++ p :: right := fun i hi => by
    rw [mem_append, mem_cons]
    exact (mem_append.mp hi).imp id .inr
  refine ⟨left ++ right ++ [log.length], ?_, ?_, fun i hi hnot => ?_⟩
  · refine pairwise_append.mpr ⟨pairwise_append.mpr ⟨hordered.1, hright'.2,
      fun i hi j hj => hordered.2.2 i hi j (mem_cons_of_mem p hj)⟩,
      pairwise_singleton _ _, fun i hi j hj => ?_⟩
    rw [mem_singleton.mp hj]
    exact hat.lt_length (hsub i hi)
  · rw [hat.map_append new hsub, map_append, hleft, hright]
    simp
  · rw [mem_append, mem_singleton, not_or] at hnot
    rw [length_append, length_singleton] at hi
    by_cases hip : i = p
    · -- The replaced entry: whatever was logged since has a key, kept or not.
      subst hip
      refine ⟨old, new, log.length, hplen, ?_, getElem?_concat_length, by simp [hold],
        by rw [hold, hnew], fun m z hm hmn hz => ?_⟩
      · rw [getElem?_append_left hplen, hp]
      · rw [getElem?_append_left hmn] at hz
        by_cases hmem : m ∈ left ++ i :: right
        · have hin : m ∈ right := by
            rcases mem_append.mp hmem with hl | hr
            · have := hordered.2.2 m hl i mem_cons_self
              omega
            · exact (mem_cons.mp hr).resolve_left (by omega)
          have hzmem : some z ∈ after.map some := hright ▸ hz ▸ mem_map_of_mem hin
          obtain ⟨z', hz', heq⟩ := mem_map.mp hzmem
          cases heq
          exact hafter z hz'
        · obtain ⟨z', _, _, _, hz', _, hkey, _⟩ := hat.dropped m hmn hmem
          rw [hz] at hz'
          cases hz'
          exact hkey
    · refine (hat.dropped i (by omega) fun hmem => hnot.1 ?_).append new
      rw [mem_append, mem_cons] at hmem
      rw [mem_append]
      exact hmem.imp id fun hr => hr.resolve_left hip

end Thinning
