/-
  DessPlay.Crdts.MapVals
  **WHAT HOLDS OF EVERY VALUE IN A MAP.**

  A predicate that the nested CRDT's own operations keep is kept by every
  operation of the map, removals, deferred removals and merges included: the map
  only ever drops an entry, resets it, or merges two of them.
-/
import DessPlay.Crdts.Map

namespace DessPlay.Crdts

open BTree

namespace Map

variable {K V O A : Type} [LinearOrder K] [LinearOrder A] [Val V O A]

/-- The nested CRDT's operations other than `apply` keep `P`. -/
structure ValClosed (A : Type) [LinearOrder A] [Val V O A] (P : V → Prop) : Prop where
  default : P (Val.default A)
  merge : ∀ {v w : V}, P v → P w → P (Val.merge A v w)
  resetRemove : ∀ {v : V} (c : VClock A), P v → P (Val.resetRemove v c)

/-- Every value stored satisfies `P` at its key. -/
def AllVals (P : K → V → Prop) (entries : BTreeMap K (Entry V A)) : Prop :=
  ∀ (k : K) (e : Entry V A), entries[k]? = some e → P k e.val

variable {P : K → V → Prop}

variable {entries : BTreeMap K (Entry V A)}

omit [Val V O A] in
theorem AllVals.insert (h : AllVals P entries) (key : K)
    {e : Entry V A} (he : P key e.val) : AllVals P (entries.insert key e) := by
  intro k e' hk
  rw [getElem?_insert] at hk
  split at hk
  next heq => rwa [← Option.some.inj hk, heq]
  · exact h k e' hk

omit [Val V O A] in
theorem AllVals.erase (h : AllVals P entries) (key : K) : AllVals P (entries.erase key) := by
  intro k e hk
  rw [getElem?_erase] at hk
  split at hk
  · cases hk
  · exact h k e hk

variable (hP : ∀ k, ValClosed (O := O) A (P k))

include hP

theorem AllVals.removeKey (h : AllVals P entries)
    (clock : VClock A) (key : K) : AllVals P (removeKey (O := O) clock entries key) := by
  unfold Map.removeKey
  cases he : entries[key]? with
  | none => exact h
  | some entry =>
    simp only []
    split
    · exact h.erase key
    · exact h.insert key ((hP key).resetRemove clock (h key entry he))

variable {m : Map K V A}

theorem AllVals.applyKeysetRm (h : AllVals P m.entries) (keyset : BTreeSet K)
    (clock : VClock A) : AllVals P (applyKeysetRm (O := O) m keyset clock).entries := by
  have hrm : AllVals P (keyset.foldl (Map.removeKey (O := O) clock) m.entries) :=
    set_foldl_invariant keyset _ h fun _ key hs => AllVals.removeKey hP hs clock key
  unfold Map.applyKeysetRm
  simp only []
  split <;> exact hrm

theorem AllVals.foldl_applyKeysetRm (h : AllVals P m.entries) (l : List (VClock A × BTreeSet K)) :
    AllVals P (l.foldl (fun m d => Map.applyKeysetRm (O := O) m d.2 d.1) m).entries := by
  induction l generalizing m with
  | nil => exact h
  | cons d l ih => exact ih (AllVals.applyKeysetRm hP h d.2 d.1)

theorem AllVals.apply (h : AllVals P m.entries) (op : Op K O A)
    (hop : ∀ dot key o, op = .up dot key o → ∀ v, P key v → P key (Val.apply A v o)) :
    AllVals P (m.apply op).entries := by
  cases op with
  | rm clock keyset => exact AllVals.applyKeysetRm hP h keyset clock
  | up dot key o =>
    by_cases hseen : dot.counter ≤ m.clock.get dot.actor
    · rw [apply_seen hseen]
      exact h
    · have hentry : P key ((m.entries[key]?).getD (emptyEntry (O := O))).val := by
        cases he : m.entries[key]? with
        | none => exact (hP key).default
        | some e => exact h key e he
      simp only [Map.apply, if_neg hseen]
      exact AllVals.foldl_applyKeysetRm hP
        (h.insert key (hop dot key o rfl _ hentry)) m.deferred

theorem AllVals.keepOurs (h : AllVals P m.entries) (other : Map K V A) :
    AllVals P (m.entries.filterMap (Map.keepOurs (O := O) other)) := by
  intro k e hk
  rw [getElem?_filterMap] at hk
  obtain ⟨ours, hours, hkeep⟩ := Option.bind_eq_some_iff.mp hk
  have hv := h k ours hours
  unfold Map.keepOurs at hkeep
  split at hkeep
  · rwa [← Option.some.inj hkeep]
  · split at hkeep
    · cases hkeep
    · rw [← Option.some.inj hkeep]
      exact (hP k).resetRemove _ hv

theorem AllVals.takeTheirs (h : AllVals P entries)
    (selfClock otherClock : VClock A) (key : K) {entry : Entry V A} (he : P key entry.val) :
    AllVals P (takeTheirs (O := O) selfClock otherClock entries key entry) := by
  unfold Map.takeTheirs
  cases hours : entries[key]? with
  | some ours =>
    simp only []
    split
    · exact h.erase key
    · exact h.insert key ((hP key).resetRemove _ ((hP key).merge (h key ours hours) he))
  | none =>
    simp only []
    split
    · exact h
    · exact h.insert key ((hP key).resetRemove _ he)

theorem AllVals.merge {other : Map K V A} (h : AllVals P m.entries)
    (ho : AllVals P other.entries) : AllVals P (merge (O := O) m other).entries := by
  have hboth : AllVals P (other.entries.foldl (Map.takeTheirs (O := O) m.clock other.clock)
      (m.entries.filterMap (Map.keepOurs (O := O) other))) :=
    foldl_invariant other.entries _ (AllVals.keepOurs hP h other) fun _ key entry he hs =>
      AllVals.takeTheirs hP hs _ _ key (ho key entry he)
  unfold Map.merge Map.applyDeferred
  refine AllVals.foldl_applyKeysetRm hP ?_ _
  exact AllVals.foldl_applyKeysetRm (m := { m with entries := _ }) hP hboth other.deferred

end Map

end DessPlay.Crdts
