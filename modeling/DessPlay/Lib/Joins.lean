/-
  DessPlay.Lib.Joins
  **STATES THAT ARE JOINS OF WHAT THEY HAVE SEEN.**

  In a join-semilattice, give every event `o` a DELTA `δ o`.  A state that is
  `s ⊔ δ o₁ ⊔ … ⊔ δ oₙ` depends on the SET of events only: neither their order
  nor their multiplicity can be told from it (`joinAll_congr`).
-/
import Mathlib

namespace Joins

open List

variable {L ι : Type*} [SemilatticeSup L] (δ : ι → L)

/-- The state reached from `s` by taking in the deltas of a list of events. -/
def joinAll (s : L) (l : List ι) : L := l.foldl (fun x o => x ⊔ δ o) s

@[simp] theorem joinAll_nil (s : L) : joinAll δ s [] = s := rfl

@[simp] theorem joinAll_append (s : L) (l l' : List ι) :
    joinAll δ s (l ++ l') = joinAll δ (joinAll δ s l) l' :=
  foldl_append

/-- A join lies below `x` exactly when its start and all its deltas do. -/
theorem joinAll_le_iff (s x : L) (l : List ι) : joinAll δ s l ≤ x ↔ s ≤ x ∧ ∀ o ∈ l, δ o ≤ x := by
  induction l generalizing s with
  | nil => simp
  | cons o l ih =>
    show joinAll δ (s ⊔ δ o) l ≤ x ↔ _
    rw [ih, sup_le_iff, forall_mem_cons, and_assoc]

theorem le_joinAll (s : L) (l : List ι) : s ≤ joinAll δ s l :=
  ((joinAll_le_iff δ s _ l).mp le_rfl).1

theorem delta_le_joinAll (s : L) {l : List ι} {o : ι} (h : o ∈ l) : δ o ≤ joinAll δ s l :=
  ((joinAll_le_iff δ s _ l).mp le_rfl).2 o h

/-- **Order and multiplicity do not show.**  Two lists with the same events lead
to the same state. -/
theorem joinAll_congr (s : L) {l l' : List ι} (h : ∀ o, o ∈ l ↔ o ∈ l') :
    joinAll δ s l = joinAll δ s l' := by
  apply le_antisymm
  · rw [joinAll_le_iff]
    exact ⟨le_joinAll δ s l', fun o ho => delta_le_joinAll δ s ((h o).mp ho)⟩
  · rw [joinAll_le_iff]
    exact ⟨le_joinAll δ s l, fun o ho => delta_le_joinAll δ s ((h o).mpr ho)⟩

theorem joinAll_mono {s s' : L} (h : s ≤ s') (l : List ι) : joinAll δ s l ≤ joinAll δ s' l :=
  (joinAll_le_iff δ s _ l).mpr
    ⟨h.trans (le_joinAll δ s' l), fun _ ho => delta_le_joinAll δ s' ho⟩

theorem joinAll_sup (s : L) (l l' : List ι) :
    joinAll δ s l ⊔ joinAll δ s l' = joinAll δ s (l ++ l') := by
  apply le_antisymm
  · rw [sup_le_iff, joinAll_le_iff, joinAll_le_iff]
    exact ⟨⟨le_joinAll δ s _, fun o ho => delta_le_joinAll δ s (by simp [ho])⟩,
      ⟨le_joinAll δ s _, fun o ho => delta_le_joinAll δ s (by simp [ho])⟩⟩
  · rw [joinAll_le_iff]
    refine ⟨le_sup_of_le_left (le_joinAll δ s l), fun o ho => ?_⟩
    rcases mem_append.mp ho with ho | ho
    · exact le_sup_of_le_left (delta_le_joinAll δ s ho)
    · exact le_sup_of_le_right (delta_le_joinAll δ s ho)

theorem joinAll_snoc (s : L) (l : List ι) (o : ι) :
    joinAll δ s (l ++ [o]) = joinAll δ s l ⊔ δ o := by
  rw [joinAll_append]; rfl

/-- Seen through a join-preserving map into a linear order, a join is its start
or ONE of its deltas: a maximum is attained. -/
theorem joinAll_attained {B : Type*} [LinearOrder B] (φ : L → B)
    (hφ : ∀ x y, φ (x ⊔ y) = max (φ x) (φ y)) (s : L) (l : List ι) :
    φ (joinAll δ s l) = φ s ∨ ∃ o ∈ l, φ (joinAll δ s l) = φ (δ o) := by
  induction l using List.reverseRecOn with
  | nil => exact .inl rfl
  | append_singleton l o ih =>
    rw [joinAll_snoc, hφ]
    rcases max_choice (φ (joinAll δ s l)) (φ (δ o)) with h | h
    · rw [h]
      rcases ih with ih | ⟨o', ho', ih⟩
      · exact .inl ih
      · exact .inr ⟨o', mem_append_left _ ho', ih⟩
    · exact .inr ⟨o, by simp, h⟩

/-! ## Optional values as values with a least element. -/

/-- `none` is the least element: Rust's order on `Option`. -/
def ofOption {α : Type*} (o : Option α) : WithBot α := o.elim ⊥ WithBot.some

@[simp] theorem ofOption_none {α : Type*} : ofOption (none : Option α) = ⊥ := rfl

@[simp] theorem ofOption_some {α : Type*} (a : α) :
    ofOption (some a) = (a : WithBot α) := rfl

theorem ofOption_injective {α : Type*} : Function.Injective (ofOption : Option α → WithBot α) := by
  intro x y h
  cases x with
  | none =>
    cases y with
    | none => rfl
    | some b => exact absurd h (WithBot.bot_ne_coe)
  | some a =>
    cases y with
    | none => exact absurd h (WithBot.coe_ne_bot)
    | some b => exact congrArg some (WithBot.coe_injective h)

end Joins
