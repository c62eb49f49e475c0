/-
  DessPlay.Core.Lww
  **LAST-WRITER-WINS REGISTERS** (`dessplay-core/src/lww.rs`).

  `LwwCell` keeps the maximum of `(timestamp, value)`; applying an op and
  merging a state are the same operation.  In the order of optional winners it
  IS the join (`apply_eq_sup`, `merge_eq_sup`), which makes it a `JoinVal`: a
  legal value of the put-only map theory.
-/
import DessPlay.Core.Types
import DessPlay.Crdts.Cut

namespace DessPlay.Core

open Joins Crdts

structure Lww (V : Type) where
  timestamp : SharedTimestamp
  value : V
  deriving DecidableEq

/-- The derived order compares the timestamp first, the value on a tie. -/
instance {V : Type} [LinearOrder V] : LinearOrder (Lww V) :=
  LinearOrder.lift' (fun l => lex l.timestamp l.value) (by rintro ⟨⟩ ⟨⟩ h; simpa using h)

theorem Lww.lt_of_timestamp_lt {V : Type} [LinearOrder V] {a b : Lww V}
    (h : a.timestamp < b.timestamp) : a < b :=
  Prod.Lex.toLex_lt_toLex.mpr (.inl h)

theorem Lww.timestamp_le_of_le {V : Type} [LinearOrder V] {a b : Lww V} (h : a ≤ b) :
    a.timestamp ≤ b.timestamp := by
  rcases Prod.Lex.toLex_le_toLex.mp h with h | ⟨h, -⟩
  · exact h.le
  · exact h.le

structure LwwCell (V : Type) where
  current : Option (Lww V)
  deriving DecidableEq

namespace LwwCell

variable {V : Type}

def new : LwwCell V := ⟨none⟩

instance : Inhabited (LwwCell V) := ⟨new⟩

def write (_ : LwwCell V) (timestamp : SharedTimestamp) (value : V) : Lww V :=
  ⟨timestamp, value⟩

def read (c : LwwCell V) : Option (Lww V) := c.current

def value (c : LwwCell V) : Option V := c.current.map Lww.value

def timestamp (c : LwwCell V) : Option SharedTimestamp := c.current.map Lww.timestamp

variable [LinearOrder V]

def apply (c : LwwCell V) (op : Lww V) : LwwCell V :=
  match c.current with
  | none => ⟨some op⟩
  | some current => if current < op then ⟨some op⟩ else c

def merge (c other : LwwCell V) : LwwCell V :=
  match other.current with
  | some theirs => c.apply theirs
  | none => c

def resetRemove (c : LwwCell V) (_ : VClock ActorId) : LwwCell V := c

/-! ## The register as a join. -/

instance : LinearOrder (LwwCell V) :=
  LinearOrder.lift' (fun c => ofOption c.current) (by
    rintro ⟨c⟩ ⟨c'⟩ h
    exact congrArg _ (ofOption_injective h))

instance : OrderBot (LwwCell V) where
  bot := new
  bot_le c := (bot_le : (⊥ : WithBot (Lww V)) ≤ ofOption c.current)

def single (op : Lww V) : LwwCell V := ⟨some op⟩

theorem le_iff (c c' : LwwCell V) : c ≤ c' ↔ ofOption c.current ≤ ofOption c'.current :=
  Iff.rfl

theorem single_le_iff (op : Lww V) (c : LwwCell V) :
    single op ≤ c ↔ ∃ w, c.current = some w ∧ op ≤ w := by
  rw [le_iff]
  cases hc : c.current with
  | none => simp [single]
  | some w => simp [single]

theorem apply_eq_sup (c : LwwCell V) (op : Lww V) : c.apply op = c ⊔ single op := by
  unfold apply
  obtain ⟨cur⟩ := c
  cases cur with
  | none =>
    symm
    apply sup_eq_right.mpr
    exact (bot_le : (⊥ : LwwCell V) ≤ _)
  | some current =>
    by_cases h : current < op
    · have hle : (⟨some current⟩ : LwwCell V) ≤ single op := WithBot.coe_le_coe.mpr h.le
      simp only [h, if_true]
      exact (sup_eq_right.mpr hle).symm
    · have hle : single op ≤ (⟨some current⟩ : LwwCell V) :=
        WithBot.coe_le_coe.mpr (not_lt.mp h)
      simp only [h, if_false]
      exact (sup_eq_left.mpr hle).symm

theorem merge_eq_sup (c c' : LwwCell V) : c.merge c' = c ⊔ c' := by
  unfold merge
  obtain ⟨cur'⟩ := c'
  cases cur' with
  | none => exact (sup_eq_left.mpr (bot_le : (⊥ : LwwCell V) ≤ c)).symm
  | some theirs => exact apply_eq_sup c theirs

instance : Val (LwwCell V) (Lww V) ActorId where
  default := new
  apply := apply
  merge := merge
  resetRemove := resetRemove

instance : JoinVal (LwwCell V) (Lww V) ActorId where
  lift := single
  default_eq := rfl
  apply_eq := apply_eq_sup
  merge_eq := merge_eq_sup
  resetRemove_eq _ _ := rfl

end LwwCell

abbrev LwwMap (K V : Type) [LinearOrder K] : Type := Map K (LwwCell V) ActorId

/-- The op type of an `LwwMap`. -/
abbrev LwwMapOp (K V : Type) [LinearOrder K] : Type := Map.Op K (Lww V) ActorId

abbrev LwwRegOp (V : Type) : Type := Lww V

/-- An update of an `LwwMap`. -/
abbrev LwwUpdate (K V : Type) : Type := Update K (Lww V) ActorId

end DessPlay.Core
