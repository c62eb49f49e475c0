/-
  DessPlay.Crdts.VClock
  **DOTS AND VECTOR CLOCKS** (`vendor/crdts/src/{dot,vclock}.rs`).

  A `VClock` maps each actor to the highest counter seen from it.  Every
  operation is a loop over one clock's dots; each gets ONE equation saying what
  it leaves at an actor (`dots_apply`, `dots_merge`, `dots_resetRemove`,
  `dots_intersection`), and later files reason from those equations only.
-/
import DessPlay.Lib.BTree

namespace DessPlay.Crdts

open BTree Option

universe u

/-- A version marker: the `counter`-th operation of `actor`. -/
structure Dot (A : Type u) where
  actor : A
  counter : Nat
  deriving DecidableEq, Repr

def Dot.inc {A : Type u} (d : Dot A) : Dot A := { d with counter := d.counter + 1 }

/-- A vector clock.  An actor missing from `dots` has the implied counter 0. -/
structure VClock (A : Type u) [LinearOrder A] where
  dots : BTreeMap A Nat

namespace VClock

variable {A : Type u} [LinearOrder A]

instance : DecidableEq (VClock A) := fun a b =>
  decidable_of_iff (a.dots = b.dots) ⟨fun h => by cases a; cases b; simp_all, fun h => h ▸ rfl⟩

/-! ## §1. The operations, as the crate writes them. -/

def new : VClock A := ⟨∅⟩

instance : Inhabited (VClock A) := ⟨new⟩

def get (c : VClock A) (actor : A) : Nat := c.dots.getD actor 0

def dot (c : VClock A) (actor : A) : Dot A := ⟨actor, c.get actor⟩

def inc (c : VClock A) (actor : A) : Dot A := (c.dot actor).inc

def apply (c : VClock A) (d : Dot A) : VClock A :=
  if c.get d.actor < d.counter then ⟨c.dots.insert d.actor d.counter⟩ else c

def merge (c other : VClock A) : VClock A :=
  other.dots.foldl (fun acc actor counter => acc.apply ⟨actor, counter⟩) c

def resetRemove (c other : VClock A) : VClock A :=
  other.dots.foldl
    (fun acc actor counter =>
      if acc.get actor ≤ counter then ⟨acc.dots.erase actor⟩ else acc) c

/-- A copy without what `base` already covers. -/
def cloneWithout (c base : VClock A) : VClock A := c.resetRemove base

def intersection (left right : VClock A) : VClock A :=
  ⟨left.dots.filter fun actor counter => right.get actor == counter⟩

def isEmpty (c : VClock A) : Bool := c.dots.isEmpty

/-- `self` reaches every dot of `other`. -/
def covers (c other : VClock A) : Bool :=
  other.dots.toList.all fun e => e.2 ≤ c.get e.1

/-- The partial order of clocks, tested in the crate's order: equal, greater,
less, otherwise concurrent. -/
def partialCmp (c other : VClock A) : Option Ordering :=
  if c = other then some .eq
  else if c.covers other then some .gt
  else if other.covers c then some .lt
  else none

/-- Rust's `>=` on a `PartialOrd` type. -/
def ge (c other : VClock A) : Bool :=
  match c.partialCmp other with
  | some .gt | some .eq => true
  | _ => false

/-! ## §2. What each operation leaves at an actor. -/

theorem ext_dots {c c' : VClock A} (h : ∀ a : A, c.dots[a]? = c'.dots[a]?) : c = c' := by
  cases c; cases c'
  congr
  exact map_ext h

theorem get_eq (c : VClock A) (a : A) : c.get a = (c.dots[a]?).getD 0 :=
  Std.ExtTreeMap.getD_eq_getD_getElem?

theorem get_of_dots {c : VClock A} {a : A} {n : Nat} (h : c.dots[a]? = some n) : c.get a = n := by
  rw [get_eq, h]; rfl

theorem get_of_dots_none {c : VClock A} {a : A} (h : c.dots[a]? = none) : c.get a = 0 := by
  rw [get_eq, h]; rfl

@[simp] theorem dots_new (a : A) : (new : VClock A).dots[a]? = none :=
  Std.ExtTreeMap.getElem?_empty

@[simp] theorem get_new (a : A) : (new : VClock A).get a = 0 :=
  get_of_dots_none (dots_new a)

@[simp] theorem inc_actor (c : VClock A) (a : A) : (c.inc a).actor = a := rfl

@[simp] theorem inc_counter (c : VClock A) (a : A) : (c.inc a).counter = c.get a + 1 := rfl

theorem dots_apply (c : VClock A) (d : Dot A) (a : A) :
    (c.apply d).dots[a]? =
      if a = d.actor then
        (if c.get a < d.counter then some d.counter else c.dots[a]?)
      else c.dots[a]? := by
  unfold apply
  by_cases ha : a = d.actor
  · subst ha
    by_cases hlt : c.get d.actor < d.counter
    · simp only [hlt, if_true, getElem?_insert]
    · simp only [hlt, if_false, if_true]
  · by_cases hlt : c.get d.actor < d.counter
    · simp only [hlt, if_true, getElem?_insert, if_neg ha]
    · simp only [hlt, if_false, if_neg ha]

theorem get_apply (c : VClock A) (d : Dot A) (a : A) :
    (c.apply d).get a = if a = d.actor then max (c.get a) d.counter else c.get a := by
  rw [get_eq, dots_apply]
  by_cases ha : a = d.actor
  · rw [if_pos ha, if_pos ha]
    by_cases hlt : c.get a < d.counter
    · rw [if_pos hlt, getD_some]; omega
    · rw [if_neg hlt, ← get_eq]; omega
  · rw [if_neg ha, if_neg ha, ← get_eq]

theorem dots_merge (c other : VClock A) (a : A) :
    (c.merge other).dots[a]? =
      (other.dots[a]?).elim (c.dots[a]?)
        (fun n => if c.get a < n then some n else c.dots[a]?) := by
  have h := foldl_keyed other.dots
    (fun (acc : VClock A) actor counter => acc.apply ⟨actor, counter⟩)
    (fun acc j => acc.dots[j]?)
    (fun _ n old => if old.getD 0 < n then some n else old)
    (by
      intro s k v j
      rw [dots_apply, get_eq]) c a
  rw [get_eq]
  exact h

theorem get_merge (c other : VClock A) (a : A) :
    (c.merge other).get a = max (c.get a) (other.get a) := by
  rw [get_eq (c.merge other), dots_merge]
  cases ho : other.dots[a]? with
  | none => rw [get_of_dots_none ho, elim_none, ← get_eq]; omega
  | some n =>
    rw [get_of_dots ho, elim_some]
    by_cases hlt : c.get a < n
    · rw [if_pos hlt, getD_some]; omega
    · rw [if_neg hlt, ← get_eq]; omega

theorem dots_resetRemove (c other : VClock A) (a : A) :
    (c.resetRemove other).dots[a]? =
      (other.dots[a]?).elim (c.dots[a]?)
        (fun n => if c.get a ≤ n then none else c.dots[a]?) := by
  have h := foldl_keyed other.dots
    (fun (acc : VClock A) actor counter =>
      if acc.get actor ≤ counter then ⟨acc.dots.erase actor⟩ else acc)
    (fun acc j => acc.dots[j]?)
    (fun _ n old => if old.getD 0 ≤ n then none else old)
    (by
      intro s k v j
      by_cases hle : s.get k ≤ v
      · by_cases hj : j = k
        · subst hj
          rw [get_eq] at hle
          simp only [get_eq, hle, if_true, getElem?_erase]
        · simp only [hle, if_true, getElem?_erase, if_neg hj]
      · by_cases hj : j = k
        · subst hj
          rw [get_eq] at hle
          simp only [get_eq, hle, if_false, if_true]
        · simp only [hle, if_false, if_neg hj]) c a
  rw [get_eq]
  exact h

theorem dots_intersection (left right : VClock A) (a : A) :
    (intersection left right).dots[a]? =
      (left.dots[a]?).filter fun n => right.get a == n := by
  exact getElem?_filter left.dots _ a

theorem isEmpty_iff (c : VClock A) : c.isEmpty = true ↔ ∀ a : A, c.dots[a]? = none :=
  isEmpty_iff_getElem? c.dots

theorem covers_iff (c other : VClock A) :
    c.covers other = true ↔ ∀ (a : A) n, other.dots[a]? = some n → n ≤ c.get a := by
  unfold covers
  rw [List.all_eq_true]
  constructor
  · intro h a n ha
    have := h (a, n) (Std.ExtTreeMap.mem_toList_iff_getElem?_eq_some.mpr ha)
    simpa using this
  · intro h e he
    have := h e.1 e.2 (Std.ExtTreeMap.mem_toList_iff_getElem?_eq_some.mp he)
    simpa using this

/-- `>=` says that every dot of `other` is reached (the equality test adds
nothing: equal clocks reach each other). -/
theorem ge_iff (c other : VClock A) :
    c.ge other = true ↔ ∀ (a : A) n, other.dots[a]? = some n → n ≤ c.get a := by
  rw [← covers_iff]
  unfold ge partialCmp
  by_cases heq : c = other
  · subst heq
    have hself : c.covers c = true :=
      (covers_iff c c).mpr fun a n ha => (get_of_dots ha).ge
    simp [hself]
  · by_cases hcov : c.covers other = true
    · simp [heq, hcov]
    · by_cases hrev : other.covers c = true <;> simp [heq, hcov, hrev]

end VClock

end DessPlay.Crdts
