/-
  DessPlay.Crdts.Map
  **THE RESET-REMOVE MAP** (`vendor/crdts/src/map.rs`), as the crate writes it.

  A `Map` holds, beside its entries, a clock of every dot it has seen; an entry
  carries the clock of the dots that edited it.  PRESENCE IS DECIDED BY CLOCKS:
  `merge` drops an entry that the other side's clock dominates and the other
  side no longer has.  Nothing here assumes that dots are unique or in order.
-/
import DessPlay.Crdts.VClock

namespace DessPlay.Crdts

open BTree

/-- The crate's `Val` bound: what a map needs of the CRDT it nests.  `O` is the
nested CRDT's op type. -/
class Val (V : Type) (O : outParam Type) (A : Type) [LinearOrder A] where
  default : V
  apply : V → O → V
  merge : V → V → V
  resetRemove : V → VClock A → V

structure Entry (V A : Type) [LinearOrder A] where
  clock : VClock A
  val : V
  deriving DecidableEq

inductive Map.Op (K O A : Type) [LinearOrder K] [LinearOrder A] where
  /-- Remove keys, as far as `clock` has seen them. -/
  | rm (clock : VClock A) (keyset : BTreeSet K)
  /-- Update the value under `key`. -/
  | up (dot : Dot A) (key : K) (op : O)

/-- The map CRDT.  `deferred` is a `HashMap` from remove clocks to keys, kept as
an association list with at most one pair per clock; the crate's iteration
order over it is unspecified, here it is the list's. -/
structure Map (K V A : Type) [LinearOrder K] [LinearOrder A] where
  clock : VClock A
  entries : BTreeMap K (Entry V A)
  deferred : List (VClock A × BTreeSet K)

namespace Map

variable {K V O A : Type} [LinearOrder K] [LinearOrder A]

def new : Map K V A := ⟨VClock.new, ∅, []⟩

instance : Inhabited (Map K V A) := ⟨new⟩

instance [DecidableEq V] : DecidableEq (Map K V A) := fun a b =>
  decidable_of_iff (a.clock = b.clock ∧ a.entries = b.entries ∧ a.deferred = b.deferred)
    ⟨fun h => by cases a; cases b; simp_all, fun h => h ▸ ⟨rfl, rfl, rfl⟩⟩

/-- `deferred.entry(clock).or_default().append(keyset)`. -/
def appendDeferred (deferred : List (VClock A × BTreeSet K)) (clock : VClock A)
    (keyset : BTreeSet K) : List (VClock A × BTreeSet K) :=
  match deferred with
  | [] => [(clock, keyset)]
  | (c, ks) :: rest =>
    if c = clock then (c, keyset.foldl (fun acc k => acc.insert k) ks) :: rest
    else (c, ks) :: appendDeferred rest clock keyset

/-- The clock `merge` keeps for an entry present on both sides. -/
def commonClock (selfClock otherClock : VClock A) (ours theirs : VClock A) : VClock A :=
  ((VClock.intersection theirs ours).merge (theirs.cloneWithout selfClock)).merge
    (ours.cloneWithout otherClock)

section Operations

variable [Val V O A]

/-- The entry a first write materialises. -/
def emptyEntry : Entry V A := ⟨VClock.new, Val.default A⟩

def removeKey (clock : VClock A) (entries : BTreeMap K (Entry V A)) (key : K) :
    BTreeMap K (Entry V A) :=
  match entries[key]? with
  | none => entries
  | some entry =>
    let left := entry.clock.resetRemove clock
    -- an entry whose clock says "no information" goes; otherwise it is reset
    if left.isEmpty then entries.erase key
    else entries.insert key ⟨left, Val.resetRemove entry.val clock⟩

/-- Apply a set of key removals given a clock, and remember it while the clock
has information this map has not seen. -/
def applyKeysetRm (m : Map K V A) (keyset : BTreeSet K) (clock : VClock A) : Map K V A :=
  let m := { m with entries := keyset.foldl (removeKey clock) m.entries }
  match m.clock.partialCmp clock with
  | none | some .lt => { m with deferred := appendDeferred m.deferred clock keyset }
  | _ => m

def applyDeferred (m : Map K V A) : Map K V A :=
  m.deferred.foldl (fun m d => m.applyKeysetRm d.2 d.1) { m with deferred := [] }

/-- Apply an operation.  An update whose dot the clock already covers has been
seen and does NOTHING. -/
def apply (m : Map K V A) : Op K O A → Map K V A
  | .rm clock keyset => m.applyKeysetRm keyset clock
  | .up dot key op =>
    if dot.counter ≤ m.clock.get dot.actor then m
    else
      let entry := (m.entries[key]?).getD emptyEntry
      applyDeferred
        { m with
          entries :=
            m.entries.insert key ⟨entry.clock.apply dot, Val.apply A entry.val op⟩
          clock := m.clock.apply dot }

/-- First pass of `merge`: what becomes of OUR entry. -/
def keepOurs (other : Map K V A) (key : K) (entry : Entry V A) : Option (Entry V A) :=
  if other.entries.contains key then some entry
  else if other.clock.ge entry.clock then none
  else
    let clock := entry.clock.resetRemove other.clock
    let removed := other.clock.resetRemove clock
    some ⟨clock, Val.resetRemove entry.val removed⟩

/-- Second pass of `merge`: take in THEIR entry for `key`, given the two maps'
clocks and our entries so far. -/
def takeTheirs (selfClock otherClock : VClock A) (entries : BTreeMap K (Entry V A))
    (key : K) (entry : Entry V A) : BTreeMap K (Entry V A) :=
  match entries[key]? with
  | some ours =>
    let common := commonClock selfClock otherClock ours.clock entry.clock
    -- present on both sides, and still possibly dropped by both
    if common.isEmpty then entries.erase key
    else
      let deleted := (entry.clock.merge ours.clock).resetRemove common
      entries.insert key
        ⟨common, Val.resetRemove (Val.merge A ours.val entry.val) deleted⟩
  | none =>
    if selfClock.ge entry.clock then entries
    else
      let clock := entry.clock.resetRemove selfClock
      let deleted := selfClock.resetRemove clock
      entries.insert key ⟨clock, Val.resetRemove entry.val deleted⟩

/-- State-based merge: our entries, their entries, their deferred removals, the
clocks, and a retry of everything deferred. -/
def merge (m other : Map K V A) : Map K V A :=
  let kept := m.entries.filterMap (keepOurs other)
  let both := other.entries.foldl (takeTheirs m.clock other.clock) kept
  let m := { m with entries := both }
  let m := other.deferred.foldl (fun m d => m.applyKeysetRm d.2 d.1) m
  applyDeferred { m with clock := m.clock.merge other.clock }

end Operations

/-- The update op that writes `op` under `key` as `actor`'s next operation
(`update` with `read_ctx().derive_add_ctx(actor)`). -/
def update (m : Map K V A) (key : K) (actor : A) (op : O) : Op K O A :=
  .up (m.clock.inc actor) key op

def get (m : Map K V A) (key : K) : Option V := (m.entries[key]?).map Entry.val

/-! ## Clocks only see updates and merges. -/

section Clocks

variable [Val V O A]

theorem applyKeysetRm_clock (m : Map K V A) (keyset : BTreeSet K) (clock : VClock A) :
    (applyKeysetRm (O := O) m keyset clock).clock = m.clock := by
  unfold applyKeysetRm
  simp only []
  split <;> rfl

theorem foldl_applyKeysetRm_clock (l : List (VClock A × BTreeSet K)) (m : Map K V A) :
    (l.foldl (fun m d => applyKeysetRm (O := O) m d.2 d.1) m).clock = m.clock := by
  induction l generalizing m with
  | nil => rfl
  | cons d l ih => rw [List.foldl_cons, ih, applyKeysetRm_clock]

theorem applyDeferred_clock (m : Map K V A) : (applyDeferred (O := O) m).clock = m.clock :=
  foldl_applyKeysetRm_clock m.deferred _

theorem apply_rm_clock (m : Map K V A) (keyset : BTreeSet K) (clock : VClock A) :
    (m.apply (.rm clock keyset : Op K O A)).clock = m.clock :=
  applyKeysetRm_clock m keyset clock

theorem apply_up_clock (m : Map K V A) (dot : Dot A) (key : K) (op : O) (a : A) :
    (m.apply (.up dot key op)).clock.get a =
      if a = dot.actor then max (m.clock.get a) dot.counter else m.clock.get a := by
  by_cases hseen : dot.counter ≤ m.clock.get dot.actor
  · simp only [apply, if_pos hseen]
    split
    next ha => rw [ha]; omega
    · rfl
  · simp only [apply, if_neg hseen, applyDeferred_clock, VClock.get_apply]

theorem merge_clock_get (m other : Map K V A) (a : A) :
    (merge (O := O) m other).clock.get a = max (m.clock.get a) (other.clock.get a) := by
  unfold merge
  simp only [applyDeferred_clock, foldl_applyKeysetRm_clock, VClock.get_merge]

end Clocks

/-! ## What the operations do when no removal is pending. -/

section NoRemovals

variable [Val V O A]

variable {m other : Map K V A}

@[simp] theorem applyDeferred_of_nil (h : m.deferred = []) : applyDeferred (O := O) m = m := by
  obtain ⟨clock, entries, deferred⟩ := m
  subst h
  rfl

theorem apply_seen {dot : Dot A} {key : K} {op : O} (h : dot.counter ≤ m.clock.get dot.actor) :
    m.apply (.up dot key op) = m := by
  simp only [apply, if_pos h]

theorem apply_new (hd : m.deferred = []) {dot : Dot A} {key : K} {op : O}
    (h : m.clock.get dot.actor < dot.counter) :
    m.apply (.up dot key op) =
      { m with
        entries :=
          m.entries.insert key
            ⟨((m.entries[key]?).getD (emptyEntry (O := O))).clock.apply dot,
              Val.apply A ((m.entries[key]?).getD (emptyEntry (O := O))).val op⟩
        clock := m.clock.apply dot } := by
  simp only [apply, if_neg (not_le.mpr h)]
  exact applyDeferred_of_nil hd

theorem apply_up_deferred (hd : m.deferred = []) (dot : Dot A) (key : K) (op : O) :
    (m.apply (.up dot key op)).deferred = [] := by
  by_cases h : dot.counter ≤ m.clock.get dot.actor
  · rw [apply_seen h, hd]
  · rw [apply_new hd (not_le.mp h)]
    exact hd

theorem merge_of_nil (hm : m.deferred = []) (ho : other.deferred = []) : merge (O := O) m other =
      { clock := m.clock.merge other.clock
        entries := other.entries.foldl (takeTheirs (O := O) m.clock other.clock)
          (m.entries.filterMap (keepOurs (O := O) other))
        deferred := [] } := by
  obtain ⟨clock, entries, deferred⟩ := m
  subst hm
  simp only [merge, ho, List.foldl_nil]
  exact applyDeferred_of_nil rfl

theorem merge_clock (hm : m.deferred = []) (ho : other.deferred = []) :
    (merge (O := O) m other).clock = m.clock.merge other.clock := by
  rw [merge_of_nil hm ho]

theorem merge_deferred (hm : m.deferred = []) (ho : other.deferred = []) :
    (merge (O := O) m other).deferred = [] := by
  rw [merge_of_nil hm ho]

end NoRemovals

end Map

end DessPlay.Crdts
