/-
  DessPlay.Sync.LegacyState
  **THE STATE MOVES TO A DATABASE OF ITS OWN** (`SyncStorage::open` and
  `adopt_legacy_state` in `dessplay/src/sync_storage.rs`).

  A start opens the sync database, copies the rows of the main database's
  `crdt_state` table into it if it has none, and drops that table once the rows are
  known to be there.  The copy is one transaction; the process may stop between any two
  statements.  The sync database is either empty or holds all that was moved (`Moved`).
-/
import DessPlay.Lib.BTree
import DessPlay.Lib.Machine

namespace DessPlay.Sync.LegacyState

open BTree Option Machine
open Std (ExtTreeMap)

/-! ## §1. The two databases and a start. -/

/-- A row of `crdt_state` but for its room. -/
structure SavedState where
  epoch : Int
  state : List UInt8
  savedAt : Int
  deriving DecidableEq

abbrev StateTable : Type := BTreeMap String SavedState

def defaultRoom : String := "default"

structure Databases where
  /-- the `crdt_state` table of the main database, if there is such a database with such a table -/
  legacy : Option StateTable
  /-- that of the sync database, which the first start creates -/
  sync : Option StateTable

def Databases.states (db : Databases) : StateTable := db.sync.getD ∅

inductive Phase where
  | down
  | opened
  | migrated
  | legacyFound
  /-- in the transaction: its table and the rows still to be inserted -/
  | copying (tx : StateTable) (rows : List (String × SavedState))
  | copied
  | counted (here : Nat)
  | dropping
  | running

structure Client where
  db : Databases
  phase : Phase
  /-- every state saved since the first start -/
  saves : List SavedState
  /-- some start has completed -/
  completed : Bool

inductive Event where
  | start
  /-- the next statement or commit -/
  | next
  /-- a crash, an error or an exit; a transaction under way is rolled back -/
  | stop
  | save (state : SavedState)

namespace Client

/-- `SyncStorage::open`, a statement at a time. -/
def advance (c : Client) : Option Client :=
  match c.phase with
  | .opened => some { c with db := { c.db with sync := some c.db.states }, phase := .migrated }
  | .migrated =>
    if c.db.legacy.isSome then some { c with phase := .legacyFound }
    else some { c with phase := .running, completed := true }
  | .legacyFound =>
    if c.db.states.size = 0 then
      some { c with phase := .copying c.db.states (c.db.legacy.getD ∅).toList }
    else some { c with phase := .copied }
  | .copying tx ((room, state) :: rows) =>
    -- The room is the primary key.
    if tx[room]?.isSome then some { c with phase := .down }
    else some { c with phase := .copying (tx.insert room state) rows }
  | .copying tx [] => some { c with db := { c.db with sync := some tx }, phase := .copied }
  | .copied => some { c with phase := .counted c.db.states.size }
  | .counted here =>
    if 0 < here ∨ (c.db.legacy.getD ∅).size = 0 then some { c with phase := .dropping }
    else some { c with phase := .running, completed := true }
  | .dropping =>
    some { c with db := { c.db with legacy := none }, phase := .running, completed := true }
  | .down | .running => none

def step (c : Client) : Event → Option Client
  | .start => match c.phase with
      | .down => some { c with phase := .opened }
      | _ => none
  | .next => c.advance
  | .stop => match c.phase with
      | .down => none
      | _ => some { c with phase := .down }
  | .save state => match c.phase with
      | .running => some { c with
          db := { c.db with sync := some (c.db.states.insert defaultRoom state) }
          saves := c.saves ++ [state] }
      | _ => none

def initial (db : Databases) : Client := ⟨db, .down, [], false⟩

/-! ## §2. What was moved. -/

/-- Every room of the legacy table has its state, or one saved later, in the sync database; unless
that held states before the first start. -/
def Moved (db₀ : Databases) (c : Client) : Prop :=
  db₀.states ≠ ∅ ∨ ∀ (room : String) (state : SavedState),
    (db₀.legacy.getD ∅)[room]? = some state →
    ∃ state', c.db.states[room]? = some state' ∧
      (state' = state ∨ room = defaultRoom ∧ state' ∈ c.saves)

def Spares (c c' : Client) (event : Event) : Prop :=
  ∀ (room : String) (state : SavedState), c.db.states[room]? = some state →
    c'.db.states[room]? = some state ∨
    ∃ saved, event = .save saved ∧ room = defaultRoom ∧ c'.db.states[room]? = some saved

def Moving (db₀ : Databases) (c : Client) : Prop :=
  c.db.sync.isSome ∧ c.completed = false ∧ c.db.legacy = db₀.legacy

def Knows (db₀ : Databases) (c : Client) : Phase → Prop
  | .down | .opened => True
  | .migrated => c.db.sync.isSome
  | .running => c.db.sync.isSome ∧ c.db.legacy = none
  | .legacyFound => Moving db₀ c
  | .copying tx rows => Moving db₀ c ∧ c.db.states = ∅ ∧
      ∀ (room : String) (state : SavedState), (db₀.legacy.getD ∅)[room]? = some state →
        tx[room]? = some state ∨ (room, state) ∈ rows
  | .copied | .dropping => Moving db₀ c ∧ Moved db₀ c
  | .counted here => Moving db₀ c ∧ Moved db₀ c ∧ here = c.db.states.size

structure Kept (db₀ : Databases) (c : Client) : Prop where
  legacy : c.db.legacy = none ∨ c.db.legacy = db₀.legacy
  moved : c.db.legacy = none → Moved db₀ c
  empty : c.db.states = ∅ ∨ Moved db₀ c
  held : db₀.states ≠ ∅ → c.db.states ≠ ∅
  knows : c.Knows db₀ c.phase
  settled : c.completed = true → c.db.sync.isSome ∧ c.db.legacy = none

variable {db₀ : Databases} {c c' : Client}

theorem size_eq_zero {table : StateTable} : table.size = 0 ↔ table = ∅ := by
  constructor
  · intro h
    exact ExtTreeMap.isEmpty_iff.mp (by rw [ExtTreeMap.isEmpty_eq_size_beq_zero, h]; rfl)
  · rintro rfl
    exact ExtTreeMap.size_empty

theorem kept_initial (db : Databases) : Kept db (initial db) where
  legacy := .inr rfl
  moved h := .inr fun room state hroom => by
    rw [show db.legacy = none from h] at hroom
    exact absurd hroom (by rw [getD_none, ExtTreeMap.getElem?_empty]; nofun)
  empty := by
    by_cases h : db.states = ∅
    · exact .inl h
    · exact .inr (.inl h)
  held h := h
  knows := trivial
  settled h := by cases h

/-! ## §3. One statement. -/

theorem Kept.reads (h : Kept db₀ c) {phase : Phase} (hknows : c.Knows db₀ phase) :
    Kept db₀ { c with phase := phase } := by
  refine { h with knows := ?_ }
  cases phase <;> exact hknows

theorem Kept.completes (h : Kept db₀ c) (hsync : c.db.sync.isSome) (hgone : c.db.legacy = none) :
    Kept db₀ { c with phase := .running, completed := true } :=
  { h with knows := ⟨hsync, hgone⟩, settled := fun _ => ⟨hsync, hgone⟩ }

theorem Kept.migrates (h : Kept db₀ c) :
    Kept db₀ { c with db := { c.db with sync := some c.db.states }, phase := .migrated } where
  __ := h
  knows := rfl
  settled hdone := ⟨rfl, (h.settled hdone).2⟩

theorem Kept.commits (h : Kept db₀ c) {tx : StateTable} (hknows : c.Knows db₀ (.copying tx [])) :
    Kept db₀ { c with db := { c.db with sync := some tx }, phase := .copied } := by
  obtain ⟨hmoving, hempty, hrows⟩ := hknows
  have hmoved : Moved db₀ { c with db := { c.db with sync := some tx }, phase := .copied } := by
    refine .inr fun room state hroom => ⟨state, ?_, .inl rfl⟩
    exact (hrows room state hroom).resolve_right List.not_mem_nil
  refine ⟨h.legacy, fun _ => hmoved, .inr hmoved, fun hne => absurd hempty (h.held hne), ?_,
    fun hdone => ?_⟩
  · exact ⟨⟨rfl, hmoving.2⟩, hmoved⟩
  · exact absurd (hmoving.2.1.symm.trans hdone) nofun

theorem legacy_empty (h : Kept db₀ c) (hknows : c.Knows db₀ (.counted 0)) :
    (c.db.legacy.getD ∅).size = 0 := by
  obtain ⟨hmoving, hmoved, hhere⟩ := hknows
  have hstates : c.db.states = ∅ := size_eq_zero.mp hhere.symm
  rw [size_eq_zero, hmoving.2.2]
  rcases hmoved with hheld | hrooms
  · exact absurd hstates (h.held hheld)
  · refine map_ext fun room => ?_
    rw [ExtTreeMap.getElem?_empty]
    by_contra hsome
    obtain ⟨state, hstate⟩ := ne_none_iff_exists'.mp hsome
    obtain ⟨state', hstate', _⟩ := hrooms room state hstate
    rw [hstates, ExtTreeMap.getElem?_empty] at hstate'
    cases hstate'

/-- **One statement** of a start. -/
theorem Kept.advance (h : Kept db₀ c) (hs : c.advance = some c') : Kept db₀ c' := by
  have hknows := h.knows
  unfold Client.advance at hs
  cases hphase : c.phase with
  | down => simp only [hphase] at hs; cases hs
  | running => simp only [hphase] at hs; cases hs
  | opened =>
    simp only [hphase] at hs
    cases hs
    exact h.migrates
  | migrated =>
    simp only [hphase] at hs hknows
    split at hs
    next hthere =>
      cases hs
      have hfirst : c.completed = false := by
        by_contra hdone
        rw [(h.settled (by simpa using hdone)).2] at hthere
        cases hthere
      refine h.reads ⟨hknows, hfirst, h.legacy.resolve_left fun hnone => ?_⟩
      rw [hnone] at hthere
      cases hthere
    next hgone =>
      cases hs
      exact h.completes hknows (by simpa using hgone)
  | legacyFound =>
    simp only [hphase] at hs hknows
    split at hs
    next hnone =>
      cases hs
      refine h.reads ⟨hknows, size_eq_zero.mp hnone, fun room state hroom => .inr ?_⟩
      rw [hknows.2.2]
      exact (mem_entries _ (room, state)).mpr hroom
    next hsome =>
      cases hs
      refine h.reads ⟨hknows, h.empty.resolve_left fun hempty => hsome ?_⟩
      exact size_eq_zero.mpr hempty
  | copying tx rows =>
    rw [hphase] at hknows
    cases rows with
    | nil =>
      simp only [hphase] at hs
      cases hs
      exact h.commits hknows
    | cons row rows =>
      obtain ⟨room, state⟩ := row
      simp only [hphase] at hs
      split at hs
      · cases hs
        exact h.reads trivial
      next hfree =>
        cases hs
        obtain ⟨hmoving, hempty, hrows⟩ := hknows
        refine h.reads ⟨hmoving, hempty, fun room' state' hroom' => ?_⟩
        rw [getElem?_insert]
        rcases hrows room' state' hroom' with htx | hmem
        · left
          rw [if_neg, htx]
          rintro rfl
          rw [htx] at hfree
          exact hfree rfl
        · rcases List.mem_cons.mp hmem with heq | hmem
          · cases heq
            exact .inl (if_pos rfl)
          · exact .inr hmem
  | copied =>
    simp only [hphase] at hs hknows
    cases hs
    exact h.reads ⟨hknows.1, hknows.2, rfl⟩
  | counted here =>
    simp only [hphase] at hs
    rw [hphase] at hknows
    split at hs
    · cases hs
      exact h.reads ⟨hknows.1, hknows.2.1⟩
    next hleft =>
      obtain rfl : here = 0 := by omega
      exact absurd (.inr (legacy_empty h hknows)) hleft
  | dropping =>
    simp only [hphase] at hs hknows
    cases hs
    obtain ⟨⟨hsync, _⟩, hmoved⟩ := hknows
    exact ⟨.inl rfl, fun _ => hmoved, .inr hmoved, h.held, ⟨hsync, rfl⟩, fun _ => ⟨hsync, rfl⟩⟩

theorem Moved.save (h : Moved db₀ c) (state : SavedState) :
    Moved db₀ { c with
      db := { c.db with sync := some (c.db.states.insert defaultRoom state) }
      saves := c.saves ++ [state] } := by
  rcases h with hheld | hrooms
  · exact .inl hheld
  · refine .inr fun room old hroom => ?_
    show ∃ state', (c.db.states.insert defaultRoom state)[room]? = some state' ∧ _
    rw [getElem?_insert]
    split
    next heq => exact ⟨state, rfl, .inr ⟨heq, by simp⟩⟩
    · obtain ⟨state', hstate', hfrom⟩ := hrooms room old hroom
      exact ⟨state', hstate', hfrom.imp id fun hsaved =>
        ⟨hsaved.1, List.mem_append_left _ hsaved.2⟩⟩

theorem Kept.save (h : Kept db₀ c) (hphase : c.phase = .running) (state : SavedState) :
    Kept db₀ { c with
      db := { c.db with sync := some (c.db.states.insert defaultRoom state) }
      saves := c.saves ++ [state] } := by
  have hknows := h.knows
  rw [hphase] at hknows
  have hmoved := (h.moved hknows.2).save state
  refine ⟨h.legacy, fun _ => hmoved, .inr hmoved, fun _ hnone => ?_, ?_, fun hdone =>
    ⟨rfl, (h.settled hdone).2⟩⟩
  · have hthere : (c.db.states.insert defaultRoom state)[defaultRoom]? = some state := by
      rw [getElem?_insert, if_pos rfl]
    rw [show c.db.states.insert defaultRoom state = ∅ from hnone,
      ExtTreeMap.getElem?_empty] at hthere
    cases hthere
  · rw [show Client.phase _ = .running from hphase]
    exact ⟨rfl, hknows.2⟩

/-! ## §4. Every run. -/

variable {event : Event}

/-- **One step** of any kind. -/
theorem Kept.step (h : Kept db₀ c) (hs : c.step event = some c') : Kept db₀ c' := by
  cases event with
  | start =>
    simp only [Client.step] at hs
    split at hs
    · cases hs
      exact h.reads trivial
    · cases hs
  | next => exact h.advance hs
  | stop =>
    simp only [Client.step] at hs
    split at hs
    · cases hs
    · cases hs
      exact h.reads trivial
  | save state =>
    simp only [Client.step] at hs
    split at hs
    next hphase =>
      cases hs
      exact h.save hphase state
    · cases hs

theorem advance_db (hs : c.advance = some c') :
    c'.db = c.db ∨ c.phase = .opened ∧ c'.db = { c.db with sync := some c.db.states } ∨
      (∃ tx, c.phase = .copying tx [] ∧ c'.db = { c.db with sync := some tx }) ∨
      c.phase = .dropping ∧ c'.db = { c.db with legacy := none } := by
  unfold Client.advance at hs
  split at hs
  next hphase =>
    cases hs
    exact .inr (.inl ⟨hphase, rfl⟩)
  · split at hs
    all_goals
      cases hs
      exact .inl rfl
  · split at hs
    all_goals
      cases hs
      exact .inl rfl
  · split at hs
    all_goals
      cases hs
      exact .inl rfl
  next tx hphase =>
    cases hs
    exact .inr (.inr (.inl ⟨tx, hphase, rfl⟩))
  · cases hs
    exact .inl rfl
  · split at hs
    all_goals
      cases hs
      exact .inl rfl
  next hphase =>
    cases hs
    exact .inr (.inr (.inr ⟨hphase, rfl⟩))
  · cases hs
  · cases hs

theorem step_db (hs : c.step event = some c') :
    event = .next ∧ c.advance = some c' ∨ c'.db = c.db ∨
      ∃ state, event = .save state ∧
        c'.db = { c.db with sync := some (c.db.states.insert defaultRoom state) } := by
  cases event with
  | next => exact .inl ⟨rfl, hs⟩
  | start =>
    simp only [Client.step] at hs
    split at hs
    · cases hs
      exact .inr (.inl rfl)
    · cases hs
  | stop =>
    simp only [Client.step] at hs
    split at hs
    · cases hs
    · cases hs
      exact .inr (.inl rfl)
  | save state =>
    simp only [Client.step] at hs
    split at hs
    · cases hs
      exact .inr (.inr ⟨state, rfl, rfl⟩)
    · cases hs

theorem spares_of_eq (event : Event) (h : c'.db.states = c.db.states) : Spares c c' event :=
  fun _ _ hstate => .inl (h ▸ hstate)

theorem Kept.spares (h : Kept db₀ c) (hs : c.step event = some c') : Spares c c' event := by
  have hknows := h.knows
  rcases step_db hs with ⟨_, hadvance⟩ | hsame | ⟨saved, rfl, hdb⟩
  · rcases advance_db hadvance with hdb | ⟨_, hdb⟩ | ⟨tx, hphase, _⟩ | ⟨_, hdb⟩
    · exact spares_of_eq event (by rw [hdb])
    · exact spares_of_eq event (by rw [hdb]; rfl)
    · -- The commit: there was nothing before.
      rw [hphase] at hknows
      intro room state hstate
      rw [hknows.2.1, ExtTreeMap.getElem?_empty] at hstate
      cases hstate
    · exact spares_of_eq event (by rw [hdb]; rfl)
  · exact spares_of_eq event (by rw [hsame])
  · intro room state hstate
    have hstates : c'.db.states = c.db.states.insert defaultRoom saved := by rw [hdb]; rfl
    rw [hstates, getElem?_insert]
    split
    next heq => exact .inr ⟨saved, rfl, heq, rfl⟩
    · exact .inl hstate

theorem Kept.changes_nothing (h : Kept db₀ c) (hdone : c.completed = true)
    (hs : c.step event = some c') : c'.db = c.db ∨ ∃ state, event = .save state := by
  have hknows := h.knows
  obtain ⟨hsync, _⟩ := h.settled hdone
  rcases step_db hs with ⟨_, hadvance⟩ | hsame | ⟨saved, hevent, _⟩
  · left
    rcases advance_db hadvance with hdb | ⟨_, hdb⟩ | ⟨tx, hphase, _⟩ | ⟨hphase, _⟩
    · exact hdb
    · obtain ⟨table, htable⟩ := isSome_iff_exists.mp hsync
      rw [hdb, Databases.states, htable, getD_some, ← htable]
    · rw [hphase] at hknows
      exact absurd (hknows.1.2.1.symm.trans hdone) nofun
    · rw [hphase] at hknows
      exact absurd (hknows.1.2.1.symm.trans hdone) nofun
  · exact .inl hsame
  · exact .inr ⟨saved, hevent⟩

/-- **The move loses nothing**, wherever the starts before this state were stopped. -/
theorem legacy_state_survives (db : Databases) (hc : Reach step anyStep (initial db) c) :
    (c.db.legacy = none → Moved db c) ∧
    (∀ event c', c.step event = some c' → Spares c c' event) ∧
    (c.completed = true → ∀ event c', c.step event = some c' →
      c'.db = c.db ∨ ∃ state, event = .save state) := by
  have hkept : Kept db c := hc.invariant (kept_initial db) fun _ _ _ h _ hstep => h.step hstep
  exact ⟨hkept.moved, fun _ _ hs => hkept.spares hs, fun hdone _ _ hs =>
    hkept.changes_nothing hdone hs⟩

def twoRooms : Databases where
  legacy := some ((∅ : StateTable).insert "default" ⟨3, [1], 10⟩ |>.insert "den" ⟨2, [2], 5⟩)
  sync := none

/-- The first start stops inside the transaction, the second after the commit, the third completes
and saves. -/
def interrupted : List Event :=
  [.start, .next, .next, .next, .next, .stop,
   .start, .next, .next, .next, .next, .next, .next, .stop,
   .start, .next, .next, .next, .next, .next, .next, .save ⟨4, [3], 20⟩]

theorem legacy_state_survives_interrupted :
    ∃ c, run step (initial twoRooms) interrupted = some c ∧ c.db.legacy.isNone ∧
      c.db.states["default"]? = some ⟨4, [3], 20⟩ ∧ c.db.states["den"]? = some ⟨2, [2], 5⟩ ∧
      Moved twoRooms c := by
  have hend : (run step (initial twoRooms) interrupted).map (fun c =>
      (c.db.legacy.isNone, c.db.states["default"]?, c.db.states["den"]?)) =
      some (true, some ⟨4, [3], 20⟩, some ⟨2, [2], 5⟩) := by decide +kernel
  obtain ⟨c, hrun, hc⟩ := map_eq_some_iff.mp hend
  obtain ⟨hgone, hrest⟩ := Prod.mk.inj hc
  obtain ⟨hdefault, hden⟩ := Prod.mk.inj hrest
  have hmoved := (legacy_state_survives twoRooms (reach_of_run _ hrun)).1
  exact ⟨c, hrun, hgone, hdefault, hden, hmoved (isNone_iff_eq_none.mp hgone)⟩

end Client

end DessPlay.Sync.LegacyState
