/-
  DessPlay.Files.Scan
  **THE LIBRARY SCAN'S ACCOUNTS** (`queue_walked_files`, `poll_scan_settling`,
  `pump_library_scan` and the handling of `LibraryWalk` and `LibraryHashed` in
  `dessplay/src/actors/file.rs`).

  A walk queues the files that are new or changed and have held still, the others wait
  in `settling`; one file at a time is hashed.  `total` counts the files of the pass,
  `done` those hashed, `failed` and `unsettled` those of them that gave no hash.  A walk
  starts a new pass, but resets `failed` and `unsettled` only if it queues something.
-/
import DessPlay.Files.Roots

namespace DessPlay.Files.Scan

open BTree DessPlay.Core List Option Machine
open Files.Roots (Stamp)

/-! ## §1. Holding still. -/

structure ScanItem where
  path : Path
  stamp : Stamp

inductive ScanHashed where
  | hashed
  /-- it changed meanwhile; its stamp now, if it is still there -/
  | unsettled (stamp : Option Stamp)
  | failed

structure Settling where
  item : ScanItem
  observedAt : Int

/-- `i64::saturating_sub`. -/
def saturatingSub (a b : Int) : Int := max (-2 ^ 63) (min (2 ^ 63 - 1) (a - b))

def stampSettled (now mtime observedAt settle : Int) : Bool :=
  let quietSince := if mtime ≤ now then min mtime observedAt else observedAt
  settle ≤ saturatingSub now quietSince

namespace Settling

def observe (w : Settling) (stamp : Stamp) (now : Int) : Settling :=
  if stamp ≠ w.item.stamp then ⟨{ w.item with stamp := stamp }, now⟩ else w

def settled (w : Settling) (now settle : Int) : Bool :=
  stampSettled now w.item.stamp.mtime w.observedAt settle

end Settling

/-! ## §2. The scan. -/

structure Scanner where
  /-- how long a stamp has to hold still -/
  settle : Int
  worklist : List ScanItem
  settling : BTreeMap Path Settling
  /-- the file being hashed -/
  inFlight : Option ScanItem
  done : Nat
  total : Nat
  failed : Nat
  unsettled : Nat
  /-- how many files each completed pass says it hashed; `none` if the subtraction underflows -/
  summaries : List (Option Nat)

/-- `a - b` on `usize`. -/
def checkedSub (a b : Nat) : Option Nat := if b ≤ a then some (a - b) else none

namespace Scanner

/-- Hash the next file, unless one is being hashed or transfers are `busy`. -/
def pumpLibraryScan (s : Scanner) (busy : Bool) : Scanner :=
  if s.inFlight.isSome then s
  else if !s.worklist.isEmpty && busy then s
  else
    match s.worklist with
    | item :: worklist => { s with worklist := worklist, inFlight := some item }
    | [] => s

/-- What a poll makes of one waiting file. -/
def pollOne (now settle : Int) (disk : Path → Option Stamp)
    (state : BTreeMap Path Settling × List ScanItem) (path : Path) :
    BTreeMap Path Settling × List ScanItem :=
  match disk path, state.1[path]? with
  | none, _ => (state.1.erase path, state.2)
  | some _, none => state
  | some stamp, some waiting =>
    let waiting := waiting.observe stamp now
    if waiting.settled now settle then (state.1.erase path, state.2 ++ [waiting.item])
    else (state.1.insert path waiting, state.2)

/-- Re-stamp the waiting files; queue those that have settled. -/
def pollScanSettling (s : Scanner) (now : Int) (disk : Path → Option Stamp) (busy : Bool) :
    Scanner :=
  let (settling, ready) := s.settling.keys.foldl (pollOne now s.settle disk) (s.settling, [])
  let s := { s with settling := settling }
  if ready.isEmpty then s
  else
    -- A fresh pass, not the tail of one.
    let s := if s.worklist.isEmpty && s.inFlight.isNone then
        { s with done := 0, total := 0, failed := 0, unsettled := 0 }
      else s
    pumpLibraryScan { s with
      total := s.total + ready.length, worklist := s.worklist ++ ready } busy

def queued (s : Scanner) : BTreeMap Path Stamp :=
  s.worklist.foldl (fun queued item => queued.insert item.path item.stamp) ∅

def waiting (s : Scanner) (now : Int) (item : ScanItem) : Settling :=
  ⟨item, ((s.settling[item.path]?).filter fun w => w.item.stamp = item.stamp).elim now
    (·.observedAt)⟩

/-- The file is being hashed; its completion decides. -/
def isInFlight (s : Scanner) (item : ScanItem) : Bool :=
  s.inFlight.any fun hashing => hashing.path = item.path

def isReady (s : Scanner) (now : Int) (item : ScanItem) : Bool :=
  s.queued[item.path]? = some item.stamp || (s.waiting now item).settled now s.settle

/-- What a walk makes of one file; `s` is the scan before the walk. -/
def walkOne (s : Scanner) (now : Int) (state : BTreeMap Path Settling × List ScanItem)
    (item : ScanItem) : BTreeMap Path Settling × List ScanItem :=
  if s.isInFlight item then state
  else if s.isReady now item then (state.1, state.2 ++ [item])
  else (state.1.insert item.path (s.waiting now item), state.2)

def queueWalkedFiles (s : Scanner) (worklist : List ScanItem) (now : Int) : Scanner :=
  let (settling, ready) := worklist.foldl (s.walkOne now) (∅, [])
  { s with
    settling := settling
    worklist := ready
    done := 0
    total := ready.length + s.inFlight.isSome.toNat }

/-- `Done::LibraryWalk`. -/
def onWalk (s : Scanner) (worklist : List ScanItem) (now : Int) (busy : Bool) : Scanner :=
  let s := s.queueWalkedFiles worklist now
  if s.worklist.isEmpty then s
  else pumpLibraryScan { s with failed := 0, unsettled := 0 } busy

def count (s : Scanner) (item : ScanItem) (now : Int) : ScanHashed → Scanner
  | .hashed => s
  | .unsettled none => { s with unsettled := s.unsettled + 1 }
  | .unsettled (some stamp) =>
    let waiting := Settling.observe ⟨item, now⟩ stamp now
    { s with
      unsettled := s.unsettled + 1, settling := s.settling.insert waiting.item.path waiting }
  | .failed => { s with failed := s.failed + 1 }

def complete (s : Scanner) : Scanner :=
  if s.done = s.total then
    { s with
      summaries := s.summaries ++
        [(checkedSub s.done s.failed).bind fun rest => checkedSub rest s.unsettled] }
  else s

def finish (s : Scanner) : Scanner := { s with inFlight := none, done := s.done + 1 }

/-- `Done::LibraryHashed`. -/
def onHashed (s : Scanner) (item : ScanItem) (outcome : ScanHashed) (now : Int) (busy : Bool) :
    Scanner :=
  pumpLibraryScan (s.finish.count item now outcome).complete busy

inductive Event where
  | walk (worklist : List ScanItem) (now : Int) (busy : Bool)
  | hashed (outcome : ScanHashed) (now : Int) (busy : Bool)
  | poll (now : Int) (disk : Path → Option Stamp) (busy : Bool)
  | pump (busy : Bool)

def step (s : Scanner) : Event → Option Scanner
  | .walk worklist now busy => some (s.onWalk worklist now busy)
  | .hashed outcome now busy => s.inFlight.map fun item => s.onHashed item outcome now busy
  | .poll now disk busy => some (s.pollScanSettling now disk busy)
  | .pump busy => some (s.pumpLibraryScan busy)

def start (settle : Int) : Scanner := ⟨settle, [], ∅, none, 0, 0, 0, 0, []⟩

/-- The condition on a step: a walk finds a file to queue, or nothing counted as failed or as
unsettled. -/
def fruitful (s : Scanner) : Event → Bool
  | .walk worklist now _ =>
    s.failed + s.unsettled = 0 ||
      worklist.any fun item => !s.isInFlight item && s.isReady now item
  | _ => true

/-! ## §3. What each part leaves alone. -/

def pending (s : Scanner) : Nat := s.worklist.length + s.inFlight.isSome.toNat

/-- The accounts: every file of the pass is done, queued or being hashed, those without a hash are
among those done, and no summary underflowed. -/
structure Accounted (s : Scanner) : Prop where
  balance : s.done + s.worklist.length + s.inFlight.isSome.toNat = s.total
  bounded : s.failed + s.unsettled ≤ s.done
  summed : ∀ summary ∈ s.summaries, summary.isSome

structure Moves (s s' : Scanner) : Prop where
  pending : s'.pending = s.pending
  done : s'.done = s.done
  total : s'.total = s.total
  failed : s'.failed = s.failed
  unsettled : s'.unsettled = s.unsettled
  summaries : s'.summaries = s.summaries

variable {s s' : Scanner}

theorem moves_pump (s : Scanner) (busy : Bool) : Moves s (s.pumpLibraryScan busy) := by
  unfold pumpLibraryScan
  split
  · exact ⟨rfl, rfl, rfl, rfl, rfl, rfl⟩
  next hidle =>
    split
    · exact ⟨rfl, rfl, rfl, rfl, rfl, rfl⟩
    · split
      next item worklist hlist =>
        refine ⟨?_, rfl, rfl, rfl, rfl, rfl⟩
        have hnone : s.inFlight.isSome = false := by simpa using hidle
        rw [Scanner.pending, Scanner.pending, hlist, hnone]
        rfl
      · exact ⟨rfl, rfl, rfl, rfl, rfl, rfl⟩

theorem Accounted.moves (h : s.Accounted) (hm : Moves s s') : s'.Accounted := by
  have hpending := hm.pending
  have hbalance := h.balance
  have hbounded := h.bounded
  unfold Scanner.pending at hpending
  refine ⟨?_, ?_, ?_⟩
  · rw [hm.done, hm.total]
    omega
  · rw [hm.failed, hm.unsettled, hm.done]
    exact hbounded
  · rw [hm.summaries]
    exact h.summed

theorem Accounted.pump (h : s.Accounted) (busy : Bool) : (s.pumpLibraryScan busy).Accounted :=
  h.moves (moves_pump s busy)

/-! ## §4. Each step keeps the accounts. -/

theorem Accounted.poll (h : s.Accounted) (now : Int) (disk : Path → Option Stamp) (busy : Bool) :
    (s.pollScanSettling now disk busy).Accounted := by
  have hbalance := h.balance
  unfold pollScanSettling
  generalize s.settling.keys.foldl (pollOne now s.settle disk) (s.settling, []) = polled
  obtain ⟨settling, ready⟩ := polled
  dsimp only
  split
  · exact ⟨h.balance, h.bounded, h.summed⟩
  · refine Accounted.pump ?_ busy
    split
    next hfresh =>
      rw [Bool.and_eq_true, List.isEmpty_iff, Option.isNone_iff_eq_none] at hfresh
      refine ⟨?_, le_refl 0, h.summed⟩
      show 0 + (s.worklist ++ ready).length + s.inFlight.isSome.toNat = 0 + ready.length
      rw [hfresh.1, hfresh.2]
      simp
    · refine ⟨?_, h.bounded, h.summed⟩
      show s.done + (s.worklist ++ ready).length + s.inFlight.isSome.toNat = s.total + ready.length
      rw [length_append]
      omega

theorem foldl_walkOne (s : Scanner) (now : Int) (worklist : List ScanItem)
    (settling : BTreeMap Path Settling) (ready : List ScanItem) :
    (worklist.foldl (s.walkOne now) (settling, ready)).2 =
      ready ++ worklist.filter fun item => !s.isInFlight item && s.isReady now item := by
  induction worklist generalizing settling ready with
  | nil => simp
  | cons item worklist ih =>
    rw [foldl_cons, walkOne]
    split
    next hflight => rw [ih, filter_cons_of_neg (by simp [hflight])]
    next hflight =>
      split
      next hready =>
        rw [ih, filter_cons_of_pos (by simp [hflight, hready]), append_assoc]
        rfl
      next hready => rw [ih, filter_cons_of_neg (by simp [hready])]

theorem Accounted.walk (h : s.Accounted) {worklist : List ScanItem} {now : Int} {busy : Bool}
    (hok : s.fruitful (.walk worklist now busy) = true) :
    (s.onWalk worklist now busy).Accounted := by
  have hready := foldl_walkOne s now worklist ∅ []
  unfold onWalk queueWalkedFiles
  generalize worklist.foldl (s.walkOne now) (∅, []) = walked at hready
  obtain ⟨settling, ready⟩ := walked
  dsimp only at hready ⊢
  split
  next hempty =>
    -- Nothing was queued, so nothing may have been counted.
    refine ⟨by dsimp only; omega, ?_, h.summed⟩
    rw [fruitful, Bool.or_eq_true, decide_eq_true_eq] at hok
    rcases hok with hzero | hany
    · exact le_of_eq hzero
    · obtain ⟨item, hitem, hgood⟩ := any_eq_true.mp hany
      have hmem : item ∈ ready := by
        rw [hready, nil_append]
        exact mem_filter.mpr ⟨hitem, hgood⟩
      rw [isEmpty_iff.mp hempty] at hmem
      exact absurd hmem not_mem_nil
  · apply Accounted.pump
    refine ⟨?_, le_refl 0, h.summed⟩
    dsimp only
    omega

theorem count_spec (s : Scanner) (item : ScanItem) (now : Int) (outcome : ScanHashed) :
    (s.count item now outcome).failed + (s.count item now outcome).unsettled ≤
        s.failed + s.unsettled + 1 ∧
      (s.count item now outcome).done = s.done ∧ (s.count item now outcome).total = s.total ∧
      (s.count item now outcome).worklist = s.worklist ∧
      (s.count item now outcome).inFlight = s.inFlight ∧
      (s.count item now outcome).summaries = s.summaries := by
  cases outcome with
  | hashed => exact ⟨Nat.le_succ _, rfl, rfl, rfl, rfl, rfl⟩
  | unsettled stamp =>
    cases stamp with
    | none => exact ⟨Nat.le_refl _, rfl, rfl, rfl, rfl, rfl⟩
    | some stamp => exact ⟨Nat.le_refl _, rfl, rfl, rfl, rfl, rfl⟩
  | failed =>
    refine ⟨?_, rfl, rfl, rfl, rfl, rfl⟩
    show s.failed + 1 + s.unsettled ≤ _
    omega

theorem Accounted.complete (h : s.Accounted) : s.complete.Accounted := by
  have hbounded := h.bounded
  unfold Scanner.complete
  split
  · refine ⟨h.balance, h.bounded, fun summary hsummary => ?_⟩
    rcases mem_append.mp hsummary with hsummary | hsummary
    · exact h.summed summary hsummary
    · rw [mem_singleton.mp hsummary, checkedSub, if_pos (by omega), bind_some,
        checkedSub, if_pos (by omega)]
      rfl
  · exact h

theorem Accounted.hashed (h : s.Accounted) {item : ScanItem} (hitem : s.inFlight = some item)
    (outcome : ScanHashed) (now : Int) (busy : Bool) :
    (s.onHashed item outcome now busy).Accounted := by
  have hbalance := h.balance
  have hbounded := h.bounded
  rw [hitem] at hbalance
  obtain ⟨hcount, hdone, htotal, hlist, hflight, hsums⟩ :=
    count_spec s.finish item now outcome
  refine Accounted.pump (Accounted.complete ⟨?_, ?_, ?_⟩) busy
  · rw [hdone, htotal, hlist, hflight]
    show s.done + 1 + s.worklist.length + 0 = s.total
    rw [isSome_some, Bool.toNat_true] at hbalance
    omega
  · rw [hdone]
    exact Nat.le_trans hcount (Nat.succ_le_succ hbounded)
  · rw [hsums]
    exact h.summed

/-- **One step.** -/
theorem Accounted.step (h : s.Accounted) {event : Event} (hok : s.fruitful event = true)
    (hs : s.step event = some s') : s'.Accounted := by
  cases event with
  | walk worklist now busy =>
    cases hs
    exact h.walk hok
  | hashed outcome now busy =>
    obtain ⟨item, hitem, rfl⟩ := map_eq_some_iff.mp hs
    exact h.hashed hitem outcome now busy
  | poll now disk busy =>
    cases hs
    exact h.poll now disk busy
  | pump busy =>
    cases hs
    exact h.pump busy

/-! ## §5. When completion is reported. -/

theorem pending_eq_zero : s.pending = 0 ↔ s.worklist = [] ∧ s.inFlight = none := by
  unfold Scanner.pending
  rw [Nat.add_eq_zero_iff, length_eq_zero_iff]
  cases s.inFlight <;> simp

theorem complete_pending (s : Scanner) : s.complete.pending = s.pending := by
  unfold Scanner.complete
  split <;> rfl

theorem complete_summaries (s : Scanner) :
    s.complete.summaries ≠ s.summaries ↔ s.done = s.total := by
  unfold Scanner.complete
  split
  next heq => simp [heq]
  next hne => simp [hne]

theorem Accounted.completes_iff (h : s.Accounted) {outcome : ScanHashed} {now : Int} {busy : Bool}
    (hs : s.step (.hashed outcome now busy) = some s') :
    s'.summaries ≠ s.summaries ↔ s'.worklist = [] ∧ s'.inFlight = none := by
  obtain ⟨item, hitem, rfl⟩ := map_eq_some_iff.mp hs
  have hbalance := h.balance
  rw [hitem, isSome_some, Bool.toNat_true] at hbalance
  obtain ⟨_, hdone, htotal, hlist, hflight, hsums⟩ := count_spec s.finish item now outcome
  have hmoves := moves_pump (s.finish.count item now outcome).complete busy
  have hsame : s.summaries = (s.finish.count item now outcome).summaries := hsums.symm
  rw [← pending_eq_zero, onHashed, hmoves.summaries, hmoves.pending, complete_pending, hsame,
    complete_summaries, hdone, htotal, Scanner.pending, hlist, hflight]
  show s.done + 1 = s.total ↔ s.worklist.length + 0 = 0
  omega

/-! ## §6. Every run. -/

/-- **The scan's accounts**, in every run whose walks find a file to queue or nothing counted as
failed or unsettled. -/
theorem scan_accounts (settle : Int)
    (hs : Reach step (fun s event => s.fruitful event = true) (start settle) s) :
    s.Accounted ∧ ∀ outcome now busy s', s.step (.hashed outcome now busy) = some s' →
      (s'.summaries ≠ s.summaries ↔ s'.worklist = [] ∧ s'.inFlight = none) := by
  have hacc : s.Accounted := hs.invariant
    ⟨rfl, le_refl 0, nofun⟩
    fun _ _ _ h hok hstep => h.step hok hstep
  exact ⟨hacc, fun _ _ _ _ hstep => hacc.completes_iff hstep⟩

def oldFile (name : Char) : ScanItem := ⟨[[name]], ⟨0, 1⟩⟩

def rewalked : List Event :=
  [.walk [oldFile 'a', oldFile 'b', oldFile 'c'] 5000 false, .hashed .failed 5000 false,
   .hashed .failed 5000 false, .walk [oldFile 'a', oldFile 'c'] 6000 true,
   .hashed .hashed 7000 true, .pump false, .hashed (.unsettled none) 8000 false]

theorem scan_accounts_rewalked :
    ∃ s, runWith step fruitful (start 1000) rewalked = some s ∧
      s.summaries = [some 1] ∧ s.Accounted := by
  have hsums : (runWith step fruitful (start 1000) rewalked).map (·.summaries) =
      some [some 1] := by decide +kernel
  obtain ⟨s, hrun, hs⟩ := map_eq_some_iff.mp hsums
  exact ⟨s, hrun, hs, (scan_accounts 1000 (reach_of_runWith _ (fun _ _ h => h) hrun)).1⟩

def emptied : List Event :=
  [.walk [oldFile 'a', oldFile 'b', oldFile 'c'] 5000 false, .hashed .failed 5000 false,
   .hashed .failed 5000 false, .walk [] 6000 false, .hashed .hashed 7000 false]

theorem empty_walk_underflows :
    ∃ s, run step (start 1000) emptied = some s ∧
      s.done = 1 ∧ s.failed = 2 ∧ s.summaries = [none] := by
  have hsums : (run step (start 1000) emptied).map
      (fun s => (s.done, s.failed, s.summaries)) = some (1, 2, [none]) := by decide +kernel
  obtain ⟨s, hrun, hs⟩ := map_eq_some_iff.mp hsums
  obtain ⟨hdone, hrest⟩ := Prod.mk.inj hs
  exact ⟨s, hrun, hdone, (Prod.mk.inj hrest).1, (Prod.mk.inj hrest).2⟩

end Scanner

end DessPlay.Files.Scan
