/-
  DessPlay.Anidb.Relations
  **THE WALK OVER RELATED SERIES** (`dessplay-rendezvous/src/anidb/worker.rs` and the
  `anime_queue` of `dessplay-rendezvous/src/storage.rs`).

  The queue is durable statement by statement; what a lookup finds is written to the
  replicated state, which a crash throws back to an earlier snapshot.  A start re-arms
  the settled rows whose relations are not in the state, and every pass queues what
  file metadata and the List name.  Related series are queued only while the hit that
  names them is recorded (`walking`).
-/
import DessPlay.Core.SeriesIdentity
import DessPlay.Lib.Machine

namespace DessPlay.Anidb.Relations

open BTree DessPlay.Core Option Machine
open List hiding getElem?_insert insert isEmpty_iff mem_map
open Std (ExtTreeMap)

/-! ## §1. The queue. -/

/-- A row of `anime_queue` but for its series. -/
structure AnimeRow where
  firstSeen : Int
  lastAttempt : Option Int
  nextAttempt : Int
  attempts : Nat
  deriving DecidableEq

abbrev AnimeQueue : Type := BTreeMap AniDbSeriesId AnimeRow

/-- `i64::MAX`, the next attempt of a settled row. -/
def NEVER : Int := 2 ^ 63 - 1

def ANIME_TIMEOUT_RETRY_MILLIS : Int := 5000

/-- `INSERT OR IGNORE`. -/
def enqueueAnime (queue : AnimeQueue) (series : AniDbSeriesId) (now : Int) : AnimeQueue :=
  match queue[series]? with
  | some _ => queue
  | none => queue.insert series ⟨now, none, now, 0⟩

def recordAnimeAttempt (queue : AnimeQueue) (series : AniDbSeriesId)
    (attemptedAt nextAttempt : Int) : AnimeQueue :=
  match queue[series]? with
  | some row => queue.insert series { row with
      lastAttempt := some attemptedAt, nextAttempt := nextAttempt, attempts := row.attempts + 1 }
  | none => queue

/-- One `UPDATE` of `rearm_settled_anime_without_relations`. -/
def rearm (queue : AnimeQueue) (series : AniDbSeriesId) (now : Int) : AnimeQueue :=
  match queue[series]? with
  | some row => queue.insert series { row with nextAttempt := now }
  | none => queue

def orphaned (queue : AnimeQueue) (view : StateView) : List AniDbSeriesId :=
  (queue.toList.filter fun entry =>
    entry.2.nextAttempt = NEVER && view.relations[entry.1]?.isNone).map (·.1)

def isDue (queue : AnimeQueue) (now : Int) (series : AniDbSeriesId) : Bool :=
  (queue[series]?).any fun row => row.nextAttempt ≤ now &&
    queue.toList.all fun entry => now < entry.2.nextAttempt ||
      row.nextAttempt < entry.2.nextAttempt ||
      row.nextAttempt = entry.2.nextAttempt && series ≤ entry.1

/-! ## §2. The worker. -/

def referenced (view : StateView) : List AniDbSeriesId :=
  (view.metadata.toList.filterMap fun entry => entry.2.bind (·.seriesId)) ++
    view.entries.toList.filterMap fun entry => entry.2.anidbSeriesId

def wantedSeries (view : StateView) : List AniDbSeriesId :=
  (referenced view).filter fun series => view.relations[series]?.isNone

inductive Answer where
  | found (relations : SeriesRelations)
  | nonexistent
  | timeout
  /-- a backoff, or an error that stops the worker -/
  | failed

inductive Phase where
  | down
  | starting
  /-- re-arming the settled rows without relations -/
  | rearming (now : Int) (rest : List AniDbSeriesId)
  /-- between passes -/
  | idle
  /-- queueing what the view of the pass refers to -/
  | seeding (now : Int) (refs rest : List AniDbSeriesId)
  | seeded (now : Int)
  | asking (now : Int) (series : AniDbSeriesId)
  /-- the relations are written; the attempt and the targets are still to be recorded -/
  | found (now : Int) (series : AniDbSeriesId) (rest : List AniDbSeriesId)
  /-- the attempt is recorded; these targets are still to be queued -/
  | walking (now : Int) (rest : List AniDbSeriesId)
  deriving DecidableEq

def Phase.unqueued : Phase → List AniDbSeriesId
  | .found _ _ rest | .walking _ rest => rest
  | _ => []

structure World where
  queue : AnimeQueue
  /-- every state saved so far -/
  snapshots : List StateView
  view : StateView
  phase : Phase
  /-- every series answered as non-existent -/
  missing : List AniDbSeriesId
  /-- what the view of this process's latest pass referred to -/
  seen : List AniDbSeriesId
  /-- a snapshot was saved since the latest relations were written -/
  exposed : Bool

inductive Event where
  /-- the server starts from one of the snapshots -/
  | start (index : Nat)
  | crash
  | save
  /-- anything else that changes the state; it leaves the series' relations alone -/
  | edit (view : StateView)
  | reconcile (now : Int)
  /-- the next statement of the loop under way -/
  | next
  /-- a pass begins -/
  | pass (now : Int)
  /-- the pass ends without an ANIME lookup -/
  | skip
  | ask (series : AniDbSeriesId)
  | answer (answer : Answer)

def links (view : StateView) : List (AniDbSeriesId × List SeriesRelation) :=
  view.relations.toList.map fun entry => (entry.1, entry.2.relations.toList)

def targets (row : SeriesRelations) : List AniDbSeriesId := row.relations.toList.map (·.target)

namespace World

def writeRelations (w : World) (now : Int) (series : AniDbSeriesId) (row : SeriesRelations) :
    World :=
  let view := { w.view with seriesRelations := w.view.relations.insert series row }
  { w with
    view := view
    phase := .found now series ((targets row).filter fun target => view.relations[target]?.isNone)
    exposed := false }

def onAnswer (w : World) (now : Int) (series : AniDbSeriesId) : Answer → World
  | .found row => w.writeRelations now series row
  | .nonexistent => { w with
      queue := recordAnimeAttempt w.queue series now NEVER
      phase := .idle
      missing := series :: w.missing }
  | .timeout => { w with
      queue := recordAnimeAttempt w.queue series now (now + ANIME_TIMEOUT_RETRY_MILLIS)
      phase := .idle }
  | .failed => { w with phase := .idle }

def advance (w : World) : Option World :=
  match w.phase with
  | .rearming now (series :: rest) => some { w with
      queue := rearm w.queue series now, phase := .rearming now rest }
  | .rearming _ [] => some { w with phase := .idle }
  | .seeding now refs (series :: rest) => some { w with
      queue := enqueueAnime w.queue series now, phase := .seeding now refs rest }
  | .seeding now refs [] => some { w with phase := .seeded now, seen := refs }
  | .found now series rest => some { w with
      queue := recordAnimeAttempt w.queue series now NEVER, phase := .walking now rest }
  | .walking now (target :: rest) => some { w with
      queue := enqueueAnime w.queue target now, phase := .walking now rest }
  | .walking _ [] => some { w with phase := .idle }
  | _ => none

def step (w : World) : Event → Option World
  | .start index => match w.phase, w.snapshots[index]? with
      | .down, some view => some { w with view := view, phase := .starting, seen := [] }
      | _, _ => none
  | .crash => match w.phase with
      | .down => none
      | _ => some { w with phase := .down }
  | .save => match w.phase with
      | .down => none
      | _ => some { w with snapshots := w.snapshots ++ [w.view], exposed := true }
  | .edit view => match w.phase with
      | .down => none
      | _ => if links view = links w.view then some { w with view := view } else none
  | .reconcile now => match w.phase with
      | .starting => some { w with phase := .rearming now (orphaned w.queue w.view) }
      | _ => none
  | .next => w.advance
  | .pass now => match w.phase with
      | .idle => some { w with
          phase := .seeding now (referenced w.view) (wantedSeries w.view) }
      | _ => none
  | .skip => match w.phase with
      | .seeded _ => some { w with phase := .idle }
      | _ => none
  | .ask series => match w.phase with
      | .seeded now => if isDue w.queue now series then some { w with phase := .asking now series }
          else none
      | _ => none
  | .answer answer => match w.phase with
      | .asking now series => some (w.onAnswer now series answer)
      | _ => none

/-! ## §3. What is asked for. -/

def Covered (w : World) (series : AniDbSeriesId) : Prop :=
  w.view.relations[series]?.isSome ∨
    (∃ row, w.queue[series]? = some row ∧ row.nextAttempt < NEVER) ∨ series ∈ w.missing

/-- The condition on a step: the clock is below `NEVER`, and no crash hits a hit being recorded
after a snapshot has its relations. -/
def spared (w : World) : Event → Bool
  | .reconcile now | .pass now => now + ANIME_TIMEOUT_RETRY_MILLIS < NEVER
  | .crash => w.phase.unqueued.isEmpty || !w.exposed
  | _ => true

end World

/-! ## §4. The statements. -/

section Statements

variable (queue : AnimeQueue) (series target : AniDbSeriesId) (now next : Int)

theorem getElem?_enqueueAnime :
    (enqueueAnime queue series now)[target]? =
      if target = series then some ((queue[series]?).getD ⟨now, none, now, 0⟩)
      else queue[target]? := by
  unfold enqueueAnime
  split
  next row hrow =>
    split
    next heq => rw [heq, hrow]; rfl
    · rfl
  next hrow =>
    rw [getElem?_insert, hrow]
    rfl

theorem getElem?_recordAnimeAttempt :
    (recordAnimeAttempt queue series now next)[target]? =
      if target = series then (queue[series]?).map fun row => { row with
        lastAttempt := some now, nextAttempt := next, attempts := row.attempts + 1 }
      else queue[target]? := by
  unfold recordAnimeAttempt
  split
  next row hrow =>
    rw [getElem?_insert, hrow]
    rfl
  next hrow =>
    split
    next heq => rw [heq, hrow]; rfl
    · rfl

theorem getElem?_rearm :
    (rearm queue series now)[target]? =
      if target = series then (queue[series]?).map fun row => { row with nextAttempt := now }
      else queue[target]? := by
  unfold rearm
  split
  next row hrow =>
    rw [getElem?_insert, hrow]
    rfl
  next hrow =>
    split
    next heq => rw [heq, hrow]; rfl
    · rfl

end Statements

/-- No row is ever deleted. -/
def Grows (queue queue' : AnimeQueue) : Prop :=
  ∀ series : AniDbSeriesId, queue[series]?.isSome → queue'[series]?.isSome

theorem grows_enqueueAnime (queue : AnimeQueue) (series : AniDbSeriesId) (now : Int) :
    Grows queue (enqueueAnime queue series now) := by
  intro target hrow
  rw [getElem?_enqueueAnime]
  split
  · rfl
  · exact hrow

theorem grows_recordAnimeAttempt (queue : AnimeQueue) (series : AniDbSeriesId) (now next : Int) :
    Grows queue (recordAnimeAttempt queue series now next) := by
  intro target hrow
  rw [getElem?_recordAnimeAttempt]
  split
  next heq => rw [isSome_map, ← heq]; exact hrow
  · exact hrow

theorem grows_rearm (queue : AnimeQueue) (series : AniDbSeriesId) (now : Int) :
    Grows queue (rearm queue series now) := by
  intro target hrow
  rw [getElem?_rearm]
  split
  next heq => rw [isSome_map, ← heq]; exact hrow
  · exact hrow

/-- No attempt lies beyond `NEVER`, the largest time there is. -/
def Bounded (queue : AnimeQueue) : Prop :=
  ∀ (series : AniDbSeriesId) (row : AnimeRow), queue[series]? = some row → row.nextAttempt ≤ NEVER

variable {queue : AnimeQueue}

theorem Bounded.enqueueAnime (h : Bounded queue) (series : AniDbSeriesId) {now : Int}
    (hnow : now ≤ NEVER) : Bounded (enqueueAnime queue series now) := by
  intro target row hrow
  rw [getElem?_enqueueAnime] at hrow
  split at hrow
  · cases hold : queue[series]? with
    | some old =>
      rw [hold] at hrow
      cases hrow
      exact h series _ hold
    | none =>
      rw [hold] at hrow
      cases hrow
      exact hnow
  · exact h target row hrow

theorem Bounded.recordAnimeAttempt (h : Bounded queue) (series : AniDbSeriesId) (now : Int)
    {next : Int} (hnext : next ≤ NEVER) : Bounded (recordAnimeAttempt queue series now next) := by
  intro target row hrow
  rw [getElem?_recordAnimeAttempt] at hrow
  split at hrow
  · obtain ⟨old, _, rfl⟩ := map_eq_some_iff.mp hrow
    exact hnext
  · exact h target row hrow

theorem Bounded.rearm (h : Bounded queue) (series : AniDbSeriesId) {now : Int}
    (hnow : now ≤ NEVER) : Bounded (rearm queue series now) := by
  intro target row hrow
  rw [getElem?_rearm] at hrow
  split at hrow
  · obtain ⟨old, _, rfl⟩ := map_eq_some_iff.mp hrow
    exact hnow
  · exact h target row hrow

/-! ## §5. What a view's rows name. -/

/-- Whatever a view's rows name has a row in the view or in the queue, or is still to be queued. -/
def Anchored (queue : AnimeQueue) (view : StateView) (unqueued : List AniDbSeriesId) : Prop :=
  ∀ (series : AniDbSeriesId) (row : SeriesRelations), view.relations[series]? = some row →
    ∀ target ∈ targets row,
      view.relations[target]?.isSome ∨ queue[target]?.isSome ∨ target ∈ unqueued

variable {view view' : StateView}

theorem Anchored.grow {queue' : AnimeQueue} {unqueued : List AniDbSeriesId}
    (h : Anchored queue view unqueued) (hgrows : Grows queue queue') :
    Anchored queue' view unqueued :=
  fun series row hrow target ht => (h series row hrow target ht).imp id
    (·.imp (hgrows target) id)

theorem Anchored.enqueue {target : AniDbSeriesId} {rest : List AniDbSeriesId}
    (h : Anchored queue view (target :: rest)) (now : Int) :
    Anchored (enqueueAnime queue target now) view rest := by
  intro series row hrow t ht
  have hgrown := h.grow (grows_enqueueAnime queue target now)
  rcases hgrown series row hrow t ht with hview | hqueue | hmem
  · exact .inl hview
  · exact .inr (.inl hqueue)
  · rcases mem_cons.mp hmem with rfl | hmem
    · right
      left
      rw [getElem?_enqueueAnime, if_pos rfl]
      rfl
    · exact .inr (.inr hmem)

theorem mem_links {series : AniDbSeriesId} {related : List SeriesRelation} :
    (series, related) ∈ links view ↔
      ∃ row, view.relations[series]? = some row ∧ row.relations.toList = related := by
  unfold links
  simp only [List.mem_map, Prod.mk.injEq]
  constructor
  · rintro ⟨entry, hentry, rfl, hrelated⟩
    exact ⟨entry.2, (mem_entries _ entry).mp hentry, hrelated⟩
  · rintro ⟨row, hrow, hrelated⟩
    exact ⟨(series, row), (mem_entries _ (series, row)).mpr hrow, rfl, hrelated⟩

theorem isSome_of_links (h : links view' = links view) (series : AniDbSeriesId) :
    view'.relations[series]?.isSome = view.relations[series]?.isSome := by
  have hside : ∀ {v v' : StateView}, links v' = links v →
      v.relations[series]?.isSome → v'.relations[series]?.isSome := by
    intro v v' heq hsome
    obtain ⟨row, hrow⟩ := isSome_iff_exists.mp hsome
    have hmem := mem_links.mpr ⟨row, hrow, rfl⟩
    rw [← heq] at hmem
    obtain ⟨row', hrow', _⟩ := mem_links.mp hmem
    rw [hrow']
    rfl
  exact Bool.eq_iff_iff.mpr ⟨hside h.symm, hside h⟩

theorem Anchored.edit {unqueued : List AniDbSeriesId} (h : Anchored queue view unqueued)
    (hlinks : links view' = links view) : Anchored queue view' unqueued := by
  intro series row hrow target ht
  have hmem := mem_links.mpr ⟨row, hrow, rfl⟩
  rw [hlinks] at hmem
  obtain ⟨row', hrow', hrelated⟩ := mem_links.mp hmem
  rw [isSome_of_links hlinks]
  refine h series row' hrow' target ?_
  unfold targets
  rw [hrelated]
  exact ht

theorem Anchored.write (h : Anchored queue view []) (series : AniDbSeriesId)
    (row : SeriesRelations) :
    Anchored queue { view with seriesRelations := view.relations.insert series row }
      ((targets row).filter fun target =>
        (view.relations.insert series row)[target]?.isNone) := by
  have hkeep : ∀ t : AniDbSeriesId, view.relations[t]?.isSome →
      (view.relations.insert series row)[t]?.isSome := by
    intro t ht
    rw [getElem?_insert]
    split
    · rfl
    · exact ht
  intro s row' hrow' t ht
  replace hrow' : (view.relations.insert series row)[s]? = some row' := hrow'
  show (view.relations.insert series row)[t]?.isSome ∨ _
  rw [getElem?_insert] at hrow'
  split at hrow'
  · cases hrow'
    cases hknown : (view.relations.insert series row)[t]? with
    | some known => exact .inl rfl
    | none => exact .inr (.inr (mem_filter.mpr ⟨ht, by rw [hknown]; rfl⟩))
  · rcases h s row' hrow' t ht with hview | hqueue | hmem
    · exact .inl (hkeep t hview)
    · exact .inr (.inl hqueue)
    · exact absurd hmem not_mem_nil

/-! ## §6. The invariant. -/

namespace World

/-- Every row waits for its turn, or its series is known or does not exist, or it is still to be
re-armed. -/
def Armed (w : World) (unarmed : List AniDbSeriesId) : Prop :=
  ∀ (series : AniDbSeriesId) (row : AnimeRow), w.queue[series]? = some row →
    row.nextAttempt < NEVER ∨ w.view.relations[series]?.isSome ∨ series ∈ w.missing ∨
      series ∈ unarmed

/-- A series is known or has a row. -/
def Noted (w : World) (series : AniDbSeriesId) : Prop :=
  w.view.relations[series]?.isSome ∨ w.queue[series]?.isSome

def Clock (now : Int) : Prop := now + ANIME_TIMEOUT_RETRY_MILLIS < NEVER

variable {now : Int}

theorem Clock.lt (h : Clock now) : now < NEVER := by
  unfold Clock ANIME_TIMEOUT_RETRY_MILLIS at h
  omega

def Fits (w : World) : Phase → Prop
  | .down | .starting => True
  | .rearming now rest => Clock now ∧ w.Armed rest
  | .idle => w.Armed []
  | .seeding now refs rest => Clock now ∧ w.Armed [] ∧
      ∀ series ∈ refs, w.Noted series ∨ series ∈ rest
  | .seeded now | .asking now _ | .walking now _ => Clock now ∧ w.Armed []
  | .found now series _ => Clock now ∧ w.Armed [] ∧ w.view.relations[series]?.isSome

def owed (w : World) : List AniDbSeriesId := if w.exposed then w.phase.unqueued else []

structure Sound (w : World) : Prop where
  bounded : Bounded w.queue
  snapshots : ∀ snapshot ∈ w.snapshots, Anchored w.queue snapshot w.owed
  view : w.phase ≠ .down → Anchored w.queue w.view w.phase.unqueued
  seen : w.phase ≠ .down → ∀ series ∈ w.seen, w.Noted series
  fits : w.Fits w.phase

variable {w w' : World}

theorem owed_eq_nil (h : w.phase.unqueued = []) : w.owed = [] := by
  unfold owed
  split
  · exact h
  · rfl

variable {series : AniDbSeriesId}

theorem armed_covered (h : w.Armed []) (hnoted : w.Noted series) : w.Covered series := by
  rcases hnoted with hview | hqueue
  · exact .inl hview
  · obtain ⟨row, hrow⟩ := isSome_iff_exists.mp hqueue
    rcases h series row hrow with hnext | hview | hmissing | hmem
    · exact .inr (.inl ⟨row, hrow, hnext⟩)
    · exact .inl hview
    · exact .inr (.inr hmissing)
    · exact absurd hmem not_mem_nil

theorem owed_congr (hexposed : w'.exposed = w.exposed)
    (hunqueued : w'.phase.unqueued = w.phase.unqueued) : w'.owed = w.owed := by
  unfold owed
  rw [hexposed, hunqueued]

variable {missing rest : List AniDbSeriesId}

theorem Sound.write (h : w.Sound) (hup : w.phase ≠ .down) {queue : AnimeQueue}
    (hgrows : Grows w.queue queue) (hbounded : Bounded queue) {phase : Phase}
    (hunqueued : phase.unqueued = w.phase.unqueued)
    (hfits : Fits { w with queue := queue, missing := missing } phase) :
    Sound { w with queue := queue, phase := phase, missing := missing } := by
  refine ⟨hbounded, fun snapshot hs => ?_, fun _ => ?_, fun _ series hseries => ?_, ?_⟩
  · have howed : owed { w with queue := queue, phase := phase, missing := missing } = w.owed :=
      owed_congr rfl hunqueued
    rw [howed]
    exact (h.snapshots snapshot hs).grow hgrows
  · show Anchored queue w.view phase.unqueued
    rw [hunqueued]
    exact (h.view hup).grow hgrows
  · exact (h.seen hup series hseries).imp id (hgrows series)
  · cases phase <;> exact hfits

theorem Sound.turn (h : w.Sound) (hup : w.phase ≠ .down) {phase : Phase}
    (hunqueued : phase.unqueued = w.phase.unqueued) (hfits : w.Fits phase) :
    Sound { w with phase := phase } :=
  h.write hup (fun _ hrow => hrow) h.bounded hunqueued hfits

/-! ## §7. The rows stay armed. -/

theorem Armed.enqueue (h : w.Armed []) (hclock : Clock now) (series : AniDbSeriesId) :
    Armed { w with queue := enqueueAnime w.queue series now } [] := by
  intro target row hrow
  replace hrow : (enqueueAnime w.queue series now)[target]? = some row := hrow
  rw [getElem?_enqueueAnime] at hrow
  split at hrow
  next heq =>
    cases hold : w.queue[series]? with
    | some old =>
      rw [hold] at hrow
      cases hrow
      exact h target _ (heq ▸ hold)
    | none =>
      rw [hold] at hrow
      cases hrow
      exact .inl hclock.lt
  · exact h target row hrow

theorem Armed.record (h : w.Armed []) {next : Int} (hmissing : ∀ s ∈ w.missing, s ∈ missing)
    (hnext : next < NEVER ∨ w.view.relations[series]?.isSome ∨ series ∈ missing) :
    Armed { w with
      queue := recordAnimeAttempt w.queue series now next, missing := missing } [] := by
  intro target row hrow
  replace hrow : (recordAnimeAttempt w.queue series now next)[target]? = some row := hrow
  rw [getElem?_recordAnimeAttempt] at hrow
  split at hrow
  next heq =>
    obtain ⟨old, _, rfl⟩ := map_eq_some_iff.mp hrow
    rw [heq]
    exact hnext.imp id (·.imp id .inl)
  · exact (h target row hrow).imp id (·.imp id (·.imp (hmissing target) id))

theorem Armed.rearm (h : w.Armed (series :: rest)) (hclock : Clock now) :
    Armed { w with queue := Relations.rearm w.queue series now } rest := by
  intro target row hrow
  replace hrow : (Relations.rearm w.queue series now)[target]? = some row := hrow
  rw [getElem?_rearm] at hrow
  split at hrow
  · obtain ⟨old, _, rfl⟩ := map_eq_some_iff.mp hrow
    exact .inl hclock.lt
  next hne =>
    rcases h target row hrow with hnext | hview | hmissing | hmem
    · exact .inl hnext
    · exact .inr (.inl hview)
    · exact .inr (.inr (.inl hmissing))
    · exact .inr (.inr (.inr ((mem_cons.mp hmem).resolve_left hne)))

theorem armed_orphaned (h : Bounded w.queue) : w.Armed (orphaned w.queue w.view) := by
  intro series row hrow
  by_cases hnext : row.nextAttempt = NEVER
  · cases hview : w.view.relations[series]? with
    | some known => exact .inr (.inl rfl)
    | none =>
      refine .inr (.inr (.inr (List.mem_map.mpr ⟨(series, row), ?_, rfl⟩)))
      refine mem_filter.mpr ⟨?_, ?_⟩
      · exact (mem_entries _ (series, row)).mpr hrow
      · simp [hnext, hview]
  · exact .inl (lt_of_le_of_ne (h series row hrow) hnext)

/-! ## §8. The steps. -/

theorem Fits.edit {view : StateView} (hlinks : links view = links w.view) {phase : Phase}
    (h : w.Fits phase) : Fits { w with view := view } phase := by
  have hrows : ∀ rest, w.Armed rest → Armed { w with view := view } rest := by
    intro rest harmed series row hrow
    show _ ∨ view.relations[series]?.isSome ∨ _
    rw [isSome_of_links hlinks]
    exact harmed series row hrow
  cases phase with
  | down => trivial
  | starting => trivial
  | rearming now rest => exact ⟨h.1, hrows rest h.2⟩
  | idle => exact hrows [] h
  | seeding now refs rest =>
    refine ⟨h.1, hrows [] h.2.1, fun series hseries => ?_⟩
    show (view.relations[series]?.isSome ∨ _) ∨ _
    rw [isSome_of_links hlinks]
    exact h.2.2 series hseries
  | seeded now => exact ⟨h.1, hrows [] h.2⟩
  | asking now series => exact ⟨h.1, hrows [] h.2⟩
  | found now series rest =>
    refine ⟨h.1, hrows [] h.2.1, ?_⟩
    show view.relations[series]?.isSome
    rw [isSome_of_links hlinks]
    exact h.2.2
  | walking now rest => exact ⟨h.1, hrows [] h.2⟩

theorem Sound.edit (h : w.Sound) (hup : w.phase ≠ .down) {view : StateView}
    (hlinks : links view = links w.view) : Sound { w with view := view } := by
  refine ⟨h.bounded, h.snapshots, fun _ => (h.view hup).edit hlinks, fun _ series hseries => ?_,
    h.fits.edit hlinks⟩
  show view.relations[series]?.isSome ∨ _
  rw [isSome_of_links hlinks]
  exact h.seen hup series hseries

theorem Sound.save (h : w.Sound) (hup : w.phase ≠ .down) :
    Sound { w with snapshots := w.snapshots ++ [w.view], exposed := true } := by
  refine ⟨h.bounded, fun snapshot hs => ?_, h.view, h.seen, ?_⟩
  · show Anchored w.queue snapshot w.phase.unqueued
    rcases mem_append.mp hs with hs | hs
    · -- An older snapshot names nothing that it did not name before.
      intro series row hrow target ht
      refine (h.snapshots snapshot hs series row hrow target ht).imp id (·.imp id fun howed => ?_)
      unfold owed at howed
      split at howed
      · exact howed
      · exact absurd howed not_mem_nil
    · rw [mem_singleton.mp hs]
      exact h.view hup
  · have hfits := h.fits
    show Fits _ w.phase
    cases hphase : w.phase with
    | _ =>
      rw [hphase] at hfits
      exact hfits

theorem Sound.found (h : w.Sound) (hphase : w.phase = .asking now series) (row : SeriesRelations) :
    (w.writeRelations now series row).Sound := by
  have hup : w.phase ≠ .down := by rw [hphase]; nofun
  have hfits := h.fits
  rw [hphase] at hfits
  have hkeep : ∀ t : AniDbSeriesId, w.view.relations[t]?.isSome →
      (w.view.relations.insert series row)[t]?.isSome := by
    intro t ht
    rw [getElem?_insert]
    split
    · rfl
    · exact ht
  have hview := h.view hup
  rw [hphase] at hview
  refine ⟨h.bounded, fun snapshot hs => ?_, fun _ => hview.write series row,
    fun _ s hs => (h.seen hup s hs).imp (hkeep s) id, hfits.1, fun s r hr => ?_, ?_⟩
  · have howed : w.owed = [] := owed_eq_nil (by rw [hphase]; rfl)
    have hsnap := h.snapshots snapshot hs
    rw [howed] at hsnap
    exact hsnap
  · exact (hfits.2 s r hr).imp id (·.imp (hkeep s) id)
  · show (w.view.relations.insert series row)[series]?.isSome
    rw [getElem?_insert, if_pos rfl]
    rfl

theorem Sound.answer (h : w.Sound) (hphase : w.phase = .asking now series) (answer : Answer) :
    (w.onAnswer now series answer).Sound := by
  have hup : w.phase ≠ .down := by rw [hphase]; nofun
  have hidle : Phase.idle.unqueued = w.phase.unqueued := by rw [hphase]; rfl
  have hfits := h.fits
  rw [hphase] at hfits
  cases answer with
  | found row => exact h.found hphase row
  | nonexistent =>
    refine h.write hup (grows_recordAnimeAttempt _ _ _ _)
      (h.bounded.recordAnimeAttempt series now le_rfl) hidle ?_
    exact hfits.2.record (fun s hs => mem_cons_of_mem _ hs)
      (.inr (.inr mem_cons_self))
  | timeout =>
    refine h.write hup (grows_recordAnimeAttempt _ _ _ _)
      (h.bounded.recordAnimeAttempt series now hfits.1.le) hidle ?_
    exact hfits.2.record (fun s hs => hs) (.inl hfits.1)
  | failed => exact h.turn hup hidle hfits.2

theorem Sound.walk (h : w.Sound) {target : AniDbSeriesId}
    (hphase : w.phase = .walking now (target :: rest)) :
    Sound { w with queue := enqueueAnime w.queue target now, phase := .walking now rest } := by
  have hup : w.phase ≠ .down := by rw [hphase]; nofun
  have hfits := h.fits
  have hview := h.view hup
  rw [hphase] at hfits hview
  refine ⟨h.bounded.enqueueAnime target hfits.1.lt.le, fun snapshot hs => ?_, fun _ =>
    hview.enqueue now, fun _ s hs => (h.seen hup s hs).imp id (grows_enqueueAnime _ _ _ s),
    hfits.1, hfits.2.enqueue hfits.1 target⟩
  have hsnap := h.snapshots snapshot hs
  unfold owed at hsnap ⊢
  rw [hphase] at hsnap
  split at hsnap
  next hexposed =>
    rw [if_pos hexposed]
    exact hsnap.enqueue now
  next hhidden =>
    rw [if_neg hhidden]
    exact hsnap.grow (grows_enqueueAnime _ _ _)

/-- **One statement** of the loop under way. -/
theorem Sound.advance (h : w.Sound) (hs : w.advance = some w') : w'.Sound := by
  have hfits := h.fits
  unfold World.advance at hs
  split at hs
  next now series rest hphase =>
    cases hs
    rw [hphase] at hfits
    exact h.write (by rw [hphase]; nofun) (grows_rearm _ _ _) (h.bounded.rearm series hfits.1.lt.le)
      (by rw [hphase]; rfl) ⟨hfits.1, hfits.2.rearm hfits.1⟩
  next hphase =>
    cases hs
    rw [hphase] at hfits
    exact h.turn (by rw [hphase]; nofun) (by rw [hphase]; rfl) hfits.2
  next now refs series rest hphase =>
    cases hs
    rw [hphase] at hfits
    refine h.write (by rw [hphase]; nofun) (grows_enqueueAnime _ _ _)
      (h.bounded.enqueueAnime series hfits.1.lt.le) (by rw [hphase]; rfl)
      ⟨hfits.1, hfits.2.1.enqueue hfits.1 series, fun s hs => ?_⟩
    rcases hfits.2.2 s hs with hnoted | hmem
    · exact .inl (hnoted.imp id (grows_enqueueAnime _ _ _ s))
    · rcases mem_cons.mp hmem with rfl | hmem
      · left
        right
        show (enqueueAnime w.queue s now)[s]?.isSome
        rw [getElem?_enqueueAnime, if_pos rfl]
        rfl
      · exact .inr hmem
  next now refs hphase =>
    cases hs
    have hview := h.view (by rw [hphase]; nofun)
    rw [hphase] at hfits hview
    refine ⟨h.bounded, fun snapshot hs => ?_, fun _ => hview, fun _ s hs => ?_, hfits.1, hfits.2.1⟩
    · have hsnap := h.snapshots snapshot hs
      rw [owed_eq_nil (by rw [hphase]; rfl)] at hsnap
      rw [owed_eq_nil rfl]
      exact hsnap
    · exact (hfits.2.2 s hs).resolve_right not_mem_nil
  next now series rest hphase =>
    cases hs
    rw [hphase] at hfits
    exact h.write (by rw [hphase]; nofun) (grows_recordAnimeAttempt _ _ _ _)
      (h.bounded.recordAnimeAttempt series now le_rfl) (by rw [hphase]; rfl)
      ⟨hfits.1, hfits.2.1.record (fun s hs => hs) (.inr (.inl hfits.2.2))⟩
  next now target rest hphase =>
    cases hs
    exact h.walk hphase
  next now hphase =>
    cases hs
    rw [hphase] at hfits
    exact h.turn (by rw [hphase]; nofun) (by rw [hphase]; rfl) hfits.2
  · cases hs

theorem Sound.crash (h : w.Sound) (hok : w.spared .crash = true) :
    Sound { w with phase := .down } := by
  have howed : w.owed = [] := by
    rw [spared, Bool.or_eq_true, List.isEmpty_iff] at hok
    rcases hok with hnone | hhidden
    · exact owed_eq_nil hnone
    · unfold owed
      rw [if_neg (by simpa using hhidden)]
  refine ⟨h.bounded, fun snapshot hs => ?_, fun hup => absurd rfl hup, fun hup => absurd rfl hup,
    trivial⟩
  have hsnap := h.snapshots snapshot hs
  rw [howed] at hsnap
  rw [owed_eq_nil rfl]
  exact hsnap

theorem Sound.start (h : w.Sound) (hphase : w.phase = .down) {view : StateView}
    (hview : view ∈ w.snapshots) :
    Sound { w with view := view, phase := .starting, seen := [] } := by
  have hsnaps : ∀ snapshot ∈ w.snapshots, Anchored w.queue snapshot [] := by
    intro snapshot hs
    have hsnap := h.snapshots snapshot hs
    rwa [owed_eq_nil (by rw [hphase]; rfl)] at hsnap
  refine ⟨h.bounded, fun snapshot hs => ?_, fun _ => hsnaps view hview,
    fun _ _ hs => absurd hs not_mem_nil, trivial⟩
  rw [owed_eq_nil rfl]
  exact hsnaps snapshot hs

/-- **One step.** -/
theorem Sound.step (h : w.Sound) {event : Event} (hok : w.spared event = true)
    (hs : w.step event = some w') : w'.Sound := by
  have hfits := h.fits
  cases event with
  | start index =>
    simp only [World.step] at hs
    split at hs
    next view hphase hview =>
      cases hs
      exact h.start hphase (mem_of_getElem? hview)
    · cases hs
  | crash =>
    simp only [World.step] at hs
    split at hs
    · cases hs
    · cases hs
      exact h.crash hok
  | save =>
    simp only [World.step] at hs
    split at hs
    · cases hs
    next hup =>
      cases hs
      exact h.save hup
  | edit view =>
    simp only [World.step] at hs
    split at hs
    · cases hs
    next hup =>
      split at hs
      next hlinks =>
        cases hs
        exact h.edit hup hlinks
      · cases hs
  | reconcile now =>
    simp only [World.step] at hs
    split at hs
    next hphase =>
      cases hs
      exact h.turn (by rw [hphase]; nofun) (by rw [hphase]; rfl)
        ⟨show now + _ < _ from of_decide_eq_true hok, armed_orphaned h.bounded⟩
    · cases hs
  | next => exact h.advance hs
  | pass now =>
    simp only [World.step] at hs
    split at hs
    next hphase =>
      cases hs
      rw [hphase] at hfits
      refine h.turn (by rw [hphase]; nofun) (by rw [hphase]; rfl)
        ⟨show now + _ < _ from of_decide_eq_true hok, hfits, fun series hseries => ?_⟩
      cases hview : w.view.relations[series]? with
      | some known => exact .inl (.inl (by rw [hview]; rfl))
      | none => exact .inr (mem_filter.mpr ⟨hseries, by rw [hview]; rfl⟩)
    · cases hs
  | skip =>
    simp only [World.step] at hs
    split at hs
    next hphase =>
      cases hs
      rw [hphase] at hfits
      exact h.turn (by rw [hphase]; nofun) (by rw [hphase]; rfl) hfits.2
    · cases hs
  | ask series =>
    simp only [World.step] at hs
    split at hs
    next now hphase =>
      split at hs
      · cases hs
        rw [hphase] at hfits
        exact h.turn (by rw [hphase]; nofun) (by rw [hphase]; rfl) hfits
      · cases hs
    · cases hs
  | answer answer =>
    simp only [World.step] at hs
    split at hs
    next hphase =>
      cases hs
      exact h.answer hphase answer
    · cases hs

/-! ## §9. Every run. -/

def boot (queue : AnimeQueue) (snapshots : List StateView) : World where
  queue := queue
  snapshots := snapshots
  view := default
  phase := .down
  missing := []
  seen := []
  exposed := false

/-- **No series is forgotten**: between passes, whatever a relations row names and whatever the view
of the latest pass referred to is known, queued or does not exist, in every run in which no
crash hits the recording of relations that a snapshot already has. -/
theorem relations_walk_complete {queue : AnimeQueue} {snapshots : List StateView}
    (hbounded : Bounded queue) (hanchored : ∀ snapshot ∈ snapshots, Anchored queue snapshot [])
    (hw : Reach step (fun w event => w.spared event = true) (boot queue snapshots) w)
    (hidle : w.phase = .idle) :
    (∀ (series : AniDbSeriesId) (row : SeriesRelations), w.view.relations[series]? = some row →
      ∀ target ∈ targets row, w.Covered target) ∧
    ∀ series ∈ referenced w.view, series ∈ w.seen → w.Covered series := by
  have hsound : w.Sound := hw.invariant
    ⟨hbounded, hanchored, fun hup => absurd rfl hup, fun hup => absurd rfl hup, trivial⟩
    fun _ _ _ h hok hstep => h.step hok hstep
  have hup : w.phase ≠ .down := by rw [hidle]; nofun
  have hfits := hsound.fits
  have hview := hsound.view hup
  rw [hidle] at hfits hview
  refine ⟨fun series row hrow target ht => armed_covered hfits ?_, fun series _ hseen =>
    armed_covered hfits (hsound.seen hup series hseen)⟩
  rcases hview series row hrow target ht with hknown | hqueued | hmem
  · exact .inl hknown
  · exact .inr hqueued
  · exact absurd hmem not_mem_nil

def linked : StateView :=
  { (default : StateView) with
    listEntries := (default : StateView).entries.insert 9 (linkedEntry "A" (some 1)) }

/-- Start, queue series 1 and look it up; a snapshot is saved once its relations are written. -/
def lookedUp : List Event :=
  [.start 0, .reconcile 0, .next, .pass 0, .next, .next, .ask 1,
   .answer (.found (oneEdge .sequel 2)), .save]

def recorded : List Event :=
  lookedUp ++ [.next, .next, .next, .crash, .start 1, .reconcile 60000, .next]

def interrupted : List Event := lookedUp ++ [.next, .crash, .start 1, .reconcile 60000, .next]

theorem relations_walk_complete_recorded :
    ∃ w, runWith step spared (boot ∅ [linked]) recorded = some w ∧ w.phase = .idle ∧
      w.view.relations[1]? = some (oneEdge .sequel 2) ∧ w.Covered 2 := by
  have hend : (runWith step spared (boot ∅ [linked]) recorded).map (fun w =>
      (w.phase, w.view.relations[1]?)) = some (.idle, some (oneEdge .sequel 2)) := by decide +kernel
  obtain ⟨w, hrun, hw⟩ := map_eq_some_iff.mp hend
  obtain ⟨hidle, hrow⟩ := Prod.mk.inj hw
  have hempty : Bounded ∅ := fun _ _ h => by
    rw [ExtTreeMap.getElem?_empty] at h
    cases h
  have hanchored : ∀ snapshot ∈ [linked], Anchored ∅ snapshot [] := by
    intro snapshot hs series row h
    rw [mem_singleton.mp hs, show linked.relations = ∅ from rfl,
      ExtTreeMap.getElem?_empty] at h
    cases h
  have hcovered := relations_walk_complete hempty hanchored
    (reach_of_runWith _ (fun _ _ h => h) hrun) hidle
  exact ⟨w, hrun, hidle, hrow, hcovered.1 1 _ hrow 2 (by decide +kernel)⟩

def relinked : List Event := [.start 0, .reconcile 0, .next, .edit linked]

theorem target_forgotten :
    (∃ w, run step (boot ∅ [linked]) interrupted = some w ∧ w.phase = .idle ∧
      w.view.relations[1]? = some (oneEdge .sequel 2) ∧ 2 ∈ targets (oneEdge .sequel 2) ∧
      ¬ w.Covered 2) ∧
    ∃ w, run step (boot ∅ [default]) relinked = some w ∧
      w.phase = .idle ∧ 1 ∈ referenced w.view ∧ ¬ w.Covered 1 := by
  have huncovered : ∀ {w : World} {series : AniDbSeriesId}, w.view.relations[series]? = none →
      w.queue[series]? = none → w.missing = [] → ¬ w.Covered series := by
    rintro w series hview hqueue hmissing (hknown | ⟨row, hrow, _⟩ | hmem)
    · rw [hview] at hknown
      cases hknown
    · rw [hqueue] at hrow
      cases hrow
    · rw [hmissing] at hmem
      exact absurd hmem not_mem_nil
  constructor
  · have hend : (run step (boot ∅ [linked]) interrupted).map (fun w =>
        (w.phase, w.view.relations[1]?, w.view.relations[2]?.isNone, w.queue[2]?.isNone,
          w.missing)) =
        some (.idle, some (oneEdge .sequel 2), true, true, []) := by decide +kernel
    obtain ⟨w, hrun, hw⟩ := map_eq_some_iff.mp hend
    simp only [Prod.mk.injEq] at hw
    obtain ⟨hidle, hrow, hview, hqueue, hmissing⟩ := hw
    exact ⟨w, hrun, hidle, hrow, by decide +kernel, huncovered (isNone_iff_eq_none.mp hview)
      (isNone_iff_eq_none.mp hqueue) hmissing⟩
  · have hend : (run step (boot ∅ [default]) relinked).map
        (fun w => (w.phase, referenced w.view, w.view.relations[1]?, w.queue[1]?, w.missing)) =
        some (.idle, [1], none, none, []) := by decide +kernel
    obtain ⟨w, hrun, hw⟩ := map_eq_some_iff.mp hend
    simp only [Prod.mk.injEq] at hw
    obtain ⟨hidle, hrefs, hview, hqueue, hmissing⟩ := hw
    exact ⟨w, hrun, hidle, by rw [hrefs]; exact mem_cons_self,
      huncovered hview hqueue hmissing⟩

end World

end DessPlay.Anidb.Relations
