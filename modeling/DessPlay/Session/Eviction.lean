/-
  DessPlay.Session.Eviction
  **EVICTED COPIES AND THEIR ADVERTS.**

  The file actor deletes cached copies (`run_eviction`, `evictable` in
  `dessplay/src/actors/file.rs`) and reports them; the wiring retracts the adverts
  of those it resolved in this session (`note_evicted`).  The adverts are
  replicated and outlive the session, what was resolved does not.
-/
import DessPlay.Lib.Machine
import DessPlay.Session.Wiring

namespace DessPlay.Session

open BTree DessPlay.Core
open List hiding getElem?_insert insert
open Sync (Mutation)
open Std (ExtTreeMap ExtTreeSet)

/-! ## §1. The eviction pass. -/

inductive CacheRetention where
  | afterWatch
  | keep (windowMillis : Int)
  | infinite
  deriving DecidableEq

structure CacheEntry where
  hash : Ed2kHash
  lastAccess : Int

/-- `saturating_sub` on an `i64`. -/
def saturatingSub (a b : Int) : Int := max (-2 ^ 63) (min (2 ^ 63 - 1) (a - b))

def evictable (now : Int) (retention : CacheRetention) (entry : CacheEntry)
    (watched inPlaylist safe : Bool) : Bool :=
  if safe || (inPlaylist && !watched) then false
  else
    match retention with
    | .afterWatch => true
    | .keep window => window ≤ saturatingSub now entry.lastAccess
    | .infinite => false

/-- The part of the file actor a pass reads. -/
structure FileCache where
  retention : CacheRetention
  entries : List CacheEntry
  /-- copies an archive run is reading -/
  archiving : BTreeSet Ed2kHash
  /-- what this user has watched -/
  watched : BTreeSet Ed2kHash

/-- One pass; `removed` says which deletions the file system lets through.  The files reported
as evicted leave the cache. -/
def FileCache.runEviction (now : Int) (removed : Ed2kHash → Bool)
    (safe groupWatched playlist : BTreeSet Ed2kHash) (cache : FileCache) :
    FileCache × List Ed2kHash :=
  let evicts (entry : CacheEntry) : Bool :=
    !decide (entry.hash ∈ cache.archiving) &&
    evictable now cache.retention entry
      (decide (entry.hash ∈ groupWatched) || decide (entry.hash ∈ cache.watched))
      (decide (entry.hash ∈ playlist)) (decide (entry.hash ∈ safe)) &&
    removed entry.hash
  ({ cache with entries := cache.entries.filter fun entry => !evicts entry },
    (cache.entries.filter evicts).map (·.hash))

/-! ## §2. What a report does to the wiring. -/

/-- The directive that retracts an advert. -/
def retraction (file : Ed2kHash) : Directive := .mutate (.setFileAvailability file .missing)

/-- Some evicted files have been noted, starting from a wiring. -/
structure Evicting (w : PlayerWiring) (files : List Ed2kHash) (r : Reaction) : Prop where
  /-- nothing but `resolved` changes -/
  frame : r.1 = { w with resolved := r.1.resolved }
  resolved : ∀ file, r.1.resolved[file]? = if file ∈ files then none else w.resolved[file]?
  out : ∀ d, d ∈ r.2 ↔ ∃ file ∈ files, file ∈ w.resolved ∧ d = retraction file

namespace Evicting

variable {w : PlayerWiring} {files : List Ed2kHash} {r : Reaction} {file : Ed2kHash}

theorem mem_resolved (h : Evicting w files r) (file : Ed2kHash) :
    file ∈ r.1.resolved ↔ file ∉ files ∧ file ∈ w.resolved := by
  rw [ExtTreeMap.mem_iff_isSome_getElem?, h.resolved, ExtTreeMap.mem_iff_isSome_getElem?]
  split <;> simp_all

theorem retract (h : Evicting w files r) (hin : file ∈ r.1.resolved) :
    Evicting w (files ++ [file])
      ({ r.1 with resolved := r.1.resolved.erase file }, r.2 ++ [retraction file]) where
  frame := by rw [h.frame]
  resolved g := by
    rw [getElem?_erase, h.resolved]
    by_cases hg : g = file <;> simp [hg]
  out d := by
    have hw : file ∈ w.resolved := ((h.mem_resolved file).mp hin).2
    rw [mem_append, h.out, mem_singleton]
    constructor
    · rintro (⟨g, hg, hres, rfl⟩ | rfl)
      · exact ⟨g, mem_append_left _ hg, hres, rfl⟩
      · exact ⟨file, by simp, hw, rfl⟩
    · rintro ⟨g, hg, hres, rfl⟩
      rcases mem_append.mp hg with hg | hg
      · exact .inl ⟨g, hg, hres, rfl⟩
      · exact .inr (by rw [mem_singleton.mp hg])

theorem skip (h : Evicting w files r) (hin : file ∉ r.1.resolved) :
    Evicting w (files ++ [file]) r where
  frame := h.frame
  resolved g := by
    rw [h.resolved]
    by_cases hg : g = file
    · subst hg
      by_cases hfiles : g ∈ files
      · simp [hfiles]
      · have hnot : g ∉ w.resolved := fun hw => hin ((h.mem_resolved g).mpr ⟨hfiles, hw⟩)
        simp [hfiles, ExtTreeMap.getElem?_eq_none hnot]
    · simp [hg]
  out d := by
    rw [h.out]
    constructor
    · rintro ⟨g, hg, hres, rfl⟩
      exact ⟨g, mem_append_left _ hg, hres, rfl⟩
    · rintro ⟨g, hg, hres, rfl⟩
      refine ⟨g, ?_, hres, rfl⟩
      rcases mem_append.mp hg with hg | hg
      · exact hg
      · by_contra hnot
        exact hin ((h.mem_resolved file).mpr (mem_singleton.mp hg ▸ ⟨hnot, hres⟩))

end Evicting

theorem evicting_noteEvicted (w : PlayerWiring) (files : List Ed2kHash) :
    Evicting w files (w.noteEvicted files) := by
  unfold PlayerWiring.noteEvicted
  induction files using reverseRecOn with
  | nil => exact ⟨rfl, fun _ => by simp, fun _ => by simp⟩
  | append_singleton files file ih =>
    rw [foldl_concat]
    unfold PlayerWiring.noteEvictedFile
    dsimp only
    split
    next hin => exact ih.retract hin
    next hin => exact ih.skip hin

/-! ## §3. What the group then sees. -/

def adverts (view : StateView) : BTreeMap (UserId ×ₗ Ed2kHash) FileAvailability :=
  view.fileAvailability

def setFileAvailability (view : StateView) (user : UserId) (file : Ed2kHash)
    (availability : FileAvailability) : StateView :=
  { view with fileAvailability := (adverts view).insert (lex user file) availability }

def applyAdvert (me : UserId) (view : StateView) : Directive → StateView
  | .mutate (.setFileAvailability file availability) =>
    setFileAvailability view me file availability
  | _ => view

def applyAdverts (me : UserId) (view : StateView) (out : List Directive) : StateView :=
  out.foldl (applyAdvert me) view

def advertises (view : StateView) (user : UserId) (file : Ed2kHash) : Bool :=
  (view.availability user file).any FileAvailability.playable

theorem availability_setFileAvailability (view : StateView) (user other : UserId)
    (file g : Ed2kHash) (availability : FileAvailability) :
    (setFileAvailability view user file availability).availability other g =
      if other = user ∧ g = file then some availability else view.availability other g := by
  show ((adverts view).insert (lex user file) availability)[lex other g]? = _
  rw [getElem?_insert]
  simp only [lex_inj]
  rfl

theorem availability_applyAdverts (me : UserId) (view : StateView) {out : List Directive}
    (hout : ∀ d ∈ out, ∃ file, d = retraction file) (file : Ed2kHash) :
    (applyAdverts me view out).availability me file =
      if retraction file ∈ out then some .missing else view.availability me file := by
  unfold applyAdverts
  induction out using reverseRecOn with
  | nil => simp
  | append_singleton out d ih =>
    obtain ⟨g, rfl⟩ := hout d (by simp)
    rw [foldl_concat]
    show (setFileAvailability _ me g .missing).availability me file = _
    rw [availability_setFileAvailability, ih fun d hd => hout d (mem_append_left _ hd)]
    have heq : retraction file = retraction g ↔ file = g := by simp [retraction]
    by_cases hg : file = g
    · simp [hg]
    · simp [hg, heq]

/-- **Which reports leave no advert behind**: those whose every advertised file the wiring has
resolved in this session. -/
theorem evicted_not_advertised_iff (w : PlayerWiring) (view : StateView) (files : List Ed2kHash) :
    (∀ file ∈ files,
      advertises (applyAdverts w.me view (w.noteEvicted files).2) w.me file = false) ↔
    ∀ file ∈ files, advertises view w.me file → file ∈ w.resolved := by
  have hnoted := evicting_noteEvicted w files
  have havail := availability_applyAdverts w.me view
    fun d hd => (hnoted.out d).mp hd |>.imp fun _ h => h.2.2
  refine forall₂_congr fun file hfile => ?_
  have hmem : retraction file ∈ (w.noteEvicted files).2 ↔ file ∈ w.resolved := by
    rw [hnoted.out]
    constructor
    · rintro ⟨g, _, hres, heq⟩
      cases heq
      exact hres
    · exact fun hres => ⟨file, hfile, hres, rfl⟩
  unfold advertises
  rw [havail file]
  by_cases hres : file ∈ w.resolved
  · simp [hmem, hres, FileAvailability.playable]
  · simp [hmem, hres]

def staleAdvert : StateView := setFileAvailability default "me" 5 .ready

def cachedCopy : FileCache :=
  { retention := .afterWatch, entries := [{ hash := 5, lastAccess := 0 }], archiving := ∅
    watched := ∅ }

/-- The first pass of a session runs before anything is resolved: the copy goes, its advert stays,
and a peer picks this client as a source. -/
theorem stale_advert_survives :
    let env : Env := { blockers := fun _ _ => [], md4 := fun _ => 0, fileName := some }
    let me : PeerInfo := { username := "me", role := .interactive, presence := .present
                           graceUntil := none }
    (Machine.run (Run.step env) (Run.start "me" false)
      [(staleAdvert, .stateAdopted), (staleAdvert, .state [me])]).map (fun s =>
        (s.turns.head?.map (·.out), (cachedCopy.runEviction 1 (fun _ => true) ∅ ∅ ∅).2,
          let r := handle env staleAdvert (.evicted [5]) s.wiring
          (r.2, advertises (applyAdverts "me" staleAdvert r.2) "me" 5,
            (PlayerWiring.new "peer" true).downloadSources
              (applyAdverts "me" staleAdvert r.2) [me] 5))) =
      some (some [.runEviction ∅ ∅ ∅], [5], [], true, ["me"]) := by
  decide +kernel

end DessPlay.Session
