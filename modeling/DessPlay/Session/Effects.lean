/-
  DessPlay.Session.Effects
  **WHAT ONE TURN OF THE WIRING CAN DO** to its record of the loaded file, and what
  it can say about one.

  Most of a turn is `Quiet`; everything else is one constructor of `Effect`.
  `effect_handle` classifies every event, and `verified_handle` says why a copy
  counts as verified.
-/
import DessPlay.Session.Eviction

namespace DessPlay.Session

open BTree DessPlay.Core Option PlayerWiring
open List hiding getElem?_insert insert
open Sync (Mutation)
open Player (PlayerCommand PlayerOutput)

/-! ## §1. What a turn can do. -/

/-- A reaction leaves what `keep` reads of the wiring, and emits none of the directives in
`voice`. -/
structure Keeps {γ : Type} (keep : PlayerWiring → γ) (voice : Directive → Bool) (w : PlayerWiring)
    (r : Reaction) : Prop where
  kept : keep r.1 = keep w
  silent : r.2.filter voice = []

namespace Keeps

variable {γ : Type} {keep : PlayerWiring → γ} {voice : Directive → Bool} {w : PlayerWiring}
  {r : Reaction}

theorem refl (w : PlayerWiring) : Keeps keep voice w (w, []) := ⟨rfl, rfl⟩

theorem trans {w' : PlayerWiring} {out : List Directive} (h : Keeps keep voice w r)
    (h' : Keeps keep voice r.1 (w', out)) : Keeps keep voice w (w', r.2 ++ out) where
  kept := h'.kept.trans h.kept
  silent := by
    rw [filter_append, h.silent]
    exact h'.silent

theorem mono {δ : Type} {keep' : PlayerWiring → δ} {voice' : Directive → Bool}
    (h : Keeps keep voice w r) (hkeep : ∀ w₁ w₂, keep w₁ = keep w₂ → keep' w₁ = keep' w₂)
    (hvoice : ∀ d, voice' d → voice d) : Keeps keep' voice' w r where
  kept := hkeep _ _ h.kept
  silent := filter_eq_nil_iff.mpr fun d hd hd' =>
    filter_eq_nil_iff.mp h.silent d hd (hvoice d hd')

theorem foldl {α : Type} {f : Reaction → α → Reaction}
    (hf : ∀ r x, Keeps keep voice w r → Keeps keep voice w (f r x)) (l : List α)
    (h : Keeps keep voice w r) : Keeps keep voice w (l.foldl f r) := by
  induction l generalizing r with
  | nil => exact h
  | cons x l ih => exact ih (hf r x h)

end Keeps

theorem runStages_append (stages stages' : List (PlayerWiring → Reaction)) (w : PlayerWiring) :
    runStages (stages ++ stages') w =
      ((runStages stages' (runStages stages w).1).1,
        (runStages stages w).2 ++
          (runStages stages' (runStages stages w).1).2) := by
  have hfrom : ∀ (l : List (PlayerWiring → Reaction)) (r : Reaction),
      l.foldl (fun r stage => ((stage r.1).1, r.2 ++ (stage r.1).2)) r =
        ((runStages l r.1).1, r.2 ++ (runStages l r.1).2) := by
    intro l
    unfold runStages
    induction l with
    | nil => intro r; simp
    | cons stage l ih =>
      intro r
      rw [foldl_cons, ih, foldl_cons, ih (_, [] ++ _)]
      simp [append_assoc]
  rw [runStages, foldl_append, hfrom]
  rfl

theorem runStages_singleton (stage : PlayerWiring → Reaction) (w : PlayerWiring) :
    runStages [stage] w = stage w := by
  simp [runStages]

theorem keeps_runStages {γ : Type} {keep : PlayerWiring → γ} {voice : Directive → Bool}
    {stages : List (PlayerWiring → Reaction)}
    (h : ∀ stage ∈ stages, ∀ w, Keeps keep voice w (stage w)) (w : PlayerWiring) :
    Keeps keep voice w (runStages stages w) := by
  induction stages using reverseRecOn with
  | nil => exact .refl w
  | append_singleton stages stage ih =>
    rw [runStages_append, runStages_singleton]
    have hbefore := ih fun s hs => h s (mem_append_left _ hs)
    exact hbefore.trans (h stage (by simp) _)

section Invariants

variable {P : PlayerWiring → Prop}

theorem foldl_wiring {α : Type} {f : Reaction → α → Reaction} (hf : ∀ r x, P r.1 → P (f r x).1)
    (l : List α) {r : Reaction} (h : P r.1) : P (l.foldl f r).1 := by
  induction l generalizing r with
  | nil => exact h
  | cons x l ih => exact ih (hf r x h)

theorem runStages_wiring {stages : List (PlayerWiring → Reaction)} {w : PlayerWiring}
    (hstages : ∀ stage ∈ stages, ∀ w, P w → P (stage w).1) (h : P w) :
    P (runStages stages w).1 := by
  induction stages using reverseRecOn with
  | nil => exact h
  | append_singleton stages stage ih =>
    rw [runStages_append, runStages_singleton]
    exact hstages stage (by simp) _ (ih fun s hs => hstages s (mem_append_left _ hs))

end Invariants

def Directive.voice : Directive → Bool
  | .player (.load _ _ _ _) | .mutate (.setPlaybackPosition _ _) | .mutate (.setUserSeek _ _ _)
  | .reportEof _ => true
  | _ => false

def voices (out : List Directive) : List Directive := out.filter Directive.voice

theorem voices_append (out out' : List Directive) :
    voices (out ++ out') = voices out ++ voices out' :=
  filter_append ..

def Directive.recovers : Directive → Bool
  | .player (.recoverFalseEof _) => true
  | _ => false

def PlayerWiring.memory (w : PlayerWiring) :
    (Option LoadedFile × Option (Ed2kHash × Nat) × BTreeMap Ed2kHash Resolution) ×
      Option (Ed2kHash × Option Nat) × Option (Ed2kHash × Nat) :=
  ((w.loaded, w.lastPosition, w.resolved), w.eofRecovery, w.verifiedPosition)

abbrev Quiet (w : PlayerWiring) (r : Reaction) : Prop :=
  Keeps PlayerWiring.memory (fun d => d.voice || d.recovers) w r

namespace Quiet

variable {w : PlayerWiring} {r : Reaction}

theorem loaded (h : Quiet w r) : r.1.loaded = w.loaded := congrArg (·.1.1) h.kept

theorem lastPosition (h : Quiet w r) : r.1.lastPosition = w.lastPosition :=
  congrArg (·.1.2.1) h.kept

theorem resolved (h : Quiet w r) : r.1.resolved = w.resolved := congrArg (·.1.2.2) h.kept

theorem eofRecovery (h : Quiet w r) : r.1.eofRecovery = w.eofRecovery := congrArg (·.2.1) h.kept

theorem verifiedPosition (h : Quiet w r) : r.1.verifiedPosition = w.verifiedPosition :=
  congrArg (·.2.2) h.kept

theorem voices_eq_nil (h : Quiet w r) : voices r.2 = [] :=
  (h.mono (fun _ _ => id) fun _ hd => by rw [hd, Bool.true_or]).silent

end Quiet

def Directive.prefers : Directive → Bool
  | .mutate (.setSeriesPreference _ _ _ _) => true
  | _ => false

abbrev Impartial (w : PlayerWiring) (r : Reaction) : Prop :=
  Keeps (fun w => (w.me, w.watcherPrefsWritten)) Directive.prefers w r

abbrev Calm (w : PlayerWiring) (r : Reaction) : Prop :=
  Keeps (fun w => (w.memory, w.me, w.watcherPrefsWritten))
    (fun d => (d.voice || d.recovers) || d.prefers) w r

theorem Calm.quiet {w : PlayerWiring} {r : Reaction} (h : Calm w r) : Quiet w r :=
  h.mono (fun _ _ heq => congrArg (·.1) heq) fun _ hd => by rw [hd, Bool.true_or]

theorem Calm.impartial {w : PlayerWiring} {r : Reaction} (h : Calm w r) : Impartial w r :=
  h.mono (fun _ _ heq => congrArg (·.2) heq) fun _ hd => by rw [hd, Bool.or_true]

/-- **Everything a turn can do** to the record, and everything it can say. -/
inductive Effect (view : StateView) (event : Event) (w : PlayerWiring) (r : Reaction) : Prop
  | kept (hloaded : r.1.loaded = w.loaded) (hposition : r.1.lastPosition = w.lastPosition)
      (hsilent : voices r.2 = [])
  | dropped (hloaded : r.1.loaded = none) (hposition : r.1.lastPosition = w.lastPosition)
      (hsilent : voices r.2 = [])
  /-- a loaded partial completed in place -/
  | completed (file : Ed2kHash) (path : String)
      (hbefore : w.loaded = some { file := file, path := path, isPartial := true })
      (hevent : event = .localFile file path true)
      (hloaded : r.1.loaded = some { file := file, path := path, isPartial := false })
      (hposition : r.1.lastPosition = w.lastPosition) (hsilent : voices r.2 = [])
  /-- the loaded file was archived -/
  | moved (l : LoadedFile) (path : String) (hbefore : w.loaded = some l)
      (hloaded : r.1.loaded = some { l with path := path })
      (hposition : r.1.lastPosition = w.lastPosition) (hsilent : voices r.2 = [])
  | loadedVerified (file : Ed2kHash) (path : String)
      (hevent : ∀ f p peers, event ≠ .downloadPlayable f p peers)
      (hloaded : r.1.loaded = some { file := file, path := path, isPartial := false })
      (hresolved : r.1.resolved[file]? = some (.verified path))
      (hposition : r.1.lastPosition = w.lastPosition)
      (hload : voices r.2 = [loadCommand view file path])
  | loadedPartial (file : Ed2kHash) (path : String) (peers : List PeerInfo)
      (hevent : event = .downloadPlayable file path peers)
      (hloaded : r.1.loaded = some { file := file, path := path, isPartial := true })
      (hposition : r.1.lastPosition = w.lastPosition)
      (hload : voices r.2 = [loadCommand view file path])
  | position (file : Ed2kHash) (positionMillis : Nat) (hspeaks : w.speaksForNowPlaying view file)
      (hloaded : r.1.loaded = w.loaded)
      (hposition : r.1.lastPosition = some (file, positionMillis))
      (hvoice : voices r.2 = [.mutate (.setPlaybackPosition positionMillis file)] ∨
        ∃ fromMillis, voices r.2 = [.mutate (.setUserSeek file fromMillis positionMillis),
          .mutate (.setPlaybackPosition positionMillis file)])
  | ended (file : Ed2kHash) (hspeaks : w.speaksForNowPlaying view file)
      (hend : (w.loaded.any fun l => l.isPartial) → w.positionNearEnd view file)
      (hloaded : r.1.loaded = w.loaded) (hposition : r.1.lastPosition = w.lastPosition)
      (hvoice : voices r.2 = [.reportEof file])

theorem Quiet.effect {view : StateView} {event : Event} {w : PlayerWiring} {r : Reaction}
    (h : Quiet w r) : Effect view event w r :=
  .kept h.loaded h.lastPosition h.voices_eq_nil

/-! ## §2. The stages of a new view. -/

section Stages

variable {env : Env} {view : StateView} {peers : List PeerInfo} {w : PlayerWiring}

theorem calm_kickEviction : Calm w (w.kickEviction view) := by
  unfold PlayerWiring.kickEviction
  split
  · exact ⟨rfl, rfl⟩
  · exact .refl w

theorem calm_kickResolves : Calm w (w.kickResolves view) := by
  refine Keeps.foldl (fun r entry h => ?_) _ (.refl w)
  unfold PlayerWiring.kickResolve
  dsimp only
  split
  · exact h
  · split
    · split
      · exact ⟨h.kept, h.silent⟩
      · exact h.trans ⟨rfl, rfl⟩
    · exact h.trans ⟨rfl, rfl⟩

theorem calm_maybeRequestLookup {r : Reaction} {info : FileHashInfo} (h : Calm w r) :
    Calm w (PlayerWiring.maybeRequestLookup view r info) := by
  unfold PlayerWiring.maybeRequestLookup
  dsimp only
  split
  · exact h.trans ⟨rfl, rfl⟩
  · exact h

theorem calm_maybeRequestLookups {files : List FileHashInfo} :
    Calm w (files.foldl (PlayerWiring.maybeRequestLookup view) (w, [])) :=
  Keeps.foldl (fun _ _ h => calm_maybeRequestLookup h) files (.refl w)

theorem calm_requestLookups : Calm w (w.requestLookups view) := calm_maybeRequestLookups

theorem quiet_writeWatcherPrefs : Quiet w (w.writeWatcherPrefs view) := by
  refine Keeps.foldl (fun r entry h => ?_) _ (.refl w)
  unfold PlayerWiring.writeWatcherPref
  dsimp only
  split
  · exact h
  · split
    · exact h
    · exact h.trans ⟨rfl, rfl⟩

theorem calm_maybeCheckSeriesKnown : Calm w (w.maybeCheckSeriesKnown view) := by
  unfold PlayerWiring.maybeCheckSeriesKnown
  repeat' split
  all_goals exact ⟨rfl, rfl⟩

theorem calm_maybeOfferLocalCopies : Calm w (w.maybeOfferLocalCopies env view) := by
  unfold PlayerWiring.maybeOfferLocalCopies
  repeat' split
  all_goals exact ⟨rfl, rfl⟩

theorem calm_reassertPlayback : Calm w (w.reassertPlayback env view peers) := by
  unfold PlayerWiring.reassertPlayback
  dsimp only
  split
  all_goals exact ⟨rfl, rfl⟩

theorem calm_follow : Calm w (w.follow env view peers) := by
  unfold PlayerWiring.follow
  dsimp only
  split
  · split
    · exact .refl w
    · exact ⟨rfl, rfl⟩
  · refine ⟨rfl, ?_⟩
    dsimp only
    split <;> rfl

/-- A stage that loads now-playing from its verified copy, and does nothing else. -/
structure LoadsVerified (view : StateView) (w : PlayerWiring) (file : Ed2kHash) (path : String)
    (r : Reaction) : Prop where
  loaded : r.1.loaded = some { file := file, path := path, isPartial := false }
  lastPosition : r.1.lastPosition = w.lastPosition
  resolved : r.1.resolved = w.resolved
  nowPlaying : view.nowPlaying = some file
  verified : w.resolved[file]? = some (.verified path)
  load : voices r.2 = [loadCommand view file path]

def Settled (view : StateView) (w : PlayerWiring) : Prop :=
  ∀ file path, view.nowPlaying = some file → w.resolved[file]? = some (.verified path) →
    w.holdsVerified file path

theorem loadVerified_cases (view : StateView) (w : PlayerWiring) :
    Quiet w (w.loadVerified view) ∧ Settled view w ∨
      ∃ file path, LoadsVerified view w file path (w.loadVerified view) := by
  unfold PlayerWiring.loadVerified Settled
  split
  next hplaying => exact .inl ⟨.refl w, fun _ _ h => by rw [hplaying] at h; cases h⟩
  next file hplaying =>
    split
    next path hverified =>
      split
      next hholds =>
        refine .inl ⟨.refl w, fun f p hf hp => ?_⟩
        rw [hplaying] at hf
        cases hf
        rw [hverified] at hp
        cases hp
        exact hholds
      · exact .inr ⟨file, path, rfl, rfl, rfl, hplaying, hverified, rfl⟩
    next hnone =>
      refine .inl ⟨.refl w, fun f p hf hp => ?_⟩
      rw [hplaying] at hf
      cases hf
      exact absurd hp (hnone p)

theorem onState_cases (env : Env) (view : StateView) (peers : List PeerInfo) (w : PlayerWiring) :
    Quiet w (w.onState env view peers) ∧ Settled view w ∨
      ∃ file path, LoadsVerified view w file path (w.onState env view peers) := by
  have hsplit : w.onState env view peers = runStages
      ([kickEviction view, kickResolves view,
        requestLookups view, writeWatcherPrefs view,
        maybeCheckSeriesKnown view, maybeOfferLocalCopies env view] ++
       ([loadVerified view] ++
        [reassertPlayback env view peers,
         follow env view peers])) w := rfl
  have hbefore : ∀ w, Quiet w (runStages
      [kickEviction view, kickResolves view,
        requestLookups view, writeWatcherPrefs view,
        maybeCheckSeriesKnown view, maybeOfferLocalCopies env view] w) :=
    keeps_runStages fun stage hstage w => by
      fin_cases hstage
      exacts [calm_kickEviction.quiet, calm_kickResolves.quiet, calm_requestLookups.quiet,
        quiet_writeWatcherPrefs, calm_maybeCheckSeriesKnown.quiet,
        calm_maybeOfferLocalCopies.quiet]
  have hafter : ∀ w, Quiet w (runStages
      [reassertPlayback env view peers, follow env view peers] w) :=
    keeps_runStages fun stage hstage w => by
      fin_cases hstage
      exacts [calm_reassertPlayback.quiet, calm_follow.quiet]
  rw [hsplit, runStages_append, runStages_append]
  specialize hbefore w
  generalize runStages _ w = r at hbefore ⊢
  rw [runStages_singleton]
  have hcases := loadVerified_cases view r.1
  generalize r.1.loadVerified view = q at hcases ⊢
  specialize hafter q.1
  rcases hcases with ⟨hquiet, hsettled⟩ | ⟨file, path, hloads⟩
  · refine .inl ⟨hbefore.trans (hquiet.trans hafter), fun file path hplaying hverified => ?_⟩
    rw [← hbefore.resolved] at hverified
    have hholds := hsettled file path hplaying hverified
    unfold holdsVerified at hholds ⊢
    rwa [hbefore.loaded] at hholds
  · refine .inr ⟨file, path, ?_⟩
    constructor
    · exact hafter.loaded.trans hloads.loaded
    · exact hafter.lastPosition.trans (hloads.lastPosition.trans hbefore.lastPosition)
    · exact hafter.resolved.trans (hloads.resolved.trans hbefore.resolved)
    · exact hloads.nowPlaying
    · rw [← hbefore.resolved]
      exact hloads.verified
    · rw [voices_append, voices_append, hbefore.voices_eq_nil, hloads.load, hafter.voices_eq_nil]
      rfl

end Stages

/-! ## §3. The handlers. -/

section Handlers

variable {env : Env} {view : StateView} {peers : List PeerInfo} {w : PlayerWiring}
  {file : Ed2kHash} {path : String}

theorem effect_onState : Effect view (.state peers) w (w.onState env view peers) := by
  rcases onState_cases env view peers w with ⟨h, _⟩ | ⟨file, path, h⟩
  · exact h.effect
  · refine .loadedVerified file path nofun h.loaded ?_ h.lastPosition h.load
    rw [h.resolved]
    exact h.verified

theorem effect_noteLocalFile {assembledInPlace : Bool} :
    Effect view (.localFile file path assembledInPlace) w
      (w.noteLocalFile file path assembledInPlace) := by
  unfold noteLocalFile
  dsimp only
  split
  next hloaded =>
    split
    next hinPlace =>
      split
      · exact .dropped rfl rfl rfl
      · exact .completed file path hloaded (by rw [hinPlace]) rfl rfl rfl
    · exact .dropped rfl rfl rfl
  · exact .kept rfl rfl rfl

variable {event : Event}

theorem effect_noteEvicted {files : List Ed2kHash} : Effect view event w (w.noteEvicted files) := by
  have h := evicting_noteEvicted w files
  refine .kept (by rw [h.frame]) (by rw [h.frame]) ?_
  refine filter_eq_nil_iff.mpr fun d hd => ?_
  obtain ⟨file, _, _, rfl⟩ := (h.out d).mp hd
  nofun

theorem effect_onResolved {resolution : Resolution} :
    Effect view (.resolved file resolution peers) w
      (w.onResolved env file resolution view peers) := by
  unfold onResolved
  cases resolution with
  | verified path =>
    -- a verified copy is never a stale downgrade
    rw [if_neg (by simp)]
    simp only [↓reduceIte]
    split
    · exact .loadedVerified file path nofun rfl (by simp) rfl rfl
    · exact .kept rfl rfl rfl
  | hashMismatch path =>
    dsimp only
    split <;> exact .kept rfl rfl rfl
  | notFound =>
    dsimp only
    split <;> exact .kept rfl rfl rfl

theorem effect_onArchived : Effect view event w (w.onArchived file path) := by
  cases hloaded : w.loaded with
  | none => exact .kept (by simp [onArchived, hloaded]) rfl rfl
  | some l =>
    by_cases hfile : l.file = file
    · exact .moved l path hloaded (by simp [onArchived, hloaded, hfile]) rfl rfl
    · exact .kept (by simp [onArchived, hloaded, hfile]) rfl rfl

theorem effect_onDownloadPlayable :
    Effect view (.downloadPlayable file path peers) w
      (w.onDownloadPlayable env file path view peers) := by
  unfold onDownloadPlayable
  dsimp only
  split
  · exact .kept rfl rfl rfl
  · split
    · split
      · split
        · exact .kept rfl rfl rfl
        · -- recovery gave up: reload from scratch, or wait for more data
          split
          · split
            · exact .dropped rfl rfl rfl
            · exact .loadedPartial file path peers rfl rfl rfl rfl
          · exact .loadedPartial file path peers rfl rfl rfl rfl
      · exact .kept rfl rfl rfl
    · split
      · split
        · exact .kept rfl rfl rfl
        · exact .loadedPartial file path peers rfl rfl rfl rfl
      · exact .loadedPartial file path peers rfl rfl rfl rfl

theorem quiet_onSeriesKnown {series : Option AniDbSeriesId} {known : Bool} :
    Quiet w (w.onSeriesKnown env file series known view peers) := by
  have hplaceholder :
      (if view.nowPlaying = some file then [Directive.renderPlaceholder file] else []).filter
        (fun d => d.voice || d.recovers) = [] := by
    split <;> rfl
  unfold onSeriesKnown
  dsimp only
  split
  · exact ⟨rfl, rfl⟩
  · split
    · exact .refl w
    · split
      · exact .refl w
      · split
        · exact ⟨rfl, hplaceholder⟩
        · split
          · exact .refl w
          next entry create _ =>
            refine ⟨rfl, ?_⟩
            rw [filter_append, filter_append, hplaceholder]
            cases create <;> rfl

theorem quiet_onCopyOfferClosed : Quiet w (w.onCopyOfferClosed env file view peers) := by
  unfold onCopyOfferClosed
  dsimp only
  split
  · exact ⟨quiet_onSeriesKnown.kept, quiet_onSeriesKnown.silent⟩
  · exact ⟨rfl, rfl⟩

theorem eq_of_adoptDraggedFile {d : Directive} (h : w.adoptDraggedFile env path view = some d) :
    ∃ file series, d = .adoptDraggedFile file path series := by
  unfold adoptDraggedFile at h
  obtain ⟨file, _, h⟩ := bind_eq_some_iff.mp h
  split at h
  · cases h
  · obtain ⟨want, _, h⟩ := bind_eq_some_iff.mp h
    obtain ⟨got, _, h⟩ := bind_eq_some_iff.mp h
    split at h
    · cases h
      exact ⟨_, _, rfl⟩
    · cases h

variable {positionMillis : Nat}

theorem quiet_maybeRecordWatched : Quiet w (w.maybeRecordWatched view positionMillis) := by
  unfold maybeRecordWatched
  repeat' split
  all_goals exact ⟨rfl, rfl⟩

theorem onPositionTick_stale (h : ¬w.speaksForNowPlaying view file) :
    w.onPositionTick file positionMillis view = (w, []) := by
  unfold onPositionTick
  exact if_pos (by simpa using h)

theorem onPositionTick_accepted (positionMillis : Nat) (h : w.speaksForNowPlaying view file) :
    ∃ w' : PlayerWiring, w'.loaded = w.loaded ∧ w'.resolved = w.resolved ∧
      w'.pendingResolve = w.pendingResolve ∧ w'.lastPosition = some (file, positionMillis) ∧
      w.onPositionTick file positionMillis view =
        ((w'.maybeRecordWatched view positionMillis).1,
          .mutate (.setPlaybackPosition positionMillis file) ::
            (w'.maybeRecordWatched view positionMillis).2) := by
  unfold onPositionTick
  rw [if_neg (by simpa using h)]
  extract_lets w₁ w₂ w₃ r
  have hsettled : w₂.loaded = w.loaded ∧ w₂.resolved = w.resolved ∧
      w₂.pendingResolve = w.pendingResolve ∧ w₂.lastPosition = some (file, positionMillis) := by
    unfold w₂
    split <;> exact ⟨rfl, rfl, rfl, rfl⟩
  have hkept : w₃.loaded = w.loaded ∧ w₃.resolved = w.resolved ∧
      w₃.pendingResolve = w.pendingResolve ∧ w₃.lastPosition = some (file, positionMillis) := by
    unfold w₃
    repeat' split
    all_goals exact hsettled
  exact ⟨w₃, hkept.1, hkept.2.1, hkept.2.2.1, hkept.2.2.2, rfl⟩

theorem effect_onPositionTick :
    Effect view event w (w.onPositionTick file positionMillis view) := by
  by_cases hspeaks : w.speaksForNowPlaying view file
  · obtain ⟨w', hloaded, _, _, hposition, heq⟩ :=
      onPositionTick_accepted positionMillis hspeaks
    have hrecord : Quiet w' (w'.maybeRecordWatched view positionMillis) := quiet_maybeRecordWatched
    rw [heq]
    refine .position file positionMillis hspeaks (hrecord.loaded.trans hloaded)
      (hrecord.lastPosition.trans hposition) (.inl ?_)
    show voices ([_] ++ (w'.maybeRecordWatched view positionMillis).2) = _
    rw [voices_append, hrecord.voices_eq_nil]
    rfl
  · rw [onPositionTick_stale hspeaks]
    exact .kept rfl rfl rfl

theorem effect_onEof : Effect view event w (w.onEof file view) := by
  unfold onEof
  split
  · exact .kept rfl rfl rfl
  next hspeaks =>
    split
    · exact .kept rfl rfl rfl
    next hend =>
      refine .ended file (by simpa using hspeaks) (fun hsparse => ?_) rfl rfl rfl
      simpa [hsparse] using hend

theorem effect_onLoadFailed : Effect view event w (w.onLoadFailed file view) := by
  unfold onLoadFailed
  dsimp only
  by_cases hloaded : w.loaded.any fun l => l.file = file
  · simp only [hloaded, ↓reduceIte]
    repeat' split
    all_goals exact .dropped rfl rfl rfl
  · simp only [hloaded, Bool.false_eq_true, ↓reduceIte]
    repeat' split
    all_goals exact .kept rfl rfl rfl

theorem effect_onPlayer {output : PlayerOutput} :
    Effect view event w (w.onPlayer env output view) := by
  cases output with
  | userPaused => exact .kept rfl rfl rfl
  | graceRefused refusal =>
    refine .kept rfl rfl ?_
    show voices (w.grace.toList.map _) = []
    cases w.grace <;> rfl
  | userUnpaused => exact .kept rfl rfl rfl
  | userSeeked fromMillis toMillis =>
    unfold onPlayer
    dsimp only
    split
    · exact .kept rfl rfl rfl
    next file hfile =>
      obtain ⟨hplaying, hholds⟩ := filter_eq_some_iff.mp hfile
      refine .position file toMillis ?_ rfl rfl (.inr ⟨fromMillis, rfl⟩)
      simp [speaksForNowPlaying, hplaying, hholds]
  | positionTick file positionMillis => exact effect_onPositionTick
  | durationKnown file durationMillis =>
    refine .kept rfl rfl ?_
    dsimp only [onPlayer]
    split <;> rfl
  | subtitleLine text speaker positionMillis => exact .kept rfl rfl rfl
  | eof file => exact effect_onEof
  | loadFailed file => exact effect_onLoadFailed
  | pathObserved path =>
    refine .kept rfl rfl ?_
    show voices (w.adoptDraggedFile env path view).toList = []
    cases hadopt : w.adoptDraggedFile env path view with
    | none => rfl
    | some d =>
      obtain ⟨file, series, rfl⟩ := eq_of_adoptDraggedFile hadopt
      rfl
  | fatalCrash => exact .kept rfl rfl rfl
  | gaveUp => exact .kept rfl rfl rfl

/-- **One turn.** -/
theorem effect_handle (env : Env) (view : StateView) (event : Event) (w : PlayerWiring) :
    Effect view event w (handle env view event w) := by
  cases event with
  | stateAdopted => exact .kept rfl rfl rfl
  | state peers => exact effect_onState
  | localFile file path assembledInPlace => exact effect_noteLocalFile
  | evicted files => exact effect_noteEvicted
  | resolved file resolution peers => exact effect_onResolved
  | archived file path => exact effect_onArchived
  | downloadPlayable file path peers => exact effect_onDownloadPlayable
  | player output => exact effect_onPlayer
  | seriesKnown file series known peers => exact quiet_onSeriesKnown.effect
  | copyOfferShown file => exact .kept rfl rfl rfl
  | copyOfferClosed file peers => exact quiet_onCopyOfferClosed.effect
  | libraryIndexed files => exact calm_maybeRequestLookups.quiet.effect
  | forgetLastSynced => exact .kept rfl rfl rfl

end Handlers

/-! ## §4. What is known of the files. -/

def Event.verifies (file : Ed2kHash) (path : String) : Event → Bool
  | .resolved f (.verified p) _ | .localFile f p _ | .archived f p => f = file && p = path
  | _ => false

section Verified

variable {env : Env} {view : StateView} {peers : List PeerInfo} {w : PlayerWiring}
  {file g : Ed2kHash} {path : String}

theorem resolved_onResolved {resolution : Resolution} :
    (w.onResolved env file resolution view peers).1.resolved = w.resolved ∨
      (w.onResolved env file resolution view peers).1.resolved =
        w.resolved.insert file resolution := by
  unfold onResolved
  cases resolution with
  | verified path =>
    rw [if_neg (by simp)]
    simp only [↓reduceIte]
    split <;> exact .inr rfl
  | hashMismatch path =>
    dsimp only
    split
    · exact .inl rfl
    · exact .inr rfl
  | notFound =>
    dsimp only
    split
    · exact .inl rfl
    · exact .inr rfl

theorem resolved_onDownloadPlayable :
    (w.onDownloadPlayable env file path view peers).1.resolved = w.resolved := by
  unfold onDownloadPlayable onDownloadPlayable.issue
  dsimp only
  repeat' split
  all_goals rfl

theorem resolved_onPositionTick {positionMillis : Nat} :
    (w.onPositionTick file positionMillis view).1.resolved = w.resolved := by
  by_cases hspeaks : w.speaksForNowPlaying view file
  · obtain ⟨w', _, hresolved, _, _, heq⟩ :=
      onPositionTick_accepted positionMillis hspeaks
    rw [heq]
    exact quiet_maybeRecordWatched.resolved.trans hresolved
  · rw [onPositionTick_stale hspeaks]

theorem resolved_onLoadFailed (file : Ed2kHash) (view : StateView) (w : PlayerWiring) :
    (w.onLoadFailed file view).1.resolved = w.resolved ∨
      (w.onLoadFailed file view).1.resolved = w.resolved.erase file := by
  unfold onLoadFailed
  dsimp only
  split
  · left
    split <;> rfl
  · right
    repeat' split
    all_goals rfl

theorem resolved_onPlayer {output : PlayerOutput} (resolution : Resolution)
    (h : (w.onPlayer env output view).1.resolved[g]? = some resolution) :
    w.resolved[g]? = some resolution := by
  cases output with
  | userSeeked fromMillis toMillis =>
    unfold onPlayer at h
    dsimp only at h
    split at h <;> exact h
  | positionTick file positionMillis => rwa [← resolved_onPositionTick]
  | eof file =>
    unfold onPlayer onEof at h
    dsimp only at h
    repeat' split at h
    all_goals exact h
  | loadFailed file =>
    rcases resolved_onLoadFailed file view w with heq | heq
    · rwa [← heq]
    · have h' : (w.resolved.erase file)[g]? = some resolution := heq ▸ h
      rw [getElem?_erase] at h'
      split at h'
      · cases h'
      · exact h'
  | _ => exact h

theorem verified_insert {m : BTreeMap Ed2kHash Resolution} {resolution : Resolution}
    (h : (m.insert file resolution)[g]? = some (.verified path)) :
    m[g]? = some (.verified path) ∨ file = g ∧ resolution = .verified path := by
  rw [getElem?_insert] at h
  split at h
  next heq => exact .inr ⟨heq.symm, Option.some.inj h⟩
  · exact .inl h

theorem verified_handle {event : Event}
    (h : (handle env view event w).1.resolved[g]? = some (.verified path)) :
    w.resolved[g]? = some (.verified path) ∨ event.verifies g path := by
  cases event with
  | stateAdopted => exact .inl h
  | state peers =>
    rcases onState_cases env view peers w with ⟨hq, _⟩ | ⟨_, _, hq⟩ <;>
      exact .inl (hq.resolved ▸ h)
  | localFile file p assembledInPlace =>
    have hinsert : (w.resolved.insert file (.verified p))[g]? = some (.verified path) := by
      rw [← h]
      dsimp only [handle, noteLocalFile]
      repeat' split
      all_goals rfl
    refine (verified_insert hinsert).imp_right ?_
    rintro ⟨rfl, heq⟩
    cases heq
    simp [Event.verifies]
  | evicted files =>
    have hres := (evicting_noteEvicted w files).resolved g
    rw [show (w.noteEvicted files).1.resolved[g]? = _ from h] at hres
    split at hres
    · cases hres
    · exact .inl hres.symm
  | resolved file resolution peers =>
    have hcases : (w.onResolved env file resolution view peers).1.resolved = w.resolved ∨
        (w.onResolved env file resolution view peers).1.resolved =
          w.resolved.insert file resolution := resolved_onResolved
    rcases hcases with heq | heq
    · exact .inl (heq ▸ h)
    · have hinsert : (w.resolved.insert file resolution)[g]? = some (.verified path) := heq ▸ h
      refine (verified_insert hinsert).imp_right ?_
      rintro ⟨rfl, rfl⟩
      simp [Event.verifies]
  | archived file p =>
    refine (verified_insert (m := w.resolved) h).imp_right ?_
    rintro ⟨rfl, heq⟩
    cases heq
    simp [Event.verifies]
  | downloadPlayable file p peers => exact .inl (resolved_onDownloadPlayable ▸ h)
  | player output => exact .inl (resolved_onPlayer _ h)
  | seriesKnown file series known peers => exact .inl (quiet_onSeriesKnown.resolved ▸ h)
  | copyOfferShown file => exact .inl h
  | copyOfferClosed file peers => exact .inl (quiet_onCopyOfferClosed.resolved ▸ h)
  | libraryIndexed files => exact .inl (calm_maybeRequestLookups.quiet.resolved ▸ h)
  | forgetLastSynced => exact .inl h

end Verified

end DessPlay.Session
