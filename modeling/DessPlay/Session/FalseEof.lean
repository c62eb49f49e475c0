/-
  DessPlay.Session.FalseEof
  **A REJECTED END OF FILE IS NEITHER A SPIN NOR A DEAD END.**

  A sparse partial can end anywhere.  The wiring answers such an end with a
  recovery, and remembers it in one optional pair (`eofRecovery`) that six handlers
  set, keep or clear.  As for the record of the loaded file, the history says what
  the pair must be: a rejection stays outstanding until its file ticks, is loaded or
  is offered again.
-/
import DessPlay.Session.EpisodeEnd

namespace DessPlay.Session

open BTree DessPlay.Core Option Machine PlayerWiring
open List hiding getElem?_insert insert
open Player (PlayerCommand PlayerOutput)
open Std (ExtTreeMap)

/-! ## §1. What the history says about a recovery. -/

def Turn.rejects (t : Turn) (file : Ed2kHash) : Prop :=
  t.event = .player (.eof file) ∧ ∃ seek, .player (.recoverFalseEof seek) ∈ t.out

def Turn.seeks (t : Turn) (file : Ed2kHash) : Prop :=
  t.event = .player (.eof file) ∧ ∃ target, .player (.recoverFalseEof (some target)) ∈ t.out

def Turn.resumes (t : Turn) (file : Ed2kHash) : Prop :=
  (∃ positionMillis, t.event = .player (.positionTick file positionMillis) ∧
    .mutate (.setPlaybackPosition positionMillis file) ∈ t.out) ∨
  (∃ path, t.loads file path) ∨ ∃ path, t.offersPartial file path

def Outstanding (happens : Turn → Prop) (turns : List Turn) (file : Ed2kHash) : Prop :=
  ∃ since t past, turns = since ++ t :: past ∧ happens t ∧ ∀ u ∈ since, ¬u.resumes file

theorem outstanding_cons {happens : Turn → Prop} {turns : List Turn} {u : Turn} {file : Ed2kHash} :
    Outstanding happens (u :: turns) file ↔
      happens u ∨ ¬u.resumes file ∧ Outstanding happens turns file := by
  constructor
  · rintro ⟨since, t, past, hsplit, ht, hsince⟩
    cases since with
    | nil =>
      cases hsplit
      exact .inl ht
    | cons v since =>
      obtain ⟨rfl, rfl⟩ := cons.inj hsplit
      obtain ⟨hv, hsince⟩ := forall_mem_cons.mp hsince
      exact .inr ⟨hv, since, t, past, rfl, ht, hsince⟩
  · rintro (hu | ⟨hu, since, t, past, rfl, ht, hsince⟩)
    · exact ⟨[], u, turns, rfl, hu, fun _ hv => absurd hv not_mem_nil⟩
    · exact ⟨u :: since, t, past, rfl, ht, forall_mem_cons.mpr ⟨hu, hsince⟩⟩

/-! ## §2. What a turn can do to a recovery. -/

def recoverySeek (w : PlayerWiring) (file : Ed2kHash) : Option Nat :=
  ((w.verifiedPosition.filter fun p => p.1 = file).map (·.2)).filter fun target =>
    (w.eofRecovery.filter fun r => r.1 = file).bind (·.2) ≠ some target

def recoveryIssued (w : PlayerWiring) (file : Ed2kHash) : Option Nat :=
  (recoverySeek w file).or ((w.eofRecovery.filter fun r => r.1 = file).bind (·.2))

/-- **Everything a turn can do to a recovery.** -/
inductive Recovery (view : StateView) (event : Event) (w : PlayerWiring) (r : Reaction) : Prop
  /-- nothing, and no other file is loaded -/
  | steady (hrecovery : r.1.eofRecovery = w.eofRecovery)
      (hposition : r.1.verifiedPosition = w.verifiedPosition)
      (hloaded : ∀ l, r.1.loaded = some l → ∃ l₀, w.loaded = some l₀ ∧ l₀.file = l.file)
      (hsilent : ∀ file, ¬Turn.rejects ⟨view, event, r.2⟩ file)
  | dropped (hloaded : r.1.loaded = none) (hsilent : ∀ file, ¬Turn.rejects ⟨view, event, r.2⟩ file)
  /-- the loaded file is resumed -/
  | resumed (file : Ed2kHash) (hresumes : Turn.resumes ⟨view, event, r.2⟩ file)
      (hloaded : ∀ l, r.1.loaded = some l → l.file = file)
      (hsilent : ∀ file, ¬Turn.rejects ⟨view, event, r.2⟩ file)
  | rejected (file : Ed2kHash) (l : LoadedFile) (hevent : event = .player (.eof file))
      (hloaded : w.loaded = some l) (hfile : l.file = file)
      (hwiring : r.1 = { w with eofRecovery := some (file, recoveryIssued w file) })
      (hout : r.2 = [.player (.recoverFalseEof (recoverySeek w file))])

section Handlers

variable {env : Env} {view : StateView} {peers : List PeerInfo} {w : PlayerWiring}
  {r : Reaction} {file : Ed2kHash} {path : String}

theorem not_rejects {event : Event} {out : List Directive} (h : ∀ file, event ≠ .player (.eof file))
    (file : Ed2kHash) : ¬Turn.rejects ⟨view, event, out⟩ file := fun hrejects => h file hrejects.1

theorem Recovery.of_quiet {event : Event} (h : Quiet w r)
    (hevent : ∀ file, event ≠ .player (.eof file)) : Recovery view event w r :=
  .steady h.eofRecovery h.verifiedPosition (fun l hl => ⟨l, h.loaded ▸ hl, rfl⟩)
    (not_rejects hevent)

theorem Recovery.of_load {event : Event} {isPartial : Bool} (path : String)
    (hloaded : r.1.loaded = some { file := file, path := path, isPartial := isPartial })
    (hload : voices r.2 = [loadCommand view file path])
    (hevent : ∀ file, event ≠ .player (.eof file)) : Recovery view event w r := by
  have hloads : Turn.loads ⟨view, event, r.2⟩ file path :=
    loads_iff.mpr ⟨_, _, hload ▸ mem_singleton_self _⟩
  refine .resumed file (.inr (.inl ⟨path, hloads⟩)) (fun l hl => ?_) (not_rejects hevent)
  rw [hloaded] at hl
  cases hl
  rfl

theorem recovery_onState : Recovery view (.state peers) w (w.onState env view peers) := by
  rcases onState_cases env view peers w with ⟨h, _⟩ | ⟨file, path, h⟩
  · exact .of_quiet h nofun
  · exact .of_load path h.loaded h.load nofun

theorem recovery_noteLocalFile {assembledInPlace : Bool} :
    Recovery view (.localFile file path assembledInPlace) w
      (w.noteLocalFile file path assembledInPlace) := by
  unfold noteLocalFile
  dsimp only
  split
  next hloaded =>
    split
    · split
      · exact .dropped rfl (not_rejects nofun)
      · refine .steady rfl rfl (fun l hl => ⟨_, hloaded, ?_⟩) (not_rejects nofun)
        cases hl
        rfl
    · exact .dropped rfl (not_rejects nofun)
  · exact .steady rfl rfl (fun l hl => ⟨l, hl, rfl⟩) (not_rejects nofun)

theorem recovery_noteEvicted {files : List Ed2kHash} :
    Recovery view (.evicted files) w (w.noteEvicted files) := by
  have h := evicting_noteEvicted w files
  refine .steady (by rw [h.frame]) (by rw [h.frame]) (fun l hl => ⟨l, ?_, rfl⟩) (not_rejects nofun)
  rw [h.frame] at hl
  exact hl

theorem recovery_onResolved {resolution : Resolution} :
    Recovery view (.resolved file resolution peers) w
      (w.onResolved env file resolution view peers) := by
  unfold onResolved
  cases resolution with
  | verified path =>
    rw [if_neg (by simp)]
    simp only [↓reduceIte]
    split
    · exact .of_load path rfl rfl nofun
    · exact .steady rfl rfl (fun l hl => ⟨l, hl, rfl⟩) (not_rejects nofun)
  | hashMismatch path =>
    dsimp only
    split <;> exact .steady rfl rfl (fun l hl => ⟨l, hl, rfl⟩) (not_rejects nofun)
  | notFound =>
    dsimp only
    split <;> exact .steady rfl rfl (fun l hl => ⟨l, hl, rfl⟩) (not_rejects nofun)

theorem recovery_onArchived : Recovery view (.archived file path) w (w.onArchived file path) := by
  refine .steady rfl rfl (fun l hl => ?_) (not_rejects nofun)
  obtain ⟨l₀, hl₀, rfl⟩ := map_eq_some_iff.mp hl
  refine ⟨l₀, hl₀, ?_⟩
  split <;> rfl

theorem recovery_onDownloadPlayable :
    Recovery view (.downloadPlayable file path peers) w
      (w.onDownloadPlayable env file path view peers) := by
  have hresumes {out : List Directive} :
      Turn.resumes ⟨view, .downloadPlayable file path peers, out⟩ file :=
    .inr (.inr ⟨path, peers, rfl⟩)
  have hsilent {out : List Directive} (f : Ed2kHash) :
      ¬Turn.rejects ⟨view, .downloadPlayable file path peers, out⟩ f :=
    not_rejects (fun _ h => by cases h) f
  have hnothing {w' : PlayerWiring} {out : List Directive} (hloaded : w'.loaded = none) :
      Recovery view (.downloadPlayable file path peers) w (w', out) := .dropped hloaded hsilent
  have hissued {w' : PlayerWiring} {out : List Directive}
      (hloaded : w'.loaded = some { file := file, path := path, isPartial := true }) :
      Recovery view (.downloadPlayable file path peers) w (w', out) := by
    refine .resumed file hresumes (fun l hl => ?_) hsilent
    rw [hloaded] at hl
    cases hl
    rfl
  have hkept : Recovery view (.downloadPlayable file path peers) w (w, []) :=
    .steady rfl rfl (fun l hl => ⟨l, hl, rfl⟩) hsilent
  unfold onDownloadPlayable
  dsimp only
  split
  · exact hkept
  · split
    next hloaded =>
      split
      · split
        · refine .resumed file hresumes (fun l hl => ?_) hsilent
          rw [show w.loaded = some l from hl] at hloaded
          simpa using hloaded
        · split
          · split
            · exact hnothing rfl
            · exact hissued rfl
          · exact hissued rfl
      · exact hkept
    · split
      · split
        · exact hkept
        · exact hissued rfl
      · exact hissued rfl

theorem loaded_of_speaks (h : w.speaksForNowPlaying view file) :
    ∃ l, w.loaded = some l ∧ l.file = file := by
  obtain ⟨hplaying, hholds⟩ := Bool.and_eq_true_iff.mp h
  have hplaying : view.nowPlaying = some file := of_decide_eq_true hplaying
  cases hloaded : w.loaded with
  | none => simp [holdsNowPlaying, hloaded] at hholds
  | some l =>
    refine ⟨l, rfl, ?_⟩
    simpa [holdsNowPlaying, hloaded, hplaying, eq_comm] using hholds

theorem recovery_onPositionTick {positionMillis : Nat} :
    Recovery view (.player (.positionTick file positionMillis)) w
      (w.onPositionTick file positionMillis view) := by
  by_cases hspeaks : w.speaksForNowPlaying view file
  · obtain ⟨l, hloaded, hfile⟩ := loaded_of_speaks hspeaks
    obtain ⟨w', hkept, _, _, _, heq⟩ := onPositionTick_accepted positionMillis hspeaks
    rw [heq]
    refine .resumed file (.inl ⟨positionMillis, rfl, mem_cons_self⟩) (fun l' hl' => ?_)
      (not_rejects nofun)
    rw [quiet_maybeRecordWatched.loaded, hkept, hloaded] at hl'
    cases hl'
    exact hfile
  · rw [onPositionTick_stale hspeaks]
    exact .steady rfl rfl (fun l hl => ⟨l, hl, rfl⟩) (not_rejects nofun)

theorem recovery_onEof : Recovery view (.player (.eof file)) w (w.onEof file view) := by
  unfold onEof
  split
  · refine .steady rfl rfl (fun l hl => ⟨l, hl, rfl⟩) fun f hrejects => ?_
    obtain ⟨_, _, hmem⟩ := hrejects
    exact absurd hmem not_mem_nil
  next hspeaks =>
    have hspeaks : w.speaksForNowPlaying view file := by simpa using hspeaks
    obtain ⟨l, hloaded, hfile⟩ := loaded_of_speaks hspeaks
    split
    · exact .rejected file l rfl hloaded hfile rfl rfl
    · refine .steady rfl rfl (fun l hl => ⟨l, hl, rfl⟩) fun f hrejects => ?_
      obtain ⟨_, seek, hmem⟩ := hrejects
      cases mem_singleton.mp hmem

theorem recovery_onLoadFailed :
    Recovery view (.player (.loadFailed file)) w (w.onLoadFailed file view) := by
  unfold onLoadFailed
  dsimp only
  by_cases hloaded : w.loaded.any fun l => l.file = file
  · simp only [hloaded, ↓reduceIte]
    repeat' split
    all_goals exact .dropped rfl (not_rejects nofun)
  · simp only [hloaded, Bool.false_eq_true, ↓reduceIte]
    repeat' split
    all_goals exact .steady rfl rfl (fun l hl => ⟨l, hl, rfl⟩) (not_rejects nofun)

theorem recovery_onPlayer {output : PlayerOutput} :
    Recovery view (.player output) w (w.onPlayer env output view) := by
  cases output with
  | userSeeked fromMillis toMillis =>
    unfold onPlayer
    dsimp only
    split <;> exact .steady rfl rfl (fun l hl => ⟨l, hl, rfl⟩) (not_rejects nofun)
  | positionTick file positionMillis => exact recovery_onPositionTick
  | eof file => exact recovery_onEof
  | loadFailed file => exact recovery_onLoadFailed
  | _ => exact .steady rfl rfl (fun l hl => ⟨l, hl, rfl⟩) (not_rejects nofun)

/-- **One turn.** -/
theorem recovery_handle (env : Env) (view : StateView) (event : Event) (w : PlayerWiring) :
    Recovery view event w (handle env view event w) := by
  cases event with
  | state peers => exact recovery_onState
  | localFile file path assembledInPlace => exact recovery_noteLocalFile
  | evicted files => exact recovery_noteEvicted
  | resolved file resolution peers => exact recovery_onResolved
  | archived file path => exact recovery_onArchived
  | downloadPlayable file path peers => exact recovery_onDownloadPlayable
  | player output => exact recovery_onPlayer
  | seriesKnown file series known peers => exact .of_quiet quiet_onSeriesKnown nofun
  | copyOfferClosed file peers => exact .of_quiet quiet_onCopyOfferClosed nofun
  | libraryIndexed files => exact .of_quiet calm_maybeRequestLookups.quiet nofun
  | _ => exact .steady rfl rfl (fun l hl => ⟨l, hl, rfl⟩) (not_rejects nofun)

end Handlers

/-! ## §3. No spin. -/

/-- The wiring remembers every outstanding rejection of the loaded file, and the seek it spent on
it. -/
structure Parked (s : Run) : Prop where
  rejection : ∀ l, s.wiring.loaded = some l → Outstanding (·.rejects l.file) s.turns l.file →
    ∃ issued, s.wiring.eofRecovery = some (l.file, issued)
  seek : ∀ l, s.wiring.loaded = some l → Outstanding (·.seeks l.file) s.turns l.file →
    ∃ target, s.wiring.eofRecovery = some (l.file, some target) ∧
      s.wiring.verifiedPosition = some (l.file, target)

section Spin

variable {env : Env} {view : StateView} {w : PlayerWiring} {s s' : Run} {file : Ed2kHash}
  {target : Nat}

theorem Turn.seeks.rejects {t : Turn} (h : t.seeks file) : t.rejects file := by
  obtain ⟨hevent, target, hmem⟩ := h
  exact ⟨hevent, some target, hmem⟩

theorem verifiedPosition_of_seek (h : recoverySeek w file = some target) :
    w.verifiedPosition = some (file, target) := by
  obtain ⟨htarget, _⟩ := filter_eq_some_iff.mp h
  obtain ⟨p, hp, rfl⟩ := map_eq_some_iff.mp htarget
  obtain ⟨hp, hfile⟩ := filter_eq_some_iff.mp hp
  rw [hp, ← of_decide_eq_true hfile]

theorem recoverySeek_spent (hrecovery : w.eofRecovery = some (file, some target))
    (hposition : w.verifiedPosition = some (file, target)) :
    recoverySeek w file = none ∧ recoveryIssued w file = some target := by
  have hissued : (w.eofRecovery.filter fun r => r.1 = file).bind (·.2) = some target := by
    simp [hrecovery, Option.filter]
  have hseek : recoverySeek w file = none := by
    simp only [recoverySeek, hissued]
    simp [hposition, Option.filter]
  rw [recoveryIssued, hseek, hissued]
  exact ⟨rfl, rfl⟩

/-- **One turn.** -/
theorem Parked.step {input : StateView × Event} (h : Parked s)
    (hs : Run.step env s input = some s') : Parked s' := by
  obtain ⟨view, event⟩ := input
  cases hs
  have hrecovery := recovery_handle env view event s.wiring
  dsimp only
  generalize handle env view event s.wiring = r at hrecovery ⊢
  cases hrecovery with
  | steady hrecovery hposition hloaded hsilent =>
    constructor
    · intro l hl hout
      obtain ⟨l₀, hl₀, hfile⟩ := hloaded l hl
      rcases outstanding_cons.mp hout with hnow | ⟨_, hold⟩
      · exact absurd hnow (hsilent _)
      · rw [hrecovery, ← hfile]
        exact h.rejection l₀ hl₀ (hfile ▸ hold)
    · intro l hl hout
      obtain ⟨l₀, hl₀, hfile⟩ := hloaded l hl
      rcases outstanding_cons.mp hout with hnow | ⟨_, hold⟩
      · exact absurd hnow.rejects (hsilent _)
      · rw [hrecovery, hposition, ← hfile]
        exact h.seek l₀ hl₀ (hfile ▸ hold)
  | dropped hloaded _ =>
    constructor <;> intro l hl
    all_goals
      rw [hloaded] at hl
      cases hl
  | resumed file hresumes hloaded hsilent =>
    constructor <;> intro l hl hout
    all_goals
      obtain rfl := hloaded l hl
      rcases outstanding_cons.mp hout with hnow | ⟨hopen, _⟩
    · exact absurd hnow (hsilent _)
    · exact absurd hresumes hopen
    · exact absurd hnow.rejects (hsilent _)
    · exact absurd hresumes hopen
  | rejected file l₀ hevent hloaded hfile hwiring hout =>
    constructor <;> intro l hl houtstanding
    all_goals
      rw [hwiring] at hl ⊢
      obtain rfl : l₀ = l := Option.some.inj (hloaded.symm.trans hl)
      subst hfile
    · exact ⟨_, rfl⟩
    · rcases outstanding_cons.mp houtstanding with ⟨_, target, hmem⟩ | ⟨_, hold⟩
      · -- this very end spent the seek
        have hseek : recoverySeek s.wiring l₀.file = some target := by
          rw [show (Turn.out _) = r.2 from rfl, hout] at hmem
          simpa using (mem_singleton.mp hmem).symm
        have hposition : s.wiring.verifiedPosition = some (l₀.file, target) :=
          verifiedPosition_of_seek hseek
        refine ⟨target, ?_, hposition⟩
        simp [recoveryIssued, hseek]
      · -- it was spent before, and this end only re-arms
        obtain ⟨target, hrecovery, hposition⟩ := h.seek l₀ hloaded hold
        refine ⟨target, ?_, hposition⟩
        simp [(recoverySeek_spent hrecovery hposition).2]

theorem parked_of_reach {me : UserId} {autoDownload : Bool}
    (hs : Reach (Run.step env) anyStep (Run.start me autoDownload) s) : Parked s :=
  hs.invariant ⟨nofun, nofun⟩ fun _ _ _ h _ hstep => h.step hstep

theorem Parked.not_outstanding (h : Parked s) (hmem : .player (.recoverFalseEof (some target)) ∈
      (handle env view (.player (.eof file)) s.wiring).2) :
    ¬Outstanding (·.seeks file) s.turns file := by
  intro hout
  have hrecovery := recovery_handle env view (.player (.eof file)) s.wiring
  have hrejects : Turn.rejects ⟨view, .player (.eof file),
      (handle env view (.player (.eof file)) s.wiring).2⟩ file := ⟨rfl, _, hmem⟩
  cases hrecovery with
  | steady _ _ _ hsilent => exact hsilent file hrejects
  | dropped _ hsilent => exact hsilent file hrejects
  | resumed _ _ _ hsilent => exact hsilent file hrejects
  | rejected f l hevent hloaded hfile _ hseek =>
    cases hevent
    subst hfile
    obtain ⟨spent, hrecovery, hposition⟩ := h.seek l hloaded hout
    rw [hseek, (recoverySeek_spent hrecovery hposition).1] at hmem
    cases mem_singleton.mp hmem

end Spin

/-! ## §4. No dead end. -/

structure Armed (file : Ed2kHash) (w : PlayerWiring) : Prop where
  verified : ∃ path, w.resolved[file]? = some (.verified path)
  settled : file ∉ w.pendingResolve

/-- The event does not take the file's copy away: it neither reports it as evicted nor as
impossible to open. -/
def Event.spares (file : Ed2kHash) (event : Event) : Prop :=
  (∀ files, event = .evicted files → file ∉ files) ∧ event ≠ .player (.loadFailed file)

section DeadEnd

variable {env : Env} {view : StateView} {peers : List PeerInfo} {w : PlayerWiring} {s s' : Run}
  {file : Ed2kHash} {path : String}

theorem Armed.mem_resolved (h : Armed file w) : file ∈ w.resolved := by
  obtain ⟨path, hpath⟩ := h.verified
  rw [ExtTreeMap.mem_iff_isSome_getElem?, hpath]
  rfl

theorem Armed.congr {w' : PlayerWiring} (h : Armed file w) (hresolved : w'.resolved = w.resolved)
    (hpending : w'.pendingResolve = w.pendingResolve) : Armed file w' :=
  ⟨hresolved ▸ h.verified, hpending ▸ h.settled⟩

theorem armed_kickResolves (h : Armed file w) : Armed file (w.kickResolves view).1 := by
  refine foldl_wiring (fun r entry h => ?_) _ h
  have hasked {age : Nat} (hentry : entry.hash ∉ r.1.resolved) :
      Armed file { r.1 with pendingResolve := r.1.pendingResolve.insert entry.hash age } := by
    refine ⟨h.verified, ?_⟩
    have hne : entry.hash ≠ file := fun heq => hentry (heq ▸ h.mem_resolved)
    simpa [hne] using h.settled
  unfold kickResolve
  dsimp only
  split
  · exact h
  next hskip =>
    have hentry : entry.hash ∉ r.1.resolved := fun hin => hskip (.inr hin)
    split
    · split
      · exact hasked hentry
      · exact hasked hentry
    · exact hasked hentry

theorem armed_maybeRequestLookups {files : List FileHashInfo} (h : Armed file w) :
    Armed file (files.foldl (maybeRequestLookup view) (w, [])).1 := by
  refine foldl_wiring (fun r info h => ?_) _ h
  unfold maybeRequestLookup
  dsimp only
  split
  · exact h.congr rfl rfl
  · exact h

theorem armed_writeWatcherPrefs (h : Armed file w) : Armed file (w.writeWatcherPrefs view).1 := by
  refine foldl_wiring (fun r entry h => ?_) _ h
  unfold writeWatcherPref
  dsimp only
  repeat' split
  all_goals exact h.congr rfl rfl

theorem armed_onState (h : Armed file w) : Armed file (w.onState env view peers).1 := by
  refine runStages_wiring (fun stage hstage w h => ?_) h
  fin_cases hstage
  · dsimp only [kickEviction]
    split <;> exact h.congr rfl rfl
  · exact armed_kickResolves h
  · exact armed_maybeRequestLookups h
  · exact armed_writeWatcherPrefs h
  · dsimp only [maybeCheckSeriesKnown]
    repeat' split
    all_goals exact h.congr rfl rfl
  · dsimp only [maybeOfferLocalCopies]
    repeat' split
    all_goals exact h.congr rfl rfl
  · dsimp only [loadVerified]
    repeat' split
    all_goals exact h.congr rfl rfl
  · dsimp only [reassertPlayback]
    split <;> exact h.congr rfl rfl
  · dsimp only [follow]
    repeat' split
    all_goals exact h.congr rfl rfl

variable {g : Ed2kHash}

theorem Armed.learn {resolution : Resolution} (h : Armed file w)
    (hg : g = file → ∃ path, resolution = .verified path) :
    ∃ path, (w.resolved.insert g resolution)[file]? = some (.verified path) := by
  rw [getElem?_insert]
  split
  next heq =>
    obtain ⟨path, rfl⟩ := hg heq.symm
    exact ⟨path, rfl⟩
  · exact h.verified

theorem Armed.answered (h : Armed file w) (g : Ed2kHash) : file ∉ w.pendingResolve.erase g := by
  intro hin
  exact h.settled (ExtTreeMap.mem_of_mem_erase hin)

theorem armed_noteLocalFile {assembledInPlace : Bool} (h : Armed file w) :
    Armed file (w.noteLocalFile g path assembledInPlace).1 := by
  have hnew : Armed file { w with resolved := w.resolved.insert g (.verified path)
                                  pendingResolve := w.pendingResolve.erase g } :=
    ⟨h.learn fun _ => ⟨path, rfl⟩, h.answered g⟩
  unfold noteLocalFile
  dsimp only
  repeat' split
  all_goals exact hnew.congr rfl rfl

theorem armed_onResolved {resolution : Resolution} (h : Armed file w) :
    Armed file (w.onResolved env g resolution view peers).1 := by
  have hkept : Armed file { w with pendingResolve := w.pendingResolve.erase g } :=
    ⟨h.verified, h.answered g⟩
  have hlearnt (hg : g = file → ∃ path, resolution = .verified path) :
      Armed file { w with pendingResolve := w.pendingResolve.erase g
                          resolved := w.resolved.insert g resolution } :=
    ⟨h.learn hg, h.answered g⟩
  obtain ⟨copy, hcopy⟩ := h.verified
  unfold onResolved
  cases resolution with
  | verified path =>
    rw [if_neg (by simp)]
    simp only [↓reduceIte]
    split <;> exact (hlearnt fun _ => ⟨path, rfl⟩).congr rfl rfl
  | hashMismatch path =>
    dsimp only
    split
    · exact hkept
    next hfresh =>
      refine (hlearnt fun heq => ?_).congr rfl rfl
      subst heq
      simp [hcopy, h.settled] at hfresh
  | notFound =>
    dsimp only
    split
    · exact hkept
    next hfresh =>
      refine (hlearnt fun heq => ?_).congr rfl rfl
      subst heq
      simp [hcopy, h.settled] at hfresh

theorem armed_onLoadFailed (h : Armed file w) (hne : g ≠ file) :
    Armed file (w.onLoadFailed g view).1 := by
  have hforgotten : Armed file { w with resolved := w.resolved.erase g } := by
    obtain ⟨copy, hcopy⟩ := h.verified
    refine ⟨⟨copy, ?_⟩, h.settled⟩
    rw [getElem?_erase, if_neg hne.symm]
    exact hcopy
  have hasked : Armed file { w with resolved := w.resolved.erase g
                                    pendingResolve := w.pendingResolve.insert g 0 } := by
    refine ⟨hforgotten.verified, ?_⟩
    simpa [hne] using h.settled
  unfold onLoadFailed
  dsimp only
  split
  · split <;> exact h.congr rfl rfl
  · split
    · split <;> exact hasked.congr rfl rfl
    · split <;> exact hforgotten.congr rfl rfl

theorem armed_onPlayer {output : PlayerOutput} (h : Armed file w)
    (hne : output ≠ .loadFailed file) : Armed file (w.onPlayer env output view).1 := by
  cases output with
  | userSeeked fromMillis toMillis =>
    unfold onPlayer
    dsimp only
    split <;> exact h.congr rfl rfl
  | positionTick g positionMillis =>
    by_cases hspeaks : w.speaksForNowPlaying view g
    · obtain ⟨w', _, hresolved, hpending, _, heq⟩ :=
        onPositionTick_accepted positionMillis hspeaks
      show Armed file (w.onPositionTick g positionMillis view).1
      rw [heq]
      unfold maybeRecordWatched
      repeat' split
      all_goals exact h.congr hresolved hpending
    · show Armed file (w.onPositionTick g positionMillis view).1
      rw [onPositionTick_stale hspeaks]
      exact h
  | eof g =>
    unfold onPlayer onEof
    dsimp only
    repeat' split
    all_goals exact h.congr rfl rfl
  | loadFailed g => exact armed_onLoadFailed h fun heq => hne (by rw [heq])
  | _ => exact h

theorem armed_onSeriesKnown {series : Option AniDbSeriesId} {known : Bool} (h : Armed file w) :
    Armed file (w.onSeriesKnown env g series known view peers).1 := by
  unfold onSeriesKnown
  dsimp only
  repeat' split
  all_goals exact h.congr rfl rfl

/-- **One turn** that does not take the copy away. -/
theorem armed_handle {event : Event} (h : Armed file w) (hspares : event.spares file) :
    Armed file (handle env view event w).1 := by
  cases event with
  | state peers => exact armed_onState h
  | localFile g path assembledInPlace => exact armed_noteLocalFile h
  | evicted files =>
    have hevicting := evicting_noteEvicted w files
    have hfile : file ∉ files := hspares.1 files rfl
    refine ⟨?_, ?_⟩
    · show ∃ path, (w.noteEvicted files).1.resolved[file]? = _
      rw [hevicting.resolved, if_neg hfile]
      exact h.verified
    · show file ∉ (w.noteEvicted files).1.pendingResolve
      rw [hevicting.frame]
      exact h.settled
  | resolved g resolution peers => exact armed_onResolved h
  | archived g path => exact ⟨h.learn fun _ => ⟨path, rfl⟩, h.settled⟩
  | downloadPlayable g path peers =>
    dsimp only [handle, onDownloadPlayable, onDownloadPlayable.issue]
    repeat' split
    all_goals exact h.congr rfl rfl
  | player output => exact armed_onPlayer h fun heq => hspares.2 (by rw [heq])
  | seriesKnown g series known peers => exact armed_onSeriesKnown h
  | copyOfferClosed g peers =>
    dsimp only [handle, onCopyOfferClosed]
    split
    · exact armed_onSeriesKnown (h.congr rfl rfl)
    · exact h.congr rfl rfl
  | libraryIndexed files => exact armed_maybeRequestLookups h
  | _ => exact h.congr rfl rfl

theorem Effect.loads_or_loaded {event : Event} {r : Reaction} {l : LoadedFile}
    (h : Effect view event w r) (hl : r.1.loaded = some l) :
    (∃ path, Turn.loads ⟨view, event, r.2⟩ l.file path) ∨
      ∃ l₀, w.loaded = some l₀ ∧ l₀.file = l.file := by
  cases h with
  | kept hloaded => exact .inr ⟨l, hloaded ▸ hl, rfl⟩
  | dropped hloaded =>
    rw [hloaded] at hl
    cases hl
  | completed file path hbefore _ hloaded =>
    rw [hloaded] at hl
    cases hl
    exact .inr ⟨_, hbefore, rfl⟩
  | moved l₀ path hbefore hloaded =>
    rw [hloaded] at hl
    cases hl
    exact .inr ⟨l₀, hbefore, rfl⟩
  | loadedVerified file path _ hloaded _ _ hload =>
    rw [hloaded] at hl
    cases hl
    exact .inl ⟨path, loads_iff.mpr ⟨_, _, hload ▸ mem_singleton_self _⟩⟩
  | loadedPartial file path _ _ hloaded _ hload =>
    rw [hloaded] at hl
    cases hl
    exact .inl ⟨path, loads_iff.mpr ⟨_, _, hload ▸ mem_singleton_self _⟩⟩
  | position _ _ _ hloaded => exact .inr ⟨l, hloaded ▸ hl, rfl⟩
  | ended _ _ _ hloaded => exact .inr ⟨l, hloaded ▸ hl, rfl⟩

/-- The completed copy is known and waits to be loaded, unless that has happened since. -/
structure Waiting (file : Ed2kHash) (before : List Turn) (s : Run) : Prop where
  armed : Armed file s.wiring
  waits : ∃ since, s.turns = since ++ before ∧
    ((∃ u ∈ since, ∃ path, u.loads file path) ∨ ∀ l, s.wiring.loaded = some l → l.file ≠ file)

theorem Waiting.step {before : List Turn} {input : StateView × Event} (h : Waiting file before s)
    (hspares : input.2.spares file) (hs : Run.step env s input = some s') :
    Waiting file before s' := by
  obtain ⟨view, event⟩ := input
  cases hs
  obtain ⟨since, hturns, hwaits⟩ := h.waits
  refine ⟨armed_handle h.armed hspares, _ :: since, by rw [hturns, cons_append], ?_⟩
  rcases hwaits with ⟨u, hu, hloads⟩ | hother
  · exact .inl ⟨u, mem_cons_of_mem _ hu, hloads⟩
  · by_cases hload : ∃ path, Turn.loads ⟨view, event, (handle env view event s.wiring).2⟩ file path
    · exact .inl ⟨_, mem_cons_self, hload⟩
    · refine .inr fun l hl hfile => ?_
      rcases (effect_handle env view event s.wiring).loads_or_loaded hl with
        hloads | ⟨l₀, hl₀, heq⟩
      · exact hload (hfile ▸ hloads)
      · exact hother l₀ hl₀ (heq.trans hfile)

theorem Waiting.loads {before : List Turn} (h : Waiting file before s)
    (hplaying : view.nowPlaying = some file) :
    ∃ since, s.turns = since ++ before ∧ ((∃ u ∈ since, ∃ path, u.loads file path) ∨
      ∃ path, s.wiring.resolved[file]? = some (.verified path) ∧
        loadCommand view file path ∈ (handle env view (.state peers) s.wiring).2) := by
  obtain ⟨since, hturns, hwaits⟩ := h.waits
  refine ⟨since, hturns, hwaits.imp_right fun hother => ?_⟩
  obtain ⟨path, hpath⟩ := h.armed.verified
  rcases onState_cases env view peers s.wiring with ⟨_, hsettled⟩ | ⟨f, p, hloads⟩
  · have hholds := hsettled file path hplaying hpath
    unfold holdsVerified at hholds
    cases hloaded : s.wiring.loaded with
    | none => simp [hloaded] at hholds
    | some l =>
      refine absurd ?_ (hother l hloaded)
      simp only [hloaded, any_some, Bool.and_eq_true, decide_eq_true_eq] at hholds
      exact hholds.1.1
  · obtain rfl : f = file := Option.some.inj (hloads.nowPlaying.symm.trans hplaying)
    refine ⟨p, hloads.verified, ?_⟩
    have hmem : loadCommand view f p ∈ voices (s.wiring.onState env view peers).2 := by
      rw [hloads.load]
      exact mem_singleton_self _
    exact (mem_filter.mp hmem).1

theorem Parked.waiting (h : Parked s)
    (hloaded : s.wiring.loaded = some { file := file, path := path, isPartial := true })
    (hout : Outstanding (·.rejects file) s.turns file)
    (hs : Run.step env s (view, .localFile file path true) = some s') :
    Waiting file s'.turns s' := by
  cases hs
  obtain ⟨issued, hrecovery⟩ := h.rejection _ hloaded hout
  have hdropped : (handle env view (.localFile file path true) s.wiring).1.loaded = none := by
    simp [handle, noteLocalFile, hloaded, hrecovery]
  have hanswered : (handle env view (.localFile file path true) s.wiring).1.pendingResolve =
      s.wiring.pendingResolve.erase file := by
    dsimp only [handle, noteLocalFile]
    repeat' split
    all_goals rfl
  refine ⟨⟨⟨path, ?_⟩, ?_⟩, [], rfl, .inr ?_⟩
  · simp [handle, noteLocalFile]
  · rw [hanswered]
    simp
  · intro l hl
    rw [hdropped] at hl
    cases hl

theorem eofReported_recoverFalseEof (a : Player.Actor) (penv : Player.Env) (seek : Option Nat) :
    (a.handleCommand penv (.recoverFalseEof seek)).eofReported = false := by
  unfold Player.Actor.handleCommand
  cases seek with
  | none => rfl
  | some target =>
    dsimp only [Player.Actor.seekProgrammatic]
    split <;> rfl

end DeadEnd

/-- **Neither a spin nor a dead end.**  Between two recovery seeks for the ends of one file it is
resumed; an end of a loaded partial is reported, or answered with a recovery, which re-arms
the player; and a copy completed in place under an outstanding rejection is loaded by the next
view that still plays it, unless it has been loaded since or was taken away. -/
theorem rejected_eof_neither_spins_nor_ends (env : Env) (me : UserId) (autoDownload : Bool)
    (s : Run) (hs : Reach (Run.step env) anyStep (Run.start me autoDownload) s)
    (view : StateView) (file : Ed2kHash) :
    (∀ target, .player (.recoverFalseEof (some target)) ∈
        (handle env view (.player (.eof file)) s.wiring).2 →
      ∀ since t past, s.turns = since ++ t :: past → t.seeks file → ∃ u ∈ since, u.resumes file) ∧
    (∀ path, s.wiring.loaded = some { file := file, path := path, isPartial := true } →
      view.nowPlaying = some file →
      .reportEof file ∈ (handle env view (.player (.eof file)) s.wiring).2 ∨
        ∃ seek, .player (.recoverFalseEof seek) ∈
            (handle env view (.player (.eof file)) s.wiring).2 ∧
          ∀ (a : Player.Actor) (penv : Player.Env),
            (a.handleCommand penv (.recoverFalseEof seek)).eofReported = false) ∧
    ∀ path s₁ s₂, s.wiring.loaded = some { file := file, path := path, isPartial := true } →
      Outstanding (·.rejects file) s.turns file →
      Run.step env s (view, .localFile file path true) = some s₁ →
      Reach (Run.step env) (fun _ input => input.2.spares file) s₁ s₂ →
      ∀ view' peers, view'.nowPlaying = some file →
        ∃ since, s₂.turns = since ++ s₁.turns ∧ ((∃ u ∈ since, ∃ p, u.loads file p) ∨
          ∃ p, s₂.wiring.resolved[file]? = some (.verified p) ∧
            loadCommand view' file p ∈ (handle env view' (.state peers) s₂.wiring).2) := by
  have h : Parked s := parked_of_reach hs
  refine ⟨?_, ?_, ?_⟩
  · intro target hmem since t past hsplit hseeks
    by_contra hnone
    refine h.not_outstanding hmem ⟨since, t, past, hsplit, hseeks, fun u hu hresumes => ?_⟩
    exact hnone ⟨u, hu, hresumes⟩
  · intro path hloaded hplaying
    have hspeaks : s.wiring.speaksForNowPlaying view file := by
      simp [speaksForNowPlaying, holdsNowPlaying, hloaded, hplaying]
    show _ ∈ (s.wiring.onEof file view).2 ∨ _
    unfold handle onPlayer onEof
    dsimp only
    rw [if_neg (by simp [hspeaks])]
    split
    · exact .inr ⟨_, mem_singleton_self _, fun a penv => eofReported_recoverFalseEof a penv _⟩
    · exact .inl (mem_singleton_self _)
  · intro path s₁ s₂ hloaded hout hstep hreach view' peers hplaying
    have hwaiting : Waiting file s₁.turns s₂ :=
      hreach.invariant (h.waiting hloaded hout hstep) fun _ _ _ h hok hs => h.step hok hs
    exact hwaiting.loads hplaying

/-- A partial is loaded, ends at once and completes in place; a verified answer that was on its
way loads the complete file, and the next view loads nothing. -/
theorem rejected_eof_loaded_before_view :
    let env : Env := { blockers := fun _ _ => [], md4 := fun _ => 0, fileName := some }
    (run (Run.step env) (Run.start "me" false)
      [(episodePlaying, .downloadPlayable 5 "ep.mkv" []),
       (episodePlaying, .player (.eof 5)),
       (episodePlaying, .localFile 5 "ep.mkv" true),
       (episodePlaying, .resolved 5 (.verified "ep.mkv") [])]).map (fun s =>
        (s.turns.map fun t => (t.event, voices t.out, t.out.filter Directive.recovers),
          voices (handle env episodePlaying (.state []) s.wiring).2)) =
      some ([(.resolved 5 (.verified "ep.mkv") [], [loadCommand episodePlaying 5 "ep.mkv"], []),
        (.localFile 5 "ep.mkv" true, [], []),
        (.player (.eof 5), [], [.player (.recoverFalseEof none)]),
        (.downloadPlayable 5 "ep.mkv" [], [loadCommand episodePlaying 5 "ep.mkv"], [])], []) := by
  decide +kernel

theorem rejected_eof_neither_spins_nor_ends_completed :
    let env : Env := { blockers := fun _ _ => [], md4 := fun _ => 0, fileName := some }
    ∃ s s₁, Reach (Run.step env) anyStep (Run.start "me" false) s ∧
      Run.step env s (episodePlaying, .localFile 5 "ep.mkv" true) = some s₁ ∧
      ∃ p, s₁.wiring.resolved[(5 : Ed2kHash)]? = some (.verified p) ∧
        loadCommand episodePlaying 5 p ∈
          (handle env episodePlaying (.state []) s₁.wiring).2 := by
  intro env
  have hrun : (run (Run.step env) (Run.start "me" false)
      [(episodePlaying, .downloadPlayable 5 "ep.mkv" []),
       (episodePlaying, .player (.eof 5))]).map (fun s =>
        (s.wiring.loaded, s.turns.head?.map fun t => (t.event, t.out))) =
      some (some { file := 5, path := "ep.mkv", isPartial := true },
        some (.player (.eof 5), [.player (.recoverFalseEof none)])) := by
    decide +kernel
  obtain ⟨s, hs, hfacts⟩ := map_eq_some_iff.mp hrun
  obtain ⟨hloaded, hhead⟩ := Prod.mk.inj hfacts
  obtain ⟨t, ht, hturn⟩ := map_eq_some_iff.mp hhead
  obtain ⟨hevent, hout⟩ := Prod.mk.inj hturn
  obtain ⟨past, hturns⟩ := head?_eq_some_iff.mp ht
  have hrejects : t.rejects 5 := ⟨hevent, none, hout ▸ mem_singleton_self _⟩
  have hreach := reach_of_run _ hs
  obtain ⟨since, hsince, hloads⟩ :=
    (rejected_eof_neither_spins_nor_ends env "me" false s hreach episodePlaying 5).2.2 "ep.mkv" _ _
      hloaded ⟨[], t, past, hturns, hrejects, fun _ hu => absurd hu not_mem_nil⟩ rfl .refl
      episodePlaying [] rfl
  refine ⟨s, _, hreach, rfl, ?_⟩
  obtain rfl : since = [] := self_eq_append_left.mp hsince
  exact hloads.resolve_left fun ⟨_, hu, _⟩ => absurd hu not_mem_nil

end DessPlay.Session
