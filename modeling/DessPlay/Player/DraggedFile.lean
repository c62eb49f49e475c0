/-
  DessPlay.Player.DraggedFile
  **WHAT THE ACTOR TAKES FOR A DRAGGED-IN FILE** (`PathObserved` in
  `dessplay/src/actors/player.rs`).

  The player opens what it was told to load and what the user drags in, in some
  order, and reports each new path.  The actor takes a report for its own only if
  it names the latest path commanded, so a report that lags behind a later `Load`
  is taken for the user's.  `Lobby` puts the actor in front of such a player.
-/
import DessPlay.Lib.Machine
import DessPlay.Player.Place

namespace DessPlay.Player

open DessPlay.Core List Option Machine

/-! ## §1. The player's side. -/

/-- A path the player has been asked to open. -/
structure Opening where
  path : String
  byUser : Bool
  deriving DecidableEq

def PlayerOutput.observed? : PlayerOutput → Option String
  | .pathObserved path => some path
  | _ => none

def observations (outputs : List PlayerOutput) : List String :=
  outputs.filterMap PlayerOutput.observed?

/-- The actor, what the player has still to open and what it has opened but not reported. -/
structure Lobby where
  actor : Actor
  opening : List Opening
  reports : List Opening
  /-- every path the user ever loaded -/
  dragged : List String
  /-- every path the actor ever took for the user's -/
  observed : List String

inductive LobbyEvent where
  | command (env : Env) (command : PlayerCommand)
  | drag (path : String)
  /-- the player opens one of the paths it was asked for -/
  | opens (index : Nat)
  /-- the oldest report arrives -/
  | report
  /-- anything else the player says -/
  | event (env : Env) (event : PlayerEvent)
  /-- the connection to the player breaks -/
  | lost (env : Env)
  | reattach (env : Env) (up : Bool)
  | spawned (env : Env) (delivered : Option Bool)
  | flush
  | tick (env : Env)

namespace Lobby

def turn (d : Lobby) (handler : Actor → Actor) : Lobby :=
  let actor := handler d.actor.entry
  { d with
    actor := actor
    opening := d.opening ++ (loads (requests actor.effects)).map fun path => ⟨path, false⟩
    observed := d.observed ++ observations (outputs actor.effects) }

def unplug (d : Lobby) : Lobby := { d with opening := [], reports := [] }

def step (d : Lobby) : LobbyEvent → Option Lobby
  | .command env command => some (d.turn (·.handleCommand env command))
  | .drag path => some { d with
      opening := d.opening ++ [⟨path, true⟩], dragged := d.dragged ++ [path] }
  | .opens index =>
    d.opening[index]?.map fun o => { d with
      opening := d.opening.eraseIdx index, reports := d.reports ++ [o] }
  | .report =>
    match d.reports with
    | o :: reports => some ({ d with reports := reports }.turn (·.handlePathChanged o.path))
    | [] => none
  | .event _ (.pathChanged _) => none
  | .event env (.exited reason) =>
    some (d.turn (·.handlePlayerEvent env (.exited reason))).unplug
  | .event env event => some (d.turn (·.handlePlayerEvent env event))
  | .lost env => some (d.turn (·.handlePlayerDeath env)).unplug
  | .reattach env up => some (d.turn (·.tryReattach env up))
  | .spawned env delivered => some (d.turn (·.finishSpawn env delivered))
  | .flush => some (d.turn (·.flushUserSeek))
  | .tick env => some (d.turn (·.maybeEmitPosition env))

def start (env : Env) (attachMode : Bool) : Lobby where
  actor := .start env attachMode
  opening := []
  reports := []
  dragged := []
  observed := []

/-- Nothing but `path` is in flight of what was commanded. -/
def awaitsOnly (d : Lobby) (path : String) : Bool :=
  (d.opening ++ d.reports).all fun o => o.byUser || o.path = path

/-- The condition on a step: a `Load` waits for the reports of the loads before it, unless they
are of the same path. -/
def unhurried (d : Lobby) : LobbyEvent → Bool
  | .command _ (.load _ path _ _) => d.awaitsOnly path
  | _ => true

end Lobby

/-! ## §2. What a handler asks for and reports. -/

/-- Everything asked for in this turn is the current file, and nothing is taken for the user's. -/
structure Discreet (cur : Option CurrentFile) (a : Actor) : Prop where
  current : a.current = cur
  loads : ∀ path title, .call (.load path title) ∈ a.effects → cur.map (·.path) = some path
  observed : ∀ path, .send (.pathObserved path) ∉ a.effects

namespace Discreet

variable {cur : Option CurrentFile} {a b : Actor} {env : Env}

theorem congr (h : Discreet cur a) (hcurrent : b.current = a.current)
    (heffects : b.effects = a.effects) : Discreet cur b :=
  ⟨hcurrent.trans h.current, heffects ▸ h.loads, heffects ▸ h.observed⟩

theorem add (h : Discreet cur a) (effect : Effect)
    (hload : ∀ path title, effect = .call (.load path title) → cur.map (·.path) = some path)
    (hobserved : ∀ path, effect ≠ .send (.pathObserved path)) :
    Discreet cur { a with effects := a.effects ++ [effect] } where
  current := h.current
  loads path title hmem := by
    rcases mem_append.mp hmem with hmem | hmem
    · exact h.loads path title hmem
    · exact hload path title (mem_singleton.mp hmem).symm
  observed path hmem := by
    rcases mem_append.mp hmem with hmem | hmem
    · exact h.observed path hmem
    · exact hobserved path (mem_singleton.mp hmem).symm

theorem call (h : Discreet cur a) (request : Call) (hrequest : request.load? = none) :
    Discreet cur (a.call request) :=
  h.add _ (fun _ _ heq => by cases heq; cases hrequest) nofun

theorem send (h : Discreet cur a) {output : PlayerOutput} (houtput : output.observed? = none) :
    Discreet cur (a.send output) :=
  h.add _ nofun fun _ heq => by cases heq; cases houtput

theorem send_congr (h : Discreet cur a) (output : PlayerOutput) (houtput : output.observed? = none)
    (hcurrent : b.current = a.current) (heffects : b.effects = a.effects ++ [.send output]) :
    Discreet cur b :=
  (h.send houtput).congr hcurrent heffects

variable {file : CurrentFile}

theorem load (h : Discreet (some file) a) :
    Discreet (some file) (a.call (.load file.path file.title)) :=
  h.add _ (fun _ _ heq => by cases heq; rfl) nofun

theorem askFor (h : Discreet (some file) a) : Discreet (some file) (a.askFor env file) := by
  unfold Actor.askFor
  split
  · exact h.load
  · exact h.send rfl

theorem applyDesiredPause (h : Discreet cur a) : Discreet cur (a.applyDesiredPause env) := by
  rcases a.applyDesiredPause_cases env with heq | ⟨_, heq⟩
  · rwa [heq]
  · rw [heq]
    exact (h.call (.setPause _) rfl).congr rfl rfl

theorem setSpeed (h : Discreet cur a) (speed : ℚ) : Discreet cur (a.setSpeed env speed) := by
  rcases a.setSpeed_cases env speed with heq | heq
  · rwa [heq]
  · rw [heq]
    exact (h.call (.setSpeed speed) rfl).congr rfl rfl

theorem seekProgrammatic (h : Discreet cur a) (targetMillis : Nat) :
    Discreet cur (a.seekProgrammatic env targetMillis) := by
  rcases a.seekProgrammatic_cases env targetMillis with heq | heq
  · rwa [heq]
  · rw [heq]
    exact (h.call (.seek targetMillis) rfl).congr rfl rfl

theorem reanchorEstimate (h : Discreet cur a) : Discreet cur (a.reanchorEstimate env) := by
  rw [a.reanchorEstimate_eq env]
  exact h.congr rfl rfl

theorem driftCorrect (h : Discreet cur a) (sample : Nat) (timestamp : SharedTimestamp)
    (playing : Bool) : Discreet cur (a.driftCorrect env sample timestamp playing) := by
  obtain ⟨drift, hdrift⟩ := a.driftCorrect_cases env sample timestamp playing
  have hnew : Discreet cur { a with drift := drift } := h.congr rfl rfl
  rcases hdrift with heq | ⟨_, _, _, ⟨slew, heq⟩ | ⟨target, heq⟩⟩
  · rwa [heq]
  · rw [heq]
    exact hnew.setSpeed slew
  · rw [heq]
    exact (hnew.setSpeed 1).seekProgrammatic target

theorem handleGraceLock (h : Discreet cur a) (locked : Bool) :
    Discreet cur (a.handleGraceLock env locked) := by
  rcases a.handleGraceLock_cases env locked with ⟨heq, _⟩ | ⟨_, scrub, _, heq⟩
  · rw [heq]
    exact h.congr rfl rfl
  · have hnew : Discreet cur { a with pendingUserSeek := none, graceLock := true } :=
      h.congr rfl rfl
    rw [heq]
    exact (hnew.seekProgrammatic scrub.fromMillis).send rfl

theorem handleCommand (h : Discreet cur a) {command : PlayerCommand}
    (hload : ∀ file path title resume, command ≠ .load file path title resume) :
    Discreet cur (a.handleCommand env command) := by
  cases command with
  | load file path title resume => exact absurd rfl (hload file path title resume)
  | setPlaying playing =>
    have hnew : Discreet cur { a with desiredPlaying := playing } := h.congr rfl rfl
    exact hnew.applyDesiredPause
  | setGraceLock locked => exact h.handleGraceLock locked
  | syncTo positionMillis timestamp playing => exact h.driftCorrect positionMillis timestamp playing
  | releaseSlew =>
    have hnew : Discreet cur { a with drift := .new } := h.congr rfl rfl
    exact hnew.setSpeed 1
  | recoverFalseEof positionMillis =>
    have hnew : Discreet cur { a with eofReported := false } := h.congr rfl rfl
    cases positionMillis with
    | none => exact hnew
    | some target => exact hnew.seekProgrammatic target
  | clockOffset offsetMillis => exact h.congr rfl rfl
  | shutdown => exact h.congr rfl rfl

theorem handlePauseObservation (h : Discreet cur a) (paused : Bool) :
    Discreet cur (a.handlePauseObservation env paused) := by
  have hnew : Discreet cur { a.reanchorEstimate env with believedPause := some paused } :=
    h.reanchorEstimate.congr rfl rfl
  unfold Actor.handlePauseObservation
  dsimp only
  split
  · exact hnew.congr rfl rfl
  · split
    · have hcleared : Discreet cur { a.reanchorEstimate env with
          believedPause := some paused, pendingPauseEchoes := [] } := hnew.congr rfl rfl
      exact hcleared.applyDesiredPause.send_congr (.graceRefused .pause) rfl rfl rfl
    · refine hnew.send_congr (if paused then .userPaused else .userUnpaused) ?_ rfl rfl
      split <;> rfl

theorem acceptSeek (h : Discreet cur a) (positionMillis : Nat) (echo : Bool) :
    Discreet cur (a.acceptSeek env positionMillis echo) := by
  have hnew : Discreet cur ({ a with eofReported := false }.notePosition env positionMillis) :=
    h.congr rfl rfl
  unfold Actor.acceptSeek
  dsimp only
  split
  · exact (hnew.seekProgrammatic _).send rfl
  · split
    · exact hnew.congr rfl rfl
    · exact hnew

theorem handleSeeked (h : Discreet cur a) (positionMillis : Nat) :
    Discreet cur (a.handleSeeked env positionMillis) := by
  have hnew : Discreet cur { a with pendingSeekEchoes := a.pendingSeekEchoes - 1 } :=
    h.congr rfl rfl
  unfold Actor.handleSeeked
  dsimp only
  split
  · exact hnew.acceptSeek positionMillis _
  · exact hnew

theorem handleLoaded (h : Discreet cur a) : Discreet cur (a.handleLoaded env) := by
  cases hrestore : a.restoreMillis with
  | none =>
    have hopened : Discreet cur (a.opened env) := h.congr rfl rfl
    rw [a.handleLoaded_fresh env hrestore]
    exact hopened.applyDesiredPause
  | some millis =>
    have hopened : Discreet cur { a.opened env with restoreMillis := none } := h.congr rfl rfl
    rw [a.handleLoaded_restore env hrestore]
    exact (hopened.seekProgrammatic millis).applyDesiredPause

theorem beginSpawn (h : Discreet cur a) (failureExits : Bool) :
    Discreet cur (a.beginSpawn failureExits) := by
  unfold Actor.beginSpawn
  split
  · exact h.congr rfl rfl
  · exact h

theorem handlePlayerDeath (h : Discreet cur a) : Discreet cur (a.handlePlayerDeath env) := by
  have hdropped : Discreet cur a.dropPlayer := h.congr rfl rfl
  unfold Actor.handlePlayerDeath
  dsimp only
  split
  · exact hdropped.congr rfl rfl
  · have hcrash : Discreet cur (a.dropPlayer.noteCrash env) := by
      simp only [Actor.noteCrash]
      generalize (if (a.dropPlayer.lastDeath.any fun died =>
        env.now - died < crashFatalWindow) = true then _ else 1) = crashes
      split
      · exact hdropped.send_congr .fatalCrash rfl rfl rfl
      · exact hdropped.congr rfl rfl
    unfold Actor.handleCrash
    dsimp only
    split
    · exact hcrash.send_congr .gaveUp rfl rfl rfl
    · refine Discreet.beginSpawn ?_ true
      exact hcrash.congr rfl rfl

theorem handlePlayerEvent (h : Discreet cur a) {event : PlayerEvent}
    (hpath : ∀ path, event ≠ .pathChanged path) : Discreet cur (a.handlePlayerEvent env event) := by
  cases event with
  | pathChanged path => exact absurd rfl (hpath path)
  | pauseChanged paused => exact h.handlePauseObservation paused
  | seeked positionMillis => exact h.handleSeeked positionMillis
  | position positionMillis =>
    dsimp only [Actor.handlePlayerEvent]
    split
    · exact h.congr rfl rfl
    · exact h
  | durationKnown durationMillis =>
    dsimp only [Actor.handlePlayerEvent]
    split
    · split
      · exact h.send rfl
      · exact h
    · exact h
  | loaded => exact h.handleLoaded
  | subtitleLine text speaker => exact h.send rfl
  | eof =>
    dsimp only [Actor.handlePlayerEvent]
    split
    · split
      · exact h.send_congr (.eof _) rfl rfl rfl
      · exact h
    · exact h
  | loadFailed =>
    dsimp only [Actor.handlePlayerEvent]
    split
    · exact h.send rfl
    · exact h
  | exited reason => exact h.handlePlayerDeath

theorem flushUserSeek (h : Discreet cur a) : Discreet cur a.flushUserSeek := by
  unfold Actor.flushUserSeek
  split
  · exact h.send_congr (.userSeeked _ _) rfl rfl rfl
  · exact h

theorem maybeEmitPosition (h : Discreet cur a) : Discreet cur (a.maybeEmitPosition env) := by
  unfold Actor.maybeEmitPosition
  split
  · exact h
  · split
    · dsimp only
      generalize (if a.believedPause = some false then _ else _) = cadence
      split
      · exact h.send_congr (.positionTick _ _) rfl rfl rfl
      · exact h
    · exact h

theorem reload (h : Discreet cur a) (hfile : a.current = some file) :
    Discreet cur (a.call (.load file.path file.title)) := by
  obtain rfl : some file = cur := hfile.symm.trans h.current
  exact h.load

theorem tryReattach (h : Discreet cur a) (up : Bool) : Discreet cur (a.tryReattach env up) := by
  unfold Actor.tryReattach
  dsimp only
  split
  · exact h.congr rfl rfl
  · split
    · split
      next file hfile =>
        split
        · refine Discreet.reload ?_ hfile
          exact h.congr rfl rfl
        · exact h.congr rfl rfl
      · exact h.congr rfl rfl
    · exact h.congr rfl rfl

theorem finishSpawn (h : Discreet cur a) (delivered : Option Bool) :
    Discreet cur (a.finishSpawn env delivered) := by
  unfold Actor.finishSpawn
  dsimp only
  split
  · exact h.send_congr .fatalCrash rfl rfl rfl
  · split
    next file hfile =>
      obtain rfl : some file = cur := hfile.symm.trans h.current
      refine Discreet.askFor ?_
      exact h.congr rfl rfl
    · exact h.congr rfl rfl
  · exact h.send_congr .fatalCrash rfl rfl rfl

theorem handleLoad (hnew : a.effects = []) (file : CurrentFile) (resumeMillis : Option Nat) :
    Discreet (some file) (a.handleLoad env file resumeMillis) := by
  have hturned : Discreet (some file) (a.turnTo file resumeMillis) := by
    refine ⟨rfl, fun path title hmem => ?_, fun path hmem => ?_⟩
    all_goals
      rw [show (a.turnTo file resumeMillis).effects = [] from hnew] at hmem
      exact absurd hmem not_mem_nil
  have hclean {b : Actor} (hb : Discreet (some file) b) : Discreet (some file) b.cleanSlate := by
    unfold Actor.cleanSlate
    dsimp only
    split
    · refine Discreet.beginSpawn ?_ false
      exact hb.congr rfl rfl
    · exact hb.congr rfl rfl
  have hslowed : Discreet (some file) ((a.turnTo file resumeMillis).setSpeed env 1) :=
    hturned.setSpeed 1
  unfold Actor.handleLoad
  dsimp only
  split
  · split
    · exact (hclean hslowed).askFor
    · exact hclean hslowed
  · split
    · exact hslowed.askFor
    · exact hslowed

end Discreet

/-! ## §3. What is in flight. -/

namespace Lobby

variable {d d' : Lobby} {cur : Option CurrentFile} {handler : Actor → Actor}

/-- What was commanded and is in flight is the current file; everything else is the user's. -/
structure Ours (d : Lobby) : Prop where
  commanded : ∀ o ∈ d.opening ++ d.reports, o.byUser = false →
    d.actor.current.map (·.path) = some o.path
  dragged : ∀ o ∈ d.opening ++ d.reports, o.byUser = true → o.path ∈ d.dragged
  observed : ∀ path ∈ d.observed, path ∈ d.dragged

theorem discreet_entry (a : Actor) : Discreet a.current a.entry :=
  ⟨rfl, fun _ _ h => absurd h not_mem_nil, nofun⟩

theorem mem_loads {fx : List Effect} {path : String} :
    path ∈ loads (requests fx) ↔ ∃ title, .call (.load path title) ∈ fx := by
  unfold loads requests
  simp only [mem_filterMap]
  constructor
  · rintro ⟨request, ⟨effect, hmem, heffect⟩, hload⟩
    cases effect with
    | send output => cases heffect
    | call request =>
      cases heffect
      cases request with
      | load p title =>
        cases hload
        exact ⟨title, hmem⟩
      | setPause paused => cases hload
      | seek millis => cases hload
      | setSpeed speed => cases hload
  · rintro ⟨title, hmem⟩
    exact ⟨_, ⟨_, hmem, rfl⟩, rfl⟩

theorem mem_observations {fx : List Effect} {path : String} :
    path ∈ observations (outputs fx) ↔ .send (.pathObserved path) ∈ fx := by
  unfold observations outputs
  simp only [mem_filterMap]
  constructor
  · rintro ⟨output, ⟨effect, hmem, heffect⟩, hobserved⟩
    cases effect with
    | call request => cases heffect
    | send output =>
      cases heffect
      cases output with
      | pathObserved p =>
        cases hobserved
        exact hmem
      | _ => cases hobserved
  · intro hmem
    exact ⟨_, ⟨_, hmem, rfl⟩, rfl⟩

theorem Ours.turn (h : d.Ours) (hturn : Discreet cur (handler d.actor.entry))
    (hcur : ∀ o ∈ d.opening ++ d.reports, o.byUser = false → cur.map (·.path) = some o.path) :
    (d.turn handler).Ours where
  commanded o ho hours := by
    show (handler d.actor.entry).current.map (·.path) = some o.path
    rw [hturn.current]
    rcases mem_append.mp ho with ho | ho
    · rcases mem_append.mp ho with ho | ho
      · exact hcur o (mem_append_left _ ho) hours
      · obtain ⟨path, hpath, rfl⟩ := mem_map.mp ho
        obtain ⟨title, hmem⟩ := mem_loads.mp hpath
        exact hturn.loads path title hmem
    · exact hcur o (mem_append_right _ ho) hours
  dragged o ho huser := by
    rcases mem_append.mp ho with ho | ho
    · rcases mem_append.mp ho with ho | ho
      · exact h.dragged o (mem_append_left _ ho) huser
      · obtain ⟨path, _, rfl⟩ := mem_map.mp ho
        cases huser
    · exact h.dragged o (mem_append_right _ ho) huser
  observed path hpath := by
    rcases mem_append.mp hpath with hpath | hpath
    · exact h.observed path hpath
    · exact absurd (mem_observations.mp hpath) (hturn.observed path)

theorem Ours.keep (h : d.Ours) (hturn : Discreet d.actor.current (handler d.actor.entry)) :
    (d.turn handler).Ours := h.turn hturn h.commanded

theorem Ours.unplug (h : d.Ours) : d.unplug.Ours :=
  ⟨fun _ ho => absurd ho not_mem_nil, fun _ ho => absurd ho not_mem_nil, h.observed⟩

theorem Ours.drag (h : d.Ours) (path : String) :
    Ours { d with opening := d.opening ++ [⟨path, true⟩], dragged := d.dragged ++ [path] } := by
  have hmem : ∀ o ∈ (d.opening ++ [⟨path, true⟩]) ++ d.reports,
      o ∈ d.opening ++ d.reports ∨ o = ⟨path, true⟩ := by
    intro o ho
    simp only [mem_append, mem_singleton] at ho ⊢
    tauto
  refine ⟨fun o ho hours => ?_, fun o ho huser => ?_, fun p hp => ?_⟩
  · rcases hmem o ho with ho | rfl
    · exact h.commanded o ho hours
    · cases hours
  · rcases hmem o ho with ho | rfl
    · exact mem_append_left _ (h.dragged o ho huser)
    · exact mem_append_right _ mem_cons_self
  · exact mem_append_left _ (h.observed p hp)

theorem Ours.opens (h : d.Ours) {index : Nat} {o : Opening} (ho : d.opening[index]? = some o) :
    Ours { d with opening := d.opening.eraseIdx index, reports := d.reports ++ [o] } := by
  have hmem : ∀ u ∈ d.opening.eraseIdx index ++ (d.reports ++ [o]), u ∈ d.opening ++ d.reports := by
    intro u hu
    rcases mem_append.mp hu with hu | hu
    · exact mem_append_left _ (mem_of_mem_eraseIdx hu)
    · rcases mem_append.mp hu with hu | hu
      · exact mem_append_right _ hu
      · rw [mem_singleton.mp hu]
        exact mem_append_left _ (mem_of_getElem? ho)
  exact ⟨fun u hu => h.commanded u (hmem u hu), fun u hu => h.dragged u (hmem u hu), h.observed⟩

theorem Ours.report (h : d.Ours) {o : Opening} {reports : List Opening}
    (hreports : d.reports = o :: reports) :
    ({ d with reports := reports }.turn (·.handlePathChanged o.path)).Ours := by
  have hmem : o ∈ d.opening ++ d.reports := by simp [hreports]
  have hrest : Ours { d with reports := reports } := by
    refine ⟨fun u hu => h.commanded u ?_, fun u hu => h.dragged u ?_, h.observed⟩
    all_goals
      rw [hreports]
      rcases mem_append.mp hu with hu | hu
      · exact mem_append_left _ hu
      · exact mem_append_right _ (mem_cons_of_mem _ hu)
  by_cases hours : d.actor.entry.current.any fun current => current.path == o.path
  · refine hrest.keep ?_
    dsimp only [Actor.handlePathChanged]
    rw [if_pos hours]
    exact (discreet_entry d.actor).congr rfl rfl
  · have huser : o.byUser = true := by
      by_contra hnot
      have hpath := h.commanded o hmem (by simpa using hnot)
      obtain ⟨current, hcurrent, hpath⟩ := map_eq_some_iff.mp hpath
      exact hours (by rw [show d.actor.entry.current = _ from hcurrent]; simp [hpath])
    have heffects : (d.actor.entry.handlePathChanged o.path).effects =
        [.send (.pathObserved o.path)] := by
      dsimp only [Actor.handlePathChanged]
      rw [if_neg hours]
      rfl
    have hcurrent : (d.actor.entry.handlePathChanged o.path).current = d.actor.current := by
      dsimp only [Actor.handlePathChanged]
      rw [if_neg hours]
      rfl
    refine ⟨fun u hu hcommanded => ?_, fun u hu => ?_, fun path hpath => ?_⟩
    · show (d.actor.entry.handlePathChanged o.path).current.map (·.path) = _
      rw [hcurrent]
      refine hrest.commanded u ?_ hcommanded
      simpa [Lobby.turn, heffects, requests, loads, Effect.call?] using hu
    · refine hrest.dragged u ?_
      simpa [Lobby.turn, heffects, requests, loads, Effect.call?] using hu
    · rcases mem_append.mp hpath with hpath | hpath
      · exact h.observed path hpath
      · have hsent := mem_observations.mp hpath
        rw [show (d.actor.entry.handlePathChanged o.path).effects = _ from heffects] at hsent
        cases mem_singleton.mp hsent
        exact h.dragged o hmem huser

/-- **One step** whose `Load`s wait. -/
theorem Ours.step (h : d.Ours) {event : LobbyEvent} (hok : d.unhurried event = true)
    (hs : d.step event = some d') : d'.Ours := by
  have hentry := discreet_entry d.actor
  cases event with
  | command env command =>
    cases hs
    by_cases hload : ∃ file path title resume, command = .load file path title resume
    · obtain ⟨file, path, title, resume, rfl⟩ := hload
      refine h.turn (Discreet.handleLoad rfl ⟨file, path, title⟩ resume) fun o ho hours => ?_
      have hall := all_eq_true.mp hok o ho
      simpa [hours, eq_comm] using hall
    · refine h.keep (hentry.handleCommand fun file path title resume heq => hload ?_)
      exact ⟨file, path, title, resume, heq⟩
  | drag path =>
    cases hs
    exact h.drag path
  | opens index =>
    obtain ⟨o, ho, rfl⟩ := map_eq_some_iff.mp hs
    exact h.opens ho
  | report =>
    cases hreports : d.reports with
    | nil => simp [Lobby.step, hreports] at hs
    | cons o reports =>
      simp only [Lobby.step, hreports, Option.some.injEq] at hs
      subst hs
      exact h.report hreports
  | event env event =>
    cases event with
    | pathChanged path => cases hs
    | exited reason =>
      cases hs
      exact (h.keep hentry.handlePlayerDeath).unplug
    | _ =>
      cases hs
      exact h.keep (hentry.handlePlayerEvent nofun)
  | lost env =>
    cases hs
    exact (h.keep hentry.handlePlayerDeath).unplug
  | reattach env up =>
    cases hs
    exact h.keep (hentry.tryReattach up)
  | spawned env delivered =>
    cases hs
    exact h.keep (hentry.finishSpawn delivered)
  | flush =>
    cases hs
    exact h.keep hentry.flushUserSeek
  | tick env =>
    cases hs
    exact h.keep hentry.maybeEmitPosition

/-- **Only dragged-in files are observed**, whatever order the player opens things in and however
late it reports them, as long as a `Load` waits for the reports of the loads before it. -/
theorem only_dragged_observed (env : Env) (attachMode : Bool)
    (hs : Reach step (fun d event => d.unhurried event = true) (start env attachMode) d) :
    ∀ path ∈ d.observed, path ∈ d.dragged := by
  have hours : d.Ours := hs.invariant ⟨nofun,
    nofun, nofun⟩
    fun _ _ _ h hok hstep => h.step hok hstep
  exact hours.observed

/-- The user drags `c` in while `a` is still being opened; the player opens `c` first. -/
def crossing : List LobbyEvent :=
  [.spawned (willing 0) (some true),
   .command (willing 1) (.load 0 "a" none none), .drag "c",
   .opens 1, .report, .opens 0, .report]

theorem only_dragged_observed_crossing :
    ∃ d, runWith step unhurried (start (willing 0) false) crossing = some d ∧
      d.observed = ["c"] ∧ ∀ path ∈ d.observed, path ∈ d.dragged := by
  have hobserved : (runWith step unhurried (start (willing 0) false) crossing).map
      (·.observed) = some ["c"] := by decide +kernel
  obtain ⟨d, hrun, hd⟩ := map_eq_some_iff.mp hobserved
  exact ⟨d, hrun, hd, only_dragged_observed (willing 0) false
    (reach_of_runWith _ (fun _ _ h => h) hrun)⟩

/-- The next `Load` comes before the player has reported the one before. -/
def hurried : List LobbyEvent :=
  [.spawned (willing 0) (some true),
   .command (willing 1) (.load 0 "a" none none), .command (willing 2) (.load 1 "b" none none),
   .opens 0, .report]

theorem late_report_observed :
    ∃ d, run step (start (willing 0) false) hurried = some d ∧
      d.observed = ["a"] ∧ d.dragged = [] := by
  have hrun : (run step (start (willing 0) false) hurried).map
      (fun d => (d.observed, d.dragged)) = some (["a"], []) := by decide +kernel
  obtain ⟨d, hrun, hd⟩ := map_eq_some_iff.mp hrun
  exact ⟨d, hrun, (Prod.mk.inj hd).1, (Prod.mk.inj hd).2⟩

end Lobby

end DessPlay.Player
