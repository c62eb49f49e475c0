/-
  DessPlay.Player.Actor
  **THE PLAYER ACTOR** (`dessplay/src/actors/player.rs`, with the drift controller of
  `dessplay/src/actors/drift.rs`).

  One task between the session and a running media player.  A handler reads the clocks
  and the player's answers from an `Env`; what it asks of the player and reports to the
  session is appended to `effects`, in order, unless the player refuses the call.

  Speeds are rationals.  Overlays and screenshots touch none of the state below and are
  left out.  Where a handler of the source returns `false`, the actor exits: here it
  sets `exited`.
-/
import DessPlay.Sync.Actor

namespace DessPlay.Player

open DessPlay.Core List Option
open Sync (GraceRefusal)

/-! ## §1. The drift controller. -/

inductive DriftAction where
  | none
  | setSpeed (speed : ℚ)
  | hardSeek
  deriving DecidableEq

structure DriftController where
  slew : Option ℚ
  engageRun : Nat
  seekRun : Nat
  sinceCommand : Nat
  deriving DecidableEq

namespace DriftController

def driftEngageMillis : Nat := 150
def driftReleaseMillis : Nat := 25
def driftHardSeekMillis : Nat := 3000
def slewRate : ℚ := 2 / 100
def slewTauMillis : ℚ := 10000
def slewQuantum : ℚ := 8 / 1000
def slewRecommandSamples : Nat := 10
def engageRunLength : Nat := 3

def new : DriftController := ⟨none, 0, 0, 0⟩

/-- The proportional slew, clamped. -/
def slewFor (deltaMillis : Int) : ℚ :=
  1 + max (-slewRate) (min slewRate (deltaMillis / slewTauMillis))

/-- The speed command towards `target`; `close` says whether it is within the quantum of the
one commanded last. -/
def correctIf (close : Bool) (d : DriftController) (target : ℚ) : DriftController × DriftAction :=
  let command := ({ d with slew := some target, sinceCommand := 0 }, .setSpeed target)
  match d.slew with
  | some _ => if close ∨ d.sinceCommand < slewRecommandSamples then (d, .none) else command
  | none => command

/-- `observe`, with the comparison of the speeds answered by `close`. -/
def observeIf (close : Bool) (d : DriftController) (deltaMillis : Int) :
    DriftController × DriftAction :=
  let magnitude := deltaMillis.natAbs
  let d := { d with sinceCommand := min (d.sinceCommand + 1) (2 ^ 32 - 1) }
  if driftHardSeekMillis < magnitude then
    let d := { d with seekRun := d.seekRun + 1 }
    if engageRunLength ≤ d.seekRun then (new, .hardSeek) else (d, .none)
  else
    let d := { d with seekRun := 0 }
    if d.slew.isNone ∧ magnitude < driftEngageMillis then ({ d with engageRun := 0 }, .none)
    else
      let d := if d.slew.isNone then { d with engageRun := d.engageRun + 1 } else d
      if d.slew.isNone ∧ d.engageRun < engageRunLength then (d, .none)
      else
        let d := { d with engageRun := 0 }
        if magnitude < driftReleaseMillis then
          ({ d with slew := none, sinceCommand := 0 }, .setSpeed 1)
        else d.correctIf close (slewFor deltaMillis)

def observe (d : DriftController) (deltaMillis : Int) : DriftController × DriftAction :=
  d.observeIf (d.slew.any fun current => |slewFor deltaMillis - current| < slewQuantum) deltaMillis

end DriftController

/-! ## §2. The actor's vocabulary. -/

abbrev SpeakerName : Type := { name : String // name ≠ "" }

/-- What the session asks of the actor. -/
inductive PlayerCommand where
  | load (file : Ed2kHash) (path : String) (title : Option String) (resumeMillis : Option Nat)
  | setPlaying (playing : Bool)
  | setGraceLock (locked : Bool)
  | syncTo (positionMillis : Nat) (timestamp : SharedTimestamp) (playing : Bool)
  | releaseSlew
  | recoverFalseEof (positionMillis : Option Nat)
  | clockOffset (offsetMillis : Int)
  | shutdown
  deriving DecidableEq

/-- What the player reports. -/
inductive PlayerEvent where
  | pauseChanged (paused : Bool)
  | seeked (positionMillis : Nat)
  | position (positionMillis : Nat)
  | durationKnown (durationMillis : ℕ+)
  | loaded
  | loadFailed
  | pathChanged (path : String)
  | subtitleLine (text : String) (speaker : Option SpeakerName)
  | eof
  | exited (clean : Bool)
  deriving DecidableEq

/-- What the actor reports to the session. -/
inductive PlayerOutput where
  | userPaused
  | userUnpaused
  | graceRefused (refusal : GraceRefusal)
  | userSeeked (fromMillis toMillis : Nat)
  | positionTick (file : Ed2kHash) (positionMillis : Nat)
  | durationKnown (file : Ed2kHash) (durationMillis : ℕ+)
  | subtitleLine (text : String) (speaker : Option SpeakerName) (positionMillis : Nat)
  | eof (file : Ed2kHash)
  | loadFailed (file : Ed2kHash)
  | pathObserved (path : String)
  | fatalCrash
  | gaveUp
  deriving DecidableEq

/-- A request to the player. -/
inductive Call where
  | load (path : String) (title : Option String)
  | setPause (paused : Bool)
  | seek (positionMillis : Nat)
  | setSpeed (speed : ℚ)
  deriving DecidableEq

inductive Effect where
  | call (request : Call)
  | send (output : PlayerOutput)
  deriving DecidableEq

def Effect.call? : Effect → Option Call
  | .call request => some request
  | .send _ => none

def Effect.output? : Effect → Option PlayerOutput
  | .call _ => none
  | .send output => some output

def Call.pause? : Call → Option Bool
  | .setPause paused => some paused
  | _ => none

def Call.seek? : Call → Option Nat
  | .seek positionMillis => some positionMillis
  | _ => none

def requests (effects : List Effect) : List Call := effects.filterMap Effect.call?

def outputs (effects : List Effect) : List PlayerOutput := effects.filterMap Effect.output?

def pauses (calls : List Call) : List Bool := calls.filterMap Call.pause?

def seeks (calls : List Call) : List Nat := calls.filterMap Call.seek?

section Append

variable (fx gx : List Effect) (calls more : List Call)

@[simp] theorem requests_append : requests (fx ++ gx) = requests fx ++ requests gx :=
  filterMap_append

@[simp] theorem outputs_append : outputs (fx ++ gx) = outputs fx ++ outputs gx :=
  filterMap_append

@[simp] theorem pauses_append : pauses (calls ++ more) = pauses calls ++ pauses more :=
  filterMap_append

@[simp] theorem seeks_append : seeks (calls ++ more) = seeks calls ++ seeks more :=
  filterMap_append

end Append

/-- What a handler reads: the monotonic and the wall clock, and which requests the player
would accept (a handler makes at most one of each kind). -/
structure Env where
  now : Nat
  clock : Nat
  loadOk : Bool
  pauseOk : Bool
  seekOk : Bool
  speedOk : Bool

/-- A player that accepts every request. -/
def willing (now : Nat) : Env := ⟨now, now, true, true, true, true⟩

/-- The last known position, and when it was taken. -/
structure Estimate where
  millis : Nat
  takenAt : Nat
  deriving DecidableEq

/-- A user seek waiting out the debounce window. -/
structure UserScrub where
  fromMillis : Nat
  toMillis : Nat
  movedAt : Nat
  deriving DecidableEq

structure CurrentFile where
  file : Ed2kHash
  path : String
  title : Option String
  deriving DecidableEq

def positionCadencePlaying : Nat := 100
def positionCadencePaused : Nat := 1000
def seekDebounce : Nat := 1500
def crashFatalWindow : Nat := 30000
def crashGiveUpCount : Nat := 3
def reattachBackoffInitial : Nat := 500
def reattachBackoffMax : Nat := 10000

/-- `f64::EPSILON`. -/
def speedEpsilon : ℚ := 1 / 2 ^ 52

/-- `factory` is `false` exactly while a background launch holds it. -/
structure Actor where
  factory : Bool
  offsetMillis : Int
  player : Bool
  current : Option CurrentFile
  observedPath : Option String
  desiredPlaying : Bool
  believedPause : Option Bool
  speed : ℚ
  drift : DriftController
  pendingPauseEchoes : List Bool
  pendingSeekEchoes : Nat
  pendingUserSeek : Option UserScrub
  graceLock : Bool
  restoreMillis : Option Nat
  estimate : Option Estimate
  lastPositionEmit : Option Nat
  eofReported : Bool
  lastDeath : Option Nat
  consecutiveCrashes : Nat
  attachMode : Bool
  reattachAt : Option Nat
  reattachBackoff : Nat
  pendingSpawn : Bool
  spawnFailureExits : Bool
  exited : Bool
  effects : List Effect
  deriving DecidableEq

namespace Actor

variable (a : Actor) (env : Env)

/-! ## §3. Positions and requests to the player. -/

def entry : Actor := { a with effects := [] }

def call (request : Call) : Actor := { a with effects := a.effects ++ [.call request] }

def send (output : PlayerOutput) : Actor := { a with effects := a.effects ++ [.send output] }

/-- The shared clock, saturating in `u64`. -/
def sharedNow : Nat := min (env.clock + a.offsetMillis).toNat (2 ^ 64 - 1)

/-- The position by dead reckoning. -/
def estimateNow : Option Nat :=
  a.estimate.map fun est =>
    if a.believedPause = some false then
      est.millis + ⌊((env.now - est.takenAt : Nat) : ℚ) * a.speed⌋.toNat
    else est.millis

def notePosition (millis : Nat) : Actor := { a with estimate := some ⟨millis, env.now⟩ }

def reanchorEstimate : Actor :=
  match a.estimateNow env with
  | some millis => a.notePosition env millis
  | none => a

def playerOnCurrentFile : Bool :=
  match a.observedPath, a.current with
  | some observed, some current => observed == current.path
  | _, _ => false

/-- Pause or unpause as desired, and expect the echo. -/
def applyDesiredPause : Actor :=
  let target := !a.desiredPlaying
  if a.current.isNone ∨ a.believedPause = some target then a
  else if a.player ∧ env.pauseOk then
    let a := (a.call (.setPause target)).reanchorEstimate env
    { a with
      believedPause := some target
      pendingPauseEchoes := a.pendingPauseEchoes ++ [target] }
  else a

def setSpeed (speed : ℚ) : Actor :=
  if |a.speed - speed| < speedEpsilon then a
  else if a.player ∧ env.speedOk then
    { (a.call (.setSpeed speed)).reanchorEstimate env with speed := speed }
  else a

/-- The actor's own seek: its echo is expected. -/
def seekProgrammatic (targetMillis : Nat) : Actor :=
  if a.player ∧ env.seekOk then
    { (a.call (.seek targetMillis)).notePosition env targetMillis with
      pendingSeekEchoes := a.pendingSeekEchoes + 1 }
  else a

/-- Ask the player for a file; a refusal is reported. -/
def askFor (current : CurrentFile) : Actor :=
  if env.loadOk then a.call (.load current.path current.title)
  else a.send (.loadFailed current.file)

/-! ## §4. Launching a player. -/

def beginSpawn (failureExits : Bool) : Actor :=
  if a.factory then
    { a with factory := false, spawnFailureExits := failureExits, pendingSpawn := true }
  else a

def beginReattach : Actor :=
  { a with
    restoreMillis := a.estimateNow env
    speed := 1
    drift := .new
    estimate := none
    reattachBackoff := reattachBackoffInitial
    reattachAt := some env.now }

/-- Count a death; the second in quick succession is reported. -/
def noteCrash : Actor :=
  let recent := a.lastDeath.any fun died => env.now - died < crashFatalWindow
  let a := { a with
    consecutiveCrashes := if recent then a.consecutiveCrashes + 1 else 1
    lastDeath := some env.now }
  if a.consecutiveCrashes = 2 then a.send .fatalCrash else a

def handleCrash : Actor :=
  let a := a.noteCrash env
  if crashGiveUpCount ≤ a.consecutiveCrashes then
    { a.send .gaveUp with speed := 1, estimate := none }
  else
    beginSpawn { a with
      restoreMillis := a.estimateNow env
      speed := 1
      drift := .new
      estimate := none } true

/-- The player went away: its evidence and the echoes awaited from it go with it. -/
def dropPlayer : Actor :=
  { a with
    player := false
    observedPath := none
    pendingPauseEchoes := []
    pendingSeekEchoes := 0
    pendingUserSeek := none
    believedPause := none }

def handlePlayerDeath : Actor :=
  let a := a.dropPlayer
  if a.attachMode then a.beginReattach env else a.handleCrash env

/-- One attempt to re-attach; `up` says whether the player answered in time. -/
def tryReattach (up : Bool) : Actor :=
  let a := { a with reattachAt := none }
  if !a.factory then a
  else if up then
    let a := { a with reattachBackoff := reattachBackoffInitial, player := true }
    match a.current with
    | some current => if env.loadOk then a.call (.load current.path current.title) else a
    | none => a
  else
    { a with
      reattachAt := some (env.now + a.reattachBackoff)
      reattachBackoff := min (a.reattachBackoff * 2) reattachBackoffMax }

/-- A background launch delivered its result, or died without one (`none`). -/
def finishSpawn (delivered : Option Bool) : Actor :=
  let a := { a with pendingSpawn := false }
  match delivered with
  | none => { a.send .fatalCrash with exited := true }
  | some true =>
    let a := { a with factory := true, player := true }
    match a.current with
    | some current => a.askFor env current
    | none => a
  | some false =>
    let a := { a with factory := true }
    { a.send .fatalCrash with exited := a.spawnFailureExits }

/-! ## §5. Commands. -/

def driftCorrect (sample : Nat) (timestamp : SharedTimestamp) (playing : Bool) : Actor :=
  if !a.playerOnCurrentFile then { a with drift := .new }
  else if a.pendingUserSeek.isSome then a
  else
    match a.estimateNow env with
    | none => a
    | some current =>
      let target := if playing then
          min (sample + (a.sharedNow env - timestamp)) (2 ^ 64 - 1)
        else sample
      let (drift, action) := a.drift.observe (target - current)
      let a := { a with drift := drift }
      match action with
      | .none => a
      | .setSpeed slew => a.setSpeed env slew
      | .hardSeek => (a.setSpeed env 1).seekProgrammatic env target

/-- The previous file's state is moot; the session's resume point takes the place of a
crash-restore point, and the load contract says the file opens paused. -/
def turnTo (current : CurrentFile) (resumeMillis : Option Nat) : Actor :=
  { a with
    current := some current
    eofReported := false
    restoreMillis := resumeMillis
    pendingUserSeek := none
    pendingPauseEchoes := []
    pendingSeekEchoes := 0
    estimate := none
    believedPause := some true
    drift := .new }

/-- A different file is a clean slate for the crash counter, and brings a player back after
a crash loop. -/
def cleanSlate : Actor :=
  let a := { a with consecutiveCrashes := 0, lastDeath := none }
  if !a.player ∧ a.reattachAt.isNone ∧ !a.pendingSpawn then a.beginSpawn false else a

def handleLoad (current : CurrentFile) (resumeMillis : Option Nat) : Actor :=
  let different := a.current.map (·.file) ≠ some current.file
  let a := (a.turnTo current resumeMillis).setSpeed env 1
  let a := if different then a.cleanSlate else a
  if a.player then a.askFor env current else a

/-- A scrub still debouncing when the window opens is undone. -/
def handleGraceLock (locked : Bool) : Actor :=
  let a :=
    if locked ∧ !a.graceLock then
      match a.pendingUserSeek with
      | some scrub =>
        ({ a with pendingUserSeek := none }.seekProgrammatic env scrub.fromMillis).send
          (.graceRefused .seek)
      | none => a
    else a
  { a with graceLock := locked }

def handleCommand : PlayerCommand → Actor
  | .load file path title resumeMillis => a.handleLoad env ⟨file, path, title⟩ resumeMillis
  | .setPlaying playing => { a with desiredPlaying := playing }.applyDesiredPause env
  | .setGraceLock locked => a.handleGraceLock env locked
  | .syncTo positionMillis timestamp playing => a.driftCorrect env positionMillis timestamp playing
  | .releaseSlew => { a with drift := .new }.setSpeed env 1
  | .recoverFalseEof positionMillis =>
    let a := { a with eofReported := false }
    match positionMillis with
    | some target => a.seekProgrammatic env target
    | none => a
  | .clockOffset offsetMillis => { a with offsetMillis := offsetMillis }
  | .shutdown => { a with exited := true }

/-! ## §6. Observations. -/

def handlePauseObservation (paused : Bool) : Actor :=
  let a := { a.reanchorEstimate env with believedPause := some paused }
  if a.pendingPauseEchoes.head? = some paused then
    { a with pendingPauseEchoes := a.pendingPauseEchoes.tail }
  else
    let a := { a with pendingPauseEchoes := [] }
    if paused ∧ a.graceLock ∧ a.desiredPlaying then
      (a.applyDesiredPause env).send (.graceRefused .pause)
    else a.send (if paused then .userPaused else .userUnpaused)

/-- A seek of the file that is up; one the actor did not command is debounced, or undone
inside a grace window. -/
def acceptSeek (positionMillis : Nat) (echo : Bool) : Actor :=
  let fromMillis :=
    ((a.pendingUserSeek.map (·.fromMillis)).or (a.estimateNow env)).getD positionMillis
  let a := { a with eofReported := false }.notePosition env positionMillis
  if !echo ∧ a.graceLock then
    (a.seekProgrammatic env fromMillis).send (.graceRefused .seek)
  else if !echo then
    { a with pendingUserSeek := some ⟨fromMillis, positionMillis, env.now⟩ }
  else a

/-- An expected echo is consumed whatever file is up; a seek of another file is dropped. -/
def handleSeeked (positionMillis : Nat) : Actor :=
  let echo : Bool := 0 < a.pendingSeekEchoes
  let a := { a with pendingSeekEchoes := a.pendingSeekEchoes - 1 }
  if a.playerOnCurrentFile then a.acceptSeek env positionMillis echo else a

/-- The file is open: restore the place, then the pause state. -/
def handleLoaded : Actor :=
  let a := { a with believedPause := some true }
  let a := if a.estimate.isNone then a.notePosition env 0 else a
  let a := match a.restoreMillis with
    | some millis => { a with restoreMillis := none }.seekProgrammatic env millis
    | none => a
  a.applyDesiredPause env

def handlePathChanged (path : String) : Actor :=
  let a := { a with observedPath := some path }
  if a.current.any fun current => current.path == path then a
  else { a with drift := .new }.send (.pathObserved path)

def handlePlayerEvent : PlayerEvent → Actor
  | .pauseChanged paused => a.handlePauseObservation env paused
  | .seeked positionMillis => a.handleSeeked env positionMillis
  | .position positionMillis =>
    if a.playerOnCurrentFile then a.notePosition env positionMillis else a
  | .durationKnown durationMillis =>
    match a.current with
    | some current =>
      if a.playerOnCurrentFile then a.send (.durationKnown current.file durationMillis) else a
    | none => a
  | .loaded => a.handleLoaded env
  | .pathChanged path => a.handlePathChanged path
  | .subtitleLine text speaker =>
    a.send (.subtitleLine text speaker ((a.estimateNow env).getD 0))
  | .eof =>
    match a.current with
    | some current =>
      if !a.eofReported ∧ a.playerOnCurrentFile then
        { a with eofReported := true }.send (.eof current.file)
      else a
    | none => a
  | .loadFailed =>
    match a.current with
    | some current => a.send (.loadFailed current.file)
    | none => a
  | .exited _ => a.handlePlayerDeath env

def flushUserSeek : Actor :=
  match a.pendingUserSeek with
  | some scrub =>
    { a with pendingUserSeek := none }.send (.userSeeked scrub.fromMillis scrub.toMillis)
  | none => a

def maybeEmitPosition : Actor :=
  if !a.playerOnCurrentFile then a
  else
    match a.estimateNow env, a.current with
    | some positionMillis, some current =>
      let cadence :=
        if a.believedPause = some false then positionCadencePlaying else positionCadencePaused
      if a.lastPositionEmit.all fun emitted => cadence ≤ env.now - emitted then
        { a with lastPositionEmit := some env.now }.send
          (.positionTick current.file positionMillis)
      else a
    | _, _ => a

/-- The actor as `run` builds it, before its first launch. -/
def idle (attachMode : Bool) : Actor where
  factory := true
  offsetMillis := 0
  player := false
  current := none
  observedPath := none
  desiredPlaying := false
  believedPause := none
  speed := 1
  drift := .new
  pendingPauseEchoes := []
  pendingSeekEchoes := 0
  pendingUserSeek := none
  graceLock := false
  restoreMillis := none
  estimate := none
  lastPositionEmit := none
  eofReported := false
  lastDeath := none
  consecutiveCrashes := 0
  attachMode := attachMode
  reattachAt := none
  reattachBackoff := reattachBackoffInitial
  pendingSpawn := false
  spawnFailureExits := false
  exited := false
  effects := []

/-- The first thing `run` does: attach to a player, or launch one. -/
def start (attachMode : Bool) : Actor :=
  if attachMode then (idle attachMode).beginReattach env else (idle attachMode).beginSpawn true

/-! ## §7. What a request changes. -/

theorem reanchorEstimate_eq :
    a.reanchorEstimate env = { a with estimate := (a.estimateNow env).map (⟨·, env.now⟩) } := by
  unfold reanchorEstimate
  cases he : a.estimateNow env with
  | some millis => rfl
  | none =>
    have hnone : a.estimate = none := map_eq_none_iff.mp he
    rw [map_none, ← hnone]

theorem applyDesiredPause_cases :
    a.applyDesiredPause env = a ∨
      a.believedPause ≠ some (!a.desiredPlaying) ∧
      a.applyDesiredPause env = { a with
        effects := a.effects ++ [.call (.setPause (!a.desiredPlaying))]
        estimate := (a.estimateNow env).map (⟨·, env.now⟩)
        believedPause := some (!a.desiredPlaying)
        pendingPauseEchoes := a.pendingPauseEchoes ++ [!a.desiredPlaying] } := by
  simp only [applyDesiredPause]
  split
  · exact .inl rfl
  next hidle =>
    split
    · refine .inr ⟨fun h => hidle (.inr h), ?_⟩
      rw [reanchorEstimate_eq]
      rfl
    · exact .inl rfl

theorem setSpeed_cases (speed : ℚ) :
    a.setSpeed env speed = a ∨
      a.setSpeed env speed = { a with
        effects := a.effects ++ [.call (.setSpeed speed)]
        estimate := (a.estimateNow env).map (⟨·, env.now⟩)
        speed := speed } := by
  simp only [setSpeed]
  split
  · exact .inl rfl
  · split
    · right
      rw [reanchorEstimate_eq]
      rfl
    · exact .inl rfl

theorem seekProgrammatic_cases (targetMillis : Nat) :
    a.seekProgrammatic env targetMillis = a ∨
      a.seekProgrammatic env targetMillis = { a with
        effects := a.effects ++ [.call (.seek targetMillis)]
        estimate := some ⟨targetMillis, env.now⟩
        pendingSeekEchoes := a.pendingSeekEchoes + 1 } := by
  unfold seekProgrammatic
  split
  · exact .inr rfl
  · exact .inl rfl

theorem noteCrash_eq :
    ∃ crashes fx, requests fx = [] ∧ a.noteCrash env = { a with
      consecutiveCrashes := crashes
      lastDeath := some env.now
      effects := a.effects ++ fx } := by
  simp only [noteCrash]
  generalize (if (a.lastDeath.any fun died => env.now - died < crashFatalWindow) = true then
    a.consecutiveCrashes + 1 else 1) = crashes
  split
  · exact ⟨crashes, [.send .fatalCrash], rfl, rfl⟩
  · exact ⟨crashes, [], rfl, by rw [append_nil]⟩

/-- A drift sample leaves the player alone, or slews or seeks it; the latter two only with
the current file up, no user scrub pending and a position to compare with. -/
theorem driftCorrect_cases (sample : Nat) (timestamp : SharedTimestamp) (playing : Bool) :
    ∃ drift, a.driftCorrect env sample timestamp playing = { a with drift := drift } ∨
      a.playerOnCurrentFile = true ∧ a.pendingUserSeek = none ∧ a.estimate ≠ none ∧
        ((∃ slew, a.driftCorrect env sample timestamp playing =
          { a with drift := drift }.setSpeed env slew) ∨
        ∃ target, a.driftCorrect env sample timestamp playing =
          ({ a with drift := drift }.setSpeed env 1).seekProgrammatic env target) := by
  unfold driftCorrect
  split
  · exact ⟨.new, .inl rfl⟩
  next hfile =>
    split
    · exact ⟨a.drift, .inl rfl⟩
    next hscrub =>
      split
      · exact ⟨a.drift, .inl rfl⟩
      next current hcurrent =>
        have hestimate : a.estimate ≠ none := fun h => by
          rw [estimateNow, h] at hcurrent
          cases hcurrent
        have hopen : a.playerOnCurrentFile = true := by simpa using hfile
        have hidle : a.pendingUserSeek = none := not_isSome_iff_eq_none.mp hscrub
        generalize (if playing then min (sample + (a.sharedNow env - timestamp)) (2 ^ 64 - 1)
          else sample) = target
        dsimp only
        cases hact : a.drift.observe (target - current) with
        | mk drift action =>
          refine ⟨drift, ?_⟩
          cases action with
          | none => exact .inl rfl
          | setSpeed slew => exact .inr ⟨hopen, hidle, hestimate, .inl ⟨slew, rfl⟩⟩
          | hardSeek => exact .inr ⟨hopen, hidle, hestimate, .inr ⟨target, rfl⟩⟩

theorem handleGraceLock_cases (locked : Bool) :
    a.handleGraceLock env locked = { a with graceLock := locked } ∧
      (locked = true → a.graceLock = false → a.pendingUserSeek = none) ∨
    locked = true ∧ ∃ scrub, a.pendingUserSeek = some scrub ∧ a.handleGraceLock env locked =
      ({ a with pendingUserSeek := none, graceLock := true }.seekProgrammatic env
        scrub.fromMillis).send (.graceRefused .seek) := by
  simp only [handleGraceLock]
  split
  next hopens =>
    obtain ⟨rfl, _⟩ := hopens
    split
    next scrub hscrub =>
      refine .inr ⟨rfl, scrub, hscrub, ?_⟩
      simp only [seekProgrammatic]
      split <;> rfl
    next hscrub => exact .inl ⟨rfl, fun _ _ => hscrub⟩
  next hstays => exact .inl ⟨rfl, fun hlocked hopen => absurd ⟨hlocked, by simp [hopen]⟩ hstays⟩

section AcceptSeek

variable (positionMillis : Nat)

/-- The actor with a seek noted. -/
def noteSeek : Actor := { a with eofReported := false }.notePosition env positionMillis

theorem acceptSeek_undone (hlock : a.graceLock = true) :
    ∃ back, a.acceptSeek env positionMillis false =
      ((a.noteSeek env positionMillis).seekProgrammatic env back).send (.graceRefused .seek) :=
  ⟨_, if_pos ⟨rfl, hlock⟩⟩

theorem acceptSeek_scrub (hlock : a.graceLock = false) :
    ∃ scrub, scrub.toMillis = positionMillis ∧ a.acceptSeek env positionMillis false =
      { a.noteSeek env positionMillis with pendingUserSeek := some scrub } := by
  refine ⟨⟨_, positionMillis, env.now⟩, rfl, if_neg ?_⟩
  rintro ⟨_, h⟩
  cases hlock.symm.trans h

end AcceptSeek

def opened : Actor :=
  { a with believedPause := some true, estimate := a.estimate.or (some ⟨0, env.now⟩) }

theorem handleLoaded_restore {millis : Nat} (h : a.restoreMillis = some millis) :
    a.handleLoaded env =
      ({ a.opened env with restoreMillis := none }.seekProgrammatic env millis).applyDesiredPause
        env := by
  unfold handleLoaded opened
  cases he : a.estimate with
  | none => simp only [h, isNone_none, if_true, notePosition, none_or]
  | some est => simp [h]

theorem handleLoaded_fresh (h : a.restoreMillis = none) :
    a.handleLoaded env = (a.opened env).applyDesiredPause env := by
  unfold handleLoaded opened
  cases he : a.estimate with
  | none => simp only [h, isNone_none, if_true, notePosition, none_or]
  | some est => simp [h]

theorem maybeEmitPosition_cases :
    a.maybeEmitPosition env = a ∨ ∃ file millis, a.maybeEmitPosition env =
      { a with lastPositionEmit := some env.now }.send (.positionTick file millis) := by
  unfold maybeEmitPosition
  split
  · exact .inl rfl
  split
  next millis current _ _ =>
    generalize (if a.believedPause = some false then positionCadencePlaying
      else positionCadencePaused) = cadence
    dsimp only
    split
    · exact .inr ⟨current.file, millis, rfl⟩
    · exact .inl rfl
  · exact .inl rfl

end Actor

end DessPlay.Player
