/-
  DessPlay.Player.Place
  **THE PLACE IN THE FILE, HANDLER BY HANDLER.**

  What one call of the actor does to the position it keeps.  A handler that neither loads a
  file nor loses the player leaves the estimate at the newest position observed or commanded
  (`Moves`).  A death turns the estimate into the restore point (`Died`), a load or a new
  player keeps that point (`Reloads`), and the `Loaded` of the current file seeks to it
  (`Reopened`).
-/
import DessPlay.Player.Actor

namespace DessPlay.Player

open DessPlay.Core List Option

/-! ## §1. Loads and positions. -/

def Call.load? : Call → Option String
  | .load path _ => some path
  | _ => none

def loads (calls : List Call) : List String := calls.filterMap Call.load?

@[simp] theorem loads_append (calls more : List Call) :
    loads (calls ++ more) = loads calls ++ loads more :=
  filterMap_append

def Actor.millis (a : Actor) : Option Nat := a.estimate.map (·.millis)

def PlayerEvent.reported? : PlayerEvent → Option Nat
  | .position positionMillis | .seeked positionMillis => some positionMillis
  | _ => none

/-- The newest position after the effects `fx`: the last one sought, else the one observed. -/
def newest (fx : List Effect) (observed : Option Nat) : Option Nat :=
  (seeks (requests fx)).getLast?.or observed

/-! ## §2. What a handler does to the place. -/

def Actor.frame (a : Actor) :=
  (a.restoreMillis, a.current, a.observedPath, a.player, a.pendingSpawn, a.reattachAt)

/-- The actor has a player, launches one, or waits for one; never two of these. -/
structure OnePlayer (a : Actor) : Prop where
  spawn : a.player = true → a.pendingSpawn = false
  reattach : a.player = true → a.reattachAt = none
  either : a.pendingSpawn = true → a.reattachAt = none

/-- From `a` to `a'` the actor had the effects `fx` and observed `observed`: its estimate is
the newest position of these, and without one it does not make a position up. -/
structure Moves (a a' : Actor) (fx : List Effect) (observed : Option Nat) : Prop where
  effects : a'.effects = a.effects ++ fx
  loads : loads (requests fx) = []
  frame : a'.frame = a.frame
  known : ∀ millis, newest fx observed = some millis → a'.millis = some millis
  blank : a.estimate = none → newest fx observed = none → a'.estimate = none
  stays : a.estimate ≠ none → a'.estimate ≠ none
  scrub : a.pendingUserSeek = none → observed = none → a'.pendingUserSeek = none

namespace Moves

variable {a b c : Actor} {fx gx : List Effect} {observed : Option Nat} (env : Env)

/-- The fields a `Moves` is about. -/
def view (a : Actor) := (a.effects, a.frame, a.estimate, a.pendingUserSeek)

theorem keep (h : view b = view a) : Moves a b [] none := by
  simp only [view, Prod.mk.injEq] at h
  obtain ⟨heffects, hframe, hestimate, hscrub⟩ := h
  refine ⟨by rw [heffects, append_nil], rfl, hframe, fun _ h => ?_, ?_, ?_, ?_⟩
  · cases h
  · exact fun h _ => hestimate.trans h
  · exact fun h hnone => h (hestimate.symm.trans hnone)
  · exact fun h _ => hscrub.trans h

theorem of_view (h : Moves a b fx observed) (hview : view a = view c) : Moves c b fx observed := by
  simp only [view, Prod.mk.injEq] at hview
  obtain ⟨heffects, hframe, hestimate, hscrub⟩ := hview
  exact ⟨heffects ▸ h.effects, h.loads, h.frame.trans hframe, h.known,
    fun hc => h.blank (hestimate.trans hc),
    fun hc => h.stays fun ha => hc (hestimate.symm.trans ha),
    fun hc => h.scrub (hscrub.trans hc)⟩

theorem to_view (h : Moves a b fx observed) (hview : view c = view b) : Moves a c fx observed := by
  simp only [view, Prod.mk.injEq] at hview
  obtain ⟨heffects, hframe, hestimate, hscrub⟩ := hview
  exact ⟨heffects.trans h.effects, h.loads, hframe.trans h.frame,
    fun millis hm => (congrArg (Option.map Estimate.millis) hestimate).trans (h.known millis hm),
    fun ha hn => hestimate.trans (h.blank ha hn), fun ha hn => h.stays ha (hestimate.symm.trans hn),
    fun ha ho => hscrub.trans (h.scrub ha ho)⟩

theorem send (h : Moves a b fx observed) (output : PlayerOutput) :
    Moves a (b.send output) (fx ++ [.send output]) observed := by
  have hsame : newest (fx ++ [.send output]) observed = newest fx observed := by
    rw [newest, requests_append, seeks_append, show seeks (requests [.send output]) = [] from rfl,
      append_nil, newest]
  refine ⟨?_, ?_, h.frame, ?_, ?_, h.stays, h.scrub⟩
  · show b.effects ++ _ = _
    rw [h.effects, append_assoc]
  · rw [requests_append, loads_append, h.loads]
    rfl
  · rw [hsame]
    exact h.known
  · rw [hsame]
    exact h.blank

theorem after (hab : Moves a b fx none) (hfx : seeks (requests fx) = [])
    (hbc : Moves b c gx observed) : Moves a c (fx ++ gx) observed := by
  have hsame : newest (fx ++ gx) observed = newest gx observed := by
    rw [newest, requests_append, seeks_append, hfx, nil_append, newest]
  have hnone : newest fx none = none := by rw [newest, hfx]; rfl
  refine ⟨?_, ?_, hbc.frame.trans hab.frame, ?_, ?_, fun ha => hbc.stays (hab.stays ha), ?_⟩
  · rw [hbc.effects, hab.effects, append_assoc]
  · rw [requests_append, loads_append, hab.loads, hbc.loads]
    rfl
  · rw [hsame]
    exact hbc.known
  · rw [hsame]
    exact fun ha hn => hbc.blank (hab.blank ha hnone) hn
  · exact fun ha ho => hbc.scrub (hab.scrub ha rfl) ho

variable (a)

theorem settle {request : Call} (hseek : request.seek? = none) (hload : request.load? = none)
    (heffects : b.effects = a.effects ++ [.call request]) (hframe : b.frame = a.frame)
    (hestimate : b.estimate = (a.estimateNow env).map (⟨·, env.now⟩))
    (hscrub : b.pendingUserSeek = a.pendingUserSeek) :
    Moves a b [.call request] none ∧ seeks (requests [.call request]) = [] := by
  have hseeks : seeks (requests [.call request]) = [] := by
    simp [requests, Effect.call?, seeks, hseek]
  refine ⟨⟨heffects, ?_, hframe, fun _ hm => ?_, fun ha _ => ?_, fun ha => ?_,
    fun ha _ => hscrub.trans ha⟩, hseeks⟩
  · simp [requests, Effect.call?, Player.loads, hload]
  · rw [newest, hseeks] at hm
    cases hm
  · rw [hestimate, Actor.estimateNow, ha]
    rfl
  · rw [hestimate]
    simpa [Actor.estimateNow] using ha

theorem applyDesiredPause :
    ∃ fx, Moves a (a.applyDesiredPause env) fx none ∧ seeks (requests fx) = [] := by
  rcases a.applyDesiredPause_cases env with h | ⟨_, h⟩
  · exact ⟨[], keep (congrArg view h), rfl⟩
  · rw [h]
    exact ⟨_, settle a env rfl rfl rfl rfl rfl rfl⟩

theorem setSpeed (speed : ℚ) :
    ∃ fx, Moves a (a.setSpeed env speed) fx none ∧ seeks (requests fx) = [] := by
  rcases a.setSpeed_cases env speed with h | h
  · exact ⟨[], keep (congrArg view h), rfl⟩
  · rw [h]
    exact ⟨_, settle a env rfl rfl rfl rfl rfl rfl⟩

theorem seekProgrammatic (targetMillis : Nat) :
    ∃ fx, Moves a (a.seekProgrammatic env targetMillis) fx none := by
  rcases a.seekProgrammatic_cases env targetMillis with h | h
  · exact ⟨[], keep (congrArg view h)⟩
  · rw [h]
    refine ⟨[.call (.seek targetMillis)], rfl, rfl, rfl, ?_, fun _ h => ?_, fun _ h => ?_,
      fun h _ => h⟩
    · intro millis hm
      cases hm
      rfl
    · cases h
    · cases h

theorem driftCorrect (sample : Nat) (timestamp : SharedTimestamp) (playing : Bool) :
    ∃ fx, Moves a (a.driftCorrect env sample timestamp playing) fx none ∧
      (a.estimate = none → seeks (requests fx) = []) := by
  obtain ⟨drift, h | ⟨_, _, hestimate, ⟨slew, h⟩ | ⟨target, h⟩⟩⟩ :=
    a.driftCorrect_cases env sample timestamp playing <;> rw [h]
  · exact ⟨[], keep rfl, fun _ => rfl⟩
  · obtain ⟨fx, hm, hfx⟩ := setSpeed { a with drift := drift } env slew
    exact ⟨fx, hm.of_view rfl, fun _ => hfx⟩
  · obtain ⟨fx, hm, hfx⟩ := setSpeed { a with drift := drift } env 1
    obtain ⟨gx, hm'⟩ := seekProgrammatic ({ a with drift := drift }.setSpeed env 1) env target
    exact ⟨fx ++ gx, (hm.after hfx hm').of_view rfl, fun hnone => absurd hnone hestimate⟩

theorem handleGraceLock (locked : Bool) :
    ∃ fx, Moves a (a.handleGraceLock env locked) fx none ∧
      (a.pendingUserSeek = none → seeks (requests fx) = []) := by
  obtain ⟨h, _⟩ | ⟨rfl, scrub, hscrub, h⟩ := a.handleGraceLock_cases env locked
  · rw [h]
    exact ⟨[], keep rfl, fun _ => rfl⟩
  · obtain ⟨fx, hm⟩ := seekProgrammatic { a with pendingUserSeek := none, graceLock := true } env
      scrub.fromMillis
    have hsent := hm.send (.graceRefused .seek)
    rw [← h] at hsent
    refine ⟨_, { hsent with scrub := fun _ => hsent.scrub rfl }, fun hnone => ?_⟩
    cases hnone.symm.trans hscrub

theorem handleCommand {command : PlayerCommand}
    (hload : ∀ file path title resumeMillis, command ≠ .load file path title resumeMillis) :
    ∃ fx, Moves a (a.handleCommand env command) fx none ∧
      (a.estimate = none → a.pendingUserSeek = none →
        (∀ target, command = .recoverFalseEof (some target) → a.player = false) →
        seeks (requests fx) = []) := by
  cases command with
  | load file path title resumeMillis => exact absurd rfl (hload file path title resumeMillis)
  | setPlaying playing =>
    obtain ⟨fx, hm, hfx⟩ := applyDesiredPause { a with desiredPlaying := playing } env
    exact ⟨fx, hm.of_view rfl, fun _ _ _ => hfx⟩
  | setGraceLock locked =>
    obtain ⟨fx, hm, hfx⟩ := handleGraceLock a env locked
    exact ⟨fx, hm, fun _ hscrub _ => hfx hscrub⟩
  | syncTo sample timestamp playing =>
    obtain ⟨fx, hm, hfx⟩ := driftCorrect a env sample timestamp playing
    exact ⟨fx, hm, fun hnone _ _ => hfx hnone⟩
  | releaseSlew =>
    obtain ⟨fx, hm, hfx⟩ := setSpeed { a with drift := .new } env 1
    exact ⟨fx, hm.of_view rfl, fun _ _ _ => hfx⟩
  | recoverFalseEof target =>
    cases target with
    | none => exact ⟨[], keep rfl, fun _ _ _ => rfl⟩
    | some target =>
      cases hplayer : a.player with
      | false =>
        have heq : a.handleCommand env (.recoverFalseEof (some target)) =
            { a with eofReported := false } :=
          if_neg fun h => by cases hplayer.symm.trans h.1
        rw [heq]
        exact ⟨[], keep rfl, fun _ _ _ => rfl⟩
      | true =>
        obtain ⟨fx, hm⟩ := seekProgrammatic { a with eofReported := false } env target
        exact ⟨fx, hm.of_view rfl, fun _ _ h => by cases h target rfl⟩
  | clockOffset offsetMillis => exact ⟨[], keep rfl, fun _ _ _ => rfl⟩
  | shutdown => exact ⟨[], keep rfl, fun _ _ _ => rfl⟩

theorem observe {millis : Nat} (heffects : b.effects = a.effects) (hframe : b.frame = a.frame)
    (hmillis : b.millis = some millis) : Moves a b [] (some millis) := by
  refine ⟨by rw [heffects, append_nil], rfl, hframe, fun other h => ?_, fun _ h => ?_,
    fun _ h => ?_, fun _ h => ?_⟩
  · cases h
    exact hmillis
  · cases h
  · rw [Actor.millis, h] at hmillis
    cases hmillis
  · cases h

theorem acceptSeek (positionMillis : Nat) (echo : Bool) :
    ∃ fx, Moves a (a.acceptSeek env positionMillis echo) fx (some positionMillis) := by
  have hnote : Moves a (a.noteSeek env positionMillis) [] (some positionMillis) :=
    observe a rfl rfl rfl
  cases echo with
  | true => exact ⟨[], hnote⟩
  | false =>
    rcases Bool.eq_false_or_eq_true a.graceLock with hlock | hlock
    · obtain ⟨back, h⟩ := a.acceptSeek_undone env positionMillis hlock
      rw [h]
      rcases (a.noteSeek env positionMillis).seekProgrammatic_cases env back with hb | hb
      · rw [hb]
        exact ⟨_, hnote.send _⟩
      · rw [hb]
        refine ⟨[.call (.seek back), .send (.graceRefused .seek)], ?_, rfl, rfl, ?_, ?_, ?_, ?_⟩
        · simp [Actor.send, Actor.noteSeek, Actor.notePosition]
        · intro millis hm
          cases hm
          rfl
        · intro _ h
          cases h
        · intro _ h
          cases h
        · intro _ h
          cases h
    · obtain ⟨scrub, _, h⟩ := a.acceptSeek_scrub env positionMillis hlock
      rw [h]
      exact ⟨[], observe a rfl rfl rfl⟩

theorem handleSeeked (positionMillis : Nat) :
    ∃ fx, Moves a (a.handleSeeked env positionMillis) fx
        ((some positionMillis).filter fun _ => a.playerOnCurrentFile) ∧
      (a.playerOnCurrentFile = false → seeks (requests fx) = []) := by
  cases hfile : a.playerOnCurrentFile with
  | true =>
    obtain ⟨fx, hm⟩ := acceptSeek { a with pendingSeekEchoes := a.pendingSeekEchoes - 1 } env
      positionMillis (0 < a.pendingSeekEchoes)
    have heq : a.handleSeeked env positionMillis = _ := if_pos hfile
    rw [heq]
    exact ⟨fx, hm.of_view rfl, nofun⟩
  | false =>
    have heq : a.handleSeeked env positionMillis =
        { a with pendingSeekEchoes := a.pendingSeekEchoes - 1 } :=
      if_neg fun h => by cases hfile.symm.trans h
    rw [heq]
    exact ⟨[], keep rfl, fun _ => rfl⟩

theorem handlePauseObservation (paused : Bool) :
    ∃ fx, Moves a (a.handlePauseObservation env paused) fx none ∧ seeks (requests fx) = [] := by
  set settled := { a with
    estimate := (a.estimateNow env).map (⟨·, env.now⟩)
    believedPause := some paused } with hsettled
  have hmoves : Moves a settled [] none := by
    refine ⟨(append_nil _).symm, rfl, rfl, nofun, fun ha _ => ?_, fun ha => ?_,
      fun h _ => h⟩
    · rw [hsettled, Actor.estimateNow, ha]
      rfl
    · simpa [hsettled, Actor.estimateNow] using ha
  simp only [Actor.handlePauseObservation, Actor.reanchorEstimate_eq]
  split
  · exact ⟨[], hmoves.to_view rfl, rfl⟩
  split
  · obtain ⟨fx, hm, hfx⟩ := applyDesiredPause { settled with pendingPauseEchoes := [] } env
    have hall := (hmoves.after rfl (hm.of_view rfl)).send (.graceRefused .pause)
    refine ⟨_, hall, ?_⟩
    rw [nil_append, requests_append, seeks_append, hfx]
    rfl
  · exact ⟨_, (hmoves.to_view (c := { settled with pendingPauseEchoes := [] }) rfl).send _, rfl⟩

end Moves

def PlayerEvent.isReport : PlayerEvent → Bool
  | .loaded | .pathChanged _ | .exited _ => false
  | _ => true

theorem Moves.handlePlayerEvent (a : Actor) (env : Env) {event : PlayerEvent}
    (hreport : event.isReport = true) :
    ∃ fx, Moves a (a.handlePlayerEvent env event) fx
        (event.reported?.filter fun _ => a.playerOnCurrentFile) ∧
      (event.reported? = none ∨ a.playerOnCurrentFile = false → seeks (requests fx) = []) := by
  have hsend (output : PlayerOutput) : Moves a (a.send output) [.send output] none :=
    (Moves.keep (a := a) (b := a) rfl).send output
  cases event with
  | position positionMillis =>
    cases hfile : a.playerOnCurrentFile with
    | true =>
      have heq : a.handlePlayerEvent env (.position positionMillis) = _ := if_pos hfile
      rw [heq]
      exact ⟨[], Moves.observe a rfl rfl rfl, fun _ => rfl⟩
    | false =>
      have heq : a.handlePlayerEvent env (.position positionMillis) = a :=
        if_neg fun h => by cases hfile.symm.trans h
      rw [heq]
      exact ⟨[], .keep rfl, fun _ => rfl⟩
  | seeked positionMillis =>
    obtain ⟨fx, hm, hfx⟩ := Moves.handleSeeked a env positionMillis
    exact ⟨fx, hm, fun h => hfx (h.resolve_left nofun)⟩
  | pauseChanged paused =>
    obtain ⟨fx, hm, hfx⟩ := Moves.handlePauseObservation a env paused
    exact ⟨fx, hm, fun _ => hfx⟩
  | subtitleLine text speaker =>
    exact ⟨_, hsend _, fun _ => rfl⟩
  | durationKnown durationMillis =>
    simp only [Actor.handlePlayerEvent]
    split
    · split
      · exact ⟨_, hsend _, fun _ => rfl⟩
      · exact ⟨[], .keep rfl, fun _ => rfl⟩
    · exact ⟨[], .keep rfl, fun _ => rfl⟩
  | eof =>
    simp only [Actor.handlePlayerEvent]
    split
    · split
      · exact ⟨_, (hsend _).to_view rfl, fun _ => rfl⟩
      · exact ⟨[], .keep rfl, fun _ => rfl⟩
    · exact ⟨[], .keep rfl, fun _ => rfl⟩
  | loadFailed =>
    simp only [Actor.handlePlayerEvent]
    split
    · exact ⟨_, hsend _, fun _ => rfl⟩
    · exact ⟨[], .keep rfl, fun _ => rfl⟩
  | loaded | pathChanged _ | exited _ => cases hreport

theorem Moves.onePlayer {a b : Actor} {fx : List Effect} {observed : Option Nat}
    (h : Moves a b fx observed) (hone : OnePlayer a) : OnePlayer b := by
  have hframe := h.frame
  simp only [Actor.frame, Prod.mk.injEq] at hframe
  obtain ⟨-, -, -, hplayer, hspawn, hreattach⟩ := hframe
  exact ⟨fun hp => hspawn.trans (hone.spawn (hplayer.symm.trans hp)),
    fun hp => hreattach.trans (hone.reattach (hplayer.symm.trans hp)),
    fun hp => hreattach.trans (hone.either (hspawn.symm.trans hp))⟩

/-! ## §3. A player dies. -/

def GaveUp (a : Actor) : Prop :=
  a.player = false ∧ a.pendingSpawn = false ∧ a.reattachAt = none

/-- What is left after a death: nothing of the player, and the estimate as restore point
unless the actor gives up. -/
structure Died (a a' : Actor) : Prop where
  path : a'.observedPath = none
  onePlayer : OnePlayer a'
  estimate : a'.estimate = none
  scrub : a'.pendingUserSeek = none
  silent : requests a'.effects = []
  restore : a'.restoreMillis = a.millis ∨ GaveUp a'

-- The belief about the pause state goes first, so nothing is extrapolated.
theorem died_handlePlayerDeath (a : Actor) (env : Env) (hone : OnePlayer a)
    (hplayer : a.player = true) (hnew : a.effects = []) : Died a (a.handlePlayerDeath env) := by
  have hspawn := hone.spawn hplayer
  have haway := hone.reattach hplayer
  simp only [Actor.handlePlayerDeath]
  split
  · refine ⟨rfl, ⟨nofun, nofun, fun h => ?_⟩, rfl, rfl, ?_, .inl rfl⟩
    · cases hspawn.symm.trans h
    · exact congrArg requests hnew
  · obtain ⟨crashes, fx, hfx, hnote⟩ := a.dropPlayer.noteCrash_eq env
    have heffects : requests (a.effects ++ fx) = [] := by rw [hnew, nil_append, hfx]
    simp only [Actor.handleCrash, hnote]
    split
    · refine ⟨rfl, ⟨nofun, nofun, fun _ => haway⟩, rfl, rfl, ?_,
        .inr ⟨rfl, hspawn, haway⟩⟩
      show requests (a.effects ++ fx ++ [.send .gaveUp]) = []
      rw [requests_append, heffects]
      rfl
    · unfold Actor.beginSpawn
      split <;>
        exact ⟨rfl, ⟨nofun, nofun, fun _ => haway⟩, rfl, rfl,
          heffects, .inl rfl⟩

/-! ## §4. The current file opens. -/

/-- What the actor does when the current file is open: go to the restore point. -/
structure Reopened (a a' : Actor) : Prop where
  loads : loads (requests a'.effects) = []
  seeks : seeks (requests a'.effects) = a.restoreMillis.toList
  frame : a'.frame = { a with restoreMillis := none }.frame
  estimate : ∀ millis, a.restoreMillis = some millis → a'.millis = some millis
  anchored : a'.estimate ≠ none

variable {a : Actor} {env : Env}

theorem applyDesiredPause_millis (a : Actor) (h : a.believedPause = some true) :
    (a.applyDesiredPause env).millis = a.millis := by
  rcases a.applyDesiredPause_cases env with heq | ⟨_, heq⟩
  · rw [heq]
  · rw [heq]
    -- Nothing is extrapolated while the player is believed to be paused.
    have hnow : a.estimateNow env = a.millis := by
      unfold Actor.estimateNow Actor.millis
      rw [h]
      rfl
    show (Option.map _ _).map _ = _
    rw [hnow, Option.map_map]
    cases a.millis <;> rfl

theorem reopened_handleLoaded (a : Actor) (hnew : a.effects = []) (hplayer : a.player = true)
    (hseek : env.seekOk = true ∨ a.restoreMillis = none) : Reopened a (a.handleLoaded env) := by
  cases hrestore : a.restoreMillis with
  | none =>
    rw [a.handleLoaded_fresh env hrestore]
    obtain ⟨fx, hm, hfx⟩ := Moves.applyDesiredPause (a.opened env) env
    have heffects : ((a.opened env).applyDesiredPause env).effects = fx := by
      rw [hm.effects]
      show a.effects ++ fx = fx
      rw [hnew, nil_append]
    refine ⟨by rw [heffects]; exact hm.loads, by rw [heffects, hfx, hrestore]; rfl, ?_, ?_, ?_⟩
    · rw [hm.frame]
      show (a.restoreMillis, _) = (none, _)
      rw [hrestore]
      rfl
    · intro millis h
      cases hrestore.symm.trans h
    · refine hm.stays ?_
      show a.estimate.or _ ≠ none
      cases a.estimate <;> exact nofun
  | some millis =>
    rw [a.handleLoaded_restore env hrestore]
    set sought := { a.opened env with restoreMillis := none }.seekProgrammatic env millis
      with hsought
    have hcall : sought = { a.opened env with
        restoreMillis := none
        effects := a.effects ++ [.call (.seek millis)]
        estimate := some ⟨millis, env.now⟩
        pendingSeekEchoes := a.pendingSeekEchoes + 1 } :=
      if_pos ⟨hplayer, hseek.resolve_right fun h => by cases hrestore.symm.trans h⟩
    obtain ⟨fx, hm, hfx⟩ := Moves.applyDesiredPause sought env
    have heffects : (sought.applyDesiredPause env).effects = [.call (.seek millis)] ++ fx := by
      rw [hm.effects, hcall]
      show a.effects ++ _ ++ fx = _
      rw [hnew, nil_append]
    refine ⟨?_, ?_, ?_, ?_, ?_⟩
    · rw [heffects, requests_append, loads_append, hm.loads]
      rfl
    · rw [heffects, requests_append, seeks_append, hfx, hrestore]
      rfl
    · rw [hm.frame, hcall]
      rfl
    · intro other h
      cases hrestore.symm.trans h
      rw [applyDesiredPause_millis sought (by rw [hcall]; rfl), hcall]
      rfl
    · exact hm.stays (by rw [hcall]; exact nofun)

/-! ## §5. A file is asked for. -/

/-- What is left of the actor's place when it may have asked for a file: the restore point. -/
structure Reloads (a' : Actor) : Prop where
  estimate : a'.estimate = none
  scrub : a'.pendingUserSeek = none
  seeks : seeks (requests a'.effects) = []
  loads : loads (requests a'.effects) = [] ∨
    ∃ path, loads (requests a'.effects) = [path] ∧ a'.current.map (·.path) = some path
  onePlayer : OnePlayer a'

theorem beginSpawn_cases (a : Actor) (failureExits : Bool) :
    a.beginSpawn failureExits = a ∨ a.beginSpawn failureExits =
      { a with factory := false, spawnFailureExits := failureExits, pendingSpawn := true } := by
  unfold Actor.beginSpawn
  split
  · exact .inr rfl
  · exact .inl rfl

/-- Nothing of the place is left but the restore point, and nothing was asked for. -/
structure Cleared (a : Actor) : Prop where
  estimate : a.estimate = none
  scrub : a.pendingUserSeek = none
  seeks : seeks (requests a.effects) = []
  loads : loads (requests a.effects) = []
  onePlayer : OnePlayer a

theorem Cleared.reloads (h : Cleared a) : Reloads a :=
  ⟨h.estimate, h.scrub, h.seeks, .inl h.loads, h.onePlayer⟩

theorem Cleared.load (h : Cleared a) {current : CurrentFile} (hcurrent : a.current = some current) :
    Reloads (a.call (.load current.path current.title)) := by
  refine ⟨h.estimate, h.scrub, ?_, .inr ⟨current.path, ?_, congrArg _ hcurrent⟩,
    { h.onePlayer with }⟩
  · show Player.seeks (requests (a.effects ++ [_])) = []
    rw [requests_append, seeks_append, h.seeks]
    rfl
  · show Player.loads (requests (a.effects ++ [_])) = [current.path]
    rw [requests_append, loads_append, h.loads]
    rfl

theorem Cleared.send (h : Cleared a) (output : PlayerOutput) : Cleared (a.send output) := by
  have hsame : requests (a.effects ++ [.send output]) = requests a.effects := by
    rw [requests_append]
    exact append_nil _
  exact ⟨h.estimate, h.scrub, (congrArg Player.seeks hsame).trans h.seeks,
    (congrArg Player.loads hsame).trans h.loads,
    { h.onePlayer with }⟩

theorem Cleared.askFor (h : Cleared a) (env : Env) {current : CurrentFile}
    (hcurrent : a.current = some current) : Reloads (a.askFor env current) := by
  unfold Actor.askFor
  split
  · exact h.load hcurrent
  · exact (h.send _).reloads

def aim (a : Actor) := (a.current, a.restoreMillis, a.observedPath)

theorem aim_askFor (a : Actor) (env : Env) (current : CurrentFile) :
    aim (a.askFor env current) = aim a := by
  unfold Actor.askFor
  split <;> rfl

theorem cleared_turnTo (a : Actor) (env : Env) (hnew : a.effects = []) (hone : OnePlayer a)
    (current : CurrentFile) (resumeMillis : Option Nat) :
    Cleared ((a.turnTo current resumeMillis).setSpeed env 1) ∧
      aim ((a.turnTo current resumeMillis).setSpeed env 1) =
        (some current, resumeMillis, a.observedPath) := by
  obtain ⟨fx, hm, hfx⟩ := Moves.setSpeed (a.turnTo current resumeMillis) env 1
  have heffects : ((a.turnTo current resumeMillis).setSpeed env 1).effects = fx := by
    rw [hm.effects]
    show a.effects ++ fx = fx
    rw [hnew, nil_append]
  have hframe := hm.frame
  simp only [Actor.frame, Prod.mk.injEq] at hframe
  obtain ⟨hrestore, hcurrent, hpath, -⟩ := hframe
  refine ⟨⟨hm.blank rfl ?_, hm.scrub rfl rfl, ?_, ?_, hm.onePlayer { hone with }⟩, ?_⟩
  · rw [newest, hfx]
    rfl
  · rw [heffects, hfx]
  · rw [heffects, hm.loads]
  · rw [aim, hcurrent, hrestore, hpath]
    rfl

theorem Cleared.cleanSlate (h : Cleared a) : Cleared a.cleanSlate ∧ aim a.cleanSlate = aim a := by
  have hkeep : Cleared { a with consecutiveCrashes := 0, lastDeath := none } :=
    { h with onePlayer := { h.onePlayer with } }
  simp only [Actor.cleanSlate]
  split
  next hidle =>
    obtain ⟨hdown, haway, _⟩ := hidle
    have hdown : a.player ≠ true := by simpa using hdown
    rcases beginSpawn_cases { a with consecutiveCrashes := 0, lastDeath := none } false
      with heq | heq
    · rw [heq]
      exact ⟨hkeep, rfl⟩
    · rw [heq]
      exact ⟨{ h with onePlayer := ⟨(absurd · hdown), (absurd · hdown),
        fun _ => isNone_iff_eq_none.mp haway⟩ }, rfl⟩
  · exact ⟨hkeep, rfl⟩

theorem reloads_handleLoad (a : Actor) (env : Env) (hnew : a.effects = []) (hone : OnePlayer a)
    (current : CurrentFile) (resumeMillis : Option Nat) :
    Reloads (a.handleLoad env current resumeMillis) ∧
      aim (a.handleLoad env current resumeMillis) =
        (some current, resumeMillis, a.observedPath) := by
  obtain ⟨hcleared, haim⟩ := cleared_turnTo a env hnew hone current resumeMillis
  simp only [Actor.handleLoad]
  generalize (a.turnTo current resumeMillis).setSpeed env 1 = turned at hcleared haim ⊢
  have hready : ∀ ready : Actor, Cleared ready → aim ready = aim turned →
      Reloads (if ready.player then ready.askFor env current else ready) ∧
        aim (if ready.player then ready.askFor env current else ready) =
          (some current, resumeMillis, a.observedPath) := by
    intro ready hr hsame
    have hcurrent : ready.current = some current := congrArg Prod.fst (hsame.trans haim)
    split
    · exact ⟨hr.askFor env hcurrent, (aim_askFor ready env current).trans (hsame.trans haim)⟩
    · exact ⟨hr.reloads, hsame.trans haim⟩
  split
  · obtain ⟨hslate, hsame⟩ := hcleared.cleanSlate
    exact hready _ hslate hsame
  · exact hready turned hcleared rfl

theorem reloads_finishSpawn (a : Actor) (env : Env) (h : Cleared a) (hspawn : a.pendingSpawn = true)
    (delivered : Option Bool) :
    Reloads (a.finishSpawn env delivered) ∧ aim (a.finishSpawn env delivered) = aim a := by
  have haway := h.onePlayer.either hspawn
  have hdown : a.player ≠ true := fun hp => by cases (h.onePlayer.spawn hp).symm.trans hspawn
  have hidle : Cleared { a with pendingSpawn := false } :=
    { h with onePlayer := ⟨(absurd · hdown), (absurd · hdown), nofun⟩ }
  have hfatal := hidle.send .fatalCrash
  cases delivered with
  | none => exact ⟨{ hfatal.reloads with onePlayer := { hfatal.onePlayer with } }, rfl⟩
  | some came =>
    cases came with
    | false => exact ⟨{ hfatal.reloads with onePlayer := { hfatal.onePlayer with } }, rfl⟩
    | true =>
      have hup : Cleared { a with pendingSpawn := false, factory := true, player := true } :=
        { h with onePlayer := ⟨fun _ => rfl, fun _ => haway, nofun⟩ }
      simp only [Actor.finishSpawn]
      split
      next current hcurrent => exact ⟨hup.askFor env hcurrent, aim_askFor _ env current⟩
      · exact ⟨hup.reloads, rfl⟩

theorem reloads_tryReattach (a : Actor) (env : Env) (h : Cleared a) (haway : a.reattachAt ≠ none)
    (up : Bool) : Reloads (a.tryReattach env up) ∧ aim (a.tryReattach env up) = aim a := by
  have hdown : a.player ≠ true := fun hp => haway (h.onePlayer.reattach hp)
  have hspawn : a.pendingSpawn ≠ true := fun hp => haway (h.onePlayer.either hp)
  have haloof : ∀ at' backoff, Cleared { a with reattachAt := at', reattachBackoff := backoff } :=
    fun _ _ =>
      { h with onePlayer := ⟨(absurd · hdown), (absurd · hdown), (absurd · hspawn)⟩ }
  simp only [Actor.tryReattach]
  split
  · exact ⟨(haloof _ _).reloads, rfl⟩
  split
  · have hup : Cleared { a with
        reattachAt := none, reattachBackoff := reattachBackoffInitial, player := true } :=
      { h with onePlayer :=
        ⟨fun _ => Bool.eq_false_of_not_eq_true hspawn, fun _ => rfl, fun _ => rfl⟩ }
    split
    next current hcurrent =>
      split
      · exact ⟨hup.load hcurrent, rfl⟩
      · exact ⟨hup.reloads, rfl⟩
    · exact ⟨hup.reloads, rfl⟩
  · exact ⟨(haloof _ _).reloads, rfl⟩

end DessPlay.Player
