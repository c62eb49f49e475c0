/-
  DessPlay.Player.Echo
  **ECHO SUPPRESSION: WHAT THE ACTOR REPORTS AS THE USER'S DOING.**

  The player reports every pause flip and every seek, its user's and the actor's own
  alike.  The actor tells them apart by a queue of expected pause values and a count of
  expected seeks.  A `Rig` puts the actor in front of a player with calls travelling one
  way and events the other, each event marked with who made the change; the mark is
  invisible to the actor.

  A LANE is what the bookkeeping of one kind has to agree with: the calls on their way
  and the events on their way back.  While nothing of the user's crosses something of
  the program's, a lane holds one or the other (`PauseLane`, `SeekLane`).
-/
import DessPlay.Lib.Machine
import DessPlay.Player.Actor

namespace DessPlay.Player

open DessPlay.Core List Option Machine

/-! ## §1. A player, its user and the actor. -/

inductive Origin where
  | user
  | program
  deriving DecidableEq

abbrev Observation : Type := Origin × PlayerEvent

def PlayerEvent.pause? : PlayerEvent → Option Bool
  | .pauseChanged paused => some paused
  | _ => none

def PlayerEvent.seek? : PlayerEvent → Option Nat
  | .seeked positionMillis => some positionMillis
  | _ => none

def PlayerEvent.isProgress : PlayerEvent → Bool
  | .position _ | .durationKnown _ | .subtitleLine _ _ | .eof => true
  | _ => false

def flips (queue : List Observation) : List (Origin × Bool) :=
  queue.filterMap fun seen => seen.2.pause?.map (seen.1, ·)

def jumps (queue : List Observation) : List (Origin × Nat) :=
  queue.filterMap fun seen => seen.2.seek?.map (seen.1, ·)

/-- An output, the observation it was sent for, and the destination of the user's last seek
that the actor has been told of. -/
structure Report where
  output : PlayerOutput
  handled : Option Observation
  chosen : Option Nat
  deriving DecidableEq

def Report.Faithful (report : Report) : Prop :=
  match report.output with
  | .userPaused => report.handled = some (.user, .pauseChanged true)
  | .userUnpaused => report.handled = some (.user, .pauseChanged false)
  | .userSeeked _ toMillis => report.chosen = some toMillis
  | _ => True

structure Rig where
  actor : Actor
  paused : Bool
  toPlayer : List Call
  toActor : List Observation
  chosen : Option Nat
  log : List Report

inductive RigEvent where
  | command (env : Env) (command : PlayerCommand)
  /-- The player takes the next call; a seek lands near its target. -/
  | execute (landed : Nat)
  | userPause
  | userSeek (positionMillis : Nat)
  | progress (event : PlayerEvent)
  | receive (env : Env)
  /-- The debounce timer of a user seek. -/
  | flush (env : Env)
  | tick (env : Env)

namespace Rig

def turn (r : Rig) (handled : Option Observation) (handler : Actor → Actor) : Rig :=
  let actor := handler r.actor.entry
  { r with
    actor := actor
    toPlayer := r.toPlayer ++ requests actor.effects
    log := r.log ++ (outputs actor.effects).map (⟨·, handled, r.chosen⟩) }

def observe (r : Rig) (origin : Origin) (event : PlayerEvent) : Rig :=
  { r with toActor := r.toActor ++ [(origin, event)] }

/-- One `PauseChanged` per actual change, one `Seeked` per seek. -/
def perform (r : Rig) (landed : Nat) : Call → Rig
  | .setPause paused =>
    if r.paused = paused then r
    else { r with paused := paused }.observe .program (.pauseChanged paused)
  | .seek _ => r.observe .program (.seeked landed)
  | .setSpeed _ | .load _ _ => r

def chosenAfter (chosen : Option Nat) : Observation → Option Nat
  | (.user, .seeked positionMillis) => some positionMillis
  | _ => chosen

/-- The file stays loaded: no `Load` is commanded. -/
def step (r : Rig) : RigEvent → Option Rig
  | .command _ (.load _ _ _ _) => none
  | .command env command => some (r.turn none (·.handleCommand env command))
  | .execute landed =>
    match r.toPlayer with
    | call :: calls => some ({ r with toPlayer := calls }.perform landed call)
    | [] => none
  | .userPause => some ({ r with paused := !r.paused }.observe .user (.pauseChanged !r.paused))
  | .userSeek positionMillis => some (r.observe .user (.seeked positionMillis))
  | .progress event => if event.isProgress then some (r.observe .program event) else none
  | .receive env =>
    match r.toActor with
    | seen :: queue =>
      some ({ r with toActor := queue, chosen := chosenAfter r.chosen seen }.turn (some seen)
        (·.handlePlayerEvent env seen.2))
    | [] => none
  | .flush env =>
    if r.actor.pendingUserSeek.any fun scrub => scrub.movedAt + seekDebounce ≤ env.now then
      some (r.turn none (·.flushUserSeek))
    else none
  | .tick env => some (r.turn none (·.maybeEmitPosition env))

def heading (r : Rig) : Bool := ((pauses r.toPlayer).getLast?).getD r.paused

def noUserFlip (queue : List Observation) : Bool := (flips queue).all (·.1 = .program)
def noUserJump (queue : List Observation) : Bool := (jumps queue).all (·.1 = .program)

/-- Nothing of the program's crosses something of the user's, and no pause state is
commanded that the player is in or heading for. -/
def uncrossed (r : Rig) : RigEvent → Bool
  | .command _ (.setPlaying playing) =>
    r.actor.believedPause = some (!playing) ∨ noUserFlip r.toActor ∧ r.heading = playing
  | .command _ (.setGraceLock _) | .command _ (.syncTo _ _ _)
  | .command _ (.recoverFalseEof _) => noUserJump r.toActor
  | .userPause => (flips r.toActor).all (·.1 = .user) ∧ pauses r.toPlayer = []
  | .userSeek _ => (jumps r.toActor).all (·.1 = .user) ∧ seeks r.toPlayer = []
  | .receive _ =>
    match r.toActor with
    | (.user, .pauseChanged _) :: queue => !r.actor.graceLock || noUserFlip queue
    | (.user, .seeked _) :: queue => !r.actor.graceLock || noUserJump queue
    | (_, .loaded) :: queue =>
      noUserFlip queue ∧ noUserJump queue ∧ (!r.actor.desiredPlaying || r.heading)
    | _ => true
  | _ => true

/-- The file is up, and nothing is in flight but perhaps the event that says so. -/
structure Opened (r : Rig) : Prop where
  onFile : r.actor.playerOnCurrentFile = true
  pauses : r.actor.pendingPauseEchoes = []
  seeks : r.actor.pendingSeekEchoes = 0
  scrub : r.actor.pendingUserSeek = none
  toPlayer : r.toPlayer = []
  toActor : r.toActor = [] ∨ r.toActor = [(.program, .loaded)]
  log : r.log = []

end Rig

/-! ## §2. The lanes. -/

section Origins

variable {α : Type} {queued : List (Origin × α)}

theorem eq_nil_of_origins (huser : ∀ seen ∈ queued, seen.1 = .user)
    (hprogram : ∀ seen ∈ queued, seen.1 = .program) : queued = [] := by
  cases queued with
  | nil => rfl
  | cons seen queued =>
    have h := (huser seen mem_cons_self).symm.trans (hprogram seen mem_cons_self)
    cases h

theorem origins_concat {origin : Origin} (h : ∀ seen ∈ queued, seen.1 = origin) (value : α) :
    ∀ seen ∈ queued ++ [(origin, value)], seen.1 = origin := by
  rw [forall_mem_append]
  exact ⟨h, by simp⟩

theorem origins_tail {origin : Origin} {seen : Origin × α}
    (h : ∀ other ∈ seen :: queued, other.1 = origin) : ∀ other ∈ queued, other.1 = origin :=
  fun other hother => h other (mem_cons_of_mem _ hother)

end Origins

/-- The pause flips on their way are all the program's, and expected in that order; or all
the user's, and none is expected. -/
inductive PauseLane (paused : Bool) (echoes sent : List Bool) (queued : List (Origin × Bool)) : Prop
  | program (horigin : ∀ flip ∈ queued, flip.1 = .program)
      (hechoes : echoes = queued.map (·.2) ++ sent) (hflips : (paused :: sent).IsChain (· ≠ ·))
  | user (horigin : ∀ flip ∈ queued, flip.1 = .user) (hechoes : echoes = []) (hsent : sent = [])
      (hlast : queued.getLast?.map (·.2) = some paused)

namespace PauseLane

variable {paused value : Bool} {echoes sent : List Bool} {queued : List (Origin × Bool)}

theorem nil : PauseLane paused [] [] [] :=
  .program (nofun) rfl (.singleton _)

theorem request (h : PauseLane paused echoes sent queued)
    (horigin : ∀ flip ∈ queued, flip.1 = .program) (hnew : sent.getLast?.getD paused ≠ value) :
    PauseLane paused (echoes ++ [value]) (sent ++ [value]) queued := by
  cases h with
  | program _ hechoes hflips =>
    refine .program horigin (by rw [hechoes, append_assoc]) ?_
    rw [← cons_append, isChain_append]
    refine ⟨hflips, .singleton _, ?_⟩
    intro last hlast first hfirst
    cases hfirst
    rw [getLast?_cons, mem_some_iff] at hlast
    rwa [← hlast]
  | user huser _ _ hlast =>
    rw [eq_nil_of_origins huser horigin] at hlast
    cases hlast

theorem execute (h : PauseLane paused echoes (value :: sent) queued) :
    paused ≠ value ∧ PauseLane value echoes sent (queued ++ [(.program, value)]) := by
  cases h with
  | program horigin hechoes hflips =>
    obtain ⟨hne, hflips⟩ := isChain_cons_cons.mp hflips
    refine ⟨hne, .program (origins_concat horigin value) ?_ hflips⟩
    rw [hechoes, map_append, append_assoc]
    rfl
  | user _ _ hsent _ => cases hsent

theorem toggle (h : PauseLane paused echoes sent queued) (horigin : ∀ flip ∈ queued, flip.1 = .user)
    (hsent : sent = []) : PauseLane (!paused) echoes sent (queued ++ [(.user, !paused)]) := by
  have hechoes : echoes = [] := by
    cases h with
    | user _ hechoes _ _ => exact hechoes
    | program hprogram hechoes _ =>
      rw [hechoes, hsent, eq_nil_of_origins horigin hprogram]
      rfl
  refine .user (origins_concat horigin _) hechoes hsent ?_
  rw [getLast?_concat]
  rfl

theorem receive_program (h : PauseLane paused echoes sent ((.program, value) :: queued)) :
    echoes.head? = some value ∧ PauseLane paused echoes.tail sent queued := by
  cases h with
  | program horigin hechoes hflips =>
    rw [hechoes]
    exact ⟨rfl, .program (origins_tail horigin) rfl hflips⟩
  | user horigin _ _ _ => cases horigin _ mem_cons_self

theorem receive_user (h : PauseLane paused echoes sent ((.user, value) :: queued)) :
    echoes = [] ∧ PauseLane paused [] sent queued ∧
      ((∀ flip ∈ queued, flip.1 = .program) → paused = value ∧ sent = []) := by
  cases h with
  | program horigin _ _ => cases horigin _ mem_cons_self
  | user horigin hechoes hsent hlast =>
    cases queued with
    | nil =>
      cases hsent
      exact ⟨hechoes, nil, fun _ => ⟨(Option.some.inj hlast).symm, rfl⟩⟩
    | cons next queued =>
      rw [getLast?_cons_cons] at hlast
      refine ⟨hechoes, .user (origins_tail horigin) rfl hsent hlast, fun hprogram => ?_⟩
      cases eq_nil_of_origins (origins_tail horigin) hprogram

end PauseLane

/-- The seeks on their way are all the program's, and all are expected; or all the user's,
and none is expected. -/
inductive SeekLane (echoes sent : Nat) (queued : List (Origin × Nat)) : Prop
  | program (horigin : ∀ jump ∈ queued, jump.1 = .program) (hechoes : echoes = queued.length + sent)
  | user (horigin : ∀ jump ∈ queued, jump.1 = .user) (hechoes : echoes = 0) (hsent : sent = 0)

namespace SeekLane

variable {echoes sent : Nat} {queued : List (Origin × Nat)}

theorem nil : SeekLane 0 0 [] := .program (nofun) rfl

theorem request (h : SeekLane echoes sent queued) (horigin : ∀ jump ∈ queued, jump.1 = .program)
    (n : Nat) : SeekLane (echoes + n) (sent + n) queued := by
  refine .program horigin ?_
  cases h with
  | program _ hechoes => rw [hechoes, add_assoc]
  | user huser hechoes hsent =>
    rw [hechoes, hsent, eq_nil_of_origins huser horigin, length_nil]
    omega

theorem execute (h : SeekLane echoes (sent + 1) queued) (landed : Nat) :
    SeekLane echoes sent (queued ++ [(.program, landed)]) := by
  cases h with
  | program horigin hechoes =>
    refine .program (origins_concat horigin landed) ?_
    rw [hechoes, length_append, length_singleton]
    omega
  | user _ _ hsent => cases hsent

theorem jump (h : SeekLane echoes sent queued) (horigin : ∀ jump ∈ queued, jump.1 = .user)
    (hsent : sent = 0) (positionMillis : Nat) :
    SeekLane echoes sent (queued ++ [(.user, positionMillis)]) := by
  have hechoes : echoes = 0 := by
    cases h with
    | user _ hechoes _ => exact hechoes
    | program hprogram hechoes => rw [hechoes, hsent, eq_nil_of_origins horigin hprogram]; rfl
  exact .user (origins_concat horigin positionMillis) hechoes hsent

theorem receive_program {landed : Nat} (h : SeekLane echoes sent ((.program, landed) :: queued)) :
    0 < echoes ∧ SeekLane (echoes - 1) sent queued := by
  cases h with
  | program horigin hechoes =>
    rw [length_cons] at hechoes
    exact ⟨by omega, .program (origins_tail horigin) (by omega)⟩
  | user horigin _ _ => cases horigin _ mem_cons_self

theorem receive_user {landed : Nat} (h : SeekLane echoes sent ((.user, landed) :: queued)) :
    echoes = 0 ∧ SeekLane 0 sent queued := by
  cases h with
  | program horigin _ => cases horigin _ mem_cons_self
  | user horigin hechoes hsent => exact ⟨hechoes, .user (origins_tail horigin) rfl hsent⟩

end SeekLane

/-! ## §3. Every request is expected back. -/

/-- From `a` to `a'` the actor had the effects `fx`, and remembers to expect the echo of each
pause and each seek among them. -/
structure Sends (a a' : Actor) (fx : List Effect) : Prop where
  effects : a'.effects = a.effects ++ fx
  pauses : a'.pendingPauseEchoes = a.pendingPauseEchoes ++ pauses (requests fx)
  seeks : a'.pendingSeekEchoes = a.pendingSeekEchoes + (seeks (requests fx)).length
  scrub : a'.pendingUserSeek = a.pendingUserSeek
  lock : a'.graceLock = a.graceLock
  onFile : a'.playerOnCurrentFile = a.playerOnCurrentFile

namespace Sends

variable {a b c : Actor} {fx gx : List Effect} (env : Env)

/-- The fields a `Sends` is about. -/
def view (a : Actor) :=
  (a.effects, a.pendingPauseEchoes, a.pendingSeekEchoes, a.pendingUserSeek, a.graceLock,
    a.playerOnCurrentFile)

theorem keep (h : view b = view a) : Sends a b [] := by
  simp only [view, Prod.mk.injEq] at h
  obtain ⟨heffects, hpauses, hseeks, hscrub, hlock, hfile⟩ := h
  exact ⟨by rw [heffects, append_nil], by rw [hpauses]; exact (append_nil _).symm,
    hseeks, hscrub, hlock, hfile⟩

theorem trans (hab : Sends a b fx) (hbc : Sends b c gx) : Sends a c (fx ++ gx) where
  effects := by rw [hbc.effects, hab.effects, append_assoc]
  pauses := by
    rw [hbc.pauses, hab.pauses, append_assoc, requests_append, pauses_append]
  seeks := by
    rw [hbc.seeks, hab.seeks, add_assoc, requests_append, seeks_append, length_append]
  scrub := hbc.scrub.trans hab.scrub
  lock := hbc.lock.trans hab.lock
  onFile := hbc.onFile.trans hab.onFile

theorem of_view (hab : Sends a b fx) (h : view a = view c) : Sends c b fx := by
  have hca := (keep h).trans hab
  rwa [nil_append] at hca

theorem send (a : Actor) (output : PlayerOutput) : Sends a (a.send output) [.send output] :=
  ⟨rfl, (append_nil _).symm, rfl, rfl, rfl, rfl⟩

variable (a)

theorem applyDesiredPause : ∃ fx, Sends a (a.applyDesiredPause env) fx ∧
    (fx = [] ∨ a.believedPause ≠ some (!a.desiredPlaying) ∧
      fx = [.call (.setPause (!a.desiredPlaying))]) := by
  rcases a.applyDesiredPause_cases env with h | ⟨hbelieved, h⟩
  · exact ⟨[], keep (congrArg view h), .inl rfl⟩
  · refine ⟨_, ?_, .inr ⟨hbelieved, rfl⟩⟩
    rw [h]
    exact ⟨rfl, rfl, rfl, rfl, rfl, rfl⟩

theorem setSpeed (speed : ℚ) : ∃ fx, Sends a (a.setSpeed env speed) fx ∧
    (fx = [] ∨ fx = [.call (.setSpeed speed)]) := by
  rcases a.setSpeed_cases env speed with h | h
  · exact ⟨[], keep (congrArg view h), .inl rfl⟩
  · refine ⟨_, ?_, .inr rfl⟩
    rw [h]
    exact ⟨rfl, (append_nil _).symm, rfl, rfl, rfl, rfl⟩

theorem seekProgrammatic (targetMillis : Nat) :
    ∃ fx, Sends a (a.seekProgrammatic env targetMillis) fx ∧
      (fx = [] ∨ fx = [.call (.seek targetMillis)]) := by
  rcases a.seekProgrammatic_cases env targetMillis with h | h
  · exact ⟨[], keep (congrArg view h), .inl rfl⟩
  · refine ⟨_, ?_, .inr rfl⟩
    rw [h]
    exact ⟨rfl, (append_nil _).symm, rfl, rfl, rfl, rfl⟩

end Sends

def PlayerOutput.isNeutral : PlayerOutput → Bool
  | .userPaused | .userUnpaused | .userSeeked _ _ => false
  | _ => true

structure Quiet (fx : List Effect) : Prop where
  pauses : pauses (requests fx) = []
  outputs : ∀ output ∈ outputs fx, output.isNeutral = true

theorem Quiet.append {fx gx : List Effect} (hf : Quiet fx) (hg : Quiet gx) : Quiet (fx ++ gx) where
  pauses := by rw [requests_append, pauses_append, hf.pauses, hg.pauses, append_nil]
  outputs := by
    rw [outputs_append, forall_mem_append]
    exact ⟨hf.outputs, hg.outputs⟩

theorem Quiet.nil : Quiet [] := ⟨rfl, nofun⟩

theorem Quiet.seek {fx : List Effect} {targetMillis : Nat}
    (h : fx = [] ∨ fx = [.call (.seek targetMillis)]) : Quiet fx := by
  rcases h with rfl | rfl
  · exact .nil
  · exact ⟨rfl, nofun⟩

theorem Quiet.speed {fx : List Effect} {speed : ℚ} (h : fx = [] ∨ fx = [.call (.setSpeed speed)]) :
    Quiet fx ∧ seeks (requests fx) = [] := by
  rcases h with rfl | rfl
  · exact ⟨.nil, rfl⟩
  · exact ⟨⟨rfl, nofun⟩, rfl⟩

theorem Quiet.send {output : PlayerOutput} (h : output.isNeutral = true) : Quiet [.send output] :=
  ⟨rfl, fun other hother => by rw [mem_singleton.mp hother, h]⟩

theorem driftCorrect_sends (a : Actor) (env : Env) (sample : Nat) (timestamp : SharedTimestamp)
    (playing : Bool) :
    ∃ fx, Sends a (a.driftCorrect env sample timestamp playing) fx ∧ Quiet fx := by
  obtain ⟨drift, h | ⟨_, _, _, ⟨slew, h⟩ | ⟨target, h⟩⟩⟩ :=
    a.driftCorrect_cases env sample timestamp playing <;> rw [h]
  · exact ⟨[], .keep rfl, .nil⟩
  · obtain ⟨fx, hs, hfx⟩ := Sends.setSpeed { a with drift := drift } env slew
    exact ⟨fx, hs.of_view rfl, (Quiet.speed hfx).1⟩
  · obtain ⟨fx, hs, hfx⟩ := Sends.setSpeed { a with drift := drift } env 1
    obtain ⟨gx, hs', hgx⟩ := Sends.seekProgrammatic ({ a with drift := drift }.setSpeed env 1) env
      target
    exact ⟨fx ++ gx, (hs.trans hs').of_view rfl, (Quiet.speed hfx).1.append (.seek hgx)⟩

section Observations

variable (a : Actor) (env : Env)

theorem pauseObservation_echo {paused : Bool} (h : a.pendingPauseEchoes.head? = some paused) :
    Sends { a with pendingPauseEchoes := a.pendingPauseEchoes.tail }
      (a.handlePauseObservation env paused) [] := by
  simp only [Actor.handlePauseObservation, Actor.reanchorEstimate_eq, if_pos h]
  exact .keep rfl

theorem pauseObservation_user (paused : Bool) (h : a.pendingPauseEchoes = []) :
    ∃ fx, Sends a (a.handlePauseObservation env paused) fx ∧
      (paused = true ∧ a.graceLock = true ∧
          (fx = [.send (.graceRefused .pause)] ∨
            fx = [.call (.setPause false), .send (.graceRefused .pause)]) ∨
        fx = [.send (if paused then .userPaused else .userUnpaused)]) := by
  have hhead : a.pendingPauseEchoes.head? ≠ some paused := by rw [h]; exact nofun
  simp only [Actor.handlePauseObservation, Actor.reanchorEstimate_eq, if_neg hhead]
  have hview (estimate : Option Estimate) :
      Sends.view { a with
        estimate := estimate
        believedPause := some paused
        pendingPauseEchoes := [] } = Sends.view a := by
    simp only [Sends.view, h]
    rfl
  split
  next hgrace =>
    obtain ⟨hpaused, hlock, hdesired⟩ := hgrace
    obtain ⟨fx, hs, hfx⟩ := Sends.applyDesiredPause { a with
      estimate := (a.estimateNow env).map (⟨·, env.now⟩)
      believedPause := some paused
      pendingPauseEchoes := [] } env
    refine ⟨_, (hs.of_view (hview _)).trans (.send _ _), .inl ⟨hpaused, hlock, ?_⟩⟩
    rcases hfx with rfl | ⟨_, rfl⟩
    · exact .inl rfl
    · right
      simp only [hdesired]
      rfl
  · exact ⟨_, (Sends.send _ _).of_view (hview _), .inr rfl⟩

theorem seeked_echo {positionMillis : Nat} (h : 0 < a.pendingSeekEchoes) :
    Sends { a with pendingSeekEchoes := a.pendingSeekEchoes - 1 }
      (a.handleSeeked env positionMillis)
      [] := by
  simp only [Actor.handleSeeked, Actor.acceptSeek, h]
  split <;> exact .keep rfl

theorem seeked_user (positionMillis : Nat) (h : a.pendingSeekEchoes = 0)
    (hfile : a.playerOnCurrentFile = true) :
    (a.graceLock = true ∧ ∃ fx, Sends a (a.handleSeeked env positionMillis) fx ∧
      (fx = [.send (.graceRefused .seek)] ∨
        ∃ back, fx = [.call (.seek back), .send (.graceRefused .seek)])) ∨
    a.graceLock = false ∧ ∃ scrub, scrub.toMillis = positionMillis ∧
      Sends { a with pendingUserSeek := some scrub } (a.handleSeeked env positionMillis) [] := by
  have hself : { a with pendingSeekEchoes := a.pendingSeekEchoes - 1 } = a := by
    cases a
    cases h
    rfl
  have heq : a.handleSeeked env positionMillis = a.acceptSeek env positionMillis false := by
    unfold Actor.handleSeeked
    rw [hself, if_pos hfile, h]
    rfl
  rcases Bool.eq_false_or_eq_true a.graceLock with hlock | hlock
  · obtain ⟨back, hundone⟩ := a.acceptSeek_undone env positionMillis hlock
    rw [heq, hundone]
    obtain ⟨fx, hs, hfx⟩ := Sends.seekProgrammatic (a.noteSeek env positionMillis) env back
    refine .inl ⟨hlock, _, (hs.trans (.send _ _)).of_view rfl, ?_⟩
    rcases hfx with rfl | rfl
    · exact .inl rfl
    · exact .inr ⟨back, rfl⟩
  · obtain ⟨scrub, hto, hscrub⟩ := a.acceptSeek_scrub env positionMillis hlock
    rw [heq, hscrub]
    exact .inr ⟨hlock, scrub, hto, .keep rfl⟩

theorem loaded_sends : ∃ fx gx, Sends a (a.handleLoaded env) (fx ++ gx) ∧
    (fx = [] ∨ ∃ place, fx = [.call (.seek place)]) ∧
    (gx = [] ∨ a.desiredPlaying = true ∧ gx = [.call (.setPause false)]) := by
  -- The file opens paused, so the only pause state left to command is playing.
  have hpause (b : Actor) (hbelieved : b.believedPause = some true) :
      ∃ gx, Sends b (b.applyDesiredPause env) gx ∧
        (gx = [] ∨ b.desiredPlaying = true ∧ gx = [.call (.setPause false)]) := by
    obtain ⟨gx, hs, hgx⟩ := Sends.applyDesiredPause b env
    refine ⟨gx, hs, ?_⟩
    rcases hgx with rfl | ⟨hne, rfl⟩
    · exact .inl rfl
    · rw [hbelieved] at hne
      cases hdesired : b.desiredPlaying with
      | true => exact .inr ⟨rfl, rfl⟩
      | false => exact absurd (by rw [hdesired]; rfl) hne
  cases hrestore : a.restoreMillis with
  | none =>
    rw [a.handleLoaded_fresh env hrestore]
    obtain ⟨gx, hs, hgx⟩ := hpause (a.opened env) rfl
    exact ⟨[], gx, hs.of_view rfl, .inl rfl, hgx⟩
  | some place =>
    rw [a.handleLoaded_restore env hrestore]
    set b := { a.opened env with restoreMillis := none } with hb
    obtain ⟨fx, hs, hfx⟩ := Sends.seekProgrammatic b env place
    have hkeep : (b.seekProgrammatic env place).believedPause = some true ∧
        (b.seekProgrammatic env place).desiredPlaying = a.desiredPlaying := by
      rcases b.seekProgrammatic_cases env place with h | h <;> rw [h] <;> exact ⟨rfl, rfl⟩
    obtain ⟨gx, hs', hgx⟩ := hpause _ hkeep.1
    rw [hkeep.2] at hgx
    exact ⟨fx, gx, (hs.trans hs').of_view rfl, hfx.imp_right fun h => ⟨place, h⟩, hgx⟩

end Observations

/-! ## §4. What holds while nothing crosses. -/

theorem Report.faithful_of_isNeutral {report : Report} (h : report.output.isNeutral = true) :
    report.Faithful := by
  unfold Report.Faithful
  split
  next hout => rw [hout] at h; cases h
  next hout => rw [hout] at h; cases h
  next hout => rw [hout] at h; cases h
  · trivial

def PlayerEvent.isSteady : PlayerEvent → Bool
  | .pauseChanged _ | .seeked _ | .loaded => true
  | event => event.isProgress

namespace Rig

/-- Both lanes agree with the actor's bookkeeping, a debounced seek is the user's last, and
every report so far is faithful. -/
structure Sound (r : Rig) : Prop where
  onFile : r.actor.playerOnCurrentFile = true
  steady : ∀ seen ∈ r.toActor, seen.2.isSteady = true
  pauses : PauseLane r.paused r.actor.pendingPauseEchoes (pauses r.toPlayer) (flips r.toActor)
  seeks : SeekLane r.actor.pendingSeekEchoes (seeks r.toPlayer).length (jumps r.toActor)
  scrub : ∀ scrub, r.actor.pendingUserSeek = some scrub → r.chosen = some scrub.toMillis
  lock : r.actor.graceLock = true → r.actor.pendingUserSeek = none
  log : ∀ report ∈ r.log, report.Faithful

theorem Opened.sound {r : Rig} (h : r.Opened) : r.Sound where
  onFile := h.onFile
  steady := by
    intro seen hseen
    rcases h.toActor with hq | hq <;> rw [hq] at hseen
    · cases hseen
    · rw [mem_singleton.mp hseen]
      rfl
  pauses := by
    rw [h.pauses, h.toPlayer]
    rcases h.toActor with hq | hq <;> rw [hq] <;> exact .nil
  seeks := by
    rw [h.seeks, h.toPlayer]
    rcases h.toActor with hq | hq <;> rw [hq] <;> exact .nil
  scrub scrub hscrub := by rw [h.scrub] at hscrub; cases hscrub
  lock _ := h.scrub
  log report hreport := by rw [h.log] at hreport; cases hreport

section Turn

variable {r : Rig} {a : Actor} {handled : Option Observation} {handler : Actor → Actor}
  {fx : List Effect}

/-- **One handler call.**  From a sound state of affairs, requests that cross nothing of the
user's and faithful reports lead to a sound one. -/
theorem Sound.turn (h : Sound { r with actor := a }) (hnew : a.effects = [])
    (hs : Sends a (handler r.actor.entry) fx)
    (hpause : Player.pauses (requests fx) = [] ∨
      ∃ value, Player.pauses (requests fx) = [value] ∧
        (∀ flip ∈ flips r.toActor, flip.1 = .program) ∧ r.heading ≠ value)
    (hseek : Player.seeks (requests fx) = [] ∨ ∀ jump ∈ jumps r.toActor, jump.1 = .program)
    (hout : ∀ output ∈ outputs fx, Report.Faithful ⟨output, handled, r.chosen⟩) :
    Sound (r.turn handled handler) := by
  have hfx : (handler r.actor.entry).effects = fx := by
    rw [hs.effects, hnew, nil_append]
  refine ⟨hs.onFile.trans h.onFile, h.steady, ?_, ?_, ?_, ?_, ?_⟩
  · simp only [Rig.turn, hfx, hs.pauses, pauses_append]
    rcases hpause with hnone | ⟨value, hvalue, horigin, hheading⟩
    · rw [hnone, append_nil, append_nil]
      exact h.pauses
    · rw [hvalue]
      exact h.pauses.request horigin hheading
  · simp only [Rig.turn, hfx, hs.seeks, seeks_append, length_append]
    rcases hseek with hnone | horigin
    · rw [hnone]
      exact h.seeks
    · exact h.seeks.request horigin _
  · intro scrub hscrub
    exact h.scrub scrub (hs.scrub.symm.trans hscrub)
  · intro hlock
    exact hs.scrub.trans (h.lock (hs.lock.symm.trans hlock))
  · simp only [Rig.turn, hfx]
    rw [forall_mem_append]
    refine ⟨h.log, fun report hreport => ?_⟩
    obtain ⟨output, houtput, rfl⟩ := mem_map.mp hreport
    exact hout output houtput

theorem Sound.turn_quiet (h : Sound { r with actor := a }) (hnew : a.effects = [])
    (hs : Sends a (handler r.actor.entry) fx) (hquiet : Quiet fx)
    (hseek : Player.seeks (requests fx) = [] ∨ ∀ jump ∈ jumps r.toActor, jump.1 = .program) :
    Sound (r.turn handled handler) :=
  h.turn hnew hs (.inl hquiet.pauses) hseek fun output houtput =>
    Report.faithful_of_isNeutral (hquiet.outputs output houtput)

end Turn

theorem noUserFlip_iff {queue : List Observation} :
    noUserFlip queue = true ↔ ∀ flip ∈ flips queue, flip.1 = .program := by
  simp [noUserFlip]

theorem noUserJump_iff {queue : List Observation} :
    noUserJump queue = true ↔ ∀ jump ∈ jumps queue, jump.1 = .program := by
  simp [noUserJump]

variable {r r' : Rig}

theorem Sound.entry (h : r.Sound) : Sound { r with actor := r.actor.entry } :=
  { h with }

theorem Sound.setPlaying (h : r.Sound) (env : Env) (playing : Bool)
    (hok : r.uncrossed (.command env (.setPlaying playing)) = true) :
    Sound (r.turn none (·.handleCommand env (.setPlaying playing))) := by
  obtain ⟨fx, hs, hfx⟩ := Sends.applyDesiredPause
    { r.actor.entry with desiredPlaying := playing } env
  refine h.entry.turn rfl (hs.of_view rfl) ?_ ?_ ?_
  · rcases hfx with rfl | ⟨hbelieved, rfl⟩
    · exact .inl rfl
    · simp only [uncrossed, Bool.decide_or, Bool.or_eq_true, decide_eq_true_eq] at hok
      rcases hok with hok | ⟨hflips, hheading⟩
      · exact absurd hok hbelieved
      · refine .inr ⟨!playing, rfl, noUserFlip_iff.mp hflips, ?_⟩
        rw [hheading]
        cases playing <;> decide
  · rcases hfx with rfl | ⟨_, rfl⟩ <;> exact .inl rfl
  · rcases hfx with rfl | ⟨_, rfl⟩ <;> exact nofun

theorem Sound.setGraceLock (h : r.Sound) (env : Env) (locked : Bool)
    (hjumps : ∀ jump ∈ jumps r.toActor, jump.1 = .program) :
    Sound (r.turn none (·.handleCommand env (.setGraceLock locked))) := by
  obtain ⟨heq, hidle⟩ | ⟨rfl, scrub, _, heq⟩ := r.actor.entry.handleGraceLock_cases env locked
  · refine Sound.turn_quiet (a := { r.actor.entry with graceLock := locked })
      { h with lock := ?_ } rfl
      (.keep (congrArg Sends.view heq)) .nil (.inl rfl)
    intro hlocked
    cases hbefore : r.actor.graceLock with
    | true => exact h.lock hbefore
    | false => exact hidle hlocked hbefore
  · obtain ⟨fx, hs, hfx⟩ := Sends.seekProgrammatic
      { r.actor.entry with pendingUserSeek := none, graceLock := true } env scrub.fromMillis
    have hsent := hs.trans (Sends.send _ (.graceRefused .seek))
    rw [← heq] at hsent
    refine Sound.turn_quiet (a := { r.actor.entry with pendingUserSeek := none, graceLock := true })
      { h with scrub := nofun, lock := fun _ => rfl } rfl hsent
      ((Quiet.seek hfx).append (.send rfl)) (.inr hjumps)

theorem Sound.syncTo (h : r.Sound) (env : Env) (sample : Nat) (timestamp : SharedTimestamp)
    (playing : Bool) (hjumps : ∀ jump ∈ jumps r.toActor, jump.1 = .program) :
    Sound (r.turn none (·.handleCommand env (.syncTo sample timestamp playing))) := by
  obtain ⟨fx, hs, hfx⟩ := driftCorrect_sends r.actor.entry env sample timestamp
    playing
  exact h.entry.turn_quiet rfl hs hfx (.inr hjumps)

theorem Sound.recoverFalseEof (h : r.Sound) (env : Env) (target : Option Nat)
    (hjumps : ∀ jump ∈ jumps r.toActor, jump.1 = .program) :
    Sound (r.turn none (·.handleCommand env (.recoverFalseEof target))) := by
  cases target with
  | none => exact h.entry.turn_quiet rfl (.keep rfl) .nil (.inl rfl)
  | some target =>
    obtain ⟨fx, hs, hfx⟩ := Sends.seekProgrammatic
      { r.actor.entry with eofReported := false } env target
    exact h.entry.turn_quiet rfl (hs.of_view rfl) (.seek hfx) (.inr hjumps)

theorem Sound.releaseSlew (h : r.Sound) (env : Env) :
    Sound (r.turn none (·.handleCommand env .releaseSlew)) := by
  obtain ⟨fx, hs, hfx⟩ := Sends.setSpeed { r.actor.entry with drift := .new } env 1
  exact h.entry.turn_quiet rfl (hs.of_view rfl) (Quiet.speed hfx).1 (.inl (Quiet.speed hfx).2)

theorem Sound.command (h : r.Sound) {env : Env} {command : PlayerCommand}
    (hok : r.uncrossed (.command env command) = true)
    (hs : r.step (.command env command) = some r') : r'.Sound := by
  cases command with
  | load file path title resumeMillis => cases hs
  | setPlaying playing => cases hs; exact h.setPlaying env playing hok
  | setGraceLock locked => cases hs; exact h.setGraceLock env locked (noUserJump_iff.mp hok)
  | syncTo sample timestamp playing =>
    cases hs
    exact h.syncTo env sample timestamp playing (noUserJump_iff.mp hok)
  | recoverFalseEof target => cases hs; exact h.recoverFalseEof env target (noUserJump_iff.mp hok)
  | releaseSlew => cases hs; exact h.releaseSlew env
  | clockOffset offsetMillis => cases hs; exact h.entry.turn_quiet rfl (.keep rfl) .nil (.inl rfl)
  | shutdown => cases hs; exact h.entry.turn_quiet rfl (.keep rfl) .nil (.inl rfl)

section Receive

variable {queue : List Observation}

theorem Sound.taken {a : Actor} {seen : Observation} (h : r.Sound) (hq : r.toActor = seen :: queue)
    (hfile : a.playerOnCurrentFile = true)
    (hpauses : PauseLane r.paused a.pendingPauseEchoes (Player.pauses r.toPlayer) (flips queue))
    (hseeks : SeekLane a.pendingSeekEchoes (Player.seeks r.toPlayer).length (jumps queue))
    (hscrub : ∀ scrub, a.pendingUserSeek = some scrub →
      chosenAfter r.chosen seen = some scrub.toMillis)
    (hlock : a.graceLock = true → a.pendingUserSeek = none) :
    Sound { r with actor := a, toActor := queue, chosen := chosenAfter r.chosen seen } :=
  ⟨hfile, fun other hother => h.steady other (hq ▸ mem_cons_of_mem _ hother), hpauses, hseeks,
    hscrub, hlock, h.log⟩

variable {env : Env} {origin : Origin}

theorem Sound.receive_pause (h : r.Sound) {paused : Bool}
    (hq : r.toActor = (origin, .pauseChanged paused) :: queue)
    (hok : r.uncrossed (.receive env) = true) :
    Sound ({ r with toActor := queue }.turn (some (origin, .pauseChanged paused))
      (·.handlePlayerEvent env (.pauseChanged paused))) := by
  have hlane := h.pauses
  have hseeks := h.seeks
  rw [hq] at hlane hseeks
  cases origin with
  | program =>
    obtain ⟨hhead, hlane⟩ := hlane.receive_program
    exact Sound.turn_quiet (a := { r.actor.entry with
        pendingPauseEchoes := r.actor.pendingPauseEchoes.tail })
      (h.taken hq h.onFile hlane hseeks h.scrub h.lock) rfl
      (pauseObservation_echo r.actor.entry env hhead) .nil (.inl rfl)
  | user =>
    obtain ⟨hnone, hlane, hlast⟩ := hlane.receive_user
    obtain ⟨fx, hs, hfx⟩ := pauseObservation_user r.actor.entry env paused hnone
    have hbase : Sound { r with actor := r.actor.entry, toActor := queue } :=
      h.taken hq h.onFile (hnone ▸ hlane) hseeks h.scrub
        h.lock
    rcases hfx with ⟨rfl, hlock, hfx⟩ | rfl
    · have hflips : ∀ flip ∈ flips queue, flip.1 = .program := by
        simp only [uncrossed, hq] at hok
        rw [show r.actor.graceLock = true from hlock, Bool.not_true, Bool.false_or] at hok
        exact noUserFlip_iff.mp hok
      -- The user's pause is the last word, so the player is not heading for `false`.
      obtain ⟨hpaused, hsent⟩ := hlast hflips
      rcases hfx with rfl | rfl
      · exact hbase.turn_quiet rfl hs (.send rfl) (.inl rfl)
      · refine hbase.turn rfl hs (.inr ⟨false, rfl, hflips, ?_⟩) (.inl rfl) ?_
        · simp only [heading, hsent, hpaused]
          decide
        · intro output houtput
          rw [mem_singleton.mp houtput]
          exact Report.faithful_of_isNeutral rfl
    · refine hbase.turn rfl hs (.inl rfl) (.inl rfl) ?_
      intro output houtput
      rw [mem_singleton.mp houtput]
      cases paused <;> rfl

theorem Sound.receive_seek (h : r.Sound) {positionMillis : Nat}
    (hq : r.toActor = (origin, .seeked positionMillis) :: queue)
    (hok : r.uncrossed (.receive env) = true) :
    Sound ({ r with
        toActor := queue
        chosen := chosenAfter r.chosen (origin, .seeked positionMillis) }.turn
      (some (origin, .seeked positionMillis))
      (·.handlePlayerEvent env (.seeked positionMillis))) := by
  have hlane := h.pauses
  have hseeks := h.seeks
  rw [hq] at hlane hseeks
  cases origin with
  | program =>
    obtain ⟨hpos, hseeks⟩ := hseeks.receive_program
    exact Sound.turn_quiet (a := { r.actor.entry with
        pendingSeekEchoes := r.actor.pendingSeekEchoes - 1 })
      (h.taken hq h.onFile hlane hseeks h.scrub h.lock) rfl
      (seeked_echo r.actor.entry env hpos) .nil (.inl rfl)
  | user =>
    obtain ⟨hnone, hseeks⟩ := hseeks.receive_user
    rcases seeked_user r.actor.entry env positionMillis hnone h.onFile with
      ⟨hlock, fx, hs, hfx⟩ | ⟨hlock, scrub, hto, hs⟩
    · have hjumps : ∀ jump ∈ jumps queue, jump.1 = .program := by
        simp only [uncrossed, hq] at hok
        rw [show r.actor.graceLock = true from hlock, Bool.not_true, Bool.false_or] at hok
        exact noUserJump_iff.mp hok
      have hquiet : Quiet fx := by
        rcases hfx with rfl | ⟨back, rfl⟩
        · exact .send rfl
        · exact (Quiet.seek (.inr rfl)).append (.send rfl)
      refine Sound.turn_quiet (a := r.actor.entry)
        (h.taken hq h.onFile hlane (hnone ▸ hseeks) ?_ h.lock) rfl hs hquiet (.inr hjumps)
      intro scrub hscrub
      cases (h.lock hlock).symm.trans hscrub
    · refine Sound.turn_quiet (a := { r.actor.entry with pendingUserSeek := some scrub })
        (h.taken hq h.onFile hlane (hnone ▸ hseeks) ?_ ?_) rfl hs .nil (.inl rfl)
      · intro other hother
        cases hother
        rw [hto]
        rfl
      · intro hlocked
        cases hlock.symm.trans hlocked

theorem Sound.receive_loaded (h : r.Sound) (hq : r.toActor = (origin, .loaded) :: queue)
    (hok : r.uncrossed (.receive env) = true) :
    Sound ({ r with toActor := queue }.turn (some (origin, .loaded))
      (·.handlePlayerEvent env .loaded)) := by
  have hlane := h.pauses
  have hseeks := h.seeks
  rw [hq] at hlane hseeks
  have hbase : Sound { r with actor := r.actor.entry, toActor := queue } := by
    have htaken := h.taken (a := r.actor.entry) hq h.onFile hlane hseeks
    cases origin <;> exact htaken h.scrub h.lock
  simp only [uncrossed, hq, Bool.decide_and, Bool.and_eq_true, decide_eq_true_eq] at hok
  obtain ⟨hflips, hjumps, hdesired⟩ := hok
  obtain ⟨fx, gx, hs, hfx, hgx⟩ := loaded_sends r.actor.entry env
  have hquiet : Quiet fx := by
    rcases hfx with rfl | ⟨place, rfl⟩
    · exact .nil
    · exact .seek (.inr rfl)
  refine hbase.turn rfl hs ?_ (.inr (noUserJump_iff.mp hjumps)) ?_
  · rw [requests_append, pauses_append, hquiet.pauses, nil_append]
    rcases hgx with rfl | ⟨hplay, rfl⟩
    · exact .inl rfl
    · refine .inr ⟨false, rfl, noUserFlip_iff.mp hflips, ?_⟩
      rw [show r.actor.desiredPlaying = true from hplay, Bool.not_true, Bool.false_or] at hdesired
      exact fun hheading => by cases hdesired.symm.trans hheading
  · rw [outputs_append]
    intro output houtput
    rcases mem_append.mp houtput with houtput | houtput
    · exact Report.faithful_of_isNeutral (hquiet.outputs output houtput)
    · rcases hgx with rfl | ⟨_, rfl⟩ <;> cases houtput

theorem progress_sends (a : Actor) (env : Env) {event : PlayerEvent} (h : event.isProgress = true) :
    ∃ fx, Sends a (a.handlePlayerEvent env event) fx ∧ Quiet fx ∧
      Player.seeks (requests fx) = [] := by
  cases event with
  | position positionMillis =>
    refine ⟨[], ?_, .nil, rfl⟩
    simp only [Actor.handlePlayerEvent]
    split <;> exact .keep rfl
  | subtitleLine text speaker => exact ⟨_, .send a _, .send rfl, rfl⟩
  | durationKnown durationMillis =>
    simp only [Actor.handlePlayerEvent]
    split
    · split
      · exact ⟨_, .send a _, .send rfl, rfl⟩
      · exact ⟨[], .keep rfl, .nil, rfl⟩
    · exact ⟨[], .keep rfl, .nil, rfl⟩
  | eof =>
    simp only [Actor.handlePlayerEvent]
    split
    · split
      · exact ⟨_, (Sends.send _ _).of_view rfl, .send rfl, rfl⟩
      · exact ⟨[], .keep rfl, .nil, rfl⟩
    · exact ⟨[], .keep rfl, .nil, rfl⟩
  | pauseChanged paused => cases h
  | seeked positionMillis => cases h
  | loaded => cases h
  | loadFailed => cases h
  | pathChanged path => cases h
  | exited clean => cases h

theorem Sound.receive_progress (h : r.Sound) {event : PlayerEvent}
    (hq : r.toActor = (origin, event) :: queue) (hevent : event.isProgress = true) :
    Sound ({ r with toActor := queue }.turn (some (origin, event))
      (·.handlePlayerEvent env event)) := by
  have hlane := h.pauses
  have hseeks := h.seeks
  have hkeeps : flips r.toActor = flips queue ∧ jumps r.toActor = jumps queue ∧
      chosenAfter r.chosen (origin, event) = r.chosen := by
    rw [hq]
    cases event with
    | position _ | durationKnown _ | subtitleLine _ _ | eof =>
      cases origin <;> exact ⟨rfl, rfl, rfl⟩
    | pauseChanged _ | seeked _ | loaded | loadFailed | pathChanged _ | exited _ => cases hevent
  rw [hkeeps.1] at hlane
  rw [hkeeps.2.1] at hseeks
  obtain ⟨fx, hs, hquiet, hnone⟩ := progress_sends r.actor.entry env hevent
  have hbase := h.taken (a := r.actor.entry) hq h.onFile hlane hseeks
    (fun scrub hscrub => hkeeps.2.2.trans (h.scrub scrub hscrub)) h.lock
  rw [hkeeps.2.2] at hbase
  exact hbase.turn_quiet rfl hs hquiet (.inl hnone)

theorem Sound.receive (h : r.Sound) (hok : r.uncrossed (.receive env) = true)
    (hs : r.step (.receive env) = some r') : r'.Sound := by
  cases hq : r.toActor with
  | nil =>
    simp only [step, hq] at hs
    cases hs
  | cons seen queue =>
    obtain ⟨origin, event⟩ := seen
    have hsteady := h.steady _ (hq ▸ mem_cons_self)
    simp only [step, hq] at hs
    obtain rfl := Option.some.inj hs
    cases event with
    | pauseChanged paused => cases origin <;> exact h.receive_pause hq hok
    | seeked positionMillis => exact h.receive_seek hq hok
    | loaded => cases origin <;> exact h.receive_loaded hq hok
    | position _ | durationKnown _ | subtitleLine _ _ | eof =>
      cases origin <;> exact h.receive_progress hq rfl
    | loadFailed | pathChanged _ | exited _ => cases hsteady

end Receive

/-! ## §5. The player and its user. -/

theorem Sound.observe (h : r.Sound) {calls : List Call} {paused : Bool} {origin : Origin}
    {event : PlayerEvent} (hsteady : event.isSteady = true)
    (hpauses : PauseLane paused r.actor.pendingPauseEchoes (Player.pauses calls)
      (flips r.toActor ++ flips [(origin, event)]))
    (hseeks : SeekLane r.actor.pendingSeekEchoes (Player.seeks calls).length
      (jumps r.toActor ++ jumps [(origin, event)])) :
    Sound ({ r with toPlayer := calls, paused := paused }.observe origin event) := by
  refine ⟨h.onFile, ?_, ?_, ?_, h.scrub, h.lock, h.log⟩
  · intro seen hseen
    rcases mem_append.mp hseen with hseen | hseen
    · exact h.steady seen hseen
    · rw [mem_singleton.mp hseen]
      exact hsteady
  · show PauseLane _ _ _ (flips (_ ++ _))
    rw [flips, filterMap_append]
    exact hpauses
  · show SeekLane _ _ (jumps (_ ++ _))
    rw [jumps, filterMap_append]
    exact hseeks

theorem Sound.execute (h : r.Sound) {landed : Nat} (hs : r.step (.execute landed) = some r') :
    r'.Sound := by
  cases hcalls : r.toPlayer with
  | nil =>
    simp only [step, hcalls] at hs
    cases hs
  | cons call calls =>
    simp only [step, hcalls] at hs
    obtain rfl := Option.some.inj hs
    have hpauses := h.pauses
    have hseeks := h.seeks
    rw [hcalls] at hpauses hseeks
    cases call with
    | setPause value =>
      obtain ⟨hchange, hpauses⟩ := PauseLane.execute hpauses
      simp only [perform, if_neg hchange]
      exact h.observe rfl hpauses (by rwa [show jumps [(_, .pauseChanged value)] = [] from rfl,
        append_nil])
    | seek target =>
      exact h.observe rfl (by rwa [show flips [(_, .seeked landed)] = [] from rfl,
        append_nil]) (SeekLane.execute hseeks landed)
    | setSpeed speed => exact { h with pauses := hpauses, seeks := hseeks }
    | load path title => exact { h with pauses := hpauses, seeks := hseeks }

theorem Sound.userPause (h : r.Sound) (hok : r.uncrossed .userPause = true) :
    Sound ({ r with paused := !r.paused }.observe .user (.pauseChanged !r.paused)) := by
  simp only [uncrossed, Bool.decide_and, Bool.and_eq_true, decide_eq_true_eq, List.all_eq_true]
    at hok
  exact h.observe rfl (h.pauses.toggle hok.1 hok.2) ((List.append_nil (jumps _)).symm ▸ h.seeks)

theorem Sound.userSeek (h : r.Sound) {positionMillis : Nat}
    (hok : r.uncrossed (.userSeek positionMillis) = true) :
    Sound (r.observe .user (.seeked positionMillis)) := by
  simp only [uncrossed, Bool.decide_and, Bool.and_eq_true, decide_eq_true_eq, List.all_eq_true]
    at hok
  exact h.observe rfl ((append_nil (flips _)).symm ▸ h.pauses)
    (h.seeks.jump hok.1 (List.length_eq_zero_iff.mpr hok.2) positionMillis)

theorem Sound.progress (h : r.Sound) {event : PlayerEvent} (hevent : event.isProgress = true) :
    Sound (r.observe .program event) := by
  have hnone : flips [(.program, event)] = [] ∧ jumps [(.program, event)] = [] ∧
      event.isSteady = true := by
    cases event with
    | position _ | durationKnown _ | subtitleLine _ _ | eof => exact ⟨rfl, rfl, rfl⟩
    | pauseChanged _ | seeked _ | loaded | loadFailed | pathChanged _ | exited _ => cases hevent
  exact h.observe hnone.2.2 (by rw [hnone.1, append_nil]; exact h.pauses)
    (by rw [hnone.2.1, append_nil]; exact h.seeks)

theorem Sound.flush (h : r.Sound) : Sound (r.turn none (·.flushUserSeek)) := by
  cases hscrub : r.actor.pendingUserSeek with
  | none =>
    refine h.entry.turn_quiet rfl (.keep (congrArg Sends.view ?_)) .nil (.inl rfl)
    show r.actor.entry.flushUserSeek = r.actor.entry
    unfold Actor.flushUserSeek
    rw [show r.actor.entry.pendingUserSeek = none from hscrub]
  | some scrub =>
    have heq : r.actor.entry.flushUserSeek = { r.actor.entry with pendingUserSeek := none }.send
        (.userSeeked scrub.fromMillis scrub.toMillis) := by
      unfold Actor.flushUserSeek
      rw [show r.actor.entry.pendingUserSeek = some scrub from hscrub]
    refine Sound.turn (a := { r.actor.entry with pendingUserSeek := none })
      { h with scrub := nofun, lock := fun _ => rfl } rfl
      (heq ▸ Sends.send _ _) (.inl rfl) (.inl rfl) ?_
    intro output houtput
    rw [mem_singleton.mp houtput]
    exact h.scrub scrub hscrub

theorem Sound.tick (h : r.Sound) (env : Env) : Sound (r.turn none (·.maybeEmitPosition env)) := by
  rcases r.actor.entry.maybeEmitPosition_cases env with heq | ⟨file, millis, heq⟩
  · exact h.entry.turn_quiet rfl (.keep (congrArg Sends.view heq)) .nil (.inl rfl)
  · have hs := Sends.send { r.actor.entry with lastPositionEmit := some env.now }
      (.positionTick file millis)
    rw [← heq] at hs
    exact h.entry.turn_quiet rfl (hs.of_view rfl) (.send rfl) (.inl rfl)

/-- **One step.** -/
theorem Sound.step (h : r.Sound) {event : RigEvent} (hok : r.uncrossed event = true)
    (hs : r.step event = some r') : r'.Sound := by
  cases event with
  | command env command => exact h.command hok hs
  | execute landed => exact h.execute hs
  | userPause => cases hs; exact h.userPause hok
  | userSeek positionMillis => cases hs; exact h.userSeek hok
  | progress event =>
    simp only [Rig.step] at hs
    split at hs
    next hevent => cases hs; exact h.progress hevent
    · cases hs
  | receive env => exact h.receive hok hs
  | flush env =>
    simp only [Rig.step] at hs
    split at hs
    · cases hs; exact h.flush
    · cases hs
  | tick env => cases hs; exact h.tick env

/-! ## §6. Reports are the user's, unless something crosses. -/

/-- **No masquerade.**  Start with the file up and nothing in flight.  As long as nothing of
the program's crosses something of the user's, and no pause state is commanded that the
player is in or heading for, every reported pause, unpause and seek is one the user made,
with the destination the user chose. -/
theorem reports_user_actions {r₀ : Rig} (hopened : r₀.Opened)
    (hreach : Reach Rig.step (fun r event => r.uncrossed event = true) r₀ r) :
    ∀ report ∈ r.log, report.Faithful := by
  have hsound : r.Sound :=
    hreach.invariant hopened.sound fun _ _ _ h hok hs => h.step hok hs
  exact hsound.log

def playing : Rig where
  actor := { Actor.idle false with
    player := true
    current := some ⟨7, "/media/ep.mkv", none⟩
    observedPath := some "/media/ep.mkv"
    desiredPlaying := true
    believedPause := some false
    estimate := some ⟨1000, 0⟩ }
  paused := false
  toPlayer := []
  toActor := []
  chosen := none
  log := []

/-- The user seeks, then pauses; the session agrees. -/
def scrubThenPause : List RigEvent :=
  [.userSeek 5000, .receive (willing 0), .flush (willing 1500), .userPause,
    .receive (willing 1600), .command (willing 1700) (.setPlaying false)]

theorem reports_user_actions_scrub :
    playing.Opened ∧ ∃ r, runWith Rig.step Rig.uncrossed playing scrubThenPause = some r ∧
      r.log = [⟨.userSeeked 1000 5000, none, some 5000⟩,
        ⟨.userPaused, some (.user, .pauseChanged true), some 5000⟩] ∧
      ∀ report ∈ r.log, report.Faithful := by
  have hopened : playing.Opened := ⟨by decide, rfl, rfl, rfl, rfl, .inl rfl, rfl⟩
  have hlog : (runWith Rig.step Rig.uncrossed playing scrubThenPause).map (·.log) =
      some [⟨.userSeeked 1000 5000, none, some 5000⟩,
        ⟨.userPaused, some (.user, .pauseChanged true), some 5000⟩] := by decide +kernel
  obtain ⟨r, hrun, hr⟩ := map_eq_some_iff.mp hlog
  exact ⟨hopened, r, hrun, hr,
    reports_user_actions hopened (reach_of_runWith _ (fun _ _ h => h) hrun)⟩

/-- Nobody touches the player.  The group pauses and plays again before the first echo is
back; the session repeats itself between the two echoes, so the second command is sent
twice and the player, which already plays, echoes it once. -/
def flipTwice : List RigEvent :=
  [.command (willing 0) (.setPlaying false), .command (willing 1) (.setPlaying true),
    .execute 0, .execute 0, .receive (willing 2), .command (willing 3) (.setPlaying true),
    .execute 0, .receive (willing 4), .command (willing 5) (.setPlaying false), .execute 0,
    .receive (willing 6)]

def seekAcross : List RigEvent :=
  [.userSeek 5000, .command (willing 0) (.recoverFalseEof (some 2000)), .execute 2000,
    .receive (willing 1), .receive (willing 2), .flush (willing 1502)]

/-- The leftover expectation turns the group's next pause into a user's; and of two seeks that
cross, the actor's own destination is reported as the user's choice. -/
theorem program_reported_as_user :
    (∃ r, run Rig.step playing flipTwice = some r ∧
      r.log = [⟨.userPaused, some (.program, .pauseChanged true), none⟩]) ∧
    ∃ r, run Rig.step playing seekAcross = some r ∧
      r.log = [⟨.userSeeked 5001 2000, none, some 5000⟩] := by
  have hflip : (run Rig.step playing flipTwice).map (·.log) =
      some [⟨.userPaused, some (.program, .pauseChanged true), none⟩] := by decide +kernel
  have hseek : (run Rig.step playing seekAcross).map (·.log) =
      some [⟨.userSeeked 5001 2000, none, some 5000⟩] := by decide +kernel
  exact ⟨map_eq_some_iff.mp hflip, map_eq_some_iff.mp hseek⟩

end Rig

end DessPlay.Player
