/-
  DessPlay.Player.Restore
  **A RESTARTED PLAYER COMES BACK TO ITS PLACE.**

  A dead player is relaunched (or waited for), the current file is loaded again, and when
  the player says it is open the actor seeks it to the point kept in `restoreMillis`.
  The `Booth` puts the actor in front of one live player after another: loads are opened
  in order, each opening is told by `PathChanged` and `Loaded`, positions and seeks are
  told of an open file only, all in order.

  Beside the actor's own bookkeeping the booth remembers what the actor should: the last
  position observed or commanded since the latest `Load` (`place`), else the resume point
  that `Load` came with (`resume`).  The two agree as long as no death finds the restore
  point still pending and nothing of another opening is taken for the current one.
-/
import DessPlay.Lib.Machine
import DessPlay.Player.Place

namespace DessPlay.Player

open DessPlay.Core List Option Machine

/-! ## §1. What a player tells, in order. -/

/-- An event, with the load call a new path belongs to (`none`: the user's own file). -/
structure Sighting where
  event : PlayerEvent
  load : Option Nat

/-- What a player has up. -/
structure Deck where
  load : Option Nat
  path : Option String
  loaded : Bool

namespace Deck

def blank : Deck := ⟨none, none, false⟩

def hear (d : Deck) (seen : Sighting) : Deck :=
  match seen.event with
  | .pathChanged path => ⟨seen.load, some path, false⟩
  | .loaded => { d with loaded := true }
  | _ => d

def allows (d : Deck) : PlayerEvent → Bool
  | .position _ | .seeked _ => d.loaded
  | .loaded => !d.loaded
  | _ => true

end Deck

def InOrder : Deck → List Sighting → Deck → Prop
  | heard, [], up => heard = up
  | heard, seen :: queue, up => heard.allows seen.event = true ∧ InOrder (heard.hear seen) queue up

theorem InOrder.tell {heard up : Deck} {queue : List Sighting} {seen : Sighting}
    (h : InOrder heard queue up) (hok : up.allows seen.event = true) :
    InOrder heard (queue ++ [seen]) (up.hear seen) := by
  induction queue generalizing heard with
  | nil =>
    cases h
    exact ⟨hok, rfl⟩
  | cons first queue ih => exact ⟨h.1, ih h.2⟩

def openings (queue : List Sighting) : List (Nat × String) :=
  queue.filterMap fun seen =>
    match seen.event with
    | .pathChanged path => seen.load.map (·, path)
    | _ => none

/-! ## §2. The actor and one player after another. -/

/-- At a `Loaded` of the current file: where it should go, and where it was sent. -/
structure Restoration where
  expected : Option Nat
  seeks : List Nat
  deriving DecidableEq

def Restoration.Holds (entry : Restoration) : Prop :=
  ∀ millis, entry.expected = some millis → entry.seeks = [millis]

/-- `wanted` is the load call that stands for the current file, `isOpen` whether its
`Loaded` has been heard, `reckoned` whether dead reckoning has moved the estimate since
the last position observed or commanded. -/
structure Booth where
  actor : Actor
  opening : List (Nat × String)
  deck : Deck
  queue : List Sighting
  heard : Deck
  next : Nat
  wanted : Option Nat
  isOpen : Bool
  place : Option Nat
  resume : Option Nat
  reckoned : Bool
  log : List Restoration

inductive BoothEvent where
  | command (env : Env) (command : PlayerCommand)
  /-- The player opens the file it was asked for next, or fails to. -/
  | openNext
  | openFails
  /-- Anything else the player tells: a file the user dragged in, a `Loaded`, a position, … -/
  | tell (event : PlayerEvent)
  | receive (env : Env)
  /-- The connection to the player breaks. -/
  | lost (env : Env)
  | reattach (env : Env) (up : Bool)
  | spawned (env : Env) (delivered : Option Bool)
  | flush (env : Env)
  | tick (env : Env)

namespace Booth

def turn (b : Booth) (observed : Option Nat) (handler : Actor → Actor) : Booth :=
  let actor := handler b.actor.entry
  let position := newest actor.effects observed
  let b := { b with
    actor := actor
    place := position.or b.place
    reckoned := position.isNone &&
      (b.reckoned || b.actor.millis.isSome && actor.millis ≠ b.actor.millis) }
  match (loads (requests actor.effects)).getLast? with
  | some path => { b with
      opening := b.opening ++ [(b.next, path)]
      next := b.next + 1
      wanted := some b.next
      isOpen := false }
  | none => b

def tell (b : Booth) (seen : Sighting) : Booth :=
  { b with queue := b.queue ++ [seen], deck := b.deck.hear seen }

def unplug (b : Booth) : Booth :=
  { b with
    opening := []
    deck := .blank
    queue := []
    heard := .blank
    wanted := none
    isOpen := false
    reckoned := false }

def onWanted (b : Booth) : Bool := b.wanted.isSome && b.heard.load = b.wanted

def hearNext (b : Booth) (env : Env) (seen : Sighting) (queue : List Sighting) : Booth :=
  let b := { b with queue := queue, heard := b.heard.hear seen }
  let observed := seen.event.reported?.filter fun _ => b.onWanted
  let after := b.turn observed (·.handlePlayerEvent env seen.event)
  match seen.event with
  | .exited _ => after.unplug
  | .loaded =>
    if b.onWanted then
      { after with
        isOpen := true
        log := b.log ++ [⟨b.place.or b.resume, seeks (requests after.actor.effects)⟩] }
    else after
  | _ => after

def step (b : Booth) : BoothEvent → Option Booth
  | .command env (.load file path title resumeMillis) =>
    let b := { b with wanted := none, isOpen := false }
    let b := b.turn none (·.handleCommand env (.load file path title resumeMillis))
    some { b with place := none, resume := resumeMillis, reckoned := false }
  | .command env command => some (b.turn none (·.handleCommand env command))
  | .openNext =>
    match b.opening with
    | (load, path) :: opening =>
      some ({ b with opening := opening }.tell ⟨.pathChanged path, some load⟩)
    | [] => none
  | .openFails =>
    match b.opening with
    | _ :: opening => some ({ b with opening := opening }.tell ⟨.loadFailed, none⟩)
    | [] => none
  | .tell event =>
    if b.actor.player ∧ b.deck.allows event then some (b.tell ⟨event, none⟩) else none
  | .receive env =>
    match b.queue with
    | seen :: queue => if b.actor.player then some (b.hearNext env seen queue) else none
    | [] => none
  | .lost env =>
    if b.actor.player then some (b.turn none (·.handlePlayerDeath env)).unplug else none
  | .reattach env up =>
    if b.actor.reattachAt.any (· ≤ env.now) then some (b.turn none (·.tryReattach env up))
    else none
  | .spawned env delivered =>
    if b.actor.pendingSpawn then some (b.turn none (·.finishSpawn env delivered)) else none
  | .flush env =>
    if b.actor.pendingUserSeek.any fun scrub => scrub.movedAt + seekDebounce ≤ env.now then
      some (b.turn none (·.flushUserSeek))
    else none
  | .tick env => some (b.turn none (·.maybeEmitPosition env))

def deathSafe (b : Booth) : Bool := b.actor.restoreMillis.isNone && !b.reckoned

/-- The condition on a step.  A player dies only when its place is known; a place is not
commanded before the file is open; a `Loaded` is the current file's, whose restoring
seek is accepted, or comes when that file is open; and no position of another opening is
taken for the current one. -/
def careful (b : Booth) : BoothEvent → Bool
  | .command _ (.recoverFalseEof (some _)) => b.isOpen || !b.actor.player
  | .receive env =>
    match b.queue with
    | ⟨.exited _, _⟩ :: _ => b.deathSafe
    | ⟨.loaded, _⟩ :: _ =>
      if b.onWanted then env.seekOk || b.actor.restoreMillis.isNone else b.isOpen
    | ⟨.position _, _⟩ :: _ | ⟨.seeked _, _⟩ :: _ => b.onWanted || !b.actor.playerOnCurrentFile
    | _ => true
  | .lost _ => b.deathSafe
  | _ => true

def start (env : Env) (attachMode : Bool) : Booth where
  actor := .start env attachMode
  opening := []
  deck := .blank
  queue := []
  heard := .blank
  next := 0
  wanted := none
  isOpen := false
  place := none
  resume := none
  reckoned := false
  log := []

end Booth

/-! ## §3. The invariant. -/

namespace Booth

variable {b b' : Booth}

def pending (b : Booth) : List (Nat × String) := openings b.queue ++ b.opening

def live (b : Booth) : List Nat := b.heard.load.toList ++ b.pending.map (·.1)

structure Tracked (b : Booth) : Prop where
  inOrder : InOrder b.heard b.queue b.deck
  path : b.actor.observedPath = b.heard.path
  nodup : b.live.Nodup
  lt_next : ∀ load ∈ b.live, load < b.next
  wanted_lt : ∀ load, b.wanted = some load → load < b.next
  named : ∀ entry ∈ b.pending, b.wanted = some entry.1 →
    b.actor.current.map (·.path) = some entry.2
  up : ∀ load, b.wanted = some load → b.heard.load = some load →
    (∃ path, b.heard.path = some path ∧ b.actor.current.map (·.path) = some path) ∧
      b.heard.loaded = b.isOpen
  once : b.isOpen = true → ∃ load, b.wanted = some load ∧ load ∉ b.pending.map (·.1)

/-- The place of an open file is the actor's estimate. -/
structure AtPlace (b : Booth) : Prop where
  anchored : b.actor.estimate ≠ none
  taken : b.actor.restoreMillis = none
  resumed : b.place = none → b.resume = none
  estimate : b.reckoned = false → ∀ millis, b.place = some millis → b.actor.millis = some millis

/-- The place of a file still to be opened is the restore point. -/
structure Awaited (b : Booth) : Prop where
  estimate : b.actor.estimate = none
  scrub : b.actor.pendingUserSeek = none
  restore : (∀ millis, b.place.or b.resume = some millis →
    b.actor.restoreMillis = some millis) ∨ GaveUp b.actor

structure Kept (b : Booth) : Prop where
  tracked : b.Tracked
  onePlayer : OnePlayer b.actor
  plugged : b.isOpen = true → b.actor.player = true
  atPlace : b.isOpen = true → b.AtPlace
  awaited : b.isOpen = false → b.Awaited
  log : ∀ entry ∈ b.log, entry.Holds

theorem kept_unplug (hpath : b.actor.observedPath = none) (hone : OnePlayer b.actor)
    (hestimate : b.actor.estimate = none) (hscrub : b.actor.pendingUserSeek = none)
    (hrestore : (∀ millis, b.place.or b.resume = some millis →
      b.actor.restoreMillis = some millis) ∨ GaveUp b.actor)
    (hlog : ∀ entry ∈ b.log, entry.Holds) : b.unplug.Kept where
  tracked := by
    refine ⟨rfl, hpath, nodup_nil, ?_, ?_, ?_, ?_, nofun⟩ <;>
      intro _ h <;> cases h
  onePlayer := hone
  plugged h := by cases h
  atPlace h := by cases h
  awaited _ := ⟨hestimate, hscrub, hrestore⟩
  log := hlog

theorem kept_start (env : Env) (attachMode : Bool) : (start env attachMode).Kept := by
  have hone : OnePlayer (start env attachMode).actor := by
    cases attachMode with
    | true => exact ⟨nofun, nofun, nofun⟩
    | false => exact ⟨nofun, nofun, fun _ => rfl⟩
  have hidle : (start env attachMode).actor.observedPath = none ∧
      (start env attachMode).actor.estimate = none ∧
      (start env attachMode).actor.pendingUserSeek = none := by
    cases attachMode <;> exact ⟨rfl, rfl, rfl⟩
  refine kept_unplug (b := start env attachMode) hidle.1 hone hidle.2.1 hidle.2.2
    (.inl fun _ h => ?_) fun _ h => ?_ <;> cases h

section Turn

variable {a : Actor} {observed : Option Nat} {handler : Actor → Actor} {fx : List Effect}

theorem turn_eq (hfx : (handler b.actor.entry).effects = fx) (hloads : loads (requests fx) = []) :
    b.turn observed handler = { b with
      actor := handler b.actor.entry
      place := (newest fx observed).or b.place
      reckoned := (newest fx observed).isNone && (b.reckoned || b.actor.millis.isSome &&
        (handler b.actor.entry).millis ≠ b.actor.millis) } := by
  unfold turn
  simp only [hfx, hloads, getLast?_nil]

theorem Tracked.of_actor (h : b.Tracked) {a : Actor} (hpath : a.observedPath = b.actor.observedPath)
    (hcurrent : a.current = b.actor.current) {place : Option Nat} {reckoned : Bool} :
    Tracked { b with actor := a, place := place, reckoned := reckoned } :=
  ⟨h.inOrder, hpath.trans h.path, h.nodup, h.lt_next, h.wanted_lt,
    fun entry hentry hwanted => (congrArg _ hcurrent).trans (h.named entry hentry hwanted),
    fun load hwanted hload => ⟨(h.up load hwanted hload).1.imp fun _ hpath =>
      ⟨hpath.1, (congrArg _ hcurrent).trans hpath.2⟩, (h.up load hwanted hload).2⟩, h.once⟩

/-- **One handler call** that neither loads nor loses a player. -/
theorem Kept.turn (h : Kept { b with actor := a }) (hnew : a.effects = [])
    (hmillis : a.millis = b.actor.millis) (hm : Moves a (handler b.actor.entry) fx observed)
    (hopen : b.isOpen = true ∨ newest fx observed = none ∧ observed = none) :
    Kept (b.turn observed handler) := by
  rw [turn_eq (by rw [hm.effects, hnew, nil_append]) hm.loads]
  have hframe := hm.frame
  simp only [Actor.frame, Prod.mk.injEq] at hframe
  obtain ⟨hrestore, hcurrent, hpath, hplayer, hspawn, hreattach⟩ := hframe
  refine ⟨h.tracked.of_actor hpath hcurrent, hm.onePlayer h.onePlayer,
    fun ho => hplayer.trans (h.plugged ho), ?_, ?_, h.log⟩
  · intro ho
    have hplace := h.atPlace ho
    refine ⟨hm.stays hplace.anchored, hrestore.trans hplace.taken, fun hnone => ?_,
      fun hreckoned millis hmillis' => ?_⟩
    · exact hplace.resumed (or_eq_none_iff.mp hnone).2
    · cases hnewest : newest fx observed with
      | some newer =>
        simp only [hnewest, some_or] at hmillis'
        exact hmillis' ▸ hm.known newer hnewest
      | none =>
        -- Without a newer position the estimate has not moved, or was reckoned.
        simp only [hnewest, none_or] at hmillis'
        simp only [hnewest, isNone_none, Bool.true_and, Bool.or_eq_false_iff,
          Bool.and_eq_false_iff, decide_eq_false_iff_not, not_not] at hreckoned
        have hbefore := hplace.estimate hreckoned.1 millis hmillis'
        rcases hreckoned.2 with hnone | hsame
        · rw [← hmillis, hbefore] at hnone
          cases hnone
        · exact hsame.trans (hmillis.symm.trans hbefore)
  · intro hclosed
    have hwait := h.awaited hclosed
    obtain ⟨hnone, hobserved⟩ := hopen.resolve_left fun ho => by cases hclosed.symm.trans ho
    refine ⟨hm.blank hwait.estimate hnone, hm.scrub hwait.scrub hobserved, ?_⟩
    rw [hnone, none_or]
    rcases hwait.restore with hholds | ⟨hdown, hidle, haway⟩
    · exact .inl fun millis hmillis' => hrestore.trans (hholds millis hmillis')
    · exact .inr ⟨hplayer.trans hdown, hspawn.trans hidle, hreattach.trans haway⟩

end Turn

/-! ## §4. A player dies. -/

variable {handler : Actor → Actor}

/-- **A death** that finds the place known keeps it. -/
theorem Kept.die (h : b.Kept) {env : Env}
    (hhandler : handler b.actor.entry = b.actor.entry.handlePlayerDeath env)
    (hplayer : b.actor.player = true) (hsafe : b.deathSafe = true) :
    (b.turn none handler).unplug.Kept := by
  simp only [deathSafe, Bool.and_eq_true, Bool.not_eq_true', isNone_iff_eq_none] at hsafe
  have hdied := died_handlePlayerDeath b.actor.entry env
    { h.onePlayer with } hplayer rfl
  rw [← hhandler] at hdied
  have hnone : newest (handler b.actor.entry).effects none = none := by
    rw [newest, hdied.silent]
    rfl
  rw [turn_eq rfl (by rw [hdied.silent]; rfl)]
  refine kept_unplug hdied.path hdied.onePlayer hdied.estimate hdied.scrub ?_ h.log
  simp only [hnone, none_or]
  rcases hdied.restore with hrestore | hgone
  · refine .inl fun millis hmillis => hrestore.trans ?_
    show b.actor.millis = some millis
    rcases Bool.eq_false_or_eq_true b.isOpen with hopen | hclosed
    · have hplace := h.atPlace hopen
      cases hp : b.place with
      | some place =>
        rw [hp, some_or] at hmillis
        exact hplace.estimate hsafe.2 millis (hp.trans hmillis)
      | none =>
        rw [hp, hplace.resumed hp] at hmillis
        cases hmillis
    · rcases (h.awaited hclosed).restore with hholds | ⟨hdown, _⟩
      · cases (hholds millis hmillis).symm.trans hsafe.1
      · cases hdown.symm.trans hplayer
  · exact .inr hgone

/-! ## §5. What the player tells. -/

theorem openings_append (queue more : List Sighting) :
    openings (queue ++ more) = openings queue ++ openings more :=
  filterMap_append

variable {a : Actor} {queue : List Sighting} {opening : List (Nat × String)}

theorem Tracked.thin (h : b.Tracked) {heard deck : Deck} (hcurrent : a.current = b.actor.current)
    (horder : InOrder heard queue deck) (hpath : a.observedPath = heard.path)
    (hlive : (heard.load.toList ++ (openings queue ++ opening).map (·.1)).Sublist b.live)
    (hpending : (openings queue ++ opening).Sublist b.pending)
    (hup : ∀ load, b.wanted = some load → heard.load = some load →
      (∃ path, heard.path = some path ∧ b.actor.current.map (·.path) = some path) ∧
        heard.loaded = b.isOpen) :
    Tracked { b with
      actor := a, opening := opening, deck := deck, queue := queue, heard := heard } :=
  have hsame := congrArg (Option.map CurrentFile.path) hcurrent
  ⟨horder, hpath, h.nodup.sublist hlive, fun load hload => h.lt_next load (hlive.subset hload),
    h.wanted_lt, fun entry hentry hw => hsame.trans (h.named entry (hpending.subset hentry) hw),
    fun load hw hl =>
      ⟨(hup load hw hl).1.imp fun _ hp => ⟨hp.1, hsame.trans hp.2⟩, (hup load hw hl).2⟩,
    fun hopen =>
      let ⟨load, hload, hnot⟩ := h.once hopen
      ⟨load, hload, fun hmem => hnot ((hpending.map _).subset hmem)⟩⟩

theorem Tracked.tell (h : b.Tracked) {seen : Sighting} (hok : b.deck.allows seen.event = true)
    (hpending : (openings [seen] ++ opening).Sublist b.opening) :
    Tracked ({ b with opening := opening }.tell seen) := by
  have hsub : (openings (b.queue ++ [seen]) ++ opening).Sublist b.pending := by
    rw [openings_append, append_assoc]
    exact hpending.append_left _
  refine h.thin rfl (h.inOrder.tell hok) h.path ?_ hsub h.up
  exact (hsub.map _).append_left _

theorem Kept.of_tracked (h : b.Kept) {deck heard : Deck}
    (ht : Tracked { b with opening := opening, deck := deck, queue := queue, heard := heard }) :
    Kept { b with opening := opening, deck := deck, queue := queue, heard := heard } :=
  ⟨ht, h.onePlayer, h.plugged, fun ho => { h.atPlace ho with }, fun hc => { h.awaited hc with },
    h.log⟩

theorem Kept.tell (h : b.Kept) {seen : Sighting} (hok : b.deck.allows seen.event = true)
    (hpending : (openings [seen] ++ opening).Sublist b.opening) :
    Kept ({ b with opening := opening }.tell seen) :=
  h.of_tracked (h.tracked.tell hok hpending)

/-! ## §6. What the actor hears. -/

section Hear

variable {env : Env} {queue : List Sighting}

theorem openings_cons_of_none {seen : Sighting} (h : openings [seen] = []) :
    openings (seen :: queue) = openings queue := by
  show openings ([seen] ++ queue) = _
  rw [openings_append, h, nil_append]

theorem onWanted_iff : b.onWanted = true ↔
    ∃ load, b.wanted = some load ∧ b.heard.load = some load := by
  unfold onWanted
  cases b.wanted with
  | none => simp
  | some load => simp

theorem Tracked.onFile (h : b.Tracked) (hup : b.onWanted = true) :
    b.actor.playerOnCurrentFile = true ∧ b.heard.loaded = b.isOpen := by
  obtain ⟨load, hwanted, hload⟩ := onWanted_iff.mp hup
  obtain ⟨⟨path, hpath, hcurrent⟩, hloaded⟩ := h.up load hwanted hload
  obtain ⟨current, hsome, hname⟩ := map_eq_some_iff.mp hcurrent
  refine ⟨?_, hloaded⟩
  unfold Actor.playerOnCurrentFile
  rw [h.path, hpath, hsome]
  simp [hname]

theorem Kept.rebase (h : b.Kept) {path : Option String} {heard : Deck} (ht : Tracked { b with
      actor := { b.actor.entry with observedPath := path }, queue := queue, heard := heard }) :
    Kept { b with
      actor := { b.actor.entry with observedPath := path }, queue := queue, heard := heard } :=
  ⟨ht, { h.onePlayer with }, h.plugged, fun ho => { h.atPlace ho with },
    fun hc => { h.awaited hc with }, h.log⟩

theorem Kept.entry (h : b.Kept) : Kept { b with actor := b.actor.entry } :=
  h.rebase (h.tracked.of_actor (a := b.actor.entry) rfl rfl)

theorem Kept.dequeue (h : b.Kept) {seen : Sighting} (hq : b.queue = seen :: queue)
    (hheard : b.heard.hear seen = b.heard) (hnone : openings [seen] = []) :
    Kept { b with queue := queue } := by
  have horder := h.tracked.inOrder
  rw [hq] at horder
  have hpending : openings queue ++ b.opening = b.pending := by
    rw [pending, hq, openings_cons_of_none hnone]
  refine h.of_tracked (h.tracked.thin rfl (hheard ▸ horder.2) h.tracked.path ?_ ?_ h.tracked.up)
  · rw [hpending]
    exact List.Sublist.refl _
  · rw [hpending]

variable {load : Option Nat}

/-- What a report says of a position is of the current file, exactly when the actor takes it
so; and then that file is open. -/
theorem Kept.report_sorted (h : b.Kept) {event : PlayerEvent}
    (hq : b.queue = ⟨event, load⟩ :: queue) (hok : b.careful (.receive env) = true) :
    (event.reported?.filter fun _ => b.onWanted) =
        (event.reported?.filter fun _ => b.actor.playerOnCurrentFile) ∧
      (b.isOpen = true ∨ event.reported? = none ∨ b.actor.playerOnCurrentFile = false) := by
  cases hreported : event.reported? with
  | none => exact ⟨rfl, .inr (.inl rfl)⟩
  | some millis =>
    have horder := h.tracked.inOrder
    rw [hq] at horder
    have hloaded : b.heard.loaded = true := by
      cases event with
      | position _ | seeked _ => exact horder.1
      | _ => cases hreported
    have hsorted : (b.onWanted || !b.actor.playerOnCurrentFile) = true := by
      simp only [careful, hq] at hok
      cases event with
      | position _ | seeked _ => exact hok
      | _ => cases hreported
    cases hup : b.onWanted with
    | true =>
      obtain ⟨hfile, hopen⟩ := h.tracked.onFile hup
      exact ⟨by rw [hfile], .inl (hopen.symm.trans hloaded)⟩
    | false =>
      rw [hup, Bool.false_or, Bool.not_eq_true'] at hsorted
      exact ⟨by rw [hsorted], .inr (.inr hsorted)⟩

theorem Kept.hear_report (h : b.Kept) {event : PlayerEvent} (hq : b.queue = ⟨event, load⟩ :: queue)
    (hreport : event.isReport = true) (hok : b.careful (.receive env) = true) :
    (b.hearNext env ⟨event, load⟩ queue).Kept := by
  have hheard : b.heard.hear ⟨event, load⟩ = b.heard ∧ openings [⟨event, load⟩] = [] := by
    cases event <;> first | exact ⟨rfl, rfl⟩ | cases hreport
  obtain ⟨hsame, hwhere⟩ := h.report_sorted hq hok
  obtain ⟨fx, hm, hfx⟩ := Moves.handlePlayerEvent b.actor.entry env hreport
  have heq : b.hearNext env ⟨event, load⟩ queue = { b with queue := queue }.turn
      (event.reported?.filter fun _ => b.onWanted) (·.handlePlayerEvent env event) := by
    simp only [hearNext, hheard.1]
    cases event <;> first | rfl | cases hreport
  rw [heq, hsame]
  refine (h.dequeue hq hheard.1 hheard.2).entry.turn rfl rfl hm ?_
  rcases hwhere with hopen | hnone | hoff
  · exact .inl hopen
  · refine .inr ⟨?_, by rw [hnone]; rfl⟩
    rw [newest, hfx (.inl hnone), hnone]
    rfl
  · have hunheard : (event.reported?.filter fun _ => b.actor.playerOnCurrentFile) = none := by
      rw [hoff]
      cases event.reported? <;> rfl
    refine .inr ⟨?_, hunheard⟩
    rw [newest, hfx (.inr hoff), hunheard]
    rfl

theorem Kept.hear_path (h : b.Kept) {path : String}
    (hq : b.queue = ⟨.pathChanged path, load⟩ :: queue) :
    (b.hearNext env ⟨.pathChanged path, load⟩ queue).Kept := by
  have horder := h.tracked.inOrder
  rw [hq] at horder
  have hopenings : openings b.queue = (load.map (·, path)).toList ++ openings queue := by
    rw [hq]
    cases load <;> rfl
  have hpending : b.pending = (load.map (·, path)).toList ++ (openings queue ++ b.opening) := by
    rw [pending, hopenings, append_assoc]
  -- What was up before is forgotten, and what is up now is no longer to come.
  have hlive : (load.toList ++ (openings queue ++ b.opening).map (·.1)).Sublist b.live := by
    have hload : load.toList = ((load.map (·, path)).toList).map (·.1) := by cases load <;> rfl
    rw [live, hpending, hload, ← map_append]
    exact sublist_append_right _ _
  have htracked := h.tracked.thin (a := { b.actor.entry with observedPath := some path })
    rfl horder.2 rfl hlive
    (hpending ▸ sublist_append_right _ _) (by
      intro other hwanted hload
      cases hload
      have hmem : (other, path) ∈ b.pending := by rw [hpending]; exact mem_cons_self
      refine ⟨⟨path, rfl, h.tracked.named _ hmem hwanted⟩, ?_⟩
      cases hopen : b.isOpen with
      | false => rfl
      | true =>
        obtain ⟨was, hwas, hnot⟩ := h.tracked.once hopen
        cases hwanted.symm.trans hwas
        exact absurd (mem_map_of_mem hmem) hnot)
  have hmoves : ∃ fx, Moves { b.actor.entry with observedPath := some path }
      (b.actor.entry.handlePathChanged path) fx none ∧ newest fx none = none := by
    simp only [Actor.handlePathChanged]
    split
    · exact ⟨[], .keep rfl, rfl⟩
    · exact ⟨_, ((Moves.keep rfl).send (.pathObserved path)).to_view rfl, rfl⟩
  obtain ⟨fx, hm, hnone⟩ := hmoves
  have heq : b.hearNext env ⟨.pathChanged path, load⟩ queue =
      { b with queue := queue, heard := ⟨load, some path, false⟩ }.turn none
        (·.handlePlayerEvent env (.pathChanged path)) := by
    rfl
  rw [heq]
  exact Kept.turn (a := { b.actor.entry with observedPath := some path }) (h.rebase htracked) rfl
    rfl hm (.inr ⟨hnone, rfl⟩)

theorem Kept.hear_other (h : b.Kept) (hq : b.queue = ⟨.loaded, load⟩ :: queue)
    (hother : b.onWanted = false) (hok : b.careful (.receive env) = true) :
    (b.hearNext env ⟨.loaded, load⟩ queue).Kept := by
  have hopen : b.isOpen = true := by
    simp only [careful, hq, hother] at hok
    exact hok
  have horder := h.tracked.inOrder
  rw [hq] at horder
  have hpending : openings queue ++ b.opening = b.pending := by
    rw [pending, hq, openings_cons_of_none rfl]
  have htracked := h.tracked.thin (a := b.actor.entry) rfl
    horder.2 h.tracked.path (by rw [hpending]; exact List.Sublist.refl _) (by rw [hpending]) (by
      intro wanted hwanted hload
      cases hother.symm.trans (onWanted_iff.mpr ⟨wanted, hwanted, hload⟩))
  have hplace := h.atPlace hopen
  have hview : Moves.view (b.actor.entry.opened env) = Moves.view b.actor.entry := by
    obtain ⟨est, hest⟩ := ne_none_iff_exists'.mp hplace.anchored
    have hsame : b.actor.estimate.or (some ⟨0, env.now⟩) = b.actor.estimate := by rw [hest]; rfl
    show (_, _, b.actor.estimate.or (some ⟨0, env.now⟩), _) = (_, _, b.actor.estimate, _)
    rw [hsame]
    rfl
  obtain ⟨fx, hm, hfx⟩ := Moves.applyDesiredPause (b.actor.entry.opened env) env
  have hhandler : b.actor.entry.handlePlayerEvent env .loaded =
      (b.actor.entry.opened env).applyDesiredPause env :=
    b.actor.entry.handleLoaded_fresh env hplace.taken
  have heq : b.hearNext env ⟨.loaded, load⟩ queue =
      { b with queue := queue, heard := { b.heard with loaded := true } }.turn none
        (·.handlePlayerEvent env .loaded) :=
    if_neg fun hup => by cases hother.symm.trans hup
  rw [heq]
  have hmoves := (hm.of_view hview).to_view (congrArg Moves.view hhandler)
  exact Kept.turn (a := b.actor.entry) (h.rebase htracked) rfl rfl
    hmoves (.inl hopen)

theorem Tracked.open (h : b.Tracked) {a : Actor} {place : Option Nat} {reckoned : Bool}
    {log : List Restoration} (hq : b.queue = ⟨.loaded, load⟩ :: queue) (hup : b.onWanted = true)
    (hcurrent : a.current = b.actor.current) (hpath : a.observedPath = b.actor.observedPath) :
    Tracked { b with
      actor := a, queue := queue, heard := { b.heard with loaded := true }, place := place,
      reckoned := reckoned, isOpen := true, log := log } := by
  have horder := h.inOrder
  rw [hq] at horder
  obtain ⟨wanted, hwanted, hload⟩ := onWanted_iff.mp hup
  have hpending : openings queue ++ b.opening = b.pending := by
    rw [pending, hq, openings_cons_of_none rfl]
  have hsame := congrArg (Option.map CurrentFile.path) hcurrent
  refine ⟨horder.2, hpath.trans h.path, ?_, ?_, h.wanted_lt, ?_, ?_, fun _ => ⟨wanted, hwanted, ?_⟩⟩
  · show (b.heard.load.toList ++ (openings queue ++ b.opening).map _).Nodup
    rw [hpending]
    exact h.nodup
  · show ∀ load ∈ b.heard.load.toList ++ (openings queue ++ b.opening).map _, load < b.next
    rw [hpending]
    exact h.lt_next
  · show ∀ entry ∈ openings queue ++ b.opening, _
    rw [hpending]
    exact fun entry hentry hw => hsame.trans (h.named entry hentry hw)
  · intro other hw hl
    exact ⟨(h.up other hw hl).1.imp fun _ hp => ⟨hp.1, hsame.trans hp.2⟩, rfl⟩
  · -- It was up already, so it is not among the openings still to come.
    show wanted ∉ (openings queue ++ b.opening).map _
    have hnodup := h.nodup
    rw [live, hload] at hnodup
    rw [hpending]
    exact (nodup_cons.mp hnodup).1

/-- **The current file is open.**  It goes where it should. -/
theorem Kept.hear_wanted (h : b.Kept) (hq : b.queue = ⟨.loaded, load⟩ :: queue)
    (hplayer : b.actor.player = true) (hup : b.onWanted = true)
    (hok : b.careful (.receive env) = true) : (b.hearNext env ⟨.loaded, load⟩ queue).Kept := by
  have horder := h.tracked.inOrder
  rw [hq] at horder
  have hclosed : b.isOpen = false := by
    rw [← (h.tracked.onFile hup).2]
    exact Bool.not_eq_true' _ ▸ horder.1
  have hseek : env.seekOk = true ∨ b.actor.restoreMillis = none := by
    simpa [careful, hq, hup, isNone_iff_eq_none] using hok
  have hholds := (h.awaited hclosed).restore.resolve_right fun hgone => by
    cases hgone.1.symm.trans hplayer
  have hopened := reopened_handleLoaded b.actor.entry rfl hplayer hseek
  have hframe := hopened.frame
  simp only [Actor.frame, Prod.mk.injEq] at hframe
  obtain ⟨hrestore, hcurrent, hpath, hup', hspawn, hreattach⟩ := hframe
  set a' := b.actor.entry.handleLoaded env with ha'
  have hnewest : newest a'.effects none = b.actor.restoreMillis := by
    rw [newest, hopened.seeks]
    show (b.actor.restoreMillis.toList).getLast?.or none = _
    cases b.actor.restoreMillis <;> rfl
  have hturn : { b with queue := queue, heard := { b.heard with loaded := true } }.turn none
      (·.handlePlayerEvent env .loaded) = _ := turn_eq rfl hopened.loads
  have heq : b.hearNext env ⟨.loaded, load⟩ queue =
      { { b with queue := queue, heard := { b.heard with loaded := true } }.turn none
          (·.handlePlayerEvent env .loaded) with
        isOpen := true
        log := b.log ++ [⟨b.place.or b.resume, seeks (requests
          ({ b with queue := queue, heard := { b.heard with loaded := true } }.turn none
            (·.handlePlayerEvent env .loaded)).actor.effects)⟩] } := if_pos hup
  rw [heq, hturn]
  refine ⟨h.tracked.open hq hup hcurrent hpath, ?_, fun _ => hup'.trans hplayer,
    fun _ => ⟨hopened.anchored, hrestore, ?_, ?_⟩, (fun hc => by cases hc), ?_⟩
  · exact ⟨fun hp => hspawn.trans (h.onePlayer.spawn hplayer),
      fun hp => hreattach.trans (h.onePlayer.reattach hplayer),
      fun hp => hreattach.trans (h.onePlayer.reattach hplayer)⟩
  · -- A place is commanded, or none was known.
    intro hnone
    obtain ⟨hsought, hplace⟩ := or_eq_none_iff.mp hnone
    cases hresume : b.resume with
    | none => rfl
    | some resume =>
      have := hholds resume (by rw [hplace, hresume]; rfl)
      cases (hnewest.symm.trans hsought).symm.trans this
  · intro _ millis hmillis
    cases hpoint : b.actor.restoreMillis with
    | some point =>
      have hplace : (newest a'.effects none).or b.place = some millis := hmillis
      rw [hnewest, hpoint, some_or] at hplace
      cases hplace
      exact hopened.estimate _ hpoint
    | none =>
      have hplace : (newest a'.effects none).or b.place = some millis := hmillis
      rw [hnewest, hpoint, none_or] at hplace
      have := hholds millis (by rw [hplace]; rfl)
      cases hpoint.symm.trans this
  · show ∀ entry ∈ b.log ++ [⟨b.place.or b.resume, seeks (requests a'.effects)⟩], entry.Holds
    rw [forall_mem_append]
    refine ⟨h.log, fun entry hentry millis hexpected => ?_⟩
    rw [mem_singleton.mp hentry] at hexpected ⊢
    show seeks (requests a'.effects) = [millis]
    rw [hopened.seeks]
    show b.actor.restoreMillis.toList = [millis]
    rw [hholds millis hexpected]
    rfl

end Hear

/-! ## §7. A file is asked for. -/

theorem Tracked.ask (h : b.Tracked) {path : String} {place resume : Option Nat} {reckoned : Bool}
    (hpath : a.observedPath = b.actor.observedPath)
    (hcurrent : a.current.map (·.path) = some path) :
    Tracked { b with
      actor := a
      opening := b.opening ++ [(b.next, path)]
      next := b.next + 1
      wanted := some b.next
      isOpen := false
      place := place
      resume := resume
      reckoned := reckoned } := by
  have hlive : b.heard.load.toList ++ (openings b.queue ++ (b.opening ++ [(b.next, path)])).map
      (·.1) = b.live ++ [b.next] := by
    rw [live, pending, map_append, map_append, map_append, append_assoc,
      append_assoc]
    rfl
  refine ⟨h.inOrder, hpath.trans h.path, ?_, ?_, ?_, ?_, ?_, nofun⟩
  · show (_ ++ (openings b.queue ++ (b.opening ++ [(b.next, path)])).map _).Nodup
    rw [hlive, nodup_append]
    refine ⟨h.nodup, nodup_singleton _, fun load hload other hother => ?_⟩
    rw [mem_singleton.mp hother]
    exact Nat.ne_of_lt (h.lt_next load hload)
  · show ∀ load ∈ _ ++ (openings b.queue ++ (b.opening ++ [(b.next, path)])).map _,
      load < b.next + 1
    rw [hlive, forall_mem_append]
    refine ⟨fun load hload => Nat.lt_succ_of_lt (h.lt_next load hload), ?_⟩
    simp
  · intro load hload
    cases hload
    exact Nat.lt_succ_self _
  · show ∀ entry ∈ openings b.queue ++ (b.opening ++ [(b.next, path)]), _
    rw [← append_assoc, forall_mem_append]
    constructor
    · intro entry hentry hw
      -- Older calls are not wanted any more.
      have hlt := h.lt_next entry.1 (mem_append_right _ (mem_map_of_mem hentry))
      rw [← Option.some.inj hw] at hlt
      exact absurd hlt (lt_irrefl _)
    · intro entry hentry _
      rw [mem_singleton.mp hentry]
      exact hcurrent
  · intro load hw hl
    cases hw
    have hlt := h.lt_next b.next (mem_append_left _ (by rw [hl]; exact mem_singleton_self _))
    exact absurd hlt (lt_irrefl _)

/-- **A file is asked for,** or could not be. -/
theorem Kept.reload {place resume : Option Nat} {reckoned : Bool}
    (h : b.Tracked) (hclosed : b.isOpen = false) (hlog : ∀ entry ∈ b.log, entry.Holds)
    (hr : Reloads (handler b.actor.entry))
    (hpath : (handler b.actor.entry).observedPath = b.actor.observedPath)
    (hcurrent : b.wanted = none ∨ (handler b.actor.entry).current = b.actor.current)
    (hrestore : (∀ millis, place.or resume = some millis →
      (handler b.actor.entry).restoreMillis = some millis) ∨ GaveUp (handler b.actor.entry)) :
    Kept { b.turn none handler with place := place, resume := resume, reckoned := reckoned } := by
  have hshut : b.isOpen ≠ true := by rw [hclosed]; exact Bool.false_ne_true
  rcases hr.loads with hnone | ⟨path, hload, hname⟩
  · rw [turn_eq rfl hnone]
    refine ⟨⟨h.inOrder, hpath.trans h.path, h.nodup, h.lt_next, h.wanted_lt, ?_, ?_, h.once⟩,
      hr.onePlayer, fun ho => absurd ho hshut, fun ho => absurd ho hshut,
      fun _ => ⟨hr.estimate, hr.scrub, hrestore⟩, hlog⟩
    · intro entry hentry hw
      rcases hcurrent with hnone | hsame
      · cases hnone.symm.trans hw
      · exact (congrArg _ hsame).trans (h.named entry hentry hw)
    · intro load hw hl
      rcases hcurrent with hnone | hsame
      · cases hnone.symm.trans hw
      · exact ⟨(h.up load hw hl).1.imp fun _ hp => ⟨hp.1, (congrArg _ hsame).trans hp.2⟩,
          (h.up load hw hl).2⟩
  · have heq : b.turn none handler = { b with
        actor := handler b.actor.entry
        opening := b.opening ++ [(b.next, path)]
        next := b.next + 1
        wanted := some b.next
        isOpen := false
        place := (b.turn none handler).place
        reckoned := (b.turn none handler).reckoned } := by
      unfold Booth.turn
      simp only [hload, getLast?_singleton]
    rw [heq]
    exact ⟨h.ask hpath hname, hr.onePlayer, nofun, nofun,
      fun _ => ⟨hr.estimate, hr.scrub, hrestore⟩, hlog⟩

theorem Kept.shut (h : b.Kept) (hdown : b.actor.player ≠ true) :
    b.isOpen = false ∧ Cleared b.actor.entry := by
  have hclosed : b.isOpen = false := Bool.eq_false_of_not_eq_true fun ho => hdown (h.plugged ho)
  have hwait := h.awaited hclosed
  exact ⟨hclosed, hwait.estimate, hwait.scrub, rfl, rfl,
    { h.onePlayer with }⟩

theorem Kept.comeUp (h : b.Kept) (hclosed : b.isOpen = false) (hwas : ¬ GaveUp b.actor)
    (hr : Reloads (handler b.actor.entry))
    (haim : aim (handler b.actor.entry) = aim b.actor.entry) : Kept (b.turn none handler) := by
  simp only [aim, Prod.mk.injEq] at haim
  obtain ⟨hcurrent, hrestore, hpath⟩ := haim
  have hnone : newest (handler b.actor.entry).effects none = none := by
    rw [newest, hr.seeks]
    rfl
  have hplace : (b.turn none handler).place = b.place ∧
      (b.turn none handler).resume = b.resume := by
    unfold Booth.turn
    simp only [hnone, none_or]
    split <;> exact ⟨rfl, rfl⟩
  show Kept { b.turn none handler with
    place := (b.turn none handler).place
    resume := (b.turn none handler).resume
    reckoned := (b.turn none handler).reckoned }
  refine Kept.reload h.tracked hclosed h.log hr hpath (.inr hcurrent) (.inl ?_)
  intro millis hmillis
  rw [hplace.1, hplace.2] at hmillis
  exact hrestore.trans (((h.awaited hclosed).restore.resolve_right hwas) millis hmillis)

/-- **A load** forgets the place of the file before; its resume point is the restore point. -/
theorem Kept.handleLoad (h : b.Kept) (env : Env) (current : CurrentFile)
    (resumeMillis : Option Nat) :
    Kept { { b with wanted := none, isOpen := false }.turn none
        (·.handleLoad env current resumeMillis) with
      place := none, resume := resumeMillis, reckoned := false } := by
  obtain ⟨hr, haim⟩ := reloads_handleLoad b.actor.entry env rfl
    { h.onePlayer with } current resumeMillis
  simp only [aim, Prod.mk.injEq] at haim
  have htracked : Tracked { b with wanted := none, isOpen := false } :=
    ⟨h.tracked.inOrder, h.tracked.path, h.tracked.nodup, h.tracked.lt_next,
      (fun _ hw => by cases hw), (fun _ _ hw => by cases hw), (fun _ hw => by cases hw),
      (fun ho => by cases ho)⟩
  refine Kept.reload (b := { b with wanted := none, isOpen := false })
    htracked rfl h.log hr haim.2.2 (.inl rfl)
    (.inl fun millis hmillis => ?_)
  rw [none_or] at hmillis
  exact haim.2.1.trans hmillis

theorem Kept.handleCommand (h : b.Kept) {env : Env} {command : PlayerCommand}
    (hload : ∀ file path title resumeMillis, command ≠ .load file path title resumeMillis)
    (hok : b.careful (.command env command) = true) :
    Kept (b.turn none (·.handleCommand env command)) := by
  obtain ⟨fx, hm, hfx⟩ := Moves.handleCommand b.actor.entry env hload
  refine h.entry.turn rfl rfl hm ?_
  rcases Bool.eq_false_or_eq_true b.isOpen with hopen | hclosed
  · exact .inl hopen
  · have hwait := h.awaited hclosed
    have hseeks := hfx hwait.estimate hwait.scrub fun target hcommand => by
      rw [hcommand] at hok
      show b.actor.player = false
      simpa [careful, hclosed] using hok
    refine .inr ⟨?_, rfl⟩
    rw [newest, hseeks]
    rfl

theorem Kept.report (h : b.Kept) {fx : List Effect}
    (hm : Moves b.actor.entry (handler b.actor.entry) fx none) (hfx : requests fx = []) :
    Kept (b.turn none handler) := by
  refine h.entry.turn rfl rfl hm (.inr ⟨?_, rfl⟩)
  rw [newest, hfx]
  rfl

theorem Kept.flushUserSeek (h : b.Kept) : Kept (b.turn none (·.flushUserSeek)) := by
  cases hscrub : b.actor.pendingUserSeek with
  | none =>
    have heq : b.actor.entry.flushUserSeek = b.actor.entry := by
      rw [Actor.flushUserSeek, show b.actor.entry.pendingUserSeek = none from hscrub]
    exact h.report (.keep (congrArg Moves.view heq)) rfl
  | some scrub =>
    have heq : b.actor.entry.flushUserSeek = { b.actor.entry with pendingUserSeek := none }.send
        (.userSeeked scrub.fromMillis scrub.toMillis) := by
      rw [Actor.flushUserSeek, show b.actor.entry.pendingUserSeek = some scrub from hscrub]
    have hsent := (Moves.keep (a := { b.actor.entry with pendingUserSeek := none }) rfl).send
      (.userSeeked scrub.fromMillis scrub.toMillis)
    rw [← heq] at hsent
    exact h.report { hsent with scrub := fun _ => hsent.scrub rfl } rfl

theorem Kept.maybeEmitPosition (h : b.Kept) (env : Env) :
    Kept (b.turn none (·.maybeEmitPosition env)) := by
  rcases b.actor.entry.maybeEmitPosition_cases env with heq | ⟨file, millis, heq⟩
  · exact h.report (.keep (congrArg Moves.view heq)) rfl
  · have hsent := (Moves.keep (a := b.actor.entry)
      (b := { b.actor.entry with lastPositionEmit := some env.now }) rfl).send
      (.positionTick file millis)
    exact h.report (hsent.to_view (congrArg Moves.view heq)) rfl

/-! ## §8. Every run. -/

theorem Kept.hearNext (h : b.Kept) {env : Env} {seen : Sighting} (hq : b.queue = seen :: queue)
    (hplayer : b.actor.player = true) (hok : b.careful (.receive env) = true) :
    (b.hearNext env seen queue).Kept := by
  obtain ⟨event, load⟩ := seen
  cases event with
  | pathChanged path => exact h.hear_path hq
  | loaded =>
    rcases Bool.eq_false_or_eq_true b.onWanted with hup | hother
    · exact h.hear_wanted hq hplayer hup hok
    · exact h.hear_other hq hother hok
  | exited reason =>
    have hsafe : b.deathSafe = true := by
      simpa only [careful, hq] using hok
    exact (h.dequeue hq rfl rfl).die rfl hplayer hsafe
  | position _ | seeked _ | pauseChanged _ | subtitleLine _ _ | durationKnown _ | eof
  | loadFailed =>
    exact h.hear_report hq rfl hok

/-- **One step** of the booth. -/
theorem Kept.step (h : b.Kept) {event : BoothEvent} (hok : b.careful event = true)
    (hstep : b.step event = some b') : b'.Kept := by
  cases event with
  | command env command =>
    cases command with
    | load file path title resumeMillis =>
      cases hstep
      exact h.handleLoad env ⟨file, path, title⟩ resumeMillis
    | _ =>
      cases hstep
      exact h.handleCommand nofun hok
  | openNext =>
    simp only [Booth.step] at hstep
    split at hstep
    next load path opening hopening =>
      cases hstep
      exact h.tell rfl (by rw [hopening]; exact List.Sublist.refl _)
    · cases hstep
  | openFails =>
    simp only [Booth.step] at hstep
    split at hstep
    next opening hopening =>
      cases hstep
      exact h.tell rfl (by rw [hopening]; exact sublist_cons_self _ _)
    · cases hstep
  | tell event =>
    obtain ⟨⟨_, hallows⟩, hstep⟩ := ite_none_right_eq_some.mp hstep
    cases hstep
    have hnone : openings [⟨event, none⟩] = [] := by cases event <;> rfl
    exact h.tell hallows (by rw [hnone]; exact List.Sublist.refl _)
  | receive env =>
    simp only [Booth.step] at hstep
    split at hstep
    next seen queue hq =>
      obtain ⟨hplayer, hstep⟩ := ite_none_right_eq_some.mp hstep
      cases hstep
      exact h.hearNext hq hplayer hok
    · cases hstep
  | lost env =>
    obtain ⟨hplayer, hstep⟩ := ite_none_right_eq_some.mp hstep
    cases hstep
    exact h.die rfl hplayer hok
  | reattach env up =>
    obtain ⟨hdue, hstep⟩ := ite_none_right_eq_some.mp hstep
    cases hstep
    have haway : b.actor.reattachAt ≠ none := fun hnone => by
      rw [hnone] at hdue
      cases hdue
    obtain ⟨hclosed, hcleared⟩ := h.shut fun hp => haway (h.onePlayer.reattach hp)
    obtain ⟨hr, haim⟩ := reloads_tryReattach b.actor.entry env hcleared haway up
    exact h.comeUp hclosed (fun hgone => haway hgone.2.2) hr haim
  | spawned env delivered =>
    obtain ⟨hspawn, hstep⟩ := ite_none_right_eq_some.mp hstep
    cases hstep
    obtain ⟨hclosed, hcleared⟩ := h.shut fun hp => by
      cases (h.onePlayer.spawn hp).symm.trans hspawn
    obtain ⟨hr, haim⟩ := reloads_finishSpawn b.actor.entry env hcleared hspawn delivered
    exact h.comeUp hclosed (fun hgone => by cases hgone.2.1.symm.trans hspawn) hr haim
  | flush env =>
    obtain ⟨_, hstep⟩ := ite_none_right_eq_some.mp hstep
    cases hstep
    exact h.flushUserSeek
  | tick env =>
    cases hstep
    exact h.maybeEmitPosition env

/-- **The place is kept.**  As long as every step is careful, whenever the current file is open the
actor has sought it to the last position observed or commanded since its latest `Load`, else to that
`Load`'s resume point. -/
theorem loaded_restores_place (env : Env) (attachMode : Bool)
    (hreach : Reach Booth.step (fun b event => b.careful event = true)
      (start env attachMode) b) :
    ∀ entry ∈ b.log, entry.Holds := by
  have hkept : b.Kept :=
    hreach.invariant (kept_start env attachMode) fun _ _ _ h hok hs => h.step hok hs
  exact hkept.log

def resumed : List BoothEvent :=
  [.spawned (willing 0) (some true),
    .command (willing 1) (.load 7 "/media/ep.mkv" none (some 5000)),
    .openNext, .tell .loaded, .receive (willing 2), .receive (willing 3)]

/-- It plays on a little and dies; the next player opens the file again. -/
def relaunched : List BoothEvent :=
  [.tell (.position 6000), .receive (willing 4), .lost (willing 5),
    .spawned (willing 6) (some true), .openNext, .tell .loaded, .receive (willing 7),
    .receive (willing 8)]

theorem loaded_restores_place_relaunched :
    ∃ b, runWith Booth.step Booth.careful (start (willing 0) false)
        (resumed ++ relaunched) = some b ∧
      b.log = [⟨some 5000, [5000]⟩, ⟨some 6000, [6000]⟩] ∧ ∀ entry ∈ b.log, entry.Holds := by
  have hlog : (runWith Booth.step Booth.careful (start (willing 0) false)
      (resumed ++ relaunched)).map (·.log) =
      some [⟨some 5000, [5000]⟩, ⟨some 6000, [6000]⟩] := by decide +kernel
  obtain ⟨b, hrun, hb⟩ := map_eq_some_iff.mp hlog
  exact ⟨b, hrun, hb, loaded_restores_place (willing 0) false
    (reach_of_runWith _ (fun _ _ h => h) hrun)⟩

def diesOpening : List BoothEvent :=
  [.spawned (willing 0) (some true),
    .command (willing 1) (.load 7 "/media/ep.mkv" none (some 5000)), .lost (willing 2),
    .spawned (willing 3) (some true), .openNext, .tell .loaded, .receive (willing 4),
    .receive (willing 5)]

/-- A second `Load` crosses the `Loaded` of the first, which takes its resume point. -/
def loadsCross : List BoothEvent :=
  [.spawned (willing 0) (some true),
    .command (willing 1) (.load 7 "/media/ep.mkv" none none), .openNext, .tell .loaded,
    .command (willing 2) (.load 8 "/media/next.mkv" none (some 5000)),
    .receive (willing 3), .receive (willing 4), .openNext, .tell .loaded, .receive (willing 5),
    .receive (willing 6)]

/-- The restore point is overwritten by the estimate, which is not there yet; and whichever
`Loaded` comes first takes it. -/
theorem place_lost :
    (∃ b, run Booth.step (start (willing 0) false) diesOpening = some b ∧
      b.log = [⟨some 5000, []⟩]) ∧
    ∃ b, run Booth.step (start (willing 0) false) loadsCross = some b ∧
      b.log = [⟨some 5000, []⟩] := by
  have hdies : (run Booth.step (start (willing 0) false) diesOpening).map (·.log) =
      some [⟨some 5000, []⟩] := by decide +kernel
  have hcross : (run Booth.step (start (willing 0) false) loadsCross).map (·.log) =
      some [⟨some 5000, []⟩] := by decide +kernel
  exact ⟨map_eq_some_iff.mp hdies, map_eq_some_iff.mp hcross⟩

end Booth

end DessPlay.Player
