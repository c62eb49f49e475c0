/-
  DessPlay.Presence.Room
  **THE SERVER'S HANDLERS, ONE CRITICAL SECTION AT A TIME**
  (`dessplay-rendezvous/src/server.rs`).

  Connections, sweeps and client messages start TASKS.  A task is the list of the
  sections it has yet to run: each `Instr` is one critical section on the state or
  the registry, or one access to the stamp counter, and leaves the instructions that
  follow from what it found.  A step picks any task.  Handlers of one connection run
  one after the other in the source; here they may overlap.

  What is outside: the clock, the users storage remembers and the median behind a
  saved position come with each step (`Ambient`); who blocks playback is a parameter;
  the writes of an EOF transition are any writes in one section.  Epochs,
  compaction, broadcasts and the AniDB worker's reads are left out.
-/
import DessPlay.Core.Broadcast
import DessPlay.Core.Replica
import DessPlay.Lib.Machine
import DessPlay.Presence.Registry

namespace DessPlay.Core.CrdtState

def authority (s : CrdtState) : Option SeekAuthority := (s.regs .seekAuthority).value

def nowPlaying (s : CrdtState) : Option Ed2kHash :=
  ((s.regs .nowPlaying).value : Option (Option Ed2kHash)).join

/-- The intent latch says `Playing`. -/
def playing (s : CrdtState) : Bool :=
  ((s.regs .playbackIntent).value : Option PlaybackIntent) = some .playing

end DessPlay.Core.CrdtState

namespace DessPlay.Presence

open BTree DessPlay.Core List Option CrdtState

/-! ## §1. Instructions. -/

inductive Reason where
  /-- `take_authority_from` -/
  | take (user : UserId)
  /-- `pin_rejoin_anchor`, having examined the laggard on `file` -/
  | pin (file : Ed2kHash)
  /-- `follow_laggard` -/
  | follow (file : Ed2kHash)
  /-- any unconditional write -/
  | other
  deriving DecidableEq

/-- One critical section, or one access to the stamp counter. -/
inductive Instr where
  /-- `server_write`, before its stamp -/
  | stampWrite (why : Reason) (w : Write)
  /-- `server_write`, stamped, before the lock -/
  | write (why : Reason) (ts : SharedTimestamp) (w : Write)
  /-- `force_pause`: read the grace file -/
  | pauseRead
  /-- `force_pause`: close the windows -/
  | pauseClose (file : Option Ed2kHash)
  | followCheck (file : Ed2kHash)
  | takeCheck (user : UserId)
  /-- `reconcile_grace_windows`: read the grace file -/
  | reconcileRead
  /-- … look at the intent and now-playing -/
  | reconcileCheck (file : Ed2kHash)
  /-- … close the windows -/
  | reconcileClose (file : Ed2kHash) (moved : Bool)
  /-- `pin_rejoin_anchor`: is a laggard in force while playing? -/
  | pinCheck
  /-- … read the peer list -/
  | pinPeers (file : Ed2kHash)
  /-- … choose the anchor -/
  | pinDecide (file : Ed2kHash) (peers : List PeerInfo)
  /-- `open_grace_window`: was the video playing? -/
  | graceRead (user : UserId) (conn : ConnId) (before : List PeerInfo)
  /-- … open the window -/
  | graceOpen (user : UserId) (conn : ConnId) (now : Nat) (nowPlaying : Option Ed2kHash)
  /-- the last viewer's saved position -/
  | saveLast
  | observe (ts : Option SharedTimestamp)
  | applyOp (op : CrdtOp) (viaDatagram : Bool)
  | mergeState (other : CrdtState)
  /-- the section of an EOF transition -/
  | eof (ws : List Write)

/-- What a step takes from the server's surroundings. -/
structure Ambient where
  now : Nat
  known : List KnownUser
  /-- the answer of `derive::saved_position` -/
  saved : Option Nat

/-- The server.  `control` and `transfers` are the connections being served,
`sessions` and `binds` the registrations and bindings so far, in order. -/
structure Room where
  state : CrdtState
  lastIssued : Nat
  registry : Registry
  control : List (ConnId × UserId × Role)
  sessions : List (ConnId × UserId)
  transfers : List (TransferId × UserId)
  binds : List (TransferId × UserId)
  tasks : List (List Instr)

/-- `force_pause`. -/
def forcePause : List Instr := [.stampWrite .other (.reg .playbackIntent .paused), .pauseRead]

/-- The authority is a user's seek or an anchor on `user`. -/
def HeldBy (user : UserId) : Option SeekAuthority → Bool
  | some (.user seek) => seek.user = user
  | some (.anchor holder _) => holder = user
  | _ => false

namespace Room

variable (room : Room)

def author (now : Nat) (w : Write) : Room :=
  let ts := max now (room.lastIssued + 1)
  { room with state := (room.state.put ActorId.SERVER ts w).1, lastIssued := ts }

/-- `saved_position_op`, and what the task does next.  It resolves the whole state, which panics
on a chat list it cannot read; the lock's changes are in place by then. -/
def savePosition (file : Option Ed2kHash) (ambient : Ambient) (next : List Instr) :
    Room × Option (List Instr) :=
  match file, room.state.view? with
  | none, _ => (room, some next)
  | some _, none => (room, none)
  | some file, some _ =>
    (match ambient.saved with
      | some millis => room.author ambient.now (.map .savedPosition file millis)
      | none => room, some next)

/-- The anchor `pin_rejoin_anchor` chooses, as a write. -/
def pinned (view : StateView) (peers : List PeerInfo) (file : Ed2kHash) : SeekAuthority :=
  match rejoinLaggard view peers with
  | some (user, _) => .anchor user file
  | none => .server

def aftermath (moved : Bool) : List Instr :=
  (if moved then [.stampWrite .other (.reg .seekAuthority .server)] else []) ++
    [.reconcileRead, .pinCheck]

variable (blockers : StateView → List PeerInfo → List UserId)

/-- Run one section.  The second component is what the task does next; `none` is a
panic, which ends it. -/
def perform (ambient : Ambient) : Instr → Room × Option (List Instr)
  | .stampWrite why w =>
    let ts := max ambient.now (room.lastIssued + 1)
    ({ room with lastIssued := ts }, some [.write why ts w])
  | .write _ ts w => ({ room with state := (room.state.put ActorId.SERVER ts w).1 }, some [])
  | .pauseRead => (room, some [.pauseClose room.registry.graceFile])
  | .pauseClose file =>
    let (registry, any) := room.registry.closeGrace
    ({ room with registry := registry },
      some (if any then file.toList.map .followCheck else []))
  | .followCheck file =>
    (room, some (if room.state.nowPlaying = some file then
      [.stampWrite (.follow file) (.reg .seekAuthority (.laggard file))] else []))
  | .takeCheck user =>
    (room, some (if HeldBy user (room.state.authority) then
      [.stampWrite (.take user) (.reg .seekAuthority .server)] else []))
  | .reconcileRead => (room, some (room.registry.graceFile.toList.map .reconcileCheck))
  | .reconcileCheck file =>
    let paused := !room.state.playing
    let moved : Bool := room.state.nowPlaying ≠ some file
    (room, some (if paused || moved then [.reconcileClose file moved] else []))
  | .reconcileClose file moved =>
    let (registry, any) := room.registry.closeGrace
    ({ room with registry := registry },
      some (if any && !moved then [.followCheck file] else []))
  | .pinCheck =>
    (room, some (match room.state.authority with
      | some (.laggard file) => if room.state.playing then [.pinPeers file] else []
      | _ => []))
  | .pinPeers file => (room, some [.pinDecide file room.registry.peerInfos])
  | .pinDecide file peers =>
    (room, room.state.view?.map fun view =>
      if view.nowPlaying ≠ some file then []
      else if playbackActive blockers view (mergeKnownOffline peers ambient.known ambient.now) then
        [.stampWrite (.pin file) (.reg .seekAuthority (pinned view peers file))]
      else [])
  | .graceRead user conn before =>
    (room, room.state.view?.map fun view =>
      if playbackActive blockers view (mergeKnownOffline before ambient.known ambient.now) then
        [.graceOpen user conn ambient.now view.nowPlaying]
      else forcePause)
  | .graceOpen user conn now nowPlaying =>
    let (registry, opened) :=
      room.registry.openGrace user conn (now + OUTAGE_GRACE_MILLIS) nowPlaying
    ({ room with registry := registry }, some (if opened then [] else forcePause))
  | .saveLast => room.savePosition room.state.nowPlaying ambient []
  | .observe ts => ({ room with lastIssued := max room.lastIssued (ts.getD 0) }, some [])
  | .applyOp op viaDatagram =>
    let before := room.state.nowPlaying
    let (state, applied) := room.state.applyForBroadcast op viaDatagram
    let room := { room with state := state }
    if applied then
      match op with
      | .reg .nowPlaying _ =>
        if state.nowPlaying ≠ before then room.savePosition before ambient (aftermath true)
        else (room, some (aftermath true))
      | _ => (room, some (aftermath false))
    else (room, some [])
  | .mergeState other =>
    let before := room.state.nowPlaying
    let state := room.state.merge other
    let room :=
      { room with state := state, lastIssued := max room.lastIssued state.maxLwwTimestamp }
    if state.nowPlaying ≠ before then room.savePosition before ambient (aftermath true)
    else (room, some (aftermath false))
  | .eof ws =>
    -- the transition is computed from the whole state
    (room.state.view?.elim room fun _ => ws.foldl (fun room w => room.author ambient.now w) room,
      room.state.view?.map fun _ => [.reconcileRead])

/-! ## §2. Tasks and connections. -/

/-- What a user's ended session sets off. -/
def farewell (user : UserId) (conn : ConnId) (role : Role) (how : AuthedEnd)
    (before : List PeerInfo) (lastViewer : Bool) : List Instr :=
  if role = .interactive then
    (if lastViewer then [.saveLast] else []) ++
      match how with
      | .goodbye => forcePause ++ [.takeCheck user]
      | .lost => [.graceRead user conn before, .takeCheck user]
  else []

def departures (promoted : List (UserId × Role)) : List Instr :=
  (promoted.filter fun e => e.2 = .interactive).map fun e => .takeCheck e.1

end Room

/-- The events of the server. -/
inductive RoomEvent where
  | register (conn : ConnId) (user : UserId) (role : Role) (token : Nat)
  | connEnd (conn : ConnId) (user : UserId) (role : Role) (how : AuthedEnd) (now : Nat)
  | bind (transfer : TransferId) (user : UserId) (token : Nat)
  | transferEnd (transfer : TransferId) (user : UserId)
  | hello (transfer : TransferId) (user : UserId)
  | sweepDeparted (now : Nat)
  | sweepGrace (now : Nat)
  | stateOp (op : CrdtOp) (viaDatagram : Bool)
  | stateMerge (other : CrdtState)
  | eofReached (ws : List Write)
  /-- a map write of the server's own: mark-watched, AniDB results -/
  | background (f : MapField) (key : f.Key) (value : f.Val)
  /-- one section of task `i` -/
  | run (i : Nat) (ambient : Ambient)

/-- The section may change register `r`. -/
def Instr.writes (r : RegField) : Instr → Bool
  | .write _ _ (.reg r' _) => r' = r
  | .applyOp (.reg r' _) _ => r' = r
  | .mergeState _ => true
  | .eof _ => true
  | _ => false

namespace Room

def start (state : CrdtState) : Room :=
  { state := state
    lastIssued := state.maxLwwTimestamp
    registry := .new
    control := []
    sessions := []
    transfers := []
    binds := []
    tasks := [] }

def spawn (room : Room) (task : List Instr) : Room := { room with tasks := room.tasks ++ [task] }

def step (blockers : StateView → List PeerInfo → List UserId) (room : Room) :
    RoomEvent → Option Room
  | .register conn user role token =>
    -- the accept loop numbers connections once
    if conn ∈ room.sessions.map Prod.fst then none
    else
      some { room with
        registry := room.registry.register user conn role token
        control := room.control ++ [(conn, user, role)]
        sessions := room.sessions ++ [(conn, user)] }
  | .connEnd conn user role how now =>
    if (conn, user, role) ∈ room.control then
      let registry := room.registry.endConnection user conn how now
      let room' :=
        { room with registry := registry, control := room.control.erase (conn, user, role) }
      if room.registry.stillOurs user conn then
        some (room'.spawn
          (farewell user conn role how room.registry.peerInfos registry.nobodyWatching))
      else some room'
    else none
  | .bind transfer user token =>
    if transfer ∈ room.binds.map Prod.fst then none
    else
      (room.registry.bindTransfer user token transfer).map fun registry =>
        { room with
          registry := registry
          transfers := room.transfers ++ [(transfer, user)]
          binds := room.binds ++ [(transfer, user)] }
  | .transferEnd transfer user =>
    if (transfer, user) ∈ room.transfers then
      some { room with
        registry := room.registry.endTransfer user transfer
        transfers := room.transfers.erase (transfer, user) }
    else none
  | .hello transfer user =>
    -- the stream's task may outlive its connection
    if (transfer, user) ∈ room.binds then
      some { room with registry := room.registry.relayHello user transfer }
    else none
  | .sweepDeparted now =>
    some ({ room with registry := room.registry.sweepDeparted now }.spawn
      (departures (room.registry.promoted now)))
  | .sweepGrace now =>
    some (if room.registry.graceExpired now then room.spawn forcePause else room)
  | .stateOp op viaDatagram =>
    some (room.spawn [.observe op.lwwTimestamp, .applyOp op viaDatagram])
  | .stateMerge other => some (room.spawn [.mergeState other])
  | .eofReached ws => some (room.spawn [.eof ws])
  | .background f key value => some (room.spawn [.stampWrite .other (.map f key value)])
  | .run i ambient =>
    match room.tasks[i]? with
    | some (instr :: rest) =>
      let (room', next) := room.perform blockers ambient instr
      some { room' with tasks := room.tasks.set i (next.elim [] (· ++ rest)) }
    | _ => none

/-! ## §3. What a section can do. -/

def isNowPlaying : CrdtOp → Bool
  | .reg .nowPlaying _ => true
  | _ => false

/-- **One section, by cases.**  `Outcome room instr room' next`: running `instr` leaves `room'`, and
the task goes on with `next`. -/
inductive Outcome (room : Room) : Instr → Room → List Instr → Prop
  | stampWrite {why : Reason} {w : Write} {ts : SharedTimestamp}
      (hts : room.lastIssued < ts) :
      Outcome room (.stampWrite why w) { room with lastIssued := ts } [.write why ts w]
  | write {why : Reason} {ts : SharedTimestamp} {w : Write} :
      Outcome room (.write why ts w)
        { room with state := (room.state.put ActorId.SERVER ts w).1 } []
  | pauseRead : Outcome room .pauseRead room [.pauseClose room.registry.graceFile]
  | pauseClose {file : Option Ed2kHash} {next : List Instr}
      (hnext : next = [] ∨ next = file.toList.map .followCheck) :
      Outcome room (.pauseClose file) { room with registry := room.registry.closeGrace.1 } next
  | followOn {file : Ed2kHash} (hfile : room.state.nowPlaying = some file) :
      Outcome room (.followCheck file) room
        [.stampWrite (.follow file) (.reg .seekAuthority (.laggard file))]
  | followOff {file : Ed2kHash} : Outcome room (.followCheck file) room []
  | takeHeld {user : UserId} (hheld : HeldBy user room.state.authority = true) :
      Outcome room (.takeCheck user) room [.stampWrite (.take user) (.reg .seekAuthority .server)]
  | takeFree {user : UserId} : Outcome room (.takeCheck user) room []
  | reconcileOpen {file : Ed2kHash} (hfile : room.registry.graceFile = some file) :
      Outcome room .reconcileRead room [.reconcileCheck file]
  | reconcileNone (hfile : room.registry.graceFile = none) : Outcome room .reconcileRead room []
  | reconcileStop {file : Ed2kHash} {moved : Bool}
      (hmoved : moved = decide (room.state.nowPlaying ≠ some file)) :
      Outcome room (.reconcileCheck file) room [.reconcileClose file moved]
  | reconcileGo {file : Ed2kHash} (hplay : room.state.playing = true)
      (hfile : room.state.nowPlaying = some file) : Outcome room (.reconcileCheck file) room []
  | reconcileClose {file : Ed2kHash} {moved : Bool} {next : List Instr}
      (hnext : next = [] ∨ moved = false ∧ next = [.followCheck file]) :
      Outcome room (.reconcileClose file moved)
        { room with registry := room.registry.closeGrace.1 } next
  | pinFound {file : Ed2kHash} (hlaggard : room.state.authority = some (.laggard file)) :
      Outcome room .pinCheck room [.pinPeers file]
  | pinNone : Outcome room .pinCheck room []
  | pinPeers {file : Ed2kHash} :
      Outcome room (.pinPeers file) room [.pinDecide file room.registry.peerInfos]
  | pinDecide {file : Ed2kHash} {peers : List PeerInfo} {authority : SeekAuthority} :
      Outcome room (.pinDecide file peers) room
        [.stampWrite (.pin file) (.reg .seekAuthority authority)]
  | pinIdle {file : Ed2kHash} {peers : List PeerInfo} : Outcome room (.pinDecide file peers) room []
  | graceActive {user : UserId} {conn : ConnId} {before : List PeerInfo} {now : Nat}
      {file : Ed2kHash} (hplay : room.state.playing = true)
      (hfile : room.state.nowPlaying = some file) :
      Outcome room (.graceRead user conn before) room [.graceOpen user conn now (some file)]
  | graceIdle {user : UserId} {conn : ConnId} {before : List PeerInfo} :
      Outcome room (.graceRead user conn before) room forcePause
  | graceOpened {user : UserId} {conn : ConnId} {now : Nat} {nowPlaying : Option Ed2kHash}
      (hopen :
        (room.registry.openGrace user conn (now + OUTAGE_GRACE_MILLIS) nowPlaying).2 = true) :
      Outcome room (.graceOpen user conn now nowPlaying)
        { room with
          registry :=
            (room.registry.openGrace user conn (now + OUTAGE_GRACE_MILLIS) nowPlaying).1 } []
  | graceRefused {user : UserId} {conn : ConnId} {now : Nat} {nowPlaying : Option Ed2kHash}
      (hno : (room.registry.openGrace user conn (now + OUTAGE_GRACE_MILLIS) nowPlaying).2 = false) :
      Outcome room (.graceOpen user conn now nowPlaying) room forcePause
  | saveLast {state : CrdtState} {last : Nat} (hregs : state.regs = room.state.regs) :
      Outcome room .saveLast { room with state := state, lastIssued := last } []
  | observe {ts : Option SharedTimestamp} {last : Nat} :
      Outcome room (.observe ts) { room with lastIssued := last } []
  | refused {op : CrdtOp} {viaDatagram : Bool}
      (hno : (room.state.applyForBroadcast op viaDatagram).2 = false) :
      Outcome room (.applyOp op viaDatagram)
        { room with state := (room.state.applyForBroadcast op viaDatagram).1 } []
  | applied {op : CrdtOp} {viaDatagram : Bool} {state : CrdtState} {last : Nat}
      (hregs : state.regs = (room.state.applyForBroadcast op viaDatagram).1.regs) :
      Outcome room (.applyOp op viaDatagram) { room with state := state, lastIssued := last }
        (aftermath (isNowPlaying op))
  | merged {other state : CrdtState} {last : Nat} {moved : Bool}
      (hregs : state.regs = (room.state.merge other).regs) :
      Outcome room (.mergeState other) { room with state := state, lastIssued := last }
        (aftermath moved)
  | eof {ws : List Write} {state : CrdtState} {last : Nat} :
      Outcome room (.eof ws) { room with state := state, lastIssued := last } [.reconcileRead]

/-- **Panics.**  The sections that resolve the whole state, and the room they leave: what was
changed under the lock stays changed. -/
inductive Panics (room : Room) : Instr → Room → Prop
  | pinDecide {file : Ed2kHash} {peers : List PeerInfo} : Panics room (.pinDecide file peers) room
  | graceRead {user : UserId} {conn : ConnId} {before : List PeerInfo} :
      Panics room (.graceRead user conn before) room
  | saveLast : Panics room .saveLast room
  | applyOp {op : CrdtOp} {viaDatagram : Bool} :
      Panics room (.applyOp op viaDatagram)
        { room with state := (room.state.applyForBroadcast op viaDatagram).1 }
  | mergeState {other : CrdtState} {last : Nat} :
      Panics room (.mergeState other)
        { room with state := room.state.merge other, lastIssued := last }
  | eof {ws : List Write} : Panics room (.eof ws) room

/-- A section runs to its end or panics. -/
inductive Ends (room : Room) (instr : Instr) : Room × Option (List Instr) → Prop
  | runs {mid : Room} {next : List Instr} (h : Outcome room instr mid next) :
      Ends room instr (mid, some next)
  | panics {mid : Room} (h : Panics room instr mid) : Ends room instr (mid, none)

variable {blockers : StateView → List PeerInfo → List UserId}

/-- A panic leaves the room as one of the section's outcomes would. -/
theorem Panics.outcome {room mid : Room} {instr : Instr} (h : room.Panics instr mid) :
    ∃ next, room.Outcome instr mid next := by
  cases h with
  | pinDecide => exact ⟨_, .pinIdle⟩
  | graceRead => exact ⟨_, .graceIdle⟩
  | saveLast => exact ⟨_, .saveLast rfl⟩
  | applyOp => exact ⟨_, .applied rfl⟩
  | mergeState => exact ⟨aftermath false, .merged rfl⟩
  | eof => exact ⟨_, .eof⟩

theorem ends_savePosition {room mid : Room} {instr : Instr} {next : List Instr}
    (hruns : ∀ state last, state.regs = mid.state.regs →
      room.Outcome instr { mid with state := state, lastIssued := last } next)
    (hpanics : room.Panics instr mid) (file : Option Ed2kHash) (ambient : Ambient) :
    room.Ends instr (mid.savePosition file ambient next) := by
  have hsame : room.Outcome instr mid next := hruns mid.state mid.lastIssued rfl
  unfold savePosition
  split
  · exact .runs hsame
  · exact .panics hpanics
  · split
    · exact .runs (hruns _ _ rfl)
    · exact .runs hsame

theorem authorAll_eq (ws : List Write) (now : Nat) (room : Room) :
    ∃ state last, ws.foldl (fun room w => room.author now w) room =
      { room with state := state, lastIssued := last } := by
  induction ws generalizing room with
  | nil => exact ⟨room.state, room.lastIssued, rfl⟩
  | cons w ws ih =>
    obtain ⟨state, last, heq⟩ := ih (room.author now w)
    exact ⟨state, last, heq⟩

theorem playbackActive_eq_true {view : StateView} {peers : List PeerInfo}
    (h : playbackActive blockers view peers = true) :
    view.playbackIntent = .playing ∧ view.nowPlaying.isSome = true := by
  have h := of_decide_eq_true h
  exact ⟨h.1, h.2.1⟩

theorem view_regs {s : CrdtState} {view : StateView} (h : s.view? = some view) :
    view.nowPlaying = s.nowPlaying ∧
      (view.playbackIntent = .playing → s.playing = true) := by
  unfold view? at h
  obtain ⟨chat, -, rfl⟩ := map_eq_some_iff.mp h
  refine ⟨rfl, fun hplay => ?_⟩
  unfold playing
  cases hv : ((s.regs .playbackIntent).value : Option PlaybackIntent) with
  | none =>
    have hplay : ((s.regs .playbackIntent).value : Option PlaybackIntent).getD .paused
      = .playing := hplay
    rw [hv] at hplay
    cases hplay
  | some intent =>
    have hplay : ((s.regs .playbackIntent).value : Option PlaybackIntent).getD .paused
      = .playing := hplay
    rw [hv] at hplay
    exact decide_eq_true (congrArg some hplay)

variable {room room' : Room} {ambient : Ambient} {instr : Instr}

section Ends

variable (room ambient)

theorem ends_reconcileCheck (file : Ed2kHash) :
    room.Ends (.reconcileCheck file) (room.perform blockers ambient (.reconcileCheck file)) := by
  simp only [perform]
  split
  · exact .runs (.reconcileStop rfl)
  next hgo =>
    rw [Bool.or_eq_true, not_or] at hgo
    refine .runs (.reconcileGo ?_ ?_)
    · simpa using hgo.1
    · simpa using hgo.2

theorem ends_reconcileClose (file : Ed2kHash) (moved : Bool) :
    room.Ends (.reconcileClose file moved)
      (room.perform blockers ambient (.reconcileClose file moved)) := by
  refine .runs (.reconcileClose ?_)
  split
  next hany =>
    rw [Bool.and_eq_true] at hany
    exact .inr ⟨by simpa using hany.2, rfl⟩
  · exact .inl rfl

theorem ends_pinCheck : room.Ends .pinCheck (room.perform blockers ambient .pinCheck) := by
  simp only [perform]
  split
  next file hlaggard =>
    split
    · exact .runs (.pinFound hlaggard)
    · exact .runs .pinNone
  · exact .runs .pinNone

theorem ends_pinDecide (file : Ed2kHash) (peers : List PeerInfo) :
    room.Ends (.pinDecide file peers)
      (room.perform blockers ambient (.pinDecide file peers)) := by
  simp only [perform]
  cases room.state.view? with
  | none => exact .panics .pinDecide
  | some view =>
    simp only [map_some]
    split
    · exact .runs .pinIdle
    · split
      · exact .runs .pinDecide
      · exact .runs .pinIdle

theorem ends_graceRead (user : UserId) (conn : ConnId) (before : List PeerInfo) :
    room.Ends (.graceRead user conn before)
      (room.perform blockers ambient (.graceRead user conn before)) := by
  simp only [perform]
  cases hview : room.state.view? with
  | none => exact .panics .graceRead
  | some view =>
    simp only [map_some]
    split
    next hactive =>
      obtain ⟨hplay, hsome⟩ := playbackActive_eq_true hactive
      obtain ⟨file, hfile⟩ := isSome_iff_exists.mp hsome
      obtain ⟨hnow, hintent⟩ := view_regs hview
      rw [hfile]
      exact .runs (.graceActive (hintent hplay) (hnow ▸ hfile))
    · exact .runs .graceIdle

theorem ends_graceOpen (user : UserId) (conn : ConnId) (now : Nat) (nowPlaying : Option Ed2kHash) :
    room.Ends (.graceOpen user conn now nowPlaying)
      (room.perform blockers ambient (.graceOpen user conn now nowPlaying)) := by
  simp only [perform]
  cases hopen : (room.registry.openGrace user conn (now + OUTAGE_GRACE_MILLIS) nowPlaying).2 with
  | true => exact .runs (.graceOpened hopen)
  | false =>
    rw [Registry.openGrace_refused hopen]
    exact .runs (.graceRefused hopen)

theorem ends_applyOp (op : CrdtOp) (viaDatagram : Bool) :
    room.Ends (.applyOp op viaDatagram)
      (room.perform blockers ambient (.applyOp op viaDatagram)) := by
  simp only [perform]
  split
  · split
    · split
      · exact ends_savePosition (fun _ _ => .applied) .applyOp _ _
      · exact .runs (.applied rfl)
    next hop =>
      have hno : isNowPlaying op = false := by
        unfold isNowPlaying
        split
        next write _ => exact absurd rfl (hop write)
        · rfl
      rw [← hno]
      exact .runs (.applied rfl)
  next hno => exact .runs (.refused (Bool.eq_false_iff.mpr hno))

theorem ends_mergeState (other : CrdtState) :
    room.Ends (.mergeState other) (room.perform blockers ambient (.mergeState other)) := by
  simp only [perform]
  split
  · exact ends_savePosition (fun _ _ => .merged) .mergeState _ _
  · exact .runs (.merged rfl)

theorem ends_eof (ws : List Write) :
    room.Ends (.eof ws) (room.perform blockers ambient (.eof ws)) := by
  simp only [perform]
  cases room.state.view? with
  | none => exact .panics .eof
  | some view =>
    obtain ⟨state, last, heq⟩ := authorAll_eq ws ambient.now room
    simp only [elim_some, map_some, heq]
    exact .runs .eof

end Ends

/-- **Inversion.**  Every section has one of the outcomes, or is one of those that panic. -/
theorem ends_perform (room : Room) (ambient : Ambient) (instr : Instr) :
    room.Ends instr (room.perform blockers ambient instr) := by
  cases instr with
  | stampWrite why w => exact .runs (.stampWrite (Nat.lt_of_succ_le (le_max_right _ _)))
  | write why ts w => exact .runs .write
  | pauseRead => exact .runs .pauseRead
  | pauseClose file =>
    refine .runs (.pauseClose ?_)
    split
    · exact .inr rfl
    · exact .inl rfl
  | followCheck file =>
    simp only [perform]
    split
    next hfile => exact .runs (.followOn hfile)
    · exact .runs .followOff
  | takeCheck user =>
    simp only [perform]
    split
    next hheld => exact .runs (.takeHeld hheld)
    · exact .runs .takeFree
  | reconcileRead =>
    simp only [perform]
    cases hfile : room.registry.graceFile with
    | none => exact .runs (.reconcileNone hfile)
    | some file => exact .runs (.reconcileOpen hfile)
  | reconcileCheck file => exact ends_reconcileCheck room ambient file
  | reconcileClose file moved => exact ends_reconcileClose room ambient file moved
  | pinCheck => exact ends_pinCheck room ambient
  | pinPeers file => exact .runs .pinPeers
  | pinDecide file peers => exact ends_pinDecide room ambient file peers
  | graceRead user conn before => exact ends_graceRead room ambient user conn before
  | graceOpen user conn now nowPlaying => exact ends_graceOpen room ambient user conn now nowPlaying
  | saveLast => exact ends_savePosition (fun _ _ => .saveLast) .saveLast _ _
  | observe ts => exact .runs .observe
  | applyOp op viaDatagram => exact ends_applyOp room ambient op viaDatagram
  | mergeState other => exact ends_mergeState room ambient other
  | eof ws => exact ends_eof room ambient ws

/-- One section of task `i`: its outcome, and what it leaves of the task.  A panic drops all
of that. -/
theorem step_run {i : Nat} (h : room.step blockers (.run i ambient) = some room') :
    ∃ instr rest mid next left, room.tasks[i]? = some (instr :: rest) ∧
      room.Outcome instr mid next ∧ room' = { mid with tasks := room.tasks.set i left } ∧
      (left = next ++ rest ∨ left = [] ∧ (room.perform blockers ambient instr).2 = none ∧
        room.Panics instr mid) := by
  simp only [step] at h
  split at h
  next instr rest htask =>
    have hends : room.Ends instr (room.perform blockers ambient instr) :=
      ends_perform room ambient instr
    cases hp : room.perform blockers ambient instr with
    | mk mid result =>
      rw [hp] at h hends
      cases hends with
      | @runs _ next hout =>
        exact ⟨instr, rest, mid, next, _, htask, hout, (some.inj h).symm, .inl rfl⟩
      | panics hpanic =>
        obtain ⟨next, hout⟩ := hpanic.outcome
        exact ⟨instr, rest, mid, next, _, htask, hout, (some.inj h).symm,
          .inr ⟨rfl, by rw [hp], hpanic⟩⟩
  · cases h

theorem Outcome.frame {mid : Room} {next : List Instr} (h : room.Outcome instr mid next) :
    mid.control = room.control ∧ mid.sessions = room.sessions ∧ mid.transfers = room.transfers ∧
      mid.binds = room.binds ∧ mid.tasks = room.tasks := by
  cases h <;> exact ⟨rfl, rfl, rfl, rfl, rfl⟩

section Frame

variable {room mid : Room} {instr : Instr} {next : List Instr}

theorem put_regs_eq {s : CrdtState} {ts : SharedTimestamp} {w : Write} {r : RegField}
    {why : Reason} (h : (Instr.write why ts w).writes r = false) :
    (s.put ActorId.SERVER ts w).1.regs r = s.regs r := by
  cases w with
  | reg r' value => exact regs_apply_ne _ _ fun heq => of_decide_eq_false h heq.symm
  | map f key value => rfl
  | set g x => rfl
  | chat message => rfl

theorem applyForBroadcast_regs_eq {s : CrdtState} {op : CrdtOp} {viaDatagram : Bool} {r : RegField}
    (h : (Instr.applyOp op viaDatagram).writes r = false) :
    (s.applyForBroadcast op viaDatagram).1.regs r = s.regs r := by
  obtain heq | heq := s.applyForBroadcast_cases op viaDatagram
  · rw [heq]
    cases op with
    | reg r' op => exact regs_apply_ne _ _ fun heq => of_decide_eq_false h heq.symm
    | map f op => rfl
    | set g x => rfl
    | chat id => rfl
  · rw [heq]

/-- **Frame.**  A section changes no register that it does not write. -/
theorem Outcome.regs_eq (h : room.Outcome instr mid next) {r : RegField}
    (hr : instr.writes r = false) : mid.state.regs r = room.state.regs r := by
  cases h with
  | write => exact put_regs_eq hr
  | saveLast hregs => exact congrFun hregs r
  | refused => exact applyForBroadcast_regs_eq hr
  | applied hregs => exact (congrFun hregs r).trans (applyForBroadcast_regs_eq hr)
  | merged => cases hr
  | eof => cases hr
  | _ => rfl

end Frame

/-! ## §4. What a task starts with. -/

/-- An instruction that relies on nothing read before. -/
inductive Opening : Instr → Prop
  | pause : Opening (.stampWrite .other (.reg .playbackIntent .paused))
  | reset : Opening (.stampWrite .other (.reg .seekAuthority .server))
  | background {f : MapField} {key : f.Key} {value : f.Val} :
      Opening (.stampWrite .other (.map f key value))
  | pauseRead : Opening .pauseRead
  | takeCheck {user : UserId} : Opening (.takeCheck user)
  | reconcileRead : Opening .reconcileRead
  | pinCheck : Opening .pinCheck
  | graceRead {user : UserId} {conn : ConnId} {before : List PeerInfo} :
      Opening (.graceRead user conn before)
  | saveLast : Opening .saveLast
  | observe {ts : Option SharedTimestamp} : Opening (.observe ts)
  | applyOp {op : CrdtOp} {viaDatagram : Bool} : Opening (.applyOp op viaDatagram)
  | mergeState {other : CrdtState} : Opening (.mergeState other)
  | eof {ws : List Write} : Opening (.eof ws)

theorem opening_forcePause (h : instr ∈ forcePause) : Opening instr := by
  simp only [forcePause, mem_cons, not_mem_nil, or_false] at h
  obtain rfl | rfl := h
  · exact .pause
  · exact .pauseRead

theorem opening_aftermath {moved : Bool} (h : instr ∈ aftermath moved) : Opening instr := by
  obtain hreset | hhooks := mem_append.mp h
  · split at hreset
    · obtain rfl := mem_singleton.mp hreset
      exact .reset
    · cases hreset
  · simp only [mem_cons, not_mem_nil, or_false] at hhooks
    obtain rfl | rfl := hhooks
    · exact .reconcileRead
    · exact .pinCheck

theorem opening_farewell {user : UserId} {conn : ConnId} {role : Role} {how : AuthedEnd}
    {before : List PeerInfo} {lastViewer : Bool}
    (h : instr ∈ farewell user conn role how before lastViewer) : Opening instr := by
  unfold farewell at h
  split at h
  · obtain hsave | htail := mem_append.mp h
    · split at hsave
      · obtain rfl := mem_singleton.mp hsave
        exact .saveLast
      · cases hsave
    · cases how with
      | goodbye =>
        obtain hpause | htake := mem_append.mp htail
        · exact opening_forcePause hpause
        · obtain rfl := mem_singleton.mp htake
          exact .takeCheck
      | lost =>
        simp only [mem_cons, not_mem_nil, or_false] at htail
        obtain rfl | rfl := htail
        · exact .graceRead
        · exact .takeCheck
  · cases h

theorem opening_departures {promoted : List (UserId × Role)} (h : instr ∈ departures promoted) :
    Opening instr := by
  obtain ⟨e, -, rfl⟩ := mem_map.mp h
  exact .takeCheck

inductive Fresh : List Instr → Prop
  | farewell {user : UserId} {conn : ConnId} {role : Role} {how : AuthedEnd}
      {before : List PeerInfo} {lastViewer : Bool} :
      Fresh (farewell user conn role how before lastViewer)
  | departures {promoted : List (UserId × Role)} : Fresh (departures promoted)
  | forcePause : Fresh forcePause
  | stateOp {op : CrdtOp} {viaDatagram : Bool} :
      Fresh [.observe op.lwwTimestamp, .applyOp op viaDatagram]
  | stateMerge {other : CrdtState} : Fresh [.mergeState other]
  | eof {ws : List Write} : Fresh [.eof ws]
  | background {f : MapField} {key : f.Key} {value : f.Val} :
      Fresh [.stampWrite .other (.map f key value)]

theorem Fresh.opening {task : List Instr} (h : Fresh task) (hinstr : instr ∈ task) :
    Opening instr := by
  cases h with
  | farewell => exact opening_farewell hinstr
  | departures => exact opening_departures hinstr
  | forcePause => exact opening_forcePause hinstr
  | stateOp =>
    simp only [mem_cons, not_mem_nil, or_false] at hinstr
    obtain rfl | rfl := hinstr
    · exact .observe
    · exact .applyOp
  | stateMerge => exact mem_singleton.mp hinstr ▸ .mergeState
  | eof => exact mem_singleton.mp hinstr ▸ .eof
  | background => exact mem_singleton.mp hinstr ▸ .background

theorem step_start {event : RoomEvent} (hrun : ∀ i ambient, event ≠ .run i ambient)
    (h : room.step blockers event = some room') :
    room'.state = room.state ∧
      (room'.tasks = room.tasks ∨ ∃ task, Fresh task ∧ room'.tasks = room.tasks ++ [task]) := by
  cases event with
  | run i ambient => exact absurd rfl (hrun i ambient)
  | register conn user role token =>
    simp only [step] at h
    split at h
    · cases h
    · cases h; exact ⟨rfl, .inl rfl⟩
  | connEnd conn user role how now =>
    simp only [step] at h
    split at h
    · split at h
      · cases h; exact ⟨rfl, .inr ⟨_, .farewell, rfl⟩⟩
      · cases h; exact ⟨rfl, .inl rfl⟩
    · cases h
  | bind transfer user token =>
    simp only [step] at h
    split at h
    · cases h
    · obtain ⟨registry, -, rfl⟩ := map_eq_some_iff.mp h
      exact ⟨rfl, .inl rfl⟩
  | transferEnd transfer user =>
    simp only [step] at h
    split at h
    · cases h; exact ⟨rfl, .inl rfl⟩
    · cases h
  | hello transfer user =>
    simp only [step] at h
    split at h
    · cases h; exact ⟨rfl, .inl rfl⟩
    · cases h
  | sweepDeparted now =>
    cases h
    exact ⟨rfl, .inr ⟨_, .departures, rfl⟩⟩
  | sweepGrace now =>
    cases h
    split
    · exact ⟨rfl, .inr ⟨_, .forcePause, rfl⟩⟩
    · exact ⟨rfl, .inl rfl⟩
  | stateOp op viaDatagram =>
    cases h
    exact ⟨rfl, .inr ⟨_, .stateOp, rfl⟩⟩
  | stateMerge other =>
    cases h
    exact ⟨rfl, .inr ⟨_, .stateMerge, rfl⟩⟩
  | eofReached ws =>
    cases h
    exact ⟨rfl, .inr ⟨_, .eof, rfl⟩⟩
  | background f key value =>
    cases h
    exact ⟨rfl, .inr ⟨_, .background, rfl⟩⟩

section TaskRule

variable {P : CrdtState → List Instr → Prop} {room room' : Room}

/-- **The task rule.**  A property of the tasks is kept by a section when the section keeps it for
its own task and disturbs no other. -/
theorem forall_tasks_run {i : Nat} {ambient : Ambient} (h : ∀ task ∈ room.tasks, P room.state task)
    (hstep : room.step blockers (.run i ambient) = some room') (hnil : ∀ state, P state [])
    (hown : ∀ {instr rest mid next}, room.tasks[i]? = some (instr :: rest) →
      room.Outcome instr mid next → P room.state (instr :: rest) → P mid.state (next ++ rest))
    (hother : ∀ {instr rest mid next j task}, room.tasks[i]? = some (instr :: rest) →
      room.Outcome instr mid next → j ≠ i → room.tasks[j]? = some task →
        P room.state task → P mid.state task) :
    ∀ task ∈ room'.tasks, P room'.state task := by
  obtain ⟨instr, rest, mid, next, left, htask, hout, rfl, hleft⟩ := step_run hstep
  have hown' : P mid.state left := by
    obtain rfl | ⟨rfl, -⟩ := hleft
    · exact hown htask hout (h _ (mem_of_getElem? htask))
    · exact hnil mid.state
  intro task hmem
  obtain ⟨j, hj⟩ := List.getElem?_of_mem hmem
  have hj : (room.tasks.set i left)[j]? = some task := hj
  show P mid.state task
  by_cases hij : j = i
  · rw [hij, List.getElem?_set_self (List.getElem?_eq_some_iff.mp htask).1] at hj
    obtain rfl := some.inj hj
    exact hown'
  · rw [List.getElem?_set_ne (Ne.symm hij)] at hj
    exact hother htask hout hij hj (h _ (List.mem_of_getElem? hj))

theorem forall_tasks_start {event : RoomEvent} (h : ∀ task ∈ room.tasks, P room.state task)
    (hrun : ∀ i ambient, event ≠ .run i ambient) (hstep : room.step blockers event = some room')
    (hfresh : ∀ task, Fresh task → P room.state task) :
    ∀ task ∈ room'.tasks, P room'.state task := by
  obtain ⟨hstate, htasks⟩ := step_start hrun hstep
  intro task htask
  rw [hstate]
  obtain hsame | ⟨new, hnew, hspawn⟩ := htasks
  · exact h task (hsame ▸ htask)
  · rw [hspawn] at htask
    obtain hold | hlast := mem_append.mp htask
    · exact h task hold
    · obtain rfl := mem_singleton.mp hlast
      exact hfresh task hnew

end TaskRule

end Room

end DessPlay.Presence
