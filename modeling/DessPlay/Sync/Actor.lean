/-
  DessPlay.Sync.Actor
  **THE SYNC ACTOR: OWNER OF A CLIENT'S REPLICA** (`dessplay/src/actors/sync.rs`).

  One task, one command at a time.  Whatever the actor reads from its
  surroundings while it handles a command (wall clock, monotonic clock, peer
  list) comes in as a `Reading`; what it sends to the network task and tells the
  UI comes out as lists.  Flushing to the database only touches the `dirty` flag
  and is left out, as are the two queries (`GetView`, `GetEpoch`).
-/
import DessPlay.Core.Broadcast
import DessPlay.Core.Message

namespace DessPlay.Sync

open Crdts DessPlay.Core CrdtState

/-! ## §1. Commands in, commands out. -/

inductive Mutation where
  | addPlaylistAfter (anchor : Option Ed2kHash) (new : NewPlaylistEntry)
  | pushPlaylist (new : NewPlaylistEntry)
  | movePlaylistAfter (hash : Ed2kHash) (anchor : Option Ed2kHash)
  | removePlaylist (hash : Ed2kHash)
  | setWatched (hash : Ed2kHash) (watched : Bool)
  | setNowPlaying (file : Option Ed2kHash)
  | setSeekAuthority (authority : SeekAuthority)
  | setUserSeek (file : Ed2kHash) (fromMillis toMillis : Nat)
  | setPlaybackIntent (intent : PlaybackIntent)
  | setSeriesPreference (user : UserId) (entry : ListEntryId) (pref : SeriesWatchState)
      (setBy : Option UserId)
  | setManualOverride (user : UserId) (state : Option ManualState)
  | setFileAvailability (file : Ed2kHash) (availability : FileAvailability)
  | setAniDbMetadata (hash : Ed2kHash) (metadata : Option AniDbMetadata)
  | setSeriesRelations (series : AniDbSeriesId) (relations : SeriesRelations)
  | setFileCatalog (hash : Ed2kHash) (entry : FileCatalogEntry)
  | putListEntry (id : ListEntryId) (entry : SeriesListEntry)
  | setNextEp (id : ListEntryId) (nextEp : NextEpState)
  | requestLookup (info : FileHashInfo)
  | chat (text : String)
  | localReport (text : String) (timestamp : SharedTimestamp)
  | setPlaybackPosition (positionMillis : Nat) (file : Ed2kHash)
  | setPlaylistDuration (hash : Ed2kHash) (durationMillis : ℕ+)
  | acknowledgeAbsent (file : Ed2kHash) (user : UserId)
  | setMarquee (message : Option MarqueeMessage)

def Mutation.isPosition : Mutation → Bool
  | .setPlaybackPosition _ _ => true
  | _ => false

inductive SyncCommand (H : Type) where
  | publishLocalReport (text : String) (timestamp : SharedTimestamp)
  | mutate (mutation : Mutation)
  | server (msg : ServerControl H) (viaDatagram : Bool)
  | connected
  | disconnected
  | clockSync (offsetMillis : Int)
  | offlineHold

inductive NetworkCommand (H : Type) where
  | sendReliable (msg : ServerControl H)
  | sendEager (msg : ServerControl H)
  | sendDatagramOnly (msg : ServerControl H)

inductive GraceRefusal where
  | pause | seek | fileChange
  deriving DecidableEq, Repr

inductive SyncEvent where
  | stateChanged
  | diverged
  | divergencePersisted
  | divergenceHealed
  | graceRefused (refusal : GraceRefusal) (grace : OutageGrace)

def graceRefusal (mutation : Mutation) (nowPlaying : Option Ed2kHash) : Option GraceRefusal :=
  match mutation with
  | .setPlaybackIntent .paused => some .pause
  | .setManualOverride _ (some .paused) => some .pause
  | .setUserSeek _ _ _ => some .seek
  | .setSeekAuthority _ => some .seek
  | .setNowPlaying file => if file ≠ nowPlaying then some .fileChange else none
  | _ => none

/-- What the actor reads while it handles one command: unix milliseconds, the
monotonic clock in nanoseconds, the peer list (absent in tests). -/
structure Reading where
  clock : Nat
  instant : Nat
  peers : Option (List PeerInfo)

def POSITION_RELIABLE_INTERVAL : Nat := 1000000000

def GRACE_REFUSAL_COALESCE : Nat := 1000000000

def HEAL_ATTEMPTS_ESCALATE : Nat := 3

/-! ## §2. The actor's state. -/

inductive Link where
  | down | awaitingSync | synced
  deriving DecidableEq, Repr

structure SyncActor where
  state : CrdtState
  user : UserId
  actor : ActorId
  epoch : Epoch
  offsetMillis : Int
  lastIssued : Nat
  link : Link
  /-- ops generated while disconnected, replayed on reconnect -/
  offlineBuffer : List CrdtOp
  /-- the latest position op while disconnected -/
  offlinePosition : Option CrdtOp
  lastReliablePosition : Option Nat
  hashMismatches : Nat
  healAttempts : Nat
  escalated : Bool
  dirty : Bool
  adopted : Bool
  offlineHold : Bool
  lastGraceRefusal : Option Nat

structure Outcome (H : Type) where
  actor : SyncActor
  net : List (NetworkCommand H)
  events : List SyncEvent

namespace SyncActor

/-- The actor `run` starts from; the Lamport floor comes from the stored state. -/
def start (user : UserId) (actor : ActorId) (initial : Option StateSnapshot) : SyncActor :=
  let state := (initial.map (·.state)).getD .new
  { state := state
    user := user
    actor := actor
    epoch := (initial.map (·.epoch)).getD 0
    offsetMillis := 0
    lastIssued := state.maxLwwTimestamp
    link := .down
    offlineBuffer := []
    offlinePosition := none
    lastReliablePosition := none
    hashMismatches := 0
    healAttempts := 0
    escalated := false
    dirty := false
    adopted := initial.isSome
    offlineHold := false
    lastGraceRefusal := none }

/-- `u64::saturating_add_signed`. -/
def saturatingAddSigned (n : Nat) (offset : Int) : Nat :=
  min ((n : Int) + offset).toNat (2 ^ 64 - 1)

variable (a : SyncActor)

def nextStamp (clock : Nat) : SharedTimestamp :=
  max (saturatingAddSigned clock a.offsetMillis) (a.lastIssued + 1)

def stamp (clock : Nat) : SyncActor × SharedTimestamp :=
  ({ a with lastIssued := a.nextStamp clock }, a.nextStamp clock)

def observe (ts : Option SharedTimestamp) : SyncActor :=
  match ts with
  | some ts => { a with lastIssued := max a.lastIssued ts }
  | none => a

def changed : SyncActor := { a with dirty := true }

/-! ## §3. Local mutations. -/

def graceLock (peers : Option (List PeerInfo)) (mutation : Mutation) :
    Option (GraceRefusal × OutageGrace) :=
  (peers.bind outageGrace).bind fun grace =>
    (graceRefusal mutation ((a.state.regs .nowPlaying).value : Option (Option Ed2kHash)).join).map
      fun refusal => (refusal, grace)

/-- Apply a mutation stamped `ts` to the replica; `none` when there is nothing to
do: the moved or measured entry vanished, the report is already in the chat. -/
def author (ts : SharedTimestamp) : Mutation → Option (CrdtState × CrdtOp)
  | .addPlaylistAfter anchor new => some (a.state.addPlaylistEntryAfter a.actor ts anchor new)
  | .pushPlaylist new => some (a.state.pushPlaylistEntry a.actor ts new)
  | .movePlaylistAfter hash anchor => a.state.movePlaylistEntryAfter a.actor ts hash anchor
  | .removePlaylist hash => some (a.state.removePlaylistEntry a.actor ts hash)
  | .setWatched hash watched => some (a.state.setWatched a.actor ts hash watched)
  | .setNowPlaying file => some (a.state.setNowPlaying a.actor ts file)
  | .setSeekAuthority authority => some (a.state.setSeekAuthority a.actor ts authority)
  | .setUserSeek file fromMillis toMillis =>
    some (a.state.setSeekAuthority a.actor ts (.user
      { user := a.user, file := file, eventAt := ts, fromMillis := fromMillis,
        toMillis := toMillis }))
  | .setPlaybackIntent intent => some (a.state.setPlaybackIntent a.actor ts intent)
  | .setSeriesPreference user entry pref setBy =>
    some (a.state.setSeriesPreference a.actor ts user entry pref setBy)
  | .setManualOverride user state => some (a.state.setManualOverride a.actor ts user state)
  | .setFileAvailability file availability =>
    some (a.state.setFileAvailability a.actor ts a.user file availability)
  | .setAniDbMetadata hash metadata => some (a.state.setAnidbMetadata a.actor ts hash metadata)
  | .setSeriesRelations series relations =>
    some (a.state.setSeriesRelations a.actor ts series relations)
  | .setFileCatalog hash entry => some (a.state.setFileCatalog a.actor ts hash entry)
  | .putListEntry id entry => some (a.state.putListEntry a.actor ts id entry)
  | .setNextEp id nextEp => some (a.state.setNextEp a.actor ts id nextEp)
  | .requestLookup info => some (a.state.requestLookup a.actor ts info)
  | .localReport text timestamp =>
    let message : ChatMessage := ⟨timestamp, a.user, text⟩
    if a.state.chat.list.toList.any fun existing => existing.value? = some message then none
    else some (a.state.appendChat a.actor ts message)
  | .chat text => some (a.state.appendChat a.actor ts ⟨ts, a.user, text⟩)
  | .setPlaybackPosition positionMillis file =>
    some (a.state.setPlaybackPosition a.actor ts a.user ⟨positionMillis, ts, file⟩)
  | .setPlaylistDuration hash durationMillis =>
    -- a whole-entry rewrite of the winning state
    (a.state.playlistEntries.find? fun entry => entry.hash = hash).map fun entry =>
      a.state.setPlaylistEntry a.actor ts hash
        { entry.state with durationMillis := some durationMillis }
  | .acknowledgeAbsent file user => some (a.state.acknowledgeAbsent a.actor ts file user)
  | .setMarquee message => some (a.state.setMarquee a.actor ts message)

def reportTimestamp : Mutation → Option SharedTimestamp
  | .localReport _ timestamp => some timestamp
  | _ => none

variable {H : Type}

def dueReliable (now : Nat) : Bool :=
  match a.lastReliablePosition with
  | none => true
  | some last => decide (POSITION_RELIABLE_INTERVAL ≤ now - last)

/-- Send an op, or buffer it while the link is not synced.  A position goes out
reliably at most once a second, by datagram alone in between. -/
def route (r : Reading) (isPosition : Bool) (op : CrdtOp) : SyncActor × List (NetworkCommand H) :=
  if a.link = .synced then
    let msg := ServerControl.stateOp a.epoch op
    if isPosition then
      if a.dueReliable r.instant then
        ({ a with lastReliablePosition := some r.instant }, [.sendEager msg])
      else (a, [.sendDatagramOnly msg])
    else (a, [.sendEager msg])
  else if isPosition then ({ a with offlinePosition := some op }, [])
  else ({ a with offlineBuffer := a.offlineBuffer ++ [op] }, [])

def refuse (r : Reading) (refusal : GraceRefusal) (grace : OutageGrace) : Outcome H :=
  let notice :=
    match a.lastGraceRefusal with
    | none => true
    | some last => decide (GRACE_REFUSAL_COALESCE ≤ r.instant - last)
  { actor := { a with lastGraceRefusal := some r.instant }
    net := []
    events := if notice then [.graceRefused refusal grace] else [] }

def mutate (r : Reading) (mutation : Mutation) : Outcome H :=
  match a.graceLock r.peers mutation with
  | some (refusal, grace) => a.refuse r refusal grace
  | none =>
    let (a, ts) := a.stamp r.clock
    match a.author ts mutation with
    | none => ⟨a, [], []⟩
    | some (state, op) =>
      let a := { a.observe (reportTimestamp mutation) with state := state }
      let (a, net) := a.route r mutation.isPosition op
      ⟨a.changed, net, [.stateChanged]⟩

/-! ## §4. What the server sends. -/

def replayOffline : SyncActor :=
  { a with
    state := a.offlinePosition.toList.foldl apply
      (a.offlineBuffer.foldl apply a.state)
    offlineBuffer := []
    offlinePosition := none }

/-- A full state landed.  The first one after a connect re-applies what was
written offline and pushes the WHOLE state up. -/
def synced : SyncActor × List (NetworkCommand H) :=
  let a := { a with adopted := true }
  match a.link with
  | .down => (a, [])
  | .awaitingSync =>
    let a := replayOffline { a with link := .synced, offlineHold := false }
    (a, [.sendReliable (.stateMerge ⟨a.epoch, a.state⟩)])
  | .synced => ({ a with offlineHold := false }, [])

def landed (snapshot : StateSnapshot) : Outcome H :=
  let a := { a with epoch := snapshot.epoch, state := snapshot.state }
  let a := { a.observe (some a.state.maxLwwTimestamp) with hashMismatches := 0 }
  let (a, net) := a.synced
  ⟨a.changed, net, [.stateChanged]⟩

def remoteOp (epoch : Epoch) (op : CrdtOp) (viaDatagram : Bool) : Outcome H :=
  if epoch ≠ a.epoch then ⟨a, [], []⟩
  else
    let a := a.observe op.lwwTimestamp
    let state := if viaDatagram then (a.state.applyIfOrderly op).1 else a.state.apply op
    ⟨{ a with state := state }.changed, [], [.stateChanged]⟩

/-- A full state to merge; wholesale adoption across epochs. -/
def remoteMerge (snapshot : StateSnapshot) : Outcome H :=
  if snapshot.epoch = a.epoch then a.landed ⟨a.epoch, a.state.merge snapshot.state⟩
  else if a.epoch < snapshot.epoch then a.landed snapshot
  else if a.link = .awaitingSync then a.landed snapshot
  else ⟨a, [], []⟩

/-- A full state to adopt; a backward one only while the link waits for it. -/
def remoteSnapshot (snapshot : StateSnapshot) : Outcome H :=
  if snapshot.epoch < a.epoch ∧ a.link ≠ .awaitingSync then ⟨a, [], []⟩
  else a.landed snapshot

section Commands

variable [DecidableEq H] (digest : StateView → H)

def remoteHash (epoch : Epoch) (hash : Option H) : Outcome H :=
  if epoch ≠ a.epoch then ⟨a, [], []⟩
  else if a.state.viewHash digest = hash then
    if 0 < a.healAttempts ∨ a.escalated then
      ⟨{ a with hashMismatches := 0, healAttempts := 0, escalated := false }, [],
        [.divergenceHealed]⟩
    else ⟨{ a with hashMismatches := 0 }, [], []⟩
  else if a.hashMismatches + 1 < 2 then
    ⟨{ a with hashMismatches := a.hashMismatches + 1 }, [], []⟩
  else
    let attempts := a.healAttempts + 1
    let persisted := decide (attempts = HEAL_ATTEMPTS_ESCALATE)
    ⟨{ a with
        hashMismatches := 0
        healAttempts := attempts
        escalated := a.escalated || persisted },
      [.sendReliable .requestMerge],
      .diverged :: if persisted then [.divergencePersisted] else []⟩

def remote (msg : ServerControl H) (viaDatagram : Bool) : Outcome H :=
  match msg with
  | .stateOp epoch op => a.remoteOp epoch op viaDatagram
  | .stateMerge snapshot => a.remoteMerge snapshot
  | .stateSnapshot snapshot => a.remoteSnapshot snapshot
  | .stateHash epoch hash => a.remoteHash digest epoch hash
  | _ => ⟨a, [], []⟩

/-! ## §5. One command. -/

def handle (r : Reading) : SyncCommand H → Outcome H
  | .publishLocalReport text timestamp => a.mutate r (.localReport text timestamp)
  | .mutate mutation => a.mutate r mutation
  | .server msg viaDatagram => a.remote digest msg viaDatagram
  | .connected =>
    -- nothing is replayed yet: a bootstrap snapshot would wipe what we sent early
    ⟨{ a with link := .awaitingSync },
      [.sendReliable (.syncStatus a.epoch (a.state.viewHash digest))], []⟩
  | .disconnected => ⟨{ a with link := .down, hashMismatches := 0 }, [], []⟩
  | .clockSync offsetMillis => ⟨{ a with offsetMillis := offsetMillis }, [], []⟩
  | .offlineHold =>
    if a.link ≠ .synced ∧ a.offlineHold = false then
      ⟨{ a with offlineHold := true }.changed, [], [.stateChanged]⟩
    else ⟨a, [], []⟩

end Commands

/-! ## §6. What routing and authoring can do. -/

theorem route_cases (a : SyncActor) (r : Reading) (isPosition : Bool) (op : CrdtOp) :
    (a.link = .synced ∧ ∃ last,
        a.route (H := H) r isPosition op =
          ({ a with lastReliablePosition := last }, [.sendEager (.stateOp a.epoch op)])) ∨
      (a.link = .synced ∧ isPosition = true ∧
        a.route (H := H) r isPosition op = (a, [.sendDatagramOnly (.stateOp a.epoch op)])) ∨
      (a.link ≠ .synced ∧ isPosition = true ∧
        a.route (H := H) r isPosition op = ({ a with offlinePosition := some op }, [])) ∨
      (a.link ≠ .synced ∧ isPosition = false ∧
        a.route (H := H) r isPosition op =
          ({ a with offlineBuffer := a.offlineBuffer ++ [op] }, [])) := by
  unfold route
  by_cases hlink : a.link = .synced
  · rw [if_pos hlink]
    cases isPosition with
    | false => exact .inl ⟨hlink, a.lastReliablePosition, rfl⟩
    | true =>
      by_cases hdue : a.dueReliable r.instant = true
      · exact .inl ⟨hlink, some r.instant, by simp only [hdue, if_true]⟩
      · exact .inr (.inl ⟨hlink, rfl, by simp only [if_true, if_neg hdue]⟩)
  · rw [if_neg hlink]
    cases isPosition with
    | true => exact .inr (.inr (.inl ⟨hlink, rfl, rfl⟩))
    | false => exact .inr (.inr (.inr ⟨hlink, rfl, rfl⟩))

theorem author_eq_put {a : SyncActor} {ts : SharedTimestamp} {mutation : Mutation}
    {p : CrdtState × CrdtOp} (h : a.author ts mutation = some p) :
    ∃ w, p = a.state.put a.actor ts w ∧ w.isPosition = mutation.isPosition := by
  cases mutation
  case movePlaylistAfter hash anchor =>
    simp only [author, movePlaylistEntryAfter] at h
    split at h
    · cases h
    · obtain ⟨entry, -, rfl⟩ := Option.map_eq_some_iff.mp h
      exact ⟨_, rfl, rfl⟩
  case localReport text timestamp =>
    simp only [author] at h
    split at h
    · cases h
    · cases h
      exact ⟨_, rfl, rfl⟩
  case setPlaylistDuration hash durationMillis =>
    obtain ⟨entry, -, rfl⟩ := Option.map_eq_some_iff.mp h
    exact ⟨_, rfl, rfl⟩
  all_goals
    cases h
    exact ⟨_, rfl, rfl⟩

/-- Everything a mutation can do: be refused, find nothing to do after taking its
stamp, or author ONE put and route its op. -/
theorem mutate_cases (a : SyncActor) (r : Reading) (mutation : Mutation) :
    (∃ refusal grace, a.graceLock r.peers mutation = some (refusal, grace) ∧
        a.mutate (H := H) r mutation = a.refuse r refusal grace) ∨
      (a.graceLock r.peers mutation = none ∧
        a.mutate (H := H) r mutation =
          ⟨{ a with lastIssued := a.nextStamp r.clock }, [], []⟩) ∨
      (a.graceLock r.peers mutation = none ∧ ∃ w n, w.isPosition = mutation.isPosition ∧
        a.nextStamp r.clock ≤ n ∧
        let op := a.state.writeOp a.actor (a.nextStamp r.clock) w
        let b := { a with lastIssued := n, state := a.state.apply op }
        a.mutate (H := H) r mutation =
          ⟨(b.route (H := H) r mutation.isPosition op).1.changed,
            (b.route r mutation.isPosition op).2, [.stateChanged]⟩) := by
  unfold mutate
  cases hlock : a.graceLock r.peers mutation with
  | some refused => exact .inl ⟨refused.1, refused.2, rfl, rfl⟩
  | none =>
    refine .inr ?_
    simp only [stamp]
    cases hauthor : { a with lastIssued := a.nextStamp r.clock : SyncActor }.author
        (a.nextStamp r.clock) mutation with
    | none => exact .inl ⟨trivial, rfl⟩
    | some p =>
      obtain ⟨w, rfl, hw⟩ := author_eq_put hauthor
      refine .inr ⟨trivial, w, ({ a with lastIssued := a.nextStamp r.clock : SyncActor }.observe
        (reportTimestamp mutation)).lastIssued, hw, ?_, ?_⟩
      · cases reportTimestamp mutation with
        | none => exact le_rfl
        | some t => exact le_max_left _ _
      · cases reportTimestamp mutation <;> rfl

end SyncActor

end DessPlay.Sync
