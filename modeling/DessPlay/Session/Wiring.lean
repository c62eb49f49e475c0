/-
  DessPlay.Session.Wiring
  **THE SESSION'S PLAYER-SIDE POLICY** (`PlayerWiring` in `dessplay/src/session.rs`).

  The wiring reacts to state views, to what the file actor found, completed,
  evicted or archived, and to what the player reports, with directives to the
  shell around it.  `loaded` is its record of the real video the player was told
  to load; a placeholder never touches it.

  Left out: the overlay, the chat lines on screen, the narrator, the drift log and
  the download plan, which read this state and write none of it.
-/
import DessPlay.Core.SeriesIdentity
import DessPlay.Player.Actor
import DessPlay.Session.Follow
import DessPlay.Sync.Actor

namespace DessPlay.Session

open BTree DessPlay.Core
open Sync (Mutation GraceRefusal)
open Player (PlayerCommand PlayerOutput SpeakerName)

deriving instance DecidableEq for Mutation

/-! ## §1. The vocabulary. -/

/-- What a handler reads besides the view: who blocks playback, MD4, and a path's last
component. -/
structure Env where
  blockers : StateView → List PeerInfo → List UserId
  md4 : List Nat → ListEntryId
  fileName : String → Option String

inductive Resolution where
  | verified (path : String)
  | hashMismatch (path : String)
  | notFound
  deriving DecidableEq

/-- What the player was told to load: the file, the exact path, and whether it is a
still-downloading partial. -/
structure LoadedFile where
  file : Ed2kHash
  path : String
  isPartial : Bool
  deriving DecidableEq

inductive SeriesKey where
  | aniDb (series : AniDbSeriesId)
  | name (name : String)
  deriving DecidableEq

inductive Directive where
  | player (command : PlayerCommand)
  | mutate (mutation : Mutation)
  | reportEof (file : Ed2kHash)
  | graceRefused (refusal : GraceRefusal) (grace : OutageGrace)
  | resolve (file : Ed2kHash) (filename : String)
  | subtitle (text : String) (speaker : Option SpeakerName) (videoMillis : Nat)
  | recordWatched (file : Ed2kHash) (seriesId : Option AniDbSeriesId)
      (seriesName : Option String) (filename : String)
  | checkSeriesKnown (file : Ed2kHash) (seriesId : Option AniDbSeriesId) (seriesName : String)
  | offerLocalCopies (file : Ed2kHash) (filename : String)
  | renderPlaceholder (file : Ed2kHash)
  | runEviction (safe groupWatched playlist : BTreeSet Ed2kHash)
  | forgetLocalFile (file : Ed2kHash)
  | adoptDraggedFile (file : Ed2kHash) (path : String) (series : Option SeriesKey)
  deriving DecidableEq

/-- `RESOLVE_RETRY_SNAPSHOTS`. -/
def RESOLVE_RETRY_SNAPSHOTS : Nat := 600

/-- `PARTIAL_EOF_EPSILON_MILLIS`. -/
def PARTIAL_EOF_EPSILON_MILLIS : Nat := 5000

/-- `PARTIAL_RETRY_PROGRESS_BPS`. -/
def PARTIAL_RETRY_PROGRESS_BPS : Nat := 1000

structure PlayerWiring where
  me : UserId
  grace : Option OutageGrace
  resolved : BTreeMap Ed2kHash Resolution
  /-- resolves not answered yet, with the snapshots each has waited -/
  pendingResolve : BTreeMap Ed2kHash Nat
  loaded : Option LoadedFile
  lastSynced : Option (UserId × PlaybackPosition)
  lookupsRequested : BTreeSet Ed2kHash
  watcherPrefsWritten : BTreeSet ListEntryId
  watchedRecorded : BTreeSet Ed2kHash
  seriesKnownChecked : BTreeSet Ed2kHash
  copyOfferChecked : BTreeSet Ed2kHash
  copyOfferPending : BTreeSet Ed2kHash
  deferredSeriesKnown : BTreeMap Ed2kHash (Option AniDbSeriesId × Bool)
  evictionStarted : Bool
  lastNowPlaying : Option Ed2kHash
  autoDownload : Bool
  /-- partials the player failed to open, with the progress at the failure -/
  partialLoadFailed : BTreeMap Ed2kHash Nat
  lastPosition : Option (Ed2kHash × Nat)
  /-- the last position inside verified data of a loaded partial -/
  verifiedPosition : Option (Ed2kHash × Nat)
  /-- the file whose end was rejected, and the seek issued for it -/
  eofRecovery : Option (Ed2kHash × Option Nat)
  stateAdopted : Bool

/-- What a handler leaves: the wiring, and its directives. -/
abbrev Reaction : Type := PlayerWiring × List Directive

/-! ## §2. What the view says. -/

def groupWatched (view : StateView) (file : Ed2kHash) : Bool :=
  (MapView.find (f := .watched) view.watched file : Option Bool).getD false

/-- The playlist entry of a file. -/
def playlistEntry (view : StateView) (file : Ed2kHash) : Option PlaylistEntry :=
  view.playlist.find? fun e => e.hash = file

def playlistTitle (view : StateView) (file : Ed2kHash) : Option String :=
  (playlistEntry view file).map (·.state.filename)

/-- A file's known duration. -/
def playlistDuration (view : StateView) (file : Ed2kHash) : Option ℕ+ :=
  (playlistEntry view file).bind (·.state.durationMillis)

def resumePoint (view : StateView) : Option Nat :=
  view.nowPlaying.bind fun file =>
    (MapView.find (f := .savedPosition) view.savedPosition file : Option Nat).filter fun millis =>
      0 < millis

/-- The `Load` of a file. -/
def loadCommand (view : StateView) (file : Ed2kHash) (path : String) : Directive :=
  .player (.load file path (playlistTitle view file) (resumePoint view))

namespace PlayerWiring

def new (me : UserId) (autoDownload : Bool) : PlayerWiring :=
  { me := me, grace := none, resolved := ∅, pendingResolve := ∅, loaded := none, lastSynced := none
    lookupsRequested := ∅, watcherPrefsWritten := ∅, watchedRecorded := ∅, seriesKnownChecked := ∅
    copyOfferChecked := ∅, copyOfferPending := ∅, deferredSeriesKnown := ∅
    evictionStarted := false, lastNowPlaying := none, autoDownload := autoDownload
    partialLoadFailed := ∅, lastPosition := none, verifiedPosition := none, eofRecovery := none
    stateAdopted := false }

/-- The record names now-playing: the real video is loaded, no placeholder or stale frame. -/
def holdsNowPlaying (w : PlayerWiring) (view : StateView) : Bool :=
  w.loaded.any fun l => view.nowPlaying = some l.file

def speaksForNowPlaying (w : PlayerWiring) (view : StateView) (file : Ed2kHash) : Bool :=
  view.nowPlaying = some file && w.holdsNowPlaying view

def positionNearEnd (w : PlayerWiring) (view : StateView) (file : Ed2kHash) : Bool :=
  w.lastPosition.any fun p => p.1 = file &&
    (playlistDuration view file).any fun duration : ℕ+ =>
      (duration : Nat) ≤ saturatingAdd p.2 PARTIAL_EOF_EPSILON_MILLIS

def ownProgressBps (w : PlayerWiring) (view : StateView) (file : Ed2kHash) : Nat :=
  match view.availability w.me file with
  | some (.downloading progress) | some (.downloadingPlayable progress) => progress
  | _ => 0

def downloadSources (w : PlayerWiring) (view : StateView) (peers : List PeerInfo)
    (file : Ed2kHash) : List UserId :=
  (peers.filter fun p => p.username ≠ w.me ∧ p.presence = .present ∧
    view.availability p.username file = some .ready).map (·.username)

def missing (w : PlayerWiring) (file : Ed2kHash) : Bool :=
  match w.resolved[file]? with
  | some .notFound | some (.hashMismatch _) => true
  | _ => false

/-! ## §3. A new state view, stage by stage. -/

/-- The eviction pass for a view: what it must spare, what the group has watched, what is queued. -/
def planEviction (view : StateView) : Directive :=
  let unwatched := (view.playlist.map (·.hash)).filter fun hash => !groupWatched view hash
  .runEviction
    ((unwatched ++ view.nowPlaying.toList).foldl (fun s hash => s.insert hash) ∅)
    (((view.watched.toList.filter fun e => (e.2 : Bool)).map fun e => (e.1 : Ed2kHash)).foldl
      (fun s hash => s.insert hash) ∅)
    ((view.playlist.map (·.hash)).foldl (fun s hash => s.insert hash) ∅)

/-- A pass at startup and on every change of now-playing, once a state has been adopted. -/
def kickEviction (view : StateView) (w : PlayerWiring) : Reaction :=
  if w.stateAdopted ∧ (!w.evictionStarted ∨ w.lastNowPlaying ≠ view.nowPlaying) then
    ({ w with evictionStarted := true, lastNowPlaying := view.nowPlaying }, [planEviction view])
  else (w, [])

/-- Ask for one playlist entry; an answer that does not come is asked for again. -/
def kickResolve (view : StateView) (r : Reaction) (entry : PlaylistEntry) : Reaction :=
  let (w, out) := r
  if (groupWatched view entry.hash ∧ some entry.hash ≠ view.nowPlaying) ∨ entry.hash ∈ w.resolved
  then r
  else
    let asked := out ++ [.resolve entry.hash entry.state.filename]
    match w.pendingResolve[entry.hash]? with
    | some age =>
      if age + 1 < RESOLVE_RETRY_SNAPSHOTS then
        ({ w with pendingResolve := w.pendingResolve.insert entry.hash (age + 1) }, out)
      else ({ w with pendingResolve := w.pendingResolve.insert entry.hash 0 }, asked)
    | none => ({ w with pendingResolve := w.pendingResolve.insert entry.hash 0 }, asked)

def kickResolves (view : StateView) (w : PlayerWiring) : Reaction :=
  view.playlist.foldl (kickResolve view) (w, [])

def maybeRequestLookup (view : StateView) (r : Reaction) (info : FileHashInfo) : Reaction :=
  let (w, out) := r
  if (view.metadataOf info.hash).isNone ∧ info.hash ∉ w.lookupsRequested then
    ({ w with lookupsRequested := w.lookupsRequested.insert info.hash },
      out ++ [.mutate (.requestLookup info)])
  else r

def requestLookups (view : StateView) (w : PlayerWiring) : Reaction :=
  (view.playlist.map fun e => ({ hash := e.hash, size := e.state.sizeBytes
                                 filename := e.state.filename, mtime := none
                                 seriesHint := none } : FileHashInfo)).foldl
    (maybeRequestLookup view) (w, [])

/-- The preference an entry's watchers imply. -/
def impliedPref (me : UserId) (entry : SeriesListEntry) : SeriesWatchState :=
  if me ∈ entry.watchers then .watching else .notWatching

/-- Commit to an entry by its watchers, unless there is a preference or it was written before. -/
def writeWatcherPref (view : StateView) (r : Reaction) (e : ListEntryId × SeriesListEntry) :
    Reaction :=
  let (w, out) := r
  if e.2.watchers.isEmpty then r
  else if (view.preferenceOf w.me e.1).isSome ∨ e.1 ∈ w.watcherPrefsWritten then r
  else
    ({ w with watcherPrefsWritten := w.watcherPrefsWritten.insert e.1 },
      out ++ [.mutate (.setSeriesPreference w.me e.1 (impliedPref w.me e.2) none)])

def writeWatcherPrefs (view : StateView) (w : PlayerWiring) : Reaction :=
  view.entries.toList.foldl (writeWatcherPref view) (w, [])

def maybeCheckSeriesKnown (view : StateView) (w : PlayerWiring) : Reaction :=
  match view.nowPlaying with
  | none => (w, [])
  | some file =>
    if !w.missing file ∨ file ∈ w.seriesKnownChecked then (w, [])
    else
      match view.metadataOf file with
      | none => (w, [])
      | some m =>
        ({ w with seriesKnownChecked := w.seriesKnownChecked.insert file },
          [.checkSeriesKnown file m.seriesId m.seriesName])

def maybeOfferLocalCopies (env : Env) (view : StateView) (w : PlayerWiring) : Reaction :=
  match view.nowPlaying with
  | none => (w, [])
  | some file =>
    if w.autoDownload ∨ !w.missing file ∨ file ∈ w.copyOfferChecked ∨
      (view.metadataOf file).isNone ∨ seriesWatchForFile env.md4 view w.me file = .notWatching
    then (w, [])
    else
      match playlistTitle view file with
      | none => (w, [])
      | some filename =>
        ({ w with copyOfferChecked := w.copyOfferChecked.insert file },
          [.offerLocalCopies file filename])

/-- The verified copy of a file is what the record says is loaded. -/
def holdsVerified (w : PlayerWiring) (file : Ed2kHash) (path : String) : Bool :=
  w.loaded.any fun l => l.file = file && l.path = path && !l.isPartial

/-- Load now-playing from its verified copy, unless that is what is loaded. -/
def loadVerified (view : StateView) (w : PlayerWiring) : Reaction :=
  match view.nowPlaying with
  | none => (w, [])
  | some file =>
    match w.resolved[file]? with
    | some (.verified path) =>
      if w.holdsVerified file path then (w, [])
      else
        ({ w with eofRecovery := none
                  loaded := some { file := file, path := path, isPartial := false } },
          [loadCommand view file path])
    | _ => (w, [])

/-- Re-assert the derived playback state and the grace lock. -/
def reassertPlayback (env : Env) (view : StateView) (peers : List PeerInfo) (w : PlayerWiring) :
    Reaction :=
  let w := { w with grace := outageGrace peers }
  if w.loaded.isSome then
    (w, [.player (.setPlaying (w.holdsNowPlaying view && playbackActive env.blockers view peers)),
         .player (.setGraceLock w.grace.isSome)])
  else (w, [])

def follow (env : Env) (view : StateView) (peers : List PeerInfo) (w : PlayerWiring) : Reaction :=
  let following := if w.holdsNowPlaying view then positionReference w.me view peers else none
  match following with
  | some sample =>
    if w.lastSynced = some sample then (w, [])
    else
      ({ w with lastSynced := some sample },
        [.player (.syncTo sample.2.positionMillis sample.2.timestamp
          (playbackActive env.blockers view peers))])
  | none =>
    ({ w with lastSynced := none },
      if w.lastSynced.isSome then [.player .releaseSlew] else [])

/-- Run stages in order, collecting their directives. -/
def runStages (stages : List (PlayerWiring → Reaction)) (w : PlayerWiring) : Reaction :=
  stages.foldl (fun r stage => ((stage r.1).1, r.2 ++ (stage r.1).2)) (w, [])

def onState (env : Env) (view : StateView) (peers : List PeerInfo) : PlayerWiring → Reaction :=
  runStages
    [kickEviction view, kickResolves view, requestLookups view, writeWatcherPrefs view,
     maybeCheckSeriesKnown view, maybeOfferLocalCopies env view, loadVerified view,
     reassertPlayback env view peers, follow env view peers]

/-! ## §4. What the file actor reports. -/

/-- A verified copy exists at a path; `assembledInPlace` says that it is the very file a loaded
partial's player has open. -/
def noteLocalFile (file : Ed2kHash) (path : String) (assembledInPlace : Bool) (w : PlayerWiring) :
    Reaction :=
  let w := { w with pendingResolve := w.pendingResolve.erase file }
  let w :=
    if w.loaded = some { file := file, path := path, isPartial := true } then
      if assembledInPlace then
        if w.eofRecovery.any fun r => r.1 = file then
          -- parked at a phantom end: reload the complete file
          { w with eofRecovery := none, loaded := none }
        else { w with loaded := some { file := file, path := path, isPartial := false } }
      else
        -- the same path, another file behind it
        { w with loaded := none }
    else w
  ({ w with partialLoadFailed := w.partialLoadFailed.erase file
            resolved := w.resolved.insert file (.verified path) },
    [.mutate (.setFileAvailability file .ready)])

/-- One evicted file: retract the advert if the file was resolved. -/
def noteEvictedFile (r : Reaction) (file : Ed2kHash) : Reaction :=
  let (w, out) := r
  if file ∈ w.resolved then
    ({ w with resolved := w.resolved.erase file },
      out ++ [.mutate (.setFileAvailability file .missing)])
  else r

def noteEvicted (files : List Ed2kHash) (w : PlayerWiring) : Reaction :=
  files.foldl noteEvictedFile (w, [])

/-- The availability a resolution amounts to. -/
def availabilityOf : Resolution → FileAvailability
  | .verified _ => .ready
  | .hashMismatch _ | .notFound => .missing

def onResolved (env : Env) (file : Ed2kHash) (resolution : Resolution) (view : StateView)
    (peers : List PeerInfo) (w : PlayerWiring) : Reaction :=
  let wasPending : Bool := file ∈ w.pendingResolve
  let w := { w with pendingResolve := w.pendingResolve.erase file }
  let isVerified : Resolution → Bool
    | .verified _ => true
    | _ => false
  if !wasPending && !isVerified resolution && w.resolved[file]?.any isVerified then
    -- a stale downgrade of a copy verified meanwhile
    (w, [])
  else
    let w :=
      if isVerified resolution then
        { w with partialLoadFailed := w.partialLoadFailed.erase file
                 copyOfferChecked := w.copyOfferChecked.erase file
                 copyOfferPending := w.copyOfferPending.erase file
                 deferredSeriesKnown := w.deferredSeriesKnown.erase file }
      else w
    let w := { w with resolved := w.resolved.insert file resolution }
    let advert : Directive := .mutate (.setFileAvailability file (availabilityOf resolution))
    match resolution with
    | .verified path =>
      if view.nowPlaying = some file ∧ !w.holdsVerified file path then
        ({ w with loaded := some { file := file, path := path, isPartial := false } },
          [advert, loadCommand view file path,
           .player (.setPlaying (playbackActive env.blockers view peers))])
      else (w, [advert])
    | _ => (w, [advert])

/-- The verified copy moved; the player's open handle follows it. -/
def onArchived (file : Ed2kHash) (path : String) (w : PlayerWiring) : Reaction :=
  ({ w with resolved := w.resolved.insert file (.verified path)
            loaded := w.loaded.map fun l => if l.file = file then { l with path := path } else l },
    [])

def onDownloadPlayable (env : Env) (file : Ed2kHash) (path : String) (view : StateView)
    (peers : List PeerInfo) (w : PlayerWiring) : Reaction :=
  let load (w : PlayerWiring) : Reaction :=
    match w.partialLoadFailed[file]? with
    | some failedAt =>
      if w.ownProgressBps view file < min (failedAt + PARTIAL_RETRY_PROGRESS_BPS) (2 ^ 16 - 1)
      then (w, [])
      else issue { w with partialLoadFailed := w.partialLoadFailed.erase file }
    | none => issue w
  if view.nowPlaying ≠ some file then (w, [])
  else if w.loaded.any fun l => l.file = file then
    if w.eofRecovery.any fun r => r.1 = file then
      match w.verifiedPosition.filter fun p => p.1 = file with
      | some (_, target) =>
        -- the window refilled: seek into verified data again
        ({ w with eofRecovery := some (file, some target) },
          [.player (.recoverFalseEof (some target))])
      | none => load { w with eofRecovery := none, loaded := none }
    else (w, [])
  else load w
where
  /-- Load the partial. -/
  issue (w : PlayerWiring) : Reaction :=
    ({ w with eofRecovery := none
              loaded := some { file := file, path := path, isPartial := true } },
      [loadCommand view file path, .player (.setPlaying (playbackActive env.blockers view peers))])

/-! ## §5. Automatic preferences. -/

def onSeriesKnown (env : Env) (file : Ed2kHash) (series : Option AniDbSeriesId) (known : Bool)
    (view : StateView) (peers : List PeerInfo) (w : PlayerWiring) : Reaction :=
  let placeholder : List Directive :=
    if view.nowPlaying = some file then [.renderPlaceholder file] else []
  if file ∈ w.copyOfferPending then
    ({ w with deferredSeriesKnown := w.deferredSeriesKnown.insert file (series, known) }, [])
  else if known ∨ series.isNone then (w, [])
  else if (resolveSeriesEntryForFile env.md4 view file).any fun entry =>
      (view.preferenceOf w.me entry).isSome then (w, [])
  else if w.autoDownload ∧ w.downloadSources view peers file ≠ [] then (w, placeholder)
  else
    match resolveOrBuildEntry env.md4 view file with
    | none => (w, [])
    | some (entry, create) =>
      (w, (create.toList.map fun new => .mutate (.putListEntry entry new)) ++
        [.mutate (.setSeriesPreference w.me entry .notWatching none)] ++ placeholder)

def onCopyOfferClosed (env : Env) (file : Ed2kHash) (view : StateView) (peers : List PeerInfo)
    (w : PlayerWiring) : Reaction :=
  let deferred := w.deferredSeriesKnown[file]?
  let w := { w with copyOfferPending := w.copyOfferPending.erase file
                    deferredSeriesKnown := w.deferredSeriesKnown.erase file }
  match deferred with
  | some (series, known) => w.onSeriesKnown env file series known view peers
  | none => (w, [])

/-! ## §6. What the player reports. -/

def maybeRecordWatched (view : StateView) (positionMillis : Nat) (w : PlayerWiring) : Reaction :=
  match view.nowPlaying with
  | none => (w, [])
  | some file =>
    if file ∈ w.watchedRecorded then (w, [])
    else
      match playlistEntry view file with
      | none => (w, [])
      | some entry =>
        match entry.state.durationMillis with
        | none => (w, [])
        | some duration =>
          if !pastWatched positionMillis duration then (w, [])
          else
            ({ w with watchedRecorded := w.watchedRecorded.insert file },
              [.recordWatched file (view.seriesOf file)
                ((view.metadataOf file).map (·.seriesName)) entry.state.filename])

/-- A sample of the file the player has open. -/
def onPositionTick (file : Ed2kHash) (positionMillis : Nat) (view : StateView) (w : PlayerWiring) :
    Reaction :=
  if !w.speaksForNowPlaying view file then (w, [])
  else
    let w := { w with lastPosition := some (file, positionMillis) }
    let w :=
      -- progress past the seek of a recovery settles it
      if w.eofRecovery.any fun r => r.1 = file && r.2.all fun target => target < positionMillis then
        { w with eofRecovery := none }
      else w
    let w :=
      if w.loaded.any fun l => l.file = file && l.isPartial then
        match view.availability w.me file with
        | some (.downloadingPlayable _) =>
          { w with verifiedPosition := some (file, positionMillis) }
        | _ => w
      else w
    let r := w.maybeRecordWatched view positionMillis
    (r.1, .mutate (.setPlaybackPosition positionMillis file) :: r.2)

/-- The player reached an end.  A partial is sparse: away from the end of the episode it is the
unfetched zeros that end. -/
def onEof (file : Ed2kHash) (view : StateView) (w : PlayerWiring) : Reaction :=
  if !w.speaksForNowPlaying view file then (w, [])
  else if (w.loaded.any fun l => l.isPartial) && !w.positionNearEnd view file then
    let target := (w.verifiedPosition.filter fun p => p.1 = file).map (·.2)
    let alreadySeeked := (w.eofRecovery.filter fun r => r.1 = file).bind (·.2)
    let positionMillis := target.filter fun t => alreadySeeked ≠ some t
    ({ w with eofRecovery := some (file, positionMillis.or alreadySeeked) },
      [.player (.recoverFalseEof positionMillis)])
  else (w, [.reportEof file])

/-- The player could not open what it was told to load. -/
def onLoadFailed (file : Ed2kHash) (view : StateView) (w : PlayerWiring) : Reaction :=
  let wasPartial := w.loaded.any fun l => l.file = file && l.isPartial
  let w := if w.loaded.any fun l => l.file = file then { w with loaded := none } else w
  if wasPartial then
    -- the download is fine: wait for more data
    let progress := w.ownProgressBps view file
    ({ w with partialLoadFailed := w.partialLoadFailed.insert file progress },
      [.mutate (.setFileAvailability file (.downloading progress))])
  else
    let w := { w with resolved := w.resolved.erase file }
    let forgotten : List Directive :=
      [.forgetLocalFile file, .mutate (.setFileAvailability file .missing)]
    match playlistTitle view file with
    | some filename =>
      ({ w with pendingResolve := w.pendingResolve.insert file 0 },
        forgotten ++ [.resolve file filename])
    | none => (w, forgotten)

/-- A file dropped onto the player stands in for a now-playing file we do not hold, if it has its
name. -/
def adoptDraggedFile (env : Env) (path : String) (view : StateView) (w : PlayerWiring) :
    Option Directive :=
  view.nowPlaying.bind fun file =>
    if w.holdsNowPlaying view then none
    else
      let catalogued : Option FileCatalogEntry :=
        MapView.find (f := .fileCatalog) view.fileCatalog file
      ((playlistTitle view file).or (catalogued.map (·.filename))).bind fun want =>
        (env.fileName path).bind fun got =>
          if want.map Char.toLower = got.map Char.toLower then
            some (.adoptDraggedFile file path ((view.metadataOf file).map fun m =>
              match m.seriesId with
              | some id => .aniDb id
              | none => .name m.seriesName))
          else none

def onPlayer (env : Env) (output : PlayerOutput) (view : StateView) (w : PlayerWiring) : Reaction :=
  match output with
  | .userPaused =>
    (w, [.mutate (.setManualOverride w.me (some .paused)), .mutate (.setPlaybackIntent .paused)])
  | .graceRefused refusal => (w, w.grace.toList.map fun grace => .graceRefused refusal grace)
  | .userUnpaused =>
    (w, [.mutate (.setManualOverride w.me none), .mutate (.setPlaybackIntent .playing)])
  | .userSeeked fromMillis toMillis =>
    match view.nowPlaying.filter fun _ => w.holdsNowPlaying view with
    | none => (w, [])
    | some file =>
      ({ w with lastPosition := some (file, toMillis) },
        [.mutate (.setUserSeek file fromMillis toMillis),
         .mutate (.setPlaybackPosition toMillis file)])
  | .positionTick file positionMillis => w.onPositionTick file positionMillis view
  | .durationKnown file durationMillis =>
    -- backfill only
    (w, if view.playlist.any fun e => e.hash = file && e.state.durationMillis.isNone then
      [.mutate (.setPlaylistDuration file durationMillis)] else [])
  | .subtitleLine text speaker positionMillis => (w, [.subtitle text speaker positionMillis])
  | .eof file => w.onEof file view
  | .loadFailed file => w.onLoadFailed file view
  | .pathObserved path => (w, (w.adoptDraggedFile env path view).toList)
  | .fatalCrash =>
    (w, [.mutate (.setPlaybackIntent .paused), .mutate (.chat "my player crashed — pausing")])
  | .gaveUp =>
    (w, [.mutate (.setPlaybackIntent .paused), .mutate (.chat
      "my player keeps crashing — giving up until someone picks another file")])

end PlayerWiring

/-! ## §7. The session. -/

inductive Event where
  | stateAdopted
  | state (peers : List PeerInfo)
  | localFile (file : Ed2kHash) (path : String) (assembledInPlace : Bool)
  | evicted (files : List Ed2kHash)
  | resolved (file : Ed2kHash) (resolution : Resolution) (peers : List PeerInfo)
  | archived (file : Ed2kHash) (path : String)
  | downloadPlayable (file : Ed2kHash) (path : String) (peers : List PeerInfo)
  | player (output : PlayerOutput)
  | seriesKnown (file : Ed2kHash) (series : Option AniDbSeriesId) (known : Bool)
      (peers : List PeerInfo)
  | copyOfferShown (file : Ed2kHash)
  | copyOfferClosed (file : Ed2kHash) (peers : List PeerInfo)
  | libraryIndexed (files : List FileHashInfo)
  /-- a `SyncTo` was dropped on a full channel -/
  | forgetLastSynced
  deriving DecidableEq

def handle (env : Env) (view : StateView) (event : Event) (w : PlayerWiring) : Reaction :=
  match event with
  | .stateAdopted => ({ w with stateAdopted := true }, [])
  | .state peers => w.onState env view peers
  | .localFile file path assembledInPlace => w.noteLocalFile file path assembledInPlace
  | .evicted files => w.noteEvicted files
  | .resolved file resolution peers => w.onResolved env file resolution view peers
  | .archived file path => w.onArchived file path
  | .downloadPlayable file path peers => w.onDownloadPlayable env file path view peers
  | .player output => w.onPlayer env output view
  | .seriesKnown file series known peers => w.onSeriesKnown env file series known view peers
  | .copyOfferShown file => ({ w with copyOfferPending := w.copyOfferPending.insert file }, [])
  | .copyOfferClosed file peers => w.onCopyOfferClosed env file view peers
  | .libraryIndexed files => files.foldl (PlayerWiring.maybeRequestLookup view) (w, [])
  | .forgetLastSynced => ({ w with lastSynced := none }, [])

structure Turn where
  view : StateView
  event : Event
  out : List Directive

structure Run where
  wiring : PlayerWiring
  turns : List Turn

def Run.step (env : Env) (s : Run) (input : StateView × Event) : Option Run :=
  let r := handle env input.1 input.2 s.wiring
  some { wiring := r.1, turns := { view := input.1, event := input.2, out := r.2 } :: s.turns }

def Run.start (me : UserId) (autoDownload : Bool) : Run :=
  { wiring := PlayerWiring.new me autoDownload, turns := [] }

end DessPlay.Session
