/-
  DessPlay.Core.View
  **RESOLVED VIEWS, THE PLAYLIST ORDER AND THE LAMPORT FLOOR**
  (`dessplay-core/src/{state,playlist}.rs`).

  A view is the plain data behind a state: LWW winners, the playlist sorted by
  `(position, hash)`, chat in list order.  Reading the chat panics on an
  identifier with an empty path, so `view?` is partial.
-/
import DessPlay.Core.State

namespace DessPlay.Core

open BTree Crdts

abbrev MapView (f : MapField) : Type := BTreeMap f.Key f.Val

structure PlaylistEntry where
  hash : Ed2kHash
  state : PlaylistFileState
  deriving DecidableEq

structure StateView where
  playlist : List PlaylistEntry
  watched : MapView .watched
  nowPlaying : Option Ed2kHash
  nowPlayingSince : Option SharedTimestamp
  seekAuthority : Option SeekAuthority
  playbackIntent : PlaybackIntent
  seriesPreference : MapView .seriesPreference
  manualOverride : MapView .manualOverride
  fileAvailability : MapView .fileAvailability
  anidbMetadata : MapView .anidbMetadata
  seriesRelations : MapView .seriesRelations
  fileCatalog : MapView .fileCatalog
  listEntries : MapView .listEntries
  listNextEp : MapView .listNextEp
  lookupRequests : BTreeSet FileHashInfo
  chat : List ChatMessage
  playbackPosition : MapView .playbackPosition
  acknowledgedAbsent : BTreeSet (Ed2kHash ×ₗ UserId)
  marquee : Option (SharedTimestamp × MarqueeMessage)
  savedPosition : MapView .savedPosition
  deriving DecidableEq

def mapView {K V : Type} [LinearOrder K] (m : LwwMap K V) : BTreeMap K V :=
  m.entries.filterMap fun _ entry => entry.val.value

namespace CrdtState

/-! ## §1. The playlist. -/

def playlistLe (a b : PlaylistEntry) : Prop :=
  lex a.state.position a.hash ≤ lex b.state.position b.hash

instance : DecidableRel playlistLe := fun a b =>
  inferInstanceAs (Decidable (lex a.state.position a.hash ≤ lex b.state.position b.hash))

/-- The playlist in display order; tombstones and unwritten entries are out. -/
def playlistEntries (s : CrdtState) : List PlaylistEntry :=
  ((s.maps .playlist).entries.toList.filterMap fun e =>
    (e.2.val.value : Option (Option PlaylistFileState)).join.map fun state =>
      ⟨e.1, state⟩).insertionSort playlistLe

/-- A position after `anchor`, before whatever follows it, ignoring `moving`. -/
def positionAfter (s : CrdtState) (anchor : Option Ed2kHash) (moving : Ed2kHash)
    (actor : ActorId) : Identifier ActorId :=
  let entries := s.playlistEntries.filter fun entry => entry.hash ≠ moving
  let anchorIndex : Option Nat :=
    match anchor with
    | none => none
    | some hash =>
      match entries.findIdx? fun entry => entry.hash = hash with
      | some index => some index
      -- the anchor vanished: append at the end
      | none => if entries.length = 0 then none else some (entries.length - 1)
  let low := anchorIndex.bind fun i => entries[i]?
  let high :=
    match anchorIndex with
    | none => entries.head?
    | some i => entries[i + 1]?
  Identifier.between (low.map (·.state.position)) (high.map (·.state.position)) actor

structure NewPlaylistEntry where
  hash : Ed2kHash
  addedBy : UserId
  filename : String
  sizeBytes : Nat
  durationMillis : Option ℕ+
  deriving DecidableEq

/-- Add a file after `anchor`; `none` is the front, a missing anchor the end. -/
def addPlaylistEntryAfter (s : CrdtState) (actor : ActorId) (ts : SharedTimestamp)
    (anchor : Option Ed2kHash) (new : NewPlaylistEntry) : CrdtState × CrdtOp :=
  s.setPlaylistEntry actor ts new.hash
    { position := s.positionAfter anchor new.hash actor
      addedBy := new.addedBy
      filename := new.filename
      sizeBytes := new.sizeBytes
      durationMillis := new.durationMillis }

def pushPlaylistEntry (s : CrdtState) (actor : ActorId) (ts : SharedTimestamp)
    (new : NewPlaylistEntry) : CrdtState × CrdtOp :=
  s.addPlaylistEntryAfter actor ts (s.playlistEntries.getLast?.map (·.hash)) new

/-- Move an entry after `anchor`; `none` when it does not exist or is its own
anchor. -/
def movePlaylistEntryAfter (s : CrdtState) (actor : ActorId) (ts : SharedTimestamp)
    (hash : Ed2kHash) (anchor : Option Ed2kHash) : Option (CrdtState × CrdtOp) :=
  if anchor = some hash then none
  else
    (s.playlistEntries.find? fun entry => entry.hash = hash).map fun entry =>
      s.setPlaylistEntry actor ts hash
        { entry.state with position := s.positionAfter anchor hash actor }

/-! ## §2. The whole view. -/

/-- Resolve the whole state; `none` is the panic of reading a chat line whose
identifier has no node. -/
def view? (s : CrdtState) : Option StateView :=
  s.chat.read?.map fun chat =>
    { playlist := s.playlistEntries
      watched := mapView (s.maps .watched)
      nowPlaying := ((s.regs .nowPlaying).value : Option (Option Ed2kHash)).join
      nowPlayingSince := (s.regs .nowPlaying).timestamp
      seekAuthority := (s.regs .seekAuthority).value
      playbackIntent := ((s.regs .playbackIntent).value : Option PlaybackIntent).getD .paused
      seriesPreference := mapView (s.maps .seriesPreference)
      manualOverride := mapView (s.maps .manualOverride)
      fileAvailability := mapView (s.maps .fileAvailability)
      anidbMetadata := mapView (s.maps .anidbMetadata)
      seriesRelations := mapView (s.maps .seriesRelations)
      fileCatalog := mapView (s.maps .fileCatalog)
      listEntries := mapView (s.maps .listEntries)
      listNextEp := mapView (s.maps .listNextEp)
      lookupRequests := (s.sets .lookupRequests).value
      chat := chat
      playbackPosition := mapView (s.maps .playbackPosition)
      acknowledgedAbsent := (s.sets .acknowledgedAbsent).value
      marquee := (s.regs .marquee).read.bind fun lww =>
        (lww.value : Option MarqueeMessage).map fun m => (lww.timestamp, m)
      savedPosition := mapView (s.maps .savedPosition) }

/-- The hash of the view WITHOUT playback positions.  `digest` stands for
encoding and SHA-256, which are third-party code. -/
def viewHash {H : Type} (digest : StateView → H) (s : CrdtState) : Option H :=
  s.view?.map fun view => digest { view with playbackPosition := ∅ }

/-! ## §3. The Lamport floor. -/

def mapMax {K V : Type} [LinearOrder K] (m : LwwMap K V) : SharedTimestamp :=
  (m.entries.toList.filterMap fun e => e.2.val.timestamp).foldl max 0

def maxLwwTimestamp (s : CrdtState) : SharedTimestamp :=
  [ mapMax (s.maps .playlist),
    mapMax (s.maps .watched),
    (s.regs .nowPlaying).timestamp.getD 0,
    (s.regs .seekAuthority).timestamp.getD 0,
    (s.regs .playbackIntent).timestamp.getD 0,
    (s.regs .marquee).timestamp.getD 0,
    mapMax (s.maps .seriesPreference),
    mapMax (s.maps .manualOverride),
    mapMax (s.maps .fileAvailability),
    mapMax (s.maps .anidbMetadata),
    mapMax (s.maps .seriesRelations),
    mapMax (s.maps .fileCatalog),
    mapMax (s.maps .listEntries),
    mapMax (s.maps .listNextEp),
    mapMax (s.maps .playbackPosition),
    mapMax (s.maps .savedPosition) ].foldl max 0

end CrdtState

end DessPlay.Core
