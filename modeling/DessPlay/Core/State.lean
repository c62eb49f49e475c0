/-
  DessPlay.Core.State
  **THE REPLICATED STATE, ITS OPS AND ITS MUTATORS** (`dessplay-core/src/state.rs`).

  `CrdtState` has twelve LWW maps, four LWW registers, two grow-only sets, the
  chat list and a version number.  The source writes each arm of `apply`,
  `merge`, … once per field; here a field is an INDEX (`MapField`, `RegField`,
  `SetField`) and each function is one definition over the index.  The source's
  field, op and mutator names are the instances below.
-/
import DessPlay.Core.Lww

namespace DessPlay.Core

open BTree Crdts

/-! ## §1. The fields. -/

/-- The LWW maps. -/
inductive MapField where
  | playlist | watched | seriesPreference | manualOverride | fileAvailability
  | anidbMetadata | seriesRelations | fileCatalog | listEntries | listNextEp
  | playbackPosition | savedPosition
  deriving DecidableEq, Repr

/-- The standalone LWW registers. -/
inductive RegField where
  | nowPlaying | seekAuthority | playbackIntent | marquee
  deriving DecidableEq, Repr

/-- The grow-only sets. -/
inductive SetField where
  | lookupRequests | acknowledgedAbsent
  deriving DecidableEq, Repr

namespace MapField

/-- The key type of a map; `×ₗ` orders pairs as Rust does. -/
def Key : MapField → Type
  | playlist => Ed2kHash
  | watched => Ed2kHash
  | seriesPreference => UserId ×ₗ ListEntryId
  | manualOverride => UserId
  | fileAvailability => UserId ×ₗ Ed2kHash
  | anidbMetadata => Ed2kHash
  | seriesRelations => AniDbSeriesId
  | fileCatalog => Ed2kHash
  | listEntries => ListEntryId
  | listNextEp => ListEntryId
  | playbackPosition => UserId
  | savedPosition => Ed2kHash

/-- The value type of a map.  A `none` in the playlist is a removal tombstone. -/
def Val : MapField → Type
  | playlist => Option PlaylistFileState
  | watched => Bool
  | seriesPreference => SeriesPreference
  | manualOverride => Option ManualState
  | fileAvailability => FileAvailability
  | anidbMetadata => Option AniDbMetadata
  | seriesRelations => SeriesRelations
  | fileCatalog => FileCatalogEntry
  | listEntries => SeriesListEntry
  | listNextEp => NextEpState
  | playbackPosition => PlaybackPosition
  | savedPosition => Nat

instance keyOrder : (f : MapField) → LinearOrder f.Key
  | playlist | watched | anidbMetadata | fileCatalog | savedPosition =>
    inferInstanceAs (LinearOrder Ed2kHash)
  | seriesPreference => inferInstanceAs (LinearOrder (UserId ×ₗ ListEntryId))
  | manualOverride | playbackPosition => inferInstanceAs (LinearOrder UserId)
  | fileAvailability => inferInstanceAs (LinearOrder (UserId ×ₗ Ed2kHash))
  | seriesRelations => inferInstanceAs (LinearOrder AniDbSeriesId)
  | listEntries | listNextEp => inferInstanceAs (LinearOrder ListEntryId)

instance (priority := 3000) transCmp_key (f : MapField) :
    Std.TransCmp (compare : f.Key → f.Key → Ordering) :=
  instTransCmp

instance valOrder : (f : MapField) → LinearOrder f.Val
  | playlist => optionOrder PlaylistFileState
  | watched => inferInstanceAs (LinearOrder Bool)
  | seriesPreference => inferInstanceAs (LinearOrder SeriesPreference)
  | manualOverride => optionOrder ManualState
  | fileAvailability => inferInstanceAs (LinearOrder FileAvailability)
  | anidbMetadata => optionOrder AniDbMetadata
  | seriesRelations => inferInstanceAs (LinearOrder SeriesRelations)
  | fileCatalog => inferInstanceAs (LinearOrder FileCatalogEntry)
  | listEntries => inferInstanceAs (LinearOrder SeriesListEntry)
  | listNextEp => inferInstanceAs (LinearOrder NextEpState)
  | playbackPosition => inferInstanceAs (LinearOrder PlaybackPosition)
  | savedPosition => inferInstanceAs (LinearOrder Nat)

end MapField

namespace RegField

def Val : RegField → Type
  | nowPlaying => Option Ed2kHash
  | seekAuthority => SeekAuthority
  | playbackIntent => PlaybackIntent
  | marquee => Option MarqueeMessage

instance valOrder : (r : RegField) → LinearOrder r.Val
  | nowPlaying => optionOrder Ed2kHash
  | seekAuthority => inferInstanceAs (LinearOrder SeekAuthority)
  | playbackIntent => inferInstanceAs (LinearOrder PlaybackIntent)
  | marquee => optionOrder MarqueeMessage

end RegField

namespace SetField

/-- The element type of a set. -/
def Elem : SetField → Type
  | lookupRequests => FileHashInfo
  | acknowledgedAbsent => Ed2kHash ×ₗ UserId

instance elemOrder : (g : SetField) → LinearOrder g.Elem
  | lookupRequests => inferInstanceAs (LinearOrder FileHashInfo)
  | acknowledgedAbsent => inferInstanceAs (LinearOrder (Ed2kHash ×ₗ UserId))

instance (priority := 3000) transCmp_elem (g : SetField) :
    Std.TransCmp (compare : g.Elem → g.Elem → Ordering) :=
  instTransCmp

end SetField

/-- The replicated state of the group. -/
structure CrdtState where
  maps : (f : MapField) → LwwMap f.Key f.Val
  regs : (r : RegField) → LwwCell r.Val
  sets : (g : SetField) → GSet g.Elem
  chat : GList ChatMessage
  protocolVersion : Nat

/-- One op, as it is broadcast. -/
inductive CrdtOp where
  | map (f : MapField) (op : LwwMapOp f.Key f.Val)
  | reg (r : RegField) (op : LwwRegOp r.Val)
  | set (g : SetField) (x : g.Elem)
  | chat (id : Identifier ChatMessage)

/-- A full state, and its epoch. -/
structure StateSnapshot where
  epoch : Epoch
  state : CrdtState

/-- `PROTOCOL_VERSION` of `net/message.rs`. -/
def PROTOCOL_VERSION : Nat := 15

/-! ## §2. Operations on the whole state. -/

namespace CrdtOp

/-- The timestamp of an LWW write; removals, sets and chat have none. -/
def lwwTimestamp : CrdtOp → Option SharedTimestamp
  | .map _ (.up _ _ op) => some op.timestamp
  | .map _ (.rm _ _) => none
  | .reg _ op => some op.timestamp
  | .set _ _ => none
  | .chat _ => none

end CrdtOp

namespace CrdtState

def new : CrdtState :=
  { maps := fun _ => Map.new
    regs := fun _ => LwwCell.new
    sets := fun _ => GSet.new
    chat := GList.new
    protocolVersion := PROTOCOL_VERSION }

instance : Inhabited CrdtState := ⟨new⟩

/-- An op touches the one field it names. -/
def apply (s : CrdtState) : CrdtOp → CrdtState
  | .map f op => { s with maps := Function.update s.maps f ((s.maps f).apply op) }
  | .reg r op => { s with regs := Function.update s.regs r ((s.regs r).apply op) }
  | .set g x => { s with sets := Function.update s.sets g ((s.sets g).apply x) }
  | .chat id => { s with chat := s.chat.apply id }

/-- Field by field. -/
def merge (s other : CrdtState) : CrdtState :=
  { maps := fun f => (s.maps f).merge (other.maps f)
    regs := fun r => (s.regs r).merge (other.regs r)
    sets := fun g => (s.sets g).merge (other.sets g)
    chat := s.chat.merge other.chat
    protocolVersion := max s.protocolVersion other.protocolVersion }

/-! ## §3. Mutators: apply locally, return the op to broadcast. -/

/-- What a mutator is asked to write. -/
inductive Write where
  | map (f : MapField) (key : f.Key) (value : f.Val)
  | reg (r : RegField) (value : r.Val)
  | set (g : SetField) (x : g.Elem)
  | chat (message : ChatMessage)

def Write.isPosition : Write → Bool
  | .map .playbackPosition _ _ => true
  | _ => false

/-- The op a write becomes in this state.  A map write carries the actor's next
dot ON THAT MAP (`map_put`); registers, sets and chat carry none. -/
def writeOp (s : CrdtState) (actor : ActorId) (ts : SharedTimestamp) : Write → CrdtOp
  | .map f key value => .map f ((s.maps f).update key actor ⟨ts, value⟩)
  | .reg r value => .reg r ((s.regs r).write ts value)
  | .set g x => .set g x
  | .chat message => .chat (s.chat.insertAfter s.chat.last message)

/-- A local write: the state after it, and the op to broadcast. -/
def put (s : CrdtState) (actor : ActorId) (ts : SharedTimestamp) (w : Write) : CrdtState × CrdtOp :=
  (s.apply (s.writeOp actor ts w), s.writeOp actor ts w)

section Mutators

variable (s : CrdtState) (actor : ActorId) (ts : SharedTimestamp)

def setPlaylistEntry (hash : Ed2kHash) (entry : PlaylistFileState) : CrdtState × CrdtOp :=
  s.put actor ts (.map .playlist hash (some entry))

def removePlaylistEntry (hash : Ed2kHash) : CrdtState × CrdtOp :=
  s.put actor ts (.map .playlist hash none)

def setWatched (hash : Ed2kHash) (watched : Bool) : CrdtState × CrdtOp :=
  s.put actor ts (.map .watched hash watched)

def setNowPlaying (file : Option Ed2kHash) : CrdtState × CrdtOp :=
  s.put actor ts (.reg .nowPlaying file)

def setSeekAuthority (authority : SeekAuthority) : CrdtState × CrdtOp :=
  s.put actor ts (.reg .seekAuthority authority)

def setPlaybackIntent (intent : PlaybackIntent) : CrdtState × CrdtOp :=
  s.put actor ts (.reg .playbackIntent intent)

def setSeriesPreference (user : UserId) (entry : ListEntryId) (pref : SeriesWatchState)
    (setBy : Option UserId) : CrdtState × CrdtOp :=
  s.put actor ts (.map .seriesPreference (lex user entry) ⟨pref, setBy⟩)

def setManualOverride (user : UserId) (state : Option ManualState) : CrdtState × CrdtOp :=
  s.put actor ts (.map .manualOverride user state)

def setFileAvailability (user : UserId) (file : Ed2kHash) (availability : FileAvailability) :
    CrdtState × CrdtOp :=
  s.put actor ts (.map .fileAvailability (lex user file) availability)

def setAnidbMetadata (hash : Ed2kHash) (metadata : Option AniDbMetadata) : CrdtState × CrdtOp :=
  s.put actor ts (.map .anidbMetadata hash metadata)

def setSeriesRelations (series : AniDbSeriesId) (relations : SeriesRelations) :
    CrdtState × CrdtOp :=
  s.put actor ts (.map .seriesRelations series relations)

def setFileCatalog (hash : Ed2kHash) (entry : FileCatalogEntry) : CrdtState × CrdtOp :=
  s.put actor ts (.map .fileCatalog hash entry)

def putListEntry (id : ListEntryId) (entry : SeriesListEntry) : CrdtState × CrdtOp :=
  s.put actor ts (.map .listEntries id entry)

def setNextEp (id : ListEntryId) (nextEp : NextEpState) : CrdtState × CrdtOp :=
  s.put actor ts (.map .listNextEp id nextEp)

def requestLookup (info : FileHashInfo) : CrdtState × CrdtOp :=
  s.put actor ts (.set .lookupRequests info)

def acknowledgeAbsent (file : Ed2kHash) (user : UserId) : CrdtState × CrdtOp :=
  s.put actor ts (.set .acknowledgedAbsent (lex file user))

def setMarquee (message : Option MarqueeMessage) : CrdtState × CrdtOp :=
  s.put actor ts (.reg .marquee message)

def appendChat (message : ChatMessage) : CrdtState × CrdtOp :=
  s.put actor ts (.chat message)

def setPlaybackPosition (user : UserId) (position : PlaybackPosition) : CrdtState × CrdtOp :=
  s.put actor ts (.map .playbackPosition user position)

end Mutators

end CrdtState

end DessPlay.Core
