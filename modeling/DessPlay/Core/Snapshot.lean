/-
  DessPlay.Core.Snapshot
  **STORED SNAPSHOTS AND THEIR LAYOUTS** (`encode_snapshot`, `decode_snapshot_flagged`
  in `dessplay-core/src/state.rs`).

  A stored blob is the magic, a version and the state's fields one after another; the
  one layout older than the envelope is the fields alone.  Three old layouts are kept
  (`CrdtStateUntaggedV6`, `CrdtStateV10`, `CrdtStateV13`) with their upgrades.

  Whether an old blob can be TAKEN FOR a tagged one is a question about its first four
  bytes: the length of the playlist's clock and its first dot (`magic_isPrefix_iff`).
-/
import DessPlay.Lib.Postcard
import DessPlay.Core.Migration

namespace DessPlay.Core

open BTree Joins Postcard Crdts List

/-! ## §1. How the values are written. -/

/-- The encodings the model does not look into: the sixteen bytes of a hash and the big
rationals of a list position. -/
structure Primitives where
  hash : Codec Ed2kHash
  rational : Codec ℚ

namespace Primitives

instance : Inhabited Primitives where
  default :=
    { hash := .varint
      rational := (Codec.zigzag.pair .varint).through (fun q => (q.num, q.den))
        (fun (num, den) => num / den) Rat.num_div_den }

/-- `zero_is_none`: a plain `Option<u64>` on the wire, whose zero is read as `None`. -/
def zeroIsNone : Codec (Option ℕ+) :=
  (Codec.option .varint).through (·.map PNat.val)
    (·.bind fun millis => if h : 0 < millis then some ⟨millis, h⟩ else none)
    (by rintro (_ | millis); exacts [rfl, dif_pos millis.pos])

variable (p : Primitives)

def identifier {T : Type} (elem : Codec T) : Codec (Identifier T) :=
  (Codec.seq (p.rational.pair elem)).through (·.path) (⟨·⟩) fun _ => rfl

def playlistFileState : Codec PlaylistFileState :=
  (p.identifier .varint |>.pair <| Codec.text.pair <| Codec.text.pair <|
    Codec.varint.pair zeroIsNone).through
    (fun s => (s.position, s.addedBy, s.filename, s.sizeBytes, s.durationMillis))
    (fun (position, addedBy, filename, sizeBytes, durationMillis) =>
      ⟨position, addedBy, filename, sizeBytes, durationMillis⟩)
    fun _ => rfl

def seriesWatchState : Codec SeriesWatchState :=
  .enumerated [.watching, .notWatching, .maybe] SeriesWatchState.ctorIdx
    (by rintro ⟨⟩ <;> rfl)

def seriesPreference : Codec SeriesPreference :=
  (seriesWatchState.pair (.option .text)).through (fun s => (s.state, s.setBy))
    (fun (state, setBy) => ⟨state, setBy⟩) fun _ => rfl

def userSeek : Codec UserSeek :=
  (Codec.text.pair <| p.hash.pair <| Codec.varint.pair <| Codec.varint.pair .varint).through
    (fun s => (s.user, s.file, s.eventAt, s.fromMillis, s.toMillis))
    (fun (user, file, eventAt, fromMillis, toMillis) =>
      ⟨user, file, eventAt, fromMillis, toMillis⟩)
    fun _ => rfl

def seekAuthority : Codec SeekAuthority :=
  .tagged
    (fun | .server => 0 | .user _ => 1 | .laggard _ => 2 | .anchor _ _ => 3)
    (fun
      | .server => []
      | .user seek => p.userSeek.encode seek
      | .laggard file => p.hash.encode file
      | .anchor user file => (Codec.text.pair p.hash).encode (user, file))
    (fun tag bytes => match tag with
      | 0 => .ok (.server, bytes)
      | 1 => (p.userSeek.decode bytes).map fun (seek, rest) => (.user seek, rest)
      | 2 => (p.hash.decode bytes).map fun (file, rest) => (.laggard file, rest)
      | 3 => ((Codec.text.pair p.hash).decode bytes).map fun ((user, file), rest) =>
        (.anchor user file, rest)
      | _ => .error .deserializeBadEnum)
    (by rintro ⟨⟩ rest <;> simp [Except.map])

def playbackIntent : Codec PlaybackIntent :=
  .enumerated [.paused, .playing] PlaybackIntent.ctorIdx (by rintro ⟨⟩ <;> rfl)

def manualState : Codec ManualState :=
  .tagged (fun | .paused => 0 | .away _ => 1)
    (fun | .paused => [] | .away setBy => Codec.text.encode setBy)
    (fun tag bytes => match tag with
      | 0 => .ok (.paused, bytes)
      | 1 => (Codec.text.decode bytes).map fun (setBy, rest) => (.away setBy, rest)
      | _ => .error .deserializeBadEnum)
    (by rintro ⟨⟩ rest <;> simp [Except.map])

def marqueeMessage : Codec MarqueeMessage :=
  (Codec.text.pair (.option .text)).through (fun m => (m.text, m.setBy))
    (fun (text, setBy) => ⟨text, setBy⟩) fun _ => rfl

def fileAvailability : Codec FileAvailability :=
  .tagged
    (fun | .ready => 0 | .missing => 1 | .downloading _ => 2 | .downloadingPlayable _ => 3)
    (fun
      | .ready | .missing => []
      | .downloading progress | .downloadingPlayable progress => Codec.varint.encode progress)
    (fun tag bytes => match tag with
      | 0 => .ok (.ready, bytes)
      | 1 => .ok (.missing, bytes)
      | 2 => (Codec.varint.decode bytes).map fun (progress, rest) => (.downloading progress, rest)
      | 3 => (Codec.varint.decode bytes).map fun (progress, rest) =>
        (.downloadingPlayable progress, rest)
      | _ => .error .deserializeBadEnum)
    (by rintro ⟨⟩ rest <;> simp [Except.map])

def metadataSource : Codec MetadataSource :=
  .enumerated [.aniDb, .filenameDerived] MetadataSource.ctorIdx (by rintro ⟨⟩ <;> rfl)

def aniDbMetadata : Codec AniDbMetadata :=
  (metadataSource.pair <| Codec.text.pair <| (Codec.option .varint).pair (.option .text)).through
    (fun m => (m.source, m.seriesName, m.seriesId, m.episodeNumber))
    (fun (source, seriesName, seriesId, episodeNumber) =>
      ⟨source, seriesName, seriesId, episodeNumber⟩)
    fun _ => rfl

def fileCatalogEntry : Codec FileCatalogEntry :=
  (Codec.text.pair <| Codec.varint.pair zeroIsNone).through
    (fun e => (e.filename, e.sizeBytes, e.durationMillis))
    (fun (filename, sizeBytes, durationMillis) => ⟨filename, sizeBytes, durationMillis⟩)
    fun _ => rfl

def relationKind : Codec RelationKind :=
  .tagged RelationKind.ctorIdx
    (fun | .other code => Codec.varint.encode code | _ => [])
    (fun tag bytes => match tag with
      | 0 => .ok (.sequel, bytes)
      | 1 => .ok (.prequel, bytes)
      | 2 => .ok (.sameSetting, bytes)
      | 3 => .ok (.alternativeSetting, bytes)
      | 4 => .ok (.alternativeVersion, bytes)
      | 5 => .ok (.musicVideo, bytes)
      | 6 => .ok (.character, bytes)
      | 7 => .ok (.sideStory, bytes)
      | 8 => .ok (.parentStory, bytes)
      | 9 => .ok (.summary, bytes)
      | 10 => .ok (.fullStory, bytes)
      | 11 => (Codec.varint.decode bytes).map fun (code, rest) => (.other code, rest)
      | _ => .error .deserializeBadEnum)
    (by rintro ⟨⟩ rest <;> simp [RelationKind.ctorIdx, Except.map])

def seriesRelation : Codec SeriesRelation :=
  (relationKind.pair .varint).through (fun r => (r.kind, r.target))
    (fun (kind, target) => ⟨kind, target⟩) fun _ => rfl

def seriesRelationsV10 : Codec SeriesRelationsV10 :=
  (Codec.text.pair <| (Codec.option .varint).pair <| (Codec.option .varint).pair
    (.btreeSet seriesRelation)).through
    (fun r => (r.title, r.year, r.episodeCount, r.relations))
    (fun (title, year, episodeCount, relations) => ⟨title, year, episodeCount, relations⟩)
    fun _ => rfl

def seriesRelations : Codec SeriesRelations :=
  (Codec.text.pair <| (Codec.option .varint).pair <| (Codec.option .varint).pair <|
    (Codec.btreeSet seriesRelation).pair (.seq .text)).through
    (fun r => (r.title, r.year, r.episodeCount, r.relations, r.shortTitles))
    (fun (title, year, episodeCount, relations, shortTitles) =>
      ⟨title, year, episodeCount, relations, shortTitles⟩)
    fun _ => rfl

def listStatus : Codec ListStatus :=
  .enumerated [.shortList, .planned, .active, .currentSeason, .waiting, .hiatus, .finished,
    .dropped] ListStatus.ctorIdx (by rintro ⟨⟩ <;> rfl)

def seriesListEntry : Codec SeriesListEntry :=
  (Codec.text.pair <| (Codec.option .text).pair <| (Codec.option .text).pair <|
    (Codec.seq .text).pair <| (Codec.option .text).pair <| listStatus.pair <|
    (Codec.option .text).pair <| (Codec.option .text).pair <| (Codec.btreeSet .text).pair <|
    (Codec.option .varint).pair <| (Codec.btreeSet .text).pair <| (Codec.btreeSet p.hash).pair
    .bool).through
    (fun e => (e.name, e.neroName, e.genre, e.notes, e.recommender, e.status, e.statusNote,
      e.source, e.watchers, e.anidbSeriesId, e.localAliases, e.manualFiles, e.anidbUnavailable))
    (fun (name, neroName, genre, notes, recommender, status, statusNote, source, watchers,
        anidbSeriesId, localAliases, manualFiles, anidbUnavailable) =>
      ⟨name, neroName, genre, notes, recommender, status, statusNote, source, watchers,
        anidbSeriesId, localAliases, manualFiles, anidbUnavailable⟩)
    fun _ => rfl

def nextEpState : Codec NextEpState :=
  ((Codec.option .text).pair .bool).through (fun s => (s.nextEp, s.available))
    (fun (nextEp, available) => ⟨nextEp, available⟩) fun _ => rfl

def chatMessage : Codec ChatMessage :=
  (Codec.varint.pair <| Codec.text.pair .text).through
    (fun m => (m.timestamp, m.sender, m.text))
    (fun (timestamp, sender, text) => ⟨timestamp, sender, text⟩) fun _ => rfl

def fileHashInfo : Codec FileHashInfo :=
  (p.hash.pair <| Codec.varint.pair <| Codec.text.pair <| (Codec.option .zigzag).pair
    (.option .text)).through
    (fun i => (i.hash, i.size, i.filename, i.mtime, i.seriesHint))
    (fun (hash, size, filename, mtime, seriesHint) => ⟨hash, size, filename, mtime, seriesHint⟩)
    fun _ => rfl

def playbackPosition : Codec PlaybackPosition :=
  (Codec.varint.pair <| Codec.varint.pair p.hash).through
    (fun s => (s.positionMillis, s.timestamp, s.file))
    (fun (positionMillis, timestamp, file) => ⟨positionMillis, timestamp, file⟩) fun _ => rfl

/-! ## §2. How the CRDTs are written. -/

def vclock : Codec (VClock ActorId) :=
  (Codec.btreeMap .varint .varint).through (·.dots) (⟨·⟩) fun _ => rfl

def lwwCell {V : Type} (val : Codec V) : Codec (LwwCell V) :=
  (Codec.option (Codec.varint.pair val)).through
    (fun c => c.current.map fun l => (l.timestamp, l.value))
    (fun c => ⟨c.map fun (timestamp, value) => ⟨timestamp, value⟩⟩)
    (by rintro ⟨_ | _⟩ <;> rfl)

/-- Clock, entries, deferred removals. -/
def lwwMap {K V : Type} [LinearOrder K] (key : Codec K) (val : Codec V) : Codec (LwwMap K V) :=
  (vclock.pair <|
    (Codec.btreeMap key ((vclock.pair (lwwCell val)).through (fun e => (e.clock, e.val))
      (fun (clock, val) => ⟨clock, val⟩) fun _ => rfl)).pair <|
    .seq (vclock.pair (.btreeSet key))).through
    (fun m => (m.clock, m.entries, m.deferred))
    (fun (clock, entries, deferred) => ⟨clock, entries, deferred⟩)
    fun _ => rfl

def gset {T : Type} [LinearOrder T] (elem : Codec T) : Codec (GSet T) :=
  (Codec.btreeSet elem).through (·.value) (⟨·⟩) fun _ => rfl

def glist {T : Type} [LinearOrder T] (elem : Codec T) : Codec (GList T) :=
  (Codec.btreeSet (p.identifier elem)).through (·.list) (⟨·⟩) fun _ => rfl

def keyPair {α β : Type} (fst : Codec α) (snd : Codec β) : Codec (α ×ₗ β) :=
  (fst.pair snd).through ofLex toLex fun _ => rfl

def key : (f : MapField) → Codec f.Key
  | .playlist | .watched | .anidbMetadata | .fileCatalog | .savedPosition => p.hash
  | .seriesPreference => keyPair .text .varint
  | .manualOverride | .playbackPosition => .text
  | .fileAvailability => keyPair .text p.hash
  | .seriesRelations | .listEntries | .listNextEp => .varint

def val : (f : MapField) → Codec f.Val
  | .playlist => .option p.playlistFileState
  | .watched => .bool
  | .seriesPreference => seriesPreference
  | .manualOverride => .option manualState
  | .fileAvailability => fileAvailability
  | .anidbMetadata => .option aniDbMetadata
  | .seriesRelations => seriesRelations
  | .fileCatalog => fileCatalogEntry
  | .listEntries => p.seriesListEntry
  | .listNextEp => nextEpState
  | .playbackPosition => p.playbackPosition
  | .savedPosition => .varint

def map (f : MapField) : Codec (LwwMap f.Key f.Val) := lwwMap (p.key f) (p.val f)

def reg : (r : RegField) → Codec (LwwCell r.Val)
  | .nowPlaying => lwwCell (.option p.hash)
  | .seekAuthority => lwwCell p.seekAuthority
  | .playbackIntent => lwwCell playbackIntent
  | .marquee => lwwCell (.option marqueeMessage)

def set : (g : SetField) → Codec (GSet g.Elem)
  | .lookupRequests => gset p.fileHashInfo
  | .acknowledgedAbsent => gset (keyPair p.hash .text)

end Primitives

/-! ## §3. The layouts, field by field. -/

/-- The fields every layout begins with, in their order; `R` is what its relations map
holds. -/
structure CommonFields (R : Type) where
  playlist : LwwMap Ed2kHash (Option PlaylistFileState)
  watched : LwwMap Ed2kHash Bool
  nowPlaying : LwwCell (Option Ed2kHash)
  seekAuthority : LwwCell SeekAuthority
  playbackIntent : LwwCell PlaybackIntent
  seriesPreference : LwwMap (UserId ×ₗ ListEntryId) SeriesPreference
  manualOverride : LwwMap UserId (Option ManualState)
  fileAvailability : LwwMap (UserId ×ₗ Ed2kHash) FileAvailability
  anidbMetadata : LwwMap Ed2kHash (Option AniDbMetadata)
  seriesRelations : LwwMap AniDbSeriesId R
  fileCatalog : LwwMap Ed2kHash FileCatalogEntry
  listEntries : LwwMap ListEntryId SeriesListEntry
  listNextEp : LwwMap ListEntryId NextEpState
  lookupRequests : GSet FileHashInfo
  chat : GList ChatMessage
  playbackPosition : LwwMap UserId PlaybackPosition
  acknowledgedAbsent : GSet (Ed2kHash ×ₗ UserId)

structure CrdtStateUntaggedV6 extends CommonFields SeriesRelationsV10 where
  protocolVersion : Nat

structure CrdtStateV10 extends CommonFields SeriesRelationsV10 where
  marquee : LwwCell (Option MarqueeMessage)
  protocolVersion : Nat

/-- The layout of v11 to v13: the live one without `saved_position`. -/
structure CrdtStateV13 extends CommonFields SeriesRelations where
  marquee : LwwCell (Option MarqueeMessage)
  protocolVersion : Nat

def CommonFields.withRelations {R S : Type} (c : CommonFields R)
    (relations : LwwMap AniDbSeriesId S) : CommonFields S :=
  { c with seriesRelations := relations }

def CommonFields.state (c : CommonFields SeriesRelations)
    (marquee : LwwCell (Option MarqueeMessage)) (savedPosition : LwwMap Ed2kHash Nat)
    (protocolVersion : Nat) : CrdtState where
  maps
    | .playlist => c.playlist
    | .watched => c.watched
    | .seriesPreference => c.seriesPreference
    | .manualOverride => c.manualOverride
    | .fileAvailability => c.fileAvailability
    | .anidbMetadata => c.anidbMetadata
    | .seriesRelations => c.seriesRelations
    | .fileCatalog => c.fileCatalog
    | .listEntries => c.listEntries
    | .listNextEp => c.listNextEp
    | .playbackPosition => c.playbackPosition
    | .savedPosition => savedPosition
  regs
    | .nowPlaying => c.nowPlaying
    | .seekAuthority => c.seekAuthority
    | .playbackIntent => c.playbackIntent
    | .marquee => marquee
  sets
    | .lookupRequests => c.lookupRequests
    | .acknowledgedAbsent => c.acknowledgedAbsent
  chat := c.chat
  protocolVersion := protocolVersion

def CrdtState.common (s : CrdtState) : CommonFields SeriesRelations where
  playlist := s.maps .playlist
  watched := s.maps .watched
  nowPlaying := s.regs .nowPlaying
  seekAuthority := s.regs .seekAuthority
  playbackIntent := s.regs .playbackIntent
  seriesPreference := s.maps .seriesPreference
  manualOverride := s.maps .manualOverride
  fileAvailability := s.maps .fileAvailability
  anidbMetadata := s.maps .anidbMetadata
  seriesRelations := s.maps .seriesRelations
  fileCatalog := s.maps .fileCatalog
  listEntries := s.maps .listEntries
  listNextEp := s.maps .listNextEp
  lookupRequests := s.sets .lookupRequests
  chat := s.chat
  playbackPosition := s.maps .playbackPosition
  acknowledgedAbsent := s.sets .acknowledgedAbsent

theorem CrdtState.state_common (s : CrdtState) :
    s.common.state (s.regs .marquee) (s.maps .savedPosition) s.protocolVersion = s := by
  obtain ⟨maps, regs, sets, chat, protocolVersion⟩ := s
  unfold CommonFields.state CrdtState.common
  congr 1
  · funext f
    cases f <;> rfl
  · funext r
    cases r <;> rfl
  · funext g
    cases g <;> rfl

/-- `From<CrdtStateUntaggedV6>`. -/
def CrdtState.ofUntaggedV6 (v6 : CrdtStateUntaggedV6) : CrdtState :=
  (v6.withRelations (upgradeRelationsMap v6.seriesRelations)).state .new .new PROTOCOL_VERSION

/-- `From<CrdtStateV10>`. -/
def CrdtState.ofV10 (v10 : CrdtStateV10) : CrdtState :=
  (v10.withRelations (upgradeRelationsMap v10.seriesRelations)).state v10.marquee .new
    PROTOCOL_VERSION

/-- `From<CrdtStateV13>`. -/
def CrdtState.ofV13 (v13 : CrdtStateV13) : CrdtState :=
  v13.state v13.marquee .new PROTOCOL_VERSION

namespace Primitives

variable (p : Primitives)

/-- The fields every layout begins with; only the relations' values differ. -/
def common {R : Type} (relations : Codec R) : Codec (CommonFields R) :=
  ((p.map .playlist).pair <| (p.map .watched).pair <| (p.reg .nowPlaying).pair <|
    (p.reg .seekAuthority).pair <| (p.reg .playbackIntent).pair <|
    (p.map .seriesPreference).pair <| (p.map .manualOverride).pair <|
    (p.map .fileAvailability).pair <| (p.map .anidbMetadata).pair <|
    (lwwMap .varint relations).pair <| (p.map .fileCatalog).pair <|
    (p.map .listEntries).pair <| (p.map .listNextEp).pair <|
    (p.set .lookupRequests).pair <| (p.glist chatMessage).pair <|
    (p.map .playbackPosition).pair (p.set .acknowledgedAbsent)).through
    (fun c => (c.playlist, c.watched, c.nowPlaying, c.seekAuthority, c.playbackIntent,
      c.seriesPreference, c.manualOverride, c.fileAvailability, c.anidbMetadata,
      c.seriesRelations, c.fileCatalog, c.listEntries, c.listNextEp, c.lookupRequests, c.chat,
      c.playbackPosition, c.acknowledgedAbsent))
    (fun (playlist, watched, nowPlaying, seekAuthority, playbackIntent, seriesPreference,
        manualOverride, fileAvailability, anidbMetadata, relations, fileCatalog, listEntries,
        listNextEp, lookupRequests, chat, playbackPosition, acknowledgedAbsent) =>
      ⟨playlist, watched, nowPlaying, seekAuthority, playbackIntent, seriesPreference,
        manualOverride, fileAvailability, anidbMetadata, relations, fileCatalog, listEntries,
        listNextEp, lookupRequests, chat, playbackPosition, acknowledgedAbsent⟩)
    fun _ => rfl

def crdtState : Codec CrdtState :=
  ((p.common seriesRelations).pair <| (p.reg .marquee).pair <| (p.map .savedPosition).pair
    .varint).through
    (fun s => (s.common, s.regs .marquee, s.maps .savedPosition, s.protocolVersion))
    (fun (common, marquee, savedPosition, protocolVersion) =>
      common.state marquee savedPosition protocolVersion)
    CrdtState.state_common

def crdtStateUntaggedV6 : Codec CrdtStateUntaggedV6 :=
  ((p.common seriesRelationsV10).pair .varint).through
    (fun s => (s.toCommonFields, s.protocolVersion))
    (fun (common, protocolVersion) => ⟨common, protocolVersion⟩) fun _ => rfl

def crdtStateV10 : Codec CrdtStateV10 :=
  ((p.common seriesRelationsV10).pair <| (p.reg .marquee).pair .varint).through
    (fun s => (s.toCommonFields, s.marquee, s.protocolVersion))
    (fun (common, marquee, protocolVersion) => ⟨common, marquee, protocolVersion⟩) fun _ => rfl

def crdtStateV13 : Codec CrdtStateV13 :=
  ((p.common seriesRelations).pair <| (p.reg .marquee).pair .varint).through
    (fun s => (s.toCommonFields, s.marquee, s.protocolVersion))
    (fun (common, marquee, protocolVersion) => ⟨common, marquee, protocolVersion⟩) fun _ => rfl

end Primitives

/-! ## §4. The envelope. -/

def SNAPSHOT_MAGIC : List UInt8 := [0xFF, 0x44, 0x53, 0x53]

def LAYOUT_COMPATIBLE_SNAPSHOT_VERSIONS : List Nat := [14]

def FROZEN_LAYOUT_SNAPSHOT_VERSIONS : List Nat := [7, 8, 9, 10, 11, 12, 13]

/-- `u32::to_le_bytes`. -/
def toLeBytes (n : Nat) : List UInt8 :=
  [.ofNat n, .ofNat (n / 2 ^ 8), .ofNat (n / 2 ^ 16), .ofNat (n / 2 ^ 24)]

/-- `u32::from_le_bytes`. -/
def fromLeBytes (b₀ b₁ b₂ b₃ : UInt8) : Nat :=
  b₀.toNat + 2 ^ 8 * b₁.toNat + 2 ^ 16 * b₂.toNat + 2 ^ 24 * b₃.toNat

def CrdtState.encodeSnapshot (p : Primitives) (s : CrdtState) : List UInt8 :=
  SNAPSHOT_MAGIC ++ toLeBytes PROTOCOL_VERSION ++ p.crdtState.encode s

def CrdtState.decodeTagged (p : Primitives) :
    List UInt8 → Except WireError (CrdtState × Bool)
  | b₀ :: b₁ :: b₂ :: b₃ :: body =>
    let version := fromLeBytes b₀ b₁ b₂ b₃
    if version = PROTOCOL_VERSION then
      (p.crdtState.fromBytes body).map (·, false)
    else if version ∈ LAYOUT_COMPATIBLE_SNAPSHOT_VERSIONS then
      (p.crdtState.fromBytes body).map fun state =>
        ({ state with protocolVersion := PROTOCOL_VERSION }, true)
    else if version ∈ FROZEN_LAYOUT_SNAPSHOT_VERSIONS then
      if version ≤ 10 then (p.crdtStateV10.fromBytes body).map (CrdtState.ofV10 ·, true)
      else (p.crdtStateV13.fromBytes body).map (CrdtState.ofV13 ·, true)
    else .error .deserializeBadEncoding
  | _ => .error .deserializeUnexpectedEnd

def CrdtState.decodeSnapshotFlagged (p : Primitives) (blob : List UInt8) :
    Except WireError (CrdtState × Bool) :=
  match blob.dropPrefix? SNAPSHOT_MAGIC with
  | some tagged => decodeTagged p tagged
  | none => (p.crdtStateUntaggedV6.fromBytes blob).map (CrdtState.ofUntaggedV6 ·, true)

section Envelope

variable (p : Primitives)

theorem decodeSnapshotFlagged_tagged (tagged : List UInt8) :
    CrdtState.decodeSnapshotFlagged p (SNAPSHOT_MAGIC ++ tagged) =
      CrdtState.decodeTagged p tagged := by
  have hsome : (SNAPSHOT_MAGIC ++ tagged).dropPrefix? SNAPSHOT_MAGIC = some tagged :=
    dropPrefix?_eq_some_iff.mpr ⟨SNAPSHOT_MAGIC, rfl, beq_self_eq_true _⟩
  unfold CrdtState.decodeSnapshotFlagged
  rw [hsome]

theorem decodeSnapshotFlagged_untagged {blob : List UInt8} (h : ¬ SNAPSHOT_MAGIC <+: blob) :
    CrdtState.decodeSnapshotFlagged p blob =
      (p.crdtStateUntaggedV6.fromBytes blob).map (CrdtState.ofUntaggedV6 ·, true) := by
  have hnone : blob.dropPrefix? SNAPSHOT_MAGIC = none := by
    rw [Option.eq_none_iff_forall_ne_some]
    intro tagged htagged
    obtain ⟨magic, hblob, hmagic⟩ := dropPrefix?_eq_some_iff.mp htagged
    exact h ⟨tagged, by rw [hblob, eq_of_beq hmagic]⟩
  unfold CrdtState.decodeSnapshotFlagged
  rw [hnone]

theorem decodeSnapshotFlagged_encodeSnapshot (s : CrdtState) :
    CrdtState.decodeSnapshotFlagged p (s.encodeSnapshot p) = .ok (s, false) := by
  have hversion : toLeBytes PROTOCOL_VERSION = [15, 0, 0, 0] := by decide
  have hcurrent : fromLeBytes 15 0 0 0 = PROTOCOL_VERSION := by decide
  unfold CrdtState.encodeSnapshot
  rw [append_assoc, decodeSnapshotFlagged_tagged, hversion]
  simp only [cons_append, nil_append, CrdtState.decodeTagged, if_pos hcurrent,
    Codec.fromBytes_encode]
  rfl

theorem decodeSnapshotFlagged_unknown (b₀ b₁ b₂ b₃ : UInt8) (body : List UInt8)
    (hcurrent : fromLeBytes b₀ b₁ b₂ b₃ ≠ PROTOCOL_VERSION)
    (hcompatible : fromLeBytes b₀ b₁ b₂ b₃ ∉ LAYOUT_COMPATIBLE_SNAPSHOT_VERSIONS)
    (hfrozen : fromLeBytes b₀ b₁ b₂ b₃ ∉ FROZEN_LAYOUT_SNAPSHOT_VERSIONS) :
    CrdtState.decodeSnapshotFlagged p (SNAPSHOT_MAGIC ++ b₀ :: b₁ :: b₂ :: b₃ :: body) =
      .error .deserializeBadEncoding := by
  rw [decodeSnapshotFlagged_tagged, CrdtState.decodeTagged]
  simp only [if_neg hcurrent, if_neg hcompatible, if_neg hfrozen]

end Envelope

/-! ## §5. What an untagged blob begins with. -/

/-- The playlist clock whose encoding spells the magic: 8831 actors, the first of them
actor 83 with counter 83. -/
def CrdtStateUntaggedV6.SpellsMagic (v6 : CrdtStateUntaggedV6) : Prop :=
  v6.playlist.clock.dots.size = 8831 ∧ v6.playlist.clock.dots.toList.head? = some (83, 83)

theorem vclock_isPrefix_iff (clock : VClock ActorId) (rest : List UInt8) :
    SNAPSHOT_MAGIC <+: Primitives.vclock.encode clock ++ rest ↔
      clock.dots.size = 8831 ∧ clock.dots.toList.head? = some (83, 83) := by
  have hsize : clock.dots.toList.length = clock.dots.size := Std.ExtTreeMap.length_toList
  -- the size: a low byte 0xFF that goes on, and the high byte 0x44
  show UInt8.ofNat (127 + 128) :: UInt8.ofNat 68 :: UInt8.ofNat 83 :: UInt8.ofNat 83 :: [] <+:
    (Codec.varintBytes clock.dots.toList.length ++
      clock.dots.toList.flatMap (Codec.varint.pair .varint).encode) ++ rest ↔ _
  rw [append_assoc, Codec.continued_byte_iff (by omega), Codec.small_byte_iff (by omega),
    hsize]
  cases hdots : clock.dots.toList with
  | nil =>
    have : clock.dots.size = 0 := by rw [← hsize, hdots]; rfl
    exact iff_of_false (fun h => by omega) (fun h => by omega)
  | cons dot dots =>
    obtain ⟨actor, counter⟩ := dot
    have hdot : (Codec.varint.pair .varint).encode (actor, counter) =
      Codec.varintBytes actor ++ Codec.varintBytes counter := rfl
    rw [flatMap_cons, hdot, append_assoc, append_assoc,
      Codec.small_byte_iff (by omega), Codec.small_byte_iff (by omega), head?_cons,
      Option.some.injEq, Prod.mk.injEq]
    constructor
    · rintro ⟨hlow, hrest, hhigh, hactor, hcounter, -⟩
      exact ⟨by omega, hactor, hcounter⟩
    · rintro ⟨hlength, hactor, hcounter⟩
      exact ⟨by omega, by omega, by omega, hactor, hcounter, nil_prefix⟩

theorem encode_untaggedV6 (p : Primitives) (v6 : CrdtStateUntaggedV6) :
    ∃ rest, p.crdtStateUntaggedV6.encode v6 =
      Primitives.vclock.encode v6.playlist.clock ++ rest := by
  obtain ⟨version, hcommon⟩ : ∃ rest, p.crdtStateUntaggedV6.encode v6 =
      (p.common Primitives.seriesRelationsV10).encode v6.toCommonFields ++ rest := ⟨_, rfl⟩
  obtain ⟨others, hplaylist⟩ : ∃ rest,
      (p.common Primitives.seriesRelationsV10).encode v6.toCommonFields =
        (p.map .playlist).encode v6.playlist ++ rest := ⟨_, rfl⟩
  obtain ⟨entries, hclock⟩ : ∃ rest, (p.map .playlist).encode v6.playlist =
      Primitives.vclock.encode v6.playlist.clock ++ rest := ⟨_, rfl⟩
  exact ⟨entries ++ (others ++ version), by
    rw [hcommon, hplaylist, hclock, append_assoc, append_assoc]⟩

theorem magic_isPrefix_iff (p : Primitives) (v6 : CrdtStateUntaggedV6) :
    SNAPSHOT_MAGIC <+: p.crdtStateUntaggedV6.encode v6 ↔ v6.SpellsMagic := by
  obtain ⟨rest, hrest⟩ := encode_untaggedV6 p v6
  rw [hrest]
  exact vclock_isPrefix_iff v6.playlist.clock rest

/-- **Stored snapshots decode to what was stored.**  A stored state is read back,
unmigrated; a tagged blob of a version in neither list is refused; and an untagged
blob begins with the magic exactly when its playlist's clock spells it.  Any other is
read by the legacy arm. -/
theorem snapshots_decode (p : Primitives) :
    (∀ s : CrdtState,
      CrdtState.decodeSnapshotFlagged p (s.encodeSnapshot p) = .ok (s, false)) ∧
    (∀ (b₀ b₁ b₂ b₃ : UInt8) (body : List UInt8),
      fromLeBytes b₀ b₁ b₂ b₃ ≠ PROTOCOL_VERSION →
      fromLeBytes b₀ b₁ b₂ b₃ ∉ LAYOUT_COMPATIBLE_SNAPSHOT_VERSIONS →
      fromLeBytes b₀ b₁ b₂ b₃ ∉ FROZEN_LAYOUT_SNAPSHOT_VERSIONS →
      CrdtState.decodeSnapshotFlagged p (SNAPSHOT_MAGIC ++ b₀ :: b₁ :: b₂ :: b₃ :: body) =
        .error .deserializeBadEncoding) ∧
    (∀ v6 : CrdtStateUntaggedV6,
      (SNAPSHOT_MAGIC <+: p.crdtStateUntaggedV6.encode v6 ↔ v6.SpellsMagic) ∧
      (¬ v6.SpellsMagic →
        CrdtState.decodeSnapshotFlagged p (p.crdtStateUntaggedV6.encode v6) =
          .ok (.ofUntaggedV6 v6, true))) := by
  refine ⟨decodeSnapshotFlagged_encodeSnapshot p, decodeSnapshotFlagged_unknown p,
    fun v6 => ⟨magic_isPrefix_iff p v6, fun hspells => ?_⟩⟩
  rw [decodeSnapshotFlagged_untagged p (mt (magic_isPrefix_iff p v6).mp hspells),
    Codec.fromBytes_encode]
  rfl

/-! ## §6. An untagged state that is refused. -/

def crowdedDots : List (Nat × Nat) :=
  (83, 83) :: (84, 83) :: (85, 83) :: (List.range 8828).map fun i => (86 + i, 83)

theorem crowdedDots_sorted : crowdedDots.Pairwise fun a b => a.1 < b.1 := by
  have htail : ((List.range 8828).map fun i => (86 + i, 83)).Pairwise fun a b => a.1 < b.1 :=
    pairwise_map.mpr (pairwise_lt_range.imp fun hlt => Nat.add_lt_add_left hlt 86)
  have hlow : ∀ dot ∈ (List.range 8828).map fun i => (86 + i, 83), 85 < dot.1 := by
    intro dot hdot
    obtain ⟨i, -, rfl⟩ := mem_map.mp hdot
    show 85 < 86 + i
    omega
  simp only [crowdedDots, pairwise_cons, forall_mem_cons]
  exact ⟨⟨by omega, by omega, fun dot hdot => by have := hlow dot hdot; omega⟩,
    ⟨by omega, fun dot hdot => by have := hlow dot hdot; omega⟩, hlow, htail⟩

def crowded : CrdtStateUntaggedV6 where
  playlist := ⟨⟨Std.ExtTreeMap.ofList crowdedDots compare⟩, ∅, []⟩
  watched := .new
  nowPlaying := .new
  seekAuthority := .new
  playbackIntent := .new
  seriesPreference := .new
  manualOverride := .new
  fileAvailability := .new
  anidbMetadata := .new
  seriesRelations := .new
  fileCatalog := .new
  listEntries := .new
  listNextEp := .new
  lookupRequests := .new
  chat := .new
  playbackPosition := .new
  acknowledgedAbsent := .new
  protocolVersion := 6

theorem vclock_encode_crowded : ∃ rest, Primitives.vclock.encode crowded.playlist.clock =
    SNAPSHOT_MAGIC ++ 84 :: 83 :: 85 :: 83 :: rest := by
  have hlist : crowded.playlist.clock.dots.toList = crowdedDots :=
    Codec.toList_ofList crowdedDots_sorted
  have hlength : crowdedDots.length = 8831 := by simp [crowdedDots]
  have hsize : Codec.varintBytes 8831 = [0xFF, 0x44] := by
    rw [Codec.varintBytes_of_ge (by omega), Codec.varintBytes_of_lt (by omega)]
    rfl
  have hdot : ∀ n, n < 128 → (Codec.varint.pair .varint).encode (n, 83) = [.ofNat n, 83] := by
    intro n hn
    show Codec.varintBytes n ++ Codec.varintBytes 83 = _
    rw [Codec.varintBytes_of_lt hn, Codec.varintBytes_of_lt (by omega)]
    rfl
  have hencode : Primitives.vclock.encode crowded.playlist.clock =
      Codec.varintBytes crowded.playlist.clock.dots.toList.length ++
        crowded.playlist.clock.dots.toList.flatMap (Codec.varint.pair .varint).encode := rfl
  rw [hencode, hlist, hlength, hsize, crowdedDots]
  -- the other dots stay folded
  generalize (List.range 8828).map (fun i => (86 + i, 83)) = dots
  refine ⟨dots.flatMap (Codec.varint.pair .varint).encode, ?_⟩
  rw [flatMap_cons, flatMap_cons, flatMap_cons, hdot 83 (by omega),
    hdot 84 (by omega), hdot 85 (by omega)]
  rfl

/-- **Its blob is refused**: what follows its clock's first dot is read as a version. -/
theorem crowded_refused :
    SNAPSHOT_MAGIC <+: (default : Primitives).crdtStateUntaggedV6.encode crowded ∧
    CrdtState.decodeSnapshotFlagged default
      ((default : Primitives).crdtStateUntaggedV6.encode crowded) =
        .error .deserializeBadEncoding := by
  obtain ⟨rest, hrest⟩ := encode_untaggedV6 default crowded
  obtain ⟨dots, hdots⟩ := vclock_encode_crowded
  rw [hrest, hdots, append_assoc]
  refine ⟨prefix_append _ _, ?_⟩
  exact decodeSnapshotFlagged_unknown default 84 83 85 83 (dots ++ rest) (by decide) (by decide)
    (by decide)

end DessPlay.Core
