/-
  DessPlay.Core.Types
  **THE REPLICATED VALUES AND THEIR TOTAL ORDERS** (`dessplay-core/src/types.rs`).

  Plain data.  The orders matter: LWW resolution breaks timestamp ties by VALUE,
  so every type stored in a register needs the order Rust derives for it:
  fields left to right, variants in declaration order, `None` below `Some`.
-/
import DessPlay.Crdts.Lists
import DessPlay.Lib.Joins

namespace DessPlay.Core

open BTree Joins Crdts

/-! ## §1. Identifiers. -/

/-- A file's content hash; 16 bytes, compared as one big-endian number. -/
abbrev Ed2kHash : Type := Nat

abbrev UserId : Type := String

/-- The CRDT actor of one client session; `ActorId.SERVER` is the server's. -/
abbrev ActorId : Type := Nat

/-- The server's actor; `ActorId::session` never yields it. -/
def ActorId.SERVER : ActorId := 0

abbrev SharedTimestamp : Type := Nat

abbrev AniDbSeriesId : Type := Nat

abbrev ListEntryId : Type := Nat

abbrev Epoch : Type := Nat

/-- The next compaction generation (`wrapping_add` on `u64`). -/
def Epoch.next (e : Epoch) : Epoch := (e + 1) % 2 ^ 64

/-! ## §2. Transporting an order along an encoding. -/

def lex {α β : Type} (a : α) (b : β) : α ×ₗ β := toLex (a, b)

@[simp] theorem lex_inj {α β : Type} {a a' : α} {b b' : β} :
    lex a b = lex a' b' ↔ a = a' ∧ b = b' := by
  rw [lex, lex, toLex_inj, Prod.mk.injEq]

@[simp] theorem ofOption_inj {α : Type} {x y : Option α} : ofOption x = ofOption y ↔ x = y :=
  ofOption_injective.eq_iff

/-- Rust's order on `Option`: `None` first. -/
abbrev optionOrder (α : Type) [LinearOrder α] : LinearOrder (Option α) :=
  LinearOrder.lift' ofOption ofOption_injective

/-- Rust's order on `BTreeSet`: lexicographic in iteration order. -/
instance btreeSetOrder (T : Type) [LinearOrder T] : LinearOrder (BTreeSet T) :=
  LinearOrder.lift' (fun s : BTreeSet T => s.toList)
    (fun _ _ h => Std.ExtTreeSet.ext_toList (List.Perm.of_eq h))

/-! ## §3. The values. -/

/-- A playlist entry. -/
structure PlaylistFileState where
  position : Identifier ActorId
  addedBy : UserId
  filename : String
  sizeBytes : Nat
  durationMillis : Option ℕ+
  deriving DecidableEq

instance : LinearOrder PlaylistFileState :=
  LinearOrder.lift'
    (fun p => lex p.position (lex p.addedBy (lex p.filename (lex p.sizeBytes
      (ofOption p.durationMillis)))))
    (by rintro ⟨⟩ ⟨⟩ h; simpa using h)

inductive SeriesWatchState where
  | watching | notWatching | maybe
  deriving DecidableEq, Repr

instance : LinearOrder SeriesWatchState :=
  LinearOrder.lift'
    (fun | .watching => 0 | .notWatching => 1 | .maybe => (2 : Nat))
    (by rintro ⟨⟩ ⟨⟩ h <;> simp_all)

structure SeriesPreference where
  state : SeriesWatchState
  setBy : Option UserId
  deriving DecidableEq

instance : LinearOrder SeriesPreference :=
  LinearOrder.lift' (fun p => lex p.state (ofOption p.setBy))
    (by rintro ⟨⟩ ⟨⟩ h; simpa using h)

structure UserSeek where
  user : UserId
  file : Ed2kHash
  eventAt : SharedTimestamp
  fromMillis : Nat
  toMillis : Nat
  deriving DecidableEq

instance : LinearOrder UserSeek :=
  LinearOrder.lift'
    (fun s => lex s.user (lex s.file (lex s.eventAt (lex s.fromMillis s.toMillis))))
    (by rintro ⟨⟩ ⟨⟩ h; simpa using h)

inductive SeekAuthority where
  | server
  | user (seek : UserSeek)
  | laggard (file : Ed2kHash)
  | anchor (user : UserId) (file : Ed2kHash)
  deriving DecidableEq

/-- Variant number and payload of a `SeekAuthority`. -/
def SeekAuthority.key : SeekAuthority → Nat ×ₗ WithBot UserSeek ×ₗ UserId ×ₗ Ed2kHash
  | .server => lex 0 (lex ⊥ (lex "" 0))
  | .user s => lex 1 (lex (s : WithBot UserSeek) (lex "" 0))
  | .laggard f => lex 2 (lex ⊥ (lex "" f))
  | .anchor u f => lex 3 (lex ⊥ (lex u f))

instance : LinearOrder SeekAuthority :=
  LinearOrder.lift' SeekAuthority.key
    (by rintro ⟨⟩ ⟨⟩ h <;> simp_all [SeekAuthority.key])

inductive PlaybackIntent where
  | paused | playing
  deriving DecidableEq, Repr

instance : Inhabited PlaybackIntent := ⟨.paused⟩

instance : LinearOrder PlaybackIntent :=
  LinearOrder.lift' (fun | .paused => 0 | .playing => (1 : Nat))
    (by rintro ⟨⟩ ⟨⟩ h <;> simp_all)

inductive ManualState where
  | paused
  | away (setBy : UserId)
  deriving DecidableEq

instance : LinearOrder ManualState :=
  LinearOrder.lift'
    (fun | .paused => (⊥ : WithBot UserId) | .away u => (u : WithBot UserId))
    (by rintro ⟨⟩ ⟨⟩ h <;> simp_all)

structure MarqueeMessage where
  text : String
  setBy : Option UserId
  deriving DecidableEq

instance : LinearOrder MarqueeMessage :=
  LinearOrder.lift' (fun m => lex m.text (ofOption m.setBy))
    (by rintro ⟨⟩ ⟨⟩ h; simpa using h)

/-- Whether a user holds a file; progress in basis points. -/
inductive FileAvailability where
  | ready
  | missing
  | downloading (progressBps : Nat)
  | downloadingPlayable (progressBps : Nat)
  deriving DecidableEq, Repr

instance : LinearOrder FileAvailability :=
  LinearOrder.lift'
    (fun
      | .ready => lex 0 0
      | .missing => lex 1 0
      | .downloading p => lex 2 p
      | .downloadingPlayable p => (lex 3 p : Nat ×ₗ Nat))
    (by rintro ⟨⟩ ⟨⟩ h <;> simp_all)

inductive MetadataSource where
  | aniDb | filenameDerived
  deriving DecidableEq, Repr

instance : LinearOrder MetadataSource :=
  LinearOrder.lift' (fun | .aniDb => 0 | .filenameDerived => (1 : Nat))
    (by rintro ⟨⟩ ⟨⟩ h <;> simp_all)

structure AniDbMetadata where
  source : MetadataSource
  seriesName : String
  seriesId : Option AniDbSeriesId
  episodeNumber : Option String
  deriving DecidableEq

instance : LinearOrder AniDbMetadata :=
  LinearOrder.lift'
    (fun m => lex m.source (lex m.seriesName (lex (ofOption m.seriesId)
      (ofOption m.episodeNumber))))
    (by rintro ⟨⟩ ⟨⟩ h; simpa using h)

structure FileCatalogEntry where
  filename : String
  sizeBytes : Nat
  durationMillis : Option ℕ+
  deriving DecidableEq

instance : LinearOrder FileCatalogEntry :=
  LinearOrder.lift'
    (fun c => lex c.filename (lex c.sizeBytes (ofOption c.durationMillis)))
    (by rintro ⟨⟩ ⟨⟩ h; simpa using h)

inductive RelationKind where
  | sequel | prequel | sameSetting | alternativeSetting | alternativeVersion
  | musicVideo | character | sideStory | parentStory | summary | fullStory
  | other (code : Nat)
  deriving DecidableEq, Repr

/-- Variant number and payload of a `RelationKind`. -/
def RelationKind.key : RelationKind → Nat ×ₗ Nat
  | .sequel => lex 0 0
  | .prequel => lex 1 0
  | .sameSetting => lex 2 0
  | .alternativeSetting => lex 3 0
  | .alternativeVersion => lex 4 0
  | .musicVideo => lex 5 0
  | .character => lex 6 0
  | .sideStory => lex 7 0
  | .parentStory => lex 8 0
  | .summary => lex 9 0
  | .fullStory => lex 10 0
  | .other c => lex 11 c

instance : LinearOrder RelationKind :=
  LinearOrder.lift' RelationKind.key
    (by rintro ⟨⟩ ⟨⟩ h <;> simp_all [RelationKind.key])

structure SeriesRelation where
  kind : RelationKind
  target : AniDbSeriesId
  deriving DecidableEq

instance : LinearOrder SeriesRelation :=
  LinearOrder.lift' (fun r => lex r.kind r.target) (by rintro ⟨⟩ ⟨⟩ h; simpa using h)

structure SeriesRelations where
  title : String
  year : Option Nat
  episodeCount : Option Nat
  relations : BTreeSet SeriesRelation
  shortTitles : List String
  deriving DecidableEq

instance : LinearOrder SeriesRelations :=
  LinearOrder.lift'
    (fun r => lex r.title (lex (ofOption r.year) (lex (ofOption r.episodeCount)
      (lex r.relations r.shortTitles))))
    (by rintro ⟨⟩ ⟨⟩ h; simpa using h)

inductive ListStatus where
  | shortList | planned | active | currentSeason | waiting | hiatus | finished | dropped
  deriving DecidableEq, Repr

instance : LinearOrder ListStatus :=
  LinearOrder.lift' ListStatus.ctorIdx (by rintro ⟨⟩ ⟨⟩ h <;> simp_all [ListStatus.ctorIdx])

structure SeriesListEntry where
  name : String
  neroName : Option String
  genre : Option String
  notes : List String
  recommender : Option String
  status : ListStatus
  statusNote : Option String
  source : Option String
  watchers : BTreeSet UserId
  anidbSeriesId : Option AniDbSeriesId
  localAliases : BTreeSet String
  manualFiles : BTreeSet Ed2kHash
  anidbUnavailable : Bool
  deriving DecidableEq

instance : LinearOrder SeriesListEntry :=
  LinearOrder.lift'
    (fun e => lex e.name (lex (ofOption e.neroName) (lex (ofOption e.genre) (lex e.notes
      (lex (ofOption e.recommender) (lex e.status (lex (ofOption e.statusNote)
      (lex (ofOption e.source) (lex e.watchers (lex (ofOption e.anidbSeriesId)
      (lex e.localAliases (lex e.manualFiles e.anidbUnavailable))))))))))))
    (by rintro ⟨⟩ ⟨⟩ h; simpa using h)

structure NextEpState where
  nextEp : Option String
  available : Bool
  deriving DecidableEq

instance : LinearOrder NextEpState :=
  LinearOrder.lift' (fun s => lex (ofOption s.nextEp) s.available)
    (by rintro ⟨⟩ ⟨⟩ h; simpa using h)

structure ChatMessage where
  timestamp : SharedTimestamp
  sender : UserId
  text : String
  deriving DecidableEq

instance : LinearOrder ChatMessage :=
  LinearOrder.lift' (fun m => lex m.timestamp (lex m.sender m.text))
    (by rintro ⟨⟩ ⟨⟩ h; simpa using h)

structure FileHashInfo where
  hash : Ed2kHash
  size : Nat
  filename : String
  mtime : Option Int
  seriesHint : Option String
  deriving DecidableEq

instance : LinearOrder FileHashInfo :=
  LinearOrder.lift'
    (fun i => lex i.hash (lex i.size (lex i.filename (lex (ofOption i.mtime)
      (ofOption i.seriesHint)))))
    (by rintro ⟨⟩ ⟨⟩ h; simpa using h)

structure PlaybackPosition where
  positionMillis : Nat
  timestamp : SharedTimestamp
  file : Ed2kHash
  deriving DecidableEq

instance : LinearOrder PlaybackPosition :=
  LinearOrder.lift' (fun p => lex p.positionMillis (lex p.timestamp p.file))
    (by rintro ⟨⟩ ⟨⟩ h; simpa using h)

end DessPlay.Core
