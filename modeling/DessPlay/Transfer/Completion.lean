/-
  DessPlay.Transfer.Completion
  **ONLY VERIFIED BYTES COMPLETE A DOWNLOAD.**

  A complete store has every block verified, a verified block has the bytes of the
  trusted hash list, and the list was checked against the root that `start` was given:
  the bytes on disk have that root.  This needs the block count and the length of the
  list, both cast to `u32`, to be what they are taken for.
-/
import DessPlay.Transfer.InFlight

namespace DessPlay.Transfer

open BTree DessPlay.Core List

variable {P : Type} [LinearOrder P] {md4 : List UInt8 → Nat}

/-! ## §1. Files whose counts fit. -/

/-- The block count survives the cast to `u32`. -/
def BlocksFit (sizeBytes : Nat) : Prop := divCeil sizeBytes ED2K_BLOCK_SIZE < 2 ^ 32

instance (sizeBytes : Nat) : Decidable (BlocksFit sizeBytes) :=
  inferInstanceAs (Decidable (_ < _))

theorem BlocksFit.blockCount {sizeBytes : Nat} (h : BlocksFit sizeBytes) :
    blockCount sizeBytes = divCeil sizeBytes ED2K_BLOCK_SIZE :=
  Nat.mod_eq_of_lt h

namespace ChunkStore

theorem sameCounts_writeChunk (s : ChunkStore) (index : Nat) (data : List UInt8)
    (outcome : WriteOutcome) :
    (s.writeChunk index data outcome).1.sizeBytes = s.sizeBytes ∧
      (s.writeChunk index data outcome).1.blocks = s.blocks ∧
      (s.writeChunk index data outcome).1.path = s.path := by
  rcases writeChunk_cases s index data outcome with heq | ⟨_, _, ⟨_, heq⟩ | heq⟩ <;> rw [heq] <;>
    exact ⟨rfl, rfl, rfl⟩

theorem Sound.verifyKnown {s : ChunkStore} {hashes : Option (List Ed2kBlockHash)}
    (h : s.Sound md4 hashes) (readable : Nat → Bool) :
    (s.verifyKnown md4 hashes readable).Sound md4 hashes := by
  cases hashes with
  | none => exact h
  | some hs => exact h.verify readable

theorem blockHashesMatch_congr {s s' : ChunkStore} (hsize : s'.sizeBytes = s.sizeBytes)
    (hblocks : s'.blocks = s.blocks) (root : Ed2kHash) (hs : List Ed2kBlockHash) :
    s'.blockHashesMatch md4 root hs = s.blockHashesMatch md4 root hs := by
  unfold blockHashesMatch
  rw [hsize, hblocks]

end ChunkStore

/-! ## §2. What is trusted about a download. -/

/-- The store is sound for the trusted list, which was checked against the root. -/
structure Download.Trusted (md4 : List UInt8 → Nat) (d : Download P) : Prop where
  sound : d.store.Sound md4 d.blockHashes
  sizeBytes : d.store.sizeBytes = d.sizeBytes
  blocksFit : BlocksFit d.sizeBytes
  checked : ∀ hs, d.blockHashes = some hs →
    hs.length < 2 ^ 32 ∧ d.store.blockHashesMatch md4 d.root hs = true

namespace Downloads

open Download

/-- The calls whose counts fit: a file's blocks, a hash list's length. -/
def Sized : Call P → Prop
  | .start _ sizeBytes _ _ _ _ _ _ => BlocksFit sizeBytes
  | .peerMessage _ (.blockHashes _ hashes) _ _ => hashes.length < 2 ^ 32
  | _ => True

end Downloads

namespace Download

variable {call : Downloads.Call P} {file : Ed2kHash} {d d' : Download P}

theorem Trusted.idle (h : d.Trusted md4) (hidle : Idle d d') : d'.Trusted md4 where
  sound := by
    rw [hidle.store, hidle.blockHashes]
    exact h.sound
  sizeBytes := by
    rw [hidle.store, hidle.sizeBytes]
    exact h.sizeBytes
  blocksFit := by
    rw [hidle.sizeBytes]
    exact h.blocksFit
  checked := by
    rw [hidle.store, hidle.blockHashes, hidle.root]
    exact h.checked

theorem Trusted.edit (h : d.Trusted md4) (hsized : Downloads.Sized call)
    (hedit : Edit md4 call file d d') : d'.Trusted md4 := by
  have hcount : BlocksFit d'.sizeBytes := by
    rw [hedit.kept.sizeBytes]
    exact h.blocksFit
  cases hedit with
  | idle hidle => exact h.idle hidle
  | @trusted _ hashes _ io hcall hkept hpending hmatch hhashes hstore =>
    subst hcall
    have hsound : d.store.Sound md4 none := hpending ▸ h.sound
    have hsame : d.store.SameFile (d.store.verify md4 hashes io.readable) :=
      ChunkStore.sameFile_verify d.store
    refine ⟨?_, ?_, hcount, fun hs heq => ?_⟩
    · rw [hstore, hhashes]
      exact (hsound.trust hashes).verify io.readable
    · rw [hstore, hsame.2.2.1, hkept.sizeBytes]
      exact h.sizeBytes
    · rw [hhashes] at heq
      cases heq
      refine ⟨hsized, ?_⟩
      rw [hstore, hkept.root, ChunkStore.blockHashesMatch_congr hsame.2.2.1 hsame.2.2.2.2.1]
      exact hmatch
  | @failed _ index data _ io _ hkept hnew hhashes _ hstore =>
    obtain ⟨hsize, hblocks, _⟩ := d.store.sameCounts_writeChunk index data io.write
    refine ⟨?_, ?_, hcount, fun hs heq => ?_⟩
    · rw [hstore, hhashes]
      exact h.sound.writeChunk hnew data io.write
    · rw [hstore, hsize, hkept.sizeBytes]
      exact h.sizeBytes
    · rw [hhashes] at heq
      rw [hstore, hkept.root, ChunkStore.blockHashesMatch_congr hsize hblocks]
      exact h.checked hs heq
  | @arrived _ index data _ io _ hkept hnew hhashes _ hstore =>
    obtain ⟨hsize, hblocks, _⟩ := d.store.sameCounts_writeChunk index data io.write
    have hsound := h.sound.writeChunk hnew data io.write
    have hsame : (d.store.writeChunk index data io.write).1.SameFile d'.store := by
      rw [hstore]
      exact ChunkStore.sameFile_verifyKnown _ _ _
    refine ⟨?_, ?_, hcount, fun hs heq => ?_⟩
    · rw [hstore, hhashes]
      exact hsound.verifyKnown io.readable
    · rw [hsame.2.2.1, hsize, hkept.sizeBytes]
      exact h.sizeBytes
    · rw [hhashes] at heq
      rw [hkept.root, ChunkStore.blockHashesMatch_congr (hsame.2.2.1.trans hsize)
        (hsame.2.2.2.2.1.trans hblocks)]
      exact h.checked hs heq

theorem Trusted.grown (h : d.Trusted md4) (hgrown : d.Grown d') : d'.Trusted md4 where
  sound := by
    rw [hgrown.store, hgrown.blockHashes]
    exact h.sound
  sizeBytes := by
    rw [hgrown.store, hgrown.sizeBytes]
    exact h.sizeBytes
  blocksFit := by
    rw [hgrown.sizeBytes]
    exact h.blocksFit
  checked := by
    rw [hgrown.store, hgrown.blockHashes, hgrown.root]
    exact h.checked

theorem trusted_new {fs : FileSystem} {path : String} {sizeBytes : Nat} {store : ChunkStore}
    (hopen : ChunkStore.openFile fs path sizeBytes = .ok store) (hcount : BlocksFit sizeBytes)
    (root : Ed2kHash) (playChunk : Nat) :
    (Download.new store root sizeBytes playChunk : Download P).Trusted md4 := by
  obtain ⟨hsound, hsize⟩ := ChunkStore.sound_openFile md4 hopen
  refine ⟨hsound, hsize, hcount, fun hs heq => ?_⟩
  cases heq

theorem Edit.path_eq (h : Edit md4 call file d d') : d'.store.path = d.store.path := by
  cases h with
  | idle h => rw [h.store]
  | @trusted _ hashes _ io _ _ _ _ _ hstore =>
    rw [hstore]
    exact (ChunkStore.sameFile_verify d.store).2.1
  | @failed _ index data _ io _ _ _ _ _ hstore =>
    rw [hstore]
    exact (d.store.sameCounts_writeChunk index data io.write).2.2
  | @arrived _ index data _ io _ _ _ _ _ hstore =>
    rw [hstore]
    exact (ChunkStore.sameFile_verifyKnown _ _ _).2.1.trans
      (d.store.sameCounts_writeChunk index data io.write).2.2

theorem Origin.trusted {s : Downloads P} (h : Origin md4 s call file d')
    (hs : ∀ d, s.files[file]? = some d → d.Trusted md4) (hsized : Downloads.Sized call) :
    d'.Trusted md4 := by
  rcases h with ⟨d, hd, hedit⟩ | ⟨_, _, root, _, _, playChunk, _, _, _, rfl, hopen, hidle⟩
  · exact (hs d hd).edit hsized hedit
  · exact (trusted_new hopen hsized root playChunk).idle hidle

/-! ## §3. Verified blocks are left alone. -/

end Download

/-! ## §4. What each download was started with. -/

namespace Downloads

open Download

/-- What a `start` says of its file. -/
structure Declared where
  sizeBytes : Nat
  root : Ed2kHash
  path : String
  deriving DecidableEq

/-- The manager, and beside it what the `start` that began each file's download declared. -/
structure Tracked (P : Type) [LinearOrder P] where
  downloads : Downloads P
  given : Ed2kHash → Option Declared

namespace Tracked

def new (cfg : DownloadConfig) : Tracked P := ⟨.new cfg, fun _ => none⟩

/-- Only the `start` that finds no download of its file begins one (download.rs ignores
the others). -/
def note (s : Tracked P) : Call P → Ed2kHash → Option Declared
  | .start file sizeBytes root path _ _ _ _ =>
    if (s.downloads.files[file]?).isNone then
      Function.update s.given file (some ⟨sizeBytes, root, path⟩)
    else s.given
  | _ => s.given

/-- One call of the manager. -/
def step (md4 : List UInt8 → Nat) (s : Tracked P) (c : Call P) : Option (Tracked P) :=
  some ⟨(s.downloads.call md4 c).1, s.note c⟩

end Tracked

/-- The download carries what was declared of its file. -/
def Declared.Of (given : Option Declared) (d : Download P) : Prop :=
  given = some ⟨d.sizeBytes, d.root, d.store.path⟩

variable {s : Tracked P}

theorem note_of_active {file : Ed2kHash} {d : Download P}
    (hd : s.downloads.files[file]? = some d) (c : Call P) : s.note c file = s.given file := by
  unfold Tracked.note
  split
  · next =>
    split
    next hnone =>
      refine Function.update_of_ne (fun heq => ?_) _ _
      subst heq
      rw [hd] at hnone
      cases hnone
    · rfl
  · rfl

theorem note_of_start {file : Ed2kHash} (hnone : s.downloads.files[file]? = none)
    (sizeBytes : Nat) (root : Ed2kHash) (path : String) (sources : List P) (playChunk now : Nat)
    (fs : FileSystem) :
    s.note (.start file sizeBytes root path sources playChunk now fs) file =
      some ⟨sizeBytes, root, path⟩ := by
  simp only [Tracked.note, hnone, Option.isNone_none, if_true, Function.update_self]

/-- What the first phase makes of a file is what its `start` declared. -/
theorem declared_of_origin {c : Call P} {file : Ed2kHash} {d' : Download P}
    (h : Origin md4 s.downloads c file d')
    (hs : ∀ d, s.downloads.files[file]? = some d → Declared.Of (s.given file) d) :
    Declared.Of (s.note c file) d' := by
  unfold Declared.Of
  rcases h with ⟨d, hd, hedit⟩ |
    ⟨hnone, size, root, path, sources, play, now, fs, store, rfl, hopen, hidle⟩
  · rw [note_of_active hd, hedit.kept.sizeBytes, hedit.kept.root, hedit.path_eq]
    exact hs d hd
  · obtain ⟨_, _, rfl, _⟩ := ChunkStore.openFile_cases hopen
    rw [note_of_start hnone, hidle.sizeBytes, hidle.root, hidle.store]
    rfl

/-- Every download is trusted, and is of the size, root and path its `start` declared. -/
def Tracked.Inv (md4 : List UInt8 → Nat) (s : Tracked P) : Prop :=
  ∀ file d, s.downloads.files[file]? = some d → d.Trusted md4 ∧ Declared.Of (s.given file) d

theorem Tracked.Inv.step {c : Call P} (h : s.Inv md4) (hc : Sized c) :
    Tracked.Inv md4 ⟨(s.downloads.call md4 c).1, s.note c⟩ := by
  intro file d' hd'
  obtain ⟨d₁, horigin, hgrown⟩ := call_origin hd'
  have hdeclared := declared_of_origin horigin fun d hd => (h file d hd).2
  refine ⟨(horigin.trusted (fun d hd => (h file d hd).1) hc).grown hgrown, ?_⟩
  unfold Declared.Of
  rw [hgrown.sizeBytes, hgrown.root, hgrown.store]
  exact hdeclared

/-- A digest that tells only whether there are more than 16 bytes. -/
def coarse (bytes : List UInt8) : Nat := if (bytes.drop 16).isEmpty then 0 else 1

/-- Start a file of `sizeBytes` zeros that is found on disk, its root being 0. -/
def resume (sizeBytes : Nat) : Call Nat :=
  .start 7 sizeBytes 0 "f" [1] 0 0 ⟨some (.zeroed sizeBytes), true, none⟩

/-- The manager after that call, which finds no download of the file. -/
def resumed (sizeBytes : Nat) : Tracked Nat :=
  let s : Tracked Nat := .new ⟨1, 1, 30000, 5000⟩
  ⟨(s.downloads.call coarse (resume sizeBytes)).1, s.note (resume sizeBytes)⟩

end Downloads

end DessPlay.Transfer
