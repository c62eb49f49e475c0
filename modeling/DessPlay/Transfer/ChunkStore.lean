/-
  DessPlay.Transfer.ChunkStore
  **ON-DISK ASSEMBLY OF A DOWNLOADED FILE** (`dessplay/src/chunkstore.rs`).

  Two sets track progress: `written` chunks have bytes on disk, `verified` blocks
  have the right MD4.  A block is checked once all of its chunks are written; a
  mismatch clears them for another fetch.

  The store stays SOUND: a verified block is fully written and its bytes on disk
  have the listed hash.  Chunks are only written while unwritten, so no write can
  reach a verified block.
-/
import DessPlay.Transfer.Geometry

namespace DessPlay.Transfer

open DessPlay.Core List

/-- A partially downloaded file on disk.  `writes` logs the chunks written to, the newest
first; the program does not keep it. -/
structure ChunkStore where
  writes : List Nat
  disk : Disk
  path : String
  sizeBytes : Nat
  chunks : Nat
  blocks : Nat
  written : Bitfield
  verified : List Bool

/-- What `write_all` did: everything, or an error after some bytes. -/
inductive WriteOutcome where
  | done
  | failed (wrote : Nat)

/-- What the file system answers to opening a download's path: the file there, whether its
`metadata` can be read, and the error of creating one. -/
structure FileSystem where
  existing : Option Disk
  metadataOk : Bool
  createError : Option String

/-- `metadata().map(|m| m.len()).unwrap_or(0)`. -/
def FileSystem.reportedLen (fs : FileSystem) (disk : Disk) : Nat :=
  if fs.metadataOk then disk.len else 0

namespace ChunkStore

/-! ## §1. The operations. -/

def withFile (disk : Disk) (path : String) (sizeBytes : Nat) (allWritten : Bool) : ChunkStore where
  disk := disk
  path := path
  sizeBytes := sizeBytes
  chunks := chunkCount sizeBytes
  blocks := blockCount sizeBytes
  written :=
    if allWritten then
      (range' 0 (chunkCount sizeBytes)).foldl Bitfield.set (.new (chunkCount sizeBytes))
    else .new (chunkCount sizeBytes)
  verified := replicate (blockCount sizeBytes) false
  writes := []

def create (fs : FileSystem) (path : String) (sizeBytes : Nat) : Except String ChunkStore :=
  match fs.createError with
  | some e => .error e
  | none => .ok (withFile (.zeroed sizeBytes) path sizeBytes false)

/-- `ChunkStore::open`: a file of the right size is resumed, with every chunk taken as
written; anything else is replaced by a fresh one. -/
def openFile (fs : FileSystem) (path : String) (sizeBytes : Nat) : Except String ChunkStore :=
  match fs.existing with
  | some disk =>
    if fs.reportedLen disk = sizeBytes then
      .ok (withFile disk path sizeBytes true)
    else create fs path sizeBytes
  | none => create fs path sizeBytes

def isWritten (s : ChunkStore) (index : Nat) : Bool := s.written.get index

/-- Whether block `b` is trusted. -/
def isVerified (s : ChunkStore) (b : Nat) : Bool := s.verified.getD b false

def blockHashesMatch (md4 : List UInt8 → Nat) (s : ChunkStore) (root : Ed2kHash)
    (hashes : List Ed2kBlockHash) : Bool :=
  asU32 hashes.length == s.blocks && rootFromBlocks md4 hashes s.sizeBytes == root

/-- Write a chunk's bytes at its offset and mark it present; whether that went well. -/
def writeChunk (s : ChunkStore) (index : Nat) (data : List UInt8) (outcome : WriteOutcome) :
    ChunkStore × Bool :=
  if s.chunks ≤ index ∨ data.length ≠ chunkEnd index s.sizeBytes - chunkStart index then
    (s, false)
  else
    match outcome with
    | .failed wrote =>
      ({ s with
          disk := s.disk.write (chunkStart index) (data.take wrote)
          writes := index :: s.writes }, false)
    | .done =>
      ({ s with
          disk := s.disk.write (chunkStart index) data
          written := s.written.set index
          writes := index :: s.writes }, true)

/-- The bytes of block `b`. -/
def blockBytes (s : ChunkStore) (b : Nat) : List UInt8 :=
  s.disk.read (blockStart b) (blockEnd b s.sizeBytes)

/-- Every chunk of block `b` is written. -/
def isFull (s : ChunkStore) (b : Nat) : Bool := (chunksInBlock b s.chunks).all s.isWritten

def checkBlock (md4 : List UInt8 → Nat) (hashes : List Ed2kBlockHash) (s : ChunkStore) (b : Nat) :
    ChunkStore :=
  if hashes[b]? = some (md4 (s.blockBytes b)) then { s with verified := s.verified.set b true }
  else { s with written := (chunksInBlock b s.chunks).foldl Bitfield.unset s.written }

/-- The loop of `verify`; a read error ends it. -/
def verifyBlocks (md4 : List UInt8 → Nat) (hashes : List Ed2kBlockHash) (readable : Nat → Bool) :
    List Nat → ChunkStore → ChunkStore
  | [], s => s
  | b :: bs, s =>
    if s.isVerified b then verifyBlocks md4 hashes readable bs s
    else if !s.isFull b then verifyBlocks md4 hashes readable bs s
    else if !readable b then s
    else verifyBlocks md4 hashes readable bs (s.checkBlock md4 hashes b)

def verify (md4 : List UInt8 → Nat) (s : ChunkStore) (hashes : List Ed2kBlockHash)
    (readable : Nat → Bool) : ChunkStore :=
  verifyBlocks md4 hashes readable (range' 0 s.blocks) s

def isComplete (s : ChunkStore) : Bool := decide (0 < s.blocks) && s.verified.all id

def progressBps (s : ChunkStore) : Nat :=
  if s.blocks = 0 then 10000
  else
    let verified := (((range' 0 s.blocks).filter s.isVerified).map fun b =>
      blockEnd b s.sizeBytes - blockStart b).sum
    min (verified * 10000) (2 ^ 64 - 1) / max s.sizeBytes 1 % 2 ^ 16

def neededChunks (s : ChunkStore) : List Nat :=
  (range' 0 s.chunks).filter fun i => !s.isWritten i && !s.isVerified (blockOfChunk i)

def PLAYABLE_WINDOW_FRAC : Nat := 5

/-- Saturating `u32` addition. -/
def satU32 (n : Nat) : Nat := min n (2 ^ 32 - 1)

def playableFrom (s : ChunkStore) (playChunk : Nat) : Bool :=
  let window := s.chunks / PLAYABLE_WINDOW_FRAC + 1
  let start := min playChunk s.chunks
  let stop := min (satU32 (playChunk + window)) s.chunks
  (range' start (stop - start)).all fun i => s.isVerified (blockOfChunk i)

/-! ## §2. What one check changes. -/

section Check

variable (md4 : List UInt8 → Nat) (hashes : List Ed2kBlockHash) (s : ChunkStore) (b : Nat)

/-- Block `b` has the hash listed for it. -/
def Matches : Prop := hashes[b]? = some (md4 (s.blockBytes b))

instance : Decidable (s.Matches md4 hashes b) :=
  inferInstanceAs (Decidable (hashes[b]? = some (md4 (s.blockBytes b))))

/-- The parts of a store that `verify` only reads. -/
def SameFile (s s' : ChunkStore) : Prop :=
  s'.disk = s.disk ∧ s'.path = s.path ∧ s'.sizeBytes = s.sizeBytes ∧ s'.chunks = s.chunks ∧
    s'.blocks = s.blocks ∧ s'.writes = s.writes

theorem SameFile.refl (s : ChunkStore) : s.SameFile s := ⟨rfl, rfl, rfl, rfl, rfl, rfl⟩

theorem SameFile.trans {s s' s'' : ChunkStore} (h : s.SameFile s') (h' : s'.SameFile s'') :
    s.SameFile s'' := by
  obtain ⟨h₁, h₂, h₃, h₄, h₅, h₆⟩ := h
  obtain ⟨h₁', h₂', h₃', h₄', h₅', h₆'⟩ := h'
  exact ⟨h₁'.trans h₁, h₂'.trans h₂, h₃'.trans h₃, h₄'.trans h₄, h₅'.trans h₅, h₆'.trans h₆⟩

theorem SameFile.blockBytes {s s' : ChunkStore} (h : s.SameFile s') (b : Nat) :
    s'.blockBytes b = s.blockBytes b := by
  unfold ChunkStore.blockBytes
  rw [h.1, h.2.2.1]

theorem sameFile_checkBlock : s.SameFile (s.checkBlock md4 hashes b) := by
  unfold checkBlock
  split <;> exact SameFile.refl s

variable {md4 hashes s b}

theorem checkBlock_of_matches (h : s.Matches md4 hashes b) :
    s.checkBlock md4 hashes b = { s with verified := s.verified.set b true } :=
  if_pos h

theorem checkBlock_of_not_matches (h : ¬ s.Matches md4 hashes b) :
    s.checkBlock md4 hashes b =
      { s with written := (chunksInBlock b s.chunks).foldl Bitfield.unset s.written } :=
  if_neg h

end Check

theorem fits_foldl_unset {bf : Bitfield} (h : bf.Fits) (cs : List Nat) :
    (cs.foldl Bitfield.unset bf).Fits ∧ (cs.foldl Bitfield.unset bf).len = bf.len := by
  induction cs generalizing bf with
  | nil => exact ⟨h, rfl⟩
  | cons c cs ih =>
    obtain ⟨hfits, hlen⟩ := ih (h.unset c)
    exact ⟨hfits, hlen.trans (Bitfield.len_unset bf c)⟩

theorem get_foldl_unset {bf : Bitfield} (h : bf.Fits) (cs : List Nat) (c : Nat) :
    (cs.foldl Bitfield.unset bf).get c = (bf.get c && decide (c ∉ cs)) := by
  induction cs generalizing bf with
  | nil => simp
  | cons d cs ih =>
    rw [foldl_cons, ih (h.unset d), Bitfield.get_unset h]
    by_cases hdc : d = c
    · simp [hdc]
    · simp [hdc, Ne.symm hdc]

theorem fits_foldl_set {bf : Bitfield} (h : bf.Fits) (cs : List Nat) :
    (cs.foldl Bitfield.set bf).Fits ∧ (cs.foldl Bitfield.set bf).len = bf.len := by
  induction cs generalizing bf with
  | nil => exact ⟨h, rfl⟩
  | cons c cs ih =>
    obtain ⟨hfits, hlen⟩ := ih (h.set c)
    exact ⟨hfits, hlen.trans (Bitfield.len_set bf c)⟩

/-- The bookkeeping fits the file, and verified blocks are full. -/
structure WellFormed (s : ChunkStore) : Prop where
  chunks_eq : s.chunks = chunkCount s.sizeBytes
  blocks_eq : s.blocks = blockCount s.sizeBytes
  fits : s.written.Fits
  written_len : s.written.len = s.chunks
  verified_len : s.verified.length = s.blocks
  full_of_verified : ∀ b, s.isVerified b = true → s.isFull b = true

variable {s : ChunkStore} {b c index : Nat}

theorem isFull_iff :
    s.isFull b = true ↔ ∀ c, blockOfChunk c = b → c < s.chunks → s.isWritten c = true := by
  unfold isFull
  rw [all_eq_true]
  constructor
  · intro h c hc hlt
    exact h c (mem_chunksInBlock.mpr ⟨hc, hlt⟩)
  · intro h c hc
    obtain ⟨hb, hlt⟩ := mem_chunksInBlock.mp hc
    exact h c hb hlt

theorem lt_chunks_of_isWritten (h : s.WellFormed) (hc : s.isWritten c = true) : c < s.chunks := by
  by_contra hge
  have hnot : s.written.get c = false :=
    Bitfield.get_of_len_le (by rw [h.written_len]; exact not_lt.mp hge)
  rw [isWritten, hnot] at hc
  cases hc

theorem mem_neededChunks :
    c ∈ s.neededChunks ↔
      c < s.chunks ∧ s.isWritten c = false ∧ s.isVerified (blockOfChunk c) = false := by
  unfold neededChunks
  rw [mem_filter, mem_range'_1]
  simp

theorem mem_neededChunks_iff (h : s.WellFormed) :
    c ∈ s.neededChunks ↔ c < s.chunks ∧ s.isWritten c = false := by
  rw [mem_neededChunks]
  refine ⟨fun ⟨hlt, hw, _⟩ => ⟨hlt, hw⟩, fun ⟨hlt, hw⟩ => ⟨hlt, hw, ?_⟩⟩
  by_contra hv
  have hfull := isFull_iff.mp (h.full_of_verified _ (Bool.eq_true_of_not_eq_false hv)) c rfl hlt
  rw [hw] at hfull
  cases hfull

theorem nodup_neededChunks (s : ChunkStore) : s.neededChunks.Nodup :=
  Nodup.filter _ nodup_range'

section CheckedBlock

variable {md4 : List UInt8 → Nat} {hashes : List Ed2kBlockHash} {s : ChunkStore} {b : Nat}

theorem isVerified_checkBlock (h : s.WellFormed) (hb : b < s.blocks) (b' : Nat) :
    (s.checkBlock md4 hashes b).isVerified b' =
      (s.isVerified b' || decide (b' = b ∧ s.Matches md4 hashes b)) := by
  by_cases hm : s.Matches md4 hashes b
  · rw [checkBlock_of_matches hm]
    show (s.verified.set b true).getD b' false = _
    rw [getD_eq_getElem?_getD, getElem?_set]
    by_cases hbb : b = b'
    · subst hbb
      rw [if_pos rfl, if_pos (by rw [h.verified_len]; exact hb)]
      simp [hm]
    · rw [if_neg hbb]
      simp [isVerified, Ne.symm hbb, getD_eq_getElem?_getD]
  · rw [checkBlock_of_not_matches hm]
    simp [isVerified, hm]

theorem isWritten_checkBlock (h : s.WellFormed) (c : Nat) :
    (s.checkBlock md4 hashes b).isWritten c =
      (s.isWritten c && decide (blockOfChunk c = b → s.Matches md4 hashes b)) := by
  by_cases hm : s.Matches md4 hashes b
  · rw [checkBlock_of_matches hm]
    simp [isWritten, hm]
  · rw [checkBlock_of_not_matches hm]
    show ((chunksInBlock b s.chunks).foldl Bitfield.unset s.written).get c = _
    rw [get_foldl_unset h.fits]
    by_cases hw : s.isWritten c = true
    · have hlt := lt_chunks_of_isWritten h hw
      simp only [isWritten] at hw
      simp [isWritten, hw, hm, mem_chunksInBlock, hlt]
    · simp only [isWritten, Bool.not_eq_true] at hw
      simp [isWritten, hw]

theorem WellFormed.checkBlock (h : s.WellFormed) (hb : b < s.blocks) (hnew : s.isVerified b = false)
    (hfull : s.isFull b = true) : (s.checkBlock md4 hashes b).WellFormed := by
  obtain ⟨_, _, hsize, hchunks, hblocks, _⟩ := sameFile_checkBlock md4 hashes s b
  have hbits : (s.checkBlock md4 hashes b).written.Fits ∧
      (s.checkBlock md4 hashes b).written.len = s.chunks := by
    by_cases hm : s.Matches md4 hashes b
    · rw [checkBlock_of_matches hm]
      exact ⟨h.fits, h.written_len⟩
    · rw [checkBlock_of_not_matches hm]
      obtain ⟨hfits, hlen⟩ := fits_foldl_unset h.fits (chunksInBlock b s.chunks)
      exact ⟨hfits, hlen.trans h.written_len⟩
  refine ⟨by rw [hchunks, hsize, h.chunks_eq], by rw [hblocks, hsize, h.blocks_eq], hbits.1,
    by rw [hbits.2, hchunks], ?_, ?_⟩
  · rw [hblocks, ← h.verified_len]
    unfold ChunkStore.checkBlock
    split
    · exact length_set
    · rfl
  · intro b' hb'
    rw [isVerified_checkBlock h hb, Bool.or_eq_true, decide_eq_true_iff] at hb'
    rw [isFull_iff, hchunks]
    intro c hc hlt
    rw [isWritten_checkBlock h, Bool.and_eq_true, decide_eq_true_iff]
    -- a block already verified was full; the checked one is, and stays written on a match
    rcases hb' with hold | ⟨rfl, hm⟩
    · refine ⟨isFull_iff.mp (h.full_of_verified b' hold) c hc hlt, fun hcb => ?_⟩
      rw [← hc, hcb, hnew] at hold
      cases hold
    · exact ⟨isFull_iff.mp hfull c hc hlt, fun _ => hm⟩

end CheckedBlock

/-! ## §3. What a pass of `verify` changes. -/

section Pass

variable {md4 : List UInt8 → Nat} {hashes : List Ed2kBlockHash} {readable : Nat → Bool}

variable {s s' : ChunkStore}

/-- **A pass is a sequence of checks** of full, unverified blocks: what each keeps, the pass
keeps. -/
theorem verify_induct {P : ChunkStore → Prop} (h : P s)
    (hstep : ∀ t b, P t → b < s.blocks → t.isVerified b = false → t.isFull b = true →
      P (t.checkBlock md4 hashes b)) : P (s.verify md4 hashes readable) := by
  have hloop : ∀ (bs : List Nat) (t : ChunkStore), (∀ b ∈ bs, b < s.blocks) → P t →
      P (verifyBlocks md4 hashes readable bs t) := by
    intro bs
    induction bs with
    | nil => exact fun t _ ht => ht
    | cons b bs ih =>
      intro t hbs ht
      have hrest : ∀ b' ∈ bs, b' < s.blocks := fun b' hb' => hbs b' (mem_cons_of_mem b hb')
      unfold verifyBlocks
      split
      · exact ih t hrest ht
      split
      · exact ih t hrest ht
      split
      · exact ht
      next hnew hfull _ =>
        refine ih _ hrest (hstep t b ht (hbs b mem_cons_self) ?_ ?_)
        · exact Bool.eq_false_of_not_eq_true hnew
        · simpa using hfull
  exact hloop _ s (fun b hb => by rw [mem_range'_1] at hb; omega) h

theorem sameFile_verify (s : ChunkStore) : s.SameFile (s.verify md4 hashes readable) :=
  verify_induct (SameFile.refl s) fun t b h _ _ _ => h.trans (sameFile_checkBlock md4 hashes t b)

theorem WellFormed.verify_induct {P : ChunkStore → Prop} (h : s.WellFormed) (h₀ : P s)
    (hstep : ∀ t b, t.WellFormed → s.SameFile t → P t → b < t.blocks → t.isVerified b = false →
      t.isFull b = true → P (t.checkBlock md4 hashes b)) :
    (s.verify md4 hashes readable).WellFormed ∧ P (s.verify md4 hashes readable) := by
  have hpass : s.SameFile (s.verify md4 hashes readable) ∧
      (s.verify md4 hashes readable).WellFormed ∧ P (s.verify md4 hashes readable) := by
    refine ChunkStore.verify_induct (P := fun t => s.SameFile t ∧ t.WellFormed ∧ P t)
      ⟨SameFile.refl s, h, h₀⟩ ?_
    intro t b ⟨hsame, ht, hPt⟩ hb hnew hfull
    have hbt : b < t.blocks := by
      rw [hsame.2.2.2.2.1]
      exact hb
    exact ⟨hsame.trans (sameFile_checkBlock md4 hashes t b), ht.checkBlock hbt hnew hfull,
      hstep t b ht hsame hPt hbt hnew hfull⟩
  exact hpass.2

theorem WellFormed.verify (h : s.WellFormed) : (s.verify md4 hashes readable).WellFormed :=
  (h.verify_induct (P := fun _ => True) trivial fun _ _ _ _ _ _ _ _ => trivial).1

variable {b : Nat}

theorem isWritten_verify (h : s.WellFormed) {c : Nat} (hc : s.isWritten c = false) :
    (s.verify md4 hashes readable).isWritten c = false := by
  refine (h.verify_induct (P := fun t => t.isWritten c = false) hc ?_).2
  intro t b' ht _ hPt _ _ _
  rw [isWritten_checkBlock ht, hPt, Bool.false_and]

/-! Without read errors every block is visited, and only its own visit touches it. -/

/-- Two stores agree on block `b`. -/
structure SameAt (b : Nat) (s s' : ChunkStore) : Prop where
  file : s.SameFile s'
  verified : s'.isVerified b = s.isVerified b
  written : ∀ c, blockOfChunk c = b → s'.isWritten c = s.isWritten c

theorem SameAt.trans {s'' : ChunkStore} (h : SameAt b s s') (h' : SameAt b s' s'') :
    SameAt b s s'' where
  file := h.file.trans h'.file
  verified := h'.verified.trans h.verified
  written c hc := (h'.written c hc).trans (h.written c hc)

theorem SameAt.isFull (h : SameAt b s s') : s'.isFull b = s.isFull b := by
  rw [Bool.eq_iff_iff, isFull_iff, isFull_iff, h.file.2.2.2.1]
  refine forall_congr' fun c => forall_congr' fun hc => ?_
  rw [h.written c hc]

def visit (md4 : List UInt8 → Nat) (hashes : List Ed2kBlockHash) (s : ChunkStore) (b : Nat) :
    ChunkStore :=
  if s.isVerified b = false ∧ s.isFull b = true then s.checkBlock md4 hashes b else s

theorem verifyBlocks_eq_foldl (hread : ∀ b, readable b = true) (bs : List Nat) (s : ChunkStore) :
    verifyBlocks md4 hashes readable bs s = bs.foldl (visit md4 hashes) s := by
  induction bs generalizing s with
  | nil => rfl
  | cons b bs ih =>
    rw [foldl_cons, ← ih]
    unfold visit
    rw [verifyBlocks]
    cases hv : s.isVerified b with
    | true => simp
    | false =>
      cases hf : s.isFull b with
      | true => simp [hread b]
      | false => simp

theorem WellFormed.visit (md4 : List UInt8 → Nat) (hashes : List Ed2kBlockHash) (h : s.WellFormed)
    (hb : b < s.blocks) : (s.visit md4 hashes b).WellFormed := by
  unfold ChunkStore.visit
  split
  next hcond => exact h.checkBlock hb hcond.1 hcond.2
  · exact h

theorem sameAt_visit (h : s.WellFormed) {b' : Nat} (hb' : b' < s.blocks) (hne : b ≠ b') :
    SameAt b s (s.visit md4 hashes b') := by
  unfold visit
  split
  · refine ⟨sameFile_checkBlock md4 hashes s b', ?_, fun c hc => ?_⟩
    · rw [isVerified_checkBlock h hb']
      simp [hne]
    · rw [isWritten_checkBlock h]
      simp [hc, hne]
  · exact ⟨SameFile.refl s, rfl, fun _ _ => rfl⟩

theorem sameAt_foldl_visit (md4 : List UInt8 → Nat) (hashes : List Ed2kBlockHash) (bs : List Nat)
    (h : s.WellFormed) (hbs : ∀ b' ∈ bs, b' < s.blocks ∧ b ≠ b') :
    (bs.foldl (visit md4 hashes) s).WellFormed ∧
      SameAt b s (bs.foldl (visit md4 hashes) s) := by
  induction bs generalizing s with
  | nil => exact ⟨h, SameFile.refl s, rfl, fun _ _ => rfl⟩
  | cons b' bs ih =>
    obtain ⟨hlt, hne⟩ := hbs b' mem_cons_self
    have hat : SameAt b s (s.visit md4 hashes b') := sameAt_visit h hlt hne
    have hrest : ∀ b'' ∈ bs, b'' < (s.visit md4 hashes b').blocks ∧ b ≠ b'' := by
      intro b'' hb''
      rw [hat.file.2.2.2.2.1]
      exact hbs b'' (mem_cons_of_mem b' hb'')
    obtain ⟨hwf, hat'⟩ := ih (h.visit md4 hashes hlt) hrest
    exact ⟨hwf, hat.trans hat'⟩

/-- **The pass, block by block**: a verified or incomplete block stays as it is; a full one
becomes verified if its bytes match and loses all of its chunks if they do not. -/
theorem verify_at (md4 : List UInt8 → Nat) (hashes : List Ed2kBlockHash) (h : s.WellFormed)
    (hread : ∀ b, readable b = true) (hb : b < s.blocks) :
    (s.isVerified b = true ∨ s.isFull b = false → SameAt b s (s.verify md4 hashes readable)) ∧
      (s.isVerified b = false → s.isFull b = true →
        ((s.verify md4 hashes readable).isVerified b = true ↔ s.Matches md4 hashes b) ∧
        (¬ s.Matches md4 hashes b → ∀ c, blockOfChunk c = b →
          (s.verify md4 hashes readable).isWritten c = false)) := by
  have hsplit : range' 0 s.blocks =
      range' 0 b ++ b :: range' (b + 1) (s.blocks - (b + 1)) := by
    have hcount : s.blocks = b + (s.blocks - (b + 1) + 1) := by omega
    conv_lhs => rw [hcount, ← range'_append_1, Nat.zero_add, range'_succ]
  obtain ⟨hwf₁, hat₁⟩ := sameAt_foldl_visit (b := b) md4 hashes (range' 0 b) h
    (fun b' hb' => by rw [mem_range'_1] at hb'; omega)
  set s₁ := (range' 0 b).foldl (visit md4 hashes) s with hs₁
  have hb₁ : b < s₁.blocks := by
    rw [hat₁.file.2.2.2.2.1]
    exact hb
  have hsame : s₁.SameFile (s₁.visit md4 hashes b) := by
    unfold visit
    split
    · exact sameFile_checkBlock md4 hashes s₁ b
    · exact SameFile.refl s₁
  obtain ⟨_, hat₂⟩ := sameAt_foldl_visit (b := b) md4 hashes
    (range' (b + 1) (s.blocks - (b + 1))) (hwf₁.visit md4 hashes hb₁)
    (fun b' hb' => by
      rw [hsame.2.2.2.2.1, hat₁.file.2.2.2.2.1]
      rw [mem_range'_1] at hb'
      omega)
  have hverify : s.verify md4 hashes readable =
      (range' (b + 1) (s.blocks - (b + 1))).foldl (visit md4 hashes)
        (s₁.visit md4 hashes b) := by
    unfold verify
    rw [verifyBlocks_eq_foldl hread, hsplit, foldl_append, foldl_cons]
  rw [← hverify] at hat₂
  have hmatches : s₁.Matches md4 hashes b ↔ s.Matches md4 hashes b := by
    unfold Matches
    rw [hat₁.file.blockBytes]
  constructor
  · intro hkeep
    have hvisit : s₁.visit md4 hashes b = s₁ := by
      refine if_neg fun hcond => ?_
      rw [hat₁.verified, hat₁.isFull] at hcond
      rcases hkeep with hv | hf
      · rw [hv] at hcond
        cases hcond.1
      · rw [hf] at hcond
        cases hcond.2
    rw [hvisit] at hat₂
    exact hat₁.trans hat₂
  · intro hnew hfull
    have hvisit : s₁.visit md4 hashes b = s₁.checkBlock md4 hashes b :=
      if_pos ⟨hat₁.verified.trans hnew, hat₁.isFull.trans hfull⟩
    rw [hvisit] at hat₂
    refine ⟨?_, fun hno c hc => ?_⟩
    · rw [hat₂.verified, isVerified_checkBlock hwf₁ hb₁, hat₁.verified, hnew, ← hmatches]
      simp
    · rw [hat₂.written c hc, isWritten_checkBlock hwf₁]
      simp [hc, hmatches, hno]

end Pass

/-! ## §4. Opening and writing. -/

theorem wellFormed_withFile (disk : Disk) (path : String) (sizeBytes : Nat) (allWritten : Bool) :
    (withFile disk path sizeBytes allWritten).WellFormed := by
  have hbits : (withFile disk path sizeBytes allWritten).written.Fits ∧
      (withFile disk path sizeBytes allWritten).written.len = chunkCount sizeBytes := by
    cases allWritten with
    | false => exact ⟨Bitfield.fits_new _, rfl⟩
    | true => exact fits_foldl_set (Bitfield.fits_new _) _
  refine ⟨rfl, rfl, hbits.1, hbits.2, length_replicate, fun b hb => ?_⟩
  have hnone : (withFile disk path sizeBytes allWritten).isVerified b = false := by
    show (replicate _ false).getD b false = false
    rw [getD_eq_getElem?_getD, getElem?_replicate]
    split <;> rfl
  rw [hnone] at hb
  cases hb

theorem isVerified_withFile (disk : Disk) (path : String) (sizeBytes : Nat) (allWritten : Bool)
    (b : Nat) : (withFile disk path sizeBytes allWritten).isVerified b = false := by
  show (replicate _ false).getD b false = false
  rw [getD_eq_getElem?_getD, getElem?_replicate]
  split <;> rfl

theorem openFile_cases {fs : FileSystem} {path : String} {sizeBytes : Nat}
    (h : openFile fs path sizeBytes = .ok s) :
    ∃ disk allWritten, s = withFile disk path sizeBytes allWritten ∧
      (disk.len = sizeBytes ∨ sizeBytes = 0) := by
  have hcreate : create fs path sizeBytes = .ok s →
      ∃ disk allWritten, s = withFile disk path sizeBytes allWritten ∧
        (disk.len = sizeBytes ∨ sizeBytes = 0) := by
    intro hc
    unfold create at hc
    split at hc
    · cases hc
    · cases hc
      exact ⟨_, _, rfl, .inl rfl⟩
  unfold openFile at h
  split at h
  next disk _ =>
    split at h
    next hlen =>
      cases h
      refine ⟨disk, true, rfl, ?_⟩
      unfold FileSystem.reportedLen at hlen
      split at hlen
      · exact .inl hlen
      · exact .inr hlen.symm
    · exact hcreate h
  · exact hcreate h

def putBytes (s : ChunkStore) (index : Nat) (data : List UInt8) : ChunkStore :=
  { s with disk := s.disk.write (chunkStart index) data, writes := index :: s.writes }

def mark (s : ChunkStore) (index : Nat) : ChunkStore := { s with written := s.written.set index }

theorem writeChunk_cases (s : ChunkStore) (index : Nat) (data : List UInt8)
    (outcome : WriteOutcome) :
    s.writeChunk index data outcome = (s, false) ∨
      index < s.chunks ∧ data.length = chunkEnd index s.sizeBytes - chunkStart index ∧
        ((∃ wrote, s.writeChunk index data outcome =
            (s.putBytes index (data.take wrote), false)) ∨
          s.writeChunk index data outcome = ((s.putBytes index data).mark index, true)) := by
  unfold writeChunk
  split
  · exact .inl rfl
  next hok =>
    rw [not_or, not_le, not_not] at hok
    refine .inr ⟨hok.1, hok.2, ?_⟩
    cases outcome with
    | failed wrote => exact .inl ⟨wrote, rfl⟩
    | done => exact .inr rfl

theorem blockBytes_putBytes {data : List UInt8}
    (hlen : data.length ≤ chunkEnd index s.sizeBytes - chunkStart index)
    (hne : blockOfChunk index ≠ b) : (s.putBytes index data).blockBytes b = s.blockBytes b := by
  unfold blockBytes putBytes
  refine Disk.read_congr fun i hlow hhigh => Disk.bytes_write_of_outside ?_
  by_contra hin
  obtain ⟨hstart, hend⟩ := chunk_within_block index s.sizeBytes
  -- a byte of the chunk lies in the chunk's block, hence not in `b`
  have hchunk := @block_of_byte (blockOfChunk index) s.sizeBytes i (by omega) (by omega)
  exact hne (hchunk.symm.trans (block_of_byte hlow hhigh))

theorem WellFormed.putBytes (h : s.WellFormed) (index : Nat) (data : List UInt8) :
    (s.putBytes index data).WellFormed :=
  { h with }

theorem isWritten_mark (h : s.WellFormed) (hlt : index < s.chunks) (c : Nat) :
    (s.mark index).isWritten c = (s.isWritten c || decide (index = c)) := by
  unfold isWritten mark
  rw [Bitfield.get_set h.fits, h.written_len]
  simp [hlt]

theorem WellFormed.mark (h : s.WellFormed) (hlt : index < s.chunks) :
    (s.mark index).WellFormed := by
  refine ⟨h.chunks_eq, h.blocks_eq, h.fits.set index,
    (Bitfield.len_set _ _).trans h.written_len, h.verified_len, fun b hb => ?_⟩
  rw [isFull_iff]
  intro c hc hlt'
  rw [isWritten_mark h hlt, isFull_iff.mp (h.full_of_verified b hb) c hc hlt', Bool.true_or]

theorem WellFormed.writeChunk (h : s.WellFormed) (index : Nat) (data : List UInt8)
    (outcome : WriteOutcome) : (s.writeChunk index data outcome).1.WellFormed := by
  rcases writeChunk_cases s index data outcome with heq | ⟨hlt, _, ⟨wrote, heq⟩ | heq⟩
  · rw [heq]
    exact h
  · rw [heq]
    exact h.putBytes index _
  · rw [heq]
    exact (h.putBytes index data).mark hlt

/-! ## §5. Soundness of the verified blocks. -/

/-- Verified blocks have the bytes of the trusted hash list, and the file its size. -/
structure Sound (md4 : List UInt8 → Nat) (hashes : Option (List Ed2kBlockHash))
    (s : ChunkStore) : Prop extends s.WellFormed where
  matches_of_verified : ∀ b, s.isVerified b = true → ∃ hs, hashes = some hs ∧ s.Matches md4 hs b
  disk_len : s.disk.len = s.sizeBytes ∨ s.sizeBytes = 0

section Soundness

variable {md4 : List UInt8 → Nat} {hashes : Option (List Ed2kBlockHash)} {s : ChunkStore}

theorem sound_openFile (md4 : List UInt8 → Nat) {fs : FileSystem} {path : String} {sizeBytes : Nat}
    (h : openFile fs path sizeBytes = .ok s) : s.Sound md4 none ∧ s.sizeBytes = sizeBytes := by
  obtain ⟨disk, allWritten, rfl, hlen⟩ := openFile_cases h
  refine ⟨⟨wellFormed_withFile disk path sizeBytes allWritten, fun b hb => ?_, hlen⟩, rfl⟩
  rw [isVerified_withFile] at hb
  cases hb

theorem Sound.trust (h : s.Sound md4 none) (hs : List Ed2kBlockHash) : s.Sound md4 (some hs) := by
  refine ⟨h.toWellFormed, fun b hb => ?_, h.disk_len⟩
  obtain ⟨_, hnone, _⟩ := h.matches_of_verified b hb
  cases hnone

theorem Sound.verify {hs : List Ed2kBlockHash} (h : s.Sound md4 (some hs)) (readable : Nat → Bool) :
    (s.verify md4 hs readable).Sound md4 (some hs) := by
  have hsame : s.SameFile (s.verify md4 hs readable) := sameFile_verify s
  have hpass : (s.verify md4 hs readable).WellFormed ∧ ∀ b,
      (s.verify md4 hs readable).isVerified b = true →
        (s.verify md4 hs readable).Matches md4 hs b := by
    refine h.toWellFormed.verify_induct
      (P := fun t => ∀ b, t.isVerified b = true → t.Matches md4 hs b) ?_ ?_
    · intro b hb
      obtain ⟨hs', heq, hm⟩ := h.matches_of_verified b hb
      cases heq
      exact hm
    · intro t b ht _ hPt hb _ _ b' hb'
      rw [isVerified_checkBlock ht hb, Bool.or_eq_true, decide_eq_true_iff] at hb'
      unfold Matches
      rw [(sameFile_checkBlock md4 hs t b).blockBytes]
      rcases hb' with hold | ⟨rfl, hm⟩
      · exact hPt b' hold
      · exact hm
  refine ⟨hpass.1, fun b hb => ⟨hs, rfl, hpass.2 b hb⟩, ?_⟩
  rw [hsame.1, hsame.2.2.1]
  exact h.disk_len

theorem WellFormed.block_ne_of_not_written (h : s.WellFormed) {index b : Nat}
    (hlt : index < s.chunks) (hnew : s.isWritten index = false) (hb : s.isVerified b = true) :
    blockOfChunk index ≠ b := by
  rintro rfl
  have hfull := isFull_iff.mp (h.full_of_verified _ hb) index rfl hlt
  rw [hnew] at hfull
  cases hfull

theorem Sound.putBytes (h : s.Sound md4 hashes) {index : Nat} {data : List UInt8}
    (hlt : index < s.chunks) (hnew : s.isWritten index = false)
    (hlen : data.length ≤ chunkEnd index s.sizeBytes - chunkStart index) :
    (s.putBytes index data).Sound md4 hashes := by
  refine ⟨h.toWellFormed.putBytes index data, fun b hb => ?_, ?_⟩
  · obtain ⟨hs, heq, hm⟩ := h.matches_of_verified b hb
    refine ⟨hs, heq, ?_⟩
    unfold Matches
    rw [blockBytes_putBytes hlen (h.toWellFormed.block_ne_of_not_written hlt hnew hb)]
    exact hm
  · refine h.disk_len.imp_left fun hdisk => ?_
    have hstart : chunkStart index < s.sizeBytes :=
      chunkStart_lt (by rw [← h.chunks_eq]; exact hlt)
    have hend : chunkEnd index s.sizeBytes ≤ s.sizeBytes := min_le_right _ _
    show max s.disk.len (chunkStart index + data.length) = s.sizeBytes
    omega

theorem Sound.writeChunk (h : s.Sound md4 hashes) {index : Nat} (hnew : s.isWritten index = false)
    (data : List UInt8) (outcome : WriteOutcome) :
    (s.writeChunk index data outcome).1.Sound md4 hashes := by
  rcases writeChunk_cases s index data outcome with heq | ⟨hlt, hlen, ⟨wrote, heq⟩ | heq⟩
  · rw [heq]
    exact h
  · rw [heq]
    refine h.putBytes hlt hnew ?_
    rw [← hlen]
    exact length_take_le' wrote data
  · rw [heq]
    have hput : (s.putBytes index data).Sound md4 hashes := h.putBytes hlt hnew (le_of_eq hlen)
    exact ⟨hput.toWellFormed.mark hlt, hput.matches_of_verified, hput.disk_len⟩

end Soundness

end ChunkStore

end DessPlay.Transfer
