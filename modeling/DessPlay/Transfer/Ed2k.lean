/-
  DessPlay.Transfer.Ed2k
  **THE STREAMING ED2K HASH** (`ed2k_hash_reader` and `root_from_blocks` in
  `dessplay-core/src/hash.rs`).

  The reader hands out the bytes in any pieces, and a piece may end one block and begin the
  next.  A hasher is the list of the bytes it was updated with, so its digest is that of their
  concatenation.  After any reads the state is a function of the bytes (`Hashed`): the full
  blocks' hashes, and the bytes behind the last block boundary.

  What the hash is FOR is said apart from the code (`redRoot`): the "red" variant cuts a file
  into full blocks and one LAST block of what remains, which may be empty.
-/
import DessPlay.Transfer.Geometry

namespace DessPlay.Transfer

open DessPlay.Core List

section Reader

variable (md4 : List UInt8 → Nat)

/-- The locals of `ed2k_hash_reader`. -/
structure Hashing where
  blocks : List Ed2kBlockHash
  blockHasher : List UInt8
  blockLen : Nat
  sizeBytes : Nat

structure Ed2kFileHash where
  root : Ed2kHash
  blocks : List Ed2kBlockHash
  sizeBytes : Nat

namespace Hashing

def start : Hashing := ⟨[], [], 0, 0⟩

/-- One turn of the inner loop: `head` fits into the block. -/
def update (s : Hashing) (head : List UInt8) : Hashing :=
  let s := { s with blockHasher := s.blockHasher ++ head, blockLen := s.blockLen + head.length }
  if s.blockLen = ED2K_BLOCK_SIZE then
    { s with blocks := s.blocks ++ [md4 s.blockHasher], blockHasher := [], blockLen := 0 }
  else s

/-- The inner loop; a turn takes at least one byte of `rest`. -/
def absorb : Nat → List UInt8 → Hashing → Hashing
  | 0, _, s => s
  | turns + 1, rest, s =>
    if rest = [] then s
    else
      let take := min rest.length (ED2K_BLOCK_SIZE - s.blockLen)
      absorb turns (rest.drop take) (s.update md4 (rest.take take))

def readAll : List (List UInt8) → Hashing → Hashing
  | [], s => s
  | buf :: reads, s =>
    if buf = [] then s
    else readAll reads (absorb md4 buf.length buf { s with sizeBytes := s.sizeBytes + buf.length })

end Hashing

def ed2kHashReader (reads : List (List UInt8)) : Ed2kFileHash :=
  let s := Hashing.readAll md4 reads .start
  let blocks := if 0 < s.blockLen ∨ s.blocks = [] then s.blocks ++ [md4 s.blockHasher] else s.blocks
  ⟨rootFromBlocks md4 blocks s.sizeBytes, blocks, s.sizeBytes⟩

end Reader

def Disk.ofBytes (data : List UInt8) : Disk := ⟨fun i => data.getD i 0, data.length⟩

/-! ## §1. What a hasher knows of the bytes so far. -/

variable {md4 : List UInt8 → Nat} {data head : List UInt8} {s : Hashing}

/-- Block `b` of a file. -/
def block (data : List UInt8) (b : Nat) : List UInt8 :=
  (data.drop (b * ED2K_BLOCK_SIZE)).take ED2K_BLOCK_SIZE

/-- The hashes of the full blocks and of the last one, which is empty when nothing remains. -/
def redHashes (md4 : List UInt8 → Nat) (data : List UInt8) : List Ed2kBlockHash :=
  (range (data.length / ED2K_BLOCK_SIZE + 1)).map fun b => md4 (block data b)

/-- The root of the red variant: a single hash stands for itself, several are hashed together. -/
def redRoot (md4 : List UInt8 → Nat) (data : List UInt8) : Ed2kHash :=
  match redHashes md4 data with
  | [single] => single
  | all => md4 (all.flatMap digestBytes)

/-- The bytes that `root_from_blocks` hashes, unless there is a single short block. -/
def rootInput (md4 : List UInt8 → Nat) (blocks : List Ed2kBlockHash) (sizeBytes : Nat) :
    List UInt8 :=
  blocks.flatMap digestBytes ++ if sizeBytes % ED2K_BLOCK_SIZE = 0 then digestBytes (md4 []) else []

theorem read_ofBytes (data : List UInt8) (b : Nat) :
    (Disk.ofBytes data).read (blockStart b) (blockEnd b data.length) = block data b := by
  apply ext_getElem
  · simp only [Disk.length_read, block, length_take, length_drop, blockEnd, blockStart]
    omega
  · intro i _ hi
    simp only [block, length_take, length_drop] at hi
    simp only [Disk.read, Disk.ofBytes, block, blockStart, getElem_map, getElem_range',
      getElem_take, getElem_drop]
    rw [getD_eq_getElem _ _ (by omega)]
    simp

/-- The state when `data` has been read. -/
structure Hashed (md4 : List UInt8 → Nat) (data : List UInt8) (s : Hashing) : Prop where
  blockLen : s.blockLen = data.length % ED2K_BLOCK_SIZE
  blockHasher : s.blockHasher = data.drop (data.length / ED2K_BLOCK_SIZE * ED2K_BLOCK_SIZE)
  blocks : s.blocks = (range (data.length / ED2K_BLOCK_SIZE)).map fun b => md4 (block data b)

theorem blocks_append (data head : List UInt8) :
    (range (data.length / ED2K_BLOCK_SIZE)).map (fun b => md4 (block (data ++ head) b)) =
      (range (data.length / ED2K_BLOCK_SIZE)).map fun b => md4 (block data b) := by
  refine map_congr_left fun b hb => congrArg md4 ?_
  have hfull : b < data.length / ED2K_BLOCK_SIZE := mem_range.mp hb
  have hend : b * ED2K_BLOCK_SIZE + ED2K_BLOCK_SIZE ≤ data.length := by
    unfold ED2K_BLOCK_SIZE at *
    omega
  unfold block
  rw [drop_append_of_le_length (by omega),
    take_append_of_le_length (by rw [length_drop]; omega)]

theorem Hashed.update (h : Hashed md4 data s) (hfits : head.length ≤ ED2K_BLOCK_SIZE - s.blockLen) :
    Hashed md4 (data ++ head) (s.update md4 head) := by
  have hlen := h.blockLen
  have hdrop : s.blockHasher ++ head =
      (data ++ head).drop (data.length / ED2K_BLOCK_SIZE * ED2K_BLOCK_SIZE) := by
    rw [h.blockHasher, drop_append_of_le_length (Nat.div_mul_le_self _ _)]
  have hblocks := @blocks_append md4 data head
  have hold := h.blocks
  have htotal : (data ++ head).length = data.length + head.length := length_append
  unfold Hashing.update
  simp only
  split
  next hfull =>
    -- the piece ends the block
    have hq : (data ++ head).length / ED2K_BLOCK_SIZE = data.length / ED2K_BLOCK_SIZE + 1 := by
      unfold ED2K_BLOCK_SIZE at *
      omega
    have hlast : ((data ++ head).drop (data.length / ED2K_BLOCK_SIZE * ED2K_BLOCK_SIZE)).length ≤
        ED2K_BLOCK_SIZE := by
      rw [length_drop]
      unfold ED2K_BLOCK_SIZE at *
      omega
    refine ⟨?_, ?_, ?_⟩
    · show 0 = (data ++ head).length % ED2K_BLOCK_SIZE
      unfold ED2K_BLOCK_SIZE at *
      omega
    · refine (drop_of_length_le ?_).symm
      unfold ED2K_BLOCK_SIZE at *
      omega
    · rw [hq, range_succ, map_append, map_singleton, hblocks, hold, hdrop, block,
        take_of_length_le hlast]
  next hopen =>
    have hq : (data ++ head).length / ED2K_BLOCK_SIZE = data.length / ED2K_BLOCK_SIZE := by
      unfold ED2K_BLOCK_SIZE at *
      omega
    refine ⟨?_, ?_, ?_⟩
    · show s.blockLen + head.length = (data ++ head).length % ED2K_BLOCK_SIZE
      unfold ED2K_BLOCK_SIZE at *
      omega
    · rw [hq, hdrop]
    · rw [hq, hblocks, hold]

theorem sizeBytes_absorb (turns : Nat) (rest : List UInt8) (s : Hashing) :
    (Hashing.absorb md4 turns rest s).sizeBytes = s.sizeBytes := by
  induction turns generalizing rest s with
  | zero => rfl
  | succ turns ih =>
    unfold Hashing.absorb
    split
    · rfl
    · rw [ih, Hashing.update]
      split <;> rfl

theorem Hashed.absorb (turns : Nat) {rest : List UInt8} (hturns : rest.length ≤ turns)
    (h : Hashed md4 data s) : Hashed md4 (data ++ rest) (Hashing.absorb md4 turns rest s) := by
  induction turns generalizing data s rest with
  | zero =>
    rw [length_eq_zero_iff.mp (Nat.le_zero.mp hturns), append_nil]
    exact h
  | succ turns ih =>
    unfold Hashing.absorb
    split
    next hnil =>
      rw [hnil, append_nil]
      exact h
    next hne =>
      set take := min rest.length (ED2K_BLOCK_SIZE - s.blockLen) with htake
      have hpos : 0 < take := by
        have hlen := h.blockLen
        have hrest := length_pos_iff.mpr hne
        unfold ED2K_BLOCK_SIZE at *
        omega
      have hhead : (rest.take take).length ≤ ED2K_BLOCK_SIZE - s.blockLen := by
        rw [length_take]
        omega
      have htail : (rest.drop take).length ≤ turns := by
        rw [length_drop]
        omega
      have hnext := ih htail (h.update hhead)
      rwa [append_assoc, take_append_drop] at hnext

theorem Hashed.readAll {reads : List (List UInt8)} (hreads : ∀ buf ∈ reads, buf ≠ [])
    (h : Hashed md4 data s) (hsize : s.sizeBytes = data.length) :
    Hashed md4 (data ++ reads.flatten) (Hashing.readAll md4 reads s) ∧
      (Hashing.readAll md4 reads s).sizeBytes = (data ++ reads.flatten).length := by
  induction reads generalizing data s with
  | nil => rw [flatten_nil, append_nil]; exact ⟨h, hsize⟩
  | cons buf reads ih =>
    obtain ⟨hbuf, hreads⟩ := forall_mem_cons.mp hreads
    rw [Hashing.readAll, if_neg hbuf, flatten_cons, ← append_assoc]
    have hstart : Hashed md4 data { s with sizeBytes := s.sizeBytes + buf.length } :=
      ⟨h.blockLen, h.blockHasher, h.blocks⟩
    refine ih hreads (hstart.absorb buf.length le_rfl) ?_
    rw [sizeBytes_absorb, hsize, length_append]

/-! ## §2. Digests as bytes. -/

theorem length_digestBytes (h : Nat) : (digestBytes h).length = 16 := by
  simp [digestBytes]

theorem mod_pow_eq {a b n : Nat} (h : ∀ k < n, a / 256 ^ k % 256 = b / 256 ^ k % 256) :
    a % 256 ^ n = b % 256 ^ n := by
  induction n with
  | zero => rw [pow_zero, Nat.mod_one, Nat.mod_one]
  | succ n ih =>
    rw [Nat.mod_pow_succ, Nat.mod_pow_succ, ih fun k hk => h k (by omega), h n (by omega)]

theorem digestBytes_injOn {a b : Nat} (ha : a < 2 ^ 128) (hb : b < 2 ^ 128)
    (h : digestBytes a = digestBytes b) : a = b := by
  have hpow : (256 ^ 16 : Nat) = 2 ^ 128 := by norm_num
  suffices hmod : a % 256 ^ 16 = b % 256 ^ 16 by
    rwa [hpow, Nat.mod_eq_of_lt ha, Nat.mod_eq_of_lt hb] at hmod
  refine mod_pow_eq fun k hk => ?_
  have hbyte := congrArg (·[15 - k]?) h
  simp only [digestBytes, getElem?_map, getElem?_range' (show 15 - k < 16 by omega),
    Option.map_some, Option.some.injEq] at hbyte
  have hk' : 15 - (0 + 1 * (15 - k)) = k := by omega
  rw [hk'] at hbyte
  simpa using congrArg UInt8.toNat hbyte

theorem flatMap_digestBytes_injOn {l l' : List Nat} (hlen : l.length = l'.length)
    (hl : ∀ h ∈ l, h < 2 ^ 128) (hl' : ∀ h ∈ l', h < 2 ^ 128)
    (h : l.flatMap digestBytes = l'.flatMap digestBytes) : l = l' := by
  induction l generalizing l' with
  | nil => exact (length_eq_zero_iff.mp hlen.symm).symm
  | cons a l ih =>
    match l' with
    | b :: l' =>
      rw [flatMap_cons, flatMap_cons] at h
      obtain ⟨hhead, htail⟩ :=
        append_inj h ((length_digestBytes a).trans (length_digestBytes b).symm)
      obtain ⟨ha, hl⟩ := forall_mem_cons.mp hl
      obtain ⟨hb, hl'⟩ := forall_mem_cons.mp hl'
      rw [digestBytes_injOn ha hb hhead, ih (Nat.succ.inj hlen) hl hl' htail]

/-- Two lists of as many blocks with one root: `root_from_blocks` hashed two different inputs to
it. -/
theorem collision_of_root_eq {blocks blocks' : List Ed2kBlockHash} {sizeBytes : Nat}
    (hlen : blocks.length = blocks'.length) (hne : blocks ≠ blocks')
    (hblocks : ∀ h ∈ blocks, h < 2 ^ 128) (hblocks' : ∀ h ∈ blocks', h < 2 ^ 128)
    (h : rootFromBlocks md4 blocks sizeBytes = rootFromBlocks md4 blocks' sizeBytes) :
    rootInput md4 blocks sizeBytes ≠ rootInput md4 blocks' sizeBytes ∧
      md4 (rootInput md4 blocks sizeBytes) = md4 (rootInput md4 blocks' sizeBytes) := by
  have hinputs : rootInput md4 blocks sizeBytes ≠ rootInput md4 blocks' sizeBytes := fun heq =>
    hne (flatMap_digestBytes_injOn hlen hblocks hblocks' (append_cancel_right heq))
  refine ⟨hinputs, ?_⟩
  unfold rootFromBlocks at h
  match blocks, blocks' with
  | [a], [b] =>
    simp only at h
    split at h
    · exact absurd (congrArg (fun x => [x]) h) hne
    · exact h
  | [], [] => exact absurd rfl hne
  | a :: a' :: l, b :: b' :: l' => exact h

/-! ## §3. The blocks of the code have the red root. -/

theorem rootFromBlocks_of_le {blocks : List Ed2kBlockHash} {sizeBytes : Nat}
    (h : ED2K_BLOCK_SIZE ≤ sizeBytes) :
    rootFromBlocks md4 blocks sizeBytes = md4 (rootInput md4 blocks sizeBytes) := by
  match blocks with
  | [] | _ :: _ :: _ => rfl
  | [single] => exact if_neg (not_lt.mpr h)

theorem redRoot_of_le (h : ED2K_BLOCK_SIZE ≤ data.length) :
    redRoot md4 data = md4 ((redHashes md4 data).flatMap digestBytes) := by
  have hlen : (redHashes md4 data).length = data.length / ED2K_BLOCK_SIZE + 1 := by
    rw [redHashes, length_map, length_range]
  unfold redRoot
  split
  next single heq =>
    rw [heq, length_singleton] at hlen
    unfold ED2K_BLOCK_SIZE at *
    omega
  · rfl

theorem ed2kBlocks_ofBytes (data : List UInt8) :
    ed2kBlocks md4 (.ofBytes data) =
      (range (max 1 (divCeil data.length ED2K_BLOCK_SIZE))).map fun b =>
        md4 (block data b) := by
  unfold ed2kBlocks
  rw [range_eq_range']
  exact map_congr_left fun b _ => congrArg md4 (read_ofBytes data b)

/-- One block more than there are full ones, unless nothing remains of a file that has some. -/
theorem blockCount_eq (n : Nat) :
    max 1 (divCeil n ED2K_BLOCK_SIZE) =
      if n % ED2K_BLOCK_SIZE = 0 ∧ ED2K_BLOCK_SIZE ≤ n then n / ED2K_BLOCK_SIZE
      else n / ED2K_BLOCK_SIZE + 1 := by
  unfold divCeil ED2K_BLOCK_SIZE
  split <;> omega

theorem rootFromBlocks_ed2kBlocks (data : List UInt8) :
    rootFromBlocks md4 (ed2kBlocks md4 (.ofBytes data)) data.length = redRoot md4 data := by
  rw [ed2kBlocks_ofBytes, blockCount_eq]
  by_cases hlong : ED2K_BLOCK_SIZE ≤ data.length
  · rw [rootFromBlocks_of_le hlong, redRoot_of_le hlong, rootInput, redHashes]
    by_cases hmultiple : data.length % ED2K_BLOCK_SIZE = 0
    · -- the last block is empty, and the code adds its hash
      have hlast : block data (data.length / ED2K_BLOCK_SIZE) = [] := by
        rw [block, drop_of_length_le (by unfold ED2K_BLOCK_SIZE at *; omega), take_nil]
      rw [if_pos ⟨hmultiple, hlong⟩, if_pos hmultiple, range_succ, map_append, map_singleton,
        flatMap_append, flatMap_singleton, hlast]
    · rw [if_neg fun h => hmultiple h.1, if_neg hmultiple, append_nil]
  · have hnone : data.length / ED2K_BLOCK_SIZE = 0 := Nat.div_eq_of_lt (not_le.mp hlong)
    rw [if_neg fun h => hlong h.2, hnone, redRoot, redHashes, hnone]
    show (if data.length < ED2K_BLOCK_SIZE then _ else _) = _
    rw [if_pos (not_le.mp hlong)]
    rfl

/-! ## §4. Any reads. -/

theorem Hashed.blocks_eq (h : Hashed md4 data s) :
    (if 0 < s.blockLen ∨ s.blocks = [] then s.blocks ++ [md4 s.blockHasher] else s.blocks) =
      ed2kBlocks md4 (.ofBytes data) := by
  have hnil : s.blocks = [] ↔ data.length / ED2K_BLOCK_SIZE = 0 := by
    rw [h.blocks, map_eq_nil_iff, range_eq_nil]
  rw [ed2kBlocks_ofBytes]
  split
  next hlast =>
    rw [hnil, h.blockLen] at hlast
    have hcount : max 1 (divCeil data.length ED2K_BLOCK_SIZE) =
        data.length / ED2K_BLOCK_SIZE + 1 := by
      unfold divCeil ED2K_BLOCK_SIZE at *
      omega
    have hblock : block data (data.length / ED2K_BLOCK_SIZE) =
        data.drop (data.length / ED2K_BLOCK_SIZE * ED2K_BLOCK_SIZE) := by
      refine take_of_length_le ?_
      rw [length_drop]
      unfold ED2K_BLOCK_SIZE
      omega
    rw [hcount, range_succ, map_append, map_singleton, hblock, h.blockHasher,
      h.blocks]
  next hfull =>
    rw [hnil, h.blockLen] at hfull
    have hcount : max 1 (divCeil data.length ED2K_BLOCK_SIZE) = data.length / ED2K_BLOCK_SIZE := by
      unfold divCeil ED2K_BLOCK_SIZE at *
      omega
    rw [hcount, h.blocks]

/-- **The streaming hash is the hash of the bytes**, however the reads cut them: the length, the
hash of each block (one for an empty file, and no empty one behind the last), and the red root.
Its blocks give that root back, and where another list of as many blocks does, MD4 collides on
what `root_from_blocks` hashed. -/
theorem ed2kHashReader_eq (md4 : List UInt8 → Nat) (hmd4 : ∀ bytes, md4 bytes < 2 ^ 128)
    (reads : List (List UInt8)) (hreads : ∀ buf ∈ reads, buf ≠ []) :
    let data := reads.flatten
    let hash := ed2kHashReader md4 reads
    hash = ⟨redRoot md4 data, (range (max 1 (divCeil data.length ED2K_BLOCK_SIZE))).map
      fun b => md4 (block data b), data.length⟩ ∧
    rootFromBlocks md4 hash.blocks data.length = redRoot md4 data ∧
    ∀ blocks : List Ed2kBlockHash, (∀ h ∈ blocks, h < 2 ^ 128) →
      blocks.length = hash.blocks.length → blocks ≠ hash.blocks →
      rootFromBlocks md4 blocks data.length = hash.root →
        rootInput md4 blocks data.length ≠ rootInput md4 hash.blocks data.length ∧
        md4 (rootInput md4 blocks data.length) = md4 (rootInput md4 hash.blocks data.length) := by
  intro data hash
  have hstart : Hashed md4 [] .start := ⟨rfl, rfl, rfl⟩
  obtain ⟨hhashed, hsize⟩ := hstart.readAll hreads rfl
  rw [nil_append] at hhashed hsize
  have hblocks : hash.blocks = ed2kBlocks md4 (.ofBytes data) := hhashed.blocks_eq
  have hback : rootFromBlocks md4 hash.blocks data.length = redRoot md4 data := by
    rw [hblocks]
    exact rootFromBlocks_ed2kBlocks data
  have hroot : hash.root = rootFromBlocks md4 hash.blocks data.length :=
    congrArg (rootFromBlocks md4 hash.blocks) hsize
  refine ⟨?_, hback, fun blocks hbound hlen hne heq => ?_⟩
  · rw [← ed2kBlocks_ofBytes, ← hblocks, ← hback, ← hroot]
    exact congrArg (Ed2kFileHash.mk hash.root hash.blocks) hsize
  · refine collision_of_root_eq hlen hne hbound (fun h hh => ?_) (heq.trans hroot)
    rw [hblocks, ed2kBlocks] at hh
    obtain ⟨b, _, rfl⟩ := mem_map.mp hh
    exact hmd4 _

/-- A stand-in for MD4 that tells inputs apart. -/
def byteSum (bytes : List UInt8) : Nat := (bytes.map UInt8.toNat).sum % 2 ^ 128

theorem ed2kHashReader_eq_two :
    ed2kHashReader byteSum [[1, 2], [3, 4, 5]] =
      ⟨redRoot byteSum [1, 2, 3, 4, 5], [byteSum [1, 2, 3, 4, 5]], 5⟩ ∧
    redRoot byteSum [1, 2, 3, 4, 5] = 15 :=
  ⟨(ed2kHashReader_eq byteSum (fun _ => Nat.mod_lt _ (by norm_num)) [[1, 2], [3, 4, 5]]
    (by decide)).1, by decide⟩

end DessPlay.Transfer
