/-
  DessPlay.Transfer.Geometry
  **CHUNKS, BLOCKS, BITFIELDS AND BYTES ON DISK**
  (`dessplay-core/src/{hash,net/transfer}.rs`, `dessplay/src/chunkstore.rs`).

  A file is verified in ed2k blocks of 9,728,000 bytes and transferred in chunks of
  256,000, 38 to a block, so a chunk never straddles two blocks.  The counts are
  cast to `u32`, which TRUNCATES for sizes of 2³² chunks and more.

  The disk is a byte function with a length; MD4 is a parameter.
-/
import DessPlay.Core.Types

namespace DessPlay.Transfer

open DessPlay.Core List

/-! ## §1. Sizes. -/

def ED2K_BLOCK_SIZE : Nat := 9728000

def CHUNKS_PER_BLOCK : Nat := 38

def CHUNK_SIZE : Nat := ED2K_BLOCK_SIZE / CHUNKS_PER_BLOCK

/-- `as u32`. -/
def asU32 (n : Nat) : Nat := n % 2 ^ 32

def divCeil (a b : Nat) : Nat := (a + (b - 1)) / b

def chunkCount (sizeBytes : Nat) : Nat := asU32 (divCeil sizeBytes CHUNK_SIZE)

def blockCount (sizeBytes : Nat) : Nat := asU32 (divCeil sizeBytes ED2K_BLOCK_SIZE)

def chunkStart (index : Nat) : Nat := index * CHUNK_SIZE

/-- One past its last byte; the last chunk is short. -/
def chunkEnd (index sizeBytes : Nat) : Nat := min (chunkStart index + CHUNK_SIZE) sizeBytes

def blockStart (b : Nat) : Nat := b * ED2K_BLOCK_SIZE

def blockEnd (b sizeBytes : Nat) : Nat := min (blockStart b + ED2K_BLOCK_SIZE) sizeBytes

/-- The chunks of block `b`, clamped to the file's chunk count.  The sums are exact: the
source's `u32` sums overflow, and panic, above 4,294,967,290 chunks. -/
def chunksInBlock (b totalChunks : Nat) : List Nat :=
  range' (b * CHUNKS_PER_BLOCK)
    (min (b * CHUNKS_PER_BLOCK + CHUNKS_PER_BLOCK) totalChunks - b * CHUNKS_PER_BLOCK)

def blockOfChunk (index : Nat) : Nat := index / CHUNKS_PER_BLOCK

theorem chunkSize_eq : CHUNK_SIZE = 256000 := rfl

variable {c b sizeBytes a n : Nat}

theorem mem_chunksInBlock {total : Nat} :
    c ∈ chunksInBlock b total ↔ blockOfChunk c = b ∧ c < total := by
  unfold chunksInBlock blockOfChunk CHUNKS_PER_BLOCK
  rw [mem_range'_1]
  omega

theorem chunk_within_block (c sizeBytes : Nat) :
    blockStart (blockOfChunk c) ≤ chunkStart c ∧
      chunkEnd c sizeBytes ≤ blockEnd (blockOfChunk c) sizeBytes := by
  unfold blockStart chunkStart chunkEnd blockEnd blockStart chunkStart blockOfChunk
  rw [chunkSize_eq]
  unfold ED2K_BLOCK_SIZE CHUNKS_PER_BLOCK
  omega

theorem block_of_byte {i : Nat} (hlow : blockStart b ≤ i) (hhigh : i < blockEnd b sizeBytes) :
    i / ED2K_BLOCK_SIZE = b := by
  unfold blockStart at hlow
  unfold blockEnd blockStart at hhigh
  unfold ED2K_BLOCK_SIZE at *
  omega

theorem divCeil_le_iff (hb : 0 < b) : divCeil a b ≤ n ↔ a ≤ n * b := by
  unfold divCeil
  rw [Nat.div_le_iff_le_mul_add_pred hb]
  rw [Nat.mul_comm]
  omega

theorem lt_divCeil_iff (hb : 0 < b) : n < divCeil a b ↔ n * b < a := by
  rw [← not_le, ← not_le, divCeil_le_iff hb]

theorem asU32_le (n : Nat) : asU32 n ≤ n := Nat.mod_le _ _

theorem chunkStart_lt (h : c < chunkCount sizeBytes) : chunkStart c < sizeBytes :=
  (lt_divCeil_iff (by decide)).mp (lt_of_lt_of_le h (asU32_le _))

theorem blockStart_lt (h : b < blockCount sizeBytes) : blockStart b < sizeBytes :=
  (lt_divCeil_iff (by decide)).mp (lt_of_lt_of_le h (asU32_le _))

/-! ## §2. Bitfields. -/

/-- Bits of a `Vec<u8>`, least significant first, and how many of them count. -/
structure Bitfield where
  bits : List (BitVec 8)
  len : Nat
  deriving DecidableEq

namespace Bitfield

def new (len : Nat) : Bitfield := ⟨replicate (divCeil len 8) 0, len⟩

def get (bf : Bitfield) (index : Nat) : Bool :=
  decide (index < bf.len) && (bf.bits.getD (index / 8) 0).getLsbD (index % 8)

def set (bf : Bitfield) (index : Nat) : Bitfield :=
  if index < bf.len then
    { bf with bits := bf.bits.modify (index / 8) (· ||| (1#8 <<< (index % 8))) }
  else bf

def unset (bf : Bitfield) (index : Nat) : Bitfield :=
  if index < bf.len then
    { bf with bits := bf.bits.modify (index / 8) (· &&& ~~~(1#8 <<< (index % 8))) }
  else bf

def countOnes (bf : Bitfield) : Nat :=
  (bf.bits.map fun byte => (range 8).countP byte.getLsbD).sum

def isValidFor (bf : Bitfield) (expectedLen : Nat) : Bool :=
  decide (bf.len = expectedLen) && decide (bf.bits.length = divCeil expectedLen 8) &&
    (expectedLen % 8 == 0 ||
      match bf.bits.getLast? with
      | some last => last &&& ~~~((1#8 <<< (expectedLen % 8)) - 1) == 0
      | none => true)

def Fits (bf : Bitfield) : Prop := bf.bits.length = divCeil bf.len 8

theorem fits_new (len : Nat) : (new len).Fits := length_replicate

@[simp] theorem len_new (len : Nat) : (new len).len = len := rfl

@[simp] theorem len_set (bf : Bitfield) (i : Nat) : (bf.set i).len = bf.len := by
  unfold set
  split <;> rfl

@[simp] theorem len_unset (bf : Bitfield) (i : Nat) : (bf.unset i).len = bf.len := by
  unfold unset
  split <;> rfl

variable {bf : Bitfield}

theorem Fits.set (h : bf.Fits) (i : Nat) : (bf.set i).Fits := by
  unfold Fits Bitfield.set
  split
  · rw [length_modify]
    exact h
  · exact h

theorem Fits.unset (h : bf.Fits) (i : Nat) : (bf.unset i).Fits := by
  unfold Fits Bitfield.unset
  split
  · rw [length_modify]
    exact h
  · exact h

@[simp] theorem get_new (len i : Nat) : (new len).get i = false := by
  unfold get new
  rw [getD_eq_getElem?_getD, getElem?_replicate]
  split <;> simp

theorem get_of_len_le {i : Nat} (h : bf.len ≤ i) : bf.get i = false := by
  unfold get
  rw [decide_eq_false (not_lt.mpr h), Bool.false_and]

theorem getD_modify {bits : List (BitVec 8)} {byte : Nat} (hbyte : byte < bits.length)
    (f : BitVec 8 → BitVec 8) (j : Nat) :
    (bits.modify byte f).getD j 0 = if byte = j then f (bits.getD j 0) else bits.getD j 0 := by
  rw [getD_eq_getElem?_getD, getElem?_modify, getD_eq_getElem?_getD]
  by_cases hj : byte = j
  · subst hj
    rw [getElem?_eq_getElem hbyte]
    simp
  · simp [hj]

theorem byte_lt (h : bf.Fits) {i : Nat} (hi : i < bf.len) : i / 8 < bf.bits.length := by
  rw [h, lt_divCeil_iff (by decide)]
  omega

theorem get_set (h : bf.Fits) (i j : Nat) :
    (bf.set i).get j = (bf.get j || decide (i = j ∧ i < bf.len)) := by
  by_cases hi : i < bf.len
  · unfold get Bitfield.set
    rw [if_pos hi]
    show (decide (j < bf.len) && _) = _
    rw [getD_modify (byte_lt h hi)]
    by_cases hbyte : i / 8 = j / 8
    · rw [if_pos hbyte, BitVec.getLsbD_or]
      by_cases hij : i = j
      · subst hij
        have hbit : (1#8 <<< (i % 8)).getLsbD (i % 8) = true := by
          simp
          omega
        simp [hi, hbit]
      · have hbit : (1#8 <<< (i % 8)).getLsbD (j % 8) = false := by
          simp
          omega
        simp [hij, hbit]
    · have hij : i ≠ j := fun heq => hbyte (heq ▸ rfl)
      simp [hbyte, hij]
  · have hset : bf.set i = bf := if_neg hi
    rw [hset]
    simp [hi]

theorem get_unset (h : bf.Fits) (i j : Nat) :
    (bf.unset i).get j = (bf.get j && decide (i ≠ j)) := by
  by_cases hi : i < bf.len
  · unfold get Bitfield.unset
    rw [if_pos hi]
    show (decide (j < bf.len) && _) = _
    rw [getD_modify (byte_lt h hi)]
    by_cases hbyte : i / 8 = j / 8
    · rw [if_pos hbyte, BitVec.getLsbD_and]
      by_cases hij : i = j
      · subst hij
        have hbit : (~~~(1#8 <<< (i % 8))).getLsbD (i % 8) = false := by
          simp
        simp [hbit]
      · have hbit : (~~~(1#8 <<< (i % 8))).getLsbD (j % 8) = true := by
          simp
          omega
        simp [hij, hbit]
    · have hij : i ≠ j := fun heq => hbyte (heq ▸ rfl)
      simp [hbyte, hij]
  · have hunset : bf.unset i = bf := if_neg hi
    rw [hunset]
    by_cases hij : i = j
    · subst hij
      simp [get_of_len_le (not_lt.mp hi)]
    · simp [hij]

end Bitfield

/-! ## §3. Bytes on disk. -/

/-- A file: its bytes (none past the length are read) and its length. -/
structure Disk where
  bytes : Nat → UInt8
  len : Nat

namespace Disk

/-- `create` with `truncate`, then `set_len`. -/
def zeroed (len : Nat) : Disk := ⟨fun _ => 0, len⟩

/-- The bytes from `start` up to `stop`. -/
def read (disk : Disk) (start stop : Nat) : List UInt8 :=
  (range' start (stop - start)).map disk.bytes

/-- `seek` and `write_all`. -/
def write (disk : Disk) (start : Nat) (data : List UInt8) : Disk where
  bytes i := if start ≤ i ∧ i < start + data.length then data.getD (i - start) 0 else disk.bytes i
  len := max disk.len (start + data.length)

@[simp] theorem length_read (disk : Disk) (start stop : Nat) :
    (disk.read start stop).length = stop - start := by
  unfold read
  rw [length_map, length_range']

theorem read_congr {disk disk' : Disk} {start stop : Nat}
    (h : ∀ i, start ≤ i → i < stop → disk.bytes i = disk'.bytes i) :
    disk.read start stop = disk'.read start stop := by
  unfold read
  refine map_congr_left fun i hi => ?_
  rw [mem_range'_1] at hi
  exact h i hi.1 (by omega)

theorem bytes_write_of_outside {disk : Disk} {start i : Nat} {data : List UInt8}
    (h : i < start ∨ start + data.length ≤ i) : (disk.write start data).bytes i = disk.bytes i := by
  show (if _ then _ else _) = _
  rw [if_neg (by omega)]

theorem bytes_write_read {disk source : Disk} {start stop i : Nat} (hlow : start ≤ i)
    (hhigh : i < stop) : (disk.write start (source.read start stop)).bytes i = source.bytes i := by
  show (if _ then _ else _) = _
  rw [if_pos (by rw [length_read]; omega)]
  unfold read
  rw [getD_eq_getElem?_getD, getElem?_map, getElem?_range' (by omega)]
  show source.bytes (start + 1 * (i - start)) = source.bytes i
  congr 1
  omega

end Disk

/-! ## §4. The ed2k root (`hash.rs`). -/

abbrev Ed2kBlockHash : Type := Nat

def digestBytes (h : Nat) : List UInt8 :=
  (range' 0 16).map fun i => UInt8.ofNat (h / 256 ^ (15 - i))

section Root

variable (md4 : List UInt8 → Nat)

def rootFromBlocks (blocks : List Ed2kBlockHash) (sizeBytes : Nat) : Ed2kHash :=
  let all := md4 (blocks.flatMap digestBytes ++
    if sizeBytes % ED2K_BLOCK_SIZE = 0 then digestBytes (md4 []) else [])
  match blocks with
  | [single] => if sizeBytes < ED2K_BLOCK_SIZE then single else all
  | _ => all

/-- The block hashes of a whole file; an empty file has one empty block. -/
def ed2kBlocks (disk : Disk) : List Ed2kBlockHash :=
  (range' 0 (max 1 (divCeil disk.len ED2K_BLOCK_SIZE))).map fun b =>
    md4 (disk.read (blockStart b) (blockEnd b disk.len))

end Root

end DessPlay.Transfer
