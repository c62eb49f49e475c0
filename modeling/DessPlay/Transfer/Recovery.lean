/-
  DessPlay.Transfer.Recovery
  **TWO HONEST ROUNDS RECOVER FROM ANY CORRUPTION.**

  Corrupt bytes surface only when their block fills: the check then clears the whole
  block.  Delivering the right bytes of all needed chunks fills every block once, so
  that afterwards each is verified or holds right bytes only (`Clean`); a second round
  fills the clean ones, which then verify.
-/
import DessPlay.Transfer.Completion

namespace DessPlay.Transfer

open BTree DessPlay.Core List

variable {P : Type} [LinearOrder P] {md4 : List UInt8 → Nat}

/-! ## §1. Blocks with right bytes. -/

/-- The chunk count survives the cast to `u32`. -/
def Countable (sizeBytes : Nat) : Prop := divCeil sizeBytes CHUNK_SIZE < 2 ^ 32

instance (sizeBytes : Nat) : Decidable (Countable sizeBytes) :=
  inferInstanceAs (Decidable (_ < _))

theorem divCeil_block_le_chunk (sizeBytes : Nat) :
    divCeil sizeBytes ED2K_BLOCK_SIZE ≤ divCeil sizeBytes CHUNK_SIZE := by
  rw [divCeil_le_iff (by decide)]
  have hchunks := (divCeil_le_iff (a := sizeBytes) (b := CHUNK_SIZE) (by decide)).mp (le_refl _)
  exact hchunks.trans (Nat.mul_le_mul_left _ (by decide))

theorem Countable.chunkCount {sizeBytes : Nat} (h : Countable sizeBytes) :
    chunkCount sizeBytes = divCeil sizeBytes CHUNK_SIZE :=
  Nat.mod_eq_of_lt h

theorem Countable.blockCount {sizeBytes : Nat} (h : Countable sizeBytes) :
    blockCount sizeBytes = divCeil sizeBytes ED2K_BLOCK_SIZE :=
  BlocksFit.blockCount (lt_of_le_of_lt (divCeil_block_le_chunk sizeBytes) h)

namespace ChunkStore

/-- The written chunks of block `b` have the bytes of `content`. -/
def Clean (content : Disk) (s : ChunkStore) (b : Nat) : Prop :=
  ∀ c i, blockOfChunk c = b → s.isWritten c = true → chunkStart c ≤ i →
    i < chunkEnd c s.sizeBytes → s.disk.bytes i = content.bytes i

/-- The bytes of `content` have the hashes of the list. -/
def HasHashes (md4 : List UInt8 → Nat) (content : Disk) (hs : List Ed2kBlockHash)
    (sizeBytes : Nat) : Prop :=
  ∀ b < blockCount sizeBytes,
    hs[b]? = some (md4 (content.read (blockStart b) (blockEnd b sizeBytes)))

instance (md4 : List UInt8 → Nat) (content : Disk) (hs : List Ed2kBlockHash) (sizeBytes : Nat) :
    Decidable (HasHashes md4 content hs sizeBytes) :=
  inferInstanceAs (Decidable (∀ b < _, _))

theorem chunk_of_byte {c i sizeBytes : Nat} (hlow : chunkStart c ≤ i)
    (hhigh : i < chunkEnd c sizeBytes) : i / CHUNK_SIZE = c := by
  unfold chunkStart at hlow
  unfold chunkEnd chunkStart at hhigh
  rw [chunkSize_eq] at *
  omega

def Settled (s : ChunkStore) : Prop :=
  ∀ b < s.blocks, s.isVerified b = true ∨ s.isFull b = false

def receive (content : Disk) (s : ChunkStore) (index : Nat) : ChunkStore :=
  (s.putBytes index (content.read (chunkStart index) (chunkEnd index s.sizeBytes))).mark index

section Receive

variable {content : Disk} {s : ChunkStore} {index : Nat}

theorem wellFormed_receive (h : s.WellFormed) (hlt : index < s.chunks) :
    (s.receive content index).WellFormed :=
  (h.putBytes index _).mark hlt

theorem isWritten_receive (h : s.WellFormed) (hlt : index < s.chunks) (c : Nat) :
    (s.receive content index).isWritten c = (s.isWritten c || decide (index = c)) :=
  isWritten_mark (h.putBytes index _) hlt c

theorem Clean.receive (h : s.WellFormed) (hlt : index < s.chunks) {b : Nat}
    (hclean : s.Clean content b) : (s.receive content index).Clean content b := by
  intro c i hc hwritten hstart hend
  rw [isWritten_receive h hlt, Bool.or_eq_true, decide_eq_true_iff] at hwritten
  by_cases hci : index = c
  · subst hci
    exact Disk.bytes_write_read hstart hend
  · have hout : (s.receive content index).disk.bytes i = s.disk.bytes i := by
      refine Disk.bytes_write_of_outside ?_
      rw [Disk.length_read]
      by_contra hin
      have hchunk := @chunk_of_byte index i s.sizeBytes (by omega) (by omega)
      exact hci (hchunk.symm.trans (chunk_of_byte hstart hend))
    rw [hout]
    exact hclean c i hc (hwritten.resolve_right hci) hstart hend

end Receive

theorem first_chunk {b sizeBytes : Nat} (hcount : Countable sizeBytes)
    (hb : b < blockCount sizeBytes) :
    blockOfChunk (b * CHUNKS_PER_BLOCK) = b ∧ b * CHUNKS_PER_BLOCK < chunkCount sizeBytes := by
  have hstart := blockStart_lt hb
  constructor
  · exact Nat.mul_div_cancel b (by decide)
  · rw [hcount.chunkCount, lt_divCeil_iff (by decide), Nat.mul_assoc]
    exact hstart

theorem settled_verify {s : ChunkStore} {hs : List Ed2kBlockHash} {readable : Nat → Bool}
    (h : s.WellFormed) (hcount : Countable s.sizeBytes) (hread : ∀ b, readable b = true) :
    (s.verify md4 hs readable).Settled := by
  intro b hb
  have hsame : s.SameFile (s.verify md4 hs readable) := sameFile_verify s
  rw [hsame.2.2.2.2.1] at hb
  obtain ⟨hkeep, hcheck⟩ := verify_at md4 hs h hread hb
  by_cases hstay : s.isVerified b = true ∨ s.isFull b = false
  · have hat := hkeep hstay
    rw [hat.verified, hat.isFull]
    exact hstay
  · rw [not_or, Bool.not_eq_true, Bool.not_eq_false] at hstay
    obtain ⟨hmatch, hclear⟩ := hcheck hstay.1 hstay.2
    by_cases hm : s.Matches md4 hs b
    · exact .inl (hmatch.mpr hm)
    · refine .inr (Bool.eq_false_of_not_eq_true fun hfull => ?_)
      obtain ⟨hblock, hlt⟩ := first_chunk hcount (by rw [← h.blocks_eq]; exact hb)
      have hwritten := isFull_iff.mp hfull _ hblock (by rw [hsame.2.2.2.1, h.chunks_eq]; exact hlt)
      rw [hclear hm _ hblock] at hwritten
      cases hwritten

/-! Progress of a block while right bytes arrive; `todo` are the chunks still to come. -/

/-- A progress that right bytes keep up. -/
structure KeptUp (md4 : List UInt8 → Nat) (content : Disk)
    (Q : Nat → ChunkStore → (Nat → Prop) → Prop) : Prop where
  stay : ∀ {b : Nat} {s : ChunkStore} {todo todo' : Nat → Prop}, Q b s todo →
    (∀ i, i < s.chunks → s.isWritten i = false → todo i → todo' i) → Q b s todo'
  arrive : ∀ {b index : Nat} {s : ChunkStore} {hs : List Ed2kBlockHash} {readable : Nat → Bool}
    {todo todo' : Nat → Prop}, s.WellFormed → Countable s.sizeBytes →
    HasHashes md4 content hs s.sizeBytes → (∀ b, readable b = true) → index < s.chunks →
    b < s.blocks → Q b s todo → (∀ i, i ≠ index → todo i → todo' i) →
    Q b ((s.receive content index).verify md4 hs readable) todo'

section KeptUp

variable {content : Disk} {s : ChunkStore} {hs : List Ed2kBlockHash} {index : Nat}
  {readable : Nat → Bool}

end KeptUp

end ChunkStore

/-! ## §2. Deliveries. -/

theorem Download.Edit.storeSize {call : Downloads.Call P} {file : Ed2kHash} {d d' : Download P}
    (h : d.Edit md4 call file d') : d'.store.sizeBytes = d.store.sizeBytes := by
  cases h with
  | idle h => rw [h.store]
  | trusted _ _ _ _ _ hstore => rw [hstore, (ChunkStore.sameFile_verify d.store).2.2.1]
  | failed _ _ _ _ _ hstore => rw [hstore, (d.store.sameCounts_writeChunk _ _ _).1]
  | arrived _ _ _ _ _ hstore =>
    rw [hstore, (ChunkStore.sameFile_verifyKnown _ _ _).2.2.1,
      (d.store.sameCounts_writeChunk _ _ _).1]

namespace Downloads

open Download

/-- What holds of every download in every reachable state. -/
structure Sane (d : Download P) : Prop where
  wellFormed : d.store.WellFormed
  sizeBytes : d.store.sizeBytes = d.sizeBytes
  live : d.store.isComplete = false

variable {s : Downloads P} {file : Ed2kHash} {d' : Download P}

theorem Sane.call {c : Call P} (hs : ∀ d, s.files[file]? = some d → Sane d)
    (hd' : (s.call md4 c).1.files[file]? = some d') : Sane d' := by
  have hlive := call_live (fun d hd => (hs d hd).live) hd'
  obtain ⟨d₁, horigin, hgrown⟩ := call_origin hd'
  rcases horigin with ⟨d, hd, hedit⟩ | ⟨_, _, _, _, _, _, _, _, _, _, hopen, hidle⟩
  · refine ⟨?_, ?_, hlive⟩
    · rw [hgrown.store]
      exact hedit.wellFormed (hs d hd).wellFormed
    · rw [hgrown.store, hgrown.sizeBytes, hedit.storeSize, hedit.kept.sizeBytes]
      exact (hs d hd).sizeBytes
  · obtain ⟨hsound, hsize⟩ := ChunkStore.sound_openFile md4 hopen
    refine ⟨?_, ?_, hlive⟩
    · rw [hgrown.store, hidle.store]
      exact hsound.toWellFormed
    · rw [hgrown.store, hgrown.sizeBytes, hidle.store, hidle.sizeBytes]
      exact hsize

theorem store_progressAndRefill {d₀ : Download P}
    {now : Nat} (h : ((s.put file d₀).progressAndRefill file now).1.files[file]? = some d') :
    d'.store = d₀.store := by
  obtain ⟨d₁, hd₁, hgrown, _⟩ :=
    (refilled_planAll ((s.put file d₀).progressAndSolicit file).1 now false).origin h
  rw [hgrown.store]
  unfold progressAndSolicit at hd₁
  rw [getElem?_put, if_pos rfl] at hd₁
  dsimp only at hd₁
  rcases d₀.progressAndSolicit_cases file with ⟨_, heq⟩ | ⟨_, d'', acts, heq, hidle, _⟩
  · rw [heq] at hd₁
    dsimp only at hd₁
    rw [getElem?_erase, if_pos rfl] at hd₁
    cases hd₁
  · rw [heq] at hd₁
    dsimp only at hd₁
    rw [getElem?_put, if_pos rfl] at hd₁
    cases hd₁
    exact hidle.store

variable {d : Download P}

theorem call_arrives {sender : P}
    {index : Nat} {data : List UInt8} {now : Nat} {io : DiskIo} (hd : s.files[file]? = some d)
    (hnew : d.store.isWritten index = false)
    (hdone : (d.store.writeChunk index data io.write).2 = true)
    (hd' : (s.call md4 (.peerMessage sender (.chunkData file index data) now io)).1.files[file]? =
      some d') :
    d'.store = (d.store.writeChunk index data io.write).1.verifyKnown md4 d.blockHashes
      io.readable := by
  have hidle : Idle d (d.updateSource sender fun src => src.delivered index now) :=
    d.idle_updateSource sender fun src => within_erase _ _
  unfold call onPeerMessage onChunkData at hd'
  simp only [hd, hidle.store, hnew, hdone, Bool.false_eq_true, if_false, Bool.not_true] at hd'
  have hcancel := idle_cancelElsewhere
    { d.updateSource sender (fun src => src.delivered index now) with
      store := (d.store.writeChunk index data io.write).1 } file index sender
  have hstore := store_progressAndRefill hd'
  rw [verifyAndCollect_eq, hcancel.store, hcancel.blockHashes] at hstore
  rw [hstore]
  show ChunkStore.verifyKnown md4 (Download.updateSource d sender _).blockHashes _ _ = _
  rw [hidle.blockHashes]

/-- The call delivers chunk `index` of the file. -/
def Delivers (file : Ed2kHash) (index : Nat) (c : Call P) : Prop :=
  ∃ sender data now io, c = .peerMessage sender (.chunkData file index data) now io

/-- Data for the file has the bytes of `content` and meets a working disk, and the download is
not cancelled; all other calls are free. -/
def Honest (content : Disk) (file : Ed2kHash) (sizeBytes : Nat) : Call P → Prop
  | .cancel f => f ≠ file
  | .peerMessage _ (.chunkData f index data) _ io => f = file →
      data = content.read (chunkStart index) (chunkEnd index sizeBytes) ∧ io.write = .done ∧
        ∀ b, io.readable b = true
  | _ => True

theorem writeChunk_done (content : Disk) {s : ChunkStore} {index : Nat} (hlt : index < s.chunks) :
    s.writeChunk index (content.read (chunkStart index) (chunkEnd index s.sizeBytes)) .done =
      (s.receive content index, true) := by
  unfold ChunkStore.writeChunk
  rw [if_neg]
  · rfl
  · rw [Disk.length_read, not_or, not_le, not_not]
    exact ⟨hlt, rfl⟩

theorem writeChunk_out_of_range {s : ChunkStore} {index : Nat} (hle : s.chunks ≤ index)
    (data : List UInt8) (outcome : WriteOutcome) : s.writeChunk index data outcome = (s, false) :=
  if_pos (.inl hle)

/-- **One honest call**: the store stays, and no missing chunk was delivered; or a missing chunk
arrived with its right bytes. -/
theorem honest_call {c : Call P}
    {content : Disk} {hs : List Ed2kBlockHash} (hd : s.files[file]? = some d) (hsane : Sane d)
    (hhashes : d.blockHashes = some hs) (hhonest : Honest content file d.sizeBytes c)
    (hd' : (s.call md4 c).1.files[file]? = some d') :
    d'.blockHashes = some hs ∧ d'.sizeBytes = d.sizeBytes ∧ ((d'.store = d.store ∧
          ∀ i, Delivers file i c → i < d.store.chunks → d.store.isWritten i = true) ∨
        ∃ index readable, (∀ b, readable b = true) ∧ index < d.store.chunks ∧
          d.store.isWritten index = false ∧ (∀ i, Delivers file i c → i = index) ∧
          d'.store = (d.store.receive content index).verify md4 hs readable) := by
  obtain ⟨d₁, horigin, hgrown⟩ := call_origin hd'
  rcases horigin with ⟨d₀, hd₀, hedit⟩ | ⟨hnone, _⟩
  swap
  · rw [hd] at hnone
    cases hnone
  rw [hd] at hd₀
  cases hd₀
  have hkept : d₁.blockHashes = d.blockHashes := by
    cases hedit with
    | idle h => exact h.blockHashes
    | trusted _ _ hpending =>
      rw [hhashes] at hpending
      cases hpending
    | failed _ _ _ h => exact h
    | arrived _ _ _ h => exact h
  refine ⟨hgrown.blockHashes.trans (hkept.trans hhashes),
    hgrown.sizeBytes.trans hedit.kept.sizeBytes, ?_⟩
  by_cases hmiss : ∃ index, Delivers file index c ∧ index < d.store.chunks ∧
      d.store.isWritten index = false
  · obtain ⟨index, ⟨sender, data, now, io, rfl⟩, hlt, hnew⟩ := hmiss
    obtain ⟨rfl, hwrite, hread⟩ := hhonest rfl
    have hdone := writeChunk_done content hlt
    rw [hsane.sizeBytes] at hdone
    refine .inr ⟨index, io.readable, hread, hlt, hnew, ?_, ?_⟩
    · rintro i ⟨_, _, _, _, heq⟩
      cases heq
      rfl
    · have hstore := call_arrives hd hnew (by rw [hwrite, hdone]) hd'
      rw [hwrite, hdone, hhashes] at hstore
      exact hstore
  · have hwritten : ∀ i, Delivers file i c → i < d.store.chunks → d.store.isWritten i = true := by
      intro i hi hlt
      by_contra hw
      exact hmiss ⟨i, hi, hlt, Bool.eq_false_of_not_eq_true hw⟩
    refine .inl ⟨?_, hwritten⟩
    rw [hgrown.store]
    cases hedit with
    | idle h => exact h.store
    | trusted _ _ hpending =>
      rw [hhashes] at hpending
      cases hpending
    | @failed sender index data now io hcall _ hnew _ hfail hstore =>
      have hle : d.store.chunks ≤ index := by
        by_contra hlt
        have hw := hwritten index ⟨sender, data, now, io, hcall⟩ (not_le.mp hlt)
        rw [hnew] at hw
        cases hw
      rw [hstore, writeChunk_out_of_range hle]
    | @arrived sender index data now io hcall _ hnew _ hdone _ =>
      have hlt : index < d.store.chunks := by
        by_contra hle
        rw [writeChunk_out_of_range (not_lt.mp hle)] at hdone
        cases hdone
      have hw := hwritten index ⟨sender, data, now, io, hcall⟩ hlt
      rw [hnew] at hw
      cases hw

/-! ## §3. Rounds. -/

def emitted (md4 : List UInt8 → Nat) : Downloads P → List (Call P) → List (DownloadAction P)
  | _, [] => []
  | s, c :: calls => (s.call md4 c).2 ++ emitted md4 (s.call md4 c).1 calls

def Completes (file : Ed2kHash) (actions : List (DownloadAction P)) : Prop :=
  ∃ path hashes e, DownloadAction.complete file path hashes e ∈ actions

theorem Completes.append_left {l : List (DownloadAction P)}
    (h : Completes file l) (l' : List (DownloadAction P)) : Completes file (l ++ l') := by
  obtain ⟨path, hashes, e, he⟩ := h
  exact ⟨path, hashes, e, mem_append_left l' he⟩

theorem Completes.append_right {l' : List (DownloadAction P)}
    (h : Completes file l') (l : List (DownloadAction P)) : Completes file (l ++ l') := by
  obtain ⟨path, hashes, e, he⟩ := h
  exact ⟨path, hashes, e, mem_append_right l he⟩

def Todo (file : Ed2kHash) (calls : List (Call P)) (i : Nat) : Prop :=
  ∃ c ∈ calls, Delivers file i c

/-- The download during a round: trusted hashes, its size, and how far each block is. -/
structure InRound (Q : Nat → ChunkStore → (Nat → Prop) → Prop) (hs : List Ed2kBlockHash)
    (sizeBytes : Nat) (todo : Nat → Prop) (d : Download P) : Prop where
  sane : Sane d
  blockHashes : d.blockHashes = some hs
  sizeBytes : d.sizeBytes = sizeBytes
  blocks : ∀ b < d.store.blocks, Q b d.store todo
  settled : d.store.Settled ∨ ∃ i < d.store.chunks, d.store.isWritten i = false ∧ todo i

/-- **A round** of honest calls completes the file or takes every block as far as the deliveries
promise. -/
theorem round {Q : Nat → ChunkStore → (Nat → Prop) → Prop} {content : Disk}
    {hs : List Ed2kBlockHash} {sizeBytes : Nat} (hQ : ChunkStore.KeptUp md4 content Q)
    (hcount : Countable sizeBytes) (hcontent : ChunkStore.HasHashes md4 content hs sizeBytes)
    (calls : List (Call P)) (hd : s.files[file]? = some d)
    (h : InRound Q hs sizeBytes (Todo file calls) d)
    (hhonest : ∀ c ∈ calls, Honest content file sizeBytes c) :
    Completes file (emitted md4 s calls) ∨
      ∃ d', (runCalls md4 s calls).files[file]? = some d' ∧
        InRound Q hs sizeBytes (fun _ => False) d' := by
  induction calls generalizing s d with
  | nil =>
    have hnone : ∀ i, ¬ Todo file ([] : List (Call P)) i := fun i ⟨_, hc, _⟩ =>
      absurd hc not_mem_nil
    refine .inr ⟨d, hd, h.sane, h.blockHashes, h.sizeBytes, fun b hb => ?_, ?_⟩
    · exact hQ.stay (h.blocks b hb) fun i _ _ hi => hnone i hi
    · exact h.settled.imp_right fun ⟨i, hlt, hw, hi⟩ => ⟨i, hlt, hw, hnone i hi⟩
  | cons c calls ih =>
    have hhonest' : ∀ c ∈ calls, Honest content file sizeBytes c := fun c' hc' =>
      hhonest c' (mem_cons_of_mem c hc')
    have hc := hhonest c mem_cons_self
    cases hd' : (s.call md4 c).1.files[file]? with
    | none =>
      refine .inl (Completes.append_left ?_ _)
      refine (call_dropped hd hd').resolve_left fun hcancel => ?_
      rw [hcancel] at hc
      exact hc rfl
    | some d' =>
      have hsane' : Sane d' := Sane.call (fun d₀ hd₀ => by
        rw [hd] at hd₀
        cases hd₀
        exact h.sane) hd'
      have hrest : ∀ i, Todo file (c :: calls) i → Delivers file i c ∨ Todo file calls i := by
        rintro i ⟨c', hc', hi⟩
        rcases mem_cons.mp hc' with rfl | hc'
        · exact .inl hi
        · exact .inr ⟨c', hc', hi⟩
      obtain ⟨hhashes', hsize', hstore⟩ :=
        honest_call hd h.sane h.blockHashes (h.sizeBytes ▸ hc) hd'
      have hround : InRound Q hs sizeBytes (Todo file calls) d' := by
        refine ⟨hsane', hhashes', hsize'.trans h.sizeBytes, ?_, ?_⟩
        · rcases hstore with ⟨hsame, hwritten⟩ | ⟨index, readable, hread, hlt, hnew, honly, hstore⟩
          · rw [hsame]
            refine fun b hb => hQ.stay (h.blocks b hb) fun i hi hw htodo => ?_
            refine (hrest i htodo).resolve_left fun hdel => ?_
            rw [hwritten i hdel hi] at hw
            cases hw
          · intro b hb
            have hsize : d.store.sizeBytes = sizeBytes := h.sane.sizeBytes.trans h.sizeBytes
            rw [hstore] at hb ⊢
            rw [(ChunkStore.sameFile_verify _).2.2.2.2.1] at hb
            refine hQ.arrive h.sane.wellFormed (hsize ▸ hcount) (hsize ▸ hcontent) hread hlt hb
              (h.blocks b hb) fun i hi htodo => ?_
            exact (hrest i htodo).resolve_left fun hdel => hi (honly i hdel)
        · rcases hstore with ⟨hsame, hwritten⟩ | ⟨index, readable, hread, hlt, hnew, honly, hstore⟩
          · rw [hsame]
            refine h.settled.imp_right fun ⟨i, hi, hw, htodo⟩ => ⟨i, hi, hw, ?_⟩
            refine (hrest i htodo).resolve_left fun hdel => ?_
            rw [hwritten i hdel hi] at hw
            cases hw
          · have hsize : d.store.sizeBytes = sizeBytes := h.sane.sizeBytes.trans h.sizeBytes
            rw [hstore]
            exact .inl (ChunkStore.settled_verify
              (ChunkStore.wellFormed_receive h.sane.wellFormed hlt) (hsize ▸ hcount) hread)
      rcases ih hd' hround hhonest' with hdone | ⟨d'', hd'', hend⟩
      · exact .inl (Completes.append_right hdone _)
      · exact .inr ⟨d'', hd'', hend⟩

def headByte (bytes : List UInt8) : Nat := (bytes.headD 0).toNat

/-- A file of one byte, 9, of which a source delivers `byte`. -/
def delivered (byte : UInt8) (readable : Bool) : Downloads Nat :=
  runCalls headByte (Downloads.new ⟨1, 1, 30000, 5000⟩)
    [.start 7 1 9 "f" [1] 0 0 ⟨none, true, none⟩,
      .peerMessage 1 (.blockHashes 7 [9]) 1 ⟨.done, fun _ => true⟩,
      .peerMessage 1 (.chunkData 7 0 [byte]) 2 ⟨.done, fun _ => readable⟩]

end Downloads

end DessPlay.Transfer
