/-
  DessPlay.Transfer.Solicit
  **A DOWNLOAD THAT WAITS FOR ITS BLOCK HASHES KEEPS ASKING FOR THEM.**

  The manager runs beside a log of the last message exchanged with each source of
  each file.  While the hashes are pending, a source that was asked was contacted no
  earlier than its clock says, and nothing is in flight at it (`Waiting`).  So ten
  silent timeouts after the last contact the tick asks it again.

  One flag decides who is asked: `solicited`.  A lost stream clears it, and it is set
  again only while the source's bitfield is empty.
-/
import DessPlay.Transfer.Tick

namespace DessPlay.Transfer

open BTree DessPlay.Core Option Machine Download
open List hiding getElem?_filter getElem?_insert getElem?_map

/-! ## §1. The manager and its log. -/

def PeerMessage.file : PeerMessage → Ed2kHash
  | .fileAvailability file _ | .blockHashRequest file | .blockHashes file _ | .cannotServe file
  | .chunkRequest file _ | .chunkData file _ _ | .cancel file _ => file

section Log

variable {P : Type} [LinearOrder P]

/-- The action asks the peer for the file's block hashes. -/
def DownloadAction.asksHashes (file : Ed2kHash) (peer : P) : DownloadAction P → Bool
  | .send p (.blockHashRequest f) => decide (p = peer ∧ f = file)
  | _ => false

/-- The action sends the peer a message about the file. -/
def DownloadAction.contacts (file : Ed2kHash) (peer : P) : DownloadAction P → Bool
  | .send p message => decide (p = peer ∧ message.file = file)
  | _ => false

namespace Downloads

def Call.time : Call P → Option Nat
  | .setPriority _ _ | .cancel _ => none
  | .start _ _ _ _ _ _ now _ | .setSources _ _ _ now | .peerMessage _ _ now _
  | .streamLost _ _ now | .requeueSource _ _ now | .tick now => some now

/-- The call delivers a message about the file from the peer. -/
def Call.hears (file : Ed2kHash) (peer : P) : Call P → Bool
  | .peerMessage sender message _ _ => decide (sender = peer ∧ message.file = file)
  | _ => false

/-- The manager, the time of its last call, and of the last message exchanged with each peer
about each file. -/
structure Logged (P : Type) [LinearOrder P] where
  downloads : Downloads P
  clock : Nat
  contact : Ed2kHash → P → Option Nat

namespace Logged

def new (config : DownloadConfig) : Logged P where
  downloads := .new config
  clock := 0
  contact := fun _ _ => none

variable (md4 : List UInt8 → Nat)

def call (s : Logged P) (c : Call P) : Logged P :=
  let now := (c.time).getD s.clock
  let r := s.downloads.call md4 c
  { downloads := r.1
    clock := now
    contact := fun file peer =>
      if c.hears file peer || r.2.any (·.contacts file peer) then some now
      else s.contact file peer }

def step (s : Logged P) (c : Call P) : Option (Logged P) := some (s.call md4 c)

end Logged

/-- The source of a file whose block hashes are pending, if there is one. -/
def pendingSource (s : Downloads P) (file : Ed2kHash) (peer : P) : Option Source :=
  (s.files[file]?).bind fun d => if d.blockHashes.isNone then d.sources[peer]? else none

/-- While a file waits for its hashes no stream of a source that advertised chunks is lost, and
only a source that was asked advertises any. -/
def Call.keepsLatch (s : Downloads P) : Call P → Bool
  | .streamLost file peer _ | .requeueSource file peer _ =>
    (s.pendingSource file peer).all fun src => src.bitfield.countOnes == 0
  | .peerMessage sender (.fileAvailability file bitfield) _ _ =>
    (s.pendingSource file sender).all fun src => src.solicited || bitfield.countOnes == 0
  | _ => true

/-- Time does not run backwards. -/
def Logged.Timely (s : Logged P) (c : Call P) : Prop := s.clock ≤ (c.time).getD s.clock

/-- Time does not run backwards, and no latch is lost. -/
def Logged.Steady (s : Logged P) (c : Call P) : Prop :=
  s.Timely c ∧ c.keepsLatch s.downloads = true

instance (s : Logged P) (c : Call P) : Decidable (s.Timely c) :=
  inferInstanceAs (Decidable (_ ≤ _))

instance (s : Logged P) (c : Call P) : Decidable (s.Steady c) :=
  inferInstanceAs (Decidable (_ ∧ _))

end Downloads

/-! ## §2. A waiting source. -/

/-- A source of a file without block hashes, at time `now`, last contacted at `last`. -/
structure Source.Waiting (now : Nat) (last : Option Nat) (src : Source) : Prop where
  inFlight : src.inFlight = ∅
  hashesReplied : src.hashesReplied = false
  armed : src.lastProgress ≤ now
  heard : src.solicited = true → ∃ t, last = some t ∧ src.lastProgress ≤ t
  latch : src.solicited = true ∨ src.bitfield.countOnes = 0

namespace Source

theorem countOnes_new (len : Nat) : (Bitfield.new len).countOnes = 0 := by
  unfold Bitfield.countOnes Bitfield.new
  rw [map_replicate]
  have hbyte : (range 8).countP (BitVec.getLsbD (0 : BitVec 8)) = 0 := by decide
  rw [hbyte]
  simp

theorem waiting_new (chunks now : Nat) (last : Option Nat) :
    (Source.new chunks now).Waiting now last where
  inFlight := rfl
  hashesReplied := rfl
  armed := le_refl _
  heard h := by cases h
  latch := .inr (countOnes_new chunks)

variable {now : Nat} {last : Option Nat} {src : Source}

theorem Waiting.later (h : src.Waiting now last) {now' : Nat} {last' : Option Nat}
    (hnow : now ≤ now') (hlast : last' = last ∨ last' = some now') : src.Waiting now' last' where
  __ := h
  armed := h.armed.trans hnow
  heard hsolicited := by
    rcases hlast with rfl | rfl
    · exact h.heard hsolicited
    · exact ⟨now', rfl, h.armed.trans hnow⟩

theorem Waiting.cancelled (h : src.Waiting now last) (index : Nat) :
    { src with inFlight := src.inFlight.erase index }.Waiting now last where
  inFlight := by
    show src.inFlight.erase index = ∅
    rw [h.inFlight]
    exact Std.ExtTreeMap.erase_empty
  __ := h

theorem Waiting.delivered (h : src.Waiting now last) (index : Nat) :
    (src.delivered index now).Waiting now (some now) where
  inFlight := (h.cancelled index).inFlight
  hashesReplied := h.hashesReplied
  armed := le_refl now
  heard _ := ⟨now, rfl, le_refl now⟩
  latch := h.latch

theorem Waiting.requeue (h : src.Waiting now last) (hempty : src.bitfield.countOnes = 0) :
    (src.requeue now).Waiting now last where
  inFlight := rfl
  hashesReplied := h.hashesReplied
  armed := le_refl now
  heard hsolicited := by cases hsolicited
  latch := .inr hempty

theorem Waiting.advertise (h : src.Waiting now last) {bitfield : Bitfield}
    (hlatch : src.solicited = true ∨ bitfield.countOnes = 0) :
    { src with bitfield }.Waiting now last where
  __ := h
  latch := hlatch

theorem Waiting.asked (h : src.Waiting now last)
    (hsent : src.unsolicited = true → last = some now) : (Download.asked src).Waiting now last := by
  unfold Download.asked
  split
  next hask =>
    exact ⟨h.inFlight, h.hashesReplied, h.armed, fun _ => ⟨now, hsent hask, h.armed⟩, .inl rfl⟩
  · exact h

theorem Waiting.resolicit (h : src.Waiting now last) (cfg : DownloadConfig) (needHashes : Bool)
    (hsent : (src.resolicit cfg needHashes now).isSome = true → last = some now) :
    ((src.resolicit cfg needHashes now).getD src).Waiting now last := by
  cases hre : src.resolicit cfg needHashes now with
  | none => exact h
  | some src' =>
    rw [hre] at hsent
    have hlast := hsent rfl
    have hagain : ∃ attempts, src' =
        { src with lastProgress := now, solicitAttempts := attempts } := by
      unfold Source.resolicit at hre
      dsimp only at hre
      split at hre
      · cases hre
      split at hre <;> split at hre <;> cases hre
      · exact ⟨_, rfl⟩
      · exact ⟨_, rfl⟩
    obtain ⟨attempts, rfl⟩ := hagain
    exact ⟨h.inFlight, h.hashesReplied, le_refl now, fun _ => ⟨now, hlast, le_refl now⟩, h.latch⟩

end Source

/-! ## §3. What the operations on a download keep. -/

namespace Download

/-- Every source waits, as long as the hashes are pending. -/
def Waits (now : Nat) (last : P → Option Nat) (d : Download P) : Prop :=
  d.blockHashes = none → ∀ (p : P) (src : Source), d.sources[p]? = some src →
    src.Waiting now (last p)

variable {now : Nat} {last : P → Option Nat} {d : Download P}

theorem Waits.updateSource (h : d.Waits now last) (peer : P) {f : Source → Source}
    (hf : ∀ src, d.blockHashes = none → d.sources[peer]? = some src → src.Waiting now (last peer) →
      (f src).Waiting now (last peer)) : (d.updateSource peer f).Waits now last := by
  unfold Download.updateSource
  split
  next src hsrc =>
    intro hpending p src' hsrc'
    have hget := getElem?_insert d.sources peer p (f src)
    rw [hget] at hsrc'
    split at hsrc'
    next hp =>
      cases hsrc'
      rw [hp]
      exact hf src hpending hsrc (h hpending peer src hsrc)
    · exact h hpending p src' hsrc'
  · exact h

theorem Waits.addSource (h : d.Waits now last) (peer : P) :
    (d.addSource now peer).Waits now last := by
  unfold Download.addSource
  split
  · exact h
  split
  · exact h
  · intro hpending p src hsrc
    have hget := getElem?_insert d.sources peer p (.new (chunkCount d.sizeBytes) now)
    rw [hget] at hsrc
    split at hsrc
    · cases hsrc
      exact Source.waiting_new _ now _
    · exact h hpending p src hsrc

theorem Waits.setSources (h : d.Waits now last) (sources : List P) (playChunk : Nat) :
    (d.setSources sources playChunk now).Waits now last := by
  refine foldlRecOn sources _ (motive := fun d : Download P => d.Waits now last) ?_
    fun d h peer _ => h.addSource peer
  intro hpending p src hsrc
  rw [getElem?_filter] at hsrc
  exact h hpending p src (filter_eq_some_iff.mp hsrc).1

theorem Waits.erase (h : d.Waits now last) (peer : P) :
    { d with sources := d.sources.erase peer }.Waits now last := by
  intro hpending p src hsrc
  rw [getElem?_erase] at hsrc
  split at hsrc
  · cases hsrc
  · exact h hpending p src hsrc

theorem Waits.deny (h : d.Waits now last) (peer : P) : (d.deny peer).Waits now last :=
  h.erase peer

theorem Waits.cancelElsewhere (h : d.Waits now last) (file : Ed2kHash) (index : Nat)
    (arrivedFrom : P) : (d.cancelElsewhere file index arrivedFrom).1.Waits now last := by
  intro hpending p src hsrc
  have hget := getElem?_map d.sources (fun peer src =>
    if peer = arrivedFrom then src else { src with inFlight := src.inFlight.erase index }) p
  obtain ⟨src₀, hsrc₀, rfl⟩ := map_eq_some_iff.mp (hget.symm.trans hsrc)
  have hwaiting := h hpending p src₀ hsrc₀
  split
  · exact hwaiting
  · exact hwaiting.cancelled index

theorem Waits.verifyAndCollect (h : d.Waits now last) (md4 : List UInt8 → Nat)
    (readable : Nat → Bool) : (d.verifyAndCollect md4 readable).Waits now last := by
  unfold Download.verifyAndCollect
  split
  · exact h
  next hhashes =>
    intro hpending
    rw [hhashes] at hpending
    cases hpending

theorem mem_progressAndSolicit (file : Ed2kHash) (hlive : d.store.isComplete = false) {p : P}
    {src : Source} (hsrc : d.sources[p]? = some src) (hask : src.unsolicited = true) :
    .send p (.blockHashRequest file) ∈ (d.progressAndSolicit file).2 := by
  have hmem : .send p (.blockHashRequest file) ∈ (d.solicit file).2 :=
    mem_filterMap.mpr ⟨(p, src), (mem_entries d.sources _).mpr hsrc, if_pos hask⟩
  unfold progressAndSolicit
  rw [if_neg (by rw [hlive]; exact Bool.false_ne_true)]
  dsimp only
  split
  · exact hmem
  · exact mem_append_left _ hmem

theorem mem_snub (cfg : DownloadConfig) (file : Ed2kHash) {p : P} {src : Source}
    (hsrc : d.sources[p]? = some src) (hkept : src.snubbed cfg now = false)
    (hask : (src.resolicit cfg d.blockHashes.isNone now).isSome = true) :
    .send p (.blockHashRequest file) ∈ (d.snub cfg file now).2 := by
  refine mem_append_right _ (mem_filterMap.mpr ⟨(p, src), ?_, if_pos hask⟩)
  rw [mem_entries, getElem?_filter, hsrc, filter_some, hkept]
  rfl

theorem Waits.progressAndSolicit (h : d.Waits now last) {file : Ed2kHash} {d₁ : Download P}
    (hd₁ : (d.progressAndSolicit file).1 = some d₁)
    (hsent : ∀ p, .send p (.blockHashRequest file) ∈ (d.progressAndSolicit file).2 →
      last p = some now) : d₁.Waits now last := by
  intro hpending p src₁ hsrc₁
  rw [sources_progressAndSolicit hd₁ p] at hsrc₁
  obtain ⟨src, hsrc, rfl⟩ := map_eq_some_iff.mp hsrc₁
  rcases d.progressAndSolicit_cases file with ⟨_, hcase⟩ | ⟨hlive, d₂, _, hcase, hidle, _⟩
  · rw [hcase] at hd₁
    cases hd₁
  · rw [hcase] at hd₁
    cases hd₁
    rw [hidle.blockHashes] at hpending
    exact (h hpending p src hsrc).asked fun hask =>
      hsent p (mem_progressAndSolicit file hlive hsrc hask)

theorem Waits.snub (h : d.Waits now last) (cfg : DownloadConfig) {file : Ed2kHash}
    (hsent : ∀ p, .send p (.blockHashRequest file) ∈ (d.snub cfg file now).2 →
      last p = some now) : (d.snub cfg file now).1.Waits now last := by
  intro hpending p src₁ hsrc₁
  rw [sources_snub] at hsrc₁
  obtain ⟨src, hsrc, rfl⟩ := map_eq_some_iff.mp hsrc₁
  obtain ⟨hsrc, hkept⟩ := filter_eq_some_iff.mp hsrc
  exact (h hpending p src hsrc).resolicit cfg _ fun hask =>
    hsent p (mem_snub cfg file hsrc (by simpa using hkept) hask)

end Download

/-! ## §4. What a call keeps. -/

namespace Downloads

variable {now : Nat} {last : Ed2kHash → P → Option Nat} {s : Downloads P}

/-- Every source of every file without hashes waits. -/
def AllWait (now : Nat) (last : Ed2kHash → P → Option Nat) (s : Downloads P) : Prop :=
  ∀ (file : Ed2kHash) (d : Download P), s.files[file]? = some d → d.Waits now (last file)

/-- The log has every request among the actions. -/
def Noted (now : Nat) (last : Ed2kHash → P → Option Nat) (actions : List (DownloadAction P)) :
    Prop :=
  ∀ file p, .send p (.blockHashRequest file) ∈ actions → last file p = some now

theorem AllWait.put (h : s.AllWait now last) {file : Ed2kHash} {d : Download P}
    (hd : d.Waits now (last file)) : (s.put file d).AllWait now last := by
  intro f d' hd'
  rw [getElem?_put] at hd'
  split at hd'
  next hf =>
    cases hd'
    rw [hf]
    exact hd
  · exact h f d' hd'

theorem AllWait.erase (h : s.AllWait now last) (file : Ed2kHash) :
    { s with files := s.files.erase file }.AllWait now last := by
  intro f d hd
  rw [getElem?_erase] at hd
  split at hd
  · cases hd
  · exact h f d hd

theorem AllWait.planAll (h : s.AllWait now last) (t : Nat) (urgentSweep : Bool) :
    (s.planAll t urgentSweep).downloads.AllWait now last := by
  intro file d' hd' hpending
  obtain ⟨d, hd, hgrown, hsame⟩ := (refilled_planAll s t urgentSweep).origin hd'
  rw [hgrown.blockHashes] at hpending
  rw [hsame hpending]
  exact h file d hd hpending

theorem AllWait.progressAndSolicit (h : s.AllWait now last) (file : Ed2kHash)
    (hnoted : Noted now last (s.progressAndSolicit file).2) :
    (s.progressAndSolicit file).1.AllWait now last := by
  unfold Downloads.progressAndSolicit at hnoted ⊢
  split
  · exact h
  next d hd =>
  rw [hd] at hnoted
  dsimp only at hnoted ⊢
  cases hp : (d.progressAndSolicit file).1 with
  | none => exact h.erase file
  | some d₁ =>
    rw [hp] at hnoted
    exact h.put ((h file d hd).progressAndSolicit hp fun p hsend => hnoted file p hsend)

theorem AllWait.refill (h : s.AllWait now last) (file : Ed2kHash) (t : Nat)
    (hnoted : Noted now last (s.progressAndRefill file t).2) :
    (s.progressAndRefill file t).1.AllWait now last :=
  (h.progressAndSolicit file fun f p hsend =>
    hnoted f p (mem_append_left _ hsend)).planAll t false

theorem AllWait.setSources (h : s.AllWait now last) (file : Ed2kHash) (sources : List P)
    (playChunk : Nat) (hnoted : Noted now last (s.setSources file sources playChunk now).2) :
    (s.setSources file sources playChunk now).1.AllWait now last := by
  unfold Downloads.setSources at hnoted ⊢
  split
  · exact h
  next d hd =>
    rw [hd] at hnoted
    exact (h.put ((h file d hd).setSources sources playChunk)).refill file now hnoted

theorem AllWait.start (h : s.AllWait now last) (file : Ed2kHash) (sizeBytes : Nat)
    (root : Ed2kHash) (path : String) (sources : List P) (playChunk : Nat) (fs : FileSystem)
    (hnoted : Noted now last (s.start file sizeBytes root path sources playChunk now fs).2) :
    (s.start file sizeBytes root path sources playChunk now fs).1.AllWait now last := by
  unfold Downloads.start at hnoted ⊢
  cases hd : s.files[file]? with
  | some d =>
    rw [hd] at hnoted
    exact h.setSources file sources playChunk hnoted
  | none =>
    rw [hd] at hnoted
    dsimp only at hnoted ⊢
    cases hopen : ChunkStore.openFile fs path sizeBytes with
    | error e => exact h
    | ok store =>
      rw [hopen] at hnoted
      refine AllWait.setSources (h.put fun _ p src hsrc => ?_) file sources playChunk hnoted
      -- a new download has no source yet
      have hnone : (∅ : BTreeMap P Source)[p]? = none := Std.ExtTreeMap.getElem?_empty
      exact absurd (hsrc.symm.trans hnone) (by simp)

theorem AllWait.tick (h : s.AllWait now last) (hnoted : Noted now last (s.tick now).2) :
    (s.tick now).1.AllWait now last := by
  rw [tick_eq]
  refine AllWait.planAll (fun file d₁ hd₁ => ?_) now true
  rw [files_ticked] at hd₁
  obtain ⟨d, hd, hticked⟩ := bind_eq_some_iff.mp hd₁
  have hsent : ∀ p, .send p (.blockHashRequest file) ∈ (d.ticked s.config file now).2 →
      last file p = some now := fun p hsend => hnoted file p (s.actions_tick now hd hsend)
  refine Waits.progressAndSolicit ?_ hticked
    fun p hsend => hsent p (mem_append_right _ hsend)
  exact (h file d hd).snub s.config fun p hsend => hsent p (mem_append_left _ hsend)

theorem pendingSource_eq {file : Ed2kHash} {d : Download P} {p : P} {src : Source}
    (hd : s.files[file]? = some d) (hpending : d.blockHashes = none)
    (hsrc : d.sources[p]? = some src) : s.pendingSource file p = some src := by
  unfold pendingSource
  rw [hd, bind_some, hpending]
  exact hsrc

theorem AllWait.requeueSource (h : s.AllWait now last) (file : Ed2kHash) (peer : P)
    (hlatch : (s.pendingSource file peer).all fun src => src.bitfield.countOnes == 0) :
    (s.requeueSource file peer now).AllWait now last := by
  unfold Downloads.requeueSource
  split
  · exact h
  next d hd =>
    refine h.put ((h file d hd).updateSource peer fun src hpending hsrc hwaiting => ?_)
    rw [pendingSource_eq hd hpending hsrc] at hlatch
    exact hwaiting.requeue (beq_iff_eq.mp hlatch)

theorem AllWait.chunkData (h : s.AllWait now last) (md4 : List UInt8 → Nat) (file : Ed2kHash)
    (sender : P) (index : Nat) (data : List UInt8) (io : DiskIo)
    (hheard : last file sender = some now)
    (hnoted : Noted now last (s.onChunkData md4 file sender index data now io).2) :
    (s.onChunkData md4 file sender index data now io).1.AllWait now last := by
  unfold Downloads.onChunkData at hnoted ⊢
  split
  · exact h
  next d hd =>
  rw [hd] at hnoted
  have harrived : (d.updateSource sender fun src => src.delivered index now).Waits now
      (last file) := by
    refine (h file d hd).updateSource sender fun src _ _ hwaiting => ?_
    rw [hheard]
    exact hwaiting.delivered index
  dsimp only at hnoted ⊢
  split at hnoted
  next hwritten =>
    rw [if_pos hwritten]
    exact h.put (harrived.cancelElsewhere file index sender)
  next hwritten =>
    rw [if_neg hwritten]
    -- writing the chunk changes the store only
    split at hnoted
    next hfailed =>
      rw [if_pos hfailed]
      exact h.put harrived
    next hdone =>
      rw [if_neg hdone]
      refine AllWait.refill (h.put ?_) file now
        fun f p hsend => hnoted f p (mem_append_right _ hsend)
      refine Waits.verifyAndCollect ?_ md4 io.readable
      exact Waits.cancelElsewhere harrived file index sender

theorem AllWait.blockHashes (h : s.AllWait now last) (md4 : List UInt8 → Nat) (file : Ed2kHash)
    (sender : P) (hashes : List Ed2kBlockHash) (io : DiskIo)
    (hnoted : Noted now last (s.onBlockHashes md4 file sender hashes now io).2) :
    (s.onBlockHashes md4 file sender hashes now io).1.AllWait now last := by
  unfold Downloads.onBlockHashes at hnoted ⊢
  split
  · exact h
  next d hd =>
  rw [hd] at hnoted
  dsimp only at hnoted ⊢
  split at hnoted
  next hknown =>
    rw [if_pos hknown]
    exact h
  next hknown =>
  rw [if_neg hknown]
  split at hnoted
  next hbad =>
    rw [if_pos hbad]
    exact (h.put ((h file d hd).erase sender)).refill file now hnoted
  next hgood =>
    rw [if_neg hgood]
    refine AllWait.refill (h.put fun hpending => ?_) file now hnoted
    -- the hashes are known from here on
    rw [verifyAndCollect_eq] at hpending
    exact absurd hpending (by
      unfold updateSource
      split <;> exact some_ne_none _)

theorem AllWait.fileAvailability (h : s.AllWait now last) (md4 : List UInt8 → Nat)
    (file : Ed2kHash) (sender : P) (bitfield : Bitfield) (io : DiskIo)
    (hlatch : (s.pendingSource file sender).all fun src =>
      src.solicited || bitfield.countOnes == 0)
    (hnoted : Noted now last
      (s.onPeerMessage md4 sender (.fileAvailability file bitfield) now io).2) :
    (s.onPeerMessage md4 sender (.fileAvailability file bitfield) now io).1.AllWait now last := by
  unfold Downloads.onPeerMessage at hnoted ⊢
  dsimp only at hnoted ⊢
  split
  · exact h
  next d hd =>
  rw [hd] at hnoted
  dsimp only at hnoted
  split at hnoted
  next hbad =>
    rw [if_pos hbad]
    exact h
  next hvalid =>
    rw [if_neg hvalid]
    refine AllWait.refill (h.put ?_) file now hnoted
    refine (h file d hd).updateSource sender
      fun src hpending hsrc hwaiting => hwaiting.advertise ?_
    rw [pendingSource_eq hd hpending hsrc] at hlatch
    simpa using hlatch

theorem AllWait.cannotServe (h : s.AllWait now last) (md4 : List UInt8 → Nat) (file : Ed2kHash)
    (sender : P) (io : DiskIo)
    (hnoted : Noted now last (s.onPeerMessage md4 sender (.cannotServe file) now io).2) :
    (s.onPeerMessage md4 sender (.cannotServe file) now io).1.AllWait now last := by
  unfold Downloads.onPeerMessage at hnoted ⊢
  dsimp only at hnoted ⊢
  split
  · exact h
  next d hd =>
    rw [hd] at hnoted
    exact (h.put ((h file d hd).deny sender)).refill file now hnoted

end Downloads

/-! ## §5. Runs. -/

namespace Downloads

/-- **No waiting source is forgotten**: ten timeouts after the last message exchanged with a
source about a file without block hashes, a tick asks it for them. -/
def Logged.NeverForgets (s : Logged P) : Prop :=
  ∀ (file : Ed2kHash) (d : Download P), s.downloads.files[file]? = some d → d.blockHashes = none →
    ∀ (q : P) (src : Source), d.sources[q]? = some src → src.hashesReplied = false →
      ∀ now, (∀ t, s.contact file q = some t →
          t + GIVE_UP_COOLDOWN_MULTIPLIER * s.downloads.config.snubTimeoutMillis ≤ now) →
        (s.downloads.tick now).2.any (·.asksHashes file q) = true

section Run

variable {md4 : List UInt8 → Nat}

theorem Logged.noted_call (md4 : List UInt8 → Nat) (s : Logged P) (c : Call P) :
    Noted (s.call md4 c).clock (s.call md4 c).contact (s.downloads.call md4 c).2 := by
  intro file p hsend
  refine if_pos (Bool.or_eq_true_iff.mpr (.inr (any_eq_true.mpr ⟨_, hsend, ?_⟩)))
  exact decide_eq_true ⟨rfl, rfl⟩

/-- **One call keeps every source waiting.** -/
theorem allWait_call {s : Logged P} {c : Call P} (h : s.downloads.AllWait s.clock s.contact)
    (hsteady : s.Steady c) :
    (s.call md4 c).downloads.AllWait (s.call md4 c).clock (s.call md4 c).contact := by
  obtain ⟨htime, hlatch⟩ := hsteady
  have hnoted := s.noted_call md4 c
  have hheard : ∀ file p, c.hears file p = true →
      (s.call md4 c).contact file p = some (s.call md4 c).clock :=
    fun file p hc => if_pos (Bool.or_eq_true_iff.mpr (.inl hc))
  -- the state before the call, against the clock and the log after it
  have hbefore : s.downloads.AllWait (s.call md4 c).clock (s.call md4 c).contact := by
    intro file d hd hpending p src hsrc
    refine (h file d hd hpending p src hsrc).later htime ?_
    show (if _ then _ else _) = _ ∨ (if _ then _ else _) = _
    split
    · exact .inr rfl
    · exact .inl rfl
  cases c with
  | setPriority order nowPlaying => exact hbefore
  | start file sizeBytes root path sources playChunk now fs =>
    exact hbefore.start file sizeBytes root path sources playChunk fs hnoted
  | setSources file sources playChunk now => exact hbefore.setSources file sources playChunk hnoted
  | cancel file =>
    show (s.downloads.cancel file).1.AllWait _ _
    unfold cancel
    split
    · exact hbefore
    · exact hbefore.erase file
  | peerMessage sender message now io =>
    cases message with
    | fileAvailability file bitfield =>
      exact hbefore.fileAvailability md4 file sender bitfield io hlatch hnoted
    | blockHashes file hashes => exact hbefore.blockHashes md4 file sender hashes io hnoted
    | cannotServe file => exact hbefore.cannotServe md4 file sender io hnoted
    | chunkData file index data =>
      exact hbefore.chunkData md4 file sender index data io
        (hheard file sender (decide_eq_true ⟨rfl, rfl⟩)) hnoted
    | blockHashRequest file => exact hbefore
    | chunkRequest file chunks => exact hbefore
    | cancel file chunks => exact hbefore
  | streamLost file peer now =>
    exact (hbefore.requeueSource file peer hlatch).refill file now hnoted
  | requeueSource file peer now => exact hbefore.requeueSource file peer hlatch
  | tick now => exact hbefore.tick hnoted

theorem waiting_of_reach {config : DownloadConfig} {s : Logged P}
    (h : Reach (Logged.step md4) Logged.Steady (Logged.new config) s) :
    s.downloads.AllWait s.clock s.contact ∧
      ∀ (file : Ed2kHash) (d : Download P), s.downloads.files[file]? = some d →
        d.store.isComplete = false := by
  have hnone : ∀ (file : Ed2kHash) (d : Download P),
      (Logged.new config : Logged P).downloads.files[file]? ≠ some d := by
    intro file d hd
    have hempty : (∅ : BTreeMap Ed2kHash (Download P))[file]? = none :=
      Std.ExtTreeMap.getElem?_empty
    exact absurd (hd.symm.trans hempty) (by simp)
  induction h with
  | refl =>
    exact ⟨fun file d hd => absurd hd (hnone file d), fun file d hd => absurd hd (hnone file d)⟩
  | step _ hsteady hstep ih =>
    cases hstep
    exact ⟨allWait_call ih.1 hsteady, fun file d' hd' => call_live (ih.2 file) hd'⟩

/-- A source that was asked and stayed silent for ten timeouts is asked again. -/
theorem resolicit_of_silent {cfg : DownloadConfig} {now t : Nat} {last : Option Nat} {src : Source}
    {clock : Nat} (h : src.Waiting clock last) (hsolicited : src.solicited = true)
    (hlast : last = some t)
    (hsilent : t + GIVE_UP_COOLDOWN_MULTIPLIER * cfg.snubTimeoutMillis ≤ now) :
    (src.resolicit cfg true now).isSome = true := by
  obtain ⟨u, hu, hprogress⟩ := h.heard hsolicited
  rw [hlast] at hu
  cases hu
  have hstalled : src.stalled true = true := by
    unfold Source.stalled
    rw [hsolicited, h.inFlight, h.hashesReplied]
    simp
  unfold GIVE_UP_COOLDOWN_MULTIPLIER at hsilent
  have hcooldown : satU64 (cfg.snubTimeoutMillis * GIVE_UP_COOLDOWN_MULTIPLIER) ≤
      now - src.lastProgress := by
    refine (Nat.min_le_left _ _).trans ?_
    unfold GIVE_UP_COOLDOWN_MULTIPLIER
    omega
  have htimeout : cfg.snubTimeoutMillis ≤ now - src.lastProgress := by omega
  unfold Source.resolicit
  rw [hstalled]
  dsimp only
  rw [if_neg (not_lt.mpr hcooldown), if_neg (not_lt.mpr htimeout)]
  simp only [Bool.not_true, Bool.false_eq_true, if_false]
  split <;> rfl

/-- **In every steady run no waiting source is forgotten.** -/
theorem never_forgets_of_steady {config : DownloadConfig} {s : Logged P}
    (h : Reach (Logged.step md4) Logged.Steady (Logged.new config) s) : s.NeverForgets := by
  intro file d hd hpending q src hsrc _ now hquiet
  obtain ⟨hwait, hlive⟩ := waiting_of_reach h
  have hwaiting := hwait file d hd hpending q src hsrc
  refine any_eq_true.mpr ⟨.send q (.blockHashRequest file), ?_, decide_eq_true ⟨rfl, rfl⟩⟩
  refine s.downloads.actions_tick now hd ?_
  have hkept : src.snubbed s.downloads.config now = false := by
    unfold Source.snubbed
    rw [hwaiting.inFlight]
    simp
  have hneed : d.blockHashes.isNone = true := isNone_iff_eq_none.mpr hpending
  by_cases hsolicited : src.solicited = true
  · obtain ⟨t, ht, _⟩ := hwaiting.heard hsolicited
    refine mem_append_left _ (mem_snub _ file hsrc hkept ?_)
    rw [hneed]
    exact resolicit_of_silent hwaiting hsolicited ht (hquiet t ht)
  · -- not asked since its stream was lost: the latch says its bitfield is empty
    have hempty := hwaiting.latch.resolve_left hsolicited
    have hunsolicited : src.unsolicited = true := by
      unfold Source.unsolicited
      simp [hsolicited, hempty]
    have hnot : src.resolicit s.downloads.config d.blockHashes.isNone now = none := by
      unfold Source.resolicit Source.stalled
      simp [hsolicited]
    refine mem_append_right _ (mem_progressAndSolicit file ?_ ?_ hunsolicited)
    · exact hlive file d hd
    · rw [sources_snub, hsrc, filter_some, hkept]
      simp only [Bool.not_false, if_true, map_some, hnot, getD_none]

end Run

/-- One file of one byte, and its only source. -/
def startLone : Call Nat := .start 7 1 5 "f" [1] 0 0 ⟨none, true, none⟩

/-- The source loses its stream before it advertises, is asked again and then advertises. -/
def recovered : Logged Nat :=
  (runWith (Logged.step fun _ => 0) (fun s c => decide (s.Steady c))
    (Logged.new ⟨1, 1, 30000, 5000⟩)
    [startLone, .requeueSource 7 1 1, .tick 2,
      .peerMessage 1 (.fileAvailability 7 ⟨[1], 1⟩) 3 ⟨.done, fun _ => true⟩]).get
    (by decide +kernel)

theorem never_forgets_of_steady_recovered :
    (recovered.downloads.pendingSource 7 1).map (·.solicited) = some true ∧
      recovered.contact 7 1 = some 3 ∧ recovered.NeverForgets :=
  ⟨by decide +kernel, by decide +kernel, never_forgets_of_steady
    (reach_of_runWith _ (fun _ _ => of_decide_eq_true) (some_get _).symm)⟩

/-- The source advertises, and then its stream is lost. -/
def forgotten : Logged Nat :=
  (runWith (Logged.step fun _ => 0) (fun s c => decide (s.Timely c))
    (Logged.new ⟨1, 1, 30000, 5000⟩)
    [startLone, .peerMessage 1 (.fileAvailability 7 ⟨[1], 1⟩) 1 ⟨.done, fun _ => true⟩,
      .streamLost 7 1 2]).get (by decide +kernel)

/-- **A source that advertised before its stream died is forgotten.** -/
theorem advertised_source_forgotten :
    Reach (Logged.step fun _ => 0) Logged.Timely (Logged.new ⟨1, 1, 30000, 5000⟩)
        forgotten ∧ ¬ forgotten.NeverForgets := by
  refine ⟨reach_of_runWith _ (fun _ _ => of_decide_eq_true) (some_get _).symm,
    fun h => ?_⟩
  have hstate : (forgotten.downloads.files[7]?.map fun d =>
      (d.blockHashes, (d.sources[1]?).map (·.hashesReplied))) = some (none, some false) := by
    decide +kernel
  obtain ⟨d, hd, hfields⟩ := map_eq_some_iff.mp hstate
  obtain ⟨hpending, hsource⟩ := Prod.mk.inj hfields
  obtain ⟨src, hsrc, hreplied⟩ := map_eq_some_iff.mp hsource
  have hcontact : forgotten.contact 7 1 = some 1 := by decide +kernel
  have hasked := h 7 d hd hpending 1 src hsrc hreplied 300001 fun t ht => by
    rw [hcontact] at ht
    cases ht
    decide +kernel
  have hsilent : (forgotten.downloads.tick 300001).2.any (·.asksHashes 7 1) = false := by
    decide +kernel
  rw [hsilent] at hasked
  cases hasked

end Downloads

end Log

end DessPlay.Transfer
