/-
  DessPlay.Transfer.Scheduler
  **THE DOWNLOAD MANAGER** (`dessplay/src/download.rs`): a synchronous state machine
  that takes calls (source sets, peer messages, stream losses, ticks) and returns the
  actions to perform.

  Peers are any linearly ordered type.  What the program asks of the outside world is
  part of the call: the file system a `start` finds, the outcome of a write, the blocks
  that can be read back.

  Two things are recorded that the program does not keep, and nothing reads them:
  how a request in flight was ISSUED, and the download a `Complete` is about.
-/
import DessPlay.Lib.Machine
import DessPlay.Transfer.ChunkStore

namespace DessPlay.Transfer

open BTree DessPlay.Core

/-! ## §1. Data. -/

structure DownloadConfig where
  pipelineDepth : Nat
  maxSources : Nat
  snubTimeoutMillis : Nat
  urgentAgeMillis : Nat

inductive PeerMessage where
  | fileAvailability (file : Ed2kHash) (bitfield : Bitfield)
  | blockHashRequest (file : Ed2kHash)
  | blockHashes (file : Ed2kHash) (hashes : List Ed2kBlockHash)
  | chunkRequest (file : Ed2kHash) (chunks : List Nat)
  | chunkData (file : Ed2kHash) (index : Nat) (data : List UInt8)
  | cancel (file : Ed2kHash) (chunks : List Nat)
  | cannotServe (file : Ed2kHash)
  deriving DecidableEq

/-- How a request in flight was issued: when, among all requests, and whether the chunk was
urgent then. -/
structure Issue where
  seq : Nat
  urgent : Bool
  deriving DecidableEq

/-- `in_flight` is the set of the map's keys. -/
structure Source where
  bitfield : Bitfield
  inFlight : BTreeMap Nat Issue
  lastProgress : Nat
  solicited : Bool
  hashesReplied : Bool
  solicitAttempts : Nat
  deadStreams : Nat
  retryAt : Nat
  deriving DecidableEq

/-- One active download; `blockHashes` is `none` while they are `Pending`. -/
structure Download (P : Type) [LinearOrder P] where
  store : ChunkStore
  root : Ed2kHash
  sizeBytes : Nat
  blockHashes : Option (List Ed2kBlockHash)
  sources : BTreeMap P Source
  denied : BTreeSet P
  playChunk : Nat
  firstRequested : BTreeMap Nat Nat
  lastProgressBps : Nat
  lastPlayable : Bool

/-- `complete` also carries the download it is about, which the manager has dropped. -/
inductive DownloadAction (P : Type) [LinearOrder P] where
  | send (peer : P) (message : PeerMessage)
  | progress (file : Ed2kHash) (progressBps : Nat) (playable : Bool)
  | complete (file : Ed2kHash) (path : String) (blockHashes : List Ed2kBlockHash)
      (finished : Download P)
  | abandon (file : Ed2kHash) (reason : String)

/-- The manager; `issued` numbers the requests. -/
structure Downloads (P : Type) [LinearOrder P] where
  config : DownloadConfig
  files : BTreeMap Ed2kHash (Download P)
  priority : BTreeMap Ed2kHash Nat
  nowPlaying : Option Ed2kHash
  issued : Nat

def MAX_SOLICIT_ATTEMPTS : Nat := 3

def GIVE_UP_COOLDOWN_MULTIPLIER : Nat := 10

def SEQUENTIAL_WINDOW_FRAC : Nat := ChunkStore.PLAYABLE_WINDOW_FRAC

/-- Saturating `u64` arithmetic. -/
def satU64 (n : Nat) : Nat := min n (2 ^ 64 - 1)

/-- Retry delay after the `losses`-th data-less stream loss in a row. -/
def streamBackoff (losses : Nat) : Nat :=
  if losses ≤ 1 then 0 else min (satU64 (1000 * 2 ^ min (losses - 2) 16)) 30000

/-! ## §2. One source. -/

namespace Source

def new (chunks now : Nat) : Source where
  bitfield := .new chunks
  inFlight := ∅
  lastProgress := now
  solicited := false
  hashesReplied := false
  solicitAttempts := 0
  deadStreams := 0
  retryAt := 0

def delivered (src : Source) (index now : Nat) : Source :=
  { src with lastProgress := now, inFlight := src.inFlight.erase index, deadStreams := 0 }

/-- The source after its stream died. -/
def requeue (src : Source) (now : Nat) : Source :=
  let deadStreams := ChunkStore.satU32 (src.deadStreams + 1)
  { src with
    inFlight := ∅
    solicited := false
    lastProgress := now
    deadStreams
    retryAt := satU64 (now + streamBackoff deadStreams) }

def snubbed (cfg : DownloadConfig) (now : Nat) (src : Source) : Bool :=
  !src.inFlight.isEmpty && decide (cfg.snubTimeoutMillis ≤ now - src.lastProgress)

def stalled (needHashes : Bool) (src : Source) : Bool :=
  src.solicited && src.inFlight.isEmpty &&
    (src.bitfield.countOnes == 0 || (needHashes && !src.hashesReplied))

/-- The second loop of `snub`: the source as it is asked again, if it is. -/
def resolicit (cfg : DownloadConfig) (needHashes : Bool) (now : Nat) (src : Source) :
    Option Source :=
  if !src.stalled needHashes then none
  else
    let elapsed := now - src.lastProgress
    if MAX_SOLICIT_ATTEMPTS ≤ src.solicitAttempts then
      if elapsed < satU64 (cfg.snubTimeoutMillis * GIVE_UP_COOLDOWN_MULTIPLIER) then none
      else some { src with lastProgress := now, solicitAttempts := 1 }
    else if elapsed < cfg.snubTimeoutMillis then none
    else some { src with lastProgress := now, solicitAttempts := src.solicitAttempts + 1 }

def request (src : Source) (urgent : Nat → Bool) (issued : Nat) (take : List Nat) : Source :=
  { src with inFlight := take.foldl (fun m c => m.insert c ⟨issued, urgent c⟩) src.inFlight }

/-- Neither asked nor heard from. -/
def unsolicited (src : Source) : Bool := !src.solicited && src.bitfield.countOnes == 0

end Source

/-! ## §3. One download. -/

section Manager

variable {P : Type} [LinearOrder P]

namespace Download

/-- `if let Some(src) = d.sources.get_mut(peer)`. -/
def updateSource (d : Download P) (peer : P) (f : Source → Source) : Download P :=
  match d.sources[peer]? with
  | some src => { d with sources := d.sources.insert peer (f src) }
  | none => d

def new (store : ChunkStore) (root : Ed2kHash) (sizeBytes playChunk : Nat) : Download P where
  store := store
  root := root
  sizeBytes := sizeBytes
  blockHashes := none
  sources := ∅
  denied := ∅
  playChunk := playChunk
  firstRequested := ∅
  lastProgressBps := 0
  lastPlayable := false

/-- `d.sources.entry(peer).or_insert_with(..)`, unless the peer is denied. -/
def addSource (d : Download P) (now : Nat) (peer : P) : Download P :=
  if d.denied.contains peer then d
  else
    match d.sources[peer]? with
    | some _ => d
    | none =>
      { d with sources := d.sources.insert peer (.new (chunkCount d.sizeBytes) now) }

def setSources (d : Download P) (sources : List P) (playChunk now : Nat) : Download P :=
  sources.foldl (fun d peer => d.addSource now peer)
    { d with
      playChunk
      sources := d.sources.filter fun peer _ => decide (peer ∈ sources)
      denied := d.denied.filter fun peer => decide (peer ∈ sources) }

def deny (d : Download P) (peer : P) : Download P :=
  { d with sources := d.sources.erase peer, denied := d.denied.insert peer }

def cancelElsewhere (d : Download P) (file : Ed2kHash) (index : Nat) (arrivedFrom : P) :
    Download P × List (DownloadAction P) :=
  ({ d with
      sources := d.sources.map fun peer src =>
        if peer = arrivedFrom then src else { src with inFlight := src.inFlight.erase index } },
    d.sources.toList.filterMap fun (peer, src) =>
      if peer ≠ arrivedFrom ∧ src.inFlight.contains index then
        some (.send peer (.cancel file [index]))
      else none)

def verifyAndCollect (md4 : List UInt8 → Nat) (readable : Nat → Bool) (d : Download P) :
    Download P :=
  match d.blockHashes with
  | none => d
  | some hashes => { d with store := d.store.verify md4 hashes readable }

def snub (cfg : DownloadConfig) (file : Ed2kHash) (now : Nat) (d : Download P) :
    Download P × List (DownloadAction P) :=
  let remaining := d.sources.filter fun _ src => !src.snubbed cfg now
  let needHashes := d.blockHashes.isNone
  ({ d with
      sources := remaining.map fun _ src => (src.resolicit cfg needHashes now).getD src },
    (d.sources.toList.filterMap fun (peer, src) =>
      if src.snubbed cfg now then some (.send peer (.cancel file src.inFlight.keys)) else none) ++
    remaining.toList.filterMap fun (peer, src) =>
      if (src.resolicit cfg needHashes now).isSome then some (.send peer (.blockHashRequest file))
      else none)

def solicit (d : Download P) (file : Ed2kHash) : Download P × List (DownloadAction P) :=
  ({ d with
      sources := d.sources.map fun _ src =>
        if src.unsolicited then { src with solicited := true } else src },
    d.sources.toList.filterMap fun (peer, src) =>
      if src.unsolicited then some (.send peer (.blockHashRequest file)) else none)

def report (d : Download P) (file : Ed2kHash) : Download P × List (DownloadAction P) :=
  let bps := d.store.progressBps
  let playable := d.store.playableFrom d.playChunk
  if bps ≠ d.lastProgressBps ∨ playable ≠ d.lastPlayable then
    ({ d with lastProgressBps := bps, lastPlayable := playable }, [.progress file bps playable])
  else (d, [])

/-- `none` once the download is complete and dropped. -/
def progressAndSolicit (d : Download P) (file : Ed2kHash) :
    Option (Download P) × List (DownloadAction P) :=
  if d.store.isComplete then
    (none, [.complete file d.store.path (d.blockHashes.getD []) d])
  else
    let asked := d.solicit file
    if d.blockHashes.isNone then (some asked.1, asked.2)
    else
      let reported := asked.1.report file
      (some reported.1, asked.2 ++ reported.2)

end Download

/-! ## §4. Planning requests. -/

structure Plan where
  needed : List Nat
  urgent : Nat → Bool
  inWindow : Nat → Bool
  rarity : Nat → Nat

/-- Sort order of a source's candidates: urgent chunks by index, then the window by index, then
rarest first. -/
def Plan.cmp (plan : Plan) (a b : Nat) : Ordering :=
  let au := plan.urgent a
  let bu := plan.urgent b
  let aw := plan.inWindow a
  let bw := plan.inWindow b
  ((compare bu au).then (compare bw aw)).then
    (if (au && bu) || (aw && bw) then compare a b
    else (compare (plan.rarity a) (plan.rarity b)).then (compare a b))

/-- Urgent chunks go out whatever is left of the budget; the first bulk chunk past it ends the
list. -/
def takeLoop (urgent : Nat → Bool) : Nat → List Nat → List Nat
  | _, [] => []
  | bulkLeft, c :: cs =>
    if urgent c then c :: takeLoop urgent bulkLeft cs
    else
      match bulkLeft with
      | 0 => []
      | bulkLeft + 1 => c :: takeLoop urgent bulkLeft cs

structure Pass (P : Type) [LinearOrder P] where
  download : Download P
  assigned : List Nat
  budget : P → Nat
  issued : Nat
  actions : List (DownloadAction P)

namespace Download

/-- Commit `take` to a source. -/
def commit (d : Download P) (plan : Plan) (now issued : Nat) (peer : P) (src : Source)
    (take : List Nat) : Download P :=
  { d with
    sources := d.sources.insert peer (src.request plan.urgent issued take)
    firstRequested := take.foldl (fun m c => m.insertIfNew c now) d.firstRequested }

def candidates (cfg : DownloadConfig) (plan : Plan) (assigned : List Nat) (rank : Nat)
    (src : Source) : List Nat :=
  plan.needed.filter fun c =>
    src.bitfield.get c && !src.inFlight.contains c &&
      (if plan.urgent c then true
      else !decide (cfg.maxSources ≤ rank) && !assigned.contains c)

def planSource (cfg : DownloadConfig) (file : Ed2kHash) (now : Nat) (plan : Plan) (pass : Pass P)
    (peer : P) (rank : Nat) : Pass P :=
  match pass.download.sources[peer]? with
  | none => pass
  | some src =>
    if now < src.retryAt then pass
    else
      let slots := cfg.pipelineDepth - pass.budget peer
      let sorted := (candidates cfg plan pass.assigned rank src).insertionSort
        fun a b => (plan.cmp a b).isLE
      let take := takeLoop plan.urgent slots sorted
      if take.isEmpty then pass
      else
        { download := pass.download.commit plan now pass.issued peer src take
          assigned := pass.assigned ++ take
          budget := Function.update pass.budget peer (pass.budget peer + take.length)
          issued := pass.issued + 1
          actions := pass.actions ++ [.send peer (.chunkRequest file take)] }

def plan (cfg : DownloadConfig) (d : Download P) (windowUrgent : Bool) (now : Nat) : Plan :=
  let needed := d.store.neededChunks
  let endgame := decide (asU32 needed.length ≤ cfg.pipelineDepth)
  let windowEnd := ChunkStore.satU32
    (d.playChunk + (chunkCount d.sizeBytes / SEQUENTIAL_WINDOW_FRAC + 1))
  -- the window rounded out to whole blocks, which is what gates playback
  let gateStart := d.playChunk / CHUNKS_PER_BLOCK * CHUNKS_PER_BLOCK
  let gateEnd := ChunkStore.satU32 (divCeil windowEnd CHUNKS_PER_BLOCK * CHUNKS_PER_BLOCK)
  let inWindow := fun c => decide (gateStart ≤ c) && decide (c < gateEnd)
  { needed
    inWindow
    urgent := fun c => endgame || (windowUrgent && inWindow c &&
      (d.firstRequested[c]?).any fun t₀ => decide (cfg.urgentAgeMillis ≤ now - t₀))
    rarity := fun c =>
      let holders := d.sources.toList.countP fun (_, src) => src.bitfield.get c
      if holders = 0 then 2 ^ 32 - 1 else holders }

def planRequests (cfg : DownloadConfig) (file : Ed2kHash) (windowUrgent : Bool) (now : Nat)
    (d : Download P) (budget : P → Nat) (issued : Nat) : Pass P :=
  let plan := d.plan cfg windowUrgent now
  let start : Pass P :=
    { download := d
      assigned := d.sources.toList.flatMap fun (_, src) => src.inFlight.keys
      budget
      issued
      actions := [] }
  if plan.needed.isEmpty then start
  else
    d.sources.keys.zipIdx.foldl
      (fun pass entry => planSource cfg file now plan pass entry.1 entry.2) start

end Download

/-! ## §5. The manager. -/

namespace Downloads

def new (config : DownloadConfig) : Downloads P where
  config := config
  files := ∅
  priority := ∅
  nowPlaying := none
  issued := 0

def put (s : Downloads P) (file : Ed2kHash) (d : Download P) : Downloads P :=
  { s with files := s.files.insert file d }

def setPriority (s : Downloads P) (order : List Ed2kHash) (nowPlaying : Option Ed2kHash) :
    Downloads P :=
  { s with
    priority := order.zipIdx.foldl (fun m entry => m.insert entry.1 entry.2) ∅
    nowPlaying }

/-- Where a file stands in the fill order; unranked files come last, by hash. -/
def rank (s : Downloads P) (file : Ed2kHash) : Nat ×ₗ Ed2kHash :=
  lex (s.priority[file]?.getD (2 ^ 64 - 1)) file

def priorityOrderedFiles (s : Downloads P) : List Ed2kHash :=
  s.files.keys.insertionSort fun a b => s.rank a ≤ s.rank b

def inFlightAt (s : Downloads P) (peer : P) : Nat :=
  total (fun _ d => (d.sources[peer]?).elim 0 fun src => src.inFlight.size) s.files

structure Refill (P : Type) [LinearOrder P] where
  downloads : Downloads P
  budget : P → Nat
  actions : List (DownloadAction P)

def worthPlanning (s : Downloads P) (urgentSweep windowUrgent : Bool) (budget : P → Nat)
    (d : Download P) : Bool :=
  (d.sources.keys.any fun peer => decide (budget peer < s.config.pipelineDepth)) ||
    (urgentSweep &&
      ((windowUrgent && !d.firstRequested.isEmpty) ||
        decide (d.store.neededChunks.length ≤ s.config.pipelineDepth)))

/-- The body of the loop over all files. -/
def planFile (now : Nat) (urgentSweep : Bool) (r : Refill P) (file : Ed2kHash) : Refill P :=
  let windowUrgent := r.downloads.nowPlaying == some file
  match r.downloads.files[file]? with
  | none => r
  | some d =>
    if d.sources.isEmpty || d.blockHashes.isNone then r
    else if !r.downloads.worthPlanning urgentSweep windowUrgent r.budget d then r
    else
      let pass := d.planRequests r.downloads.config file windowUrgent now r.budget
        r.downloads.issued
      { downloads := { r.downloads.put file pass.download with issued := pass.issued }
        budget := pass.budget
        actions := r.actions ++ pass.actions }

def planAll (s : Downloads P) (now : Nat) (urgentSweep : Bool) : Refill P :=
  s.priorityOrderedFiles.foldl (planFile now urgentSweep)
    { downloads := s, budget := s.inFlightAt, actions := [] }

def progressAndSolicit (s : Downloads P) (file : Ed2kHash) :
    Downloads P × List (DownloadAction P) :=
  match s.files[file]? with
  | none => (s, [])
  | some d =>
    let r := d.progressAndSolicit file
    match r.1 with
    | none => ({ s with files := s.files.erase file }, r.2)
    | some d' => (s.put file d', r.2)

def progressAndRefill (s : Downloads P) (file : Ed2kHash) (now : Nat) :
    Downloads P × List (DownloadAction P) :=
  let r := s.progressAndSolicit file
  let filled := r.1.planAll now false
  (filled.downloads, r.2 ++ filled.actions)

def setSources (s : Downloads P) (file : Ed2kHash) (sources : List P) (playChunk now : Nat) :
    Downloads P × List (DownloadAction P) :=
  match s.files[file]? with
  | none => (s, [])
  | some d => (s.put file (d.setSources sources playChunk now)).progressAndRefill file now

def start (s : Downloads P) (file : Ed2kHash) (sizeBytes : Nat) (root : Ed2kHash)
    (path : String) (sources : List P) (playChunk now : Nat) (fs : FileSystem) :
    Downloads P × List (DownloadAction P) :=
  match s.files[file]? with
  | some _ => s.setSources file sources playChunk now
  | none =>
    match ChunkStore.openFile fs path sizeBytes with
    | .error e => (s, [.abandon file ("opening download file: " ++ e)])
    | .ok store =>
      (s.put file (.new store root sizeBytes playChunk)).setSources file sources playChunk now

def cancel (s : Downloads P) (file : Ed2kHash) : Downloads P × List (DownloadAction P) :=
  match s.files[file]? with
  | none => (s, [])
  | some d =>
    ({ s with files := s.files.erase file },
      d.sources.toList.filterMap fun (peer, src) =>
        if src.inFlight.isEmpty then none
        else some (.send peer (.cancel file src.inFlight.keys)))

/-- What the disk does while a message is handled. -/
structure DiskIo where
  write : WriteOutcome
  readable : Nat → Bool

variable (md4 : List UInt8 → Nat)

def onBlockHashes (s : Downloads P) (file : Ed2kHash) (sender : P) (hashes : List Ed2kBlockHash)
    (now : Nat) (io : DiskIo) : Downloads P × List (DownloadAction P) :=
  match s.files[file]? with
  | none => (s, [])
  | some d =>
    if d.blockHashes.isSome then (s, [])
    else if !d.store.blockHashesMatch md4 d.root hashes then
      (s.put file { d with sources := d.sources.erase sender }).progressAndRefill file now
    else
      let d := { d with blockHashes := some hashes }
      let d := d.updateSource sender fun src => { src with hashesReplied := true }
      (s.put file (d.verifyAndCollect md4 io.readable)).progressAndRefill file now

def onChunkData (s : Downloads P) (file : Ed2kHash) (sender : P) (index : Nat)
    (data : List UInt8) (now : Nat) (io : DiskIo) : Downloads P × List (DownloadAction P) :=
  match s.files[file]? with
  | none => (s, [])
  | some d =>
    let d := d.updateSource sender fun src => src.delivered index now
    if d.store.isWritten index then
      let r := d.cancelElsewhere file index sender
      (s.put file r.1, r.2)
    else
      let written := d.store.writeChunk index data io.write
      let d := { d with store := written.1 }
      if !written.2 then (s.put file d, [])
      else
        let cancelled := d.cancelElsewhere file index sender
        let r := (s.put file (cancelled.1.verifyAndCollect md4 io.readable)).progressAndRefill
          file now
        (r.1, cancelled.2 ++ r.2)

def onPeerMessage (s : Downloads P) (sender : P) (message : PeerMessage) (now : Nat)
    (io : DiskIo) : Downloads P × List (DownloadAction P) :=
  match message with
  | .fileAvailability file bitfield =>
    match s.files[file]? with
    | none => (s, [])
    | some d =>
      if !bitfield.isValidFor (chunkCount d.sizeBytes) then (s, [])
      else
        (s.put file (d.updateSource sender fun src => { src with bitfield })).progressAndRefill
          file now
  | .blockHashes file hashes => s.onBlockHashes md4 file sender hashes now io
  | .cannotServe file =>
    match s.files[file]? with
    | none => (s, [])
    | some d => (s.put file (d.deny sender)).progressAndRefill file now
  | .chunkData file index data => s.onChunkData md4 file sender index data now io
  | .blockHashRequest _ | .chunkRequest _ _ | .cancel _ _ => (s, [])

def requeueSource (s : Downloads P) (file : Ed2kHash) (peer : P) (now : Nat) : Downloads P :=
  match s.files[file]? with
  | none => s
  | some d => s.put file (d.updateSource peer fun src => src.requeue now)

def onSourceStreamLost (s : Downloads P) (file : Ed2kHash) (peer : P) (now : Nat) :
    Downloads P × List (DownloadAction P) :=
  (s.requeueSource file peer now).progressAndRefill file now

def snub (s : Downloads P) (file : Ed2kHash) (now : Nat) : Downloads P × List (DownloadAction P) :=
  match s.files[file]? with
  | none => (s, [])
  | some d =>
    let r := d.snub s.config file now
    (s.put file r.1, r.2)

/-- The body of the loop of `tick`. -/
def tickFile (now : Nat) (acc : Downloads P × List (DownloadAction P)) (file : Ed2kHash) :
    Downloads P × List (DownloadAction P) :=
  let snubbed := acc.1.snub file now
  let progressed := snubbed.1.progressAndSolicit file
  (progressed.1, acc.2 ++ snubbed.2 ++ progressed.2)

def tick (s : Downloads P) (now : Nat) : Downloads P × List (DownloadAction P) :=
  let r := s.priorityOrderedFiles.foldl (tickFile now) (s, [])
  let filled := r.1.planAll now true
  (filled.downloads, r.2 ++ filled.actions)

/-! ## §6. Runs. -/

inductive Call (P : Type) where
  | setPriority (order : List Ed2kHash) (nowPlaying : Option Ed2kHash)
  | start (file : Ed2kHash) (sizeBytes : Nat) (root : Ed2kHash) (path : String)
      (sources : List P) (playChunk now : Nat) (fs : FileSystem)
  | setSources (file : Ed2kHash) (sources : List P) (playChunk now : Nat)
  | cancel (file : Ed2kHash)
  | peerMessage (sender : P) (message : PeerMessage) (now : Nat) (io : DiskIo)
  | streamLost (file : Ed2kHash) (peer : P) (now : Nat)
  | requeueSource (file : Ed2kHash) (peer : P) (now : Nat)
  | tick (now : Nat)

def call (s : Downloads P) : Call P → Downloads P × List (DownloadAction P)
  | .setPriority order nowPlaying => (s.setPriority order nowPlaying, [])
  | .start file sizeBytes root path sources playChunk now fs =>
    s.start file sizeBytes root path sources playChunk now fs
  | .setSources file sources playChunk now => s.setSources file sources playChunk now
  | .cancel file => s.cancel file
  | .peerMessage sender message now io => s.onPeerMessage md4 sender message now io
  | .streamLost file peer now => s.onSourceStreamLost file peer now
  | .requeueSource file peer now => (s.requeueSource file peer now, [])
  | .tick now => s.tick now

/-- The manager as a machine; every call is enabled. -/
def step (s : Downloads P) (c : Call P) : Option (Downloads P) := some (s.call md4 c).1

def runCalls (s : Downloads P) (calls : List (Call P)) : Downloads P :=
  calls.foldl (fun s c => (s.call md4 c).1) s

theorem reach_runCalls (s : Downloads P) (calls : List (Call P)) :
    Machine.Reach (step md4) Machine.anyStep s (runCalls md4 s calls) := by
  induction calls generalizing s with
  | nil => exact .refl
  | cons c calls ih => exact Machine.Reach.trans (.step .refl trivial rfl) (ih _)

variable {md4}

end Downloads

end Manager

end DessPlay.Transfer
