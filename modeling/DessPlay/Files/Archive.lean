/-
  DessPlay.Files.Archive
  **ARCHIVING CACHED FILES** (`archive_start`, `archive_finish` and
  `maybe_auto_archive` in `dessplay/src/actors/file.rs`).

  A cached file is moved under the download root: renamed, or, across devices, copied
  by a task in the background and then deleted.  Both replace what is at the
  destination, and the destination is computed from two names without a look at the
  disk.  So nothing is lost exactly as long as nothing is THERE: no file, no other
  archive on its way, no cached file (`Kept`).
-/
import DessPlay.Files.Paths
import DessPlay.Lib.Machine

namespace DessPlay.Files

open BTree DessPlay.Core List Option Function Machine

/-! ## §1. The actor's part. -/

structure ArchivePolicy where
  subdirectory : Bool
  autoOnWatched : Bool

structure WatchRecord where
  seriesName : Option Name
  filename : Name

/-- The parts of the file actor that an archive reads or writes.  `cacheEntries`,
`storedHashes` and `watched` are tables of the storage. -/
structure Actor where
  mediaRoots : List Path
  archive : ArchivePolicy
  archiving : BTreeSet Ed2kHash
  cacheEntries : BTreeMap Ed2kHash Path
  storedHashes : BTreeMap Path HashRow
  watched : BTreeMap Ed2kHash WatchRecord
  hashCache : BTreeMap Path HashRow
  localFiles : BTreeMap Ed2kHash Path
  /-- The `Archived` outputs, newest last. -/
  out : List (Ed2kHash × Except String Path)

/-- A copy in the background.  `result` is set when the copy is over and its completion
is on its way to the actor. -/
structure Copy where
  file : Ed2kHash
  source : Path
  dest : Path
  result : Option (Except String Path)

/-- The actor, its copies and the files of the machine; `B` is what a file can hold. -/
structure World (B : Type) where
  actor : Actor
  copies : List Copy
  disk : Path → Option B

/-- How the file system answered a rename. -/
inductive Rename where
  | renamed
  | crossesDevices
  | failed (message : String)

structure Io where
  /-- `create_dir_all` failed. -/
  createDir : Option String
  rename : Rename
  /-- The destination's modification time, if it can be read. -/
  mtime : Option Int

/-- How a copy went.  A failed one may have written part of the destination. -/
inductive CopyOutcome (B : Type) where
  | copied
  | failed (message : String) (left : Option B)

inductive ArchiveStep where
  | done (source dest : Path)
  | copying

def destination (root : Path) (policy : ArchivePolicy) (seriesName : Option Name)
    (filename : Name) : Path :=
  if policy.subdirectory then
    root ++ [sanitizeComponent (seriesName.getD unsorted), sanitizeComponent filename]
  else root ++ [sanitizeComponent filename]

namespace Actor

def emit (a : Actor) (file : Ed2kHash) (result : Except String Path) : Actor :=
  { a with out := a.out ++ [(file, result)] }

def cacheEntryPath (a : Actor) (file : Ed2kHash) : Except String Path :=
  match a.cacheEntries[file]? with
  | some path => .ok path
  | none => .error "not a cached download"

/-- Re-key the hash rows of a moved file. -/
def rekey (a : Actor) (source dest : Path) (mtime : Option Int) : Actor :=
  match a.hashCache[source]?, mtime with
  | some row, some mtime =>
    { a with
      storedHashes := (a.storedHashes.erase source).insert dest ⟨mtime, row.hash⟩
      hashCache := (a.hashCache.erase source).insert dest ⟨mtime, row.hash⟩ }
  | some _, none =>
    { a with
      storedHashes := a.storedHashes.erase source
      hashCache := a.hashCache.erase source }
  | none, _ => { a with storedHashes := a.storedHashes.erase source }

def settle (a : Actor) (file : Ed2kHash) (source dest : Path) (mtime : Option Int) : Actor :=
  ({ a with
    cacheEntries := a.cacheEntries.erase file
    localFiles := a.localFiles.insert file dest }.rekey source dest mtime).emit file (.ok dest)

section Settle

variable (a : Actor) (file : Ed2kHash) (source dest : Path) (mtime : Option Int)

theorem rekey_frame : ∃ storedHashes hashCache, a.rekey source dest mtime =
    { a with storedHashes := storedHashes, hashCache := hashCache } := by
  unfold rekey
  split
  · exact ⟨_, _, rfl⟩
  · exact ⟨_, _, rfl⟩
  · exact ⟨_, _, rfl⟩

theorem settle_frame : ∃ storedHashes hashCache, a.settle file source dest mtime =
    { a with
      cacheEntries := a.cacheEntries.erase file
      localFiles := a.localFiles.insert file dest
      storedHashes := storedHashes
      hashCache := hashCache
      out := a.out ++ [(file, .ok dest)] } := by
  obtain ⟨storedHashes, hashCache, hrekey⟩ := rekey_frame { a with
    cacheEntries := a.cacheEntries.erase file
    localFiles := a.localFiles.insert file dest } source dest mtime
  exact ⟨storedHashes, hashCache, by rw [settle, hrekey]; rfl⟩

end Settle

end Actor

namespace World

variable {B : Type}

def put (w : World B) (path : Path) (content : Option B) : World B :=
  { w with disk := update w.disk path content }

def move (w : World B) (source dest : Path) (content : B) : World B :=
  (w.put source none).put dest (some content)

def emit (w : World B) (file : Ed2kHash) (result : Except String Path) : World B :=
  { w with actor := w.actor.emit file result }

def startCopy (w : World B) (file : Ed2kHash) (source dest : Path) : World B :=
  { w with
    actor := { w.actor with archiving := w.actor.archiving.insert file }
    copies := w.copies ++ [⟨file, source, dest, none⟩] }

def archiveStart (w : World B) (file : Ed2kHash) (seriesName : Option Name) (filename : Name)
    (io : Io) : Except String (ArchiveStep × World B) :=
  if file ∈ w.actor.archiving then .error "archive already in progress"
  else
    match w.actor.mediaRoots.head? with
    | none => .error "no download root configured"
    | some downloadRoot =>
      let dest := destination downloadRoot w.actor.archive seriesName filename
      match w.actor.cacheEntryPath file with
      | .error message => .error message
      | .ok source =>
        match io.createDir with
        | some message => .error message
        | none =>
          match io.rename with
          | .renamed =>
            match w.disk source with
            | some content => .ok (.done source dest, w.move source dest content)
            | none => .error "No such file or directory"
          | .crossesDevices => .ok (.copying, w.startCopy file source dest)
          | .failed message => .error message

/-- The bytes are at `dest`; `removed` is whether a copy's source could be deleted. -/
def archiveFinish (w : World B) (file : Ed2kHash) (source dest : Path) (copied removed : Bool)
    (mtime : Option Int) : World B :=
  let settled := { w with actor := w.actor.settle file source dest mtime }
  if copied && removed then settled.put source none else settled

def archive (w : World B) (file : Ed2kHash) (seriesName : Option Name) (filename : Name)
    (io : Io) : World B :=
  match w.archiveStart file seriesName filename io with
  | .ok (.done source dest, w) => w.archiveFinish file source dest false false io.mtime
  | .ok (.copying, w) => w
  | .error message => w.emit file (.error message)

def maybeAutoArchive (w : World B) (file : Ed2kHash) (io : Io) : World B :=
  if !w.actor.archive.autoOnWatched then w
  else
    match w.actor.watched[file]? with
    | none => w
    | some record =>
      match w.actor.cacheEntryPath file with
      | .error _ => w
      | .ok _ => w.archive file record.seriesName record.filename io

def report (w : World B) (i : Nat) (task : Copy) (result : Except String Path) : World B :=
  { w with copies := w.copies.set i { task with result := some result } }

def copy (w : World B) (i : Nat) (task : Copy) : CopyOutcome B → World B
  | .copied =>
    match w.disk task.source with
    | some content => (w.put task.dest (some content)).report i task (.ok task.dest)
    | none => w.report i task (.error "No such file or directory")
  | .failed message none => w.report i task (.error message)
  | .failed message (some content) =>
    (w.put task.dest (some content)).report i task (.error message)

def take (w : World B) (i : Nat) (task : Copy) : World B :=
  { w with
    actor := { w.actor with archiving := w.actor.archiving.erase task.file }
    copies := w.copies.eraseIdx i }

/-- `Done::Archived` is handled. -/
def onArchived (w : World B) (i : Nat) (task : Copy) (removed : Bool) (mtime : Option Int) :
    Except String Path → World B
  | .ok dest => (w.take i task).archiveFinish task.file task.source dest true removed mtime
  | .error message => (w.take i task).emit task.file (.error message)

end World

/-- What can happen: a request, an automatic one, a copy that ends, a completion that is
handled. -/
inductive Event (B : Type) where
  | archive (file : Ed2kHash) (seriesName : Option Name) (filename : Name) (io : Io)
  | maybeAutoArchive (file : Ed2kHash) (io : Io)
  | copy (i : Nat) (outcome : CopyOutcome B)
  | archived (i : Nat) (removed : Bool) (mtime : Option Int)

namespace World

variable {B : Type}

def step (w : World B) : Event B → Option (World B)
  | .archive file seriesName filename io => some (w.archive file seriesName filename io)
  | .maybeAutoArchive file io => some (w.maybeAutoArchive file io)
  | .copy i outcome =>
    match w.copies[i]? with
    | some task => if task.result.isNone then some (w.copy i task outcome) else none
    | none => none
  | .archived i removed mtime =>
    match w.copies[i]? with
    | some task => task.result.map (w.onArchived i task removed mtime)
    | none => none

/-! ## §2. What a run is asked to respect, and what it then keeps. -/

def vacant (w : World B) (dest : Path) : Bool :=
  (w.disk dest).isNone && w.copies.all (·.dest ≠ dest) &&
    w.actor.cacheEntries.toList.all (·.2 ≠ dest)

def findsVacant (w : World B) (seriesName : Option Name) (filename : Name) : Bool :=
  w.actor.mediaRoots.head?.all fun downloadRoot =>
    w.vacant (destination downloadRoot w.actor.archive seriesName filename)

def clear (w : World B) : Event B → Bool
  | .archive _ seriesName filename _ => w.findsVacant seriesName filename
  | .maybeAutoArchive file _ =>
    w.actor.watched[file]?.all fun record => w.findsVacant record.seriesName record.filename
  | .copy _ _ | .archived _ _ _ => true

def Landed (w : World B) (file : Ed2kHash) (dest : Path) : Prop := (file, .ok dest) ∈ w.actor.out

def Bound (w : World B) (file : Ed2kHash) (dest : Path) : Prop :=
  w.Landed file dest ∨ ∃ task ∈ w.copies, task.file = file ∧ task.dest = dest

def Holds (w₀ w : World B) (file : Ed2kHash) (dest : Path) (content : B) : Prop :=
  ∃ source, w₀.actor.cacheEntries[file]? = some source ∧ w₀.disk source = some content ∧
    w.disk dest = some content

/-- **Nothing is lost.** -/
structure Intact (w₀ w : World B) : Prop where
  /-- Every content is where it was, or was a cached file's and is where that landed. -/
  kept : ∀ path content, w₀.disk path = some content → w.disk path = some content ∨
    ∃ file dest, w.Landed file dest ∧ w₀.actor.cacheEntries[file]? = some path ∧
      w.disk dest = some content
  /-- What landed is strictly inside the download root, with the bytes of its source. -/
  landed : ∀ file dest, w.Landed file dest →
    (∃ downloadRoot, w₀.actor.mediaRoots.head? = some downloadRoot ∧
      StrictlyInside downloadRoot dest) ∧ ∃ content, Holds w₀ w file dest content
  /-- A file lands on one path. -/
  once : ∀ file dest other, w.Landed file dest → w.Landed file other → dest = other
  /-- Two files land on two paths. -/
  apart : ∀ file other dest, w.Landed file dest → w.Landed other dest → file = other

/-- Where files landed or are on their way to: inside the root, at no cached file, one path a file
and one file a path. -/
structure Placed (w₀ w : World B) : Prop where
  inside : ∀ file dest, w.Bound file dest → ∃ downloadRoot,
    w₀.actor.mediaRoots.head? = some downloadRoot ∧ StrictlyInside downloadRoot dest
  uncached : ∀ file dest, w.Bound file dest →
    ∀ (other : Ed2kHash) (path : Path), w.actor.cacheEntries[other]? = some path → path ≠ dest
  once : ∀ file dest other, w.Bound file dest → w.Bound file other → dest = other
  apart : ∀ file other dest, w.Bound file dest → w.Bound other dest → file = other

/-- The invariant: `Intact`, and what the copies under way need. -/
structure Kept (w₀ w : World B) : Prop extends Placed w₀ w where
  roots : w.actor.mediaRoots = w₀.actor.mediaRoots
  rows : ∀ (file : Ed2kHash) (path : Path), w.actor.cacheEntries[file]? = some path →
    w₀.actor.cacheEntries[file]? = some path
  cached : ∀ (file : Ed2kHash) (path : Path), w.actor.cacheEntries[file]? = some path →
    w.disk path = w₀.disk path ∨ w.disk path = none
  kept : ∀ path content, w₀.disk path = some content → w.disk path = some content ∨
    ∃ file dest, w.Landed file dest ∧ w₀.actor.cacheEntries[file]? = some path ∧
      w.disk dest = some content
  landed : ∀ file dest, w.Landed file dest →
    w.actor.cacheEntries[file]? = none ∧ ∃ content, Holds w₀ w file dest content
  files : (w.copies.map (·.file)).Nodup
  sources : ∀ task ∈ w.copies, w.actor.cacheEntries[task.file]? = some task.source ∧
    task.file ∈ w.actor.archiving
  running : ∀ task ∈ w.copies, task.result = none → w.disk task.dest = none
  copied : ∀ task ∈ w.copies, ∀ dest, task.result = some (.ok dest) →
    dest = task.dest ∧ ∃ content, Holds w₀ w task.file dest content

theorem Kept.intact {w₀ w : World B} (h : Kept w₀ w) : Intact w₀ w where
  kept := h.kept
  landed file dest hlanded :=
    ⟨h.inside file dest (.inl hlanded), (h.landed file dest hlanded).2⟩
  once file dest other hdest hother := h.once file dest other (.inl hdest) (.inl hother)
  apart file other dest hfile hother := h.apart file other dest (.inl hfile) (.inl hother)

def Idle (w : World B) : Prop := w.copies = [] ∧ w.actor.out = []

theorem kept_refl {w : World B} (h : w.Idle) : Kept w w := by
  obtain ⟨hcopies, hout⟩ := h
  have hlanded : ∀ file dest, ¬ w.Landed file dest := by
    intro file dest hmem
    rw [Landed, hout] at hmem
    cases hmem
  have htask : ∀ task, task ∉ w.copies := by
    intro task hmem
    rw [hcopies] at hmem
    cases hmem
  have hbound : ∀ file dest, ¬ w.Bound file dest := by
    rintro file dest (hmem | ⟨task, hmem, -⟩)
    · exact hlanded file dest hmem
    · exact htask task hmem
  exact
    { roots := rfl
      rows := fun _ _ hrow => hrow
      cached := fun _ _ _ => .inl rfl
      kept := fun _ _ hcontent => .inl hcontent
      landed := fun file dest hmem => absurd hmem (hlanded file dest)
      inside := fun file dest hmem => absurd hmem (hbound file dest)
      uncached := fun file dest hmem => absurd hmem (hbound file dest)
      once := fun file dest _ hmem => absurd hmem (hbound file dest)
      apart := fun file _ dest hmem => absurd hmem (hbound file dest)
      files := by rw [hcopies]; exact nodup_nil
      sources := fun task hmem => absurd hmem (htask task)
      running := fun task hmem => absurd hmem (htask task)
      copied := fun task hmem => absurd hmem (htask task) }

/-! ## §3. One lemma for each thing that can happen. -/

section Steps

variable {w₀ w : World B} {file : Ed2kHash} {source dest : Path} {i : Nat} {task : Copy}

theorem vacant_iff : w.vacant dest = true ↔ w.disk dest = none ∧
    (∀ task ∈ w.copies, task.dest ≠ dest) ∧
    ∀ (file : Ed2kHash) (path : Path), w.actor.cacheEntries[file]? = some path → path ≠ dest := by
  simp only [vacant, Bool.and_eq_true, Option.isNone_iff_eq_none, List.all_eq_true,
    decide_eq_true_eq, and_assoc]
  refine and_congr_right fun _ => and_congr_right fun _ => ⟨fun h file path hrow => ?_, ?_⟩
  · exact h (file, path) ((mem_entries _ _).mpr hrow)
  · exact fun h row hrow => h row.1 row.2 ((mem_entries _ _).mp hrow)

theorem Placed.of_bound {w' : World B} (h : Placed w₀ w)
    (hbound : ∀ f D, w'.Bound f D → w.Bound f D)
    (hrows : ∀ (f : Ed2kHash) (path : Path), w'.actor.cacheEntries[f]? = some path →
      w.actor.cacheEntries[f]? = some path) : Placed w₀ w' where
  inside f D hD := h.inside f D (hbound f D hD)
  uncached f D hD g path hg := h.uncached f D (hbound f D hD) g path (hrows g path hg)
  once f D E hD hE := h.once f D E (hbound f D hD) (hbound f E hE)
  apart f g D hf hg := h.apart f g D (hbound f D hf) (hbound g D hg)

theorem Kept.emit_error (h : Kept w₀ w) (message : String) :
    Kept w₀ (w.emit file (.error message)) := by
  have hlanded : ∀ f D, (w.emit file (.error message)).Landed f D ↔ w.Landed f D := by
    intro f D
    show _ ∈ w.actor.out ++ [_] ↔ _ ∈ w.actor.out
    rw [mem_append, mem_singleton]
    exact or_iff_left (by simp)
  exact
    { h with
      toPlaced := h.toPlaced.of_bound (fun f D => Or.imp_left (hlanded f D).mp) fun _ _ hrow => hrow
      kept := fun path content hcontent => (h.kept path content hcontent).imp_right
        fun ⟨f, D, hmem, hrest⟩ => ⟨f, D, (hlanded f D).mpr hmem, hrest⟩
      landed := fun f D hmem => h.landed f D ((hlanded f D).mp hmem) }

/-- **A copy starts**, towards a vacant path. -/
theorem Kept.startCopy (h : Kept w₀ w) (hrow : w.actor.cacheEntries[file]? = some source)
    (hfree : file ∉ w.actor.archiving) (hvacant : w.vacant dest = true)
    (hinside : ∃ downloadRoot, w₀.actor.mediaRoots.head? = some downloadRoot ∧
      StrictlyInside downloadRoot dest) :
    Kept w₀ (w.startCopy file source dest) := by
  obtain ⟨hdisk, hcopies, huncached⟩ := vacant_iff.mp hvacant
  have hmem : ∀ task, task ∈ (w.startCopy file source dest).copies →
      task ∈ w.copies ∨ task = ⟨file, source, dest, none⟩ := fun task hmem =>
    (mem_append.mp hmem).imp_right mem_singleton.mp
  have hbound : ∀ f D, (w.startCopy file source dest).Bound f D →
      w.Bound f D ∨ f = file ∧ D = dest := by
    rintro f D (hlanded | ⟨task, htask, rfl, rfl⟩)
    · exact .inl (.inl hlanded)
    · rcases hmem task htask with hold | rfl
      · exact .inl (.inr ⟨task, hold, rfl, rfl⟩)
      · exact .inr ⟨rfl, rfl⟩
  -- what is bound already is bound for another path, and is another file
  have hother : ∀ f D, w.Bound f D → f ≠ file ∧ D ≠ dest := by
    rintro f D (hlanded | ⟨task, htask, rfl, rfl⟩)
    · obtain ⟨hgone, content, _, -, -, hD⟩ := h.landed f D hlanded
      refine ⟨fun heq => ?_, fun heq => ?_⟩
      · rw [heq, hrow] at hgone
        cases hgone
      · rw [heq, hdisk] at hD
        cases hD
    · exact ⟨fun heq => hfree (heq ▸ (h.sources task htask).2), hcopies task htask⟩
  exact
    { h with
      inside := by
        intro f D hD
        rcases hbound f D hD with hold | ⟨-, rfl⟩
        · exact h.inside f D hold
        · exact hinside
      uncached := by
        intro f D hD
        rcases hbound f D hD with hold | ⟨-, rfl⟩
        · exact h.uncached f D hold
        · exact huncached
      once := by
        intro f D E hD hE
        rcases hbound f D hD with hold | ⟨hf, rfl⟩ <;>
          rcases hbound f E hE with hold' | ⟨hf', rfl⟩
        · exact h.once f D E hold hold'
        · exact absurd hf' (hother f D hold).1
        · exact absurd hf (hother f E hold').1
        · rfl
      apart := by
        intro f g D hf hg
        rcases hbound f D hf with hold | ⟨rfl, rfl⟩ <;> rcases hbound g D hg with hold' | ⟨rfl, heq⟩
        · exact h.apart f g D hold hold'
        · exact absurd heq (hother f D hold).2
        · exact absurd rfl (hother g _ hold').2
        · rfl
      files := by
        show ((w.copies ++ [_]).map Copy.file).Nodup
        rw [map_append, nodup_append]
        refine ⟨h.files, nodup_singleton _, fun f hf g hg => ?_⟩
        obtain ⟨task, htask, rfl⟩ := mem_map.mp hf
        rw [mem_singleton.mp hg]
        intro (heq : task.file = file)
        exact hfree (heq ▸ (h.sources task htask).2)
      sources := by
        intro task htask
        rcases hmem task htask with hold | rfl
        · exact ⟨(h.sources task hold).1, (mem_insert _ _ _).mpr (.inr (h.sources task hold).2)⟩
        · exact ⟨hrow, (mem_insert _ _ _).mpr (.inl rfl)⟩
      running := by
        intro task htask hrun
        rcases hmem task htask with hold | rfl
        · exact h.running task hold hrun
        · exact hdisk
      copied := by
        intro task htask D hD
        rcases hmem task htask with hold | rfl
        · exact h.copied task hold D hD
        · cases hD }

theorem Kept.ne_file (h : Kept w₀ w) {j : Nat} {other : Copy} (hi : w.copies[i]? = some task)
    (hj : w.copies[j]? = some other) (hne : j ≠ i) : other.file ≠ task.file := by
  intro heq
  have hfile : ∀ {k : Nat} {t : Copy}, w.copies[k]? = some t →
      (w.copies.map (·.file))[k]? = some t.file := fun hk => by rw [getElem?_map, hk]; rfl
  have hlt : j < (w.copies.map (·.file)).length := by
    rw [length_map]
    exact (List.getElem?_eq_some_iff.mp hj).1
  exact hne ((List.getElem?_inj hlt h.files).mp (by rw [hfile hi, hfile hj, heq]))

/-- **A copy gets its result**; a success has the source's bytes at the destination. -/
theorem Kept.report (h : Kept w₀ w) (hi : w.copies[i]? = some task) (result : Except String Path)
    (hresult : ∀ D, result = .ok D → D = task.dest ∧ ∃ content, Holds w₀ w task.file D content) :
    Kept w₀ (w.report i task result) := by
  have hmem := mem_of_getElem? hi
  have htask : ∀ t ∈ (w.report i task result).copies,
      t ∈ w.copies ∨ t = { task with result := some result } := fun t ht => mem_or_eq_of_mem_set ht
  have hbound : ∀ f D, (w.report i task result).Bound f D → w.Bound f D := by
    rintro f D (hlanded | ⟨t, ht, rfl, rfl⟩)
    · exact .inl hlanded
    · rcases htask t ht with hold | rfl
      · exact .inr ⟨t, hold, rfl, rfl⟩
      · exact .inr ⟨task, hmem, rfl, rfl⟩
  exact
    { h with
      toPlaced := h.toPlaced.of_bound hbound fun _ _ hrow => hrow
      files := by
        obtain ⟨hlt, hget⟩ := List.getElem?_eq_some_iff.mp hi
        have hsame : (w.copies.map Copy.file).set i task.file = w.copies.map Copy.file := by
          rw [← hget, ← map_set, set_getElem_self]
        show ((w.copies.set i _).map Copy.file).Nodup
        rw [map_set]
        show ((w.copies.map Copy.file).set i task.file).Nodup
        rw [hsame]
        exact h.files
      sources := by
        intro t ht
        rcases htask t ht with hold | rfl
        · exact h.sources t hold
        · exact h.sources task hmem
      running := by
        intro t ht hrun
        rcases htask t ht with hold | rfl
        · exact h.running t hold hrun
        · cases hrun
      copied := by
        intro t ht D hD
        rcases htask t ht with hold | rfl
        · exact h.copied t hold D hD
        · exact hresult D (Option.some.inj hD) }

/-- **The disk changes at one path**, where no copy goes and no bytes stand that are needed. -/
theorem Kept.put (h : Kept w₀ w) {path : Path} {new : Option B}
    (hheld : ∀ f D content, w.Bound f D → w.disk D = some content → D ≠ path)
    (hrunning : ∀ t ∈ w.copies, t.result = none → t.dest ≠ path)
    (hcached : ∀ f : Ed2kHash, w.actor.cacheEntries[f]? = some path → new = none)
    (hkept : ∀ content, w₀.disk path = some content → w.disk path = some content →
      ∃ f D, w.Landed f D ∧ w₀.actor.cacheEntries[f]? = some path ∧ w.disk D = some content) :
    Kept w₀ (w.put path new) := by
  have hdisk : ∀ {q}, q ≠ path → (w.put path new).disk q = w.disk q := fun hne =>
    update_of_ne hne _ _
  have hstays : ∀ {f D content}, w.Bound f D → w.disk D = some content →
      (w.put path new).disk D = some content := fun hD hcontent =>
    (hdisk (hheld _ _ _ hD hcontent)).trans hcontent
  have hholds : ∀ {f D content}, w.Bound f D → Holds w₀ w f D content →
      Holds w₀ (w.put path new) f D content := fun hD ⟨q, hq, hcontent, hdest⟩ =>
    ⟨q, hq, hcontent, hstays hD hdest⟩
  have hlands : ∀ {q content}, (∃ f D, w.Landed f D ∧ w₀.actor.cacheEntries[f]? = some q ∧
      w.disk D = some content) → ∃ f D, w.Landed f D ∧ w₀.actor.cacheEntries[f]? = some q ∧
      (w.put path new).disk D = some content := fun ⟨f, D, hlanded, hrow, hD⟩ =>
    ⟨f, D, hlanded, hrow, hstays (.inl hlanded) hD⟩
  exact
    { h with
      cached := by
        intro f q hq
        by_cases heq : q = path
        · subst heq
          exact .inr ((update_self ..).trans (hcached f hq))
        · rw [hdisk heq]
          exact h.cached f q hq
      kept := by
        intro q content hcontent
        rcases h.kept q content hcontent with hq | hlanded
        · by_cases heq : q = path
          · subst heq
            exact .inr (hlands (hkept content hcontent hq))
          · exact .inl ((hdisk heq).trans hq)
        · exact .inr (hlands hlanded)
      landed := fun f D hlanded => (h.landed f D hlanded).imp_right fun ⟨content, hD⟩ =>
        ⟨content, hholds (.inl hlanded) hD⟩
      running := fun t ht hrun => (hdisk (hrunning t ht hrun)).trans (h.running t ht hrun)
      copied := by
        intro t ht D hD
        obtain ⟨rfl, content, hcontent⟩ := h.copied t ht D hD
        exact ⟨rfl, content, hholds (.inr ⟨t, ht, rfl, rfl⟩) hcontent⟩ }

/-- What a copy that is over left at its destination. -/
theorem Kept.leave (h : Kept w₀ w) (hmem : task ∈ w.copies) (hover : task.result ≠ none)
    (hvacant : w.disk task.dest = none) (content : B) :
    Kept w₀ (w.put task.dest (some content)) := by
  have hbound : w.Bound task.file task.dest := .inr ⟨task, hmem, rfl, rfl⟩
  refine h.put (fun f D b _ hD heq => ?_) (fun t ht hrun heq => hover ?_)
    (fun f hf => absurd rfl (h.uncached _ _ hbound f _ hf)) fun b _ hb => ?_
  · rw [heq, hvacant] at hD
    cases hD
  · have hfile := h.apart _ _ _ (.inr ⟨t, ht, rfl, heq⟩) hbound
    rw [← inj_on_of_nodup_map h.files ht hmem hfile]
    exact hrun
  · rw [hvacant] at hb
    cases hb

/-- **A copy fails**, with something or nothing left at its destination. -/
theorem Kept.fail (h : Kept w₀ w) (hi : w.copies[i]? = some task) (hrun : task.result = none)
    (message : String) (left : Option B) :
    Kept w₀ ((left.elim w fun content => w.put task.dest (some content)).report i task
      (.error message)) := by
  have hfailed : Kept w₀ (w.report i task (.error message)) := h.report hi _ nofun
  cases left with
  | none => exact hfailed
  | some content =>
    have hmem : { task with result := some (.error message) } ∈
        (w.report i task (.error message)).copies :=
      mem_set (List.getElem?_eq_some_iff.mp hi).1 _
    exact hfailed.leave hmem nofun (h.running task (mem_of_getElem? hi) hrun) content

variable {content : B}

/-- **A copy succeeds**: as one that failed but left all the bytes, and has its result after all. -/
theorem Kept.succeed (h : Kept w₀ w) (hi : w.copies[i]? = some task)
    (hrun : task.result = none) (hcontent : w.disk task.source = some content) :
    Kept w₀ ((w.put task.dest (some content)).report i task (.ok task.dest)) := by
  have hrow := (h.sources task (mem_of_getElem? hi)).1
  have hsource : w₀.disk task.source = some content := by
    rcases h.cached _ _ hrow with hsame | hgone
    · rw [← hsame, hcontent]
    · rw [hgone] at hcontent
      cases hcontent
  have hfailed := h.fail hi hrun "" (some content)
  have hover := hfailed.report
    (List.getElem?_set_self (List.getElem?_eq_some_iff.mp hi).1) (.ok task.dest)
    fun D hD => ⟨(Except.ok.inj hD).symm, content, task.source, h.rows _ _ hrow, hsource,
      Except.ok.inj hD ▸ update_self ..⟩
  simpa only [World.report, Option.elim_some, set_set] using hover

theorem Kept.copy (h : Kept w₀ w) (hi : w.copies[i]? = some task) (hrun : task.result = none)
    (outcome : CopyOutcome B) : Kept w₀ (w.copy i task outcome) := by
  unfold World.copy
  split
  · split
    next content hcontent => exact h.succeed hi hrun hcontent
    · exact h.fail hi hrun _ none
  · exact h.fail hi hrun _ none
  next content => exact h.fail hi hrun _ (some content)

theorem Kept.take (h : Kept w₀ w) (hi : w.copies[i]? = some task) : Kept w₀ (w.take i task) := by
  have hold : ∀ t, t ∈ (w.take i task).copies → t ∈ w.copies := fun t ht =>
    (eraseIdx_sublist w.copies i).subset ht
  exact
    { h with
      toPlaced := h.toPlaced.of_bound
        (fun f D => Or.imp_right fun ⟨t, ht, hrest⟩ => ⟨t, hold t ht, hrest⟩) fun _ _ hrow => hrow
      files := h.files.sublist ((eraseIdx_sublist w.copies i).map _)
      sources := by
        intro t ht
        obtain ⟨j, hne, hj⟩ := mem_eraseIdx_iff_getElem?.mp ht
        obtain ⟨hrow, hbusy⟩ := h.sources t (hold t ht)
        exact ⟨hrow, Std.ExtTreeSet.mem_erase.mpr
          ⟨fun heq => h.ne_file hi hj hne (compare_eq_iff_eq.mp heq).symm, hbusy⟩⟩
      running := fun t ht => h.running t (hold t ht)
      copied := fun t ht => h.copied t (hold t ht) }

theorem landed_archiveFinish (w : World B) (mtime : Option Int) (f : Ed2kHash) (D : Path) :
    (w.archiveFinish file source dest true false mtime).Landed f D ↔
      w.Landed f D ∨ f = file ∧ D = dest := by
  obtain ⟨_, _, hsettle⟩ := w.actor.settle_frame file source dest mtime
  show _ ∈ (w.actor.settle file source dest mtime).out ↔ _
  rw [hsettle, mem_append, mem_singleton, Prod.mk.injEq, Except.ok.injEq]
  rfl

theorem row_archiveFinish (w : World B) (mtime : Option Int) (f : Ed2kHash) :
    (w.archiveFinish file source dest true false mtime).actor.cacheEntries[f]? =
      if f = file then none else w.actor.cacheEntries[f]? := by
  obtain ⟨_, _, hsettle⟩ := w.actor.settle_frame file source dest mtime
  show (w.actor.settle file source dest mtime).cacheEntries[f]? = _
  rw [hsettle, getElem?_erase]

theorem bound_of_archiveFinish (hi : w.copies[i]? = some task) {mtime : Option Int} {f : Ed2kHash}
    {D : Path} (h : ((w.take i task).archiveFinish task.file task.source task.dest true false
      mtime).Bound f D) : w.Bound f D := by
  rcases h with hlanded | ⟨t, ht, rfl, rfl⟩
  · rcases (landed_archiveFinish _ mtime f D).mp hlanded with hold | ⟨rfl, rfl⟩
    · exact .inl hold
    · exact .inr ⟨task, mem_of_getElem? hi, rfl, rfl⟩
  · exact .inr ⟨t, (eraseIdx_sublist w.copies i).subset ht, rfl, rfl⟩

/-- **A copy lands**: its row goes and its report is out. -/
theorem Kept.settle (h : Kept w₀ w) (hi : w.copies[i]? = some task)
    (hholds : Holds w₀ w task.file task.dest content) (mtime : Option Int) :
    Kept w₀ ((w.take i task).archiveFinish task.file task.source task.dest true false mtime) := by
  have htaken := h.take hi
  have hrows : ∀ (f : Ed2kHash) (path : Path), ((w.take i task).archiveFinish task.file task.source
      task.dest true false mtime).actor.cacheEntries[f]? = some path →
      w.actor.cacheEntries[f]? = some path := by
    intro f path hf
    rw [row_archiveFinish] at hf
    exact (ite_none_left_eq_some.mp hf).2
  obtain ⟨_, _, hsettle⟩ :=
    (w.take i task).actor.settle_frame task.file task.source task.dest mtime
  exact
    { htaken with
      toPlaced := h.toPlaced.of_bound (fun _ _ => bound_of_archiveFinish hi) hrows
      roots := (congrArg Actor.mediaRoots hsettle).trans h.roots
      rows := fun f path hf => h.rows f path (hrows f path hf)
      cached := fun f path hf => h.cached f path (hrows f path hf)
      kept := fun path b hb => (h.kept path b hb).imp_right fun ⟨f, D, hlanded, hrest⟩ =>
        ⟨f, D, (landed_archiveFinish _ mtime f D).mpr (.inl hlanded), hrest⟩
      landed := by
        intro f D hlanded
        rw [row_archiveFinish]
        rcases (landed_archiveFinish _ mtime f D).mp hlanded with hold | ⟨rfl, rfl⟩
        · obtain ⟨hgone, hD⟩ := h.landed f D hold
          exact ⟨ite_eq_left_iff.mpr fun _ => hgone, hD⟩
        · exact ⟨if_pos rfl, content, hholds⟩
      sources := by
        intro t ht
        obtain ⟨hrow, hbusy⟩ := htaken.sources t ht
        obtain ⟨j, hne, hj⟩ := mem_eraseIdx_iff_getElem?.mp ht
        rw [row_archiveFinish, if_neg (h.ne_file hi hj hne)]
        exact ⟨hrow, (congrArg Actor.archiving hsettle) ▸ hbusy⟩ }

/-- **A completion is handled**: the copy lands, and its source may go. -/
theorem Kept.land (h : Kept w₀ w) (hi : w.copies[i]? = some task)
    (hresult : task.result = some (.ok dest)) (removed : Bool) (mtime : Option Int) :
    Kept w₀ ((w.take i task).archiveFinish task.file task.source dest true removed mtime) := by
  have hmem := mem_of_getElem? hi
  obtain ⟨rfl, content, hholds⟩ := h.copied task hmem dest hresult
  have hrow := (h.sources task hmem).1
  have hsettled := h.settle hi hholds mtime
  cases removed with
  | false => exact hsettled
  | true =>
    have hapart : ∀ f D, ((w.take i task).archiveFinish task.file task.source task.dest true false
        mtime).Bound f D → D ≠ task.source := fun f D hD heq =>
      h.uncached f D (bound_of_archiveFinish hi hD) _ _ hrow heq.symm
    obtain ⟨q, hq, hcontent, hdest⟩ := hholds
    obtain rfl := Option.some.inj (hq.symm.trans (h.rows _ _ hrow))
    refine hsettled.put (fun f D _ hD _ => hapart f D hD)
      (fun t ht _ => hapart t.file t.dest (.inr ⟨t, ht, rfl, rfl⟩)) (fun _ _ => rfl)
      fun b hb _ => ⟨task.file, task.dest, ?_, hq, ?_⟩
    · exact (landed_archiveFinish _ mtime _ _).mpr (.inr ⟨rfl, rfl⟩)
    · rw [← hb, hcontent]
      exact hdest

theorem archiveFinish_move (hfree : file ∉ w.actor.archiving)
    (hcontent : w.disk source = some content) (hne : source ≠ dest) (mtime : Option Int) :
    (w.move source dest content).archiveFinish file source dest false false mtime =
      ((((w.startCopy file source dest).copy w.copies.length ⟨file, source, dest, none⟩
        .copied).take w.copies.length ⟨file, source, dest, some (.ok dest)⟩).archiveFinish
          file source dest true true mtime) := by
  have harchiving : (w.actor.archiving.insert file).erase file = w.actor.archiving := by
    refine set_ext fun f => ?_
    rw [Std.ExtTreeSet.mem_erase, mem_insert, Ne, compare_eq_iff_eq]
    constructor
    · rintro ⟨hf, rfl | hmem⟩
      · exact absurd rfl hf
      · exact hmem
    · exact fun hmem => ⟨fun heq => hfree (heq ▸ hmem), .inr hmem⟩
  have hcopies : ((w.copies ++ [Copy.mk file source dest none]).set w.copies.length
      ⟨file, source, dest, some (.ok dest)⟩).eraseIdx w.copies.length = w.copies := by
    rw [set_append_right _ _ (le_refl _), Nat.sub_self,
      eraseIdx_append_of_length_le (le_refl _), Nat.sub_self]
    exact append_nil _
  have hdisk : update (update w.disk source none) dest (some content) =
      update (update w.disk dest (some content)) source none :=
    update_comm hne _ _ _
  simp only [move, put, archiveFinish, copy, startCopy, hcontent, report, take, harchiving, hcopies,
    hdisk, Bool.and_true, Bool.false_and, if_true, Bool.false_eq_true, if_false]

/-- **A rename**, to a vacant path. -/
theorem Kept.rename (h : Kept w₀ w) (hrow : w.actor.cacheEntries[file]? = some source)
    (hfree : file ∉ w.actor.archiving) (hvacant : w.vacant dest = true)
    (hinside : ∃ downloadRoot, w₀.actor.mediaRoots.head? = some downloadRoot ∧
      StrictlyInside downloadRoot dest) (hcontent : w.disk source = some content)
    (mtime : Option Int) :
    Kept w₀ ((w.move source dest content).archiveFinish file source dest false false mtime) := by
  have hne : source ≠ dest := (vacant_iff.mp hvacant).2.2 file source hrow
  rw [archiveFinish_move hfree hcontent hne]
  have hi : (w.startCopy file source dest).copies[w.copies.length]? =
      some ⟨file, source, dest, none⟩ := getElem?_concat_length
  have hcopied := (h.startCopy hrow hfree hvacant hinside).copy hi rfl .copied
  have hi' : ((w.startCopy file source dest).copy w.copies.length ⟨file, source, dest, none⟩
      .copied).copies[w.copies.length]? = some ⟨file, source, dest, some (.ok dest)⟩ := by
    simp only [World.copy, World.startCopy, hcontent, World.report, World.put]
    rw [getElem?_set_self (by rw [length_append, length_singleton]; omega)]
  exact hcopied.land hi' rfl true mtime

theorem archiveStart_ok {seriesName : Option Name} {filename : Name} {io : Io}
    {result : ArchiveStep} {w' : World B}
    (h : w.archiveStart file seriesName filename io = .ok (result, w')) :
    ∃ downloadRoot source, file ∉ w.actor.archiving ∧
      w.actor.mediaRoots.head? = some downloadRoot ∧
      w.actor.cacheEntries[file]? = some source ∧
      ((∃ content, w.disk source = some content ∧
          result = .done source (destination downloadRoot w.actor.archive seriesName filename) ∧
          w' = w.move source (destination downloadRoot w.actor.archive seriesName filename)
            content) ∨
        result = .copying ∧
          w' = w.startCopy file source
            (destination downloadRoot w.actor.archive seriesName filename)) := by
  unfold archiveStart at h
  split at h
  · cases h
  next hfree =>
  split at h
  · cases h
  next downloadRoot hroot =>
  dsimp only at h
  split at h
  · cases h
  next source hsource =>
  have hrow : w.actor.cacheEntries[file]? = some source := by
    unfold Actor.cacheEntryPath at hsource
    split at hsource
    next path hpath => rw [hpath, Except.ok.inj hsource]
    · cases hsource
  refine ⟨downloadRoot, source, hfree, hroot, hrow, ?_⟩
  split at h
  · cases h
  split at h
  · split at h
    next content hcontent =>
      cases h
      exact .inl ⟨content, hcontent, rfl, rfl⟩
    · cases h
  · cases h
    exact .inr ⟨rfl, rfl⟩
  · cases h

theorem strictlyInside_destination (downloadRoot : Path) (policy : ArchivePolicy)
    (seriesName : Option Name) (filename : Name) :
    StrictlyInside downloadRoot (destination downloadRoot policy seriesName filename) := by
  unfold destination
  split
  · refine strictlyInside_append _ (cons_ne_nil _ _) fun name hname => ?_
    rcases mem_cons.mp hname with rfl | hname
    · exact plain_sanitizeComponent _
    · exact mem_singleton.mp hname ▸ plain_sanitizeComponent _
  · refine strictlyInside_append _ (cons_ne_nil _ _) fun name hname => ?_
    exact mem_singleton.mp hname ▸ plain_sanitizeComponent _

/-- **A request** that finds its destination vacant. -/
theorem Kept.archive (h : Kept w₀ w) {seriesName : Option Name} {filename : Name} (io : Io)
    (hvacant : w.findsVacant seriesName filename = true) :
    Kept w₀ (w.archive file seriesName filename io) := by
  unfold World.archive
  cases hstart : w.archiveStart file seriesName filename io with
  | error message => exact h.emit_error message
  | ok started =>
    obtain ⟨result, w'⟩ := started
    obtain ⟨downloadRoot, source, hfree, hroot, hrow, hcases⟩ := archiveStart_ok hstart
    have hdest : w.vacant (destination downloadRoot w.actor.archive seriesName filename) =
        true := by
      simpa only [findsVacant, hroot, all_some] using hvacant
    have hinside : ∃ downloadRoot', w₀.actor.mediaRoots.head? = some downloadRoot' ∧
        StrictlyInside downloadRoot'
          (destination downloadRoot w.actor.archive seriesName filename) :=
      ⟨downloadRoot, h.roots ▸ hroot, strictlyInside_destination _ _ _ _⟩
    rcases hcases with ⟨content, hcontent, rfl, rfl⟩ | ⟨rfl, rfl⟩
    · exact h.rename hrow hfree hdest hinside hcontent io.mtime
    · exact h.startCopy hrow hfree hdest hinside

/-- **One step.** -/
theorem Kept.step (h : Kept w₀ w) {event : Event B} {w' : World B} (hclear : w.clear event = true)
    (hs : w.step event = some w') : Kept w₀ w' := by
  cases event with
  | archive file seriesName filename io =>
    cases hs
    exact h.archive io hclear
  | maybeAutoArchive file io =>
    cases hs
    unfold World.maybeAutoArchive
    split
    · exact h
    split
    · exact h
    next record hrecord =>
    split
    · exact h
    · exact h.archive io (by simpa only [clear, hrecord, all_some] using hclear)
  | copy i outcome =>
    simp only [World.step] at hs
    split at hs
    next task hi =>
      obtain ⟨hrun, hs⟩ := ite_none_right_eq_some.mp hs
      cases hs
      exact h.copy hi (isNone_iff_eq_none.mp hrun) outcome
    · cases hs
  | archived i removed mtime =>
    simp only [World.step] at hs
    split at hs
    next task hi =>
      obtain ⟨result, hresult, rfl⟩ := map_eq_some_iff.mp hs
      cases result with
      | ok dest => exact h.land hi hresult removed mtime
      | error message => exact (h.take hi).emit_error message
    · cases hs

end Steps

/-- **Archiving destroys nothing** in a run whose requests all find their destination
vacant, whichever way the files are moved and however the copies interleave. -/
theorem archive_destroys_nothing {w₀ w : World B} (hidle : w₀.Idle)
    (hreach : Reach World.step (fun w event => w.clear event = true) w₀ w) : Intact w₀ w := by
  have hkept : Kept w₀ w :=
    hreach.invariant (kept_refl hidle) fun _ _ _ h hclear hs => h.step hclear hs
  exact hkept.intact

theorem archive_renamed (w : World B) (file : Ed2kHash) (source : Path) {downloadRoot : Path}
    {content : B} (hfree : file ∉ w.actor.archiving)
    (hroot : w.actor.mediaRoots.head? = some downloadRoot)
    (hrow : w.actor.cacheEntries[file]? = some source) (hcontent : w.disk source = some content)
    (seriesName : Option Name) (filename : Name) (mtime : Option Int) :
    (w.archive file seriesName filename ⟨none, .renamed, mtime⟩).disk =
        update (update w.disk source none)
          (destination downloadRoot w.actor.archive seriesName filename) (some content) ∧
      (w.archive file seriesName filename ⟨none, .renamed, mtime⟩).actor.out = w.actor.out ++
        [(file, .ok (destination downloadRoot w.actor.archive seriesName filename))] := by
  have hpath : w.actor.cacheEntryPath file = .ok source := by
    rw [Actor.cacheEntryPath, hrow]
  simp only [archive, archiveStart, if_neg hfree, hroot, hpath, hcontent]
  obtain ⟨storedHashes, hashCache, hsettle⟩ := w.actor.settle_frame file source
    (destination downloadRoot w.actor.archive seriesName filename) mtime
  exact ⟨rfl, congrArg Actor.out hsettle⟩

/-- Two cached files, `c/1` and `c/2`, and a library file `l/s/e` under the root `l`. -/
def shelf : World Nat where
  actor :=
    { mediaRoots := [[['l']]]
      archive := ⟨true, false⟩
      archiving := ∅
      cacheEntries := Std.ExtTreeMap.ofList [(1, [['c'], ['1']]), (2, [['c'], ['2']])] compare
      storedHashes := ∅
      watched := ∅
      hashCache := ∅
      localFiles := ∅
      out := [] }
  copies := []
  disk path :=
    if path = [['c'], ['1']] then some 10
    else if path = [['c'], ['2']] then some 20
    else if path = [['l'], ['s'], ['e']] then some 30
    else none

theorem archive_destroys_nothing_both : ∃ w, Intact shelf w ∧
    w.disk [['l'], ['s'], ['f']] = some 10 ∧ w.disk [['l'], ['s'], ['g']] = some 20 ∧
    w.disk [['l'], ['s'], ['e']] = some 30 := by
  have hrun : (runWith World.step World.clear shelf
      [.archive 1 (some ['s']) ['f'] ⟨none, .renamed, none⟩,
        .archive 2 (some ['s']) ['g'] ⟨none, .crossesDevices, none⟩,
        .copy 0 .copied,
        .archived 0 true none]).map
        (fun w => (w.disk [['l'], ['s'], ['f']], w.disk [['l'], ['s'], ['g']],
          w.disk [['l'], ['s'], ['e']])) = some (some 10, some 20, some 30) := by
    decide +kernel
  obtain ⟨w, hw, hdisk⟩ := map_eq_some_iff.mp hrun
  simp only [Prod.mk.injEq] at hdisk
  exact ⟨w, archive_destroys_nothing ⟨rfl, rfl⟩
    (reach_of_runWith _ (fun _ _ h => h) hw), hdisk⟩

/-- **A library file is replaced**, and two cached files whose names differ in a character
that is replaced land on one path. -/
theorem library_file_replaced :
    (∃ w, run World.step shelf
        [.archive 1 (some ['s']) ['e'] ⟨none, .renamed, none⟩] = some w ∧
      shelf.disk [['l'], ['s'], ['e']] = some 30 ∧ ∀ path, w.disk path ≠ some 30) ∧
    ∃ w, run World.step shelf
        [.archive 1 (some ['s']) ['a', ':'] ⟨none, .renamed, none⟩,
          .archive 2 (some ['s']) ['a', '?'] ⟨none, .renamed, none⟩] = some w ∧
      (∃ dest, w.Landed 1 dest ∧ w.Landed 2 dest) ∧ ∀ path, w.disk path ≠ some 10 := by
  have hfirst := fun filename => archive_renamed shelf 1 [['c'], ['1']] (by decide +kernel) rfl
    (by decide +kernel) rfl (some ['s']) filename none
  obtain ⟨hdisk, hout⟩ := hfirst ['a', ':']
  obtain ⟨hdisk', hout'⟩ := archive_renamed
    (shelf.archive 1 (some ['s']) ['a', ':'] ⟨none, .renamed, none⟩) 2 [['c'], ['2']]
    (by decide +kernel) rfl (by decide +kernel) (by rw [hdisk]; rfl) (some ['s']) ['a', '?'] none
  refine ⟨⟨_, rfl, rfl, fun path => ?_⟩,
    ⟨_, rfl, ⟨[['l'], ['s'], ['a', '_']], ?_, ?_⟩, fun path => ?_⟩⟩
  · rw [(hfirst ['e']).1, show destination _ _ (some ['s']) ['e'] = [['l'], ['s'], ['e']] by decide]
    simp only [update_apply, shelf]
    split
    · decide
    · split <;> simp
  · rw [Landed, hout', hout]
    exact mem_append_left _ (mem_append_right _ (mem_singleton_self _))
  · rw [Landed, hout']
    exact mem_append_right _ (mem_singleton_self _)
  · rw [hdisk', hdisk]
    show update (update (update (update shelf.disk
      [['c'], ['1']] none) [['l'], ['s'], ['a', '_']] (some 10)) [['c'], ['2']] none)
      [['l'], ['s'], ['a', '_']] (some 20) path ≠ some 10
    simp only [update_apply, shelf]
    split_ifs <;> simp

end World

end DessPlay.Files
