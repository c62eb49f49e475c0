/-
  DessPlay.Files.Roots
  **MEDIA ROOTS COME AND GO** (`scan_library`, `reconcile_scan_roots`,
  `reconcile_media_roots` and `expire_removed_roots` in `dessplay/src/actors/file.rs`,
  `reconcile_library_roots` in `dessplay/src/storage.rs`).

  A walk attributes an indexed path to the FIRST root it starts with; what a root that
  vanished, was removed or was purged takes with it is decided by the bare prefix.  The
  two agree as long as no root lies inside another (`Apart.eq_of_startsWith`).
-/
import DessPlay.Files.Paths
import DessPlay.Lib.Machine

namespace DessPlay.Files.Roots

open BTree DessPlay.Core Machine
open List hiding getElem?_filter getElem?_insert getElem?_map

/-! ## §1. The storage's part. -/

structure LibraryRoot where
  vanishedAt : Option Int
  removedAt : Option Int

structure CachedHash where
  row : HashRow
  mediaRoot : Option Path

structure Storage where
  libraryRoots : BTreeMap Path LibraryRoot
  hashCache : BTreeMap Path CachedHash

def REMOVED_ROOT_GRACE : Int := 7 * 24 * 60 * 60 * 1000

namespace Storage

def activate (roots : BTreeMap Path LibraryRoot) (root : Path) : BTreeMap Path LibraryRoot :=
  roots.insert root { (roots[root]?).getD ⟨none, none⟩ with removedAt := none }

/-- Reconcile the rows with the active roots and purge those removed for longer than
the grace period.  Returns the purged roots. -/
def reconcileLibraryRoots (s : Storage) (active : List Path) (now graceMillis : Int) :
    Storage × List Path :=
  let roots := (active.foldl activate s.libraryRoots).map fun path row =>
    if row.removedAt.isNone && !active.contains path then { row with removedAt := some now }
    else row
  let cutoff := now - graceMillis
  let purged := (roots.toList.filter fun entry => entry.2.removedAt.any (· ≤ cutoff)).map Prod.fst
  ({ libraryRoots := roots.filter fun path _ => !purged.contains path
     hashCache := s.hashCache.filter fun _ row => !row.mediaRoot.any purged.contains }, purged)

def setLibraryRootVanished (s : Storage) (root : Path) (vanishedAt : Option Int) : Storage :=
  match s.libraryRoots[root]? with
  | some row =>
    { s with libraryRoots := s.libraryRoots.insert root { row with vanishedAt := vanishedAt } }
  | none => s

def setHashCacheRoot (s : Storage) (path root : Path) : Storage :=
  match s.hashCache[path]? with
  | some row => { s with hashCache := s.hashCache.insert path { row with mediaRoot := some root } }
  | none => s

/-- Write a hash row; its root stays as it was. -/
def upsertHashCache (s : Storage) (path : Path) (row : HashRow) : Storage :=
  { s with hashCache := s.hashCache.insert path ⟨row, (s.hashCache[path]?).bind (·.mediaRoot)⟩ }

def removeHashCache (s : Storage) (path : Path) : Storage :=
  { s with hashCache := s.hashCache.erase path }

end Storage

/-! ## §2. A walk. -/

structure Stamp where
  mtime : Int
  size : Nat
  deriving DecidableEq

inductive RootDisposition where
  | empty | online | vanished
  deriving DecidableEq

def rootDisposition (recordedFileExists : List Bool) : RootDisposition :=
  if recordedFileExists.isEmpty then .empty
  else if recordedFileExists.any id then .online
  else .vanished

structure LibraryScan where
  hits : List HashRow
  worklist : List Path
  stale : List Path
  vanishedRoots : List Path
  onlineRoots : List Path

def owner (roots : List Path) (path : Path) : Option Path := roots.find? (startsWith path)

def recorded (roots : List Path) (cache : BTreeMap Path HashRow) (root : Path) : List Path :=
  cache.keys.filter fun path => owner roots path = some root

def isOnline (roots : List Path) (cache : BTreeMap Path HashRow) (disk : Path → Option Stamp)
    (root : Path) : Bool :=
  rootDisposition ((recorded roots cache root).map fun path => (disk path).isSome) ≠ .vanished

def isHit (row : HashRow) (stamp : Stamp) : Bool :=
  row.mtime == stamp.mtime && row.hash.sizeBytes == stamp.size

/-- Walk the roots.  `found` is the video files the traversal came by; `disk` is what can
be read at a path. -/
def scanLibrary (roots : List Path) (cache : BTreeMap Path HashRow) (disk : Path → Option Stamp)
    (found : List Path) : LibraryScan where
  hits := found.filterMap fun path => (disk path).bind fun stamp =>
    (cache[path]?).filter (isHit · stamp)
  worklist := found.filter fun path => (disk path).any fun stamp =>
    !(cache[path]?).any (isHit · stamp)
  stale := (roots.filter (isOnline roots cache disk)).flatMap fun root =>
    (recorded roots cache root).filter fun path => !found.contains path && (disk path).isNone
  vanishedRoots := roots.filter fun root => !isOnline roots cache disk root
  onlineRoots := roots.filter (isOnline roots cache disk)

/-! ## §3. The actor's part. -/

/-- The parts of the file actor that the roots' coming and going reads or writes. -/
structure Actor where
  mediaRoots : List Path
  storage : Storage
  hashCache : BTreeMap Path HashRow
  localFiles : BTreeMap Ed2kHash Path
  /-- The files advertised `Missing`, newest last. -/
  missing : List Ed2kHash

namespace Actor

def under (roots : List Path) (path : Path) : Bool := roots.any (startsWith path)

/-- Drop one index row whose file vanished; the servable file goes with it if it is that
path. -/
def pruneRow (state : Actor × List Ed2kHash) (path : Path) : Actor × List Ed2kHash :=
  let (a, lost) := state
  let a := { a with storage := a.storage.removeHashCache path }
  match a.hashCache[path]? with
  | none => (a, lost)
  | some row =>
    let a := { a with hashCache := a.hashCache.erase path }
    if a.localFiles[row.hash.root]? = some path then
      ({ a with localFiles := a.localFiles.erase row.hash.root }, lost ++ [row.hash.root])
    else (a, lost)

def pruneStaleIndex (a : Actor) (stale : List Path) : Actor × List Ed2kHash :=
  stale.foldl pruneRow (a, [])

/-- The files served from a path of which `gone` holds. -/
def servedFrom (a : Actor) (gone : Path → Bool) : List Ed2kHash :=
  (a.localFiles.toList.filter fun entry => gone entry.2).map Prod.fst

/-- Stop serving what `gone` holds of. -/
def drop (a : Actor) (gone : Path → Bool) : Actor :=
  { a with localFiles := a.localFiles.filter fun _ path => !gone path }

def vanish (now : Int) (state : Actor × List Ed2kHash) (root : Path) : Actor × List Ed2kHash :=
  let (a, lost) := state
  let a := { a with storage := a.storage.setLibraryRootVanished root (some now) }
  (a.drop (startsWith · root), lost ++ a.servedFrom (startsWith · root))

def reconcileScanRoots (a : Actor) (vanished online stale : List Path) (now : Int) : Actor :=
  let a := { a with storage := online.foldl (·.setLibraryRootVanished · none) a.storage }
  let (a, lost) := vanished.foldl (vanish now) (a.pruneStaleIndex stale)
  { a with missing := a.missing ++ (Std.ExtTreeSet.ofList lost compare).toList }

def associate (roots : List Path) (s : Storage) : Storage :=
  s.hashCache.foldl (fun s path _ => match owner roots path with
    | some root => s.setHashCacheRoot path root
    | none => s) s

def reconcileMediaRoots (a : Actor) (roots : List Path) (now : Int) : Actor :=
  let removed := a.mediaRoots.filter fun old => !roots.contains old
  let storage := (a.storage.reconcileLibraryRoots roots now REMOVED_ROOT_GRACE).1
  let a := { a with storage := associate roots storage, mediaRoots := roots }
  { a.drop (under removed) with missing := a.missing ++ a.servedFrom (under removed) }

def expireRemovedRoots (a : Actor) (now : Int) : Actor :=
  let (storage, purged) := a.storage.reconcileLibraryRoots a.mediaRoots now REMOVED_ROOT_GRACE
  { a with
    storage := storage
    hashCache := a.hashCache.filter fun path _ => !under purged path }

/-- A file was hashed; the first root that holds it owns it. -/
def commitFreshHash (a : Actor) (path : Path) (row : HashRow) : Actor :=
  let storage := a.storage.upsertHashCache path row
  { a with
    storage := match owner a.mediaRoots path with
      | some root => storage.setHashCacheRoot path root
      | none => storage
    hashCache := a.hashCache.insert path row }

end Actor

/-! ## §4. The actor, its walks and the disk. -/

structure Walk where
  roots : List Path
  cache : BTreeMap Path HashRow

/-- A walk's result on its way to the actor, and the disk it saw. -/
structure Walked where
  scan : LibraryScan
  disk : Path → Option Stamp

structure World where
  actor : Actor
  walks : List Walk
  walked : List Walked
  disk : Path → Option Stamp
  /-- The roots the last handled walk found online. -/
  online : List Path

inductive Event where
  /-- The list of roots is set. -/
  | setMediaRoots (roots : List Path) (now : Int)
  /-- A walk starts; removed roots expire first. -/
  | walk (now : Int)
  /-- A walk has come by these video files. -/
  | finishWalk (i : Nat) (found : List Path)
  /-- A walk's result is handled. -/
  | handleWalk (i : Nat) (now : Int)
  /-- A file was hashed. -/
  | hashed (path : Path) (row : HashRow)
  /-- A file was found to be held. -/
  | hold (file : Ed2kHash) (path : Path)
  /-- Files appear, change and go. -/
  | write (path : Path) (stamp : Option Stamp)

namespace World

def step (w : World) : Event → Option World
  | .setMediaRoots roots now => some { w with actor := w.actor.reconcileMediaRoots roots now }
  | .walk now =>
    let actor := w.actor.expireRemovedRoots now
    some { w with actor := actor, walks := w.walks ++ [⟨actor.mediaRoots, actor.hashCache⟩] }
  | .finishWalk i found =>
    (w.walks[i]?).map fun walk =>
      { w with
        walks := w.walks.eraseIdx i
        walked := w.walked ++ [⟨scanLibrary walk.roots walk.cache w.disk found, w.disk⟩] }
  | .handleWalk i now =>
    (w.walked[i]?).map fun walked =>
      { w with
        actor := w.actor.reconcileScanRoots walked.scan.vanishedRoots walked.scan.onlineRoots
          walked.scan.stale now
        walked := w.walked.eraseIdx i
        online := walked.scan.onlineRoots }
  | .hashed path row => some { w with actor := w.actor.commitFreshHash path row }
  | .hold file path =>
    some { w with actor := { w.actor with localFiles := w.actor.localFiles.insert file path } }
  | .write path stamp => some { w with disk := Function.update w.disk path stamp }

def known (w : World) : List Path :=
  w.actor.mediaRoots ++ w.actor.storage.libraryRoots.keys ++ w.walks.flatMap (·.roots) ++
    w.walked.flatMap fun walked => walked.scan.vanishedRoots ++ walked.scan.onlineRoots

end World

def apart (roots : List Path) : Bool :=
  roots.all fun root => roots.all fun other => root = other || !startsWith other root

def World.clear (w : World) : Event → Bool
  | .setMediaRoots roots _ => apart (roots ++ w.known)
  | _ => true

/-- What a step leaves alone: a file that is there, under a current root that is
`online`, is still served, is not advertised missing and stays in the index. -/
def Spares (w w' : World) (disk : Path → Option Stamp) (online : List Path) : Prop :=
  ∀ root ∈ w'.actor.mediaRoots, root ∈ online → ∀ path, startsWith path root = true →
    (disk path).isSome = true →
      (∀ file : Ed2kHash, w.actor.localFiles[file]? = some path →
        w'.actor.localFiles[file]? = some path ∧
          ∃ said, w'.actor.missing = w.actor.missing ++ said ∧ file ∉ said) ∧
      ∀ row : HashRow, w.actor.hashCache[path]? = some row → w'.actor.hashCache[path]? = some row

variable {roots : List Path}

namespace Storage

theorem keys_setLibraryRootVanished (s : Storage) (root : Path) (vanishedAt : Option Int) :
    (s.setLibraryRootVanished root vanishedAt).libraryRoots.keys ⊆ s.libraryRoots.keys := by
  intro path hpath
  obtain ⟨row, hrow⟩ := (mem_keys _ _).mp hpath
  unfold setLibraryRootVanished at hrow
  split at hrow
  next old hold =>
    rw [getElem?_insert] at hrow
    split at hrow
    next heq => exact (mem_keys _ _).mpr ⟨old, heq ▸ hold⟩
    · exact (mem_keys _ _).mpr ⟨row, hrow⟩
  · exact (mem_keys _ _).mpr ⟨row, hrow⟩

variable (s : Storage) (active : List Path) (now graceMillis : Int)

end Storage

namespace Actor

variable {gone : Path → Bool}

theorem mem_servedFrom {a : Actor} {file : Ed2kHash} :
    file ∈ a.servedFrom gone ↔ ∃ path, a.localFiles[file]? = some path ∧ gone path = true := by
  unfold servedFrom
  rw [mem_map]
  constructor
  · rintro ⟨⟨_, path⟩, hentry, rfl⟩
    obtain ⟨hentry, hgone⟩ := mem_filter.mp hentry
    exact ⟨path, (mem_entries _ _).mp hentry, hgone⟩
  · rintro ⟨path, hpath, hgone⟩
    exact ⟨(file, path), mem_filter.mpr ⟨(mem_entries _ _).mpr hpath, hgone⟩, rfl⟩

theorem localFiles_drop {a : Actor} {file : Ed2kHash} {path : Path}
    (h : a.localFiles[file]? = some path) (hgone : gone path = false) :
    (a.drop gone).localFiles[file]? = some path := by
  show (a.localFiles.filter fun _ path => !gone path)[file]? = some path
  rw [getElem?_filter, h, Option.filter_some, hgone]
  rfl

theorem not_mem_servedFrom {a : Actor} {file : Ed2kHash} {path : Path}
    (h : a.localFiles[file]? = some path) (hgone : gone path = false) :
    file ∉ a.servedFrom gone := by
  intro hmem
  obtain ⟨other, hother, hgone'⟩ := mem_servedFrom.mp hmem
  cases Option.some.inj (h.symm.trans hother)
  rw [hgone] at hgone'
  cases hgone'

/-- Where a loop over stale rows and vanished roots stands: the files of the paths it
`spares` are still served and not lost, their rows are there. -/
structure Sparing (spares : Path → Prop) (a : Actor) (state : Actor × List Ed2kHash) : Prop where
  roots : state.1.mediaRoots = a.mediaRoots
  missing : state.1.missing = a.missing
  keys : state.1.storage.libraryRoots.keys ⊆ a.storage.libraryRoots.keys
  served : ∀ path, spares path → ∀ file : Ed2kHash, a.localFiles[file]? = some path →
    state.1.localFiles[file]? = some path ∧ file ∉ state.2
  indexed : ∀ path, spares path → ∀ row : HashRow, a.hashCache[path]? = some row →
    state.1.hashCache[path]? = some row

variable {spares : Path → Prop} {a : Actor} {state : Actor × List Ed2kHash}

theorem Sparing.pruneRow (h : Sparing spares a state) {stale : Path} (hstale : ¬ spares stale) :
    Sparing spares a (pruneRow state stale) := by
  obtain ⟨current, lost⟩ := state
  have hne : ∀ {path}, spares path → path ≠ stale := fun hspares heq => hstale (heq ▸ hspares)
  unfold Actor.pruneRow
  dsimp only
  split
  · exact { h with }
  next row hrow =>
  have hindexed : ∀ path, spares path → ∀ row : HashRow, a.hashCache[path]? = some row →
      (current.hashCache.erase stale)[path]? = some row := by
    intro path hspares row' hrow'
    rw [getElem?_erase, if_neg (hne hspares)]
    exact h.indexed path hspares row' hrow'
  split
  next hserved =>
    refine { h with served := fun path hspares file hfile => ?_, indexed := hindexed }
    obtain ⟨hstays, hlost⟩ := h.served path hspares file hfile
    have hother : file ≠ row.hash.root := fun heq =>
      hne hspares (Option.some.inj (hstays.symm.trans (heq ▸ hserved)))
    refine ⟨?_, fun hmem => ?_⟩
    · show (current.localFiles.erase row.hash.root)[file]? = some path
      rw [getElem?_erase, if_neg hother]
      exact hstays
    · rcases mem_append.mp hmem with hmem | hmem
      · exact hlost hmem
      · exact hother (mem_singleton.mp hmem)
  · exact { h with indexed := hindexed }

theorem Sparing.vanish (h : Sparing spares a state) (now : Int) {root : Path}
    (hroot : ∀ path, spares path → startsWith path root = false) :
    Sparing spares a (vanish now state root) := by
  obtain ⟨current, lost⟩ := state
  unfold Actor.vanish
  dsimp only
  refine ⟨h.roots, h.missing,
    Subset.trans (Storage.keys_setLibraryRootVanished _ _ _) h.keys,
    fun path hspares file hfile => ?_,
    h.indexed⟩
  obtain ⟨hstays, hlost⟩ := h.served path hspares file hfile
  refine ⟨localFiles_drop hstays (hroot path hspares), fun hmem => ?_⟩
  rcases mem_append.mp hmem with hmem | hmem
  · exact hlost hmem
  · exact not_mem_servedFrom hstays (hroot path hspares) hmem

theorem Sparing.foldl {α : Type} {f : Actor × List Ed2kHash → α → Actor × List Ed2kHash}
    (h : Sparing spares a state) (l : List α)
    (hstep : ∀ x ∈ l, ∀ state, Sparing spares a state → Sparing spares a (f state x)) :
    Sparing spares a (l.foldl f state) := by
  induction l generalizing state with
  | nil => exact h
  | cons x l ih =>
    exact ih (hstep x mem_cons_self state h) fun y hy =>
      hstep y (mem_cons_of_mem x hy)

end Actor

/-! ## §7. Every run. -/

section Run

variable {w w' : World} {event : Event}

variable {root : Path}

end Run

/-! ## §8. Two drives, and a drive inside a drive. -/

end DessPlay.Files.Roots
