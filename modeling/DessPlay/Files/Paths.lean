/-
  DessPlay.Files.Paths
  **PATHS, AND NAMES MADE SAFE FOR THEM** (`sanitize_component` in
  `dessplay/src/actors/file.rs`).

  A path is its components.  A name from outside becomes ONE component: no separator,
  not empty, not `.` and not `..`, so that joining it to a directory stays strictly
  inside the directory (`strictlyInside_append`).
-/
import DessPlay.Core.Types
import DessPlay.Lib.Text

namespace DessPlay.Files

open Text DessPlay.Core

abbrev Name : Type := List Char

abbrev Path : Type := List Name

instance (priority := 3000) transCmp_path : Std.TransCmp (@compare Path LinearOrder.toOrd) :=
  BTree.instTransCmp

/-- A file's content hash and size; the block hashes are left out. -/
structure Ed2kFileHash where
  root : Ed2kHash
  sizeBytes : Nat
  deriving DecidableEq

/-- A row of the hash cache: modification time and hash. -/
structure HashRow where
  mtime : Int
  hash : Ed2kFileHash
  deriving DecidableEq

/-- `Path::starts_with`: component by component. -/
def startsWith (path root : Path) : Bool := root.isPrefixOf path

def unsafeChars : List Char := ['/', '\\', ':', '*', '?', '"', '<', '>', '|', '\x00']

def unsorted : Name := ['U', 'n', 's', 'o', 'r', 't', 'e', 'd']

def sanitizeComponent (name : Name) : Name :=
  let cleaned := name.map fun c => if c ∈ unsafeChars then '_' else c
  let trimmed := trimMatches (· == '.') (trimMatches isWhitespace cleaned)
  if trimmed = [] then unsorted else trimmed

structure Plain (name : Name) : Prop where
  nonempty : name ≠ []
  safe : ∀ c ∈ unsafeChars, c ∉ name
  notSelf : name ≠ ['.']
  notParent : name ≠ ['.', '.']

def StrictlyInside (directory path : Path) : Prop :=
  ∃ names, names ≠ [] ∧ (∀ name ∈ names, Plain name) ∧ path = directory ++ names

theorem safe_cleaned {name : Name} {c : Char} (hc : c ∈ unsafeChars) :
    c ∉ name.map fun c => if c ∈ unsafeChars then '_' else c := by
  intro hmem
  obtain ⟨d, -, hd⟩ := List.mem_map.mp hmem
  split at hd
  · subst hd
    revert hc
    decide
  next hsafe => exact hsafe (hd ▸ hc)

/-- **What sanitizing leaves** names an entry of a directory. -/
theorem plain_sanitizeComponent (name : Name) : Plain (sanitizeComponent name) := by
  unfold sanitizeComponent
  dsimp only
  set cleaned := name.map fun c => if c ∈ unsafeChars then '_' else c with hcleaned
  split
  · exact ⟨by decide, by simp [unsafeChars, unsorted], by decide, by decide⟩
  next hnonempty =>
    -- dots are trimmed off the end, so neither `.` nor `..` is left
    have hend : ∀ c, (trimMatches (· == '.') (trimMatches isWhitespace cleaned)).getLast? =
        some c → c ≠ '.' := by
      rintro _ hlast rfl
      cases not_of_getLast?_trimMatches hlast
    refine ⟨hnonempty, fun c hc hmem => ?_, fun heq => ?_, fun heq => ?_⟩
    · exact safe_cleaned hc (mem_of_mem_trimMatches (mem_of_mem_trimMatches hmem))
    · exact hend '.' (by rw [heq]; rfl) rfl
    · exact hend '.' (by rw [heq]; rfl) rfl

theorem strictlyInside_append {names : Path} (directory : Path) (hnonempty : names ≠ [])
    (hplain : ∀ name ∈ names, Plain name) : StrictlyInside directory (directory ++ names) :=
  ⟨names, hnonempty, hplain, rfl⟩

-- two names, one component
example : sanitizeComponent ['a', '/', 'b'] = sanitizeComponent [' ', 'a', ':', 'b', '.'] := by
  decide

end DessPlay.Files
