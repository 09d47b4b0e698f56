import Mathlib.Logic.Function.Basic
import Hath.Basic

/-!
# Hath.CacheManager.State — `cache_state`

The in-memory accounting of the cache: per static range the number of files, their
total size and the oldest modification time. The counters are `u64` and wrap in a
release build; nothing in `remove_file` checks that what it subtracts was added.
-/

namespace Hath

structure CacheState where
  fileCount : U64
  size : U64
  oldest : Int
deriving DecidableEq

namespace CacheState

/-- `CacheState::default` at the given time. -/
def fresh (now : Int) : CacheState := ⟨0, 0, now⟩

def addFile (c : CacheState) (size : U64) : CacheState :=
  { c with fileCount := c.fileCount + 1, size := c.size + size }

def removeFile (c : CacheState) (size : U64) : CacheState :=
  { c with fileCount := c.fileCount - 1, size := c.size - size }

@[simp] theorem addFile_fileCount (c : CacheState) (size : U64) :
    (c.addFile size).fileCount = c.fileCount + 1 := rfl

@[simp] theorem addFile_size (c : CacheState) (size : U64) :
    (c.addFile size).size = c.size + size := rfl

@[simp] theorem removeFile_fileCount (c : CacheState) (size : U64) :
    (c.removeFile size).fileCount = c.fileCount - 1 := rfl

@[simp] theorem removeFile_size (c : CacheState) (size : U64) :
    (c.removeFile size).size = c.size - size := rfl

/-- The update of the scan: `add_file`, and `oldest` becomes the file's time if that
is older. -/
def scanned (e : Option CacheState) (size : U64) (mtime now : Int) : CacheState :=
  let state := (e.getD (fresh now)).addFile size
  if state.oldest > mtime then { state with oldest := mtime } else state

@[simp] theorem scanned_fileCount (e : Option CacheState) (size : U64) (mtime now : Int) :
    (scanned e size mtime now).fileCount = (e.getD (fresh now)).fileCount + 1 := by
  unfold scanned
  dsimp only
  split <;> rfl

@[simp] theorem scanned_size (e : Option CacheState) (size : U64) (mtime now : Int) :
    (scanned e size mtime now).size = (e.getD (fresh now)).size + size := by
  unfold scanned
  dsimp only
  split <;> rfl

end CacheState

/-- The map behind the `cache_state` lock. -/
abbrev StateMap (Range : Type) := Range → Option CacheState

namespace StateMap

variable {Range : Type} [DecidableEq Range]

/-- `entry(sr).or_default().add_file(size)`, of `import_cache`. -/
def addFile (m : StateMap Range) (sr : Range) (size : U64) (now : Int) : StateMap Range :=
  Function.update m sr (some (((m sr).getD (CacheState.fresh now)).addFile size))

/-- `get_mut(sr)` and `remove_file(size)`, of `remove_cache`: a range without an
entry stays without one. -/
def removeFile (m : StateMap Range) (sr : Range) (size : U64) : StateMap Range :=
  Function.update m sr ((m sr).map (·.removeFile size))

/-- `entry(sr).or_default()`, updated by the scan. -/
def scanFile (m : StateMap Range) (sr : Range) (size : U64) (mtime now : Int) :
    StateMap Range :=
  Function.update m sr (some (CacheState.scanned (m sr) size mtime now))

/-- `remove(sr)`. -/
def clear (m : StateMap Range) (sr : Range) : StateMap Range := Function.update m sr none

/-- `get(sr).map(|s| s.file_count).unwrap_or(0)`. -/
def fileCount (m : StateMap Range) (sr : Range) : U64 := ((m sr).map CacheState.fileCount).getD 0

/-- The total size of a range, 0 without an entry. -/
def size (m : StateMap Range) (sr : Range) : U64 := ((m sr).map CacheState.size).getD 0

end StateMap

end Hath
