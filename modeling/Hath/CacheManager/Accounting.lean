import Mathlib.Algebra.BigOperators.Group.Finset.Basic
import Mathlib.Data.BitVec
import Mathlib.Data.Finset.Card
import Mathlib.Data.Fintype.Basic
import Mathlib.Tactic.Ring
import Hath.CacheManager.State
import Hath.Lib.Machine

/-!
# Hath.CacheManager.Accounting — `scan_cache` next to imports and removals

At start the cache is scanned in the background while the server already imports
and deletes files. The machine interleaves one `scan_cache` with any number of
`import_cache` and `remove_cache` calls; a step is one file-system call or one
section under the `cache_state` lock, and system calls succeed whenever their
target exists.

A file stands for its path, with a name that parses; cache files lie in the
directory of their static range, the only place the code puts them. A file is
`valid` when its size is the one of its name (and, under `verify_cache`, its hash);
the scan deletes the others. `junk` counts the rest of a directory (subdirectories,
unparsable names), which the scan counts and then skips.

* `Exact`, `Stale` — how an entry of `cache_state` relates to a set of files, and
  what an import, a removal and the scan's own comparison make of that;
* `Quiet` — the steps that fall into no gap of the scan or of another call.

That quiet runs keep the accounting exact is the subject of `AccountingExact`.
-/

namespace Hath.Accounting

open Lib

/-! ## State -/

/-- A call next to the scan. -/
inductive Call (File : Type) where
  | importCache (f : File)
  | removeCache (f : File)

def Call.file {File : Type} : Call File → File
  | .importCache f | .removeCache f => f

/-- Where a call stands. -/
inductive OpPc where
  | idle
  /-- The file exists, `remove_file` comes next. -/
  | statted
  /-- The file is deleted, its entry not updated yet. -/
  | unlinked
  /-- `rename` comes next. -/
  | renaming
  /-- The file is in place, its size not read yet. -/
  | renamed
  /-- The size is read, the entry not updated yet. -/
  | sized
  | done
deriving DecidableEq

/-- Where the scan stands; `rest` are the directories to come. -/
inductive ScanPc (File Range : Type) where
  | counting (rest : List Range)
  /-- `n` entries counted in the directory of `sr`. -/
  | comparing (sr : Range) (n : U64) (rest : List Range)
  | resetting (sr : Range) (rest : List Range)
  | listing (sr : Range) (rest : List Range)
  /-- The listed files whose metadata are still to be read, and those that are
  about to be added or deleted. -/
  | adding (sr : Range) (listed statted : Finset File) (rest : List Range)
deriving DecidableEq

structure St (File Range Op : Type) where
  disk : Finset File
  cache : StateMap Range
  op : Op → OpPc
  scan : ScanPc File Range

inductive Act (File Op : Type) where
  | stat (o : Op)
  | unlink (o : Op)
  | dec (o : Op)
  | rename (o : Op)
  | measure (o : Op)
  | add (o : Op) (now : Int)
  | count
  | compare
  | reset
  | list
  | scanStat (f : File)
  | scanAdd (f : File) (mtime now : Int)
  | scanDelete (f : File)
  | nextDir

section

variable {File Range Op : Type} [DecidableEq File] [DecidableEq Range] [DecidableEq Op]
  (range : File → Range) (size : File → U64) (valid : File → Bool) (junk : Range → Nat)
  (call : Op → Call File)

/-! ## Steps -/

/-- Move a call. -/
@[simp] def St.setOp (s : St File Range Op) (o : Op) (pc : OpPc) : St File Range Op :=
  { s with op := Function.update s.op o pc }

/-- The files in the directory of a range. -/
def filesIn (sr : Range) (fs : Finset File) : Finset File := fs.filter fun f => range f = sr

/-- What `remove_cache` returns to: its caller, or `import_cache` that goes on. -/
def afterRemove : Call File → OpPc
  | .importCache _ => .renaming
  | .removeCache _ => .done

/-- Steps of call `o`. -/
def opStep (s : St File Range Op) (o : Op) : Act File Op → Option (St File Range Op)
  | .stat _ =>
      if s.op o = .idle then
        some (s.setOp o (if (call o).file ∈ s.disk then .statted else afterRemove (call o)))
      else none
  | .unlink _ =>
      -- `remove_file` fails if another call has deleted the file since
      if s.op o = .statted then
        some (if (call o).file ∈ s.disk then
            { s with disk := s.disk.erase (call o).file }.setOp o .unlinked
          else s.setOp o (afterRemove (call o)))
      else none
  | .dec _ =>
      if s.op o = .unlinked then
        some ({ s with cache := s.cache.removeFile (range (call o).file) (size (call o).file) }.setOp
          o (afterRemove (call o)))
      else none
  | .rename _ =>
      -- replaces a file that is there
      if s.op o = .renaming then
        some ({ s with disk := insert (call o).file s.disk }.setOp o .renamed)
      else none
  | .measure _ =>
      if s.op o = .renamed then
        some (s.setOp o (if (call o).file ∈ s.disk then .sized else .done))
      else none
  | .add _ now =>
      if s.op o = .sized then
        some ({ s with
          cache := s.cache.addFile (range (call o).file) (size (call o).file) now }.setOp o .done)
      else none
  | _ => none

/-- Steps of the scan. The count of a directory and its listing are one step each. -/
def scanStep (s : St File Range Op) : Act File Op → Option (St File Range Op)
  | .count =>
      match s.scan with
      | .counting (sr :: rest) =>
          some { s with
            scan := .comparing sr (BitVec.ofNat 64 ((filesIn range sr s.disk).card + junk sr)) rest }
      | _ => none
  | .compare =>
      -- "Check old state match": the directory is skipped if the counts agree
      match s.scan with
      | .comparing sr n rest =>
          some { s with
            scan := if n = s.cache.fileCount sr then .counting rest else .resetting sr rest }
      | _ => none
  | .reset =>
      match s.scan with
      | .resetting sr rest =>
          some { s with cache := s.cache.clear sr, scan := .listing sr rest }
      | _ => none
  | .list =>
      match s.scan with
      | .listing sr rest =>
          some { s with scan := .adding sr (filesIn range sr s.disk) ∅ rest }
      | _ => none
  | .scanStat f =>
      match s.scan with
      | .adding sr listed statted rest =>
          -- a file that is gone is skipped
          let found := if f ∈ s.disk then insert f statted else statted
          if f ∈ listed then some { s with scan := .adding sr (listed.erase f) found rest }
          else none
      | _ => none
  | .scanAdd f mtime now =>
      match s.scan with
      | .adding sr listed statted rest =>
          if f ∈ statted ∧ valid f = true then
            some { s with
              cache := s.cache.scanFile (range f) (size f) mtime now
              scan := .adding sr listed (statted.erase f) rest }
          else none
      | _ => none
  | .scanDelete f =>
      match s.scan with
      | .adding sr listed statted rest =>
          if f ∈ statted ∧ valid f = false then
            some { s with
              disk := s.disk.erase f
              scan := .adding sr listed (statted.erase f) rest }
          else none
      | _ => none
  | .nextDir =>
      -- `for_each_concurrent` has ended
      match s.scan with
      | .adding _ listed statted rest =>
          if listed = ∅ ∧ statted = ∅ then some { s with scan := .counting rest } else none
      | _ => none
  | _ => none

/-- One step of the system. -/
def step (s : St File Range Op) (a : Act File Op) : Option (St File Range Op) :=
  match a with
  | .stat o | .unlink o | .dec o | .rename o | .measure o | .add o _ =>
      opStep range size call s o a
  | .count | .compare | .reset | .list | .scanStat _ | .scanAdd _ _ _ | .scanDelete _
  | .nextDir => scanStep range size valid junk s a

/-- The start of a scan over `dirs`. -/
def start (disk : Finset File) (cache : StateMap Range) (dirs : List Range) :
    St File Range Op where
  disk := disk
  cache := cache
  op _ := .idle
  scan := .counting dirs

def machine (disk : Finset File) (cache : StateMap Range) (dirs : List Range) :
    Machine (St File Range Op) (Act File Op) where
  init s := s = start disk cache dirs
  step := step range size valid junk call

end

/-! ## Entries and sets of files -/

section

variable {File : Type} (size : File → U64)

/-- The entry counts exactly the files of `A`. -/
def Exact (e : Option CacheState) (A : Finset File) : Prop :=
  match e with
  | some c => c.fileCount = A.card ∧ c.size = ∑ f ∈ A, size f
  | none => A = ∅

/-- An entry whose directory has not been compared yet may be off by anything, as
long as it does not look right by accident: `extra` is how many entries of the
directory are no valid files. -/
def Stale (e : Option CacheState) (A : Finset File) (extra : Nat) : Prop :=
  match e with
  | some c => ∃ count total : U64, c.fileCount + count = A.card ∧
      c.size + total = ∑ f ∈ A, size f ∧
      (count + (extra : U64) = 0 → count = 0 ∧ total = 0)
  | none => A.card + extra < 2 ^ 64

variable {size} {e : Option CacheState} {A : Finset File} {f : File}

theorem card_eq_zero_of_cast {n : Nat} (hn : n < 2 ^ 64) (h : (n : U64) = 0) : n = 0 := by
  have := congrArg BitVec.toNat h
  simp at this
  omega

/-- The fast path of the scan: an entry that is not exact does not have the number of
directory entries as its count. -/
theorem exact_of_match {extra : Nat} (h : Stale size e A extra)
    (hmatch : ((A.card + extra : Nat) : U64) = (e.map CacheState.fileCount).getD 0) :
    Exact size e A := by
  unfold Stale at h
  unfold Exact
  cases e with
  | none =>
      have hzero := card_eq_zero_of_cast h hmatch
      exact Finset.card_eq_zero.mp (by omega)
  | some c =>
      rcases h with ⟨count, total, hcount, htotal, hwhen⟩
      simp only [Option.map_some, Option.getD_some] at hmatch
      have hoff : count + (extra : U64) = 0 := by
        rw [Nat.cast_add, ← hcount, add_assoc] at hmatch
        simpa using hmatch
      rcases hwhen hoff with ⟨rfl, rfl⟩
      rw [← hcount, ← htotal]
      simp

variable [DecidableEq File]

theorem card_insert_cast (hf : f ∉ A) : ((insert f A).card : U64) = A.card + 1 := by
  rw [Finset.card_insert_of_notMem hf, Nat.cast_add, Nat.cast_one]

theorem card_erase_cast (hf : f ∈ A) : ((A.erase f).card : U64) = A.card - 1 := by
  rw [← Finset.card_erase_add_one hf, Nat.cast_add, Nat.cast_one, add_sub_cancel_right]

theorem sum_erase_cast (hf : f ∈ A) : ∑ x ∈ A.erase f, size x = ∑ x ∈ A, size x - size f := by
  rw [← Finset.sum_erase_add A size hf, add_sub_cancel_right]

theorem exact_add (h : Exact size e A) (hf : f ∉ A) (now : Int) :
    Exact size (some ((e.getD (CacheState.fresh now)).addFile (size f))) (insert f A) := by
  unfold Exact at h ⊢
  simp only [CacheState.addFile_fileCount, CacheState.addFile_size]
  rw [card_insert_cast hf, Finset.sum_insert hf]
  cases e with
  | none =>
      subst h
      simp [CacheState.fresh]
  | some c =>
      rcases h with ⟨hcount, hsize⟩
      simp only [Option.getD_some]
      rw [hcount, hsize, add_comm (size f)]
      exact ⟨rfl, rfl⟩

theorem exact_remove (h : Exact size e A) (hf : f ∈ A) :
    Exact size (e.map (·.removeFile (size f))) (A.erase f) := by
  unfold Exact at h ⊢
  cases e with
  | none =>
      subst h
      simp at hf
  | some c =>
      rcases h with ⟨hcount, hsize⟩
      simp only [Option.map_some, CacheState.removeFile_fileCount, CacheState.removeFile_size]
      rw [card_erase_cast hf, sum_erase_cast hf, hcount, hsize]
      exact ⟨rfl, rfl⟩

/-- A wrong entry stays wrong by the same amounts; one that an import creates lacks
the files that were there before. -/
theorem stale_add {extra : Nat} (h : Stale size e A extra) (hf : f ∉ A) (now : Int) :
    Stale size (some ((e.getD (CacheState.fresh now)).addFile (size f))) (insert f A) extra := by
  unfold Stale at h ⊢
  simp only [CacheState.addFile_fileCount, CacheState.addFile_size]
  rw [card_insert_cast hf, Finset.sum_insert hf]
  cases e with
  | none =>
      refine ⟨A.card, ∑ x ∈ A, size x, ?_, ?_, ?_⟩
      · simp [CacheState.fresh, add_comm]
      · simp [CacheState.fresh]
      · intro hzero
        rw [← Nat.cast_add] at hzero
        have hnone := card_eq_zero_of_cast h hzero
        have hA : A = ∅ := Finset.card_eq_zero.mp (by omega)
        simp [hA]
  | some c =>
      rcases h with ⟨count, total, hcount, htotal, hwhen⟩
      refine ⟨count, total, ?_, ?_, hwhen⟩
      · simp only [Option.getD_some]
        rw [← hcount]
        ring
      · simp only [Option.getD_some]
        rw [← htotal]
        ring

theorem stale_remove {extra : Nat} (h : Stale size e A extra) (hf : f ∈ A) :
    Stale size (e.map (·.removeFile (size f))) (A.erase f) extra := by
  unfold Stale at h ⊢
  cases e with
  | none =>
      have := Finset.card_erase_add_one hf
      simp only [Option.map_none]
      omega
  | some c =>
      rcases h with ⟨count, total, hcount, htotal, hwhen⟩
      simp only [Option.map_some, CacheState.removeFile_fileCount, CacheState.removeFile_size]
      refine ⟨count, total, ?_, ?_, hwhen⟩
      · rw [card_erase_cast hf, ← hcount]
        ring
      · rw [sum_erase_cast hf, ← htotal]
        ring

end

/-! ## The gaps -/

/-- The call has changed the directory and not `cache_state` yet. -/
def OpPc.pending : OpPc → Bool
  | .unlinked | .renamed | .sized => true
  | _ => false

/-- The call has put its file into place and not added it yet. -/
def OpPc.placed : OpPc → Bool
  | .renamed | .sized => true
  | _ => false

namespace ScanPc

variable {File Range : Type}

/-- The directories to come. -/
def rest : ScanPc File Range → List Range
  | .counting rest | .comparing _ _ rest | .resetting _ rest | .listing _ rest
  | .adding _ _ _ rest => rest

/-- The directory being scanned. -/
def current : ScanPc File Range → Option Range
  | .counting _ => none
  | .comparing sr _ _ | .resetting sr _ | .listing sr _ | .adding sr _ _ _ => some sr

/-- The directory that is counted next. -/
def next : ScanPc File Range → Option Range
  | .counting rest => rest.head?
  | _ => none

/-- The directory that has been counted and not listed yet. -/
def window : ScanPc File Range → Option Range
  | .comparing sr _ _ | .resetting sr _ | .listing sr _ => some sr
  | _ => none

/-- The files that have been listed and not added or deleted yet. -/
def todo [DecidableEq File] : ScanPc File Range → Finset File
  | .adding _ listed statted _ => listed ∪ statted
  | _ => ∅

end ScanPc

section

variable {File Range Op : Type} [DecidableEq File] [DecidableEq Range]
  (range : File → Range) (size : File → U64) (valid : File → Bool) (junk : Range → Nat)
  (call : Op → Call File)

/-- No call is pending on `f`. -/
def Free (s : St File Range Op) (f : File) : Prop :=
  ∀ o, (s.op o).pending = true → (call o).file ≠ f

/-- A step that falls into no gap: a directory is not counted while a call on one of
its files is pending; nothing is put into it or deleted from it until it is listed;
a listed file is not deleted before it is added, nor a file the scan would not have
added; and no call changes a file that another one is pending on, nor imports over
one that is there. -/
def Quiet (s : St File Range Op) : Act File Op → Prop
  | .count => ∀ o, (s.op o).pending = true → s.scan.next ≠ some (range (call o).file)
  | .unlink o => (call o).file ∈ s.disk →
      valid (call o).file = true ∧ s.scan.window ≠ some (range (call o).file) ∧
      (call o).file ∉ s.scan.todo ∧ Free call s (call o).file
  | .rename o => (call o).file ∉ s.disk ∧ s.scan.window ≠ some (range (call o).file) ∧
      Free call s (call o).file
  | _ => True

end

end Hath.Accounting
