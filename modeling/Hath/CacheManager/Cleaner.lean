import Mathlib.Algebra.BigOperators.Group.Finset.Basic
import Mathlib.Data.BitVec
import Mathlib.Data.List.Perm.Subperm
import Hath.CacheManager.FileInfo
import Hath.CacheManager.State
import Hath.Lib.Assoc
import Hath.Lib.Machine

/-!
# Hath.CacheManager.Cleaner — `check_cache_usage`

The cleaner compares the tracked sizes with the limit and the free space of the disk and
then deletes files until it has made up the difference, `need_free`. A turn of its loop
selects a range with the oldest stamp, lists the directory of the range, deletes files in
the order of their times up to a cutoff behind the stamp, and moves the stamp.

A turn is an action of the machine and carries what the code draws and what the system
calls give: which of the oldest ranges the sort puts first, the two readings of the
clock, the directory as it was read and sorted, and for every file whether its size could
be read and whether its removal works. Times are nanoseconds since 1970, stamps whole
seconds. Sums of fixed width wrap, as in a build without overflow checks.

The cache file of an id lies in the directory of its range under its file name
(`toPath_eq`). The cleaner runs alone; `log` records what has been unlinked and is read
by no step.

* `evict_spec` — what the deletion loop visits and where it stops;
* `visit_cases` — what it does with one file.
-/

namespace Hath.Cleaner

open Lib

/-! ## Disk and cache state -/

/-- What the file system knows of a file. -/
structure Meta where
  mtime : Int
  realSize : U64
deriving DecidableEq

/-- An entry of the directory of a range. -/
inductive Node where
  | file (m : Meta)
  | dir
deriving DecidableEq

abbrev Dir := List (Text × Node)

/-- The regular files of a directory. -/
def regular (d : Dir) : List (Text × Meta) :=
  d.filterMap fun (name, node) =>
    match node with
    | .file m => some (name, m)
    | .dir => none

/-- The directories of the ranges. -/
structure Disk where
  dir : Text → Option Dir
  nodup : ∀ r d, dir r = some d → (d.map Prod.fst).Nodup

/-- The files in the directory of a range, none if it is missing. -/
def Disk.files (disk : Disk) (r : Text) : List (Text × Meta) := ((disk.dir r).map regular).getD []

/-- The file of a name in the directory of a range. -/
def Disk.file? (disk : Disk) (r name : Text) : Option Meta := (disk.files r).lookup name

/-- `remove_file` on a file of a range. -/
def Disk.unlink (disk : Disk) (r name : Text) : Disk where
  dir := Function.update disk.dir r ((disk.dir r).map fun d => d.filter fun e => e.1 ≠ name)
  nodup := by
    intro k d hd
    by_cases hk : k = r
    · subst hk
      rw [Function.update_self] at hd
      rcases Option.map_eq_some_iff.mp hd with ⟨d', hd', rfl⟩
      exact Assoc.nodup_filter (disk.nodup k d' hd') _
    · rw [Function.update_of_ne hk] at hd
      exact disk.nodup k d hd

/-- `cache_state`: a map with finitely many entries. -/
structure Cache where
  keys : Finset Text
  entry : StateMap Text
  mem_keys : ∀ k, k ∈ keys ↔ (entry k).isSome

/-- No range is tracked. -/
def Cache.empty : Cache where
  keys := ∅
  entry := fun _ => none
  mem_keys := by simp

/-- The update of `import_cache`. -/
def Cache.addFile (cache : Cache) (sr : Text) (size : U64) (now : Int) : Cache where
  keys := insert sr cache.keys
  entry := cache.entry.addFile sr size now
  mem_keys := by
    intro k
    rw [Finset.mem_insert, cache.mem_keys]
    by_cases hk : k = sr
    · subst hk
      simp [StateMap.addFile]
    · simp [StateMap.addFile, hk]

/-- The update of `remove_cache`. -/
def Cache.removeFile (cache : Cache) (sr : Text) (size : U64) : Cache where
  keys := cache.keys
  entry := cache.entry.removeFile sr size
  mem_keys := by
    intro k
    rw [cache.mem_keys]
    by_cases hk : k = sr
    · subst hk
      simp [StateMap.removeFile]
    · simp [StateMap.removeFile, hk]

/-- `state.oldest = oldest`, if the range has an entry. -/
def Cache.setOldest (cache : Cache) (sr : Text) (oldest : Int) : Cache where
  keys := cache.keys
  entry := Function.update cache.entry sr ((cache.entry sr).map fun c => { c with oldest })
  mem_keys := by
    intro k
    rw [cache.mem_keys]
    by_cases hk : k = sr
    · subst hk
      simp
    · simp [hk]

/-- The stamp of a range. -/
def Cache.oldest (cache : Cache) (sr : Text) : Int :=
  ((cache.entry sr).map CacheState.oldest).getD 0

/-- The sum over `values()`. -/
def Cache.totalSize (cache : Cache) : U64 := ∑ k ∈ cache.keys, cache.entry.size k

/-- `sort_unstable_by_key` can put the range first. -/
def Cache.Oldest (cache : Cache) (sr : Text) : Prop :=
  sr ∈ cache.keys ∧ ∀ r ∈ cache.keys, cache.oldest sr ≤ cache.oldest r

instance (cache : Cache) (sr : Text) : Decidable (cache.Oldest sr) :=
  inferInstanceAs (Decidable (_ ∧ _))

/-! ## What is to be freed -/

/-- `SIZE_100MB`. -/
def size100MB : U64 := 100 * 1024 * 1024

/-- `u64::saturating_sub`. -/
def saturatingSub (a b : U64) : U64 := if b ≤ a then a - b else 0

/-- `need_free` when the loop is entered; zero where the cleaner returns before it. -/
def needFree (totalSize sizeLimit : U64) (diskFree : Option U64) : U64 :=
  let need := saturatingSub totalSize sizeLimit
  let need := match diskFree with
    | some free => if free < size100MB then need + saturatingSub size100MB free else need
    | none => need
  if need = 0 then 0 else if need < size100MB then size100MB else need

/-! ## A turn of the loop -/

/-- `unix_seconds`. -/
def unixSeconds (time : Int) : Int := time / 1000000000

/-- `from_unix_time`. -/
def fromUnixTime (secs : Int) : Int := secs * 1000000000

/-- The timestamps that `chrono` has a date for. -/
def HasDate (secs : Int) : Prop := -8334601228800 ≤ secs ∧ secs ≤ 8210266876799

instance (secs : Int) : Decidable (HasDate secs) := inferInstanceAs (Decidable (_ ∧ _))

/-- The sum of two `i64`. -/
def i64Add (a b : Int) : Int := (a + b).bmod (2 ^ 64)

/-- How far behind the stamp files may be deleted, in seconds: the more the older the
stamp is. -/
def offset (oldest utcNow : Int) : Int :=
  let age := utcNow - fromUnixTime oldest
  if HasDate oldest ∧ age > fromUnixTime (86400 * 180) then 86400 * 30
  else if HasDate oldest ∧ age > fromUnixTime (86400 * 90) then 86400 * 7
  else if HasDate oldest ∧ age > fromUnixTime (86400 * 30) then 86400 * 3
  else 86400

/-- A listed file: its name and metadata, whether `async_filesize_fast` gives its size
and whether `remove_cache` meets no error. -/
structure Item where
  name : Text
  info : Meta
  measured : Bool
  removed : Bool
deriving DecidableEq

/-- The entry of the directory. -/
def Item.entry (x : Item) : Text × Meta := (x.name, x.info)

/-- What has been unlinked. -/
structure Deletion where
  range : Text
  name : Text
  info : Meta
deriving DecidableEq

structure State where
  cache : Cache
  disk : Disk
  needFree : Nat
  clock : Int
  /-- The loop has been left by its `break`. -/
  broken : Bool
  log : List Deletion

/-- `remove_cache`. -/
def removeCache (s : State) (info : CacheFileInfo) (works : Bool) : State :=
  match s.disk.file? info.staticRange info.fileName with
  | none => s
  | some m =>
      if works then
        { s with
          disk := s.disk.unlink info.staticRange info.fileName
          cache := s.cache.removeFile info.staticRange m.realSize
          log := s.log ++ [⟨info.staticRange, info.fileName, m⟩] }
      else s

/-- One file of the deletion loop. -/
def visit (s : State) (x : Item) : State :=
  match CacheFileInfo.fromFileId x.name with
  | none => s
  | some info =>
      if x.measured then
        -- the result of `remove_cache` is not looked at
        let s := removeCache s info x.removed
        { s with needFree := s.needFree - x.info.realSize.toNat }
      else s

/-- The deletion loop, with `new_oldest`. -/
def evict (cutOff newOldest : Int) : List Item → State → State × Int
  | [], s => (s, newOldest)
  | x :: items, s =>
      if cutOff < x.info.mtime ∨ s.needFree = 0 then (s, x.info.mtime)
      else evict cutOff newOldest items (visit s x)

/-- What a turn draws and what its system calls give. -/
structure Turn where
  sr : Text
  /-- `Utc::now()`. -/
  utcNow : Int
  /-- The sorted files, or `none` if the directory cannot be opened. -/
  listing : Option (List Item)
  /-- `FileTime::now()`. -/
  fileNow : Int
deriving DecidableEq

/-- The cutoff behind a stamp. -/
def cutOffAt (oldest utcNow : Int) : Int := fromUnixTime (i64Add oldest (offset oldest utcNow))

/-- The cutoff of a turn. -/
def cutOff (s : State) (t : Turn) : Int := cutOffAt (s.cache.oldest t.sr) t.utcNow

/-- The files are sorted by their times, and each has been read off the disk. -/
def Listed (disk : Disk) (sr : Text) (items : List Item) : Prop :=
  items.Pairwise (fun x y => x.info.mtime ≤ y.info.mtime) ∧
    (items.map Item.entry).Subperm (disk.files sr)

instance (disk : Disk) (sr : Text) (items : List Item) : Decidable (Listed disk sr items) :=
  inferInstanceAs (Decidable (_ ∧ _))

/-- The loop goes on, and the turn is one it can take. -/
def Enabled (s : State) (t : Turn) : Prop :=
  s.broken = false ∧ 0 < s.needFree ∧ s.cache.Oldest t.sr ∧
    s.clock ≤ t.utcNow ∧ t.utcNow ≤ t.fileNow ∧
    ∀ items ∈ t.listing, s.disk.dir t.sr ≠ none ∧ Listed s.disk t.sr items

instance (s : State) (t : Turn) : Decidable (Enabled s t) := by
  unfold Enabled
  infer_instance

/-- The body of the loop. -/
def turn (s : State) (t : Turn) : State :=
  match t.listing with
  | none => { s with clock := t.fileNow, broken := true }
  | some items =>
      let last := (items.getLast?.map fun x => x.info.mtime).getD t.fileNow
      let (s', newOldest) := evict (cutOff s t) last items s
      { s' with cache := s'.cache.setOldest t.sr (unixSeconds newOldest), clock := t.fileNow }

def step (s : State) (t : Turn) : Option State := if Enabled s t then some (turn s t) else none

/-- The cleaner, from a given state on. -/
def machine (start : State) : Machine State Turn := ⟨fun s => s = start, step⟩

/-- `check_cache_usage` at its loop. -/
def start (cache : Cache) (disk : Disk) (sizeLimit : U64) (diskFree : Option U64) (clock : Int) :
    State where
  cache := cache
  disk := disk
  needFree := (needFree cache.totalSize sizeLimit diskFree).toNat
  clock := clock
  broken := false
  log := []

/-- What has been unlinked, in bytes. -/
def freed (log : List Deletion) : Nat := (log.map fun x => x.info.realSize.toNat).sum

/-- Nothing fails: a directory is opened if it is there, all of its files are listed, and
sizes and removals give no error. -/
def Clean (s : State) (t : Turn) : Prop :=
  (t.listing = none ↔ s.disk.dir t.sr = none) ∧
    ∀ items ∈ t.listing, (items.map Item.entry).Perm (s.disk.files t.sr) ∧
      ∀ x ∈ items, x.measured = true ∧ x.removed = true

instance (s : State) (t : Turn) : Decidable (Clean s t) := by
  unfold Clean
  infer_instance

/-! ## Files and entries -/

@[simp] theorem regular_file (name : Text) (m : Meta) (d : Dir) :
    regular ((name, .file m) :: d) = (name, m) :: regular d := rfl

theorem regular_filter (d : Dir) (name : Text) :
    regular (d.filter fun e => e.1 ≠ name) = (regular d).filter fun e => e.1 ≠ name := by
  induction d with
  | nil => rfl
  | cons e d ih =>
      rcases e with ⟨n, node⟩
      by_cases hn : n = name
      · rw [List.filter_cons_of_neg (by simpa using hn), ih]
        cases node with
        | file m => rw [regular_file, List.filter_cons_of_neg (by simpa using hn)]
        | dir => rfl
      · rw [List.filter_cons_of_pos (by simpa using hn)]
        cases node with
        | file m =>
            rw [regular_file, regular_file, List.filter_cons_of_pos (by simpa using hn), ih]
        | dir => exact ih

theorem regular_nodup {d : Dir} (h : (d.map Prod.fst).Nodup) :
    ((regular d).map Prod.fst).Nodup := by
  have hsub : ((regular d).map Prod.fst).Sublist (d.map Prod.fst) := by
    clear h
    induction d with
    | nil => exact List.Sublist.slnil
    | cons e d ih =>
        rcases e with ⟨n, node⟩
        cases node with
        | file m => exact ih.cons_cons n
        | dir => exact ih.cons n
  exact hsub.nodup h

namespace Disk

theorem files_nodup (disk : Disk) (r : Text) : ((disk.files r).map Prod.fst).Nodup := by
  unfold files
  cases hd : disk.dir r with
  | none => exact List.nodup_nil
  | some d => exact regular_nodup (disk.nodup r d hd)

theorem dir_unlink (disk : Disk) (r name : Text) :
    (disk.unlink r name).dir =
      Function.update disk.dir r ((disk.dir r).map fun d => d.filter fun e => e.1 ≠ name) := rfl

theorem files_unlink_self (disk : Disk) (r name : Text) :
    (disk.unlink r name).files r = (disk.files r).filter fun e => e.1 ≠ name := by
  unfold files
  rw [dir_unlink, Function.update_self]
  cases disk.dir r with
  | none => rfl
  | some d => exact regular_filter d name

theorem files_unlink_of_ne (disk : Disk) {r k : Text} (name : Text) (h : k ≠ r) :
    (disk.unlink r name).files k = disk.files k := by
  unfold files
  rw [dir_unlink, Function.update_of_ne h]

theorem files_unlink_subset (disk : Disk) (r name k : Text) :
    ((disk.unlink r name).files k).Sublist (disk.files k) := by
  by_cases hk : k = r
  · subst hk
    rw [files_unlink_self]
    exact List.filter_sublist
  · rw [files_unlink_of_ne disk name hk]

/-- A file is found by its name. -/
theorem file?_eq_some {disk : Disk} {r name : Text} {m : Meta} :
    disk.file? r name = some m ↔ (name, m) ∈ disk.files r :=
  Lib.Assoc.lookup_eq_some (disk.files_nodup r)

theorem file?_eq_none {disk : Disk} {r name : Text} :
    disk.file? r name = none ↔ ∀ m, (name, m) ∉ disk.files r := by
  rw [Option.eq_none_iff_forall_not_mem]
  exact forall_congr' fun m => not_congr file?_eq_some

end Disk

namespace Cache

variable (cache : Cache)

theorem removeFile_entry (sr : Text) (size : U64) :
    (cache.removeFile sr size).entry = cache.entry.removeFile sr size := rfl

theorem setOldest_entry (sr : Text) (oldest : Int) :
    (cache.setOldest sr oldest).entry =
      Function.update cache.entry sr ((cache.entry sr).map fun c => { c with oldest }) := rfl

theorem setOldest_oldest_self {sr : Text} {oldest : Int} (h : sr ∈ cache.keys) :
    (cache.setOldest sr oldest).oldest sr = oldest := by
  rcases Option.isSome_iff_exists.mp ((cache.mem_keys sr).mp h) with ⟨c, hc⟩
  unfold Cache.oldest
  rw [setOldest_entry, Function.update_self, hc]
  rfl

theorem setOldest_oldest_of_ne {sr k : Text} (oldest : Int) (h : k ≠ sr) :
    (cache.setOldest sr oldest).oldest k = cache.oldest k := by
  unfold Cache.oldest
  rw [setOldest_entry, Function.update_of_ne h]

/-- Apart from the stamp the entries stay as they are. -/
theorem setOldest_counts (sr : Text) (oldest : Int) (k : Text) :
    (cache.setOldest sr oldest).entry.fileCount k = cache.entry.fileCount k ∧
      (cache.setOldest sr oldest).entry.size k = cache.entry.size k := by
  unfold StateMap.fileCount StateMap.size
  rw [setOldest_entry]
  by_cases hk : k = sr
  · subst hk
    rw [Function.update_self]
    cases cache.entry k <;> exact ⟨rfl, rfl⟩
  · rw [Function.update_of_ne hk]
    exact ⟨rfl, rfl⟩

@[simp] theorem removeFile_keys (sr : Text) (size : U64) :
    (cache.removeFile sr size).keys = cache.keys := rfl

end Cache

/-! ## The cutoff -/

theorem i64Add_of_fits {a b : Int} (h : -2 ^ 63 ≤ a + b) (h' : a + b < 2 ^ 63) :
    i64Add a b = a + b := by
  unfold i64Add
  exact Int.bmod_eq_of_le (by omega) (by omega)

theorem i64Add_of_overflow {a b : Int} (h : 2 ^ 63 ≤ a + b) (h' : a + b < 2 ^ 64) :
    i64Add a b = a + b - 2 ^ 64 := by
  unfold i64Add
  rw [← Int.sub_bmod_right]
  exact Int.bmod_eq_of_le (by omega) (by omega)

theorem offset_pos (oldest utcNow : Int) : 0 < offset oldest utcNow := by
  unfold offset
  simp only
  split_ifs <;> decide

/-! ## The deletion loop -/

theorem freed_append (log log' : List Deletion) : freed (log ++ log') = freed log + freed log' := by
  unfold freed
  rw [List.map_append, List.sum_append]

/-- What a visit does: nothing to a name that does not parse or a file without a size; else
`need_free` goes down, and the cache file of the id is removed if it is there and the
removal works. -/
theorem visit_cases (s : State) (x : Item) :
    (visit s x = s ∧ (CacheFileInfo.fromFileId x.name = none ∨ x.measured = false)) ∨
    ∃ info, CacheFileInfo.fromFileId x.name = some info ∧ x.measured = true ∧
      ((visit s x = { s with needFree := s.needFree - x.info.realSize.toNat } ∧
          (s.disk.file? info.staticRange info.fileName = none ∨ x.removed = false)) ∨
        ∃ m, s.disk.file? info.staticRange info.fileName = some m ∧ x.removed = true ∧
          visit s x = { s with
            needFree := s.needFree - x.info.realSize.toNat
            disk := s.disk.unlink info.staticRange info.fileName
            cache := s.cache.removeFile info.staticRange m.realSize
            log := s.log ++ [⟨info.staticRange, info.fileName, m⟩] }) := by
  unfold visit
  cases hinfo : CacheFileInfo.fromFileId x.name with
  | none => exact .inl ⟨rfl, .inl rfl⟩
  | some info =>
      simp only
      cases hx : x.measured with
      | false => exact .inl ⟨rfl, .inr rfl⟩
      | true =>
          refine .inr ⟨info, rfl, rfl, ?_⟩
          unfold removeCache
          cases hm : s.disk.file? info.staticRange info.fileName with
          | none => exact .inl ⟨rfl, .inl rfl⟩
          | some m =>
              cases hr : x.removed with
              | false => exact .inl ⟨rfl, .inr rfl⟩
              | true => exact .inr ⟨m, rfl, rfl, rfl⟩

theorem visit_keys (s : State) (x : Item) : (visit s x).cache.keys = s.cache.keys := by
  rcases visit_cases s x with ⟨hsame, -⟩ | ⟨info, -, -, ⟨hvisit, -⟩ | ⟨m, -, -, hvisit⟩⟩
  · rw [hsame]
  · rw [hvisit]
  · rw [hvisit]
    rfl

theorem foldl_visit_keys (items : List Item) (s : State) :
    (items.foldl visit s).cache.keys = s.cache.keys := by
  induction items generalizing s with
  | nil => rfl
  | cons x items ih => exact (ih (visit s x)).trans (visit_keys s x)

theorem visit_broken (s : State) (x : Item) : (visit s x).broken = s.broken := by
  rcases visit_cases s x with ⟨hsame, -⟩ | ⟨info, -, -, ⟨hvisit, -⟩ | ⟨m, -, -, hvisit⟩⟩
  · rw [hsame]
  · rw [hvisit]
  · rw [hvisit]

theorem foldl_visit_broken (items : List Item) (s : State) :
    (items.foldl visit s).broken = s.broken := by
  induction items generalizing s with
  | nil => rfl
  | cons x items ih => exact (ih (visit s x)).trans (visit_broken s x)

/-- The loop visits a first part of the files, none of them beyond the cutoff and each
with something left to free. It stops at the end, or at a file that gives its time to the
stamp. -/
theorem evict_spec (cutOff newOldest : Int) (items : List Item) (s : State) :
    ∃ visited rest, items = visited ++ rest ∧
      (evict cutOff newOldest items s).1 = visited.foldl visit s ∧
      (∀ x ∈ visited, x.info.mtime ≤ cutOff) ∧
      (∀ pre x post, visited = pre ++ x :: post → 0 < (pre.foldl visit s).needFree) ∧
      ((rest = [] ∧ (evict cutOff newOldest items s).2 = newOldest) ∨
        ∃ x later, rest = x :: later ∧ (evict cutOff newOldest items s).2 = x.info.mtime ∧
          (cutOff < x.info.mtime ∨ (visited.foldl visit s).needFree = 0)) := by
  induction items generalizing s with
  | nil =>
      refine ⟨[], [], rfl, rfl, ?_, ?_, .inl ⟨rfl, rfl⟩⟩
      · intro x hx
        cases hx
      · intro pre x post h
        simp at h
  | cons x items ih =>
      unfold evict
      split
      · rename_i hstop
        refine ⟨[], x :: items, rfl, rfl, ?_, ?_, .inr ⟨x, items, rfl, rfl, hstop⟩⟩
        · intro y hy
          cases hy
        · intro pre y post h
          simp at h
      · rename_i hgo
        rw [not_or, Int.not_lt] at hgo
        rcases ih (visit s x) with ⟨visited, rest, hitems, hstate, hcut, hneed, hend⟩
        refine ⟨x :: visited, rest, ?_, hstate, ?_, ?_, hend⟩
        · rw [hitems]
          rfl
        · intro y hy
          rcases List.mem_cons.mp hy with rfl | hy
          · exact hgo.1
          · exact hcut y hy
        · intro pre y post h
          cases pre with
          | nil => exact Nat.pos_of_ne_zero hgo.2
          | cons z pre =>
              rcases List.cons.inj h with ⟨rfl, htail⟩
              exact hneed pre y post htail

/-- A turn that has read the directory: the visits of a first part of the files, and the
new stamp. -/
theorem turn_spec (s : State) {t : Turn} {items : List Item} (hlist : t.listing = some items) :
    ∃ visited rest newOldest, items = visited ++ rest ∧
      turn s t = { visited.foldl visit s with
        cache := (visited.foldl visit s).cache.setOldest t.sr (unixSeconds newOldest)
        clock := t.fileNow } ∧
      (∀ x ∈ visited, x.info.mtime ≤ cutOff s t) ∧
      (∀ pre x post, visited = pre ++ x :: post → 0 < (pre.foldl visit s).needFree) ∧
      ((rest = [] ∧ newOldest = (items.getLast?.map fun x => x.info.mtime).getD t.fileNow) ∨
        ∃ x later, rest = x :: later ∧ newOldest = x.info.mtime ∧
          (cutOff s t < x.info.mtime ∨ (visited.foldl visit s).needFree = 0)) := by
  rcases evict_spec (cutOff s t) ((items.getLast?.map fun x => x.info.mtime).getD t.fileNow) items s
    with ⟨visited, rest, hitems, hstate, hcut, hneed, hend⟩
  refine ⟨visited, rest, _, hitems, ?_, hcut, hneed, hend⟩
  unfold turn
  rw [hlist]
  simp only
  rw [hstate]

theorem step_of_enabled {s : State} {t : Turn} (h : Enabled s t) : step s t = some (turn s t) :=
  if_pos h

theorem step_cases {s s' : State} {t : Turn} (h : step s t = some s') :
    Enabled s t ∧ s' = turn s t := by
  unfold step at h
  split at h
  · rename_i hen
    exact ⟨hen, (Option.some.inj h).symm⟩
  · cases h

end Hath.Cleaner
