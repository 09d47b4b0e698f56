import Mathlib.Algebra.BigOperators.Group.List.Basic
import Mathlib.Data.BitVec
import Mathlib.Data.List.Perm.Subperm
import Mathlib.Tactic.Ring
import Hath.CacheManager.FileInfo
import Hath.CacheManager.State

/-!
# Hath.CacheManager.Scan — loading and scanning at start

`CacheManager::new` loads the saved `cache_state` and `scan_cache` brings it up to
date with the disk: directories out of range are deleted, a directory whose number
of entries is the saved count is skipped, and any other one is listed and its entry
built anew. Here the scan runs alone and without I/O errors, so the concurrent
handling of a directory's files is a loop over them (`scanDir_perm`: in any order).

The file sizes that are added up are the allocated ones, which the file system
reports (`realSize`); the size in the name is only compared with the length.

* `scanDirs_entry` — the final entry of a range: the loaded one if the counts match,
  else the one built from its directory;
* `restart_scan` — how a restart compares with a scan from an empty state, and that
  no removal wraps the counters of an entry that has been built.
-/

namespace Hath

namespace Scan

/-! ## The disk -/

/-- What the file system knows of a file. -/
structure Meta where
  len : Nat
  realSize : U64
  mtime : Int
  sha1 : Digest
deriving DecidableEq

/-- An entry of the directory of a range. -/
inductive Node where
  | file (m : Meta)
  | dir
deriving DecidableEq

/-- The directory of a range: names and entries. -/
abbrev Dir := List (Text × Node)

/-- An entry of a first-level directory. -/
inductive Node2 where
  | file
  | dir (d : Dir)

/-- An entry of the cache directory. -/
inductive Node1 where
  | file
  | dir (entries : List (Text × Node2))

/-! ## `scan_cache` -/

/-- `eq_ignore_ascii_case`. -/
def eqIgnoreAsciiCase (a b : Text) : Bool := a.map Char.toLower == b.map Char.toLower

/-- The directories that belong to a static range, in the order they are found. The
others are deleted. -/
def rangeDirs (staticRange : List Text) (root : List (Text × Node1)) : List (Text × Dir) :=
  root.flatMap fun (l1, node1) =>
    match node1 with
    | .file => []
    | .dir entries => entries.filterMap fun (l2, node2) =>
        match node2 with
        | .file => none
        | .dir d => (staticRange.find? (eqIgnoreAsciiCase (l1 ++ l2))).map fun sr => (sr, d)

/-- What is done with an entry of a listed directory. -/
inductive Finding where
  | skip
  | delete
  | add (sr : Text) (size : U64) (mtime : Int)

/-- The checks on an entry: a file with a name that parses and its declared length, and
under `verify_cache` with its hash. -/
def examine (verify : Bool) (name : Text) : Node → Finding
  | .dir => .skip
  | .file m =>
      match CacheFileInfo.fromFileId name with
      | none => .skip
      | some info =>
          if m.len ≠ info.fileSize then .delete
          else if verify = true ∧ m.sha1 ≠ info.hash then .delete
          else .add info.staticRange m.realSize m.mtime

/-- The files of a directory that are added. -/
def added (verify : Bool) (d : Dir) : List (Text × U64 × Int) :=
  d.filterMap fun (name, node) =>
    match examine verify name node with
    | .add sr size mtime => some (sr, size, mtime)
    | _ => none

/-- The directory after its files have been examined. -/
def kept (verify : Bool) (d : Dir) : Dir :=
  d.filter fun (name, node) =>
    match examine verify name node with
    | .delete => false
    | _ => true

/-- One directory of the scan. -/
def scanDir (verify : Bool) (now : Int) (m : StateMap Text) (sr : Text) (d : Dir) :
    StateMap Text × Dir :=
  if BitVec.ofNat 64 d.length = m.fileCount sr then (m, d)
  else
    ((added verify d).foldl (fun m (sr, size, mtime) => m.scanFile sr size mtime now) (m.clear sr),
      kept verify d)

/-- The directories of the scan, one after the other. -/
def scanDirs (verify : Bool) (now : Int) :
    StateMap Text → List (Text × Dir) → StateMap Text × List (Text × Dir)
  | m, [] => (m, [])
  | m, (sr, d) :: rest =>
      let (m, d) := scanDir verify now m sr d
      let (m, rest) := scanDirs verify now m rest
      (m, (sr, d) :: rest)

/-- `scan_cache`: the new `cache_state` and what is left in the scanned directories, or
`none` for the error "Cache is empty". Every directory that can be opened counts as
scanned. -/
def scanCache (staticRange : List Text) (verify : Bool) (now : Int) (root : List (Text × Node1))
    (m : StateMap Text) : Option (StateMap Text × List (Text × Dir)) :=
  let dirs := rangeDirs staticRange root
  if dirs.length = 0 ∧ staticRange.length > 20 then none
  else some (scanDirs verify now m dirs)

/-- The state that `new` starts the scan with: what could be read of the saved one, for
the ranges that are still assigned; nothing if the cache is to be verified. -/
def loadState (staticRange : List Text) (verify : Bool) (saved : Option (StateMap Text)) :
    StateMap Text :=
  fun sr =>
    if verify = true ∨ sr ∉ staticRange then none
    else saved.bind fun m => m sr

/-- `CacheManager::new` up to the end of the scan. -/
def restart (staticRange : List Text) (verify : Bool) (now : Int) (root : List (Text × Node1))
    (saved : Option (StateMap Text)) : Option (StateMap Text × List (Text × Dir)) :=
  scanCache staticRange verify now root (loadState staticRange verify saved)

/-- The scan from an empty state. -/
def fullScan (staticRange : List Text) (verify : Bool) (now : Int) (root : List (Text × Node1)) :
    Option (StateMap Text × List (Text × Dir)) :=
  scanCache staticRange verify now root fun _ => none

/-! ## The entry of a range -/

/-- The entry that the files of one directory are added up to. -/
def build (now : Int) (e : Option CacheState) (files : List (Text × U64 × Int)) :
    Option CacheState :=
  files.foldl (fun e f => some (CacheState.scanned e f.2.1 f.2.2 now)) e

/-- The allocated sizes of the files that are added. -/
def sizes (files : List (Text × U64 × Int)) : List U64 := files.map fun f => f.2.1

section

variable {verify : Bool} {now : Int}

/-- Adding files of one range changes the entry of that range only. -/
theorem foldl_scanFile {sr : Text} (files : List (Text × U64 × Int)) (hsr : ∀ f ∈ files, f.1 = sr)
    (m : StateMap Text) :
    files.foldl (fun m f => m.scanFile f.1 f.2.1 f.2.2 now) m =
      Function.update m sr (build now (m sr) files) := by
  induction files generalizing m with
  | nil => simp [build]
  | cons f files ih =>
      have hf : f.1 = sr := hsr f (List.mem_cons_self ..)
      rw [List.foldl_cons, ih fun g hg => hsr g (List.mem_cons_of_mem _ hg)]
      simp [StateMap.scanFile, hf, build]

theorem build_cons (e : Option CacheState) (f : Text × U64 × Int)
    (files : List (Text × U64 × Int)) :
    build now e (f :: files) = build now (some (CacheState.scanned e f.2.1 f.2.2 now)) files :=
  rfl

theorem build_fileCount (e : Option CacheState) (files : List (Text × U64 × Int)) :
    ((build now e files).map CacheState.fileCount).getD 0 =
      (e.map CacheState.fileCount).getD 0 + files.length := by
  induction files generalizing e with
  | nil => simp [build]
  | cons f files ih =>
      rw [build_cons, ih]
      have hfresh : (e.getD (CacheState.fresh now)).fileCount =
          (e.map CacheState.fileCount).getD 0 := by cases e <;> rfl
      simp only [Option.map_some, Option.getD_some, CacheState.scanned_fileCount, hfresh,
        List.length_cons, Nat.cast_add, Nat.cast_one]
      ring

theorem build_size (e : Option CacheState) (files : List (Text × U64 × Int)) :
    ((build now e files).map CacheState.size).getD 0 =
      (e.map CacheState.size).getD 0 + (sizes files).sum := by
  induction files generalizing e with
  | nil => simp [build, sizes]
  | cons f files ih =>
      rw [build_cons, ih]
      have hfresh : (e.getD (CacheState.fresh now)).size = (e.map CacheState.size).getD 0 := by
        cases e <;> rfl
      simp only [Option.map_some, Option.getD_some, CacheState.scanned_size, hfresh, sizes,
        List.map_cons, List.sum_cons]
      ring

/-- A directory only concerns the entry of its range. -/
theorem scanDir_other {m : StateMap Text} {sr r : Text} {d : Dir}
    (hplaced : ∀ f ∈ added verify d, f.1 = sr) (hr : r ≠ sr) :
    (scanDir verify now m sr d).1 r = m r := by
  unfold scanDir
  split
  · rfl
  · show (added verify d).foldl _ (m.clear sr) r = m r
    rw [foldl_scanFile _ hplaced]
    simp [StateMap.clear, hr]

/-- The entry of a scanned range: trusted or built anew. -/
theorem scanDir_self {m : StateMap Text} {sr : Text} {d : Dir}
    (hplaced : ∀ f ∈ added verify d, f.1 = sr) :
    (scanDir verify now m sr d).1 sr =
      if BitVec.ofNat 64 d.length = m.fileCount sr then m sr
      else build now none (added verify d) := by
  unfold scanDir
  split
  · rfl
  · show (added verify d).foldl _ (m.clear sr) sr = _
    rw [foldl_scanFile _ hplaced]
    simp [StateMap.clear]

/-- The files of a directory may be added in any order, as far as its counters go. -/
theorem scanDir_perm {e : Option CacheState} {files files' : List (Text × U64 × Int)}
    (h : files.Perm files') :
    ((build now e files).map CacheState.fileCount).getD 0 =
      ((build now e files').map CacheState.fileCount).getD 0 ∧
    ((build now e files).map CacheState.size).getD 0 =
      ((build now e files').map CacheState.size).getD 0 := by
  have hsum : (sizes files).sum = (sizes files').sum := by
    unfold sizes
    exact (h.map _).sum_eq
  rw [build_fileCount, build_fileCount, build_size, build_size, h.length_eq, hsum]
  exact ⟨rfl, rfl⟩

theorem scanDirs_other {dirs : List (Text × Dir)} {r : Text} (hr : r ∉ dirs.map Prod.fst)
    (hplaced : ∀ sr d, (sr, d) ∈ dirs → ∀ f ∈ added verify d, f.1 = sr) (m : StateMap Text) :
    (scanDirs verify now m dirs).1 r = m r := by
  induction dirs generalizing m with
  | nil => rfl
  | cons head rest ih =>
      rcases head with ⟨sr, d⟩
      rw [List.map_cons, List.mem_cons, not_or] at hr
      show (scanDirs verify now (scanDir verify now m sr d).1 rest).1 r = m r
      rw [ih hr.2 fun sr d h => hplaced sr d (List.mem_cons_of_mem _ h)]
      exact scanDir_other (hplaced sr d (List.mem_cons_self ..)) hr.1

/-- With one directory per range and every file in the directory of its range, the
scan treats the ranges independently. -/
theorem scanDirs_entry {dirs : List (Text × Dir)} (hone : (dirs.map Prod.fst).Nodup)
    (hplaced : ∀ sr d, (sr, d) ∈ dirs → ∀ f ∈ added verify d, f.1 = sr) (m : StateMap Text)
    {sr : Text} {d : Dir} (hmem : (sr, d) ∈ dirs) :
    (scanDirs verify now m dirs).1 sr =
      if BitVec.ofNat 64 d.length = m.fileCount sr then m sr
      else build now none (added verify d) := by
  induction dirs generalizing m with
  | nil => cases hmem
  | cons head rest ih =>
      rcases head with ⟨sr₀, d₀⟩
      rw [List.map_cons, List.nodup_cons] at hone
      have hlater : ∀ r e, (r, e) ∈ rest → ∀ f ∈ added verify e, f.1 = r :=
        fun r e he => hplaced r e (List.mem_cons_of_mem _ he)
      have hplaced₀ : ∀ f ∈ added verify d₀, f.1 = sr₀ := hplaced sr₀ d₀ (List.mem_cons_self ..)
      show (scanDirs verify now (scanDir verify now m sr₀ d₀).1 rest).1 sr = _
      rcases List.mem_cons.mp hmem with heq | hin
      · -- its own directory: the later ones leave the entry alone
        rcases Prod.mk.inj heq with ⟨rfl, rfl⟩
        rw [scanDirs_other hone.1 hlater, scanDir_self hplaced₀]
      · -- a directory before: it leaves the entry alone
        have hne : sr ≠ sr₀ := by
          rintro rfl
          exact hone.1 (List.mem_map.mpr ⟨(sr, d), hin, rfl⟩)
        have hsame : (scanDir verify now m sr₀ d₀).1 sr = m sr := scanDir_other hplaced₀ hne
        rw [ih hone.2 hlater _ hin, StateMap.fileCount, hsame]
        rfl

end

/-! ## Removals after the scan -/

/-- Removing files of these sizes, one after the other, wraps neither counter. -/
def NoWrap : CacheState → List U64 → Prop
  | _, [] => True
  | c, size :: rest =>
      1 ≤ c.fileCount.toNat ∧ size.toNat ≤ c.size.toNat ∧ NoWrap (c.removeFile size) rest

/-- The counters are those of the files of the given sizes. -/
def Counts (c : CacheState) (files : List U64) : Prop :=
  c.fileCount.toNat = files.length ∧ c.size.toNat = (files.map BitVec.toNat).sum

theorem counts_removeFile {c : CacheState} {size : U64} {files : List U64}
    (h : Counts c (size :: files)) : Counts (c.removeFile size) files := by
  rcases h with ⟨hcount, hsize⟩
  rw [List.map_cons, List.sum_cons] at hsize
  rw [List.length_cons] at hcount
  constructor
  · rw [CacheState.removeFile_fileCount, BitVec.toNat_sub_of_le]
    · simp [hcount]
    · rw [BitVec.le_def]
      simp [hcount]
  · rw [CacheState.removeFile_size, BitVec.toNat_sub_of_le]
    · omega
    · rw [BitVec.le_def]
      omega

/-- Any of the files an entry counts can be removed, in any order. -/
theorem noWrap_of_counts {c : CacheState} {gone files : List U64} (h : Counts c files)
    (hgone : gone.Subperm files) : NoWrap c gone := by
  induction gone generalizing c files with
  | nil => trivial
  | cons size rest ih =>
      have hmem : size ∈ files := hgone.subset (List.mem_cons_self ..)
      have hperm : files.Perm (size :: files.erase size) := List.perm_cons_erase hmem
      have hcounts : Counts c (size :: files.erase size) := by
        refine ⟨h.1.trans hperm.length_eq, h.2.trans ?_⟩
        exact (hperm.map _).sum_eq
      have hrest : rest.Subperm (files.erase size) :=
        (List.subperm_cons size).mp (hgone.trans hperm.subperm)
      refine ⟨?_, ?_, ih (counts_removeFile hcounts) hrest⟩
      · rw [hcounts.1, List.length_cons]
        omega
      · rw [hcounts.2, List.map_cons, List.sum_cons]
        omega

theorem sum_toNat {l : List U64} (h : (l.map BitVec.toNat).sum < 2 ^ 64) :
    l.sum.toNat = (l.map BitVec.toNat).sum := by
  induction l with
  | nil => rfl
  | cons a l ih =>
      rw [List.map_cons, List.sum_cons] at h
      rw [List.sum_cons, List.map_cons, List.sum_cons, BitVec.toNat_add, ih (by omega)]
      exact Nat.mod_eq_of_lt h

/-! ## Restart and full scan -/

section

variable {staticRange : List Text} {verify : Bool} {now : Int} {root : List (Text × Node1)}
  {m : StateMap Text} {left : List (Text × Dir)}

theorem scanCache_entry {m₀ : StateMap Text}
    (hrun : scanCache staticRange verify now root m₀ = some (m, left))
    (hone : ((rangeDirs staticRange root).map Prod.fst).Nodup)
    (hplaced : ∀ sr d, (sr, d) ∈ rangeDirs staticRange root → ∀ f ∈ added verify d, f.1 = sr)
    {sr : Text} {d : Dir} (hmem : (sr, d) ∈ rangeDirs staticRange root) :
    m sr = if BitVec.ofNat 64 d.length = m₀.fileCount sr then m₀ sr
      else build now none (added verify d) := by
  simp only [scanCache, Option.ite_none_left_eq_some, Option.some.injEq] at hrun
  rcases hrun with ⟨-, hrun⟩
  rw [← scanDirs_entry hone hplaced m₀ hmem, hrun]

/-- A range without a directory is left alone. -/
theorem scanCache_other {m₀ : StateMap Text}
    (hrun : scanCache staticRange verify now root m₀ = some (m, left))
    (hplaced : ∀ sr d, (sr, d) ∈ rangeDirs staticRange root → ∀ f ∈ added verify d, f.1 = sr)
    {sr : Text} (hsr : sr ∉ (rangeDirs staticRange root).map Prod.fst) : m sr = m₀ sr := by
  simp only [scanCache, Option.ite_none_left_eq_some, Option.some.injEq] at hrun
  rcases hrun with ⟨-, hrun⟩
  rw [← scanDirs_other hsr hplaced m₀, hrun]

/-- A scan from an empty state builds every entry from its directory. -/
theorem fullScan_entry (hrun : fullScan staticRange verify now root = some (m, left))
    (hone : ((rangeDirs staticRange root).map Prod.fst).Nodup)
    (hplaced : ∀ sr d, (sr, d) ∈ rangeDirs staticRange root → ∀ f ∈ added verify d, f.1 = sr)
    {sr : Text} {d : Dir} (hmem : (sr, d) ∈ rangeDirs staticRange root)
    (hlen : d.length < 2 ^ 64) : m sr = build now none (added verify d) := by
  rw [scanCache_entry hrun hone hplaced hmem]
  split
  · -- an empty directory: there is nothing to add
    rename_i hzero
    have hd : d = [] := by
      have := congrArg BitVec.toNat hzero
      simp only [BitVec.toNat_ofNat, Nat.mod_eq_of_lt hlen, StateMap.fileCount] at this
      exact List.length_eq_zero_iff.mp this
    subst hd
    rfl
  · rfl

/-- With one directory per range and every valid file in the directory of its range:
after a restart, a range whose directory has not as many entries as the saved count
has the entry that a full scan gives it, which counts the valid files of the directory
and adds up their sizes, so that no removals of them wrap it; a range whose directory
has as many keeps its saved entry, which agrees with the full scan if it was right; and a
range without a directory keeps its saved entry, which a full scan would not make. -/
theorem restart_scan {saved : Option (StateMap Text)} {mfull : StateMap Text}
    {leftFull : List (Text × Dir)}
    (hrun : restart staticRange verify now root saved = some (m, left))
    (hfull : fullScan staticRange verify now root = some (mfull, leftFull))
    (hone : ((rangeDirs staticRange root).map Prod.fst).Nodup)
    (hplaced : ∀ sr d, (sr, d) ∈ rangeDirs staticRange root → ∀ f ∈ added verify d, f.1 = sr)
    (hlen : ∀ sr d, (sr, d) ∈ rangeDirs staticRange root → d.length < 2 ^ 64) :
    (∀ sr d, (sr, d) ∈ rangeDirs staticRange root →
      (BitVec.ofNat 64 d.length ≠ (loadState staticRange verify saved).fileCount sr →
        m sr = mfull sr ∧ m.fileCount sr = ((added verify d).length : U64) ∧
        m.size sr = (sizes (added verify d)).sum ∧
        (((sizes (added verify d)).map BitVec.toNat).sum < 2 ^ 64 → ∀ c, m sr = some c →
          ∀ gone, gone.Subperm (sizes (added verify d)) → NoWrap c gone)) ∧
      (BitVec.ofNat 64 d.length = (loadState staticRange verify saved).fileCount sr →
        m sr = loadState staticRange verify saved sr ∧
        ((loadState staticRange verify saved).fileCount sr = ((added verify d).length : U64) →
          (loadState staticRange verify saved).size sr = (sizes (added verify d)).sum →
          m.fileCount sr = mfull.fileCount sr ∧ m.size sr = mfull.size sr))) ∧
    ∀ sr, sr ∉ (rangeDirs staticRange root).map Prod.fst →
      m sr = loadState staticRange verify saved sr ∧ mfull sr = none := by
  refine ⟨?_, fun sr hsr => ⟨scanCache_other hrun hplaced hsr, scanCache_other hfull hplaced hsr⟩⟩
  intro sr d hmem
  have hentry := scanCache_entry hrun hone hplaced hmem
  have hbuilt := fullScan_entry hfull hone hplaced hmem (hlen sr d hmem)
  have hcount : mfull.fileCount sr = ((added verify d).length : U64) := by
    rw [StateMap.fileCount, hbuilt, build_fileCount]
    simp
  have hsize : mfull.size sr = (sizes (added verify d)).sum := by
    rw [StateMap.size, hbuilt, build_size]
    simp
  constructor
  · intro hne
    rw [if_neg hne, ← hbuilt] at hentry
    have hc : m.fileCount sr = mfull.fileCount sr := by rw [StateMap.fileCount, hentry]; rfl
    have hz : m.size sr = mfull.size sr := by rw [StateMap.size, hentry]; rfl
    refine ⟨hentry, hc.trans hcount, hz.trans hsize, ?_⟩
    intro hfits c hsome gone hgone
    refine noWrap_of_counts ⟨?_, ?_⟩ hgone
    · have hle : (added verify d).length ≤ d.length := List.length_filterMap_le _ _
      have hlt := hlen sr d hmem
      have hcc : c.fileCount = ((added verify d).length : U64) := by
        rw [← hcount, ← hc, StateMap.fileCount, hsome]
        rfl
      rw [hcc, BitVec.natCast_eq_ofNat, BitVec.toNat_ofNat, Nat.mod_eq_of_lt (by omega), sizes,
        List.length_map]
    · have hcz : c.size = (sizes (added verify d)).sum := by
        rw [← hsize, ← hz, StateMap.size, hsome]
        rfl
      rw [hcz, sum_toNat hfits]
  · intro heq
    rw [if_pos heq] at hentry
    refine ⟨hentry, ?_⟩
    intro hrightCount hrightSize
    rw [hcount, hsize, ← hrightCount, ← hrightSize, StateMap.fileCount, StateMap.size, hentry]
    exact ⟨rfl, rfl⟩

end

/-! ### Concrete disks -/

/-- A file of the given name, length and allocated size. -/
def entryOf (name : String) (len : Nat) (realSize : U64) : Text × Node :=
  (name.toList, .file { len := len, realSize := realSize, mtime := 0, sha1 := abcDigest })

/-- Two files of range `a999`, two of range `b000`. -/
def abcEntry : Text × Node := entryOf "a9993e364706816aba3e25717850c26c9cd0d89d-3-jpg" 3 4096

def nextEntry : Text × Node := entryOf "a999000000000000000000000000000000000000-5-jpg" 5 8192

def b1Entry : Text × Node := entryOf "b000000000000000000000000000000000000001-5-jpg" 5 4096

def b2Entry : Text × Node := entryOf "b000000000000000000000000000000000000002-5-jpg" 5 12288

/-- The two static ranges and a cache directory with their directories. -/
def twoRanges : List Text := ["a999".toList, "b000".toList]

def twoDirs (a b : Dir) : List (Text × Node1) :=
  [("a9".toList, .dir [("99".toList, .dir a)]), ("b0".toList, .dir [("00".toList, .dir b)])]

/-- Two directories of one range: `a9/99`, where its files belong, and `a/999`. -/
def splitDirs : List (Text × Node1) :=
  [("a9".toList, .dir [("99".toList, .dir [abcEntry, nextEntry])]),
    ("a".toList, .dir [("999".toList, .dir [abcEntry])])]

/-- What a full scan of a disk leaves to be saved. -/
def savedAfter (root : List (Text × Node1)) : Option (StateMap Text) :=
  (fullScan twoRanges false 0 root).map Prod.fst

/-- A restart does not always agree with a full scan. A file removed and another one
imported after the state was saved: the counts match, the saved size of 4096 stays, less
than the removal of the new file subtracts. A file in the directory of another range:
even with what the last full scan left as saved state, the restart differs from the next
one. A range whose directory is gone: its saved entry stays. A second directory for a
range, found later: its one file replaces the two of the first, whose removals wrap. -/
theorem restart_trusts_count :
    ((restart twoRanges false 0 (twoDirs [nextEntry] []) (savedAfter (twoDirs [abcEntry] []))).map
        fun r => r.1.size "a999".toList) = some 4096 ∧
    ((fullScan twoRanges false 0 (twoDirs [nextEntry] [])).map
        fun r => r.1.size "a999".toList) = some 8192 ∧
    ((restart twoRanges false 0 (twoDirs [b1Entry] [b2Entry])
        (savedAfter (twoDirs [b1Entry] [b2Entry]))).map
        fun r => r.1.size "b000".toList) = some 12288 ∧
    ((fullScan twoRanges false 0 (twoDirs [b1Entry] [b2Entry])).map
        fun r => r.1.size "b000".toList) = some 4096 ∧
    ((restart twoRanges false 0 [] (savedAfter (twoDirs [abcEntry] []))).map
        fun r => r.1.fileCount "a999".toList) = some 1 ∧
    ((fullScan twoRanges false 0 []).map fun r => r.1.fileCount "a999".toList) = some 0 ∧
    ((restart twoRanges false 0 splitDirs none).map fun r =>
        ((r.1.removeFile "a999".toList 4096).removeFile "a999".toList 8192).fileCount
          "a999".toList) = some (BitVec.allOnes 64) := by
  refine ⟨?_, ?_, ?_, ?_, ?_, ?_, ?_⟩ <;> decide +kernel

/-- A restart over two ranges: the saved count of the first is off, so its entry is
built anew; that of the second is right, so its entry stays. -/
theorem restart_scan_twoRanges :
    ∃ m left, restart twoRanges false 0 (twoDirs [abcEntry, nextEntry] [b1Entry])
        (some fun _ => some ⟨1, 4096, 7⟩) = some (m, left) ∧
      m.fileCount "a999".toList = 2 ∧ m.size "a999".toList = 12288 ∧
      m "b000".toList = some ⟨1, 4096, 7⟩ ∧
      ∀ c, m "a999".toList = some c → NoWrap c [8192, 4096] := by
  have hdirs : rangeDirs twoRanges (twoDirs [abcEntry, nextEntry] [b1Entry]) =
      [("a999".toList, [abcEntry, nextEntry]), ("b000".toList, [b1Entry])] := by decide +kernel
  obtain ⟨⟨m, left⟩, hrun⟩ := Option.isSome_iff_exists.mp
    (show (restart twoRanges false 0 (twoDirs [abcEntry, nextEntry] [b1Entry])
      (some fun _ => some ⟨1, 4096, 7⟩)).isSome = true by decide +kernel)
  obtain ⟨⟨mfull, leftFull⟩, hfull⟩ := Option.isSome_iff_exists.mp
    (show (fullScan twoRanges false 0 (twoDirs [abcEntry, nextEntry] [b1Entry])).isSome = true by
      decide +kernel)
  have hplaced : ∀ p ∈ rangeDirs twoRanges (twoDirs [abcEntry, nextEntry] [b1Entry]),
      (∀ f ∈ added false p.2, f.1 = p.1) ∧ p.2.length < 2 ^ 64 := by
    decide +kernel
  have hscan := restart_scan hrun hfull (by decide +kernel) (fun sr d h => (hplaced (sr, d) h).1)
    (fun sr d h => (hplaced (sr, d) h).2)
  rcases hscan.1 "a999".toList [abcEntry, nextEntry] (by simp [hdirs]) with ⟨hbuilt, -⟩
  rcases hbuilt (by decide +kernel) with ⟨-, hcount, hsize, hwrap⟩
  rcases hscan.1 "b000".toList [b1Entry] (by simp [hdirs]) with ⟨-, hkept⟩
  refine ⟨m, left, hrun, hcount.trans (by decide +kernel), hsize.trans (by decide +kernel),
    (hkept (by decide +kernel)).1.trans (by decide +kernel), ?_⟩
  intro c hc
  exact hwrap (by decide +kernel) c hc _ (by decide +kernel)

end Scan

end Hath
