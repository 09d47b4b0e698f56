import Hath.CacheManager.Scan
import Hath.FileReader
import Hath.Lib.Loop

/-!
# Hath.CacheManager.Verify — the scan with I/O errors

`scan_cache` looks at every file of a listed directory in a task of its own: its
metadata, its name and its length, and with `verify_cache` the SHA-1 of its content. Any
of these steps can fail. A task whose metadata cannot be read or whose file cannot be
opened leaves the file alone, but the loop that hashes the content leaves by the same
way at the end of the file and at an error, and the task then compares the hash of what
it has read so far.

* `hashLoop_ends`, `hashed_eq_delivered` — the loop ends, and what it has hashed then;
* `fileTask_examine` — without errors the task is the check of `Hath.CacheManager.Scan`;
* `verify_removes_iff` — which files a verifying scan may take for corrupt.
-/

namespace Hath.Scan

open Lib

/-! ## The task of a file -/

/-- An entry of a listed directory. -/
inductive Entry where
  | file (content : Bytes) (mtime : Int)
  | dir

/-- What the file system answers to the task of an entry. -/
structure Io where
  /-- `entry.metadata()` succeeds. -/
  metadata : Bool
  /-- `File::open` succeeds. -/
  opened : Bool
  /-- What the reads of the hashing loop do, one after the other. -/
  reads : Nat → ReadResult
  /-- `remove_file` succeeds. -/
  removed : Bool
  /-- `async_filesize_fast`. -/
  realSize : Option U64

/-- A `DirEntry`; a name that is not UTF-8 is `none`. -/
structure Listed where
  name : Option Text
  entry : Entry
  io : Io

/-- One turn of the hashing loop: `n == 0` and an error both break. -/
def hashTurn (hashed : Bytes) : Except IoError Bytes → Bytes ⊕ Bytes
  | .ok buf => if buf.length = 0 then .inr hashed else .inl (hashed ++ buf)
  | .error _ => .inr hashed

/-- The results of reading a content with the buffer of 1 MiB. A read returns at least a
byte before the end, so there are enough of them for the loop (`hashLoop_ends`). -/
def readResults (content : Bytes) (reads : Nat → ReadResult) : List (Except IoError Bytes) :=
  (File.mk content 0).reads (1024 * 1024) (Loop.firsts reads (content.length + 1))

/-- What the task of an entry does. -/
def fileTask (sha1 : Bytes → Digest) (verify : Bool) (x : Listed) : Finding :=
  if x.io.metadata = false then .skip
  else match x.entry with
    | .dir => .skip
    | .file content mtime =>
        match x.name.bind CacheFileInfo.fromFileId with
        | none => .skip
        | some info =>
            let add := match x.io.realSize with
              | some size => .add info.staticRange size mtime
              | none => .skip
            if content.length ≠ info.fileSize then .delete
            else if verify = true then
              if x.io.opened = false then .skip
              else match Loop.loop hashTurn [] (readResults content x.io.reads) with
                | .inl _ => .skip
                | .inr hashed => if sha1 hashed ≠ info.hash then .delete else add
            else add

/-- The file is gone after its task. -/
def Listed.Removed (sha1 : Bytes → Digest) (verify : Bool) (x : Listed) : Prop :=
  fileTask sha1 verify x = .delete ∧ x.io.removed = true

/-! ## The scan -/

/-- What the two listings of a directory find: the number of entries, and the files.
Either is `none` if the directory cannot be opened. -/
structure RangeDir where
  counted : Option Nat
  files : Option (List Listed)

/-- One directory of the scan: the new state, and the files whose task has run. -/
def scanRange (sha1 : Bytes → Digest) (verify : Bool) (now : Int) (m : StateMap Text) (sr : Text)
    (d : RangeDir) : StateMap Text × List Listed :=
  match d.counted with
  | none => (m, [])
  | some count =>
      if BitVec.ofNat 64 count = m.fileCount sr then (m, [])
      else match d.files with
        | none => (m.clear sr, [])
        | some files =>
            (files.foldl (fun m x =>
              match fileTask sha1 verify x with
              | .add sr size mtime => m.scanFile sr size mtime now
              | _ => m) (m.clear sr), files)

/-- The directories of the scan, one after the other. -/
def scanRanges (sha1 : Bytes → Digest) (verify : Bool) (now : Int) :
    StateMap Text → List (Text × RangeDir) → StateMap Text × List Listed
  | m, [] => (m, [])
  | m, (sr, d) :: rest =>
      let (m, seen) := scanRange sha1 verify now m sr d
      let (m, later) := scanRanges sha1 verify now m rest
      (m, seen ++ later)

/-! ## The hashing loop -/

theorem hashLoop_ends {f : File} {capacity : Nat} {rs : List ReadResult}
    (hlen : f.rest.length < rs.length) (acc : Bytes) :
    ∃ hashed, Loop.loop hashTurn acc (f.reads capacity rs) = .inr hashed := by
  induction rs generalizing f acc with
  | nil => cases hlen
  | cons res rs ih =>
      rw [File.reads]
      cases hres : (f.read capacity res).2 with
      | error e => exact ⟨acc, Loop.loop_cons_inr rfl _⟩
      | ok chunk =>
          by_cases hchunk : chunk.length = 0
          · exact ⟨acc, Loop.loop_cons_inr (if_pos hchunk) _⟩
          · rw [Loop.loop_cons_inl (if_neg hchunk)]
            apply ih
            have hrest := congrArg List.length (File.rest_of_read_ok hres)
            rw [List.length_append] at hrest
            rw [List.length_cons] at hlen
            omega

/-- What the loop has hashed when it ends is what the reads delivered up to an error. -/
theorem hashed_eq_delivered {f : File} {capacity : Nat} (hcap : 0 < capacity)
    {rs : List ReadResult} {acc hashed : Bytes}
    (h : Loop.loop hashTurn acc (f.reads capacity rs) = .inr hashed) :
    hashed = acc ++ delivered (f.reads capacity rs) := by
  induction rs generalizing f acc with
  | nil => cases h
  | cons res rs ih =>
      rw [File.reads] at h ⊢
      cases hres : (f.read capacity res).2 with
      | error e =>
          rw [hres, Loop.loop_cons_inr rfl] at h
          cases h
          exact (List.append_nil _).symm
      | ok chunk =>
          rw [hres] at h
          by_cases hchunk : chunk.length = 0
          · -- the end of the file: the later results have nothing more
            rw [Loop.loop_cons_inr (if_pos hchunk)] at h
            cases h
            cases List.length_eq_zero_iff.mp hchunk
            have hend := File.rest_of_read_nil hcap hres
            have hafter := File.rest_of_read_ok hres
            rw [List.nil_append, hend] at hafter
            rw [delivered, File.delivered_reads_end hafter.symm, List.append_nil, List.append_nil]
          · rw [Loop.loop_cons_inl (if_neg hchunk)] at h
            rw [delivered, ← List.append_assoc]
            exact ih h

/-- Without an error the loop ends at the end of the file only. -/
theorem delivered_whole {f : File} {capacity : Nat} (hcap : 0 < capacity) {rs : List ReadResult}
    (hrs : ∀ e, .err e ∉ rs) {acc hashed : Bytes}
    (h : Loop.loop hashTurn acc (f.reads capacity rs) = .inr hashed) :
    delivered (f.reads capacity rs) = f.rest := by
  induction rs generalizing f acc with
  | nil => cases h
  | cons res rs ih =>
      have hlater : ∀ e, .err e ∉ rs := fun e he => hrs e (List.mem_cons_of_mem res he)
      cases res with
      | err e => exact absurd List.mem_cons_self (hrs e)
      | short n =>
          have hres : (f.read capacity (.short n)).2 =
              .ok (f.rest.take (min (n + 1) capacity)) := rfl
          rw [File.reads, hres] at h ⊢
          rw [delivered]
          by_cases hchunk : (f.rest.take (min (n + 1) capacity)).length = 0
          · have hnil := List.length_eq_zero_iff.mp hchunk
            have hend := File.rest_of_read_nil hcap (hres.trans (congrArg _ hnil))
            have hafter := File.rest_of_read_ok hres
            rw [hnil, List.nil_append, hend] at hafter
            rw [hnil, File.delivered_reads_end hafter.symm, hend]
            rfl
          · rw [Loop.loop_cons_inl (if_neg hchunk)] at h
            rw [ih hlater h]
            exact (File.rest_of_read_ok hres).symm

/-- The loop of a task hashes what the reads deliver before an error. -/
theorem hashLoop_eq (content : Bytes) (reads : Nat → ReadResult) :
    Loop.loop hashTurn [] (readResults content reads) =
      .inr (delivered (readResults content reads)) := by
  have hlen : (File.mk content 0).rest.length <
      (Loop.firsts reads (content.length + 1)).length := by
    simp [File.rest, Loop.firsts]
  rcases hashLoop_ends hlen [] with ⟨hashed, hloop⟩
  have hdelivered := hashed_eq_delivered (by decide : 0 < 1024 * 1024) hloop
  rw [List.nil_append] at hdelivered
  rw [hdelivered] at hloop
  exact hloop

theorem delivered_of_reads {content : Bytes} {reads : Nat → ReadResult}
    (h : ∀ i e, reads i ≠ .err e) : delivered (readResults content reads) = content := by
  refine delivered_whole (by decide) ?_ (hashLoop_eq content reads)
  intro e he
  rcases List.mem_map.mp he with ⟨i, -, hi⟩
  exact h i e hi

/-! ## What is removed -/

/-- A file with a name that parses. -/
def Listed.Stores (x : Listed) (info : CacheFileInfo) (content : Bytes) : Prop :=
  x.name.bind CacheFileInfo.fromFileId = some info ∧ ∃ mtime, x.entry = .file content mtime

/-- The content is not the one that the name promises. -/
def Corrupt (sha1 : Bytes → Digest) (info : CacheFileInfo) (content : Bytes) : Prop :=
  content.length ≠ info.fileSize ∨ sha1 content ≠ info.hash

/-- A good file whose reads fail at a place where the hash of what they delivered is not
that of the file, every other step of its task succeeding. -/
structure Disturbed (sha1 : Bytes → Digest) (info : CacheFileInfo) (content : Bytes) (io : Io) :
    Prop where
  metadata : io.metadata = true
  opened : io.opened = true
  removed : io.removed = true
  good : ¬ Corrupt sha1 info content
  reads : sha1 (delivered (readResults content io.reads)) ≠ info.hash

section

variable {sha1 : Bytes → Digest} {x : Listed} {info : CacheFileInfo} {content : Bytes}

/-- When a verifying task removes a file with a valid name. -/
theorem removed_iff (hx : x.Stores info content) :
    x.Removed sha1 true ↔ x.io.metadata = true ∧ x.io.removed = true ∧
      (content.length ≠ info.fileSize ∨
        x.io.opened = true ∧ sha1 (delivered (readResults content x.io.reads)) ≠ info.hash) := by
  rcases hx with ⟨hname, mtime, hentry⟩
  unfold Listed.Removed fileTask
  rw [hname, hentry]
  simp only [hashLoop_eq, if_true]
  cases hmeta : x.io.metadata with
  | false => simp
  | true =>
      by_cases hlen : content.length = info.fileSize
      · cases hopen : x.io.opened with
        | false => simp [hlen]
        | true =>
            by_cases hhash : sha1 (delivered (readResults content x.io.reads)) = info.hash
            · cases x.io.realSize <;> simp [hlen, hhash]
            · simp [hlen, hhash]
      · simp [hlen]

/-- Without errors a good file stays. -/
theorem not_disturbed_of_reads {io : Io} (h : ∀ i e, io.reads i ≠ .err e) :
    ¬ Disturbed sha1 info content io := by
  intro hd
  have hgood := hd.good
  have hreads := hd.reads
  rw [delivered_of_reads h] at hreads
  exact hgood (.inr hreads)

/-- A task takes no good file for corrupt, except a disturbed one. -/
theorem removed_corrupt_iff (hx : x.Stores info content) :
    (x.Removed sha1 true → Corrupt sha1 info content) ↔ ¬ Disturbed sha1 info content x.io := by
  rw [removed_iff hx]
  constructor
  · intro h hd
    exact hd.good (h ⟨hd.metadata, hd.removed, .inr ⟨hd.opened, hd.reads⟩⟩)
  · rintro hnot ⟨hmeta, hrem, hlen | ⟨hopen, hhash⟩⟩
    · exact .inl hlen
    · by_contra hgood
      exact hnot ⟨hmeta, hopen, hrem, hgood, hhash⟩

end

/-- Without errors the task makes the checks of the scan without errors. -/
theorem fileTask_examine (sha1 : Bytes → Digest) (verify : Bool) (name : Text) (content : Bytes)
    (mtime : Int) (io : Io) (size : U64) (hmeta : io.metadata = true) (hopen : io.opened = true)
    (hreads : ∀ i e, io.reads i ≠ .err e) (hsize : io.realSize = some size) :
    fileTask sha1 verify ⟨some name, .file content mtime, io⟩ =
      examine verify name (.file ⟨content.length, size, mtime, sha1 content⟩) := by
  unfold fileTask examine
  simp only [hmeta, hopen, hsize, hashLoop_eq, delivered_of_reads hreads, Option.bind_some]
  cases CacheFileInfo.fromFileId name with
  | none => rfl
  | some info =>
      by_cases hlen : content.length = info.fileSize
      · cases verify with
        | false => simp [hlen]
        | true =>
            by_cases hhash : sha1 content = info.hash
            · simp [hlen, hhash]
            · simp [hlen, hhash]
      · simp [hlen]

/-- **A verifying scan removes corrupt files only, exactly if no read of a good file fails
where the hash of the part it has read is wrong.** -/
theorem verify_removes_iff (sha1 : Bytes → Digest) (now : Int) (m : StateMap Text)
    (dirs : List (Text × RangeDir)) :
    (∀ x ∈ (scanRanges sha1 true now m dirs).2, ∀ info content, x.Stores info content →
      x.Removed sha1 true → Corrupt sha1 info content) ↔
    ∀ x ∈ (scanRanges sha1 true now m dirs).2, ∀ info content, x.Stores info content →
      ¬ Disturbed sha1 info content x.io := by
  constructor
  · intro h x hmem info content hx
    exact (removed_corrupt_iff hx).mp (h x hmem info content hx)
  · intro h x hmem info content hx
    exact (removed_corrupt_iff hx).mpr (h x hmem info content hx)

/-- The file `abc` under its own name, whose first read fails. -/
def unreadable : Listed where
  name := some abcInfo.fileName
  entry := .file [97, 98, 99] 0
  io := ⟨true, true, fun _ => .err .os, true, some 4096⟩

/-- The scan removes it. -/
theorem unreadable_removed :
    unreadable ∈ (scanRanges abcSha1 true 0 (fun _ => none)
      [("a999".toList, ⟨some 1, some [unreadable]⟩)]).2 ∧
    unreadable.Stores abcInfo [97, 98, 99] ∧ unreadable.Removed abcSha1 true ∧
    ¬ Corrupt abcSha1 abcInfo [97, 98, 99] := by
  have hstores : unreadable.Stores abcInfo [97, 98, 99] := by
    refine ⟨?_, 0, rfl⟩
    decide +kernel
  refine ⟨List.mem_singleton.mpr rfl, hstores, ?_, ?_⟩
  · rw [removed_iff hstores]
    refine ⟨rfl, rfl, .inr ⟨rfl, ?_⟩⟩
    decide +kernel
  · rintro (hlen | hhash)
    · exact hlen rfl
    · exact hhash rfl

end Hath.Scan
