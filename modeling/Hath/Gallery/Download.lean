import Mathlib.Data.Finset.Card
import Mathlib.Data.List.Nodup
import Hath.Basic
import Hath.Lib.Machine
import Hath.Lib.Splice

/-!
# Hath.Gallery.Download — the download loop of `GalleryDownloader::run`

One gallery, from the creation of its directory to "Finished download" or
"Permanently failed". Up to ten passes go over the file list; an entry that is not
in `downloaded_files` has its path examined by `check_hash` and, if that fails, is
given to a task that calls `download` up to three times. At most four tasks run
at once, next to the loop; a pass ends when its tasks have ended.

The model follows the loop and the tasks await by await. `returnedOk` and `created`
record what has happened and are read by no step: the entries some `download` of
which has returned `Ok`, and the paths a `download` of this run has created. The
directory of the gallery is `files`; what else is in it does not matter.

* `Inv` — tasks work on paths of their own, and what is in `downloaded_files` stays
  as it was when it was put there;
* `downloaded_of_clean` — entries and the end of the run are what they should be, as
  long as no pass examines what a failed download has left behind and the gallery
  has no more files than FILECOUNT says.
-/

namespace Hath.Gallery

open Lib

/-! ## State -/

/-- An entry of the file list. -/
structure GalleryFile where
  page : Nat
  fileindex : Nat
  xres : Text
  expectedSha1Hash : Option Digest
  filetype : Text
  filename : Text
deriving DecidableEq

/-- The path of an entry in the directory of its gallery. -/
def GalleryFile.path (info : GalleryFile) : Text := info.filename ++ '.' :: info.filetype

/-- Where a call of `download` stands. -/
inductive TaskPc where
  /-- In `File::create`. -/
  | creating
  /-- In `send`. -/
  | requesting
  /-- In the body. -/
  | streaming
  /-- `download` has returned `Ok`. -/
  | succeeded
deriving DecidableEq

/-- A download task: its entry, its attempt and the locals of `download`. -/
structure Task where
  info : GalleryFile
  attempt : Nat
  pc : TaskPc
  pos : Nat
  hasher : Bytes

/-- Where the loop stands; `i` is the index in the file list. -/
inductive Pc where
  | next (i : Nat)
  /-- At the start of `check_hash`. -/
  | examining (i : Nat) (info : GalleryFile)
  /-- In the read loop of `check_hash`. -/
  | hashing (i : Nat) (info : GalleryFile) (hasher : Bytes) (off : Nat)
  /-- In `dl_fetch`. -/
  | fetching (i : Nat) (info : GalleryFile)
  /-- In `acquire_owned`. -/
  | acquiring (i : Nat) (info : GalleryFile)
  /-- In `acquire_many`. -/
  | draining
  /-- "Finished download". -/
  | finished
  /-- "Permanently failed". -/
  | failed
  /-- The client is shutting down. -/
  | stopped
deriving DecidableEq

structure St where
  pass : Nat
  pc : Pc
  files : Text → Option Bytes
  /-- The running task of the entry at an index. -/
  task : Nat → Option Task
  downloaded : Finset GalleryFile
  returnedOk : Finset GalleryFile
  created : Finset Text

inductive TaskEvent where
  | createErr
  | created
  | requestErr
  | requestOk
  | chunk (bytes : Bytes)
  /-- `write_all` failed after storing the first `n` bytes. -/
  | writeErr (bytes : Bytes) (n : Nat)
  | streamErr
  | streamEnd
  /-- The entry is put into `downloaded_files`. -/
  | record

inductive Act where
  | begin
  | stop
  /-- The look at the path in `check_hash`; `opened` tells whether it could be opened. -/
  | exam (opened : Bool)
  /-- A read of at most `n` bytes in `check_hash`. -/
  | read (n : Nat)
  | url (ok : Bool)
  | spawn
  | drain
  | task (i : Nat) (e : TaskEvent)

/-! ## Steps -/

@[simp] def St.setPc (s : St) (pc : Pc) : St := { s with pc := pc }

@[simp] def St.setTask (s : St) (i : Nat) (t : Option Task) : St :=
  { s with task := Function.update s.task i t }

@[simp] def St.setFile (s : St) (p : Text) (content : Option Bytes) : St :=
  { s with files := Function.update s.files p content }

section

variable (sha1 : Bytes → Digest) (gallery : List GalleryFile) (filecount : Nat)

/-- The content has the hash of the entry, if that is known. -/
def hashOk (info : GalleryFile) (content : Bytes) : Bool :=
  match info.expectedSha1Hash with
  | some expected => sha1 content == expected
  | none => true

/-- `downloaded_files.insert(info)` in the loop, which goes on to the next entry. -/
def accept (s : St) (i : Nat) (info : GalleryFile) : St :=
  { s with downloaded := insert info s.downloaded, pc := .next (i + 1) }

/-- A task before its first call of `download`. -/
def freshTask (info : GalleryFile) : Task where
  info := info
  attempt := 0
  pc := .creating
  pos := 0
  hasher := []

/-- A task whose attempt has failed tries again, up to three times. -/
def failAttempt (s : St) (i : Nat) (t : Task) : St :=
  if t.attempt + 1 < 3 then s.setTask i (some { t with attempt := t.attempt + 1, pc := .creating })
  else s.setTask i none

/-- What the file at a path holds after a write at `pos`. -/
def stored (s : St) (p : Text) (pos : Nat) (bytes : Bytes) : Option Bytes :=
  (s.files p).map fun content => splice 0 content pos bytes

/-- One await of a task. -/
def taskStep (s : St) (i : Nat) (t : Task) : TaskEvent → Option St
  | .createErr => if t.pc = .creating then some (failAttempt s i t) else none
  | .created =>
      -- the file is truncated before the request is sent
      if t.pc = .creating then
        some (({ s with created := insert t.info.path s.created }.setFile t.info.path
          (some [])).setTask i (some { t with pc := .requesting, pos := 0, hasher := [] }))
      else none
  | .requestErr => if t.pc = .requesting then some (failAttempt s i t) else none
  | .requestOk =>
      if t.pc = .requesting then some (s.setTask i (some { t with pc := .streaming })) else none
  | .chunk bytes =>
      if t.pc = .streaming then
        some ((s.setFile t.info.path (stored s t.info.path t.pos bytes)).setTask i
          (some { t with pos := t.pos + bytes.length, hasher := t.hasher ++ bytes }))
      else none
  | .writeErr bytes n =>
      if t.pc = .streaming then
        some (failAttempt (s.setFile t.info.path (stored s t.info.path t.pos (bytes.take n))) i t)
      else none
  | .streamErr => if t.pc = .streaming then some (failAttempt s i t) else none
  | .streamEnd =>
      -- the hash of the stream decides, not the length
      if t.pc = .streaming then
        if hashOk sha1 t.info t.hasher = true then
          some ({ s with returnedOk := insert t.info s.returnedOk }.setTask i
            (some { t with pc := .succeeded }))
        else some (failAttempt s i t)
      else none
  | .record =>
      if t.pc = .succeeded then
        some ({ s with downloaded := insert t.info s.downloaded }.setTask i none)
      else none

/-- The number of running tasks. -/
def running (s : St) : Nat := (List.range gallery.length).countP fun i => (s.task i).isSome

/-- One step of the system. -/
def step (s : St) : Act → Option St
  | .begin =>
      match s.pc with
      | .next i =>
          match gallery[i]? with
          | some info =>
              some (s.setPc (if info ∈ s.downloaded then .next (i + 1) else .examining i info))
          | none => some (s.setPc .draining)
      | _ => none
  | .stop =>
      -- `break 'task` when the client is shutting down
      match s.pc with
      | .next i => if i < gallery.length then some (s.setPc .stopped) else none
      | _ => none
  | .exam opened =>
      match s.pc with
      | .examining i info =>
          match s.files info.path with
          | none => some (s.setPc (.fetching i info))
          | some _ =>
              -- a missing hash counts as a match
              if info.expectedSha1Hash = none then some (accept s i info)
              else some (s.setPc (if opened then .hashing i info [] 0 else .fetching i info))
      | _ => none
  | .read n =>
      match s.pc with
      | .hashing i info hasher off =>
          let data := (((s.files info.path).getD []).drop off).take n
          if n = 0 then none
          else if data = [] then
            some (if hashOk sha1 info hasher = true then accept s i info
              else s.setPc (.fetching i info))
          else some (s.setPc (.hashing i info (hasher ++ data) (off + data.length)))
      | _ => none
  | .url ok =>
      match s.pc with
      | .fetching i info => some (s.setPc (if ok then .acquiring i info else .next (i + 1)))
      | _ => none
  | .spawn =>
      match s.pc with
      | .acquiring i info =>
          if running gallery s < 4 then
            some ((s.setTask i (some (freshTask info))).setPc (.next (i + 1)))
          else none
      | _ => none
  | .drain =>
      -- the pass is over when every permit is back; only the number of files is compared
      if s.pc = .draining ∧ running gallery s = 0 then
        some (if s.downloaded.card = filecount then s.setPc .finished
          else if s.pass + 1 < 10 then { s with pass := s.pass + 1, pc := .next 0 }
          else s.setPc .failed)
      else none
  | .task i e =>
      match s.task i with
      | some t => taskStep sha1 s i t e
      | none => none

/-- The start of the run, with what is on disk. -/
def start (disk : Text → Option Bytes) : St where
  pass := 0
  pc := .next 0
  files := disk
  task _ := none
  downloaded := ∅
  returnedOk := ∅
  created := ∅

def machine (disk : Text → Option Bytes) : Machine St Act where
  init s := s = start disk
  step := step sha1 gallery filecount

end

/-! ## The invariant -/

/-- The tasks of a pass are those of the entries below the cursor; there are none
left when the run has ended. -/
def Pc.cursor (n : Nat) : Pc → Nat
  | .next i | .examining i _ | .hashing i _ _ _ | .fetching i _ | .acquiring i _ => i
  | .draining | .stopped => n
  | .finished | .failed => 0

/-- The entry the loop is at. -/
def Pc.entry : Pc → Option (Nat × GalleryFile)
  | .examining i info | .hashing i info _ _ | .fetching i info | .acquiring i info =>
      some (i, info)
  | _ => none

/-- A task works on an entry that is not downloaded; past `File::create` its file
holds what it has hashed. -/
structure TaskOk (sha1 : Bytes → Digest) (s : St) (t : Task) : Prop where
  pending : t.info ∉ s.downloaded
  touched : t.pc ≠ .creating → t.info.path ∈ s.created
  content : t.pc ≠ .creating → s.files t.info.path = some t.hasher ∧ t.pos = t.hasher.length
  succeeded : t.pc = .succeeded → t.info ∈ s.returnedOk ∧ hashOk sha1 t.info t.hasher = true

/-- `info` is rightly in `downloaded_files`. -/
def Accepted (sha1 : Bytes → Digest) (disk : Text → Option Bytes) (s : St)
    (info : GalleryFile) : Prop :=
  (info ∈ s.returnedOk ∨ disk info.path ≠ none) ∧
  ∃ content, s.files info.path = some content ∧ hashOk sha1 info content = true

structure Inv (sha1 : Bytes → Digest) (gallery : List GalleryFile) (filecount : Nat)
    (disk : Text → Option Bytes) (s : St) : Prop where
  listed : ∀ info ∈ s.downloaded, info ∈ gallery
  untouched : ∀ p, p ∉ s.created → s.files p = disk p
  tasks : ∀ j t, s.task j = some t →
    gallery[j]? = some t.info ∧ j < s.pc.cursor gallery.length ∧ TaskOk sha1 s t
  entry : ∀ i info, s.pc.entry = some (i, info) → gallery[i]? = some info ∧ info ∉ s.downloaded
  hashing : ∀ i info hasher off, s.pc = .hashing i info hasher off →
    ∃ content, s.files info.path = some content ∧ hasher = content.take off ∧
      (disk info.path ≠ none ∨ hashOk sha1 info content = false)
  accepted : ∀ info ∈ s.downloaded, Accepted sha1 disk s info
  finished : s.pc = .finished → s.downloaded.card = filecount

/-- `check_hash` would take what a failed download of this run has left at the path. -/
def TakesLeftover (sha1 : Bytes → Digest) (s : St) (info : GalleryFile) : Prop :=
  info.path ∈ s.created ∧ (s.files info.path).any (hashOk sha1 info) = true

instance (sha1 : Bytes → Digest) (s : St) (info : GalleryFile) :
    Decidable (TakesLeftover sha1 s info) := inferInstanceAs (Decidable (_ ∧ _))

/-- A step at which no leftover is taken for a download. -/
def Clean (sha1 : Bytes → Digest) (s : St) : Act → Prop
  | .exam _ => ∀ info ∈ s.pc.entry.map Prod.snd, ¬ TakesLeftover sha1 s info
  | _ => True

section

variable {sha1 : Bytes → Digest} {gallery : List GalleryFile} {filecount : Nat}
  {disk : Text → Option Bytes} {s : St}

/-! ### Distinct paths -/

theorem path_ne_of_index {i j : Nat} {a b : GalleryFile}
    (hpaths : (gallery.map GalleryFile.path).Nodup) (ha : gallery[i]? = some a)
    (hb : gallery[j]? = some b) (hij : i ≠ j) : a.path ≠ b.path := by
  intro hab
  have hi : (gallery.map GalleryFile.path)[i]? = some a.path := by simp [ha]
  have hj : (gallery.map GalleryFile.path)[j]? = some b.path := by simp [hb]
  have hlt : i < (gallery.map GalleryFile.path).length := by
    rw [List.length_map]
    exact (List.getElem?_eq_some_iff.mp ha).1
  exact hij ((List.getElem?_inj hlt hpaths).mp (by rw [hi, hj, hab]))

theorem path_ne_of_mem {j : Nat} {a b : GalleryFile}
    (hpaths : (gallery.map GalleryFile.path).Nodup) (ha : a ∈ gallery)
    (hb : gallery[j]? = some b) (hab : a ≠ b) : a.path ≠ b.path := by
  rcases List.mem_iff_getElem?.mp ha with ⟨i, hi⟩
  refine path_ne_of_index hpaths hi hb ?_
  rintro rfl
  rw [hi] at hb
  exact hab (Option.some.inj hb)

/-! ### Steps of the loop -/

theorem init_inv : Inv sha1 gallery filecount disk (start disk) := by
  constructor <;> simp [start, Pc.entry]

/-- The loop moves on without touching anything. -/
theorem inv_setPc {pc : Pc} (hi : Inv sha1 gallery filecount disk s)
    (hcursor : ∀ j, s.task j ≠ none → j < pc.cursor gallery.length)
    (hentry : ∀ i info, pc.entry = some (i, info) →
      gallery[i]? = some info ∧ info ∉ s.downloaded)
    (hhash : ∀ i info hasher off, pc = .hashing i info hasher off →
      ∃ content, s.files info.path = some content ∧ hasher = content.take off ∧
        (disk info.path ≠ none ∨ hashOk sha1 info content = false))
    (hfin : pc = .finished → s.downloaded.card = filecount) :
    Inv sha1 gallery filecount disk (s.setPc pc) where
  listed := hi.listed
  untouched := hi.untouched
  tasks j t ht := by
    rcases hi.tasks j t ht with ⟨hj, -, hok⟩
    exact ⟨hj, hcursor j (by simp [show s.task j = some t from ht]), hok.pending, hok.touched,
      hok.content, hok.succeeded⟩
  entry := hentry
  hashing := hhash
  accepted := hi.accepted
  finished := hfin

/-- The loop puts the entry it is at into `downloaded_files`. -/
theorem inv_accept {i : Nat} {info : GalleryFile}
    (hpaths : (gallery.map GalleryFile.path).Nodup) (hi : Inv sha1 gallery filecount disk s)
    (hpc : s.pc.entry = some (i, info)) (hcursor : s.pc.cursor gallery.length = i)
    (hacc : Accepted sha1 disk s info) :
    Inv sha1 gallery filecount disk (accept s i info) := by
  rcases hi.entry i info hpc with ⟨hinfo, hnew⟩
  refine ⟨?_, hi.untouched, ?_, by simp [accept, Pc.entry], by simp [accept], ?_, by simp [accept]⟩
  · intro a ha
    rcases Finset.mem_insert.mp ha with rfl | ha
    · exact List.mem_of_getElem? hinfo
    · exact hi.listed a ha
  · intro j t ht
    rcases hi.tasks j t ht with ⟨hj, hlt, hok⟩
    rw [hcursor] at hlt
    refine ⟨hj, Nat.lt_succ_of_lt hlt, ?_, hok.touched, hok.content, hok.succeeded⟩
    -- the task works on an earlier entry
    have hne := path_ne_of_index hpaths hj hinfo (Nat.ne_of_lt hlt)
    intro hmem
    rcases Finset.mem_insert.mp hmem with heq | hmem
    · exact hne (congrArg GalleryFile.path heq)
    · exact hok.pending hmem
  · intro a ha
    rcases Finset.mem_insert.mp ha with rfl | ha
    · exact hacc
    · exact hi.accepted a ha

/-! ### Steps of a task -/

/-- What a step of task `j` may do: change its own path, and its own slot to a task
on the same entry. -/
structure TaskMove (sha1 : Bytes → Digest) (s s' : St) (j : Nat) (t : Task) : Prop where
  pc : s'.pc = s.pc
  downloaded : s'.downloaded = s.downloaded
  returnedOk : s.returnedOk ⊆ s'.returnedOk
  created : s.created ⊆ s'.created
  files : ∀ p, p ≠ t.info.path → s'.files p = s.files p
  own : t.info.path ∉ s'.created → s'.files t.info.path = s.files t.info.path
  others : ∀ k, k ≠ j → s'.task k = s.task k
  slot : ∀ t', s'.task j = some t' → t'.info = t.info ∧
    (t'.pc ≠ .creating → t.info.path ∈ s'.created ∧
      s'.files t.info.path = some t'.hasher ∧ t'.pos = t'.hasher.length) ∧
    (t'.pc = .succeeded → t.info ∈ s'.returnedOk ∧ hashOk sha1 t.info t'.hasher = true)

/-- The entries of the loop, of other tasks and of `downloaded_files` have paths of
their own, so a step of one task keeps what holds of them. -/
theorem inv_taskMove {s' : St} {j : Nat} {t : Task}
    (hpaths : (gallery.map GalleryFile.path).Nodup) (hi : Inv sha1 gallery filecount disk s)
    (ht : s.task j = some t) (hm : TaskMove sha1 s s' j t) :
    Inv sha1 gallery filecount disk s' := by
  rcases hi.tasks j t ht with ⟨hj, hlt, hok⟩
  refine ⟨?_, ?_, ?_, ?_, ?_, ?_, ?_⟩
  · rw [hm.downloaded]
    exact hi.listed
  · intro p hp
    have hp0 : p ∉ s.created := fun h => hp (hm.created h)
    by_cases hown : p = t.info.path
    · subst hown
      rw [hm.own hp, hi.untouched _ hp0]
    · rw [hm.files p hown, hi.untouched p hp0]
  · intro k t' ht'
    rw [hm.pc]
    by_cases hk : k = j
    · subst hk
      rcases hm.slot t' ht' with ⟨hinfo, hcontent, hsucc⟩
      rw [hinfo]
      refine ⟨hj, hlt, ?_, ?_, ?_, ?_⟩
      · rw [hinfo, hm.downloaded]
        exact hok.pending
      · intro hpc
        rw [hinfo]
        exact (hcontent hpc).1
      · intro hpc
        rw [hinfo]
        exact (hcontent hpc).2
      · intro hpc
        rw [hinfo]
        exact hsucc hpc
    · rw [hm.others k hk] at ht'
      rcases hi.tasks k t' ht' with ⟨hk', hlt', hok'⟩
      have hne := path_ne_of_index hpaths hk' hj hk
      refine ⟨hk', hlt', hm.downloaded ▸ hok'.pending, ?_, ?_, ?_⟩
      · intro hpc
        exact hm.created (hok'.touched hpc)
      · intro hpc
        rw [hm.files _ hne]
        exact hok'.content hpc
      · intro hpc
        exact (hok'.succeeded hpc).imp (fun h => hm.returnedOk h) id
  · rw [hm.pc, hm.downloaded]
    exact hi.entry
  · intro i info hasher off hpc
    rw [hm.pc] at hpc
    have hentry := (hi.entry i info (by simp [hpc, Pc.entry])).1
    have hij : i ≠ j := by
      rw [hpc, Pc.cursor] at hlt
      omega
    rw [hm.files _ (path_ne_of_index hpaths hentry hj hij)]
    exact hi.hashing i info hasher off hpc
  · intro info hinfo
    rw [hm.downloaded] at hinfo
    rcases hi.accepted info hinfo with ⟨hwhy, content, hcontent, hhash⟩
    have hne : info ≠ t.info := by
      rintro rfl
      exact hok.pending hinfo
    refine ⟨hwhy.imp (fun h => hm.returnedOk h) id, content, ?_, hhash⟩
    rw [hm.files _ (path_ne_of_mem hpaths (hi.listed info hinfo) hj hne)]
    exact hcontent
  · rw [hm.pc, hm.downloaded]
    exact hi.finished

/-- A failed attempt keeps the file as it is, or as the failed write left it. -/
theorem taskMove_failAttempt {s₁ : St} {j : Nat} {t : Task} (hpc : s₁.pc = s.pc)
    (hdown : s₁.downloaded = s.downloaded) (hret : s₁.returnedOk = s.returnedOk)
    (hcre : s₁.created = s.created) (htask : s₁.task = s.task)
    (hfiles : ∀ p, p ≠ t.info.path → s₁.files p = s.files p)
    (hown : t.info.path ∉ s.created → s₁.files t.info.path = s.files t.info.path) :
    TaskMove sha1 s (failAttempt s₁ j t) j t := by
  unfold failAttempt
  split
  · refine ⟨hpc, hdown, hret ▸ le_refl _, hcre ▸ le_refl _, hfiles, ?_, ?_, ?_⟩
    · intro h
      exact hown (hcre ▸ h)
    · intro k hk
      simp [hk, htask]
    · intro t' ht'
      obtain rfl : _ = t' := by simpa using ht'
      simp
  · refine ⟨hpc, hdown, hret ▸ le_refl _, hcre ▸ le_refl _, hfiles, ?_, ?_, by simp⟩
    · intro h
      exact hown (hcre ▸ h)
    · intro k hk
      simp [hk, htask]

/-- A task records its success. -/
theorem inv_record {j : Nat} {t : Task} (hpaths : (gallery.map GalleryFile.path).Nodup)
    (hi : Inv sha1 gallery filecount disk s) (ht : s.task j = some t) (hpc : t.pc = .succeeded) :
    Inv sha1 gallery filecount disk
      ({ s with downloaded := insert t.info s.downloaded }.setTask j none) := by
  rcases hi.tasks j t ht with ⟨hj, hlt, hok⟩
  rcases hok.succeeded hpc with ⟨hreturned, hhash⟩
  have hcontent := (hok.content (by simp [hpc])).1
  refine ⟨?_, hi.untouched, ?_, ?_, hi.hashing, ?_, ?_⟩
  · intro a ha
    rcases Finset.mem_insert.mp ha with rfl | ha
    · exact List.mem_of_getElem? hj
    · exact hi.listed a ha
  · intro k t' ht'
    have hk : k ≠ j := by
      rintro rfl
      simp at ht'
    rcases hi.tasks k t' (by simpa [hk] using ht') with ⟨hk', hlt', hok'⟩
    refine ⟨hk', hlt', ?_, hok'.touched, hok'.content, hok'.succeeded⟩
    have hne := path_ne_of_index hpaths hk' hj hk
    intro hmem
    rcases Finset.mem_insert.mp hmem with heq | hmem
    · exact hne (congrArg GalleryFile.path heq)
    · exact hok'.pending hmem
  · intro i info hentry
    rcases hi.entry i info hentry with ⟨hinfo, hnew⟩
    refine ⟨hinfo, ?_⟩
    intro hmem
    rcases Finset.mem_insert.mp hmem with rfl | hmem
    · -- the loop is past the entry of the task
      have hij : i = j := by
        by_contra hij
        exact path_ne_of_index hpaths hinfo hj hij rfl
      have hcursor : s.pc.cursor gallery.length = i := by
        generalize s.pc = pc at hentry
        cases pc <;> simp_all [Pc.entry, Pc.cursor]
      omega
    · exact hnew hmem
  · intro a ha
    rcases Finset.mem_insert.mp ha with rfl | ha
    · exact ⟨.inl hreturned, t.hasher, hcontent, hhash⟩
    · exact hi.accepted a ha
  · intro hfin
    rw [show s.pc = .finished from hfin] at hlt
    cases hlt

theorem inv_taskStep {s' : St} {j : Nat} {t : Task} {e : TaskEvent}
    (hpaths : (gallery.map GalleryFile.path).Nodup) (hi : Inv sha1 gallery filecount disk s)
    (ht : s.task j = some t) (hs : taskStep sha1 s j t e = some s') :
    Inv sha1 gallery filecount disk s' := by
  rcases hi.tasks j t ht with ⟨-, -, hok⟩
  cases e with
  | createErr | requestErr | streamErr =>
      simp only [taskStep, Option.ite_none_right_eq_some, Option.some.injEq] at hs
      rcases hs with ⟨-, rfl⟩
      exact inv_taskMove hpaths hi ht
        (taskMove_failAttempt rfl rfl rfl rfl rfl (fun _ _ => rfl) fun _ => rfl)
  | created =>
      simp only [taskStep, Option.ite_none_right_eq_some, Option.some.injEq] at hs
      rcases hs with ⟨-, rfl⟩
      refine inv_taskMove hpaths hi ht ⟨rfl, rfl, le_refl _, ?_, ?_, ?_, ?_, ?_⟩
      · exact Finset.subset_insert _ _
      · intro p hp
        simp [hp]
      · intro hp
        simp at hp
      · intro k hk
        simp [hk]
      · intro t' ht'
        obtain rfl : _ = t' := by simpa using ht'
        simp
  | requestOk =>
      simp only [taskStep, Option.ite_none_right_eq_some, Option.some.injEq] at hs
      rcases hs with ⟨hpc, rfl⟩
      refine inv_taskMove hpaths hi ht ⟨rfl, rfl, le_refl _, le_refl _, fun _ _ => rfl,
        fun _ => rfl, ?_, ?_⟩
      · intro k hk
        simp [hk]
      · intro t' ht'
        obtain rfl : _ = t' := by simpa using ht'
        have hne : t.pc ≠ .creating := by simp [hpc]
        exact ⟨rfl, fun _ => ⟨hok.touched hne, hok.content hne⟩, by simp⟩
  | chunk bytes =>
      simp only [taskStep, Option.ite_none_right_eq_some, Option.some.injEq] at hs
      rcases hs with ⟨hpc, rfl⟩
      have hne : t.pc ≠ .creating := by simp [hpc]
      rcases hok.content hne with ⟨hcontent, hpos⟩
      have hstored : stored s t.info.path t.pos bytes = some (t.hasher ++ bytes) := by
        simp [stored, hcontent, hpos]
      refine inv_taskMove hpaths hi ht ⟨rfl, rfl, le_refl _, le_refl _, ?_, ?_, ?_, ?_⟩
      · intro p hp
        simp [hp]
      · intro hp
        exact absurd (hok.touched hne) hp
      · intro k hk
        simp [hk]
      · intro t' ht'
        obtain rfl : _ = t' := by simpa using ht'
        refine ⟨rfl, fun _ => ⟨hok.touched hne, ?_, ?_⟩, by simp [hpc]⟩
        · simp [hstored]
        · simp [hpos]
  | writeErr bytes n =>
      simp only [taskStep, Option.ite_none_right_eq_some, Option.some.injEq] at hs
      rcases hs with ⟨hpc, rfl⟩
      refine inv_taskMove hpaths hi ht (taskMove_failAttempt rfl rfl rfl rfl rfl ?_ ?_)
      · intro p hp
        simp [hp]
      · intro hp
        exact absurd (hok.touched (by simp [hpc])) hp
  | streamEnd =>
      simp only [taskStep, Option.ite_none_right_eq_some] at hs
      rcases hs with ⟨hpc, hs⟩
      split at hs
      · rename_i hhash
        obtain rfl := Option.some.inj hs
        refine inv_taskMove hpaths hi ht ⟨rfl, rfl, Finset.subset_insert _ _, le_refl _,
          fun _ _ => rfl, fun _ => rfl, ?_, ?_⟩
        · intro k hk
          simp [hk]
        · intro t' ht'
          obtain rfl : _ = t' := by simpa using ht'
          have hne : t.pc ≠ .creating := by simp [hpc]
          exact ⟨rfl, fun _ => ⟨hok.touched hne, hok.content hne⟩,
            fun _ => ⟨Finset.mem_insert_self _ _, hhash⟩⟩
      · obtain rfl := Option.some.inj hs
        exact inv_taskMove hpaths hi ht
          (taskMove_failAttempt rfl rfl rfl rfl rfl (fun _ _ => rfl) fun _ => rfl)
  | record =>
      simp only [taskStep, Option.ite_none_right_eq_some, Option.some.injEq] at hs
      rcases hs with ⟨hpc, rfl⟩
      exact inv_record hpaths hi ht hpc

/-! ### The whole run -/

/-- The loop goes from an entry to a place of the same or a later entry. -/
theorem cursor_lt (hi : Inv sha1 gallery filecount disk s) {i j : Nat}
    (hcursor : s.pc.cursor gallery.length ≤ i) (hj : s.task j ≠ none) : j < i := by
  rcases Option.ne_none_iff_exists'.mp hj with ⟨t, ht⟩
  exact (hi.tasks j t ht).2.1.trans_le hcursor

/-- The loop moves on within its entry. -/
theorem inv_stay {pc : Pc} (hi : Inv sha1 gallery filecount disk s)
    (hentry : pc.entry = s.pc.entry) (hcursor : pc.cursor gallery.length = s.pc.cursor gallery.length)
    (hhash : ∀ i info hasher off, pc = .hashing i info hasher off →
      ∃ content, s.files info.path = some content ∧ hasher = content.take off ∧
        (disk info.path ≠ none ∨ hashOk sha1 info content = false))
    (hfin : pc ≠ .finished) : Inv sha1 gallery filecount disk (s.setPc pc) :=
  inv_setPc hi (fun _ hj => hcursor ▸ cursor_lt hi (le_refl _) hj) (hentry ▸ hi.entry) hhash
    fun h => absurd h hfin

theorem no_task_of_running (hi : Inv sha1 gallery filecount disk s) (h : running gallery s = 0)
    (j : Nat) : s.task j = none := by
  by_contra hne
  rcases Option.ne_none_iff_exists'.mp hne with ⟨t, ht⟩
  have hj : j < gallery.length := (List.getElem?_eq_some_iff.mp (hi.tasks j t ht).1).1
  have hnone := List.countP_eq_zero.mp h j (List.mem_range.mpr hj)
  simp [ht] at hnone

theorem exam_inv {s' : St} {opened : Bool} (hpaths : (gallery.map GalleryFile.path).Nodup)
    (hi : Inv sha1 gallery filecount disk s) (hok : Clean sha1 s (.exam opened))
    (hs : step sha1 gallery filecount s (.exam opened) = some s') :
    Inv sha1 gallery filecount disk s' := by
  simp only [step] at hs
  split at hs
  · rename_i i info hpc
    have hcursor : s.pc.cursor gallery.length = i := by simp [hpc, Pc.cursor]
    have hclean : ¬ TakesLeftover sha1 s info := hok info (by simp [hpc, Pc.entry])
    -- what is on disk and not a leftover was there before the run
    have hbefore : ∀ content, s.files info.path = some content →
        hashOk sha1 info content = true → disk info.path ≠ none := by
      intro content hfile hhash
      have hnew : info.path ∉ s.created := fun h => hclean ⟨h, by simp [hfile, hhash]⟩
      rw [← hi.untouched _ hnew, hfile]
      simp
    split at hs
    · obtain rfl := Option.some.inj hs
      exact inv_stay hi (by simp [hpc, Pc.entry]) (by simp [hpc, Pc.cursor]) (by simp) (by simp)
    · rename_i content hfile
      split at hs
      · rename_i hunknown
        obtain rfl := Option.some.inj hs
        have hhash : hashOk sha1 info content = true := by simp [hashOk, hunknown]
        exact inv_accept hpaths hi (by simp [hpc, Pc.entry]) hcursor
          ⟨.inr (hbefore content hfile hhash), content, hfile, hhash⟩
      · obtain rfl := Option.some.inj hs
        cases opened with
        | false =>
            exact inv_stay hi (by simp [hpc, Pc.entry]) (by simp [hpc, Pc.cursor]) (by simp)
              (by simp)
        | true =>
            refine inv_stay hi (by simp [hpc, Pc.entry]) (by simp [hpc, Pc.cursor]) ?_ (by simp)
            intro k a hasher off ha
            obtain ⟨rfl, rfl, rfl, rfl⟩ : i = k ∧ info = a ∧ [] = hasher ∧ 0 = off := by
              simpa using ha
            refine ⟨content, hfile, by simp, ?_⟩
            by_cases hhash : hashOk sha1 info content = true
            · exact .inl (hbefore content hfile hhash)
            · exact .inr (by simpa using hhash)
  · cases hs

theorem read_inv {s' : St} {n : Nat} (hpaths : (gallery.map GalleryFile.path).Nodup)
    (hi : Inv sha1 gallery filecount disk s)
    (hs : step sha1 gallery filecount s (.read n) = some s') :
    Inv sha1 gallery filecount disk s' := by
  simp only [step] at hs
  split at hs
  · rename_i i info hasher off hpc
    have hcursor : s.pc.cursor gallery.length = i := by simp [hpc, Pc.cursor]
    rcases hi.hashing i info hasher off hpc with ⟨content, hfile, hhasher, hwhy⟩
    rw [hfile, Option.getD_some] at hs
    split at hs
    · cases hs
    rename_i hn
    split at hs
    · -- end of file: everything has been hashed
      rename_i hend
      obtain rfl := Option.some.inj hs
      have hall : hasher = content := by
        rw [hhasher, List.take_eq_self_iff]
        have hlen : ((content.drop off).take n).length = 0 := by rw [hend]; rfl
        rw [List.length_take, List.length_drop] at hlen
        omega
      split
      · rename_i hhash
        rw [hall] at hhash
        refine inv_accept hpaths hi (by simp [hpc, Pc.entry]) hcursor
          ⟨.inr (hwhy.resolve_right (by simp [hhash])), content, hfile, hhash⟩
      · exact inv_stay hi (by simp [hpc, Pc.entry]) (by simp [hpc, Pc.cursor]) (by simp)
          (by simp)
    · obtain rfl := Option.some.inj hs
      refine inv_stay hi (by simp [hpc, Pc.entry]) (by simp [hpc, Pc.cursor]) ?_ (by simp)
      intro k a hasher' off' ha
      simp only [Pc.hashing.injEq] at ha
      rcases ha with ⟨rfl, rfl, rfl, rfl⟩
      refine ⟨content, hfile, ?_, hwhy⟩
      rw [hhasher, List.take_add, ← List.prefix_iff_eq_take.mp (List.take_prefix _ _)]
  · cases hs

/-- A pass ends: with everything downloaded, with a new pass, or for good. -/
theorem drain_inv {s' : St} (hi : Inv sha1 gallery filecount disk s)
    (hs : step sha1 gallery filecount s .drain = some s') :
    Inv sha1 gallery filecount disk s' := by
  simp only [step, Option.ite_none_right_eq_some, Option.some.injEq] at hs
  rcases hs with ⟨⟨-, hrunning⟩, rfl⟩
  have hnone : ∀ (pc : Pc) j, s.task j ≠ none → j < pc.cursor gallery.length :=
    fun _ j hj => absurd (no_task_of_running hi hrunning j) hj
  split
  · rename_i hcount
    exact inv_setPc hi (hnone _) (by simp [Pc.entry]) (by simp) fun _ => hcount
  · split
    · refine ⟨hi.listed, hi.untouched, ?_, by simp [Pc.entry], by simp, hi.accepted, by simp⟩
      intro j t ht
      have htask : s.task j = some t := ht
      simp [no_task_of_running hi hrunning j] at htask
    · exact inv_setPc hi (hnone _) (by simp [Pc.entry]) (by simp) (by simp)

theorem spawn_inv {s' : St} (hi : Inv sha1 gallery filecount disk s)
    (hs : step sha1 gallery filecount s .spawn = some s') :
    Inv sha1 gallery filecount disk s' := by
  simp only [step] at hs
  split at hs
  · rename_i i info hpc
    simp only [Option.ite_none_right_eq_some, Option.some.injEq] at hs
    rcases hs with ⟨-, rfl⟩
    rcases hi.entry i info (by simp [hpc, Pc.entry]) with ⟨hinfo, hnew⟩
    refine ⟨hi.listed, hi.untouched, ?_, by simp [Pc.entry], by simp, hi.accepted, by simp⟩
    intro j t ht
    by_cases hj : j = i
    · subst hj
      obtain rfl : freshTask info = t := by simpa using ht
      exact ⟨hinfo, Nat.lt_succ_self j, hnew, by simp [freshTask], by simp [freshTask],
        by simp [freshTask]⟩
    · have ht0 : s.task j = some t := by simpa [hj] using ht
      rcases hi.tasks j t ht0 with ⟨hj', hlt, hok⟩
      rw [hpc] at hlt
      exact ⟨hj', Nat.lt_succ_of_lt hlt, hok.pending, hok.touched, hok.content, hok.succeeded⟩
  · cases hs

theorem step_inv {s' : St} {a : Act} (hpaths : (gallery.map GalleryFile.path).Nodup)
    (hi : Inv sha1 gallery filecount disk s) (hok : Clean sha1 s a)
    (hs : step sha1 gallery filecount s a = some s') : Inv sha1 gallery filecount disk s' := by
  cases a with
  | begin =>
      simp only [step] at hs
      split at hs
      · rename_i i hpc
        have hcursor : s.pc.cursor gallery.length = i := by simp [hpc, Pc.cursor]
        split at hs
        · rename_i info hinfo
          obtain rfl := Option.some.inj hs
          split
          · exact inv_setPc hi (fun j hj => (cursor_lt hi hcursor.le hj).trans (Nat.lt_succ_self i))
              (by simp [Pc.entry]) (by simp) (by simp)
          · rename_i hnew
            refine inv_setPc hi (fun j hj => cursor_lt hi hcursor.le hj) ?_ (by simp) (by simp)
            intro k a ha
            obtain ⟨rfl, rfl⟩ : i = k ∧ info = a := by simpa [Pc.entry] using ha
            exact ⟨hinfo, hnew⟩
        · rename_i hend
          obtain rfl := Option.some.inj hs
          refine inv_setPc hi ?_ (by simp [Pc.entry]) (by simp) (by simp)
          intro j hj
          rcases Option.ne_none_iff_exists'.mp hj with ⟨t, ht⟩
          exact (List.getElem?_eq_some_iff.mp (hi.tasks j t ht).1).1
      · cases hs
  | stop =>
      simp only [step] at hs
      split at hs
      · rename_i i hpc
        simp only [Option.ite_none_right_eq_some, Option.some.injEq] at hs
        rcases hs with ⟨hlt, rfl⟩
        have hcursor : s.pc.cursor gallery.length ≤ gallery.length := by
          simpa [hpc, Pc.cursor] using hlt.le
        exact inv_setPc hi (fun j hj => cursor_lt hi hcursor hj) (by simp [Pc.entry]) (by simp)
          (by simp)
      · cases hs
  | exam opened => exact exam_inv hpaths hi hok hs
  | read n => exact read_inv hpaths hi hs
  | url ok =>
      simp only [step] at hs
      split at hs
      · rename_i i info hpc
        obtain rfl := Option.some.inj hs
        have hcursor : s.pc.cursor gallery.length = i := by simp [hpc, Pc.cursor]
        cases ok with
        | true =>
            exact inv_stay hi (by simp [hpc, Pc.entry]) (by simp [hpc, Pc.cursor]) (by simp)
              (by simp)
        | false =>
            exact inv_setPc hi (fun j hj => (cursor_lt hi hcursor.le hj).trans (Nat.lt_succ_self i))
              (by simp [Pc.entry]) (by simp) (by simp)
      · cases hs
  | spawn => exact spawn_inv hi hs
  | drain => exact drain_inv hi hs
  | task i e =>
      simp only [step] at hs
      split at hs
      · rename_i t ht
        exact inv_taskStep hpaths hi ht hs
      · cases hs

theorem inv_of_reach (hpaths : (gallery.map GalleryFile.path).Nodup)
    (h : (machine sha1 gallery filecount disk).Reach (Clean sha1) s) :
    Inv sha1 gallery filecount disk s := by
  refine Machine.Reach.invariant ?_ ?_ h
  · rintro s rfl
    exact init_inv
  · intro s a s' hi hok hs
    exact step_inv hpaths hi hok hs

/-! ## What counts as downloaded -/

/-- In every run over a gallery with distinct paths and no more files than its
FILECOUNT, in which no pass takes for a download what a failed one has left: an
entry is in `downloaded_files` only if a `download` of it returned `Ok` or its file
was there before, its file has its SHA-1 if that is known, and the gallery is
reported as finished only when every entry is in. -/
theorem downloaded_of_clean (hpaths : (gallery.map GalleryFile.path).Nodup)
    (hcount : gallery.length ≤ filecount)
    (h : (machine sha1 gallery filecount disk).Reach (Clean sha1) s) :
    (∀ info ∈ s.downloaded, (info ∈ s.returnedOk ∨ disk info.path ≠ none) ∧
      ∀ expected, info.expectedSha1Hash = some expected →
        ∃ content, s.files info.path = some content ∧ sha1 content = expected) ∧
    (s.pc = .finished → ∀ info ∈ gallery, info ∈ s.downloaded) := by
  have hi := inv_of_reach hpaths h
  constructor
  · intro info hinfo
    rcases hi.accepted info hinfo with ⟨hwhy, content, hfile, hhash⟩
    refine ⟨hwhy, ?_⟩
    intro expected hexpected
    exact ⟨content, hfile, by simpa [hashOk, hexpected] using hhash⟩
  · intro hpc info hinfo
    -- `downloaded_files` is a part of the list and as long as it
    have hsub : s.downloaded ⊆ gallery.toFinset := by
      intro a ha
      exact List.mem_toFinset.mpr (hi.listed a ha)
    have hcard : gallery.toFinset.card ≤ s.downloaded.card := by
      rw [hi.finished hpc]
      exact (List.toFinset_card_le gallery).trans hcount
    rw [Finset.eq_of_subset_of_card_le hsub hcard]
    exact List.mem_toFinset.mpr hinfo

end

instance (sha1 : Bytes → Digest) (s : St) : ∀ a, Decidable (Clean sha1 s a)
  | .exam _ => inferInstanceAs (Decidable (∀ info ∈ s.pc.entry.map Prod.snd, _))
  | .begin | .stop | .read _ | .url _ | .spawn | .drain | .task _ _ => isTrue trivial

/-- An entry of a file list; `sha1` is `none` for "unknown". -/
def listEntry (page : Nat) (name : Text) (sha1 : Option Digest) : GalleryFile where
  page := page
  fileindex := page
  xres := ['o', 'r', 'g']
  expectedSha1Hash := sha1
  filetype := ['j', 'p', 'g']
  filename := name

/-- One attempt that breaks off before the body. -/
def refusedAttempt (i : Nat) : List Act := [.task i .created, .task i .requestErr]

/-- One attempt that downloads `abc` in two chunks. -/
def abcAttempt (i : Nat) : List Act :=
  [.task i .created, .task i .requestOk, .task i (.chunk [97]), .task i (.chunk [98, 99]),
    .task i .streamEnd, .task i .record]

/-- Both halves fail without the conditions. Of the single entry without a SHA-1 no
download ever returns `Ok`, but the second pass finds the empty file of the first.
With a FILECOUNT of one, a gallery of two is finished with its first file. -/
theorem leftover_counts_as_downloaded :
    (∃ s, (machine abcSha1 [listEntry 1 ['1'] none] 1 fun _ => none).Reachable s ∧
      listEntry 1 ['1'] none ∈ s.downloaded ∧ s.returnedOk = ∅ ∧ s.pc = .finished) ∧
    ∃ s, (machine abcSha1 [listEntry 1 ['1'] (some abcDigest), listEntry 2 ['2'] (some abcDigest)]
        1 fun _ => none).Reachable s ∧
      s.pc = .finished ∧ listEntry 2 ['2'] (some abcDigest) ∉ s.downloaded := by
  constructor
  · exact Machine.reachable_of_run rfl
      (List.flatten [[.begin, .exam true, .url true, .spawn], refusedAttempt 0, refusedAttempt 0,
        refusedAttempt 0, [.begin, .drain, .begin, .exam true, .begin, .drain]]) _
      (by decide +kernel)
  · exact Machine.reachable_of_run rfl
      (List.flatten [[.begin, .exam true, .url true, .spawn], [.begin, .exam true, .url false],
        [.begin], abcAttempt 0, [.drain]]) _ (by decide +kernel)

/-- A gallery of one file, downloaded in the second attempt. -/
theorem downloaded_of_clean_abc :
    ∃ s, (machine abcSha1 [listEntry 1 ['1'] (some abcDigest)] 1 fun _ => none).Reach
        (Clean abcSha1) s ∧
      s.pc = .finished ∧ listEntry 1 ['1'] (some abcDigest) ∈ s.downloaded ∧
      ∃ content, s.files ['1', '.', 'j', 'p', 'g'] = some content ∧
        abcSha1 content = abcDigest := by
  obtain ⟨s, hs, hpc⟩ := Machine.reach_of_runIf
    (M := machine abcSha1 [listEntry 1 ['1'] (some abcDigest)] 1 fun _ => none)
    (Clean abcSha1) rfl
    (List.flatten [[.begin, .exam true, .url true, .spawn], refusedAttempt 0, abcAttempt 0,
      [.begin, .drain]]) (fun s => s.pc = .finished) (by decide +kernel)
  rcases downloaded_of_clean (by decide) (by decide) hs with ⟨hin, hfin⟩
  have hmem := hfin hpc (listEntry 1 ['1'] (some abcDigest)) (by decide)
  exact ⟨s, hs, hpc, hmem, (hin _ hmem).2 abcDigest rfl⟩

end Hath.Gallery
