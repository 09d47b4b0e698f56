import Hath.CacheManager.CleanerOrder
import Hath.CacheManager.FileId

/-!
# Hath.CacheManager.Recency — the cleaner and the last accesses

The only trace of an access is the modification time of the file, and `get_file` moves it
only where it is more than a week old. The cleaner sorts a directory by these times, which
it reads one after another while requests are answered and files come and go. Each step
below is one file-system call or one reading of the clock, with three exceptions that are
one step each: the listing of a directory, a `remove_cache`, and a turn of the deletion
loop, which is `Cleaner.visit`.

`accessed` is the time of the last access to a path, by a request or by an import. It is
read by no step, no more than what is kept of it in `Seen` and `Eviction`.

* `Near` — times and accesses are at most a week apart;
* `evicts_lru` — so in each directory the cleaner deletes the least recently used, up to a
  week.
-/

namespace Hath.Recency

open Lib
open Cleaner (Disk Meta Node Placed unixSeconds fromUnixTime)

/-! ## State -/

/-- `Duration::from_secs(60 * 60 * 24 * 7)`. -/
def week : Int := fromUnixTime (60 * 60 * 24 * 7)

/-- Where a `get_file` stands. `looked` is when it has read the metadata. -/
inductive ReadPc where
  /-- `metadata` comes next. -/
  | looking
  | opening (looked mtime : Int)
  /-- `SystemTime::now` comes next. -/
  | dating (looked mtime : Int)
  /-- `mark_recently_accessed` comes next. -/
  | marking
  | answered
  /-- `NotFound`. -/
  | failed
deriving DecidableEq, Repr

/-- A listed file with its metadata. -/
structure Seen where
  name : Text
  info : Meta
  accessed : Int
deriving DecidableEq

/-- Where `check_cache_usage` stands. -/
inductive CleanPc where
  | resting
  /-- At the head of the loop. -/
  | choosing
  /-- The metadata of the files is read. -/
  | listing (sr : Text) (cutOff : Int) (names : List Text) (files : List Seen)
  | deleting (sr : Text) (cutOff newOldest : Int) (files : List Seen)
deriving DecidableEq

/-- A file the cleaner has deleted, and the last accesses to it and to the files behind it,
as they were when the times were read. -/
structure Eviction where
  range : Text
  name : Text
  accessed : Int
  behind : List Int
deriving DecidableEq

/-- The log of `cleaner` is what the cleaner has unlinked. -/
structure State (Rd : Type) where
  cleaner : Cleaner.State
  pc : CleanPc
  readers : Rd → ReadPc
  accessed : Text → Text → Int
  evicted : List Eviction

inductive Action (Rd : Type) where
  | tick (n : Nat)
  /-- `remove_cache` of an import, a purge or a hash task. -/
  | remove (info : CacheFileInfo) (works : Bool)
  /-- An import of an id puts its file in place. -/
  | move (id : Text) (m : Meta)
  /-- An import counts its file. -/
  | count (sr : Text) (size : U64)
  | look (r : Rd) (fits : Bool)
  | openFile (r : Rd) (works : Bool)
  | date (r : Rd)
  | mark (r : Rd) (works : Bool)
  | check (sizeLimit : U64) (diskFree : Option U64)
  | choose (sr : Text) (names : Option (List Text))
  /-- The loop ends. -/
  | leave
  | metadata (works : Bool)
  | sort (files : List Seen)
  | visit (measured removed : Bool)
deriving DecidableEq

/-! ## Steps -/

/-- A file with the given metadata takes the place of whatever has its name. -/
def put (disk : Disk) (r name : Text) (m : Meta) : Disk where
  dir := Function.update disk.dir r
    (some ((name, .file m) :: ((disk.dir r).getD []).filter fun e => e.1 ≠ name))
  nodup := by
    intro k d hd
    by_cases hk : k = r
    · subst hk
      rw [Function.update_self] at hd
      obtain rfl := Option.some.inj hd
      rw [List.map_cons, List.nodup_cons]
      constructor
      · intro h
        rcases List.mem_map.mp h with ⟨e, he, hname⟩
        simpa [hname] using (List.mem_filter.mp he).2
      · cases hold : disk.dir k with
        | none => exact List.nodup_nil
        | some d => exact Assoc.nodup_filter (disk.nodup k d hold) _
    · rw [Function.update_of_ne hk] at hd
      exact disk.nodup k d hd

/-- `set_file_mtime`; there is an error if the file is gone. -/
def touch (disk : Disk) (r name : Text) (time : Int) : Disk :=
  match disk.file? r name with
  | some m => put disk r name { m with mtime := time }
  | none => disk

section

variable {Rd : Type} [DecidableEq Rd] (info : Rd → CacheFileInfo)

namespace State

def now (s : State Rd) : Int := s.cleaner.clock

def setReader (s : State Rd) (r : Rd) (pc : ReadPc) : State Rd :=
  { s with readers := Function.update s.readers r pc }

def setDisk (s : State Rd) (disk : Disk) : State Rd := { s with cleaner := { s.cleaner with disk } }

/-- The file of the info is accessed. -/
def access (s : State Rd) (info : CacheFileInfo) : State Rd :=
  { s with
    accessed := Function.update s.accessed info.staticRange
      (Function.update (s.accessed info.staticRange) info.fileName s.now) }

end State

/-- Steps of a `get_file`. -/
def readStep (s : State Rd) (r : Rd) : Action Rd → Option (State Rd)
  | .look _ fits =>
      if s.readers r = .looking then
        some (s.setReader r
          (match s.cleaner.disk.file? (info r).staticRange (info r).fileName with
          | some m => if fits then .opening s.now m.mtime else .failed
          | none => .failed))
      else none
  | .openFile _ works =>
      match s.readers r with
      | .opening looked mtime =>
          some (s.setReader r (if works then .dating looked mtime else .failed))
      | _ => none
  | .date _ =>
      match s.readers r with
      | .dating _ mtime =>
          some (if s.now - week ≤ mtime then (s.access (info r)).setReader r .answered
            else s.setReader r .marking)
      | _ => none
  | .mark _ works =>
      if s.readers r = .marking then
        some (((s.setDisk (if works then
            touch s.cleaner.disk (info r).staticRange (info r).fileName s.now
          else s.cleaner.disk)).access (info r)).setReader r .answered)
      else none
  | _ => none

/-- The deletion loop is left, and the stamp of the range is set. -/
def stamp (s : State Rd) (sr : Text) (newOldest : Int) : State Rd :=
  { s with
    pc := .choosing
    cleaner := { s.cleaner with
      cache := s.cleaner.cache.setOldest sr (unixSeconds newOldest) } }

/-- One turn of the deletion loop. -/
def visit (s : State Rd) (sr : Text) (cutOff newOldest : Int) (measured removed : Bool) :
    List Seen → State Rd
  | [] => stamp s sr newOldest
  | x :: files =>
      if cutOff < x.info.mtime ∨ s.cleaner.needFree = 0 then stamp s sr x.info.mtime
      else
        let cleaner := Cleaner.visit s.cleaner ⟨x.name, x.info, measured, removed⟩
        { s with
          cleaner
          pc := .deleting sr cutOff newOldest files
          evicted := if cleaner.log = s.cleaner.log then s.evicted
            else s.evicted ++ [⟨sr, x.name, x.accessed, files.map Seen.accessed⟩] }

/-- Steps of the cleaner. -/
def cleanStep (s : State Rd) : Action Rd → Option (State Rd)
  | .check sizeLimit diskFree =>
      if s.pc = .resting then
        some { s with
          pc := .choosing
          cleaner := { s.cleaner with
            needFree := (Cleaner.needFree s.cleaner.cache.totalSize sizeLimit diskFree).toNat } }
      else none
  | .choose sr names =>
      if s.pc = .choosing ∧ 0 < s.cleaner.needFree ∧ s.cleaner.cache.Oldest sr then
        let oldest := s.cleaner.cache.oldest sr
        some { s with
          pc := match names with
            | some names =>
                .listing sr (Cleaner.cutOffAt oldest s.now) names []
            | none => .resting }
      else none
  | .leave => if s.pc = .choosing then some { s with pc := .resting } else none
  | .metadata works =>
      match s.pc with
      | .listing sr cutOff (name :: names) files =>
          some { s with
            pc := .listing sr cutOff names
              (match s.cleaner.disk.file? sr name with
              | some m => if works then files ++ [⟨name, m, s.accessed sr name⟩] else files
              | none => files) }
      | _ => none
  | .sort sorted =>
      match s.pc with
      | .listing sr cutOff [] files =>
          if sorted.Perm files ∧ sorted.Pairwise fun x y => x.info.mtime ≤ y.info.mtime then
            some { s with
              pc := .deleting sr cutOff ((sorted.getLast?.map fun x => x.info.mtime).getD s.now)
                sorted }
          else none
      | _ => none
  | .visit measured removed =>
      match s.pc with
      | .deleting sr cutOff newOldest files =>
          some (visit s sr cutOff newOldest measured removed files)
      | _ => none
  | _ => none

def step (s : State Rd) (a : Action Rd) : Option (State Rd) :=
  match a with
  | .tick n => some { s with cleaner := { s.cleaner with clock := s.now + n } }
  | .remove info works =>
      -- the log is that of the cleaner
      some { s with
        cleaner := { Cleaner.removeCache s.cleaner info works with log := s.cleaner.log } }
  | .move id m =>
      match CacheFileInfo.fromFileId id with
      | some info =>
          if m.mtime ≤ s.now then
            some ((s.setDisk (put s.cleaner.disk info.staticRange info.fileName m)).access info)
          else none
      | none => none
  | .count sr size =>
      some { s with
        cleaner := { s.cleaner with
          cache := s.cleaner.cache.addFile sr size (unixSeconds s.now) } }
  | .look r _ | .openFile r _ | .date r | .mark r _ => readStep info s r a
  | .check _ _ | .choose _ _ | .leave | .metadata _ | .sort _ | .visit _ _ => cleanStep s a

/-- The time of a file and the last access to it. -/
def Near (mtime accessed : Int) : Prop := mtime ≤ accessed ∧ accessed ≤ mtime + week

/-- The files an earlier run has left, with its accesses to them. -/
def init (s : State Rd) : Prop :=
  s.pc = .resting ∧ (∀ r, s.readers r = .looking) ∧ s.cleaner.log = [] ∧ s.evicted = [] ∧
    Placed s.cleaner.disk ∧ (∀ r name, s.accessed r name ≤ s.now) ∧
    ∀ r name m, s.cleaner.disk.file? r name = some m → Near m.mtime (s.accessed r name)

def machine : Machine (State Rd) (Action Rd) where
  init := init
  step := step info

/-- A lookup and what is left of a download after its last write take less than half a week,
and the time of a file can be set. -/
def Timely (s : State Rd) : Action Rd → Prop
  | .move _ m => 2 * s.now ≤ 2 * m.mtime + week
  | .date r =>
      match s.readers r with
      | .dating looked _ => 2 * s.now ≤ 2 * looked + week
      | _ => True
  | .mark _ works => works = true
  | _ => True

instance (s : State Rd) (a : Action Rd) : Decidable (Timely s a) := by
  unfold Timely
  split
  · infer_instance
  · split <;> infer_instance
  · infer_instance
  · infer_instance

end

/-! ## Files -/

section

variable {disk : Disk} {r name : Text} {m : Meta}

theorem dir_put : (put disk r name m).dir = Function.update disk.dir r
    (some ((name, .file m) :: ((disk.dir r).getD []).filter fun e => e.1 ≠ name)) := rfl

theorem files_put (k : Text) :
    (put disk r name m).files k =
      if k = r then (name, m) :: (disk.files r).filter fun e => e.1 ≠ name else disk.files k := by
  unfold Disk.files
  rw [dir_put]
  by_cases hk : k = r
  · subst hk
    rw [Function.update_self, if_pos rfl, Option.map_some, Option.getD_some, Cleaner.regular_file,
      Cleaner.regular_filter]
    cases disk.dir k with
    | none => rfl
    | some d => rfl
  · rw [Function.update_of_ne hk, if_neg hk]

/-- What is found after a `put`. -/
theorem file?_put {k n : Text} {m' : Meta} (h : (put disk r name m).file? k n = some m') :
    (k = r ∧ n = name ∧ m' = m) ∨ (¬ (k = r ∧ n = name) ∧ disk.file? k n = some m') := by
  rw [Disk.file?_eq_some, files_put] at h
  split at h
  · rename_i hk
    rcases List.mem_cons.mp h with heq | hmem
    · rcases Prod.mk.inj heq with ⟨hn, hm⟩
      exact .inl ⟨hk, hn, hm⟩
    · rcases List.mem_filter.mp hmem with ⟨hmem, hn⟩
      right
      constructor
      · rintro ⟨-, hname⟩
        exact of_decide_eq_true hn hname
      · rw [hk]
        exact Disk.file?_eq_some.mpr hmem
  · rename_i hk
    right
    constructor
    · rintro ⟨hr, -⟩
      exact hk hr
    · exact Disk.file?_eq_some.mpr h

/-- A name that parses is that of its `to_path` location. -/
def Located (r name : Text) : Prop :=
  ∀ info, CacheFileInfo.fromFileId name = some info → info.staticRange = r ∧ info.fileName = name

theorem placed_put (h : Placed disk) (hname : Located r name) : Placed (put disk r name m) := by
  intro k e he info hinfo
  rw [files_put] at he
  split at he
  · rename_i hk
    subst hk
    rcases List.mem_cons.mp he with rfl | hmem
    · exact hname info hinfo
    · exact h k e (List.mem_filter.mp hmem).1 info hinfo
  · exact h k e he info hinfo

theorem located_of_placed (h : Placed disk) (hfile : disk.file? r name = some m) :
    Located r name := by
  intro info hinfo
  exact h r (name, m) (Disk.file?_eq_some.mp hfile) info hinfo

theorem placed_touch (h : Placed disk) (time : Int) : Placed (touch disk r name time) := by
  unfold touch
  cases hfile : disk.file? r name with
  | none => exact h
  | some m => exact placed_put h (located_of_placed h hfile)

/-- What is found after a `touch`. -/
theorem file?_touch {time : Int} {k n : Text} {m' : Meta}
    (h : (touch disk r name time).file? k n = some m') :
    (k = r ∧ n = name ∧ m'.mtime = time) ∨ (¬ (k = r ∧ n = name) ∧ disk.file? k n = some m') := by
  unfold touch at h
  cases hfile : disk.file? r name with
  | none =>
      rw [hfile] at h
      right
      refine ⟨?_, h⟩
      rintro ⟨rfl, rfl⟩
      rw [hfile] at h
      cases h
  | some m =>
      rw [hfile] at h
      rcases file?_put h with ⟨hk, hn, rfl⟩ | hother
      · exact .inl ⟨hk, hn, rfl⟩
      · exact .inr hother

theorem file?_of_unlink {k n : Text} (h : (disk.unlink r name).file? k n = some m) :
    disk.file? k n = some m :=
  Disk.file?_eq_some.mpr
    ((disk.files_unlink_subset r name k).mem (Disk.file?_eq_some.mp h))

/-- The file of an id lies where its name says. -/
theorem located_fileName {id : Text} {info : CacheFileInfo}
    (h : CacheFileInfo.fromFileId id = some info) : Located info.staticRange info.fileName := by
  intro info' hinfo
  rw [CacheFileInfo.fromFileId_fileName h] at hinfo
  obtain rfl := Option.some.inj hinfo
  by_cases hxres : 0 < info.xres.toNat
  · rw [if_pos hxres]
    exact ⟨rfl, rfl⟩
  · rw [if_neg hxres]
    constructor
    · rfl
    · unfold CacheFileInfo.fileName
      rw [if_neg hxres, if_neg hxres]

end

/-! ## The invariant -/

section

variable {Rd : Type} {s : State Rd}

/-- A time of the path read earlier is no later than that of the file there now, or the
file has come since. -/
def Reading (s : State Rd) (info : CacheFileInfo) : ReadPc → Prop
  | .opening looked mtime | .dating looked mtime =>
      looked ≤ s.now ∧ ∀ m, s.cleaner.disk.file? info.staticRange info.fileName = some m →
        mtime ≤ m.mtime ∨ 2 * looked ≤ 2 * m.mtime + week
  | _ => True

/-- The files in the hands of the cleaner are of its range, as they were found. -/
def Listed (sr : Text) (files : List Seen) : Prop :=
  ∀ x ∈ files, Located sr x.name ∧ Near x.info.mtime x.accessed

def CleanPc.Sound : CleanPc → Prop
  | .listing sr _ _ files => Listed sr files
  | .deleting sr _ _ files =>
      Listed sr files ∧ files.Pairwise fun x y => x.info.mtime ≤ y.info.mtime
  | _ => True

/-- What the cleaner has deleted, in the order of the last accesses up to a week. -/
structure Ordered (log : List Cleaner.Deletion) (evicted : List Eviction) : Prop where
  log : log.map (fun d => (d.range, d.name)) = evicted.map fun e => (e.range, e.name)
  order : ∀ e ∈ evicted, ∀ t ∈ e.behind, e.accessed ≤ t + week

structure Inv (info : Rd → CacheFileInfo) (s : State Rd) : Prop where
  placed : Placed s.cleaner.disk
  past : ∀ r name, s.accessed r name ≤ s.now
  near : ∀ r name m, s.cleaner.disk.file? r name = some m → Near m.mtime (s.accessed r name)
  readers : ∀ r, Reading s (info r) (s.readers r)
  sound : s.pc.Sound
  ordered : Ordered s.cleaner.log s.evicted

variable {info : Rd → CacheFileInfo}

theorem week_pos : 0 < week := by
  decide

/-- The order of the times is that of the accesses, up to a week. -/
theorem Near.le {mtime mtime' accessed accessed' : Int} (h : Near mtime accessed)
    (h' : Near mtime' accessed') (hle : mtime ≤ mtime') : accessed ≤ accessed' + week := by
  have hlow := h'.1
  have hhigh := h.2
  omega

/-- A reading stays true when files go. -/
theorem Reading.mono {s' : State Rd} {i : CacheFileInfo} {pc : ReadPc} (h : Reading s i pc)
    (hnow : s.now ≤ s'.now)
    (hfiles : ∀ m, s'.cleaner.disk.file? i.staticRange i.fileName = some m →
      (∃ old, s.cleaner.disk.file? i.staticRange i.fileName = some old ∧ old.mtime ≤ m.mtime) ∨
        2 * s.now ≤ 2 * m.mtime + week) : Reading s' i pc := by
  cases pc with
  | opening looked mtime | dating looked mtime =>
      rcases h with ⟨hlooked, hold⟩
      refine ⟨Int.le_trans hlooked hnow, ?_⟩
      intro m hm
      rcases hfiles m hm with ⟨old, hfile, hle⟩ | hfresh
      · rcases hold old hfile with hmtime | hnew
        · left
          omega
        · right
          omega
      · right
        omega
  | _ => trivial

/-- Files are only taken away. -/
theorem Inv.shrink {s' : State Rd} (hi : Inv info s) (hnow : s.now ≤ s'.now)
    (hplaced : Placed s'.cleaner.disk)
    (hfiles : ∀ r name m, s'.cleaner.disk.file? r name = some m →
      s.cleaner.disk.file? r name = some m)
    (haccessed : s'.accessed = s.accessed) (hreaders : s'.readers = s.readers)
    (hsound : s'.pc.Sound) (hordered : Ordered s'.cleaner.log s'.evicted) : Inv info s' where
  placed := hplaced
  past r name := by
    rw [haccessed]
    exact Int.le_trans (hi.past r name) hnow
  near r name m hm := by
    rw [haccessed]
    exact hi.near r name m (hfiles r name m hm)
  readers r := by
    rw [hreaders]
    refine (hi.readers r).mono hnow ?_
    intro m hm
    exact .inl ⟨m, hfiles _ _ m hm, Int.le_refl _⟩
  sound := hsound
  ordered := hordered

/-- A path is accessed, and the file there may change its time or be another. -/
theorem Inv.access (hi : Inv info s) {i : CacheFileInfo} {disk : Disk} (hplaced : Placed disk)
    (hat : ∀ m, disk.file? i.staticRange i.fileName = some m → Near m.mtime s.now ∧
      (s.cleaner.disk.file? i.staticRange i.fileName = some m ∨ 2 * s.now ≤ 2 * m.mtime + week))
    (hother : ∀ k n m, ¬ (k = i.staticRange ∧ n = i.fileName) → disk.file? k n = some m →
      s.cleaner.disk.file? k n = some m) :
    Inv info ((s.setDisk disk).access i) where
  placed := hplaced
  past r name := by
    show Function.update s.accessed _ _ r name ≤ s.now
    by_cases hr : r = i.staticRange
    · subst hr
      rw [Function.update_self]
      by_cases hname : name = i.fileName
      · subst hname
        rw [Function.update_self]
        exact Int.le_refl _
      · rw [Function.update_of_ne hname]
        exact hi.past _ _
    · rw [Function.update_of_ne hr]
      exact hi.past _ _
  near r name m hm := by
    show Near m.mtime (Function.update s.accessed _ _ r name)
    by_cases hr : r = i.staticRange
    · subst hr
      rw [Function.update_self]
      by_cases hname : name = i.fileName
      · subst hname
        rw [Function.update_self]
        exact (hat m hm).1
      · rw [Function.update_of_ne hname]
        exact hi.near _ _ m (hother _ _ m (fun h => hname h.2) hm)
    · rw [Function.update_of_ne hr]
      exact hi.near _ _ m (hother _ _ m (fun h => hr h.1) hm)
  readers r := by
    refine (hi.readers r).mono (Int.le_refl _) ?_
    intro m hm
    by_cases hpath : (info r).staticRange = i.staticRange ∧ (info r).fileName = i.fileName
    · rw [hpath.1, hpath.2] at hm ⊢
      rcases (hat m hm).2 with hsame | hfresh
      · exact .inl ⟨m, hsame, Int.le_refl _⟩
      · exact .inr hfresh
    · exact .inl ⟨m, hother _ _ m hpath hm, Int.le_refl _⟩
  sound := hi.sound
  ordered := hi.ordered

theorem Inv.setReader [DecidableEq Rd] (hi : Inv info s) {r : Rd} {pc : ReadPc}
    (hpc : Reading s (info r) pc) : Inv info (s.setReader r pc) where
  placed := hi.placed
  past := hi.past
  near := hi.near
  readers q := by
    show Reading s (info q) (Function.update s.readers r pc q)
    by_cases hq : q = r
    · subst hq
      rw [Function.update_self]
      exact hpc
    · rw [Function.update_of_ne hq]
      exact hi.readers q
  sound := hi.sound
  ordered := hi.ordered

/-! ## Steps of the calls -/

/-- A request that finds the file recent is at most a week after its time. -/
theorem Inv.date (hi : Inv info s) {r : Rd} {looked mtime : Int}
    (hpc : s.readers r = .dating looked mtime)
    (htimely : 2 * s.now ≤ 2 * looked + week) (hrecent : s.now - week ≤ mtime) :
    Inv info (s.access (info r)) := by
  have hread := hi.readers r
  rw [hpc] at hread
  refine hi.access hi.placed ?_ (fun _ _ _ _ hm => hm)
  intro m hm
  refine ⟨⟨?_, ?_⟩, .inl hm⟩
  · exact Int.le_trans (hi.near _ _ m hm).1 (hi.past _ _)
  · rcases hread.2 m hm with hold | hfresh
    · omega
    · omega

theorem Inv.mark (hi : Inv info s) (i : CacheFileInfo) :
    Inv info
      ((s.setDisk (touch s.cleaner.disk i.staticRange i.fileName s.now)).access i) := by
  have hweek := week_pos
  refine hi.access (placed_touch hi.placed _) ?_ ?_
  · intro m hm
    rcases file?_touch hm with ⟨-, -, htime⟩ | ⟨hpath, -⟩
    · unfold Near
      omega
    · exact absurd ⟨rfl, rfl⟩ hpath
  · intro k n m hpath hm
    rcases file?_touch hm with ⟨hk, hn, -⟩ | ⟨-, hm⟩
    · exact absurd ⟨hk, hn⟩ hpath
    · exact hm

theorem Inv.move (hi : Inv info s) {id : Text} {i : CacheFileInfo} {m : Meta}
    (hid : CacheFileInfo.fromFileId id = some i) (hpast : m.mtime ≤ s.now)
    (hfresh : 2 * s.now ≤ 2 * m.mtime + week) :
    Inv info ((s.setDisk (put s.cleaner.disk i.staticRange i.fileName m)).access i) := by
  have hweek := week_pos
  refine hi.access (placed_put hi.placed (located_fileName hid)) ?_ ?_
  · intro m' hm'
    rcases file?_put hm' with ⟨-, -, rfl⟩ | ⟨hpath, -⟩
    · unfold Near
      omega
    · exact absurd ⟨rfl, rfl⟩ hpath
  · intro k n m' hpath hm'
    rcases file?_put hm' with ⟨hk, hn, -⟩ | ⟨-, hm'⟩
    · exact absurd ⟨hk, hn⟩ hpath
    · exact hm'

theorem readStep_inv [DecidableEq Rd] {s' : State Rd} {r : Rd} {a : Action Rd} (hi : Inv info s)
    (htimely : Timely s a) (h : readStep info s r a = some s')
    (hr : a = .date r ∨ ∀ q, a ≠ .date q) : Inv info s' := by
  cases a with
  | look q fits =>
      simp only [readStep, Option.ite_none_right_eq_some, Option.some.injEq] at h
      rcases h with ⟨-, rfl⟩
      refine hi.setReader ?_
      cases hfile : s.cleaner.disk.file? (info r).staticRange (info r).fileName with
      | none => trivial
      | some m =>
          cases fits with
          | false => trivial
          | true =>
              refine ⟨Int.le_refl _, ?_⟩
              intro m' hm'
              rw [hfile] at hm'
              obtain rfl := Option.some.inj hm'
              exact .inl (Int.le_refl _)
  | openFile q works =>
      have hread := hi.readers r
      simp only [readStep] at h
      split at h
      · rename_i looked mtime hpc
        obtain rfl := Option.some.inj h
        refine hi.setReader ?_
        cases works with
        | false => trivial
        | true =>
            rw [hpc] at hread
            exact hread
      · cases h
  | date q =>
      obtain rfl : q = r := by simpa using hr
      simp only [readStep] at h
      split at h
      · rename_i looked mtime hpc
        obtain rfl := Option.some.inj h
        split
        · rename_i hrecent
          unfold Timely at htimely
          simp only [hpc] at htimely
          exact (hi.date hpc htimely hrecent).setReader trivial
        · exact hi.setReader trivial
      · cases h
  | mark q works =>
      simp only [readStep, Option.ite_none_right_eq_some, Option.some.injEq] at h
      rcases h with ⟨-, rfl⟩
      obtain rfl : works = true := htimely
      exact (hi.mark (info r)).setReader trivial
  | _ => cases h

/-! ## Steps of the cleaner -/

/-- A visit deletes the file it is at, or none. -/
theorem visit_deletes {c : Cleaner.State} {x : Cleaner.Item} {sr : Text}
    (hplaced : Placed c.disk) (hname : Located sr x.name) :
    Placed (Cleaner.visit c x).disk ∧ (Cleaner.visit c x).clock = c.clock ∧
      (∀ r name m, (Cleaner.visit c x).disk.file? r name = some m →
        c.disk.file? r name = some m) ∧
      ((Cleaner.visit c x).log = c.log ∨
        ∃ m, (Cleaner.visit c x).log = c.log ++ [⟨sr, x.name, m⟩]) := by
  rcases Cleaner.visit_cases c x with ⟨hsame, -⟩ | ⟨i, hinfo, -, ⟨hvisit, -⟩ | ⟨m, -, -, hvisit⟩⟩
  · rw [hsame]
    exact ⟨hplaced, rfl, fun _ _ _ h => h, .inl rfl⟩
  · rw [hvisit]
    exact ⟨hplaced, rfl, fun _ _ _ h => h, .inl rfl⟩
  · rw [hvisit]
    refine ⟨hplaced.unlink _ _, rfl, fun _ _ _ h => file?_of_unlink h, .inr ⟨m, ?_⟩⟩
    rcases hname i hinfo with ⟨hrange, hfile⟩
    rw [hrange, hfile]

theorem stamp_inv (hi : Inv info s) (sr : Text) (newOldest : Int) :
    Inv info (stamp s sr newOldest) :=
  hi.shrink (Int.le_refl _) hi.placed (fun _ _ _ h => h) rfl rfl trivial hi.ordered

theorem visit_inv (hi : Inv info s) {sr : Text} {cutOff newOldest : Int} {files : List Seen}
    (measured removed : Bool) (hpc : s.pc = .deleting sr cutOff newOldest files) :
    Inv info (visit s sr cutOff newOldest measured removed files) := by
  have hsound := hi.sound
  rw [hpc] at hsound
  rcases hsound with ⟨hlisted, hsorted⟩
  cases files with
  | nil => exact stamp_inv hi sr newOldest
  | cons x files =>
      rw [visit]
      split
      · exact stamp_inv hi sr _
      · rcases List.pairwise_cons.mp hsorted with ⟨hfirst, hrest⟩
        have hx := hlisted x List.mem_cons_self
        rcases visit_deletes (x := ⟨x.name, x.info, measured, removed⟩) hi.placed hx.1 with
          ⟨hplaced, hclock, hfiles, hlog⟩
        refine hi.shrink (Int.le_of_eq hclock.symm) hplaced hfiles rfl rfl ?_ ?_
        · exact ⟨fun y hy => hlisted y (List.mem_cons_of_mem _ hy), hrest⟩
        · rcases hlog with hlog | ⟨m, hlog⟩
          · dsimp only
            rw [if_pos hlog, hlog]
            exact hi.ordered
          · dsimp only
            rw [if_neg (by rw [hlog]; simp), hlog]
            constructor
            · rw [List.map_append, List.map_append, hi.ordered.log]
              rfl
            · intro e he t ht
              rcases List.mem_append.mp he with he | he
              · exact hi.ordered.order e he t ht
              · obtain rfl := List.mem_singleton.mp he
                rcases List.mem_map.mp ht with ⟨y, hy, rfl⟩
                exact hx.2.le (hlisted y (List.mem_cons_of_mem _ hy)).2 (hfirst y hy)

theorem cleanStep_inv {s' : State Rd} {a : Action Rd} (hi : Inv info s)
    (h : cleanStep s a = some s') : Inv info s' := by
  cases a with
  | check sizeLimit diskFree =>
      simp only [cleanStep, Option.ite_none_right_eq_some, Option.some.injEq] at h
      rcases h with ⟨-, rfl⟩
      exact hi.shrink (Int.le_refl _) hi.placed (fun _ _ _ h => h) rfl rfl trivial hi.ordered
  | choose sr names =>
      simp only [cleanStep, Option.ite_none_right_eq_some, Option.some.injEq] at h
      rcases h with ⟨-, rfl⟩
      refine hi.shrink (Int.le_refl _) hi.placed (fun _ _ _ h => h) rfl rfl ?_ hi.ordered
      cases names with
      | none => trivial
      | some names => exact fun _ hx => absurd hx List.not_mem_nil
  | leave =>
      simp only [cleanStep, Option.ite_none_right_eq_some, Option.some.injEq] at h
      rcases h with ⟨-, rfl⟩
      exact hi.shrink (Int.le_refl _) hi.placed (fun _ _ _ h => h) rfl rfl trivial hi.ordered
  | metadata works =>
      simp only [cleanStep] at h
      split at h
      · rename_i sr cutOff name names files hpc
        obtain rfl := Option.some.inj h
        have hlisted : Listed sr files := by
          have hsound := hi.sound
          rw [hpc] at hsound
          exact hsound
        refine hi.shrink (Int.le_refl _) hi.placed (fun _ _ _ h => h) rfl rfl ?_ hi.ordered
        cases hfile : s.cleaner.disk.file? sr name with
        | none => exact hlisted
        | some m =>
            cases works with
            | false => exact hlisted
            | true =>
                intro x hx
                rcases List.mem_append.mp hx with hx | hx
                · exact hlisted x hx
                · obtain rfl := List.mem_singleton.mp hx
                  exact ⟨located_of_placed hi.placed hfile, hi.near _ _ m hfile⟩
      · cases h
  | sort sorted =>
      simp only [cleanStep] at h
      split at h
      · rename_i sr cutOff files hpc
        simp only [Option.ite_none_right_eq_some, Option.some.injEq] at h
        rcases h with ⟨⟨hperm, hsorted⟩, rfl⟩
        have hsound := hi.sound
        rw [hpc] at hsound
        refine hi.shrink (Int.le_refl _) hi.placed (fun _ _ _ h => h) rfl rfl ?_ hi.ordered
        exact ⟨fun x hx => hsound x (hperm.mem_iff.mp hx), hsorted⟩
      · cases h
  | visit measured removed =>
      simp only [cleanStep] at h
      split at h
      · rename_i hpc
        obtain rfl := Option.some.inj h
        exact visit_inv hi measured removed hpc
      · cases h
  | _ => cases h

/-! ## Runs -/

theorem removeCache_shrinks (c : Cleaner.State) (i : CacheFileInfo) (works : Bool)
    (hplaced : Placed c.disk) :
    Placed (Cleaner.removeCache c i works).disk ∧
      (Cleaner.removeCache c i works).clock = c.clock ∧
      ∀ r name m, (Cleaner.removeCache c i works).disk.file? r name = some m →
        c.disk.file? r name = some m := by
  unfold Cleaner.removeCache
  split
  · exact ⟨hplaced, rfl, fun _ _ _ h => h⟩
  · split
    · exact ⟨hplaced.unlink _ _, rfl, fun _ _ _ h => file?_of_unlink h⟩
    · exact ⟨hplaced, rfl, fun _ _ _ h => h⟩

theorem step_inv [DecidableEq Rd] {s' : State Rd} {a : Action Rd} (hi : Inv info s)
    (htimely : Timely s a) (h : step info s a = some s') : Inv info s' := by
  cases a with
  | tick n =>
      obtain rfl := Option.some.inj h
      have hnow : s.now ≤ s.now + n := by omega
      exact hi.shrink hnow hi.placed (fun _ _ _ h => h) rfl rfl hi.sound hi.ordered
  | remove i works =>
      obtain rfl := Option.some.inj h
      rcases removeCache_shrinks s.cleaner i works hi.placed with ⟨hplaced, hclock, hfiles⟩
      exact hi.shrink (Int.le_of_eq hclock.symm) hplaced hfiles rfl rfl hi.sound hi.ordered
  | move id m =>
      simp only [step] at h
      split at h
      · rename_i hid
        simp only [Option.ite_none_right_eq_some, Option.some.injEq] at h
        rcases h with ⟨hpast, rfl⟩
        exact hi.move hid hpast htimely
      · cases h
  | count sr size =>
      obtain rfl := Option.some.inj h
      exact hi.shrink (Int.le_refl _) hi.placed (fun _ _ _ h => h) rfl rfl hi.sound hi.ordered
  | look r _ | openFile r _ | mark r _ =>
      exact readStep_inv hi htimely h (.inr (fun _ hq => by cases hq))
  | date r => exact readStep_inv hi htimely h (.inl rfl)
  | check _ _ | choose _ _ | leave | metadata _ | sort _ | visit _ _ =>
      simp only [step] at h
      exact cleanStep_inv hi h

theorem init_inv (h : init s) : Inv info s := by
  rcases h with ⟨hpc, hreaders, hlog, hevicted, hplaced, hpast, hnear⟩
  refine ⟨hplaced, hpast, hnear, ?_, ?_, ?_⟩
  · intro r
    rw [hreaders r]
    trivial
  · rw [hpc]
    trivial
  · rw [hlog, hevicted]
    exact ⟨rfl, fun _ h => absurd h List.not_mem_nil⟩

/-- In every run in which lookups and downloads take less than half a week: whatever the
cleaner has deleted, each file of its directory that stood behind it in the order was accessed
last no more than a week before it was, as of the moments at which the cleaner read their
times. -/
theorem evicts_lru [DecidableEq Rd] (h : (machine info).Reach Timely s) :
    s.cleaner.log.map (fun d => (d.range, d.name)) =
        s.evicted.map (fun e => (e.range, e.name)) ∧
      ∀ e ∈ s.evicted, ∀ t ∈ e.behind, e.accessed ≤ t + week := by
  have hi : Inv info s := by
    refine h.invariant (fun _ => init_inv) ?_
    intro s a s' hi htimely hs
    exact step_inv hi htimely hs
  exact ⟨hi.ordered.log, hi.ordered.order⟩

end

/-- An empty cache. -/
def empty : State Unit where
  cleaner := ⟨.empty, ⟨fun _ => none, fun _ _ h => by cases h⟩, 0, 0, false, []⟩
  pc := .resting
  readers := fun _ => .looking
  accessed := fun _ _ => 0
  evicted := []

theorem empty_init : init empty := by
  refine ⟨rfl, fun _ => rfl, rfl, rfl, ?_, fun _ _ => Int.le_refl 0, ?_⟩
  · intro r e he
    exact absurd he List.not_mem_nil
  · intro r name m hm
    cases hm

def day : Nat := 24 * 60 * 60 * 1000000000

/-- The same file in another resolution. -/
def small : CacheFileInfo := { abcInfo with xres := 8, yres := 6 }

/-- A file is deleted on the day of its last access, before one that was accessed five days
earlier. -/
theorem evicts_lru_older :
    ∃ s : State Unit, (machine (fun _ => abcInfo)).Reach Timely s ∧
      s.evicted = [⟨"a999".toList, abcInfo.fileName, 6 * day, [1 * day]⟩] ∧
      ∀ e ∈ s.evicted, ∀ t ∈ e.behind, e.accessed ≤ t + week := by
  obtain ⟨s, hs, hevicted⟩ := Machine.reach_of_runIf Timely empty_init
    (M := machine (fun _ : Unit => abcInfo))
    [.move abcInfo.fileName ⟨0, Cleaner.size100MB⟩, .count "a999".toList Cleaner.size100MB,
      .tick day, .move small.fileName ⟨day, Cleaner.size100MB⟩,
      .count "a999".toList Cleaner.size100MB, .tick (5 * day),
      .look () true, .openFile () true, .date (),
      .check 0 none, .choose "a999".toList (some [small.fileName, abcInfo.fileName]),
      .metadata true, .metadata true,
      .sort [⟨abcInfo.fileName, ⟨0, Cleaner.size100MB⟩, 6 * day⟩,
        ⟨small.fileName, ⟨day, Cleaner.size100MB⟩, 1 * day⟩],
      .visit true true]
    (fun s => s.evicted = [⟨"a999".toList, abcInfo.fileName, 6 * day, [1 * day]⟩])
    (by decide +kernel)
  exact ⟨s, hs, hevicted, (evicts_lru hs).2⟩

end Hath.Recency
