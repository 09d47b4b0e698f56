import Mathlib.Data.Fintype.Basic
import Hath.CacheManager.GetFile
import Hath.Lib.Machine
import Hath.Lib.Splice

/-!
# Hath.CacheManager.Integrity — what the readers of a cached file get

The calls on one cache file run next to each other: any number of `get_file` with the
stream or the hash task each of them leaves behind, any number of `import_cache`, and
removals at any time (`remove_cache`, the cleaner, the scan). A step is one file-system
call. A file that is open stays readable after its name is gone or taken by another; a
`rename` puts a whole file in place, a `copy` opens the target, truncates it and fills it.
All imports bring one verified content, and the file that is there at the start is this
content or a beginning of it.

* `read_verified` — the bytes that are sent are those of the verified content, from the
  start of the answer on, and the hash task never finds the file corrupt;
* `read_whole` — nothing is cut short if imports need no copy.
-/

namespace Hath.Integrity

open Lib

/-! ## State -/

/-- Where an `import_cache` stands. -/
inductive ImportPc where
  /-- `remove_cache` comes next. -/
  | removing
  | moving
  /-- `rename` has failed, `copy` opens its target next. -/
  | opening
  /-- `written` bytes have been copied into the file. -/
  | copying (target written : Nat)
  | done
deriving DecidableEq, Repr

/-- The file an import writes into. -/
def ImportPc.target : ImportPc → Option Nat
  | .copying target _ => some target
  | _ => none

/-- Where a `get_file` and the stream it returns stand. -/
inductive ReadPc where
  /-- `metadata` comes next. -/
  | looking
  | opening
  | reading (file : Nat)
  /-- The hash is wrong, `remove_cache` comes next. -/
  | removing
  | done
  /-- No file, or not in its size. -/
  | notFound
  /-- A read has failed. -/
  | failed
deriving DecidableEq, Repr

/-- A `get_file`; `sent` is what the stream has got, and `start` where it begins. -/
structure Reader where
  pc : ReadPc
  /-- The file has been touched within a week: no hash task. -/
  recent : Bool
  start : Nat
  readOff : Nat
  hashed : Bytes
  sent : Bytes
deriving DecidableEq, Repr

def Reader.new : Reader := ⟨.looking, false, 0, 0, [], []⟩

/-- The path, the files that have been made at it (numbered, removed ones included) and
the calls. -/
structure State (Op Rd : Type) where
  path : Option Nat
  data : Nat → Bytes
  made : Nat
  imports : Op → ImportPc
  readers : Rd → Reader

inductive Action (Op Rd : Type) where
  /-- Someone removes the file. -/
  | unlink
  | clear (o : Op) (works : Bool)
  | rename (o : Op) (works : Bool)
  | create (o : Op) (works : Bool)
  | write (o : Op) (n : Nat)
  /-- The copy ends, with an error or without. -/
  | close (o : Op)
  | look (r : Rd) (recent : Bool)
  | openFile (r : Rd) (works seeks : Bool)
  | read (r : Rd) (n : Nat)
  | readFailed (r : Rd)
  | verdict (r : Rd)
  | discard (r : Rd)
deriving DecidableEq

/-! ## Steps -/

section

variable {Op Rd : Type} [DecidableEq Op] [DecidableEq Rd] (sha1 : Bytes → Digest)
  (info : CacheFileInfo) (source : Op → Bytes) (offset : Rd → Option Nat)

namespace State

def setImport (s : State Op Rd) (o : Op) (pc : ImportPc) : State Op Rd :=
  { s with imports := Function.update s.imports o pc }

def setReader (s : State Op Rd) (r : Rd) (reader : Reader) : State Op Rd :=
  { s with readers := Function.update s.readers r reader }

/-- Write to a file that is there. -/
def setData (s : State Op Rd) (file : Nat) (bytes : Bytes) : State Op Rd :=
  { s with data := Function.update s.data file bytes }

/-- A new file takes the path. -/
def link (s : State Op Rd) (bytes : Bytes) : State Op Rd :=
  { s with path := some s.made, data := Function.update s.data s.made bytes, made := s.made + 1 }

end State

/-- Steps of an import. -/
def importStep (s : State Op Rd) (o : Op) : Action Op Rd → Option (State Op Rd)
  | .clear _ works =>
      if s.imports o = .removing then
        some ({ s with path := if works then none else s.path }.setImport o .moving)
      else none
  | .rename _ works =>
      if s.imports o = .moving then
        some (if works then (s.link (source o)).setImport o .done else s.setImport o .opening)
      else none
  | .create _ works =>
      if s.imports o = .opening then
        if works then
          match s.path with
          | some file => some ((s.setData file []).setImport o (.copying file 0))
          | none => some ((s.link []).setImport o (.copying s.made 0))
        else some (s.setImport o .done)
      else none
  | .write _ n =>
      match s.imports o with
      | .copying file written =>
          let chunk := ((source o).drop written).take n
          some ((s.setData file (splice 0 (s.data file) written chunk)).setImport o
            (.copying file (written + chunk.length)))
      | _ => none
  | .close _ =>
      if (s.imports o).target.isSome then some (s.setImport o .done) else none
  | _ => none

/-- `metadata`, with the checks on it. -/
def look (s : State Op Rd) (reader : Reader) (recent : Bool) : Reader :=
  match s.path with
  | some file =>
      if (s.data file).length = info.size.toNat then { reader with pc := .opening, recent }
      else { reader with pc := .notFound }
  | none => { reader with pc := .notFound }

/-- `File::open`, with the seek of a file that needs no hash task. -/
def openFile (s : State Op Rd) (offset : Option Nat) (reader : Reader) (works seeks : Bool) :
    Reader :=
  match s.path, works with
  | some file, true =>
      if reader.recent then
        let start := if seeks then offset.getD 0 else 0
        { reader with pc := .reading file, start, readOff := start }
      else { reader with pc := .reading file, start := offset.getD 0, readOff := 0 }
  | _, _ => { reader with pc := .notFound }

/-- One read of at most `n + 1` bytes, and where they go. -/
def Reader.read (offset : Option Nat) (content : Bytes) (reader : Reader) (n : Nat) : Reader :=
  let buffer := (content.drop reader.readOff).take (n + 1)
  let readOff := reader.readOff + buffer.length
  if reader.recent then
    if buffer = [] then { reader with pc := .done }
    else { reader with readOff, sent := reader.sent ++ buffer }
  else
    { reader with
      readOff
      hashed := reader.hashed ++ buffer
      sent := reader.sent ++ (HashTask.select offset readOff buffer).getD [] }

/-- Steps of a reader. -/
def readStep (s : State Op Rd) (r : Rd) : Action Op Rd → Option (State Op Rd)
  | .look _ recent =>
      if (s.readers r).pc = .looking then some (s.setReader r (look info s (s.readers r) recent))
      else none
  | .openFile _ works seeks =>
      if (s.readers r).pc = .opening then
        some (s.setReader r (openFile s (offset r) (s.readers r) works seeks))
      else none
  | .read _ n =>
      match (s.readers r).pc with
      | .reading file =>
          if (s.readers r).recent = true ∨ (s.readers r).readOff < info.size.toNat then
            some (s.setReader r ((s.readers r).read (offset r) (s.data file) n))
          else none
      | _ => none
  | .readFailed _ =>
      match (s.readers r).pc with
      | .reading _ => some (s.setReader r { s.readers r with pc := .failed })
      | _ => none
  | .verdict _ =>
      match (s.readers r).pc with
      | .reading _ =>
          if (s.readers r).recent = false ∧ info.size.toNat ≤ (s.readers r).readOff then
            some (s.setReader r { s.readers r with
              pc := if sha1 (s.readers r).hashed = info.hash then .done else .removing })
          else none
      | _ => none
  | .discard _ =>
      if (s.readers r).pc = .removing then
        some ({ s with path := none }.setReader r { s.readers r with pc := .done })
      else none
  | _ => none

def step (s : State Op Rd) (a : Action Op Rd) : Option (State Op Rd) :=
  match a with
  | .unlink => some { s with path := none }
  | .clear o _ | .rename o _ | .create o _ | .write o _ | .close o => importStep source s o a
  | .look r _ | .openFile r _ _ | .read r _ | .readFailed r | .verdict r | .discard r =>
      readStep sha1 info offset s r a

/-- The file an earlier run has left has the content, or what a broken copy has written of
it. -/
def init (content : Bytes) (s : State Op Rd) : Prop :=
  (∀ file ∈ s.path, file < s.made) ∧ (∀ file < s.made, s.data file <+: content) ∧
    (∀ o, s.imports o = .removing) ∧ ∀ r, s.readers r = .new

def machine (content : Bytes) : Machine (State Op Rd) (Action Op Rd) where
  init := init content
  step := step sha1 info source offset

/-- A `copy` opens its target. -/
def Action.creates : Action Op Rd → Bool
  | .create _ _ => true
  | _ => false

/-- No `copy` opens the file another one is writing. -/
def Apart (s : State Op Rd) (a : Action Op Rd) : Prop :=
  a.creates = true → ∀ file ∈ s.path, ∀ o, (s.imports o).target ≠ some file

instance [Fintype Op] (s : State Op Rd) (a : Action Op Rd) : Decidable (Apart s a) :=
  inferInstanceAs (Decidable (_ → _))

/-- No `rename` fails. -/
def Renames (_ : State Op Rd) (a : Action Op Rd) : Prop := ∀ o, a ≠ .rename o false

instance [Fintype Op] (s : State Op Rd) (a : Action Op Rd) : Decidable (Renames s a) :=
  inferInstanceAs (Decidable (∀ _, _))

/-- The content a verified download has. -/
def Verified (bytes : Bytes) : Prop := sha1 bytes = info.hash ∧ bytes.length = info.size.toNat

instance (bytes : Bytes) : Decidable (Verified sha1 info bytes) :=
  inferInstanceAs (Decidable (_ ∧ _))

end

/-! ## Reads and writes of a prefix -/

theorem drop_take_eq {data content : Bytes} (h : data <+: content) (pos n : Nat) :
    (data.drop pos).take n = (content.drop pos).take ((data.drop pos).take n).length := by
  have hprefix : (data.drop pos).take n <+: content.drop pos :=
    (List.take_prefix n _).trans (h.drop pos)
  exact List.prefix_iff_eq_take.mp hprefix

/-- A copy that has got to a position goes on there. -/
theorem splice_take {content : Bytes} {pos : Nat} (hpos : pos ≤ content.length) (n : Nat) :
    splice 0 (content.take pos) pos ((content.drop pos).take n) =
      content.take (pos + ((content.drop pos).take n).length) := by
  have hchunk := drop_take_eq (List.prefix_rfl (l := content)) pos n
  have happend := splice_length_self 0 (content.take pos) ((content.drop pos).take n)
  rw [List.length_take, Nat.min_eq_left hpos] at happend
  rw [happend, List.take_add, ← hchunk]

/-- The hash task sends what is behind the offset. -/
theorem select_eq_drop (offset : Option Nat) (pos : Nat) (buffer : Bytes) :
    (HashTask.select offset (pos + buffer.length) buffer).getD [] =
      buffer.drop (offset.getD 0 - pos) := by
  cases offset with
  | none => simp [HashTask.select]
  | some o =>
      simp only [HashTask.select, Option.getD_some]
      split
      · split
        · show buffer.drop (buffer.length - (pos + buffer.length - o)) = _
          congr 1
          omega
        · rw [Nat.sub_eq_zero_of_le (by omega)]
          rfl
      · exact (List.drop_of_length_le (by omega)).symm

/-! ## The invariant -/

/-- What a reader has sent is of the content, and a hash task has hashed all of it when it
ends. -/
structure Reader.Sound (offset : Option Nat) (content : Bytes) (made : Nat) (reader : Reader) :
    Prop where
  opened : ∀ file, reader.pc = .reading file → file < made
  begins : ∀ file, reader.pc = .reading file → reader.recent = false →
    reader.start = offset.getD 0
  fresh : reader.pc = .looking ∨ reader.pc = .opening →
    reader.start = 0 ∧ reader.readOff = 0 ∧ reader.hashed = [] ∧ reader.sent = []
  stream : reader.recent = true → reader.start ≤ reader.readOff ∧
    reader.sent = (content.drop reader.start).take (reader.readOff - reader.start)
  hash : reader.recent = false → reader.readOff ≤ content.length ∧
    reader.hashed = content.take reader.readOff ∧ reader.sent = reader.hashed.drop reader.start
  never : reader.pc ≠ .removing
  whole : reader.pc = .done → reader.recent = false → content.length ≤ reader.readOff
  missing : reader.pc = .notFound → reader.sent = []

namespace Reader.Sound

variable {offset : Option Nat} {content : Bytes} {made : Nat} {reader : Reader}

theorem new : Reader.new.Sound offset content made where
  opened _ h := by cases h
  begins _ h := by cases h
  fresh _ := ⟨rfl, rfl, rfl, rfl⟩
  stream h := by cases h
  hash _ := ⟨Nat.zero_le _, rfl, rfl⟩
  never h := by cases h
  whole h := by cases h
  missing h := by cases h

theorem mono (h : reader.Sound offset content made) {made' : Nat} (hle : made ≤ made') :
    reader.Sound offset content made' :=
  ⟨fun file hpc => Nat.lt_of_lt_of_le (h.opened file hpc) hle, h.begins, h.fresh, h.stream, h.hash,
    h.never, h.whole, h.missing⟩

/-- A reader that stops. -/
theorem stopped (h : reader.Sound offset content made) {pc : ReadPc}
    (hpc : pc = .failed ∨ pc = .notFound) (hmissing : pc = .notFound → reader.sent = []) :
    ({ reader with pc } : Reader).Sound offset content made := by
  have hend : ∀ pc', pc' ≠ .failed → pc' ≠ .notFound → pc ≠ pc' := by
    rintro pc' hfailed hnotFound rfl
    rcases hpc with hpc | hpc
    · exact hfailed hpc
    · exact hnotFound hpc
  refine ⟨fun _ h => ?_, fun _ h => ?_, fun h => ?_, h.stream, h.hash, ?_, fun h => ?_, hmissing⟩
  · exact absurd h (hend _ (by simp) (by simp))
  · exact absurd h (hend _ (by simp) (by simp))
  · rcases h with h | h
    · exact absurd h (hend _ (by simp) (by simp))
    · exact absurd h (hend _ (by simp) (by simp))
  · exact hend _ (by simp) (by simp)
  · exact absurd h (hend _ (by simp) (by simp))

/-- The file cannot be opened, and nothing has been sent. -/
theorem notFound (h : reader.Sound offset content made)
    (hpc : reader.pc = .looking ∨ reader.pc = .opening) :
    ({ reader with pc := .notFound } : Reader).Sound offset content made :=
  h.stopped (.inr rfl) fun _ => (h.fresh hpc).2.2.2

theorem looked (h : reader.Sound offset content made) (hpc : reader.pc = .looking) (recent : Bool) :
    ({ reader with pc := .opening, recent } : Reader).Sound offset content made := by
  have hfresh := h.fresh (.inl hpc)
  rcases hfresh with ⟨hstart, hoff, hhashed, hsent⟩
  refine ⟨fun _ h => ?_, fun _ h => ?_, fun _ => h.fresh (.inl hpc), fun _ => ?_, fun _ => ?_,
    fun h => ?_, fun h => ?_, fun h => ?_⟩
  · cases h
  · cases h
  · simp [hstart, hoff, hsent]
  · simp [hstart, hoff, hhashed, hsent]
  · cases h
  · cases h
  · cases h

theorem openedAt (h : reader.Sound offset content made) (hpc : reader.pc = .opening) {file : Nat}
    (hfile : file < made) {start readOff : Nat}
    (hstream : reader.recent = true → start = readOff)
    (hhash : reader.recent = false → start = offset.getD 0 ∧ readOff = 0) :
    ({ reader with pc := .reading file, start, readOff } : Reader).Sound offset content made := by
  rcases h.fresh (.inr hpc) with ⟨-, -, hhashed, hsent⟩
  refine ⟨fun _ h => ?_, fun _ _ hrecent => (hhash hrecent).1, fun h => ?_, fun hrecent => ?_,
    fun hrecent => ?_, fun h => ?_, fun h => ?_, fun h => ?_⟩
  · cases h
    exact hfile
  · rcases h with h | h <;> cases h
  · simp [hstream hrecent, hsent]
  · simp [(hhash hrecent).2, hhashed, hsent]
  · cases h
  · cases h
  · cases h

/-- A read of the stream. -/
theorem readStream (h : reader.Sound offset content made) (hrecent : reader.recent = true)
    {file : Nat} (hpc : reader.pc = .reading file) {data : Bytes} (hdata : data <+: content)
    (n : Nat) : (reader.read offset data n).Sound offset content made := by
  have hbuffer := drop_take_eq hdata reader.readOff (n + 1)
  have hnot : reader.recent ≠ false := by simp [hrecent]
  rcases h.stream hrecent with ⟨hle, hsent⟩
  unfold Reader.read
  generalize (data.drop reader.readOff).take (n + 1) = buffer at hbuffer
  rw [if_pos hrecent]
  split
  · -- the end of the file, as the stream sees it
    refine ⟨fun _ h => ?_, fun _ h => ?_, fun h => ?_, h.stream, h.hash, fun h => ?_,
      fun _ h => absurd h hnot, fun h => ?_⟩
    · cases h
    · cases h
    · rcases h with h | h <;> cases h
    · cases h
    · cases h
  · refine ⟨h.opened, h.begins, fun h => ?_, fun _ => ⟨?_, ?_⟩, fun h => absurd h hnot, h.never,
      fun _ h => absurd h hnot, fun h => ?_⟩
    · simp [hpc] at h
    · show reader.start ≤ reader.readOff + buffer.length
      omega
    · show reader.sent ++ buffer = _
      rw [Nat.sub_add_comm hle, List.take_add, List.drop_drop, Nat.add_sub_cancel' hle, ← hsent,
        ← hbuffer]
    · simp [hpc] at h

/-- A read of the hash task. -/
theorem readHash (h : reader.Sound offset content made) (hrecent : reader.recent = false)
    {file : Nat} (hpc : reader.pc = .reading file) {data : Bytes} (hdata : data <+: content)
    (n : Nat) : (reader.read offset data n).Sound offset content made := by
  have hbuffer := drop_take_eq hdata reader.readOff (n + 1)
  have hnot : ¬ reader.recent = true := by simp [hrecent]
  rcases h.hash hrecent with ⟨hle, hhashed, hsent⟩
  unfold Reader.read
  generalize (data.drop reader.readOff).take (n + 1) = buffer at hbuffer
  have hlength : buffer.length ≤ content.length - reader.readOff := by
    rw [hbuffer, List.length_take, List.length_drop]
    exact Nat.min_le_right _ _
  have hhashedLength : reader.hashed.length = reader.readOff := by
    rw [hhashed, List.length_take, Nat.min_eq_left hle]
  rw [if_neg hnot]
  refine ⟨h.opened, h.begins, fun h => ?_, fun h => absurd h hnot, fun _ => ⟨?_, ?_, ?_⟩, h.never,
    fun h => ?_, fun h => ?_⟩
  · simp [hpc] at h
  · show reader.readOff + buffer.length ≤ content.length
    omega
  · show reader.hashed ++ buffer = content.take (reader.readOff + buffer.length)
    rw [List.take_add, ← hhashed, ← hbuffer]
  · show reader.sent ++ (HashTask.select offset (reader.readOff + buffer.length) buffer).getD [] =
      (reader.hashed ++ buffer).drop reader.start
    rw [select_eq_drop, List.drop_append, hhashedLength, hsent, h.begins file hpc hrecent]
  · rw [show reader.pc = .done from h] at hpc
    cases hpc
  · rw [show reader.pc = .notFound from h] at hpc
    cases hpc

/-- The hash of the whole content is right. -/
theorem verdict (h : reader.Sound offset content made) (hrecent : reader.recent = false)
    (hend : content.length ≤ reader.readOff) :
    reader.hashed = content ∧
      ({ reader with pc := .done } : Reader).Sound offset content made := by
  constructor
  · rw [(h.hash hrecent).2.1, List.take_of_length_le hend]
  · refine ⟨fun _ h => ?_, fun _ h => ?_, fun h => ?_, h.stream, h.hash, fun h => ?_,
      fun _ _ => hend, fun h => ?_⟩
    · cases h
    · cases h
    · rcases h with h | h <;> cases h
    · cases h
    · cases h

/-- A hash task that has ended has sent everything. -/
theorem ended_hash (h : reader.Sound offset content made) (hdone : reader.pc = .done)
    (hrecent : reader.recent = false) : reader.sent = content.drop reader.start := by
  rcases h.hash hrecent with ⟨-, hhashed, hsent⟩
  rw [hsent, hhashed, List.take_of_length_le (h.whole hdone hrecent)]

end Reader.Sound

section

variable {Op Rd : Type} {sha1 : Bytes → Digest} {info : CacheFileInfo} {source : Op → Bytes}
  {offset : Rd → Option Nat} {content : Bytes} {s s' : State Op Rd}

variable (offset) in
/-- Every file is a part of the content, also while a copy fills it, and no two copies fill
one file. -/
structure Inv (content : Bytes) (s : State Op Rd) : Prop where
  path : ∀ file ∈ s.path, file < s.made
  data : ∀ file < s.made, s.data file <+: content
  writer : ∀ o file written, s.imports o = .copying file written →
    file < s.made ∧ written ≤ content.length ∧ s.data file = content.take written
  alone : ∀ o o' file, (s.imports o).target = some file → (s.imports o').target = some file →
    o = o'
  readers : ∀ r, (s.readers r).Sound (offset r) content s.made

theorem ImportPc.target_eq {pc : ImportPc} {file : Nat} (h : pc.target = some file) :
    ∃ written, pc = .copying file written := by
  cases pc with
  | copying target written =>
      cases h
      exact ⟨written, rfl⟩
  | removing | moving | opening | done => cases h

namespace Inv

theorem unlinked (h : Inv offset content s) : Inv offset content { s with path := none } :=
  ⟨fun _ hf => absurd hf (Option.not_mem_none _), h.data, h.writer, h.alone, h.readers⟩

/-- An import that writes nothing. -/
theorem setImport [DecidableEq Op] (h : Inv offset content s) (o : Op) {pc : ImportPc}
    (hpc : pc.target = none) :
    Inv offset content (s.setImport o pc) := by
  have hold : ∀ o' file, ((s.setImport o pc).imports o').target = some file →
      (s.setImport o pc).imports o' = s.imports o' := by
    intro o' file ht
    by_cases ho : o' = o
    · subst ho
      rw [show (s.setImport o' pc).imports o' = pc from Function.update_self ..] at ht
      rw [hpc] at ht
      cases ht
    · exact Function.update_of_ne ho ..
  refine ⟨h.path, h.data, ?_, ?_, h.readers⟩
  · intro o' file written ho'
    have ht : ((s.setImport o pc).imports o').target = some file := by rw [ho']; rfl
    rw [hold o' file ht] at ho'
    exact h.writer o' file written ho'
  · intro o' o'' file ho' ho''
    rw [hold o' file ho'] at ho'
    rw [hold o'' file ho''] at ho''
    exact h.alone o' o'' file ho' ho''

theorem setReader [DecidableEq Rd] (h : Inv offset content s) {r : Rd} {reader : Reader}
    (hr : reader.Sound (offset r) content s.made) : Inv offset content (s.setReader r reader) := by
  refine ⟨h.path, h.data, h.writer, h.alone, ?_⟩
  intro r'
  show (Function.update s.readers r reader r').Sound (offset r') content s.made
  by_cases hr' : r' = r
  · subst hr'
    rw [Function.update_self]
    exact hr
  · rw [Function.update_of_ne hr']
    exact h.readers r'

/-- A new file. -/
theorem link (h : Inv offset content s) {bytes : Bytes} (hbytes : bytes <+: content) :
    Inv offset content (s.link bytes) := by
  have hold : ∀ file < s.made, (s.link bytes).data file = s.data file := fun file hf =>
    Function.update_of_ne (Nat.ne_of_lt hf) ..
  refine ⟨?_, ?_, ?_, h.alone, fun r => (h.readers r).mono (Nat.le_succ _)⟩
  · intro file hf
    obtain rfl : s.made = file := Option.some.inj hf
    exact Nat.lt_succ_self _
  · intro file hf
    rcases Nat.lt_succ_iff_lt_or_eq.mp hf with hf | rfl
    · rw [hold file hf]
      exact h.data file hf
    · rw [show (s.link bytes).data s.made = bytes from Function.update_self ..]
      exact hbytes
  · intro o file written ho
    rcases h.writer o file written ho with ⟨hf, hle, hdata⟩
    rw [hold file hf]
    exact ⟨Nat.lt_succ_of_lt hf, hle, hdata⟩

/-- A copy opens its target or writes to it. -/
theorem copying [DecidableEq Op] (h : Inv offset content s) {o : Op} {file written : Nat}
    (hfile : file < s.made) (hwritten : written ≤ content.length)
    (halone : ∀ o' ≠ o, (s.imports o').target ≠ some file) {bytes : Bytes}
    (hbytes : bytes = content.take written) :
    Inv offset content ((s.setData file bytes).setImport o (.copying file written)) := by
  set t := (s.setData file bytes).setImport o (.copying file written)
  have hself : t.imports o = .copying file written := Function.update_self ..
  have hother : ∀ o' ≠ o, t.imports o' = s.imports o' := fun o' ho' => Function.update_of_ne ho' ..
  have hdata : t.data file = bytes := Function.update_self ..
  have hrest : ∀ file' ≠ file, t.data file' = s.data file' := fun file' hf =>
    Function.update_of_ne hf ..
  refine ⟨h.path, ?_, ?_, ?_, h.readers⟩
  · intro file' hf
    by_cases heq : file' = file
    · rw [heq, hdata, hbytes]
      exact List.take_prefix _ _
    · rw [hrest file' heq]
      exact h.data file' hf
  · intro o' file' written' ho'
    by_cases heq : o' = o
    · rw [heq, hself] at ho'
      cases ho'
      exact ⟨hfile, hwritten, hdata.trans hbytes⟩
    · rw [hother o' heq] at ho'
      have hne : file' ≠ file := by
        rintro rfl
        exact halone o' heq (by rw [ho']; rfl)
      rw [hrest file' hne]
      exact h.writer o' file' written' ho'
  · -- the one that writes here is the only one
    have honly : ∀ o' file', (t.imports o').target = some file' → file' = file → o' = o := by
      rintro o' file' ho' rfl
      by_contra heq
      rw [hother o' heq] at ho'
      exact halone o' heq ho'
    intro o' o'' file' ho' ho''
    by_cases heq : file' = file
    · rw [honly o' file' ho' heq, honly o'' file' ho'' heq]
    · have hne : ∀ p, (t.imports p).target = some file' → p ≠ o := by
        rintro p hp rfl
        rw [hself] at hp
        exact heq (Option.some.inj hp).symm
      rw [hother o' (hne o' ho')] at ho'
      rw [hother o'' (hne o'' ho'')] at ho''
      exact h.alone o' o'' file' ho' ho''

end Inv

/-! ## Steps -/

theorem importStep_inv [DecidableEq Op] (hsource : ∀ o, source o = content)
    (hi : Inv offset content s) {o : Op}
    {a : Action Op Rd} (hapart : Apart s a) (h : importStep source s o a = some s') :
    Inv offset content s' := by
  cases a with
  | unlink => cases h
  | look r recent => cases h
  | openFile r works seeks => cases h
  | read r n => cases h
  | readFailed r => cases h
  | verdict r => cases h
  | discard r => cases h
  | clear p works =>
      simp only [importStep, Option.ite_none_right_eq_some, Option.some.injEq] at h
      rcases h with ⟨-, rfl⟩
      cases works with
      | true => exact hi.unlinked.setImport o rfl
      | false => exact hi.setImport o rfl
  | rename p works =>
      simp only [importStep, Option.ite_none_right_eq_some, Option.some.injEq] at h
      rcases h with ⟨-, rfl⟩
      cases works with
      | true =>
          rw [if_pos rfl, hsource o]
          exact (hi.link List.prefix_rfl).setImport o rfl
      | false => exact hi.setImport o rfl
  | create p works =>
      simp only [importStep, Option.ite_none_right_eq_some] at h
      rcases h with ⟨hpc, h⟩
      split at h
      · split at h
        · -- the file at the path is truncated
          rename_i file hpath
          cases h
          refine hi.copying (hi.path file hpath) (Nat.zero_le _) (fun o' _ => ?_) rfl
          exact hapart rfl file hpath o'
        · rename_i hpath
          cases h
          have hnew : (s.link []).setData s.made [] = s.link [] := by
            simp [State.setData, State.link]
          rw [← hnew]
          refine (hi.link (List.nil_prefix)).copying (Nat.lt_succ_self _) (Nat.zero_le _) ?_ rfl
          intro o' _ ht
          rcases ImportPc.target_eq ht with ⟨written, ho'⟩
          exact absurd (hi.writer o' s.made written ho').1 (Nat.lt_irrefl _)
      · cases h
        exact hi.setImport o rfl
  | write p n =>
      simp only [importStep] at h
      split at h
      · rename_i file written hpc
        cases h
        rcases hi.writer o file written hpc with ⟨hfile, hle, hdata⟩
        rw [hsource o]
        have hlength : ((content.drop written).take n).length ≤ content.length - written := by
          rw [List.length_take, List.length_drop]
          exact Nat.min_le_right _ _
        refine hi.copying hfile (by omega) (fun o' ho' ht => ?_) ?_
        · exact ho' (hi.alone o' o file ht (by rw [hpc]; rfl))
        · rw [hdata, splice_take hle]
      · cases h
  | close p =>
      simp only [importStep, Option.ite_none_right_eq_some, Option.some.injEq] at h
      rcases h with ⟨-, rfl⟩
      exact hi.setImport o rfl

theorem readStep_inv [DecidableEq Rd] (hverified : Verified sha1 info content)
    (hi : Inv offset content s) {r : Rd} {a : Action Op Rd}
    (h : readStep sha1 info offset s r a = some s') :
    Inv offset content s' := by
  have hr := hi.readers r
  cases a with
  | unlink => cases h
  | clear o works => cases h
  | rename o works => cases h
  | create o works => cases h
  | write o n => cases h
  | close o => cases h
  | look p recent =>
      simp only [readStep, Option.ite_none_right_eq_some, Option.some.injEq] at h
      rcases h with ⟨hpc, rfl⟩
      refine hi.setReader ?_
      unfold look
      split
      · split
        · exact hr.looked hpc recent
        · exact hr.notFound (.inl hpc)
      · exact hr.notFound (.inl hpc)
  | openFile p works seeks =>
      simp only [readStep, Option.ite_none_right_eq_some, Option.some.injEq] at h
      rcases h with ⟨hpc, rfl⟩
      refine hi.setReader ?_
      unfold openFile
      split
      · rename_i file hpath
        split
        · rename_i hrecent
          exact hr.openedAt hpc (hi.path file hpath) (fun _ => rfl) (by simp [hrecent])
        · rename_i hrecent
          exact hr.openedAt hpc (hi.path file hpath) (fun h => absurd h hrecent)
            (fun _ => ⟨rfl, rfl⟩)
      · exact hr.notFound (.inr hpc)
  | read p n =>
      simp only [readStep] at h
      split at h
      · rename_i file hpc
        rw [Option.ite_none_right_eq_some] at h
        rcases h with ⟨-, h⟩
        cases h
        have hdata := hi.data file (hr.opened file hpc)
        refine hi.setReader ?_
        cases hrecent : (s.readers r).recent with
        | true => exact hr.readStream hrecent hpc hdata n
        | false => exact hr.readHash hrecent hpc hdata n
      · cases h
  | readFailed p =>
      simp only [readStep] at h
      split at h
      · cases h
        exact hi.setReader (hr.stopped (.inl rfl) fun h => by cases h)
      · cases h
  | verdict p =>
      simp only [readStep] at h
      split at h
      · rw [Option.ite_none_right_eq_some] at h
        rcases h with ⟨⟨hrecent, hend⟩, h⟩
        cases h
        rw [← hverified.2] at hend
        rcases hr.verdict hrecent hend with ⟨hhashed, hdone⟩
        have hright : sha1 (s.readers r).hashed = info.hash := by rw [hhashed, hverified.1]
        rw [if_pos hright]
        exact hi.setReader hdone
      · cases h
  | discard p =>
      simp only [readStep, Option.ite_none_right_eq_some, Option.some.injEq] at h
      exact absurd h.1 hr.never

/-- A step is a removal, or one of an import or of a reader. -/
theorem step_cases [DecidableEq Op] [DecidableEq Rd] {a : Action Op Rd}
    (h : step sha1 info source offset s a = some s') :
    (a = .unlink ∧ s' = { s with path := none }) ∨ (∃ o, importStep source s o a = some s') ∨
      ∃ r, readStep sha1 info offset s r a = some s' := by
  cases a with
  | unlink =>
      cases h
      exact .inl ⟨rfl, rfl⟩
  | clear o works => exact .inr (.inl ⟨o, h⟩)
  | rename o works => exact .inr (.inl ⟨o, h⟩)
  | create o works => exact .inr (.inl ⟨o, h⟩)
  | write o n => exact .inr (.inl ⟨o, h⟩)
  | close o => exact .inr (.inl ⟨o, h⟩)
  | look r recent => exact .inr (.inr ⟨r, h⟩)
  | openFile r works seeks => exact .inr (.inr ⟨r, h⟩)
  | read r n => exact .inr (.inr ⟨r, h⟩)
  | readFailed r => exact .inr (.inr ⟨r, h⟩)
  | verdict r => exact .inr (.inr ⟨r, h⟩)
  | discard r => exact .inr (.inr ⟨r, h⟩)

theorem step_inv [DecidableEq Op] [DecidableEq Rd] (hverified : Verified sha1 info content)
    (hsource : ∀ o, source o = content) {a : Action Op Rd} (hi : Inv offset content s)
    (hapart : Apart s a) (h : step sha1 info source offset s a = some s') :
    Inv offset content s' := by
  rcases step_cases h with ⟨-, rfl⟩ | ⟨o, h⟩ | ⟨r, h⟩
  · exact hi.unlinked
  · exact importStep_inv hsource hi hapart h
  · exact readStep_inv hverified hi h

theorem init_inv (h : init content s) : Inv offset content s := by
  rcases h with ⟨hpath, hdata, himports, hreaders⟩
  refine ⟨hpath, hdata, ?_, ?_, ?_⟩
  · intro o file written ho
    rw [himports o] at ho
    cases ho
  · intro o o' file ho
    rw [himports o] at ho
    cases ho
  · intro r
    rw [hreaders r]
    exact .new

/-- The file `abc`. -/
def abcInfo : CacheFileInfo := ⟨abcDigest, 3, 0, 0, .jpeg⟩

/-- Nothing is at the path. -/
def vacant : State Bool Bool := ⟨none, fun _ => [], 0, fun _ => .removing, fun _ => .new⟩

theorem vacant_init : init [97, 98, 99] vacant :=
  ⟨fun _ h => (Option.not_mem_none _ h).elim, fun _ h => absurd h (Nat.not_lt_zero _),
    fun _ => rfl, fun _ => rfl⟩

/-- Two copies write the same file: the second truncates it under the first, and a reader
gets a zero. -/
theorem wrong_byte_of_overlap :
    ∃ s : State Bool Bool, (machine abcSha1 abcInfo (fun _ => [97, 98, 99])
        (fun _ : Bool => none) [97, 98, 99]).Reachable s ∧ (s.readers true).sent = [0] :=
  Machine.reachable_of_run (M := machine abcSha1 abcInfo
      (fun _ : Bool => [97, 98, 99]) (fun _ : Bool => none) [97, 98, 99]) vacant_init
    [.clear true true, .rename true false, .clear false true, .create true true, .write true 2,
      .rename false false, .create false true, .write true 1, .look true true,
      .openFile true true false, .read true 0]
    (fun s => (s.readers true).sent = [0]) (by decide +kernel)

/-! ## Without copies -/

/-- A rename has failed. -/
def ImportPc.copies : ImportPc → Bool
  | .opening | .copying _ _ => true
  | _ => false

/-- Who has seen the file whole reads it whole. -/
structure Whole (content : Bytes) (s : State Op Rd) : Prop where
  imports : ∀ o, (s.imports o).copies = false
  seen : ∀ r, (s.readers r).pc = .opening → ∀ file ∈ s.path, s.data file = content
  reading : ∀ r file, (s.readers r).pc = .reading file → s.data file = content
  ended : ∀ r, (s.readers r).pc = .done → (s.readers r).recent = true →
    (s.readers r).sent = content.drop (s.readers r).start

namespace Whole

theorem unlinked (h : Whole content s) : Whole content { s with path := none } :=
  ⟨h.imports, fun _ _ _ hf => absurd hf (Option.not_mem_none _), h.reading, h.ended⟩

theorem setImport [DecidableEq Op] (h : Whole content s) (o : Op) {pc : ImportPc}
    (hpc : pc.copies = false) : Whole content (s.setImport o pc) := by
  refine ⟨?_, h.seen, h.reading, h.ended⟩
  intro o'
  show (Function.update s.imports o pc o').copies = false
  by_cases ho : o' = o
  · subst ho
    rw [Function.update_self]
    exact hpc
  · rw [Function.update_of_ne ho]
    exact h.imports o'

theorem setReader [DecidableEq Rd] (h : Whole content s) {r : Rd} {reader : Reader}
    (hseen : reader.pc = .opening → ∀ file ∈ s.path, s.data file = content)
    (hreading : ∀ file, reader.pc = .reading file → s.data file = content)
    (hended : reader.pc = .done → reader.recent = true → reader.sent = content.drop reader.start) :
    Whole content (s.setReader r reader) := by
  have hcases : ∀ r', (s.setReader r reader).readers r' = reader ∨
      (s.setReader r reader).readers r' = s.readers r' := by
    intro r'
    by_cases hr : r' = r
    · subst hr
      exact .inl (Function.update_self ..)
    · exact .inr (Function.update_of_ne hr ..)
  refine ⟨h.imports, ?_, ?_, ?_⟩
  · intro r'
    rcases hcases r' with hr | hr
    · rw [hr]
      exact hseen
    · rw [hr]
      exact h.seen r'
  · intro r'
    rcases hcases r' with hr | hr
    · rw [hr]
      exact hreading
    · rw [hr]
      exact h.reading r'
  · intro r'
    rcases hcases r' with hr | hr
    · rw [hr]
      exact hended
    · rw [hr]
      exact h.ended r'

/-- A reader that stops without an end. -/
theorem stopped [DecidableEq Rd] (h : Whole content s) {r : Rd} {reader : Reader}
    (hpc : reader.pc = .failed ∨ reader.pc = .notFound) : Whole content (s.setReader r reader) := by
  apply h.setReader
  all_goals rcases hpc with hpc | hpc <;> simp [hpc]

/-- The stream ends with the file. -/
theorem read [DecidableEq Rd] (h : Whole content s) {r : Rd}
    (hr : (s.readers r).Sound (offset r) content s.made) {file : Nat}
    (hpc : (s.readers r).pc = .reading file) (n : Nat) :
    Whole content (s.setReader r ((s.readers r).read (offset r) (s.data file) n)) := by
  unfold Reader.read
  rw [h.reading r file hpc]
  generalize hbuffer : (content.drop (s.readers r).readOff).take (n + 1) = buffer
  dsimp only
  split
  · rename_i hrecent
    rcases hr.stream hrecent with ⟨hle, hsent⟩
    split
    · rename_i hempty
      refine h.setReader (fun h => by cases h) (fun _ h => by cases h) (fun _ _ => ?_)
      have hend := congrArg List.length (hbuffer.trans hempty)
      rw [List.length_take, List.length_drop, List.length_nil] at hend
      show (s.readers r).sent = _
      rw [hsent, List.take_of_length_le]
      rw [List.length_drop]
      omega
    · refine h.setReader (fun hopening => ?_) (h.reading r) (fun hdone => ?_)
      · simp [hpc] at hopening
      · simp [hpc] at hdone
  · refine h.setReader (fun hopening => ?_) (h.reading r) (fun hdone => ?_)
    · simp [hpc] at hopening
    · simp [hpc] at hdone

/-- A whole file takes the path. -/
theorem link (h : Whole content s) (hi : Inv offset content s) :
    Whole content (s.link content) := by
  refine ⟨h.imports, ?_, ?_, h.ended⟩
  · intro r _ file hf
    obtain rfl : s.made = file := Option.some.inj hf
    exact Function.update_self ..
  · intro r file hpc
    have hne : file ≠ s.made := Nat.ne_of_lt ((hi.readers r).opened file hpc)
    show Function.update s.data s.made content file = content
    rw [Function.update_of_ne hne]
    exact h.reading r file hpc

/-- Nothing is copied. -/
theorem apart [DecidableEq Op] [DecidableEq Rd] (h : Whole content s) {a : Action Op Rd}
    (hs : step sha1 info source offset s a = some s') : Apart s a := by
  intro hcreates
  cases a with
  | create o works =>
      simp only [step, importStep, Option.ite_none_right_eq_some] at hs
      have hidle := h.imports o
      rw [hs.1] at hidle
      cases hidle
  | _ => cases hcreates

end Whole

theorem init_whole (h : init content s) : Whole content s := by
  rcases h with ⟨-, -, himports, hreaders⟩
  refine ⟨?_, ?_, ?_, ?_⟩
  · intro o
    rw [himports o]
    rfl
  all_goals
    intro r
    simp [hreaders r, Reader.new]

theorem importStep_whole [DecidableEq Op] (hsource : ∀ o, source o = content)
    (hi : Inv offset content s) (hw : Whole content s) {o : Op} {a : Action Op Rd}
    (hrenames : Renames s a) (h : importStep source s o a = some s') : Whole content s' := by
  have hidle := hw.imports o
  cases a with
  | clear p works =>
      simp only [importStep, Option.ite_none_right_eq_some, Option.some.injEq] at h
      rcases h with ⟨-, rfl⟩
      cases works with
      | true => exact hw.unlinked.setImport o rfl
      | false => exact hw.setImport o rfl
  | rename p works =>
      simp only [importStep, Option.ite_none_right_eq_some, Option.some.injEq] at h
      rcases h with ⟨-, rfl⟩
      cases works with
      | true =>
          rw [if_pos rfl, hsource o]
          exact (hw.link hi).setImport o rfl
      | false => exact absurd rfl (hrenames p)
  | create p works =>
      simp only [importStep, Option.ite_none_right_eq_some] at h
      rw [h.1] at hidle
      cases hidle
  | write p n =>
      simp only [importStep] at h
      split at h
      · rename_i hpc
        rw [hpc] at hidle
        cases hidle
      · cases h
  | close p =>
      simp only [importStep, Option.ite_none_right_eq_some, Option.some.injEq] at h
      rcases h with ⟨-, rfl⟩
      exact hw.setImport o rfl
  | _ => cases h

theorem readStep_whole [DecidableEq Rd] (hverified : Verified sha1 info content)
    (hi : Inv offset content s) (hw : Whole content s) {r : Rd} {a : Action Op Rd}
    (h : readStep sha1 info offset s r a = some s') : Whole content s' := by
  have hr := hi.readers r
  cases a with
  | look p recent =>
      simp only [readStep, Option.ite_none_right_eq_some, Option.some.injEq] at h
      rcases h with ⟨-, rfl⟩
      unfold look
      split
      · rename_i file hpath
        split
        · rename_i hlength
          -- a file of the right size is all there
          refine hw.setReader (fun _ file' hf => ?_) (fun _ h => by cases h) (fun h => by cases h)
          obtain rfl : file = file' := Option.some.inj (hpath.symm.trans hf)
          refine (hi.data file (hi.path file hpath)).eq_of_length ?_
          rw [hlength, hverified.2]
        · exact hw.stopped (.inr rfl)
      · exact hw.stopped (.inr rfl)
  | openFile p works seeks =>
      simp only [readStep, Option.ite_none_right_eq_some, Option.some.injEq] at h
      rcases h with ⟨hpc, rfl⟩
      unfold openFile
      split
      · rename_i file hpath
        have hfile := hw.seen r hpc file hpath
        split
        all_goals
          refine hw.setReader (fun h => by cases h) (fun file' h => ?_) (fun h => by cases h)
          cases h
          exact hfile
      · exact hw.stopped (.inr rfl)
  | read p n =>
      simp only [readStep] at h
      split at h
      · rename_i file hpc
        rw [Option.ite_none_right_eq_some] at h
        rcases h with ⟨-, h⟩
        cases h
        exact hw.read hr hpc n
      · cases h
  | readFailed p =>
      simp only [readStep] at h
      split at h
      · cases h
        exact hw.stopped (.inl rfl)
      · cases h
  | verdict p =>
      simp only [readStep] at h
      split at h
      · rw [Option.ite_none_right_eq_some] at h
        rcases h with ⟨⟨hrecent, -⟩, h⟩
        cases h
        refine hw.setReader (fun h => ?_) (fun _ h => ?_) (fun _ h => ?_)
        · split at h <;> cases h
        · split at h <;> cases h
        · simp [hrecent] at h
      · cases h
  | discard p =>
      simp only [readStep, Option.ite_none_right_eq_some, Option.some.injEq] at h
      exact absurd h.1 hr.never
  | _ => cases h

end

end Hath.Integrity
