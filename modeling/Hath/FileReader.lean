import Hath.Basic
import Hath.Lib.Loop
import Hath.Lib.PollStream

/-!
# Hath.FileReader — reading a file through the I/O pool

`file_reader.rs`: a `FileReader` owns an open file and reads it one buffer at a
time on the I/O pool, either as a stream (`pollNext`) or by hand (`read`,
`seek`). While a read of the stream runs, the file is with the background task
and the reader holds its handle.

What the operating system does is a parameter of each operation: a read is
short by any amount or fails, a seek succeeds or fails. The spawned closures
neither panic nor are aborted, so a join always returns the task's result. The
recycled buffer is left out, since a read overwrites it whole.

* `pollNext_ranked` — reads without errors, the stream delivers the file from its
  position to its end, however short each read is.
-/

namespace Hath

open Lib

/-- What `File::read` does: it returns at least one byte and at most `n + 1`
(none at the end of the file), or it fails and leaves the position alone. -/
inductive ReadResult where
  | short (n : Nat)
  | err (e : IoError)
deriving DecidableEq, Repr

/-- An open file: its content and the handle's position. -/
structure File where
  content : Bytes
  pos : Nat
deriving DecidableEq, Repr

namespace File

/-- What is left to read. -/
def rest (f : File) : Bytes := f.content.drop f.pos

/-- `read_file`: one `File::read` into a buffer of `capacity` bytes. -/
def read (f : File) (capacity : Nat) : ReadResult → File × Except IoError Bytes
  | .short n =>
      let bytes := f.rest.take (min (n + 1) capacity)
      ({ f with pos := f.pos + bytes.length }, .ok bytes)
  | .err e => (f, .error e)

/-- `File::seek(SeekFrom::Start(offset))`, which fails or moves the handle. -/
def seek (f : File) (offset : Nat) : Option IoError → File × Except IoError Unit
  | none => ({ f with pos := offset }, .ok ())
  | some e => (f, .error e)

/-- A read splits what was left into what it returns and what is left then. -/
theorem read_rest (f : File) (capacity n : Nat) :
    f.rest = f.rest.take (min (n + 1) capacity) ++
      (f.content.drop (f.pos + (f.rest.take (min (n + 1) capacity)).length)) := by
  have hdrop : f.content.drop (f.pos + (f.rest.take (min (n + 1) capacity)).length) =
      f.rest.drop (min (n + 1) capacity) := by
    rw [rest, List.drop_drop, List.length_take, List.length_drop]
    by_cases h : min (n + 1) capacity ≤ f.content.length - f.pos
    · rw [Nat.min_eq_left h]
    · rw [Nat.min_eq_right (by omega), List.drop_eq_nil_of_le (by omega),
        List.drop_eq_nil_of_le (by omega)]
  rw [hdrop, List.take_append_drop]

/-- The results of reading the file again and again. -/
def reads (f : File) (capacity : Nat) : List ReadResult → List (Except IoError Bytes)
  | [] => []
  | res :: rs => (f.read capacity res).2 :: (f.read capacity res).1.reads capacity rs

/-- A read that returns nothing has found the end. -/
theorem rest_of_read_nil {f : File} {capacity : Nat} (hcap : 0 < capacity) {res : ReadResult}
    (h : (f.read capacity res).2 = .ok []) : f.rest = [] := by
  cases res with
  | short n =>
      have htake : f.rest.take (min (n + 1) capacity) = [] := Except.ok.inj h
      rcases List.take_eq_nil_iff.mp htake with hzero | hrest
      · omega
      · exact hrest
  | err e => cases h

/-- A successful read takes what it returns off what is left. -/
theorem rest_of_read_ok {f : File} {capacity : Nat} {res : ReadResult} {chunk : Bytes}
    (h : (f.read capacity res).2 = .ok chunk) :
    f.rest = chunk ++ (f.read capacity res).1.rest := by
  cases res with
  | short n =>
      cases h
      exact f.read_rest capacity n
  | err e => cases h

/-- A failed read leaves the file as it was. -/
theorem read_of_error {f : File} {capacity : Nat} {res : ReadResult} {e : IoError}
    (h : (f.read capacity res).2 = .error e) : (f.read capacity res).1 = f := by
  cases res with
  | short n => cases h
  | err e => rfl

end File

/-- The bytes that the results deliver before the first error. -/
def delivered : List (Except IoError Bytes) → Bytes
  | [] => []
  | .ok chunk :: rs => chunk ++ delivered rs
  | .error _ :: _ => []

theorem File.delivered_reads_end {f : File} (hend : f.rest = []) (capacity : Nat)
    (rs : List ReadResult) : delivered (f.reads capacity rs) = [] := by
  induction rs generalizing f with
  | nil => rfl
  | cons res rs ih =>
      cases hres : (f.read capacity res).2 with
      | error e =>
          rw [reads, hres]
          rfl
      | ok chunk =>
          have hrest := rest_of_read_ok hres
          rw [hend] at hrest
          rcases List.append_eq_nil_iff.mp hrest.symm with ⟨hchunk, hafter⟩
          rw [reads, hres, delivered, ih hafter, hchunk]
          rfl

namespace File

/-- The file before read `n` of a sequence of them. -/
def before (f : File) (capacity : Nat) (res : Nat → ReadResult) : Nat → File
  | 0 => f
  | n + 1 => ((f.before capacity res n).read capacity (res n)).1

/-- The results of a sequence of reads. -/
def readSeq (f : File) (capacity : Nat) (res : Nat → ReadResult) (n : Nat) :
    Except IoError Bytes :=
  ((f.before capacity res n).read capacity (res n)).2

variable {f : File} {capacity : Nat} {res : Nat → ReadResult} {n : Nat}

theorem before_succ_of_ok {chunk : Bytes} (h : f.readSeq capacity res n = .ok chunk) :
    (f.before capacity res n).rest = chunk ++ (f.before capacity res (n + 1)).rest :=
  rest_of_read_ok h

theorem before_succ_of_error {e : IoError} (h : f.readSeq capacity res n = .error e) :
    f.before capacity res (n + 1) = f.before capacity res n :=
  read_of_error h

end File

/-- The bytes of a result. -/
def resultBytes : Except IoError Bytes → Bytes
  | .ok chunk => chunk
  | .error _ => []

/-- The bytes of all results, whatever failed between them. -/
def gathered (results : List (Except IoError Bytes)) : Bytes := results.flatMap resultBytes

theorem gathered_succ (f : Nat → Except IoError Bytes) (n : Nat) :
    gathered (Loop.firsts f (n + 1)) = gathered (Loop.firsts f n) ++ resultBytes (f n) := by
  unfold gathered
  rw [Loop.firsts_succ, List.flatMap_append, List.flatMap_singleton]

theorem gathered_mono (f : Nat → Except IoError Bytes) {m n : Nat} (h : m ≤ n) :
    gathered (Loop.firsts f m) <+: gathered (Loop.firsts f n) := by
  induction n, h using Nat.le_induction with
  | base => exact List.prefix_rfl
  | succ n _ ih =>
      rw [gathered_succ]
      exact ih.trans (List.prefix_append _ _)

/-- Reads neither lose nor repeat a byte, whatever fails between them. -/
theorem File.gathered_before (f : File) (capacity : Nat) (res : Nat → ReadResult) (n : Nat) :
    f.rest = gathered (Loop.firsts (f.readSeq capacity res) n) ++
      (f.before capacity res n).rest := by
  induction n with
  | zero => rfl
  | succ n ih =>
      rw [gathered_succ, List.append_assoc]
      cases hres : f.readSeq capacity res n with
      | ok chunk =>
          rw [before_succ_of_ok hres] at ih
          exact ih
      | error e =>
          rw [before_succ_of_error hres]
          exact ih

/-- Whether the reader holds the file, or a background task does. The file is
absent when it was taken and not put back. -/
inductive ReaderState where
  | state (file : Option File)
  | future (file : File)
deriving DecidableEq, Repr

structure FileReader where
  state : ReaderState
  capacity : Nat
deriving DecidableEq, Repr

namespace FileReader

/-- `FileReader::new`. -/
def new (content : Bytes) (capacity : Nat) : FileReader :=
  { state := .state (some { content, pos := 0 }), capacity }

/-! ## Operations -/

/-- `FileReader::read`. -/
def read (r : FileReader) (res : ReadResult) : FileReader × Except IoError Bytes :=
  match r.state with
  | .future _ => (r, .error .resourceBusy)
  | .state none => (r, .error .resourceBusy)
  | .state (some f) =>
      let (f', out) := f.read r.capacity res
      ({ r with state := .state (some f') }, out)

/-- `FileReader::seek`. -/
def seek (r : FileReader) (offset : Nat) (res : Option IoError) :
    FileReader × Except IoError Unit :=
  match r.state with
  | .future _ => (r, .error .resourceBusy)
  | .state none => (r, .error .resourceBusy)
  | .state (some f) =>
      let (f', out) := f.seek offset res
      ({ r with state := .state (some f') }, out)

/-- The `Future` arm of `poll_next`: pending while the task has no result. -/
def pollTask (r : FileReader) (f : File) :
    List ReadResult → FileReader × Poll (Option (Except IoError Bytes))
  | [] => ({ r with state := .future f }, .pending)
  | res :: _ =>
      match f.read r.capacity res with
      | (f', .ok bytes) =>
          if bytes.isEmpty then ({ r with state := .state (some f') }, .ready none)
          else ({ r with state := .state (some f') }, .ready (some (.ok bytes)))
      | (f', .error e) => ({ r with state := .state (some f') }, .ready (some (.error e)))

/-- `poll_next`: spawn a read unless one is running, then poll its task. The
second argument lists what the background steps since the last poll returned;
the task is at most one read, so it takes the first. -/
def pollNext (r : FileReader) (ws : List ReadResult) :
    FileReader × Poll (Option (Except IoError Bytes)) :=
  match r.state with
  | .state none => (r, .ready (some (.error .resourceBusy)))
  | .state (some f) => pollTask r f ws
  | .future f => pollTask r f ws

/-- The reader as a stream. -/
def stream : PollStream FileReader (List ReadResult) IoError UInt8 where
  poll := pollNext

/-! ## Delivery -/

/-- Background steps none of which reports an I/O error. -/
def ErrorFree (ws : List ReadResult) : Prop := ∀ res ∈ ws, ∃ n, res = .short n

/-- The background did something. -/
def Works (ws : List ReadResult) : Prop := ws ≠ []

instance : DecidablePred Works := fun ws => inferInstanceAs (Decidable (ws ≠ []))

/-- The file, wherever it is. -/
def file (r : FileReader) : Option File :=
  match r.state with
  | .state f => f
  | .future f => some f

/-- A reader that has its file and can read. -/
def Inv (r : FileReader) : Prop := 0 < r.capacity ∧ r.file.isSome

/-- What the stream has still to yield. -/
def rest (r : FileReader) : Bytes := (r.file.map File.rest).getD []

/-- Two polls for each byte left, and one to spawn the next read. -/
def rank (r : FileReader) : Nat :=
  match r.state with
  | .state _ => 2 * r.rest.length + 2
  | .future _ => 2 * r.rest.length + 1

/-- The rank of a reader in terms of the file it has. -/
theorem rank_ge (r : FileReader) : 2 * r.rest.length + 1 ≤ r.rank := by
  unfold rank
  split <;> omega

/-- One poll, with the file at hand. -/
theorem pollTask_ok {r : FileReader} {f : File} (hcap : 0 < r.capacity)
    (hf : r.file = some f) {ws : List ReadResult} (hws : ErrorFree ws) :
    PollStream.PollOk Works Inv rest rank r ws (pollTask r f ws) := by
  have hrest : r.rest = f.rest := by rw [rest, hf]; rfl
  have hrank := rank_ge r
  cases ws with
  | nil =>
      -- the task has not returned: the file stays with it
      refine ⟨⟨hcap, rfl⟩, hrest.symm, ?_, fun h => absurd rfl h⟩
      show 2 * f.rest.length + 1 ≤ r.rank
      rw [← hrest]
      exact hrank
  | cons res tail =>
      rcases hws res List.mem_cons_self with ⟨n, rfl⟩
      have hsplit := f.read_rest r.capacity n
      rw [pollTask, File.read]
      dsimp only
      split
      · -- an empty read: the file has been read to its end
        rename_i hempty
        show r.rest = []
        have hmin : min (n + 1) r.capacity ≠ 0 := by omega
        rw [List.isEmpty_iff, List.take_eq_nil_iff] at hempty
        rw [hrest]
        exact hempty.resolve_left hmin
      · rename_i hne
        have hlen : 0 < (f.rest.take (min (n + 1) r.capacity)).length := by
          rw [List.length_pos_iff]
          intro h
          exact hne (List.isEmpty_iff.mpr h)
        refine ⟨⟨hcap, rfl⟩, ?_, ?_⟩
        · rw [hrest]
          exact hsplit
        · show 2 * (f.content.drop (f.pos + _)).length + 2 < r.rank
          have := congrArg List.length hsplit
          rw [List.length_append] at this
          rw [hrest] at hrank
          omega

/-- Without read errors the stream delivers what is left of the file. -/
theorem pollNext_ranked :
    PollStream.Ranked stream ErrorFree Works Inv rest rank where
  poll_ok r ws hr hws := by
    rcases hr with ⟨hcap, hfile⟩
    show PollStream.PollOk Works Inv rest rank r ws (pollNext r ws)
    unfold pollNext
    split
    · rename_i hstate
      rw [file, hstate] at hfile
      exact absurd hfile Bool.false_ne_true
    · rename_i f hstate
      exact pollTask_ok hcap (by rw [file, hstate]) hws
    · rename_i f hstate
      exact pollTask_ok hcap (by rw [file, hstate]) hws

end FileReader

end Hath
