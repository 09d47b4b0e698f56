import Hath.FileReader

/-!
# Hath.FileReader.Runs — a reader over any sequence of operations

`FileReader` once more, with the buffer that travels with the file: `read_file` gives it
the length of the capacity before it reads, whatever is in its memory, and cuts it to
what was read; a result is split off it, and after an error it keeps its full length
until the next read clears it. `poll_next`, `read` and `seek` come in any order, and a
poll finds the task of the stream still running any number of times.

What the reader is for is a position in the file: `Accounts` says how an answer moves
it, and what the answer is there.

* `step_accounts` — one operation;
* `run_follows` — any sequence of them;
* `reader_exact` — chunks between seeks, errors, and the end of the stream;
* `erase_read`, `erase_seek`, `erase_pollNext` — without the buffer this is the reader of
  `Hath.FileReader`.
-/

namespace Hath

open Lib

namespace BufReader

/-! ## Operations -/

/-- `read_file`; `mem` is the memory of the buffer that `set_len` makes visible. -/
def readFile (f : File) (capacity : Nat) (mem : Nat → UInt8) (res : ReadResult) :
    Except (IoError × File × Bytes) (File × Bytes) :=
  let buf := (List.range capacity).map mem
  match f.read capacity res with
  | (f, .ok bytes) =>
      -- the read has overwritten the front of the buffer
      let buf := bytes ++ buf.drop bytes.length
      .ok (f, buf.take bytes.length)
  | (f, .error e) => .error (e, f, buf)

end BufReader

/-- `ReaderState`; a task has the file and the buffer. -/
inductive BufState where
  | state (held : Option (File × Bytes))
  | future (file : File) (buf : Bytes)

/-- `FileReader`. -/
structure BufReader where
  state : BufState
  capacity : Nat

namespace BufReader

/-- `FileReader::new`. -/
def new (content : Bytes) (capacity : Nat) : BufReader :=
  { state := .state (some ({ content, pos := 0 }, [])), capacity }

/-- `FileReader::read`. The result is split off the buffer, which is empty then. -/
def read (r : BufReader) (mem : Nat → UInt8) (res : ReadResult) :
    BufReader × Except IoError Bytes :=
  match r.state with
  | .future _ _ => (r, .error .resourceBusy)
  | .state none => (r, .error .resourceBusy)
  | .state (some (f, _)) =>
      match readFile f r.capacity mem res with
      | .ok (f, buf) => ({ r with state := .state (some (f, [])) }, .ok buf)
      | .error (e, f, buf) => ({ r with state := .state (some (f, buf)) }, .error e)

/-- `FileReader::seek`. -/
def seek (r : BufReader) (offset : Nat) (res : Option IoError) : BufReader × Except IoError Unit :=
  match r.state with
  | .future _ _ => (r, .error .resourceBusy)
  | .state none => (r, .error .resourceBusy)
  | .state (some (f, buf)) =>
      ({ r with state := .state (some ((f.seek offset res).1, buf)) }, (f.seek offset res).2)

/-- The `Future` arm of `poll_next`; `done` is what the task has done, if it has ended. -/
def pollTask (r : BufReader) (f : File) (buf : Bytes) (mem : Nat → UInt8)
    (done : Option ReadResult) : BufReader × Poll (Option (Except IoError Bytes)) :=
  match done with
  | none => ({ r with state := .future f buf }, .pending)
  | some res =>
      match readFile f r.capacity mem res with
      | .ok (f, buf) =>
          if buf.isEmpty then ({ r with state := .state (some (f, [])) }, .ready none)
          else ({ r with state := .state (some (f, [])) }, .ready (some (.ok buf)))
      | .error (e, f, buf) => ({ r with state := .state (some (f, buf)) }, .ready (some (.error e)))

/-- `poll_next`: spawns a task unless one is running, and polls it. -/
def pollNext (r : BufReader) (mem : Nat → UInt8) (done : Option ReadResult) :
    BufReader × Poll (Option (Except IoError Bytes)) :=
  match r.state with
  | .state none => (r, .ready (some (.error .resourceBusy)))
  | .state (some (f, buf)) => pollTask r f buf mem done
  | .future f buf => pollTask r f buf mem done

/-- An operation on the reader, with what the operating system does in it. -/
inductive Op where
  | pollNext (mem : Nat → UInt8) (done : Option ReadResult)
  | read (mem : Nat → UInt8) (res : ReadResult)
  | seek (offset : Nat) (res : Option IoError)

/-- The answer of an operation. -/
inductive Out where
  | pending
  /-- `Poll::Ready(None)`. -/
  | ended
  | chunk (bytes : Bytes)
  | error (e : IoError)
  | seeked (offset : Nat)
deriving DecidableEq

def Out.ofPoll : Poll (Option (Except IoError Bytes)) → Out
  | .pending => .pending
  | .ready none => .ended
  | .ready (some (.ok bytes)) => .chunk bytes
  | .ready (some (.error e)) => .error e

def Out.ofRead : Except IoError Bytes → Out
  | .ok bytes => .chunk bytes
  | .error e => .error e

def Out.ofSeek (offset : Nat) : Except IoError Unit → Out
  | .ok () => .seeked offset
  | .error e => .error e

def step (r : BufReader) : Op → BufReader × Out
  | .pollNext mem done => ((pollNext r mem done).1, .ofPoll (pollNext r mem done).2)
  | .read mem res => ((read r mem res).1, .ofRead (read r mem res).2)
  | .seek offset res => ((seek r offset res).1, .ofSeek offset (seek r offset res).2)

/-- The reader after a sequence of operations, and their answers. -/
def run : BufReader → List Op → BufReader × List Out
  | r, [] => (r, [])
  | r, op :: ops => ((run (step r op).1 ops).1, (step r op).2 :: (run (step r op).1 ops).2)

/-- The file, wherever it is. -/
def file (r : BufReader) : Option File :=
  match r.state with
  | .state held => held.map Prod.fst
  | .future f _ => some f

/-! ## The position -/

/-- How an answer moves the position in a file, and what the answer is there. -/
def Accounts (content : Bytes) (capacity pos : Nat) : Out → Nat → Prop
  | .pending, pos' => pos' = pos
  | .ended, pos' => pos' = pos ∧ content.drop pos = []
  | .chunk bytes, pos' => bytes.length ≤ capacity ∧ content.drop pos = bytes ++ content.drop pos'
  | .error _, pos' => pos' = pos
  | .seeked offset, pos' => pos' = offset

/-- The answers account for the way from one position to another. -/
def Follows (content : Bytes) (capacity : Nat) : Nat → List Out → Nat → Prop
  | pos, [], pos' => pos' = pos
  | pos, out :: outs, pos' =>
      ∃ mid, Accounts content capacity pos out mid ∧ Follows content capacity mid outs pos'

/-- The bytes of the answers. -/
def chunks (outs : List Out) : Bytes :=
  outs.flatMap fun out =>
    match out with
    | .chunk bytes => bytes
    | _ => []

/-! ## One operation -/

section

variable {content : Bytes} {capacity : Nat}

/-- A task of `read_file`: what it returns is what it has read, or nothing has moved. -/
theorem readFile_cases (hcap : 0 < capacity) (pos : Nat) (mem : Nat → UInt8) (res : ReadResult) :
    (∃ bytes pos', readFile ⟨content, pos⟩ capacity mem res = .ok (⟨content, pos'⟩, bytes) ∧
      bytes.length ≤ capacity ∧ content.drop pos = bytes ++ content.drop pos' ∧
      (bytes = [] → pos' = pos ∧ content.drop pos = [])) ∨
    ∃ e buf, readFile ⟨content, pos⟩ capacity mem res = .error (e, ⟨content, pos⟩, buf) := by
  cases res with
  | err e => exact .inr ⟨e, _, rfl⟩
  | short n =>
      have hread := (File.mk content pos).read_rest capacity n
      refine .inl ⟨(content.drop pos).take (min (n + 1) capacity), _, ?_, ?_, hread, ?_⟩
      · -- cutting the buffer to what was read leaves what was read
        show Except.ok (_, _) = _
        rw [List.take_left]
        rfl
      · rw [List.length_take]
        omega
      · intro hnil
        rcases List.take_eq_nil_iff.mp hnil with hzero | hend
        · omega
        · exact ⟨by rw [File.rest, hnil]; rfl, hend⟩

/-- The reader has its file, at a position. -/
def At (content : Bytes) (capacity pos : Nat) (r : BufReader) : Prop :=
  r.file = some ⟨content, pos⟩ ∧ r.capacity = capacity

theorem pollTask_accounts (hcap : 0 < capacity) (state : BufState) (pos : Nat) (buf : Bytes)
    (mem : Nat → UInt8) (done : Option ReadResult) :
    ∃ pos', At content capacity pos' (pollTask ⟨state, capacity⟩ ⟨content, pos⟩ buf mem done).1 ∧
      Accounts content capacity pos
        (.ofPoll (pollTask ⟨state, capacity⟩ ⟨content, pos⟩ buf mem done).2) pos' := by
  cases done with
  | none => exact ⟨pos, ⟨rfl, rfl⟩, rfl⟩
  | some res =>
      rw [pollTask]
      rcases readFile_cases hcap pos mem res with
        ⟨bytes, pos', hread, hlen, hsplit, hend⟩ | ⟨e, buf', hread⟩
      · rw [hread]
        cases bytes with
        | nil =>
            rcases hend rfl with ⟨rfl, hrest⟩
            exact ⟨pos', ⟨rfl, rfl⟩, rfl, hrest⟩
        | cons b bs => exact ⟨pos', ⟨rfl, rfl⟩, hlen, hsplit⟩
      · rw [hread]
        exact ⟨pos, ⟨rfl, rfl⟩, rfl⟩

theorem read_accounts (hcap : 0 < capacity) (pos : Nat) (buf : Bytes) (mem : Nat → UInt8)
    (res : ReadResult) :
    ∃ pos', At content capacity pos'
        (read ⟨.state (some (⟨content, pos⟩, buf)), capacity⟩ mem res).1 ∧
      Accounts content capacity pos
        (.ofRead (read ⟨.state (some (⟨content, pos⟩, buf)), capacity⟩ mem res).2) pos' := by
  unfold read
  dsimp only
  rcases readFile_cases hcap pos mem res with
    ⟨bytes, pos', hread, hlen, hsplit, -⟩ | ⟨e, buf', hread⟩
  · rw [hread]
    exact ⟨pos', ⟨rfl, rfl⟩, hlen, hsplit⟩
  · rw [hread]
    exact ⟨pos, ⟨rfl, rfl⟩, rfl⟩

/-- A reader at a position holds the file, or a task does. -/
theorem at_cases {pos : Nat} {r : BufReader} (hr : At content capacity pos r) :
    ∃ buf, r = ⟨.state (some (⟨content, pos⟩, buf)), capacity⟩ ∨
      r = ⟨.future ⟨content, pos⟩ buf, capacity⟩ := by
  rcases r with ⟨state, cap⟩
  rcases hr with ⟨hfile, rfl⟩
  rcases state with (_ | ⟨f, buf⟩) | ⟨f, buf⟩
  · cases hfile
  · cases hfile
    exact ⟨buf, .inl rfl⟩
  · cases hfile
    exact ⟨buf, .inr rfl⟩

/-- Every operation accounts for the position of the file. -/
theorem step_accounts (hcap : 0 < capacity) {pos : Nat} {r : BufReader}
    (hr : At content capacity pos r) (op : Op) :
    ∃ pos', At content capacity pos' (step r op).1 ∧
      Accounts content capacity pos (step r op).2 pos' := by
  rcases at_cases hr with ⟨buf, rfl | rfl⟩
  · cases op with
    | pollNext mem done => exact pollTask_accounts hcap _ pos buf mem done
    | read mem res => exact read_accounts hcap pos buf mem res
    | seek offset res =>
        cases res with
        | none => exact ⟨offset, ⟨rfl, rfl⟩, rfl⟩
        | some e => exact ⟨pos, ⟨rfl, rfl⟩, rfl⟩
  · -- a task of the stream has the file: only a poll gets at it
    cases op with
    | pollNext mem done => exact pollTask_accounts hcap _ pos buf mem done
    | read mem res => exact ⟨pos, ⟨rfl, rfl⟩, rfl⟩
    | seek offset res => exact ⟨pos, ⟨rfl, rfl⟩, rfl⟩

/-- After an error the reader is as it was, or it holds the file again. -/
theorem step_error {pos : Nat} {r : BufReader} (hr : At content capacity pos r) {op : Op}
    {e : IoError} (h : (step r op).2 = .error e) :
    (step r op).1 = r ∨ ∃ held, (step r op).1.state = .state (some held) := by
  have htask (r : BufReader) (f : File) (buf : Bytes) (mem : Nat → UInt8)
      (done : Option ReadResult) (he : .ofPoll (pollTask r f buf mem done).2 = Out.error e) :
      ∃ held, (pollTask r f buf mem done).1.state = .state (some held) := by
    cases done with
    | none => cases he
    | some res =>
        rw [pollTask]
        split
        · split <;> exact ⟨_, rfl⟩
        · exact ⟨_, rfl⟩
  rcases at_cases hr with ⟨buf, rfl | rfl⟩
  · cases op with
    | pollNext mem done => exact .inr (htask _ _ _ _ _ h)
    | read mem res =>
        refine .inr ?_
        show ∃ held, (read _ mem res).1.state = _
        unfold read
        dsimp only
        split <;> exact ⟨_, rfl⟩
    | seek offset res => exact .inr ⟨_, rfl⟩
  · cases op with
    | pollNext mem done => exact .inr (htask _ _ _ _ _ h)
    | read mem res => exact .inl rfl
    | seek offset res => exact .inl rfl

/-! ## Sequences of operations -/

theorem run_follows (hcap : 0 < capacity) {pos : Nat} {r : BufReader}
    (hr : At content capacity pos r) (ops : List Op) :
    ∃ pos', At content capacity pos' (run r ops).1 ∧
      Follows content capacity pos (run r ops).2 pos' := by
  induction ops generalizing pos r with
  | nil => exact ⟨pos, hr, rfl⟩
  | cons op ops ih =>
      rcases step_accounts hcap hr op with ⟨mid, hmid, hstep⟩
      rcases ih hmid with ⟨pos', hpos', hrest⟩
      exact ⟨pos', hpos', mid, hstep, hrest⟩

theorem follows_append {xs ys : List Out} {pos pos' : Nat}
    (h : Follows content capacity pos (xs ++ ys) pos') :
    ∃ mid, Follows content capacity pos xs mid ∧ Follows content capacity mid ys pos' := by
  induction xs generalizing pos with
  | nil => exact ⟨pos, rfl, h⟩
  | cons x xs ih =>
      rcases h with ⟨q, hx, hrest⟩
      rcases ih hrest with ⟨mid, hxs, hys⟩
      exact ⟨mid, ⟨q, hx, hxs⟩, hys⟩

/-- Between two seeks the chunks are the file from one position to the other. -/
theorem follows_chunks {outs : List Out} (hno : ∀ o, .seeked o ∉ outs) {pos pos' : Nat}
    (h : Follows content capacity pos outs pos') :
    content.drop pos = chunks outs ++ content.drop pos' := by
  induction outs generalizing pos with
  | nil =>
      cases h
      rfl
  | cons out outs ih =>
      rcases h with ⟨mid, hout, hrest⟩
      have hlater := ih (fun o ho => hno o (List.mem_cons_of_mem out ho)) hrest
      cases out with
      | pending =>
          cases hout
          exact hlater
      | ended =>
          cases hout.1
          exact hlater
      | chunk bytes =>
          rw [hout.2, hlater, ← List.append_assoc]
          rfl
      | error e =>
          cases hout
          exact hlater
      | seeked o => exact absurd List.mem_cons_self (hno o)

theorem follows_chunk_length {outs : List Out} {pos pos' : Nat}
    (h : Follows content capacity pos outs pos') {bytes : Bytes} (hmem : .chunk bytes ∈ outs) :
    bytes.length ≤ capacity := by
  induction outs generalizing pos with
  | nil => cases hmem
  | cons out outs ih =>
      rcases h with ⟨mid, hout, hrest⟩
      rcases List.mem_cons.mp hmem with rfl | hmem
      · exact hout.1
      · exact ih hrest hmem

/-- What answers after a seek account for. -/
theorem follows_since {outs : List Out} {pos pos' : Nat}
    (h : Follows content capacity pos outs pos') {pre mid post : List Out} {o : Nat}
    (hsplit : outs = pre ++ .seeked o :: (mid ++ post)) (hno : ∀ o', .seeked o' ∉ mid) :
    ∃ q, content.drop o = chunks mid ++ content.drop q ∧ Follows content capacity q post pos' := by
  rw [hsplit] at h
  rcases follows_append h with ⟨_, -, hseek⟩
  rcases hseek with ⟨at', hat, hrest⟩
  cases hat
  rcases follows_append hrest with ⟨q, hmid, hpost⟩
  exact ⟨q, follows_chunks hno hmid, hpost⟩

end

/-- **A reader neither loses nor repeats bytes.** For every sequence of operations on a new
reader, which is at offset 0: the chunks since a seek are the file from there on without
a gap, none is longer than the capacity, the stream ends at the end of the file only, and
a failed operation leaves the file where it was, the reader being as before or holding
the file again. -/
theorem reader_exact (content : Bytes) (capacity : Nat) (hcap : 0 < capacity) (ops : List Op) :
    let outs := Out.seeked 0 :: (run (new content capacity) ops).2
    (∀ pre o mid post, outs = pre ++ .seeked o :: (mid ++ post) → (∀ o', .seeked o' ∉ mid) →
      chunks mid <+: content.drop o) ∧
    (∀ bytes, .chunk bytes ∈ outs → bytes.length ≤ capacity) ∧
    (∀ pre o mid post, outs = pre ++ .seeked o :: (mid ++ .ended :: post) →
      (∀ o', .seeked o' ∉ mid) → chunks mid = content.drop o) ∧
    ∀ op e, (step (run (new content capacity) ops).1 op).2 = .error e →
      (step (run (new content capacity) ops).1 op).1.file =
        (run (new content capacity) ops).1.file ∧
      ((step (run (new content capacity) ops).1 op).1 = (run (new content capacity) ops).1 ∨
        ∃ held, (step (run (new content capacity) ops).1 op).1.state = .state (some held)) := by
  intro outs
  have hnew : At content capacity 0 (new content capacity) := ⟨rfl, rfl⟩
  rcases run_follows hcap hnew ops with ⟨pos, hpos, hrun⟩
  have houts : Follows content capacity 0 outs pos := ⟨0, rfl, hrun⟩
  refine ⟨?_, ?_, ?_, ?_⟩
  · intro pre o mid post hsplit hno
    rcases follows_since houts hsplit hno with ⟨q, hq, -⟩
    exact ⟨content.drop q, hq.symm⟩
  · intro bytes hmem
    exact follows_chunk_length houts hmem
  · intro pre o mid post hsplit hno
    rcases follows_since houts hsplit hno with ⟨q, hq, hend⟩
    rcases hend with ⟨_, ⟨-, hnil⟩, -⟩
    rw [hq, hnil, List.append_nil]
  · intro op e he
    rcases step_accounts hcap hpos op with ⟨pos', hpos', hstep⟩
    rw [he] at hstep
    cases hstep
    exact ⟨hpos'.1.trans hpos.1.symm, step_error hpos he⟩

/-- Three bytes through a buffer of two: a read, a stream read that a `read` finds running
and that fails, another one, and the end. -/
theorem reader_exact_abc :
    let ops : List Op := [.read (fun _ => 0) (.short 0), .pollNext (fun _ => 0) none,
      .read (fun _ => 0) (.short 5), .pollNext (fun _ => 7) (some (.err .os)),
      .pollNext (fun _ => 7) (some (.short 9)), .pollNext (fun _ => 7) (some (.short 9))]
    (run (new [97, 98, 99] 2) ops).2 = [.chunk [97], .pending, .error .resourceBusy, .error .os,
      .chunk [98, 99], .ended] ∧
    chunks [.chunk [97], .pending, .error .resourceBusy, .error .os, .chunk [98, 99]] =
      [97, 98, 99] := by
  intro ops
  have houts : (run (new [97, 98, 99] 2) ops).2 = [.chunk [97], .pending, .error .resourceBusy,
      .error .os, .chunk [98, 99], .ended] := by decide
  refine ⟨houts, (reader_exact [97, 98, 99] 2 (by decide) ops).2.2.1 [] 0 _ [] ?_ ?_⟩
  · rw [houts]
    rfl
  · intro o ho
    simp at ho

/-! ## Without the buffer -/

/-- The reader of `Hath.FileReader`. -/
def erase (r : BufReader) : FileReader where
  state :=
    match r.state with
    | .state held => .state (held.map Prod.fst)
    | .future f _ => .future f
  capacity := r.capacity

theorem erase_readFile (f : File) (capacity : Nat) (mem : Nat → UInt8) (res : ReadResult) :
    f.read capacity res =
      match readFile f capacity mem res with
      | .ok (f, buf) => (f, .ok buf)
      | .error (e, f, _) => (f, .error e) := by
  cases res with
  | err e => rfl
  | short n =>
      show _ = (_, Except.ok _)
      rw [List.take_left]
      rfl

theorem erase_read (r : BufReader) (mem : Nat → UInt8) (res : ReadResult) :
    r.erase.read res = ((r.read mem res).1.erase, (r.read mem res).2) := by
  rcases r with ⟨(_ | ⟨f, buf⟩) | ⟨f, buf⟩, capacity⟩
  · rfl
  · unfold read FileReader.read erase
    dsimp only [Option.map_some]
    rw [erase_readFile f capacity mem res]
    rcases readFile f capacity mem res with ⟨e, f', buf'⟩ | ⟨f', buf'⟩ <;> rfl
  · rfl

theorem erase_seek (r : BufReader) (offset : Nat) (res : Option IoError) :
    r.erase.seek offset res = ((r.seek offset res).1.erase, (r.seek offset res).2) := by
  rcases r with ⟨(_ | ⟨f, buf⟩) | ⟨f, buf⟩, capacity⟩
  · rfl
  · cases res <;> rfl
  · rfl

theorem erase_pollNext (r : BufReader) (mem : Nat → UInt8) (done : Option ReadResult) :
    r.erase.pollNext done.toList = ((r.pollNext mem done).1.erase, (r.pollNext mem done).2) := by
  have htask (state : BufState) (capacity : Nat) (f : File) (buf : Bytes) :
      FileReader.pollTask (erase ⟨state, capacity⟩) f done.toList =
        ((pollTask ⟨state, capacity⟩ f buf mem done).1.erase,
          (pollTask ⟨state, capacity⟩ f buf mem done).2) := by
    cases done with
    | none => rfl
    | some res =>
        show FileReader.pollTask (erase ⟨state, capacity⟩) f [res] = _
        unfold pollTask FileReader.pollTask erase
        dsimp only
        rw [erase_readFile f capacity mem res]
        rcases readFile f capacity mem res with ⟨e, f', buf'⟩ | ⟨f', buf'⟩
        · rfl
        · cases buf' <;> rfl
  rcases r with ⟨(_ | ⟨f, buf⟩) | ⟨f, buf⟩, capacity⟩
  · rfl
  · exact htask _ capacity f buf
  · exact htask _ capacity f buf

end BufReader

end Hath
