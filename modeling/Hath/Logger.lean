import Hath.Basic
import Hath.Lib.Machine
import Hath.Lib.Rotating

/-!
# Hath.Logger — the log worker

`logger.rs`: `log` sends a formatted line through an unbounded channel; one worker task
takes the lines out and writes them to the console and to `log_err` (errors and warnings)
or `log_out` (the rest, through a `BufWriter`). After 100000 lines a file is renamed to
`.old` and a new one is created. The worker waits in a `select!` for a line, for a flush
and for the shutdown; whichever is ready may be taken.

A notification is `notify_one` to a single waiter: it is kept until the worker takes it.
Every I/O operation has an outcome; all but a rename and a create are ignored by the
worker, these two make it panic.
-/

namespace Hath.Logger

open Lib

/-! ## Lines -/

/-- `log::Level`. -/
inductive Level where
  | error
  | warn
  | info
  | debug
  | trace
deriving DecidableEq, Repr

/-- The order of levels; a `LevelFilter` is a number from `Off`, which is zero, on. -/
def Level.rank : Level → Nat
  | .error => 1
  | .warn => 2
  | .info => 3
  | .debug => 4
  | .trace => 5

/-- `LoggerMessage`; `message` is formatted. -/
structure Message where
  level : Level
  message : Bytes
deriving DecidableEq, Repr

/-- `[log.message.as_bytes(), b"\n"].concat()`. -/
def Message.line (m : Message) : Bytes := m.message ++ [10]

/-- The line goes to `log_err` and not to `log_out`. -/
def Message.isErr (m : Message) : Bool := m.level.rank ≤ Level.warn.rank

/-- `console_level` as a filter. -/
def consoleFilter : Nat → Nat
  | 0 => 4
  | 1 => 3
  | 2 => 2
  | 3 => 1
  | _ => 0

/-! ## Files -/

/-- The outcome of a write: all of it, or an error after `n` bytes. -/
inductive Io where
  | ok
  | fail (n : Nat)
deriving DecidableEq, Repr

/-- What gets through of the bytes. -/
def Io.through (io : Io) (bytes : Bytes) : Bytes :=
  match io with
  | .ok => bytes
  | .fail n => bytes.take n

/-- What a buffer keeps. -/
def Io.rest (io : Io) (bytes : Bytes) : Bytes :=
  match io with
  | .ok => []
  | .fail n => bytes.drop n

/-- A log file, the one it replaced, and the writer with its buffer and line counter. A
file that does not exist is `none`. -/
structure Sink where
  old : Option Bytes
  file : Option Bytes
  buf : Bytes
  lines : Nat
deriving DecidableEq, Repr

namespace Sink

/-- `flush` and `shutdown` of the writer. -/
def flush (s : Sink) (io : Io) : Sink :=
  { s with file := s.file.map (· ++ io.through s.buf), buf := io.rest s.buf }

/-- `write_all` on a `BufWriter` of the capacity; a plain file has capacity zero. A line
that is too long for the buffer goes past it, after what the buffer holds. -/
def write (capacity : Nat) (s : Sink) (line : Bytes) (io : Io) : Sink :=
  if capacity ≤ line.length then
    { s with file := s.file.map (· ++ io.through (s.buf ++ line)), buf := io.rest s.buf }
  else if capacity < s.buf.length + line.length then
    match io with
    | .ok => { s with file := s.file.map (· ++ s.buf), buf := line }
    | .fail n => { s with file := s.file.map (· ++ s.buf.take n), buf := s.buf.drop n }
  else { s with buf := s.buf ++ line }

/-- `rotate_log`: the file takes the place of the old one. -/
def rename (s : Sink) : Sink :=
  match s.file with
  | some content => { s with old := some content, file := none }
  | none => s

/-- `File::create`, with a new writer. -/
def create (s : Sink) : Sink := { s with file := some [], buf := [] }

end Sink

/-- The outcome of `rotate_log` and `File::create` for a full file. -/
inductive Rotation where
  | ok
  | renameFailed
  | createFailed
deriving DecidableEq, Repr

/-- The outcomes for one line: of the console, of the shutdown of a full file's writer,
of the rotation, of the write and of the flush after it. -/
structure LineIo where
  console : Io
  shutdown : Io
  rotation : Rotation
  write : Io
  flush : Io
deriving DecidableEq, Repr

def LineIo.done : LineIo := ⟨.ok, .ok, .ok, .ok, .ok⟩

/-- `100000` in the rotation of either file. -/
def maxLines : Nat := 100000

/-- The capacity of a `BufWriter`. -/
def bufCapacity : Nat := 8192

/-- Write a line into a file, which is rotated if it is full; `none` is a panic. -/
def Sink.log (capacity : Nat) (s : Sink) (line : Bytes) (io : LineIo) : Sink × Bool :=
  if maxLines < s.lines + 1 then
    match io.rotation with
    | .ok => (({ (s.flush io.shutdown).rename.create with lines := 0 }).write capacity line io.write,
        true)
    | .renameFailed => ({ s.flush io.shutdown with lines := s.lines + 1 }, false)
    | .createFailed => ({ (s.flush io.shutdown).rename with lines := s.lines + 1 }, false)
  else (({ s with lines := s.lines + 1 }).write capacity line io.write, true)

/-! ## The worker -/

/-- Where the worker stands. -/
inductive Pc where
  | starting
  /-- In the `select!`. -/
  | running
  /-- Out of the loop. -/
  | ended
  /-- `log_err` could not be created. -/
  | refused
  | panicked
deriving DecidableEq, Repr

/-- The worker has not dropped its end of the channel. -/
def Pc.alive : Pc → Bool
  | .starting | .running => true
  | _ => false

/-- The logger. `accepted` and `taken` are read by no step: the lines that got into the
channel, and those that were taken out, with `write_info` as it was then. -/
structure State where
  pc : Pc
  writeInfo : Bool
  flushEach : Bool
  consoleLevel : Nat
  queue : List Message
  closed : Bool
  flushNotified : Bool
  shutdownNotified : Bool
  err : Sink
  out : Sink
  stderr : Bytes
  stdout : Bytes
  accepted : List Message
  taken : List (Message × Bool)

/-- What comes of the start: the rotation of `log_out`, then of `log_err`, and the two
`File::create`. -/
inductive Start where
  | ok
  | outRenameFailed
  | errRenameFailed
  | errCreateFailed
  | outCreateFailed
deriving DecidableEq, Repr

/-- What other tasks do with the logger, and what the worker does next. -/
inductive Action where
  | log (m : Message)
  | flush
  | shutdown
  | setWriteInfo (enabled : Bool)
  | setFlush (enabled : Bool)
  | setConsoleLevel (level : Nat)
  /-- The worker begins. -/
  | start (result : Start)
  /-- A line has been received. -/
  | line (io : LineIo)
  /-- The channel is closed and empty. -/
  | finish (err out : Io)
  | flushed (io : Io)
  | close
deriving DecidableEq, Repr

/-- A line has been received. -/
def State.received (s : State) (m : Message) (rest : List Message) : State :=
  { s with queue := rest, taken := s.taken ++ [(m, s.writeInfo)] }

/-- The console gets what passes its filter. -/
def console (s : State) (m : Message) (io : Io) : State :=
  if m.level.rank ≤ consoleFilter s.consoleLevel then
    if m.isErr then { s with stderr := s.stderr ++ io.through m.line }
    else { s with stdout := s.stdout ++ io.through m.line }
  else s

/-- A line that has been received goes to its file. -/
def toFile (s : State) (m : Message) (io : LineIo) : State :=
  if m.isErr then
    let (err, ok) := s.err.log 0 m.line io
    { s with err, pc := if ok then s.pc else .panicked }
  else if s.writeInfo then
    let (out, ok) := s.out.log bufCapacity m.line io
    if ok then { s with out := if s.flushEach then out.flush io.flush else out }
    else { s with out, pc := .panicked }
  else s

/-- The rotation at the start. -/
def begin (s : State) : Start → State
  | .ok => { s with pc := .running, out := s.out.rename.create, err := s.err.rename.create }
  | .outRenameFailed => { s with pc := .panicked }
  | .errRenameFailed => { s with pc := .panicked, out := s.out.rename }
  | .errCreateFailed => { s with pc := .refused, out := s.out.rename, err := s.err.rename }
  | .outCreateFailed =>
      { s with pc := .panicked, out := s.out.rename, err := s.err.rename.create }

def step (s : State) : Action → Option State
  | .log m =>
      -- `enabled`; a send into a channel without a receiver is an error that is ignored
      if m.level.rank ≤ Level.debug.rank ∧ s.closed = false ∧ s.pc.alive = true then
        some { s with queue := s.queue ++ [m], accepted := s.accepted ++ [m] }
      else some s
  | .flush => some { s with flushNotified := true }
  | .shutdown => some { s with shutdownNotified := true }
  | .setWriteInfo enabled => some { s with writeInfo := enabled }
  | .setFlush enabled => some { s with flushEach := enabled }
  | .setConsoleLevel level => some { s with consoleLevel := level }
  | .start result => if s.pc = .starting then some (begin s result) else none
  | .line io =>
      match s.queue with
      | m :: rest =>
          if s.pc = .running then some (toFile (console (s.received m rest) m io.console) m io)
          else none
      | [] => none
  | .finish err out =>
      if s.pc = .running ∧ s.queue = [] ∧ s.closed = true then
        some { s with pc := .ended, err := s.err.flush err, out := s.out.flush out }
      else none
  | .flushed io =>
      if s.pc = .running ∧ s.flushNotified = true then
        some { s with flushNotified := false, out := s.out.flush io }
      else none
  | .close =>
      if s.pc = .running ∧ s.shutdownNotified = true then
        some { s with shutdownNotified := false, closed := true }
      else none

/-- `Logger::init`, with the files an earlier run has left. -/
def initial (err out : Sink) : State where
  pc := .starting
  writeInfo := true
  flushEach := false
  consoleLevel := 0
  queue := []
  closed := false
  flushNotified := false
  shutdownNotified := false
  err := { err with buf := [], lines := 0 }
  out := { out with buf := [], lines := 0 }
  stderr := []
  stdout := []
  accepted := []
  taken := []

def machine : Machine State Action where
  init s := ∃ err out, s = initial err out
  step := step

/-- Every I/O operation of the step succeeds. -/
def Works (_ : State) : Action → Prop
  | .start result => result = .ok
  | .line io => io = .done
  | .finish err out => err = .ok ∧ out = .ok
  | .flushed io => io = .ok
  | _ => True

instance (s : State) : ∀ a, Decidable (Works s a)
  | .start result => inferInstanceAs (Decidable (result = .ok))
  | .line io => inferInstanceAs (Decidable (io = .done))
  | .finish err out => inferInstanceAs (Decidable (err = .ok ∧ out = .ok))
  | .flushed io => inferInstanceAs (Decidable (io = .ok))
  | .log _ | .flush | .shutdown | .setWriteInfo _ | .setFlush _ | .setConsoleLevel _ | .close =>
      isTrue trivial

end Hath.Logger
