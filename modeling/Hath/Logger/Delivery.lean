import Hath.Lib.Endless
import Hath.Logger

/-!
# Hath.Logger.Delivery — what becomes of a line

Every line that gets into the channel is taken out once, in the order of sending, and
written to its file; a full file is put away and the one before it is overwritten. What is
in `log_out.old` and `log_out`, and in the buffer of its writer, are the last lines, and
there are always 100000 of them if so many were written.

* `Holds` — the two files refine a `Rotating` log;
* `log_delivered` — order and files, in every state of every run without I/O errors;
* `shutdown_drains` — a notified worker that is left to itself ends, whatever its `select!`
  picks, with all accepted lines taken and its buffers empty.
-/

namespace Hath.Logger

open Lib

/-! ## One file -/

/-- The files of a sink are those of a log of lines. -/
structure Sink.Holds (s : Sink) (r : Rotating Bytes) : Prop where
  file : ∃ content, s.file = some content ∧ content ++ s.buf = r.cur.flatten
  old : ∀ o ∈ r.old, s.old = some o.flatten
  lines : s.lines = r.lines

namespace Sink

variable {s : Sink} {r : Rotating Bytes}

theorem holds_create (s : Sink) (hlines : s.lines = 0) : (s.create).Holds .empty :=
  ⟨⟨[], rfl, rfl⟩, nofun, hlines⟩

theorem holds_flush (h : s.Holds r) : (s.flush .ok).Holds r := by
  rcases h.file with ⟨content, hfile, hcontent⟩
  refine ⟨⟨content ++ s.buf, ?_, ?_⟩, h.old, h.lines⟩
  · simp [flush, hfile, Io.through]
  · simp [flush, Io.rest, hcontent]

/-- A write adds the line to the file and the buffer together. -/
theorem write_ok (capacity : Nat) (line : Bytes) {content : Bytes} (hfile : s.file = some content) :
    ∃ content', (s.write capacity line .ok).file = some content' ∧
      content' ++ (s.write capacity line .ok).buf = content ++ s.buf ++ line := by
  unfold write
  split
  · exact ⟨content ++ (s.buf ++ line), by simp [hfile, Io.through], by simp [Io.rest]⟩
  · split
    · exact ⟨content ++ s.buf, by simp [hfile], rfl⟩
    · exact ⟨content, hfile, by simp⟩

theorem write_frame (capacity : Nat) (s : Sink) (line : Bytes) (io : Io) :
    (s.write capacity line io).old = s.old ∧ (s.write capacity line io).lines = s.lines := by
  unfold write
  split
  · exact ⟨rfl, rfl⟩
  · split
    · cases io with
      | ok => exact ⟨rfl, rfl⟩
      | fail n => exact ⟨rfl, rfl⟩
    · exact ⟨rfl, rfl⟩

/-- A line written without errors is pushed. -/
theorem holds_log (capacity : Nat) (h : s.Holds r) (line : Bytes) :
    (s.log capacity line .done).2 = true ∧
      (s.log capacity line .done).1.Holds (r.push maxLines line) := by
  rcases h.file with ⟨content, hfile, hcontent⟩
  unfold log Rotating.push LineIo.done
  rw [h.lines]
  split
  · -- the writer is shut down, so the whole content is put away
    refine ⟨rfl, ?_⟩
    have hfresh : ({ (s.flush .ok).rename.create with lines := 0 } : Sink) =
        ⟨some (content ++ s.buf), some [], [], 0⟩ := by
      simp [flush, rename, create, hfile, Io.through]
    dsimp only
    rw [hfresh]
    rcases write_ok (s := ⟨some (content ++ s.buf), some [], [], 0⟩) capacity line rfl with
      ⟨content', hfile', hcontent'⟩
    rcases write_frame capacity ⟨some (content ++ s.buf), some [], [], 0⟩ line .ok with
      ⟨hold, hlines⟩
    refine ⟨⟨content', hfile', by simpa using hcontent'⟩, ?_, hlines⟩
    intro o ho
    obtain rfl := Option.some.inj ho
    rw [hold, hcontent]
  · refine ⟨rfl, ?_⟩
    rcases write_ok (s := { s with lines := r.lines + 1 }) capacity line hfile with
      ⟨content', hfile', hcontent'⟩
    rcases write_frame capacity { s with lines := r.lines + 1 } line .ok with ⟨hold, hlines⟩
    refine ⟨⟨content', hfile', ?_⟩, ?_, hlines⟩
    · rw [hcontent']
      simp [hcontent]
    · intro o ho
      rw [hold]
      exact h.old o ho

/-- A plain file has nothing in its buffer. -/
theorem buf_log_plain (s : Sink) (line : Bytes) : (s.log 0 line .done).1.buf = [] := by
  unfold log LineIo.done
  split
  · simp [write, Io.rest]
  · simp [write, Io.rest]

end Sink

/-! ## The lines of a file -/

/-- What has gone to `log_err`. -/
def errLines (taken : List (Message × Bool)) : List Bytes :=
  (taken.filter fun p => p.1.isErr).map fun p => p.1.line

/-- What has gone to `log_out`. -/
def outLines (taken : List (Message × Bool)) : List Bytes :=
  (taken.filter fun p => !p.1.isErr && p.2).map fun p => p.1.line

theorem errLines_snoc (taken : List (Message × Bool)) (m : Message) (enabled : Bool) :
    errLines (taken ++ [(m, enabled)]) =
      errLines taken ++ if m.isErr then [m.line] else [] := by
  unfold errLines
  cases h : m.isErr <;> simp [h]

theorem outLines_snoc (taken : List (Message × Bool)) (m : Message) (enabled : Bool) :
    outLines (taken ++ [(m, enabled)]) =
      outLines taken ++ if !m.isErr && enabled then [m.line] else [] := by
  unfold outLines
  cases h : m.isErr <;> cases enabled <;> simp [h]

/-- The sink has been given these lines. -/
def Sink.Logs (s : Sink) (lines : List Bytes) : Prop :=
  ∃ r : Rotating Bytes, s.Holds r ∧ r.Inv maxLines ∧ r.all = lines

theorem Sink.logs_log {s : Sink} {lines : List Bytes} (capacity : Nat) (h : s.Logs lines)
    (line : Bytes) :
    (s.log capacity line .done).2 = true ∧
      (s.log capacity line .done).1.Logs (lines ++ [line]) := by
  rcases h with ⟨r, hr, hi, rfl⟩
  rcases Sink.holds_log capacity hr line with ⟨hok, hlog⟩
  exact ⟨hok, _, hlog, Rotating.inv_push hi line, Rotating.all_push r line⟩

theorem Sink.logs_flush {s : Sink} {lines : List Bytes} (h : s.Logs lines) :
    (s.flush .ok).Logs lines := by
  rcases h with ⟨r, hr, hi, hall⟩
  exact ⟨r, Sink.holds_flush hr, hi, hall⟩

theorem Sink.logs_create (s : Sink) (hlines : s.lines = 0) : (s.create).Logs [] :=
  ⟨.empty, Sink.holds_create s hlines, Rotating.inv_empty _, rfl⟩

/-- The newer file and the buffer end the lines; the older file, once there is one, has
at least `maxLines` of those before. -/
def Sink.Recent (s : Sink) (lines : List Bytes) : Prop :=
  ∃ lost old cur content, lines = lost ++ old ++ cur ∧ s.file = some content ∧
    content ++ s.buf = cur.flatten ∧ cur.length ≤ maxLines + 1 ∧
    ((lost = [] ∧ old = []) ∨
      (s.old = some old.flatten ∧ maxLines ≤ old.length ∧ old.length ≤ maxLines + 1))

theorem Sink.Logs.recent {s : Sink} {lines : List Bytes} (h : s.Logs lines) : s.Recent lines := by
  rcases h with ⟨r, hr, hi, rfl⟩
  rcases hr.file with ⟨content, hfile, hcontent⟩
  refine ⟨r.lost, r.old.getD [], r.cur, content, ?_, hfile, hcontent, hi.length_le, ?_⟩
  · simp [Rotating.all, Rotating.kept]
  · cases hold : r.old with
    | none => exact .inl ⟨(hi.first hold).1, rfl⟩
    | some o => exact .inr ⟨hr.old o hold, (hi.full o hold).1, (hi.full o hold).2⟩

/-! ## One line -/

/-- Nothing has moved but the files, the console and the program counter. -/
structure Quiet (s s' : State) : Prop where
  queue : s'.queue = s.queue
  closed : s'.closed = s.closed
  flushNotified : s'.flushNotified = s.flushNotified
  shutdownNotified : s'.shutdownNotified = s.shutdownNotified
  accepted : s'.accepted = s.accepted
  taken : s'.taken = s.taken

theorem console_frame (s : State) (m : Message) (io : Io) :
    Quiet s (console s m io) ∧ (console s m io).pc = s.pc ∧ (console s m io).err = s.err ∧
      (console s m io).out = s.out ∧ (console s m io).writeInfo = s.writeInfo := by
  unfold console
  split_ifs <;> exact ⟨⟨rfl, rfl, rfl, rfl, rfl, rfl⟩, rfl, rfl, rfl, rfl⟩

/-- A line changes the program counter only by a panic. -/
theorem toFile_frame (s : State) (m : Message) (io : LineIo) :
    Quiet s (toFile s m io) ∧ ((toFile s m io).pc = s.pc ∨ (toFile s m io).pc = .panicked) := by
  unfold toFile
  dsimp only
  split
  · refine ⟨⟨rfl, rfl, rfl, rfl, rfl, rfl⟩, ?_⟩
    split
    · exact .inl rfl
    · exact .inr rfl
  · split_ifs
    · exact ⟨⟨rfl, rfl, rfl, rfl, rfl, rfl⟩, .inl rfl⟩
    · exact ⟨⟨rfl, rfl, rfl, rfl, rfl, rfl⟩, .inl rfl⟩
    · exact ⟨⟨rfl, rfl, rfl, rfl, rfl, rfl⟩, .inr rfl⟩
    · exact ⟨⟨rfl, rfl, rfl, rfl, rfl, rfl⟩, .inl rfl⟩

/-- What a received line does to the files. -/
theorem toFile_done {s : State} {errs outs : List Bytes} (m : Message) (herr : s.err.Logs errs)
    (hplain : s.err.buf = []) (hout : s.out.Logs outs) :
    (toFile s m .done).pc = s.pc ∧
    (toFile s m .done).err.Logs (errs ++ if m.isErr then [m.line] else []) ∧
    (toFile s m .done).err.buf = [] ∧
    (toFile s m .done).out.Logs (outs ++ if !m.isErr && s.writeInfo then [m.line] else []) := by
  unfold toFile
  cases hm : m.isErr with
  | true =>
      rcases Sink.logs_log 0 herr m.line with ⟨hok, hlog⟩
      refine ⟨?_, hlog, Sink.buf_log_plain _ _, by simpa using hout⟩
      simp [hok]
  | false =>
      cases hinfo : s.writeInfo with
      | false =>
          refine ⟨rfl, ?_, hplain, ?_⟩
          · simpa using herr
          · simpa using hout
      | true =>
          rcases Sink.logs_log bufCapacity hout m.line with ⟨hok, hlog⟩
          simp only [Bool.false_eq_true, if_false, if_true, hok]
          refine ⟨trivial, by simpa using herr, hplain, ?_⟩
          split
          · exact Sink.logs_flush hlog
          · exact hlog

/-! ## Runs -/

/-- What holds between any two steps of a run without I/O errors. -/
structure Inv (s : State) : Prop where
  fifo : s.accepted = s.taken.map Prod.fst ++ s.queue
  fresh : s.pc = .starting → s.taken = [] ∧ s.err.lines = 0 ∧ s.out.lines = 0
  works : s.pc ≠ .refused ∧ s.pc ≠ .panicked
  err : s.pc ≠ .starting → s.err.Logs (errLines s.taken) ∧ s.err.buf = []
  out : s.pc ≠ .starting → s.out.Logs (outLines s.taken)
  ended : s.pc = .ended → s.queue = [] ∧ s.closed = true ∧ s.out.buf = []

theorem init_inv (err out : Sink) : Inv (initial err out) :=
  ⟨rfl, fun _ => ⟨rfl, rfl, rfl⟩, ⟨nofun, nofun⟩, fun h => absurd rfl h, fun h => absurd rfl h, nofun⟩

theorem Sink.rename_lines (s : Sink) : s.rename.lines = s.lines := by
  unfold Sink.rename
  split <;> rfl

theorem receive_frame (s : State) (m : Message) (rest : List Message) (io : LineIo) :
    Quiet (s.received m rest) (toFile (console (s.received m rest) m io.console) m io) ∧
    ((toFile (console (s.received m rest) m io.console) m io).pc = s.pc ∨
      (toFile (console (s.received m rest) m io.console) m io).pc = .panicked) := by
  rcases console_frame (s.received m rest) m io.console with ⟨hshown, hpc, -⟩
  rcases toFile_frame (console (s.received m rest) m io.console) m io with ⟨hfile, hpc'⟩
  rw [hpc] at hpc'
  exact ⟨⟨hfile.queue.trans hshown.queue, hfile.closed.trans hshown.closed,
    hfile.flushNotified.trans hshown.flushNotified,
    hfile.shutdownNotified.trans hshown.shutdownNotified, hfile.accepted.trans hshown.accepted,
    hfile.taken.trans hshown.taken⟩, hpc'⟩

/-- The worker takes a line out of the queue. -/
theorem inv_line {s : State} {m : Message} {rest : List Message} (hi : Inv s)
    (hpc : s.pc = .running) (hqueue : s.queue = m :: rest) :
    Inv (toFile (console (s.received m rest) m .ok) m .done) := by
  have hstarted : s.pc ≠ .starting := by simp [hpc]
  rcases hi.err hstarted with ⟨herr, hplain⟩
  have hout := hi.out hstarted
  rcases console_frame (s.received m rest) m .ok with ⟨-, hpc', herr', hout', hinfo⟩
  rw [show s.err = (console (s.received m rest) m .ok).err from herr'.symm] at herr hplain
  rw [show s.out = (console (s.received m rest) m .ok).out from hout'.symm] at hout
  rcases toFile_done m herr hplain hout with ⟨hrun, herrLog, hplain', houtLog⟩
  have hframe : Quiet (s.received m rest) (toFile (console (s.received m rest) m .ok) m .done) :=
    (receive_frame s m rest .done).1
  rw [hpc'.trans hpc] at hrun
  rw [hinfo] at houtLog
  refine ⟨?_, fun h => ?_, ?_, fun _ => ⟨?_, hplain'⟩, fun _ => ?_, fun h => ?_⟩
  · refine hframe.accepted.trans ?_
    rw [hframe.taken, hframe.queue]
    show s.accepted = (s.taken ++ [(m, s.writeInfo)]).map Prod.fst ++ rest
    rw [hi.fifo, hqueue]
    simp
  · cases hrun.symm.trans h
  · rw [hrun]
    exact ⟨nofun, nofun⟩
  · rw [hframe.taken]
    show Sink.Logs _ (errLines (s.taken ++ [(m, s.writeInfo)]))
    rwa [errLines_snoc]
  · rw [hframe.taken]
    show Sink.Logs _ (outLines (s.taken ++ [(m, s.writeInfo)]))
    rwa [outLines_snoc]
  · cases hrun.symm.trans h

theorem step_inv {s s' : State} {a : Action} (hi : Inv s) (hworks : Works s a)
    (hs : step s a = some s') : Inv s' := by
  cases a with
  | log m =>
      simp only [step] at hs
      split at hs
      · rename_i hopen
        obtain rfl := Option.some.inj hs
        refine ⟨?_, hi.fresh, hi.works, hi.err, hi.out, fun h => ?_⟩
        · show s.accepted ++ [m] = s.taken.map Prod.fst ++ (s.queue ++ [m])
          rw [hi.fifo, List.append_assoc]
        · -- nobody sends to a worker that has ended
          have halive := hopen.2.2
          rw [show s.pc = .ended from h] at halive
          cases halive
      · obtain rfl := Option.some.inj hs
        exact hi
  | flush | shutdown | setWriteInfo enabled | setFlush enabled | setConsoleLevel level =>
      obtain rfl := Option.some.inj hs
      exact ⟨hi.fifo, hi.fresh, hi.works, hi.err, hi.out, hi.ended⟩
  | start result =>
      obtain rfl : result = .ok := hworks
      simp only [step, Option.ite_none_right_eq_some, Option.some.injEq] at hs
      rcases hs with ⟨hpc, rfl⟩
      rcases hi.fresh hpc with ⟨htaken, herr, hout⟩
      refine ⟨hi.fifo, nofun, ⟨nofun, nofun⟩, fun _ => ⟨?_, rfl⟩, fun _ => ?_, nofun⟩
      · show Sink.Logs _ (errLines s.taken)
        rw [htaken]
        exact Sink.logs_create _ ((Sink.rename_lines _).trans herr)
      · show Sink.Logs _ (outLines s.taken)
        rw [htaken]
        exact Sink.logs_create _ ((Sink.rename_lines _).trans hout)
  | line io =>
      obtain rfl : io = .done := hworks
      simp only [step] at hs
      split at hs
      · rename_i m rest hqueue
        simp only [Option.ite_none_right_eq_some, Option.some.injEq] at hs
        rcases hs with ⟨hpc, rfl⟩
        exact inv_line hi hpc hqueue
      · cases hs
  | finish err out =>
      obtain ⟨rfl, rfl⟩ : err = .ok ∧ out = .ok := hworks
      simp only [step, Option.ite_none_right_eq_some, Option.some.injEq] at hs
      rcases hs with ⟨⟨hpc, hqueue, hclosed⟩, rfl⟩
      have hstarted : s.pc ≠ .starting := by simp [hpc]
      exact ⟨hi.fifo, nofun, ⟨nofun, nofun⟩, fun _ => ⟨Sink.logs_flush (hi.err hstarted).1, rfl⟩,
        fun _ => Sink.logs_flush (hi.out hstarted), fun _ => ⟨hqueue, hclosed, rfl⟩⟩
  | flushed io =>
      obtain rfl : io = .ok := hworks
      simp only [step, Option.ite_none_right_eq_some, Option.some.injEq] at hs
      rcases hs with ⟨⟨hpc, -⟩, rfl⟩
      refine ⟨hi.fifo, fun h => ?_, hi.works, hi.err, fun h => Sink.logs_flush (hi.out h), fun h => ?_⟩
      · rw [show s.pc = .starting from h] at hpc
        cases hpc
      · rw [show s.pc = .ended from h] at hpc
        cases hpc
  | close =>
      simp only [step, Option.ite_none_right_eq_some, Option.some.injEq] at hs
      rcases hs with ⟨⟨hpc, -⟩, rfl⟩
      refine ⟨hi.fifo, hi.fresh, hi.works, hi.err, hi.out, fun h => ?_⟩
      rw [show s.pc = .ended from h] at hpc
      cases hpc

theorem inv_of_reach {s : State} (h : machine.Reach Works s) : Inv s := by
  refine Machine.Reach.invariant ?_ ?_ h
  · rintro s ⟨err, out, rfl⟩
    exact init_inv err out
  · intro s a s' hi hworks hs
    exact step_inv hi hworks hs

/-- In every state of every run without I/O errors: the lines taken out of the channel and
those still in it are the lines accepted, in order and once each; and the files of the
worker hold the last of the lines taken that go to them, where only what a rotation
overwrites is gone. What is below a warning goes to `log_out` while `write_info` is on. -/
theorem log_delivered {s : State} (h : machine.Reach Works s) :
    s.accepted = s.taken.map Prod.fst ++ s.queue ∧
    (s.pc ≠ .starting → s.err.Recent (errLines s.taken) ∧ s.err.buf = [] ∧
      s.out.Recent (outLines s.taken)) := by
  have hi := inv_of_reach h
  refine ⟨hi.fifo, ?_⟩
  intro hstarted
  rcases hi.err hstarted with ⟨herr, hplain⟩
  exact ⟨herr.recent, hplain, (hi.out hstarted).recent⟩

/-- The files of an earlier run. -/
def earlierOut : Sink := ⟨some [1], some [2], [], 7⟩

def note : Message := ⟨.info, [110]⟩

def failure : Message := ⟨.error, [102]⟩

/-- Two lines are sent before the worker has begun; the error is still in the channel. -/
theorem log_delivered_two :
    ∃ s : State, machine.Reach Works s ∧ s.pc = .running ∧ s.queue = [failure] ∧
      s.out = ⟨some [2], some [], [110, 10], 1⟩ ∧
      s.accepted = s.taken.map Prod.fst ++ [failure] ∧ s.out.Recent (outLines s.taken) := by
  obtain ⟨s, hs, hpc, hqueue, hout⟩ := Machine.reach_of_runIf (M := machine) Works
    ⟨⟨none, none, [], 0⟩, earlierOut, rfl⟩ [.log note, .log failure, .start .ok, .line .done]
    (fun s => s.pc = .running ∧ s.queue = [failure] ∧ s.out = ⟨some [2], some [], [110, 10], 1⟩)
    (by decide)
  rcases log_delivered hs with ⟨hfifo, hfiles⟩
  rw [hqueue] at hfifo
  exact ⟨s, hs, hpc, hqueue, hout, hfifo, (hfiles (by simp [hpc])).2.2⟩

/-! ## Shutdown -/

/-- The action is one of the worker. -/
def Action.byWorker : Action → Bool
  | .start _ | .line _ | .finish _ _ | .flushed _ | .close => true
  | _ => false

/-- The worker takes the step, without I/O errors. -/
def ByWorker (s : State) (a : Action) : Prop := a.byWorker = true ∧ Works s a

/-- `Logger::shutdown` has been called and `close` has not undone it. -/
def State.Stopping (s : State) : Prop := s.shutdownNotified = true ∨ s.closed = true

def Pc.load : Pc → Nat
  | .starting => 2
  | .running => 1
  | _ => 0

/-- What the worker still has to do. -/
def State.load (s : State) : Nat :=
  s.queue.length + s.flushNotified.toNat + s.shutdownNotified.toNat + s.pc.load

/-- Every step of the worker is one thing less to do. -/
theorem worker_step {s s' : State} {a : Action} (ha : ByWorker s a) (hs : step s a = some s') :
    s'.load < s.load ∧ s'.accepted = s.accepted ∧ (s.Stopping → s'.Stopping) := by
  rcases ha with ⟨hworker, hworks⟩
  unfold State.load
  cases a with
  | log m | flush | shutdown | setWriteInfo enabled | setFlush enabled | setConsoleLevel level =>
      cases hworker
  | start result =>
      obtain rfl : result = .ok := hworks
      simp only [step, Option.ite_none_right_eq_some, Option.some.injEq] at hs
      rcases hs with ⟨hpc, rfl⟩
      refine ⟨?_, rfl, id⟩
      simp [begin, hpc, Pc.load]
  | line io =>
      simp only [step] at hs
      split at hs
      · rename_i m rest hqueue
        simp only [Option.ite_none_right_eq_some, Option.some.injEq] at hs
        rcases hs with ⟨hpc, rfl⟩
        rcases receive_frame s m rest io with ⟨hframe, hpc'⟩
        refine ⟨?_, hframe.accepted, ?_⟩
        · have hload : (toFile (console (s.received m rest) m io.console) m io).pc.load ≤
              s.pc.load := by
            rcases hpc' with hpc' | hpc'
            · rw [hpc']
            · rw [hpc']
              exact Nat.zero_le _
          rw [hframe.queue, hframe.flushNotified, hframe.shutdownNotified, hqueue]
          show rest.length + s.flushNotified.toNat + s.shutdownNotified.toNat + _ < _
          simp only [List.length_cons]
          omega
        · unfold State.Stopping
          rw [hframe.shutdownNotified, hframe.closed]
          exact id
      · cases hs
  | finish err out =>
      simp only [step, Option.ite_none_right_eq_some, Option.some.injEq] at hs
      rcases hs with ⟨⟨hpc, -, -⟩, rfl⟩
      exact ⟨by simp [hpc, Pc.load], rfl, id⟩
  | flushed io =>
      simp only [step, Option.ite_none_right_eq_some, Option.some.injEq] at hs
      rcases hs with ⟨⟨-, hflush⟩, rfl⟩
      exact ⟨by simp [hflush], rfl, id⟩
  | close =>
      simp only [step, Option.ite_none_right_eq_some, Option.some.injEq] at hs
      rcases hs with ⟨⟨-, hshutdown⟩, rfl⟩
      exact ⟨by simp [hshutdown], rfl, fun _ => .inr rfl⟩

/-- A notified worker that has not ended has something to do. -/
theorem worker_enabled {s : State} (hi : Inv s) (hstop : s.Stopping) :
    s.pc = .ended ∨ ∃ a s', ByWorker s a ∧ step s a = some s' := by
  cases hpc : s.pc with
  | starting => exact .inr ⟨.start .ok, _, ⟨rfl, rfl⟩, if_pos hpc⟩
  | ended => exact .inl rfl
  | refused => exact absurd hpc hi.works.1
  | panicked => exact absurd hpc hi.works.2
  | running =>
      right
      cases hqueue : s.queue with
      | cons m rest =>
          refine ⟨.line .done, toFile (console (s.received m rest) m .ok) m .done, ⟨rfl, rfl⟩, ?_⟩
          simp only [step, hqueue]
          exact if_pos hpc
      | nil =>
          by_cases hclosed : s.closed = true
          · exact ⟨.finish .ok .ok, _, ⟨rfl, rfl, rfl⟩, if_pos ⟨hpc, hqueue, hclosed⟩⟩
          · exact ⟨.close, _, ⟨rfl, trivial⟩, if_pos ⟨hpc, hstop.resolve_right hclosed⟩⟩

/-- After `Logger::shutdown` has notified the worker, in every run without I/O errors: left
to itself, whatever its `select!` picks, the worker takes finitely many steps and is never
stuck before its end, and then it has taken every line that had been accepted, nothing is
left in a buffer, and the files hold the last of the lines that go to them. -/
theorem shutdown_drains {s : State} (h : machine.Reach Works s) (hstop : s.Stopping) :
    ¬ machine.Endless ByWorker s ∧
    ∀ s', (machine.startAt s).Reach ByWorker s' →
      (∃ a s'', ByWorker s' a ∧ step s' a = some s'') ∨
      (s'.pc = .ended ∧ s'.taken.map Prod.fst = s.accepted ∧ s'.err.buf = [] ∧ s'.out.buf = [] ∧
        s'.err.Recent (errLines s'.taken) ∧ s'.out.Recent (outLines s'.taken)) := by
  constructor
  · refine Machine.not_endless (InvImage.wf State.load Nat.lt_wfRel.wf) id ?_ s
    intro s a s' ha hs
    exact (worker_step ha hs).1
  · intro s' hs'
    have hkeep : Inv s' ∧ s'.Stopping ∧ s'.accepted = s.accepted := by
      refine Machine.Reach.invariant (I := fun t => Inv t ∧ t.Stopping ∧ t.accepted = s.accepted)
        ?_ ?_ hs'
      · rintro _ rfl
        exact ⟨inv_of_reach h, hstop, rfl⟩
      · intro t a t' ht ha hstep
        rcases worker_step ha hstep with ⟨-, haccepted, hstopping⟩
        exact ⟨step_inv ht.1 ha.2 hstep, hstopping ht.2.1, haccepted.trans ht.2.2⟩
    rcases hkeep with ⟨hi, hstop', haccepted⟩
    rcases worker_enabled hi hstop' with hpc | hmore
    · right
      have hstarted : s'.pc ≠ .starting := by simp [hpc]
      rcases hi.ended hpc with ⟨hqueue, -, hbuf⟩
      rcases hi.err hstarted with ⟨herr, hplain⟩
      refine ⟨hpc, ?_, hplain, hbuf, herr.recent, (hi.out hstarted).recent⟩
      rw [← haccepted, hi.fifo, hqueue, List.append_nil]
    · exact .inl hmore

/-- The shutdown comes before either line has been taken. -/
theorem shutdown_drains_two :
    ∃ s : State, machine.Reach Works s ∧ s.taken = [] ∧ s.accepted = [note, failure] ∧
      ¬ machine.Endless ByWorker s := by
  obtain ⟨s, hs, htaken, haccepted, hstop⟩ := Machine.reach_of_runIf (M := machine) Works
    ⟨⟨none, none, [], 0⟩, earlierOut, rfl⟩ [.log note, .start .ok, .log failure, .shutdown]
    (fun s => s.taken = [] ∧ s.accepted = [note, failure] ∧ s.shutdownNotified = true) (by decide)
  exact ⟨s, hs, htaken, haccepted, (shutdown_drains hs (.inl hstop)).1⟩

end Hath.Logger
