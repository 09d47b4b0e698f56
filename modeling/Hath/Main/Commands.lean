import Mathlib.Data.Fintype.Defs
import Mathlib.Logic.Function.Basic
import Hath.Lib.Bursts
import Hath.Lib.Channel
import Hath.Lib.Machine

/-!
# Hath.Main.Commands — the command listener

Server commands and the connection counter send commands through a channel of capacity
one; the listener of `main` takes them one by one. A certificate that could not be fetched
or installed is tried again after ten seconds, by a task that sends the command anew. The
gallery downloader is a task of its own, kept in a slot that it clears at its end and whose
task the shutdown aborts; a task that panics does not get to its end.

A step is one access to what the tasks share, or one event from outside; time passes in
between. The calls of the RPC client may take any time, and come back without a panic.

* `reload_conserved` — every command is taken once and in order, and every certificate
  reload that was asked for has been done or is still to come;
* `one_downloader` — at most one downloader runs, and none after the shutdown has aborted it;
* `overload_spaced` — the server is told of overload at most every thirty seconds, in at
  most three requests.
-/

namespace Hath.Commands

open Lib

/-! ## State -/

/-- `Command`. -/
inductive Command where
  | reloadCert
  | refreshSettings
  | startDownloader
  | overload
deriving DecidableEq, Repr

/-- A command on its way, and whether a retry has sent it. -/
structure Message where
  command : Command
  retry : Bool
deriving DecidableEq, Repr

/-- Where the listener stands. -/
inductive Pc where
  | receiving
  /-- In `get_cert`, before `update_cert`. -/
  | reloading
  | refreshing
  /-- Before the lock of the slot. -/
  | locking
  /-- Before `last_overload.elapsed()`. -/
  | checking
  /-- Before `last_overload = Instant::now()`. -/
  | stamping
  /-- In `notify_overload`, which has sent that many requests. -/
  | notifying (sent : Nat)
deriving DecidableEq, Repr

/-- The branch of a command. -/
def Command.pc : Command → Pc
  | .reloadCert => .reloading
  | .refreshSettings => .refreshing
  | .startDownloader => .locking
  | .overload => .checking

/-- A downloader task. -/
inductive JobPc where
  /-- In `new.run()`. -/
  | running
  /-- Before `*downloader3.lock() = None`. -/
  | clearing
  | ended
  | aborted
  /-- `run` has panicked; the slot is not cleared. -/
  | panicked
deriving DecidableEq, Repr

/-- The slot, with the number of the task in it, and all tasks so far. -/
structure Jobs where
  slot : Option Nat
  tasks : Nat → JobPc
  started : Nat

namespace Jobs

/-- `Command::StartDownloader`, under the lock. -/
def start (j : Jobs) : Jobs :=
  match j.slot with
  | none =>
      { slot := some j.started
        tasks := Function.update j.tasks j.started .running
        started := j.started + 1 }
  | some _ => j

def runEnds (j : Jobs) (id : Nat) : Jobs :=
  { j with tasks := Function.update j.tasks id .clearing }

def clear (j : Jobs) (id : Nat) : Jobs :=
  { j with slot := none, tasks := Function.update j.tasks id .ended }

def panics (j : Jobs) (id : Nat) : Jobs :=
  { j with tasks := Function.update j.tasks id .panicked }

/-- `job.abort()` in the shutdown: a task that is past its last `await` goes on. -/
def abort (j : Jobs) : Jobs :=
  match j.slot with
  | some id => if j.tasks id = .running then
      { j with tasks := Function.update j.tasks id .aborted } else j
  | none => j

/-- The task is alive. -/
def Live (j : Jobs) (id : Nat) : Prop := j.tasks id = .running ∨ j.tasks id = .clearing

/-- The task is over, and the slot has not been cleared. -/
def Dead (j : Jobs) (id : Nat) : Prop := j.tasks id = .aborted ∨ j.tasks id = .panicked

end Jobs

/-- Nanoseconds. -/
def seconds (n : Nat) : Nat := n * 1000000000

/-- The listener and what it works with; `sleeping` are the ends of the sleeps of the
retries. Nothing reads `admitted`, `taken`, `updated` and `overloads`: what got into the
channel and what was taken out, how many certificates were installed, and the notices of
overload with the times of their requests, the latest first. -/
structure State where
  now : Nat
  channel : Channel Message
  pc : Pc
  sleeping : List Nat
  lastOverload : Nat
  jobs : Jobs
  admitted : List Message
  taken : List Message
  updated : Nat
  overloads : List Burst

inductive Action where
  /-- A server command sends. -/
  | request (command : Command)
  /-- A server command is dropped while it waits for room. -/
  | cancel (i : Nat)
  /-- The connection counter has found too many connections. -/
  | overload
  /-- A waiting sender gets in. -/
  | acquire
  | recv
  /-- `get_cert` and `update_cert` have been done, or one of them has failed. -/
  | reload (works : Bool)
  | refresh
  | startDownloader
  | check
  | stamp
  /-- `send_action` sends the request. -/
  | notify
  | notified
  /-- A retry has slept. -/
  | wake (i : Nat)
  | runEnds (id : Nat)
  | clear (id : Nat)
  | panics (id : Nat)
  /-- The shutdown aborts the downloader. -/
  | abort
  | tick (n : Nat)
deriving DecidableEq, Repr

/-! ## Steps -/

/-- `mpsc::channel::<Command>(1)`. -/
def capacity : Nat := 1

/-- How often `send_action` sends a request at most. -/
def attempts : Nat := 3

def step (s : State) : Action → Option State
  | .request command =>
      -- `overload` comes from the connection counter only
      if command ≠ .overload then some { s with channel := s.channel.send ⟨command, false⟩ }
      else none
  | .cancel i =>
      if ∃ m ∈ s.channel.waiting[i]?, m.retry = false then
        some { s with channel := s.channel.cancel i }
      else none
  | .overload =>
      match s.channel.trySend capacity ⟨.overload, false⟩ with
      | some channel => some { s with channel, admitted := s.admitted ++ [⟨.overload, false⟩] }
      | none => some s
  | .acquire =>
      match s.channel.acquire capacity with
      | some (m, channel) => some { s with channel, admitted := s.admitted ++ [m] }
      | none => none
  | .recv =>
      match s.channel.recv with
      | some (m, channel) =>
          if s.pc = .receiving then
            some { s with channel, pc := m.command.pc, taken := s.taken ++ [m] }
          else none
      | none => none
  | .reload works =>
      if s.pc = .reloading then
        if works then some { s with pc := .receiving, updated := s.updated + 1 }
        else some { s with pc := .receiving, sleeping := s.sleeping ++ [s.now + seconds 10] }
      else none
  | .refresh => if s.pc = .refreshing then some { s with pc := .receiving } else none
  | .startDownloader =>
      if s.pc = .locking then some { s with pc := .receiving, jobs := s.jobs.start } else none
  | .check =>
      if s.pc = .checking then
        some { s with
          pc := if seconds 30 < s.now - s.lastOverload then .stamping else .receiving }
      else none
  | .stamp =>
      if s.pc = .stamping then
        some { s with
          pc := .notifying 0, lastOverload := s.now, overloads := ⟨s.now, []⟩ :: s.overloads }
      else none
  | .notify =>
      match s.pc, s.overloads with
      | .notifying sent, notice :: before =>
          if sent < attempts then
            some { s with
              pc := .notifying (sent + 1)
              overloads := ⟨notice.began, s.now :: notice.times⟩ :: before }
          else none
      | _, _ => none
  | .notified =>
      match s.pc with
      | .notifying sent => if sent ≠ 0 then some { s with pc := .receiving } else none
      | _ => none
  | .wake i =>
      if ∃ t ∈ s.sleeping[i]?, t ≤ s.now then
        some { s with
          sleeping := s.sleeping.eraseIdx i
          channel := s.channel.send ⟨.reloadCert, true⟩ }
      else none
  | .runEnds id =>
      if s.jobs.tasks id = .running then some { s with jobs := s.jobs.runEnds id } else none
  | .clear id =>
      if s.jobs.tasks id = .clearing then some { s with jobs := s.jobs.clear id } else none
  | .panics id =>
      if s.jobs.tasks id = .running then some { s with jobs := s.jobs.panics id } else none
  | .abort => some { s with jobs := s.jobs.abort }
  | .tick n => some { s with now := s.now + n }

/-- The start of the listener, some time after the clock's; without a downloader. -/
def initial (now : Nat) : State where
  now := now
  channel := .empty
  pc := .receiving
  sleeping := []
  lastOverload := if seconds 30 ≤ now then now - seconds 30 else now
  jobs := ⟨none, fun _ => .ended, 0⟩
  admitted := []
  taken := []
  updated := 0
  overloads := []

def machine : Machine State Action where
  init s := ∃ now, s = initial now
  step := step

section

variable {s s' : State}

theorem notify_cases (h : step s .notify = some s') :
    ∃ sent notice before, s.pc = .notifying sent ∧ s.overloads = notice :: before ∧
      sent < attempts ∧ s' = { s with
        pc := .notifying (sent + 1)
        overloads := ⟨notice.began, s.now :: notice.times⟩ :: before } := by
  simp only [step] at h
  split at h
  · rename_i sent notice before hpc hoverloads
    simp only [Option.ite_none_right_eq_some, Option.some.injEq] at h
    rcases h with ⟨hsent, rfl⟩
    exact ⟨sent, notice, before, hpc, hoverloads, hsent, rfl⟩
  · cases h

theorem notified_cases (h : step s .notified = some s') :
    ∃ sent, s.pc = .notifying sent ∧ sent ≠ 0 ∧ s' = { s with pc := .receiving } := by
  simp only [step] at h
  split at h
  · rename_i sent hpc
    simp only [Option.ite_none_right_eq_some, Option.some.injEq] at h
    rcases h with ⟨hsent, rfl⟩
    exact ⟨sent, hpc, hsent, rfl⟩
  · cases h

end

/-! ## Certificate reloads -/

/-- A reload, whoever sends it. -/
def Message.isReload (m : Message) : Bool := m.command = .reloadCert

/-- The reloads that server commands have got into the channel. -/
def State.asked (s : State) : Nat := s.admitted.countP fun m => m.isReload && !m.retry

/-- The reloads that are still to be done: in the channel, in the hands of the listener, or
with a retry. -/
def State.owed (s : State) : Nat :=
  s.channel.queue.countP Message.isReload + (if s.pc = .reloading then 1 else 0) +
    s.sleeping.length + s.channel.waiting.countP Message.retry

structure Conserved (s : State) : Prop where
  fifo : s.admitted = s.taken ++ s.channel.queue
  bounded : s.channel.Bounded capacity
  retries : ∀ m ∈ s.channel.waiting, m.retry = true → m.isReload = true
  reloads : s.asked = s.updated + s.owed

theorem initial_conserved (now : Nat) : Conserved (initial now) :=
  ⟨rfl, Channel.bounded_empty, fun _ h => absurd h List.not_mem_nil, rfl⟩

/-- A listener that goes back to the channel, except after a reload. -/
theorem Conserved.receiving {s : State} (h : Conserved s) {pc : Pc} (hbefore : s.pc ≠ .reloading)
    (hafter : pc ≠ .reloading) : Conserved { s with pc } := by
  refine ⟨h.fifo, h.bounded, h.retries, ?_⟩
  have := h.reloads
  unfold State.asked State.owed at this ⊢
  rw [if_neg hbefore] at this
  rw [if_neg hafter]
  exact this

/-- A sender begins to wait. -/
theorem Conserved.send {s : State} (h : Conserved s) (m : Message)
    (hretry : m.retry = true → m.isReload = true) {sleeping : List Nat}
    (hsleeping : sleeping.length + m.retry.toNat = s.sleeping.length) :
    Conserved { s with sleeping, channel := s.channel.send m } := by
  refine ⟨h.fifo, h.bounded, ?_, ?_⟩
  · intro m' hm' hr
    rcases List.mem_append.mp hm' with hm' | hm'
    · exact h.retries m' hm' hr
    · rw [List.mem_singleton.mp hm'] at hr ⊢
      exact hretry hr
  · have hreloads := h.reloads
    unfold State.asked State.owed at hreloads ⊢
    rw [hreloads, Channel.send_waiting, Channel.send_queue, List.countP_append]
    cases hm : m.retry <;> simp [hm] at hsleeping ⊢ <;> omega

/-- Something gets into the channel. -/
theorem Conserved.admitted {s : State} (h : Conserved s) {m : Message} {channel : Channel Message}
    (hqueue : channel.queue = s.channel.queue ++ [m]) (hbounded : channel.Bounded capacity)
    (hwaiting : s.channel.waiting = m :: channel.waiting ∨
      (channel.waiting = s.channel.waiting ∧ m.isReload = false)) :
    Conserved { s with channel, admitted := s.admitted ++ [m] } := by
  have hfifo : s.admitted ++ [m] = s.taken ++ channel.queue := by
    rw [hqueue, h.fifo, List.append_assoc]
  have hreloads := h.reloads
  unfold State.asked State.owed at hreloads
  rcases hwaiting with hwaiting | ⟨hwaiting, hm⟩
  · have hretry := h.retries m (by rw [hwaiting]; exact List.mem_cons_self)
    refine ⟨hfifo, hbounded, fun m' hm' => h.retries m' ?_, ?_⟩
    · rw [hwaiting]
      exact List.mem_cons_of_mem _ hm'
    · unfold State.asked State.owed
      rw [hqueue, List.countP_append, List.countP_append, hreloads, hwaiting, List.countP_cons]
      -- a retry is counted before and after, any other sender from now on
      cases hr : m.retry with
      | true =>
          simp [hr, hretry hr]
          omega
      | false =>
          cases hc : m.isReload <;> simp [hr, hc]
          omega
  · refine ⟨hfifo, hbounded, fun m' hm' => h.retries m' (hwaiting ▸ hm'), ?_⟩
    unfold State.asked State.owed
    rw [hqueue, List.countP_append, List.countP_append, hreloads, hwaiting]
    simp [hm]

/-- The listener takes a command. -/
theorem Conserved.taken {s : State} (h : Conserved s) (hpc : s.pc = .receiving) {m : Message}
    {channel : Channel Message} (hrecv : s.channel.recv = some (m, channel)) :
    Conserved { s with channel, pc := m.command.pc, taken := s.taken ++ [m] } := by
  rcases Channel.queue_of_recv hrecv with ⟨hqueue, hwaiting, hbounded⟩
  refine ⟨?_, hbounded h.bounded, fun m' hm' => h.retries m' (hwaiting ▸ hm'), ?_⟩
  · show s.admitted = s.taken ++ [m] ++ channel.queue
    rw [h.fifo, hqueue, List.append_assoc]
    rfl
  · have hreloads := h.reloads
    unfold State.asked State.owed at hreloads ⊢
    have hbranch : (if m.command.pc = .reloading then 1 else 0) = m.isReload.toNat := by
      unfold Message.isReload
      cases m.command <;> rfl
    rw [if_neg (by simp [hpc]), hqueue, List.countP_cons] at hreloads
    rw [hreloads, hwaiting, hbranch]
    cases hm : m.isReload <;> simp

theorem step_conserved {s s' : State} {a : Action} (hi : Conserved s) (h : step s a = some s') :
    Conserved s' := by
  cases a with
  | request command =>
      simp only [step, Option.ite_none_right_eq_some, Option.some.injEq] at h
      rcases h with ⟨-, rfl⟩
      exact hi.send ⟨command, false⟩ (fun h => absurd h Bool.false_ne_true) rfl
  | cancel i =>
      simp only [step, Option.ite_none_right_eq_some, Option.some.injEq] at h
      rcases h with ⟨⟨m, hm, hretry⟩, rfl⟩
      refine ⟨hi.fifo, hi.bounded, fun m' hm' => hi.retries m' (List.mem_of_mem_eraseIdx hm'), ?_⟩
      have hreloads := hi.reloads
      unfold State.asked State.owed at hreloads ⊢
      dsimp only
      rw [Channel.countP_cancel hm hretry]
      exact hreloads
  | overload =>
      simp only [step] at h
      split at h
      · rename_i channel hsend
        cases h
        rcases Channel.queue_of_trySend hsend with ⟨hqueue, hwaiting, hbounded⟩
        exact hi.admitted hqueue hbounded (.inr ⟨hwaiting, rfl⟩)
      · cases h
        exact hi
  | acquire =>
      simp only [step] at h
      split at h
      · rename_i m channel hadmit
        cases h
        rcases Channel.queue_of_acquire hadmit with ⟨hqueue, hwaiting, hbounded⟩
        exact hi.admitted hqueue hbounded (.inl hwaiting)
      · cases h
  | recv =>
      simp only [step] at h
      split at h
      · rename_i m channel hrecv
        simp only [Option.ite_none_right_eq_some, Option.some.injEq] at h
        rcases h with ⟨hpc, rfl⟩
        exact hi.taken hpc hrecv
      · cases h
  | reload works =>
      simp only [step, Option.ite_none_right_eq_some] at h
      rcases h with ⟨hpc, h⟩
      have hreloads := hi.reloads
      unfold State.asked State.owed at hreloads
      rw [if_pos hpc] at hreloads
      split at h
      all_goals
        cases h
        refine ⟨hi.fifo, hi.bounded, hi.retries, ?_⟩
        unfold State.asked State.owed
        simp only [hreloads, reduceCtorEq, if_false, List.length_append, List.length_singleton]
        omega
  | refresh =>
      simp only [step, Option.ite_none_right_eq_some, Option.some.injEq] at h
      rcases h with ⟨hpc, rfl⟩
      exact hi.receiving (by simp [hpc]) (by simp)
  | startDownloader =>
      simp only [step, Option.ite_none_right_eq_some, Option.some.injEq] at h
      rcases h with ⟨hpc, rfl⟩
      have : Conserved { s with pc := .receiving } := hi.receiving (by simp [hpc]) (by simp)
      exact ⟨this.fifo, this.bounded, this.retries, this.reloads⟩
  | check =>
      simp only [step, Option.ite_none_right_eq_some, Option.some.injEq] at h
      rcases h with ⟨hpc, rfl⟩
      exact hi.receiving (by simp [hpc]) (by split <;> simp)
  | stamp =>
      simp only [step, Option.ite_none_right_eq_some, Option.some.injEq] at h
      rcases h with ⟨hpc, rfl⟩
      have : Conserved { s with pc := .notifying 0 } := hi.receiving (by simp [hpc]) (by simp)
      exact ⟨this.fifo, this.bounded, this.retries, this.reloads⟩
  | notify =>
      rcases notify_cases h with ⟨sent, notice, before, hpc, -, -, rfl⟩
      have : Conserved { s with pc := .notifying (sent + 1) } :=
        hi.receiving (by simp [hpc]) (by simp)
      exact ⟨this.fifo, this.bounded, this.retries, this.reloads⟩
  | notified =>
      rcases notified_cases h with ⟨sent, hpc, -, rfl⟩
      exact hi.receiving (by simp [hpc]) (by simp)
  | wake i =>
      simp only [step, Option.ite_none_right_eq_some, Option.some.injEq] at h
      rcases h with ⟨⟨t, ht, -⟩, rfl⟩
      refine hi.send ⟨.reloadCert, true⟩ (fun _ => rfl) ?_
      have hlt : i < s.sleeping.length := (List.getElem?_eq_some_iff.mp ht).1
      show (s.sleeping.eraseIdx i).length + 1 = s.sleeping.length
      rw [List.length_eraseIdx_of_lt hlt]
      omega
  | runEnds id =>
      simp only [step, Option.ite_none_right_eq_some, Option.some.injEq] at h
      rcases h with ⟨-, rfl⟩
      exact ⟨hi.fifo, hi.bounded, hi.retries, hi.reloads⟩
  | clear id | panics id =>
      simp only [step, Option.ite_none_right_eq_some, Option.some.injEq] at h
      rcases h with ⟨-, rfl⟩
      exact ⟨hi.fifo, hi.bounded, hi.retries, hi.reloads⟩
  | abort =>
      cases h
      exact ⟨hi.fifo, hi.bounded, hi.retries, hi.reloads⟩
  | tick n =>
      cases h
      exact ⟨hi.fifo, hi.bounded, hi.retries, hi.reloads⟩

/-- In every reachable state: the commands that got into the channel are those taken out and
the at most one in it, in their order; and of the certificate reloads that server commands
have got into it, each has been done or is in the channel, in the hands of the listener or
with a retry. -/
theorem reload_conserved {s : State} (h : machine.Reachable s) :
    s.admitted = s.taken ++ s.channel.queue ∧ s.channel.queue.length ≤ 1 ∧
      s.asked = s.updated + s.owed := by
  have hi : Conserved s := by
    refine h.invariant ?_ ?_
    · rintro s ⟨now, rfl⟩
      exact initial_conserved now
    · intro s a s' hi hs
      exact step_conserved hi hs
  exact ⟨hi.fifo, hi.bounded, hi.reloads⟩

/-- The certificate could not be fetched; the retry waits behind another reload. -/
theorem reload_conserved_retry : ∃ s, machine.Reachable s ∧ s.updated = 0 ∧
    s.channel.waiting = [⟨.reloadCert, true⟩] ∧ s.asked = 0 + s.owed := by
  obtain ⟨s, hs, hupdated, hwaiting⟩ := Machine.reachable_of_run (M := machine) ⟨0, rfl⟩
    [.request .reloadCert, .acquire, .recv, .reload false, .tick (seconds 10), .request .reloadCert,
      .acquire, .wake 0]
    (fun s => s.updated = 0 ∧ s.channel.waiting = [⟨.reloadCert, true⟩]) (by decide +kernel)
  have hreloads := (reload_conserved hs).2.2
  rw [hupdated] at hreloads
  exact ⟨s, hs, hupdated, hwaiting, hreloads⟩

/-! ## The downloader -/

/-- Who runs is in the slot, and the slot holds a task that runs, clears the slot or is
dead. -/
structure Single (j : Jobs) : Prop where
  slot : ∀ id, j.Live id ∨ j.Dead id → j.slot = some id
  task : ∀ id, j.slot = some id → j.Live id ∨ j.Dead id

namespace Single

variable {j : Jobs}

theorem init : Single ⟨none, fun _ => .ended, 0⟩ := by
  constructor
  · rintro id ((h | h) | (h | h)) <;> cases h
  · intro id h
    cases h

theorem start (h : Single j) : Single j.start := by
  unfold Jobs.start
  split
  · rename_i hslot
    constructor
    · intro id hid
      by_cases heq : id = j.started
      · rw [heq]
      · -- nobody else is alive or dead
        unfold Jobs.Live Jobs.Dead at hid
        simp only [Function.update_of_ne heq] at hid
        have := h.slot id hid
        rw [hslot] at this
        cases this
    · intro id hid
      cases hid
      exact .inl (.inl (Function.update_self ..))
  · exact h

/-- The task in the slot goes on to its next place. -/
theorem move (h : Single j) {id : Nat} (hid : j.Live id) {pc : JobPc}
    (hpc : pc = .clearing ∨ pc = .aborted ∨ pc = .panicked) :
    Single { j with tasks := Function.update j.tasks id pc } := by
  have hslot := h.slot id (.inl hid)
  constructor
  · intro id' hid'
    by_cases heq : id' = id
    · rw [heq]
      exact hslot
    · unfold Jobs.Live Jobs.Dead at hid'
      simp only [Function.update_of_ne heq] at hid'
      exact h.slot id' hid'
  · intro id' hid'
    obtain rfl : id = id' := Option.some.inj (hslot.symm.trans hid')
    unfold Jobs.Live Jobs.Dead
    simp only [Function.update_self]
    rcases hpc with rfl | rfl | rfl <;> simp

theorem clear (h : Single j) {id : Nat} (hid : j.tasks id = .clearing) : Single (j.clear id) := by
  have hslot := h.slot id (.inl (.inr hid))
  constructor
  · intro id' hid'
    unfold Jobs.clear Jobs.Live Jobs.Dead at hid'
    by_cases heq : id' = id
    · simp [heq] at hid'
    · simp only [Function.update_of_ne heq] at hid'
      exact absurd (Option.some.inj ((h.slot id' hid').symm.trans hslot)) heq
  · intro id' hid'
    cases hid'

theorem abort (h : Single j) : Single j.abort := by
  unfold Jobs.abort
  split
  · split
    · rename_i hrunning
      exact h.move (.inl hrunning) (.inr (.inl rfl))
    · exact h
  · exact h

/-- A dead task keeps the slot. -/
theorem not_live (h : Single j) {id' : Nat} (hdead : j.Dead id') (id : Nat) : ¬ j.Live id := by
  intro hid
  have hslot := h.slot id (.inl hid)
  obtain rfl : id = id' := Option.some.inj (hslot.symm.trans (h.slot id' (.inr hdead)))
  unfold Jobs.Live at hid
  rcases hdead with hdead | hdead <;> simp [hdead] at hid

end Single

/-- What a step does to the downloader tasks. -/
theorem step_jobs {s s' : State} {a : Action} (h : step s a = some s') :
    s'.jobs = s.jobs ∨ s'.jobs = s.jobs.start ∨ s'.jobs = s.jobs.abort ∨
      (∃ id, s.jobs.tasks id = .running ∧
        (s'.jobs = s.jobs.runEnds id ∨ s'.jobs = s.jobs.panics id)) ∨
      ∃ id, s.jobs.tasks id = .clearing ∧ s'.jobs = s.jobs.clear id := by
  cases a with
  | startDownloader =>
      simp only [step, Option.ite_none_right_eq_some, Option.some.injEq] at h
      rcases h with ⟨-, rfl⟩
      exact .inr (.inl rfl)
  | abort =>
      cases h
      exact .inr (.inr (.inl rfl))
  | runEnds id =>
      simp only [step, Option.ite_none_right_eq_some, Option.some.injEq] at h
      rcases h with ⟨hid, rfl⟩
      exact .inr (.inr (.inr (.inl ⟨id, hid, .inl rfl⟩)))
  | panics id =>
      simp only [step, Option.ite_none_right_eq_some, Option.some.injEq] at h
      rcases h with ⟨hid, rfl⟩
      exact .inr (.inr (.inr (.inl ⟨id, hid, .inr rfl⟩)))
  | clear id =>
      simp only [step, Option.ite_none_right_eq_some, Option.some.injEq] at h
      rcases h with ⟨hid, rfl⟩
      exact .inr (.inr (.inr (.inr ⟨id, hid, rfl⟩)))
  | overload | acquire =>
      simp only [step] at h
      split at h <;> cases h <;> exact .inl rfl
  | recv =>
      simp only [step] at h
      split at h
      · simp only [Option.ite_none_right_eq_some, Option.some.injEq] at h
        rcases h with ⟨-, rfl⟩
        exact .inl rfl
      · cases h
  | reload works =>
      simp only [step, Option.ite_none_right_eq_some] at h
      rcases h with ⟨-, h⟩
      split at h <;> cases h <;> exact .inl rfl
  | notify =>
      rcases notify_cases h with ⟨_, _, _, -, -, -, rfl⟩
      exact .inl rfl
  | notified =>
      rcases notified_cases h with ⟨_, -, -, rfl⟩
      exact .inl rfl
  | tick n =>
      cases h
      exact .inl rfl
  | request command | cancel i | refresh | check | stamp | wake i =>
      simp only [step, Option.ite_none_right_eq_some, Option.some.injEq] at h
      rcases h with ⟨-, rfl⟩
      exact .inl rfl

theorem step_single {s s' : State} {a : Action} (hi : Single s.jobs) (h : step s a = some s') :
    Single s'.jobs := by
  rcases step_jobs h with h | h | h | ⟨id, hid, h | h⟩ | ⟨id, hid, h⟩
  · exact h ▸ hi
  · exact h ▸ hi.start
  · exact h ▸ hi.abort
  · exact h ▸ hi.move (.inl hid) (.inl rfl)
  · exact h ▸ hi.move (.inl hid) (.inr (.inr rfl))
  · exact h ▸ hi.clear hid

/-- A dead task stays in the slot. -/
theorem step_dead {s s' : State} {a : Action} (hi : Single s.jobs) {id' : Nat}
    (hdead : s.jobs.Dead id') (h : step s a = some s') : s'.jobs = s.jobs := by
  have hlive := hi.not_live hdead
  have hslot := hi.slot id' (.inr hdead)
  rcases step_jobs h with h | h | h | ⟨id, hid, -⟩ | ⟨id, hid, h⟩
  · exact h
  · rw [h, Jobs.start, hslot]
  · have hnot : s.jobs.tasks id' ≠ .running := fun hid => hlive id' (.inl hid)
    rw [h, Jobs.abort, hslot]
    simp [hnot]
  · exact absurd (.inl hid) (hlive id)
  · exact absurd (.inr hid) (hlive id)

/-- In every reachable state at most one downloader runs; the slot is held by a task that is
alive, that the shutdown has aborted or that has panicked, so a start is refused for no other
reason; and once a downloader has been aborted or has panicked, none runs in any later
state. -/
theorem one_downloader {s : State} (h : machine.Reachable s) :
    (∀ id id', s.jobs.Live id → s.jobs.Live id' → id = id') ∧
      (∀ id, s.jobs.slot = some id → s.jobs.Live id ∨ s.jobs.Dead id) ∧
      ∀ id', s.jobs.Dead id' → ∀ s', (machine.startAt s).Reachable s' →
        ∀ id, ¬ s'.jobs.Live id := by
  have hi : Single s.jobs := by
    refine h.invariant (I := fun s => Single s.jobs) ?_ ?_
    · rintro s ⟨now, rfl⟩
      exact .init
    · intro s a s' hi hs
      exact step_single hi hs
  refine ⟨fun id id' hid hid' => ?_, hi.task, fun id' hdead s' hs' => ?_⟩
  · exact Option.some.inj ((hi.slot id (.inl hid)).symm.trans (hi.slot id' (.inl hid')))
  · have hsame : s'.jobs = s.jobs := by
      refine hs'.invariant (I := fun t => t.jobs = s.jobs) ?_ ?_
      · rintro t rfl
        rfl
      · intro t a t' ht hstep
        rw [← ht] at hi hdead
        exact (step_dead hi hdead hstep).trans ht
    rw [hsame]
    exact hi.not_live hdead

/-- The first downloader has ended, the second has panicked, and a third is asked for. -/
theorem one_downloader_panicked : ∃ s, machine.Reachable s ∧ s.jobs.Dead 1 ∧
    s.channel.queue = [⟨.startDownloader, false⟩] ∧
    ∀ s', (machine.startAt s).Reachable s' → ∀ id, ¬ s'.jobs.Live id := by
  obtain ⟨s, hs, hpanicked, hqueue⟩ := Machine.reachable_of_run (M := machine) ⟨0, rfl⟩
    [.request .startDownloader, .acquire, .recv, .startDownloader, .runEnds 0,
      .request .startDownloader, .clear 0, .acquire, .recv, .startDownloader, .panics 1,
      .request .startDownloader, .acquire]
    (fun s => s.jobs.tasks 1 = .panicked ∧ s.channel.queue = [⟨.startDownloader, false⟩])
    (by decide +kernel)
  have hdead : s.jobs.Dead 1 := .inr hpanicked
  exact ⟨s, hs, hdead, hqueue, (one_downloader hs).2.2 1 hdead⟩

/-! ## Overload -/

/-- The notices are spaced; the last of them is under way while the listener says so, and the
present is more than thirty seconds behind its beginning when the next is about to begin. -/
structure Told (s : State) : Prop where
  spaced : Burst.Spaced (seconds 30) attempts s.overloads
  began : ∀ b ∈ s.overloads, b.began ≤ s.lastOverload
  past : ∀ b ∈ s.overloads, ∀ t ∈ b.times, t ≤ s.now
  last : s.lastOverload ≤ s.now
  gap : s.pc = .stamping → s.lastOverload + seconds 30 < s.now
  sent : ∀ n, s.pc = .notifying n → ∀ b ∈ s.overloads.head?, b.times.length = n

/-- A step away from the notices. -/
theorem Told.frame {s s' : State} (h : Told s) (hoverloads : s'.overloads = s.overloads)
    (hlast : s'.lastOverload = s.lastOverload) (hnow : s.now ≤ s'.now)
    (hstamping : s'.pc = .stamping → s.pc = .stamping)
    (hsent : ∀ n, s'.pc = .notifying n → s.pc = .notifying n) : Told s' := by
  refine ⟨?_, ?_, ?_, ?_, ?_, ?_⟩
  · rw [hoverloads]
    exact h.spaced
  · rw [hoverloads, hlast]
    exact h.began
  · rw [hoverloads]
    exact fun b hb t ht => Nat.le_trans (h.past b hb t ht) hnow
  · rw [hlast]
    exact Nat.le_trans h.last hnow
  · intro hpc
    rw [hlast]
    exact Nat.lt_of_lt_of_le (h.gap (hstamping hpc)) hnow
  · intro n hpc
    rw [hoverloads]
    exact h.sent n (hsent n hpc)

/-- A notice begins. -/
theorem Told.stamp {s : State} (h : Told s) (hpc : s.pc = .stamping) :
    Told { s with
      pc := .notifying 0, lastOverload := s.now, overloads := ⟨s.now, []⟩ :: s.overloads } := by
  have hgap := h.gap hpc
  refine ⟨h.spaced.start ?_ h.past, ?_, ?_, Nat.le_refl _, ?_, ?_⟩
  · intro b hb
    have := h.began b hb
    omega
  · intro b hb
    rcases List.mem_cons.mp hb with rfl | hb
    · exact Nat.le_refl _
    · exact Nat.le_trans (h.began b hb) h.last
  · intro b hb
    rcases List.mem_cons.mp hb with rfl | hb
    · intro t ht
      cases ht
    · exact h.past b hb
  · intro hstamping
    cases hstamping
  · rintro n hn b hb
    cases hn
    cases hb
    rfl

/-- A request of the notice is sent. -/
theorem Told.notify {s : State} (h : Told s) {sent : Nat} {notice : Burst} {before : List Burst}
    (hpc : s.pc = .notifying sent) (hoverloads : s.overloads = notice :: before)
    (hsent : sent < attempts) :
    Told { s with
      pc := .notifying (sent + 1)
      overloads := ⟨notice.began, s.now :: notice.times⟩ :: before } := by
  have hspaced := h.spaced
  have hbegan := h.began
  have hpast := h.past
  have hlength := h.sent sent hpc
  rw [hoverloads] at hspaced hbegan hpast hlength
  have hlength : notice.times.length = sent := hlength notice rfl
  have hnotice := hbegan notice List.mem_cons_self
  refine ⟨hspaced.goOn (hlength ▸ hsent) (Nat.le_trans hnotice h.last), ?_, ?_, h.last, ?_, ?_⟩
  · intro b hb
    rcases List.mem_cons.mp hb with rfl | hb
    · exact hnotice
    · exact hbegan b (List.mem_cons_of_mem _ hb)
  · intro b hb
    rcases List.mem_cons.mp hb with rfl | hb
    · intro t ht
      rcases List.mem_cons.mp ht with rfl | ht
      · exact Nat.le_refl _
      · exact hpast notice List.mem_cons_self t ht
    · exact hpast b (List.mem_cons_of_mem _ hb)
  · intro hstamping
    cases hstamping
  · rintro n hn b hb
    cases hn
    cases hb
    exact congrArg (· + 1) hlength

theorem Command.pc_quiet (c : Command) : c.pc ≠ .stamping ∧ ∀ n, c.pc ≠ .notifying n := by
  cases c <;> exact ⟨by decide, fun n h => by cases h⟩

theorem step_told {s s' : State} {a : Action} (hi : Told s) (h : step s a = some s') :
    Told s' := by
  cases a with
  | check =>
      simp only [step, Option.ite_none_right_eq_some, Option.some.injEq] at h
      rcases h with ⟨-, rfl⟩
      refine ⟨hi.spaced, hi.began, hi.past, hi.last, ?_, ?_⟩
      · intro hpc
        show s.lastOverload + seconds 30 < s.now
        dsimp only at hpc
        split at hpc
        · omega
        · cases hpc
      · intro n hpc
        dsimp only at hpc
        split at hpc <;> cases hpc
  | stamp =>
      simp only [step, Option.ite_none_right_eq_some, Option.some.injEq] at h
      rcases h with ⟨hpc, rfl⟩
      exact hi.stamp hpc
  | notify =>
      rcases notify_cases h with ⟨sent, notice, before, hpc, hoverloads, hsent, rfl⟩
      exact hi.notify hpc hoverloads hsent
  | overload | acquire =>
      simp only [step] at h
      split at h <;> cases h <;> exact hi.frame rfl rfl (Nat.le_refl _) id fun _ => id
  | recv =>
      simp only [step] at h
      split at h
      · rename_i m channel _
        simp only [Option.ite_none_right_eq_some, Option.some.injEq] at h
        rcases h with ⟨-, rfl⟩
        rcases m.command.pc_quiet with ⟨hstamping, hsent⟩
        exact hi.frame rfl rfl (Nat.le_refl _) (fun hpc => absurd hpc hstamping)
          fun n hpc => absurd hpc (hsent n)
      · cases h
  | reload works =>
      simp only [step, Option.ite_none_right_eq_some] at h
      rcases h with ⟨-, h⟩
      split at h <;> cases h <;>
        exact hi.frame rfl rfl (Nat.le_refl _) (fun hpc => by cases hpc) fun _ hpc => by cases hpc
  | tick n =>
      cases h
      exact hi.frame rfl rfl (Nat.le_add_right _ _) id fun _ => id
  | abort =>
      cases h
      exact hi.frame rfl rfl (Nat.le_refl _) id fun _ => id
  | notified =>
      rcases notified_cases h with ⟨_, -, -, rfl⟩
      exact hi.frame rfl rfl (Nat.le_refl _) (fun hpc => by cases hpc) fun _ hpc => by cases hpc
  | refresh | startDownloader =>
      simp only [step, Option.ite_none_right_eq_some, Option.some.injEq] at h
      rcases h with ⟨-, rfl⟩
      exact hi.frame rfl rfl (Nat.le_refl _) (fun hpc => by cases hpc) fun _ hpc => by cases hpc
  | request command | cancel i | wake i | runEnds job | clear job | panics job =>
      simp only [step, Option.ite_none_right_eq_some, Option.some.injEq] at h
      rcases h with ⟨-, rfl⟩
      exact hi.frame rfl rfl (Nat.le_refl _) id fun _ => id

theorem told_of_reachable {s : State} (h : machine.Reachable s) : Told s := by
  refine h.invariant ?_ ?_
  · rintro s ⟨now, rfl⟩
    refine ⟨.nil, fun b hb => absurd hb List.not_mem_nil, fun b hb => absurd hb List.not_mem_nil,
      ?_, ?_, ?_⟩
    · show (if seconds 30 ≤ now then now - seconds 30 else now) ≤ now
      split
      · exact Nat.sub_le _ _
      · exact Nat.le_refl _
    · intro hpc
      cases hpc
    · intro n hpc
      cases hpc
  · intro s a s' hi hs
    exact step_told hi hs

/-- However often the connection counter finds too many connections: the notices begin more
than thirty seconds apart, each has at most three requests, which are sent before the next
notice begins, and any thirty seconds have at most six requests. -/
theorem overload_spaced {s : State} (h : machine.Reachable s) :
    s.overloads.Pairwise (fun b b' => b'.began + seconds 30 < b.began ∧
        ∀ t ∈ b'.times, t ≤ b.began) ∧
      (∀ b ∈ s.overloads, b.times.length ≤ 3 ∧ ∀ t ∈ b.times, b.began ≤ t) ∧
      ∀ a, (Burst.inWindow (seconds 30) a (s.overloads.flatMap Burst.times)).length ≤ 6 := by
  have hspaced := (told_of_reachable h).spaced
  exact ⟨hspaced.apart, fun b hb => ⟨hspaced.size b hb, hspaced.begins b hb⟩, hspaced.window_le⟩

/-- Three commands, the second within thirty seconds of the first notice; the requests of the
first notice take so long that all six are sent within two seconds. -/
theorem overload_spaced_six : ∃ s, machine.Reachable s ∧
    s.overloads.map Burst.began = [seconds 61, seconds 30 + 1] ∧
    (Burst.inWindow (seconds 30) (seconds 60) (s.overloads.flatMap Burst.times)).length = 6 ∧
    ∀ a, (Burst.inWindow (seconds 30) a (s.overloads.flatMap Burst.times)).length ≤ 6 := by
  obtain ⟨s, hs, hbegan, hsix⟩ := Machine.reachable_of_run (M := machine) ⟨0, rfl⟩
    [.tick (seconds 30 + 1), .overload, .recv, .check, .stamp, .overload,
      .tick (seconds 30 - 1), .notify, .notify, .notify, .notified, .recv, .check,
      .tick (seconds 1), .overload, .recv, .check, .stamp, .notify, .notify, .tick (seconds 1),
      .notify]
    (fun s => s.overloads.map Burst.began = [seconds 61, seconds 30 + 1] ∧
      (Burst.inWindow (seconds 30) (seconds 60) (s.overloads.flatMap Burst.times)).length = 6)
    (by decide +kernel)
  exact ⟨s, hs, hbegan, hsix, (overload_spaced hs).2.2⟩

end Hath.Commands
