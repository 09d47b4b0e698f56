import Mathlib.Logic.Function.Basic
import Hath.Lib.Machine
import Hath.Lib.Notify

/-!
# Hath.Server.Shutdown — stopping the accept loops

`Server::shutdown` sets the flag of the handle, notifies the waiters and then awaits
the accept tasks. Each accept loop (`accept_loop` for TCP, `accept_loop_h3` when
HTTP/3 is on) loads the flag at the top of its body, creates a `Notified` future in
the `select!` and waits for a connection or for that future. The loops and the
caller run on different threads; one action is one access to the shared handle, or
one event the outside provides.

* `not_stuck_of_noGap` — a loop that waits after a completed shutdown has been woken,
  in every run where no loop stands between its load of the flag and the creation of
  its future when the waiters are notified;
* `stuck_of_gap` — a notification in that gap is lost.
-/

namespace Hath.Shutdown

open Lib

/-! ## State -/

/-- The two accept loops. -/
inductive Listener where
  | tcp
  | h3
deriving DecidableEq, Repr

/-- Where an accept loop stands. -/
inductive Pc where
  /-- At the top of the loop, before the load of `handle.shutdown`. -/
  | loading
  /-- The load returned `false`; `select!` has not created its futures yet. -/
  | selecting
  /-- In `select!` with its `Notified` future; `accepting` is `false` once
  `endpoint.accept()` has returned `None` and its branch is disabled. -/
  | waiting (notified : Notified) (accepting : Bool)
  /-- With an accepted connection, before the next turn. -/
  | handling
  /-- Out of the loop, waiting for the open connections or the timeout. -/
  | closing
  /-- The task has returned. -/
  | finished
deriving DecidableEq, Repr

/-- Where `Server::shutdown` stands. -/
inductive Caller where
  /-- Not called yet. -/
  | idle
  /-- The flag is stored, the waiters are not notified. -/
  | stored
  /-- `ServerHandle::shutdown` has returned; `accept_task` is awaited. -/
  | awaitTcp
  /-- `accept_task_h3`, if there is one, is awaited. -/
  | awaitH3
  /-- `Server::shutdown` has returned. -/
  | returned
deriving DecidableEq, Repr

/-- The handle, the caller and the accept tasks; a server without HTTP/3 has no
second task. -/
structure State where
  shutdown : Bool
  notify : Notify
  caller : Caller
  loops : Listener → Option Pc

/-- `ServerHandle::shutdown` has completed. -/
def Caller.Completed (c : Caller) : Prop := c ≠ .idle ∧ c ≠ .stored

instance (c : Caller) : Decidable c.Completed :=
  inferInstanceAs (Decidable (c ≠ .idle ∧ c ≠ .stored))

/-- Move one accept loop. -/
def State.setLoop (s : State) (l : Listener) (pc : Pc) : State :=
  { s with loops := Function.update s.loops l (some pc) }

@[simp] theorem State.setLoop_loops (s : State) (l : Listener) (pc : Pc) :
    (s.setLoop l pc).loops = Function.update s.loops l (some pc) := rfl

@[simp] theorem State.setLoop_notify (s : State) (l : Listener) (pc : Pc) :
    (s.setLoop l pc).notify = s.notify := rfl

@[simp] theorem State.setLoop_caller (s : State) (l : Listener) (pc : Pc) :
    (s.setLoop l pc).caller = s.caller := rfl

@[simp] theorem State.setLoop_shutdown (s : State) (l : Listener) (pc : Pc) :
    (s.setLoop l pc).shutdown = s.shutdown := rfl

/-! ## Steps -/

/-- Actions of the caller, of the loops and of the network. -/
inductive Action where
  /-- `self.shutdown.store(true, …)`. -/
  | store
  /-- `self.shutdown_notify.notify_waiters()`. -/
  | notifyWaiters
  /-- `accept_task` has been joined. -/
  | joinTcp
  /-- `accept_task_h3` has been joined, or there is none. -/
  | joinH3
  /-- `handle.shutdown.load(…)`, with the `break`. -/
  | load (l : Listener)
  /-- `select!` creates its futures. -/
  | register (l : Listener)
  /-- A connection arrives at a waiting loop. -/
  | accept (l : Listener)
  /-- The endpoint is closed: `endpoint.accept()` returns `None`. -/
  | acceptNone
  /-- Flood control and `tokio::spawn` are done, the loop turns. -/
  | handled (l : Listener)
  /-- The woken `Notified` future is polled: `break`. -/
  | stop (l : Listener)
  /-- The open connections are gone or the timeout has passed. -/
  | close (l : Listener)
deriving DecidableEq, Repr

/-- The step of a loop from where it stands; `none` where the action does not apply. -/
def loopStep (s : State) (pc : Pc) : Action → Option Pc
  | .load _ =>
      if pc = .loading then some (if s.shutdown then .closing else .selecting) else none
  | .register _ =>
      if pc = .selecting then some (.waiting s.notify.notified true) else none
  | .accept _ =>
      match pc with
      | .waiting _ true => some .handling
      | _ => none
  | .acceptNone =>
      match pc with
      | .waiting f true => some (.waiting f false)
      | _ => none
  | .handled _ => if pc = .handling then some .loading else none
  | .stop _ =>
      match pc with
      | .waiting f _ => if s.notify.Woken f then some .closing else none
      | _ => none
  | .close _ => if pc = .closing then some .finished else none
  | _ => none

/-- The loop an action belongs to. -/
def Action.listener : Action → Option Listener
  | .load l | .register l | .accept l | .handled l | .stop l | .close l => some l
  | .acceptNone => some .h3
  | .store | .notifyWaiters | .joinTcp | .joinH3 => none

/-- The step of the caller. -/
def callerStep (s : State) : Action → Option State
  | .store =>
      if s.caller = .idle then some { s with caller := .stored, shutdown := true } else none
  | .notifyWaiters =>
      if s.caller = .stored then
        some { s with caller := .awaitTcp, notify := s.notify.notifyWaiters }
      else none
  | .joinTcp =>
      if s.caller = .awaitTcp ∧ s.loops .tcp = some .finished then
        some { s with caller := .awaitH3 }
      else none
  | .joinH3 =>
      if s.caller = .awaitH3 ∧ (s.loops .h3 = some .finished ∨ s.loops .h3 = none) then
        some { s with caller := .returned }
      else none
  | _ => none

/-- One step of the server. -/
def step (s : State) (a : Action) : Option State :=
  match a.listener with
  | some l => (s.loops l).bind fun pc => (loopStep s pc a).map (s.setLoop l)
  | none => callerStep s a

/-- A server that has just been started, with or without HTTP/3. -/
def init (s : State) : Prop :=
  s.shutdown = false ∧ s.notify = .new ∧ s.caller = .idle ∧ s.loops .tcp = some .loading ∧
    (s.loops .h3 = some .loading ∨ s.loops .h3 = none)

/-- The server as a machine. -/
def machine : Machine State Action := ⟨init, step⟩

/-! ## What a step can do -/

/-- A loop that is not moved stands where it stood. -/
theorem State.setLoop_cases {s : State} {l l' : Listener} {pc pc' : Pc}
    (h : (s.setLoop l pc).loops l' = some pc') :
    (l' = l ∧ pc' = pc) ∨ (l' ≠ l ∧ s.loops l' = some pc') := by
  rw [State.setLoop_loops] at h
  by_cases hl : l' = l
  · subst hl
    rw [Function.update_self] at h
    exact .inl ⟨rfl, (Option.some.inj h).symm⟩
  · rw [Function.update_of_ne hl] at h
    exact .inr ⟨hl, h⟩

/-- A step moves one loop, or is one of the four steps of the caller. -/
theorem step_cases {s s' : State} {a : Action} (h : step s a = some s') :
    (∃ l pc pc', a.listener = some l ∧ s.loops l = some pc ∧ loopStep s pc a = some pc' ∧
      s' = s.setLoop l pc') ∨
    (a = .store ∧ s.caller = .idle ∧ s' = { s with caller := .stored, shutdown := true }) ∨
    (a = .notifyWaiters ∧ s.caller = .stored ∧
      s' = { s with caller := .awaitTcp, notify := s.notify.notifyWaiters }) ∨
    (s.caller.Completed ∧ ∃ c : Caller, c.Completed ∧ s' = { s with caller := c }) := by
  unfold step at h
  cases hl : a.listener with
  | some l =>
      rw [hl] at h
      -- an action of a loop
      rcases Option.bind_eq_some_iff.mp h with ⟨pc, hpc, h⟩
      rcases Option.map_eq_some_iff.mp h with ⟨pc', hpc', rfl⟩
      exact .inl ⟨l, pc, pc', rfl, hpc, hpc', rfl⟩
  | none =>
      rw [hl] at h
      -- the caller: store, notify, and the two awaits
      right
      cases a <;> simp only [callerStep, Action.listener, reduceCtorEq] at h hl
      · split at h
        · rename_i hc
          exact .inl ⟨rfl, hc, (Option.some.inj h).symm⟩
        · cases h
      · split at h
        · rename_i hc
          exact .inr (.inl ⟨rfl, hc, (Option.some.inj h).symm⟩)
        · cases h
      · split at h
        · rename_i hc
          right
          right
          constructor
          · rw [hc.1]
            decide
          · exact ⟨.awaitH3, by decide, (Option.some.inj h).symm⟩
        · cases h
      · split at h
        · rename_i hc
          right
          right
          constructor
          · rw [hc.1]
            decide
          · exact ⟨.returned, by decide, (Option.some.inj h).symm⟩
        · cases h

/-- A loop gets to `select!` by a load that returned `false`. -/
theorem loopStep_selecting {s : State} {pc : Pc} {a : Action}
    (h : loopStep s pc a = some .selecting) : s.shutdown = false := by
  cases a <;> simp only [loopStep, reduceCtorEq] at h
  case load =>
    cases hs : s.shutdown with
    | false => rfl
    | true =>
        rw [hs] at h
        split at h <;> simp at h
  all_goals (repeat' split at h) <;> simp at h

/-- A waiting loop has just created its future, or had it before. -/
theorem loopStep_waiting {s : State} {pc : Pc} {a : Action} {f : Notified} {b : Bool}
    (h : loopStep s pc a = some (.waiting f b)) :
    (pc = .selecting ∧ f = s.notify.notified) ∨ ∃ b', pc = .waiting f b' := by
  cases a <;> simp only [loopStep, reduceCtorEq] at h
  case register =>
    split at h
    · rename_i hpc
      simp only [Option.some.injEq, Pc.waiting.injEq] at h
      exact .inl ⟨hpc, h.1.symm⟩
    · cases h
  case acceptNone =>
    split at h
    · simp only [Option.some.injEq, Pc.waiting.injEq] at h
      exact .inr ⟨true, by rw [h.1]⟩
    · cases h
  all_goals (repeat' split at h) <;> simp at h

/-! ## The invariant -/

/-- The waiters are notified at a moment when no loop is between its load of the
flag and the creation of its future. -/
def NoGap (s : State) (a : Action) : Prop :=
  a = .notifyWaiters → s.loops .tcp ≠ some .selecting ∧ s.loops .h3 ≠ some .selecting

instance (s : State) (a : Action) : Decidable (NoGap s a) :=
  inferInstanceAs (Decidable (_ → _))

theorem NoGap.ne {s : State} (h : NoGap s .notifyWaiters) (l : Listener) :
    s.loops l ≠ some .selecting := by
  cases l with
  | tcp => exact (h rfl).1
  | h3 => exact (h rfl).2

/-- What holds in every run: the flag is set before the waiters are notified, and a
loop waits with a future of the past. -/
structure Inv (s : State) : Prop where
  flag : s.caller ≠ .idle → s.shutdown = true
  issued : ∀ l f b, s.loops l = some (.waiting f b) → s.notify.Issued f

/-- What holds without a notification in the gap: after the shutdown no loop is on
its way to `select!`, and the ones in it have been woken. -/
structure Told (s : State) : Prop where
  noSelecting : s.caller.Completed → ∀ l, s.loops l ≠ some .selecting
  woken : s.caller.Completed → ∀ l f b, s.loops l = some (.waiting f b) → s.notify.Woken f

theorem init_inv {s : State} (h : init s) : Inv s ∧ Told s := by
  rcases h with ⟨-, -, hc, ht, hh⟩
  -- no loop has got to `select!` yet
  have hw : ∀ l pc, s.loops l = some pc → pc = .loading := by
    intro l pc hl
    cases l with
    | tcp =>
        rw [ht] at hl
        exact (Option.some.inj hl).symm
    | h3 =>
        rcases hh with hh | hh
        · rw [hh] at hl
          exact (Option.some.inj hl).symm
        · rw [hh] at hl
          cases hl
  constructor
  · constructor
    · intro hne
      exact absurd hc hne
    · intro l f b hl
      cases hw l _ hl
  · constructor
    · intro hd
      exact absurd hc hd.1
    · intro hd
      exact absurd hc hd.1

theorem step_inv {s s' : State} {a : Action} (hi : Inv s) (h : step s a = some s') : Inv s' := by
  rcases step_cases h with ⟨l, pc, pc', -, hl, hpc, rfl⟩ | ⟨-, -, rfl⟩ | ⟨-, hc, rfl⟩ |
    ⟨hc, c, -, rfl⟩
  · -- a loop moves: only its own future can be new, and it is created now
    constructor
    · exact hi.flag
    · intro l' f b hw
      rcases State.setLoop_cases hw with ⟨-, rfl⟩ | ⟨-, hw⟩
      · rcases loopStep_waiting hpc with ⟨-, rfl⟩ | ⟨b', rfl⟩
        · exact s.notify.issued_notified
        · exact hi.issued l f b' hl
      · exact hi.issued l' f b hw
  · exact ⟨fun _ => rfl, hi.issued⟩
  · constructor
    · intro _
      exact hi.flag (by simp [hc])
    · intro l f b hw
      exact (hi.issued l f b hw).notifyWaiters
  · exact ⟨fun _ => hi.flag hc.1, hi.issued⟩

theorem step_told {s s' : State} {a : Action} (hi : Inv s) (ht : Told s) (hok : NoGap s a)
    (h : step s a = some s') : Told s' := by
  rcases step_cases h with ⟨l, pc, pc', -, hl, hpc, rfl⟩ | ⟨-, hc, rfl⟩ | ⟨rfl, hc, rfl⟩ |
    ⟨hc, c, -, rfl⟩
  · constructor
    · intro hd l' hsel
      rcases State.setLoop_cases hsel with ⟨-, rfl⟩ | ⟨-, hsel⟩
      · -- after the store, a load returns `true`
        have hflag := hi.flag hd.1
        rw [loopStep_selecting hpc] at hflag
        cases hflag
      · exact ht.noSelecting hd l' hsel
    · intro hd l' f b hw
      rcases State.setLoop_cases hw with ⟨-, rfl⟩ | ⟨-, hw⟩
      · rcases loopStep_waiting hpc with ⟨rfl, -⟩ | ⟨b', rfl⟩
        · exact absurd hl (ht.noSelecting hd l)
        · exact ht.woken hd l f b' hl
      · exact ht.woken hd l' f b hw
  · constructor
    · intro hd
      exact absurd rfl hd.2
    · intro hd
      exact absurd rfl hd.2
  · constructor
    -- the notification itself: nobody is in the gap, and every future is woken
    · intro _
      exact hok.ne
    · intro _ l f b hw
      exact Notify.woken_notifyWaiters (hi.issued l f b hw)
  · constructor
    · intro _
      exact ht.noSelecting hc
    · intro _
      exact ht.woken hc

theorem told_of_reach {s : State} (h : machine.Reach NoGap s) : Inv s ∧ Told s := by
  apply Machine.Reach.invariant (I := fun s => Inv s ∧ Told s) _ _ h
  · intro s h0
    exact init_inv h0
  · intro s a s' hi hok hs
    exact ⟨step_inv hi.1 hs, step_told hi.1 hi.2 hok hs⟩

/-! ## Stopping -/

/-- The shutdown has completed and the loop waits with a future nobody will wake: only
another connection gets it back to the flag. -/
def Stuck (s : State) (l : Listener) : Prop :=
  s.caller.Completed ∧ ∃ f b, s.loops l = some (.waiting f b) ∧ ¬ s.notify.Woken f

/-- A woken loop leaves `select!`. -/
theorem step_stop {s : State} {l : Listener} {f : Notified} {b : Bool}
    (hl : s.loops l = some (.waiting f b)) (hw : s.notify.Woken f) :
    step s (.stop l) = some (s.setLoop l .closing) := by
  simp [step, Action.listener, hl, loopStep, hw]

/-- A loop that has seen the flag down goes on to wait. -/
theorem step_register {s : State} {l : Listener} (hl : s.loops l = some .selecting) :
    step s (.register l) = some (s.setLoop l (.waiting s.notify.notified true)) := by
  simp [step, Action.listener, hl, loopStep]

/-- A notification in the gap is lost: the loop goes on to wait for it. -/
theorem stuck_of_gap {s s' : State} {l : Listener} (h : step s .notifyWaiters = some s')
    (hl : s.loops l = some .selecting) :
    ∃ s'', step s' (.register l) = some s'' ∧ Stuck s'' l := by
  rcases step_cases h with ⟨l', _, _, hl', -⟩ | ⟨hne, -⟩ | ⟨-, -, rfl⟩ | ⟨hc, -⟩
  · cases hl'
  · cases hne
  · refine ⟨_, step_register hl, ?_, s.notify.notifyWaiters.notified, true, ?_, ?_⟩
    · show Caller.awaitTcp.Completed
      decide
    · rw [State.setLoop_loops, Function.update_self]
    · exact Notify.not_woken_notified _
  · -- the waiters are notified once only
    simp [step, Action.listener, callerStep, hc.2] at h

/-- In every run that notifies the waiters outside the gap, a loop that waits after
the shutdown is woken and leaves without another connection; inside the gap, the
notification is missed. -/
theorem not_stuck_of_noGap (s : State) (l : Listener) :
    (machine.Reach NoGap s → ¬ Stuck s l ∧
      (s.caller.Completed → ∀ f b, s.loops l = some (.waiting f b) →
        step s (.stop l) = some (s.setLoop l .closing))) ∧
    (∀ s', machine.Reachable s → step s .notifyWaiters = some s' →
      ¬ NoGap s .notifyWaiters → ∃ l s'', step s' (.register l) = some s'' ∧ Stuck s'' l) := by
  constructor
  · intro hs
    have ht := (told_of_reach hs).2
    constructor
    · rintro ⟨hd, f, b, hl, hw⟩
      exact hw (ht.woken hd l f b hl)
    · intro hd f b hl
      exact step_stop hl (ht.woken hd l f b hl)
  · intro s' _ hs hgap
    have hsel : ∃ l, s.loops l = some .selecting := by
      by_contra hno
      apply hgap
      intro _
      exact ⟨fun h => hno ⟨_, h⟩, fun h => hno ⟨_, h⟩⟩
    rcases hsel with ⟨l, hl⟩
    rcases stuck_of_gap hs hl with ⟨s'', hr, hst⟩
    exact ⟨l, s'', hr, hst⟩

/-- A server with both loops. -/
def start : State := ⟨false, .new, .idle, fun _ => some .loading⟩

theorem start_init : init start := ⟨rfl, rfl, rfl, rfl, .inl rfl⟩

/-- Both loops wait, the HTTP/3 endpoint is closed, and the shutdown completes. -/
theorem not_stuck_of_noGap_start :
    ∃ s, machine.Reach NoGap s ∧ s.caller.Completed ∧
      step s (.stop .h3) = some (s.setLoop .h3 .closing) := by
  rcases Machine.reach_of_runIf (M := machine) NoGap start_init
    [.load .tcp, .register .tcp, .load .h3, .register .h3, .acceptNone, .accept .tcp, .store,
      .notifyWaiters]
    (fun s => s.caller.Completed ∧ s.loops .h3 = some (.waiting ⟨0⟩ false))
    (by decide +kernel) with ⟨s, hs, hd, hl⟩
  exact ⟨s, hs, hd, ((not_stuck_of_noGap s .h3).1 hs).2 hd ⟨0⟩ false hl⟩

/-- The TCP loop loads the flag, the shutdown runs, and the loop waits. -/
theorem shutdown_missed : ∃ s, machine.Reachable s ∧ ∃ l, Stuck s l := by
  rcases Machine.reachable_of_run (M := machine) start_init
    [.load .tcp, .store, .notifyWaiters, .register .tcp]
    (fun s => s.caller.Completed ∧ s.loops .tcp = some (.waiting ⟨1⟩ true) ∧ s.notify = ⟨1⟩)
    (by decide +kernel) with ⟨s, hs, hd, hl, hn⟩
  refine ⟨s, hs, .tcp, hd, ⟨1⟩, true, hl, ?_⟩
  rw [hn]
  decide

end Hath.Shutdown
