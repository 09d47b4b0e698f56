import Mathlib.Data.List.Basic
import Hath.Lib.Machine
import Hath.Lib.Watch

/-!
# Hath.Server.Connections — connections and the end of the accept loop

`accept_loop` spawns a task for each TCP connection: a TLS handshake of at most ten
seconds, then `serve_connection` for at most 181 seconds. A task that serves listens to the
watch channel of the loop; once it is notified, it gets ten seconds more. When the loop is
left, it notifies all tasks and waits until their receivers are gone, at most fifteen
seconds.

Times are in milliseconds. A step of a task is one poll of what it waits for. When the loop is
left is the subject of `Hath.Server.Shutdown`.

* `Prompt` — time passes when no task has anything to do;
* `drain_bounded` — how long a connection can last, and which of them the end can cut.
-/

namespace Hath.Connections

open Lib

/-! ## State -/

def seconds (n : Nat) : Nat := n * 1000

/-- Where the task of a connection stands; the numbers are the ends of its timeouts. -/
inductive ConnPc where
  /-- Before its first poll. -/
  | spawned
  | handshake (deadline : Nat)
  /-- In the `select!`. -/
  | serving (deadline : Nat)
  /-- In the second `timeout`, around the first. -/
  | draining (deadline serving : Nat)
  | done
deriving DecidableEq, Repr

/-- A connection; `accepted` and `served`, the times of its acceptance and of the end of its
handshake, are read by no step. -/
structure Conn where
  seen : Nat
  pc : ConnPc
  accepted : Nat
  served : Option Nat
deriving DecidableEq, Repr

inductive LoopPc where
  | accepting
  /-- The tasks have been notified, and the loop waits for them. -/
  | closing (since : Nat)
  | finished (since : Nat)
deriving DecidableEq, Repr

/-- The time of the notification. -/
def LoopPc.notified : LoopPc → Option Nat
  | .accepting => none
  | .closing since | .finished since => some since

structure State where
  now : Nat
  shutdown : Watch Unit
  loop : LoopPc
  conns : List Conn

/-- What a future returns when it is polled. -/
inductive Ready where
  | pending
  | ok
  | failed
deriving DecidableEq, Repr

inductive Action where
  /-- A connection that flood control lets through. -/
  | connect
  /-- The loop is left, and `send_replace` notifies the tasks. -/
  | leave
  /-- `closed()` returns. -/
  | closed
  | timedOut
  | poll (i : Nat) (result : Ready)
  /-- `n + 1` milliseconds pass. -/
  | tick (n : Nat)
deriving DecidableEq, Repr

/-! ## Steps -/

/-- One poll of a task. -/
def Conn.poll (now : Nat) (shutdown : Watch Unit) (c : Conn) (result : Ready) : Option Conn :=
  match c.pc with
  | .spawned => some { c with pc := .handshake (now + seconds 10) }
  | .handshake deadline =>
      match result with
      | .ok => some { c with pc := .serving (now + seconds 181), served := some now }
      | .failed => some { c with pc := .done }
      | .pending => some (if deadline ≤ now then { c with pc := .done } else c)
  | .serving deadline =>
      match result with
      | .ok | .failed => some { c with pc := .done }
      | .pending =>
          some (
            if deadline ≤ now then { c with pc := .done }
            else if shutdown.Unseen c.seen then
              { c with seen := shutdown.version, pc := .draining (now + seconds 10) deadline }
            else c)
  | .draining deadline serving =>
      match result with
      | .ok | .failed => some { c with pc := .done }
      | .pending =>
          some (if deadline ≤ now ∨ serving ≤ now then { c with pc := .done } else c)
  | .done => none

def step (s : State) : Action → Option State
  | .connect =>
      if s.loop = .accepting then
        some { s with conns := s.conns ++ [⟨s.shutdown.subscribe, .spawned, s.now, none⟩] }
      else none
  | .leave =>
      if s.loop = .accepting then
        some { s with loop := .closing s.now, shutdown := s.shutdown.send () }
      else none
  | .closed =>
      match s.loop with
      | .closing since =>
          if ∀ c ∈ s.conns, c.pc = .done then some { s with loop := .finished since } else none
      | _ => none
  | .timedOut =>
      match s.loop with
      | .closing since =>
          if since + seconds 15 ≤ s.now then some { s with loop := .finished since } else none
      | _ => none
  | .poll i result =>
      match s.conns[i]? with
      | some c => (c.poll s.now s.shutdown result).map fun c => { s with conns := s.conns.set i c }
      | none => none
  | .tick n => some { s with now := s.now + n + 1 }

def machine : Machine State Action where
  init s := s.shutdown = Watch.channel () ∧ s.loop = .accepting ∧ s.conns = []
  step := step

/-- A task has nothing to do: no timeout has passed and no notification is unseen. -/
def Conn.Idle (now : Nat) (shutdown : Watch Unit) (c : Conn) : Prop :=
  match c.pc with
  | .spawned => False
  | .handshake deadline => now < deadline
  | .serving deadline => now < deadline ∧ ¬ shutdown.Unseen c.seen
  | .draining deadline serving => now < deadline ∧ now < serving
  | .done => True

instance (now : Nat) (shutdown : Watch Unit) (c : Conn) : Decidable (c.Idle now shutdown) := by
  unfold Conn.Idle
  split <;> infer_instance

/-- Nor has the loop, once it waits for the tasks. -/
def State.Waits (now : Nat) (s : State) : Prop :=
  match s.loop with
  | .closing since => now < since + seconds 15 ∧ ∃ c ∈ s.conns, c.pc ≠ .done
  | _ => True

instance (now : Nat) (s : State) : Decidable (s.Waits now) := by
  unfold State.Waits
  split <;> infer_instance

/-- No time passes while a task has something to do. -/
def Prompt (s : State) : Action → Prop
  | .tick n => (∀ c ∈ s.conns, c.Idle (s.now + n) s.shutdown) ∧ s.Waits (s.now + n)
  | _ => True

instance (s : State) : ∀ a, Decidable (Prompt s a)
  | .tick _ => inferInstanceAs (Decidable (_ ∧ _))
  | .connect | .leave | .closed | .timedOut | .poll _ _ => isTrue trivial

/-! ## One connection -/

/-- What is known of a connection at a time, before or after the notification. -/
def Conn.Sound (now : Nat) (notified : Option Nat) (c : Conn) : Prop :=
  match c.pc with
  | .spawned => c.seen = 0 ∧ c.served = none ∧ now = c.accepted
  | .handshake deadline =>
      c.seen = 0 ∧ c.served = none ∧ deadline = c.accepted + seconds 10 ∧ now ≤ deadline
  | .serving deadline =>
      c.seen = 0 ∧ ∃ h, c.served = some h ∧ h ≤ c.accepted + seconds 10 ∧
        deadline = h + seconds 181 ∧ now ≤ deadline ∧ ∀ t ∈ notified, now ≤ max t h
  | .draining deadline serving =>
      ∃ h, c.served = some h ∧ h ≤ c.accepted + seconds 10 ∧
        serving = h + seconds 181 ∧ now ≤ serving ∧ now ≤ deadline ∧
        ∃ t ∈ notified, deadline ≤ max t h + seconds 10
  | .done => True

section

variable {now : Nat} {notified : Option Nat} {shutdown : Watch Unit} {c c' : Conn}

theorem Conn.Sound.of_done (h : c.pc = .done) : c.Sound now notified := by
  unfold Conn.Sound
  rw [h]
  trivial

/-- A poll keeps what is known; only a notification sets a connection draining. -/
theorem Conn.Sound.poll (hs : c.Sound now notified)
    (hversion : shutdown.version ≠ 0 → notified.isSome = true) {result : Ready}
    (h : c.poll now shutdown result = some c') :
    c'.Sound now notified ∧ c'.accepted = c.accepted := by
  unfold Conn.Sound at hs
  unfold Conn.poll at h
  cases hpc : c.pc with
  | spawned =>
      simp only [hpc] at hs h
      cases h
      exact ⟨⟨hs.1, hs.2.1, by rw [hs.2.2], Nat.le_add_right _ _⟩, rfl⟩
  | handshake deadline =>
      simp only [hpc] at hs h
      rcases hs with ⟨hseen, hserved, hdeadline, hnow⟩
      cases result with
      | ok =>
          cases h
          refine ⟨⟨hseen, now, rfl, ?_, rfl, Nat.le_add_right _ _, ?_⟩, rfl⟩
          · rw [← hdeadline]
            exact hnow
          · intro t _
            exact Nat.le_max_right _ _
      | failed =>
          cases h
          exact ⟨.of_done rfl, rfl⟩
      | pending =>
          replace h := Option.some.inj h
          split at h
          · cases h
            exact ⟨.of_done rfl, rfl⟩
          · cases h
            unfold Conn.Sound
            rw [hpc]
            exact ⟨⟨hseen, hserved, hdeadline, hnow⟩, rfl⟩
  | serving deadline =>
      simp only [hpc] at hs h
      cases result with
      | ok | failed =>
          cases h
          exact ⟨.of_done rfl, rfl⟩
      | pending =>
          replace h := Option.some.inj h
          split at h
          · cases h
            exact ⟨.of_done rfl, rfl⟩
          · split at h
            · rename_i hunseen
              cases h
              rcases hs with ⟨hseen, g, hserved, hg, hdeadline, hnow, hmax⟩
              have hsome : notified.isSome = true := by
                apply hversion
                rw [hseen] at hunseen
                exact Ne.symm hunseen
              rcases Option.isSome_iff_exists.mp hsome with ⟨t, ht⟩
              refine ⟨⟨g, hserved, hg, hdeadline, hnow, Nat.le_add_right _ _, t, ht, ?_⟩, rfl⟩
              exact Nat.add_le_add_right (hmax t ht) _
            · cases h
              unfold Conn.Sound
              rw [hpc]
              exact ⟨hs, rfl⟩
  | draining deadline serving =>
      simp only [hpc] at hs h
      cases result with
      | ok | failed =>
          cases h
          exact ⟨.of_done rfl, rfl⟩
      | pending =>
          replace h := Option.some.inj h
          split at h
          · cases h
            exact ⟨.of_done rfl, rfl⟩
          · cases h
            unfold Conn.Sound
            rw [hpc]
            exact ⟨hs, rfl⟩
  | done =>
      simp only [hpc] at h
      cases h

/-- Time passes for a connection that is idle. -/
theorem Conn.Sound.tick (hs : c.Sound now notified) {n : Nat} (hidle : c.Idle (now + n) shutdown)
    (hversion : notified.isSome = true → shutdown.version ≠ 0) :
    c.Sound (now + n + 1) notified := by
  unfold Conn.Sound at hs ⊢
  unfold Conn.Idle at hidle
  cases hpc : c.pc with
  | spawned => simp only [hpc] at hidle
  | handshake deadline =>
      simp only [hpc] at hs hidle ⊢
      exact ⟨hs.1, hs.2.1, hs.2.2.1, hidle⟩
  | serving deadline =>
      simp only [hpc] at hs hidle ⊢
      rcases hs with ⟨hseen, g, hserved, hg, hdeadline, -, -⟩
      refine ⟨hseen, g, hserved, hg, hdeadline, hidle.1, fun t ht => ?_⟩
      -- after the notification there is something to do
      have hne := hversion (Option.isSome_iff_exists.mpr ⟨t, ht⟩)
      exact absurd (by rw [hseen]; exact Ne.symm hne) hidle.2
  | draining deadline serving =>
      simp only [hpc] at hs hidle ⊢
      rcases hs with ⟨g, hserved, hg, hserving, -, -, t, ht, hdeadline⟩
      exact ⟨g, hserved, hg, hserving, hidle.2, hidle.1, t, ht, hdeadline⟩
  | done => trivial

/-- At the notification. -/
theorem Conn.Sound.notify (hs : c.Sound now none) : c.Sound now (some now) := by
  unfold Conn.Sound at hs ⊢
  cases hpc : c.pc with
  | spawned | handshake deadline =>
      simp only [hpc] at hs ⊢
      exact hs
  | serving deadline =>
      simp only [hpc] at hs ⊢
      rcases hs with ⟨hseen, g, hserved, hg, hdeadline, hnow, -⟩
      refine ⟨hseen, g, hserved, hg, hdeadline, hnow, fun t ht => ?_⟩
      cases ht
      exact Nat.le_max_left _ _
  | draining deadline serving =>
      simp only [hpc] at hs
      rcases hs with ⟨_, _, _, _, _, _, t, ht, _⟩
      cases ht
  | done => trivial

/-- How long a connection can last. -/
theorem Conn.Sound.bound (hs : c.Sound now notified) (hopen : c.pc ≠ .done) :
    now ≤ c.accepted + seconds 191 ∧
      ∀ t ∈ notified, c.accepted ≤ t → now ≤ t + seconds 20 ∧
        (t + seconds 10 < now → ∀ h ∈ c.served, t < h) := by
  unfold Conn.Sound at hs
  cases hpc : c.pc with
  | spawned =>
      simp only [hpc] at hs
      rcases hs with ⟨-, hserved, hnow⟩
      refine ⟨by omega, fun t _ ht => ⟨by omega, fun _ h hh => ?_⟩⟩
      rw [hserved] at hh
      cases hh
  | handshake deadline =>
      simp only [hpc] at hs
      rcases hs with ⟨-, hserved, hdeadline, hnow⟩
      unfold seconds at *
      refine ⟨by omega, fun t _ ht => ⟨by omega, fun _ h hh => ?_⟩⟩
      rw [hserved] at hh
      cases hh
  | serving deadline =>
      simp only [hpc] at hs
      rcases hs with ⟨-, g, hserved, hg, hdeadline, hnow, hmax⟩
      unfold seconds at *
      refine ⟨by omega, fun t hnotified ht => ?_⟩
      have hlast := hmax t hnotified
      refine ⟨by omega, fun hlate h hh => ?_⟩
      obtain rfl : g = h := Option.some.inj (hserved.symm.trans hh)
      omega
  | draining deadline serving =>
      simp only [hpc] at hs
      rcases hs with ⟨g, hserved, hg, hserving, hnow, hlast, t', ht', hdeadline⟩
      unfold seconds at *
      refine ⟨by omega, fun t hnotified ht => ?_⟩
      obtain rfl : t' = t := Option.some.inj (ht'.symm.trans hnotified)
      refine ⟨by omega, fun hlate h hh => ?_⟩
      obtain rfl : g = h := Option.some.inj (hserved.symm.trans hh)
      omega
  | done => exact absurd hpc hopen

end

/-! ## The end of the loop -/

/-- The notification is the one update of the channel, and nothing is accepted after it. -/
structure Inv (s : State) : Prop where
  version : s.shutdown.version = if s.loop.notified.isSome then 1 else 0
  past : ∀ t ∈ s.loop.notified, t ≤ s.now
  accepted : ∀ c ∈ s.conns, c.accepted ≤ s.now ∧ ∀ t ∈ s.loop.notified, c.accepted ≤ t
  sound : ∀ c ∈ s.conns, c.Sound s.now s.loop.notified
  finished : ∀ t, s.loop = .finished t →
    (∀ c ∈ s.conns, c.pc = .done) ∨ t + seconds 15 ≤ s.now

theorem init_inv {s : State} (h : machine.init s) : Inv s := by
  rcases h with ⟨hshutdown, hloop, hconns⟩
  have hnone : s.loop.notified = none := by rw [hloop]; rfl
  refine ⟨?_, ?_, ?_, ?_, ?_⟩
  · rw [hnone, hshutdown]
    rfl
  · intro t ht
    rw [hnone] at ht
    cases ht
  · intro c hc
    rw [hconns] at hc
    cases hc
  · intro c hc
    rw [hconns] at hc
    cases hc
  · intro t ht
    rw [hloop] at ht
    cases ht

/-- A poll of one task. -/
theorem Inv.poll {s : State} (hi : Inv s) {i : Nat} {c c' : Conn} (hc : s.conns[i]? = some c)
    {result : Ready} (h : c.poll s.now s.shutdown result = some c') :
    Inv { s with conns := s.conns.set i c' } := by
  have hmem := List.mem_of_getElem? hc
  have hversion : s.shutdown.version ≠ 0 → s.loop.notified.isSome = true := by
    intro hne
    by_contra hnone
    rw [hi.version, if_neg hnone] at hne
    exact hne rfl
  rcases (hi.sound c hmem).poll hversion h with ⟨hsound, haccepted⟩
  refine ⟨hi.version, hi.past, ?_, ?_, ?_⟩
  · intro d hd
    rcases List.mem_or_eq_of_mem_set hd with hd | rfl
    · exact hi.accepted d hd
    · rw [haccepted]
      exact hi.accepted c hmem
  · intro d hd
    rcases List.mem_or_eq_of_mem_set hd with hd | rfl
    · exact hi.sound d hd
    · exact hsound
  · intro t ht
    rcases hi.finished t ht with hdone | hlate
    · -- a task that has ended is not polled
      unfold Conn.poll at h
      rw [hdone c hmem] at h
      cases h
    · exact .inr hlate

/-- The wait for the tasks ends. -/
theorem Inv.finish {s : State} (hi : Inv s) {since : Nat} (hloop : s.loop = .closing since)
    (hend : (∀ c ∈ s.conns, c.pc = .done) ∨ since + seconds 15 ≤ s.now) :
    Inv { s with loop := .finished since } := by
  have hsame : s.loop.notified = some since := by rw [hloop]; rfl
  have hversion := hi.version
  have hpast := hi.past
  have haccepted := hi.accepted
  have hsound := hi.sound
  rw [hsame] at hversion hpast haccepted hsound
  refine ⟨hversion, hpast, haccepted, hsound, fun t ht => ?_⟩
  cases ht
  exact hend

theorem step_inv {s s' : State} {a : Action} (hi : Inv s) (hprompt : Prompt s a)
    (h : step s a = some s') : Inv s' := by
  cases a with
  | connect =>
      simp only [step, Option.ite_none_right_eq_some, Option.some.injEq] at h
      rcases h with ⟨hloop, rfl⟩
      have hnone : s.loop.notified = none := by rw [hloop]; rfl
      have hversion := hi.version
      rw [hnone] at hversion
      refine ⟨hi.version, hi.past, ?_, ?_, ?_⟩
      · intro c hc
        rcases List.mem_append.mp hc with hc | hc
        · exact hi.accepted c hc
        · rw [List.mem_singleton.mp hc]
          refine ⟨Nat.le_refl _, fun t ht => ?_⟩
          rw [hnone] at ht
          cases ht
      · intro c hc
        rcases List.mem_append.mp hc with hc | hc
        · exact hi.sound c hc
        · rw [List.mem_singleton.mp hc]
          exact ⟨hversion, rfl, rfl⟩
      · intro t ht
        rw [hloop] at ht
        cases ht
  | leave =>
      simp only [step, Option.ite_none_right_eq_some, Option.some.injEq] at h
      rcases h with ⟨hloop, rfl⟩
      have hnone : s.loop.notified = none := by rw [hloop]; rfl
      have hversion := hi.version
      rw [hnone] at hversion
      refine ⟨?_, ?_, ?_, ?_, ?_⟩
      · show s.shutdown.version + 1 = 1
        rw [hversion]
        rfl
      · intro t ht
        cases ht
        exact Nat.le_refl _
      · intro c hc
        refine ⟨(hi.accepted c hc).1, fun t ht => ?_⟩
        cases ht
        exact (hi.accepted c hc).1
      · intro c hc
        have := hi.sound c hc
        rw [hnone] at this
        exact this.notify
      · intro t ht
        cases ht
  | closed =>
      simp only [step] at h
      split at h
      · rename_i since hloop
        simp only [Option.ite_none_right_eq_some, Option.some.injEq] at h
        rcases h with ⟨hend, rfl⟩
        exact hi.finish hloop (.inl hend)
      · cases h
  | timedOut =>
      simp only [step] at h
      split at h
      · rename_i since hloop
        simp only [Option.ite_none_right_eq_some, Option.some.injEq] at h
        rcases h with ⟨hend, rfl⟩
        exact hi.finish hloop (.inr hend)
      · cases h
  | poll i result =>
      simp only [step] at h
      split at h
      · rename_i c hc
        rcases Option.map_eq_some_iff.mp h with ⟨c', hc', rfl⟩
        exact hi.poll hc hc'
      · cases h
  | tick n =>
      cases h
      have hversion : s.loop.notified.isSome = true → s.shutdown.version ≠ 0 := by
        intro hsome
        rw [hi.version, if_pos hsome]
        decide
      refine ⟨hi.version, ?_, ?_, ?_, ?_⟩
      · intro t ht
        have := hi.past t ht
        show t ≤ s.now + n + 1
        omega
      · intro c hc
        rcases hi.accepted c hc with ⟨hle, hbefore⟩
        refine ⟨?_, hbefore⟩
        show c.accepted ≤ s.now + n + 1
        omega
      · intro c hc
        exact (hi.sound c hc).tick (hprompt.1 c hc) hversion
      · intro t ht
        rcases hi.finished t ht with hdone | hlate
        · exact .inl hdone
        · right
          show t + seconds 15 ≤ s.now + n + 1
          omega

/-- In every run in which tasks are polled when they have something to do: a connection is
open for 191 seconds at most; none accepted before the notification is open twenty seconds
after it, nor ten seconds after it unless its handshake had not ended by then; and when the
loop has finished, all connections have ended or fifteen seconds have passed, so what the
end of the process can cut is only what was in its handshake at the notification. -/
theorem drain_bounded {s : State} (h : machine.Reach Prompt s) :
    (∀ c ∈ s.conns, c.pc ≠ .done → s.now ≤ c.accepted + seconds 191) ∧
    (∀ t ∈ s.loop.notified, ∀ c ∈ s.conns, c.pc ≠ .done → c.accepted ≤ t ∧
      s.now ≤ t + seconds 20 ∧ (t + seconds 10 < s.now → ∀ h ∈ c.served, t < h)) ∧
    (∀ t, s.loop = .finished t → ∀ c ∈ s.conns, c.pc ≠ .done →
      t + seconds 15 ≤ s.now ∧ ∀ h ∈ c.served, t < h) := by
  have hi : Inv s := by
    refine h.invariant (fun _ => init_inv) ?_
    intro s a s' hi hprompt hs
    exact step_inv hi hprompt hs
  have hafter : ∀ t ∈ s.loop.notified, ∀ c ∈ s.conns, c.pc ≠ .done → c.accepted ≤ t ∧
      s.now ≤ t + seconds 20 ∧ (t + seconds 10 < s.now → ∀ h ∈ c.served, t < h) := by
    intro t ht c hc hopen
    have hle := (hi.accepted c hc).2 t ht
    exact ⟨hle, ((hi.sound c hc).bound hopen).2 t ht hle⟩
  refine ⟨fun c hc hopen => ((hi.sound c hc).bound hopen).1, hafter, ?_⟩
  intro t ht c hc hopen
  rcases hi.finished t ht with hdone | hlate
  · exact absurd (hdone c hc) hopen
  · refine ⟨hlate, (hafter t (by rw [ht]; rfl) c hc hopen).2.2 ?_⟩
    unfold seconds at *
    omega

def start : State := ⟨0, .channel (), .accepting, []⟩

theorem start_init : machine.init start := ⟨rfl, rfl, rfl⟩

/-- One connection is served and drained, another is accepted just before the notification,
takes its time for the handshake and is still open when the loop has finished. -/
theorem drain_bounded_cut : ∃ s, machine.Reach Prompt s ∧ s.loop = .finished 5000 ∧
    (s.conns.map Conn.pc = [.done, .draining 24999 195999]) ∧
    ∀ c ∈ s.conns, c.pc ≠ .done → ∀ h ∈ c.served, 5000 < h := by
  obtain ⟨s, hs, hloop, hconns⟩ := Machine.reach_of_runIf Prompt start_init
    [.connect, .poll 0 .pending, .poll 0 .ok, .tick 4999, .connect, .poll 1 .pending, .leave,
      .poll 0 .pending, .tick 9998, .poll 1 .ok, .poll 1 .pending, .tick 0, .poll 0 .pending,
      .tick 4999, .timedOut]
    (fun s => s.loop = .finished 5000 ∧ s.conns.map Conn.pc = [.done, .draining 24999 195999])
    (by decide +kernel)
  exact ⟨s, hs, hloop, hconns, fun c hc hopen => ((drain_bounded hs).2.2 5000 hloop c hc hopen).2⟩

end Hath.Connections
