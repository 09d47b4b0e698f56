import Mathlib.Algebra.BigOperators.Group.List.Basic
import Hath.Lib.Machine
import Hath.Text

/-!
# Hath.Route.ProxyThreads — the connections of a threaded proxy test

`threaded_proxy_test` spawns a task for each connection, which asks for its URL up to three
times until a body of the right size has come, and returns how long that body took. Then the
tasks are awaited one after the other, and the answer says how many there were and what time
they took together. `Hath.Route.SpeedTest` has the URLs and the other end; whether
`Url::parse` takes them, which depends on the protocol and the host, is a parameter.

Times are nanoseconds. `responded` and `bodies` record when the responses and the ends of the
attempts have come and are read by no step. The speed that goes to the log is left out, but
not its product, which is one of `u32`.

* `TaskOk` — the attempts of one connection;
* `report_exact` — the answer over every interleaving.
-/

namespace Hath.ProxyThreads

open Lib

/-! ## State and steps -/

/-- Where a task stands. -/
inductive Pc where
  /-- In `send`. -/
  | requesting (retry : Nat)
  /-- In `try_fold`, with the size so far, from the time `start` on. -/
  | reading (retry size start : Nat)
  | returned (time : Option Nat)
deriving DecidableEq, Repr

/-- How an attempt went: when its response and its end came, and the size of the body, `none`
for an error. -/
structure Body where
  began : Nat
  ended : Nat
  size : Option Nat
deriving DecidableEq

/-- A task; `responded` is the time of its last response. -/
structure Task where
  pc : Pc
  responded : Nat
  bodies : List Body
deriving DecidableEq

structure State where
  now : Nat
  task : Nat → Task
  spawned : Nat
  /-- The tasks that have been awaited. -/
  joined : Nat
  success : Nat
  totalTime : Nat
  /-- The answer, or a panic. -/
  report : Option (Except Unit Text)

inductive Action where
  | tick (n : Nat)
  /-- The URL of the next connection is parsed, and its task spawned. -/
  | spawn
  /-- The response to a request; `ok` if there is one that is no error. -/
  | response (i : Nat) (ok : Bool)
  | chunk (i n : Nat)
  | broken (i : Nat)
  | ended (i : Nat)
  /-- The next task has been awaited. -/
  | join
  | answer
deriving DecidableEq

section

variable (checks parses : Bool) (size count : Nat)

/-- The end of the attempt is recorded. -/
def Task.record (t : Task) (now : Nat) (body : Option Nat) : Task :=
  { t with bodies := t.bodies ++ [⟨t.responded, now, body⟩] }

/-- The attempt is over without the right size. -/
def Task.again (t : Task) (retry : Nat) : Task :=
  { t with pc := if retry + 1 < 3 then .requesting (retry + 1) else .returned none }

/-- One step of a task. -/
def taskStep (now : Nat) (t : Task) : Action → Option Task
  | .response _ ok =>
      match t.pc with
      | .requesting retry =>
          let t := { t with responded := now }
          some (if ok then { t with pc := .reading retry 0 now }
            else (t.record now none).again retry)
      | _ => none
  | .chunk _ n =>
      match t.pc with
      | .reading retry got start => some { t with pc := .reading retry (got + n) start }
      | _ => none
  | .broken _ =>
      match t.pc with
      | .reading retry _ _ => some ((t.record now none).again retry)
      | _ => none
  | .ended _ =>
      match t.pc with
      | .reading retry got start =>
          let t := t.record now (some got)
          some (if got = size then { t with pc := .returned (some (now - start)) }
            else t.again retry)
      | _ => none
  | _ => none

/-- The answer; `size * success` is computed in `u32`. -/
def answer (success totalTime : Nat) : Except Unit Text :=
  if checks = true ∧ 2 ^ 32 ≤ size * success then .error ()
  else .ok ("OK:".toList ++ natText success ++ '-' :: natText (totalTime / 1000000))

def step (s : State) (a : Action) : Option State :=
  match a with
  | .tick n => some { s with now := s.now + n }
  | .spawn =>
      if s.spawned < count ∧ s.report = none then
        some (if parses then { s with spawned := s.spawned + 1 }
          else { s with report := some (.error ()) })
      else none
  | .response i _ | .chunk i _ | .broken i | .ended i =>
      if i < s.spawned then
        (taskStep size s.now (s.task i) a).map fun t =>
          { s with task := Function.update s.task i t }
      else none
  | .join =>
      if s.spawned = count ∧ s.joined < count then
        match (s.task s.joined).pc with
        | .returned (some time) =>
            some { s with
              joined := s.joined + 1
              success := s.success + 1
              totalTime := s.totalTime + time }
        | .returned none => some { s with joined := s.joined + 1 }
        | _ => none
      else none
  | .answer =>
      if s.spawned = count ∧ s.joined = count ∧ s.report = none then
        some { s with report := some (answer checks size s.success s.totalTime) }
      else none

/-- No task has been spawned. -/
def start : State := ⟨0, fun _ => ⟨.requesting 0, 0, []⟩, 0, 0, 0, 0, none⟩

def machine : Machine State Action where
  init s := s = start
  step := step checks parses size count

end

/-! ## The tasks -/

/-- How long the task has taken for a body of the right size. -/
def Task.time (t : Task) : Option Nat :=
  match t.pc with
  | .returned time => time
  | _ => none

/-- A task is in an attempt that is not over. -/
def Task.Running (t : Task) : Prop := ∀ time, t.pc ≠ .returned time

/-- No body of a task has had the right size. -/
def Task.Short (size : Nat) (t : Task) : Prop := ∀ b ∈ t.bodies, b.size ≠ some size

/-- The attempts of a task: at most three, and none after a body of the right size, for which
it took as long as the clock says. -/
def TaskOk (size : Nat) (t : Task) : Prop :=
  match t.pc with
  | .requesting retry => t.bodies.length = retry ∧ retry < 3 ∧ t.Short size
  | .reading retry _ start =>
      t.bodies.length = retry ∧ retry < 3 ∧ t.Short size ∧ start = t.responded
  | .returned none => t.bodies.length = 3 ∧ t.Short size
  | .returned (some time) => ∃ before b, t.bodies = before ++ [b] ∧ before.length < 3 ∧
      (∀ b ∈ before, b.size ≠ some size) ∧ b.size = some size ∧ time = b.ended - b.began

section

variable {checks parses : Bool} {size count : Nat} {s s' : State}

theorem again_ok {t : Task} {retry now : Nat} {body : Option Nat} (hlen : t.bodies.length = retry)
    (hlt : retry < 3) (hshort : t.Short size) (hbody : body ≠ some size) :
    TaskOk size ((t.record now body).again retry) := by
  have hlen' : (t.record now body).bodies.length = retry + 1 := by
    rw [Task.record, List.length_append, hlen, List.length_singleton]
  have hshort' : (t.record now body).Short size := by
    intro b hb
    rcases List.mem_append.mp hb with hb | hb
    · exact hshort b hb
    · rw [List.mem_singleton.mp hb]
      exact hbody
  by_cases hmore : retry + 1 < 3
  · have hpc : ((t.record now body).again retry).pc = .requesting (retry + 1) := if_pos hmore
    rw [TaskOk, hpc]
    exact ⟨hlen', hmore, hshort'⟩
  · have hpc : ((t.record now body).again retry).pc = .returned none := if_neg hmore
    rw [TaskOk, hpc]
    refine ⟨?_, hshort'⟩
    show (t.record now body).bodies.length = 3
    omega

theorem taskStep_ok {now : Nat} {t t' : Task} {a : Action} (ht : TaskOk size t)
    (hs : taskStep size now t a = some t') : TaskOk size t' ∧ t.Running := by
  unfold TaskOk at ht
  cases hpc : t.pc with
  | returned time =>
      cases a <;> simp [taskStep, hpc] at hs
  | requesting retry =>
      rw [hpc] at ht
      rcases ht with ⟨hlen, hlt, hshort⟩
      refine ⟨?_, fun time h => by rw [hpc] at h; cases h⟩
      cases a with
      | response i ok =>
          simp only [taskStep, hpc, Option.some.injEq] at hs
          rw [← hs]
          cases ok with
          | true => exact ⟨hlen, hlt, hshort, rfl⟩
          | false => exact again_ok (t := { t with responded := now }) hlen hlt hshort nofun
      | _ => simp [taskStep, hpc] at hs
  | reading retry got start =>
      rw [hpc] at ht
      rcases ht with ⟨hlen, hlt, hshort, hstart⟩
      refine ⟨?_, fun time h => by rw [hpc] at h; cases h⟩
      cases a with
      | chunk i n =>
          simp only [taskStep, hpc, Option.some.injEq] at hs
          rw [← hs]
          exact ⟨hlen, hlt, hshort, hstart⟩
      | broken i =>
          simp only [taskStep, hpc, Option.some.injEq] at hs
          rw [← hs]
          exact again_ok hlen hlt hshort nofun
      | ended i =>
          simp only [taskStep, hpc, Option.some.injEq] at hs
          rw [← hs]
          split
          · rename_i hsize
            rw [hsize, hstart]
            exact ⟨t.bodies, _, rfl, by omega, hshort, rfl, rfl⟩
          · rename_i hsize
            refine again_ok hlen hlt hshort ?_
            simpa using hsize
      | _ => simp [taskStep, hpc] at hs

/-! ## The answer -/

structure Inv (checks parses : Bool) (size count : Nat) (s : State) : Prop where
  tasks : ∀ i, TaskOk size (s.task i)
  spawned : parses = false → s.spawned = 0
  joined : s.joined ≤ count
  ended : ∀ i < s.joined, ¬ (s.task i).Running
  success : s.success = (List.range s.joined).countP fun i => (s.task i).time.isSome
  totalTime : s.totalTime = ((List.range s.joined).map fun i => (s.task i).time.getD 0).sum
  report : ∀ result, s.report = some result →
    (parses = false ∧ 0 < count ∧ result = .error ()) ∨
      (s.spawned = count ∧ s.joined = count ∧ result = answer checks size s.success s.totalTime)

theorem start_inv : Inv checks parses size count start where
  tasks i := ⟨rfl, by decide, fun _ h => absurd h List.not_mem_nil⟩
  spawned _ := rfl
  joined := Nat.zero_le _
  ended i hi := absurd hi (Nat.not_lt_zero i)
  success := rfl
  totalTime := rfl
  report := nofun

/-- A step of a task that is running does not change what has been awaited. -/
theorem Inv.task (hi : Inv checks parses size count s) {i : Nat} {t : Task} {a : Action}
    (hs : taskStep size s.now (s.task i) a = some t) :
    Inv checks parses size count { s with task := Function.update s.task i t } := by
  rcases taskStep_ok (hi.tasks i) hs with ⟨hok, hrunning⟩
  have hsame : ∀ j < s.joined, Function.update s.task i t j = s.task j := by
    intro j hj
    refine Function.update_of_ne ?_ _ _
    rintro rfl
    exact hi.ended j hj hrunning
  refine ⟨?_, hi.spawned, hi.joined, ?_, ?_, ?_, hi.report⟩
  · intro j
    by_cases hj : j = i
    · subst hj
      simp only [Function.update_self]
      exact hok
    · simp only [Function.update_of_ne hj]
      exact hi.tasks j
  · intro j hj
    simp only [hsame j hj]
    exact hi.ended j hj
  · rw [hi.success]
    refine List.countP_congr ?_
    intro j hj
    simp only [hsame j (List.mem_range.mp hj)]
  · rw [hi.totalTime]
    refine congrArg List.sum (List.map_congr_left ?_)
    intro j hj
    simp only [hsame j (List.mem_range.mp hj)]

/-- The next task is awaited. -/
theorem Inv.join (hi : Inv checks parses size count s) (hlt : s.joined < count)
    {time : Option Nat} (hpc : (s.task s.joined).pc = .returned time) :
    Inv checks parses size count { s with
      joined := s.joined + 1
      success := s.success + if time.isSome then 1 else 0
      totalTime := s.totalTime + time.getD 0 } := by
  have htime : (s.task s.joined).time = time := by rw [Task.time, hpc]
  refine ⟨hi.tasks, hi.spawned, hlt, ?_, ?_, ?_, ?_⟩
  · intro i hlti
    rcases Nat.lt_succ_iff_lt_or_eq.mp hlti with hlti | rfl
    · exact hi.ended i hlti
    · intro hrunning
      exact hrunning time hpc
  · simp only [List.range_succ, List.countP_append, List.countP_singleton, htime]
    rw [hi.success]
  · simp only [List.range_succ, List.map_append, List.sum_append, List.map_singleton,
      List.sum_singleton, htime]
    rw [hi.totalTime]
  · intro result hresult
    rcases hi.report result hresult with hpanic | ⟨-, hjoined, -⟩
    · exact .inl hpanic
    · exact absurd hjoined (Nat.ne_of_lt hlt)

theorem step_inv {a : Action} (hi : Inv checks parses size count s)
    (hs : step checks parses size count s a = some s') : Inv checks parses size count s' := by
  cases a with
  | tick n =>
      obtain rfl := Option.some.inj hs
      exact ⟨hi.tasks, hi.spawned, hi.joined, hi.ended, hi.success, hi.totalTime, hi.report⟩
  | spawn =>
      simp only [step, Option.ite_none_right_eq_some, Option.some.injEq] at hs
      rcases hs with ⟨⟨hlt, hopen⟩, rfl⟩
      cases parses with
      | true =>
          refine ⟨hi.tasks, fun h => absurd h (by decide), hi.joined, hi.ended, hi.success,
            hi.totalTime, ?_⟩
          intro result hresult
          rw [show s.report = some result from hresult] at hopen
          cases hopen
      | false =>
          refine ⟨hi.tasks, hi.spawned, hi.joined, hi.ended, hi.success, hi.totalTime, ?_⟩
          intro result hresult
          exact .inl ⟨rfl, Nat.zero_lt_of_lt hlt, (Option.some.inj hresult).symm⟩
  | response | chunk | broken | ended =>
      simp only [step, Option.ite_none_right_eq_some] at hs
      rcases hs with ⟨-, hs⟩
      rcases Option.map_eq_some_iff.mp hs with ⟨t, ht, rfl⟩
      exact hi.task ht
  | join =>
      simp only [step, Option.ite_none_right_eq_some] at hs
      rcases hs with ⟨⟨-, hlt⟩, hs⟩
      split at hs
      · rename_i time hpc
        cases hs
        exact hi.join hlt hpc
      · rename_i hpc
        cases hs
        exact hi.join hlt hpc
      · cases hs
  | answer =>
      simp only [step, Option.ite_none_right_eq_some, Option.some.injEq] at hs
      rcases hs with ⟨⟨hall, hjoined, -⟩, rfl⟩
      refine ⟨hi.tasks, hi.spawned, hi.joined, hi.ended, hi.success, hi.totalTime, ?_⟩
      intro result hresult
      exact .inr ⟨hall, hjoined, (Option.some.inj hresult).symm⟩

/-- How long the last body has taken from its response on, if it has the right size. -/
def Task.delivered (size : Nat) (t : Task) : Option Nat :=
  (t.bodies.getLast?.filter fun b => b.size = some size).map fun b => b.ended - b.began

theorem time_eq {t : Task} (ht : TaskOk size t) (hover : ¬ t.Running) :
    t.time = t.delivered size ∧ ((t.delivered size).isSome = true ∨ t.bodies.length = 3) := by
  unfold TaskOk at ht
  unfold Task.time Task.delivered
  split at ht
  · rename_i hpc
    exact absurd (fun time h => by rw [hpc] at h; cases h) hover
  · rename_i hpc
    exact absurd (fun time h => by rw [hpc] at h; cases h) hover
  · rename_i hpc
    rcases ht with ⟨hlen, hshort⟩
    rw [hpc]
    refine ⟨?_, .inr hlen⟩
    have hnone : (t.bodies.getLast?.filter fun b => b.size = some size) = none := by
      rw [Option.filter_eq_none_iff]
      intro b hb
      simpa using hshort b (List.mem_of_getLast? hb)
    rw [hnone]
    rfl
  · rename_i time hpc
    rcases ht with ⟨before, b, hbodies, -, -, hsize, htime⟩
    rw [hpc, hbodies, List.getLast?_concat, Option.filter_some, if_pos (decide_eq_true hsize)]
    exact ⟨congrArg some htime, .inl rfl⟩

/-- No body follows one of the right size. -/
theorem last_of_size {t : Task} (ht : TaskOk size t) : t.bodies.length ≤ 3 ∧
    ∀ k b, t.bodies[k]? = some b → b.size = some size → k + 1 = t.bodies.length := by
  have habsent (hshort : t.Short size) (k : Nat) (b : Body) (hk : t.bodies[k]? = some b)
      (hsize : b.size = some size) : k + 1 = t.bodies.length :=
    absurd hsize (hshort b (List.mem_of_getElem? hk))
  unfold TaskOk at ht
  split at ht
  · exact ⟨by omega, habsent ht.2.2⟩
  · exact ⟨by omega, habsent ht.2.2.1⟩
  · exact ⟨ht.1.le, habsent ht.2⟩
  · rcases ht with ⟨before, last, hbodies, hlen, hbefore, -, -⟩
    rw [hbodies, List.length_append, List.length_singleton]
    refine ⟨hlen, ?_⟩
    intro k b hk hsize
    by_cases hlt : k < before.length
    · rw [List.getElem?_append_left hlt] at hk
      exact absurd hsize (hbefore b (List.mem_of_getElem? hk))
    · have := (List.getElem?_eq_some_iff.mp hk).1
      rw [List.length_append, List.length_singleton] at this
      omega

/-- In every interleaving of the connections: each asks at most three times, and no more after
a body of the right size. If the URLs cannot be parsed, the only outcome is a panic; else,
when the answer is given, every connection has had its body or its three attempts, and the
answer is the number of those that have had it, with the milliseconds from the responses to
the ends of these bodies. With overflow checks, it fails exactly where the size of all these
bodies does not fit into 32 bits. -/
theorem report_exact (h : (machine checks parses size count).Reachable s) :
    (∀ i < count, (s.task i).bodies.length ≤ 3 ∧
      ∀ k b, (s.task i).bodies[k]? = some b → b.size = some size →
        k + 1 = (s.task i).bodies.length) ∧
    ∀ result, s.report = some result →
      (parses = false ∧ 0 < count ∧ result = .error ()) ∨
      ((parses = true ∨ count = 0) ∧
        (∀ i < count, ((s.task i).delivered size).isSome = true ∨
          (s.task i).bodies.length = 3) ∧
        result = answer checks size
          ((List.range count).countP fun i => ((s.task i).delivered size).isSome)
          ((List.range count).map fun i => ((s.task i).delivered size).getD 0).sum) := by
  have hi : Inv checks parses size count s := by
    refine h.invariant ?_ ?_
    · rintro s rfl
      exact start_inv
    · intro s a s' hi hs
      exact step_inv hi hs
  refine ⟨fun i _ => last_of_size (hi.tasks i), ?_⟩
  intro result hresult
  rcases hi.report result hresult with hpanic | ⟨hspawned, hjoined, hanswer⟩
  · exact .inl hpanic
  right
  have htime : ∀ i < count, (s.task i).time = (s.task i).delivered size ∧
      (((s.task i).delivered size).isSome = true ∨ (s.task i).bodies.length = 3) :=
    fun i hlt => time_eq (hi.tasks i) (hi.ended i (hjoined ▸ hlt))
  refine ⟨?_, fun i hlt => (htime i hlt).2, ?_⟩
  · cases hparses : parses with
    | true => exact .inl rfl
    | false => exact .inr (hspawned.symm.trans (hi.spawned hparses))
  · have hsame : ∀ i ∈ List.range count, (s.task i).time = (s.task i).delivered size :=
      fun i hmem => (htime i (List.mem_range.mp hmem)).1
    rw [hanswer, hi.success, hi.totalTime, hjoined]
    congr 1
    · refine List.countP_congr ?_
      intro i hmem
      rw [hsame i hmem]
    · refine congrArg List.sum (List.map_congr_left ?_)
      intro i hmem
      rw [hsame i hmem]

end

/-- Of two connections one has its body in the second attempt. -/
theorem report_exact_one :
    ∃ s, (machine true true 5 2).Reachable s ∧ s.report = some (.ok "OK:1-3".toList) ∧
      (s.task 0).delivered 5 = some 3000000 ∧ ((s.task 1).bodies.length = 3 ∨
        ((s.task 1).delivered 5).isSome = true) := by
  obtain ⟨s, hs, hreport, htime⟩ := Machine.reachable_of_run
    (show (machine true true 5 2).init start from rfl)
    [.spawn, .tick 1000, .response 0 false, .response 0 true, .spawn, .response 1 true,
      .chunk 0 2, .ended 1, .tick 3000000, .chunk 0 3, .response 1 false, .ended 0, .join,
      .response 1 true, .broken 1, .join, .answer]
    (fun s => (s.report.any fun r => r.toOption = some "OK:1-3".toList) ∧
      (s.task 0).delivered 5 = some 3000000) (by decide +kernel)
  have hanswer : s.report = some (.ok "OK:1-3".toList) := by
    cases hr : s.report with
    | none => simp [hr] at hreport
    | some r =>
        cases r with
        | error e => simp [hr, Except.toOption] at hreport
        | ok text =>
            rw [hr] at hreport
            have htext : text = "OK:1-3".toList := by simpa [Except.toOption] using hreport
            rw [htext]
  rcases (report_exact hs).2 _ hanswer with ⟨h, -⟩ | ⟨-, hall, -⟩
  · cases h
  · exact ⟨s, hs, hanswer, htime, (hall 1 (by decide)).symm⟩

end Hath.ProxyThreads
