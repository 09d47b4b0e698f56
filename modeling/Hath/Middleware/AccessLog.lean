import Mathlib.Algebra.BigOperators.Group.List.Basic
import Mathlib.Data.BitVec
import Hath.Basic
import Hath.Lib.Machine
import Hath.Lib.PollStream
import Hath.Text

/-!
# Hath.Middleware.AccessLog — the log of requests and the bytes they sent

`LoggerMiddleware::call` numbers a request; when the inner service has answered, it logs the
status with the announced length and wraps the body in a `LoggerFinalizer`. The finalizer
hands the frames on and adds up the lengths of the data. Its drop logs the request a second
time and counts the bytes for the version of the protocol.

A request that gets an error or is cancelled has no finalizer. `sent` is what has been handed
on; it is read by no step. The times in the lines are left out.

* `Request.Sound` — the number, the bytes and the lines of one request;
* `logged_exactly` — the log and the counters over every run.
-/

namespace Hath.AccessLog

open Lib

/-! ## State -/

/-- Where a request stands. -/
inductive Phase where
  /-- The inner service has not answered. -/
  | serving
  /-- The inner service has failed, or the future has been dropped. -/
  | lost
  /-- There is a body. -/
  | streaming
  /-- The body has been dropped. -/
  | finished
deriving DecidableEq, Repr

/-- A line of the log; `request` is the position of its request. -/
structure Line where
  request : Nat
  count : U64
  code : Nat
  size : U64
  /-- The line of the finalizer. -/
  last : Bool
deriving DecidableEq

structure Request where
  version : Text
  isHead : Bool
  count : U64
  phase : Phase
  code : Nat
  /-- The length in the header of the answer. -/
  announced : U64
  /-- `size` of the finalizer. -/
  size : U64
  sent : Bytes
deriving DecidableEq

/-- The requests in the order of their calls, with the log and the metrics. -/
structure State where
  requests : List Request
  log : List Line
  cacheSent : U64
  cacheSentSize : Text → U64

/-- A frame of a body. -/
inductive Frame where
  | data (bytes : Bytes)
  | trailers
deriving DecidableEq, Repr

inductive Action where
  | call (version : Text) (isHead : Bool)
  /-- The inner service answers, with a `Content-Length` or without. -/
  | respond (i : Nat) (code : Nat) (contentLength : Option Text)
  | lose (i : Nat)
  /-- The body is polled, with the answer of the inner one. -/
  | pollFrame (i : Nat) (answer : Poll (Option (Except Unit Frame)))
  | dropBody (i : Nat)
deriving DecidableEq

/-! ## Steps -/

/-- `LoggerMiddleware::call`, up to the call of the inner service. -/
def Request.new (version : Text) (isHead : Bool) (count : U64) : Request :=
  ⟨version, isHead, count, .serving, 0, 0, 0, []⟩

/-- The length that is logged with the answer. -/
def Request.length (r : Request) (contentLength : Option Text) : U64 :=
  if r.isHead then 0 else BitVec.ofNat 64 ((contentLength.bind (parseNat 64)).getD 0)

/-- The line of the answer. -/
def Request.firstLine (r : Request) (i : Nat) : Line := ⟨i, r.count, r.code, r.announced, false⟩

/-- The line of the finalizer. -/
def Request.lastLine (r : Request) (i : Nat) : Line := ⟨i, r.count, r.code, r.size, true⟩

/-- `LoggerFinalizer::poll_frame`: the answer of the inner body is handed on. -/
def Request.pollFrame (r : Request) : Poll (Option (Except Unit Frame)) → Request
  | .ready (some (.ok (.data bytes))) =>
      { r with size := r.size + BitVec.ofNat 64 bytes.length, sent := r.sent ++ bytes }
  | _ => r

def State.setRequest (s : State) (i : Nat) (r : Request) : State :=
  { s with requests := s.requests.set i r }

def step (s : State) : Action → Option State
  | .call version isHead =>
      let count := s.cacheSent + 1
      some { s with
        requests := s.requests ++ [Request.new version isHead count]
        cacheSent := count }
  | .respond i code contentLength =>
      s.requests[i]?.bind fun r =>
        if r.phase = .serving then
          let r := { r with phase := .streaming, code, announced := r.length contentLength }
          some { s.setRequest i r with log := s.log ++ [r.firstLine i] }
        else none
  | .lose i =>
      s.requests[i]?.bind fun r =>
        if r.phase = .serving then some (s.setRequest i { r with phase := .lost }) else none
  | .pollFrame i answer =>
      s.requests[i]?.bind fun r =>
        if r.phase = .streaming then some (s.setRequest i (r.pollFrame answer)) else none
  | .dropBody i =>
      s.requests[i]?.bind fun r =>
        if r.phase = .streaming then
          some { s.setRequest i { r with phase := .finished } with
            log := s.log ++ [r.lastLine i]
            cacheSentSize := Function.update s.cacheSentSize r.version
              (s.cacheSentSize r.version + r.size) }
        else none

def machine : Machine State Action where
  init s := s = ⟨[], [], 0, fun _ => 0⟩
  step := step

/-! ## One request -/

/-- What the log has of a request. -/
def Request.lines (r : Request) (i : Nat) : List Line :=
  match r.phase with
  | .serving | .lost => []
  | .streaming => [r.firstLine i]
  | .finished => [r.firstLine i, r.lastLine i]

/-- What the metrics have of a request. -/
def Request.counted (version : Text) (r : Request) : U64 :=
  if r.phase = .finished ∧ r.version = version then r.size else 0

/-- The request at a position has its number, and the size is that of what has been sent. -/
structure Request.Sound (i : Nat) (r : Request) : Prop where
  count : r.count = BitVec.ofNat 64 (i + 1)
  size : r.size = BitVec.ofNat 64 r.sent.length

theorem Request.Sound.pollFrame {i : Nat} {r : Request} (h : r.Sound i)
    (answer : Poll (Option (Except Unit Frame))) : (r.pollFrame answer).Sound i := by
  unfold Request.pollFrame
  split
  · rename_i bytes
    constructor
    · exact h.count
    · show r.size + BitVec.ofNat 64 bytes.length = BitVec.ofNat 64 (r.sent ++ bytes).length
      rw [h.size, List.length_append, BitVec.ofNat_add]
  · exact h

theorem Request.pollFrame_phase (r : Request) (answer : Poll (Option (Except Unit Frame))) :
    (r.pollFrame answer).phase = r.phase ∧ (r.pollFrame answer).count = r.count ∧
      (r.pollFrame answer).code = r.code ∧ (r.pollFrame answer).announced = r.announced := by
  unfold Request.pollFrame
  split
  · exact ⟨rfl, rfl, rfl, rfl⟩
  · exact ⟨rfl, rfl, rfl, rfl⟩

/-! ## Runs -/

/-- The lines of the request at a position. -/
def State.linesOf (s : State) (i : Nat) : List Line := s.log.filter fun line => line.request = i

structure Inv (s : State) : Prop where
  sent : s.cacheSent = BitVec.ofNat 64 s.requests.length
  sound : ∀ (i : Nat) (r : Request), s.requests[i]? = some r → r.Sound i
  lines : ∀ (i : Nat) (r : Request), s.requests[i]? = some r → s.linesOf i = r.lines i
  /-- There are no lines of requests to come. -/
  later : ∀ line ∈ s.log, line.request < s.requests.length
  sizes : ∀ version, s.cacheSentSize version = (s.requests.map (Request.counted version)).sum

section

variable {s : State} {i : Nat} {r r' : Request}

theorem lt_of_request (hr : s.requests[i]? = some r) : i < s.requests.length :=
  (List.getElem?_eq_some_iff.mp hr).1

/-- The metrics when one request changes. -/
theorem sum_set (hr : s.requests[i]? = some r) (version : Text) :
    ((s.requests.set i r').map (Request.counted version)).sum =
      (s.requests.map (Request.counted version)).sum - r.counted version + r'.counted version := by
  rcases List.getElem?_eq_some_iff.mp hr with ⟨hi, rfl⟩
  rw [List.map_set, List.sum_set', dif_pos (by rwa [List.length_map]), List.getElem_map,
    sub_eq_add_neg, add_assoc]

/-- A request changes, and the log and the metrics with it. -/
theorem Inv.change (hi : Inv s) (hr : s.requests[i]? = some r) (hsound : r'.Sound i)
    {added : List Line} (hadded : ∀ line ∈ added, line.request = i)
    (hlines : r'.lines i = r.lines i ++ added) {sizes : Text → U64}
    (hsizes : ∀ version, sizes version =
      s.cacheSentSize version - r.counted version + r'.counted version) :
    Inv { s with
      requests := s.requests.set i r', log := s.log ++ added, cacheSentSize := sizes } where
  sent := by
    show s.cacheSent = BitVec.ofNat 64 (s.requests.set i r').length
    rw [List.length_set]
    exact hi.sent
  sound j q hq := by
    by_cases hj : j = i
    · subst hj
      rw [List.getElem?_set_self (lt_of_request hr)] at hq
      exact Option.some.inj hq ▸ hsound
    · rw [List.getElem?_set_ne (Ne.symm hj)] at hq
      exact hi.sound j q hq
  lines j q hq := by
    show (s.log ++ added).filter (fun line => line.request = j) = q.lines j
    rw [List.filter_append]
    by_cases hj : j = i
    · subst hj
      rw [List.getElem?_set_self (lt_of_request hr)] at hq
      obtain rfl := Option.some.inj hq
      have hold : s.log.filter (fun line => line.request = j) = r.lines j := hi.lines j r hr
      have hall : added.filter (fun line => line.request = j) = added :=
        List.filter_eq_self.mpr fun line hline => decide_eq_true (hadded line hline)
      rw [hold, hall, hlines]
    · rw [List.getElem?_set_ne (Ne.symm hj)] at hq
      have hold : s.log.filter (fun line => line.request = j) = q.lines j := hi.lines j q hq
      have hnone : added.filter (fun line => line.request = j) = [] := by
        refine List.filter_eq_nil_iff.mpr ?_
        intro line hline
        rw [hadded line hline]
        exact mt of_decide_eq_true (Ne.symm hj)
      rw [hold, hnone, List.append_nil]
  later line hline := by
    show line.request < (s.requests.set i r').length
    rw [List.length_set]
    rcases List.mem_append.mp hline with hline | hline
    · exact hi.later line hline
    · rw [hadded line hline]
      exact lt_of_request hr
  sizes version := by
    show sizes version = ((s.requests.set i r').map (Request.counted version)).sum
    rw [hsizes, sum_set hr, hi.sizes]

/-- A request that is not finished counts for nothing. -/
theorem counted_of_open (h : r.phase ≠ .finished) (version : Text) : r.counted version = 0 :=
  if_neg fun hr => h hr.1

/-- A request changes, and nothing is logged or counted. -/
theorem Inv.move (hi : Inv s) (hr : s.requests[i]? = some r) (hsound : r'.Sound i)
    (hlines : r'.lines i = r.lines i)
    (hcounted : ∀ version, r'.counted version = r.counted version) :
    Inv (s.setRequest i r') := by
  have h : Inv { s with
      requests := s.requests.set i r', log := s.log ++ [], cacheSentSize := s.cacheSentSize } := by
    refine hi.change hr hsound (fun _ h => absurd h List.not_mem_nil) ?_ ?_
    · rw [List.append_nil]
      exact hlines
    · intro version
      rw [hcounted, sub_add_cancel]
  rwa [List.append_nil] at h

theorem request_append {q : Request} {j : Nat} (hq : (s.requests ++ [r])[j]? = some q) :
    s.requests[j]? = some q ∨ (j = s.requests.length ∧ q = r) := by
  rw [List.getElem?_append] at hq
  split at hq
  · exact .inl hq
  · right
    rcases List.getElem?_eq_some_iff.mp hq with ⟨hlt, rfl⟩
    rw [List.length_singleton] at hlt
    constructor
    · omega
    · exact List.getElem_singleton hlt

/-- A new request comes last. -/
theorem Inv.call (hi : Inv s) (version : Text) (isHead : Bool) :
    Inv { s with
      requests := s.requests ++ [Request.new version isHead (s.cacheSent + 1)]
      cacheSent := s.cacheSent + 1 } where
  sent := by
    show s.cacheSent + 1 = BitVec.ofNat 64 (s.requests ++ [_]).length
    rw [hi.sent, List.length_append, List.length_singleton, BitVec.ofNat_add]
    rfl
  sound j q hq := by
    rcases request_append hq with hq | ⟨rfl, rfl⟩
    · exact hi.sound j q hq
    · constructor
      · show s.cacheSent + 1 = _
        rw [hi.sent, BitVec.ofNat_add]
        rfl
      · rfl
  lines j q hq := by
    rcases request_append hq with hq | ⟨rfl, rfl⟩
    · exact hi.lines j q hq
    · refine List.filter_eq_nil_iff.mpr ?_
      intro line hline
      exact mt of_decide_eq_true (Nat.ne_of_lt (hi.later line hline))
  later line hline := by
    show line.request < (s.requests ++ [_]).length
    rw [List.length_append]
    exact Nat.lt_add_right _ (hi.later line hline)
  sizes v := by
    show s.cacheSentSize v = ((s.requests ++ [_]).map (Request.counted v)).sum
    rw [List.map_append, List.sum_append, hi.sizes, List.map_singleton, List.sum_singleton,
      counted_of_open (by simp [Request.new]), add_zero]

theorem step_inv {s' : State} {a : Action} (hi : Inv s) (h : step s a = some s') : Inv s' := by
  cases a with
  | call version isHead =>
      obtain rfl := Option.some.inj h
      exact hi.call version isHead
  | respond i code contentLength =>
      rcases Option.bind_eq_some_iff.mp h with ⟨r, hr, h⟩
      simp only [Option.ite_none_right_eq_some, Option.some.injEq] at h
      rcases h with ⟨hphase, rfl⟩
      have hsound : Request.Sound i
          { r with phase := .streaming, code, announced := r.length contentLength } :=
        ⟨(hi.sound i r hr).count, (hi.sound i r hr).size⟩
      refine hi.change hr hsound ?_ ?_ ?_
      · intro line hline
        rw [List.mem_singleton.mp hline]
        rfl
      · rw [Request.lines, Request.lines, hphase]
        rfl
      · intro version
        rw [counted_of_open (by simp [hphase]), sub_zero]
        exact (add_zero _).symm
  | lose i =>
      rcases Option.bind_eq_some_iff.mp h with ⟨r, hr, h⟩
      simp only [Option.ite_none_right_eq_some, Option.some.injEq] at h
      rcases h with ⟨hphase, rfl⟩
      refine hi.move hr ⟨(hi.sound i r hr).count, (hi.sound i r hr).size⟩ ?_ ?_
      · rw [Request.lines, Request.lines, hphase]
      · intro version
        rw [counted_of_open (r := r) (by simp [hphase])]
        rfl
  | pollFrame i answer =>
      rcases Option.bind_eq_some_iff.mp h with ⟨r, hr, h⟩
      simp only [Option.ite_none_right_eq_some, Option.some.injEq] at h
      rcases h with ⟨hphase, rfl⟩
      rcases r.pollFrame_phase answer with ⟨hsame, hcount, hcode, hannounced⟩
      refine hi.move hr ((hi.sound i r hr).pollFrame answer) ?_ ?_
      · rw [Request.lines, Request.lines, hsame, hphase]
        simp only [Request.firstLine, hcount, hcode, hannounced]
      · intro version
        rw [counted_of_open (by simp [hsame, hphase]), counted_of_open (by simp [hphase])]
  | dropBody i =>
      rcases Option.bind_eq_some_iff.mp h with ⟨r, hr, h⟩
      simp only [Option.ite_none_right_eq_some, Option.some.injEq] at h
      rcases h with ⟨hphase, rfl⟩
      have hsound : Request.Sound i { r with phase := .finished } :=
        ⟨(hi.sound i r hr).count, (hi.sound i r hr).size⟩
      refine hi.change hr hsound ?_ ?_ ?_
      · intro line hline
        rw [List.mem_singleton.mp hline]
        rfl
      · rw [Request.lines, Request.lines, hphase]
        rfl
      · intro version
        rw [counted_of_open (by simp [hphase]), sub_zero]
        by_cases hversion : version = r.version
        · subst hversion
          rw [Function.update_self, Request.counted, if_pos ⟨rfl, rfl⟩]
        · rw [Function.update_of_ne hversion, Request.counted,
            if_neg fun h => hversion h.2.symm, add_zero]

/-- In every state of every run: a request has the number of its call; the log has nothing of
it before its answer or if there is none, one line from the answer on, and a second one,
with the bytes that have been handed on, once the body is gone; and what the metrics have
for a version of the protocol are the bytes of its finished requests. -/
theorem logged_exactly (h : machine.Reachable s) :
    (∀ (i : Nat) (r : Request), s.requests[i]? = some r →
      r.count = BitVec.ofNat 64 (i + 1) ∧ r.size = BitVec.ofNat 64 r.sent.length ∧
        s.linesOf i = r.lines i) ∧
      ∀ version, s.cacheSentSize version = (s.requests.map (Request.counted version)).sum := by
  have hi : Inv s := by
    refine h.invariant ?_ ?_
    · rintro s rfl
      constructor
      · rfl
      · intro i r hr
        cases hr
      · intro i r hr
        cases hr
      · intro line hline
        cases hline
      · intro version
        rfl
    · intro s a s' hi hs
      exact step_inv hi hs
  constructor
  · intro i r hr
    exact ⟨(hi.sound i r hr).count, (hi.sound i r hr).size, hi.lines i r hr⟩
  · exact hi.sizes

/-- A download that is cut off: its header announces more than its last line says. -/
theorem logged_exactly_cut : ∃ s, machine.Reachable s ∧
    s.linesOf 0 = [⟨0, 1, 200, 8, false⟩, ⟨0, 1, 200, 5, true⟩] ∧
    s.cacheSentSize "HTTP/1.1".toList =
      (s.requests.map (Request.counted "HTTP/1.1".toList)).sum := by
  obtain ⟨s, hs, hlines⟩ := Machine.reachable_of_run (M := machine) rfl
    [.call "HTTP/1.1".toList false, .call "HTTP/1.1".toList true, .respond 0 200 (some ['8']),
      .pollFrame 0 (.ready (some (.ok (.data [1, 2])))), .pollFrame 0 .pending, .respond 1 200 none,
      .pollFrame 0 (.ready (some (.ok (.data [3, 4, 5])))), .dropBody 1, .dropBody 0]
    (fun s => s.linesOf 0 = [⟨0, 1, 200, 8, false⟩, ⟨0, 1, 200, 5, true⟩]) (by decide +kernel)
  exact ⟨s, hs, hlines, (logged_exactly hs).2 _⟩

end

end Hath.AccessLog
