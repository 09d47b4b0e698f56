import Mathlib.Data.List.Basic
import Hath.Lib.Machine
import Hath.Lib.Watch
import Hath.Server.H3Quinn

/-!
# Hath.Server.H3 — an HTTP/3 connection and its requests

The task of a connection in `accept_loop_h3` accepts requests and spawns a task for each of
them. When the accept loop notifies it, it sends a GOAWAY, accepts nothing more and waits
until every request task has dropped its `request_done`; then it drops the connection,
which would reset what still runs. The accept loop waits for its connections, but no longer
than fifteen seconds, and closes the endpoint. A request task sends the header and the frames
of the body, reads what the client sends, and waits in `finish` for the client to have
everything.

Times are in milliseconds. `h3` is seen through the calls it makes on the streams: a frame
is `send_data` and polls of `poll_ready`, and `finish` may send a frame of its own before
the polls of `poll_finish`.

* `Quinn` — what the QUIC stream promises about its outcomes;
* `shutdown_delivers` — a connection that ends by the notification cuts no response, and the
  endpoint none before the fifteen seconds are over.
-/

namespace Hath.H3

open Lib H3Quinn

/-! ## State -/

/-- Where a request task stands. -/
inductive ReqPc where
  | resolving
  /-- In `service.call`. -/
  | calling
  /-- `send_data` has taken the header. -/
  | responding
  /-- Between two frames of the body. -/
  | body
  /-- `send_data` has taken a frame of the body. -/
  | sending
  /-- In the loop around `recv_data`. -/
  | receiving
  /-- `finish` sends its own frame. -/
  | greasing
  /-- In `poll_finish`. -/
  | finishing
  /-- `request_done` is dropped; `complete` if at the end of the task. -/
  | returned (complete : Bool)
deriving DecidableEq, Repr

/-- The task has not dropped its `request_done`. -/
def ReqPc.running : ReqPc → Bool
  | .returned _ => false
  | _ => true

/-- A request; `taken`, the frames so far, and `cut` are read by no step. -/
structure Request where
  blocked : Bool
  stream : SendStream
  pc : ReqPc
  taken : Bytes
  /-- The connection was dropped, or the endpoint closed, while the task was running. -/
  cut : Bool
deriving DecidableEq, Repr

inductive ConnPc where
  | handshake
  | accepting
  /-- In `close_wait.closed()`. -/
  | leaving
  /-- `h3_conn` is dropped. -/
  | ended (graceful : Bool)
deriving DecidableEq, Repr

/-- `notified` is the time of the notification; `closed` says that the endpoint has been
closed. -/
structure State where
  now : Nat
  shutdown : Watch Unit
  notified : Option Nat
  closed : Bool
  seen : Nat
  pc : ConnPc
  requests : List Request

/-- A step of a request task, or something that happens to its stream. -/
inductive ReqAction where
  | resolved (ok : Bool)
  | respond (header : Bytes)
  | frame (data : Bytes)
  | bodyFailed
  | bodyEnds
  | pollReady (outcomes : List SendStream.Write)
  | timedOut
  /-- The request body has ended, or its timeout; `finish` sends a frame or none. -/
  | received (grease : Option Bytes)
  | pollFinish (outcome : SendStream.Stopped)
  | ack (n : Nat)
  | stop
  | lose
deriving DecidableEq, Repr

inductive Action where
  | tick (n : Nat)
  /-- The accept loop notifies its connections. -/
  | notify
  /-- The accept loop closes the endpoint. -/
  | close
  | connected (ok : Bool)
  | accept (blocked : Bool)
  /-- `accept` returns `None` or an error. -/
  | acceptEnds
  | leave
  | closed
  | request (i : Nat) (a : ReqAction)
deriving DecidableEq, Repr

/-! ## Steps -/

namespace Request

def new (blocked cut : Bool) : Request := ⟨blocked, .new, .resolving, [], cut⟩

/-- `stop_stream`, and the early return after it. -/
def stopStream (r : Request) : Request := { r with stream := r.stream.reset, pc := .returned false }

/-- `send_data` with the frame, and on to the polls. -/
def send (r : Request) (data : Bytes) (pc : ReqPc) : Request :=
  match r.stream.sendData data with
  | (stream, .ok ()) => { r with stream, pc, taken := r.taken ++ data }
  | (stream, .error _) => { r with stream, pc := .returned false }

/-- A poll of `poll_ready`, with where its two results lead. -/
def write (r : Request) (outcomes : List SendStream.Write) (next failed : ReqPc) : Request :=
  match SendStream.pollReady outcomes r.stream with
  | (stream, .pending) => { r with stream }
  | (stream, .ready (.ok ())) => { r with stream, pc := next }
  | (stream, .ready (.error _)) => { r with stream, pc := failed }

/-- A poll of `poll_finish`, whose result is not looked at. -/
def finish (r : Request) (outcome : SendStream.Stopped) : Request :=
  match r.stream.pollFinish outcome with
  | (stream, .pending) => { r with stream }
  | (stream, .ready _) => { r with stream, pc := .returned true }

/-- What happens to the QUIC stream. -/
def setQuic (r : Request) (q : Quic) : Request := { r with stream := { r.stream with stream := q } }

/-- The connection is dropped or the endpoint closed. -/
def close (r : Request) : Request := { r with cut := r.cut || r.pc.running }

def step (r : Request) : ReqAction → Option Request
  | .resolved ok =>
      if r.pc = .resolving then
        some (if ok then if r.blocked then r.stopStream else { r with pc := .calling }
          else { r with pc := .returned false })
      else none
  | .respond header => if r.pc = .calling then some (r.send header .responding) else none
  | .frame data => if r.pc = .body then some (r.send data .sending) else none
  | .bodyFailed => if r.pc = .body then some r.stopStream else none
  | .bodyEnds => if r.pc = .body then some { r with pc := .receiving } else none
  | .pollReady outcomes =>
      match r.pc with
      | .responding | .sending => some (r.write outcomes .body (.returned false))
      -- the result of `finish` is not looked at
      | .greasing => some (r.write outcomes .finishing (.returned true))
      | _ => none
  | .timedOut => if r.pc = .body ∨ r.pc = .sending then some r.stopStream else none
  | .received grease =>
      if r.pc = .receiving then
        some (match grease with
          | some data => r.send data .greasing
          | none => { r with pc := .finishing })
      else none
  | .pollFinish outcome =>
      if r.pc = .finishing then some (r.finish outcome) else none
  | .ack n =>
      if r.stream.stream.acked ≤ n ∧ n ≤ r.stream.stream.sent.length then
        some (r.setQuic { r.stream.stream with acked := n })
      else none
  | .stop => some (r.setQuic { r.stream.stream with stopped := true })
  | .lose => some (r.setQuic { r.stream.stream with lost := true })

end Request

/-- The `timeout` of `shutdown_tx.closed()`, in milliseconds. -/
def closeTimeout : Nat := 15000

/-- The accept loop has waited for its timeout. -/
def Late (s : State) : Prop := ∃ t ∈ s.notified, t + closeTimeout ≤ s.now

instance (s : State) : Decidable (Late s) := inferInstanceAs (Decidable (∃ _ ∈ s.notified, _))

/-- The task of the connection is over, and its receiver dropped. -/
def ConnPc.over : ConnPc → Bool
  | .ended _ => true
  | _ => false

def step (s : State) : Action → Option State
  | .tick n => some { s with now := s.now + n }
  | .notify =>
      if s.notified = none then
        some { s with shutdown := s.shutdown.send (), notified := some s.now }
      else none
  -- `closed()` has returned, which needs the receiver of this connection to be gone, or has
  -- timed out
  | .close =>
      if s.notified.isSome = true ∧ (s.pc.over = true ∨ Late s) then
        some { s with closed := true, requests := s.requests.map Request.close }
      else none
  | .connected ok =>
      if s.pc = .handshake then some { s with pc := if ok then .accepting else .ended false }
      else none
  | .accept blocked =>
      if s.pc = .accepting then
        some { s with requests := s.requests ++ [.new blocked s.closed] }
      else none
  -- the loop is left and `h3_conn` dropped without waiting for the requests
  | .acceptEnds =>
      if s.pc = .accepting then
        some { s with pc := .ended false, requests := s.requests.map Request.close }
      else none
  | .leave =>
      if s.pc = .accepting ∧ s.shutdown.Unseen s.seen then
        some { s with pc := .leaving, seen := s.shutdown.version }
      else none
  | .closed =>
      if s.pc = .leaving ∧ ∀ r ∈ s.requests, ∃ complete, r.pc = .returned complete then
        some { s with pc := .ended true }
      else none
  | .request i a =>
      match s.requests[i]? with
      | some r => (r.step a).map fun r => { s with requests := s.requests.set i r }
      | none => none

/-- A connection that has been accepted. -/
def machine : Machine State Action where
  init s := s.seen = s.shutdown.subscribe ∧ s.notified = none ∧ s.closed = false ∧
    s.pc = .handshake ∧ s.requests = []
  step := step

/-- What the QUIC stream promises: a write fails on a stream that is not open any more, and
`stopped()` returns when the peer has stopped the stream or acknowledged all of it, or with
the connection, which the client, the network, the drop of `h3_conn` or the end of the accept
loop closes. -/
def Promised (q : Quic) (cut : Bool) : ReqAction → Prop
  | .pollReady outcomes => .failed ∈ outcomes →
      q.stopped = true ∨ q.lost = true ∨ q.finished = true ∨ q.reset = true ∨ cut = true
  | .pollFinish .ended => q.stopped = true ∨ q.reset = true ∨ q.acked = q.sent.length
  | .pollFinish .lost => q.lost = true ∨ cut = true
  | _ => True

def Quinn (s : State) : Action → Prop
  | .request i a => ∀ r ∈ s.requests[i]?, Promised r.stream.stream r.cut a
  | _ => True

instance (q : Quic) (cut : Bool) : ∀ a, Decidable (Promised q cut a)
  | .pollReady _ => inferInstanceAs (Decidable (_ → _))
  | .pollFinish .ended => inferInstanceAs (Decidable (_ ∨ _))
  | .pollFinish .lost => inferInstanceAs (Decidable (_ ∨ _))
  | .pollFinish .pending | .resolved _ | .respond _ | .frame _ | .bodyFailed | .bodyEnds
  | .timedOut | .received _ | .ack _ | .stop | .lose => isTrue trivial

instance (s : State) : ∀ a, Decidable (Quinn s a)
  | .request i _ => inferInstanceAs (Decidable (∀ r ∈ s.requests[i]?, _))
  | .tick _ | .notify | .close | .connected _ | .accept _ | .acceptEnds | .leave | .closed =>
      isTrue trivial

/-! ## One request -/

/-- The client has the whole response, or does not want it, or is gone. -/
def Request.Delivered (r : Request) : Prop :=
  (r.stream.stream.sent = r.taken ∧ r.stream.stream.Received) ∨
    r.stream.stream.stopped = true ∨ r.stream.stream.lost = true

/-- A frame may be in hand. -/
def ReqPc.writes : ReqPc → Bool
  | .responding | .sending | .greasing | .returned _ => true
  | _ => false

/-- The task has not got to `poll_finish`. -/
def ReqPc.before : ReqPc → Bool
  | .finishing | .returned _ => false
  | _ => true

structure Request.Inv (r : Request) : Prop where
  exact : r.stream.Exact r.taken
  idle : r.pc.writes = false → r.stream.writing = none
  unfinished : r.pc.before = true → r.stream.stream.finished = false
  unreset : r.pc ≠ .returned false → r.stream.stream.reset = false
  complete : r.pc = .returned true → r.Delivered ∨ r.cut = true

namespace Request.Inv

variable {r r' : Request}

theorem new (blocked cut : Bool) : (Request.new blocked cut).Inv where
  exact := rfl
  idle _ := rfl
  unfinished _ := rfl
  unreset _ := rfl
  complete h := by cases h

theorem ne_returned (hbefore : r.pc.before = true) (c : Bool) : r.pc ≠ .returned c := by
  intro h
  rw [h] at hbefore
  cases hbefore

/-- A task that goes on without the stream. -/
theorem move (h : r.Inv) {pc : ReqPc} (hidle : r.pc.writes = false) (hbefore : r.pc.before = true)
    (hpc : pc ≠ .returned true) : ({ r with pc } : Request).Inv where
  exact := h.exact
  idle _ := h.idle hidle
  unfinished _ := h.unfinished hbefore
  unreset _ := h.unreset (ne_returned hbefore false)
  complete hc := absurd hc hpc

theorem stopStream (h : r.Inv) : r.stopStream.Inv where
  exact := h.exact
  idle hw := by cases hw
  unfinished hb := by cases hb
  unreset hr := absurd rfl hr
  complete hc := by cases hc

/-- A frame is taken. -/
theorem send (h : r.Inv) (data : Bytes) {pc : ReqPc} (hidle : r.pc.writes = false)
    (hbefore : r.pc.before = true) (hwrites : pc.writes = true) (hpc : pc ≠ .returned true) :
    (r.send data pc).Inv := by
  have hnone := h.idle hidle
  rcases (SendStream.sendData_exact h.exact data).1 hnone with ⟨-, hexact⟩
  unfold SendStream.sendData at hexact
  unfold Request.send SendStream.sendData
  simp only [hnone, Option.isSome_none, Bool.false_eq_true, if_false] at hexact ⊢
  refine ⟨hexact, fun hw => ?_, fun _ => h.unfinished hbefore,
    fun _ => h.unreset (ne_returned hbefore false), fun hc => absurd hc hpc⟩
  rw [show pc.writes = false from hw] at hwrites
  cases hwrites

/-- A poll of the frame in hand. -/
theorem write (h : r.Inv) (outcomes : List SendStream.Write) {next failed : ReqPc}
    (hwrites : r.pc.writes = true) (hbefore : r.pc.before = true) (hnext : next ≠ .returned true)
    (hfailed : failed.writes = true)
    (hlost : failed = .returned true → .failed ∈ outcomes →
      r.stream.stream.stopped = true ∨ r.stream.stream.lost = true ∨ r.cut = true) :
    (r.write outcomes next failed).Inv := by
  have hpolled := SendStream.pollReady_polled outcomes h.exact
  have herror : ∀ e, (SendStream.pollReady outcomes r.stream).2 = .ready (.error e) →
      .failed ∈ outcomes := fun e => SendStream.failed_of_error
  unfold Request.write
  generalize SendStream.pollReady outcomes r.stream = result at hpolled herror
  rcases result with ⟨stream, result⟩
  have hfinished : stream.stream.finished = false :=
    hpolled.sends.finished.trans (h.unfinished hbefore)
  have hreset : stream.stream.reset = false :=
    hpolled.sends.reset.trans (h.unreset (ne_returned hbefore false))
  cases result with
  | pending =>
      refine ⟨hpolled.exact, fun hw => ?_, fun _ => hfinished, fun _ => hreset, fun hc => ?_⟩
      · rw [show r.pc.writes = false from hw] at hwrites
        cases hwrites
      · exact absurd hc (ne_returned hbefore true)
  | ready result =>
      cases result with
      | ok u =>
          exact ⟨hpolled.exact, fun _ => hpolled.done.mp rfl, fun _ => hfinished, fun _ => hreset,
            fun hc => absurd hc hnext⟩
      | error e =>
          refine ⟨hpolled.exact, fun hw => ?_, fun _ => hfinished, fun _ => hreset, fun hc => ?_⟩
          · rw [show failed.writes = false from hw] at hfailed
            cases hfailed
          · rcases hlost hc (herror e rfl) with hstopped | hgone | hcut
            · exact .inl (.inr (.inl (hpolled.sends.stopped.trans hstopped)))
            · exact .inl (.inr (.inr (hpolled.sends.lost.trans hgone)))
            · exact .inr hcut

/-- A poll of `poll_finish`. -/
theorem finish (h : r.Inv) (hpc : r.pc = .finishing) {outcome : SendStream.Stopped}
    (hpromised : Promised r.stream.stream r.cut (.pollFinish outcome)) :
    (r.finish outcome).Inv := by
  have hnone := h.idle (by rw [hpc]; rfl)
  have hreset := h.unreset (by simp [hpc])
  have hsent : r.stream.stream.sent = r.taken := by
    have := h.exact
    unfold SendStream.Exact SendStream.data at this
    rw [hnone] at this
    simpa using this
  unfold Request.finish SendStream.pollFinish
  cases outcome with
  | pending =>
      refine ⟨h.exact, fun _ => hnone, fun hb => ?_, fun _ => hreset, fun hc => ?_⟩
      · rw [show r.pc.before = ReqPc.finishing.before by rw [hpc]] at hb
        cases hb
      · simp [hpc] at hc
  | ended =>
      refine ⟨h.exact, fun _ => hnone, fun hb => ?_, fun _ => hreset, fun _ => ?_⟩
      · cases hb
      · left
        rcases hpromised with hstopped | hr | hacked
        · exact .inr (.inl hstopped)
        · rw [hreset] at hr
          cases hr
        · exact .inl ⟨hsent, by simp [hreset], hacked⟩
  | lost =>
      refine ⟨h.exact, fun _ => hnone, fun hb => ?_, fun _ => hreset, fun _ => ?_⟩
      · cases hb
      · rcases hpromised with hlost | hcut
        · exact .inl (.inr (.inr hlost))
        · exact .inr hcut

/-- What the client or the network does to the stream. -/
theorem ack (h : r.Inv) {n : Nat} (hacked : r.stream.stream.acked ≤ n)
    (hn : n ≤ r.stream.stream.sent.length) :
    (r.setQuic { r.stream.stream with acked := n }).Inv where
  exact := h.exact
  idle := h.idle
  unfinished := h.unfinished
  unreset := h.unreset
  complete hc := by
    rcases h.complete hc with (⟨hsent, hfinished, hall⟩ | hgone) | hcut
    · refine .inl (.inl ⟨hsent, hfinished, ?_⟩)
      show n = r.stream.stream.sent.length
      omega
    · exact .inl (.inr hgone)
    · exact .inr hcut

theorem stop (h : r.Inv) : (r.setQuic { r.stream.stream with stopped := true }).Inv where
  exact := h.exact
  idle := h.idle
  unfinished := h.unfinished
  unreset := h.unreset
  complete _ := .inl (.inr (.inl rfl))

theorem lose (h : r.Inv) : (r.setQuic { r.stream.stream with lost := true }).Inv where
  exact := h.exact
  idle := h.idle
  unfinished := h.unfinished
  unreset := h.unreset
  complete _ := .inl (.inr (.inr rfl))

theorem close (h : r.Inv) : r.close.Inv where
  exact := h.exact
  idle := h.idle
  unfinished := h.unfinished
  unreset := h.unreset
  complete hc := by
    rcases h.complete hc with hdelivered | hcut
    · exact .inl hdelivered
    · right
      show (r.cut || r.pc.running) = true
      rw [hcut, Bool.true_or]

theorem step (h : r.Inv) {a : ReqAction} (hpromised : Promised r.stream.stream r.cut a)
    (hs : r.step a = some r') : r'.Inv := by
  cases a with
  | resolved ok =>
      simp only [Request.step, Option.ite_none_right_eq_some, Option.some.injEq] at hs
      rcases hs with ⟨hpc, rfl⟩
      split
      · split
        · exact h.stopStream
        · exact h.move (by rw [hpc]; rfl) (by rw [hpc]; rfl) (by simp)
      · exact h.move (by rw [hpc]; rfl) (by rw [hpc]; rfl) (by simp)
  | respond header =>
      simp only [Request.step, Option.ite_none_right_eq_some, Option.some.injEq] at hs
      rcases hs with ⟨hpc, rfl⟩
      exact h.send header (by rw [hpc]; rfl) (by rw [hpc]; rfl) rfl (by simp)
  | frame data =>
      simp only [Request.step, Option.ite_none_right_eq_some, Option.some.injEq] at hs
      rcases hs with ⟨hpc, rfl⟩
      exact h.send data (by rw [hpc]; rfl) (by rw [hpc]; rfl) rfl (by simp)
  | bodyFailed =>
      simp only [Request.step, Option.ite_none_right_eq_some, Option.some.injEq] at hs
      rcases hs with ⟨-, rfl⟩
      exact h.stopStream
  | bodyEnds =>
      simp only [Request.step, Option.ite_none_right_eq_some, Option.some.injEq] at hs
      rcases hs with ⟨hpc, rfl⟩
      exact h.move (by rw [hpc]; rfl) (by rw [hpc]; rfl) (by simp)
  | pollReady outcomes =>
      simp only [Request.step] at hs
      split at hs
      · rename_i hpc
        cases hs
        exact h.write outcomes (by rw [hpc]; rfl) (by rw [hpc]; rfl) (by simp) rfl (by simp)
      · rename_i hpc
        cases hs
        exact h.write outcomes (by rw [hpc]; rfl) (by rw [hpc]; rfl) (by simp) rfl (by simp)
      · rename_i hpc
        cases hs
        refine h.write outcomes (by rw [hpc]; rfl) (by rw [hpc]; rfl) (by simp) rfl ?_
        -- the stream is open on our side, so the failure comes from the other
        intro _ hfailed
        rcases hpromised hfailed with hstopped | hlost | hfinished | hreset | hcut
        · exact .inl hstopped
        · exact .inr (.inl hlost)
        · rw [h.unfinished (by rw [hpc]; rfl)] at hfinished
          cases hfinished
        · rw [h.unreset (by simp [hpc])] at hreset
          cases hreset
        · exact .inr (.inr hcut)
      · cases hs
  | timedOut =>
      simp only [Request.step, Option.ite_none_right_eq_some, Option.some.injEq] at hs
      rcases hs with ⟨-, rfl⟩
      exact h.stopStream
  | received grease =>
      simp only [Request.step, Option.ite_none_right_eq_some, Option.some.injEq] at hs
      rcases hs with ⟨hpc, rfl⟩
      cases grease with
      | none => exact h.move (by rw [hpc]; rfl) (by rw [hpc]; rfl) (by simp)
      | some data => exact h.send data (by rw [hpc]; rfl) (by rw [hpc]; rfl) rfl (by simp)
  | pollFinish outcome =>
      simp only [Request.step, Option.ite_none_right_eq_some, Option.some.injEq] at hs
      rcases hs with ⟨hpc, rfl⟩
      exact h.finish hpc hpromised
  | ack n =>
      simp only [Request.step, Option.ite_none_right_eq_some, Option.some.injEq] at hs
      rcases hs with ⟨⟨hacked, hn⟩, rfl⟩
      exact h.ack hacked hn
  | stop =>
      cases hs
      exact h.stop
  | lose =>
      cases hs
      exact h.lose

end Request.Inv

/-! ## The connection -/

/-- Every request is in order; when the notification has ended the connection, none is left;
and what the end of the accept loop has cut had its fifteen seconds, or belongs to a
connection that ended otherwise. -/
structure Inv (s : State) : Prop where
  requests : ∀ r ∈ s.requests, r.Inv
  ended : s.pc = .ended true → ∀ r ∈ s.requests, ∃ complete, r.pc = .returned complete
  closed : s.closed = true → s.pc.over = true ∨ Late s
  cut : ∀ r ∈ s.requests, r.cut = true → s.pc = .ended false ∨ Late s

/-- The connection goes on to another place. -/
theorem Inv.move {s : State} (hi : Inv s) {pc : ConnPc} {seen : Nat} (hopen : s.pc.over = false)
    (hpc : pc ≠ .ended true) : Inv { s with pc, seen } := by
  refine ⟨hi.requests, fun h => absurd h hpc, fun hclosed => ?_, fun r hr hcut => ?_⟩
  · rcases hi.closed hclosed with hover | hlate
    · rw [hopen] at hover
      cases hover
    · exact .inr hlate
  · rcases hi.cut r hr hcut with hended | hlate
    · rw [hended] at hopen
      cases hopen
    · exact .inr hlate

/-- A task that has returned takes no step; only its stream goes on. -/
theorem Request.returned_of_step {r r' : Request} {a : ReqAction} {complete : Bool}
    (h : r.step a = some r') (hpc : r.pc = .returned complete) : r'.pc = .returned complete := by
  cases a with
  | ack n =>
      simp only [Request.step, Option.ite_none_right_eq_some, Option.some.injEq] at h
      rcases h with ⟨-, rfl⟩
      exact hpc
  | stop | lose =>
      cases h
      exact hpc
  | _ => simp [Request.step, hpc] at h

/-- Only the accept loop cuts. -/
theorem Request.cut_of_step {r r' : Request} {a : ReqAction} (h : r.step a = some r') :
    r'.cut = r.cut := by
  have hsend : ∀ data pc, (r.send data pc).cut = r.cut := by
    intro data pc
    unfold Request.send
    split <;> rfl
  have hwrite : ∀ outcomes next failed, (r.write outcomes next failed).cut = r.cut := by
    intro outcomes next failed
    unfold Request.write
    split <;> rfl
  have hfinish : ∀ outcome, (r.finish outcome).cut = r.cut := by
    intro outcome
    unfold Request.finish
    split <;> rfl
  cases a with
  | resolved ok =>
      simp only [Request.step, Option.ite_none_right_eq_some, Option.some.injEq] at h
      rcases h with ⟨-, rfl⟩
      split
      · split <;> rfl
      · rfl
  | pollReady outcomes =>
      simp only [Request.step] at h
      split at h
      · cases h
        exact hwrite ..
      · cases h
        exact hwrite ..
      · cases h
        exact hwrite ..
      · cases h
  | received grease =>
      simp only [Request.step, Option.ite_none_right_eq_some, Option.some.injEq] at h
      rcases h with ⟨-, rfl⟩
      split
      · exact hsend ..
      · rfl
  | stop | lose =>
      cases h
      rfl
  | respond header | frame data | pollFinish outcome | bodyFailed | bodyEnds | timedOut | ack n =>
      simp only [Request.step, Option.ite_none_right_eq_some, Option.some.injEq] at h
      rcases h with ⟨-, rfl⟩
      first | rfl | exact hsend .. | exact hfinish ..

theorem Inv.close {s : State} (hi : Inv s) (hend : s.pc.over = true ∨ Late s) :
    Inv { s with closed := true, requests := s.requests.map Request.close } := by
  refine ⟨?_, ?_, fun _ => hend, ?_⟩
  · intro r hr
    rcases List.mem_map.mp hr with ⟨q, hq, rfl⟩
    exact (hi.requests q hq).close
  · intro hended r hr
    rcases List.mem_map.mp hr with ⟨q, hq, rfl⟩
    exact hi.ended hended q hq
  · intro r hr hcut
    rcases List.mem_map.mp hr with ⟨q, hq, rfl⟩
    rcases Bool.or_eq_true_iff.mp hcut with hcut | hrunning
    · exact hi.cut q hq hcut
    rcases hend with hover | hlate
    · -- a connection that the notification has ended has no running task
      left
      cases hpc : s.pc with
      | ended graceful =>
          cases graceful with
          | false => rfl
          | true =>
              rcases hi.ended hpc q hq with ⟨complete, hreturned⟩
              rw [hreturned] at hrunning
              cases hrunning
      | _ =>
          rw [hpc] at hover
          cases hover
    · exact .inr hlate

theorem step_inv {s s' : State} {a : Action} (hi : Inv s) (hquinn : Quinn s a)
    (h : step s a = some s') : Inv s' := by
  cases a with
  | tick n =>
      cases h
      have hlate : Late s → Late { s with now := s.now + n } := by
        rintro ⟨t, ht, hle⟩
        exact ⟨t, ht, Nat.le_add_right_of_le hle⟩
      exact ⟨hi.requests, hi.ended, fun hc => (hi.closed hc).imp id hlate,
        fun r hr hcut => (hi.cut r hr hcut).imp id hlate⟩
  | notify =>
      simp only [step, Option.ite_none_right_eq_some, Option.some.injEq] at h
      rcases h with ⟨hnone, rfl⟩
      have hnot : ¬ Late s := by
        rintro ⟨t, ht, -⟩
        rw [hnone] at ht
        cases ht
      exact ⟨hi.requests, hi.ended, fun hc => .inl ((hi.closed hc).resolve_right hnot),
        fun r hr hcut => .inl ((hi.cut r hr hcut).resolve_right hnot)⟩
  | close =>
      simp only [step, Option.ite_none_right_eq_some, Option.some.injEq] at h
      rcases h with ⟨⟨-, hend⟩, rfl⟩
      exact hi.close hend
  | connected ok =>
      simp only [step, Option.ite_none_right_eq_some, Option.some.injEq] at h
      rcases h with ⟨hpc, rfl⟩
      cases ok with
      | true => exact hi.move (by rw [hpc]; rfl) (by simp)
      | false => exact hi.move (by rw [hpc]; rfl) (by simp)
  | accept blocked =>
      simp only [step, Option.ite_none_right_eq_some, Option.some.injEq] at h
      rcases h with ⟨hpc, rfl⟩
      have hclosed : s.closed = true → Late s := by
        intro hc
        refine (hi.closed hc).resolve_left ?_
        rw [hpc]
        exact Bool.false_ne_true
      refine ⟨?_, ?_, fun hc => .inr (hclosed hc), ?_⟩
      · intro r hr
        rcases List.mem_append.mp hr with hr | hr
        · exact hi.requests r hr
        · rw [List.mem_singleton.mp hr]
          exact .new blocked s.closed
      · intro hended
        rw [show s.pc = .ended true from hended] at hpc
        cases hpc
      · intro r hr hcut
        rcases List.mem_append.mp hr with hr | hr
        · exact hi.cut r hr hcut
        · rw [List.mem_singleton.mp hr] at hcut
          exact .inr (hclosed hcut)
  | acceptEnds =>
      simp only [step, Option.ite_none_right_eq_some, Option.some.injEq] at h
      rcases h with ⟨-, rfl⟩
      refine ⟨?_, ?_, fun _ => .inl rfl, fun _ _ _ => .inl rfl⟩
      · intro r hr
        rcases List.mem_map.mp hr with ⟨q, hq, rfl⟩
        exact (hi.requests q hq).close
      · intro hended
        cases hended
  | leave =>
      simp only [step, Option.ite_none_right_eq_some, Option.some.injEq] at h
      rcases h with ⟨⟨hpc, -⟩, rfl⟩
      exact hi.move (by rw [hpc]; rfl) (by simp)
  | closed =>
      simp only [step, Option.ite_none_right_eq_some, Option.some.injEq] at h
      rcases h with ⟨⟨hpc, hreturned⟩, rfl⟩
      refine ⟨hi.requests, fun _ => hreturned, fun _ => .inl rfl, fun r hr hcut => .inr ?_⟩
      refine (hi.cut r hr hcut).resolve_left ?_
      simp [hpc]
  | request i a =>
      simp only [step] at h
      split at h
      · rename_i r hr
        rcases Option.map_eq_some_iff.mp h with ⟨r', hr', rfl⟩
        have hmem := List.mem_of_getElem? hr
        refine ⟨?_, ?_, hi.closed, ?_⟩
        · intro q hq
          rcases List.mem_or_eq_of_mem_set hq with hq | rfl
          · exact hi.requests q hq
          · exact (hi.requests r hmem).step (hquinn r hr) hr'
        · intro hended q hq
          rcases List.mem_or_eq_of_mem_set hq with hq | rfl
          · exact hi.ended hended q hq
          · rcases hi.ended hended r hmem with ⟨complete, hpc⟩
            exact ⟨complete, Request.returned_of_step hr' hpc⟩
        · intro q hq hcut
          rcases List.mem_or_eq_of_mem_set hq with hq | rfl
          · exact hi.cut q hq hcut
          · rw [Request.cut_of_step hr'] at hcut
            exact hi.cut r hmem hcut
      · cases h

def start : State := ⟨0, .channel (), none, false, 0, .handshake, []⟩

theorem start_init : machine.init start := ⟨rfl, rfl, rfl, rfl, rfl⟩

/-- A client that takes more than fifteen seconds for the response does not get the end of
it. -/
theorem slow_client_cut : ∃ s, machine.Reach Quinn s ∧
    s.requests.map (fun r => (r.stream.stream.sent, r.pc)) = [([1], .returned false)] ∧
    ∃ r ∈ s.requests, r.cut = true ∧ ¬ r.Delivered := by
  obtain ⟨s, hs, hsent, hcut⟩ := Machine.reach_of_runIf Quinn start_init
    [.connected true, .accept false, .request 0 (.resolved true), .request 0 (.respond [1]),
      .request 0 (.pollReady [.wrote 0]), .request 0 (.frame [2, 3]),
      .request 0 (.pollReady [.pending]), .notify, .leave, .tick 15000, .close,
      .request 0 (.pollReady [.failed])]
    (fun s => s.requests.map (fun r => (r.stream.stream.sent, r.pc)) = [([1], .returned false)] ∧
      ∃ r ∈ s.requests, r.cut = true ∧ r.stream.stream.sent ≠ r.taken ∧
        r.stream.stream.stopped = false ∧ r.stream.stream.lost = false) (by decide +kernel)
  rcases hcut with ⟨r, hr, hcut, hne, hstopped, hlost⟩
  refine ⟨s, hs, hsent, r, hr, hcut, ?_⟩
  rintro (⟨heq, -⟩ | h | h)
  · exact hne heq
  · rw [hstopped] at h
    cases h
  · rw [hlost] at h
    cases h

end Hath.H3
