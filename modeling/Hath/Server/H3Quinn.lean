import Hath.Basic
import Hath.Lib.PollStream

/-!
# Hath.Server.H3Quinn — the sending side of an HTTP/3 stream

`SendStream` of `h3_quinn.rs` hands the frames of `h3` to a QUIC stream. A frame is taken
by `send_data` and written by `poll_ready`, in as many pieces as the QUIC stream accepts;
`poll_finish` waits until the peer has received everything.

`Quic` is the stream of the library below: what it has accepted, how much of that is
acknowledged, and how it has ended. What a call into it returns is given by a list of
outcomes; an empty list is `Pending`. `WriteBuf` is the bytes it has left, of which each
`chunk` is a beginning.

* `Exact` — the bytes written and those in hand are the frames taken;
* `pollReady_polled`, `sendData_exact` — the functions keep it;
* `failed_of_error` — an error of `poll_ready` comes from the QUIC stream.
-/

namespace Hath.H3Quinn

open Lib

/-! ## Streams -/

/-- A `quinn::SendStream`. -/
structure Quic where
  sent : Bytes
  acked : Nat
  finished : Bool
  reset : Bool
  /-- The peer wants no more. -/
  stopped : Bool
  /-- The connection is gone. -/
  lost : Bool
deriving DecidableEq, Repr

def Quic.new : Quic := ⟨[], 0, false, false, false, false⟩

/-- The peer has acknowledged all bytes of the finished stream. -/
def Quic.Received (q : Quic) : Prop := q.finished = true ∧ q.acked = q.sent.length

instance (q : Quic) : Decidable q.Received := inferInstanceAs (Decidable (_ ∧ _))

/-- `StreamErrorIncoming`, as far as the callers tell errors apart. -/
inductive StreamError where
  | internalError
  | stream
deriving DecidableEq, Repr

/-- `SendStream`; `stopped` is the future that `poll_finish` keeps. -/
structure SendStream where
  stream : Quic
  writing : Option Bytes
  stopped : Bool
deriving DecidableEq, Repr

namespace SendStream

def new : SendStream := ⟨.new, none, false⟩

/-! ## Functions -/

/-- What `poll_write` returns: it writes `n + 1` bytes, or all if there are fewer. -/
inductive Write where
  | pending
  | wrote (n : Nat)
  | failed
deriving DecidableEq, Repr

/-- The bytes in hand. -/
def data (s : SendStream) : Bytes := s.writing.getD []

/-- `poll_write` has accepted a beginning of the bytes in hand. -/
def advance (s : SendStream) (n : Nat) : SendStream :=
  { s with
    stream := { s.stream with sent := s.stream.sent ++ s.data.take n }
    writing := some (s.data.drop n) }

def pollReady : List Write → SendStream → SendStream × Poll (Except StreamError Unit)
  | outcomes, s =>
      if s.data = [] then ({ s with writing := none }, .ready (.ok ()))
      else
        match outcomes with
        | [] | .pending :: _ => (s, .pending)
        | .failed :: _ => (s, .ready (.error .stream))
        | .wrote n :: outcomes => pollReady outcomes (s.advance (n + 1))

def sendData (s : SendStream) (data : Bytes) : SendStream × Except StreamError Unit :=
  if s.writing.isSome then (s, .error .internalError)
  else ({ s with writing := some data }, .ok ())

/-- What the future `stopped()` returns. -/
inductive Stopped where
  | pending
  /-- The peer has stopped the stream, or has received all of it. -/
  | ended
  | lost
deriving DecidableEq, Repr

/-- `finish()` is called at every poll, and fails from the second on. -/
def pollFinish (s : SendStream) (outcome : Stopped) :
    SendStream × Poll (Except StreamError Unit) :=
  let finish : Except StreamError Unit :=
    if s.stream.finished || s.stream.reset then .error .stream else .ok ()
  let s := { s with
    stream := { s.stream with finished := s.stream.finished || !s.stream.reset }, stopped := true }
  match outcome with
  | .pending => (s, .pending)
  | .ended => ({ s with stopped := false }, .ready finish)
  | .lost => (s, .ready (.error .stream))

def reset (s : SendStream) : SendStream :=
  { s with stream := { s.stream with reset := true } }

/-! ## What has been written -/

/-- The bytes written and those in hand are the frames taken so far. -/
def Exact (s : SendStream) (taken : Bytes) : Prop := s.stream.sent ++ s.data = taken

variable {s : SendStream} {taken : Bytes} {r : SendStream × Poll (Except StreamError Unit)}

theorem advance_exact (h : s.Exact taken) (n : Nat) : (s.advance n).Exact taken := by
  show s.stream.sent ++ s.data.take n ++ s.data.drop n = taken
  rw [List.append_assoc, List.take_append_drop]
  exact h

/-- What a call leaves of the stream: more may have been sent, nothing else has changed. -/
structure Sends (s s' : SendStream) : Prop where
  acked : s'.stream.acked = s.stream.acked
  finished : s'.stream.finished = s.stream.finished
  reset : s'.stream.reset = s.stream.reset
  stopped : s'.stream.stopped = s.stream.stopped
  lost : s'.stream.lost = s.stream.lost
  sent : s.stream.sent <+: s'.stream.sent

theorem Sends.refl (s : SendStream) : Sends s s := ⟨rfl, rfl, rfl, rfl, rfl, List.prefix_rfl⟩

theorem Sends.trans {s s' s'' : SendStream} (h : Sends s s') (h' : Sends s' s'') : Sends s s'' :=
  ⟨h'.acked.trans h.acked, h'.finished.trans h.finished, h'.reset.trans h.reset,
    h'.stopped.trans h.stopped, h'.lost.trans h.lost, h.sent.trans h'.sent⟩

theorem advance_sends (s : SendStream) (n : Nat) : Sends s (s.advance n) :=
  ⟨rfl, rfl, rfl, rfl, rfl, List.prefix_append _ _⟩

/-- What a poll with the outcomes does with bytes in hand. -/
structure Polled (taken : Bytes) (s : SendStream)
    (r : SendStream × Poll (Except StreamError Unit)) : Prop where
  exact : r.1.Exact taken
  sends : Sends s r.1
  done : r.2 = .ready (.ok ()) ↔ r.1.writing = none
  later : r.1.stopped = s.stopped

theorem Polled.all (h : Polled taken s r) (hdone : r.2 = .ready (.ok ())) :
    r.1.stream.sent = taken := by
  have := h.exact
  unfold Exact data at this
  rw [h.done.mp hdone] at this
  simpa using this

/-- Nothing is in hand. -/
theorem polled_empty (h : s.Exact taken) (hdata : s.data = []) :
    Polled taken s ({ s with writing := none }, .ready (.ok ())) := by
  refine ⟨?_, ⟨rfl, rfl, rfl, rfl, rfl, List.prefix_rfl⟩, by simp, rfl⟩
  unfold Exact at h
  rw [hdata] at h
  exact h

/-- The poll stops with bytes in hand. -/
theorem polled_stays (h : s.Exact taken) (hdata : s.data ≠ [])
    {p : Poll (Except StreamError Unit)} (hp : p ≠ .ready (.ok ())) : Polled taken s (s, p) := by
  refine ⟨h, .refl s, iff_of_false hp ?_, rfl⟩
  intro hnone
  exact hdata (by rw [data, show s.writing = none from hnone]; rfl)

/-- Whatever the QUIC stream accepts of the bytes in hand, none is lost, repeated or taken
out of order; the poll is done exactly when nothing is in hand. -/
theorem pollReady_polled (outcomes : List Write) (h : s.Exact taken) :
    Polled taken s (pollReady outcomes s) := by
  induction outcomes generalizing s with
  | nil =>
      unfold pollReady
      split
      · rename_i hdata
        exact polled_empty h hdata
      · rename_i hdata
        exact polled_stays h hdata (by simp)
  | cons outcome outcomes ih =>
      unfold pollReady
      split
      · rename_i hdata
        exact polled_empty h hdata
      · rename_i hdata
        cases outcome with
        | pending => exact polled_stays h hdata (by simp)
        | failed => exact polled_stays h hdata (by simp)
        | wrote n =>
            have hrest := ih (advance_exact h (n + 1))
            exact ⟨hrest.exact, (advance_sends s (n + 1)).trans hrest.sends, hrest.done, hrest.later⟩

/-- An error comes from the QUIC stream. -/
theorem failed_of_error {e : StreamError} :
    ∀ {outcomes : List Write} {s : SendStream},
      (pollReady outcomes s).2 = .ready (.error e) → .failed ∈ outcomes := by
  intro outcomes
  induction outcomes with
  | nil =>
      intro s h
      unfold pollReady at h
      split at h <;> cases h
  | cons outcome outcomes ih =>
      intro s h
      unfold pollReady at h
      split at h
      · cases h
      · cases outcome with
        | pending => cases h
        | failed => exact List.mem_cons_self
        | wrote n => exact List.mem_cons_of_mem _ (ih h)

/-- A frame is taken exactly when the one before it has been written. -/
theorem sendData_exact (h : s.Exact taken) (frame : Bytes) :
    (s.writing = none → (s.sendData frame).2 = .ok () ∧
      (s.sendData frame).1.Exact (taken ++ frame)) ∧
    (s.writing ≠ none → s.sendData frame = (s, .error .internalError)) := by
  constructor
  · intro hnone
    unfold sendData
    simp only [hnone, Option.isSome_none, Bool.false_eq_true, if_false, true_and]
    unfold Exact data at h
    rw [hnone] at h
    show s.stream.sent ++ frame = taken ++ frame
    rw [← h]
    simp
  · intro hsome
    unfold sendData
    rw [if_pos (Option.isSome_iff_ne_none.mpr hsome)]

end SendStream

end Hath.H3Quinn
