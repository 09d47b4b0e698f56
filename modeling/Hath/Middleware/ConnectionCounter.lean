import Mathlib.Data.List.Basic
import Hath.Basic
import Hath.Lib.Machine

/-!
# Hath.Middleware.ConnectionCounter — the gauge of open connections

`ConnectionCounterMiddleware::call` increments the gauge and makes a scope guard that
decrements it. The guard is a local of `call` while the inner service is called, then
a captured variable of the returned future; when the inner future is ready it is
defused, and the duty passes to the error branch or to the `ConnectionCounterFinalizer`
around the body. A request is here what these owners are: the future, whether the
guard is armed, and the body. `decs` counts the decrements made for the request and is
read by no step.

* `gauge_exact` — the gauge is the number of requests that have not ended, and each is
  decremented once, when it ends.
-/

namespace Hath.ConnectionCounter

open Lib

/-! ## State -/

/-- Where the future of a request stands. -/
inductive Future where
  /-- In `self.service.call(req)`; there is no future yet. -/
  | inCall
  /-- Made, not polled. -/
  | unresumed
  /-- Polled, at `fut.await`. -/
  | suspended
  /-- Ready, with a response or an error. -/
  | returned (ok : Bool)
  /-- The inner call or a poll of the inner future has panicked. -/
  | panicked
deriving DecidableEq, Repr

/-- The body of a response, wrapped in a `ConnectionCounterFinalizer`. -/
inductive Body where
  | none
  | live
  | dropped
deriving DecidableEq, Repr

/-- A request that has been counted. -/
structure Request where
  future : Future
  /-- The future has been dropped, or there was none to drop. -/
  freed : Bool
  /-- The scope guard exists and is armed. -/
  guarded : Bool
  body : Body
  decs : Nat
deriving DecidableEq, Repr

/-- The gauge, the requests in the order of their calls, and how often
`Command::Overload` was sent. -/
structure State where
  gauge : U64
  requests : List Request
  overloads : Nat
deriving DecidableEq

/-! ## Steps -/

/-- `counter.dec()`; the gauge is an `AtomicU64` and wraps. -/
def dec (r : Request) (gauge : U64) : Request × U64 := ({ r with decs := r.decs + 1 }, gauge - 1)

/-- The drop of the scope guard, if it has not been defused. -/
def dropGuard (r : Request) (gauge : U64) : Request × U64 :=
  if r.guarded then dec { r with guarded := false } gauge else (r, gauge)

/-- What a poll of the inner future can do. -/
inductive Outcome where
  | pending
  | ok
  | err
  | panics
deriving DecidableEq, Repr

/-- What can happen to a request after it has been counted. -/
inductive Event where
  /-- `self.service.call(req)` returns; the guard moves into the future. -/
  | callReturns
  /-- `self.service.call(req)` panics. -/
  | callPanics
  /-- The future is polled. -/
  | poll (o : Outcome)
  /-- The future is dropped, by a cancellation or at its end. -/
  | dropFuture
  /-- The body is polled for a frame. -/
  | pollBody
  /-- The body is dropped. -/
  | dropBody
deriving DecidableEq, Repr

/-- The future exists and can be polled. -/
def Request.Pollable (r : Request) : Prop :=
  (r.future = .unresumed ∨ r.future = .suspended) ∧ r.freed = false

instance (r : Request) : Decidable r.Pollable := inferInstanceAs (Decidable (_ ∧ _))

/-- One event of a request; `none` where it cannot happen. -/
def advance (r : Request) (gauge : U64) : Event → Option (Request × U64)
  | .callReturns =>
      if r.future = .inCall then some ({ r with future := .unresumed }, gauge) else none
  | .callPanics =>
      -- unwinding drops the guard; no future is returned
      if r.future = .inCall then some (dropGuard { r with future := .panicked, freed := true } gauge)
      else none
  | .poll .pending =>
      if r.Pollable then some ({ r with future := .suspended }, gauge) else none
  | .poll .ok =>
      -- `ScopeGuard::into_inner`, then the counter moves into the finalizer
      if r.Pollable then
        some ({ r with future := .returned true, guarded := false, body := .live }, gauge)
      else none
  | .poll .err =>
      if r.Pollable then some (dec { r with future := .returned false, guarded := false } gauge)
      else none
  | .poll .panics =>
      -- unwinding out of the poll drops what the future holds
      if r.Pollable then some (dropGuard { r with future := .panicked } gauge) else none
  | .dropFuture =>
      if r.future ≠ .inCall ∧ r.freed = false then some (dropGuard { r with freed := true } gauge)
      else none
  | .pollBody => if r.body = .live then some (r, gauge) else none
  | .dropBody => if r.body = .live then some (dec { r with body := .dropped } gauge) else none

/-- Actions: a new request, or an event of one. -/
inductive Action where
  /-- `call`, with the overload threshold the settings give at that moment. -/
  | call (threshold : U64)
  | event (i : Nat) (e : Event)
deriving DecidableEq

/-- A request as `call` counts it. -/
def Request.new : Request := ⟨.inCall, false, true, .none, 0⟩

/-- One step. `inc` returns the value before the increment. -/
def step (s : State) : Action → Option State
  | .call threshold =>
      some
        { gauge := s.gauge + 1
          requests := s.requests ++ [Request.new]
          overloads := if threshold < s.gauge then s.overloads + 1 else s.overloads }
  | .event i e =>
      s.requests[i]?.bind fun r => (advance r s.gauge e).map fun p =>
        { s with gauge := p.2, requests := s.requests.set i p.1 }

/-- The middleware as a machine. -/
def machine : Machine State Action := ⟨fun s => s.gauge = 0 ∧ s.requests = [], step⟩

/-! ## One request -/

/-- A request ends when its future is dropped uncompleted, returns an error or panics,
or when the body of its response is dropped. -/
def Request.ended (r : Request) : Bool :=
  match r.future with
  | .inCall => false
  | .unresumed | .suspended => r.freed
  | .returned true => r.body = .dropped
  | .returned false | .panicked => true

/-- Who holds the duty to decrement: the guard up to the end of the future, then the
body of a response, then nobody. -/
inductive Request.Inv : Request → Prop where
  | inCall : Inv ⟨.inCall, false, true, .none, 0⟩
  | unresumed : Inv ⟨.unresumed, false, true, .none, 0⟩
  | suspended : Inv ⟨.suspended, false, true, .none, 0⟩
  | cancelled (future : Future) (h : future = .unresumed ∨ future = .suspended) :
      Inv ⟨future, true, false, .none, 1⟩
  | streaming (freed : Bool) : Inv ⟨.returned true, freed, false, .live, 0⟩
  | served (freed : Bool) : Inv ⟨.returned true, freed, false, .dropped, 1⟩
  | failed (freed : Bool) : Inv ⟨.returned false, freed, false, .none, 1⟩
  | panicked (freed : Bool) : Inv ⟨.panicked, freed, false, .none, 1⟩

theorem Request.Inv.decs_eq {r : Request} (hi : r.Inv) : r.decs = if r.ended then 1 else 0 := by
  cases hi with
  | cancelled future h => rcases h with rfl | rfl <;> rfl
  | _ => rfl

/-- What an event does to the gauge: nothing while the request stays as open as it was,
one decrement when it ends. -/
def Settles (r r' : Request) (g g' : U64) : Prop :=
  (r'.ended = r.ended ∧ g' = g) ∨ (r.ended = false ∧ r'.ended = true ∧ g' = g - 1)

/-- A future that can be polled. -/
theorem poll_spec {future : Future} (hf : future = .unresumed ∨ future = .suspended)
    {r' : Request} {g g' : U64} {o : Outcome}
    (h : advance ⟨future, false, true, .none, 0⟩ g (.poll o) = some (r', g')) :
    r'.Inv ∧ Settles ⟨future, false, true, .none, 0⟩ r' g g' := by
  have hopen : Request.ended ⟨future, false, true, .none, 0⟩ = false := by
    rcases hf with rfl | rfl <;> rfl
  have hp : Request.Pollable ⟨future, false, true, .none, 0⟩ := ⟨hf, rfl⟩
  cases o with
  | pending =>
      rw [advance, if_pos hp] at h
      cases h
      exact ⟨.suspended, .inl ⟨hopen.symm, rfl⟩⟩
  | ok =>
      rw [advance, if_pos hp] at h
      cases h
      exact ⟨.streaming false, .inl ⟨hopen.symm, rfl⟩⟩
  | err =>
      rw [advance, if_pos hp] at h
      cases h
      exact ⟨.failed false, .inr ⟨hopen, rfl, rfl⟩⟩
  | panics =>
      rw [advance, if_pos hp] at h
      cases h
      exact ⟨.panicked false, .inr ⟨hopen, rfl, rfl⟩⟩

/-- A future that is gone or done cannot be polled. -/
theorem not_poll {r : Request} {g : U64} {o : Outcome} (h : ¬ r.Pollable) :
    advance r g (.poll o) = none := by
  cases o <;> exact if_neg h

/-- The future has returned or panicked. -/
def Future.Done (f : Future) : Prop := f ≠ .inCall ∧ f ≠ .unresumed ∧ f ≠ .suspended

/-- A request whose future is done and whose body is gone can only lose its future. -/
theorem done_spec {r r' : Request} {g g' : U64} {e : Event} (hf : r.future.Done)
    (hb : r.body ≠ .live) (hg : r.guarded = false) (h : advance r g e = some (r', g')) :
    r' = { r with freed := true } ∧ g' = g := by
  rcases hf with ⟨hcall, hun, hsus⟩
  cases e with
  | callReturns => cases (if_neg hcall).symm.trans h
  | callPanics => cases (if_neg hcall).symm.trans h
  | poll o => cases (not_poll fun hp => hp.1.elim hun hsus).symm.trans h
  | dropFuture =>
      rw [advance] at h
      split at h
      · -- the guard has been defused or dropped before
        rw [dropGuard, if_neg (by simp [hg])] at h
        cases h
        exact ⟨rfl, rfl⟩
      · cases h
  | pollBody => cases (if_neg hb).symm.trans h
  | dropBody => cases (if_neg hb).symm.trans h

/-- An event moves the duty to the next holder, or discharges it. -/
theorem advance_spec {r r' : Request} {g g' : U64} {e : Event} (hi : r.Inv)
    (h : advance r g e = some (r', g')) : r'.Inv ∧ Settles r r' g g' := by
  cases hi with
  | inCall =>
      cases e with
      | callReturns =>
          cases h
          exact ⟨.unresumed, .inl ⟨rfl, rfl⟩⟩
      | callPanics =>
          cases h
          exact ⟨.panicked true, .inr ⟨rfl, rfl, rfl⟩⟩
      -- there is no future to poll before the call has returned
      | poll o => cases (not_poll (by decide)).symm.trans h
      | dropFuture | pollBody | dropBody => cases h
  | unresumed =>
      cases e with
      | poll o => exact poll_spec (.inl rfl) h
      | dropFuture =>
          cases h
          exact ⟨.cancelled _ (.inl rfl), .inr ⟨rfl, rfl, rfl⟩⟩
      | callReturns | callPanics | pollBody | dropBody => cases h
  | suspended =>
      cases e with
      | poll o => exact poll_spec (.inr rfl) h
      | dropFuture =>
          cases h
          exact ⟨.cancelled _ (.inr rfl), .inr ⟨rfl, rfl, rfl⟩⟩
      | callReturns | callPanics | pollBody | dropBody => cases h
  | cancelled future hf =>
      cases e with
      | poll o => cases (not_poll (by simp [Request.Pollable])).symm.trans h
      | callReturns | callPanics | dropFuture | pollBody | dropBody =>
          rcases hf with rfl | rfl <;> cases h
  | streaming freed =>
      cases e with
      | poll o => cases (not_poll (by simp [Request.Pollable])).symm.trans h
      | dropFuture =>
          cases freed with
          | false =>
              cases h
              exact ⟨.streaming true, .inl ⟨rfl, rfl⟩⟩
          | true => cases h
      | pollBody =>
          cases h
          exact ⟨.streaming freed, .inl ⟨rfl, rfl⟩⟩
      -- the finalizer of the body decrements
      | dropBody =>
          cases h
          exact ⟨.served freed, .inr ⟨rfl, rfl, rfl⟩⟩
      | callReturns | callPanics => cases h
  | served freed =>
      rcases done_spec (by simp [Future.Done]) (by simp) rfl h with ⟨rfl, rfl⟩
      exact ⟨.served true, .inl ⟨rfl, rfl⟩⟩
  | failed freed =>
      rcases done_spec (by simp [Future.Done]) (by simp) rfl h with ⟨rfl, rfl⟩
      exact ⟨.failed true, .inl ⟨rfl, rfl⟩⟩
  | panicked freed =>
      rcases done_spec (by simp [Future.Done]) (by simp) rfl h with ⟨rfl, rfl⟩
      exact ⟨.panicked true, .inl ⟨rfl, rfl⟩⟩

/-! ## All requests -/

/-- The requests that have been counted and have not ended. -/
def State.live (s : State) : Nat := s.requests.countP fun r => !r.ended

/-- The decrements made so far. -/
def State.decs (s : State) : Nat := (s.requests.map Request.decs).sum

/-- Every request has one holder of its duty, and the gauge counts the open ones. -/
structure Inv (s : State) : Prop where
  requests : ∀ r ∈ s.requests, r.Inv
  gauge : s.gauge = BitVec.ofNat 64 s.live

/-- Replacing a request by one that is as open as it was. -/
theorem countP_set_same {l : List Request} {i : Nat} {r r' : Request} (hr : l[i]? = some r)
    (he : r'.ended = r.ended) :
    (l.set i r').countP (fun r => !r.ended) = l.countP fun r => !r.ended := by
  rcases List.getElem?_eq_some_iff.mp hr with ⟨hi, rfl⟩
  rw [List.countP_set hi, he]
  cases hend : l[i].ended with
  | true => rfl
  | false =>
      have hpos : 0 < l.countP fun r => !r.ended :=
        List.countP_pos_iff.mpr ⟨l[i], List.getElem_mem hi, by simp [hend]⟩
      simp only [Bool.not_false, if_true]
      omega

/-- Replacing an open request by one that has ended. -/
theorem countP_set_ended {l : List Request} {i : Nat} {r r' : Request} (hr : l[i]? = some r)
    (he : r.ended = false) (he' : r'.ended = true) :
    (l.set i r').countP (fun r => !r.ended) + 1 = l.countP fun r => !r.ended := by
  rcases List.getElem?_eq_some_iff.mp hr with ⟨hi, rfl⟩
  have hpos : 0 < l.countP fun r => !r.ended :=
    List.countP_pos_iff.mpr ⟨l[i], List.getElem_mem hi, by simp [he]⟩
  rw [List.countP_set hi, he, he']
  simp only [Bool.not_false, Bool.not_true, if_true, Bool.false_eq_true, if_false]
  omega

theorem ofNat_succ_sub_one (n : Nat) : BitVec.ofNat 64 (n + 1) - 1 = BitVec.ofNat 64 n := by
  rw [BitVec.ofNat_add]
  simp

theorem step_inv {s s' : State} {a : Action} (hi : Inv s) (h : step s a = some s') : Inv s' := by
  cases a with
  | call threshold =>
      cases h
      constructor
      · intro r hr
        rcases List.mem_append.mp hr with hr | hr
        · exact hi.requests r hr
        · rw [List.mem_singleton.mp hr]
          exact .inCall
      · show s.gauge + 1 = BitVec.ofNat 64 (List.countP _ (s.requests ++ [Request.new]))
        rw [hi.gauge, List.countP_append, BitVec.ofNat_add]
        rfl
  | event i e =>
      rcases Option.bind_eq_some_iff.mp h with ⟨r, hr, h⟩
      rcases Option.map_eq_some_iff.mp h with ⟨⟨r', g'⟩, hadv, rfl⟩
      rcases advance_spec (hi.requests r (List.mem_of_getElem? hr)) hadv with ⟨hr', hset⟩
      constructor
      · intro q hq
        rcases List.mem_or_eq_of_mem_set hq with hq | rfl
        · exact hi.requests q hq
        · exact hr'
      · show g' = BitVec.ofNat 64 (List.countP _ (s.requests.set i r'))
        rcases hset with ⟨he, rfl⟩ | ⟨he, he', rfl⟩
        · rw [countP_set_same hr he]
          exact hi.gauge
        -- the request ends, and one decrement takes it off the count
        · have hlive := countP_set_ended hr he he'
          rw [hi.gauge, State.live, ← hlive, ofNat_succ_sub_one]

theorem inv_of_reachable {s : State} (h : machine.Reachable s) : Inv s := by
  apply Machine.Reachable.invariant (I := Inv) _ _ h
  · rintro s ⟨hg, hr⟩
    constructor
    · intro r hmem
      rw [hr] at hmem
      cases hmem
    · rw [hg, State.live, hr]
      rfl
  · intro s a s' hi hs
    exact step_inv hi hs

/-- A list of requests that are each decremented once when they end. -/
theorem decs_add_live {l : List Request} (h : ∀ r ∈ l, r.Inv) :
    (l.map Request.decs).sum + l.countP (fun r => !r.ended) = l.length := by
  induction l with
  | nil => rfl
  | cons r l ih =>
      have hl := ih fun q hq => h q (List.mem_cons_of_mem r hq)
      have hr := (h r List.mem_cons_self).decs_eq
      rw [List.map_cons, List.sum_cons, List.countP_cons, List.length_cons, hr]
      cases r.ended <;> simp <;> omega

/-- In every run the gauge is the number of open requests, each request is decremented
once, when it ends, and decrements never outnumber increments. -/
theorem gauge_exact {s : State} (h : machine.Reachable s) :
    s.gauge = BitVec.ofNat 64 s.live ∧ (s.live < 2 ^ 64 → s.gauge.toNat = s.live) ∧
    (∀ r ∈ s.requests, r.decs = if r.ended then 1 else 0) ∧
    (s.requests.length : Int) - s.decs = s.live := by
  have hi := inv_of_reachable h
  refine ⟨hi.gauge, ?_, ?_, ?_⟩
  · intro hlt
    rw [hi.gauge, BitVec.toNat_ofNat]
    exact Nat.mod_eq_of_lt hlt
  · intro r hr
    exact (hi.requests r hr).decs_eq
  · have hsum : s.decs + s.live = s.requests.length := decs_add_live hi.requests
    omega

/-- Five requests: dropped before the first poll, failed, panicked in the inner call,
streaming, and pending. -/
theorem gauge_exact_five :
    ∃ s, machine.Reachable s ∧ s.requests.length = 5 ∧ s.live = 2 ∧ s.gauge.toNat = 2 := by
  rcases Machine.reachable_of_run (show machine.init ⟨0, [], 0⟩ from ⟨rfl, rfl⟩)
    [.call 3, .event 0 .callReturns, .call 3, .event 1 .callReturns, .event 0 .dropFuture,
      .event 1 (.poll .pending), .call 3, .event 2 .callPanics, .event 1 (.poll .err), .call 3,
      .event 3 .callReturns, .event 3 (.poll .ok), .call 3, .event 4 .callReturns,
      .event 4 (.poll .pending), .event 3 .dropFuture, .event 3 .pollBody]
    (fun s => s.requests.length = 5 ∧ s.live = 2) (by decide +kernel) with ⟨s, hs, hlen, hlive⟩
  refine ⟨s, hs, hlen, hlive, ?_⟩
  rw [(gauge_exact hs).2.1 (by omega), hlive]

end Hath.ConnectionCounter
