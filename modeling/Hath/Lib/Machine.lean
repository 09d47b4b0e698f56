import Mathlib.Init

/-!
# Machines — executable labelled transition systems

A `Machine` is a set of initial states and a partial step function: `step s a`
is `none` when the action `a` is not enabled in `s`. Because the step function
computes, a concrete trace is checked by evaluation, and the same definition
carries the invariant rules:

* `Reach.invariant` — an initial property that every step keeps holds in every
  reachable state;
* `Reach.trans` — what is reached from a reached state is reached;
* `reach_of_run` — a trace that evaluates to a state shows the state reachable.

Reachability takes a condition `ok` on steps: `Reach ok` are the states reached
by runs whose every step is taken in a state that admits it. `Reachable` is the
unconditional case, and the condition is what a result about restricted
schedules is stated with.
-/

namespace Lib

universe u v

/-- Initial states and a partial, labelled step function. -/
structure Machine (σ : Type u) (α : Type v) where
  init : σ → Prop
  step : σ → α → Option σ

namespace Machine

variable {σ : Type u} {α : Type v} (M : Machine σ α)

/-- States reached by runs all of whose steps meet `ok`. -/
inductive Reach (ok : σ → α → Prop) : σ → Prop where
  | init {s : σ} : M.init s → Reach ok s
  | step {s s' : σ} (a : α) : Reach ok s → ok s a → M.step s a = some s' → Reach ok s'

/-- States reached by any run. -/
def Reachable (s : σ) : Prop := M.Reach (fun _ _ => True) s

variable {M}

/-! ## Rules -/

/-- Inductive invariance along the runs that meet `ok`. -/
theorem Reach.invariant {ok : σ → α → Prop} {I : σ → Prop}
    (hinit : ∀ s, M.init s → I s)
    (hstep : ∀ s a s', I s → ok s a → M.step s a = some s' → I s')
    {s : σ} (h : M.Reach ok s) : I s := by
  induction h with
  | init h0 => exact hinit _ h0
  | step a _ hok hs ih => exact hstep _ a _ ih hok hs

/-- A run that meets a condition meets every weaker one. -/
theorem Reach.mono {ok ok' : σ → α → Prop} (hok : ∀ s a, ok s a → ok' s a) {s : σ}
    (h : M.Reach ok s) : M.Reach ok' s := by
  induction h with
  | init h0 => exact .init h0
  | step a _ ha hs ih => exact .step a ih (hok _ a ha) hs

/-- Dropping the condition: a restricted run is a run. -/
theorem Reach.reachable {ok : σ → α → Prop} {s : σ} (h : M.Reach ok s) :
    M.Reachable s :=
  h.mono fun _ _ _ => trivial

/-- Inductive invariance over all runs. -/
theorem Reachable.invariant {I : σ → Prop}
    (hinit : ∀ s, M.init s → I s)
    (hstep : ∀ s a s', I s → M.step s a = some s' → I s')
    {s : σ} (h : M.Reachable s) : I s :=
  Reach.invariant hinit (fun s a s' hi _ hs => hstep s a s' hi hs) h

/-! ## Later states -/

variable (M) in
/-- The machine with another start. -/
def startAt (s₀ : σ) : Machine σ α where
  init s := s = s₀
  step := M.step

theorem Reach.trans {ok : σ → α → Prop} {s s' : σ} (h : M.Reach ok s)
    (h' : (M.startAt s).Reach ok s') : M.Reach ok s' := by
  induction h' with
  | init h0 =>
      cases h0
      exact h
  | step a _ hok hs ih => exact .step a ih hok hs

/-! ## Traces -/

variable (M) in
/-- Run a trace, stopping at the first step that is not enabled or not
admitted by `ok`. -/
def runIf (ok : σ → α → Prop) [∀ s a, Decidable (ok s a)] : σ → List α → Option σ
  | s, [] => some s
  | s, a :: as => if ok s a then (M.step s a).bind (runIf ok · as) else none

variable (M) in
/-- Run a trace without a condition. -/
def run : σ → List α → Option σ := M.runIf fun _ _ => True

/-- A trace that runs to its end from a reached state ends in a reached state. -/
theorem Reach.runIf {ok : σ → α → Prop} [∀ s a, Decidable (ok s a)] :
    ∀ {as : List α} {s s' : σ}, M.Reach ok s → M.runIf ok s as = some s' →
      M.Reach ok s' := by
  intro as
  induction as with
  | nil =>
      intro s s' hs h
      rw [Machine.runIf] at h
      exact Option.some.inj h ▸ hs
  | cons a as ih =>
      intro s s' hs h
      rw [Machine.runIf] at h
      split at h
      · rename_i hok
        rcases Option.bind_eq_some_iff.mp h with ⟨t, ht, h⟩
        exact ih (.step a hs hok ht) h
      · cases h

/-- A trace with a checkable end state: if the trace runs and its last state
passes the test `p`, some reached state passes it. -/
theorem reach_of_runIf (ok : σ → α → Prop) [∀ s a, Decidable (ok s a)] {s₀ : σ}
    (h0 : M.init s₀) (as : List α) (p : σ → Prop) [DecidablePred p]
    (h : (M.runIf ok s₀ as).any (fun s => decide (p s)) = true) :
    ∃ s, M.Reach ok s ∧ p s := by
  cases hr : M.runIf ok s₀ as with
  | none => simp [hr] at h
  | some s =>
      rw [hr] at h
      exact ⟨s, Reach.runIf (.init h0) hr, of_decide_eq_true h⟩

/-- The unconditional form of `reach_of_runIf`. -/
theorem reachable_of_run {s₀ : σ} (h0 : M.init s₀) (as : List α) (p : σ → Prop)
    [DecidablePred p] (h : (M.run s₀ as).any (fun s => decide (p s)) = true) :
    ∃ s, M.Reachable s ∧ p s :=
  reach_of_runIf (fun _ _ => True) h0 as p h

end Machine

end Lib
