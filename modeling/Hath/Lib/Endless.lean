import Mathlib.Order.WellFounded
import Hath.Lib.Machine

/-!
# Endless runs

A loop that need not end is a `Machine` with an endless run: infinitely many steps,
each of which meets a condition. The two rules here decide between the two:

* `not_endless_of_invariant` — a measure that every step lowers leaves no endless run;
* `endless_of_invariant` — a property from which some step leads back to the property
  gives one.
-/

namespace Lib.Machine

universe u v w

variable {σ : Type u} {α : Type v} {β : Type w} {M : Machine σ α}

variable (M) in
/-- From `s` on, steps that meet `ok` can be taken for ever. -/
def Endless (ok : σ → α → Prop) (s : σ) : Prop :=
  ∃ (run : Nat → σ) (act : Nat → α), run 0 = s ∧
    ∀ i, ok (run i) (act i) ∧ M.step (run i) (act i) = some (run (i + 1))

/-- The measure may be of any well-founded order, and need go down only where an invariant
holds. -/
theorem not_endless_of_invariant {ok : σ → α → Prop} {I : σ → Prop} {r : β → β → Prop}
    (hr : WellFounded r) (μ : σ → β)
    (hstep : ∀ s a s', I s → ok s a → M.step s a = some s' → I s' ∧ r (μ s') (μ s)) {s : σ}
    (hs : I s) : ¬ M.Endless ok s := by
  rintro ⟨run, act, rfl, hrun⟩
  have hkeep : ∀ n, I (run n) := by
    intro n
    induction n with
    | zero => exact hs
    | succ n ih => exact (hstep _ _ _ ih (hrun n).1 (hrun n).2).1
  have hdesc : ∀ n, r (μ (run (n + 1))) (μ (run n)) := fun n =>
    (hstep _ _ _ (hkeep n) (hrun n).1 (hrun n).2).2
  have := wellFounded_iff_isEmpty_descending_chain.mp hr
  exact this.elim ⟨fun n => μ (run n), hdesc⟩

theorem not_endless {ok : σ → α → Prop} {r : β → β → Prop} (hr : WellFounded r) (μ : σ → β)
    (hstep : ∀ s a s', ok s a → M.step s a = some s' → r (μ s') (μ s)) (s : σ) :
    ¬ M.Endless ok s :=
  not_endless_of_invariant (I := fun _ => True) hr μ
    (fun s a s' _ hok hs => ⟨trivial, hstep s a s' hok hs⟩) trivial

/-- An invariant that never runs out of steps. -/
theorem endless_of_invariant {ok : σ → α → Prop} {I : σ → Prop}
    (hstep : ∀ s, I s → ∃ a s', ok s a ∧ M.step s a = some s' ∧ I s') {s : σ} (hs : I s) :
    M.Endless ok s := by
  choose act next hok hnext hkeep using fun s : {s : σ // I s} => hstep s.1 s.2
  let run : Nat → {s : σ // I s} := fun n => Nat.rec ⟨s, hs⟩ (fun _ p => ⟨next p, hkeep p⟩) n
  refine ⟨fun n => (run n).1, fun n => act (run n), rfl, ?_⟩
  intro n
  exact ⟨hok (run n), hnext (run n)⟩

/-- A step in front of an endless run. -/
theorem Endless.cons {ok : σ → α → Prop} {s s' : σ} {a : α} (hok : ok s a)
    (hs : M.step s a = some s') (h : M.Endless ok s') : M.Endless ok s := by
  rcases h with ⟨run, act, h0, hrun⟩
  refine ⟨fun n => Nat.casesOn n s run, fun n => Nat.casesOn n a act, rfl, ?_⟩
  intro n
  cases n with
  | zero =>
      refine ⟨hok, ?_⟩
      show M.step s a = some (run 0)
      rw [h0]
      exact hs
  | succ n => exact hrun n

end Lib.Machine
