import Mathlib.Data.List.Basic

/-!
# Loops that read

A loop whose every turn takes the next result of some source: a turn goes on with a new
state, or leaves the loop with a value. The source is a list for a loop that has been
run so far, and a sequence for one that may run on.

* `loop_append`, `loop_append_inr` — the loop over more results;
* `firsts_invariant`, `exit_of_firsts` — what holds after every turn, and where a loop
  left that has left;
* `not_ends` — a loop that does not end goes on after every number of turns;
* `ends_iff_exit` — a loop whose turns leave at certain results ends if one comes.
-/

namespace Lib.Loop

universe u v w

variable {σ : Type u} {ρ : Type v} {β : Type w}

/-- One turn after the other, until one leaves. -/
def loop (body : σ → ρ → σ ⊕ β) : σ → List ρ → σ ⊕ β
  | s, [] => .inl s
  | s, r :: rs =>
      match body s r with
      | .inl s' => loop body s' rs
      | .inr b => .inr b

/-- The first results of a sequence. -/
def firsts (f : Nat → ρ) (n : Nat) : List ρ := (List.range n).map f

/-- The loop ends on a sequence of results. -/
def Ends (body : σ → ρ → σ ⊕ β) (s : σ) (f : Nat → ρ) : Prop :=
  ∃ n b, loop body s (firsts f n) = .inr b

section

variable {body : σ → ρ → σ ⊕ β} {s s' : σ} {b : β}

theorem firsts_succ (f : Nat → ρ) (n : Nat) : firsts f (n + 1) = firsts f n ++ [f n] := by
  unfold firsts
  rw [List.range_succ, List.map_append, List.map_singleton]

theorem firsts_add (f : Nat → ρ) (n m : Nat) :
    firsts f (n + m) = firsts f n ++ firsts (fun i => f (n + i)) m := by
  unfold firsts
  rw [List.range_add, List.map_append, List.map_map]
  rfl

theorem loop_cons_inl {r : ρ} (h : body s r = .inl s') (rs : List ρ) :
    loop body s (r :: rs) = loop body s' rs := by
  rw [loop, h]

theorem loop_cons_inr {r : ρ} (h : body s r = .inr b) (rs : List ρ) :
    loop body s (r :: rs) = .inr b := by
  rw [loop, h]

theorem loop_append {xs : List ρ} (h : loop body s xs = .inl s') (ys : List ρ) :
    loop body s (xs ++ ys) = loop body s' ys := by
  induction xs generalizing s with
  | nil =>
      cases h
      rfl
  | cons x xs ih =>
      cases hx : body s x with
      | inl t =>
          rw [loop_cons_inl hx] at h
          rw [List.cons_append, loop_cons_inl hx]
          exact ih h
      | inr b =>
          rw [loop_cons_inr hx] at h
          cases h

theorem loop_append_inr {xs : List ρ} (h : loop body s xs = .inr b) (ys : List ρ) :
    loop body s (xs ++ ys) = .inr b := by
  induction xs generalizing s with
  | nil => cases h
  | cons x xs ih =>
      cases hx : body s x with
      | inl t =>
          rw [loop_cons_inl hx] at h
          rw [List.cons_append, loop_cons_inl hx]
          exact ih h
      | inr c =>
          rw [loop_cons_inr hx] at h
          rw [List.cons_append, loop_cons_inr hx]
          exact h

/-- One more result. -/
theorem loop_firsts_succ {f : Nat → ρ} {n : Nat} (h : loop body s (firsts f n) = .inl s') :
    loop body s (firsts f (n + 1)) = body s' (f n) := by
  rw [firsts_succ, loop_append h]
  cases hb : body s' (f n) with
  | inl t => exact loop_cons_inl hb []
  | inr b => exact loop_cons_inr hb []

/-- A loop that has left leaves at one of its results. -/
theorem exit_of_firsts {f : Nat → ρ} {n : Nat} (h : loop body s (firsts f n) = .inr b) :
    ∃ k < n, ∃ t, loop body s (firsts f k) = .inl t ∧ body t (f k) = .inr b := by
  induction n with
  | zero => cases h
  | succ n ih =>
      cases hn : loop body s (firsts f n) with
      | inl t =>
          rw [loop_firsts_succ hn] at h
          exact ⟨n, Nat.lt_succ_self n, t, hn, h⟩
      | inr c =>
          rw [firsts_succ, loop_append_inr hn] at h
          cases h
          rcases ih hn with ⟨k, hk, hexit⟩
          exact ⟨k, Nat.lt_succ_of_lt hk, hexit⟩

/-- The invariant of a loop over a sequence. -/
theorem firsts_invariant {f : Nat → ρ} {I : Nat → σ → Prop}
    (hstep : ∀ n t t', I n t → body t (f n) = .inl t' → I (n + 1) t') (hs : I 0 s) {n : Nat} {t : σ}
    (h : loop body s (firsts f n) = .inl t) : I n t := by
  induction n generalizing t with
  | zero =>
      cases h
      exact hs
  | succ n ih =>
      cases hn : loop body s (firsts f n) with
      | inl t' =>
          rw [loop_firsts_succ hn] at h
          exact hstep n t' t (ih hn) h
      | inr c =>
          rw [firsts_succ, loop_append_inr hn] at h
          cases h

/-- A loop that does not end is always in some state. -/
theorem not_ends {f : Nat → ρ} :
    ¬ Ends body s f ↔ ∀ n, ∃ s', loop body s (firsts f n) = .inl s' := by
  constructor
  · intro h n
    cases hn : loop body s (firsts f n) with
    | inl s' => exact ⟨s', rfl⟩
    | inr b => exact absurd ⟨n, b, hn⟩ h
  · rintro h ⟨n, b, hn⟩
    rcases h n with ⟨s', hs'⟩
    rw [hn] at hs'
    cases hs'

/-- Turns that leave at certain results, in any state. -/
theorem ends_iff_exit {exit : ρ → Prop} (hexit : ∀ s r, exit r ↔ ∃ b, body s r = .inr b)
    (s : σ) (f : Nat → ρ) : Ends body s f ↔ ∃ n, exit (f n) := by
  constructor
  · intro hends
    by_contra hnone
    rw [not_exists] at hnone
    refine not_ends.mpr ?_ hends
    -- no result so far has left the loop
    intro n
    induction n with
    | zero => exact ⟨s, rfl⟩
    | succ n ih =>
        rcases ih with ⟨s', hs'⟩
        rw [loop_firsts_succ hs']
        cases hb : body s' (f n) with
        | inl t => exact ⟨t, rfl⟩
        | inr b => exact absurd ((hexit s' (f n)).mpr ⟨b, hb⟩) (hnone n)
  · rintro ⟨n, hn⟩
    by_contra hends
    rcases not_ends.mp hends n with ⟨s', hs'⟩
    rcases (hexit s' (f n)).mp hn with ⟨b, hb⟩
    exact hends ⟨n + 1, b, (loop_firsts_succ hs').trans hb⟩

end

end Lib.Loop
