import Mathlib.Init

/-!
# Fallible loops

A loop whose body may fail is a `foldlM` in `Except`. The rules here take a loop that
came to its end apart:

* `bind_eq_ok` — both parts of a sequence came to their end;
* `foldlM_invariant` — what holds at the start and is kept by every turn holds at the
  end.
-/

namespace Lib.Fallible

universe u v w

variable {ε : Type u} {α : Type v} {β : Type v} {γ : Type w}

theorem bind_eq_ok {x : Except ε α} {f : α → Except ε β} {r : β} :
    x >>= f = .ok r ↔ ∃ a, x = .ok a ∧ f a = .ok r := by
  cases x with
  | error e =>
      constructor
      · intro h
        cases h
      · rintro ⟨a, h, -⟩
        cases h
  | ok a =>
      constructor
      · intro h
        exact ⟨a, rfl, h⟩
      · rintro ⟨b, h, hf⟩
        cases h
        exact hf

theorem foldlM_cons_eq_ok {f : β → γ → Except ε β} {c : γ} {l : List γ} {b r : β} :
    (c :: l).foldlM f b = .ok r ↔ ∃ b', f b c = .ok b' ∧ l.foldlM f b' = .ok r := by
  rw [List.foldlM_cons, bind_eq_ok]

/-- The invariant of a loop that came to its end. -/
theorem foldlM_invariant {f : β → γ → Except ε β} {I : β → Prop} {l : List γ}
    (hstep : ∀ b c b', I b → f b c = .ok b' → I b') {b r : β} (hb : I b)
    (h : l.foldlM f b = .ok r) : I r := by
  induction l generalizing b with
  | nil =>
      cases h
      exact hb
  | cons c l ih =>
      rcases foldlM_cons_eq_ok.mp h with ⟨b', hf, hl⟩
      exact ih (hstep b c b' hb hf) hl

end Lib.Fallible
