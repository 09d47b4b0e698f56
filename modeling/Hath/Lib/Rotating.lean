import Mathlib.Data.List.Basic

/-!
# Logs in two files

A log that goes to one file until the file is full; then the file takes the place of the
one before it and a new one is begun. A `Rotating` log has the lines of both files, the
counter that decides when a file is full, and, as a ghost, the lines that are gone.

* `all_push` — no line is dropped except with the older file;
* `Inv` — how full the two files are;
* `recent` — the last `limit` lines are always there.
-/

namespace Lib

universe u

/-- A log of lines. `old` is `none` until the first file is full. -/
structure Rotating (β : Type u) where
  lost : List β
  old : Option (List β)
  cur : List β
  /-- The counter of the current file. -/
  lines : Nat

namespace Rotating

variable {β : Type u} {limit : Nat} {r : Rotating β}

/-- A log that has just been opened. -/
def empty : Rotating β := ⟨[], none, [], 0⟩

/-- Write a line. The counter is set back after the old file has been put away, and the
line that finds the file full is not counted. -/
def push (limit : Nat) (r : Rotating β) (x : β) : Rotating β :=
  if limit < r.lines + 1 then
    { lost := r.lost ++ r.old.getD [], old := some r.cur, cur := [x], lines := 0 }
  else { r with cur := r.cur ++ [x], lines := r.lines + 1 }

/-- What the two files hold. -/
def kept (r : Rotating β) : List β := r.old.getD [] ++ r.cur

/-- Everything written so far. -/
def all (r : Rotating β) : List β := r.lost ++ r.kept

theorem all_push (r : Rotating β) (x : β) : (r.push limit x).all = r.all ++ [x] := by
  unfold push
  split
  · simp [all, kept]
  · simp [all, kept]

/-- How full the files are: the file after a rotation has one line more than it counts. -/
structure Inv (limit : Nat) (r : Rotating β) : Prop where
  counted : r.lines ≤ limit
  first : r.old = none → r.lost = [] ∧ r.cur.length = r.lines
  later : r.old ≠ none → r.cur.length = r.lines + 1
  full : ∀ o ∈ r.old, limit ≤ o.length ∧ o.length ≤ limit + 1

theorem inv_empty (limit : Nat) : Inv limit (empty : Rotating β) :=
  ⟨Nat.zero_le _, fun _ => ⟨rfl, rfl⟩, fun h => absurd rfl h, fun _ ho => nomatch ho⟩

theorem Inv.length_le (h : Inv limit r) : r.cur.length ≤ limit + 1 := by
  have hcounted := h.counted
  by_cases hold : r.old = none
  · have := (h.first hold).2
    omega
  · have := h.later hold
    omega

theorem Inv.lines_le (h : Inv limit r) : r.lines ≤ r.cur.length := by
  by_cases hold : r.old = none
  · exact Nat.le_of_eq (h.first hold).2.symm
  · rw [h.later hold]
    exact Nat.le_succ _

theorem inv_push (h : Inv limit r) (x : β) : Inv limit (r.push limit x) := by
  have hle := h.length_le
  have hge := h.lines_le
  unfold push
  split
  · rename_i hfull
    refine ⟨Nat.zero_le _, fun hnone => ?_, fun _ => rfl, ?_⟩
    · cases hnone
    · intro o ho
      obtain rfl := Option.some.inj ho
      exact ⟨by omega, hle⟩
  · rename_i hroom
    refine ⟨by dsimp only; omega, ?_, ?_, h.full⟩
    · intro hnone
      rcases h.first hnone with ⟨hlost, hlen⟩
      exact ⟨hlost, by simp [hlen]⟩
    · intro hold
      simp [h.later hold]

/-- What is gone was followed by `limit` lines at least. -/
theorem Inv.recent (h : Inv limit r) :
    r.all = r.lost ++ r.kept ∧ (r.lost ≠ [] → limit < r.kept.length) ∧
      r.kept.length ≤ 2 * limit + 2 := by
  have hle := h.length_le
  refine ⟨rfl, ?_, ?_⟩
  · intro hlost
    cases hold : r.old with
    | none => exact absurd (h.first hold).1 hlost
    | some o =>
        have hfull := h.full o hold
        have hlater := h.later (by simp [hold])
        simp only [kept, hold, Option.getD_some, List.length_append]
        omega
  · cases hold : r.old with
    | none =>
        simp only [kept, hold, Option.getD_none, List.nil_append]
        omega
    | some o =>
        have hfull := h.full o hold
        simp only [kept, hold, Option.getD_some, List.length_append]
        omega

end Rotating

end Lib
