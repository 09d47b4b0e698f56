import Mathlib.Data.List.Basic

/-!
# Bursts of events

Events that come in bursts of at most `k`, where a burst begins more than `d` after the one
before it began, and after all of its events.

* `Spaced.start`, `Spaced.goOn` — a new burst, and an event of the last one;
* `Spaced.window_le` — a closed window of length `d` has events of two bursts at most.
-/

namespace Lib

/-- When a burst began, and its events. -/
structure Burst where
  began : Nat
  times : List Nat
deriving DecidableEq, Repr

namespace Burst

/-- The events in the closed window of length `d` from `a` on. -/
def inWindow (d a : Nat) (times : List Nat) : List Nat :=
  times.filter fun t => a ≤ t ∧ t ≤ a + d

section

variable {d a : Nat} {times : List Nat}

theorem inWindow_append (times' : List Nat) :
    inWindow d a (times ++ times') = inWindow d a times ++ inWindow d a times' :=
  List.filter_append ..

theorem inWindow_length_le : (inWindow d a times).length ≤ times.length :=
  List.length_filter_le ..

theorem inWindow_eq_nil (h : ∀ t ∈ times, t < a) : inWindow d a times = [] := by
  rw [inWindow, List.filter_eq_nil_iff]
  intro t ht
  have := h t ht
  simp
  omega

end

/-- Bursts of at most `k` events, the latest first, more than `d` apart. -/
structure Spaced (d k : Nat) (bursts : List Burst) : Prop where
  size : ∀ b ∈ bursts, b.times.length ≤ k
  begins : ∀ b ∈ bursts, ∀ t ∈ b.times, b.began ≤ t
  apart : bursts.Pairwise fun b b' => b'.began + d < b.began ∧ ∀ t ∈ b'.times, t ≤ b.began

namespace Spaced

variable {d k : Nat} {b : Burst} {bursts : List Burst}

theorem nil : Spaced d k [] :=
  ⟨fun _ h => absurd h List.not_mem_nil, fun _ h => absurd h List.not_mem_nil, .nil⟩

theorem start (h : Spaced d k bursts) {now : Nat} (hbegan : ∀ b ∈ bursts, b.began + d < now)
    (hpast : ∀ b ∈ bursts, ∀ t ∈ b.times, t ≤ now) : Spaced d k (⟨now, []⟩ :: bursts) := by
  refine ⟨?_, ?_, List.pairwise_cons.mpr ⟨fun b hb => ⟨hbegan b hb, hpast b hb⟩, h.apart⟩⟩
  · intro b hb
    rcases List.mem_cons.mp hb with rfl | hb
    · exact Nat.zero_le _
    · exact h.size b hb
  · intro b hb
    rcases List.mem_cons.mp hb with rfl | hb
    · intro t ht
      cases ht
    · exact h.begins b hb

theorem goOn (h : Spaced d k (b :: bursts)) {now : Nat} (hsize : b.times.length < k)
    (hbegan : b.began ≤ now) : Spaced d k (⟨b.began, now :: b.times⟩ :: bursts) := by
  refine ⟨?_, ?_, ?_⟩
  · intro b' hb'
    rcases List.mem_cons.mp hb' with rfl | hb'
    · exact hsize
    · exact h.size b' (List.mem_cons_of_mem b hb')
  · intro b' hb'
    rcases List.mem_cons.mp hb' with rfl | hb'
    · intro t ht
      rcases List.mem_cons.mp ht with rfl | ht
      · exact hbegan
      · exact h.begins b List.mem_cons_self t ht
    · exact h.begins b' (List.mem_cons_of_mem b hb')
  · have hapart := List.pairwise_cons.mp h.apart
    exact List.pairwise_cons.mpr hapart

theorem tail (h : Spaced d k (b :: bursts)) : Spaced d k bursts :=
  ⟨fun b' hb' => h.size b' (List.mem_cons_of_mem b hb'),
    fun b' hb' => h.begins b' (List.mem_cons_of_mem b hb'), (List.pairwise_cons.mp h.apart).2⟩

/-- Any closed window of length `d` has at most `2 * k` events. -/
theorem window_le (h : Spaced d k bursts) (a : Nat) :
    (inWindow d a (bursts.flatMap Burst.times)).length ≤ 2 * k := by
  induction bursts with
  | nil => exact Nat.zero_le _
  | cons b bursts ih =>
      rw [List.flatMap_cons, inWindow_append, List.length_append]
      by_cases hnone : inWindow d a b.times = []
      · rw [hnone, List.length_nil, Nat.zero_add]
        exact ih h.tail
      rcases List.exists_mem_of_ne_nil _ hnone with ⟨t, ht⟩
      rcases List.mem_filter.mp ht with ⟨hb, hwindow⟩
      have hend : b.began ≤ a + d :=
        Nat.le_trans (h.begins b List.mem_cons_self t hb) (of_decide_eq_true hwindow).2
      have hfirst : (inWindow d a b.times).length ≤ k :=
        Nat.le_trans inWindow_length_le (h.size b List.mem_cons_self)
      cases bursts with
      | nil =>
          show _ + 0 ≤ 2 * k
          omega
      | cons c bursts =>
          -- the burst before began before the window, so whatever came before it is over
          have hbegan := ((List.pairwise_cons.mp h.apart).1 c List.mem_cons_self).1
          have hover : inWindow d a (bursts.flatMap Burst.times) = [] := by
            apply inWindow_eq_nil
            intro t ht
            rcases List.mem_flatMap.mp ht with ⟨c', hc', ht⟩
            have := ((List.pairwise_cons.mp h.tail.apart).1 c' hc').2 t ht
            omega
          have hsecond : (inWindow d a c.times).length ≤ k :=
            Nat.le_trans inWindow_length_le (h.tail.size c List.mem_cons_self)
          rw [List.flatMap_cons, inWindow_append, hover, List.append_nil]
          omega

end Spaced

end Burst

end Lib
