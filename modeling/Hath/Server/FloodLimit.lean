import Hath.Server.FloodControl

/-!
# Hath.Server.FloodLimit — how much flood control lets through

`Hath.Server.FloodRate` tells which hits are never refused. This is the other side: however
often and however irregularly an address connects, with its blocks coming and going, only so
many of its connections are taken in any stretch of time.

* `answers_sorted` — the answers of a run are in the order of their times;
* `accepted_bounded` — the bound.
-/

namespace Hath.Flood

open Lib

/-- The times at which an address was let through. -/
def accepted (ip : IpAddr) (log : List Answer) : List Nat :=
  (log.filter fun x => x.ip = ip ∧ x.blocked = false).map (·.now)

/-! ## The answers in their order -/

theorem answers_sorted {s : State} (h : machine.Reachable s) :
    (s.log.map (·.now)).Pairwise (· ≤ ·) ∧ ∀ x ∈ s.log, x.now ≤ s.clock := by
  refine h.invariant (I := fun s => (s.log.map (·.now)).Pairwise (· ≤ ·) ∧
    ∀ x ∈ s.log, x.now ≤ s.clock) ?_ ?_
  · rintro s ⟨-, hlog⟩
    rw [hlog]
    exact ⟨List.Pairwise.nil, nofun⟩
  · rintro s c s' ⟨hsorted, hpast⟩ hs
    rcases step_cases hs with ⟨hle, rfl⟩
    constructor
    · unfold State.called
      rw [List.map_append]
      refine List.pairwise_append.mpr ⟨hsorted, List.pairwise_singleton _ _, ?_⟩
      intro t ht u hu
      rcases List.mem_map.mp ht with ⟨x, hx, rfl⟩
      rw [List.map_singleton, List.mem_singleton] at hu
      rw [hu]
      exact (hpast x hx).trans hle
    · intro x hx
      have hdone := c.now_le_done
      rcases List.mem_append.mp hx with hx | hx
      · exact (hpast x hx).trans (hle.trans hdone)
      · rw [List.mem_singleton.mp hx]
        exact hdone

theorem times_sorted {s : State} (h : machine.Reachable s) (ip : IpAddr) :
    (times ip s.log).Pairwise (· ≤ ·) :=
  (answers_sorted h).1.sublist (List.filter_sublist.map _)

/-- What an address got, and when. -/
theorem accepted_eq (ip : IpAddr) (log : List Answer) :
    accepted ip log =
      (((times ip log).zip (results ip log)).filter fun x => !x.2).map Prod.fst := by
  unfold accepted times results
  rw [List.zip_map', List.filter_map, List.map_map, List.filter_filter]
  congr 1
  refine List.filter_congr ?_
  intro x _
  cases hb : x.blocked <;> simp [hb]

/-! ## The bound -/

/-- In every run whose calls of the address keep its counter: in any closed stretch of `d`
nanoseconds at most nine connections of the address and one more for every whole second of
`d` are let through, however many there are and whatever the others do. -/
theorem accepted_bounded {ip : IpAddr} {s : State} (h : machine.Reach (KeptBy ip) s) (a d : Nat) :
    (accepted ip s.log).countP (fun t => a ≤ t ∧ t ≤ a + d) ≤ 9 + asSecs d := by
  have hanswers := (answers_of_kept h).1
  have hpassed : accepted ip s.log = bucket.passed (times ip s.log) := by
    rw [accepted_eq, hanswers]
    rfl
  have hlimit : 0 < bucket.limit := by decide
  have hwindow := LeakyBucket.passed_window hlimit (times_sorted h.reachable ip) a d
  rw [hpassed]
  have hten : bucket.limit = 10 := rfl
  have hunit : d / bucket.unit = asSecs d := rfl
  omega

/-- Of twenty connections at once nine are let through, and after the block some more. -/
theorem accepted_bounded_burst :
    ∃ s, machine.Reach (KeptBy addrA) s ∧
      (accepted addrA s.log).length = 10 ∧
      (accepted addrA s.log).countP (fun t => fromSecs 20 ≤ t ∧ t ≤ fromSecs 20 + fromSecs 59) ≤
        9 + 59 := by
  rcases Machine.reach_of_runIf (M := machine) (KeptBy addrA) start_init
    (List.replicate 20 (prompt addrA (fromSecs 20)) ++ [prompt addrA (fromSecs 80)])
    (fun s => (accepted addrA s.log).length = 10) (by decide +kernel) with ⟨s, hs, hlen⟩
  exact ⟨s, hs, hlen, accepted_bounded hs (fromSecs 20) (fromSecs 59)⟩

end Hath.Flood
