import Hath.Server.FloodControl

/-!
# Hath.Server.FloodRate — which rates pass flood control

The counter of an address goes down by the whole seconds since the previous hit, and every
hit sets the reference time anew: the fraction of a second between two hits is lost. What
an address may do is therefore counted pause by pause. A stretch of consecutive hits may
have nine hits and one more for every whole second of each of its pauses.

* `Below` — the counter never exceeds the level of the address's own bucket;
* `within_rate_passes` — hits at this rate are never refused, in any run, and in a run
  without early clean-ups no others are never refused.
-/

namespace Hath.Flood

open Lib

/-- The whole seconds of the pauses between consecutive hits. -/
def leaked : List Nat → Nat
  | t :: t' :: times => asSecs (t' - t) + leaked (t' :: times)
  | _ => 0

/-- Every stretch of consecutive hits has at most nine hits and the whole seconds of its
pauses. -/
def WithinRate (times : List Nat) : Prop := ∀ w, w <:+: times → w.length ≤ 9 + leaked w

theorem leaked_eq (times : List Nat) : leaked times = bucket.leak times := by
  induction times with
  | nil => rfl
  | cons t times ih =>
      cases times with
      | nil => rfl
      | cons t' times => exact congrArg (asSecs (t' - t) + ·) ih

theorem withinRate_iff (times : List Nat) : WithinRate times ↔ bucket.WithinRate times := by
  have hlimit : bucket.limit = 10 := rfl
  constructor
  · intro h w _ hin
    have hle := h w hin
    rw [leaked_eq] at hle
    omega
  · intro h w hin
    by_cases hw : w = []
    · rw [hw]
      exact Nat.zero_le _
    · have hlt := h w hw hin
      rw [leaked_eq]
      omega

/-! ## The counter and the bucket -/

/-- The address has never been blocked, and from the time `clock` on its counter is not
above the bucket. -/
structure Below (fc : FloodControl) (ip : IpAddr) (b : LeakyBucket.Content) (clock : Nat) :
    Prop where
  free : fc.blockList ip = none
  level : ∀ now, clock ≤ now → left (fc.hitMap ip) now ≤ bucket.levelAt b now

/-- The clean-up only lowers counters. -/
theorem clean_below {fc : FloodControl} {c : Call} {ip : IpAddr} {b : LeakyBucket.Content}
    {clock : Nat} (hb : Below fc ip b clock) : Below (clean fc c) ip b clock := by
  constructor
  · unfold clean
    split
    · simp only
      rw [hb.free]
      rfl
    · exact hb.free
  · intro now hnow
    rcases clean_hitMap_cases fc c ip with hsame | ⟨-, hnone, -⟩
    · rw [hsame]
      exact hb.level now hnow
    · rw [hnone]
      exact Nat.zero_le _

theorem hit_below_other {fc : FloodControl} {c : Call} {ip : IpAddr} {b : LeakyBucket.Content}
    {clock : Nat} (hb : Below fc ip b clock) (h : clock ≤ c.done) (hip : ip ≠ c.addr.ip) :
    Below (hit fc c).2 ip b c.done := by
  have hclean := clean_below (c := c) hb
  rcases count_other (clean fc c) c.now hip with ⟨hmap, hblock⟩
  unfold hit
  constructor
  · rw [hblock]
    exact hclean.free
  · intro now hnow
    rw [hmap]
    exact hclean.level now (Nat.le_trans h hnow)

/-- As long as the bucket does not refuse a hit, flood control does not. -/
theorem hit_below_own {fc : FloodControl} {c : Call} {b : LeakyBucket.Content} {clock : Nat}
    (hi : Inv fc clock) (hb : Below fc c.addr.ip b clock) (h : clock ≤ c.now)
    (hclosed : b.closed = 0) (hans : (bucket.hit b c.now).1 = false) :
    (hit fc c).1 = false ∧ (bucket.hit b c.now).2.closed = 0 ∧
      Below (hit fc c).2 c.addr.ip (bucket.hit b c.now).2 c.done := by
  have hclean := clean_below (c := c) hb
  rcases LeakyBucket.hit_eq_of_false hclosed hans with ⟨hlow, hbucket⟩
  have hlimit : bucket.limit = 10 := rfl
  rw [hbucket]
  unfold hit
  rcases count_cases c.addr.ip (clean_inv hi h) with ⟨hblocked, -⟩ |
    ⟨-, n, hn, -, hres, hmap, hblock⟩
  · unfold Blocked at hblocked
    rw [hclean.free] at hblocked
    cases hblocked
  · have hlevel := hclean.level c.now h
    have hsmall : n.toNat ≠ 10 := by omega
    rw [if_neg hsmall] at hblock
    refine ⟨?_, rfl, ?_, ?_⟩
    · rw [hres]
      exact decide_eq_false hsmall
    · rw [hblock]
      exact hclean.free
    · intro now _
      rw [hmap, Function.update_self]
      show n.toNat - min 10 (asSecs (now - c.now)) ≤
        bucket.levelAt b c.now + 1 - asSecs (now - c.now)
      omega

/-- The bucket of the address has refused nothing so far, and neither has flood control. -/
def Spared (ip : IpAddr) (s : State) : Prop :=
  (∀ a ∈ results ip s.log, a = false) ∧ (bucketOf ip s).closed = 0 ∧
    Below s.fc ip (bucketOf ip s) s.clock

theorem spared_of_reachable {ip : IpAddr} {s : State} (h : machine.Reachable s)
    (hbucket : ∀ a ∈ bucket.answers LeakyBucket.empty (times ip s.log), a = false) :
    Spared ip s := by
  induction h with
  | @init s h0 =>
      rcases h0 with ⟨hfc, hlog⟩
      unfold Spared bucketOf
      rw [hlog, hfc]
      refine ⟨?_, rfl, rfl, ?_⟩
      · intro a ha
        cases ha
      · intro now _
        exact Nat.zero_le _
  | @step s s' c hs _ hstep ih =>
      rcases step_cases hstep with ⟨hle, rfl⟩
      have hdone := c.now_le_done
      unfold Spared bucketOf
      by_cases hip : c.addr.ip = ip
      · subst hip
        rcases called_own (s := s) (c := c) rfl with ⟨ht, hr⟩
        rw [ht, bucket.answers_snoc] at hbucket
        rcases ih fun a ha => hbucket a (List.mem_append_left _ ha) with ⟨hres, hclosed, hbelow⟩
        have hlast := hbucket _ (List.mem_append_right _ List.mem_cons_self)
        rcases hit_below_own (inv_of_reachable hs) hbelow hle hclosed hlast with
          ⟨hans, hclosed', hbelow'⟩
        rw [ht, hr, bucket.after_snoc]
        refine ⟨?_, hclosed', hbelow'⟩
        intro a ha
        rcases List.mem_append.mp ha with ha | ha
        · exact hres a ha
        · exact (List.mem_singleton.mp ha).trans hans
      · rcases called_other (s := s) hip with ⟨ht, hr⟩
        rw [ht] at hbucket
        rcases ih hbucket with ⟨hres, hclosed, hbelow⟩
        rw [ht, hr]
        refine ⟨hres, hclosed, ?_⟩
        exact hit_below_other hbelow (by omega) (Ne.symm hip)

/-- **Hits within the rate are never refused.** In every run, with whatever calls of other
addresses and delays: if every stretch of consecutive hits of the address has at most nine
hits and the whole seconds of its pauses, no hit of it is refused. In runs that keep its
counter, hits beyond that rate are refused. -/
theorem within_rate_passes (ip : IpAddr) :
    (∀ s, machine.Reachable s → WithinRate (times ip s.log) →
      ∀ a ∈ results ip s.log, a = false) ∧
    ∀ s, machine.Reach (KeptBy ip) s → (∀ a ∈ results ip s.log, a = false) →
      WithinRate (times ip s.log) := by
  constructor
  · intro s hs hrate
    rw [withinRate_iff, ← LeakyBucket.answers_false_iff] at hrate
    exact (spared_of_reachable hs hrate).1
  · intro s hs hfalse
    rw [withinRate_iff, ← LeakyBucket.answers_false_iff, ← (answers_of_kept hs).1]
    exact hfalse

/-- Nine hits at once, and one more after each of three pauses of a second and a fraction. -/
def pausedHits : List Nat :=
  List.replicate 9 (fromSecs 20) ++ [21500000000, 22700000000, 23900000000]

theorem within_rate_passes_paused :
    ∃ s, machine.Reachable s ∧ times addrA s.log = pausedHits ∧
      WithinRate (times addrA s.log) ∧ ∀ a ∈ results addrA s.log, a = false := by
  rcases Machine.reachable_of_run (M := machine) start_init (pausedHits.map (prompt addrA))
    (fun s => times addrA s.log = pausedHits) (by decide +kernel) with ⟨s, hs, ht⟩
  have hrate : WithinRate (times addrA s.log) := by
    rw [ht, withinRate_iff, ← LeakyBucket.answers_false_iff]
    decide +kernel
  exact ⟨s, hs, ht, hrate, (within_rate_passes addrA).1 s hs hrate⟩

/-! ## Windows of time -/

/-- Every closed window of `d` nanoseconds has at most nine hits and one for every whole
second of `d`. -/
def InWindows (times : List Nat) : Prop :=
  ∀ a d, (times.filter fun t => a ≤ t ∧ t ≤ a + d).length ≤ 9 + asSecs d

/-- Ten hits, 0.99 s from one to the next. -/
def almostSeconds : List Nat := (List.range 10).map fun k => fromSecs 20 + 990000000 * k

theorem almostSeconds_inWindows : InWindows almostSeconds := by
  intro a d
  by_cases hd : asSecs d = 0
  · -- the first hit or the last one is outside
    have hshort : d < 1000000000 := by
      unfold asSecs at hd
      omega
    have hout : ∃ t ∈ almostSeconds, ¬ decide (a ≤ t ∧ t ≤ a + d) = true := by
      by_cases hfirst : a ≤ fromSecs 20
      · refine ⟨fromSecs 20 + 990000000 * 9, by decide, ?_⟩
        rw [decide_eq_true_iff]
        omega
      · refine ⟨fromSecs 20 + 990000000 * 0, by decide, ?_⟩
        rw [decide_eq_true_iff]
        omega
    have hlt := List.length_filter_lt_length_iff_exists.mpr hout
    have hten : almostSeconds.length = 10 := rfl
    omega
  · have hle := List.length_filter_le (fun t => decide (a ≤ t ∧ t ≤ a + d)) almostSeconds
    have hten : almostSeconds.length = 10 := rfl
    omega

/-- Hits that stay within every window are refused: the tenth one is. -/
theorem almostSeconds_refused :
    ∃ s, machine.Reachable s ∧ InWindows (times addrA s.log) ∧ true ∈ results addrA s.log := by
  rcases Machine.reachable_of_run (M := machine) start_init (almostSeconds.map (prompt addrA))
    (fun s => times addrA s.log = almostSeconds ∧ true ∈ results addrA s.log)
    (by decide +kernel) with ⟨s, hs, ht, htrue⟩
  refine ⟨s, hs, ?_, htrue⟩
  rw [ht]
  exact almostSeconds_inWindows

end Hath.Flood
