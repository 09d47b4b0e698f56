import Mathlib.Logic.Function.Basic
import Mathlib.Tactic.Push
import Hath.Lib.Machine
import Hath.Lib.LeakyBucket
import Hath.Net

/-!
# Hath.Server.FloodControl — blocking addresses that connect too often

`FloodControl::hit` counts the connections of an address, one less for every second
that passes, and blocks the address for a minute when the count gets to ten. Every
ten seconds the call that happens to come next drops the expired blocks and the old
counters of all addresses.

Times are readings of a monotone clock in nanoseconds. A call reads it as `now`, in
`last_clean.elapsed()` and, if it cleans, once for every entry of `hit_map`; the
readings of a run come in program order. `log` records the answers and is read by no
step.

* `counters_le` — no counter exceeds ten;
* `answers_of_kept` — an address is answered as a leaky bucket of its own would, as long as
  no clean-up drops a counter of its own caller that still counts.
-/

namespace Hath.Flood

open Lib

/-! ## The code -/

/-- `Duration::from_secs`. -/
def fromSecs (n : Nat) : Nat := n * 1000000000

/-- `Duration::as_secs`. -/
def asSecs (d : Nat) : Nat := d / 1000000000

/-- The fields of `FloodControl`; a map is the function of its lookups. -/
structure FloodControl where
  lastClean : Nat
  hitMap : IpAddr → Option (UInt8 × Nat)
  blockList : IpAddr → Option Nat

/-- `FloodControl::new`, at the time `now`. -/
def new (now : Nat) : FloodControl := ⟨now, fun _ => none, fun _ => none⟩

/-- A call of `hit` with its readings of the clock: `now`, the one in
`last_clean.elapsed()`, the one `retain` makes for the entry of each address, and the
time at which the call returns. -/
structure Call where
  addr : SocketAddr
  now : Nat
  checked : Nat
  sampled : IpAddr → Nat
  done : Nat
  now_le_checked : now ≤ checked
  checked_le_sampled : ∀ ip, checked ≤ sampled ip
  sampled_le_done : ∀ ip, sampled ip ≤ done

/-- The call cleans up. -/
def Cleans (fc : FloodControl) (c : Call) : Prop := fromSecs 10 < c.checked - fc.lastClean

instance (fc : FloodControl) (c : Call) : Decidable (Cleans fc c) :=
  inferInstanceAs (Decidable (_ < _))

/-- The clean-up at the start of a call. -/
def clean (fc : FloodControl) (c : Call) : FloodControl :=
  if Cleans fc c then
    { lastClean := c.now
      hitMap := fun ip => (fc.hitMap ip).filter fun e => c.sampled ip - e.2 < fromSecs 10
      blockList := fun ip => (fc.blockList ip).filter fun time => c.now < time }
  else fc

/-- `u8::saturating_sub`. -/
def saturatingSub (a b : UInt8) : UInt8 := if b ≤ a then a - b else 0

/-- The new counter of an address with the given entry. -/
def bump (entry : Option (UInt8 × Nat)) (now : Nat) : UInt8 :=
  let e := entry.getD (0, now)
  saturatingSub e.1 (UInt8.ofNat (min 10 (asSecs (now - e.2)))) + 1

/-- The address is blocked at the time `now`. -/
def Blocked (fc : FloodControl) (ip : IpAddr) (now : Nat) : Prop :=
  (fc.blockList ip).any fun time => now < time

instance (fc : FloodControl) (ip : IpAddr) (now : Nat) : Decidable (Blocked fc ip now) :=
  inferInstanceAs (Decidable (_ = true))

/-- The rest of a call, after the clean-up. -/
def count (fc : FloodControl) (ip : IpAddr) (now : Nat) : Bool × FloodControl :=
  if Blocked fc ip now then (true, fc)
  else
    let hit := bump (fc.hitMap ip) now
    let hitMap := Function.update fc.hitMap ip (some (hit, now))
    if 10 ≤ hit then
      (true, { fc with
        hitMap, blockList := Function.update fc.blockList ip (some (now + fromSecs 60)) })
    else (false, { fc with hitMap })

/-- `FloodControl::hit`. -/
def hit (fc : FloodControl) (c : Call) : Bool × FloodControl :=
  count (clean fc c) c.addr.ip c.now

/-! ## Runs -/

/-- One answer: the address, its `now` and what `hit` returned. -/
structure Answer where
  ip : IpAddr
  now : Nat
  blocked : Bool
deriving DecidableEq

/-- Flood control, the clock, and the answers so far. -/
structure State where
  fc : FloodControl
  clock : Nat
  log : List Answer

/-- The state after a call. -/
def State.called (s : State) (c : Call) : State :=
  ⟨(hit s.fc c).2, c.done, s.log ++ [⟨c.addr.ip, c.now, (hit s.fc c).1⟩]⟩

/-- A call is made no earlier than the one before it returned. -/
def step (s : State) (c : Call) : Option State :=
  if s.clock ≤ c.now then some (s.called c) else none

/-- The accept loops make the calls one after the other. -/
def machine : Machine State Call :=
  { init := fun s => s.fc = new s.clock ∧ s.log = []
    step }

/-- The times at which an address was counted. -/
def times (ip : IpAddr) (log : List Answer) : List Nat :=
  (log.filter (·.ip = ip)).map (·.now)

/-- The answers an address got. -/
def results (ip : IpAddr) (log : List Answer) : List Bool :=
  (log.filter (·.ip = ip)).map (·.blocked)

theorem step_cases {s s' : State} {c : Call} (h : machine.step s c = some s') :
    s.clock ≤ c.now ∧ s' = s.called c := by
  have h : step s c = some s' := h
  unfold step at h
  split at h
  · rename_i hle
    exact ⟨hle, (Option.some.inj h).symm⟩
  · cases h

theorem step_called {s : State} {c : Call} (h : s.clock ≤ c.now) :
    machine.step s c = some (s.called c) := if_pos h

@[simp] theorem called_fc (s : State) (c : Call) : (s.called c).fc = (hit s.fc c).2 := rfl

@[simp] theorem called_clock (s : State) (c : Call) : (s.called c).clock = c.done := rfl

/-- A call of the address is counted and answered. -/
theorem called_own {s : State} {c : Call} {ip : IpAddr} (h : c.addr.ip = ip) :
    times ip (s.called c).log = times ip s.log ++ [c.now] ∧
      results ip (s.called c).log = results ip s.log ++ [(hit s.fc c).1] := by
  simp [times, results, State.called, h]

/-- A call of another address is not. -/
theorem called_other {s : State} {c : Call} {ip : IpAddr} (h : c.addr.ip ≠ ip) :
    times ip (s.called c).log = times ip s.log ∧
      results ip (s.called c).log = results ip s.log := by
  simp [times, results, State.called, h]

/-! ## Counters -/

/-- What is left of an entry at the time `now`. -/
def left (entry : Option (UInt8 × Nat)) (now : Nat) : Nat :=
  match entry with
  | none => 0
  | some e => e.1.toNat - min 10 (asSecs (now - e.2))

@[simp] theorem left_none (now : Nat) : left none now = 0 := rfl

@[simp] theorem left_some (e : UInt8 × Nat) (now : Nat) :
    left (some e) now = e.1.toNat - min 10 (asSecs (now - e.2)) := rfl

/-- A counter goes down by whole seconds and up by one; `min` keeps the seconds in a
byte and the bound keeps the sum in one. -/
theorem bump_toNat {entry : Option (UInt8 × Nat)} {now : Nat}
    (h : ∀ e, entry = some e → e.1.toNat ≤ 10) :
    (bump entry now).toNat = left entry now + 1 := by
  have hsub : ∀ (a : UInt8) (d : Nat), a.toNat ≤ 10 →
      (saturatingSub a (UInt8.ofNat (min 10 d)) + 1).toNat = a.toNat - min 10 d + 1 := by
    intro a d ha
    have hd : (UInt8.ofNat (min 10 d)).toNat = min 10 d := by
      rw [UInt8.toNat_ofNat']
      omega
    unfold saturatingSub
    split
    · rename_i hle
      rw [UInt8.toNat_add, UInt8.toNat_sub_of_le _ _ hle, hd]
      simp
      omega
    · rename_i hlt
      rw [UInt8.le_iff_toNat_le, hd] at hlt
      simp
      omega
  cases entry with
  | none =>
      have h0 := hsub 0 (asSecs (now - now)) (by decide)
      rw [left_none]
      rw [show (0 : UInt8).toNat = 0 from rfl, Nat.zero_sub] at h0
      exact h0
  | some e => exact hsub e.1 _ (h e rfl)

/-- An entry that is ten seconds old counts for nothing. -/
theorem left_old {e : UInt8 × Nat} {now : Nat} (he : e.1.toNat ≤ 10)
    (hold : fromSecs 10 ≤ now - e.2) : left (some e) now = 0 := by
  have : 10 ≤ asSecs (now - e.2) := by
    unfold asSecs
    unfold fromSecs at hold
    omega
  rw [left_some]
  omega

/-- Counters are at most ten, and a full one belongs to a block of a minute. -/
structure Inv (fc : FloodControl) (clock : Nat) : Prop where
  le_ten : ∀ ip e, fc.hitMap ip = some e → e.1.toNat ≤ 10
  full : ∀ ip e, fc.hitMap ip = some e → e.1.toNat = 10 →
    fc.blockList ip = some (e.2 + fromSecs 60) ∨ e.2 + fromSecs 60 ≤ clock

theorem Inv.mono {fc : FloodControl} {clock clock' : Nat} (hi : Inv fc clock)
    (h : clock ≤ clock') : Inv fc clock' := by
  constructor
  · exact hi.le_ten
  · intro ip e he hten
    rcases hi.full ip e he hten with hb | hc
    · exact .inl hb
    · exact .inr (by omega)

/-- The clean-up only takes entries away. -/
theorem clean_hitMap {fc : FloodControl} {c : Call} {ip : IpAddr} {e : UInt8 × Nat}
    (h : (clean fc c).hitMap ip = some e) : fc.hitMap ip = some e := by
  unfold clean at h
  split at h
  · exact (Option.filter_eq_some_iff.mp h).1
  · exact h

/-- What the clean-up takes away from `hit_map` was ten seconds old. -/
theorem clean_hitMap_cases (fc : FloodControl) (c : Call) (ip : IpAddr) :
    (clean fc c).hitMap ip = fc.hitMap ip ∨
    (Cleans fc c ∧ (clean fc c).hitMap ip = none ∧
      ∃ e, fc.hitMap ip = some e ∧ fromSecs 10 ≤ c.sampled ip - e.2) := by
  by_cases hcl : Cleans fc c
  · have hmap : (clean fc c).hitMap ip =
        (fc.hitMap ip).filter fun e => c.sampled ip - e.2 < fromSecs 10 := by
      rw [clean, if_pos hcl]
    cases he : fc.hitMap ip with
    | none =>
        rw [hmap, he]
        exact .inl rfl
    | some e =>
        rw [hmap, he, Option.filter_some]
        by_cases hage : c.sampled ip - e.2 < fromSecs 10
        · exact .inl (if_pos (decide_eq_true hage))
        · exact .inr ⟨hcl, by simp [hage], e, rfl, by omega⟩
  · rw [clean, if_neg hcl]
    exact .inl rfl

/-- The clean-up changes no answer about blocks. -/
theorem clean_blocked (fc : FloodControl) {c : Call} (ip : IpAddr) {now : Nat} (h : c.now ≤ now) :
    Blocked (clean fc c) ip now ↔ Blocked fc ip now := by
  by_cases hcl : Cleans fc c
  · have hmap : (clean fc c).blockList ip = (fc.blockList ip).filter fun time => c.now < time := by
      rw [clean, if_pos hcl]
    unfold Blocked
    rw [hmap]
    cases fc.blockList ip with
    | none => exact Iff.rfl
    | some time =>
        rw [Option.filter_some]
        by_cases hlt : c.now < time
        · simp [hlt]
        · have hnow : ¬ now < time := by omega
          simp [hlt, hnow]
  · rw [clean, if_neg hcl]

theorem clean_inv {fc : FloodControl} {c : Call} {clock : Nat} (hi : Inv fc clock)
    (h : clock ≤ c.now) : Inv (clean fc c) c.now := by
  constructor
  · intro ip e he
    exact hi.le_ten ip e (clean_hitMap he)
  · intro ip e he hten
    rcases hi.full ip e (clean_hitMap he) hten with hb | hc
    · unfold clean
      split
      -- the block of a full counter survives the clean-up, or it has ended
      · by_cases hlt : c.now < e.2 + fromSecs 60
        · left
          simp [hb, Option.filter, hlt]
        · exact .inr (by omega)
      · exact .inl hb
    · exact .inr (by omega)

/-- A block that has ended leaves no drop of a full counter. -/
theorem left_le_nine {fc : FloodControl} {ip : IpAddr} {now : Nat} (hi : Inv fc now)
    (hb : ¬ Blocked fc ip now) : left (fc.hitMap ip) now ≤ 9 := by
  cases he : fc.hitMap ip with
  | none => exact Nat.zero_le _
  | some e =>
      have hle := hi.le_ten ip e he
      by_cases hten : e.1.toNat = 10
      · -- the block of a full counter ends a minute after it was filled
        have hpast : e.2 + fromSecs 60 ≤ now := by
          rcases hi.full ip e he hten with hbl | hc
          · unfold Blocked at hb
            rw [hbl, Option.any_some, decide_eq_true_iff] at hb
            exact Nat.not_lt.mp hb
          · exact hc
        have hold : fromSecs 10 ≤ now - e.2 := by
          unfold fromSecs at hpast ⊢
          omega
        rw [left_old hle hold]
        exact Nat.zero_le 9
      · rw [left_some]
        omega

/-- The counter a call writes. -/
theorem bump_le_ten {fc : FloodControl} {ip : IpAddr} {now : Nat} (hi : Inv fc now)
    (hb : ¬ Blocked fc ip now) :
    (bump (fc.hitMap ip) now).toNat = left (fc.hitMap ip) now + 1 ∧
      (bump (fc.hitMap ip) now).toNat ≤ 10 := by
  have hbump : (bump (fc.hitMap ip) now).toNat = left (fc.hitMap ip) now + 1 :=
    bump_toNat (hi.le_ten ip)
  have hnine := left_le_nine hi hb
  constructor
  · exact hbump
  · omega

/-- What a call does after the clean-up: nothing to a blocked address, else it writes
the counter and, when that is ten, the block. -/
theorem count_cases {fc : FloodControl} (ip : IpAddr) {now : Nat} (hi : Inv fc now) :
    (Blocked fc ip now ∧ count fc ip now = (true, fc)) ∨
    (¬ Blocked fc ip now ∧ ∃ hit : UInt8, hit.toNat = left (fc.hitMap ip) now + 1 ∧
      hit.toNat ≤ 10 ∧
      (count fc ip now).1 = decide (hit.toNat = 10) ∧
      (count fc ip now).2.hitMap = Function.update fc.hitMap ip (some (hit, now)) ∧
      (count fc ip now).2.blockList =
        if hit.toNat = 10 then Function.update fc.blockList ip (some (now + fromSecs 60))
        else fc.blockList) := by
  unfold count
  by_cases hb : Blocked fc ip now
  · left
    exact ⟨hb, if_pos hb⟩
  · right
    rcases bump_le_ten hi hb with ⟨hbump, hle⟩
    refine ⟨hb, _, hbump, hle, ?_⟩
    rw [if_neg hb]
    have hten : (10 : UInt8) ≤ bump (fc.hitMap ip) now ↔ 10 ≤ (bump (fc.hitMap ip) now).toNat :=
      UInt8.le_iff_toNat_le
    by_cases hfull : (bump (fc.hitMap ip) now).toNat = 10
    · have hle : (10 : UInt8) ≤ bump (fc.hitMap ip) now := hten.mpr (by omega)
      simp [hle, hfull]
    · have hlt : ¬ (10 : UInt8) ≤ bump (fc.hitMap ip) now := fun h => hfull (by
        have := hten.mp h
        omega)
      simp [hlt, hfull]

/-- A call counts for its own address only. -/
theorem count_other (fc : FloodControl) {ip ip' : IpAddr} (now : Nat) (h : ip' ≠ ip) :
    (count fc ip now).2.hitMap ip' = fc.hitMap ip' ∧
      (count fc ip now).2.blockList ip' = fc.blockList ip' := by
  unfold count
  split
  · exact ⟨rfl, rfl⟩
  · simp only
    split
    · exact ⟨Function.update_of_ne h _ _, Function.update_of_ne h _ _⟩
    · exact ⟨Function.update_of_ne h _ _, rfl⟩

theorem count_inv {fc : FloodControl} {ip : IpAddr} {now : Nat} (hi : Inv fc now) :
    Inv (count fc ip now).2 now := by
  rcases count_cases ip hi with ⟨-, hc⟩ | ⟨-, hit, -, hle, -, hmap, hblock⟩
  · rw [hc]
    exact hi
  · constructor
    · intro ip' e he
      by_cases hip : ip' = ip
      · subst hip
        rw [hmap, Function.update_self] at he
        cases he
        exact hle
      · rw [(count_other fc now hip).1] at he
        exact hi.le_ten ip' e he
    · intro ip' e he hten
      by_cases hip : ip' = ip
      · subst hip
        rw [hmap, Function.update_self] at he
        cases he
        -- a full counter has just been written together with its block
        rw [hblock, if_pos hten, Function.update_self]
        exact .inl rfl
      · rw [(count_other fc now hip).1] at he
        rw [(count_other fc now hip).2]
        exact hi.full ip' e he hten

theorem Call.now_le_done (c : Call) : c.now ≤ c.done := by
  have := c.now_le_checked
  have := c.checked_le_sampled c.addr.ip
  have := c.sampled_le_done c.addr.ip
  omega

theorem hit_inv {fc : FloodControl} {c : Call} {clock : Nat} (hi : Inv fc clock)
    (h : clock ≤ c.now) : Inv (hit fc c).2 c.done :=
  (count_inv (clean_inv hi h)).mono c.now_le_done

/-- In every run, every counter is at most ten. -/
theorem inv_of_reachable {s : State} (h : machine.Reachable s) : Inv s.fc s.clock := by
  apply Machine.Reachable.invariant (I := fun s => Inv s.fc s.clock) _ _ h
  · intro s h0
    rw [h0.1]
    constructor
    · intro ip e he
      cases he
    · intro ip e he
      cases he
  · intro s c s' hi hs
    rcases step_cases hs with ⟨hle, rfl⟩
    exact hit_inv hi hle

/-! ## The bucket of an address -/

/-- Ten drops, one a second, and a minute of penalty. -/
def bucket : LeakyBucket := ⟨1000000000, 10, fromSecs 60⟩

/-- From the time `clock` on, flood control treats the address as the bucket does. -/
structure Sim (fc : FloodControl) (ip : IpAddr) (b : LeakyBucket.Content) (clock : Nat) :
    Prop where
  closed : ∀ now, clock ≤ now → (Blocked fc ip now ↔ now < b.closed)
  level : ∀ now, clock ≤ now → left (fc.hitMap ip) now = bucket.levelAt b now

/-- The clean-up does not drop a counter of its own caller that still counts: what is
dropped is used up at `now`, or the counter it would become stays below ten and is
used up when the call returns. -/
def Kept (fc : FloodControl) (c : Call) : Prop :=
  Cleans fc c → ¬ Blocked fc c.addr.ip c.now → ∀ e ∈ fc.hitMap c.addr.ip,
    fromSecs 10 ≤ c.sampled c.addr.ip - e.2 →
      left (some e) c.now = 0 ∨
      (left (some e) c.now + 1 < 10 ∧ left (some e) c.now + 1 ≤ asSecs (c.done - c.now))

instance (fc : FloodControl) (c : Call) : Decidable (Kept fc c) :=
  inferInstanceAs (Decidable (_ → _))

/-- What the clean-up drops is used up when the call returns. -/
theorem clean_sim {fc : FloodControl} {c : Call} {ip : IpAddr} {b : LeakyBucket.Content}
    {clock : Nat} (hi : Inv fc clock) (hs : Sim fc ip b clock) (h : clock ≤ c.now) :
    Sim (clean fc c) ip b c.done := by
  have hdone := c.now_le_done
  constructor
  · intro now hnow
    rw [clean_blocked fc ip (by omega)]
    exact hs.closed now (by omega)
  · intro now hnow
    rw [← hs.level now (by omega)]
    rcases clean_hitMap_cases fc c ip with hsame | ⟨-, hnone, e, he, hage⟩
    · rw [hsame]
    -- `retain` saw an entry of ten seconds, and the call returns later still
    · have hsd := c.sampled_le_done ip
      rw [hnone, he, left_none, left_old (hi.le_ten ip e he) (by omega)]

/-- A call of another address. -/
theorem hit_sim_other {fc : FloodControl} {c : Call} {ip : IpAddr} {b : LeakyBucket.Content}
    {clock : Nat} (hi : Inv fc clock) (hs : Sim fc ip b clock) (h : clock ≤ c.now)
    (hip : ip ≠ c.addr.ip) : Sim (hit fc c).2 ip b c.done := by
  have hsim := clean_sim hi hs h
  rcases count_other (clean fc c) c.now hip with ⟨hmap, hblock⟩
  constructor
  · intro now hnow
    rw [← hsim.closed now hnow, hit, Blocked, Blocked, hblock]
  · intro now hnow
    rw [← hsim.level now hnow, hit, hmap]

/-- The counter a call writes is the bucket's, or both are used up on return. -/
theorem written_level {fc : FloodControl} {c : Call} {b : LeakyBucket.Content} {clock : Nat}
    {hit : UInt8} (hs : Sim fc c.addr.ip b clock) (h : clock ≤ c.now) (hk : Kept fc c)
    (hb : ¬ Blocked fc c.addr.ip c.now)
    (hhit : hit.toNat = left ((clean fc c).hitMap c.addr.ip) c.now + 1) :
    hit.toNat = bucket.levelAt b c.now + 1 ∨
    (hit.toNat = 1 ∧ bucket.levelAt b c.now + 1 < 10 ∧
      bucket.levelAt b c.now + 1 ≤ asSecs (c.done - c.now)) := by
  rw [← hs.level c.now h]
  rcases clean_hitMap_cases fc c c.addr.ip with hsame | ⟨hcl, hnone, e, he, hage⟩
  · rw [hsame] at hhit
    exact .inl hhit
  · rw [hnone, left_none] at hhit
    rw [he]
    rcases hk hcl hb e he hage with hzero | hsmall
    · rw [hzero]
      exact .inl hhit
    · exact .inr ⟨hhit, hsmall⟩

/-- From then on the two go down together. -/
theorem left_written {hit : UInt8} {level now done closed : Nat} (hten : hit.toNat ≤ 10)
    (h : hit.toNat = level ∨ (hit.toNat = 1 ∧ level < 10 ∧ level ≤ asSecs (done - now)))
    (hpos : 1 ≤ level) {now' : Nat} (hnow : done ≤ now') :
    left (some (hit, now)) now' = bucket.levelAt ⟨level, now, closed⟩ now' := by
  have hsecs : asSecs (done - now) ≤ asSecs (now' - now) := Nat.div_le_div_right (by omega)
  show hit.toNat - min 10 (asSecs (now' - now)) = level - asSecs (now' - now)
  rcases h with rfl | ⟨hone, hlt, hle⟩
  · omega
  · omega

/-- A call of the address itself. -/
theorem hit_sim_own {fc : FloodControl} {c : Call} {b : LeakyBucket.Content} {clock : Nat}
    (hi : Inv fc clock) (hs : Sim fc c.addr.ip b clock) (h : clock ≤ c.now) (hk : Kept fc c) :
    (hit fc c).1 = (bucket.hit b c.now).1 ∧
      Sim (hit fc c).2 c.addr.ip (bucket.hit b c.now).2 c.done := by
  have hsim := clean_sim hi hs h
  have hblocked : Blocked (clean fc c) c.addr.ip c.now ↔ c.now < b.closed := by
    rw [clean_blocked fc c.addr.ip (Nat.le_refl _)]
    exact hs.closed c.now h
  unfold hit
  rcases count_cases c.addr.ip (clean_inv hi h) with ⟨hb, hc⟩ |
    ⟨hb, hit, hhit, hten, hres, hmap, hblock⟩
  · -- blocked: nothing but the clean-up happens
    rw [hc, bucket.hit_closed (hblocked.mp hb)]
    exact ⟨rfl, hsim⟩
  · have hopen : ¬ c.now < b.closed := fun hlt => hb (hblocked.mpr hlt)
    have hfb : ¬ Blocked fc c.addr.ip c.now := fun hbl =>
      hb ((clean_blocked fc c.addr.ip (Nat.le_refl _)).mpr hbl)
    have hlevel := written_level hs h hk hfb hhit
    have hfull : bucket.limit ≤ bucket.levelAt b c.now + 1 ↔ hit.toNat = 10 := by
      show 10 ≤ _ ↔ _
      omega
    rw [bucket.hit_open hopen, hres]
    by_cases hf : hit.toNat = 10
    · rw [if_pos (hfull.mpr hf)]
      rw [if_pos hf] at hblock
      refine ⟨decide_eq_true hf, ?_, ?_⟩
      · intro now _
        rw [Blocked, hblock, Function.update_self, Option.any_some, decide_eq_true_iff]
        rfl
      · intro now hnow
        rw [hmap, Function.update_self]
        exact left_written hten hlevel (by omega) hnow
    · rw [if_neg (fun hlim => hf (hfull.mp hlim))]
      rw [if_neg hf] at hblock
      refine ⟨decide_eq_false hf, ?_, ?_⟩
      · intro now hnow
        rw [Blocked, hblock]
        exact hsim.closed now hnow
      · intro now hnow
        rw [hmap, Function.update_self]
        exact left_written hten hlevel (by omega) hnow

/-! ## Independence -/

/-- The calls of an address keep their counters. -/
def KeptBy (ip : IpAddr) (s : State) (c : Call) : Prop := c.addr.ip = ip → Kept s.fc c

instance (ip : IpAddr) (s : State) (c : Call) : Decidable (KeptBy ip s c) :=
  inferInstanceAs (Decidable (_ → _))

/-- The bucket an address has filled so far. -/
def bucketOf (ip : IpAddr) (s : State) : LeakyBucket.Content :=
  bucket.after LeakyBucket.empty (times ip s.log)

/-- In every run whose calls of the address keep its counter, the address gets the
answers of its bucket. -/
theorem answers_of_kept {ip : IpAddr} {s : State} (h : machine.Reach (KeptBy ip) s) :
    results ip s.log = bucket.answers LeakyBucket.empty (times ip s.log) ∧
      Sim s.fc ip (bucketOf ip s) s.clock := by
  suffices hI : Inv s.fc s.clock ∧
      results ip s.log = bucket.answers LeakyBucket.empty (times ip s.log) ∧
      Sim s.fc ip (bucketOf ip s) s.clock from hI.2
  refine Machine.Reach.invariant (I := fun s => Inv s.fc s.clock ∧
    results ip s.log = bucket.answers LeakyBucket.empty (times ip s.log) ∧
    Sim s.fc ip (bucketOf ip s) s.clock) ?_ ?_ h
  -- no counter and an empty bucket
  · rintro s ⟨hfc, hlog⟩
    refine ⟨inv_of_reachable (.init ⟨hfc, hlog⟩), ?_, ?_⟩
    · rw [hlog]
      rfl
    · unfold bucketOf
      rw [hfc, hlog]
      constructor
      · intro now _
        simp [Blocked, new, times, LeakyBucket.after, LeakyBucket.empty]
      · intro now _
        simp [new, times, LeakyBucket.after, LeakyBucket.empty, LeakyBucket.levelAt]
  · rintro s c s' ⟨hi, hres, hsim⟩ hk hs
    rcases step_cases hs with ⟨hle, rfl⟩
    refine ⟨hit_inv hi hle, ?_⟩
    unfold bucketOf at hsim ⊢
    by_cases hip : c.addr.ip = ip
    · subst hip
      rcases called_own (s := s) (c := c) rfl with ⟨ht, hr⟩
      rcases hit_sim_own hi hsim hle (hk rfl) with ⟨hans, hsim'⟩
      rw [ht, hr, bucket.answers_snoc, bucket.after_snoc, hres, hans]
      exact ⟨rfl, hsim'⟩
    -- the hits of the address have not changed, only the clean-up touches its entries
    · rcases called_other (s := s) hip with ⟨ht, hr⟩
      rw [ht, hr]
      exact ⟨hres, hit_sim_other hi hsim hle (Ne.symm hip)⟩

/-! ## The condition is needed -/

/-- A call whose readings of the clock are all equal. -/
def prompt (ip : IpAddr) (now : Nat) : Call where
  addr := ⟨ip, 0⟩
  now := now
  checked := now
  sampled := fun _ => now
  done := now
  now_le_checked := Nat.le_refl _
  checked_le_sampled := fun _ => Nat.le_refl _
  sampled_le_done := fun _ => Nat.le_refl _

theorem called_prompt (s : State) (ip : IpAddr) (now : Nat) :
    times ip (s.called (prompt ip now)).log = times ip s.log ++ [now] ∧
      results ip (s.called (prompt ip now)).log =
        results ip s.log ++ [(hit s.fc (prompt ip now)).1] :=
  called_own (c := prompt ip now) rfl

/-- A prompt call drops only what is used up. -/
theorem kept_prompt {fc : FloodControl} {clock : Nat} (hi : Inv fc clock) (ip : IpAddr)
    (now : Nat) : Kept fc (prompt ip now) := by
  intro _ _ e he hold
  left
  exact left_old (hi.le_ten ip e he) hold

/-- The hits of an address in a run can be made promptly, and without the others. -/
theorem exists_prompt {s : State} (ip : IpAddr) (h : machine.Reachable s) :
    ∃ s', machine.Reach (KeptBy ip) s' ∧ times ip s'.log = times ip s.log ∧
      s'.clock ≤ s.clock := by
  induction h with
  | @init s h0 => exact ⟨s, .init h0, rfl, Nat.le_refl _⟩
  | @step s t c _ _ hs ih =>
      rcases ih with ⟨s', hs', ht, hclock⟩
      rcases step_cases hs with ⟨hle, rfl⟩
      have hdone := c.now_le_done
      by_cases hip : c.addr.ip = ip
      · have hi := inv_of_reachable hs'.reachable
        have hle' : s'.clock ≤ (prompt ip c.now).now := Nat.le_trans hclock hle
        refine ⟨_, .step _ hs' (fun _ => kept_prompt hi ip c.now) (step_called hle'), ?_, hdone⟩
        rw [(called_own hip).1, (called_prompt s' ip c.now).1, ht]
      -- a call of another address is left out
      · refine ⟨s', hs', ?_, ?_⟩
        · rw [(called_other hip).1, ht]
        · rw [called_clock]
          omega

theorem count_lastClean (fc : FloodControl) (ip : IpAddr) (now : Nat) :
    (count fc ip now).2.lastClean = fc.lastClean := by
  unfold count
  split
  · rfl
  · simp only
    split <;> rfl

/-- An address whose counter is behind its bucket gets other answers, if it hits often
enough. -/
theorem behind (ip : IpAddr) (m : Nat) {b : LeakyBucket.Content} {s : State}
    (hs : machine.Reachable s) (hb : ¬ Blocked s.fc ip s.clock) (hopen : ¬ s.clock < b.closed)
    (hclean : s.clock - s.fc.lastClean ≤ fromSecs 10)
    (hlt : left (s.fc.hitMap ip) s.clock < bucket.levelAt b s.clock)
    (hm : bucket.levelAt b s.clock + m = 9) :
    ∃ s', (machine.startAt s).Reachable s' ∧ ∃ ts rs, times ip s'.log = times ip s.log ++ ts ∧
      results ip s'.log = results ip s.log ++ rs ∧ rs ≠ bucket.answers b ts := by
  -- one prompt hit: nothing is cleaned, and the counter stays below ten
  have hstep := step_called (s := s) (c := prompt ip s.clock) (Nat.le_refl _)
  have hnext : (machine.startAt s).Reachable (s.called (prompt ip s.clock)) :=
    .step _ (.init rfl) trivial hstep
  rcases called_prompt s ip s.clock with ⟨ht, hr⟩
  have hhit : hit s.fc (prompt ip s.clock) = count s.fc ip s.clock := by
    have hno : ¬ Cleans s.fc (prompt ip s.clock) := Nat.not_lt.mpr hclean
    unfold hit clean
    rw [if_neg hno]
    rfl
  rcases count_cases ip (inv_of_reachable hs) with ⟨hbl, -⟩ |
    ⟨-, n, hn, -, hres, hmap, hblock⟩
  · exact absurd hbl hb
  have hsmall : n.toNat ≠ 10 := by omega
  rw [decide_eq_false hsmall] at hres
  rw [if_neg hsmall] at hblock
  rw [hhit, hres] at hr
  have hbucket := bucket.hit_open hopen
  cases m with
  | zero =>
      -- the bucket is one drop short of full: this hit closes it, and the counter lets it in
      refine ⟨_, hnext, [s.clock], [false], ht, hr, ?_⟩
      have hfull : bucket.limit ≤ bucket.levelAt b s.clock + 1 := by
        show 10 ≤ _
        omega
      rw [if_pos hfull] at hbucket
      simp [LeakyBucket.answers, hbucket]
  | succ m =>
      have hfull : ¬ bucket.limit ≤ bucket.levelAt b s.clock + 1 := by
        show ¬ 10 ≤ _
        omega
      rw [if_neg hfull] at hbucket
      have hlevel : bucket.levelAt ⟨bucket.levelAt b s.clock + 1, s.clock, b.closed⟩ s.clock =
          bucket.levelAt b s.clock + 1 := by
        show _ - (s.clock - s.clock) / _ = _
        rw [Nat.sub_self, Nat.zero_div]
        rfl
      have hleft : left (some (n, s.clock)) s.clock = n.toNat := by
        rw [left_some, Nat.sub_self]
        rfl
      -- both rise by one, so the counter is still behind with one hit less to go
      rcases behind ip m (b := ⟨bucket.levelAt b s.clock + 1, s.clock, b.closed⟩)
          (.step _ hs trivial hstep)
          (by rwa [called_fc, hhit, Blocked, hblock]) hopen
          (by rwa [called_fc, hhit, count_lastClean])
          (by
            rw [called_fc, hhit, hmap, Function.update_self]
            show left (some (n, s.clock)) s.clock < bucket.levelAt _ s.clock
            omega)
          (by
            show bucket.levelAt _ s.clock + m = 9
            omega) with ⟨s', hs', ts, rs, hts, hrs, hne⟩
      refine ⟨s', hnext.trans hs', s.clock :: ts, false :: rs, ?_, ?_, ?_⟩
      · rw [hts, ht, List.append_assoc]
        rfl
      · rw [hrs, hr, List.append_assoc]
        rfl
      · rw [LeakyBucket.answers, hbucket]
        simpa using hne

/-- A call whose clean-up drops the counter of its own address is let in and leaves a
counter of one. -/
theorem hit_dropped {fc : FloodControl} {c : Call} {clock : Nat} {e : UInt8 × Nat}
    (hi : Inv fc clock) (hle : clock ≤ c.now) (hcl : Cleans fc c)
    (hb : ¬ Blocked fc c.addr.ip c.now) (he : fc.hitMap c.addr.ip = some e)
    (hage : fromSecs 10 ≤ c.sampled c.addr.ip - e.2) :
    (hit fc c).1 = false ∧
    (∃ n : UInt8, n.toNat = 1 ∧ (hit fc c).2.hitMap c.addr.ip = some (n, c.now)) ∧
    (hit fc c).2.blockList = (clean fc c).blockList := by
  have hnone : (clean fc c).hitMap c.addr.ip = none := by
    rw [clean, if_pos hcl]
    simp only
    rw [he, Option.filter_some]
    exact if_neg (by simp; omega)
  have hcb : ¬ Blocked (clean fc c) c.addr.ip c.now := by
    rwa [clean_blocked fc c.addr.ip (Nat.le_refl _)]
  unfold hit
  rcases count_cases c.addr.ip (clean_inv hi hle) with ⟨hbl, -⟩ |
    ⟨-, n, hn, -, hcount, hmap, hblock⟩
  · exact absurd hbl hcb
  rw [hnone, left_none] at hn
  have hsmall : n.toNat ≠ 10 := by omega
  rw [decide_eq_false hsmall] at hcount
  rw [if_neg hsmall] at hblock
  refine ⟨hcount, ⟨n, hn, ?_⟩, hblock⟩
  rw [hmap, Function.update_self]

/-- A call that drops a counter of its own address that still counts, after a run that
did not: the run goes on in such a way that the answers of the address depend on more than
the times of its hits. -/
theorem dependent_of_dropped {ip : IpAddr} {s : State} {c : Call}
    (hs : machine.Reach (KeptBy ip) s) (hle : s.clock ≤ c.now) (hk : ¬ KeptBy ip s c) :
    ∃ s₁ s₂, (machine.startAt (s.called c)).Reachable s₁ ∧ machine.Reachable s₂ ∧
      times ip s₁.log = times ip s₂.log ∧ results ip s₁.log ≠ results ip s₂.log := by
  have hreach : machine.Reachable (s.called c) := .step c hs.reachable trivial (step_called hle)
  -- it is enough to leave the answers of the bucket
  suffices ∃ s₁, (machine.startAt (s.called c)).Reachable s₁ ∧
      results ip s₁.log ≠ bucket.answers LeakyBucket.empty (times ip s₁.log) by
    rcases this with ⟨s₁, h₁, hne⟩
    rcases exists_prompt ip (hreach.trans h₁) with ⟨s₂, h₂, ht, -⟩
    refine ⟨s₁, s₂, h₁, h₂.reachable, ht.symm, ?_⟩
    rw [(answers_of_kept h₂).1, ht]
    exact hne
  have hip : c.addr.ip = ip := by
    by_contra hne
    exact hk (fun h => absurd h hne)
  subst hip
  rcases answers_of_kept hs with ⟨hres, hsim⟩
  have hi := inv_of_reachable hs.reachable
  rcases called_own (s := s) (c := c) rfl with ⟨ht, hr⟩
  have hkept : ¬ Kept s.fc c := fun h => hk (fun _ => h)
  unfold Kept at hkept
  push Not at hkept
  rcases hkept with ⟨hcl, hb, e, he, hage, hpos, hbig⟩
  -- the call itself is answered from an empty counter
  rcases hit_dropped hi hle hcl hb he hage with ⟨hanswer, ⟨n, hn, hmap⟩, hblock⟩
  rw [hanswer] at hr
  have hlevel : left (some e) c.now = bucket.levelAt (bucketOf c.addr.ip s) c.now := by
    rw [← hsim.level c.now hle]
    exact congrArg (left · c.now) (show some e = _ from he.symm)
  have hopen : ¬ c.now < (bucketOf c.addr.ip s).closed := fun hlt =>
    hb ((hsim.closed c.now hle).mpr hlt)
  have hbucket := bucket.hit_open hopen
  by_cases hfull : bucket.limit ≤ bucket.levelAt (bucketOf c.addr.ip s) c.now + 1
  · -- the bucket is full, the call is not refused
    refine ⟨_, .init rfl, ?_⟩
    rw [if_pos hfull] at hbucket
    rw [hr, ht, bucket.answers_snoc, hres]
    unfold bucketOf at hbucket
    rw [hbucket]
    simp
  · -- the bucket has more drops left when the call returns
    have hlim : ¬ 10 ≤ bucket.levelAt (bucketOf c.addr.ip s) c.now + 1 := hfull
    rw [if_neg hfull] at hbucket
    have hgap := hbig (by omega)
    have hdone := c.now_le_done
    have hshort : c.done - c.now ≤ fromSecs 10 := by
      unfold fromSecs
      unfold asSecs at hgap
      omega
    have hleft : left ((s.called c).fc.hitMap c.addr.ip) c.done =
        1 - min 10 (asSecs (c.done - c.now)) := by
      rw [called_fc, hmap, left_some, hn]
    have hdrops : bucket.levelAt (bucket.hit (bucketOf c.addr.ip s) c.now).2 c.done =
        bucket.levelAt (bucketOf c.addr.ip s) c.now + 1 - asSecs (c.done - c.now) := by
      rw [hbucket]
      rfl
    rcases behind c.addr.ip (b := (bucket.hit (bucketOf c.addr.ip s) c.now).2)
        (9 - bucket.levelAt (bucket.hit (bucketOf c.addr.ip s) c.now).2 c.done) hreach
        (by
          rw [called_fc, Blocked, hblock]
          have hclosed := (clean_sim hi hsim hle).closed c.done (Nat.le_refl _)
          unfold Blocked at hclosed
          rw [called_clock, hclosed]
          omega)
        (by
          rw [hbucket, called_clock]
          simp only
          omega)
        (by
          rw [called_fc, called_clock, hit, count_lastClean, clean, if_pos hcl]
          exact hshort)
        (by
          rw [called_clock, hleft, hdrops]
          omega)
        (by
          rw [called_clock]
          omega) with ⟨s₁, hs₁, ts, rs, hts, hrs, hne⟩
    refine ⟨s₁, hs₁, ?_⟩
    rw [hrs, hts, hr, ht, hres, List.append_assoc, List.append_assoc, bucket.answers_append]
    intro heq
    have htail := List.append_cancel_left heq
    rw [List.singleton_append, List.singleton_append, LeakyBucket.answers] at htail
    exact hne (List.cons.inj htail).2

/-! ## Results -/

/-- In any two runs in which the clean-up drops no counter of its own caller that
still counts, an address with the same hit times gets the same answers, and a run whose
last call drops one goes on in such a way that another run has the same hit times and other
answers; no counter of any run exceeds ten. -/
theorem independent_of_kept (ip : IpAddr) :
    (∀ s₁ s₂, machine.Reach (KeptBy ip) s₁ → machine.Reach (KeptBy ip) s₂ →
      times ip s₁.log = times ip s₂.log → results ip s₁.log = results ip s₂.log) ∧
    (∀ s c, machine.Reach (KeptBy ip) s → s.clock ≤ c.now → ¬ KeptBy ip s c →
      ∃ s₁ s₂, (machine.startAt (s.called c)).Reachable s₁ ∧ machine.Reachable s₂ ∧
        times ip s₁.log = times ip s₂.log ∧ results ip s₁.log ≠ results ip s₂.log) ∧
    (∀ s, machine.Reachable s → ∀ ip e, s.fc.hitMap ip = some e → e.1.toNat ≤ 10) := by
  refine ⟨?_, ?_, ?_⟩
  · intro s₁ s₂ h₁ h₂ ht
    rw [(answers_of_kept h₁).1, (answers_of_kept h₂).1, ht]
  · intro s c hs hle hk
    exact dependent_of_dropped hs hle hk
  · intro s hs
    exact (inv_of_reachable hs).le_ten

/-- A call that is held up after its first reading of the clock. -/
def heldUp (ip : IpAddr) (now : Nat) (wait : Nat) : Call where
  addr := ⟨ip, 0⟩
  now := now
  checked := now + wait
  sampled := fun _ => now + wait
  done := now + wait
  now_le_checked := Nat.le_add_right _ _
  checked_le_sampled := fun _ => Nat.le_refl _
  sampled_le_done := fun _ => Nat.le_refl _

/-- Flood control as it starts. -/
def start : State := ⟨new 0, 0, []⟩

theorem start_init : machine.init start := ⟨rfl, rfl⟩

/-- The address the runs below are about. -/
def addrA : IpAddr := .v4 1

/-- The address that only hits in the second run. -/
def addrB : IpAddr := .v4 2

/-- An address is blocked by its ten hits, whether or not another one cleans up in
between. -/
theorem independent_of_kept_ten :
    ∃ s₁ s₂, machine.Reach (KeptBy addrA) s₁ ∧ machine.Reach (KeptBy addrA) s₂ ∧
      times addrB s₁.log = [] ∧ times addrB s₂.log = [fromSecs 30] ∧
      results addrA s₁.log = results addrA s₂.log := by
  rcases Machine.reach_of_runIf (M := machine) (KeptBy addrA) start_init
    (List.flatten [List.replicate 10 (prompt addrA (fromSecs 20)), [prompt addrA (fromSecs 40)]])
    (fun s => times addrB s.log = [] ∧
      times addrA s.log = List.replicate 10 (fromSecs 20) ++ [fromSecs 40])
    (by decide +kernel) with ⟨s₁, h₁, hB₁, ht₁⟩
  rcases Machine.reach_of_runIf (M := machine) (KeptBy addrA) start_init
    (List.flatten [List.replicate 10 (prompt addrA (fromSecs 20)), [prompt addrB (fromSecs 30)],
      [heldUp addrA (fromSecs 40) (fromSecs 5)]])
    (fun s => times addrB s.log = [fromSecs 30] ∧
      times addrA s.log = List.replicate 10 (fromSecs 20) ++ [fromSecs 40])
    (by decide +kernel) with ⟨s₂, h₂, hB₂, ht₂⟩
  exact ⟨s₁, s₂, h₁, h₂, hB₁, hB₂,
    (independent_of_kept addrA).1 s₁ s₂ h₁ h₂ (ht₁.trans ht₂.symm)⟩

/-- Nineteen hits of one address at the same times in two runs. In the first, the tenth
hit is held up for more than four seconds and drops its own counter; in the second,
another address has just cleaned up. Only the second run blocks. -/
theorem dependent_on_others :
    ∃ s₁ s₂, machine.Reachable s₁ ∧ machine.Reachable s₂ ∧
      times addrA s₁.log = times addrA s₂.log ∧
      results addrA s₁.log ≠ results addrA s₂.log := by
  rcases Machine.reachable_of_run (M := machine) start_init
    (List.flatten [List.replicate 9 (prompt addrA 5000000000),
      [heldUp addrA 10600000000 4401000000],
      List.replicate 9 (prompt addrA 15001000000)])
    (fun s => times addrA s.log = List.replicate 9 5000000000 ++ [10600000000] ++
        List.replicate 9 15001000000 ∧
      results addrA s.log = List.replicate 19 false)
    (by decide +kernel) with ⟨s₁, h₁, ht₁, hr₁⟩
  rcases Machine.reachable_of_run (M := machine) start_init
    (List.flatten [List.replicate 9 (prompt addrA 5000000000), [prompt addrB 10200000000],
      [heldUp addrA 10600000000 4401000000],
      List.replicate 9 (prompt addrA 15001000000)])
    (fun s => times addrA s.log = List.replicate 9 5000000000 ++ [10600000000] ++
        List.replicate 9 15001000000 ∧
      results addrA s.log = List.replicate 18 false ++ [true])
    (by decide +kernel) with ⟨s₂, h₂, ht₂, hr₂⟩
  refine ⟨s₁, s₂, h₁, h₂, ht₁.trans ht₂.symm, ?_⟩
  rw [hr₁, hr₂]
  decide

end Hath.Flood
