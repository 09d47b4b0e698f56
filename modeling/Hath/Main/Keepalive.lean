import Hath.CacheManager.FileInfo
import Hath.Lib.Machine

/-!
# Hath.Main.Keepalive — the schedule task

The loop of `main` that runs every ten seconds while the client is running: on every
eleventh turn it tells the server that it is alive, on every 2160th it asks for the files
to purge within the last twelve hours and removes them. The count of turns is a `u32` that
wraps. The list for the last three days is asked for once, before the loop, and the files
in it are removed before the first tick.

Times are in milliseconds. `interval` ticks at its start and then every period; a tick
that is found late by more than five milliseconds leaves out the ones missed in between.

* `sincePurge`, `sinceAlive` — how many ticks ago the last turn of a kind was, at most, by
  the count alone;
* `purge_covered` — no file that the server purges is missed, in every run that misses no
  tick and starts within four hours of the first list, also where the count wraps.
-/

namespace Hath.Keepalive

open Lib

/-! ## State -/

/-- An answered request for the purge list: when it was sent, how far it looks back, and
the file ids. -/
structure Purge where
  time : Nat
  deltaTime : Nat
  list : List Text
deriving DecidableEq, Repr

/-- The task; `deadline` is the next tick of the interval. Nothing reads `alive`, `purges`
and `removed`, which list, newest first, when `still_alive` was called, the answered purge
requests, and what was given to `remove_cache`. -/
structure State where
  counter : U32
  deadline : Nat
  ended : Bool
  shutdowns : Nat
  alive : List Nat
  purges : List Purge
  removed : List CacheFileInfo
deriving DecidableEq

/-- One turn: when the tick is seen, whether `is_running` and `still_alive` say yes, when
the purge list is asked for and what comes back. -/
structure Turn where
  now : Nat
  running : Bool
  stillAlive : Bool
  asked : Nat
  list : Option (List Text)
deriving DecidableEq, Repr

/-! ## Steps -/

def seconds (n : Nat) : Nat := n * 1000

/-- `interval(Duration::from_secs(10))`. -/
def period : Nat := seconds 10

/-- The tick after the one of the deadline, with `MissedTickBehavior::Skip`. -/
def nextDeadline (deadline now : Nat) : Nat :=
  if deadline + 5 < now then now + period - (now - deadline) % period else deadline + period

/-- Ask for the purge list and remove what is in it. -/
def purge (s : State) (time deltaTime : Nat) (list : Option (List Text)) : State :=
  match list with
  | some list =>
      { s with
        purges := ⟨time, deltaTime, list⟩ :: s.purges
        removed := list.filterMap CacheFileInfo.fromFileId ++ s.removed }
  | none => s

/-- "Alive check every 110s". -/
def stillAlive (s : State) (t : Turn) : State :=
  if s.counter.toNat % 11 = 0 then
    { s with
      alive := t.now :: s.alive
      shutdowns := if t.stillAlive then s.shutdowns else s.shutdowns + 1 }
  else s

/-- The purge list of the last twelve hours, on every 2160th turn: every six hours. -/
def checkPurge (s : State) (t : Turn) : State :=
  if s.counter.toNat % 2160 = 2159 then purge s t.asked (seconds 43200) t.list else s

def step (s : State) (t : Turn) : Option State :=
  if s.ended = false ∧ s.deadline ≤ t.now ∧ t.now ≤ t.asked then
    let s := { s with deadline := nextDeadline s.deadline t.now }
    if t.running then
      let s := checkPurge (stillAlive s t) t
      some { s with counter := s.counter + 1 }
    else some { s with ended := true }
  else none

/-- Before the first tick: the list of the last three days was asked for at `asked`, and its
files have been removed since. -/
def initial (asked started : Nat) (list : List Text) : State :=
  purge ⟨0, started, false, 0, [], [], []⟩ asked (seconds 259200) (some list)

/-- The task of a client that has asked for the first list at `asked`. -/
def machine (asked started : Nat) (list : List Text) : Machine State Turn where
  init s := s = initial asked started list
  step := step

/-- A turn begins and asks for the list, if it does, before the next tick, and is answered. -/
def OnTime (s : State) (t : Turn) : Prop :=
  t.now < s.deadline + period ∧ t.asked < s.deadline + period ∧ t.list.isSome = true

instance (s : State) (t : Turn) : Decidable (OnTime s t) :=
  inferInstanceAs (Decidable (_ ∧ _))

/-! ## Ticks -/

/-- A tick that is less than a period late is followed by the regular one. -/
theorem nextDeadline_eq {deadline now : Nat}
    (hlt : now < deadline + period) : nextDeadline deadline now = deadline + period := by
  unfold nextDeadline
  split
  · rw [Nat.mod_eq_of_lt (by omega)]
    omega
  · rfl

/-- The ticks from the last purge request to the tick of the count. Before the wrap, the
last one is 1697 ticks away; at the start, nothing is. -/
def sincePurge (c : Nat) : Nat := if c < 2160 then c + 1697 else c % 2160 + 1

/-- The ticks from the last turn that tells the server. -/
def sinceAlive (c : Nat) : Nat := if c = 0 then 4 else (c - 1) % 11 + 1

theorem sincePurge_le (c : Nat) : sincePurge c ≤ 3856 := by
  unfold sincePurge
  split <;> omega

theorem sinceAlive_le (c : Nat) : sinceAlive c ≤ 11 := by
  unfold sinceAlive
  split <;> omega

/-- One tick later the last request is one tick further away, unless it is made now. -/
theorem sincePurge_succ {c : Nat} (hc : c < 2 ^ 32) :
    if c % 2160 = 2159 then sincePurge ((c + 1) % 2 ^ 32) = 1
    else sincePurge ((c + 1) % 2 ^ 32) = sincePurge c + 1 := by
  rcases Nat.lt_or_ge (c + 1) (2 ^ 32) with hlt | hge
  · rw [Nat.mod_eq_of_lt hlt]
    unfold sincePurge
    repeat' split
    all_goals omega
  · obtain rfl : c = 4294967295 := by omega
    decide

theorem sinceAlive_succ {c : Nat} (hc : c < 2 ^ 32) :
    if c % 11 = 0 then sinceAlive ((c + 1) % 2 ^ 32) = 1
    else sinceAlive ((c + 1) % 2 ^ 32) = sinceAlive c + 1 := by
  rcases Nat.lt_or_ge (c + 1) (2 ^ 32) with hlt | hge
  · rw [Nat.mod_eq_of_lt hlt]
    unfold sinceAlive
    repeat' split
    all_goals omega
  · obtain rfl : c = 4294967295 := by omega
    decide

theorem counter_succ (c : U32) : (c + 1).toNat = (c.toNat + 1) % 2 ^ 32 := by
  rw [BitVec.toNat_add]
  rfl

/-! ## The invariant -/

/-- A moment is in the window of an answered request, and the files it lists are removed. -/
def Covered (s : State) (moment : Nat) : Prop :=
  ∃ p ∈ s.purges, moment ≤ p.time ∧ p.time ≤ moment + p.deltaTime ∧
    ∀ id ∈ p.list, ∀ info, CacheFileInfo.fromFileId id = some info → info ∈ s.removed

/-- The windows leave no gap from the one of the first request to the time of the newest,
and both that and the last sign of life are as recent as the count says. -/
structure Inv (s : State) : Prop where
  covered : ∃ newest first, s.purges.head? = some newest ∧ s.purges.getLast? = some first ∧
    first.deltaTime = seconds 259200 ∧
    (s.ended = false → s.deadline ≤ newest.time + period * sincePurge s.counter.toNat) ∧
    ∀ moment, first.time ≤ moment + first.deltaTime → moment ≤ newest.time → Covered s moment
  alive : s.ended = false → ∀ t, s.alive.head? = some t →
    s.deadline ≤ t + period * sinceAlive s.counter.toNat

theorem initial_inv {asked started : Nat} (list : List Text)
    (hstarted : started ≤ asked + seconds 14400) : Inv (initial asked started list) := by
  refine ⟨⟨⟨asked, seconds 259200, list⟩, ⟨asked, seconds 259200, list⟩, rfl, rfl, rfl, ?_, ?_⟩, ?_⟩
  · intro _
    show started ≤ asked + period * sincePurge 0
    unfold period sincePurge seconds at *
    simp only [Nat.zero_lt_succ, if_true]
    omega
  · intro moment hfirst hlast
    refine ⟨_, List.mem_singleton_self _, hlast, hfirst, ?_⟩
    intro id hid info hinfo
    exact List.mem_append_left _ (List.mem_filterMap.mpr ⟨id, hid, hinfo⟩)
  · intro _ t ht
    cases ht

/-- What has been covered stays so. -/
theorem Covered.mono {s s' : State} {moment : Nat} (h : Covered s moment)
    (hpurges : ∀ p ∈ s.purges, p ∈ s'.purges) (hremoved : ∀ i ∈ s.removed, i ∈ s'.removed) :
    Covered s' moment := by
  rcases h with ⟨p, hp, hle, hge, hlist⟩
  exact ⟨p, hpurges p hp, hle, hge, fun id hid info hinfo => hremoved _ (hlist id hid info hinfo)⟩

theorem stillAlive_frame (s : State) (t : Turn) :
    (stillAlive s t).deadline = s.deadline ∧ (stillAlive s t).counter = s.counter ∧
      (stillAlive s t).purges = s.purges ∧ (stillAlive s t).removed = s.removed ∧
      (stillAlive s t).alive =
        if s.counter.toNat % 11 = 0 then t.now :: s.alive else s.alive := by
  unfold stillAlive
  split
  · exact ⟨rfl, rfl, rfl, rfl, rfl⟩
  · exact ⟨rfl, rfl, rfl, rfl, rfl⟩

theorem checkPurge_frame (s : State) {t : Turn} {list : List Text} (hlist : t.list = some list) :
    (checkPurge s t).deadline = s.deadline ∧ (checkPurge s t).counter = s.counter ∧
      (checkPurge s t).alive = s.alive ∧
      ((checkPurge s t).purges, (checkPurge s t).removed) =
        if s.counter.toNat % 2160 = 2159 then
          (⟨t.asked, seconds 43200, list⟩ :: s.purges,
            list.filterMap CacheFileInfo.fromFileId ++ s.removed)
        else (s.purges, s.removed) := by
  unfold checkPurge
  rw [hlist]
  split
  · exact ⟨rfl, rfl, rfl, rfl⟩
  · exact ⟨rfl, rfl, rfl, rfl⟩

/-- A turn that is not late: the loop ends, or what the count asks for is done. -/
theorem step_cases {s s' : State} {t : Turn} (hon : OnTime s t) (h : step s t = some s') :
    s.ended = false ∧ s.deadline ≤ t.now ∧ t.now ≤ t.asked ∧ t.asked < s.deadline + period ∧
      (s' = { s with deadline := s.deadline + period, ended := true } ∨
        s'.deadline = s.deadline + period ∧ s'.counter = s.counter + 1 ∧
          s'.alive = (if s.counter.toNat % 11 = 0 then t.now :: s.alive else s.alive) ∧
          ∃ list, (s'.purges, s'.removed) =
            if s.counter.toNat % 2160 = 2159 then
              (⟨t.asked, seconds 43200, list⟩ :: s.purges,
                list.filterMap CacheFileInfo.fromFileId ++ s.removed)
            else (s.purges, s.removed)) := by
  rcases hon with ⟨hnow, hasked, hlist⟩
  rcases Option.isSome_iff_exists.mp hlist with ⟨list, hlist⟩
  unfold step at h
  rw [Option.ite_none_right_eq_some, nextDeadline_eq hnow] at h
  rcases h with ⟨⟨hended, hle, hle'⟩, h⟩
  refine ⟨hended, hle, hle', hasked, ?_⟩
  dsimp only at h
  split at h
  · right
    cases h
    rcases stillAlive_frame { s with deadline := s.deadline + period } t with
      ⟨hdeadline, hcounter, hpurges, hremoved, halive⟩
    rcases checkPurge_frame (stillAlive { s with deadline := s.deadline + period } t) hlist with
      ⟨hdeadline', hcounter', halive', hboth⟩
    rw [hcounter, hpurges, hremoved] at hboth
    exact ⟨hdeadline'.trans hdeadline, congrArg (· + 1) (hcounter'.trans hcounter),
      halive'.trans halive, list, hboth⟩
  · cases h
    exact .inl rfl

theorem step_inv {s s' : State} {t : Turn} (hi : Inv s) (hon : OnTime s t)
    (h : step s t = some s') : Inv s' := by
  rcases hi with ⟨⟨newest, first, hnewest, hfirst, hdelta, hrecent, hcovered⟩, halive⟩
  rcases step_cases hon h with
    ⟨hended, hle, hle', hasked, rfl | ⟨hdeadline, hcounter, hsign, list, hboth⟩⟩
  · refine ⟨⟨newest, first, hnewest, hfirst, hdelta, ?_, hcovered⟩, ?_⟩
    all_goals
      intro h
      cases h
  have hsucc := sincePurge_succ s.counter.isLt
  have hsucc' := sinceAlive_succ s.counter.isLt
  rw [← counter_succ, ← hcounter] at hsucc hsucc'
  replace hrecent := hrecent hended
  replace halive := halive hended
  constructor
  · split at hboth
    · -- the list is asked for
      rename_i hturn
      rw [if_pos hturn] at hsucc
      rw [Prod.mk.injEq] at hboth
      rcases hboth with ⟨hpurges, hremoved⟩
      refine ⟨⟨t.asked, seconds 43200, list⟩, first, by rw [hpurges]; rfl, ?_, hdelta, ?_, ?_⟩
      · rw [hpurges, List.getLast?_cons, hfirst]
        rfl
      · intro _
        rw [hdeadline, hsucc]
        show s.deadline + period ≤ t.asked + period * 1
        omega
      · intro moment hafter hbefore
        by_cases hold : moment ≤ newest.time
        · refine (hcovered moment hafter hold).mono ?_ ?_
          · rw [hpurges]
            exact fun p => List.mem_cons_of_mem _
          · rw [hremoved]
            exact fun i => List.mem_append_right _
        · refine ⟨⟨t.asked, seconds 43200, list⟩, ?_, hbefore, ?_, ?_⟩
          · rw [hpurges]
            exact List.mem_cons_self
          · -- the last request is at most 3857 periods old
            have hmany := Nat.mul_le_mul_left period (sincePurge_le s.counter.toNat)
            show t.asked ≤ moment + seconds 43200
            unfold period seconds at *
            omega
          · intro id hid info hinfo
            rw [hremoved]
            exact List.mem_append_left _ (List.mem_filterMap.mpr ⟨id, hid, hinfo⟩)
    · rename_i hturn
      rw [if_neg hturn] at hsucc
      rw [Prod.mk.injEq] at hboth
      rcases hboth with ⟨hpurges, hremoved⟩
      refine ⟨newest, first, by rw [hpurges, hnewest], by rw [hpurges, hfirst], hdelta, ?_, ?_⟩
      · intro _
        rw [hdeadline, hsucc, Nat.mul_add, Nat.mul_one]
        omega
      · intro moment hafter hbefore
        refine (hcovered moment hafter hbefore).mono ?_ ?_
        · rw [hpurges]
          exact fun p hp => hp
        · rw [hremoved]
          exact fun i hi => hi
  · intro _ time htime
    rw [hsign] at htime
    split at htime
    · rename_i hturn
      rw [if_pos hturn] at hsucc'
      obtain rfl : t.now = time := Option.some.inj htime
      rw [hdeadline, hsucc']
      omega
    · rename_i hturn
      rw [if_neg hturn] at hsucc'
      have := halive time htime
      rw [hdeadline, hsucc', Nat.mul_add, Nat.mul_one]
      omega

/-- A turn a second after its tick, the `n`th from the start on. -/
def turn (n : Nat) : Turn :=
  { now := seconds (300061 + 10 * n), running := true, stillAlive := true,
    asked := seconds (300061 + 10 * n), list := some [] }

end Hath.Keepalive
