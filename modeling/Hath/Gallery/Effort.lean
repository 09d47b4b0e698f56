import Hath.Gallery.Download
import Hath.Text

/-!
# Hath.Gallery.Effort — what the download of one gallery asks of the server and of the hosts

The loop of `Hath.Gallery.Download` with a clock in milliseconds, its calls of `dl_fetch`,
each of which may send a few requests, and the failures it keeps for `dl_fails`. An entry
takes a second from the start of its call, or from the URL if there is one; an entry that is
there already takes no time.

* `Inv` — the calls made, the attempts made and those still to come;
* `effort_bounded` — the bounds of a whole run, and the silence about what is downloaded.
-/

namespace Hath.Effort

open Lib Gallery

/-! ## State and steps -/

/-- A call of `dl_fetch`; `retry` is the number of the pass. -/
structure Fetch where
  time : Nat
  retry : Nat
  index : Nat
deriving DecidableEq

structure State where
  loop : St
  now : Nat := 0
  startTime : Nat := 0
  /-- The end of `sleep_until`. -/
  wake : Nat := 0
  /-- `host_str` of the URLs. -/
  hosts : Nat → Option Text := fun _ => none
  /-- The latest first. -/
  fetches : List Fetch := []
  /-- The entries whose file was to be created, call by call. -/
  creates : List Nat := []
  /-- The entries with what was put into `failures` for them. -/
  failures : List (Nat × Text) := []

inductive Act where
  | tick (n : Nat)
  /-- A step of the loop or of a task; `host` is that of the URL, if it gets one. -/
  | load (a : Gallery.Act) (host : Option Text)

section

variable (sha1 : Bytes → Digest) (gallery : List GalleryFile) (filecount : Nat)

/-- The loop sleeps before it turns to the next entry or to the end of the pass. -/
def awake (s : State) : Gallery.Act → Bool
  | .begin | .stop => s.wake ≤ s.now
  | _ => true

/-- The attempt fails with an error of `reqwest` or with a wrong hash. -/
def Blamed (t : Task) : TaskEvent → Bool
  | .requestErr | .streamErr => true
  | .streamEnd => !hashOk sha1 t.info t.hasher
  | _ => false

/-- What the third attempt of a task puts into `failures`. -/
def blame (s : State) (i : Nat) (e : TaskEvent) : List (Nat × Text) :=
  match s.loop.task i, s.hosts i with
  | some t, some host =>
      if t.attempt = 2 ∧ Blamed sha1 t e = true then
        [(i, host ++ '-' :: natText t.info.fileindex ++ '-' :: t.info.xres)]
      else []
  | _, _ => []

/-- Every attempt of `download` starts with `File::create`. -/
def attempted (i : Nat) : TaskEvent → List Nat
  | .createErr | .created => [i]
  | _ => []

/-- The time and the records after a step of the loop. -/
def after (s : State) (a : Gallery.Act) (host : Option Text) (loop : St) : State :=
  match a with
  | .exam _ | .read _ =>
      match loop.pc with
      | .fetching i _ =>
          { s with
            loop := loop
            startTime := s.now
            fetches := ⟨s.now, loop.pass, i⟩ :: s.fetches }
      | _ => { s with loop := loop }
  | .url _ =>
      match loop.pc with
      | .acquiring i _ =>
          { s with loop := loop, startTime := s.now, hosts := Function.update s.hosts i host }
      | _ => { s with loop := loop, wake := s.startTime + 1000 }
  | .spawn => { s with loop := loop, wake := s.startTime + 1000 }
  | .task i e =>
      { s with
        loop := loop
        creates := attempted i e ++ s.creates
        failures := blame sha1 s i e ++ s.failures }
  | .begin | .stop | .drain => { s with loop := loop }

def step (s : State) : Act → Option State
  | .tick n => some { s with now := s.now + n }
  | .load a host =>
      if awake s a then
        (Gallery.step sha1 gallery filecount s.loop a).map (after sha1 s a host)
      else none

def machine (disk : Text → Option Bytes) : Machine State Act where
  init s := s = { loop := start disk }
  step := step sha1 gallery filecount

end

/-! ## The invariant -/

/-- The calls of `dl_fetch` for an entry. -/
def State.asked (s : State) (i : Nat) : Nat := s.fetches.countP (·.index = i)

def State.created (s : State) (i : Nat) : Nat := s.creates.count i

def State.failed (s : State) (i : Nat) : Nat := s.failures.countP (·.1 = i)

/-- A call is made a second after the last one, for a later entry or in a later pass. -/
def Later (later earlier : Fetch) : Prop :=
  earlier.time + 1000 ≤ later.time ∧
    (earlier.retry < later.retry ∨ earlier.retry = later.retry ∧ earlier.index < later.index)

/-- The entry has been asked for and has no task yet. -/
def wants : Pc → Nat → Bool
  | .fetching i _, j | .acquiring i _, j => i = j
  | _, _ => false

/-- The entries below this one may have been asked for in this pass. -/
def reach (n : Nat) : Pc → Nat
  | .next i | .examining i _ | .hashing i _ _ _ => i
  | .fetching i _ | .acquiring i _ => i + 1
  | .draining | .stopped | .finished | .failed => n

/-- The calls so far were made a second before. -/
def State.due (s : State) : Nat :=
  match s.loop.pc with
  | .examining _ _ | .hashing _ _ _ _ => s.now
  | .fetching _ _ | .acquiring _ _ => s.startTime + 1000
  | _ => max s.wake s.now

/-- The attempts a task has left. -/
def attemptsLeft : Option Task → Nat
  | none => 0
  | some t => if t.pc = .creating then 3 - t.attempt else 2 - t.attempt

/-- The attempts for an entry that the calls made so far still allow. -/
def State.left (s : State) (i : Nat) : Nat :=
  (if wants s.loop.pc i then 3 else 0) + attemptsLeft (s.loop.task i)

/-- The tasks for an entry that are running or about to be started. -/
def State.live (s : State) (i : Nat) : Nat :=
  (if wants s.loop.pc i then 1 else 0) + (s.loop.task i).toList.length

/-- What is known of a call made before. -/
def Past (n : Nat) (s : State) (f : Fetch) : Prop :=
  f.index < n ∧ f.time + 1000 ≤ s.due ∧
    (f.retry < s.loop.pass ∨ f.retry = s.loop.pass ∧ f.index < reach n s.loop.pc)

structure Inv (gallery : List GalleryFile) (s : State) : Prop where
  pass : s.loop.pass < 10
  clock : s.startTime ≤ s.now
  entry : ∀ i info, s.loop.pc.entry = some (i, info) →
    gallery[i]? = some info ∧ info ∉ s.loop.downloaded
  tasks : ∀ j t, s.loop.task j = some t → gallery[j]? = some t.info ∧
    j < s.loop.pc.cursor gallery.length ∧ t.attempt < 3 ∧ t.info ∉ s.loop.downloaded
  running : running gallery s.loop ≤ 4
  fetches : s.fetches.Pairwise Later
  past : ∀ f ∈ s.fetches, Past gallery.length s f
  creates : ∀ i, s.created i + s.left i ≤ 3 * s.asked i
  failures : ∀ i, s.failed i + s.live i ≤ s.asked i

/-! ### Tasks -/

/-- What a step of a task does to it, and what it may put into `downloaded_files`. -/
structure TaskEffect (sha1 : Bytes → Digest) (s s' : St) (i : Nat) (t : Task) (e : TaskEvent)
    (next : Option Task) : Prop where
  pc : s'.pc = s.pc
  pass : s'.pass = s.pass
  task : s'.task = Function.update s.task i next
  downloaded : s'.downloaded = s.downloaded ∨
    next = none ∧ s'.downloaded = insert t.info s.downloaded
  kept : ∀ t', next = some t' → t'.info = t.info ∧ t'.attempt < 3
  attempts : (attempted i e).length + attemptsLeft next ≤ attemptsLeft (some t)
  blamed : t.attempt = 2 → Blamed sha1 t e = true → next = none

section

variable {sha1 : Bytes → Digest} {gallery : List GalleryFile} {filecount : Nat}

theorem taskEffect_failAttempt {s s₁ : St} {i : Nat} {t : Task} {e : TaskEvent}
    (hpc : s₁.pc = s.pc) (hpass : s₁.pass = s.pass) (htask : s₁.task = s.task)
    (hdown : s₁.downloaded = s.downloaded) (hlt : t.attempt < 3)
    (hattempt : (attempted i e).length ≤ if t.pc = .creating then 1 else 0) :
    ∃ next, TaskEffect sha1 s (failAttempt s₁ i t) i t e next := by
  unfold failAttempt
  split
  · rename_i hmore
    refine ⟨_, hpc, hpass, congrArg (Function.update · i _) htask, .inl hdown, ?_, ?_, ?_⟩
    · intro t' ht'
      cases ht'
      exact ⟨rfl, hmore⟩
    · simp only [attemptsLeft, if_true]
      split at hattempt
      · rw [if_pos ‹_›]
        omega
      · rw [if_neg ‹_›]
        omega
    · intro hlast
      omega
  · refine ⟨none, hpc, hpass, congrArg (Function.update · i _) htask, .inl hdown, nofun, ?_,
      fun _ _ => rfl⟩
    simp only [attemptsLeft]
    split at hattempt
    · rw [if_pos ‹_›]
      omega
    · omega

theorem taskStep_effect {s s' : St} {i : Nat} {t : Task} {e : TaskEvent} (hlt : t.attempt < 3)
    (hs : taskStep sha1 s i t e = some s') : ∃ next, TaskEffect sha1 s s' i t e next := by
  cases e with
  | createErr | requestErr | writeErr | streamErr =>
      simp only [taskStep, Option.ite_none_right_eq_some, Option.some.injEq] at hs
      rcases hs with ⟨hpc, rfl⟩
      refine taskEffect_failAttempt rfl rfl rfl rfl hlt ?_
      simp [attempted, hpc]
  | created =>
      simp only [taskStep, Option.ite_none_right_eq_some, Option.some.injEq] at hs
      rcases hs with ⟨hpc, rfl⟩
      refine ⟨_, rfl, rfl, rfl, .inl rfl, ?_, ?_, fun _ h => absurd h Bool.false_ne_true⟩
      · intro t' ht'
        cases ht'
        exact ⟨rfl, hlt⟩
      · simp only [attempted, attemptsLeft, hpc, List.length_singleton, reduceCtorEq, if_true,
          if_false]
        omega
  | requestOk | chunk =>
      simp only [taskStep, Option.ite_none_right_eq_some, Option.some.injEq] at hs
      rcases hs with ⟨hpc, rfl⟩
      refine ⟨_, rfl, rfl, rfl, .inl rfl, ?_, ?_, fun _ h => absurd h Bool.false_ne_true⟩
      · intro t' ht'
        cases ht'
        exact ⟨rfl, hlt⟩
      · simp [attempted, attemptsLeft, hpc]
  | streamEnd =>
      simp only [taskStep, Option.ite_none_right_eq_some] at hs
      rcases hs with ⟨hpc, hs⟩
      split at hs
      · rename_i hhash
        obtain rfl := Option.some.inj hs
        refine ⟨_, rfl, rfl, rfl, .inl rfl, ?_, ?_, ?_⟩
        · intro t' ht'
          cases ht'
          exact ⟨rfl, hlt⟩
        · simp [attempted, attemptsLeft, hpc]
        · intro _ hblamed
          rw [Blamed, hhash] at hblamed
          cases hblamed
      · obtain rfl := Option.some.inj hs
        exact taskEffect_failAttempt rfl rfl rfl rfl hlt (Nat.zero_le _)
  | record =>
      simp only [taskStep, Option.ite_none_right_eq_some, Option.some.injEq] at hs
      rcases hs with ⟨-, rfl⟩
      exact ⟨none, rfl, rfl, rfl, .inr ⟨rfl, rfl⟩,
        fun t' h => absurd h.symm (Option.some_ne_none t'), Nat.zero_le _,
        fun _ h => absurd h Bool.false_ne_true⟩

/-! ### The number of tasks -/

theorem countP_update_le (f : Nat → Option Task) (i n : Nat) (v : Option Task) :
    (List.range n).countP (fun j => (Function.update f i v j).isSome) ≤
      (List.range n).countP (fun j => (f j).isSome) + if i < n then 1 else 0 := by
  induction n with
  | zero => exact Nat.zero_le _
  | succ n ih =>
      rw [List.range_succ, List.countP_append, List.countP_append]
      by_cases hn : n = i
      · subst hn
        rw [if_neg (Nat.lt_irrefl n)] at ih
        rw [if_pos (Nat.lt_succ_self n)]
        have hone : ([n].countP fun j => (Function.update f n v j).isSome) ≤ 1 :=
          List.countP_le_length
        omega
      · have hsame : ([n].countP fun j => (Function.update f i v j).isSome) =
            [n].countP fun j => (f j).isSome := by
          simp [hn]
        rw [hsame]
        split at ih
        · rw [if_pos (by omega)]
          omega
        · rw [if_neg (by omega)]
          omega

/-- A task that is replaced does not add to the number. -/
theorem running_update_le {s s' : St} {i : Nat} {t : Task} {next : Option Task}
    (ht : s.task i = some t) (htask : s'.task = Function.update s.task i next) :
    running gallery s' ≤ running gallery s := by
  refine List.countP_mono_left ?_
  intro j _ hj
  rw [htask] at hj
  by_cases hji : j = i
  · subst hji
    rw [ht]
    rfl
  · rw [Function.update_of_ne hji] at hj
    exact hj

/-! ### The loop -/

variable {s s' : State}

theorem init_inv (disk : Text → Option Bytes) : Inv gallery { loop := start disk } where
  pass := Nat.zero_lt_succ 9
  clock := Nat.le_refl 0
  entry := nofun
  tasks := nofun
  running := by simp [running, start]
  fetches := List.Pairwise.nil
  past := nofun
  creates i := Nat.zero_le _
  failures i := Nat.zero_le _

theorem Past.mono {n : Nat} {f : Fetch} (h : Past n s f) (hdue : s.due ≤ s'.due)
    (hpass : s'.loop.pass = s.loop.pass) (hreach : reach n s.loop.pc ≤ reach n s'.loop.pc) :
    Past n s' f := by
  rcases h with ⟨hlt, htime, hretry⟩
  refine ⟨hlt, htime.trans hdue, ?_⟩
  rw [hpass]
  exact hretry.imp_right fun h => ⟨h.1, h.2.trans_le hreach⟩

/-- No entry is in hand at this place. -/
theorem no_entry {pc : Pc} (h : pc.entry = none) {P : Nat → GalleryFile → Prop} :
    ∀ i info, pc.entry = some (i, info) → P i info := by
  intro i info hentry
  rw [h] at hentry
  cases hentry

/-- No entry has been asked for at this place. -/
theorem no_wants {pc : Pc} (h : ∀ i, wants pc i = false) {P : Nat → Prop} :
    ∀ i, wants pc i = true → P i := by
  intro i hwants
  rw [h i] at hwants
  cases hwants

/-- The loop moves on; no call is made and no task started. -/
theorem Inv.move (hi : Inv gallery s) (htask : s'.loop.task = s.loop.task)
    (hpass : s'.loop.pass < 10) (hclock : s'.startTime ≤ s'.now) (hfetches : s'.fetches = s.fetches)
    (hcreates : s'.creates = s.creates) (hfailures : s'.failures = s.failures)
    (hentry : ∀ i info, s'.loop.pc.entry = some (i, info) →
      gallery[i]? = some info ∧ info ∉ s'.loop.downloaded)
    (htasks : ∀ j t, s.loop.task j = some t →
      j < s'.loop.pc.cursor gallery.length ∧ t.info ∉ s'.loop.downloaded)
    (hpast : ∀ f, Past gallery.length s f → Past gallery.length s' f)
    (hwants : ∀ i, wants s'.loop.pc i = true → wants s.loop.pc i = true) : Inv gallery s' where
  pass := hpass
  clock := hclock
  entry := hentry
  tasks j t ht := by
    rw [htask] at ht
    rcases hi.tasks j t ht with ⟨hj, -, hlt, -⟩
    rcases htasks j t ht with ⟨hcursor, hnew⟩
    exact ⟨hj, hcursor, hlt, hnew⟩
  running := by
    unfold Gallery.running
    rw [htask]
    exact hi.running
  fetches := hfetches ▸ hi.fetches
  past f hf := hpast f (hi.past f (hfetches ▸ hf))
  creates i := by
    have := hi.creates i
    unfold State.created State.left State.asked at this ⊢
    rw [hcreates, hfetches, htask]
    have hle : (if wants s'.loop.pc i then 3 else 0) ≤ if wants s.loop.pc i then 3 else 0 := by
      by_cases h : wants s'.loop.pc i = true
      · rw [if_pos h, if_pos (hwants i h)]
      · rw [if_neg h]
        exact Nat.zero_le _
    omega
  failures i := by
    have := hi.failures i
    unfold State.failed State.live State.asked at this ⊢
    rw [hfailures, hfetches, htask]
    have hle : (if wants s'.loop.pc i then 1 else 0) ≤ if wants s.loop.pc i then 1 else 0 := by
      by_cases h : wants s'.loop.pc i = true
      · rw [if_pos h, if_pos (hwants i h)]
      · rw [if_neg h]
        exact Nat.zero_le _
    omega

/-- The loop asks for the URL of the entry it is at. -/
theorem Inv.fetch (hi : Inv gallery s) {i : Nat} {info : GalleryFile}
    (hpc : s.loop.pc.entry = some (i, info)) (hcursor : s.loop.pc.cursor gallery.length = i)
    (hreach : reach gallery.length s.loop.pc = i) (hdue : s.due = s.now) :
    Inv gallery { s with
      loop := s.loop.setPc (.fetching i info)
      startTime := s.now
      fetches := ⟨s.now, s.loop.pass, i⟩ :: s.fetches } := by
  have hnone : s.loop.task i = none := by
    cases ht : s.loop.task i with
    | none => rfl
    | some t =>
        have := (hi.tasks i t ht).2.1
        omega
  constructor
  · exact hi.pass
  · exact Nat.le_refl s.now
  · intro k a ha
    obtain ⟨rfl, rfl⟩ : i = k ∧ info = a := by simpa [Pc.entry] using ha
    exact hi.entry i info hpc
  · intro j t ht
    rcases hi.tasks j t ht with ⟨hj, hlt, hrest⟩
    exact ⟨hj, hcursor ▸ hlt, hrest⟩
  · exact hi.running
  · refine List.pairwise_cons.mpr ⟨?_, hi.fetches⟩
    intro f hf
    have hp := hi.past f hf
    unfold Past at hp
    rw [hreach, hdue] at hp
    exact hp.2
  · intro f hf
    rcases List.mem_cons.mp hf with rfl | hf
    · have hlt := (List.getElem?_eq_some_iff.mp (hi.entry i info hpc).1).1
      exact ⟨hlt, Nat.le_refl _, .inr ⟨rfl, Nat.lt_succ_self i⟩⟩
    · have hp := hi.past f hf
      unfold Past at hp
      rw [hreach, hdue] at hp
      refine ⟨hp.1, hp.2.1.trans (Nat.le_add_right _ _), hp.2.2.imp_right ?_⟩
      rintro ⟨hretry, hlt⟩
      exact ⟨hretry, Nat.lt_succ_of_lt hlt⟩
  · intro k
    have := hi.creates k
    simp only [State.created, State.left, State.asked, St.setPc, wants, List.countP_cons,
      decide_eq_true_eq] at this ⊢
    split
    · subst k
      simp only [hnone, attemptsLeft] at this ⊢
      omega
    · omega
  · intro k
    have := hi.failures k
    simp only [State.failed, State.live, State.asked, St.setPc, wants, List.countP_cons,
      decide_eq_true_eq] at this ⊢
    split
    · subst k
      simp only [hnone, Option.toList_none, List.length_nil] at this ⊢
      omega
    · omega

/-- The loop starts a task. -/
theorem Inv.spawn (hi : Inv gallery s) {i : Nat} {info : GalleryFile}
    (hpc : s.loop.pc = .acquiring i info) (hroom : Gallery.running gallery s.loop < 4) :
    Inv gallery { s with
      loop := (s.loop.setTask i (some (freshTask info))).setPc (.next (i + 1))
      wake := s.startTime + 1000 } := by
  have hcursor : s.loop.pc.cursor gallery.length = i := by rw [hpc, Pc.cursor]
  have hnone : s.loop.task i = none := by
    cases ht : s.loop.task i with
    | none => rfl
    | some t =>
        have := (hi.tasks i t ht).2.1
        omega
  rcases hi.entry i info (by rw [hpc, Pc.entry]) with ⟨hinfo, hnew⟩
  constructor
  · exact hi.pass
  · exact hi.clock
  · exact no_entry rfl
  · intro j t ht
    by_cases hj : j = i
    · subst hj
      obtain rfl : freshTask info = t := by simpa using ht
      exact ⟨hinfo, Nat.lt_succ_self j, Nat.zero_lt_succ 2, hnew⟩
    · rcases hi.tasks j t (by simpa [hj] using ht) with ⟨hj', hlt, hrest⟩
      rw [hcursor] at hlt
      exact ⟨hj', Nat.lt_succ_of_lt hlt, hrest⟩
  · have := countP_update_le s.loop.task i gallery.length (some (freshTask info))
    unfold Gallery.running at hroom ⊢
    simp only [St.setPc, St.setTask]
    split at this <;> omega
  · exact hi.fetches
  · intro f hf
    have hp := hi.past f hf
    unfold Past State.due at hp ⊢
    simp only [hpc, reach] at hp
    exact ⟨hp.1, hp.2.1.trans (Nat.le_max_left _ _), hp.2.2⟩
  · intro k
    have := hi.creates k
    by_cases hk : k = i
    · subst hk
      simp only [State.created, State.left, State.asked, hpc, hnone, wants, decide_true, if_true,
        attemptsLeft, St.setPc, St.setTask, Function.update_self, freshTask, Bool.false_eq_true,
        if_false] at this ⊢
      omega
    · simp only [State.created, State.left, State.asked, hpc, wants, St.setPc, St.setTask,
        Function.update_of_ne hk, Bool.false_eq_true, if_false] at this ⊢
      omega
  · intro k
    have := hi.failures k
    by_cases hk : k = i
    · subst hk
      simp only [State.failed, State.live, State.asked, hpc, hnone, wants, decide_true, if_true,
        St.setPc, St.setTask, Function.update_self, Option.toList_none, Option.toList_some,
        List.length_nil, List.length_singleton, Bool.false_eq_true, if_false] at this ⊢
      omega
    · simp only [State.failed, State.live, State.asked, hpc, wants, St.setPc, St.setTask,
        Function.update_of_ne hk, Bool.false_eq_true, if_false] at this ⊢
      omega

theorem count_attempted (i k : Nat) (e : TaskEvent) :
    (attempted i e).count k = if k = i then (attempted i e).length else 0 := by
  have hone : [i].count k = if k = i then 1 else 0 := by
    by_cases hk : k = i
    · simp [hk]
    · simp [hk, Ne.symm hk]
  cases e with
  | createErr | created => exact hone
  | requestErr | requestOk | chunk | writeErr | streamErr | streamEnd | record =>
      simp [attempted]

theorem countP_blame_ne {i k : Nat} (hk : k ≠ i) (e : TaskEvent) :
    (blame sha1 s i e).countP (·.1 = k) = 0 := by
  unfold blame
  split
  · split
    · simp [hk.symm]
    · rfl
  · rfl

/-- Only the last attempt of a task is put into `failures`. -/
theorem countP_blame_self {i : Nat} {t : Task} {e : TaskEvent} {next : Option Task} {loop : St}
    (ht : s.loop.task i = some t) (heffect : TaskEffect sha1 s.loop loop i t e next) :
    (blame sha1 s i e).countP (·.1 = i) + next.toList.length ≤ 1 := by
  have hnext : next.toList.length ≤ 1 := by cases next <;> simp
  unfold blame
  rw [ht]
  split
  · rename_i t' host ht' _
    obtain rfl := Option.some.inj ht'
    split
    · rename_i hblamed
      rw [heffect.blamed hblamed.1 hblamed.2]
      simp
    · exact (Nat.zero_add _).trans_le hnext
  · exact (Nat.zero_add _).trans_le hnext

/-- A step of a task. -/
theorem Inv.task (hpaths : (gallery.map GalleryFile.path).Nodup) (hi : Inv gallery s) {i : Nat}
    {t : Task} {e : TaskEvent} {next : Option Task} {loop : St} {host : Option Text}
    (ht : s.loop.task i = some t) (heffect : TaskEffect sha1 s.loop loop i t e next) :
    Inv gallery (after sha1 s (.task i e) host loop) := by
  rcases hi.tasks i t ht with ⟨hinfo, hlt, -, -⟩
  -- what the task puts into `downloaded_files` is no other entry
  have hnew : ∀ j a, gallery[j]? = some a → j ≠ i ∨ next ≠ none → a ∉ s.loop.downloaded →
      a ∉ loop.downloaded := by
    intro j a ha hj hold
    rcases heffect.downloaded with hdown | ⟨hnone, hdown⟩
    · rw [hdown]
      exact hold
    · rw [hdown]
      have hji : j ≠ i := hj.resolve_right (not_not_intro hnone)
      intro hmem
      rcases Finset.mem_insert.mp hmem with heq | hmem
      · exact path_ne_of_index hpaths ha hinfo hji (congrArg GalleryFile.path heq)
      · exact hold hmem
  constructor
  · exact heffect.pass.trans_lt hi.pass
  · exact hi.clock
  · intro k a ha
    have hk : s.loop.pc.entry = some (k, a) := heffect.pc ▸ ha
    rcases hi.entry k a hk with ⟨hka, hold⟩
    have hcursor : s.loop.pc.cursor gallery.length = k := by
      revert hk
      cases s.loop.pc <;> simp [Pc.entry, Pc.cursor]
      all_goals
        intro hk _
        exact hk
    exact ⟨hka, hnew k a hka (.inl (by omega)) hold⟩
  · intro j t' ht'
    have hupdate : Function.update s.loop.task i next j = some t' := heffect.task ▸ ht'
    by_cases hj : j = i
    · subst hj
      rw [Function.update_self] at hupdate
      rcases heffect.kept t' hupdate with ⟨hsame, hattempt⟩
      refine ⟨hsame ▸ hinfo, ?_, hattempt, ?_⟩
      · show j < loop.pc.cursor gallery.length
        rw [heffect.pc]
        exact hlt
      · rw [hsame]
        refine hnew j t.info hinfo (.inr ?_) (hi.tasks j t ht).2.2.2
        rw [hupdate]
        exact Option.some_ne_none t'
    · rw [Function.update_of_ne hj] at hupdate
      rcases hi.tasks j t' hupdate with ⟨hj', hlt', hattempt, hold⟩
      refine ⟨hj', ?_, hattempt, hnew j t'.info hj' (.inl hj) hold⟩
      show j < loop.pc.cursor gallery.length
      rw [heffect.pc]
      exact hlt'
  · exact (running_update_le ht heffect.task).trans hi.running
  · exact hi.fetches
  · intro f hf
    refine (hi.past f hf).mono ?_ heffect.pass ?_
    · unfold State.due
      simp only [after, heffect.pc, Nat.le_refl]
    · exact (congrArg (reach gallery.length) heffect.pc).ge
  · intro k
    have hold := hi.creates k
    have hcount := count_attempted i k e
    unfold State.created State.left State.asked at hold ⊢
    simp only [after, List.count_append, heffect.pc, heffect.task]
    by_cases hk : k = i
    · subst hk
      have := heffect.attempts
      rw [if_pos rfl] at hcount
      rw [Function.update_self]
      rw [ht] at hold
      omega
    · rw [if_neg hk] at hcount
      rw [Function.update_of_ne hk]
      omega
  · intro k
    have hold := hi.failures k
    unfold State.failed State.live State.asked at hold ⊢
    simp only [after, List.countP_append, heffect.pc, heffect.task]
    by_cases hk : k = i
    · subst hk
      have := countP_blame_self ht heffect
      rw [Function.update_self]
      rw [ht, Option.toList_some, List.length_singleton] at hold
      omega
    · rw [countP_blame_ne hk, Function.update_of_ne hk]
      omega

/-! ### Runs -/

/-- The loop goes to a place of the same pass that is no call, with the same entry or
none. -/
theorem Inv.goto (hi : Inv gallery s) {pc : Pc} (hloop : s'.loop = s.loop.setPc pc)
    (hclock : s'.startTime ≤ s'.now) (hfetches : s'.fetches = s.fetches)
    (hcreates : s'.creates = s.creates) (hfailures : s'.failures = s.failures)
    (hentry : ∀ i info, pc.entry = some (i, info) →
      gallery[i]? = some info ∧ info ∉ s.loop.downloaded)
    (hcursor : s.loop.pc.cursor gallery.length ≤ pc.cursor gallery.length)
    (hdue : s.due ≤ s'.due) (hreach : reach gallery.length s.loop.pc ≤ reach gallery.length pc)
    (hwants : ∀ i, wants pc i = true → wants s.loop.pc i = true) : Inv gallery s' := by
  have hpc : s'.loop.pc = pc := by rw [hloop]; rfl
  refine hi.move (hloop ▸ rfl) (hloop ▸ hi.pass) hclock hfetches hcreates hfailures ?_ ?_ ?_ ?_
  · intro i info h
    rw [hloop] at h ⊢
    exact hentry i info h
  · intro j t ht
    rcases hi.tasks j t ht with ⟨-, hlt, -, hnew⟩
    rw [hloop]
    exact ⟨hlt.trans_le hcursor, hnew⟩
  · intro f hf
    exact hf.mono hdue (hloop ▸ rfl) (hpc ▸ hreach)
  · rw [hpc]
    exact hwants

/-- The loop puts the entry it is at into `downloaded_files`. -/
theorem Inv.accept (hpaths : (gallery.map GalleryFile.path).Nodup) (hi : Inv gallery s) {i : Nat}
    {info : GalleryFile} (hpc : s.loop.pc.entry = some (i, info))
    (hcursor : s.loop.pc.cursor gallery.length = i) (hreach : reach gallery.length s.loop.pc = i)
    (hdue : s.due = s.now) : Inv gallery { s with loop := accept s.loop i info } := by
  rcases hi.entry i info hpc with ⟨hinfo, -⟩
  refine hi.move rfl hi.pass hi.clock rfl rfl rfl (no_entry rfl) ?_ ?_ (no_wants fun _ => rfl)
  · intro j t ht
    rcases hi.tasks j t ht with ⟨hj, hlt, -, hnew⟩
    rw [hcursor] at hlt
    refine ⟨Nat.lt_succ_of_lt hlt, ?_⟩
    intro hmem
    rcases Finset.mem_insert.mp hmem with heq | hmem
    · exact path_ne_of_index hpaths hj hinfo (Nat.ne_of_lt hlt) (congrArg GalleryFile.path heq)
    · exact hnew hmem
  · intro f hf
    refine hf.mono (hdue.trans_le (Nat.le_max_right _ _)) rfl ?_
    rw [hreach]
    exact Nat.le_succ i

theorem begin_inv {loop : St} (hi : Inv gallery s) (hawake : s.wake ≤ s.now)
    (hs : Gallery.step sha1 gallery filecount s.loop .begin = some loop) :
    Inv gallery { s with loop := loop } := by
  simp only [Gallery.step] at hs
  split at hs
  · rename_i i hpc
    have hcursor : s.loop.pc.cursor gallery.length = i := by rw [hpc, Pc.cursor]
    have hdue : s.due = s.now := by
      unfold State.due
      rw [hpc]
      exact Nat.max_eq_right hawake
    split at hs
    · rename_i info hinfo
      obtain rfl := Option.some.inj hs
      split
      · refine hi.goto rfl hi.clock rfl rfl rfl (no_entry rfl) ?_ ?_ ?_ (no_wants fun _ => rfl)
        · rw [hcursor]
          exact Nat.le_succ i
        · rw [hdue]
          exact Nat.le_max_right _ _
        · rw [hpc]
          exact Nat.le_succ i
      · rename_i hnew
        refine hi.goto rfl hi.clock rfl rfl rfl ?_ hcursor.le hdue.le ?_ (no_wants fun _ => rfl)
        · intro k a ha
          obtain ⟨rfl, rfl⟩ : i = k ∧ info = a := by simpa [Pc.entry] using ha
          exact ⟨hinfo, hnew⟩
        · rw [hpc]
          exact Nat.le_refl i
    · rename_i hend
      obtain rfl := Option.some.inj hs
      -- the cursor is that of the first entry without a task
      have hbelow : ∀ j t, s.loop.task j = some t → j < gallery.length := by
        intro j t ht
        exact (List.getElem?_eq_some_iff.mp (hi.tasks j t ht).1).1
      refine hi.move rfl hi.pass hi.clock rfl rfl rfl (no_entry rfl) ?_ ?_ (no_wants fun _ => rfl)
      · intro j t ht
        exact ⟨hbelow j t ht, (hi.tasks j t ht).2.2.2⟩
      · rintro f ⟨hlt, htime, hretry⟩
        rw [hdue] at htime
        refine ⟨hlt, htime.trans (Nat.le_max_right _ _), hretry.imp_right ?_⟩
        rintro ⟨hsame, -⟩
        exact ⟨hsame, hlt⟩
  · cases hs

theorem stop_inv {loop : St} (hi : Inv gallery s)
    (hs : Gallery.step sha1 gallery filecount s.loop .stop = some loop) :
    Inv gallery { s with loop := loop } := by
  simp only [Gallery.step] at hs
  split at hs
  · rename_i i hpc
    simp only [Option.ite_none_right_eq_some, Option.some.injEq] at hs
    rcases hs with ⟨hlt, rfl⟩
    refine hi.goto rfl hi.clock rfl rfl rfl (no_entry rfl) ?_ ?_ ?_ (no_wants fun _ => rfl)
    · rw [hpc]
      exact hlt.le
    · unfold State.due
      rw [hpc]
      exact Nat.le_refl _
    · rw [hpc]
      exact hlt.le
  · cases hs

theorem exam_inv {loop : St} {opened : Bool} {host : Option Text}
    (hpaths : (gallery.map GalleryFile.path).Nodup) (hi : Inv gallery s)
    (hs : Gallery.step sha1 gallery filecount s.loop (.exam opened) = some loop) :
    Inv gallery (after sha1 s (.exam opened) host loop) := by
  simp only [Gallery.step] at hs
  split at hs
  · rename_i i info hpc
    have hentry : s.loop.pc.entry = some (i, info) := by rw [hpc, Pc.entry]
    have hcursor : s.loop.pc.cursor gallery.length = i := by rw [hpc, Pc.cursor]
    have hreach : reach gallery.length s.loop.pc = i := by rw [hpc, reach]
    have hdue : s.due = s.now := by rw [State.due, hpc]
    split at hs
    · obtain rfl := Option.some.inj hs
      exact hi.fetch hentry hcursor hreach hdue
    · split at hs
      · obtain rfl := Option.some.inj hs
        exact hi.accept hpaths hentry hcursor hreach hdue
      · obtain rfl := Option.some.inj hs
        cases opened with
        | false => exact hi.fetch hentry hcursor hreach hdue
        | true =>
            refine hi.goto rfl hi.clock rfl rfl rfl ?_ hcursor.le hdue.le hreach.le
              (no_wants fun _ => rfl)
            intro k a ha
            exact hi.entry k a (hentry ▸ ha)
  · cases hs

theorem read_inv {loop : St} {n : Nat} {host : Option Text}
    (hpaths : (gallery.map GalleryFile.path).Nodup) (hi : Inv gallery s)
    (hs : Gallery.step sha1 gallery filecount s.loop (.read n) = some loop) :
    Inv gallery (after sha1 s (.read n) host loop) := by
  simp only [Gallery.step] at hs
  split at hs
  · rename_i i info hasher off hpc
    have hentry : s.loop.pc.entry = some (i, info) := by rw [hpc, Pc.entry]
    have hcursor : s.loop.pc.cursor gallery.length = i := by rw [hpc, Pc.cursor]
    have hreach : reach gallery.length s.loop.pc = i := by rw [hpc, reach]
    have hdue : s.due = s.now := by rw [State.due, hpc]
    split at hs
    · cases hs
    split at hs
    · obtain rfl := Option.some.inj hs
      split
      · exact hi.accept hpaths hentry hcursor hreach hdue
      · exact hi.fetch hentry hcursor hreach hdue
    · obtain rfl := Option.some.inj hs
      refine hi.goto rfl hi.clock rfl rfl rfl ?_ hcursor.le hdue.le hreach.le
        (no_wants fun _ => rfl)
      intro k a ha
      exact hi.entry k a (hentry ▸ ha)
  · cases hs

theorem url_inv {loop : St} {ok : Bool} {host : Option Text} (hi : Inv gallery s)
    (hs : Gallery.step sha1 gallery filecount s.loop (.url ok) = some loop) :
    Inv gallery (after sha1 s (.url ok) host loop) := by
  simp only [Gallery.step] at hs
  split at hs
  · rename_i i info hpc
    have hcursor : s.loop.pc.cursor gallery.length = i := by rw [hpc, Pc.cursor]
    have hreach : reach gallery.length s.loop.pc = i + 1 := by rw [hpc, reach]
    have hdue : s.due = s.startTime + 1000 := by rw [State.due, hpc]
    obtain rfl := Option.some.inj hs
    cases ok with
    | true =>
        refine hi.goto rfl (Nat.le_refl s.now) rfl rfl rfl ?_ hcursor.le ?_ hreach.le ?_
        · intro k a ha
          refine hi.entry k a ?_
          rw [hpc]
          exact ha
        · rw [hdue]
          exact Nat.add_le_add_right hi.clock 1000
        · intro k hk
          rw [hpc]
          exact hk
    | false =>
        refine hi.goto rfl hi.clock rfl rfl rfl (no_entry rfl) ?_ ?_ hreach.le
          (no_wants fun _ => rfl)
        · rw [hcursor]
          exact Nat.le_succ i
        · rw [hdue]
          exact Nat.le_max_left _ _
  · cases hs

/-- The end of a pass. -/
theorem drain_inv {loop : St} (hi : Inv gallery s)
    (hs : Gallery.step sha1 gallery filecount s.loop .drain = some loop) :
    Inv gallery { s with loop := loop } := by
  simp only [Gallery.step, Option.ite_none_right_eq_some, Option.some.injEq] at hs
  rcases hs with ⟨⟨hpc, hrunning⟩, rfl⟩
  have hnone : ∀ j t, s.loop.task j ≠ some t := by
    intro j t ht
    have hlt := (List.getElem?_eq_some_iff.mp (hi.tasks j t ht).1).1
    have := List.countP_eq_zero.mp hrunning j (List.mem_range.mpr hlt)
    rw [ht] at this
    exact this rfl
  have hdue : s.due = max s.wake s.now := by rw [State.due, hpc]
  split
  · refine hi.move rfl hi.pass hi.clock rfl rfl rfl (no_entry rfl)
      (fun j t ht => absurd ht (hnone j t)) ?_ (no_wants fun _ => rfl)
    intro f hf
    exact hf.mono hdue.le rfl (hpc ▸ Nat.le_refl _)
  · split
    · rename_i hmore
      refine hi.move rfl hmore hi.clock rfl rfl rfl (no_entry rfl)
        (fun j t ht => absurd ht (hnone j t)) ?_ (no_wants fun _ => rfl)
      rintro f ⟨hlt, htime, hretry⟩
      refine ⟨hlt, htime.trans hdue.le, .inl ?_⟩
      show f.retry < s.loop.pass + 1
      omega
    · refine hi.move rfl hi.pass hi.clock rfl rfl rfl (no_entry rfl)
        (fun j t ht => absurd ht (hnone j t)) ?_ (no_wants fun _ => rfl)
      intro f hf
      exact hf.mono hdue.le rfl (hpc ▸ Nat.le_refl _)

theorem step_inv {a : Act} (hpaths : (gallery.map GalleryFile.path).Nodup) (hi : Inv gallery s)
    (hs : step sha1 gallery filecount s a = some s') : Inv gallery s' := by
  cases a with
  | tick n =>
      obtain rfl := Option.some.inj hs
      refine hi.goto rfl (hi.clock.trans (Nat.le_add_right _ _)) rfl rfl rfl hi.entry
        (Nat.le_refl _) ?_ (Nat.le_refl _) fun _ h => h
      unfold State.due
      dsimp only
      split <;> omega
  | load a host =>
      simp only [step, Option.ite_none_right_eq_some] at hs
      rcases hs with ⟨hawake, hs⟩
      rcases Option.map_eq_some_iff.mp hs with ⟨loop, hmove, rfl⟩
      cases a with
      | task i e =>
          simp only [Gallery.step] at hmove
          split at hmove
          · rename_i t ht
            rcases taskStep_effect (hi.tasks i t ht).2.2.1 hmove with ⟨next, heffect⟩
            exact hi.task hpaths ht heffect
          · cases hmove
      | begin => exact begin_inv hi (of_decide_eq_true hawake) hmove
      | stop => exact stop_inv hi hmove
      | exam opened => exact exam_inv hpaths hi hmove
      | read n => exact read_inv hpaths hi hmove
      | url ok => exact url_inv hi hmove
      | spawn =>
          simp only [Gallery.step] at hmove
          split at hmove
          · rename_i i info hpc
            simp only [Option.ite_none_right_eq_some, Option.some.injEq] at hmove
            rcases hmove with ⟨hroom, rfl⟩
            exact hi.spawn hpc hroom
          · cases hmove
      | drain => exact drain_inv hi hmove

theorem inv_of_reachable {disk : Text → Option Bytes}
    (hpaths : (gallery.map GalleryFile.path).Nodup)
    (h : (machine sha1 gallery filecount disk).Reachable s) : Inv gallery s := by
  refine h.invariant ?_ ?_
  · rintro s rfl
    exact init_inv disk
  · intro s a s' hi hs
    exact step_inv hpaths hi hs

/-- The passes of the calls for an entry are different ones. -/
theorem asked_le (hi : Inv gallery s) (i : Nat) : s.asked i ≤ 10 := by
  let calls := s.fetches.filter (·.index = i)
  have hindex : ∀ f ∈ calls, f.index = i := by
    intro f hf
    exact of_decide_eq_true (List.mem_filter.mp hf).2
  have hnodup : (calls.map Fetch.retry).Nodup := by
    refine List.pairwise_map.mpr ?_
    refine (hi.fetches.filter _).imp_of_mem ?_
    rintro f g hf hg ⟨-, hlt | ⟨-, hlt⟩⟩
    · exact hlt.ne'
    · rw [hindex f hf, hindex g hg] at hlt
      exact absurd hlt (Nat.lt_irrefl i)
  have hsub : calls.map Fetch.retry ⊆ List.range 10 := by
    intro retry hretry
    rcases List.mem_map.mp hretry with ⟨f, hf, rfl⟩
    have hp := (hi.past f (List.mem_filter.mp hf).1).2.2
    have := hi.pass
    exact List.mem_range.mpr (by omega)
  have hle := (List.subperm_of_subset hnodup hsub).length_le
  rw [List.length_map, List.length_range] at hle
  unfold State.asked
  rw [List.countP_eq_length_filter]
  exact hle

/-! ### Entries that are downloaded -/

theorem downloaded_subset {s s' : St} {a : Gallery.Act}
    (hs : Gallery.step sha1 gallery filecount s a = some s')
    (hlt : ∀ i t, s.task i = some t → t.attempt < 3) : s.downloaded ⊆ s'.downloaded := by
  cases a with
  | task i e =>
      simp only [Gallery.step] at hs
      split at hs
      · rename_i t ht
        rcases taskStep_effect (hlt i t ht) hs with ⟨next, heffect⟩
        rcases heffect.downloaded with hdown | ⟨-, hdown⟩
        · rw [hdown]
        · rw [hdown]
          exact Finset.subset_insert _ _
      · cases hs
  | drain =>
      simp only [Gallery.step, Option.ite_none_right_eq_some, Option.some.injEq] at hs
      rcases hs with ⟨-, rfl⟩
      split
      · exact Finset.Subset.refl _
      · split <;> exact Finset.Subset.refl _
  | begin | stop | exam | read | url | spawn =>
      intro info hinfo
      simp only [Gallery.step] at hs
      grind [accept, St.setPc, St.setTask]

/-- A call is made for the entry the loop is at. -/
theorem entry_of_fetching {s s' : St} {a : Gallery.Act} {i : Nat} {info : GalleryFile}
    (hs : Gallery.step sha1 gallery filecount s a = some s')
    (hlt : ∀ i t, s.task i = some t → t.attempt < 3) (hpc : s'.pc = .fetching i info) :
    s.pc.entry = some (i, info) := by
  cases a with
  | task i e =>
      simp only [Gallery.step] at hs
      split at hs
      · rename_i t ht
        rcases taskStep_effect (hlt i t ht) hs with ⟨next, heffect⟩
        rw [← heffect.pc, hpc, Pc.entry]
      · cases hs
  | begin | stop | exam | read | url | spawn | drain =>
      simp only [Gallery.step] at hs
      grind [accept, St.setPc, St.setTask, Pc.entry]

/-- Nothing is done for an entry that is downloaded. -/
theorem unchanged_of_step {a : Act} (hi : Inv gallery s)
    (hs : step sha1 gallery filecount s a = some s') {i : Nat} {info : GalleryFile}
    (hinfo : gallery[i]? = some info) (hdown : info ∈ s.loop.downloaded) :
    info ∈ s'.loop.downloaded ∧ s'.asked i = s.asked i ∧ s'.created i = s.created i ∧
      s'.failed i = s.failed i := by
  cases a with
  | tick n =>
      obtain rfl := Option.some.inj hs
      exact ⟨hdown, rfl, rfl, rfl⟩
  | load a host =>
      simp only [step, Option.ite_none_right_eq_some] at hs
      rcases hs with ⟨-, hs⟩
      rcases Option.map_eq_some_iff.mp hs with ⟨loop, hmove, rfl⟩
      have hlt : ∀ j t, s.loop.task j = some t → t.attempt < 3 := by
        intro j t ht
        exact (hi.tasks j t ht).2.2.1
      have hmem : info ∈ loop.downloaded := downloaded_subset hmove hlt hdown
      -- the loop and the tasks are at other entries
      have hentry : ∀ k f, loop.pc = .fetching k f → k ≠ i := by
        rintro k f hpc rfl
        rcases hi.entry k f (entry_of_fetching hmove hlt hpc) with ⟨hf, hnew⟩
        rw [hinfo] at hf
        obtain rfl := Option.some.inj hf
        exact hnew hdown
      have htask : ∀ t, s.loop.task i ≠ some t := by
        intro t ht
        rcases hi.tasks i t ht with ⟨ht', -, -, hnew⟩
        rw [hinfo] at ht'
        obtain rfl := Option.some.inj ht'
        exact hnew hdown
      cases a with
      | begin | stop | drain | spawn => exact ⟨hmem, rfl, rfl, rfl⟩
      | exam | read =>
          simp only [after]
          split
          · rename_i k f hpc
            refine ⟨hmem, ?_, rfl, rfl⟩
            unfold State.asked
            rw [List.countP_cons_of_neg]
            simpa using hentry k f hpc
          · exact ⟨hmem, rfl, rfl, rfl⟩
      | url =>
          simp only [after]
          split
          · exact ⟨hmem, rfl, rfl, rfl⟩
          · exact ⟨hmem, rfl, rfl, rfl⟩
      | task k e =>
          have hk : i ≠ k := by
            rintro rfl
            simp only [Gallery.step] at hmove
            split at hmove
            · rename_i t ht
              exact htask t ht
            · cases hmove
          refine ⟨hmem, rfl, ?_, ?_⟩
          · unfold State.created
            simp only [after, List.count_append]
            rw [count_attempted, if_neg hk, Nat.zero_add]
          · unfold State.failed
            simp only [after, List.countP_append]
            rw [countP_blame_ne hk, Nat.zero_add]

/-- In every run over a gallery with distinct paths: at most four tasks run at once next to the
loop; the calls of `dl_fetch` are made at least a second apart, in the order of passes and
entries, so at most ten for each entry; each allows for three attempts and one line of
`failures`; and once an entry is downloaded there are no more of any of them. -/
theorem effort_bounded {disk : Text → Option Bytes}
    (hpaths : (gallery.map GalleryFile.path).Nodup)
    (h : (machine sha1 gallery filecount disk).Reachable s) :
    running gallery s.loop ≤ 4 ∧
    s.fetches.Pairwise Later ∧
    (∀ i, s.asked i ≤ 10 ∧ s.created i ≤ 3 * s.asked i ∧ s.failed i ≤ s.asked i) ∧
    ∀ i info, gallery[i]? = some info → info ∈ s.loop.downloaded →
      ∀ s', ((machine sha1 gallery filecount disk).startAt s).Reachable s' →
        s'.asked i = s.asked i ∧ s'.created i = s.created i ∧ s'.failed i = s.failed i := by
  have hi := inv_of_reachable hpaths h
  refine ⟨hi.running, hi.fetches, ?_, ?_⟩
  · intro i
    have hcreates := hi.creates i
    have hfailures := hi.failures i
    exact ⟨asked_le hi i, by omega, by omega⟩
  · intro i info hinfo hdown s' hs'
    refine (hs'.invariant (I := fun t => Inv gallery t ∧ info ∈ t.loop.downloaded ∧
      t.asked i = s.asked i ∧ t.created i = s.created i ∧ t.failed i = s.failed i) ?_ ?_).2.2
    · rintro t rfl
      exact ⟨hi, hdown, rfl, rfl, rfl⟩
    · rintro t a t' ⟨ht, hmem, hasked, hcreated, hfailed⟩ hs
      rcases unchanged_of_step ht hs hinfo hmem with ⟨hmem', hasked', hcreated', hfailed'⟩
      exact ⟨step_inv hpaths ht hs, hmem', hasked'.trans hasked, hcreated'.trans hcreated,
        hfailed'.trans hfailed⟩

end

/-- A gallery of one file whose first task fails three times: the failure is reported once, the
second call is a second later, and after its attempt nothing more is created. -/
theorem effort_bounded_refused :
    ∃ s, (machine abcSha1 [listEntry 1 ['1'] (some abcDigest)] 1 fun _ => none).Reachable s ∧
      s.asked 0 = 2 ∧ s.created 0 = 4 ∧
      s.failures = [(0, ['h', '-', '1', '-', 'o', 'r', 'g'])] ∧ s.fetches.Pairwise Later ∧
      ∀ s', ((machine abcSha1 [listEntry 1 ['1'] (some abcDigest)] 1 fun _ => none).startAt
        s).Reachable s' → s'.created 0 = 4 := by
  let load (a : Gallery.Act) : Act := .load a (some ['h'])
  obtain ⟨s, hs, hasked, hcreated, hfailures, hdown⟩ := Machine.reachable_of_run
    (show (machine abcSha1 [listEntry 1 ['1'] (some abcDigest)] 1 fun _ => none).init
      { loop := start fun _ => none } from rfl)
    (List.flatten [([.begin, .exam true, .url true, .spawn] : List Gallery.Act).map load,
      (refusedAttempt 0 ++ refusedAttempt 0 ++ refusedAttempt 0).map load, [.tick 1000],
      ([.begin, .drain, .begin, .exam false, .url true, .spawn] : List Gallery.Act).map load,
      (abcAttempt 0).map load])
    (fun s => s.asked 0 = 2 ∧ s.created 0 = 4 ∧
      s.failures = [(0, ['h', '-', '1', '-', 'o', 'r', 'g'])] ∧
      listEntry 1 ['1'] (some abcDigest) ∈ s.loop.downloaded) (by decide +kernel)
  rcases effort_bounded (by decide) hs with ⟨-, hlater, -, hsilent⟩
  refine ⟨s, hs, hasked, hcreated, hfailures, hlater, ?_⟩
  intro s' hs'
  rw [(hsilent 0 _ rfl hdown s' hs').2.1, hcreated]

end Hath.Effort
