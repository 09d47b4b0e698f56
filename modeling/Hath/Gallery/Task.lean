import Hath.Gallery.DirName
import Hath.Gallery.ShortLine

/-!
# Hath.Gallery.Task — the downloader task and its slot

`StartDownloader` spawns a task if the slot of `main` is empty. The task calls `run` and
empties the slot when `run` returns. A panic ends the task in between: the slot keeps the
handle of a task that is gone, and no later command starts another one.

`run` works on text from the server: the lines of `fetch_queue`, the suffix made from
them, whose length is subtracted from the limits, and the list of `dl_fetch`, whose first
element it takes. The loop over the files is that of `Hath.Gallery.Download`.

* `slotMachine` — the slot, the task and the events they see;
* `never_dead_of_sound`, `dead_of_dead` — which runs leave a dead task, and for how long;
* `canClear_of_alive` — a task that is not dead can come to its end, wherever it stands.
-/

namespace Hath.Gallery

open Lib

/-! ## The task and its slot -/

/-- What `run` uses of other code, with the client's key. -/
structure TaskEnv where
  /-- The build has overflow checks. -/
  checks : Bool
  sha1 : Bytes → Digest
  key : Text
  /-- `grapheme_indices`. -/
  graphemes : Text → List Text
  /-- `Url::parse` is `Ok`. -/
  parseUrl : Text → Bool

/-- Where `run` stands. -/
inductive Job where
  /-- In `fetch_queue`. -/
  | queueing
  /-- In the loop over the files of a gallery. -/
  | loading (info : GalleryMeta) (s : St)

/-- What a step of `run` comes to. -/
inductive Outcome where
  | goes (job : Job)
  | returns
  | panics

/-- A handle in the slot: of a task, or of one that has panicked. -/
inductive Handle where
  | task (job : Job)
  | dead

structure Slot where
  downloader : Option Handle := none
  isRunning : Bool := true

inductive Event where
  | startDownloader
  | shutdown
  /-- An answer of `fetch_queue`. `disk` is what the directory of the gallery holds, or
  `none` if it cannot be created. -/
  | fetchQueue (reply : Option (List Text)) (disk : Option (Text → Option Bytes))
  /-- An answer of `dl_fetch`. -/
  | dlFetch (reply : Option (List Text))
  /-- Another step of the loop or of its tasks. -/
  | load (a : Act)
  /-- The loop is over. -/
  | next

section

variable (env : TaskEnv)

/-- `Url::parse(&s[0]).ok()` on an answer, as far as there is a URL: `none` is a panic. -/
def urlOf : Option (List Text) → Option Bool
  | none => some false
  | some s => s[0]?.map env.parseUrl

/-- The steps of the loop that a shutdown and the answers of `dl_fetch` leave open. -/
def admits (isRunning : Bool) (info : GalleryMeta) (s : St) : Act → Bool
  | .url _ => false
  | .stop => !isRunning
  | .begin => isRunning || info.galleryFiles.length ≤ s.pc.cursor info.galleryFiles.length
  | _ => true

/-- The metadata of a gallery, up to the start of its loop. -/
def enter (isRunning : Bool) (raw : List Text) (disk : Option (Text → Option Bytes)) : Outcome :=
  match parser env.sha1 env.key raw with
  | .error .panic => .panics
  | .error (.err _) => .returns
  | .ok info =>
      if !isRunning then .returns
      else match info.dirName env.checks env.graphemes with
        | none => .panics
        | some _ =>
            match disk with
            | none => .returns
            | some files => .goes (.loading info (start files))

/-- One step of `run`. -/
def jobStep (isRunning : Bool) : Job → Event → Option Outcome
  | .queueing, .fetchQueue none _ => some .returns
  | .queueing, .fetchQueue (some raw) disk => some (enter env isRunning raw disk)
  | .loading info s, .dlFetch reply =>
      match s.pc, urlOf env reply with
      | .fetching _ _, none => some .panics
      | .fetching _ _, some ok =>
          (step env.sha1 info.galleryFiles info.filecount s (.url ok)).map fun s =>
            .goes (.loading info s)
      | _, _ => none
  | .loading info s, .load a =>
      if admits isRunning info s a then
        (step env.sha1 info.galleryFiles info.filecount s a).map fun s => .goes (.loading info s)
      else none
  | .loading _ s, .next =>
      match s.pc with
      | .finished | .failed => some (.goes .queueing)
      | .stopped => some .returns
      | _ => none
  | _, _ => none

/-- The slot after a step of its task: it is emptied when `run` returns. -/
def Slot.after (m : Slot) : Outcome → Slot
  | .goes job => { m with downloader := some (.task job) }
  | .returns => { m with downloader := none }
  | .panics => { m with downloader := some .dead }

/-- One step of the commands and the task. -/
def slotStep (m : Slot) : Event → Option Slot
  | .startDownloader =>
      match m.downloader with
      | none => some { m with downloader := some (.task .queueing) }
      | some _ => some m
  | .shutdown => some { m with isRunning := false }
  | e =>
      match m.downloader with
      | some (.task job) => (jobStep env m.isRunning job e).map m.after
      | _ => none

def slotMachine : Machine Slot Event where
  init m := m = {}
  step := slotStep env

/-- Text from the server that the task can work with: lines with the fields that are read,
a suffix with room for it in a name, and a list that is not empty. -/
def Sound : Event → Prop
  | .fetchQueue (some raw) _ => panicsAt .header raw = false ∧
      ∀ info, parser env.sha1 env.key raw = .ok info →
        (intText info.gid).length + info.xresTitle.length ≤ 122
  | .dlFetch reply => reply ≠ some []
  | _ => True

end

/-! ## Panics -/

section

variable {env : TaskEnv}

/-- The two subtractions of `run`. -/
theorem usizeSub_suffix_iff {raw : List Text} {info : GalleryMeta}
    (h : parser env.sha1 env.key raw = .ok info) :
    (usizeSub true 125 (utf8 info.nameSuffix).length ≠ none ∧
      usizeSub true 255 (utf8 info.nameSuffix).length ≠ none) ↔
      (intText info.gid).length + info.xresTitle.length ≤ 122 := by
  rw [utf8_nameSuffix_length h, nameSuffix_length]
  unfold usizeSub
  constructor
  · rintro ⟨hchars, -⟩
    split at hchars
    · omega
    · exact absurd rfl hchars
  · intro hle
    rw [if_pos (by omega), if_pos (by omega)]
    exact ⟨nofun, nofun⟩

theorem urlOf_eq_none_iff {reply : Option (List Text)} :
    urlOf env reply = none ↔ reply = some [] := by
  unfold urlOf
  cases reply with
  | none => simp
  | some s => cases s <;> simp

theorem enter_ne_panics (hgraphemes : ∀ t, (env.graphemes t).flatten = t) {isRunning : Bool}
    {raw : List Text} {disk : Option (Text → Option Bytes)}
    (h : Sound env (.fetchQueue (some raw) disk)) :
    enter env isRunning raw disk ≠ .panics := by
  rcases h with ⟨hlines, hsuffix⟩
  unfold enter
  split
  · rename_i hpanic
    rw [(parser_panic_iff env.sha1 env.key raw).mp hpanic] at hlines
    cases hlines
  · nofun
  · rename_i info hok
    split
    · nofun
    -- a short suffix leaves a name, whole or cut
    have hname : info.dirName env.checks env.graphemes ≠ none := by
      have hlen : info.nameSuffix.length ≤ 125 := by
        have := hsuffix info hok
        rw [nameSuffix_length]
        omega
      rcases dirName_of_le env.checks (hgraphemes info.title) (utf8_nameSuffix_length hok) hlen with
        ⟨-, hdir⟩ | ⟨-, _, -, -, hdir, -⟩
      · rw [hdir]
        nofun
      · rw [hdir]
        nofun
    split
    · contradiction
    · split <;> nofun

/-- With sound text, a step of `run` does not panic. -/
theorem jobStep_ne_panics (hgraphemes : ∀ t, (env.graphemes t).flatten = t) {isRunning : Bool}
    {job : Job} {e : Event} (h : Sound env e) :
    jobStep env isRunning job e ≠ some .panics := by
  unfold jobStep
  split
  · nofun
  · intro heq
    exact enter_ne_panics hgraphemes h (Option.some.inj heq)
  · split
    · rename_i hurl
      exact absurd (urlOf_eq_none_iff.mp hurl) h
    · simp
    · nofun
  · split
    · simp
    · nofun
  · split <;> nofun
  · nofun

/-- With overflow checks, a suffix that is too long panics. -/
theorem dirName_eq_none (hchecks : env.checks = true) {raw : List Text} {info : GalleryMeta}
    (h : parser env.sha1 env.key raw = .ok info)
    (hlong : ¬ (intText info.gid).length + info.xresTitle.length ≤ 122) :
    info.dirName env.checks env.graphemes = none := by
  have hnone : usizeSub true 125 (utf8 info.nameSuffix).length = none := by
    rw [utf8_nameSuffix_length h, nameSuffix_length]
    unfold usizeSub
    rw [if_neg (by omega)]
    rfl
  unfold GalleryMeta.dirName
  rw [hchecks]
  simp only [hnone, Option.bind_eq_bind, Option.bind_none]

/-- While the client runs, with overflow checks, a step panics exactly on unsound text. -/
theorem jobStep_panics_iff (hgraphemes : ∀ t, (env.graphemes t).flatten = t)
    (hchecks : env.checks = true) {job : Job} {e : Event} {outcome : Outcome}
    (h : jobStep env true job e = some outcome) :
    outcome = .panics ↔ ¬ Sound env e := by
  constructor
  · rintro rfl hsound
    exact jobStep_ne_panics hgraphemes hsound h
  · intro hunsound
    unfold jobStep at h
    split at h
    · exact absurd trivial hunsound
    · rename_i raw disk
      cases h
      unfold enter
      cases hparser : parser env.sha1 env.key raw with
      | error e =>
          cases e with
          | panic => rfl
          | err e =>
              -- an error is returned in time
              refine absurd ⟨panicsAt_eq_false (by rw [hparser]; nofun), ?_⟩ hunsound
              intro info hok
              rw [hparser] at hok
              cases hok
      | ok info =>
          have hlong : ¬ (intText info.gid).length + info.xresTitle.length ≤ 122 := by
            intro hle
            refine hunsound ⟨panicsAt_eq_false (by rw [hparser]; nofun), ?_⟩
            intro info' hok
            rw [hparser] at hok
            cases hok
            exact hle
          simp only [dirName_eq_none hchecks hparser hlong]
          rfl
    · rename_i reply
      have hempty : reply = some [] := not_not.mp hunsound
      rw [urlOf_eq_none_iff.mpr hempty] at h
      split at h
      · exact (Option.some.inj h).symm
      · contradiction
      · cases h
    · exact absurd trivial hunsound
    · exact absurd trivial hunsound
    · cases h

/-- What a step does to the slot. -/
theorem slotStep_downloader {m m' : Slot} {e : Event}
    (h : slotStep env m e = some m') :
    m'.downloader = m.downloader ∨
    (m.downloader = none ∧ m'.downloader = some (.task .queueing)) ∨
    ∃ job outcome, m.downloader = some (.task job) ∧
      jobStep env m.isRunning job e = some outcome ∧
      m' = m.after outcome := by
  unfold slotStep at h
  split at h
  · split at h
    · rename_i hnone
      cases h
      exact .inr (.inl ⟨hnone, rfl⟩)
    · cases h
      exact .inl rfl
  · cases h
    exact .inl rfl
  · split at h
    · rename_i job hjob
      rcases Option.map_eq_some_iff.mp h with ⟨outcome, hout, rfl⟩
      exact .inr (.inr ⟨job, outcome, hjob, hout, rfl⟩)
    · cases h

/-- A run whose server text is sound never leaves a dead task. -/
theorem never_dead_of_sound (hgraphemes : ∀ t, (env.graphemes t).flatten = t) {m : Slot}
    (h : (slotMachine env).Reach (fun _ => Sound env) m) :
    m.downloader ≠ some .dead := by
  refine h.invariant (I := fun m => m.downloader ≠ some .dead) ?_ ?_
  · rintro m rfl
    nofun
  · intro m e m' hm hsound hs
    rcases slotStep_downloader hs with heq | ⟨-, heq⟩ | ⟨job, outcome, -, hout, rfl⟩
    · rw [heq]
      exact hm
    · rw [heq]
      nofun
    · cases outcome with
      | goes job => nofun
      | returns => nofun
      | panics => exact absurd hout (jobStep_ne_panics hgraphemes hsound)

/-- A dead task stays in the slot. -/
theorem dead_of_dead {ok : Slot → Event → Prop} {m m' : Slot} (hdead : m.downloader = some .dead)
    (h : ((slotMachine env).startAt m).Reach ok m') :
    m'.downloader = some .dead := by
  refine h.invariant (I := fun m => m.downloader = some .dead) ?_ ?_
  · rintro m rfl
    exact hdead
  · intro m e m' hm _ hs
    rcases slotStep_downloader hs with heq | ⟨hnone, -⟩ | ⟨job, -, hjob, -, -⟩
    · rw [heq]
      exact hm
    · rw [hm] at hnone
      cases hnone
    · rw [hm] at hjob
      cases hjob

end

/-! ## Clearing the slot -/

section

variable (env : TaskEnv) (isRunning : Bool) (info : GalleryMeta)

/-- Sound steps lead from one state to the other. -/
def Leads (m m' : Slot) : Prop :=
  ((slotMachine env).startAt m).Reach (fun _ => Sound env) m'

/-- Sound steps can empty the slot, and leave the client as it is. -/
def CanClear (m : Slot) : Prop := Leads env m { m with downloader := none }

/-- The slot with the loop of a gallery. -/
def held (s : St) : Slot where
  downloader := some (.task (.loading info s))
  isRunning := isRunning

/-- Sound steps lead the loop to `pc`, in the same pass. -/
def LoopsTo (s : St) (pc : Pc) : Prop :=
  ∃ s', Leads env (held isRunning info s) (held isRunning info s') ∧ s'.pc = pc ∧ s'.pass = s.pass

variable {env isRunning info} {m m' m'' : Slot} {s s' : St}

theorem Leads.trans (h : Leads env m m') (h' : Leads env m' m'') : Leads env m m'' :=
  Machine.Reach.trans h h'

theorem Leads.single {e : Event} (hsound : Sound env e) (h : slotStep env m e = some m') :
    Leads env m m' := .step e (.init rfl) hsound h

/-- A step of the loop that needs no answer. -/
theorem Leads.load {a : Act} (hadmits : admits isRunning info s a = true)
    (h : step env.sha1 info.galleryFiles info.filecount s a = some s') :
    Leads env (held isRunning info s) (held isRunning info s') := by
  refine Leads.single (e := .load a) trivial ?_
  show (if admits isRunning info s a = true then _ else none).map _ = _
  rw [if_pos hadmits, h]
  rfl

theorem LoopsTo.of_leads {pc : Pc} (h : LoopsTo env isRunning info s' pc)
    (hleads : Leads env (held isRunning info s) (held isRunning info s'))
    (hpass : s'.pass = s.pass) : LoopsTo env isRunning info s pc := by
  rcases h with ⟨s'', hleads', hpc, hpass'⟩
  exact ⟨s'', hleads.trans hleads', hpc, hpass'.trans hpass⟩

/-! ### Tasks -/

/-- The event with which an attempt ends. -/
def failure : TaskPc → TaskEvent
  | .creating => .createErr
  | .requesting => .requestErr
  | .streaming => .streamErr
  | .succeeded => .record

theorem taskStep_failure {j : Nat} {t : Task} (hpc : t.pc ≠ .succeeded) :
    taskStep env.sha1 s j t (failure t.pc) = some (failAttempt s j t) := by
  cases hcase : t.pc with
  | creating => exact if_pos hcase
  | requesting => exact if_pos hcase
  | streaming => exact if_pos hcase
  | succeeded => exact absurd hcase hpc

/-- A task can end, or go on to its next attempt. -/
theorem attempt_ends {j : Nat} {t : Task} (ht : s.task j = some t) :
    ∃ s', Leads env (held isRunning info s) (held isRunning info s') ∧
      s'.pc = s.pc ∧ s'.pass = s.pass ∧
      (s'.task = Function.update s.task j none ∨ t.attempt + 1 < 3 ∧
        ∃ t', t'.attempt = t.attempt + 1 ∧ s'.task = Function.update s.task j (some t')) := by
  have hstep : ∀ s', taskStep env.sha1 s j t (failure t.pc) = some s' →
      Leads env (held isRunning info s) (held isRunning info s') := by
    intro s' h
    refine Leads.load (a := .task j (failure t.pc)) rfl ?_
    simp only [step, ht]
    exact h
  by_cases hpc : t.pc = .succeeded
  · refine ⟨_, hstep ({ s with downloaded := insert t.info s.downloaded }.setTask j none) ?_,
      rfl, rfl, .inl rfl⟩
    rw [hpc]
    exact if_pos hpc
  · refine ⟨_, hstep _ (taskStep_failure hpc), ?_⟩
    unfold failAttempt
    split
    · rename_i hmore
      exact ⟨rfl, rfl, .inr ⟨hmore, _, rfl, rfl⟩⟩
    · exact ⟨rfl, rfl, .inl rfl⟩

/-- A task of the loop can end: its attempts fail. -/
theorem task_ends {j : Nat} {t : Task} (ht : s.task j = some t) :
    ∃ s', Leads env (held isRunning info s) (held isRunning info s') ∧
      s'.pc = s.pc ∧ s'.pass = s.pass ∧ s'.task = Function.update s.task j none := by
  induction hn : 3 - t.attempt generalizing s t with
  | zero =>
      rcases attempt_ends ht with ⟨s', hleads, hpc, hpass, htask | ⟨hmore, -⟩⟩
      · exact ⟨s', hleads, hpc, hpass, htask⟩
      · omega
  | succ n ih =>
      rcases attempt_ends ht with ⟨s', hleads, hpc, hpass, htask | ⟨hmore, t', hattempt, htask⟩⟩
      · exact ⟨s', hleads, hpc, hpass, htask⟩
      · have ht' : s'.task j = some t' := by rw [htask, Function.update_self]
        rcases ih ht' (by omega) with ⟨s'', hleads', hpc', hpass', htask'⟩
        refine ⟨s'', hleads.trans hleads', hpc'.trans hpc, hpass'.trans hpass, ?_⟩
        rw [htask', htask, Function.update_idem]

/-- The first tasks of the loop can end. -/
theorem first_tasks_end (s : St) (n : Nat) :
    ∃ s', Leads env (held isRunning info s) (held isRunning info s') ∧
      s'.pc = s.pc ∧ s'.pass = s.pass ∧ ∀ j < n, s'.task j = none := by
  induction n with
  | zero => exact ⟨s, .init rfl, rfl, rfl, nofun⟩
  | succ n ih =>
      rcases ih with ⟨s', hleads, hpc, hpass, hnone⟩
      cases ht : s'.task n with
      | none =>
          refine ⟨s', hleads, hpc, hpass, ?_⟩
          intro j hj
          rcases Nat.lt_succ_iff_lt_or_eq.mp hj with hlt | rfl
          · exact hnone j hlt
          · exact ht
      | some t =>
          rcases task_ends ht with ⟨s'', hleads', hpc', hpass', htask⟩
          refine ⟨s'', hleads.trans hleads', hpc'.trans hpc, hpass'.trans hpass, ?_⟩
          intro j hj
          rw [htask]
          rcases Nat.lt_succ_iff_lt_or_eq.mp hj with hlt | rfl
          · rw [Function.update_of_ne (Nat.ne_of_lt hlt)]
            exact hnone j hlt
          · exact Function.update_self ..

theorem tasks_end (s : St) :
    ∃ s', Leads env (held isRunning info s) (held isRunning info s') ∧
      s'.pc = s.pc ∧ s'.pass = s.pass ∧ running info.galleryFiles s' = 0 := by
  rcases first_tasks_end s info.galleryFiles.length with ⟨s', hleads, hpc, hpass, hnone⟩
  refine ⟨s', hleads, hpc, hpass, ?_⟩
  unfold running
  rw [List.countP_eq_zero]
  intro j hj
  rw [hnone j (List.mem_range.mp hj)]
  nofun

/-! ### Files -/

section

variable {i : Nat} {file : GalleryFile}

/-- No URL for the file: the loop goes on. -/
theorem fetching_passes (hpc : s.pc = .fetching i file) :
    LoopsTo env isRunning info s (.next (i + 1)) := by
  refine ⟨s.setPc (.next (i + 1)), Leads.single (e := .dlFetch none) nofun ?_, rfl, rfl⟩
  show (jobStep env isRunning (.loading info s) (.dlFetch none)).map _ = _
  simp only [jobStep, hpc, urlOf, step]
  rfl

theorem examining_passes (hpc : s.pc = .examining i file) :
    LoopsTo env isRunning info s (.next (i + 1)) := by
  have hexam (s' : St)
      (h : step env.sha1 info.galleryFiles info.filecount s (.exam false) = some s') :
      Leads env (held isRunning info s) (held isRunning info s') := Leads.load rfl h
  cases hfile : s.files file.path with
  | none =>
      refine (fetching_passes rfl).of_leads (hexam (s.setPc (.fetching i file)) ?_) rfl
      simp only [step, hpc, hfile]
  | some content =>
      by_cases hknown : file.expectedSha1Hash = none
      · refine ⟨accept s i file, hexam _ ?_, rfl, rfl⟩
        simp only [step, hpc, hfile, if_pos hknown]
      · refine (fetching_passes rfl).of_leads (hexam (s.setPc (.fetching i file)) ?_) rfl
        simp only [step, hpc, hfile, if_neg hknown]
        rfl

/-- The last read of `check_hash`. -/
theorem hashed_passes {hasher : Bytes} {off : Nat} (hpc : s.pc = .hashing i file hasher off)
    (hoff : ((s.files file.path).getD []).length ≤ off) :
    LoopsTo env isRunning info s (.next (i + 1)) := by
  have hdata : (((s.files file.path).getD []).drop off).take 1 = [] := by
    rw [List.drop_eq_nil_of_le hoff, List.take_nil]
  have hread (s' : St) (h : step env.sha1 info.galleryFiles info.filecount s (.read 1) = some s') :
      Leads env (held isRunning info s) (held isRunning info s') := Leads.load rfl h
  by_cases hok : hashOk env.sha1 file hasher = true
  · refine ⟨accept s i file, hread _ ?_, rfl, rfl⟩
    simp only [step, hpc, hdata, if_pos hok, if_true]
    rfl
  · refine (fetching_passes rfl).of_leads (hread (s.setPc (.fetching i file)) ?_) rfl
    simp only [step, hpc, hdata, if_neg hok, if_true]
    rfl

theorem hashing_passes {hasher : Bytes} {off : Nat} (hpc : s.pc = .hashing i file hasher off) :
    LoopsTo env isRunning info s (.next (i + 1)) := by
  obtain ⟨content, hcontent⟩ : ∃ content, (s.files file.path).getD [] = content := ⟨_, rfl⟩
  by_cases hoff : content.length ≤ off
  · exact hashed_passes hpc (hcontent ▸ hoff)
  · -- one read takes the rest of the file
    have hlen : (content.drop off).length = content.length - off := List.length_drop
    have hrest : content.drop off ≠ [] := by
      intro hnil
      rw [hnil, List.length_nil] at hlen
      omega
    have hread : Leads env (held isRunning info s) (held isRunning info
        (s.setPc (.hashing i file (hasher ++ content.drop off)
          (off + (content.drop off).length)))) := by
      refine Leads.load (a := .read content.length) rfl ?_
      have hdata : (content.drop off).take content.length = content.drop off :=
        List.take_of_length_le (by omega)
      simp only [step, hpc, hcontent, hdata]
      rw [if_neg (by omega), if_neg hrest]
    refine (hashed_passes rfl ?_).of_leads hread rfl
    show ((s.files file.path).getD []).length ≤ off + (content.drop off).length
    rw [hcontent, hlen]
    omega

theorem acquiring_passes (hpc : s.pc = .acquiring i file) :
    LoopsTo env isRunning info s (.next (i + 1)) := by
  rcases tasks_end s with ⟨s', hleads, hpc', hpass, hrunning⟩
  refine ⟨(s'.setTask i (some (freshTask file))).setPc (.next (i + 1)), hleads.trans ?_, rfl, hpass⟩
  refine Leads.load (a := .spawn) rfl ?_
  simp only [step, hpc', hpc]
  rw [if_pos (by omega)]

end

/-- From file to file to the end of the pass, unless the client shuts down. -/
theorem next_ends {i : Nat} (hpc : s.pc = .next i) :
    LoopsTo env isRunning info s .stopped ∨ LoopsTo env isRunning info s .draining := by
  induction hn : info.galleryFiles.length - i generalizing i s with
  | zero =>
      have hnone : info.galleryFiles[i]? = none := List.getElem?_eq_none (by omega)
      refine .inr ⟨s.setPc .draining, Leads.load (a := .begin) ?_ ?_, rfl, rfl⟩
      · simp only [admits, hpc, Pc.cursor, Bool.or_eq_true, decide_eq_true_eq]
        omega
      · simp only [step, hpc, hnone]
  | succ n ih =>
      have hi : i < info.galleryFiles.length := by omega
      have hrest (h : LoopsTo env isRunning info s (.next (i + 1))) :
          LoopsTo env isRunning info s .stopped ∨ LoopsTo env isRunning info s .draining := by
        rcases h with ⟨s', hleads, hpc', hpass⟩
        rcases ih hpc' (by omega) with hstop | hdrain
        · exact .inl (hstop.of_leads hleads hpass)
        · exact .inr (hdrain.of_leads hleads hpass)
      cases hrunning : isRunning with
      | false =>
          refine .inl ⟨s.setPc .stopped, Leads.load (a := .stop) rfl ?_, rfl, rfl⟩
          simp only [step, hpc, hi, if_true]
      | true =>
          subst hrunning
          have hbegin (s' : St)
              (h : step env.sha1 info.galleryFiles info.filecount s .begin = some s') :
              Leads env (held true info s) (held true info s') := Leads.load rfl h
          apply hrest
          by_cases hdone : info.galleryFiles[i] ∈ s.downloaded
          · refine ⟨s.setPc (.next (i + 1)), hbegin _ ?_, rfl, rfl⟩
            simp only [step, hpc, List.getElem?_eq_getElem hi, if_pos hdone]
          · refine (examining_passes rfl).of_leads
              (hbegin (s.setPc (.examining i info.galleryFiles[i])) ?_) rfl
            simp only [step, hpc, List.getElem?_eq_getElem hi, if_neg hdone]

/-! ### The end -/

/-- `run` returns when there is no gallery left. -/
theorem canClear_queueing (isRunning : Bool) :
    CanClear env ⟨some (.task .queueing), isRunning⟩ :=
  Leads.single (e := .fetchQueue none none) trivial rfl

/-- The loop is over. -/
theorem canClear_over (hpc : s.pc = .finished ∨ s.pc = .failed ∨ s.pc = .stopped) :
    CanClear env (held isRunning info s) := by
  have hnext (outcome : Outcome)
      (h : jobStep env isRunning (.loading info s) .next = some outcome) :
      Leads env (held isRunning info s) ((held isRunning info s).after outcome) := by
    refine Leads.single (e := .next) trivial ?_
    show (jobStep env isRunning (.loading info s) .next).map _ = _
    rw [h]
    rfl
  rcases hpc with hpc | hpc | hpc
  · refine (hnext (.goes .queueing) ?_).trans (canClear_queueing isRunning)
    simp only [jobStep, hpc]
  · refine (hnext (.goes .queueing) ?_).trans (canClear_queueing isRunning)
    simp only [jobStep, hpc]
  · refine hnext .returns ?_
    simp only [jobStep, hpc]

/-- The end of a pass. -/
theorem pass_ends (hpc : s.pc = .draining) :
    CanClear env (held isRunning info s) ∨
    s.pass + 1 < 10 ∧ ∃ s', Leads env (held isRunning info s) (held isRunning info s') ∧
      s'.pc = .next 0 ∧ s'.pass = s.pass + 1 := by
  rcases tasks_end s with ⟨s₁, hleads, hpc₁, hpass, hrunning⟩
  have hdrain : Leads env (held isRunning info s₁) (held isRunning info
      (if s₁.downloaded.card = info.filecount then s₁.setPc .finished
        else if s₁.pass + 1 < 10 then { s₁ with pass := s₁.pass + 1, pc := .next 0 }
        else s₁.setPc .failed)) :=
    Leads.load (a := .drain) rfl (if_pos ⟨hpc₁.trans hpc, hrunning⟩)
  have hleads := hleads.trans hdrain
  split_ifs at hleads with hcard hmore
  · exact .inl (hleads.trans (canClear_over (.inl rfl)))
  · exact .inr ⟨hpass ▸ hmore, _, hleads, rfl, congrArg (· + 1) hpass⟩
  · exact .inl (hleads.trans (canClear_over (.inr (.inl rfl))))

/-- At most ten passes follow. -/
theorem canClear_draining (hpc : s.pc = .draining) : CanClear env (held isRunning info s) := by
  induction hn : 10 - s.pass generalizing s with
  | zero =>
      rcases pass_ends hpc with hclear | ⟨hmore, -⟩
      · exact hclear
      · omega
  | succ n ih =>
      rcases pass_ends hpc with hclear | ⟨-, s', hleads, hpc', hpass⟩
      · exact hclear
      · rcases next_ends hpc' with ⟨s'', hleads', hpc'', -⟩ | ⟨s'', hleads', hpc'', hpass'⟩
        · exact (hleads.trans hleads').trans (canClear_over (.inr (.inr hpc'')))
        · exact (hleads.trans hleads').trans (ih hpc'' (by omega))

theorem canClear_next {i : Nat} (h : LoopsTo env isRunning info s (.next i)) :
    CanClear env (held isRunning info s) := by
  rcases h with ⟨s', hleads, hpc, -⟩
  rcases next_ends hpc with ⟨s'', hleads', hpc', -⟩ | ⟨s'', hleads', hpc', -⟩
  · exact (hleads.trans hleads').trans (canClear_over (.inr (.inr hpc')))
  · exact (hleads.trans hleads').trans (canClear_draining hpc')

/-- The loop of a gallery can end wherever it stands. -/
theorem canClear_held (s : St) : CanClear env (held isRunning info s) := by
  cases hpc : s.pc with
  | next i => exact canClear_next ⟨s, .init rfl, hpc, rfl⟩
  | examining i file => exact canClear_next (examining_passes hpc)
  | hashing i file hasher off => exact canClear_next (hashing_passes hpc)
  | fetching i file => exact canClear_next (fetching_passes hpc)
  | acquiring i file => exact canClear_next (acquiring_passes hpc)
  | draining => exact canClear_draining hpc
  | finished => exact canClear_over (.inl hpc)
  | failed => exact canClear_over (.inr (.inl hpc))
  | stopped => exact canClear_over (.inr (.inr hpc))

/-- A slot without a dead task can be emptied. -/
theorem canClear_of_alive (h : m.downloader ≠ some .dead) : CanClear env m := by
  rcases m with ⟨downloader, isRunning⟩
  cases downloader with
  | none => exact .init rfl
  | some handle =>
      cases handle with
      | dead => exact absurd rfl h
      | task job =>
          cases job with
          | queueing => exact canClear_queueing isRunning
          | loading info s => exact canClear_held s

end

/-! ## The server's text -/

/-- **The downloader survives sound text, and only that.** The parser panics exactly on
short lines, the subtractions are in range exactly for short suffixes, and there is a URL
exactly in a list that is not empty. A run of sound steps never has a dead task in the
slot, and the slot can always be emptied: there is a way to the end of the task. That the task
gets there is not said, since a request or a read may take for ever. While the client runs,
with overflow checks, any other step of the task panics; then the slot is never emptied. -/
theorem downloader_survives_sound (env : TaskEnv)
    (hgraphemes : ∀ t, (env.graphemes t).flatten = t) :
    (∀ raw, parser env.sha1 env.key raw ≠ .error .panic ↔ panicsAt .header raw = false) ∧
    (∀ raw info, parser env.sha1 env.key raw = .ok info →
      ((usizeSub true 125 (utf8 info.nameSuffix).length ≠ none ∧
        usizeSub true 255 (utf8 info.nameSuffix).length ≠ none) ↔
        (intText info.gid).length + info.xresTitle.length ≤ 122)) ∧
    (∀ reply, urlOf env reply ≠ none ↔ reply ≠ some []) ∧
    (∀ m, (slotMachine env).Reach (fun _ => Sound env) m →
      m.downloader ≠ some .dead ∧ CanClear env m) ∧
    (env.checks = true → ∀ job e outcome, jobStep env true job e = some outcome →
      (outcome ≠ .panics ↔ Sound env e)) ∧
    (∀ m m', m.downloader = some .dead → ((slotMachine env).startAt m).Reachable m' →
      m'.downloader = some .dead) := by
  refine ⟨?_, ?_, ?_, ?_, ?_, ?_⟩
  · intro raw
    rw [ne_eq, parser_panic_iff, Bool.not_eq_true]
  · intro raw info h
    exact usizeSub_suffix_iff h
  · intro reply
    exact urlOf_eq_none_iff.not
  · intro m hm
    have halive := never_dead_of_sound hgraphemes hm
    exact ⟨halive, canClear_of_alive halive⟩
  · intro hchecks job e outcome h
    rw [ne_eq, jobStep_panics_iff hgraphemes hchecks h, not_not]
  · intro m m' hdead h
    exact dead_of_dead hdead h

/-- A debug build, for plain titles. -/
def plainTaskEnv : TaskEnv where
  checks := true
  sha1 := gallerySha1
  key := "key".toList
  graphemes := (·.map ([·]))
  parseUrl := ("https://".toList.isPrefixOf ·)

/-- A line `GID` without a value, and the slot is taken for ever. -/
theorem bare_gid_panics :
    parser gallerySha1 "key".toList ["GID".toList] = .error .panic ∧
    ∃ m, (slotMachine plainTaskEnv).Reachable m ∧
      ∀ m', ((slotMachine plainTaskEnv).startAt m).Reachable m' →
        m'.downloader = some .dead := by
  refine ⟨by decide +kernel, ⟨some .dead, true⟩, ?_, fun m' h => dead_of_dead rfl h⟩
  have hstart : (slotMachine plainTaskEnv).Reachable ⟨some (.task .queueing), true⟩ :=
    .step .startDownloader (.init rfl) trivial rfl
  exact .step (.fetchQueue (some ["GID".toList]) none) hstart trivial rfl

/-- The climbing gallery does not stop the downloader. -/
theorem downloader_survives_climbing :
    ∃ m, (slotMachine plainTaskEnv).Reachable m ∧
      (∃ s, m.downloader = some (.task (.loading climbingMeta s))) ∧ CanClear plainTaskEnv m := by
  have hparser : parser gallerySha1 "key".toList climbingGallery = .ok climbingMeta := by
    decide +kernel
  have hname : climbingMeta.dirName true (·.map ([·])) = some ".... [5]".toList := by
    decide +kernel
  have hsound : Sound plainTaskEnv
      (.fetchQueue (some climbingGallery) (some fun _ => none)) := by
    refine ⟨by decide +kernel, ?_⟩
    intro info hok
    cases Except.ok.inj (hparser.symm.trans hok)
    decide +kernel
  have henter : enter plainTaskEnv true climbingGallery (some fun _ => none) =
      .goes (.loading climbingMeta (start fun _ => none)) := by
    unfold enter
    simp only [plainTaskEnv, hparser, hname]
    rfl
  have hreach : (slotMachine plainTaskEnv).Reach (fun _ => Sound plainTaskEnv)
      ⟨some (.task (.loading climbingMeta (start fun _ => none))), true⟩ := by
    refine .step (.fetchQueue (some climbingGallery) (some fun _ => none))
      (.step .startDownloader (.init rfl) trivial rfl) hsound ?_
    show (some (enter plainTaskEnv true climbingGallery (some fun _ => none))).map _ = _
    rw [henter]
    rfl
  have hflatten (t : Text) : (plainTaskEnv.graphemes t).flatten = t := List.flatMap_singleton' t
  exact ⟨_, hreach.reachable, ⟨_, rfl⟩,
    ((downloader_survives_sound plainTaskEnv hflatten).2.2.2.1 _ hreach).2⟩

end Hath.Gallery
