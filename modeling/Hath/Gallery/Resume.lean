import Hath.Gallery.Effort

/-!
# Hath.Gallery.Resume — a download that starts over what is there

A download that was broken off is taken up by a new run over the same directory. The first
pass examines every file: those that are there, with their hash if it is known, are counted
without a request and are not written again, whatever becomes of the others.

* `Resumed` — the state of an entry whose file was there;
* `resume_free` — what a whole run does with such entries.
-/

namespace Hath.Effort

open Lib Gallery

/-- `check_hash` opens the files it looks at. -/
def Opens (_ : State) : Act → Prop
  | .load (.exam opened) _ => opened = true
  | _ => True

instance (s : State) : ∀ a, Decidable (Opens s a)
  | .load (.exam _) _ => inferInstanceAs (Decidable (_ = true))
  | .load .begin _ | .load .stop _ | .load (.read _) _ | .load (.url _) _ | .load .spawn _
  | .load .drain _ | .load (.task _ _) _ | .tick _ => isTrue trivial

/-- The loop is past the entry, in the first pass as in any other. -/
def Behind (i : Nat) : Pc → Prop
  | .next k | .examining k _ | .hashing k _ _ _ | .fetching k _ | .acquiring k _ => i < k
  | .draining | .finished | .failed => True
  | .stopped => False

/-- Entry `i`, whose file was there at the start. -/
structure Resumed (gallery : List GalleryFile) (i : Nat) (info : GalleryFile) (content : Bytes)
    (s : State) : Prop where
  inv : Inv gallery s
  idle : s.asked i = 0
  file : s.loop.files info.path = some content
  hashing : ∀ a hasher off, s.loop.pc = .hashing i a hasher off → hasher = content.take off
  counted : 0 < s.loop.pass ∨ Behind i s.loop.pc → info ∈ s.loop.downloaded

section

variable {sha1 : Bytes → Digest} {gallery : List GalleryFile} {filecount : Nat} {s s' : State}
  {i : Nat} {info : GalleryFile} {content : Bytes}

/-- There is no request under way for the entry, and no task. -/
theorem Resumed.rest (hr : Resumed gallery i info content s) :
    wants s.loop.pc i = false ∧ s.loop.task i = none := by
  have hlive := hr.inv.failures i
  rw [hr.idle] at hlive
  unfold State.live at hlive
  constructor
  · by_contra hw
    rw [if_pos (by simpa using hw)] at hlive
    omega
  · cases ht : s.loop.task i with
    | none => rfl
    | some t =>
        rw [ht, Option.toList_some, List.length_singleton] at hlive
        omega

/-- A task writes to its own file only. -/
theorem taskStep_files {s s' : St} {j : Nat} {t : Task} {e : TaskEvent} {p : Text}
    (hs : taskStep sha1 s j t e = some s') (hp : p ≠ t.info.path) : s'.files p = s.files p := by
  have hfail (s₁ : St) : (failAttempt s₁ j t).files = s₁.files := by
    unfold failAttempt
    split <;> rfl
  cases e with
  | createErr | requestErr | streamErr =>
      simp only [taskStep, Option.ite_none_right_eq_some, Option.some.injEq] at hs
      rcases hs with ⟨-, rfl⟩
      rw [hfail]
  | writeErr =>
      simp only [taskStep, Option.ite_none_right_eq_some, Option.some.injEq] at hs
      rcases hs with ⟨-, rfl⟩
      rw [hfail]
      exact Function.update_of_ne hp _ _
  | created | chunk =>
      simp only [taskStep, Option.ite_none_right_eq_some, Option.some.injEq] at hs
      rcases hs with ⟨-, rfl⟩
      exact Function.update_of_ne hp _ _
  | requestOk | record =>
      simp only [taskStep, Option.ite_none_right_eq_some, Option.some.injEq] at hs
      rcases hs with ⟨-, rfl⟩
      rfl
  | streamEnd =>
      simp only [taskStep, Option.ite_none_right_eq_some] at hs
      rcases hs with ⟨-, hs⟩
      split at hs
      · obtain rfl := Option.some.inj hs
        rfl
      · obtain rfl := Option.some.inj hs
        rw [hfail]

/-- The loop writes to no file. -/
theorem step_files {s s' : St} {a : Gallery.Act} {p : Text}
    (hs : Gallery.step sha1 gallery filecount s a = some s')
    (hp : ∀ j t, s.task j = some t → p ≠ t.info.path) : s'.files p = s.files p := by
  cases a with
  | task j e =>
      simp only [Gallery.step] at hs
      split at hs
      · rename_i t ht
        exact taskStep_files hs (hp j t ht)
      · cases hs
  | begin | stop | exam | read | url | spawn | drain =>
      simp only [Gallery.step] at hs
      grind [accept, St.setPc, St.setTask]

theorem Resumed.file_of_step (hpaths : (gallery.map GalleryFile.path).Nodup)
    (hinfo : gallery[i]? = some info) (hr : Resumed gallery i info content s) {a : Gallery.Act}
    {loop : St} (hs : Gallery.step sha1 gallery filecount s.loop a = some loop) :
    loop.files info.path = some content := by
  rw [step_files hs, hr.file]
  intro j t ht
  have hj : i ≠ j := by
    rintro rfl
    rw [hr.rest.2] at ht
    cases ht
  exact path_ne_of_index hpaths hinfo (hr.inv.tasks j t ht).1 hj

/-- What a step of the loop leaves of `Resumed`: no request for the entry, and its place. -/
structure Moved (i : Nat) (info : GalleryFile) (content : Bytes) (s : St) : Prop where
  fetching : ∀ a, s.pc ≠ .fetching i a
  hashing : ∀ a hasher off, s.pc = .hashing i a hasher off → hasher = content.take off
  counted : 0 < s.pass ∨ Behind i s.pc → info ∈ s.downloaded

/-- No entry is in hand at this place. -/
theorem Moved.of_entry {s : St} (hpc : s.pc.entry = none)
    (hcounted : 0 < s.pass ∨ Behind i s.pc → info ∈ s.downloaded) : Moved i info content s where
  fetching a ha := by
    rw [ha] at hpc
    cases hpc
  hashing a hasher off ha := by
    rw [ha] at hpc
    cases hpc
  counted := hcounted

/-- The entry is counted as soon as its file is examined. -/
theorem moved_of_exam (hinfo : gallery[i]? = some info) (hr : Resumed gallery i info content s)
    {loop : St} (hs : Gallery.step sha1 gallery filecount s.loop (.exam true) = some loop) :
    Moved i info content loop := by
  simp only [Gallery.step] at hs
  split at hs
  · rename_i k a hpc
    have hentry := (hr.inv.entry k a (by rw [hpc, Pc.entry])).1
    have hcounted := hr.counted
    rw [hpc] at hcounted
    by_cases hk : k = i
    · subst hk
      obtain rfl : info = a := Option.some.inj (hinfo.symm.trans hentry)
      rw [hr.file] at hs
      simp only at hs
      split at hs
      · obtain rfl := Option.some.inj hs
        exact .of_entry rfl fun _ => Finset.mem_insert_self _ _
      · obtain rfl := Option.some.inj hs
        refine ⟨fun _ h => Pc.noConfusion h, ?_, hcounted⟩
        intro a hasher off ha
        obtain ⟨-, rfl, rfl⟩ : info = a ∧ [] = hasher ∧ 0 = off := by simpa using ha
        rfl
    · -- another entry
      have hlater (h : i < k + 1) : i < k := by omega
      split at hs
      · obtain rfl := Option.some.inj hs
        exact ⟨fun b hb => hk (Pc.fetching.inj hb).1, fun _ _ _ h => Pc.noConfusion h, hcounted⟩
      · split at hs
        · obtain rfl := Option.some.inj hs
          exact .of_entry rfl fun h => Finset.mem_insert_of_mem (hcounted (h.imp_right hlater))
        · obtain rfl := Option.some.inj hs
          exact ⟨fun _ h => Pc.noConfusion h,
            fun b hasher off hb => absurd (Pc.hashing.inj hb).1 hk, hcounted⟩
  · cases hs

/-- The reads end with the whole file, and its hash is right. -/
theorem moved_of_read {n : Nat} (hinfo : gallery[i]? = some info)
    (hhash : hashOk sha1 info content = true) (hr : Resumed gallery i info content s) {loop : St}
    (hs : Gallery.step sha1 gallery filecount s.loop (.read n) = some loop) :
    Moved i info content loop := by
  simp only [Gallery.step] at hs
  split at hs
  · rename_i k a hasher off hpc
    have hentry := (hr.inv.entry k a (by rw [hpc, Pc.entry])).1
    have hcounted := hr.counted
    rw [hpc] at hcounted
    split at hs
    · cases hs
    rename_i hn
    by_cases hk : k = i
    · subst hk
      obtain rfl : info = a := Option.some.inj (hinfo.symm.trans hentry)
      have hhasher : hasher = content.take off := hr.hashing info hasher off hpc
      rw [hr.file, Option.getD_some] at hs
      split at hs
      · rename_i hend
        have hall : hasher = content := by
          rw [hhasher, List.take_eq_self_iff]
          have hlen : ((content.drop off).take n).length = 0 := by rw [hend]; rfl
          rw [List.length_take, List.length_drop] at hlen
          omega
        obtain rfl := Option.some.inj hs
        rw [hall, if_pos hhash]
        exact .of_entry rfl fun _ => Finset.mem_insert_self _ _
      · obtain rfl := Option.some.inj hs
        refine ⟨fun _ h => Pc.noConfusion h, ?_, hcounted⟩
        intro a hasher' off' ha
        obtain ⟨-, rfl, rfl⟩ := (Pc.hashing.inj ha).2
        rw [hhasher, List.take_add, ← List.prefix_iff_eq_take.mp (List.take_prefix _ _)]
    · have hlater (h : i < k + 1) : i < k := by omega
      split at hs
      · obtain rfl := Option.some.inj hs
        split
        · exact .of_entry rfl fun h => Finset.mem_insert_of_mem (hcounted (h.imp_right hlater))
        · exact ⟨fun b hb => hk (Pc.fetching.inj hb).1, fun _ _ _ h => Pc.noConfusion h,
            hcounted⟩
      · obtain rfl := Option.some.inj hs
        exact ⟨fun _ h => Pc.noConfusion h,
            fun b hasher off hb => absurd (Pc.hashing.inj hb).1 hk, hcounted⟩
  · cases hs

theorem moved_of_step (hinfo : gallery[i]? = some info) (hhash : hashOk sha1 info content = true)
    (hr : Resumed gallery i info content s) {a : Gallery.Act} {host : Option Text} {loop : St}
    (hopens : Opens s (.load a host))
    (hs : Gallery.step sha1 gallery filecount s.loop a = some loop) :
    Moved i info content loop := by
  have hcounted := hr.counted
  have hwants := hr.rest.1
  cases a with
  | exam opened =>
      obtain rfl : opened = true := hopens
      exact moved_of_exam hinfo hr hs
  | read n => exact moved_of_read hinfo hhash hr hs
  | task j e =>
      have hlt : ∀ k t, s.loop.task k = some t → t.attempt < 3 := by
        intro k t ht
        exact (hr.inv.tasks k t ht).2.2.1
      have hsub := downloaded_subset hs hlt
      simp only [Gallery.step] at hs
      split at hs
      · rename_i t ht
        rcases taskStep_effect (hlt j t ht) hs with ⟨next, heffect⟩
        refine ⟨?_, ?_, ?_⟩
        · intro b hb
          rw [heffect.pc] at hb
          rw [hb] at hwants
          simp [wants] at hwants
        · rw [heffect.pc]
          exact hr.hashing
        · rw [heffect.pc, heffect.pass]
          exact fun h => hsub (hcounted h)
      · cases hs
  | begin =>
      simp only [Gallery.step] at hs
      split at hs
      · rename_i k hpc
        rw [hpc] at hcounted
        split at hs
        · rename_i a ha
          obtain rfl := Option.some.inj hs
          split
          · rename_i hdown
            refine .of_entry rfl ?_
            intro h
            by_cases hk : k = i
            · subst hk
              rw [Option.some.inj (hinfo.symm.trans ha)]
              exact hdown
            · exact hcounted (h.imp_right fun (hlt : i < k + 1) => show i < k by omega)
          · exact ⟨fun _ h => Pc.noConfusion h, fun _ _ _ h => Pc.noConfusion h, hcounted⟩
        · rename_i hend
          obtain rfl := Option.some.inj hs
          refine .of_entry rfl fun _ => hcounted (.inr ?_)
          have hlt := (List.getElem?_eq_some_iff.mp hinfo).1
          exact hlt.trans_le (List.getElem?_eq_none_iff.mp hend)
      · cases hs
  | stop =>
      simp only [Gallery.step] at hs
      split at hs
      · simp only [Option.ite_none_right_eq_some, Option.some.injEq] at hs
        rcases hs with ⟨-, rfl⟩
        exact .of_entry rfl fun h => hcounted (.inl (h.resolve_right id))
      · cases hs
  | url ok =>
      simp only [Gallery.step] at hs
      split at hs
      · rename_i k a hpc
        have hk : k ≠ i := by
          rw [hpc] at hwants
          simpa [wants] using hwants
        rw [hpc] at hcounted
        obtain rfl := Option.some.inj hs
        cases ok with
        | true => exact ⟨fun _ h => Pc.noConfusion h, fun _ _ _ h => Pc.noConfusion h, hcounted⟩
        | false =>
            refine .of_entry rfl fun h => hcounted (h.imp_right ?_)
            exact fun (hlt : i < k + 1) => show i < k by omega
      · cases hs
  | spawn =>
      simp only [Gallery.step] at hs
      split at hs
      · rename_i k a hpc
        have hk : k ≠ i := by
          rw [hpc] at hwants
          simpa [wants] using hwants
        rw [hpc] at hcounted
        simp only [Option.ite_none_right_eq_some, Option.some.injEq] at hs
        rcases hs with ⟨-, rfl⟩
        refine .of_entry rfl fun h => hcounted (h.imp_right ?_)
        exact fun (hlt : i < k + 1) => show i < k by omega
      · cases hs
  | drain =>
      simp only [Gallery.step, Option.ite_none_right_eq_some, Option.some.injEq] at hs
      rcases hs with ⟨⟨hpc, -⟩, rfl⟩
      rw [hpc] at hcounted
      have hdown := hcounted (.inr trivial)
      split
      · exact .of_entry rfl fun _ => hdown
      · split <;> exact .of_entry rfl fun _ => hdown

theorem asked_after {a : Gallery.Act} {host : Option Text} {loop : St}
    (h : ∀ f, loop.pc ≠ .fetching i f) : (after sha1 s a host loop).asked i = s.asked i := by
  cases a with
  | begin | stop | drain | spawn | task => rfl
  | url => simp only [after]; split <;> rfl
  | exam | read =>
      simp only [after]
      split
      · rename_i k f hpc
        unfold State.asked
        rw [List.countP_cons_of_neg]
        rw [decide_eq_true_eq]
        rintro rfl
        exact h f hpc
      · rfl

theorem after_loop {a : Gallery.Act} {host : Option Text} {loop : St} :
    (after sha1 s a host loop).loop = loop := by
  cases a with
  | begin | stop | drain | spawn | task => rfl
  | url | exam | read => simp only [after]; split <;> rfl

theorem resumed_step (hpaths : (gallery.map GalleryFile.path).Nodup)
    (hinfo : gallery[i]? = some info) (hhash : hashOk sha1 info content = true) {a : Act}
    (hr : Resumed gallery i info content s) (hopens : Opens s a)
    (hs : step sha1 gallery filecount s a = some s') : Resumed gallery i info content s' := by
  have hinv := step_inv hpaths hr.inv hs
  cases a with
  | tick n =>
      obtain rfl := Option.some.inj hs
      exact ⟨hinv, hr.idle, hr.file, hr.hashing, hr.counted⟩
  | load a host =>
      simp only [step, Option.ite_none_right_eq_some] at hs
      rcases hs with ⟨-, hs⟩
      rcases Option.map_eq_some_iff.mp hs with ⟨loop, hmove, rfl⟩
      have hmoved := moved_of_step hinfo hhash hr hopens hmove
      refine ⟨hinv, ?_, ?_, ?_, ?_⟩
      · rw [asked_after hmoved.fetching]
        exact hr.idle
      · rw [after_loop]
        exact hr.file_of_step hpaths hinfo hmove
      · rw [after_loop]
        exact hmoved.hashing
      · rw [after_loop]
        exact hmoved.counted

/-- In every run over a gallery with distinct paths in which the files that are there can be
opened: an entry whose file was there before the run, with the right hash if it is known, is
never asked for, its file is never created again and stays as it is, and the entry is counted
at the end of every pass. -/
theorem resume_free {disk : Text → Option Bytes} (hpaths : (gallery.map GalleryFile.path).Nodup)
    (h : (machine sha1 gallery filecount disk).Reach Opens s)
    (hinfo : gallery[i]? = some info) (hdisk : disk info.path = some content)
    (hhash : hashOk sha1 info content = true) :
    s.asked i = 0 ∧ s.created i = 0 ∧ s.loop.files info.path = some content ∧
      (s.loop.pc = .draining ∨ s.loop.pc = .finished ∨ s.loop.pc = .failed →
        info ∈ s.loop.downloaded) := by
  have hr : Resumed gallery i info content s := by
    refine h.invariant ?_ ?_
    · rintro s rfl
      refine ⟨init_inv disk, rfl, hdisk, nofun, ?_⟩
      rintro (hpass | hbehind)
      · exact absurd hpass (Nat.lt_irrefl 0)
      · exact absurd hbehind (Nat.not_lt_zero i)
    · intro s a s' hr hopens hs
      exact resumed_step hpaths hinfo hhash hr hopens hs
  have hcreates := hr.inv.creates i
  rw [hr.idle] at hcreates
  refine ⟨hr.idle, by omega, hr.file, ?_⟩
  rintro (hpc | hpc | hpc)
  all_goals
    refine hr.counted (.inr ?_)
    rw [hpc]
    trivial

end

/-- Two files, one of which is there. -/
theorem resume_free_second :
    ∃ s, (machine abcSha1 [listEntry 1 ['1'] (some abcDigest), listEntry 2 ['2'] (some abcDigest)] 2
        fun p => if p = ['1', '.', 'j', 'p', 'g'] then some [97, 98, 99] else none).Reach Opens s ∧
      s.loop.pc = .finished ∧ s.asked 1 = 1 ∧ s.asked 0 = 0 ∧ s.created 0 = 0 := by
  let load (a : Gallery.Act) : Act := .load a none
  obtain ⟨s, hs, hpc, hasked⟩ := Machine.reach_of_runIf Opens
    (show (machine abcSha1
        [listEntry 1 ['1'] (some abcDigest), listEntry 2 ['2'] (some abcDigest)] 2
        fun p => if p = ['1', '.', 'j', 'p', 'g'] then some [97, 98, 99] else none).init
      { loop := start fun p => if p = ['1', '.', 'j', 'p', 'g'] then some [97, 98, 99] else none }
      from rfl)
    (List.flatten [([.begin, .exam true, .read 2, .read 2, .read 2] : List Gallery.Act).map load,
      ([.begin, .exam true, .url true, .spawn] : List Gallery.Act).map load,
      (abcAttempt 1).map load, [.tick 1000], ([.begin, .drain] : List Gallery.Act).map load])
    (fun s => s.loop.pc = .finished ∧ s.asked 1 = 1) (by decide +kernel)
  rcases resume_free (by decide) hs (i := 0) rfl rfl (by decide) with ⟨hzero, hcreated, -, -⟩
  exact ⟨s, hs, hpc, hasked, hzero, hcreated⟩

end Hath.Effort
