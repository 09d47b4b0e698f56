import Hath.Route.Proxied

/-!
# Hath.Route.Bounded — the declared size of a proxied download

The response to a cache miss carries `file_size` as its Content-Length, and so should
bound what the download stores and what its readers yield. The worker compares its
progress with `file_size` only after a body has ended, and only for equality, and the
reader's end test is an equality too: a body that is longer than `file_size` is stored
and passed on in full.

* `Fits` — no chunk takes its body past `file_size`;
* `Within` — progress, temp file and readers keep to `file_size`;
* `download_within_size` — `Within` in every run that `Fits`, and the first chunk that
  does not fit breaks it.
-/

namespace Hath.Proxied

open Lib

/-! ## The bound -/

section

variable (info : CacheFileInfo) {R : Type}

/-- The body received so far in this attempt, this chunk included, is not longer than
the file. -/
def Fits (s : St R) : Act R → Prop
  | .worker (.chunk bytes) => s.worker.download + bytes.length ≤ info.fileSize
  | _ => True

/-- Nothing exceeds the Content-Length. -/
structure Within (s : St R) : Prop where
  progress : s.worker.progress ≤ info.fileSize
  stored : s.worker.file.length ≤ info.fileSize
  yielded : ∀ r, (s.readers r).out.length ≤ info.fileSize

end

/-- A reader counts what it yields, and yields nothing that has not landed. -/
structure Follows (landed : Nat) (d : Reader) : Prop where
  counted : d.out.length = d.readOff
  behind : d.readOff ≤ landed
  unread : d.pc.opened = false → d.readOff = 0

/-- The bound as an invariant. A reader may see a write before it is announced, so the
data in flight has to fit as well. -/
structure Bounded (sha1 : Bytes → Digest) (info : CacheFileInfo) {R : Type} (s : St R) :
    Prop where
  worker : Worker.Inv sha1 info s.worker
  fits : (written s.worker).length ≤ info.fileSize
  landed : s.landed ≤ (written s.worker).length
  readers : ∀ r, Follows s.landed (s.readers r)

section

variable {sha1 : Bytes → Digest} {info : CacheFileInfo} {sources : Nat} {R : Type}

theorem file_length_le_written (w : Worker.St) : w.file.length ≤ (written w).length := by
  unfold written
  split
  · rw [List.length_append]
    exact Nat.le_add_right _ _
  · exact le_refl _

theorem Bounded.within {s : St R} (h : Bounded sha1 info s) : Within info s := by
  have hfile : s.worker.file.length ≤ info.fileSize :=
    (file_length_le_written s.worker).trans h.fits
  refine ⟨h.worker.stored.trans hfile, hfile, ?_⟩
  intro r
  calc (s.readers r).out.length = (s.readers r).readOff := (h.readers r).counted
    _ ≤ s.landed := (h.readers r).behind
    _ ≤ (written s.worker).length := h.landed
    _ ≤ info.fileSize := h.fits

/-! ## The worker -/

/-- Only a chunk brings the worker to a write. -/
theorem chunk_of_writing {w w' : Worker.St} {e : Worker.Event} {data : Bytes}
    (hs : Worker.step sha1 info sources w e = some w') (hpc : w'.pc = .writing data) :
    ∃ bytes, e = .chunk bytes ∧ w'.download = w.download + bytes.length := by
  rcases Worker.step_cases sha1 info sources hs with ⟨bytes, rfl, -, rfl⟩ | ⟨data, -, rfl⟩ |
    ⟨data, n, -, rfl⟩ | hquiet
  · refine ⟨bytes, rfl, ?_⟩
    unfold Worker.onChunk at hpc ⊢
    dsimp only at hpc ⊢
    split_ifs at hpc ⊢
    · rfl
    · rfl
  · cases hpc
  · cases hpc
  · exact absurd hpc (hquiet.pc data)

/-- A step stores no more than `file_size` bytes if its chunk fits. -/
theorem written_le_step {w w' : Worker.St} {e : Worker.Event} (hi : Worker.Inv sha1 info w)
    (hw : (written w).length ≤ info.fileSize)
    (hfits : ∀ bytes, e = .chunk bytes → w.download + bytes.length ≤ info.fileSize)
    (hs : Worker.step sha1 info sources w e = some w') :
    (written w').length ≤ info.fileSize := by
  have hi' := Worker.step_inv sha1 info sources hi hs
  have hfile : w'.file.length ≤ info.fileSize := (file_step hi hs).length_le.trans hw
  unfold written
  split
  · -- the write ends where the body does
    rename_i data hpc
    rcases chunk_of_writing hs hpc with ⟨bytes, rfl, hdownload⟩
    calc (w'.file ++ data).length = w'.progress + data.length := by
          rw [List.length_append, hi'.length (by simp [hpc])]
      _ = w.download + bytes.length := by rw [← hi'.tail data hpc, hdownload]
      _ ≤ info.fileSize := hfits bytes rfl
  · exact hfile

/-- A chunk that does not fit is written out to its last byte. -/
theorem overshoot (sources : Nat) {w : Worker.St} (hi : Worker.Inv sha1 info w)
    (hpc : w.pc = .streaming) {bytes : Bytes} (hle : w.progress ≤ info.fileSize)
    (hlong : info.fileSize < w.download + bytes.length) :
    ∃ w₁ w₂, Worker.step sha1 info sources w (.chunk bytes) = some w₁ ∧
      Worker.step sha1 info sources w₁ .writeOk = some w₂ ∧
      w.file.length ≤ (written w₁).length ∧ (written w₁).length ≤ (written w₂).length ∧
      info.fileSize < w₂.progress := by
  have hbehind := hi.behind (.inl hpc)
  have hlen := hi.length (by simp [hpc])
  have hpos := hi.pos (by simp [hpc, Worker.Pc.handle])
  have hchunk : Worker.step sha1 info sources w (.chunk bytes) =
      some (Worker.onChunk w bytes) := by
    simp [Worker.step, hpc]
  have hwriting : Worker.onChunk w bytes = { w with
      download := w.download + bytes.length
      pc := .writing (bytes.drop (bytes.length - (w.download + bytes.length - w.progress))) } := by
    unfold Worker.onChunk
    dsimp only
    rw [if_neg (by omega), if_pos (by omega)]
  rw [hwriting] at hchunk
  refine ⟨_, _, hchunk, rfl, ?_, ?_, ?_⟩
  · simp [written]
  · simp [written, hpos, ← hlen]
  · simp only [List.length_drop]
    omega

/-! ## The readers -/

/-- What a step does to the bytes of a reader: nothing, the start at the open, or a
read of visible bytes. -/
theorem readerStep_cases {fileSize now : Nat} {tx : Watch Nat} {isOver : Bool} {visible : Bytes}
    {d d' : Reader} {a : ReadAct}
    (hs : readerStep fileSize now tx isOver visible d a = some d') :
    (d'.out = d.out ∧ d'.readOff = d.readOff ∧ (d'.pc.opened = true ∨ d.pc.opened = false)) ∨
    (d'.out = d.out ∧ d'.readOff = 0 ∧ d.pc = .responded) ∨
    (∃ n, d'.out = d.out ++ (visible.drop d.readOff).take n ∧
      d'.readOff = d.readOff + ((visible.drop d.readOff).take n).length ∧
      d'.pc.opened = true) := by
  cases a with
  | openTemp =>
      simp only [readerStep, Option.ite_none_right_eq_some, Option.some.injEq] at hs
      rcases hs with ⟨hpc, rfl⟩
      exact .inr (.inl ⟨rfl, rfl, hpc⟩)
  | read n =>
      simp only [readerStep, Option.ite_none_right_eq_some] at hs
      rcases hs with ⟨-, hs⟩
      split at hs
      · obtain rfl := Option.some.inj hs
        exact .inl ⟨rfl, rfl, .inl rfl⟩
      · obtain rfl := Option.some.inj hs
        exact .inr (.inr ⟨n, rfl, rfl, rfl⟩)
  | subscribe | check | started | refused =>
      -- the file is not open yet
      simp only [readerStep, Option.ite_none_right_eq_some, Option.some.injEq] at hs
      rcases hs with ⟨hpc, rfl⟩
      refine .inl ⟨rfl, rfl, .inr ?_⟩
      first | rw [hpc] | rw [hpc.1]
      rfl
  | loop =>
      simp only [readerStep, Option.ite_none_right_eq_some] at hs
      rcases hs with ⟨-, hs⟩
      split at hs <;> obtain rfl := Option.some.inj hs <;> exact .inl ⟨rfl, rfl, .inl rfl⟩
  | resume =>
      simp only [readerStep, Option.ite_none_right_eq_some, Option.some.injEq] at hs
      rcases hs with ⟨-, rfl⟩
      refine .inl ⟨rfl, rfl, .inl ?_⟩
      dsimp only
      split <;> rfl
  | changed | closed | timeout | refresh | caughtUp | readErr | reported | wake =>
      simp only [readerStep, Option.ite_none_right_eq_some, Option.some.injEq] at hs
      rcases hs with ⟨-, rfl⟩
      exact .inl ⟨rfl, rfl, .inl rfl⟩

theorem follows_step {fileSize now : Nat} {tx : Watch Nat} {isOver : Bool} {visible : Bytes}
    {landed : Nat} {d d' : Reader} {a : ReadAct} (h : Follows landed d)
    (hv : visible.length ≤ landed)
    (hs : readerStep fileSize now tx isOver visible d a = some d') : Follows landed d' := by
  rcases readerStep_cases hs with ⟨hout, hoff, hopen⟩ | ⟨hout, hoff, hpc⟩ | ⟨n, hout, hoff, hopen⟩
  · refine ⟨?_, ?_, ?_⟩
    · rw [hout, hoff, h.counted]
    · rw [hoff]
      exact h.behind
    · intro hpc
      rcases hopen with hopen | hclosed
      · rw [hopen] at hpc
        cases hpc
      · rw [hoff, h.unread hclosed]
  · -- nothing has been read before the open
    have hzero : d.readOff = 0 := h.unread (by rw [hpc]; rfl)
    refine ⟨?_, ?_, fun _ => hoff⟩
    · rw [hout, hoff, h.counted, hzero]
    · rw [hoff]
      exact Nat.zero_le _
  · refine ⟨?_, ?_, ?_⟩
    · rw [hout, hoff, List.length_append, h.counted]
    · rw [hoff]
      exact read_length_le n h.behind hv
    · intro hpc
      rw [hopen] at hpc
      cases hpc

/-! ## Runs -/

theorem bounded_start (useProxy : Bool) : Bounded sha1 info (start useProxy : St R) := by
  refine ⟨Worker.init_inv sha1 info 0 _ ⟨useProxy, rfl⟩, Nat.zero_le _, Nat.zero_le _, ?_⟩
  intro r
  exact ⟨rfl, le_refl _, fun _ => rfl⟩

variable [DecidableEq R]

theorem bounded_step {s s' : St R} {a : Act R} (h : Bounded sha1 info s) (hfits : Fits info s a)
    (hs : step sha1 info sources s a = some s') : Bounded sha1 info s' := by
  cases a with
  | tick n =>
      obtain rfl := Option.some.inj hs
      exact ⟨h.worker, h.fits, h.landed, h.readers⟩
  | worker e =>
      simp only [step] at hs
      split at hs
      · rename_i w hw
        simp only [Option.ite_none_right_eq_some, Option.some.injEq] at hs
        rcases hs with ⟨hland, rfl⟩
        refine ⟨Worker.step_inv sha1 info sources h.worker hw, ?_, hland, h.readers⟩
        refine written_le_step h.worker h.fits ?_ hw
        rintro bytes rfl
        exact hfits
      · cases hs
  | land n =>
      simp only [step, Option.ite_none_right_eq_some, Option.some.injEq] at hs
      rcases hs with ⟨⟨hle, hn⟩, rfl⟩
      refine ⟨h.worker, h.fits, hn, ?_⟩
      intro r
      have hr := h.readers r
      exact ⟨hr.counted, hr.behind.trans hle, hr.unread⟩
  | reader r a =>
      simp only [step] at hs
      split at hs
      · rename_i d hd
        obtain rfl := Option.some.inj hs
        refine ⟨h.worker, h.fits, h.landed, ?_⟩
        intro q
        by_cases hq : q = r
        · subst hq
          have hd' := follows_step (h.readers q) (List.length_take_le _ _) hd
          simpa using hd'
        · simpa [hq] using h.readers q
      · cases hs

theorem bounded_of_reach {s : St R} (h : (machine sha1 info sources).Reach (Fits info) s) :
    Bounded sha1 info s := by
  refine Machine.Reach.invariant ?_ ?_ h
  · rintro s ⟨useProxy, rfl⟩
    exact bounded_start useProxy
  · intro s a s' hi hfits hs
    exact bounded_step hi hfits hs

theorem step_worker {s : St R} {e : Worker.Event} {w : Worker.St}
    (h : Worker.step sha1 info sources s.worker e = some w)
    (hland : s.landed ≤ (written w).length) :
    step sha1 info sources s (.worker e) = some { s with worker := w } := by
  simp only [step, h, if_pos hland]

/-- In every run in which no body runs past `file_size`, the progress, the temp file and
what each reader has yielded stay within `file_size`. A chunk that runs past it breaks
the bound as soon as it is written. -/
theorem download_within_size {s : St R} (h : (machine sha1 info sources).Reach (Fits info) s) :
    Within info s ∧
    ∀ bytes, s.worker.pc = .streaming → ¬ Fits info s (.worker (.chunk bytes)) →
      ∃ s₁ s₂, step sha1 info sources s (.worker (.chunk bytes)) = some s₁ ∧
        step sha1 info sources s₁ (.worker .writeOk) = some s₂ ∧ ¬ Within info s₂ := by
  have hb := bounded_of_reach h
  refine ⟨hb.within, ?_⟩
  intro bytes hpc hlong
  obtain ⟨w₁, w₂, hchunk, hwrite, hle₁, hle₂, hover⟩ :=
    overshoot sources hb.worker hpc hb.within.progress (Nat.lt_of_not_le hlong)
  have hfile : written s.worker = s.worker.file := by simp [written, hpc]
  have hland : s.landed ≤ s.worker.file.length := hfile ▸ hb.landed
  refine ⟨_, _, step_worker hchunk (hland.trans hle₁),
    step_worker hwrite ((hland.trans hle₁).trans hle₂), ?_⟩
  intro hwithin
  exact absurd hwithin.progress (Nat.not_le.mpr hover)

end

instance (info : CacheFileInfo) (s : St Unit) : ∀ a, Decidable (Fits info s a)
  | .worker (.chunk bytes) =>
      inferInstanceAs (Decidable (s.worker.download + bytes.length ≤ info.fileSize))
  | .worker .openFail | .worker .seekFail | .worker .opened | .worker (.requestFail _)
  | .worker .requestOk | .worker .streamErr | .worker .streamEnd | .worker .writeOk
  | .worker (.writeErr _) | .worker .publish | .worker .flushFail | .worker .flushOk
  | .worker .closed | .worker .remove | .worker .closedAgain | .worker .imported
  | .tick _ | .land _ | .reader _ _ => isTrue trivial

/-- `abc` fits, and the stream is still open; one more byte would be one too many. -/
theorem download_within_size_abc :
    ∃ s : St Unit, (machine abcSha1 abcInfo 1).Reach (Fits abcInfo) s ∧
      s.worker.progress = abcInfo.fileSize ∧ (s.readers ()).out = [97, 98, 99] ∧
      Within abcInfo s ∧
      ∃ s₁ s₂, step abcSha1 abcInfo 1 s (.worker (.chunk [100])) = some s₁ ∧
        step abcSha1 abcInfo 1 s₁ (.worker .writeOk) = some s₂ ∧ ¬ Within abcInfo s₂ := by
  obtain ⟨s, hs, hprogress, hout, hpc, hlong⟩ := Machine.reach_of_runIf
    (M := machine abcSha1 abcInfo 1) (Fits abcInfo) ⟨false, rfl⟩
    [.worker .opened, .worker .requestOk, .worker (.chunk [97, 98, 99]), .worker .writeOk,
      .worker .publish, .land 3, .reader () .subscribe, .reader () .check, .reader () .openTemp,
      .reader () .loop, .reader () .refresh, .reader () (.read 65536)]
    (fun s : St Unit => s.worker.progress = abcInfo.fileSize ∧ (s.readers ()).out = [97, 98, 99] ∧
      s.worker.pc = .streaming ∧ ¬ Fits abcInfo s (.worker (.chunk [100])))
    (by decide +kernel)
  rcases download_within_size hs with ⟨hwithin, hbreaks⟩
  exact ⟨s, hs, hprogress, hout, hwithin, hbreaks [100] hpc hlong⟩

/-- A source answers with four bytes where the id says three: all four are counted,
stored and yielded. -/
theorem abcd_for_three_bytes :
    ∃ s : St Unit, (machine abcSha1 abcInfo 1).Reachable s ∧ abcInfo.fileSize = 3 ∧
      s.worker.progress = 4 ∧ s.worker.file = [97, 98, 99, 100] ∧
      (s.readers ()).out = [97, 98, 99, 100] ∧ ¬ Within abcInfo s := by
  obtain ⟨s, hs, hprogress, hfile, hout⟩ := Machine.reachable_of_run
    (M := machine abcSha1 abcInfo 1) ⟨false, rfl⟩
    [.worker .opened, .worker .requestOk, .worker (.chunk [97, 98, 99, 100]), .worker .writeOk,
      .worker .publish, .land 4, .reader () .subscribe, .reader () .check, .reader () .openTemp,
      .reader () .loop, .reader () .refresh, .reader () (.read 65536)]
    (fun s : St Unit => s.worker.progress = 4 ∧ s.worker.file = [97, 98, 99, 100] ∧
      (s.readers ()).out = [97, 98, 99, 100]) (by decide +kernel)
  refine ⟨s, hs, rfl, hprogress, hfile, hout, ?_⟩
  intro hwithin
  have hle := hwithin.progress
  rw [hprogress] at hle
  exact absurd hle (by decide)

end Hath.Proxied
