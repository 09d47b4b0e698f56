import Hath.Lib.Endless
import Hath.Route.Proxied

/-!
# Hath.Route.Following — how a body stream ends

A stream ends at the last byte, with the channel, or when a wait of 30 seconds has been in
vain. Nothing is lost with the channel, since the last update is seen first, and a wait is
given up only by a reader that has yielded all that was announced. Once everything has been
announced and can be read, the steps of the reader alone lead to the last byte.

* `NoTimeout`, `timeout_caughtUp` — runs in which a reader keeps up, and the others;
* `follows_to_end` — the way to the last byte;
* `readers_exact` — no gaps, no repeats, no early end.
-/

namespace Hath.Proxied

open Lib

/-- Reader `r` does not give up its wait. -/
def NoTimeout {R : Type} (r : R) : Act R → Prop
  | .reader q .timeout => q ≠ r
  | _ => True

section

variable {sha1 : Bytes → Digest} {info : CacheFileInfo} {sources : Nat} {C : Bytes}
  {R : Type} [DecidableEq R]

/-! ## Timeouts -/

/-- A stream ends by its timeout only in the step that gives up the wait. -/
theorem readerStep_not_timeout {fileSize now : Nat} {tx : Watch Nat} {isOver : Bool}
    {visible : Bytes} {d d' : Reader} {a : ReadAct} (ha : a ≠ .timeout)
    (hs : readerStep fileSize now tx isOver visible d a = some d') :
    d'.pc ≠ .ended .timeout := by
  cases a with
  | timeout => exact absurd rfl ha
  | loop | read n =>
      simp only [readerStep, Option.ite_none_right_eq_some] at hs
      rcases hs with ⟨-, hs⟩
      split at hs <;> obtain rfl := Option.some.inj hs <;> simp
  | check | resume =>
      simp only [readerStep, Option.ite_none_right_eq_some, Option.some.injEq] at hs
      rcases hs with ⟨-, rfl⟩
      dsimp only
      split <;> simp
  | subscribe | started | refused | openTemp | changed | closed | refresh | caughtUp | readErr
  | reported | wake =>
      simp only [readerStep, Option.ite_none_right_eq_some, Option.some.injEq] at hs
      rcases hs with ⟨-, rfl⟩
      simp

theorem not_timeout_of_reach {ok : St R → Act R → Prop} {s : St R} {r : R}
    (hok : ∀ s a, ok s a → NoTimeout r a) (h : (machine sha1 info sources).Reach ok s) :
    (s.readers r).pc ≠ .ended .timeout := by
  refine Machine.Reach.invariant (I := fun s => (s.readers r).pc ≠ .ended .timeout) ?_ ?_ h
  · rintro s ⟨useProxy, rfl⟩
    simp [start]
  · intro s a s' hi ha hs
    have hno := hok s a ha
    cases a with
    | tick n =>
        obtain rfl := Option.some.inj hs
        exact hi
    | worker e =>
        simp only [machine, step] at hs
        split at hs
        · simp only [Option.ite_none_right_eq_some, Option.some.injEq] at hs
          rcases hs with ⟨-, rfl⟩
          exact hi
        · cases hs
    | land n =>
        simp only [machine, step, Option.ite_none_right_eq_some, Option.some.injEq] at hs
        rcases hs with ⟨-, rfl⟩
        exact hi
    | reader q b =>
        simp only [machine, step] at hs
        split at hs
        · rename_i d hd
          obtain rfl := Option.some.inj hs
          by_cases hq : r = q
          · subst hq
            have hb : b ≠ .timeout := by
              rintro rfl
              exact hno rfl
            simpa using readerStep_not_timeout hb hd
          · simpa [hq] using hi
        · cases hs

/-- A wait is given up only with nothing unseen, so all that is announced has been
yielded. -/
theorem timeout_caughtUp {s s' : St R} {r : R} (hi : Inv sha1 info C s)
    (hs : step sha1 info sources s (.reader r .timeout) = some s') :
    (s.readers r).since + waitTime ≤ s.now ∧ s.worker.tx.value ≤ (s.readers r).readOff := by
  simp only [step, readerStep] at hs
  split at hs
  · rename_i d hd
    simp only [Option.ite_none_right_eq_some] at hd
    rcases hd with ⟨⟨hpc, hunseen, hlate⟩, -⟩
    exact ⟨hlate, (hi.readers r).announced hpc hunseen⟩
  · cases hs

/-! ## The way to the last byte -/

/-- All of the file has been announced, and a read can see it. -/
def Complete (fileSize : Nat) (s : St R) : Prop :=
  s.worker.tx.value = fileSize ∧ s.landed = fileSize

/-- The stream is open, or has ended with the last byte. -/
def Pc.streaming : Pc → Bool
  | .looping | .waiting | .refreshing | .reading | .sleeping | .erring | .yielding
  | .ended .eof => true
  | _ => false

/-- The step neither gives up a wait nor fails, and a read asks for bytes. -/
def ReadAct.goesOn : ReadAct → Bool
  | .timeout | .readErr => false
  | .read n => decide (0 < n)
  | _ => true

/-- Reader `r` goes on. -/
def GoesOn (r : R) : Act R → Prop
  | .reader q a => q = r ∧ a.goesOn = true
  | _ => False

/-- How far a stream is from its end: by the bytes to come, then by its place in the
loops. With a `writeOff` short of the file it has to leave the inner loop once more. -/
def Reader.toGo (fileSize : Nat) (d : Reader) : Nat :=
  let stale := if d.writeOff = fileSize then 0 else 6
  16 * (fileSize - d.readOff) +
    match d.pc with
    | .looping => 6
    | .waiting => 5
    | .refreshing => 4
    | .erring => 3 + stale
    | .sleeping | .yielding => 2 + stale
    | .reading => 1 + stale
    | _ => 0

/-- A read of a file that has landed moves the stream forward. -/
theorem read_toGo {d : Reader} {n : Nat} (hpc : d.pc = .reading) (hmore : d.readOff < C.length)
    (hn : 0 < n) :
    ((C.drop d.readOff).take n) ≠ [] ∧
    Reader.toGo C.length { d with
      pc := .yielding
      readOff := d.readOff + ((C.drop d.readOff).take n).length
      out := d.out ++ (C.drop d.readOff).take n } < d.toGo C.length := by
  have hlen : ((C.drop d.readOff).take n).length = min n (C.length - d.readOff) := by
    simp
  constructor
  · intro hnil
    rw [hnil, List.length_nil] at hlen
    omega
  · simp only [Reader.toGo, hpc, hlen]
    omega

/-- Every step of a stream that goes on leads on to its end: `closed` is not enabled, since
all is announced and a reader that waits with nothing unseen has read it. -/
theorem readerStep_toGo {now : Nat} {tx : Watch Nat} {isOver : Bool} {landed : Nat}
    {d d' : Reader} {a : ReadAct} (hi : ReaderInv C tx isOver landed d)
    (htx : tx.value = C.length) (hpc : d.pc.streaming = true) (ha : a.goesOn = true)
    (hs : readerStep C.length now tx isOver C d a = some d') :
    d'.pc.streaming = true ∧ d'.toGo C.length < d.toGo C.length := by
  have hlive : d.pc ≠ .yielding ∧ d.pc ≠ .ended .eof → d.readOff < C.length :=
    fun h => hi.unfinished h.1 h.2
  cases a with
  | timeout | readErr => cases ha
  | subscribe | check | openTemp =>
      simp only [readerStep, Option.ite_none_right_eq_some] at hs
      rw [hs.1] at hpc
      cases hpc
  | started | refused =>
      simp only [readerStep, Option.ite_none_right_eq_some] at hs
      rw [hs.1.1] at hpc
      cases hpc
  | loop =>
      simp only [readerStep, Option.ite_none_right_eq_some] at hs
      rcases hs with ⟨hat, hs⟩
      split at hs <;> obtain rfl := Option.some.inj hs <;> simp [Pc.streaming, Reader.toGo, hat]
  | changed =>
      simp only [readerStep, Option.ite_none_right_eq_some, Option.some.injEq] at hs
      rcases hs with ⟨⟨hat, -⟩, rfl⟩
      simp [Pc.streaming, Reader.toGo, hat]
  | closed =>
      simp only [readerStep, Option.ite_none_right_eq_some] at hs
      rcases hs with ⟨⟨hat, hunseen, -⟩, -⟩
      have hread := hi.announced hat hunseen
      have hmore := hlive (by simp [hat])
      omega
  | refresh =>
      simp only [readerStep, Option.ite_none_right_eq_some, Option.some.injEq] at hs
      rcases hs with ⟨hat, rfl⟩
      simp [Pc.streaming, Reader.toGo, hat, htx]
  | caughtUp =>
      -- `writeOff` is short of the file, since bytes are to come
      simp only [readerStep, Option.ite_none_right_eq_some, Option.some.injEq] at hs
      rcases hs with ⟨⟨hat, hle⟩, rfl⟩
      have hmore := hlive (by simp [hat])
      have hstale : d.writeOff ≠ C.length := by omega
      simp [Pc.streaming, Reader.toGo, hat, hstale]
  | read n =>
      simp only [readerStep, Option.ite_none_right_eq_some] at hs
      rcases hs with ⟨⟨hat, -⟩, hs⟩
      have hread := read_toGo hat (hlive (by simp [hat])) (of_decide_eq_true ha)
      rw [if_neg hread.1] at hs
      obtain rfl := Option.some.inj hs
      exact ⟨rfl, hread.2⟩
  | reported | wake =>
      simp only [readerStep, Option.ite_none_right_eq_some, Option.some.injEq] at hs
      rcases hs with ⟨hat, rfl⟩
      simp [Pc.streaming, Reader.toGo, hat]
  | resume =>
      simp only [readerStep, Option.ite_none_right_eq_some, Option.some.injEq] at hs
      rcases hs with ⟨hat, rfl⟩
      split
      · simp only [Pc.streaming, Reader.toGo, hat, true_and]
        omega
      · simp [Pc.streaming, Reader.toGo, hat]

/-- A stream that has not ended can go on. -/
theorem readerStep_goesOn (now : Nat) {tx : Watch Nat} {isOver : Bool} {landed : Nat}
    {d : Reader} (hi : ReaderInv C tx isOver landed d) (htx : tx.value = C.length)
    (hpc : d.pc.streaming = true) (hend : d.pc ≠ .ended .eof) :
    ∃ a d', a.goesOn = true ∧ readerStep C.length now tx isOver C d a = some d' := by
  cases hat : d.pc with
  | idle | checking | starting | notFound | responded =>
      rw [hat] at hpc
      cases hpc
  | ended why =>
      cases why with
      | eof => exact absurd hat hend
      | closed | timeout =>
          rw [hat] at hpc
          cases hpc
  | looping =>
      by_cases hgt : d.writeOff > d.readOff
      · exact ⟨.loop, { d with pc := .refreshing }, rfl, by simp [readerStep, hat, hgt]⟩
      · exact ⟨.loop, { d with pc := .waiting, since := now }, rfl, by simp [readerStep, hat, hgt]⟩
  | waiting =>
      have hunseen : tx.Unseen d.seen := by
        by_contra hseen
        have hread := hi.announced hat hseen
        have hmore := hi.unfinished (by simp [hat]) hend
        omega
      exact ⟨.changed, { d with pc := .refreshing, seen := tx.version }, rfl, by
        simp [readerStep, hat, hunseen]⟩
  | refreshing =>
      exact ⟨.refresh, { d with pc := .reading, writeOff := tx.value }, rfl, by
        simp [readerStep, hat]⟩
  | reading =>
      by_cases hgt : d.writeOff > d.readOff
      · have hread := read_toGo (n := 1) hat (hi.unfinished (by simp [hat]) hend) Nat.one_pos
        have hstep : readerStep C.length now tx isOver C d (.read 1) = some { d with
            pc := .yielding
            readOff := d.readOff + ((C.drop d.readOff).take 1).length
            out := d.out ++ (C.drop d.readOff).take 1 } := by
          simp only [readerStep, hat, hgt, and_self, if_true]
          rw [if_neg hread.1]
        exact ⟨.read 1, _, rfl, hstep⟩
      · exact ⟨.caughtUp, { d with pc := .looping }, rfl, by simp [readerStep, hat, hgt]⟩
  | sleeping =>
      exact ⟨.wake, { d with pc := .reading }, rfl, by simp [readerStep, hat]⟩
  | erring =>
      exact ⟨.reported, { d with pc := .yielding }, rfl, by simp [readerStep, hat]⟩
  | yielding =>
      exact ⟨.resume, { d with pc := if d.readOff = C.length then .ended .eof else .reading }, rfl,
        by simp [readerStep, hat]⟩

/-- What a stream that goes on keeps, once all of the file can be read. -/
structure Closing (sha1 : Bytes → Digest) (info : CacheFileInfo) (C : Bytes) (r : R)
    (s : St R) : Prop where
  inv : Inv sha1 info C s
  complete : Complete info.fileSize s
  streaming : (s.readers r).pc.streaming = true

omit [DecidableEq R] in
/-- What can be read of a complete file is the content. -/
theorem visible_of_complete (hlen : C.length = info.fileSize) {s : St R}
    (hi : Inv sha1 info C s) (hfull : Complete info.fileSize s) : s.visible = C := by
  have hwritten : written s.worker = C := by
    refine hi.content.eq_of_length_le ?_
    rw [hlen, ← hfull.2]
    exact hi.landed
  rw [St.visible, hwritten, hfull.2, ← hlen, List.take_length]

theorem Closing.step (hlen : C.length = info.fileSize) {s s' : St R} {r : R} {a : Act R}
    (hi : Closing sha1 info C r s) (ha : GoesOn r a)
    (hs : step sha1 info sources s a = some s') :
    Closing sha1 info C r s' ∧
      (s'.readers r).toGo C.length < (s.readers r).toGo C.length := by
  cases a with
  | tick n | worker e | land n => exact absurd ha id
  | reader q a =>
      rcases ha with ⟨rfl, ha⟩
      have hi' := step_inv hlen hi.inv (a := .reader q a) trivial hs
      simp only [Proxied.step] at hs
      split at hs
      · rename_i d hd
        obtain rfl := Option.some.inj hs
        rw [visible_of_complete hlen hi.inv hi.complete, ← hlen] at hd
        have hgo := readerStep_toGo (hi.inv.readers q) (hi.complete.1.trans hlen.symm)
          hi.streaming ha hd
        refine ⟨⟨hi', hi.complete, ?_⟩, ?_⟩
        · simpa using hgo.1
        · simpa using hgo.2
      · cases hs

/-- Once all of the file has been announced and can be read, a stream left to itself takes
finitely many steps and ends with the last byte, whatever sizes its reads have. -/
theorem follows_to_end (hlen : C.length = info.fileSize) {s : St R} {r : R}
    (hi : Closing sha1 info C r s) :
    ¬ (machine sha1 info sources).Endless (fun _ a => GoesOn r a) s ∧
    ∀ s', ((machine sha1 info sources).startAt s).Reach (fun _ a => GoesOn r a) s' →
      (∃ a s'', GoesOn r a ∧ step sha1 info sources s' a = some s'') ∨
      ((s'.readers r).pc = .ended .eof ∧ (s'.readers r).out = C) := by
  constructor
  · exact Machine.not_endless_of_invariant wellFounded_lt
      (fun s => (s.readers r).toGo C.length) (fun s a s' hi ha hs => hi.step hlen ha hs) hi
  · intro s' hreach
    have hi' : Closing sha1 info C r s' := by
      refine Machine.Reach.invariant ?_ ?_ hreach
      · rintro t rfl
        exact hi
      · intro t a t' ht ha hs
        exact (ht.step hlen ha hs).1
    by_cases hend : (s'.readers r).pc = .ended .eof
    · right
      refine ⟨hend, ?_⟩
      rw [(hi'.inv.readers r).yielded, (hi'.inv.readers r).finished hend, List.take_length]
    · left
      obtain ⟨a, d, ha, hd⟩ := readerStep_goesOn s'.now (hi'.inv.readers r)
        (hi'.complete.1.trans hlen.symm) hi'.streaming hend
      rw [hlen, ← visible_of_complete hlen hi'.inv hi'.complete] at hd
      exact ⟨.reader r a, _, ⟨rfl, ha⟩, step_reader hd⟩

/-! ## No gaps, no repeats, no early end -/

/-- In every run with sources that serve the `file_size > 0` bytes `C`: a reader has
yielded exactly the first `readOff` bytes of `C`; it stops by itself at the end of
`C` and nowhere else; once the worker has all of `C`, no reader has ended with less,
unless it has given up a wait; it gives up no wait before 30 seconds, and none with
announced bytes to come; and once all of `C` has been announced and can be read, its own steps
are finitely many and end with all of `C`. -/
theorem readers_exact (hlen : C.length = info.fileSize) (hpos : 0 < info.fileSize) {s : St R}
    (h : (machine sha1 info sources).Reach (Serves C) s) (r : R) :
    (s.readers r).out = C.take (s.readers r).readOff ∧
    (s.readers r).out.length = (s.readers r).readOff ∧
    ((s.readers r).pc = .ended .eof → (s.readers r).readOff = info.fileSize) ∧
    ((s.readers r).readOff = info.fileSize → (s.readers r).pc = .ended .eof ∨
      ((s.readers r).pc = .yielding ∧
        ∃ s', step sha1 info sources s (.reader r .resume) = some s' ∧
          (s'.readers r).pc = .ended .eof)) ∧
    ((machine sha1 info sources).Reach (fun s a => Serves C s a ∧ NoTimeout r a) s →
      s.worker.progress = info.fileSize → ∀ why, (s.readers r).pc = .ended why →
        (s.readers r).readOff = info.fileSize ∧ (s.readers r).out = C) ∧
    (∀ s', step sha1 info sources s (.reader r .timeout) = some s' →
      (s.readers r).since + waitTime ≤ s.now ∧ s.worker.tx.value ≤ (s.readers r).readOff) ∧
    (Complete info.fileSize s → (s.readers r).pc.streaming = true →
      ¬ (machine sha1 info sources).Endless (fun _ a => GoesOn r a) s ∧
      ∀ s', ((machine sha1 info sources).startAt s).Reach (fun _ a => GoesOn r a) s' →
        (∃ a s'', GoesOn r a ∧ step sha1 info sources s' a = some s'') ∨
        ((s'.readers r).pc = .ended .eof ∧ (s'.readers r).out = C)) := by
  have hi := inv_of_reach hlen hpos h
  have hr := hi.readers r
  have hle : (s.readers r).readOff ≤ C.length :=
    hr.behind.trans (hi.landed.trans hi.content.length_le)
  refine ⟨hr.yielded, ?_, ?_, ?_, ?_, fun s' hs => timeout_caughtUp hi hs,
    fun hfull hpc => follows_to_end hlen ⟨hi, hfull, hpc⟩⟩
  · rw [hr.yielded, List.length_take]
    omega
  · intro hpc
    rw [hr.finished hpc, hlen]
  · intro hend
    by_cases heof : (s.readers r).pc = .ended .eof
    · exact .inl heof
    · right
      have hpc : (s.readers r).pc = .yielding := by
        by_contra hne
        have := hr.unfinished hne heof
        omega
      have hstop : readerStep info.fileSize s.now s.worker.tx (workerOver s.worker.pc)
          s.visible (s.readers r) .resume = some { s.readers r with pc := .ended .eof } := by
        simp [readerStep, hpc, hend]
      exact ⟨hpc, _, step_reader hstop, by simp⟩
  · intro hpatient hprogress why hpc
    cases why with
    | timeout => exact absurd hpc (not_timeout_of_reach (fun _ _ hok => hok.2) hpatient)
    | eof =>
        have hend := hr.finished hpc
        exact ⟨hend.trans hlen, by rw [hr.yielded, hend, List.take_length]⟩
    | closed =>
        -- the worker is over, so it has announced all of its progress
        exfalso
        rcases hr.closed hpc with ⟨hover, hread⟩
        have hannounced : s.worker.tx.value = s.worker.progress := by
          refine hi.worker.published ?_
          intro hpub
          rw [hpub] at hover
          cases hover
        have hshort := hr.unfinished (by simp [hpc]) (by simp [hpc])
        omega

end

instance (C : Bytes) (s : St Unit) : ∀ a, Decidable (Serves C s a)
  | .worker e => inferInstanceAs (Decidable (Worker.Serves C s.worker e))
  | .tick _ | .land _ | .reader _ _ => isTrue trivial

instance (r : Unit) : ∀ a, Decidable (NoTimeout r a)
  | .reader q .timeout => inferInstanceAs (Decidable (q ≠ r))
  | .tick _ | .worker _ | .land _ => isTrue trivial
  | .reader _ .subscribe | .reader _ .check | .reader _ .started | .reader _ .refused
  | .reader _ .openTemp | .reader _ .loop | .reader _ .changed | .reader _ .closed
  | .reader _ .refresh | .reader _ .caughtUp | .reader _ (.read _) | .reader _ .readErr
  | .reader _ .reported | .reader _ .wake | .reader _ .resume => isTrue trivial

/-- The two-attempt download of `abc`, with a reader that joins after the first
byte, once reads ahead of the announced progress, once finds nothing, and still waits when
the worker is over. -/
def abcStored : List (Act Unit) :=
  [.worker .opened, .worker .requestOk, .worker (.chunk [97]), .worker .writeOk, .worker .publish,
    .worker .streamErr, .reader () .subscribe, .reader () .check, .reader () .openTemp,
    .reader () .loop, .reader () .refresh, .reader () (.read 9), .reader () .wake,
    .worker .opened, .worker .requestOk, .worker (.chunk [97, 98]), .land 2,
    .reader () (.read 9), .reader () .resume, .worker .writeOk, .worker .publish,
    .reader () .caughtUp, .reader () .loop, .tick 40000, .worker (.chunk [99]), .worker .writeOk,
    .worker .publish, .worker .streamEnd, .worker .flushFail, .land 3]

/-- It sees the last update after the worker is over. -/
def abcFollowed : List (Act Unit) :=
  abcStored ++ [.reader () .changed, .reader () .refresh, .reader () (.read 9), .reader () .resume]

theorem readers_exact_abc :
    (∃ s : St Unit, (machine abcSha1 abcInfo 1).Reach
        (fun s a => Serves [97, 98, 99] s a ∧ NoTimeout () a) s ∧
      s.worker.progress = 3 ∧ (s.readers ()).pc = .ended .eof ∧
      (s.readers ()).out = [97, 98, 99]) ∧
    ∃ s : St Unit, (s.readers ()).pc = .waiting ∧ (s.readers ()).out = [97, 98] ∧
      ¬ (machine abcSha1 abcInfo 1).Endless (fun _ a => GoesOn () a) s := by
  constructor
  · obtain ⟨s, hs, hprogress, hpc⟩ := Machine.reach_of_runIf
      (M := machine abcSha1 abcInfo 1) (fun s a => Serves [97, 98, 99] s a ∧ NoTimeout () a)
      ⟨false, rfl⟩ abcFollowed
      (fun s => s.worker.progress = 3 ∧ (s.readers ()).pc = .ended .eof) (by decide +kernel)
    rcases readers_exact rfl (by decide) (hs.mono fun _ _ hok => hok.1) () with
      ⟨-, -, -, -, hall, -⟩
    exact ⟨s, hs, hprogress, hpc, (hall hs hprogress .eof hpc).2⟩
  · obtain ⟨s, hs, hvalue, hlanded, hpc, hout⟩ := Machine.reach_of_runIf
      (M := machine abcSha1 abcInfo 1) (Serves [97, 98, 99]) ⟨false, rfl⟩ abcStored
      (fun s => s.worker.tx.value = 3 ∧ s.landed = 3 ∧ (s.readers ()).pc = .waiting ∧
        (s.readers ()).out = [97, 98]) (by decide +kernel)
    rcases readers_exact rfl (by decide) hs () with ⟨-, -, -, -, -, -, hend⟩
    exact ⟨s, hpc, hout, (hend ⟨hvalue, hlanded⟩ (by rw [hpc]; rfl)).1⟩

end Hath.Proxied
