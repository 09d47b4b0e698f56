import Hath.FileReader
import Hath.Gallery.Download
import Hath.Lib.Loop

/-!
# Hath.Gallery.CheckHash — the read loop of `check_hash`

`GalleryFile::check_hash` reads a file that is already there to its end and compares the
hashes. The loop leaves at a read of no bytes; a read that fails is not looked at and the
loop goes on, so errors between the reads do no harm to the verdict, and errors that
stay keep the loop, and with it the downloader, busy for ever.

* `checkLoop_inr` — when the loop leaves, it has hashed the whole content;
* `checkHash_true` — what a verdict of `true` says;
* `checkHash_ends_iff` — when there is a verdict.
-/

namespace Hath.Gallery

open Lib

/-- What stands at the path of an entry. -/
inductive Found where
  | nothing
  /-- `!path.is_file()`. -/
  | other
  | file (content : Bytes)

/-- One turn of the loop: only `Ok(0)` breaks. -/
def checkTurn (hashed : Bytes) : Except IoError Bytes → Bytes ⊕ Bytes
  | .ok buf => if buf.length = 0 then .inr hashed else .inl (hashed ++ buf)
  | .error _ => .inl hashed

/-- `GalleryFile::check_hash` after so many reads, with `none` while the loop goes on. -/
def GalleryFile.checkHash (sha1 : Bytes → Digest) (info : GalleryFile) (found : Found)
    (opened : Bool) (results : List (Except IoError Bytes)) : Option Bool :=
  match found with
  | .nothing => some false
  | .other => some false
  | .file _ =>
      match info.expectedSha1Hash with
      | none => some true
      | some expected =>
          if opened then
            match Loop.loop checkTurn [] results with
            | .inl _ => none
            | .inr hashed => some (sha1 hashed == expected)
          else some false

/-- What reads of a content return, into the buffer of 1 MiB. -/
def contentReads (content : Bytes) (reads : Nat → ReadResult) : Nat → Except IoError Bytes :=
  (File.mk content 0).readSeq (1024 * 1024) reads

/-! ## The reads -/

section

variable {content : Bytes} {reads : Nat → ReadResult}

theorem content_eq (content : Bytes) (reads : Nat → ReadResult) (n : Nat) :
    content = gathered (Loop.firsts (contentReads content reads) n) ++
      ((File.mk content 0).before (1024 * 1024) reads n).rest :=
  (File.mk content 0).gathered_before (1024 * 1024) reads n

/-- The loop has hashed what the reads have returned. -/
theorem checkLoop_inl {n : Nat} {hashed : Bytes}
    (h : Loop.loop checkTurn [] (Loop.firsts (contentReads content reads) n) = .inl hashed) :
    hashed = gathered (Loop.firsts (contentReads content reads) n) := by
  refine Loop.firsts_invariant
    (I := fun n hashed => hashed = gathered (Loop.firsts (contentReads content reads) n))
    ?_ rfl h
  intro n t t' ht hturn
  rw [gathered_succ, ← ht]
  cases hres : contentReads content reads n with
  | ok chunk =>
      rw [hres, checkTurn] at hturn
      split at hturn
      · cases hturn
      · cases hturn
        rfl
  | error e =>
      rw [hres] at hturn
      cases hturn
      exact (List.append_nil t).symm

/-- When the loop leaves, everything has been read. -/
theorem checkLoop_inr {n : Nat} {hashed : Bytes}
    (h : Loop.loop checkTurn [] (Loop.firsts (contentReads content reads) n) = .inr hashed) :
    hashed = content ∧ gathered (Loop.firsts (contentReads content reads) n) = content := by
  rcases Loop.exit_of_firsts h with ⟨k, hk, t, hloop, hexit⟩
  have hsofar := content_eq content reads k
  -- the read that left the loop has found the end
  have hend : t = hashed ∧ ((File.mk content 0).before (1024 * 1024) reads k).rest = [] := by
    cases hres : contentReads content reads k with
    | ok chunk =>
        rw [hres, checkTurn] at hexit
        split at hexit
        · rename_i hempty
          cases hexit
          cases List.length_eq_zero_iff.mp hempty
          exact ⟨rfl, File.rest_of_read_nil (by decide) hres⟩
        · cases hexit
    | error e =>
        rw [hres] at hexit
        cases hexit
  rcases hend with ⟨rfl, hend⟩
  rw [hend, List.append_nil] at hsofar
  refine ⟨(checkLoop_inl hloop).trans hsofar.symm, ?_⟩
  -- later reads add nothing to it
  have hlater := gathered_mono (contentReads content reads) (Nat.le_of_lt hk)
  rw [← hsofar] at hlater
  have hwhole : gathered (Loop.firsts (contentReads content reads) n) <+: content :=
    ⟨_, (content_eq content reads n).symm⟩
  exact hwhole.eq_of_length_le hlater.length_le

end

/-! ## The verdict -/

section

variable {sha1 : Bytes → Digest} {info : GalleryFile} {content : Bytes} {opened : Bool}
  {reads : Nat → ReadResult}

/-- A file with a known hash is taken only if it has been read whole and has it. -/
theorem checkHash_true {n : Nat} {expected : Digest}
    (hknown : info.expectedSha1Hash = some expected)
    (h : info.checkHash sha1 (.file content) opened
      (Loop.firsts (contentReads content reads) n) = some true) :
    gathered (Loop.firsts (contentReads content reads) n) = content ∧ sha1 content = expected := by
  simp only [GalleryFile.checkHash, hknown] at h
  split at h
  · split at h
    · cases h
    · rename_i hashed hloop
      rcases checkLoop_inr hloop with ⟨rfl, hall⟩
      exact ⟨hall, eq_of_beq (Option.some.inj h)⟩
  · cases h

/-- The read loop is entered, and no read finds the end of the file. -/
def Spins (info : GalleryFile) (content : Bytes) (opened : Bool) (reads : Nat → ReadResult) :
    Prop :=
  info.expectedSha1Hash ≠ none ∧ opened = true ∧ ∀ n, contentReads content reads n ≠ .ok []

theorem checkLoop_ends_iff (content : Bytes) (reads : Nat → ReadResult) :
    Loop.Ends checkTurn [] (contentReads content reads) ↔
      ∃ n, contentReads content reads n = .ok [] := by
  have hexit (hashed : Bytes) (r : Except IoError Bytes) :
      r = .ok [] ↔ ∃ b, checkTurn hashed r = .inr b := by
    constructor
    · rintro rfl
      exact ⟨hashed, rfl⟩
    · rintro ⟨b, hb⟩
      cases r with
      | ok chunk =>
          rw [checkTurn] at hb
          split at hb
          · rename_i hempty
            rw [List.length_eq_zero_iff.mp hempty]
          · cases hb
      | error e => cases hb
  exact Loop.ends_iff_exit hexit [] _

theorem checkHash_ends :
    (∃ n v, info.checkHash sha1 (.file content) opened
      (Loop.firsts (contentReads content reads) n) = some v) ↔
      ¬ Spins info content opened reads := by
  unfold Spins GalleryFile.checkHash
  cases hknown : info.expectedSha1Hash with
  | none => simp
  | some expected =>
      cases opened with
      | false => simp
      | true =>
          have hends := checkLoop_ends_iff content reads
          simp only [Loop.Ends] at hends
          simp only [ne_eq, reduceCtorEq, not_false_eq_true, true_and, if_true, not_forall,
            not_not]
          rw [← hends]
          constructor
          · rintro ⟨n, v, hv⟩
            split at hv
            · cases hv
            · rename_i hashed hloop
              exact ⟨n, hashed, hloop⟩
          · rintro ⟨n, hashed, hloop⟩
            exact ⟨n, _, by rw [hloop]⟩

end

/-- **The check of a file that is there ends, with a verdict of `true` on a known hash only
for a content that was read whole and has it, exactly if the loop is not entered or some
read finds the end of the file.** -/
theorem checkHash_ends_iff (sha1 : Bytes → Digest) (info : GalleryFile) (content : Bytes)
    (opened : Bool) (reads : Nat → ReadResult) :
    ((∃ n v, info.checkHash sha1 (.file content) opened
        (Loop.firsts (contentReads content reads) n) = some v) ∧
      ∀ n expected, info.expectedSha1Hash = some expected →
        info.checkHash sha1 (.file content) opened
          (Loop.firsts (contentReads content reads) n) = some true →
        gathered (Loop.firsts (contentReads content reads) n) = content ∧
          sha1 content = expected) ↔
    ¬ Spins info content opened reads := by
  rw [checkHash_ends]
  constructor
  · intro h
    exact h.1
  · intro h
    exact ⟨h, fun _ _ hknown htrue => checkHash_true hknown htrue⟩

/-- Reads that always fail leave the check without a verdict. -/
theorem failing_reads_spin :
    (∀ n, contentReads [97, 98, 99] (fun _ => .err .os) n = .error .os) ∧
      ∀ n, (listEntry 1 ['1'] (some abcDigest)).checkHash abcSha1 (.file [97, 98, 99]) true
        (Loop.firsts (contentReads [97, 98, 99] fun _ => .err .os) n) = none := by
  have hfail : ∀ n, contentReads [97, 98, 99] (fun _ => .err .os) n = .error .os := fun _ => rfl
  refine ⟨hfail, ?_⟩
  intro n
  cases h : (listEntry 1 ['1'] (some abcDigest)).checkHash abcSha1 (.file [97, 98, 99]) true
      (Loop.firsts (contentReads [97, 98, 99] fun _ => .err .os) n) with
  | none => rfl
  | some v =>
      refine absurd ?_ (checkHash_ends.mp ⟨n, v, h⟩)
      exact ⟨nofun, rfl, fun n => by rw [hfail]; nofun⟩

end Hath.Gallery
