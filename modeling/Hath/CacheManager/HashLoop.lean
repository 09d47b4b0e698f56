import Hath.CacheManager.GetFile

/-!
# Hath.CacheManager.HashLoop — when the background task of `get_file` ends

The background task reads until it has seen as many bytes as the metadata promised when
the file was opened. A read at the end of the file returns an empty buffer, which the
loop takes like any other: it hashes nothing, sends nothing new and reads again. For a
file that has been cut since, the loop never gets to its promised size.

The loop is modelled over the results of `FileReader::read`, one a turn, with whether
somebody still receives; a send waits for room in the channel or finds it closed.

* `turn_step` — a turn is what `HashTask.step` does in one or two steps;
* `hashLoop_ends_iff` — on which results the loop ends;
* `cut_file_spins` — on a file that is too short it ends by a failed read only.
-/

namespace Hath

open Lib

namespace HashTask

/-- The locals of the loop and what has been sent. -/
structure Turning where
  readOff : Nat
  hashed : Bytes
  sent : List (Except IoError Bytes)

/-- How the loop is left. -/
inductive Exit where
  /-- The early return after an error. -/
  | failed (sent : List (Except IoError Bytes))
  /-- The condition of the `while` is false. -/
  | finished (s : Turning)

/-- A result of `FileReader::read`, and whether the receiver is there for what comes of it. -/
abbrev Turn := Except IoError Bytes × Bool

/-- `tx.send`, whose outcome is ignored. -/
def deliver (s : Turning) (alive : Bool) (item : Except IoError Bytes) : Turning :=
  if alive then { s with sent := s.sent ++ [item] } else s

/-- One turn of the `while` loop. -/
def turn (fileSize : Nat) (offset : Option Nat) (s : Turning) (r : Turn) : Turning ⊕ Exit :=
  if s.readOff < fileSize then
    match r.1 with
    | .error err => .inr (.failed (deliver s r.2 (.error err)).sent)
    | .ok buffer =>
        let readOff := s.readOff + buffer.length
        let s := { s with readOff, hashed := s.hashed ++ buffer }
        match select offset readOff buffer with
        | some part => .inl (deliver s r.2 (.ok part))
        | none => .inl s
  else .inr (.finished s)

/-- The loop at its start. -/
def start : Turning := { readOff := 0, hashed := [], sent := [] }

/-- How many bytes the first results have. -/
def total (f : Nat → Turn) (n : Nat) : Nat :=
  (gathered (Loop.firsts (fun i => (f i).1) n)).length

/-! ## A turn is steps of the task -/

/-- A turn with a buffer: a read, and a send if there is something to send. The channel
is empty before it, the receiver having taken what was there. -/
theorem turn_step (sha1 : Bytes → Digest) {t : HashTask} (hpc : t.pc = .loop)
    (hqueue : t.queue = []) (hlt : t.readOff < t.fileSize) {res res' : ReadResult}
    {reader : FileReader} {buffer : Bytes}
    (hread : t.reader.read res = (reader, .ok buffer)) :
    ∃ t', (t' = t.step sha1 res ∨ t' = (t.step sha1 res).step sha1 res') ∧ t'.pc = .loop ∧
      turn t.fileSize t.offset ⟨t.readOff, t.hashed, []⟩ (.ok buffer, !t.closed) =
        .inl ⟨t'.readOff, t'.hashed, t'.queue⟩ := by
  have hstep : t.step sha1 res = t.handle reader buffer := by
    rw [step, hpc]
    simp only [if_pos hlt, hread]
  cases hsel : select t.offset (t.readOff + buffer.length) buffer with
  | none =>
      refine ⟨t.step sha1 res, .inl rfl, ?_, ?_⟩
      · rw [hstep, handle, hsel]
      · rw [hstep, handle, hsel, turn, if_pos hlt]
        simp only [hsel, hqueue]
  | some part =>
      have hpart : (t.handle reader buffer).pc = .send part := by
        rw [handle, hsel]
      refine ⟨(t.step sha1 res).step sha1 res', .inr rfl, ?_, ?_⟩
      · rw [hstep, step, hpart]
        simp only [trySend, handle, hqueue]
        split <;> rfl
      · rw [hstep, step, hpart, turn, if_pos hlt]
        simp only [trySend, handle, hsel, hqueue, deliver]
        cases t.closed <;> rfl

/-! ## When the loop ends -/

section

variable {fileSize : Nat} {offset : Option Nat} {f : Nat → Turn}

theorem total_succ (f : Nat → Turn) (n : Nat) :
    total f (n + 1) = total f n + (resultBytes (f n).1).length := by
  unfold total
  rw [gathered_succ, List.length_append]

theorem deliver_readOff (s : Turning) (alive : Bool) (item : Except IoError Bytes) :
    (deliver s alive item).readOff = s.readOff := by
  unfold deliver
  split <;> rfl

/-- A turn that goes on has read a buffer, empty or not. -/
theorem turn_inl {s s' : Turning} {r : Turn} (h : turn fileSize offset s r = .inl s') :
    s.readOff < fileSize ∧ (∃ buffer, r.1 = .ok buffer) ∧
      s'.readOff = s.readOff + (resultBytes r.1).length := by
  unfold turn at h
  split at h
  · rename_i hlt
    cases hres : r.1 with
    | error err =>
        rw [hres] at h
        cases h
    | ok buffer =>
        refine ⟨hlt, ⟨buffer, rfl⟩, ?_⟩
        simp only [hres] at h
        split at h
        · cases h
          rw [deliver_readOff]
          rfl
        · cases h
          rfl
  · cases h

/-- A turn leaves only when the size is reached or its read fails. -/
theorem turn_inr {s : Turning} {r : Turn} {e : Exit} (h : turn fileSize offset s r = .inr e) :
    fileSize ≤ s.readOff ∨ ∃ err, r.1 = .error err := by
  unfold turn at h
  split at h
  · cases hres : r.1 with
    | error err => exact .inr ⟨err, rfl⟩
    | ok buffer =>
        simp only [hres] at h
        split at h <;> cases h
  · exact .inl (by omega)

theorem readOff_eq_total {n : Nat} {s : Turning}
    (h : Loop.loop (turn fileSize offset) start (Loop.firsts f n) = .inl s) :
    s.readOff = total f n := by
  refine Loop.firsts_invariant (I := fun n s => s.readOff = total f n) ?_ rfl h
  intro n t t' ht hturn
  rw [(turn_inl hturn).2.2, ht, total_succ]

/-- A loop that ends has read as much as promised or has failed to read. -/
theorem exit_of_ends (h : Loop.Ends (turn fileSize offset) start f) :
    ∃ n, (∃ err, (f n).1 = .error err) ∨ fileSize ≤ total f n := by
  rcases h with ⟨n, e, hn⟩
  rcases Loop.exit_of_firsts hn with ⟨k, -, s, hloop, hexit⟩
  refine ⟨k, ?_⟩
  rcases turn_inr hexit with hsize | herr
  · rw [readOff_eq_total hloop] at hsize
    exact .inr hsize
  · exact .inl herr

end

/-- **The loop ends exactly if a read fails or the buffers add up to the promised size**,
whether or not somebody receives. -/
theorem hashLoop_ends_iff (fileSize : Nat) (offset : Option Nat) (f : Nat → Turn) :
    Loop.Ends (turn fileSize offset) start f ↔
      ∃ n, (∃ err, (f n).1 = .error err) ∨ fileSize ≤ total f n := by
  constructor
  · exact exit_of_ends
  · rintro ⟨n, hn⟩
    by_contra hends
    -- the turn after `n` results would go on
    rcases Loop.not_ends.mp hends n with ⟨s, hs⟩
    rcases Loop.not_ends.mp hends (n + 1) with ⟨s', hs'⟩
    rw [Loop.loop_firsts_succ hs] at hs'
    rcases turn_inl hs' with ⟨hlt, ⟨buffer, hok⟩, -⟩
    rw [readOff_eq_total hs] at hlt
    rcases hn with ⟨err, herr⟩ | hsize
    · rw [herr] at hok
      cases hok
    · omega

/-- The loop does not end on a file that has become too short and can be read. -/
theorem cut_file_spins {fileSize : Nat} {offset : Option Nat} {content : Bytes}
    (hcut : content.length < fileSize) (capacity : Nat) {reads : Nat → ReadResult}
    (hreads : ∀ n err, reads n ≠ .err err) (alive : Nat → Bool) :
    ¬ Loop.Ends (turn fileSize offset) start
      fun n => ((File.mk content 0).readSeq capacity reads n, alive n) := by
  intro hends
  rcases exit_of_ends hends with ⟨n, ⟨err, herr⟩ | hsize⟩
  · cases hres : reads n with
    | short k =>
        simp only [File.readSeq, hres, File.read] at herr
        cases herr
    | err e => exact hreads n e hres
  · -- no more bytes than the file has
    have hall := congrArg List.length ((File.mk content 0).gathered_before capacity reads n)
    have hrest : (File.mk content 0).rest.length = content.length := rfl
    rw [List.length_append, hrest] at hall
    have hsize : fileSize ≤
        (gathered (Loop.firsts ((File.mk content 0).readSeq capacity reads) n)).length := hsize
    omega

/-- The file `abc` of metadata that promised five bytes. -/
theorem abc_of_five_spins :
    ¬ Loop.Ends (turn 5 none) start
      fun n => ((File.mk [97, 98, 99] 0).readSeq (64 * 1024) (fun _ => .short 65535) n, true) :=
  cut_file_spins (by decide) _ (fun _ _ h => by cases h) _

end HashTask

end Hath
