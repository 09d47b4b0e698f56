import Mathlib.Logic.Function.Basic
import Hath.Route.Worker

/-!
# Hath.Route.Proxied — body streams that follow a running download

A request that misses the cache answers with a body stream that reads the temp
file while the worker still writes it. The stream knows how far it may read from
the progress channel only; the file itself may be ahead of the channel, since a
write becomes readable before it is announced, or behind it, since `write_all` of
an asynchronous file returns before the bytes have landed.

The machine puts one worker (`Worker`) next to any number of readers. `landed` is
how much of what has been written, or is being written, a read can see; it grows on
its own. A reader is followed from its subscription on, one step per access to
the channel or the file; time passes between any two steps.

* `ReaderInv` — what a reader has yielded, and that a reader that has seen the last
  version of the channel has its value;
* `inv_of_reach` — the invariant of the whole, in every run whose sources serve one content.
-/

namespace Hath.Proxied

open Lib

/-! ## State -/

/-- Why a body stream has ended. -/
inductive End where
  /-- `break 'watch` after the last byte. -/
  | eof
  /-- `rx.changed()` failed: every sender is gone. -/
  | closed
  /-- Nothing happened for 30 seconds. -/
  | timeout
deriving DecidableEq

/-- Where a reader stands. -/
inductive Pc where
  /-- Not subscribed. -/
  | idle
  /-- Subscribed, about to look at the progress. -/
  | checking
  /-- In the `rx.changed()` before the response. -/
  | starting
  | notFound
  /-- Response returned, the temp file not opened yet. -/
  | responded
  /-- Head of the `'watch` loop. -/
  | looping
  /-- In `timeout(wait_time, rx.changed())`. -/
  | waiting
  /-- About to take over the announced progress. -/
  | refreshing
  /-- Head of the inner loop. -/
  | reading
  /-- A read returned nothing; asleep for 10 ms. -/
  | sleeping
  /-- A read failed, its error has been yielded. -/
  | erring
  /-- A chunk has been yielded. -/
  | yielding
  | ended (why : End)
deriving DecidableEq

/-- A reader: its program counter, the version its receiver has seen, when its last wait
began, the locals of the stream, and everything it has yielded. -/
structure Reader where
  pc : Pc
  seen : Nat
  since : Nat
  readOff : Nat
  writeOff : Nat
  out : Bytes

/-- The actions of a reader. -/
inductive ReadAct where
  | subscribe
  | check
  | started
  | refused
  | openTemp
  | loop
  | changed
  | closed
  | timeout
  | refresh
  | caughtUp
  /-- A read of at most `n` bytes. -/
  | read (n : Nat)
  | readErr
  | reported
  | wake
  | resume
deriving DecidableEq

/-- `now` counts milliseconds. -/
structure St (R : Type) where
  now : Nat
  worker : Worker.St
  /-- How many bytes of the temp file a read can see. -/
  landed : Nat
  readers : R → Reader

inductive Act (R : Type) where
  | tick (n : Nat)
  | worker (e : Worker.Event)
  | land (n : Nat)
  | reader (r : R) (a : ReadAct)

/-! ## Steps -/

/-- The worker is over: its sender is about to be dropped, or has been. -/
def workerOver : Worker.Pc → Bool
  | .ended | .noSource | .sliceOutOfBounds => true
  | _ => false

/-- What the worker has stored, the write in flight included. -/
def written (w : Worker.St) : Bytes :=
  match w.pc with
  | .writing data => w.file ++ data
  | _ => w.file

/-- What a read of the temp file can see. -/
def St.visible {R : Type} (s : St R) : Bytes := (written s.worker).take s.landed

/-- `wait_time`, in milliseconds. -/
def waitTime : Nat := 30000

/-- One access of a reader to the channel `tx`, of which every sender is gone only
if the worker is over, or to the `visible` part of the temp file. -/
def readerStep (fileSize now : Nat) (tx : Watch Nat) (isOver : Bool) (visible : Bytes)
    (d : Reader) : ReadAct → Option Reader
  | .subscribe =>
      if d.pc = .idle then some { d with pc := .checking, seen := tx.subscribe } else none
  | .check =>
      if d.pc = .checking then
        some { d with pc := if tx.value = 0 then .starting else .responded }
      else none
  | .started =>
      if d.pc = .starting ∧ tx.Unseen d.seen then
        some { d with pc := .responded, seen := tx.version }
      else none
  | .refused =>
      if d.pc = .starting ∧ ¬ tx.Unseen d.seen ∧ isOver = true then
        some { d with pc := .notFound }
      else none
  | .openTemp =>
      if d.pc = .responded then
        some { d with pc := .looping, readOff := 0, writeOff := tx.value }
      else none
  | .loop =>
      if d.pc = .looping then
        if d.writeOff > d.readOff then some { d with pc := .refreshing }
        else some { d with pc := .waiting, since := now }
      else none
  | .changed =>
      if d.pc = .waiting ∧ tx.Unseen d.seen then
        some { d with pc := .refreshing, seen := tx.version }
      else none
  | .closed =>
      if d.pc = .waiting ∧ ¬ tx.Unseen d.seen ∧ isOver = true then
        some { d with pc := .ended .closed }
      else none
  -- `timeout` looks at `changed()` first, and at its deadline only while that is pending
  | .timeout =>
      if d.pc = .waiting ∧ ¬ tx.Unseen d.seen ∧ d.since + waitTime ≤ now then
        some { d with pc := .ended .timeout }
      else none
  | .refresh =>
      if d.pc = .refreshing then some { d with pc := .reading, writeOff := tx.value } else none
  | .caughtUp =>
      if d.pc = .reading ∧ ¬ d.writeOff > d.readOff then some { d with pc := .looping } else none
  | .read n =>
      if d.pc = .reading ∧ d.writeOff > d.readOff then
        let data := (visible.drop d.readOff).take n
        if data = [] then some { d with pc := .sleeping }
        else some { d with
          pc := .yielding
          readOff := d.readOff + data.length
          out := d.out ++ data }
      else none
  | .readErr =>
      if d.pc = .reading ∧ d.writeOff > d.readOff then some { d with pc := .erring } else none
  -- after an error the empty buffer is yielded too
  | .reported => if d.pc = .erring then some { d with pc := .yielding } else none
  | .wake => if d.pc = .sleeping then some { d with pc := .reading } else none
  | .resume =>
      if d.pc = .yielding then
        some { d with pc := if d.readOff = fileSize then .ended .eof else .reading }
      else none

section

variable (sha1 : Bytes → Digest) (info : CacheFileInfo) (sources : Nat) {R : Type}
  [DecidableEq R]

/-- One step of the system. What a failed write leaves in the file includes what a
reader may have seen of it. -/
def step (s : St R) : Act R → Option (St R)
  | .tick n => some { s with now := s.now + n }
  | .worker e =>
      match Worker.step sha1 info sources s.worker e with
      | some w => if s.landed ≤ (written w).length then some { s with worker := w } else none
      | none => none
  | .land n =>
      if s.landed ≤ n ∧ n ≤ (written s.worker).length then some { s with landed := n } else none
  | .reader r a =>
      match readerStep info.fileSize s.now s.worker.tx (workerOver s.worker.pc) s.visible
          (s.readers r) a with
      | some d => some { s with readers := Function.update s.readers r d }
      | none => none

/-- A fresh worker and no reader yet. -/
def start (useProxy : Bool) : St R where
  now := 0
  worker := Worker.spawned useProxy
  landed := 0
  readers _ := { pc := .idle, seen := 0, since := 0, readOff := 0, writeOff := 0, out := [] }

def machine : Machine (St R) (Act R) where
  init s := ∃ useProxy, s = start useProxy
  step := step sha1 info sources

/-- The sources serve the content `C`. -/
def Serves (C : Bytes) (s : St R) : Act R → Prop
  | .worker e => Worker.Serves C s.worker e
  | _ => True

end

/-! ## What the worker shows to its readers -/

section

variable {sha1 : Bytes → Digest} {info : CacheFileInfo} {sources : Nat} {w w' : Worker.St}
  {e : Worker.Event}

/-- A step of the worker leaves the channel alone or announces `progress`. -/
theorem tx_step (hs : Worker.step sha1 info sources w e = some w') :
    w'.tx = w.tx ∨ w'.tx = w.tx.send w.progress := by
  rcases Worker.step_cases sha1 info sources hs with ⟨bytes, -, -, rfl⟩ | ⟨data, -, rfl⟩ |
    ⟨data, n, -, rfl⟩ | hquiet
  · exact .inl (Worker.onChunk_tx w bytes)
  · exact .inl rfl
  · exact .inl rfl
  · exact hquiet.tx

/-- A worker that is over takes no step. -/
theorem not_over_of_step (hs : Worker.step sha1 info sources w e = some w') :
    workerOver w.pc = false := by
  cases e with
  | writeOk | writeErr n =>
      simp only [Worker.step] at hs
      split at hs
      · rename_i data hpc
        simp [hpc, workerOver]
      · cases hs
  | _ =>
      simp only [Worker.step, Option.ite_none_right_eq_some, Option.some.injEq] at hs
      rcases hs with ⟨hpc, -⟩
      rw [hpc]
      rfl

/-- A step changes the temp file only by storing a part of the data in flight. -/
theorem file_step (hi : Worker.Inv sha1 info w)
    (hs : Worker.step sha1 info sources w e = some w') : w'.file <+: written w := by
  have hkeep : w.file <+: written w := by
    unfold written
    split
    · exact List.prefix_append _ _
    · exact List.prefix_refl _
  have hstore : ∀ data n, w.pc = .writing data →
      splice 0 w.file w.pos (data.take n) <+: written w := by
    intro data n hpc
    have hpos : w.pos = w.file.length := by
      rw [hi.pos (by simp [hpc, Worker.Pc.handle]), hi.length (by simp [hpc])]
    rw [hpos, splice_length_self]
    simp only [written, hpc]
    exact (List.prefix_append_right_inj _).mpr (List.take_prefix _ _)
  rcases Worker.step_cases sha1 info sources hs with ⟨bytes, -, -, rfl⟩ | ⟨data, hpc, rfl⟩ |
    ⟨data, n, hpc, rfl⟩ | hquiet
  · rw [Worker.onChunk_file]
    exact hkeep
  · simpa using hstore data data.length hpc
  · exact hstore data n hpc
  · rw [hquiet.file]
    exact hkeep

/-- What the worker stores stays a piece of the content its sources serve. -/
theorem written_step {C : Bytes} (hi : Worker.Inv sha1 info w)
    (hi' : Worker.Inv sha1 info w') (hs' : Worker.Serving C w') (hC : written w <+: C)
    (hs : Worker.step sha1 info sources w e = some w') : written w' <+: C := by
  have hfile : w'.file <+: C := (file_step hi hs).trans hC
  unfold written
  split
  · rename_i data hpc
    refine Worker.prefix_append_drop hfile ?_
    rw [hi'.length (by simp [hpc])]
    exact hs'.writing data hpc
  · exact hfile

end

/-! ## The invariant -/

/-- The temp file has been opened. -/
def Pc.opened : Pc → Bool
  | .idle | .checking | .starting | .notFound | .responded => false
  | _ => true

/-- The stream has taken over the announced progress since its receiver last moved. -/
def Pc.current : Pc → Bool
  | .looping | .waiting | .reading | .sleeping | .erring | .yielding => true
  | _ => false

/-- What holds of a reader between any two of its steps. `current` is the reason
why no update is lost: once nothing is unseen, `writeOff` is the announced
progress, so a reader that goes on waiting has read all of it. -/
structure ReaderInv (C : Bytes) (tx : Watch Nat) (isOver : Bool) (landed : Nat)
    (d : Reader) : Prop where
  yielded : d.out = C.take d.readOff
  behind : d.readOff ≤ landed
  unread : d.pc.opened = false → d.readOff = 0
  unfinished : d.pc ≠ .yielding → d.pc ≠ .ended .eof → d.readOff < C.length
  seen : d.seen ≤ tx.version
  current : d.pc.current = true → d.seen = tx.version → d.writeOff = tx.value
  caughtUp : d.pc = .waiting → d.writeOff ≤ d.readOff
  finished : d.pc = .ended .eof → d.readOff = C.length
  closed : d.pc = .ended .closed → isOver = true ∧ tx.value ≤ d.readOff

structure Inv (sha1 : Bytes → Digest) (info : CacheFileInfo) (C : Bytes) {R : Type}
    (s : St R) : Prop where
  worker : Worker.Inv sha1 info s.worker
  serving : Worker.Serving C s.worker
  content : written s.worker <+: C
  landed : s.landed ≤ (written s.worker).length
  readers : ∀ r, ReaderInv C s.worker.tx (workerOver s.worker.pc) s.landed (s.readers r)

section

variable {sha1 : Bytes → Digest} {info : CacheFileInfo} {sources : Nat} {C : Bytes}
  {R : Type}

/-- A reader that waits with nothing unseen has yielded all that is announced. -/
theorem ReaderInv.announced {tx : Watch Nat} {isOver : Bool} {landed : Nat} {d : Reader}
    (hi : ReaderInv C tx isOver landed d) (hpc : d.pc = .waiting)
    (hunseen : ¬ tx.Unseen d.seen) : tx.value ≤ d.readOff := by
  have hlast := hi.current (by rw [hpc]; rfl) (not_not.mp hunseen)
  rw [← hlast]
  exact hi.caughtUp hpc

/-- A read of visible bytes continues what has been yielded. -/
theorem take_add_read {visible : Bytes} (off n : Nat) (hv : visible <+: C) :
    C.take off ++ (visible.drop off).take n =
      C.take (off + ((visible.drop off).take n).length) := by
  have hpre : (visible.drop off).take n <+: C.drop off :=
    (List.take_prefix _ _).trans (hv.drop off)
  rw [List.take_add, ← List.prefix_iff_eq_take.mp hpre]

/-- A read does not pass the visible end of the file. -/
theorem read_length_le {visible : Bytes} {off landed : Nat} (n : Nat) (hoff : off ≤ landed)
    (hv : visible.length ≤ landed) : off + ((visible.drop off).take n).length ≤ landed := by
  simp only [List.length_take, List.length_drop]
  omega

/-- A step that moves a reader without a read: it stays inside the content and does
not stop by itself. -/
theorem readerInv_move {tx : Watch Nat} {isOver : Bool} {landed seen since writeOff : Nat}
    {d : Reader} {pc : Pc} (hi : ReaderInv C tx isOver landed d)
    (hunread : pc.opened = false → d.readOff = 0) (hlive : d.readOff < C.length)
    (heof : pc ≠ .ended .eof) (hseen : seen ≤ tx.version)
    (hcurrent : pc.current = true → seen = tx.version → writeOff = tx.value)
    (hcaught : pc = .waiting → writeOff ≤ d.readOff)
    (hclosed : pc = .ended .closed → isOver = true ∧ tx.value ≤ d.readOff) :
    ReaderInv C tx isOver landed
      { d with pc := pc, seen := seen, since := since, writeOff := writeOff } where
  yielded := hi.yielded
  behind := hi.behind
  unread := hunread
  unfinished _ _ := hlive
  seen := hseen
  current := hcurrent
  caughtUp := hcaught
  finished h := absurd h heof
  closed := hclosed

/-- A move of the program counter alone, among the points after the open at which the
stream neither waits nor has ended. -/
theorem readerInv_setPc {tx : Watch Nat} {isOver : Bool} {landed : Nat} {d : Reader} {pc : Pc}
    (hi : ReaderInv C tx isOver landed d) (hlive : d.readOff < C.length)
    (hopened : pc.opened = true) (hcurrent : pc.current = true → d.pc.current = true)
    (hpc : pc ≠ .waiting ∧ ∀ why, pc ≠ .ended why) :
    ReaderInv C tx isOver landed { d with pc := pc } := by
  apply readerInv_move hi _ hlive (hpc.2 .eof) hi.seen
  · intro h
    exact hi.current (hcurrent h)
  · intro h
    exact absurd h hpc.1
  · intro h
    exact absurd h (hpc.2 .closed)
  · intro h
    rw [hopened] at h
    cases h

/-- A read that returns bytes. -/
theorem readerInv_read {tx : Watch Nat} {isOver : Bool} {landed : Nat} {visible : Bytes}
    {d : Reader} (hi : ReaderInv C tx isOver landed d) (hv : visible <+: C)
    (hlen : visible.length ≤ landed) (hpc : d.pc = .reading) (n : Nat) :
    ReaderInv C tx isOver landed { d with
      pc := .yielding
      readOff := d.readOff + ((visible.drop d.readOff).take n).length
      out := d.out ++ (visible.drop d.readOff).take n } where
  yielded := by
    rw [hi.yielded]
    exact take_add_read d.readOff n hv
  behind := read_length_le n hi.behind hlen
  unread h := by cases h
  unfinished h := absurd rfl h
  seen := hi.seen
  current _ := hi.current (by rw [hpc]; rfl)
  caughtUp h := by cases h
  finished h := by cases h
  closed h := by cases h

/-- After a chunk: the stream ends with the last byte and reads on otherwise. -/
theorem readerInv_resume {tx : Watch Nat} {isOver : Bool} {landed : Nat} {d : Reader}
    (hi : ReaderInv C tx isOver landed d) (hC : landed ≤ C.length) (hpc : d.pc = .yielding) :
    ReaderInv C tx isOver landed
      { d with pc := if d.readOff = C.length then .ended .eof else .reading } := by
  split
  · rename_i hend
    refine ⟨hi.yielded, hi.behind, ?_, ?_, hi.seen, ?_, ?_, fun _ => hend, ?_⟩
    · intro h
      cases h
    · intro _ h
      exact absurd rfl h
    · intro h
      cases h
    · intro h
      cases h
    · intro h
      cases h
  · rename_i hmore
    have hlive : d.readOff < C.length := by
      have := hi.behind
      omega
    exact readerInv_setPc hi hlive rfl (fun _ => by rw [hpc]; rfl) ⟨nofun, nofun⟩

/-- Every step of a reader keeps its invariant. -/
theorem readerStep_inv {now : Nat} {tx : Watch Nat} {isOver : Bool} {landed : Nat}
    {visible : Bytes} {d d' : Reader} {a : ReadAct} (hi : ReaderInv C tx isOver landed d)
    (hv : visible <+: C) (hlen : visible.length ≤ landed) (hC : landed ≤ C.length)
    (hs : readerStep C.length now tx isOver visible d a = some d') :
    ReaderInv C tx isOver landed d' := by
  -- a reader that has neither just yielded nor stopped has bytes to come
  have hlive : d.pc ≠ .yielding ∧ d.pc ≠ .ended .eof → d.readOff < C.length :=
    fun h => hi.unfinished h.1 h.2
  cases a with
  | subscribe =>
      simp only [readerStep, Option.ite_none_right_eq_some, Option.some.injEq] at hs
      rcases hs with ⟨hpc, rfl⟩
      rw [hpc] at hlive
      exact readerInv_move hi (fun _ => hi.unread (by rw [hpc]; rfl)) (hlive ⟨nofun, nofun⟩) nofun
        (Nat.le_refl _) nofun nofun nofun
  | check =>
      simp only [readerStep, Option.ite_none_right_eq_some, Option.some.injEq] at hs
      rcases hs with ⟨hpc, rfl⟩
      rw [hpc] at hlive
      have hunread := hi.unread (by rw [hpc]; rfl)
      split
      · exact readerInv_move hi (fun _ => hunread) (hlive ⟨nofun, nofun⟩) nofun hi.seen nofun
          nofun nofun
      · exact readerInv_move hi (fun _ => hunread) (hlive ⟨nofun, nofun⟩) nofun hi.seen nofun
          nofun nofun
  | started =>
      simp only [readerStep, Option.ite_none_right_eq_some, Option.some.injEq] at hs
      rcases hs with ⟨⟨hpc, -⟩, rfl⟩
      rw [hpc] at hlive
      exact readerInv_move hi (fun _ => hi.unread (by rw [hpc]; rfl)) (hlive ⟨nofun, nofun⟩) nofun
        (Nat.le_refl _) nofun nofun nofun
  | refused =>
      simp only [readerStep, Option.ite_none_right_eq_some, Option.some.injEq] at hs
      rcases hs with ⟨⟨hpc, -⟩, rfl⟩
      rw [hpc] at hlive
      exact readerInv_move hi (fun _ => hi.unread (by rw [hpc]; rfl)) (hlive ⟨nofun, nofun⟩) nofun
        hi.seen nofun nofun nofun
  | openTemp =>
      -- the stream starts with the announced progress, at the start of the file
      simp only [readerStep, Option.ite_none_right_eq_some, Option.some.injEq] at hs
      rcases hs with ⟨hpc, rfl⟩
      rw [hpc] at hlive
      have hzero := hi.unread (by rw [hpc]; rfl)
      rw [← hzero]
      exact readerInv_move hi nofun (hlive ⟨nofun, nofun⟩) nofun hi.seen (fun _ _ => rfl) nofun
        nofun
  | loop =>
      simp only [readerStep, Option.ite_none_right_eq_some] at hs
      rcases hs with ⟨hpc, hs⟩
      have hcurrent := hi.current (by rw [hpc]; rfl)
      rw [hpc] at hlive
      split at hs
      · obtain rfl := Option.some.inj hs
        exact readerInv_setPc hi (hlive ⟨nofun, nofun⟩) rfl nofun ⟨nofun, nofun⟩
      · rename_i hle
        obtain rfl := Option.some.inj hs
        exact readerInv_move hi nofun (hlive ⟨nofun, nofun⟩) nofun hi.seen (fun _ => hcurrent)
          (fun _ => Nat.le_of_not_lt hle) nofun
  | changed =>
      simp only [readerStep, Option.ite_none_right_eq_some, Option.some.injEq] at hs
      rcases hs with ⟨⟨hpc, -⟩, rfl⟩
      rw [hpc] at hlive
      exact readerInv_move hi nofun (hlive ⟨nofun, nofun⟩) nofun (Nat.le_refl _) nofun nofun nofun
  | closed =>
      simp only [readerStep, Option.ite_none_right_eq_some, Option.some.injEq] at hs
      rcases hs with ⟨⟨hpc, hunseen, hover⟩, rfl⟩
      have hread := hi.announced hpc hunseen
      rw [hpc] at hlive
      exact readerInv_move hi nofun (hlive ⟨nofun, nofun⟩) nofun hi.seen nofun nofun
        fun _ => ⟨hover, hread⟩
  | timeout =>
      simp only [readerStep, Option.ite_none_right_eq_some, Option.some.injEq] at hs
      rcases hs with ⟨⟨hpc, -⟩, rfl⟩
      rw [hpc] at hlive
      exact readerInv_move hi nofun (hlive ⟨nofun, nofun⟩) nofun hi.seen nofun nofun nofun
  | refresh =>
      simp only [readerStep, Option.ite_none_right_eq_some, Option.some.injEq] at hs
      rcases hs with ⟨hpc, rfl⟩
      rw [hpc] at hlive
      exact readerInv_move hi nofun (hlive ⟨nofun, nofun⟩) nofun hi.seen (fun _ _ => rfl) nofun
        nofun
  | caughtUp | readErr =>
      simp only [readerStep, Option.ite_none_right_eq_some, Option.some.injEq] at hs
      rcases hs with ⟨⟨hpc, -⟩, rfl⟩
      have hcurrent : d.pc.current = true := by rw [hpc]; rfl
      rw [hpc] at hlive
      exact readerInv_setPc hi (hlive ⟨nofun, nofun⟩) rfl (fun _ => hcurrent) ⟨nofun, nofun⟩
  | reported | wake =>
      simp only [readerStep, Option.ite_none_right_eq_some, Option.some.injEq] at hs
      rcases hs with ⟨hpc, rfl⟩
      have hcurrent : d.pc.current = true := by rw [hpc]; rfl
      rw [hpc] at hlive
      exact readerInv_setPc hi (hlive ⟨nofun, nofun⟩) rfl (fun _ => hcurrent) ⟨nofun, nofun⟩
  | read n =>
      simp only [readerStep, Option.ite_none_right_eq_some] at hs
      rcases hs with ⟨⟨hpc, -⟩, hs⟩
      split at hs
      · -- nothing has landed yet
        obtain rfl := Option.some.inj hs
        have hcurrent : d.pc.current = true := by rw [hpc]; rfl
        rw [hpc] at hlive
        exact readerInv_setPc hi (hlive ⟨nofun, nofun⟩) rfl (fun _ => hcurrent) ⟨nofun, nofun⟩
      · obtain rfl := Option.some.inj hs
        exact readerInv_read hi hv hlen hpc n
  | resume =>
      simp only [readerStep, Option.ite_none_right_eq_some, Option.some.injEq] at hs
      rcases hs with ⟨hpc, rfl⟩
      exact readerInv_resume hi hC hpc

/-- A reader at rest does not notice that more bytes land, and every announcement
is unseen to it. -/
theorem readerInv_frame {tx tx' : Watch Nat} {isOver isOver' : Bool} {landed landed' : Nat}
    {d : Reader} (hi : ReaderInv C tx isOver landed d) (hland : landed ≤ landed')
    (htx : tx' = tx ∨ ∃ p, tx' = tx.send p) (hover : isOver = true → tx' = tx ∧ isOver' = true) :
    ReaderInv C tx' isOver' landed' d := by
  have hversion : tx.version ≤ tx'.version := by
    rcases htx with rfl | ⟨p, rfl⟩
    · exact le_refl _
    · exact Nat.le_succ _
  refine ⟨hi.yielded, hi.behind.trans hland, hi.unread, hi.unfinished, hi.seen.trans hversion, ?_,
    hi.caughtUp, hi.finished, ?_⟩
  · intro hpc hseen
    rcases htx with rfl | ⟨p, rfl⟩
    · exact hi.current hpc hseen
    · exact absurd hseen (Watch.unseen_send hi.seen p)
  · intro hpc
    rcases hi.closed hpc with ⟨hisOver, hle⟩
    rcases hover hisOver with ⟨rfl, hover'⟩
    exact ⟨hover', hle⟩

theorem init_inv (hpos : 0 < C.length) (useProxy : Bool) :
    Inv sha1 info C (start useProxy : St R) := by
  refine ⟨Worker.init_inv sha1 info 0 _ ⟨useProxy, rfl⟩, Worker.serving_init sha1 info 0 _
    ⟨useProxy, rfl⟩, ?_, ?_, ?_⟩
  · exact List.nil_prefix
  · exact Nat.zero_le _
  · intro r
    constructor <;> simp [start, Pc.current, hpos]

theorem worker_step_inv {s : St R} {w : Worker.St} {e : Worker.Event} (hi : Inv sha1 info C s)
    (hserve : Worker.Serves C s.worker e)
    (hs : Worker.step sha1 info sources s.worker e = some w)
    (hland : s.landed ≤ (written w).length) : Inv sha1 info C { s with worker := w } := by
  have hw := Worker.step_inv sha1 info sources hi.worker hs
  have hserving := Worker.serving_step sha1 info sources hi.worker hi.serving hserve hs
  refine ⟨hw, hserving, written_step hi.worker hw hserving hi.content hs, hland, ?_⟩
  intro r
  refine readerInv_frame (hi.readers r) (le_refl _) ?_ ?_
  · exact (tx_step hs).imp id fun h => ⟨_, h⟩
  · intro hover
    rw [not_over_of_step hs] at hover
    cases hover

variable [DecidableEq R]

theorem step_reader {s : St R} {r : R} {a : ReadAct} {d : Reader}
    (h : readerStep info.fileSize s.now s.worker.tx (workerOver s.worker.pc) s.visible
      (s.readers r) a = some d) :
    step sha1 info sources s (.reader r a) =
      some { s with readers := Function.update s.readers r d } := by
  simp only [step, h]

theorem step_inv {s s' : St R} {a : Act R} (hlen : C.length = info.fileSize)
    (hi : Inv sha1 info C s) (hserve : Serves C s a)
    (hs : step sha1 info sources s a = some s') : Inv sha1 info C s' := by
  have hC : s.landed ≤ C.length := hi.landed.trans hi.content.length_le
  cases a with
  | tick n =>
      obtain rfl := Option.some.inj hs
      exact ⟨hi.worker, hi.serving, hi.content, hi.landed, hi.readers⟩
  | worker e =>
      simp only [step] at hs
      split at hs
      · rename_i w hw
        simp only [Option.ite_none_right_eq_some, Option.some.injEq] at hs
        rcases hs with ⟨hland, rfl⟩
        exact worker_step_inv hi hserve hw hland
      · cases hs
  | land n =>
      simp only [step, Option.ite_none_right_eq_some, Option.some.injEq] at hs
      rcases hs with ⟨⟨hle, hn⟩, rfl⟩
      refine ⟨hi.worker, hi.serving, hi.content, hn, ?_⟩
      intro r
      exact readerInv_frame (hi.readers r) hle (.inl rfl) fun h => ⟨rfl, h⟩
  | reader r a =>
      simp only [step] at hs
      split at hs
      · rename_i d hd
        obtain rfl := Option.some.inj hs
        refine ⟨hi.worker, hi.serving, hi.content, hi.landed, ?_⟩
        intro q
        by_cases hq : q = r
        · subst hq
          rw [← hlen] at hd
          have hvisible : s.visible <+: C := (List.take_prefix _ _).trans hi.content
          have hd' := readerStep_inv (hi.readers q) hvisible (List.length_take_le _ _) hC hd
          simpa using hd'
        · simpa [hq] using hi.readers q
      · cases hs

theorem inv_of_reach {s : St R} (hlen : C.length = info.fileSize) (hpos : 0 < info.fileSize)
    (h : (machine sha1 info sources).Reach (Serves C) s) : Inv sha1 info C s := by
  refine Machine.Reach.invariant ?_ ?_ h
  · rintro s ⟨useProxy, rfl⟩
    exact init_inv (hlen ▸ hpos) useProxy
  · intro s a s' hi hserve hs
    exact step_inv hlen hi hserve hs

end

end Hath.Proxied
