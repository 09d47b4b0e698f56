import Mathlib.Data.List.Basic
import Hath.Lib.Machine
import Hath.Lib.Splice
import Hath.Lib.Watch
import Hath.CacheManager.FileInfo

/-!
# Hath.Route.Worker — the download worker of `hath`

The task that `hath` spawns on a cache miss. It makes up to three attempts at
downloading the file into the temp file; every attempt asks for the body from
byte 0, while the temp file, the hasher and `progress` carry over, so the first
`progress` bytes of each body are skipped. When the stream ends with
`progress == file_size` the worker waits for its readers, takes the download out
of `download_state` and, if the SHA-1 is right, imports the temp file.

The worker is a machine over the outcomes of its awaits: opening and seeking the
temp file, the request, each chunk of the body, each write. One step is one
await, so a reader or another request can run between any two of them. As
everywhere in this development a `write_all` that returned `Ok` has stored its
bytes at the handle's position.

* `step_cases` — a step takes a chunk, ends a write, or stores nothing;
* `Inv` — the temp file, the hasher and `progress` agree;
* `Serving` — with one content behind all sources, the temp file is a piece of it;
* `resume_exact` — both, and that only a verified temp file is imported.
-/

namespace Hath.Worker

open Lib

/-! ## State -/

/-- Where the worker stands. -/
inductive Pc where
  /-- Top of the retry loop. -/
  | opening
  /-- The temp file is open and sought to `progress`, the request is sent. -/
  | requesting
  /-- Waiting for the next chunk. -/
  | streaming
  /-- `file.write_all(data)` is running. -/
  | writing (data : Bytes)
  /-- `progress` has moved, `tx2.send_replace(progress)` comes next. -/
  | publishing
  /-- The stream ended with `progress == file_size`, `flush` is running. -/
  | flushing
  /-- First `tx2.closed()`. -/
  | closing
  /-- About to remove the entry from `download_state`. -/
  | removing
  /-- Second `tx2.closed()`, the hash is right. -/
  | closingAgain
  /-- `import_cache` is running. -/
  | importing
  /-- Out of the loop, or returned. -/
  | ended
  /-- `sources.next().unwrap()` on an empty list. -/
  | noSource
  /-- `&bytes[start..]` out of bounds. -/
  | sliceOutOfBounds
deriving DecidableEq

structure St where
  pc : Pc
  retry : Nat
  /-- How many sources have been taken off the cycle. -/
  taken : Nat
  useProxy : Bool
  progress : Nat
  download : Nat
  /-- Position of the open handle. -/
  pos : Nat
  /-- Content of the temp file. -/
  file : Bytes
  /-- Everything the hasher has been fed. -/
  hasher : Bytes
  /-- The progress channel, `tx2`. -/
  tx : Watch Nat

/-- The outcome of an await. -/
inductive Event where
  | openFail
  | seekFail
  | opened
  /-- The request failed; `connect` is `err.is_connect()`. -/
  | requestFail (connect : Bool)
  | requestOk
  | chunk (bytes : Bytes)
  | streamErr
  | streamEnd
  | writeOk
  /-- `write_all` failed after storing the first `n` bytes. -/
  | writeErr (n : Nat)
  | publish
  | flushFail
  | flushOk
  | closed
  | remove
  | closedAgain
  | imported

section

variable (sha1 : Bytes → Digest) (info : CacheFileInfo) (sources : Nat)

/-! ## Steps -/

/-- `continue 'retry`, and the end of the loop after the third attempt. -/
def nextAttempt (w : St) : St :=
  if w.retry + 1 < 3 then { w with pc := .opening, retry := w.retry + 1 }
  else { w with pc := .ended }

/-- A chunk of the body: skip what is downloaded already, write the rest. -/
def onChunk (w : St) (bytes : Bytes) : St :=
  let download := w.download + bytes.length
  if download ≤ w.progress then { w with download := download }
  else
    -- `&bytes[start..]`; the slice panics if `start` would be negative
    let writeSize := download - w.progress
    if writeSize ≤ bytes.length then
      { w with download := download, pc := .writing (bytes.drop (bytes.length - writeSize)) }
    else { w with pc := .sliceOutOfBounds }

/-- The request: take the next source, then send. On failure the proxy is given
up after a connect error or in the second attempt. -/
def onRequest (w : St) (ok connect : Bool) : St :=
  -- `sources.next().unwrap()` on a cycle, which has a next source unless it is empty
  if sources = 0 then { w with pc := .noSource }
  else if ok then { w with pc := .streaming, taken := w.taken + 1, download := 0 }
  else
    nextAttempt { w with
      taken := w.taken + 1
      useProxy := w.useProxy && !(connect || w.retry == 1) }

/-- One await of the worker. -/
def step (w : St) : Event → Option St
  | .openFail => if w.pc = .opening then some (nextAttempt w) else none
  | .seekFail => if w.pc = .opening then some (nextAttempt w) else none
  | .opened =>
      if w.pc = .opening then some { w with pc := .requesting, pos := w.progress } else none
  | .requestFail connect =>
      if w.pc = .requesting then some (onRequest sources w false connect) else none
  | .requestOk =>
      if w.pc = .requesting then some (onRequest sources w true false) else none
  | .chunk bytes => if w.pc = .streaming then some (onChunk w bytes) else none
  | .streamErr => if w.pc = .streaming then some (nextAttempt w) else none
  | .streamEnd =>
      -- a body that is too short, or too long, is retried as well
      if w.pc = .streaming then
        some (if w.progress = info.fileSize then { w with pc := .flushing } else nextAttempt w)
      else none
  | .writeOk =>
      match w.pc with
      | .writing data => some { w with
          pc := .publishing
          file := splice 0 w.file w.pos data
          pos := w.pos + data.length
          hasher := w.hasher ++ data
          progress := w.progress + data.length }
      | _ => none
  | .writeErr n =>
      -- `break 'retry`; some of the data may have been stored
      match w.pc with
      | .writing data => some { w with
          pc := .ended
          file := splice 0 w.file w.pos (data.take n) }
      | _ => none
  | .publish =>
      if w.pc = .publishing then
        some { w with pc := .streaming, tx := w.tx.send w.progress }
      else none
  | .flushFail => if w.pc = .flushing then some { w with pc := .ended } else none
  | .flushOk =>
      if w.pc = .flushing then some { w with pc := .closing, tx := w.tx.send w.progress }
      else none
  | .closed => if w.pc = .closing then some { w with pc := .removing } else none
  | .remove =>
      -- the entry goes whatever the hash, the import depends on it
      if w.pc = .removing then
        some { w with pc := if sha1 w.hasher = info.hash then .closingAgain else .ended }
      else none
  | .closedAgain => if w.pc = .closingAgain then some { w with pc := .importing } else none
  | .imported => if w.pc = .importing then some { w with pc := .ended } else none

/-- A fresh worker on a fresh, empty temp file. -/
def spawned (useProxy : Bool) : St where
  pc := .opening
  retry := 0
  taken := 0
  useProxy := useProxy
  progress := 0
  download := 0
  pos := 0
  file := []
  hasher := []
  tx := Watch.channel 0

def machine : Machine St Event where
  init w := ∃ useProxy, w = spawned useProxy
  step := step sha1 info sources

/-! ## What a step can do -/

@[simp] theorem onChunk_progress (w : St) (bytes : Bytes) :
    (onChunk w bytes).progress = w.progress := by
  unfold onChunk
  dsimp only
  split_ifs <;> rfl

@[simp] theorem onChunk_file (w : St) (bytes : Bytes) : (onChunk w bytes).file = w.file := by
  unfold onChunk
  dsimp only
  split_ifs <;> rfl

@[simp] theorem onChunk_tx (w : St) (bytes : Bytes) : (onChunk w bytes).tx = w.tx := by
  unfold onChunk
  dsimp only
  split_ifs <;> rfl

/-- A step that stores nothing and begins no write. -/
structure Quiet (w w' : St) : Prop where
  progress : w'.progress = w.progress
  file : w'.file = w.file
  hasher : w'.hasher = w.hasher
  tx : w'.tx = w.tx ∨ w'.tx = w.tx.send w.progress
  pc : ∀ data, w'.pc ≠ .writing data

theorem quiet_nextAttempt (w : St) : Quiet w (nextAttempt w) := by
  unfold nextAttempt
  split
  · exact ⟨rfl, rfl, rfl, .inl rfl, by simp⟩
  · exact ⟨rfl, rfl, rfl, .inl rfl, by simp⟩

theorem quiet_onRequest (w : St) (ok connect : Bool) :
    Quiet w (onRequest sources w ok connect) := by
  unfold onRequest
  split
  · exact ⟨rfl, rfl, rfl, .inl rfl, by simp⟩
  · split
    · exact ⟨rfl, rfl, rfl, .inl rfl, by simp⟩
    · have h := quiet_nextAttempt { w with
        taken := w.taken + 1
        useProxy := w.useProxy && !(connect || w.retry == 1) }
      exact ⟨h.progress, h.file, h.hasher, h.tx, h.pc⟩

/-- A step takes a chunk, ends a write, or is quiet. -/
theorem step_cases {w w' : St} {e : Event} (hs : step sha1 info sources w e = some w') :
    (∃ bytes, e = .chunk bytes ∧ w.pc = .streaming ∧ w' = onChunk w bytes) ∨
    (∃ data, w.pc = .writing data ∧ w' = { w with
      pc := .publishing
      file := splice 0 w.file w.pos data
      pos := w.pos + data.length
      hasher := w.hasher ++ data
      progress := w.progress + data.length }) ∨
    (∃ data n, w.pc = .writing data ∧ w' = { w with
      pc := .ended
      file := splice 0 w.file w.pos (data.take n) }) ∨
    Quiet w w' := by
  cases e with
  | chunk bytes =>
      simp only [step, Option.ite_none_right_eq_some, Option.some.injEq] at hs
      exact .inl ⟨bytes, rfl, hs.1, hs.2.symm⟩
  | writeOk =>
      simp only [step] at hs
      split at hs
      · rename_i data hpc
        exact .inr (.inl ⟨data, hpc, (Option.some.inj hs).symm⟩)
      · cases hs
  | writeErr n =>
      simp only [step] at hs
      split at hs
      · rename_i data hpc
        exact .inr (.inr (.inl ⟨data, n, hpc, (Option.some.inj hs).symm⟩))
      · cases hs
  | openFail | seekFail | streamErr =>
      simp only [step, Option.ite_none_right_eq_some, Option.some.injEq] at hs
      rcases hs with ⟨-, rfl⟩
      exact .inr (.inr (.inr (quiet_nextAttempt w)))
  | requestFail connect | requestOk =>
      simp only [step, Option.ite_none_right_eq_some, Option.some.injEq] at hs
      rcases hs with ⟨-, rfl⟩
      exact .inr (.inr (.inr (quiet_onRequest sources w _ _)))
  | streamEnd =>
      simp only [step, Option.ite_none_right_eq_some, Option.some.injEq] at hs
      rcases hs with ⟨-, rfl⟩
      refine .inr (.inr (.inr ?_))
      split
      · exact ⟨rfl, rfl, rfl, .inl rfl, by simp⟩
      · exact quiet_nextAttempt w
  | remove =>
      simp only [step, Option.ite_none_right_eq_some, Option.some.injEq] at hs
      rcases hs with ⟨-, rfl⟩
      refine .inr (.inr (.inr ⟨rfl, rfl, rfl, .inl rfl, ?_⟩))
      intro data
      dsimp only
      split <;> simp
  | publish | flushOk =>
      simp only [step, Option.ite_none_right_eq_some, Option.some.injEq] at hs
      rcases hs with ⟨-, rfl⟩
      exact .inr (.inr (.inr ⟨rfl, rfl, rfl, .inr rfl, by simp⟩))
  | opened | flushFail | closed | closedAgain | imported =>
      simp only [step, Option.ite_none_right_eq_some, Option.some.injEq] at hs
      rcases hs with ⟨-, rfl⟩
      exact .inr (.inr (.inr ⟨rfl, rfl, rfl, .inl rfl, by simp⟩))

/-! ## The invariant -/

/-- The temp file is open. -/
def Pc.handle : Pc → Bool
  | .requesting | .streaming | .writing _ | .publishing | .flushing => true
  | _ => false

/-- All of the file has been downloaded. -/
def Pc.complete : Pc → Bool
  | .flushing | .closing | .removing | .closingAgain | .importing => true
  | _ => false

/-- The downloaded file has the right hash. -/
def Pc.verified : Pc → Bool
  | .closingAgain | .importing => true
  | _ => false

/-- What holds between any two awaits: the hasher has been fed the first
`progress` bytes of the temp file, which has no others until a write fails; the
handle stands at `progress`; within an attempt the body is never behind
`progress` by less than the chunk to come; and only new bytes are written. -/
structure Inv (w : St) : Prop where
  hashed : w.hasher = w.file.take w.progress
  stored : w.progress ≤ w.file.length
  length : w.pc ≠ .ended → w.file.length = w.progress
  pos : w.pc.handle = true → w.pos = w.progress
  behind : w.pc = .streaming ∨ w.pc = .publishing → w.download ≤ w.progress
  tail : ∀ data, w.pc = .writing data → w.download = w.progress + data.length
  whole : w.pc.complete = true → w.progress = info.fileSize
  matched : w.pc.verified = true → sha1 w.hasher = info.hash
  inBounds : w.pc ≠ .sliceOutOfBounds
  published : w.pc ≠ .publishing → w.tx.value = w.progress
  announced : w.tx.value ≤ w.progress
  fresh : ∀ data, w.pc = .writing data → 0 < data.length
  moved : w.pc = .publishing → 0 < w.progress

theorem init_inv (w : St) (h : (machine sha1 info sources).init w) : Inv sha1 info w := by
  rcases h with ⟨useProxy, rfl⟩
  constructor <;> simp [spawned, Pc.handle, Pc.complete, Pc.verified, Watch.channel]

/-- A new attempt, or the end of the loop, from a state whose file is exactly
what has been hashed and announced. -/
theorem inv_nextAttempt {w : St} (hashed : w.hasher = w.file.take w.progress)
    (hlen : w.file.length = w.progress) (hval : w.tx.value = w.progress) :
    Inv sha1 info (nextAttempt w) := by
  unfold nextAttempt
  split
  · constructor <;> simp [Pc.handle, Pc.complete, Pc.verified, hashed, hlen, hval]
  · constructor <;> simp [Pc.handle, Pc.complete, Pc.verified, hashed, hlen, hval]

theorem inv_onRequest {w : St} (h : Inv sha1 info w) (hpc : w.pc = .requesting)
    (ok connect : Bool) : Inv sha1 info (onRequest sources w ok connect) := by
  have hlen := h.length (by simp [hpc])
  have hpos := h.pos (by simp [hpc, Pc.handle])
  have hval := h.published (by simp [hpc])
  unfold onRequest
  split
  · constructor <;> simp [Pc.handle, Pc.complete, Pc.verified, h.hashed, hlen, hval]
  · split
    · constructor <;> simp [Pc.handle, Pc.complete, Pc.verified, h.hashed, hlen, hpos, hval]
    · exact inv_nextAttempt sha1 info h.hashed hlen hval

/-- A chunk keeps the invariant. The slice is in bounds because the body was
not ahead of `progress` before the chunk. -/
theorem inv_onChunk {w : St} (h : Inv sha1 info w) (hpc : w.pc = .streaming) (bytes : Bytes) :
    Inv sha1 info (onChunk w bytes) := by
  have hbehind := h.behind (.inl hpc)
  have hlen := h.length (by simp [hpc])
  have hpos := h.pos (by simp [hpc, Pc.handle])
  have hval := h.published (by simp [hpc])
  unfold onChunk
  dsimp only
  split
  · rename_i hskip
    constructor <;>
      simp [hpc, Pc.handle, Pc.complete, Pc.verified, h.hashed, hlen, hpos, hval, hskip]
  · rename_i hahead
    rw [if_pos (by omega)]
    constructor <;>
      simp [Pc.handle, Pc.complete, Pc.verified, h.hashed, hlen, hpos, hval] <;> omega

/-- A completed write keeps the invariant: it appended to the temp file exactly
what the hasher was fed. -/
theorem inv_writeOk {w : St} {data : Bytes} (h : Inv sha1 info w) (hpc : w.pc = .writing data) :
    Inv sha1 info { w with
      pc := .publishing
      file := splice 0 w.file w.pos data
      pos := w.pos + data.length
      hasher := w.hasher ++ data
      progress := w.progress + data.length } := by
  have hlen := h.length (by simp [hpc])
  have hpos : w.pos = w.file.length := by rw [h.pos (by simp [hpc, Pc.handle]), hlen]
  have hhash : w.hasher = w.file := by rw [h.hashed, ← hlen, List.take_length]
  have htail := h.tail data hpc
  have hann := h.announced
  have hfresh := h.fresh data hpc
  constructor <;>
    simp [hhash, hpos, Pc.handle, Pc.complete, Pc.verified, ← hlen] <;> omega

/-- A failed write ends the worker; whatever it stored lies behind `progress`. -/
theorem inv_writeErr {w : St} {data : Bytes} (h : Inv sha1 info w) (hpc : w.pc = .writing data)
    (n : Nat) :
    Inv sha1 info { w with pc := .ended, file := splice 0 w.file w.pos (data.take n) } := by
  have hlen := h.length (by simp [hpc])
  have hpos : w.pos = w.file.length := by rw [h.pos (by simp [hpc, Pc.handle]), hlen]
  have hfile : splice 0 w.file w.pos (data.take n) = w.file ++ data.take n := by
    rw [hpos, splice_length_self]
  have hhash : w.hasher = w.file := by rw [h.hashed, ← hlen, List.take_length]
  have hval := h.published (by simp [hpc])
  constructor <;>
    simp [hfile, hhash, hval, Pc.handle, Pc.complete, Pc.verified, ← hlen]

theorem step_inv {w w' : St} {e : Event} (h : Inv sha1 info w)
    (hs : step sha1 info sources w e = some w') : Inv sha1 info w' := by
  cases e with
  | openFail | seekFail | streamErr =>
      simp only [step, Option.ite_none_right_eq_some, Option.some.injEq] at hs
      rcases hs with ⟨hpc, rfl⟩
      exact inv_nextAttempt sha1 info h.hashed (h.length (by simp [hpc]))
        (h.published (by simp [hpc]))
  | opened =>
      simp only [step, Option.ite_none_right_eq_some, Option.some.injEq] at hs
      rcases hs with ⟨hpc, rfl⟩
      have hlen := h.length (by simp [hpc])
      have hval := h.published (by simp [hpc])
      constructor <;> simp [Pc.handle, Pc.complete, Pc.verified, h.hashed, hlen, hval]
  | requestFail connect | requestOk =>
      simp only [step, Option.ite_none_right_eq_some, Option.some.injEq] at hs
      rcases hs with ⟨hpc, rfl⟩
      exact inv_onRequest sha1 info sources h hpc _ _
  | chunk bytes =>
      simp only [step, Option.ite_none_right_eq_some, Option.some.injEq] at hs
      rcases hs with ⟨hpc, rfl⟩
      exact inv_onChunk sha1 info h hpc bytes
  | streamEnd =>
      simp only [step, Option.ite_none_right_eq_some, Option.some.injEq] at hs
      rcases hs with ⟨hpc, rfl⟩
      have hlen := h.length (by simp [hpc])
      have hval := h.published (by simp [hpc])
      have hpos := h.pos (by simp [hpc, Pc.handle])
      split
      · rename_i hwhole
        constructor <;>
          simp [Pc.handle, Pc.complete, Pc.verified, h.hashed, hlen, hval, hpos, hwhole]
      · exact inv_nextAttempt sha1 info h.hashed hlen hval
  | writeOk =>
      simp only [step] at hs
      split at hs
      · rename_i data hpc
        obtain rfl := Option.some.inj hs
        exact inv_writeOk sha1 info h hpc
      · cases hs
  | writeErr n =>
      simp only [step] at hs
      split at hs
      · rename_i data hpc
        obtain rfl := Option.some.inj hs
        exact inv_writeErr sha1 info h hpc n
      · cases hs
  | publish =>
      simp only [step, Option.ite_none_right_eq_some, Option.some.injEq] at hs
      rcases hs with ⟨hpc, rfl⟩
      have hlen := h.length (by simp [hpc])
      have hpos := h.pos (by simp [hpc, Pc.handle])
      have hbehind := h.behind (.inr hpc)
      constructor <;> simp [Pc.handle, Pc.complete, Pc.verified, h.hashed, hlen, hpos, hbehind]
  | flushOk | closed | closedAgain | flushFail | imported =>
      simp only [step, Option.ite_none_right_eq_some, Option.some.injEq] at hs
      rcases hs with ⟨hpc, rfl⟩
      have hlen := h.length (by simp [hpc])
      have hval := h.published (by simp [hpc])
      have hwhole := h.whole (by simp [hpc, Pc.complete])
      have hmatched := h.matched
      rw [hpc] at hmatched
      constructor <;>
        simp_all [Pc.handle, Pc.complete, Pc.verified, h.hashed]
  | remove =>
      simp only [step, Option.ite_none_right_eq_some, Option.some.injEq] at hs
      rcases hs with ⟨hpc, rfl⟩
      have hlen := h.length (by simp [hpc])
      have hval := h.published (by simp [hpc])
      have hwhole := h.whole (by simp [hpc, Pc.complete])
      split <;>
        (rename_i hhash
         constructor <;>
          simp [Pc.handle, Pc.complete, Pc.verified, h.hashed, hlen, hval, hwhole])
      rwa [h.hashed, hwhole] at hhash

/-- `progress` never decreases. -/
theorem progress_le_step {w w' : St} {e : Event} (hs : step sha1 info sources w e = some w') :
    w.progress ≤ w'.progress := by
  rcases step_cases sha1 info sources hs with ⟨bytes, -, -, rfl⟩ | ⟨data, -, rfl⟩ |
    ⟨data, n, -, rfl⟩ | hquiet
  · exact le_of_eq (onChunk_progress w bytes).symm
  · exact Nat.le_add_right _ _
  · exact le_refl _
  · exact le_of_eq hquiet.progress.symm

/-! ## One content behind all sources -/

/-- The chunks of every attempt come, in order, from the content `C`: `download`
is how much of the body has arrived before this chunk. -/
def Serves (C : Bytes) (w : St) : Event → Prop
  | .chunk bytes => bytes <+: C.drop w.download
  | _ => True

/-- Everything hashed, and the data being written, continues along `C`. -/
structure Serving (C : Bytes) (w : St) : Prop where
  hashed : w.hasher <+: C
  length : w.hasher.length = w.progress
  writing : ∀ data, w.pc = .writing data → data <+: C.drop w.progress

/-- The tail of a chunk of `C` that lies behind `progress` continues `C` there. -/
theorem prefix_drop_tail {C bytes : Bytes} {download progress : Nat}
    (hb : bytes <+: C.drop download) (hle : download ≤ progress)
    (hlt : progress < download + bytes.length) :
    bytes.drop (bytes.length - (download + bytes.length - progress)) <+: C.drop progress := by
  have hskip : bytes.length - (download + bytes.length - progress) = progress - download := by
    omega
  have hdrop := hb.drop (progress - download)
  rw [hskip]
  rwa [List.drop_drop, Nat.add_sub_cancel' hle] at hdrop

theorem serving_init {C : Bytes} (w : St) (h : (machine sha1 info sources).init w) :
    Serving C w := by
  rcases h with ⟨useProxy, rfl⟩
  constructor <;> simp [spawned]

/-- A state that differs in neither hasher nor `progress` and is not writing. -/
theorem serving_of_eq {C : Bytes} {w w' : St} (h : Serving C w) (hh : w'.hasher = w.hasher)
    (hp : w'.progress = w.progress) (hpc : ∀ data, w'.pc ≠ .writing data) : Serving C w' where
  hashed := hh ▸ h.hashed
  length := by rw [hh, hp, h.length]
  writing := fun data hd => absurd hd (hpc data)

theorem serving_onChunk {C : Bytes} {w : St} (hi : Inv sha1 info w) (h : Serving C w)
    (hpc : w.pc = .streaming) {bytes : Bytes} (hb : bytes <+: C.drop w.download) :
    Serving C (onChunk w bytes) := by
  unfold onChunk
  dsimp only
  split_ifs with hskip hbound
  · exact serving_of_eq h rfl rfl (by simp [hpc])
  · refine ⟨h.hashed, h.length, ?_⟩
    intro data hd
    obtain rfl := Pc.writing.inj hd
    exact prefix_drop_tail hb (hi.behind (.inl hpc)) (by omega)
  · exact serving_of_eq h rfl rfl (by simp)

/-- Writing what continues `C` keeps the hashed bytes a piece of `C`. -/
theorem prefix_append_drop {C bytes data : Bytes} (hb : bytes <+: C)
    (hd : data <+: C.drop bytes.length) : bytes ++ data <+: C := by
  rcases hb with ⟨rest, rfl⟩
  rw [List.drop_left] at hd
  exact (List.prefix_append_right_inj bytes).mpr hd

theorem serving_step {C : Bytes} {w w' : St} {e : Event} (hi : Inv sha1 info w)
    (h : Serving C w) (hserve : Serves C w e) (hs : step sha1 info sources w e = some w') :
    Serving C w' := by
  rcases step_cases sha1 info sources hs with ⟨bytes, rfl, hpc, rfl⟩ | ⟨data, hpc, rfl⟩ |
    ⟨data, n, -, rfl⟩ | hquiet
  · exact serving_onChunk sha1 info hi h hpc hserve
  · have hd := h.writing data hpc
    rw [← h.length] at hd
    exact ⟨prefix_append_drop h.hashed hd, by simp [h.length], by simp⟩
  · exact serving_of_eq h rfl rfl (by simp)
  · exact serving_of_eq h hquiet.hasher hquiet.progress hquiet.pc

theorem inv_of_reachable {w : St} (h : (machine sha1 info sources).Reachable w) :
    Inv sha1 info w :=
  h.invariant (init_inv sha1 info sources) fun _ _ _ hi hs => step_inv sha1 info sources hi hs

theorem serving_of_reach {C : Bytes} {w : St}
    (h : (machine sha1 info sources).Reach (Serves C) w) : Serving C w := by
  refine (Machine.Reach.invariant (I := fun w => Inv sha1 info w ∧ Serving C w) ?_ ?_ h).2
  · intro w h0
    exact ⟨init_inv sha1 info sources w h0, serving_init sha1 info sources w h0⟩
  · intro w e w' hw hok hs
    exact ⟨step_inv sha1 info sources hw.1 hs, serving_step sha1 info sources hw.1 hw.2 hok hs⟩

/-! ## The worker's guarantees -/

/-- In every state of every run: a chunk is never sliced out of bounds,
`progress` never decreases, the hasher has seen exactly the first `progress`
bytes of the temp file, and a temp file handed to `import_cache` is complete
and has the hash of the id. When all attempts read one content `C`, the first
`progress` bytes of the temp file are those of `C`. -/
theorem resume_exact :
    (∀ w, (machine sha1 info sources).Reachable w →
      (w.pc = .streaming → ∀ bytes : Bytes, w.progress < w.download + bytes.length →
        w.download + bytes.length - w.progress ≤ bytes.length) ∧
      w.pc ≠ .sliceOutOfBounds ∧
      (∀ e w', step sha1 info sources w e = some w' → w.progress ≤ w'.progress) ∧
      w.progress ≤ w.file.length ∧ w.hasher = w.file.take w.progress ∧
      (w.pc = .importing → w.file.length = info.fileSize ∧ sha1 w.file = info.hash)) ∧
    (∀ (C : Bytes) w, (machine sha1 info sources).Reach (Serves C) w →
      w.progress ≤ C.length ∧ w.file.take w.progress = C.take w.progress) := by
  constructor
  · intro w hw
    have hi := inv_of_reachable sha1 info sources hw
    refine ⟨?_, hi.inBounds, fun e w' => progress_le_step sha1 info sources, hi.stored,
      hi.hashed, ?_⟩
    · intro hpc bytes _
      have hbehind := hi.behind (.inl hpc)
      omega
    · intro hpc
      have hlen := hi.length (by simp [hpc])
      have hwhole := hi.whole (by simp [hpc, Pc.complete])
      have hmatched := hi.matched (by simp [hpc, Pc.verified])
      rw [hi.hashed, ← hlen, List.take_length] at hmatched
      exact ⟨hlen.trans hwhole, hmatched⟩
  · intro C w hw
    have hi := inv_of_reachable sha1 info sources hw.reachable
    have hs := serving_of_reach sha1 info sources hw
    have hle : w.progress ≤ C.length := hs.length ▸ hs.hashed.length_le
    refine ⟨hle, ?_⟩
    rw [← hi.hashed]
    conv_lhs => rw [List.prefix_iff_eq_take.mp hs.hashed, hs.length]

end

/-! ### A resumed download, end to end -/

instance (C : Bytes) (w : St) : ∀ e, Decidable (Serves C w e)
  | .chunk bytes => inferInstanceAs (Decidable (bytes <+: C.drop w.download))
  | .openFail | .seekFail | .opened | .requestFail _ | .requestOk | .streamErr | .streamEnd
  | .writeOk | .writeErr _ | .publish | .flushFail | .flushOk | .closed | .remove
  | .closedAgain | .imported => isTrue trivial

/-- The first attempt breaks off after one byte, the second one delivers the
file in chunks of two and one. -/
def abcTrace : List Event :=
  [.opened, .requestOk, .chunk [97], .writeOk, .publish, .streamErr,
   .opened, .requestOk, .chunk [97, 98], .writeOk, .publish, .chunk [99], .writeOk, .publish,
   .streamEnd, .flushOk, .closed, .remove, .closedAgain]

theorem resume_exact_abc :
    ∃ w, (machine abcSha1 abcInfo 1).Reach (Serves [97, 98, 99]) w ∧ w.pc = .importing ∧
      w.retry = 1 ∧ w.file.length = 3 ∧ abcSha1 w.file = abcInfo.hash ∧
      w.file.take w.progress = List.take w.progress [97, 98, 99] := by
  obtain ⟨w, hw, hpc, hretry⟩ := Machine.reach_of_runIf (M := machine abcSha1 abcInfo 1)
    (Serves [97, 98, 99]) ⟨false, rfl⟩ abcTrace (fun w => w.pc = .importing ∧ w.retry = 1)
    (by decide +kernel)
  rcases resume_exact abcSha1 abcInfo 1 with ⟨hall, hserve⟩
  rcases hall w hw.reachable with ⟨-, -, -, -, -, himport⟩
  rcases himport hpc with ⟨hlen, hsha⟩
  exact ⟨w, hw, hpc, hretry, hlen, hsha, (hserve _ w hw).2⟩

end Hath.Worker
