import Hath.CacheManager.FileInfo
import Hath.FileReader

/-!
# Hath.CacheManager.GetFile — serving a cached file

`CacheManager::get_file`. A file touched within the last week is streamed by a
`FileReader`, after a seek when the caller asks for an offset. An older one is
read from its start by a background task that hashes every byte, sends the
bytes from the offset on through a channel of capacity one, and removes the
file at the end if its hash is wrong.

The lookups of the file system (`metadata`, `open`, the outcome of the seek) are
a record, `Lookup`; the modification time the older branch sets and the log
lines are left out.

* `HashTask.recv_ranked` — the channel delivers the file from the offset on,
  wherever the offset falls between and inside the buffers read;
* `getFile_serves` — both branches: from where on the returned stream has the
  file, and when the result is a full one although an offset was asked for.
-/

namespace Hath

open Lib

/-! ## The background task -/

/-- Where the background task of `get_file` is. -/
inductive HashPc where
  /-- the head of the `while` loop -/
  | loop
  /-- `tx.send(Ok(buffer)).await` -/
  | send (buffer : Bytes)
  /-- `tx.send(Err(err)).await`, before the early return -/
  | fail (err : IoError)
  /-- `remove_cache(&info).await`, the hash being wrong -/
  | remove
  /-- returned, the sender dropped -/
  | done
deriving DecidableEq, Repr

/-- The background task with its channel. -/
structure HashTask where
  info : CacheFileInfo
  /-- `metadata.len()` -/
  fileSize : Nat
  offset : Option Nat
  reader : FileReader
  readOff : Nat
  /-- the bytes given to the hasher -/
  hashed : Bytes
  pc : HashPc
  /-- sent and not yet received -/
  queue : List (Except IoError Bytes)
  /-- the receiver has been dropped -/
  closed : Bool

namespace HashTask

/-- The task as spawned. -/
def spawn (info : CacheFileInfo) (fileSize : Nat) (offset : Option Nat) (reader : FileReader) :
    HashTask :=
  { info, fileSize, offset, reader, readOff := 0, hashed := [], pc := .loop, queue := [],
    closed := false }

/-- The part of a buffer to send, the file having been read up to `readOff`: none
of it before the offset, cut if the offset falls inside. -/
def select (offset : Option Nat) (readOff : Nat) (buffer : Bytes) : Option Bytes :=
  match offset with
  | none => some buffer
  | some offset =>
      if offset < readOff then
        if offset > readOff - buffer.length then
          some (buffer.drop (buffer.length - (readOff - offset)))
        else some buffer
      else none

/-- The loop body after a successful read. -/
def handle (t : HashTask) (reader : FileReader) (buffer : Bytes) : HashTask :=
  let readOff := t.readOff + buffer.length
  let pc := match select t.offset readOff buffer with
    | some part => .send part
    | none => .loop
  { t with reader, readOff, hashed := t.hashed ++ buffer, pc }

/-- `tx.send`: waits while the channel is full, and drops the item if nobody
receives any more. -/
def trySend (t : HashTask) (item : Except IoError Bytes) (next : HashPc) : HashTask :=
  if t.closed then { t with pc := next }
  else if t.queue.length < 1 then { t with queue := t.queue ++ [item], pc := next }
  else t

/-- One step of the task, `res` being what the file read of the step returns if
it makes one. -/
def step (sha1 : Bytes → Digest) (t : HashTask) (res : ReadResult) : HashTask :=
  match t.pc with
  | .loop =>
      if t.readOff < t.fileSize then
        match t.reader.read res with
        | (reader, .ok buffer) => t.handle reader buffer
        | (reader, .error err) => { t with reader, pc := .fail err }
      else if sha1 t.hashed ≠ t.info.hash then { t with pc := .remove }
      else { t with pc := .done }
  | .send buffer => t.trySend (.ok buffer) .loop
  | .fail err => t.trySend (.error err) .done
  | .remove => { t with pc := .done }
  | .done => t

/-- `rx.recv`, the body of the stream the caller gets: after the background steps
since the last poll, the oldest item, or the end once the sender is gone. -/
def recv (sha1 : Bytes → Digest) (t : HashTask) (ws : List ReadResult) :
    HashTask × Poll (Option (Except IoError Bytes)) :=
  let t := ws.foldl (step sha1) t
  match t.queue with
  | item :: queue => ({ t with queue }, .ready (some item))
  | [] => if t.pc = .done then (t, .ready none) else (t, .pending)

/-- The channel as a stream. -/
def stream (sha1 : Bytes → Digest) : PollStream HashTask (List ReadResult) IoError UInt8 where
  poll := recv sha1

/-! ## What the channel delivers -/

/-- The bytes of a sent item. -/
def itemBytes : Except IoError Bytes → Bytes
  | .ok bytes => bytes
  | .error _ => []

/-- The bytes the task is about to send. -/
def inHand : HashPc → Bytes
  | .send buffer => buffer
  | _ => []

/-- The content of the file the task reads. -/
def content (t : HashTask) : Bytes := (t.reader.file.map File.content).getD []

/-- The part of the file from the offset on that is not read yet. -/
def unread (t : HashTask) : Bytes := t.content.drop (max (t.offset.getD 0) t.readOff)

/-- What the receiver has still to get. -/
def rest (t : HashTask) : Bytes := t.queue.flatMap itemBytes ++ (inHand t.pc ++ t.unread)

/-- How many steps a place in the loop is away from the next read. -/
def pcRank : HashPc → Nat
  | .loop => 2
  | .send _ => 4
  | .fail _ => 1
  | .remove => 1
  | .done => 0

/-- Reading a byte pays for sending and receiving the buffer it came with. -/
def rank (t : HashTask) : Nat := 4 * (t.fileSize - t.readOff) + pcRank t.pc + t.queue.length

/-- The task has read the file up to `readOff`, nothing has failed, and it leaves
the loop only at the end of the file. -/
structure Inv (t : HashTask) : Prop where
  cap : 0 < t.reader.capacity
  file : t.reader.state = .state (some { content := t.content, pos := t.readOff })
  size : t.content.length = t.fileSize
  sent : ∀ item ∈ t.queue, ∃ bytes, item = .ok bytes
  listening : t.closed = false
  sound : ∀ err, t.pc ≠ .fail err
  finished : t.pc = .remove ∨ t.pc = .done → t.fileSize ≤ t.readOff

/-- Cutting: the selected part of a buffer and the file behind it are the file
from the offset on, wherever the offset falls. -/
theorem select_unread (offset : Option Nat) {c buffer : Bytes} {pos : Nat}
    (hread : c.drop pos = buffer ++ c.drop (pos + buffer.length)) :
    (select offset (pos + buffer.length) buffer).getD [] ++
        c.drop (max (offset.getD 0) (pos + buffer.length)) =
      c.drop (max (offset.getD 0) pos) := by
  cases offset with
  | none =>
      show buffer ++ c.drop (max 0 (pos + buffer.length)) = c.drop (max 0 pos)
      rw [Nat.zero_max, Nat.zero_max, hread]
  | some o =>
      show (select (some o) (pos + buffer.length) buffer).getD [] ++
        c.drop (max o (pos + buffer.length)) = c.drop (max o pos)
      unfold select
      dsimp only
      split
      · rename_i hlt
        rw [Nat.max_eq_right (Nat.le_of_lt hlt)]
        split
        · -- the offset is inside the buffer
          rename_i hgt
          have hcut : buffer.length - (pos + buffer.length - o) = o - pos := by omega
          show buffer.drop (buffer.length - (pos + buffer.length - o)) ++
            c.drop (pos + buffer.length) = c.drop (max o pos)
          have hsplit : c.drop o = (c.drop pos).drop (o - pos) := by
            rw [List.drop_drop]
            congr 1
            omega
          rw [hcut, Nat.max_eq_left (by omega), hsplit, hread,
            List.drop_append_of_le_length (by omega)]
        · -- the buffer starts at the offset or behind it
          rename_i hle
          rw [Nat.max_eq_right (by omega)]
          exact hread.symm
      · -- the buffer ends before the offset
        rw [Nat.max_eq_left (by omega), Nat.max_eq_left (by omega)]
        rfl

/-- What a step of the task may do: the content to come stays, and the rank drops
unless the step waits for the receiver. -/
structure Moves (t t' : HashTask) : Prop where
  inv : Inv t'
  rest_eq : rest t' = rest t
  rank_le : rank t' ≤ rank t
  rank_lt : t'.queue = [] → t'.pc ≠ .done → rank t' < rank t

theorem Moves.refl {t : HashTask} (ht : Inv t) (h : t.queue ≠ [] ∨ t.pc = .done) : Moves t t where
  inv := ht
  rest_eq := rfl
  rank_le := Nat.le_refl _
  rank_lt hq hpc := by
    rcases h with h | h
    · exact absurd hq h
    · exact absurd h hpc

/-- A read that returns at least a byte, and the loop body after it. -/
theorem handle_moves {t : HashTask} (ht : Inv t) (hpc : t.pc = .loop)
    (hlt : t.readOff < t.fileSize) (n : Nat) :
    Moves t (t.handle (t.reader.read (.short n)).1
      ((File.rest ⟨t.content, t.readOff⟩).take (min (n + 1) t.reader.capacity))) := by
  set f : File := ⟨t.content, t.readOff⟩ with hf
  set buffer := f.rest.take (min (n + 1) t.reader.capacity) with hbuf
  have hcap := ht.cap
  have hsize := ht.size
  have hread : t.content.drop t.readOff = buffer ++ t.content.drop (t.readOff + buffer.length) :=
    f.read_rest t.reader.capacity n
  have hlen : 0 < buffer.length := by
    rw [hbuf, List.length_take, File.rest, List.length_drop]
    show 0 < min (min (n + 1) t.reader.capacity) (t.content.length - t.readOff)
    omega
  have hle : t.readOff + buffer.length ≤ t.fileSize := by
    have := congrArg List.length hread
    rw [List.length_append, List.length_drop, List.length_drop] at this
    omega
  have hreader : (t.reader.read (.short n)).1 =
      { t.reader with state := .state (some ⟨t.content, t.readOff + buffer.length⟩) } := by
    rw [FileReader.read, ht.file]
    rfl
  have hcont : (t.handle (t.reader.read (.short n)).1 buffer).content = t.content := by
    rw [content, handle, hreader]
    rfl
  have hdata : inHand (t.handle (t.reader.read (.short n)).1 buffer).pc =
      (select t.offset (t.readOff + buffer.length) buffer).getD [] := by
    rw [handle]
    dsimp only
    cases select t.offset (t.readOff + buffer.length) buffer <;> rfl
  have hrank : pcRank (t.handle (t.reader.read (.short n)).1 buffer).pc ≤ 4 := by
    rw [handle]
    dsimp only
    cases select t.offset (t.readOff + buffer.length) buffer <;> simp [pcRank]
  -- at least one byte has been read, and a byte outweighs the four places in the loop
  have hdrop : rank (t.handle (t.reader.read (.short n)).1 buffer) < rank t := by
    show 4 * (t.fileSize - (t.readOff + buffer.length)) +
      pcRank (t.handle (t.reader.read (.short n)).1 buffer).pc + t.queue.length < rank t
    rw [rank, hpc, pcRank]
    omega
  refine ⟨⟨?_, ?_, ?_, ht.sent, ht.listening, ?_, ?_⟩, ?_, Nat.le_of_lt hdrop, fun _ _ => hdrop⟩
  · rw [handle, hreader]
    exact hcap
  · rw [hcont]
    show (t.reader.read (.short n)).1.state = _
    rw [hreader]
    rfl
  · rw [hcont]
    exact hsize
  · intro err
    rw [handle]
    dsimp only
    cases select t.offset (t.readOff + buffer.length) buffer <;> exact HashPc.noConfusion
  · rw [handle]
    dsimp only
    cases select t.offset (t.readOff + buffer.length) buffer <;> simp
  · rw [rest, rest, unread, unread, hdata, hcont, hpc]
    show _ ++ (_ ++ t.content.drop (max (t.offset.getD 0) (t.readOff + buffer.length))) = _
    rw [select_unread t.offset hread]
    rfl

/-- Sending the buffer in hand, or waiting for room. -/
theorem trySend_moves {t : HashTask} (ht : Inv t) {buffer : Bytes} (hpc : t.pc = .send buffer) :
    Moves t (t.trySend (.ok buffer) .loop) := by
  have hopen : ¬t.closed = true := by
    rw [ht.listening]
    exact Bool.false_ne_true
  rw [trySend, if_neg hopen]
  split
  · -- the channel was empty: the buffer moves into it
    rename_i hroom
    have hrank : rank { t with queue := t.queue ++ [.ok buffer], pc := .loop } < rank t := by
      rw [rank, rank, hpc]
      simp only [pcRank, List.length_append, List.length_singleton]
      omega
    refine ⟨⟨ht.cap, ht.file, ht.size, ?_, ht.listening, fun _ => HashPc.noConfusion, ?_⟩,
      ?_, Nat.le_of_lt hrank, fun _ _ => hrank⟩
    · intro item hmem
      rcases List.mem_append.mp hmem with hmem | hmem
      · exact ht.sent item hmem
      · exact ⟨buffer, List.mem_singleton.mp hmem⟩
    · intro h
      rcases h with h | h <;> cases h
    · rw [rest, rest, hpc]
      show (t.queue ++ [Except.ok buffer]).flatMap itemBytes ++ ([] ++ t.unread) = _
      rw [List.flatMap_append, List.append_assoc]
      simp [itemBytes, inHand]
  · rename_i hfull
    -- the channel holds one item: the task waits for the receiver
    refine Moves.refl ht (.inl fun h => hfull ?_)
    rw [h]
    exact Nat.zero_lt_one

/-- Leaving the loop or the task at the end of the file. -/
theorem exit_moves {t : HashTask} (ht : Inv t) {pc : HashPc} (hend : t.fileSize ≤ t.readOff)
    (hpc : pc = .remove ∨ pc = .done) (hlt : pcRank pc < pcRank t.pc) (hhand : inHand t.pc = []) :
    Moves t { t with pc } := by
  have hrank : rank { t with pc } < rank t := by
    rw [rank, rank]
    show 4 * (t.fileSize - t.readOff) + pcRank pc + t.queue.length < _
    omega
  refine ⟨⟨ht.cap, ht.file, ht.size, ht.sent, ht.listening, ?_, fun _ => hend⟩, ?_,
    Nat.le_of_lt hrank, fun _ _ => hrank⟩
  · intro err
    rcases hpc with rfl | rfl <;> exact HashPc.noConfusion
  · rw [rest, rest, hhand]
    rcases hpc with rfl | rfl <;> rfl

/-- Every step whose read returns is one of the above. -/
theorem step_moves (sha1 : Bytes → Digest) {t : HashTask} (ht : Inv t) (n : Nat) :
    Moves t (step sha1 t (.short n)) := by
  unfold step
  split
  · -- the head of the loop
    rename_i hpc
    split
    · rename_i hlt
      have hread : t.reader.read (.short n) = ((t.reader.read (.short n)).1,
          .ok ((File.rest ⟨t.content, t.readOff⟩).take (min (n + 1) t.reader.capacity))) := by
        rw [FileReader.read, ht.file]
        rfl
      rw [hread]
      exact handle_moves ht hpc hlt n
    · rename_i hend
      have hend : t.fileSize ≤ t.readOff := Nat.le_of_not_lt hend
      split
      · exact exit_moves ht hend (.inl rfl) (by rw [hpc]; decide) (by rw [hpc]; rfl)
      · exact exit_moves ht hend (.inr rfl) (by rw [hpc]; decide) (by rw [hpc]; rfl)
  · rename_i buffer hpc
    exact trySend_moves ht hpc
  · rename_i err hpc
    -- an error is only sent after a failed read
    exact absurd hpc (ht.sound err)
  · rename_i hpc
    exact exit_moves ht (ht.finished (.inl hpc)) (.inr rfl) (by rw [hpc]; decide) (by rw [hpc]; rfl)
  · rename_i hpc
    exact Moves.refl ht (.inr hpc)

/-- Several steps: the rank has dropped if the last one did not wait. -/
theorem foldl_moves (sha1 : Bytes → Digest) {t : HashTask} (ht : Inv t) {ws : List ReadResult}
    (hws : FileReader.ErrorFree ws) :
    Inv (ws.foldl (step sha1) t) ∧ rest (ws.foldl (step sha1) t) = rest t ∧
      rank (ws.foldl (step sha1) t) ≤ rank t ∧
      (ws ≠ [] → (ws.foldl (step sha1) t).queue = [] → (ws.foldl (step sha1) t).pc ≠ .done →
        rank (ws.foldl (step sha1) t) < rank t) := by
  -- from the back: whether the task waits is up to its last step
  induction ws using List.reverseRecOn with
  | nil => exact ⟨ht, rfl, Nat.le_refl _, fun h => absurd rfl h⟩
  | append_singleton ws res ih =>
      rcases ih fun r hr => hws r (List.mem_append_left _ hr) with ⟨hinv, hrest, hle, -⟩
      rcases hws res (List.mem_append_right _ List.mem_cons_self) with ⟨n, rfl⟩
      have hstep := step_moves sha1 hinv n
      rw [List.foldl_append, List.foldl_cons, List.foldl_nil]
      refine ⟨hstep.inv, hstep.rest_eq.trans hrest, Nat.le_trans hstep.rank_le hle, ?_⟩
      intro _ hq hpc
      exact Nat.lt_of_lt_of_le (hstep.rank_lt hq hpc) hle

/-- Without read errors the channel delivers the file from the offset on. -/
theorem recv_ranked (sha1 : Bytes → Digest) :
    PollStream.Ranked (stream sha1) FileReader.ErrorFree FileReader.Works Inv rest rank where
  poll_ok t ws ht hws := by
    rcases foldl_moves sha1 ht hws with ⟨hinv, hrest, hle, hlt⟩
    show PollStream.PollOk FileReader.Works Inv rest rank t ws (recv sha1 t ws)
    unfold recv
    dsimp only
    set t' := ws.foldl (step sha1) t
    split
    · -- an item is received
      rename_i item queue hq
      rcases hinv.sent item (by rw [hq]; exact List.mem_cons_self) with ⟨bytes, rfl⟩
      refine ⟨⟨hinv.cap, hinv.file, hinv.size, ?_, hinv.listening, hinv.sound, hinv.finished⟩, ?_,
        ?_⟩
      · intro item hmem
        exact hinv.sent item (by rw [hq]; exact List.mem_cons_of_mem _ hmem)
      · rw [← hrest, rest, hq, List.flatMap_cons, List.append_assoc]
        rfl
      · apply Nat.lt_of_lt_of_le _ hle
        rw [rank, rank, hq, List.length_cons]
        exact Nat.lt_succ_self _
    · rename_i hq
      split
      · -- the sender is gone: the whole file has been read and sent
        rename_i hpc
        have hend := hinv.finished (.inr hpc)
        have hsize := hinv.size
        show rest t = []
        rw [← hrest, rest, hq, hpc, unread, List.drop_eq_nil_of_le (by omega)]
        rfl
      · rename_i hpc
        exact ⟨hinv, hrest, hle, fun hw => hlt hw hq hpc⟩

end HashTask

/-! ## get_file -/

/-- The stream `get_file` returns, boxed in the source: the reader itself, or the
receiving end of the background task. -/
abbrev FileStream := FileReader ⊕ HashTask

namespace FileStream

/-- Polling whichever stream it is. -/
def stream (sha1 : Bytes → Digest) : PollStream FileStream (List ReadResult) IoError UInt8 :=
  PollStream.sum FileReader.stream (HashTask.stream sha1)

/-- A stream nothing has gone wrong with. -/
def Inv : FileStream → Prop := Sum.elim FileReader.Inv HashTask.Inv

/-- What the stream has still to yield. -/
def rest : FileStream → Bytes := Sum.elim FileReader.rest HashTask.rest

/-- The rank of whichever stream it is. -/
def rank : FileStream → Nat := Sum.elim FileReader.rank HashTask.rank

theorem ranked (sha1 : Bytes → Digest) :
    PollStream.Ranked (stream sha1) FileReader.ErrorFree FileReader.Works Inv rest rank :=
  FileReader.pollNext_ranked.sum (HashTask.recv_ranked sha1)

end FileStream

/-- `CacheFileResult`. -/
inductive CacheFileResult (α : Type) where
  | fullFile (stream : α)
  | partialFile (stream : α)
  | notFound

/-- `std::fs::Metadata`, times in nanoseconds. -/
structure Metadata where
  isFile : Bool
  len : Nat
  mtime : Int
deriving DecidableEq, Repr

/-- What the system calls of one `get_file` return: the metadata and the open
file (none on an error), the clock, and the error of a seek, if it fails. -/
structure Lookup where
  metadata : Option Metadata
  opened : Option Bytes
  now : Int
  seek : Option IoError
deriving DecidableEq, Repr

/-- `Duration::from_secs(60 * 60 * 24 * 7)`. -/
def oneWeek : Int := 60 * 60 * 24 * 7 * 1000000000

/-- A file this recent is not hashed again. -/
def Lookup.recent (look : Lookup) (metadata : Metadata) : Prop :=
  metadata.mtime ≥ look.now - oneWeek

instance (look : Lookup) (metadata : Metadata) : Decidable (look.recent metadata) :=
  inferInstanceAs (Decidable (_ ≥ _))

/-- `CacheManager::get_file`. -/
def getFile (look : Lookup) (info : CacheFileInfo) (offset : Option Nat) :
    CacheFileResult FileStream :=
  match look.metadata with
  | none => .notFound
  | some metadata =>
      if metadata.isFile = false ∨ metadata.len ≠ info.fileSize then .notFound
      else
        match look.opened with
        | none => .notFound
        | some content =>
            let fileReader := FileReader.new content (64 * 1024)
            if look.recent metadata then
              match offset with
              | none => .fullFile (.inl fileReader)
              | some offset =>
                  if offset ≠ 0 then
                    match fileReader.seek offset look.seek with
                    | (fileReader, .ok _) => .partialFile (.inl fileReader)
                    | (fileReader, .error _) => .fullFile (.inl fileReader)
                  else .fullFile (.inl fileReader)
            else
              let task := HashTask.spawn info metadata.len offset fileReader
              if offset.isSome then .partialFile (.inr task) else .fullFile (.inr task)

/-- The file is in the cache: a regular file of the size its id declares, that can
be opened. -/
structure Lookup.Cached (look : Lookup) (info : CacheFileInfo) (content : Bytes)
    (metadata : Metadata) : Prop where
  found : look.metadata = some metadata
  regular : metadata.isFile = true
  len : metadata.len = info.fileSize
  opened : look.opened = some content
  size : content.length = info.fileSize

/-- The state of a stream `get_file` has just made for the content `c` from
`offset` on. -/
def Serves (s : FileStream) (c : Bytes) (offset : Nat) : Prop :=
  s.Inv ∧ s.rest = c.drop offset

/-- A new background task has the whole file before it. -/
theorem spawn_serves (info : CacheFileInfo) (c : Bytes) (offset : Option Nat) {capacity : Nat}
    (hcap : 0 < capacity) :
    Serves (.inr (HashTask.spawn info c.length offset (FileReader.new c capacity))) c
      (offset.getD 0) := by
  refine ⟨⟨hcap, rfl, rfl, ?_, rfl, fun _ => HashPc.noConfusion, ?_⟩, ?_⟩
  · intro item hmem
    exact absurd hmem List.not_mem_nil
  · intro h
    rcases h with h | h <;> cases h
  · show c.drop (max (offset.getD 0) 0) = c.drop (offset.getD 0)
    rw [Nat.max_zero]

/-- `get_file` on a cached file: a partial result is the file from the offset on,
a full one the file from its start, and a full one is given only if there is
no offset, the offset is zero, or a seek failed. -/
theorem getFile_serves {look : Lookup} {info : CacheFileInfo} {c : Bytes} {metadata : Metadata}
    (hcached : look.Cached info c metadata) (offset : Option Nat) :
    (∃ s o, offset = some o ∧ getFile look info offset = .partialFile s ∧ Serves s c o) ∨
    (∃ s, getFile look info offset = .fullFile s ∧ Serves s c 0 ∧
      ∀ o, offset = some o → o = 0 ∨ (look.recent metadata ∧ look.seek ≠ none)) := by
  have hcap : 0 < 64 * 1024 := by decide
  have hfound : ¬(metadata.isFile = false ∨ metadata.len ≠ info.fileSize) := by
    rintro (h | h)
    · rw [hcached.regular] at h
      exact Bool.noConfusion h
    · exact h hcached.len
  have hsize : metadata.len = c.length := hcached.len.trans hcached.size.symm
  unfold getFile
  rw [hcached.found, hcached.opened]
  dsimp only
  rw [if_neg hfound]
  split
  · rename_i hrecent
    cases offset with
    | none => exact .inr ⟨_, rfl, ⟨⟨hcap, rfl⟩, rfl⟩, nofun⟩
    | some o =>
        dsimp only
        by_cases h0 : o = 0
        · -- the start of the file needs no seek
          rw [if_neg (not_not_intro h0)]
          exact .inr ⟨_, rfl, ⟨⟨hcap, rfl⟩, rfl⟩, fun o' h => .inl (Option.some.inj h ▸ h0)⟩
        · rw [if_pos h0]
          cases hseek : look.seek with
          | none => exact .inl ⟨_, o, rfl, rfl, ⟨hcap, rfl⟩, rfl⟩
          | some e =>
              refine .inr ⟨_, rfl, ⟨⟨hcap, rfl⟩, rfl⟩, fun o' _ => .inr ⟨hrecent, ?_⟩⟩
              exact Option.some_ne_none e
  · rw [hsize]
    cases offset with
    | none => exact .inr ⟨_, rfl, spawn_serves info c none hcap, nofun⟩
    -- the task skips to the offset itself, so no seek can fail
    | some o => exact .inl ⟨_, o, rfl, rfl, spawn_serves info c (some o) hcap⟩

end Hath
