import Hath.CacheManager.GetFile
import Hath.Server.TruncateBody

/-!
# Hath.Route.CacheHit — answering a request from the cache

The part of `hath` (`route/cache.rs`) between the key check and the proxied
download: the entity tag and `If-None-Match`, the range of the request, the
cache lookup, and the response built on a hit. The range parser is a crate, a
parameter of the model; all the code relies on is that a validated range lies
inside the file.

* `hit_exact` — the response to a request for a cached file that is not answered
  with 304: a 206 with the length, range and bytes asked for, or a 200 with the
  whole file; the latter only without a range or after a failed seek.
-/

namespace Hath

open Lib

/-! ## Requests and responses -/

inductive StatusCode where
  | ok
  | partialContent
  | notModified
deriving DecidableEq, Repr

inductive HeaderName where
  | acceptRanges
  | cacheControl
  | contentDisposition
  | contentLength
  | contentRange
  | contentType
  | etag
deriving DecidableEq, Repr

/-- The headers of a request that `hath` looks at. A value that is not visible
ASCII has no text: `to_str` fails. -/
structure RequestHeaders where
  ifNoneMatch : Option (Option Text)
  range : Option (Option Text)
  ifRange : Option (Option Text)
deriving DecidableEq, Repr

/-- The bodies `hath` makes on this path. -/
inductive Body where
  | empty
  | fromStream (stream : FileStream)
  | truncated (body : TruncateBody FileStream)

structure Response where
  status : StatusCode
  headers : List (HeaderName × Text)
  body : Body

/-- The value of a response header. -/
def Response.header (r : Response) (name : HeaderName) : Option Text :=
  r.headers.lookup name

/-- The body yields `out`, whatever reads are short and however the polls and the
background work interleave, as long as no read fails. -/
def Body.Yields (sha1 : Bytes → Digest) (body : Body) (out : Bytes) : Prop :=
  match body with
  | .empty => out = []
  | .fromStream s =>
      PollStream.Delivers (FileStream.stream sha1) FileReader.ErrorFree FileReader.Works s out
  | .truncated b =>
      PollStream.Delivers (TruncateBody.stream (FileStream.stream sha1)) FileReader.ErrorFree
        FileReader.Works b out

/-! ## hath on a cache hit -/

/-- A number as the header formatter prints it. -/
def decimal (n : Nat) : Text := Nat.toDigits 10 n

def cacheHeader : Text := "public, max-age=31536000, immutable".toList

def defaultCd : Text := "inline".toList

/-- The bytes a `HeaderValue` accepts: no control characters but the tab. -/
def headerChar (c : Char) : Bool := (32 ≤ c.toNat && c.toNat != 127) || c == '\t'

/-- The `Content-Disposition` value, the default if the file name has a character
that no header may hold. -/
def contentDisposition (fileName : Text) : Text :=
  let value := "inline; filename=\"".toList ++ fileName ++ ['"']
  if value.all headerChar then value else defaultCd

/-- The entity tag: the first eight digits of the hash, quoted. -/
def etagOf (info : CacheFileInfo) : Text := '"' :: encode (info.hash.toList.take 4) ++ ['"']

/-- `If-None-Match` names the file's tag. -/
def notModified (headers : RequestHeaders) (info : CacheFileInfo) : Bool :=
  headers.ifNoneMatch.any fun h => h.any (· == etagOf info)

section Crate

variable {R : Type} (parseRangeHeader : Text → Option R)
  (validate : R → Nat → Option (List (Nat × Nat)))

/-- The range `hath` works with: the only one of a valid `Range` header, and none
if `If-Range` names another tag. -/
def effectiveRange (headers : RequestHeaders) (info : CacheFileInfo) : Option (Nat × Nat) :=
  let range := headers.range
    |>.bind id
    |>.bind parseRangeHeader
    |>.bind (validate · info.fileSize)
    |>.filter (fun r => r.length == 1)
    |>.bind List.head?
  if headers.ifRange.any fun h => h.any (· != etagOf info) then none else range

/-- The headers of both answers that carry the file. -/
def fileHeaders (info : CacheFileInfo) (fileName : Text) : List (HeaderName × Text) :=
  [(.cacheControl, cacheHeader), (.contentDisposition, contentDisposition fileName),
    (.contentType, info.mimeType.toMime), (.etag, etagOf info)]

/-- The `Content-Range` value of the bytes from `start` to `stop`. -/
def contentRange (start stop fileSize : Nat) : Text :=
  "bytes ".toList ++ decimal start ++ '-' :: decimal stop ++ '/' :: decimal fileSize

/-- The response to a hit, once it is settled whether the range is kept. -/
def hitResponse (info : CacheFileInfo) (fileName : Text) (stream : FileStream) :
    Option (Nat × Nat) → Response
  | some (start, stop) =>
      let contentLength := stop - start + 1
      { status := .partialContent
        headers := fileHeaders info fileName ++ [(.acceptRanges, "bytes".toList),
          (.contentLength, decimal contentLength),
          (.contentRange, contentRange start stop info.fileSize)]
        body := .truncated (TruncateBody.new stream contentLength) }
  | none =>
      { status := .ok
        headers := fileHeaders info fileName ++ [(.acceptRanges, "bytes".toList),
          (.contentLength, decimal info.fileSize)]
        body := .fromStream stream }

/-- `hath` from the entity tag to the response on a cache hit; none on a miss. -/
def hathCached (look : Lookup) (info : CacheFileInfo) (fileName : Text)
    (headers : RequestHeaders) : Option Response :=
  if notModified headers info then
    some {
      status := .notModified
      headers := [(.cacheControl, cacheHeader), (.contentLength, decimal info.fileSize),
        (.etag, etagOf info)]
      body := .empty }
  else
    let range := effectiveRange parseRangeHeader validate headers info
    match getFile look info (range.map Prod.fst) with
    | .fullFile stream =>
        -- a full stream although the range starts inside the file: the seek failed
        let kept := if range.any fun r => r.1 != 0 then none else range
        some (hitResponse info fileName stream kept)
    | .partialFile stream => some (hitResponse info fileName stream range)
    | .notFound => none

/-! ## Correctness -/

/-- The whole file, from a stream that has all of it. -/
theorem fromStream_yields (sha1 : Bytes → Digest) {s : FileStream} {c : Bytes}
    (hs : Serves s c 0) : (Body.fromStream s).Yields sha1 c := by
  have h := (FileStream.ranked sha1).delivers hs.1
  rw [hs.2, List.drop_zero] at h
  exact h

/-- The bytes of a range, from a stream that has the file from the start of the
range on. -/
theorem truncated_yields (sha1 : Bytes → Digest) {s : FileStream} {c : Bytes} {start stop : Nat}
    (hs : Serves s c start) (hle : start ≤ stop) :
    (Body.truncated (TruncateBody.new s (stop - start + 1))).Yields sha1
      (c.extract start (stop + 1)) := by
  have hlen : stop + 1 - start = stop - start + 1 := by omega
  have h := (TruncateBody.pollFrame_ranked (FileStream.ranked sha1)).delivers
    (s := TruncateBody.new s (stop - start + 1)) hs.1
  rw [List.extract_eq_take_drop, hlen, ← hs.2]
  exact h

/-- An effective range has passed the crate's validation. -/
theorem effectiveRange_valid
    (hvalid : ∀ r n ranges, validate r n = some ranges → ∀ p ∈ ranges, p.1 ≤ p.2 ∧ p.2 < n)
    {headers : RequestHeaders} {info : CacheFileInfo} {p : Nat × Nat}
    (h : effectiveRange parseRangeHeader validate headers info = some p) :
    p.1 ≤ p.2 ∧ p.2 < info.fileSize := by
  unfold effectiveRange at h
  dsimp only at h
  split at h
  · cases h
  · rcases Option.bind_eq_some_iff.mp h with ⟨ranges, hfilter, hhead⟩
    rcases Option.filter_eq_some_iff.mp hfilter with ⟨hranges, -⟩
    rcases Option.bind_eq_some_iff.mp hranges with ⟨r, -, hr⟩
    exact hvalid r info.fileSize ranges hr p (List.mem_of_mem_head? hhead)

/-- A request for a cached file that is not answered with 304 gets the range it
asks for, or the whole file: the latter only if it asks for no range or a seek
into a recent file failed. The ranges the crate returns lie inside the file. -/
theorem hit_exact (sha1 : Bytes → Digest)
    (hvalid : ∀ r n ranges, validate r n = some ranges → ∀ p ∈ ranges, p.1 ≤ p.2 ∧ p.2 < n)
    {look : Lookup} {info : CacheFileInfo} {c : Bytes} {metadata : Metadata}
    (hcached : look.Cached info c metadata) (fileName : Text) {headers : RequestHeaders}
    (hmodified : notModified headers info = false) :
    ∃ r, hathCached parseRangeHeader validate look info fileName headers = some r ∧
      ((∃ start stop,
          effectiveRange parseRangeHeader validate headers info = some (start, stop) ∧
          start ≤ stop ∧ stop < info.fileSize ∧ r.status = .partialContent ∧
          r.header .contentLength = some (decimal (stop - start + 1)) ∧
          r.header .contentRange = some (contentRange start stop info.fileSize) ∧
          r.body.Yields sha1 (c.extract start (stop + 1))) ∨
        (r.status = .ok ∧ r.header .contentLength = some (decimal info.fileSize) ∧
          r.header .contentRange = none ∧ r.body.Yields sha1 c ∧
          ∀ start stop,
            effectiveRange parseRangeHeader validate headers info = some (start, stop) →
            start ≠ 0 ∧ look.recent metadata ∧ look.seek ≠ none)) := by
  unfold hathCached
  rw [if_neg (by rw [hmodified]; exact Bool.false_ne_true)]
  dsimp only
  cases hrange : effectiveRange parseRangeHeader validate headers info with
  | none =>
      -- no range: the result is a full one, since no offset is asked for
      rcases getFile_serves hcached none with ⟨s, o, h, -, -⟩ | ⟨s, hget, hs, -⟩
      · cases h
      · refine ⟨hitResponse info fileName s none, ?_, .inr ⟨rfl, rfl, rfl, ?_, nofun⟩⟩
        · rw [Option.map_none, hget]
          rfl
        · exact fromStream_yields sha1 hs
  | some p =>
      rcases p with ⟨start, stop⟩
      rcases effectiveRange_valid parseRangeHeader validate hvalid hrange with ⟨hle, hlt⟩
      rw [Option.map_some]
      rcases getFile_serves hcached (some start) with ⟨s, o, ho, hget, hs⟩ | ⟨s, hget, hs, hfull⟩
      · -- a partial result keeps the range
        obtain rfl := Option.some.inj ho
        refine ⟨hitResponse info fileName s (some (start, stop)), ?_,
          .inl ⟨start, stop, rfl, hle, hlt, rfl, rfl, rfl, truncated_yields sha1 hs hle⟩⟩
        rw [hget]
      · by_cases h0 : start = 0
        · -- a full result keeps a range that starts with the file
          subst h0
          refine ⟨hitResponse info fileName s (some (0, stop)), ?_,
            .inl ⟨0, stop, rfl, hle, hlt, rfl, rfl, rfl, truncated_yields sha1 hs hle⟩⟩
          rw [hget]
          rfl
        · -- the seek failed: the range is dropped
          refine ⟨hitResponse info fileName s none, ?_,
            .inr ⟨rfl, rfl, rfl, fromStream_yields sha1 hs, ?_⟩⟩
          · rw [hget]
            show some (hitResponse info fileName s (if (start != 0) = true then none else _)) = _
            rw [if_pos (bne_iff_ne.mpr h0)]
          · intro start' stop' h
            rcases Prod.mk.inj (Option.some.inj h) with ⟨rfl, rfl⟩
            exact ⟨h0, (hfull start rfl).resolve_left h0⟩

end Crate

/-! ### The last two bytes of `abc` -/

/-- The crate on the one header of the run: `bytes=1-2`. -/
def abcRangeHeader (h : Text) : Option (Nat × Nat) :=
  if h = "bytes=1-2".toList then some (1, 2) else none

/-- The crate's validation of a single range with both ends. -/
def abcValidate (r : Nat × Nat) (fileSize : Nat) : Option (List (Nat × Nat)) :=
  if r.1 ≤ r.2 ∧ r.2 < fileSize then some [r] else none

/-- `abc` as a regular file, touched just now. -/
def abcMetadata : Metadata := { isFile := true, len := 3, mtime := 0 }

def abcLookup : Lookup :=
  { metadata := some abcMetadata, opened := some [97, 98, 99], now := 0, seek := none }

def abcHeaders : RequestHeaders :=
  { ifNoneMatch := none, range := some (some "bytes=1-2".toList), ifRange := none }

theorem hit_exact_abc :
    ∃ r, hathCached abcRangeHeader abcValidate abcLookup abcInfo [] abcHeaders = some r ∧
      r.status = .partialContent ∧ r.header .contentLength = some ['2'] ∧
      r.header .contentRange = some "bytes 1-2/3".toList ∧ r.body.Yields abcSha1 [98, 99] := by
  have hvalid : ∀ r n ranges, abcValidate r n = some ranges →
      ∀ p ∈ ranges, p.1 ≤ p.2 ∧ p.2 < n := by
    intro r n ranges h p hp
    unfold abcValidate at h
    split at h
    · rename_i hr
      obtain rfl := Option.some.inj h
      obtain rfl := List.mem_singleton.mp hp
      exact hr
    · cases h
  have hcached : abcLookup.Cached abcInfo [97, 98, 99] abcMetadata := ⟨rfl, rfl, rfl, rfl, rfl⟩
  have hmodified : notModified abcHeaders abcInfo = false := rfl
  have hrange : effectiveRange abcRangeHeader abcValidate abcHeaders abcInfo = some (1, 2) := by
    decide
  obtain ⟨r, hr, h⟩ := hit_exact abcRangeHeader abcValidate abcSha1 hvalid
    hcached [] hmodified
  refine ⟨r, hr, ?_⟩
  rcases h with ⟨start, stop, h, -, -, hstatus, hlen, hcr, hbody⟩ | ⟨-, -, -, -, hseek⟩
  · rcases Prod.mk.inj (Option.some.inj (hrange.symm.trans h)) with ⟨rfl, rfl⟩
    exact ⟨hstatus, hlen, hcr, hbody⟩
  · exact absurd rfl (hseek 1 2 hrange).2.2

end Hath
