import Hath.Basic

/-!
# Hath.CacheManager.FileInfo — cache file ids

`CacheFileInfo` and what `cache_manager.rs` does with one: parsing an id
(`fromFileId`), the file's name and path (`toPath`) and its static range.
Hexadecimal text and integer parsing follow `const_hex` and `u32::from_str`:
an optional `0x` or `0X` before the hash and an optional `+` before a number
are accepted, upper-case digits too.
-/

namespace Hath

/-! ## Hexadecimal text and integers -/

/-- The value of a hexadecimal digit, either case. -/
def hexVal (c : Char) : Option Nat :=
  if '0' ≤ c ∧ c ≤ '9' then some (c.toNat - '0'.toNat)
  else if 'a' ≤ c ∧ c ≤ 'f' then some (c.toNat - 'a'.toNat + 10)
  else if 'A' ≤ c ∧ c ≤ 'F' then some (c.toNat - 'A'.toNat + 10)
  else none

/-- The bytes of a text of hexadecimal digit pairs. -/
def decodePairs : Text → Option Bytes
  | [] => some []
  | [_] => none
  | a :: b :: rest => do
      let x ← hexVal a
      let y ← hexVal b
      let bytes ← decodePairs rest
      some (UInt8.ofNat (16 * x + y) :: bytes)

/-- `const_hex::decode_to_array` at 20 bytes: strips `0x` or `0X`, then wants
exactly forty digits. -/
def decodeToArray (s : Text) : Option Digest :=
  let digits := match s with
    | '0' :: 'x' :: rest => rest
    | '0' :: 'X' :: rest => rest
    | _ => s
  match decodePairs digits with
  | some bytes => if h : bytes.length = 20 then some ⟨bytes.toArray, by simp [h]⟩ else none
  | none => none

/-- `const_hex::encode`: two lower-case digits a byte. -/
def encode (bytes : Bytes) : Text :=
  bytes.flatMap fun b => [Nat.digitChar (b.toNat / 16), Nat.digitChar (b.toNat % 16)]

/-- The number a text of decimal digits denotes. -/
def digitsValue (ds : Text) : Nat := ds.foldl (fun n c => 10 * n + (c.toNat - '0'.toNat)) 0

/-- `u32::from_str`: an optional plus sign, at least one digit, no overflow. -/
def parseU32 (s : Text) : Option U32 :=
  let ds := match s with
    | '+' :: rest => rest
    | _ => s
  if ds ≠ [] ∧ ds.all Char.isDigit ∧ digitsValue ds < 2 ^ 32
  then some (BitVec.ofNat 32 (digitsValue ds)) else none

/-! ## File types -/

inductive FileType where
  | jpeg
  | png
  | gif
  | mp4
  | webm
  | webp
  | avif
  | jpegxl
  | other (s : Text)
deriving DecidableEq, Repr

namespace FileType

def asStr : FileType → Text
  | jpeg => ['j', 'p', 'g']
  | png => ['p', 'n', 'g']
  | gif => ['g', 'i', 'f']
  | mp4 => ['m', 'p', '4']
  | webm => ['w', 'b', 'm']
  | webp => ['w', 'b', 'p']
  | avif => ['a', 'v', 'f']
  | jpegxl => ['j', 'x', 'l']
  | other s => s

/-- `impl From<&str> for FileType`. -/
def ofText (s : Text) : FileType :=
  if s = ['j', 'p', 'g'] then jpeg
  else if s = ['p', 'n', 'g'] then png
  else if s = ['g', 'i', 'f'] then gif
  else if s = ['m', 'p', '4'] then mp4
  else if s = ['w', 'b', 'm'] then webm
  else if s = ['w', 'b', 'p'] then webp
  else if s = ['a', 'v', 'f'] then avif
  else if s = ['j', 'x', 'l'] then jpegxl
  else other s

/-- The `Content-Type` text. -/
def toMime : FileType → Text
  | jpeg => "image/jpeg".toList
  | png => "image/png".toList
  | gif => "image/gif".toList
  | mp4 => "video/mp4".toList
  | webm => "video/webm".toList
  | webp => "image/webp".toList
  | avif => "image/avif".toList
  | jpegxl => "image/jxl".toList
  | other _ => "application/octet-stream".toList

end FileType

/-! ## Cache file info -/

structure CacheFileInfo where
  hash : Digest
  size : U32
  xres : U32
  yres : U32
  mimeType : FileType
deriving DecidableEq

namespace CacheFileInfo

/-- `CacheFileInfo::from_file_id`: `hash-size-type` or
`hash-size-xres-yres-type`, further fields ignored. -/
def fromFileId (id : Text) : Option CacheFileInfo := do
  let part := id.splitOn '-'
  let noneRes := part.length = 3
  let hash ← part[0]? >>= decodeToArray
  let size ← part[1]? >>= parseU32
  let xres ← if noneRes then some 0 else part[2]? >>= parseU32
  let yres ← if noneRes then some 0 else part[3]? >>= parseU32
  let mimeType ← if noneRes then part[2]? else part[4]?
  some { hash, size, xres, yres, mimeType := FileType.ofText mimeType }

/-- The size the id declares, `info.size() as u64`. -/
def fileSize (info : CacheFileInfo) : Nat := info.size.toNat

/-- The file name that `to_path` prints. -/
def fileName (info : CacheFileInfo) : Text :=
  let hash := encode info.hash.toList
  let dec (n : U32) : Text := Nat.toDigits 10 n.toNat
  if 0 < info.xres.toNat then
    hash ++ '-' :: dec info.size ++ '-' :: dec info.xres ++ '-' :: dec info.yres ++
      '-' :: info.mimeType.asStr
  else
    hash ++ '-' :: dec info.size ++ '-' :: info.mimeType.asStr

/-- `PathBuf::push` on Unix: an absolute component replaces the path, any other
one is appended after a separator. -/
def push (path comp : Text) : Text :=
  if comp.head? = some '/' then comp
  else if path = [] ∨ path.getLast? = some '/' then path ++ comp
  else path ++ '/' :: comp

/-- `CacheFileInfo::to_path`. -/
def toPath (info : CacheFileInfo) (cacheDir : Text) : Text :=
  let hash := encode info.hash.toList
  push (push (push cacheDir (hash.take 2)) ((hash.drop 2).take 2)) info.fileName

/-- `CacheFileInfo::static_range`: the first four digits of the hash. -/
def staticRange (info : CacheFileInfo) : Text := encode (info.hash.toList.take 2)

end CacheFileInfo

/-- The id of the three-byte file `abc`. -/
def abcInfo : CacheFileInfo where
  hash := abcDigest
  size := 3
  xres := 0
  yres := 0
  mimeType := .jpeg

theorem abcInfo_id : CacheFileInfo.fromFileId abcInfo.fileName = some abcInfo ∧
    abcInfo.staticRange = "a999".toList := by
  decide +kernel

end Hath
