import Mathlib.Data.BitVec

/-!
# Hath.Basic — types shared by the model

The client's texts are lists of characters (a Rust `str` is one, and every
operation the code uses is a character operation), its file contents are lists
of bytes, and the counters that can wrap are bit vectors of the code's own
width.
-/

namespace Hath

/-- File and body contents. -/
abbrev Bytes := List UInt8

/-- Text: request paths, file names, header values. -/
abbrev Text := List Char

/-- A SHA-1 value, `[u8; 20]` in the source. -/
abbrev Digest := Vector UInt8 20

abbrev U32 := BitVec 32

abbrev U64 := BitVec 64

/-- An I/O error. The code only logs it or passes it on, except for the
`ResourceBusy` one that `FileReader` makes itself. -/
inductive IoError where
  | os
  | resourceBusy
deriving DecidableEq, Repr

/-! ## A concrete file

The concrete runs of this development download the three bytes `abc`. -/

/-- The SHA-1 of `abc`. -/
def abcDigest : Digest :=
  #v[0xa9, 0x99, 0x3e, 0x36, 0x47, 0x06, 0x81, 0x6a, 0xba, 0x3e, 0x25, 0x71, 0x78, 0x50, 0xc2, 0x6c,
    0x9c, 0xd0, 0xd8, 0x9d]

/-- SHA-1, as far as the concrete runs use it. -/
def abcSha1 (bytes : Bytes) : Digest :=
  if bytes = [97, 98, 99] then abcDigest else Vector.replicate 20 0

end Hath
