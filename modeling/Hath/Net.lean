import Hath.Text

/-!
# Hath.Net — internet addresses as text

`IpAddr` with `from_str` and `to_string`. A `read…` function takes what it reads off
the front of a text and gives the rest, as the parser of the standard library does;
`parseIp` wants nothing to be left.
-/

namespace Hath

/-- An address. -/
inductive IpAddr where
  | v4 (bits : BitVec 32)
  | v6 (bits : BitVec 128)
deriving DecidableEq

/-- A peer address. -/
structure SocketAddr where
  ip : IpAddr
  port : BitVec 16
deriving DecidableEq

namespace IpAddr

/-! ## Reading -/

/-- The digits at the front of a text, in the given radix. -/
def spanDigits (radix : Nat) (s : Text) : Text × Text :=
  s.span fun c => (hexVal c).any (· < radix)

/-- `read_number`: at most `maxDigits` digits; without `zeroPrefix`, no zero in front. -/
def readNumber (radix maxDigits limit : Nat) (zeroPrefix : Bool) (s : Text) :
    Option (Nat × Text) :=
  let (ds, rest) := spanDigits radix s
  let n := ds.foldl (fun n c => radix * n + (hexVal c).getD 0) 0
  if ds = [] ∨ maxDigits < ds.length ∨ limit ≤ n then none
  else if !zeroPrefix ∧ ds.head? = some '0' ∧ 1 < ds.length then none
  else some (n, rest)

/-- `read_given_char`. -/
def readChar (c : Char) : Text → Option Text
  | [] => none
  | d :: rest => if d = c then some rest else none

/-- `read_separator`: the separator stands before every item but the first. -/
def readSeparator {α : Type} (sep : Char) (i : Nat) (inner : Text → Option (α × Text))
    (s : Text) : Option (α × Text) :=
  if 0 < i then (readChar sep s).bind inner else inner s

/-- `read_ipv4_addr`: four decimal octets. -/
def readIpv4 (s : Text) : Option (BitVec 32 × Text) := do
  let octet (i : Nat) := readSeparator '.' i (readNumber 10 3 256 false)
  let (a, s) ← octet 0 s
  let (b, s) ← octet 1 s
  let (c, s) ← octet 2 s
  let (d, s) ← octet 3 s
  some (BitVec.ofNat 32 (((a * 256 + b) * 256 + c) * 256 + d), s)

/-- `read_groups`, from the group `i` on: the groups, whether they end in an IPv4
address, and the rest. -/
def readGroups (limit : Nat) : (todo : Nat) → Text → List Nat × Bool × Text
  | 0, s => ([], false, s)
  | todo + 1, s =>
      let i := limit - (todo + 1)
      match if i < limit - 1 then readSeparator ':' i readIpv4 s else none with
      | some (bits, rest) => ([bits.toNat / 65536, bits.toNat % 65536], true, rest)
      | none =>
          match readSeparator ':' i (readNumber 16 4 65536 true) s with
          | some (g, rest) =>
              let (gs, ipv4, rest) := readGroups limit todo rest
              (g :: gs, ipv4, rest)
          | none => ([], false, s)

/-- The address of eight groups. -/
def ofGroups (gs : List Nat) : BitVec 128 :=
  BitVec.ofNat 128 (gs.foldl (fun n g => 65536 * n + g) 0)

/-- `read_ipv6_addr`: eight groups, or fewer around a `::`. -/
def readIpv6 (s : Text) : Option (BitVec 128 × Text) :=
  let (head, headIpv4, s) := readGroups 8 8 s
  if head.length = 8 then some (ofGroups head, s)
  else if headIpv4 then none
  else do
    let s ← readChar ':' s
    let s ← readChar ':' s
    let limit := 8 - (head.length + 1)
    let (tail, _, s) := readGroups limit limit s
    some (ofGroups (head ++ List.replicate (8 - head.length - tail.length) 0 ++ tail), s)

/-! ## Printing -/

/-- The octets of an IPv4 address, joined by dots. -/
def ipv4Text (bits : BitVec 32) : Text :=
  let n := bits.toNat
  List.intercalate ['.']
    [natText (n / 16777216), natText (n / 65536 % 256), natText (n / 256 % 256), natText (n % 256)]

/-- The eight groups of an IPv6 address. -/
def segments (bits : BitVec 128) : List Nat :=
  (List.range 8).map fun i => bits.toNat / 65536 ^ (7 - i) % 65536

/-- `to_ipv4_mapped`: the address behind `::ffff:`. -/
def toIpv4Mapped (bits : BitVec 128) : Option (BitVec 32) :=
  if bits.toNat / 2 ^ 32 = 65535 then some (bits.setWidth 32) else none

/-- The first longest run of zeros, as start and length: `i` groups lie behind, the run
that is open has `current` of them. -/
def zeroSpan : List Nat → (i current : Nat) → (longest : Nat × Nat) → Nat × Nat
  | [], _, _, longest => longest
  | g :: gs, i, current, longest =>
      if g = 0 then
        let longest := if longest.2 < current + 1 then (i - current, current + 1) else longest
        zeroSpan gs (i + 1) (current + 1) longest
      else zeroSpan gs (i + 1) 0 longest

/-- Groups in hexadecimal, joined by colons. -/
def groupsText (gs : List Nat) : Text := List.intercalate [':'] (gs.map (Nat.toDigits 16))

/-- `to_string` of an IPv6 address that is not IPv4-mapped. -/
def ipv6Text (bits : BitVec 128) : Text :=
  let gs := segments bits
  let span := zeroSpan gs 0 0 (0, 0)
  if 1 < span.2 then
    groupsText (gs.take span.1) ++ "::".toList ++ groupsText (gs.drop (span.1 + span.2))
  else groupsText gs

end IpAddr

/-- `IpAddr::from_str`. -/
def parseIp (s : Text) : Option IpAddr :=
  match IpAddr.readIpv4 s with
  | some (bits, rest) => if rest = [] then some (.v4 bits) else none
  | none => (IpAddr.readIpv6 s).bind fun r => if r.2 = [] then some (.v6 r.1) else none

/-- An address as `update_settings` stores it: IPv4-mapped addresses as IPv4. -/
def IpAddr.canonicalText : IpAddr → Text
  | .v4 bits => ipv4Text bits
  | .v6 bits => ((toIpv4Mapped bits).map ipv4Text).getD (ipv6Text bits)

end Hath
