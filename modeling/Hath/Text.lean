import Hath.CacheManager.FileInfo

/-!
# Hath.Text — strings as the client handles them

The `str` operations that the requests, the server's answers and the gallery metadata
go through: decimal numbers and `from_str` for the integer types, `lines`, joining
with a separator, and the hexadecimal SHA-1 of a string (`string_to_hash`). `split`
is `List.splitOn`.

* `parseInt_natText` — a number that fits the type is read back from its digits;
* `lines_joinLines` — `lines` takes a text of clean lines apart again.
-/

namespace Hath

/-! ## Numbers -/

/-- `to_string` of an unsigned number. -/
def natText (n : Nat) : Text := Nat.toDigits 10 n

/-- `to_string` of a signed number. -/
def intText (n : Int) : Text := if n < 0 then '-' :: natText n.natAbs else natText n.natAbs

/-- `from_str` at an unsigned type of `bits` bits: an optional plus sign, at least one
digit, no overflow. -/
def parseNat (bits : Nat) (s : Text) : Option Nat :=
  let ds := match s with
    | '+' :: rest => rest
    | _ => s
  if ds ≠ [] ∧ ds.all Char.isDigit ∧ digitsValue ds < 2 ^ bits then some (digitsValue ds) else none

/-- `from_str` at a signed type of `bits` bits: an optional sign, at least one digit, no
overflow. -/
def parseInt (bits : Nat) (s : Text) : Option Int :=
  let digits (ds : Text) : Option Nat :=
    if ds ≠ [] ∧ ds.all Char.isDigit then some (digitsValue ds) else none
  match s with
  | '-' :: rest => (digits rest).bind fun n => if n ≤ 2 ^ (bits - 1) then some (-(n : Int)) else none
  | '+' :: rest => (digits rest).bind fun n => if n < 2 ^ (bits - 1) then some (n : Int) else none
  | _ => (digits s).bind fun n => if n < 2 ^ (bits - 1) then some (n : Int) else none

/-- `bool::from_str`. -/
def parseBool (s : Text) : Option Bool :=
  if s = "true".toList then some true else if s = "false".toList then some false else none

theorem natText_isDigit {n : Nat} {c : Char} (h : c ∈ natText n) : c.isDigit :=
  Nat.isDigit_of_mem_toDigits (by decide) (by decide) h

theorem natText_ne_nil (n : Nat) : natText n ≠ [] := Nat.toDigits_ne_nil

theorem digitsValue_natText (n : Nat) : digitsValue (natText n) = n :=
  Nat.ofDigitChars_ten_toDigits

theorem natText_injective {m n : Nat} (h : natText m = natText n) : m = n := by
  rw [← digitsValue_natText m, h, digitsValue_natText]

/-- A character that is no digit is not in a decimal number. -/
theorem not_mem_natText {n : Nat} {c : Char} (h : c.isDigit = false) : c ∉ natText n := by
  intro hc
  rw [natText_isDigit hc] at h
  cases h

@[simp] theorem intText_natCast (n : Nat) : intText (n : Int) = natText n := by
  unfold intText
  rw [if_neg (by omega)]
  rfl

theorem intText_eq (n : Int) :
    (0 ≤ n ∧ intText n = natText n.natAbs) ∨ (n < 0 ∧ intText n = '-' :: natText n.natAbs) := by
  unfold intText
  split
  · rename_i h
    exact .inr ⟨h, rfl⟩
  · rename_i h
    exact .inl ⟨by omega, rfl⟩

theorem natText_all_isDigit (n : Nat) : (natText n).all Char.isDigit = true :=
  List.all_eq_true.mpr fun _ hc => natText_isDigit hc

/-- A decimal number starts with no sign. -/
theorem natText_eq_cons (n : Nat) : ∃ c ds, natText n = c :: ds ∧ c ≠ '-' ∧ c ≠ '+' := by
  cases hds : natText n with
  | nil => exact absurd hds (natText_ne_nil n)
  | cons c ds =>
      have hc : c.isDigit := natText_isDigit (n := n) (by rw [hds]; exact List.mem_cons_self)
      refine ⟨c, ds, rfl, ?_, ?_⟩
      · rintro rfl
        revert hc
        decide
      · rintro rfl
        revert hc
        decide

/-- What `from_str` makes of a decimal number, at a signed type. -/
theorem parseInt_natText (bits n : Nat) :
    parseInt bits (natText n) = if n < 2 ^ (bits - 1) then some (n : Int) else none := by
  have hall := natText_all_isDigit n
  have hval := digitsValue_natText n
  rcases natText_eq_cons n with ⟨c, ds, hds, hminus, hplus⟩
  rw [hds] at hall hval ⊢
  unfold parseInt
  split
  · rename_i heq
    exact absurd (List.cons.inj heq).1 hminus
  · rename_i heq
    exact absurd (List.cons.inj heq).1 hplus
  · simp [hall, hval]

/-- `from_str` reads back every number of a signed type. -/
theorem parseInt_intText {bits : Nat} {n : Int} (hlow : -2 ^ (bits - 1) ≤ n)
    (hhigh : n < 2 ^ (bits - 1)) : parseInt bits (intText n) = some n := by
  have hcast : ((2 ^ (bits - 1) : Nat) : Int) = 2 ^ (bits - 1) := by push_cast; rfl
  unfold intText
  split
  · rename_i hneg
    have hfit : n.natAbs ≤ 2 ^ (bits - 1) := by omega
    unfold parseInt
    simp only [natText_ne_nil, natText_all_isDigit, digitsValue_natText, ne_eq, not_false_eq_true,
      and_self, if_true, Option.bind_some, if_pos hfit]
    congr 1
    omega
  · rw [parseInt_natText, if_pos (by omega)]
    congr 1
    omega

/-- What `from_str` makes of a decimal number, at an unsigned type. -/
theorem parseNat_natText {bits n : Nat} (h : n < 2 ^ bits) : parseNat bits (natText n) = some n := by
  have hall := natText_all_isDigit n
  have hval := digitsValue_natText n
  rcases natText_eq_cons n with ⟨c, ds, hds, -, hplus⟩
  rw [hds] at hall hval ⊢
  unfold parseNat
  split
  · rename_i heq
    exact absurd (List.cons.inj heq).1 hplus
  · simp [hall, hval, h]

/-- `from_str` gives only values of the type. -/
theorem parseNat_lt {bits n : Nat} {s : Text} (h : parseNat bits s = some n) : n < 2 ^ bits := by
  unfold parseNat at h
  simp only at h
  split at h
  · split at h
    · rename_i hc
      cases h
      exact hc.2.2
    · cases h
  · split at h
    · rename_i hc
      cases h
      exact hc.2.2
    · cases h

theorem parseInt_bounds {bits : Nat} {n : Int} {s : Text} (h : parseInt bits s = some n) :
    -2 ^ (bits - 1) ≤ n ∧ n < 2 ^ (bits - 1) := by
  have hcast : ((2 ^ (bits - 1) : Nat) : Int) = 2 ^ (bits - 1) := by push_cast; rfl
  have hpos : 0 < 2 ^ (bits - 1) := Nat.pow_pos (by decide)
  unfold parseInt at h
  simp only at h
  split at h
  all_goals
    rcases Option.bind_eq_some_iff.mp h with ⟨m, -, hm⟩
    split at hm
    · cases hm
      omega
    · cases hm

/-! ## Lines -/

/-- A line without the carriage return before its newline. -/
def stripCr (line : Text) : Text := if line.getLast? = some '\r' then line.dropLast else line

/-- `str::lines`: what lies between newlines, a carriage return before a newline
removed; a text that ends in a newline has no empty last line. -/
def lines (s : Text) : List Text :=
  let pieces := s.splitOn '\n'
  let last := pieces.getLast?.getD []
  pieces.dropLast.map stripCr ++ if last = [] then [] else [last]

/-- Lines that `lines` gives back as they are. -/
def CleanLine (line : Text) : Prop := line ≠ [] ∧ '\r' ∉ line ∧ '\n' ∉ line

theorem stripCr_of_clean {line : Text} (h : CleanLine line) : stripCr line = line := by
  unfold stripCr
  rw [if_neg]
  intro hlast
  exact h.2.1 (List.mem_of_getLast? hlast)

/-- Lines joined by newlines. -/
def joinLines (ls : List Text) : Text := List.intercalate ['\n'] ls

/-- `lines` takes clean lines apart, with and without a newline at the end. -/
theorem lines_joinLines {ls : List Text} (hne : ls ≠ []) (h : ∀ l ∈ ls, CleanLine l) :
    lines (joinLines ls) = ls ∧ lines (joinLines ls ++ ['\n']) = ls := by
  have hsplit : (joinLines ls).splitOn '\n' = ls :=
    List.splitOn_intercalate '\n' (fun l hl => (h l hl).2.2) hne
  have hmap : ∀ l : List Text, (∀ x ∈ l, CleanLine x) → l.map stripCr = l := by
    intro l hl
    rw [List.map_congr_left (fun x hx => stripCr_of_clean (hl x hx)), List.map_id']
  constructor
  · have hlast : ls.getLast hne ≠ [] := (h _ (List.getLast_mem hne)).1
    unfold lines
    rw [hsplit]
    simp only
    rw [List.getLast?_eq_some_getLast hne, Option.getD_some, if_neg hlast,
      hmap _ (fun x hx => h x (List.mem_of_mem_dropLast hx)), List.dropLast_append_getLast hne]
  · have hsplit' : (joinLines ls ++ ['\n']).splitOn '\n' = ls ++ [[]] := by
      rw [List.splitOn_append_cons_self, hsplit, List.splitOn_nil]
    unfold lines
    rw [hsplit']
    simp [hmap ls h]

/-! ## Pairs -/

/-- The pairs `key=value` of a list of items; items without a `=` are left out, further
fields ignored. -/
def pairs (items : List Text) : List (Text × Text) :=
  items.filterMap fun kv =>
    match kv.splitOn '=' with
    | k :: v :: _ => some (k, v)
    | _ => none

/-- A `HashMap` filled with the pairs: a later one overwrites an earlier one of the same
key. -/
def pairMap (items : List Text) (key : String) : Option Text :=
  (pairs items).reverse.lookup key.toList

/-! ## Hashes -/

/-- `str::as_bytes`. -/
def utf8 (s : Text) : Bytes := s.flatMap String.utf8EncodeChar

/-- `string_to_hash`: the hexadecimal SHA-1 of a string. -/
def stringToHash (sha1 : Bytes → Digest) (s : Text) : Text := encode (sha1 (utf8 s)).toList

/-- SHA-1 as far as a table of texts gives it; the concrete runs are about such texts. -/
def sha1Table (table : List (Text × Digest)) (bytes : Bytes) : Digest :=
  ((table.find? fun p => utf8 p.1 = bytes).map (·.2)).getD (Vector.replicate 20 0)

theorem encode_length (bytes : Bytes) : (encode bytes).length = 2 * bytes.length := by
  unfold encode
  induction bytes with
  | nil => rfl
  | cons b bytes ih =>
      rw [List.flatMap_cons, List.length_append, ih]
      simp only [List.length_cons, List.length_nil]
      omega

theorem stringToHash_length (sha1 : Bytes → Digest) (s : Text) :
    (stringToHash sha1 s).length = 40 := by
  rw [stringToHash, encode_length, Vector.length_toList]

/-- A lower-case hexadecimal digit. -/
def isLowerHex (c : Char) : Bool := c.isDigit || ('a' ≤ c && c ≤ 'f')

theorem isLowerHex_digitChar {n : Nat} (h : n < 16) : isLowerHex (Nat.digitChar n) = true := by
  have hall : ∀ n : Fin 16, isLowerHex (Nat.digitChar n) = true := by decide
  exact hall ⟨n, h⟩

theorem encode_isLowerHex {bytes : Bytes} {c : Char} (h : c ∈ encode bytes) :
    isLowerHex c = true := by
  rcases List.mem_flatMap.mp h with ⟨b, -, hc⟩
  have hb := b.toNat_lt
  rcases List.mem_cons.mp hc with rfl | hc
  · exact isLowerHex_digitChar (by omega)
  · rw [List.mem_singleton.mp hc]
    exact isLowerHex_digitChar (by omega)

theorem not_mem_encode {bytes : Bytes} {c : Char} (h : isLowerHex c = false) :
    c ∉ encode bytes := by
  intro hc
  rw [encode_isLowerHex hc] at h
  cases h

/-- A character that is no hexadecimal digit is not in a hash. -/
theorem not_mem_stringToHash {sha1 : Bytes → Digest} {s : Text} {c : Char}
    (h : isLowerHex c = false) : c ∉ stringToHash sha1 s :=
  not_mem_encode h

/-! ## Hashes read back -/

theorem hexVal_digitChar {n : Nat} (h : n < 16) : hexVal (Nat.digitChar n) = some n := by
  have hall : ∀ n : Fin 16, hexVal (Nat.digitChar n) = some n.val := by decide
  exact hall ⟨n, h⟩

theorem decodePairs_encode (bytes : Bytes) : decodePairs (encode bytes) = some bytes := by
  induction bytes with
  | nil => rfl
  | cons b bytes ih =>
      have hb := b.toNat_lt
      have hcons : encode (b :: bytes) =
          Nat.digitChar (b.toNat / 16) :: Nat.digitChar (b.toNat % 16) :: encode bytes := rfl
      have hbyte : UInt8.ofNat (16 * (b.toNat / 16) + b.toNat % 16) = b := by
        rw [Nat.div_add_mod]
        exact UInt8.ofNat_toNat
      rw [hcons, decodePairs, hexVal_digitChar (by omega), hexVal_digitChar (by omega), ih]
      show some (UInt8.ofNat (16 * (b.toNat / 16) + b.toNat % 16) :: bytes) = _
      rw [hbyte]

/-- There is no `0x` or `0X` to strip. -/
theorem strip_eq (s : Text) : 'x' ∉ s → 'X' ∉ s →
    (match s with
      | '0' :: 'x' :: rest => rest
      | '0' :: 'X' :: rest => rest
      | _ => s) = s := by
  intro hx hX
  split
  · exact absurd (by simp) hx
  · exact absurd (by simp) hX
  · rfl

/-- A known hash is read back. -/
theorem decodeToArray_encode (hash : Digest) : decodeToArray (encode hash.toList) = some hash := by
  have hx : 'x' ∉ encode hash.toList := not_mem_encode rfl
  have hX : 'X' ∉ encode hash.toList := not_mem_encode rfl
  have hread {digits : Text} (h : digits = encode hash.toList) :
      decodePairs digits = some hash.toList := by
    rw [h, decodePairs_encode]
  fun_cases decodeToArray (encode hash.toList) with
  | case1 digits bytes hbytes hlen =>
      cases Option.some.inj (hbytes.symm.trans (hread (strip_eq _ hx hX)))
      rfl
  | case2 digits bytes hbytes hlen =>
      cases Option.some.inj (hbytes.symm.trans (hread (strip_eq _ hx hX)))
      exact absurd hash.length_toList hlen
  | case3 digits hbytes => cases hbytes.symm.trans (hread (strip_eq _ hx hX))

end Hath
