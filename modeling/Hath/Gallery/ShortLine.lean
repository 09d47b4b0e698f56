import Hath.Gallery.Parser

/-!
# Hath.Gallery.ShortLine — where the parser panics

`parser` indexes the fields of a line by position: a value after the key of a header line,
six fields of a file line, one after the other, with the checks of a field before the
index of the next. A line that ends before a field that is read panics, unless a check
before it fails. This comes before the hash is looked at, so any text can do it.

* `short`, `rejected` — a line that lacks a field, and one that is an error;
* `parserLine_spec` — what a line does, from the phase and the line alone;
* `parser_panic_iff` — the lines at which the parser panics.
-/

namespace Hath.Gallery

open Lib

/-! ## Lines -/

/-- The keys of the header whose value is read. -/
def valueKeys : List Text :=
  ["GID".toList, "FILECOUNT".toList, "MINXRES".toList, "DLHASH".toList, "TITLE".toList]

/-- The fields end before one that is read, and nothing in front of it is an error. -/
def shortFields : List Text → Bool
  | [page] => (parseNat 64 page).isSome
  | [page, fileindex] | [page, fileindex, _] | [page, fileindex, _, _] =>
      (parseNat 64 page).isSome && (parseNat 64 fileindex).isSome
  | [page, fileindex, _, _, filetype] =>
      (parseNat 64 page).isSome && (parseNat 64 fileindex).isSome && allowFiletype filetype
  | _ => false

/-- A line that lacks a field. -/
def short : ParseState → Text → Bool
  | .header, s => valueKeys.contains s
  | .fileList, s => shortFields (splitn 6 s)
  | .information, _ => false

/-- A number, a file type or a file name is an error. -/
def badFields (split : List Text) : Bool :=
  split[0]?.any (fun s => (parseNat 64 s).isNone) ||
  split[1]?.any (fun s => (parseNat 64 s).isNone) ||
  split[4]?.any (fun s => !allowFiletype s) ||
  split[5]?.any (fun s => !isSafePath s || !allowFilename s)

/-- The number of a header line is an error. -/
def badValue : List Text → Bool
  | [key, value] =>
      key = "GID".toList && (parseInt 32 value).isNone ||
        key = "FILECOUNT".toList && (parseNat 64 value).isNone
  | _ => false

/-- A line that the parser returns an error for. -/
def rejected : ParseState → Text → Bool
  | .header, s => badValue (splitn 2 s)
  | .fileList, s => s ≠ [] && s ≠ "INFORMATION".toList && badFields (splitn 6 s)
  | .information, _ => false

/-- The phase after a line. -/
def phaseAfter : ParseState → Text → ParseState
  | .header, s => if s = "FILELIST".toList then .fileList else .header
  | .fileList, s => if s = "INFORMATION".toList then .information else .fileList
  | .information, _ => .information

/-- A line lacks a field, and no line before it is rejected. -/
def panicsAt : ParseState → List Text → Bool
  | _, [] => false
  | phase, s :: raw =>
      short phase s || !rejected phase s && panicsAt (phaseAfter phase s) raw

/-! ## Where the parser panics -/

/-- What a line does, from the phase and the line alone. -/
inductive LineSpec (p : Parser) (s : Text) : Except Failure Parser → Prop where
  | panic : short p.parseState s = true → LineSpec p s (.error .panic)
  | err {e : ParserError} : short p.parseState s = false → rejected p.parseState s = true →
      LineSpec p s (.error (.err e))
  | ok {p' : Parser} : short p.parseState s = false → rejected p.parseState s = false →
      p'.parseState = phaseAfter p.parseState s → LineSpec p s (.ok p')

theorem splitn_two (s : Text) :
    splitn 2 s = [s] ∨ ∃ key value, splitn 2 s = [key, value] ∧ ' ' ∈ s := by
  unfold splitn
  split
  · exact .inl rfl
  · rename_i c rest heq
    refine .inr ⟨_, _, rfl, ?_⟩
    have hc : c = ' ' := by
      have := List.head?_dropWhile_not (· ≠ ' ') s
      rw [heq] at this
      simpa using this
    have hmem : c ∈ s := (List.dropWhile_sublist _).mem (heq ▸ List.mem_cons_self)
    exact hc ▸ hmem

/-- A line of the file list has up to six fields. -/
theorem splitn_length (n : Nat) (s : Text) :
    1 ≤ (splitn (n + 1) s).length ∧ (splitn (n + 1) s).length ≤ n + 1 := by
  induction n generalizing s with
  | zero => exact ⟨Nat.le_refl 1, Nat.le_refl 1⟩
  | succ n ih =>
      unfold splitn
      split
      · exact ⟨Nat.le_refl 1, by simp⟩
      · rename_i rest _
        have := ih rest
        rw [List.length_cons]
        omega

/-- A key without a value. -/
theorem headerLine_key {s : Text} (hsplit : splitn 2 s = [s]) (p : Parser) :
    headerLine p s = if valueKeys.contains s then .error .panic else .ok p := by
  by_cases hkey : s ∈ valueKeys
  · rw [if_pos (List.contains_iff_mem.mpr hkey)]
    simp only [valueKeys, List.mem_cons, List.not_mem_nil, or_false] at hkey
    rcases hkey with rfl | rfl | rfl | rfl | rfl <;> rfl
  · rw [if_neg (fun h => hkey (List.contains_iff_mem.mp h))]
    simp only [valueKeys, List.mem_cons, List.not_mem_nil, or_false, not_or] at hkey
    rcases hkey with ⟨hgid, hcount, hres, hhash, htitle⟩
    unfold headerLine
    rw [hsplit]
    show (if s = _ then _ else _) = _
    rw [if_neg hgid, if_neg hcount, if_neg hres, if_neg hhash, if_neg htitle]

theorem badValue_pair (key value : Text) : badValue [key, value] =
    (decide (key = "GID".toList) && (parseInt 32 value).isNone ||
      decide (key = "FILECOUNT".toList) && (parseNat 64 value).isNone) := rfl

theorem badValue_gid (value : Text) :
    badValue ["GID".toList, value] = (parseInt 32 value).isNone := by
  rw [badValue_pair, decide_eq_true rfl, decide_eq_false (by decide), Bool.true_and,
    Bool.false_and, Bool.or_false]

theorem badValue_filecount (value : Text) :
    badValue ["FILECOUNT".toList, value] = (parseNat 64 value).isNone := by
  have hgid : decide ("FILECOUNT".toList = "GID".toList) = false := by decide
  rw [badValue_pair, hgid, decide_eq_true rfl, Bool.true_and, Bool.false_and, Bool.false_or]

theorem badValue_of_ne {key : Text} (hgid : key ≠ "GID".toList)
    (hcount : key ≠ "FILECOUNT".toList) (value : Text) : badValue [key, value] = false := by
  rw [badValue_pair, decide_eq_false hgid, decide_eq_false hcount]
  rfl

/-- A key and a value. -/
theorem headerLine_value {s key value : Text} (hsplit : splitn 2 s = [key, value]) (p : Parser) :
    (badValue [key, value] = true ∧ headerLine p s = .error (.err .parseInt)) ∨
      badValue [key, value] = false ∧ ∃ p', headerLine p s = .ok p' := by
  unfold headerLine
  rw [hsplit]
  show _ ∧ (if key = _ then _ else _) = _ ∨ _ ∧ ∃ p', (if key = _ then _ else _) = _
  split_ifs with hgid hcount hres hhash htitle
  · rw [hgid, badValue_gid]
    show _ ∧ (number (parseInt 32 value)).bind _ = _ ∨
      _ ∧ ∃ p', (number (parseInt 32 value)).bind _ = _
    cases parseInt 32 value with
    | none => exact .inl ⟨rfl, rfl⟩
    | some n => exact .inr ⟨rfl, _, rfl⟩
  · rw [hcount, badValue_filecount]
    show _ ∧ (number (parseNat 64 value)).bind _ = _ ∨
      _ ∧ ∃ p', (number (parseNat 64 value)).bind _ = _
    cases parseNat 64 value with
    | none => exact .inl ⟨rfl, rfl⟩
    | some n => exact .inr ⟨rfl, _, rfl⟩
  -- the other values are not numbers
  all_goals exact .inr ⟨badValue_of_ne hgid hcount value, _, rfl⟩

theorem headerLine_spec {p : Parser} (hp : p.parseState = .header) {s : Text}
    (hmark : s ≠ "FILELIST".toList) : LineSpec p s (headerLine p s) := by
  have hphase : phaseAfter p.parseState s = p.parseState := by
    rw [hp]
    exact if_neg hmark
  rcases splitn_two s with hsplit | ⟨key, value, hsplit, hspace⟩
  · have hrejected : rejected p.parseState s = false := by
      rw [hp]
      show badValue (splitn 2 s) = false
      rw [hsplit]
      rfl
    rw [headerLine_key hsplit]
    split
    · rename_i hkey
      exact .panic (hp ▸ hkey)
    · rename_i hkey
      exact .ok (hp ▸ eq_false_of_ne_true hkey) hrejected hphase.symm
  · -- a line with a value is no bare key
    have hshort : short p.parseState s = false := by
      rw [hp]
      refine eq_false_of_ne_true fun hkey => ?_
      have hkey : s ∈ valueKeys := List.contains_iff_mem.mp hkey
      simp only [valueKeys, List.mem_cons, List.not_mem_nil, or_false] at hkey
      rcases hkey with rfl | rfl | rfl | rfl | rfl <;> revert hspace <;> decide
    have hvalue : rejected p.parseState s = badValue [key, value] := by
      rw [hp]
      show badValue (splitn 2 s) = _
      rw [hsplit]
    rcases headerLine_value hsplit p with ⟨hbad, heq⟩ | ⟨hgood, p', heq⟩
    · rw [heq]
      exact .err hshort (hvalue.trans hbad)
    · rw [heq]
      refine .ok hshort (hvalue.trans hgood) ?_
      rw [hphase, headerLine_parseState heq]

/-- What the fields of a file line give. -/
inductive FieldsSpec (split : List Text) : Except Failure GalleryFile → Prop where
  | panic : shortFields split = true → FieldsSpec split (.error .panic)
  | err {e : ParserError} : shortFields split = false → badFields split = true →
      FieldsSpec split (.error (.err e))
  | ok {file : GalleryFile} : shortFields split = false → badFields split = false →
      FieldsSpec split (.ok file)

theorem fileEntry_spec (s : Text) : FieldsSpec (splitn 6 s) (fileEntry s) := by
  have hlen := splitn_length 5 s
  unfold fileEntry
  generalize splitn 6 s = split at *
  match split, hlen with
  | page :: split, hlen =>
  cases hpage : parseNat 64 page with
  | none =>
      simp only [field, number, hpage, bind, Except.bind, List.getElem?_cons_zero]
      refine .err ?_ (by simp [badFields, hpage])
      unfold shortFields
      split <;> simp_all
  | some n =>
  match split, hlen with
  | [], _ =>
      simp only [field, number, hpage, bind, Except.bind, List.getElem?_cons_zero]
      exact .panic (by simp [shortFields, hpage])
  | fileindex :: split, hlen =>
  cases hindex : parseNat 64 fileindex with
  | none =>
      simp only [field, number, hpage, hindex, bind, Except.bind, List.getElem?_cons_zero,
        List.getElem?_cons_succ]
      refine .err ?_ (by simp [badFields, hindex])
      unfold shortFields
      split <;> simp_all
  | some m =>
  simp only [field, number, hpage, hindex, bind, Except.bind, List.getElem?_cons_zero,
    List.getElem?_cons_succ]
  match split, hlen with
  | [], _ => exact .panic (by simp [shortFields, hpage, hindex])
  | [xres], _ => exact .panic (by simp [shortFields, hpage, hindex])
  | [xres, hash], _ => exact .panic (by simp [shortFields, hpage, hindex])
  | [xres, hash, filetype], _ =>
      show FieldsSpec _ (if !allowFiletype filetype then _ else _)
      cases htype : allowFiletype filetype with
      | false => exact .err (by simp [shortFields, htype]) (by simp [badFields, htype])
      | true => exact .panic (by simp [shortFields, hpage, hindex, htype])
  | [xres, hash, filetype, filename], _ =>
      have hshort : shortFields [page, fileindex, xres, hash, filetype, filename] = false := rfl
      show FieldsSpec _ (if !allowFiletype filetype then _ else
        if !isSafePath filename || !allowFilename filename then _ else _)
      cases htype : allowFiletype filetype with
      | false => exact .err hshort (by simp [badFields, htype])
      | true =>
          cases hname : !isSafePath filename || !allowFilename filename with
          | false => exact .ok hshort (by simp [badFields, hpage, hindex, htype, hname])
          | true => exact .err hshort (by simp [badFields, hname])

theorem fileLine_spec {p : Parser} (hp : p.parseState = .fileList) {s : Text}
    (hmark : s ≠ "INFORMATION".toList) (hs : s ≠ []) : LineSpec p s (fileLine p s) := by
  have hphase : phaseAfter p.parseState s = p.parseState := by
    rw [hp]
    exact if_neg hmark
  have hshort : short p.parseState s = shortFields (splitn 6 s) := by
    rw [hp]
    rfl
  have hrejected : rejected p.parseState s = badFields (splitn 6 s) := by
    rw [hp]
    show (decide (s ≠ []) && decide (s ≠ "INFORMATION".toList) && badFields (splitn 6 s)) = _
    rw [decide_eq_true hs, decide_eq_true hmark]
    rfl
  unfold fileLine
  generalize heq : fileEntry s = r
  have hspec := heq ▸ fileEntry_spec s
  cases hspec with
  | panic hpanic => exact .panic (hshort.trans hpanic)
  | err hfields hbad => exact .err (hshort.trans hfields) (hrejected.trans hbad)
  | ok hfields hgood => exact .ok (hshort.trans hfields) (hrejected.trans hgood) hphase.symm

/-- A line, from the phase and the line alone. -/
theorem parserLine_spec (p : Parser) (s : Text) : LineSpec p s (parserLine p s) := by
  cases hp : p.parseState with
  | header =>
      by_cases hmark : s = "FILELIST".toList
      · rw [hmark, parserLine_fileList hp]
        exact .ok (by rw [hp]; decide) (by rw [hp]; decide +kernel) (by rw [hp]; rfl)
      · by_cases hs : s = []
        · rw [hs, parserLine_blank (by rw [hp]; nofun)]
          exact .ok (by rw [hp]; decide +kernel) (by rw [hp]; decide) (by rw [hp]; rfl)
        · rw [parserLine_header hp hmark hs]
          exact headerLine_spec hp hmark
  | fileList =>
      by_cases hmark : s = "INFORMATION".toList
      · rw [hmark, parserLine_information hp]
        exact .ok (by rw [hp]; decide) (by rw [hp]; decide +kernel) (by rw [hp]; rfl)
      · by_cases hs : s = []
        · rw [hs, parserLine_blank (by rw [hp]; nofun)]
          exact .ok (by rw [hp]; decide +kernel) (by rw [hp]; decide) (by rw [hp]; rfl)
        · rw [parserLine_file hp hmark hs]
          exact fileLine_spec hp hmark hs
  | information =>
      rw [parserLine_text hp]
      exact .ok (by rw [hp]; rfl) (by rw [hp]; rfl) (by rw [hp]; rfl)

/-- The loop panics at the first short line, unless a line before it is rejected. -/
theorem foldlM_panic_iff (raw : List Text) (p : Parser) :
    raw.foldlM parserLine p = .error .panic ↔ panicsAt p.parseState raw = true := by
  induction raw generalizing p with
  | nil => simp [panicsAt, pure, Except.pure]
  | cons s raw ih =>
      rw [List.foldlM_cons]
      unfold panicsAt
      generalize heq : parserLine p s = r
      have hspec := heq ▸ parserLine_spec p s
      cases hspec with
      | panic hshort => simp [hshort, bind, Except.bind]
      | err hshort hrejected => simp [hshort, hrejected, bind, Except.bind]
      | ok hshort hrejected hphase =>
          rw [hshort, hrejected, ← hphase, Bool.false_or, Bool.not_false, Bool.true_and]
          exact ih _

/-- **The parser panics exactly on such lines.** -/
theorem parser_panic_iff (sha1 : Bytes → Digest) (key : Text) (raw : List Text) :
    parser sha1 key raw = .error .panic ↔ panicsAt .header raw = true := by
  rw [← foldlM_panic_iff raw { hashBody := key }]
  unfold parser
  cases raw.foldlM parserLine { hashBody := key } with
  | error e =>
      show Except.error e = _ ↔ _
      simp
  | ok p =>
      show (if _ then _ else _) = _ ↔ _
      split <;> simp

theorem panicsAt_eq_false {sha1 : Bytes → Digest} {key : Text} {raw : List Text}
    (h : parser sha1 key raw ≠ .error .panic) : panicsAt .header raw = false :=
  eq_false_of_ne_true fun hpanics => h ((parser_panic_iff sha1 key raw).mpr hpanics)

end Hath.Gallery
