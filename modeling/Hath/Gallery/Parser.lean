import Hath.Gallery.Download
import Hath.Lib.Fallible
import Hath.Path
import Hath.Text

/-!
# Hath.Gallery.Parser — gallery metadata and the names made from it

`GalleryDownloader::parser` reads the lines of `fetch_queue` in three phases: header
lines `KEY value`, the file list after `FILELIST`, and the gallery's information after
`INFORMATION`. The file list is hashed together with the client's key and checked
against `DLHASH`; the header is not. `run` then makes the name of the gallery's
directory from the title, cut where it is too long, and a suffix of `GID` and `MINXRES`.

A missing field is an index out of range: the parser panics there, which `Failure` tells
apart from the errors it returns. The classes `\d` and `\s` of `regex_lite` are ASCII.

* `Parser.Inv` — what every line keeps: titles without separators, names from the allow lists;
* `downloads_contained` — every file of a gallery lies in one directory, directly below
  the download directory.
-/

namespace Hath.Gallery

open Lib

/-! ## Fields -/

/-- `splitn(n, ' ')`. -/
def splitn : Nat → Text → List Text
  | 0, _ => []
  | 1, s => [s]
  | n + 2, s =>
      match s.dropWhile (· ≠ ' ') with
      | [] => [s]
      | _ :: rest => s.takeWhile (· ≠ ' ') :: splitn (n + 1) rest

/-- What `parser` returns as an error. -/
inductive ParserError where
  /-- A `ParseIntError`. -/
  | parseInt
  /-- `Invalid filetype: page={page} filetype={filetype}`. -/
  | filetype (page : Nat) (filetype : Text)
  /-- `Invalid filename: page={page} filename={filename}`. -/
  | filename (page : Nat) (filename : Text)
  /-- `Aborted download; checkedHash={hash} does not match expected dlhash={dlHash}`. -/
  | dlHash (hash dlHash : Text)
deriving DecidableEq

inductive Failure where
  | err (e : ParserError)
  | panic
deriving DecidableEq

/-- `split[i]`. -/
def field (split : List Text) (i : Nat) : Except Failure Text :=
  match split[i]? with
  | some s => .ok s
  | none => .error .panic

/-- `parse()?`. -/
def number {α : Type} (n : Option α) : Except Failure α :=
  match n with
  | some n => .ok n
  | none => .error (.err .parseInt)

/-! ## Patterns -/

/-- `^(jpg|gif|png|webp)$`. -/
def allowFiletype (s : Text) : Bool :=
  s = ['j', 'p', 'g'] || s = ['g', 'i', 'f'] || s = ['p', 'n', 'g'] || s = ['w', 'e', 'b', 'p']

def isNameChar (c : Char) : Bool := c.isAlphanum || c = '.' || c = '_' || c = '-'

/-- `^[a-zA-Z0-9._-]{1,250}$`. -/
def allowFilename (s : Text) : Bool := 1 ≤ s.length && s.length ≤ 250 && s.all isNameChar

/-- `^(?:org|\d+)$`. -/
def isMinxres (s : Text) : Bool := s = ['o', 'r', 'g'] || s ≠ [] && s.all Char.isDigit

/-- `^[a-f0-9]{40}$`. -/
def isDlHash (s : Text) : Bool := s.length = 40 && s.all isLowerHex

/-- `\s`. -/
def isSpace (c : Char) : Bool :=
  c = '\t' || c = '\n' || c = '\x0b' || c = '\x0c' || c = '\r' || c = ' '

/-- The characters that may not stand in a title. -/
def isReserved (c : Char) : Bool :=
  c = '*' || c = '"' || c = '\\' || c = '<' || c = '>' || c = ':' || c = '|' || c = '?' || c = '/'

/-- Replaces `\s+` by a space: of a run of spaces, the last one leaves a space. -/
def collapse : Text → Text
  | [] => []
  | c :: s =>
      if isSpace c then if s.head?.any isSpace then collapse s else ' ' :: collapse s
      else c :: collapse s

/-- Removes `(^\s+|\s+$)`. -/
def trim (s : Text) : Text := ((s.dropWhile isSpace).reverse.dropWhile isSpace).reverse

/-- The three replacements that make a title. -/
def sanitize (s : Text) : Text := trim (collapse (s.filter fun c => !isReserved c))

/-! ## The parser -/

inductive ParseState where
  | header
  | fileList
  | information
deriving DecidableEq

/-- The locals of `parser`. -/
structure Parser where
  gid : Int := 0
  filecount : Nat := 0
  minxres : Text := []
  xresTitle : Text := []
  dlHash : Text := []
  title : Text := []
  information : Text := []
  galleryFiles : List GalleryFile := []
  parseState : ParseState := .header
  hashBody : Text

/-- The part of the suffix that tells resolutions apart. -/
def xresTitleOf (minxres : Text) : Text :=
  if minxres = ['o', 'r', 'g'] then [] else '-' :: minxres ++ ['x']

/-- A header line. -/
def headerLine (p : Parser) (s : Text) : Except Failure Parser := do
  let split := splitn 2 s
  let key ← field split 0
  if key = "GID".toList then
    let gid ← number (parseInt 32 (← field split 1))
    .ok { p with gid }
  else if key = "FILECOUNT".toList then
    let filecount ← number (parseNat 64 (← field split 1))
    .ok { p with filecount }
  else if key = "MINXRES".toList then
    let minxres ← field split 1
    .ok (if isMinxres minxres then { p with minxres } else p)
  else if key = "DLHASH".toList then
    let dlHash ← field split 1
    .ok (if isDlHash dlHash then { p with dlHash } else p)
  else if key = "TITLE".toList then
    let title ← field split 1
    .ok { p with title := sanitize title, xresTitle := xresTitleOf p.minxres }
  else .ok p

/-- The entry of a line `page fileindex xres sha1hash filetype filename`. -/
def fileEntry (s : Text) : Except Failure GalleryFile := do
  let split := splitn 6 s
  let page ← number (parseNat 64 (← field split 0))
  let fileindex ← number (parseNat 64 (← field split 1))
  let xres ← field split 2
  let expectedSha1Hash := decodeToArray (← field split 3)
  let filetype ← field split 4
  if !allowFiletype filetype then .error (.err (.filetype page filetype))
  else do
    let filename ← field split 5
    if !isSafePath filename || !allowFilename filename then
      .error (.err (.filename page filename))
    else .ok { page, fileindex, xres, expectedSha1Hash, filetype, filename }

/-- A line of the file list. -/
def fileLine (p : Parser) (s : Text) : Except Failure Parser := do
  let file ← fileEntry s
  .ok { p with hashBody := p.hashBody ++ '\n' :: s, galleryFiles := p.galleryFiles ++ [file] }

/-- One turn of the loop. -/
def parserLine (p : Parser) (s : Text) : Except Failure Parser :=
  if s = "FILELIST".toList ∧ p.parseState = .header then .ok { p with parseState := .fileList }
  else if s = "INFORMATION".toList ∧ p.parseState = .fileList then
    .ok { p with parseState := .information }
  else if p.parseState ≠ .information ∧ s = [] then .ok p
  else match p.parseState with
    | .header => headerLine p s
    | .fileList => fileLine p s
    | .information => .ok { p with information := p.information ++ s ++ ['\n'] }

/-- `GalleryMeta`, without the failures, which `parser` leaves empty. -/
structure GalleryMeta where
  gid : Int
  filecount : Nat
  minxres : Text
  xresTitle : Text
  title : Text
  information : Text
  galleryFiles : List GalleryFile
deriving DecidableEq

section

variable (sha1 : Bytes → Digest) (key : Text)

/-- `GalleryDownloader::parser`, with the client's key. -/
def parser (raw : List Text) : Except Failure GalleryMeta := do
  let p ← raw.foldlM parserLine { hashBody := key }
  let hash := stringToHash sha1 p.hashBody
  if p.dlHash = [] ∨ hash ≠ p.dlHash then .error (.err (.dlHash hash p.dlHash))
  else .ok ⟨p.gid, p.filecount, p.minxres, p.xresTitle, p.title, p.information, p.galleryFiles⟩

end

/-! ## The name of the directory -/

/-- `a - b` at `usize`: an underflow panics in a build with overflow checks and wraps in
one without, such as a release. -/
def usizeSub (checks : Bool) (a b : Nat) : Option Nat :=
  if b ≤ a then some (a - b)
  else if checks then none
  else some (BitVec.ofNat 64 a - BitVec.ofNat 64 b).toNat

/-- `&s[..n]`: the first `n` bytes, if a character ends there. -/
def sliceTo : Text → Nat → Option Text
  | _, 0 => some []
  | [], _ + 1 => none
  | c :: s, n + 1 =>
      if (utf8 [c]).length ≤ n + 1 then (sliceTo s (n + 1 - (utf8 [c]).length)).map (c :: ·)
      else none

/-- The loop over the graphemes: `found` is `truncate_pos`. -/
def truncatePos (maxChars maxBytes : Nat) (index pos found : Nat) : List Text → Nat
  | [] => found
  | g :: gs =>
      if maxChars < index + 3 ∨ maxBytes < pos + 3 then found
      else truncatePos maxChars maxBytes (index + 1) (pos + (utf8 g).length) pos gs

/-- `name_suffix`. -/
def GalleryMeta.nameSuffix (info : GalleryMeta) : Text :=
  [' ', '['] ++ intText info.gid ++ info.xresTitle ++ [']']

section

variable (checks : Bool) (graphemes : Text → List Text)

/-- The directory name of `run`. A panic is `none`: an underflow with overflow checks, or
a cut inside a character. -/
def GalleryMeta.dirName (info : GalleryMeta) : Option Text := do
  let len := (utf8 info.nameSuffix).length
  let maxChars ← usizeSub checks 125 len
  let maxBytes ← usizeSub checks 255 len
  if info.title.length ≤ maxChars ∧ (utf8 info.title).length ≤ maxBytes then
    some (info.title ++ info.nameSuffix)
  else do
    let cut ← sliceTo info.title (truncatePos maxChars maxBytes 0 0 0 (graphemes info.title))
    some (cut ++ ['.', '.', '.'] ++ info.nameSuffix)

end

/-! ## What a line does -/

/-- A header line sets at most one field; a title also fixes the resolution in the
suffix. -/
theorem headerLine_ok {p p' : Parser} {s : Text} (h : headerLine p s = .ok p') :
    (∃ gid, p' = { p with gid }) ∨ (∃ filecount, p' = { p with filecount }) ∨
    (∃ minxres, isMinxres minxres = true ∧ p' = { p with minxres }) ∨
    (∃ dlHash, isDlHash dlHash = true ∧ p' = { p with dlHash }) ∨
    (∃ title, p' = { p with title := sanitize title, xresTitle := xresTitleOf p.minxres }) ∨
    p' = p := by
  unfold headerLine at h
  rcases Fallible.bind_eq_ok.mp h with ⟨key, -, h⟩
  split_ifs at h
  · rcases Fallible.bind_eq_ok.mp h with ⟨text, -, h⟩
    rcases Fallible.bind_eq_ok.mp h with ⟨gid, -, h⟩
    cases h
    exact .inl ⟨gid, rfl⟩
  · rcases Fallible.bind_eq_ok.mp h with ⟨text, -, h⟩
    rcases Fallible.bind_eq_ok.mp h with ⟨filecount, -, h⟩
    cases h
    exact .inr (.inl ⟨filecount, rfl⟩)
  · rcases Fallible.bind_eq_ok.mp h with ⟨minxres, -, h⟩
    cases h
    split
    · rename_i hmin
      exact .inr (.inr (.inl ⟨minxres, hmin, rfl⟩))
    · exact .inr (.inr (.inr (.inr (.inr rfl))))
  · rcases Fallible.bind_eq_ok.mp h with ⟨dlHash, -, h⟩
    cases h
    split
    · rename_i hhash
      exact .inr (.inr (.inr (.inl ⟨dlHash, hhash, rfl⟩)))
    · exact .inr (.inr (.inr (.inr (.inr rfl))))
  · rcases Fallible.bind_eq_ok.mp h with ⟨title, -, h⟩
    cases h
    exact .inr (.inr (.inr (.inr (.inl ⟨title, rfl⟩))))
  · cases h
    exact .inr (.inr (.inr (.inr (.inr rfl))))

/-- The names of an entry have passed both filters. -/
theorem fileEntry_ok {s : Text} {file : GalleryFile} (h : fileEntry s = .ok file) :
    allowFiletype file.filetype = true ∧ isSafePath file.filename = true ∧
      allowFilename file.filename = true := by
  unfold fileEntry at h
  rcases Fallible.bind_eq_ok.mp h with ⟨_, -, h⟩
  rcases Fallible.bind_eq_ok.mp h with ⟨page, -, h⟩
  rcases Fallible.bind_eq_ok.mp h with ⟨_, -, h⟩
  rcases Fallible.bind_eq_ok.mp h with ⟨fileindex, -, h⟩
  rcases Fallible.bind_eq_ok.mp h with ⟨xres, -, h⟩
  rcases Fallible.bind_eq_ok.mp h with ⟨hash, -, h⟩
  rcases Fallible.bind_eq_ok.mp h with ⟨filetype, -, h⟩
  split at h
  · cases h
  · rename_i htype
    rcases Fallible.bind_eq_ok.mp h with ⟨filename, -, h⟩
    split at h
    · cases h
    · rename_i hname
      cases h
      simp only [Bool.not_eq_true', Bool.or_eq_true, not_or, Bool.not_eq_false] at htype hname
      exact ⟨htype, hname.1, hname.2⟩

/-! ## Lines by phase -/

section

variable {p p' : Parser} {s : Text}

theorem parserLine_blank (h : p.parseState ≠ .information) : parserLine p [] = .ok p := by
  unfold parserLine
  rw [if_neg (by rintro ⟨hs, -⟩; cases hs), if_neg (by rintro ⟨hs, -⟩; cases hs), if_pos ⟨h, rfl⟩]

theorem parserLine_fileList (h : p.parseState = .header) :
    parserLine p "FILELIST".toList = .ok { p with parseState := .fileList } := by
  unfold parserLine
  rw [if_pos ⟨rfl, h⟩]

theorem parserLine_information (h : p.parseState = .fileList) :
    parserLine p "INFORMATION".toList = .ok { p with parseState := .information } := by
  unfold parserLine
  rw [if_neg (by rintro ⟨-, hp⟩; rw [h] at hp; cases hp), if_pos ⟨rfl, h⟩]

theorem parserLine_header (h : p.parseState = .header) (hmark : s ≠ "FILELIST".toList)
    (hs : s ≠ []) : parserLine p s = headerLine p s := by
  unfold parserLine
  rw [if_neg (fun hc => hmark hc.1), if_neg (by rintro ⟨-, hp⟩; rw [h] at hp; cases hp),
    if_neg (fun hc => hs hc.2), h]

theorem parserLine_file (h : p.parseState = .fileList) (hmark : s ≠ "INFORMATION".toList)
    (hs : s ≠ []) : parserLine p s = fileLine p s := by
  unfold parserLine
  rw [if_neg (by rintro ⟨-, hp⟩; rw [h] at hp; cases hp), if_neg (fun hc => hmark hc.1),
    if_neg (fun hc => hs hc.2), h]

theorem parserLine_text (h : p.parseState = .information) (s : Text) :
    parserLine p s = .ok { p with information := p.information ++ s ++ ['\n'] } := by
  unfold parserLine
  rw [if_neg (by rintro ⟨-, hp⟩; rw [h] at hp; cases hp),
    if_neg (by rintro ⟨-, hp⟩; rw [h] at hp; cases hp), if_neg (fun hc => hc.1 h), h]

theorem headerLine_parseState (h : headerLine p s = .ok p') : p'.parseState = p.parseState := by
  rcases headerLine_ok h with ⟨_, rfl⟩ | ⟨_, rfl⟩ | ⟨_, -, rfl⟩ | ⟨_, -, rfl⟩ | ⟨_, rfl⟩ | rfl
  all_goals rfl

theorem fileLine_parseState (h : fileLine p s = .ok p') : p'.parseState = p.parseState := by
  rcases Fallible.bind_eq_ok.mp h with ⟨file, -, h⟩
  cases h
  rfl

end

/-! ## What the parser has read -/

/-- What the parser has read at any time: a title without reserved characters, a
resolution that passed its pattern, and files that passed both filters. -/
structure Parser.Inv (p : Parser) : Prop where
  title : ∀ c ∈ p.title, isReserved c = false
  minxres : p.minxres = [] ∨ isMinxres p.minxres = true
  xresTitle : p.xresTitle = [] ∨
    ∃ m, (m = [] ∨ isMinxres m = true) ∧ p.xresTitle = '-' :: m ++ ['x']
  files : ∀ f ∈ p.galleryFiles,
    allowFiletype f.filetype = true ∧ isSafePath f.filename = true ∧
      allowFilename f.filename = true

theorem Parser.init_inv (key : Text) : Parser.Inv { hashBody := key } where
  title := fun _ h => absurd h List.not_mem_nil
  minxres := .inl rfl
  xresTitle := .inl rfl
  files := fun _ h => absurd h List.not_mem_nil

theorem mem_collapse {c : Char} {s : Text} (h : c ∈ collapse s) : c = ' ' ∨ c ∈ s := by
  induction s with
  | nil => cases h
  | cons d s ih =>
      have later : c ∈ collapse s → c = ' ' ∨ c ∈ d :: s := by
        intro hc
        rcases ih hc with hsp | hm
        · exact .inl hsp
        · exact .inr (List.mem_cons_of_mem d hm)
      unfold collapse at h
      split_ifs at h
      · exact later h
      · rcases List.mem_cons.mp h with hsp | hm
        · exact .inl hsp
        · exact later hm
      · rcases List.mem_cons.mp h with rfl | hm
        · exact .inr List.mem_cons_self
        · exact later hm

theorem mem_trim {c : Char} {s : Text} (h : c ∈ trim s) : c ∈ s := by
  unfold trim at h
  have h := (List.dropWhile_sublist isSpace).mem (List.mem_reverse.mp h)
  exact (List.dropWhile_sublist isSpace).mem (List.mem_reverse.mp h)

/-- The replacements leave no reserved character. -/
theorem sanitize_reserved {s : Text} {c : Char} (h : c ∈ sanitize s) : isReserved c = false := by
  rcases mem_collapse (mem_trim h) with rfl | hm
  · decide
  · simpa using (List.mem_filter.mp hm).2

theorem headerLine_inv {p p' : Parser} {s : Text} (hi : p.Inv) (h : headerLine p s = .ok p') :
    p'.Inv := by
  rcases headerLine_ok h with ⟨gid, rfl⟩ | ⟨filecount, rfl⟩ | ⟨m, hm, rfl⟩ | ⟨d, hd, rfl⟩ |
    ⟨title, rfl⟩ | rfl
  · exact ⟨hi.title, hi.minxres, hi.xresTitle, hi.files⟩
  · exact ⟨hi.title, hi.minxres, hi.xresTitle, hi.files⟩
  · exact ⟨hi.title, .inr hm, hi.xresTitle, hi.files⟩
  · exact ⟨hi.title, hi.minxres, hi.xresTitle, hi.files⟩
  -- `TITLE` reads the resolution that an earlier `MINXRES` line left
  · refine ⟨fun c hc => sanitize_reserved hc, hi.minxres, ?_, hi.files⟩
    show xresTitleOf p.minxres = [] ∨ _
    unfold xresTitleOf
    split
    · exact .inl rfl
    · exact .inr ⟨p.minxres, hi.minxres, rfl⟩
  · exact hi

theorem fileLine_inv {p p' : Parser} {s : Text} (hi : p.Inv) (h : fileLine p s = .ok p') :
    p'.Inv := by
  rcases Fallible.bind_eq_ok.mp h with ⟨file, hfile, h⟩
  cases h
  refine ⟨hi.title, hi.minxres, hi.xresTitle, ?_⟩
  intro f hf
  rcases List.mem_append.mp hf with hf | hf
  · exact hi.files f hf
  · rw [List.mem_singleton.mp hf]
    exact fileEntry_ok hfile

theorem parserLine_inv (p : Parser) (s : Text) (p' : Parser) (hi : p.Inv)
    (h : parserLine p s = .ok p') : p'.Inv := by
  unfold parserLine at h
  split_ifs at h
  · cases h
    exact ⟨hi.title, hi.minxres, hi.xresTitle, hi.files⟩
  · cases h
    exact ⟨hi.title, hi.minxres, hi.xresTitle, hi.files⟩
  · cases h
    exact hi
  · split at h
    · exact headerLine_inv hi h
    · exact fileLine_inv hi h
    · cases h
      exact ⟨hi.title, hi.minxres, hi.xresTitle, hi.files⟩

/-- An accepted gallery is what the loop left in its locals. -/
theorem parser_ok {sha1 : Bytes → Digest} {key : Text} {raw : List Text} {info : GalleryMeta}
    (h : parser sha1 key raw = .ok info) :
    ∃ p, raw.foldlM parserLine { hashBody := key } = .ok p ∧ p.dlHash ≠ [] ∧
      stringToHash sha1 p.hashBody = p.dlHash ∧
      info = ⟨p.gid, p.filecount, p.minxres, p.xresTitle, p.title, p.information,
        p.galleryFiles⟩ := by
  rcases Fallible.bind_eq_ok.mp h with ⟨p, hp, h⟩
  simp only at h
  split at h
  · cases h
  · rename_i hhash
    rw [not_or, not_not] at hhash
    cases h
    exact ⟨p, hp, hhash.1, hhash.2, rfl⟩

/-- What the parser accepts satisfies the invariant of its loop. -/
theorem parser_inv {sha1 : Bytes → Digest} {key : Text} {raw : List Text} {info : GalleryMeta}
    (h : parser sha1 key raw = .ok info) :
    ∃ p : Parser, p.Inv ∧ info.title = p.title ∧ info.xresTitle = p.xresTitle ∧
      info.galleryFiles = p.galleryFiles := by
  rcases parser_ok h with ⟨p, hp, -, -, rfl⟩
  exact ⟨p, Fallible.foldlM_invariant parserLine_inv (Parser.init_inv key) hp, rfl, rfl, rfl⟩

/-! ## Directory names -/

theorem utf8_append (s t : Text) : utf8 (s ++ t) = utf8 s ++ utf8 t := List.flatMap_append

theorem utf8_length_cons (c : Char) (s : Text) :
    (utf8 (c :: s)).length = (utf8 [c]).length + (utf8 s).length := by
  rw [← List.singleton_append, utf8_append, List.length_append]

theorem utf8_length_pos (c : Char) : 0 < (utf8 [c]).length := by
  simp [utf8, String.length_utf8EncodeChar, Char.utf8Size_pos]

/-- A slice is the beginning of the text. -/
theorem sliceTo_eq_some {s t : Text} {n : Nat} (h : sliceTo s n = some t) :
    ∃ rest, s = t ++ rest := by
  induction s generalizing n t with
  | nil =>
      cases n with
      | zero =>
          cases h
          exact ⟨[], rfl⟩
      | succ n => cases h
  | cons c s ih =>
      cases n with
      | zero =>
          cases h
          exact ⟨c :: s, rfl⟩
      | succ n =>
          unfold sliceTo at h
          split at h
          · rcases Option.map_eq_some_iff.mp h with ⟨t', ht', rfl⟩
            rcases ih ht' with ⟨rest, rfl⟩
            exact ⟨rest, rfl⟩
          · cases h

/-- A slice that ends where a character ends does not panic. -/
theorem sliceTo_append (s rest : Text) : sliceTo (s ++ rest) (utf8 s).length = some s := by
  induction s with
  | nil =>
      cases rest <;> rfl
  | cons c s ih =>
      -- a character takes at least a byte, so the count reaches zero after the last one of `s`
      have hc := utf8_length_pos c
      rw [utf8_length_cons, List.cons_append]
      obtain ⟨n, hn⟩ : ∃ n, (utf8 [c]).length + (utf8 s).length = n + 1 :=
        ⟨(utf8 [c]).length + (utf8 s).length - 1, by omega⟩
      rw [hn]
      unfold sliceTo
      rw [if_pos (by omega), ← hn, Nat.add_sub_cancel_left, ih]
      rfl

/-- The loop over the graphemes ends at the end of a character: `done` are the characters
before `pos`, and `found` is such an offset all the time. -/
theorem truncatePos_boundary {maxChars maxBytes : Nat} {title : Text} (gs : List Text)
    {index pos found : Nat} (done : Text) (htitle : title = done ++ gs.flatten)
    (hpos : pos = (utf8 done).length)
    (hfound : ∃ s rest, title = s ++ rest ∧ found = (utf8 s).length) :
    ∃ s rest, title = s ++ rest ∧
      truncatePos maxChars maxBytes index pos found gs = (utf8 s).length := by
  induction gs generalizing index pos found done with
  | nil => exact hfound
  | cons g gs ih =>
      unfold truncatePos
      split
      · exact hfound
      · apply ih (done ++ g)
        · rw [htitle, List.flatten_cons, List.append_assoc]
        · rw [hpos, utf8_append, List.length_append]
        · exact ⟨done, (g :: gs).flatten, htitle, hpos⟩

section

variable {checks : Bool} {graphemes : Text → List Text} {info : GalleryMeta}

/-- A directory name is characters of the title, perhaps dots, and the suffix. -/
theorem dirName_shape {name : Text} (h : info.dirName checks graphemes = some name) :
    ∃ front, name = front ++ info.nameSuffix ∧ ∀ c ∈ front, c ∈ info.title ∨ c = '.' := by
  unfold GalleryMeta.dirName at h
  rcases Option.bind_eq_some_iff.mp h with ⟨maxChars, -, h⟩
  rcases Option.bind_eq_some_iff.mp h with ⟨maxBytes, -, h⟩
  split at h
  · cases h
    exact ⟨info.title, rfl, fun c hc => .inl hc⟩
  · rcases Option.bind_eq_some_iff.mp h with ⟨cut, hcut, h⟩
    cases h
    refine ⟨cut ++ ['.', '.', '.'], rfl, ?_⟩
    intro c hc
    rcases List.mem_append.mp hc with hc | hc
    · rcases sliceTo_eq_some hcut with ⟨rest, hrest⟩
      rw [hrest]
      exact .inl (List.mem_append_left rest hc)
    · simp only [List.mem_cons, List.not_mem_nil, or_false, or_self] at hc
      exact .inr hc

/-- Without overflow checks there is always a name. -/
theorem dirName_isSome (hgraphemes : (graphemes info.title).flatten = info.title) :
    ∃ name, info.dirName false graphemes = some name := by
  have hsub (a b : Nat) : ∃ n, usizeSub false a b = some n := by
    unfold usizeSub
    split
    · exact ⟨_, rfl⟩
    · exact ⟨_, rfl⟩
  unfold GalleryMeta.dirName
  rcases hsub 125 (utf8 info.nameSuffix).length with ⟨maxChars, hchars⟩
  rcases hsub 255 (utf8 info.nameSuffix).length with ⟨maxBytes, hbytes⟩
  simp only [hchars, hbytes, Option.bind_eq_bind, Option.bind_some]
  split
  · exact ⟨_, rfl⟩
  · obtain ⟨s, rest, htitle, hpos⟩ : ∃ s rest, info.title = s ++ rest ∧
        truncatePos maxChars maxBytes 0 0 0 (graphemes info.title) = (utf8 s).length :=
      truncatePos_boundary (graphemes info.title) [] hgraphemes.symm rfl
        ⟨[], info.title, rfl, rfl⟩
    rw [hpos, htitle, sliceTo_append]
    exact ⟨_, rfl⟩

end

/-! ## Containment -/

theorem title_no_sep {p : Parser} (hi : p.Inv) : '/' ∉ p.title := by
  intro hm
  have := hi.title '/' hm
  revert this
  decide

theorem minxres_no_sep {m : Text} (h : m = [] ∨ isMinxres m = true) : '/' ∉ m := by
  rcases h with rfl | h
  · exact List.not_mem_nil
  · intro hm
    simp only [isMinxres, Bool.or_eq_true, Bool.and_eq_true, decide_eq_true_eq] at h
    rcases h with rfl | ⟨-, hdigits⟩
    · revert hm
      decide
    · have := List.all_eq_true.mp hdigits '/' hm
      revert this
      decide

theorem intText_no_sep (n : Int) : '/' ∉ intText n := by
  unfold intText
  split
  · intro hm
    rcases List.mem_cons.mp hm with h | h
    · revert h
      decide
    · exact not_mem_natText (by decide) h
  · exact not_mem_natText (by decide)

/-- The suffix has brackets, and no separator. -/
theorem nameSuffix_no_sep {p : Parser} {info : GalleryMeta} (hi : p.Inv)
    (hx : info.xresTitle = p.xresTitle) : '/' ∉ info.nameSuffix ∧ '[' ∈ info.nameSuffix := by
  have hxres : '/' ∉ info.xresTitle := by
    rw [hx]
    rcases hi.xresTitle with h | ⟨m, hm, h⟩
    · rw [h]
      exact List.not_mem_nil
    · have hm := minxres_no_sep hm
      rw [h]
      simp [hm]
  have hgid := intText_no_sep info.gid
  unfold GalleryMeta.nameSuffix
  constructor
  · simp [hxres, hgid]
  · simp

/-- The name of an entry is made of letters, digits and `._-`. -/
theorem path_isNameChar {file : GalleryFile} (htype : allowFiletype file.filetype = true)
    (hname : allowFilename file.filename = true) :
    (∀ c ∈ file.path, isNameChar c = true) ∧ file.path.length ≤ 255 ∧
      (∃ c ∈ file.path, c ≠ '.') := by
  simp only [allowFilename, Bool.and_eq_true, decide_eq_true_eq] at hname
  simp only [allowFiletype, Bool.or_eq_true, decide_eq_true_eq] at htype
  rcases hname with ⟨⟨-, hlen⟩, hchars⟩
  -- the four types are plain text, and none of them is only dots
  have htypes : file.filetype.all isNameChar = true ∧ file.filetype.length ≤ 4 ∧
      file.filetype.any (· ≠ '.') = true := by
    rcases htype with ((h | h) | h) | h
    all_goals
      rw [h]
      decide
  rcases htypes with ⟨hall, hshort, hany⟩
  rcases List.any_eq_true.mp hany with ⟨c, hc, hdot⟩
  have hdot : c ≠ '.' := of_decide_eq_true hdot
  unfold GalleryFile.path
  refine ⟨?_, ?_, c, List.mem_append_right _ (List.mem_cons_of_mem _ hc), hdot⟩
  · intro c hc
    rcases List.mem_append.mp hc with hc | hc
    · exact List.all_eq_true.mp hchars c hc
    · rcases List.mem_cons.mp hc with rfl | hc
      · decide
      · exact List.all_eq_true.mp hall c hc
  · rw [List.length_append, List.length_cons]
    omega

theorem isNameChar_val {c : Char} (h : isNameChar c = true) : c.val ≤ 127 ∧ c ≠ '/' := by
  simp only [isNameChar, Bool.or_eq_true, decide_eq_true_eq] at h
  rcases h with ((h | rfl) | rfl) | rfl
  · have h : ((decide (c.val ≥ 65 ∧ c.val ≤ 90) ||
        decide (c.val ≥ 97) && decide (c.val ≤ 122)) ||
        decide (c.val ≥ 48) && decide (c.val ≤ 57)) = true := h
    simp only [Bool.or_eq_true, Bool.and_eq_true, decide_eq_true_eq] at h
    constructor
    · rcases h with (⟨-, h⟩ | ⟨-, h⟩) | ⟨-, h⟩
      · exact UInt32.le_trans h (by decide)
      · exact UInt32.le_trans h (by decide)
      · exact UInt32.le_trans h (by decide)
    · rintro rfl
      revert h
      decide
  · decide
  · decide
  · decide

/-- Text of names has a byte a character. -/
theorem utf8_length_name {s : Text} (h : ∀ c ∈ s, isNameChar c = true) :
    (utf8 s).length = s.length := by
  induction s with
  | nil => rfl
  | cons c s ih =>
      have hc : (utf8 [c]).length = 1 := by
        have := Char.utf8Size_eq_one_iff.mpr (isNameChar_val (h c List.mem_cons_self)).1
        simp [utf8, this]
      rw [utf8_length_cons, hc, ih fun d hd => h d (List.mem_cons_of_mem c hd), List.length_cons]
      omega

theorem file_isName {file : GalleryFile} (htype : allowFiletype file.filetype = true)
    (hname : allowFilename file.filename = true) :
    IsName file.path ∧ (utf8 file.path).length ≤ 255 := by
  rcases path_isNameChar htype hname with ⟨hchars, hlen, c, hc, hdot⟩
  refine ⟨⟨?_, component_of_mem hc hdot⟩, ?_⟩
  · intro hsep
    exact (isNameChar_val (hchars '/' hsep)).2 rfl
  · rw [utf8_length_name hchars]
    exact hlen

/-- The file with the gallery's information. -/
def galleryInfo : Text := "galleryinfo.txt".toList

theorem galleryInfo_isName : IsName galleryInfo := by decide +kernel

section

variable {sha1 : Bytes → Digest} {key : Text} {raw : List Text} {info : GalleryMeta}

/-- The directory name of an accepted gallery is one plain name. -/
theorem dirName_isName (h : parser sha1 key raw = .ok info) {checks : Bool}
    {graphemes : Text → List Text} {name : Text}
    (hname : info.dirName checks graphemes = some name) : IsName name := by
  rcases parser_inv h with ⟨p, hi, htitle, hxres, -⟩
  rcases dirName_shape hname with ⟨front, rfl, hfront⟩
  rcases nameSuffix_no_sep hi hxres with ⟨hsuffix, hbracket⟩
  refine ⟨?_, component_of_mem (List.mem_append_right front hbracket) (by decide)⟩
  intro hm
  rcases List.mem_append.mp hm with hm | hm
  -- neither the title nor the dots of a cut one have a separator
  · rcases hfront '/' hm with hm | hdot
    · exact title_no_sep hi (htitle ▸ hm)
    · revert hdot
      decide
  · exact hsuffix hm

end

/-- For every accepted metadata, the directory name is one plain name, so is the name of
every file, in at most 255 bytes, and what `run` creates lies in a directory that lies in
the download directory. Without overflow checks there always is a directory name. -/
theorem downloads_contained (sha1 : Bytes → Digest) (key : Text) (raw : List Text)
    (info : GalleryMeta) (h : parser sha1 key raw = .ok info) (checks : Bool)
    (graphemes : Text → List Text) (hgraphemes : ∀ t, (graphemes t).flatten = t)
    (downloadDir : Text) :
    (∀ file ∈ info.galleryFiles, components file.path = [.normal file.path] ∧
      (utf8 file.path).length ≤ 255) ∧
    (∃ name, info.dirName false graphemes = some name) ∧
    ∀ name, info.dirName checks graphemes = some name →
      components name = [.normal name] ∧
      ∀ file ∈ galleryInfo :: info.galleryFiles.map GalleryFile.path,
        components (CacheFileInfo.push (CacheFileInfo.push downloadDir name) file) =
          components downloadDir ++ [.normal name, .normal file] := by
  have hfiles : ∀ file ∈ info.galleryFiles, IsName file.path ∧ (utf8 file.path).length ≤ 255 := by
    rcases parser_inv h with ⟨p, hi, -, -, hgallery⟩
    intro file hfile
    rcases hi.files file (hgallery ▸ hfile) with ⟨htype, -, hname⟩
    exact file_isName htype hname
  refine ⟨?_, dirName_isSome (hgraphemes info.title), ?_⟩
  · intro file hfile
    exact ⟨components_name (hfiles file hfile).1, (hfiles file hfile).2⟩
  · intro name hdir
    have hname := dirName_isName h hdir
    refine ⟨components_name hname, ?_⟩
    intro file hfile
    -- the two pushes add one component each
    have hfile : IsName file := by
      rcases List.mem_cons.mp hfile with rfl | hfile
      · exact galleryInfo_isName
      · rcases List.mem_map.mp hfile with ⟨entry, hentry, rfl⟩
        exact (hfiles entry hentry).1
    rw [components_push_name hfile, components_push_name hname, List.append_assoc]
    rfl

/-- The SHA-1 of `key` and the file line of the gallery below. -/
def galleryDigest : Digest :=
  #v[0x54, 0xf5, 0xf5, 0x19, 0x68, 0xa4, 0x43, 0x3d, 0x07, 0xe3, 0x56, 0x58, 0x83, 0x79, 0x30, 0x49,
    0x89, 0x5a, 0x85, 0x8a]

def gallerySha1 : Bytes → Digest :=
  sha1Table [("key\n1 7 org unknown jpg a".toList, galleryDigest)]

/-- A gallery of one file whose title climbs. -/
def climbingGallery : List Text :=
  ["GID 5".toList, "FILECOUNT 1".toList, "MINXRES org".toList,
    "DLHASH ".toList ++ encode galleryDigest.toList, "TITLE /../..".toList, "FILELIST".toList,
    "1 7 org unknown jpg a".toList, "INFORMATION".toList, "text".toList]

/-- The gallery that is read from it. -/
def climbingMeta : GalleryMeta where
  gid := 5
  filecount := 1
  minxres := "org".toList
  xresTitle := []
  title := "....".toList
  information := "text\n".toList
  galleryFiles := [⟨1, 7, "org".toList, none, "jpg".toList, "a".toList⟩]

/-- The climbing title gives the directory name `.... [5]`. -/
theorem downloads_contained_climbing :
    parser (sha1Table [("key\n1 7 org unknown jpg a".toList, galleryDigest)]) "key".toList
        climbingGallery = .ok climbingMeta ∧
      climbingMeta.dirName false (·.map ([·])) = some ".... [5]".toList ∧
      components (CacheFileInfo.push (CacheFileInfo.push "dl".toList ".... [5]".toList)
          "a.jpg".toList) =
        components "dl".toList ++ [.normal ".... [5]".toList, .normal "a.jpg".toList] := by
  have h : parser (sha1Table [("key\n1 7 org unknown jpg a".toList, galleryDigest)]) "key".toList
      climbingGallery = .ok climbingMeta := by decide +kernel
  have hname : climbingMeta.dirName false (·.map ([·])) = some ".... [5]".toList := by
    decide +kernel
  have hgraphemes (t : Text) : (t.map ([·])).flatten = t := List.flatMap_singleton' t
  refine ⟨h, hname, ((downloads_contained _ _ _ _ h false _ hgraphemes "dl".toList).2.2 _ hname).2
    _ ?_⟩
  decide +kernel

end Hath.Gallery
