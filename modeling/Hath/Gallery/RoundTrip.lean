import Mathlib.Data.List.TakeWhile
import Hath.Gallery.Parser

/-!
# Hath.Gallery.RoundTrip — what the parser reads back, and what the hash fixes

A gallery is rendered the way the server writes it: header lines, the file list and the
information, with blank lines wherever the parser skips them. The parser reads the same
gallery back (`parser_rendering`).

The hash covers the key and the lines of the file list, each after a newline. Lines have
no newline in them, so the hashed text determines the lines and with them the list:
whatever else the server sends, one `DLHASH` stands for one list (`fileList_of_dlHash`).

* `fileEntry_line` — one line of the file list;
* `foldlM_skips_blank` — blank lines before `INFORMATION`;
* `FromLines` — the lines behind the list at any time.
-/

namespace Hath.Gallery

open Lib

/-! ## Fields -/

/-- A field before a space. -/
theorem splitn_append {x : Text} (h : ' ' ∉ x) (n : Nat) (rest : Text) :
    splitn (n + 2) (x ++ ' ' :: rest) = x :: splitn (n + 1) rest := by
  have hall : ∀ c ∈ x, decide (c ≠ ' ') = true := by
    intro c hc
    refine decide_eq_true ?_
    rintro rfl
    exact h hc
  have htake : (x ++ ' ' :: rest).takeWhile (· ≠ ' ') = x := by
    rw [List.takeWhile_append_of_pos hall, List.takeWhile_cons_of_neg (by decide), List.append_nil]
  have hdrop : (x ++ ' ' :: rest).dropWhile (· ≠ ' ') = ' ' :: rest := by
    rw [List.dropWhile_append_of_pos hall, List.dropWhile_cons_of_neg (by decide)]
  rw [splitn, hdrop, htake]

theorem space_not_mem_natText (n : Nat) : ' ' ∉ natText n := not_mem_natText (by decide)

/-! ## Galleries -/

/-- A file that the server can list. -/
structure GalleryFile.WellFormed (f : GalleryFile) : Prop where
  page : f.page < 2 ^ 64
  fileindex : f.fileindex < 2 ^ 64
  xres : ' ' ∉ f.xres
  filetype : allowFiletype f.filetype = true
  filename : isSafePath f.filename = true ∧ allowFilename f.filename = true

/-- The hash of a file as its line shows it. -/
def GalleryFile.sha1Text (f : GalleryFile) : Text :=
  match f.expectedSha1Hash with
  | some hash => encode hash.toList
  | none => "unknown".toList

/-- The line of a file. -/
def GalleryFile.line (f : GalleryFile) : Text :=
  natText f.page ++ ' ' :: (natText f.fileindex ++ ' ' :: (f.xres ++ ' ' ::
    (f.sha1Text ++ ' ' :: (f.filetype ++ ' ' :: f.filename))))

/-- A well-formed gallery. -/
structure Listing where
  gid : Int
  filecount : Nat
  minxres : Text
  title : Text
  files : List GalleryFile
  information : List Text
  gid_range : -2 ^ 31 ≤ gid ∧ gid < 2 ^ 31
  filecount_lt : filecount < 2 ^ 64
  minxres_ok : isMinxres minxres = true
  title_ok : sanitize title = title
  files_ok : ∀ f ∈ files, f.WellFormed

/-- What should be read back. -/
def Listing.info (g : Listing) : GalleryMeta where
  gid := g.gid
  filecount := g.filecount
  minxres := g.minxres
  xresTitle := xresTitleOf g.minxres
  title := g.title
  information := g.information.flatMap (· ++ ['\n'])
  galleryFiles := g.files

/-- The text that is hashed: the key, and the lines, each after a newline. -/
def hashedText (key : Text) (lines : List Text) : Text := key ++ lines.flatMap ('\n' :: ·)

/-- The lines of the header. -/
inductive Header where
  | gid
  | filecount
  | minxres
  | dlHash
  | title
deriving DecidableEq

/-- A line of the header. -/
def Listing.header (sha1 : Bytes → Digest) (key : Text) (g : Listing) : Header → Text
  | .gid => "GID".toList ++ ' ' :: intText g.gid
  | .filecount => "FILECOUNT".toList ++ ' ' :: natText g.filecount
  | .minxres => "MINXRES".toList ++ ' ' :: g.minxres
  | .dlHash =>
      "DLHASH".toList ++ ' ' :: stringToHash sha1 (hashedText key (g.files.map GalleryFile.line))
  | .title => "TITLE".toList ++ ' ' :: g.title

/-- The lines are a rendering of the gallery: the header lines in an order with `MINXRES`
before `TITLE`, `FILELIST`, the file lines, all of this with blank lines anywhere, then
`INFORMATION` and the information lines. -/
def Listing.Rendering (sha1 : Bytes → Digest) (key : Text) (g : Listing) (raw : List Text) : Prop :=
  ∃ order front, (∀ h : Header, h ∈ order) ∧
    (∃ before after, order = before ++ .minxres :: after ∧ .title ∉ before) ∧
    front.filter (· ≠ []) =
      order.map (g.header sha1 key) ++ "FILELIST".toList :: g.files.map GalleryFile.line ∧
    raw = front ++ "INFORMATION".toList :: g.information

/-! ## The file list -/

theorem space_not_mem_sha1Text (f : GalleryFile) : ' ' ∉ f.sha1Text := by
  unfold GalleryFile.sha1Text
  cases f.expectedSha1Hash with
  | none => decide
  | some hash =>
      intro h
      have := encode_isLowerHex h
      revert this
      decide

theorem decodeToArray_sha1Text (f : GalleryFile) :
    decodeToArray f.sha1Text = f.expectedSha1Hash := by
  unfold GalleryFile.sha1Text
  cases f.expectedSha1Hash with
  | none => decide
  | some hash => exact decodeToArray_encode hash

theorem space_not_mem_filetype {s : Text} (h : allowFiletype s = true) : ' ' ∉ s := by
  simp only [allowFiletype, Bool.or_eq_true, decide_eq_true_eq] at h
  rcases h with ((rfl | rfl) | rfl) | rfl <;> decide

/-- A line with a space is neither blank nor a marker. -/
theorem ne_of_space {s t : Text} (hs : ' ' ∈ s) (ht : ' ' ∉ t) : s ≠ t := by
  rintro rfl
  exact ht hs

theorem space_mem_line (f : GalleryFile) : ' ' ∈ f.line :=
  List.mem_append_right _ List.mem_cons_self

/-- The line of a file gives its six fields. -/
theorem splitn_line {f : GalleryFile} (h : f.WellFormed) : splitn 6 f.line =
    [natText f.page, natText f.fileindex, f.xres, f.sha1Text, f.filetype, f.filename] := by
  unfold GalleryFile.line
  rw [splitn_append (space_not_mem_natText _), splitn_append (space_not_mem_natText _),
    splitn_append h.xres, splitn_append (space_not_mem_sha1Text f),
    splitn_append (space_not_mem_filetype h.filetype)]
  rfl

/-- The line of a file is read back. -/
theorem fileEntry_line {f : GalleryFile} (h : f.WellFormed) : fileEntry f.line = .ok f := by
  unfold fileEntry
  rw [splitn_line h]
  simp [field, number, parseNat_natText h.page, parseNat_natText h.fileindex,
    decodeToArray_sha1Text, h.filetype, h.filename, bind, Except.bind]

/-! ## Blank lines -/

/-- Only its marker opens the information. -/
theorem parserLine_not_information {p p' : Parser} {s : Text} (hp : p.parseState ≠ .information)
    (hmark : s ≠ "INFORMATION".toList) (h : parserLine p s = .ok p') :
    p'.parseState ≠ .information := by
  by_cases hs : s = []
  · subst hs
    rw [parserLine_blank hp] at h
    cases h
    exact hp
  cases hstate : p.parseState with
  | header =>
      by_cases hlist : s = "FILELIST".toList
      · subst hlist
        rw [parserLine_fileList hstate] at h
        cases h
        nofun
      · rw [parserLine_header hstate hlist hs] at h
        rw [headerLine_parseState h]
        exact hp
  | fileList =>
      rw [parserLine_file hstate hmark hs] at h
      rw [fileLine_parseState h]
      exact hp
  | information => exact absurd hstate hp

/-- Blank lines before the information do not matter. -/
theorem foldlM_skips_blank (front : List Text) (hmark : ∀ s ∈ front, s ≠ "INFORMATION".toList)
    (p : Parser) (hp : p.parseState ≠ .information) :
    front.foldlM parserLine p = (front.filter (· ≠ [])).foldlM parserLine p := by
  induction front generalizing p with
  | nil => rfl
  | cons s front ih =>
      have hrest : ∀ s ∈ front, s ≠ "INFORMATION".toList :=
        fun t ht => hmark t (List.mem_cons_of_mem s ht)
      by_cases hs : s = []
      · subst hs
        rw [List.filter_cons_of_neg (by decide), List.foldlM_cons, parserLine_blank hp]
        exact ih hrest p hp
      · have hpos : (s :: front).filter (· ≠ []) = s :: front.filter (· ≠ []) :=
          List.filter_cons_of_pos (decide_eq_true hs)
        rw [hpos, List.foldlM_cons, List.foldlM_cons]
        cases hline : parserLine p s with
        | error e => rfl
        | ok p' =>
            exact ih hrest p' (parserLine_not_information hp (hmark s List.mem_cons_self) hline)

/-- The information lines. -/
theorem foldlM_information (lines : List Text) (p : Parser) (hp : p.parseState = .information) :
    lines.foldlM parserLine p =
      .ok { p with information := p.information ++ lines.flatMap (· ++ ['\n']) } := by
  induction lines generalizing p with
  | nil =>
      rw [List.flatMap_nil, List.append_nil]
      rfl
  | cons s lines ih =>
      rw [List.foldlM_cons, parserLine_text hp]
      have hnext := ih { p with information := p.information ++ s ++ ['\n'] } hp
      refine Eq.trans hnext ?_
      simp only [List.flatMap_cons, List.append_assoc]

/-- The lines of well-formed files. -/
theorem foldlM_files {files : List GalleryFile} (hfiles : ∀ f ∈ files, f.WellFormed) (p : Parser)
    (hp : p.parseState = .fileList) :
    (files.map GalleryFile.line).foldlM parserLine p =
      .ok { p with
        hashBody := p.hashBody ++ (files.map GalleryFile.line).flatMap ('\n' :: ·)
        galleryFiles := p.galleryFiles ++ files } := by
  induction files generalizing p with
  | nil =>
      simp only [List.map_nil, List.flatMap_nil, List.append_nil]
      rfl
  | cons f files ih =>
      have hline : parserLine p f.line = .ok { p with
          hashBody := p.hashBody ++ '\n' :: f.line, galleryFiles := p.galleryFiles ++ [f] } := by
        rw [parserLine_file hp]
        · unfold fileLine
          rw [fileEntry_line (hfiles f List.mem_cons_self)]
          rfl
        · exact ne_of_space (space_mem_line f) (by decide)
        · exact ne_of_space (space_mem_line f) (by decide)
      have hnext := ih (fun g hg => hfiles g (List.mem_cons_of_mem f hg)) { p with
        hashBody := p.hashBody ++ '\n' :: f.line, galleryFiles := p.galleryFiles ++ [f] } hp
      rw [List.map_cons, List.foldlM_cons, hline]
      refine Eq.trans hnext ?_
      simp only [List.append_assoc, List.flatMap_cons, List.cons_append, List.nil_append]

/-! ## The header -/

section

variable (sha1 : Bytes → Digest) (key : Text) (g : Listing)

/-- The hash that the server gives the gallery. -/
def Listing.dlHash : Text := stringToHash sha1 (hashedText key (g.files.map GalleryFile.line))

/-- What a line of the header does. -/
def Listing.set (p : Parser) : Header → Parser
  | .gid => { p with gid := g.gid }
  | .filecount => { p with filecount := g.filecount }
  | .minxres => { p with minxres := g.minxres }
  | .dlHash => { p with dlHash := g.dlHash sha1 key }
  | .title => { p with title := g.title, xresTitle := xresTitleOf p.minxres }

theorem isDlHash_dlHash : isDlHash (g.dlHash sha1 key) = true := by
  unfold isDlHash Listing.dlHash
  rw [stringToHash_length, Bool.and_eq_true]
  refine ⟨by decide, ?_⟩
  rw [List.all_eq_true]
  intro c hc
  exact encode_isLowerHex hc

theorem headerLine_header (p : Parser) (h : Header) :
    headerLine p (g.header sha1 key h) = .ok (g.set sha1 key p h) := by
  cases h with
  | gid =>
      have hgid : parseInt 32 (intText g.gid) = some g.gid :=
        parseInt_intText g.gid_range.1 g.gid_range.2
      unfold headerLine Listing.header
      rw [splitn_append (by decide)]
      simp [splitn, field, number, hgid, Listing.set, bind, Except.bind]
  | filecount =>
      have hcount := parseNat_natText g.filecount_lt
      unfold headerLine Listing.header
      rw [splitn_append (by decide)]
      simp [splitn, field, number, hcount, Listing.set, bind, Except.bind]
  | minxres =>
      unfold headerLine Listing.header
      rw [splitn_append (by decide)]
      simp [splitn, field, g.minxres_ok, Listing.set, bind, Except.bind]
  | dlHash =>
      have hhash := isDlHash_dlHash sha1 key g
      unfold Listing.dlHash at hhash
      unfold headerLine Listing.header
      rw [splitn_append (by decide)]
      simp [splitn, field, hhash, Listing.set, Listing.dlHash, bind, Except.bind]
  | title =>
      unfold headerLine Listing.header
      rw [splitn_append (by decide)]
      simp [splitn, field, g.title_ok, Listing.set, bind, Except.bind]

theorem space_mem_header (h : Header) : ' ' ∈ g.header sha1 key h := by
  cases h <;> exact List.mem_append_right _ List.mem_cons_self

/-- The header lines `seen` have left their values, and nothing else has changed. -/
structure HeaderRead (seen : List Header) (p : Parser) : Prop where
  gid : .gid ∈ seen → p.gid = g.gid
  filecount : .filecount ∈ seen → p.filecount = g.filecount
  minxres : .minxres ∈ seen → p.minxres = g.minxres
  dlHash : .dlHash ∈ seen → p.dlHash = g.dlHash sha1 key
  title : .title ∈ seen → p.title = g.title ∧ p.xresTitle = xresTitleOf g.minxres
  parseState : p.parseState = .header
  hashBody : p.hashBody = key
  rest : p.information = [] ∧ p.galleryFiles = []

variable {sha1 key g}

theorem HeaderRead.mono {seen seen' : List Header} {p : Parser} (hr : HeaderRead sha1 key g seen p)
    (h : ∀ k ∈ seen', k ∈ seen) : HeaderRead sha1 key g seen' p :=
  ⟨fun hk => hr.gid (h _ hk), fun hk => hr.filecount (h _ hk), fun hk => hr.minxres (h _ hk),
    fun hk => hr.dlHash (h _ hk), fun hk => hr.title (h _ hk), hr.parseState, hr.hashBody, hr.rest⟩

/-- One line; a title needs the resolution before it. -/
theorem HeaderRead.set {seen : List Header} {p : Parser} (hr : HeaderRead sha1 key g seen p)
    (h : Header) (htitle : h = .title → .minxres ∈ seen) :
    HeaderRead sha1 key g (h :: seen) (g.set sha1 key p h) := by
  have hkeep : ∀ k : Header, k ≠ h → k ∈ h :: seen → k ∈ seen := by
    intro k hne hk
    exact (List.mem_cons.mp hk).resolve_left hne
  cases h with
  | gid =>
      exact ⟨fun _ => rfl, fun hk => hr.filecount (hkeep _ nofun hk),
        fun hk => hr.minxres (hkeep _ nofun hk), fun hk => hr.dlHash (hkeep _ nofun hk),
        fun hk => hr.title (hkeep _ nofun hk), hr.parseState, hr.hashBody, hr.rest⟩
  | filecount =>
      exact ⟨fun hk => hr.gid (hkeep _ nofun hk), fun _ => rfl,
        fun hk => hr.minxres (hkeep _ nofun hk), fun hk => hr.dlHash (hkeep _ nofun hk),
        fun hk => hr.title (hkeep _ nofun hk), hr.parseState, hr.hashBody, hr.rest⟩
  | minxres =>
      exact ⟨fun hk => hr.gid (hkeep _ nofun hk), fun hk => hr.filecount (hkeep _ nofun hk),
        fun _ => rfl, fun hk => hr.dlHash (hkeep _ nofun hk),
        fun hk => hr.title (hkeep _ nofun hk), hr.parseState, hr.hashBody, hr.rest⟩
  | dlHash =>
      exact ⟨fun hk => hr.gid (hkeep _ nofun hk), fun hk => hr.filecount (hkeep _ nofun hk),
        fun hk => hr.minxres (hkeep _ nofun hk), fun _ => rfl,
        fun hk => hr.title (hkeep _ nofun hk), hr.parseState, hr.hashBody, hr.rest⟩
  | title =>
      refine ⟨fun hk => hr.gid (hkeep _ nofun hk), fun hk => hr.filecount (hkeep _ nofun hk),
        fun hk => hr.minxres (hkeep _ nofun hk), fun hk => hr.dlHash (hkeep _ nofun hk),
        fun _ => ⟨rfl, ?_⟩, hr.parseState, hr.hashBody, hr.rest⟩
      show xresTitleOf p.minxres = _
      rw [hr.minxres (htitle rfl)]

theorem foldlM_header {seen : List Header} {p : Parser} (hr : HeaderRead sha1 key g seen p)
    (order : List Header) (htitle : .title ∈ order → .minxres ∈ seen) :
    ∃ p', (order.map (g.header sha1 key)).foldlM parserLine p = .ok p' ∧
      HeaderRead sha1 key g (order.reverse ++ seen) p' := by
  induction order generalizing seen p with
  | nil => exact ⟨p, rfl, hr⟩
  | cons h order ih =>
      have hline : parserLine p (g.header sha1 key h) = .ok (g.set sha1 key p h) := by
        have hspace := space_mem_header sha1 key g h
        rw [parserLine_header hr.parseState (ne_of_space hspace (by decide))
          (ne_of_space hspace (by decide))]
        exact headerLine_header sha1 key g p h
      have hset := hr.set h fun heq => htitle (heq ▸ List.mem_cons_self)
      rcases ih hset fun hm => List.mem_cons_of_mem h (htitle (List.mem_cons_of_mem h hm)) with
        ⟨p', hp', hr'⟩
      refine ⟨p', ?_, ?_⟩
      · rw [List.map_cons, List.foldlM_cons, hline]
        exact hp'
      · rwa [List.reverse_cons, List.append_assoc]

end

/-! ## The round trip -/

/-- The whole header, in any order with the resolution before the title. -/
theorem foldlM_order {sha1 : Bytes → Digest} {key : Text} (g : Listing) {order : List Header}
    (horder : ∃ before after, order = before ++ .minxres :: after ∧ .title ∉ before) :
    ∃ p, (order.map (g.header sha1 key)).foldlM parserLine { hashBody := key } = .ok p ∧
      HeaderRead sha1 key g order p := by
  rcases horder with ⟨before, after, rfl, hbefore⟩
  have hstart : HeaderRead sha1 key g [] { hashBody := key } :=
    ⟨nofun, nofun, nofun, nofun, nofun, rfl, rfl, rfl, rfl⟩
  rcases foldlM_header hstart (before ++ [.minxres]) (by simp [hbefore]) with ⟨p, hp, hr⟩
  have hseen : Header.minxres ∈ (before ++ [Header.minxres]).reverse ++ [] := by simp
  rcases foldlM_header hr after fun _ => hseen with ⟨p', hp', hr'⟩
  refine ⟨p', ?_, hr'.mono ?_⟩
  · rw [List.append_cons, List.map_append, List.foldlM_append, hp]
    exact hp'
  · intro k hk
    simp only [List.mem_append, List.mem_cons, List.mem_reverse] at hk ⊢
    tauto

/-- No line before it is the marker of the information. -/
theorem information_not_mem {sha1 : Bytes → Digest} {key : Text} {g : Listing}
    {order : List Header} {front : List Text}
    (hfront : front.filter (· ≠ []) =
      order.map (g.header sha1 key) ++ "FILELIST".toList :: g.files.map GalleryFile.line) :
    ∀ s ∈ front, s ≠ "INFORMATION".toList := by
  rintro s hs rfl
  have hmem : "INFORMATION".toList ∈ front.filter (· ≠ []) := List.mem_filter.mpr ⟨hs, by decide⟩
  rw [hfront] at hmem
  rcases List.mem_append.mp hmem with hmem | hmem
  · rcases List.mem_map.mp hmem with ⟨k, -, hk⟩
    exact ne_of_space (space_mem_header sha1 key g k) (by decide) hk
  · rcases List.mem_cons.mp hmem with hmem | hmem
    · exact absurd hmem (by decide)
    · rcases List.mem_map.mp hmem with ⟨f, -, hf⟩
      exact ne_of_space (space_mem_line f) (by decide) hf

/-- Everything before the information. -/
theorem foldlM_front {sha1 : Bytes → Digest} {key : Text} {g : Listing} {order : List Header}
    {front : List Text}
    (hfront : front.filter (· ≠ []) =
      order.map (g.header sha1 key) ++ "FILELIST".toList :: g.files.map GalleryFile.line)
    {p : Parser}
    (hp : (order.map (g.header sha1 key)).foldlM parserLine { hashBody := key } = .ok p)
    (hr : HeaderRead sha1 key g order p) :
    front.foldlM parserLine { hashBody := key } = .ok { p with
      parseState := .fileList
      hashBody := hashedText key (g.files.map GalleryFile.line)
      galleryFiles := g.files } := by
  have hheader : ({ hashBody := key } : Parser).parseState ≠ .information := nofun
  rw [foldlM_skips_blank front (information_not_mem hfront) _ hheader, hfront,
    List.foldlM_append, hp]
  show List.foldlM parserLine p _ = _
  rw [List.foldlM_cons, parserLine_fileList hr.parseState]
  have hfiles := foldlM_files g.files_ok { p with parseState := .fileList } rfl
  refine Eq.trans hfiles ?_
  simp only [hr.hashBody, hr.rest.2, List.nil_append]
  rfl

/-- **The parser reads a rendered gallery back.** -/
theorem parser_rendering (sha1 : Bytes → Digest) (key : Text) (g : Listing) (raw : List Text)
    (h : g.Rendering sha1 key raw) : parser sha1 key raw = .ok g.info := by
  rcases h with ⟨order, front, hall, horder, hfront, rfl⟩
  rcases foldlM_order g horder with ⟨p, hp, hr⟩
  have hloop : (front ++ "INFORMATION".toList :: g.information).foldlM parserLine
      { hashBody := key } = .ok { p with
        parseState := .information
        hashBody := hashedText key (g.files.map GalleryFile.line)
        galleryFiles := g.files
        information := g.information.flatMap (· ++ ['\n']) } := by
    rw [List.foldlM_append, foldlM_front hfront hp hr]
    show List.foldlM parserLine _ _ = _
    rw [List.foldlM_cons, parserLine_information rfl]
    refine Eq.trans (foldlM_information g.information _ rfl) ?_
    simp only [hr.rest.1, List.nil_append]
  unfold parser
  rw [hloop]
  show (if _ then _ else _) = _
  rw [if_neg]
  · rw [hr.gid (hall _), hr.filecount (hall _), hr.minxres (hall _), (hr.title (hall _)).1,
      (hr.title (hall _)).2]
    rfl
  · rw [hr.dlHash (hall _)]
    rintro (hempty | hdiffers)
    · have hlen := stringToHash_length sha1 (hashedText key (g.files.map GalleryFile.line))
      unfold Listing.dlHash at hempty
      rw [hempty] at hlen
      cases hlen
    · exact hdiffers rfl

/-- A gallery whose information looks like markers and blank lines. -/
def markerListing : Listing where
  gid := -5
  filecount := 1
  minxres := "780".toList
  title := "a title".toList
  files := [⟨1, 7, "org".toList, some abcDigest, "jpg".toList, "a".toList⟩]
  information := [[], "FILELIST".toList, "INFORMATION".toList]
  gid_range := by decide
  filecount_lt := by decide
  minxres_ok := by decide
  title_ok := by decide +kernel
  files_ok := by
    intro f hf
    rw [List.mem_singleton.mp hf]
    exact ⟨by decide, by decide, by decide, by decide, by decide +kernel⟩

/-- The SHA-1 of `key` and its file line. -/
def markerDigest : Digest :=
  #v[0x62, 0xf5, 0x07, 0x8c, 0xca, 0x15, 0xc2, 0xc7, 0x4f, 0x3b, 0x28, 0x3a, 0x61, 0x85, 0xb3, 0x50,
    0xbb, 0xe5, 0xeb, 0xd7]

def markerSha1 : Bytes → Digest := sha1Table
  [("key\n1 7 org ".toList ++ encode abcDigest.toList ++ " jpg a".toList, markerDigest)]

/-- Its lines, with blank lines among them. -/
def markerLines : List Text :=
  [[], "GID -5".toList, "FILECOUNT 1".toList, [], "MINXRES 780".toList,
    "DLHASH ".toList ++ encode markerDigest.toList, "TITLE a title".toList, "FILELIST".toList, [],
    "1 7 org ".toList ++ encode abcDigest.toList ++ " jpg a".toList, [], "INFORMATION".toList,
    [], "FILELIST".toList, "INFORMATION".toList]

theorem parser_rendering_markers :
    markerListing.Rendering markerSha1 "key".toList markerLines ∧
      parser markerSha1 "key".toList markerLines = .ok markerListing.info := by
  have h : markerListing.Rendering markerSha1 "key".toList markerLines := by
    refine ⟨[.gid, .filecount, .minxres, .dlHash, .title], markerLines.take 11, ?_, ?_, ?_, ?_⟩
    · intro h
      cases h <;> decide
    · exact ⟨[.gid, .filecount], [.dlHash, .title], rfl, by decide⟩
    · decide +kernel
    · decide +kernel
  exact ⟨h, parser_rendering _ _ _ _ h⟩

/-! ## What the hash fixes -/

/-- `dl_hash` after the loop. -/
def dlHashOf (key : Text) (raw : List Text) : Option Text :=
  match raw.foldlM parserLine { hashBody := key } with
  | .ok p => some p.dlHash
  | .error _ => none

/-- `hash_body` after the loop. -/
def hashBodyOf (key : Text) (raw : List Text) : Option Text :=
  match raw.foldlM parserLine { hashBody := key } with
  | .ok p => some p.hashBody
  | .error _ => none

/-- The lines behind the list: they have been hashed, and each of them has given its
entry. -/
def FromLines (key : Text) (p : Parser) : Prop :=
  ∃ lines, p.hashBody = hashedText key lines ∧ (∀ s ∈ lines, '\n' ∉ s) ∧
    List.Forall₂ (fun s file => fileEntry s = .ok file) lines p.galleryFiles

theorem hashedText_snoc (key : Text) (lines : List Text) (s : Text) :
    hashedText key (lines ++ [s]) = hashedText key lines ++ '\n' :: s := by
  unfold hashedText
  rw [List.flatMap_append, List.flatMap_singleton, List.append_assoc]

theorem parserLine_fromLines {key : Text} {p p' : Parser} {s : Text} (hs : '\n' ∉ s)
    (hp : FromLines key p) (h : parserLine p s = .ok p') : FromLines key p' := by
  unfold parserLine at h
  split_ifs at h
  · cases h
    exact hp
  · cases h
    exact hp
  · cases h
    exact hp
  · split at h
    · -- the header touches neither
      rcases headerLine_ok h with ⟨_, rfl⟩ | ⟨_, rfl⟩ | ⟨_, -, rfl⟩ | ⟨_, -, rfl⟩ | ⟨_, rfl⟩ | rfl
      all_goals exact hp
    · rcases Fallible.bind_eq_ok.mp h with ⟨file, hfile, h⟩
      cases h
      rcases hp with ⟨lines, hbody, hlines, hfiles⟩
      refine ⟨lines ++ [s], ?_, ?_, ?_⟩
      · rw [hashedText_snoc, ← hbody]
      · intro t ht
        rcases List.mem_append.mp ht with ht | ht
        · exact hlines t ht
        · rw [List.mem_singleton.mp ht]
          exact hs
      · exact List.rel_append hfiles (.cons hfile .nil)
    · cases h
      exact hp

theorem foldlM_fromLines {key : Text} {raw : List Text} (hraw : ∀ s ∈ raw, '\n' ∉ s) {p p' : Parser}
    (hp : FromLines key p) (h : raw.foldlM parserLine p = .ok p') : FromLines key p' := by
  induction raw generalizing p with
  | nil =>
      cases h
      exact hp
  | cons s raw ih =>
      rcases Fallible.foldlM_cons_eq_ok.mp h with ⟨q, hq, hrest⟩
      exact ih (fun t ht => hraw t (List.mem_cons_of_mem s ht))
        (parserLine_fromLines (hraw s List.mem_cons_self) hp hq) hrest

/-- The lines, each before a newline. -/
def tailText (lines : List Text) : Text := lines.flatMap (· ++ ['\n'])

/-- Newlines before or after the lines. -/
theorem flatMap_tailText (lines : List Text) :
    lines.flatMap ('\n' :: ·) ++ ['\n'] = '\n' :: tailText lines := by
  unfold tailText
  induction lines with
  | nil => rfl
  | cons s lines ih =>
      rw [List.flatMap_cons, List.flatMap_cons, List.append_assoc, ih]
      simp only [List.cons_append, List.append_assoc, List.nil_append]

/-- Lines without newlines can be told apart in the hashed text. -/
theorem hashedText_injective {key : Text} {lines lines' : List Text} (h : ∀ s ∈ lines, '\n' ∉ s)
    (h' : ∀ s ∈ lines', '\n' ∉ s) (heq : hashedText key lines = hashedText key lines') :
    lines = lines' := by
  have heq : lines.flatMap ('\n' :: ·) = lines'.flatMap ('\n' :: ·) := List.append_cancel_left heq
  induction lines generalizing lines' with
  | nil =>
      cases lines' with
      | nil => rfl
      | cons s' lines' => cases heq
  | cons s lines ih =>
      cases lines' with
      | nil => cases heq
      | cons s' lines' =>
          have hs := h s List.mem_cons_self
          have hs' := h' s' List.mem_cons_self
          rw [List.flatMap_cons, List.flatMap_cons] at heq
          -- what follows a line is nothing or starts with a newline: one more newline at the
          -- end makes the line a field
          have hfield : s ++ '\n' :: tailText lines = s' ++ '\n' :: tailText lines' := by
            rw [← flatMap_tailText, ← flatMap_tailText, ← List.append_assoc, ← List.append_assoc]
            exact congrArg (· ++ ['\n']) (List.cons.inj heq).2
          rcases Separated.first_inj hs hs' hfield with ⟨rfl, -⟩
          rw [ih (fun t ht => h t (List.mem_cons_of_mem s ht))
            (fun t ht => h' t (List.mem_cons_of_mem s ht))
            (congrArg (key ++ ·) (List.append_cancel_left heq)) (List.append_cancel_left heq)]

/-- An entry is determined by its line. -/
theorem entries_eq {lines : List Text} {files files' : List GalleryFile}
    (h : List.Forall₂ (fun s file => fileEntry s = .ok file) lines files)
    (h' : List.Forall₂ (fun s file => fileEntry s = .ok file) lines files') : files = files' := by
  induction h generalizing files' with
  | nil =>
      cases h'
      rfl
  | cons hfile _ ih =>
      cases h' with
      | cons hfile' hrest' =>
          cases Except.ok.inj (hfile.symm.trans hfile')
          rw [ih hrest']

/-- **One `DLHASH`, one file list.** For two texts of lines that the parser accepts with
the same `DLHASH`, if SHA-1 does not collide on what was hashed: the lists are the same,
whatever else the texts say. -/
theorem fileList_of_dlHash (sha1 : Bytes → Digest) (key : Text) (raw raw' : List Text)
    (info info' : GalleryMeta) (hraw : ∀ s ∈ raw, '\n' ∉ s) (hraw' : ∀ s ∈ raw', '\n' ∉ s)
    (h : parser sha1 key raw = .ok info) (h' : parser sha1 key raw' = .ok info')
    (hsame : dlHashOf key raw = dlHashOf key raw')
    (hcollision : ∀ a ∈ hashBodyOf key raw, ∀ b ∈ hashBodyOf key raw',
      stringToHash sha1 a = stringToHash sha1 b → a = b) :
    info.galleryFiles = info'.galleryFiles := by
  rcases parser_ok h with ⟨p, hp, -, hhash, rfl⟩
  rcases parser_ok h' with ⟨p', hp', -, hhash', rfl⟩
  have hstart : FromLines key { hashBody := key } := ⟨[], (List.append_nil key).symm, nofun, .nil⟩
  rcases foldlM_fromLines hraw hstart hp with ⟨lines, hbody, hlines, hfiles⟩
  rcases foldlM_fromLines hraw' hstart hp' with ⟨lines', hbody', hlines', hfiles'⟩
  have hdl : p.dlHash = p'.dlHash := by
    unfold dlHashOf at hsame
    rw [hp, hp'] at hsame
    exact Option.some.inj hsame
  have hbodies : p.hashBody = p'.hashBody := by
    apply hcollision
    · unfold hashBodyOf
      rw [hp]
      rfl
    · unfold hashBodyOf
      rw [hp']
      rfl
    · rw [hhash, hhash', hdl]
  rw [hbody, hbody'] at hbodies
  rw [hashedText_injective hlines hlines' hbodies] at hfiles
  exact entries_eq hfiles hfiles'

/-- The file list of `climbingGallery`, under another title, among blank lines and without
the information. -/
def retitledGallery : List Text :=
  ["DLHASH ".toList ++ encode galleryDigest.toList, [], "TITLE other".toList, "GID 6".toList,
    "FILELIST".toList, [], "1 7 org unknown jpg a".toList, []]

theorem fileList_of_dlHash_retitled :
    ∃ info, parser gallerySha1 "key".toList retitledGallery = .ok info ∧
      info.title = "other".toList ∧ climbingMeta.galleryFiles = info.galleryFiles := by
  refine ⟨⟨6, 0, [], "-x".toList, "other".toList, [], climbingMeta.galleryFiles⟩,
    by decide +kernel, rfl, ?_⟩
  apply fileList_of_dlHash gallerySha1 "key".toList climbingGallery retitledGallery
  · decide +kernel
  · decide +kernel
  · decide +kernel
  · decide +kernel
  · decide +kernel
  · -- the two hashed texts are the same
    intro a ha b hb _
    have hsame : hashBodyOf "key".toList climbingGallery =
        hashBodyOf "key".toList retitledGallery := by decide +kernel
    rw [Option.mem_def] at ha hb
    exact Option.some.inj (ha.symm.trans (hsame.trans hb))

end Hath.Gallery
