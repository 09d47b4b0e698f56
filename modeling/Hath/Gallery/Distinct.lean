import Hath.Gallery.DirName
import Hath.Lib.Separated

/-!
# Hath.Gallery.Distinct — directories of different galleries

The suffix of a directory name is written so that galleries with one title do not meet:
it ends in `[gid-minxresx]`, or in `[gid]` for the original resolution. The title in
front of it is free text and may be cut, so the last opening bracket of the name has to
tell where the suffix starts. `parser` takes the resolution over at a `TITLE` line; a
`MINXRES` line after the last of them does not count, and without any the suffix has no
resolution.

* `settled_of_minxresFirst` — when the suffix has the resolution of the gallery;
* `nameSuffix_inj` — what a name tells about its gallery;
* `galleries_distinct` — different galleries get different directories.
-/

namespace Hath.Gallery

open Lib

/-! ## The order of the header -/

/-- The lines before the file list. -/
def headerLines (raw : List Text) : List Text := raw.takeWhile (· ≠ "FILELIST".toList)

/-- A header line with this key. -/
def HasKey (key : String) (s : Text) : Prop := (splitn 2 s).head? = some key.toList

instance (key : String) (s : Text) : Decidable (HasKey key s) :=
  inferInstanceAs (Decidable (_ = _))

/-- There is a `TITLE` line in the header that every `MINXRES` line precedes. -/
def MinxresFirst (raw : List Text) : Prop :=
  ∃ before title after, headerLines raw = before ++ title :: after ∧ HasKey "TITLE" title ∧
    ∀ s ∈ after, ¬ HasKey "MINXRES" s

/-- The suffix has the resolution. -/
def Parser.Settled (p : Parser) : Prop := p.xresTitle = xresTitleOf p.minxres

section

variable {p p' : Parser} {s : Text}

theorem hasKey_of_field {key : Text} {k : String} (h : field (splitn 2 s) 0 = .ok key)
    (hk : key = k.toList) : HasKey k s := by
  unfold field at h
  split at h
  · rename_i t ht
    cases h
    rw [HasKey, List.head?_eq_getElem?, ht, hk]
  · cases h

theorem field_of_hasKey {k : String} (h : HasKey k s) :
    field (splitn 2 s) 0 = .ok k.toList := by
  unfold HasKey at h
  rw [List.head?_eq_getElem?] at h
  unfold field
  rw [h]

/-- A `TITLE` line takes the resolution over. -/
theorem headerLine_title (hkey : HasKey "TITLE" s) (h : headerLine p s = .ok p') :
    p'.Settled := by
  unfold headerLine at h
  rcases Fallible.bind_eq_ok.mp h with ⟨key, hfield, h⟩
  rw [field_of_hasKey hkey] at hfield
  cases hfield
  rw [if_neg (by decide), if_neg (by decide), if_neg (by decide), if_neg (by decide),
    if_pos rfl] at h
  rcases Fallible.bind_eq_ok.mp h with ⟨title, -, h⟩
  cases h
  rfl

/-- Only a `MINXRES` line changes the resolution without the suffix. -/
theorem headerLine_settled (hkey : ¬ HasKey "MINXRES" s) (hp : p.Settled)
    (h : headerLine p s = .ok p') : p'.Settled := by
  unfold headerLine at h
  rcases Fallible.bind_eq_ok.mp h with ⟨key, hfield, h⟩
  split_ifs at h with hgid hcount hmin
  · rcases Fallible.bind_eq_ok.mp h with ⟨text, -, h⟩
    rcases Fallible.bind_eq_ok.mp h with ⟨gid, -, h⟩
    cases h
    exact hp
  · rcases Fallible.bind_eq_ok.mp h with ⟨text, -, h⟩
    rcases Fallible.bind_eq_ok.mp h with ⟨filecount, -, h⟩
    cases h
    exact hp
  · exact absurd (hasKey_of_field hfield hmin) hkey
  · rcases Fallible.bind_eq_ok.mp h with ⟨dlHash, -, h⟩
    cases h
    split
    · exact hp
    · exact hp
  · rcases Fallible.bind_eq_ok.mp h with ⟨title, -, h⟩
    cases h
    rfl
  · cases h
    exact hp

/-- Past the header nothing of the suffix changes. -/
theorem parserLine_settled_tail (p : Parser) (s : Text) (p' : Parser)
    (hp : p.Settled ∧ p.parseState ≠ .header) (h : parserLine p s = .ok p') :
    p'.Settled ∧ p'.parseState ≠ .header := by
  rcases hp with ⟨hset, hstate⟩
  unfold parserLine at h
  split_ifs at h
  · cases h
    exact ⟨hset, nofun⟩
  · cases h
    exact ⟨hset, nofun⟩
  · cases h
    exact ⟨hset, hstate⟩
  · split at h
    · rename_i hheader
      exact absurd hheader hstate
    · rcases Fallible.bind_eq_ok.mp h with ⟨file, -, h⟩
      cases h
      exact ⟨hset, hstate⟩
    · cases h
      exact ⟨hset, hstate⟩

/-- A line of the header is skipped or read as one. -/
theorem parserLine_in_header (hp : p.parseState = .header) (hmark : s ≠ "FILELIST".toList)
    (h : parserLine p s = .ok p') :
    p'.parseState = .header ∧ (s = [] ∧ p' = p ∨ headerLine p s = .ok p') := by
  by_cases hs : s = []
  · subst hs
    rw [parserLine_blank (by rw [hp]; nofun)] at h
    cases h
    exact ⟨hp, .inl ⟨rfl, rfl⟩⟩
  · rw [parserLine_header hp hmark hs] at h
    exact ⟨(headerLine_parseState h).trans hp, .inr h⟩

end

theorem foldlM_in_header {ls : List Text} (hmark : ∀ s ∈ ls, s ≠ "FILELIST".toList)
    {p p' : Parser} (hp : p.parseState = .header) (h : ls.foldlM parserLine p = .ok p') :
    p'.parseState = .header := by
  induction ls generalizing p with
  | nil =>
      cases h
      exact hp
  | cons s ls ih =>
      rcases Fallible.foldlM_cons_eq_ok.mp h with ⟨q, hline, hrest⟩
      have hq := (parserLine_in_header hp (hmark s List.mem_cons_self) hline).1
      exact ih (fun t ht => hmark t (List.mem_cons_of_mem s ht)) hq hrest

/-- Lines of the header without a `MINXRES` line keep the suffix settled. -/
theorem foldlM_settled {ls : List Text} (hmark : ∀ s ∈ ls, s ≠ "FILELIST".toList)
    (hkey : ∀ s ∈ ls, ¬ HasKey "MINXRES" s) {p p' : Parser} (hp : p.parseState = .header)
    (hset : p.Settled) (h : ls.foldlM parserLine p = .ok p') : p'.Settled := by
  induction ls generalizing p with
  | nil =>
      cases h
      exact hset
  | cons s ls ih =>
      rcases Fallible.foldlM_cons_eq_ok.mp h with ⟨q, hline, hrest⟩
      rcases parserLine_in_header hp (hmark s List.mem_cons_self) hline with ⟨hq, hread⟩
      have hqset : q.Settled := by
        rcases hread with ⟨-, rfl⟩ | hread
        · exact hset
        · exact headerLine_settled (hkey s List.mem_cons_self) hset hread
      exact ih (fun t ht => hmark t (List.mem_cons_of_mem s ht))
        (fun t ht => hkey t (List.mem_cons_of_mem s ht)) hq hqset hrest

/-- After the lines before a mark comes the mark, or nothing. -/
theorem split_at_mark (mark : Text) (raw : List Text) :
    ∃ rest, raw = raw.takeWhile (· ≠ mark) ++ rest ∧ ∀ s ∈ rest.head?, s = mark := by
  refine ⟨raw.dropWhile (· ≠ mark), List.takeWhile_append_dropWhile.symm, ?_⟩
  intro s hs
  have hnot := List.head?_dropWhile_not (fun t => decide (t ≠ mark)) raw
  rw [Option.mem_def.mp hs] at hnot
  simpa using hnot

/-- The suffix of a gallery whose resolution comes first has it. -/
theorem settled_of_minxresFirst {sha1 : Bytes → Digest} {key : Text} {raw : List Text}
    {info : GalleryMeta} (hfirst : MinxresFirst raw) (h : parser sha1 key raw = .ok info) :
    info.xresTitle = xresTitleOf info.minxres := by
  rcases parser_ok h with ⟨p, hp, -, -, rfl⟩
  show p.Settled
  rcases hfirst with ⟨before, title, after, hheader, htitle, hafter⟩
  rcases split_at_mark "FILELIST".toList raw with ⟨rest, hraw, hrest⟩
  have hmark : ∀ s ∈ headerLines raw, s ≠ "FILELIST".toList := by
    intro s hs
    exact of_decide_eq_true (List.all_eq_true.mp List.all_takeWhile s hs)
  have hraw : raw = headerLines raw ++ rest := hraw
  rw [hraw, List.foldlM_append] at hp
  rcases Fallible.bind_eq_ok.mp hp with ⟨q, hq, hp⟩
  have hqheader := foldlM_in_header hmark rfl hq
  rw [hheader] at hmark hq
  rw [List.foldlM_append] at hq
  rcases Fallible.bind_eq_ok.mp hq with ⟨q₁, hbefore, hq⟩
  rcases Fallible.foldlM_cons_eq_ok.mp hq with ⟨q₂, hline, hq⟩
  have hq₁ := foldlM_in_header (fun s hs => hmark s (List.mem_append_left _ hs)) rfl hbefore
  have hmarkTitle := hmark title (List.mem_append_right _ List.mem_cons_self)
  have hset : q.Settled := by
    rcases parserLine_in_header hq₁ hmarkTitle hline with ⟨hq₂, ⟨rfl, -⟩ | hread⟩
    · exact absurd htitle (by decide)
    · refine foldlM_settled ?_ hafter hq₂ (headerLine_title htitle hread) hq
      intro s hs
      exact hmark s (List.mem_append_right _ (List.mem_cons_of_mem _ hs))
  -- the first line past the header leaves it, and the others keep out of it
  cases rest with
  | nil =>
      cases hp
      exact hset
  | cons s rest =>
      cases hrest s rfl
      rcases Fallible.foldlM_cons_eq_ok.mp hp with ⟨q', hline, hp⟩
      rw [parserLine_fileList hqheader] at hline
      cases hline
      refine (Fallible.foldlM_invariant parserLine_settled_tail ?_ hp).1
      exact ⟨hset, nofun⟩

/-! ## The suffix tells the gallery -/

/-- What follows a number is not a digit. -/
def AfterNumber (x : Text) : Prop := ∀ c ∈ x.head?, c.isDigit = false

theorem natText_append_inj {m n : Nat} {x y : Text} (hx : AfterNumber x) (hy : AfterNumber y)
    (h : natText m ++ x = natText n ++ y) : m = n ∧ x = y := by
  rcases Separated.span_inj (fun _ hc => natText_isDigit hc) (fun _ hc => natText_isDigit hc)
    hx hy h with ⟨hnum, hrest⟩
  exact ⟨natText_injective hnum, hrest⟩

/-- A number starts with no sign. -/
theorem minus_ne_natText (a : Nat) {b : Nat} {x y : Text} :
    '-' :: (natText a ++ x) ≠ natText b ++ y := by
  intro h
  rcases natText_eq_cons b with ⟨c, ds, hb, hsign, -⟩
  rw [hb, List.cons_append] at h
  exact hsign (List.cons.inj h).1.symm

/-- A number with a sign is determined too. -/
theorem intText_append_inj {m n : Int} {x y : Text} (hx : AfterNumber x) (hy : AfterNumber y)
    (h : intText m ++ x = intText n ++ y) : m = n ∧ x = y := by
  rcases intText_eq m with ⟨hm, htm⟩ | ⟨hm, htm⟩ <;>
    rcases intText_eq n with ⟨hn, htn⟩ | ⟨hn, htn⟩ <;> rw [htm, htn] at h
  · rcases natText_append_inj hx hy h with ⟨habs, rfl⟩
    exact ⟨by omega, rfl⟩
  · exact absurd h.symm (minus_ne_natText _)
  · exact absurd h (minus_ne_natText _)
  · rcases natText_append_inj hx hy (List.cons.inj h).2 with ⟨habs, rfl⟩
    exact ⟨by omega, rfl⟩

theorem xresTitleOf_injective {m n : Text} (h : xresTitleOf m = xresTitleOf n) : m = n := by
  unfold xresTitleOf at h
  split at h <;> split at h
  · rename_i hm hn
    rw [hm, hn]
  · cases h
  · cases h
  · exact List.append_cancel_right (List.cons.inj h).2

theorem afterNumber_xresTitleOf (m : Text) : AfterNumber (xresTitleOf m ++ [']']) := by
  unfold xresTitleOf
  split
  · intro c hc
    cases hc
    decide
  · intro c hc
    cases hc
    decide

section

variable {a b : GalleryMeta}

/-- Names with settled suffixes tell their galleries, whatever stands in front. -/
theorem nameSuffix_inj (ha : a.xresTitle = xresTitleOf a.minxres)
    (hb : b.xresTitle = xresTitleOf b.minxres) (hopena : '[' ∉ intText a.gid ++ a.xresTitle)
    (hopenb : '[' ∉ intText b.gid ++ b.xresTitle) {front front' : Text}
    (h : front ++ a.nameSuffix = front' ++ b.nameSuffix) :
    a.gid = b.gid ∧ a.minxres = b.minxres := by
  have hshape (front : Text) (info : GalleryMeta) : front ++ info.nameSuffix =
      (front ++ [' ']) ++ '[' :: (intText info.gid ++ (info.xresTitle ++ [']'])) := by
    unfold GalleryMeta.nameSuffix
    simp only [List.append_assoc, List.cons_append, List.nil_append]
  have hclosed {s t : Text} (hs : '[' ∉ s ++ t) : '[' ∉ s ++ (t ++ [']']) := by
    rw [← List.append_assoc]
    intro hm
    rcases List.mem_append.mp hm with hm | hm
    · exact hs hm
    · revert hm
      decide
  rw [hshape, hshape] at h
  -- the last opening bracket is that of the suffix
  have hfield := (Separated.last_inj (hclosed hopena) (hclosed hopenb) h).2
  rw [ha, hb] at hfield
  rcases intText_append_inj (afterNumber_xresTitleOf _) (afterNumber_xresTitleOf _) hfield with
    ⟨hgid, hres⟩
  exact ⟨hgid, xresTitleOf_injective (List.append_cancel_right hres)⟩

end

theorem nameSuffix_not_mem_open {sha1 : Bytes → Digest} {key : Text} {raw : List Text}
    {info : GalleryMeta} (h : parser sha1 key raw = .ok info) :
    '[' ∉ intText info.gid ++ info.xresTitle := by
  rcases parser_inv h with ⟨p, hi, -, hxres, -⟩
  intro hm
  have hname : isNameChar '[' = true := by
    rcases List.mem_append.mp hm with hm | hm
    · exact intText_isNameChar info.gid '[' hm
    · exact xresTitle_isNameChar hi '[' (hxres ▸ hm)
  revert hname
  decide

/-- **Accepted galleries that differ in their number or their resolution get different
directories**, if their resolutions come before their titles and their suffixes fit. -/
theorem galleries_distinct (sha1 : Bytes → Digest) (key key' : Text) (raw raw' : List Text)
    (info info' : GalleryMeta) (h : parser sha1 key raw = .ok info)
    (h' : parser sha1 key' raw' = .ok info') (hfirst : MinxresFirst raw)
    (hfirst' : MinxresFirst raw') (hfits : (utf8 info.nameSuffix).length ≤ 125)
    (hfits' : (utf8 info'.nameSuffix).length ≤ 125)
    (hne : info.gid ≠ info'.gid ∨ info.minxres ≠ info'.minxres) (checks : Bool)
    (graphemes : Text → List Text) (hgraphemes : ∀ t, (graphemes t).flatten = t)
    (downloadDir : Text) :
    ∃ name name', info.dirName checks graphemes = some name ∧
      info'.dirName checks graphemes = some name' ∧ name ≠ name' ∧
      components (CacheFileInfo.push downloadDir name) ≠
        components (CacheFileInfo.push downloadDir name') := by
  have hdir {raw : List Text} {key : Text} {info : GalleryMeta}
      (h : parser sha1 key raw = .ok info) (hfits : (utf8 info.nameSuffix).length ≤ 125) :
      ∃ name, info.dirName checks graphemes = some name := by
    have hbytes := utf8_nameSuffix_length h
    rcases dirName_of_le checks (hgraphemes info.title) hbytes (hbytes ▸ hfits) with
      ⟨-, hdir⟩ | ⟨-, front, -, -, hdir, -⟩
    · exact ⟨_, hdir⟩
    · exact ⟨_, hdir⟩
  rcases hdir h hfits with ⟨name, hname⟩
  rcases hdir h' hfits' with ⟨name', hname'⟩
  have hdiffer : name ≠ name' := by
    intro heq
    rcases dirName_shape hname with ⟨front, hfront, -⟩
    rcases dirName_shape hname' with ⟨front', hfront', -⟩
    rw [hfront, hfront'] at heq
    rcases nameSuffix_inj (settled_of_minxresFirst hfirst h) (settled_of_minxresFirst hfirst' h')
      (nameSuffix_not_mem_open h) (nameSuffix_not_mem_open h') heq with ⟨hgid, hres⟩
    rcases hne with hne | hne
    · exact hne hgid
    · exact hne hres
  refine ⟨name, name', hname, hname', hdiffer, ?_⟩
  -- a name adds one component, itself
  rw [components_push_name (dirName_isName h hname),
    components_push_name (dirName_isName h' hname')]
  intro heq
  have hlast := List.append_cancel_left heq
  injection hlast with hlast
  injection hlast with hlast
  exact hdiffer hlast

/-- `titledGallery` with its number and its resolution. -/
def resolvedGallery (gid minxres title : Text) : List Text :=
  ["GID ".toList ++ gid, "FILECOUNT 1".toList, "MINXRES ".toList ++ minxres,
    "DLHASH ".toList ++ encode galleryDigest.toList, "TITLE ".toList ++ title, "FILELIST".toList,
    "1 7 org unknown jpg a".toList, "INFORMATION".toList, "text".toList]

/-- A title that ends like the suffix of the other gallery. -/
theorem galleries_distinct_lookalike :
    ∃ info info', parser gallerySha1 "key".toList
        (resolvedGallery "-5".toList "780".toList "a".toList) = .ok info ∧
      parser gallerySha1 "key".toList
        (resolvedGallery "-5".toList "org".toList "a [-5-780x]".toList) = .ok info' ∧
      ∃ name name', info.dirName true (·.map ([·])) = some name ∧
        info'.dirName true (·.map ([·])) = some name' ∧ name ≠ name' ∧
        components (CacheFileInfo.push "dl".toList name) ≠
          components (CacheFileInfo.push "dl".toList name') := by
  have h : parser gallerySha1 "key".toList
      (resolvedGallery "-5".toList "780".toList "a".toList) =
      .ok { climbingMeta with gid := -5, minxres := "780".toList, xresTitle := "-780x".toList,
                              title := "a".toList } := by decide +kernel
  have h' : parser gallerySha1 "key".toList
      (resolvedGallery "-5".toList "org".toList "a [-5-780x]".toList) =
      .ok { climbingMeta with gid := -5, title := "a [-5-780x]".toList } := by decide +kernel
  have hfirst : MinxresFirst (resolvedGallery "-5".toList "780".toList "a".toList) :=
    ⟨_, _, [], List.dropLast_append_getLast? _ rfl |>.symm, by decide, nofun⟩
  have hfirst' : MinxresFirst (resolvedGallery "-5".toList "org".toList "a [-5-780x]".toList) :=
    ⟨_, _, [], List.dropLast_append_getLast? _ rfl |>.symm, by decide, nofun⟩
  exact ⟨_, _, h, h', galleries_distinct _ _ _ _ _ _ _ h h' hfirst hfirst'
    (by decide +kernel) (by decide +kernel) (.inr (by decide)) true _
    (fun t => List.flatMap_singleton' t) "dl".toList⟩

end Hath.Gallery
