import Hath.Gallery.Parser

/-!
# Hath.Gallery.DirName — the length of a directory name

A directory name should have at most 125 characters and 255 bytes. `run` counts the
suffix in bytes, which are its characters too, and tests a title that may fit in
characters and in bytes. The loop that cuts a longer one counts graphemes in place of
characters, and a grapheme may have several; and a suffix may leave no room for the dots.

* `nameSuffix_length` — the suffix of an accepted gallery;
* `truncatePos_greatest` — where the loop cuts;
* `dirName_within_iff` — which galleries get a name within the limits.
-/

namespace Hath.Gallery

open Lib

/-! ## The suffix -/

theorem intText_isNameChar (n : Int) : ∀ c ∈ intText n, isNameChar c = true := by
  have hnat (n : Nat) : ∀ c ∈ natText n, isNameChar c = true := by
    intro c hc
    have hdigit := natText_isDigit hc
    simp [isNameChar, Char.isAlphanum, hdigit]
  unfold intText
  split
  · intro c hc
    rcases List.mem_cons.mp hc with rfl | hc
    · decide
    · exact hnat _ c hc
  · exact hnat _

theorem minxres_isNameChar {m : Text} (h : m = [] ∨ isMinxres m = true) :
    ∀ c ∈ m, isNameChar c = true := by
  rcases h with rfl | h
  · nofun
  · simp only [isMinxres, Bool.or_eq_true, Bool.and_eq_true, decide_eq_true_eq] at h
    rcases h with rfl | ⟨-, hdigits⟩
    · have horg : ['o', 'r', 'g'].all isNameChar = true := by decide
      exact List.all_eq_true.mp horg
    · intro c hc
      have hdigit := List.all_eq_true.mp hdigits c hc
      simp [isNameChar, Char.isAlphanum, hdigit]

theorem xresTitle_isNameChar {p : Parser} (hi : p.Inv) :
    ∀ c ∈ p.xresTitle, isNameChar c = true := by
  rcases hi.xresTitle with h | ⟨m, hm, h⟩
  · rw [h]
    nofun
  · rw [h]
    intro c hc
    simp only [List.cons_append, List.mem_cons, List.mem_append, List.not_mem_nil, or_false] at hc
    rcases hc with rfl | hc | rfl
    · decide
    · exact minxres_isNameChar hm c hc
    · decide

section

variable {sha1 : Bytes → Digest} {key : Text} {raw : List Text} {info : GalleryMeta}

theorem nameSuffix_length (info : GalleryMeta) :
    info.nameSuffix.length = (intText info.gid).length + info.xresTitle.length + 3 := by
  unfold GalleryMeta.nameSuffix
  simp only [List.length_append, List.length_cons, List.length_nil]
  omega

/-- The suffix of an accepted gallery has a byte a character. -/
theorem utf8_nameSuffix_length (h : parser sha1 key raw = .ok info) :
    (utf8 info.nameSuffix).length = info.nameSuffix.length := by
  rcases parser_inv h with ⟨p, hi, -, hxres, -⟩
  have hgid := utf8_length_name (intText_isNameChar info.gid)
  have hres := utf8_length_name (xresTitle_isNameChar hi)
  rw [← hxres] at hres
  have hopen : (utf8 [' ', '[']).length = 2 := by decide +kernel
  have hclose : (utf8 [']']).length = 1 := by decide +kernel
  rw [nameSuffix_length]
  unfold GalleryMeta.nameSuffix
  rw [utf8_append, utf8_append, utf8_append]
  simp only [List.length_append]
  omega

end

/-! ## The cut -/

section

variable (maxChars maxBytes : Nat)

/-- The loop goes on after these graphemes. -/
def Room (front : List Text) : Prop :=
  front.length + 3 ≤ maxChars ∧ (utf8 front.flatten).length + 3 ≤ maxBytes

variable {maxChars maxBytes}

theorem flatten_mono {f g : List Text} (h : f <+: g) :
    f.flatten.length ≤ g.flatten.length ∧ (utf8 f.flatten).length ≤ (utf8 g.flatten).length := by
  rcases h with ⟨rest, rfl⟩
  rw [List.flatten_append, utf8_append, List.length_append, List.length_append]
  omega

theorem Room.mono {f g : List Text} (hg : Room maxChars maxBytes g) (h : f <+: g) :
    Room maxChars maxBytes f := by
  have hlen := h.length_le
  have hbytes := (flatten_mono h).2
  unfold Room at hg ⊢
  omega

/-- The loop ends after the most graphemes that leave room, the last one not counted.
`done` are the graphemes it has seen, `last` those before the last `truncate_pos`. -/
theorem truncatePos_greatest {all : List Text} (gs : List Text) {done last : List Text}
    (hall : all = done ++ gs) (hlast : last <+: all)
    (hroom : last = [] ∨ Room maxChars maxBytes last ∧ last.length < all.length)
    (hgreatest : ∀ f rest, all = f ++ rest → rest ≠ [] → Room maxChars maxBytes f →
      f.length < done.length → f <+: last) :
    ∃ front, front <+: all ∧
      (front = [] ∨ Room maxChars maxBytes front ∧ front.length < all.length) ∧
      truncatePos maxChars maxBytes done.length (utf8 done.flatten).length
        (utf8 last.flatten).length gs = (utf8 front.flatten).length ∧
      ∀ f rest, all = f ++ rest → rest ≠ [] → Room maxChars maxBytes f → f <+: front := by
  induction gs generalizing done last with
  | nil =>
      refine ⟨last, hlast, hroom, rfl, ?_⟩
      intro f rest hf hrest hfroom
      apply hgreatest f rest hf hrest hfroom
      have hlen := congrArg List.length (hall.symm.trans hf)
      have hpos := List.length_pos_of_ne_nil hrest
      simp only [List.append_nil, List.length_append] at hlen
      omega
  | cons g gs ih =>
      have hdone : done <+: all := ⟨g :: gs, hall.symm⟩
      unfold truncatePos
      split
      · rename_i hfull
        refine ⟨last, hlast, hroom, rfl, ?_⟩
        intro f rest hf hrest hfroom
        rcases Nat.lt_or_ge f.length done.length with hlt | hge
        · exact hgreatest f rest hf hrest hfroom hlt
        · -- past `done` there would be room for `done` as well
          have hlonger : done <+: f := List.prefix_of_prefix_length_le hdone ⟨rest, hf.symm⟩ hge
          have hdoneRoom := hfroom.mono hlonger
          unfold Room at hdoneRoom
          omega
      · rename_i hleft
        have hdoneRoom : Room maxChars maxBytes done := by
          unfold Room
          omega
        have hnext : (done ++ [g]).length = done.length + 1 := List.length_append
        have hbytes : (utf8 (done ++ [g]).flatten).length =
            (utf8 done.flatten).length + (utf8 g).length := by
          rw [List.flatten_append, utf8_append, List.length_append, List.flatten_singleton]
        rw [← hnext, ← hbytes]
        apply ih
        · rw [hall, List.append_assoc]
          rfl
        · exact hdone
        · refine .inr ⟨hdoneRoom, ?_⟩
          rw [hall, List.length_append, List.length_cons]
          omega
        · intro f rest hf _ _ hlt
          exact List.prefix_of_prefix_length_le ⟨rest, hf.symm⟩ hdone (by omega)

end

/-! ## Names -/

section

variable (graphemes : Text → List Text) (info : GalleryMeta)

/-- The title and the suffix fit as they are. -/
def GalleryMeta.FitsWhole : Prop :=
  info.title.length + info.nameSuffix.length ≤ 125 ∧
    (utf8 info.title).length + info.nameSuffix.length ≤ 255

/-- The suffix leaves room for the dots, and leading graphemes that the loop has room for
have room for their characters. -/
def GalleryMeta.FitsCut : Prop :=
  info.nameSuffix.length ≤ 122 ∧
    ∀ front rest, graphemes info.title = front ++ rest → rest ≠ [] →
      front.length + info.nameSuffix.length ≤ 122 →
      (utf8 front.flatten).length + info.nameSuffix.length ≤ 252 →
      front.flatten.length + info.nameSuffix.length ≤ 122

/-- The name keeps both limits, and it is the title or leading graphemes of it and dots,
with the suffix. -/
structure GalleryMeta.Within (name : Text) : Prop where
  chars : name.length ≤ 125
  bytes : (utf8 name).length ≤ 255
  shape : name = info.title ++ info.nameSuffix ∨
    ∃ front rest, graphemes info.title = front ++ rest ∧
      name = front.flatten ++ ['.', '.', '.'] ++ info.nameSuffix

variable {graphemes info}

theorem usizeSub_of_le {checks : Bool} {a b : Nat} (h : b ≤ a) :
    usizeSub checks a b = some (a - b) := by
  unfold usizeSub
  rw [if_pos h]

/-- The name with a suffix that is not too long. -/
theorem dirName_of_le (checks : Bool) (hgraphemes : (graphemes info.title).flatten = info.title)
    (hbytes : (utf8 info.nameSuffix).length = info.nameSuffix.length)
    (hlen : info.nameSuffix.length ≤ 125) :
    (info.FitsWhole ∧ info.dirName checks graphemes = some (info.title ++ info.nameSuffix)) ∨
    (¬ info.FitsWhole ∧ ∃ front, front <+: graphemes info.title ∧
      (front = [] ∨ Room (125 - info.nameSuffix.length) (255 - info.nameSuffix.length) front ∧
        front.length < (graphemes info.title).length) ∧
      info.dirName checks graphemes = some (front.flatten ++ ['.', '.', '.'] ++ info.nameSuffix) ∧
      ∀ f rest, graphemes info.title = f ++ rest → rest ≠ [] →
        Room (125 - info.nameSuffix.length) (255 - info.nameSuffix.length) f → f <+: front) := by
  have hchars : usizeSub checks 125 info.nameSuffix.length =
      some (125 - info.nameSuffix.length) := usizeSub_of_le hlen
  have hsize : usizeSub checks 255 info.nameSuffix.length =
      some (255 - info.nameSuffix.length) := usizeSub_of_le (Nat.le_trans hlen (by decide))
  unfold GalleryMeta.dirName
  simp only [hbytes, hchars, hsize, Option.bind_eq_bind, Option.bind_some]
  split
  · rename_i hfits
    refine .inl ⟨?_, rfl⟩
    unfold GalleryMeta.FitsWhole
    omega
  · rename_i hlong
    refine .inr ⟨?_, ?_⟩
    · unfold GalleryMeta.FitsWhole
      omega
    · rcases truncatePos_greatest (graphemes info.title) (List.nil_append _).symm
          List.nil_prefix (.inl rfl) (fun _ _ _ _ _ h => absurd h (Nat.not_lt_zero _)) with
        ⟨front, hfront, hroom, hpos, hgreatest⟩
      refine ⟨front, hfront, hroom, ?_, hgreatest⟩
      -- the cut is at the end of a grapheme
      have hslice : sliceTo info.title (utf8 front.flatten).length = some front.flatten := by
        rcases hfront with ⟨rest, hrest⟩
        have htitle : info.title = front.flatten ++ rest.flatten := by
          rw [← List.flatten_append, hrest, hgraphemes]
        rw [htitle]
        exact sliceTo_append _ _
      have hcut : truncatePos (125 - info.nameSuffix.length) (255 - info.nameSuffix.length) 0 0 0
          (graphemes info.title) = (utf8 front.flatten).length := hpos
      rw [hcut, hslice]
      rfl

/-- A name within the limits shows that the gallery fits. -/
theorem fits_of_within {checks : Bool} {name : Text}
    (hgraphemes : (graphemes info.title).flatten = info.title)
    (hbytes : (utf8 info.nameSuffix).length = info.nameSuffix.length)
    (hname : info.dirName checks graphemes = some name) (hwithin : info.Within graphemes name) :
    info.FitsWhole ∨ info.FitsCut graphemes := by
  have hlen : info.nameSuffix.length ≤ 125 := by
    rcases dirName_shape hname with ⟨front, rfl, -⟩
    have := hwithin.chars
    rw [List.length_append] at this
    omega
  rcases dirName_of_le checks hgraphemes hbytes hlen with
    ⟨hfits, -⟩ | ⟨-, front, -, -, hdir, hgreatest⟩
  · exact .inl hfits
  · rw [hdir] at hname
    cases hname
    have hchars := hwithin.chars
    simp only [List.length_append, List.length_cons, List.length_nil] at hchars
    refine .inr ⟨by omega, ?_⟩
    -- no leading graphemes with room for them are longer than those in the name
    intro f rest hf hrest hcount hsize
    have hroom : Room (125 - info.nameSuffix.length) (255 - info.nameSuffix.length) f := by
      unfold Room
      omega
    have := (flatten_mono (hgreatest f rest hf hrest hroom)).1
    omega

theorem within_of_whole (hbytes : (utf8 info.nameSuffix).length = info.nameSuffix.length)
    (hwhole : info.FitsWhole) : info.Within graphemes (info.title ++ info.nameSuffix) where
  chars := by
    rw [List.length_append]
    exact hwhole.1
  bytes := by
    rw [utf8_append, List.length_append, hbytes]
    exact hwhole.2
  shape := .inl rfl

/-- A cut title, if the graphemes in front of the cut fit. -/
theorem within_of_cut {front rest : List Text}
    (hbytes : (utf8 info.nameSuffix).length = info.nameSuffix.length)
    (hcut : info.FitsCut graphemes) (hrest : graphemes info.title = front ++ rest)
    (hroom : front = [] ∨ Room (125 - info.nameSuffix.length) (255 - info.nameSuffix.length) front ∧
      front.length < (graphemes info.title).length) :
    info.Within graphemes (front.flatten ++ ['.', '.', '.'] ++ info.nameSuffix) := by
  rcases hcut with ⟨hshort, hcut⟩
  have hdots : (utf8 ['.', '.', '.']).length = 3 := by decide +kernel
  have hlimits : front.flatten.length + info.nameSuffix.length ≤ 122 ∧
      (utf8 front.flatten).length + info.nameSuffix.length ≤ 252 := by
    rcases hroom with rfl | ⟨hroom, hless⟩
    · exact ⟨by simpa using hshort, by simpa [utf8] using Nat.le_trans hshort (by decide)⟩
    · unfold Room at hroom
      have hmore : rest ≠ [] := by
        rintro rfl
        rw [hrest, List.append_nil] at hless
        exact Nat.lt_irrefl _ hless
      exact ⟨hcut front rest hrest hmore (by omega) (by omega), by omega⟩
  refine ⟨?_, ?_, .inr ⟨front, rest, hrest, rfl⟩⟩
  · simp only [List.length_append, List.length_cons, List.length_nil]
    omega
  · rw [utf8_append, utf8_append, List.length_append, List.length_append, hdots, hbytes]
    omega

/-- **The directory name of an accepted gallery keeps both limits exactly when the title
fits, or its graphemes are not longer than the loop takes them for.** -/
theorem dirName_within_iff (sha1 : Bytes → Digest) (key : Text) (raw : List Text)
    (info : GalleryMeta) (h : parser sha1 key raw = .ok info) (checks : Bool)
    (graphemes : Text → List Text) (hgraphemes : (graphemes info.title).flatten = info.title) :
    (∃ name, info.dirName checks graphemes = some name ∧ info.Within graphemes name) ↔
      info.FitsWhole ∨ info.FitsCut graphemes := by
  have hbytes := utf8_nameSuffix_length h
  constructor
  · rintro ⟨name, hname, hwithin⟩
    exact fits_of_within hgraphemes hbytes hname hwithin
  · intro hfits
    have hlen : info.nameSuffix.length ≤ 125 := by
      rcases hfits with hwhole | hcut
      · have := hwhole.1
        omega
      · have := hcut.1
        omega
    rcases dirName_of_le checks hgraphemes hbytes hlen with
      ⟨hwhole, hdir⟩ | ⟨hlong, front, ⟨rest, hrest⟩, hroom, hdir, -⟩
    · exact ⟨_, hdir, within_of_whole hbytes hwhole⟩
    · have hcut := hfits.resolve_left hlong
      exact ⟨_, hdir, within_of_cut hbytes hcut hrest.symm hroom⟩

end

/-- `climbingGallery` under another title. -/
def titledGallery (title : Text) : List Text :=
  ["GID 5".toList, "FILECOUNT 1".toList, "MINXRES org".toList,
    "DLHASH ".toList ++ encode galleryDigest.toList, "TITLE ".toList ++ title, "FILELIST".toList,
    "1 7 org unknown jpg a".toList, "INFORMATION".toList, "text".toList]

/-- Graphemes of letters with combining accents. -/
def accentGraphemes : Text → List Text
  | [] => []
  | c :: s =>
      match accentGraphemes s with
      | ('\u0301' :: g) :: gs => (c :: '\u0301' :: g) :: gs
      | gs => [c] :: gs

theorem accentGraphemes_flatten (t : Text) : (accentGraphemes t).flatten = t := by
  induction t with
  | nil => rfl
  | cons c t ih =>
      unfold accentGraphemes
      split
      · rename_i g gs heq
        rw [heq] at ih
        rw [← ih]
        rfl
      · rw [List.flatten_cons, ih]
        rfl

theorem accentGraphemes_ne_nil {t g : Text} (h : g ∈ accentGraphemes t) : g ≠ [] := by
  induction t generalizing g with
  | nil => cases h
  | cons c t ih =>
      unfold accentGraphemes at h
      split at h
      · rename_i gs heq
        rcases List.mem_cons.mp h with rfl | h
        · nofun
        · exact ih (heq ▸ List.mem_cons_of_mem _ h)
      · rcases List.mem_cons.mp h with rfl | h
        · nofun
        · exact ih h

/-- Eighty accented letters. -/
def accentTitle : Text := (List.replicate 80 ['e', '\u0301']).flatten

/-- Eighty letters of two characters each: 79 of them are kept. -/
theorem accents_exceed :
    ∃ info, parser gallerySha1 "key".toList (titledGallery accentTitle) = .ok info ∧
      (accentGraphemes info.title).flatten = info.title ∧
      (∀ g ∈ accentGraphemes info.title, g ≠ []) ∧
      (info.dirName false accentGraphemes).map List.length = some 165 ∧
      ¬ ∃ name, info.dirName false accentGraphemes = some name ∧
        info.Within accentGraphemes name := by
  refine ⟨{ climbingMeta with title := accentTitle }, by decide +kernel,
    accentGraphemes_flatten _, fun _ => accentGraphemes_ne_nil, by decide +kernel, ?_⟩
  rintro ⟨name, hname, hwithin⟩
  have hlen : ({ climbingMeta with title := accentTitle }.dirName false accentGraphemes).map
      List.length = some 165 := by decide +kernel
  rw [hname] at hlen
  have := hwithin.chars
  rw [Option.some.inj hlen] at this
  revert this
  decide

theorem flatten_length_of_single {gs : List Text} (h : ∀ g ∈ gs, g.length = 1) :
    gs.flatten.length = gs.length := by
  induction gs with
  | nil => rfl
  | cons g gs ih =>
      rw [List.flatten_cons, List.length_append, h g List.mem_cons_self,
        ih fun t ht => h t (List.mem_cons_of_mem g ht), List.length_cons]
      omega

/-- A long plain title is cut. -/
theorem dirName_within_long :
    ∃ info, parser gallerySha1 "key".toList (titledGallery (List.replicate 130 'a')) = .ok info ∧
      ∃ name, info.dirName true (·.map ([·])) = some name ∧ info.Within (·.map ([·])) name := by
  have h : parser gallerySha1 "key".toList (titledGallery (List.replicate 130 'a')) =
      .ok { climbingMeta with title := List.replicate 130 'a' } := by decide +kernel
  refine ⟨_, h, (dirName_within_iff _ _ _ _ h true _ (List.flatMap_singleton' _)).mpr
    (.inr ⟨by decide +kernel, ?_⟩)⟩
  -- a grapheme is a character here
  intro front rest hfront _ hcount _
  have hchars : front.flatten.length = front.length := by
    have hone : ∀ g ∈ front, g.length = 1 := by
      intro g hg
      have hmem : g ∈ (List.replicate 130 'a').map ([·]) := hfront ▸ List.mem_append_left rest hg
      rcases List.mem_map.mp hmem with ⟨c, -, rfl⟩
      rfl
    exact flatten_length_of_single hone
  omega

end Hath.Gallery
