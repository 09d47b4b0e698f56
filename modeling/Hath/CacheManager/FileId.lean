import Hath.CacheManager.Contained

/-!
# Hath.CacheManager.FileId — file ids printed and read back

A file id has two shapes, with and without a resolution. `from_file_id` chooses by the
number of fields, `to_path` by `xres > 0`. An id whose first coordinate is zero and whose
second is not is read with its resolution and printed without it.

* `fromFileId_fileName` — what the printed name is read as;
* `fileId_roundTrip_iff` — which ids survive.
-/

namespace Hath.CacheFileInfo

/-- `Path::file_name`. -/
def entryName (path : Text) : Option Text :=
  match (components path).getLast? with
  | some (.normal name) => some name
  | _ => none

/-- The resolution is printed, or it is zero in both coordinates. -/
def Printed (info : CacheFileInfo) : Prop := 0 < info.xres.toNat ∨ info.yres = 0

instance (info : CacheFileInfo) : Decidable info.Printed := inferInstanceAs (Decidable (_ ∨ _))

/-! ## Fields -/

theorem parseU32_natText (n : U32) : parseU32 (natText n.toNat) = some n := by
  have hall := natText_all_isDigit n.toNat
  have hval := digitsValue_natText n.toNat
  have hlt : n.toNat < 4294967296 := n.isLt
  rcases natText_eq_cons n.toNat with ⟨c, ds, hds, -, hplus⟩
  rw [hds] at hall hval ⊢
  unfold parseU32
  split
  · rename_i heq
    exact absurd (List.cons.inj heq).1 hplus
  · simp [hall, hval, hlt]

/-- The type of an accepted id is the one its text stands for, and has no dash. -/
theorem mimeType_of_accepted {id : Text} {info : CacheFileInfo} (h : fromFileId id = some info) :
    FileType.ofText info.mimeType.asStr = info.mimeType ∧ '-' ∉ info.mimeType.asStr := by
  have hfield : ∃ field ∈ id.splitOn '-', info.mimeType = FileType.ofText field := by
    by_cases hcount : (id.splitOn '-').length = 3
    · simp only [fromFileId, hcount, if_true, Option.bind_eq_bind, Option.bind_eq_some_iff] at h
      rcases h with ⟨hash, -, size, -, xres, -, yres, -, field, hfield, hinfo⟩
      exact ⟨field, List.mem_of_getElem? hfield, by rw [← Option.some.inj hinfo]⟩
    · simp only [fromFileId, hcount, if_false, Option.bind_eq_bind, Option.bind_eq_some_iff] at h
      rcases h with ⟨hash, -, size, -, xres, -, yres, -, field, hfield, hinfo⟩
      exact ⟨field, List.mem_of_getElem? hfield, by rw [← Option.some.inj hinfo]⟩
  rcases hfield with ⟨field, hmem, htype⟩
  rw [htype, asStr_ofText]
  exact ⟨rfl, Lib.Separated.not_mem_of_mem_splitOn hmem⟩

/-! ## The printed name -/

section

variable {info : CacheFileInfo}

theorem dash_not_mem_hash (info : CacheFileInfo) : '-' ∉ encode info.hash.toList :=
  not_mem_encode (by decide) _

theorem dash_not_mem_dec (n : U32) : '-' ∉ natText n.toNat := not_mem_natText (by decide)

/-- The fields of a name with a resolution. -/
theorem splitOn_long (hdash : '-' ∉ info.mimeType.asStr) (hxres : 0 < info.xres.toNat) :
    info.fileName.splitOn '-' = [encode info.hash.toList, natText info.size.toNat,
      natText info.xres.toNat, natText info.yres.toNat, info.mimeType.asStr] := by
  have hname : info.fileName = encode info.hash.toList ++ '-' :: (natText info.size.toNat ++
      '-' :: (natText info.xres.toNat ++ '-' :: (natText info.yres.toNat ++
        '-' :: info.mimeType.asStr))) := by
    unfold fileName
    rw [if_pos hxres]
    simp only [natText, List.append_assoc, List.cons_append]
  rw [hname, List.splitOn_append_cons_self_of_not_mem (dash_not_mem_hash info),
    List.splitOn_append_cons_self_of_not_mem (dash_not_mem_dec _),
    List.splitOn_append_cons_self_of_not_mem (dash_not_mem_dec _),
    List.splitOn_append_cons_self_of_not_mem (dash_not_mem_dec _),
    List.splitOn_eq_singleton hdash]

/-- The fields of a name without one. -/
theorem splitOn_short (hdash : '-' ∉ info.mimeType.asStr) (hxres : ¬ 0 < info.xres.toNat) :
    info.fileName.splitOn '-' =
      [encode info.hash.toList, natText info.size.toNat, info.mimeType.asStr] := by
  have hname : info.fileName = encode info.hash.toList ++ '-' :: (natText info.size.toNat ++
      '-' :: info.mimeType.asStr) := by
    unfold fileName
    rw [if_neg hxres]
    simp only [natText, List.append_assoc, List.cons_append]
  rw [hname, List.splitOn_append_cons_self_of_not_mem (dash_not_mem_hash info),
    List.splitOn_append_cons_self_of_not_mem (dash_not_mem_dec _),
    List.splitOn_eq_singleton hdash]

/-- The printed name is read as the info, without a second coordinate if the first is
zero. -/
theorem fromFileId_fileName {id : Text} (h : fromFileId id = some info) :
    fromFileId info.fileName =
      some (if 0 < info.xres.toNat then info else { info with yres := 0 }) := by
  rcases mimeType_of_accepted h with ⟨htype, hdash⟩
  by_cases hxres : 0 < info.xres.toNat
  · rw [if_pos hxres]
    unfold fromFileId
    rw [splitOn_long hdash hxres]
    simp [decodeToArray_encode, parseU32_natText, htype]
  · have hzero : info.xres = 0 := BitVec.eq_of_toNat_eq (by simpa using hxres)
    rw [if_neg hxres]
    unfold fromFileId
    rw [splitOn_short hdash hxres]
    simp [decodeToArray_encode, parseU32_natText, htype, hzero]

/-- An accepted id survives exactly if its resolution is printed. -/
theorem fromFileId_fileName_iff {id : Text} (h : fromFileId id = some info) :
    fromFileId info.fileName = some info ↔ info.Printed := by
  rw [fromFileId_fileName h]
  unfold Printed
  by_cases hxres : 0 < info.xres.toNat
  · simp [hxres]
  · rw [if_neg hxres, Option.some_inj]
    constructor
    · intro heq
      exact .inr (congrArg CacheFileInfo.yres heq).symm
    · rintro (hpos | hy)
      · exact absurd hpos hxres
      · rw [← hy]

/-! ## The file -/

theorem fileName_isName (hsep : '/' ∉ info.mimeType.asStr) : IsName info.fileName := by
  rcases fileName_eq info with ⟨pre, hname, hdash, hpre⟩
  rw [hname]
  refine ⟨?_, component_of_mem (List.mem_append_left _ hdash) (by decide)⟩
  intro hm
  rcases List.mem_append.mp hm with hm | hm
  · exact hpre hm
  · exact hsep hm

/-- The file lies in the directory of its range, under the printed name. -/
theorem components_toPath_name (hsep : '/' ∉ info.mimeType.asStr) (cacheDir : Text) :
    components (info.toPath cacheDir) =
      components (targetDir cacheDir info.staticRange) ++ [.normal info.fileName] := by
  rw [toPath_eq]
  exact components_push_name (fileName_isName hsep)

theorem entryName_toPath (hsep : '/' ∉ info.mimeType.asStr) (cacheDir : Text) :
    entryName (info.toPath cacheDir) = some info.fileName := by
  unfold entryName
  rw [components_toPath_name hsep, List.getLast?_concat]

end

/-- **Two accepted ids are read back from their file names and have different files unless
they are the same, exactly if each has its resolution printed.** -/
theorem fileId_roundTrip_iff (id id' cacheDir : Text) (info info' : CacheFileInfo)
    (h : fromFileId id = some info) (h' : fromFileId id' = some info')
    (hsep : '/' ∉ info.mimeType.asStr) (hsep' : '/' ∉ info'.mimeType.asStr) :
    ((entryName (info.toPath cacheDir)).bind fromFileId = some info ∧
      (entryName (info'.toPath cacheDir)).bind fromFileId = some info' ∧
      (info ≠ info' → info.fileName ≠ info'.fileName ∧
        components (info.toPath cacheDir) ≠ components (info'.toPath cacheDir))) ↔
    info.Printed ∧ info'.Printed := by
  rw [entryName_toPath hsep, entryName_toPath hsep', Option.bind_some, Option.bind_some,
    fromFileId_fileName_iff h, fromFileId_fileName_iff h']
  constructor
  · rintro ⟨hp, hp', -⟩
    exact ⟨hp, hp'⟩
  · rintro ⟨hp, hp'⟩
    refine ⟨hp, hp', ?_⟩
    intro hne
    -- one name cannot be read as two infos
    have hname : info.fileName ≠ info'.fileName := by
      intro heq
      have hread := (fromFileId_fileName_iff h).mpr hp
      rw [heq, (fromFileId_fileName_iff h').mpr hp'] at hread
      exact hne (Option.some.inj hread).symm
    refine ⟨hname, ?_⟩
    intro heq
    rw [components_toPath_name hsep, components_toPath_name hsep'] at heq
    have hlast := (List.append_inj' heq rfl).2
    injection hlast with hlast
    injection hlast with hlast
    exact hname hlast

/-- Ids with upper-case digits, a plus sign, a leading zero, a field too many and `0x`. -/
theorem fileId_roundTrip_lenient :
    ∃ info info', fromFileId ((encode abcDigest.toList).map Char.toUpper ++
        "-+3-0800-600-foo-bar".toList) = some info ∧
      fromFileId ("0x".toList ++ encode abcDigest.toList ++ "-3-jpg".toList) = some info' ∧
      (entryName (info.toPath "cache".toList)).bind fromFileId = some info ∧
      (entryName (info'.toPath "cache".toList)).bind fromFileId = some info' ∧
      info.fileName ≠ info'.fileName ∧
      components (info.toPath "cache".toList) ≠ components (info'.toPath "cache".toList) := by
  have h : fromFileId ((encode abcDigest.toList).map Char.toUpper ++
      "-+3-0800-600-foo-bar".toList) =
      some { abcInfo with xres := 800, yres := 600, mimeType := .other "foo".toList } := by
    decide +kernel
  have h' : fromFileId ("0x".toList ++ encode abcDigest.toList ++ "-3-jpg".toList) =
      some abcInfo := by decide +kernel
  rcases (fileId_roundTrip_iff _ _ "cache".toList _ _ h h' (by decide) (by decide)).mpr
    ⟨by decide, by decide⟩ with ⟨hread, hread', hdiffer⟩
  have hne := hdiffer (by decide)
  exact ⟨_, _, h, h', hread, hread', hne.1, hne.2⟩

/-- A resolution of height only is lost, and its file is that of the id without one. -/
theorem heightOnly_lost :
    ∃ info info', fromFileId (encode abcDigest.toList ++ "-3-0-5-jpg".toList) = some info ∧
      fromFileId (encode abcDigest.toList ++ "-3-jpg".toList) = some info' ∧
      (entryName (info.toPath "cache".toList)).bind fromFileId ≠ some info ∧
      info ≠ info' ∧ info.fileName = info'.fileName := by
  refine ⟨{ abcInfo with yres := 5 }, abcInfo, ?_, ?_, ?_, ?_, ?_⟩
  all_goals decide +kernel

end Hath.CacheFileInfo
