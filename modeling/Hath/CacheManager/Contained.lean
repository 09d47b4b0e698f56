import Hath.Path
import Hath.Text

/-!
# Hath.CacheManager.Contained — where the file of an id lies

`to_path` pushes the range directories and then the file name, and the file name ends
in the last field of the id as it came in. Everything before that field is hexadecimal
digits, decimal numbers and dashes, so whether the path stays in its range directory is
a question about the last field only.

* `toPath_contained_iff` — the path is in its range directory exactly when the last
  field holds nothing but empty pieces and single dots after its first separator;
* `toPath_escapes` — an accepted id whose path leaves the cache directory.
-/

namespace Hath.CacheFileInfo

/-- The directory that `check_cache_usage` derives from a static range. -/
def targetDir (cacheDir sr : Text) : Text :=
  push (push cacheDir (sr.take 2)) ((sr.drop 2).take 2)

/-- The field of an id that `from_file_id` keeps as the file type. -/
def typeField (id : Text) : Text :=
  let part := id.splitOn '-'
  ((if part.length = 3 then part[2]? else part[4]?).getD [])

/-- The path of a file is the cache directory and three names: the two pairs of digits of
its range, which is the directory that the cleanup uses, and a file name. -/
def InRangeDir (info : CacheFileInfo) (cacheDir : Text) : Prop :=
  let hash := encode info.hash.toList
  components (targetDir cacheDir info.staticRange) =
      components cacheDir ++ [.normal (hash.take 2), .normal ((hash.drop 2).take 2)] ∧
    ∃ name, components (info.toPath cacheDir) =
      components cacheDir ++
        [.normal (hash.take 2), .normal ((hash.drop 2).take 2), .normal name]

/-- Nothing but empty pieces and single dots after the first separator. -/
def NoSubpath (field : Text) : Prop :=
  ∀ piece ∈ (field.splitOn '/').tail, piece = [] ∨ piece = ['.']

instance (field : Text) : Decidable (NoSubpath field) :=
  inferInstanceAs (Decidable (∀ _ ∈ _, _))

/-! ## The fields of an id -/

theorem asStr_ofText (s : Text) : (FileType.ofText s).asStr = s := by
  unfold FileType.ofText
  split_ifs with h₁ h₂ h₃ h₄ h₅ h₆ h₇ h₈
  · exact h₁.symm
  · exact h₂.symm
  · exact h₃.symm
  · exact h₄.symm
  · exact h₅.symm
  · exact h₆.symm
  · exact h₇.symm
  · exact h₈.symm
  · rfl

/-- The file type is printed as it stood in the id. -/
theorem asStr_mimeType {id : Text} {info : CacheFileInfo} (h : fromFileId id = some info) :
    info.mimeType.asStr = typeField id := by
  show _ = ((if (id.splitOn '-').length = 3 then (id.splitOn '-')[2]?
    else (id.splitOn '-')[4]?).getD [])
  by_cases hcount : (id.splitOn '-').length = 3
  · simp only [fromFileId, hcount, if_true, Option.bind_eq_bind, Option.bind_eq_some_iff] at h
    rcases h with ⟨hash, -, size, -, xres, -, yres, -, field, hfield, hinfo⟩
    rw [← Option.some.inj hinfo, asStr_ofText, if_pos hcount, hfield]
    rfl
  · simp only [fromFileId, hcount, if_false, Option.bind_eq_bind, Option.bind_eq_some_iff] at h
    rcases h with ⟨hash, -, size, -, xres, -, yres, -, field, hfield, hinfo⟩
    rw [← Option.some.inj hinfo, asStr_ofText, if_neg hcount, hfield]
    rfl

/-! ## The range directories -/

/-- The first two bytes of a hash give its first four digits. -/
theorem encode_hash (info : CacheFileInfo) :
    ∃ w x y z rest, encode info.hash.toList = w :: x :: y :: z :: rest ∧
      info.staticRange = [w, x, y, z] := by
  have hlen : info.hash.toList.length = 20 := Vector.length_toList
  unfold staticRange
  match hbytes : info.hash.toList with
  | [] =>
      rw [hbytes] at hlen
      cases hlen
  | [_] =>
      rw [hbytes] at hlen
      cases hlen
  | b₁ :: b₂ :: rest =>
      exact ⟨_, _, _, _, encode rest, rfl, rfl⟩

/-- A hexadecimal digit is neither a separator nor a dot. -/
theorem hex_ne {c : Char} (h : isLowerHex c = true) : c ≠ '/' ∧ c ≠ '.' := by
  constructor
  · rintro rfl
    revert h
    decide
  · rintro rfl
    revert h
    decide

/-- Pushing two hexadecimal digits adds a name. -/
theorem components_push_hex {path : Text} {c d : Char} (hc : isLowerHex c = true)
    (hd : isLowerHex d = true) :
    components (push path [c, d]) = components path ++ [.normal [c, d]] := by
  apply components_push_name
  refine ⟨?_, component_of_mem List.mem_cons_self (hex_ne hc).2⟩
  intro hm
  rcases List.mem_cons.mp hm with h | h
  · exact (hex_ne hc).1 h.symm
  · exact (hex_ne hd).1 (List.mem_singleton.mp h).symm

theorem components_targetDir (info : CacheFileInfo) (cacheDir : Text) :
    components (targetDir cacheDir info.staticRange) = components cacheDir ++
      [.normal ((encode info.hash.toList).take 2),
        .normal (((encode info.hash.toList).drop 2).take 2)] := by
  rcases encode_hash info with ⟨w, x, y, z, rest, hhash, hsr⟩
  have hhex : ∀ c ∈ [w, x, y, z], isLowerHex c = true := by
    intro c hc
    have hmem : c ∈ encode info.hash.toList := by
      rw [hhash]
      exact List.mem_append_left rest hc
    exact encode_isLowerHex hmem
  have hdir : targetDir cacheDir [w, x, y, z] = push (push cacheDir [w, x]) [y, z] := rfl
  rw [hhash, hsr, hdir, components_push_hex (hhex y (by simp)) (hhex z (by simp)),
    components_push_hex (hhex w (by simp)) (hhex x (by simp)), List.append_assoc]
  rfl

/-- `to_path` is the directory of the range and the file name in it. -/
theorem toPath_eq (info : CacheFileInfo) (cacheDir : Text) :
    info.toPath cacheDir = push (targetDir cacheDir info.staticRange) info.fileName := by
  rcases encode_hash info with ⟨w, x, y, z, rest, hhash, hsr⟩
  unfold toPath targetDir
  rw [hhash, hsr]
  rfl

/-! ## The file name -/

theorem not_mem_encode {c : Char} (h : isLowerHex c = false) (bytes : Bytes) : c ∉ encode bytes := by
  intro hc
  rw [encode_isLowerHex hc] at h
  cases h

/-- What stands before the file type: a text with a dash and without a separator. -/
theorem fileName_eq (info : CacheFileInfo) :
    ∃ pre, info.fileName = pre ++ info.mimeType.asStr ∧ '-' ∈ pre ∧ '/' ∉ pre := by
  have hhash : '/' ∉ encode info.hash.toList := not_mem_encode (by decide) _
  have hdec (n : U32) : '/' ∉ Nat.toDigits 10 n.toNat := not_mem_natText (by decide)
  unfold fileName
  split
  · refine ⟨encode info.hash.toList ++ '-' :: Nat.toDigits 10 info.size.toNat ++
      '-' :: Nat.toDigits 10 info.xres.toNat ++ '-' :: Nat.toDigits 10 info.yres.toNat ++ ['-'],
      ?_, ?_, ?_⟩
    · rw [List.append_assoc _ ['-']]
      rfl
    · exact List.mem_append_right _ List.mem_cons_self
    · simp [hhash, hdec]
  · refine ⟨encode info.hash.toList ++ '-' :: Nat.toDigits 10 info.size.toNat ++ ['-'], ?_, ?_, ?_⟩
    · rw [List.append_assoc _ ['-']]
      rfl
    · exact List.mem_append_right _ List.mem_cons_self
    · simp [hhash, hdec]

/-- The components that pushing the file name adds: a name, and whatever the file type has
after its first separator. -/
theorem components_toPath (info : CacheFileInfo) (cacheDir : Text) :
    ∃ name, components (info.toPath cacheDir) =
      components (targetDir cacheDir info.staticRange) ++
        .normal name :: ((info.mimeType.asStr.splitOn '/').tail).filterMap component := by
  rcases fileName_eq info with ⟨pre, hname, hdash, hsep⟩
  -- the first piece of the type goes to the file name
  obtain ⟨t, hpieces⟩ : ∃ t, info.fileName.splitOn '/' =
      (pre ++ t) :: (info.mimeType.asStr.splitOn '/').tail := by
    rw [hname, Lib.Separated.splitOn_append_of_not_mem hsep]
    cases hs : info.mimeType.asStr.splitOn '/' with
    | nil => exact absurd hs (List.splitOn_ne_nil '/' info.mimeType.asStr)
    | cons t ts => exact ⟨t, rfl⟩
  have hcomp : component (pre ++ t) = some (.normal (pre ++ t)) :=
    component_of_mem (List.mem_append_left t hdash) (by decide)
  refine ⟨pre ++ t, ?_⟩
  rw [toPath_eq, components_push, hpieces, List.filterMap_cons_some hcomp]
  · -- the file name starts with a digit
    rw [hname]
    cases pre with
    | nil => cases hdash
    | cons c pre =>
        intro hroot
        exact hsep (Option.some.inj hroot ▸ List.mem_cons_self)
  · rw [hpieces]
    intro hdot
    have hdot : pre ++ t = ['.'] := Option.some.inj hdot
    have hmem : '-' ∈ ['.'] := hdot ▸ List.mem_append_left t hdash
    revert hmem
    decide

/-- No components come from pieces that are all empty or single dots. -/
theorem noSubpath_iff {field : Text} :
    NoSubpath field ↔ ((field.splitOn '/').tail).filterMap component = [] := by
  unfold NoSubpath
  rw [List.filterMap_eq_nil_iff]
  exact forall₂_congr fun piece _ => component_eq_none.symm

/-! ## The path of an accepted id -/

/-- The path of an accepted id stays in its range directory exactly when the last field of
the id has no further path in it. -/
theorem toPath_contained_iff (id cacheDir : Text) (info : CacheFileInfo)
    (h : fromFileId id = some info) :
    info.InRangeDir cacheDir ↔ NoSubpath (typeField id) := by
  rcases components_toPath info cacheDir with ⟨name, hpath⟩
  have hdir := components_targetDir info cacheDir
  rw [noSubpath_iff, ← asStr_mimeType h]
  unfold InRangeDir
  rw [hpath, hdir]
  constructor
  · rintro ⟨-, other, hother⟩
    rw [List.append_assoc] at hother
    have htail := List.append_cancel_left hother
    simp only [List.cons_append, List.nil_append, List.cons.injEq, true_and] at htail
    exact htail.2
  · intro hnone
    refine ⟨rfl, name, ?_⟩
    rw [hnone, List.append_assoc]
    rfl

/-- The id of the file `abc` in the directory `cache`. -/
theorem toPath_contained_abc :
    fromFileId abcInfo.fileName = some abcInfo ∧ abcInfo.InRangeDir "cache".toList := by
  have h : fromFileId abcInfo.fileName = some abcInfo := by decide +kernel
  refine ⟨h, (toPath_contained_iff abcInfo.fileName "cache".toList abcInfo h).mpr ?_⟩
  decide +kernel

/-- A type field that climbs out of the cache. -/
def climbing : Text := "/../../../../etc/key".toList

/-- An id with that type is accepted, and its path leads out of the cache directory. -/
theorem toPath_escapes :
    ∃ info, fromFileId (encode abcDigest.toList ++ "-3-".toList ++ climbing) = some info ∧
      ¬ info.InRangeDir "/cache".toList ∧
      components (info.toPath "/cache".toList) =
        [.rootDir, .normal "cache".toList, .normal "a9".toList, .normal "99".toList,
          .normal (encode abcDigest.toList ++ "-3-".toList), .parentDir, .parentDir, .parentDir,
          .parentDir, .normal "etc".toList, .normal "key".toList] := by
  have hid : fromFileId (encode abcDigest.toList ++ "-3-".toList ++ climbing) =
      some { abcInfo with mimeType := .other climbing } := by decide +kernel
  have hpath : components (toPath { abcInfo with mimeType := .other climbing } "/cache".toList) =
      [.rootDir, .normal "cache".toList, .normal "a9".toList, .normal "99".toList,
        .normal (encode abcDigest.toList ++ "-3-".toList), .parentDir, .parentDir, .parentDir,
        .parentDir, .normal "etc".toList, .normal "key".toList] := by decide +kernel
  refine ⟨_, hid, ?_, hpath⟩
  rintro ⟨-, name, hname⟩
  have hlen := congrArg List.length (hpath.symm.trans hname)
  rw [List.length_append] at hlen
  have hdir : (components "/cache".toList).length = 2 := by decide +kernel
  rw [hdir] at hlen
  cases hlen

end Hath.CacheFileInfo
