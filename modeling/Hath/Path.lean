import Hath.CacheManager.FileInfo
import Hath.Lib.Separated

/-!
# Hath.Path — components of Unix paths

`Path::components` and how it reads what `push` writes. `components` skips empty
pieces, and single dots except at the front of a relative path; parent components are
kept, since what they lead to depends on the file system.

* `components_push` — the components of a pushed path follow those of the directory.
-/

namespace Hath

open Lib

/-- A component of a path. -/
inductive Component where
  | rootDir
  | curDir
  | parentDir
  | normal (name : Text)
deriving DecidableEq

/-- The component a piece between separators stands for. -/
def component (piece : Text) : Option Component :=
  if piece = [] ∨ piece = ['.'] then none
  else if piece = ['.', '.'] then some .parentDir
  else some (.normal piece)

/-- What a path starts with: the root, or a leading dot. -/
def leading (path : Text) : List Component :=
  if path.head? = some '/' then [.rootDir]
  else if (path.splitOn '/').head? = some ['.'] then [.curDir]
  else []

/-- `Path::components`. -/
def components (path : Text) : List Component :=
  leading path ++ (path.splitOn '/').filterMap component

/-- `is_safe_path` of the gallery downloader: one normal component. -/
def isSafePath (name : Text) : Bool :=
  match components name with
  | [.normal _] => true
  | _ => false

/-! ## Pieces -/

theorem component_eq_none {piece : Text} :
    component piece = none ↔ piece = [] ∨ piece = ['.'] := by
  unfold component
  split
  · rename_i h
    exact ⟨fun _ => h, fun _ => rfl⟩
  · rename_i h
    constructor
    · intro hn
      split at hn <;> cases hn
    · intro hn
      exact absurd hn h

/-- A piece with a character other than a dot is a name. -/
theorem component_of_mem {piece : Text} {c : Char} (h : c ∈ piece) (hc : c ≠ '.') :
    component piece = some (.normal piece) := by
  unfold component
  rw [if_neg, if_neg]
  · rintro rfl
    simp only [List.mem_cons, List.not_mem_nil, or_false, or_self] at h
    exact hc h
  · rintro (rfl | rfl)
    · cases h
    · exact hc (List.mem_singleton.mp h)

/-! ## Pushing -/

/-- The pieces of a directory are not changed by what follows a separator. -/
theorem leading_append {dir rest : Text} (h : dir ≠ []) :
    leading (dir ++ '/' :: rest) = leading dir := by
  unfold leading
  have hhead : (dir ++ '/' :: rest).head? = dir.head? := by
    cases dir with
    | nil => exact absurd rfl h
    | cons c dir => rfl
  have hpieces : ((dir ++ '/' :: rest).splitOn '/').head? = (dir.splitOn '/').head? := by
    rw [List.splitOn_append_cons_self]
    cases hs : dir.splitOn '/' with
    | nil => exact absurd hs (List.splitOn_ne_nil '/' dir)
    | cons p ps => rfl
  rw [hhead, hpieces]

/-- The components of a relative path that does not start with a dot. -/
theorem components_of_relative {path : Text} (hroot : path.head? ≠ some '/')
    (hdot : (path.splitOn '/').head? ≠ some ['.']) :
    components path = (path.splitOn '/').filterMap component := by
  unfold components leading
  rw [if_neg hroot, if_neg hdot, List.nil_append]

theorem components_append {dir rest : Text} (h : dir ≠ []) :
    components (dir ++ '/' :: rest) =
      components dir ++ (rest.splitOn '/').filterMap component := by
  unfold components
  rw [leading_append h, List.splitOn_append_cons_self, List.filterMap_append, List.append_assoc]

/-- What is pushed comes after the components of the directory. -/
theorem components_push {path comp : Text} (hroot : comp.head? ≠ some '/')
    (hdot : (comp.splitOn '/').head? ≠ some ['.']) :
    components (CacheFileInfo.push path comp) =
      components path ++ (comp.splitOn '/').filterMap component := by
  unfold CacheFileInfo.push
  rw [if_neg hroot]
  split
  · rename_i h
    rcases h with rfl | hlast
    · rw [List.nil_append, components_of_relative hroot hdot]
      rfl
    · -- the directory ends in a separator: its last piece is empty
      rcases List.getLast?_eq_some_iff.mp hlast with ⟨dir, rfl⟩
      rw [List.append_assoc, List.singleton_append]
      cases dir with
      | nil =>
          have hpieces : ('/' :: comp).splitOn '/' = [] :: comp.splitOn '/' :=
            List.splitOn_append_cons_self_of_not_mem List.not_mem_nil comp
          unfold components leading
          rw [List.nil_append, List.nil_append, hpieces]
          rfl
      | cons c dir =>
          have hdir : c :: dir ≠ [] := List.cons_ne_nil c dir
          rw [components_append hdir, components_append hdir]
          simp [component]
  · rename_i h
    exact components_append (fun he => h (.inl he))

/-- One plain name: no separator, and read as that name. -/
def IsName (name : Text) : Prop := '/' ∉ name ∧ component name = some (.normal name)

instance (name : Text) : Decidable (IsName name) := inferInstanceAs (Decidable (_ ∧ _))

/-- A name without separators is not read as a root or a leading dot. -/
theorem name_relative {name : Text} (h : IsName name) :
    name.head? ≠ some '/' ∧ (name.splitOn '/').head? ≠ some ['.'] ∧
      (name.splitOn '/').filterMap component = [.normal name] := by
  rcases h with ⟨hsep, hname⟩
  have hpieces : name.splitOn '/' = [name] := List.splitOn_eq_singleton hsep
  refine ⟨?_, ?_, ?_⟩
  · intro hroot
    exact hsep (List.mem_of_head? hroot)
  · intro hdot
    rw [hpieces] at hdot
    rw [component_eq_none.mpr (.inr (Option.some.inj hdot))] at hname
    cases hname
  · rw [hpieces, List.filterMap_cons_some hname]
    rfl

/-- A name is one component. -/
theorem components_name {name : Text} (h : IsName name) : components name = [.normal name] := by
  rcases name_relative h with ⟨hroot, hdot, hpieces⟩
  rw [components_of_relative hroot hdot, hpieces]

/-- Pushing a name adds that name. -/
theorem components_push_name {path name : Text} (h : IsName name) :
    components (CacheFileInfo.push path name) = components path ++ [.normal name] := by
  rcases name_relative h with ⟨hroot, hdot, hpieces⟩
  rw [components_push hroot hdot, hpieces]

end Hath
