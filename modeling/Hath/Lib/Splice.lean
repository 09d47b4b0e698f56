import Mathlib.Data.List.Basic

/-!
# Positional writes

`splice z file pos data` is the content of a file after `data` has been written
at position `pos`: bytes below `pos` and above the written range stay, a gap
between the old end and `pos` reads as `z`.
-/

namespace Lib

universe u

variable {α : Type u}

/-- Overwrite `file` from `pos` on with `data`. -/
def splice (z : α) (file : List α) (pos : Nat) (data : List α) : List α :=
  (file ++ List.replicate (pos - file.length) z).take pos ++ data ++
    file.drop (pos + data.length)

/-- Writing at the end appends. -/
@[simp] theorem splice_length_self (z : α) (file data : List α) :
    splice z file file.length data = file ++ data := by
  simp [splice]

end Lib
