import Mathlib.Data.List.Nodup
import Mathlib.Data.List.Perm.Basic

/-!
# Association lists with distinct keys

A directory is a list of names with their contents in which no name comes twice. For such
a list `lookup` finds exactly the members, and taking a key out removes one pair.
-/

namespace Lib.Assoc

universe u v

variable {κ : Type u} {α : Type v} {l : List (κ × α)} {k : κ} {a : α}

theorem nodup_filter (h : (l.map Prod.fst).Nodup) (p : κ × α → Bool) :
    ((l.filter p).map Prod.fst).Nodup :=
  (List.filter_sublist.map Prod.fst).nodup h

theorem lookup_eq_some [BEq κ] [LawfulBEq κ] (h : (l.map Prod.fst).Nodup) :
    l.lookup k = some a ↔ (k, a) ∈ l := by
  induction l with
  | nil => simp
  | cons e l ih =>
      rcases e with ⟨k', a'⟩
      rw [List.map_cons, List.nodup_cons] at h
      by_cases hk : k = k'
      · subst hk
        rw [List.lookup_cons_self, Option.some.injEq, List.mem_cons, Prod.mk.injEq]
        constructor
        · rintro rfl
          exact .inl ⟨rfl, rfl⟩
        · rintro (⟨-, rfl⟩ | hmem)
          · rfl
          · exact absurd (List.mem_map_of_mem (f := Prod.fst) hmem) h.1
      · have hbeq : (k == k') = false := beq_eq_false_iff_ne.mpr hk
        rw [List.lookup_cons, hbeq, List.mem_cons, Prod.mk.injEq]
        simpa [hk] using ih h.2

variable [DecidableEq κ]

/-- Taking out a key that is not there. -/
theorem filter_ne_of_not_mem (h : k ∉ l.map Prod.fst) : l.filter (fun e => e.1 ≠ k) = l := by
  rw [List.filter_eq_self]
  intro e he
  exact decide_eq_true fun hk => h (hk ▸ List.mem_map_of_mem he)

/-- A pair and the rest of the list. -/
theorem perm_cons_filter (h : (l.map Prod.fst).Nodup) (hmem : (k, a) ∈ l) :
    l.Perm ((k, a) :: l.filter fun e => e.1 ≠ k) := by
  rcases List.append_of_mem hmem with ⟨l₁, l₂, rfl⟩
  rw [List.map_append, List.map_cons, List.nodup_middle, List.nodup_cons, List.mem_append,
    not_or] at h
  rw [List.filter_append, List.filter_cons_of_neg (by simp), filter_ne_of_not_mem h.1.1,
    filter_ne_of_not_mem h.1.2]
  exact List.perm_middle

end Lib.Assoc
